import Vsnfs.BaseBuffer

/-! Decimal text and its parser, after the C library functions: the text of a signed number, the
bounded print of it into a fixed field, and a parser of unsigned numbers that guesses its base from
the text. A field of `width` bytes holds the numbers below `10 ^ (width - 1)`; every longer one is
cut, and the parser then finds a smaller number. -/

namespace Vsnfs.Base

def charByte (char : Char) : Byte := BitVec.ofNat 8 char.toNat

/-- The text `%ld` prints. -/
def decimalText (value : Int) : List Byte :=
  (if value < 0 then [charByte '-'] else []) ++ (Nat.toDigits 10 value.natAbs).map charByte

/-- `snprintf`: at most `width - 1` bytes of the text and a terminator; the other bytes stay. -/
def snprintfInto (field : List Byte) (width : Nat) (text : List Byte) : List Byte :=
  overwrite field 0 (text.take (width - 1) ++ [0])

/-- The value of a hexadecimal digit, `none` for every other byte. -/
def digitValue (byte : Byte) : Option Nat :=
  if 0x30 ≤ byte.toNat ∧ byte.toNat ≤ 0x39 then some (byte.toNat - 0x30)
  else if 0x61 ≤ (byte ||| 0x20).toNat ∧ (byte ||| 0x20).toNat ≤ 0x66 then
    some ((byte ||| 0x20).toNat - 0x61 + 10)
  else none

/-- `simple_guess_base`: `0x` and a digit is base 16, another leading `0` is base 8. -/
def simpleGuessBase (text : List Byte) : Nat :=
  if text.getD 0 0 = charByte '0' then
    if text.getD 1 0 ||| 0x20 = charByte 'x' ∧ (digitValue (text.getD 2 0)).isSome then 16 else 8
  else 10

/-- The digit loop of `simple_strtoul`; the arithmetic is that of a 64-bit unsigned number. -/
def strtoulLoop (base : Nat) : List Byte → BitVec 64 → BitVec 64
  | [], result => result
  | byte :: rest, result =>
      match digitValue byte with
      | none => result
      | some value =>
          if base ≤ value then result
          else strtoulLoop base rest (result * BitVec.ofNat 64 base + BitVec.ofNat 64 value)

/-- `simple_strtoul(cp, .., 0)` on the memory at `cp`. -/
def simpleStrtoul (text : List Byte) : BitVec 64 :=
  if simpleGuessBase text = 16 then strtoulLoop 16 (text.drop 2) 0
  else strtoulLoop (simpleGuessBase text) text 0

/-- `simple_strtol(cp, .., 0)`: a minus sign and the unsigned parser. -/
def simpleStrtol (text : List Byte) : BitVec 64 :=
  if text.getD 0 0 = charByte '-' then -simpleStrtoul (text.drop 1) else simpleStrtoul text

/-- The number the digits spell after what was read already, `none` if one of them is no digit of the
base. -/
def spelledNumber (base : Nat) : List Byte → Nat → Option Nat
  | [], number => some number
  | byte :: rest, number =>
      match digitValue byte with
      | none => none
      | some value => if base ≤ value then none else spelledNumber base rest (number * base + value)

/-- A text that is one unsigned number in C notation as a whole, and the number. -/
def unsignedNumber (text : List Byte) : Option Nat :=
  if text = [] then none
  else if simpleGuessBase text = 16 then spelledNumber 16 (text.drop 2) 0
  else spelledNumber (simpleGuessBase text) text 0

/-- The digit loop finds the number that is spelled, up to the width of its arithmetic. -/
theorem strtoulLoop_spelled {base : Nat} {text : List Byte} {init number : Nat}
    (h : spelledNumber base text init = some number) :
    strtoulLoop base text (BitVec.ofNat 64 init) = BitVec.ofNat 64 number := by
  induction text generalizing init with
  | nil => rw [strtoulLoop, Option.some.inj h]
  | cons byte text ih =>
      rw [spelledNumber] at h
      rw [strtoulLoop]
      cases hdigit : digitValue byte with
      | none => simp [hdigit] at h
      | some value =>
          simp only [hdigit] at h ⊢
          by_cases hvalue : base ≤ value
          · simp [hvalue] at h
          · rw [if_neg hvalue] at h ⊢
            rw [← BitVec.ofNat_mul, ← BitVec.ofNat_add]
            exact ih h

theorem simpleStrtoul_of_number {text : List Byte} {number : Nat} (h : unsignedNumber text = some number) :
    simpleStrtoul text = BitVec.ofNat 64 number := by
  rw [unsignedNumber] at h
  rw [simpleStrtoul]
  split at h
  · cases h
  · by_cases hbase : simpleGuessBase text = 16
    · rw [if_pos hbase] at h ⊢
      exact strtoulLoop_spelled h
    · rw [if_neg hbase] at h ⊢
      exact strtoulLoop_spelled h

/-- A number does not start with a sign. -/
theorem simpleStrtol_of_number {text : List Byte} {number : Nat} (h : unsignedNumber text = some number) :
    simpleStrtol text = BitVec.ofNat 64 number := by
  rw [simpleStrtol, if_neg, simpleStrtoul_of_number h]
  intro hminus
  cases text with
  | nil => exact absurd hminus (by decide)
  | cons byte text =>
      rw [List.getD_cons_zero] at hminus
      subst hminus
      have hbase : simpleGuessBase (charByte '-' :: text) = 10 := by
        rw [simpleGuessBase, List.getD_cons_zero, if_neg (by decide)]
      rw [unsignedNumber, if_neg (by simp), hbase, if_neg (by decide), spelledNumber,
        show digitValue (charByte '-') = none from by decide] at h
      cases h

theorem charByte_toNat {char : Char} (h : char.toNat < 256) : (charByte char).toNat = char.toNat := by
  rw [charByte, BitVec.toNat_ofNat]
  exact Nat.mod_eq_of_lt h

theorem isDigit_toNat {char : Char} (h : char.isDigit) : 48 ≤ char.toNat ∧ char.toNat ≤ 57 := by
  simp only [Char.isDigit, Bool.and_eq_true, decide_eq_true_eq] at h
  exact ⟨h.1, h.2⟩

theorem digitValue_charByte {char : Char} (h : char.isDigit) :
    digitValue (charByte char) = some (char.toNat - '0'.toNat) := by
  obtain ⟨hlow, hhigh⟩ := isDigit_toNat h
  have hnat := @charByte_toNat char (by omega)
  rw [digitValue, if_pos ⟨by omega, by omega⟩, hnat]
  rfl

/-- The digit loop reads a run of decimal digits as the number they spell. -/
theorem strtoulLoop_digits (digits : List Char) (hdigits : ∀ char ∈ digits, char.isDigit)
    (rest : List Byte) (init : Nat) :
    strtoulLoop 10 (digits.map charByte ++ rest) (BitVec.ofNat 64 init) =
      strtoulLoop 10 rest (BitVec.ofNat 64 (Nat.ofDigitChars 10 digits init)) := by
  induction digits generalizing init with
  | nil => simp
  | cons char digits ih =>
      obtain ⟨hlow, hhigh⟩ := isDigit_toNat (hdigits char List.mem_cons_self)
      have hvalue := digitValue_charByte (hdigits char List.mem_cons_self)
      have hzero : '0'.toNat = 48 := rfl
      rw [List.map_cons, List.cons_append, strtoulLoop, hvalue]
      simp only
      rw [if_neg (by omega), ← BitVec.ofNat_mul, ← BitVec.ofNat_add,
        ih (fun other hother => hdigits other (List.mem_cons_of_mem char hother)),
        Nat.ofDigitChars_cons, Nat.mul_comm init 10]

theorem strtoulLoop_zero (rest : List Byte) (result : BitVec 64) :
    strtoulLoop 10 (0 :: rest) result = result := by
  rw [strtoulLoop, show digitValue 0 = none from by decide]

/-- A text that does not start with `0` is read in base 10. -/
theorem simpleStrtoul_digits {char : Char} {digits : List Char} (hchar : char ≠ '0')
    (hdigits : ∀ other ∈ char :: digits, other.isDigit) (rest : List Byte) :
    simpleStrtoul ((char :: digits).map charByte ++ 0 :: rest) =
      BitVec.ofNat 64 (Nat.ofDigitChars 10 (char :: digits) 0) := by
  have hbase : simpleGuessBase ((char :: digits).map charByte ++ 0 :: rest) = 10 := by
    rw [simpleGuessBase, if_neg]
    simp only [List.map_cons, List.cons_append, List.getD_cons_zero]
    intro hbyte
    apply hchar
    obtain ⟨hlow, hhigh⟩ := isDigit_toNat (hdigits char List.mem_cons_self)
    have hnat := congrArg BitVec.toNat hbyte
    rw [charByte_toNat (by omega), charByte_toNat (by decide)] at hnat
    exact Char.ext (UInt32.toNat_inj.mp hnat)
  rw [simpleStrtoul, hbase, if_neg (by decide)]
  have hloop := strtoulLoop_digits (char :: digits) hdigits (0 :: rest) 0
  rw [strtoulLoop_zero] at hloop
  exact hloop

/-! ### The bytes a parse looks at -/

/-- The indices `simple_guess_base` reads; each test is made only when the one before held. -/
def guessReads (text : List Byte) : List Nat :=
  if text.getD 0 0 = charByte '0' then
    if text.getD 1 0 ||| 0x20 = charByte 'x' then [0, 1, 2] else [0, 1]
  else [0]

/-- The indices the digit loop reads from `index` on: the digits, and the byte that ends them. -/
def loopReads (base : Nat) : List Byte → Nat → List Nat
  | [], index => [index]
  | byte :: rest, index =>
      match digitValue byte with
      | none => [index]
      | some value => if base ≤ value then [index] else index :: loopReads base rest (index + 1)

/-- The indices `simple_strtoul(cp, .., 0)` reads. -/
def strtoulReads (text : List Byte) : List Nat :=
  guessReads text ++
    if simpleGuessBase text = 16 then loopReads 16 (text.drop 2) 2
    else loopReads (simpleGuessBase text) text 0

/-- The loop looks at the byte it stands on. -/
theorem self_mem_loopReads (base : Nat) (text : List Byte) (index : Nat) : index ∈ loopReads base text index := by
  unfold loopReads
  split
  · exact List.mem_singleton_self index
  · split
    · exact List.mem_singleton_self index
    · split
      · exact List.mem_singleton_self index
      · exact List.mem_cons_self

/-- The loop stays inside a text exactly when not all of it is digits. -/
theorem loopReads_inside_iff (base : Nat) (text rest : List Byte) (index number : Nat) :
    (∀ read ∈ loopReads base (text ++ rest) index, read < index + text.length) ↔
      spelledNumber base text number = none := by
  induction text generalizing index number with
  | nil =>
      refine iff_of_false ?_ (by rw [spelledNumber]; exact Option.some_ne_none number)
      intro hinside
      exact Nat.lt_irrefl index (hinside index (self_mem_loopReads base rest index))
  | cons byte text ih =>
      rw [List.cons_append, loopReads, spelledNumber, List.length_cons]
      cases digitValue byte with
      | none => simp
      | some value =>
          simp only
          by_cases hvalue : base ≤ value
          · simp [hvalue]
          · rw [if_neg hvalue, if_neg hvalue, ← ih (index + 1) (number * base + value),
              List.forall_mem_cons, Nat.add_right_comm index 1 text.length]
            exact and_iff_right (by omega)

/-- Digits that end inside a text are the same whatever follows it. -/
theorem strtoulLoop_congr {base : Nat} {text : List Byte} {number : Nat}
    (h : spelledNumber base text number = none) (rest rest' : List Byte) (result : BitVec 64) :
    strtoulLoop base (text ++ rest) result = strtoulLoop base (text ++ rest') result := by
  induction text generalizing number result with
  | nil => cases h
  | cons byte text ih =>
      rw [spelledNumber] at h
      simp only [List.cons_append, strtoulLoop]
      cases hdigit : digitValue byte with
      | none => rfl
      | some value =>
          simp only [hdigit] at h ⊢
          by_cases hvalue : base ≤ value
          · rw [if_pos hvalue, if_pos hvalue]
          · rw [if_neg hvalue] at h ⊢
            rw [if_neg hvalue]
            exact ih h _

/-- A byte that is no digit ends a number in every base. -/
theorem spelledNumber_stop (base : Nat) (text : List Byte) {stop : Byte} (hstop : digitValue stop = none)
    (number : Nat) : spelledNumber base (text ++ [stop]) number = none := by
  induction text generalizing number with
  | nil => simp only [List.nil_append, spelledNumber, hstop]
  | cons byte text ih =>
      rw [List.cons_append, spelledNumber]
      cases digitValue byte with
      | none => rfl
      | some value => simp only [ih, ite_self]

section Inside

variable {text : List Byte} (hlength : 3 ≤ text.length)

include hlength

/-- Three bytes are enough for the guess. -/
theorem simpleGuessBase_append (rest : List Byte) :
    simpleGuessBase (text ++ rest) = simpleGuessBase text := by
  match text, hlength with
  | _ :: _ :: _ :: _, _ => rfl

theorem guessReads_lt (rest : List Byte) : ∀ read ∈ guessReads (text ++ rest), read < text.length := by
  unfold guessReads
  split
  · split <;> simp <;> omega
  · simp
    omega

/-- **The parse stays inside a text exactly when the text is not one number as a whole.** -/
theorem strtoulReads_inside_iff (rest : List Byte) :
    (∀ read ∈ strtoulReads (text ++ rest), read < text.length) ↔ unsignedNumber text = none := by
  have hne : text ≠ [] := by
    rintro rfl
    exact absurd hlength (by decide)
  have hguess := guessReads_lt hlength rest
  rw [unsignedNumber, if_neg hne, strtoulReads, simpleGuessBase_append hlength, List.forall_mem_append,
    and_iff_right hguess]
  split
  · rw [List.drop_append_of_le_length (by omega), ← loopReads_inside_iff 16 (text.drop 2) rest 2 0,
      List.length_drop, Nat.add_sub_cancel' (by omega)]
  · rw [← loopReads_inside_iff (simpleGuessBase text) text rest 0 0, Nat.zero_add]

/-- And then it finds the same number whatever follows. -/
theorem simpleStrtoul_congr (h : unsignedNumber text = none) (rest rest' : List Byte) :
    simpleStrtoul (text ++ rest) = simpleStrtoul (text ++ rest') := by
  have hne : text ≠ [] := by
    rintro rfl
    exact absurd hlength (by decide)
  rw [unsignedNumber, if_neg hne] at h
  rw [simpleStrtoul, simpleStrtoul, simpleGuessBase_append hlength, simpleGuessBase_append hlength]
  split
  · rename_i hbase
    rw [if_pos hbase] at h
    rw [List.drop_append_of_le_length (by omega), List.drop_append_of_le_length (by omega)]
    exact strtoulLoop_congr h rest rest' 0
  · rename_i hbase
    rw [if_neg hbase] at h
    exact strtoulLoop_congr h rest rest' 0

end Inside

/-- The parser does not look behind a byte that is no digit, when the guess of the base has its three
bytes in front of it. -/
theorem simpleStrtoul_stop {text : List Byte} (hlength : 3 ≤ text.length) {stop : Byte}
    (hstop : digitValue stop = none) (rest rest' : List Byte) :
    simpleStrtoul (text ++ stop :: rest) = simpleStrtoul (text ++ stop :: rest') := by
  have hended : unsignedNumber (text ++ [stop]) = none := by
    rw [unsignedNumber, if_neg (by simp), List.drop_append_of_le_length (by omega),
      spelledNumber_stop _ _ hstop, spelledNumber_stop _ _ hstop, ite_self]
  have hcongr := simpleStrtoul_congr
    (by rw [List.length_append]; omega : 3 ≤ (text ++ [stop]).length) hended rest rest'
  simpa only [List.append_assoc, List.singleton_append] using hcongr

/-- A terminator is seen by the guess as the end of memory is. -/
theorem simpleGuessBase_terminated (text rest : List Byte) :
    simpleGuessBase (text ++ 0 :: rest) = simpleGuessBase text := by
  match text with
  | [] => rfl
  | [first] =>
      have hnotHex : ∀ third : Bool, ¬ ((0 : Byte) ||| 0x20 = charByte 'x' ∧ third = true) :=
        fun _ h => absurd h.1 (by decide)
      refine ite_congr rfl (fun _ => ?_) (fun _ => rfl)
      exact (if_neg (hnotHex _)).trans (if_neg (hnotHex _)).symm
  | [_, _] => rfl
  | _ :: _ :: _ :: _ => rfl

/-- **A C string is one number whatever follows its terminator.** -/
theorem simpleStrtoul_terminated (text rest rest' : List Byte) :
    simpleStrtoul (text ++ 0 :: rest) = simpleStrtoul (text ++ 0 :: rest') := by
  by_cases hlength : 3 ≤ text.length
  · exact simpleStrtoul_stop hlength (by decide) rest rest'
  -- the third byte of a hexadecimal number is a digit, so a shorter text is in another base
  have hbase : simpleGuessBase text ≠ 16 := by
    have hthird : text.getD 2 0 = 0 := by
      rw [List.getD_eq_getElem?_getD, List.getElem?_eq_none (by omega), Option.getD_none]
    rw [simpleGuessBase, hthird]
    split
    · rw [if_neg (fun h => absurd h.2 (by decide))]
      decide
    · decide
  have hended := spelledNumber_stop (simpleGuessBase text) text (show digitValue 0 = none from by decide) 0
  have hcongr := strtoulLoop_congr hended rest rest' 0
  simp only [List.append_assoc, List.singleton_append] at hcongr
  rw [simpleStrtoul, simpleStrtoul, simpleGuessBase_terminated, simpleGuessBase_terminated, if_neg hbase,
    if_neg hbase, hcongr]

theorem toDigits_head {n : Nat} (hn : 0 < n) :
    ∃ char digits, Nat.toDigits 10 n = char :: digits ∧ char ≠ '0' := by
  induction n using Nat.strongRecOn with
  | _ n ih =>
      rw [Nat.toDigits_eq_if (by decide)]
      split
      · rename_i hlt
        refine ⟨n.digitChar, [], rfl, ?_⟩
        intro hzero
        have := Nat.toNat_digitChar_of_lt_ten hlt
        rw [hzero] at this
        have hchar : '0'.toNat = 48 := rfl
        omega
      · obtain ⟨char, digits, heq, hne⟩ := ih (n / 10) (by omega) (by omega)
        exact ⟨char, digits ++ [(n % 10).digitChar], by rw [heq, List.cons_append], hne⟩

theorem ofDigitChars_lt (digits : List Char) (hdigits : ∀ char ∈ digits, char.isDigit) :
    Nat.ofDigitChars 10 digits 0 < 10 ^ digits.length := by
  induction digits with
  | nil => simp
  | cons char digits ih =>
      obtain ⟨hlow, hhigh⟩ := isDigit_toNat (hdigits char List.mem_cons_self)
      have htail := ih (fun other hother => hdigits other (List.mem_cons_of_mem char hother))
      have hzero : '0'.toNat = 48 := rfl
      rw [Nat.ofDigitChars_cons, Nat.ofDigitChars_eq_ofDigitChars_zero, List.length_cons, Nat.pow_succ]
      have hle : 10 ^ digits.length * (10 * 0 + (char.toNat - '0'.toNat)) ≤ 10 ^ digits.length * 9 :=
        Nat.mul_le_mul_left _ (by omega)
      omega

theorem simpleStrtoul_minus (rest : List Byte) : simpleStrtoul (charByte '-' :: rest) = 0 := by
  have hbase : simpleGuessBase (charByte '-' :: rest) = 10 := by
    rw [simpleGuessBase, List.getD_cons_zero, if_neg (by decide)]
  rw [simpleStrtoul, hbase, if_neg (by decide), strtoulLoop,
    show digitValue (charByte '-') = none from by decide]

/-- The text `0` is read in base 8. -/
theorem simpleStrtoul_zero (rest : List Byte) : simpleStrtoul (charByte '0' :: 0 :: rest) = 0 := by
  have hbase : simpleGuessBase (charByte '0' :: 0 :: rest) = 8 := by
    rw [simpleGuessBase, List.getD_cons_zero, if_pos rfl, if_neg]
    simp only [List.getD_cons_succ, List.getD_cons_zero]
    exact fun h => absurd h.1 (by decide)
  rw [simpleStrtoul, hbase, if_neg (by decide), strtoulLoop,
    show digitValue (charByte '0') = some 0 from by decide]
  simp only
  rw [if_neg (by decide), strtoulLoop, show digitValue 0 = none from by decide]
  rfl

theorem decimalText_of_nonneg {value : BitVec 64} (h : value.toNat < 2 ^ 63) :
    decimalText value.toInt = (Nat.toDigits 10 value.toNat).map charByte := by
  have hint : value.toInt = (value.toNat : Int) := by
    rw [BitVec.toInt_eq_toNat_cond, if_pos (by omega)]
  rw [decimalText, hint, if_neg (by omega), Int.natAbs_natCast, List.nil_append]

/-- The parser finds the first digits of a positive number. -/
theorem simpleStrtoul_take_toDigits {n : Nat} (hn : 0 < n) (width : Nat) (rest : List Byte) :
    simpleStrtoul (((Nat.toDigits 10 n).map charByte).take (width + 1) ++ 0 :: rest) =
      BitVec.ofNat 64 (Nat.ofDigitChars 10 ((Nat.toDigits 10 n).take (width + 1)) 0) := by
  obtain ⟨char, digits, heq, hne⟩ := toDigits_head hn
  have hcut : ∀ other ∈ char :: digits.take width, other.isDigit := by
    intro other hother
    refine Nat.isDigit_of_mem_toDigits (by decide) (by decide) (b := 10) (n := n) ?_
    rw [heq]
    exact List.mem_of_mem_take (by rwa [List.take_succ_cons] : other ∈ (char :: digits).take (width + 1))
  rw [← List.map_take, heq, List.take_succ_cons]
  exact simpleStrtoul_digits hne hcut rest

/-- Cut digits read back as the number they are of exactly when none was cut. -/
theorem simpleStrtoul_cut_toDigits {width : Nat} (hfit : 10 ^ (width + 1) ≤ 2 ^ 63) {value : BitVec 64}
    (hpos : 0 < value.toNat) (rest : List Byte) :
    simpleStrtoul (((Nat.toDigits 10 value.toNat).map charByte).take (width + 1) ++ 0 :: rest) = value ↔
      value.toNat < 10 ^ (width + 1) := by
  rw [simpleStrtoul_take_toDigits hpos]
  constructor
  · intro heq
    have hdigits : ∀ char ∈ (Nat.toDigits 10 value.toNat).take (width + 1), char.isDigit :=
      fun char hchar => Nat.isDigit_of_mem_toDigits (by decide) (by decide) (List.mem_of_mem_take hchar)
    have hread : Nat.ofDigitChars 10 ((Nat.toDigits 10 value.toNat).take (width + 1)) 0 < 10 ^ (width + 1) := by
      calc Nat.ofDigitChars 10 ((Nat.toDigits 10 value.toNat).take (width + 1)) 0
          < 10 ^ ((Nat.toDigits 10 value.toNat).take (width + 1)).length := ofDigitChars_lt _ hdigits
        _ ≤ 10 ^ (width + 1) := Nat.pow_le_pow_right (by decide) (List.length_take_le _ _)
    have hnat := congrArg BitVec.toNat heq
    rw [BitVec.toNat_ofNat, Nat.mod_eq_of_lt (by omega)] at hnat
    omega
  · intro hlt
    have hlength := @Nat.length_toDigits_le_iff 10 value.toNat (width + 1) (by decide) (by omega)
    rw [List.take_of_length_le (hlength.mpr hlt), Nat.ofDigitChars_ten_toDigits]
    exact BitVec.eq_of_toNat_eq (by rw [BitVec.toNat_ofNat, Nat.mod_eq_of_lt value.isLt])

/-- **A cut decimal reads back as itself exactly when nothing was cut.** -/
theorem simpleStrtoul_cut_decimal {width : Nat} (hwidth : 0 < width) (hfit : 10 ^ width ≤ 2 ^ 63)
    (value : BitVec 64) (rest : List Byte) :
    simpleStrtoul ((decimalText value.toInt).take width ++ 0 :: rest) = value ↔
      value.toNat < 10 ^ width := by
  obtain ⟨width, rfl⟩ : ∃ pred, width = pred + 1 := ⟨width - 1, by omega⟩
  by_cases hsign : 2 ^ 63 ≤ value.toNat
  · have hneg : value.toInt < 0 := by
      have hbound := value.isLt
      rw [BitVec.toInt_eq_toNat_cond, if_neg (by omega)]
      omega
    rw [decimalText, if_pos hneg, List.cons_append, List.take_succ_cons, List.cons_append,
      simpleStrtoul_minus]
    refine iff_of_false ?_ (by omega)
    intro hzero
    rw [← hzero] at hsign
    exact absurd hsign (by decide)
  · rw [decimalText_of_nonneg (by omega)]
    rcases Nat.eq_zero_or_pos value.toNat with hzero | hpos
    · rw [hzero, Nat.toDigits_zero]
      refine iff_of_true ?_ (Nat.pow_pos (by decide))
      rw [List.map_singleton, List.take_succ_cons, List.take_nil, List.cons_append, List.nil_append,
        simpleStrtoul_zero]
      exact BitVec.eq_of_toNat_eq hzero.symm
    · exact simpleStrtoul_cut_toDigits hfit hpos rest

end Vsnfs.Base
