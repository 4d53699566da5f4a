import Vsnfs.HandleCodec

/-! Requests from the client's encoders to the server's decoders. Each procedure number has a row in
the table of either side. A decoder works on memory and compares its pointer with the length of the
request only at the end; the wire form of its arguments says which bytes it was determined by, and how
long a request must be for it. -/

namespace Vsnfs

open Base

/-! ### Memory that holds a byte string -/

/-- The memory from `p` on starts with these bytes. -/
def HoldsAt (mem : Nat → Byte) (p : Nat) (front : List Byte) : Prop := bytesAt mem p front.length = front

theorem holdsAt_append (mem : Nat → Byte) (p : Nat) (front rest : List Byte) :
    HoldsAt mem p (front ++ rest) ↔ HoldsAt mem p front ∧ HoldsAt mem (p + front.length) rest := by
  rw [HoldsAt, List.length_append, bytesAt_append]
  constructor
  · intro h
    exact List.append_inj h (bytesAt_length mem p front.length)
  · rintro ⟨hfront, hrest⟩
    rw [hfront, hrest]

theorem holdsAt_bytesAt (mem : Nat → Byte) (p count : Nat) : HoldsAt mem p (bytesAt mem p count) := by
  rw [HoldsAt, bytesAt_length]

/-- Two memories that agree up to a length hold the same shorter strings. -/
theorem HoldsAt.transfer {mem other : Nat → Byte} {front : List Byte} {length : Nat}
    (h : HoldsAt mem 0 front) (hshort : front.length ≤ length)
    (hsame : bytesAt other 0 length = bytesAt mem 0 length) : HoldsAt other 0 front := by
  obtain ⟨more, rfl⟩ := Nat.exists_eq_add_of_le hshort
  rw [bytesAt_append, bytesAt_append] at hsame
  have hfront := (List.append_inj hsame (by rw [bytesAt_length, bytesAt_length])).1
  rw [HoldsAt, hfront]
  exact h

/-- A word was read exactly where its bytes are. -/
theorem holdsAt_beBytes_iff (mem : Nat → Byte) (p : Nat) (word : Word) :
    HoldsAt mem p (beBytes word) ↔ ntohl (wordAt mem p) = word := by
  rw [HoldsAt, beBytes_length, bytesAt_four, ← leBytes_htonl]
  constructor
  · intro h
    rw [leBytes_injective h]
    exact htonl_htonl word
  · intro h
    rw [← h, htonl_htonl]

theorem holdsAt_fhandle_iff (mem : Nat → Byte) (p : Nat) (fh : VsnfsFh) :
    HoldsAt mem p (xdrEncodeFhandle fh) ↔ (decodeFh mem p).1 = fh := by
  constructor
  · intro h
    rw [HoldsAt, xdrEncodeFhandle_length] at h
    exact server_reads_client fh mem p h
  · rintro rfl
    rw [xdrEncodeFhandle, leBytes_htonl, holdsAt_append]
    refine ⟨holdsAt_bytesAt mem p vsnfsFhsize, ?_⟩
    rw [(decodeFh mem p).1.hdata, holdsAt_beBytes_iff]
    rfl

/-- The handle at the start of a memory, and the bytes behind it. -/
theorem holdsAt_handle (mem : Nat → Byte) (rest : List Byte) (hrest : HoldsAt mem 12 rest) :
    HoldsAt mem 0 (xdrEncodeFhandle (decodeFh mem 0).1 ++ rest) := by
  rw [holdsAt_append, holdsAt_fhandle_iff, xdrEncodeFhandle_length]
  exact ⟨rfl, hrest⟩

/-! ### Names -/

/-- The bytes in front of a name's padding. -/
def nameBytes (text : List Byte) : List Byte := beBytes (BitVec.ofNat 32 text.length) ++ text

theorem nameBytes_length (text : List Byte) : (nameBytes text).length = 4 + text.length := by
  rw [nameBytes, List.length_append, beBytes_length]

/-- A string is found exactly where its length and its bytes are. -/
theorem xdrDecodeStringInplace_eq_some_iff (mem : Nat → Byte) (p : Nat) {maxlen : Nat}
    (hmax : maxlen + 3 < 2 ^ 32) (text : List Byte) (next : Nat) :
    xdrDecodeStringInplace mem p maxlen = some (text, next) ↔
      HoldsAt mem p (nameBytes text) ∧ text.length ≤ maxlen ∧ next = p + 4 + 4 * quadWords text.length := by
  rw [nameBytes, holdsAt_append, holdsAt_beBytes_iff, beBytes_length]
  simp only [xdrDecodeStringInplace]
  constructor
  · intro h
    split at h
    · cases h
    · rename_i hle
      simp only [Option.some.injEq, Prod.mk.injEq] at h
      obtain ⟨htext, hnext⟩ := h
      have hlength : text.length = (ntohl (wordAt mem p)).toNat := by
        rw [← htext, bytesAt_length]
      have hword : BitVec.ofNat 32 text.length = ntohl (wordAt mem p) := by
        rw [hlength, BitVec.ofNat_toNat, BitVec.setWidth_eq]
      refine ⟨⟨hword.symm, ?_⟩, by omega, ?_⟩
      · rw [HoldsAt, hlength]
        exact htext
      · rw [← hnext, ← hword, toNat_xdrQuadlen_of_lt (by omega)]
  · rintro ⟨⟨hword, htext⟩, hle, rfl⟩
    have hlength : (BitVec.ofNat 32 text.length).toNat = text.length := by
      rw [BitVec.toNat_ofNat]
      omega
    rw [hword, hlength, if_neg (by omega), toNat_xdrQuadlen_of_lt (by omega), htext]

theorem decodeFilename_eq_some_iff (mem : Nat → Byte) (p : Nat) (name : FileName) (next : Nat) :
    decodeFilename mem p = some (name, next) ↔
      HoldsAt mem p (nameBytes name.bytes) ∧ next = p + 4 + 4 * quadWords name.bytes.length := by
  have hiff := xdrDecodeStringInplace_eq_some_iff mem p (by decide : vsnfsMaxnamlen + 3 < 2 ^ 32)
  unfold decodeFilename
  constructor
  · intro h
    split at h
    · cases h
    · rename_i text stop hfound
      split at h
      · cases h
        obtain ⟨hholds, -, hnext⟩ := (hiff _ _).mp hfound
        exact ⟨hholds, hnext⟩
      · cases h
  · rintro ⟨hholds, rfl⟩
    have hfound := (hiff name.bytes _).mpr ⟨hholds, name.hlength, rfl⟩
    split
    · rename_i hnone
      cases hnone.symm.trans hfound
    · rename_i text stop hsome
      obtain ⟨rfl, rfl⟩ : text = name.bytes ∧ stop = p + 4 + 4 * quadWords name.bytes.length := by
        simpa using hsome.symm.trans hfound
      rw [dif_pos name.hclean]

theorem decodePathname_eq_some_iff (mem : Nat → Byte) (p : Nat) (path : PathName) (next : Nat) :
    decodePathname mem p = some (path, next) ↔
      HoldsAt mem p (nameBytes path.bytes) ∧ next = p + 4 + 4 * quadWords path.bytes.length := by
  have hiff := xdrDecodeStringInplace_eq_some_iff mem p (by decide : vsnfsMaxpathlen + 3 < 2 ^ 32)
  unfold decodePathname
  constructor
  · intro h
    split at h
    · cases h
    · rename_i text stop hfound
      split at h
      · cases h
        obtain ⟨hholds, -, hnext⟩ := (hiff _ _).mp hfound
        exact ⟨hholds, hnext⟩
      · cases h
  · rintro ⟨hholds, rfl⟩
    have hfound := (hiff path.bytes _).mpr ⟨hholds, path.hlength, rfl⟩
    split
    · rename_i hnone
      cases hnone.symm.trans hfound
    · rename_i text stop hsome
      obtain ⟨rfl, rfl⟩ : text = path.bytes ∧ stop = p + 4 + 4 * quadWords path.bytes.length := by
        simpa using hsome.symm.trans hfound
      rw [dif_pos path.hclean]

/-! ### The tables -/

abbrev vsnfsprocNull : Nat := 0
abbrev vsnfsprocGetroot : Nat := 1
abbrev vsnfsprocRead : Nat := 3
abbrev vsnfsprocReaddir : Nat := 7
abbrev vsnfsprocLookup : Nat := 8

/-- The arguments of a call on the client. Paths and names are as the VFS hands them over. -/
inductive ClientArgs where
  | nullargs (dummy : Word)
  | getrootargs (path : PathName)
  | lookupargs (fh : VsnfsFh) (filename : FileName)
  | readdirargs (fh : VsnfsFh) (count : Word)
  | readargs (fh : VsnfsFh) (offset length : Word)

/-- The number of the row of `vsnfs_procedures` with these arguments. -/
def ClientArgs.proc : ClientArgs → Nat
  | .nullargs _ => vsnfsprocNull
  | .getrootargs _ => vsnfsprocGetroot
  | .lookupargs _ _ => vsnfsprocLookup
  | .readdirargs _ _ => vsnfsprocReaddir
  | .readargs _ _ _ => vsnfsprocRead

/-- `p_encode` of that row. -/
def ClientArgs.encode (rephdr : Nat) : ClientArgs → List Byte
  | .nullargs dummy => vsnfsXdrNullargs dummy
  | .getrootargs path => vsnfsXdrGetrootargs path.bytes
  | .lookupargs fh filename => vsnfsXdrLookupargs fh filename.bytes
  | .readdirargs fh count => (vsnfsXdrReaddirargs rephdr fh count).1
  | .readargs fh offset length => (vsnfsXdrReadargs rephdr fh offset length).1

/-- The decoded arguments of a request. -/
inductive SvcArgs where
  | null (dummy : Word)
  | getroot (args : GetrootArgs)
  | lookup (args : LookupArgs)
  | readdir (args : ReaddirArgs)
  | read (args : ReadArgs)

/-- `pc_decode` of the rows of `vsnfsd_procedures1`; a number without a row decodes nothing. -/
def pcDecode (proc : Nat) (mem : Nat → Byte) (length : Nat) (after : List Byte) : Option SvcArgs :=
  if proc = vsnfsprocNull then (vsnfssvcDecodeNullargs mem length).map .null
  else if proc = vsnfsprocGetroot then (vsnfssvcDecodeGetrootargs mem length).map .getroot
  else if proc = vsnfsprocLookup then (vsnfssvcDecodeLookupargs mem length after).map .lookup
  else if proc = vsnfsprocReaddir then (vsnfssvcDecodeReaddirargs mem length after).map .readdir
  else if proc = vsnfsprocRead then (vsnfssvcDecodeReadargs mem length after).map .read
  else none

/-- The numbers with a row, and all others. -/
theorem proc_cases (proc : Nat) :
    proc = vsnfsprocNull ∨ proc = vsnfsprocGetroot ∨ proc = vsnfsprocLookup ∨ proc = vsnfsprocReaddir ∨
      proc = vsnfsprocRead ∨ (proc ≠ vsnfsprocNull ∧ proc ≠ vsnfsprocGetroot ∧ proc ≠ vsnfsprocLookup ∧
        proc ≠ vsnfsprocReaddir ∧ proc ≠ vsnfsprocRead) := by
  tauto

/-! ### Wire forms -/

/-- The length a request with these arguments has, the padding of a name included. -/
def SvcArgs.size : SvcArgs → Nat
  | .null _ => 4
  | .getroot args => 4 + 4 * quadWords args.path.bytes.length
  | .lookup args => 16 + 4 * quadWords args.filename.bytes.length
  | .readdir _ => 16
  | .read _ => 20

/-- The wire form of decoded arguments: the bytes that determine them. The padding of a name is not
among them. -/
inductive Wire (after : List Byte) : Nat → SvcArgs → List Byte → Prop where
  | null (dummy : Word) : Wire after vsnfsprocNull (.null dummy) (beBytes dummy)
  | getroot (path : PathName) : Wire after vsnfsprocGetroot (.getroot ⟨path⟩) (nameBytes path.bytes)
  | lookup (fh : VsnfsFh) (filename : FileName) : Wire after vsnfsprocLookup (.lookup ⟨fh, after, filename⟩)
      (xdrEncodeFhandle fh ++ nameBytes filename.bytes)
  | readdir (fh : VsnfsFh) (count : Word) :
      Wire after vsnfsprocReaddir (.readdir ⟨fh, after, clampToPage count, clampToPage_le count⟩)
        (xdrEncodeFhandle fh ++ beBytes count)
  | read (fh : VsnfsFh) (offset len : Word) :
      Wire after vsnfsprocRead (.read ⟨fh, after, offset, clampToPage len, clampToPage_le len⟩)
        (xdrEncodeFhandle fh ++ (beBytes offset ++ beBytes len))

theorem le_quadWords (count : Nat) : count ≤ 4 * quadWords count := by
  have hsum := add_padLength count
  omega

/-- A request of the required length holds all the bytes that matter. -/
theorem Wire.length_le {after : List Byte} {proc : Nat} {args : SvcArgs} {front : List Byte}
    (h : Wire after proc args front) : front.length ≤ args.size := by
  cases h with
  | null dummy => exact le_rfl
  | getroot path =>
      have hpad := le_quadWords path.bytes.length
      rw [nameBytes_length]
      simp only [SvcArgs.size]
      omega
  | lookup fh filename =>
      have hpad := le_quadWords filename.bytes.length
      rw [List.length_append, nameBytes_length, xdrEncodeFhandle_length]
      simp only [vsnfsFhsize, SvcArgs.size]
      omega
  | readdir fh count =>
      rw [List.length_append, xdrEncodeFhandle_length, beBytes_length]
      exact le_rfl
  | read fh offset len =>
      rw [List.length_append, List.length_append, xdrEncodeFhandle_length, beBytes_length, beBytes_length]
      exact le_rfl

section Decoders

variable (mem : Nat → Byte) (length : Nat) (after : List Byte)

theorem decodeNullargs_eq_some_iff (dummy : Word) :
    vsnfssvcDecodeNullargs mem length = some dummy ↔ HoldsAt mem 0 (beBytes dummy) ∧ 4 ≤ length := by
  rw [holdsAt_beBytes_iff, vsnfssvcDecodeNullargs]
  by_cases hsize : 4 ≤ length
  · simp [xdrArgsizeCheck, hsize]
  · simp [xdrArgsizeCheck, hsize]

theorem decodeGetrootargs_eq_some_iff (args : GetrootArgs) :
    vsnfssvcDecodeGetrootargs mem length = some args ↔
      HoldsAt mem 0 (nameBytes args.path.bytes) ∧ 4 + 4 * quadWords args.path.bytes.length ≤ length := by
  have hiff := decodePathname_eq_some_iff mem 0
  unfold vsnfssvcDecodeGetrootargs
  constructor
  · intro h
    cases hfound : decodePathname mem 0 with
    | none =>
        rw [hfound] at h
        cases h
    | some found =>
        obtain ⟨path, next⟩ := found
        obtain ⟨hholds, rfl⟩ := (hiff path next).mp hfound
        simp only [hfound, xdrArgsizeCheck, decide_eq_true_eq] at h
        split at h
        · rename_i hsize
          cases h
          exact ⟨hholds, by omega⟩
        · cases h
  · rintro ⟨hholds, hsize⟩
    rw [(hiff args.path _).mpr ⟨hholds, rfl⟩]
    simp only [xdrArgsizeCheck, decide_eq_true_eq]
    rw [if_pos (by omega)]

theorem decodeLookupargs_eq_some_iff (args : LookupArgs) :
    vsnfssvcDecodeLookupargs mem length after = some args ↔
      args.after = after ∧ HoldsAt mem 0 (xdrEncodeFhandle args.fh ++ nameBytes args.filename.bytes) ∧
        16 + 4 * quadWords args.filename.bytes.length ≤ length := by
  have hiff := decodeFilename_eq_some_iff mem (vsnfsFhsize + 4)
  have hpointer : (decodeFh mem 0).2 = vsnfsFhsize + 4 := rfl
  rw [holdsAt_append, holdsAt_fhandle_iff, xdrEncodeFhandle_length, Nat.zero_add]
  simp only [vsnfssvcDecodeLookupargs, hpointer]
  constructor
  · intro h
    cases hfound : decodeFilename mem (vsnfsFhsize + 4) with
    | none =>
        rw [hfound] at h
        cases h
    | some found =>
        obtain ⟨filename, next⟩ := found
        obtain ⟨hholds, rfl⟩ := (hiff filename next).mp hfound
        simp only [hfound, xdrArgsizeCheck, decide_eq_true_eq] at h
        split at h
        · rename_i hsize
          cases h
          exact ⟨rfl, ⟨rfl, hholds⟩, by omega⟩
        · cases h
  · rintro ⟨hafter, ⟨hfh, hholds⟩, hsize⟩
    rw [(hiff args.filename _).mpr ⟨hholds, rfl⟩]
    simp only [xdrArgsizeCheck, decide_eq_true_eq]
    rw [if_pos (by omega), hfh, ← hafter]

theorem decodeReaddirargs_eq_some_iff (args : ReaddirArgs) :
    vsnfssvcDecodeReaddirargs mem length after = some args ↔
      ∃ count, args = ⟨(decodeFh mem 0).1, after, clampToPage count, clampToPage_le count⟩ ∧
        HoldsAt mem 12 (beBytes count) ∧ 16 ≤ length := by
  have hpointer : (decodeFh mem 0).2 = 12 := rfl
  simp only [vsnfssvcDecodeReaddirargs, hpointer, holdsAt_beBytes_iff, xdrArgsizeCheck, decide_eq_true_eq]
  by_cases hsize : 16 ≤ length
  · rw [if_pos hsize, Option.some.injEq]
    constructor
    · rintro rfl
      exact ⟨_, rfl, rfl, hsize⟩
    · rintro ⟨_, rfl, rfl, -⟩
      rfl
  · rw [if_neg hsize]
    refine iff_of_false (by simp) ?_
    rintro ⟨_, _, _, hle⟩
    exact hsize hle

theorem decodeReadargs_eq_some_iff (args : ReadArgs) :
    vsnfssvcDecodeReadargs mem length after = some args ↔
      ∃ offset len, args = ⟨(decodeFh mem 0).1, after, offset, clampToPage len, clampToPage_le len⟩ ∧
        HoldsAt mem 12 (beBytes offset ++ beBytes len) ∧ 20 ≤ length := by
  have hpointer : (decodeFh mem 0).2 = 12 := rfl
  simp only [vsnfssvcDecodeReadargs, hpointer, holdsAt_append, holdsAt_beBytes_iff, beBytes_length,
    xdrArgsizeCheck, decide_eq_true_eq]
  by_cases hsize : 20 ≤ length
  · rw [if_pos hsize, Option.some.injEq]
    constructor
    · rintro rfl
      exact ⟨_, _, rfl, ⟨rfl, rfl⟩, hsize⟩
    · rintro ⟨_, _, rfl, ⟨rfl, rfl⟩, -⟩
      rfl
  · rw [if_neg hsize]
    refine iff_of_false (by simp) ?_
    rintro ⟨_, _, _, _, hle⟩
    exact hsize hle

variable {mem length after}

/-- What a decoder accepts has a wire form. -/
theorem wire_of_pcDecode {proc : Nat} {args : SvcArgs} (h : pcDecode proc mem length after = some args) :
    ∃ front, Wire after proc args front ∧ HoldsAt mem 0 front ∧ args.size ≤ length := by
  rcases proc_cases proc with rfl | rfl | rfl | rfl | rfl | hother
  · obtain ⟨dummy, hdecode, rfl⟩ := Option.map_eq_some_iff.mp h
    exact ⟨_, .null dummy, (decodeNullargs_eq_some_iff mem length dummy).mp hdecode⟩
  · obtain ⟨args, hdecode, rfl⟩ := Option.map_eq_some_iff.mp h
    exact ⟨_, .getroot args.path, (decodeGetrootargs_eq_some_iff mem length args).mp hdecode⟩
  · obtain ⟨args, hdecode, rfl⟩ := Option.map_eq_some_iff.mp h
    obtain ⟨rfl, hholds⟩ := (decodeLookupargs_eq_some_iff mem length after args).mp hdecode
    exact ⟨_, .lookup args.fh args.filename, hholds⟩
  · obtain ⟨args, hdecode, rfl⟩ := Option.map_eq_some_iff.mp h
    obtain ⟨count, rfl, hholds, hsize⟩ := (decodeReaddirargs_eq_some_iff mem length after args).mp hdecode
    exact ⟨_, .readdir (decodeFh mem 0).1 count, holdsAt_handle mem _ hholds, hsize⟩
  · obtain ⟨args, hdecode, rfl⟩ := Option.map_eq_some_iff.mp h
    obtain ⟨offset, len, rfl, hholds, hsize⟩ := (decodeReadargs_eq_some_iff mem length after args).mp hdecode
    exact ⟨_, .read (decodeFh mem 0).1 offset len, holdsAt_handle mem _ hholds, hsize⟩
  · simp only [pcDecode, hother, if_false] at h
    cases h

/-- A memory that holds a wire form is accepted. -/
theorem Wire.pcDecode_eq {proc : Nat} {args : SvcArgs} {front : List Byte} (h : Wire after proc args front)
    (hholds : HoldsAt mem 0 front) (hsize : args.size ≤ length) :
    pcDecode proc mem length after = some args := by
  cases h with
  | null dummy =>
      have hdecode := (decodeNullargs_eq_some_iff mem length dummy).mpr ⟨hholds, hsize⟩
      exact Option.map_eq_some_iff.mpr ⟨dummy, hdecode, rfl⟩
  | getroot path =>
      have hdecode := (decodeGetrootargs_eq_some_iff mem length ⟨path⟩).mpr ⟨hholds, hsize⟩
      exact Option.map_eq_some_iff.mpr ⟨⟨path⟩, hdecode, rfl⟩
  | lookup fh filename =>
      have hdecode := (decodeLookupargs_eq_some_iff mem length after ⟨fh, after, filename⟩).mpr
        ⟨rfl, hholds, hsize⟩
      exact Option.map_eq_some_iff.mpr ⟨_, hdecode, rfl⟩
  | readdir fh count =>
      rw [holdsAt_append, holdsAt_fhandle_iff, xdrEncodeFhandle_length] at hholds
      have hdecode := (decodeReaddirargs_eq_some_iff mem length after _).mpr ⟨count, rfl, hholds.2, hsize⟩
      rw [hholds.1] at hdecode
      exact Option.map_eq_some_iff.mpr ⟨_, hdecode, rfl⟩
  | read fh offset len =>
      rw [holdsAt_append, holdsAt_fhandle_iff, xdrEncodeFhandle_length] at hholds
      have hdecode := (decodeReadargs_eq_some_iff mem length after _).mpr
        ⟨offset, len, rfl, hholds.2, hsize⟩
      rw [hholds.1] at hdecode
      exact Option.map_eq_some_iff.mpr ⟨_, hdecode, rfl⟩

variable (mem length after)

/-- **A decoder accepts exactly the wire forms.** -/
theorem pcDecode_eq_some_iff (proc : Nat) (args : SvcArgs) :
    pcDecode proc mem length after = some args ↔
      ∃ front, Wire after proc args front ∧ HoldsAt mem 0 front ∧ args.size ≤ length := by
  constructor
  · exact wire_of_pcDecode
  · rintro ⟨front, hwire, hholds, hsize⟩
    exact hwire.pcDecode_eq hholds hsize

end Decoders

/-! ### Round trip -/

theorem clampToPage_eq_min (word : Word) : clampToPage word = min word.toNat pageSize := by
  unfold clampToPage
  split <;> omega

/-- What the server is to find: the same values, a count or length cut to one page. -/
def ClientArgs.received (after : List Byte) : ClientArgs → SvcArgs
  | .nullargs dummy => .null dummy
  | .getrootargs path => .getroot ⟨path⟩
  | .lookupargs fh filename => .lookup ⟨fh, after, filename⟩
  | .readdirargs fh count => .readdir ⟨fh, after, min count.toNat pageSize, Nat.min_le_right _ _⟩
  | .readargs fh offset length => .read ⟨fh, after, offset, min length.toNat pageSize, Nat.min_le_right _ _⟩

theorem xdrEncodeArray_eq (bytes : List Byte) :
    xdrEncodeArray bytes = nameBytes bytes ++ List.replicate (padLength bytes.length) 0 := rfl

theorem xdrEncodeArray_length (bytes : List Byte) :
    (xdrEncodeArray bytes).length = 4 + 4 * quadWords bytes.length := by
  have hsum := add_padLength bytes.length
  rw [xdrEncodeArray_eq, List.length_append, nameBytes_length, List.length_replicate]
  omega

/-- What the client encodes is a wire form of what the server is to find, with its padding. -/
theorem ClientArgs.encode_wire (args : ClientArgs) (rephdr : Nat) (after : List Byte) :
    (args.received after).size = (args.encode rephdr).length ∧
      ∃ front pad, args.encode rephdr = front ++ pad ∧ Wire after args.proc (args.received after) front := by
  cases args with
  | nullargs dummy =>
      refine ⟨rfl, beBytes dummy, [], ?_, .null dummy⟩
      rw [List.append_nil]
      exact leBytes_htonl dummy
  | getrootargs path =>
      exact ⟨(xdrEncodeArray_length path.bytes).symm, _, _, xdrEncodeArray_eq path.bytes, .getroot path⟩
  | lookupargs fh filename =>
      have hbytes : ClientArgs.encode rephdr (.lookupargs fh filename) =
          xdrEncodeFhandle fh ++ xdrEncodeArray filename.bytes := rfl
      refine ⟨?_, _, List.replicate (padLength filename.bytes.length) 0, ?_, .lookup fh filename⟩
      · rw [hbytes, List.length_append, xdrEncodeFhandle_length, xdrEncodeArray_length, ← Nat.add_assoc]
        rfl
      · rw [hbytes, List.append_assoc, xdrEncodeArray_eq]
  | readdirargs fh count =>
      have hbytes : ClientArgs.encode rephdr (.readdirargs fh count) =
          xdrEncodeFhandle fh ++ beBytes count := congrArg (xdrEncodeFhandle fh ++ ·) (leBytes_htonl count)
      refine ⟨?_, xdrEncodeFhandle fh ++ beBytes count, [], ?_, ?_⟩
      · rw [hbytes, List.length_append, xdrEncodeFhandle_length, beBytes_length]
        rfl
      · rw [hbytes, List.append_nil]
      · simp only [ClientArgs.received, ← clampToPage_eq_min]
        exact .readdir fh count
  | readargs fh offset length =>
      have hbytes : ClientArgs.encode rephdr (.readargs fh offset length) =
          xdrEncodeFhandle fh ++ (beBytes offset ++ beBytes length) := by
        rw [← List.append_assoc, ← leBytes_htonl, ← leBytes_htonl]
        rfl
      refine ⟨?_, xdrEncodeFhandle fh ++ (beBytes offset ++ beBytes length), [], ?_, ?_⟩
      · rw [hbytes, List.length_append, List.length_append, xdrEncodeFhandle_length, beBytes_length,
          beBytes_length]
        rfl
      · rw [hbytes, List.append_nil]
      · simp only [ClientArgs.received, ← clampToPage_eq_min]
        exact .read fh offset length

/-- **Request round trip.** For all arguments of a call, and whatever lies behind the request in memory,
the decoder with the number of the encoder finds the same values in exactly the bytes that were
encoded, and its pointer ends behind the last of them: a request cut anywhere is rejected. -/
theorem request_round_trip (args : ClientArgs) (rephdr : Nat) (mem : Nat → Byte) (after : List Byte)
    (hmem : HoldsAt mem 0 (args.encode rephdr)) :
    pcDecode args.proc mem (args.encode rephdr).length after = some (args.received after) ∧
      ∀ length, length < (args.encode rephdr).length → pcDecode args.proc mem length after = none := by
  obtain ⟨hsize, front, pad, hbytes, hwire⟩ := args.encode_wire rephdr after
  have hfront : HoldsAt mem 0 front := by
    rw [hbytes, holdsAt_append] at hmem
    exact hmem.1
  have hdecode := (pcDecode_eq_some_iff mem (args.encode rephdr).length after args.proc _).mpr
    ⟨front, hwire, hfront, hsize.le⟩
  refine ⟨hdecode, ?_⟩
  intro length hshort
  cases hcut : pcDecode args.proc mem length after with
  | none => rfl
  | some other =>
      -- the decoder would find the same arguments in the whole request, so they are those
      obtain ⟨front', hwire', hfront', hle⟩ := (pcDecode_eq_some_iff mem length after args.proc other).mp hcut
      have hwhole := (pcDecode_eq_some_iff mem (args.encode rephdr).length after args.proc other).mpr
        ⟨front', hwire', hfront', by omega⟩
      rw [hdecode] at hwhole
      rw [← Option.some.inj hwhole, hsize] at hle
      omega

theorem memOf_holds (bytes : List Byte) : HoldsAt (memOf bytes) 0 bytes := by
  rw [HoldsAt, bytesAt]
  refine List.ext_getElem (by rw [List.length_map, List.length_range]) ?_
  intro index hleft hright
  rw [List.getElem_map, List.getElem_range, Nat.zero_add, memOf,
    List.getD_eq_getElem?_getD, List.getElem?_eq_getElem hright, Option.getD_some]

/-- A READ of 5000 bytes arrives as a READ of one page. -/
theorem long_read_request_round_trip :
    pcDecode vsnfsprocRead (memOf ((ClientArgs.readargs zeroFh 7 5000).encode 0)) 20 [] =
      some (.read ⟨zeroFh, [], 7, 4096, by decide⟩) :=
  (request_round_trip (.readargs zeroFh 7 5000) 0 (memOf ((ClientArgs.readargs zeroFh 7 5000).encode 0)) []
    (memOf_holds _)).1

/-! ### Grammars -/

/-- The requests each procedure accepts: a fixed number of bytes, or a name after a possible handle that
is short enough, has no forbidden byte, and fits with its padding. -/
def Grammar (proc : Nat) (request : List Byte) : Prop :=
  if proc = vsnfsprocNull then 4 ≤ request.length
  else if proc = vsnfsprocGetroot then
    ∃ path rest, request = beBytes (BitVec.ofNat 32 path.length) ++ (path ++ rest) ∧
      path.length ≤ vsnfsMaxpathlen ∧ (∀ byte ∈ path, byte ≠ 0) ∧
      4 + 4 * quadWords path.length ≤ request.length
  else if proc = vsnfsprocLookup then
    ∃ handle name rest,
      request = handle ++ (beBytes (BitVec.ofNat 32 name.length) ++ (name ++ rest)) ∧ handle.length = 12 ∧
      name.length ≤ vsnfsMaxnamlen ∧ (∀ byte ∈ name, byte ≠ 0 ∧ byte ≠ slash) ∧
      16 + 4 * quadWords name.length ≤ request.length
  else if proc = vsnfsprocReaddir then 16 ≤ request.length
  else if proc = vsnfsprocRead then 20 ≤ request.length
  else False

theorem HoldsAt.split {mem : Nat → Byte} {front : List Byte} {length : Nat} (h : HoldsAt mem 0 front)
    (hle : front.length ≤ length) : ∃ rest, bytesAt mem 0 length = front ++ rest := by
  obtain ⟨more, rfl⟩ := Nat.exists_eq_add_of_le hle
  refine ⟨bytesAt mem (0 + front.length) more, ?_⟩
  rw [bytesAt_append]
  exact congrArg (· ++ _) h

/-- The start of a request, as far as it goes, is in the memory. -/
theorem holdsAt_of_request {mem : Nat → Byte} {length : Nat} {front rest : List Byte}
    (h : bytesAt mem 0 length = front ++ rest) : HoldsAt mem 0 front := by
  have hwhole := holdsAt_bytesAt mem 0 length
  rw [h, holdsAt_append] at hwhole
  exact hwhole.1

theorem Wire.grammar {after : List Byte} {proc : Nat} {args : SvcArgs} {front : List Byte}
    (h : Wire after proc args front) {mem : Nat → Byte} (hholds : HoldsAt mem 0 front) {length : Nat}
    (hsize : args.size ≤ length) : Grammar proc (bytesAt mem 0 length) := by
  obtain ⟨rest, hrest⟩ := hholds.split (h.length_le.trans hsize)
  unfold Grammar
  cases h with
  | null dummy =>
      rw [if_pos rfl, bytesAt_length]
      exact hsize
  | getroot path =>
      rw [if_neg (by decide), if_pos rfl, bytesAt_length]
      rw [nameBytes, List.append_assoc] at hrest
      exact ⟨path.bytes, rest, hrest, path.hlength, path.hclean, hsize⟩
  | lookup fh filename =>
      rw [if_neg (by decide), if_neg (by decide), if_pos rfl, bytesAt_length]
      rw [nameBytes, List.append_assoc, List.append_assoc] at hrest
      exact ⟨xdrEncodeFhandle fh, filename.bytes, rest, hrest, xdrEncodeFhandle_length fh,
        filename.hlength, filename.hclean, hsize⟩
  | readdir fh count =>
      rw [if_neg (by decide), if_neg (by decide), if_neg (by decide), if_pos rfl, bytesAt_length]
      exact hsize
  | read fh offset len =>
      rw [if_neg (by decide), if_neg (by decide), if_neg (by decide), if_neg (by decide), if_pos rfl,
        bytesAt_length]
      exact hsize

theorem Grammar.wire {proc : Nat} {mem : Nat → Byte} {length : Nat}
    (h : Grammar proc (bytesAt mem 0 length)) (after : List Byte) :
    ∃ args front, Wire after proc args front ∧ HoldsAt mem 0 front ∧ args.size ≤ length := by
  have hlength := bytesAt_length mem 0 length
  rcases proc_cases proc with rfl | rfl | rfl | rfl | rfl | hother
  · have hsize : 4 ≤ (bytesAt mem 0 length).length := h
    exact ⟨_, _, .null (ntohl (wordAt mem 0)), (holdsAt_beBytes_iff mem 0 _).mpr rfl, hlength ▸ hsize⟩
  · obtain ⟨path, rest, hrequest, hshort, hclean, hsize⟩ := h
    rw [← List.append_assoc] at hrequest
    exact ⟨_, _, .getroot ⟨path, hshort, hclean⟩, holdsAt_of_request hrequest, hlength ▸ hsize⟩
  · obtain ⟨handle, name, rest, hrequest, htwelve, hshort, hclean, hsize⟩ := h
    have hname : HoldsAt mem 12 (nameBytes name) := by
      rw [← List.append_assoc, ← List.append_assoc, List.append_assoc handle] at hrequest
      have hfront := holdsAt_of_request hrequest
      rw [holdsAt_append, htwelve] at hfront
      exact hfront.2
    exact ⟨_, _, .lookup (decodeFh mem 0).1 ⟨name, hshort, hclean⟩, holdsAt_handle mem _ hname,
      hlength ▸ hsize⟩
  · have hsize : 16 ≤ (bytesAt mem 0 length).length := h
    exact ⟨_, _, .readdir (decodeFh mem 0).1 (ntohl (wordAt mem 12)),
      holdsAt_handle mem _ ((holdsAt_beBytes_iff mem 12 _).mpr rfl), hlength ▸ hsize⟩
  · have hsize : 20 ≤ (bytesAt mem 0 length).length := h
    refine ⟨_, _, .read (decodeFh mem 0).1 (ntohl (wordAt mem 12)) (ntohl (wordAt mem 16)),
      holdsAt_handle mem _ ?_, hlength ▸ hsize⟩
    rw [holdsAt_append, holdsAt_beBytes_iff, beBytes_length, holdsAt_beBytes_iff]
    exact ⟨rfl, rfl⟩
  · simp only [Grammar, hother, if_false] at h

/-- **Decoders accept exactly their grammar and depend only on the request.** For every content of the
memory behind the request, a decoder accepts exactly when the bytes of the request are in its grammar,
and another memory that agrees on those bytes gives the same verdict and the same arguments. -/
theorem decoders_accept_grammar (proc : Nat) (mem : Nat → Byte) (length : Nat) (after : List Byte) :
    ((pcDecode proc mem length after).isSome = true ↔ Grammar proc (bytesAt mem 0 length)) ∧
      ∀ other, bytesAt other 0 length = bytesAt mem 0 length →
        pcDecode proc other length after = pcDecode proc mem length after := by
  refine ⟨?_, ?_⟩
  · rw [Option.isSome_iff_exists]
    constructor
    · rintro ⟨args, hdecode⟩
      obtain ⟨front, hwire, hholds, hsize⟩ := (pcDecode_eq_some_iff mem length after proc args).mp hdecode
      exact hwire.grammar hholds hsize
    · intro hgrammar
      obtain ⟨args, front, hwire, hholds, hsize⟩ := hgrammar.wire after
      exact ⟨args, (pcDecode_eq_some_iff mem length after proc args).mpr ⟨front, hwire, hholds, hsize⟩⟩
  · intro other hsame
    -- what one memory is accepted as, the other is too: the bytes that matter are in the request
    apply Option.ext
    intro args
    rw [pcDecode_eq_some_iff, pcDecode_eq_some_iff]
    constructor
    · rintro ⟨front, hwire, hholds, hsize⟩
      exact ⟨front, hwire, hholds.transfer (hwire.length_le.trans hsize) hsame.symm, hsize⟩
    · rintro ⟨front, hwire, hholds, hsize⟩
      exact ⟨front, hwire, hholds.transfer (hwire.length_le.trans hsize) hsame, hsize⟩

/-- A LOOKUP of `a` in the memory of an older request: the byte behind it does not matter. -/
theorem stale_byte_ignored :
    pcDecode vsnfsprocLookup (memOf (vsnfsXdrLookupargs zeroFh [0x61] ++ [slash])) 20 [] =
      pcDecode vsnfsprocLookup (memOf (vsnfsXdrLookupargs zeroFh [0x61] ++ [0])) 20 [] :=
  (decoders_accept_grammar vsnfsprocLookup (memOf (vsnfsXdrLookupargs zeroFh [0x61] ++ [0])) 20 []).2
    (memOf (vsnfsXdrLookupargs zeroFh [0x61] ++ [slash])) (by decide)

end Vsnfs
