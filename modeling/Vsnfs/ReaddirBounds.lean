import Vsnfs.ReaddirWire

/-! Where the client's loop stays inside the reply page. Nothing checks the page before it is decoded:
the loop ends inside it exactly when it holds a listing of the format, and on every other page some
word or name byte behind its end is read. -/

namespace Vsnfs

open Base

/-- Entries and a zero word, and behind that zero word one more word unless there are no entries. -/
def HoldsListing (page : List Byte) : Prop :=
  ∃ (raws : List RawDirent) (rest : List Byte),
    page = raws.flatMap RawDirent.bytes ++ (leBytes 0 ++ rest) ∧ (raws = [] ∨ 4 ≤ rest.length)

/-- Only the zero word in place of a mark is an error of the decoder. -/
theorem eq_of_decode_error {p : List Byte} {old decoded : VsnfsEntry} {errno : Int}
    (h : vsnfsDecodeDirent p old = some (.error errno, decoded)) : ∃ rest, p = leBytes 0 ++ rest := by
  obtain ⟨rest, hp, -⟩ | ⟨_, _, _, _, _, _, _, _, _, _, _, _, hresult⟩ := decode_cases h
  · exact ⟨rest, hp⟩
  · cases congrArg Prod.fst hresult

section Loop

variable {Dirents : Type} {filldir : Filldir Dirents}

/-- A round that stays inside the page saw a zero word, or an entry and what follows it. -/
theorem doFilldir_inside_cases {rounds : Nat} {state : ReaddirState Dirents}
    (hpage : state.ptr.length + 3 < 2 ^ 32)
    (hinside : (vsnfsDoFilldir filldir (rounds + 1) state).1 ≠ .outsidePage) :
    (∃ rest, state.ptr = leBytes 0 ++ rest) ∨
      ∃ (raw : RawDirent) (rest : List Byte) (eof : Int), state.ptr = raw.bytes ++ rest ∧
        endOfList rest = some eof := by
  cases hdecode : vsnfsDecodeDirent state.ptr state.entry with
  | none =>
      rw [vsnfsDoFilldir, dirDecode, hdecode] at hinside
      exact absurd rfl hinside
  | some decoded =>
      obtain ⟨result, entry⟩ := decoded
      cases result with
      | error errno => exact Or.inl (eq_of_decode_error hdecode)
      | ok p =>
          cases hcall : entry.call with
          | none =>
              rw [vsnfsDoFilldir, dirDecode, hdecode] at hinside
              simp only [Int.lt_irrefl, if_false, hcall] at hinside
              exact absurd rfl hinside
          | some call =>
              obtain ⟨raw, hptr, heof⟩ := RawDirent.of_decode hpage hdecode hcall
              exact Or.inr ⟨raw, p, entry.eof, hptr, heof⟩

variable (hnever : ∀ dirents call, 0 ≤ (filldir dirents call).1)

include hnever

/-- The first round of a loop that returned: it saw a zero word, or an entry, and then the listing ended or
the other rounds returned. -/
theorem doFilldir_returned_cases {rounds : Nat} {state : ReaddirState Dirents} {res : Int}
    (hpage : state.ptr.length + 3 < 2 ^ 32)
    (hstop : (vsnfsDoFilldir filldir (rounds + 1) state).1 = .returned res) :
    (∃ rest, state.ptr = leBytes 0 ++ rest) ∨
      ∃ (raw : RawDirent) (rest : List Byte) (eof : Int), state.ptr = raw.bytes ++ rest ∧
        endOfList rest = some eof ∧ (eof = 1 ∨ ∃ next : ReaddirState Dirents, next.ptr = rest ∧
          (vsnfsDoFilldir filldir rounds next).1 = .returned res) := by
  obtain hzero | ⟨raw, rest, eof, hptr, heof⟩ :=
    doFilldir_inside_cases hpage (by rw [hstop]; exact Stop.noConfusion)
  · exact Or.inl hzero
  refine Or.inr ⟨raw, rest, eof, hptr, heof, ?_⟩
  rw [doFilldir_entry filldir hnever rounds state raw rest eof hptr heof] at hstop
  by_cases hone : eof = 1
  · exact Or.inl hone
  · rw [if_neg hone] at hstop
    exact Or.inr ⟨_, rfl, hstop⟩

/-- A loop that returned has seen a listing. -/
theorem holdsListing_of_returned {rounds : Nat} {state : ReaddirState Dirents} {res : Int}
    (hpage : state.ptr.length + 3 < 2 ^ 32)
    (hstop : (vsnfsDoFilldir filldir rounds state).1 = .returned res) : HoldsListing state.ptr := by
  induction rounds generalizing state with
  | zero => cases hstop
  | succ rounds ih =>
      obtain ⟨rest, hzero⟩ | ⟨raw, rest, eof, hptr, heof, hone | ⟨next, hnext, hrest⟩⟩ :=
        doFilldir_returned_cases hnever hpage hstop
      · exact ⟨[], rest, hzero, Or.inl rfl⟩
      · rw [hone] at heof
        obtain ⟨word, tail, -, hend⟩ := eq_of_endOfList_one heof
        refine ⟨[raw], leBytes word ++ tail, ?_, Or.inr ?_⟩
        · rw [hptr, hend]
          simp only [List.flatMap_cons, List.flatMap_nil, List.append_nil]
        · rw [List.length_append, leBytes_length]
          omega
      · have hshort : next.ptr.length + 3 < 2 ^ 32 := by
          rw [hptr, List.length_append] at hpage
          rw [hnext]
          omega
        obtain ⟨raws, tail, hraws, htail⟩ := ih hshort hrest
        rw [hnext] at hraws
        refine ⟨raw :: raws, tail, ?_, Or.inr ?_⟩
        · rw [hptr, hraws, List.flatMap_cons, List.append_assoc]
        · -- the round before has looked at the word behind the zero word
          rcases htail with rfl | htail
          · rw [hraws, List.flatMap_nil, List.nil_append] at heof
            by_contra hfew
            rw [(endOfList_zero_eq_none_iff tail).mpr (by omega)] at heof
            cases heof
          · exact htail

/-- A loop on a listing returns. -/
theorem returned_of_holdsListing {state : ReaddirState Dirents} (hpage : HoldsListing state.ptr) :
    ∃ rounds res, (vsnfsDoFilldir filldir rounds state).1 = .returned res := by
  obtain ⟨raws, rest, hptr, hrest⟩ := hpage
  by_cases hnil : raws = []
  · rw [hnil, List.flatMap_nil, List.nil_append] at hptr
    exact ⟨1, -ebadcookie, by rw [doFilldir_zero filldir 0 state rest hptr]⟩
  · obtain ⟨word, tail, hword⟩ : ∃ word tail, rest = leBytes word ++ tail := by
      cases htake : take32 rest with
      | none =>
          have := (take32_eq_none_iff rest).mp htake
          have := hrest.resolve_left hnil
          omega
      | some read => exact ⟨read.1, read.2, (take32_eq_some_iff _ _ _).mp htake⟩
    rw [hword] at hptr
    by_cases hzero : word = 0
    · rw [hzero] at hptr
      obtain ⟨entry, hloop⟩ := doFilldir_unfinished filldir hnever raws tail (raws.length + 1)
        (Nat.lt_succ_self _) state hptr
      exact ⟨raws.length + 1, -ebadcookie, by rw [hloop]⟩
    · obtain ⟨res, entry, -, hloop⟩ := doFilldir_complete filldir hnever raws hnil word hzero tail
        raws.length le_rfl state hptr
      exact ⟨raws.length, res, by rw [hloop]⟩

/-- **The loop stays inside the page exactly on listings.** For every content of the reply page, the
loop returns after finitely many rounds without reading outside the page if and only if the page holds
a listing. -/
theorem filldir_loop_inside_iff (page : List Byte) (hpage : page.length = pageSize)
    (state : ReaddirState Dirents) (hptr : state.ptr = page) :
    (∃ rounds res, (vsnfsDoFilldir filldir rounds state).1 = .returned res) ↔ HoldsListing page := by
  constructor
  · rintro ⟨rounds, res, hstop⟩
    rw [← hptr]
    refine holdsListing_of_returned hnever ?_ hstop
    rw [hptr, hpage]
    decide
  · intro hlisting
    rw [← hptr] at hlisting
    exact returned_of_holdsListing hnever hlisting

end Loop

/-- A `filldir` that keeps its calls and never fails. -/
def recorder : Filldir (List FilldirCall) := fun calls call => (0, calls ++ [call])

theorem recorder_never_fails (calls : List FilldirCall) (call : FilldirCall) :
    0 ≤ (recorder calls call).1 := Int.le_refl 0

/-- The loop's state at the start of a page; the entry is not initialised by the code either. -/
def startOn (page : List Byte) : ReaddirState (List FilldirCall) :=
  ⟨page, ⟨0, 0, [], 0, 0, zeroFh⟩, [], 0, ⟨1, 1, 0, 0⟩⟩

/-- The entry `x` with the number 7. -/
def entryOfX : RawDirent :=
  ⟨htonl 1, 7, [0x78], [0, 0, 0], zeroFh, BitVec.allOnes 32, by decide, by decide, by decide⟩

/-- A page with that entry and the end of the listing, and zeros behind it. -/
def oneEntryPage : List Byte :=
  entryOfX.bytes ++ (leBytes 0 ++ (leBytes (htonl 1) ++ List.replicate 4056 0))

theorem oneEntryPage_length : oneEntryPage.length = pageSize := by
  have hentry : entryOfX.bytes.length = 32 := entryOfX.bytes_length
  rw [oneEntryPage, List.length_append, List.length_append, List.length_append, hentry, leBytes_length,
    leBytes_length, List.length_replicate]

/-- The loop stays inside that page. -/
theorem one_entry_page_loop_inside :
    ∃ rounds res, (vsnfsDoFilldir recorder rounds (startOn oneEntryPage)).1 = .returned res := by
  refine (filldir_loop_inside_iff recorder_never_fails oneEntryPage oneEntryPage_length (startOn oneEntryPage)
    rfl).mpr ⟨[entryOfX], leBytes (htonl 1) ++ List.replicate 4056 0, ?_, .inr ?_⟩
  · rw [oneEntryPage, List.flatMap_cons, List.flatMap_nil, List.append_nil]
  · rw [List.length_append, leBytes_length]
    exact Nat.le_add_right _ _

/-- A page whose first entry claims a name of 65536 bytes. -/
def longNamePage : List Byte :=
  leBytes 1 ++ (beBytes 7 ++ (beBytes 65536 ++ List.replicate 4084 0))

/-- On that page the loop looks for the handle of the first entry far behind the page. -/
theorem long_name_page_loop_outside :
    longNamePage.length = pageSize ∧
      ¬ ∃ rounds res, (vsnfsDoFilldir recorder rounds (startOn longNamePage)).1 = .returned res := by
  have hskip : takeBytes (4 * (xdrQuadlen 65536).toNat) (List.replicate 4084 0) = none := by
    rw [takeBytes, if_neg]
    rw [List.length_replicate]
    decide
  have hdecode : vsnfsDecodeDirent (startOn longNamePage).ptr (startOn longNamePage).entry = none := by
    simp only [startOn, longNamePage, vsnfsDecodeDirent, take32_leBytes, take32_beBytes,
      Option.bind_eq_bind, Option.bind_some, htonl_htonl, hskip, Option.bind_none, Option.pure_def]
    rfl
  refine ⟨?_, ?_⟩
  · simp only [longNamePage, List.length_append, leBytes_length, beBytes_length, List.length_replicate]
  · rintro ⟨rounds, res, hstop⟩
    cases rounds with
    | zero => cases hstop
    | succ rounds =>
        rw [vsnfsDoFilldir, dirDecode, hdecode] at hstop
        cases hstop

end Vsnfs
