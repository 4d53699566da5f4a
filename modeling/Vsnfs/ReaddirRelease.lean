import Vsnfs.ReaddirBounds
import Vsnfs.ReaddirReply

/-! The page a READDIR allocates. It is mapped after the call and unmapped and released in one place, at
the regular end of the loop; every other way out of the loop or of its caller goes past that place. -/

namespace Vsnfs

open Base

/-- Every page that was allocated has been released once, and every mapping undone. -/
def PageRefs.Settled (refs : PageRefs) : Prop := refs.releases = refs.allocs ∧ refs.kunmaps = refs.kmaps

section Release

variable {Dirents : Type} (filldir : Filldir Dirents)

/-- `filldir` takes all these entries, one after the other. -/
def Takes : Dirents → List FilldirCall → Prop
  | _, [] => True
  | dirents, call :: calls => 0 ≤ (filldir dirents call).1 ∧ Takes (filldir dirents call).2 calls

/-- The page holds a listing with at least one entry and the mark of a complete one, and all its
entries are taken. -/
def Consumes (dirents : Dirents) (page : List Byte) : Prop :=
  ∃ (raws : List RawDirent) (word : Word) (rest : List Byte), raws ≠ [] ∧ word ≠ 0 ∧
    page = raws.flatMap RawDirent.bytes ++ (leBytes 0 ++ (leBytes word ++ rest)) ∧
    Takes filldir dirents (raws.map RawDirent.call)

theorem not_consumes_zero (dirents : Dirents) (rest : List Byte) :
    ¬ Consumes filldir dirents (leBytes 0 ++ rest) := by
  rintro ⟨raws, word, tail, hne, -, hpage, -⟩
  cases raws with
  | nil => exact hne rfl
  | cons raw raws =>
      rw [List.flatMap_cons, List.append_assoc] at hpage
      exact raw.bytes_ne_zero _ _ hpage.symm

/-- What is left to be consumed behind the first entry. -/
theorem consumes_entry_iff (dirents : Dirents) (raw : RawDirent) (rest : List Byte) (eof : Int)
    (heof : endOfList rest = some eof) :
    Consumes filldir dirents (raw.bytes ++ rest) ↔
      0 ≤ (filldir dirents raw.call).1 ∧ (eof = 1 ∨ Consumes filldir (filldir dirents raw.call).2 rest) := by
  constructor
  · rintro ⟨raws, word, tail, hne, hword, hpage, htakes⟩
    cases raws with
    | nil => exact absurd rfl hne
    | cons first raws =>
        rw [List.flatMap_cons, List.append_assoc] at hpage
        obtain ⟨rfl, hrest⟩ := RawDirent.bytes_append_inj hpage
        refine ⟨htakes.1, ?_⟩
        by_cases hnil : raws = []
        · obtain ⟨eof', heof', hone⟩ := endOfList_listing raws word tail
          rw [← hrest, heof, Option.some.injEq] at heof'
          exact Or.inl (heof'.trans (hone.mpr ⟨hnil, hword⟩))
        · exact Or.inr ⟨raws, word, tail, hnil, hword, hrest, htakes.2⟩
  · rintro ⟨hfirst, rfl | ⟨raws, word, tail, -, hword, hrest, htakes⟩⟩
    · obtain ⟨word, tail, hword, rfl⟩ := eq_of_endOfList_one heof
      refine ⟨[raw], word, tail, by simp, hword, ?_, hfirst, trivial⟩
      rw [List.flatMap_cons, List.flatMap_nil, List.append_nil]
    · refine ⟨raw :: raws, word, tail, by simp, hword, ?_, hfirst, htakes⟩
      rw [hrest, List.flatMap_cons, List.append_assoc]

/-- **The exits of the loop.** A loop that returns has unmapped and released the page when it consumed
the listing, and otherwise has not touched it. -/
theorem doFilldir_refs {rounds : Nat} {state : ReaddirState Dirents} {res : Int}
    (hpage : state.ptr.length + 3 < 2 ^ 32)
    (hstop : (vsnfsDoFilldir filldir rounds state).1 = .returned res) :
    Consumes filldir state.dirents state.ptr ∧
        (vsnfsDoFilldir filldir rounds state).2.refs = (dirPageRelease state).refs ∨
      ¬ Consumes filldir state.dirents state.ptr ∧
        (vsnfsDoFilldir filldir rounds state).2.refs = state.refs := by
  induction rounds generalizing state with
  | zero => cases hstop
  | succ rounds ih =>
      obtain ⟨rest, hzero⟩ | ⟨raw, rest, eof, hptr, heof⟩ :=
        doFilldir_inside_cases hpage (by rw [hstop]; exact Stop.noConfusion)
      · rw [doFilldir_zero filldir rounds state rest hzero, hzero]
        exact Or.inr ⟨not_consumes_zero filldir state.dirents rest, rfl⟩
      have hiff := consumes_entry_iff filldir state.dirents raw rest eof heof
      rw [← hptr] at hiff
      by_cases hrefuses : (filldir state.dirents raw.call).1 < 0
      · rw [doFilldir_refuse filldir rounds state raw rest eof hptr heof hrefuses]
        refine Or.inr ⟨fun hconsumes => ?_, rfl⟩
        exact absurd (hiff.mp hconsumes).1 (Int.not_le.mpr hrefuses)
      have htakes : 0 ≤ (filldir state.dirents raw.call).1 := Int.not_lt.mp hrefuses
      rw [doFilldir_accept filldir rounds state raw rest eof hptr heof htakes] at hstop ⊢
      by_cases hone : eof = 1
      · rw [if_pos hone]
        exact Or.inl ⟨hiff.mpr ⟨htakes, Or.inl hone⟩, rfl⟩
      rw [if_neg hone] at hstop ⊢
      have hshort : rest.length + 3 < 2 ^ 32 := by
        rw [hptr, List.length_append] at hpage
        omega
      rcases ih hshort hstop with ⟨hrest, hrefs⟩ | ⟨hrest, hrefs⟩
      · exact Or.inl ⟨hiff.mpr ⟨htakes, Or.inr hrest⟩, hrefs⟩
      · refine Or.inr ⟨fun hconsumes => ?_, hrefs⟩
        exact hrest ((hiff.mp hconsumes).2.resolve_left hone)

/-! ### Calls of `vsnfs_readdir` -/

/-- A call that settles its page: it allocates none, or the RPC succeeds and the listing is consumed. -/
def SettlesPage (answer : ReaddirAnswer) (state : ReaddirState Dirents) : Prop :=
  state.fPos ≠ 0 ∨ answer.alloc = false ∨ 0 ≤ answer.status ∧ Consumes filldir state.dirents answer.page

/-- A call that reaches the loop settles its page exactly when the listing is consumed: that exit alone
releases the page, and every other one leaves it mapped. -/
theorem readdir_loop_settled_iff {rounds : Nat} {answer : ReaddirAnswer} {state : ReaddirState Dirents}
    {res : Int} (hpage : answer.page.length = pageSize) (hrefs : state.refs = ⟨0, 0, 0, 0⟩)
    (hpos : state.fPos = 0) (halloc : answer.alloc = true) (hstatus : 0 ≤ answer.status)
    (hreturn : (vsnfsReaddir filldir rounds answer state).1 = .returned res) :
    (vsnfsReaddir filldir rounds answer state).2.refs.Settled ↔ Consumes filldir state.dirents answer.page := by
  have hshort : (state.onPage answer.page).ptr.length + 3 < 2 ^ 32 := by
    change answer.page.length + 3 < 2 ^ 32
    rw [hpage]
    decide
  have hcount : (state.onPage answer.page).refs = ⟨1, 1, 0, 0⟩ := by
    rw [ReaddirState.onPage, hrefs]
  rw [readdir_of_loop filldir rounds answer state hpos halloc hstatus] at hreturn ⊢
  obtain ⟨res', hstop⟩ := Stop.clip_eq_returned hreturn
  rw [ReaddirState.closed]
  rcases doFilldir_refs filldir hshort hstop with ⟨hconsumes, hafter⟩ | ⟨hconsumes, hafter⟩
  · rw [hafter, dirPageRelease, hcount]
    exact iff_of_true ⟨rfl, rfl⟩ hconsumes
  · rw [hafter, hcount]
    exact iff_of_false (fun hsettled => absurd hsettled.1 (by decide)) hconsumes

/-- **The page of a READDIR.** For every answer to the RPC, every content of the reply page on which the
call returns and every `filldir`, counting from zero: the page has been released exactly once and
unmapped as often as mapped if and only if no page was allocated, or the RPC succeeded with a complete
listing of at least one entry of which `filldir` took every entry. -/
theorem readdir_page_settled_iff (rounds : Nat) (answer : ReaddirAnswer) (state : ReaddirState Dirents)
    (res : Int) (hpage : answer.page.length = pageSize) (hrefs : state.refs = ⟨0, 0, 0, 0⟩)
    (hreturn : (vsnfsReaddir filldir rounds answer state).1 = .returned res) :
    (vsnfsReaddir filldir rounds answer state).2.refs.Settled ↔ SettlesPage filldir answer state := by
  have hstart : state.refs.Settled := by
    rw [hrefs]
    exact ⟨rfl, rfl⟩
  by_cases hpos : state.fPos ≠ 0
  · rw [vsnfsReaddir, if_pos hpos]
    exact iff_of_true hstart (Or.inl hpos)
  rw [ne_eq, not_not] at hpos
  cases halloc : answer.alloc with
  | false =>
      simp only [vsnfsReaddir, simpleReaddir, hpos, halloc, ne_eq, not_true_eq_false, if_false, if_true]
      exact iff_of_true hstart (Or.inr (Or.inl halloc))
  | true =>
      have hsettles : SettlesPage filldir answer state ↔
          0 ≤ answer.status ∧ Consumes filldir state.dirents answer.page := by
        simp only [SettlesPage, hpos, halloc, ne_eq, not_true_eq_false, Bool.true_eq_false, false_or]
      rw [hsettles]
      by_cases hstatus : 0 ≤ answer.status
      · rw [readdir_loop_settled_iff filldir hpage hrefs hpos halloc hstatus hreturn, and_iff_right hstatus]
      · -- the RPC failed: the page is neither mapped nor released
        simp only [vsnfsReaddir, simpleReaddir, hpos, halloc, Int.not_le.mp hstatus, hrefs, ne_eq,
          not_true_eq_false, if_false, if_true, Bool.true_eq_false]
        exact iff_of_false (fun hsettled => absurd hsettled.1 (by decide)) (fun h => hstatus h.1)

end Release

/-- A caller at the start of a directory, before anything was allocated. -/
def unread : ReaddirState (List FilldirCall) := { startOn [] with refs := ⟨0, 0, 0, 0⟩ }

def entryA : RawDirent := ⟨htonl 1, 7, [0x61], [0, 0, 0], zeroFh, 12, htonl_one_ne_zero, by decide, by decide⟩

/-- A page with one entry and the mark of a complete listing. -/
def entryAPage : List Byte :=
  entryA.bytes ++ (leBytes 0 ++ (leBytes (htonl 1) ++ List.replicate 4056 0))

/-- A listing of one entry that is taken settles its page. -/
theorem one_entry_page_settled :
    (vsnfsReaddir recorder 1 ⟨true, 0, entryAPage⟩ unread).2.refs.Settled := by
  have hpage : entryAPage.length = pageSize := by
    simp only [entryAPage, List.length_append, RawDirent.bytes_length, leBytes_length, List.length_replicate]
    rfl
  have hlisting : entryAPage = [entryA].flatMap RawDirent.bytes ++
      (leBytes 0 ++ (leBytes (htonl 1) ++ List.replicate 4056 0)) := by
    rw [List.flatMap_cons, List.flatMap_nil, List.append_nil]
    rfl
  obtain ⟨res, entry, -, hloop⟩ := doFilldir_complete recorder recorder_never_fails [entryA] (by simp)
    (htonl 1) (by decide) _ 1 le_rfl (unread.onPage entryAPage) hlisting
  have hcall := readdir_of_loop recorder 1 ⟨true, 0, entryAPage⟩ unread rfl rfl (Int.le_refl 0)
  rw [hloop] at hcall
  refine (readdir_page_settled_iff recorder 1 ⟨true, 0, entryAPage⟩ unread _ hpage rfl
    (congrArg Prod.fst hcall)).mpr (Or.inr (Or.inr ⟨Int.le_refl 0, ?_⟩))
  exact ⟨[entryA], htonl 1, _, by simp, by decide, hlisting, Int.le_refl 0, trivial⟩

/-- An RPC that fails leaks its page: one was allocated and none released. The empty listing, whose page
is all zeros, leaves the page mapped as well. -/
theorem failed_readdir_page_not_settled :
    ((vsnfsReaddir recorder 0 ⟨true, -5, List.replicate pageSize 0⟩ unread).1 = .returned (-5) ∧
      (vsnfsReaddir recorder 0 ⟨true, -5, List.replicate pageSize 0⟩ unread).2.refs = ⟨1, 0, 0, 0⟩ ∧
      ¬ (vsnfsReaddir recorder 0 ⟨true, -5, List.replicate pageSize 0⟩ unread).2.refs.Settled) ∧
    (vsnfsReaddir recorder 1 ⟨true, 0, List.replicate pageSize 0⟩ unread).1 = .returned (-ebadcookie) ∧
      (vsnfsReaddir recorder 1 ⟨true, 0, List.replicate pageSize 0⟩ unread).2.refs = ⟨1, 1, 0, 0⟩ ∧
      ¬ (vsnfsReaddir recorder 1 ⟨true, 0, List.replicate pageSize 0⟩ unread).2.refs.Settled := by
  have hzeros : List.replicate pageSize (0 : Byte) = leBytes 0 ++ List.replicate 4092 0 := by
    rw [show leBytes 0 = List.replicate 4 0 from by decide, ← List.replicate_add]
  have hcall := readdir_of_loop recorder 1 ⟨true, 0, List.replicate pageSize 0⟩ unread rfl rfl (Int.le_refl 0)
  rw [doFilldir_zero recorder 0 _ (List.replicate 4092 0) hzeros] at hcall
  rw [hcall]
  refine ⟨⟨rfl, rfl, ?_⟩, rfl, rfl, ?_⟩
  · exact fun hsettled => Nat.zero_ne_one hsettled.1
  · exact fun hsettled => Nat.zero_ne_one hsettled.1

end Vsnfs
