import Vsnfs.ReaddirReply

/-! Reading a directory with several calls on the same open file. The only memory between two calls is
the position of the file, and it is written only when the last entry of the page was taken. A call
that stops earlier leaves it at 0, and the next one starts the listing again. -/

namespace Vsnfs

open Base

/-- What `filldir` is called with for a directory that fits its page. -/
def listingOf (dirents : List Dirent) : List FilldirCall :=
  expectedCalls (dirents.map (fun dirent => (dirent, zeroFh))) (BitVec.allOnes 32)

/-! ### Buffers of the caller -/

/-- A `filldir` with a buffer of some size: an entry is added to what the buffer holds, or refused with
a negative result. The empty buffer has room for any entry. -/
structure CallerBuffer where
  filldir : Filldir (List FilldirCall)
  hadds : ∀ held call, 0 ≤ (filldir held call).1 → (filldir held call).2 = held ++ [call]
  hkeeps : ∀ held call, (filldir held call).1 < 0 → (filldir held call).2 = held
  hroom : ∀ call, 0 ≤ (filldir [] call).1

/-- The buffer takes all these entries, one after the other. -/
def CallerBuffer.Takes (buffer : CallerBuffer) : List FilldirCall → List FilldirCall → Prop
  | _, [] => True
  | held, call :: calls => 0 ≤ (buffer.filldir held call).1 ∧ buffer.Takes (held ++ [call]) calls

/-- How the loop ends on a complete listing: with all of it, or with the part in front of the first
entry that the buffer refuses. -/
inductive Filling (buffer : CallerBuffer) (state : ReaddirState (List FilldirCall))
    (calls : List FilldirCall) (final : ReaddirState (List FilldirCall)) : Prop where
  | whole (htakes : buffer.Takes state.dirents calls) (hdirents : final.dirents = state.dirents ++ calls)
      (hpos : final.fPos = 4096)
  | part (before : List FilldirCall) (call : FilldirCall) (hsplit : before ++ [call] <+: calls)
      (hrefuses : (buffer.filldir (state.dirents ++ before) call).1 < 0)
      (hnot : ¬ buffer.Takes state.dirents calls) (hdirents : final.dirents = state.dirents ++ before)
      (hpos : final.fPos = state.fPos)

/-- An entry that was taken comes in front of what the rest of the loop delivers. -/
theorem Filling.cons {buffer : CallerBuffer} {state next final : ReaddirState (List FilldirCall)}
    {call : FilldirCall} {calls : List FilldirCall} (h : Filling buffer next calls final)
    (htakes : 0 ≤ (buffer.filldir state.dirents call).1) (hheld : next.dirents = state.dirents ++ [call])
    (hkept : next.fPos = state.fPos) : Filling buffer state (call :: calls) final := by
  cases h with
  | whole hrest hdirents hpos =>
      rw [hheld] at hrest hdirents
      refine .whole ⟨htakes, hrest⟩ ?_ hpos
      rw [hdirents, List.append_assoc, List.singleton_append]
  | part before refused hsplit hrefuses hnot hdirents hpos =>
      rw [hheld, List.append_assoc, List.singleton_append] at hrefuses hdirents
      rw [hheld] at hnot
      refine .part (call :: before) refused ?_ hrefuses (fun hall => hnot hall.2) hdirents (hpos.trans hkept)
      rw [List.cons_append]
      exact List.cons_prefix_cons.mpr ⟨rfl, hsplit⟩

theorem doFilldir_filling (buffer : CallerBuffer) (raws : List RawDirent) (hne : raws ≠ []) (word : Word)
    (hword : word ≠ 0) (rest : List Byte) (rounds : Nat) (hrounds : raws.length ≤ rounds)
    (state : ReaddirState (List FilldirCall))
    (hptr : state.ptr = raws.flatMap RawDirent.bytes ++ (leBytes 0 ++ (leBytes word ++ rest))) :
    ∃ res final, vsnfsDoFilldir buffer.filldir rounds state = (.returned res, final) ∧
      Filling buffer state (raws.map RawDirent.call) final := by
  induction raws generalizing rounds state with
  | nil => exact absurd rfl hne
  | cons raw raws ih =>
      obtain ⟨rounds, rfl⟩ : ∃ fewer, rounds = fewer + 1 :=
        ⟨rounds - 1, by rw [List.length_cons] at hrounds; omega⟩
      rw [List.flatMap_cons, List.append_assoc] at hptr
      obtain ⟨eof, heof, hone⟩ := endOfList_listing raws word rest
      rw [and_iff_left hword] at hone
      by_cases hrefuses : (buffer.filldir state.dirents raw.call).1 < 0
      · refine ⟨_, _, doFilldir_refuse buffer.filldir rounds state raw _ eof hptr heof hrefuses, ?_⟩
        refine .part [] raw.call ⟨raws.map RawDirent.call, rfl⟩ ?_ ?_ ?_ rfl
        · rwa [List.append_nil]
        · exact fun htakes => absurd hrefuses (Int.not_lt.mpr htakes.1)
        · rw [List.append_nil]
          exact buffer.hkeeps _ _ hrefuses
      have htakes : 0 ≤ (buffer.filldir state.dirents raw.call).1 := Int.not_lt.mp hrefuses
      rw [doFilldir_accept buffer.filldir rounds state raw _ eof hptr heof htakes,
        buffer.hadds _ _ htakes]
      by_cases hlast : raws = []
      · rw [if_pos (hone.mpr hlast), hlast]
        exact ⟨_, _, rfl, .whole ⟨htakes, trivial⟩ rfl rfl⟩
      · rw [if_neg (fun h => hlast (hone.mp h))]
        rw [List.length_cons] at hrounds
        obtain ⟨res, final, hloop, hfilling⟩ := ih hlast rounds (by omega)
          ⟨_, raw.entry _ eof, state.dirents ++ [raw.call], state.fPos, state.refs⟩ rfl
        exact ⟨res, final, hloop, hfilling.cons htakes rfl rfl⟩

/-! ### The answer to one call -/

/-- The answer to READDIR with the count of a page, while the directory has these entries and one call
of `vfs_readdir` passes all of them. -/
def AnswerFor (dirents : List Dirent) (answer : ReaddirAnswer) : Prop :=
  ∃ (rephdr : Nat) (svc : SvcRes) (head : Head) (args : ReaddirArgs) (env : ReaddirEnv)
    (stale : List Byte), svc.head.length = 4 * rephdr ∧ args.count = pageSize ∧
      DirOpened head args env.opening ∧ env.failure = none ∧ env.entries.map Prod.fst = dirents ∧
      readdirExchange rephdr (BitVec.ofNat 32 pageSize) svc head args env stale = some answer

theorem expectedCalls_congr {calls calls' : List FillerCall}
    (hsame : calls.map Prod.fst = calls'.map Prod.fst) (last : Word) :
    expectedCalls calls last = expectedCalls calls' last := by
  rw [sameDirents_iff] at hsame
  induction hsame with
  | nil => rfl
  | cons hfirst hrest ih =>
      cases hrest with
      | nil => rw [expectedCalls, expectedCalls, hfirst]
      | cons hsecond _ => rw [expectedCalls, expectedCalls, hfirst, ih, hsecond]

theorem fill_last (budget : Int) (dirents : List Dirent)
    (hall : dirents.length ≤ (fill budget (BitVec.allOnes 32) dirents).count) :
    (fill budget (BitVec.allOnes 32) dirents).last = BitVec.allOnes 32 := by
  induction dirents generalizing budget with
  | nil => rfl
  | cons dirent dirents ih =>
      rw [List.length_cons] at hall
      rw [fill] at hall ⊢
      split at hall
      · cases hall
      rename_i hoffset
      rw [if_neg hoffset]
      split at hall
      · cases hall
      rename_i hroom
      rw [if_neg hroom]
      split at hall
      · cases hall
      rename_i hino
      rw [if_neg hino]
      exact ih _ (Nat.le_of_succ_le_succ hall)

theorem replyPage_length_le (svc : SvcRes) (res : ReaddirRes) :
    (replyPage (vsnfssvcEncodeReaddirres svc res)).length ≤ pageSize := by
  refine (List.length_take_le _ _).trans ?_
  change pageLenOf _ ≤ pageSize
  simp only [pageLenOf, pageSize]
  omega

/-- The page of such an answer is a complete listing of the directory. -/
theorem AnswerFor.page {dirents : List Dirent} {answer : ReaddirAnswer} (h : AnswerFor dirents answer)
    (hfits : Fits (readdirBudget pageSize) dirents) :
    ∃ (raws : List RawDirent) (rest : List Byte),
      answer = ⟨true, 0, raws.flatMap RawDirent.bytes ++ (leBytes 0 ++ (leBytes (htonl 1) ++ rest))⟩ ∧
        raws.map RawDirent.call = listingOf dirents := by
  obtain ⟨rephdr, svc, head, args, env, stale, hsvc, hcount, hfile, hfailure, hentries, hexchange⟩ := h
  obtain ⟨filled, hfilled⟩ :
      ∃ filled, fill (readdirBudget args.count) (BitVec.allOnes 32) (env.entries.map Prod.fst) = filled :=
    ⟨_, rfl⟩
  have hall := (fits_iff_le_count _ (readdirBudget_nonneg _) (BitVec.allOnes 32) dirents []).mp hfits
  rw [List.append_nil, ← hcount, ← hentries] at hall
  have hlast := fill_last _ _ hall
  have herr := (fill_err_iff _ _ _).mpr hall
  rw [hfilled, List.length_map] at hall
  rw [hfilled] at hlast herr
  have hret : env.ret = 0 := by rw [ReaddirEnv.ret, hfailure]
  have hreply := readdirReply_opened (svc.emit (leBytes 0)) hfile hfilled
  have hword : eofWord (closingErr 0 (vsnfserr .ok)) = htonl 1 := by decide
  rw [List.take_of_length_le hall, hlast, herr, hret, hword] at hreply
  have hserved := readdirExchange_served rephdr (BitVec.ofNat 32 pageSize) svc head args env stale _ hsvc
    ((procReaddir_ok_iff head args env).mpr ⟨hfile, hfailure⟩) hreply (by
      rw [← hreply]
      exact replyPage_length_le _ _)
  generalize List.drop _ stale = rest at hserved
  obtain rfl := Option.some.inj (hexchange.symm.trans hserved)
  refine ⟨rawList env.entries (BitVec.allOnes 32), rest, ?_, ?_⟩
  · simp only [listingBytes, List.append_assoc]
  · rw [rawList_calls]
    · apply expectedCalls_congr
      rw [List.map_map, hentries]
      exact (List.map_id dirents).symm
    · intro call hcall
      refine (hfits.1 call.1 ?_).2
      rw [← hentries]
      exact List.mem_map_of_mem hcall

/-! ### Calls on one open file -/

/-- One call of `vsnfs_readdir`: the caller's buffer, the answer to the request, and what the local
entry holds before. -/
structure ReaddirCall where
  buffer : CallerBuffer
  answer : ReaddirAnswer
  entry : VsnfsEntry

/-- Every call has an empty buffer; the open file keeps its position. -/
def readdirAgain (rounds : Nat) (state : ReaddirState (List FilldirCall)) (call : ReaddirCall) :
    Stop × ReaddirState (List FilldirCall) :=
  vsnfsReaddir call.buffer.filldir rounds call.answer { state with entry := call.entry, dirents := [] }

section Calls

variable (rounds : Nat) (calls : Nat → ReaddirCall) (start : ReaddirState (List FilldirCall))

/-- The state after the first `count` calls. -/
def stateAfter : Nat → ReaddirState (List FilldirCall)
  | 0 => start
  | count + 1 => (readdirAgain rounds (stateAfter count) (calls count)).2

/-- What the buffer of a call holds in the end. -/
def delivered (index : Nat) : List FilldirCall := (stateAfter rounds calls start (index + 1)).dirents

/-- All that the first `count` calls delivered. -/
def deliveredBy (count : Nat) : List FilldirCall :=
  (List.range count).flatMap (delivered rounds calls start)

/-- The calls return, one of them is the first that delivers nothing, and those before it have delivered
the listing. -/
def DeliversOnce (listing : List FilldirCall) : Prop :=
  ∃ count, (∀ index ≤ count, ∃ res,
      (readdirAgain rounds (stateAfter rounds calls start index) (calls index)).1 = .returned res) ∧
    delivered rounds calls start count = [] ∧
    (∀ index < count, delivered rounds calls start index ≠ []) ∧
    deliveredBy rounds calls start count = listing

theorem deliveredBy_succ_length (count : Nat) :
    (deliveredBy rounds calls start (count + 1)).length =
      (deliveredBy rounds calls start count).length + (delivered rounds calls start count).length := by
  rw [deliveredBy, List.range_succ, List.flatMap_append, List.length_append]
  simp only [List.flatMap_cons, List.flatMap_nil, List.append_nil]
  rfl

end Calls

/-- How one call at position 0 ends. -/
inductive AgainExit (buffer : CallerBuffer) (listing : List FilldirCall)
    (final : ReaddirState (List FilldirCall)) : Prop where
  | empty (hlisting : listing = []) (hdirents : final.dirents = []) (hpos : final.fPos = 0)
  | whole (hne : listing ≠ []) (htakes : buffer.Takes [] listing) (hdirents : final.dirents = listing)
      (hpos : final.fPos = 4096)
  | part (hnot : ¬ buffer.Takes [] listing) (hdirents : final.dirents ≠ []) (hpos : final.fPos = 0)

section Run

variable {dirents : List Dirent} (hfits : Fits (readdirBudget pageSize) dirents)
  {rounds : Nat} (hrounds : dirents.length < rounds) {state : ReaddirState (List FilldirCall)}

theorem listingOf_length (dirents : List Dirent) : (listingOf dirents).length = dirents.length := by
  have hcalls : ∀ (calls : List FillerCall) (last : Word),
      (expectedCalls calls last).length = calls.length := by
    intro calls last
    induction calls with
    | nil => rfl
    | cons call calls ih =>
        cases calls with
        | nil => rfl
        | cons next calls =>
            rw [expectedCalls, List.length_cons, ih]
            rfl
  rw [listingOf, hcalls, List.length_map]

include hfits hrounds

/-- **A call at position 0** delivers the listing and moves the position, or stops at the first entry
that finds no room and leaves the position. -/
theorem readdirAgain_exit (hpos : state.fPos = 0) {call : ReaddirCall}
    (hanswer : AnswerFor dirents call.answer) :
    (∃ res, (readdirAgain rounds state call).1 = .returned res) ∧
      AgainExit call.buffer (listingOf dirents) (readdirAgain rounds state call).2 := by
  obtain ⟨raws, rest, hpage, hraws⟩ := hanswer.page hfits
  have hlength : raws.length = dirents.length := by
    rw [← listingOf_length, ← hraws, List.length_map]
  rw [readdirAgain, hpage, readdir_of_loop call.buffer.filldir rounds _
    { state with entry := call.entry, dirents := [] } hpos rfl (Int.le_refl 0)]
  by_cases hnil : raws = []
  · obtain ⟨fewer, rfl⟩ : ∃ fewer, rounds = fewer + 1 := ⟨rounds - 1, by omega⟩
    have hlisting : listingOf dirents = [] := by
      rw [← hraws, hnil, List.map_nil]
    rw [doFilldir_zero call.buffer.filldir fewer _ (leBytes (htonl 1) ++ rest)
      (by rw [hnil, List.flatMap_nil, List.nil_append]; rfl)]
    exact ⟨⟨_, rfl⟩, .empty hlisting rfl hpos⟩
  · obtain ⟨res, final, hloop, hfilling⟩ := doFilldir_filling call.buffer raws hnil (htonl 1) (by decide)
      rest rounds (by omega) (ReaddirState.onPage _ _) rfl
    rw [hloop]
    refine ⟨⟨_, rfl⟩, ?_⟩
    rw [← hraws]
    cases hfilling with
    | whole htakes hwhole hend =>
        exact .whole (fun h => hnil (List.map_eq_nil_iff.mp h)) htakes hwhole hend
    | part before refused hsplit hrefuses hnot hpart hend =>
        refine .part hnot ?_ (hend.trans hpos)
        change final.dirents ≠ []
        rw [hpart]
        -- the empty buffer refuses nothing
        rintro rfl
        rw [List.append_nil] at hrefuses
        exact absurd hrefuses (Int.not_lt.mpr (call.buffer.hroom refused))

end Run

/-- Behind the end of the listing a call delivers nothing. -/
theorem readdirAgain_moved (rounds : Nat) {state : ReaddirState (List FilldirCall)} (hpos : state.fPos ≠ 0)
    (call : ReaddirCall) :
    readdirAgain rounds state call =
      (.returned 0, { state with entry := call.entry, dirents := [] }) := by
  rw [readdirAgain, vsnfsReaddir, if_pos hpos]

section Stopped

variable {dirents : List Dirent} (hfits : Fits (readdirBudget pageSize) dirents)
  (calls : Nat → ReaddirCall) (hanswers : ∀ index, AnswerFor dirents (calls index).answer)
  (start : ReaddirState (List FilldirCall)) (hopen : start.fPos = 0) (rounds : Nat)
  (hrounds : dirents.length < rounds) (hfirst : ¬ (calls 0).buffer.Takes [] (listingOf dirents))

include hfirst in
/-- Nothing is refused of an empty listing. -/
theorem listingOf_ne_nil_of_refused : listingOf dirents ≠ [] := by
  intro hnil
  rw [hnil] at hfirst
  exact hfirst trivial

include hfits hanswers hopen hrounds hfirst

/-- Once a call has stopped early, the position is still 0 and something was delivered, or the position
has moved and more than the listing was delivered. -/
theorem stopped_early_invariant (count : Nat) :
    ((stateAfter rounds calls start (count + 1)).fPos = 0 ∧
        0 < (deliveredBy rounds calls start (count + 1)).length) ∨
      ((stateAfter rounds calls start (count + 1)).fPos = 4096 ∧
        (listingOf dirents).length < (deliveredBy rounds calls start (count + 1)).length) := by
  have hne := listingOf_ne_nil_of_refused calls hfirst
  induction count with
  | zero =>
      rw [deliveredBy_succ_length]
      cases (readdirAgain_exit hfits hrounds hopen (hanswers 0)).2 with
      | empty hlisting => exact absurd hlisting hne
      | whole _ htakes => exact absurd htakes hfirst
      | part _ hdirents hpos =>
          have hsome := List.length_pos_of_ne_nil hdirents
          exact Or.inl ⟨hpos, Nat.add_pos_right _ hsome⟩
  | succ count ih =>
      rw [deliveredBy_succ_length]
      rcases ih with ⟨hpos, hsome⟩ | ⟨hpos, hmore⟩
      · cases (readdirAgain_exit hfits hrounds hpos (hanswers (count + 1))).2 with
        | empty hlisting => exact absurd hlisting hne
        | whole _ _ hdirents hend =>
            have hall : delivered rounds calls start (count + 1) = listingOf dirents := hdirents
            refine Or.inr ⟨hend, ?_⟩
            rw [hall]
            omega
        | part _ _ hend => exact Or.inl ⟨hend, by omega⟩
      · have hmoved := readdirAgain_moved rounds (hpos.trans_ne (by decide)) (calls (count + 1))
        refine Or.inr ⟨?_, by omega⟩
        rw [stateAfter, hmoved]
        exact hpos

/-- A listing that was not taken at once is never delivered once. -/
theorem not_deliversOnce_of_stopped : ¬ DeliversOnce rounds calls start (listingOf dirents) := by
  rintro ⟨count, -, hnothing, -, hall⟩
  have hne := listingOf_ne_nil_of_refused calls hfirst
  cases count with
  | zero => exact hne hall.symm
  | succ count =>
      rcases stopped_early_invariant hfits calls hanswers start hopen rounds hrounds hfirst count with
        ⟨hpos, -⟩ | ⟨-, hmore⟩
      · -- a call at position 0 delivers something
        cases (readdirAgain_exit hfits hrounds hpos (hanswers (count + 1))).2 with
        | empty hlisting => exact hne hlisting
        | whole _ _ hdirents => exact hne (hdirents.symm.trans hnothing)
        | part _ hdirents => exact hdirents hnothing
      · rw [hall] at hmore
        exact absurd hmore (Nat.lt_irrefl _)

end Stopped

/-- **Repeated calls deliver the listing once exactly when the first buffer holds all of it.** The
directory fits its page and does not change, every call is answered, and every buffer has room for an
entry. When the first buffer is too small, the second call starts from the first entry again. -/
theorem repeated_readdir_delivers_once_iff (dirents : List Dirent)
    (hfits : Fits (readdirBudget pageSize) dirents)
    (calls : Nat → ReaddirCall) (hanswers : ∀ index, AnswerFor dirents (calls index).answer)
    (start : ReaddirState (List FilldirCall)) (hopen : start.fPos = 0) (rounds : Nat)
    (hrounds : dirents.length < rounds) :
    DeliversOnce rounds calls start (listingOf dirents) ↔
      (calls 0).buffer.Takes [] (listingOf dirents) := by
  have hexit := readdirAgain_exit hfits hrounds hopen (hanswers 0)
  constructor
  · intro honce
    by_contra hfirst
    exact not_deliversOnce_of_stopped hfits calls hanswers start hopen rounds hrounds hfirst honce
  · intro htakes
    cases hexit.2 with
    | part hnot => exact absurd htakes hnot
    | empty hlisting hdirents _ =>
        refine ⟨0, ?_, hdirents, fun _ h => absurd h (Nat.not_lt_zero _), hlisting.symm⟩
        intro index hindex
        rw [Nat.le_zero.mp hindex]
        exact hexit.1
    | whole hne _ hdirents hend =>
        have hmoved := readdirAgain_moved rounds (hend.trans_ne (by decide)) (calls 1)
        refine ⟨1, ?_, ?_, ?_, ?_⟩
        · intro index hindex
          rcases Nat.le_one_iff_eq_zero_or_eq_one.mp hindex with rfl | rfl
          · exact hexit.1
          · exact ⟨0, congrArg Prod.fst hmoved⟩
        · exact congrArg (fun out => out.2.dirents) hmoved
        · intro index hindex
          rw [Nat.lt_one_iff.mp hindex]
          exact fun hnil => hne (hdirents.symm.trans hnil)
        · rw [deliveredBy, List.range_one]
          simp only [List.flatMap_cons, List.flatMap_nil, List.append_nil]
          exact hdirents

/-- A buffer for `more` entries after the first. -/
def bufferOf (more : Nat) : CallerBuffer where
  filldir held call := if held.length ≤ more then (0, held ++ [call]) else (-einval, held)
  hadds held call h := by
    split
    · rfl
    · rename_i hfull
      rw [if_neg hfull] at h
      exact absurd h (show ¬ (0 : Int) ≤ -einval by decide)
  hkeeps held call h := by
    split
    · rename_i hroom
      rw [if_pos hroom] at h
      exact absurd h (Int.lt_irrefl 0)
    · rfl
  hroom call := by simp

theorem answerFor_passing (entries : List FillerCall) :
    ∃ answer, AnswerFor (entries.map Prod.fst) answer :=
  ⟨_, 0, ⟨0, [], 0⟩, some [firstRoot], rootReaddir, passing entries, [], rfl, rfl, passing_opened entries,
    rfl, rfl, readdirExchange_served 0 (BitVec.ofNat 32 pageSize) ⟨0, [], 0⟩ (some [firstRoot]) rootReaddir
      (passing entries) [] _ rfl (passing_ok entries) rfl (replyPage_length_le _ _)⟩

theorem twoEntries_fits : Fits (readdirBudget pageSize) (twoEntries.map Prod.fst) := by
  refine ⟨?_, by decide⟩
  simp only [Dirent.Small]
  decide

/-- Calls on a directory of two entries, all with buffers of one size. -/
def callsOf (more : Nat) (answer : ReaddirAnswer) : Nat → ReaddirCall :=
  fun _ => ⟨bufferOf more, answer, (startOn []).entry⟩

/-- Buffers for two entries: the listing is delivered once. -/
theorem two_entries_delivered_once :
    ∃ answer, AnswerFor (twoEntries.map Prod.fst) answer ∧
      DeliversOnce 3 (callsOf 1 answer) (startOn []) (listingOf (twoEntries.map Prod.fst)) := by
  obtain ⟨answer, hanswer⟩ := answerFor_passing twoEntries
  have htakes : (bufferOf 1).Takes [] (listingOf (twoEntries.map Prod.fst)) :=
    ⟨by decide, by decide, trivial⟩
  exact ⟨answer, hanswer, (repeated_readdir_delivers_once_iff _ twoEntries_fits (callsOf 1 answer)
    (fun _ => hanswer) (startOn []) rfl 3 (by decide)).mpr htakes⟩

/-- Buffers for one entry: the first entry is delivered again and again. -/
theorem two_entries_not_delivered_once :
    ∃ answer, AnswerFor (twoEntries.map Prod.fst) answer ∧
      Fits (readdirBudget pageSize) (twoEntries.map Prod.fst) ∧
      ¬ DeliversOnce 3 (callsOf 0 answer) (startOn []) (listingOf (twoEntries.map Prod.fst)) := by
  obtain ⟨answer, hanswer⟩ := answerFor_passing twoEntries
  have hrefuses : ¬ (bufferOf 0).Takes [] (listingOf (twoEntries.map Prod.fst)) :=
    fun htakes => absurd htakes.2.1 (by decide)
  exact ⟨answer, hanswer, twoEntries_fits, not_deliversOnce_of_stopped twoEntries_fits (callsOf 0 answer)
    (fun _ => hanswer) (startOn []) rfl 3 (by decide) hrefuses⟩

end Vsnfs
