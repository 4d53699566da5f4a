import Mathlib.Data.List.TakeDrop
import Vsnfs.ReaddirReply

/-! The account of a READDIR page, for calls of the filler in any order. A refusal ends a listing of
`vfs_readdir`, but nothing in the filler depends on that: whatever was refused before, the words behind the
pointer and the words left add up to the budget, and the bytes written are those in front of the pointer. A
refusal itself touches one word of the page, the open offset of the entry in front. -/

namespace Vsnfs

open Base

/-! ### Calls in any order -/

/-- One call of the filler, whatever it returns. -/
def fillerStep (res : ReaddirRes) (call : FillerCall) : ReaddirRes := (encodeCall res call).1

/-- The calls that are accepted, also behind a refusal. -/
def acceptedCalls : ReaddirRes → List FillerCall → List FillerCall
  | _, [] => []
  | res, call :: calls =>
      if (encodeCall res call).2 = 0 then call :: acceptedCalls (fillerStep res call) calls
      else acceptedCalls (fillerStep res call) calls

/-- The reasons to refuse an entry. -/
def Refused (res : ReaddirRes) (call : FillerCall) : Prop :=
  2 ^ 32 - 1 < call.1.offset.toInt ∨ entryRoom res call < 0 ∨ 2 ^ 32 - 1 < call.1.ino.toNat

/-- The error of a refusal. The offset is checked first, then the room. -/
def refusalErr (res : ReaddirRes) (call : FillerCall) : Word :=
  if call.1.offset.toInt ≤ 2 ^ 32 - 1 ∧ entryRoom res call < 0 then vsnfserr .toosmall else vsnfserr .fbig

theorem refusalErr_ne_ok (res : ReaddirRes) (call : FillerCall) : refusalErr res call ≠ vsnfserr .ok := by
  unfold refusalErr
  split <;> decide

/-- An entry is refused for one of the reasons. -/
theorem refused_iff_ret (res : ReaddirRes) (call : FillerCall) :
    Refused res call ↔ (encodeCall res call).2 ≠ 0 := by
  have hrejected : (-einval : Int) ≠ 0 := by decide
  rw [Refused]
  cases encode_exit res call with
  | offsetTooBig hoffset hout =>
      rw [hout]
      exact iff_of_true (Or.inl hoffset) hrejected
  | noRoom _ hroom hout =>
      rw [hout]
      exact iff_of_true (Or.inr (Or.inl hroom)) hrejected
  | inoTooBig _ _ hino hout =>
      rw [hout]
      exact iff_of_true (Or.inr (Or.inr hino)) hrejected
  | accepted hoffset hroom hino _ _ hout =>
      rw [hout]
      exact iff_of_false (by omega) (fun h => h rfl)

/-- What a refusal does: it fills in the open offset word, unless its own offset is the reason, and sets
the error. -/
theorem refused_exit {res : ReaddirRes} {call : FillerCall} (h : Refused res call) :
    ∃ left, (left = res ∨ left = res.patch call.1.offset) ∧
      encodeCall res call = ({ left with err := refusalErr res call }, -einval) := by
  have hret := (refused_iff_ret res call).mp h
  cases encode_exit res call with
  | offsetTooBig hoffset hout =>
      refine ⟨res, Or.inl rfl, ?_⟩
      rw [hout, refusalErr, if_neg (by omega)]
  | noRoom hoffset hroom hout =>
      refine ⟨_, Or.inr rfl, ?_⟩
      rw [hout, refusalErr, if_pos ⟨hoffset, hroom⟩]
  | inoTooBig _ hroom _ hout =>
      refine ⟨_, Or.inr rfl, ?_⟩
      rw [hout, refusalErr, if_neg (by omega)]
  | accepted _ _ _ _ _ hout =>
      rw [hout] at hret
      exact absurd rfl hret

/-- One call keeps the page: an accepted entry is added, a refused one is not. -/
theorem PageHolds.step {count : Nat} {calls : List FillerCall} {last : Word} {res : ReaddirRes}
    (h : PageHolds count calls last res) (call : FillerCall) :
    ∃ next, PageHolds count (if (encodeCall res call).2 = 0 then calls ++ [call] else calls) next
      (fillerStep res call) := by
  by_cases hzero : (encodeCall res call).2 = 0
  · rw [if_pos hzero]
    exact ⟨_, h.accept hzero⟩
  · rw [if_neg hzero, fillerStep]
    obtain ⟨left, hleft, hout⟩ := refused_exit ((refused_iff_ret res call).mpr hzero)
    rw [hout]
    rcases hleft with rfl | rfl
    · exact ⟨last, h.close _ _⟩
    · exact ⟨_, (h.patch call.1.offset).close _ _⟩

/-- **Any sequence of calls** leaves the accepted entries on the page. -/
theorem PageHolds.run {count : Nat} {before : List FillerCall} {last : Word} {res : ReaddirRes}
    (h : PageHolds count before last res) (calls : List FillerCall) :
    ∃ next, PageHolds count (before ++ acceptedCalls res calls) next (runFrom fillerStep res calls) := by
  induction calls generalizing before last res with
  | nil =>
      rw [acceptedCalls, List.append_nil]
      exact ⟨last, h⟩
  | cons call calls ih =>
      obtain ⟨next, hstep⟩ := h.step call
      obtain ⟨final, hrest⟩ := ih hstep
      refine ⟨final, ?_⟩
      rw [acceptedCalls]
      split
      · rename_i hzero
        rwa [if_pos hzero, List.append_assoc, List.singleton_append] at hrest
      · rename_i hrefused
        rwa [if_neg hrefused] at hrest

/-! ### The account -/

/-- The entries take the words that are charged for them. -/
theorem listingBytes_length_eq (calls : List FillerCall) (last : Word) :
    (listingBytes calls last).length = 4 * (calls.map entryWords).sum := by
  induction calls using List.reverseRecOn generalizing last with
  | nil => rfl
  | append_singleton calls call ih =>
      have hentry : (rawOf call last).bytes.length = 4 * entryWords call := by
        rw [RawDirent.bytes_length, entryWords]
        change 28 + 4 * quadWords (call.1.name.take vsnfsMaxnamlen).length = _
        omega
      calc (listingBytes (calls ++ [call]) last).length
          = (listingBytes calls (call.1.offset.setWidth 32)).length + (rawOf call last).bytes.length := by
            rw [listingBytes_append, List.length_append]
        _ = 4 * (calls.map entryWords).sum + 4 * entryWords call := by rw [ih, hentry]
        _ = 4 * ((calls ++ [call]).map entryWords).sum := by
            rw [List.map_append, List.sum_append, List.map_singleton, List.sum_singleton, Nat.mul_add]

/-- The words in front of the pointer and the words left are the budget, and no byte outside the page was
written. -/
structure Accounted (count : Nat) (res : ReaddirRes) : Prop where
  words : ∃ words : Nat, res.buffer = 4 * words ∧ (words : Int) + res.buflen = readdirBudget count
  room : 0 ≤ res.buflen
  size : res.page.size = pageSize
  inside : res.page.WritesInside

/-- The page part of the reply: the words in front of the pointer and two more, which are all that was ever
written. -/
structure ClosesPage (count : Word) (res : ReaddirRes) (out : SvcRes × ReaddirRes × Bool) : Prop where
  pageLen : out.1.pageLen = 4 * (res.buffer / 4 + 2)
  written : ∀ index, index ∈ out.2.1.page.writes ↔ index < out.1.pageLen
  inside : out.2.1.page.WritesInside
  page : out.1.pageLen ≤ pageSize
  count : 8 ≤ count.toNat → out.1.pageLen ≤ count.toNat

/-- The invariant of a run of calls. -/
structure PageKept (count : Nat) (res : ReaddirRes) : Prop where
  holds : ∃ calls last, PageHolds count calls last res
  written : Cursor.Written ⟨res.page, res.buffer⟩
  size : res.page.size = pageSize

theorem start_pageKept (count : Nat) (page : List Byte) : PageKept count (readdirStart count page) where
  holds := ⟨[], 0, start_pageHolds count page 0⟩
  written := by
    intro index
    exact iff_of_false (List.not_mem_nil) (Nat.not_lt_zero index)
  size := rfl

@[simp] theorem patch_size (res : ReaddirRes) (offset : BitVec 64) :
    (res.patch offset).page.size = res.page.size := by
  unfold ReaddirRes.patch
  split <;> rfl

/-- The open offset word is in front of the pointer. -/
theorem PageHolds.patch_written {count : Nat} {calls : List FillerCall} {last : Word} {res : ReaddirRes}
    (h : PageHolds count calls last res) (hwritten : Cursor.Written ⟨res.page, res.buffer⟩)
    (offset : BitVec 64) :
    Cursor.Written ⟨(res.patch offset).page, (res.patch offset).buffer⟩ := by
  have hplace := h.offset
  by_cases hne : calls = []
  · rw [if_pos hne] at hplace
    rwa [show res.patch offset = res by rw [ReaddirRes.patch, hplace]]
  · rw [if_neg hne] at hplace
    obtain ⟨front, hfront⟩ := listingBytes_last calls hne
    have hlength : res.buffer = front.length + 4 := by
      rw [h.buffer, hfront, List.length_append, beBytes_length]
    rw [ReaddirRes.patch, hplace]
    refine Cursor.Written.put hwritten ?_
    change res.buffer - 4 + 4 ≤ res.buffer
    omega

theorem writeEntry_written {p : Cursor} (h : p.Written) (call : FillerCall) : (writeEntry p call).Written :=
  (((((h.emit _).emit _).emit _).emit _).emit _).emit _

theorem writeEntry_size (p : Cursor) (call : FillerCall) :
    (writeEntry p call).buffer.size = p.buffer.size := by
  simp only [writeEntry, Cursor.emit_size]

theorem step_pageKept {count : Nat} (res : ReaddirRes) (call : FillerCall) (h : PageKept count res) :
    PageKept count (fillerStep res call) := by
  obtain ⟨⟨calls, last, hholds⟩, hwritten, hsize⟩ := h
  have hpatched := hholds.patch_written hwritten call.1.offset
  have hnext : ∃ calls last, PageHolds count calls last (fillerStep res call) :=
    ⟨_, hholds.step call⟩
  rw [fillerStep] at hnext ⊢
  by_cases hzero : (encodeCall res call).2 = 0
  · obtain ⟨page, hpage, -, -, hout⟩ := accepted_exit hzero
    rw [hout] at hnext ⊢
    refine ⟨hnext, ?_, ?_⟩
    · change page.Written
      rw [hpage]
      exact writeEntry_written hpatched call
    · change page.buffer.size = pageSize
      rw [hpage, writeEntry_size, patch_size, hsize]
  · obtain ⟨left, hleft, hout⟩ := refused_exit ((refused_iff_ret res call).mpr hzero)
    rw [hout] at hnext ⊢
    rcases hleft with rfl | rfl
    · exact ⟨hnext, hwritten, hsize⟩
    · exact ⟨hnext, hpatched, (patch_size res call.1.offset).trans hsize⟩

/-- What was written in front of a pointer that is inside the page is inside it. -/
theorem writesInside_of_written {page : Buffer} {pos : Nat} (h : Cursor.Written ⟨page, pos⟩)
    (hpos : pos ≤ page.size) : page.WritesInside := by
  intro index hindex
  have hlt : index < pos := (h index).mp hindex
  omega

theorem PageKept.accounted {count : Nat} {res : ReaddirRes} (h : PageKept count res)
    (hcount : count ≤ pageSize) : Accounted count res := by
  obtain ⟨⟨calls, last, hholds⟩, hwritten, hsize⟩ := h
  have hbuffer := hholds.buffer
  have hbudget := hholds.budget
  have hfit := hholds.buffer_le hcount
  rw [listingBytes_length_eq] at hbuffer
  refine ⟨⟨(calls.map entryWords).sum, hbuffer, ?_⟩, hholds.room, hsize, ?_⟩
  · omega
  · exact writesInside_of_written hwritten (by omega)

theorem PageKept.closes {count : Word} {res : ReaddirRes} (h : PageKept (clampToPage count) res)
    (svc : SvcRes) (words : Int) (err : Word) :
    ClosesPage count res (vsnfssvcEncodeReaddirres svc { res with count := words, err := err }) := by
  obtain ⟨written, hbuffer, hbudget⟩ := (h.accounted (clampToPage_le count)).words
  obtain ⟨⟨calls, last, hholds⟩, hwritten, hsize⟩ := h
  have hroom := hholds.room
  have hfit := hholds.buffer_le (clampToPage_le count)
  have hlen : pageLenOf (res.buffer + 4 + 4) = res.buffer + 4 + 4 := pageLenOf_of_le (by omega) (by omega)
  have hpageLen : (vsnfssvcEncodeReaddirres svc { res with count := words, err := err }).1.pageLen =
      res.buffer + 4 + 4 := hlen
  have hclosed := (Cursor.Written.emit hwritten (leBytes 0)).emit
    (leBytes (htonl (if err = vsnfserr .ok then 1 else 0)))
  refine ⟨?_, ?_, ?_, ?_, ?_⟩
  · rw [hpageLen]
    omega
  · intro index
    rw [hpageLen]
    exact hclosed index
  · refine writesInside_of_written hclosed ?_
    change res.buffer + 4 + 4 ≤ res.page.size
    omega
  · rw [hpageLen]
    omega
  · intro height
    have hclamp := clampToPage_le_toNat count
    have hlimit : 8 ≤ clampToPage count := by
      unfold clampToPage
      simp only [pageSize]
      split <;> omega
    rw [hpageLen]
    unfold readdirBudget at hbudget
    split at hbudget <;> omega

/-- **The account of the page.** For every count of a request and every sequence of calls of the filler,
accepted or refused, the words in front of the pointer and the words left are the budget after each call;
the end marker closes the page inside it, and the length of the page part is exact. -/
theorem readdir_page_accounting (count : Word) (page : List Byte) (calls : List FillerCall) :
    Along fillerStep (fun res call => Accounted (clampToPage count) (fillerStep res call))
        (readdirStart (clampToPage count) page) calls ∧
      ∀ svc words err,
        ClosesPage count (runFrom fillerStep (readdirStart (clampToPage count) page) calls)
          (vsnfssvcEncodeReaddirres svc
            { runFrom fillerStep (readdirStart (clampToPage count) page) calls with
              count := words, err := err }) := by
  have hstart := start_pageKept (clampToPage count) page
  refine ⟨along_of_invariant step_pageKept ?_ hstart calls, fun svc words err => ?_⟩
  · intro res call hkept
    exact (step_pageKept res call hkept).accounted (clampToPage_le count)
  · exact (run_invariant step_pageKept hstart calls).closes svc words err

/-! ### What a refusal leaves -/

/-- A refusal returns the error number and sets the error. The pointer and the words left stay, and so do all
bytes of the page but the offset word of the last accepted entry. -/
structure LeavesPage (accepted : List FillerCall) (res : ReaddirRes) (call : FillerCall) : Prop where
  ret : (encodeCall res call).2 = -einval
  err : (encodeCall res call).1.err = refusalErr res call
  errSet : (encodeCall res call).1.err ≠ vsnfserr .ok
  buffer : (encodeCall res call).1.buffer = res.buffer
  buflen : (encodeCall res call).1.buflen = res.buflen
  cells : ∃ last next rest, (listingBytes accepted last).length = res.buffer ∧
    res.page.cells = listingBytes accepted last ++ rest ∧
      (encodeCall res call).1.page.cells = listingBytes accepted next ++ rest

theorem PageHolds.leavesPage {count : Nat} {accepted : List FillerCall} {last : Word} {res : ReaddirRes}
    (h : PageHolds count accepted last res) {call : FillerCall} (hrefused : Refused res call) :
    LeavesPage accepted res call := by
  obtain ⟨rest, hcells⟩ := h.cells
  obtain ⟨left, hleft, hout⟩ := refused_exit hrefused
  have hbuffer : left.buffer = res.buffer := by
    rcases hleft with rfl | rfl
    · rfl
    · exact patch_buffer res call.1.offset
  have hbuflen : left.buflen = res.buflen := by
    rcases hleft with rfl | rfl
    · rfl
    · exact patch_buflen res call.1.offset
  have hnext : ∃ next, left.page.cells = listingBytes accepted next ++ rest := by
    rcases hleft with rfl | rfl
    · exact ⟨last, hcells⟩
    · exact ⟨_, h.patch_cells hcells call.1.offset⟩
  obtain ⟨next, hleftCells⟩ := hnext
  constructor
  · rw [hout]
  · rw [hout]
  · rw [hout]
    exact refusalErr_ne_ok res call
  · rw [hout]
    exact hbuffer
  · rw [hout]
    exact hbuflen
  · refine ⟨last, next, rest, h.buffer.symm, hcells, ?_⟩
    rw [hout]
    exact hleftCells

/-! ### Decoding the page -/

/-- How a run of the decoder ends: with the error number of an `ERR_PTR`, with an access outside the page,
or not within the given rounds. -/
inductive DecodeEnd where
  | failed (errno : Int) (entry : VsnfsEntry)
  | outside
  | outOfRounds

/-- `vsnfs_decode_dirent` again and again, each time at the pointer that it returned. -/
def decodeDirents : Nat → List Byte → VsnfsEntry → List VsnfsEntry × DecodeEnd
  | 0, _, _ => ([], .outOfRounds)
  | rounds + 1, p, entry =>
      match vsnfsDecodeDirent p entry with
      | none => ([], .outside)
      | some (.error errno, entry) => ([], .failed errno entry)
      | some (.ok p, entry) => (entry :: (decodeDirents rounds p entry).1, (decodeDirents rounds p entry).2)

theorem decodeDirents_entry (raw : RawDirent) {rest : List Byte} {eof : Int} (heof : endOfList rest = some eof)
    (rounds : Nat) (old : VsnfsEntry) :
    decodeDirents (rounds + 1) (raw.bytes ++ rest) old =
      (raw.entry rest eof :: (decodeDirents rounds rest (raw.entry rest eof)).1,
        (decodeDirents rounds rest (raw.entry rest eof)).2) := by
  rw [decodeDirents, raw.decode_bytes, heof]
  rfl

/-- **The decoder on a listing**: entry by entry, and then the result that stands for its end. -/
theorem decodeDirents_listing (raws : List RawDirent) (word : Word) (rest : List Byte) (rounds : Nat)
    (hrounds : raws.length < rounds) (old : VsnfsEntry) :
    ∃ entries final,
      decodeDirents rounds (raws.flatMap RawDirent.bytes ++ (leBytes 0 ++ (leBytes word ++ rest))) old =
        (entries, .failed (-ebadcookie) final) ∧ final.eof = 1 ∧
      entries.map VsnfsEntry.call = raws.map (fun raw => some raw.call) := by
  induction raws generalizing rounds old with
  | nil =>
      obtain ⟨rounds, rfl⟩ : ∃ more, rounds = more + 1 := ⟨rounds - 1, by simp at hrounds; omega⟩
      refine ⟨[], { old with eof := 1 }, ?_, rfl, rfl⟩
      rw [List.flatMap_nil, List.nil_append, decodeDirents, decode_zero]
  | cons raw raws ih =>
      obtain ⟨rounds, rfl⟩ : ∃ more, rounds = more + 1 := ⟨rounds - 1, by simp at hrounds; omega⟩
      obtain ⟨eof, heof, -⟩ := endOfList_listing raws word rest
      obtain ⟨entries, final, hdecode, hfinal, hcalls⟩ := ih rounds (by simpa using hrounds)
        (raw.entry (raws.flatMap RawDirent.bytes ++ (leBytes 0 ++ (leBytes word ++ rest))) eof)
      have hfirst := decodeDirents_entry raw heof rounds old
      rw [hdecode, ← List.append_assoc, ← List.flatMap_cons] at hfirst
      refine ⟨_, final, hfirst, hfinal, ?_⟩
      rw [List.map_cons, List.map_cons, raw.entry_call, hcalls]

/-! ### Listings that stop at the first refusal -/

/-- The calls in front of the first refusal. -/
def untilRefused : ReaddirRes → List FillerCall → List FillerCall
  | _, [] => []
  | res, call :: calls =>
      if (encodeCall res call).2 = 0 then call :: untilRefused (fillerStep res call) calls else []

theorem accepts_untilRefused (res : ReaddirRes) (calls : List FillerCall) :
    Accepts res (untilRefused res calls) := by
  induction calls generalizing res with
  | nil => trivial
  | cons call calls ih =>
      rw [untilRefused]
      split
      · rename_i hzero
        exact ⟨hzero, ih (fillerStep res call)⟩
      · trivial

/-- Where the filler stops is found from the budget and the entries alone. -/
theorem untilRefused_eq_take (res : ReaddirRes) (last : Word) (calls : List FillerCall) :
    untilRefused res calls = calls.take (fill res.buflen last (calls.map Prod.fst)).count := by
  induction calls generalizing res last with
  | nil => rfl
  | cons call calls ih =>
      have hroomEq := entryRoom_eq res call
      have hrejected : (-einval : Int) ≠ 0 := by decide
      rw [untilRefused, List.map_cons, fill]
      cases encode_exit res call with
      | offsetTooBig hoffset hout => rw [hout, if_neg hrejected, if_pos hoffset, List.take_zero]
      | noRoom hoffset hroom hout =>
          rw [hout, if_neg hrejected, if_neg (by omega), if_pos (by omega), List.take_zero]
      | inoTooBig hoffset hroom hino hout =>
          rw [hout, if_neg hrejected, if_neg (by omega), if_neg (by omega), if_pos hino, List.take_zero]
      | accepted hoffset hroom hino page hpage hout =>
          have hleft : (fillerStep res call).buflen = res.buflen - direntWords call.1 := by
            rw [fillerStep, hout, ← hroomEq]
          rw [if_pos (by rw [hout]), ih _ (BitVec.allOnes 32), hleft, if_neg (by omega), if_neg (by omega),
            if_neg (by omega), List.take_succ_cons]

theorem eofWord_eq_one_iff (err : Word) : eofWord err = htonl 1 ↔ err = vsnfserr .ok := by
  rw [eofWord]
  split
  · rename_i hok
    exact iff_of_true rfl hok
  · rename_i hok
    exact iff_of_false (by decide) hok

/-- The page of a listing: the entries in front of the first refusal, the end marker, and the word behind
it. -/
theorem vfsReaddir_reply (count : Nat) (hcount : count ≤ pageSize) (page : List Byte)
    (calls : List FillerCall) (svc : SvcRes) :
    ∃ last word,
      replyPage (vsnfssvcEncodeReaddirres svc (vfsReaddir (readdirStart count page) calls)) =
        listingBytes (untilRefused (readdirStart count page) calls) last ++ (leBytes 0 ++ leBytes word) ∧
      (word = htonl 1 ↔ untilRefused (readdirStart count page) calls = calls) := by
  have htake := untilRefused_eq_take (readdirStart count page) (BitVec.allOnes 32) calls
  have hstop := fill_err_iff (readdirStart count page).buflen (BitVec.allOnes 32) (calls.map Prod.fst)
  obtain ⟨hholds, herr⟩ := (start_pageHolds count page (BitVec.allOnes 32)).filled rfl calls rfl
  rw [List.nil_append, ← htake] at hholds
  refine ⟨_, _, hholds.reply hcount svc, ?_⟩
  rw [← eofWord, eofWord_eq_one_iff, herr, hstop, List.length_map, htake, List.take_eq_self_iff]

/-- The decoder on a page yields the entries of these calls, with their numbers, types and cut names, and
then the end of the list. -/
def DecodesAs (calls : List FillerCall) (run : List VsnfsEntry × DecodeEnd) : Prop :=
  ∃ entries final last, run = (entries, .failed (-ebadcookie) final) ∧ final.eof = 1 ∧
    entries.map VsnfsEntry.call = (expectedCalls calls last).map some

/-- **A refused entry leaves the page intact.** After any calls of the filler, a refusal for any of its
reasons leaves the page as it was but for the open offset word. A listing that stops at its first refusal is
decoded as the entries in front of it, and the word behind the end marker is 1 exactly when there was no
refusal. -/
theorem refused_entry_leaves_page (count : Word) (page : List Byte) (calls : List FillerCall) :
    (∀ call, Refused (runFrom fillerStep (readdirStart (clampToPage count) page) calls) call →
      LeavesPage (acceptedCalls (readdirStart (clampToPage count) page) calls)
        (runFrom fillerStep (readdirStart (clampToPage count) page) calls) call) ∧
    (∀ svc old stale rounds,
      (untilRefused (readdirStart (clampToPage count) page) calls).length < rounds →
        DecodesAs (untilRefused (readdirStart (clampToPage count) page) calls)
          (decodeDirents rounds (replyPage (vsnfssvcEncodeReaddirres svc
            (vfsReaddir (readdirStart (clampToPage count) page) calls)) ++ stale) old)) ∧
    ∀ svc, ∃ front word,
      replyPage (vsnfssvcEncodeReaddirres svc (vfsReaddir (readdirStart (clampToPage count) page) calls)) =
        front ++ (leBytes 0 ++ leBytes word) ∧
      (word = htonl 1 ↔ untilRefused (readdirStart (clampToPage count) page) calls = calls) := by
  refine ⟨fun call hrefused => ?_, fun svc old stale rounds hrounds => ?_, fun svc => ?_⟩
  · obtain ⟨last, hholds⟩ := (start_pageHolds (clampToPage count) page 0).run calls
    exact hholds.leavesPage hrefused
  · obtain ⟨last, word, hreply, -⟩ := vfsReaddir_reply _ (clampToPage_le count) page calls svc
    have haccepts := accepts_untilRefused (readdirStart (clampToPage count) page) calls
    obtain ⟨entries, final, hdecode, hfinal, hcalls⟩ := decodeDirents_listing
      (rawList (untilRefused (readdirStart (clampToPage count) page) calls) last) word stale rounds
      (by rwa [rawList_length]) old
    refine ⟨entries, final, last, ?_, hfinal, ?_⟩
    · rw [hreply, ← hdecode, listingBytes]
      simp only [List.append_assoc]
    · rw [hcalls, ← rawList_calls _ last haccepts.ino_le, List.map_map]
      rfl
  · obtain ⟨last, word, hreply, hword⟩ := vfsReaddir_reply _ (clampToPage_le count) page calls svc
    exact ⟨_, word, hreply, hword⟩

/-- Two entries and a count of 40 bytes: the first takes all of the budget, the second is refused. -/
theorem second_entry_leaves_page :
    untilRefused (readdirStart (clampToPage 40) []) twoEntries = twoEntries.take 1 ∧
      LeavesPage (twoEntries.take 1) (runFrom fillerStep (readdirStart (clampToPage 40) []) (twoEntries.take 1))
        (⟨[0x62, 0x63, 0x64, 0x65, 0x66], 7, 13, 4⟩, zeroFh) ∧
      DecodesAs (twoEntries.take 1) (decodeDirents 2 (replyPage (vsnfssvcEncodeReaddirres ⟨0, [], 0⟩
        (vfsReaddir (readdirStart (clampToPage 40) []) twoEntries)) ++ []) (startOn []).entry) := by
  have hfirst : untilRefused (readdirStart (clampToPage 40) []) twoEntries = twoEntries.take 1 := by
    rw [untilRefused_eq_take _ 0]
    rfl
  refine ⟨hfirst, ?_, ?_⟩
  · exact (refused_entry_leaves_page 40 [] (twoEntries.take 1)).1 _ (Or.inr (Or.inl (by decide)))
  · have hdecodes := (refused_entry_leaves_page 40 [] twoEntries).2.1 ⟨0, [], 0⟩ (startOn []).entry [] 2
    rw [hfirst] at hdecodes
    exact hdecodes (by decide)

end Vsnfs
