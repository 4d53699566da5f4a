import Vsnfs.ReaddirWire
import Vsnfs.ServerProc

/-! The page the server fills. Each accepted call adds one entry and leaves its offset word open; the
next call fills it in before it looks whether it fits itself. The invariant says what the page holds
after any number of accepted calls, and how much of the budget is left. -/

namespace Vsnfs

open Base

/-- The entry the server writes for a call, with its final offset word. -/
def rawOf (call : FillerCall) (offset : Word) : RawDirent where
  mark := htonl 1
  ino := call.1.ino.setWidth 32
  name := call.1.name.take vsnfsMaxnamlen
  pad := List.replicate (padLength (call.1.name.take vsnfsMaxnamlen).length) 0
  fh := entryFh call.2 call.1.ino call.1.dType
  offset := offset
  hmark := htonl_one_ne_zero
  hname := by
    have hle := List.length_take_le vsnfsMaxnamlen call.1.name
    simp only [vsnfsMaxnamlen] at hle ⊢
    omega
  hpad := List.length_replicate

/-- The entries of a list of calls: each has the offset of the next one, and the last one `last`. -/
def rawList : List FillerCall → Word → List RawDirent
  | [], _ => []
  | [call], last => [rawOf call last]
  | call :: next :: calls, last => rawOf call (next.1.offset.setWidth 32) :: rawList (next :: calls) last

def listingBytes (calls : List FillerCall) (last : Word) : List Byte :=
  (rawList calls last).flatMap RawDirent.bytes

theorem rawList_length (calls : List FillerCall) (last : Word) :
    (rawList calls last).length = calls.length := by
  induction calls with
  | nil => rfl
  | cons call calls ih =>
      cases calls with
      | nil => rfl
      | cons next calls =>
          rw [rawList, List.length_cons, ih]
          rfl

/-- One more call closes the offset word of the call before. -/
theorem rawList_append (calls : List FillerCall) (call : FillerCall) (last : Word) :
    rawList (calls ++ [call]) last = rawList calls (call.1.offset.setWidth 32) ++ [rawOf call last] := by
  induction calls with
  | nil => rfl
  | cons first calls ih =>
      cases calls with
      | nil => rfl
      | cons next calls =>
          rw [List.cons_append] at ih
          rw [List.cons_append, List.cons_append, rawList, ih, rawList, List.cons_append]

theorem listingBytes_append (calls : List FillerCall) (call : FillerCall) (last : Word) :
    listingBytes (calls ++ [call]) last =
      listingBytes calls (call.1.offset.setWidth 32) ++ (rawOf call last).bytes := by
  rw [listingBytes, rawList_append, List.flatMap_append]
  simp only [List.flatMap_cons, List.flatMap_nil, List.append_nil]
  rfl

/-- The open offset word is the last of the page. -/
theorem listingBytes_last (calls : List FillerCall) (hne : calls ≠ []) :
    ∃ front, ∀ last, listingBytes calls last = front ++ beBytes last := by
  obtain ⟨before, call, rfl⟩ : ∃ before call, calls = before ++ [call] :=
    ⟨calls.dropLast, calls.getLast hne, (List.dropLast_append_getLast hne).symm⟩
  have hraw : ∃ front, ∀ last, (rawOf call last).bytes = front ++ beBytes last := by
    refine ⟨leBytes (rawOf call 0).mark ++ (beBytes (rawOf call 0).ino ++
      (beBytes (BitVec.ofNat 32 (rawOf call 0).name.length) ++
        ((rawOf call 0).name ++ (rawOf call 0).pad ++ xdrEncodeFhandle (rawOf call 0).fh))), ?_⟩
    intro last
    simp only [RawDirent.bytes, List.append_assoc]
    rfl
  obtain ⟨front, hfront⟩ := hraw
  refine ⟨listingBytes before (call.1.offset.setWidth 32) ++ front, ?_⟩
  intro last
  rw [listingBytes_append, hfront, List.append_assoc]

theorem listingBytes_length (calls : List FillerCall) (left right : Word) :
    (listingBytes calls left).length = (listingBytes calls right).length := by
  by_cases hne : calls = []
  · rw [hne]
    rfl
  · obtain ⟨front, hfront⟩ := listingBytes_last calls hne
    rw [hfront, hfront, List.length_append, List.length_append, beBytes_length, beBytes_length]

/-! ### The invariant -/

/-- The page holds the entries of the calls from its start, the pointer stands behind them, the open
offset word is the one in front of it, and what the entries take was taken from the budget. -/
structure PageHolds (count : Nat) (calls : List FillerCall) (last : Word) (res : ReaddirRes) : Prop where
  cells : ∃ rest, res.page.cells = listingBytes calls last ++ rest
  buffer : res.buffer = (listingBytes calls last).length
  offset : res.offset = if calls = [] then none else some (res.buffer - 4)
  budget : (res.buffer : Int) + 4 * res.buflen = 4 * readdirBudget count
  room : 0 ≤ res.buflen

theorem readdirBudget_nonneg (count : Nat) : 0 ≤ readdirBudget count := by
  unfold readdirBudget
  split <;> omega

theorem start_pageHolds (count : Nat) (page : List Byte) (last : Word) :
    PageHolds count [] last (readdirStart count page) where
  cells := ⟨page, rfl⟩
  buffer := rfl
  offset := rfl
  budget := by
    simp only [readdirStart]
    omega
  room := readdirBudget_nonneg count

/-- Filling in the open offset word changes that word only. -/
theorem PageHolds.patch_cells {count : Nat} {calls : List FillerCall} {last : Word} {res : ReaddirRes}
    (h : PageHolds count calls last res) {rest : List Byte}
    (hcells : res.page.cells = listingBytes calls last ++ rest) (offset : BitVec 64) :
    (res.patch offset).page.cells = listingBytes calls (offset.setWidth 32) ++ rest := by
  have hplace := h.offset
  by_cases hne : calls = []
  · rw [if_pos hne] at hplace
    subst hne
    rw [ReaddirRes.patch, hplace]
    exact hcells
  · rw [if_neg hne] at hplace
    obtain ⟨front, hfront⟩ := listingBytes_last calls hne
    have hfrontLength : res.buffer - 4 = front.length := by
      rw [h.buffer, hfront, List.length_append, beBytes_length, Nat.add_sub_cancel]
    rw [ReaddirRes.patch, hplace]
    change overwrite res.page.cells (res.buffer - 4) (leBytes (htonl (offset.setWidth 32))) = _
    rw [hcells, hfront, hfront, List.append_assoc, overwrite_append_of_eq hfrontLength, leBytes_htonl,
      beBytes_length, show List.drop 4 (beBytes last ++ rest) = rest from rfl]

@[simp] theorem patch_buffer (res : ReaddirRes) (offset : BitVec 64) :
    (res.patch offset).buffer = res.buffer := by
  unfold ReaddirRes.patch
  split <;> rfl

@[simp] theorem patch_buflen (res : ReaddirRes) (offset : BitVec 64) :
    (res.patch offset).buflen = res.buflen := by
  unfold ReaddirRes.patch
  split <;> rfl

@[simp] theorem patch_err (res : ReaddirRes) (offset : BitVec 64) : (res.patch offset).err = res.err := by
  unfold ReaddirRes.patch
  split <;> rfl

@[simp] theorem patch_offset (res : ReaddirRes) (offset : BitVec 64) :
    (res.patch offset).offset = res.offset := by
  unfold ReaddirRes.patch
  split <;> rfl

/-- Filling in the open offset word. -/
theorem PageHolds.patch {count : Nat} {calls : List FillerCall} {last : Word} {res : ReaddirRes}
    (h : PageHolds count calls last res) (offset : BitVec 64) :
    PageHolds count calls (offset.setWidth 32) (res.patch offset) := by
  obtain ⟨rest, hcells⟩ := h.cells
  refine ⟨⟨rest, h.patch_cells hcells offset⟩, ?_, ?_, ?_, ?_⟩
  · rw [patch_buffer, h.buffer]
    exact listingBytes_length calls last (offset.setWidth 32)
  · rw [patch_offset, patch_buffer]
    exact h.offset
  · rw [patch_buffer, patch_buflen]
    exact h.budget
  · rw [patch_buflen]
    exact h.room

/-! ### One call -/

theorem take_cut (name : List Byte) :
    name.take (if vsnfsMaxnamlen < name.length then vsnfsMaxnamlen else name.length) =
      name.take vsnfsMaxnamlen := by
  split
  · rfl
  · rename_i hle
    rw [List.take_length, List.take_of_length_le (by omega)]

theorem length_take_cut (name : List Byte) :
    (name.take vsnfsMaxnamlen).length =
      if vsnfsMaxnamlen < name.length then vsnfsMaxnamlen else name.length := by
  rw [List.length_take]
  split <;> omega

/-- The stores of one entry. -/
def writeEntry (p : Cursor) (call : FillerCall) : Cursor :=
  let fh := entryFh call.2 call.1.ino call.1.dType
  (((((p.emit (leBytes (htonl 1))).emit (leBytes (htonl (call.1.ino.setWidth 32)))).emit
    (xdrEncodeArray (call.1.name.take vsnfsMaxnamlen))).emit (encodeFh fh)).emit
      (leBytes (htonl fh.type))).emit (leBytes (htonl (BitVec.allOnes 32)))

theorem writeEntry_at {p : Cursor} {front rest : List Byte} (h : p.At front rest) (call : FillerCall) :
    ∃ rest, (writeEntry p call).At (front ++ (rawOf call (BitVec.allOnes 32)).bytes) rest := by
  have hat := (((((h.emit (leBytes (htonl 1))).emit (leBytes (htonl (call.1.ino.setWidth 32)))).emit
    (xdrEncodeArray (call.1.name.take vsnfsMaxnamlen))).emit
      (encodeFh (entryFh call.2 call.1.ino call.1.dType))).emit
        (leBytes (htonl (entryFh call.2 call.1.ino call.1.dType).type))).emit
          (leBytes (htonl (BitVec.allOnes 32)))
  have hbytes : (rawOf call (BitVec.allOnes 32)).bytes =
      leBytes (htonl 1) ++ (leBytes (htonl (call.1.ino.setWidth 32)) ++
        (xdrEncodeArray (call.1.name.take vsnfsMaxnamlen) ++
          (encodeFh (entryFh call.2 call.1.ino call.1.dType) ++
            (leBytes (htonl (entryFh call.2 call.1.ino call.1.dType).type) ++
              leBytes (htonl (BitVec.allOnes 32)))))) := by
    simp only [RawDirent.bytes, rawOf, xdrEncodeArray, xdrEncodeFhandle, encodeFh, leBytes_htonl,
      List.append_assoc]
  simp only [List.append_assoc] at hat
  rw [← hbytes] at hat
  exact ⟨_, hat⟩

/-- The words left after an entry for this name. -/
def entryRoom (res : ReaddirRes) (call : FillerCall) : Int :=
  res.buflen - quadWords (call.1.name.take vsnfsMaxnamlen).length - 7

/-- The exits of the filler. Every rejection but the first comes after the offset word of the entry
before was filled in. -/
inductive EncodeExit (res : ReaddirRes) (call : FillerCall) (out : ReaddirRes × Int) : Prop where
  | offsetTooBig (hoffset : 2 ^ 32 - 1 < call.1.offset.toInt)
      (hout : out = ({ res with err := vsnfserr .fbig }, -einval))
  | noRoom (hoffset : call.1.offset.toInt ≤ 2 ^ 32 - 1) (hroom : entryRoom res call < 0)
      (hout : out = ({ res.patch call.1.offset with err := vsnfserr .toosmall }, -einval))
  | inoTooBig (hoffset : call.1.offset.toInt ≤ 2 ^ 32 - 1) (hroom : 0 ≤ entryRoom res call)
      (hino : 2 ^ 32 - 1 < call.1.ino.toNat)
      (hout : out = ({ res.patch call.1.offset with err := vsnfserr .fbig }, -einval))
  | accepted (hoffset : call.1.offset.toInt ≤ 2 ^ 32 - 1) (hroom : 0 ≤ entryRoom res call)
      (hino : call.1.ino.toNat ≤ 2 ^ 32 - 1) (page : Cursor)
      (hpage : page = writeEntry ⟨(res.patch call.1.offset).page, (res.patch call.1.offset).buffer⟩ call)
      (hout : out = ({ res.patch call.1.offset with
        page := page.buffer, buffer := page.pos, buflen := entryRoom res call,
        offset := some (page.pos - 4) }, 0))

theorem encode_exit (res : ReaddirRes) (call : FillerCall) :
    EncodeExit res call (encodeCall res call) := by
  have hroomEq : (res.patch call.1.offset).buflen -
      (quadWords (if vsnfsMaxnamlen < call.1.name.length then vsnfsMaxnamlen else call.1.name.length) : Nat) -
        (5 + (quadWords vsnfsFhsize : Nat)) = entryRoom res call := by
    rw [entryRoom, length_take_cut, patch_buflen]
    rfl
  unfold encodeCall vsnfssvcEncodeEntry
  by_cases hoffset : 2 ^ 32 - 1 < call.1.offset.toInt
  · rw [if_pos hoffset]
    exact .offsetTooBig hoffset rfl
  rw [if_neg hoffset]
  simp only [take_cut, hroomEq]
  by_cases hroom : entryRoom res call < 0
  · rw [if_pos hroom]
    exact .noRoom (by omega) hroom rfl
  rw [if_neg hroom]
  by_cases hino : 2 ^ 32 - 1 < call.1.ino.toNat
  · rw [if_pos hino]
    exact .inoTooBig (by omega) (by omega) hino rfl
  rw [if_neg hino]
  exact .accepted (by omega) (by omega) (by omega) _ rfl rfl

/-- What an accepted call did. -/
theorem accepted_exit {res : ReaddirRes} {call : FillerCall} (h : (encodeCall res call).2 = 0) :
    ∃ page, page = writeEntry ⟨(res.patch call.1.offset).page, (res.patch call.1.offset).buffer⟩ call ∧
      0 ≤ entryRoom res call ∧ call.1.ino.toNat ≤ 2 ^ 32 - 1 ∧
      (encodeCall res call).1 = { res.patch call.1.offset with
        page := page.buffer, buffer := page.pos, buflen := entryRoom res call,
        offset := some (page.pos - 4) } := by
  have hrejected : (-einval : Int) ≠ 0 := by decide
  cases encode_exit res call with
  | offsetTooBig _ hout =>
      rw [hout] at h
      exact absurd h hrejected
  | noRoom _ _ hout =>
      rw [hout] at h
      exact absurd h hrejected
  | inoTooBig _ _ _ hout =>
      rw [hout] at h
      exact absurd h hrejected
  | accepted _ hroom hino page hpage hout => exact ⟨page, hpage, hroom, hino, by rw [hout]⟩

/-- **An accepted call extends the page by its entry.** -/
theorem PageHolds.accept {count : Nat} {calls : List FillerCall} {last : Word} {res : ReaddirRes}
    (h : PageHolds count calls last res) {call : FillerCall} (haccepted : (encodeCall res call).2 = 0) :
    PageHolds count (calls ++ [call]) (BitVec.allOnes 32) (encodeCall res call).1 := by
  obtain ⟨page, hpage, hroom, -, hout⟩ := accepted_exit haccepted
  obtain ⟨⟨rest, hcells⟩, hbuffer, -, hbudget, -⟩ := h.patch call.1.offset
  obtain ⟨rest', hat⟩ := writeEntry_at
    (show Cursor.At ⟨(res.patch call.1.offset).page, (res.patch call.1.offset).buffer⟩ _ rest from
      ⟨hcells, hbuffer⟩) call
  rw [← hpage, ← listingBytes_append] at hat
  obtain ⟨hnew, hpos⟩ := hat
  rw [hout]
  refine ⟨⟨rest', hnew⟩, hpos, by rw [if_neg (by simp)], ?_, hroom⟩
  have hlength := (rawOf call (BitVec.allOnes 32)).bytes_length
  change (rawOf call (BitVec.allOnes 32)).bytes.length =
    28 + 4 * quadWords (call.1.name.take vsnfsMaxnamlen).length at hlength
  rw [listingBytes_append, List.length_append, ← hbuffer, hlength] at hpos
  rw [patch_buflen] at hbudget
  simp only [entryRoom, hpos]
  omega

theorem encodeCall_accepted_err {res : ReaddirRes} {call : FillerCall} (h : (encodeCall res call).2 = 0) :
    (encodeCall res call).1.err = res.err ∧ call.1.ino.toNat ≤ 2 ^ 32 - 1 := by
  obtain ⟨page, -, -, hino, hout⟩ := accepted_exit h
  rw [hout]
  exact ⟨patch_err res call.1.offset, hino⟩

/-! ### All calls of a listing -/

/-- Every call returns 0. -/
def Accepts : ReaddirRes → List FillerCall → Prop
  | _, [] => True
  | res, call :: calls => (encodeCall res call).2 = 0 ∧ Accepts (encodeCall res call).1 calls

theorem Accepts.pageHolds {count : Nat} {before calls : List FillerCall} {res : ReaddirRes}
    (haccepts : Accepts res calls) (h : PageHolds count before (BitVec.allOnes 32) res) :
    PageHolds count (before ++ calls) (BitVec.allOnes 32) (vfsReaddir res calls) := by
  induction calls generalizing before res with
  | nil =>
      rw [List.append_nil]
      exact h
  | cons call calls ih =>
      have hnext := ih haccepts.2 (h.accept haccepts.1)
      rw [List.append_assoc, List.singleton_append] at hnext
      rwa [vfsReaddir, if_pos haccepts.1]

theorem Accepts.err {res : ReaddirRes} {calls : List FillerCall} (haccepts : Accepts res calls) :
    (vfsReaddir res calls).err = res.err := by
  induction calls generalizing res with
  | nil => rfl
  | cons call calls ih =>
      rw [vfsReaddir, if_pos haccepts.1, ih haccepts.2, (encodeCall_accepted_err haccepts.1).1]

theorem Accepts.ino_le {res : ReaddirRes} {calls : List FillerCall} (haccepts : Accepts res calls) :
    ∀ call ∈ calls, call.1.ino.toNat ≤ 2 ^ 32 - 1 := by
  induction calls generalizing res with
  | nil =>
      intro call hcall
      cases hcall
  | cons first calls ih =>
      intro call hcall
      rcases List.mem_cons.mp hcall with rfl | hcall
      · exact (encodeCall_accepted_err haccepts.1).2
      · exact ih haccepts.2 call hcall

/-- After accepted calls the file system goes on with the next one. -/
theorem Accepts.vfsReaddir_append {res : ReaddirRes} {calls : List FillerCall} (haccepts : Accepts res calls)
    (more : List FillerCall) : vfsReaddir res (calls ++ more) = vfsReaddir (vfsReaddir res calls) more := by
  induction calls generalizing res with
  | nil => rfl
  | cons call calls ih =>
      rw [List.cons_append, vfsReaddir, if_pos haccepts.1, vfsReaddir, if_pos haccepts.1, ih haccepts.2]

/-- A call rejected for lack of room leaves the entries, with the last offset word filled in. -/
theorem PageHolds.noRoom {count : Nat} {calls : List FillerCall} {last : Word} {res : ReaddirRes}
    (h : PageHolds count calls last res) {call : FillerCall} (hoffset : call.1.offset.toInt ≤ 2 ^ 32 - 1)
    (hroom : entryRoom res call < 0) :
    (encodeCall res call).2 ≠ 0 ∧ (encodeCall res call).1.err = vsnfserr .toosmall ∧
      PageHolds count calls (call.1.offset.setWidth 32) (encodeCall res call).1 := by
  cases encode_exit res call with
  | offsetTooBig hbig => omega
  | inoTooBig _ hfits => omega
  | accepted _ hfits => omega
  | noRoom _ _ hout =>
      obtain ⟨hcells, hbuffer, hplace, hbudget, hleft⟩ := h.patch call.1.offset
      rw [hout]
      exact ⟨show (-einval : Int) ≠ 0 by decide, rfl, ⟨hcells, hbuffer, hplace, hbudget, hleft⟩⟩

/-- The words an entry for this call takes. -/
def entryWords (call : FillerCall) : Nat := quadWords (call.1.name.take vsnfsMaxnamlen).length + 7

/-- Calls with small offsets and numbers are accepted as long as their entries fit the budget. -/
theorem accepts_of_budget {res : ReaddirRes} {calls : List FillerCall}
    (hsmall : ∀ call ∈ calls, call.1.offset.toInt ≤ 2 ^ 32 - 1 ∧ call.1.ino.toNat ≤ 2 ^ 32 - 1)
    (hbudget : ((calls.map entryWords).sum : Int) ≤ res.buflen) :
    Accepts res calls ∧ (vfsReaddir res calls).buflen = res.buflen - ((calls.map entryWords).sum : Nat) := by
  induction calls generalizing res with
  | nil => exact ⟨trivial, (Int.sub_zero _).symm⟩
  | cons call calls ih =>
      obtain ⟨hoffset, hino⟩ := hsmall call List.mem_cons_self
      have hsum : ((call :: calls).map entryWords).sum = entryWords call + (calls.map entryWords).sum := by
        rw [List.map_cons, List.sum_cons]
      have hroom : entryRoom res call = res.buflen - entryWords call := by
        rw [entryRoom, entryWords]
        omega
      rw [hsum] at hbudget ⊢
      cases encode_exit res call with
      | offsetTooBig hbig => omega
      | noRoom _ hneg => omega
      | inoTooBig _ _ hbig => omega
      | accepted _ _ _ page _ hout =>
          have hzero : (encodeCall res call).2 = 0 := by rw [hout]
          have hleft : (encodeCall res call).1.buflen = res.buflen - entryWords call := by
            rw [hout, ← hroom]
          obtain ⟨haccepts, hlast⟩ := @ih (encodeCall res call).1
            (fun other hother => hsmall other (List.mem_cons_of_mem call hother)) (by omega)
          refine ⟨⟨hzero, haccepts⟩, ?_⟩
          rw [vfsReaddir, if_pos hzero, hlast, hleft]
          omega

/-! ### The end of the page -/

/-- The bytes of the page that are sent. -/
def replyPage (out : SvcRes × ReaddirRes × Bool) : List Byte := out.2.1.page.cells.take out.1.pageLen

theorem pageLenOf_of_le {size : Nat} (hpos : 0 < size) (hle : size ≤ pageSize) : pageLenOf size = size := by
  rw [pageLenOf, Nat.mod_eq_of_lt (by omega)]
  omega

theorem PageHolds.buffer_le {count : Nat} {calls : List FillerCall} {last : Word} {res : ReaddirRes}
    (h : PageHolds count calls last res) (hcount : count ≤ pageSize) : res.buffer + 8 ≤ pageSize := by
  have hbudget := h.budget
  have hroom := h.room
  have hlimit : readdirBudget count ≤ 1022 := by
    unfold readdirBudget
    simp only [pageSize] at hcount
    split <;> omega
  simp only [pageSize]
  omega

/-- With room for an entry the whole reply is no longer than the count. -/
theorem PageHolds.buffer_le_count {count : Nat} {calls : List FillerCall} {last : Word} {res : ReaddirRes}
    (h : PageHolds count calls last res) (hpos : 0 < res.buffer) : res.buffer + 8 ≤ count := by
  have hbudget := h.budget
  have hroom := h.room
  unfold readdirBudget at hbudget
  split at hbudget <;> omega

/-- The reply is the entries and the two words of the end marker. -/
theorem PageHolds.reply {count : Nat} {calls : List FillerCall} {last : Word} {res : ReaddirRes}
    (h : PageHolds count calls last res) (hcount : count ≤ pageSize) (svc : SvcRes) :
    replyPage (vsnfssvcEncodeReaddirres svc res) =
      listingBytes calls last ++
        (leBytes 0 ++ leBytes (htonl (if res.err = vsnfserr .ok then 1 else 0))) := by
  obtain ⟨rest, hcells⟩ := h.cells
  have hfit := h.buffer_le hcount
  have hat := ((show Cursor.At ⟨res.page, res.buffer⟩ _ rest from ⟨hcells, h.buffer⟩).emit
    (leBytes 0)).emit (leBytes (htonl (if res.err = vsnfserr .ok then 1 else 0)))
  have hsize : pageLenOf (res.buffer + 4 + 4) = res.buffer + 4 + 4 :=
    pageLenOf_of_le (by omega) (by omega)
  have hpos : (vsnfssvcEncodeReaddirres svc res).1.pageLen = res.buffer + 4 + 4 := hsize
  rw [replyPage, hpos, show res.buffer + 4 + 4 = (listingBytes calls last ++
    leBytes 0 ++ leBytes (htonl (if res.err = vsnfserr .ok then 1 else 0))).length from hat.2]
  change List.take _ (Cursor.emit _ _).buffer.cells = _
  rw [hat.1, List.take_left, List.append_assoc]

end Vsnfs
