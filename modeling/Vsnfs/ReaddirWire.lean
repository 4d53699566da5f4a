import Vsnfs.ClientDir

/-! The format of a directory listing on a page, as the decoder understands it: entries, each with a
non-zero mark, then a zero word, then a word that says whether the listing is complete. The decoder
reads an entry exactly where the format has one, and the loop runs through the entries of a page. -/

namespace Vsnfs

open Base

/-- One entry on a page. The mark and the padding are arbitrary; the server writes one and zeros. -/
structure RawDirent where
  mark : Word
  ino : Word
  name : List Byte
  pad : List Byte
  fh : VsnfsFh
  offset : Word
  hmark : mark ≠ 0
  hname : name.length + 3 < 2 ^ 32
  hpad : pad.length = padLength name.length

namespace RawDirent

def bytes (raw : RawDirent) : List Byte :=
  leBytes raw.mark ++ (beBytes raw.ino ++ (beBytes (BitVec.ofNat 32 raw.name.length) ++
    (raw.name ++ raw.pad ++ (xdrEncodeFhandle raw.fh ++ beBytes raw.offset))))

/-- The decoded entry; `rest` is the page behind it. -/
def entry (raw : RawDirent) (rest : List Byte) (eof : Int) : VsnfsEntry where
  ino := raw.ino.setWidth 64
  offset := raw.offset.setWidth 64
  name := raw.name ++ raw.pad ++ (xdrEncodeFhandle raw.fh ++ (beBytes raw.offset ++ rest))
  len := BitVec.ofNat 32 raw.name.length
  eof := eof
  fh := raw.fh

/-- What `filldir` is called with. -/
def call (raw : RawDirent) : FilldirCall where
  name := raw.name
  offset := raw.offset.setWidth 64
  ino := raw.ino.setWidth 64
  dType := raw.fh.type

theorem bytes_length (raw : RawDirent) : raw.bytes.length = 28 + 4 * quadWords raw.name.length := by
  have hpad := raw.hpad
  have hsum := add_padLength raw.name.length
  simp only [bytes, List.length_append, leBytes_length, beBytes_length, xdrEncodeFhandle_length,
    vsnfsFhsize]
  omega

theorem entry_call (raw : RawDirent) (rest : List Byte) (eof : Int) :
    (raw.entry rest eof).call = some raw.call := by
  have hname := raw.hname
  have hlen : (BitVec.ofNat 32 raw.name.length).toNat = raw.name.length := by
    rw [BitVec.toNat_ofNat]
    omega
  simp only [VsnfsEntry.call, entry, hlen, List.append_assoc, takeBytes_append, call]

theorem decode_bytes (raw : RawDirent) (rest : List Byte) (old : VsnfsEntry) :
    vsnfsDecodeDirent (raw.bytes ++ rest) old =
      (endOfList rest).map (fun eof => (.ok rest, raw.entry rest eof)) := by
  have hname := raw.hname
  have hquad : 4 * (xdrQuadlen (BitVec.ofNat 32 raw.name.length)).toNat = (raw.name ++ raw.pad).length := by
    rw [toNat_xdrQuadlen_of_lt hname, List.length_append, raw.hpad, add_padLength]
  have hskip : takeBytes (4 * (xdrQuadlen (BitVec.ofNat 32 raw.name.length)).toNat)
      (raw.name ++ raw.pad ++ (xdrEncodeFhandle raw.fh ++ (beBytes raw.offset ++ rest))) =
        some (raw.name ++ raw.pad, xdrEncodeFhandle raw.fh ++ (beBytes raw.offset ++ rest)) := by
    rw [hquad, takeBytes_append]
  simp only [vsnfsDecodeDirent, bytes, List.append_assoc, take32_leBytes, take32_beBytes,
    Option.bind_eq_bind, Option.bind_some, raw.hmark, if_false, htonl_htonl, Option.pure_def]
  simp only [← List.append_assoc raw.name, hskip, Option.bind_some, xdrDecodeFhandle_append,
    take32_beBytes, htonl_htonl]
  cases endOfList rest with
  | none => rfl
  | some eof => rfl

end RawDirent

/-- What the decoder can have seen: a zero word, or a mark and the fields of an entry, of which the name
field may be longer or shorter than the name. -/
theorem decode_cases {p : List Byte} {old : VsnfsEntry} {result : Except Int (List Byte) × VsnfsEntry}
    (h : vsnfsDecodeDirent p old = some result) :
    (∃ rest, p = leBytes 0 ++ rest ∧ result = (.error (-ebadcookie), { old with eof := 1 })) ∨
      ∃ (mark ino len : Word) (field : List Byte) (fh : VsnfsFh) (offset : Word) (rest : List Byte) (eof : Int),
        mark ≠ 0 ∧
        p = leBytes mark ++ (leBytes ino ++ (leBytes len ++
          (field ++ (xdrEncodeFhandle fh ++ (leBytes offset ++ rest))))) ∧
        field.length = 4 * (xdrQuadlen (ntohl len)).toNat ∧ endOfList rest = some eof ∧
        result = (.ok rest,
          { ino := (ntohl ino).setWidth 64, offset := (ntohl offset).setWidth 64,
            name := field ++ (xdrEncodeFhandle fh ++ (leBytes offset ++ rest)), len := ntohl len, eof := eof,
            fh := fh }) := by
  simp only [vsnfsDecodeDirent, Option.bind_eq_bind, Option.bind_eq_some_iff, Option.pure_def] at h
  obtain ⟨⟨mark, p1⟩, hmark, h⟩ := h
  have h1 := (take32_eq_some_iff _ _ _).mp hmark
  by_cases hzero : mark = 0
  · rw [if_pos hzero] at h
    rw [hzero] at h1
    exact Or.inl ⟨p1, h1, (Option.some.inj h).symm⟩
  rw [if_neg hzero] at h
  simp only [Option.bind_eq_some_iff] at h
  obtain ⟨⟨ino, p2⟩, hino, ⟨len, p3⟩, hlen, ⟨field, p4⟩, hfield, ⟨fh, p5⟩, hfh, ⟨offset, rest⟩, hoffset,
    eof, heof, h⟩ := h
  dsimp only at hlen hfield hfh hoffset heof h
  have h2 := (take32_eq_some_iff _ _ _).mp hino
  have h3 := (take32_eq_some_iff _ _ _).mp hlen
  obtain ⟨h4, hwords⟩ := takeBytes_eq_some hfield
  have h5 := (xdrDecodeFhandle_eq_some_iff _ _ _).mp hfh
  have h6 := (take32_eq_some_iff _ _ _).mp hoffset
  refine Or.inr ⟨mark, ino, len, field, fh, offset, rest, eof, hzero, ?_, hwords, heof, ?_⟩
  · rw [h1, h2, h3, h4, h5, h6]
  · rw [← Option.some.inj h, h4, h5, h6]

/-- A page where an entry was decoded, its name being all in the page, starts with an entry. -/
theorem RawDirent.of_decode {p rest : List Byte} {old decoded : VsnfsEntry} {call : FilldirCall}
    (hpage : p.length + 3 < 2 ^ 32) (hdecode : vsnfsDecodeDirent p old = some (.ok rest, decoded))
    (hcall : decoded.call = some call) :
    ∃ raw : RawDirent, p = raw.bytes ++ rest ∧ endOfList rest = some decoded.eof := by
  obtain ⟨-, -, hfailed⟩ | ⟨mark, ino, len, field, fh, offset, rest', eof, hmark, hp, hwords, heof, hresult⟩ :=
    decode_cases hdecode
  · cases congrArg Prod.fst hfailed
  obtain ⟨hrest, rfl⟩ := Prod.mk.inj hresult
  obtain rfl : rest = rest' := Except.ok.inj hrest
  -- the name is in the page, so its length is small and was rounded up without a wrap
  simp only [VsnfsEntry.call] at hcall
  split at hcall
  · cases hcall
  rename_i name tail hname
  obtain ⟨hsplit, hcount⟩ := takeBytes_eq_some hname
  have hshort : name.length + 3 < 2 ^ 32 := by
    have hle : name.length ≤ p.length := by
      rw [hp, hsplit]
      simp only [List.length_append]
      omega
    omega
  have hword : ntohl len = BitVec.ofNat 32 name.length := by
    rw [hcount, BitVec.ofNat_toNat, BitVec.setWidth_eq]
  rw [hword, toNat_xdrQuadlen_of_lt hshort] at hwords
  have hle : name.length ≤ 4 * quadWords name.length := by
    have := add_padLength name.length
    omega
  have hfieldName : field = name ++ field.drop name.length := by
    have htake : field.take name.length = name := by
      have := congrArg (List.take name.length) hsplit
      rwa [List.take_append_of_le_length (by omega), List.take_left] at this
    conv_lhs => rw [← List.take_append_drop name.length field, htake]
  refine ⟨⟨mark, ntohl ino, name, field.drop name.length, fh, ntohl offset, hmark, hshort, ?_⟩, ?_, heof⟩
  · rw [List.length_drop, hwords]
    rfl
  · rw [hp]
    simp only [RawDirent.bytes, ← hword, ← hfieldName, ← leBytes_htonl, htonl_htonl, List.append_assoc]

theorem decode_zero (rest : List Byte) (old : VsnfsEntry) :
    vsnfsDecodeDirent (leBytes 0 ++ rest) old =
      some (.error (-ebadcookie), { old with eof := 1 }) := by
  simp only [vsnfsDecodeDirent, take32_leBytes, Option.bind_eq_bind, Option.bind_some, if_true,
    Option.pure_def]

/-! ### Looking ahead -/

theorem endOfList_entry (raw : RawDirent) (rest : List Byte) : endOfList (raw.bytes ++ rest) = some 0 := by
  rw [endOfList, RawDirent.bytes, List.append_assoc, take32_leBytes]
  simp only [ne_eq, raw.hmark, not_false_eq_true, if_true]

theorem endOfList_mark (word : Word) (rest : List Byte) :
    endOfList (leBytes 0 ++ (leBytes word ++ rest)) = some (if word ≠ 0 then 1 else 0) := by
  rw [endOfList, take32_leBytes]
  simp only [ne_eq, not_true_eq_false, if_false, take32_leBytes]

/-- The words behind an entry of a listing tell whether it was the last one and the listing is complete. -/
theorem endOfList_listing (raws : List RawDirent) (word : Word) (rest : List Byte) :
    ∃ eof, endOfList (raws.flatMap RawDirent.bytes ++ (leBytes 0 ++ (leBytes word ++ rest))) = some eof ∧
      (eof = 1 ↔ raws = [] ∧ word ≠ 0) := by
  cases raws with
  | nil =>
      refine ⟨if word ≠ 0 then 1 else 0, endOfList_mark word rest, ?_⟩
      split
      · rename_i hword
        exact iff_of_true rfl ⟨rfl, hword⟩
      · rename_i hword
        exact iff_of_false (by decide) (fun h => hword h.2)
  | cons next raws =>
      refine ⟨0, ?_, by simp⟩
      rw [List.flatMap_cons, List.append_assoc, endOfList_entry]

theorem endOfList_zero_eq_none_iff (rest : List Byte) :
    endOfList (leBytes 0 ++ rest) = none ↔ rest.length < 4 := by
  rw [endOfList, take32_leBytes, ← take32_eq_none_iff]
  simp only [ne_eq, not_true_eq_false, if_false]
  cases take32 rest with
  | none => simp
  | some word => simp

/-- Only a zero word and a non-zero word end a listing. -/
theorem eq_of_endOfList_one {rest : List Byte} (h : endOfList rest = some 1) :
    ∃ word tail, word ≠ 0 ∧ rest = leBytes 0 ++ (leBytes word ++ tail) := by
  unfold endOfList at h
  split at h
  · cases h
  rename_i first p hfirst
  split at h
  · cases h
  rename_i hzero
  rw [ne_eq, not_not] at hzero
  split at h
  · cases h
  rename_i word tail hword
  refine ⟨word, tail, ?_, ?_⟩
  · rintro rfl
    cases h
  · rw [(take32_eq_some_iff _ _ _).mp hfirst, (take32_eq_some_iff _ _ _).mp hword, hzero]

/-! ### Rounds of the loop -/

section Loop

variable {Dirents : Type} (filldir : Filldir Dirents)

/-- The caller's buffer after a list of calls. -/
def deliver (dirents : Dirents) (calls : List FilldirCall) : Dirents :=
  calls.foldl (fun dirents call => (filldir dirents call).2) dirents

/-- A loop that has ended is not changed by further rounds. -/
theorem doFilldir_more (rounds more : Nat) (state : ReaddirState Dirents)
    (hended : (vsnfsDoFilldir filldir rounds state).1 ≠ .outOfRounds) :
    vsnfsDoFilldir filldir (rounds + more) state = vsnfsDoFilldir filldir rounds state := by
  induction rounds generalizing state with
  | zero => exact absurd rfl hended
  | succ rounds ih =>
      rw [show rounds + 1 + more = rounds + more + 1 by omega]
      rw [vsnfsDoFilldir] at hended
      rw [vsnfsDoFilldir, vsnfsDoFilldir]
      cases hdecode : dirDecode state with
      | none => rfl
      | some decoded =>
          obtain ⟨status, next⟩ := decoded
          simp only [hdecode] at hended ⊢
          by_cases hstatus : status < 0
          · rw [if_pos hstatus, if_pos hstatus]
          rw [if_neg hstatus] at hended ⊢
          rw [if_neg hstatus]
          cases hcall : next.entry.call with
          | none => rfl
          | some call =>
              simp only [hcall] at hended ⊢
              by_cases hres : (filldir next.dirents call).1 < 0
              · rw [if_pos hres, if_pos hres]
              rw [if_neg hres] at hended ⊢
              rw [if_neg hres]
              by_cases heof : next.entry.eof = 1
              · rw [if_pos heof, if_pos heof]
              rw [if_neg heof] at hended ⊢
              rw [if_neg heof]
              exact ih _ hended

variable (hnever : ∀ dirents call, 0 ≤ (filldir dirents call).1)

theorem doFilldir_zero (rounds : Nat) (state : ReaddirState Dirents) (rest : List Byte)
    (hptr : state.ptr = leBytes 0 ++ rest) :
    vsnfsDoFilldir filldir (rounds + 1) state =
      (.returned (-ebadcookie), { state with entry := { state.entry with eof := 1 } }) := by
  rw [vsnfsDoFilldir, dirDecode, hptr, decode_zero]
  rfl

/-- One round on an entry that `filldir` takes: the end of the loop when the listing ends behind it. -/
theorem doFilldir_accept (rounds : Nat) (state : ReaddirState Dirents) (raw : RawDirent) (rest : List Byte)
    (eof : Int) (hptr : state.ptr = raw.bytes ++ rest) (heof : endOfList rest = some eof)
    (htakes : 0 ≤ (filldir state.dirents raw.call).1) :
    vsnfsDoFilldir filldir (rounds + 1) state =
      if eof = 1 then
        (.returned (filldir state.dirents raw.call).1,
          dirPageRelease ⟨rest, raw.entry rest eof, (filldir state.dirents raw.call).2, 4096, state.refs⟩)
      else vsnfsDoFilldir filldir rounds
        ⟨rest, raw.entry rest eof, (filldir state.dirents raw.call).2, state.fPos, state.refs⟩ := by
  have hres : ¬ (filldir state.dirents raw.call).1 < 0 := by omega
  rw [vsnfsDoFilldir, dirDecode, hptr, raw.decode_bytes, heof]
  simp only [Option.map_some, raw.entry_call, Int.lt_irrefl, if_false, if_neg hres]
  rfl

/-- One round on an entry that `filldir` refuses: the loop ends, and the position stays. -/
theorem doFilldir_refuse (rounds : Nat) (state : ReaddirState Dirents) (raw : RawDirent) (rest : List Byte)
    (eof : Int) (hptr : state.ptr = raw.bytes ++ rest) (heof : endOfList rest = some eof)
    (hrefuses : (filldir state.dirents raw.call).1 < 0) :
    vsnfsDoFilldir filldir (rounds + 1) state =
      (.returned (filldir state.dirents raw.call).1,
        ⟨rest, raw.entry rest eof, (filldir state.dirents raw.call).2, state.fPos, state.refs⟩) := by
  rw [vsnfsDoFilldir, dirDecode, hptr, raw.decode_bytes, heof]
  simp only [Option.map_some, raw.entry_call, Int.lt_irrefl, if_false, if_pos hrefuses]

include hnever

/-- One round on an entry: the call, and the end of the loop when the listing ends behind it. -/
theorem doFilldir_entry (rounds : Nat) (state : ReaddirState Dirents) (raw : RawDirent) (rest : List Byte)
    (eof : Int) (hptr : state.ptr = raw.bytes ++ rest) (heof : endOfList rest = some eof) :
    vsnfsDoFilldir filldir (rounds + 1) state =
      if eof = 1 then
        (.returned (filldir state.dirents raw.call).1,
          dirPageRelease ⟨rest, raw.entry rest eof, (filldir state.dirents raw.call).2, 4096, state.refs⟩)
      else vsnfsDoFilldir filldir rounds
        ⟨rest, raw.entry rest eof, (filldir state.dirents raw.call).2, state.fPos, state.refs⟩ :=
  doFilldir_accept filldir rounds state raw rest eof hptr heof (hnever state.dirents raw.call)

/-- The rounds through the entries in front of something that is not the end of the listing. -/
theorem doFilldir_skip (raws : List RawDirent) (tail : List Byte) (htail : endOfList tail = some 0)
    (rounds : Nat) (state : ReaddirState Dirents)
    (hptr : state.ptr = raws.flatMap RawDirent.bytes ++ tail) :
    ∃ entry, vsnfsDoFilldir filldir (raws.length + rounds) state =
      vsnfsDoFilldir filldir rounds
        ⟨tail, entry, deliver filldir state.dirents (raws.map RawDirent.call), state.fPos, state.refs⟩ := by
  induction raws generalizing state with
  | nil =>
      refine ⟨state.entry, ?_⟩
      obtain ⟨ptr, entry, dirents, fPos, refs⟩ := state
      simp only [List.flatMap_nil, List.nil_append] at hptr
      rw [hptr, List.length_nil, Nat.zero_add]
      rfl
  | cons raw raws ih =>
      rw [List.flatMap_cons, List.append_assoc] at hptr
      have heof : endOfList (raws.flatMap RawDirent.bytes ++ tail) = some 0 := by
        cases raws with
        | nil => exact htail
        | cons next raws =>
            rw [List.flatMap_cons, List.append_assoc]
            exact endOfList_entry next _
      obtain ⟨entry, hrest⟩ := ih
        ⟨raws.flatMap RawDirent.bytes ++ tail, raw.entry (raws.flatMap RawDirent.bytes ++ tail) 0,
          (filldir state.dirents raw.call).2, state.fPos, state.refs⟩ rfl
      refine ⟨entry, ?_⟩
      rw [List.length_cons, show raws.length + 1 + rounds = raws.length + rounds + 1 by omega,
        doFilldir_entry filldir hnever _ state raw _ 0 hptr heof, if_neg (by decide), hrest]
      rfl

/-- **A complete listing.** Entries, a zero word and a non-zero word: every entry is handed over once,
in order, and the loop ends with the page released and the position behind it. -/
theorem doFilldir_complete (raws : List RawDirent) (hne : raws ≠ []) (word : Word) (hword : word ≠ 0)
    (rest : List Byte) (rounds : Nat) (hrounds : raws.length ≤ rounds) (state : ReaddirState Dirents)
    (hptr : state.ptr = raws.flatMap RawDirent.bytes ++ (leBytes 0 ++ (leBytes word ++ rest))) :
    ∃ res entry, 0 ≤ res ∧ vsnfsDoFilldir filldir rounds state =
      (.returned res, dirPageRelease ⟨[], entry, deliver filldir state.dirents (raws.map RawDirent.call),
        4096, state.refs⟩) := by
  obtain ⟨front, last, rfl⟩ : ∃ front last, raws = front ++ [last] :=
    ⟨raws.dropLast, raws.getLast hne, (List.dropLast_append_getLast hne).symm⟩
  simp only [List.flatMap_append, List.flatMap_cons, List.flatMap_nil, List.append_nil,
    List.append_assoc] at hptr
  rw [List.length_append, List.length_singleton] at hrounds
  obtain ⟨entry, hskip⟩ := doFilldir_skip filldir hnever front _ (endOfList_entry last _)
    (rounds - front.length) state hptr
  have hend : endOfList (leBytes 0 ++ (leBytes word ++ rest)) = some 1 := by
    rw [endOfList_mark, if_pos hword]
  rw [show front.length + (rounds - front.length) = rounds by omega,
    show rounds - front.length = rounds - front.length - 1 + 1 by omega,
    doFilldir_entry filldir hnever _ _ last _ 1 rfl hend, if_pos rfl] at hskip
  have hdeliver : (filldir (deliver filldir state.dirents (front.map RawDirent.call)) last.call).2 =
      deliver filldir state.dirents ((front ++ [last]).map RawDirent.call) := by
    rw [List.map_append, deliver, deliver, List.foldl_append]
    rfl
  refine ⟨(filldir (deliver filldir state.dirents (front.map RawDirent.call)) last.call).1,
    last.entry (leBytes 0 ++ (leBytes word ++ rest)) 1, hnever _ _, ?_⟩
  rw [hskip, ← hdeliver]
  rfl

/-- **A listing without its end.** Entries and two zero words: every entry is handed over once, in
order, and then the loop takes the first zero word for an error. -/
theorem doFilldir_unfinished (raws : List RawDirent) (rest : List Byte) (rounds : Nat)
    (hrounds : raws.length < rounds) (state : ReaddirState Dirents)
    (hptr : state.ptr = raws.flatMap RawDirent.bytes ++ (leBytes 0 ++ (leBytes 0 ++ rest))) :
    ∃ entry, vsnfsDoFilldir filldir rounds state =
      (.returned (-ebadcookie), ⟨leBytes 0 ++ (leBytes 0 ++ rest), entry,
        deliver filldir state.dirents (raws.map RawDirent.call), state.fPos, state.refs⟩) := by
  have hend : endOfList (leBytes 0 ++ (leBytes 0 ++ rest)) = some 0 := by
    rw [endOfList_mark, if_neg (by simp)]
  obtain ⟨entry, hskip⟩ := doFilldir_skip filldir hnever raws _ hend (rounds - raws.length) state hptr
  rw [show raws.length + (rounds - raws.length) = rounds by omega,
    show rounds - raws.length = rounds - raws.length - 1 + 1 by omega,
    doFilldir_zero filldir _ _ _ rfl] at hskip
  exact ⟨_, hskip⟩

end Loop

/-! ### Calls -/

/-- What `vsnfs_readdir` returns for a result of the loop. -/
def Stop.clip : Stop → Stop
  | .returned res => .returned (if 0 < res then 0 else res)
  | stop => stop

/-- The state in which the loop starts on a page: allocated, mapped, and the entry not at the end. -/
def ReaddirState.onPage {Dirents : Type} (state : ReaddirState Dirents) (page : List Byte) :
    ReaddirState Dirents where
  ptr := page
  entry := { state.entry with eof := 0 }
  dirents := state.dirents
  fPos := state.fPos
  refs := { state.refs with allocs := state.refs.allocs + 1, kmaps := state.refs.kmaps + 1 }

/-- The entry is reset behind the loop. -/
def ReaddirState.closed {Dirents : Type} (state : ReaddirState Dirents) : ReaddirState Dirents :=
  { state with entry := { state.entry with offset := 0, eof := 1 } }

/-- A call from position 0 whose page is allocated and whose RPC succeeds is the loop. -/
theorem readdir_of_loop {Dirents : Type} (filldir : Filldir Dirents) (rounds : Nat) (answer : ReaddirAnswer)
    (state : ReaddirState Dirents) (hpos : state.fPos = 0) (halloc : answer.alloc = true)
    (hstatus : 0 ≤ answer.status) :
    vsnfsReaddir filldir rounds answer state =
      ((vsnfsDoFilldir filldir rounds (state.onPage answer.page)).1.clip,
        (vsnfsDoFilldir filldir rounds (state.onPage answer.page)).2.closed) := by
  simp only [vsnfsReaddir, simpleReaddir, hpos, halloc, Int.not_lt.mpr hstatus, ne_eq, not_true_eq_false,
    if_false, Bool.true_eq_false, ReaddirState.onPage]
  cases vsnfsDoFilldir filldir rounds _ with
  | mk stop final => cases stop <;> rfl

theorem Stop.clip_eq_returned {stop : Stop} {res : Int} (h : stop.clip = .returned res) :
    ∃ res', stop = .returned res' := by
  cases stop with
  | returned res' => exact ⟨res', rfl⟩
  | outOfRounds | outsidePage => cases h

end Vsnfs
