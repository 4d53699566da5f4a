import Vsnfs.ReaddirBounds
import Vsnfs.ReaddirEncode
import Vsnfs.ServerDispatch

/-! From the file system of the server to the `filldir` of the client. A listing that was accepted as a
whole comes out entry by entry; one that did not fit comes out entry by entry too, and then as an
error, because the marker of an incomplete listing is the marker the decoder rejects. -/

namespace Vsnfs

open Base

/-- What `filldir` is called with for a list of entries: the name cut to its first 255 bytes, and as
offset the low 32 bits of the next entry's, `last` for the last one. -/
def expectedCalls : List FillerCall → Word → List FilldirCall
  | [], _ => []
  | [call], last =>
      [⟨call.1.name.take vsnfsMaxnamlen, last.setWidth 64, call.1.ino, call.1.dType⟩]
  | call :: next :: calls, last =>
      ⟨call.1.name.take vsnfsMaxnamlen, (next.1.offset.setWidth 32).setWidth 64, call.1.ino,
        call.1.dType⟩ :: expectedCalls (next :: calls) last

/-- An inode number that the filler accepts fits its word. -/
theorem setWidth_ino {ino : BitVec 64} (h : ino.toNat ≤ 2 ^ 32 - 1) :
    (ino.setWidth 32).setWidth 64 = ino := by
  apply BitVec.eq_of_toNat_eq
  rw [BitVec.toNat_setWidth, BitVec.toNat_setWidth]
  omega

theorem rawOf_call (call : FillerCall) (offset : Word) (hino : call.1.ino.toNat ≤ 2 ^ 32 - 1) :
    (rawOf call offset).call =
      ⟨call.1.name.take vsnfsMaxnamlen, offset.setWidth 64, call.1.ino, call.1.dType⟩ := by
  simp only [RawDirent.call, rawOf, setWidth_ino hino, entryFh]

theorem rawList_calls (calls : List FillerCall) (last : Word)
    (hino : ∀ call ∈ calls, call.1.ino.toNat ≤ 2 ^ 32 - 1) :
    (rawList calls last).map RawDirent.call = expectedCalls calls last := by
  induction calls with
  | nil => rfl
  | cons call calls ih =>
      have hcall := hino call List.mem_cons_self
      have hrest := ih (fun other hother => hino other (List.mem_cons_of_mem call hother))
      cases calls with
      | nil =>
          rw [rawList, List.map_singleton, rawOf_call call last hcall]
          rfl
      | cons next calls =>
          rw [rawList, List.map_cons, rawOf_call call _ hcall, hrest]
          rfl

/-! ### Listings that fit -/

/-- **READDIR round trip.** For every non-empty list of entries whose calls are all accepted on a page
of any count, and whatever follows the reply in the client's page, the client hands over each entry
once and in order and ends with a non-negative result. The reply ends in its end marker, and nothing
behind that marker has a part in this. -/
theorem readdir_round_trip (count : Nat) (hcount : count ≤ pageSize) (page : List Byte)
    (calls : List FillerCall) (hne : calls ≠ []) (haccepts : Accepts (readdirStart count page) calls)
    (svc : SvcRes) (reply : List Byte)
    (hreply : reply = replyPage (vsnfssvcEncodeReaddirres svc (vfsReaddir (readdirStart count page) calls)))
    {Dirents : Type} (filldir : Filldir Dirents) (hnever : ∀ dirents call, 0 ≤ (filldir dirents call).1)
    (stale : List Byte) (state : ReaddirState Dirents) (hptr : state.ptr = reply ++ stale)
    (rounds : Nat) (hrounds : calls.length ≤ rounds) :
    (∃ front, reply = front ++ (leBytes 0 ++ leBytes (htonl 1))) ∧
    ∃ res final, vsnfsDoFilldir filldir rounds state = (.returned res, final) ∧ 0 ≤ res ∧
      final.dirents = deliver filldir state.dirents (expectedCalls calls (BitVec.allOnes 32)) ∧
      final.fPos = 4096 := by
  have hholds := haccepts.pageHolds (start_pageHolds count page (BitVec.allOnes 32))
  rw [List.nil_append] at hholds
  have herr : (vfsReaddir (readdirStart count page) calls).err = vsnfserr .ok := haccepts.err
  have hbytes := hholds.reply hcount svc
  rw [if_pos herr, ← hreply] at hbytes
  refine ⟨⟨_, hbytes⟩, ?_⟩
  have hpage : state.ptr = (rawList calls (BitVec.allOnes 32)).flatMap RawDirent.bytes ++
      (leBytes 0 ++ (leBytes (htonl 1) ++ stale)) := by
    rw [hptr, hbytes, listingBytes]
    simp only [List.append_assoc]
  have hraws : rawList calls (BitVec.allOnes 32) ≠ [] := by
    intro hnil
    have hlength := rawList_length calls (BitVec.allOnes 32)
    rw [hnil] at hlength
    exact hne (List.eq_nil_of_length_eq_zero hlength.symm)
  obtain ⟨res, entry, hres, hloop⟩ := doFilldir_complete filldir hnever _ hraws (htonl 1) htonl_one_ne_zero stale
    rounds (by rw [rawList_length]; exact hrounds) state hpage
  refine ⟨res, _, hloop, hres, ?_, rfl⟩
  rw [← rawList_calls calls _ haccepts.ino_le]
  rfl

/-- Two entries, the second with a name of five bytes. -/
def twoEntries : List FillerCall :=
  [(⟨[0x61], 0, 12, 8⟩, zeroFh), (⟨[0x62, 0x63, 0x64, 0x65, 0x66], 7, 13, 4⟩, zeroFh)]

theorem two_entries_round_trip :
    ∃ res final, vsnfsDoFilldir recorder 2 (startOn (replyPage (vsnfssvcEncodeReaddirres ⟨0, [], 0⟩
        (vfsReaddir (readdirStart pageSize []) twoEntries)))) = (.returned res, final) ∧ 0 ≤ res ∧
      final.dirents = [⟨[0x61], 7, 12, 8⟩, ⟨[0x62, 0x63, 0x64, 0x65, 0x66], 0xffffffff, 13, 4⟩] ∧
      final.fPos = 4096 := by
  have hcalls : deliver recorder [] (expectedCalls twoEntries (BitVec.allOnes 32)) =
      [⟨[0x61], 7, 12, 8⟩, ⟨[0x62, 0x63, 0x64, 0x65, 0x66], 0xffffffff, 13, 4⟩] := by decide
  rw [← hcalls]
  exact (readdir_round_trip pageSize le_rfl [] twoEntries (by simp [twoEntries])
    ⟨by decide, by decide, trivial⟩ ⟨0, [], 0⟩ _ rfl recorder recorder_never_fails []
    (startOn (replyPage (vsnfssvcEncodeReaddirres ⟨0, [], 0⟩
      (vfsReaddir (readdirStart pageSize []) twoEntries)))) (List.append_nil _).symm 2 (by decide)).2

/-! ### The exchange -/

/-- READDIR from the call to the answer: the request is served, the reply arrives in a page that held
`stale`, and the status is decoded. -/
def readdirExchange (rephdr : Nat) (count : Word) (svc : SvcRes) (head : Head) (args : ReaddirArgs)
    (env : ReaddirEnv) (stale : List Byte) : Option ReaddirAnswer :=
  (dispatchReaddir svc head (some args) env).bind fun out =>
    out.resp.bind fun res =>
      let reply := out.svc.head ++ res.page.cells.take out.svc.pageLen
      let received := (vsnfsXdrReaddirargs rephdr args.fh count).2.receive reply stale
      (vsnfsXdrReaddirres (received.1.drop (4 * rephdr))).map fun status => ⟨true, status, received.2⟩

/-- Once the directory is open and `vfs_readdir` returns 0, the status is `vsnfs_ok` and the result is
what the filler left. -/
theorem procReaddir_served (head : Head) (args : ReaddirArgs) (env : ReaddirEnv)
    (hfile : (vsnfsdOpen head args.fh args.after env.opening).file = some ()) (hvfs : env.failure = none) :
    (vsnfsdProcReaddir head args env).status = some (vsnfserr .ok) ∧
      (vsnfsdProcReaddir head args env).resp =
        { vfsReaddir (readdirStart args.count env.page) env.entries with
          count := ((vfsReaddir (readdirStart args.count env.page) env.entries).buffer / 4 : Nat) } := by
  have hstatus := open_status_of_file hfile
  have hret : ¬ env.ret < 0 := by
    rw [ReaddirEnv.ret, hvfs]
    decide
  simp only [vsnfsdProcReaddir, vsnfsdReaddir, hfile, if_neg hret, Outcome.call, hstatus, vsnfserr_ok,
    ne_eq, not_true_eq_false, false_and, if_false, and_self]

theorem dispatchReaddir_served (svc : SvcRes) (head : Head) (args : ReaddirArgs) (env : ReaddirEnv)
    (hstatus : (vsnfsdProcReaddir head args env).status = some (vsnfserr .ok)) :
    dispatchReaddir svc head (some args) env =
      some ⟨.success, (vsnfssvcEncodeReaddirres (svc.emit (leBytes 0))
          (vsnfsdProcReaddir head args env).resp).1,
        some (vsnfssvcEncodeReaddirres (svc.emit (leBytes 0)) (vsnfsdProcReaddir head args env).resp).2.1⟩ := by
  simp only [dispatchReaddir, vsnfsdDispatch, hstatus, vsnfserr_ok]
  rfl

/-- The answer to a served READDIR whose page ends inside the requested count. -/
theorem readdirExchange_served (rephdr : Nat) (count : Word) (svc : SvcRes) (head : Head)
    (args : ReaddirArgs) (env : ReaddirEnv) (stale reply : List Byte)
    (hsvc : svc.head.length = 4 * rephdr)
    (hstatus : (vsnfsdProcReaddir head args env).status = some (vsnfserr .ok))
    (hreply : replyPage (vsnfssvcEncodeReaddirres (svc.emit (leBytes 0))
      (vsnfsdProcReaddir head args env).resp) = reply) (hlength : reply.length ≤ count.toNat) :
    readdirExchange rephdr count svc head args env stale =
      some ⟨true, 0, reply ++ stale.drop reply.length⟩ := by
  have hhead : (vsnfssvcEncodeReaddirres (svc.emit (leBytes 0)) (vsnfsdProcReaddir head args env).resp).1.head =
      svc.head ++ leBytes 0 := rfl
  have hsplit : 4 * (rephdr + vsnfsReaddirresSz) = (svc.head ++ leBytes 0).length := by
    rw [List.length_append, hsvc, leBytes_length]
    exact Nat.mul_succ 4 rephdr
  have hok : vsnfsXdrReaddirres (leBytes 0) = some 0 := by decide
  rw [replyPage] at hreply
  rw [readdirExchange, dispatchReaddir_served svc head args env hstatus]
  simp only [Option.bind_some, hhead, hreply, vsnfsXdrReaddirargs, RcvBuf.receive, hsplit,
    List.take_left, List.drop_left, List.take_of_length_le hlength, overwrite_zero]
  rw [← hsvc, List.drop_left, hok]
  rfl

/-! ### Listings that do not fit -/

section Overfull

variable {Dirents : Type} (filldir : Filldir Dirents)
  (hnever : ∀ dirents call, 0 ≤ (filldir dirents call).1)

include hnever

/-- On entries and two zero words `vsnfs_readdir` hands over the entries and returns an error. -/
theorem readdir_unfinished (raws : List RawDirent) (rest : List Byte) (state : ReaddirState Dirents)
    (hpos : state.fPos = 0) (rounds : Nat) :
    (vsnfsReaddir filldir rounds
        ⟨true, 0, raws.flatMap RawDirent.bytes ++ (leBytes 0 ++ (leBytes 0 ++ rest))⟩ state).1 ≠
      .returned 0 ∧
    (raws.length < rounds →
      (vsnfsReaddir filldir rounds
          ⟨true, 0, raws.flatMap RawDirent.bytes ++ (leBytes 0 ++ (leBytes 0 ++ rest))⟩ state).1 =
        .returned (-ebadcookie) ∧
      (vsnfsReaddir filldir rounds
          ⟨true, 0, raws.flatMap RawDirent.bytes ++ (leBytes 0 ++ (leBytes 0 ++ rest))⟩ state).2.dirents =
        deliver filldir state.dirents (raws.map RawDirent.call)) := by
  rw [readdir_of_loop filldir rounds _ state hpos rfl (Int.le_refl 0)]
  refine ⟨?_, ?_⟩
  · intro hzero
    -- further rounds change nothing, and with enough of them the loop has returned the error
    obtain ⟨entry, hmore⟩ := doFilldir_unfinished filldir hnever raws rest (rounds + (raws.length + 1))
      (by omega) (state.onPage _) rfl
    obtain ⟨res, hended⟩ := Stop.clip_eq_returned hzero
    rw [doFilldir_more filldir rounds (raws.length + 1) _ (by rw [hended]; exact Stop.noConfusion)] at hmore
    rw [hmore] at hzero
    exact absurd hzero (show (Stop.returned (-ebadcookie)).clip ≠ .returned 0 by decide)
  · intro hrounds
    obtain ⟨entry, hloop⟩ := doFilldir_unfinished filldir hnever raws rest rounds hrounds
      (state.onPage _) rfl
    rw [hloop]
    exact ⟨rfl, rfl⟩

end Overfull

/-- The first rejection of a listing, for lack of room and after at least one accepted entry. -/
structure Overfull (args : ReaddirArgs) (env : ReaddirEnv) (accepted : List FillerCall)
    (rejected : FillerCall) : Prop where
  hentries : ∃ more, env.entries = accepted ++ rejected :: more
  hne : accepted ≠ []
  haccepts : Accepts (readdirStart args.count env.page) accepted
  hoffset : rejected.1.offset.toInt ≤ 2 ^ 32 - 1
  hroom : entryRoom (vfsReaddir (readdirStart args.count env.page) accepted) rejected < 0

/-- What the handler leaves: the accepted entries on the page, and an error. -/
theorem Overfull.resp {args : ReaddirArgs} {env : ReaddirEnv} {accepted : List FillerCall}
    {rejected : FillerCall} (h : Overfull args env accepted rejected) {head : Head}
    (hfile : (vsnfsdOpen head args.fh args.after env.opening).file = some ()) (hvfs : env.failure = none) :
    PageHolds args.count accepted (rejected.1.offset.setWidth 32) (vsnfsdProcReaddir head args env).resp ∧
      (vsnfsdProcReaddir head args env).resp.err ≠ vsnfserr .ok := by
  obtain ⟨more, hentries⟩ := h.hentries
  have hresp := (procReaddir_served head args env hfile hvfs).2
  have hholds := h.haccepts.pageHolds (start_pageHolds args.count env.page (BitVec.allOnes 32))
  rw [List.nil_append] at hholds
  obtain ⟨hrejected, herr, hkept⟩ := hholds.noRoom h.hoffset h.hroom
  have hfinal : vfsReaddir (readdirStart args.count env.page) env.entries =
      (encodeCall (vfsReaddir (readdirStart args.count env.page) accepted) rejected).1 := by
    rw [hentries, h.haccepts.vfsReaddir_append, vfsReaddir, if_neg hrejected]
  rw [hresp, hfinal]
  refine ⟨⟨hkept.cells, hkept.buffer, hkept.offset, hkept.budget, hkept.room⟩, ?_⟩
  change (encodeCall _ rejected).1.err ≠ _
  rw [herr]
  decide

/-- An accepted entry means a count of at least its size, so the reply is not cut. -/
theorem PageHolds.reply_length_le {count : Word} {calls : List FillerCall} {last : Word} {res : ReaddirRes}
    (h : PageHolds (clampToPage count) calls last res) (hne : calls ≠ []) (word : Word) :
    (listingBytes calls last ++ (leBytes 0 ++ leBytes word)).length ≤ count.toNat := by
  have hbuffer := h.buffer
  have hpos : 0 < res.buffer := by
    obtain ⟨front, hfront⟩ := listingBytes_last calls hne
    rw [hbuffer, hfront, List.length_append, beBytes_length]
    omega
  calc (listingBytes calls last ++ (leBytes 0 ++ leBytes word)).length
      = res.buffer + 8 := by rw [List.length_append, ← hbuffer]; rfl
    _ ≤ clampToPage count := h.buffer_le_count hpos
    _ ≤ count.toNat := clampToPage_le_toNat count

/-- The reply to an overfull listing: the accepted entries, then two zero words. -/
theorem Overfull.exchange {args : ReaddirArgs} {env : ReaddirEnv} {accepted : List FillerCall}
    {rejected : FillerCall} (h : Overfull args env accepted rejected) (rephdr : Nat) (count : Word)
    (svc : SvcRes) (head : Head) (stale : List Byte) (hsvc : svc.head.length = 4 * rephdr)
    (hcount : args.count = clampToPage count)
    (hfile : (vsnfsdOpen head args.fh args.after env.opening).file = some ()) (hvfs : env.failure = none) :
    ∃ rest, readdirExchange rephdr count svc head args env stale =
      some ⟨true, 0, (rawList accepted (rejected.1.offset.setWidth 32)).flatMap RawDirent.bytes ++
        (leBytes 0 ++ (leBytes 0 ++ rest))⟩ := by
  have hstatus := (procReaddir_served head args env hfile hvfs).1
  obtain ⟨hholds, herr⟩ := h.resp hfile hvfs
  have hreply := hholds.reply args.hcount (svc.emit (leBytes 0))
  rw [if_neg herr] at hreply
  rw [hcount] at hholds
  have hlength := hholds.reply_length_le h.hne (htonl 0)
  refine ⟨stale.drop (listingBytes accepted (rejected.1.offset.setWidth 32) ++
    (leBytes 0 ++ leBytes (htonl 0))).length, ?_⟩
  rw [readdirExchange_served rephdr count svc head args env stale _ hsvc hstatus hreply hlength]
  simp only [listingBytes, List.append_assoc]
  rfl

/-- **A directory larger than one page.** Whenever an entry is rejected for lack of room after at least
one was accepted, `vsnfs_readdir` hands over exactly the accepted entries, in order, and then does not
return 0 but the error of a missing end of the listing. -/
theorem overfull_readdir_returns_error (args : ReaddirArgs) (env : ReaddirEnv)
    (accepted : List FillerCall) (rejected : FillerCall) (h : Overfull args env accepted rejected)
    (rephdr : Nat) (count : Word) (svc : SvcRes) (head : Head) (stale : List Byte)
    (hsvc : svc.head.length = 4 * rephdr) (hcount : args.count = clampToPage count)
    (hfile : (vsnfsdOpen head args.fh args.after env.opening).file = some ()) (hvfs : env.failure = none)
    {Dirents : Type} (filldir : Filldir Dirents) (hnever : ∀ dirents call, 0 ≤ (filldir dirents call).1)
    (state : ReaddirState Dirents) (hpos : state.fPos = 0) :
    ∃ answer, readdirExchange rephdr count svc head args env stale = some answer ∧
      (∀ rounds, (vsnfsReaddir filldir rounds answer state).1 ≠ .returned 0) ∧
      ∀ rounds, accepted.length < rounds →
        (vsnfsReaddir filldir rounds answer state).1 = .returned (-ebadcookie) ∧
        (vsnfsReaddir filldir rounds answer state).2.dirents =
          deliver filldir state.dirents (expectedCalls accepted (rejected.1.offset.setWidth 32)) := by
  obtain ⟨rest, hexchange⟩ := h.exchange rephdr count svc head stale hsvc hcount hfile hvfs
  refine ⟨_, hexchange, ?_, ?_⟩
  · intro rounds
    exact (readdir_unfinished filldir hnever _ rest state hpos rounds).1
  · intro rounds hrounds
    rw [← rawList_calls accepted _ h.haccepts.ino_le]
    exact (readdir_unfinished filldir hnever _ rest state hpos rounds).2
      (by rw [rawList_length]; exact hrounds)

/-- An entry with a name of 255 bytes; fourteen of them fit on a page. -/
def longEntry (index : Nat) : FillerCall :=
  (⟨BitVec.ofNat 8 (0x61 + index) :: List.replicate 254 0x61, BitVec.ofNat 64 (index + 1),
    BitVec.ofNat 64 (index + 12), 8⟩, zeroFh)

def fourteenEntries : List FillerCall := (List.range 14).map longEntry

theorem longEntry_words (index : Nat) : entryWords (longEntry index) = 71 := by
  have hlength : (longEntry index).1.name.length = 255 := by
    simp only [longEntry, List.length_cons, List.length_replicate]
  rw [entryWords, List.length_take, hlength]
  decide

theorem fourteenEntries_words : (fourteenEntries.map entryWords).sum = 994 := by
  have hwords : fourteenEntries.map entryWords = List.replicate 14 71 := by
    rw [fourteenEntries, List.map_map, List.eq_replicate_iff]
    refine ⟨by simp, ?_⟩
    intro words hwords
    obtain ⟨index, -, hindex⟩ := List.mem_map.mp hwords
    rw [← hindex]
    exact longEntry_words index
  rw [hwords, List.sum_replicate_nat]

/-- READDIR of the root of a mount, with a full page. -/
def rootReaddir : ReaddirArgs := ⟨zeroFh.print 5, [], pageSize, le_rfl⟩

def fifteenEntriesEnv : ReaddirEnv :=
  { opening := ⟨true, [], fun _ => .ok ()⟩, entries := fourteenEntries ++ [longEntry 14], failure := none,
    page := [] }

theorem fifteenEntries_overfull : Overfull rootReaddir fifteenEntriesEnv fourteenEntries (longEntry 14) := by
  have hbudget := fourteenEntries_words
  obtain ⟨haccepts, hleft⟩ := @accepts_of_budget (readdirStart pageSize []) fourteenEntries (by decide)
    (by rw [hbudget]; decide)
  refine ⟨⟨[], rfl⟩, by decide, haccepts, by decide, ?_⟩
  have hwords := longEntry_words 14
  have hstart : (readdirStart pageSize []).buflen = 1022 := by decide
  rw [hbudget, hstart] at hleft
  rw [entryWords] at hwords
  change (vfsReaddir (readdirStart pageSize []) fourteenEntries).buflen - _ - 7 < 0
  omega

theorem rootReaddir_opens :
    (vsnfsdOpen (some [firstRoot]) rootReaddir.fh rootReaddir.after fifteenEntriesEnv.opening).file =
      some () := by decide

/-- Fifteen entries of which fourteen fit: they are handed over, and the call fails. -/
theorem fifteen_entries_return_error :
    ∃ answer, readdirExchange 0 4096 ⟨0, [], 0⟩ (some [firstRoot]) rootReaddir fifteenEntriesEnv [] =
        some answer ∧
      (vsnfsReaddir recorder 15 answer (startOn [])).1 = .returned (-ebadcookie) := by
  obtain ⟨answer, hexchange, -, hloop⟩ := overfull_readdir_returns_error rootReaddir fifteenEntriesEnv
    fourteenEntries (longEntry 14) fifteenEntries_overfull 0 4096 ⟨0, [], 0⟩ (some [firstRoot]) [] rfl
    (by decide) rootReaddir_opens rfl recorder recorder_never_fails (startOn []) rfl
  exact ⟨answer, hexchange, (hloop 15 (by decide)).1⟩

/-- That call never returns 0, though fourteen entries are in its page. -/
theorem fifteen_entries_not_listed :
    ¬ ∃ answer rounds, readdirExchange 0 4096 ⟨0, [], 0⟩ (some [firstRoot]) rootReaddir fifteenEntriesEnv [] =
        some answer ∧
      (vsnfsReaddir recorder rounds answer (startOn [])).1 = .returned 0 := by
  rintro ⟨answer, rounds, hanswer, hzero⟩
  obtain ⟨rest, hexchange⟩ := fifteenEntries_overfull.exchange 0 4096 ⟨0, [], 0⟩ (some [firstRoot]) [] rfl
    (by decide) rootReaddir_opens rfl
  obtain rfl := Option.some.inj (hanswer.symm.trans hexchange)
  exact (readdir_unfinished recorder recorder_never_fails _ rest (startOn []) rfl rounds).1 hzero

end Vsnfs
