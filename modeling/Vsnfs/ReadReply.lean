import Vsnfs.ClientXdr
import Vsnfs.ServerDispatch

/-! READ from the handler to the client. The handler never passes the requested offset on: it reads at
whatever its local variable held. The reply counts its page by a pointer into the head, the client
splits it one word too early, and the count it hands on was never read from the reply. -/

namespace Vsnfs

open Base

/-! ### The handler -/

/-- What the code relies on of `vfs_read`: at a position that is not negative it fills the whole
available range and returns its length, and a negative position is an error. -/
structure VfsReadContract (vfsRead : RegFile → Nat → Int → VfsRead) : Prop where
  reads : ∀ file count pos, 0 ≤ pos →
    (vfsRead file count pos).bytes = (file.content.drop pos.toNat).take count ∧
      (vfsRead file count pos).ret = ((file.content.drop pos.toNat).take count).length
  refuses : ∀ file count pos, pos < 0 → (vfsRead file count pos).ret < 0

/-- The number of bytes there are at the requested offset. -/
def wantedLength (file : RegFile) (args : ReadArgs) : Nat :=
  min args.count (file.content.length - args.offset.toNat)

/-- Whatever the stack and the page held, a READ with status OK leaves the requested bytes at the start
of the page and their number in the result. -/
def ReadsRequested (head : Head) (args : ReadArgs) (env : ReadEnv) (file : RegFile) : Prop :=
  ∀ (stack : BitVec 64) (page : List Byte) (out : Outcome ReadRes),
    out = vsnfsdProcRead head args { env with stack := stack, page := page } →
    out.status = some (vsnfserr .ok) →
      out.resp.count = BitVec.ofNat 64 (wantedLength file args) ∧
      out.resp.page.take (wantedLength file args) = (file.content.drop args.offset.toNat).take args.count

section Handler

variable {head : Head} {args : ReadArgs} {env : ReadEnv} {file : RegFile}

theorem procRead_opened (hfile : (vsnfsdOpen head args.fh args.after env.opening).file = some file)
    (answer : VfsRead) (hanswer : env.vfsRead file args.count env.stack.toInt = answer) :
    ((vsnfsdProcRead head args env).status = some (vsnfserr .ok) ↔ 0 ≤ answer.ret) ∧
      (0 ≤ answer.ret →
        (vsnfsdProcRead head args env).resp = ⟨BitVec.ofInt 64 answer.ret, overwrite env.page 0 answer.bytes⟩) := by
  have hstatus := open_status_of_file hfile
  simp only [vsnfsdProcRead, vsnfsdRead, hfile, hanswer, Outcome.call]
  by_cases hret : 0 ≤ answer.ret
  · simp only [if_pos hret, hstatus]
    exact ⟨iff_of_true trivial hret, fun _ => trivial⟩
  · simp only [if_neg hret]
    refine ⟨iff_of_false ?_ hret, fun h => absurd h hret⟩
    intro hok
    rw [vsnfserr_ok] at hok
    exact vsnfserrno_ne_zero (by omega) (Option.some.inj hok)

/-- With a position that is not negative on the stack the handler succeeds and answers with the bytes
there. -/
theorem procRead_at (hcontract : VfsReadContract env.vfsRead)
    (hfile : (vsnfsdOpen head args.fh args.after env.opening).file = some file)
    (hpos : 0 ≤ env.stack.toInt) :
    (vsnfsdProcRead head args env).status = some (vsnfserr .ok) ∧
      (vsnfsdProcRead head args env).resp =
        ⟨BitVec.ofNat 64 ((file.content.drop env.stack.toInt.toNat).take args.count).length,
          overwrite env.page 0 ((file.content.drop env.stack.toInt.toNat).take args.count)⟩ := by
  obtain ⟨hbytes, hret⟩ := hcontract.reads file args.count env.stack.toInt hpos
  obtain ⟨hok, hresp⟩ := procRead_opened hfile _ rfl
  have hnonneg : 0 ≤ (env.vfsRead file args.count env.stack.toInt).ret := by omega
  refine ⟨hok.mpr hnonneg, ?_⟩
  rw [hresp hnonneg, hret, hbytes, BitVec.ofInt_natCast]

/-- With status OK the position on the stack was not negative. -/
theorem stack_nonneg_of_ok (hcontract : VfsReadContract env.vfsRead)
    (hfile : (vsnfsdOpen head args.fh args.after env.opening).file = some file)
    (hok : (vsnfsdProcRead head args env).status = some (vsnfserr .ok)) : 0 ≤ env.stack.toInt := by
  have hret := (procRead_opened hfile _ rfl).1.mp hok
  by_contra hneg
  have hrefused := hcontract.refuses file args.count env.stack.toInt (by omega)
  omega

/-- Some position has another number of bytes than the requested one: the end of the file when the
offset is inside it, and its start when the offset is behind it. -/
theorem exists_other_length (hcount : args.count ≠ 0) (hcontent : file.content ≠ []) :
    ∃ place : Nat, place < 2 ^ 63 ∧
      ((file.content.drop place).take args.count).length ≠ wantedLength file args := by
  have hpos : 0 < file.content.length := List.length_pos_of_ne_nil hcontent
  simp only [wantedLength, List.length_take, List.length_drop]
  by_cases hinside : args.offset.toNat < file.content.length
  · exact ⟨file.content.length, file.hsize, by omega⟩
  · exact ⟨0, by decide, by omega⟩

/-- Numbers of bytes of one READ are told apart by their words. -/
theorem count_word_inj {left right : Nat} (hleft : left ≤ args.count) (hright : right ≤ args.count)
    (h : BitVec.ofNat 64 left = BitVec.ofNat 64 right) : left = right := by
  have hlimit := args.hcount
  have heq := congrArg BitVec.toNat h
  rw [BitVec.toNat_ofNat, BitVec.toNat_ofNat] at heq
  simp only [pageSize] at hlimit
  omega

/-- **READ returns the requested bytes only when there are none.** For a handle that resolves to a
file, every stack gives the right bytes and count exactly when no byte is asked for or the file is
empty: otherwise the end of the file or its start, found on the stack, gives a wrong count. -/
theorem read_requested_iff (head : Head) (args : ReadArgs) (env : ReadEnv) (file : RegFile)
    (hcontract : VfsReadContract env.vfsRead)
    (hfile : (vsnfsdOpen head args.fh args.after env.opening).file = some file) :
    ReadsRequested head args env file ↔ args.count = 0 ∨ file.content = [] := by
  constructor
  · intro hreads
    by_contra hboth
    rw [not_or] at hboth
    obtain ⟨place, hplace, hother⟩ := exists_other_length hboth.1 hboth.2
    have hstack : (BitVec.ofNat 64 place).toInt = place := by
      rw [BitVec.toInt_eq_toNat_of_lt (by rw [BitVec.toNat_ofNat]; omega), BitVec.toNat_ofNat]
      omega
    obtain ⟨hok, hresp⟩ := @procRead_at head args { env with stack := BitVec.ofNat 64 place, page := [] }
      file hcontract hfile (by rw [hstack]; omega)
    have hcounts := (hreads (BitVec.ofNat 64 place) [] _ rfl hok).1
    rw [hresp, hstack, Int.toNat_natCast] at hcounts
    exact hother (count_word_inj (List.length_take_le _ _) (Nat.min_le_left _ _) hcounts)
  · intro hempty stack page out hout hok
    have hnone : ∀ place : Nat, (file.content.drop place).take args.count = [] := by
      intro place
      rcases hempty with hzero | hnil
      · rw [hzero, List.take_zero]
      · rw [hnil, List.drop_nil, List.take_nil]
    have hwanted : wantedLength file args = 0 := by
      have hlength := congrArg List.length (hnone args.offset.toNat)
      rwa [List.length_take, List.length_drop] at hlength
    rw [hout] at hok ⊢
    have hpos := @stack_nonneg_of_ok head args { env with stack := stack, page := page } file hcontract
      hfile hok
    have hresp := (@procRead_at head args { env with stack := stack, page := page } file hcontract hfile
      hpos).2
    rw [hresp, hwanted, hnone, hnone]
    exact ⟨rfl, rfl⟩

end Handler

/-- A `vfs_read` on the content of a file. -/
def vfsReadAt (file : RegFile) (count : Nat) (pos : Int) : VfsRead :=
  if 0 ≤ pos then
    { ret := ((file.content.drop pos.toNat).take count).length
      bytes := (file.content.drop pos.toNat).take count
      pos := pos + ((file.content.drop pos.toNat).take count).length }
  else ⟨-einval, [], pos⟩

theorem vfsReadAt_contract : VfsReadContract vfsReadAt := by
  refine ⟨?_, ?_⟩
  · intro file count pos hpos
    rw [vfsReadAt, if_pos hpos]
    exact ⟨rfl, rfl⟩
  · intro file count pos hneg
    rw [vfsReadAt, if_neg (by omega)]
    exact show (-einval : Int) < 0 by decide

/-- The table with one entry, of the file `/a` with the number 5. -/
def fileTable : Head := some [⟨5, [slash, 0x61], pathA.hclean⟩]

/-- A READ of one byte at offset 0 of that file. -/
def readFirstByte : ReadArgs := ⟨zeroFh.print 5, [], 0, 1, by decide⟩

def readEnv (file : RegFile) (stack : BitVec 64) : ReadEnv :=
  { opening := ⟨true, [], fun _ => .ok file⟩, vfsRead := vfsReadAt, page := [], stack := stack }

theorem empty_file_read_requested :
    ReadsRequested fileTable readFirstByte (readEnv ⟨[], by decide⟩ 0) ⟨[], by decide⟩ :=
  (read_requested_iff fileTable readFirstByte (readEnv ⟨[], by decide⟩ 0) ⟨[], by decide⟩ vfsReadAt_contract
    rfl).mpr (Or.inr rfl)

/-- With 1 on the stack a file of one byte is read at its end. -/
theorem one_byte_file_read_nothing :
    ¬ ReadsRequested fileTable readFirstByte (readEnv ⟨[0x61], by decide⟩ 0) ⟨[0x61], by decide⟩ := by
  intro hreads
  have hcount := (hreads 1 [] _ rfl (by decide)).1
  exact absurd hcount (by decide)

/-! ### The reply -/

/-- The two sides agree on a reply with `res` as its result: the page part has the length of the data,
the client's page starts where the data does and holds it, and the client hands on the count. -/
structure ReadAgrees (rephdr : Nat) (rcv : RcvBuf) (svc : SvcRes) (res : ReadRes) (stale : List Byte)
    (stack : BitVec 64) : Prop where
  pageLen : svc.pageLen = res.count.toNat
  front : svc.head.length = rcv.headLen
  data : (rcv.receive (svc.head ++ res.page.take svc.pageLen) stale).2.take res.count.toNat =
    res.page.take res.count.toNat
  count : vsnfsProcRead ((rcv.receive (svc.head ++ res.page.take svc.pageLen) stale).1.drop (4 * rephdr)) stack =
    some (0, (res.count.toNat : Int))

theorem dispatchRead_served (svc : SvcRes) (head : Head) (args : ReadArgs) (env : ReadEnv)
    (hok : (vsnfsdProcRead head args env).status = some (vsnfserr .ok)) :
    ∃ statp, dispatchRead svc head (some args) env =
      some ⟨statp, (vsnfssvcEncodeReadres (svc.emit (leBytes 0))
        (vsnfsdProcRead head args env).resp.count).1, some (vsnfsdProcRead head args env).resp⟩ := by
  refine ⟨if (vsnfssvcEncodeReadres (svc.emit (leBytes 0))
    (vsnfsdProcRead head args env).resp.count).2 then .success else .systemErr, ?_⟩
  simp only [dispatchRead, vsnfsdDispatch, hok, vsnfserr_ok]
  rfl

/-- **The two sides of READ never agree.** After a READ with status OK, whatever its data: the page
length is the offset of a pointer into the head, the data begins one word behind the place where the
client's page begins, and the client's count is what its stack held. -/
theorem read_reply_disagrees (rephdr : Nat) (svc : SvcRes) (hsvc : svc.head.length = 4 * rephdr)
    (head : Head) (args : ReadArgs) (env : ReadEnv)
    (hok : (vsnfsdProcRead head args env).status = some (vsnfserr .ok))
    (fh : VsnfsFh) (offset length : Word) (stale : List Byte) (stack : BitVec 64) :
    ∃ out res, dispatchRead svc head (some args) env = some out ∧ out.resp = some res ∧
      ¬ ReadAgrees rephdr (vsnfsXdrReadargs rephdr fh offset length).2 out.svc res stale stack ∧
      out.svc.pageLen = pageLenOf (svc.base + (4 * rephdr + 8)) ∧
      out.svc.head.length = (vsnfsXdrReadargs rephdr fh offset length).2.headLen + 4 ∧
      vsnfsProcRead (((vsnfsXdrReadargs rephdr fh offset length).2.receive
        (out.svc.head ++ res.page.take out.svc.pageLen) stale).1.drop (4 * rephdr)) stack =
          some (0, (stack.setWidth 32).toInt) := by
  obtain ⟨statp, hout⟩ := dispatchRead_served svc head args env hok
  have hhead : (vsnfssvcEncodeReadres (svc.emit (leBytes 0))
      (vsnfsdProcRead head args env).resp.count).1.head = svc.head ++ leBytes 0 ++
        leBytes (htonl ((vsnfsdProcRead head args env).resp.count.setWidth 32)) := rfl
  have hreserved : (vsnfsXdrReadargs rephdr fh offset length).2.headLen = (svc.head ++ leBytes 0).length := by
    rw [List.length_append, hsvc, leBytes_length]
    exact Nat.mul_succ 4 rephdr
  have hfront : (vsnfssvcEncodeReadres (svc.emit (leBytes 0))
      (vsnfsdProcRead head args env).resp.count).1.head.length =
        (vsnfsXdrReadargs rephdr fh offset length).2.headLen + 4 := by
    rw [hhead, hreserved, List.length_append, leBytes_length]
  refine ⟨_, _, hout, rfl, ?_, ?_, hfront, ?_⟩
  · intro hagrees
    have hsame := hagrees.front.symm.trans hfront
    omega
  · change pageLenOf (svc.base + (svc.head ++ leBytes 0 ++
      leBytes (htonl ((vsnfsdProcRead head args env).resp.count.setWidth 32))).length) = _
    rw [List.length_append, List.length_append, leBytes_length, leBytes_length, hsvc]
  · -- the head is cut behind the status, which is OK
    rw [RcvBuf.receive, hreserved, hhead, List.append_assoc, List.take_left, ← hsvc, List.drop_left]
    rfl

/-- One byte read from a file, and 77 on the client's stack. -/
theorem one_byte_reply_disagrees :
    ∃ out res, dispatchRead ⟨0, [], 0⟩ fileTable (some readFirstByte) (readEnv ⟨[0x61], by decide⟩ 0) =
        some out ∧ out.resp = some res ∧
      ¬ ReadAgrees 0 (vsnfsXdrReadargs 0 (zeroFh.print 5) 0 1).2 out.svc res [] 77 := by
  obtain ⟨out, res, hout, hres, hdisagrees, -⟩ := read_reply_disagrees 0 ⟨0, [], 0⟩ rfl fileTable
    readFirstByte (readEnv ⟨[0x61], by decide⟩ 0) (by decide) (zeroFh.print 5) 0 1 [] 77
  exact ⟨out, res, hout, hres, hdisagrees⟩

/-- All three parts fail for that byte: a page length of 8, two words in front of the page where one
is reserved, and a count of 77. -/
theorem one_byte_reply_parts_fail :
    ∃ out res, dispatchRead ⟨0, [], 0⟩ fileTable (some readFirstByte) (readEnv ⟨[0x61], by decide⟩ 0) =
        some out ∧ out.resp = some res ∧ res.count = 1 ∧ out.svc.pageLen = 8 ∧ out.svc.head.length = 8 ∧
      (vsnfsXdrReadargs 0 (zeroFh.print 5) 0 1).2.headLen = 4 ∧
      vsnfsProcRead out.svc.head 77 = some (0, 77) ∧
      ¬ ReadAgrees 0 (vsnfsXdrReadargs 0 (zeroFh.print 5) 0 1).2 out.svc res [] 77 := by
  obtain ⟨statp, hout⟩ := dispatchRead_served ⟨0, [], 0⟩ fileTable readFirstByte
    (readEnv ⟨[0x61], by decide⟩ 0) (by decide)
  refine ⟨_, _, hout, rfl, by decide, rfl, rfl, rfl, rfl, ?_⟩
  intro hagrees
  exact absurd hagrees.front (show (8 : Nat) ≠ 4 by decide)

end Vsnfs
