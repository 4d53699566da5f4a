import Vsnfs.ClientInodes
import Vsnfs.StatusTables

/-! A lookup on the client, from the reply's status word to what the VFS is told. Four layers hand the
result on: the decoder turns the status into an error number, the RPC call returns it,
`vsnfs_do_lookup` puts one fixed number in the place of every error, and `vsnfs_lookup` then asks for
`-ENOENT`, which can no longer arrive. -/

namespace Vsnfs

open Base

abbrev enametoolong : Int := 36

/-- What a call of `vsnfs_lookup` works with: the directory and the name, what the new handle's memory
holds and what lies behind it, whether there is memory for the arguments, the reply head the server
gives to a request, and the inode the allocator has. -/
structure LookupCall where
  dir : ClientInode
  name : List Byte
  newfh : VsnfsFh
  after : List Byte
  argpAlloc : Bool
  rpc : List Byte → List Byte
  inodeAlloc : Option ClientInode

/-- `fetched` says whether `vsnfs_fhget` was reached. The result is the error number of an `ERR_PTR`, or
the inode that `d_materialise_unique` gets; without one the dentry is negative. -/
structure ClientLookup where
  fetched : Bool
  returned : Except Int (Option ClientInode)
  cache : InodeCache

/-- The call returns what the decoder returned. -/
def vsnfsProcLookup (rpc : List Byte → List Byte) (dirFh : VsnfsFh) (name : List Byte) (fh : VsnfsFh) :
    Option (Int × VsnfsFh) :=
  vsnfsXdrFh (rpc (vsnfsXdrLookupargs dirFh name)) fh

/-- There is no result from a directory without a handle, which the source answers with `BUG_ON`. -/
def vsnfsDoLookup (call : LookupCall) : Option (Int × VsnfsFh) :=
  if call.argpAlloc = false then some (-enomem, call.newfh)
  else
    match call.dir.iPrivate with
    | none => none
    | some dirFh =>
        match vsnfsProcLookup call.rpc dirFh call.name call.newfh with
        | none => none
        | some (ret, fh) =>
            if ret = 0 then some (0, fh)
            else some (-VsnfsStat.remote.code, fh)

def vsnfsLookup (cache : InodeCache) (call : LookupCall) : Option ClientLookup :=
  if vsnfsMaxnamlen < call.name.length then some ⟨false, .error (-enametoolong), cache⟩
  else
    match vsnfsDoLookup call with
    | none => none
    | some (ret, newfh) =>
        if ret = -enoent then some ⟨false, .ok none, cache⟩
        else if ret < 0 then some ⟨false, .error ret, cache⟩
        else
          match vsnfsFhget cache newfh call.after call.inodeAlloc with
          | (.error _, cache) => some ⟨true, .error (-einval), cache⟩
          | (.ok inode, cache) => some ⟨true, .ok (some inode), cache⟩

/-- A reply with this status word; with `VSNFS_OK` a handle follows it. -/
def LookupCall.Answered (call : LookupCall) (dirFh : VsnfsFh) (stat : Word) : Prop :=
  ∃ body, call.rpc (vsnfsXdrLookupargs dirFh call.name) = leBytes (htonl stat) ++ body ∧
    (stat = BitVec.ofNat 32 VsnfsStat.ok.code → ∃ fh tail, body = xdrEncodeFhandle fh ++ tail)

/-- The VFS is told what the status says: a negative dentry, a fetched inode, or its error number. -/
def StatusPassedOn (stat : Word) (lookup : ClientLookup) : Prop :=
  if stat = BitVec.ofNat 32 VsnfsStat.noent.code then
    lookup.fetched = false ∧ lookup.returned = .ok none
  else if stat = BitVec.ofNat 32 VsnfsStat.ok.code then lookup.fetched = true
  else lookup.fetched = false ∧ lookup.returned = .error (vsnfsStatToErrno stat.toInt)

theorem replyStatus_append (stat : Word) (body : List Byte) :
    replyStatus (leBytes (htonl stat) ++ body) = some (stat.toInt, body) := by
  rw [replyStatus, take32_leBytes]
  simp only [htonl_htonl]

/-- The decoder returns the error number of the status, in every case. -/
theorem vsnfsXdrFh_of_status {stat : Word} {body : List Byte} (fh : VsnfsFh)
    (hbody : stat = BitVec.ofNat 32 VsnfsStat.ok.code → ∃ fh tail, body = xdrEncodeFhandle fh ++ tail) :
    ∃ fh', vsnfsXdrFh (leBytes (htonl stat) ++ body) fh = some (vsnfsStatToErrno stat.toInt, fh') := by
  rw [vsnfsXdrFh, replyStatus_append]
  simp only
  by_cases hok : stat.toInt = 0
  · obtain ⟨fh', tail, rfl⟩ := hbody ((word_eq_ok_iff stat).mpr hok)
    refine ⟨fh', ?_⟩
    rw [if_neg (not_not.mpr hok), xdrDecodeFhandle_append, hok]
    rfl
  · exact ⟨fh, if_pos hok⟩

/-- One number stands for every error. -/
theorem vsnfsDoLookup_of_status {call : LookupCall} {dirFh : VsnfsFh} {stat : Word}
    (hdir : call.dir.iPrivate = some dirFh) (halloc : call.argpAlloc = true)
    (hanswer : call.Answered dirFh stat) :
    ∃ fh, vsnfsDoLookup call =
      some ((if vsnfsStatToErrno stat.toInt = 0 then 0 else -VsnfsStat.remote.code : Int), fh) := by
  obtain ⟨body, hreply, hbody⟩ := hanswer
  obtain ⟨fh, hdecode⟩ := vsnfsXdrFh_of_status call.newfh hbody
  refine ⟨fh, ?_⟩
  rw [vsnfsDoLookup, halloc, if_neg (by decide), hdir]
  simp only [vsnfsProcLookup, hreply, hdecode]
  split <;> rfl

/-- A status with error number 0 leads to `vsnfs_fhget`, every other one to the same error. -/
theorem vsnfsLookup_of_status (cache : InodeCache) {call : LookupCall} {dirFh : VsnfsFh} {stat : Word}
    (hname : call.name.length ≤ vsnfsMaxnamlen) (hdir : call.dir.iPrivate = some dirFh)
    (halloc : call.argpAlloc = true) (hanswer : call.Answered dirFh stat) :
    ∃ lookup, vsnfsLookup cache call = some lookup ∧
      (vsnfsStatToErrno stat.toInt = 0 → lookup.fetched = true) ∧
      (vsnfsStatToErrno stat.toInt ≠ 0 →
        lookup.fetched = false ∧ lookup.returned = .error (-VsnfsStat.remote.code)) := by
  obtain ⟨fh, hdo⟩ := vsnfsDoLookup_of_status hdir halloc hanswer
  rw [vsnfsLookup, if_neg (by omega), hdo]
  simp only
  by_cases hzero : vsnfsStatToErrno stat.toInt = 0
  · rw [if_pos hzero, if_neg (by decide), if_neg (by decide)]
    cases vsnfsFhget cache fh call.after call.inodeAlloc with
    | mk result cache =>
        cases result with
        | error errno => exact ⟨_, rfl, fun _ => rfl, fun hne => absurd hzero hne⟩
        | ok inode => exact ⟨_, rfl, fun _ => rfl, fun hne => absurd hzero hne⟩
  · rw [if_neg hzero, if_neg (by decide), if_pos (by decide)]
    exact ⟨_, rfl, fun heq => absurd heq hzero, fun _ => ⟨rfl, rfl⟩⟩

/-- No status has the number that stands for all of them. -/
theorem vsnfsStatToErrno_ne_remote (stat : Int) : vsnfsStatToErrno stat ≠ -VsnfsStat.remote.code := by
  have hrows : ∀ row ∈ vsnfsErrtbl, row.2 ≠ -VsnfsStat.remote.code := by decide
  obtain ⟨row, hrow, -, herrno⟩ | ⟨-, herrno⟩ := vsnfsStatToErrno_cases stat
  · exact herrno ▸ hrows row hrow
  · exact herrno ▸ by decide

/-- **Only success is passed on.** Whatever the reply's status word, the lookup returns, and the VFS is
told what the word says exactly when the word is `VSNFS_OK`. -/
theorem lookup_status_passed_iff (cache : InodeCache) (call : LookupCall) (dirFh : VsnfsFh) (stat : Word)
    (hname : call.name.length ≤ vsnfsMaxnamlen) (hdir : call.dir.iPrivate = some dirFh)
    (halloc : call.argpAlloc = true) (hanswer : call.Answered dirFh stat) :
    ∃ lookup, vsnfsLookup cache call = some lookup ∧
      (StatusPassedOn stat lookup ↔ stat = BitVec.ofNat 32 VsnfsStat.ok.code) := by
  obtain ⟨lookup, hlookup, hzero, herror⟩ := vsnfsLookup_of_status cache hname hdir halloc hanswer
  refine ⟨lookup, hlookup, ?_⟩
  rw [StatusPassedOn]
  by_cases hnoent : stat = BitVec.ofNat 32 VsnfsStat.noent.code
  · -- `-ENOENT` is in the table, and is replaced like the others.
    obtain ⟨-, hreturned⟩ := herror (by rw [hnoent]; decide)
    rw [if_pos hnoent, hreturned, hnoent]
    exact iff_of_false (fun h => nomatch h.2) (by decide)
  · rw [if_neg hnoent]
    by_cases hok : stat = BitVec.ofNat 32 VsnfsStat.ok.code
    · rw [if_pos hok]
      exact iff_of_true (hzero (by rw [hok]; decide)) hok
    · rw [if_neg hok]
      refine iff_of_false (fun hpassed => ?_) hok
      by_cases herrno : vsnfsStatToErrno stat.toInt = 0
      · exact absurd ((hzero herrno).symm.trans hpassed.1) (by decide)
      · have heq := (herror herrno).2.symm.trans hpassed.2
        exact vsnfsStatToErrno_ne_remote stat.toInt (Except.error.inj heq).symm

/-- A lookup of the one-letter name `x` in a mounted directory, answered with the given reply. -/
def lookupOfX (reply : List Byte) : LookupCall where
  dir := newInode.adopt ⟨otherFh.data, otherFh.hdata, vsnfsDir⟩
  name := [charByte 'x']
  newfh := ⟨[0, 0, 0, 0, 0, 0, 0, 0], rfl, 0⟩
  after := []
  argpAlloc := true
  rpc := fun _ => reply
  inodeAlloc := some newInode

/-- A success with a handle behind it reaches `vsnfs_fhget`. -/
theorem lookup_status_passed_ok :
    ∃ lookup, vsnfsLookup noInodes (lookupOfX (leBytes (htonl 0) ++ xdrEncodeFhandle otherFh)) =
      some lookup ∧ StatusPassedOn 0 lookup := by
  obtain ⟨lookup, hlookup, hiff⟩ :=
    lookup_status_passed_iff noInodes (lookupOfX (leBytes (htonl 0) ++ xdrEncodeFhandle otherFh))
      ⟨[0x37, 0, 0, 0, 0, 0, 0, 0], rfl, vsnfsDir⟩ 0 (by decide) rfl rfl
      ⟨xdrEncodeFhandle otherFh, rfl, fun _ => ⟨otherFh, [], (List.append_nil _).symm⟩⟩
  exact ⟨lookup, hlookup, hiff.mpr rfl⟩

/-- The server's answer for a missing file gives `-71` and no negative dentry. -/
theorem lookup_noent_not_passed :
    ∃ lookup, vsnfsLookup noInodes (lookupOfX (leBytes (vsnfserr .noent))) = some lookup ∧
      lookup.returned = .error (-71) ∧ ¬ StatusPassedOn (BitVec.ofNat 32 VsnfsStat.noent.code) lookup := by
  refine ⟨_, rfl, rfl, fun hpassed => ?_⟩
  rw [StatusPassedOn, if_pos rfl] at hpassed
  exact nomatch hpassed.2

end Vsnfs
