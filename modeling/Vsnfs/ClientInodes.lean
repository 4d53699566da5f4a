import Vsnfs.BaseRun
import Vsnfs.ClientXdr

/-! The client's inodes. `vsnfs_fhget` looks an inode up by the number its handle spells and fills in a
new one; the kernel's inode cache is a map from numbers to inodes that lives as long as the mount. A
handle that is neither a file's nor a directory's takes the error label, but the pointer it returns
there is still the inode's: the caller gets an inode with no handle in it, and so does every later
request for the number, until the kernel drops it. -/

namespace Vsnfs

open Base

abbrev vsnfsMaxdata : Nat := 4096

abbrev vsnfsDirsize : Nat := 4096

/-- `S_NOATIME | S_NOCMTIME`. -/
abbrev noTimes : Word := 2 ||| 128

/-- `S_IFREG | S_IRWXUGO`. -/
abbrev regMode : BitVec 16 := 0o100000 ||| 0o777

/-- `S_IFDIR | S_IALLUGO`. -/
abbrev dirMode : BitVec 16 := 0o040000 ||| 0o7777

/-- What `i_op` and `i_fop` may point to: the kernel's empty tables, those of a file, those of a
directory. -/
inductive Operations where
  | empty | file | dir
  deriving DecidableEq

/-- The fields of `struct inode` that the client sets; `iPrivate` is the handle the pointer leads to. -/
structure ClientInode where
  iIno : BitVec 64
  iFlags : Word
  iOp : Operations
  iFop : Operations
  iMode : BitVec 16
  iSize : Nat
  iNlink : Nat
  iUid : Nat
  iGid : Nat
  iPrivate : Option VsnfsFh
  deriving DecidableEq

/-- The inodes the kernel keeps for one superblock. -/
abbrev InodeCache := BitVec 64 → Option ClientInode

def InodeCache.store (cache : InodeCache) (ino : BitVec 64) (inode : Option ClientInode) : InodeCache :=
  fun other => if other = ino then inode else cache other

@[simp] theorem InodeCache.store_self (cache : InodeCache) (ino : BitVec 64) (inode : Option ClientInode) :
    cache.store ino inode ino = inode := if_pos rfl

theorem InodeCache.store_other (cache : InodeCache) {ino other : BitVec 64} (inode : Option ClientInode)
    (h : other ≠ ino) : cache.store ino inode other = cache other := if_neg h

/-- `iget_locked`: a cached inode, or a new one with `I_NEW` set, or a null pointer when there is no
memory for one. `alloc` is the inode the allocator gives. -/
inductive Iget where
  | null
  | found (inode : ClientInode)
  | new (inode : ClientInode)
  deriving DecidableEq

def igetLocked (cache : InodeCache) (ino : BitVec 64) (alloc : Option ClientInode) : Iget :=
  match cache ino with
  | some inode => .found inode
  | none =>
      match alloc with
      | some inode => .new inode
      | none => .null

/-- The tail that both supported types share: the owner and the handle. -/
def ClientInode.adopt (inode : ClientInode) (fh : VsnfsFh) : ClientInode :=
  { inode with iUid := 0, iGid := 0, iPrivate := some fh }

/-- `vsnfs_fhget`; `after` is the memory behind the handle, where a text without an end goes on. The
pointer returned is an inode or an `ERR_PTR`. -/
def vsnfsFhget (cache : InodeCache) (fh : VsnfsFh) (after : List Byte) (alloc : Option ClientInode) :
    Except Int ClientInode × InodeCache :=
  let hash := fh.ino after
  match igetLocked cache hash alloc with
  | .null => (.error (-enomem), cache)
  | .found inode => (.ok inode, cache)
  | .new inode =>
      let inode := { inode with iIno := hash, iFlags := inode.iFlags ||| noTimes, iOp := .file }
      if fh.type = vsnfsReg then
        let inode := { inode with iFop := .file, iMode := regMode, iSize := vsnfsMaxdata }
        (.ok (inode.adopt fh), cache.store hash (some (inode.adopt fh)))
      else if fh.type = vsnfsDir then
        let inode := { inode with
          iOp := .dir, iFop := .dir, iMode := dirMode, iSize := vsnfsDirsize, iNlink := 2 }
        (.ok (inode.adopt fh), cache.store hash (some (inode.adopt fh)))
      else
        -- `goto out_no_inode` from here: unlocked and released, and returned all the same.
        (.ok inode, cache.store hash (some inode))

/-! ### Runs -/

/-- A call of `vsnfs_fhget` by a mount or a lookup, or the kernel dropping an inode nobody uses. -/
inductive InodeEvent where
  | fhget (fh : VsnfsFh) (after : List Byte) (alloc : Option ClientInode)
  | evict (ino : BitVec 64)

def inodeStep (cache : InodeCache) : InodeEvent → InodeCache
  | .fhget fh after alloc => (vsnfsFhget cache fh after alloc).2
  | .evict ino => cache.store ino none

/-- The cache of a new superblock. -/
def noInodes : InodeCache := fun _ => none

def VsnfsFh.Supported (fh : VsnfsFh) : Prop := fh.type = vsnfsReg ∨ fh.type = vsnfsDir

instance (fh : VsnfsFh) : Decidable fh.Supported := inferInstanceAs (Decidable (_ ∨ _))

/-- The mode and the operations are those of a file or of a directory, as the type says. -/
def ClientInode.Typed (inode : ClientInode) (type : Word) : Prop :=
  (type = vsnfsReg ∧ inode.iMode = regMode ∧ inode.iOp = .file ∧ inode.iFop = .file) ∨
    (type = vsnfsDir ∧ inode.iMode = dirMode ∧ inode.iOp = .dir ∧ inode.iFop = .dir)

/-- A finished inode of this number: the handle in it spells the number, whatever comes to lie behind
it, and the inode is of the handle's type. -/
def ClientInode.Serves (inode : ClientInode) (ino : BitVec 64) : Prop :=
  inode.iIno = ino ∧
    ∃ stored, inode.iPrivate = some stored ∧ (∀ after, stored.ino after = ino) ∧ inode.Typed stored.type

/-- What a call may return for a handle: an error pointer, or for a supported type a finished inode of
the number the handle spells. -/
def FhgetSound (fh : VsnfsFh) (after : List Byte) : Except Int ClientInode → Prop
  | .error _ => True
  | .ok inode => fh.Supported ∧ inode.Serves (fh.ino after)

/-- The event as a whole: a call returns what it may. -/
def InodeEvent.Sound (cache : InodeCache) : InodeEvent → Prop
  | .fhget fh after alloc => FhgetSound fh after (vsnfsFhget cache fh after alloc).1
  | .evict _ => True

/-- The type is supported, or the kernel has no inode to give. -/
def InodeEvent.Admitted (cache : InodeCache) : InodeEvent → Prop
  | .fhget fh after alloc => fh.Supported ∨ igetLocked cache (fh.ino after) alloc = .null
  | .evict _ => True

/-- The invariant: every cached inode is a finished one of its number. -/
def CacheServes (cache : InodeCache) : Prop :=
  ∀ ino inode, cache ino = some inode → inode.Serves ino

/-- The byte of a supported type that follows the text ends it. -/
theorem VsnfsFh.Supported.ino_congr {fh : VsnfsFh} (hfh : fh.Supported) (after after' : List Byte) :
    fh.ino after = fh.ino after' := by
  have hlength : 3 ≤ fh.data.length := by
    rw [fh.hdata]
    decide
  have hbytes : ∃ stop rest, leBytes fh.type = stop :: rest ∧ digitValue stop = none := by
    obtain htype | htype := hfh
    · exact ⟨1, [0, 0, 0], by rw [htype]; decide, by decide⟩
    · exact ⟨2, [0, 0, 0], by rw [htype]; decide, by decide⟩
  obtain ⟨stop, rest, htype, hstop⟩ := hbytes
  simp only [VsnfsFh.ino, htype, List.append_assoc, List.cons_append]
  exact simpleStrtoul_stop hlength hstop _ _

/-- Everything a call can do. -/
theorem vsnfsFhget_cases (cache : InodeCache) (fh : VsnfsFh) (after : List Byte)
    (alloc : Option ClientInode) :
    (igetLocked cache (fh.ino after) alloc = .null ∧
      vsnfsFhget cache fh after alloc = (.error (-enomem), cache)) ∨
    (∃ inode, cache (fh.ino after) = some inode ∧
      vsnfsFhget cache fh after alloc = (.ok inode, cache)) ∨
    (∃ inode, cache (fh.ino after) = none ∧ (fh.Supported → inode.Serves (fh.ino after)) ∧
      vsnfsFhget cache fh after alloc = (.ok inode, cache.store (fh.ino after) (some inode))) := by
  cases hcache : cache (fh.ino after) with
  | some inode =>
      refine .inr (.inl ⟨inode, rfl, ?_⟩)
      simp only [vsnfsFhget, igetLocked, hcache]
  | none =>
      cases alloc with
      | none =>
          refine .inl ⟨by simp only [igetLocked, hcache], ?_⟩
          simp only [vsnfsFhget, igetLocked, hcache]
      | some inode =>
          refine .inr (.inr ?_)
          simp only [vsnfsFhget, igetLocked, hcache]
          by_cases hreg : fh.type = vsnfsReg
          · rw [if_pos hreg]
            refine ⟨_, trivial, fun hfh => ⟨rfl, fh, rfl, fun other => hfh.ino_congr other after, ?_⟩, rfl⟩
            exact .inl ⟨hreg, rfl, rfl, rfl⟩
          · rw [if_neg hreg]
            by_cases hdir : fh.type = vsnfsDir
            · rw [if_pos hdir]
              refine ⟨_, trivial, fun hfh => ⟨rfl, fh, rfl, fun other => hfh.ino_congr other after, ?_⟩,
                rfl⟩
              exact .inr ⟨hdir, rfl, rfl, rfl⟩
            · rw [if_neg hdir]
              exact ⟨_, trivial, fun hfh => absurd hfh (not_or.mpr ⟨hreg, hdir⟩), rfl⟩

/-- An admitted call that returns an inode was for a supported type. -/
theorem supported_of_returned {cache cache' : InodeCache} {fh : VsnfsFh} {after : List Byte}
    {alloc : Option ClientInode} {inode : ClientInode}
    (hadmitted : (InodeEvent.fhget fh after alloc).Admitted cache)
    (hreturned : vsnfsFhget cache fh after alloc = (.ok inode, cache')) : fh.Supported := by
  refine hadmitted.resolve_right fun hnull => ?_
  simp [vsnfsFhget, hnull] at hreturned

theorem cacheServes_noInodes : CacheServes noInodes := fun _ _ h => nomatch h

/-- One event keeps the invariant. -/
theorem inodeStep_serves (cache : InodeCache) (event : InodeEvent) (hcache : CacheServes cache)
    (hadmitted : event.Admitted cache) : CacheServes (inodeStep cache event) := by
  cases event with
  | evict ino =>
      intro other inode hother
      by_cases heq : other = ino
      · rw [inodeStep, heq, InodeCache.store_self] at hother
        cases hother
      · rw [inodeStep, InodeCache.store_other _ _ heq] at hother
        exact hcache other inode hother
  | fhget fh after alloc =>
      obtain ⟨-, heq⟩ | ⟨_, -, heq⟩ | ⟨inode, hnone, hserves, heq⟩ := vsnfsFhget_cases cache fh after alloc
      · rwa [inodeStep, heq]
      · rwa [inodeStep, heq]
      · have hfh := supported_of_returned hadmitted heq
        intro other found hother
        rw [inodeStep, heq] at hother
        simp only at hother
        by_cases hino : other = fh.ino after
        · rw [hino, InodeCache.store_self] at hother
          cases hother
          exact hino ▸ hserves hfh
        · rw [InodeCache.store_other _ _ hino] at hother
          exact hcache other found hother

/-- In a cache of finished inodes an admitted call returns what it may. -/
theorem sound_of_admitted (cache : InodeCache) (event : InodeEvent) (hcache : CacheServes cache)
    (hadmitted : event.Admitted cache) : event.Sound cache := by
  cases event with
  | evict ino => trivial
  | fhget fh after alloc =>
      rw [InodeEvent.Sound]
      obtain ⟨-, heq⟩ | ⟨inode, hsome, heq⟩ | ⟨inode, hnone, hserves, heq⟩ :=
        vsnfsFhget_cases cache fh after alloc
      · rw [heq]
        trivial
      · rw [heq]
        exact ⟨supported_of_returned hadmitted heq, hcache _ inode hsome⟩
      · have hfh := supported_of_returned hadmitted heq
        rw [heq]
        exact ⟨hfh, hserves hfh⟩

/-- A call that returns an inode only for a supported type is admitted, in any cache. -/
theorem admitted_of_sound (cache : InodeCache) (event : InodeEvent) (hsound : event.Sound cache) :
    event.Admitted cache := by
  cases event with
  | evict ino => trivial
  | fhget fh after alloc =>
      rw [InodeEvent.Sound] at hsound
      obtain ⟨hnull, -⟩ | ⟨inode, -, heq⟩ | ⟨inode, -, -, heq⟩ := vsnfsFhget_cases cache fh after alloc
      · exact .inr hnull
      · rw [heq] at hsound
        exact .inl hsound.1
      · rw [heq] at hsound
        exact .inl hsound.1

/-- **Which runs hand out finished inodes only.** Every call of a run returns an error pointer or a
finished inode of its number and of a supported type exactly when no call passes a handle of another
type to a kernel that has an inode to give. -/
theorem fhget_run_sound_iff (events : List InodeEvent) :
    Along inodeStep InodeEvent.Sound noInodes events ↔
      Along inodeStep InodeEvent.Admitted noInodes events := by
  constructor
  · intro halong
    exact Along.imp_of_invariant (I := fun _ => True) (fun _ _ _ _ => trivial)
      (fun cache event _ hsound => admitted_of_sound cache event hsound) trivial halong
  · intro halong
    exact Along.imp_of_invariant inodeStep_serves sound_of_admitted cacheServes_noInodes halong

/-- What the allocator gives: no operations, no handle. -/
def newInode : ClientInode := ⟨0, 0, .empty, .empty, 0, 0, 1, 0, 0, none⟩

/-- The handle of a socket or a device, number 7. -/
def otherFh : VsnfsFh := ⟨[0x37, 0, 0, 0, 0, 0, 0, 0], rfl, 3⟩

/-- A handle of type `VSNFS_OTHER` is answered with an inode that has no handle in it, and the directory
that later has the number is answered with the same inode. -/
theorem fhget_run_unsound :
    let directory : VsnfsFh := ⟨otherFh.data, otherFh.hdata, vsnfsDir⟩
    let events : List InodeEvent := [.fhget otherFh [] (some newInode), .fhget directory [] none]
    ¬ Along inodeStep InodeEvent.Sound noInodes events ∧
      ∃ inode, vsnfsFhget noInodes otherFh [] (some newInode) = (.ok inode, noInodes.store 7 (some inode)) ∧
        inode.iPrivate = none ∧
        (vsnfsFhget (noInodes.store 7 (some inode)) directory [] none).1 = .ok inode := by
  refine ⟨fun halong => absurd halong.1.1 (by decide), _, rfl, rfl, rfl⟩

end Vsnfs
