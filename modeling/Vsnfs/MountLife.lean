import Mathlib.Algebra.Order.Group.Multiset
import Vsnfs.BaseLedger
import Vsnfs.ClientMount
import Vsnfs.NetworkHandles

/-! The life of the mounts of one client. `vsnfs_get_sb` reads the options, creates the RPC client, asks the
server for the root, and makes a superblock with a root inode; `vsnfs_kill_sb` ends a mount. What a call
has allocated and not freed is kept in an account, by kind. -/

namespace Vsnfs

open Base

/-! ### What a mount allocates -/

/-- The record of the server, the string at `mnt_path`, the RPC client, the memory for the handle that the
server sends, the superblock with its inodes and dentries. -/
inductive Resource where
  | record | mntPath | rpcClient | handle | superBlock
  deriving DecidableEq

abbrev Held := Multiset Resource

/-- The arguments of a mount and the kernel's answers. `behind` is the memory behind the record, `after` that
behind the root's handle. -/
structure MountEnv where
  dev : DevName
  rawData : Option (List Byte)
  record : Bool
  behind : List Byte
  pton : Pton Word
  dup : Option (BitVec 64)
  rpcCreate : Option Failure
  resp : Option VsnfsFh
  rpc : List Byte → Except Failure (List Byte)
  sget : Option Failure
  after : List Byte
  inode : Option ClientInode
  dAllocRoot : Bool
  dObtainAlias : Option Failure

/-- The record as `kzalloc` gives it. -/
def MountEnv.zeroed (env : MountEnv) : VsnfsServer := ⟨0, 0, 0, 0, 0, List.replicate 48 0 ++ env.behind, none⟩

def vsnfsInitServer (env : MountEnv) : Int × VsnfsServer :=
  vsnfsParseMountOptions env.pton env.dup env.rawData env.dev env.zeroed

/-- GETROOT over a transport that may fail; the handle is then as it was. -/
def getrootCall (env : MountEnv) (path : List Byte) (resp : VsnfsFh) : Option (Int × VsnfsFh) :=
  match env.rpc (vsnfsXdrGetrootargs path) with
  | .error failure => some (failure.errno, resp)
  | .ok results => vsnfsProcGetroot (fun _ => results) path resp

/-- The result, `root_fh` and what is held then. There is none of this when there is no path or the reply is
no reply. -/
def vsnfsCreateRpcclient (env : MountEnv) (server : VsnfsServer) (held : Held) : Option (Int × VsnfsFh × Held) :=
  match server.mntPath with
  | none => none
  | some path =>
      match env.rpcCreate with
      | some failure => some (failure.errno, zeroFh, held)
      | none =>
          let held := held + {.rpcClient}
          match env.resp with
          | none => some (-enomem, zeroFh, held)
          | some resp =>
              let held := held + {.handle}
              match getrootCall env path resp with
              | none => none
              | some (ret, fh) =>
                  -- `kfree(resp)`, on every way out
                  let held := held.erase .handle
                  if ret = 0 then some (0, fh, held) else some (-VsnfsStat.remote.code, zeroFh, held)

/-- `sRoot` says whether the superblock has a root already. -/
def vsnfsSuperblockSetDummyRoot (sRoot dAllocRoot : Bool) : Int :=
  if sRoot then 0 else if dAllocRoot then 0 else -enomem

/-- The inode behind the dentry that is returned, or the number in the pointer, and the inodes of the
superblock. -/
def vsnfsGetRoot (env : MountEnv) (mntfh : VsnfsFh) : Except Int ClientInode × InodeCache :=
  match vsnfsFhget noInodes mntfh env.after env.inode with
  | (.error errno, cache) => (.error errno, cache)
  | (.ok inode, cache) =>
      let ret := vsnfsSuperblockSetDummyRoot false env.dAllocRoot
      if ret ≠ 0 then (.error ret, cache)
      else
        match env.dObtainAlias with
        | some failure => (.error failure.errno, cache)
        | none => (.ok inode, cache)

/-- A mounted superblock. -/
structure MountedSb where
  server : VsnfsServer
  rootFh : VsnfsFh
  root : ClientInode
  cache : InodeCache

/-- The result of `vsnfs_get_sb`, what it leaves allocated, and the superblock of a success. -/
structure SbResult where
  ret : Int
  held : Held
  mounted : Option MountedSb

/-- `none` when it was stopped by an invalid access: a null pointer is not what `IS_ERR` tests for, and
`dput` gets the pointer that stands for an error. -/
def vsnfsGetSb (env : MountEnv) : Option SbResult :=
  if env.record = false then none
  else
    let held : Held := {.record}
    let (ret, server) := vsnfsInitServer env
    let held := if server.mntPath.isSome then held + {.mntPath} else held
    if ret < 0 then some ⟨ret, held, none⟩
    else
      match vsnfsCreateRpcclient env server held with
      | none => none
      | some (ret, rootFh, held) =>
          if ret < 0 then some ⟨ret, held, none⟩
          else
            match env.sget with
            | some failure => some ⟨failure.errno, held.erase .record, none⟩
            | none =>
                match vsnfsGetRoot env rootFh with
                | (.error _, _) => none
                | (.ok inode, cache) => some ⟨0, held + {.superBlock}, some ⟨server, rootFh, inode, cache⟩⟩

/-- What `vsnfs_kill_sb` leaves: the superblock and the record are freed. -/
def vsnfsKillSb (held : Held) : Held := (held.erase .superBlock).erase .record

/-! ### The ways out of a mount -/

theorem parse_zeroed (env : MountEnv) :
    (env.dev.Accepted ∧ env.dup.isSome ∧ 0 ≤ (vsnfsInitServer env).1 ∧
        (vsnfsInitServer env).2.mntPath = some env.dev.path) ∨
      (¬ (env.dev.Accepted ∧ env.dup.isSome) ∧ (vsnfsInitServer env).1 < 0 ∧
        (vsnfsInitServer env).2.mntPath = none) := by
  by_cases haccepted : env.dev.Accepted
  · cases hdup : env.dup with
    | some pointer =>
        refine .inl ⟨haccepted, rfl, ?_, ?_⟩
        · rw [vsnfsInitServer, hdup]
          exact (vsnfsParseMountOptions_nonneg_iff _ _ _ _ _).mpr haccepted
        · rw [vsnfsInitServer, hdup, vsnfsParseMountOptions_of_accepted haccepted]
          exact (parseOptions_source _ _).1
    | none =>
        have hparse : vsnfsInitServer env =
            (-enomem, (env.zeroed.withDefaults.copied env.dev).setMntPath 0 none) := by
          rw [vsnfsInitServer, vsnfsParseMountOptions, vsnfsParseMntpath_accepted haccepted, hdup]
          rfl
        rw [hparse]
        exact .inr ⟨by simp, (by decide : -enomem < 0), rfl⟩
  · obtain ⟨hneg, hcopied⟩ := vsnfsParseMntpath_refused haccepted env.dup env.zeroed.withDefaults
    have hparse : vsnfsInitServer env = vsnfsParseMntpath env.dup env.dev env.zeroed.withDefaults := by
      rw [vsnfsInitServer, vsnfsParseMountOptions]
      simp only
      rw [if_pos (by omega)]
    rw [hparse]
    refine .inr ⟨fun h => haccepted h.1, hneg, ?_⟩
    rw [hcopied]
    rfl

/-- How `vsnfs_get_sb` ends, with what it leaves allocated. -/
inductive SbExit (env : MountEnv) : Option SbResult → Prop where
  | noRecord (hrecord : env.record = false) : SbExit env none
  | options (ret : Int) (hneg : ret < 0) (hrefused : ¬ (env.dev.Accepted ∧ env.dup.isSome)) :
      SbExit env (some ⟨ret, {.record}, none⟩)
  | noClient (failure : Failure) (hcreate : env.rpcCreate = some failure) :
      SbExit env (some ⟨failure.errno, {.record, .mntPath}, none⟩)
  | noHandle (hresp : env.resp = none) :
      SbExit env (some ⟨-enomem, {.record, .mntPath, .rpcClient}, none⟩)
  | noReply (resp : VsnfsFh) (hcall : getrootCall env env.dev.path resp = none) : SbExit env none
  | notMounted (resp fh : VsnfsFh) (ret : Int) (hcall : getrootCall env env.dev.path resp = some (ret, fh))
      (hret : ret ≠ 0) : SbExit env (some ⟨-VsnfsStat.remote.code, {.record, .mntPath, .rpcClient}, none⟩)
  | noSuper (failure : Failure) (hsget : env.sget = some failure) :
      SbExit env (some ⟨failure.errno, {.mntPath, .rpcClient}, none⟩)
  | noRoot (resp fh : VsnfsFh) (hcall : getrootCall env env.dev.path resp = some (0, fh)) (errno : Int)
      (hroot : (vsnfsGetRoot env fh).1 = .error errno) : SbExit env none
  | mounted (resp fh : VsnfsFh) (hresp : env.resp = some resp)
      (hcall : getrootCall env env.dev.path resp = some (0, fh)) (inode : ClientInode) (cache : InodeCache)
      (hroot : vsnfsGetRoot env fh = (.ok inode, cache)) :
      SbExit env (some ⟨0, {.record, .mntPath, .rpcClient, .superBlock},
        some ⟨(vsnfsInitServer env).2, fh, inode, cache⟩⟩)

theorem sb_exit (env : MountEnv) : SbExit env (vsnfsGetSb env) := by
  rw [vsnfsGetSb]
  cases hrecord : env.record with
  | false => exact .noRecord hrecord
  | true =>
      simp only [Bool.true_eq_false, if_false]
      obtain ⟨-, -, hret, hpath⟩ | ⟨hrefused, hneg, hpath⟩ := parse_zeroed env
      · simp only [hpath, Option.isSome_some, if_true, if_neg (Int.not_lt.mpr hret), vsnfsCreateRpcclient]
        cases hcreate : env.rpcCreate with
        | some failure =>
            simp only [failure.hneg, if_true]
            exact .noClient failure hcreate
        | none =>
            cases hresp : env.resp with
            | none => exact .noHandle hresp
            | some resp =>
                cases hcall : getrootCall env env.dev.path resp with
                | none =>
                    simp only [hcall]
                    exact .noReply resp hcall
                | some answer =>
                    obtain ⟨ret, fh⟩ := answer
                    simp only [hcall]
                    by_cases hzero : ret = 0
                    · subst hzero
                      simp only [if_true, lt_irrefl, if_false]
                      cases hsget : env.sget with
                      | some failure => exact .noSuper failure hsget
                      | none =>
                          cases hroot : vsnfsGetRoot env fh with
                          | mk result cache =>
                              cases result with
                              | error errno => exact .noRoot resp fh hcall errno (congrArg Prod.fst hroot)
                              | ok inode => exact .mounted resp fh hresp hcall inode cache hroot
                    · simp only [if_neg hzero]
                      exact .notMounted resp fh ret hcall hzero
      · simp only [hpath, Option.isSome_none, Bool.false_eq_true, if_false, if_pos hneg]
        exact .options _ hneg hrefused

/-! ### Mounts and unmounts -/

/-- The client's module: what it holds and its superblocks. After an invalid access nothing more is done. -/
structure ClientModule where
  held : Held
  mounted : List MountedSb
  down : Bool

def ClientModule.load : ClientModule := ⟨0, [], false⟩

inductive MountEvent where
  | mount (env : MountEnv)
  | umount (index : Nat)

def MountEvent.isMount : MountEvent → Bool
  | .mount _ => true
  | .umount _ => false

def mountStep (client : ClientModule) (event : MountEvent) : ClientModule :=
  if client.down then client
  else
    match event with
    | .mount env =>
        match vsnfsGetSb env with
        | none => { client with down := true }
        | some result =>
            { client with
              held := client.held + result.held
              mounted := result.mounted.toList ++ client.mounted }
    | .umount index =>
        if index < client.mounted.length then
          { client with held := vsnfsKillSb client.held, mounted := client.mounted.eraseIdx index }
        else client

/-- What a call leaves behind that no later one frees. -/
def leftBehind (client : ClientModule) : MountEvent → Held
  | .mount env =>
      if client.down then 0
      else
        match vsnfsGetSb env with
        | none => 0
        | some result => if result.mounted.isSome then {.mntPath, .rpcClient} else result.held
  | .umount _ => 0

/-- What is held is what the mounted superblocks need and what was left behind; among that is an RPC client
for each of them. -/
def AccountedFor (client : ClientModule) (left : Held) : Prop :=
  client.held = client.mounted.length • ({.record, .superBlock} : Held) + left ∧
    client.mounted.length ≤ left.count .rpcClient

theorem killSb_add (rest : Held) : vsnfsKillSb ({.record, .superBlock} + rest) = rest := by
  have hcons : ({.record, .superBlock} : Held) + rest = .superBlock ::ₘ .record ::ₘ rest := by
    rw [Multiset.insert_eq_cons, Multiset.cons_add, Multiset.singleton_add, Multiset.cons_swap]
  rw [vsnfsKillSb, hcons, Multiset.erase_cons_head, Multiset.erase_cons_head]

/-- A call that returns has made a superblock and returns 0, or it has not, returns an error and leaves
something behind. -/
theorem sb_returned {env : MountEnv} {result : SbResult} (hresult : vsnfsGetSb env = some result) :
    (∃ sb, result.mounted = some sb ∧ result.ret = 0 ∧
        result.held = {.record, .superBlock} + {.mntPath, .rpcClient}) ∨
      (result.mounted = none ∧ result.ret < 0 ∧ 1 ≤ result.held.card) := by
  have hexit := sb_exit env
  rw [hresult] at hexit
  cases hexit with
  | options ret hneg => exact .inr ⟨rfl, hneg, Nat.le_refl 1⟩
  | noClient failure => exact .inr ⟨rfl, failure.hneg, Nat.le_add_left 1 1⟩
  | noHandle => exact .inr ⟨rfl, by decide, by decide⟩
  | notMounted => exact .inr ⟨rfl, by decide, by decide⟩
  | noSuper failure => exact .inr ⟨rfl, failure.hneg, Nat.le_add_left 1 1⟩
  | mounted resp fh hresp hcall inode cache hroot =>
      refine .inl ⟨_, rfl, rfl, ?_⟩
      exact (by decide : ({.record, .mntPath, .rpcClient, .superBlock} : Held) =
        {.record, .superBlock} + {.mntPath, .rpcClient})

theorem mountStep_of_down {client : ClientModule} (hdown : client.down = true) (event : MountEvent) :
    mountStep client event = client ∧ leftBehind client event = 0 := by
  constructor
  · unfold mountStep
    rw [if_pos hdown]
  · cases event with
    | mount env => rw [leftBehind, if_pos hdown]
    | umount index => rfl

theorem mountStep_accounted (client : ClientModule) (event : MountEvent) (left : Held)
    (h : AccountedFor client left) : AccountedFor (mountStep client event) (left + leftBehind client event) := by
  by_cases hdown : client.down = true
  · obtain ⟨hstep, hleft⟩ := mountStep_of_down hdown event
    rw [hstep, hleft, add_zero]
    exact h
  obtain ⟨hheld, hclients⟩ := h
  cases event with
  | mount env =>
      rw [mountStep, leftBehind, if_neg hdown, if_neg hdown]
      cases hresult : vsnfsGetSb env with
      | none =>
          simp only [add_zero]
          exact ⟨hheld, hclients⟩
      | some result =>
          obtain ⟨sb, hmounted, -, hneeds⟩ | ⟨hmounted, -⟩ := sb_returned hresult
          · simp only [AccountedFor, hmounted, hneeds, hheld, Option.isSome_some, if_true, Option.toList_some,
              List.singleton_append, List.length_cons, succ_nsmul, Multiset.count_add]
            refine ⟨by ac_rfl, ?_⟩
            exact Nat.add_le_add hclients (by decide)
          · simp only [AccountedFor, hmounted, hheld, Option.isSome_none, Bool.false_eq_true, if_false,
              Option.toList_none, List.nil_append, Multiset.count_add]
            exact ⟨add_assoc _ _ _, hclients.trans (Nat.le_add_right _ _)⟩
  | umount index =>
      rw [mountStep, if_neg hdown, leftBehind, add_zero]
      split
      · rename_i hindex
        obtain ⟨others, hothers⟩ : ∃ others, client.mounted.length = others + 1 :=
          ⟨client.mounted.length - 1, by omega⟩
        have hlength : (client.mounted.eraseIdx index).length = others := by
          rw [List.length_eraseIdx_of_lt hindex, hothers]
          rfl
        refine ⟨?_, ?_⟩
        · simp only [hlength, hheld, hothers, succ_nsmul']
          rw [add_assoc, killSb_add]
        · simp only [hlength]
          omega
      · exact ⟨hheld, hclients⟩

/-! ### Every run -/

theorem runFrom_of_down {client : ClientModule} (hdown : client.down = true) (events : List MountEvent) :
    runFrom mountStep client events = client := by
  induction events with
  | nil => rfl
  | cons event events ih =>
      rw [runFrom, List.foldl_cons, (mountStep_of_down hdown event).1]
      exact ih

/-- In a run that is not stopped no step is. -/
theorem along_of_up {client : ClientModule} {events : List MountEvent}
    (hup : (runFrom mountStep client events).down = false) :
    Along mountStep (fun client event => client.down = false ∧ (mountStep client event).down = false) client
      events := by
  induction events generalizing client with
  | nil => trivial
  | cons event events ih =>
      have hrun : runFrom mountStep client (event :: events) =
          runFrom mountStep (mountStep client event) events := rfl
      rw [hrun] at hup
      have hnext : (mountStep client event).down = false := by
        by_contra hdown
        rw [Bool.not_eq_false] at hdown
        rw [runFrom_of_down hdown, hdown] at hup
        cases hup
      refine ⟨⟨?_, hnext⟩, ih hup⟩
      by_contra hdown
      rw [Bool.not_eq_false] at hdown
      rw [(mountStep_of_down hdown event).1, hdown] at hnext
      cases hnext

/-- A mount that returns leaves something behind. -/
theorem mount_leaves {client : ClientModule} {event : MountEvent} (hup : client.down = false)
    (hnext : (mountStep client event).down = false) (hmount : event.isMount = true) :
    1 ≤ (leftBehind client event).card := by
  cases event with
  | umount index => cases hmount
  | mount env =>
      have hnot : ¬ client.down = true := by
        rw [hup]
        exact Bool.false_ne_true
      rw [mountStep, if_neg hnot] at hnext
      rw [leftBehind, if_neg hnot]
      cases hresult : vsnfsGetSb env with
      | none =>
          simp only [hresult] at hnext
          cases hnext
      | some result =>
          obtain ⟨sb, hmounted, -⟩ | ⟨hmounted, -, hcard⟩ := sb_returned hresult
          · simp only [hmounted, Option.isSome_some, if_true]
            decide
          · simp only [hmounted, Option.isSome_none, Bool.false_eq_true, if_false]
            exact hcard

/-- **Every mount leaves memory behind.** After any mounts and unmounts, what is held is a record and a
superblock for each mount that is still there, and what the calls so far have left behind, which nothing
frees: at least one thing for each call of `vsnfs_get_sb`, whether it failed or was unmounted since. What
an unmount frees was there, and so is the RPC client that `vsnfs_umount_begin` uses. -/
theorem mounts_leave_memory_behind (events : List MountEvent)
    (hup : (runFrom mountStep ClientModule.load events).down = false) :
    let client := runFrom mountStep ClientModule.load events
    let left := sumAlong mountStep leftBehind ClientModule.load events
    client.held = client.mounted.length • ({.record, .superBlock} : Held) + left ∧
      events.countP MountEvent.isMount ≤ left.card ∧ client.mounted.length ≤ client.held.count .rpcClient := by
  have hstart : AccountedFor ClientModule.load 0 := ⟨rfl, Nat.le_refl 0⟩
  obtain ⟨hheld, hclients⟩ := run_balanced mountStep_accounted hstart events
  rw [zero_add] at hheld hclients
  refine ⟨hheld, ?_, ?_⟩
  · refine countP_le_sumAlong Multiset.cardHom ?_
    refine Along.imp_of_invariant (I := fun _ => True) (fun _ _ _ _ => trivial) ?_ trivial (along_of_up hup)
    rintro client event - ⟨hbefore, hafter⟩ hmount
    exact mount_leaves hbefore hafter hmount
  · rw [hheld, Multiset.count_add]
    exact hclients.trans (Nat.le_add_left _ _)

/-! ### The server's part -/

/-- The path of an accepted name as the argument of GETROOT. -/
def DevName.pathName (dev : DevName) (haccepted : dev.Accepted) : PathName :=
  ⟨dev.path, haccepted.2.2, fun byte hbyte => dev.htext byte (List.mem_of_mem_drop hbyte)⟩

/-- What the transport makes of the server's reply, or of none. -/
def transported (timeout : Failure) : Option (List Byte) → Except Failure (List Byte)
  | none => .error timeout
  | some results => .ok results

/-- The client's kernel refuses nothing, and the name is accepted. -/
structure MountEnv.Granted (env : MountEnv) : Prop where
  accepted : env.dev.Accepted
  record : env.record = true
  dup : env.dup.isSome
  rpcCreate : env.rpcCreate = none
  resp : env.resp.isSome
  sget : env.sget = none
  inode : env.inode.isSome
  dAllocRoot : env.dAllocRoot = true
  dObtainAlias : env.dObtainAlias = none

/-- A mount with the server at the other end of its transport. -/
structure MountEnv.Reaches (env : MountEnv) (haccepted : env.dev.Accepted) (server : Server) (arrival : Arrival)
    (timeout : Failure) : Prop where
  up : server.down = false
  mem : HoldsAt arrival.mem 0 ((ClientArgs.getrootargs (env.dev.pathName haccepted)).encode 0)
  room : HeadRoom arrival.svc
  small : SmallErrnos arrival.kernel.getroot.pathLookup
  rpc : env.rpc (vsnfsXdrGetrootargs env.dev.path) = transported timeout
    (serveCall arrival server ((ClientArgs.getrootargs (env.dev.pathName haccepted)).message 0)).2

section Server

variable {env : MountEnv} {server : Server} {arrival : Arrival} {timeout : Failure}

/-- The call returns what the handler returned, and an error when there is no reply. -/
theorem getrootCall_relayed {haccepted : env.dev.Accepted} (h : env.Reaches haccepted server arrival timeout)
    (old : VsnfsFh) :
    ∃ answer, getrootCall env env.dev.path old = some answer ∧
      Relayed (vsnfsdProcGetroot server.head ⟨env.dev.pathName haccepted⟩ zeroFh arrival.kernel.getroot).status
        (vsnfsdProcGetroot server.head ⟨env.dev.pathName haccepted⟩ zeroFh arrival.kernel.getroot).resp old
        answer := by
  have hresults := congrArg Prod.snd (serveCall_message h.mem h.up)
  simp only [resultsOf_eq h.room] at hresults
  have hsmall : ∀ pathLookup ∈ (Event.getroot ⟨env.dev.pathName haccepted⟩ arrival.kernel.getroot).pathLookup,
      SmallErrnos pathLookup := by
    intro pathLookup hmem
    cases hmem
    exact h.small
  rw [getrootCall, h.rpc, hresults]
  cases hstatus : (serve server.head (.getroot ⟨env.dev.pathName haccepted⟩ arrival.kernel.getroot)).status with
  | none =>
      simp only [ClientArgs.received, SvcArgs.event, hstatus, Option.map_none, transported]
      have hnone : (vsnfsdProcGetroot server.head ⟨env.dev.pathName haccepted⟩ zeroFh
          arrival.kernel.getroot).status = none := hstatus
      refine ⟨_, rfl, ?_, Int.le_of_lt timeout.hneg, ?_⟩
      · rw [hnone]
        exact iff_of_false (Int.ne_of_lt timeout.hneg) (fun heq => by cases heq)
      · exact (if_neg (Int.ne_of_lt timeout.hneg)).symm
  | some status =>
      have hstub : StubReturns server arrival 0 _ (.getrootargs (env.dev.pathName haccepted)) :=
        stubReturns_of_status hstatus (serve_readTruly hsmall hstatus)
      simp only [ClientArgs.received, SvcArgs.event, hstatus, Option.map_some, transported]
      exact hstub old

/-- A superblock whose root stands for the handle. -/
structure MountedSb.RootOf (sb : MountedSb) (env : MountEnv) (fh : VsnfsFh) : Prop where
  handle : sb.rootFh = fh
  path : sb.server.mntPath = some env.dev.path
  number : sb.root.iIno = fh.ino env.after
  filled : fh.Supported → sb.root.iPrivate = some fh ∧ sb.root.Typed fh.type

/-- Without a refusal there is a root inode for every handle. -/
theorem getRoot_granted (hgranted : env.Granted) (fh : VsnfsFh) :
    ∃ inode cache, vsnfsGetRoot env fh = (.ok inode, cache) ∧ inode.iIno = fh.ino env.after ∧
      (fh.Supported → inode.iPrivate = some fh ∧ inode.Typed fh.type) := by
  obtain ⟨alloc, halloc⟩ := Option.isSome_iff_exists.mp hgranted.inode
  have hnew : noInodes (fh.ino env.after) = none := rfl
  obtain ⟨filled, hget, hino, hfilled, -⟩ := fhget_new alloc hnew
  refine ⟨filled, noInodes.store (fh.ino env.after) (some filled), ?_, hino, hfilled⟩
  simp only [vsnfsGetRoot, halloc, hget, vsnfsSuperblockSetDummyRoot, hgranted.dAllocRoot, hgranted.dObtainAlias,
    Bool.false_eq_true, if_false, if_true, ne_eq, not_true_eq_false]

/-- **A mount asks the server.** When the client's own kernel refuses nothing, the server steps as GETROOT of
the path behind the colon does, and `vsnfs_get_sb` returns 0 exactly if that was answered with `vsnfs_ok`:
the root then stands for the handle that the server made. In all other cases, whatever the server's status
was and if there was no reply, it returns the one error `-VSNFSERR_REMOTE`. -/
theorem mount_asks_server (hgranted : env.Granted)
    (hreaches : env.Reaches hgranted.accepted server arrival timeout) :
    let args : GetrootArgs := ⟨env.dev.pathName hgranted.accepted⟩
    let out := vsnfsdProcGetroot server.head args zeroFh arrival.kernel.getroot
    (serveCall arrival server ((ClientArgs.getrootargs args.path).message 0)).1 =
        step server (.getroot args arrival.kernel.getroot) ∧
      ∃ result, vsnfsGetSb env = some result ∧
        ((out.status = some (vsnfserr .ok) ∧ result.ret = 0 ∧
            ∃ sb, result.mounted = some sb ∧ sb.RootOf env out.resp) ∨
          (out.status ≠ some (vsnfserr .ok) ∧ result.ret = -VsnfsStat.remote.code ∧ result.mounted = none)) := by
  intro args out
  refine ⟨congrArg Prod.fst (serveCall_message hreaches.mem hreaches.up), ?_⟩
  have hcall := getrootCall_relayed hreaches
  cases hresult : vsnfsGetSb env with
  | none =>
      have hexit := sb_exit env
      rw [hresult] at hexit
      cases hexit with
      | noRecord hrecord => cases hrecord.symm.trans hgranted.record
      | noReply resp hnone =>
          obtain ⟨answer, hsome, -⟩ := hcall resp
          cases hnone.symm.trans hsome
      | noRoot resp fh hok errno hroot =>
          obtain ⟨inode, cache, hget, -⟩ := getRoot_granted hgranted fh
          rw [hget] at hroot
          cases hroot
  | some result =>
      have hexit := sb_exit env
      rw [hresult] at hexit
      refine ⟨result, rfl, ?_⟩
      cases hexit with
      | options ret hneg hrefused => exact absurd ⟨hgranted.accepted, hgranted.dup⟩ hrefused
      | noClient failure hcreate => cases hcreate.symm.trans hgranted.rpcCreate
      | noHandle hresp => exact absurd hgranted.resp (by rw [hresp]; exact Bool.false_ne_true)
      | noSuper failure hsget => cases hsget.symm.trans hgranted.sget
      | notMounted resp fh ret hreply hret =>
          obtain ⟨answer, hsome, hrelayed⟩ := hcall resp
          cases hreply.symm.trans hsome
          exact .inr ⟨fun hok => hret (hrelayed.zero.mpr hok), rfl, rfl⟩
      | mounted resp fh hresp hreply inode cache hroot =>
          obtain ⟨answer, hsome, hrelayed⟩ := hcall resp
          cases hreply.symm.trans hsome
          have hfh : fh = out.resp := hrelayed.result
          obtain ⟨inode', cache', hget, hino, hfilled⟩ := getRoot_granted hgranted fh
          cases hroot.symm.trans hget
          obtain ⟨-, -, -, hpath⟩ | ⟨hrefused, -⟩ := parse_zeroed env
          · exact .inl ⟨hrelayed.zero.mp rfl, rfl, _, rfl, hfh, hpath, by rw [← hfh]; exact hino,
              by rw [← hfh]; exact hfilled⟩
          · exact absurd ⟨hgranted.accepted, hgranted.dup⟩ hrefused

end Server

/-! ### One mount -/

/-- `1:/a` -/
def devA : DevName := ⟨['1', ':', '/', 'a'].map charByte, by decide⟩

/-- A mount of it without options, on a client that refuses nothing. -/
def mountA : MountEnv where
  dev := devA
  rawData := none
  record := true
  behind := []
  pton := ⟨fun _ => none, fun _ => none⟩
  dup := some 0
  rpcCreate := none
  resp := some zeroFh
  rpc _ := .ok mountResults
  sget := none
  after := []
  inode := some newInode
  dAllocRoot := true
  dObtainAlias := none

theorem mountA_granted : mountA.Granted := by
  refine ⟨⟨?_, ?_, ?_⟩, rfl, rfl, rfl, rfl, rfl, rfl, rfl, rfl⟩ <;> decide

theorem mountA_reaches :
    mountA.Reaches mountA_granted.accepted Server.load (Arrival.of mountMessage netKernel) .noEntry where
  up := rfl
  mem := memOf_holds mountMessage.body
  room := by decide
  small := smallLookup_smallErrnos 9
  rpc := by rfl

/-- It is answered, and the root has the number of the directory. -/
theorem mountA_asks_server : ∃ result, vsnfsGetSb mountA = some result ∧ result.ret = 0 := by
  obtain ⟨-, result, hresult, hend⟩ := mount_asks_server mountA_granted mountA_reaches
  refine ⟨result, hresult, ?_⟩
  obtain ⟨-, hzero, -⟩ | ⟨hnot, -⟩ := hend
  · exact hzero
  · exact absurd (by rfl) hnot

/-- It is mounted, unmounted, and mounted again without an RPC client. -/
def mountsOfA : List MountEvent := [.mount mountA, .umount 0, .mount { mountA with rpcCreate := some .noEntry }]

theorem mountsOfA_leave : (runFrom mountStep ClientModule.load mountsOfA).mounted = [] ∧
    2 ≤ (sumAlong mountStep leftBehind ClientModule.load mountsOfA).card := by
  obtain ⟨-, hleft, -⟩ := mounts_leave_memory_behind mountsOfA (by rfl)
  exact ⟨by rfl, hleft⟩

end Vsnfs
