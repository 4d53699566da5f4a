import Vsnfs.LookupKinds
import Vsnfs.NetworkHandles
import Vsnfs.RepeatedCalls

/-! A path on the client against the same path in the tree. The client mounts a directory and looks up one
name after another, each with the inode the last lookup returned; every lookup is a call to the server,
which puts the name behind the path it has stored for the handle. That path need not be the one the client
has walked: the object may have been in the table already, by another name. What the client ends with is
an inode of the object that the tree has for the names. -/

namespace Vsnfs

open Base

/-! ### The tree -/

/-- A tree of files with small numbers and with the entries of its directories. -/
structure NamedTree (Object : Type) extends FileTree Object where
  child : Object → List Byte → Option Object
  hchild : ∀ text name object, denotes text = some object → (inode object).kind = .dir →
    (text = [] ∨ text.getLast? = some slash) → name ≠ [] → slash ∉ name →
      denotes (text ++ name) = child object name
  hunnamed : ∀ object, child object [] = none

def NamedTree.hierarchy {Object : Type} (tree : NamedTree Object) : Hierarchy Object :=
  ⟨tree.denotes, tree.inode, tree.child, tree.hchild, tree.hunnamed⟩

/-- One name in the tree: the entry of a directory, when that is a file or a directory. -/
def NamedTree.enter {Object : Type} (tree : NamedTree Object) (object : Object) (name : FileName) : Option Object :=
  if (tree.inode object).kind = .dir then
    (tree.child object name.bytes).filter fun entry => (tree.inode entry).kind ≠ .other
  else none

/-! ### The client and the server -/

/-- One name on the client: the requests of others that the server has served since the last name, how the
call arrives, what the memory of the new handle holds and what lies behind it, and the inode the allocator
has. -/
structure WalkStep where
  name : FileName
  others : List Event
  arrival : Arrival
  newfh : VsnfsFh
  after : List Byte
  alloc : ClientInode

/-- The cache of the mount, the server, and the inode of the directory that was reached. -/
structure WalkState where
  cache : InodeCache
  server : Server
  dir : ClientInode

/-- The call of `vsnfs_lookup` for a name, with these results from the server. -/
def WalkStep.call (walk : WalkStep) (dir : ClientInode) (results : List Byte) : LookupCall where
  dir := dir
  name := walk.name.bytes
  newfh := walk.newfh
  after := walk.after
  argpAlloc := true
  rpc := fun _ => results
  inodeAlloc := some walk.alloc

/-- One lookup over the wire; without a result when there is no reply or no inode. -/
def walkStep (state : WalkState) (walk : WalkStep) : Option WalkState :=
  match state.dir.iPrivate with
  | none => none
  | some fh =>
      let served := serveCall walk.arrival (runFrom step state.server walk.others)
        ((ClientArgs.lookupargs fh walk.name).message 0)
      match served.2 with
      | none => none
      | some results =>
          match vsnfsLookup state.cache (walk.call state.dir results) with
          | some ⟨_, .ok (some inode), cache⟩ => some ⟨cache, served.1, inode⟩
          | _ => none

/-- A mount: `resp` and `after` are the memory for the root's handle and behind it. -/
def mountRoot (arrival : Arrival) (server : Server) (path : PathName) (resp : VsnfsFh) (after : List Byte)
    (alloc : ClientInode) : Option WalkState :=
  let served := serveCall arrival server ((ClientArgs.getrootargs path).message 0)
  match served.2 with
  | none => none
  | some results =>
      match vsnfsProcGetroot (fun _ => results) path.bytes resp with
      | some (0, fh) =>
          match vsnfsFhget noInodes fh after (some alloc) with
          | (.ok inode, cache) => some ⟨cache, served.1, inode⟩
          | _ => none
      | _ => none

section Walk

variable {Object : Type} (tree : NamedTree Object)

/-- The requests of others are over the tree and mount nothing. -/
def OthersFine (server : Server) (others : List Event) : Prop :=
  Along step (fun server event => event.MountFree ∧ Orderly tree.toFileTree server event) server others ∧
    (runFrom step server others).down = false

/-- What a lookup needs: the others are fine, the call arrives, the kernels have memory and answer from the
tree, and the path that is stored for a new entry is short. -/
structure LookupFine (state : WalkState) (walk : WalkStep) : Prop where
  others : OthersFine tree state.server walk.others
  answers : tree.toFileTree.Answers walk.arrival.kernel.lookup.pathLookup
  arrives : ∀ fh, state.dir.iPrivate = some fh →
    Arrives walk.arrival.kernel.lookup.pathLookup ((ClientArgs.lookupargs fh walk.name).message 0) walk.arrival
  short : ∀ fh, state.dir.iPrivate = some fh →
    Orderly tree.toFileTree (runFrom step state.server walk.others)
      (.lookup ⟨fh, walk.arrival.after, walk.name⟩ walk.arrival.kernel.lookup)
  alloc : walk.alloc.iPrivate = none

/-- What a mount needs, in the same way. -/
structure MountFine (server : Server) (arrival : Arrival) (path : PathName) : Prop where
  memory : HoldsAt arrival.mem 0 ((ClientArgs.getrootargs path).encode 0)
  room : HeadRoom arrival.svc
  alloc : arrival.kernel.getroot.ndAlloc = true ∧ arrival.kernel.getroot.pathAlloc = true
  node : arrival.kernel.getroot.nodeAlloc = true
  nodePath : arrival.kernel.getroot.nodePathAlloc = true
  orderly : Orderly tree.toFileTree server (.getroot ⟨path⟩ arrival.kernel.getroot)

/-- An inode of the object: its number, its kind, and a handle that spells the number. -/
def InodeOf (object : Object) (inode : ClientInode) : Prop :=
  inode.Serves (tree.inode object).ino ∧ inode.Typed (kindType (tree.inode object).kind)

/-- The invariant of a walk: the client has an inode of the object, and the server an entry for it. -/
structure AtObject (state : WalkState) (object : Object) : Prop where
  server : TrueServer tree.toFileTree state.server
  slashes : DirectoriesOpen tree.hierarchy state.server
  entry : ∃ node ∈ state.server.head.entries, node.ino = (tree.inode object).ino
  cache : TrueCache tree.toFileTree state.cache
  inode : InodeOf tree object state.dir

end Walk

section Walk

variable {Object : Type} {tree : NamedTree Object}

/-- Requests over the tree keep the server's part of the invariant, whatever they are. -/
theorem orderly_keeps {server : Server} (hserver : TrueServer tree.toFileTree server)
    (hslashes : DirectoriesOpen tree.hierarchy server) {events : List Event}
    (hevents : Along step (Orderly tree.toFileTree) server events) :
    TrueServer tree.toFileTree (runFrom step server events) ∧
      DirectoriesOpen tree.hierarchy (runFrom step server events) := by
  refine Along.invariant (I := fun server : Server => TrueServer tree.toFileTree server ∧
    DirectoriesOpen tree.hierarchy server) ?_ ⟨hserver, hslashes⟩ hevents (List.prefix_refl events)
  rintro state event ⟨htrue, hopen⟩ horderly
  exact ⟨step_trueServer htrue horderly, step_directoriesOpen state event hopen horderly.answers⟩

/-- The requests of others, when none is a mount, keep an entry as well. -/
theorem OthersFine.keeps {server : Server} {others : List Event} (hothers : OthersFine tree server others)
    (hserver : TrueServer tree.toFileTree server) (hslashes : DirectoriesOpen tree.hierarchy server)
    {node : Node} (hnode : node ∈ server.head.entries) :
    TrueServer tree.toFileTree (runFrom step server others) ∧
      DirectoriesOpen tree.hierarchy (runFrom step server others) ∧
      node ∈ (runFrom step server others).head.entries := by
  refine Along.invariant (I := fun server : Server => TrueServer tree.toFileTree server ∧
    DirectoriesOpen tree.hierarchy server ∧ node ∈ server.head.entries) ?_ ⟨hserver, hslashes, hnode⟩ hothers.1
    (List.prefix_refl others)
  rintro state event ⟨htrue, hopen, hmem⟩ ⟨hfree, horderly⟩
  exact ⟨step_trueServer htrue horderly, step_directoriesOpen state event hopen horderly.answers,
    step_mem_of_mountFree state event hmem hfree⟩

/-- The handle that LOOKUP makes spells the number and has the type of the object. -/
theorem lookupResp_spells (object : Object) :
    (∀ after, (lookupResp zeroFh (tree.inode object)).ino after = (tree.inode object).ino) ∧
      (lookupResp zeroFh (tree.inode object)).type = kindType (tree.inode object).kind := by
  constructor
  · intro after
    exact ((lookupResp_printed zeroFh (tree.inode object)).ino_eq_iff after).mpr (tree.hsmall object)
  · unfold lookupResp kindType
    cases (tree.inode object).kind <;> rfl

/-- The handle of a file or a directory is answered with an inode of it. -/
theorem fhget_inodeOf (hdistinct : tree.toFileTree.DistinctNumbers) {cache : InodeCache}
    (hcache : TrueCache tree.toFileTree cache) {object : Object} {fh : VsnfsFh}
    (hnumber : ∀ after, fh.ino after = (tree.inode object).ino)
    (htype : fh.type = kindType (tree.inode object).kind) (hkind : (tree.inode object).kind ≠ .other)
    (after : List Byte) (alloc : ClientInode) :
    ∃ inode, (vsnfsFhget cache fh after (some alloc)).1 = .ok inode ∧ InodeOf tree object inode := by
  have hsupported : fh.Supported := by
    rw [VsnfsFh.Supported, htype]
    cases hcase : (tree.inode object).kind with
    | reg => exact .inl rfl
    | dir => exact .inr rfl
    | other => exact absurd hcase hkind
  cases hcached : cache (fh.ino after) with
  | none =>
      obtain ⟨filled, hget, hino, hfilled, -⟩ := fhget_new alloc hcached
      obtain ⟨hprivate, htyped⟩ := hfilled hsupported
      refine ⟨filled, by rw [hget], ⟨hino.trans (hnumber after), fh, hprivate, hnumber, htyped⟩, ?_⟩
      exact htype ▸ htyped
  | some inode =>
      refine ⟨inode, by simp only [vsnfsFhget, igetLocked, hcached], ?_⟩
      have htrue := hcache _ inode hcached
      rw [hnumber after] at htrue
      cases htrue with
      | finished other hsame hserves htyped =>
          obtain rfl := hdistinct other object hsame
          exact ⟨hserves, htyped⟩
      | unfinished _ hwhy =>
          obtain hzero | ⟨other, hsame, hother⟩ := hwhy
          · have hpositive := tree.hpositive object
            rw [hzero] at hpositive
            exact absurd hpositive (by decide)
          · obtain rfl := hdistinct other object hsame
            exact absurd hother hkind

/-- The lookup of a name whose reply carries this handle. -/
theorem vsnfsLookup_of_results (cache : InodeCache) (walk : WalkStep) {dir : ClientInode} {dirFh fh : VsnfsFh}
    (hdir : dir.iPrivate = some dirFh) {inode : ClientInode}
    (hget : (vsnfsFhget cache fh walk.after (some walk.alloc)).1 = .ok inode) :
    vsnfsLookup cache (walk.call dir (leBytes 0 ++ serverHandleBytes fh)) =
      some ⟨true, .ok (some inode), (vsnfsFhget cache fh walk.after (some walk.alloc)).2⟩ := by
  have hread := vsnfsXdrFh_results 0 fh walk.newfh
  rw [vsnfserr_ok, if_pos rfl, if_pos rfl] at hread
  have hname : ¬ vsnfsMaxnamlen < (walk.call dir (leBytes 0 ++ serverHandleBytes fh)).name.length :=
    not_lt.mpr walk.name.hlength
  have hdo : vsnfsDoLookup (walk.call dir (leBytes 0 ++ serverHandleBytes fh)) = some (0, fh) := by
    simp only [vsnfsDoLookup, WalkStep.call, hdir, vsnfsProcLookup, hread, Bool.true_eq_false, if_false, if_true]
  rw [vsnfsLookup, if_neg hname, hdo]
  simp only [WalkStep.call]
  rw [if_neg (by decide), if_neg (by decide)]
  cases hpair : vsnfsFhget cache fh walk.after (some walk.alloc) with
  | mk result cache' =>
      rw [hpair] at hget
      simp only at hget
      rw [hget]

/-- A name that the tree enters is asked for behind the stored path of the directory. -/
theorem AtObject.finds {state : WalkState} {object entry : Object} (hat : AtObject tree state object)
    (hdistinct : tree.toFileTree.DistinctNumbers) {walk : WalkStep} (hfine : LookupFine tree state walk)
    (henter : tree.enter object walk.name = some entry) {fh : VsnfsFh}
    (hreads : ∀ after, fh.ino after = (tree.inode object).ino) :
    ∃ nodes parent, (runFrom step state.server walk.others).head = some nodes ∧
      Finds walk.arrival.kernel.lookup.pathLookup nodes ⟨fh.ino walk.arrival.after, walk.name⟩ parent
        (tree.inode entry) := by
  obtain ⟨node, hnode, hino⟩ := hat.entry
  obtain ⟨hserver, hslashes, hmem⟩ := hfine.others.keeps hat.server hat.slashes hnode
  have hfound := found_of_mem hserver.unique hmem
  rw [hino] at hfound
  obtain ⟨-, -, hdenotes⟩ := hserver.found_denotes hdistinct hfound
  obtain ⟨nodes, hhead, hfind⟩ := Option.bind_eq_some_iff.mp hfound
  refine ⟨nodes, node, hhead, by rw [hreads]; exact hfind, ?_⟩
  rw [NamedTree.enter] at henter
  split at henter
  · rename_i hdir
    obtain ⟨hchild, -⟩ := Option.filter_eq_some_iff.mp henter
    have hopen : OpenEnded node.path := hslashes node hmem object ⟨hdenotes, hdir⟩
    have hne : walk.name.bytes ≠ [] := by
      intro hnil
      rw [hnil, tree.hunnamed] at hchild
      cases hchild
    have hslash : slash ∉ walk.name.bytes := fun hbyte => (walk.name.hclean slash hbyte).2 rfl
    have hdenotes' := tree.hchild node.path walk.name.bytes object hdenotes hdir hopen hne hslash
    exact hfine.answers.found_of_denotes (hdenotes'.trans hchild)
  · cases henter

/-- **One name.** Where the tree enters an entry, the lookup over the wire returns an inode of it. -/
theorem walkStep_enters (hdistinct : tree.toFileTree.DistinctNumbers) (state : WalkState) (object : Object)
    (walk : WalkStep) (entry : Object) (hat : AtObject tree state object) (hfine : LookupFine tree state walk)
    (henter : tree.enter object walk.name = some entry) :
    ∃ state', walkStep state walk = some state' ∧ AtObject tree state' entry := by
  obtain ⟨⟨-, fh, hprivate, hreads, -⟩, -⟩ := hat.inode
  obtain ⟨node, hnode, -⟩ := hat.entry
  obtain ⟨hserver, hslashes, -⟩ := hfine.others.keeps hat.server hat.slashes hnode
  obtain ⟨nodes, parent, hhead, hfinds⟩ := hat.finds hdistinct hfine henter hreads
  have harrives := hfine.arrives fh hprivate
  have hserved := serveCall_finds harrives hfine.others.2 hhead hfinds
  have hkind : (tree.inode entry).kind ≠ .other := by
    rw [NamedTree.enter] at henter
    split at henter
    · simpa using (Option.filter_eq_some_iff.mp henter).2
    · cases henter
  have htrue : TrueHandle tree.toFileTree (lookupResp zeroFh (tree.inode entry)) := lookupResp_trueHandle entry
  obtain ⟨hnumber, htype⟩ : (∀ after, (lookupResp zeroFh (tree.inode entry)).ino after = (tree.inode entry).ino) ∧
      (lookupResp zeroFh (tree.inode entry)).type = kindType (tree.inode entry).kind := lookupResp_spells entry
  obtain ⟨inode, hget, hinode⟩ := fhget_inodeOf hdistinct hat.cache hnumber htype hkind walk.after walk.alloc
  have hlookup := vsnfsLookup_of_results state.cache walk hprivate hget
  have hmem : HoldsAt walk.arrival.mem 0 ((ClientArgs.lookupargs fh walk.name).encode 0) := harrives.hmem
  have hstep := congrArg Prod.fst (serveCall_message hmem hfine.others.2)
  rw [hserved] at hstep
  have hwalked : walkStep state walk = some ⟨(vsnfsFhget state.cache (lookupResp zeroFh (tree.inode entry))
      walk.after (some walk.alloc)).2, ⟨(serve (runFrom step state.server walk.others).head
        (.lookup ⟨fh, walk.arrival.after, walk.name⟩ walk.arrival.kernel.lookup)).head, false⟩, inode⟩ := by
    simp only [walkStep, hprivate, hserved, hlookup]
  refine ⟨_, hwalked, ?_⟩
  have horderly := hfine.short fh hprivate
  refine ⟨?_, ?_, ?_, ?_, hinode⟩
  · simp only at hstep
    rw [hstep]
    exact step_trueServer hserver horderly
  · simp only at hstep
    rw [hstep]
    exact step_directoriesOpen _ _ hslashes horderly.answers
  · rw [hhead]
    have hasked : Finds _ nodes (LookupArgs.asked ⟨fh, walk.arrival.after, walk.name⟩) parent _ := hfinds
    exact (hasked.entries harrives.henv).2
  · refine fhget_trueCache hat.cache htrue walk.after fun inode hinode => ?_
    rw [← Option.some.inj hinode]
    exact hfine.alloc

/-- The server's part of the invariant, after any requests over the tree. -/
theorem run_trueServer {before : List Event} (hbefore : Along step (Orderly tree.toFileTree) Server.load before) :
    TrueServer tree.toFileTree (runFrom step Server.load before) ∧
      DirectoriesOpen tree.hierarchy (runFrom step Server.load before) :=
  orderly_keeps load_trueServer (fun _ hnode => nomatch hnode) hbefore

/-- GETROOT of a path of a directory: the table it leaves, and the bytes it sends. -/
theorem serveCall_mounts {server : Server} (hup : server.down = false) {arrival : Arrival} {path : PathName}
    (hfine : MountFine tree server arrival path) {root : Object}
    (hroot : tree.denotes (withSlash path.bytes) = some root) (hdir : (tree.inode root).kind = .dir) :
    serveCall arrival server ((ClientArgs.getrootargs path).message 0) =
      (step server (.getroot ⟨path⟩ arrival.kernel.getroot),
        some (leBytes 0 ++ serverHandleBytes (getrootResp zeroFh (tree.inode root)))) ∧
      step server (.getroot ⟨path⟩ arrival.kernel.getroot) =
        ⟨some [rootNode ⟨path⟩ arrival.kernel.getroot (tree.inode root)], false⟩ := by
  have hne : path.bytes ≠ [] := hfine.orderly.root
  have hanswer : rootAnswer ⟨path⟩ arrival.kernel.getroot = .found (tree.inode root) := by
    rw [rootAnswer, rootPath_withSlash _ _ hne]
    exact (hfine.orderly.answers _ rfl).found_of_denotes hroot
  have hdentry : (rootAnswer ⟨path⟩ arrival.kernel.getroot).dentry = some (tree.inode root) := by
    rw [hanswer]
    rfl
  have hkind : (tree.inode root).kind ≠ .reg := by
    rw [hdir]
    decide
  obtain ⟨hstatus, hhead⟩ : (serve server.head (.getroot ⟨path⟩ arrival.kernel.getroot)).status = _ ∧
      (serve server.head (.getroot ⟨path⟩ arrival.kernel.getroot)).head = _ :=
    getroot_added hfine.alloc hdentry hkind hfine.node hfine.nodePath
  have hok : (serve server.head (.getroot ⟨path⟩ arrival.kernel.getroot)).status = some (vsnfserr .ok) := by
    rw [hstatus, hanswer, vsnfserr_ok]
    rfl
  obtain ⟨other, hother, -, hresp⟩ := getroot_of_ok hok
  obtain rfl := Option.some.inj (hdentry.symm.trans hother)
  refine ⟨?_, ?_⟩
  · rw [serveCall_message hfine.memory hup]
    simp only [ClientArgs.received, SvcArgs.event, resultsOf_eq hfine.room, hok, resultBody, hresp,
      Option.map_some, if_true, vsnfserr_ok]
  · simp only [step, hup, Bool.false_eq_true, if_false, hhead, hok, Option.isNone_some]

/-- **The mount.** The client's root is an inode of the directory, and the table holds its path alone. -/
theorem mountRoot_at (hdistinct : tree.toFileTree.DistinctNumbers) {server : Server}
    (hserver : TrueServer tree.toFileTree server) (hslashes : DirectoriesOpen tree.hierarchy server)
    (hup : server.down = false) {arrival : Arrival} {path : PathName}
    (hfine : MountFine tree server arrival path) {root : Object}
    (hroot : tree.denotes (withSlash path.bytes) = some root) (hdir : (tree.inode root).kind = .dir)
    (resp : VsnfsFh) (after : List Byte) {alloc : ClientInode} (halloc : alloc.iPrivate = none) :
    ∃ mounted, mountRoot arrival server path resp after alloc = some mounted ∧ AtObject tree mounted root := by
  obtain ⟨hserved, hstep⟩ := serveCall_mounts hup hfine hroot hdir
  have hkind : (tree.inode root).kind ≠ .reg := by
    rw [hdir]
    decide
  have htrue : TrueHandle tree.toFileTree (getrootResp zeroFh (tree.inode root)) := getrootResp_trueHandle hkind
  have hread := vsnfsXdrFh_results 0 (getrootResp zeroFh (tree.inode root)) resp
  rw [vsnfserr_ok, if_pos rfl, if_pos rfl] at hread
  have hnumber (after : List Byte) :
      (getrootResp zeroFh (tree.inode root)).ino after = (tree.inode root).ino :=
    ((getrootResp_printed zeroFh (tree.inode root)).ino_eq_iff after).mpr (tree.hsmall root)
  have htype : (getrootResp zeroFh (tree.inode root)).type = kindType (tree.inode root).kind := by
    simp only [getrootResp, hdir, if_true, kindType]
  obtain ⟨inode, hget, hinode⟩ := fhget_inodeOf hdistinct noInodes_trueCache hnumber htype (by rw [hdir]; decide)
    after alloc
  have hmounted : mountRoot arrival server path resp after alloc =
      some ⟨(vsnfsFhget noInodes (getrootResp zeroFh (tree.inode root)) after (some alloc)).2,
        step server (.getroot ⟨path⟩ arrival.kernel.getroot), inode⟩ := by
    simp only [mountRoot, hserved, vsnfsProcGetroot, hread]
    cases hpair : vsnfsFhget noInodes (getrootResp zeroFh (tree.inode root)) after (some alloc) with
    | mk result cache =>
        rw [hpair] at hget
        simp only at hget
        rw [hget]
  refine ⟨_, hmounted, step_trueServer hserver hfine.orderly,
    step_directoriesOpen server _ hslashes hfine.orderly.answers, ?_, ?_, hinode⟩
  · simp only [hstep]
    exact ⟨_, List.mem_singleton.mpr rfl, rfl⟩
  · refine fhget_trueCache noInodes_trueCache htrue after fun inode hinode => ?_
    rw [← Option.some.inj hinode]
    exact halloc

variable (tree) in
/-- **The client walks the tree.** A mount of a path of a directory, on a server in any state that requests
over the tree have led to, gives the client an inode of the directory. From there on, along every list of
names that the tree has files and directories for, the lookups over the wire end with an inode of the
tree's object, whatever requests without a mount are served for others in between. -/
theorem client_walk_follows_tree (hdistinct : tree.toFileTree.DistinctNumbers) (before : List Event)
    (hbefore : Along step (Orderly tree.toFileTree) Server.load before)
    (hup : (runFrom step Server.load before).down = false) (arrival : Arrival) (path : PathName)
    (hfine : MountFine tree (runFrom step Server.load before) arrival path) (root : Object)
    (hroot : tree.denotes (withSlash path.bytes) = some root) (hdir : (tree.inode root).kind = .dir)
    (resp : VsnfsFh) (after : List Byte) (alloc : ClientInode) (halloc : alloc.iPrivate = none) :
    ∃ mounted, mountRoot arrival (runFrom step Server.load before) path resp after alloc = some mounted ∧
      InodeOf tree root mounted.dir ∧
      ∀ (steps : List WalkStep) (target : Object), AlongWalk walkStep (LookupFine tree) mounted steps →
        walkFrom tree.enter root (steps.map WalkStep.name) = some target →
          ∃ final, walkFrom walkStep mounted steps = some final ∧ InodeOf tree target final.dir := by
  obtain ⟨hserver, hslashes⟩ := run_trueServer hbefore
  obtain ⟨mounted, hmounted, hat⟩ :=
    mountRoot_at hdistinct hserver hslashes hup hfine hroot hdir resp after halloc
  refine ⟨mounted, hmounted, hat.inode, fun steps target halong hwalk => ?_⟩
  obtain ⟨final, hfinal, hend⟩ := walkFrom_simulates (walkStep_enters hdistinct) hat halong hwalk
  exact ⟨final, hfinal, hend.inode⟩

end Walk

/-! ### A file in the mounted directory -/

def smallChild : SmallObject → List Byte → Option SmallObject
  | .top, name => if name = [0x78] then some .x else if name = [0x79] then some .y else none
  | _, _ => none

theorem smallDenotes_child (name : List Byte) (hne : name ≠ []) :
    smallDenotes ([slash, 0x61, slash] ++ name) = smallChild .top name := by
  simp [smallDenotes, smallChild, hne]

/-- The directory `/a` with the names of its two files. -/
def namedTree : NamedTree SmallObject where
  toFileTree := netTree
  child := smallChild
  hchild := by
    intro text name object hdenotes hkind hopen hne _
    cases object with
    | x => cases hkind
    | y => cases hkind
    | top =>
        have htext : text = [slash, 0x61] ∨ text = [slash, 0x61, slash] := by
          by_contra hother
          have hsmall : smallDenotes text = some .top := hdenotes
          rw [smallDenotes, if_neg hother] at hsmall
          split at hsmall
          · cases hsmall
          · split at hsmall <;> cases hsmall
        obtain rfl | rfl := htext
        · obtain hnil | hlast := hopen
          · cases hnil
          · cases hlast
        · exact smallDenotes_child name hne
  hunnamed := by
    intro object
    cases object <;> rfl

/-- The state after the mount of `/a`. -/
def mountedState : WalkState :=
  ⟨(vsnfsFhget noInodes mountFh [] (some newInode)).2, ⟨some [firstRoot], false⟩, mountedRoot⟩

/-- The name `x`, without other requests. -/
def walkX : WalkStep where
  name := nameX
  others := []
  arrival := Arrival.of ((ClientArgs.lookupargs mountFh nameX).message 0) netKernel
  newfh := zeroFh
  after := []
  alloc := newInode

theorem walkX_fine : LookupFine namedTree mountedState walkX where
  others := ⟨trivial, rfl⟩
  answers := netTree_answers
  arrives := by
    rintro fh ⟨⟩
    exact ⟨memOf_holds _, by decide, ⟨rfl, rfl, rfl, rfl, rfl⟩⟩
  short := by
    rintro fh ⟨⟩
    exact netTree_orderly trivial rfl (by decide) (by decide)
  alloc := rfl

/-- The client that mounts `/a` and looks up `x` ends with an inode of the file. -/
theorem client_walks_to_x :
    ∃ mounted, mountRoot (Arrival.of mountMessage netKernel) Server.load pathA zeroFh [] newInode = some mounted ∧
      ∃ final, walkFrom walkStep mounted [walkX] = some final ∧ InodeOf namedTree .x final.dir := by
  have hfine : MountFine namedTree Server.load (Arrival.of mountMessage netKernel) pathA :=
    ⟨memOf_holds _, by decide, ⟨rfl, rfl⟩, rfl, rfl,
      netTree_orderly (List.cons_ne_nil _ _) rfl (by decide) (by decide)⟩
  obtain ⟨mounted, hmounted, -, hwalks⟩ := client_walk_follows_tree namedTree netTree_distinct [] trivial rfl
    (Arrival.of mountMessage netKernel) pathA hfine .top rfl rfl zeroFh [] newInode rfl
  have hstate : mountRoot (Arrival.of mountMessage netKernel) Server.load pathA zeroFh [] newInode =
      some mountedState := by rfl
  obtain rfl : mountedState = mounted := Option.some.inj (hstate.symm.trans hmounted)
  exact ⟨mountedState, hstate, hwalks [walkX] .x ⟨walkX_fine, fun _ _ => trivial⟩ rfl⟩

end Vsnfs
