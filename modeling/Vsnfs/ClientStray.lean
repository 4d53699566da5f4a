import Vsnfs.ClientWalk

/-! A client's lookups while others do anything, mounts included. The mount of another client empties the
table, and LOOKUP answers a handle it does not find with `vsnfs_ok` and no handle. The client takes the
zeroes for the handle of number 0, and the VFS gets an inode without a handle, in which nothing can be
looked up. Short of that, a walk ends with an inode of the object that the tree has for its names. -/

namespace Vsnfs

open Base

/-! ### Lookups among other requests -/

section Over

variable {Object : Type} (tree : NamedTree Object)

/-- A lookup that the VFS makes: of a name, in a directory. The requests of others are over the tree, mounts
or not; the call arrives, and the kernels may refuse their memory. -/
structure LookupOver (state : WalkState) (walk : WalkStep) : Prop where
  others : Along step (Orderly tree.toFileTree) state.server walk.others
  named : walk.name.bytes ≠ []
  dir : state.dir.iOp = .dir
  memory : ∀ fh, state.dir.iPrivate = some fh →
    HoldsAt walk.arrival.mem 0 ((ClientArgs.lookupargs fh walk.name).encode 0)
  room : HeadRoom walk.arrival.svc
  small : SmallErrnos walk.arrival.kernel.lookup.pathLookup
  orderly : ∀ fh, state.dir.iPrivate = some fh →
    Orderly tree.toFileTree (runFrom step state.server walk.others)
      (.lookup ⟨fh, walk.arrival.after, walk.name⟩ walk.arrival.kernel.lookup)
  alloc : walk.alloc.iPrivate = none

/-- A lookup in this directory that ends with an inode without a handle: others have mounted since the last
one, or the name is one of an object that is neither a file nor a directory. -/
structure Strays (object : Object) (walk : WalkStep) (state : WalkState) : Prop where
  bare : state.dir.iPrivate = none
  why : (∃ event ∈ walk.others, ¬ event.MountFree) ∨
    ∃ entry, tree.child object walk.name.bytes = some entry ∧ (tree.inode entry).kind = .other

end Over

/-! ### What a lookup has returned -/

/-- An inode that `vsnfs_lookup` hands on is the one of the handle that the reply carries. -/
theorem lookup_inode {cache : InodeCache} {call : LookupCall} {dirFh : VsnfsFh}
    (hdir : call.dir.iPrivate = some dirFh) {fetched : Bool} {inode : ClientInode} {cache' : InodeCache}
    (hlookup : vsnfsLookup cache call = some ⟨fetched, .ok (some inode), cache'⟩) :
    ∃ fh, vsnfsXdrFh (call.rpc (vsnfsXdrLookupargs dirFh call.name)) call.newfh = some (0, fh) ∧
      vsnfsFhget cache fh call.after call.inodeAlloc = (.ok inode, cache') := by
  rw [vsnfsLookup] at hlookup
  split at hlookup
  · cases hlookup
  simp only [vsnfsDoLookup, hdir, vsnfsProcLookup] at hlookup
  by_cases halloc : call.argpAlloc = false
  · rw [if_pos halloc] at hlookup
    cases hlookup
  rw [if_neg halloc] at hlookup
  cases hread : vsnfsXdrFh (call.rpc (vsnfsXdrLookupargs dirFh call.name)) call.newfh with
  | none =>
      rw [hread] at hlookup
      cases hlookup
  | some answer =>
      obtain ⟨ret, fh⟩ := answer
      rw [hread] at hlookup
      simp only at hlookup
      by_cases hret : ret = 0
      · rw [if_pos hret] at hlookup
        simp only at hlookup
        rw [if_neg (by decide), if_neg (by decide)] at hlookup
        refine ⟨fh, by rw [hret], ?_⟩
        split at hlookup
        · cases hlookup
        · rename_i hget
          cases hlookup
          exact hget
      · rw [if_neg hret] at hlookup
        simp only at hlookup
        rw [if_neg (by decide), if_pos (by decide)] at hlookup
        cases hlookup

/-- What a step of the walk has had from the server, and what it has made of it. -/
theorem walkStep_took {state state' : WalkState} {walk : WalkStep} {fh : VsnfsFh}
    (hprivate : state.dir.iPrivate = some fh) (hwalk : walkStep state walk = some state') :
    ∃ results resp,
      serveCall walk.arrival (runFrom step state.server walk.others)
        ((ClientArgs.lookupargs fh walk.name).message 0) = (state'.server, some results) ∧
      vsnfsXdrFh results walk.newfh = some (0, resp) ∧
      vsnfsFhget state.cache resp walk.after (some walk.alloc) = (.ok state'.dir, state'.cache) := by
  simp only [walkStep, hprivate] at hwalk
  cases hserved : serveCall walk.arrival (runFrom step state.server walk.others)
      ((ClientArgs.lookupargs fh walk.name).message 0) with
  | mk server answer =>
      rw [hserved] at hwalk
      cases answer with
      | none => cases hwalk
      | some results =>
          simp only at hwalk
          split at hwalk
          · rename_i fetched inode cache hlookup
            cases hwalk
            have hdir : (walk.call state.dir results).dir.iPrivate = some fh := hprivate
            obtain ⟨resp, hread, hget⟩ := lookup_inode hdir hlookup
            exact ⟨results, resp, rfl, hread, hget⟩
          · cases hwalk

/-- A lookup that the client takes for a success was one at the server, which has left the handle. -/
theorem lookup_served {server server' : Server} {arrival : Arrival} {fh newfh resp : VsnfsFh} {name : FileName}
    {results : List Byte} (hmem : HoldsAt arrival.mem 0 ((ClientArgs.lookupargs fh name).encode 0))
    (hroom : HeadRoom arrival.svc) (hsmall : SmallErrnos arrival.kernel.lookup.pathLookup)
    (hserved : serveCall arrival server ((ClientArgs.lookupargs fh name).message 0) = (server', some results))
    (hread : vsnfsXdrFh results newfh = some (0, resp)) :
    (server.down = false ∧ server' = step server (.lookup ⟨fh, arrival.after, name⟩ arrival.kernel.lookup)) ∧
      (vsnfsdProcLookup server.head ⟨fh, arrival.after, name⟩ zeroFh arrival.kernel.lookup).status =
        some (vsnfserr .ok) ∧
      resp = (vsnfsdProcLookup server.head ⟨fh, arrival.after, name⟩ zeroFh arrival.kernel.lookup).resp := by
  have hup : server.down = false := by
    rw [← Bool.not_eq_true]
    intro hdown
    rw [serveCall] at hserved
    split at hserved
    · cases hserved
    · rw [if_pos hdown] at hserved
      cases hserved
  rw [serveCall_message hmem hup, Prod.mk.injEq] at hserved
  obtain ⟨hstep, hresults⟩ := hserved
  rw [resultsOf_eq hroom, Option.map_eq_some_iff] at hresults
  obtain ⟨status, hstatus, rfl⟩ := hresults
  have hreturned : (vsnfsdProcLookup server.head ⟨fh, arrival.after, name⟩ zeroFh
      arrival.kernel.lookup).status = some status := hstatus
  have htruly := lookup_readTruly hsmall hreturned
  refine ⟨⟨hup, hstep.symm⟩, ?_⟩
  have hdecoded := vsnfsXdrFh_results status
    (vsnfsdProcLookup server.head ⟨fh, arrival.after, name⟩ zeroFh arrival.kernel.lookup).resp newfh
  have hsame := hdecoded.symm.trans hread
  by_cases hok : status = vsnfserr .ok
  · rw [if_pos hok] at hsame
    exact ⟨hreturned.trans (congrArg some hok), (congrArg Prod.snd (Option.some.inj hsame)).symm⟩
  · rw [if_neg hok] at hsame
    exact absurd (htruly.mp (congrArg Prod.fst (Option.some.inj hsame))) hok

/-! ### One lookup -/

section Stray

variable {Object : Type} {tree : NamedTree Object}

/-- The inode for number 0, or for an object that is neither a file nor a directory, has no handle. -/
theorem fhget_bare (hdistinct : tree.toFileTree.DistinctNumbers) {cache cache' : InodeCache}
    (hcache : TrueCache tree.toFileTree cache) {fh : VsnfsFh} {after : List Byte} {alloc inode : ClientInode}
    (hwhy : fh.ino after = 0 ∨ ∃ object, fh.ino after = (tree.inode object).ino ∧ (tree.inode object).kind = .other)
    (htype : fh.type = 0) (halloc : alloc.iPrivate = none)
    (hget : vsnfsFhget cache fh after (some alloc) = (.ok inode, cache')) : inode.iPrivate = none := by
  have hunsupported : ¬ fh.Supported := by
    rw [VsnfsFh.Supported, htype]
    decide
  cases hcached : cache (fh.ino after) with
  | none =>
      obtain ⟨filled, hfilled, -, -, hbare⟩ := fhget_new alloc hcached
      cases hfilled.symm.trans hget
      exact (hbare hunsupported).trans halloc
  | some found =>
      simp only [vsnfsFhget, igetLocked, hcached] at hget
      cases hget
      cases hcache _ inode hcached with
      | unfinished hnone => exact hnone
      | finished other hnumber hserves htyped =>
          obtain hzero | ⟨object, hino, hkind⟩ := hwhy
          · have hpositive := tree.hpositive other
            rw [hnumber, hzero] at hpositive
            exact absurd hpositive (by decide)
          · obtain rfl := hdistinct other object (hnumber.trans hino)
            rw [hkind] at htyped
            obtain ⟨hreg, -⟩ | ⟨hdir, -⟩ := htyped
            · exact absurd hreg (by decide)
            · exact absurd hdir (by decide)

/-- A directory on the client is one in the tree. -/
theorem InodeOf.directory {object : Object} {inode : ClientInode} (h : InodeOf tree object inode)
    (hop : inode.iOp = .dir) : (tree.inode object).kind = .dir := by
  obtain ⟨-, ⟨-, -, hfile, -⟩ | ⟨htype, -⟩⟩ := h
  · cases hop.symm.trans hfile
  · cases hkind : (tree.inode object).kind with
    | dir => rfl
    | reg =>
        rw [hkind] at htype
        exact absurd htype (by decide)
    | other =>
        rw [hkind] at htype
        exact absurd htype (by decide)

/-- The entry of a directory is gone only when others have mounted. -/
theorem mounted_of_forgotten {server : Server} {node : Node} (hnode : node ∈ server.head.entries)
    {others : List Event} (hgone : ∀ kept ∈ (runFrom step server others).head.entries, kept.ino ≠ node.ino) :
    ∃ event ∈ others, ¬ event.MountFree := by
  by_contra hnone
  have hfree : ∀ event ∈ others, event.MountFree := fun event hevent =>
    not_not.mp fun hmounts => hnone ⟨event, hevent, hmounts⟩
  exact hgone node (run_mem_of_mountFree hnode hfree) rfl

/-- A lookup that has found the entry of its directory returns the handle of an entry in the tree. -/
theorem lookup_child (hdistinct : tree.toFileTree.DistinctNumbers) {server : Server} {object : Object}
    (hserver : TrueServer tree.toFileTree server) (hslashes : DirectoriesOpen tree.hierarchy server)
    {nodes : List Node} (hhead : server.head = some nodes) (args : LookupArgs) {env : LookupEnv}
    (hanswers : tree.toFileTree.Answers env.pathLookup) (hnamed : args.filename.bytes ≠ [])
    (hino : args.fh.ino args.after = (tree.inode object).ino) (hdir : (tree.inode object).kind = .dir)
    {parent : Node} (hfind : findNode nodes (args.fh.ino args.after) = some parent)
    (hok : (vsnfsdProcLookup (some nodes) args zeroFh env).status = some (vsnfserr .ok)) :
    ∃ entry, tree.child object args.filename.bytes = some entry ∧
      (vsnfsdProcLookup (some nodes) args zeroFh env).resp = lookupResp zeroFh (tree.inode entry) ∧
      ∃ node ∈ (vsnfsdProcLookup (some nodes) args zeroFh env).head.entries, node.ino = (tree.inode entry).ino := by
  obtain ⟨inode, hresolved, hword, hresp, htable⟩ := lookup_of_ok hok hfind
  have hfound := PathLookup.eq_found hword hresolved.hdentry
  obtain ⟨entry, hdenotes, rfl⟩ := hanswers.denotes_of_found hfound
  have hparent : server.head.bind (fun nodes => findNode nodes (tree.inode object).ino) = some parent := by
    rw [hhead, ← hino]
    exact hfind
  obtain ⟨hmem, -, hpath⟩ := hserver.found_denotes hdistinct hparent
  have hopen : OpenEnded parent.path := hslashes parent hmem object ⟨hpath, hdir⟩
  have hslash : slash ∉ args.filename.bytes := fun hbyte => (args.filename.hclean slash hbyte).2 rfl
  have hchild := tree.hchild parent.path args.filename.bytes object hpath hdir hopen hnamed hslash
  refine ⟨entry, hchild.symm.trans hdenotes, hresp, ?_⟩
  obtain ⟨old, hold, hsame⟩ | ⟨-, hadded⟩ := htable
  · rw [hsame]
    exact ⟨old, mem_of_findNode hold, ino_of_findNode hold⟩
  · rw [hadded]
    exact ⟨_, List.mem_cons_self, rfl⟩

/-- **One lookup.** The inode that it returns is one of the tree's entry for the name, or has no handle. -/
theorem walkStep_follows (hdistinct : tree.toFileTree.DistinctNumbers) (state : WalkState) (object : Object)
    (walk : WalkStep) (state' : WalkState) (hat : AtObject tree state object) (hover : LookupOver tree state walk)
    (hwalk : walkStep state walk = some state') :
    (∃ entry, tree.enter object walk.name = some entry ∧ AtObject tree state' entry) ∨
      Strays tree object walk state' := by
  obtain ⟨⟨-, fh, hprivate, hreads, -⟩, -⟩ := hat.inode
  have hdir := hat.inode.directory hover.dir
  obtain ⟨hserver, hslashes⟩ := orderly_keeps hat.server hat.slashes hover.others
  obtain ⟨results, resp, hserved, hread, hget⟩ := walkStep_took hprivate hwalk
  obtain ⟨⟨hup, hstep⟩, hok, hresp⟩ :=
    lookup_served (hover.memory fh hprivate) hover.room hover.small hserved hread
  have horderly := hover.orderly fh hprivate
  obtain ⟨node, hnode, hino⟩ := hat.entry
  cases hhead : (runFrom step state.server walk.others).head with
  | none =>
      rw [hhead] at hok
      cases hok
  | some nodes =>
      rw [hhead] at hok hresp
      cases hfind : findNode nodes (fh.ino walk.arrival.after) with
      | none =>
          -- the table was emptied, and the zeroed handle comes back
          have hzero : (vsnfsdProcLookup (some nodes) ⟨fh, walk.arrival.after, walk.name⟩ zeroFh
              walk.arrival.kernel.lookup).resp = zeroFh := lookup_unknown_resp zeroFh _ hfind
          rw [hresp.trans hzero] at hget
          refine .inr ⟨fhget_bare hdistinct hat.cache (.inl (zeroFh_ino _)) rfl hover.alloc hget, .inl ?_⟩
          refine mounted_of_forgotten hnode fun kept hkept => ?_
          rw [hhead] at hkept
          rw [hino, ← hreads walk.arrival.after]
          exact (findNode_eq_none_iff nodes _).mp hfind kept hkept
      | some parent =>
          obtain ⟨entry, hchild, hhandle, hentry⟩ := lookup_child hdistinct hserver hslashes hhead
            ⟨fh, walk.arrival.after, walk.name⟩ (horderly.answers _ rfl) hover.named (hreads _) hdir hfind hok
          rw [hresp.trans hhandle] at hget
          obtain ⟨hnumber, htype⟩ :
              (∀ after, (lookupResp zeroFh (tree.inode entry)).ino after = (tree.inode entry).ino) ∧
                (lookupResp zeroFh (tree.inode entry)).type = kindType (tree.inode entry).kind :=
            lookupResp_spells entry
          by_cases hkind : (tree.inode entry).kind = .other
          · refine .inr ⟨fhget_bare hdistinct hat.cache (.inr ⟨entry, hnumber _, hkind⟩) ?_ hover.alloc hget,
              .inr ⟨entry, hchild, hkind⟩⟩
            rw [htype, hkind]
            rfl
          · have henter : tree.enter object walk.name = some entry := by
              rw [NamedTree.enter, if_pos hdir, hchild]
              simp [hkind]
            obtain ⟨inode, hfetched, hinode⟩ :=
              fhget_inodeOf hdistinct hat.cache hnumber htype hkind walk.after walk.alloc
            rw [hget] at hfetched
            cases hfetched
            refine .inl ⟨entry, henter, ?_, ?_, ?_, ?_, hinode⟩
            · rw [hstep]
              exact step_trueServer hserver horderly
            · rw [hstep]
              exact step_directoriesOpen _ _ hslashes horderly.answers
            · rw [hstep, step, hup, if_neg Bool.false_ne_true, hhead]
              exact hentry
            · have halloc : ∀ alloc ∈ some walk.alloc, alloc.iPrivate = none := by
                rintro _ ⟨⟩
                exact hover.alloc
              have hcache := fhget_trueCache hat.cache (lookupResp_trueHandle entry) walk.after halloc
              rw [hget] at hcache
              exact hcache

variable (tree) in
/-- **A walk is not misdirected.** The client mounts a directory and looks up one name after another, whatever
requests the server serves for others in between, mounts included, and whatever memory the kernels refuse. A
walk that has a result ends with an inode of the object that the tree has for its names, or with an inode
without a handle; the latter only when others have mounted since the call before the last one, or the last
name is one of an object that is neither a file nor a directory. -/
theorem client_walk_not_misdirected (hdistinct : tree.toFileTree.DistinctNumbers) (before : List Event)
    (hbefore : Along step (Orderly tree.toFileTree) Server.load before)
    (hup : (runFrom step Server.load before).down = false) (arrival : Arrival) (path : PathName)
    (hfine : MountFine tree (runFrom step Server.load before) arrival path) (root : Object)
    (hroot : tree.denotes (withSlash path.bytes) = some root) (hdir : (tree.inode root).kind = .dir)
    (resp : VsnfsFh) (after : List Byte) (alloc : ClientInode) (halloc : alloc.iPrivate = none) :
    ∃ mounted, mountRoot arrival (runFrom step Server.load before) path resp after alloc = some mounted ∧
      ∀ (steps : List WalkStep) (final : WalkState), AlongWalk walkStep (LookupOver tree) mounted steps →
        walkFrom walkStep mounted steps = some final →
          (∃ target, walkFrom tree.enter root (steps.map WalkStep.name) = some target ∧
            InodeOf tree target final.dir) ∨
          ∃ front last dir, steps = front ++ [last] ∧
            walkFrom tree.enter root (front.map WalkStep.name) = some dir ∧ Strays tree dir last final := by
  obtain ⟨hserver, hslashes⟩ := run_trueServer hbefore
  obtain ⟨mounted, hmounted, hat⟩ :=
    mountRoot_at hdistinct hserver hslashes hup hfine hroot hdir resp after halloc
  refine ⟨mounted, hmounted, fun steps final halong hwalk => ?_⟩
  have hends (object : Object) (walk : WalkStep) (state : WalkState) (hstrays : Strays tree object walk state)
      (next : WalkStep) : walkStep state next = none := by
    simp only [walkStep, hstrays.bare]
  obtain ⟨target, htarget, hend⟩ | ⟨front, last, dir, hsteps, hfront, hstrays⟩ :=
    walkFrom_follows (walkStep_follows hdistinct) hends hat halong hwalk
  · exact .inl ⟨target, htarget, hend.inode⟩
  · exact .inr ⟨front, last, dir, hsteps, hfront, hstrays⟩

end Stray

/-! ### A mount in between -/

/-- Another client's mount of `/a`, for whose entry there is no memory. -/
def failingMount : Event := .getroot ⟨pathA⟩ { netKernel.getroot with nodePathAlloc := false }

/-- The name `x`, looked up after it. -/
def walkXLate : WalkStep := { walkX with others := [failingMount] }

theorem failingMount_orderly (server : Server) : Orderly netTree server failingMount where
  root := List.cons_ne_nil _ _
  answers := by
    rintro _ ⟨⟩
    exact netTree_answers
  inserts := by
    intro inode node hinserts
    cases hinserts with
    | root _ _ _ _ _ _ _ hnodePath => cases hnodePath

theorem walkXLate_over : LookupOver namedTree mountedState walkXLate where
  others := ⟨failingMount_orderly _, trivial⟩
  named := List.cons_ne_nil _ _
  dir := rfl
  memory := by
    rintro fh ⟨⟩
    exact memOf_holds _
  room := by decide
  small := smallLookup_smallErrnos 9
  orderly := by
    rintro fh ⟨⟩
    exact netTree_orderly trivial rfl (by decide) (by decide)
  alloc := rfl

/-- The client that was at `/a` when the other one mounted gets an inode without a handle for `x`. -/
theorem mount_strays_walk :
    ∃ mounted, mountRoot (Arrival.of mountMessage netKernel) Server.load pathA zeroFh [] newInode = some mounted ∧
      ∃ final, walkFrom walkStep mounted [walkXLate] = some final ∧ Strays namedTree .top walkXLate final := by
  have hfine : MountFine namedTree Server.load (Arrival.of mountMessage netKernel) pathA :=
    ⟨memOf_holds _, by decide, ⟨rfl, rfl⟩, rfl, rfl,
      netTree_orderly (List.cons_ne_nil _ _) rfl (by decide) (by decide)⟩
  obtain ⟨mounted, hmounted, hwalks⟩ := client_walk_not_misdirected namedTree netTree_distinct [] trivial rfl
    (Arrival.of mountMessage netKernel) pathA hfine .top rfl rfl zeroFh [] newInode rfl
  have hstate : mountRoot (Arrival.of mountMessage netKernel) Server.load pathA zeroFh [] newInode =
      some mountedState := by rfl
  obtain rfl : mountedState = mounted := Option.some.inj (hstate.symm.trans hmounted)
  obtain ⟨final, hfinal, hbare⟩ : ∃ final, walkFrom walkStep mountedState [walkXLate] = some final ∧
      final.dir.iPrivate = none := ⟨_, by rfl, by rfl⟩
  refine ⟨mountedState, hstate, final, hfinal, ?_⟩
  obtain ⟨target, -, ⟨-, fh, hprivate, -⟩, -⟩ | ⟨front, last, dir, hsteps, hfront, hstrays⟩ :=
    hwalks [walkXLate] final ⟨walkXLate_over, fun _ _ => trivial⟩ hfinal
  · cases hbare.symm.trans hprivate
  · obtain ⟨rfl, hlast⟩ : front = [] ∧ last = walkXLate := by
      have hsplit := List.append_eq_singleton_iff.mp hsteps.symm
      simpa using hsplit
    cases hfront
    rw [← hlast]
    exact hstrays

end Vsnfs
