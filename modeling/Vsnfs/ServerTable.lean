import Vsnfs.ServerRun

/-! The lookup table over whole runs: when a failed request leaves it as it was, and how long an
entry is found by the handle that was issued for it. -/

namespace Vsnfs

open Base

/-! ### Answers for concrete requests -/

/-- All allocations succeed, and every path lookup has this answer. -/
def GetrootEnv.answering (answer : PathLookup) : GetrootEnv :=
  { ndAlloc := true, pathAlloc := true, nodeAlloc := true, nodePathAlloc := true,
    pathLookup := fun _ => answer, junk := [], nodeJunk := [], stray := 0 }

def LookupEnv.answering (answer : PathLookup) : LookupEnv :=
  { pathAlloc := true, ndAlloc := true, nodeAlloc := true, nodePathAlloc := true,
    pathLookup := fun _ => answer, junk := [], nodeJunk := [], stray := 0 }

/-- GETROOT of `/x` for a one-letter `x`. -/
def mountOf (letter : Byte) (hletter : letter ≠ 0) (answer : PathLookup) : Event :=
  .getroot ⟨⟨[slash, letter], (by decide : 2 ≤ vsnfsMaxpathlen), by
    intro byte hbyte
    rcases List.mem_pair.mp hbyte with h | h
    · rw [h]; decide
    · rw [h]; exact hletter⟩⟩ (GetrootEnv.answering answer)

abbrev LookupRequest := LookupArgs × LookupEnv

/-- The path `/a`. -/
def pathA : PathName := ⟨[slash, 0x61], by decide, by decide⟩

/-- A name of one letter. -/
def oneLetterName : FileName := ⟨[0x66], by decide, by decide⟩

/-- A LOOKUP of a one-letter name under the object with number 5. -/
def lookupOf (letter : Byte) (hletter : letter ≠ 0 ∧ letter ≠ slash) (answer : PathLookup) :
    LookupRequest :=
  (⟨zeroFh.print 5, [], ⟨[letter], (by decide : 1 ≤ vsnfsMaxnamlen), by
    intro byte hbyte
    rwa [List.mem_singleton.mp hbyte]⟩⟩, LookupEnv.answering answer)

/-! ### Failed requests -/

/-- The result of `path_lookup` is a status other than `vsnfs_ok` exactly when it failed. -/
theorem PathLookup.word_ne_ok_iff (answer : PathLookup) : answer.word ≠ vsnfserr .ok ↔ answer.errno ≠ 0 := by
  rw [vsnfserr_ok]
  cases answer with
  | found inode => exact iff_of_false (fun h => h rfl) (fun h => h rfl)
  | failed failure stale =>
      have hword := failure.word_negative
      refine iff_of_true ?_ (Int.ne_of_lt failure.hneg)
      intro hzero
      have hnat : (BitVec.ofInt 32 failure.errno).toNat = 0 := congrArg BitVec.toNat hzero
      omega

/-- A request that returns a status other than `vsnfs_ok` leaves the entries as they were. -/
def FailSafe (head : Head) (event : Event) : Prop :=
  ∀ status, (serve head event).status = some status → status ≠ vsnfserr .ok →
    (serve head event).head.entries = head.entries

/-- The branches that go wrong are not taken. GETROOT goes wrong once it has a dentry that is no
regular file and has emptied the table: then a failed allocation of the path, or a failed path lookup,
is only harmless when the table was already what is left. LOOKUP goes wrong when it adds an entry for
the dentry a failed path lookup left behind. -/
def KeepsOnFailure (head : Head) : Event → Prop
  | .getroot args env => ∀ root, env.ndAlloc = true ∧ env.pathAlloc = true →
      (rootAnswer args env).dentry = some root → root.kind ≠ .reg → env.nodeAlloc = true →
        (env.nodePathAlloc = false → head.entries = []) ∧
        (env.nodePathAlloc = true → (rootAnswer args env).errno ≠ 0 →
          head.entries = [rootNode args env root])
  | .lookup args env => ∀ nodes node inode, head = some nodes →
      LookupResolved nodes args env node inode → findNode nodes inode.ino = none →
        env.nodeAlloc = true → env.nodePathAlloc = true → (lookupAnswer node args env).errno = 0
  | _ => True

theorem neg_vsnfserr_nospc_ne_ok : -vsnfserr .nospc ≠ vsnfserr .ok := by decide

/-- A request that leaves the table is safe. -/
theorem failSafe_of_head_eq {head : Head} {event : Event} (hhead : (serve head event).head = head) :
    FailSafe head event := by
  intro _ _ _
  rw [hhead]

/-- For a mount that has come to the allocation of the path, the condition is about the outcome of that
allocation. -/
theorem keepsOnFailure_getroot_iff {head : Head} {args : GetrootArgs} {env : GetrootEnv} {root : Inode}
    (halloc : env.ndAlloc = true ∧ env.pathAlloc = true)
    (hdentry : (rootAnswer args env).dentry = some root) (hkind : root.kind ≠ .reg)
    (hnode : env.nodeAlloc = true) :
    KeepsOnFailure head (.getroot args env) ↔
      (env.nodePathAlloc = false → head.entries = []) ∧
        (env.nodePathAlloc = true → (rootAnswer args env).errno ≠ 0 →
          head.entries = [rootNode args env root]) := by
  constructor
  · intro hkeeps
    exact hkeeps root halloc hdentry hkind hnode
  · intro hboth other _ hother _ _
    obtain rfl : root = other := Option.some.inj (hdentry.symm.trans hother)
    exact hboth

theorem failSafe_getroot_iff (head : Head) (args : GetrootArgs) (env : GetrootEnv) :
    FailSafe head (.getroot args env) ↔ KeepsOnFailure head (.getroot args env) := by
  cases getroot_exit head args zeroFh env with
  | noMemory halloc hstatus hhead =>
      refine iff_of_true (failSafe_of_head_eq hhead) ?_
      intro root hboth
      exact absurd hboth halloc
  | noDentry halloc hdentry hstatus hhead =>
      refine iff_of_true (failSafe_of_head_eq hhead) ?_
      intro root _ hsome
      cases hdentry.symm.trans hsome
  | notDir root halloc hdentry hkind hstatus hhead =>
      refine iff_of_true (failSafe_of_head_eq hhead) ?_
      intro other _ hsome hother
      obtain rfl : root = other := Option.some.inj (hdentry.symm.trans hsome)
      exact absurd hkind hother
  | noNode root halloc hdentry hkind hnode hstatus hhead =>
      refine iff_of_true ?_ ?_
      · intro status hsome
        cases hstatus.symm.trans hsome
      · intro _ _ _ _ htrue
        cases hnode.symm.trans htrue
  | noNodePath root halloc hdentry hkind hnode hnodePath hstatus hhead =>
      simp only [keepsOnFailure_getroot_iff halloc hdentry hkind hnode, FailSafe, serve, Outcome.served, hhead,
        hstatus, hnodePath, Bool.false_eq_true, false_implies, true_implies, and_true]
      constructor
      · intro hsafe
        exact (hsafe _ rfl neg_vsnfserr_nospc_ne_ok).symm
      · intro hempty _ _ _
        exact hempty.symm
  | added root halloc hdentry hkind hnode hnodePath hstatus hhead =>
      simp only [keepsOnFailure_getroot_iff halloc hdentry hkind hnode, FailSafe, serve, Outcome.served, hhead,
        hstatus, hnodePath, Bool.true_eq_false, false_implies, true_implies, true_and]
      constructor
      · intro hsafe herrno
        exact (hsafe _ rfl ((PathLookup.word_ne_ok_iff _).mpr herrno)).symm
      · intro hroot status hsome hne
        cases hsome
        exact (hroot ((PathLookup.word_ne_ok_iff _).mp hne)).symm

theorem failSafe_lookup_iff (head : Head) (args : LookupArgs) (env : LookupEnv) :
    FailSafe head (.lookup args env) ↔ KeepsOnFailure head (.lookup args env) := by
  simp only [FailSafe, KeepsOnFailure]
  cases head with
  | none => exact iff_of_true (fun _ _ _ => rfl) (fun _ _ _ hnone => by cases hnone)
  | some nodes =>
      by_cases hadds : ∃ node inode, LookupResolved nodes args env node inode ∧
          findNode nodes inode.ino = none ∧ env.nodeAlloc = true ∧ env.nodePathAlloc = true
      · obtain ⟨node, inode, hfound, hnew, hnode, hnodePath⟩ := hadds
        obtain ⟨hstatus, hhead⟩ := lookup_added hfound hnew hnode hnodePath
        rw [hhead, hstatus]
        constructor
        · rintro hsafe _ other _ ⟨⟩ hother _ _ _
          obtain ⟨rfl, -⟩ := hfound.unique hother
          by_contra herrno
          have hentries := hsafe _ rfl ((PathLookup.word_ne_ok_iff _).mpr herrno)
          have hlength := congrArg List.length hentries
          simp only [Head.entries, Option.getD_some, List.length_cons] at hlength
          omega
        · intro hkeeps status hsome hne
          cases hsome
          have herrno := (PathLookup.word_ne_ok_iff _).mp hne
          exact absurd (hkeeps nodes node inode rfl hfound hnew hnode hnodePath) herrno
      · -- nothing is added, and the branch that goes wrong is not taken
        refine iff_of_true ?_ ?_
        · intro status _ _
          rcases lookup_table nodes args zeroFh env with
            hsame | ⟨node, inode, hfound, hnew, hnode, hnodePath, -⟩
          · exact congrArg Head.entries hsame
          · exact absurd ⟨node, inode, hfound, hnew, hnode, hnodePath⟩ hadds
        · rintro _ node inode ⟨⟩ hfound hnew hnode hnodePath
          exact absurd ⟨node, inode, hfound, hnew, hnode, hnodePath⟩ hadds

theorem failSafe_iff (head : Head) (event : Event) : FailSafe head event ↔ KeepsOnFailure head event := by
  cases event with
  | getroot args env => exact failSafe_getroot_iff head args env
  | lookup args env => exact failSafe_lookup_iff head args env
  | null dummy => exact iff_of_true (fun _ _ _ => rfl) trivial
  | readdir args env =>
      refine iff_of_true (fun _ _ _ => ?_) trivial
      exact congrArg Head.entries (readdir_head head args env)
  | read args env =>
      refine iff_of_true (fun _ _ _ => ?_) trivial
      exact congrArg Head.entries (read_head head args env)

/-- **Failed requests and the table.** In every state that a run reaches, a request keeps the table on
failure exactly when it stays off the branches that go wrong. -/
theorem failed_request_keeps_table_iff (before : List Event) (event : Event) :
    FailSafe (runFrom step Server.load before).head event ↔
      KeepsOnFailure (runFrom step Server.load before).head event :=
  failSafe_iff _ event

/-- A second mount whose path lookup fails with `-ENOENT` reports the failure, and the entry of the
first mount is gone. -/
theorem failed_mount_drops_table :
    ¬ FailSafe
      (runFrom step Server.load [mountOf 0x61 (by decide) (.found ⟨5, .dir⟩)]).head
      (mountOf 0x62 (by decide) (.failed ⟨-enoent, by decide, by decide⟩ (some ⟨6, .dir⟩))) := by
  intro hsafe
  have hentries := hsafe (BitVec.ofInt 32 (-enoent)) rfl (by decide)
  exact absurd hentries (by decide)

/-! ### Issued handles -/

/-- The handle of an entry resolves to its path, on both searches: the one behind READDIR and READ
copies the path into its buffer, terminator included, and the one of LOOKUP finds the entry. -/
structure Resolves (head : Head) (node : Node) : Prop where
  opens : ∀ (fh : VsnfsFh) (after junk : List Byte), fh.ino after = node.ino →
    ∃ path, vsnfsdFhToPath head fh after (Buffer.alloc vsnfsMaxpathlen junk) vsnfsMaxpathlen =
      some (0, path) ∧ path.cstr = node.path ∧ path.WritesInside
  found : ∀ (fh : VsnfsFh) (after : List Byte), fh.ino after = node.ino →
    head.bind (fun nodes => findNode nodes (fh.ino after)) = some node

/-- A mount that empties the table puts this very entry back, unless it takes the server down. Every
other request keeps every entry. -/
def KeepsNode (node : Node) : Event → Prop
  | .getroot args env => ∀ root, env.ndAlloc = true ∧ env.pathAlloc = true →
      (rootAnswer args env).dentry = some root → root.kind ≠ .reg → env.nodeAlloc = true →
        env.nodePathAlloc = true ∧ rootNode args env root = node
  | _ => True

/-- Only a mount takes entries out of the table. -/
theorem serve_mem_of_ne_getroot {head : Head} {node : Node} (hmem : node ∈ head.entries) {event : Event}
    (hne : ∀ args env, event ≠ .getroot args env) : node ∈ (serve head event).head.entries := by
  cases serve_tableStep head event with
  | same hsame => rwa [hsame]
  | insert nodes new hhead _ hhead' =>
      rw [hhead] at hmem
      rw [hhead']
      exact List.mem_cons_of_mem new hmem
  | reset args env hevent => exact absurd hevent (hne args env)

theorem serve_keepsNode {head : Head} {node : Node} (hmem : node ∈ head.entries) {event : Event}
    (hkeeps : KeepsNode node event) :
    (serve head event).status = none ∨ node ∈ (serve head event).head.entries := by
  by_cases hmount : ∃ args env, event = .getroot args env
  · obtain ⟨args, env, rfl⟩ := hmount
    simp only [serve, Outcome.served]
    cases getroot_exit head args zeroFh env with
    | noMemory _ _ hhead => exact Or.inr (by rwa [hhead])
    | noDentry _ _ hstatus _ => exact Or.inl hstatus
    | notDir _ _ _ _ _ hhead => exact Or.inr (by rwa [hhead])
    | noNode _ _ _ _ _ hstatus _ => exact Or.inl hstatus
    | noNodePath root halloc hdentry hkind hnode hnodePath _ _ =>
        have hboth := hkeeps root halloc hdentry hkind hnode
        cases hnodePath.symm.trans hboth.1
    | added root halloc hdentry hkind hnode _ _ hhead =>
        have hboth := hkeeps root halloc hdentry hkind hnode
        refine Or.inr ?_
        rw [hhead, hboth.2]
        exact List.mem_singleton.mpr rfl
  · exact Or.inr (serve_mem_of_ne_getroot hmem (fun args env h => hmount ⟨args, env, h⟩))

/-- A path shorter than the buffer is copied with its terminator. -/
theorem strncpyBytes_of_lt {text : List Byte} {length : Nat} (h : text.length < length) :
    strncpyBytes text length = text ++ 0 :: List.replicate (length - text.length - 1) 0 := by
  rw [strncpyBytes, List.take_of_length_le (by omega), ← List.replicate_succ]
  congr 2
  omega

theorem strncpyBytes_length (text : List Byte) (length : Nat) :
    (strncpyBytes text length).length = length := by
  rw [strncpyBytes, List.length_append, List.length_take, List.length_replicate]
  omega

/-- When a handle is resolved: its number is not 0 and in the table. -/
theorem fhToPath_resolved_iff (head : Head) (fh : VsnfsFh) (after : List Byte) (path : Buffer) (len : Nat)
    (buffer : Buffer) :
    vsnfsdFhToPath head fh after path len = some (0, buffer) ↔ fh.ino after ≠ 0 ∧
      ∃ node, head.bind (fun nodes => findNode nodes (fh.ino after)) = some node ∧
        buffer = path.put 0 (strncpyBytes node.path len) := by
  simp only [vsnfsdFhToPath]
  by_cases hino : fh.ino after = 0
  · simp [hino]
  rw [if_neg hino, and_iff_right hino]
  cases head with
  | none => simp
  | some nodes =>
      simp only [Option.bind_some]
      cases findNode nodes (fh.ino after) with
      | none => simp
      | some node => simp [eq_comm]

/-- The walk over the table finds an entry under its own number. -/
theorem found_of_mem {head : Head} (hunique : UniqueInos head) {node : Node} (hmem : node ∈ head.entries) :
    head.bind (fun nodes => findNode nodes node.ino) = some node := by
  cases head with
  | none => cases hmem
  | some nodes => exact findNode_of_mem hunique hmem

/-- The copy of a short path is that path. -/
theorem cstr_put_strncpyBytes (node : Node) (junk : List Byte) (hshort : node.path.length < vsnfsMaxpathlen) :
    ((Buffer.alloc vsnfsMaxpathlen junk).put 0 (strncpyBytes node.path vsnfsMaxpathlen)).cstr = node.path := by
  refine Buffer.cstr_eq_of_cells node.hclean (List.replicate (vsnfsMaxpathlen - node.path.length - 1) 0 ++
    junk.drop (strncpyBytes node.path vsnfsMaxpathlen).length) ?_
  rw [Buffer.put_cells, Buffer.alloc_cells, overwrite_zero, strncpyBytes_of_lt hshort, List.append_assoc,
    List.cons_append]

theorem resolves_of_mem {head : Head} (hunique : UniqueInos head) {node : Node}
    (hmem : node ∈ head.entries) (hino : node.ino ≠ 0) (hshort : node.path.length < vsnfsMaxpathlen) :
    Resolves head node := by
  have hfound : ∀ (fh : VsnfsFh) (after : List Byte), fh.ino after = node.ino →
      head.bind (fun nodes => findNode nodes (fh.ino after)) = some node := by
    intro fh after hparse
    rw [hparse]
    exact found_of_mem hunique hmem
  refine ⟨fun fh after junk hparse => ?_, hfound⟩
  refine ⟨(Buffer.alloc vsnfsMaxpathlen junk).put 0 (strncpyBytes node.path vsnfsMaxpathlen), ?_,
    cstr_put_strncpyBytes node junk hshort, ?_⟩
  · apply (fhToPath_resolved_iff _ _ _ _ _ _).mpr
    exact ⟨by rwa [hparse], node, hfound fh after hparse, rfl⟩
  · rw [Buffer.put_writesInside_iff]
    refine ⟨Buffer.alloc_writesInside _ _, Or.inr ?_⟩
    rw [strncpyBytes_length, Buffer.alloc_size]
    omega

/-- The entry is in the table, or there is no server left to ask. -/
def HoldsNode (node : Node) (server : Server) : Prop :=
  UniqueInos server.head ∧ (server.down = true ∨ node ∈ server.head.entries)

theorem step_holdsNode {node : Node} (server : Server) (event : Event) (h : HoldsNode node server)
    (hkeeps : server.down = false → KeepsNode node event) : HoldsNode node (step server event) := by
  refine ⟨step_uniqueInos server event h.1, ?_⟩
  by_cases hdown : server.down = true
  · refine Or.inl ?_
    rwa [step, if_pos hdown]
  · have hmem : node ∈ server.head.entries := h.2.resolve_left hdown
    rw [step, if_neg hdown]
    rcases serve_keepsNode hmem (hkeeps (by simpa using hdown)) with hstatus | hstays
    · exact Or.inl (by rw [hstatus]; rfl)
    · exact Or.inr hstays

/-- **Issued handles stay valid while no mount empties the table.** Once a run has put an entry with a
non-zero number and a path shorter than the open buffer into the table, every request of every
continuation whose mounts keep the entry resolves its handle to that path. -/
theorem issued_handles_stay_valid (before : List Event) (node : Node)
    (hnode : node ∈ (runFrom step Server.load before).head.entries)
    (hino : node.ino ≠ 0) (hshort : node.path.length < vsnfsMaxpathlen)
    (later : List Event)
    (hkeeps : Along step (fun server event => server.down = false → KeepsNode node event)
      (runFrom step Server.load before) later)
    (front : List Event) (hfront : front <+: later)
    (hup : (runFrom step (runFrom step Server.load before) front).down = false) :
    Resolves (runFrom step (runFrom step Server.load before) front).head node := by
  have hunique := run_uniqueInos before
  have hholds : HoldsNode node (runFrom step (runFrom step Server.load before) front) :=
    Along.invariant step_holdsNode ⟨hunique, Or.inr hnode⟩ hkeeps hfront
  have hmem := hholds.2.resolve_left (by rw [hup]; decide)
  exact resolves_of_mem hholds.1 hmem hino hshort

/-- The entry that a mount of `/a` with the root number 5 leaves. -/
def firstRoot : Node := ⟨5, [slash, 0x61, slash], by decide⟩

/-- A NULL request and a mount of the same root keep the entry of the first mount. -/
theorem remount_keeps_first_root :
    Resolves (runFrom step (runFrom step Server.load [mountOf 0x61 (by decide) (.found ⟨5, .dir⟩)])
      [.null 7, mountOf 0x61 (by decide) (.found ⟨5, .dir⟩)]).head firstRoot := by
  refine issued_handles_stay_valid [mountOf 0x61 (by decide) (.found ⟨5, .dir⟩)] firstRoot
    (by decide) (by decide) (by decide) [.null 7, mountOf 0x61 (by decide) (.found ⟨5, .dir⟩)] ?_
    _ (List.prefix_refl _) rfl
  refine ⟨fun _ => trivial, fun _ root _ hdentry _ _ => ⟨rfl, ?_⟩, trivial⟩
  cases hdentry
  decide

/-- A second mount, of `/b`, succeeds; the handle of the first root no longer resolves. -/
theorem second_mount_drops_first_root :
    firstRoot ∈ (runFrom step Server.load [mountOf 0x61 (by decide) (.found ⟨5, .dir⟩)]).head.entries ∧
      ¬ Resolves (runFrom step Server.load [mountOf 0x61 (by decide) (.found ⟨5, .dir⟩),
        mountOf 0x62 (by decide) (.found ⟨6, .dir⟩)]).head firstRoot := by
  refine ⟨by decide, fun hresolves => ?_⟩
  have hparse : (zeroFh.print 5).ino [] = 5 := (VsnfsFh.ino_print_eq_iff zeroFh 5 []).mpr (by decide)
  have hfound := hresolves.found (zeroFh.print 5) [] hparse
  rw [hparse] at hfound
  exact absurd hfound (by decide)

end Vsnfs
