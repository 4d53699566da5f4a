import Mathlib.Data.List.Induction
import Vsnfs.ServerTable

/-! Where the entries of the table come from. Every entry in a state that a run reaches was put there
by a request of the run, for the object its path lookup left. Its path is the text which that request
composed, as a whole, and ends in a slash when the object is a directory. -/

namespace Vsnfs

open Base

/-! ### Stored paths -/

/-- The text with one slash behind it, unless it ends in one. -/
def withSlash (text : List Byte) : List Byte :=
  if text.getLast? = some slash then text else text ++ [slash]

/-- What is stored for an object that was found under this text. -/
def storedText (inode : Inode) (text : List Byte) : List Byte :=
  if inode.kind = .dir then withSlash text else text

theorem withSlash_getLast? (text : List Byte) : (withSlash text).getLast? = some slash := by
  unfold withSlash
  split
  · assumption
  · rw [List.getLast?_append, List.getLast?_singleton, Option.some_or]

theorem withSlash_ne_nil (text : List Byte) : withSlash text ≠ [] := by
  intro hnil
  have hlast := withSlash_getLast? text
  rw [hnil] at hlast
  cases hlast

theorem rootPath_withSlash (args : GetrootArgs) (env : GetrootEnv) (hne : args.path.bytes ≠ []) :
    rootPath args env = withSlash args.path.bytes := rootPath_eq args env hne

theorem rootNode_path_eq (args : GetrootArgs) (env : GetrootEnv) (root : Inode)
    (hne : args.path.bytes ≠ []) : (rootNode args env root).path = withSlash args.path.bytes :=
  rootPath_withSlash args env hne

/-- The path of a mount without a path is a slash, or empty when the byte far behind the buffer happens
to be one. -/
theorem rootNode_path_of_nil (args : GetrootArgs) (env : GetrootEnv) (root : Inode)
    (hnil : args.path.bytes = []) :
    (rootNode args env root).path =
      if env.junk.getD (2 ^ 32 - 1) env.stray ≠ slash then [slash] else [] := by
  change (getrootPath args.path env.junk env.stray).cstr = _
  have hpeek : ((Buffer.alloc (0 + 2) env.junk).put 0 []).peek
      ((BitVec.ofNat 32 0 - 1).toNat : Nat) env.stray = env.junk.getD (2 ^ 32 - 1) env.stray := by
    rw [Buffer.peek, if_pos (Int.natCast_nonneg _), Buffer.put_cells, overwrite_zero]
    rfl
  simp only [getrootPath, hnil, List.length_nil, hpeek]
  split
  · refine Buffer.cstr_eq_of_cells (by decide) (env.junk.drop 2) ?_
    simp only [Buffer.put_cells, Buffer.noteRead_cells, Buffer.alloc_cells, overwrite_zero]
    rw [overwrite_append_of_eq (show 0 + 1 = [slash].length from rfl)]
    simp
  · refine Buffer.cstr_eq_of_cells (by decide) (env.junk.drop 1) ?_
    simp only [Buffer.put_cells, Buffer.noteRead_cells, Buffer.alloc_cells, overwrite_zero]
    simp

theorem lookupNode_path_of_ne_nil {parent : Node} {args : LookupArgs}
    (hne : lookupText parent args ≠ []) (env : LookupEnv) (inode : Inode) :
    (lookupNode parent args env inode).path = storedText inode (lookupText parent args) := by
  obtain ⟨rest, hcells⟩ := lookupPath_cells parent args.filename env.junk
  change (lookupFinalPath (lookupPath parent args.filename env.junk) inode env.stray).cstr = _
  rw [lookupFinalPath, storedText]
  by_cases hdir : inode.kind = .dir
  · rw [if_pos hdir, if_pos hdir, lookupSlash_cstr (lookupText_ne_zero parent args) hne hcells]
    rfl
  · rw [if_neg hdir, if_neg hdir, lookupPath_cstr]
    rfl

/-- The same for a LOOKUP that composes the empty text: there the byte in front of the buffer decides. -/
theorem lookupNode_path_of_nil {parent : Node} {args : LookupArgs} (hnil : lookupText parent args = [])
    (env : LookupEnv) (inode : Inode) :
    (lookupNode parent args env inode).path =
      if inode.kind = .dir ∧ env.stray ≠ slash then [slash] else [] := by
  obtain ⟨rest, hcells⟩ := lookupPath_cells parent args.filename env.junk
  have hcstr : (lookupPath parent args.filename env.junk).cstr = [] := by
    rw [lookupPath_cstr]
    exact hnil
  have hbytes : (lookupPath parent args.filename env.junk).cells = 0 :: rest := by
    rw [hcells, show parent.path ++ args.filename.bytes = [] from hnil, List.nil_append]
  have hpeek : (lookupPath parent args.filename env.junk).peek (((0 : Nat) : Int) - 1) env.stray = env.stray :=
    if_neg (by decide)
  change (lookupFinalPath (lookupPath parent args.filename env.junk) inode env.stray).cstr = _
  rw [lookupFinalPath]
  by_cases hdir : inode.kind = .dir
  · simp only [hdir, lookupSlash, hcstr, List.length_nil, hpeek, if_true, true_and]
    split
    · refine Buffer.cstr_eq_of_cells (by decide) (rest.drop 1) ?_
      simp only [Buffer.put_cells, Buffer.noteRead_cells, Buffer.scan_cells, hbytes, overwrite_zero]
      rw [overwrite_append_of_eq (show 0 + 1 = [slash].length from rfl)]
      simp
    · exact hcstr
  · rw [if_neg hdir, if_neg (fun hboth => hdir hboth.1), hcstr]

theorem lookupNode_path_eq {parent : Node} (hne : parent.path ≠ []) (args : LookupArgs) (env : LookupEnv)
    (inode : Inode) :
    (lookupNode parent args env inode).path = storedText inode (lookupText parent args) :=
  lookupNode_path_of_ne_nil (lookupText_ne_nil hne args) env inode

/-! ### Insertions -/

/-- The request puts this entry into the table, for this object. -/
inductive Inserts (head : Head) : Event → Inode → Node → Prop where
  | root (args : GetrootArgs) (env : GetrootEnv) (root : Inode)
      (halloc : env.ndAlloc = true ∧ env.pathAlloc = true)
      (hdentry : (rootAnswer args env).dentry = some root) (hkind : root.kind ≠ .reg)
      (hnode : env.nodeAlloc = true) (hnodePath : env.nodePathAlloc = true) :
      Inserts head (.getroot args env) root (rootNode args env root)
  | child (nodes : List Node) (args : LookupArgs) (env : LookupEnv) (parent : Node) (inode : Inode)
      (hhead : head = some nodes) (hfound : LookupResolved nodes args env parent inode)
      (hnew : findNode nodes inode.ino = none) (hnode : env.nodeAlloc = true)
      (hnodePath : env.nodePathAlloc = true) :
      Inserts head (.lookup args env) inode (lookupNode parent args env inode)

/-- The text a request composes for an object: the path of a mount with its slash, or the path of an
entry with the name behind it, and a slash when the object is a directory. -/
inductive Composed (head : Head) : Event → Inode → List Byte → Prop where
  | root (args : GetrootArgs) (env : GetrootEnv) (root : Inode) :
      Composed head (.getroot args env) root (withSlash args.path.bytes)
  | child (args : LookupArgs) (env : LookupEnv) (parent : Node) (inode : Inode)
      (hparent : parent ∈ head.entries) (hino : parent.ino = args.fh.ino args.after) :
      Composed head (.lookup args env) inode (storedText inode (parent.path ++ args.filename.bytes))

/-- A mount has a path. -/
def Event.RootNonempty : Event → Prop
  | .getroot args _ => args.path.bytes ≠ []
  | _ => True

section Inserts

variable {head : Head} {event : Event} {inode : Inode} {node : Node}

theorem Inserts.ino_eq (h : Inserts head event inode node) : node.ino = inode.ino := by
  cases h <;> rfl

theorem Inserts.mem (h : Inserts head event inode node) : node ∈ (serve head event).head.entries := by
  cases h with
  | root args env root halloc hdentry hkind hnode hnodePath =>
      rw [(getroot_added halloc hdentry hkind hnode hnodePath).2]
      exact List.mem_singleton.mpr rfl
  | child nodes args env parent inode hhead hfound hnew hnode hnodePath =>
      rw [hhead, (lookup_added hfound hnew hnode hnodePath).2]
      exact List.mem_cons_self

theorem Composed.ends_in_slash {path : List Byte} (h : Composed head event inode path)
    (hdir : inode.kind = .dir) : path.getLast? = some slash := by
  cases h with
  | root args env root => exact withSlash_getLast? _
  | child args env parent inode =>
      rw [storedText, if_pos hdir]
      exact withSlash_getLast? _

variable (hpaths : ∀ node ∈ head.entries, node.path ≠ [])

include hpaths

theorem Composed.path_ne_nil {path : List Byte} (h : Composed head event inode path) : path ≠ [] := by
  cases h with
  | root args env root => exact withSlash_ne_nil _
  | child args env parent inode hparent =>
      unfold storedText
      split
      · exact withSlash_ne_nil _
      · exact fun hnil => hpaths parent hparent (List.append_eq_nil_iff.mp hnil).1

theorem Inserts.composed (h : Inserts head event inode node) (hroot : event.RootNonempty) :
    Composed head event inode node.path := by
  cases h with
  | root args env root =>
      rw [rootNode_path_eq args env inode hroot]
      exact .root args env inode
  | child nodes args env parent inode hhead hfound =>
      subst hhead
      have hmem : parent ∈ nodes := mem_of_findNode hfound.hfind
      rw [lookupNode_path_eq (hpaths parent hmem)]
      exact .child args env parent inode hmem (ino_of_findNode hfound.hfind)

end Inserts

theorem getroot_entries {head : Head} {args : GetrootArgs} {env : GetrootEnv} {node : Node}
    (hnode : node ∈ (vsnfsdProcGetroot head args zeroFh env).head.entries) :
    node ∈ head.entries ∨ ∃ root, Inserts head (.getroot args env) root node := by
  cases getroot_exit head args zeroFh env with
  | noMemory _ _ hhead => exact Or.inl (hhead ▸ hnode)
  | noDentry _ _ _ hhead => exact Or.inl (hhead ▸ hnode)
  | notDir _ _ _ _ _ hhead => exact Or.inl (hhead ▸ hnode)
  | noNode _ _ _ _ _ _ hhead =>
      rw [hhead] at hnode
      cases hnode
  | noNodePath _ _ _ _ _ _ _ hhead =>
      rw [hhead] at hnode
      cases hnode
  | added root halloc hdentry hkind hnodeAlloc hnodePath _ hhead =>
      rw [hhead] at hnode
      rw [List.mem_singleton.mp hnode]
      exact Or.inr ⟨root, .root args env root halloc hdentry hkind hnodeAlloc hnodePath⟩

theorem lookup_entries {nodes : List Node} {args : LookupArgs} {env : LookupEnv} {node : Node}
    (hnode : node ∈ (vsnfsdProcLookup (some nodes) args zeroFh env).head.entries) :
    node ∈ nodes ∨ ∃ inode, Inserts (some nodes) (.lookup args env) inode node := by
  rcases lookup_table nodes args zeroFh env with
    hhead | ⟨parent, inode, hfound, hnew, hnodeAlloc, hnodePath, hhead⟩
  · rw [hhead] at hnode
    exact Or.inl hnode
  · rw [hhead] at hnode
    rcases List.mem_cons.mp hnode with rfl | hold
    · exact Or.inr ⟨inode, .child nodes args env parent inode rfl hfound hnew hnodeAlloc hnodePath⟩
    · exact Or.inl hold

/-- Every entry after a request was there before, or the request has inserted it. -/
theorem serve_entries (head : Head) (event : Event) :
    ∀ node ∈ (serve head event).head.entries, node ∈ head.entries ∨
      ∃ inode, Inserts head event inode node := by
  intro node hnode
  cases event with
  | null dummy => exact Or.inl hnode
  | readdir args env =>
      have hhead : (serve head (.readdir args env)).head = head := readdir_head head args env
      rw [hhead] at hnode
      exact Or.inl hnode
  | read args env =>
      have hhead : (serve head (.read args env)).head = head := read_head head args env
      rw [hhead] at hnode
      exact Or.inl hnode
  | getroot args env => exact getroot_entries hnode
  | lookup args env =>
      cases head with
      | none => exact Or.inl hnode
      | some nodes => exact lookup_entries hnode

/-! ### Runs -/

theorem step_entries (server : Server) (event : Event) :
    ∀ node ∈ (step server event).head.entries, node ∈ server.head.entries ∨
      ∃ inode, Inserts server.head event inode node := by
  intro node hnode
  rw [step] at hnode
  split at hnode
  · exact Or.inl hnode
  · exact serve_entries server.head event node hnode

/-- No stored path is empty. -/
def PathsNonempty (server : Server) : Prop := ∀ node ∈ server.head.entries, node.path ≠ []

theorem load_pathsNonempty : PathsNonempty Server.load := by
  intro node hnode
  cases hnode

theorem step_pathsNonempty (server : Server) (event : Event) (hpaths : PathsNonempty server)
    (hroot : event.RootNonempty) : PathsNonempty (step server event) := by
  intro node hnode
  rcases step_entries server event node hnode with hold | ⟨inode, hinserts⟩
  · exact hpaths node hold
  · exact (hinserts.composed hpaths hroot).path_ne_nil hpaths

section Run

variable {events : List Event} (hroots : ∀ event ∈ events, event.RootNonempty)

include hroots

theorem run_pathsNonempty {front : List Event} (hfront : front <+: events) :
    PathsNonempty (runFrom step Server.load front) := by
  exact Along.invariant step_pathsNonempty load_pathsNonempty (along_of_forall hroots Server.load) hfront

end Run

/-- The request of a run that an entry comes from, with the object it was made for. -/
def InsertedIn (events : List Event) (node : Node) : Prop :=
  ∃ front event inode, front ++ [event] <+: events ∧
    Inserts (runFrom step Server.load front).head event inode node

/-- Every entry comes from a request of the run. -/
theorem run_insertedIn (events : List Event) :
    ∀ node ∈ (runFrom step Server.load events).head.entries, InsertedIn events node := by
  induction events using List.reverseRecOn with
  | nil =>
      intro node hnode
      cases hnode
  | append_singleton events event ih =>
      intro node hnode
      rw [runFrom_concat] at hnode
      rcases step_entries _ event node hnode with hold | ⟨inode, hinserts⟩
      · obtain ⟨front, earlier, inode, hfront, hinserts⟩ := ih node hold
        exact ⟨front, earlier, inode, hfront.trans (List.prefix_append _ _), hinserts⟩
      · exact ⟨events, event, inode, List.prefix_refl _, hinserts⟩

/-- What holds of the table after a run. -/
structure TableInvariant (events : List Event) : Prop where
  unique : UniqueInos (runFrom step Server.load events).head
  inserted : ∀ node ∈ (runFrom step Server.load events).head.entries, InsertedIn events node
  number : ∀ front event inode node, front ++ [event] <+: events →
    Inserts (runFrom step Server.load front).head event inode node → node.ino = inode.ino
  ends : ∀ front event inode node, front ++ [event] <+: events →
    Inserts (runFrom step Server.load front).head event inode node → inode.kind = .dir →
      node.path.getLast? = some slash
  whole : ∀ front event inode node, front ++ [event] <+: events →
    Inserts (runFrom step Server.load front).head event inode node →
      Composed (runFrom step Server.load front).head event inode node.path
  clean : ∀ node ∈ (runFrom step Server.load events).head.entries, 0 ∉ node.path
  lookup : ∀ args env nodes, (runFrom step Server.load events).head = some nodes →
    (runFrom step Server.load (events ++ [.lookup args env])).head = some nodes ∨
      ∃ node, (runFrom step Server.load (events ++ [.lookup args env])).head = some (node :: nodes)
  others : ∀ event, (∀ args env, event ≠ .getroot args env) → (∀ args env, event ≠ .lookup args env) →
    (runFrom step Server.load (events ++ [event])).head = (runFrom step Server.load events).head

theorem step_head_same {server : Server} {event : Event}
    (hsame : (serve server.head event).head = server.head) : (step server event).head = server.head := by
  rw [step]
  split
  · rfl
  · exact hsame

theorem step_lookup_head (server : Server) (args : LookupArgs) (env : LookupEnv) {nodes : List Node}
    (hhead : server.head = some nodes) :
    (step server (.lookup args env)).head = some nodes ∨
      ∃ node, (step server (.lookup args env)).head = some (node :: nodes) := by
  rw [step]
  split
  · exact Or.inl hhead
  · rw [hhead]
    rcases lookup_table nodes args zeroFh env with hsame | ⟨parent, inode, -, -, -, -, hadded⟩
    · exact Or.inl hsame
    · exact Or.inr ⟨_, hadded⟩

/-- **The table after every run.** Whatever requests come in whatever order, as long as no mount has an
empty path: the numbers in the table differ, every entry comes from a request that composed its path,
with a slash behind it for a directory, LOOKUP adds at most one entry in front, and NULL, READDIR and
READ change nothing. -/
theorem table_invariant (events : List Event) (hroots : ∀ event ∈ events, event.RootNonempty) :
    TableInvariant events := by
  have hcomposed : ∀ front event inode node, front ++ [event] <+: events →
      Inserts (runFrom step Server.load front).head event inode node →
        Composed (runFrom step Server.load front).head event inode node.path := by
    intro front event inode node hfront hinserts
    have hpaths := run_pathsNonempty hroots ((List.prefix_append front [event]).trans hfront)
    exact hinserts.composed hpaths (hroots event (hfront.subset (by simp)))
  refine ⟨?_, run_insertedIn events, ?_, ?_, hcomposed, ?_, ?_, ?_⟩
  · exact run_uniqueInos events
  · intro front event inode node _ hinserts
    exact hinserts.ino_eq
  · intro front event inode node hfront hinserts hdir
    exact (hcomposed front event inode node hfront hinserts).ends_in_slash hdir
  · intro node _ hzero
    exact node.hclean 0 hzero rfl
  · intro args env nodes hhead
    rw [runFrom_concat]
    exact step_lookup_head _ args env hhead
  · intro event hgetroot hlookup
    rw [runFrom_concat]
    apply step_head_same
    cases event with
    | null dummy => rfl
    | readdir args env => exact readdir_head _ args env
    | read args env => exact read_head _ args env
    | getroot args env => exact absurd rfl (hgetroot args env)
    | lookup args env => exact absurd rfl (hlookup args env)

/-- A mount of `/a`, a LOOKUP of the directory `x` in it, and a NULL request. -/
def mountAndLookup : List Event :=
  [mountOf 0x61 (by decide) (.found ⟨5, .dir⟩),
    .lookup (lookupOf 0x78 (by decide) (.found ⟨7, .dir⟩)).1 (lookupOf 0x78 (by decide) (.found ⟨7, .dir⟩)).2,
    .null 7]

/-- The two entries of that run are `/a/` and `/a/x/`. -/
theorem mount_and_lookup_invariant :
    TableInvariant mountAndLookup ∧
      (runFrom step Server.load mountAndLookup).head.entries.map Node.path =
        [[slash, 0x61, slash, 0x78, slash], [slash, 0x61, slash]] := by
  refine ⟨table_invariant mountAndLookup ?_, by decide⟩
  intro event hevent
  rcases List.mem_cons.mp hevent with rfl | hevent
  · exact List.cons_ne_nil _ _
  rcases List.mem_pair.mp hevent with rfl | rfl
  · trivial
  · trivial

end Vsnfs
