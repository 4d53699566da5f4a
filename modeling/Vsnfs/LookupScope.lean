import Vsnfs.BasePaths
import Vsnfs.ServerPaths

/-! Which part of the file system the table reaches. A mount puts one directory into the table, and every
later path continues a stored one by a name without a slash. A name of two dots passes the filter: from
the mounted directory it leads to the directory above, and from there to everything else. -/

namespace Vsnfs

open Base

abbrev dot : Byte := 0x2e

/-- The place a text leads to, for a server that runs in the directory `cwd`. -/
abbrev placeOf (cwd : List (List Byte)) (text : List Byte) : List (List Byte) := resolvePath slash dot cwd text

/-- The text leads into the subtree of the mounted path. -/
def UnderRoot (cwd : List (List Byte)) (root text : List Byte) : Prop := placeOf cwd root <+: placeOf cwd text

instance (cwd : List (List Byte)) (root text : List Byte) : Decidable (UnderRoot cwd root text) :=
  inferInstanceAs (Decidable (_ <+: _))

/-- The text goes up from the mounted directory: its last component is two dots, and what stands in front
of it is that directory, which is not the top of the file system. -/
def ClimbsOut (cwd : List (List Byte)) (root text : List Byte) : Prop :=
  nameOf slash text = [dot, dot] ∧ dirOf slash dot cwd text = placeOf cwd root ∧ placeOf cwd root ≠ []

/-- The text is empty, and the slash behind it leads to the top of the file system, which is not the mounted
directory. The code looks at a byte outside its buffer before it writes that slash. -/
def SlashesEmpty (cwd : List (List Byte)) (root text : List Byte) (byte : Byte) : Prop :=
  text = [] ∧ byte ≠ slash ∧ placeOf cwd root ≠ []

/-- The mount of the empty path stores a slash. -/
def MountsTop (cwd : List (List Byte)) (args : GetrootArgs) (env : GetrootEnv) : Prop :=
  (∃ root node, Inserts none (.getroot args env) root node) ∧
    SlashesEmpty cwd args.path.bytes args.path.bytes (env.junk.getD (2 ^ 32 - 1) env.stray)

/-- The request stores the path of a new object, and what it composes goes up from the mounted
directory, or is empty. -/
def StoresClimb (cwd : List (List Byte)) (root : List Byte) (server : Server) (request : LookupRequest) : Prop :=
  server.down = false ∧ ∃ nodes parent inode, server.head = some nodes ∧
    LookupResolved nodes request.1 request.2 parent inode ∧ findNode nodes inode.ino = none ∧
    request.2.nodeAlloc = true ∧ request.2.nodePathAlloc = true ∧
    (ClimbsOut cwd root (lookupText parent request.1) ∨
      (inode.kind = .dir ∧ SlashesEmpty cwd root (lookupText parent request.1) request.2.stray))

/-- The invariant: a stored path is in the subtree, and so is the directory in front of its last
component, which the next name may continue. -/
structure Scoped (cwd : List (List Byte)) (root text : List Byte) : Prop where
  dir : placeOf cwd root <+: dirOf slash dot cwd text
  place : UnderRoot cwd root text

def TableScoped (cwd : List (List Byte)) (root : List Byte) (server : Server) : Prop :=
  ∀ node ∈ server.head.entries, Scoped cwd root node.path

section Texts

variable {cwd : List (List Byte)} {root text : List Byte}

/-- Everything is under the top of the file system. -/
theorem scoped_of_top (htop : placeOf cwd root = []) (text : List Byte) : Scoped cwd root text where
  dir := by
    rw [htop]
    exact List.nil_prefix
  place := by
    rw [UnderRoot, htop]
    exact List.nil_prefix

theorem scoped_withSlash (hne : text ≠ []) (hunder : UnderRoot cwd root text) :
    Scoped cwd root (withSlash text) := by
  unfold withSlash
  split
  · rename_i hlast
    have hplace : placeOf cwd text = dirOf slash dot cwd text := by
      rw [placeOf, resolvePath_eq, nameOf_of_getLast? slash hlast, walk_nil]
    exact ⟨hplace ▸ hunder, hunder⟩
  · refine ⟨?_, ?_⟩
    · rw [dirOf_concat_sep slash dot hne]
      exact hunder
    · rw [UnderRoot, placeOf, placeOf, resolvePath_concat_sep slash dot hne]
      exact hunder

/-- **A name behind a scoped path** leads into the subtree unless it goes up from the mounted
directory. -/
theorem Scoped.append_iff (h : Scoped cwd root text) (name : FileName) :
    UnderRoot cwd root (text ++ name.bytes) ↔ ¬ ClimbsOut cwd root (text ++ name.bytes) := by
  have hname : slash ∉ name.bytes := fun hslash => (name.hclean slash hslash).2 rfl
  have hdir : placeOf cwd root <+: dirOf slash dot cwd (text ++ name.bytes) := by
    rw [dirOf_append slash dot hname text]
    exact h.dir
  rw [UnderRoot, placeOf, placeOf, resolvePath_eq slash dot cwd (text ++ name.bytes), prefix_walk_iff dot hdir]
  rfl

theorem Scoped.append (h : Scoped cwd root text) {name : FileName}
    (hclimb : ¬ ClimbsOut cwd root (text ++ name.bytes)) : Scoped cwd root (text ++ name.bytes) := by
  have hname : slash ∉ name.bytes := fun hslash => (name.hclean slash hslash).2 rfl
  refine ⟨?_, (h.append_iff name).mpr hclimb⟩
  rw [dirOf_append slash dot hname text]
  exact h.dir

/-- What is stored for an object is where the text it was found under is. -/
theorem Scoped.storedText (h : Scoped cwd root text) (hne : text ≠ []) (inode : Inode) :
    Scoped cwd root (storedText inode text) := by
  unfold Vsnfs.storedText
  split
  · exact scoped_withSlash hne h.place
  · exact h

theorem underRoot_storedText (hne : text ≠ []) (inode : Inode) :
    UnderRoot cwd root (storedText inode text) ↔ UnderRoot cwd root text := by
  have hplace : placeOf cwd (withSlash text) = placeOf cwd text := by
    unfold withSlash
    split
    · rfl
    · exact resolvePath_concat_sep slash dot hne cwd
  unfold storedText
  split
  · rw [UnderRoot, hplace, UnderRoot]
  · rfl

theorem ClimbsOut.ne_nil (h : ClimbsOut cwd root text) : text ≠ [] := by
  rintro rfl
  exact absurd h.1 (by decide)

/-- The slash leads to the top. -/
theorem not_underRoot_slash (h : placeOf cwd root ≠ []) : ¬ UnderRoot cwd root [slash] :=
  fun hunder => h (List.prefix_nil.mp hunder)

end Texts

/-! ### Runs -/

section Run

variable {cwd : List (List Byte)} {root : List Byte}

/-- What a LOOKUP stores is in the subtree, unless the text goes up or is empty. -/
theorem lookupNode_scoped {parent : Node} (hparent : Scoped cwd root parent.path) (args : LookupArgs)
    (env : LookupEnv) (inode : Inode) (hclimb : ¬ ClimbsOut cwd root (lookupText parent args))
    (hempty : ¬ (inode.kind = .dir ∧ SlashesEmpty cwd root (lookupText parent args) env.stray)) :
    Scoped cwd root (lookupNode parent args env inode).path := by
  have htext : Scoped cwd root (lookupText parent args) := hparent.append hclimb
  by_cases hnil : lookupText parent args = []
  · rw [lookupNode_path_of_nil hnil]
    split
    · rename_i hslashed
      refine scoped_of_top ?_ _
      by_contra htop
      exact hempty ⟨hslashed.1, hnil, hslashed.2, htop⟩
    · rwa [hnil] at htext
  · rw [lookupNode_path_of_ne_nil hnil]
    exact htext.storedText hnil inode

theorem lookupStep_scoped (server : Server) (request : LookupRequest) (hscoped : TableScoped cwd root server)
    (hstores : ¬ StoresClimb cwd root server request) : TableScoped cwd root (lookupStep server request) := by
  intro node hnode
  rw [lookupStep, step] at hnode
  split at hnode
  · exact hscoped node hnode
  · rename_i hdown
    obtain hold | ⟨inode, hinserts⟩ := serve_entries server.head _ node hnode
    · exact hscoped node hold
    · cases hinserts with
      | child nodes args env parent inode hhead hfound hnew hnodeAlloc hnodePath =>
          have hparent : Scoped cwd root parent.path := by
            apply hscoped
            rw [hhead]
            exact mem_of_findNode hfound.hfind
          have hkeeps : ¬ (ClimbsOut cwd root (lookupText parent request.1) ∨ (inode.kind = .dir ∧
              SlashesEmpty cwd root (lookupText parent request.1) request.2.stray)) := by
            intro hleaves
            exact hstores ⟨by simpa using hdown, nodes, parent, inode, hhead, hfound, hnew, hnodeAlloc,
              hnodePath, hleaves⟩
          obtain ⟨hclimb, hempty⟩ := not_or.mp hkeeps
          exact lookupNode_scoped hparent request.1 request.2 inode hclimb hempty

/-- A stored path that goes up from the mounted directory is not in the subtree. -/
theorem not_storesClimb_of_under (server : Server) (request : LookupRequest)
    (hscoped : TableScoped cwd root server)
    (hunder : ∀ node ∈ (lookupStep server request).head.entries, UnderRoot cwd root node.path) :
    ¬ StoresClimb cwd root server request := by
  rintro ⟨hdown, nodes, parent, inode, hhead, hfound, hnew, hnodeAlloc, hnodePath, hleaves⟩
  have hparent : Scoped cwd root parent.path := by
    apply hscoped
    rw [hhead]
    exact mem_of_findNode hfound.hfind
  have hadded := (lookup_added hfound hnew hnodeAlloc hnodePath).2
  have hmem : lookupNode parent request.1 request.2 inode ∈ (lookupStep server request).head.entries := by
    rw [lookupStep, step, if_neg (by simp [hdown]), hhead, hadded]
    exact List.mem_cons_self
  have hnode := hunder _ hmem
  obtain hclimb | ⟨hdir, hnil, hbyte, htop⟩ := hleaves
  · rw [lookupNode_path_of_ne_nil hclimb.ne_nil, underRoot_storedText hclimb.ne_nil] at hnode
    exact (hparent.append_iff _).mp hnode hclimb
  · rw [lookupNode_path_of_nil hnil, if_pos ⟨hdir, hbyte⟩] at hnode
    exact not_underRoot_slash htop hnode

/-- After the mount the table has at most the mounted directory. -/
theorem mounted_scoped (args : GetrootArgs) (env : GetrootEnv) (hmounts : ¬ MountsTop cwd args env) :
    TableScoped cwd args.path.bytes (step Server.load (.getroot args env)) := by
  intro node hnode
  obtain hold | ⟨inode, hinserts⟩ := step_entries Server.load _ node hnode
  · cases hold
  · have hstored : ∃ root node, Inserts none (.getroot args env) root node := ⟨inode, node, hinserts⟩
    cases hinserts with
    | root args env inode =>
        by_cases hnil : args.path.bytes = []
        · rw [rootNode_path_of_nil args env _ hnil]
          split
          · rename_i hbyte
            refine scoped_of_top ?_ _
            by_contra htop
            exact hmounts ⟨hstored, hnil, hbyte, htop⟩
          · rw [hnil]
            exact ⟨List.prefix_refl _, List.prefix_refl _⟩
        · rw [rootNode_path_eq args env _ hnil]
          exact scoped_withSlash hnil (List.prefix_refl _)

/-- The slash that is stored for the empty path is not under the mounted directory. -/
theorem not_mountsTop_of_under (args : GetrootArgs) (env : GetrootEnv)
    (hunder : ∀ node ∈ (step Server.load (.getroot args env)).head.entries,
      UnderRoot cwd args.path.bytes node.path) : ¬ MountsTop cwd args env := by
  rintro ⟨⟨root, node, hinserts⟩, hnil, hbyte, htop⟩
  cases hinserts with
  | root args env root halloc hdentry hkind hnodeAlloc hnodePath =>
      have hadded := (@getroot_added none args env root halloc hdentry hkind hnodeAlloc hnodePath).2
      have hmem : rootNode args env root ∈ (step Server.load (.getroot args env)).head.entries := by
        change rootNode args env root ∈ (serve none (.getroot args env)).head.entries
        rw [hadded]
        exact List.mem_cons_self
      have hnode := hunder _ hmem
      rw [rootNode_path_of_nil args env root hnil, if_pos hbyte] at hnode
      exact not_underRoot_slash htop hnode

end Run

/-- **What keeps the table under the mounted directory.** After a mount of a path, all paths in the table
lead into its subtree in every state of a run of LOOKUP requests, with whatever handles and names,
exactly when the mount does not store a slash for the empty path, and no request stores a path that goes up
from the mounted directory. -/
theorem lookups_under_root_iff (cwd : List (List Byte)) (args : GetrootArgs) (env : GetrootEnv)
    (requests : List LookupRequest) :
    (∀ front, front <+: requests →
      ∀ node ∈ (runFrom lookupStep (step Server.load (.getroot args env)) front).head.entries,
        UnderRoot cwd args.path.bytes node.path) ↔
      ¬ MountsTop cwd args env ∧
        Along lookupStep (fun server request => ¬ StoresClimb cwd args.path.bytes server request)
          (step Server.load (.getroot args env)) requests := by
  have hgives : ∀ server, TableScoped cwd args.path.bytes server →
      ∀ node ∈ server.head.entries, UnderRoot cwd args.path.bytes node.path :=
    fun server hscoped node hnode => (hscoped node hnode).place
  have hstates : ¬ MountsTop cwd args env → _ := fun hmounts =>
    along_iff_states lookupStep_scoped hgives not_storesClimb_of_under (mounted_scoped args env hmounts)
      requests
  constructor
  · intro hunder
    have hmounts := not_mountsTop_of_under args env (hunder [] (List.nil_prefix))
    exact ⟨hmounts, (hstates hmounts).mp hunder⟩
  · rintro ⟨hmounts, halong⟩
    exact (hstates hmounts).mpr halong

/-- The mount of `/a`. -/
def argsOfA : GetrootArgs := ⟨pathA⟩

def envOfA : GetrootEnv := GetrootEnv.answering (.found ⟨5, .dir⟩)

/-- A LOOKUP with the handle of the object with number 5. -/
def requestUnder (name : FileName) (inode : Inode) : LookupRequest :=
  (⟨zeroFh.print 5, [], name⟩, LookupEnv.answering (.found inode))

/-- The name `x` leads from `/a` to `/a/x`. -/
theorem lookup_of_x_under_root :
    ∀ node ∈ (runFrom lookupStep (step Server.load (.getroot argsOfA envOfA))
      [requestUnder ⟨[0x78], by decide, by decide⟩ ⟨7, .dir⟩]).head.entries,
        UnderRoot [] argsOfA.path.bytes node.path := by
  refine (lookups_under_root_iff [] argsOfA envOfA
    [requestUnder ⟨[0x78], by decide, by decide⟩ ⟨7, .dir⟩]).mpr
      ⟨fun hmounts => absurd hmounts.2.1 (by decide), ?_, trivial⟩ _ (List.prefix_refl _)
  rintro ⟨-, nodes, parent, inode, hhead, hfound, -, -, -, hleaves⟩
  have hnodes : nodes = [⟨5, [slash, 0x61, slash], by decide⟩] :=
    Option.some.inj (hhead.symm.trans (by decide))
  subst hnodes
  have hparent := List.mem_singleton.mp (mem_of_findNode hfound.hfind)
  rw [hparent] at hleaves
  obtain hclimb | ⟨-, hnil, -⟩ := hleaves
  · exact absurd hclimb.1 (by decide)
  · exact absurd hnil (by decide)

/-- The name `..`, which the filter accepts, leads from `/a` to the top of the file system. -/
theorem lookup_of_dots_leaves_root :
    (serve none (.getroot argsOfA envOfA)).status = some (vsnfserr .ok) ∧
      (runFrom lookupStep (step Server.load (.getroot argsOfA envOfA))
        [requestUnder ⟨[dot, dot], by decide, by decide⟩ ⟨2, .dir⟩]).head.entries.map Node.path =
          [[slash, 0x61, slash, dot, dot, slash], [slash, 0x61, slash]] ∧
      ¬ UnderRoot [] argsOfA.path.bytes [slash, 0x61, slash, dot, dot, slash] := by
  exact ⟨by decide, by decide, by decide⟩

end Vsnfs
