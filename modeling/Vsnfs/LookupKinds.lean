import Vsnfs.LookupObjects

/-! Lookups under objects of every kind. LOOKUP puts the name behind the stored path of its handle and does
not ask what the handle denotes. Behind the slash of a directory the name is a component of its own; behind
the path of a file it continues the file's name, and the text may be the path of another file beside
it. -/

namespace Vsnfs

open Base

/-- A tree of files with the entries of its directories. A text that ends in a slash, or is empty, leads to
a directory from which one more name is looked up. No entry has an empty name. -/
structure Hierarchy (Object : Type) where
  denotes : List Byte → Option Object
  inode : Object → Inode
  child : Object → List Byte → Option Object
  hchild : ∀ text name object, denotes text = some object → (inode object).kind = .dir →
    (text = [] ∨ text.getLast? = some slash) → name ≠ [] → slash ∉ name →
      denotes (text ++ name) = child object name
  hunnamed : ∀ object, child object [] = none

namespace Hierarchy

variable {Object : Type} (tree : Hierarchy Object)

/-- `path_lookup` on this tree. -/
def Answers (pathLookup : List Byte → PathLookup) : Prop :=
  ∀ text, match tree.denotes text with
    | some object => pathLookup text = .found (tree.inode object)
    | none => ∃ failure stale, pathLookup text = .failed failure stale

/-- The path is one of this directory. -/
def DirectoryAt (path : List Byte) (object : Object) : Prop :=
  tree.denotes path = some object ∧ (tree.inode object).kind = .dir

variable {tree}

theorem Answers.cases {pathLookup : List Byte → PathLookup} (h : tree.Answers pathLookup) (text : List Byte) :
    (∃ object, tree.denotes text = some object ∧ pathLookup text = .found (tree.inode object)) ∨
      (tree.denotes text = none ∧ ∃ failure stale, pathLookup text = .failed failure stale) := by
  have htext := h text
  cases hdenotes : tree.denotes text with
  | none =>
      rw [hdenotes] at htext
      exact Or.inr ⟨rfl, htext⟩
  | some object =>
      rw [hdenotes] at htext
      exact Or.inl ⟨object, rfl, htext⟩

end Hierarchy

/-- A text that a name may follow as a component of its own. -/
def OpenEnded (path : List Byte) : Prop := path = [] ∨ path.getLast? = some slash

/-! ### Entries of directories -/

section Fixed

variable {Object : Type} (tree : Hierarchy Object)

/-- The request is answered from the tree. -/
def Event.Over (event : Event) : Prop := ∀ pathLookup ∈ event.pathLookup, tree.Answers pathLookup

/-- The invariant: a path of a directory is stored with its slash. -/
def DirectoriesOpen (server : Server) : Prop :=
  ∀ node ∈ server.head.entries, ∀ object, tree.DirectoryAt node.path object → OpenEnded node.path

variable {tree}

theorem openEnded_of_short {path : List Byte} {slashed : Prop} [Decidable slashed]
    (h : path = if slashed then [slash] else []) : OpenEnded path := by
  rw [h]
  split
  · exact Or.inr rfl
  · exact Or.inl rfl

/-- An inserted entry whose path is one of a directory ends in a slash: it has one if the object of the
request is a directory, and otherwise the path is not one of a directory. -/
theorem Inserts.openEnded {head : Head} {event : Event} {inode : Inode} {node : Node}
    (h : Inserts head event inode node) (hover : event.Over tree) {object : Object}
    (hdir : tree.DirectoryAt node.path object) : OpenEnded node.path := by
  cases h with
  | root args env root =>
      by_cases hnil : args.path.bytes = []
      · exact openEnded_of_short (rootNode_path_of_nil args env inode hnil)
      · right
        rw [rootNode_path_eq args env inode hnil]
        exact withSlash_getLast? _
  | child nodes args env parent inode hhead hfound =>
      by_cases hnil : lookupText parent args = []
      · exact openEnded_of_short (lookupNode_path_of_nil hnil env inode)
      · have hpath := lookupNode_path_of_ne_nil hnil env inode
        by_cases hkind : inode.kind = .dir
        · right
          rw [hpath, storedText, if_pos hkind]
          exact withSlash_getLast? _
        · rw [storedText, if_neg hkind] at hpath
          rw [hpath] at hdir
          have hdentry := hfound.hdentry
          obtain ⟨found, hdenotes, hanswer⟩ | ⟨hnone, -⟩ :=
            (hover env.pathLookup rfl).cases (lookupText parent args)
          · rw [lookupAnswer, hanswer] at hdentry
            obtain rfl : object = found := Option.some.inj (hdir.1.symm.trans hdenotes)
            exact absurd ((congrArg Inode.kind (Option.some.inj hdentry)).symm.trans hdir.2) hkind
          · cases hnone.symm.trans hdir.1

theorem step_directoriesOpen (server : Server) (event : Event) (hopen : DirectoriesOpen tree server)
    (hover : event.Over tree) : DirectoriesOpen tree (step server event) := by
  intro node hnode object hdir
  rcases step_entries server event node hnode with hold | ⟨inode, hinserts⟩
  · exact hopen node hold object hdir
  · exact hinserts.openEnded hover hdir

/-- **Over a fixed tree** the path of a directory is open-ended in every table that is reached. -/
theorem run_directoriesOpen {events : List Event} (hover : ∀ event ∈ events, event.Over tree) :
    DirectoriesOpen tree (runFrom step Server.load events) := by
  have hload : DirectoriesOpen tree Server.load := by
    intro node hnode
    cases hnode
  exact Along.invariant step_directoriesOpen hload (along_of_forall hover Server.load) (List.prefix_refl events)

end Fixed

/-! ### One request -/

section Request

variable {Object : Type} (tree : Hierarchy Object) (nodes : List Node) (node : Node) (args : LookupArgs)
  (env : LookupEnv)

/-- What LOOKUP is to do with a handle that is in the table. Under a directory it asks for the entry of
that name, and a reply with `vsnfs_ok` has the entry's handle; with any other handle it returns a status
other than `vsnfs_ok` and leaves the table. -/
structure ChildrenOnly : Prop where
  asked : ∀ object, tree.DirectoryAt node.path object → ∀ text errno,
    .pathLookup text errno ∈ (vsnfsdProcLookup (some nodes) args zeroFh env).calls →
      tree.denotes text = tree.child object args.filename.bytes
  replied : ∀ object, tree.DirectoryAt node.path object →
    (vsnfsdProcLookup (some nodes) args zeroFh env).status = some (vsnfserr .ok) →
      ∃ entry, tree.child object args.filename.bytes = some entry ∧
        (vsnfsdProcLookup (some nodes) args zeroFh env).resp = lookupResp zeroFh (tree.inode entry)
  refused : (∀ object, ¬ tree.DirectoryAt node.path object) →
    (∃ status, (vsnfsdProcLookup (some nodes) args zeroFh env).status = some status ∧
      status ≠ vsnfserr .ok) ∧ (vsnfsdProcLookup (some nodes) args zeroFh env).head = some nodes

/-- There is no memory for the path or for the lookup. -/
def NoLookup : Prop := env.pathAlloc = false ∨ env.ndAlloc = false

/-- The name is not empty behind an open-ended path. Where a directory has come to stand at the path of
what was a file, the text may by chance be the path of the entry. -/
def NameFollows (object : Object) : Prop :=
  (OpenEnded node.path ∧ args.filename.bytes ≠ []) ∨
    (¬ OpenEnded node.path ∧ tree.denotes (lookupText node args) = tree.child object args.filename.bytes)

/-- The request stops with a status before it would add an entry: the failed lookup of the text has left
an object whose number is known, or there is no memory for the new path. -/
def StopsShort : Prop :=
  ∃ inode, (lookupAnswer node args env).dentry = some inode ∧
    (((findNode nodes inode.ino).isSome ∧ (lookupAnswer node args env).errno ≠ 0) ∨
      (findNode nodes inode.ino = none ∧ env.nodeAlloc = true ∧ env.nodePathAlloc = false))

/-- The condition, for a directory and for any other handle. -/
def ChildGuard : Prop :=
  NoLookup env ∨
    ((∀ object, tree.DirectoryAt node.path object → NameFollows tree node args object) ∧
      ((∀ object, ¬ tree.DirectoryAt node.path object) → StopsShort nodes node args env))

/-- The condition in a table that was reached over the tree, where a directory's path is open-ended. -/
def ReachedGuard : Prop :=
  NoLookup env ∨
    ((∀ object, tree.DirectoryAt node.path object → args.filename.bytes ≠ []) ∧
      ((∀ object, ¬ tree.DirectoryAt node.path object) → StopsShort nodes node args env))

variable {tree nodes node args env}

/-- The one call of `path_lookup`: with the text, once both allocations have succeeded. -/
theorem lookup_call_iff (hfind : findNode nodes (args.fh.ino args.after) = some node) (text : List Byte)
    (errno : Int) :
    .pathLookup text errno ∈ (vsnfsdProcLookup (some nodes) args zeroFh env).calls ↔
      ¬ NoLookup env ∧ text = lookupText node args ∧ errno = (lookupAnswer node args env).errno := by
  have hanswer : env.pathLookup (node.path ++ args.filename.bytes) = lookupAnswer node args env := rfl
  unfold vsnfsdProcLookup NoLookup
  simp only [hfind, lookupPath_cstr, hanswer]
  by_cases hpath : env.pathAlloc = false
  · simp [hpath, Outcome.call, Outcome.enter]
  rw [if_neg hpath]
  by_cases hnd : env.ndAlloc = false
  · simp [hnd, Outcome.call, Outcome.enter]
  rw [if_neg hnd, not_or, and_iff_right (⟨hpath, hnd⟩ : ¬ env.pathAlloc = false ∧ ¬ env.ndAlloc = false)]
  have hcalls := fun more => pathLookup_mem_calls_iff env.pathAlloc env.ndAlloc (lookupText node args)
    (lookupAnswer node args env).errno more text errno
  cases (lookupAnswer node args env).dentry with
  | none => exact hcalls []
  | some inode =>
      simp only
      by_cases hknown : (findNode nodes inode.ino).isSome = true
      · rw [if_pos hknown]
        exact hcalls []
      rw [if_neg hknown]
      by_cases hnode : env.nodeAlloc = false
      · rw [if_pos hnode]
        exact hcalls [env.nodeAlloc]
      rw [if_neg hnode]
      by_cases hnodePath : env.nodePathAlloc = false
      · rw [if_pos hnodePath]
        exact hcalls [env.nodeAlloc, env.nodePathAlloc]
      · rw [if_neg hnodePath]
        exact hcalls [env.nodeAlloc, env.nodePathAlloc]

/-- Without the lookup the request has failed, and the table is as it was. -/
theorem refused_of_noLookup (hfind : findNode nodes (args.fh.ino args.after) = some node)
    (hno : NoLookup env) :
    (vsnfsdProcLookup (some nodes) args zeroFh env).status = some (-vsnfserr .nospc) ∧
      (vsnfsdProcLookup (some nodes) args zeroFh env).head = some nodes := by
  unfold vsnfsdProcLookup
  simp only [hfind]
  by_cases hpath : env.pathAlloc = false
  · rw [if_pos hpath]
    exact ⟨rfl, rfl⟩
  · rw [if_neg hpath, if_pos (hno.resolve_left hpath)]
    exact ⟨rfl, rfl⟩

/-- Once an object is left by the lookup, what stops the request short depends on it. -/
theorem LookupResolved.stopsShort_iff {inode : Inode} (h : LookupResolved nodes args env node inode) :
    NoLookup env ∨ StopsShort nodes node args env ↔
      ((findNode nodes inode.ino).isSome ∧ (lookupAnswer node args env).errno ≠ 0) ∨
        (findNode nodes inode.ino = none ∧ env.nodeAlloc = true ∧ env.nodePathAlloc = false) := by
  constructor
  · rintro ((hpath | hnd) | ⟨other, hother, hstops⟩)
    · cases hpath.symm.trans h.hpath
    · cases hnd.symm.trans h.hnd
    · obtain rfl : inode = other := Option.some.inj (h.hdentry.symm.trans hother)
      exact hstops
  · intro hstops
    exact Or.inr ⟨inode, h.hdentry, hstops⟩

/-- **Any other handle**: the request is refused without a change exactly when it stops short. -/
theorem refused_iff (hfind : findNode nodes (args.fh.ino args.after) = some node) :
    ((∃ status, (vsnfsdProcLookup (some nodes) args zeroFh env).status = some status ∧
        status ≠ vsnfserr .ok) ∧ (vsnfsdProcLookup (some nodes) args zeroFh env).head = some nodes) ↔
      NoLookup env ∨ StopsShort nodes node args env := by
  have hnospc := neg_vsnfserr_nospc_ne_ok
  cases lookup_exit nodes args zeroFh env with
  | unknown hnone => cases hnone.symm.trans hfind
  | noPath _ _ hpath hstatus hhead =>
      exact iff_of_true ⟨⟨_, hstatus, hnospc⟩, hhead⟩ (Or.inl (Or.inl hpath))
  | noNd _ _ _ hnd hstatus hhead =>
      exact iff_of_true ⟨⟨_, hstatus, hnospc⟩, hhead⟩ (Or.inl (Or.inr hnd))
  | noDentry other hother hpath hnd hdentry hstatus =>
      obtain rfl : node = other := Option.some.inj (hfind.symm.trans hother)
      refine iff_of_false ?_ ?_
      · rintro ⟨⟨status, hsome, -⟩, -⟩
        cases hstatus.symm.trans hsome
      · rintro ((hfalse | hfalse) | ⟨inode, hsome, -⟩)
        · cases hfalse.symm.trans hpath
        · cases hfalse.symm.trans hnd
        · cases hdentry.symm.trans hsome
  | known other inode hfound hknown hstatus hhead =>
      obtain rfl : node = other := Option.some.inj (hfind.symm.trans hfound.hfind)
      have hword := (lookupAnswer node args env).word_ne_ok_iff
      rw [hfound.stopsShort_iff, hstatus, hhead]
      constructor
      · rintro ⟨⟨status, hsome, hne⟩, -⟩
        rw [← Option.some.inj hsome] at hne
        exact Or.inl ⟨hknown, hword.mp hne⟩
      · rintro (⟨-, herrno⟩ | ⟨hnone, -⟩)
        · exact ⟨⟨_, rfl, hword.mpr herrno⟩, rfl⟩
        · rw [hnone] at hknown
          exact absurd hknown (by decide)
  | noNode other inode hfound hnew hnode hstatus =>
      obtain rfl : node = other := Option.some.inj (hfind.symm.trans hfound.hfind)
      rw [hfound.stopsShort_iff, hstatus, hnew, hnode]
      exact iff_of_false (fun h => by simp at h) (by simp)
  | noNodePath other inode hfound hnew hnode hnodePath hstatus hhead =>
      obtain rfl : node = other := Option.some.inj (hfind.symm.trans hfound.hfind)
      rw [hfound.stopsShort_iff]
      exact iff_of_true ⟨⟨_, hstatus, hnospc⟩, hhead⟩ (Or.inr ⟨hnew, hnode, hnodePath⟩)
  | added other inode hfound hnew hnode hnodePath hstatus hhead =>
      obtain rfl : node = other := Option.some.inj (hfind.symm.trans hfound.hfind)
      rw [hfound.stopsShort_iff, hhead, hnew, hnodePath]
      refine iff_of_false (fun h => ?_) (by simp)
      exact absurd (congrArg List.length (Option.some.inj h.2)) (by simp)

/-- A reply with `vsnfs_ok` has the handle of the object that was found. -/
theorem lookup_found_of_ok (hfind : findNode nodes (args.fh.ino args.after) = some node)
    (hok : (vsnfsdProcLookup (some nodes) args zeroFh env).status = some (vsnfserr .ok)) :
    ∃ inode, lookupAnswer node args env = .found inode ∧
      (vsnfsdProcLookup (some nodes) args zeroFh env).resp = lookupResp zeroFh inode := by
  obtain ⟨inode, hfound, hword, hresp, -⟩ := lookup_of_ok hok hfind
  exact ⟨inode, PathLookup.eq_found hword hfound.hdentry, hresp⟩

/-- A name behind the path of a directory leads to the entry exactly when it follows. -/
theorem denotes_child_iff {object : Object} (hdir : tree.DirectoryAt node.path object) :
    tree.denotes (lookupText node args) = tree.child object args.filename.bytes ↔
      NameFollows tree node args object := by
  have hclean : slash ∉ args.filename.bytes := fun hslash => (args.filename.hclean slash hslash).2 rfl
  rw [NameFollows]
  by_cases hopen : OpenEnded node.path
  · constructor
    · intro heq
      refine Or.inl ⟨hopen, fun hnil => ?_⟩
      rw [lookupText, hnil, List.append_nil, tree.hunnamed, hdir.1] at heq
      cases heq
    · rintro (⟨-, hne⟩ | ⟨hnot, -⟩)
      · exact tree.hchild node.path _ object hdir.1 hdir.2 hopen hne hclean
      · exact absurd hopen hnot
  · exact ⟨fun heq => Or.inr ⟨hopen, heq⟩, fun h => (h.resolve_left fun hleft => hopen hleft.1).2⟩

theorem childrenOnly_iff (henv : tree.Answers env.pathLookup)
    (hfind : findNode nodes (args.fh.ino args.after) = some node) :
    ChildrenOnly tree nodes node args env ↔ ChildGuard tree nodes node args env := by
  have hcalls := @lookup_call_iff nodes node args env hfind
  constructor
  · intro honly
    by_cases hno : NoLookup env
    · exact Or.inl hno
    · refine Or.inr ⟨fun object hdir => ?_, fun hnodir => ?_⟩
      · refine (denotes_child_iff hdir).mp (honly.asked object hdir _ (lookupAnswer node args env).errno ?_)
        exact (hcalls _ _).mpr ⟨hno, rfl, rfl⟩
      · exact ((refused_iff hfind).mp (honly.refused hnodir)).resolve_left hno
  · intro hguard
    refine ⟨fun object hdir text errno hcall => ?_, fun object hdir hok => ?_, fun hnodir => ?_⟩
    · obtain ⟨hlookup, rfl, -⟩ := (hcalls text errno).mp hcall
      exact (denotes_child_iff hdir).mpr ((hguard.resolve_left hlookup).1 object hdir)
    · have hlookup : ¬ NoLookup env := by
        intro hno
        have hstatus := (refused_of_noLookup hfind hno).1
        exact neg_vsnfserr_nospc_ne_ok (Option.some.inj (hstatus.symm.trans hok))
      have hchild := (denotes_child_iff hdir).mpr ((hguard.resolve_left hlookup).1 object hdir)
      obtain ⟨inode, hfound, hresp⟩ := lookup_found_of_ok hfind hok
      obtain ⟨entry, hdenotes, hanswer⟩ | ⟨-, failure, stale, hanswer⟩ := henv.cases (lookupText node args)
      · refine ⟨entry, hchild.symm.trans hdenotes, ?_⟩
        rw [hresp, ← PathLookup.found.inj (hanswer.symm.trans hfound)]
      · cases hanswer.symm.trans hfound
    · refine (refused_iff hfind).mpr ?_
      exact hguard.imp_right fun hboth => hboth.2 hnodir

/-- Behind an open-ended path only the empty name does not follow. -/
theorem childGuard_iff (hopen : ∀ object, tree.DirectoryAt node.path object → OpenEnded node.path) :
    ChildGuard tree nodes node args env ↔ ReachedGuard tree nodes node args env := by
  have hfollows : ∀ object, tree.DirectoryAt node.path object →
      (NameFollows tree node args object ↔ args.filename.bytes ≠ []) := by
    intro object hdir
    constructor
    · rintro (⟨-, hne⟩ | ⟨hnot, -⟩)
      · exact hne
      · exact absurd (hopen object hdir) hnot
    · exact fun hne => .inl ⟨hopen object hdir, hne⟩
  exact or_congr_right (and_congr_left' (forall₂_congr hfollows))

/-- **When LOOKUP resolves children of directories only.** For every table, every handle in it and every
name, with any tree behind `path_lookup`; and when the table was reached over the same tree, for every name
but the empty one under a directory. -/
theorem lookup_children_only_iff (henv : tree.Answers env.pathLookup)
    (hfind : findNode nodes (args.fh.ino args.after) = some node) :
    (ChildrenOnly tree nodes node args env ↔ ChildGuard tree nodes node args env) ∧
      ∀ events : List Event, (∀ event ∈ events, event.Over tree) →
        (runFrom step Server.load events).head = some nodes →
          (ChildrenOnly tree nodes node args env ↔ ReachedGuard tree nodes node args env) := by
  have hguard := childrenOnly_iff henv hfind
  refine ⟨hguard, fun events hover hreached => hguard.trans (childGuard_iff fun object hdir => ?_)⟩
  have hopens := run_directoriesOpen hover
  rw [DirectoriesOpen, hreached] at hopens
  exact hopens node (mem_of_findNode hfind) object hdir

end Request

/-! ### A file and its sibling -/

/-- The directory `/a` and the files `f` and `foo` in it. -/
inductive SiblingObject where
  | a | f | foo
  deriving DecidableEq

/-- The path of the directory. -/
def pathOfA : List Byte := [slash, 0x61, slash]

def siblingChild : SiblingObject → List Byte → Option SiblingObject
  | .a, name => if name = [0x66] then some .f else if name = [0x66, 0x6f, 0x6f] then some .foo else none
  | _, _ => none

def siblings : Hierarchy SiblingObject where
  denotes text :=
    if text = pathOfA then some .a
    else if pathOfA <+: text then siblingChild .a (text.drop pathOfA.length)
    else none
  inode
    | .a => ⟨5, .dir⟩
    | .f => ⟨7, .reg⟩
    | .foo => ⟨8, .reg⟩
  child := siblingChild
  hchild := by
    intro text name object hdenotes hkind _ hne _
    have hobject : object = .a := by
      cases object with
      | a => rfl
      | f => cases hkind
      | foo => cases hkind
    subst hobject
    have hnotA : ∀ name, siblingChild .a name ≠ some .a := by
      intro name
      simp only [siblingChild]
      split
      · simp
      · split <;> simp
    have htext : text = pathOfA := by
      by_contra hother
      rw [if_neg hother] at hdenotes
      split at hdenotes
      · exact hnotA _ hdenotes
      · cases hdenotes
    rw [htext, if_neg (by simpa using hne), if_pos (List.prefix_append _ _), List.drop_left]
  hunnamed := by
    intro object
    cases object <;> rfl

/-- `path_lookup` on that tree. -/
def siblingsLookup (text : List Byte) : PathLookup :=
  match siblings.denotes text with
  | some object => .found (siblings.inode object)
  | none => .failed .noEntry none

theorem siblingsLookup_answers : siblings.Answers siblingsLookup := by
  intro text
  unfold siblingsLookup
  split
  · rename_i object hdenotes
    rw [hdenotes]
  · rename_i hnone
    rw [hnone]
    exact ⟨_, _, rfl⟩

def siblingsEnv : LookupEnv := { LookupEnv.answering (.found ⟨5, .dir⟩) with pathLookup := siblingsLookup }

/-- A mount of `/a` and a LOOKUP of `f` in it. -/
def mountAndFile : List Event :=
  [.getroot ⟨pathA⟩ { GetrootEnv.answering (.found ⟨5, .dir⟩) with pathLookup := siblingsLookup },
    .lookup ⟨zeroFh.print 5, [], oneLetterName⟩ siblingsEnv]

def nodeOfA : Node := ⟨5, pathOfA, by decide⟩

def nodeOfF : Node := ⟨7, pathOfA ++ [0x66], by decide⟩

theorem mountAndFile_over : ∀ event ∈ mountAndFile, event.Over siblings := by
  intro event hevent pathLookup hmem
  simp only [mountAndFile, List.mem_cons, List.not_mem_nil, or_false] at hevent
  obtain rfl | rfl := hevent
  · cases hmem
    exact siblingsLookup_answers
  · cases hmem
    exact siblingsLookup_answers

/-- The name `foo` under the directory leads to the file `foo`. -/
theorem lookup_under_directory :
    (runFrom step Server.load mountAndFile).head = some [nodeOfF, nodeOfA] ∧
      ChildrenOnly siblings [nodeOfF, nodeOfA] nodeOfA
        ⟨zeroFh.print 5, [], ⟨[0x66, 0x6f, 0x6f], by decide, by decide⟩⟩ siblingsEnv := by
  have hreached : (runFrom step Server.load mountAndFile).head = some [nodeOfF, nodeOfA] := by decide
  refine ⟨hreached, ((lookup_children_only_iff siblingsLookup_answers (by decide)).2 mountAndFile
    mountAndFile_over hreached).mpr (.inr ⟨fun _ _ => List.cons_ne_nil _ _, fun hnodir => ?_⟩)⟩
  exact absurd ⟨rfl, rfl⟩ (hnodir .a)

/-- The name `oo` under the file `f` leads to the file `foo` beside it, with `vsnfs_ok`. -/
theorem lookup_under_file :
    (runFrom step Server.load mountAndFile).head = some [nodeOfF, nodeOfA] ∧
      (vsnfsdProcLookup (some [nodeOfF, nodeOfA])
        ⟨zeroFh.print 7, [], ⟨[0x6f, 0x6f], by decide, by decide⟩⟩ zeroFh siblingsEnv).status =
          some (vsnfserr .ok) ∧
      ¬ ChildrenOnly siblings [nodeOfF, nodeOfA] nodeOfF
        ⟨zeroFh.print 7, [], ⟨[0x6f, 0x6f], by decide, by decide⟩⟩ siblingsEnv := by
  refine ⟨by decide, by decide, fun honly => ?_⟩
  have hnodir : ∀ object, ¬ siblings.DirectoryAt nodeOfF.path object := by
    rintro object ⟨hdenotes, hkind⟩
    obtain rfl : object = .f := Option.some.inj (hdenotes.symm.trans rfl)
    cases hkind
  obtain ⟨⟨status, hstatus, hne⟩, -⟩ := honly.refused hnodir
  exact hne (Option.some.inj (hstatus.symm.trans (by decide)))

end Vsnfs
