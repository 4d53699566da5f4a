import Vsnfs.LookupChain

/-! What a handle denotes. The server knows an object by the number of its inode alone, and an object
whose number is in the table already keeps the path that was stored first. Over a fixed tree of files
the path behind a handle is a path of the object as long as different objects have different numbers;
two file systems may give the same number to two objects. -/

namespace Vsnfs

open Base

/-- A tree of files, as `path_lookup` sees it: the object a path denotes, if any, and the inode of each
object. A path of a directory denotes it with a slash behind it too. -/
structure FileTree (Object : Type) where
  denotes : List Byte → Option Object
  inode : Object → Inode
  hpositive : ∀ object, 0 < (inode object).ino.toNat
  hsmall : ∀ object, (inode object).ino.toNat < 10 ^ 7
  hslash : ∀ text object, denotes text = some object → (inode object).kind = .dir →
    denotes (withSlash text) = some object

namespace FileTree

variable {Object : Type} (tree : FileTree Object)

/-- `path_lookup` on this tree: it finds what a path denotes, and fails where that is nothing. -/
def Answers (pathLookup : List Byte → PathLookup) : Prop :=
  ∀ text, match tree.denotes text with
    | some object => pathLookup text = .found (tree.inode object)
    | none => ∃ failure stale, pathLookup text = .failed failure stale

/-- Different objects have different numbers. -/
def DistinctNumbers : Prop := ∀ left right, (tree.inode left).ino = (tree.inode right).ino → left = right

variable {tree}

theorem Answers.denotes_of_found {pathLookup : List Byte → PathLookup} (h : tree.Answers pathLookup)
    {text : List Byte} {inode : Inode} (hfound : pathLookup text = .found inode) :
    ∃ object, tree.denotes text = some object ∧ tree.inode object = inode := by
  have htext := h text
  cases hdenotes : tree.denotes text with
  | none =>
      rw [hdenotes] at htext
      obtain ⟨failure, stale, hfailed⟩ := htext
      cases hfailed.symm.trans hfound
  | some object =>
      rw [hdenotes] at htext
      exact ⟨object, rfl, PathLookup.found.inj (htext.symm.trans hfound)⟩

theorem Answers.found_of_denotes {pathLookup : List Byte → PathLookup} (h : tree.Answers pathLookup)
    {text : List Byte} {object : Object} (hdenotes : tree.denotes text = some object) :
    pathLookup text = .found (tree.inode object) := by
  have htext := h text
  rw [hdenotes] at htext
  exact htext

/-- The stored text denotes what the text denotes. -/
theorem denotes_storedText {text : List Byte} {object : Object} (hdenotes : tree.denotes text = some object) :
    tree.denotes (storedText (tree.inode object) text) = some object := by
  unfold storedText
  split
  · rename_i hdir
    exact tree.hslash text object hdenotes hdir
  · exact hdenotes

end FileTree

/-! ### Runs over a fixed tree -/

/-- The answers that a request has from `path_lookup`. -/
def Event.pathLookup : Event → Option (List Byte → PathLookup)
  | .getroot _ env => some env.pathLookup
  | .lookup _ env => some env.pathLookup
  | _ => none

section Tree

variable {Object : Type} (tree : FileTree Object)

/-- A request over the tree. When it inserts an entry, its path lookup has succeeded, and the path is
short enough for the buffers it is copied into. -/
structure Orderly (server : Server) (event : Event) : Prop where
  root : event.RootNonempty
  answers : ∀ pathLookup ∈ event.pathLookup, tree.Answers pathLookup
  inserts : ∀ inode node, Inserts server.head event inode node →
    (serve server.head event).status = some (vsnfserr .ok) ∧ node.path.length < vsnfsMaxpathlen

/-- The path of an entry denotes an object with its number. -/
structure GoodEntry (node : Node) : Prop where
  nonempty : node.path ≠ []
  short : node.path.length < vsnfsMaxpathlen
  denotes : ∃ object, tree.denotes node.path = some object ∧ (tree.inode object).ino = node.ino

end Tree

theorem PathLookup.eq_found {answer : PathLookup} {inode : Inode} (hword : answer.word = vsnfserr .ok)
    (hdentry : answer.dentry = some inode) : answer = .found inode := by
  cases answer with
  | found other => exact congrArg _ (Option.some.inj hdentry)
  | failed failure stale =>
      have hne := (PathLookup.word_ne_ok_iff (.failed failure stale)).mpr (Int.ne_of_lt failure.hneg)
      exact absurd hword hne

/-! ### What the entries denote -/

section Tree

variable {Object : Type} {tree : FileTree Object}

/-- **An inserted entry denotes the object it was inserted for.** -/
theorem Orderly.goodEntry {server : Server} {event : Event} (h : Orderly tree server event)
    (hgood : ∀ node ∈ server.head.entries, GoodEntry tree node) {inode : Inode} {node : Node}
    (hinserts : Inserts server.head event inode node) : GoodEntry tree node := by
  have hpaths : ∀ node ∈ server.head.entries, node.path ≠ [] := fun node hnode => (hgood node hnode).nonempty
  obtain ⟨hok, hshort⟩ := h.inserts inode node hinserts
  refine ⟨(hinserts.composed hpaths h.root).path_ne_nil hpaths, hshort, ?_⟩
  cases hinserts with
  | root args env root halloc hdentry hkind hnode hnodePath =>
      rw [(getroot_added halloc hdentry hkind hnode hnodePath).1] at hok
      have hfound := PathLookup.eq_found (Option.some.inj hok) hdentry
      obtain ⟨object, hdenotes, hinode⟩ := (h.answers _ rfl).denotes_of_found hfound
      exact ⟨object, hdenotes, congrArg Inode.ino hinode⟩
  | child nodes args env parent inode hhead hresolved hnew hnode hnodePath =>
      rw [hhead, (lookup_added hresolved hnew hnode hnodePath).1] at hok
      have hfound := PathLookup.eq_found (Option.some.inj hok) hresolved.hdentry
      obtain ⟨object, hdenotes, hinode⟩ := (h.answers _ rfl).denotes_of_found hfound
      refine ⟨object, ?_, congrArg Inode.ino hinode⟩
      have hparent : parent ∈ server.head.entries := by
        rw [hhead]
        exact mem_of_findNode hresolved.hfind
      rw [lookupNode_path_eq (hpaths parent hparent), ← hinode]
      exact FileTree.denotes_storedText hdenotes

theorem serve_goodEntries {server : Server} {event : Event}
    (hgood : ∀ node ∈ server.head.entries, GoodEntry tree node) (h : Orderly tree server event) :
    ∀ node ∈ (serve server.head event).head.entries, GoodEntry tree node := by
  intro node hnode
  rcases serve_entries server.head event node hnode with hold | ⟨inode, hinserts⟩
  · exact hgood node hold
  · exact h.goodEntry hgood hinserts

theorem step_goodEntries (server : Server) (event : Event)
    (hgood : ∀ node ∈ server.head.entries, GoodEntry tree node) (h : Orderly tree server event) :
    ∀ node ∈ (step server event).head.entries, GoodEntry tree node := by
  rw [step]
  split
  · exact hgood
  · exact serve_goodEntries hgood h

variable (tree) in
/-- A LOOKUP on this table: when its path lookup finds an object and it returns `vsnfs_ok`, the handle
resolves to a path of that object. -/
def HandleDenotes (head : Head) (args : LookupArgs) (env : LookupEnv) : Prop :=
  ∀ object given, .pathLookup given 0 ∈ (vsnfsdProcLookup head args zeroFh env).calls →
    tree.denotes given = some object →
    (vsnfsdProcLookup head args zeroFh env).status = some (vsnfserr .ok) →
      ∀ after junk, ∃ buffer,
        vsnfsdFhToPath (vsnfsdProcLookup head args zeroFh env).head
            (vsnfsdProcLookup head args zeroFh env).resp after (Buffer.alloc vsnfsMaxpathlen junk)
            vsnfsMaxpathlen = some (0, buffer) ∧
          tree.denotes buffer.cstr = some object

/-- The result of such a LOOKUP: the printed number of the object, which has an entry. -/
theorem lookup_ok_entry {nodes : List Node} {args : LookupArgs} {env : LookupEnv} {given : List Byte}
    {inode : Inode} (hcall : .pathLookup given 0 ∈ (vsnfsdProcLookup (some nodes) args zeroFh env).calls)
    (hanswer : env.pathLookup given = .found inode)
    (hok : (vsnfsdProcLookup (some nodes) args zeroFh env).status = some (vsnfserr .ok)) :
    Printed inode.ino (vsnfsdProcLookup (some nodes) args zeroFh env).resp ∧
      ∃ node ∈ (vsnfsdProcLookup (some nodes) args zeroFh env).head.entries, node.ino = inode.ino := by
  obtain ⟨parent, hfind, rfl⟩ := lookup_given hcall
  obtain ⟨object, hresolved, -, hresp, htable⟩ := lookup_of_ok hok hfind
  obtain rfl : inode = object :=
    Option.some.inj ((congrArg PathLookup.dentry hanswer).symm.trans hresolved.hdentry)
  rw [hresp]
  refine ⟨lookupResp_printed zeroFh inode, ?_⟩
  rcases htable with ⟨old, hold, hhead⟩ | ⟨-, hhead⟩
  · rw [hhead]
    exact ⟨old, mem_of_findNode hold, ino_of_findNode hold⟩
  · rw [hhead]
    exact ⟨_, List.mem_cons_self, rfl⟩

/-- **A handle denotes the object that was looked up**, in every table that requests over a tree with
distinct numbers lead to. -/
theorem looked_up_handle_denotes (hdistinct : tree.DistinctNumbers) (events : List Event)
    (args : LookupArgs) (env : LookupEnv)
    (horderly : Along step (Orderly tree) Server.load (events ++ [.lookup args env])) :
    HandleDenotes tree (runFrom step Server.load events).head args env := by
  intro object given hcall hdenotes hok after junk
  have hgood : ∀ node ∈ (runFrom step Server.load events).head.entries, GoodEntry tree node := by
    refine Along.invariant (I := fun server : Server => ∀ node ∈ server.head.entries, GoodEntry tree node)
      step_goodEntries ?_ horderly (List.prefix_append _ _)
    intro node hnode
    cases hnode
  have hunique := run_uniqueInos events
  have hlast : Orderly tree (runFrom step Server.load events) (.lookup args env) := horderly.at_step
  cases hhead : (runFrom step Server.load events).head with
  | none =>
      rw [hhead] at hok
      cases hok
  | some nodes =>
      have hafter : ∀ node ∈ (serve (some nodes) (.lookup args env)).head.entries, GoodEntry tree node := by
        rw [← hhead]
        exact serve_goodEntries hgood hlast
      have huniqueAfter : UniqueInos (serve (some nodes) (.lookup args env)).head :=
        serve_uniqueInos _ _ (hhead ▸ hunique)
      rw [hhead] at hcall hok
      have hanswer := (hlast.answers _ rfl).found_of_denotes hdenotes
      obtain ⟨hprinted, node, hmem, hino⟩ := lookup_ok_entry hcall hanswer hok
      obtain ⟨-, hshort, other, hother, hnumber⟩ := hafter node hmem
      obtain rfl : other = object := hdistinct other object (hnumber.trans hino)
      have hne : node.ino ≠ 0 := by
        intro hzero
        have hpositive := tree.hpositive other
        rw [hnumber, hzero] at hpositive
        exact absurd hpositive (by decide)
      have hparse := (hprinted.ino_eq_iff after).mpr (tree.hsmall other)
      obtain ⟨buffer, hresolved, hcstr, -⟩ :=
        (resolves_of_mem huniqueAfter hmem hne hshort).opens _ after junk (hparse.trans hino.symm)
      refine ⟨buffer, hresolved, ?_⟩
      rw [hcstr]
      exact hother

end Tree

/-! ### Two files in one directory -/

/-- The directory `/a` and the files `x` and `y` in it. -/
inductive SmallObject where
  | top | x | y
  deriving DecidableEq

/-- The number of `y` is left open; `x` has the number 7. -/
def smallInode (number : BitVec 64) : SmallObject → Inode
  | .top => ⟨5, .dir⟩
  | .x => ⟨7, .reg⟩
  | .y => ⟨number, .reg⟩

def smallDenotes (text : List Byte) : Option SmallObject :=
  if text = [slash, 0x61] ∨ text = [slash, 0x61, slash] then some .top
  else if text = [slash, 0x61, slash, 0x78] then some .x
  else if text = [slash, 0x61, slash, 0x79] then some .y
  else none

def smallTree (number : BitVec 64) (hpositive : 0 < number.toNat) (hsmall : number.toNat < 10 ^ 7) :
    FileTree SmallObject where
  denotes := smallDenotes
  inode := smallInode number
  hpositive object := by
    cases object with
    | top => exact (by decide : 0 < (5 : BitVec 64).toNat)
    | x => exact (by decide : 0 < (7 : BitVec 64).toNat)
    | y => exact hpositive
  hsmall object := by
    cases object with
    | top => exact (by decide : (5 : BitVec 64).toNat < 10 ^ 7)
    | x => exact (by decide : (7 : BitVec 64).toNat < 10 ^ 7)
    | y => exact hsmall
  hslash text object hdenotes hdir := by
    cases object with
    | x => cases hdir
    | y => cases hdir
    | top =>
        have htext : text = [slash, 0x61] ∨ text = [slash, 0x61, slash] := by
          by_contra hother
          rw [smallDenotes, if_neg hother] at hdenotes
          split at hdenotes
          · cases hdenotes
          · split at hdenotes <;> cases hdenotes
        rcases htext with rfl | rfl
        · decide
        · decide

/-- `path_lookup` on that tree. -/
def smallLookup (number : BitVec 64) (text : List Byte) : PathLookup :=
  match smallDenotes text with
  | some object => .found (smallInode number object)
  | none => .failed .noEntry none

/-- A mount of `/a`, and a LOOKUP of a name in it. -/
def smallMount (number : BitVec 64) : Event :=
  .getroot ⟨pathA⟩ { GetrootEnv.answering (.found ⟨5, .dir⟩) with pathLookup := smallLookup number }

def smallLookupEnv (number : BitVec 64) : LookupEnv :=
  { LookupEnv.answering (.found ⟨5, .dir⟩) with pathLookup := smallLookup number }

def nameY : FileName := ⟨[0x79], by decide, by decide⟩

/-- LOOKUP of `x` and of `y` with the handle of the mount. -/
def lookupX : LookupArgs := ⟨zeroFh.print 5, [], nameX⟩

def lookupY : LookupArgs := ⟨zeroFh.print 5, [], nameY⟩

theorem smallTree_answers (number : BitVec 64) (hpositive : 0 < number.toNat)
    (hsmall : number.toNat < 10 ^ 7) : (smallTree number hpositive hsmall).Answers (smallLookup number) := by
  intro text
  have hsame : (smallTree number hpositive hsmall).denotes text = smallDenotes text := rfl
  rw [hsame]
  cases hdenotes : smallDenotes text with
  | none => exact ⟨_, _, by rw [smallLookup, hdenotes]⟩
  | some object =>
      simp only [smallLookup, hdenotes]
      rfl

/-- A request over that tree, when it returns `vsnfs_ok` and all paths are short after it. -/
theorem smallTree_orderly {number : BitVec 64} {hpositive : 0 < number.toNat} {hsmall : number.toNat < 10 ^ 7}
    {server : Server} {event : Event} (hroot : event.RootNonempty)
    (hlookup : event.pathLookup = some (smallLookup number))
    (hok : (serve server.head event).status = some (vsnfserr .ok))
    (hshort : ∀ node ∈ (serve server.head event).head.entries, node.path.length < vsnfsMaxpathlen) :
    Orderly (smallTree number hpositive hsmall) server event := by
  refine ⟨hroot, ?_, fun inode node hinserts => ⟨hok, hshort node hinserts.mem⟩⟩
  intro pathLookup hmem
  rw [hlookup] at hmem
  cases hmem
  exact smallTree_answers number hpositive hsmall

/-- With distinct numbers the handle of `y` resolves to a path of `y`. -/
theorem distinct_files_handle_denotes :
    HandleDenotes (smallTree 8 (by decide) (by decide))
      (runFrom step Server.load [smallMount 8, .lookup lookupX (smallLookupEnv 8)]).head
      lookupY (smallLookupEnv 8) := by
  refine looked_up_handle_denotes ?_ [smallMount 8, .lookup lookupX (smallLookupEnv 8)] lookupY
    (smallLookupEnv 8) ⟨?_, ?_, ?_, trivial⟩
  · intro left right hsame
    cases left <;> cases right <;> first | rfl | exact absurd hsame (by decide)
  · exact smallTree_orderly (List.cons_ne_nil _ _) rfl (by decide) (by decide)
  · exact smallTree_orderly trivial rfl (by decide) (by decide)
  · exact smallTree_orderly trivial rfl (by decide) (by decide)

/-- Two files of different file systems share the number 7. The one that is looked up second is handed
out with the handle of the first, which resolves to `/a/x`. -/
theorem shared_number_handle_denotes_other :
    Along step (Orderly (smallTree 7 (by decide) (by decide))) Server.load
        [smallMount 7, .lookup lookupX (smallLookupEnv 7), .lookup lookupY (smallLookupEnv 7)] ∧
      ¬ HandleDenotes (smallTree 7 (by decide) (by decide))
        (runFrom step Server.load [smallMount 7, .lookup lookupX (smallLookupEnv 7)]).head
        lookupY (smallLookupEnv 7) := by
  refine ⟨⟨?_, ?_, ?_, trivial⟩, fun hdenotes => ?_⟩
  · exact smallTree_orderly (List.cons_ne_nil _ _) rfl (by decide) (by decide)
  · exact smallTree_orderly trivial rfl (by decide) (by decide)
  · exact smallTree_orderly trivial rfl (by decide) (by decide)
  · obtain ⟨buffer, hresolved, hpath⟩ := hdenotes .y [slash, 0x61, slash, 0x79] (by decide) (by decide)
      (by decide) [] []
    have hfirst : vsnfsdFhToPath (vsnfsdProcLookup
          (runFrom step Server.load [smallMount 7, .lookup lookupX (smallLookupEnv 7)]).head lookupY zeroFh
          (smallLookupEnv 7)).head
        (vsnfsdProcLookup
          (runFrom step Server.load [smallMount 7, .lookup lookupX (smallLookupEnv 7)]).head lookupY zeroFh
          (smallLookupEnv 7)).resp [] (Buffer.alloc vsnfsMaxpathlen []) vsnfsMaxpathlen =
        some (0, (Buffer.alloc vsnfsMaxpathlen []).put 0
          (strncpyBytes [slash, 0x61, slash, 0x78] vsnfsMaxpathlen)) := by rfl
    obtain rfl := congrArg Prod.snd (Option.some.inj (hresolved.symm.trans hfirst))
    exact absurd hpath (by decide)

end Vsnfs
