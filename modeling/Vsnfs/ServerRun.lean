import Vsnfs.BaseRun
import Vsnfs.ServerExits

/-! Runs of the server. One thread serves one request after another; a request that was stopped by an
invalid access takes the thread with it. The table is judged from the state before each request: when
a failed request leaves it as it was, and which of its entries later requests still find. -/

namespace Vsnfs

open Base

/-! ### Requests -/

/-- A decoded request with the kernel's answers to it. -/
inductive Event where
  | null (dummy : Word)
  | getroot (args : GetrootArgs) (env : GetrootEnv)
  | lookup (args : LookupArgs) (env : LookupEnv)
  | readdir (args : ReaddirArgs) (env : ReaddirEnv)
  | read (args : ReadArgs) (env : ReadEnv)

/-- The status, the table and the calls a request leaves. -/
structure Served where
  status : Option Word
  head : Head
  calls : List ExtCall

def Outcome.served {Res : Type} (out : Outcome Res) : Served := ⟨out.status, out.head, out.calls⟩

def serve (head : Head) : Event → Served
  | .null dummy => (vsnfsdProcNull head dummy).served
  | .getroot args env => (vsnfsdProcGetroot head args zeroFh env).served
  | .lookup args env => (vsnfsdProcLookup head args zeroFh env).served
  | .readdir args env => (vsnfsdProcReaddir head args env).served
  | .read args env => (vsnfsdProcRead head args env).served

structure Server where
  head : Head
  down : Bool

/-- The server after the module was loaded. -/
def Server.load : Server := ⟨none, false⟩

def step (server : Server) (event : Event) : Server :=
  if server.down then server
  else ⟨(serve server.head event).head, (serve server.head event).status.isNone⟩

theorem readdir_head (head : Head) (args : ReaddirArgs) (env : ReaddirEnv) :
    (vsnfsdProcReaddir head args env).head = head := by
  simp only [vsnfsdProcReaddir, vsnfsdReaddir]
  split
  · rfl
  · split <;> rfl

theorem read_head (head : Head) (args : ReadArgs) (env : ReadEnv) :
    (vsnfsdProcRead head args env).head = head := by
  simp only [vsnfsdProcRead, vsnfsdRead]
  split
  · rfl
  · split <;> rfl

/-! ### What a request does to the table -/

/-- The table after a request: unchanged, one entry of a new number in front, or emptied by a mount
and refilled with at most the root. -/
inductive TableStep (head : Head) (event : Event) (head' : Head) : Prop where
  | same (h : head' = head)
  | insert (nodes : List Node) (node : Node) (hhead : head = some nodes)
      (hnew : findNode nodes node.ino = none) (hhead' : head' = some (node :: nodes))
  | reset (args : GetrootArgs) (env : GetrootEnv) (hevent : event = .getroot args env)
      (hhead' : head' = some [] ∨ ∃ root, head' = some [rootNode args env root])

theorem serve_tableStep (head : Head) (event : Event) :
    TableStep head event (serve head event).head := by
  cases event with
  | null dummy => exact .same rfl
  | readdir args env => exact .same (readdir_head head args env)
  | read args env => exact .same (read_head head args env)
  | getroot args env =>
      rcases getroot_table head args zeroFh env with hhead | hhead | hhead
      · exact .same hhead
      · exact .reset args env rfl (Or.inl hhead)
      · exact .reset args env rfl (Or.inr hhead)
  | lookup args env =>
      cases head with
      | none => exact .same rfl
      | some nodes =>
          rcases lookup_table nodes args zeroFh env with hhead | ⟨node, inode, -, hnew, -, -, hhead⟩
          · exact .same hhead
          · exact .insert nodes _ rfl hnew hhead

/-- The mount that puts its root into the table. -/
theorem getroot_added {head : Head} {args : GetrootArgs} {env : GetrootEnv} {root : Inode}
    (halloc : env.ndAlloc = true ∧ env.pathAlloc = true)
    (hdentry : (rootAnswer args env).dentry = some root) (hkind : root.kind ≠ .reg)
    (hnode : env.nodeAlloc = true) (hnodePath : env.nodePathAlloc = true) :
    (serve head (.getroot args env)).status = some (rootAnswer args env).word ∧
      (serve head (.getroot args env)).head = some [rootNode args env root] := by
  have hanswer : (env.pathLookup (getrootPath args.path env.junk env.stray).cstr).dentry = some root := hdentry
  simp only [serve, Outcome.served, vsnfsdProcGetroot, halloc.1, halloc.2, hnode, hnodePath, hanswer, hkind,
    Bool.true_eq_false, if_false, rootNode_copy]
  exact ⟨rfl, trivial⟩

/-- The LOOKUP that puts an entry into the table. -/
theorem lookup_added {nodes : List Node} {args : LookupArgs} {env : LookupEnv} {parent : Node}
    {inode : Inode} (hfound : LookupResolved nodes args env parent inode)
    (hnew : findNode nodes inode.ino = none) (hnode : env.nodeAlloc = true)
    (hnodePath : env.nodePathAlloc = true) :
    (serve (some nodes) (.lookup args env)).status = some (lookupAnswer parent args env).word ∧
      (serve (some nodes) (.lookup args env)).head = some (lookupNode parent args env inode :: nodes) := by
  have hanswer : (env.pathLookup (parent.path ++ args.filename.bytes)).dentry = some inode := hfound.hdentry
  simp only [serve, Outcome.served, vsnfsdProcLookup, hfound.hfind, hfound.hpath, hfound.hnd, lookupPath_cstr,
    hanswer, hnew, hnode, hnodePath, Bool.true_eq_false, if_false, Option.isSome_none, Bool.false_eq_true,
    lookupNode_copy]
  exact ⟨rfl, trivial⟩

/-- A search finds nothing exactly when no entry has the number. -/
theorem findNode_eq_none_iff (nodes : List Node) (ino : BitVec 64) :
    findNode nodes ino = none ↔ ∀ node ∈ nodes, node.ino ≠ ino := by
  simp [findNode]

theorem mem_of_findNode {nodes : List Node} {ino : BitVec 64} {node : Node}
    (hfind : findNode nodes ino = some node) : node ∈ nodes := List.mem_of_find?_eq_some hfind

theorem ino_of_findNode {nodes : List Node} {ino : BitVec 64} {node : Node}
    (hfind : findNode nodes ino = some node) : node.ino = ino := by
  simpa using List.find?_some hfind

/-- No two entries have the same number. -/
def UniqueInos (head : Head) : Prop := head.entries.Pairwise (fun left right => left.ino ≠ right.ino)

theorem findNode_of_mem {nodes : List Node} {node : Node}
    (hunique : nodes.Pairwise (fun left right => left.ino ≠ right.ino)) (hmem : node ∈ nodes) :
    findNode nodes node.ino = some node := by
  induction nodes with
  | nil => cases hmem
  | cons first rest ih =>
      obtain ⟨hfirst, hrest⟩ := List.pairwise_cons.mp hunique
      rcases List.mem_cons.mp hmem with rfl | hmem
      · simp [findNode]
      · have hne := hfirst node hmem
        rw [findNode, List.find?_cons_of_neg (by simpa using hne)]
        exact ih hrest hmem

theorem serve_uniqueInos (head : Head) (event : Event) (h : UniqueInos head) :
    UniqueInos (serve head event).head := by
  cases serve_tableStep head event with
  | same hsame => rwa [hsame]
  | insert nodes node hhead hnew hhead' =>
      rw [hhead'] at *
      rw [hhead] at h
      refine List.Pairwise.cons ?_ h
      intro other hother heq
      exact (findNode_eq_none_iff nodes node.ino).mp hnew other hother heq.symm
  | reset args env hevent hhead' =>
      rcases hhead' with hhead' | ⟨root, hhead'⟩
      · rw [hhead']
        exact List.Pairwise.nil
      · rw [hhead']
        exact List.pairwise_singleton _ _

theorem step_uniqueInos (server : Server) (event : Event) (h : UniqueInos server.head) :
    UniqueInos (step server event).head := by
  unfold step
  split
  · exact h
  · exact serve_uniqueInos server.head event h

theorem load_uniqueInos : UniqueInos Server.load.head := List.Pairwise.nil

/-- No number stands in the table twice, after any run. -/
theorem run_uniqueInos (events : List Event) : UniqueInos (runFrom step Server.load events).head :=
  run_invariant (I := fun server : Server => UniqueInos server.head) step_uniqueInos load_uniqueInos events

end Vsnfs
