import Vsnfs.ServerHistory

/-! The path buffer of LOOKUP over whole runs. The stored paths grow with the depth of the tree, and
nothing bounds them: a request writes inside its buffer exactly when the composed path fits, and a
run stays inside exactly when this holds at each of its requests. -/

namespace Vsnfs

open Base

def lookupStep (server : Server) (request : LookupRequest) : Server :=
  step server (.lookup request.1 request.2)

/-- Every byte the request writes into its buffer `path` is inside the allocation. -/
def LookupWritesInside (server : Server) (request : LookupRequest) : Prop :=
  server.down = false → ∀ path ∈ (vsnfsdProcLookup server.head request.1 zeroFh request.2).path,
    path.WritesInside

/-- The entry that the handle of a request finds. -/
def requestNode (server : Server) (request : LookupRequest) : Option Node :=
  server.head.bind (fun nodes => findNode nodes (request.1.fh.ino request.1.after))

/-- The composed path leaves room for its terminator, and for one slash more when a directory was
found whose path does not end in one. -/
def LookupFits (server : Server) (request : LookupRequest) : Prop :=
  server.down = false → ∀ node ∈ requestNode server request, request.2.pathAlloc = true →
    (lookupText node request.1).length ≤ vsnfsMaxpathlen ∧
    (request.2.ndAlloc = true → ∀ inode ∈ (lookupAnswer node request.1 request.2).dentry,
      inode.kind = .dir → (lookupText node request.1).getLast? ≠ some slash →
        (lookupText node request.1).length < vsnfsMaxpathlen)

/-! ### One request -/

section Buffer

variable {node : Node} (hne : node.path ≠ []) (args : LookupArgs) (env : LookupEnv) (inode : Inode)

theorem lookupPath_inside_iff (node : Node) :
    (lookupPath node args.filename env.junk).WritesInside ↔
      (lookupText node args).length ≤ vsnfsMaxpathlen := by
  rw [lookupPath_writesInside_iff, lookupText, List.length_append]

include hne

theorem lookupBuffer_inside_iff :
    (lookupBuffer node args env inode).WritesInside ↔
      (lookupText node args).length ≤ vsnfsMaxpathlen ∧
        (inode.kind = .dir → (lookupText node args).getLast? ≠ some slash →
          (lookupText node args).length < vsnfsMaxpathlen) := by
  obtain ⟨rest, hcells⟩ := lookupPath_cells node args.filename env.junk
  have hslash := lookupSlash_writesInside_iff (lookupText_ne_zero node args)
    (lookupText_ne_nil hne args) hcells env.stray
  rw [lookupBuffer, lookupFinalPath]
  by_cases hdir : inode.kind = .dir
  · rw [if_pos hdir, hslash, lookupPath_inside_iff, lookupPath_size]
    refine and_congr_right fun hfit => ?_
    constructor
    · intro hroom _ hlast
      have := hroom hlast
      omega
    · intro hroom hlast
      have := hroom hdir hlast
      omega
  · rw [if_neg hdir, lookupPath_inside_iff]
    exact ⟨fun hfit => ⟨hfit, fun h => absurd h hdir⟩, fun h => h.1⟩

end Buffer

/-- **One LOOKUP writes inside its buffer exactly when the composed path fits.** -/
theorem lookup_writesInside_iff (server : Server) (request : LookupRequest)
    (hpaths : PathsNonempty server) : LookupWritesInside server request ↔ LookupFits server request := by
  obtain ⟨head, down⟩ := server
  obtain ⟨args, env⟩ := request
  refine forall_congr' fun hdown => ?_
  cases head with
  | none => exact iff_of_true (fun path hpath => by cases hpath) (fun node hnode => by cases hnode)
  | some nodes =>
      simp only [requestNode, Option.bind_some, Option.mem_def]
      -- each kind of buffer, compared with the condition at the node the handle finds
      rcases lookup_buffer nodes args zeroFh env with
        ⟨hbuffer, hpath⟩ | ⟨node, hfind, hpath, hdentry, hbuffer⟩ | ⟨node, inode, path, hfound, hbuffer, hsame⟩
      · rw [hbuffer]
        refine iff_of_true (fun path hpath => by cases hpath) ?_
        intro node hnode htrue
        exact absurd ((hpath node hnode).symm.trans htrue) Bool.false_ne_true
      · rw [hbuffer, hfind]
        simp only [Option.some.injEq, forall_eq', hpath, lookupPath_inside_iff, forall_true_left]
        refine ⟨fun hfit => ⟨hfit, fun hnd inode hinode => ?_⟩, fun h => h.1⟩
        rw [hdentry hnd] at hinode
        cases hinode
      · have hne := hpaths node (mem_of_findNode hfound.hfind)
        rw [hbuffer, hfound.hfind]
        simp only [Option.some.injEq, forall_eq', hsame, hfound.hpath, hfound.hnd, hfound.hdentry,
          lookupBuffer_inside_iff hne, forall_true_left]

/-! ### Whole runs -/

theorem lookupStep_pathsNonempty (server : Server) (request : LookupRequest)
    (hpaths : PathsNonempty server) : PathsNonempty (lookupStep server request) :=
  step_pathsNonempty server (.lookup request.1 request.2) hpaths trivial

theorem mount_pathsNonempty (args : GetrootArgs) (env : GetrootEnv) (hne : args.path.bytes ≠ []) :
    PathsNonempty (step Server.load (.getroot args env)) :=
  step_pathsNonempty Server.load (.getroot args env) load_pathsNonempty hne

/-- **Runs of LOOKUP and the path buffer.** After a mount of any non-empty path, a run of LOOKUP
requests writes only inside its path buffers exactly when the composed path fits at each request. -/
theorem lookup_run_writes_inside_iff (args : GetrootArgs) (env : GetrootEnv)
    (hne : args.path.bytes ≠ []) (requests : List LookupRequest) :
    Along lookupStep LookupWritesInside (step Server.load (.getroot args env)) requests ↔
      Along lookupStep LookupFits (step Server.load (.getroot args env)) requests :=
  along_congr lookupStep_pathsNonempty lookup_writesInside_iff (mount_pathsNonempty args env hne) requests

theorem lookupOf_ino (letter : Byte) (hletter : letter ≠ 0 ∧ letter ≠ slash) (answer : PathLookup) :
    (lookupOf letter hletter answer).1.fh.ino (lookupOf letter hletter answer).1.after = 5 :=
  (VsnfsFh.ino_print_eq_iff zeroFh 5 []).mpr (by decide)

/-- A mount whose path lookup finds a directory leaves its root in the table. -/
theorem mounted (args : GetrootArgs) (root : Inode) (hkind : root.kind = .dir) :
    step Server.load (.getroot args (.answering (.found root))) =
      ⟨some [rootNode args (.answering (.found root)) root], false⟩ := by
  have hreg : root.kind ≠ .reg := by
    rw [hkind]
    decide
  simp only [step, Server.load, serve, Outcome.served, vsnfsdProcGetroot, rootNode_copy]
  simp [GetrootEnv.answering, PathLookup.dentry, hreg]

/-- Under `/a` there is room for the directory `x`. -/
theorem shallow_lookup_writes_inside :
    Along lookupStep LookupWritesInside (step Server.load (mountOf 0x61 (by decide) (.found ⟨5, .dir⟩)))
      [lookupOf 0x78 (by decide) (.found ⟨7, .dir⟩)] := by
  refine (lookup_run_writes_inside_iff _ _ (by simp) _).mpr ⟨?_, trivial⟩
  intro _ node hnode _
  rw [requestNode, lookupOf_ino, mounted _ _ rfl] at hnode
  cases hnode
  decide

/-- The path `/a/a/../a` of 1024 bytes, the longest a mount accepts. -/
def longPath : List Byte := (List.replicate 512 [slash, 0x61]).flatten

theorem longPath_length : longPath.length = vsnfsMaxpathlen := by
  rw [longPath, List.length_flatten, List.map_replicate, List.sum_replicate_nat]
  rfl

theorem longPath_getLast? : longPath.getLast? = some 0x61 := by
  rw [longPath, show (512 : Nat) = 511 + 1 from rfl, List.replicate_succ', List.flatten_append,
    List.getLast?_append]
  rfl

def longRoot : GetrootArgs :=
  ⟨⟨longPath, longPath_length.le, by
    intro byte hbyte
    obtain ⟨block, hblock, hmem⟩ := List.mem_flatten.mp hbyte
    rw [(List.mem_replicate.mp hblock).2] at hmem
    rcases List.mem_pair.mp hmem with h | h
    · rw [h]; decide
    · rw [h]; decide⟩⟩

theorem longRoot_ne_nil : longRoot.path.bytes ≠ [] := by
  intro hnil
  have hlength : longRoot.path.bytes.length = vsnfsMaxpathlen := longPath_length
  rw [hnil] at hlength
  cases hlength

theorem longRoot_withSlash_length : (withSlash longRoot.path.bytes).length = vsnfsMaxpathlen + 1 := by
  have hlast : longRoot.path.bytes.getLast? ≠ some slash := by
    change longPath.getLast? ≠ some slash
    rw [longPath_getLast?]
    decide
  have hlength : longRoot.path.bytes.length = vsnfsMaxpathlen := longPath_length
  rw [withSlash, if_neg hlast, List.length_append, hlength, List.length_singleton]

/-- Under a root of 1024 bytes the first LOOKUP of a one-byte name writes behind its buffer. -/
theorem long_root_lookup_overruns :
    ¬ Along lookupStep LookupWritesInside
      (step Server.load (.getroot longRoot (.answering (.found ⟨5, .dir⟩))))
      [lookupOf 0x78 (by decide) (.found ⟨7, .reg⟩)] := by
  intro hinside
  have hfits := (lookup_writesInside_iff _ _ (mount_pathsNonempty longRoot _ longRoot_ne_nil)).mp hinside.1
  rw [mounted _ _ rfl] at hfits
  have hnode : requestNode ⟨some [rootNode longRoot (.answering (.found ⟨5, .dir⟩)) ⟨5, .dir⟩], false⟩
      (lookupOf 0x78 (by decide) (.found ⟨7, .reg⟩)) =
        some (rootNode longRoot (.answering (.found ⟨5, .dir⟩)) ⟨5, .dir⟩) := by
    rw [requestNode, lookupOf_ino]
    rfl
  have hlength := (hfits rfl _ hnode rfl).1
  rw [lookupText, List.length_append, rootNode_path_eq longRoot _ _ longRoot_ne_nil,
    longRoot_withSlash_length] at hlength
  omega

end Vsnfs
