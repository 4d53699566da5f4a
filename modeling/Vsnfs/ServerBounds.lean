import Vsnfs.KernelPaths

/-! Where the requests access the buffers of their paths. Each buffer is one of a mount, of a lookup, or the
copy of a stored path that is opened; whoever gets the string in it reads up to the terminator. Three kinds
of requests leave their buffer: a mount of the empty path, a lookup whose composed path does not fit, and
the open of a path that is as long as the buffer. -/

namespace Vsnfs

open Base

/-! ### The buffers of a request -/

/-- The copy of a stored path that `filp_open` gets. -/
def openBuffer {File : Type} (head : Head) (fh : VsnfsFh) (after : List Byte) (env : OpenEnv File) :
    Option Buffer :=
  if env.pathAlloc = false then none
  else
    match vsnfsdFhToPath head fh after (Buffer.alloc vsnfsMaxpathlen env.junk) vsnfsMaxpathlen with
    | none => none
    | some (ret, path) => if ret ≠ 0 then none else some path

def pathBuffers (head : Head) : Event → List Buffer
  | .null _ => []
  | .getroot args env =>
      let out := vsnfsdProcGetroot head args zeroFh env
      out.path.toList ++ out.nodePath.toList
  | .lookup args env =>
      let out := vsnfsdProcLookup head args zeroFh env
      out.path.toList ++ out.nodePath.toList
  | .readdir args env => (openBuffer head args.fh args.after env.opening).toList
  | .read args env => (openBuffer head args.fh args.after env.opening).toList

/-- Every access to them is inside. -/
def StaysInside (server : Server) (event : Event) : Prop :=
  server.down = false → ∀ buffer ∈ pathBuffers server.head event, buffer.Contained

instance (server : Server) (event : Event) : Decidable (StaysInside server event) :=
  inferInstanceAs (Decidable (_ → _))

/-! ### The requests that leave them -/

/-- The path stored for a handle fills the buffer it is opened from, terminator not included. -/
def OpensLong {File : Type} (head : Head) (fh : VsnfsFh) (after : List Byte) (env : OpenEnv File) : Prop :=
  env.pathAlloc = true ∧ fh.ino after ≠ 0 ∧ ∃ node, head.bind (fun nodes => findNode nodes (fh.ino after)) = some node ∧
    vsnfsMaxpathlen ≤ node.path.length

/-- The request accesses memory outside its buffers. -/
def LeavesBuffers (server : Server) : Event → Prop
  | .null _ => False
  | .getroot args env => server.down = false ∧ (env.ndAlloc = true ∧ env.pathAlloc = true) ∧ args.path.bytes = []
  | .lookup args env => ¬ LookupFits server (args, env)
  | .readdir args env => server.down = false ∧ OpensLong server.head args.fh args.after env.opening
  | .read args env => server.down = false ∧ OpensLong server.head args.fh args.after env.opening

/-! ### Mounts -/

section Mount

variable (args : GetrootArgs) (env : GetrootEnv)

theorem getrootPath_contained_iff :
    (getrootPath args.path env.junk env.stray).Contained ↔ args.path.bytes ≠ [] := by
  rw [Buffer.contained_iff, getrootPath_readsInside_iff, and_iff_right (getrootPath_writesInside _ _ _)]
  refine and_iff_left_of_imp fun hne => ?_
  have hlength := withSlash_length_le args.path.bytes
  change (rootPath args env).length < _
  rw [rootPath_withSlash args env hne, getrootPath_size]
  omega

theorem getroot_contained_iff (head : Head) :
    (∀ buffer ∈ pathBuffers head (.getroot args env), buffer.Contained) ↔
      ¬ ((env.ndAlloc = true ∧ env.pathAlloc = true) ∧ args.path.bytes = []) := by
  by_cases halloc : env.ndAlloc = true ∧ env.pathAlloc = true
  · rw [not_and, imp_iff_right halloc, ← ne_eq, ← getrootPath_contained_iff args env]
    cases (getroot_buffers head args zeroFh env halloc).1 with
    | looked hpath hnodePath => simp [pathBuffers, hpath, hnodePath]
    | stored root hpath hnodePath =>
        simp only [pathBuffers, hpath, hnodePath, Option.toList_some, List.cons_append, List.nil_append,
          List.forall_mem_cons, Buffer.scan_contained_iff]
        refine ⟨fun h => h.1, fun h => ⟨h, ?_, by simp⟩⟩
        exact rootCopy_contained args env ((getrootPath_contained_iff args env).mp h)
  · obtain ⟨hpath, hnodePath, -⟩ := @getroot_noMemory head args zeroFh env halloc
    exact iff_of_true (by simp [pathBuffers, hpath, hnodePath]) fun h => halloc h.1

end Mount

/-! ### Lookups -/

section Lookup

variable (node : Node) (args : LookupArgs) (env : LookupEnv)

theorem lookupPath_contained_iff :
    (lookupPath node args.filename env.junk).Contained ↔
      (lookupPath node args.filename env.junk).WritesInside := by
  rw [Buffer.contained_iff]
  refine and_iff_left_of_imp fun hwrites => ?_
  rw [lookupPath_writesInside_iff] at hwrites
  rw [lookupPath_cstr, lookupPath_size, List.length_append]
  refine ⟨?_, by omega⟩
  have hcopy : ((Buffer.alloc (vsnfsMaxpathlen + 1) env.junk).put 0 (node.path ++ [0])).Contained :=
    Buffer.copy_contained node.hclean (by omega) env.junk
  exact hcopy.2

theorem lookupSlash_readsInside {path : Buffer} (h : path.Contained) (hne : path.cstr ≠ []) (stray : Byte) :
    (lookupSlash path stray).ReadsInside := by
  have hpos := List.length_pos_of_ne_nil hne
  have hend := ((Buffer.scan_readsInside_iff path).mp h.2).2
  have hlast : (path.scan.noteRead ((path.cstr.length : Int) - 1)).ReadsInside := by
    rw [Buffer.noteRead_readsInside_iff, Buffer.scan_size]
    exact ⟨h.2, by omega, by omega⟩
  rw [lookupSlash]
  split
  · rw [Buffer.put_readsInside_iff, Buffer.put_readsInside_iff]
    exact hlast
  · exact hlast

theorem lookupSlash_size (path : Buffer) (stray : Byte) : (lookupSlash path stray).size = path.size := by
  rw [lookupSlash]
  split <;> rfl

theorem lookupBuffer_contained_iff (hne : node.path ≠ []) (inode : Inode) :
    (lookupBuffer node args env inode).Contained ↔ (lookupBuffer node args env inode).WritesInside := by
  obtain ⟨rest, hcells⟩ := lookupPath_cells node args.filename env.junk
  have hzero := lookupText_ne_zero node args
  have hnil := lookupText_ne_nil hne args
  have hcstr : (lookupPath node args.filename env.junk).cstr = lookupText node args := lookupPath_cstr _ _ _
  rw [lookupBuffer, lookupFinalPath]
  split
  · rw [Buffer.contained_iff]
    refine and_iff_left_of_imp fun hwrites => ?_
    obtain ⟨hinside, hroom⟩ := (lookupSlash_writesInside_iff hzero hnil hcells env.stray).mp hwrites
    have hcontained := (lookupPath_contained_iff node args env).mpr hinside
    refine ⟨lookupSlash_readsInside hcontained (by rwa [hcstr]) env.stray, ?_⟩
    have hend := ((Buffer.contained_iff _).mp hcontained).2.2
    rw [hcstr] at hend
    rw [lookupSlash_cstr hzero hnil hcells, lookupSlash_size]
    split
    · exact hend
    · rename_i hlast
      have := hroom hlast
      rw [List.length_append, List.length_singleton]
      omega
  · exact lookupPath_contained_iff node args env

/-- The second buffer of a lookup is made for its path. -/
theorem lookup_nodePath_contained (head : Head) (resp : VsnfsFh) :
    ∀ buffer ∈ (vsnfsdProcLookup head args resp env).nodePath, buffer.Contained := by
  unfold vsnfsdProcLookup
  intro buffer hbuffer
  cases head with
  | none => cases hbuffer
  | some nodes =>
      dsimp only at hbuffer
      split at hbuffer
      · cases hbuffer
      split at hbuffer
      · cases hbuffer
      split at hbuffer
      · cases hbuffer
      split at hbuffer
      · cases hbuffer
      split at hbuffer
      · cases hbuffer
      split at hbuffer
      · cases hbuffer
      split at hbuffer
      · cases hbuffer
      · cases hbuffer
        exact Buffer.copy_contained Buffer.ne_zero_of_mem_cstr (by omega) env.nodeJunk

theorem lookup_contained_iff (server : Server) (hpaths : PathsNonempty server) (hup : server.down = false) :
    (∀ buffer ∈ pathBuffers server.head (.lookup args env), buffer.Contained) ↔ LookupFits server (args, env) := by
  rw [← lookup_writesInside_iff server (args, env) hpaths, LookupWritesInside, imp_iff_right hup, pathBuffers]
  have hsecond := lookup_nodePath_contained args env server.head zeroFh
  have hfirst : (∀ path ∈ (vsnfsdProcLookup server.head args zeroFh env).path, path.Contained) ↔
      ∀ path ∈ (vsnfsdProcLookup server.head args zeroFh env).path, path.WritesInside := by
    cases hhead : server.head with
    | none => simp [vsnfsdProcLookup, Outcome.enter]
    | some nodes =>
        have hnonempty {node : Node} {inode : Inode} (hfound : LookupResolved nodes args env node inode) :
            node.path ≠ [] := by
          refine hpaths node ?_
          rw [hhead]
          exact mem_of_findNode hfound.hfind
        cases lookup_exit nodes args zeroFh env with
        | unknown _ _ _ _ hbuffer => simp [hbuffer]
        | noPath _ _ _ _ _ hbuffer => simp [hbuffer]
        | noNd node _ _ _ _ _ hbuffer => simp [hbuffer, lookupPath_contained_iff]
        | noDentry node _ _ _ _ _ _ hbuffer => simp [hbuffer, lookupPath_contained_iff]
        | known node inode hfound _ _ _ hbuffer =>
            simp [hbuffer, lookupBuffer_contained_iff _ args env (hnonempty hfound)]
        | noNode node inode hfound _ _ _ _ hbuffer =>
            simp [hbuffer, lookupBuffer_contained_iff _ args env (hnonempty hfound)]
        | noNodePath node inode hfound _ _ _ _ _ hbuffer =>
            simp [hbuffer, lookupBuffer_contained_iff _ args env (hnonempty hfound)]
        | added node inode hfound _ _ _ _ _ hbuffer =>
            simp [hbuffer, lookupBuffer_contained_iff _ args env (hnonempty hfound)]
  constructor
  · intro h
    exact hfirst.mp fun path hpath => h path (List.mem_append_left _ (Option.mem_toList.mpr hpath))
  · intro h buffer hbuffer
    rcases List.mem_append.mp hbuffer with hpath | hnodePath
    · exact hfirst.mpr h buffer (Option.mem_toList.mp hpath)
    · exact hsecond buffer (Option.mem_toList.mp hnodePath)

end Lookup

/-! ### Opens -/

section Open

variable {File : Type} (head : Head) (fh : VsnfsFh) (after : List Byte) (env : OpenEnv File)

/-- A long path fills the copy, and what the terminator would be is behind it. -/
theorem openCopy_contained_iff (node : Node) (junk : List Byte) :
    ((Buffer.alloc vsnfsMaxpathlen junk).put 0 (strncpyBytes node.path vsnfsMaxpathlen)).Contained ↔
      node.path.length < vsnfsMaxpathlen := by
  rw [Buffer.contained_iff, Buffer.put_writesInside_iff, Buffer.put_readsInside_iff, Buffer.put_size,
    Buffer.alloc_size, strncpyBytes_length, Nat.zero_add]
  rw [and_iff_right ⟨Buffer.alloc_writesInside _ _, .inr (Nat.le_refl _)⟩,
    and_iff_right (Buffer.alloc_readsInside _ _)]
  by_cases hshort : node.path.length < vsnfsMaxpathlen
  · rw [cstr_put_strncpyBytes node junk hshort]
  · have hlong : vsnfsMaxpathlen ≤ node.path.length := Nat.le_of_not_lt hshort
    have hcells : ((Buffer.alloc vsnfsMaxpathlen junk).put 0 (strncpyBytes node.path vsnfsMaxpathlen)).cells =
        node.path.take vsnfsMaxpathlen ++ junk.drop vsnfsMaxpathlen := by
      rw [Buffer.put_cells, Buffer.alloc_cells, overwrite_zero, strncpyBytes_length, strncpyBytes,
        Nat.sub_eq_zero_of_le hlong, List.replicate_zero, List.append_nil]
    have hzero : ∀ byte ∈ node.path.take vsnfsMaxpathlen, decide (byte ≠ 0) = true :=
      fun byte hbyte => decide_eq_true (node.hclean byte (List.mem_of_mem_take hbyte))
    refine iff_of_false ?_ hshort
    rw [Buffer.cstr, hcells, cstrOf, List.takeWhile_append_of_pos hzero, List.length_append, List.length_take,
      Nat.min_eq_left hlong]
    omega

theorem open_contained_iff :
    (∀ buffer ∈ (openBuffer head fh after env).toList, buffer.Contained) ↔ ¬ OpensLong head fh after env := by
  by_cases hpath : env.pathAlloc = false
  · refine iff_of_true (by simp [openBuffer, hpath]) fun h => ?_
    cases hpath.symm.trans h.1
  have halloc : env.pathAlloc = true := by simpa using hpath
  have hopened (buffer : Buffer) : buffer ∈ (openBuffer head fh after env).toList ↔
      vsnfsdFhToPath head fh after (Buffer.alloc vsnfsMaxpathlen env.junk) vsnfsMaxpathlen = some (0, buffer) := by
    rw [Option.mem_toList, openBuffer, if_neg hpath]
    cases vsnfsdFhToPath head fh after (Buffer.alloc vsnfsMaxpathlen env.junk) vsnfsMaxpathlen with
    | none => simp
    | some found =>
        obtain ⟨ret, path⟩ := found
        by_cases hret : ret = 0
        · simp [hret]
        · simp [hret]
  constructor
  · rintro hall ⟨-, hino, node, hfound, hlong⟩
    have hcontained := hall _ ((hopened _).mpr
      ((fhToPath_resolved_iff _ _ _ _ _ _).mpr ⟨hino, node, hfound, rfl⟩))
    exact absurd ((openCopy_contained_iff node env.junk).mp hcontained) (Nat.not_lt.mpr hlong)
  · intro hshort buffer hbuffer
    obtain ⟨hino, node, hfound, rfl⟩ := (fhToPath_resolved_iff _ _ _ _ _ _).mp ((hopened buffer).mp hbuffer)
    refine (openCopy_contained_iff node env.junk).mpr ?_
    exact Nat.lt_of_not_le fun hlong => hshort ⟨halloc, hino, node, hfound, hlong⟩

end Open

/-! ### Any request -/

/-- **A request stays inside its buffers** unless it is one of these. -/
theorem leavesBuffers_iff {server : Server} (hpaths : PathsNonempty server) (event : Event) :
    LeavesBuffers server event ↔ ¬ StaysInside server event := by
  by_cases hup : server.down = false
  · rw [StaysInside, imp_iff_right hup]
    cases event with
    | null dummy => simp [LeavesBuffers, pathBuffers]
    | getroot args env => rw [LeavesBuffers, getroot_contained_iff, not_not, and_iff_right hup]
    | lookup args env => rw [LeavesBuffers, lookup_contained_iff args env server hpaths hup]
    | readdir args env => rw [LeavesBuffers, pathBuffers, open_contained_iff, not_not, and_iff_right hup]
    | read args env => rw [LeavesBuffers, pathBuffers, open_contained_iff, not_not, and_iff_right hup]
  · refine iff_of_false (fun h => ?_) fun h => h fun hdown => absurd hdown hup
    cases event with
    | null dummy => exact h
    | getroot args env => exact hup h.1
    | lookup args env => exact h fun hdown => absurd hdown hup
    | readdir args env => exact hup h.1
    | read args env => exact hup h.1

/-- Such a request stores no empty path. -/
theorem step_pathsNonempty_of_inside (server : Server) (event : Event) (hpaths : PathsNonempty server)
    (hinside : StaysInside server event) : PathsNonempty (step server event) := by
  by_cases hup : server.down = false
  · intro node hnode
    rcases step_entries server event node hnode with hold | ⟨inode, hinserts⟩
    · exact hpaths node hold
    · have hroot : event.RootNonempty := by
        cases hinserts with
        | root args env root halloc =>
            exact fun hnil => (getroot_contained_iff args env server.head).mp (hinside hup) ⟨halloc, hnil⟩
        | child => trivial
      exact (hinserts.composed hpaths hroot).path_ne_nil hpaths
  · rw [step, if_pos (by simpa using hup)]
    exact hpaths

/-- A run stays inside its buffers exactly when no request of it is one of these. -/
theorem run_inside_iff (events : List Event) :
    Along step StaysInside Server.load events ↔
      Along step (fun server event => ¬ LeavesBuffers server event) Server.load events := by
  have hinside {server : Server} (hpaths : PathsNonempty server) (event : Event) :
      ¬ LeavesBuffers server event ↔ StaysInside server event := by
    rw [leavesBuffers_iff hpaths, not_not]
  constructor
  · refine Along.imp_of_invariant (I := PathsNonempty) step_pathsNonempty_of_inside ?_ load_pathsNonempty
    exact fun server event hpaths => (hinside hpaths event).mpr
  · refine Along.imp_of_invariant (I := PathsNonempty) ?_ ?_ load_pathsNonempty
    · intro server event hpaths hleaves
      exact step_pathsNonempty_of_inside server event hpaths ((hinside hpaths event).mp hleaves)
    · exact fun server event hpaths => (hinside hpaths event).mp

end Vsnfs
