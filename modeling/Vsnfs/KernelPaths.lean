import Vsnfs.ServerPaths

/-! The strings that the server hands to the kernel. A handle is opened through a copy of its stored path
in a buffer of fixed size; a mount builds its path in two buffers that are as long as the path asks
for. Both are right except at one end: the longest stored paths, and the empty mount path. -/

namespace Vsnfs

open Base

/-! ### Opening by handle -/

/-- The bytes `filp_open` gets hold a terminator, and the string in front of it is the stored path. -/
def HoldsPath (buffer : Buffer) (path : List Byte) : Prop :=
  0 ∈ buffer.cells.take vsnfsMaxpathlen ∧ cstrOf (buffer.cells.take vsnfsMaxpathlen) = path

/-- Whatever handle is resolved, and whatever the buffer held before, it holds the path stored for the
handle. -/
def OpensStored (head : Head) : Prop :=
  ∀ (fh : VsnfsFh) (after junk : List Byte) (buffer : Buffer),
    vsnfsdFhToPath head fh after (Buffer.alloc vsnfsMaxpathlen junk) vsnfsMaxpathlen = some (0, buffer) →
      ∃ node, head.bind (fun nodes => findNode nodes (fh.ino after)) = some node ∧
        HoldsPath buffer node.path

theorem zero_mem_strncpyBytes_iff {text : List Byte} (htext : ∀ byte ∈ text, byte ≠ 0) (length : Nat) :
    0 ∈ strncpyBytes text length ↔ text.length < length := by
  rw [strncpyBytes, List.mem_append, List.mem_replicate]
  constructor
  · rintro (hzero | ⟨hmore, -⟩)
    · exact absurd rfl (htext 0 (List.mem_of_mem_take hzero))
    · omega
  · intro hlt
    exact Or.inr ⟨by omega, rfl⟩

/-- The copy of a path is right exactly when the path is shorter than the buffer. -/
theorem holdsPath_copy_iff (node : Node) (junk : List Byte) :
    HoldsPath ((Buffer.alloc vsnfsMaxpathlen junk).put 0 (strncpyBytes node.path vsnfsMaxpathlen)) node.path ↔
      node.path.length < vsnfsMaxpathlen := by
  have htake : ((Buffer.alloc vsnfsMaxpathlen junk).put 0
      (strncpyBytes node.path vsnfsMaxpathlen)).cells.take vsnfsMaxpathlen =
        strncpyBytes node.path vsnfsMaxpathlen := by
    rw [Buffer.put_cells, overwrite_zero, List.take_append_of_le_length (strncpyBytes_length _ _).ge,
      List.take_of_length_le (strncpyBytes_length _ _).le]
  rw [HoldsPath, htake, zero_mem_strncpyBytes_iff node.hclean]
  refine and_iff_left_of_imp fun hshort => ?_
  rw [strncpyBytes_of_lt hshort]
  exact cstrOf_append_zero node.hclean _

/-- A handle at the start of any memory that is long enough. -/
theorem exists_handle_of_text (text : List Byte) (h : 12 ≤ text.length) :
    ∃ (fh : VsnfsFh) (after : List Byte), fh.data ++ leBytes fh.type ++ after = text := by
  cases htype : take32 (text.drop vsnfsFhsize) with
  | none =>
      have hshort := (take32_eq_none_iff _).mp htype
      rw [List.length_drop] at hshort
      simp only [vsnfsFhsize] at hshort
      omega
  | some read =>
      obtain ⟨type, after⟩ := read
      have hdrop := (take32_eq_some_iff _ _ _).mp htype
      refine ⟨⟨text.take vsnfsFhsize, List.length_take_of_le (by simp only [vsnfsFhsize]; omega), type⟩,
        after, ?_⟩
      rw [List.append_assoc, ← hdrop, List.take_append_drop]

/-- Every number but 0 is spelled by some handle and the memory behind it. -/
theorem exists_handle {ino : BitVec 64} (hino : ino ≠ 0) :
    ∃ (fh : VsnfsFh) (after : List Byte), fh.ino after = ino := by
  have hpos : 0 < ino.toNat := Nat.pos_of_ne_zero fun hzero => hino (BitVec.eq_of_toNat_eq hzero)
  obtain ⟨fh, after, htext⟩ := exists_handle_of_text
    (((Nat.toDigits 10 ino.toNat).map charByte).take ((Nat.toDigits 10 ino.toNat).length + 1) ++
      0 :: List.replicate 12 0) (by simp)
  refine ⟨fh, after, ?_⟩
  rw [VsnfsFh.ino, htext, simpleStrtoul_take_toDigits hpos, List.take_of_length_le (Nat.le_succ _),
    Nat.ofDigitChars_ten_toDigits, BitVec.ofNat_toNat, BitVec.setWidth_eq]

/-- The entries that can be opened have paths shorter than the buffer. -/
def ShortEntries (head : Head) : Prop :=
  ∀ node ∈ head.entries, node.ino ≠ 0 → node.path.length < vsnfsMaxpathlen

theorem opensStored_iff {head : Head} (hunique : UniqueInos head) : OpensStored head ↔ ShortEntries head := by
  constructor
  · intro hopens node hmem hino
    obtain ⟨fh, after, hnumber⟩ := exists_handle hino
    have hresolved : head.bind (fun nodes => findNode nodes (fh.ino after)) = some node := by
      rw [hnumber]
      exact found_of_mem hunique hmem
    obtain ⟨found, hfound, hholds⟩ := hopens fh after [] _
      ((fhToPath_resolved_iff _ _ _ _ _ _).mpr ⟨by rwa [hnumber], node, hresolved, rfl⟩)
    obtain rfl : node = found := Option.some.inj (hresolved.symm.trans hfound)
    exact (holdsPath_copy_iff node []).mp hholds
  · intro hshort fh after junk buffer hpath
    obtain ⟨hino, node, hfound, rfl⟩ := (fhToPath_resolved_iff _ _ _ _ _ _).mp hpath
    refine ⟨node, hfound, (holdsPath_copy_iff node junk).mpr ?_⟩
    cases head with
    | none => cases hfound
    | some nodes =>
        refine hshort node (mem_of_findNode hfound) ?_
        rw [ino_of_findNode hfound]
        exact hino

/-! ### Runs -/

/-- The request stores no path as long as the buffer: the path of a mount with its slash, or the composed
path of a lookup, with a slash when a directory was found. A path that is stored for the number 0 is
never opened. -/
def StoresShort (server : Server) : Event → Prop
  | .getroot args env => server.down = false → ∀ root, (env.ndAlloc = true ∧ env.pathAlloc = true) →
      (rootAnswer args env).dentry = some root → root.kind ≠ .reg → env.nodeAlloc = true →
        env.nodePathAlloc = true → root.ino ≠ 0 → (withSlash args.path.bytes).length < vsnfsMaxpathlen
  | .lookup args env => server.down = false → ∀ nodes parent inode, server.head = some nodes →
      LookupResolved nodes args env parent inode → findNode nodes inode.ino = none → env.nodeAlloc = true →
        env.nodePathAlloc = true → inode.ino ≠ 0 →
          (storedText inode (lookupText parent args)).length < vsnfsMaxpathlen
  | _ => True

theorem short_of_at_most_slash {path : List Byte} {slashed : Prop} [Decidable slashed]
    (h : path = if slashed then [slash] else []) : path.length < vsnfsMaxpathlen := by
  rw [h]
  split <;> decide

theorem rootNode_short_iff (args : GetrootArgs) (env : GetrootEnv) (root : Inode) :
    (rootNode args env root).path.length < vsnfsMaxpathlen ↔
      (withSlash args.path.bytes).length < vsnfsMaxpathlen := by
  by_cases hnil : args.path.bytes = []
  · refine iff_of_true (short_of_at_most_slash (rootNode_path_of_nil args env root hnil)) ?_
    rw [hnil]
    decide
  · rw [rootNode_path_eq args env root hnil]

theorem lookupNode_short_iff (parent : Node) (args : LookupArgs) (env : LookupEnv) (inode : Inode) :
    (lookupNode parent args env inode).path.length < vsnfsMaxpathlen ↔
      (storedText inode (lookupText parent args)).length < vsnfsMaxpathlen := by
  by_cases hnil : lookupText parent args = []
  · refine iff_of_true (short_of_at_most_slash (lookupNode_path_of_nil hnil env inode)) ?_
    rw [hnil, storedText]
    split <;> decide
  · rw [lookupNode_path_of_ne_nil hnil]

/-- In terms of the entry that is inserted. -/
theorem storesShort_iff (server : Server) (event : Event) :
    StoresShort server event ↔ (server.down = false → ∀ inode node, Inserts server.head event inode node →
      node.ino ≠ 0 → node.path.length < vsnfsMaxpathlen) := by
  constructor
  · intro hshort hdown inode node hinserts hino
    cases hinserts with
    | root args env root halloc hdentry hkind hnode hnodePath =>
        exact (rootNode_short_iff args env inode).mpr
          (hshort hdown inode halloc hdentry hkind hnode hnodePath hino)
    | child nodes args env parent inode hhead hfound hnew hnode hnodePath =>
        exact (lookupNode_short_iff parent args env inode).mpr
          (hshort hdown nodes parent inode hhead hfound hnew hnode hnodePath hino)
  · intro hshort
    cases event with
    | getroot args env =>
        intro hdown root halloc hdentry hkind hnode hnodePath hino
        exact (rootNode_short_iff args env root).mp
          (hshort hdown root _ (.root args env root halloc hdentry hkind hnode hnodePath) hino)
    | lookup args env =>
        intro hdown nodes parent inode hhead hfound hnew hnode hnodePath hino
        exact (lookupNode_short_iff parent args env inode).mp
          (hshort hdown inode _ (.child nodes args env parent inode hhead hfound hnew hnode hnodePath) hino)
    | null _ | readdir _ _ | read _ _ => trivial

/-- The invariant of a run whose requests store short paths. -/
def OpensAll (server : Server) : Prop := UniqueInos server.head ∧ ShortEntries server.head

theorem step_opensAll (server : Server) (event : Event) (h : OpensAll server)
    (hshort : StoresShort server event) : OpensAll (step server event) := by
  refine ⟨step_uniqueInos server event h.1, ?_⟩
  intro node hnode hino
  by_cases hdown : server.down = true
  · rw [step, if_pos hdown] at hnode
    exact h.2 node hnode hino
  · rcases step_entries server event node hnode with hold | ⟨inode, hinserts⟩
    · exact h.2 node hold hino
    · exact (storesShort_iff server event).mp hshort (by simpa using hdown) inode node hinserts hino

/-- **Opening by handle over whole runs.** In every state of a run from the start, whatever handle is
resolved is opened under the path stored for it, if and only if no request of the run stores a path
as long as the buffer. -/
theorem open_uses_stored_path_iff (events : List Event) :
    (∀ front, front <+: events → OpensStored (runFrom step Server.load front).head) ↔
      Along step StoresShort Server.load events := by
  have hload : OpensAll Server.load := ⟨load_uniqueInos, fun node hnode => by cases hnode⟩
  refine along_iff_states (J := fun server => OpensStored server.head) step_opensAll ?_ ?_ hload events
  · intro server h
    exact (opensStored_iff h.1).mpr h.2
  · intro server event h hopens
    refine (storesShort_iff server event).mpr fun hdown inode node hinserts => ?_
    refine (opensStored_iff (step_uniqueInos server event h.1)).mp hopens node ?_
    rw [step, if_neg (by simp [hdown])]
    exact hinserts.mem

/-- A mount of a path of 1024 bytes that does not end in a slash: the copy of the stored path has no
terminator. -/
theorem long_mount_not_opened :
    ¬ OpensStored (runFrom step Server.load [.getroot longRoot (.answering (.found ⟨5, .dir⟩))]).head := by
  intro hopens
  have hshort := (opensStored_iff (run_uniqueInos _)).mp hopens
  rw [runFrom, List.foldl_cons, List.foldl_nil, mounted _ _ rfl] at hshort
  have hlength := hshort _ (List.mem_singleton.mpr rfl) (by decide)
  rw [rootNode_path_eq longRoot _ _ longRoot_ne_nil, longRoot_withSlash_length] at hlength
  omega

/-! ### The path of a mount -/

/-- The second buffer of a mount, with the copy of the path. -/
def rootCopy (args : GetrootArgs) (env : GetrootEnv) : Buffer :=
  (Buffer.alloc (args.path.bytes.length + 2) env.nodeJunk).put 0 (rootPath args env ++ [0])

/-- How a mount with memory for its first buffer leaves its buffers and the table. -/
inductive RootBuffers (args : GetrootArgs) (env : GetrootEnv) (out : Outcome VsnfsFh) : Prop where
  | looked (hpath : out.path = some (getrootPath args.path env.junk env.stray)) (hnodePath : out.nodePath = none)
  | stored (root : Inode) (hpath : out.path = some (getrootPath args.path env.junk env.stray).scan)
      (hnodePath : out.nodePath = some (rootCopy args env)) (hhead : out.head = some [rootNode args env root])

/-- Without that memory a mount has no buffer and looks nothing up. -/
theorem getroot_noMemory {head : Head} {args : GetrootArgs} {resp : VsnfsFh} {env : GetrootEnv}
    (halloc : ¬ (env.ndAlloc = true ∧ env.pathAlloc = true)) :
    (vsnfsdProcGetroot head args resp env).path = none ∧
      (vsnfsdProcGetroot head args resp env).nodePath = none ∧
      ∀ text errno, .pathLookup text errno ∉ (vsnfsdProcGetroot head args resp env).calls := by
  unfold vsnfsdProcGetroot
  by_cases hnd : env.ndAlloc = false
  · rw [if_pos hnd]
    simp [Outcome.call, Outcome.enter]
  have hpath : env.pathAlloc = false := by simpa [hnd] using halloc
  rw [if_neg hnd, if_pos hpath]
  simp [Outcome.call, Outcome.enter]

theorem getroot_buffers (head : Head) (args : GetrootArgs) (resp : VsnfsFh) (env : GetrootEnv)
    (halloc : env.ndAlloc = true ∧ env.pathAlloc = true) :
    RootBuffers args env (vsnfsdProcGetroot head args resp env) ∧
      ∀ text errno, .pathLookup text errno ∈ (vsnfsdProcGetroot head args resp env).calls →
        text = rootPath args env := by
  have hcalls : ∀ (out : Outcome VsnfsFh) (result : Int) (more : List Bool),
      out.calls = [.kmalloc env.ndAlloc, .kmalloc env.pathAlloc, .pathLookup (rootPath args env) result] ++
        more.map ExtCall.kmalloc →
      ∀ text errno, .pathLookup text errno ∈ out.calls → text = rootPath args env := by
    intro out result more hout text errno hcall
    rw [hout] at hcall
    exact ((pathLookup_mem_calls_iff _ _ _ _ _ _ _).mp hcall).1
  unfold vsnfsdProcGetroot
  simp only [halloc.1, halloc.2, Bool.true_eq_false, if_false, rootNode_copy]
  cases (env.pathLookup (getrootPath args.path env.junk env.stray).cstr).dentry with
  | none => exact ⟨.looked rfl rfl, hcalls _ _ [] (by simp [halloc]; rfl)⟩
  | some root =>
      simp only
      split
      · exact ⟨.looked rfl rfl, hcalls _ _ [] (by simp [halloc]; rfl)⟩
      split
      · exact ⟨.looked rfl rfl, hcalls _ _ [env.nodeAlloc] (by simp [halloc]; rfl)⟩
      split
      · exact ⟨.looked rfl rfl, hcalls _ _ [env.nodeAlloc, env.nodePathAlloc] (by simp [halloc]; rfl)⟩
      · exact ⟨.stored root rfl rfl rfl, hcalls _ _ [env.nodeAlloc, env.nodePathAlloc] (by simp [halloc]; rfl)⟩

/-- The index of the byte in front of the end, as the code computes it, is one of the buffer exactly when
there is such a byte. -/
theorem lastIndex_lt_iff {len : Nat} (h : len ≤ vsnfsMaxpathlen) :
    (BitVec.ofNat 32 len - 1).toNat < len + 2 ↔ len ≠ 0 := by
  rw [BitVec.toNat_sub, BitVec.toNat_ofNat]
  simp only [BitVec.ofNat_eq_ofNat, BitVec.toNat_ofNat, vsnfsMaxpathlen] at h ⊢
  omega

section Mount

variable (args : GetrootArgs) (env : GetrootEnv)

theorem getrootPath_size (path : PathName) (junk : List Byte) (stray : Byte) :
    (getrootPath path junk stray).size = path.bytes.length + 2 := by
  simp only [getrootPath]
  split <;> rfl

theorem getrootPath_writesInside (path : PathName) (junk : List Byte) (stray : Byte) :
    (getrootPath path junk stray).WritesInside := by
  have hcopied : ((Buffer.alloc (path.bytes.length + 2) junk).put 0 path.bytes).WritesInside := by
    rw [Buffer.put_writesInside_iff]
    exact ⟨Buffer.alloc_writesInside _ _, Or.inr (by simp)⟩
  simp only [getrootPath]
  split
  · rw [Buffer.put_writesInside_iff, Buffer.put_writesInside_iff, Buffer.noteRead_writesInside_iff]
    exact ⟨⟨hcopied, Or.inr (by simp)⟩, Or.inr (by simp)⟩
  · rw [Buffer.put_writesInside_iff, Buffer.noteRead_writesInside_iff]
    exact ⟨hcopied, Or.inr (by simp)⟩

theorem getrootPath_readsInside_iff (path : PathName) (junk : List Byte) (stray : Byte) :
    (getrootPath path junk stray).ReadsInside ↔ path.bytes ≠ [] := by
  have hlast : (((Buffer.alloc (path.bytes.length + 2) junk).put 0 path.bytes).noteRead
      ((BitVec.ofNat 32 path.bytes.length - 1).toNat : Nat)).ReadsInside ↔ path.bytes ≠ [] := by
    rw [Buffer.noteRead_readsInside_iff, Buffer.put_readsInside_iff, Buffer.put_size, Buffer.alloc_size,
      and_iff_right (Buffer.alloc_readsInside _ _), and_iff_right (Int.natCast_nonneg _), Int.ofNat_lt,
      lastIndex_lt_iff path.hlength, ne_eq, ne_eq, List.length_eq_zero_iff]
  simp only [getrootPath]
  split
  · rw [Buffer.put_readsInside_iff, Buffer.put_readsInside_iff]
    exact hlast
  · rw [Buffer.put_readsInside_iff]
    exact hlast

/-- A string that fits with its terminator. -/
theorem withSlash_length_le (text : List Byte) : (withSlash text).length ≤ text.length + 1 := by
  unfold withSlash
  split <;> simp

/-- What a mount does with its path: one string is looked up and stored, the path with its slash, and the
buffers are accessed at their own indices only. -/
structure RootNormal (args : GetrootArgs) (out : Outcome VsnfsFh) : Prop where
  looked : ∀ text errno, .pathLookup text errno ∈ out.calls → text = withSlash args.path.bytes
  stored : ∀ buffer ∈ out.nodePath, ∀ node ∈ out.head.entries, node.path = withSlash args.path.bytes
  path : ∀ buffer ∈ out.path, buffer.size = args.path.bytes.length + 2 ∧ buffer.WritesInside ∧
    buffer.ReadsInside
  nodePath : ∀ buffer ∈ out.nodePath, buffer.size = args.path.bytes.length + 2 ∧ buffer.WritesInside ∧
    buffer.ReadsInside

theorem rootCopy_contained (hne : args.path.bytes ≠ []) : (rootCopy args env).Contained := by
  have hlength := withSlash_length_le args.path.bytes
  refine Buffer.copy_contained Buffer.ne_zero_of_mem_cstr ?_ env.nodeJunk
  change (rootPath args env).length < _
  rw [rootPath_withSlash args env hne]
  omega

theorem RootBuffers.normal {out : Outcome VsnfsFh} (h : RootBuffers args env out)
    (hlooked : ∀ text errno, .pathLookup text errno ∈ out.calls → text = rootPath args env)
    (hne : args.path.bytes ≠ []) : RootNormal args out := by
  have hpath := rootPath_withSlash args env hne
  have hsize := getrootPath_size args.path env.junk env.stray
  have hwrites := getrootPath_writesInside args.path env.junk env.stray
  have hreads := (getrootPath_readsInside_iff args.path env.junk env.stray).mpr hne
  rw [hpath] at hlooked
  cases h with
  | looked hbuffer hnone =>
      refine ⟨hlooked, by simp [hnone], ?_, by simp [hnone]⟩
      rw [hbuffer]
      rintro _ ⟨⟩
      exact ⟨hsize, hwrites, hreads⟩
  | stored root hbuffer hcopy hhead =>
      obtain ⟨hcopied, hread, -⟩ := (Buffer.contained_iff _).mp (rootCopy_contained args env hne)
      refine ⟨hlooked, ?_, ?_, ?_⟩
      · rw [hhead]
        intro _ _ node hnode
        rw [List.mem_singleton.mp hnode]
        exact rootNode_path_eq args env root hne
      · rw [hbuffer]
        rintro _ ⟨⟩
        refine ⟨hsize, hwrites, (Buffer.scan_readsInside_iff _).mpr ⟨hreads, ?_⟩⟩
        have hlength := withSlash_length_le args.path.bytes
        change (rootPath args env).length < _
        rw [hpath, hsize]
        omega
      · rw [hcopy]
        rintro _ ⟨⟩
        exact ⟨rfl, hcopied, hread⟩

/-- **The path of a mount.** For every accepted path, the string that is looked up and stored is the path
with its slash and every access to the two buffers is inside them, exactly when the path is not empty
or there is no memory for the first buffer. -/
theorem mount_path_normal_iff (head : Head) :
    RootNormal args (vsnfsdProcGetroot head args zeroFh env) ↔
      args.path.bytes ≠ [] ∨ ¬ (env.ndAlloc = true ∧ env.pathAlloc = true) := by
  by_cases halloc : env.ndAlloc = true ∧ env.pathAlloc = true
  · obtain ⟨hbuffers, hlooked⟩ := getroot_buffers head args zeroFh env halloc
    rw [or_iff_left (not_not_intro halloc)]
    constructor
    · intro hnormal
      rw [← getrootPath_readsInside_iff args.path env.junk env.stray]
      cases hbuffers with
      | looked hpath => exact (hnormal.path _ hpath).2.2
      | stored root hpath =>
          intro index hindex
          exact (hnormal.path _ hpath).2.2 index (List.mem_append_left _ hindex)
    · exact hbuffers.normal args env hlooked
  · obtain ⟨hpath, hnodePath, hcalls⟩ := @getroot_noMemory head args zeroFh env halloc
    refine iff_of_true ?_ (Or.inr halloc)
    exact ⟨fun text errno hcall => absurd hcall (hcalls text errno), by simp [hnodePath], by simp [hpath],
      by simp [hnodePath]⟩

end Mount

/-- The empty path: the byte that is tested for a slash lies 4 GiB behind the buffer of two bytes. -/
theorem empty_mount_path_not_normal :
    (vsnfsdProcGetroot none ⟨⟨[], by decide, by decide⟩⟩ zeroFh (.answering (.found ⟨5, .dir⟩))).path.map
        (fun buffer => (buffer.size, buffer.reads.head?)) = some (2, some (2 ^ 32 - 1)) ∧
      ¬ RootNormal ⟨⟨[], by decide, by decide⟩⟩
        (vsnfsdProcGetroot none ⟨⟨[], by decide, by decide⟩⟩ zeroFh (.answering (.found ⟨5, .dir⟩))) := by
  refine ⟨by decide, fun hnormal => ?_⟩
  have hinside := (hnormal.path _ rfl).2.2 (2 ^ 32 - 1) (by decide)
  exact absurd hinside.2 (by decide)

end Vsnfs
