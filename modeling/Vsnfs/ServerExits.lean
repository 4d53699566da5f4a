import Vsnfs.ServerProc

/-! What the two handlers that change the table can do. The path buffers are computed first: the
strings they hold and the bytes they write. Each handler then has one relation that lists its exits,
with the branch conditions that lead to each; everything about a request is read off these lists. -/

namespace Vsnfs

open Base

/-! ### The path buffers -/

/-- The node of a copied C string. -/
theorem ofBuffer_copy (ino : BitVec 64) (size : Nat) (junk : List Byte) {text : List Byte}
    (htext : ∀ byte ∈ text, byte ≠ 0) :
    Node.ofBuffer ino ((Buffer.alloc size junk).put 0 (text ++ [0])) = ⟨ino, text, htext⟩ := by
  simp only [Node.ofBuffer, Buffer.copy_cstr size junk htext]

theorem FileName.hzero (filename : FileName) : ∀ byte ∈ filename.bytes, byte ≠ 0 :=
  fun byte hbyte => (filename.hclean byte hbyte).1

theorem append_ne_zero {front rest : List Byte} (hfront : ∀ byte ∈ front, byte ≠ 0)
    (hrest : ∀ byte ∈ rest, byte ≠ 0) : ∀ byte ∈ front ++ rest, byte ≠ 0 := by
  intro byte hbyte
  rcases List.mem_append.mp hbyte with h | h
  · exact hfront byte h
  · exact hrest byte h

section Lookup

variable (node : Node) (filename : FileName) (junk : List Byte)

/-- The copy of the stored path, with its terminator. -/
theorem lookupCopy_cstr (size : Nat) :
    (((Buffer.alloc size junk).put 0 (node.path ++ [0])).scan).cstr = node.path :=
  Buffer.copy_cstr size junk node.hclean

theorem lookupPath_cells :
    ∃ rest, (lookupPath node filename junk).cells = node.path ++ filename.bytes ++ 0 :: rest := by
  refine ⟨(((0 :: junk.drop (node.path ++ [0]).length).drop filename.bytes.length).drop 1), ?_⟩
  simp only [lookupPath, lookupCopy_cstr, Buffer.put_cells, Buffer.scan_cells, Buffer.alloc_cells]
  rw [overwrite_zero, List.append_assoc, overwrite_append_of_eq rfl,
    overwrite_append_of_eq (by rw [List.length_append, Nat.add_comm])]
  simp only [List.append_assoc, List.cons_append, List.nil_append, List.length_singleton]

theorem lookupPath_cstr : (lookupPath node filename junk).cstr = node.path ++ filename.bytes := by
  obtain ⟨rest, hrest⟩ := lookupPath_cells node filename junk
  exact Buffer.cstr_eq_of_cells (append_ne_zero node.hclean filename.hzero) rest hrest

theorem lookupPath_size : (lookupPath node filename junk).size = vsnfsMaxpathlen + 1 := rfl

/-- The writes of the composed path stay inside exactly when it fits with its terminator. -/
theorem lookupPath_writesInside_iff :
    (lookupPath node filename junk).WritesInside ↔
      node.path.length + filename.bytes.length ≤ vsnfsMaxpathlen := by
  simp only [lookupPath, lookupCopy_cstr, Buffer.put_writesInside_iff, Buffer.scan_writesInside_iff,
    Buffer.put_size, Buffer.scan_size, Buffer.alloc_size, Buffer.alloc_writesInside, true_and,
    List.length_append, List.length_singleton, List.cons_ne_nil, List.append_eq_nil_iff, and_false,
    false_or]
  constructor
  · rintro ⟨⟨hcopy, hname⟩, hend⟩
    omega
  · intro hfit
    exact ⟨⟨by omega, Or.inr (by omega)⟩, by omega⟩

end Lookup

/-- The last byte of a C string in a buffer. -/
theorem peek_last {buffer : Buffer} {text rest : List Byte} (hne : text ≠ [])
    (hcells : buffer.cells = text ++ rest) (stray : Byte) :
    some (buffer.peek (text.length - 1 : Int) stray) = text.getLast? := by
  have hpos := List.length_pos_of_ne_nil hne
  have hindex : ((text.length : Int) - 1).toNat = text.length - 1 := by omega
  have hlt : text.length - 1 < text.length := by omega
  rw [Buffer.peek, if_pos (by omega), hindex, hcells, List.getLast?_eq_getElem?,
    List.getD_eq_getElem?_getD, List.getElem?_append_left hlt, List.getElem?_eq_getElem hlt,
    Option.getD_some]

section Slash

variable {path : Buffer} {text rest : List Byte} (htext : ∀ byte ∈ text, byte ≠ 0) (hne : text ≠ [])
  (hcells : path.cells = text ++ 0 :: rest) (stray : Byte)

include htext hne hcells

theorem lookupSlash_cstr :
    (lookupSlash path stray).cstr = if text.getLast? = some slash then text else text ++ [slash] := by
  have hcstr := Buffer.cstr_eq_of_cells htext rest hcells
  have hlast := peek_last hne hcells stray
  simp only [lookupSlash, hcstr]
  by_cases hslash : text.getLast? = some slash
  · rw [if_pos hslash, if_neg]
    · exact hcstr
    · intro hbyte
      exact hbyte (Option.some.inj (hlast.trans hslash))
  · rw [if_neg hslash, if_pos]
    · have htwo : text.length + 1 = (text ++ [slash]).length := by rw [List.length_append]; rfl
      refine Buffer.cstr_eq_of_cells ?_ ((rest.drop 0).drop 1) ?_
      · refine append_ne_zero htext ?_
        intro byte hbyte
        rw [List.mem_singleton] at hbyte
        rw [hbyte]
        decide
      · simp only [Buffer.put_cells, Buffer.noteRead_cells, Buffer.scan_cells, hcells]
        rw [overwrite_append_of_eq rfl, overwrite_append_of_eq htwo]
        simp only [List.append_assoc, List.cons_append, List.nil_append, List.length_singleton,
          List.drop_succ_cons, List.drop_zero]
    · intro hbyte
      exact hslash (hlast.symm.trans (congrArg some hbyte))

theorem lookupSlash_writesInside_iff :
    (lookupSlash path stray).WritesInside ↔
      path.WritesInside ∧ (text.getLast? ≠ some slash → text.length + 2 ≤ path.size) := by
  have hcstr := Buffer.cstr_eq_of_cells htext rest hcells
  have hlast := peek_last hne hcells stray
  simp only [lookupSlash, hcstr]
  by_cases hslash : text.getLast? = some slash
  · rw [if_neg]
    · simp [hslash]
    · intro hbyte
      exact hbyte (Option.some.inj (hlast.trans hslash))
  · rw [if_pos]
    · simp only [Buffer.put_writesInside_iff, Buffer.noteRead_writesInside_iff,
        Buffer.scan_writesInside_iff, Buffer.put_size, Buffer.noteRead_size, Buffer.scan_size,
        List.length_singleton, List.cons_ne_nil, false_or]
      constructor
      · rintro ⟨⟨hpath, -⟩, hend⟩
        exact ⟨hpath, fun _ => hend⟩
      · rintro ⟨hpath, hend⟩
        have := hend hslash
        exact ⟨⟨hpath, by omega⟩, this⟩
    · intro hbyte
      exact hslash (hlast.symm.trans (congrArg some hbyte))

end Slash

/-! ### Exits of GETROOT -/

/-- Between two allocations and more of them there is one call of `path_lookup`. -/
theorem pathLookup_mem_calls_iff (first second : Bool) (made : List Byte) (result : Int) (more : List Bool)
    (text : List Byte) (errno : Int) :
    ExtCall.pathLookup text errno ∈
        [.kmalloc first, .kmalloc second, .pathLookup made result] ++ more.map ExtCall.kmalloc ↔
      text = made ∧ errno = result := by
  simp

/-- The string GETROOT gives to `path_lookup` and stores. -/
def rootPath (args : GetrootArgs) (env : GetrootEnv) : List Byte :=
  (getrootPath args.path env.junk env.stray).cstr

def rootNode (args : GetrootArgs) (env : GetrootEnv) (root : Inode) : Node :=
  Node.ofBuffer root.ino (getrootPath args.path env.junk env.stray)

def rootAnswer (args : GetrootArgs) (env : GetrootEnv) : PathLookup :=
  env.pathLookup (rootPath args env)

/-- The exits of GETROOT. The table is emptied before the node is allocated, so the last three have
lost what was in it. -/
inductive GetrootExit (head : Head) (args : GetrootArgs) (resp : VsnfsFh) (env : GetrootEnv)
    (out : Outcome VsnfsFh) : Prop where
  | noMemory (halloc : ¬ (env.ndAlloc = true ∧ env.pathAlloc = true))
      (hstatus : out.status = some (-vsnfserr .nospc)) (hhead : out.head = head)
  | noDentry (halloc : env.ndAlloc = true ∧ env.pathAlloc = true)
      (hdentry : (rootAnswer args env).dentry = none)
      (hstatus : out.status = none) (hhead : out.head = head)
  | notDir (root : Inode) (halloc : env.ndAlloc = true ∧ env.pathAlloc = true)
      (hdentry : (rootAnswer args env).dentry = some root) (hkind : root.kind = .reg)
      (hstatus : out.status = some (-vsnfserr .notdir)) (hhead : out.head = head)
  | noNode (root : Inode) (halloc : env.ndAlloc = true ∧ env.pathAlloc = true)
      (hdentry : (rootAnswer args env).dentry = some root) (hkind : root.kind ≠ .reg)
      (hnode : env.nodeAlloc = false) (hstatus : out.status = none) (hhead : out.head = some [])
  | noNodePath (root : Inode) (halloc : env.ndAlloc = true ∧ env.pathAlloc = true)
      (hdentry : (rootAnswer args env).dentry = some root) (hkind : root.kind ≠ .reg)
      (hnode : env.nodeAlloc = true) (hnodePath : env.nodePathAlloc = false)
      (hstatus : out.status = some (-vsnfserr .nospc)) (hhead : out.head = some [])
  | added (root : Inode) (halloc : env.ndAlloc = true ∧ env.pathAlloc = true)
      (hdentry : (rootAnswer args env).dentry = some root) (hkind : root.kind ≠ .reg)
      (hnode : env.nodeAlloc = true) (hnodePath : env.nodePathAlloc = true)
      (hstatus : out.status = some (rootAnswer args env).word)
      (hhead : out.head = some [rootNode args env root])
      (hresp : out.resp = getrootResp resp root)
      (hcalls : (rootAnswer args env).errno = 0 → ∀ call ∈ out.calls, ¬ call.Failed)

/-- The index of the last byte, as the code computes it. -/
theorem lastIndex_eq {len : Nat} (hpos : 0 < len) (h : len ≤ vsnfsMaxpathlen) :
    (BitVec.ofNat 32 len - 1).toNat = len - 1 := by
  rw [BitVec.toNat_sub, BitVec.toNat_ofNat]
  simp only [BitVec.ofNat_eq_ofNat, BitVec.toNat_ofNat, vsnfsMaxpathlen] at h ⊢
  omega

/-- A non-empty path is stored with exactly one slash added when it ends in none. -/
theorem rootPath_eq (args : GetrootArgs) (env : GetrootEnv) (hne : args.path.bytes ≠ []) :
    rootPath args env =
      if args.path.bytes.getLast? = some slash then args.path.bytes else args.path.bytes ++ [slash] := by
  obtain ⟨⟨bytes, hlength, hclean⟩⟩ := args
  have hpos := List.length_pos_of_ne_nil hne
  have hlast := lastIndex_eq hpos hlength
  have hpeek : some (((Buffer.alloc (bytes.length + 2) env.junk).put 0 bytes).peek
      ((bytes.length - 1 : Nat) : Int) env.stray) = bytes.getLast? := by
    rw [Int.natCast_sub hpos]
    exact peek_last hne (overwrite_zero _ _) env.stray
  simp only [rootPath, getrootPath, hlast]
  by_cases hslash : bytes.getLast? = some slash
  · rw [if_pos hslash, if_neg (fun hbyte => hbyte (Option.some.inj (hpeek.trans hslash)))]
    refine Buffer.cstr_eq_of_cells hclean ((env.junk.drop bytes.length).drop 1) ?_
    simp only [Buffer.put_cells, Buffer.noteRead_cells, Buffer.alloc_cells]
    rw [overwrite_zero, overwrite_append_of_eq rfl, List.append_assoc]
    rfl
  · rw [if_neg hslash, if_pos (fun hbyte => hslash (hpeek.symm.trans (congrArg some hbyte)))]
    refine Buffer.cstr_eq_of_cells ?_ (((env.junk.drop bytes.length).drop 1).drop 1) ?_
    · refine append_ne_zero hclean ?_
      intro byte hbyte
      rw [List.mem_singleton] at hbyte
      rw [hbyte]
      decide
    · have htwo : bytes.length + 1 = (bytes ++ [slash]).length := by rw [List.length_append]; rfl
      simp only [Buffer.put_cells, Buffer.noteRead_cells, Buffer.alloc_cells]
      rw [overwrite_zero, overwrite_append_of_eq rfl, overwrite_append_of_eq htwo, List.append_assoc]
      rfl

theorem rootNode_copy (args : GetrootArgs) (env : GetrootEnv) (root : Inode) (size : Nat)
    (junk : List Byte) :
    Node.ofBuffer root.ino ((Buffer.alloc size junk).put 0
      ((getrootPath args.path env.junk env.stray).cstr ++ [0])) = rootNode args env root := by
  rw [ofBuffer_copy _ _ _ Buffer.ne_zero_of_mem_cstr]
  rfl

theorem getroot_exit (head : Head) (args : GetrootArgs) (resp : VsnfsFh) (env : GetrootEnv) :
    GetrootExit head args resp env (vsnfsdProcGetroot head args resp env) := by
  unfold vsnfsdProcGetroot
  simp only [rootNode_copy]
  by_cases hnd : env.ndAlloc = false
  · rw [if_pos hnd]
    exact .noMemory (by simp [hnd]) rfl rfl
  rw [if_neg hnd]
  by_cases hpath : env.pathAlloc = false
  · rw [if_pos hpath]
    exact .noMemory (by simp [hpath]) rfl rfl
  rw [if_neg hpath]
  have halloc : env.ndAlloc = true ∧ env.pathAlloc = true := by simpa using And.intro hnd hpath
  cases hdentry : (rootAnswer args env).dentry with
  | none =>
      have hsame : (env.pathLookup (getrootPath args.path env.junk env.stray).cstr).dentry = none := hdentry
      rw [hsame]
      exact .noDentry halloc hdentry rfl rfl
  | some root =>
      have hsame : (env.pathLookup (getrootPath args.path env.junk env.stray).cstr).dentry = some root :=
        hdentry
      rw [hsame]
      simp only
      by_cases hkind : root.kind = .reg
      · rw [if_pos hkind]
        exact .notDir root halloc hdentry hkind rfl rfl
      rw [if_neg hkind]
      by_cases hnode : env.nodeAlloc = false
      · rw [if_pos hnode]
        exact .noNode root halloc hdentry hkind hnode rfl rfl
      rw [if_neg hnode]
      by_cases hnodePath : env.nodePathAlloc = false
      · rw [if_pos hnodePath]
        exact .noNodePath root halloc hdentry hkind (by simpa using hnode) hnodePath rfl rfl
      rw [if_neg hnodePath]
      refine .added root halloc hdentry hkind (by simpa using hnode) (by simpa using hnodePath) rfl rfl rfl ?_
      intro herrno call hcall
      have hzero : (env.pathLookup (getrootPath args.path env.junk env.stray).cstr).errno = 0 := herrno
      simp only [Outcome.call, Outcome.enter, hzero, List.nil_append, List.cons_append, List.mem_cons,
        List.not_mem_nil, or_false] at hcall
      rcases hcall with rfl | rfl | rfl | rfl | rfl <;> simp [ExtCall.Failed, halloc, hnode, hnodePath]

/-- A mount that returned `vsnfs_ok` has put the root into the emptied table. -/
theorem getroot_of_ok {head : Head} {args : GetrootArgs} {resp : VsnfsFh} {env : GetrootEnv}
    (hok : (vsnfsdProcGetroot head args resp env).status = some (vsnfserr .ok)) :
    ∃ root, (rootAnswer args env).dentry = some root ∧
      (vsnfsdProcGetroot head args resp env).head = some [rootNode args env root] ∧
      (vsnfsdProcGetroot head args resp env).resp = getrootResp resp root := by
  cases getroot_exit head args resp env with
  | noMemory _ hstatus _ => cases hstatus.symm.trans hok
  | noDentry _ _ hstatus _ => cases hstatus.symm.trans hok
  | notDir _ _ _ _ hstatus _ => cases hstatus.symm.trans hok
  | noNode _ _ _ _ _ hstatus _ => cases hstatus.symm.trans hok
  | noNodePath _ _ _ _ _ _ hstatus _ => cases hstatus.symm.trans hok
  | added root _ hdentry _ _ _ _ hhead hresp => exact ⟨root, hdentry, hhead, hresp⟩

/-- GETROOT leaves the table, or empties it and puts at most the root into it. -/
theorem getroot_table (head : Head) (args : GetrootArgs) (resp : VsnfsFh) (env : GetrootEnv) :
    (vsnfsdProcGetroot head args resp env).head = head ∨
      (vsnfsdProcGetroot head args resp env).head = some [] ∨
      ∃ root, (vsnfsdProcGetroot head args resp env).head = some [rootNode args env root] := by
  cases getroot_exit head args resp env with
  | noMemory _ _ hhead => exact Or.inl hhead
  | noDentry _ _ _ hhead => exact Or.inl hhead
  | notDir _ _ _ _ _ hhead => exact Or.inl hhead
  | noNode _ _ _ _ _ _ hhead => exact Or.inr (Or.inl hhead)
  | noNodePath _ _ _ _ _ _ _ hhead => exact Or.inr (Or.inl hhead)
  | added root _ _ _ _ _ _ hhead => exact Or.inr (Or.inr ⟨root, hhead⟩)

/-! ### Exits of LOOKUP -/

/-- The string LOOKUP gives to `path_lookup`. -/
def lookupText (node : Node) (args : LookupArgs) : List Byte := node.path ++ args.filename.bytes

theorem lookupText_ne_zero (node : Node) (args : LookupArgs) :
    ∀ byte ∈ lookupText node args, byte ≠ 0 := append_ne_zero node.hclean args.filename.hzero

theorem lookupText_ne_nil {node : Node} (hne : node.path ≠ []) (args : LookupArgs) :
    lookupText node args ≠ [] := by
  intro hnil
  exact hne (List.append_eq_nil_iff.mp hnil).1

def lookupAnswer (node : Node) (args : LookupArgs) (env : LookupEnv) : PathLookup :=
  env.pathLookup (lookupText node args)

def lookupBuffer (node : Node) (args : LookupArgs) (env : LookupEnv) (inode : Inode) : Buffer :=
  lookupFinalPath (lookupPath node args.filename env.junk) inode env.stray

def lookupNode (node : Node) (args : LookupArgs) (env : LookupEnv) (inode : Inode) : Node :=
  Node.ofBuffer inode.ino (lookupBuffer node args env inode)

/-- The handle was found, and the object behind the composed path has a dentry. -/
structure LookupResolved (nodes : List Node) (args : LookupArgs) (env : LookupEnv) (node : Node)
    (inode : Inode) : Prop where
  hfind : findNode nodes (args.fh.ino args.after) = some node
  hpath : env.pathAlloc = true
  hnd : env.ndAlloc = true
  hdentry : (lookupAnswer node args env).dentry = some inode

theorem LookupResolved.unique {nodes : List Node} {args : LookupArgs} {env : LookupEnv}
    {node other : Node} {inode found : Inode} (h : LookupResolved nodes args env node inode)
    (hother : LookupResolved nodes args env other found) : node = other ∧ inode = found := by
  have hnode : node = other := Option.some.inj (h.hfind.symm.trans hother.hfind)
  subst hnode
  exact ⟨rfl, Option.some.inj (h.hdentry.symm.trans hother.hdentry)⟩

/-- The exits of LOOKUP on an initialised table. Only the last one changes the table. -/
inductive LookupExit (nodes : List Node) (args : LookupArgs) (resp : VsnfsFh) (env : LookupEnv)
    (out : Outcome VsnfsFh) : Prop where
  | unknown (hfind : findNode nodes (args.fh.ino args.after) = none)
      (hstatus : out.status = some (vsnfserr .ok)) (hhead : out.head = some nodes)
      (hcalls : out.calls = []) (hbuffer : out.path = none)
  | noPath (node : Node) (hfind : findNode nodes (args.fh.ino args.after) = some node)
      (hpath : env.pathAlloc = false) (hstatus : out.status = some (-vsnfserr .nospc))
      (hhead : out.head = some nodes) (hbuffer : out.path = none)
  | noNd (node : Node) (hfind : findNode nodes (args.fh.ino args.after) = some node)
      (hpath : env.pathAlloc = true) (hnd : env.ndAlloc = false)
      (hstatus : out.status = some (-vsnfserr .nospc)) (hhead : out.head = some nodes)
      (hbuffer : out.path = some (lookupPath node args.filename env.junk))
  | noDentry (node : Node) (hfind : findNode nodes (args.fh.ino args.after) = some node)
      (hpath : env.pathAlloc = true) (hnd : env.ndAlloc = true)
      (hdentry : (lookupAnswer node args env).dentry = none) (hstatus : out.status = none)
      (hhead : out.head = some nodes) (hbuffer : out.path = some (lookupPath node args.filename env.junk))
  | known (node : Node) (inode : Inode) (hfound : LookupResolved nodes args env node inode)
      (hknown : (findNode nodes inode.ino).isSome = true)
      (hstatus : out.status = some (lookupAnswer node args env).word) (hhead : out.head = some nodes)
      (hbuffer : out.path = some (lookupBuffer node args env inode))
      (hresp : out.resp = lookupResp resp inode)
      (hcalls : (lookupAnswer node args env).errno = 0 → ∀ call ∈ out.calls, ¬ call.Failed)
  | noNode (node : Node) (inode : Inode) (hfound : LookupResolved nodes args env node inode)
      (hknown : findNode nodes inode.ino = none) (hnode : env.nodeAlloc = false)
      (hstatus : out.status = none) (hhead : out.head = some nodes)
      (hbuffer : out.path = some (lookupBuffer node args env inode))
  | noNodePath (node : Node) (inode : Inode) (hfound : LookupResolved nodes args env node inode)
      (hknown : findNode nodes inode.ino = none) (hnode : env.nodeAlloc = true)
      (hnodePath : env.nodePathAlloc = false) (hstatus : out.status = some (-vsnfserr .nospc))
      (hhead : out.head = some nodes) (hbuffer : out.path = some (lookupBuffer node args env inode))
  | added (node : Node) (inode : Inode) (hfound : LookupResolved nodes args env node inode)
      (hknown : findNode nodes inode.ino = none) (hnode : env.nodeAlloc = true)
      (hnodePath : env.nodePathAlloc = true)
      (hstatus : out.status = some (lookupAnswer node args env).word)
      (hhead : out.head = some (lookupNode node args env inode :: nodes))
      (hbuffer : out.path = some (lookupBuffer node args env inode).scan)
      (hresp : out.resp = lookupResp resp inode)
      (hcalls : (lookupAnswer node args env).errno = 0 → ∀ call ∈ out.calls, ¬ call.Failed)

theorem lookupNode_copy (node : Node) (args : LookupArgs) (env : LookupEnv) (inode : Inode) (size : Nat)
    (junk : List Byte) :
    Node.ofBuffer inode.ino ((Buffer.alloc size junk).put 0
      ((lookupFinalPath (lookupPath node args.filename env.junk) inode env.stray).cstr ++ [0])) =
      lookupNode node args env inode := by
  rw [ofBuffer_copy _ _ _ Buffer.ne_zero_of_mem_cstr]
  rfl

theorem lookup_exit (nodes : List Node) (args : LookupArgs) (resp : VsnfsFh) (env : LookupEnv) :
    LookupExit nodes args resp env (vsnfsdProcLookup (some nodes) args resp env) := by
  unfold vsnfsdProcLookup
  simp only [lookupNode_copy, lookupPath_cstr]
  cases hfind : findNode nodes (args.fh.ino args.after) with
  | none => exact .unknown hfind rfl rfl rfl rfl
  | some node =>
      simp only
      by_cases hpath : env.pathAlloc = false
      · rw [if_pos hpath]
        exact .noPath node hfind hpath rfl rfl rfl
      rw [if_neg hpath]
      have hpath' : env.pathAlloc = true := by simpa using hpath
      by_cases hnd : env.ndAlloc = false
      · rw [if_pos hnd]
        exact .noNd node hfind hpath' hnd rfl rfl rfl
      rw [if_neg hnd]
      have hnd' : env.ndAlloc = true := by simpa using hnd
      have hanswer : env.pathLookup (node.path ++ args.filename.bytes) = lookupAnswer node args env := rfl
      rw [hanswer]
      cases hdentry : (lookupAnswer node args env).dentry with
      | none => exact .noDentry node hfind hpath' hnd' hdentry rfl rfl rfl
      | some inode =>
          have hfound : LookupResolved nodes args env node inode := ⟨hfind, hpath', hnd', hdentry⟩
          simp only
          by_cases hknown : (findNode nodes inode.ino).isSome = true
          · rw [if_pos hknown]
            refine .known node inode hfound hknown rfl rfl rfl rfl ?_
            intro herrno call hcall
            simp only [Outcome.call, Outcome.enter, herrno, List.nil_append, List.cons_append,
              List.mem_cons, List.not_mem_nil, or_false] at hcall
            rcases hcall with rfl | rfl | rfl <;> simp [ExtCall.Failed, hpath', hnd']
          rw [if_neg hknown]
          have hnew : findNode nodes inode.ino = none := by simpa using hknown
          by_cases hnode : env.nodeAlloc = false
          · rw [if_pos hnode]
            exact .noNode node inode hfound hnew hnode rfl rfl rfl
          rw [if_neg hnode]
          have hnode' : env.nodeAlloc = true := by simpa using hnode
          by_cases hnodePath : env.nodePathAlloc = false
          · rw [if_pos hnodePath]
            exact .noNodePath node inode hfound hnew hnode' hnodePath rfl rfl rfl
          rw [if_neg hnodePath]
          refine .added node inode hfound hnew hnode' (by simpa using hnodePath) rfl rfl rfl rfl ?_
          intro herrno call hcall
          simp only [Outcome.call, Outcome.enter, herrno, List.nil_append, List.cons_append,
            List.mem_cons, List.not_mem_nil, or_false] at hcall
          rcases hcall with rfl | rfl | rfl | rfl | rfl <;>
            simp [ExtCall.Failed, hpath', hnd', hnode', hnodePath]

/-- A LOOKUP that found its entry and returned `vsnfs_ok` has resolved an object without an error; it has
added an entry for it, unless there was one with its number. -/
theorem lookup_of_ok {nodes : List Node} {args : LookupArgs} {resp : VsnfsFh} {env : LookupEnv}
    {node : Node} (hok : (vsnfsdProcLookup (some nodes) args resp env).status = some (vsnfserr .ok))
    (hfind : findNode nodes (args.fh.ino args.after) = some node) :
    ∃ inode, LookupResolved nodes args env node inode ∧
      (lookupAnswer node args env).word = vsnfserr .ok ∧
      (vsnfsdProcLookup (some nodes) args resp env).resp = lookupResp resp inode ∧
      ((∃ old, findNode nodes inode.ino = some old ∧
          (vsnfsdProcLookup (some nodes) args resp env).head = some nodes) ∨
        findNode nodes inode.ino = none ∧ (vsnfsdProcLookup (some nodes) args resp env).head =
          some (lookupNode node args env inode :: nodes)) := by
  cases lookup_exit nodes args resp env with
  | unknown hnone => cases hnone.symm.trans hfind
  | noPath _ _ _ hstatus => cases hstatus.symm.trans hok
  | noNd _ _ _ _ hstatus => cases hstatus.symm.trans hok
  | noDentry _ _ _ _ _ hstatus => cases hstatus.symm.trans hok
  | noNode _ _ _ _ _ hstatus => cases hstatus.symm.trans hok
  | noNodePath _ _ _ _ _ _ hstatus => cases hstatus.symm.trans hok
  | known other inode hfound hknown hstatus hhead _ hresp =>
      obtain rfl : node = other := Option.some.inj (hfind.symm.trans hfound.hfind)
      obtain ⟨old, hold⟩ := Option.isSome_iff_exists.mp hknown
      have hword := Option.some.inj (hstatus.symm.trans hok)
      exact ⟨inode, hfound, hword, hresp, Or.inl ⟨old, hold, hhead⟩⟩
  | added other inode hfound hnew _ _ hstatus hhead _ hresp =>
      obtain rfl : node = other := Option.some.inj (hfind.symm.trans hfound.hfind)
      have hword := Option.some.inj (hstatus.symm.trans hok)
      exact ⟨inode, hfound, hword, hresp, Or.inr ⟨hnew, hhead⟩⟩

/-- LOOKUP leaves the table, or puts one entry with a new number in front. -/
theorem lookup_table (nodes : List Node) (args : LookupArgs) (resp : VsnfsFh) (env : LookupEnv) :
    (vsnfsdProcLookup (some nodes) args resp env).head = some nodes ∨
      ∃ node inode, LookupResolved nodes args env node inode ∧ findNode nodes inode.ino = none ∧
        env.nodeAlloc = true ∧ env.nodePathAlloc = true ∧
        (vsnfsdProcLookup (some nodes) args resp env).head =
          some (lookupNode node args env inode :: nodes) := by
  cases lookup_exit nodes args resp env with
  | unknown _ _ hhead => exact Or.inl hhead
  | noPath _ _ _ _ hhead => exact Or.inl hhead
  | noNd _ _ _ _ _ hhead => exact Or.inl hhead
  | noDentry _ _ _ _ _ _ hhead => exact Or.inl hhead
  | known _ _ _ _ _ hhead => exact Or.inl hhead
  | noNode _ _ _ _ _ _ hhead => exact Or.inl hhead
  | noNodePath _ _ _ _ _ _ _ hhead => exact Or.inl hhead
  | added node inode hfound hnew hnode hnodePath _ hhead =>
      exact Or.inr ⟨node, inode, hfound, hnew, hnode, hnodePath, hhead⟩

/-- The buffer of LOOKUP: none, the composed path, or the path of the object that was found. -/
theorem lookup_buffer (nodes : List Node) (args : LookupArgs) (resp : VsnfsFh) (env : LookupEnv) :
    ((vsnfsdProcLookup (some nodes) args resp env).path = none ∧
      ∀ node, findNode nodes (args.fh.ino args.after) = some node → env.pathAlloc = false) ∨
    (∃ node, findNode nodes (args.fh.ino args.after) = some node ∧ env.pathAlloc = true ∧
      (env.ndAlloc = true → (lookupAnswer node args env).dentry = none) ∧
      (vsnfsdProcLookup (some nodes) args resp env).path = some (lookupPath node args.filename env.junk)) ∨
    ∃ node inode path, LookupResolved nodes args env node inode ∧
      (vsnfsdProcLookup (some nodes) args resp env).path = some path ∧
      (path.WritesInside ↔ (lookupBuffer node args env inode).WritesInside) := by
  cases lookup_exit nodes args resp env with
  | unknown hfind _ _ _ hbuffer =>
      refine Or.inl ⟨hbuffer, fun node hnode => ?_⟩
      rw [hfind] at hnode
      cases hnode
  | noPath _ _ hpath _ _ hbuffer => exact Or.inl ⟨hbuffer, fun _ _ => hpath⟩
  | noNd node hfind hpath hnd _ _ hbuffer =>
      refine Or.inr (Or.inl ⟨node, hfind, hpath, fun htrue => ?_, hbuffer⟩)
      rw [hnd] at htrue
      cases htrue
  | noDentry node hfind hpath _ hdentry _ _ hbuffer =>
      exact Or.inr (Or.inl ⟨node, hfind, hpath, fun _ => hdentry, hbuffer⟩)
  | known node inode hfound _ _ _ hbuffer =>
      exact Or.inr (Or.inr ⟨node, inode, _, hfound, hbuffer, Iff.rfl⟩)
  | noNode node inode hfound _ _ _ _ hbuffer =>
      exact Or.inr (Or.inr ⟨node, inode, _, hfound, hbuffer, Iff.rfl⟩)
  | noNodePath node inode hfound _ _ _ _ _ hbuffer =>
      exact Or.inr (Or.inr ⟨node, inode, _, hfound, hbuffer, Iff.rfl⟩)
  | added node inode hfound _ _ _ _ _ hbuffer =>
      exact Or.inr (Or.inr ⟨node, inode, _, hfound, hbuffer, Buffer.scan_writesInside_iff _⟩)

/-! ### Exits of the open by handle -/

/-- The exits of `vsnfsd_open`. Every failed call has a status of its own; only the walk from a zeroed
head has none. -/
inductive OpenExit {File : Type} (head : Head) (fh : VsnfsFh) (after : List Byte) (env : OpenEnv File)
    (opened : Opened File) : Prop where
  | noMemory (hpath : env.pathAlloc = false) (hstatus : opened.status = some (vsnfserr .nospc))
      (hfile : opened.file = none)
  | stopped (hpath : env.pathAlloc = true) (hino : fh.ino after ≠ 0) (hhead : head = none)
      (hstatus : opened.status = none) (hfile : opened.file = none)
  | noEntry (hwalk : fh.ino after = 0 ∨ head ≠ none)
      (hstatus : opened.status = some (vsnfserr .noent)) (hfile : opened.file = none)
  | refused (hwalk : fh.ino after = 0 ∨ head ≠ none)
      (hstatus : opened.status = some (vsnfserr .io)) (hfile : opened.file = none)
  | opened (file : File) (hwalk : fh.ino after = 0 ∨ head ≠ none)
      (hstatus : opened.status = some (vsnfserr .ok)) (hfile : opened.file = some file)
      (hcalls : ∀ call ∈ opened.calls, ¬ call.Failed)

theorem fhToPath_eq_none_iff (head : Head) (fh : VsnfsFh) (after : List Byte) (path : Buffer) (len : Nat) :
    vsnfsdFhToPath head fh after path len = none ↔ fh.ino after ≠ 0 ∧ head = none := by
  unfold vsnfsdFhToPath
  by_cases hino : fh.ino after = 0
  · simp [hino]
  · cases head with
    | none => simp
    | some nodes =>
        simp only [hino, if_false]
        cases findNode nodes (fh.ino after) with
        | none => simp
        | some node => simp

theorem open_exit {File : Type} (head : Head) (fh : VsnfsFh) (after : List Byte) (env : OpenEnv File) :
    OpenExit head fh after env (vsnfsdOpen head fh after env) := by
  unfold vsnfsdOpen
  by_cases hpath : env.pathAlloc = false
  · rw [if_pos hpath]
    exact .noMemory hpath rfl rfl
  rw [if_neg hpath]
  have hstopped := fhToPath_eq_none_iff head fh after (Buffer.alloc vsnfsMaxpathlen env.junk)
    vsnfsMaxpathlen
  cases hwalk : vsnfsdFhToPath head fh after (Buffer.alloc vsnfsMaxpathlen env.junk) vsnfsMaxpathlen with
  | none =>
      obtain ⟨hino, hhead⟩ := hstopped.mp hwalk
      exact .stopped (by simpa using hpath) hino hhead rfl rfl
  | some result =>
      obtain ⟨ret, path⟩ := result
      have hgone : fh.ino after = 0 ∨ head ≠ none := by
        by_contra hboth
        rw [not_or, not_not] at hboth
        exact absurd (hwalk.symm.trans (hstopped.mpr hboth)) (by simp)
      simp only
      by_cases hret : ret ≠ 0
      · rw [if_pos hret]
        exact .noEntry hgone rfl rfl
      rw [if_neg hret]
      cases env.filpOpen path.cstr with
      | error failure => exact .refused hgone rfl rfl
      | ok file =>
          refine .opened file hgone rfl rfl ?_
          intro call hcall
          rcases List.mem_pair.mp hcall with rfl | rfl <;> simp [ExtCall.Failed]

/-- There is a file only together with `vsnfs_ok`. -/
theorem open_status_of_file {File : Type} {head : Head} {fh : VsnfsFh} {after : List Byte}
    {env : OpenEnv File} {file : File} (hfile : (vsnfsdOpen head fh after env).file = some file) :
    (vsnfsdOpen head fh after env).status = some (vsnfserr .ok) := by
  cases open_exit head fh after env with
  | noMemory _ _ hnone => cases hnone.symm.trans hfile
  | stopped _ _ _ _ hnone => cases hnone.symm.trans hfile
  | noEntry _ _ hnone => cases hnone.symm.trans hfile
  | refused _ _ hnone => cases hnone.symm.trans hfile
  | opened _ _ hok => exact hok

end Vsnfs
