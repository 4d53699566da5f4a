import Vsnfs.ServerXdr

/-! The server procedures and the lookup table. What the kernel answers (allocations, path lookups,
opens, reads) is an input of each request; every answer that was used is kept in the list of calls.
An access through a null pointer stops the request without a status. The list head of the table is
zero until the first mount initialises it, and walking it before that is such an access. -/

namespace Vsnfs

open Base

/-! ### The table -/

/-- `struct vsnfs_lookup_table`; the path is the C string stored at `path`. -/
structure Node where
  ino : BitVec 64
  path : List Byte
  hclean : ∀ byte ∈ path, byte ≠ 0
  deriving DecidableEq

/-- The node of a number and of the C string in a buffer. -/
def Node.ofBuffer (ino : BitVec 64) (buffer : Buffer) : Node :=
  ⟨ino, buffer.cstr, fun _ hbyte => ne_zero_of_mem_cstrOf hbyte⟩

/-- `vsnfs_lp_tab.list`: `none` while the head is still zeroed memory. -/
abbrev Head := Option (List Node)

def Head.entries (head : Head) : List Node := head.getD []

/-- The search of `list_for_each_entry`: the first entry with this number. -/
def findNode (nodes : List Node) (ino : BitVec 64) : Option Node :=
  nodes.find? (fun node => node.ino = ino)

/-- The bytes `strncpy` stores: the string, cut at the length or filled up with zeros. -/
def strncpyBytes (text : List Byte) (length : Nat) : List Byte :=
  text.take length ++ List.replicate (length - text.length) 0

/-- `none` when the walk starts from the zeroed head. -/
def vsnfsdFhToPath (head : Head) (fh : VsnfsFh) (after : List Byte) (path : Buffer) (len : Nat) :
    Option (Int × Buffer) :=
  let ino := fh.ino after
  if ino = 0 then some (-1, path)
  else
    match head with
    | none => none
    | some nodes =>
        match findNode nodes ino with
        | some node => some (0, path.put 0 (strncpyBytes node.path len))
        | none => some (-1, path)

/-! ### Answers of the kernel -/

structure Inode where
  ino : BitVec 64
  kind : FileKind
  deriving DecidableEq

/-- A failed `path_lookup` leaves some dentry in the nameidata, or none that can be used. -/
inductive PathLookup where
  | found (inode : Inode)
  | failed (failure : Failure) (stale : Option Inode)
  deriving DecidableEq

def PathLookup.errno : PathLookup → Int
  | .found _ => 0
  | .failed failure _ => failure.errno

def PathLookup.dentry : PathLookup → Option Inode
  | .found inode => some inode
  | .failed _ stale => stale

/-- The `int` result in a variable of type `__be32`. -/
def PathLookup.word (answer : PathLookup) : Word := BitVec.ofInt 32 answer.errno

inductive ExtCall where
  | kmalloc (ok : Bool)
  | pathLookup (path : List Byte) (errno : Int)
  | filpOpen (path : List Byte) (errno : Int)
  | vfsReaddir (ret : Int)
  | vfsRead (ret : Int)
  deriving DecidableEq

def ExtCall.Failed : ExtCall → Prop
  | .kmalloc ok => ok = false
  | .pathLookup _ errno => errno < 0
  | .filpOpen _ errno => errno < 0
  | .vfsReaddir ret => ret < 0
  | .vfsRead ret => ret < 0

/-- What a handler leaves behind. There is no status when it was stopped by an invalid access; `path`
and `nodePath` are the buffers it used, with their accesses. -/
structure Outcome (Res : Type) where
  status : Option Word
  head : Head
  resp : Res
  calls : List ExtCall
  path : Option Buffer
  nodePath : Option Buffer

def Outcome.call {Res : Type} (out : Outcome Res) (call : ExtCall) : Outcome Res :=
  { out with calls := out.calls ++ [call] }

/-- A handler that has not called anything yet. -/
def Outcome.enter {Res : Type} (head : Head) (resp : Res) : Outcome Res :=
  { status := some (vsnfserr .ok), head := head, resp := resp, calls := [], path := none, nodePath := none }

/-! ### NULL -/

def vsnfsdProcNull (head : Head) (dummy : Word) : Outcome Word := Outcome.enter head (dummy + 1)

/-! ### GETROOT -/

structure GetrootEnv where
  ndAlloc : Bool
  pathAlloc : Bool
  nodeAlloc : Bool
  nodePathAlloc : Bool
  pathLookup : List Byte → PathLookup
  junk : List Byte
  nodeJunk : List Byte
  stray : Byte

/-- The buffer `path` after the trailing slash and the terminator were written. The index of the last
byte is an unsigned 32-bit number, so for the empty path it lies far behind the buffer. -/
def getrootPath (path : PathName) (junk : List Byte) (stray : Byte) : Buffer :=
  let len := path.bytes.length
  let buffer := (Buffer.alloc (len + 2) junk).put 0 path.bytes
  let last := (BitVec.ofNat 32 len - 1).toNat
  let byte := buffer.peek last stray
  let buffer := buffer.noteRead last
  if byte ≠ slash then (buffer.put len [slash]).put (len + 1) [0] else buffer.put len [0]

/-- The handle of the root; only a directory's type is set. -/
def getrootResp (resp : VsnfsFh) (root : Inode) : VsnfsFh :=
  if root.kind = .dir then { resp.print root.ino with type := vsnfsDir } else resp.print root.ino

def vsnfsdProcGetroot (head : Head) (args : GetrootArgs) (resp : VsnfsFh) (env : GetrootEnv) :
    Outcome VsnfsFh :=
  let out := (Outcome.enter head resp).call (.kmalloc env.ndAlloc)
  if env.ndAlloc = false then { out with status := some (-vsnfserr .nospc) }
  else
    let out := out.call (.kmalloc env.pathAlloc)
    if env.pathAlloc = false then { out with status := some (-vsnfserr .nospc) }
    else
      let path := getrootPath args.path env.junk env.stray
      let answer := env.pathLookup path.cstr
      -- the result is unsigned, so the test for a negative value never holds and the handler goes on
      let out := { out.call (.pathLookup path.cstr answer.errno) with path := some path }
      match answer.dentry with
      | none => { out with status := none }
      | some root =>
          let out := { out with resp := resp.print root.ino }
          if root.kind = .reg then { out with status := some (-vsnfserr .notdir) }
          else
            let out := { out with resp := getrootResp resp root }
            -- `INIT_LIST_HEAD`
            let out := { out.call (.kmalloc env.nodeAlloc) with head := some [] }
            if env.nodeAlloc = false then { out with status := none }
            else
              let out := out.call (.kmalloc env.nodePathAlloc)
              if env.nodePathAlloc = false then { out with status := some (-vsnfserr .nospc) }
              else
                let nodePath :=
                  (Buffer.alloc (args.path.bytes.length + 2) env.nodeJunk).put 0 (path.cstr ++ [0])
                { out with
                  status := some answer.word
                  head := some [Node.ofBuffer root.ino nodePath]
                  path := some path.scan
                  nodePath := some nodePath }

/-! ### LOOKUP -/

structure LookupEnv where
  pathAlloc : Bool
  ndAlloc : Bool
  nodeAlloc : Bool
  nodePathAlloc : Bool
  pathLookup : List Byte → PathLookup
  junk : List Byte
  nodeJunk : List Byte
  stray : Byte

/-- The buffer `path` with the stored path, the name behind it and the terminator. -/
def lookupPath (node : Node) (filename : FileName) (junk : List Byte) : Buffer :=
  let path := ((Buffer.alloc (vsnfsMaxpathlen + 1) junk).put 0 (node.path ++ [0])).scan
  let path := path.put path.cstr.length filename.bytes
  path.put (filename.bytes.length + node.path.length) [0]

/-- The slash a directory's path ends in. -/
def lookupSlash (path : Buffer) (stray : Byte) : Buffer :=
  let len := path.cstr.length
  let byte := path.peek (len - 1 : Int) stray
  let path := path.scan.noteRead (len - 1 : Int)
  if byte ≠ slash then (path.put len [slash]).put (len + 1) [0] else path

/-- The type and the path of the object that was found. -/
def lookupResp (resp : VsnfsFh) (inode : Inode) : VsnfsFh :=
  match inode.kind with
  | .reg => { resp.print inode.ino with type := vsnfsReg }
  | .dir => { resp.print inode.ino with type := vsnfsDir }
  | .other => resp.print inode.ino

def lookupFinalPath (path : Buffer) (inode : Inode) (stray : Byte) : Buffer :=
  if inode.kind = .dir then lookupSlash path stray else path

def vsnfsdProcLookup (head : Head) (args : LookupArgs) (resp : VsnfsFh) (env : LookupEnv) :
    Outcome VsnfsFh :=
  let out := Outcome.enter head resp
  match head with
  | none => { out with status := none }
  | some nodes =>
      match findNode nodes (args.fh.ino args.after) with
      -- an unknown handle falls through to the end with the status still `vsnfs_ok`
      | none => out
      | some node =>
          let out := out.call (.kmalloc env.pathAlloc)
          if env.pathAlloc = false then { out with status := some (-vsnfserr .nospc) }
          else
            let path := lookupPath node args.filename env.junk
            let out := { out.call (.kmalloc env.ndAlloc) with path := some path }
            if env.ndAlloc = false then { out with status := some (-vsnfserr .nospc) }
            else
              let answer := env.pathLookup path.cstr
              let out := out.call (.pathLookup path.cstr answer.errno)
              match answer.dentry with
              | none => { out with status := none }
              | some inode =>
                  let path := lookupFinalPath path inode env.stray
                  let out := { out with resp := lookupResp resp inode, path := some path }
                  if (findNode nodes inode.ino).isSome then { out with status := some answer.word }
                  else
                    let out := out.call (.kmalloc env.nodeAlloc)
                    if env.nodeAlloc = false then { out with status := none }
                    else
                      let out := out.call (.kmalloc env.nodePathAlloc)
                      if env.nodePathAlloc = false then { out with status := some (-vsnfserr .nospc) }
                      else
                        let nodePath :=
                          (Buffer.alloc (path.cstr.length + 2) env.nodeJunk).put 0 (path.cstr ++ [0])
                        { out with
                          status := some answer.word
                          head := some (Node.ofBuffer inode.ino nodePath :: nodes)
                          path := some path.scan
                          nodePath := some nodePath }

/-! ### Opening by handle -/

structure OpenEnv (File : Type) where
  pathAlloc : Bool
  junk : List Byte
  filpOpen : List Byte → Except Failure File

/-- The result of `vsnfsd_open`: no status after an invalid access, a file only with `vsnfs_ok`. -/
structure Opened (File : Type) where
  status : Option Word
  file : Option File
  calls : List ExtCall
  path : Option Buffer

def vsnfsdOpen {File : Type} (head : Head) (fh : VsnfsFh) (after : List Byte) (env : OpenEnv File) :
    Opened File :=
  if env.pathAlloc = false then ⟨some (vsnfserr .nospc), none, [.kmalloc false], none⟩
  else
    match vsnfsdFhToPath head fh after (Buffer.alloc vsnfsMaxpathlen env.junk) vsnfsMaxpathlen with
    | none => ⟨none, none, [.kmalloc true], none⟩
    | some (ret, path) =>
        if ret ≠ 0 then ⟨some (vsnfserr .noent), none, [.kmalloc true], some path⟩
        else
          match env.filpOpen path.cstr with
          | .error failure =>
              ⟨some (vsnfserr .io), none, [.kmalloc true, .filpOpen path.cstr failure.errno], some path⟩
          | .ok file => ⟨some (vsnfserr .ok), some file, [.kmalloc true, .filpOpen path.cstr 0], some path⟩

/-! ### READDIR -/

/-- A call of the filler, with what its stack frame held before. -/
abbrev FillerCall := Dirent × VsnfsFh

/-- The calls `vfs_readdir` makes, up to the first that is refused, and its result. -/
structure ReaddirEnv where
  opening : OpenEnv Unit
  entries : List FillerCall
  failure : Option Failure
  page : List Byte

def ReaddirEnv.ret (env : ReaddirEnv) : Int :=
  match env.failure with
  | some failure => failure.errno
  | none => 0

def encodeCall (res : ReaddirRes) (call : FillerCall) : ReaddirRes × Int :=
  vsnfssvcEncodeEntry res call.1.name call.1.name.length call.1.offset call.1.ino call.1.dType call.2

def vfsReaddir (res : ReaddirRes) : List FillerCall → ReaddirRes
  | [] => res
  | call :: calls =>
      if (encodeCall res call).2 = 0 then vfsReaddir (encodeCall res call).1 calls
      else (encodeCall res call).1

def vsnfsdReaddir (head : Head) (fh : VsnfsFh) (after : List Byte) (env : ReaddirEnv)
    (res : ReaddirRes) : Outcome ReaddirRes :=
  let opened := vsnfsdOpen head fh after env.opening
  let out : Outcome ReaddirRes :=
    { status := opened.status, head := head, resp := res, calls := opened.calls, path := opened.path,
      nodePath := none }
  match opened.file with
  | none => out
  | some () =>
      let out := { out.call (.vfsReaddir env.ret) with resp := vfsReaddir res env.entries }
      if env.ret < 0 then { out with status := some (vsnfserrno env.ret) } else out

/-- The budget in words: two are kept for the end marker. -/
def readdirBudget (count : Nat) : Int :=
  if (count : Int) / 4 - 2 < 0 then 0 else (count : Int) / 4 - 2

/-- The result record as the handler sets it up on a page. -/
def readdirStart (count : Nat) (page : List Byte) : ReaddirRes :=
  { page := Buffer.alloc pageSize page, count := 0, err := vsnfserr .ok, buffer := 0,
    buflen := readdirBudget count, offset := none }

def vsnfsdProcReaddir (head : Head) (args : ReaddirArgs) (env : ReaddirEnv) : Outcome ReaddirRes :=
  let out := vsnfsdReaddir head args.fh args.after env (readdirStart args.count env.page)
  let err := match out.status with
    | some vfserr => if vfserr ≠ 0 ∧ out.resp.err = vsnfserr .ok then vfserr else out.resp.err
    | none => out.resp.err
  { out with resp := { out.resp with err := err, count := (out.resp.buffer / 4 : Nat) } }

/-! ### READ -/

/-- The content of an open file; its size is a non-negative `loff_t`. -/
structure RegFile where
  content : List Byte
  hsize : content.length < 2 ^ 63

/-- What `vfs_read` returns, the bytes it stored from the start of the buffer, and the position. -/
structure VfsRead where
  ret : Int
  bytes : List Byte
  pos : Int

/-- `stack` is what the uninitialised local `pos` of the handler holds. -/
structure ReadEnv where
  opening : OpenEnv RegFile
  vfsRead : RegFile → Nat → Int → VfsRead
  page : List Byte
  stack : BitVec 64

structure ReadRes where
  count : BitVec 64
  page : List Byte

def vsnfsdRead (head : Head) (fh : VsnfsFh) (after : List Byte) (env : ReadEnv) (count : Nat)
    (pos : Int) : Outcome (Int × List Byte) :=
  let opened := vsnfsdOpen head fh after env.opening
  let out : Outcome (Int × List Byte) :=
    { status := opened.status, head := head, resp := (pos, env.page), calls := opened.calls,
      path := opened.path, nodePath := none }
  match opened.file with
  | none => out
  | some file =>
      let answer := env.vfsRead file count pos
      let page := overwrite env.page 0 answer.bytes
      let out := out.call (.vfsRead answer.ret)
      if 0 ≤ answer.ret then { out with resp := (answer.ret, page) }
      else { out with status := some (vsnfserrno answer.ret), resp := (answer.pos, page) }

/-- The requested offset is not passed on: the position is whatever the local variable held. -/
def vsnfsdProcRead (head : Head) (args : ReadArgs) (env : ReadEnv) : Outcome ReadRes :=
  let out := vsnfsdRead head args.fh args.after env args.count env.stack.toInt
  { status := out.status, head := out.head, resp := ⟨BitVec.ofInt 64 out.resp.1, out.resp.2⟩,
    calls := out.calls, path := out.path, nodePath := none }

end Vsnfs
