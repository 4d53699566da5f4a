import Mathlib.Algebra.Group.Pi.Lemmas
import Mathlib.Algebra.Order.Group.Int
import Vsnfs.BaseLedger
import Vsnfs.ServerUptime

/-! What the server takes from the kernel and gives back: memory, references to dentries and mounts, open files.
A handler frees its buffers on every way out, and the table keeps the entries until the service ends. But a
mount initialises the list head and forgets the entries behind it, an entry without its path is not freed, and
after a path lookup that failed a reference is put that was never taken. -/

namespace Vsnfs

open Base

/-! ### The handlers and the kernel -/

/-- What is taken and given back: the buffers of a handler, the two parts of an entry, references and files. -/
inductive Taken where
  | path | nd | node | nodePath | dentry | mnt | file
  deriving DecidableEq

/-- What a handler asks of the kernel, in the order of the source. A null pointer is freed without effect; this
is left out. -/
inductive KernelOp where
  | kmalloc (what : Taken) (ok : Bool)
  | kfree (what : Taken)
  | pathLookup (path : List Byte) (errno : Int)
  | dget
  | pathPut
  | dput
  | filpOpen (path : List Byte) (errno : Int)
  | vfsReaddir (ret : Int)
  | vfsRead (ret : Int)
  | filpClose
  deriving DecidableEq

/-- The calls whose answers the handler looks at. -/
def KernelOp.extCall : KernelOp → Option ExtCall
  | .kmalloc _ ok => some (.kmalloc ok)
  | .pathLookup path errno => some (.pathLookup path errno)
  | .filpOpen path errno => some (.filpOpen path errno)
  | .vfsReaddir ret => some (.vfsReaddir ret)
  | .vfsRead ret => some (.vfsRead ret)
  | _ => none

/-- What an operation adds to the account. A failed `path_lookup` or `filp_open` leaves nothing behind. -/
def KernelOp.effect : KernelOp → Taken → Int
  | .kmalloc what true => Pi.single what 1
  | .kfree what => -Pi.single what 1
  | .pathLookup _ errno => if errno < 0 then 0 else Pi.single .dentry 1 + Pi.single .mnt 1
  | .dget => Pi.single .dentry 1
  | .pathPut => -(Pi.single .dentry 1 + Pi.single .mnt 1)
  | .dput => -Pi.single .dentry 1
  | .filpOpen _ errno => if errno < 0 then 0 else Pi.single .file 1
  | .filpClose => -Pi.single .file 1
  | _ => 0

/-- What a list of operations adds. -/
def balance (ops : List KernelOp) : Taken → Int := (ops.map KernelOp.effect).sum

/-- The end of GETROOT and of LOOKUP, behind `out_getroot` and `out_lookup_dput`. -/
def putAndFree : List KernelOp := [.dput, .kfree .nd, .kfree .path]

/-- A new entry, and the end. The node is used without a test, and stays when its path cannot be allocated. -/
def entryOps (nodeAlloc nodePathAlloc : Bool) : List KernelOp :=
  .kmalloc .node nodeAlloc ::
    if nodeAlloc = false then [] else .kmalloc .nodePath nodePathAlloc :: putAndFree

def getrootOps (args : GetrootArgs) (env : GetrootEnv) : List KernelOp :=
  .kmalloc .nd env.ndAlloc ::
    if env.ndAlloc = false then []
    else
      .kmalloc .path env.pathAlloc ::
        if env.pathAlloc = false then [.kfree .nd]
        else
          let path := getrootPath args.path env.junk env.stray
          let answer := env.pathLookup path.cstr
          .pathLookup path.cstr answer.errno ::
            match answer.dentry with
            | none => []
            | some root =>
                .dget :: .pathPut ::
                  if root.kind = .reg then putAndFree else entryOps env.nodeAlloc env.nodePathAlloc

def lookupOps (head : Head) (args : LookupArgs) (env : LookupEnv) : List KernelOp :=
  match head with
  | none => []
  | some nodes =>
      match findNode nodes (args.fh.ino args.after) with
      | none => []
      | some node =>
          .kmalloc .path env.pathAlloc ::
            if env.pathAlloc = false then []
            else
              let path := lookupPath node args.filename env.junk
              .kmalloc .nd env.ndAlloc ::
                if env.ndAlloc = false then [.kfree .path]
                else
                  let answer := env.pathLookup path.cstr
                  .pathLookup path.cstr answer.errno ::
                    match answer.dentry with
                    | none => []
                    | some inode =>
                        .dget :: .pathPut ::
                          if (findNode nodes inode.ino).isSome then putAndFree
                          else entryOps env.nodeAlloc env.nodePathAlloc

def openOps {File : Type} (head : Head) (fh : VsnfsFh) (after : List Byte) (env : OpenEnv File) : List KernelOp :=
  .kmalloc .path env.pathAlloc ::
    if env.pathAlloc = false then []
    else
      match vsnfsdFhToPath head fh after (Buffer.alloc vsnfsMaxpathlen env.junk) vsnfsMaxpathlen with
      | none => []
      | some (ret, path) =>
          if ret ≠ 0 then [.kfree .path]
          else
            match env.filpOpen path.cstr with
            | .error failure => [.filpOpen path.cstr failure.errno, .kfree .path]
            | .ok _ => [.filpOpen path.cstr 0, .kfree .path]

/-- An open file is used and closed, whatever the use has returned. -/
def usedOps {File : Type} (head : Head) (fh : VsnfsFh) (after : List Byte) (env : OpenEnv File)
    (use : File → KernelOp) : List KernelOp :=
  openOps head fh after env ++
    match (vsnfsdOpen head fh after env).file with
    | none => []
    | some file => [use file, .filpClose]

def readdirOps (head : Head) (args : ReaddirArgs) (env : ReaddirEnv) : List KernelOp :=
  usedOps head args.fh args.after env.opening fun _ => .vfsReaddir env.ret

def readOps (head : Head) (args : ReadArgs) (env : ReadEnv) : List KernelOp :=
  usedOps head args.fh args.after env.opening fun file =>
    .vfsRead (env.vfsRead file args.count env.stack.toInt).ret

def eventOps (head : Head) : Event → List KernelOp
  | .null _ => []
  | .getroot args env => getrootOps args env
  | .lookup args env => lookupOps head args env
  | .readdir args env => readdirOps head args env
  | .read args env => readOps head args env

/-! ### The calls are those of the handlers -/

theorem getrootOps_calls (head : Head) (args : GetrootArgs) (env : GetrootEnv) :
    (getrootOps args env).filterMap KernelOp.extCall = (vsnfsdProcGetroot head args zeroFh env).calls := by
  simp only [getrootOps, entryOps, vsnfsdProcGetroot]
  split
  · rfl
  split
  · rfl
  cases (env.pathLookup (getrootPath args.path env.junk env.stray).cstr).dentry with
  | none => rfl
  | some root =>
      simp only
      split
      · rfl
      split
      · rfl
      split <;> rfl

theorem lookupOps_calls (head : Head) (args : LookupArgs) (env : LookupEnv) :
    (lookupOps head args env).filterMap KernelOp.extCall = (vsnfsdProcLookup head args zeroFh env).calls := by
  cases head with
  | none => rfl
  | some nodes =>
      simp only [lookupOps, entryOps, vsnfsdProcLookup]
      cases findNode nodes (args.fh.ino args.after) with
      | none => rfl
      | some node =>
          simp only
          split
          · rfl
          split
          · rfl
          cases (env.pathLookup (lookupPath node args.filename env.junk).cstr).dentry with
          | none => rfl
          | some inode =>
              simp only
              split
              · rfl
              split
              · rfl
              split <;> rfl

theorem openOps_calls {File : Type} (head : Head) (fh : VsnfsFh) (after : List Byte) (env : OpenEnv File) :
    (openOps head fh after env).filterMap KernelOp.extCall = (vsnfsdOpen head fh after env).calls := by
  rw [openOps, vsnfsdOpen]
  cases env.pathAlloc with
  | false => rfl
  | true =>
      cases vsnfsdFhToPath head fh after (Buffer.alloc vsnfsMaxpathlen env.junk) vsnfsMaxpathlen with
      | none => rfl
      | some resolved =>
          simp only [Bool.true_eq_false, if_false]
          split
          · rfl
          · cases env.filpOpen resolved.2.cstr with
            | error failure => rfl
            | ok file => rfl

/-- **The answers that are looked at** are those of the handler, for every request. -/
theorem eventOps_calls (head : Head) (event : Event) :
    (eventOps head event).filterMap KernelOp.extCall = (serve head event).calls := by
  cases event with
  | null dummy => rfl
  | getroot args env => exact getrootOps_calls head args env
  | lookup args env => exact lookupOps_calls head args env
  | readdir args env =>
      simp only [eventOps, readdirOps, usedOps, List.filterMap_append, openOps_calls, serve, Outcome.served,
        vsnfsdProcReaddir, vsnfsdReaddir]
      cases (vsnfsdOpen head args.fh args.after env.opening).file with
      | none => exact List.append_nil _
      | some file =>
          simp only
          split <;> rfl
  | read args env =>
      simp only [eventOps, readOps, usedOps, List.filterMap_append, openOps_calls, serve, Outcome.served,
        vsnfsdProcRead, vsnfsdRead]
      cases (vsnfsdOpen head args.fh args.after env.opening).file with
      | none => exact List.append_nil _
      | some file =>
          simp only
          split <;> rfl

/-! ### What a request leaves in the account -/

/-- The two allocations of an entry. -/
def entryCost : Taken → Int := Pi.single .node 1 + Pi.single .nodePath 1

/-- What `path_lookup` takes and `path_put` gives back. -/
def pathRef : Taken → Int := Pi.single .dentry 1 + Pi.single .mnt 1

/-- What the table holds. -/
def tableOf (head : Head) : Taken → Int := head.entries.length • entryCost

/-- The entries that `INIT_LIST_HEAD` drops. GETROOT allocates its node right behind it. -/
def forgotten (head : Head) : Event → Nat
  | .getroot args env => if .kmalloc .node env.nodeAlloc ∈ getrootOps args env then head.entries.length else 0
  | _ => 0

/-- The nodes whose path could not be allocated. -/
def orphaned (head : Head) (event : Event) : Nat := (eventOps head event).count (.kmalloc .nodePath false)

def KernelOp.lookupFails : KernelOp → Bool
  | .pathLookup _ errno => errno < 0
  | _ => false

/-- The failed path lookups, after which a handler puts what it has not got. -/
def missed (head : Head) (event : Event) : Nat := (eventOps head event).countP KernelOp.lookupFails

/-- What a request loses, less what it gives back without having taken it. -/
def loss (head : Head) (event : Event) : Taken → Int :=
  forgotten head event • entryCost + orphaned head event • Pi.single .node 1 - missed head event • pathRef

theorem balance_cons (op : KernelOp) (ops : List KernelOp) : balance (op :: ops) = op.effect + balance ops := rfl

theorem balance_append (ops more : List KernelOp) : balance (ops ++ more) = balance ops + balance more := by
  rw [balance, List.map_append, List.sum_append]
  rfl

theorem putAndFree_balance : balance putAndFree = -Pi.single .dentry 1 - Pi.single .nd 1 - Pi.single .path 1 := by
  simp only [putAndFree, balance, List.map_cons, List.map_nil, List.sum_cons, List.sum_nil, KernelOp.effect]
  abel

/-- A handler with its two buffers, from the path lookup on. -/
def answeredOps (first second : Taken) (path : List Byte) (errno : Int) (more : List KernelOp) : List KernelOp :=
  .kmalloc first true :: .kmalloc second true :: .pathLookup path errno :: .dget :: .pathPut :: more

theorem answeredOps_balance (first second : Taken) (path : List Byte) (errno : Int) (more : List KernelOp) :
    balance (answeredOps first second path errno more) =
      Pi.single first 1 + Pi.single second 1 + Pi.single .dentry 1 -
        (if errno < 0 then 1 else 0 : Nat) • pathRef + balance more := by
  simp only [answeredOps, balance_cons, KernelOp.effect]
  split
  · rw [one_nsmul, pathRef]
    abel
  · rw [zero_nsmul]
    abel

theorem answeredOps_count (first second : Taken) (path : List Byte) (errno : Int) (more : List KernelOp) :
    (answeredOps first second path errno more).count (.kmalloc .nodePath false) =
      more.count (.kmalloc .nodePath false) := by
  simp [answeredOps]

theorem answeredOps_countP (first second : Taken) (path : List Byte) (errno : Int) (more : List KernelOp) :
    (answeredOps first second path errno more).countP KernelOp.lookupFails =
      (if errno < 0 then 1 else 0) + more.countP KernelOp.lookupFails := by
  simp only [answeredOps, List.countP_cons, KernelOp.lookupFails, decide_eq_true_eq, Bool.false_eq_true, if_false]
  omega

theorem entryOps_balance (nodePathAlloc : Bool) :
    balance (entryOps true nodePathAlloc) =
      balance putAndFree + (if nodePathAlloc = true then entryCost else Pi.single .node 1) := by
  have hops : entryOps true nodePathAlloc =
      .kmalloc .node true :: .kmalloc .nodePath nodePathAlloc :: putAndFree := rfl
  rw [hops, balance_cons, balance_cons]
  cases nodePathAlloc with
  | false =>
      simp only [KernelOp.effect, Bool.false_eq_true, if_false]
      abel
  | true =>
      simp only [KernelOp.effect, if_true, entryCost]
      abel

theorem putAndFree_counts :
    putAndFree.count (.kmalloc .nodePath false) = 0 ∧ putAndFree.countP KernelOp.lookupFails = 0 := ⟨rfl, rfl⟩

theorem entryOps_counts (nodePathAlloc : Bool) :
    (entryOps true nodePathAlloc).count (.kmalloc .nodePath false) = (if nodePathAlloc = true then 0 else 1) ∧
      (entryOps true nodePathAlloc).countP KernelOp.lookupFails = 0 := by
  cases nodePathAlloc <;> exact ⟨rfl, rfl⟩

/-- What an answered request leaves: the cost of its entry, if it makes one, or the node alone, less the reference
that it did not get. -/
theorem answeredOps_account {first second : Taken}
    (hbuffers : first = .nd ∧ second = .path ∨ first = .path ∧ second = .nd) (path : List Byte) (errno : Int) :
    (balance (answeredOps first second path errno putAndFree) =
      -((answeredOps first second path errno putAndFree).countP KernelOp.lookupFails • pathRef)) ∧
    ∀ nodePathAlloc, balance (answeredOps first second path errno (entryOps true nodePathAlloc)) =
      (if nodePathAlloc = true then entryCost else Pi.single .node 1) -
        (answeredOps first second path errno (entryOps true nodePathAlloc)).countP KernelOp.lookupFails •
          pathRef := by
  have hsum : (Pi.single first 1 + Pi.single second 1 : Taken → Int) = Pi.single .nd 1 + Pi.single .path 1 := by
    obtain ⟨rfl, rfl⟩ | ⟨rfl, rfl⟩ := hbuffers
    · rfl
    · exact add_comm _ _
  refine ⟨?_, fun nodePathAlloc => ?_⟩
  · rw [answeredOps_balance, answeredOps_countP, putAndFree_counts.2, putAndFree_balance, hsum, Nat.add_zero]
    abel
  · rw [answeredOps_balance, answeredOps_countP, (entryOps_counts nodePathAlloc).2, entryOps_balance,
      putAndFree_balance, hsum, Nat.add_zero]
    generalize (if nodePathAlloc = true then entryCost else Pi.single .node 1 : Taken → Int) = made
    abel

/-! ### Each handler -/

section Getroot

variable {head : Head} {args : GetrootArgs} {env : GetrootEnv}

theorem getrootOps_found (halloc : env.ndAlloc = true ∧ env.pathAlloc = true) {root : Inode}
    (hdentry : (rootAnswer args env).dentry = some root) :
    getrootOps args env = answeredOps .nd .path (rootPath args env) (rootAnswer args env).errno
      (if root.kind = .reg then putAndFree else entryOps env.nodeAlloc env.nodePathAlloc) := by
  have hanswer : (env.pathLookup (getrootPath args.path env.junk env.stray).cstr).dentry = some root := hdentry
  simp only [getrootOps, halloc.1, halloc.2, hanswer, Bool.true_eq_false, if_false]
  rfl

theorem getrootOps_noMemory (args : GetrootArgs) (halloc : ¬ (env.ndAlloc = true ∧ env.pathAlloc = true)) :
    getrootOps args env = [.kmalloc .nd false] ∨
      getrootOps args env = [.kmalloc .nd true, .kmalloc .path false, .kfree .nd] := by
  cases hnd : env.ndAlloc with
  | false =>
      left
      simp only [getrootOps, hnd, if_true]
  | true =>
      have hpath : env.pathAlloc = false := by
        rw [hnd] at halloc
        simpa using halloc
      right
      simp only [getrootOps, hnd, hpath, Bool.true_eq_false, if_false, if_true]

/-- What GETROOT loses by its operations: the entries in the table when it gets to its node. -/
theorem getroot_loss {ops : List KernelOp} (hops : getrootOps args env = ops) :
    loss head (.getroot args env) =
      (if .kmalloc .node env.nodeAlloc ∈ ops then head.entries.length else 0) • entryCost +
        ops.count (.kmalloc .nodePath false) • Pi.single .node 1 - ops.countP KernelOp.lookupFails • pathRef := by
  rw [← hops]
  rfl

/-- A mount that gets to its entry has the table's memory behind it. -/
theorem getroot_made (head : Head) (halloc : env.ndAlloc = true ∧ env.pathAlloc = true) {root : Inode}
    (hdentry : (rootAnswer args env).dentry = some root) (hkind : root.kind ≠ .reg)
    (hnode : env.nodeAlloc = true) :
    balance (getrootOps args env) =
      (if env.nodePathAlloc = true then entryCost else 0) - tableOf head + loss head (.getroot args env) := by
  have hops := getrootOps_found halloc hdentry
  rw [if_neg hkind, hnode] at hops
  have hmem : KernelOp.kmalloc .node env.nodeAlloc ∈ answeredOps .nd .path (rootPath args env)
      (rootAnswer args env).errno (entryOps true env.nodePathAlloc) := by
    simp [answeredOps, entryOps, hnode]
  rw [getroot_loss hops, if_pos hmem, hops, (answeredOps_account (Or.inl ⟨rfl, rfl⟩) _ _).2, answeredOps_count,
    (entryOps_counts _).1]
  cases env.nodePathAlloc with
  | false =>
      simp only [Bool.false_eq_true, if_false, one_nsmul, tableOf]
      abel
  | true =>
      simp only [if_true, zero_nsmul, tableOf]
      abel

theorem getroot_account (hreturned : (serve head (.getroot args env)).status ≠ none) :
    balance (getrootOps args env) =
      tableOf (serve head (.getroot args env)).head - tableOf head + loss head (.getroot args env) := by
  cases getroot_exit head args zeroFh env with
  | noMemory halloc hstatus hhead =>
      have hsame : (serve head (.getroot args env)).head = head := hhead
      rw [hsame, sub_self, zero_add]
      obtain hops | hops := getrootOps_noMemory args halloc
      · rw [getroot_loss hops, hops]
        simp [balance, KernelOp.effect, KernelOp.lookupFails]
      · rw [getroot_loss hops, hops]
        simp [balance, KernelOp.effect, KernelOp.lookupFails]
  | noDentry _ _ hstatus => exact absurd hstatus hreturned
  | notDir root halloc hdentry hkind hstatus hhead =>
      have hsame : (serve head (.getroot args env)).head = head := hhead
      have hops := getrootOps_found halloc hdentry
      rw [if_pos hkind] at hops
      rw [hsame, sub_self, zero_add, getroot_loss hops, hops, (answeredOps_account (Or.inl ⟨rfl, rfl⟩) _ _).1,
        answeredOps_count, putAndFree_counts.1, if_neg (by simp [answeredOps, putAndFree]), zero_nsmul,
        zero_nsmul]
      abel
  | noNode root halloc hdentry hkind hnode hstatus => exact absurd hstatus hreturned
  | noNodePath root halloc hdentry hkind hnode hnodePath hstatus hhead =>
      have hempty : (serve head (.getroot args env)).head = some [] := hhead
      have htable : tableOf (some []) = 0 := zero_nsmul entryCost
      rw [getroot_made head halloc hdentry hkind hnode, hempty, htable, hnodePath]
      rfl
  | added root halloc hdentry hkind hnode hnodePath hstatus hhead =>
      have hone : (serve head (.getroot args env)).head = some [rootNode args env root] := hhead
      have htable : tableOf (some [rootNode args env root]) = entryCost := one_nsmul entryCost
      rw [getroot_made head halloc hdentry hkind hnode, hone, htable, if_pos hnodePath]

end Getroot

section Lookup

variable {nodes : List Node} {args : LookupArgs} {env : LookupEnv}

theorem lookupOps_found {node : Node} {inode : Inode} (hfound : LookupResolved nodes args env node inode) :
    lookupOps (some nodes) args env = answeredOps .path .nd (lookupText node args)
      (lookupAnswer node args env).errno
      (if (findNode nodes inode.ino).isSome then putAndFree else entryOps env.nodeAlloc env.nodePathAlloc) := by
  have hanswer : (env.pathLookup (node.path ++ args.filename.bytes)).dentry = some inode := hfound.hdentry
  simp only [lookupOps, hfound.hfind, hfound.hpath, hfound.hnd, lookupPath_cstr, hanswer, Bool.true_eq_false,
    if_false]
  rfl

/-- Before the path lookup LOOKUP has at most its first buffer, and frees it. -/
theorem lookupOps_early (hearly : findNode nodes (args.fh.ino args.after) = none ∨ env.pathAlloc = false ∨
    env.ndAlloc = false) :
    lookupOps (some nodes) args env = [] ∨ lookupOps (some nodes) args env = [.kmalloc .path false] ∨
      lookupOps (some nodes) args env = [.kmalloc .path true, .kmalloc .nd false, .kfree .path] := by
  simp only [lookupOps]
  cases hfind : findNode nodes (args.fh.ino args.after) with
  | none => exact Or.inl rfl
  | some node =>
      cases hpath : env.pathAlloc with
      | false => exact Or.inr (Or.inl rfl)
      | true =>
          have hnd : env.ndAlloc = false := by simpa [hfind, hpath] using hearly
          right
          right
          simp only [hnd, Bool.true_eq_false, if_false, if_true]

theorem lookup_loss {head : Head} {ops : List KernelOp} (hops : lookupOps head args env = ops) :
    loss head (.lookup args env) = ops.count (.kmalloc .nodePath false) • Pi.single .node 1 -
      ops.countP KernelOp.lookupFails • pathRef := by
  rw [← hops]
  change 0 • entryCost + _ - _ = _
  rw [zero_nsmul, zero_add]
  rfl

theorem lookup_early_account (hearly : findNode nodes (args.fh.ino args.after) = none ∨ env.pathAlloc = false ∨
    env.ndAlloc = false) : balance (lookupOps (some nodes) args env) = loss (some nodes) (.lookup args env) := by
  obtain hops | hops | hops := lookupOps_early hearly
  · rw [lookup_loss hops, hops]
    simp [balance]
  · rw [lookup_loss hops, hops]
    simp [balance, KernelOp.effect, KernelOp.lookupFails]
  · rw [lookup_loss hops, hops]
    simp [balance, KernelOp.effect, KernelOp.lookupFails]

/-- A lookup that gets to its entry. -/
theorem lookup_made {node : Node} {inode : Inode} (hfound : LookupResolved nodes args env node inode)
    (hnew : findNode nodes inode.ino = none) (hnode : env.nodeAlloc = true) :
    balance (lookupOps (some nodes) args env) =
      (if env.nodePathAlloc = true then entryCost else 0) + loss (some nodes) (.lookup args env) := by
  have hops := lookupOps_found hfound
  rw [hnew, hnode] at hops
  simp only [Option.isSome_none, Bool.false_eq_true, if_false] at hops
  rw [lookup_loss hops, hops, (answeredOps_account (Or.inr ⟨rfl, rfl⟩) _ _).2, answeredOps_count,
    (entryOps_counts _).1]
  cases env.nodePathAlloc with
  | false =>
      simp only [Bool.false_eq_true, if_false, one_nsmul, zero_add]
  | true =>
      simp only [if_true, zero_nsmul]
      abel

theorem lookup_account {head : Head} (hreturned : (serve head (.lookup args env)).status ≠ none) :
    balance (lookupOps head args env) =
      tableOf (serve head (.lookup args env)).head - tableOf head + loss head (.lookup args env) := by
  cases head with
  | none => exact absurd rfl hreturned
  | some nodes =>
      cases lookup_exit nodes args zeroFh env with
      | unknown hfind hstatus hhead =>
          have hsame : (serve (some nodes) (.lookup args env)).head = some nodes := hhead
          rw [hsame, sub_self, zero_add, lookup_early_account (Or.inl hfind)]
      | noPath node hfind hpath hstatus hhead =>
          have hsame : (serve (some nodes) (.lookup args env)).head = some nodes := hhead
          rw [hsame, sub_self, zero_add, lookup_early_account (Or.inr (Or.inl hpath))]
      | noNd node hfind hpath hnd hstatus hhead =>
          have hsame : (serve (some nodes) (.lookup args env)).head = some nodes := hhead
          rw [hsame, sub_self, zero_add, lookup_early_account (Or.inr (Or.inr hnd))]
      | noDentry _ _ _ _ _ hstatus => exact absurd hstatus hreturned
      | known node inode hfound hknown hstatus hhead =>
          have hsame : (serve (some nodes) (.lookup args env)).head = some nodes := hhead
          have hops := lookupOps_found hfound
          rw [if_pos hknown] at hops
          rw [hsame, sub_self, zero_add, lookup_loss hops, hops, (answeredOps_account (Or.inr ⟨rfl, rfl⟩) _ _).1,
            answeredOps_count, putAndFree_counts.1, zero_nsmul]
          exact (zero_sub _).symm
      | noNode _ _ _ _ _ hstatus => exact absurd hstatus hreturned
      | noNodePath node inode hfound hnew hnode hnodePath hstatus hhead =>
          have hsame : (serve (some nodes) (.lookup args env)).head = some nodes := hhead
          rw [hsame, sub_self, lookup_made hfound hnew hnode, hnodePath]
          rfl
      | added node inode hfound hnew hnode hnodePath hstatus hhead =>
          have hmore : (serve (some nodes) (.lookup args env)).head =
              some (lookupNode node args env inode :: nodes) := hhead
          have htable : tableOf (some (lookupNode node args env inode :: nodes)) =
              tableOf (some nodes) + entryCost := succ_nsmul entryCost nodes.length
          rw [hmore, htable, add_sub_cancel_left, lookup_made hfound hnew hnode, if_pos hnodePath]

end Lookup

section Open

variable {File : Type} {head : Head} {fh : VsnfsFh} {after : List Byte} {env : OpenEnv File}

/-- The ways out of the open, with their operations. -/
inductive OpenWay (opened : Opened File) : List KernelOp → Prop
  | noMemory (hfile : opened.file = none) : OpenWay opened [.kmalloc .path false]
  | stopped (hfile : opened.file = none) (hstatus : opened.status = none) : OpenWay opened [.kmalloc .path true]
  | unresolved (hfile : opened.file = none) : OpenWay opened [.kmalloc .path true, .kfree .path]
  | refused (text : List Byte) (errno : Int) (hneg : errno < 0) (hfile : opened.file = none) :
      OpenWay opened [.kmalloc .path true, .filpOpen text errno, .kfree .path]
  | opened (text : List Byte) (file : File) (hfile : opened.file = some file) :
      OpenWay opened [.kmalloc .path true, .filpOpen text 0, .kfree .path]

theorem openOps_way : OpenWay (vsnfsdOpen head fh after env) (openOps head fh after env) := by
  rw [vsnfsdOpen, openOps]
  by_cases hpath : env.pathAlloc = false
  · rw [if_pos hpath, if_pos hpath, hpath]
    exact .noMemory rfl
  · rw [if_neg hpath, if_neg hpath]
    rw [Bool.not_eq_false] at hpath
    rw [hpath]
    cases vsnfsdFhToPath head fh after (Buffer.alloc vsnfsMaxpathlen env.junk) vsnfsMaxpathlen with
    | none => exact .stopped rfl rfl
    | some resolved =>
        by_cases hret : resolved.1 ≠ 0
        · simp only [if_pos hret]
          exact .unresolved rfl
        · simp only [if_neg hret]
          cases env.filpOpen resolved.2.cstr with
          | error failure => exact .refused _ _ failure.hneg rfl
          | ok file => exact .opened _ file rfl

/-- The open leaves the file, if there is one. -/
theorem openOps_account (hreturned : (vsnfsdOpen head fh after env).status ≠ none) :
    balance (openOps head fh after env) =
        (if (vsnfsdOpen head fh after env).file.isSome then Pi.single .file 1 else 0) ∧
      (openOps head fh after env).count (.kmalloc .nodePath false) = 0 ∧
      (openOps head fh after env).countP KernelOp.lookupFails = 0 := by
  have hway : OpenWay (vsnfsdOpen head fh after env) (openOps head fh after env) := openOps_way
  generalize openOps head fh after env = ops at hway ⊢
  cases hway with
  | noMemory hfile => exact ⟨by simp [hfile, balance, KernelOp.effect], rfl, rfl⟩
  | stopped _ hstatus => exact absurd hstatus hreturned
  | unresolved hfile => exact ⟨by simp [hfile, balance, KernelOp.effect], rfl, rfl⟩
  | refused text errno hneg hfile => exact ⟨by simp [hfile, hneg, balance, KernelOp.effect], rfl, rfl⟩
  | opened text file hfile => exact ⟨by simp [hfile, balance, KernelOp.effect], rfl, rfl⟩

/-- A use of the file that takes nothing leaves nothing open and loses nothing. -/
theorem usedOps_account (hreturned : (vsnfsdOpen head fh after env).status ≠ none) (use : File → KernelOp)
    (heffect : ∀ file, (use file).effect = 0) (hcount : ∀ file, use file ≠ .kmalloc .nodePath false)
    (hfails : ∀ file, (use file).lookupFails = false) :
    balance (usedOps head fh after env use) = 0 ∧
      (usedOps head fh after env use).count (.kmalloc .nodePath false) = 0 ∧
      (usedOps head fh after env use).countP KernelOp.lookupFails = 0 := by
  obtain ⟨hopen, hnone, hquiet⟩ := openOps_account hreturned
  rw [usedOps, balance_append, List.count_append, List.countP_append, hopen, hnone, hquiet]
  cases (vsnfsdOpen head fh after env).file with
  | none => exact ⟨rfl, rfl, rfl⟩
  | some file =>
      refine ⟨?_, ?_, ?_⟩
      · rw [balance_cons, heffect]
        simp [balance, KernelOp.effect]
      · simp [hcount]
      · rw [List.countP_cons, hfails]
        rfl

end Open

theorem readdir_account {head : Head} {args : ReaddirArgs} {env : ReaddirEnv}
    (hreturned : (serve head (.readdir args env)).status ≠ none) :
    balance (readdirOps head args env) = 0 ∧ loss head (.readdir args env) = 0 := by
  have hopened : (vsnfsdOpen head args.fh args.after env.opening).status ≠ none := by
    rw [Ne, open_stopped_iff, ← readdir_stopped_iff]
    exact hreturned
  obtain ⟨hbalance, hcount, hcountP⟩ := usedOps_account hopened (fun _ => .vfsReaddir env.ret)
    (fun _ => rfl) (fun _ => KernelOp.noConfusion) (fun _ => rfl)
  refine ⟨hbalance, ?_⟩
  change 0 • entryCost + (readdirOps head args env).count _ • _ - (readdirOps head args env).countP _ • _ = _
  rw [readdirOps, hcount, hcountP]
  simp

theorem read_account {head : Head} {args : ReadArgs} {env : ReadEnv}
    (hreturned : (serve head (.read args env)).status ≠ none) :
    balance (readOps head args env) = 0 ∧ loss head (.read args env) = 0 := by
  have hopened : (vsnfsdOpen head args.fh args.after env.opening).status ≠ none := by
    rw [Ne, open_stopped_iff, ← read_stopped_iff]
    exact hreturned
  obtain ⟨hbalance, hcount, hcountP⟩ := usedOps_account hopened
    (fun file => .vfsRead (env.vfsRead file args.count env.stack.toInt).ret)
    (fun _ => rfl) (fun _ => KernelOp.noConfusion) (fun _ => rfl)
  refine ⟨hbalance, ?_⟩
  change 0 • entryCost + (readOps head args env).count _ • _ - (readOps head args env).countP _ • _ = _
  rw [readOps, hcount, hcountP]
  simp

/-- **A request that returns** has taken what the table holds more after it, and what it loses. -/
theorem event_account {head : Head} {event : Event} (hreturned : (serve head event).status ≠ none) :
    balance (eventOps head event) = tableOf (serve head event).head - tableOf head + loss head event := by
  cases event with
  | null dummy =>
      have hsame : (serve head (.null dummy)).head = head := rfl
      rw [hsame, sub_self, zero_add]
      simp [loss, forgotten, orphaned, missed, eventOps, balance]
  | getroot args env => exact getroot_account hreturned
  | lookup args env => exact lookup_account hreturned
  | readdir args env =>
      have hsame : (serve head (.readdir args env)).head = head := readdir_head head args env
      obtain ⟨hbalance, hloss⟩ := readdir_account hreturned
      rw [hsame, sub_self, zero_add, hloss]
      exact hbalance
  | read args env =>
      have hsame : (serve head (.read args env)).head = head := read_head head args env
      obtain ⟨hbalance, hloss⟩ := read_account hreturned
      rw [hsame, sub_self, zero_add, hloss]
      exact hbalance

/-! ### Nothing is freed twice -/

/-- What an operation frees. -/
def KernelOp.gives : KernelOp → Option Taken
  | .kfree what => some what
  | .filpClose => some .file
  | _ => none

/-- Memory and files are freed only while they are held; `held` is the account before the operations. -/
def GivesOwn : (Taken → Int) → List KernelOp → Prop
  | _, [] => True
  | held, op :: ops => (∀ what ∈ op.gives, 0 < held what) ∧ GivesOwn (held + op.effect) ops

theorem putAndFree_givesOwn {held : Taken → Int} (hnd : 0 < held .nd) (hpath : 0 < held .path) :
    GivesOwn held putAndFree := by
  simpa [putAndFree, GivesOwn, KernelOp.gives, KernelOp.effect] using ⟨hnd, hpath⟩

theorem entryOps_givesOwn {held : Taken → Int} (hnd : 0 < held .nd) (hpath : 0 < held .path)
    (nodeAlloc nodePathAlloc : Bool) : GivesOwn held (entryOps nodeAlloc nodePathAlloc) := by
  cases nodeAlloc with
  | false => simp [entryOps, GivesOwn, KernelOp.gives]
  | true =>
      refine ⟨by simp [KernelOp.gives], by simp [KernelOp.gives], putAndFree_givesOwn ?_ ?_⟩
      · cases nodePathAlloc <;> simpa [KernelOp.effect] using hnd
      · cases nodePathAlloc <;> simpa [KernelOp.effect] using hpath

/-- An answered request frees its two buffers, behind whatever it does with its entry. -/
theorem answeredOps_givesOwn {first second : Taken}
    (hbuffers : first = .nd ∧ second = .path ∨ first = .path ∧ second = .nd) (path : List Byte) (errno : Int)
    {more : List KernelOp} (hmore : ∀ held : Taken → Int, 0 < held .nd → 0 < held .path → GivesOwn held more) :
    GivesOwn 0 (answeredOps first second path errno more) := by
  have hanswer : ∀ what, what = .nd ∨ what = .path → (KernelOp.pathLookup path errno).effect what = 0 := by
    rintro what (rfl | rfl) <;> simp only [KernelOp.effect] <;> split <;> rfl
  refine ⟨by simp [KernelOp.gives], by simp [KernelOp.gives], by simp [KernelOp.gives], by simp [KernelOp.gives],
    by simp [KernelOp.gives], hmore _ ?_ ?_⟩
  · obtain ⟨rfl, rfl⟩ | ⟨rfl, rfl⟩ := hbuffers <;>
      simp only [Pi.add_apply, hanswer _ (Or.inl rfl)] <;> decide
  · obtain ⟨rfl, rfl⟩ | ⟨rfl, rfl⟩ := hbuffers <;>
      simp only [Pi.add_apply, hanswer _ (Or.inr rfl)] <;> decide

theorem getrootOps_givesOwn (args : GetrootArgs) (env : GetrootEnv) : GivesOwn 0 (getrootOps args env) := by
  by_cases halloc : env.ndAlloc = true ∧ env.pathAlloc = true
  · cases hdentry : (rootAnswer args env).dentry with
    | none =>
        have hanswer : (env.pathLookup (getrootPath args.path env.junk env.stray).cstr).dentry = none := hdentry
        simp [getrootOps, halloc.1, halloc.2, hanswer, GivesOwn, KernelOp.gives]
    | some root =>
        rw [getrootOps_found halloc hdentry]
        refine answeredOps_givesOwn (Or.inl ⟨rfl, rfl⟩) _ _ fun held hnd hpath => ?_
        split
        · exact putAndFree_givesOwn hnd hpath
        · exact entryOps_givesOwn hnd hpath _ _
  · obtain hops | hops := getrootOps_noMemory args halloc
    · rw [hops]
      simp [GivesOwn, KernelOp.gives]
    · rw [hops]
      simp [GivesOwn, KernelOp.gives, KernelOp.effect]

theorem lookupOps_givesOwn (head : Head) (args : LookupArgs) (env : LookupEnv) :
    GivesOwn 0 (lookupOps head args env) := by
  cases head with
  | none => trivial
  | some nodes =>
      by_cases hearly : findNode nodes (args.fh.ino args.after) = none ∨ env.pathAlloc = false ∨
          env.ndAlloc = false
      · obtain hops | hops | hops := lookupOps_early hearly <;> rw [hops] <;>
          simp [GivesOwn, KernelOp.gives, KernelOp.effect]
      · rw [not_or, not_or, Bool.not_eq_false, Bool.not_eq_false] at hearly
        obtain ⟨hfind, hpath, hnd⟩ := hearly
        obtain ⟨node, hnode⟩ := Option.ne_none_iff_exists'.mp hfind
        cases hdentry : (lookupAnswer node args env).dentry with
        | none =>
            have hanswer : (env.pathLookup (node.path ++ args.filename.bytes)).dentry = none := hdentry
            simp [lookupOps, hnode, hpath, hnd, lookupPath_cstr, hanswer, GivesOwn, KernelOp.gives]
        | some inode =>
            rw [lookupOps_found ⟨hnode, hpath, hnd, hdentry⟩]
            refine answeredOps_givesOwn (Or.inr ⟨rfl, rfl⟩) _ _ fun held hnd hpath => ?_
            split
            · exact putAndFree_givesOwn hnd hpath
            · exact entryOps_givesOwn hnd hpath _ _

theorem usedOps_givesOwn {File : Type} (head : Head) (fh : VsnfsFh) (after : List Byte) (env : OpenEnv File)
    (use : File → KernelOp) (hgives : ∀ file, (use file).gives = none) (heffect : ∀ file, (use file).effect = 0) :
    GivesOwn 0 (usedOps head fh after env use) := by
  have hway : OpenWay (vsnfsdOpen head fh after env) (openOps head fh after env) := openOps_way
  rw [usedOps]
  generalize openOps head fh after env = ops at hway ⊢
  cases hway with
  | noMemory hfile => simp [hfile, GivesOwn, KernelOp.gives]
  | stopped hfile => simp [hfile, GivesOwn, KernelOp.gives]
  | unresolved hfile => simp [hfile, GivesOwn, KernelOp.gives, KernelOp.effect]
  | refused text errno hneg hfile => simp [hfile, hneg, GivesOwn, KernelOp.gives, KernelOp.effect]
  | opened text file hfile =>
      rw [hfile]
      refine ⟨by simp [KernelOp.gives], by simp [KernelOp.gives], ?_, by simp [hgives], ?_, trivial⟩
      · rintro what ⟨⟩
        simp [KernelOp.effect]
      · rintro what ⟨⟩
        rw [heffect]
        simp [KernelOp.effect]

/-- **No request frees twice**, or closes twice, or frees what it has not allocated. -/
theorem eventOps_givesOwn (head : Head) (event : Event) : GivesOwn 0 (eventOps head event) := by
  cases event with
  | null dummy => trivial
  | getroot args env => exact getrootOps_givesOwn args env
  | lookup args env => exact lookupOps_givesOwn head args env
  | readdir args env => exact usedOps_givesOwn _ _ _ _ _ (fun _ => rfl) (fun _ => rfl)
  | read args env => exact usedOps_givesOwn _ _ _ _ _ (fun _ => rfl) (fun _ => rfl)

/-! ### Runs -/

/-- What the next request does to the account. -/
def change (server : Server) (event : Event) : Taken → Int :=
  if server.down then 0 else balance (eventOps server.head event)

/-- What it loses. -/
def lost (server : Server) (event : Event) : Taken → Int :=
  if server.down then 0 else loss server.head event

/-- The amounts of one resource along a run. -/
theorem sumAlong_apply (gain : Server → Event → Taken → Int) (server : Server) (events : List Event)
    (what : Taken) : sumAlong step gain server events what =
      sumAlong step (fun server event => gain server event what) server events :=
  map_sumAlong (Pi.evalAddMonoidHom (fun _ => Int) what) server events

/-- The buffers and the files are no part of the table, and none of them is lost. -/
theorem buffers_free {what : Taken} (hwhat : what = .path ∨ what = .nd ∨ what = .file) :
    (∀ head, tableOf head what = 0) ∧ ∀ server event, lost server event what = 0 := by
  have hentry : entryCost what = 0 := by
    obtain rfl | rfl | rfl := hwhat <;> rfl
  have hnode : (Pi.single .node 1 : Taken → Int) what = 0 := by
    obtain rfl | rfl | rfl := hwhat <;> rfl
  have hpath : pathRef what = 0 := by
    obtain rfl | rfl | rfl := hwhat <;> rfl
  refine ⟨fun head => ?_, fun server event => ?_⟩
  · simp only [tableOf, Pi.smul_apply, hentry, nsmul_zero]
  · rw [lost]
    split
    · rfl
    · simp only [loss, Pi.add_apply, Pi.sub_apply, Pi.smul_apply, hentry, hnode, hpath, nsmul_zero, add_zero,
        sub_zero]

/-- As long as no request was stopped, the account is the memory of the table and the losses. -/
theorem run_account {events : List Event} (hup : (runFrom step Server.load events).down = false) :
    sumAlong step change Server.load events =
      tableOf (runFrom step Server.load events).head + sumAlong step lost Server.load events := by
  have hsheet : Along step (fun server event => change server event =
      tableOf (step server event).head - tableOf server.head + lost server event) Server.load events := by
    refine Along.imp_of_invariant (I := fun _ => True) (fun _ _ _ _ => trivial) ?_ trivial (along_returned rfl hup)
    rintro server event - ⟨hserver, hreturned⟩
    have hnext : (step server event).head = (serve server.head event).head := by
      rw [step, if_neg (by rw [hserver]; decide)]
    rw [change, lost, hserver, hnext]
    exact event_account hreturned
  have hsum := sumAlong_worth (fun server : Server => tableOf server.head) hsheet
  have hempty : tableOf Server.load.head = 0 := zero_nsmul entryCost
  rw [hempty, sub_zero] at hsum
  exact hsum

/-- **The account of a run.** As long as no request was stopped, what the server has taken and not given back is
the memory of its table and what the requests have lost; each of its buffers is free again and each file is
closed. The next request, whatever it is, makes the calls of its handler and frees nothing but what it has
taken itself. -/
theorem server_keeps_account (events : List Event) (hup : (runFrom step Server.load events).down = false) :
    sumAlong step change Server.load events =
        tableOf (runFrom step Server.load events).head + sumAlong step lost Server.load events ∧
      (∀ what, what = .path ∨ what = .nd ∨ what = .file → sumAlong step change Server.load events what = 0) ∧
      ∀ event, (eventOps (runFrom step Server.load events).head event).filterMap KernelOp.extCall =
          (serve (runFrom step Server.load events).head event).calls ∧
        GivesOwn 0 (eventOps (runFrom step Server.load events).head event) := by
  have hsum := run_account hup
  refine ⟨hsum, fun what hwhat => ?_, fun event => ⟨eventOps_calls _ event, eventOps_givesOwn _ event⟩⟩
  obtain ⟨htable, hlost⟩ := buffers_free hwhat
  rw [hsum, Pi.add_apply, htable, zero_add, sumAlong_apply]
  refine sumAlong_of_zero (along_of_invariant (I := fun _ => True) (fun _ _ _ => trivial) ?_ trivial events)
  exact fun server event _ => hlost server event

/-! ### The end of the service -/

/-- What `vsnfsd_last_thread` does with the entries it frees. -/
def lastThreadOps (freed : List Node) : List KernelOp := freed.flatMap fun _ => [.kfree .nodePath, .kfree .node]

theorem lastThreadOps_balance (freed : List Node) :
    balance (lastThreadOps freed) = -(freed.length • entryCost) := by
  induction freed with
  | nil => simp [lastThreadOps, balance]
  | cons node freed ih =>
      have hops : lastThreadOps (node :: freed) = .kfree .nodePath :: .kfree .node :: lastThreadOps freed := rfl
      rw [hops, balance_cons, balance_cons, ih, List.length_cons, succ_nsmul]
      simp only [KernelOp.effect, entryCost]
      abel

/-- The request gives back whatever it takes, but for what the table gets: a mount meets an empty table, the path
of a new entry can be allocated, and the path lookup succeeds. -/
structure GivesBack (server : Server) (event : Event) : Prop where
  mounts : ∀ args env root, event = .getroot args env → env.ndAlloc = true ∧ env.pathAlloc = true →
    (rootAnswer args env).dentry = some root → root.kind ≠ .reg → server.head.entries = []
  paths : .kmalloc .nodePath false ∉ eventOps server.head event
  lookups : ∀ text errno, .pathLookup text errno ∈ eventOps server.head event → 0 ≤ errno

/-- GETROOT gets to its node when it has its memory and has found something that is no regular file. -/
theorem node_mem_getrootOps_iff (args : GetrootArgs) (env : GetrootEnv) :
    .kmalloc .node env.nodeAlloc ∈ getrootOps args env ↔ (env.ndAlloc = true ∧ env.pathAlloc = true) ∧
      ∃ root, (rootAnswer args env).dentry = some root ∧ root.kind ≠ .reg := by
  by_cases halloc : env.ndAlloc = true ∧ env.pathAlloc = true
  · rw [and_iff_right halloc]
    cases hdentry : (rootAnswer args env).dentry with
    | none =>
        have hanswer : (env.pathLookup (getrootPath args.path env.junk env.stray).cstr).dentry = none := hdentry
        simp [getrootOps, halloc.1, halloc.2, hanswer]
    | some root =>
        rw [getrootOps_found halloc hdentry]
        by_cases hkind : root.kind = .reg
        · simp [hkind, answeredOps, putAndFree]
        · simp [hkind, answeredOps, entryOps]
  · refine iff_of_false (fun hmem => ?_) fun h => halloc h.1
    obtain hops | hops := getrootOps_noMemory args halloc
    · rw [hops] at hmem
      simp at hmem
    · rw [hops] at hmem
      simp at hmem

theorem forgotten_eq_zero_iff (head : Head) (event : Event) :
    forgotten head event = 0 ↔ ∀ args env root, event = .getroot args env →
      env.ndAlloc = true ∧ env.pathAlloc = true → (rootAnswer args env).dentry = some root → root.kind ≠ .reg →
        head.entries = [] := by
  constructor
  · rintro hzero args env root rfl halloc hdentry hkind
    rw [forgotten, if_pos ((node_mem_getrootOps_iff args env).mpr ⟨halloc, root, hdentry, hkind⟩)] at hzero
    exact List.eq_nil_of_length_eq_zero hzero
  · intro hempty
    cases event with
    | getroot args env =>
        rw [forgotten]
        split
        · rename_i hmem
          obtain ⟨halloc, root, hdentry, hkind⟩ := (node_mem_getrootOps_iff args env).mp hmem
          rw [hempty args env root rfl halloc hdentry hkind]
          rfl
        · rfl
    | null dummy => rfl
    | lookup args env => rfl
    | readdir args env => rfl
    | read args env => rfl

theorem missed_eq_zero_iff (head : Head) (event : Event) :
    missed head event = 0 ↔ ∀ text errno, .pathLookup text errno ∈ eventOps head event → 0 ≤ errno := by
  rw [missed, List.countP_eq_zero]
  constructor
  · intro hnone text errno hmem
    have hfails := hnone _ hmem
    simpa [KernelOp.lookupFails] using hfails
  · intro hsucceed op hmem
    cases op with
    | pathLookup text errno => simpa [KernelOp.lookupFails] using hsucceed text errno hmem
    | _ => exact Bool.false_ne_true

/-- Nodes less dentries: what makes every loss count as a positive number. -/
def lossWeight : (Taken → Int) →+ Int :=
  Pi.evalAddMonoidHom (fun _ => Int) .node - Pi.evalAddMonoidHom (fun _ => Int) .dentry

theorem lossWeight_loss (head : Head) (event : Event) :
    lossWeight (loss head event) = (forgotten head event + orphaned head event + missed head event : Nat) := by
  simp [lossWeight, loss, entryCost, pathRef]

theorem lossWeight_lost_nonneg (server : Server) (event : Event) : 0 ≤ lossWeight (lost server event) := by
  rw [lost]
  split
  · exact (map_zero lossWeight).ge
  · rw [lossWeight_loss]
    exact Int.natCast_nonneg _

theorem givesBack_iff {server : Server} {event : Event} (hup : server.down = false) :
    lossWeight (lost server event) = 0 ↔ GivesBack server event := by
  rw [lost, hup, if_neg Bool.false_ne_true, lossWeight_loss, Int.natCast_eq_zero, Nat.add_eq_zero_iff,
    Nat.add_eq_zero_iff, forgotten_eq_zero_iff, missed_eq_zero_iff, orphaned, List.count_eq_zero]
  constructor
  · rintro ⟨⟨hmounts, hpaths⟩, hlookups⟩
    exact ⟨hmounts, hpaths, hlookups⟩
  · rintro ⟨hmounts, hpaths, hlookups⟩
    exact ⟨⟨hmounts, hpaths⟩, hlookups⟩

theorem lost_eq_zero_iff {server : Server} {event : Event} (hup : server.down = false) :
    lost server event = 0 ↔ GivesBack server event := by
  constructor
  · intro hlost
    rw [← givesBack_iff hup, hlost, map_zero]
  · intro hgives
    have hweight := (givesBack_iff hup).mpr hgives
    rw [lost, hup, if_neg Bool.false_ne_true] at hweight ⊢
    rw [lossWeight_loss] at hweight
    obtain ⟨hforgotten, horphaned, hmissed⟩ :
        forgotten server.head event = 0 ∧ orphaned server.head event = 0 ∧ missed server.head event = 0 := by
      omega
    rw [loss, hforgotten, horphaned, hmissed, zero_nsmul, zero_nsmul, zero_nsmul, add_zero, sub_zero]

/-- **When nothing is lost.** After a run and the shutdown, everything is given back, neither more nor less,
exactly if every request of the run has given back its own. -/
theorem nothing_lost_iff (events : List Event) (hup : (runFrom step Server.load events).down = false)
    (freed : List Node) (head : Head)
    (hend : vsnfsdLastThread (runFrom step Server.load events).head = some (freed, head)) :
    sumAlong step change Server.load events + balance (lastThreadOps freed) = 0 ↔
      Along step GivesBack Server.load events := by
  have htable : tableOf (runFrom step Server.load events).head = freed.length • entryCost := by
    rw [lastThread_eq, Option.map_eq_some_iff] at hend
    obtain ⟨nodes, hnodes, hpair⟩ := hend
    cases hpair
    rw [hnodes]
    rfl
  have hreturned := along_returned rfl hup
  have hweights : Along step (fun server event => lossWeight (lost server event) = 0) Server.load events ↔
      Along step GivesBack Server.load events := hreturned.congr fun _ _ hboth => givesBack_iff hboth.1
  have hlosses : Along step (fun server event => lost server event = 0) Server.load events ↔
      Along step GivesBack Server.load events := hreturned.congr fun _ _ hboth => lost_eq_zero_iff hboth.1
  rw [run_account hup, lastThreadOps_balance, htable, add_neg_eq_zero, add_eq_left]
  constructor
  · intro hzero
    rw [← hweights, ← sumAlong_eq_zero_iff lossWeight_lost_nonneg, ← map_sumAlong, hzero, map_zero]
  · intro hgives
    exact sumAlong_of_zero (hlosses.mpr hgives)

/-! ### Two mounts of `/a` -/

def mountOfA : Event := .getroot ⟨pathA⟩ (GetrootEnv.answering (.found ⟨5, .dir⟩))

theorem mountOfA_ops (head : Head) : eventOps head mountOfA =
    answeredOps .nd .path [slash, 0x61, slash] 0 (entryOps true true) := by rfl

/-- Two mounts: the table has one entry, and the account two. -/
theorem two_mounts_account : (runFrom step Server.load [mountOfA, mountOfA]).head = some [firstRoot] ∧
    sumAlong step change Server.load [mountOfA, mountOfA] =
      entryCost + sumAlong step lost Server.load [mountOfA, mountOfA] ∧
    sumAlong step lost Server.load [mountOfA, mountOfA] .node = 1 := by
  refine ⟨by decide, ?_, by decide⟩
  have htable : tableOf (some [firstRoot]) = entryCost := one_nsmul entryCost
  have haccount := (server_keeps_account [mountOfA, mountOfA] (by decide)).1
  rw [htable.symm]
  exact haccount

theorem mountOfA_givesBack_iff (server : Server) : GivesBack server mountOfA ↔ server.head.entries = [] := by
  constructor
  · intro hgives
    exact hgives.mounts _ _ ⟨5, .dir⟩ rfl ⟨rfl, rfl⟩ (by decide) (by decide)
  · intro hempty
    refine ⟨fun _ _ _ _ _ _ _ => hempty, ?_, ?_⟩
    · rw [mountOfA_ops]
      decide
    · intro text errno hmem
      rw [mountOfA_ops] at hmem
      have hanswer : text = [slash, 0x61, slash] ∧ errno = 0 := by
        simpa [answeredOps, entryOps, putAndFree] using hmem
      exact hanswer.2.ge

/-- After one mount the shutdown gives back everything, after a second one it does not. -/
theorem second_mount_loses :
    sumAlong step change Server.load [mountOfA] + balance (lastThreadOps [firstRoot]) = 0 ∧
      sumAlong step change Server.load [mountOfA, mountOfA] + balance (lastThreadOps [firstRoot]) ≠ 0 := by
  refine ⟨?_, fun hzero => ?_⟩
  · refine (nothing_lost_iff [mountOfA] (by decide) [firstRoot] (some []) (by decide)).mpr ⟨?_, trivial⟩
    exact (mountOfA_givesBack_iff Server.load).mpr rfl
  · have hgives := (nothing_lost_iff [mountOfA, mountOfA] (by decide) [firstRoot] (some []) (by decide)).mp hzero
    exact absurd ((mountOfA_givesBack_iff _).mp hgives.2.1) (by decide)

end Vsnfs
