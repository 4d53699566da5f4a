import Vsnfs.BaseNetwork
import Vsnfs.RpcCalls

/-! Any number of mounts against one server, over a network that loses, repeats and reorders messages. The
server keeps no replies, so a repeated call is served again, from the table it then has; a mount by one
client empties the table under all the others, and a mount whose path lookup has failed may fill it with a
path that leads nowhere. Over a fixed tree of files the inodes that the clients have cached stay true through
all of this, and a handle that has become stale is not taken for another object's. -/

namespace Vsnfs

open Base

/-! ### The parties -/

section Tree

variable {Object : Type} (tree : FileTree Object) (Admits : Event → Prop)

/-- A call at a server over the tree, of one of the requests that are admitted. The kernel's answers may be
others each time, also for a repeated message. -/
inductive ServesOver (server : Server) (message : RpcMessage) : Server → Option (List Byte) → Prop where
  | mk (arrival : Arrival) (hmem : HoldsAt arrival.mem 0 message.body) (hroom : HeadRoom arrival.svc)
      (hadmits : ∀ args, pcDecode message.proc arrival.mem message.body.length arrival.after = some args →
        Admits (args.event arrival.kernel))
      (hanswers : ∀ args, pcDecode message.proc arrival.mem message.body.length arrival.after = some args →
        ∀ pathLookup ∈ (args.event arrival.kernel).pathLookup,
          tree.Answers pathLookup ∧ SmallErrnos pathLookup) :
      ServesOver server message (serveCall arrival server message).1 (serveCall arrival server message).2

/-- What a mount or a lookup of one client makes of a reply. A new inode of the kernel has no handle. -/
inductive TakesReply (cache : InodeCache) (message : RpcMessage) (results : List Byte) : InodeCache → Prop where
  | mount (rephdr : Nat) (path : PathName) (hmessage : message = (ClientArgs.getrootargs path).message rephdr)
      (resp fh : VsnfsFh) (hreply : vsnfsProcGetroot (fun _ => results) path.bytes resp = some (0, fh))
      (after : List Byte) (alloc : Option ClientInode) (halloc : ∀ inode ∈ alloc, inode.iPrivate = none) :
      TakesReply cache message results (vsnfsFhget cache fh after alloc).2
  | lookup (rephdr : Nat) (dirFh : VsnfsFh) (name : FileName)
      (hmessage : message = (ClientArgs.lookupargs dirFh name).message rephdr)
      (call : LookupCall) (hdir : call.dir.iPrivate = some dirFh) (hname : call.name = name.bytes)
      (hrpc : call.rpc (vsnfsXdrLookupargs dirFh call.name) = results)
      (halloc : ∀ inode ∈ call.inodeAlloc, inode.iPrivate = none)
      (lookup : ClientLookup) (hlookup : vsnfsLookup cache call = some lookup) :
      TakesReply cache message results lookup.cache

/-- The mounts and the server. Anything may be sent to the server, the kernel of a client may drop any
inode from its cache, and the caches change otherwise only by the replies to mounts and lookups. -/
def vsnfsExchange : Exchange InodeCache Server RpcMessage (List Byte) where
  moves cache cache' := ∃ ino, cache' = cache.store ino none
  asks _ _ := True
  serves server message server' results := ServesOver tree Admits server message server' results
  takes cache message results cache' := TakesReply cache message results cache'

/-- All mounts begin with an empty cache, and the server with its module. -/
def vsnfsStart (Client : Type) : Net Client InodeCache Server RpcMessage (List Byte) :=
  Net.start (fun _ => noInodes) Server.load

/-! ### What is true of inodes and handles -/

/-- The type that stands for a kind of object in a handle. -/
def kindType : FileKind → Word
  | .reg => vsnfsReg
  | .dir => vsnfsDir
  | .other => 0

/-- A handle of an object, or one that reads as number 0 and has no type. -/
inductive TrueHandle (fh : VsnfsFh) : Prop where
  | of (object : Object) (hnumber : ∀ after, fh.ino after = (tree.inode object).ino)
      (htype : fh.type = kindType (tree.inode object).kind)
  | zero (hnumber : ∀ after, fh.ino after = 0) (htype : fh.type = 0)

/-- A cached inode of this number: a finished one of an object with the number, of the object's kind and with
a handle that spells the number; or one without a handle, for number 0 or for an object that is neither a
file nor a directory. -/
inductive TrueInode (ino : BitVec 64) (inode : ClientInode) : Prop where
  | finished (object : Object) (hnumber : (tree.inode object).ino = ino) (hserves : inode.Serves ino)
      (htyped : inode.Typed (kindType (tree.inode object).kind))
  | unfinished (hnone : inode.iPrivate = none)
      (hwhy : ino = 0 ∨ ∃ object, (tree.inode object).ino = ino ∧ (tree.inode object).kind = .other)

def TrueCache (cache : InodeCache) : Prop := ∀ ino inode, cache ino = some inode → TrueInode tree ino inode

/-- The table has no number twice, and every path in it is one of an object with its number. -/
structure TrueServer (server : Server) : Prop where
  unique : UniqueInos server.head
  good : ∀ node ∈ server.head.entries, GoodEntry tree node

/-- What the path of an entry denotes, if anything, is an object with the number of the entry. -/
def NodeTrue (node : Node) : Prop :=
  ∀ object, tree.denotes node.path = some object → (tree.inode object).ino = node.ino

/-- A path that denotes nothing does so with a slash behind it as well. -/
def FileTree.NothingBehind : Prop :=
  ∀ text, text ≠ [] → tree.denotes text = none → tree.denotes (withSlash text) = none

/-- The entries of a table, whatever the lookups behind them came to: no path is empty, and none is one of an
object with another number. -/
structure NoneAstray (server : Server) : Prop where
  nonempty : PathsNonempty server
  nodes : ∀ node ∈ server.head.entries, NodeTrue tree node

/-- A handle that the client reads from the reply to a mount or a lookup is true. -/
def TrueReply (message : RpcMessage) (results : List Byte) : Prop :=
  message.proc = vsnfsprocGetroot ∨ message.proc = vsnfsprocLookup →
    ∀ old fh, vsnfsXdrFh results old = some (0, fh) → TrueHandle tree fh

end Tree

/-! ### Replies of the server -/

section Tree

variable {Object : Type} {tree : FileTree Object} {Admits : Event → Prop}

/-- The zeroed handle reads as number 0, whatever lies behind it. -/
theorem zeroFh_ino (after : List Byte) : zeroFh.ino after = 0 := by
  have hzero : simpleStrtoul ([] ++ 0 :: []) = 0 := by decide
  rw [← hzero]
  exact simpleStrtoul_terminated [] _ []

/-- The handle LOOKUP makes for an object of the tree. -/
theorem lookupResp_trueHandle (object : Object) : TrueHandle tree (lookupResp zeroFh (tree.inode object)) := by
  refine .of object (fun after => ?_) ?_
  · exact ((lookupResp_printed zeroFh (tree.inode object)).ino_eq_iff after).mpr (tree.hsmall object)
  · unfold lookupResp kindType
    cases (tree.inode object).kind <;> rfl

/-- The handle GETROOT makes for an object that is no regular file. -/
theorem getrootResp_trueHandle {object : Object} (hkind : (tree.inode object).kind ≠ .reg) :
    TrueHandle tree (getrootResp zeroFh (tree.inode object)) := by
  refine .of object (fun after => ?_) ?_
  · exact ((getrootResp_printed zeroFh (tree.inode object)).ino_eq_iff after).mpr (tree.hsmall object)
  · unfold getrootResp kindType
    cases hcase : (tree.inode object).kind with
    | reg => exact absurd hcase hkind
    | dir => rfl
    | other => rfl

theorem getroot_trueHandle {head : Head} {args : GetrootArgs} {env : GetrootEnv}
    (hanswers : tree.Answers env.pathLookup)
    (hok : (vsnfsdProcGetroot head args zeroFh env).status = some (vsnfserr .ok)) :
    TrueHandle tree (vsnfsdProcGetroot head args zeroFh env).resp := by
  cases getroot_exit head args zeroFh env with
  | noMemory _ h => cases h.symm.trans hok
  | noDentry _ _ h => cases h.symm.trans hok
  | notDir _ _ _ _ h => cases h.symm.trans hok
  | noNode _ _ _ _ _ h => cases h.symm.trans hok
  | noNodePath _ _ _ _ _ _ h => cases h.symm.trans hok
  | added root _ hdentry hkind _ _ hstatus _ hresp =>
      have hfound := PathLookup.eq_found (Option.some.inj (hstatus.symm.trans hok)) hdentry
      obtain ⟨object, -, rfl⟩ := hanswers.denotes_of_found hfound
      rw [hresp]
      exact getrootResp_trueHandle hkind

/-- A handle that finds no entry is answered with `vsnfs_ok` and the zeroed handle. -/
theorem lookup_unknown_resp {nodes : List Node} {args : LookupArgs} (resp : VsnfsFh) (env : LookupEnv)
    (hfind : findNode nodes (args.fh.ino args.after) = none) :
    (vsnfsdProcLookup (some nodes) args resp env).resp = resp := by
  simp only [vsnfsdProcLookup, hfind, Outcome.enter]

theorem lookup_trueHandle {head : Head} {args : LookupArgs} {env : LookupEnv}
    (hanswers : tree.Answers env.pathLookup)
    (hok : (vsnfsdProcLookup head args zeroFh env).status = some (vsnfserr .ok)) :
    TrueHandle tree (vsnfsdProcLookup head args zeroFh env).resp := by
  cases head with
  | none => cases hok
  | some nodes =>
      cases hfind : findNode nodes (args.fh.ino args.after) with
      | none =>
          rw [lookup_unknown_resp zeroFh env hfind]
          exact .zero zeroFh_ino rfl
      | some node =>
          obtain ⟨inode, hresolved, hword, hresp, -⟩ := lookup_of_ok hok hfind
          have hfound := PathLookup.eq_found hword hresolved.hdentry
          obtain ⟨object, -, rfl⟩ := hanswers.denotes_of_found hfound
          rw [hresp]
          exact lookupResp_trueHandle object

/-! ### The server keeps its part -/

theorem load_trueServer : TrueServer tree Server.load := ⟨load_uniqueInos, fun _ hnode => nomatch hnode⟩

theorem step_trueServer {server : Server} {event : Event} (h : TrueServer tree server)
    (horderly : Orderly tree server event) : TrueServer tree (step server event) :=
  ⟨step_uniqueInos server event h.unique, step_goodEntries server event h.good horderly⟩

/-- The decoded arguments of a message are those of its procedure. -/
theorem event_of_proc {proc : Nat} {mem : Nat → Byte} {length : Nat} {after : List Byte} {args : SvcArgs}
    (hproc : proc = vsnfsprocGetroot ∨ proc = vsnfsprocLookup)
    (hdecode : pcDecode proc mem length after = some args) (kernel : Kernel) :
    (∃ arguments, args.event kernel = .getroot arguments kernel.getroot) ∨
      ∃ arguments, args.event kernel = .lookup arguments kernel.lookup := by
  obtain ⟨front, hwire, -⟩ := (pcDecode_eq_some_iff mem length after proc args).mp hdecode
  cases hwire with
  | null dummy => exact absurd hproc (by decide)
  | getroot path => exact .inl ⟨_, rfl⟩
  | lookup fh filename => exact .inr ⟨_, rfl⟩
  | readdir fh count => exact absurd hproc (by decide)
  | read fh offset len => exact absurd hproc (by decide)

theorem trueReply_of_results {server : Server} {event : Event} {svc : SvcRes} {results : List Byte}
    (hroom : HeadRoom svc) (hanswers : ∀ pathLookup ∈ event.pathLookup, tree.Answers pathLookup)
    (hsmall : ∀ pathLookup ∈ event.pathLookup, SmallErrnos pathLookup)
    (hresults : resultsOf svc server.head event = some results)
    (hevent : (∃ args env, event = .getroot args env) ∨ ∃ args env, event = .lookup args env)
    {old fh : VsnfsFh} (hread : vsnfsXdrFh results old = some (0, fh)) : TrueHandle tree fh := by
  rw [resultsOf_eq hroom, Option.map_eq_some_iff] at hresults
  obtain ⟨status, hstatus, rfl⟩ := hresults
  have htruly := serve_readTruly hsmall hstatus
  obtain ⟨args, env, rfl⟩ | ⟨args, env, rfl⟩ := hevent
  · rw [resultBody, vsnfsXdrFh_results] at hread
    by_cases hok : status = vsnfserr .ok
    · rw [if_pos hok] at hread
      cases hread
      exact getroot_trueHandle (hanswers _ rfl) (hstatus.trans (congrArg some hok))
    · rw [if_neg hok] at hread
      exact absurd (htruly.mp (congrArg Prod.fst (Option.some.inj hread))) hok
  · rw [resultBody, vsnfsXdrFh_results] at hread
    by_cases hok : status = vsnfserr .ok
    · rw [if_pos hok] at hread
      cases hread
      exact lookup_trueHandle (hanswers _ rfl) (hstatus.trans (congrArg some hok))
    · rw [if_neg hok] at hread
      exact absurd (htruly.mp (congrArg Prod.fst (Option.some.inj hread))) hok

/-- **An inserted entry is not astray**, also when its path lookup has failed. -/
theorem Inserts.nodeTrue (hnothing : tree.NothingBehind) {head : Head} {event : Event} {inode : Inode} {node : Node}
    (h : Inserts head event inode node) (hpaths : ∀ node ∈ head.entries, node.path ≠ [])
    (hanswers : ∀ pathLookup ∈ event.pathLookup, tree.Answers pathLookup) : NodeTrue tree node := by
  intro object hdenotes
  cases h with
  | root args env root halloc hdentry =>
      -- the path is stored as it was looked up
      have hfound := (hanswers _ rfl).found_of_denotes hdenotes
      have hroot : (PathLookup.found (tree.inode object)).dentry = some inode := by
        rw [← hfound]
        exact hdentry
      exact congrArg Inode.ino (Option.some.inj hroot)
  | child nodes args env parent inode hhead hresolved =>
      have hparent : parent.path ≠ [] := hpaths parent (by rw [hhead]; exact mem_of_findNode hresolved.hfind)
      have hne : lookupText parent args ≠ [] := lookupText_ne_nil hparent args
      rw [lookupNode_path_eq hparent] at hdenotes
      -- a slash behind it changes nothing, and so the text denotes the object
      have htext : ∃ other, tree.denotes (lookupText parent args) = some other := by
        by_contra hnone
        have hempty := Option.eq_none_iff_forall_ne_some.mpr (not_exists.mp hnone)
        rw [storedText] at hdenotes
        split at hdenotes
        · cases hdenotes.symm.trans (hnothing _ hne hempty)
        · cases hdenotes.symm.trans hempty
      obtain ⟨other, hother⟩ := htext
      have hfound := (hanswers _ rfl).found_of_denotes hother
      have hinode : (PathLookup.found (tree.inode other)).dentry = some inode := by
        rw [← hfound]
        exact hresolved.hdentry
      obtain rfl : tree.inode other = inode := Option.some.inj hinode
      obtain rfl : other = object := Option.some.inj ((FileTree.denotes_storedText hother).symm.trans hdenotes)
      rfl

theorem load_noneAstray : NoneAstray tree Server.load := ⟨load_pathsNonempty, fun _ hnode => nomatch hnode⟩

theorem step_noneAstray (hnothing : tree.NothingBehind) {server : Server} {event : Event}
    (h : NoneAstray tree server) (hroot : event.RootNonempty)
    (hanswers : ∀ pathLookup ∈ event.pathLookup, tree.Answers pathLookup) : NoneAstray tree (step server event) := by
  refine ⟨step_pathsNonempty server event h.nonempty hroot, fun node hnode => ?_⟩
  obtain hold | ⟨inode, hinserts⟩ := step_entries server event node hnode
  · exact h.nodes node hold
  · exact hinserts.nodeTrue hnothing h.nonempty hanswers

/-- The state after a call is the old one, or the one after the request the message was decoded to. -/
theorem ServesOver.server {server server' : Server} {message : RpcMessage} {reply : Option (List Byte)}
    (hserves : ServesOver tree Admits server message server' reply) :
    server' = server ∨ ∃ event, server' = step server event ∧ Admits event ∧
      ∀ pathLookup ∈ event.pathLookup, tree.Answers pathLookup := by
  obtain ⟨arrival, hmem, hroom, hadmits, hanswers⟩ := hserves
  rw [serveCall]
  cases hdecode : pcDecode message.proc arrival.mem message.body.length arrival.after with
  | none => exact .inl rfl
  | some args =>
      simp only
      split
      · exact .inl rfl
      · exact .inr ⟨_, rfl, hadmits args hdecode, fun pathLookup hmem =>
          (hanswers args hdecode pathLookup hmem).1⟩

/-- Whatever is in the table, the reply to a call carries a true handle. -/
theorem ServesOver.reply {server server' : Server} {message : RpcMessage} {reply : Option (List Byte)}
    (hserves : ServesOver tree Admits server message server' reply) :
    ∀ results ∈ reply, TrueReply tree message results := by
  obtain ⟨arrival, hmem, hroom, -, hanswers⟩ := hserves
  rw [serveCall]
  cases hdecode : pcDecode message.proc arrival.mem message.body.length arrival.after with
  | none => exact fun _ hnone => absurd hnone (Option.not_mem_none _)
  | some args =>
      have hover := hanswers args hdecode
      simp only
      split
      · exact fun _ hnone => absurd hnone (Option.not_mem_none _)
      · intro results hresults hproc old fh hread
        refine trueReply_of_results hroom (fun pathLookup hmem => (hover pathLookup hmem).1)
          (fun pathLookup hmem => (hover pathLookup hmem).2) hresults ?_ hread
        obtain ⟨arguments, hevent⟩ | ⟨arguments, hevent⟩ := event_of_proc hproc hdecode arrival.kernel
        · exact .inl ⟨arguments, _, hevent⟩
        · exact .inr ⟨arguments, _, hevent⟩

/-! ### The clients keep theirs -/

/-- What `vsnfs_fhget` makes of a new inode. -/
theorem fhget_new {cache : InodeCache} {fh : VsnfsFh} {after : List Byte} (inode : ClientInode)
    (hnone : cache (fh.ino after) = none) :
    ∃ filled, vsnfsFhget cache fh after (some inode) = (.ok filled, cache.store (fh.ino after) (some filled)) ∧
      filled.iIno = fh.ino after ∧
      (fh.Supported → filled.iPrivate = some fh ∧ filled.Typed fh.type) ∧
      (¬ fh.Supported → filled.iPrivate = inode.iPrivate) := by
  simp only [vsnfsFhget, igetLocked, hnone]
  by_cases hreg : fh.type = vsnfsReg
  · rw [if_pos hreg]
    refine ⟨_, rfl, rfl, fun _ => ⟨rfl, .inl ⟨hreg, rfl, rfl, rfl⟩⟩, fun hnot => ?_⟩
    exact absurd (.inl hreg) hnot
  · rw [if_neg hreg]
    by_cases hdir : fh.type = vsnfsDir
    · rw [if_pos hdir]
      refine ⟨_, rfl, rfl, fun _ => ⟨rfl, .inr ⟨hdir, rfl, rfl, rfl⟩⟩, fun hnot => ?_⟩
      exact absurd (.inr hdir) hnot
    · rw [if_neg hdir]
      refine ⟨_, rfl, rfl, fun hfh => ?_, fun _ => rfl⟩
      exact absurd hfh (not_or.mpr ⟨hreg, hdir⟩)

/-- A new inode under a true handle is a true inode. -/
theorem TrueHandle.trueInode {fh : VsnfsFh} (h : TrueHandle tree fh) {after : List Byte} {inode : ClientInode}
    (hino : inode.iIno = fh.ino after)
    (hfilled : fh.Supported → inode.iPrivate = some fh ∧ inode.Typed fh.type)
    (hbare : ¬ fh.Supported → inode.iPrivate = none) : TrueInode tree (fh.ino after) inode := by
  cases h with
  | of object hnumber htype =>
      by_cases hfh : fh.Supported
      · obtain ⟨hprivate, htyped⟩ := hfilled hfh
        refine .finished object (hnumber after).symm ⟨hino, fh, hprivate, fun other => ?_, htyped⟩ (htype ▸ htyped)
        exact hfh.ino_congr other after
      · refine .unfinished (hbare hfh) (.inr ⟨object, (hnumber after).symm, ?_⟩)
        rw [VsnfsFh.Supported, htype] at hfh
        cases hkind : (tree.inode object).kind with
        | reg => exact absurd (by rw [hkind]; exact .inl rfl) hfh
        | dir => exact absurd (by rw [hkind]; exact .inr rfl) hfh
        | other => rfl
  | zero hnumber htype =>
      have hfh : ¬ fh.Supported := by
        rw [VsnfsFh.Supported, htype]
        decide
      exact .unfinished (hbare hfh) (.inl (hnumber after))

theorem noInodes_trueCache : TrueCache tree noInodes := by
  intro ino inode hinode
  cases hinode

theorem TrueCache.store {cache : InodeCache} (h : TrueCache tree cache) {ino : BitVec 64}
    {inode : Option ClientInode} (hinode : ∀ stored ∈ inode, TrueInode tree ino stored) :
    TrueCache tree (cache.store ino inode) := by
  intro other found hfound
  by_cases heq : other = ino
  · rw [heq, InodeCache.store_self] at hfound
    rw [heq]
    exact hinode found hfound
  · rw [InodeCache.store_other _ _ heq] at hfound
    exact h other found hfound

theorem fhget_trueCache {cache : InodeCache} (h : TrueCache tree cache) {fh : VsnfsFh}
    (hfh : TrueHandle tree fh) (after : List Byte) {alloc : Option ClientInode}
    (halloc : ∀ inode ∈ alloc, inode.iPrivate = none) : TrueCache tree (vsnfsFhget cache fh after alloc).2 := by
  cases hcache : cache (fh.ino after) with
  | some inode =>
      simp only [vsnfsFhget, igetLocked, hcache]
      exact h
  | none =>
      cases alloc with
      | none =>
          simp only [vsnfsFhget, igetLocked, hcache]
          exact h
      | some inode =>
          obtain ⟨filled, heq, hino, hfilled, hbare⟩ := fhget_new inode hcache
          rw [heq]
          refine h.store fun stored hstored => ?_
          cases hstored
          exact hfh.trueInode hino hfilled fun hnot => (hbare hnot).trans (halloc inode rfl)

/-- What a lookup leaves of the cache: as it was, or as `vsnfs_fhget` leaves it for the handle read with
error number 0. -/
theorem lookup_cache {cache : InodeCache} {call : LookupCall} {dirFh : VsnfsFh} {lookup : ClientLookup}
    (hdir : call.dir.iPrivate = some dirFh) (hlookup : vsnfsLookup cache call = some lookup) :
    lookup.cache = cache ∨
      ∃ fh, vsnfsXdrFh (call.rpc (vsnfsXdrLookupargs dirFh call.name)) call.newfh = some (0, fh) ∧
        lookup.cache = (vsnfsFhget cache fh call.after call.inodeAlloc).2 := by
  rw [vsnfsLookup] at hlookup
  split at hlookup
  · cases hlookup
    exact .inl rfl
  · simp only [vsnfsDoLookup, hdir, vsnfsProcLookup] at hlookup
    by_cases halloc : call.argpAlloc = false
    · rw [if_pos halloc] at hlookup
      cases hlookup
      exact .inl rfl
    · rw [if_neg halloc] at hlookup
      cases hread : vsnfsXdrFh (call.rpc (vsnfsXdrLookupargs dirFh call.name)) call.newfh with
      | none =>
          rw [hread] at hlookup
          cases hlookup
      | some answer =>
          obtain ⟨ret, fh⟩ := answer
          rw [hread] at hlookup
          simp only at hlookup
          by_cases hret : ret = 0
          · rw [if_pos hret] at hlookup
            simp only at hlookup
            rw [if_neg (by decide), if_neg (by decide)] at hlookup
            refine .inr ⟨fh, by rw [hret], ?_⟩
            split at hlookup
            · rename_i hget
              cases hlookup
              rw [hget]
            · rename_i hget
              cases hlookup
              rw [hget]
          · rw [if_neg hret] at hlookup
            simp only at hlookup
            rw [if_neg (by decide), if_pos (by decide)] at hlookup
            cases hlookup
            exact .inl rfl

theorem TakesReply.keeps {cache cache' : InodeCache} {message : RpcMessage} {results : List Byte}
    (htakes : TakesReply cache message results cache') (h : TrueCache tree cache)
    (hreply : TrueReply tree message results) : TrueCache tree cache' := by
  cases htakes with
  | mount rephdr path hmessage resp fh hread after alloc halloc =>
      refine fhget_trueCache h (hreply ?_ resp fh hread) after halloc
      rw [hmessage]
      exact .inl rfl
  | lookup rephdr dirFh name hmessage call hdir hname hrpc halloc lookup hlookup =>
      obtain hsame | ⟨fh, hread, hcache⟩ := lookup_cache hdir hlookup
      · rw [hsame]
        exact h
      · rw [hcache]
        rw [hrpc] at hread
        refine fhget_trueCache h (hreply ?_ call.newfh fh hread) call.after halloc
        rw [hmessage]
        exact .inr rfl

/-! ### Every run -/

/-- The clients respect the tree, and the server a predicate of its own. -/
theorem vsnfsExchange_keeps {OfServer : Server → Prop}
    (hserver : ∀ server message server' reply, OfServer server →
      ServesOver tree Admits server message server' reply → OfServer server') :
    (vsnfsExchange tree Admits).Keeps (TrueCache tree) OfServer (fun _ => True) (TrueReply tree) where
  moves := by
    rintro cache _ hcache ⟨ino, rfl⟩
    exact hcache.store fun _ hnone => absurd hnone (Option.not_mem_none _)
  asks _ _ _ _ := trivial
  serves server message server' reply h _ hserves :=
    ⟨hserver server message server' reply h hserves, hserves.reply⟩
  takes _ _ _ _ hcache _ hreply htakes := TakesReply.keeps htakes hcache hreply

variable {Client : Type} [DecidableEq Client] {net : Net Client InodeCache Server RpcMessage (List Byte)}

/-- **Cached inodes stay true.** Whatever is sent, lost, repeated, delayed or reordered, whatever the server's
table has come to, and however many mounts have emptied it, every inode in the cache of every mount is one of an
object with its number and of that object's kind; it lacks a handle only for number 0 or for an object that is
neither a file nor a directory. -/
theorem cached_inodes_stay_true (hrun : NetRun (vsnfsExchange tree Admits) (vsnfsStart Client) net)
    (client : Client) (ino : BitVec 64) (inode : ClientInode)
    (hcached : net.locals client ino = some inode) : TrueInode tree ino inode := by
  have hstart : (vsnfsStart Client).Holds (TrueCache tree) (fun _ => True) (fun _ => True) (TrueReply tree) :=
    Net.start_holds (fun _ => noInodes_trueCache) trivial
  have hnet := NetRun.holds (vsnfsExchange_keeps fun _ _ _ _ _ _ => trivial) hrun hstart
  exact hnet.locals client ino inode hcached

/-- The table in every state that a run reaches in which no mount has an empty path. -/
theorem netRun_noneAstray (hnothing : tree.NothingBehind)
    (hrun : NetRun (vsnfsExchange tree Event.RootNonempty) (vsnfsStart Client) net) : NoneAstray tree net.store := by
  have hstart : (vsnfsStart Client).Holds (TrueCache tree) (NoneAstray tree) (fun _ => True) (TrueReply tree) :=
    Net.start_holds (fun _ => noInodes_trueCache) load_noneAstray
  refine (NetRun.holds (vsnfsExchange_keeps fun server message server' reply h hserves => ?_) hrun hstart).store
  obtain hsame | ⟨event, hstep, hroot, hanswers⟩ := hserves.server
  · rwa [hsame]
  · rw [hstep]
    exact step_noneAstray hnothing h hroot hanswers

/-- The entry that a number finds in a true table is one of the object with the number. -/
theorem TrueServer.found_denotes {server : Server} (h : TrueServer tree server) (hdistinct : tree.DistinctNumbers)
    {object : Object} {node : Node}
    (hfind : server.head.bind (fun nodes => findNode nodes (tree.inode object).ino) = some node) :
    node ∈ server.head.entries ∧ node.ino = (tree.inode object).ino ∧ tree.denotes node.path = some object := by
  obtain ⟨nodes, hhead, hnode⟩ := Option.bind_eq_some_iff.mp hfind
  have hmem : node ∈ server.head.entries := by
    rw [hhead]
    exact mem_of_findNode hnode
  have hino := ino_of_findNode hnode
  obtain ⟨-, -, other, hdenotes, hnumber⟩ := h.good node hmem
  obtain rfl : other = object := hdistinct other object (hnumber.trans hino)
  exact ⟨hmem, hino, hdenotes⟩

/-- **A stale handle is not misdirected.** In every state a run reaches, whatever the table has become
since and whichever lookups have failed, a handle from the cache of a mount is resolved by LOOKUP to no path of
another object than the one its inode stands for; nor is it by the open behind READDIR and READ, while the
stored paths are shorter than its buffer. -/
theorem cached_handles_not_misdirected (hdistinct : tree.DistinctNumbers) (hnothing : tree.NothingBehind)
    (hrun : NetRun (vsnfsExchange tree Event.RootNonempty) (vsnfsStart Client) net) (client : Client)
    (ino : BitVec 64) (inode : ClientInode) (hcached : net.locals client ino = some inode) (fh : VsnfsFh)
    (hprivate : inode.iPrivate = some fh) :
    ∃ object, (tree.inode object).ino = ino ∧ inode.Typed (kindType (tree.inode object).kind) ∧
      (∀ after node other, net.store.head.bind (fun nodes => findNode nodes (fh.ino after)) = some node →
        tree.denotes node.path = some other → other = object) ∧
      ((∀ node ∈ net.store.head.entries, node.path.length < vsnfsMaxpathlen) → ∀ after junk buffer other,
        vsnfsdFhToPath net.store.head fh after (Buffer.alloc vsnfsMaxpathlen junk) vsnfsMaxpathlen =
            some (0, buffer) →
          tree.denotes buffer.cstr = some other → other = object) := by
  have hserver := netRun_noneAstray hnothing hrun
  cases cached_inodes_stay_true hrun client ino inode hcached with
  | unfinished hnone => cases hprivate.symm.trans hnone
  | finished object hnumber hserves htyped =>
      obtain ⟨-, stored, hstored, hreads, -⟩ := hserves
      obtain rfl : fh = stored := Option.some.inj (hprivate.symm.trans hstored)
      have hfound : ∀ after node other,
          net.store.head.bind (fun nodes => findNode nodes (fh.ino after)) = some node →
            node ∈ net.store.head.entries ∧ (tree.denotes node.path = some other → other = object) := by
        intro after node other hfind
        obtain ⟨nodes, hhead, hnode⟩ := Option.bind_eq_some_iff.mp hfind
        have hmem : node ∈ net.store.head.entries := by
          rw [hhead]
          exact mem_of_findNode hnode
        refine ⟨hmem, fun hdenotes => hdistinct other object ?_⟩
        calc (tree.inode other).ino = node.ino := hserver.nodes node hmem other hdenotes
          _ = fh.ino after := ino_of_findNode hnode
          _ = (tree.inode object).ino := by rw [hreads after, hnumber]
      refine ⟨object, hnumber, htyped, fun after node other hfind => (hfound after node other hfind).2, ?_⟩
      intro hshort after junk buffer other hresolved hdenotes
      obtain ⟨-, node, hfind, rfl⟩ := (fhToPath_resolved_iff _ _ _ _ _ _).mp hresolved
      obtain ⟨hmem, honly⟩ := hfound after node other hfind
      rw [cstr_put_strncpyBytes node junk (hshort node hmem)] at hdenotes
      exact honly hdenotes

end Tree

/-! ### One mount -/

/-- A GETROOT that arrives alone. -/
theorem getroot_served {Object : Type} {tree : FileTree Object} {server server' : Server} {path : PathName}
    {kernel : Kernel} {results : List Byte} (hpath : path.bytes ≠ [])
    (hanswers : tree.Answers kernel.getroot.pathLookup ∧ SmallErrnos kernel.getroot.pathLookup)
    (hcall : serveCall (Arrival.of ((ClientArgs.getrootargs path).message 0) kernel) server
      ((ClientArgs.getrootargs path).message 0) = (server', some results)) :
    ServesOver tree Event.RootNonempty server ((ClientArgs.getrootargs path).message 0) server' (some results) := by
  have hmem : HoldsAt (Arrival.of ((ClientArgs.getrootargs path).message 0) kernel).mem 0
    ((ClientArgs.getrootargs path).encode 0) := memOf_holds _
  have hdecode := pcDecode_message hmem []
  have hserves : ServesOver tree Event.RootNonempty server ((ClientArgs.getrootargs path).message 0)
      (serveCall (Arrival.of ((ClientArgs.getrootargs path).message 0) kernel) server
        ((ClientArgs.getrootargs path).message 0)).1
      (serveCall (Arrival.of ((ClientArgs.getrootargs path).message 0) kernel) server
        ((ClientArgs.getrootargs path).message 0)).2 := by
    refine .mk _ hmem (by decide : HeadRoom ⟨0, [], 0⟩) (fun args hargs => ?_) fun args hargs => ?_
    · obtain rfl := Option.some.inj (hdecode.symm.trans hargs)
      exact hpath
    · obtain rfl := Option.some.inj (hdecode.symm.trans hargs)
      rintro pathLookup ⟨⟩
      exact hanswers
  rw [hcall] at hserves
  exact hserves

/-- The directory `/a`, with a second file of number 9. -/
def netTree : FileTree SmallObject := smallTree 9 (by decide) (by decide)

theorem netTree_distinct : netTree.DistinctNumbers := by
  intro left right hsame
  cases left <;> cases right <;> first | rfl | exact absurd hsame (by decide)

theorem netTree_answers : netTree.Answers (smallLookup 9) := smallTree_answers 9 (by decide) (by decide)

theorem netTree_orderly {server : Server} {event : Event} (hroot : event.RootNonempty)
    (hlookup : event.pathLookup = some (smallLookup 9))
    (hok : (serve server.head event).status = some (vsnfserr .ok))
    (hshort : ∀ node ∈ (serve server.head event).head.entries, node.path.length < vsnfsMaxpathlen) :
    Orderly netTree server event := smallTree_orderly hroot hlookup hok hshort

def netKernel : Kernel :=
  { Kernel.answering (.found ⟨5, .dir⟩) with
    getroot := { GetrootEnv.answering (.found ⟨5, .dir⟩) with pathLookup := smallLookup 9 }
    lookup := smallLookupEnv 9 }

def mountMessage : RpcMessage := (ClientArgs.getrootargs pathA).message 0

/-- The handle of `/a`, and the reply that carries it. -/
def mountFh : VsnfsFh := getrootResp zeroFh ⟨5, .dir⟩

def mountResults : List Byte := leBytes 0 ++ serverHandleBytes mountFh

theorem smallLookup_smallErrnos (number : BitVec 64) : SmallErrnos (smallLookup number) := by
  intro text
  simp only [smallLookup]
  split
  · exact (by decide : (-4095 : Int) ≤ 0)
  · exact (by decide : (-4095 : Int) ≤ -enoent)

theorem mount_served :
    ServesOver netTree Event.RootNonempty Server.load mountMessage ⟨some [firstRoot], false⟩ (some mountResults) :=
  getroot_served (List.cons_ne_nil _ _) ⟨netTree_answers, smallLookup_smallErrnos 9⟩
    (by rfl : serveCall (Arrival.of mountMessage netKernel) Server.load mountMessage = _)

/-- The network in which the mount `true` has its root and the mount `false` has nothing yet. -/
def mountedNet : Net Bool InodeCache Server RpcMessage (List Byte) where
  locals client := if client then (vsnfsFhget noInodes mountFh [] (some newInode)).2 else noInodes
  store := ⟨some [firstRoot], false⟩
  asked := insert (true, mountMessage) ∅
  replied := insert (true, mountMessage, mountResults) ∅

theorem mountedNet_reached :
    NetRun (vsnfsExchange netTree Event.RootNonempty) (vsnfsStart Bool) mountedNet := by
  refine ((Relation.ReflTransGen.refl.tail (.ask true mountMessage trivial)).tail
    (.reply true mountMessage _ mountResults (Set.mem_insert _ _) mount_served)).tail ?_
  refine .take true mountMessage mountResults _ (Set.mem_insert _ _) ?_
  exact .mount 0 pathA rfl zeroFh mountFh rfl [] (some newInode) (by rintro _ ⟨⟩; rfl)

/-- The inode of the mounted root. -/
def mountedRoot : ClientInode :=
  { newInode with
    iIno := 5, iFlags := noTimes, iOp := .dir, iFop := .dir, iMode := dirMode, iSize := vsnfsDirsize, iNlink := 2,
    iPrivate := some mountFh }

theorem mountedNet_root : mountedNet.locals true 5 = some mountedRoot := by rfl

/-- The root of a mount is a true inode of the directory. -/
theorem mounted_root_true :
    ∃ net, NetRun (vsnfsExchange netTree Event.RootNonempty) (vsnfsStart Bool) net ∧
      ∃ inode, net.locals true 5 = some inode ∧ TrueInode netTree 5 inode :=
  ⟨mountedNet, mountedNet_reached, mountedRoot, mountedNet_root,
    cached_inodes_stay_true mountedNet_reached true 5 mountedRoot mountedNet_root⟩

/-! ### A mount that fails behind it -/

/-- A path that the tree has nothing for. -/
def pathQ : PathName := ⟨[slash, 0x71], by decide, by decide⟩

/-- `path_lookup` on the tree that leaves the dentry of the directory when it fails. -/
def staleLookup (text : List Byte) : PathLookup :=
  match smallDenotes text with
  | some object => .found (smallInode 9 object)
  | none => .failed .noEntry (some ⟨5, .dir⟩)

def staleKernel : Kernel :=
  { netKernel with getroot := { netKernel.getroot with pathLookup := staleLookup } }

def missingMessage : RpcMessage := (ClientArgs.getrootargs pathQ).message 0

def missingResults : List Byte := leBytes (BitVec.ofInt 32 (-enoent))

/-- The entry that the failed mount leaves: the number of the directory, and a path that leads nowhere. -/
def strayRoot : Node := ⟨5, [slash, 0x71, slash], by decide⟩

theorem staleLookup_answers : netTree.Answers staleLookup := by
  intro text
  have hsame : netTree.denotes text = smallDenotes text := rfl
  rw [hsame]
  cases hdenotes : smallDenotes text with
  | none => exact ⟨_, _, by rw [staleLookup, hdenotes]⟩
  | some object =>
      simp only [staleLookup, hdenotes]
      rfl

theorem staleLookup_smallErrnos : SmallErrnos staleLookup := by
  intro text
  simp only [staleLookup]
  split
  · exact (by decide : (-4095 : Int) ≤ 0)
  · exact (by decide : (-4095 : Int) ≤ -enoent)

theorem netTree_nothingBehind : netTree.NothingBehind := by
  intro text _ hnone
  have hsmall : smallDenotes text = none := hnone
  change smallDenotes (withSlash text) = none
  rw [withSlash]
  split
  · exact hsmall
  have hlast : (text ++ [slash]).getLast? = some slash := List.getLast?_concat ..
  rw [smallDenotes, if_neg, if_neg, if_neg]
  · intro hy
    rw [hy] at hlast
    exact absurd hlast (by decide)
  · intro hx
    rw [hx] at hlast
    exact absurd hlast (by decide)
  · rintro (htop | htop)
    · rw [htop] at hlast
      exact absurd hlast (by decide)
    · obtain rfl : text = [slash, 0x61] := List.append_cancel_right (htop : text ++ [slash] = [slash, 0x61] ++ [slash])
      exact absurd hsmall (by decide)

theorem missing_served :
    ServesOver netTree Event.RootNonempty ⟨some [firstRoot], false⟩ missingMessage ⟨some [strayRoot], false⟩
      (some missingResults) :=
  getroot_served (List.cons_ne_nil _ _) ⟨staleLookup_answers, staleLookup_smallErrnos⟩
    (by rfl : serveCall (Arrival.of missingMessage staleKernel) ⟨some [firstRoot], false⟩ missingMessage = _)

/-- The network after the mount `false` has asked for that path. -/
def strayNet : Net Bool InodeCache Server RpcMessage (List Byte) where
  locals := mountedNet.locals
  store := ⟨some [strayRoot], false⟩
  asked := insert (false, missingMessage) mountedNet.asked
  replied := insert (false, missingMessage, missingResults) mountedNet.replied

theorem strayNet_reached : NetRun (vsnfsExchange netTree Event.RootNonempty) (vsnfsStart Bool) strayNet :=
  (mountedNet_reached.tail (.ask false missingMessage trivial)).tail
    (.reply false missingMessage _ missingResults (Set.mem_insert _ _) missing_served)

/-- The handle of the other mount's root is found under that path, which is none of another object. -/
theorem stray_root_not_misdirected :
    ∃ net, NetRun (vsnfsExchange netTree Event.RootNonempty) (vsnfsStart Bool) net ∧
      net.store.head.bind (fun nodes => findNode nodes (mountFh.ino [])) = some strayRoot ∧
      ∃ object, (netTree.inode object).ino = 5 ∧
        ∀ other, netTree.denotes strayRoot.path = some other → other = object := by
  obtain ⟨object, hnumber, -, hfound, -⟩ := cached_handles_not_misdirected netTree_distinct netTree_nothingBehind
    strayNet_reached true 5 mountedRoot mountedNet_root mountFh rfl
  have hfind : strayNet.store.head.bind (fun nodes => findNode nodes (mountFh.ino [])) = some strayRoot := by
    decide
  exact ⟨strayNet, strayNet_reached, hfind, object, hnumber, fun other => hfound [] strayRoot other hfind⟩

end Vsnfs
