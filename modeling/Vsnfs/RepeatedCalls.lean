import Vsnfs.LookupOrder
import Vsnfs.RpcCalls

/-! Calls that arrive twice. The procedure table asks for no cache of replies, so the server runs a repeated
call again. For LOOKUP that does no harm between two mounts: the entry the first run has made is found by
the second, which leaves the table and sends the same bytes. -/

namespace Vsnfs

open Base

/-- No mount. -/
def Event.MountFree (event : Event) : Prop := ∀ args env, event ≠ .getroot args env

theorem step_mem_of_mountFree {node : Node} (server : Server) (event : Event)
    (hmem : node ∈ server.head.entries) (hfree : event.MountFree) : node ∈ (step server event).head.entries := by
  rw [step]
  split
  · exact hmem
  · exact serve_mem_of_ne_getroot hmem hfree

/-- Between two mounts no entry is lost. -/
theorem run_mem_of_mountFree {node : Node} {server : Server} (hmem : node ∈ server.head.entries)
    {events : List Event} (hfree : ∀ event ∈ events, event.MountFree) :
    node ∈ (runFrom step server events).head.entries :=
  Along.invariant (I := fun server : Server => node ∈ server.head.entries) step_mem_of_mountFree hmem
    (along_of_forall hfree server) (List.prefix_refl events)

theorem run_unique {server : Server} (hunique : UniqueInos server.head) (events : List Event) :
    UniqueInos (runFrom step server events).head :=
  run_invariant (I := fun server : Server => UniqueInos server.head) step_uniqueInos hunique events

section Lookup

variable {lookup : List Byte → PathLookup} {nodes : List Node} {args : LookupArgs} {env : LookupEnv}
  {parent : Node} {inode : Inode}

theorem Finds.resolved (h : Finds lookup nodes args.asked parent inode) (henv : AnsweredFrom lookup env) :
    LookupResolved nodes args env parent inode ∧ lookupAnswer parent args env = .found inode := by
  have hanswer : lookupAnswer parent args env = .found inode := by
    rw [lookupAnswer, henv.htree]
    exact h.hfound
  exact ⟨⟨h.hparent, henv.hpath, henv.hnd, by rw [hanswer]; rfl⟩, hanswer⟩

/-- A LOOKUP that finds its object leaves the parent's entry and one of the object's number. -/
theorem Finds.entries (h : Finds lookup nodes args.asked parent inode) (henv : AnsweredFrom lookup env) :
    parent ∈ (serve (some nodes) (.lookup args env)).head.entries ∧
      ∃ node ∈ (serve (some nodes) (.lookup args env)).head.entries, node.ino = inode.ino := by
  obtain ⟨hresolved, hanswer⟩ := h.resolved henv
  have hkept : ∀ node ∈ nodes, node ∈ (serve (some nodes) (.lookup args env)).head.entries := by
    intro node hnode
    have hmem : node ∈ Head.entries (some nodes) := hnode
    exact serve_mem_of_ne_getroot hmem fun _ _ heq => nomatch heq
  refine ⟨hkept parent (mem_of_findNode h.hparent), ?_⟩
  cases hknown : findNode nodes inode.ino with
  | none =>
      rw [(lookup_added hresolved hknown henv.hnode henv.hnodePath).2]
      exact ⟨_, List.mem_cons_self, rfl⟩
  | some node => exact ⟨node, hkept node (mem_of_findNode hknown), ino_of_findNode hknown⟩

/-- What it returns does not depend on the rest of the table. -/
theorem Finds.returned (h : Finds lookup nodes args.asked parent inode) (henv : AnsweredFrom lookup env) :
    (vsnfsdProcLookup (some nodes) args zeroFh env).status = some (vsnfserr .ok) ∧
      (vsnfsdProcLookup (some nodes) args zeroFh env).resp = lookupResp zeroFh inode := by
  obtain ⟨hresolved, hanswer⟩ := h.resolved henv
  have hword : (lookupAnswer parent args env).word = vsnfserr .ok := by
    rw [hanswer, vsnfserr_ok]
    rfl
  cases lookup_exit nodes args zeroFh env with
  | unknown hfind => cases hfind.symm.trans hresolved.hfind
  | noPath _ _ hpath => cases hpath.symm.trans henv.hpath
  | noNd _ _ _ hnd => cases hnd.symm.trans henv.hnd
  | noDentry other hfind _ _ hdentry =>
      obtain rfl : parent = other := Option.some.inj (hresolved.hfind.symm.trans hfind)
      cases hdentry.symm.trans hresolved.hdentry
  | known _ _ hfound _ hstatus _ _ hresp =>
      obtain ⟨rfl, rfl⟩ := hresolved.unique hfound
      exact ⟨hstatus.trans (congrArg some hword), hresp⟩
  | noNode _ _ _ _ hnode => cases hnode.symm.trans henv.hnode
  | noNodePath _ _ _ _ _ hnodePath => cases hnodePath.symm.trans henv.hnodePath
  | added _ _ hfound _ _ _ hstatus _ _ hresp =>
      obtain ⟨rfl, rfl⟩ := hresolved.unique hfound
      exact ⟨hstatus.trans (congrArg some hword), hresp⟩

/-- It leaves a table that has the object's number. -/
theorem Finds.leaves (h : Finds lookup nodes args.asked parent inode) (henv : AnsweredFrom lookup env)
    {node : Node} (hmem : node ∈ nodes) (hino : node.ino = inode.ino) :
    (serve (some nodes) (.lookup args env)).head = some nodes := by
  obtain hsame | ⟨other, found, hfound, hnew, -⟩ := lookup_table nodes args zeroFh env
  · exact hsame
  · obtain ⟨-, rfl⟩ := (h.resolved henv).1.unique hfound
    exact absurd hino ((findNode_eq_none_iff nodes inode.ino).mp hnew node hmem)

end Lookup

/-! ### A call and its repetition -/

/-- A message in the server's memory, with room for the reply and a kernel that answers from this tree. -/
structure Arrives (lookup : List Byte → PathLookup) (message : RpcMessage) (arrival : Arrival) : Prop where
  hmem : HoldsAt arrival.mem 0 message.body
  hroom : HeadRoom arrival.svc
  henv : AnsweredFrom lookup arrival.kernel.lookup

section Repeated

variable {lookup : List Byte → PathLookup} {fh : VsnfsFh} {name : FileName} {rephdr : Nat} {arrival : Arrival}
  {server : Server} {nodes : List Node} {parent : Node} {inode : Inode}

/-- A LOOKUP that finds its object: the table it leaves, and the bytes it sends. -/
theorem serveCall_finds (harrives : Arrives lookup ((ClientArgs.lookupargs fh name).message rephdr) arrival)
    (hup : server.down = false) (hhead : server.head = some nodes)
    (hfinds : Finds lookup nodes ⟨fh.ino arrival.after, name⟩ parent inode) :
    serveCall arrival server ((ClientArgs.lookupargs fh name).message rephdr) =
      (⟨(serve server.head (.lookup ⟨fh, arrival.after, name⟩ arrival.kernel.lookup)).head, false⟩,
        some (leBytes 0 ++ serverHandleBytes (lookupResp zeroFh inode))) := by
  have hfinds' : Finds lookup nodes (LookupArgs.asked ⟨fh, arrival.after, name⟩) parent inode := hfinds
  obtain ⟨hok, hresp⟩ := hfinds'.returned harrives.henv
  have hstatus : (serve (some nodes) (.lookup ⟨fh, arrival.after, name⟩ arrival.kernel.lookup)).status =
      some (vsnfserr .ok) := hok
  rw [serveCall_message harrives.hmem hup]
  simp only [ClientArgs.received, SvcArgs.event, step, hup, Bool.false_eq_true, if_false,
    resultsOf_eq harrives.hroom, hhead, hstatus, resultBody, hresp, Option.map_some, if_true, vsnfserr_ok,
    Option.isNone_some]

end Repeated

/-- **A repeated LOOKUP is harmless.** Once a LOOKUP has found its object, in any state a run reaches, the
same message served again after any requests without a mount among them leaves the server exactly as it
is and sends the bytes that were sent the first time. -/
theorem repeated_lookup_harmless (before : List Event) (lookup : List Byte → PathLookup) (fh : VsnfsFh)
    (name : FileName) (rephdr : Nat) (first second : Arrival) (nodes : List Node) (parent : Node)
    (inode : Inode) (hup : (runFrom step Server.load before).down = false)
    (hhead : (runFrom step Server.load before).head = some nodes)
    (hfirst : Arrives lookup ((ClientArgs.lookupargs fh name).message rephdr) first)
    (hfinds : Finds lookup nodes ⟨fh.ino first.after, name⟩ parent inode)
    (between : List Event) (hfree : ∀ event ∈ between, event.MountFree)
    (hsecond : Arrives lookup ((ClientArgs.lookupargs fh name).message rephdr) second)
    (hread : fh.ino second.after = fh.ino first.after) :
    let message := (ClientArgs.lookupargs fh name).message rephdr
    let served := serveCall first (runFrom step Server.load before) message
    let later := runFrom step served.1 between
    later.down = false → serveCall second later message = (later, served.2) := by
  intro message served later hstill
  have hserved : served = _ := serveCall_finds hfirst hup hhead hfinds
  have hfinds' : Finds lookup nodes (LookupArgs.asked ⟨fh, first.after, name⟩) parent inode := hfinds
  obtain ⟨hparent, node, hnode, hino⟩ := hfinds'.entries hfirst.henv
  -- both entries are still there, and the table still has no number twice
  have hunique : UniqueInos later.head := by
    refine run_unique ?_ between
    rw [hserved]
    exact serve_uniqueInos _ _ (run_uniqueInos before)
  have hkept : ∀ entry ∈ (serve (some nodes) (.lookup ⟨fh, first.after, name⟩ first.kernel.lookup)).head.entries,
      entry ∈ later.head.entries := by
    intro entry hentry
    refine run_mem_of_mountFree ?_ hfree
    rw [hserved, hhead]
    exact hentry
  cases hlater : later.head with
  | none =>
      have hmem := hkept parent hparent
      rw [hlater] at hmem
      cases hmem
  | some table =>
      have hmem : ∀ entry ∈ later.head.entries, entry ∈ table := by
        intro entry hentry
        rwa [hlater] at hentry
      rw [hlater] at hunique
      have hagain : Finds lookup table (LookupArgs.asked ⟨fh, second.after, name⟩) parent inode := by
        refine ⟨?_, hfinds.hfound⟩
        have hparentIno : parent.ino = fh.ino first.after := ino_of_findNode hfinds.hparent
        rw [LookupArgs.asked, hread, ← hparentIno]
        exact findNode_of_mem hunique (hmem parent (hkept parent hparent))
      have hsame := hagain.leaves hsecond.henv (hmem node (hkept node hnode)) hino
      have hsent : serveCall second later message = _ := serveCall_finds hsecond hstill hlater hagain
      rw [hsent, hlater, hsame, hserved, ← hlater, ← hstill]


/-- A LOOKUP in `/a`, as it arrives each time. -/
def fileMessage : RpcMessage := (ClientArgs.lookupargs (zeroFh.print 5) oneLetterName).message 0

def fileArrival : Arrival := Arrival.of fileMessage (Kernel.answering (.found ⟨7, .reg⟩))

/-- Repeated after a NULL, it sends the same bytes and changes nothing. -/
theorem lookup_repeated_after_null :
    let served := serveCall fileArrival
      (runFrom step Server.load [mountOf 0x61 (by decide) (.found ⟨5, .dir⟩)]) fileMessage
    serveCall fileArrival (runFrom step served.1 [.null 7]) fileMessage =
      (runFrom step served.1 [.null 7], served.2) := by
  have harrives : Arrives (fun _ => .found ⟨7, .reg⟩) fileMessage fileArrival :=
    ⟨memOf_holds _, by decide, ⟨rfl, rfl, rfl, rfl, rfl⟩⟩
  refine repeated_lookup_harmless [mountOf 0x61 (by decide) (.found ⟨5, .dir⟩)] _ (zeroFh.print 5) oneLetterName 0
    fileArrival fileArrival [firstRoot] firstRoot ⟨7, .reg⟩ rfl (by decide) harrives ⟨by decide, rfl⟩ [.null 7] ?_
    harrives rfl (by decide)
  intro event hevent args env heq
  rw [List.mem_singleton.mp hevent] at heq
  cases heq

end Vsnfs
