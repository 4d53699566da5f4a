import Vsnfs.ServerBounds
import Vsnfs.ServerDaemon

/-! What stops the daemon. Its thread does not come back from an access through a null pointer: a walk over
the list before a mount has initialised it, a path lookup that leaves no dentry, an entry without memory for
its node. An access outside a path buffer is another matter: it may hit anything, and what the thread does
after one is not said here. As long as there is none, the null pointers are all that stops it; where the
kernel has nodes and dentries, what is sent can do that before the first mount and never after. -/

namespace Vsnfs

open Base

/-! ### One request -/

/-- A path was looked up, and there is no dentry in the nameidata. -/
def DentryMissing (head : Head) : Event → Prop
  | .getroot args env => (env.ndAlloc = true ∧ env.pathAlloc = true) ∧ (rootAnswer args env).dentry = none
  | .lookup args env => (env.pathAlloc = true ∧ env.ndAlloc = true) ∧
      ∃ node, findNode head.entries (args.fh.ino args.after) = some node ∧
        (lookupAnswer node args env).dentry = none
  | _ => False

/-- A new entry is due, and there is no memory for its node. -/
def NodeMissing (head : Head) : Event → Prop
  | .getroot args env => (env.ndAlloc = true ∧ env.pathAlloc = true) ∧ env.nodeAlloc = false ∧
      ∃ root, (rootAnswer args env).dentry = some root ∧ root.kind ≠ .reg
  | .lookup args env => env.nodeAlloc = false ∧
      ∃ node inode, LookupResolved head.entries args env node inode ∧ findNode head.entries inode.ino = none
  | _ => False

/-- The null pointers a request meets, for which the thread does not come back from it. -/
inductive Fatal (server : Server) (event : Event) : Prop where
  | zeroedHead (hfresh : Fresh server) (hwalks : Walks (.request event))
  | noDentry (hup : server.down = false) (hmissing : DentryMissing server.head event)
  | noNode (hup : server.down = false) (hmissing : NodeMissing server.head event)

theorem getroot_stopped_iff (head : Head) (args : GetrootArgs) (env : GetrootEnv) :
    (serve head (.getroot args env)).status = none ↔
      DentryMissing head (.getroot args env) ∨ NodeMissing head (.getroot args env) := by
  have hnode (hnode : env.nodeAlloc = true) {root : Inode} (hdentry : (rootAnswer args env).dentry = some root) :
      ¬ (DentryMissing head (.getroot args env) ∨ NodeMissing head (.getroot args env)) := by
    rintro (⟨-, hnone⟩ | ⟨-, hno, -⟩)
    · cases hdentry.symm.trans hnone
    · cases hnode.symm.trans hno
  simp only [serve, Outcome.served]
  cases getroot_exit head args zeroFh env with
  | noMemory halloc hstatus =>
      refine iff_of_false (by simp [hstatus]) ?_
      rintro (h | h)
      · exact halloc h.1
      · exact halloc h.1
  | noDentry halloc hdentry hstatus => exact iff_of_true hstatus (.inl ⟨halloc, hdentry⟩)
  | notDir root halloc hdentry hkind hstatus =>
      refine iff_of_false (by simp [hstatus]) ?_
      rintro (⟨-, hnone⟩ | ⟨-, -, other, hother, hne⟩)
      · cases hdentry.symm.trans hnone
      · cases hdentry.symm.trans hother
        exact hne hkind
  | noNode root halloc hdentry hkind hno hstatus =>
      exact iff_of_true hstatus (.inr ⟨halloc, hno, root, hdentry, hkind⟩)
  | noNodePath root halloc hdentry hkind hyes hnodePath hstatus =>
      exact iff_of_false (by simp [hstatus]) (hnode hyes hdentry)
  | added root halloc hdentry hkind hyes hnodePath hstatus =>
      exact iff_of_false (by simp [hstatus]) (hnode hyes hdentry)

theorem lookup_stopped_iff (nodes : List Node) (args : LookupArgs) (env : LookupEnv) :
    (serve (some nodes) (.lookup args env)).status = none ↔
      DentryMissing (some nodes) (.lookup args env) ∨ NodeMissing (some nodes) (.lookup args env) := by
  have hentries : Head.entries (some nodes) = nodes := rfl
  -- with its dentry a lookup is stopped for want of a node only
  have hfound {node : Node} {inode : Inode} (hresolved : LookupResolved nodes args env node inode)
      (hrest : (findNode nodes inode.ino).isSome ∨ env.nodeAlloc = true) :
      ¬ (DentryMissing (some nodes) (.lookup args env) ∨ NodeMissing (some nodes) (.lookup args env)) := by
    rintro (⟨-, other, hother, hnone⟩ | ⟨hno, other, found, hother, hnew⟩)
    · cases hresolved.hfind.symm.trans hother
      cases hresolved.hdentry.symm.trans hnone
    · obtain ⟨rfl, rfl⟩ := hresolved.unique hother
      rw [hentries] at hnew
      rw [hnew, hno] at hrest
      simp at hrest
  simp only [serve, Outcome.served]
  cases lookup_exit nodes args zeroFh env with
  | unknown hfind hstatus =>
      refine iff_of_false (by simp [hstatus]) ?_
      rintro (⟨-, node, hnode, -⟩ | ⟨-, node, inode, hresolved, -⟩)
      · cases hfind.symm.trans hnode
      · cases hfind.symm.trans hresolved.hfind
  | noPath node hfind hpath hstatus =>
      refine iff_of_false (by simp [hstatus]) ?_
      rintro (⟨halloc, -⟩ | ⟨-, other, inode, hresolved, -⟩)
      · cases hpath.symm.trans halloc.1
      · cases hpath.symm.trans hresolved.hpath
  | noNd node hfind hpath hnd hstatus =>
      refine iff_of_false (by simp [hstatus]) ?_
      rintro (⟨halloc, -⟩ | ⟨-, other, inode, hresolved, -⟩)
      · cases hnd.symm.trans halloc.2
      · cases hnd.symm.trans hresolved.hnd
  | noDentry node hfind hpath hnd hdentry hstatus =>
      exact iff_of_true hstatus (.inl ⟨⟨hpath, hnd⟩, node, hfind, hdentry⟩)
  | known node inode hresolved hknown hstatus =>
      exact iff_of_false (by simp [hstatus]) (hfound hresolved (.inl hknown))
  | noNode node inode hresolved hnew hno hstatus =>
      exact iff_of_true hstatus (.inr ⟨hno, node, inode, hresolved, hnew⟩)
  | noNodePath node inode hresolved hnew hyes hnodePath hstatus =>
      exact iff_of_false (by simp [hstatus]) (hfound hresolved (.inr hyes))
  | added node inode hresolved hnew hyes hnodePath hstatus =>
      exact iff_of_false (by simp [hstatus]) (hfound hresolved (.inr hyes))

/-- **The handler does not return** from the fatal requests. It returns from all others, if nothing it hit
outside its buffers keeps it from that. -/
theorem fatal_iff {server : Server} (hup : server.down = false) (event : Event) :
    Fatal server event ↔ (serve server.head event).status = none := by
  have hsplit : Fatal server event ↔ server.head = none ∧ Walks (.request event) ∨
      DentryMissing server.head event ∨ NodeMissing server.head event := by
    constructor
    · rintro (⟨hfresh, hwalks⟩ | ⟨-, hmissing⟩ | ⟨-, hmissing⟩)
      · exact .inl ⟨hfresh.2, hwalks⟩
      · exact .inr (.inl hmissing)
      · exact .inr (.inr hmissing)
    · rintro (⟨hhead, hwalks⟩ | hmissing | hmissing)
      · exact .zeroedHead ⟨hup, hhead⟩ hwalks
      · exact .noDentry hup hmissing
      · exact .noNode hup hmissing
  rw [hsplit]
  cases event with
  | null dummy => simp [Walks, DentryMissing, NodeMissing, serve, Outcome.served, vsnfsdProcNull, Outcome.enter]
  | getroot args env =>
      rw [getroot_stopped_iff]
      exact or_iff_right fun h => h.2
  | lookup args env =>
      cases hhead : server.head with
      | none => exact iff_of_true (.inl ⟨rfl, trivial⟩) rfl
      | some nodes =>
          rw [lookup_stopped_iff]
          exact or_iff_right fun h => by cases h.1
  | readdir args env =>
      rw [readdir_stopped_iff, openWalksZeroed_iff]
      exact or_iff_left fun h => h.elim id id
  | read args env =>
      rw [read_stopped_iff, openWalksZeroed_iff]
      exact or_iff_left fun h => h.elim id id

/-! ### Runs -/

theorem step_down_iff {server : Server} (hup : server.down = false) (event : Event) :
    (step server event).down = true ↔ Fatal server event := by
  rw [fatal_iff hup, step, if_neg (by rw [hup]; exact Bool.false_ne_true)]
  exact Option.isNone_iff_eq_none

/-- A server is still there after a run exactly when no request of it was fatal. -/
theorem up_iff {server : Server} (hup : server.down = false) (events : List Event) :
    (runFrom step server events).down = false ↔
      Along step (fun server event => ¬ Fatal server event) server events := by
  induction events generalizing server with
  | nil => exact iff_of_true hup trivial
  | cons event events ih =>
      have hrun : runFrom step server (event :: events) = runFrom step (step server event) events := rfl
      rw [hrun]
      by_cases hfatal : Fatal server event
      · have hdown := (step_down_iff hup event).mpr hfatal
        rw [runFrom_step_of_down hdown, hdown]
        exact iff_of_false (fun h => by cases h) fun h => h.1 hfatal
      · have hstill : (step server event).down = false := by
          rw [← Bool.not_eq_true, step_down_iff hup]
          exact hfatal
        rw [ih hstill]
        exact (and_iff_right hfatal).symm

/-- It has returned from each of them. -/
theorem along_returned {server : Server} {events : List Event} (hup : server.down = false)
    (hend : (runFrom step server events).down = false) :
    Along step (fun server event => server.down = false ∧ (serve server.head event).status ≠ none) server
      events := by
  refine Along.imp_of_invariant (I := fun server : Server => server.down = false) ?_ ?_ hup
    ((up_iff hup events).mp hend)
  · intro server event hserver hfatal
    rw [← Bool.not_eq_true, step_down_iff hserver]
    exact hfatal
  · intro server event hserver hfatal
    exact ⟨hserver, fun hnone => hfatal ((fatal_iff hserver event).mpr hnone)⟩

/-- The daemon as its loop leaves it: the table is that of the requests it has heard, and the thread was stopped
unless none of them was fatal. -/
theorem daemon_left (received : List Received) :
    (runFrom vsnfsdRound (vsnfsdEnter true Daemon.start) received).server =
        runFrom step Server.load (requests (heard received)) ∧
      ((runFrom vsnfsdRound (vsnfsdEnter true Daemon.start) received).thread = .stopped ↔
        ¬ Along step (fun server event => ¬ Fatal server event) Server.load (requests (heard received))) := by
  have hran : LoopRan (vsnfsdEnter true Daemon.start) received
      (runFrom vsnfsdRound (vsnfsdEnter true Daemon.start) received) := loop_ran rfl rfl received
  have hserver : (runFrom vsnfsdRound (vsnfsdEnter true Daemon.start) received).server =
      runFrom step Server.load (requests (heard received)) := hran.server
  have hup : Server.load.down = false := rfl
  refine ⟨hserver, ?_⟩
  rw [hran.stopped, hserver, ← up_iff hup, Bool.not_eq_false]

/-- The request does no harm: the handler meets no null pointer, and stays inside its path buffers. -/
def Harmless (server : Server) (event : Event) : Prop := ¬ Fatal server event ∧ StaysInside server event

theorem along_harmless_iff (start : Server) (events : List Event) :
    Along step Harmless start events ↔
      Along step (fun server event => ¬ Fatal server event) start events ∧ Along step StaysInside start events := by
  induction events generalizing start with
  | nil => simp [Along]
  | cons event events ih =>
      simp only [Along, ih, Harmless]
      tauto

/-- **When the thread is stopped.** Whatever `svc_recv` gives: the requests that arrive before the signal stay
inside their path buffers exactly if none of them is one that leaves them. Then the thread is stopped exactly
if one of them is fatal in the state it meets, and the first such request, with nothing but harmless ones
before it, is the last one that is served. -/
theorem thread_stopped_iff (received : List Received) :
    (Along step StaysInside Server.load (requests (heard received)) ↔
      Along step (fun server event => ¬ LeavesBuffers server event) Server.load (requests (heard received))) ∧
    (Along step StaysInside Server.load (requests (heard received)) →
      ((runFrom vsnfsdRound (vsnfsdEnter true Daemon.start) received).thread = .stopped ↔
        ∃ front event rest, requests (heard received) = front ++ event :: rest ∧
          Along step Harmless Server.load front ∧
          Fatal (runFrom step Server.load front) event ∧ StaysInside (runFrom step Server.load front) event ∧
          (runFrom vsnfsdRound (vsnfsdEnter true Daemon.start) received).server =
            runFrom step Server.load (front ++ [event]))) := by
  refine ⟨run_inside_iff _, fun hinside => ?_⟩
  obtain ⟨hserver, hstopped⟩ := daemon_left received
  rw [hstopped, hserver, not_along_iff]
  constructor
  · rintro ⟨front, event, rest, hevents, halong, hfails⟩
    have hfatal : Fatal (runFrom step Server.load front) event := not_not.mp hfails
    have hdead : (runFrom step Server.load (front ++ [event])).down = true := by
      rw [runFrom_concat]
      exact (step_down_iff ((up_iff rfl front).mpr halong) event).mpr hfatal
    rw [hevents] at hinside
    refine ⟨front, event, rest, hevents, (along_harmless_iff _ _).mpr ⟨halong, hinside.front⟩, hfatal,
      hinside.at_step, ?_⟩
    calc runFrom step Server.load (requests (heard received))
        = runFrom step Server.load ((front ++ [event]) ++ rest) := by rw [hevents, List.append_assoc]; rfl
      _ = runFrom step (runFrom step Server.load (front ++ [event])) rest := List.foldl_append ..
      _ = runFrom step Server.load (front ++ [event]) := runFrom_step_of_down hdead rest
  · rintro ⟨front, event, rest, hevents, hharmless, hfatal, -⟩
    exact ⟨front, event, rest, hevents, ((along_harmless_iff _ _).mp hharmless).1, not_not.mpr hfatal⟩

/-! ### A kernel with nodes and dentries -/

/-- A call to a kernel that finds a directory for every path. -/
def callArrives (args : ClientArgs) : Received :=
  ⟨0, Arrival.of (args.message 0) (Kernel.answering (.found ⟨5, .dir⟩)), args.message 0⟩

def mountSent : ClientArgs := .getrootargs pathA

def lookupSent : ClientArgs := .lookupargs (zeroFh.print 5) oneLetterName

/-- The lookup comes first and is the fatal one. -/
theorem early_lookup_fatal :
    ∃ front event rest, requests (heard ([lookupSent, mountSent].map callArrives)) = front ++ event :: rest ∧
      Fatal (runFrom step Server.load front) event := by
  have hstopped := (thread_stopped_iff ([lookupSent, mountSent].map callArrives)).2 (by decide)
  obtain ⟨front, event, rest, hevents, -, hfatal, -⟩ := hstopped.mp (by decide)
  exact ⟨front, event, rest, hevents, hfatal⟩

end Vsnfs
