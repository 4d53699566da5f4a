import Mathlib.Logic.Relation
import Vsnfs.BaseShared
import Vsnfs.ServerDaemon

/-! The service from the loading of the module to its end. Two run at once: `vsnfsd_svc`, which creates the
service, opens its sockets, starts the thread, reads the number of threads and lets go of the service, and
the thread with its loop. Each has a reference and lets go of it in `svc_destroy`. That counts down with no
lock of its own, and `vsnfsd_svc` takes none around it, so that reading the counter and writing it back are
two steps here, between which the other party may come. `vsnfsd_last_thread` runs for whoever writes a zero,
over a table that only a mount initialises. -/

namespace Vsnfs

open Base

/-! ### Start -/

/-- `struct svc_serv`: the number of its sockets. `sv_nrthreads` is the counter of its references. -/
structure SvcServ where
  permsocks : Nat
  deriving DecidableEq

/-- The kernel's answers while the service is started: to `svc_create_pooled`, to `svc_create_xprt` and
`lockd_up` for each socket, and to `svc_set_num_threads`. -/
structure StartEnv where
  serv : Bool
  udp : Option Failure
  udpLockd : Option Failure
  tcp : Option Failure
  tcpLockd : Option Failure
  thread : Option Failure

def vsnfsdCreateServ (env : StartEnv) : Except Int SvcServ := if env.serv then .ok ⟨0⟩ else .error (-enomem)

/-- A socket, and lockd for it. The users of lockd are counted. -/
def createXprt (xprt lockd : Option Failure) (serv : SvcServ) (users : Int) : Int × SvcServ × Int :=
  match xprt with
  | some failure => (failure.errno, serv, users)
  | none =>
      match lockd with
      | some failure => (failure.errno, ⟨serv.permsocks + 1⟩, users)
      | none => (0, ⟨serv.permsocks + 1⟩, users + 1)

def vsnfsdInitSocks (env : StartEnv) (serv : SvcServ) (users : Int) : Int × SvcServ × Int :=
  if serv.permsocks ≠ 0 then (0, serv, users)
  else
    let (error, serv, users) := createXprt env.udp env.udpLockd serv users
    if error < 0 then (error, serv, users) else createXprt env.tcp env.tcpLockd serv users

/-- Where `vsnfsd_svc` is once the threads were started or are not going to be: in front of reading
`sv_nrthreads`, in front of `svc_destroy`, back in `init_vsnfsd`, or stopped by an invalid access. -/
inductive Starter where
  | reading
  | releasing (error : Int)
  | returned (error : Int)
  | stopped
  deriving DecidableEq

/-- What became of `vsnfsd_last_thread`: it was not called, it walked from the zeroed head, or it freed
entries and left a table. -/
inductive Closing where
  | pending
  | zeroed
  | done (freed : List Node) (left : Head)
  deriving DecidableEq

/-- Who has a reference to the service. -/
inductive Holder where
  | starter | thread
  deriving DecidableEq

instance : Fintype Holder := ⟨{.starter, .thread}, fun holder => by cases holder <;> decide⟩

/-- Both parties and what they share. `received` is what the thread has received so far. -/
structure Life where
  starter : Starter
  daemon : Daemon
  serv : Counted Holder SvcServ
  lockd : Int
  closing : Closing
  received : List Received

/-- No thread was started. -/
def Daemon.absent : Daemon := { Daemon.start with thread := .gone }

/-- `vsnfsd_svc` up to the start of the thread; there is one, as `VSNFS_NRSERVS` says. -/
def vsnfsdSvc (env : StartEnv) : Life :=
  match vsnfsdCreateServ env with
  | .error error => ⟨.returned error, .absent, .absent, 0, .pending, []⟩
  | .ok serv =>
      let (error, serv, users) := vsnfsdInitSocks env serv 0
      if error ≠ 0 then ⟨.releasing error, .absent, .create serv, users, .pending, []⟩
      else
        match env.thread with
        | some failure => ⟨.releasing failure.errno, .absent, .create serv, users, .pending, []⟩
        | none => ⟨.reading, .start, (Counted.create serv).take, users, .pending, []⟩

/-! ### Steps -/

/-- The number that `vsnfsd_svc` is going to return. -/
def readThreads (life : Life) : Life :=
  { life with serv := life.serv.use, starter := .releasing (life.serv.count - 1) }

/-- A party is in `svc_destroy`, or in front of it. -/
def Life.releasing (life : Life) : Holder → Bool
  | .starter =>
      match life.starter with
      | .releasing _ => true
      | _ => false
  | .thread => life.daemon.thread = .leaving

/-- `svc_destroy` reads `sv_nrthreads`. -/
def svcDestroyRead (life : Life) (holder : Holder) : Life := { life with serv := life.serv.read holder }

/-- It writes back one less than it has read. For the last reference it runs `vsnfsd_last_thread`: the
entries are freed, and lockd is told once for each socket. -/
def svcDestroyWrite (life : Life) (holder : Holder) (count : Nat) : Life :=
  match life.serv.write holder count with
  | (serv, none) => { life with serv := serv }
  | (serv, some last) =>
      match vsnfsdLastThread life.daemon.server.head with
      | none => { life with serv := serv, closing := .zeroed }
      | some (freed, left) =>
          { life with serv := serv, closing := .done freed left, lockd := life.lockd - last.permsocks }

/-- The end of the starter's `svc_destroy`, from which it returns unless it was stopped. -/
def starterReleases (life : Life) (error : Int) (count : Nat) : Life :=
  let life := svcDestroyWrite life .starter count
  { life with starter := if life.closing = .zeroed then .stopped else .returned error }

/-- The end of the one in the thread's `svc_exit_thread`. It does not come back to the loop, stopped or
not. -/
def threadLeaves (life : Life) (count : Nat) : Life :=
  let life := svcDestroyWrite life .thread count
  { life with daemon := { life.daemon with thread := .gone } }

inductive LifeStep (life : Life) : Life → Prop where
  | read (hstarter : life.starter = .reading) : LifeStep life (readThreads life)
  | destroy (holder : Holder) (hreleasing : life.releasing holder = true)
      (hfirst : life.serv.reads holder = none) : LifeStep life (svcDestroyRead life holder)
  | release (error : Int) (count : Nat) (hstarter : life.starter = .releasing error)
      (hread : life.serv.reads .starter = some count) : LifeStep life (starterReleases life error count)
  | enter (unshared : Bool) (hthread : life.daemon.thread = .entering) :
      LifeStep life { life with daemon := vsnfsdEnter unshared life.daemon }
  | hear (received : Received) (hthread : life.daemon.thread = .looping) :
      LifeStep life { life with
        daemon := vsnfsdRound life.daemon received
        received := life.received ++ [received] }
  | leave (count : Nat) (hthread : life.daemon.thread = .leaving)
      (hread : life.serv.reads .thread = some count) : LifeStep life (threadLeaves life count)

/-- Every order of the two. -/
def LifeRun (env : StartEnv) (life : Life) : Prop := Relation.ReflTransGen LifeStep (vsnfsdSvc env) life

/-! ### References -/

/-- The starter has its reference until it is back from `svc_destroy`. -/
def Starter.holds : Starter → Bool
  | .reading => true
  | .releasing _ => true
  | .returned _ => false
  | .stopped => false

/-- The thread has one until it has left, also when it was stopped in a request. -/
def Life.holds (life : Life) : Holder → Bool
  | .starter => life.starter.holds
  | .thread => life.daemon.thread ≠ .gone

def Life.holders (life : Life) : Finset Holder := Finset.univ.filter (fun holder => life.holds holder)

theorem Life.mem_holders {life : Life} {holder : Holder} :
    holder ∈ life.holders ↔ life.holds holder = true := by
  simp only [Life.holders, Finset.mem_filter, Finset.mem_univ, true_and]

theorem Life.starter_mem {life : Life} : Holder.starter ∈ life.holders ↔ life.starter.holds = true :=
  Life.mem_holders

theorem Life.thread_mem {life : Life} : Holder.thread ∈ life.holders ↔ life.daemon.thread ≠ .gone := by
  rw [Life.mem_holders]
  exact decide_eq_true_iff

theorem Life.mem_of_releasing {life : Life} {holder : Holder} (hreleasing : life.releasing holder = true) :
    holder ∈ life.holders := by
  cases holder with
  | starter =>
      rw [Life.starter_mem]
      cases hstarter : life.starter with
      | releasing error => rfl
      | reading | returned | stopped => simp [Life.releasing, hstarter] at hreleasing
  | thread =>
      have hthread : life.daemon.thread = .leaving := by simpa [Life.releasing] using hreleasing
      rw [Life.thread_mem, hthread]
      exact fun heq => by cases heq

/-- Every answer at the start was a success. -/
structure StartEnv.Starts (env : StartEnv) : Prop where
  serv : env.serv = true
  udp : env.udp = none ∧ env.udpLockd = none
  tcp : env.tcp = none ∧ env.tcpLockd = none
  thread : env.thread = none

/-- The ways `vsnfsd_svc` gets to this point. -/
inductive StartExit (env : StartEnv) (life : Life) : Prop where
  | noServ (hserv : env.serv = false)
      (hlife : life = ⟨.returned (-enomem), .absent, .absent, 0, .pending, []⟩)
  | failed (hserv : env.serv = true) (hstarts : ¬ env.Starts) (error : Int) (serv : SvcServ) (users : Int)
      (hneg : error < 0) (hlife : life = ⟨.releasing error, .absent, .create serv, users, .pending, []⟩)
  | started (hstarts : env.Starts)
      (hlife : life = ⟨.reading, .start, (Counted.create ⟨2⟩).take, 2, .pending, []⟩)

theorem createXprt_eq (xprt lockd : Option Failure) (serv : SvcServ) (users : Int) :
    ((xprt = none ∧ lockd = none) ∧ createXprt xprt lockd serv users = (0, ⟨serv.permsocks + 1⟩, users + 1)) ∨
      (¬ (xprt = none ∧ lockd = none) ∧ (createXprt xprt lockd serv users).1 < 0) := by
  cases xprt with
  | some failure => exact .inr ⟨by simp, failure.hneg⟩
  | none =>
      cases lockd with
      | some failure => exact .inr ⟨by simp, failure.hneg⟩
      | none => exact .inl ⟨⟨rfl, rfl⟩, rfl⟩

/-- The sockets are open exactly when every answer about them was a success. -/
theorem initSocks_eq (env : StartEnv) :
    (((env.udp = none ∧ env.udpLockd = none) ∧ env.tcp = none ∧ env.tcpLockd = none) ∧
        vsnfsdInitSocks env ⟨0⟩ 0 = (0, ⟨2⟩, 2)) ∨
      (¬ ((env.udp = none ∧ env.udpLockd = none) ∧ env.tcp = none ∧ env.tcpLockd = none) ∧
        (vsnfsdInitSocks env ⟨0⟩ 0).1 < 0) := by
  simp only [vsnfsdInitSocks, ne_eq, not_true_eq_false, if_false]
  obtain ⟨hudp, heq⟩ | ⟨hudp, hneg⟩ := createXprt_eq env.udp env.udpLockd ⟨0⟩ 0
  · rw [heq]
    obtain ⟨htcp, heq⟩ | ⟨htcp, hneg⟩ := createXprt_eq env.tcp env.tcpLockd ⟨1⟩ 1
    · exact .inl ⟨⟨hudp, htcp⟩, by simpa using heq⟩
    · exact .inr ⟨fun h => htcp h.2, by simpa using hneg⟩
  · refine .inr ⟨fun h => hudp h.1, ?_⟩
    rw [if_pos hneg]
    exact hneg

theorem svc_exit (env : StartEnv) : StartExit env (vsnfsdSvc env) := by
  rw [vsnfsdSvc, vsnfsdCreateServ]
  cases hserv : env.serv with
  | false => exact .noServ hserv rfl
  | true =>
      simp only [if_true]
      obtain ⟨hsocks, heq⟩ | ⟨hsocks, hneg⟩ := initSocks_eq env
      · rw [heq]
        cases hthread : env.thread with
        | none => exact .started ⟨hserv, hsocks.1, hsocks.2, hthread⟩ rfl
        | some failure =>
            refine .failed hserv (fun h => ?_) failure.errno ⟨2⟩ 2 failure.hneg rfl
            cases hthread.symm.trans h.thread
      · refine .failed hserv (fun h => hsocks ⟨h.udp, h.tcp⟩) _ (vsnfsdInitSocks env ⟨0⟩ 0).2.1
          (vsnfsdInitSocks env ⟨0⟩ 0).2.2 hneg ?_
        rw [if_pos (ne_of_lt hneg)]

/-! ### Letting go -/

section Holders

variable {life life' : Life}

theorem holders_same (hsame : ∀ holder, life'.holds holder = life.holds holder) : life'.holders = life.holders := by
  ext holder
  rw [Life.mem_holders, Life.mem_holders, hsame]

theorem holders_erase {holder : Holder} (hgone : life'.holds holder = false)
    (hothers : ∀ other, other ≠ holder → life'.holds other = life.holds other) :
    life'.holders = life.holders.erase holder := by
  ext other
  rw [Finset.mem_erase, Life.mem_holders, Life.mem_holders]
  by_cases heq : other = holder
  · simp [heq, hgone]
  · simp [heq, hothers other heq]

/-- It leaves the two parties where they are, and the table to the walk. -/
theorem destroyWrite_keeps (life : Life) (holder : Holder) (count : Nat) :
    (svcDestroyWrite life holder count).daemon = life.daemon ∧
      (svcDestroyWrite life holder count).received = life.received ∧
      (svcDestroyWrite life holder count).starter = life.starter := by
  rw [svcDestroyWrite]
  split
  · exact ⟨rfl, rfl, rfl⟩
  · split
    · exact ⟨rfl, rfl, rfl⟩
    · exact ⟨rfl, rfl, rfl⟩

theorem destroyWrite_serv (life : Life) (holder : Holder) (count : Nat) :
    (svcDestroyWrite life holder count).serv = (life.serv.write holder count).1 := by
  rw [svcDestroyWrite]
  split
  · rename_i hpair
    rw [hpair]
  · rename_i hpair
    rw [hpair]
    split <;> rfl

/-- The holder is the last one, and no decrement was lost. -/
def Life.last (life : Life) (holder : Holder) : Prop := life.holders = {holder} ∧ life.serv.overlapped = false

/-- What the end of `svc_destroy` does for a holder. -/
inductive DestroyExit (life : Life) (holder : Holder) (count : Nat) (after : Life) : Prop where
  | more (hothers : ¬ life.last holder)
      (hafter : after = { life with serv := (life.serv.write holder count).1 })
  | zeroed (hlast : life.last holder) (hhead : life.daemon.server.head = none)
      (hafter : after = { life with serv := (life.serv.write holder count).1, closing := .zeroed })
  | done (hlast : life.last holder) (last : SvcServ) (hobject : life.serv.object = some last)
      (nodes : List Node) (hhead : life.daemon.server.head = some nodes)
      (hafter : after = { life with
        serv := (life.serv.write holder count).1
        closing := .done nodes (some [])
        lockd := life.lockd - last.permsocks })

theorem destroy_exit (hheld : life.serv.HeldBy life.holders) {holder : Holder} {count : Nat}
    (hread : life.serv.reads holder = some count) :
    DestroyExit life holder count (svcDestroyWrite life holder count) := by
  have hdisposed := hheld.disposed_iff hread
  rw [svcDestroyWrite]
  cases hpair : life.serv.write holder count with
  | mk serv last =>
      rw [hpair] at hdisposed
      cases last with
      | none =>
          refine .more (fun hlast => ?_) (by rw [hpair])
          obtain ⟨object, hobject⟩ := hheld.object_of_mem (hheld.read holder count hread).1
          cases (hdisposed object).mpr ⟨hobject, hlast⟩
      | some last =>
          obtain ⟨hobject, hlast⟩ := (hdisposed last).mp rfl
          simp only [lastThread_eq]
          cases hhead : life.daemon.server.head with
          | none => exact .zeroed hlast hhead (by rw [hpair]; rfl)
          | some nodes => exact .done hlast last hobject nodes hhead (by rw [hpair]; rfl)

end Holders

/-! ### The invariant -/

/-- What the starter may come to. Before it has read the number of threads no two were in `svc_destroy`; it
is stopped only in shutdown; and it does not come back with the error of a start that fails once there is a
service. -/
structure StarterSound (env : StartEnv) (life : Life) : Prop where
  early : life.starter = .reading → life.serv.overlapped = false ∧ life.serv.reads .starter = none
  halted : life.starter = .stopped → life.closing = .zeroed
  unreported : ¬ env.Starts → env.serv = true → ∀ error, life.starter ≠ .returned error

/-- What holds in every order. -/
structure LifeSound (env : StartEnv) (life : Life) : Prop where
  held : life.serv.HeldBy life.holders
  closed : life.closing ≠ .pending ↔ env.serv = true ∧ life.holders = ∅ ∧ life.serv.overlapped = false
  made : life.holders.Nonempty → env.serv = true
  server : life.daemon.server = runFrom step Server.load (requests life.received)
  stopped : life.daemon.thread = .stopped ↔ life.daemon.server.down = true
  unstarted : ¬ env.Starts →
    life.daemon.thread = .gone ∧ life.received = [] ∧ life.serv.overlapped = false
  sockets : env.Starts → life.closing = .pending → life.lockd = 2 ∧ life.serv.object = some ⟨2⟩
  zeroed : life.closing = .zeroed → life.daemon.server.head = none
  done : ∀ freed left, life.closing = .done freed left →
    life.daemon.server.head = some freed ∧ left = some [] ∧ life.lockd = 0
  starter : StarterSound env life

theorem svc_sound (env : StartEnv) : LifeSound env (vsnfsdSvc env) := by
  cases svc_exit env with
  | noServ hserv hlife =>
      have hstarts : ¬ env.Starts := fun h => by cases hserv.symm.trans h.serv
      rw [hlife]
      exact {
        held := Counted.absent_heldBy
        closed := by simp [hserv]
        made := fun h => absurd h (by decide)
        server := rfl
        stopped := by decide
        unstarted := fun _ => ⟨rfl, rfl, rfl⟩
        sockets := fun h => absurd h hstarts
        zeroed := fun h => by cases h
        done := fun _ _ h => by cases h
        starter := ⟨fun h => (by cases h), fun h => (by cases h), fun _ h => (by cases hserv.symm.trans h)⟩ }
  | failed hserv hstarts error serv users hneg hlife =>
      have hholders : (vsnfsdSvc env).holders = {.starter} := by
        ext holder
        rw [Life.mem_holders, hlife, Finset.mem_singleton]
        cases holder <;> simp [Life.holds, Starter.holds, Daemon.absent]
      refine {
        held := by rw [hholders, hlife]; exact Counted.create_heldBy serv Holder.starter
        closed := ?_
        made := fun _ => hserv
        server := by rw [hlife]; rfl
        stopped := by rw [hlife]; exact iff_of_false (fun h => by cases h) (fun h => by cases h)
        unstarted := fun _ => by rw [hlife]; exact ⟨rfl, rfl, rfl⟩
        sockets := fun h => absurd h hstarts
        zeroed := fun h => by rw [hlife] at h; cases h
        done := fun _ _ h => by rw [hlife] at h; cases h
        starter := by
          rw [hlife]
          exact ⟨fun h => (by cases h), fun h => (by cases h), fun _ _ _ h => (by cases h)⟩ }
      rw [hholders, hlife]
      exact iff_of_false (fun h => h rfl) (fun h => Finset.singleton_ne_empty _ h.2.1)
  | started hstarts hlife =>
      have hholders : (vsnfsdSvc env).holders = insert .thread {.starter} := by
        ext holder
        rw [Life.mem_holders, hlife]
        cases holder <;> simp [Life.holds, Starter.holds, Daemon.start]
      refine {
        held := ?_
        closed := ?_
        made := fun _ => hstarts.serv
        server := by rw [hlife]; rfl
        stopped := by rw [hlife]; exact iff_of_false (fun h => by cases h) (fun h => by cases h)
        unstarted := fun h => absurd hstarts h
        sockets := fun _ _ => by rw [hlife]; exact ⟨rfl, rfl⟩
        zeroed := fun h => by rw [hlife] at h; cases h
        done := fun _ _ h => by rw [hlife] at h; cases h
        starter := by
          rw [hlife]
          exact ⟨fun _ => ⟨rfl, rfl⟩, fun h => (by cases h), fun h => absurd hstarts h⟩ }
      · rw [hholders, hlife]
        exact (Counted.create_heldBy _ Holder.starter).take (fun _ => rfl) rfl (Finset.mem_singleton_self _)
          (by simp)
      · rw [hholders, hlife]
        exact iff_of_false (fun h => h rfl) (fun h => Finset.insert_ne_empty _ _ h.2.1)

theorem LifeSound.open_of_mem {env : StartEnv} {life : Life} (h : LifeSound env life) {holder : Holder}
    (hmem : holder ∈ life.holders) : life.closing = .pending := by
  by_contra hclosed
  rw [(h.closed.mp hclosed).2.1] at hmem
  cases hmem

/-- A holder lets go, and is nowhere to be found among the holders afterwards. -/
theorem LifeSound.destroy {env : StartEnv} {life after : Life} (h : LifeSound env life) {holder : Holder}
    {count : Nat} (hread : life.serv.reads holder = some count)
    (hserv : after.serv = (svcDestroyWrite life holder count).serv)
    (hclosing : after.closing = (svcDestroyWrite life holder count).closing)
    (hlockd : after.lockd = (svcDestroyWrite life holder count).lockd)
    (hreceived : after.received = life.received) (hserver : after.daemon.server = life.daemon.server)
    (hholders : after.holders = life.holders.erase holder)
    (hstopped : after.daemon.thread = .stopped ↔ life.daemon.thread = .stopped)
    (hgone : life.daemon.thread = .gone → after.daemon.thread = .gone)
    (hstarter : StarterSound env after) : LifeSound env after := by
  have hmem := (h.held.read holder count hread).1
  have hopen := h.open_of_mem hmem
  have hmade := h.made ⟨holder, hmem⟩
  have hoverlapped := (life.serv.write_eq holder count).2.2
  have hlast : after.holders = ∅ ∧ (life.serv.write holder count).1.overlapped = false ↔ life.last holder := by
    rw [Life.last, hholders, Finset.erase_eq_empty_iff, hoverlapped]
    exact and_congr_left' (or_iff_right fun hnone => absurd hmem (hnone ▸ Finset.notMem_empty holder))
  have hheld := h.held.finish hread
  rw [← hholders] at hheld
  have hserver' : after.daemon.server = runFrom step Server.load (requests after.received) := by
    rw [hserver, hreceived]
    exact h.server
  have hstopped' : after.daemon.thread = .stopped ↔ after.daemon.server.down = true := by
    rw [hserver]
    exact hstopped.trans h.stopped
  have hunstarted (hnot : ¬ env.Starts) :
      after.daemon.thread = .gone ∧ after.received = [] ∧ after.serv.overlapped = false := by
    obtain ⟨hnobody, hnothing, hnever⟩ := h.unstarted hnot
    refine ⟨hgone hnobody, hreceived.trans hnothing, ?_⟩
    rw [hserv, destroyWrite_serv, hoverlapped]
    exact hnever
  cases destroy_exit h.held hread with
  | more hothers hafter =>
      rw [hafter] at hserv hclosing hlockd
      have hstays : after.closing = .pending := hclosing.trans hopen
      refine ⟨by rwa [hserv], ?_, fun _ => hmade, hserver', hstopped', hunstarted, ?_, ?_, ?_, hstarter⟩
      · rw [hserv]
        exact iff_of_false (fun hne => hne hstays) (fun hall => hothers (hlast.mp hall.2))
      · intro hstarts _
        obtain ⟨husers, hobject⟩ := h.sockets hstarts hopen
        rw [hserv, hlockd]
        exact ⟨husers, (h.held.finish_object hread hothers).trans hobject⟩
      · intro hzeroed
        cases hstays.symm.trans hzeroed
      · intro freed left hdone
        cases hstays.symm.trans hdone
  | zeroed hall hhead hafter =>
      rw [hafter] at hserv hclosing hlockd
      refine ⟨by rwa [hserv], ?_, fun _ => hmade, hserver', hstopped', hunstarted, ?_, ?_, ?_, hstarter⟩
      · rw [hserv]
        exact iff_of_true (by rw [hclosing]; simp) ⟨hmade, hlast.mpr hall⟩
      · intro _ hstays
        cases hclosing.symm.trans hstays
      · exact fun _ => by rw [hserver]; exact hhead
      · intro freed left hdone
        cases hclosing.symm.trans hdone
  | done hall last hobject nodes hhead hafter =>
      rw [hafter] at hserv hclosing hlockd
      refine ⟨by rwa [hserv], ?_, fun _ => hmade, hserver', hstopped', hunstarted, ?_, ?_, ?_, hstarter⟩
      · rw [hserv]
        exact iff_of_true (by rw [hclosing]; simp) ⟨hmade, hlast.mpr hall⟩
      · intro _ hstays
        cases hclosing.symm.trans hstays
      · intro hzeroed
        cases hclosing.symm.trans hzeroed
      · intro freed left hdone
        cases hclosing.symm.trans hdone
        have hstarts : env.Starts := by
          by_contra hnot
          -- a table that nobody ever served has no initialised head
          rw [h.server, (h.unstarted hnot).2.1] at hhead
          cases hhead
        obtain ⟨husers, hsockets⟩ := h.sockets hstarts hopen
        cases hobject.symm.trans hsockets
        refine ⟨by rw [hserver]; exact hhead, rfl, ?_⟩
        rw [hlockd, husers]
        rfl

/-- A holder does something else, so that the service is still there. -/
theorem LifeSound.keep {env : StartEnv} {life after : Life} (h : LifeSound env life) {holder : Holder}
    (hmem : holder ∈ life.holders) (hheld : after.serv.HeldBy life.holders)
    (hobject : after.serv.object = life.serv.object) (hclosing : after.closing = life.closing)
    (hlockd : after.lockd = life.lockd) (hholders : after.holders = life.holders)
    (hserver : after.daemon.server = runFrom step Server.load (requests after.received))
    (hstopped : after.daemon.thread = .stopped ↔ after.daemon.server.down = true)
    (hunstarted : ¬ env.Starts →
      after.daemon.thread = .gone ∧ after.received = [] ∧ after.serv.overlapped = false)
    (hstarter : StarterSound env after) : LifeSound env after := by
  have hopen := h.open_of_mem hmem
  have hstays : after.closing = .pending := hclosing.trans hopen
  refine ⟨by rwa [hholders], ?_, ?_, hserver, hstopped, hunstarted, ?_, ?_, ?_, hstarter⟩
  · refine iff_of_false (fun hne => hne hstays) (fun hall => ?_)
    rw [← hholders, hall.2.1] at hmem
    cases hmem
  · rw [hholders]
    exact h.made
  · rw [hclosing, hobject, hlockd]
    exact h.sockets
  · intro hzeroed
    cases hstays.symm.trans hzeroed
  · intro freed left hdone
    cases hstays.symm.trans hdone

/-! ### Every order -/

section Steps

variable {env : StartEnv} {life : Life} (h : LifeSound env life)

include h

theorem read_sound (hstarter : life.starter = .reading) : LifeSound env (readThreads life) := by
  have hmem : Holder.starter ∈ life.holders := Life.starter_mem.mpr (by rw [hstarter]; rfl)
  have huse := h.held.use_eq hmem
  refine h.keep hmem ?_ rfl rfl rfl ?_ h.server h.stopped h.unstarted
    ⟨fun heq => (by cases heq), fun heq => (by cases heq), fun _ _ _ heq => (by cases heq)⟩
  · rw [readThreads, huse]
    exact h.held
  · refine holders_same fun holder => ?_
    cases holder with
    | starter => simp [readThreads, Life.holds, hstarter, Starter.holds]
    | thread => rfl

theorem destroy_sound {holder : Holder} (hreleasing : life.releasing holder = true)
    (hfirst : life.serv.reads holder = none) : LifeSound env (svcDestroyRead life holder) := by
  have hmem : holder ∈ life.holders := Life.mem_of_releasing hreleasing
  refine h.keep hmem (h.held.begin hmem hfirst) rfl rfl rfl (holders_same fun holder => by cases holder <;> rfl)
    h.server h.stopped (fun hnot => ?_) ⟨fun hreading => ?_, h.starter.halted, h.starter.unreported⟩
  · obtain ⟨hgone, hnothing, hnever⟩ := h.unstarted hnot
    refine ⟨hgone, hnothing, eq_false_of_ne_true ?_⟩
    rw [svcDestroyRead, Counted.overlapped_read]
    rintro (hlost | ⟨other, hne, hread⟩)
    · cases hnever.symm.trans hlost
    · -- both would be holders, but there is no thread
      have hthere {someone : Holder} (hin : someone ∈ life.holders) : someone = .starter := by
        cases someone with
        | starter => rfl
        | thread => exact absurd hgone (Life.thread_mem.mp hin)
      obtain ⟨count, hcount⟩ := Option.ne_none_iff_exists'.mp hread
      exact hne ((hthere (h.held.read other count hcount).1).trans (hthere hmem).symm)
  · obtain ⟨hnever, hnone⟩ := h.starter.early hreading
    -- the thread is the one that lets go, and the only one
    have hthread : holder = .thread := by
      cases holder with
      | thread => rfl
      | starter =>
          have hat : life.starter = .reading := hreading
          simp [Life.releasing, hat] at hreleasing
    subst hthread
    refine ⟨eq_false_of_ne_true ?_, (Counted.reads_read_of_ne (by simp)).trans hnone⟩
    rw [svcDestroyRead, Counted.overlapped_read]
    rintro (hlost | ⟨other, hne, hread⟩)
    · cases hnever.symm.trans hlost
    · cases other with
      | starter => exact hread hnone
      | thread => exact hne rfl

theorem release_sound {error : Int} {count : Nat} (hstarter : life.starter = .releasing error)
    (hread : life.serv.reads .starter = some count) : LifeSound env (starterReleases life error count) := by
  obtain ⟨hdaemon, hreceived, -⟩ := destroyWrite_keeps life .starter count
  refine h.destroy hread rfl rfl rfl hreceived (congrArg Daemon.server hdaemon) ?_ ?_ ?_ ⟨?_, ?_, ?_⟩
  · refine holders_erase ?_ fun other hother => ?_
    · simp only [starterReleases, Life.holds]
      split <;> rfl
    · cases other with
      | starter => exact absurd rfl hother
      | thread => simp only [starterReleases, Life.holds, hdaemon]
  · exact iff_of_eq (congrArg (Daemon.thread · = .stopped) hdaemon)
  · exact fun hgone => (congrArg Daemon.thread hdaemon).trans hgone
  · intro hreading
    simp only [starterReleases] at hreading
    split at hreading <;> cases hreading
  · intro hhalted
    simp only [starterReleases] at hhalted ⊢
    split at hhalted
    · assumption
    · cases hhalted
  · intro hnot _ other hother
    -- nobody else is there, no decrement was lost, and no request has initialised the list head
    have halone : life.holders = {.starter} := by
      ext holder
      rw [Life.mem_holders, Finset.mem_singleton]
      cases holder <;> simp [Life.holds, hstarter, Starter.holds, (h.unstarted hnot).1]
    have hhead : life.daemon.server.head = none := by
      rw [h.server, (h.unstarted hnot).2.1]
      rfl
    cases destroy_exit h.held hread with
    | more hothers => exact hothers ⟨halone, (h.unstarted hnot).2.2⟩
    | zeroed _ _ hafter =>
        rw [starterReleases, hafter] at hother
        cases hother
    | done _ _ _ nodes hnodes => cases hhead.symm.trans hnodes

theorem leave_sound {count : Nat} (hthread : life.daemon.thread = .leaving)
    (hread : life.serv.reads .thread = some count) : LifeSound env (threadLeaves life count) := by
  obtain ⟨hdaemon, hreceived, hkept⟩ := destroyWrite_keeps life .thread count
  have hserver : (svcDestroyWrite life .thread count).daemon.server = life.daemon.server :=
    congrArg Daemon.server hdaemon
  refine h.destroy hread rfl rfl rfl hreceived hserver ?_ ?_ (fun _ => rfl) ?_
  · refine holders_erase ?_ fun other hother => ?_
    · simp [threadLeaves, Life.holds]
    · cases other with
      | thread => exact absurd rfl hother
      | starter => simp only [threadLeaves, Life.holds, hkept]
  · refine iff_of_false (fun heq => by cases heq) ?_
    rw [hthread]
    exact fun heq => by cases heq
  · have hstarter : (threadLeaves life count).starter = life.starter := hkept
    refine ⟨?_, ?_, ?_⟩
    · intro hreading
      obtain ⟨hnever, hnone⟩ := h.starter.early (hstarter.symm.trans hreading)
      obtain ⟨-, hreads, hoverlapped⟩ := life.serv.write_eq .thread count
      have hserv : (threadLeaves life count).serv = (life.serv.write .thread count).1 := destroyWrite_serv life _ _
      rw [hserv, hoverlapped, hreads, Function.update_of_ne (by simp)]
      exact ⟨hnever, hnone⟩
    · intro hhalted
      have hopen := h.open_of_mem (h.held.read .thread count hread).1
      cases hopen.symm.trans (h.starter.halted (hstarter.symm.trans hhalted))
    · intro hnot
      cases hthread.symm.trans (h.unstarted hnot).1

theorem enter_sound (unshared : Bool) (hthread : life.daemon.thread = .entering) :
    LifeSound env { life with daemon := vsnfsdEnter unshared life.daemon } := by
  have hmem : Holder.thread ∈ life.holders := Life.thread_mem.mpr (by simp [hthread])
  refine h.keep hmem h.held rfl rfl rfl ?_ h.server ?_ ?_ ⟨h.starter.early, h.starter.halted, h.starter.unreported⟩
  · refine holders_same fun holder => ?_
    cases holder with
    | starter => rfl
    | thread => cases unshared <;> simp [Life.holds, vsnfsdEnter, hthread]
  · have hstopped := h.stopped
    rw [hthread] at hstopped
    cases unshared <;> simpa [vsnfsdEnter] using hstopped
  · intro hnot
    cases hthread.symm.trans (h.unstarted hnot).1

theorem hear_sound (received : Received) (hthread : life.daemon.thread = .looping) :
    LifeSound env { life with
      daemon := vsnfsdRound life.daemon received
      received := life.received ++ [received] } := by
  have hup : life.daemon.server.down = false := by
    rw [← Bool.not_eq_true, ← h.stopped, hthread]
    exact fun heq => by cases heq
  obtain ⟨hgone, hstopped⟩ := round_thread received hthread hup
  have hmem : Holder.thread ∈ life.holders := Life.thread_mem.mpr (by simp [hthread])
  refine h.keep hmem h.held rfl rfl rfl ?_ ?_ hstopped ?_
    ⟨h.starter.early, h.starter.halted, h.starter.unreported⟩
  · refine holders_same fun holder => ?_
    cases holder with
    | starter => rfl
    | thread => simp [Life.holds, hthread, hgone]
  · simp only [round_server received hthread, h.server, requests, List.filterMap_append, runFrom, List.foldl_append]
    cases hrequest : received.request <;> simp [hrequest]
  · intro hnot
    cases hthread.symm.trans (h.unstarted hnot).1

end Steps

theorem step_sound {env : StartEnv} {life after : Life} (h : LifeSound env life) (hstep : LifeStep life after) :
    LifeSound env after := by
  cases hstep with
  | read hstarter => exact read_sound h hstarter
  | destroy holder hreleasing hfirst => exact destroy_sound h hreleasing hfirst
  | release error count hstarter hread => exact release_sound h hstarter hread
  | enter unshared hthread => exact enter_sound h unshared hthread
  | hear received hthread => exact hear_sound h received hthread
  | leave count hthread hread => exact leave_sound h hthread hread

theorem run_sound {env : StartEnv} {life : Life} (hrun : LifeRun env life) : LifeSound env life := by
  induction hrun with
  | refl => exact svc_sound env
  | tail _ hstep ih => exact step_sound ih hstep

/-! ### Mounts -/

section Main

variable {env : StartEnv} {life : Life}

/-- After shutdown nobody is left. -/
theorem LifeSound.nobody (h : LifeSound env life) (hclosed : life.closing ≠ .pending) :
    life.starter.holds = false ∧ life.daemon.thread = .gone := by
  have hempty := (h.closed.mp hclosed).2.1
  constructor
  · refine eq_false_of_ne_true fun hholds => ?_
    exact absurd (Life.starter_mem.mpr hholds) (hempty ▸ Finset.notMem_empty _)
  · by_contra hthere
    exact absurd (Life.thread_mem.mpr hthere) (hempty ▸ Finset.notMem_empty _)

/-- So there is nobody who could do anything. -/
theorem LifeSound.final (h : LifeSound env life) (hclosed : life.closing ≠ .pending) (after : Life) :
    ¬ LifeStep life after := by
  have hempty := (h.closed.mp hclosed).2.1
  obtain ⟨hback, hgone⟩ := h.nobody hclosed
  intro hstep
  cases hstep with
  | read hstarter => rw [hstarter] at hback; cases hback
  | destroy holder hreleasing => exact absurd (Life.mem_of_releasing hreleasing) (hempty ▸ Finset.notMem_empty _)
  | release error count hstarter => rw [hstarter] at hback; cases hback
  | enter unshared hthread => cases hgone.symm.trans hthread
  | hear received hthread => cases hgone.symm.trans hthread
  | leave count hthread => cases hgone.symm.trans hthread

/-- **Nobody meets a service that is gone.** In every order of the starter's and the thread's steps, and with
the two at the counter at once, it covers those that still have their reference, and none of them reads or
writes it after the service was disposed of. When they are not at it at once it is their number, and
`vsnfsd_last_thread` runs exactly when the last of them has let go; after that nothing happens any more, so
that it runs once, and over a table that no request is using. When they are, nobody ever disposes of the
service. -/
theorem service_outlives_its_users (hrun : LifeRun env life) :
    life.serv.misused = false ∧ life.holders.card ≤ life.serv.count ∧
      (life.holders.Nonempty → life.serv.object.isSome) ∧
      (life.serv.overlapped = false → life.serv.count = life.holders.card) ∧
      (life.serv.overlapped = true → life.serv.object.isSome) ∧
      (life.closing ≠ .pending ↔ env.serv = true ∧ life.holders = ∅ ∧ life.serv.overlapped = false) ∧
      (life.closing ≠ .pending → ∀ after, ¬ LifeStep life after) := by
  have h := run_sound hrun
  refine ⟨h.held.clean, h.held.enough, fun ⟨holder, hmem⟩ => ?_, fun hnever => (h.held.exact hnever).count,
    fun hlost => ?_, h.closed, h.final⟩
  · exact Option.isSome_iff_exists.mpr (h.held.object_of_mem hmem)
  · obtain hempty | ⟨holder, hmem⟩ := life.holders.eq_empty_or_nonempty
    · rw [h.held.live]
      exact (hempty ▸ h.held).overlapped_iff.mp hlost
    · exact Option.isSome_iff_exists.mpr (h.held.object_of_mem hmem)

/-- **A failed start is not reported.** Once there is a service, `vsnfsd_svc` does not come back with the
error of a socket, of lockd or of the thread: it lets go of the service, and that walks the table before
any mount. -/
theorem failed_start_not_reported (hrun : LifeRun env life) (hserv : env.serv = true) (hnot : ¬ env.Starts) :
    (∀ error, life.starter ≠ .returned error) ∧ (life.closing ≠ .pending → life.closing = .zeroed) := by
  have h := run_sound hrun
  refine ⟨h.starter.unreported hnot hserv, fun hclosed => ?_⟩
  cases hclosing : life.closing with
  | pending => exact absurd hclosing hclosed
  | zeroed => rfl
  | done freed left =>
      obtain ⟨hhead, -⟩ := h.done freed left hclosing
      rw [h.server, (h.unstarted hnot).2.1] at hhead
      cases hhead

end Main

/-! ### One service -/

def allFine : StartEnv := ⟨true, none, none, none, none, none⟩

/-- A mount of the directory `/a` arrives. -/
def mountArrives : Received :=
  ⟨0, Arrival.of ((ClientArgs.getrootargs pathA).message 0) (Kernel.answering (.found ⟨5, .dir⟩)),
    (ClientArgs.getrootargs pathA).message 0⟩

/-- `vsnfsd_svc` has returned, the mount was served, and a signal ends the loop. -/
def servedLife : Life :=
  let returned := starterReleases (svcDestroyRead (readThreads (vsnfsdSvc allFine)) .starter) 1 2
  let looping := vsnfsdRound (vsnfsdEnter true Daemon.start) mountArrives
  let leaving := { returned with
    daemon := vsnfsdRound looping { mountArrives with err := -eintr }
    received := [mountArrives, { mountArrives with err := -eintr }] }
  threadLeaves (svcDestroyRead leaving .thread) 1

theorem servedLife_reached : LifeRun allFine servedLife := by
  refine (((((((Relation.ReflTransGen.refl.tail (.read rfl)).tail (.destroy .starter rfl rfl)).tail
    (.release 1 2 rfl rfl)).tail (.enter true rfl)).tail (.hear mountArrives rfl)).tail
    (.hear { mountArrives with err := -eintr } ?_)).tail (.destroy .thread ?_ ?_)).tail (.leave 1 ?_ ?_)
  · rfl
  · rfl
  · rfl
  · rfl
  · rfl

/-- The thread could not get a copy of `fs` and leaves while `vsnfsd_svc` is in `svc_destroy`. -/
def hurriedLife : Life :=
  let both := svcDestroyRead (svcDestroyRead { readThreads (vsnfsdSvc allFine) with
    daemon := vsnfsdEnter false Daemon.start } .starter) .thread
  threadLeaves (starterReleases both 1 2) 2

theorem hurriedLife_reached : LifeRun allFine hurriedLife :=
  (((((Relation.ReflTransGen.refl.tail (.read rfl)).tail (.enter false rfl)).tail (.destroy .starter rfl rfl)).tail
    (.destroy .thread rfl rfl)).tail (.release 1 2 rfl rfl)).tail (.leave 2 rfl rfl)

/-- The service and its counter at the end of the one, and of the other, which leaves it without users. -/
theorem services_settled :
    (servedLife.serv.misused = false ∧ servedLife.serv.count = 0) ∧
      hurriedLife.holders = ∅ ∧ hurriedLife.closing = .pending ∧ hurriedLife.serv.object.isSome := by
  obtain ⟨hclean, -, -, hcount, -⟩ := service_outlives_its_users servedLife_reached
  obtain ⟨-, -, -, -, hkept, hclosed, -⟩ := service_outlives_its_users hurriedLife_reached
  refine ⟨⟨hclean, (hcount rfl).trans (by decide)⟩, by decide, ?_, hkept rfl⟩
  by_contra hnot
  cases (hclosed.mp hnot).2.2

/-- lockd does not start for the second socket. -/
def lockdFails : StartEnv := ⟨true, none, none, none, some .noEntry, none⟩

/-- `vsnfsd_svc` lets go after that. -/
def lockdFailed : Life := starterReleases (svcDestroyRead (vsnfsdSvc lockdFails) .starter) (-enoent) 1

theorem lockd_failure_not_reported :
    lockdFailed.starter = .stopped ∧ ∀ error, lockdFailed.starter ≠ .returned error := by
  have hrun : LifeRun lockdFails lockdFailed :=
    (Relation.ReflTransGen.refl.tail (.destroy .starter rfl rfl)).tail (.release (-enoent) 1 rfl rfl)
  refine ⟨by rfl, (failed_start_not_reported hrun rfl fun h => ?_).1⟩
  cases h.tcp.2

end Vsnfs
