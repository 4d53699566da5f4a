import Mathlib.Data.List.Destutter
import Vsnfs.RpcCalls

/-! The thread of the daemon. It receives calls until a signal interrupts it: an empty wait is repeated at
once, an interrupted one ends the loop, any other error is written to the log if it is not the one that
was written last, and a call is served. The error that was written last is kept over the calls in between,
so it is not written again when it comes back after them. -/

namespace Vsnfs

open Base

/-! ### The loop -/

abbrev eintr : Int := 4

abbrev eagain : Int := 11

/-- What `svc_recv` gives: its result, and the call that has arrived when that is not negative. -/
structure Received where
  err : Int
  arrival : Arrival
  message : RpcMessage

/-- Where the thread is. A thread that was stopped by an invalid access does not come back. -/
inductive Thread where
  | entering | looping | leaving | stopped | gone
  deriving DecidableEq

/-- The thread with the table it serves. `preverr` and the errors in the log are as `svc_recv` and the
message give them: the one negative, the other not; `naps` counts the waits after an error. -/
structure Daemon where
  thread : Thread
  server : Server
  preverr : Int
  warnings : List Int
  naps : Nat

/-- The thread when it was started, on the table of a module that was just loaded. -/
def Daemon.start : Daemon := ⟨.entering, Server.load, 0, [], 0⟩

/-- Up to the loop: without a copy of `fs` the thread leaves. -/
def vsnfsdEnter (unshared : Bool) (daemon : Daemon) : Daemon :=
  { daemon with thread := if unshared then .looping else .leaving }

/-- One `svc_recv`, and what the loop makes of it. -/
def vsnfsdRound (daemon : Daemon) (received : Received) : Daemon :=
  if daemon.thread ≠ .looping then daemon
  else if received.err = -eagain then daemon
  else if received.err = -eintr then { daemon with thread := .leaving }
  else if received.err < 0 then
    if received.err ≠ daemon.preverr then
      { daemon with
        warnings := daemon.warnings ++ [-received.err]
        preverr := received.err
        naps := daemon.naps + 1 }
    else { daemon with naps := daemon.naps + 1 }
  else
    -- `svc_process`
    let server := (serveCall received.arrival daemon.server received.message).1
    { daemon with server := server, thread := if server.down then .stopped else .looping }

/-! ### What the loop heard -/

/-- What is received up to the signal. -/
def heard (received : List Received) : List Received :=
  received.takeWhile (fun one => one.err ≠ -eintr)

/-- The request a call is decoded to, if it is one. -/
def Received.request (received : Received) : Option Event :=
  if received.err < 0 then none
  else
    (pcDecode received.message.proc received.arrival.mem received.message.body.length
      received.arrival.after).map (SvcArgs.event received.arrival.kernel)

theorem request_of_neg {received : Received} (hneg : received.err < 0) : received.request = none := by
  rw [Received.request, if_pos hneg]

def requests (received : List Received) : List Event := received.filterMap Received.request

/-- The errors other than an empty wait. -/
def errors (received : List Received) : List Int :=
  (received.map Received.err).filter (fun err => err < 0 ∧ err ≠ -eagain)

/-- A call leaves the server as its request does. -/
theorem serveCall_server (arrival : Arrival) (server : Server) (message : RpcMessage) :
    (serveCall arrival server message).1 =
      runFrom step server ((pcDecode message.proc arrival.mem message.body.length arrival.after).map
        (SvcArgs.event arrival.kernel)).toList := by
  rw [serveCall]
  cases pcDecode message.proc arrival.mem message.body.length arrival.after with
  | none => rfl
  | some args =>
      simp only [Option.map_some, Option.toList_some, runFrom, List.foldl_cons, List.foldl_nil]
      by_cases hdown : server.down = true
      · rw [if_pos hdown, step, if_pos hdown]
      · rw [if_neg hdown]

/-- A server that is down stays as it is. -/
theorem runFrom_step_of_down {server : Server} (hdown : server.down = true) (events : List Event) :
    runFrom step server events = server := by
  induction events with
  | nil => rfl
  | cons event events ih =>
      rw [runFrom, List.foldl_cons, step, if_pos hdown]
      exact ih

/-! ### One round -/

section Round

variable {daemon : Daemon} (received : Received)

theorem round_of_not_looping (hthread : daemon.thread ≠ .looping) : vsnfsdRound daemon received = daemon := by
  rw [vsnfsdRound, if_pos hthread]

/-- What one round does, by the result of `svc_recv`. -/
inductive RoundExit (daemon : Daemon) (received : Received) (after : Daemon) : Prop where
  | again (herr : received.err = -eagain) (hafter : after = daemon)
  | signal (herr : received.err = -eintr) (hafter : after = { daemon with thread := .leaving })
  | failed (hneg : received.err < 0) (hagain : received.err ≠ -eagain) (hsignal : received.err ≠ -eintr)
      (hserver : after.server = daemon.server) (hthread : after.thread = .looping)
      (hpreverr : after.preverr = received.err)
      (hwarnings : after.warnings =
        daemon.warnings ++ if received.err ≠ daemon.preverr then [-received.err] else [])
      (hnaps : after.naps = daemon.naps + 1)
  | served (hcall : 0 ≤ received.err)
      (hserver : after.server = runFrom step daemon.server received.request.toList)
      (hthread : after.thread = if after.server.down then .stopped else .looping)
      (hpreverr : after.preverr = daemon.preverr) (hwarnings : after.warnings = daemon.warnings)
      (hnaps : after.naps = daemon.naps)

theorem round_exit (hlooping : daemon.thread = .looping) :
    RoundExit daemon received (vsnfsdRound daemon received) := by
  simp only [vsnfsdRound, hlooping, ne_eq, not_true_eq_false, if_false]
  by_cases hagain : received.err = -eagain
  · rw [if_pos hagain]
    exact .again hagain rfl
  rw [if_neg hagain]
  by_cases hsignal : received.err = -eintr
  · rw [if_pos hsignal]
    exact .signal hsignal rfl
  rw [if_neg hsignal]
  by_cases hneg : received.err < 0
  · rw [if_pos hneg]
    by_cases hprev : received.err = daemon.preverr
    · rw [if_neg (not_not.mpr hprev)]
      exact .failed hneg hagain hsignal rfl rfl hprev.symm (by simp [hprev]) rfl
    · rw [if_pos hprev]
      exact .failed hneg hagain hsignal rfl rfl rfl (by simp [hprev]) rfl
  · rw [if_neg hneg]
    refine .served (Int.not_lt.mp hneg) ?_ rfl rfl rfl rfl
    rw [Received.request, if_neg hneg]
    exact serveCall_server _ _ _

/-- The table after one round. -/
theorem round_server (hlooping : daemon.thread = .looping) :
    (vsnfsdRound daemon received).server = runFrom step daemon.server received.request.toList := by
  cases round_exit received hlooping with
  | again herr hafter =>
      rw [hafter, request_of_neg (by rw [herr]; decide)]
      rfl
  | signal herr hafter =>
      rw [hafter, request_of_neg (by rw [herr]; decide)]
      rfl
  | failed hneg _ _ hserver =>
      rw [hserver, request_of_neg hneg]
      rfl
  | served _ hserver => exact hserver

/-- The thread stays in the loop, leaves it or is stopped in it, the last with the server. -/
theorem round_thread (hlooping : daemon.thread = .looping) (hup : daemon.server.down = false) :
    (vsnfsdRound daemon received).thread ≠ .gone ∧
      ((vsnfsdRound daemon received).thread = .stopped ↔ (vsnfsdRound daemon received).server.down = true) := by
  cases round_exit received hlooping with
  | again _ hafter =>
      rw [hafter, hlooping, hup]
      decide
  | signal _ hafter =>
      rw [hafter]
      simp [hup]
  | failed _ _ _ hserver hthread =>
      rw [hthread, hserver, hup]
      decide
  | served _ _ hthread =>
      rw [hthread]
      cases (vsnfsdRound daemon received).server.down <;> decide

end Round

/-! ### Every run of the loop -/

section Loop

theorem run_of_not_looping {daemon : Daemon} (hthread : daemon.thread ≠ .looping) (received : List Received) :
    runFrom vsnfsdRound daemon received = daemon := by
  induction received with
  | nil => rfl
  | cons one later ih =>
      rw [runFrom, List.foldl_cons, round_of_not_looping one hthread]
      exact ih

theorem heard_cons_of_signal {one : Received} (hsignal : one.err = -eintr) (later : List Received) :
    heard (one :: later) = [] := by
  rw [heard, List.takeWhile_cons_of_neg (by simp [hsignal])]

theorem heard_cons_of_other {one : Received} (hother : one.err ≠ -eintr) (later : List Received) :
    heard (one :: later) = one :: heard later := by
  rw [heard, List.takeWhile_cons_of_pos (by simp [hother])]
  rfl

theorem requests_cons (one : Received) (later : List Received) :
    requests (one :: later) = one.request.toList ++ requests later := by
  rw [requests, List.filterMap_cons]
  cases one.request <;> rfl

theorem errors_cons_of_error {one : Received} (hneg : one.err < 0) (hagain : one.err ≠ -eagain)
    (later : List Received) : errors (one :: later) = one.err :: errors later := by
  rw [errors, List.map_cons, List.filter_cons_of_pos (by simp [hneg, hagain])]
  rfl

theorem errors_cons_of_not {one : Received} (hnot : ¬ (one.err < 0 ∧ one.err ≠ -eagain))
    (later : List Received) : errors (one :: later) = errors later := by
  rw [errors, List.map_cons, List.filter_cons_of_neg (by simpa using hnot)]
  rfl

/-- What is written when the errors come in and this one was written last. -/
def newErrors (last : Int) (errors : List Int) : List Int := (errors.destutter' (· ≠ ·) last).tail

theorem destutter_head (last : Int) (errors : List Int) :
    errors.destutter' (· ≠ ·) last = last :: newErrors last errors := by
  induction errors with
  | nil => rfl
  | cons err errors ih =>
      by_cases hsame : err = last
      · rw [newErrors, hsame, List.destutter'_cons_neg _ (not_not.mpr rfl)]
        exact ih
      · rw [newErrors, List.destutter'_cons_pos _ (Ne.symm hsame), List.tail_cons]

theorem newErrors_cons (last err : Int) (errors : List Int) :
    newErrors last (err :: errors) =
      (if err ≠ last then [err] else []) ++ newErrors err errors := by
  by_cases hsame : err = last
  · rw [hsame, if_neg (not_not.mpr rfl), List.nil_append, newErrors,
      List.destutter'_cons_neg _ (not_not.mpr rfl), newErrors]
  · rw [if_pos hsame, newErrors, List.destutter'_cons_pos _ (Ne.symm hsame), List.tail_cons]
    exact destutter_head err errors

/-- What a run of the loop from a looping thread has done, with everything it received. -/
structure LoopRan (daemon : Daemon) (received : List Received) (final : Daemon) : Prop where
  server : final.server = runFrom step daemon.server (requests (heard received))
  stopped : final.thread = .stopped ↔ final.server.down = true
  thread : final.thread ≠ .stopped → final.thread =
    if ∃ one ∈ received, one.err = -eintr then .leaving else .looping
  warnings : final.thread ≠ .stopped →
    final.warnings = daemon.warnings ++ (newErrors daemon.preverr (errors (heard received))).map Neg.neg
  naps : final.thread ≠ .stopped → final.naps = daemon.naps + (errors (heard received)).length

/-- A round that goes on is put in front of the rest of the run. -/
theorem LoopRan.cons {daemon next final : Daemon} {one : Received} {later : List Received}
    (h : LoopRan next later final) (hother : one.err ≠ -eintr)
    (hserver : next.server = runFrom step daemon.server one.request.toList)
    (hwarnings : ∀ rest, next.warnings ++ (newErrors next.preverr (errors rest)).map Neg.neg =
      daemon.warnings ++ (newErrors daemon.preverr (errors (one :: rest))).map Neg.neg)
    (hnaps : ∀ rest, next.naps + (errors rest).length = daemon.naps + (errors (one :: rest)).length) :
    LoopRan daemon (one :: later) final := by
  have hexists : (∃ each ∈ one :: later, each.err = -eintr) ↔ ∃ each ∈ later, each.err = -eintr := by
    simp [hother]
  refine ⟨?_, h.stopped, fun hthread => ?_, fun hthread => ?_, fun hthread => ?_⟩
  · rw [heard_cons_of_other hother, requests_cons, h.server, hserver]
    exact (List.foldl_append ..).symm
  · rw [h.thread hthread]
    simp only [hexists]
  · rw [h.warnings hthread, heard_cons_of_other hother]
    exact hwarnings _
  · rw [h.naps hthread, heard_cons_of_other hother]
    exact hnaps _

/-- A run from a thread that is no longer in the loop. -/
theorem loopRan_of_signal {daemon : Daemon} (hup : daemon.server.down = false) {one : Received}
    (hsignal : one.err = -eintr) (later : List Received) :
    LoopRan daemon (one :: later) { daemon with thread := .leaving } := by
  have hnothing := heard_cons_of_signal hsignal later
  refine ⟨?_, ?_, fun _ => ?_, fun _ => ?_, fun _ => ?_⟩
  · rw [hnothing]
    rfl
  · simp [hup]
  · simp [hsignal]
  · rw [hnothing]
    exact (List.append_nil _).symm
  · rw [hnothing]
    rfl

theorem loopRan_of_stopped {daemon next : Daemon} {one : Received} (hother : one.err ≠ -eintr)
    (hserver : next.server = runFrom step daemon.server one.request.toList) (hdown : next.server.down = true)
    (hthread : next.thread = .stopped) (later : List Received) : LoopRan daemon (one :: later) next := by
  refine ⟨?_, iff_of_true hthread hdown, fun h => absurd hthread h, fun h => absurd hthread h,
    fun h => absurd hthread h⟩
  rw [heard_cons_of_other hother, requests_cons, runFrom, List.foldl_append]
  have hrest := runFrom_step_of_down hdown (requests (heard later))
  rw [hserver] at hrest ⊢
  exact hrest.symm

theorem loop_ran {daemon : Daemon} (hlooping : daemon.thread = .looping) (hup : daemon.server.down = false)
    (received : List Received) : LoopRan daemon received (runFrom vsnfsdRound daemon received) := by
  induction received generalizing daemon with
  | nil =>
      refine ⟨rfl, ?_, fun _ => ?_, fun _ => (List.append_nil _).symm, fun _ => rfl⟩
      · simp [runFrom, hlooping, hup]
      · simp [runFrom, hlooping]
  | cons one later ih =>
      have hrun : runFrom vsnfsdRound daemon (one :: later) =
          runFrom vsnfsdRound (vsnfsdRound daemon one) later := rfl
      rw [hrun]
      cases round_exit one hlooping with
      | again herr hafter =>
          have hother : one.err ≠ -eintr := by rw [herr]; decide
          have hneg : one.err < 0 := by rw [herr]; decide
          rw [hafter]
          refine (ih hlooping hup).cons hother ?_ (fun rest => ?_) (fun rest => ?_)
          · rw [request_of_neg hneg]
            rfl
          · rw [errors_cons_of_not (fun h => h.2 herr)]
          · rw [errors_cons_of_not (fun h => h.2 herr)]
      | signal herr hafter =>
          rw [hafter, run_of_not_looping (fun h => by cases h)]
          exact loopRan_of_signal hup herr later
      | failed hneg hagain hsignal hserver hthread hpreverr hwarnings hnaps =>
          refine (ih hthread (by rw [hserver]; exact hup)).cons hsignal ?_ (fun rest => ?_) (fun rest => ?_)
          · rw [request_of_neg hneg, hserver]
            rfl
          · rw [errors_cons_of_error hneg hagain, newErrors_cons, hwarnings, hpreverr]
            split <;> simp
          · rw [errors_cons_of_error hneg hagain, hnaps, List.length_cons]
            omega
      | served hcall hserver hthread hpreverr hwarnings hnaps =>
          have hother : one.err ≠ -eintr := fun h => absurd (h ▸ hcall) (by decide)
          have hnoerror (rest : List Received) : errors (one :: rest) = errors rest :=
            errors_cons_of_not (fun h => absurd h.1 (Int.not_lt.mpr hcall)) rest
          by_cases hdown : (vsnfsdRound daemon one).server.down = true
          · rw [if_pos hdown] at hthread
            rw [run_of_not_looping (by rw [hthread]; decide)]
            exact loopRan_of_stopped hother hserver hdown hthread later
          · rw [if_neg hdown] at hthread
            refine (ih hthread (Bool.not_eq_true _ ▸ hdown)).cons hother hserver (fun rest => ?_) (fun rest => ?_)
            · rw [hnoerror, hwarnings, hpreverr]
            · rw [hnoerror, hnaps]

end Loop

/-- **The daemon serves what it hears.** Whatever `svc_recv` gives: every call that arrives before the
signal is served once and in order, unless the thread was stopped in an earlier one; the thread leaves
the loop exactly at the signal; and the log has each error that differs from the error before it,
however many calls were served in between. -/
theorem daemon_serves_what_it_hears (received : List Received) :
    LoopRan (vsnfsdEnter true Daemon.start) received
      (runFrom vsnfsdRound (vsnfsdEnter true Daemon.start) received) :=
  loop_ran rfl rfl received

end Vsnfs
