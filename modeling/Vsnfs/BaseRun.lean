import Mathlib.Data.List.Basic
import Mathlib.Data.List.Induction
import Mathlib.Tactic.Common

/-! Runs of a deterministic transition system: a state, a list of events, one step for each. `Along`
says that a predicate on the state before the step and the event holds at every step of a run. The
rules here carry an invariant through a run and compare two predicates step by step. -/

namespace Vsnfs.Base

variable {State Event : Type}

/-- The state a run ends in. -/
def runFrom (step : State → Event → State) (start : State) (events : List Event) : State :=
  events.foldl step start

/-- The predicate holds at every step of the run, of the state before the step and its event. -/
def Along (step : State → Event → State) (P : State → Event → Prop) : State → List Event → Prop
  | _, [] => True
  | state, event :: events => P state event ∧ Along step P (step state event) events

variable {step : State → Event → State}

instance decidableAlong {P : State → Event → Prop} [∀ state event, Decidable (P state event)] (start : State) :
    (events : List Event) → Decidable (Along step P start events)
  | [] => .isTrue trivial
  | event :: events =>
      have : Decidable (Along step P (step start event) events) := decidableAlong (step start event) events
      inferInstanceAs (Decidable (_ ∧ _))

/-- What one step preserves, a run preserves. -/
theorem run_invariant {I : State → Prop} (hstep : ∀ state event, I state → I (step state event))
    {start : State} (hstart : I start) (events : List Event) : I (runFrom step start events) := by
  induction events generalizing start with
  | nil => exact hstart
  | cons event events ih => exact ih (hstep start event hstart)

/-- An invariant that needs the predicate at each step holds in every state on the run. -/
theorem Along.invariant {I : State → Prop} {P : State → Event → Prop}
    (hstep : ∀ state event, I state → P state event → I (step state event))
    {start : State} (hstart : I start) {events : List Event} (halong : Along step P start events)
    {front : List Event} (hfront : front <+: events) : I (runFrom step start front) := by
  induction front generalizing start events with
  | nil => exact hstart
  | cons event front ih =>
      obtain ⟨rest, rfl⟩ := hfront
      exact ih (hstep start event hstart halong.1) halong.2 ⟨rest, rfl⟩

/-- The predicate at one step of the run. -/
theorem Along.at_step {P : State → Event → Prop} {start : State} {front rest : List Event} {event : Event}
    (h : Along step P start (front ++ event :: rest)) : P (runFrom step start front) event := by
  induction front generalizing start with
  | nil => exact h.1
  | cons first front ih => exact ih h.2

/-- The predicate on the first part of the run. -/
theorem Along.front {P : State → Event → Prop} {start : State} {front rest : List Event}
    (h : Along step P start (front ++ rest)) : Along step P start front := by
  induction front generalizing start with
  | nil => trivial
  | cons first front ih => exact ⟨h.1, ih h.2⟩

theorem along_of_forall {P : Event → Prop} {events : List Event} (h : ∀ event ∈ events, P event)
    (start : State) : Along step (fun _ event => P event) start events := by
  induction events generalizing start with
  | nil => trivial
  | cons event events ih =>
      exact ⟨h event List.mem_cons_self,
        ih (fun other hother => h other (List.mem_cons_of_mem event hother)) (step start event)⟩

/-- A predicate that the invariant gives holds at every step. -/
theorem along_of_invariant {I : State → Prop} {P : State → Event → Prop}
    (hstep : ∀ state event, I state → I (step state event))
    (hholds : ∀ state event, I state → P state event) {start : State} (hstart : I start)
    (events : List Event) : Along step P start events := by
  induction events generalizing start with
  | nil => trivial
  | cons event events ih => exact ⟨hholds start event hstart, ih (hstep start event hstart)⟩

/-- A predicate that the invariant and another one give holds at every step where the other does. -/
theorem Along.imp_of_invariant {I : State → Prop} {P Q : State → Event → Prop}
    (hstep : ∀ state event, I state → P state event → I (step state event))
    (himp : ∀ state event, I state → P state event → Q state event)
    {start : State} (hstart : I start) {events : List Event} (halong : Along step P start events) :
    Along step Q start events := by
  induction events generalizing start with
  | nil => trivial
  | cons event events ih =>
      obtain ⟨hfirst, hrest⟩ := halong
      exact ⟨himp start event hstart hfirst, ih (hstep start event hstart hfirst) hrest⟩

/-- A property of states that the invariant gives, and that shows the predicate at the step which leads to
a state: it holds in every state on a run exactly when the predicate holds at every step. -/
theorem along_iff_states {I J : State → Prop} {P : State → Event → Prop}
    (hstep : ∀ state event, I state → P state event → I (step state event))
    (hgives : ∀ state, I state → J state)
    (hshows : ∀ state event, I state → J (step state event) → P state event)
    {start : State} (hstart : I start) (events : List Event) :
    (∀ front, front <+: events → J (runFrom step start front)) ↔ Along step P start events := by
  constructor
  · intro hstates
    induction events generalizing start with
    | nil => trivial
    | cons event events ih =>
        have hfirst := hshows start event hstart (hstates [event] ⟨events, rfl⟩)
        refine ⟨hfirst, ih (hstep start event hstart hfirst) fun front hfront => ?_⟩
        exact hstates (event :: front) (List.cons_prefix_cons.mpr ⟨rfl, hfront⟩)
  · intro halong front hfront
    exact hgives _ (halong.invariant hstep hstart hfront)

/-- The last step of a run. -/
theorem runFrom_concat (start : State) (events : List Event) (event : Event) :
    runFrom step start (events ++ [event]) = step (runFrom step start events) event := by
  rw [runFrom, List.foldl_append]
  rfl

/-- A field that some events set and the others leave alone: the last of them wins. -/
theorem runFrom_last_wins {Value Field : Type} (read : State → Field) {value : Event → Option Value}
    {store : Value → Field}
    (hset : ∀ state event new, value event = some new → read (step state event) = store new)
    (hkeep : ∀ state event, value event = none → read (step state event) = read state)
    (start : State) (events : List Event) :
    read (runFrom step start events) = ((events.filterMap value).getLast?.map store).getD (read start) := by
  induction events using List.reverseRecOn with
  | nil => rfl
  | append_singleton events event ih =>
      rw [runFrom_concat, List.filterMap_append]
      cases hvalue : value event with
      | none =>
          rw [hkeep _ event hvalue, ih, List.filterMap_cons_none hvalue, List.filterMap_nil,
            List.append_nil]
      | some new =>
          rw [hset _ event new hvalue, List.filterMap_cons_some hvalue, List.filterMap_nil,
            List.getLast?_concat]
          rfl

/-- Events without an effect may be left out of a run. -/
theorem runFrom_filter {keep : Event → Bool}
    (hidle : ∀ state event, keep event = false → step state event = state)
    (start : State) (events : List Event) :
    runFrom step start (events.filter keep) = runFrom step start events := by
  induction events generalizing start with
  | nil => rfl
  | cons event events ih =>
      cases hkeep : keep event with
      | true =>
          rw [List.filter_cons_of_pos hkeep]
          exact ih (step start event)
      | false =>
          rw [List.filter_cons_of_neg (by simp [hkeep]), ih start]
          exact congrArg (runFrom step · events) (hidle start event hkeep).symm

/-- Two predicates that agree in every state with the invariant agree along every run from one. -/
theorem along_congr {I : State → Prop} {P Q : State → Event → Prop}
    (hstep : ∀ state event, I state → I (step state event))
    (hagree : ∀ state event, I state → (P state event ↔ Q state event))
    {start : State} (hstart : I start) (events : List Event) :
    Along step P start events ↔ Along step Q start events := by
  induction events generalizing start with
  | nil => exact Iff.rfl
  | cons event events ih =>
      exact and_congr (hagree start event hstart) (ih (hstep start event hstart))

/-- Two predicates that agree wherever a third one holds agree along every run on which it does. -/
theorem Along.congr {P Q R : State → Event → Prop} {start : State} {events : List Event}
    (halong : Along step P start events)
    (hagree : ∀ state event, P state event → (Q state event ↔ R state event)) :
    Along step Q start events ↔ Along step R start events := by
  induction events generalizing start with
  | nil => exact Iff.rfl
  | cons event events ih => exact and_congr (hagree start event halong.1) (ih halong.2)

/-- Where a predicate fails along a run, it fails at a first step. -/
theorem not_along_iff {P : State → Event → Prop} {start : State} {events : List Event} :
    ¬ Along step P start events ↔ ∃ front event rest, events = front ++ event :: rest ∧
      Along step P start front ∧ ¬ P (runFrom step start front) event := by
  constructor
  · induction events generalizing start with
    | nil => exact fun hnot => absurd trivial hnot
    | cons event events ih =>
        intro hnot
        by_cases hfirst : P start event
        · obtain ⟨front, later, rest, hevents, halong, hfails⟩ := ih fun hrest => hnot ⟨hfirst, hrest⟩
          exact ⟨event :: front, later, rest, congrArg (event :: ·) hevents, ⟨hfirst, halong⟩, hfails⟩
        · exact ⟨[], event, events, rfl, trivial, hfirst⟩
  · rintro ⟨front, event, rest, rfl, -, hfails⟩ halong
    exact hfails halong.at_step

/-- The state a run of partial steps ends in, unless one of them has no result. -/
def walkFrom (step : State → Event → Option State) : State → List Event → Option State
  | state, [] => some state
  | state, event :: events => (step state event).bind fun next => walkFrom step next events

/-- The predicate holds at every step of such a run that is reached. -/
def AlongWalk (step : State → Event → Option State) (P : State → Event → Prop) : State → List Event → Prop
  | _, [] => True
  | state, event :: events =>
      P state event ∧ ∀ next, step state event = some next → AlongWalk step P next events

/-- A step that is related to every step of an abstract system gives a run that is related to every run of
it: where the abstract run has a result, so has the concrete one. -/
theorem walkFrom_simulates {Abstract Label : Type} {step : State → Event → Option State}
    {abstract : Abstract → Label → Option Abstract} {label : Event → Label} {R : State → Abstract → Prop}
    {P : State → Event → Prop}
    (hstep : ∀ state object event object', R state object → P state event →
      abstract object (label event) = some object' → ∃ state', step state event = some state' ∧ R state' object')
    {state : State} {object target : Abstract} {events : List Event} (hrelated : R state object)
    (halong : AlongWalk step P state events)
    (hwalk : walkFrom abstract object (events.map label) = some target) :
    ∃ final, walkFrom step state events = some final ∧ R final target := by
  induction events generalizing state object with
  | nil =>
      cases hwalk
      exact ⟨state, rfl, hrelated⟩
  | cons event events ih =>
      rw [List.map_cons, walkFrom, Option.bind_eq_some_iff] at hwalk
      obtain ⟨object', hfirst, hrest⟩ := hwalk
      obtain ⟨state', hnext, hrelated'⟩ := hstep state object event object' hrelated halong.1 hfirst
      obtain ⟨final, hfinal, hend⟩ := ih hrelated' (halong.2 state' hnext) hrest
      refine ⟨final, ?_, hend⟩
      rw [walkFrom, hnext]
      exact hfinal

/-- A run that follows an abstract one until it strays. Where a state that it strays to has no more steps, a
run with a result has followed to its end, or strayed in its last step. -/
theorem walkFrom_follows {Abstract Label : Type} {step : State → Event → Option State}
    {abstract : Abstract → Label → Option Abstract} {label : Event → Label} {R : State → Abstract → Prop}
    {P : State → Event → Prop} {Strays : Abstract → Event → State → Prop}
    (hstep : ∀ state object event state', R state object → P state event → step state event = some state' →
      (∃ object', abstract object (label event) = some object' ∧ R state' object') ∨ Strays object event state')
    (hends : ∀ object event state', Strays object event state' → ∀ next, step state' next = none)
    {state final : State} {object : Abstract} {events : List Event} (hrelated : R state object)
    (halong : AlongWalk step P state events) (hwalk : walkFrom step state events = some final) :
    (∃ target, walkFrom abstract object (events.map label) = some target ∧ R final target) ∨
      ∃ front event last, events = front ++ [event] ∧
        walkFrom abstract object (front.map label) = some last ∧ Strays last event final := by
  induction events generalizing state object with
  | nil =>
      cases hwalk
      exact .inl ⟨object, rfl, hrelated⟩
  | cons event events ih =>
      rw [walkFrom, Option.bind_eq_some_iff] at hwalk
      obtain ⟨state', hnext, hrest⟩ := hwalk
      obtain ⟨object', hfirst, hrelated'⟩ | hstrays := hstep state object event state' hrelated halong.1 hnext
      · obtain ⟨target, hend, hfinal⟩ | ⟨front, other, last, hevents, hlast, hstrays⟩ :=
          ih hrelated' (halong.2 state' hnext) hrest
        · refine .inl ⟨target, ?_, hfinal⟩
          rw [List.map_cons, walkFrom, hfirst]
          exact hend
        · refine .inr ⟨event :: front, other, last, congrArg (event :: ·) hevents, ?_, hstrays⟩
          rw [List.map_cons, walkFrom, hfirst]
          exact hlast
      · cases events with
        | nil =>
            cases hrest
            exact .inr ⟨[], event, object, rfl, rfl, hstrays⟩
        | cons next later =>
            rw [walkFrom, hends object event state' hstrays next] at hrest
            cases hrest

end Vsnfs.Base
