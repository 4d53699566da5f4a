import Mathlib.Algebra.Group.Hom.Defs
import Mathlib.Algebra.Order.Monoid.Unbundled.Basic
import Mathlib.Algebra.Group.Nat.Hom
import Mathlib.Algebra.Order.Monoid.Defs
import Mathlib.Algebra.Group.Basic
import Mathlib.Tactic.Abel
import Vsnfs.BaseRun

/-! What the steps of a run add to an account. The amounts come from any commutative monoid, so that the
account may be a number or a collection of things. A relation between a state and the account that each
step keeps holds at the end with the sum over the run, and steps that always add something bound the sum
from below. -/

namespace Vsnfs.Base

variable {State Event Amount : Type} [AddCommMonoid Amount]

/-- The sum of what each step of the run adds, from the state it is made in. -/
def sumAlong (step : State → Event → State) (gain : State → Event → Amount) : State → List Event → Amount
  | _, [] => 0
  | state, event :: events => gain state event + sumAlong step gain (step state event) events

variable {step : State → Event → State} {gain : State → Event → Amount}

theorem sumAlong_nil (start : State) : sumAlong step gain start [] = 0 := rfl

theorem sumAlong_cons (start : State) (event : Event) (events : List Event) :
    sumAlong step gain start (event :: events) =
      gain start event + sumAlong step gain (step start event) events := rfl

/-- **The ledger rule.** What every step keeps with its own amount, a run keeps with the sum. -/
theorem run_balanced {Balanced : State → Amount → Prop}
    (hstep : ∀ state event account, Balanced state account →
      Balanced (step state event) (account + gain state event))
    {start : State} {account : Amount} (hstart : Balanced start account) (events : List Event) :
    Balanced (runFrom step start events) (account + sumAlong step gain start events) := by
  induction events generalizing start account with
  | nil =>
      rw [sumAlong_nil, add_zero]
      exact hstart
  | cons event events ih =>
      rw [sumAlong_cons, ← add_assoc]
      exact ih (hstep start event account hstart)

/-- A sum over the run, seen through a map that keeps sums. -/
theorem map_sumAlong {Other : Type} [AddCommMonoid Other] (map : Amount →+ Other) (start : State)
    (events : List Event) :
    map (sumAlong step gain start events) =
      sumAlong step (fun state event => map (gain state event)) start events := by
  induction events generalizing start with
  | nil => exact map.map_zero
  | cons event events ih => rw [sumAlong_cons, map_add, ih, sumAlong_cons]

/-- **The balance sheet.** Where each step changes the account by what the state is worth more, and by a loss, the
account of a run is the worth that was gained and the losses on the way. -/
theorem sumAlong_worth {Account : Type} [AddCommGroup Account] {change loss : State → Event → Account}
    (worth : State → Account) {start : State} {events : List Event}
    (halong : Along step (fun state event =>
      change state event = worth (step state event) - worth state + loss state event) start events) :
    sumAlong step change start events =
      worth (runFrom step start events) - worth start + sumAlong step loss start events := by
  induction events generalizing start with
  | nil =>
      rw [sumAlong_nil, sumAlong_nil, add_zero]
      exact (sub_self _).symm
  | cons event events ih =>
      obtain ⟨hfirst, hrest⟩ := halong
      rw [sumAlong_cons, sumAlong_cons, hfirst, ih hrest]
      change _ = worth (runFrom step (step start event) events) - worth start + _
      abel

theorem sumAlong_of_zero {start : State} {events : List Event}
    (halong : Along step (fun state event => gain state event = 0) start events) :
    sumAlong step gain start events = 0 := by
  induction events generalizing start with
  | nil => rfl
  | cons event events ih => rw [sumAlong_cons, halong.1, ih halong.2, add_zero]

/-- A sum of amounts that are never negative is zero exactly when each of them is. -/
theorem sumAlong_eq_zero_iff [PartialOrder Amount] [IsOrderedAddMonoid Amount] {start : State}
    {events : List Event} (hnonneg : ∀ state event, 0 ≤ gain state event) :
    sumAlong step gain start events = 0 ↔ Along step (fun state event => gain state event = 0) start events := by
  have hsum : ∀ (events : List Event) (start : State), 0 ≤ sumAlong step gain start events := by
    intro events
    induction events with
    | nil => exact fun _ => le_refl 0
    | cons event events ih => exact fun start => add_nonneg (hnonneg start event) (ih (step start event))
  induction events generalizing start with
  | nil => exact iff_of_true rfl trivial
  | cons event events ih =>
      rw [sumAlong_cons, add_eq_zero_iff_of_nonneg (hnonneg start event) (hsum events _)]
      exact and_congr Iff.rfl ih

/-- Where each event of a kind adds something of weight, the sum weighs at least their number. -/
theorem countP_le_sumAlong (weight : Amount →+ Nat) {kind : Event → Bool} {start : State} {events : List Event}
    (halong : Along step (fun state event => kind event = true → 1 ≤ weight (gain state event)) start events) :
    events.countP kind ≤ weight (sumAlong step gain start events) := by
  induction events generalizing start with
  | nil => exact Nat.zero_le _
  | cons event events ih =>
      obtain ⟨hfirst, hrest⟩ := halong
      rw [sumAlong_cons, map_add]
      have hlater := ih hrest
      by_cases hkind : kind event = true
      · rw [List.countP_cons_of_pos hkind, Nat.add_comm]
        exact Nat.add_le_add (hfirst hkind) hlater
      · rw [List.countP_cons_of_neg hkind]
        exact hlater.trans (Nat.le_add_left _ _)

end Vsnfs.Base
