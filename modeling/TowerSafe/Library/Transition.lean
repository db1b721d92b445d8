/-
This file is a small library of guarded transition systems: a partial step function, the
condition under which a step is considered, and the states a run reaches. The rules are the
induction principles the rest of the development uses: an invariant of one step is an
invariant of every run, a run under a stronger condition is a run under a weaker one, and a
concrete list of actions that executes is a run.
-/

import Mathlib.Data.List.Basic

namespace TowerSafe.Library

variable {State Action : Type}

/-- The states reached from `start` by steps that all meet `condition`. The condition sees
the state before the step and the action, never what the step computes. -/
inductive Reachable (step : State → Action → Option State) (condition : State → Action → Prop)
    (start : State → Prop) : State → Prop
  | start {state : State} (initial : start state) : Reachable step condition start state
  | step {state next : State} {action : Action} (reached : Reachable step condition start state)
      (meets : condition state action) (result : step state action = some next) :
      Reachable step condition start next

namespace Reachable

variable {step : State → Action → Option State} {condition weaker : State → Action → Prop}
  {start : State → Prop} {state : State}

theorem invariant {holds : State → Prop} (initial : ∀ state, start state → holds state)
    (preserved : ∀ state action next, Reachable step condition start state → holds state →
      condition state action → step state action = some next → holds next)
    (reached : Reachable step condition start state) : holds state := by
  induction reached with
  | start first => exact initial _ first
  | step reached meets result hypothesis =>
    exact preserved _ _ _ reached hypothesis meets result

theorem mono (imp : ∀ state action, condition state action → weaker state action)
    (reached : Reachable step condition start state) : Reachable step weaker start state := by
  induction reached with
  | start first => exact .start first
  | step _ meets result hypothesis =>
    exact .step hypothesis (imp _ _ meets) result

end Reachable

/-- Execute a list of actions, each of which has to be enabled and to meet the condition. -/
def execute (step : State → Action → Option State) (condition : State → Action → Bool) :
    State → List Action → Option State
  | state, [] => some state
  | state, action :: rest =>
      if condition state action then
        (step state action).bind fun next => execute step condition next rest
      else none

theorem Reachable.of_execute {step : State → Action → Option State}
    {condition : State → Action → Prop} {test : State → Action → Bool} {start : State → Prop}
    (sound : ∀ state action, test state action = true → condition state action)
    (actions : List Action) {state last : State} (reached : Reachable step condition start state)
    (result : execute step test state actions = some last) :
    Reachable step condition start last := by
  induction actions generalizing state with
  | nil =>
    obtain rfl : state = last := Option.some.inj result
    exact reached
  | cons action rest hypothesis =>
    simp only [execute] at result
    split at result
    · rename_i meets
      obtain ⟨next, taken, remaining⟩ := Option.bind_eq_some_iff.mp result
      exact hypothesis (reached.step (sound _ _ meets) taken) remaining
    · exact absurd result (by simp)

end TowerSafe.Library
