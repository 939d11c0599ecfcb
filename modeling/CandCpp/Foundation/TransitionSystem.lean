import Mathlib.Data.List.Induction

/-!
# Transition systems with a partial step function

A system is a set of initial states and a step function that is undefined
where an action is not enabled.  Runs are lists of actions, so that one
definition serves replay, reachability and the induction principles for
invariants.
-/

namespace CandCpp.Foundation

structure TransitionSystem (State Action : Type) where
  Initial : State → Prop
  step : State → Action → Option State

namespace TransitionSystem

variable {State Action : Type} (system : TransitionSystem State Action)

def run (state : State) (actions : List Action) : Option State :=
  actions.foldlM system.step state

@[simp] theorem run_nil (state : State) :
    system.run state [] = some state := rfl

@[simp] theorem run_cons (state : State) (action : Action)
    (actions : List Action) :
    system.run state (action :: actions) =
      (system.step state action).bind fun next => system.run next actions :=
  rfl

theorem run_append (state : State) (first second : List Action) :
    system.run state (first ++ second) =
      (system.run state first).bind fun next => system.run next second := by
  simp only [run, List.foldlM_append]
  rfl

/--
The states reached from an initial state by actions that satisfy `allowed` in
the state in which they are performed.
-/
inductive ReachableBy (allowed : State → Action → Prop) : State → Prop
  | initial {state : State} :
      system.Initial state → ReachableBy allowed state
  | next {state next : State} {action : Action} :
      ReachableBy allowed state → allowed state action →
      system.step state action = some next → ReachableBy allowed next

def Reachable (state : State) : Prop :=
  system.ReachableBy (fun _ _ => True) state

variable {system}

theorem ReachableBy.invariant {allowed : State → Action → Prop}
    (Inv : State → Prop)
    (hinitial : ∀ state, system.Initial state → Inv state)
    (hstep : ∀ state action next, Inv state → allowed state action →
      system.step state action = some next → Inv next)
    {state : State} (h : system.ReachableBy allowed state) : Inv state := by
  induction h with
  | initial hstart => exact hinitial _ hstart
  | next _ hallowed hnext ih => exact hstep _ _ _ ih hallowed hnext

theorem Reachable.invariant (Inv : State → Prop)
    (hinitial : ∀ state, system.Initial state → Inv state)
    (hstep : ∀ state action next, Inv state →
      system.step state action = some next → Inv next)
    {state : State} (h : system.Reachable state) : Inv state :=
  ReachableBy.invariant Inv hinitial
    (fun state action next hinv _ => hstep state action next hinv) h

theorem ReachableBy.mono {allowed permitted : State → Action → Prop}
    (himp : ∀ state action, allowed state action → permitted state action)
    {state : State} (h : system.ReachableBy allowed state) :
    system.ReachableBy permitted state := by
  induction h with
  | initial hstart => exact .initial hstart
  | next _ hallowed hnext ih => exact .next ih (himp _ _ hallowed) hnext

theorem ReachableBy.reachable {allowed : State → Action → Prop} {state : State}
    (h : system.ReachableBy allowed state) : system.Reachable state :=
  h.mono fun _ _ _ => trivial

theorem Reachable.run {state next : State} {actions : List Action}
    (hstart : system.Reachable state)
    (hrun : system.run state actions = some next) : system.Reachable next := by
  induction actions generalizing state with
  | nil =>
      simp only [run_nil, Option.some.injEq] at hrun
      exact hrun ▸ hstart
  | cons action actions ih =>
      simp only [run_cons, Option.bind_eq_some_iff] at hrun
      obtain ⟨middle, hstep, hrest⟩ := hrun
      exact ih (.next hstart trivial hstep) hrest

theorem Reachable.of_run {start state : State} {actions : List Action}
    (hinitial : system.Initial start)
    (hrun : system.run start actions = some state) : system.Reachable state :=
  Reachable.run (.initial hinitial) hrun

/-- Induction over a run for statements that also see the actions performed. -/
theorem run_induction {start : State} {motive : List Action → State → Prop}
    (hstart : motive [] start)
    (hstep : ∀ actions state action next, motive actions state →
      system.step state action = some next →
      motive (actions ++ [action]) next)
    {actions : List Action} {state : State}
    (hrun : system.run start actions = some state) :
    motive actions state := by
  induction actions using List.reverseRecOn generalizing state with
  | nil =>
      simp only [run_nil, Option.some.injEq] at hrun
      exact hrun ▸ hstart
  | append_singleton actions action ih =>
      simp only [run_append, run_cons, run_nil, Option.bind_eq_some_iff] at hrun
      obtain ⟨middle, hmiddle, last, hlast, heq⟩ := hrun
      simp only [Option.some.injEq] at heq
      exact heq ▸ hstep actions middle action last (ih hmiddle) hlast

/-! ## Conditions on the steps of a run -/

variable (system) in
/-- Every action is `allowed` in the state in which it is performed. -/
def Follows (allowed : State → Action → Prop) : State → List Action → Prop
  | _, [] => True
  | state, action :: actions =>
      allowed state action ∧ ∀ next, system.step state action = some next →
        Follows allowed next actions

theorem follows_append_singleton {allowed : State → Action → Prop}
    {start state : State} {actions : List Action}
    (hrun : system.run start actions = some state) (action : Action) :
    system.Follows allowed start (actions ++ [action]) ↔
      system.Follows allowed start actions ∧ allowed state action := by
  induction actions generalizing start with
  | nil =>
      simp only [run_nil, Option.some.injEq] at hrun
      simp [Follows, hrun]
  | cons first actions ih =>
      simp only [run_cons, Option.bind_eq_some_iff] at hrun
      obtain ⟨middle, hmiddle, hrest⟩ := hrun
      simp [Follows, hmiddle, ih hrest, and_assoc]

/--
While a run follows the condition its states are kept, and from the first step
on that breaks the condition they are broken.
-/
theorem follows_cases {allowed : State → Action → Prop} {start : State}
    {Kept Broken : State → Prop} (hstart : Kept start)
    (hkept : ∀ state action next, Kept state → allowed state action →
      system.step state action = some next → Kept next)
    (hbreaks : ∀ state action next, Kept state → ¬ allowed state action →
      system.step state action = some next → Broken next)
    (hbroken : ∀ state action next, Broken state →
      system.step state action = some next → Broken next)
    {actions : List Action} {state : State}
    (hrun : system.run start actions = some state) :
    (system.Follows allowed start actions ∧ Kept state) ∨
      (¬ system.Follows allowed start actions ∧ Broken state) := by
  induction actions using List.reverseRecOn generalizing state with
  | nil =>
      simp only [run_nil, Option.some.injEq] at hrun
      exact .inl ⟨trivial, hrun ▸ hstart⟩
  | append_singleton actions action ih =>
      simp only [run_append, run_cons, run_nil, Option.bind_eq_some_iff] at hrun
      obtain ⟨middle, hmiddle, last, hlast, heq⟩ := hrun
      cases heq
      rw [follows_append_singleton hmiddle]
      rcases ih hmiddle with ⟨hfollows, hinv⟩ | ⟨hnot, hinv⟩
      · by_cases hallowed : allowed middle action
        · exact .inl ⟨⟨hfollows, hallowed⟩, hkept _ _ _ hinv hallowed hlast⟩
        · exact .inr ⟨fun h => hallowed h.2, hbreaks _ _ _ hinv hallowed hlast⟩
      · exact .inr ⟨fun h => hnot h.1, hbroken _ _ _ hinv hlast⟩

end TransitionSystem

end CandCpp.Foundation
