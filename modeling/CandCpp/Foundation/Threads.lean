import CandCpp.Foundation.TransitionSystem
import Mathlib.Algebra.BigOperators.Fin
import Mathlib.Algebra.Order.BigOperators.Group.Finset

/-!
# Families of threads

What one thread's step changes in a sum over all threads, and pools of equal
threads that share a memory and take their steps in any order.  A step of a
thread sees the memory, its own state and a choice that its environment makes.
-/

namespace CandCpp.Foundation

variable {count : Nat} {Local : Type}

theorem sum_update (weight : Local → Nat) (locals : Fin count → Local)
    (index : Fin count) (next : Local) :
    ∑ other, weight (Function.update locals index next other) +
        weight (locals index) =
      ∑ other, weight (locals other) + weight next := by
  have hrest : ∑ other ∈ Finset.univ.erase index,
        weight (Function.update locals index next other) =
      ∑ other ∈ Finset.univ.erase index, weight (locals other) := by
    apply Finset.sum_congr rfl
    intro other hother
    rw [Function.update_of_ne (Finset.ne_of_mem_erase hother)]
  rw [← Finset.add_sum_erase _ _ (Finset.mem_univ index), hrest,
    ← Finset.add_sum_erase _ _ (Finset.mem_univ index), Function.update_self]
  omega

theorem le_sum (weight : Local → Nat) (locals : Fin count → Local)
    (index : Fin count) :
    weight (locals index) ≤ ∑ other, weight (locals other) :=
  Finset.single_le_sum (f := fun other => weight (locals other))
    (fun _ _ => Nat.zero_le _) (Finset.mem_univ index)

theorem sum_le (weight : Local → Nat) (locals : Fin count → Local) {bound : Nat}
    (h : ∀ index, weight (locals index) ≤ bound) :
    ∑ index, weight (locals index) ≤ bound * count := by
  have hsum := Finset.sum_le_card_nsmul Finset.univ
    (fun index => weight (locals index)) bound fun index _ => h index
  rwa [Finset.card_univ, Fintype.card_fin, smul_eq_mul, Nat.mul_comm] at hsum

/-! ## Pools -/

structure Pool (count : Nat) (Shared Local : Type) where
  shared : Shared
  locals : Fin count → Local

variable {Shared Choice : Type}

/-- All threads start in `start`, on a memory that satisfies `fresh`. -/
def interleave (count : Nat) (fresh : Shared → Prop) (start : Local)
    (step : Shared → Local → Choice → Option (Shared × Local)) :
    TransitionSystem (Pool count Shared Local) (Fin count × Choice) where
  Initial pool := fresh pool.shared ∧ pool.locals = fun _ => start
  step pool action :=
    (step pool.shared (pool.locals action.1) action.2).map fun next =>
      ⟨next.1, Function.update pool.locals action.1 next.2⟩

variable {fresh : Shared → Prop} {start : Local}
  {step : Shared → Local → Choice → Option (Shared × Local)}

theorem interleave_step_iff {pool next : Pool count Shared Local}
    {index : Fin count} {choice : Choice} :
    (interleave count fresh start step).step pool (index, choice) = some next ↔
      ∃ shared moved, step pool.shared (pool.locals index) choice =
          some (shared, moved) ∧
        next = ⟨shared, Function.update pool.locals index moved⟩ := by
  simp only [interleave, Option.map_eq_some_iff, Prod.exists]
  constructor
  · rintro ⟨shared, moved, hstep, rfl⟩
    exact ⟨shared, moved, hstep, rfl⟩
  · rintro ⟨shared, moved, hstep, rfl⟩
    exact ⟨shared, moved, hstep, rfl⟩

/-- What a thread does by itself, always with the same choice. -/
def solo (step : Shared → Local → Choice → Option (Shared × Local))
    (choice : Choice) : Nat → Shared → Local → Option (Shared × Local)
  | 0, shared, thread => some (shared, thread)
  | fuel + 1, shared, thread =>
      (step shared thread choice).bind fun next =>
        solo step choice fuel next.1 next.2

theorem run_solo (pool : Pool count Shared Local) (index : Fin count)
    (choice : Choice) (fuel : Nat) :
    (interleave count fresh start step).run pool
        (List.replicate fuel (index, choice)) =
      (solo step choice fuel pool.shared (pool.locals index)).map fun last =>
        ⟨last.1, Function.update pool.locals index last.2⟩ := by
  induction fuel generalizing pool with
  | zero => simp [solo]
  | succ fuel ih =>
      rw [List.replicate_succ, TransitionSystem.run_cons, solo]
      cases hstep : step pool.shared (pool.locals index) choice with
      | none => simp [interleave, hstep]
      | some next =>
          simp only [interleave, hstep, Option.map_some, Option.bind_some]
          have hrest := ih ⟨next.1, Function.update pool.locals index next.2⟩
          simp only [interleave, Function.update_self,
            Function.update_idem] at hrest
          exact hrest

end CandCpp.Foundation
