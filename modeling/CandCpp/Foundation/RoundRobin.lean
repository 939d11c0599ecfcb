import Mathlib.Algebra.BigOperators.Fin
import Mathlib.Data.List.Basic

/-!
# Round-robin shares of a list

Dealing the items of a list in turn to `workers` receivers gives receiver
`worker` the items whose position is congruent to it, in the order of the list.
The lemmas say what dealing one more item changes and that the shares together
have as many items as the list.
-/

namespace CandCpp.Foundation

variable {Item : Type}

def share (workers worker : Nat) (items : List Item) : List Item :=
  (items.zipIdx.filter fun entry => entry.2 % workers = worker).map Prod.fst

@[simp] theorem share_nil (workers worker : Nat) :
    share workers worker ([] : List Item) = [] := rfl

theorem share_concat (workers worker : Nat) (items : List Item)
    (item : Item) :
    share workers worker (items ++ [item]) =
      share workers worker items ++
        if items.length % workers = worker then [item] else [] := by
  simp only [share, List.zipIdx_append, List.zipIdx_cons, List.zipIdx_nil,
    List.filter_append, List.map_append, Nat.zero_add]
  congr 1
  split <;> simp_all

theorem share_concat_of_eq {workers worker : Nat} {items : List Item}
    (item : Item) (hturn : items.length % workers = worker) :
    share workers worker (items ++ [item]) =
      share workers worker items ++ [item] := by
  rw [share_concat, if_pos hturn]

theorem share_concat_of_ne {workers worker : Nat} {items : List Item}
    (item : Item) (hturn : items.length % workers ≠ worker) :
    share workers worker (items ++ [item]) = share workers worker items := by
  rw [share_concat, if_neg hturn, List.append_nil]

theorem sum_length_share {workers : Nat} (hworkers : 0 < workers)
    (items : List Item) :
    ∑ worker : Fin workers, (share workers worker items).length =
      items.length := by
  induction items using List.reverseRecOn with
  | nil => simp
  | append_singleton items item ih =>
      let turn : Fin workers :=
        ⟨items.length % workers, Nat.mod_lt _ hworkers⟩
      have hgrow : ∀ worker : Fin workers,
          (share workers worker (items ++ [item])).length =
            (share workers worker items).length +
              if worker = turn then 1 else 0 := by
        intro worker
        by_cases hworker : worker = turn
        · rw [share_concat_of_eq item (by rw [hworker]), if_pos hworker]
          simp
        · have hother : items.length % workers ≠ worker := by
            intro heq
            exact hworker (Fin.ext heq.symm)
          rw [share_concat_of_ne item hother, if_neg hworker, Nat.add_zero]
      simp only [hgrow, Finset.sum_add_distrib, ih, Finset.sum_ite_eq',
        Finset.mem_univ, if_true, List.length_append, List.length_singleton]

end CandCpp.Foundation
