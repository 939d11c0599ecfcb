import CandCpp.Foundation.Fallible

/-!
# Iterators into a vector

An iterator is a position, and the position one behind the last element is the
end.  Going through an iterator that does not point to an element, advancing it
and erasing at it are faults.  Erasing an element keeps the positions of all
iterators.
-/

namespace CandCpp.Foundation

inductive IteratorFault where
  | dereference (position : Nat)
  | advance (position : Nat)
  | erase (position : Nat)
  deriving DecidableEq, Repr

namespace VectorIterator

variable {α : Type}

def dereference (vector : List α) (position : Nat) : Except IteratorFault α :=
  match vector[position]? with
  | some item => .ok item
  | none => .error (.dereference position)

def advance (vector : List α) (position : Nat) : Except IteratorFault Nat :=
  if position < vector.length then .ok (position + 1)
  else .error (.advance position)

def erase (vector : List α) (position : Nat) :
    Except IteratorFault (List α) :=
  if position < vector.length then .ok (vector.eraseIdx position)
  else .error (.erase position)

variable (done rest : List α) (item : α)

@[simp] theorem dereference_append :
    dereference (done ++ item :: rest) done.length = .ok item := by
  simp [dereference]

@[simp] theorem advance_append :
    advance (done ++ item :: rest) done.length = .ok (done.length + 1) := by
  simp [advance]

@[simp] theorem erase_append :
    erase (done ++ item :: rest) done.length = .ok (done ++ rest) := by
  simp [erase, List.eraseIdx_append_of_length_le]

theorem dereference_of_le {vector : List α} {position : Nat}
    (h : vector.length ≤ position) :
    dereference vector position = .error (.dereference position) := by
  simp [dereference, List.getElem?_eq_none h]

theorem lt_of_advance {vector : List α} {position next : Nat}
    (h : advance vector position = .ok next) :
    position < vector.length ∧ next = position + 1 := by
  unfold advance at h
  split at h <;> cases h
  exact ⟨by assumption, rfl⟩

theorem length_of_erase {vector remaining : List α} {position : Nat}
    (h : erase vector position = .ok remaining) :
    remaining.length = vector.length - 1 := by
  unfold erase at h
  split at h <;> cases h
  rename_i hlt
  exact List.length_eraseIdx_of_lt hlt

end VectorIterator

end CandCpp.Foundation
