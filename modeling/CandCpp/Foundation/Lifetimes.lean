import Mathlib.Data.Set.Insert

/-!
# Lifetimes of objects on a heap

A heap numbers the objects that are constructed on it and logs what happens to
each.  It does not check anything: an object may be used and deleted when it is
gone.  A log is sound when neither happens and every object that nobody holds
any more has been deleted once.
-/

namespace CandCpp.Foundation

abbrev ObjectNumber := Nat

inductive LifetimeEvent where
  | constructed (object : ObjectNumber)
  | used (object : ObjectNumber)
  | deleted (object : ObjectNumber)
  deriving DecidableEq, Repr

namespace LifetimeEvent

def object : LifetimeEvent → ObjectNumber
  | .constructed object | .used object | .deleted object => object

/-- The later event needs an object that the earlier one deleted. -/
def Spoils : LifetimeEvent → LifetimeEvent → Prop
  | .deleted object, .used other | .deleted object, .deleted other =>
      object = other
  | .deleted _, .constructed _ | .constructed _, _ | .used _, _ => False

instance : (earlier later : LifetimeEvent) → Decidable (earlier.Spoils later)
  | .deleted object, .used other | .deleted object, .deleted other =>
      inferInstanceAs (Decidable (object = other))
  | .deleted _, .constructed _ | .constructed _, _ | .used _, _ =>
      inferInstanceAs (Decidable False)

end LifetimeEvent

def NeverAfterDeletion (log : List LifetimeEvent) : Prop :=
  log.Pairwise fun earlier later => ¬ earlier.Spoils later

instance (log : List LifetimeEvent) : Decidable (NeverAfterDeletion log) :=
  inferInstanceAs (Decidable (List.Pairwise _ log))

structure Heap where
  objects : Nat
  log : List LifetimeEvent
  deriving DecidableEq, Repr

namespace Heap

def empty : Heap := ⟨0, []⟩

def construct (heap : Heap) : Heap × ObjectNumber :=
  (⟨heap.objects + 1, heap.log ++ [.constructed heap.objects]⟩, heap.objects)

def use (heap : Heap) (object : ObjectNumber) : Heap :=
  { heap with log := heap.log ++ [.used object] }

def delete (heap : Heap) (object : ObjectNumber) : Heap :=
  { heap with log := heap.log ++ [.deleted object] }

def deletions (heap : Heap) (object : ObjectNumber) : Nat :=
  heap.log.count (.deleted object)

/-- `held` are the objects that somebody can still reach. -/
structure Sound (heap : Heap) (held : Set ObjectNumber) : Prop where
  neverAfterDeletion : NeverAfterDeletion heap.log
  deletedOnce : ∀ object, .constructed object ∈ heap.log → object ∉ held →
    heap.deletions object = 1

/-! ## What each operation logs -/

theorem neverAfterDeletion_append_singleton {log : List LifetimeEvent}
    {event : LifetimeEvent} :
    NeverAfterDeletion (log ++ [event]) ↔
      NeverAfterDeletion log ∧ ∀ earlier ∈ log, ¬ earlier.Spoils event := by
  simp [NeverAfterDeletion, List.pairwise_append]

theorem neverAfterDeletion_construct (heap : Heap) :
    NeverAfterDeletion heap.construct.1.log ↔ NeverAfterDeletion heap.log := by
  simp only [construct, neverAfterDeletion_append_singleton]
  refine and_iff_left ?_
  intro earlier _
  cases earlier <;> simp [LifetimeEvent.Spoils]

theorem forall_not_spoils {log : List LifetimeEvent} {event : LifetimeEvent}
    {object : ObjectNumber}
    (hneeds : event = .used object ∨ event = .deleted object) :
    (∀ earlier ∈ log, ¬ earlier.Spoils event) ↔ .deleted object ∉ log := by
  constructor
  · intro h hmem
    apply h _ hmem
    rcases hneeds with rfl | rfl <;> rfl
  · rintro h (_ | _ | other) hmem hspoils
    · rcases hneeds with rfl | rfl <;> cases hspoils
    · rcases hneeds with rfl | rfl <;> cases hspoils
    · rcases hneeds with rfl | rfl <;> exact h (hspoils ▸ hmem)

theorem neverAfterDeletion_use {heap : Heap} {object : ObjectNumber} :
    NeverAfterDeletion (heap.use object).log ↔
      NeverAfterDeletion heap.log ∧ .deleted object ∉ heap.log := by
  rw [use, neverAfterDeletion_append_singleton, forall_not_spoils (.inl rfl)]

theorem neverAfterDeletion_delete {heap : Heap} {object : ObjectNumber} :
    NeverAfterDeletion (heap.delete object).log ↔
      NeverAfterDeletion heap.log ∧ .deleted object ∉ heap.log := by
  rw [delete, neverAfterDeletion_append_singleton, forall_not_spoils (.inr rfl)]

theorem deletions_eq_zero_iff {heap : Heap} {object : ObjectNumber} :
    heap.deletions object = 0 ↔ .deleted object ∉ heap.log :=
  List.count_eq_zero

@[simp] theorem deletions_construct (heap : Heap) (object : ObjectNumber) :
    heap.construct.1.deletions object = heap.deletions object := by
  simp [construct, deletions]

@[simp] theorem deletions_use (heap : Heap) (used object : ObjectNumber) :
    (heap.use used).deletions object = heap.deletions object := by
  simp [use, deletions]

theorem deletions_delete (heap : Heap) (deleted object : ObjectNumber) :
    (heap.delete deleted).deletions object =
      heap.deletions object + if deleted = object then 1 else 0 := by
  simp [delete, deletions, List.count_append, List.count_singleton]

@[simp] theorem constructed_mem_construct {heap : Heap}
    {object : ObjectNumber} :
    .constructed object ∈ heap.construct.1.log ↔
      .constructed object ∈ heap.log ∨ object = heap.objects := by
  simp [construct]

@[simp] theorem constructed_mem_use {heap : Heap} {used object : ObjectNumber} :
    .constructed object ∈ (heap.use used).log ↔
      .constructed object ∈ heap.log := by
  simp [use]

@[simp] theorem constructed_mem_delete {heap : Heap}
    {deleted object : ObjectNumber} :
    .constructed object ∈ (heap.delete deleted).log ↔
      .constructed object ∈ heap.log := by
  simp [delete]

/-! ## Holders that keep their objects alive -/

structure Owned (heap : Heap) (held : Set ObjectNumber) : Prop where
  sound : heap.Sound held
  live : ∀ object ∈ held,
    object < heap.objects ∧ .deleted object ∉ heap.log
  numbered : ∀ event ∈ heap.log, event.object < heap.objects

theorem owned_empty : Owned empty ∅ :=
  ⟨⟨.nil, by simp [empty]⟩, by simp, by simp [empty]⟩

variable {heap : Heap} {held : Set ObjectNumber}

theorem Owned.fresh (h : heap.Owned held) : heap.objects ∉ held := by
  intro hmem
  exact Nat.lt_irrefl _ (h.live _ hmem).1

theorem Owned.numbered_append (h : heap.Owned held) {event : LifetimeEvent}
    (hevent : event.object < heap.objects) :
    ∀ other ∈ heap.log ++ [event], other.object < heap.objects := by
  intro other hother
  rcases List.mem_append.mp hother with hold | hnew
  · exact h.numbered other hold
  · rw [List.mem_singleton.mp hnew]
    exact hevent

theorem Owned.construct (h : heap.Owned held) :
    heap.construct.1.Owned (insert heap.objects held) := by
  have hfresh : .deleted heap.objects ∉ heap.log := fun hmem =>
    Nat.lt_irrefl _ (h.numbered _ hmem)
  refine ⟨⟨?_, ?_⟩, ?_, ?_⟩
  · exact (neverAfterDeletion_construct heap).mpr h.sound.neverAfterDeletion
  · intro object hconstructed hheld
    rw [Set.mem_insert_iff, not_or] at hheld
    rw [deletions_construct]
    refine h.sound.deletedOnce object ?_ hheld.2
    exact (constructed_mem_construct.mp hconstructed).resolve_right hheld.1
  · intro object hmem
    rw [← deletions_eq_zero_iff, deletions_construct, deletions_eq_zero_iff]
    rcases Set.mem_insert_iff.mp hmem with rfl | hold
    · exact ⟨Nat.lt_succ_self _, hfresh⟩
    · exact ⟨Nat.lt_succ_of_lt (h.live object hold).1, (h.live object hold).2⟩
  · intro event hevent
    rcases List.mem_append.mp hevent with hold | hnew
    · exact Nat.lt_succ_of_lt (h.numbered event hold)
    · rw [List.mem_singleton.mp hnew]
      exact Nat.lt_succ_self _

theorem Owned.use (h : heap.Owned held) {object : ObjectNumber}
    (hobject : object ∈ held) : (heap.use object).Owned held := by
  have hlive := h.live object hobject
  refine ⟨⟨?_, ?_⟩, ?_, ?_⟩
  · exact neverAfterDeletion_use.mpr ⟨h.sound.neverAfterDeletion, hlive.2⟩
  · intro other hconstructed hheld
    rw [deletions_use]
    exact h.sound.deletedOnce other (constructed_mem_use.mp hconstructed) hheld
  · intro other hother
    rw [← deletions_eq_zero_iff, deletions_use, deletions_eq_zero_iff]
    exact h.live other hother
  · exact h.numbered_append hlive.1

theorem Owned.delete (h : heap.Owned held) {object : ObjectNumber}
    (hobject : object ∈ held) :
    (heap.delete object).Owned (held \ {object}) := by
  have hlive := h.live object hobject
  refine ⟨⟨?_, ?_⟩, ?_, ?_⟩
  · exact neverAfterDeletion_delete.mpr ⟨h.sound.neverAfterDeletion, hlive.2⟩
  · intro other hconstructed hheld
    rw [deletions_delete]
    by_cases hsame : object = other
    · rw [← hsame, deletions_eq_zero_iff.mpr hlive.2, if_pos rfl]
    · have hgone : other ∉ held := fun hmem =>
        hheld ⟨hmem, fun heq => hsame heq.symm⟩
      rw [if_neg hsame]
      exact h.sound.deletedOnce other (constructed_mem_delete.mp hconstructed)
        hgone
  · rintro other ⟨hother, hne⟩
    rw [← deletions_eq_zero_iff, deletions_delete,
      if_neg fun heq => hne heq.symm, Nat.add_zero, deletions_eq_zero_iff]
    exact h.live other hother
  · exact h.numbered_append hlive.1

end Heap

end CandCpp.Foundation
