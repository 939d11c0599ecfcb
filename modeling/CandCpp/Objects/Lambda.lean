import CandCpp.Foundation.FunctionObjects

/-!
# The callbacks of cppLamda.cpp and cppLamdaNotNew2.cpp

`returnLamdaFunc` returns a `FilterFactoryCb` that holds a closure with a
`Tclass` object.  In cppLamda.cpp the closure holds a pointer to an object made
with `new`, which the call deletes; in cppLamdaNotNew2.cpp it holds the object.
-/

namespace CandCpp.Objects.Lambda

open CandCpp.Foundation

/-! ## The two closure types -/

namespace CppLamda

/-- `new Tclass()`, and a closure with the pointer `t`. -/
def returnLamdaFunc (heap : Heap) : Heap × ObjectNumber := heap.construct

/-- A call makes `t->display()` and `delete t`. -/
def closure : ClosureType Heap ObjectNumber where
  create := returnLamdaFunc
  copy heap t := (heap, t)
  call heap t := (heap.use t).delete t
  destroy heap _ := heap

end CppLamda

namespace CppLamdaNotNew2

def copyTclass (heap : Heap) (pTC : ObjectNumber) : Heap × ObjectNumber :=
  (heap.use pTC).construct

/-- The local `t`, its copy in the lambda expression and the copy of that in
the `FilterFactoryCb`, which is the one that is left. -/
def returnLamdaFunc (heap : Heap) : Heap × ObjectNumber :=
  let (made, t) := heap.construct
  let (captured, lambda) := copyTclass made t
  let (stored, callback) := copyTclass captured lambda
  ((stored.delete lambda).delete t, callback)

def closure : ClosureType Heap ObjectNumber where
  create := returnLamdaFunc
  copy := copyTclass
  call heap t := heap.use t
  destroy heap t := heap.delete t

end CppLamdaNotNew2

/-! ## Lifetimes -/

variable {Var : Type} [DecidableEq Var]

def run (closure : ClosureType Heap ObjectNumber)
    (operations : List (CallbackOperation Var)) :
    Option (Callbacks Var Heap ObjectNumber) :=
  (Callbacks.system closure .empty).run (.start .empty) operations

abbrev SoundLifetimes (state : Callbacks Var Heap ObjectNumber) : Prop :=
  state.world.Sound (heldBy state.closures)

/-- The callbacks made, and for each call which of them or of its copies was
called. -/
structure Calls where
  made : Nat
  calls : List Nat

def countCalls : ClosureType Calls Nat where
  create view := ({ view with made := view.made + 1 }, view.made)
  copy view callback := (view, callback)
  call view callback := { view with calls := view.calls ++ [callback] }
  destroy view _ := view

def countedRun (operations : List (CallbackOperation Var)) :
    Option (Callbacks Var Calls Nat) :=
  (Callbacks.system countCalls ⟨0, []⟩).run (.start ⟨0, []⟩) operations

/-- No callback is called twice, through whichever of its copies, and one that
has no copy left has been called. -/
structure EachCalledOnce (counted : Callbacks Var Calls Nat) : Prop where
  atMostOnce : ∀ callback, counted.world.calls.count callback ≤ 1
  beforeLast : ∀ callback < counted.world.made,
    callback ∉ heldBy counted.closures → callback ∈ counted.world.calls

def CalledOnce (operations : List (CallbackOperation Var)) : Prop :=
  ∃ counted, countedRun operations = some counted ∧ EachCalledOnce counted

/-! ## A pointer in the closure -/

/-- The log of cppLamda.cpp in terms of the calls that were made. -/
structure Counts (heap : Heap) (view : Calls) : Prop where
  objects : heap.objects = view.made
  constructed : ∀ object, .constructed object ∈ heap.log ↔
    object < heap.objects
  deletions : ∀ object, heap.deletions object = view.calls.count object
  neverAfterDeletion : NeverAfterDeletion heap.log ↔
    ∀ object, view.calls.count object ≤ 1

variable {heap : Heap} {view : Calls}

theorem counts_empty : Counts .empty ⟨0, []⟩ := by
  refine ⟨rfl, ?_, fun _ => rfl, ?_⟩
  · simp [Heap.empty]
  · exact iff_of_true .nil (by simp)

theorem Counts.create (h : Counts heap view) :
    Counts heap.construct.1 { view with made := view.made + 1 } := by
  refine ⟨congrArg (· + 1) h.objects, ?_, ?_, ?_⟩
  · intro object
    rw [Heap.constructed_mem_construct, h.constructed]
    exact Nat.lt_succ_iff_lt_or_eq.symm
  · intro object
    rw [Heap.deletions_construct, h.deletions]
  · rw [Heap.neverAfterDeletion_construct, h.neverAfterDeletion]

theorem count_append_le_one_iff {calls : List Nat} {callback : Nat} :
    (∀ other, (calls ++ [callback]).count other ≤ 1) ↔
      (∀ other, calls.count other ≤ 1) ∧ calls.count callback = 0 := by
  simp only [List.count_append, List.count_singleton, beq_iff_eq]
  constructor
  · intro h
    refine ⟨fun other => ?_, ?_⟩
    · exact Nat.le_trans (Nat.le_add_right _ _) (h other)
    · have hcallback := h callback
      rw [if_pos rfl] at hcallback
      omega
  · rintro ⟨hcount, hzero⟩ other
    split
    · rename_i hsame
      rw [← hsame, hzero]
    · exact hcount other

theorem Counts.call (h : Counts heap view) (t : ObjectNumber) :
    Counts ((heap.use t).delete t)
      { view with calls := view.calls ++ [t] } := by
  refine ⟨h.objects, ?_, ?_, ?_⟩
  · intro object
    rw [Heap.constructed_mem_delete, Heap.constructed_mem_use]
    exact h.constructed object
  · intro object
    rw [Heap.deletions_delete, Heap.deletions_use, h.deletions,
      List.count_append, List.count_singleton]
    simp only [beq_iff_eq]
  · rw [count_append_le_one_iff, Heap.neverAfterDeletion_delete,
      ← Heap.deletions_eq_zero_iff, Heap.deletions_use,
      Heap.neverAfterDeletion_use, ← Heap.deletions_eq_zero_iff, h.deletions,
      h.neverAfterDeletion, and_assoc, and_self]

theorem cppLamda_simulates : CppLamda.closure.Simulates countCalls Counts where
  create h := ⟨h.create, h.objects⟩
  copy _ h := ⟨h, rfl⟩
  call t h := h.call t
  destroy _ h := h

omit [DecidableEq Var] in
theorem Counts.sound_iff (h : Counts heap view)
    (closures : Var → Option ObjectNumber) :
    heap.Sound (heldBy closures) ↔ EachCalledOnce ⟨view, closures⟩ := by
  constructor
  · intro hsound
    have honce := h.neverAfterDeletion.mp hsound.neverAfterDeletion
    refine ⟨honce, fun callback hmade hgone => ?_⟩
    have hconstructed := (h.constructed callback).mpr (h.objects ▸ hmade)
    have hdeleted := hsound.deletedOnce callback hconstructed hgone
    rw [h.deletions] at hdeleted
    exact List.count_pos_iff.mp (hdeleted ▸ Nat.zero_lt_one)
  · intro hcalled
    refine ⟨h.neverAfterDeletion.mpr hcalled.atMostOnce, ?_⟩
    intro object hconstructed hgone
    have hmade := h.objects ▸ (h.constructed object).mp hconstructed
    have hcount := List.count_pos_iff.mpr
      (hcalled.beforeLast object hmade hgone)
    rw [h.deletions]
    exact Nat.le_antisymm (hcalled.atMostOnce object) hcount

theorem cppLamda_sound_iff {operations : List (CallbackOperation Var)}
    {state : Callbacks Var Heap ObjectNumber}
    (hrun : run CppLamda.closure operations = some state) :
    SoundLifetimes state ↔ CalledOnce operations := by
  obtain ⟨view, hcounted, hcounts⟩ := cppLamda_simulates.run counts_empty hrun
  have hcalled : CalledOnce operations ↔
      EachCalledOnce ⟨view, state.closures⟩ := by
    constructor
    · rintro ⟨counted, hsame, hcalled⟩
      cases hcounted.symm.trans hsame
      exact hcalled
    · intro hcalled
      exact ⟨_, hcounted, hcalled⟩
  rw [hcalled]
  exact hcounts.sound_iff state.closures

/-! ## An object in the closure -/

variable {held : Set ObjectNumber}

theorem copyTclass_owned (h : heap.Owned held) {pTC : ObjectNumber}
    (hpTC : pTC ∈ held) :
    (CppLamdaNotNew2.copyTclass heap pTC).1.Owned
        (insert (CppLamdaNotNew2.copyTclass heap pTC).2 held) ∧
      (CppLamdaNotNew2.copyTclass heap pTC).2 ∉ held :=
  ⟨(h.use hpTC).construct, (h.use hpTC).fresh⟩

/-- Of the three objects made only the last is left. -/
theorem sdiff_temporaries {t lambda callback : ObjectNumber} (ht : t ∉ held)
    (hlambda : lambda ∉ insert t held)
    (hcallback : callback ∉ insert lambda (insert t held)) :
    (insert callback (insert lambda (insert t held)) \ {lambda}) \ {t} =
      insert callback held := by
  simp only [Set.mem_insert_iff, not_or] at hlambda hcallback
  ext object
  simp only [Set.mem_sdiff, Set.mem_insert_iff, Set.mem_singleton_iff]
  grind

theorem returnLamdaFunc_owned (h : heap.Owned held) :
    (CppLamdaNotNew2.returnLamdaFunc heap).1.Owned
        (insert (CppLamdaNotNew2.returnLamdaFunc heap).2 held) ∧
      (CppLamdaNotNew2.returnLamdaFunc heap).2 ∉ held := by
  have hmade := h.construct
  obtain ⟨hcaptured, hlambda⟩ :=
    copyTclass_owned hmade (Set.mem_insert _ held)
  obtain ⟨hstored, hcallback⟩ :=
    copyTclass_owned hcaptured (Set.mem_insert _ _)
  have hwithout := hstored.delete (.inr (Set.mem_insert _ _))
  have hne : heap.objects ≠
      (CppLamdaNotNew2.copyTclass heap.construct.1 heap.objects).2 := by
    intro heq
    exact hlambda (heq ▸ Set.mem_insert _ held)
  have hdone := hwithout.delete
    ⟨.inr (.inr (Set.mem_insert heap.objects held)), hne⟩
  rw [sdiff_temporaries h.fresh hlambda hcallback] at hdone
  exact ⟨hdone, fun hmem => hcallback (.inr (.inr hmem))⟩

theorem cppLamdaNotNew2_ownsObject : CppLamdaNotNew2.closure.OwnsObject where
  create h := returnLamdaFunc_owned h
  copy h hsource := copyTclass_owned h hsource
  call h hclosure := h.use hclosure
  destroy h hclosure := h.delete hclosure

/-! ## Both programs -/

theorem callbacks_soundLifetimes (operations : List (CallbackOperation Var)) :
    (∀ state, run CppLamda.closure operations = some state →
      (SoundLifetimes state ↔ CalledOnce operations)) ∧
    ∀ state, run CppLamdaNotNew2.closure operations = some state →
      SoundLifetimes state :=
  ⟨fun _ => cppLamda_sound_iff, fun _ => cppLamdaNotNew2_ownsObject.run⟩

/-- A callback is copied, the copy is called and both are destroyed. -/
def copyCalled : List (CallbackOperation Nat) :=
  [.create 0, .copy 1 0, .call 1, .destroy 0, .destroy 1]

theorem copyCalled_soundLifetimes :
    ∃ pointer value, run CppLamda.closure copyCalled = some pointer ∧
      run CppLamdaNotNew2.closure copyCalled = some value ∧
      SoundLifetimes pointer ∧ SoundLifetimes value := by
  have h := callbacks_soundLifetimes copyCalled
  refine ⟨_, _, rfl, rfl, (h.1 _ rfl).mpr ?_, h.2 _ rfl⟩
  refine ⟨_, rfl, List.nodup_iff_count.mp (List.pairwise_singleton _ 0), ?_⟩
  intro callback hmade _
  exact List.mem_singleton.mpr (Nat.lt_one_iff.mp hmade)

/-- A callback and its copy are both called, another callback never is. -/
def calledTwice : List (CallbackOperation Nat) :=
  [.create 0, .copy 1 0, .call 0, .call 1, .create 2, .destroy 2]

theorem cppLamda_deletesTwice :
    ∃ state, run CppLamda.closure calledTwice = some state ∧
      state.world.log =
        [.constructed 0, .used 0, .deleted 0, .used 0, .deleted 0,
          .constructed 1] ∧
      ¬ ∀ (operations : List (CallbackOperation Nat)) state,
        run CppLamda.closure operations = some state →
          SoundLifetimes state := by
  refine ⟨_, rfl, rfl, ?_⟩
  intro hsound
  have hnever := (hsound calledTwice _ rfl).neverAfterDeletion
  exact absurd hnever (by decide)

end CandCpp.Objects.Lambda
