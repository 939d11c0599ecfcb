import CandCpp.Foundation.Lifetimes
import CandCpp.Foundation.TransitionSystem
import Mathlib.Order.BooleanAlgebra.Set

/-!
# Variables that hold function objects

A `std::function` holds a closure, copies it when it is copied and destroys it
when it is destroyed or overwritten.  What these and a call do to the rest of
the program is a matter of the closure's type.  Two closure types that differ in
what they keep of the world run in step; closures that own one object each keep
all lifetimes sound.
-/

namespace CandCpp.Foundation

structure ClosureType (World Closure : Type) where
  create : World → World × Closure
  copy : World → Closure → World × Closure
  call : World → Closure → World
  destroy : World → Closure → World

inductive CallbackOperation (Var : Type) where
  | create (callback : Var)
  | copy (callback other : Var)
  | assign (callback other : Var)
  | call (callback : Var)
  | destroy (callback : Var)
  deriving DecidableEq, Repr

structure Callbacks (Var World Closure : Type) where
  world : World
  closures : Var → Option Closure

variable {Var World Closure : Type} [DecidableEq Var]

namespace Callbacks

def start (world : World) : Callbacks Var World Closure :=
  ⟨world, fun _ => none⟩

def set (state : Callbacks Var World Closure) (world : World) (callback : Var)
    (closure : Option Closure) : Callbacks Var World Closure :=
  ⟨world, Function.update state.closures callback closure⟩

/-- An assignment copies before it destroys what the variable held. -/
def perform (type : ClosureType World Closure)
    (state : Callbacks Var World Closure) :
    CallbackOperation Var → Option (Callbacks Var World Closure)
  | .create callback =>
      match state.closures callback with
      | some _ => none
      | none =>
          let (world, closure) := type.create state.world
          some (state.set world callback (some closure))
  | .copy callback other =>
      match state.closures callback, state.closures other with
      | none, some source =>
          let (world, closure) := type.copy state.world source
          some (state.set world callback (some closure))
      | none, none | some _, _ => none
  | .assign callback other =>
      match state.closures callback, state.closures other with
      | some old, some source =>
          let (world, closure) := type.copy state.world source
          some (state.set (type.destroy world old) callback (some closure))
      | none, _ | some _, none => none
  | .call callback =>
      (state.closures callback).map fun closure =>
        { state with world := type.call state.world closure }
  | .destroy callback =>
      (state.closures callback).map fun closure =>
        state.set (type.destroy state.world closure) callback none

def system (type : ClosureType World Closure) (world : World) :
    TransitionSystem (Callbacks Var World Closure) (CallbackOperation Var) where
  Initial state := state = start world
  step := perform type

inductive Performs (type : ClosureType World Closure)
    (state : Callbacks Var World Closure) :
    CallbackOperation Var → Callbacks Var World Closure → Prop
  | create {callback : Var} : state.closures callback = none →
      Performs type state (.create callback)
        (state.set (type.create state.world).1 callback
          (some (type.create state.world).2))
  | copy {callback other : Var} {source : Closure} :
      state.closures callback = none → state.closures other = some source →
      Performs type state (.copy callback other)
        (state.set (type.copy state.world source).1 callback
          (some (type.copy state.world source).2))
  | assign {callback other : Var} {old source : Closure} :
      state.closures callback = some old →
      state.closures other = some source →
      Performs type state (.assign callback other)
        (state.set (type.destroy (type.copy state.world source).1 old) callback
          (some (type.copy state.world source).2))
  | call {callback : Var} {closure : Closure} :
      state.closures callback = some closure →
      Performs type state (.call callback)
        { state with world := type.call state.world closure }
  | destroy {callback : Var} {closure : Closure} :
      state.closures callback = some closure →
      Performs type state (.destroy callback)
        (state.set (type.destroy state.world closure) callback none)

theorem perform_eq_some_iff {type : ClosureType World Closure}
    {state next : Callbacks Var World Closure}
    {operation : CallbackOperation Var} :
    perform type state operation = some next ↔
      Performs type state operation next := by
  constructor
  · intro h
    cases operation with
    | create callback =>
        simp only [perform] at h
        split at h <;> cases h
        exact .create ‹_›
    | copy callback other =>
        simp only [perform] at h
        split at h <;> cases h
        exact .copy ‹_› ‹_›
    | assign callback other =>
        simp only [perform] at h
        split at h <;> cases h
        exact .assign ‹_› ‹_›
    | call callback =>
        obtain ⟨closure, hclosure, rfl⟩ := Option.map_eq_some_iff.mp h
        exact .call hclosure
    | destroy callback =>
        obtain ⟨closure, hclosure, rfl⟩ := Option.map_eq_some_iff.mp h
        exact .destroy hclosure
  · intro h
    cases h with
    | create hnone => simp [perform, hnone]
    | copy hnone hsource => simp [perform, hnone, hsource]
    | assign hold hsource => simp [perform, hold, hsource]
    | call hclosure => simp [perform, hclosure]
    | destroy hclosure => simp [perform, hclosure]

end Callbacks

/-! ## Closure types that run in step -/

namespace ClosureType

variable {Other : Type}

/-- Both types make the same closures, and the worlds stay related. -/
structure Simulates (type : ClosureType World Closure)
    (other : ClosureType Other Closure) (Related : World → Other → Prop) :
    Prop where
  create : ∀ {world view}, Related world view →
    Related (type.create world).1 (other.create view).1 ∧
      (type.create world).2 = (other.create view).2
  copy : ∀ {world view} closure, Related world view →
    Related (type.copy world closure).1 (other.copy view closure).1 ∧
      (type.copy world closure).2 = (other.copy view closure).2
  call : ∀ {world view} closure, Related world view →
    Related (type.call world closure) (other.call view closure)
  destroy : ∀ {world view} closure, Related world view →
    Related (type.destroy world closure) (other.destroy view closure)

variable {type : ClosureType World Closure}
  {other : ClosureType Other Closure} {Related : World → Other → Prop}

theorem Simulates.perform (h : type.Simulates other Related)
    {state next : Callbacks Var World Closure} {view : Other}
    (hrelated : Related state.world view) {operation : CallbackOperation Var}
    (hnext : Callbacks.Performs type state operation next) :
    ∃ after, Callbacks.Performs other ⟨view, state.closures⟩ operation
        ⟨after, next.closures⟩ ∧ Related next.world after := by
  cases hnext with
  | create hnone =>
      obtain ⟨hworld, hclosure⟩ := h.create hrelated
      refine ⟨_, ?_, hworld⟩
      rw [Callbacks.set, hclosure]
      exact .create hnone
  | copy hnone hsource =>
      obtain ⟨hworld, hclosure⟩ := h.copy _ hrelated
      refine ⟨_, ?_, hworld⟩
      rw [Callbacks.set, hclosure]
      exact .copy hnone hsource
  | assign hold hsource =>
      obtain ⟨hworld, hclosure⟩ := h.copy _ hrelated
      refine ⟨_, ?_, h.destroy _ hworld⟩
      rw [Callbacks.set, hclosure]
      exact .assign hold hsource
  | call hclosure => exact ⟨_, .call hclosure, h.call _ hrelated⟩
  | destroy hclosure => exact ⟨_, .destroy hclosure, h.destroy _ hrelated⟩

theorem Simulates.run (h : type.Simulates other Related)
    {world : World} {view : Other} (hrelated : Related world view)
    {operations : List (CallbackOperation Var)}
    {state : Callbacks Var World Closure}
    (hrun : (Callbacks.system type world).run (.start world) operations =
      some state) :
    ∃ after, (Callbacks.system other view).run (.start view) operations =
        some ⟨after, state.closures⟩ ∧ Related state.world after := by
  refine TransitionSystem.run_induction
    (motive := fun operations state => ∃ after,
      (Callbacks.system other view).run (.start view) operations =
        some ⟨after, state.closures⟩ ∧ Related state.world after)
    ⟨view, rfl, hrelated⟩ ?_ hrun
  rintro operations state operation next ⟨after, hafter, hstate⟩ hstep
  obtain ⟨last, hlast, hnext⟩ :=
    h.perform hstate (Callbacks.perform_eq_some_iff.mp hstep)
  refine ⟨last, ?_, hnext⟩
  rw [TransitionSystem.run_append, hafter]
  simp [Callbacks.system, Callbacks.perform_eq_some_iff.mpr hlast]

end ClosureType

/-! ## Closures that own an object -/

def heldBy (closures : Var → Option ObjectNumber) : Set ObjectNumber :=
  {object | ∃ callback, closures callback = some object}

def Apart (closures : Var → Option ObjectNumber) : Prop :=
  ∀ first second object, closures first = some object →
    closures second = some object → first = second

section Held

variable {closures : Var → Option ObjectNumber} {callback : Var}
  {object : ObjectNumber}

theorem update_eq_some_iff {closure : Option ObjectNumber} {holder : Var} :
    Function.update closures callback closure holder = some object ↔
      holder = callback ∧ closure = some object ∨
        holder ≠ callback ∧ closures holder = some object := by
  by_cases hsame : holder = callback
  · rw [hsame, Function.update_self]
    simp
  · rw [Function.update_of_ne hsame]
    simp [hsame]

theorem heldBy_clear (h : Apart closures)
    (hclosure : closures callback = some object) :
    heldBy (Function.update closures callback none) =
      heldBy closures \ {object} := by
  ext other
  constructor
  · rintro ⟨holder, hholder⟩
    rcases update_eq_some_iff.mp hholder with ⟨-, hnone⟩ | ⟨hne, hkept⟩
    · cases hnone
    · refine ⟨⟨holder, hkept⟩, ?_⟩
      rintro rfl
      exact hne (h holder callback other hkept hclosure)
  · rintro ⟨⟨holder, hholder⟩, hother⟩
    have hne : holder ≠ callback := by
      rintro rfl
      exact hother (Option.some.inj (hholder.symm.trans hclosure))
    exact ⟨holder, update_eq_some_iff.mpr (.inr ⟨hne, hholder⟩)⟩

theorem heldBy_set (hnone : closures callback = none) :
    heldBy (Function.update closures callback (some object)) =
      insert object (heldBy closures) := by
  ext other
  rw [Set.mem_insert_iff]
  constructor
  · rintro ⟨holder, hholder⟩
    rcases update_eq_some_iff.mp hholder with ⟨-, hsame⟩ | ⟨-, hkept⟩
    · exact .inl (Option.some.inj hsame).symm
    · exact .inr ⟨holder, hkept⟩
  · rintro (rfl | ⟨holder, hholder⟩)
    · exact ⟨callback, Function.update_self callback _ _⟩
    · have hne : holder ≠ callback := by
        rintro rfl
        cases hnone.symm.trans hholder
      exact ⟨holder, update_eq_some_iff.mpr (.inr ⟨hne, hholder⟩)⟩

theorem heldBy_replace {old : ObjectNumber} (h : Apart closures)
    (hold : closures callback = some old) (hobject : object ∉ heldBy closures) :
    heldBy (Function.update closures callback (some object)) =
      insert object (heldBy closures) \ {old} := by
  have hne : object ≠ old := by
    rintro rfl
    exact hobject ⟨callback, hold⟩
  have hset : heldBy (Function.update (Function.update closures callback none)
        callback (some object)) =
      insert object (heldBy (Function.update closures callback none)) :=
    heldBy_set (Function.update_self _ _ _)
  rw [Function.update_idem, heldBy_clear h hold] at hset
  rw [hset, Set.insert_sdiff_of_notMem _ (by simpa using hne)]

theorem Apart.clear (h : Apart closures) (callback : Var) :
    Apart (Function.update closures callback none) := by
  intro first second object hfirst hsecond
  rcases update_eq_some_iff.mp hfirst with ⟨-, hnone⟩ | ⟨-, hfirstKept⟩
  · cases hnone
  rcases update_eq_some_iff.mp hsecond with ⟨-, hnone⟩ | ⟨-, hsecondKept⟩
  · cases hnone
  exact h first second object hfirstKept hsecondKept

theorem Apart.set (h : Apart closures) (hobject : object ∉ heldBy closures) :
    Apart (Function.update closures callback (some object)) := by
  intro first second other hfirst hsecond
  rcases update_eq_some_iff.mp hfirst with ⟨rfl, hsame⟩ | ⟨-, hfirstKept⟩
  · rcases update_eq_some_iff.mp hsecond with ⟨rfl, -⟩ | ⟨-, hsecondKept⟩
    · rfl
    · cases hsame
      exact absurd ⟨second, hsecondKept⟩ hobject
  · rcases update_eq_some_iff.mp hsecond with ⟨rfl, hsame⟩ | ⟨-, hsecondKept⟩
    · cases hsame
      exact absurd ⟨first, hfirstKept⟩ hobject
    · exact h first second other hfirstKept hsecondKept

end Held

namespace ClosureType

/-- Every closure of the type is an object of its own. -/
structure OwnsObject (type : ClosureType Heap ObjectNumber) : Prop where
  create : ∀ {heap held}, Heap.Owned heap held →
    (type.create heap).1.Owned (insert (type.create heap).2 held) ∧
      (type.create heap).2 ∉ held
  copy : ∀ {heap held source}, Heap.Owned heap held → source ∈ held →
    (type.copy heap source).1.Owned (insert (type.copy heap source).2 held) ∧
      (type.copy heap source).2 ∉ held
  call : ∀ {heap held closure}, Heap.Owned heap held → closure ∈ held →
    (type.call heap closure).Owned held
  destroy : ∀ {heap held closure}, Heap.Owned heap held → closure ∈ held →
    (type.destroy heap closure).Owned (held \ {closure})

variable {type : ClosureType Heap ObjectNumber}

theorem OwnsObject.perform (h : type.OwnsObject)
    {state next : Callbacks Var Heap ObjectNumber}
    (howned : state.world.Owned (heldBy state.closures))
    (hapart : Apart state.closures) {operation : CallbackOperation Var}
    (hnext : Callbacks.Performs type state operation next) :
    next.world.Owned (heldBy next.closures) ∧ Apart next.closures := by
  cases hnext with
  | create hnone =>
      obtain ⟨hcreated, hfresh⟩ := h.create howned
      refine ⟨?_, hapart.set hfresh⟩
      rw [Callbacks.set, heldBy_set hnone]
      exact hcreated
  | copy hnone hsource =>
      obtain ⟨hcopied, hfresh⟩ := h.copy howned ⟨_, hsource⟩
      refine ⟨?_, hapart.set hfresh⟩
      rw [Callbacks.set, heldBy_set hnone]
      exact hcopied
  | assign hold hsource =>
      obtain ⟨hcopied, hfresh⟩ := h.copy howned ⟨_, hsource⟩
      refine ⟨?_, hapart.set hfresh⟩
      rw [Callbacks.set, heldBy_replace hapart hold hfresh]
      exact h.destroy hcopied (.inr ⟨_, hold⟩)
  | call hclosure => exact ⟨h.call howned ⟨_, hclosure⟩, hapart⟩
  | destroy hclosure =>
      refine ⟨?_, hapart.clear _⟩
      rw [Callbacks.set, heldBy_clear hapart hclosure]
      exact h.destroy howned ⟨_, hclosure⟩

theorem OwnsObject.run (h : type.OwnsObject)
    {operations : List (CallbackOperation Var)}
    {state : Callbacks Var Heap ObjectNumber}
    (hrun : (Callbacks.system type .empty).run (.start .empty) operations =
      some state) : state.world.Sound (heldBy state.closures) := by
  have hkeeps : state.world.Owned (heldBy state.closures) ∧
      Apart state.closures := by
    refine (TransitionSystem.Reachable.of_run rfl hrun).invariant
      (fun state => state.world.Owned (heldBy state.closures) ∧
        Apart state.closures) ?_ ?_
    · rintro _ rfl
      refine ⟨?_, by simp [Apart, Callbacks.start]⟩
      have hheld : heldBy (fun _ : Var => none) = ∅ := by
        simp [heldBy]
      rw [Callbacks.start, hheld]
      exact Heap.owned_empty
    · rintro state operation next ⟨howned, hapart⟩ hstep
      exact h.perform howned hapart (Callbacks.perform_eq_some_iff.mp hstep)
  exact hkeeps.1.sound

end ClosureType

end CandCpp.Foundation
