import CandCpp.Foundation.Threads

/-!
# The shared consumer token of udpServerLockFreeToken.cpp

All instances of `workerThread` call `try_dequeue` of concurrentqueue.h with
the one global `ConsumerToken`, which is no atomic object.  A step reads or
writes one field of the token or one atomic of the queue.  `produceToken` is
the only explicit producer; whether its `dequeue` gives an item is the choice
that comes with a step.
-/

namespace CandCpp.Network.ConsumerToken

open CandCpp.Foundation

/-! ## The queue and the token -/

inductive Producer where
  | produceToken
  deriving DecidableEq, Repr

def nextProd : Producer → Option Producer
  | .produceToken => none

def producerListTail : Option Producer := some .produceToken

def producerCount : UInt32 := 1

def EXPLICIT_CONSUMER_CONSUMPTION_QUOTA_BEFORE_ROTATE : UInt32 := 256

structure Token where
  initialOffset : UInt32
  lastKnownGlobalOffset : UInt32
  itemsConsumedFromCurrent : UInt32
  currentProducer : Option Producer
  desiredProducer : Option Producer
  deriving DecidableEq, Repr

structure Shared where
  token : Token
  globalExplicitConsumerOffset : UInt32
  deriving DecidableEq, Repr

def Shared.initial : Shared where
  token := {
    initialOffset := 0
    lastKnownGlobalOffset := -1
    itemsConsumedFromCurrent := 0
    currentProducer := none
    desiredProducer := none }
  globalExplicitConsumerOffset := 0

namespace Shared

variable (shared : Shared)

def setDesired (producer : Option Producer) : Shared :=
  { shared with token := { shared.token with desiredProducer := producer } }

def setCurrent (producer : Option Producer) : Shared :=
  { shared with token := { shared.token with currentProducer := producer } }

def setLastKnown (offset : UInt32) : Shared :=
  { shared with token := { shared.token with lastKnownGlobalOffset := offset } }

def setItems (items : UInt32) : Shared :=
  { shared with
    token := { shared.token with itemsConsumedFromCurrent := items } }

def rotate : Shared :=
  { shared with
    globalExplicitConsumerOffset := shared.globalExplicitConsumerOffset + 1 }

end Shared

/-! ## The steps of a worker -/

/-- The local variables of `update_current_producer_after_rotation`. -/
structure Rotation where
  tail : Option Producer
  prodCount : UInt32
  globalOffset : UInt32
  deriving DecidableEq, Repr

/-- The loop up to `offset` and the loop up to `delta`. -/
inductive Walk where
  | offset
  | delta
  deriving DecidableEq, Repr

inductive Pc where
  | start
  | readingLastKnown
  | comparingOffset (lastKnown : UInt32)
  | loadingTail
  | checkingTail (tail : Option Producer)
  | loadingCount (tail : Option Producer)
  | loadingOffset (tail : Option Producer) (prodCount : UInt32)
  | checkingDesired (rotation : Rotation)
  | writingDesired (rotation : Rotation)
  | walking (walk : Walk) (rotation : Rotation) (bound i : UInt32)
  | walkingFrom (walk : Walk) (rotation : Rotation) (bound i : UInt32)
      (producer : Option Producer)
  | checkingEnd (walk : Walk) (rotation : Rotation) (bound i : UInt32)
  | wrapping (walk : Walk) (rotation : Rotation) (bound i : UInt32)
  | readingDelta (rotation : Rotation)
  | writingLastKnown (rotation : Rotation)
  | readingDesired
  | writingCurrent (producer : Option Producer)
  | resettingItems
  | dequeuing
  | countingItem
  | storingItem (items : UInt32)
  | rotating
  | loadingTailAgain
  | advancing (tail : Option Producer)
  | comparingProducer (tail ptr : Option Producer)
  | dequeuingOther (tail ptr : Option Producer)
  | writingOther (ptr : Producer)
  | countingOther
  | dereferencedNull
  deriving DecidableEq, Repr

def Rotation.delta (rotation : Rotation) (lastKnown : UInt32) : UInt32 :=
  let delta := rotation.globalOffset - lastKnown
  if delta ≥ rotation.prodCount then delta % rotation.prodCount else delta

def Walk.after (walk : Walk) (rotation : Rotation) : Pc :=
  match walk with
  | .offset => .readingDelta rotation
  | .delta => .writingLastKnown rotation

/-- One step of the loop of `workerThread`, which calls `try_dequeue` again
and again. -/
def workerThread (shared : Shared) (pc : Pc) (dequeued : Bool) :
    Option (Shared × Pc) :=
  match pc with
  | .start =>
      if shared.token.desiredProducer = none then some (shared, .loadingTail)
      else some (shared, .readingLastKnown)
  | .readingLastKnown =>
      some (shared, .comparingOffset shared.token.lastKnownGlobalOffset)
  | .comparingOffset lastKnown =>
      if lastKnown ≠ shared.globalExplicitConsumerOffset then
        some (shared, .loadingTail)
      else some (shared, .dequeuing)
  | .loadingTail => some (shared, .checkingTail producerListTail)
  | .checkingTail tail =>
      if shared.token.desiredProducer = none ∧ tail = none then
        some (shared, .start)
      else some (shared, .loadingCount tail)
  | .loadingCount tail => some (shared, .loadingOffset tail producerCount)
  | .loadingOffset tail prodCount =>
      some (shared, .checkingDesired
        ⟨tail, prodCount, shared.globalExplicitConsumerOffset⟩)
  | .checkingDesired rotation =>
      if shared.token.desiredProducer = none then
        some (shared, .writingDesired rotation)
      else some (shared, .readingDelta rotation)
  | .writingDesired rotation =>
      some (shared.setDesired rotation.tail, .walking .offset rotation
        (rotation.prodCount - 1 -
          shared.token.initialOffset % rotation.prodCount) 0)
  | .walking walk rotation bound i =>
      if i ≠ bound then
        some (shared, .walkingFrom walk rotation bound i
          shared.token.desiredProducer)
      else some (shared, walk.after rotation)
  | .walkingFrom walk rotation bound i (some producer) =>
      some (shared.setDesired (nextProd producer),
        .checkingEnd walk rotation bound i)
  | .walkingFrom _ _ _ _ none => some (shared, .dereferencedNull)
  | .checkingEnd walk rotation bound i =>
      if shared.token.desiredProducer = none then
        some (shared, .wrapping walk rotation bound i)
      else some (shared, .walking walk rotation bound (i + 1))
  | .wrapping walk rotation bound i =>
      some (shared.setDesired rotation.tail,
        .walking walk rotation bound (i + 1))
  | .readingDelta rotation =>
      some (shared, .walking .delta rotation
        (rotation.delta shared.token.lastKnownGlobalOffset) 0)
  | .writingLastKnown rotation =>
      some (shared.setLastKnown rotation.globalOffset, .readingDesired)
  | .readingDesired =>
      some (shared, .writingCurrent shared.token.desiredProducer)
  | .writingCurrent producer =>
      some (shared.setCurrent producer, .resettingItems)
  | .resettingItems => some (shared.setItems 0, .dequeuing)
  | .dequeuing =>
      if shared.token.currentProducer = none then
        some (shared, .dereferencedNull)
      else if dequeued then some (shared, .countingItem)
      else some (shared, .loadingTailAgain)
  | .countingItem =>
      some (shared, .storingItem (shared.token.itemsConsumedFromCurrent + 1))
  | .storingItem items =>
      if items = EXPLICIT_CONSUMER_CONSUMPTION_QUOTA_BEFORE_ROTATE then
        some (shared.setItems items, .rotating)
      else some (shared.setItems items, .start)
  | .rotating => some (shared.rotate, .start)
  | .loadingTailAgain => some (shared, .advancing producerListTail)
  | .advancing tail =>
      match shared.token.currentProducer with
      | none => some (shared, .dereferencedNull)
      | some producer =>
          some (shared, .comparingProducer tail ((nextProd producer).or tail))
  | .comparingProducer tail ptr =>
      if ptr ≠ shared.token.currentProducer then
        some (shared, .dequeuingOther tail ptr)
      else some (shared, .start)
  | .dequeuingOther tail (some producer) =>
      if dequeued then some (shared, .writingOther producer)
      else some (shared, .comparingProducer tail ((nextProd producer).or tail))
  | .dequeuingOther _ none => some (shared, .dereferencedNull)
  | .writingOther producer =>
      some (shared.setCurrent (some producer), .countingOther)
  | .countingOther => some (shared.setItems 1, .start)
  | .dereferencedNull => none

def tokenSystem (workers : Nat) :
    TransitionSystem (Pool workers Shared Pc) (Fin workers × Bool) :=
  interleave workers (· = Shared.initial) .start workerThread

/-- No worker is about to call `dequeue` through a null `currentProducer`. -/
def Safe {workers : Nat} (pool : Pool workers Shared Pc) : Prop :=
  ∀ worker, pool.locals worker = .dequeuing →
    pool.shared.token.currentProducer ≠ none

/-! ## The window -/

/-- Between the writes of `lastKnownGlobalOffset` and of `currentProducer`. -/
def Pc.inWindow : Pc → Prop
  | .readingDesired | .writingCurrent _ => True
  | _ => False

/-- The test of `try_dequeue` does not read `lastKnownGlobalOffset` while
another worker has written it but nobody has written `currentProducer`. -/
def TestsOutsideWindow {workers : Nat} (pool : Pool workers Shared Pc)
    (action : Fin workers × Bool) : Prop :=
  pool.locals action.1 = .readingLastKnown →
    pool.shared.token.currentProducer = none →
    ∀ other, ¬ (pool.locals other).inWindow

/-! ## What a worker knows at each of its steps -/

def Rotation.Sound (shared : Shared) (rotation : Rotation) : Prop :=
  rotation.tail ≠ none ∧ rotation.prodCount = 1 ∧
    (shared.token.currentProducer = none → rotation.globalOffset = 0)

/-- With one producer neither loop of the rotation and no other producer's
`dequeue` is ever reached. -/
def Pc.Sound (shared : Shared) : Pc → Prop
  | .start | .readingLastKnown | .loadingTail => True
  | .comparingOffset lastKnown =>
      shared.token.currentProducer = none → lastKnown ≠ 0
  | .checkingTail tail | .loadingCount tail => tail ≠ none
  | .loadingOffset tail prodCount => tail ≠ none ∧ prodCount = 1
  | .checkingDesired rotation | .writingDesired rotation =>
      rotation.Sound shared
  | .walking _ rotation bound i =>
      rotation.Sound shared ∧ shared.token.desiredProducer ≠ none ∧ i = bound
  | .readingDelta rotation | .writingLastKnown rotation =>
      rotation.Sound shared ∧ shared.token.desiredProducer ≠ none
  | .readingDesired => shared.token.desiredProducer ≠ none
  | .writingCurrent producer => producer ≠ none
  | .resettingItems | .dequeuing | .countingItem | .storingItem _ | .rotating
  | .loadingTailAgain => shared.token.currentProducer ≠ none
  | .advancing tail => shared.token.currentProducer ≠ none ∧ tail ≠ none
  | .comparingProducer _ ptr =>
      shared.token.currentProducer ≠ none ∧ ptr ≠ none
  | .walkingFrom _ _ _ _ _ | .checkingEnd _ _ _ _ | .wrapping _ _ _ _
  | .dequeuingOther _ _ | .writingOther _ | .countingOther
  | .dereferencedNull => False

/-- Pointers of the token that are set stay set. -/
structure Grows (shared next : Shared) : Prop where
  current : shared.token.currentProducer ≠ none →
    next.token.currentProducer ≠ none
  desired : shared.token.desiredProducer ≠ none →
    next.token.desiredProducer ≠ none

theorem Grows.refl (shared : Shared) : Grows shared shared := ⟨id, id⟩

theorem Pc.Sound.mono {shared next : Shared} {pc : Pc}
    (h : pc.Sound shared) (hgrows : Grows shared next) : pc.Sound next := by
  have hnull : next.token.currentProducer = none →
      shared.token.currentProducer = none := by
    intro hnext
    by_contra hcurrent
    exact hgrows.current hcurrent hnext
  have hrotation : ∀ rotation : Rotation, rotation.Sound shared →
      rotation.Sound next := fun rotation hsound =>
    ⟨hsound.1, hsound.2.1, fun hnext => hsound.2.2 (hnull hnext)⟩
  cases pc with
  | start | readingLastKnown | loadingTail => trivial
  | comparingOffset lastKnown => exact fun hnext => h (hnull hnext)
  | checkingTail tail | loadingCount tail => exact h
  | loadingOffset tail prodCount => exact h
  | checkingDesired rotation | writingDesired rotation =>
      exact hrotation rotation h
  | walking walk rotation bound i =>
      exact ⟨hrotation rotation h.1, hgrows.desired h.2.1, h.2.2⟩
  | readingDelta rotation | writingLastKnown rotation =>
      exact ⟨hrotation rotation h.1, hgrows.desired h.2⟩
  | readingDesired => exact hgrows.desired h
  | writingCurrent producer => exact h
  | resettingItems | dequeuing | countingItem | storingItem | rotating
  | loadingTailAgain => exact hgrows.current h
  | advancing tail => exact ⟨hgrows.current h.1, h.2⟩
  | comparingProducer tail ptr => exact ⟨hgrows.current h.1, h.2⟩
  | walkingFrom | checkingEnd | wrapping | dequeuingOther | writingOther
  | countingOther | dereferencedNull => exact h.elim

theorem eq_of_ne_none {first second : Option Producer} (hfirst : first ≠ none)
    (hsecond : second ≠ none) : first = second := by
  rcases first with _ | ⟨⟩
  · exact absurd rfl hfirst
  · rcases second with _ | ⟨⟩
    · exact absurd rfl hsecond
    · rfl

theorem uint32_mod_one (value : UInt32) : value % 1 = 0 := by
  apply UInt32.toNat.inj
  rw [UInt32.toNat_mod]
  exact Nat.mod_one _

theorem Rotation.delta_eq_zero {shared : Shared} {rotation : Rotation}
    (h : rotation.Sound shared) (lastKnown : UInt32) :
    rotation.delta lastKnown = 0 := by
  simp only [Rotation.delta, h.2.1]
  split
  · exact uint32_mod_one _
  · rename_i hlt
    apply UInt32.toNat.inj
    have hzero : ¬ 1 ≤ (rotation.globalOffset - lastKnown).toNat := hlt
    rw [UInt32.toNat_zero]
    omega

/-- What a step keeps, given that the test does not see the open window. -/
theorem Pc.Sound.step {shared next : Shared} {pc moved : Pc} {dequeued : Bool}
    (h : pc.Sound shared)
    (hoffset : shared.token.currentProducer = none →
      shared.globalExplicitConsumerOffset = 0)
    (htest : pc = .readingLastKnown → shared.token.currentProducer = none →
      shared.token.lastKnownGlobalOffset ≠ 0)
    (hstep : workerThread shared pc dequeued = some (next, moved)) :
    moved.Sound next ∧ Grows shared next ∧
      (next.token.currentProducer = none →
        next.globalExplicitConsumerOffset = 0) := by
  have hsame := Grows.refl shared
  cases pc with
  | start =>
      simp only [workerThread] at hstep
      split at hstep <;> cases hstep <;> exact ⟨trivial, hsame, hoffset⟩
  | readingLastKnown =>
      simp only [workerThread] at hstep
      cases hstep
      exact ⟨fun hcurrent => htest rfl hcurrent, hsame, hoffset⟩
  | comparingOffset lastKnown =>
      simp only [workerThread] at hstep
      split at hstep <;> cases hstep
      · exact ⟨trivial, hsame, hoffset⟩
      · rename_i heq
        refine ⟨fun hcurrent => ?_, hsame, hoffset⟩
        rw [not_not, hoffset hcurrent] at heq
        exact h hcurrent heq
  | loadingTail =>
      simp only [workerThread] at hstep
      cases hstep
      exact ⟨by simp [Pc.Sound, producerListTail], hsame, hoffset⟩
  | checkingTail tail =>
      simp only [workerThread] at hstep
      split at hstep <;> cases hstep
      · exact ⟨trivial, hsame, hoffset⟩
      · exact ⟨h, hsame, hoffset⟩
  | loadingCount tail =>
      simp only [workerThread] at hstep
      cases hstep
      exact ⟨⟨h, rfl⟩, hsame, hoffset⟩
  | loadingOffset tail prodCount =>
      simp only [workerThread] at hstep
      cases hstep
      exact ⟨⟨h.1, h.2, hoffset⟩, hsame, hoffset⟩
  | checkingDesired rotation =>
      simp only [workerThread] at hstep
      split at hstep <;> cases hstep
      · exact ⟨h, hsame, hoffset⟩
      · rename_i hdesired
        exact ⟨⟨h, hdesired⟩, hsame, hoffset⟩
  | writingDesired rotation =>
      simp only [workerThread] at hstep
      cases hstep
      refine ⟨⟨h, h.1, ?_⟩, ⟨id, fun _ => h.1⟩, hoffset⟩
      rw [h.2.1, uint32_mod_one]
      rfl
  | walking walk rotation bound i =>
      simp only [workerThread] at hstep
      rw [if_neg (not_not.mpr h.2.2)] at hstep
      cases hstep
      cases walk <;> exact ⟨⟨h.1, h.2.1⟩, hsame, hoffset⟩
  | readingDelta rotation =>
      simp only [workerThread] at hstep
      cases hstep
      exact ⟨⟨h.1, h.2, (Rotation.delta_eq_zero h.1 _).symm⟩, hsame, hoffset⟩
  | writingLastKnown rotation =>
      simp only [workerThread] at hstep
      cases hstep
      exact ⟨h.2, ⟨id, id⟩, hoffset⟩
  | readingDesired =>
      simp only [workerThread] at hstep
      cases hstep
      exact ⟨h, hsame, hoffset⟩
  | writingCurrent producer =>
      simp only [workerThread] at hstep
      cases hstep
      exact ⟨h, ⟨fun _ => h, id⟩, fun hcurrent => absurd hcurrent h⟩
  | resettingItems =>
      simp only [workerThread] at hstep
      cases hstep
      exact ⟨h, ⟨id, id⟩, hoffset⟩
  | dequeuing =>
      simp only [workerThread] at hstep
      rw [if_neg h] at hstep
      split at hstep <;> cases hstep <;> exact ⟨h, hsame, hoffset⟩
  | countingItem =>
      simp only [workerThread] at hstep
      cases hstep
      exact ⟨h, hsame, hoffset⟩
  | storingItem items =>
      simp only [workerThread] at hstep
      split at hstep <;> cases hstep
      · exact ⟨h, ⟨id, id⟩, hoffset⟩
      · exact ⟨trivial, ⟨id, id⟩, hoffset⟩
  | rotating =>
      simp only [workerThread] at hstep
      cases hstep
      exact ⟨trivial, ⟨id, id⟩, fun hcurrent => absurd hcurrent h⟩
  | loadingTailAgain =>
      simp only [workerThread] at hstep
      cases hstep
      exact ⟨⟨h, by simp [producerListTail]⟩, hsame, hoffset⟩
  | advancing tail =>
      simp only [workerThread] at hstep
      split at hstep
      · rename_i hcurrent
        exact absurd hcurrent h.1
      · cases hstep
        exact ⟨⟨h.1, h.2⟩, hsame, hoffset⟩
  | comparingProducer tail ptr =>
      simp only [workerThread] at hstep
      rw [if_neg (not_not.mpr (eq_of_ne_none h.2 h.1))] at hstep
      cases hstep
      exact ⟨trivial, hsame, hoffset⟩
  | walkingFrom | checkingEnd | wrapping | dequeuingOther | writingOther
  | countingOther | dereferencedNull => exact h.elim

/-- `lastKnownGlobalOffset` changes only where the window opens. -/
theorem window_step {shared next : Shared} {pc moved : Pc} {dequeued : Bool}
    (h : pc.Sound shared)
    (hstep : workerThread shared pc dequeued = some (next, moved))
    (hnull : next.token.currentProducer = none) :
    (next.token.lastKnownGlobalOffset = 0 ∧ moved.inWindow) ∨
      (next.token.lastKnownGlobalOffset = shared.token.lastKnownGlobalOffset ∧
        (moved.inWindow ↔ pc.inWindow)) := by
  cases pc with
  | writingLastKnown rotation =>
      cases hstep
      exact .inl ⟨h.1.2.2 hnull, trivial⟩
  | writingCurrent producer =>
      cases hstep
      exact absurd hnull h
  | readingDesired =>
      cases hstep
      exact .inr ⟨rfl, Iff.rfl⟩
  | walking walk rotation bound i =>
      simp only [workerThread, if_neg (not_not.mpr h.2.2)] at hstep
      cases hstep
      cases walk <;> exact .inr ⟨rfl, Iff.rfl⟩
  | walkingFrom | checkingEnd | wrapping | dequeuingOther | writingOther
  | countingOther | dereferencedNull => exact h.elim
  | advancing tail =>
      simp only [workerThread] at hstep
      split at hstep <;> cases hstep <;> exact .inr ⟨rfl, Iff.rfl⟩
  | dequeuing =>
      simp only [workerThread, if_neg h] at hstep
      split at hstep <;> cases hstep <;> exact .inr ⟨rfl, Iff.rfl⟩
  | start | comparingOffset | checkingTail | checkingDesired | storingItem
  | comparingProducer =>
      simp only [workerThread] at hstep
      split at hstep <;> cases hstep <;> exact .inr ⟨rfl, Iff.rfl⟩
  | readingLastKnown | loadingTail | loadingCount | loadingOffset
  | writingDesired | readingDelta | resettingItems | countingItem | rotating
  | loadingTailAgain =>
      cases hstep
      exact .inr ⟨rfl, Iff.rfl⟩

/-! ## Runs that keep out of the window -/

structure Sound {workers : Nat} (pool : Pool workers Shared Pc) : Prop where
  locals : ∀ worker, (pool.locals worker).Sound pool.shared
  offset : pool.shared.token.currentProducer = none →
    pool.shared.globalExplicitConsumerOffset = 0
  window : pool.shared.token.currentProducer = none →
    (pool.shared.token.lastKnownGlobalOffset = 0 ∧
      ∃ worker, (pool.locals worker).inWindow) ∨
    (pool.shared.token.lastKnownGlobalOffset = -1 ∧
      ∀ worker, ¬ (pool.locals worker).inWindow)

variable {workers : Nat}

theorem Sound.step {pool next : Pool workers Shared Pc}
    {action : Fin workers × Bool} (h : Sound pool)
    (houtside : TestsOutsideWindow pool action)
    (hstep : (tokenSystem workers).step pool action = some next) :
    Sound next := by
  obtain ⟨worker, dequeued⟩ := action
  obtain ⟨shared, moved, hmoved, rfl⟩ := interleave_step_iff.mp hstep
  have hlocal := h.locals worker
  have htest : pool.locals worker = .readingLastKnown →
      pool.shared.token.currentProducer = none →
      pool.shared.token.lastKnownGlobalOffset ≠ 0 := by
    intro hpc hcurrent
    rcases h.window hcurrent with ⟨-, other, hother⟩ | ⟨hlast, -⟩
    · exact absurd hother (houtside hpc hcurrent other)
    · rw [hlast]
      decide
  obtain ⟨hsound, hgrows, hoffset⟩ := hlocal.step h.offset htest hmoved
  refine ⟨?_, hoffset, ?_⟩
  · intro other
    by_cases hsame : other = worker
    · simpa [hsame] using hsound
    · simpa [Function.update_of_ne hsame] using (h.locals other).mono hgrows
  · intro hnull
    have hcurrent : pool.shared.token.currentProducer = none := by
      by_contra hset
      exact hgrows.current hset hnull
    rcases window_step hlocal hmoved hnull with ⟨hlast, hin⟩ | ⟨hlast, hin⟩
    · exact .inl ⟨hlast, worker, by simpa using hin⟩
    · have hwindow : ∀ other,
          (Function.update pool.locals worker moved other).inWindow ↔
            (pool.locals other).inWindow := by
        intro other
        by_cases hsame : other = worker
        · simpa [hsame] using hin
        · simp [Function.update_of_ne hsame]
      simpa [hwindow, hlast] using h.window hcurrent

theorem sound_of_reachable {pool : Pool workers Shared Pc}
    (h : (tokenSystem workers).ReachableBy TestsOutsideWindow pool) :
    Sound pool := by
  refine h.invariant Sound ?_ fun _ _ _ hinv => hinv.step
  rintro ⟨shared, locals⟩ ⟨rfl, rfl⟩
  exact ⟨fun _ => trivial, fun _ => rfl, fun _ => .inr ⟨rfl, fun _ => id⟩⟩

theorem Sound.safe {pool : Pool workers Shared Pc} (h : Sound pool) :
    Safe pool := by
  intro worker hpc
  have hlocal := h.locals worker
  rw [hpc] at hlocal
  exact hlocal

theorem testsOutsideWindow_one (pool : Pool 1 Shared Pc)
    (action : Fin 1 × Bool) : TestsOutsideWindow pool action := by
  intro hpc _ other hother
  rw [Subsingleton.elim other action.1, hpc] at hother
  exact hother

/-! ## Runs that enter it -/

/-- The worker passes the test, and the pointer it is going to use is null. -/
theorem unsafe_of_test_in_window {pool next : Pool workers Shared Pc}
    {action : Fin workers × Bool} (h : Sound pool)
    (hinside : ¬ TestsOutsideWindow pool action)
    (hstep : (tokenSystem workers).step pool action = some next) :
    ∃ actions final, (tokenSystem workers).run next actions = some final ∧
      ¬ Safe final := by
  obtain ⟨worker, dequeued⟩ := action
  obtain ⟨hpc, hcurrent, other, hother⟩ :
      pool.locals worker = .readingLastKnown ∧
        pool.shared.token.currentProducer = none ∧
        ∃ other, (pool.locals other).inWindow := by
    simpa [TestsOutsideWindow] using hinside
  have hlast : pool.shared.token.lastKnownGlobalOffset = 0 := by
    rcases h.window hcurrent with ⟨hzero, -⟩ | ⟨-, hnone⟩
    · exact hzero
    · exact absurd hother (hnone other)
  have hoffset := h.offset hcurrent
  obtain ⟨shared, moved, hmoved, rfl⟩ := interleave_step_iff.mp hstep
  simp only [workerThread, hpc, Option.some.injEq, Prod.mk.injEq] at hmoved
  obtain ⟨rfl, rfl⟩ := hmoved
  refine ⟨[(worker, false)], ⟨pool.shared,
    Function.update pool.locals worker .dequeuing⟩, ?_, ?_⟩
  · simp [tokenSystem, interleave, workerThread, hlast, hoffset]
  · intro hsafe
    exact hsafe worker (by simp) hcurrent

/-- The first worker stops in the window and the second one passes the test. -/
theorem unsafe_of_two (hworkers : 2 ≤ workers) :
    ∃ pool, (tokenSystem workers).Reachable pool ∧ ¬ Safe pool := by
  let first : Fin workers := ⟨0, by omega⟩
  let second : Fin workers := ⟨1, by omega⟩
  have hne : second ≠ first := by simp [first, second]
  let start : Pool workers Shared Pc := ⟨Shared.initial, fun _ => .start⟩
  let window : Shared :=
    (Shared.initial.setDesired producerListTail).setLastKnown 0
  have hfirst : solo workerThread false 11 Shared.initial .start =
      some (window, .readingDesired) := by decide
  have hsecond : solo workerThread false 3 window .start =
      some (window, .dequeuing) := by decide
  let middle : Pool workers Shared Pc :=
    ⟨window, Function.update start.locals first .readingDesired⟩
  let final : Pool workers Shared Pc :=
    ⟨window, Function.update middle.locals second .dequeuing⟩
  have hopen : (tokenSystem workers).run start
      (List.replicate 11 (first, false)) = some middle := by
    rw [tokenSystem, run_solo, hfirst]
    rfl
  have htest : (tokenSystem workers).run middle
      (List.replicate 3 (second, false)) = some final := by
    have hstart : middle.locals second = .start := by
      simp [middle, start, Function.update_of_ne hne]
    rw [tokenSystem, run_solo, hstart, hsecond]
    rfl
  have hreach : (tokenSystem workers).Reachable final := by
    have hinitial : (tokenSystem workers).Initial start := ⟨rfl, rfl⟩
    exact (TransitionSystem.Reachable.of_run hinitial hopen).run htest
  refine ⟨final, hreach, ?_⟩
  intro hsafe
  exact hsafe second (by simp [final]) rfl

/--
Runs whose tests keep out of the window are safe, each test in the window can
go on to the null pointer, and only a single worker never makes one.
-/
theorem currentProducer_safe_iff (workers : Nat) :
    (∀ pool, (tokenSystem workers).ReachableBy TestsOutsideWindow pool →
      Safe pool) ∧
    (∀ pool action next,
      (tokenSystem workers).ReachableBy TestsOutsideWindow pool →
      (tokenSystem workers).step pool action = some next →
      ¬ TestsOutsideWindow pool action →
      ∃ actions final, (tokenSystem workers).run next actions = some final ∧
        ¬ Safe final) ∧
    (0 < workers →
      ((∀ pool, (tokenSystem workers).Reachable pool → Safe pool) ↔
        workers = 1)) := by
  refine ⟨?_, ?_, ?_⟩
  · intro pool hreach
    exact (sound_of_reachable hreach).safe
  · intro pool action next hreach hstep hinside
    exact unsafe_of_test_in_window (sound_of_reachable hreach) hinside hstep
  · intro hworkers
    constructor
    · intro hsafe
      by_contra hmany
      have htwo : 2 ≤ workers := by omega
      obtain ⟨pool, hreach, hunsafe⟩ := unsafe_of_two htwo
      exact hunsafe (hsafe pool hreach)
    · rintro rfl pool hreach
      have houtside : (tokenSystem 1).ReachableBy TestsOutsideWindow pool :=
        hreach.mono fun pool action _ => testsOutsideWindow_one pool action
      exact (sound_of_reachable houtside).safe

/-- The three workers of the program: the second dereferences null. -/
theorem threeWorkers_dereference_null :
    ∃ pool next : Pool 3 Shared Pc,
      (tokenSystem 3).Reachable pool ∧ pool.locals 1 = .dequeuing ∧
      pool.shared.token.currentProducer = none ∧ ¬ Safe pool ∧
      (tokenSystem 3).step pool (1, true) = some next ∧
      next.locals 1 = .dereferencedNull := by
  have hinitial : (tokenSystem 3).Initial ⟨Shared.initial, fun _ => .start⟩ :=
    ⟨rfl, rfl⟩
  refine ⟨_, _, .of_run hinitial (rfl : (tokenSystem 3).run _
    (List.replicate 11 (0, false) ++ List.replicate 3 (1, false)) = some _),
    rfl, rfl, ?_, rfl, rfl⟩
  intro hsafe
  exact hsafe 1 rfl rfl

end CandCpp.Network.ConsumerToken
