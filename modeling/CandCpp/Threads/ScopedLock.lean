import CandCpp.Foundation.Threads
import CandCpp.Foundation.TransitionSystem

/-!
# The scoped lock of cppRAII.cpp

Each thread of `count` locks `mu_` by the construction of its `MutexLock`,
reads `num` three times and writes it once, and unlocks `mu_` by the
destruction of the lock.  `Mutex::Unlock` calls `pthread_mutex_unlock` twice;
each call makes the mutex free whoever holds it.  `holder` is the thread whose
`pthread_mutex_lock` returned last, if there was no unlock after it;
`threads` is `NUM_THREADS`.
-/

namespace CandCpp.Threads.ScopedLock

open CandCpp.Foundation

/-! ## States and steps -/

inductive ThreadPc where
  | notCreated
  | locking
  | printingNum
  | settingNum
  | readingNum
  | writingNum (read : Nat)
  | unlocking
  | unlockingAgain
  | returned
  deriving DecidableEq, Repr

/-- `num_` is the member of the thread's `MutexLock`. -/
structure Thread where
  pc : ThreadPc
  num_ : Option Nat
  deriving DecidableEq, Repr

inductive MainPc where
  | creating (next : Nat)
  | joining (next : Nat)
  | printed (value : Nat)
  | failed
  deriving DecidableEq, Repr

structure State (threads : Nat) where
  num : Nat
  holder : Option (Fin threads)
  thread : Fin threads → Thread
  main : MainPc

inductive Action (threads : Nat) where
  | main (createSucceeds : Bool)
  | thread (index : Fin threads)
  deriving DecidableEq, Repr

variable {threads : Nat}

def State.setThread (state : State threads) (index : Fin threads)
    (thread : Thread) : State threads :=
  { state with thread := Function.update state.thread index thread }

def mainStep (state : State threads) (createSucceeds : Bool) :
    Option (State threads) :=
  match state.main with
  | .creating next =>
      if h : next < threads then
        if createSucceeds then
          some { state.setThread ⟨next, h⟩ ⟨.locking, none⟩ with
            main := .creating (next + 1) }
        else some { state with main := .failed }
      else some { state with main := .joining 0 }
  | .joining next =>
      if h : next < threads then
        if (state.thread ⟨next, h⟩).pc = .returned then
          some { state with main := .joining (next + 1) }
        else none
      else some { state with main := .printed state.num }
  | .printed _ => none
  | .failed => none

def State.goto (state : State threads) (index : Fin threads) (pc : ThreadPc) :
    State threads :=
  state.setThread index { state.thread index with pc := pc }

@[simp] theorem State.goto_num (state : State threads) (index : Fin threads)
    (pc : ThreadPc) : (state.goto index pc).num = state.num := rfl

@[simp] theorem State.goto_holder (state : State threads)
    (index : Fin threads) (pc : ThreadPc) :
    (state.goto index pc).holder = state.holder := rfl

def threadStep (state : State threads) (index : Fin threads) :
    Option (State threads) :=
  match (state.thread index).pc with
  | .notCreated => none
  | .locking =>
      if state.holder = none then
        some { state.goto index .printingNum with holder := some index }
      else none
  | .printingNum => some (state.goto index .settingNum)
  | .settingNum =>
      some (state.setThread index ⟨.readingNum, some state.num⟩)
  | .readingNum => some (state.goto index (.writingNum state.num))
  | .writingNum read =>
      some { state.goto index .unlocking with num := read + 1 }
  | .unlocking =>
      some { state.goto index .unlockingAgain with holder := none }
  | .unlockingAgain =>
      some { state.goto index .returned with holder := none }
  | .returned => none

def initial (threads : Nat) : State threads where
  num := 0
  holder := none
  thread := fun _ => ⟨.notCreated, none⟩
  main := .creating 0

/-- When `pthread_create` fails `main` returns, which ends every thread. -/
def countSystem (threads : Nat) :
    TransitionSystem (State threads) (Action threads) where
  Initial state := state = initial threads
  step state
    | .main createSucceeds => mainStep state createSucceeds
    | .thread index =>
        if state.main = .failed then none else threadStep state index

/-! ## What the lock is for -/

namespace ThreadPc

/-- Between the return of `Mutex::Lock` and the start of `Mutex::Unlock`. -/
def inside : ThreadPc → Bool
  | .printingNum | .settingNum | .readingNum | .writingNum _ | .unlocking =>
      true
  | .notCreated | .locking | .unlockingAgain | .returned => false

def unlocks : ThreadPc → Bool
  | .unlocking | .unlockingAgain => true
  | .notCreated | .locking | .printingNum | .settingNum | .readingNum
  | .writingNum _ | .returned => false

def busy (pc : ThreadPc) : Bool := pc.inside || pc.unlocks

def increments : ThreadPc → Nat
  | .unlocking | .unlockingAgain | .returned => 1
  | .notCreated | .locking | .printingNum | .settingNum | .readingNum
  | .writingNum _ => 0

end ThreadPc

structure Safe (state : State threads) : Prop where
  exclusion : ∀ first second, (state.thread first).pc.inside →
    (state.thread second).pc.inside → first = second
  unlock : ∀ index holder, (state.thread index).pc.unlocks →
    state.holder = some holder → holder = index
  joined : ∀ next, state.main = .joining next → threads ≤ next →
    state.num = threads
  printed : ∀ value, state.main = .printed value → value = threads

/-- No thread gets the mutex while another is between its two unlocks. -/
def LocksOutsideWindow (state : State threads) (action : Action threads) :
    Prop :=
  ∀ index, action = .thread index → (state.thread index).pc = .locking →
    ∀ other, (state.thread other).pc ≠ .unlockingAgain

/-! ## The invariant -/

def MainPc.Agrees (thread : Fin threads → Thread) : MainPc → Prop
  | .creating next => ∀ index : Fin threads, next ≤ index.val →
      (thread index).pc = .notCreated
  | .joining next => ∀ index : Fin threads, index.val < next →
      (thread index).pc = .returned
  | .printed value => value = threads
  | .failed => True

structure Exclusive (owner : Option (Fin threads)) (state : State threads) :
    Prop where
  busy : ∀ index, (state.thread index).pc.busy ↔ owner = some index
  holder : ∀ index, state.holder = some index ↔
    (state.thread index).pc.inside
  read : ∀ index value, (state.thread index).pc = .writingNum value →
    value = state.num
  counted : state.num = ∑ index, (state.thread index).pc.increments
  main : state.main.Agrees state.thread

theorem Exclusive.initial (threads : Nat) :
    Exclusive none (initial threads) where
  busy index := by simp [ScopedLock.initial, ThreadPc.busy, ThreadPc.inside,
    ThreadPc.unlocks]
  holder index := by simp [ScopedLock.initial, ThreadPc.inside]
  read index value := by simp [ScopedLock.initial]
  counted := by simp [ScopedLock.initial, ThreadPc.increments]
  main := fun _ _ => rfl

theorem MainPc.Agrees.update {main : MainPc} {thread : Fin threads → Thread}
    (h : main.Agrees thread) {index : Fin threads} (next : Thread)
    (hcreated : (thread index).pc ≠ .notCreated)
    (hrunning : (thread index).pc ≠ .returned) :
    main.Agrees (Function.update thread index next) := by
  cases main with
  | creating created =>
      intro other hother
      have hsame : other ≠ index := by
        intro heq
        exact hcreated (h index (heq ▸ hother))
      rw [Function.update_of_ne hsame]
      exact h other hother
  | joining joined =>
      intro other hother
      have hsame : other ≠ index := by
        intro heq
        exact hrunning (h index (heq ▸ hother))
      rw [Function.update_of_ne hsame]
      exact h other hother
  | printed value => exact h
  | failed => trivial

/--
A thread moves while no other thread is busy.  The mutex and `num` change as
its old and its new program point say.
-/
theorem Exclusive.move {owner : Option (Fin threads)} {state : State threads}
    (h : Exclusive owner state) {index : Fin threads} {next : Thread}
    {num : Nat} {holder : Option (Fin threads)}
    (halone : ∀ other, owner = some other → other = index)
    (hcreated : (state.thread index).pc ≠ .notCreated)
    (hrunning : (state.thread index).pc ≠ .returned)
    (hholder : holder = if next.pc.inside then some index else none)
    (hread : ∀ value, next.pc = .writingNum value → value = num)
    (hcounted : num + (state.thread index).pc.increments =
      state.num + next.pc.increments) :
    Exclusive (if next.pc.busy then some index else none)
      { state.setThread index next with num := num, holder := holder } := by
  have hidle : ∀ other, other ≠ index →
      (state.thread other).pc.busy = false := by
    intro other hother
    by_contra hbusy
    have howner := (h.busy other).mp (by simpa using hbusy)
    exact hother (halone other howner)
  refine ⟨?_, ?_, ?_, ?_, h.main.update next hcreated hrunning⟩
  · intro other
    by_cases hsame : other = index
    · simp [State.setThread, hsame]
    · simp [State.setThread, Function.update_of_ne hsame, hidle other hsame,
        Ne.symm hsame]
  · intro other
    have hinside : other ≠ index → (state.thread other).pc.inside = false := by
      intro hother
      have hbusy := hidle other hother
      simp only [ThreadPc.busy, Bool.or_eq_false_iff] at hbusy
      exact hbusy.1
    by_cases hsame : other = index
    · simp [State.setThread, hsame, hholder]
    · simp [State.setThread, Function.update_of_ne hsame, hinside hsame,
        hholder, Ne.symm hsame]
  · intro other value hvalue
    by_cases hsame : other = index
    · apply hread
      simpa [State.setThread, hsame] using hvalue
    · have hbusy := hidle other hsame
      simp only [State.setThread, Function.update_of_ne hsame] at hvalue
      simp [hvalue, ThreadPc.busy, ThreadPc.inside] at hbusy
  · have hsum := sum_update (fun thread => thread.pc.increments) state.thread
      index next
    have hbefore := h.counted
    simp only [State.setThread] at *
    omega

theorem Exclusive.threadStep {owner : Option (Fin threads)}
    {state next : State threads} {index : Fin threads}
    (h : Exclusive owner state)
    (houtside : LocksOutsideWindow state (.thread index))
    (hstep : threadStep state index = some next) :
    ∃ owner, Exclusive owner next := by
  have halone : (state.thread index).pc.busy →
      ∀ other, owner = some other → other = index := by
    intro hbusy other howner
    rw [(h.busy index).mp hbusy] at howner
    exact (Option.some.inj howner).symm
  have hholder := h.holder index
  cases hpc : (state.thread index).pc with
  | notCreated | returned =>
      simp only [ScopedLock.threadStep, hpc] at hstep
      cases hstep
  | locking =>
      simp only [ScopedLock.threadStep, hpc] at hstep
      split at hstep <;> cases hstep
      rename_i hfree
      refine ⟨_, h.move ?_ ?_ ?_ ?_ ?_ ?_⟩
      · intro other howner
        have hbusy := (h.busy other).mpr howner
        have hinside := h.holder other
        have hwindow := houtside index rfl hpc other
        rw [hfree] at hinside
        cases hother : (state.thread other).pc <;>
          simp_all [ThreadPc.busy, ThreadPc.inside, ThreadPc.unlocks]
      all_goals simp [hpc, ThreadPc.inside, ThreadPc.increments]
  | printingNum | settingNum | readingNum =>
      have hbusy := halone (by simp [hpc, ThreadPc.busy, ThreadPc.inside])
      simp only [ScopedLock.threadStep, hpc] at hstep
      cases hstep
      refine ⟨_, h.move hbusy ?_ ?_ ?_ ?_ ?_⟩
      all_goals simp [hpc, ThreadPc.inside, ThreadPc.increments, hholder]
  | writingNum read =>
      have hbusy := halone (by simp [hpc, ThreadPc.busy, ThreadPc.inside])
      have hread := h.read index read hpc
      simp only [ScopedLock.threadStep, hpc] at hstep
      cases hstep
      refine ⟨_, h.move hbusy ?_ ?_ ?_ ?_ ?_⟩
      all_goals simp [hpc, ThreadPc.inside, ThreadPc.increments, hholder, hread]
  | unlocking | unlockingAgain =>
      have hbusy := halone (by simp [hpc, ThreadPc.busy, ThreadPc.unlocks])
      simp only [ScopedLock.threadStep, hpc] at hstep
      cases hstep
      refine ⟨_, h.move hbusy ?_ ?_ ?_ ?_ ?_⟩
      all_goals simp [hpc, ThreadPc.inside, ThreadPc.increments]

theorem Exclusive.create {owner : Option (Fin threads)}
    {state : State threads} {next : Nat} (h : Exclusive owner state)
    (hlt : next < threads) (hmain : state.main = .creating next) :
    Exclusive owner { state.setThread ⟨next, hlt⟩ ⟨.locking, none⟩ with
      main := .creating (next + 1) } := by
  have hcreating : MainPc.Agrees state.thread (.creating next) := hmain ▸ h.main
  have hpc : (state.thread ⟨next, hlt⟩).pc = .notCreated :=
    hcreating ⟨next, hlt⟩ (Nat.le_refl next)
  have hbusy := h.busy ⟨next, hlt⟩
  have hholder := h.holder ⟨next, hlt⟩
  simp only [hpc, ThreadPc.busy, ThreadPc.inside, ThreadPc.unlocks] at hbusy
  simp only [hpc, ThreadPc.inside] at hholder
  refine ⟨?_, ?_, ?_, ?_, ?_⟩
  · intro other
    by_cases hsame : other = ⟨next, hlt⟩
    · simpa [State.setThread, hsame, ThreadPc.busy, ThreadPc.inside,
        ThreadPc.unlocks] using hbusy
    · simpa [State.setThread, Function.update_of_ne hsame] using h.busy other
  · intro other
    by_cases hsame : other = ⟨next, hlt⟩
    · simpa [State.setThread, hsame, ThreadPc.inside] using hholder
    · simpa [State.setThread, Function.update_of_ne hsame] using h.holder other
  · intro other value hvalue
    by_cases hsame : other = ⟨next, hlt⟩
    · simp [State.setThread, hsame] at hvalue
    · apply h.read other
      simpa [State.setThread, Function.update_of_ne hsame] using hvalue
  · have hsum := sum_update (fun thread => thread.pc.increments) state.thread
      ⟨next, hlt⟩ ⟨.locking, none⟩
    have hbefore := h.counted
    simp only [State.setThread, hpc, ThreadPc.increments] at *
    omega
  · intro other hother
    have hsame : other ≠ ⟨next, hlt⟩ := by
      intro heq
      rw [heq] at hother
      exact absurd hother (Nat.not_succ_le_self next)
    simp only [State.setThread, Function.update_of_ne hsame]
    exact hcreating other (by omega)

theorem Exclusive.num_of_returned {owner : Option (Fin threads)}
    {state : State threads} (h : Exclusive owner state)
    (hreturned : ∀ index, (state.thread index).pc = .returned) :
    state.num = threads := by
  simp [h.counted, hreturned, ThreadPc.increments]

theorem Exclusive.mainStep {owner : Option (Fin threads)}
    {state next : State threads} {createSucceeds : Bool}
    (h : Exclusive owner state)
    (hstep : mainStep state createSucceeds = some next) :
    Exclusive owner next := by
  have hagrees := h.main
  cases hmain : state.main with
  | creating created =>
      simp only [ScopedLock.mainStep, hmain] at hstep
      split at hstep
      · rename_i hlt
        split at hstep <;> cases hstep
        · exact h.create hlt hmain
        · exact ⟨h.busy, h.holder, h.read, h.counted, trivial⟩
      · cases hstep
        exact ⟨h.busy, h.holder, h.read, h.counted,
          fun _ hlt => absurd hlt (Nat.not_lt_zero _)⟩
  | joining joined =>
      rw [hmain] at hagrees
      simp only [ScopedLock.mainStep, hmain] at hstep
      split at hstep
      · rename_i hlt
        split at hstep <;> cases hstep
        rename_i hreturned
        refine ⟨h.busy, h.holder, h.read, h.counted, ?_⟩
        intro index hindex
        by_cases hlast : index.val = joined
        · have hsame : index = ⟨joined, hlt⟩ := Fin.ext hlast
          rw [hsame]
          exact hreturned
        · exact hagrees index (by omega)
      · cases hstep
        refine ⟨h.busy, h.holder, h.read, h.counted, ?_⟩
        exact h.num_of_returned fun index => hagrees index (by omega)
  | printed value | failed =>
      simp only [ScopedLock.mainStep, hmain] at hstep
      cases hstep

theorem exclusive_of_reachable {state : State threads}
    (h : (countSystem threads).ReachableBy LocksOutsideWindow state) :
    ∃ owner, Exclusive owner state := by
  refine h.invariant (fun state => ∃ owner, Exclusive owner state) ?_ ?_
  · rintro state rfl
    exact ⟨none, Exclusive.initial threads⟩
  · intro state action next hinv houtside hstep
    obtain ⟨owner, hexclusive⟩ := hinv
    cases action with
    | main createSucceeds => exact ⟨owner, hexclusive.mainStep hstep⟩
    | thread index =>
        simp only [countSystem] at hstep
        split at hstep
        · cases hstep
        · exact hexclusive.threadStep houtside hstep

theorem Exclusive.safe {owner : Option (Fin threads)} {state : State threads}
    (h : Exclusive owner state) : Safe state := by
  refine ⟨?_, ?_, ?_, ?_⟩
  · intro first second hfirst hsecond
    have hholder := (h.holder first).mpr hfirst
    rw [(h.holder second).mpr hsecond] at hholder
    exact (Option.some.inj hholder).symm
  · intro index holder hunlocks hholder
    have hinside := (h.holder holder).mp hholder
    have howner := (h.busy holder).mp (by simp [ThreadPc.busy, hinside])
    rw [(h.busy index).mp (by simp [ThreadPc.busy, hunlocks])] at howner
    exact (Option.some.inj howner).symm
  · intro next hmain hall
    have hjoined : MainPc.Agrees state.thread (.joining next) := hmain ▸ h.main
    exact h.num_of_returned fun index => hjoined index (by omega)
  · intro value hmain
    have hprinted : MainPc.Agrees state.thread (.printed value) :=
      hmain ▸ h.main
    exact hprinted

/-! ## Safety and its exact condition -/

/-- The second unlock of `other` is now made while `index` holds the mutex. -/
theorem not_safe_of_lock_in_window {state next : State threads}
    {index other : Fin threads} (hpc : (state.thread index).pc = .locking)
    (hother : (state.thread other).pc = .unlockingAgain)
    (hstep : threadStep state index = some next) : ¬ Safe next := by
  intro hsafe
  have hsame : other ≠ index := by
    rintro rfl
    rw [hpc] at hother
    cases hother
  simp only [threadStep, hpc] at hstep
  split at hstep <;> cases hstep
  have hheld := hsafe.unlock other index
    (by simp [State.goto, State.setThread, Function.update_of_ne hsame, hother,
      ThreadPc.unlocks]) rfl
  exact hsame hheld.symm

theorem count_safe_iff (threads : Nat) :
    (∀ state, (countSystem threads).ReachableBy LocksOutsideWindow state →
      Safe state) ∧
    ∀ state action next,
      (countSystem threads).ReachableBy LocksOutsideWindow state →
      (countSystem threads).step state action = some next →
      (Safe next ↔ LocksOutsideWindow state action) := by
  have hsafe : ∀ state : State threads,
      (countSystem threads).ReachableBy LocksOutsideWindow state →
      Safe state := by
    intro state hreach
    obtain ⟨owner, hexclusive⟩ := exclusive_of_reachable hreach
    exact hexclusive.safe
  refine ⟨hsafe, ?_⟩
  intro state action next hreach hstep
  constructor
  · intro hnext index haction hpc other hother
    subst haction
    simp only [countSystem] at hstep
    split at hstep
    · cases hstep
    · exact not_safe_of_lock_in_window hpc hother hstep hnext
  · intro houtside
    exact hsafe next (.next hreach houtside hstep)

def steps (index : Fin 3) (count : Nat) : List (Action 3) :=
  List.replicate count (.thread index)

/-- Thread 1 gets the mutex between the two unlocks of thread 0. -/
def overlap : List (Action 3) :=
  List.replicate 4 (.main true) ++ steps 0 6 ++ steps 1 1 ++ steps 0 1 ++
    steps 2 1

def lostUpdate : List (Action 3) :=
  steps 1 3 ++ steps 2 3 ++ steps 1 3 ++ steps 2 3 ++
    List.replicate 4 (.main true)

theorem count_unsafe :
    ∃ overlapping final : State 3,
      (countSystem 3).run (initial 3) overlap = some overlapping ∧
      (overlapping.thread 1).pc.inside ∧ (overlapping.thread 2).pc.inside ∧
      (countSystem 3).run overlapping lostUpdate = some final ∧
      final.main = .printed 2 ∧
      ¬ ∀ state, (countSystem 3).Reachable state → Safe state := by
  refine ⟨_, _, rfl, rfl, rfl, rfl, rfl, ?_⟩
  intro hsafe
  have hinitial : (countSystem 3).Initial (initial 3) := rfl
  have hreach := TransitionSystem.Reachable.of_run hinitial
    (rfl : (countSystem 3).run (initial 3) overlap = some _)
  have heq := (hsafe _ hreach).exclusion 1 2 rfl rfl
  exact absurd heq (by decide)

end CandCpp.Threads.ScopedLock
