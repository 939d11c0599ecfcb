import CandCpp.Foundation.TransitionSystem

/-!
# Arguments and results in cppLinuxThread.cpp

`main` passes the address of its `l_p_i` to both threads and rewrites it between
the two; both threads return the address of the global `ret_val`.  The mutex is
locked by `main` and unlocked by `threadproc`, as a signal that its argument has
been read.  Any attempt to lock may fail; an unlock frees the mutex whoever
holds it.
-/

namespace CandCpp.Threads.LinuxThread

open CandCpp.Foundation

/-! ## States and steps -/

inductive Address where
  | lPI
  | retVal
  deriving DecidableEq, Repr

inductive Mutex where
  | unlocked
  | locked
  | destroyed
  deriving DecidableEq, Repr

inductive ThreadprocPc where
  | notCreated
  | entered (pT : Option Address)
  | printing (lPArtT : Address)
  | printingAgain (lPArtT : Address)
  | unlocking
  | storing
  | ended (result : Option Address)
  deriving DecidableEq, Repr

inductive Threadproc2Pc where
  | notCreated
  | entered (pT : Option Address)
  | printing (lPArtT : Address)
  | storing
  | exiting
  | ended (result : Option Address)
  deriving DecidableEq, Repr

inductive MainPc where
  | locking
  | cannotLock
  | creatingTid
  | lockingAgain
  | settingArgument
  | creatingTid2
  | unlocking
  | destroying
  | joiningTid2
  | printingTid2 (tRetVal : Option Address)
  | joiningTid
  | printingTid (tRetVal : Option Address)
  | returned
  deriving DecidableEq, Repr

/-- What the threads print as `thread I` and what `main` prints as `t_ret_val2`
and `t_ret_val1` is kept. -/
structure State where
  lPI : Int32
  retVal : Int32
  waitMutexInt : Mutex
  main : MainPc
  threadproc : ThreadprocPc
  threadproc2 : Threadproc2Pc
  threadI : List Int32
  threadI2 : List Int32
  tRetVal2 : Option Int32
  tRetVal1 : Option Int32
  deriving DecidableEq

inductive Action where
  | main (lockSucceeds : Bool)
  | threadproc
  | threadproc2
  deriving DecidableEq, Repr

def State.load (state : State) : Address → Int32
  | .lPI => state.lPI
  | .retVal => state.retVal

def mainStep (state : State) (lockSucceeds : Bool) : Option State :=
  match state.main with
  | .locking =>
      if lockSucceeds then
        if state.waitMutexInt = .unlocked then
          some { state with waitMutexInt := .locked, main := .creatingTid }
        else none
      else some { state with main := .cannotLock }
  | .creatingTid =>
      some { state with
        threadproc := .entered (some .lPI), main := .lockingAgain }
  | .lockingAgain =>
      if lockSucceeds then
        if state.waitMutexInt = .unlocked then
          some { state with waitMutexInt := .locked, main := .settingArgument }
        else none
      else some state
  | .settingArgument => some { state with lPI := 2, main := .creatingTid2 }
  | .creatingTid2 =>
      some { state with
        threadproc2 := .entered (some .lPI), main := .unlocking }
  | .unlocking =>
      some { state with waitMutexInt := .unlocked, main := .destroying }
  | .destroying =>
      if state.waitMutexInt = .locked then
        some { state with main := .joiningTid2 }
      else some { state with waitMutexInt := .destroyed, main := .joiningTid2 }
  | .joiningTid2 =>
      match state.threadproc2 with
      | .ended result => some { state with main := .printingTid2 result }
      | _ => none
  | .printingTid2 tRetVal =>
      tRetVal.map fun address =>
        { state with
          tRetVal2 := some (state.load address), main := .joiningTid }
  | .joiningTid =>
      match state.threadproc with
      | .ended result => some { state with main := .printingTid result }
      | _ => none
  | .printingTid tRetVal =>
      tRetVal.map fun address =>
        { state with
          tRetVal1 := some (state.load address), main := .returned }
  | .cannotLock | .returned => none

/-- The three seconds of sleep are spent before the store. -/
def threadprocStep (state : State) : Option State :=
  match state.threadproc with
  | .notCreated => none
  | .entered none => some { state with threadproc := .ended none }
  | .entered (some address) =>
      some { state with threadproc := .printing address }
  | .printing lPArtT =>
      some { state with
        threadI := state.threadI ++ [state.load lPArtT]
        threadproc := .printingAgain lPArtT }
  | .printingAgain lPArtT =>
      some { state with
        threadI := state.threadI ++ [state.load lPArtT]
        threadproc := .unlocking }
  | .unlocking =>
      some { state with waitMutexInt := .unlocked, threadproc := .storing }
  | .storing =>
      some { state with retVal := 9, threadproc := .ended (some .retVal) }
  | .ended _ => none

def threadproc2Step (state : State) : Option State :=
  match state.threadproc2 with
  | .notCreated => none
  | .entered none => some { state with threadproc2 := .ended none }
  | .entered (some address) =>
      some { state with threadproc2 := .printing address }
  | .printing lPArtT =>
      some { state with
        threadI2 := state.threadI2 ++ [state.load lPArtT]
        threadproc2 := .storing }
  | .storing => some { state with retVal := 8, threadproc2 := .exiting }
  | .exiting => some { state with threadproc2 := .ended (some .retVal) }
  | .ended _ => none

def initial : State where
  lPI := 1
  retVal := -1
  waitMutexInt := .unlocked
  main := .locking
  threadproc := .notCreated
  threadproc2 := .notCreated
  threadI := []
  threadI2 := []
  tRetVal2 := none
  tRetVal1 := none

def threadSystem : TransitionSystem State Action where
  Initial state := state = initial
  step state
    | .main lockSucceeds => mainStep state lockSucceeds
    | .threadproc => threadprocStep state
    | .threadproc2 => threadproc2Step state

/-! ## What the program is for -/

/-- Each thread has read the value that `main` gave to it. -/
structure ReadsOwnArgument (state : State) : Prop where
  threadproc : ∀ value ∈ state.threadI, value = 1
  threadproc2 : ∀ value ∈ state.threadI2, value = 2

/-- `main` has printed nothing but what the joined thread stored. -/
structure PrintsOwnResult (state : State) : Prop where
  tid2 : ∀ value, state.tRetVal2 = some value → value = 8
  tid : ∀ value, state.tRetVal1 = some value → value = 9

namespace MainPc

def printedTid2 : MainPc → Bool
  | .joiningTid | .printingTid _ | .returned => true
  | .locking | .cannotLock | .creatingTid | .lockingAgain | .settingArgument
  | .creatingTid2 | .unlocking | .destroying | .joiningTid2
  | .printingTid2 _ => false

/-- The value of `l_p_i` at this point of `main`. -/
def argument : MainPc → Int32
  | .locking | .cannotLock | .creatingTid | .lockingAgain
  | .settingArgument => 1
  | .creatingTid2 | .unlocking | .destroying | .joiningTid2 | .printingTid2 _
  | .joiningTid | .printingTid _ | .returned => 2

end MainPc

/-- `threadproc` stores its result after `main` has printed the other one. -/
def StoresAfterPrint (state : State) (action : Action) : Prop :=
  action = .threadproc → state.threadproc = .storing → state.main.printedTid2

/-! ## What one step can do -/

inductive MainStep (state : State) : State → Prop
  | locks : state.main = .locking →
      MainStep state { state with
        waitMutexInt := .locked, main := .creatingTid }
  | cannotLock : state.main = .locking →
      MainStep state { state with main := .cannotLock }
  | createsTid : state.main = .creatingTid →
      MainStep state { state with
        threadproc := .entered (some .lPI), main := .lockingAgain }
  | triesAgain : state.main = .lockingAgain → MainStep state state
  | locksAgain : state.main = .lockingAgain →
      state.waitMutexInt = .unlocked →
      MainStep state { state with
        waitMutexInt := .locked, main := .settingArgument }
  | setsArgument : state.main = .settingArgument →
      MainStep state { state with lPI := 2, main := .creatingTid2 }
  | createsTid2 : state.main = .creatingTid2 →
      MainStep state { state with
        threadproc2 := .entered (some .lPI), main := .unlocking }
  | unlocks : state.main = .unlocking →
      MainStep state { state with
        waitMutexInt := .unlocked, main := .destroying }
  | destroys (mutex : Mutex) : state.main = .destroying →
      MainStep state { state with waitMutexInt := mutex, main := .joiningTid2 }
  | joinsTid2 {result : Option Address} : state.main = .joiningTid2 →
      state.threadproc2 = .ended result →
      MainStep state { state with main := .printingTid2 result }
  | printsTid2 {address : Address} :
      state.main = .printingTid2 (some address) →
      MainStep state { state with
        tRetVal2 := some (state.load address), main := .joiningTid }
  | joinsTid {result : Option Address} : state.main = .joiningTid →
      state.threadproc = .ended result →
      MainStep state { state with main := .printingTid result }
  | printsTid {address : Address} :
      state.main = .printingTid (some address) →
      MainStep state { state with
        tRetVal1 := some (state.load address), main := .returned }

theorem mainStep_cases {state next : State} {lockSucceeds : Bool}
    (hstep : mainStep state lockSucceeds = some next) :
    MainStep state next := by
  unfold mainStep at hstep
  split at hstep
  · split at hstep
    · split at hstep <;> cases hstep
      exact .locks ‹_›
    · cases hstep
      exact .cannotLock ‹_›
  · cases hstep
    exact .createsTid ‹_›
  · split at hstep
    · split at hstep <;> cases hstep
      exact .locksAgain ‹_› ‹_›
    · cases hstep
      exact .triesAgain ‹_›
  · cases hstep
    exact .setsArgument ‹_›
  · cases hstep
    exact .createsTid2 ‹_›
  · cases hstep
    exact .unlocks ‹_›
  · split at hstep <;> cases hstep
    · exact .destroys state.waitMutexInt ‹_›
    · exact .destroys .destroyed ‹_›
  · split at hstep <;> cases hstep
    exact .joinsTid2 ‹_› ‹_›
  · obtain ⟨address, rfl, rfl⟩ := Option.map_eq_some_iff.mp hstep
    exact .printsTid2 ‹_›
  · split at hstep <;> cases hstep
    exact .joinsTid ‹_› ‹_›
  · obtain ⟨address, rfl, rfl⟩ := Option.map_eq_some_iff.mp hstep
    exact .printsTid ‹_›
  all_goals cases hstep

inductive ThreadprocStep (state : State) : State → Prop
  | finds {address : Address} : state.threadproc = .entered (some address) →
      ThreadprocStep state { state with threadproc := .printing address }
  | findsNull : state.threadproc = .entered none →
      ThreadprocStep state { state with threadproc := .ended none }
  | prints {address : Address} : state.threadproc = .printing address →
      ThreadprocStep state { state with
        threadI := state.threadI ++ [state.load address]
        threadproc := .printingAgain address }
  | printsAgain {address : Address} :
      state.threadproc = .printingAgain address →
      ThreadprocStep state { state with
        threadI := state.threadI ++ [state.load address]
        threadproc := .unlocking }
  | unlocks : state.threadproc = .unlocking →
      ThreadprocStep state { state with
        waitMutexInt := .unlocked, threadproc := .storing }
  | stores : state.threadproc = .storing →
      ThreadprocStep state { state with
        retVal := 9, threadproc := .ended (some .retVal) }

theorem threadprocStep_cases {state next : State}
    (hstep : threadprocStep state = some next) : ThreadprocStep state next := by
  unfold threadprocStep at hstep
  split at hstep <;> cases hstep
  · exact .findsNull ‹_›
  · exact .finds ‹_›
  · exact .prints ‹_›
  · exact .printsAgain ‹_›
  · exact .unlocks ‹_›
  · exact .stores ‹_›

inductive Threadproc2Step (state : State) : State → Prop
  | finds {address : Address} : state.threadproc2 = .entered (some address) →
      Threadproc2Step state { state with threadproc2 := .printing address }
  | findsNull : state.threadproc2 = .entered none →
      Threadproc2Step state { state with threadproc2 := .ended none }
  | prints {address : Address} : state.threadproc2 = .printing address →
      Threadproc2Step state { state with
        threadI2 := state.threadI2 ++ [state.load address]
        threadproc2 := .storing }
  | stores : state.threadproc2 = .storing →
      Threadproc2Step state { state with retVal := 8, threadproc2 := .exiting }
  | exits : state.threadproc2 = .exiting →
      Threadproc2Step state { state with threadproc2 := .ended (some .retVal) }

theorem threadproc2Step_cases {state next : State}
    (hstep : threadproc2Step state = some next) :
    Threadproc2Step state next := by
  unfold threadproc2Step at hstep
  split at hstep <;> cases hstep
  · exact .findsNull ‹_›
  · exact .finds ‹_›
  · exact .prints ‹_›
  · exact .stores ‹_›
  · exact .exits ‹_›

/-! ## The arguments -/

namespace ThreadprocPc

/-- `main` waits in its second `pthread_mutex_lock`. -/
def holdsMain : ThreadprocPc → Bool
  | .entered _ | .printing _ | .printingAgain _ | .unlocking => true
  | .notCreated | .storing | .ended _ => false

def WellFormed : ThreadprocPc → Prop
  | .entered pT => pT = some .lPI
  | .printing lPArtT | .printingAgain lPArtT => lPArtT = .lPI
  | .ended result => result = some .retVal
  | .notCreated | .unlocking | .storing => True

end ThreadprocPc

def Threadproc2Pc.WellFormed : Threadproc2Pc → Prop
  | .entered pT => pT = some .lPI
  | .printing lPArtT => lPArtT = .lPI
  | .ended result => result = some .retVal
  | .notCreated | .storing | .exiting => True

def MainPc.createdTid : MainPc → Bool
  | .locking | .cannotLock | .creatingTid => false
  | .lockingAgain | .settingArgument | .creatingTid2 | .unlocking | .destroying
  | .joiningTid2 | .printingTid2 _ | .joiningTid | .printingTid _
  | .returned => true

structure HandsOver (state : State) : Prop where
  created : state.main.createdTid = false → state.threadproc = .notCreated
  argument : state.lPI = state.main.argument
  locked : state.main = .creatingTid → state.waitMutexInt = .locked
  waits : state.threadproc.holdsMain →
    state.main = .lockingAgain ∧ state.waitMutexInt = .locked
  created2 : state.threadproc2 ≠ .notCreated → state.main.argument = 2
  threadproc : state.threadproc.WellFormed
  threadproc2 : state.threadproc2.WellFormed
  reads : ReadsOwnArgument state

theorem handsOver_initial : HandsOver initial := by
  refine ⟨fun _ => rfl, rfl, ?_, ?_, ?_, trivial, trivial, ?_, ?_⟩
  all_goals simp [initial, ThreadprocPc.holdsMain]

theorem HandsOver.mainStep {state next : State} (h : HandsOver state)
    (hstep : MainStep state next) : HandsOver next := by
  obtain ⟨hcreated, hargument, hlocked, hwaits, hcreated2, hproc, hproc2,
    hreads⟩ := h
  cases hstep with
  | createsTid hmain =>
      refine ⟨?_, ?_, ?_, ?_, ?_, rfl, hproc2, hreads.1, hreads.2⟩
      all_goals simp_all [MainPc.createdTid, MainPc.argument]
  | createsTid2 hmain =>
      refine ⟨?_, ?_, ?_, ?_, ?_, hproc, rfl, hreads.1, hreads.2⟩
      all_goals simp_all [MainPc.createdTid, MainPc.argument]
  | locks | cannotLock | triesAgain | locksAgain | setsArgument | unlocks
  | destroys | joinsTid2 | printsTid2 | joinsTid | printsTid =>
      refine ⟨?_, ?_, ?_, ?_, ?_, hproc, hproc2, hreads.1, hreads.2⟩
      all_goals simp_all [MainPc.createdTid, MainPc.argument]

theorem HandsOver.threadprocStep {state next : State} (h : HandsOver state)
    (hstep : ThreadprocStep state next) : HandsOver next := by
  obtain ⟨hcreated, hargument, hlocked, hwaits, hcreated2, hproc, hproc2,
    hreads⟩ := h
  have hlate : ∀ pc : ThreadprocPc,
      state.main.createdTid = false → pc = .notCreated := by
    intro pc hearly
    have hpc := hcreated hearly
    cases hstep <;> simp_all
  have hvalue : state.threadproc.holdsMain → state.load .lPI = 1 := by
    intro hholds
    rw [State.load, hargument, (hwaits hholds).1]
    rfl
  cases hstep with
  | findsNull hpc =>
      rw [hpc] at hproc
      cases hproc
  | finds hpc =>
      rw [hpc] at hwaits hproc
      cases hproc
      exact ⟨hlate _, hargument, hlocked, fun _ => hwaits rfl, hcreated2, rfl,
        hproc2, hreads.1, hreads.2⟩
  | prints hpc | printsAgain hpc =>
      rw [hpc] at hwaits hproc hvalue
      cases hproc
      refine ⟨hlate _, hargument, hlocked, fun _ => hwaits rfl, hcreated2, ?_,
        hproc2, ?_, hreads.2⟩
      · trivial
      · intro value hmem
        rcases List.mem_append.mp hmem with hold | hnew
        · exact hreads.1 value hold
        · rw [List.mem_singleton.mp hnew]
          exact hvalue rfl
  | unlocks hpc =>
      rw [hpc] at hwaits
      obtain ⟨hmain, -⟩ := hwaits rfl
      refine ⟨hlate _, hargument, ?_, ?_, hcreated2, trivial, hproc2, hreads.1,
        hreads.2⟩
      · intro hcreating
        cases hmain.symm.trans hcreating
      · intro hholds
        cases hholds
  | stores hpc =>
      refine ⟨hlate _, hargument, hlocked, ?_, hcreated2, rfl, hproc2, hreads.1,
        hreads.2⟩
      intro hholds
      cases hholds

theorem HandsOver.threadproc2Step {state next : State} (h : HandsOver state)
    (hstep : Threadproc2Step state next) : HandsOver next := by
  obtain ⟨hcreated, hargument, hlocked, hwaits, hcreated2, hproc, hproc2,
    hreads⟩ := h
  cases hstep with
  | findsNull hpc =>
      rw [hpc] at hproc2
      cases hproc2
  | finds hpc =>
      rw [hpc] at hproc2
      cases hproc2
      have hmain : state.main.argument = 2 := hcreated2 (by simp [hpc])
      exact ⟨hcreated, hargument, hlocked, hwaits, fun _ => hmain, hproc, rfl,
        hreads.1, hreads.2⟩
  | prints hpc =>
      rw [hpc] at hproc2
      cases hproc2
      have hmain : state.main.argument = 2 := hcreated2 (by simp [hpc])
      refine ⟨hcreated, hargument, hlocked, hwaits, fun _ => hmain, hproc,
        trivial, hreads.1, ?_⟩
      intro value hmem
      rcases List.mem_append.mp hmem with hold | hnew
      · exact hreads.2 value hold
      · rw [List.mem_singleton.mp hnew]
        exact hargument.trans hmain
  | stores hpc | exits hpc =>
      have hmain : state.main.argument = 2 := hcreated2 (by simp [hpc])
      refine ⟨hcreated, hargument, hlocked, hwaits, fun _ => hmain, hproc, ?_,
        hreads.1, hreads.2⟩
      trivial

theorem HandsOver.step {state next : State} {action : Action}
    (h : HandsOver state) (hstep : threadSystem.step state action = some next) :
    HandsOver next := by
  cases action with
  | main lockSucceeds => exact h.mainStep (mainStep_cases hstep)
  | threadproc => exact h.threadprocStep (threadprocStep_cases hstep)
  | threadproc2 => exact h.threadproc2Step (threadproc2Step_cases hstep)

/-! ## The results -/

namespace MainPc

def joinedTid2 : MainPc → Bool
  | .printingTid2 _ | .joiningTid | .printingTid _ | .returned => true
  | .locking | .cannotLock | .creatingTid | .lockingAgain | .settingArgument
  | .creatingTid2 | .unlocking | .destroying | .joiningTid2 => false

def joinedTid : MainPc → Bool
  | .printingTid _ | .returned => true
  | .locking | .cannotLock | .creatingTid | .lockingAgain | .settingArgument
  | .creatingTid2 | .unlocking | .destroying | .joiningTid2 | .printingTid2 _
  | .joiningTid => false

theorem printedTid2_of_not_joinedTid2 {main : MainPc}
    (h : main.joinedTid2 = false) : main.printedTid2 = false := by
  cases main <;> first | rfl | cases h

theorem joinedTid_of_not_joinedTid2 {main : MainPc}
    (h : main.joinedTid2 = false) : main.joinedTid = false := by
  cases main <;> first | rfl | cases h

end MainPc

structure Joins (state : State) : Prop where
  joined2 : state.main.joinedTid2 → state.threadproc2 = .ended (some .retVal)
  joined : state.main.joinedTid → state.threadproc = .ended (some .retVal)
  pointer2 : ∀ tRetVal, state.main = .printingTid2 tRetVal →
    tRetVal = some .retVal
  pointer : ∀ tRetVal, state.main = .printingTid tRetVal →
    tRetVal = some .retVal
  printed2 : state.tRetVal2.isSome = state.main.printedTid2
  printed : state.tRetVal1.isSome ↔ state.main = .returned

/-- Before the first join there is nothing to show. -/
theorem joins_of_not_joined {state : State}
    (hmain : state.main.joinedTid2 = false) (htid2 : state.tRetVal2 = none)
    (htid : state.tRetVal1 = none) : Joins state := by
  have hjoined := MainPc.joinedTid_of_not_joinedTid2 hmain
  have hprinted2 := MainPc.printedTid2_of_not_joinedTid2 hmain
  refine ⟨?_, ?_, ?_, ?_, ?_, ?_⟩
  · simp [hmain]
  · simp [hjoined]
  · intro _ hpc
    rw [hpc] at hmain
    cases hmain
  · intro _ hpc
    rw [hpc] at hmain
    cases hmain
  · rw [htid2, hprinted2]
    rfl
  · rw [htid]
    refine ⟨fun h => Bool.noConfusion h, fun hpc => ?_⟩
    rw [hpc] at hmain
    cases hmain

theorem joins_initial : Joins initial := joins_of_not_joined rfl rfl rfl

theorem Joins.not_printed {state : State} (h : Joins state)
    (hmain : state.main.joinedTid2 = false) :
    state.tRetVal2 = none ∧ state.tRetVal1 = none := by
  constructor
  · rw [← Option.isNone_iff_eq_none, ← Option.not_isSome, h.printed2,
      MainPc.printedTid2_of_not_joinedTid2 hmain]
    rfl
  · rw [← Option.not_isSome_iff_eq_none, h.printed]
    intro hpc
    rw [hpc] at hmain
    cases hmain

theorem Joins.mainStep {state next : State} (h : Joins state)
    (hhands : HandsOver state) (hstep : MainStep state next) : Joins next := by
  have hresult2 := hhands.threadproc2
  have hresult := hhands.threadproc
  cases hstep with
  | triesAgain => exact h
  | locks hmain | cannotLock hmain | createsTid hmain | locksAgain hmain
  | setsArgument hmain | createsTid2 hmain | unlocks hmain
  | destroys _ hmain =>
      have hprinted := h.not_printed (by rw [hmain]; rfl)
      exact joins_of_not_joined rfl hprinted.1 hprinted.2
  | joinsTid2 hmain hended =>
      rw [hended] at hresult2
      cases hresult2
      obtain ⟨htid2, htid⟩ := h.not_printed (by rw [hmain]; rfl)
      refine ⟨fun _ => hended, ?_, ?_, ?_, ?_, ?_⟩
      all_goals simp [htid2, htid, MainPc.joinedTid, MainPc.printedTid2]
  | joinsTid hmain hended =>
      rw [hended] at hresult
      cases hresult
      obtain ⟨hjoined2, -, -, -, hprinted2, hprinted⟩ := h
      rw [hmain] at hjoined2 hprinted2 hprinted
      refine ⟨hjoined2, fun _ => hended, ?_, ?_, hprinted2, ?_⟩
      all_goals simp_all
  | printsTid2 hmain =>
      obtain ⟨hjoined2, -, -, -, -, hprinted⟩ := h
      rw [hmain] at hjoined2 hprinted
      refine ⟨hjoined2, ?_, ?_, ?_, rfl, ?_⟩
      all_goals simp_all [MainPc.joinedTid]
  | printsTid hmain =>
      obtain ⟨hjoined2, hjoined, -, -, hprinted2, -⟩ := h
      rw [hmain] at hjoined2 hjoined hprinted2
      refine ⟨hjoined2, hjoined, ?_, ?_, hprinted2, ?_⟩
      all_goals simp

/-- A thread that takes a step has not ended, and `main` does not notice. -/
theorem ThreadprocStep.frame {state next : State}
    (hstep : ThreadprocStep state next) :
    (∀ result, state.threadproc ≠ .ended result) ∧
      next.main = state.main ∧ next.threadproc2 = state.threadproc2 ∧
      next.tRetVal2 = state.tRetVal2 ∧ next.tRetVal1 = state.tRetVal1 := by
  cases hstep <;> simp_all

theorem Threadproc2Step.frame {state next : State}
    (hstep : Threadproc2Step state next) :
    (∀ result, state.threadproc2 ≠ .ended result) ∧
      next.main = state.main ∧ next.threadproc = state.threadproc ∧
      next.tRetVal2 = state.tRetVal2 ∧ next.tRetVal1 = state.tRetVal1 := by
  cases hstep <;> simp_all

theorem Joins.threadprocStep {state next : State} (h : Joins state)
    (hstep : ThreadprocStep state next) : Joins next := by
  obtain ⟨hpc, hmain, hproc2, htid2, htid⟩ := hstep.frame
  refine ⟨?_, ?_, ?_, ?_, ?_, ?_⟩
  · rw [hmain, hproc2]
    exact h.joined2
  · intro hjoined
    rw [hmain] at hjoined
    exact absurd (h.joined hjoined) (hpc _)
  · rw [hmain]
    exact h.pointer2
  · rw [hmain]
    exact h.pointer
  · rw [hmain, htid2]
    exact h.printed2
  · rw [hmain, htid]
    exact h.printed

theorem Joins.not_joined {state : State} (h : Joins state)
    (hpc : ∀ result, state.threadproc2 ≠ .ended result) :
    state.main.joinedTid2 = false := by
  by_contra hjoined
  exact hpc _ (h.joined2 (by simpa using hjoined))

theorem Joins.threadproc2Step {state next : State} (h : Joins state)
    (hstep : Threadproc2Step state next) : Joins next := by
  obtain ⟨hpc, hmain, -, htid2, htid⟩ := hstep.frame
  have hearly := h.not_joined hpc
  obtain ⟨hnone2, hnone⟩ := h.not_printed hearly
  exact joins_of_not_joined (by rw [hmain, hearly]) (htid2.trans hnone2)
    (htid.trans hnone)

theorem Joins.step {state next : State} {action : Action} (h : Joins state)
    (hhands : HandsOver state)
    (hstep : threadSystem.step state action = some next) : Joins next := by
  cases action with
  | main lockSucceeds => exact h.mainStep hhands (mainStep_cases hstep)
  | threadproc => exact h.threadprocStep (threadprocStep_cases hstep)
  | threadproc2 => exact h.threadproc2Step (threadproc2Step_cases hstep)

/-! ## Who stored last -/

def ThreadprocPc.stored : ThreadprocPc → Bool
  | .ended _ => true
  | .notCreated | .entered _ | .printing _ | .printingAgain _ | .unlocking
  | .storing => false

def Threadproc2Pc.stored : Threadproc2Pc → Bool
  | .exiting | .ended _ => true
  | .notCreated | .entered _ | .printing _ | .storing => false

/-- `main` reads 8 as long as it has not printed it, and 9 from then on. -/
structure InTurn (state : State) : Prop where
  results : PrintsOwnResult state
  before : state.threadproc.stored = false → state.threadproc2.stored →
    state.retVal = 8
  after : state.threadproc.stored →
    state.main.printedTid2 ∧ state.retVal = 9

/-- Of the two results `main` can only read the one that was stored last. -/
structure OutOfTurn (state : State) : Prop where
  stored : state.threadproc.stored
  last : state.threadproc2.stored →
    (state.retVal = 8 ∧ ∀ value, state.tRetVal1 = some value → value = 8) ∨
      (state.retVal = 9 ∧ ∀ value, state.tRetVal2 = some value → value = 9)

theorem inTurn_initial : InTurn initial := by
  refine ⟨⟨?_, ?_⟩, ?_, ?_⟩
  all_goals simp [initial, Threadproc2Pc.stored, ThreadprocPc.stored]

theorem InTurn.not_stored {state : State} (h : InTurn state)
    (hmain : state.main.printedTid2 = false) :
    state.threadproc.stored = false := by
  by_contra hstored
  have hprinted := (h.after (by simpa using hstored)).1
  rw [hmain] at hprinted
  cases hprinted

theorem InTurn.mainStep {state next : State} (h : InTurn state)
    (hjoins : Joins state) (hstep : MainStep state next) : InTurn next := by
  have hearly := h.not_stored
  obtain ⟨⟨htid2, htid⟩, hbefore, hafter⟩ := h
  cases hstep with
  | printsTid2 hmain =>
      cases hjoins.pointer2 _ hmain
      have hended := hjoins.joined2 (by simp [hmain, MainPc.joinedTid2])
      have hvalue := hbefore (hearly (by rw [hmain]; rfl))
        (by simp [hended, Threadproc2Pc.stored])
      refine ⟨⟨?_, htid⟩, hbefore, fun hstored => ⟨rfl, (hafter hstored).2⟩⟩
      intro value hprinted
      cases hprinted
      exact hvalue
  | printsTid hmain =>
      cases hjoins.pointer _ hmain
      have hended := hjoins.joined (by simp [hmain, MainPc.joinedTid])
      have hvalue := (hafter (by simp [hended, ThreadprocPc.stored])).2
      refine ⟨⟨htid2, ?_⟩, hbefore, fun _ => ⟨rfl, hvalue⟩⟩
      intro value hprinted
      cases hprinted
      exact hvalue
  | createsTid hmain =>
      have hwaits := hearly (by rw [hmain]; rfl)
      refine ⟨⟨htid2, htid⟩, fun _ => hbefore hwaits, ?_⟩
      intro hstored
      cases hstored
  | createsTid2 hmain =>
      have hwaits := hearly (by rw [hmain]; rfl)
      refine ⟨⟨htid2, htid⟩, ?_, ?_⟩
      · intro _ hstored2
        cases hstored2
      · intro hstored
        cases hwaits.symm.trans hstored
  | joinsTid =>
      exact ⟨⟨htid2, htid⟩, hbefore, fun hstored => ⟨rfl, (hafter hstored).2⟩⟩
  | locks hmain | cannotLock hmain | triesAgain hmain | locksAgain hmain
  | setsArgument hmain | unlocks hmain | destroys _ hmain
  | joinsTid2 hmain =>
      have hwaits := hearly (by rw [hmain]; rfl)
      refine ⟨⟨htid2, htid⟩, hbefore, ?_⟩
      intro hstored
      cases hwaits.symm.trans hstored

theorem HandsOver.not_null2 {state : State} (h : HandsOver state) :
    state.threadproc2 ≠ .entered none := by
  intro hpc
  have hargument := h.threadproc2
  rw [hpc] at hargument
  cases hargument

theorem InTurn.threadproc2Step {state next : State} (h : InTurn state)
    (hhands : HandsOver state) (hjoins : Joins state)
    (hstep : Threadproc2Step state next) : InTurn next := by
  have hwaits := h.not_stored
    (MainPc.printedTid2_of_not_joinedTid2 (hjoins.not_joined hstep.frame.1))
  obtain ⟨⟨htid2, htid⟩, hbefore, hafter⟩ := h
  cases hstep with
  | stores =>
      refine ⟨⟨htid2, htid⟩, fun _ _ => rfl, ?_⟩
      intro hstored
      cases hwaits.symm.trans hstored
  | findsNull hpc => exact absurd hpc hhands.not_null2
  | finds hpc | prints hpc | exits hpc =>
      refine ⟨⟨htid2, htid⟩, ?_, hafter⟩
      simp_all [Threadproc2Pc.stored]

theorem InTurn.threadprocStep {state next : State} (h : InTurn state)
    (hhands : HandsOver state) (hprint : StoresAfterPrint state .threadproc)
    (hstep : ThreadprocStep state next) : InTurn next := by
  obtain ⟨⟨htid2, htid⟩, hbefore, hafter⟩ := h
  cases hstep with
  | stores hpc =>
      refine ⟨⟨htid2, htid⟩, ?_, fun _ => ⟨hprint rfl hpc, rfl⟩⟩
      intro hstored
      cases hstored
  | findsNull hpc =>
      have hresult := hhands.threadproc
      rw [hpc] at hresult
      cases hresult
  | finds hpc | prints hpc | printsAgain hpc | unlocks hpc =>
      have hearly : state.threadproc.stored = false := by
        simp [hpc, ThreadprocPc.stored]
      refine ⟨⟨htid2, htid⟩, fun _ => hbefore hearly, ?_⟩
      intro hstored
      cases hstored

theorem outOfTurn_of_early_store {state next : State} (hjoins : Joins state)
    (hpc : state.threadproc = .storing)
    (hmain : state.main.printedTid2 = false)
    (hstep : ThreadprocStep state next) : OutOfTurn next := by
  cases hstep with
  | stores =>
      refine ⟨rfl, fun _ => .inr ⟨rfl, ?_⟩⟩
      intro value hprinted
      have hnone := hjoins.printed2
      simp_all
  | finds hother | findsNull hother | prints hother | printsAgain hother
  | unlocks hother =>
      cases hpc.symm.trans hother

theorem OutOfTurn.mainStep {state next : State} (h : OutOfTurn state)
    (hhands : HandsOver state) (hjoins : Joins state)
    (hstep : MainStep state next) : OutOfTurn next := by
  obtain ⟨hstored, hlast⟩ := h
  cases hstep with
  | printsTid2 hmain =>
      cases hjoins.pointer2 _ hmain
      refine ⟨hstored, fun hstored2 => (hlast hstored2).imp_right ?_⟩
      rintro ⟨hvalue, -⟩
      refine ⟨hvalue, ?_⟩
      intro value hprinted
      cases hprinted
      exact hvalue
  | printsTid hmain =>
      cases hjoins.pointer _ hmain
      refine ⟨hstored, fun hstored2 => (hlast hstored2).imp_left ?_⟩
      rintro ⟨hvalue, -⟩
      refine ⟨hvalue, ?_⟩
      intro value hprinted
      cases hprinted
      exact hvalue
  | createsTid hmain =>
      have hpc := hhands.created (by simp [hmain, MainPc.createdTid])
      rw [hpc] at hstored
      cases hstored
  | createsTid2 hmain =>
      refine ⟨hstored, fun hstored2 => ?_⟩
      cases hstored2
  | locks | cannotLock | triesAgain | locksAgain | setsArgument | unlocks
  | destroys | joinsTid2 | joinsTid => exact ⟨hstored, hlast⟩

theorem OutOfTurn.threadproc2Step {state next : State} (h : OutOfTurn state)
    (hhands : HandsOver state) (hjoins : Joins state)
    (hstep : Threadproc2Step state next) : OutOfTurn next := by
  obtain ⟨hstored, hlast⟩ := h
  have htid := (hjoins.not_printed (hjoins.not_joined hstep.frame.1)).2
  cases hstep with
  | stores hpc =>
      refine ⟨hstored, fun _ => .inl ⟨rfl, ?_⟩⟩
      simp [htid]
  | findsNull hpc => exact absurd hpc hhands.not_null2
  | finds hpc | prints hpc | exits hpc =>
      refine ⟨hstored, fun hstored2 => hlast ?_⟩
      simp_all [Threadproc2Pc.stored]

theorem OutOfTurn.threadprocStep {state next : State} (h : OutOfTurn state)
    (hstep : ThreadprocStep state next) : OutOfTurn next := by
  have hstored := h.stored
  have hrunning := hstep.frame.1
  cases hpc : state.threadproc <;> simp_all [ThreadprocPc.stored]

/-! ## Runs -/

structure Kept (state : State) : Prop where
  hands : HandsOver state
  joins : Joins state
  turn : InTurn state

structure Broken (state : State) : Prop where
  hands : HandsOver state
  joins : Joins state
  turn : OutOfTurn state

theorem kept_initial : Kept initial :=
  ⟨handsOver_initial, joins_initial, inTurn_initial⟩

theorem Kept.step {state next : State} {action : Action} (h : Kept state)
    (hprint : StoresAfterPrint state action)
    (hstep : threadSystem.step state action = some next) : Kept next := by
  refine ⟨h.hands.step hstep, h.joins.step h.hands hstep, ?_⟩
  cases action with
  | main lockSucceeds => exact h.turn.mainStep h.joins (mainStep_cases hstep)
  | threadproc =>
      exact h.turn.threadprocStep h.hands hprint (threadprocStep_cases hstep)
  | threadproc2 =>
      exact h.turn.threadproc2Step h.hands h.joins (threadproc2Step_cases hstep)

theorem Kept.breaks {state next : State} {action : Action} (h : Kept state)
    (hprint : ¬ StoresAfterPrint state action)
    (hstep : threadSystem.step state action = some next) : Broken next := by
  refine ⟨h.hands.step hstep, h.joins.step h.hands hstep, ?_⟩
  simp only [StoresAfterPrint, Classical.not_imp, Bool.not_eq_true] at hprint
  obtain ⟨rfl, hpc, hmain⟩ := hprint
  exact outOfTurn_of_early_store h.joins hpc hmain (threadprocStep_cases hstep)

theorem Broken.step {state next : State} {action : Action} (h : Broken state)
    (hstep : threadSystem.step state action = some next) : Broken next := by
  refine ⟨h.hands.step hstep, h.joins.step h.hands hstep, ?_⟩
  cases action with
  | main lockSucceeds =>
      exact h.turn.mainStep h.hands h.joins (mainStep_cases hstep)
  | threadproc => exact h.turn.threadprocStep (threadprocStep_cases hstep)
  | threadproc2 =>
      exact h.turn.threadproc2Step h.hands h.joins (threadproc2Step_cases hstep)

theorem Broken.not_printsOwnResult {state : State} (h : Broken state)
    (hmain : state.main = .returned) : ¬ PrintsOwnResult state := by
  rintro ⟨htid2, htid⟩
  have hended := h.joins.joined2 (by simp [hmain, MainPc.joinedTid2])
  have hprinted2 : state.tRetVal2.isSome := by
    rw [h.joins.printed2, hmain]
    rfl
  obtain ⟨value2, hvalue2⟩ := Option.isSome_iff_exists.mp hprinted2
  obtain ⟨value, hvalue⟩ :=
    Option.isSome_iff_exists.mp (h.joins.printed.mpr hmain)
  rcases h.turn.last (by simp [hended, Threadproc2Pc.stored]) with
    ⟨-, hwrong⟩ | ⟨-, hwrong⟩
  · exact absurd ((htid value hvalue).symm.trans (hwrong value hvalue))
      (by decide)
  · exact absurd ((htid2 value2 hvalue2).symm.trans (hwrong value2 hvalue2))
      (by decide)

/-- The arguments are right in every run; the results are right as long as
`threadproc` stores after the first print, and wrong at the end otherwise. -/
theorem threads_correct_iff {actions : List Action} {state : State}
    (hrun : threadSystem.run initial actions = some state) :
    ReadsOwnArgument state ∧
      (threadSystem.Follows StoresAfterPrint initial actions →
        PrintsOwnResult state) ∧
      (state.main = .returned → (PrintsOwnResult state ↔
        threadSystem.Follows StoresAfterPrint initial actions)) := by
  have hcases := TransitionSystem.follows_cases kept_initial
    (fun _ _ _ => Kept.step) (fun _ _ _ => Kept.breaks)
    (fun _ _ _ => Broken.step) hrun
  rcases hcases with ⟨hfollows, hkept⟩ | ⟨hbreaks, hbroken⟩
  · have hresults := hkept.turn.results
    exact ⟨hkept.hands.reads, fun _ => hresults,
      fun _ => ⟨fun _ => hfollows, fun _ => hresults⟩⟩
  · refine ⟨hbroken.hands.reads, fun hfollows => absurd hfollows hbreaks, ?_⟩
    intro hmain
    have hwrong := hbroken.not_printsOwnResult hmain
    exact ⟨fun h => absurd h hwrong, fun h => absurd h hbreaks⟩

/-- Up to the end of `threadproc2`, while `threadproc` sleeps. -/
def asleep : List Action :=
  [.main true, .main true, .threadproc, .threadproc, .threadproc, .threadproc,
    .main false, .main true, .main true, .main true, .main true, .main true,
    .threadproc2, .threadproc2, .threadproc2, .threadproc2]

/-- `main` joins a thread and prints its result. -/
def join : List Action := [.main true, .main true]

def inTurn : List Action := asleep ++ join ++ [.threadproc] ++ join

/-- `threadproc` wakes up before `main` has printed the result of the other. -/
def outOfTurn : List Action := asleep ++ [.threadproc] ++ join ++ join

theorem threads_correct_inTurn :
    ∃ final, threadSystem.run initial inTurn = some final ∧
      ReadsOwnArgument final ∧
      final.tRetVal2 = some 8 ∧ final.tRetVal1 = some 9 ∧
      threadSystem.Follows StoresAfterPrint initial inTurn := by
  obtain ⟨final, hrun, hmain, htid2, htid⟩ :
      ∃ final, threadSystem.run initial inTurn = some final ∧
        final.main = .returned ∧ final.tRetVal2 = some 8 ∧
        final.tRetVal1 = some 9 := ⟨_, rfl, rfl, rfl, rfl⟩
  have hcorrect := threads_correct_iff hrun
  have hprints : PrintsOwnResult final := ⟨by simp [htid2], by simp [htid]⟩
  exact ⟨final, hrun, hcorrect.1, htid2, htid, (hcorrect.2.2 hmain).mp hprints⟩

theorem threadproc_overwrites :
    ∃ final, threadSystem.run initial outOfTurn = some final ∧
      final.main = .returned ∧
      final.tRetVal2 = some 9 ∧ final.tRetVal1 = some 9 ∧
      ¬ ∀ actions state, threadSystem.run initial actions = some state →
        ReadsOwnArgument state ∧ PrintsOwnResult state := by
  refine ⟨_, rfl, rfl, rfl, rfl, ?_⟩
  intro hcorrect
  obtain ⟨-, hprints⟩ := hcorrect outOfTurn _ rfl
  exact absurd (hprints.tid2 9 rfl) (by decide)

end CandCpp.Threads.LinuxThread
