import CandCpp.Foundation.SystemVQueue
import CandCpp.Foundation.TransitionSystem

/-!
# Requests and responses of cppThreadMsgQueue.cpp

The program is executed any number of times on one machine.  Its process may
end, with both of its detached threads, as soon as `main` returns; the queue
under `MSG_KEY` stays.  Every message is kept with what it was sent for: the
execution whose `MQ_client` sent it, or the execution whose `MQ_server` sent it
and the origin of the request it had received.  Any system call may fail.
-/

namespace CandCpp.Threads.MessageQueue

open CandCpp.Foundation

structure Message where
  msgType : Int
  msgText : String
  deriving DecidableEq, Repr

inductive Origin where
  | client (execution : Nat)
  | server (execution : Nat) (request : Origin)
  deriving DecidableEq, Repr

def Origin.execution : Origin → Nat
  | .client execution => execution
  | .server execution _ => execution

structure Sent where
  message : Message
  origin : Origin
  deriving DecidableEq, Repr

def request (execution : Nat) : Sent :=
  ⟨⟨1, "Hello, Server!"⟩, .client execution⟩

def response (execution : Nat) (received : Sent) : Sent :=
  ⟨⟨2, "Message received!"⟩, .server execution received.origin⟩

def hasType (msgType : Int) (sent : Sent) : Bool :=
  sent.message.msgType = msgType

/-! ## States and steps -/

inductive MainPc where
  | creatingServer
  | creatingClient
  | detachingClient
  | returning
  | ended
  deriving DecidableEq, Repr

inductive ServerPc where
  | notStarted
  | getting
  | receiving (msgid : Nat)
  | sending (msgid : Nat) (received : Sent)
  | removing (msgid : Nat)
  | returned
  deriving DecidableEq, Repr

inductive ClientPc where
  | notStarted
  | getting
  | sending (msgid : Nat)
  | receiving (msgid : Nat)
  | returned (received : Option Sent)
  deriving DecidableEq, Repr

structure State where
  slot : QueueSlot Sent
  execution : Nat
  main : MainPc
  server : ServerPc
  client : ClientPc

inductive Action where
  | execute
  | main
  | exit
  | server (succeeds : Bool)
  | client (succeeds : Bool)
  deriving DecidableEq, Repr

def mainStep (state : State) : Option State :=
  match state.main with
  | .creatingServer =>
      some { state with main := .creatingClient, server := .getting }
  | .creatingClient =>
      some { state with main := .detachingClient, client := .getting }
  | .detachingClient => some { state with main := .returning }
  | .returning | .ended => none

def serverStep (state : State) (succeeds : Bool) : Option State :=
  match state.server, succeeds with
  | .getting, true =>
      let (msgid, slot) := state.slot.openOrCreate
      some { state with slot, server := .receiving msgid }
  | .receiving msgid, true =>
      (state.slot.receive msgid (hasType 1)).map fun (received, slot) =>
        { state with slot, server := .sending msgid received }
  | .sending msgid received, true =>
      (state.slot.send msgid (response state.execution received)).map
        fun slot => { state with slot, server := .removing msgid }
  | .removing msgid, true =>
      some { state with slot := state.slot.remove msgid, server := .returned }
  | .getting, false | .receiving _, false | .sending _ _, false
  | .removing _, false => some { state with server := .returned }
  | .notStarted, _ | .returned, _ => none

def clientStep (state : State) (succeeds : Bool) : Option State :=
  match state.client, succeeds with
  | .getting, true =>
      state.slot.openExisting.map fun msgid =>
        { state with client := .sending msgid }
  | .sending msgid, true =>
      (state.slot.send msgid (request state.execution)).map fun slot =>
        { state with slot, client := .receiving msgid }
  | .receiving msgid, true =>
      (state.slot.receive msgid (hasType 2)).map fun (received, slot) =>
        { state with slot, client := .returned (some received) }
  | .getting, false | .sending _, false | .receiving _, false =>
      some { state with client := .returned none }
  | .notStarted, _ | .returned _, _ => none

/-- No execution has been started, and there is no queue. -/
def Initial (state : State) : Prop :=
  state.slot.queue = none ∧ state.execution = 0 ∧ state.main = .ended ∧
    state.server = .notStarted ∧ state.client = .notStarted

def step (state : State) : Action → Option State
  | .execute =>
      if state.main = .ended then
        some { state with
          execution := state.execution + 1
          main := .creatingServer
          server := .notStarted
          client := .notStarted }
      else none
  | .main => mainStep state
  | .exit =>
      if state.main = .returning then some { state with main := .ended }
      else none
  | .server succeeds =>
      if state.main = .ended then none else serverStep state succeeds
  | .client succeeds =>
      if state.main = .ended then none else clientStep state succeeds

def mqSystem : TransitionSystem State Action where
  Initial := Initial
  step := step

/-- A response that `MQ_client` returns with was sent by the `MQ_server` of the
same execution, which had received the request of this `MQ_client`. -/
def Matched (state : State) : Prop :=
  ∀ received, state.client = .returned (some received) →
    received.origin =
      .server state.execution (.client state.execution)

/-- An execution is started only when no message is left on the queue. -/
def StartsEmpty (state : State) : Action → Prop
  | .execute => state.slot.messages = []
  | .main | .exit | .server _ | .client _ => True

/-! ## What one step can do -/

inductive ServerStep (state : State) : State → Prop
  | fails : ServerStep state { state with server := .returned }
  | gets {msgid : Nat} {slot : QueueSlot Sent} :
      state.slot.openOrCreate = (msgid, slot) →
      ServerStep state { state with slot, server := .receiving msgid }
  | receives {msgid : Nat} {received : Sent} {slot : QueueSlot Sent} :
      state.slot.receive msgid (hasType 1) = some (received, slot) →
      ServerStep state { state with slot, server := .sending msgid received }
  | sends {msgid : Nat} {received : Sent} {slot : QueueSlot Sent} :
      state.server = .sending msgid received →
      state.slot.send msgid (response state.execution received) = some slot →
      ServerStep state { state with slot, server := .removing msgid }
  | removes {msgid : Nat} :
      ServerStep state { state with
        slot := state.slot.remove msgid, server := .returned }

theorem serverStep_cases {state next : State} {succeeds : Bool}
    (hstep : serverStep state succeeds = some next) :
    ServerStep state next := by
  unfold serverStep at hstep
  split at hstep
  · cases hstep
    exact .gets rfl
  · obtain ⟨⟨received, slot⟩, hreceive, heq⟩ := Option.map_eq_some_iff.mp hstep
    cases heq
    exact .receives hreceive
  · obtain ⟨slot, hsend, heq⟩ := Option.map_eq_some_iff.mp hstep
    cases heq
    exact .sends ‹_› hsend
  · cases hstep
    exact .removes
  all_goals
    cases hstep
    try exact .fails

inductive ClientStep (state : State) : State → Prop
  | fails : ClientStep state { state with client := .returned none }
  | gets {msgid : Nat} :
      ClientStep state { state with client := .sending msgid }
  | sends {msgid : Nat} {slot : QueueSlot Sent} :
      state.slot.send msgid (request state.execution) = some slot →
      ClientStep state { state with slot, client := .receiving msgid }
  | receives {msgid : Nat} {received : Sent} {slot : QueueSlot Sent} :
      state.slot.receive msgid (hasType 2) = some (received, slot) →
      ClientStep state { state with slot, client := .returned (some received) }

theorem clientStep_cases {state next : State} {succeeds : Bool}
    (hstep : clientStep state succeeds = some next) :
    ClientStep state next := by
  unfold clientStep at hstep
  split at hstep
  · obtain ⟨msgid, -, heq⟩ := Option.map_eq_some_iff.mp hstep
    cases heq
    exact .gets
  · obtain ⟨slot, hsend, heq⟩ := Option.map_eq_some_iff.mp hstep
    cases heq
    exact .sends hsend
  · obtain ⟨⟨received, slot⟩, hreceive, heq⟩ := Option.map_eq_some_iff.mp hstep
    cases heq
    exact .receives hreceive
  all_goals
    cases hstep
    try exact .fails

theorem mainStep_cases {state next : State}
    (hstep : mainStep state = some next) :
    next.slot = state.slot ∧ next.execution = state.execution ∧
      (next.server = state.server ∨ next.server = .getting) ∧
      (next.client = state.client ∨ next.client = .getting) := by
  unfold mainStep at hstep
  split at hstep <;> cases hstep
  · exact ⟨rfl, rfl, .inr rfl, .inl rfl⟩
  · exact ⟨rfl, rfl, .inl rfl, .inr rfl⟩
  · exact ⟨rfl, rfl, .inl rfl, .inl rfl⟩

theorem messages_serverStep {state next : State}
    (hstep : ServerStep state next) :
    next.execution = state.execution ∧ ∀ sent ∈ next.slot.messages,
      sent ∈ state.slot.messages ∨
        ∃ msgid received, state.server = .sending msgid received ∧
          sent = response state.execution received := by
  cases hstep with
  | fails => exact ⟨rfl, fun _ => .inl⟩
  | gets hget =>
      have hsame := state.slot.messages_openOrCreate
      rw [hget] at hsame
      exact ⟨rfl, fun _ hsent => .inl (hsame ▸ hsent)⟩
  | receives hreceive =>
      have hrest := (QueueSlot.mem_of_receive hreceive).2.2
      exact ⟨rfl, fun sent hsent => .inl (hrest sent hsent)⟩
  | sends hpc hsend =>
      have hmessages := QueueSlot.messages_send hsend
      refine ⟨rfl, fun sent hsent => ?_⟩
      rw [hmessages, List.mem_append, List.mem_singleton] at hsent
      exact hsent.imp_right fun hlast => ⟨_, _, hpc, hlast⟩
  | removes =>
      exact ⟨rfl, fun _ hsent => .inl (QueueSlot.mem_of_mem_remove hsent)⟩

theorem messages_clientStep {state next : State}
    (hstep : ClientStep state next) :
    next.execution = state.execution ∧ ∀ sent ∈ next.slot.messages,
      sent ∈ state.slot.messages ∨ sent = request state.execution := by
  cases hstep with
  | fails => exact ⟨rfl, fun _ => .inl⟩
  | gets => exact ⟨rfl, fun _ => .inl⟩
  | sends hsend =>
      have hmessages := QueueSlot.messages_send hsend
      refine ⟨rfl, fun sent hsent => ?_⟩
      rwa [hmessages, List.mem_append, List.mem_singleton] at hsent
  | receives hreceive =>
      have hrest := (QueueSlot.mem_of_receive hreceive).2.2
      exact ⟨rfl, fun sent hsent => .inl (hrest sent hsent)⟩

/-! ## An execution that starts with an empty queue -/

/-- Nothing in the queue or in the threads is of another execution. -/
structure Fresh (state : State) : Prop where
  queued : ∀ sent ∈ state.slot.messages, sent = request state.execution ∨
    sent = response state.execution (request state.execution)
  answering : ∀ msgid received, state.server = .sending msgid received →
    received = request state.execution
  answered : ∀ received, state.client = .returned (some received) →
    received = response state.execution (request state.execution)

theorem Fresh.matched {state : State} (h : Fresh state) : Matched state := by
  intro received hreturned
  rw [h.answered received hreturned]
  rfl

theorem Fresh.execute {state next : State}
    (hempty : state.slot.messages = [])
    (hstep : step state .execute = some next) : Fresh next := by
  simp only [step, Option.ite_none_right_eq_some] at hstep
  cases hstep.2
  exact ⟨by simp [hempty], by simp, by simp⟩

theorem Fresh.serverStep {state next : State} (h : Fresh state)
    (hstep : ServerStep state next) :
    Fresh next ∧ next.execution = state.execution := by
  obtain ⟨hexecution, hmessages⟩ := messages_serverStep hstep
  refine ⟨⟨?_, ?_, ?_⟩, hexecution⟩
  · intro sent hsent
    rw [hexecution]
    rcases hmessages sent hsent with hold | ⟨msgid, received, hpc, rfl⟩
    · exact h.queued sent hold
    · rw [h.answering msgid received hpc]
      exact .inr rfl
  · intro msgid received hpc
    cases hstep with
    | receives hreceive =>
        cases hpc
        obtain ⟨hmem, htype, -⟩ := QueueSlot.mem_of_receive hreceive
        rcases h.queued _ hmem with hrequest | hresponse
        · exact hrequest
        · rw [hresponse] at htype
          cases htype
    | fails | gets | sends | removes => cases hpc
  · cases hstep <;> exact h.answered

theorem Fresh.clientStep {state next : State} (h : Fresh state)
    (hstep : ClientStep state next) :
    Fresh next ∧ next.execution = state.execution := by
  obtain ⟨hexecution, hmessages⟩ := messages_clientStep hstep
  refine ⟨⟨?_, ?_, ?_⟩, hexecution⟩
  · intro sent hsent
    rw [hexecution]
    rcases hmessages sent hsent with hold | hrequest
    · exact h.queued sent hold
    · exact .inl hrequest
  · cases hstep <;> exact h.answering
  · intro received hpc
    cases hstep with
    | receives hreceive =>
        cases hpc
        obtain ⟨hmem, htype, -⟩ := QueueSlot.mem_of_receive hreceive
        rcases h.queued _ hmem with hrequest | hresponse
        · rw [hrequest] at htype
          cases htype
        · exact hresponse
    | fails | gets | sends => cases hpc

theorem Fresh.step {state next : State} {action : Action} (h : Fresh state)
    (hother : action ≠ .execute) (hstep : step state action = some next) :
    Fresh next ∧ next.execution = state.execution := by
  cases action with
  | execute => exact absurd rfl hother
  | main =>
      obtain ⟨hslot, hexecution, hserver, hclient⟩ := mainStep_cases hstep
      refine ⟨⟨?_, ?_, ?_⟩, hexecution⟩
      · rw [hslot, hexecution]
        exact h.queued
      · intro msgid received hpc
        rw [hexecution]
        rcases hserver with hsame | hgetting
        · exact h.answering msgid received (hsame.symm.trans hpc)
        · cases hgetting.symm.trans hpc
      · intro received hpc
        rw [hexecution]
        rcases hclient with hsame | hgetting
        · exact h.answered received (hsame.symm.trans hpc)
        · cases hgetting.symm.trans hpc
  | exit =>
      simp only [MessageQueue.step, Option.ite_none_right_eq_some] at hstep
      cases hstep.2
      exact ⟨⟨h.queued, h.answering, h.answered⟩, rfl⟩
  | server succeeds =>
      simp only [MessageQueue.step, Option.ite_none_left_eq_some] at hstep
      exact h.serverStep (serverStep_cases hstep.2)
  | client succeeds =>
      simp only [MessageQueue.step, Option.ite_none_left_eq_some] at hstep
      exact h.clientStep (clientStep_cases hstep.2)

theorem fresh_of_initial {state : State} (h : Initial state) : Fresh state := by
  obtain ⟨hqueue, -, -, hserver, hclient⟩ := h
  exact ⟨by simp [QueueSlot.messages, hqueue], by simp [hserver],
    by simp [hclient]⟩

theorem fresh_of_reachable {state : State}
    (h : mqSystem.ReachableBy StartsEmpty state) : Fresh state := by
  refine h.invariant Fresh (fun _ => fresh_of_initial) ?_
  intro state action next hfresh hstarts hstep
  by_cases hexecute : action = .execute
  · subst hexecute
    exact Fresh.execute hstarts hstep
  · exact (hfresh.step hexecute hstep).1

/-! ## What an earlier execution leaves -/

/-- Nothing in the queue is of a later execution. -/
def Dated (state : State) : Prop :=
  ∀ sent ∈ state.slot.messages,
    (hasType 1 sent = true ∨ hasType 2 sent = true) ∧
      sent.origin.execution ≤ state.execution

theorem Dated.step {state next : State} {action : Action} (h : Dated state)
    (hstep : step state action = some next) :
    Dated next ∧ state.execution ≤ next.execution := by
  cases action with
  | execute =>
      simp only [MessageQueue.step, Option.ite_none_right_eq_some] at hstep
      cases hstep.2
      refine ⟨fun sent hsent => ?_, Nat.le_succ _⟩
      obtain ⟨htype, hdate⟩ := h sent hsent
      exact ⟨htype, Nat.le_succ_of_le hdate⟩
  | main =>
      obtain ⟨hslot, hexecution, -, -⟩ := mainStep_cases hstep
      refine ⟨?_, Nat.le_of_eq hexecution.symm⟩
      rw [Dated, hslot, hexecution]
      exact h
  | exit =>
      simp only [MessageQueue.step, Option.ite_none_right_eq_some] at hstep
      cases hstep.2
      exact ⟨h, Nat.le_refl _⟩
  | server succeeds =>
      simp only [MessageQueue.step, Option.ite_none_left_eq_some] at hstep
      obtain ⟨hexecution, hmessages⟩ :=
        messages_serverStep (serverStep_cases hstep.2)
      refine ⟨fun sent hsent => ?_, Nat.le_of_eq hexecution.symm⟩
      rw [hexecution]
      rcases hmessages sent hsent with hold | ⟨_, received, -, rfl⟩
      · exact h sent hold
      · exact ⟨.inr rfl, Nat.le_refl _⟩
  | client succeeds =>
      simp only [MessageQueue.step, Option.ite_none_left_eq_some] at hstep
      obtain ⟨hexecution, hmessages⟩ :=
        messages_clientStep (clientStep_cases hstep.2)
      refine ⟨fun sent hsent => ?_, Nat.le_of_eq hexecution.symm⟩
      rw [hexecution]
      rcases hmessages sent hsent with hold | rfl
      · exact h sent hold
      · exact ⟨.inl rfl, Nat.le_refl _⟩

theorem dated_of_reachable {state : State} (h : mqSystem.Reachable state) :
    Dated state := by
  refine h.invariant Dated ?_ (fun _ _ _ hdated hstep => (hdated.step hstep).1)
  rintro start ⟨hqueue, -⟩ sent hsent
  simp [QueueSlot.messages, hqueue] at hsent

/-! ## When the responses are right -/

theorem matched_of_run {start final : State} {actions : List Action}
    (hdated : Dated start) (hfresh : Fresh start)
    (hrun : mqSystem.run start actions = some final)
    (hsame : final.execution = start.execution) : Matched final := by
  have hboth : Dated final ∧ start.execution ≤ final.execution ∧
      (final.execution = start.execution → Fresh final) := by
    refine TransitionSystem.run_induction (motive := fun _ state =>
      Dated state ∧ start.execution ≤ state.execution ∧
        (state.execution = start.execution → Fresh state))
      ⟨hdated, Nat.le_refl _, fun _ => hfresh⟩ ?_ hrun
    rintro _ state action next ⟨hdate, hle, hinv⟩ hstep
    obtain ⟨hnext, hgrow⟩ := hdate.step hstep
    refine ⟨hnext, Nat.le_trans hle hgrow, fun hexecution => ?_⟩
    by_cases hexecute : action = .execute
    · subst hexecute
      simp only [mqSystem, step, Option.ite_none_right_eq_some] at hstep
      cases hstep.2
      have hlater : state.execution + 1 = start.execution := hexecution
      omega
    · have hstate : state.execution = start.execution := by omega
      exact ((hinv hstate).step hexecute hstep).1
  exact (hboth.2.2 hsame).matched

/-- The state in which an execution starts. -/
def started (slot : QueueSlot Sent) (execution : Nat) : State :=
  ⟨slot, execution, .creatingServer, .notStarted, .notStarted⟩

/-- A response that was left is received by the next client. -/
theorem run_leftoverResponse {msgid nextId execution : Nat}
    {messages : List Sent} {left : Sent}
    (hleft : messages.find? (hasType 2) = some left) :
    ∃ final, mqSystem.run (started ⟨some (msgid, messages), nextId⟩ execution)
        [.main, .main, .client true, .client true, .client true] =
          some final ∧
      final.execution = execution ∧ final.client = .returned (some left) := by
  have hfind : (messages ++ [request execution]).find? (hasType 2) =
      some left := by
    rw [List.find?_append, hleft, Option.some_or]
  simp [mqSystem, step, started, mainStep, clientStep, QueueSlot.openExisting,
    QueueSlot.send, QueueSlot.receive, hfind]

/-- A request that was left is answered before that of the next client. -/
theorem run_leftoverRequest {msgid nextId execution : Nat}
    {rest : List Sent} {left : Sent} (hleft : hasType 1 left = true)
    (hnone : rest.find? (hasType 2) = none) :
    ∃ final, mqSystem.run
        (started ⟨some (msgid, left :: rest), nextId⟩ execution)
        [.main, .server true, .server true, .main, .client true, .client true,
          .server true, .client true] = some final ∧
      final.execution = execution ∧
      final.client = .returned (some (response execution left)) := by
  have hrequest : hasType 2 (request execution) = false := rfl
  have hresponse : hasType 2 (response execution left) = true := rfl
  simp [mqSystem, step, started, mainStep, serverStep, clientStep,
    QueueSlot.openExisting, QueueSlot.openOrCreate, QueueSlot.send,
    QueueSlot.receive, hleft, hnone, hrequest, hresponse]

theorem mismatch_of_leftover {slot : QueueSlot Sent} {execution : Nat}
    (hdated : ∀ sent ∈ slot.messages,
      (hasType 1 sent = true ∨ hasType 2 sent = true) ∧
        sent.origin.execution < execution)
    (hleft : slot.messages ≠ []) :
    ∃ actions final, mqSystem.run (started slot execution) actions =
        some final ∧
      final.execution = execution ∧ ¬ Matched final := by
  obtain ⟨queue, nextId⟩ := slot
  cases queue with
  | none => exact absurd rfl hleft
  | some queue =>
      obtain ⟨msgid, messages⟩ := queue
      change ∀ sent ∈ messages, _ at hdated
      cases hfind : messages.find? (hasType 2) with
      | some left =>
          obtain ⟨final, hrun, hexecution, hclient⟩ := run_leftoverResponse hfind
          refine ⟨_, final, hrun, hexecution, fun hmatched => ?_⟩
          have hdate := (hdated left (List.mem_of_find?_eq_some hfind)).2
          rw [hmatched left hclient, Origin.execution, hexecution] at hdate
          exact Nat.lt_irrefl _ hdate
      | none =>
          cases messages with
          | nil => exact absurd rfl hleft
          | cons left rest =>
              rw [List.find?_eq_none] at hfind
              obtain ⟨htype, hdate⟩ := hdated left List.mem_cons_self
              have hrequest : hasType 1 left = true :=
                htype.resolve_right (hfind left List.mem_cons_self)
              have hrest : rest.find? (hasType 2) = none :=
                List.find?_eq_none.mpr fun other hother =>
                  hfind other (List.mem_cons_of_mem left hother)
              obtain ⟨final, hrun, hexecution, hclient⟩ :=
                run_leftoverRequest hrequest hrest
              refine ⟨_, final, hrun, hexecution, fun hmatched => ?_⟩
              have horigin := hmatched _ hclient
              rw [hexecution] at horigin
              have hstale : left.origin = .client execution :=
                (Origin.server.inj horigin).2
              rw [hstale] at hdate
              exact Nat.lt_irrefl _ hdate

/-- An execution gets the responses to its own request, whatever happens in it,
exactly when it starts with no message on the queue. -/
theorem response_matches_iff (state : State) :
    (mqSystem.ReachableBy StartsEmpty state → Matched state) ∧
    ∀ next, mqSystem.Reachable state → step state .execute = some next →
      ((∀ actions final, mqSystem.run next actions = some final →
          final.execution = next.execution → Matched final) ↔
        state.slot.messages = []) := by
  refine ⟨fun hreach => (fresh_of_reachable hreach).matched, ?_⟩
  intro next hreach hstep
  have hdated := dated_of_reachable hreach
  have hnext := (hdated.step hstep).1
  constructor
  · intro hall
    by_contra hleft
    simp only [step, Option.ite_none_right_eq_some] at hstep
    cases hstep.2
    have hearlier : ∀ sent ∈ state.slot.messages,
        (hasType 1 sent = true ∨ hasType 2 sent = true) ∧
          sent.origin.execution < state.execution + 1 := by
      intro sent hsent
      obtain ⟨htype, hdate⟩ := hdated sent hsent
      exact ⟨htype, Nat.lt_succ_of_le hdate⟩
    obtain ⟨actions, final, hrun, hexecution, hmismatch⟩ :=
      mismatch_of_leftover hearlier hleft
    exact hmismatch (hall actions final hrun hexecution)
  · intro hempty actions final hrun hsame
    exact matched_of_run hnext (Fresh.execute hempty hstep) hrun hsame

/-- The first process ends before its client has received the response, which
then goes to the client of the second. -/
theorem client_receives_earlier_response :
    ∃ state, mqSystem.Reachable state ∧ state.execution = 2 ∧
      state.client = .returned (some (response 1 (request 1))) ∧
      ¬ Matched state := by
  let start : State :=
    ⟨⟨none, 0⟩, 0, .ended, .notStarted, .notStarted⟩
  have hinitial : mqSystem.Initial start := ⟨rfl, rfl, rfl, rfl, rfl⟩
  obtain ⟨final, hrun, hexecution, hclient⟩ : ∃ final, mqSystem.run start
      [.execute, .main, .server true, .main, .client true, .client true, .main,
        .server true, .server true, .exit, .execute, .main, .main,
        .client true, .client true, .client true] = some final ∧
      final.execution = 2 ∧
      final.client = .returned (some (response 1 (request 1))) :=
    ⟨_, rfl, rfl, rfl⟩
  refine ⟨final, .of_run hinitial hrun, hexecution, hclient, ?_⟩
  intro hmatched
  have horigin := hmatched _ hclient
  rw [hexecution] at horigin
  cases horigin

end CandCpp.Threads.MessageQueue
