import CandCpp.Foundation.RoundRobin
import CandCpp.Foundation.TransitionSystem
import CandCpp.Network.TraceMessages
import Mathlib.Algebra.Order.BigOperators.Group.Finset

/-!
# The dispatch of udpServerLockFreeOneThreadPerQueueJson.cpp

The server thread and the workers take turns in any order.  The steps of the
server are the system calls it makes, the update of each counter, the `enqueue`
and the update of `worker_index`; those of a worker are `try_dequeue`,
`decodeByProto` and the update of its counter.  Each queue is a list, since it
has one producer and one consumer.  `processed` is what the worker has printed
so far, `parsed` says of which of it the parse has succeeded; `workers` is
`MAX_WORKER_COUNT`.
-/

namespace CandCpp.Network.OneThreadPerQueue

open CandCpp.Foundation

variable {Peer TraceWrapper : Type} {workers : Nat}
  {protobuf : Protobuf TraceWrapper}

/-! ## States and steps -/

inductive Descriptor where
  | sockfd
  | other
  deriving DecidableEq, Repr

inductive ServerPc where
  | waiting
  | scanning (events : List Descriptor)
  | received (message : Bytes) (events : List Descriptor)
  | counted (message : Bytes) (events : List Descriptor)
  | enqueued (events : List Descriptor)
  | enqueueCounted (events : List Descriptor)
  | faulted (fault : MemoryFault) (message : Bytes)
  deriving DecidableEq, Repr

inductive WorkerPc where
  | idle
  | dequeued (message : Bytes)
  | decoded (message : Bytes) (parsed : Bool)
  deriving DecidableEq, Repr

structure Worker where
  pc : WorkerPc
  processed : List Bytes
  parsed : List Bool
  udpWorkerMsgDenqueueCnt : UInt64
  deriving DecidableEq, Repr

structure State (workers : Nat) where
  pc : ServerPc
  buffer : Buffer BUFFER_SIZE
  dispatcher : Dispatcher workers
  worker : Fin workers → Worker

inductive ServerAction (Peer : Type) where
  | epollWait (result : Except Errno (List Descriptor))
  | nextEvent
  | recvfrom (outcome : RecvOutcome Peer)
  | countReceived
  | enqueue (succeeds : Bool)
  | countEnqueued
  | advance

inductive WorkerAction where
  | tryDequeue
  | decode (memory : Garbage)
  | countDequeued

inductive Action (Peer : Type) (workers : Nat) where
  | server (action : ServerAction Peer)
  | worker (index : Fin workers) (action : WorkerAction)

def takeMessage (buffer : Buffer BUFFER_SIZE) (payload : Bytes) :
    Except MemoryFault (Buffer BUFFER_SIZE × Bytes) := do
  let (filled, recvLen) ← receiveInto buffer payload
  let message ← messageOfLength filled recvLen
  return (filled, message)

def receive (state : State workers) (events : List Descriptor) :
    RecvOutcome Peer → State workers
  | .failed _ =>
      { state with pc := .scanning events, buffer := state.buffer.clear }
  | .datagram _ payload =>
      match takeMessage state.buffer payload with
      | .ok (buffer, message) =>
          { state with pc := .received message events, buffer := buffer }
      | .error fault => { state with pc := .faulted fault payload }

def place (state : State workers) (events : List Descriptor)
    (message : Bytes) (succeeds : Bool) : State workers :=
  match state.dispatcher.enqueue message succeeds with
  | .ok dispatcher =>
      { state with pc := .enqueued events, dispatcher := dispatcher }
  | .error fault => { state with pc := .faulted fault message }

def serverStep (state : State workers) (action : ServerAction Peer) :
    Option (State workers) :=
  match state.pc, action with
  | .waiting, .epollWait (.error _) => some state
  | .waiting, .epollWait (.ok events) =>
      some { state with pc := .scanning events }
  | .scanning [], .nextEvent => some { state with pc := .waiting }
  | .scanning (.other :: events), .nextEvent =>
      some { state with pc := .scanning events }
  | .scanning (.sockfd :: events), .recvfrom outcome =>
      some (receive state events outcome)
  | .received message events, .countReceived =>
      some { state with
        pc := .counted message events
        dispatcher := state.dispatcher.countReceived }
  | .counted message events, .enqueue succeeds =>
      some (place state events message succeeds)
  | .enqueued events, .countEnqueued =>
      some { state with
        pc := .enqueueCounted events
        dispatcher := state.dispatcher.countEnqueued }
  | .enqueueCounted events, .advance =>
      some { state with
        pc := .scanning events
        dispatcher := state.dispatcher.advance }
  | _, _ => none

def State.setWorker (state : State workers) (index : Fin workers)
    (worker : Worker) : State workers :=
  { state with worker := Function.update state.worker index worker }

def tryDequeue (state : State workers) (index : Fin workers) : State workers :=
  match state.dispatcher.messageQueue index with
  | [] => state
  | message :: rest =>
      { state.setWorker index
          { state.worker index with pc := .dequeued message } with
        dispatcher := { state.dispatcher with
          messageQueue :=
            Function.update state.dispatcher.messageQueue index rest } }

/-- What `decodeByProto` makes of the message. -/
def parses (protobuf : Protobuf TraceWrapper) (memory : Garbage)
    (message : Bytes) : Bool :=
  (decodeByProto protobuf (heldString memory message)).isSome

/-- `decodeByProto` returns to the worker whether the parse succeeds or not. -/
def workerStep (protobuf : Protobuf TraceWrapper) (state : State workers)
    (index : Fin workers) (action : WorkerAction) : Option (State workers) :=
  match (state.worker index).pc, action with
  | .idle, .tryDequeue => some (tryDequeue state index)
  | .dequeued message, .decode memory =>
      some (state.setWorker index
        { state.worker index with
          pc := .decoded message (parses protobuf memory message) })
  | .decoded message parsed, .countDequeued =>
      some (state.setWorker index {
        pc := .idle
        processed := (state.worker index).processed ++ [message]
        parsed := (state.worker index).parsed ++ [parsed]
        udpWorkerMsgDenqueueCnt :=
          (state.worker index).udpWorkerMsgDenqueueCnt + 1 })
  | _, _ => none

def initial (workers : Nat) : State workers where
  pc := .waiting
  buffer := Buffer.zeroed BUFFER_SIZE
  dispatcher := Dispatcher.initial workers
  worker := fun _ => ⟨.idle, [], [], 0⟩

def dispatchSystem (protobuf : Protobuf TraceWrapper) (Peer : Type)
    (workers : Nat) :
    TransitionSystem (State workers) (Action Peer workers) where
  Initial state := state = initial workers
  step state
    | .server action => serverStep state action
    | .worker index action => workerStep protobuf state index action

/-! ## What one step can do -/

inductive ServerStep : State workers → ServerAction Peer → State workers → Prop
  | epollFailed {state : State workers} {errno : Errno} :
      state.pc = .waiting →
      ServerStep state (.epollWait (.error errno)) state
  | epollReady {state : State workers} {events : List Descriptor} :
      state.pc = .waiting →
      ServerStep state (.epollWait (.ok events))
        { state with pc := .scanning events }
  | loopEnds {state : State workers} :
      state.pc = .scanning [] →
      ServerStep state .nextEvent { state with pc := .waiting }
  | skip {state : State workers} {events : List Descriptor} :
      state.pc = .scanning (.other :: events) →
      ServerStep state .nextEvent { state with pc := .scanning events }
  | receive {state : State workers} {events : List Descriptor}
      {outcome : RecvOutcome Peer} :
      state.pc = .scanning (.sockfd :: events) →
      ServerStep state (.recvfrom outcome) (receive state events outcome)
  | countReceived {state : State workers} {message : Bytes}
      {events : List Descriptor} :
      state.pc = .received message events →
      ServerStep state .countReceived { state with
        pc := .counted message events
        dispatcher := state.dispatcher.countReceived }
  | place {state : State workers} {message : Bytes} {events : List Descriptor}
      {succeeds : Bool} :
      state.pc = .counted message events →
      ServerStep state (.enqueue succeeds) (place state events message succeeds)
  | countEnqueued {state : State workers} {events : List Descriptor} :
      state.pc = .enqueued events →
      ServerStep state .countEnqueued { state with
        pc := .enqueueCounted events
        dispatcher := state.dispatcher.countEnqueued }
  | advance {state : State workers} {events : List Descriptor} :
      state.pc = .enqueueCounted events →
      ServerStep state .advance { state with
        pc := .scanning events
        dispatcher := state.dispatcher.advance }

theorem serverStep_cases {state next : State workers}
    {action : ServerAction Peer}
    (hstep : serverStep state action = some next) :
    ServerStep state action next := by
  unfold serverStep at hstep
  split at hstep <;> cases hstep
  · exact .epollFailed ‹_›
  · exact .epollReady ‹_›
  · exact .loopEnds ‹_›
  · exact .skip ‹_›
  · exact .receive ‹_›
  · exact .countReceived ‹_›
  · exact .place ‹_›
  · exact .countEnqueued ‹_›
  · exact .advance ‹_›

inductive WorkerStep (protobuf : Protobuf TraceWrapper) (index : Fin workers) :
    State workers → WorkerAction → State workers → Prop
  | tryDequeue {state : State workers} :
      (state.worker index).pc = .idle →
      WorkerStep protobuf index state .tryDequeue (tryDequeue state index)
  | decode {state : State workers} {message : Bytes} {memory : Garbage} :
      (state.worker index).pc = .dequeued message →
      WorkerStep protobuf index state (.decode memory) (state.setWorker index
        { state.worker index with
          pc := .decoded message (parses protobuf memory message) })
  | countDequeued {state : State workers} {message : Bytes} {parsed : Bool} :
      (state.worker index).pc = .decoded message parsed →
      WorkerStep protobuf index state .countDequeued (state.setWorker index
        ⟨.idle, (state.worker index).processed ++ [message],
          (state.worker index).parsed ++ [parsed],
          (state.worker index).udpWorkerMsgDenqueueCnt + 1⟩)

theorem workerStep_cases {state next : State workers} {index : Fin workers}
    {action : WorkerAction}
    (hstep : workerStep protobuf state index action = some next) :
    WorkerStep protobuf index state action next := by
  unfold workerStep at hstep
  split at hstep <;> cases hstep
  · exact .tryDequeue ‹_›
  · exact .decode ‹_›
  · exact .countDequeued ‹_›

/-! ## What a run has received, counted and enqueued -/

namespace ServerAction

@[simp] def payloads : ServerAction Peer → List Bytes
  | .recvfrom outcome => outcome.payload?.toList
  | .epollWait _ | .nextEvent | .countReceived | .enqueue _ | .countEnqueued
  | .advance => []

@[simp] def counts : ServerAction Peer → Nat
  | .countReceived => 1
  | .epollWait _ | .nextEvent | .recvfrom _ | .enqueue _ | .countEnqueued
  | .advance => 0

@[simp] def enqueues : ServerAction Peer → Nat
  | .enqueue _ => 1
  | .epollWait _ | .nextEvent | .recvfrom _ | .countReceived | .countEnqueued
  | .advance => 0

def Succeeds : ServerAction Peer → Prop
  | .enqueue succeeds => succeeds = true
  | .epollWait _ | .nextEvent | .recvfrom _ | .countReceived | .countEnqueued
  | .advance => True

end ServerAction

namespace Action

@[simp] def payloads : Action Peer workers → List Bytes
  | .server action => action.payloads
  | .worker _ _ => []

@[simp] def counts : Action Peer workers → Nat
  | .server action => action.counts
  | .worker _ _ => 0

@[simp] def enqueues : Action Peer workers → Nat
  | .server action => action.enqueues
  | .worker _ _ => 0

def Succeeds : Action Peer workers → Prop
  | .server action => action.Succeeds
  | .worker _ _ => True

end Action

def receivedDatagrams (actions : List (Action Peer workers)) : List Bytes :=
  actions.flatMap Action.payloads

def receiveCounts (actions : List (Action Peer workers)) : Nat :=
  (actions.map Action.counts).sum

def enqueueCalls (actions : List (Action Peer workers)) : Nat :=
  (actions.map Action.enqueues).sum

/-- At most the last datagram received is not yet on a queue. -/
def enqueuedDatagrams (actions : List (Action Peer workers)) : List Bytes :=
  (receivedDatagrams actions).take (enqueueCalls actions)

namespace ServerPc

@[simp] def inHand : ServerPc → List Bytes
  | .received message _ | .counted message _ | .faulted _ message => [message]
  | .waiting | .scanning _ | .enqueued _ | .enqueueCounted _ => []

@[simp] def countedInHand : ServerPc → Nat
  | .counted _ _ => 1
  | .waiting | .scanning _ | .received _ _ | .enqueued _ | .enqueueCounted _
  | .faulted _ _ => 0

@[simp] def turnPending : ServerPc → Nat
  | .enqueued _ | .enqueueCounted _ => 1
  | .waiting | .scanning _ | .received _ _ | .counted _ _ | .faulted _ _ => 0

@[simp] def Faulted : ServerPc → Prop
  | .faulted _ _ => True
  | .waiting | .scanning _ | .received _ _ | .counted _ _ | .enqueued _
  | .enqueueCounted _ => False

end ServerPc

@[simp] def WorkerPc.held : WorkerPc → List Bytes
  | .idle => []
  | .dequeued message => [message]
  | .decoded message _ => [message]

/-- What the worker has processed, what it holds and what its queue holds. -/
def State.dealtTo (state : State workers) (index : Fin workers) :
    List Bytes :=
  (state.worker index).processed ++ (state.worker index).pc.held ++
    state.dispatcher.messageQueue index

theorem dealtTo_setWorker (state : State workers) {index : Fin workers}
    {worker : Worker}
    (hmessages : worker.processed ++ worker.pc.held =
      (state.worker index).processed ++ (state.worker index).pc.held)
    (other : Fin workers) :
    (state.setWorker index worker).dealtTo other = state.dealtTo other := by
  by_cases hsame : other = index
  · simp only [State.dealtTo, State.setWorker, hsame, Function.update_self,
      hmessages]
  · simp [State.dealtTo, State.setWorker, Function.update_of_ne hsame]

theorem dealtTo_tryDequeue {state : State workers} {index : Fin workers}
    (hpc : (state.worker index).pc = .idle) (other : Fin workers) :
    (tryDequeue state index).dealtTo other = state.dealtTo other := by
  unfold tryDequeue
  split
  case h_1 => rfl
  case h_2 message rest hqueue =>
      by_cases hsame : other = index
      · simp [State.dealtTo, State.setWorker, hsame, hpc, hqueue]
      · simp [State.dealtTo, State.setWorker, Function.update_of_ne hsame]

theorem dealtTo_workerStep {state next : State workers} {index : Fin workers}
    {action : WorkerAction}
    (hstep : workerStep protobuf state index action = some next) (other : Fin workers) :
    next.dealtTo other = state.dealtTo other := by
  cases workerStep_cases hstep with
  | tryDequeue hpc => exact dealtTo_tryDequeue hpc other
  | decode hpc => exact dealtTo_setWorker state (by simp [hpc]) other
  | countDequeued hpc => exact dealtTo_setWorker state (by simp [hpc]) other

theorem place_true {state : State workers}
    (hindex : state.dispatcher.workerIndex < workers)
    (events : List Descriptor) (message : Bytes) :
    (place state events message true).pc = .enqueued events ∧
      ∀ index, (place state events message true).dealtTo index =
        state.dealtTo index ++
          if index = ⟨state.dispatcher.workerIndex, hindex⟩ then [message]
          else [] := by
  simp only [place, Dispatcher.enqueue, hindex, dite_true, if_true]
  refine ⟨trivial, fun index => ?_⟩
  by_cases hsame : index = ⟨state.dispatcher.workerIndex, hindex⟩
  · simp [State.dealtTo, ← hsame]
  · simp [State.dealtTo, hsame]

/-! ## The invariant -/

structure Dealt (enqueued : List Bytes) (counted : Nat)
    (state : State workers) : Prop where
  shares : ∀ index : Fin workers,
    state.dealtTo index = share workers index enqueued
  counted_eq : counted = enqueued.length + state.pc.countedInHand
  rcvCnt : state.dispatcher.udpServerMsgRcvCnt = UInt64.ofNat counted
  denqueueCnt : ∀ index, (state.worker index).udpWorkerMsgDenqueueCnt =
    UInt64.ofNat (state.worker index).processed.length
  turn : ∃ turns, state.dispatcher.workerIndex = turns % workers ∧
    enqueued.length = turns + state.pc.turnPending
  faulted : state.pc.Faulted → ∀ message ∈ state.pc.inHand,
    BUFFER_SIZE ≤ message.length

theorem Dealt.initial (workers : Nat) :
    Dealt [] 0 (OneThreadPerQueue.initial workers) where
  shares _ := rfl
  counted_eq := rfl
  rcvCnt := rfl
  denqueueCnt _ := rfl
  turn := ⟨0, (Nat.zero_mod workers).symm, rfl⟩
  faulted hfaulted := hfaulted.elim

theorem takeMessage_eq (buffer : Buffer BUFFER_SIZE) (payload : Bytes) :
    (∃ filled, takeMessage buffer payload = .ok (filled, payload)) ∨
      ∃ fault, takeMessage buffer payload = .error fault ∧
        BUFFER_SIZE ≤ payload.length := by
  by_cases hlt : payload.length < BUFFER_SIZE
  · left
    simp only [takeMessage, receiveInto_of_lt buffer hlt, ok_bind,
      messageOfLength_received (Nat.le_of_lt hlt)]
    exact ⟨_, rfl⟩
  · right
    have hfault : ¬ Completes (takeMessage buffer payload) := by
      intro hcompletes
      obtain ⟨received, hreceived, -⟩ := completes_bind_iff.mp hcompletes
      exact hlt ((completes_receiveInto_iff buffer payload).mp ⟨_, hreceived⟩)
    cases hresult : takeMessage buffer payload with
    | ok result => exact absurd ⟨result, hresult⟩ hfault
    | error fault => exact ⟨fault, rfl, Nat.le_of_not_lt hlt⟩

/-- A step of the server that leaves the queues alone. -/
theorem Dealt.serverLocal {enqueued : List Bytes} {counted : Nat}
    {state next : State workers} (h : Dealt enqueued counted state)
    (hworker : next.worker = state.worker)
    (hdispatcher : next.dispatcher = state.dispatcher)
    (hcounted : next.pc.countedInHand = state.pc.countedInHand)
    (hturn : next.pc.turnPending = state.pc.turnPending)
    (hfaulted : next.pc.Faulted → ∀ message ∈ next.pc.inHand,
      BUFFER_SIZE ≤ message.length) :
    Dealt enqueued counted next where
  shares index := by
    rw [← h.shares index, State.dealtTo, State.dealtTo, hworker, hdispatcher]
  counted_eq := by rw [hcounted, h.counted_eq]
  rcvCnt := by rw [hdispatcher, h.rcvCnt]
  denqueueCnt index := by rw [hworker, h.denqueueCnt index]
  turn := by
    rw [hdispatcher, hturn]
    exact h.turn
  faulted := hfaulted

theorem Dealt.workerIndex_lt {enqueued : List Bytes} {counted : Nat}
    {state : State workers} (h : Dealt enqueued counted state)
    (hworkers : 0 < workers) : state.dispatcher.workerIndex < workers := by
  obtain ⟨turns, hindex, -⟩ := h.turn
  rw [hindex]
  exact Nat.mod_lt turns hworkers

theorem Dealt.receive {enqueued : List Bytes} {counted : Nat}
    {state : State workers} {events rest : List Descriptor}
    (h : Dealt enqueued counted state) (hpc : state.pc = .scanning events)
    (outcome : RecvOutcome Peer) :
    Dealt enqueued counted (receive state rest outcome) ∧
      (OneThreadPerQueue.receive state rest outcome).pc.inHand =
        (ServerAction.recvfrom outcome).payloads := by
  cases outcome with
  | failed errno =>
      refine ⟨h.serverLocal rfl rfl ?_ ?_ False.elim, rfl⟩ <;>
        simp only [OneThreadPerQueue.receive, hpc] <;> rfl
  | datagram peer payload =>
      obtain ⟨filled, hmessage⟩ | ⟨fault, hmessage, hlong⟩ :=
        takeMessage_eq state.buffer payload
      · simp only [OneThreadPerQueue.receive, hmessage]
        refine ⟨h.serverLocal rfl rfl ?_ ?_ False.elim, rfl⟩ <;>
          rw [hpc] <;> rfl
      · simp only [OneThreadPerQueue.receive, hmessage]
        refine ⟨h.serverLocal rfl rfl ?_ ?_ ?_, rfl⟩
        · rw [hpc]
          rfl
        · rw [hpc]
          rfl
        · simpa using hlong

theorem Dealt.place {enqueued : List Bytes} {counted : Nat}
    {state : State workers} {message : Bytes} {events : List Descriptor}
    (h : Dealt enqueued counted state) (hworkers : 0 < workers)
    (hpc : state.pc = .counted message events) :
    Dealt (enqueued ++ [message]) counted
        (place state events message true) ∧
      (OneThreadPerQueue.place state events message true).pc.inHand = [] := by
  have hindex := h.workerIndex_lt hworkers
  obtain ⟨turns, hturns, hlength⟩ := h.turn
  have hcounted := h.counted_eq
  simp only [hpc, ServerPc.turnPending, ServerPc.countedInHand,
    Nat.add_zero] at hlength hcounted
  have hdealt := (place_true hindex events message).2
  simp only [OneThreadPerQueue.place, Dispatcher.enqueue, hindex, dite_true,
    if_true] at hdealt ⊢
  refine ⟨⟨?_, ?_, h.rcvCnt, h.denqueueCnt, ⟨turns, hturns, ?_⟩,
    False.elim⟩, rfl⟩
  · intro index
    rw [hdealt index, h.shares index, share_concat, hlength, ← hturns]
    simp only [Fin.ext_iff, eq_comm]
  · simp [hcounted, ServerPc.countedInHand]
  · simp [hlength, ServerPc.turnPending]

theorem Dealt.countReceived {enqueued : List Bytes} {counted : Nat}
    {state : State workers} {message : Bytes} {events : List Descriptor}
    (h : Dealt enqueued counted state) (hpc : state.pc = .received message events) :
    Dealt enqueued (counted + 1) { state with
      pc := .counted message events
      dispatcher := state.dispatcher.countReceived } := by
  have hcounted := h.counted_eq
  have hturn := h.turn
  rw [hpc] at hcounted hturn
  refine ⟨h.shares, ?_, ?_, h.denqueueCnt, hturn, False.elim⟩
  · simpa using hcounted
  · rw [Dispatcher.countReceived_udpServerMsgRcvCnt, h.rcvCnt,
      UInt64.ofNat_add]
    rfl

theorem Dealt.advance {enqueued : List Bytes} {counted : Nat}
    {state : State workers} {events : List Descriptor}
    (h : Dealt enqueued counted state)
    (hpc : state.pc = .enqueueCounted events) :
    Dealt enqueued counted { state with
      pc := .scanning events
      dispatcher := state.dispatcher.advance } := by
  have hcounted := h.counted_eq
  obtain ⟨turns, hturns, hlength⟩ := h.turn
  rw [hpc] at hcounted hlength
  refine ⟨h.shares, hcounted, h.rcvCnt, h.denqueueCnt,
    ⟨turns + 1, ?_, ?_⟩, False.elim⟩
  · rw [Dispatcher.advance_workerIndex, hturns, Nat.mod_add_mod]
  · simpa using hlength

theorem Dealt.serverStep {enqueued : List Bytes} {counted : Nat}
    {state next : State workers} {action : ServerAction Peer}
    (h : Dealt enqueued counted state) (hworkers : 0 < workers)
    (hsucceeds : action.Succeeds)
    (hstep : serverStep state action = some next) :
    ∃ added, Dealt (enqueued ++ added) (counted + action.counts) next ∧
      added.length = action.enqueues ∧
      state.pc.inHand ++ action.payloads = added ++ next.pc.inHand := by
  cases serverStep_cases hstep with
  | epollFailed hpc => exact ⟨[], by simpa using h, rfl, by simp [hpc]⟩
  | epollReady hpc | loopEnds hpc | skip hpc =>
      refine ⟨[], ?_, rfl, by simp [hpc]⟩
      rw [List.append_nil]
      exact h.serverLocal rfl rfl (by simp [hpc]) (by simp [hpc]) False.elim
  | receive hpc =>
      obtain ⟨hdealt, hinHand⟩ := h.receive hpc _
      exact ⟨[], by simpa using hdealt, rfl, by rw [hinHand, hpc]; rfl⟩
  | countReceived hpc =>
      exact ⟨[], by simpa using h.countReceived hpc, rfl, by simp [hpc]⟩
  | place hpc =>
      obtain rfl : _ = true := hsucceeds
      obtain ⟨hdealt, hinHand⟩ := h.place hworkers hpc
      exact ⟨[_], by simpa using hdealt, rfl, by rw [hinHand, hpc]; rfl⟩
  | countEnqueued hpc =>
      refine ⟨[], ?_, rfl, by simp [hpc]⟩
      rw [List.append_nil]
      have hcounted := h.counted_eq
      have hturn := h.turn
      rw [hpc] at hcounted hturn
      exact ⟨h.shares, hcounted, h.rcvCnt, h.denqueueCnt, hturn, False.elim⟩
  | advance hpc =>
      exact ⟨[], by simpa using h.advance hpc, rfl, by simp [hpc]⟩

/-- What a worker does moves its messages on without changing their order. -/
theorem Dealt.setWorker {enqueued : List Bytes} {counted : Nat}
    {state : State workers} (h : Dealt enqueued counted state)
    {index : Fin workers} {worker : Worker}
    (hmessages : worker.processed ++ worker.pc.held =
      (state.worker index).processed ++ (state.worker index).pc.held)
    (hcount : worker.udpWorkerMsgDenqueueCnt =
      UInt64.ofNat worker.processed.length) :
    Dealt enqueued counted (state.setWorker index worker) where
  shares other := by rw [dealtTo_setWorker state hmessages, h.shares other]
  counted_eq := h.counted_eq
  rcvCnt := h.rcvCnt
  denqueueCnt other := by
    by_cases hsame : other = index
    · simp [State.setWorker, hsame, hcount]
    · simpa [State.setWorker, Function.update_of_ne hsame] using
        h.denqueueCnt other
  turn := h.turn
  faulted := h.faulted

theorem Dealt.tryDequeue {enqueued : List Bytes} {counted : Nat}
    {state : State workers} (h : Dealt enqueued counted state)
    {index : Fin workers} (hpc : (state.worker index).pc = .idle) :
    Dealt enqueued counted (tryDequeue state index) := by
  have hdealt := dealtTo_tryDequeue hpc
  unfold OneThreadPerQueue.tryDequeue at hdealt ⊢
  split at hdealt
  case h_1 => exact h
  case h_2 message rest hqueue =>
      refine ⟨fun other => ?_, h.counted_eq, h.rcvCnt, fun other => ?_,
        h.turn, h.faulted⟩
      · rw [hdealt other, h.shares other]
      · have hcount := h.denqueueCnt other
        by_cases hsame : other = index
        · simpa [State.setWorker, hsame] using hsame ▸ hcount
        · simpa [State.setWorker, Function.update_of_ne hsame] using hcount

theorem Dealt.workerStep {enqueued : List Bytes} {counted : Nat}
    {state next : State workers} {index : Fin workers} {action : WorkerAction}
    (h : Dealt enqueued counted state)
    (hstep : workerStep protobuf state index action = some next) :
    Dealt enqueued counted next ∧ next.pc = state.pc := by
  have hcount := h.denqueueCnt index
  cases workerStep_cases hstep with
  | tryDequeue hpc =>
      refine ⟨h.tryDequeue hpc, ?_⟩
      unfold OneThreadPerQueue.tryDequeue
      split <;> rfl
  | decode hpc => exact ⟨h.setWorker (by simp [hpc]) hcount, rfl⟩
  | countDequeued hpc =>
      refine ⟨h.setWorker (by simp [hpc]) ?_, rfl⟩
      simp [hcount, UInt64.ofNat_add]

/-! ## Runs -/

theorem dealt_of_run (hworkers : 0 < workers)
    {actions : List (Action Peer workers)} {state : State workers}
    (hrun : (dispatchSystem protobuf Peer workers).run (initial workers)
      actions = some state)
    (hsucceed : ∀ action ∈ actions, action.Succeeds) :
    ∃ enqueued, Dealt enqueued (receiveCounts actions) state ∧
      enqueued.length = enqueueCalls actions ∧
      receivedDatagrams actions = enqueued ++ state.pc.inHand := by
  revert hsucceed
  refine TransitionSystem.run_induction (motive := fun actions state =>
    (∀ action ∈ actions, action.Succeeds) →
      ∃ enqueued, Dealt enqueued (receiveCounts actions) state ∧
        enqueued.length = enqueueCalls actions ∧
        receivedDatagrams actions = enqueued ++ state.pc.inHand) ?_ ?_ hrun
  · exact fun _ => ⟨[], Dealt.initial workers, rfl, rfl⟩
  · intro actions state action next ih hstep hsucceed
    obtain ⟨enqueued, hdealt, hlength, hreceived⟩ :=
      ih fun other hother => hsucceed other (by simp [hother])
    have hlast : action.Succeeds := hsucceed action (by simp)
    cases action with
    | server action =>
        obtain ⟨added, hnext, hadded, hinHand⟩ :=
          hdealt.serverStep hworkers hlast hstep
        refine ⟨enqueued ++ added, ?_, ?_, ?_⟩
        · simpa [receiveCounts] using hnext
        · simpa [enqueueCalls, hadded] using hlength
        · rw [receivedDatagrams, List.flatMap_append, ← receivedDatagrams,
            hreceived, List.flatMap_singleton, List.append_assoc,
            List.append_assoc, ← hinHand]
          rfl
    | worker index action =>
        obtain ⟨hnext, hpc⟩ := hdealt.workerStep hstep
        refine ⟨enqueued, ?_, ?_, ?_⟩
        · simpa [receiveCounts] using hnext
        · simpa [enqueueCalls] using hlength
        · simpa [receivedDatagrams, hpc] using hreceived

theorem Dealt.sum_processed_le {enqueued : List Bytes} {counted : Nat}
    {state : State workers} (h : Dealt enqueued counted state)
    (hworkers : 0 < workers) :
    ∑ index, (state.worker index).processed.length ≤ counted := by
  calc
    ∑ index, (state.worker index).processed.length
      ≤ ∑ index : Fin workers, (share workers index enqueued).length := by
        apply Finset.sum_le_sum
        intro index _
        rw [← h.shares index]
        simp only [State.dealtTo, List.length_append]
        omega
    _ = enqueued.length := sum_length_share hworkers enqueued
    _ ≤ counted := by
        rw [h.counted_eq]
        exact Nat.le_add_right _ _

theorem Dealt.sum_denqueueCnt_le {enqueued : List Bytes} {counted : Nat}
    {state : State workers} (h : Dealt enqueued counted state)
    (hworkers : 0 < workers) (hcounted : counted < 2 ^ 64) :
    ∑ index, (state.worker index).udpWorkerMsgDenqueueCnt.toNat ≤
      state.dispatcher.udpServerMsgRcvCnt.toNat := by
  calc
    ∑ index, (state.worker index).udpWorkerMsgDenqueueCnt.toNat
      ≤ ∑ index, (state.worker index).processed.length := by
        apply Finset.sum_le_sum
        intro index _
        rw [h.denqueueCnt index, UInt64.toNat_ofNat']
        exact Nat.mod_le _ _
    _ ≤ counted := h.sum_processed_le hworkers
    _ = state.dispatcher.udpServerMsgRcvCnt.toNat := by
        rw [h.rcvCnt, UInt64.toNat_ofNat', Nat.mod_eq_of_lt hcounted]

theorem serverStep_failedReceive {state next : State workers} {errno : Errno}
    (hstep : serverStep state
      (.recvfrom (.failed errno) : ServerAction Peer) = some next) :
    next.dispatcher = state.dispatcher := by
  cases serverStep_cases hstep with
  | receive hpc => rfl

/-- The worker goes on to its next message whether the decoding fails or not. -/
theorem run_decode (state : State workers) {index : Fin workers}
    {message : Bytes} (memory : Garbage)
    (hpc : (state.worker index).pc = .dequeued message) :
    (dispatchSystem protobuf Peer workers).run state
        [.worker index (.decode memory), .worker index .countDequeued] =
      some (state.setWorker index
        ⟨.idle, (state.worker index).processed ++ [message],
          (state.worker index).parsed ++ [parses protobuf memory message],
          (state.worker index).udpWorkerMsgDenqueueCnt + 1⟩) := by
  simp [dispatchSystem, workerStep, hpc, State.setWorker]

theorem dispatch_roundRobin (protobuf : Protobuf TraceWrapper)
    (hworkers : 0 < workers)
    (actions : List (Action Peer workers)) (state : State workers)
    (hrun : (dispatchSystem protobuf Peer workers).run (initial workers)
      actions = some state)
    (hsucceed : ∀ action ∈ actions, action.Succeeds) :
    (∀ index : Fin workers,
      (state.worker index).processed ++ (state.worker index).pc.held ++
          state.dispatcher.messageQueue index =
        share workers index (enqueuedDatagrams actions)) ∧
    receivedDatagrams actions =
      enqueuedDatagrams actions ++ state.pc.inHand ∧
    (state.pc.Faulted → ∀ message ∈ state.pc.inHand,
      BUFFER_SIZE ≤ message.length) ∧
    state.dispatcher.workerIndex < workers ∧
    (∀ errno next,
      serverStep state (.recvfrom (.failed errno) : ServerAction Peer) =
        some next → next.dispatcher = state.dispatcher) ∧
    (∀ index message memory,
      (state.worker index).pc = .dequeued message →
      (dispatchSystem protobuf Peer workers).run state
          [.worker index (.decode memory), .worker index .countDequeued] =
        some (state.setWorker index
          ⟨.idle, (state.worker index).processed ++ [message],
            (state.worker index).parsed ++ [parses protobuf memory message],
            (state.worker index).udpWorkerMsgDenqueueCnt + 1⟩)) ∧
    state.dispatcher.udpServerMsgRcvCnt =
      UInt64.ofNat (receiveCounts actions) ∧
    (∀ index, (state.worker index).udpWorkerMsgDenqueueCnt =
      UInt64.ofNat (state.worker index).processed.length) ∧
    ∑ index, (state.worker index).processed.length ≤ receiveCounts actions ∧
    (receiveCounts actions < 2 ^ 64 →
      ∑ index, (state.worker index).udpWorkerMsgDenqueueCnt.toNat ≤
        state.dispatcher.udpServerMsgRcvCnt.toNat) := by
  obtain ⟨enqueued, hdealt, hlength, hreceived⟩ :=
    dealt_of_run hworkers hrun hsucceed
  have henqueued : enqueuedDatagrams actions = enqueued := by
    rw [enqueuedDatagrams, hreceived, ← hlength, List.take_left]
  rw [henqueued]
  refine ⟨hdealt.shares, hreceived, hdealt.faulted,
    hdealt.workerIndex_lt hworkers, fun _ _ => serverStep_failedReceive,
    fun _ _ memory => run_decode state memory, hdealt.rcvCnt,
    hdealt.denqueueCnt, hdealt.sum_processed_le hworkers,
    hdealt.sum_denqueueCnt_le hworkers⟩

def twoDatagrams : List (Action Unit 2) :=
  [.server (.epollWait (.ok [.sockfd, .sockfd])),
    .server (.recvfrom (.datagram () [1])), .server .countReceived,
    .server (.enqueue true), .worker 0 .tryDequeue, .server .countEnqueued,
    .server .advance, .server (.recvfrom (.datagram () [2])),
    .server .countReceived, .server (.enqueue true)]

theorem dispatch_roundRobin_twoDatagrams :
    ∃ state : State 2,
      (dispatchSystem wireFormat Unit 2).run (initial 2) twoDatagrams =
        some state ∧
      state.dealtTo 0 = [[1]] ∧ state.dealtTo 1 = [[2]] ∧
      state.dispatcher.workerIndex < 2 := by
  obtain ⟨hshares, -, -, hindex, -⟩ :=
    dispatch_roundRobin wireFormat (Nat.zero_lt_two) twoDatagrams _ rfl
      (by simp [twoDatagrams, Action.Succeeds, ServerAction.Succeeds])
  exact ⟨_, rfl, hshares 0, hshares 1, hindex⟩

/-! ## When the counters wrap -/

/-- The state after `rounds` empty datagrams, all of them processed. -/
def quiet (rounds : Nat) : State 1 where
  pc := .waiting
  buffer := Buffer.zeroed BUFFER_SIZE
  dispatcher := ⟨UInt64.ofNat rounds, UInt64.ofNat rounds, fun _ => [], 0⟩
  worker := fun _ => ⟨.idle, List.replicate rounds [],
    List.replicate rounds false, UInt64.ofNat rounds⟩

def receiving : List (Action Unit 1) :=
  [.server (.epollWait (.ok [.sockfd])), .server (.recvfrom (.datagram () [])),
    .server .countReceived]

def soleWorker : Fin 1 := ⟨0, Nat.zero_lt_one⟩

def delivering : List (Action Unit 1) :=
  [.server (.enqueue true), .server .countEnqueued, .server .advance,
    .server .nextEvent, .worker soleWorker .tryDequeue,
    .worker soleWorker (.decode fun _ => 0),
    .worker soleWorker .countDequeued]

/-- The NUL behind an empty text is a zero tag. -/
theorem parses_nil (memory : Garbage) :
    parses wireFormat memory [] = false := by
  have hrejected := wireFormat.zero_tag [] []
    ((garbage memory localCapacity).take 14) rfl
  have harray : parsedArray (heldString memory []) =
      [] ++ 0 :: (garbage memory localCapacity).take 14 := by
    simp [parsedArray, heldString, BasicString.storage, BasicString.capacity]
  rw [parses, decodeByProto, harray, hrejected]
  rfl

def counting (rounds : Nat) : State 1 :=
  { quiet rounds with
    pc := .counted [] []
    dispatcher := (quiet rounds).dispatcher.countReceived }

theorem run_receiving (rounds : Nat) :
    (dispatchSystem wireFormat Unit 1).run (quiet rounds) receiving =
      some (counting rounds) := by
  rfl

/-- The server waits again and the worker has not dequeued yet. -/
def queued (rounds : Nat) : State 1 :=
  { quiet rounds with
    dispatcher := ⟨UInt64.ofNat (rounds + 1), UInt64.ofNat (rounds + 1),
      Function.update (fun _ => []) soleWorker [[]], 0⟩ }

theorem run_placing (rounds : Nat) :
    (dispatchSystem wireFormat Unit 1).run (counting rounds) (delivering.take 4) =
      some (queued rounds) := by
  simp [dispatchSystem, delivering, soleWorker, counting, quiet, serverStep,
    place, Dispatcher.enqueue, Dispatcher.countReceived,
    Dispatcher.countEnqueued, Dispatcher.advance, queued]

theorem run_processing (rounds : Nat) :
    (dispatchSystem wireFormat Unit 1).run (queued rounds) (delivering.drop 4) =
      some (quiet (rounds + 1)) := by
  simp [dispatchSystem, delivering, quiet, queued, workerStep, tryDequeue,
    State.setWorker, parses_nil]
  funext index
  obtain rfl := Subsingleton.elim soleWorker index
  simp [List.replicate_succ']

theorem run_delivering (rounds : Nat) :
    (dispatchSystem wireFormat Unit 1).run (counting rounds) delivering =
      some (quiet (rounds + 1)) := by
  rw [← List.take_append_drop 4 delivering, TransitionSystem.run_append,
    run_placing, Option.bind_some, run_processing]

theorem receiving_succeeds : ∀ action ∈ receiving, action.Succeeds := by
  simp [receiving, Action.Succeeds, ServerAction.Succeeds]

theorem delivering_succeeds : ∀ action ∈ delivering, action.Succeeds := by
  simp [delivering, Action.Succeeds, ServerAction.Succeeds]

theorem quiet_reached (rounds : Nat) :
    ∃ actions, (∀ action ∈ actions, action.Succeeds) ∧
      (dispatchSystem wireFormat Unit 1).run (initial 1) actions =
        some (quiet rounds) := by
  induction rounds with
  | zero => exact ⟨[], by simp, rfl⟩
  | succ rounds ih =>
      obtain ⟨actions, hsucceed, hrun⟩ := ih
      refine ⟨actions ++ (receiving ++ delivering), ?_, ?_⟩
      · exact List.forall_mem_append.mpr ⟨hsucceed,
          List.forall_mem_append.mpr
            ⟨receiving_succeeds, delivering_succeeds⟩⟩
      · simp only [TransitionSystem.run_append, hrun, run_receiving,
          run_delivering, Option.bind_some]

/--
After 2 ^ 64 datagrams the counter of received datagrams is zero again while
that of the only worker is not.
-/
theorem denqueueCnt_exceeds_rcvCnt :
    ∃ (actions : List (Action Unit 1)) (state : State 1),
      (∀ action ∈ actions, action.Succeeds) ∧
      (dispatchSystem wireFormat Unit 1).run (initial 1) actions = some state ∧
      state.dispatcher.udpServerMsgRcvCnt.toNat <
        ∑ index, (state.worker index).udpWorkerMsgDenqueueCnt.toNat := by
  obtain ⟨rounds, hrounds⟩ : ∃ rounds, rounds = 2 ^ 64 - 1 := ⟨_, rfl⟩
  obtain ⟨actions, hsucceed, hrun⟩ := quiet_reached rounds
  refine ⟨actions ++ receiving, counting rounds, ?_, ?_, ?_⟩
  · exact List.forall_mem_append.mpr ⟨hsucceed, receiving_succeeds⟩
  · simp only [TransitionSystem.run_append, hrun, run_receiving,
      Option.bind_some]
  · have hrcv : (counting rounds).dispatcher.udpServerMsgRcvCnt = 0 := by
      change UInt64.ofNat rounds + 1 = 0
      rw [hrounds]
      rfl
    have hdenqueue : ((counting rounds).worker 0).udpWorkerMsgDenqueueCnt =
        UInt64.ofNat (2 ^ 64 - 1) := by
      rw [← hrounds]
      rfl
    rw [hrcv, Fin.sum_univ_one, hdenqueue]
    decide

end CandCpp.Network.OneThreadPerQueue
