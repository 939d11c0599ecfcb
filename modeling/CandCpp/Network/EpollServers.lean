import CandCpp.Network.Socket
import Mathlib.Data.Fintype.Basic
import Mathlib.Tactic.Simps.Basic

/-!
# The three epoll servers

`udpServer()` of udpServerLockFree.cpp, of udpServerLockFreeToken.cpp and of
udpServerLockFreeOneThreadPerQueueJson.cpp wait for the socket, clear the
buffer, receive into it, store a NUL behind what was received and put a message
on a queue.  They differ in the buffer's size, in how they make the message of
the buffer and in the queue that gets it.
-/

namespace CandCpp.Network

open CandCpp.Foundation

variable {Peer : Type} {capacity : Nat} {Target : Type}

/-! ## Receiving into the reused buffer -/

/-- `memset`, `recvfrom` and `buffer[recv_len] = '\0'`. -/
def receiveInto (buffer : Buffer capacity) (payload : Bytes) :
    Except MemoryFault (Buffer capacity × Nat) := do
  let received := delivered capacity payload
  let filled ← buffer.clear.write received
  let terminated ← filled.store received.length 0
  return (terminated, received.length)

theorem receiveInto_of_lt (buffer : Buffer capacity) {payload : Bytes}
    (hlt : payload.length < capacity) :
    receiveInto buffer payload =
      .ok ((Buffer.zeroed capacity).overwrite payload (Nat.le_of_lt hlt),
        payload.length) := by
  have hle : payload.length ≤ capacity := Nat.le_of_lt hlt
  simp only [receiveInto, delivered_of_le hle, Buffer.clear_eq,
    Buffer.write_of_le _ hle, ok_bind, Buffer.store_overwrite_zeroed hlt]
  rfl

theorem completes_receiveInto_iff (buffer : Buffer capacity)
    (payload : Bytes) :
    Completes (receiveInto buffer payload) ↔ payload.length < capacity := by
  have hfits := length_delivered_le capacity payload
  simp only [receiveInto, Buffer.clear_eq, Buffer.write_of_le _ hfits, ok_bind,
    completes_bind_iff, completes_pure, and_true]
  change Completes (Buffer.store _ _ _) ↔ _
  rw [Buffer.completes_store_iff, length_delivered]
  omega

/-- `std::string message(buffer)`. -/
def messageOfCString (buffer : Buffer capacity) (_ : Nat) :
    Except MemoryFault Bytes :=
  buffer.cString

/-- `message.resize(recv_len)` and `memcpy(&message[0], buffer, recv_len)`. -/
def messageOfLength (buffer : Buffer capacity) (recvLen : Nat) :
    Except MemoryFault Bytes :=
  buffer.load recvLen

theorem messageOfCString_received {payload : Bytes}
    (hlt : payload.length < capacity) :
    messageOfCString
        ((Buffer.zeroed capacity).overwrite payload (Nat.le_of_lt hlt))
        payload.length =
      .ok (cText payload) := by
  have hbytes := Buffer.bytes_overwrite_zeroed hlt
  have hzero : 0 ∈
      ((Buffer.zeroed capacity).overwrite payload (Nat.le_of_lt hlt)).bytes := by
    rw [hbytes]
    simp
  rw [messageOfCString, Buffer.cString_of_mem hzero, hbytes]
  by_cases hpayload : 0 ∈ payload
  · rw [cText_append_of_mem hpayload]
  · rw [cText_append_zero hpayload, cText_eq_self_iff.mpr hpayload]

theorem messageOfLength_received {payload : Bytes}
    (hle : payload.length ≤ capacity) :
    messageOfLength ((Buffer.zeroed capacity).overwrite payload hle)
        payload.length =
      .ok payload := by
  simp [messageOfLength, hle]

/-! ## The receive loop -/

structure LoopState (capacity : Nat) (Target : Type) where
  buffer : Buffer capacity
  target : Target

section Loop

variable (message : Buffer capacity → Nat → Except MemoryFault Bytes)
  (enqueue : Target → Bytes → Except MemoryFault Target)

def onEvent (state : LoopState capacity Target) :
    EpollEvent Peer → Except MemoryFault (LoopState capacity Target)
  | .otherDescriptor => .ok state
  | .serverSocket (.failed _) => .ok { state with buffer := state.buffer.clear }
  | .serverSocket (.datagram _ payload) => do
      let (buffer, recvLen) ← receiveInto state.buffer payload
      let text ← message buffer recvLen
      let target ← enqueue state.target text
      return ⟨buffer, target⟩

def onEpoll (state : LoopState capacity Target) :
    EpollOutcome Peer → Except MemoryFault (LoopState capacity Target)
  | .failed _ => .ok state
  | .ready events => events.foldlM (onEvent message enqueue) state

def epollLoop (state : LoopState capacity Target)
    (outcomes : List (EpollOutcome Peer)) :
    Except MemoryFault (LoopState capacity Target) :=
  outcomes.foldlM (onEpoll message enqueue) state

variable {message enqueue}

theorem onEvent_datagram {text : Bytes → Bytes}
    (hmessage : ∀ payload (hlt : payload.length < capacity),
      message ((Buffer.zeroed capacity).overwrite payload (Nat.le_of_lt hlt))
        payload.length = .ok (text payload))
    (state : LoopState capacity Target) (peer : Peer) {payload : Bytes}
    (hlt : payload.length < capacity) :
    onEvent message enqueue state (.serverSocket (.datagram peer payload)) =
      (enqueue state.target (text payload)).map fun target =>
        ⟨(Buffer.zeroed capacity).overwrite payload (Nat.le_of_lt hlt),
          target⟩ := by
  simp only [onEvent, receiveInto_of_lt state.buffer hlt, ok_bind,
    hmessage payload hlt]
  cases enqueue state.target (text payload) <;> rfl

private theorem events_target {text : Bytes → Bytes}
    (hmessage : ∀ payload (hlt : payload.length < capacity),
      message ((Buffer.zeroed capacity).overwrite payload (Nat.le_of_lt hlt))
        payload.length = .ok (text payload))
    (events : List (EpollEvent Peer))
    (hshort : ∀ payload ∈ events.filterMap EpollEvent.payload?,
      payload.length < capacity)
    (state : LoopState capacity Target) :
    (events.foldlM (onEvent message enqueue) state).map LoopState.target =
      ((events.filterMap EpollEvent.payload?).map text).foldlM enqueue
        state.target := by
  induction events generalizing state with
  | nil => rfl
  | cons event events ih =>
      rw [List.foldlM_cons]
      rcases event with _ | _ | ⟨peer, payload⟩
      · exact ih hshort state
      · exact ih hshort _
      · have hhead : payload.length < capacity := hshort payload (by
          simp [EpollEvent.payload?, RecvOutcome.payload?])
        have htail : ∀ payload ∈ events.filterMap EpollEvent.payload?,
            payload.length < capacity := by
          intro payload hmem
          exact hshort payload (by
            simp only [List.mem_filterMap, List.mem_cons] at hmem ⊢
            obtain ⟨event, hevent, hpayload⟩ := hmem
            exact ⟨event, .inr hevent, hpayload⟩)
        rw [onEvent_datagram hmessage state peer hhead]
        have hcons :
            (EpollEvent.serverSocket (.datagram peer payload) ::
                events).filterMap EpollEvent.payload? =
              payload :: events.filterMap EpollEvent.payload? := rfl
        rw [hcons, List.map_cons, List.foldlM_cons]
        cases enqueue state.target (text payload) with
        | error fault => rfl
        | ok target => exact ih htail _

/--
While every datagram leaves room for the NUL, the loop enqueues the texts of
the received payloads in order, whatever the buffer held before.
-/
theorem epollLoop_target {text : Bytes → Bytes}
    (hmessage : ∀ payload (hlt : payload.length < capacity),
      message ((Buffer.zeroed capacity).overwrite payload (Nat.le_of_lt hlt))
        payload.length = .ok (text payload))
    (outcomes : List (EpollOutcome Peer))
    (hshort : ∀ payload ∈ receivedPayloads outcomes,
      payload.length < capacity)
    (state : LoopState capacity Target) :
    (epollLoop message enqueue state outcomes).map LoopState.target =
      ((receivedPayloads outcomes).map text).foldlM enqueue
        state.target := by
  induction outcomes generalizing state with
  | nil => rfl
  | cons outcome outcomes ih =>
      have hhead : ∀ payload ∈ outcome.payloads,
          payload.length < capacity := fun payload hmem =>
        hshort payload (by simp [receivedPayloads, hmem])
      have htail : ∀ payload ∈ receivedPayloads outcomes,
          payload.length < capacity := by
        intro payload hmem
        exact hshort payload (by
          simp only [receivedPayloads, List.flatMap_cons, List.mem_append]
          exact .inr hmem)
      have hsplit : receivedPayloads (outcome :: outcomes) =
          outcome.payloads ++ receivedPayloads outcomes := by
        simp [receivedPayloads]
      rw [hsplit, List.map_append, List.foldlM_append]
      have hround : (onEpoll message enqueue state outcome).map
          LoopState.target =
          (outcome.payloads.map text).foldlM enqueue state.target := by
        cases outcome with
        | failed errno => rfl
        | ready events => exact events_target hmessage events hhead state
      rw [← hround]
      change ((onEpoll message enqueue state outcome) >>= fun next =>
        epollLoop message enqueue next outcomes).map LoopState.target = _
      cases onEpoll message enqueue state outcome with
      | error fault => rfl
      | ok next => exact ih htail next

theorem completes_onEvent_iff {text : Bytes → Bytes} {Inv : Target → Prop}
    (hmessage : ∀ payload (hlt : payload.length < capacity),
      message ((Buffer.zeroed capacity).overwrite payload (Nat.le_of_lt hlt))
        payload.length = .ok (text payload))
    (henqueue : ∀ target text, Inv target → Completes (enqueue target text))
    (state : LoopState capacity Target) (hstate : Inv state.target)
    (event : EpollEvent Peer) :
    Completes (onEvent message enqueue state event) ↔
      ∀ payload ∈ event.payload?, payload.length < capacity := by
  rcases event with _ | _ | ⟨peer, payload⟩
  · simp [onEvent, EpollEvent.payload?]
  · simp [onEvent, EpollEvent.payload?, RecvOutcome.payload?]
  · simp only [EpollEvent.payload?, RecvOutcome.payload?, Option.mem_def,
      Option.some.injEq, forall_eq']
    constructor
    · intro hcompletes
      simp only [onEvent, completes_bind_iff] at hcompletes
      obtain ⟨received, hreceived, -⟩ := hcompletes
      exact (completes_receiveInto_iff state.buffer payload).mp
        ⟨received, hreceived⟩
    · intro hlt
      obtain ⟨target, htarget⟩ :=
        henqueue state.target (text payload) hstate
      rw [onEvent_datagram hmessage state peer hlt, htarget]
      exact ⟨_, rfl⟩

theorem onEvent_invariant {Inv : Target → Prop}
    (hinv : ∀ target text next, Inv target → enqueue target text = .ok next →
      Inv next)
    (state : LoopState capacity Target) (event : EpollEvent Peer)
    (next : LoopState capacity Target) (hstate : Inv state.target)
    (hnext : onEvent message enqueue state event = .ok next) :
    Inv next.target := by
  rcases event with _ | _ | ⟨peer, payload⟩
  · cases hnext
    exact hstate
  · cases hnext
    exact hstate
  · simp only [onEvent, bind_eq_ok_iff] at hnext
    obtain ⟨received, -, text, -, target, htarget, heq⟩ := hnext
    cases heq
    exact hinv _ _ _ hstate htarget

/-- The loop stays within its buffer exactly while every datagram leaves room
for the NUL behind it. -/
theorem completes_epollLoop_iff (text : Bytes → Bytes) (Inv : Target → Prop)
    (hmessage : ∀ payload (hlt : payload.length < capacity),
      message ((Buffer.zeroed capacity).overwrite payload (Nat.le_of_lt hlt))
        payload.length = .ok (text payload))
    (henqueue : ∀ target text, Inv target → Completes (enqueue target text))
    (hinv : ∀ target text next, Inv target → enqueue target text = .ok next →
      Inv next)
    (state : LoopState capacity Target) (hstate : Inv state.target)
    (outcomes : List (EpollOutcome Peer)) :
    Completes (epollLoop message enqueue state outcomes) ↔
      ∀ payload ∈ receivedPayloads outcomes, payload.length < capacity := by
  have hevents : ∀ (state : LoopState capacity Target), Inv state.target →
      ∀ events : List (EpollEvent Peer),
      Completes (events.foldlM (onEvent message enqueue) state) ↔
        ∀ event ∈ events, ∀ payload ∈ event.payload?,
          payload.length < capacity := fun state hstate events =>
    completes_foldlM_iff (fun state => Inv state.target)
      (fun state event hstate =>
        completes_onEvent_iff hmessage henqueue state hstate event)
      (fun state event next => onEvent_invariant hinv state event next)
      hstate events
  have hrounds : Completes (epollLoop message enqueue state outcomes) ↔
      ∀ outcome ∈ outcomes, ∀ event ∈ outcome.events,
        ∀ payload ∈ event.payload?, payload.length < capacity := by
    refine completes_foldlM_iff (fun state => Inv state.target) ?_ ?_ hstate
      outcomes
    · intro state outcome hstate
      cases outcome with
      | failed errno => simp [onEpoll, EpollOutcome.events]
      | ready events => exact hevents state hstate events
    · intro state outcome next hstate hnext
      cases outcome with
      | failed errno =>
          cases hnext
          exact hstate
      | ready events =>
          exact foldlM_invariant (fun state => Inv state.target)
            (fun state event next => onEvent_invariant hinv state event next)
            hstate hnext
  rw [hrounds]
  simp only [receivedPayloads, EpollOutcome.payloads, List.mem_flatMap,
    List.mem_filterMap]
  constructor
  · rintro h payload ⟨outcome, houtcome, event, hevent, hpayload⟩
    exact h outcome houtcome event hevent payload hpayload
  · intro h outcome houtcome event hevent payload hpayload
    exact h payload ⟨outcome, houtcome, event, hevent, hpayload⟩

end Loop

/-! ## udpServerLockFree.cpp and udpServerLockFreeToken.cpp -/

/-- `message_queue.enqueue(message)`, with or without a producer token: there
is one producer and the queue is first in, first out. -/
def enqueueMessage (queue : List Bytes) (message : Bytes) :
    Except MemoryFault (List Bytes) :=
  .ok (queue ++ [message])

theorem foldlM_enqueueMessage (messages queue : List Bytes) :
    messages.foldlM enqueueMessage queue = .ok (queue ++ messages) := by
  induction messages generalizing queue with
  | nil =>
      rw [List.append_nil]
      rfl
  | cons message messages ih =>
      rw [List.foldlM_cons, enqueueMessage, ok_bind, ih]
      simp

theorem completes_textServer_iff
    (state : LoopState capacity (List Bytes))
    (outcomes : List (EpollOutcome Peer)) :
    Completes (epollLoop messageOfCString enqueueMessage state outcomes) ↔
      ∀ payload ∈ receivedPayloads outcomes, payload.length < capacity :=
  completes_epollLoop_iff cText (fun _ => True)
    (fun _ => messageOfCString_received) (fun _ _ _ => completes_ok _)
    (fun _ _ _ _ _ => trivial) state trivial outcomes

theorem textServer_queue (buffer : Buffer capacity)
    (outcomes : List (EpollOutcome Peer))
    (hshort : ∀ payload ∈ receivedPayloads outcomes,
      payload.length < capacity) :
    (epollLoop messageOfCString enqueueMessage ⟨buffer, []⟩ outcomes).map
        LoopState.target =
      .ok ((receivedPayloads outcomes).map cText) := by
  rw [epollLoop_target (fun _ => messageOfCString_received) outcomes hshort,
    foldlM_enqueueMessage, List.nil_append]

namespace UdpServerLockFree

abbrev BUFFER_SIZE : Nat := 1024

def udpServer (state : LoopState BUFFER_SIZE (List Bytes))
    (outcomes : List (EpollOutcome Peer)) :
    Except MemoryFault (LoopState BUFFER_SIZE (List Bytes)) :=
  epollLoop messageOfCString enqueueMessage state outcomes

end UdpServerLockFree

namespace UdpServerLockFreeToken

abbrev BUFFER_SIZE : Nat := 1024

def udpServer (state : LoopState BUFFER_SIZE (List Bytes))
    (outcomes : List (EpollOutcome Peer)) :
    Except MemoryFault (LoopState BUFFER_SIZE (List Bytes)) :=
  epollLoop messageOfCString enqueueMessage state outcomes

end UdpServerLockFreeToken

/-! ## udpServerLockFreeOneThreadPerQueueJson.cpp -/

namespace OneThreadPerQueue

abbrev BUFFER_SIZE : Nat := 4096

/-- The globals and the local `worker_index` that the receive loop writes;
`workers` is `MAX_WORKER_COUNT`. -/
structure Dispatcher (workers : Nat) where
  udpServerMsgRcvCnt : UInt64
  udpServerMsgEnqueueCnt : UInt64
  messageQueue : Fin workers → List Bytes
  workerIndex : Nat

def Dispatcher.initial (workers : Nat) : Dispatcher workers :=
  ⟨0, 0, fun _ => [], 0⟩

namespace Dispatcher

variable {workers : Nat}

@[simps]
def countReceived (state : Dispatcher workers) : Dispatcher workers :=
  { state with udpServerMsgRcvCnt := state.udpServerMsgRcvCnt + 1 }

/-- An `enqueue` that does not succeed queues nothing. -/
def enqueue (state : Dispatcher workers) (message : Bytes) (succeeds : Bool) :
    Except MemoryFault (Dispatcher workers) :=
  if h : state.workerIndex < workers then
    if succeeds then
      .ok { state with
        messageQueue := Function.update state.messageQueue
          ⟨state.workerIndex, h⟩
          (state.messageQueue ⟨state.workerIndex, h⟩ ++ [message]) }
    else .ok state
  else .error (.outOfBounds state.workerIndex)

@[simps]
def countEnqueued (state : Dispatcher workers) : Dispatcher workers :=
  { state with udpServerMsgEnqueueCnt := state.udpServerMsgEnqueueCnt + 1 }

@[simps]
def advance (state : Dispatcher workers) : Dispatcher workers :=
  { state with workerIndex := (state.workerIndex + 1) % workers }

end Dispatcher

/-- What the loop does with a message when no `enqueue` fails. -/
def dispatch {workers : Nat} (state : Dispatcher workers) (message : Bytes) :
    Except MemoryFault (Dispatcher workers) := do
  let queued ← state.countReceived.enqueue message true
  return queued.countEnqueued.advance

def udpServer {workers : Nat}
    (state : LoopState BUFFER_SIZE (Dispatcher workers))
    (outcomes : List (EpollOutcome Peer)) :
    Except MemoryFault (LoopState BUFFER_SIZE (Dispatcher workers)) :=
  epollLoop messageOfLength dispatch state outcomes

theorem completes_dispatch_iff {workers : Nat} (state : Dispatcher workers)
    (message : Bytes) :
    Completes (dispatch state message) ↔ state.workerIndex < workers := by
  simp only [dispatch, Dispatcher.enqueue,
    Dispatcher.countReceived_workerIndex]
  by_cases hindex : state.workerIndex < workers
  · simp only [hindex, dite_true, if_true, ok_bind, completes_pure]
  · simp only [hindex, dite_false, error_bind, not_completes_error]

theorem dispatch_workerIndex {workers : Nat} {state next : Dispatcher workers}
    {message : Bytes} (hnext : dispatch state message = .ok next) :
    next.workerIndex < workers := by
  have hindex := (completes_dispatch_iff state message).mp ⟨next, hnext⟩
  obtain ⟨queued, -, hadvance⟩ := bind_eq_ok_iff.mp hnext
  cases hadvance
  exact Nat.mod_lt _ (by omega)

theorem completes_udpServer_iff {workers : Nat}
    (state : LoopState BUFFER_SIZE (Dispatcher workers))
    (hindex : state.target.workerIndex < workers)
    (outcomes : List (EpollOutcome Peer)) :
    Completes (udpServer state outcomes) ↔
      ∀ payload ∈ receivedPayloads outcomes, payload.length < BUFFER_SIZE :=
  completes_epollLoop_iff id (fun target => target.workerIndex < workers)
    (fun _ hlt => messageOfLength_received (Nat.le_of_lt hlt))
    (fun target text hinv => (completes_dispatch_iff target text).mpr hinv)
    (fun _ _ _ _ hnext => dispatch_workerIndex hnext) state hindex outcomes

/-- With a single worker the loop fills its queue in the order of arrival. -/
theorem foldlM_dispatch_one (messages : List Bytes) (state : Dispatcher 1)
    (hindex : state.workerIndex < 1) :
    (messages.foldlM dispatch state).map (·.messageQueue 0) =
      .ok (state.messageQueue 0 ++ messages) := by
  induction messages generalizing state with
  | nil =>
      rw [List.append_nil]
      rfl
  | cons message messages ih =>
      obtain ⟨next, hnext⟩ := (completes_dispatch_iff state message).mpr hindex
      rw [List.foldlM_cons, hnext, ok_bind, ih next (dispatch_workerIndex hnext)]
      have hzero : (⟨state.workerIndex, hindex⟩ : Fin 1) = 0 :=
        Subsingleton.elim _ _
      have hqueue : next.messageQueue 0 = state.messageQueue 0 ++ [message] := by
        simp only [dispatch, Dispatcher.enqueue,
          Dispatcher.countReceived_workerIndex, dif_pos hindex, if_true, ok_bind] at hnext
        cases hnext
        simp [hzero]
      simp [hqueue]

theorem udpServer_queue_one (buffer : Buffer BUFFER_SIZE)
    (outcomes : List (EpollOutcome Peer))
    (hshort : ∀ payload ∈ receivedPayloads outcomes,
      payload.length < BUFFER_SIZE) :
    (udpServer ⟨buffer, Dispatcher.initial 1⟩ outcomes).map
        (·.target.messageQueue 0) =
      .ok (receivedPayloads outcomes) := by
  have htarget :
      (udpServer ⟨buffer, Dispatcher.initial 1⟩ outcomes).map
          LoopState.target =
        ((receivedPayloads outcomes).map id).foldlM dispatch
          (Dispatcher.initial 1) :=
    epollLoop_target
      (fun _ hlt => messageOfLength_received (Nat.le_of_lt hlt)) outcomes
      hshort _
  have hqueue := foldlM_dispatch_one (receivedPayloads outcomes)
    (Dispatcher.initial 1) Nat.zero_lt_one
  rw [List.map_id] at htarget
  rw [← htarget] at hqueue
  cases hrun : udpServer ⟨buffer, Dispatcher.initial 1⟩ outcomes with
  | error fault =>
      rw [hrun] at hqueue
      cases hqueue
  | ok final =>
      rw [hrun] at hqueue
      simpa [Dispatcher.initial, Except.map] using hqueue

end OneThreadPerQueue

end CandCpp.Network
