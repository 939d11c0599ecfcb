import CandCpp.Network.Socket

/-!
# The receive loops of udpServerThread.cpp and udpClient.cpp

Both poll a non-blocking socket.  `handle_client` clears its buffer, lets
`recvfrom` fill all of it and prints it as a C string; `main` of the client
never clears its buffer, stores a NUL behind the response, prints it and
leaves.
-/

namespace CandCpp.Network

open CandCpp.Foundation

variable {Peer : Type}

namespace UdpServerThread

abbrev BUFFER_SIZE : Nat := 1024

/-- One iteration's input: what `recvfrom` returns and the value of
`isExitUDPServerThread` if the iteration reads it. -/
structure Input (Peer : Type) where
  outcome : RecvOutcome Peer
  isExit : Bool

structure State (Peer : Type) where
  buffer : Buffer BUFFER_SIZE
  printed : List Bytes
  sent : List (Peer × Bytes)

def iteration (input : Input Peer) (state : State Peer) :
    Except MemoryFault (ForInStep (State Peer)) :=
  let buffer := state.buffer.clear
  match input.outcome with
  | .failed errno =>
      if errno = .eagain then
        if input.isExit then .ok (.done { state with buffer })
        else .ok (.yield { state with buffer })
      else .ok (.done { state with buffer })
  | .datagram peer payload => do
      let buffer ← buffer.write (delivered BUFFER_SIZE payload)
      let text ← buffer.cString
      return .yield {
        buffer
        printed := state.printed ++ [ascii "Received: " ++ text]
        sent := state.sent ++ [(peer, ascii "Message received!")] }

def handleClient (buffer : Buffer BUFFER_SIZE) (inputs : List (Input Peer)) :
    Except MemoryFault (State Peer) :=
  forIn inputs ⟨buffer, [], []⟩ iteration

def leaves (input : Input Peer) : Bool :=
  match input.outcome with
  | .failed errno => errno ≠ .eagain || input.isExit
  | .datagram _ _ => false

/-- A buffer that was cleared and then filled from its start holds a NUL when
the data leave room for one or contain one. -/
theorem zero_mem_filled_iff (payload : Bytes) :
    0 ∈ ((Buffer.zeroed BUFFER_SIZE).overwrite (delivered BUFFER_SIZE payload)
        (length_delivered_le _ _)).bytes ↔
      payload.length < BUFFER_SIZE ∨ 0 ∈ payload.take BUFFER_SIZE := by
  have hlength := length_delivered BUFFER_SIZE payload
  rw [Buffer.bytes_overwrite, Buffer.bytes_zeroed, List.drop_replicate,
    List.mem_append, List.mem_replicate, delivered]
  rw [delivered] at hlength
  constructor
  · rintro (hmem | ⟨hroom, -⟩)
    · exact .inr hmem
    · exact .inl (by omega)
  · rintro (hroom | hmem)
    · exact .inr ⟨by omega, rfl⟩
    · exact .inl hmem

theorem completes_iteration_iff (input : Input Peer) (state : State Peer) :
    Completes (iteration input state) ↔
      ∀ payload ∈ input.outcome.payload?,
        payload.length < BUFFER_SIZE ∨ 0 ∈ payload.take BUFFER_SIZE := by
  rcases input with ⟨errno | ⟨peer, payload⟩, isExit⟩
  · by_cases herrno : errno = .eagain <;> cases isExit <;>
      simp [iteration, herrno, RecvOutcome.payload?]
  · have hfits := length_delivered_le BUFFER_SIZE payload
    simp only [iteration, Buffer.clear_eq, Buffer.write_of_le _ hfits, ok_bind,
      completes_bind_iff, completes_pure, and_true, RecvOutcome.payload?,
      Option.mem_def, Option.some.injEq, forall_eq']
    rw [← zero_mem_filled_iff, ← Buffer.completes_cString_iff]
    rfl

theorem iteration_flow (input : Input Peer) (state : State Peer)
    (exit : ForInStep (State Peer))
    (hexit : iteration input state = .ok exit) :
    (leaves input = true ∧ ∃ final, exit = .done final) ∨
      (leaves input = false ∧ ∃ next, exit = .yield next ∧ True) := by
  rcases input with ⟨errno | ⟨peer, payload⟩, isExit⟩
  · by_cases herrno : errno = .eagain
    · cases isExit with
      | true =>
          left
          simp only [iteration, herrno] at hexit
          cases hexit
          exact ⟨by simp [leaves], _, rfl⟩
      | false =>
          right
          simp only [iteration, herrno] at hexit
          cases hexit
          exact ⟨by simp [leaves, herrno], _, rfl, trivial⟩
    · left
      simp only [iteration, if_neg herrno] at hexit
      cases hexit
      exact ⟨by simp [leaves, herrno], _, rfl⟩
  · right
    simp only [iteration, bind_eq_ok_iff] at hexit
    obtain ⟨buffer, -, text, -, heq⟩ := hexit
    cases heq
    exact ⟨rfl, _, rfl, trivial⟩

/-- The loop reads its buffer as a C string safely exactly when every datagram
it receives is short or has a NUL within the buffer's size. -/
theorem completes_handleClient_iff (buffer : Buffer BUFFER_SIZE)
    (inputs : List (Input Peer)) :
    Completes (handleClient buffer inputs) ↔
      ∀ input ∈ reached leaves inputs, ∀ payload ∈ input.outcome.payload?,
        payload.length < BUFFER_SIZE ∨ 0 ∈ payload.take BUFFER_SIZE :=
  completes_forIn_iff (fun _ => True)
    (fun input state _ => completes_iteration_iff input state)
    (fun input state exit _ => iteration_flow input state exit) trivial inputs

end UdpServerThread

namespace UdpClient

abbrev BUFFER_SIZE : Nat := 1024

inductive Exit where
  | failure
  | response (text : Bytes)
  deriving DecidableEq, Repr

structure State where
  buffer : Buffer BUFFER_SIZE
  cnt : Nat
  exit : Option Exit

def iteration (outcome : RecvOutcome Peer) (state : State) :
    Except MemoryFault (ForInStep State) :=
  match outcome with
  | .failed errno =>
      if errno = .eagain then
        if state.cnt > 0 then .ok (.yield { state with cnt := state.cnt - 1 })
        else .ok (.yield state)
      else .ok (.done { state with exit := some .failure })
  | .datagram _ payload => do
      let received := delivered BUFFER_SIZE payload
      let filled ← state.buffer.write received
      let terminated ← filled.store received.length 0
      let text ← terminated.cString
      return .done {
        state with
        buffer := terminated
        exit := some (.response (ascii "Server response: " ++ text)) }

/-- The loop behind `int cnt = 1000`, over the outcomes it could see. -/
def receiveResponse (buffer : Buffer BUFFER_SIZE)
    (outcomes : List (RecvOutcome Peer)) : Except MemoryFault State :=
  forIn outcomes ⟨buffer, 1000, none⟩ iteration

def leaves : RecvOutcome Peer → Bool
  | .failed errno => errno ≠ .eagain
  | .datagram _ _ => true

theorem completes_iteration_iff (outcome : RecvOutcome Peer) (state : State) :
    Completes (iteration outcome state) ↔
      ∀ payload ∈ outcome.payload?, payload.length < BUFFER_SIZE := by
  rcases outcome with errno | ⟨peer, payload⟩
  · by_cases herrno : errno = .eagain <;> by_cases hcnt : state.cnt > 0 <;>
      simp [iteration, herrno, hcnt, RecvOutcome.payload?]
  · have hfits := length_delivered_le BUFFER_SIZE payload
    have hlength := length_delivered BUFFER_SIZE payload
    simp only [iteration, Buffer.write_of_le _ hfits, ok_bind,
      RecvOutcome.payload?, Option.mem_def, Option.some.injEq, forall_eq']
    constructor
    · intro hcompletes
      obtain ⟨terminated, hstore, -⟩ := completes_bind_iff.mp hcompletes
      have hindex := (Buffer.completes_store_iff _ _ _).mp ⟨_, hstore⟩
      omega
    · intro hlt
      have hindex : (delivered BUFFER_SIZE payload).length < BUFFER_SIZE := by
        omega
      rw [Buffer.store_of_lt _ _ hindex, ok_bind, Buffer.cString_of_mem]
      · exact ⟨_, rfl⟩
      · exact List.mem_set (by rwa [Buffer.length_bytes]) _

theorem iteration_flow (outcome : RecvOutcome Peer) (state : State)
    (exit : ForInStep State) (hexit : iteration outcome state = .ok exit) :
    (leaves outcome = true ∧ ∃ final, exit = .done final) ∨
      (leaves outcome = false ∧ ∃ next, exit = .yield next ∧ True) := by
  rcases outcome with errno | ⟨peer, payload⟩
  · by_cases herrno : errno = .eagain
    · right
      by_cases hcnt : state.cnt > 0
      · simp only [iteration, herrno, hcnt] at hexit
        cases hexit
        exact ⟨by simp [leaves, herrno], _, rfl, trivial⟩
      · simp only [iteration, herrno, hcnt] at hexit
        cases hexit
        exact ⟨by simp [leaves, herrno], _, rfl, trivial⟩
    · left
      simp only [iteration, if_neg herrno] at hexit
      cases hexit
      exact ⟨by simp [leaves, herrno], _, rfl⟩
  · left
    simp only [iteration, bind_eq_ok_iff] at hexit
    obtain ⟨filled, -, terminated, -, text, -, heq⟩ := hexit
    cases heq
    exact ⟨rfl, _, rfl⟩

theorem completes_receiveResponse_iff (buffer : Buffer BUFFER_SIZE)
    (outcomes : List (RecvOutcome Peer)) :
    Completes (receiveResponse buffer outcomes) ↔
      ∀ outcome ∈ reached leaves outcomes, ∀ payload ∈ outcome.payload?,
        payload.length < BUFFER_SIZE :=
  completes_forIn_iff (fun _ => True)
    (fun outcome state _ => completes_iteration_iff outcome state)
    (fun outcome state exit _ => iteration_flow outcome state exit) trivial
    outcomes

end UdpClient

end CandCpp.Network
