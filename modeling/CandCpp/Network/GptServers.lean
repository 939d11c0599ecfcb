import CandCpp.Network.Socket
import Mathlib.Data.List.Forall2

/-!
# The servers udpServerGptPool.cpp and udpServerGpt.cpp

Both clear their buffer, receive into all of it but one byte and store a NUL
behind what they received.  The first polls its socket and acknowledges the
number of bytes; the second never leaves its loop and sends the text back.
-/

namespace CandCpp.Network

open CandCpp.Foundation

variable {Peer : Type}

/-- Both servers take no notice of an empty datagram. -/
def RecvOutcome.nonempty? : RecvOutcome Peer → Option (Peer × Bytes)
  | .failed _ => none
  | .datagram peer payload => if payload = [] then none else some (peer, payload)

/-! ## A received datagram in a cleared buffer -/

section Received

variable (capacity : Nat) (payload : Bytes)

def received : Buffer capacity :=
  (Buffer.zeroed capacity).overwrite (delivered (capacity - 1) payload)
    (Nat.le_trans (length_delivered_le _ _) (Nat.sub_le _ _))

theorem write_delivered :
    (Buffer.zeroed capacity).write (delivered (capacity - 1) payload) =
      .ok (received capacity payload) :=
  Buffer.write_of_le _ _

theorem length_delivered_lt (hpos : 0 < capacity) :
    (delivered (capacity - 1) payload).length < capacity := by
  have hle := length_delivered_le (capacity - 1) payload
  omega

theorem store_received (hpos : 0 < capacity) :
    (received capacity payload).store
        (delivered (capacity - 1) payload).length 0 =
      .ok (received capacity payload) :=
  Buffer.store_overwrite_zeroed (length_delivered_lt capacity payload hpos)

theorem bytes_received (hpos : 0 < capacity) :
    ∃ rest, (received capacity payload).bytes =
      delivered (capacity - 1) payload ++ 0 :: rest :=
  ⟨_, Buffer.bytes_overwrite_zeroed (length_delivered_lt capacity payload hpos)⟩

theorem length_delivered_pos_iff (hroom : 1 < capacity) :
    0 < (delivered (capacity - 1) payload).length ↔ payload ≠ [] := by
  rw [length_delivered, ← List.length_pos_iff]
  omega

theorem cString_received (hpos : 0 < capacity) :
    (received capacity payload).cString =
      .ok (cText (delivered (capacity - 1) payload)) := by
  obtain ⟨rest, hbytes⟩ := bytes_received capacity payload hpos
  have hmem : 0 ∈ (received capacity payload).bytes := by
    rw [hbytes]
    simp
  rw [Buffer.cString_of_mem hmem, hbytes]
  by_cases hzero : 0 ∈ delivered (capacity - 1) payload
  · rw [cText_append_of_mem hzero]
  · rw [cText_append_zero hzero, cText_eq_self_iff.mpr hzero]

/-- The whole payload and a NUL fit exactly when the payload is shorter than
the buffer. -/
theorem take_received_iff (hpos : 0 < capacity) :
    (received capacity payload).bytes.take (payload.length + 1) =
      payload ++ [0] ↔ payload.length < capacity := by
  constructor
  · intro htake
    have hlength := congrArg List.length htake
    rw [List.length_take, Buffer.length_bytes, List.length_append,
      List.length_singleton] at hlength
    omega
  · intro hlt
    obtain ⟨rest, hbytes⟩ := bytes_received capacity payload hpos
    have hall : delivered (capacity - 1) payload = payload :=
      delivered_of_le (by omega)
    rw [hbytes, hall, List.take_length_add_append]
    rfl

end Received

/-! ## udpServerGptPool.cpp -/

namespace UdpServerGptPool

abbrev BUFFER_SIZE : Nat := 65507

inductive Input (Peer : Type) where
  | pollFailed (errno : Errno)
  | timeout
  | otherEvents
  | readable (outcome : RecvOutcome Peer)
  deriving DecidableEq, Repr

/-- The arguments of a `sendto`, and the buffer at that time. -/
structure Acknowledgement (Peer : Type) where
  peer : Peer
  response : Bytes
  buffer : Buffer BUFFER_SIZE

inductive Phase where
  | running
  | leftLoop
  | returned (code : Nat)
  deriving DecidableEq, Repr

structure State (Peer : Type) where
  buffer : Buffer BUFFER_SIZE
  acknowledgements : List (Acknowledgement Peer)
  errno : Option Errno
  closes : Nat
  phase : Phase

def response (bytesReceived : Nat) : Bytes :=
  ascii "ACK: Received " ++ ascii (toString bytesReceived) ++ ascii " bytes"

def closeAndReturn (code : Nat) (state : State Peer) : State Peer :=
  { state with closes := state.closes + 1, phase := .returned code }

def receive (outcome : RecvOutcome Peer) (state : State Peer) :
    Except MemoryFault (ForInStep (State Peer)) :=
  let buffer := state.buffer.clear
  match outcome with
  | .datagram peer payload => do
      let message := delivered (BUFFER_SIZE - 1) payload
      let bytesReceived := message.length
      let buffer ← buffer.write message
      if bytesReceived > 0 then
        let buffer ← buffer.store bytesReceived 0
        let acknowledgement := ⟨peer, response bytesReceived, buffer⟩
        return .yield {
          state with
          buffer
          acknowledgements := state.acknowledgements ++ [acknowledgement] }
      else return .yield { state with buffer }
  | .failed errno =>
      let state := { state with buffer, errno := some errno }
      match errno with
      | .eagain => return .yield state
      | .eintr => return .yield state
      | .emsgsize => return .yield state
      | .econnrefused => return .yield state
      | .ebadf | .enotsock => return .done (closeAndReturn 1 state)
      | .efault => return .done (closeAndReturn 1 state)
      | .other _ => return .yield state

def iteration (input : Input Peer) (state : State Peer) :
    Except MemoryFault (ForInStep (State Peer)) :=
  match input with
  | .pollFailed errno =>
      .ok (.done { state with errno := some errno, phase := .leftLoop })
  | .timeout => .ok (.yield state)
  | .readable outcome => receive outcome state
  | .otherEvents => .ok (.yield state)

def main (buffer : Buffer BUFFER_SIZE) (inputs : List (Input Peer)) :
    Except MemoryFault (State Peer) := do
  let state ← forIn inputs ⟨buffer, [], none, 0, .running⟩ iteration
  match state.phase with
  | .leftLoop => return closeAndReturn 0 state
  | .running | .returned _ => return state

/-! ## Its runs -/

def isFatal : Errno → Bool
  | .ebadf | .enotsock | .efault => true
  | .eagain | .eintr | .emsgsize | .econnrefused | .other _ => false

namespace Input

def leaves : Input Peer → Bool
  | .pollFailed _ => true
  | .timeout | .otherEvents | .readable (.datagram _ _) => false
  | .readable (.failed errno) => isFatal errno

def datagram? : Input Peer → Option (Peer × Bytes)
  | .pollFailed _ | .timeout | .otherEvents => none
  | .readable outcome => outcome.nonempty?

end Input

def acknowledgement (datagram : Peer × Bytes) : Acknowledgement Peer :=
  ⟨datagram.1, response (delivered (BUFFER_SIZE - 1) datagram.2).length,
    received BUFFER_SIZE datagram.2⟩

def next (state : State Peer) : Input Peer → State Peer
  | .pollFailed errno =>
      { state with errno := some errno, phase := .leftLoop }
  | .timeout | .otherEvents => state
  | .readable (.datagram peer payload) =>
      { state with
        buffer := received BUFFER_SIZE payload
        acknowledgements := state.acknowledgements ++
          (RecvOutcome.datagram peer payload).nonempty?.toList.map
            acknowledgement }
  | .readable (.failed errno) =>
      let state := { state with
        buffer := Buffer.zeroed BUFFER_SIZE, errno := some errno }
      if isFatal errno then closeAndReturn 1 state else state

theorem receive_datagram (peer : Peer) (payload : Bytes) (state : State Peer) :
    receive (.datagram peer payload) state =
      .ok (.yield (next state (.readable (.datagram peer payload)))) := by
  have hwrite := write_delivered BUFFER_SIZE payload
  have hstore := store_received BUFFER_SIZE payload (by decide)
  have hpos := length_delivered_pos_iff BUFFER_SIZE payload (by decide)
  simp only [receive, Buffer.clear_eq, hwrite, ok_bind, gt_iff_lt, hpos]
  split
  · rename_i hnonempty
    simp only [hstore, ok_bind, next, RecvOutcome.nonempty?, if_neg hnonempty]
    rfl
  · rename_i hempty
    simp only [next, RecvOutcome.nonempty?, not_not.mp hempty, if_true]
    simp [pure, Except.pure]

theorem iteration_eq (input : Input Peer) (state : State Peer) :
    iteration input state =
      .ok (if input.leaves then .done (next state input)
        else .yield (next state input)) := by
  cases input with
  | pollFailed errno => rfl
  | timeout => rfl
  | otherEvents => rfl
  | readable outcome =>
      cases outcome with
      | datagram peer payload => exact receive_datagram peer payload state
      | failed errno => cases errno <;> rfl

def looped (buffer : Buffer BUFFER_SIZE) (inputs : List (Input Peer)) :
    State Peer :=
  (reached Input.leaves inputs).foldl next ⟨buffer, [], none, 0, .running⟩

/-- What `main` does behind the loop. -/
def finish (state : State Peer) : State Peer :=
  match state.phase with
  | .leftLoop => closeAndReturn 0 state
  | .running | .returned _ => state

theorem main_eq (buffer : Buffer BUFFER_SIZE) (inputs : List (Input Peer)) :
    main buffer inputs = .ok (finish (looped buffer inputs)) := by
  rw [main, forIn_eq_ok iteration_eq, ok_bind, finish, looped]
  split <;> rfl

@[simp] theorem finish_acknowledgements (state : State Peer) :
    (finish state).acknowledgements = state.acknowledgements := by
  unfold finish
  split <;> rfl

/-! ## Acknowledgements -/

def receivedDatagrams (inputs : List (Input Peer)) : List (Peer × Bytes) :=
  (reached Input.leaves inputs).filterMap Input.datagram?

/-- To the sender, with the real length, and all bytes and a NUL stored. -/
structure Acknowledges (sent : Acknowledgement Peer)
    (datagram : Peer × Bytes) : Prop where
  peer : sent.peer = datagram.1
  response : sent.response = response datagram.2.length
  stored : sent.buffer.bytes.take (datagram.2.length + 1) = datagram.2 ++ [0]

/-- One acknowledgement for each datagram, in the order of arrival. -/
def AcknowledgesAll (buffer : Buffer BUFFER_SIZE)
    (inputs : List (Input Peer)) : Prop :=
  ∃ state, main buffer inputs = .ok state ∧
    List.Forall₂ Acknowledges state.acknowledgements (receivedDatagrams inputs)

theorem acknowledgements_next (state : State Peer) (input : Input Peer) :
    (next state input).acknowledgements =
      state.acknowledgements ++ input.datagram?.toList.map acknowledgement := by
  cases input with
  | pollFailed errno => simp [next, Input.datagram?]
  | timeout => simp [next, Input.datagram?]
  | otherEvents => simp [next, Input.datagram?]
  | readable outcome =>
      cases outcome with
      | datagram peer payload => rfl
      | failed errno =>
          simp only [next, Input.datagram?, RecvOutcome.nonempty?]
          split <;> simp [closeAndReturn]

theorem acknowledgements_foldl (inputs : List (Input Peer))
    (state : State Peer) :
    (inputs.foldl next state).acknowledgements = state.acknowledgements ++
      (inputs.filterMap Input.datagram?).map acknowledgement := by
  induction inputs generalizing state with
  | nil => simp
  | cons input inputs ih =>
      rw [List.foldl_cons, ih, acknowledgements_next]
      cases hdatagram : input.datagram? with
      | none => simp [hdatagram]
      | some datagram => simp [hdatagram]

theorem acknowledgesAll_iff_forall (buffer : Buffer BUFFER_SIZE)
    (inputs : List (Input Peer)) :
    AcknowledgesAll buffer inputs ↔
      ∀ datagram ∈ receivedDatagrams inputs,
        Acknowledges (acknowledgement datagram) datagram := by
  have hlooped : (looped buffer inputs).acknowledgements =
      (receivedDatagrams inputs).map acknowledgement := by
    rw [looped, acknowledgements_foldl, List.nil_append, receivedDatagrams]
  have hall : AcknowledgesAll buffer inputs ↔
      List.Forall₂ Acknowledges (looped buffer inputs).acknowledgements
        (receivedDatagrams inputs) := by
    simp only [AcknowledgesAll, main_eq, Except.ok.injEq, exists_eq_left',
      finish_acknowledgements]
  rw [hall, hlooped, List.forall₂_map_left_iff, List.forall₂_same]

theorem acknowledges_iff (datagram : Peer × Bytes) :
    Acknowledges (acknowledgement datagram) datagram ↔
      datagram.2.length < BUFFER_SIZE := by
  have hstored := take_received_iff BUFFER_SIZE datagram.2 (by decide)
  constructor
  · intro h
    exact hstored.mp h.stored
  · intro hlt
    have hall : delivered (BUFFER_SIZE - 1) datagram.2 = datagram.2 :=
      delivered_of_le (Nat.le_sub_one_of_lt hlt)
    refine ⟨rfl, ?_, hstored.mpr hlt⟩
    rw [acknowledgement, hall]

theorem main_acknowledgesAll_iff (buffer : Buffer BUFFER_SIZE)
    (inputs : List (Input Peer)) :
    AcknowledgesAll buffer inputs ↔
      ∀ datagram ∈ receivedDatagrams inputs,
        datagram.2.length < BUFFER_SIZE := by
  simp only [acknowledgesAll_iff_forall, acknowledges_iff]

/-- The largest UDP payload. -/
theorem main_truncates_maximum :
    ¬ AcknowledgesAll (Buffer.zeroed BUFFER_SIZE)
      [.readable (.datagram () (List.replicate 65507 65))] := by
  rw [acknowledgesAll_iff_forall]
  intro hall
  have hreached : ((), List.replicate 65507 65) ∈ receivedDatagrams
      [.readable (.datagram () (List.replicate 65507 65))] :=
    List.mem_filterMap.mpr ⟨_, List.mem_singleton_self _, rfl⟩
  have hlt := (acknowledges_iff _).mp (hall _ hreached)
  rw [List.length_replicate] at hlt
  exact Nat.lt_irrefl _ hlt

/-! ## Exits -/

/-- The loop was left after a fatal error only, with one `close`. -/
def LeavesOnFatal (state : State Peer) : Prop :=
  match state.phase with
  | .running => state.closes = 0
  | .leftLoop => False
  | .returned _ =>
      state.closes = 1 ∧ ∃ errno ∈ state.errno, isFatal errno = true

def ExitsOnlyOnFatal (buffer : Buffer BUFFER_SIZE)
    (inputs : List (Input Peer)) : Prop :=
  ∃ state, main buffer inputs = .ok state ∧ LeavesOnFatal state

theorem next_running {input : Input Peer} (hstay : input.leaves = false)
    (state : State Peer) :
    (next state input).phase = state.phase ∧
      (next state input).closes = state.closes := by
  cases input with
  | pollFailed errno => simp [Input.leaves] at hstay
  | timeout => exact ⟨rfl, rfl⟩
  | otherEvents => exact ⟨rfl, rfl⟩
  | readable outcome =>
      cases outcome with
      | datagram peer payload => exact ⟨rfl, rfl⟩
      | failed errno =>
          have hfatal : isFatal errno = false := hstay
          simp [next, hfatal]

theorem foldl_running {inputs : List (Input Peer)}
    (hstay : ∀ input ∈ inputs, input.leaves = false) (state : State Peer) :
    (inputs.foldl next state).phase = state.phase ∧
      (inputs.foldl next state).closes = state.closes := by
  induction inputs generalizing state with
  | nil => exact ⟨rfl, rfl⟩
  | cons input inputs ih =>
      have hhead := next_running (hstay input List.mem_cons_self) state
      have htail := ih (fun other hother =>
        hstay other (List.mem_cons_of_mem input hother)) (next state input)
      exact ⟨htail.1.trans hhead.1, htail.2.trans hhead.2⟩

theorem foldl_stays (buffer : Buffer BUFFER_SIZE) {inputs : List (Input Peer)}
    (hstay : ∀ input ∈ inputs, input.leaves = false) :
    (inputs.foldl next ⟨buffer, [], none, 0, .running⟩).phase = .running ∧
      (inputs.foldl next ⟨buffer, [], none, 0, .running⟩).closes = 0 ∧
      ∀ errno, .pollFailed errno ∉ inputs := by
  obtain ⟨hphase, hcloses⟩ :=
    foldl_running hstay ⟨buffer, [], none, 0, .running⟩
  refine ⟨hphase, hcloses, fun errno hmem => ?_⟩
  have hleaves := hstay _ hmem
  simp [Input.leaves] at hleaves

theorem finish_next_of_leaves {input : Input Peer}
    (hleaves : input.leaves = true) {state : State Peer}
    (hcloses : state.closes = 0) :
    LeavesOnFatal (finish (next state input)) ↔
      ∀ errno, input = .pollFailed errno → isFatal errno = true := by
  cases input with
  | pollFailed errno =>
      simp [next, finish, LeavesOnFatal, closeAndReturn, hcloses]
  | timeout => simp [Input.leaves] at hleaves
  | otherEvents => simp [Input.leaves] at hleaves
  | readable outcome =>
      cases outcome with
      | datagram peer payload => simp [Input.leaves] at hleaves
      | failed errno =>
          have hfatal : isFatal errno = true := hleaves
          simp [next, finish, LeavesOnFatal, closeAndReturn, hfatal, hcloses]

theorem main_exitsOnlyOnFatal_iff (buffer : Buffer BUFFER_SIZE)
    (inputs : List (Input Peer)) :
    ExitsOnlyOnFatal buffer inputs ↔
      ∀ errno, .pollFailed errno ∈ reached Input.leaves inputs →
        isFatal errno = true := by
  simp only [ExitsOnlyOnFatal, main_eq, Except.ok.injEq, exists_eq_left',
    looped]
  rcases reached_cases Input.leaves inputs with
    ⟨hall, hstay⟩ | ⟨before, last, hreached, hstay, hlast⟩
  · obtain ⟨hphase, hcloses, hno⟩ := foldl_stays buffer hstay
    rw [hall]
    simp [finish, LeavesOnFatal, hphase, hcloses, hno]
  · obtain ⟨-, hcloses, hno⟩ := foldl_stays buffer hstay
    rw [hreached, List.foldl_append, List.foldl_cons, List.foldl_nil,
      finish_next_of_leaves hlast hcloses]
    simp [hno, @eq_comm _ last]

/-- A `poll` that a signal interrupts. -/
theorem main_exits_on_eintr :
    ∃ state : State Unit,
      main (Buffer.zeroed BUFFER_SIZE) [.pollFailed .eintr] = .ok state ∧
        state.phase = .returned 0 ∧ state.errno = some .eintr ∧
        ¬ LeavesOnFatal state := by
  refine ⟨_, rfl, rfl, rfl, ?_⟩
  rintro ⟨-, errno, herrno, hfatal⟩
  cases herrno
  cases hfatal

end UdpServerGptPool

/-! ## udpServerGpt.cpp -/

namespace UdpServerGpt

abbrev BUFFER_SIZE : Nat := 65536

/-- Longer datagrams cannot be sent. -/
abbrev maximumPayload : Nat := 65507

/-- `printed` leaves out the client's address in front of the text. -/
structure State (Peer : Type) where
  buffer : Buffer BUFFER_SIZE
  printed : List Bytes
  replies : List (Peer × Bytes)

def iteration (state : State Peer) (outcome : RecvOutcome Peer) :
    Except MemoryFault (State Peer) :=
  let buffer := state.buffer.clear
  match outcome with
  | .failed _ => return { state with buffer }
  | .datagram peer payload => do
      let message := delivered (BUFFER_SIZE - 1) payload
      let bytesReceived := message.length
      let buffer ← buffer.write message
      if bytesReceived > 0 then
        let buffer ← buffer.store bytesReceived 0
        let text ← buffer.cString
        let response := ascii "Message received: " ++ text
        return {
          buffer
          printed := state.printed ++ [text]
          replies := state.replies ++ [(peer, response)] }
      else return { state with buffer }

def main (buffer : Buffer BUFFER_SIZE) (outcomes : List (RecvOutcome Peer)) :
    Except MemoryFault (State Peer) :=
  outcomes.foldlM iteration ⟨buffer, [], []⟩

/-- What the datagram brought, to its sender, and short enough to be sent. -/
structure Answers (reply datagram : Peer × Bytes) : Prop where
  peer : reply.1 = datagram.1
  content : reply.2 = ascii "Message received: " ++ datagram.2
  fits : reply.2.length ≤ maximumPayload

def AnswersAll (buffer : Buffer BUFFER_SIZE)
    (outcomes : List (RecvOutcome Peer)) : Prop :=
  ∃ state, main buffer outcomes = .ok state ∧
    List.Forall₂ Answers state.replies
      (outcomes.filterMap RecvOutcome.nonempty?)

def reply (datagram : Peer × Bytes) : Peer × Bytes :=
  (datagram.1, ascii "Message received: " ++
    cText (delivered (BUFFER_SIZE - 1) datagram.2))

theorem iteration_replies (state : State Peer) (outcome : RecvOutcome Peer) :
    ∃ after, iteration state outcome = .ok after ∧
      after.replies =
        state.replies ++ outcome.nonempty?.toList.map reply := by
  cases outcome with
  | failed errno => exact ⟨_, rfl, by simp [RecvOutcome.nonempty?]⟩
  | datagram peer payload =>
      have hwrite := write_delivered BUFFER_SIZE payload
      have hstore := store_received BUFFER_SIZE payload (by decide)
      have htext := cString_received BUFFER_SIZE payload (by decide)
      have hpos := length_delivered_pos_iff BUFFER_SIZE payload (by decide)
      simp only [iteration, Buffer.clear_eq, hwrite, ok_bind, gt_iff_lt, hpos]
      by_cases hempty : payload = []
      · simp only [hempty, ne_eq, not_true, if_false]
        exact ⟨_, rfl, by simp [RecvOutcome.nonempty?]⟩
      · simp only [ne_eq, hempty, not_false_eq_true, if_true, hstore, htext, ok_bind]
        exact ⟨_, rfl, by simp [RecvOutcome.nonempty?, hempty, reply]⟩

theorem foldlM_replies (outcomes : List (RecvOutcome Peer))
    (state : State Peer) :
    ∃ final, outcomes.foldlM iteration state = .ok final ∧
      final.replies = state.replies ++
        (outcomes.filterMap RecvOutcome.nonempty?).map reply := by
  induction outcomes generalizing state with
  | nil => exact ⟨state, rfl, by simp⟩
  | cons outcome outcomes ih =>
      obtain ⟨after, hafter, hreplies⟩ := iteration_replies state outcome
      obtain ⟨final, hfinal, hrest⟩ := ih after
      refine ⟨final, ?_, ?_⟩
      · rw [List.foldlM_cons, hafter, ok_bind, hfinal]
      · rw [hrest, hreplies]
        cases hdatagram : outcome.nonempty? with
        | none => simp [hdatagram]
        | some datagram => simp [hdatagram]

theorem answersAll_iff_forall (buffer : Buffer BUFFER_SIZE)
    (outcomes : List (RecvOutcome Peer)) :
    AnswersAll buffer outcomes ↔
      ∀ datagram ∈ outcomes.filterMap RecvOutcome.nonempty?,
        Answers (reply datagram) datagram := by
  obtain ⟨final, hfinal, hreplies⟩ :=
    foldlM_replies outcomes ⟨buffer, [], []⟩
  rw [List.nil_append] at hreplies
  simp only [AnswersAll, main, hfinal, Except.ok.injEq, exists_eq_left',
    hreplies]
  rw [List.forall₂_map_left_iff, List.forall₂_same]

theorem answers_iff (datagram : Peer × Bytes) :
    Answers (reply datagram) datagram ↔
      0 ∉ datagram.2 ∧
        (ascii "Message received: ").length + datagram.2.length ≤
          maximumPayload := by
  constructor
  · intro h
    have htext : cText (delivered (BUFFER_SIZE - 1) datagram.2) =
        datagram.2 := List.append_cancel_left h.content
    have hlength := h.fits
    rw [h.content, List.length_append] at hlength
    refine ⟨?_, hlength⟩
    rw [← htext]
    exact zero_notMem_cText _
  · rintro ⟨hzero, hlength⟩
    have hall : delivered (BUFFER_SIZE - 1) datagram.2 = datagram.2 :=
      delivered_of_le (by
        simp only [maximumPayload, BUFFER_SIZE] at hlength ⊢
        omega)
    have hreply : (reply datagram).2 =
        ascii "Message received: " ++ datagram.2 := by
      rw [reply, hall, cText_eq_self_iff.mpr hzero]
    refine ⟨rfl, hreply, ?_⟩
    rw [hreply, List.length_append]
    exact hlength

theorem main_answersAll_iff (buffer : Buffer BUFFER_SIZE)
    (outcomes : List (RecvOutcome Peer)) :
    AnswersAll buffer outcomes ↔
      ∀ datagram ∈ outcomes.filterMap RecvOutcome.nonempty?,
        0 ∉ datagram.2 ∧ datagram.2.length ≤ 65489 := by
  have hprefix : (ascii "Message received: ").length = 18 := by decide
  rw [answersAll_iff_forall]
  refine forall₂_congr fun datagram _ => ?_
  rw [answers_iff, hprefix, maximumPayload]
  exact and_congr Iff.rfl (by omega)

theorem main_cuts_binary :
    ¬ AnswersAll (Buffer.zeroed BUFFER_SIZE)
      [.datagram () [8, 0, 18]] := by
  rw [answersAll_iff_forall]
  intro hall
  have hanswers := (answers_iff _).mp (hall ((), [8, 0, 18]) (by decide))
  exact hanswers.1 (by decide)

end UdpServerGpt

end CandCpp.Network
