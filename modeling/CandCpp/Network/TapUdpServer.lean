import CandCpp.Foundation.Buffer
import CandCpp.Foundation.TransitionSystem
import Mathlib.Data.List.Infix

/-!
# The match detection of udpServerThreadClass.cpp

`startUDPServer` of `TapUdpServer` runs while datagrams arrive at its bound
socket and another thread may call `stopUDPServer`.  The `recvfrom` of the loop
is commented out, so that `bytes_received` is zero in every round and the one
datagram the server gets is received after the flag has been seen.
-/

namespace CandCpp.Network.TapUdpServer

open CandCpp.Foundation

abbrev UDP_RCV_BUFFER_SIZE : Nat := 1024

def MATCHED_TAP_STR : Bytes := ascii "tap"

/-- `rcv_msg.find(MATCHED_TAP_STR_) != std::string::npos`. -/
def isMatched (message : Bytes) : Bool := decide (MATCHED_TAP_STR <:+: message)

structure Datagram where
  bytes : Bytes
  length_lt : bytes.length < UDP_RCV_BUFFER_SIZE
  zero_notMem : 0 ∉ bytes

/-! ## States and steps -/

inductive Pc where
  | clearing
  | checking (bytesReceived : Int)
  | sleeping
  | stopReceiving
  | inspecting
  | closing
  | returned
  deriving DecidableEq, Repr

/-- `queue` holds what has arrived at the socket and was not yet received. -/
structure State where
  isExitUDPServerThread : Bool
  isRcvMatchedUDPMsg : Bool
  serverSocket : Int
  buffer : Buffer UDP_RCV_BUFFER_SIZE
  queue : List Datagram
  received : Option Datagram
  pc : Pc

inductive Action where
  | arrive (datagram : Datagram)
  | stopUDPServer
  | server

def rcvMsg (buffer : Buffer UDP_RCV_BUFFER_SIZE) : Bytes := cText buffer.bytes

/-- `recvfrom` on a non-blocking socket. -/
def receive (state : State) : State :=
  match state.queue with
  | [] => state
  | datagram :: rest =>
      { state with
        buffer := state.buffer.overwrite datagram.bytes
          (Nat.le_of_lt datagram.length_lt)
        queue := rest
        received := some datagram }

def inspect (state : State) : State :=
  { state with
    isRcvMatchedUDPMsg :=
      state.isRcvMatchedUDPMsg || isMatched (rcvMsg state.buffer)
    isExitUDPServerThread := true }

/-- The branch for other errors than would-block is never taken. -/
def startUDPServer (state : State) : Option State :=
  match state.pc with
  | .clearing =>
      some { state with buffer := state.buffer.clear, pc := .checking 0 }
  | .checking bytesReceived =>
      if bytesReceived ≤ 0 then
        if state.isExitUDPServerThread then
          some { state with pc := .stopReceiving }
        else some { state with pc := .sleeping }
      else some { state with pc := .inspecting }
  | .sleeping => some { state with pc := .clearing }
  | .stopReceiving => some { receive state with pc := .closing }
  | .inspecting => some { inspect state with pc := .closing }
  | .closing => some { state with serverSocket := -1, pc := .returned }
  | .returned => none

/-- The state in which `startUDPServer` is called on a fresh object. -/
def Initial (state : State) : Prop :=
  state.isRcvMatchedUDPMsg = false ∧ state.received = none ∧
    state.pc = .clearing

def tapUdpServer : TransitionSystem State Action where
  Initial := Initial
  step state
    | .arrive datagram =>
        some { state with queue := state.queue ++ [datagram] }
    | .stopUDPServer => some { state with isExitUDPServerThread := true }
    | .server => startUDPServer state

/-! ## What one step can do -/

inductive ServerStep (state : State) : State → Prop
  | clears : state.pc = .clearing →
      ServerStep state { state with
        buffer := state.buffer.clear, pc := .checking 0 }
  | stops {bytesReceived : Int} : state.pc = .checking bytesReceived →
      state.isExitUDPServerThread = true →
      ServerStep state { state with pc := .stopReceiving }
  | waits {bytesReceived : Int} : state.pc = .checking bytesReceived →
      ServerStep state { state with pc := .sleeping }
  | finds {bytesReceived : Int} : state.pc = .checking bytesReceived →
      0 < bytesReceived → ServerStep state { state with pc := .inspecting }
  | wakes : state.pc = .sleeping →
      ServerStep state { state with pc := .clearing }
  | receives : state.pc = .stopReceiving →
      ServerStep state { receive state with pc := .closing }
  | inspects : state.pc = .inspecting →
      ServerStep state { inspect state with pc := .closing }
  | closes : state.pc = .closing →
      ServerStep state { state with serverSocket := -1, pc := .returned }

theorem startUDPServer_cases {state next : State}
    (hstep : startUDPServer state = some next) : ServerStep state next := by
  unfold startUDPServer at hstep
  split at hstep
  case h_2 bytesReceived hpc =>
      split at hstep
      · split at hstep <;> cases hstep
        · exact .stops hpc (by assumption)
        · exact .waits hpc
      · cases hstep
        exact .finds hpc (by omega)
  all_goals cases hstep
  · exact .clears (by assumption)
  · exact .wakes (by assumption)
  · exact .receives (by assumption)
  · exact .inspects (by assumption)
  · exact .closes (by assumption)

/-! ## Detection -/

def Correct (state : State) : Prop :=
  state.isExitUDPServerThread = true ∧
    (state.isRcvMatchedUDPMsg = true ↔
      ∃ datagram ∈ state.received, MATCHED_TAP_STR <:+: datagram.bytes)

def HeadUnmatched (state : State) : Prop :=
  ∀ datagram ∈ state.queue.head?, ¬ MATCHED_TAP_STR <:+: datagram.bytes

/-- When the server calls `recvfrom`, it gets nothing that matches. -/
def ReceivesUnmatched (state : State) : Action → Prop
  | .server => state.pc = .stopReceiving → HeadUnmatched state
  | .arrive _ => True
  | .stopUDPServer => True

namespace Pc

def stopping : Pc → Prop
  | .stopReceiving | .closing | .returned => True
  | .clearing | .checking _ | .sleeping | .inspecting => False

def afterReceive : Pc → Prop
  | .closing | .returned => True
  | .clearing | .checking _ | .sleeping | .stopReceiving | .inspecting => False

def cleared : Pc → Prop
  | .checking _ | .stopReceiving => True
  | .clearing | .sleeping | .inspecting | .closing | .returned => False

end Pc

/-- No round of the loop gets as far as the inspection. -/
structure Uninspected (state : State) : Prop where
  unmatched : state.isRcvMatchedUDPMsg = false
  checking : ∀ bytesReceived, state.pc = .checking bytesReceived →
    bytesReceived = 0
  skipped : state.pc ≠ .inspecting
  stopped : state.pc.stopping → state.isExitUDPServerThread = true
  waiting : ¬ state.pc.afterReceive → state.received = none
  cleared : state.pc.cleared →
    state.buffer = Buffer.zeroed UDP_RCV_BUFFER_SIZE

theorem Uninspected.initial {state : State} (h : Initial state) :
    Uninspected state := by
  obtain ⟨hmatched, hreceived, hpc⟩ := h
  exact ⟨hmatched, by simp [hpc], by simp [hpc], by simp [hpc, Pc.stopping],
    fun _ => hreceived, by simp [hpc, Pc.cleared]⟩

theorem Uninspected.startUDPServer {state next : State}
    (h : Uninspected state) (hstep : startUDPServer state = some next) :
    Uninspected next := by
  have hstopped := h.stopped
  have hwaiting := h.waiting
  have hcleared := h.cleared
  cases startUDPServer_cases hstep with
  | clears hpc =>
      rw [hpc] at hwaiting
      exact ⟨h.unmatched, by simp, by simp, False.elim,
        fun _ => hwaiting not_false, fun _ => rfl⟩
  | stops hpc hexit =>
      rw [hpc] at hwaiting hcleared
      exact ⟨h.unmatched, by simp, by simp, fun _ => hexit,
        fun _ => hwaiting not_false, fun _ => hcleared trivial⟩
  | waits hpc =>
      rw [hpc] at hwaiting
      exact ⟨h.unmatched, by simp, by simp, False.elim,
        fun _ => hwaiting not_false, False.elim⟩
  | finds hpc hpos =>
      have hzero := h.checking _ hpc
      omega
  | wakes hpc =>
      rw [hpc] at hwaiting
      exact ⟨h.unmatched, by simp, by simp, False.elim,
        fun _ => hwaiting not_false, False.elim⟩
  | receives hpc =>
      rw [hpc] at hstopped
      refine ⟨?_, by simp, by simp, fun _ => ?_,
        fun hafter => absurd trivial hafter, False.elim⟩
      · rw [receive]
        split <;> exact h.unmatched
      · rw [receive]
        split <;> exact hstopped trivial
  | inspects hpc => exact absurd hpc h.skipped
  | closes hpc =>
      rw [hpc] at hstopped
      exact ⟨h.unmatched, by simp, by simp, fun _ => hstopped trivial,
        fun hafter => absurd trivial hafter, False.elim⟩

theorem Uninspected.step {state next : State} {action : Action}
    (h : Uninspected state)
    (hstep : tapUdpServer.step state action = some next) :
    Uninspected next := by
  cases action with
  | arrive datagram =>
      cases hstep
      exact ⟨h.unmatched, h.checking, h.skipped, h.stopped, h.waiting,
        h.cleared⟩
  | stopUDPServer =>
      cases hstep
      exact ⟨h.unmatched, h.checking, h.skipped, fun _ => rfl, h.waiting,
        h.cleared⟩
  | server => exact h.startUDPServer hstep

theorem uninspected_of_reachable {state : State}
    (h : tapUdpServer.Reachable state) : Uninspected state :=
  h.invariant Uninspected (fun _ => Uninspected.initial)
    (fun _ _ _ hinv hstep => hinv.step hstep)

/-! ## What is received -/

theorem receive_received {state : State} (hnone : state.received = none) :
    (receive state).received = state.queue.head? := by
  unfold receive
  split
  case h_1 hqueue => rw [hqueue, hnone, List.head?_nil]
  case h_2 datagram rest hqueue => rw [hqueue, List.head?_cons]

theorem startUDPServer_received {state next : State}
    (h : Uninspected state) (hstep : startUDPServer state = some next) :
    next.received =
      if state.pc = .stopReceiving then state.queue.head?
      else state.received := by
  have hwaiting := h.waiting
  cases startUDPServer_cases hstep with
  | receives hpc =>
      rw [hpc] at hwaiting
      rw [if_pos hpc]
      exact receive_received (hwaiting not_false)
  | inspects hpc => exact absurd hpc h.skipped
  | clears hpc | stops hpc | waits hpc | finds hpc | wakes hpc | closes hpc =>
      rw [if_neg (by simp [hpc])]

theorem startUDPServer_afterReceive {state next : State}
    (hafter : state.pc.afterReceive)
    (hstep : startUDPServer state = some next) :
    next.pc.afterReceive ∧ next.received = state.received := by
  cases startUDPServer_cases hstep with
  | closes hpc => exact ⟨trivial, rfl⟩
  | clears hpc | stops hpc | waits hpc | finds hpc | wakes hpc | receives hpc
  | inspects hpc =>
      rw [hpc] at hafter
      exact hafter.elim

/-- Nothing is received after the one `recvfrom`. -/
theorem run_afterReceive {start final : State} {actions : List Action}
    (hafter : start.pc.afterReceive)
    (hrun : tapUdpServer.run start actions = some final) :
    final.received = start.received := by
  have hboth : final.pc.afterReceive ∧ final.received = start.received := by
    refine TransitionSystem.run_induction (motive := fun _ state =>
      state.pc.afterReceive ∧ state.received = start.received)
      ⟨hafter, rfl⟩ ?_ hrun
    intro _ state action next ih hstep
    cases action with
    | arrive datagram =>
        cases hstep
        exact ih
    | stopUDPServer =>
        cases hstep
        exact ih
    | server =>
        obtain ⟨hnext, hreceived⟩ := startUDPServer_afterReceive ih.1 hstep
        exact ⟨hnext, hreceived.trans ih.2⟩
  exact hboth.2

theorem correct_iff {state : State} (h : Uninspected state)
    (hpc : state.pc = .returned) :
    Correct state ↔
      ∀ datagram ∈ state.received, ¬ MATCHED_TAP_STR <:+: datagram.bytes := by
  have hstopped : state.isExitUDPServerThread = true :=
    h.stopped (by simp [hpc, Pc.stopping])
  simp [Correct, hstopped, h.unmatched]

/-! ## When the detection is right -/

theorem received_unmatched {state : State}
    (h : tapUdpServer.ReachableBy ReceivesUnmatched state) :
    ∀ datagram ∈ state.received, ¬ MATCHED_TAP_STR <:+: datagram.bytes := by
  have hboth : Uninspected state ∧ ∀ datagram ∈ state.received,
      ¬ MATCHED_TAP_STR <:+: datagram.bytes := by
    refine h.invariant (fun state => Uninspected state ∧
      ∀ datagram ∈ state.received, ¬ MATCHED_TAP_STR <:+: datagram.bytes)
      ?_ ?_
    · intro start hstart
      refine ⟨Uninspected.initial hstart, ?_⟩
      simp [hstart.2.1]
    · intro state action next hinv hallowed hstep
      refine ⟨hinv.1.step hstep, ?_⟩
      cases action with
      | arrive datagram =>
          cases hstep
          exact hinv.2
      | stopUDPServer =>
          cases hstep
          exact hinv.2
      | server =>
          rw [startUDPServer_received hinv.1 hstep]
          split
          · rename_i hpc
            exact hallowed hpc
          · exact hinv.2
  exact hboth.2

theorem startUDPServer_correct_iff (state : State) :
    (tapUdpServer.ReachableBy ReceivesUnmatched state →
      state.pc = .returned → Correct state) ∧
    (tapUdpServer.Reachable state → state.pc = .stopReceiving →
      ∀ actions final,
        tapUdpServer.run state (.server :: actions) = some final →
        final.pc = .returned → (Correct final ↔ HeadUnmatched state)) := by
  constructor
  · intro hreach hpc
    exact (correct_iff (uninspected_of_reachable hreach.reachable) hpc).mpr
      (received_unmatched hreach)
  · intro hreach hpc actions final hrun hreturned
    have huninspected := uninspected_of_reachable hreach
    have hfinal := uninspected_of_reachable (hreach.run hrun)
    rw [TransitionSystem.run_cons, Option.bind_eq_some_iff] at hrun
    obtain ⟨next, hstep, hrest⟩ := hrun
    have hnext : next.received = state.queue.head? := by
      rw [startUDPServer_received huninspected hstep, if_pos hpc]
    have hafter : next.pc.afterReceive := by
      simp only [tapUdpServer, startUDPServer, hpc, Option.some.injEq] at hstep
      subst hstep
      trivial
    rw [correct_iff hfinal hreturned, run_afterReceive hafter hrest, hnext]
    rfl

/-- With the inspection that the stop path leaves out it would be right. -/
theorem inspect_receive_correct {state : State}
    (hreach : tapUdpServer.Reachable state) (hpc : state.pc = .stopReceiving) :
    Correct (inspect (receive state)) := by
  have h := uninspected_of_reachable hreach
  have hwaiting := h.waiting
  have hcleared := h.cleared
  rw [hpc] at hwaiting hcleared
  have hnone := hwaiting not_false
  have hbuffer := hcleared trivial
  refine ⟨rfl, ?_⟩
  cases hqueue : state.queue with
  | nil =>
      have htext : rcvMsg (receive state).buffer = [] := by
        simp only [rcvMsg, receive, hqueue, hbuffer]
        exact Buffer.cText_zeroed _
      have hempty : isMatched [] = false := by decide
      simp only [inspect, htext, hempty]
      simp [receive, hqueue, h.unmatched, hnone]
  | cons datagram rest =>
      have hbytes := Buffer.bytes_overwrite_zeroed datagram.length_lt
      have htext : rcvMsg (receive state).buffer = datagram.bytes := by
        simp only [rcvMsg, receive, hqueue, hbuffer]
        rw [hbytes, cText_append_zero datagram.zero_notMem]
      simp only [inspect, htext]
      simp [receive, hqueue, h.unmatched, isMatched]

def tapDatagram : Datagram := ⟨ascii "tap", by decide, by decide⟩

theorem startUDPServer_misses_tap :
    ∃ state, tapUdpServer.Reachable state ∧ state.pc = .returned ∧
      state.received = some tapDatagram ∧
      MATCHED_TAP_STR <:+: tapDatagram.bytes ∧
      state.isRcvMatchedUDPMsg = false ∧ ¬ Correct state := by
  let start : State := ⟨false, false, 3, Buffer.zeroed 1024, [], none, .clearing⟩
  have hinitial : tapUdpServer.Initial start := ⟨rfl, rfl, rfl⟩
  refine ⟨_, .of_run hinitial (rfl : tapUdpServer.run start
    [.arrive tapDatagram, .stopUDPServer, .server, .server, .server, .server] =
      some _), rfl, rfl, ⟨[], [], rfl⟩, rfl, ?_⟩
  intro hcorrect
  have hmatched := hcorrect.2.mpr ⟨tapDatagram, rfl, ⟨[], [], rfl⟩⟩
  cases hmatched

end CandCpp.Network.TapUdpServer
