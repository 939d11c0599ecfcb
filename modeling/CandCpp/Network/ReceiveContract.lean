import CandCpp.Network.EpollServers
import CandCpp.Network.PollingLoops

/-!
# What the receive loops do with a datagram

Two questions about the loops together.  Which datagrams make a loop write or
read outside its buffer?  And do the epoll servers put the same messages on
their queues?
-/

namespace CandCpp.Network

open CandCpp.Foundation

variable {Peer : Type}

/-! ## Staying within the buffer -/

/--
`recvfrom` may fill each buffer, so the loops that store a NUL behind what they
received need every datagram to be shorter than the buffer.  The loop that only
cleared its buffer is saved by a NUL among the bytes that fit.
-/
theorem receiveLoops_within_buffer_iff {workers : Nat} :
    (∀ buffer (outcomes : List (EpollOutcome Peer)),
      Completes (OneThreadPerQueue.udpServer
          ⟨buffer, OneThreadPerQueue.Dispatcher.initial (workers + 1)⟩
          outcomes) ↔
        ∀ payload ∈ receivedPayloads outcomes, payload.length < 4096) ∧
    (∀ buffer (outcomes : List (EpollOutcome Peer)),
      Completes (UdpServerLockFree.udpServer ⟨buffer, []⟩ outcomes) ↔
        ∀ payload ∈ receivedPayloads outcomes, payload.length < 1024) ∧
    (∀ buffer (inputs : List (UdpServerThread.Input Peer)),
      Completes (UdpServerThread.handleClient buffer inputs) ↔
        ∀ input ∈ reached UdpServerThread.leaves inputs,
          ∀ payload ∈ input.outcome.payload?,
            payload.length < 1024 ∨ 0 ∈ payload.take 1024) ∧
    ∀ buffer (outcomes : List (RecvOutcome Peer)),
      Completes (UdpClient.receiveResponse buffer outcomes) ↔
        ∀ outcome ∈ reached UdpClient.leaves outcomes,
          ∀ payload ∈ outcome.payload?, payload.length < 1024 := by
  refine ⟨?_, ?_, ?_, ?_⟩
  · intro buffer outcomes
    exact OneThreadPerQueue.completes_udpServer_iff _ (Nat.succ_pos workers)
      outcomes
  · intro buffer outcomes
    exact completes_textServer_iff ⟨buffer, []⟩ outcomes
  · exact UdpServerThread.completes_handleClient_iff
  · exact UdpClient.completes_receiveResponse_iff

/-- Datagrams that exactly fill a buffer, well below the largest UDP payload. -/
theorem receiveLoops_overflow :
    ¬ Completes (OneThreadPerQueue.udpServer
        ⟨Buffer.zeroed 4096, OneThreadPerQueue.Dispatcher.initial 1⟩
        [.ready [.serverSocket (.datagram () (List.replicate 4096 65))]]) ∧
    ¬ Completes (UdpServerLockFree.udpServer ⟨Buffer.zeroed 1024, []⟩
        [.ready [.serverSocket (.datagram () (List.replicate 1024 65))]]) ∧
    ¬ Completes (UdpServerThread.handleClient (Buffer.zeroed 1024)
        [⟨.datagram () (List.replicate 1024 65), false⟩]) ∧
    ¬ Completes (UdpClient.receiveResponse (Buffer.zeroed 1024)
        [.datagram () (List.replicate 1024 65)]) := by
  have hfull : ∀ size : Nat, ¬ (List.replicate size (65 : UInt8)).length < size := by
    intro size
    rw [List.length_replicate]
    exact Nat.lt_irrefl size
  refine ⟨?_, ?_, ?_, ?_⟩
  · intro hcompletes
    exact hfull 4096 ((OneThreadPerQueue.completes_udpServer_iff _
      Nat.zero_lt_one _).mp hcompletes _ (List.mem_singleton_self _))
  · intro hcompletes
    exact hfull 1024 ((completes_textServer_iff _ _).mp hcompletes _
      (List.mem_singleton_self _))
  · intro hcompletes
    rcases (UdpServerThread.completes_handleClient_iff _ _).mp hcompletes _
      (List.mem_singleton_self _) _ rfl with hlt | hzero
    · exact hfull 1024 hlt
    · rw [List.take_replicate, List.mem_replicate] at hzero
      exact absurd hzero.2 (by decide)
  · intro hcompletes
    exact hfull 1024 ((UdpClient.completes_receiveResponse_iff _ _).mp
      hcompletes _ (List.mem_singleton_self _) _ rfl)

/-! ## What the epoll servers put on their queues -/

/-- Whatever their buffers hold before, the three servers enqueue the received
payloads byte for byte; the third one has a single worker. -/
def EnqueuePayloads (outcomes : List (EpollOutcome Peer)) : Prop :=
  ∀ lockFree lockFreeToken perQueue,
    (UdpServerLockFree.udpServer ⟨lockFree, []⟩ outcomes).map (·.target) =
      .ok (receivedPayloads outcomes) ∧
    (UdpServerLockFreeToken.udpServer ⟨lockFreeToken, []⟩ outcomes).map
        (·.target) =
      .ok (receivedPayloads outcomes) ∧
    (OneThreadPerQueue.udpServer
        ⟨perQueue, OneThreadPerQueue.Dispatcher.initial 1⟩ outcomes).map
        (·.target.messageQueue 0) =
      .ok (receivedPayloads outcomes)

theorem map_cText_eq_iff (payloads : List Bytes) :
    payloads.map cText = payloads ↔ ∀ payload ∈ payloads, 0 ∉ payload := by
  induction payloads with
  | nil => simp
  | cons payload payloads ih =>
      simp only [List.map_cons, List.cons.injEq, List.forall_mem_cons, ih,
        cText_eq_self_iff]

theorem enqueuePayloads_iff (outcomes : List (EpollOutcome Peer))
    (hshort : ∀ payload ∈ receivedPayloads outcomes,
      payload.length ≤ 1023) :
    EnqueuePayloads outcomes ↔
      ∀ payload ∈ receivedPayloads outcomes, 0 ∉ payload := by
  have htext : ∀ buffer : Buffer 1024,
      (epollLoop messageOfCString enqueueMessage ⟨buffer, []⟩ outcomes).map
          LoopState.target =
        .ok ((receivedPayloads outcomes).map cText) := fun buffer =>
    textServer_queue buffer outcomes fun payload hmem =>
      Nat.lt_succ_of_le (hshort payload hmem)
  have hlength : ∀ buffer,
      (OneThreadPerQueue.udpServer
          ⟨buffer, OneThreadPerQueue.Dispatcher.initial 1⟩ outcomes).map
          (·.target.messageQueue 0) =
        .ok (receivedPayloads outcomes) := fun buffer =>
    OneThreadPerQueue.udpServer_queue_one buffer outcomes fun payload hmem =>
      Nat.lt_of_le_of_lt (hshort payload hmem) (by decide)
  rw [← map_cText_eq_iff]
  constructor
  · intro hagree
    have hqueue := (hagree (Buffer.zeroed _) (Buffer.zeroed _)
      (Buffer.zeroed _)).1
    exact Except.ok.inj ((htext _).symm.trans hqueue)
  · intro hnul lockFree lockFreeToken perQueue
    refine ⟨?_, ?_, hlength perQueue⟩
    · exact (htext lockFree).trans (by rw [hnul])
    · exact (htext lockFreeToken).trans (by rw [hnul])

theorem enqueuePayloads_text :
    EnqueuePayloads
      [EpollOutcome.ready [.serverSocket (.datagram () (ascii "Message 1"))],
        .ready [.serverSocket (.failed .eagain), .otherDescriptor,
          .serverSocket (.datagram () (ascii "Bye"))]] :=
  (enqueuePayloads_iff _ (by decide)).mpr (by decide)

/-- The text servers cut a payload off at its first NUL. -/
theorem not_enqueuePayloads_binary :
    ¬ EnqueuePayloads
      [EpollOutcome.ready [.serverSocket (.datagram () [8, 0, 18])]] := by
  intro hagree
  have hqueue := (hagree (Buffer.zeroed _) (Buffer.zeroed _)
    (Buffer.zeroed _)).1
  have htext := textServer_queue (Buffer.zeroed 1024)
    [EpollOutcome.ready [.serverSocket (.datagram () [8, 0, 18])]] (by decide)
  exact absurd (Except.ok.inj (htext.symm.trans hqueue)) (by decide)

end CandCpp.Network
