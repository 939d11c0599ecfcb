import CandCpp.Network.Dispatch

/-!
# The counters of udpServerLockFreeOneThreadPerQueueJson.cpp

`udp_server_msg_enqueue_cnt` counts the calls of `enqueue`, whatever they
return, and `printcnt` prints `udp_server_msg_rcv_cnt` on its line.  What is on
a queue is compared with both in every run, with any `enqueue` failing.
-/

namespace CandCpp.Network.OneThreadPerQueue

open CandCpp.Foundation

variable {Peer TraceWrapper : Type} {workers : Nat}
  {protobuf : Protobuf TraceWrapper}

def printcnt (workerIndex : Nat) (state : State workers) : List String :=
  ["\n\n\tprintcnt: work index: (" ++ toString workerIndex ++ ")",
    "\tprintcnt: UDP server PM",
    "\t\tudp_server_msg_rcv_cnt:" ++
      toString state.dispatcher.udpServerMsgRcvCnt.toNat,
    "\t\tudp_server_msg_enqueue_cnt:" ++
      toString state.dispatcher.udpServerMsgRcvCnt.toNat,
    "\tprintcnt: UDP worker PM"] ++
  List.ofFn fun index : Fin workers =>
    "\t\t work_index:" ++ toString index.val ++
      ". udp_worker_msg_denqueue_cnt:" ++
      toString (state.worker index).udpWorkerMsgDenqueueCnt.toNat

/-- The messages that were put on a queue, wherever they are now. -/
def State.placed (state : State workers) : Nat :=
  ∑ index, (state.dealtTo index).length

/-- Between two iterations of the receive loop. -/
def ServerPc.IterationEnd : ServerPc → Prop
  | .waiting | .scanning _ => True
  | .received _ _ | .counted _ _ | .enqueued _ | .enqueueCounted _
  | .faulted _ _ => False

structure Truthful (actions : List (Action Peer workers))
    (state : State workers) : Prop where
  enqueueCnt : state.dispatcher.udpServerMsgEnqueueCnt.toNat = state.placed
  lost : (state.dispatcher.udpServerMsgRcvCnt.toNat : Int) -
      state.dispatcher.udpServerMsgEnqueueCnt.toNat =
    (receivedDatagrams actions).length - state.placed
  printed : ∀ workerIndex, (printcnt workerIndex state)[3]? =
    some ("\t\tudp_server_msg_enqueue_cnt:" ++ toString state.placed)

/-! ## What the counters count -/

namespace ServerAction

@[simp] def placements : ServerAction Peer → Nat
  | .enqueue true => 1
  | .enqueue false | .epollWait _ | .nextEvent | .recvfrom _ | .countReceived
  | .countEnqueued | .advance => 0

end ServerAction

namespace Action

@[simp] def placements : Action Peer workers → Nat
  | .server action => action.placements
  | .worker _ _ => 0

end Action

def successfulEnqueues (actions : List (Action Peer workers)) : Nat :=
  (actions.map Action.placements).sum

@[simp] def ServerPc.enqueuePending : ServerPc → Nat
  | .enqueued _ => 1
  | .waiting | .scanning _ | .received _ _ | .counted _ _ | .enqueueCounted _
  | .faulted _ _ => 0

structure Tallied (received calls successes : Nat)
    (state : State workers) : Prop where
  received_eq : received = calls + state.pc.inHand.length
  rcvCnt : state.dispatcher.udpServerMsgRcvCnt =
    UInt64.ofNat (calls + state.pc.countedInHand)
  enqueueCnt : ∃ counted, calls = counted + state.pc.enqueuePending ∧
    state.dispatcher.udpServerMsgEnqueueCnt = UInt64.ofNat counted
  placed : state.placed = successes

theorem Tallied.initial (workers : Nat) :
    Tallied 0 0 0 (OneThreadPerQueue.initial workers) where
  received_eq := rfl
  rcvCnt := rfl
  enqueueCnt := ⟨0, rfl, rfl⟩
  placed := by simp [State.placed, OneThreadPerQueue.initial, State.dealtTo,
    Dispatcher.initial]

theorem placed_congr {state next : State workers}
    (hdealt : ∀ index, next.dealtTo index = state.dealtTo index) :
    next.placed = state.placed := by
  simp only [State.placed, hdealt]

theorem placed_place_true {state : State workers}
    (hindex : state.dispatcher.workerIndex < workers)
    (events : List Descriptor) (message : Bytes) :
    (place state events message true).placed = state.placed + 1 := by
  have hdealt := (place_true hindex events message).2
  have hgrow : ∀ index : Fin workers,
      ((place state events message true).dealtTo index).length =
        (state.dealtTo index).length +
          if index = ⟨state.dispatcher.workerIndex, hindex⟩ then 1 else 0 := by
    intro index
    rw [hdealt index, List.length_append]
    split <;> rfl
  simp only [State.placed, hgrow, Finset.sum_add_distrib, Finset.sum_ite_eq',
    Finset.mem_univ, if_true]

theorem Tallied.receive {received calls successes : Nat}
    {state : State workers} {events rest : List Descriptor}
    (h : Tallied received calls successes state)
    (hpc : state.pc = .scanning events) (outcome : RecvOutcome Peer)
    (hgood : ¬ (receive state rest outcome).pc.Faulted) :
    Tallied (received + (ServerAction.recvfrom outcome).payloads.length) calls
      successes (receive state rest outcome) := by
  have hreceived := h.received_eq
  have hrcvCnt := h.rcvCnt
  have hcalls := h.enqueueCnt
  rw [hpc] at hreceived hrcvCnt hcalls
  cases outcome with
  | failed errno => exact ⟨hreceived, hrcvCnt, hcalls, h.placed⟩
  | datagram peer payload =>
      simp only [OneThreadPerQueue.receive] at hgood ⊢
      split
      · exact ⟨congrArg (· + 1) hreceived, hrcvCnt, hcalls, h.placed⟩
      · rename_i fault hfault
        rw [hfault] at hgood
        exact absurd trivial hgood

theorem workerIndex_lt_of_place {state : State workers}
    {events : List Descriptor} {message : Bytes} {succeeds : Bool}
    (hgood : ¬ (place state events message succeeds).pc.Faulted) :
    state.dispatcher.workerIndex < workers := by
  by_contra hindex
  simp [place, Dispatcher.enqueue, hindex] at hgood

theorem Tallied.place {received calls successes : Nat}
    {state : State workers} {message : Bytes} {events : List Descriptor}
    {succeeds : Bool} (h : Tallied received calls successes state)
    (hpc : state.pc = .counted message events)
    (hgood : ¬ (place state events message succeeds).pc.Faulted) :
    Tallied received (calls + 1)
      (successes + (ServerAction.enqueue succeeds : ServerAction Peer).placements)
      (place state events message succeeds) := by
  have hindex := workerIndex_lt_of_place hgood
  have hreceived := h.received_eq
  have hrcvCnt := h.rcvCnt
  obtain ⟨counted, hcalls, henqueueCnt⟩ := h.enqueueCnt
  rw [hpc] at hreceived hrcvCnt hcalls
  cases succeeds with
  | false =>
      simp only [OneThreadPerQueue.place, Dispatcher.enqueue, hindex, dite_true]
      exact ⟨hreceived, hrcvCnt,
        ⟨counted, congrArg (· + 1) hcalls, henqueueCnt⟩, h.placed⟩
  | true =>
      have hplaced := placed_place_true hindex events message
      simp only [OneThreadPerQueue.place, Dispatcher.enqueue, hindex, dite_true,
        if_true] at hplaced ⊢
      refine ⟨hreceived, hrcvCnt,
        ⟨counted, congrArg (· + 1) hcalls, henqueueCnt⟩, ?_⟩
      rw [hplaced, h.placed]
      rfl

theorem Tallied.serverStep {received calls successes : Nat}
    {state next : State workers} {action : ServerAction Peer}
    (h : Tallied received calls successes state)
    (hstep : serverStep state action = some next) (hgood : ¬ next.pc.Faulted) :
    Tallied (received + action.payloads.length) (calls + action.enqueues)
      (successes + action.placements) next := by
  have hreceived := h.received_eq
  have hrcvCnt := h.rcvCnt
  obtain ⟨counted, hcalls, henqueueCnt⟩ := h.enqueueCnt
  cases serverStep_cases hstep with
  | epollFailed hpc => exact h
  | epollReady hpc | loopEnds hpc | skip hpc =>
      rw [hpc] at hreceived hrcvCnt hcalls
      exact ⟨hreceived, hrcvCnt, ⟨counted, hcalls, henqueueCnt⟩, h.placed⟩
  | receive hpc => exact h.receive hpc _ hgood
  | countReceived hpc =>
      rw [hpc] at hreceived hrcvCnt hcalls
      refine ⟨hreceived, ?_, ⟨counted, hcalls, henqueueCnt⟩, h.placed⟩
      simp only [Dispatcher.countReceived_udpServerMsgRcvCnt, hrcvCnt]
      simp [UInt64.ofNat_add]
  | place hpc => exact h.place hpc hgood
  | countEnqueued hpc =>
      rw [hpc] at hreceived hrcvCnt hcalls
      refine ⟨hreceived, hrcvCnt, ⟨counted + 1, hcalls, ?_⟩, h.placed⟩
      simp only [Dispatcher.countEnqueued_udpServerMsgEnqueueCnt, henqueueCnt]
      simp [UInt64.ofNat_add]
  | advance hpc =>
      rw [hpc] at hreceived hrcvCnt hcalls
      exact ⟨hreceived, hrcvCnt, ⟨counted, hcalls, henqueueCnt⟩, h.placed⟩

theorem workerStep_counters {state next : State workers}
    {index : Fin workers} {action : WorkerAction}
    (hstep : workerStep protobuf state index action = some next) :
    next.pc = state.pc ∧
      next.dispatcher.udpServerMsgRcvCnt =
        state.dispatcher.udpServerMsgRcvCnt ∧
      next.dispatcher.udpServerMsgEnqueueCnt =
        state.dispatcher.udpServerMsgEnqueueCnt := by
  cases workerStep_cases hstep with
  | tryDequeue hpc =>
      unfold tryDequeue
      split <;> exact ⟨rfl, rfl, rfl⟩
  | decode hpc => exact ⟨rfl, rfl, rfl⟩
  | countDequeued hpc => exact ⟨rfl, rfl, rfl⟩

theorem Tallied.workerStep {received calls successes : Nat}
    {state next : State workers} {index : Fin workers} {action : WorkerAction}
    (h : Tallied received calls successes state)
    (hstep : workerStep protobuf state index action = some next) :
    Tallied received calls successes next := by
  obtain ⟨hpc, hrcv, henqueue⟩ := workerStep_counters hstep
  have hplaced := placed_congr (dealtTo_workerStep hstep)
  refine ⟨?_, ?_, ?_, hplaced.trans h.placed⟩
  · rw [hpc, h.received_eq]
  · rw [hpc, hrcv, h.rcvCnt]
  · rw [hpc, henqueue]
    exact h.enqueueCnt

/-! ## Runs -/

theorem not_faulted_of_serverStep {state next : State workers}
    {action : ServerAction Peer}
    (hstep : OneThreadPerQueue.serverStep state action = some next) :
    ¬ state.pc.Faulted := by
  cases serverStep_cases hstep <;> simp_all

theorem tallied_of_run {actions : List (Action Peer workers)}
    {state : State workers}
    (hrun : (dispatchSystem protobuf Peer workers).run (initial workers)
      actions = some state)
    (hgood : ¬ state.pc.Faulted) :
    Tallied (receivedDatagrams actions).length (enqueueCalls actions)
      (successfulEnqueues actions) state := by
  revert hgood
  refine TransitionSystem.run_induction (motive := fun actions state =>
    ¬ state.pc.Faulted →
      Tallied (receivedDatagrams actions).length (enqueueCalls actions)
        (successfulEnqueues actions) state) ?_ ?_ hrun
  · exact fun _ => Tallied.initial workers
  · intro actions state action next ih hstep hgood
    cases action with
    | server action =>
        have htallied := ih (not_faulted_of_serverStep hstep)
        have hnext := htallied.serverStep hstep hgood
        simpa [receivedDatagrams, enqueueCalls, successfulEnqueues] using hnext
    | worker index action =>
        have hpc := (workerStep_counters hstep).1
        rw [hpc] at hgood
        have hnext := (ih hgood).workerStep hstep
        simpa [receivedDatagrams, enqueueCalls, successfulEnqueues] using hnext

theorem placements_le (action : Action Peer workers) :
    action.placements ≤ action.enqueues := by
  cases action with
  | worker index action => exact Nat.le_refl 0
  | server action =>
      cases action with
      | enqueue succeeds => cases succeeds <;> simp
      | _ => exact Nat.le_refl 0

theorem placements_eq_iff (action : Action Peer workers) :
    action.placements = action.enqueues ↔ action.Succeeds := by
  cases action with
  | worker index action => exact iff_of_true rfl trivial
  | server action =>
      cases action with
      | enqueue succeeds =>
          cases succeeds <;> simp [Action.Succeeds, ServerAction.Succeeds]
      | _ => exact iff_of_true rfl trivial

theorem successfulEnqueues_le (actions : List (Action Peer workers)) :
    successfulEnqueues actions ≤ enqueueCalls actions := by
  induction actions with
  | nil => exact Nat.le_refl 0
  | cons action actions ih =>
      have haction := placements_le action
      simp only [successfulEnqueues, enqueueCalls, List.map_cons,
        List.sum_cons] at ih ⊢
      omega

theorem successfulEnqueues_eq_iff (actions : List (Action Peer workers)) :
    successfulEnqueues actions = enqueueCalls actions ↔
      ∀ action ∈ actions, action.Succeeds := by
  induction actions with
  | nil => simp [successfulEnqueues, enqueueCalls]
  | cons action actions ih =>
      have haction := placements_le action
      have hactions := successfulEnqueues_le actions
      rw [List.forall_mem_cons, ← ih, ← placements_eq_iff]
      simp only [successfulEnqueues, enqueueCalls, List.map_cons,
        List.sum_cons] at hactions ⊢
      omega

theorem Tallied.atIterationEnd {received calls successes : Nat}
    {state : State workers} (h : Tallied received calls successes state)
    (hend : state.pc.IterationEnd) :
    received = calls ∧
      state.dispatcher.udpServerMsgRcvCnt = UInt64.ofNat calls ∧
      state.dispatcher.udpServerMsgEnqueueCnt = UInt64.ofNat calls := by
  have hreceived := h.received_eq
  have hrcvCnt := h.rcvCnt
  obtain ⟨counted, hcalls, henqueueCnt⟩ := h.enqueueCnt
  cases hpc : state.pc with
  | waiting | scanning events =>
      rw [hpc] at hreceived hrcvCnt hcalls
      exact ⟨hreceived, hrcvCnt, hcalls ▸ henqueueCnt⟩
  | received | counted | enqueued | enqueueCounted | faulted =>
      rw [hpc] at hend
      exact hend.elim

/-- The counters and the report are right as long as no `enqueue` has failed
and the counters have not wrapped. -/
theorem printcnt_truthful_iff (protobuf : Protobuf TraceWrapper)
    {actions : List (Action Peer workers)} {state : State workers}
    (hrun : (dispatchSystem protobuf Peer workers).run (initial workers)
      actions = some state)
    (hend : state.pc.IterationEnd) :
    Truthful actions state ↔
      (∀ action ∈ actions, action.Succeeds) ∧
        enqueueCalls actions < 2 ^ 64 := by
  have hgood : ¬ state.pc.Faulted := by
    cases hpc : state.pc <;> simp_all [ServerPc.IterationEnd]
  have htallied := tallied_of_run hrun hgood
  obtain ⟨hreceived, hrcvCnt, henqueueCnt⟩ := htallied.atIterationEnd hend
  rw [← successfulEnqueues_eq_iff]
  constructor
  · intro h
    have hcount := h.enqueueCnt
    have hlost := h.lost
    rw [henqueueCnt, UInt64.toNat_ofNat', htallied.placed] at hcount
    rw [hrcvCnt, henqueueCnt, htallied.placed, hreceived] at hlost
    omega
  · rintro ⟨hall, hbound⟩
    have hexact : (UInt64.ofNat (enqueueCalls actions)).toNat =
        enqueueCalls actions := by
      rw [UInt64.toNat_ofNat', Nat.mod_eq_of_lt hbound]
    have hplaced : state.placed = enqueueCalls actions :=
      htallied.placed.trans hall
    refine ⟨?_, ?_, fun workerIndex => ?_⟩
    · rw [henqueueCnt, hexact, hplaced]
    · rw [hrcvCnt, henqueueCnt, hplaced, hreceived]
      omega
    · rw [hplaced, ← hexact, ← hrcvCnt]
      rfl

def oneDatagram (succeeds : Bool) : List (Action Unit 1) :=
  [.server (.epollWait (.ok [.sockfd])), .server (.recvfrom (.datagram () [1])),
    .server .countReceived, .server (.enqueue succeeds),
    .server .countEnqueued, .server .advance]

/-- The worker has dequeued the first datagram when the second is enqueued. -/
def secondDatagram : List (Action Unit 1) :=
  [.server (.epollWait (.ok [.sockfd, .sockfd])),
    .server (.recvfrom (.datagram () [1])), .server .countReceived,
    .server (.enqueue true), .server .countEnqueued, .server .advance,
    .worker soleWorker .tryDequeue, .server (.recvfrom (.datagram () [2])),
    .server .countReceived, .server (.enqueue true), .server .countEnqueued,
    .server .advance, .worker soleWorker (.decode fun _ => 0),
    .worker soleWorker .countDequeued]

theorem printcnt_truthful_secondDatagram :
    ∃ state : State 1,
      (dispatchSystem wireFormat Unit 1).run (initial 1) secondDatagram =
        some state ∧
      (state.worker soleWorker).processed = [[1]] ∧
      state.dispatcher.messageQueue soleWorker = [[2]] ∧
      Truthful secondDatagram state := by
  refine ⟨_, rfl, rfl, rfl,
    (printcnt_truthful_iff wireFormat rfl ?_).mpr ⟨?_, by decide⟩⟩
  · trivial
  · simp [secondDatagram, Action.Succeeds, ServerAction.Succeeds]

theorem printcnt_counts_failedEnqueue :
    ∃ state : State 1,
      (dispatchSystem wireFormat Unit 1).run (initial 1) (oneDatagram false) =
        some state ∧
      state.pc.IterationEnd ∧
      state.dispatcher.udpServerMsgEnqueueCnt = 1 ∧ state.placed = 0 ∧
      ¬ Truthful (oneDatagram false) state := by
  refine ⟨_, rfl, trivial, rfl, rfl, fun h => ?_⟩
  have hcount := h.enqueueCnt
  revert hcount
  decide

end CandCpp.Network.OneThreadPerQueue
