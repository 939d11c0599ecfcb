import CandCpp.Network.PollingLoops
import Mathlib.Data.Nat.Find

/-!
# The bounded wait of udpClient.cpp

`main` counts its would-block results down from 1000.  Where the count has
reached zero it goes on with the next `recvfrom`, and only a response or
another error makes it leave the loop.  A response that fills the buffer makes
it store the NUL outside, which is no way of leaving.
-/

namespace CandCpp.Network.UdpClient

open CandCpp.Foundation

variable {Peer : Type}

def firstOutcomes (outcomes : Nat → RecvOutcome Peer) (calls : Nat) :
    List (RecvOutcome Peer) := (List.range calls).map outcomes

/-- The loop is left, with nothing stored outside the buffer, before it asks
for more outcomes than these. -/
def LeavesWithin (calls : Nat) (buffer : Buffer BUFFER_SIZE)
    (outcomes : Nat → RecvOutcome Peer) : Prop :=
  ∃ state, receiveResponse buffer (firstOutcomes outcomes calls) = .ok state ∧
    state.exit ≠ none

def FaultsWithin (calls : Nat) (buffer : Buffer BUFFER_SIZE)
    (outcomes : Nat → RecvOutcome Peer) : Prop :=
  ∃ fault,
    receiveResponse buffer (firstOutcomes outcomes calls) = .error fault

/-- At most 1000 would-block results, and one further call. -/
def Bounded (buffer : Buffer BUFFER_SIZE)
    (outcomes : Nat → RecvOutcome Peer) : Prop :=
  LeavesWithin 1001 buffer outcomes

def Ends (buffer : Buffer BUFFER_SIZE)
    (outcomes : Nat → RecvOutcome Peer) : Prop :=
  ∃ calls, LeavesWithin calls buffer outcomes

/-- The first call whose result is not a would-block. -/
structure FirstResult (outcomes : Nat → RecvOutcome Peer) (call : Nat) :
    Prop where
  blocked : ∀ earlier < call, outcomes earlier = .failed .eagain
  result : outcomes call ≠ .failed .eagain

/-- An error, or a response with room for the NUL behind it. -/
def FitsBuffer (outcome : RecvOutcome Peer) : Prop :=
  ∀ payload ∈ outcome.payload?, payload.length < BUFFER_SIZE

/-! ## One call -/

theorem iteration_eagain (state : State) :
    iteration (.failed .eagain : RecvOutcome Peer) state =
      .ok (.yield { state with cnt := state.cnt - 1 }) := by
  unfold iteration
  cases hcnt : state.cnt with
  | zero =>
      have hsame : { state with cnt := 0 } = state := by rw [← hcnt]
      simp [hsame]
  | succ cnt => simp

theorem iteration_exits {outcome : RecvOutcome Peer}
    (houtcome : outcome ≠ .failed .eagain) {state : State}
    {exit : ForInStep State} (hexit : iteration outcome state = .ok exit) :
    ∃ final, exit = .done final ∧ final.exit ≠ none := by
  cases outcome with
  | failed errno =>
      have herrno : errno ≠ .eagain := by simpa using houtcome
      simp only [iteration, if_neg herrno] at hexit
      cases hexit
      exact ⟨_, rfl, by simp⟩
  | datagram peer payload =>
      simp only [iteration, bind_eq_ok_iff] at hexit
      obtain ⟨filled, -, terminated, -, text, -, heq⟩ := hexit
      cases heq
      exact ⟨_, rfl, by simp⟩

/-! ## All calls -/

/-- The count goes down to zero and stays there. -/
theorem forIn_blocked {before : List (RecvOutcome Peer)}
    (hblocked : ∀ outcome ∈ before, outcome = .failed .eagain)
    (rest : List (RecvOutcome Peer)) (state : State) :
    forIn (before ++ rest) state iteration =
      (forIn rest { state with cnt := state.cnt - before.length } iteration :
        Except MemoryFault State) := by
  induction before generalizing state with
  | nil => rfl
  | cons outcome before ih =>
      rw [List.forall_mem_cons] at hblocked
      rw [List.cons_append, List.forIn_cons, hblocked.1, iteration_eagain,
        ok_bind]
      refine Eq.trans (ih hblocked.2 { state with cnt := state.cnt - 1 }) ?_
      have hcount : state.cnt - 1 - before.length =
          state.cnt - (before.length + 1) := by omega
      rw [List.length_cons, hcount]

theorem mem_firstOutcomes {outcomes : Nat → RecvOutcome Peer} {calls : Nat}
    (hblocked : ∀ call < calls, outcomes call = .failed .eagain) :
    ∀ outcome ∈ firstOutcomes outcomes calls, outcome = .failed .eagain := by
  simpa [firstOutcomes] using hblocked

theorem receiveResponse_of_blocked {outcomes : Nat → RecvOutcome Peer}
    {calls : Nat} (buffer : Buffer BUFFER_SIZE)
    (hblocked : ∀ call < calls, outcomes call = .failed .eagain) :
    ∃ state, receiveResponse buffer (firstOutcomes outcomes calls) =
      .ok state ∧ state.exit = none := by
  have hrun := forIn_blocked (mem_firstOutcomes hblocked) []
    ⟨buffer, 1000, none⟩
  rw [List.append_nil] at hrun
  exact ⟨_, hrun, rfl⟩

theorem firstOutcomes_split (outcomes : Nat → RecvOutcome Peer)
    {call calls : Nat} (hcall : call < calls) :
    ∃ later, firstOutcomes outcomes calls =
      firstOutcomes outcomes call ++ outcomes call :: later := by
  obtain ⟨extra, rfl⟩ := Nat.exists_eq_add_of_lt hcall
  refine ⟨(List.range extra).map fun index => outcomes (call + 1 + index), ?_⟩
  rw [firstOutcomes, Nat.add_right_comm, List.range_add, List.range_succ]
  simp [firstOutcomes, Function.comp_def]

/-- The loop does what its first result makes it do. -/
theorem receiveResponse_of_first {outcomes : Nat → RecvOutcome Peer}
    {call calls : Nat} (hfirst : FirstResult outcomes call)
    (hcall : call < calls) (buffer : Buffer BUFFER_SIZE) :
    ((∃ state, receiveResponse buffer (firstOutcomes outcomes calls) =
          .ok state ∧ state.exit ≠ none) ∧ FitsBuffer (outcomes call)) ∨
      ((∃ fault, receiveResponse buffer (firstOutcomes outcomes calls) =
          .error fault) ∧ ¬ FitsBuffer (outcomes call)) := by
  obtain ⟨later, hsplit⟩ := firstOutcomes_split outcomes hcall
  have hrun := forIn_blocked (mem_firstOutcomes hfirst.blocked)
    (outcomes call :: later) ⟨buffer, 1000, none⟩
  rw [← hsplit, List.forIn_cons] at hrun
  have hfits := completes_iteration_iff (outcomes call)
    { (⟨buffer, 1000, none⟩ : State) with
      cnt := 1000 - (firstOutcomes outcomes call).length }
  cases hexit : iteration (outcomes call)
      { (⟨buffer, 1000, none⟩ : State) with
        cnt := 1000 - (firstOutcomes outcomes call).length } with
  | error fault =>
      rw [hexit] at hrun hfits
      exact .inr ⟨⟨fault, hrun⟩, fun h => not_completes_error _ (hfits.mpr h)⟩
  | ok exit =>
      obtain ⟨final, rfl, hfinal⟩ := iteration_exits hfirst.result hexit
      rw [hexit] at hrun hfits
      exact .inl ⟨⟨final, hrun, hfinal⟩, hfits.mp (completes_ok _)⟩

theorem exists_firstResult {outcomes : Nat → RecvOutcome Peer} {calls : Nat}
    (h : ∃ call < calls, outcomes call ≠ .failed .eagain) :
    ∃ call < calls, FirstResult outcomes call := by
  classical
  have hsome : ∃ call, outcomes call ≠ .failed .eagain :=
    h.imp fun _ hcall => hcall.2
  obtain ⟨call, hlt, hcall⟩ := h
  refine ⟨Nat.find hsome, ?_, ?_, Nat.find_spec hsome⟩
  · exact Nat.lt_of_le_of_lt (Nat.find_min' hsome hcall) hlt
  · intro earlier hearlier
    exact not_not.mp (Nat.find_min hsome hearlier)

/-- Either nothing but would-blocks, or a first result that decides. -/
theorem receiveResponse_cases (calls : Nat) (buffer : Buffer BUFFER_SIZE)
    (outcomes : Nat → RecvOutcome Peer) :
    (∃ state, receiveResponse buffer (firstOutcomes outcomes calls) =
        .ok state ∧ state.exit = none) ∨
      ∃ call < calls, FirstResult outcomes call := by
  by_cases hblocked : ∀ call < calls, outcomes call = .failed .eagain
  · exact .inl (receiveResponse_of_blocked buffer hblocked)
  · push Not at hblocked
    exact .inr (exists_firstResult hblocked)

theorem leavesWithin_iff (calls : Nat) (buffer : Buffer BUFFER_SIZE)
    (outcomes : Nat → RecvOutcome Peer) :
    LeavesWithin calls buffer outcomes ↔
      ∃ call < calls, FirstResult outcomes call ∧
        FitsBuffer (outcomes call) := by
  constructor
  · rintro ⟨state, hrun, hexit⟩
    rcases receiveResponse_cases calls buffer outcomes with
      ⟨waiting, hwaiting, hnone⟩ | ⟨call, hcall, hfirst⟩
    · rw [hrun] at hwaiting
      cases hwaiting
      exact absurd hnone hexit
    · rcases receiveResponse_of_first hfirst hcall buffer with
        ⟨-, hfits⟩ | ⟨⟨fault, hfault⟩, -⟩
      · exact ⟨call, hcall, hfirst, hfits⟩
      · rw [hrun] at hfault
        cases hfault
  · rintro ⟨call, hcall, hfirst, hfits⟩
    rcases receiveResponse_of_first hfirst hcall buffer with
      ⟨hleaves, -⟩ | ⟨-, hnot⟩
    · exact hleaves
    · exact absurd hfits hnot

theorem faultsWithin_iff (calls : Nat) (buffer : Buffer BUFFER_SIZE)
    (outcomes : Nat → RecvOutcome Peer) :
    FaultsWithin calls buffer outcomes ↔
      ∃ call < calls, FirstResult outcomes call ∧
        ¬ FitsBuffer (outcomes call) := by
  constructor
  · rintro ⟨fault, hrun⟩
    rcases receiveResponse_cases calls buffer outcomes with
      ⟨waiting, hwaiting, -⟩ | ⟨call, hcall, hfirst⟩
    · rw [hrun] at hwaiting
      cases hwaiting
    · rcases receiveResponse_of_first hfirst hcall buffer with
        ⟨⟨state, hstate, -⟩, -⟩ | ⟨-, hnot⟩
      · rw [hrun] at hstate
        cases hstate
      · exact ⟨call, hcall, hfirst, hnot⟩
  · rintro ⟨call, hcall, hfirst, hnot⟩
    rcases receiveResponse_of_first hfirst hcall buffer with
      ⟨-, hfits⟩ | ⟨hfaults, -⟩
    · exact absurd hfits hnot
    · exact hfaults

theorem receiveResponse_bounded_iff (buffer : Buffer BUFFER_SIZE)
    (outcomes : Nat → RecvOutcome Peer) :
    (Bounded buffer outcomes ↔
      ∃ call ≤ 1000, FirstResult outcomes call ∧
        FitsBuffer (outcomes call)) ∧
    (Ends buffer outcomes ↔
      ∃ call, FirstResult outcomes call ∧ FitsBuffer (outcomes call)) ∧
    (FaultsWithin 1001 buffer outcomes ↔
      ∃ call ≤ 1000, FirstResult outcomes call ∧
        ¬ FitsBuffer (outcomes call)) := by
  refine ⟨?_, ?_, ?_⟩
  · rw [Bounded, leavesWithin_iff]
    simp only [Nat.lt_succ_iff]
  · simp only [Ends, leavesWithin_iff]
    constructor
    · rintro ⟨_, call, -, hcall⟩
      exact ⟨call, hcall⟩
    · rintro ⟨call, hcall⟩
      exact ⟨call + 1, call, Nat.lt_succ_self call, hcall⟩
  · rw [faultsWithin_iff]
    simp only [Nat.lt_succ_iff]

/-- The server that never answers. -/
theorem receiveResponse_never_ends :
    ¬ Bounded (Buffer.zeroed BUFFER_SIZE)
        (fun _ => (.failed .eagain : RecvOutcome Unit)) ∧
      ¬ Ends (Buffer.zeroed BUFFER_SIZE)
        (fun _ => (.failed .eagain : RecvOutcome Unit)) := by
  have hwaits : ∀ calls, ¬ LeavesWithin calls (Buffer.zeroed BUFFER_SIZE)
      (fun _ => (.failed .eagain : RecvOutcome Unit)) := by
    intro calls hleaves
    obtain ⟨call, -, hfirst, -⟩ := (leavesWithin_iff _ _ _).mp hleaves
    exact hfirst.result rfl
  exact ⟨hwaits 1001, fun ⟨calls, hends⟩ => hwaits calls hends⟩

end CandCpp.Network.UdpClient
