import CandCpp.Foundation.Tables
import Mathlib.Data.List.TakeWhile

/-!
# How udpServer.cpp and udpServer2.cpp select their socket

Both go through the addresses of `getaddrinfo` until `socket` and `bind`
succeed for one of them.  A candidate is such an address together with what the
two calls answer when they are made for it.  The kernel gives `socket` a
descriptor that the process does not have open.
-/

namespace CandCpp.Network.SocketSelection

open CandCpp.Foundation

variable {Address : Type}

structure Candidate (Address : Type) where
  address : Address
  socketSucceeds : Bool
  bindSucceeds : Bool

namespace Candidate

def works (candidate : Candidate Address) : Bool :=
  candidate.socketSucceeds && candidate.bindSucceeds

end Candidate

inductive Descriptor (Address : Type) where
  | other
  | socket (bound : Option Address)
  deriving DecidableEq, Repr

abbrev Kernel (Address : Type) := Supply Nat (Descriptor Address)

/-- `sfd` has no value before the first `socket`. -/
structure State (Address : Type) where
  sfd : Option Int
  descriptors : Table Nat (Descriptor Address)
  tried : List Address

/-- The loop, with the rest of the list that `rp` points to at its end. -/
def selectSocket (kernel : Kernel Address) :
    List (Candidate Address) → State Address →
      List (Candidate Address) × State Address
  | [], state => ([], state)
  | rp :: aiNext, state =>
      let tried := state.tried ++ [rp.address]
      if rp.socketSucceeds then
        let sfd := kernel.fresh state.tried.length state.descriptors
        let opened := state.descriptors.insert sfd (.socket none)
        if rp.bindSucceeds then
          let bound := opened.insert sfd (.socket (some rp.address))
          (rp :: aiNext, { sfd := some sfd, descriptors := bound, tried })
        else
          selectSocket kernel aiNext
            { sfd := some sfd, descriptors := opened.erase sfd, tried }
      else selectSocket kernel aiNext { state with sfd := some (-1), tried }

/-- A call behind the loop. -/
inductive Call (Address : Type) where
  | exitCouldNotBind
  | freeaddrinfo (result : List (Candidate Address))
  | recvfrom (sfd : Option Int)

structure Selection (Address : Type) where
  rp : List (Candidate Address)
  state : State Address
  calls : List (Call Address)

/-- Up to the exit, or to the first `recvfrom`. -/
def main (kernel : Kernel Address) (result : List (Candidate Address))
    (descriptors : Table Nat (Descriptor Address)) : Selection Address :=
  let (rp, state) := selectSocket kernel result ⟨none, descriptors, []⟩
  { rp, state
    calls :=
      if rp.isEmpty then [.exitCouldNotBind]
      else [.freeaddrinfo result, .recvfrom state.sfd] }

/-- The first working address is taken and nothing else stays open. -/
def SelectsFirst (result : List (Candidate Address))
    (descriptors : Table Nat (Descriptor Address))
    (selection : Selection Address) : Prop :=
  match result.dropWhile fun candidate => ¬ candidate.works with
  | [] =>
      selection.rp = [] ∧ selection.calls = [.exitCouldNotBind] ∧
        selection.state.descriptors = descriptors ∧
        selection.state.tried = result.map Candidate.address
  | chosen :: later =>
      ∃ sfd : Nat, sfd ∉ descriptors ∧
        selection.rp = chosen :: later ∧
        selection.calls = [.freeaddrinfo result, .recvfrom (some sfd)] ∧
        selection.state.sfd = some (sfd : Int) ∧
        selection.state.descriptors =
          descriptors.insert sfd (.socket (some chosen.address)) ∧
        selection.state.tried =
          (result.takeWhile fun candidate => ¬ candidate.works).map
            Candidate.address ++ [chosen.address]

/-! ## The loop -/

theorem selectSocket_of_not_works (kernel : Kernel Address)
    {rp : Candidate Address} (hfails : ¬ rp.works)
    (aiNext : List (Candidate Address)) (state : State Address) :
    ∃ sfd, selectSocket kernel (rp :: aiNext) state =
      selectSocket kernel aiNext
        ⟨sfd, state.descriptors, state.tried ++ [rp.address]⟩ := by
  cases hsocket : rp.socketSucceeds with
  | false =>
      refine ⟨some (-1), ?_⟩
      simp [selectSocket, hsocket]
  | true =>
      have hbind : rp.bindSucceeds = false := by
        simpa [Candidate.works, hsocket] using hfails
      have hfresh := kernel.fresh_notMem state.tried.length state.descriptors
      have hclosed := erase_insert_of_notMem hfresh
        (Descriptor.socket (none : Option Address))
      refine ⟨some (kernel.fresh state.tried.length state.descriptors), ?_⟩
      simp [selectSocket, hsocket, hbind, hclosed]

theorem selectSocket_of_works (kernel : Kernel Address)
    {rp : Candidate Address} (hworks : rp.works)
    (aiNext : List (Candidate Address)) (state : State Address) :
    ∃ sfd : Nat, sfd ∉ state.descriptors ∧
      selectSocket kernel (rp :: aiNext) state =
        (rp :: aiNext,
          ⟨some sfd, state.descriptors.insert sfd (.socket (some rp.address)),
            state.tried ++ [rp.address]⟩) := by
  have hboth : rp.socketSucceeds = true ∧ rp.bindSucceeds = true := by
    simpa [Candidate.works] using hworks
  refine ⟨_, kernel.fresh_notMem state.tried.length state.descriptors, ?_⟩
  simp [selectSocket, hboth, Finmap.insert_insert]

theorem selectSocket_append (kernel : Kernel Address)
    {before : List (Candidate Address)}
    (hfail : ∀ candidate ∈ before, ¬ candidate.works)
    (rest : List (Candidate Address)) (state : State Address) :
    ∃ sfd, selectSocket kernel (before ++ rest) state =
      selectSocket kernel rest
        ⟨sfd, state.descriptors,
          state.tried ++ before.map Candidate.address⟩ := by
  induction before generalizing state with
  | nil => exact ⟨state.sfd, by simp⟩
  | cons candidate before ih =>
      have hhead := hfail candidate List.mem_cons_self
      have htail := fun other hother =>
        hfail other (List.mem_cons_of_mem candidate hother)
      obtain ⟨first, hfirst⟩ :=
        selectSocket_of_not_works kernel hhead (before ++ rest) state
      obtain ⟨sfd, hrest⟩ := ih htail
        ⟨first, state.descriptors, state.tried ++ [candidate.address]⟩
      exact ⟨sfd, by simpa using hfirst.trans hrest⟩

theorem main_selectsFirst (kernel : Kernel Address)
    (result : List (Candidate Address))
    (descriptors : Table Nat (Descriptor Address)) :
    SelectsFirst result descriptors (main kernel result descriptors) := by
  have hfail : ∀ candidate ∈ result.takeWhile fun candidate =>
      ¬ candidate.works, ¬ candidate.works := by
    intro candidate hcandidate
    simpa using List.mem_takeWhile_imp hcandidate
  have hsplit := List.takeWhile_append_dropWhile
    (p := fun candidate : Candidate Address => ¬ candidate.works) (l := result)
  obtain ⟨last, hloop⟩ := selectSocket_append kernel hfail
    (result.dropWhile fun candidate => ¬ candidate.works) ⟨none, descriptors, []⟩
  rw [hsplit] at hloop
  unfold SelectsFirst
  split
  · rename_i hnone
    rw [hnone, List.append_nil] at hsplit
    rw [hnone, hsplit] at hloop
    simp [main, hloop, selectSocket]
  · rename_i chosen later hsome
    have hworks : chosen.works := by
      have hhead := List.head?_dropWhile_not
        (fun candidate : Candidate Address => ¬ candidate.works) result
      rw [hsome] at hhead
      simpa using hhead
    obtain ⟨sfd, hfresh, hchosen⟩ := selectSocket_of_works kernel hworks later
      ⟨last, descriptors, [] ++ (result.takeWhile fun candidate =>
        ¬ candidate.works).map Candidate.address⟩
    rw [hsome, hchosen] at hloop
    refine ⟨sfd, hfresh, ?_⟩
    simp [main, hloop]

end CandCpp.Network.SocketSelection

/-! ## The two servers -/

namespace CandCpp.Network

open CandCpp.Foundation

variable {Address : Type}

def UdpServer.bindSocket (kernel : SocketSelection.Kernel Address)
    (result : List (SocketSelection.Candidate Address))
    (descriptors : Table Nat (SocketSelection.Descriptor Address)) :
    SocketSelection.Selection Address :=
  SocketSelection.main kernel result descriptors

def UdpServer2.bindSocket (kernel : SocketSelection.Kernel Address)
    (result : List (SocketSelection.Candidate Address))
    (descriptors : Table Nat (SocketSelection.Descriptor Address)) :
    SocketSelection.Selection Address :=
  SocketSelection.main kernel result descriptors

theorem udpServers_selectFirst (kernel : SocketSelection.Kernel Address)
    (result : List (SocketSelection.Candidate Address))
    (descriptors : Table Nat (SocketSelection.Descriptor Address)) :
    SocketSelection.SelectsFirst result descriptors
        (UdpServer.bindSocket kernel result descriptors) ∧
      SocketSelection.SelectsFirst result descriptors
        (UdpServer2.bindSocket kernel result descriptors) :=
  ⟨SocketSelection.main_selectsFirst kernel result descriptors,
    SocketSelection.main_selectsFirst kernel result descriptors⟩

end CandCpp.Network
