import CandCpp.Foundation.Tables
import CandCpp.Network.TapUdpServer

/-!
# The descriptors of udpServerThreadClass.cpp

One `TapUdpServer` in a process whose other code opens and closes descriptors
of its own.  `initUDPServer` and `startUDPServer` are called one after the
other; `stopUDPServer` may be called at any time.  A descriptor is open for the
code that opened it, and `closes` records for whom it was open, if it was, at
each `close` that the object makes.
-/

namespace CandCpp.Network.TapUdpServer

open CandCpp.Foundation

inductive Owner where
  | initUDPServer
  | otherCode
  deriving DecidableEq, Repr

structure Process where
  server : State
  descriptors : Table Nat Owner
  closes : List (Option Owner)
  initResult : Option Bool

/-- What the calls of `initUDPServer` return, as far as they are made; a
`socket` that fails returns -1. -/
structure InitCalls where
  socket : Option Nat
  getFlags : Int
  setFlags : Int
  inetPton : Int
  bind : Int

inductive Activity where
  | initUDPServer (calls : InitCalls)
  | startUDPServer
  | stopUDPServer
  | server
  | arrive (datagram : Datagram)
  | openOther (descriptor : Nat)
  | closeOther (descriptor : Nat)

namespace Process

def ownerOf (process : Process) (descriptor : Int) : Option Owner :=
  descriptor.toNat?.bind fun number => process.descriptors.lookup number

/-- Nothing is closed by the number of no open descriptor. -/
def close (process : Process) (descriptor : Int) : Process :=
  { process with
    descriptors :=
      match descriptor.toNat? with
      | some number => process.descriptors.erase number
      | none => process.descriptors
    closes := process.closes ++ [process.ownerOf descriptor] }

def failInit (process : Process) (descriptor : Int) : Process :=
  { process.close descriptor with initResult := some false }

def initUDPServer (process : Process) (calls : InitCalls) : Process :=
  match calls.socket with
  | none =>
      { process with
        server := { process.server with serverSocket := -1, queue := [] }
        initResult := some false }
  | some descriptor =>
      let opened := { process with
        server := { process.server with
          serverSocket := descriptor, queue := [] }
        descriptors := process.descriptors.insert descriptor .initUDPServer }
      if calls.getFlags < 0 ∨ calls.setFlags < 0 then
        opened.failInit descriptor
      else if calls.inetPton ≤ 0 then opened.failInit descriptor
      else if calls.bind < 0 then opened.failInit descriptor
      else { opened with initResult := some true }

/-- The next step of a running `startUDPServer`. -/
def serverStep (process : Process) : Option Process :=
  (TapUdpServer.startUDPServer process.server).map fun server =>
    if process.server.pc = .closing then
      { process.close process.server.serverSocket with
        server := { server with queue := [] }
        initResult := none }
    else { process with server, initResult := none }

def Initial (process : Process) : Prop :=
  process.server.isExitUDPServerThread = false ∧
    process.server.isRcvMatchedUDPMsg = false ∧
    process.server.serverSocket = -1 ∧ process.server.pc = .returned ∧
    (∀ descriptor, process.descriptors.lookup descriptor ≠
      some .initUDPServer) ∧
    process.closes = [] ∧ process.initResult = none

/-- A number that the kernel returns is one that is not in use. -/
def step (process : Process) : Activity → Option Process
  | .initUDPServer calls =>
      if process.server.pc = .returned ∧
          ∀ descriptor ∈ calls.socket, descriptor ∉ process.descriptors then
        some (process.initUDPServer calls)
      else none
  | .startUDPServer =>
      if process.server.pc = .returned then
        some { process with
          server := { process.server with
            buffer := Buffer.zeroed UDP_RCV_BUFFER_SIZE
            received := none
            pc := .clearing }
          initResult := none }
      else none
  | .stopUDPServer =>
      some { process with
        server := { process.server with isExitUDPServerThread := true }
        initResult := none }
  | .server => process.serverStep
  | .arrive datagram =>
      if process.ownerOf process.server.serverSocket = some .initUDPServer then
        some { process with
          server := { process.server with
            queue := process.server.queue ++ [datagram] }
          initResult := none }
      else none
  | .openOther descriptor =>
      if descriptor ∉ process.descriptors then
        some { process with
          descriptors := process.descriptors.insert descriptor .otherCode
          initResult := none }
      else none
  | .closeOther descriptor =>
      if process.descriptors.lookup descriptor = some .otherCode then
        some { process with
          descriptors := process.descriptors.erase descriptor
          initResult := none }
      else none

end Process

def processSystem : TransitionSystem Process Activity where
  Initial := Process.Initial
  step := Process.step

/-! ## Ownership -/

structure Owns (process : Process) : Prop where
  socket : process.server.serverSocket = -1 ∨
    process.ownerOf process.server.serverSocket = some .initUDPServer
  closed : ∀ found ∈ process.closes, found = some .initUDPServer
  failed : process.initResult = some false →
    process.server.serverSocket = -1 ∧
      ∀ descriptor, process.descriptors.lookup descriptor ≠
        some .initUDPServer
  kept : ∀ descriptor : Nat,
    process.descriptors.lookup descriptor = some .initUDPServer →
      process.server.serverSocket = descriptor

namespace InitCalls

def Succeed (calls : InitCalls) : Prop :=
  0 ≤ calls.getFlags ∧ 0 ≤ calls.setFlags ∧ 0 < calls.inetPton ∧
    0 ≤ calls.bind

end InitCalls

/-- `initUDPServer` is called without a socket and fails at `socket` if at all,
and `startUDPServer` has a socket to close. -/
def Keeps (process : Process) : Activity → Prop
  | .initUDPServer calls =>
      process.server.serverSocket = -1 ∧
        (calls.socket = none ∨ calls.Succeed)
  | .server =>
      process.server.pc = .closing → process.server.serverSocket ≠ -1
  | .startUDPServer | .stopUDPServer | .arrive _ | .openOther _
  | .closeOther _ => True

/-! ## One step -/

theorem ownerOf_natCast (process : Process) (descriptor : Nat) :
    process.ownerOf descriptor = process.descriptors.lookup descriptor := rfl

@[simp] theorem toNat?_natCast (number : Nat) :
    (number : Int).toNat? = some number := rfl

theorem ownerOf_eq_some {process : Process} {descriptor : Int} {owner : Owner}
    (h : process.ownerOf descriptor = some owner) :
    ∃ number : Nat, descriptor = number ∧
      process.descriptors.lookup number = some owner := by
  obtain ⟨number, hnumber, hlookup⟩ := Option.bind_eq_some_iff.mp h
  exact ⟨number, Int.mem_toNat?.mp hnumber, hlookup⟩

theorem Owns.holds {process : Process} (h : Owns process)
    (hsocket : process.server.serverSocket ≠ -1) :
    ∃ number : Nat, process.server.serverSocket = number ∧
      process.descriptors.lookup number = some .initUDPServer :=
  ownerOf_eq_some (h.socket.resolve_left hsocket)

theorem Owns.initial {process : Process} (h : Process.Initial process) :
    Owns process := by
  obtain ⟨-, -, hsocket, -, hnone, hcloses, hresult⟩ := h
  exact ⟨.inl hsocket, by simp [hcloses], by simp [hresult],
    fun descriptor hdescriptor => absurd hdescriptor (hnone descriptor)⟩

/-- A step that changes nothing the object owns. -/
theorem Owns.congr {process next : Process} (h : Owns process)
    (hsocket : next.server.serverSocket = process.server.serverSocket)
    (hcloses : next.closes = process.closes)
    (hresult : next.initResult = none)
    (hlookup : ∀ descriptor,
      next.descriptors.lookup descriptor = some .initUDPServer ↔
        process.descriptors.lookup descriptor = some .initUDPServer) :
    Owns next where
  socket := by
    by_cases hnone : process.server.serverSocket = -1
    · exact .inl (hsocket.trans hnone)
    · obtain ⟨number, hnumber, howner⟩ := h.holds hnone
      right
      rw [hsocket, hnumber, ownerOf_natCast, hlookup]
      exact howner
  closed := by
    rw [hcloses]
    exact h.closed
  failed hfalse := by simp [hresult] at hfalse
  kept descriptor hdescriptor := by
    rw [hsocket]
    exact h.kept descriptor ((hlookup descriptor).mp hdescriptor)

theorem initUDPServer_some (process : Process) {calls : InitCalls}
    {descriptor : Nat} (hsocket : calls.socket = some descriptor)
    (hfresh : descriptor ∉ process.descriptors) :
    (calls.Succeed ∧ process.initUDPServer calls =
      { process with
        server := { process.server with
          serverSocket := descriptor, queue := [] }
        descriptors := process.descriptors.insert descriptor .initUDPServer
        initResult := some true }) ∨
    (¬ calls.Succeed ∧ process.initUDPServer calls =
      { process with
        server := { process.server with
          serverSocket := descriptor, queue := [] }
        closes := process.closes ++ [some .initUDPServer]
        initResult := some false }) := by
  have hfail : ({ process with
      server := { process.server with serverSocket := descriptor, queue := [] }
      descriptors := process.descriptors.insert descriptor .initUDPServer } :
        Process).failInit descriptor =
      { process with
        server := { process.server with
          serverSocket := descriptor, queue := [] }
        closes := process.closes ++ [some .initUDPServer]
        initResult := some false } := by
    have hclosed := erase_insert_of_notMem hfresh Owner.initUDPServer
    simp [Process.failInit, Process.close, ownerOf_natCast, hclosed]
  unfold Process.initUDPServer
  simp only [hsocket, hfail]
  by_cases hflags : calls.getFlags < 0 ∨ calls.setFlags < 0
  · right
    rw [if_pos hflags]
    exact ⟨fun h => by have := h.1; have := h.2.1; omega, rfl⟩
  · rw [if_neg hflags]
    by_cases hpton : calls.inetPton ≤ 0
    · right
      rw [if_pos hpton]
      exact ⟨fun h => by have := h.2.2.1; omega, rfl⟩
    · rw [if_neg hpton]
      by_cases hbind : calls.bind < 0
      · right
        rw [if_pos hbind]
        exact ⟨fun h => by have := h.2.2.2; omega, rfl⟩
      · left
        rw [if_neg hbind]
        exact ⟨⟨by omega, by omega, by omega, by omega⟩, rfl⟩

theorem Owns.none_of_unset {process : Process} (h : Owns process)
    (hunset : process.server.serverSocket = -1) (descriptor : Nat) :
    process.descriptors.lookup descriptor ≠ some .initUDPServer := by
  intro hdescriptor
  have hkept := h.kept descriptor hdescriptor
  omega

/-- A socket that the field still names is lost when the field is written. -/
theorem Owns.unset_of_kept {process : Process} {server : State}
    {descriptors : Table Nat Owner} (h : Owns process)
    (hnew : ∀ descriptor : Nat, server.serverSocket = descriptor →
      descriptor ∉ process.descriptors)
    (hold : ∀ descriptor ∈ process.descriptors,
      descriptors.lookup descriptor = process.descriptors.lookup descriptor)
    (hkept : ∀ descriptor : Nat,
      descriptors.lookup descriptor = some .initUDPServer →
        server.serverSocket = descriptor) :
    process.server.serverSocket = -1 := by
  by_contra hset
  obtain ⟨number, -, howner⟩ := h.holds hset
  have hmem : number ∈ process.descriptors := Finmap.mem_of_lookup_eq_some howner
  have hsame := hkept number ((hold number hmem).trans howner)
  exact hnew number hsame hmem

theorem owns_initUDPServer_iff {process : Process} (h : Owns process)
    {calls : InitCalls}
    (hfresh : ∀ descriptor ∈ calls.socket, descriptor ∉ process.descriptors) :
    Owns (process.initUDPServer calls) ↔
      process.server.serverSocket = -1 ∧
        (calls.socket = none ∨ calls.Succeed) := by
  cases hsocket : calls.socket with
  | none =>
      simp only [Process.initUDPServer, hsocket]
      constructor
      · intro hnext
        refine ⟨h.unset_of_kept ?_ (fun _ _ => rfl) hnext.kept, .inl trivial⟩
        intro descriptor hsame
        simp at hsame
      · rintro ⟨hunset, -⟩
        have hnone := h.none_of_unset hunset
        exact ⟨.inl rfl, h.closed, fun _ => ⟨rfl, hnone⟩,
          fun descriptor howner => absurd howner (hnone descriptor)⟩
  | some descriptor =>
      have hnew : descriptor ∉ process.descriptors :=
        hfresh descriptor hsocket
      obtain ⟨hsucceed, heq⟩ | ⟨hfails, heq⟩ :=
        initUDPServer_some process hsocket hnew
      · rw [heq]
        constructor
        · intro hnext
          refine ⟨h.unset_of_kept ?_ ?_ hnext.kept, .inr hsucceed⟩
          · intro other hsame
            have hother : descriptor = other := Int.ofNat_inj.mp hsame
            rwa [← hother]
          · intro other hother
            have hne : other ≠ descriptor := ne_of_mem_of_not_mem hother hnew
            exact lookup_insert_of_ne _ _ hne
        · rintro ⟨hunset, -⟩
          refine ⟨.inr ?_, h.closed, by simp, ?_⟩
          · exact Finmap.lookup_insert _
          · intro other hother
            rw [lookup_insert_eq] at hother
            split at hother
            · rename_i hsame
              rw [hsame]
            · exact absurd hother (h.none_of_unset hunset other)
      · rw [heq]
        refine iff_of_false ?_ ?_
        · intro hnext
          have howner := hnext.holds (by simp)
          obtain ⟨number, hnumber, hlookup⟩ := howner
          have hsame : descriptor = number := Int.ofNat_inj.mp hnumber
          rw [← hsame] at hlookup
          exact hnew (Finmap.mem_of_lookup_eq_some hlookup)
        · rintro ⟨-, hnone | hsucceed⟩
          · cases hnone
          · exact hfails hsucceed

theorem startUDPServer_serverSocket {state next : State}
    (hpc : state.pc ≠ .closing)
    (hstep : TapUdpServer.startUDPServer state = some next) :
    next.serverSocket = state.serverSocket := by
  cases startUDPServer_cases hstep with
  | receives =>
      unfold receive
      split <;> rfl
  | closes hclosing => exact absurd hclosing hpc
  | clears | stops | waits | finds | wakes | inspects => rfl

theorem owns_close_iff {process : Process} (h : Owns process) {server : State}
    (hunset : server.serverSocket = -1) :
    Owns { process.close process.server.serverSocket with
        server, initResult := none } ↔ process.server.serverSocket ≠ -1 := by
  constructor
  · intro hnext hminus
    have hfound := hnext.closed (process.ownerOf process.server.serverSocket)
      (by simp [Process.close])
    rw [hminus] at hfound
    cases hfound
  · intro hset
    obtain ⟨number, hnumber, howner⟩ := h.holds hset
    refine ⟨.inl hunset, ?_, by simp, ?_⟩
    · intro found hfound
      have hcases : found ∈ process.closes ∨
          found = process.ownerOf process.server.serverSocket := by
        simpa [Process.close] using hfound
      rcases hcases with hearlier | hlast
      · exact h.closed found hearlier
      · rw [hlast, hnumber]
        exact howner
    · intro other hother
      simp only [Process.close, hnumber, toNat?_natCast] at hother
      rw [lookup_erase_eq] at hother
      split at hother
      · cases hother
      · rename_i hne
        have hkept := h.kept other hother
        omega

theorem owns_serverStep_iff {process next : Process} (h : Owns process)
    (hstep : process.serverStep = some next) :
    Owns next ↔
      (process.server.pc = .closing → process.server.serverSocket ≠ -1) := by
  obtain ⟨server, hserver, heq⟩ := Option.map_eq_some_iff.mp hstep
  subst heq
  by_cases hpc : process.server.pc = .closing
  · simp only [TapUdpServer.startUDPServer, hpc] at hserver
    cases hserver
    simp only [hpc, if_true, forall_const]
    exact owns_close_iff h rfl
  · simp only [hpc, if_false, false_implies, iff_true]
    exact h.congr (startUDPServer_serverSocket hpc hserver) rfl rfl
      fun _ => Iff.rfl

theorem owns_step_iff {process next : Process} {activity : Activity}
    (h : Owns process) (hstep : process.step activity = some next) :
    Owns next ↔ Keeps process activity := by
  cases activity with
  | initUDPServer calls =>
      simp only [Process.step, Option.ite_none_right_eq_some] at hstep
      obtain ⟨⟨-, hfresh⟩, heq⟩ := hstep
      cases heq
      exact owns_initUDPServer_iff h hfresh
  | startUDPServer =>
      simp only [Process.step, Option.ite_none_right_eq_some] at hstep
      cases hstep.2
      exact iff_of_true (h.congr rfl rfl rfl fun _ => Iff.rfl) trivial
  | stopUDPServer =>
      cases hstep
      exact iff_of_true (h.congr rfl rfl rfl fun _ => Iff.rfl) trivial
  | server => exact owns_serverStep_iff h hstep
  | arrive datagram =>
      simp only [Process.step, Option.ite_none_right_eq_some] at hstep
      cases hstep.2
      exact iff_of_true (h.congr rfl rfl rfl fun _ => Iff.rfl) trivial
  | openOther descriptor =>
      simp only [Process.step, Option.ite_none_right_eq_some] at hstep
      cases hstep.2
      have hnone := Finmap.lookup_eq_none.mpr hstep.1
      refine iff_of_true (h.congr rfl rfl rfl fun other => ?_) trivial
      rw [lookup_insert_eq]
      split
      · rename_i hsame
        rw [hsame, hnone]
        simp
      · exact Iff.rfl
  | closeOther descriptor =>
      simp only [Process.step, Option.ite_none_right_eq_some] at hstep
      cases hstep.2
      refine iff_of_true (h.congr rfl rfl rfl fun other => ?_) trivial
      rw [lookup_erase_eq]
      split
      · rename_i hsame
        rw [hsame, hstep.1]
        simp
      · exact Iff.rfl

theorem descriptors_owned_iff (process : Process) :
    (processSystem.ReachableBy Keeps process → Owns process) ∧
    ∀ activity next, processSystem.ReachableBy Keeps process →
      process.step activity = some next →
      (Owns next ↔ Keeps process activity) := by
  have howns : processSystem.ReachableBy Keeps process → Owns process :=
    fun hreach => hreach.invariant Owns (fun _ => Owns.initial)
      (fun _ _ _ hinv hkeeps hstep => (owns_step_iff hinv hstep).mpr hkeeps)
  exact ⟨howns, fun _ _ hreach hstep => owns_step_iff (howns hreach) hstep⟩

def failedBind : InitCalls := ⟨some 3, 0, 0, 1, -1⟩

/-- After a `bind` that fails, the number of the closed descriptor is closed
again by `startUDPServer` when other code has got it. -/
theorem startUDPServer_closes_foreign :
    ∃ process, processSystem.Reachable process ∧
      process.closes = [some .initUDPServer, some .otherCode] ∧
      ¬ Owns process := by
  let start : Process :=
    ⟨⟨false, false, -1, Buffer.zeroed 1024, [], none, .returned⟩, ∅, [], none⟩
  have hinitial : processSystem.Initial start :=
    ⟨rfl, rfl, rfl, rfl, by simp [start], rfl, rfl⟩
  obtain ⟨process, hrun, hcloses⟩ : ∃ process, processSystem.run start
      [.initUDPServer failedBind, .openOther 3, .stopUDPServer, .startUDPServer,
        .server, .server, .server, .server] = some process ∧
      process.closes = [some .initUDPServer, some .otherCode] :=
    ⟨_, rfl, rfl⟩
  refine ⟨process, .of_run hinitial hrun, hcloses, fun howns => ?_⟩
  have hforeign := howns.closed (some .otherCode) (by simp [hcloses])
  cases hforeign

end CandCpp.Network.TapUdpServer
