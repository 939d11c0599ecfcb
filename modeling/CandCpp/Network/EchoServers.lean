import CandCpp.Network.Socket

/-!
# The getaddrinfo servers udpServer.cpp and udpServer2.cpp

Both receive into one buffer that they never clear and print it with `%s`; the
first also sends the received bytes back.  An emission is what a server prints
and sends because of one datagram.  `getnameinfo` is the C library's function
from a peer's address to a host and a service, or to an error code; it is taken
as one fixed function of the peer, so that what it answers for a peer does not
change in the course of a run.
-/

namespace CandCpp.Network

open CandCpp.Foundation

variable {Peer : Type}

/-! ## Emissions and runs -/

inductive Line where
  | receivedFrom (nread : Nat) (host service : Bytes)
  | receivedText (nread : Nat) (text : Bytes)
  | packetNumber (count : UInt64)
  | nameError (code : Int)
  | sendError
  deriving DecidableEq, Repr

def Line.payloadText? : Line → Option Bytes
  | .receivedText _ text => some text
  | .receivedFrom _ _ _ | .packetNumber _ | .nameError _ | .sendError => none

structure Emission (Peer : Type) where
  lines : List Line
  reply : Option (Peer × Bytes)
  deriving DecidableEq, Repr

namespace Emission

/-- The part of an emission that is made of a datagram's payload. -/
def payload (emission : Emission Peer) : List Bytes × Option (Peer × Bytes) :=
  (emission.lines.filterMap Line.payloadText?, emission.reply)

def payloadBytes (emission : Emission Peer) : Bytes :=
  emission.payload.1.flatten ++ (emission.payload.2.map Prod.snd).getD []

end Emission

section Run

variable {State Input : Type}
  (respond : State → Input →
    Except MemoryFault (State × Option (Emission Peer)))

def serve (state : State) :
    List Input → Except MemoryFault (State × List (Emission Peer))
  | [] => .ok (state, [])
  | input :: inputs => do
      let (next, emission) ← respond state input
      let (final, emissions) ← serve next inputs
      return (final, emission.toList ++ emissions)

end Run

/-! ## The two servers -/

namespace UdpServer

abbrev BUF_SIZE : Nat := 500

/-- What `recvfrom` returns and what `sendto` returns if it is called. -/
structure Input (Peer : Type) where
  outcome : RecvOutcome Peer
  sendResult : Int

def respond (getnameinfo : Peer → Except Int (Bytes × Bytes))
    (buf : Buffer BUF_SIZE) (input : Input Peer) :
    Except MemoryFault (Buffer BUF_SIZE × Option (Emission Peer)) :=
  match input.outcome with
  | .failed _ => .ok (buf, none)
  | .datagram peer payload => do
      let received := delivered BUF_SIZE payload
      let nread := received.length
      let buf ← buf.write received
      let lines ← match getnameinfo peer with
        | .ok (host, service) => do
            let text ← buf.cString
            pure [Line.receivedFrom nread host service,
              Line.receivedText nread text]
        | .error code => pure [Line.nameError code]
      let reply ← buf.load nread
      let sendLines := if input.sendResult = nread then [] else [Line.sendError]
      return (buf, some ⟨lines ++ sendLines, some (peer, reply)⟩)

end UdpServer

namespace UdpServer2

abbrev BUF_SIZE : Nat := 8192

structure State where
  buf : Buffer BUF_SIZE
  rcvCnt : UInt64

def respond (getnameinfo : Peer → Except Int (Bytes × Bytes)) (state : State)
    (outcome : RecvOutcome Peer) :
    Except MemoryFault (State × Option (Emission Peer)) :=
  match outcome with
  | .failed _ => .ok (state, none)
  | .datagram peer payload => do
      let received := delivered BUF_SIZE payload
      let nread := received.length
      let buf ← state.buf.write received
      match getnameinfo peer with
      | .ok (host, service) => do
          let text ← buf.cString
          let rcvCnt := state.rcvCnt + 1
          return (⟨buf, rcvCnt⟩, some ⟨[.receivedFrom nread host service,
            .receivedText nread text, .packetNumber rcvCnt], none⟩)
      | .error code =>
          return ({ state with buf }, some ⟨[.nameError code], none⟩)

end UdpServer2

/-! ## Emissions that do not depend on the history -/

/-- The text is printed with `%s` only where the datagram brings its own NUL. -/
def BringsNul (getnameinfo : Peer → Except Int (Bytes × Bytes))
    (capacity : Nat) : RecvOutcome Peer → Prop
  | .failed _ => True
  | .datagram peer payload =>
      (∃ code, getnameinfo peer = .error code) ∨
        0 ∈ delivered capacity payload

/-- The printed texts and the reply that the received bytes alone determine. -/
def ownPayload (getnameinfo : Peer → Except Int (Bytes × Bytes))
    (capacity : Nat) (replies : Bool) :
    RecvOutcome Peer → Option (List Bytes × Option (Peer × Bytes))
  | .failed _ => none
  | .datagram peer payload =>
      let received := delivered capacity payload
      some (match getnameinfo peer with
        | .ok _ => [cText received]
        | .error _ => [],
        if replies then some (peer, received) else none)

section HistoryFree

variable {State Input : Type}

/--
After any two histories the last input makes the server print the same payload
text and send the same reply, all of it bytes of the datagram received last.
-/
def HistoryFree
    (respond : State → Input →
      Except MemoryFault (State × Option (Emission Peer)))
    (outcome : Input → RecvOutcome Peer) (start : State) (input : Input) :
    Prop :=
  ∀ history₁ history₂ state₁ state₂ emissions₁ emissions₂,
    serve respond start history₁ = .ok (state₁, emissions₁) →
    serve respond start history₂ = .ok (state₂, emissions₂) →
    ∃ next₁ next₂ last₁ last₂,
      respond state₁ input = .ok (next₁, last₁) ∧
      respond state₂ input = .ok (next₂, last₂) ∧
      last₁.map Emission.payload = last₂.map Emission.payload ∧
      ∀ emission ∈ last₁, ∀ payload ∈ (outcome input).payload?,
        emission.payloadBytes ⊆ payload

variable {respond : State → Input →
    Except MemoryFault (State × Option (Emission Peer))}
  {outcome : Input → RecvOutcome Peer}
  {getnameinfo : Peer → Except Int (Bytes × Bytes)} {capacity : Nat}
  {replies : Bool}

theorem ownPayload_subset {received : RecvOutcome Peer} {payload : Bytes}
    (hpayload : payload ∈ received.payload?) {emission : Emission Peer}
    (hown : ownPayload getnameinfo capacity replies received =
      some emission.payload) :
    emission.payloadBytes ⊆ payload := by
  rcases received with errno | ⟨peer, bytes⟩
  · cases hpayload
  · obtain rfl : bytes = payload := Option.some.inj hpayload
    have htake : delivered capacity bytes ⊆ bytes := List.take_subset _ _
    have htext : cText (delivered capacity bytes) ⊆ bytes :=
      fun byte hbyte => htake (cText_subset _ hbyte)
    simp only [ownPayload, Option.some.injEq] at hown
    rw [Emission.payloadBytes, ← hown]
    apply List.append_subset.mpr
    constructor
    · cases getnameinfo peer with
      | ok name => simpa using htext
      | error code => simp
    · cases replies with
      | true => simpa using htake
      | false => simp

/-- A run in which every datagram brings its own NUL emits, for each of them,
what its own bytes determine. -/
theorem serve_of_bringsNul
    (hown : ∀ state input,
      BringsNul getnameinfo capacity (outcome input) →
      ∃ next emission, respond state input = .ok (next, emission) ∧
        emission.map Emission.payload =
          ownPayload getnameinfo capacity replies (outcome input))
    (state : State) (inputs : List Input)
    (hnul : ∀ input ∈ inputs,
      BringsNul getnameinfo capacity (outcome input)) :
    ∃ final emissions, serve respond state inputs = .ok (final, emissions) ∧
      emissions.map Emission.payload =
        inputs.filterMap fun input =>
          ownPayload getnameinfo capacity replies (outcome input) := by
  induction inputs generalizing state with
  | nil => exact ⟨state, [], rfl, rfl⟩
  | cons input inputs ih =>
      obtain ⟨next, emission, hnext, hemission⟩ :=
        hown state input (hnul input (by simp))
      obtain ⟨final, emissions, hfinal, hemissions⟩ :=
        ih next fun other hother => hnul other (by simp [hother])
      refine ⟨final, emission.toList ++ emissions, ?_, ?_⟩
      · simp only [serve, hnext, ok_bind, hfinal]
        rfl
      · rw [List.map_append, hemissions, List.filterMap_cons, ← hemission]
        cases emission <;> rfl

theorem historyFree_of_bringsNul
    (hown : ∀ state input,
      BringsNul getnameinfo capacity (outcome input) →
      ∃ next emission, respond state input = .ok (next, emission) ∧
        emission.map Emission.payload =
          ownPayload getnameinfo capacity replies (outcome input))
    (start : State) (input : Input)
    (hnul : BringsNul getnameinfo capacity (outcome input)) :
    HistoryFree respond outcome start input := by
  intro history₁ history₂ state₁ state₂ _ _ _ _
  obtain ⟨next₁, last₁, hnext₁, hlast₁⟩ := hown state₁ input hnul
  obtain ⟨next₂, last₂, hnext₂, hlast₂⟩ := hown state₂ input hnul
  refine ⟨next₁, next₂, last₁, last₂, hnext₁, hnext₂,
    hlast₁.trans hlast₂.symm, ?_⟩
  intro emission hemission payload hpayload
  obtain rfl : last₁ = some emission := hemission
  exact ownPayload_subset hpayload hlast₁.symm

end HistoryFree

/-! ## Printing what an earlier datagram left -/

section Stale

variable {capacity : Nat}

/-- The buffer after `recvfrom` delivered the payload's first bytes. -/
def refill (buf : Buffer capacity) (payload : Bytes) : Buffer capacity :=
  buf.overwrite (delivered capacity payload) (length_delivered_le _ _)

theorem bytes_refill (buf : Buffer capacity) (payload : Bytes) :
    (refill buf payload).bytes =
      delivered capacity payload ++
        buf.bytes.drop (delivered capacity payload).length := rfl

theorem cText_refill (buf : Buffer capacity) {payload : Bytes}
    (hnul : 0 ∈ delivered capacity payload) :
    cText (refill buf payload).bytes = cText (delivered capacity payload) :=
  Buffer.cText_overwrite_of_mem _ _ hnul

theorem zero_mem_refill (buf : Buffer capacity) {payload : Bytes}
    (hnul : 0 ∈ delivered capacity payload) :
    0 ∈ (refill buf payload).bytes := by
  rw [bytes_refill]
  exact List.mem_append_left _ hnul

/-- A datagram that fills the buffer and has its only NUL in front. -/
def fillingPayload (capacity : Nat) : Bytes := 0 :: List.replicate (capacity - 1) 1

theorem zero_notMem_refill_filling (buf : Buffer capacity) {payload : Bytes}
    (hcapacity : 0 < capacity) (hnul : 0 ∉ delivered capacity payload)
    (hne : delivered capacity payload ≠ []) :
    0 ∉ (refill (refill buf (fillingPayload capacity)) payload).bytes := by
  have hfill : delivered capacity (fillingPayload capacity) =
      fillingPayload capacity := by
    apply delivered_of_le
    simp [fillingPayload]
    omega
  obtain ⟨byte, rest, hcons⟩ := List.exists_cons_of_ne_nil hne
  have hlength : (fillingPayload capacity).length = capacity := by
    simp [fillingPayload]
    omega
  rw [bytes_refill, bytes_refill, hfill, hlength, List.mem_append]
  rintro (hmem | hmem)
  · exact hnul hmem
  · rw [hcons, List.length_cons, fillingPayload, List.cons_append,
      List.drop_succ_cons] at hmem
    have hrest := List.mem_of_mem_drop hmem
    rw [List.drop_eq_nil_of_le (by simp), List.append_nil,
      List.mem_replicate] at hrest
    exact absurd hrest.2 (by decide)

variable {State Input : Type}
  {respond : State → Input →
    Except MemoryFault (State × Option (Emission Peer))}
  {outcome : Input → RecvOutcome Peer}
  {getnameinfo : Peer → Except Int (Bytes × Bytes)}
  {bufOf : State → Buffer capacity}

/-- The server prints its refilled buffer with `%s`. -/
structure PrintsBuffer
    (respond : State → Input →
      Except MemoryFault (State × Option (Emission Peer)))
    (outcome : Input → RecvOutcome Peer)
    (getnameinfo : Peer → Except Int (Bytes × Bytes))
    (bufOf : State → Buffer capacity) : Prop where
  receives : ∀ received, ∃ input, outcome input = received
  prints : ∀ state input peer payload name,
    outcome input = .datagram peer payload → getnameinfo peer = .ok name →
    0 ∈ (refill (bufOf state) payload).bytes →
    ∃ next emission, respond state input = .ok (next, some emission) ∧
      bufOf next = refill (bufOf state) payload ∧
      emission.payload.1 = [cText (refill (bufOf state) payload).bytes]
  overreads : ∀ state input peer payload name,
    outcome input = .datagram peer payload → getnameinfo peer = .ok name →
    0 ∉ (refill (bufOf state) payload).bytes →
    ¬ Completes (respond state input)

theorem HistoryFree.after {start : State} {input : Input}
    (hfree : HistoryFree respond outcome start input) {first : Input}
    {middle : State} {emission : Option (Emission Peer)}
    (hfirst : respond start first = .ok (middle, emission)) :
    ∃ next last, respond middle input = .ok (next, last) ∧
      ∀ emission ∈ last, ∀ payload ∈ (outcome input).payload?,
        emission.payloadBytes ⊆ payload := by
  have hserve : serve respond start [first] =
      .ok (middle, emission.toList ++ []) := by
    simp only [serve, hfirst, ok_bind]
    rfl
  obtain ⟨next, _, last, _, hnext, -, -, hown⟩ :=
    hfree [first] [] middle start _ [] hserve rfl
  exact ⟨next, last, hnext, hown⟩

/-- An empty datagram shows the text of the one before. -/
theorem PrintsBuffer.stale_empty
    (h : PrintsBuffer respond outcome getnameinfo bufOf)
    (hcapacity : 2 ≤ capacity) {start : State} {input : Input} {peer : Peer}
    {name : Bytes × Bytes} (houtcome : outcome input = .datagram peer [])
    (hname : getnameinfo peer = .ok name) :
    ¬ HistoryFree respond outcome start input := by
  intro hfree
  obtain ⟨first, hreceived⟩ := h.receives (.datagram peer [1, 0])
  have hmark : delivered capacity [1, 0] = [1, 0] := delivered_of_le hcapacity
  have hmarked : 0 ∈ (refill (bufOf start) [1, 0]).bytes :=
    zero_mem_refill _ (by simp [hmark])
  obtain ⟨middle, _, hfirst, hmiddle, -⟩ :=
    h.prints start first peer [1, 0] name hreceived hname hmarked
  obtain ⟨next, last, hnext, hown⟩ := hfree.after hfirst
  have hkept : refill (bufOf middle) [] = bufOf middle := by
    apply Buffer.ext
    rw [bytes_refill, delivered, List.take_nil]
    rfl
  obtain ⟨_, emission, hlast, -, htext⟩ :=
    h.prints middle input peer [] name houtcome hname
      (by rw [hkept, hmiddle]; exact hmarked)
  rw [hlast] at hnext
  cases hnext
  have hsubset := hown emission rfl [] (by simp [houtcome,
    RecvOutcome.payload?])
  have hshown : cText (bufOf middle).bytes = [1] := by
    rw [hmiddle, cText_refill _ (by simp [hmark]), hmark]
    rfl
  rw [hkept, hshown] at htext
  have hmem : 1 ∈ emission.payloadBytes := by
    simp [Emission.payloadBytes, htext]
  cases hsubset hmem

/-- Behind a filling datagram the server reads past the end of the buffer. -/
theorem PrintsBuffer.overreads_after_filling
    (h : PrintsBuffer respond outcome getnameinfo bufOf)
    (hcapacity : 0 < capacity) {start : State} {input : Input} {peer : Peer}
    {payload : Bytes} {name : Bytes × Bytes}
    (houtcome : outcome input = .datagram peer payload)
    (hname : getnameinfo peer = .ok name)
    (hzero : 0 ∉ delivered capacity payload)
    (hne : delivered capacity payload ≠ []) :
    ¬ HistoryFree respond outcome start input := by
  intro hfree
  obtain ⟨first, hreceived⟩ :=
    h.receives (.datagram peer (fillingPayload capacity))
  have hfilling :
      0 ∈ (refill (bufOf start) (fillingPayload capacity)).bytes := by
    apply zero_mem_refill
    rw [delivered, fillingPayload]
    cases capacity with
    | zero => omega
    | succ size => simp
  obtain ⟨middle, _, hfirst, hmiddle, -⟩ :=
    h.prints start first peer _ name hreceived hname hfilling
  obtain ⟨next, last, hnext, -⟩ := hfree.after hfirst
  refine h.overreads middle input peer payload name houtcome hname ?_ ⟨_, hnext⟩
  rw [hmiddle]
  exact zero_notMem_refill_filling _ hcapacity hzero hne

theorem PrintsBuffer.not_historyFree
    (h : PrintsBuffer respond outcome getnameinfo bufOf)
    (hcapacity : 2 ≤ capacity) (start : State) (input : Input)
    (hnul : ¬ BringsNul getnameinfo capacity (outcome input)) :
    ¬ HistoryFree respond outcome start input := by
  cases houtcome : outcome input with
  | failed errno => exact absurd (by simp [houtcome, BringsNul]) hnul
  | datagram peer payload =>
      rw [houtcome] at hnul
      obtain ⟨hname, hzero⟩ := not_or.mp hnul
      obtain ⟨name, hok⟩ : ∃ name, getnameinfo peer = .ok name := by
        cases hresult : getnameinfo peer with
        | ok name => exact ⟨name, rfl⟩
        | error code => exact absurd ⟨code, hresult⟩ hname
      by_cases hne : delivered capacity payload = []
      · rw [delivered, List.take_eq_nil_iff] at hne
        have hpayload : payload = [] := hne.resolve_left (by omega)
        subst hpayload
        exact h.stale_empty hcapacity houtcome hok
      · exact h.overreads_after_filling (by omega) houtcome hok hzero hne

end Stale

namespace UdpServer

variable {getnameinfo : Peer → Except Int (Bytes × Bytes)}

theorem respond_prints (buf : Buffer BUF_SIZE) (input : Input Peer)
    (peer : Peer) (payload : Bytes) (name : Bytes × Bytes)
    (houtcome : input.outcome = .datagram peer payload)
    (hname : getnameinfo peer = .ok name)
    (hzero : 0 ∈ (refill buf payload).bytes) :
    ∃ next emission,
      respond getnameinfo buf input = .ok (next, some emission) ∧
      next = refill buf payload ∧
      emission.payload = ([cText (refill buf payload).bytes],
        some (peer, delivered BUF_SIZE payload)) := by
  have hfits := length_delivered_le BUF_SIZE payload
  have htext := Buffer.cString_of_mem hzero
  simp only [refill] at htext
  simp only [respond, houtcome, Buffer.write_of_le _ hfits, ok_bind, hname,
    Buffer.load_of_le _ hfits, htext]
  refine ⟨_, _, rfl, rfl, ?_⟩
  split <;>
    simp [Emission.payload, Line.payloadText?, List.filterMap_cons, refill]

theorem respond_overreads (buf : Buffer BUF_SIZE) (input : Input Peer)
    (peer : Peer) (payload : Bytes) (name : Bytes × Bytes)
    (houtcome : input.outcome = .datagram peer payload)
    (hname : getnameinfo peer = .ok name)
    (hzero : 0 ∉ (refill buf payload).bytes) :
    ¬ Completes (respond getnameinfo buf input) := by
  have hfits := length_delivered_le BUF_SIZE payload
  simp only [respond, houtcome, Buffer.write_of_le _ hfits, ok_bind, hname]
  intro hcompletes
  obtain ⟨text, htext, -⟩ := completes_bind_iff.mp hcompletes
  exact hzero ((Buffer.completes_cString_iff _).mp ⟨text, htext⟩)

theorem respond_of_bringsNul (buf : Buffer BUF_SIZE) (input : Input Peer)
    (hnul : BringsNul getnameinfo BUF_SIZE input.outcome) :
    ∃ next emission, respond getnameinfo buf input = .ok (next, emission) ∧
      emission.map Emission.payload =
        ownPayload getnameinfo BUF_SIZE true input.outcome := by
  cases houtcome : input.outcome with
  | failed errno => exact ⟨buf, none, by simp [respond, houtcome], rfl⟩
  | datagram peer payload =>
      rw [houtcome] at hnul
      cases hname : getnameinfo peer with
      | ok name =>
          have hzero : 0 ∈ delivered BUF_SIZE payload :=
            hnul.resolve_left (by simp [hname])
          obtain ⟨next, emission, hnext, -, hpayload⟩ :=
            respond_prints buf input peer payload name houtcome hname
              (zero_mem_refill buf hzero)
          refine ⟨next, some emission, hnext, ?_⟩
          rw [Option.map_some, hpayload, cText_refill buf hzero]
          simp [ownPayload, hname]
      | error code =>
          have hfits := length_delivered_le BUF_SIZE payload
          simp only [respond, houtcome, Buffer.write_of_le _ hfits, ok_bind,
            hname, Buffer.load_of_le _ hfits]
          refine ⟨_, _, rfl, ?_⟩
          split <;>
            simp [Emission.payload, Line.payloadText?, ownPayload, hname,
              List.filterMap_cons]

theorem printsBuffer :
    PrintsBuffer (respond getnameinfo) (·.outcome) getnameinfo id where
  receives received := ⟨⟨received, 0⟩, rfl⟩
  prints buf input peer payload name houtcome hname hzero := by
    obtain ⟨next, emission, hnext, hbuf, hpayload⟩ :=
      respond_prints buf input peer payload name houtcome hname hzero
    exact ⟨next, emission, hnext, hbuf, congrArg Prod.fst hpayload⟩
  overreads := respond_overreads

end UdpServer

namespace UdpServer2

variable {getnameinfo : Peer → Except Int (Bytes × Bytes)}

theorem respond_prints (state : State) (outcome : RecvOutcome Peer)
    (peer : Peer) (payload : Bytes) (name : Bytes × Bytes)
    (houtcome : outcome = .datagram peer payload)
    (hname : getnameinfo peer = .ok name)
    (hzero : 0 ∈ (refill state.buf payload).bytes) :
    ∃ next emission,
      respond getnameinfo state outcome = .ok (next, some emission) ∧
      next.buf = refill state.buf payload ∧
      emission.payload = ([cText (refill state.buf payload).bytes], none) := by
  have hfits := length_delivered_le BUF_SIZE payload
  have htext := Buffer.cString_of_mem hzero
  simp only [refill] at htext
  simp only [respond, houtcome, Buffer.write_of_le _ hfits, ok_bind, hname,
    htext]
  exact ⟨_, _, rfl, rfl, rfl⟩

theorem respond_overreads (state : State) (outcome : RecvOutcome Peer)
    (peer : Peer) (payload : Bytes) (name : Bytes × Bytes)
    (houtcome : outcome = .datagram peer payload)
    (hname : getnameinfo peer = .ok name)
    (hzero : 0 ∉ (refill state.buf payload).bytes) :
    ¬ Completes (respond getnameinfo state outcome) := by
  have hfits := length_delivered_le BUF_SIZE payload
  simp only [respond, houtcome, Buffer.write_of_le _ hfits, ok_bind, hname]
  intro hcompletes
  obtain ⟨text, htext, -⟩ := completes_bind_iff.mp hcompletes
  exact hzero ((Buffer.completes_cString_iff _).mp ⟨text, htext⟩)

theorem respond_of_bringsNul (state : State) (outcome : RecvOutcome Peer)
    (hnul : BringsNul getnameinfo BUF_SIZE outcome) :
    ∃ next emission,
      respond getnameinfo state outcome = .ok (next, emission) ∧
      emission.map Emission.payload =
        ownPayload getnameinfo BUF_SIZE false outcome := by
  cases houtcome : outcome with
  | failed errno => exact ⟨state, none, rfl, rfl⟩
  | datagram peer payload =>
      rw [houtcome] at hnul
      cases hname : getnameinfo peer with
      | ok name =>
          have hzero : 0 ∈ delivered BUF_SIZE payload :=
            hnul.resolve_left (by simp [hname])
          obtain ⟨next, emission, hnext, -, hpayload⟩ :=
            respond_prints state _ peer payload name rfl hname
              (zero_mem_refill state.buf hzero)
          refine ⟨next, some emission, hnext, ?_⟩
          rw [Option.map_some, hpayload, cText_refill state.buf hzero]
          simp [ownPayload, hname]
      | error code =>
          have hfits := length_delivered_le BUF_SIZE payload
          simp only [respond, Buffer.write_of_le _ hfits, ok_bind, hname]
          exact ⟨_, _, rfl, by simp [ownPayload, hname]; rfl⟩

theorem printsBuffer :
    PrintsBuffer (respond getnameinfo) id getnameinfo State.buf where
  receives received := ⟨received, rfl⟩
  prints state outcome peer payload name houtcome hname hzero := by
    obtain ⟨next, emission, hnext, hbuf, hpayload⟩ :=
      respond_prints state outcome peer payload name houtcome hname hzero
    exact ⟨next, emission, hnext, hbuf, congrArg Prod.fst hpayload⟩
  overreads := respond_overreads

end UdpServer2

/-! ## When nothing of an earlier datagram is emitted -/

theorem UdpServer.historyFree_iff
    (getnameinfo : Peer → Except Int (Bytes × Bytes)) (buf : Buffer BUF_SIZE)
    (input : Input Peer) :
    HistoryFree (respond getnameinfo) (·.outcome) buf input ↔
      BringsNul getnameinfo BUF_SIZE input.outcome := by
  constructor
  · intro hfree
    by_contra hnul
    exact printsBuffer.not_historyFree (by decide) buf input hnul hfree
  · exact historyFree_of_bringsNul respond_of_bringsNul buf input

theorem UdpServer2.historyFree_iff
    (getnameinfo : Peer → Except Int (Bytes × Bytes)) (state : State)
    (outcome : RecvOutcome Peer) :
    HistoryFree (respond getnameinfo) id state outcome ↔
      BringsNul getnameinfo BUF_SIZE outcome := by
  constructor
  · intro hfree
    by_contra hnul
    exact printsBuffer.not_historyFree (by decide) state outcome hnul hfree
  · exact historyFree_of_bringsNul respond_of_bringsNul state outcome

/--
Each server is free of its history at exactly the datagrams that it does not
print or that bring their own NUL, and a run of such datagrams emits for each
of them what its own bytes determine.
-/
theorem echoServers_historyFree_iff
    (getnameinfo : Peer → Except Int (Bytes × Bytes)) :
    (∀ buf (input : UdpServer.Input Peer),
      HistoryFree (UdpServer.respond getnameinfo) (·.outcome) buf input ↔
        BringsNul getnameinfo UdpServer.BUF_SIZE input.outcome) ∧
    (∀ state (outcome : RecvOutcome Peer),
      HistoryFree (UdpServer2.respond getnameinfo) id state outcome ↔
        BringsNul getnameinfo UdpServer2.BUF_SIZE outcome) ∧
    (∀ buf (inputs : List (UdpServer.Input Peer)),
      (∀ input ∈ inputs,
        BringsNul getnameinfo UdpServer.BUF_SIZE input.outcome) →
      ∃ final emissions,
        serve (UdpServer.respond getnameinfo) buf inputs =
          .ok (final, emissions) ∧
        emissions.map Emission.payload = inputs.filterMap fun input =>
          ownPayload getnameinfo UdpServer.BUF_SIZE true input.outcome) ∧
    ∀ state (outcomes : List (RecvOutcome Peer)),
      (∀ outcome ∈ outcomes,
        BringsNul getnameinfo UdpServer2.BUF_SIZE outcome) →
      ∃ final emissions,
        serve (UdpServer2.respond getnameinfo) state outcomes =
          .ok (final, emissions) ∧
        emissions.map Emission.payload = outcomes.filterMap
          (ownPayload getnameinfo UdpServer2.BUF_SIZE false) := by
  refine ⟨?_, ?_, ?_, ?_⟩
  · exact UdpServer.historyFree_iff getnameinfo
  · exact UdpServer2.historyFree_iff getnameinfo
  · exact serve_of_bringsNul UdpServer.respond_of_bringsNul
  · exact serve_of_bringsNul UdpServer2.respond_of_bringsNul

/--
After "secret" the log line for "hi" shows four bytes of the earlier datagram,
although the reply does not.
-/
theorem udpServer_prints_earlier_datagram :
    let getnameinfo : Unit → Except Int (Bytes × Bytes) :=
      fun _ => .ok (ascii "localhost", ascii "5060")
    let hi : UdpServer.Input Unit := ⟨.datagram () (ascii "hi"), 2⟩
    let secret : UdpServer.Input Unit := ⟨.datagram () (ascii "secret"), 6⟩
    (serve (UdpServer.respond getnameinfo) (Buffer.zeroed 500)
        [secret, hi]).map (fun result => result.2.map Emission.payload) =
      .ok [([ascii "secret"], some ((), ascii "secret")),
        ([ascii "hicret"], some ((), ascii "hi"))] ∧
    ¬ HistoryFree (UdpServer.respond getnameinfo) (·.outcome)
      (Buffer.zeroed 500) hi := by
  intro getnameinfo hi secret
  refine ⟨by decide, ?_⟩
  intro hfree
  let filled : Buffer 500 :=
    (Buffer.zeroed 500).overwrite (ascii "secret") (by decide)
  have hsecret : serve (UdpServer.respond getnameinfo) (Buffer.zeroed 500)
      [secret] = .ok (filled, [⟨[.receivedFrom 6 (ascii "localhost")
        (ascii "5060"), .receivedText 6 (ascii "secret")],
        some ((), ascii "secret")⟩]) := by rfl
  obtain ⟨next₁, next₂, last₁, last₂, hfirst, hsecond, heq, -⟩ :=
    hfree [] [secret] (Buffer.zeroed 500) filled [] _ rfl hsecret
  have htexts :
      (UdpServer.respond getnameinfo (Buffer.zeroed 500) hi).map
          (fun result => result.2.map Emission.payload) ≠
        (UdpServer.respond getnameinfo filled hi).map
          (fun result => result.2.map Emission.payload) := by decide
  apply htexts
  rw [hfirst, hsecond]
  exact congrArg Except.ok heq

end CandCpp.Network
