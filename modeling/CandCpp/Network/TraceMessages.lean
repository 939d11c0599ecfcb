import CandCpp.Foundation.BasicString
import CandCpp.Foundation.ProtoWire
import CandCpp.Network.EpollServers

/-!
# From the datagram to `decodeByProto`

What udpServerLockFreeOneThreadPerQueueJson.cpp does with the bytes of one
datagram: `udpServer` receives them into its buffer, resizes a string to their
number and copies them into it, `enqueue` puts a copy of the string on the
queue, `try_dequeue` moves that copy into a string of the worker, and
`decodeByProto` parses as many bytes of it as its capacity.
-/

namespace CandCpp.Network.OneThreadPerQueue

open CandCpp.Foundation

/--
The generated parser of `trace2::TraceWrapper`: it accepts the serializations,
and no serialization goes on after a zero tag.
-/
structure Protobuf (TraceWrapper : Type) where
  Serialization : TraceWrapper → Bytes → Prop
  parseFromArray : Bytes → Option TraceWrapper
  parse_iff : ∀ bytes wrapper,
    parseFromArray bytes = some wrapper ↔ Serialization wrapper bytes
  zero_tag : ∀ bytes wrapper rest, Serialization wrapper bytes →
    parseFromArray (bytes ++ 0 :: rest) = none

/-- What the memory held that each of the strings gets. -/
structure Memory where
  message : Garbage
  resized : Garbage
  queued : Garbage
  dequeued : Garbage

/-! ## The four representations -/

def receiveMessage (buffer : Buffer BUFFER_SIZE) (memory : Memory)
    (payload : Bytes) : Except MemoryFault BasicString := do
  let (filled, recvLen) ← receiveInto buffer payload
  let bytes ← filled.load recvLen
  let message := (BasicString.empty memory.message).resize recvLen memory.resized
  message.memcpy bytes

def enqueue (memory : Memory) (message : BasicString) : BasicString :=
  message.copy memory.queued

def tryDequeueInto (memory : Memory) (queued : BasicString) : BasicString :=
  (BasicString.empty memory.dequeued).moveAssign queued

/-- The string that the worker holds for a datagram. -/
def dequeuedMessage (buffer : Buffer BUFFER_SIZE) (memory : Memory)
    (payload : Bytes) : Except MemoryFault BasicString := do
  let message ← receiveMessage buffer memory payload
  return tryDequeueInto memory (enqueue memory message)

/-- The array that `ParseFromArray(&pMsg[0], pMsg.capacity())` is given. -/
def parsedArray (pMsg : BasicString) : Bytes :=
  pMsg.storage.take pMsg.capacity

def decodeByProto {TraceWrapper : Type} (protobuf : Protobuf TraceWrapper)
    (pMsg : BasicString) : Option TraceWrapper :=
  protobuf.parseFromArray (parsedArray pMsg)

/-! ## What arrives at the worker -/

theorem receiveMessage_text (buffer : Buffer BUFFER_SIZE) (memory : Memory)
    {payload : Bytes} (hshort : payload.length < BUFFER_SIZE) :
    (receiveMessage buffer memory payload).map BasicString.text =
      .ok payload := by
  have hload := messageOfLength_received (Nat.le_of_lt hshort)
  simp only [messageOfLength] at hload
  simp only [receiveMessage, receiveInto_of_lt buffer hshort, ok_bind, hload]
  apply BasicString.text_memcpy
  rw [BasicString.size_resize_empty]

theorem dequeuedMessage_eq (buffer : Buffer BUFFER_SIZE) (memory : Memory)
    {payload : Bytes} (hshort : payload.length < BUFFER_SIZE) :
    ∃ message, dequeuedMessage buffer memory payload = .ok message ∧
      message.text = payload ∧
      message.capacity = max localCapacity payload.length := by
  have htext := receiveMessage_text buffer memory hshort
  cases hreceive : receiveMessage buffer memory payload with
  | error fault =>
      rw [hreceive] at htext
      cases htext
  | ok message =>
      rw [hreceive] at htext
      have hpayload : message.text = payload := Except.ok.inj htext
      refine ⟨_, by rw [dequeuedMessage, hreceive]; rfl, ?_, ?_⟩
      · rw [tryDequeueInto, BasicString.text_moveAssign, enqueue,
          BasicString.text_copy, hpayload]
      · rw [tryDequeueInto, BasicString.capacity_moveAssign _ _
          (BasicString.capacity_empty _), enqueue, BasicString.capacity_copy,
          BasicString.size, hpayload]

/-- The string that a worker dequeues for a message: its text fills it, or the
rest of the local buffer is what the memory held. -/
def heldString (memory : Garbage) (message : Bytes) : BasicString where
  text := message
  unused := garbage memory (localCapacity - message.length)
  localCapacity_le := by
    rw [length_garbage]
    omega

theorem dequeuedMessage_held (buffer : Buffer BUFFER_SIZE) (memory : Memory)
    {payload : Bytes} (hshort : payload.length < BUFFER_SIZE) :
    ∃ behind, dequeuedMessage buffer memory payload =
      .ok (heldString behind payload) := by
  obtain ⟨message, hmessage, htext, hcapacity⟩ :=
    dequeuedMessage_eq buffer memory hshort
  refine ⟨fun index => message.unused.getD index 0, hmessage.trans ?_⟩
  have hunused : message.unused.length = localCapacity - payload.length := by
    rw [BasicString.capacity, htext] at hcapacity
    omega
  congr 1
  apply BasicString.ext htext
  apply List.ext_getElem
  · rw [hunused, heldString, length_garbage]
  · intro index hindex _
    simp [heldString, garbage, hindex]

/-- The worker's string is full exactly for the longer payloads. -/
theorem parsedArray_cases {message : BasicString} {payload : Bytes}
    (htext : message.text = payload)
    (hcapacity : message.capacity = max localCapacity payload.length) :
    (localCapacity ≤ payload.length ∧ parsedArray message = payload) ∨
      (payload.length < localCapacity ∧
        ∃ rest, parsedArray message = payload ++ 0 :: rest) := by
  have hsize : message.size = payload.length := by rw [BasicString.size, htext]
  rcases Nat.lt_or_ge payload.length localCapacity with hless | hmore
  · right
    have hroom : message.size < message.capacity := by omega
    obtain ⟨rest, hrest⟩ := BasicString.take_capacity_of_lt hroom
    exact ⟨hless, rest, by rw [parsedArray, hrest, htext]⟩
  · left
    have hfull : message.size = message.capacity := by omega
    exact ⟨hmore, by
      rw [parsedArray, BasicString.take_capacity_of_full hfull, htext]⟩

/-! ## When the worker decodes the datagram -/

/-- The parse is that of the datagram's bytes and of nothing behind them. -/
def DecodesDatagram {TraceWrapper : Type} (protobuf : Protobuf TraceWrapper)
    (payload : Bytes) (message : BasicString) : Prop :=
  parsedArray message = payload ∧
    (∀ wrapper, protobuf.Serialization wrapper payload →
      decodeByProto protobuf message = some wrapper) ∧
    ((∀ wrapper, ¬ protobuf.Serialization wrapper payload) →
      decodeByProto protobuf message = none)

theorem decodesDatagram_of_eq {TraceWrapper : Type}
    (protobuf : Protobuf TraceWrapper) {payload : Bytes}
    {message : BasicString} (harray : parsedArray message = payload) :
    DecodesDatagram protobuf payload message := by
  refine ⟨harray, ?_, ?_⟩
  · intro wrapper hwrapper
    rw [decodeByProto, harray]
    exact (protobuf.parse_iff payload wrapper).mpr hwrapper
  · intro hinvalid
    rw [decodeByProto, harray, Option.eq_none_iff_forall_ne_some]
    intro wrapper hparse
    exact hinvalid wrapper ((protobuf.parse_iff payload wrapper).mp hparse)

theorem decodeByProto_datagram_iff {TraceWrapper : Type}
    (protobuf : Protobuf TraceWrapper) (buffer : Buffer BUFFER_SIZE)
    (memory : Memory) (payload : Bytes)
    (hshort : payload.length < BUFFER_SIZE) :
    ∃ message, dequeuedMessage buffer memory payload = .ok message ∧
      message.text = payload ∧
      (DecodesDatagram protobuf payload message ↔ 15 ≤ payload.length) ∧
      ∀ wrapper, protobuf.Serialization wrapper payload →
        (decodeByProto protobuf message = some wrapper ↔
          15 ≤ payload.length) := by
  obtain ⟨message, hmessage, htext, hcapacity⟩ :=
    dequeuedMessage_eq buffer memory hshort
  refine ⟨message, hmessage, htext, ?_⟩
  rcases parsedArray_cases htext hcapacity with
    ⟨hlong, harray⟩ | ⟨hless, rest, harray⟩
  · have hdecodes := decodesDatagram_of_eq protobuf harray
    refine ⟨⟨fun _ => hlong, fun _ => hdecodes⟩, ?_⟩
    intro wrapper hwrapper
    exact ⟨fun _ => hlong, fun _ => hdecodes.2.1 wrapper hwrapper⟩
  · have hnot : ¬ 15 ≤ payload.length := Nat.not_le_of_lt hless
    constructor
    · refine ⟨fun hdecodes => ?_, fun hlong => absurd hlong hnot⟩
      have hlength := congrArg List.length (harray.symm.trans hdecodes.1)
      simp at hlength
    · intro wrapper hwrapper
      refine ⟨fun hdecode => ?_, fun hlong => absurd hlong hnot⟩
      rw [decodeByProto, harray,
        protobuf.zero_tag payload wrapper rest hwrapper] at hdecode
      cases hdecode

/-! ## The wire format -/

def wireFormat : Protobuf (List ProtoWire.Field) where
  Serialization fields bytes := ProtoWire.decode bytes = some fields
  parseFromArray := ProtoWire.decode
  parse_iff _ _ := Iff.rfl
  zero_tag _ _ rest hbytes := ProtoWire.decode_append_zero hbytes rest

def clearedMemory : Memory :=
  ⟨fun _ => 0, fun _ => 0, fun _ => 0, fun _ => 0⟩

/-- A segment with trace id 300 and an empty read event: 15 bytes. -/
def readSegment : Bytes :=
  [0x22, 0x0D, 0x08, 0xAC, 0x02, 0x1A, 0x08, 0x0A, 0x02, 0x08, 0x05, 0x12,
    0x02, 0x0A, 0x00]

theorem decodeByProto_readSegment :
    ∃ message, dequeuedMessage (Buffer.zeroed BUFFER_SIZE) clearedMemory
        readSegment = .ok message ∧
      decodeByProto wireFormat message =
        some [⟨4, .lengthDelimited (readSegment.drop 2)⟩] := by
  obtain ⟨message, hmessage, -, -, hdecode⟩ :=
    decodeByProto_datagram_iff wireFormat (Buffer.zeroed BUFFER_SIZE)
      clearedMemory readSegment (by decide)
  exact ⟨message, hmessage, (hdecode _ rfl).mpr (by decide)⟩

/-- A segment with trace id 7: 4 bytes. -/
def traceIdSegment : Bytes := [0x22, 0x02, 0x08, 0x07]

theorem decodeByProto_rejects_traceIdSegment :
    wireFormat.Serialization [⟨4, .lengthDelimited [0x08, 0x07]⟩]
      traceIdSegment ∧
    ∃ message, dequeuedMessage (Buffer.zeroed BUFFER_SIZE) clearedMemory
        traceIdSegment = .ok message ∧
      message.text = traceIdSegment ∧
      parsedArray message = traceIdSegment ++ List.replicate 11 0 ∧
      decodeByProto wireFormat message = none ∧
      ¬ DecodesDatagram wireFormat traceIdSegment message := by
  refine ⟨rfl, _, rfl, rfl, rfl, rfl, ?_⟩
  intro hdecodes
  exact absurd hdecodes.1 (by decide)

end CandCpp.Network.OneThreadPerQueue
