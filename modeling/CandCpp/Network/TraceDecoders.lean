import CandCpp.Network.JsonDecoder

/-!
# The two decoders of a trace event

The messages of trace2.proto with what the decoders read of them, the lines
that `decodeByProto` prints for a parsed message, and the document and the
message that hold one socket trace event.  A field that is not set reads as
its default.
-/

namespace CandCpp.Network

open CandCpp.Foundation

/-! ## The messages of trace2.proto -/

namespace Trace2

inductive BodyType where
  | asBytes (value : Bytes)
  | asString (value : Bytes)
  deriving DecidableEq, Repr

structure Body where
  bodyType : Option BodyType := none
  deriving DecidableEq, Repr

inductive PortSpecifier where
  | portValue (value : UInt32)
  | namedPort (value : Bytes)
  deriving DecidableEq, Repr

structure SocketAddress where
  address : Bytes := []
  portSpecifier : Option PortSpecifier := none
  deriving DecidableEq, Repr

inductive AddressKind where
  | socketAddress (value : SocketAddress)
  | pipe
  | envoyInternalAddress
  deriving DecidableEq, Repr

structure Address where
  address : Option AddressKind := none
  deriving DecidableEq, Repr

structure Connection where
  localAddress : Option Address := none
  remoteAddress : Option Address := none
  deriving DecidableEq, Repr

structure Timestamp where
  seconds : Int64 := 0
  nanos : Int32 := 0
  deriving DecidableEq, Repr

structure Read where
  data : Option Body := none
  deriving DecidableEq, Repr

structure Write where
  data : Option Body := none
  endStream : Bool := false
  deriving DecidableEq, Repr

inductive EventSelector where
  | read (value : Read)
  | write (value : Write)
  | closed
  deriving DecidableEq, Repr

structure SocketEvent where
  timestamp : Option Timestamp := none
  eventSelector : Option EventSelector := none
  connectionPerEvent : Option Connection := none
  deriving DecidableEq, Repr

inductive MessagePiece where
  | connection (value : Connection)
  | event (value : SocketEvent)
  deriving DecidableEq, Repr

structure SocketStreamedTraceSegment where
  traceId : UInt64 := 0
  messagePiece : Option MessagePiece := none
  deriving DecidableEq, Repr

inductive Trace where
  | socketBufferedTrace
  | socketStreamedTraceSegment (value : SocketStreamedTraceSegment)
  deriving DecidableEq, Repr

structure TraceWrapper where
  trace : Option Trace := none
  deriving DecidableEq, Repr

/-! ## The generated getters -/

def TraceWrapper.socketStreamedTraceSegment (wrapper : TraceWrapper) :
    SocketStreamedTraceSegment :=
  match wrapper.trace with
  | some (.socketStreamedTraceSegment value) => value
  | some .socketBufferedTrace | none => {}

def SocketStreamedTraceSegment.event (segment : SocketStreamedTraceSegment) :
    SocketEvent :=
  match segment.messagePiece with
  | some (.event value) => value
  | some (.connection _) | none => {}

def SocketEvent.read (event : SocketEvent) : Read :=
  match event.eventSelector with
  | some (.read value) => value
  | some (.write _) | some .closed | none => {}

def SocketEvent.write (event : SocketEvent) : Write :=
  match event.eventSelector with
  | some (.write value) => value
  | some (.read _) | some .closed | none => {}

def Body.asBytes (body : Body) : Bytes :=
  match body.bodyType with
  | some (.asBytes value) => value
  | some (.asString _) | none => []

def Address.socketAddress (address : Address) : SocketAddress :=
  match address.address with
  | some (.socketAddress value) => value
  | some .pipe | some .envoyInternalAddress | none => {}

def SocketAddress.portValue (address : SocketAddress) : UInt32 :=
  match address.portSpecifier with
  | some (.portValue value) => value
  | some (.namedPort _) | none => 0

end Trace2

namespace OneThreadPerQueue

open Trace2

/-! ## What `decodeByProto` prints -/

structure ProtoReport where
  seconds : Int64
  nanos : Int32
  localAddress : Bytes
  localPort : UInt32
  remoteAddress : Bytes
  remotePort : UInt32
  asBytes : Bytes
  deriving DecidableEq, Repr

def printParsed (newSegment : TraceWrapper) : ProtoReport :=
  let event := newSegment.socketStreamedTraceSegment.event
  let timestamp := event.timestamp.getD {}
  let connection := event.connectionPerEvent.getD {}
  let localAddress := (connection.localAddress.getD {}).socketAddress
  let remoteAddress := (connection.remoteAddress.getD {}).socketAddress
  let readBytes := (event.read.data.getD {}).asBytes
  { seconds := timestamp.seconds
    nanos := timestamp.nanos
    localAddress := localAddress.address
    localPort := localAddress.portValue
    remoteAddress := remoteAddress.address
    remotePort := remoteAddress.portValue
    asBytes := if readBytes.length = 0 then (event.write.data.getD {}).asBytes
      else readBytes }

/-! ## Socket trace events -/

structure NulFree where
  bytes : Bytes
  zero_notMem : 0 ∉ bytes

inductive EventData where
  | read (data : NulFree)
  | write (data : NulFree) (endStream : Bool)
  | closed

structure Endpoint where
  address : Bytes
  portValue : UInt32

structure TraceEvent where
  seconds : Int64
  nanos : Int32
  data : EventData
  localEndpoint : Endpoint
  remoteEndpoint : Endpoint

def wrapBody (data : NulFree) : Body := ⟨some (.asBytes data.bytes)⟩

def EventData.selector : EventData → EventSelector
  | .read data => .read ⟨some (wrapBody data)⟩
  | .write data endStream => .write ⟨some (wrapBody data), endStream⟩
  | .closed => .closed

def Endpoint.wrap (endpoint : Endpoint) : Address :=
  ⟨some (.socketAddress
    ⟨endpoint.address, some (.portValue endpoint.portValue)⟩)⟩

def TraceEvent.wrap (event : TraceEvent) (traceId : UInt64) : TraceWrapper :=
  ⟨some (.socketStreamedTraceSegment ⟨traceId, some (.event
    { timestamp := some ⟨event.seconds, event.nanos⟩
      eventSelector := some event.data.selector
      connectionPerEvent := some
        ⟨some event.localEndpoint.wrap, some event.remoteEndpoint.wrap⟩ })⟩)⟩

def objectOf (name : String) (value : Json) : Json :=
  .object [(ascii name, value)]

def jsonInt (value : Int) : Json := .number (.integer value)

/-- No member for a closed event. -/
def EventData.members : EventData → List (Bytes × Json)
  | .read data =>
      [(ascii "read",
        objectOf "data" (objectOf "as_bytes" (.string data.bytes)))]
  | .write data _ =>
      [(ascii "write",
        objectOf "data" (objectOf "as_bytes" (.string data.bytes)))]
  | .closed => []

def Endpoint.toJson (endpoint : Endpoint) : Json :=
  objectOf "socket_address" (.object
    [(ascii "address", .string endpoint.address),
      (ascii "port_value", jsonInt endpoint.portValue.toNat)])

/-- The layout of transportStreamedTraceJsonR and transportStreamedTraceJsonW. -/
def TraceEvent.toJson (event : TraceEvent) : Json :=
  .object [(SEGMENT, .object [(EVENT, .object
    ((ascii "timestamp", .object
        [(ascii "seconds", jsonInt event.seconds.toInt),
          (ascii "nanos", jsonInt event.nanos.toInt)]) ::
      event.data.members ++
      [(ascii "connection", .object
        [(ascii "local_address", event.localEndpoint.toJson),
          (ascii "remote_address", event.remoteEndpoint.toJson)])]))])]

/-! ## Agreement -/

structure SameReport (json : JsonReport) (proto : ProtoReport) : Prop where
  seconds : json.seconds = proto.seconds.toInt
  asBytes : json.asBytes = proto.asBytes
  localIp : json.localIp = proto.localAddress
  localPort : json.localPort = proto.localPort.toNat
  remoteIp : json.remoteIp = proto.remoteAddress
  remotePort : json.remotePort = proto.remotePort.toNat

def DecodersAgree (event : TraceEvent) (traceId : UInt64) : Prop :=
  ∃ report, decodeDocument event.toJson = .ok (some report) ∧
    SameReport report (printParsed (event.wrap traceId))

def EventData.carries : EventData → Prop
  | .read _ | .write _ _ => True
  | .closed => False

/-- Data is carried, the numbers fit in 32 signed bits and the addresses are
free of NULs. -/
structure Representable (event : TraceEvent) : Prop where
  carries : event.data.carries
  seconds : INT_MIN ≤ event.seconds.toInt ∧ event.seconds.toInt ≤ INT_MAX
  localPort : (event.localEndpoint.portValue.toNat : Int) ≤ INT_MAX
  remotePort : (event.remoteEndpoint.portValue.toNat : Int) ≤ INT_MAX
  localAddress : 0 ∉ event.localEndpoint.address
  remoteAddress : 0 ∉ event.remoteEndpoint.address

/-! ## The values of the document -/

theorem at?_seconds (event : TraceEvent) :
    event.toJson.at? secondsPath = some (jsonInt event.seconds.toInt) := rfl

theorem at?_inEvent_append (doc : Json) (first second : List String) :
    doc.at? (inEvent (first ++ second)) =
      (doc.at? (inEvent first)).bind fun value =>
        value.at? (second.map ascii) := by
  rw [← Json.at?_append, inEvent, List.map_append]
  rfl

theorem at?_localEndpoint (event : TraceEvent) :
    event.toJson.at? (inEvent ["connection", "local_address"]) =
      some event.localEndpoint.toJson := by
  obtain ⟨seconds, nanos, data, localEndpoint, remoteEndpoint⟩ := event
  cases data <;> rfl

theorem at?_remoteEndpoint (event : TraceEvent) :
    event.toJson.at? (inEvent ["connection", "remote_address"]) =
      some event.remoteEndpoint.toJson := by
  obtain ⟨seconds, nanos, data, localEndpoint, remoteEndpoint⟩ := event
  cases data <;> rfl

theorem at?_addressPath {doc : Json} {side : String} {endpoint : Endpoint}
    (h : doc.at? (inEvent ["connection", side]) = some endpoint.toJson) :
    doc.at? (addressPath side) = some (.string endpoint.address) := by
  have hpath := at?_inEvent_append doc ["connection", side]
    ["socket_address", "address"]
  rw [h] at hpath
  exact hpath

theorem at?_portPath {doc : Json} {side : String} {endpoint : Endpoint}
    (h : doc.at? (inEvent ["connection", side]) = some endpoint.toJson) :
    doc.at? (portPath side) = some (jsonInt endpoint.portValue.toNat) := by
  have hpath := at?_inEvent_append doc ["connection", side]
    ["socket_address", "port_value"]
  rw [h] at hpath
  exact hpath

theorem at?_localAddress (event : TraceEvent) :
    event.toJson.at? (addressPath "local_address") =
      some (.string event.localEndpoint.address) :=
  at?_addressPath (at?_localEndpoint event)

theorem at?_localPort (event : TraceEvent) :
    event.toJson.at? (portPath "local_address") =
      some (jsonInt event.localEndpoint.portValue.toNat) :=
  at?_portPath (at?_localEndpoint event)

theorem at?_remoteAddress (event : TraceEvent) :
    event.toJson.at? (addressPath "remote_address") =
      some (.string event.remoteEndpoint.address) :=
  at?_addressPath (at?_remoteEndpoint event)

theorem at?_remotePort (event : TraceEvent) :
    event.toJson.at? (portPath "remote_address") =
      some (jsonInt event.remoteEndpoint.portValue.toNat) :=
  at?_portPath (at?_remoteEndpoint event)

def EventData.carried? : EventData → Option NulFree
  | .read data | .write data _ => some data
  | .closed => none

theorem direction_event (event : TraceEvent) :
    direction event.toJson =
      match event.data with
      | .read _ => "read"
      | .write _ _ | .closed => "write" := by
  obtain ⟨seconds, nanos, data, localEndpoint, remoteEndpoint⟩ := event
  cases data <;> rfl

/-- A closed event is looked up as a write event, which it is not. -/
theorem at?_data (event : TraceEvent) :
    event.toJson.at? (dataPath (direction event.toJson)) =
      event.data.carried?.map fun data => .string data.bytes := by
  rw [direction_event]
  obtain ⟨seconds, nanos, data, localEndpoint, remoteEndpoint⟩ := event
  cases data <;> dsimp only <;> rfl

theorem decodeDocument_event (event : TraceEvent) :
    decodeDocument event.toJson = (printEvent event.toJson).map some := by
  have hfound : hasEvent event.toJson = .ok true := rfl
  rw [decodeDocument, hfound, ok_bind, if_pos rfl]
  cases printEvent event.toJson <;> rfl

theorem printParsed_asBytes (event : TraceEvent) (traceId : UInt64)
    {data : NulFree} (hdata : event.data.carried? = some data) :
    (printParsed (event.wrap traceId)).asBytes = data.bytes := by
  obtain ⟨seconds, nanos, eventData, localEndpoint, remoteEndpoint⟩ := event
  cases eventData with
  | read carried =>
      cases hdata
      change (if data.bytes.length = 0 then [] else data.bytes) = data.bytes
      split
      · rename_i hempty
        exact (List.eq_nil_of_length_eq_zero hempty).symm
      · rfl
  | write carried endStream =>
      cases hdata
      rfl
  | closed => cases hdata

/-! ## When the decoders agree -/

theorem decodersAgree_of_representable {event : TraceEvent}
    (h : Representable event) (traceId : UInt64) :
    DecodersAgree event traceId := by
  have hcarries := h.carries
  obtain ⟨data, hdata⟩ : ∃ data, event.data.carried? = some data := by
    cases hkind : event.data with
    | read data => exact ⟨data, rfl⟩
    | write data endStream => exact ⟨data, rfl⟩
    | closed =>
        rw [hkind] at hcarries
        exact hcarries.elim
  have hbytes := at?_data event
  rw [hdata, Option.map_some] at hbytes
  have hport : ∀ value : UInt32, INT_MIN ≤ (value.toNat : Int) := by
    intro value
    exact Int.le_trans (by decide) (Int.natCast_nonneg _)
  have hprint := printEvent_eq_ok_iff.mpr ⟨_, _, _, _, _, _,
    Json.intAt_eq_ok_iff.mpr ⟨at?_seconds event, h.seconds⟩,
    Json.stringAt_eq_ok_iff.mpr hbytes,
    Json.stringAt_eq_ok_iff.mpr (at?_localAddress event),
    Json.intAt_eq_ok_iff.mpr ⟨at?_localPort event, hport _, h.localPort⟩,
    Json.stringAt_eq_ok_iff.mpr (at?_remoteAddress event),
    Json.intAt_eq_ok_iff.mpr ⟨at?_remotePort event, hport _, h.remotePort⟩, rfl⟩
  refine ⟨_, by rw [decodeDocument_event, hprint]; rfl, ?_⟩
  refine ⟨rfl, ?_, ?_, rfl, ?_, rfl⟩
  · rw [printParsed_asBytes event traceId hdata]
    exact cText_eq_self_iff.mpr data.zero_notMem
  · exact cText_eq_self_iff.mpr h.localAddress
  · exact cText_eq_self_iff.mpr h.remoteAddress

theorem jsonInt_range {doc : Json} {names : List Bytes} {held found : Int}
    (hheld : doc.at? names = some (jsonInt held))
    (hfound : doc.intAt names = .ok found) :
    INT_MIN ≤ held ∧ held ≤ INT_MAX := by
  obtain ⟨hat, hrange⟩ := Json.intAt_eq_ok_iff.mp hfound
  rw [hheld] at hat
  cases hat
  exact hrange

theorem jsonString_eq {doc : Json} {names : List Bytes} {held found : Bytes}
    (hheld : doc.at? names = some (.string held))
    (hfound : doc.stringAt names = .ok found) : found = held := by
  have hat := Json.stringAt_eq_ok_iff.mp hfound
  rw [hheld] at hat
  cases hat
  rfl

theorem representable_of_decodersAgree {event : TraceEvent} {traceId : UInt64}
    (h : DecodersAgree event traceId) : Representable event := by
  obtain ⟨report, hdecode, hsame⟩ := h
  rw [decodeDocument_event] at hdecode
  have hprint : printEvent event.toJson = .ok report := by
    cases hresult : printEvent event.toJson with
    | error failed =>
        rw [hresult] at hdecode
        cases hdecode
    | ok printed =>
        rw [hresult] at hdecode
        cases hdecode
        rfl
  obtain ⟨seconds, asBytes, localIp, localPort, remoteIp, remotePort, hseconds,
    hbytes, hlocalIp, hlocalPort, hremoteIp, hremotePort, rfl⟩ :=
    printEvent_eq_ok_iff.mp hprint
  have hlocalRange := jsonInt_range (at?_localPort event) hlocalPort
  have hremoteRange := jsonInt_range (at?_remotePort event) hremotePort
  obtain rfl := jsonString_eq (at?_localAddress event) hlocalIp
  obtain rfl := jsonString_eq (at?_remoteAddress event) hremoteIp
  refine ⟨?_, jsonInt_range (at?_seconds event) hseconds, hlocalRange.2,
    hremoteRange.2, cText_eq_self_iff.mp hsame.localIp, cText_eq_self_iff.mp hsame.remoteIp⟩
  have hat := at?_data event
  rw [Json.stringAt_eq_ok_iff.mp hbytes] at hat
  cases hkind : event.data with
  | read data => trivial
  | write data endStream => trivial
  | closed =>
      rw [hkind] at hat
      cases hat

theorem decodersAgree_iff (event : TraceEvent) (traceId : UInt64) :
    DecodersAgree event traceId ↔ Representable event :=
  ⟨representable_of_decodersAgree, fun h =>
    decodersAgree_of_representable h traceId⟩

def closedEvent : TraceEvent where
  seconds := 1741756766
  nanos := 231973000
  data := .closed
  localEndpoint := ⟨ascii "127.0.0.1", 8022⟩
  remoteEndpoint := ⟨ascii "127.0.0.1", 43624⟩

theorem closedEvent_disagrees :
    decodeDocument closedEvent.toJson = .error (.member (ascii "write")) ∧
    printParsed (closedEvent.wrap 1) =
      ⟨1741756766, 231973000, ascii "127.0.0.1", 8022, ascii "127.0.0.1",
        43624, []⟩ ∧
    ¬ DecodersAgree closedEvent 1 := by
  have hdecode : decodeDocument closedEvent.toJson =
      .error (.member (ascii "write")) := by rfl
  refine ⟨hdecode, by rfl, ?_⟩
  rintro ⟨report, hreport, -⟩
  rw [hdecode] at hreport
  cases hreport

end OneThreadPerQueue

end CandCpp.Network
