import CandCpp.Foundation.Json

/-!
# `decodeJson` of udpServerLockFreeOneThreadPerQueueJson.cpp

The document of a text that does not parse is null.  Every value that is
printed is looked up from the root of the document; the texts are printed as C
strings.
-/

namespace CandCpp.Network.OneThreadPerQueue

open CandCpp.Foundation

def SEGMENT : Bytes := ascii "socket_streamed_trace_segment"

def EVENT : Bytes := ascii "event"

/-- The names that lead from the root to a value of the event. -/
def inEvent (names : List String) : List Bytes :=
  SEGMENT :: EVENT :: names.map ascii

def secondsPath : List Bytes := inEvent ["timestamp", "seconds"]

def dataPath (direction : String) : List Bytes :=
  inEvent [direction, "data", "as_bytes"]

def addressPath (side : String) : List Bytes :=
  inEvent ["connection", side, "socket_address", "address"]

def portPath (side : String) : List Bytes :=
  inEvent ["connection", side, "socket_address", "port_value"]

/-- The lines that `decodeJson` prints for an event. -/
structure JsonReport where
  seconds : Int
  direction : String
  asBytes : Bytes
  localIp : Bytes
  localPort : Int
  remoteIp : Bytes
  remotePort : Int
  deriving DecidableEq, Repr

/-! ## Decoding -/

def hasEvent (doc : Json) : Except FailedAssertion Bool := do
  if ← doc.hasMember SEGMENT then
    let segment ← doc.member SEGMENT
    segment.hasMember EVENT
  else return false

def printDirection (doc : Json) : Except FailedAssertion String := do
  let event ← doc.path (inEvent [])
  if ← event.hasMember (ascii "read") then return "read" else return "write"

def printEvent (doc : Json) : Except FailedAssertion JsonReport := do
  let seconds ← doc.intAt secondsPath
  let direction ← printDirection doc
  let asBytes ← doc.stringAt (dataPath direction)
  let localIp ← doc.stringAt (addressPath "local_address")
  let localPort ← doc.intAt (portPath "local_address")
  let remoteIp ← doc.stringAt (addressPath "remote_address")
  let remotePort ← doc.intAt (portPath "remote_address")
  return {
    seconds
    direction
    asBytes := cText asBytes
    localIp := cText localIp
    localPort
    remoteIp := cText remoteIp
    remotePort }

def decodeDocument (doc : Json) :
    Except FailedAssertion (Option JsonReport) := do
  if ← hasEvent doc then
    let report ← printEvent doc
    return some report
  else return none

/-- `parse` is `doc.Parse`; it gives nothing when there is a parse error. -/
def document (parse : Bytes → Option Json) (pJsonStr : Bytes) : Json :=
  (parse pJsonStr).getD .null

def decodeJson (parse : Bytes → Option Json) (pJsonStr : Bytes) :
    Except FailedAssertion (Option JsonReport) :=
  decodeDocument (document parse pJsonStr)

/-! ## Documents that are decoded -/

def direction (doc : Json) : String :=
  if (doc.at? (inEvent ["read"])).isSome then "read" else "write"

def HoldsInt (doc : Json) (names : List Bytes) : Prop :=
  ∃ value, doc.at? names = some (.number (.integer value)) ∧
    INT_MIN ≤ value ∧ value ≤ INT_MAX

def HoldsString (doc : Json) (names : List Bytes) : Prop :=
  ∃ text, doc.at? names = some (.string text)

structure EventReadable (doc : Json) : Prop where
  seconds : HoldsInt doc secondsPath
  data : HoldsString doc (dataPath (direction doc))
  localAddress : HoldsString doc (addressPath "local_address")
  localPort : HoldsInt doc (portPath "local_address")
  remoteAddress : HoldsString doc (addressPath "remote_address")
  remotePort : HoldsInt doc (portPath "remote_address")

/-- The root is an object, a segment in it is an object, and an event in that
has all that is printed. -/
structure Decodable (doc : Json) : Prop where
  root : doc.isObject = true
  segment : ∀ segment, doc.member? SEGMENT = some segment →
    segment.isObject = true
  event : (doc.at? (inEvent [])).isSome → EventReadable doc

theorem at?_inEvent_cons (doc : Json) (name : String) (names : List String) :
    doc.at? (inEvent (name :: names)) =
      (doc.at? (inEvent [])).bind fun event =>
        (event.member? (ascii name)).bind fun value =>
          value.at? (names.map ascii) :=
  doc.at?_append (inEvent []) ((name :: names).map ascii)

theorem printDirection_eq_ok {doc event : Json}
    (hevent : doc.at? (inEvent []) = some event)
    (hobject : event.isObject = true) :
    printDirection doc = .ok (direction doc) := by
  have hread : doc.at? (inEvent ["read"]) = event.member? (ascii "read") := by
    rw [at?_inEvent_cons, hevent, Option.bind_some]
    exact event.at?_singleton (ascii "read")
  rw [printDirection, Json.path_eq_ok_iff.mpr hevent, ok_bind,
    Json.hasMember_of_isObject _ hobject, ok_bind, direction, hread]
  split <;> rfl

/-- Looking up the seconds shows that the event is an object. -/
theorem event_of_seconds {doc value : Json}
    (hseconds : doc.at? secondsPath = some value) :
    ∃ event, doc.at? (inEvent []) = some event ∧ event.isObject = true := by
  rw [secondsPath, at?_inEvent_cons, Option.bind_eq_some_iff] at hseconds
  obtain ⟨event, hevent, hrest⟩ := hseconds
  obtain ⟨timestamp, htimestamp, -⟩ := Option.bind_eq_some_iff.mp hrest
  exact ⟨event, hevent, Json.isObject_of_member? htimestamp⟩

theorem printEvent_eq_ok_iff {doc : Json} {report : JsonReport} :
    printEvent doc = .ok report ↔
      ∃ seconds asBytes localIp localPort remoteIp remotePort,
        doc.intAt secondsPath = .ok seconds ∧
        doc.stringAt (dataPath (direction doc)) = .ok asBytes ∧
        doc.stringAt (addressPath "local_address") = .ok localIp ∧
        doc.intAt (portPath "local_address") = .ok localPort ∧
        doc.stringAt (addressPath "remote_address") = .ok remoteIp ∧
        doc.intAt (portPath "remote_address") = .ok remotePort ∧
        report = ⟨seconds, direction doc, cText asBytes, cText localIp,
          localPort, cText remoteIp, remotePort⟩ := by
  have hdirection : ∀ {seconds : Int}, doc.intAt secondsPath = .ok seconds →
      printDirection doc = .ok (direction doc) := by
    intro seconds hseconds
    obtain ⟨event, hevent, hobject⟩ :=
      event_of_seconds (Json.intAt_eq_ok_iff.mp hseconds).1
    exact printDirection_eq_ok hevent hobject
  constructor
  · intro hprint
    simp only [printEvent, bind_eq_ok_iff] at hprint
    obtain ⟨seconds, hseconds, found, hfound, asBytes, hbytes, localIp,
      hlocalIp, localPort, hlocalPort, remoteIp, hremoteIp, remotePort,
      hremotePort, hreport⟩ := hprint
    rw [hdirection hseconds] at hfound
    cases hfound
    cases hreport
    exact ⟨seconds, asBytes, localIp, localPort, remoteIp, remotePort,
      hseconds, hbytes, hlocalIp, hlocalPort, hremoteIp, hremotePort, rfl⟩
  · rintro ⟨seconds, asBytes, localIp, localPort, remoteIp, remotePort,
      hseconds, hbytes, hlocalIp, hlocalPort, hremoteIp, hremotePort, rfl⟩
    simp only [printEvent, hseconds, hdirection hseconds, hbytes, hlocalIp,
      hlocalPort, hremoteIp, hremotePort, ok_bind]
    rfl

theorem completes_printEvent_iff (doc : Json) :
    Completes (printEvent doc) ↔ EventReadable doc := by
  constructor
  · rintro ⟨report, hprint⟩
    obtain ⟨seconds, asBytes, localIp, localPort, remoteIp, remotePort,
      hseconds, hbytes, hlocalIp, hlocalPort, hremoteIp, hremotePort, -⟩ :=
      printEvent_eq_ok_iff.mp hprint
    exact ⟨⟨seconds, Json.intAt_eq_ok_iff.mp hseconds⟩,
      ⟨asBytes, Json.stringAt_eq_ok_iff.mp hbytes⟩,
      ⟨localIp, Json.stringAt_eq_ok_iff.mp hlocalIp⟩,
      ⟨localPort, Json.intAt_eq_ok_iff.mp hlocalPort⟩,
      ⟨remoteIp, Json.stringAt_eq_ok_iff.mp hremoteIp⟩,
      ⟨remotePort, Json.intAt_eq_ok_iff.mp hremotePort⟩⟩
  · rintro ⟨⟨seconds, hseconds⟩, ⟨asBytes, hbytes⟩, ⟨localIp, hlocalIp⟩,
      ⟨localPort, hlocalPort⟩, ⟨remoteIp, hremoteIp⟩,
      ⟨remotePort, hremotePort⟩⟩
    exact ⟨_, printEvent_eq_ok_iff.mpr ⟨seconds, asBytes, localIp, localPort,
      remoteIp, remotePort, Json.intAt_eq_ok_iff.mpr hseconds,
      Json.stringAt_eq_ok_iff.mpr hbytes,
      Json.stringAt_eq_ok_iff.mpr hlocalIp,
      Json.intAt_eq_ok_iff.mpr hlocalPort,
      Json.stringAt_eq_ok_iff.mpr hremoteIp,
      Json.intAt_eq_ok_iff.mpr hremotePort, rfl⟩⟩

theorem hasEvent_eq_ok_iff {doc : Json} {found : Bool} :
    hasEvent doc = .ok found ↔
      doc.isObject = true ∧
      (∀ segment, doc.member? SEGMENT = some segment →
        segment.isObject = true) ∧
      found = (doc.at? (inEvent [])).isSome := by
  have hat : doc.at? (inEvent []) =
      (doc.member? SEGMENT).bind fun segment => segment.member? EVENT := by
    rw [inEvent, List.map_nil, Json.at?_cons]
    simp only [Json.at?_singleton]
  rw [hasEvent, hat]
  by_cases hroot : doc.isObject = true
  · rw [Json.hasMember_of_isObject _ hroot, ok_bind]
    cases hsegment : doc.member? SEGMENT with
    | none =>
        constructor
        · intro hfound
          cases hfound
          exact ⟨hroot, fun _ hsome => absurd hsome (by simp), rfl⟩
        · rintro ⟨-, -, rfl⟩
          rfl
    | some segment =>
        rw [Option.isSome_some, if_pos rfl, Json.member_eq_ok_iff.mpr hsegment,
          ok_bind]
        by_cases hobject : segment.isObject = true
        · rw [Json.hasMember_of_isObject _ hobject]
          constructor
          · intro hfound
            cases hfound
            refine ⟨hroot, fun other hother => ?_, rfl⟩
            cases hother
            exact hobject
          · rintro ⟨-, -, rfl⟩
            rfl
        · simp [Json.hasMember, hobject]
  · simp [Json.hasMember, hroot]

theorem decodeJson_completes_iff (parse : Bytes → Option Json)
    (pJsonStr : Bytes) :
    Completes (decodeJson parse pJsonStr) ↔
      Decodable (document parse pJsonStr) := by
  rw [decodeJson, decodeDocument, completes_bind_iff]
  constructor
  · rintro ⟨found, hfound, hrest⟩
    obtain ⟨hroot, hsegment, hevent⟩ := hasEvent_eq_ok_iff.mp hfound
    refine ⟨hroot, hsegment, fun hsome => ?_⟩
    rw [hevent, if_pos hsome, completes_bind_iff] at hrest
    obtain ⟨report, hprint, -⟩ := hrest
    exact (completes_printEvent_iff _).mp ⟨report, hprint⟩
  · rintro ⟨hroot, hsegment, hevent⟩
    refine ⟨_, hasEvent_eq_ok_iff.mpr ⟨hroot, hsegment, rfl⟩, ?_⟩
    split
    · rename_i hsome
      obtain ⟨report, hprint⟩ := (completes_printEvent_iff _).mpr (hevent hsome)
      rw [hprint, ok_bind]
      exact completes_pure _
    · exact completes_pure _

/-- The empty text, and an event without members. -/
theorem decodeJson_aborts :
    decodeJson (fun _ => none) [] = .error (.hasMember SEGMENT) ∧
    decodeDocument (.object [(SEGMENT, .object [(EVENT, .object [])])]) =
      .error (.member (ascii "timestamp")) ∧
    ¬ Completes (decodeJson (fun _ => none) []) := by
  refine ⟨rfl, rfl, ?_⟩
  exact not_completes_error (FailedAssertion.hasMember SEGMENT)

end CandCpp.Network.OneThreadPerQueue
