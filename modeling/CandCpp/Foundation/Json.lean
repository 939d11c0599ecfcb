import CandCpp.Foundation.Buffer

/-!
# JSON documents and partial accessors

A parsed document and the accessors of rapidjson.  An accessor called outside
its precondition fails an assertion, which ends the process.  The total lookups
`member?` and `at?` say what a document holds; the accessors give what the
lookups give, or fail.  The first member of a name is the one that is found.
-/

namespace CandCpp.Foundation

/-- No accessor looks into a number that was not written as an integer. -/
inductive JsonNumber where
  | integer (value : Int)
  | real (mantissa exponent : Int)
  deriving DecidableEq, Repr

inductive Json where
  | null
  | bool (value : Bool)
  | number (value : JsonNumber)
  | string (text : Bytes)
  | array (elements : List Json)
  | object (members : List (Bytes × Json))

inductive FailedAssertion where
  | hasMember (name : Bytes)
  | member (name : Bytes)
  | getInt
  | getString
  deriving DecidableEq, Repr

abbrev INT_MIN : Int := -2147483648

abbrev INT_MAX : Int := 2147483647

namespace Json

/-! ## Lookups -/

def isObject : Json → Bool
  | .object _ => true
  | .null | .bool _ | .number _ | .string _ | .array _ => false

def member? (json : Json) (name : Bytes) : Option Json :=
  match json with
  | .object members => (members.find? fun entry => entry.1 = name).map Prod.snd
  | .null | .bool _ | .number _ | .string _ | .array _ => none

def at? (json : Json) (names : List Bytes) : Option Json :=
  names.foldlM member? json

@[simp] theorem at?_cons (json : Json) (name : Bytes) (names : List Bytes) :
    json.at? (name :: names) =
      (json.member? name).bind fun value => value.at? names := rfl

@[simp] theorem at?_singleton (json : Json) (name : Bytes) :
    json.at? [name] = json.member? name := by
  rw [at?_cons]
  cases json.member? name <;> rfl

theorem at?_append (json : Json) (first second : List Bytes) :
    json.at? (first ++ second) =
      (json.at? first).bind fun value => value.at? second := by
  rw [at?, List.foldlM_append]
  rfl

theorem isObject_of_member? {json value : Json} {name : Bytes}
    (h : json.member? name = some value) : json.isObject = true := by
  cases json with
  | object members => rfl
  | null | bool | number | string | array => cases h

/-! ## Accessors -/

def hasMember (json : Json) (name : Bytes) : Except FailedAssertion Bool :=
  if json.isObject then .ok (json.member? name).isSome
  else .error (.hasMember name)

def member (json : Json) (name : Bytes) : Except FailedAssertion Json :=
  match json.member? name with
  | some value => .ok value
  | none => .error (.member name)

def getInt : Json → Except FailedAssertion Int
  | .number (.integer value) =>
      if INT_MIN ≤ value ∧ value ≤ INT_MAX then .ok value else .error .getInt
  | .number (.real _ _) | .null | .bool _ | .string _ | .array _
  | .object _ => .error .getInt

def getString : Json → Except FailedAssertion Bytes
  | .string text => .ok text
  | .null | .bool _ | .number _ | .array _ | .object _ => .error .getString

/-- `json[name]` for one name after the other. -/
def path (json : Json) (names : List Bytes) : Except FailedAssertion Json :=
  names.foldlM member json

def intAt (json : Json) (names : List Bytes) : Except FailedAssertion Int :=
  json.path names >>= getInt

def stringAt (json : Json) (names : List Bytes) :
    Except FailedAssertion Bytes :=
  json.path names >>= getString

/-! ## Where the accessors succeed -/

theorem hasMember_of_isObject {json : Json} (name : Bytes)
    (h : json.isObject = true) :
    json.hasMember name = .ok (json.member? name).isSome := by
  rw [hasMember, if_pos h]

theorem member_eq_ok_iff {json value : Json} {name : Bytes} :
    json.member name = .ok value ↔ json.member? name = some value := by
  unfold member
  split <;> simp_all

theorem path_eq_ok_iff {json value : Json} {names : List Bytes} :
    json.path names = .ok value ↔ json.at? names = some value := by
  induction names generalizing json with
  | nil => simp [path, at?, pure, Except.pure]
  | cons name names ih =>
      rw [path, List.foldlM_cons, bind_eq_ok_iff, at?_cons,
        Option.bind_eq_some_iff]
      constructor
      · rintro ⟨middle, hmiddle, hrest⟩
        exact ⟨middle, member_eq_ok_iff.mp hmiddle, ih.mp hrest⟩
      · rintro ⟨middle, hmiddle, hrest⟩
        exact ⟨middle, member_eq_ok_iff.mpr hmiddle, ih.mpr hrest⟩

theorem getInt_eq_ok_iff {json : Json} {value : Int} :
    json.getInt = .ok value ↔
      json = .number (.integer value) ∧ INT_MIN ≤ value ∧ value ≤ INT_MAX := by
  unfold getInt
  split
  · split
    · simp_all
      intro heq
      omega
    · simp_all
      intro heq
      omega
  all_goals simp_all

theorem getString_eq_ok_iff {json : Json} {text : Bytes} :
    json.getString = .ok text ↔ json = .string text := by
  cases json <;> simp [getString]

theorem intAt_eq_ok_iff {json : Json} {names : List Bytes} {value : Int} :
    json.intAt names = .ok value ↔
      json.at? names = some (.number (.integer value)) ∧
        INT_MIN ≤ value ∧ value ≤ INT_MAX := by
  rw [intAt, bind_eq_ok_iff]
  constructor
  · rintro ⟨number, hpath, hint⟩
    obtain ⟨rfl, hrange⟩ := getInt_eq_ok_iff.mp hint
    exact ⟨path_eq_ok_iff.mp hpath, hrange⟩
  · rintro ⟨hat, hrange⟩
    exact ⟨_, path_eq_ok_iff.mpr hat, getInt_eq_ok_iff.mpr ⟨rfl, hrange⟩⟩

theorem stringAt_eq_ok_iff {json : Json} {names : List Bytes} {text : Bytes} :
    json.stringAt names = .ok text ↔
      json.at? names = some (.string text) := by
  rw [stringAt, bind_eq_ok_iff]
  constructor
  · rintro ⟨value, hpath, hstring⟩
    obtain rfl := getString_eq_ok_iff.mp hstring
    exact path_eq_ok_iff.mp hpath
  · intro hat
    exact ⟨_, path_eq_ok_iff.mpr hat, getString_eq_ok_iff.mpr rfl⟩

end Json

end CandCpp.Foundation
