import CandCpp.Foundation.Buffer

/-!
# The wire format of protocol buffers

A serialized message is a list of fields; a field is a tag, which holds its
number and the type of its value, and the value.  A reader takes a value off
the front of the bytes.  Readers do not look past what they take, so bytes
appended to a message are read after it; a zero byte there is a tag of field
number zero, which no field has.
-/

namespace CandCpp.Foundation.ProtoWire

inductive WireValue where
  | varint (value : Nat)
  | fixed64 (bytes : Bytes)
  | lengthDelimited (bytes : Bytes)
  | fixed32 (bytes : Bytes)
  deriving DecidableEq, Repr

structure Field where
  number : Nat
  value : WireValue
  deriving DecidableEq, Repr

/-! ## Readers -/

def readVarint : Nat → Bytes → Option (Nat × Bytes)
  | 0, _ => none
  | _ + 1, [] => none
  | fuel + 1, byte :: rest =>
      if byte.toNat < 128 then some (byte.toNat, rest)
      else (readVarint fuel rest).map fun (high, rest) =>
        (byte.toNat - 128 + 128 * high, rest)

def readBytes (count : Nat) (bytes : Bytes) : Option (Bytes × Bytes) :=
  if count ≤ bytes.length then some (bytes.take count, bytes.drop count)
  else none

def readValue (wireType : Nat) (bytes : Bytes) : Option (WireValue × Bytes) :=
  match wireType with
  | 0 => (readVarint 10 bytes).map fun (value, rest) => (.varint value, rest)
  | 1 => (readBytes 8 bytes).map fun (value, rest) => (.fixed64 value, rest)
  | 2 => (readVarint 5 bytes).bind fun (count, rest) =>
      (readBytes count rest).map fun (value, rest) =>
        (.lengthDelimited value, rest)
  | 5 => (readBytes 4 bytes).map fun (value, rest) => (.fixed32 value, rest)
  | _ => none

def readTagged (tag : Nat) (bytes : Bytes) : Option (Field × Bytes) :=
  if tag / 8 = 0 then none
  else (readValue (tag % 8) bytes).map fun (value, rest) =>
    (⟨tag / 8, value⟩, rest)

def readField (bytes : Bytes) : Option (Field × Bytes) :=
  (readVarint 5 bytes).bind fun (tag, rest) => readTagged tag rest

def readFields : Nat → Bytes → Option (List Field)
  | _, [] => some []
  | 0, _ :: _ => none
  | fuel + 1, byte :: rest =>
      (readField (byte :: rest)).bind fun (field, rest) =>
        (readFields fuel rest).map (field :: ·)

/-- Every field takes at least one byte. -/
def decode (bytes : Bytes) : Option (List Field) :=
  readFields bytes.length bytes

/-! ## Bytes behind what is read -/

def Extends {Value : Type} (read : Bytes → Option (Value × Bytes)) : Prop :=
  ∀ bytes value rest tail, read bytes = some (value, rest) →
    read (bytes ++ tail) = some (value, rest ++ tail)

theorem Extends.map {Value Result : Type}
    {read : Bytes → Option (Value × Bytes)} (h : Extends read)
    (make : Value → Result) :
    Extends fun bytes =>
      (read bytes).map fun (value, rest) => (make value, rest) := by
  intro bytes value rest tail hread
  simp only [Option.map_eq_some_iff, Prod.exists, Prod.mk.injEq] at hread ⊢
  obtain ⟨first, middle, hfirst, rfl, rfl⟩ := hread
  exact ⟨first, middle ++ tail, h _ _ _ tail hfirst, rfl, rfl⟩

theorem Extends.bind {Value Result : Type}
    {read : Bytes → Option (Value × Bytes)} (h : Extends read)
    {next : Value → Bytes → Option (Result × Bytes)}
    (hnext : ∀ value, Extends (next value)) :
    Extends fun bytes =>
      (read bytes).bind fun (value, rest) => next value rest := by
  intro bytes value rest tail hread
  simp only [Option.bind_eq_some_iff, Prod.exists] at hread ⊢
  obtain ⟨first, middle, hfirst, hrest⟩ := hread
  exact ⟨first, middle ++ tail, h _ _ _ tail hfirst,
    hnext first _ _ _ tail hrest⟩

theorem extends_readVarint (fuel : Nat) : Extends (readVarint fuel) := by
  induction fuel with
  | zero =>
      intro bytes value rest tail hread
      cases hread
  | succ fuel ih =>
      intro bytes value rest tail hread
      cases bytes with
      | nil => cases hread
      | cons byte bytes =>
          rw [readVarint] at hread
          rw [List.cons_append, readVarint]
          split at hread
          · rename_i hlast
            cases hread
            rw [if_pos hlast]
          · rename_i hmore
            rw [if_neg hmore]
            exact ih.map (fun high => byte.toNat - 128 + 128 * high) bytes value
              rest tail hread

theorem extends_readBytes (count : Nat) : Extends (readBytes count) := by
  intro bytes value rest tail hread
  unfold readBytes at hread
  split at hread <;> cases hread
  rename_i hfits
  have hlonger : count ≤ (bytes ++ tail).length := by
    rw [List.length_append]
    omega
  rw [readBytes, if_pos hlonger, List.take_append_of_le_length hfits,
    List.drop_append_of_le_length hfits]

theorem extends_readValue (wireType : Nat) : Extends (readValue wireType) := by
  unfold readValue
  split
  · exact (extends_readVarint 10).map _
  · exact (extends_readBytes 8).map _
  · exact (extends_readVarint 5).bind fun count =>
      (extends_readBytes count).map _
  · exact (extends_readBytes 4).map _
  · intro bytes value rest tail hread
    cases hread

theorem extends_readTagged (tag : Nat) : Extends (readTagged tag) := by
  intro bytes value rest tail hread
  unfold readTagged at hread ⊢
  split at hread
  · cases hread
  · rename_i hnumber
    rw [if_neg hnumber]
    exact (extends_readValue _).map (Field.mk (tag / 8)) bytes value rest tail
      hread

theorem extends_readField : Extends readField :=
  (extends_readVarint 5).bind extends_readTagged

theorem readField_zero (rest : Bytes) : readField (0 :: rest) = none := by
  rfl

/-! ## A zero byte behind a message -/

theorem readFields_append_zero {fuel : Nat} {bytes : Bytes}
    {fields : List Field} (hread : readFields fuel bytes = some fields)
    (other : Nat) (rest : Bytes) :
    readFields other (bytes ++ 0 :: rest) = none := by
  induction fuel generalizing bytes fields other with
  | zero =>
      cases bytes with
      | nil =>
          cases other with
          | zero => rfl
          | succ other =>
              rw [List.nil_append, readFields, readField_zero]
              rfl
      | cons byte bytes => cases hread
  | succ fuel ih =>
      cases bytes with
      | nil =>
          cases other with
          | zero => rfl
          | succ other =>
              rw [List.nil_append, readFields, readField_zero]
              rfl
      | cons byte bytes =>
          rw [readFields, Option.bind_eq_some_iff] at hread
          obtain ⟨⟨field, middle⟩, hfield, hmiddle⟩ := hread
          simp only [Option.map_eq_some_iff] at hmiddle
          obtain ⟨fields, hfields, -⟩ := hmiddle
          cases other with
          | zero => rfl
          | succ other =>
              have hextended := extends_readField _ _ _ (0 :: rest) hfield
              rw [List.cons_append] at hextended ⊢
              rw [readFields, hextended]
              simp only [Option.bind_some, ih hfields, Option.map_none]

theorem decode_append_zero {bytes : Bytes} {fields : List Field}
    (hdecode : decode bytes = some fields) (rest : Bytes) :
    decode (bytes ++ 0 :: rest) = none :=
  readFields_append_zero hdecode _ rest

end CandCpp.Foundation.ProtoWire
