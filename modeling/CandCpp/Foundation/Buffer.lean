import CandCpp.Foundation.Fallible

/-!
# Fixed-size byte buffers and C strings

A `Buffer` is an array of bytes whose size never changes.  Storing outside it
and reading it as a C string when it holds no NUL are faults: the language
gives the program no meaning from there on.  `cText` is the text a C string
stands for, the bytes in front of the first NUL; `clear` is `memset` with zero
over the whole array, `write` stores data from index zero on, and `store`,
`load` and `cString` are an assignment to one element, a copy out of the first
elements and the use as a C string.
-/

namespace CandCpp.Foundation

abbrev Bytes := List UInt8

inductive MemoryFault where
  | outOfBounds (index : Nat)
  | unterminated
  deriving DecidableEq, Repr

def ascii (text : String) : Bytes :=
  text.toList.map fun character => UInt8.ofNat character.toNat

/-! ## The text of a C string -/

def cText (bytes : Bytes) : Bytes := bytes.takeWhile (· != 0)

theorem cText_subset (bytes : Bytes) : cText bytes ⊆ bytes :=
  List.takeWhile_subset _

theorem zero_notMem_cText (bytes : Bytes) : 0 ∉ cText bytes := by
  intro hmem
  have hall := List.all_takeWhile (l := bytes) (p := (· != 0))
  rw [List.all_eq_true] at hall
  simpa using hall 0 hmem

theorem cText_append_zero {data : Bytes} (hdata : 0 ∉ data) (rest : Bytes) :
    cText (data ++ 0 :: rest) = data := by
  unfold cText
  rw [List.takeWhile_append_of_pos]
  · simp
  · intro byte hbyte
    simpa using ne_of_mem_of_not_mem hbyte hdata

theorem cText_append_of_mem {data : Bytes} (hdata : 0 ∈ data)
    (rest : Bytes) : cText (data ++ rest) = cText data := by
  induction data with
  | nil => simp at hdata
  | cons byte data ih =>
      by_cases hbyte : byte = 0
      · simp [cText, hbyte]
      · have htail : 0 ∈ data := by simpa [Ne.symm hbyte] using hdata
        simpa [cText, hbyte] using ih htail

theorem cText_append_of_notMem {data : Bytes} (hdata : 0 ∉ data)
    (rest : Bytes) : cText (data ++ rest) = data ++ cText rest := by
  unfold cText
  rw [List.takeWhile_append_of_pos]
  intro byte hbyte
  simpa using ne_of_mem_of_not_mem hbyte hdata

theorem cText_eq_self_iff {bytes : Bytes} : cText bytes = bytes ↔ 0 ∉ bytes := by
  constructor
  · intro h
    rw [← h]
    exact zero_notMem_cText bytes
  · intro h
    simpa [cText] using cText_append_of_notMem h []

@[simp] theorem cText_cons_zero (rest : Bytes) : cText (0 :: rest) = [] := by
  simp [cText]

/-! ## Buffers -/

structure Buffer (capacity : Nat) where
  bytes : Bytes
  length_bytes : bytes.length = capacity
  deriving DecidableEq

namespace Buffer

variable {capacity : Nat}

attribute [simp] length_bytes

@[ext] theorem ext {first second : Buffer capacity}
    (h : first.bytes = second.bytes) : first = second := by
  cases first
  cases second
  simpa using h

def zeroed (capacity : Nat) : Buffer capacity :=
  ⟨List.replicate capacity 0, List.length_replicate⟩

@[simp] theorem bytes_zeroed (capacity : Nat) :
    (zeroed capacity).bytes = List.replicate capacity 0 := rfl

theorem cText_zeroed (capacity : Nat) :
    cText (zeroed capacity).bytes = [] := by
  rw [bytes_zeroed]
  cases capacity with
  | zero => rfl
  | succ capacity => rw [List.replicate_succ, cText_cons_zero]

def clear (_ : Buffer capacity) : Buffer capacity := zeroed capacity

@[simp] theorem clear_eq (buffer : Buffer capacity) :
    buffer.clear = zeroed capacity := rfl

def overwrite (buffer : Buffer capacity) (data : Bytes)
    (hfits : data.length ≤ capacity) : Buffer capacity :=
  ⟨data ++ buffer.bytes.drop data.length, by simp; omega⟩

@[simp] theorem bytes_overwrite (buffer : Buffer capacity) (data : Bytes)
    (hfits : data.length ≤ capacity) :
    (buffer.overwrite data hfits).bytes =
      data ++ buffer.bytes.drop data.length := rfl

def write (buffer : Buffer capacity) (data : Bytes) :
    Except MemoryFault (Buffer capacity) :=
  if hfits : data.length ≤ capacity then .ok (buffer.overwrite data hfits)
  else .error (.outOfBounds capacity)

@[simp] theorem write_of_le (buffer : Buffer capacity) {data : Bytes}
    (hfits : data.length ≤ capacity) :
    buffer.write data = .ok (buffer.overwrite data hfits) := by
  simp [write, hfits]

def store (buffer : Buffer capacity) (index : Nat) (byte : UInt8) :
    Except MemoryFault (Buffer capacity) :=
  if index < capacity then .ok ⟨buffer.bytes.set index byte, by simp⟩
  else .error (.outOfBounds index)

theorem store_of_lt (buffer : Buffer capacity) {index : Nat} (byte : UInt8)
    (hindex : index < capacity) :
    buffer.store index byte = .ok ⟨buffer.bytes.set index byte, by simp⟩ := by
  simp [store, hindex]

theorem completes_store_iff (buffer : Buffer capacity) (index : Nat)
    (byte : UInt8) :
    Completes (buffer.store index byte) ↔ index < capacity := by
  unfold store
  split <;> simp_all

def load (buffer : Buffer capacity) (count : Nat) : Except MemoryFault Bytes :=
  if count ≤ capacity then .ok (buffer.bytes.take count)
  else .error (.outOfBounds capacity)

@[simp] theorem load_of_le (buffer : Buffer capacity) {count : Nat}
    (hcount : count ≤ capacity) :
    buffer.load count = .ok (buffer.bytes.take count) := by
  simp [load, hcount]

def cString (buffer : Buffer capacity) : Except MemoryFault Bytes :=
  if 0 ∈ buffer.bytes then .ok (cText buffer.bytes) else .error .unterminated

theorem cString_of_mem {buffer : Buffer capacity} (h : 0 ∈ buffer.bytes) :
    buffer.cString = .ok (cText buffer.bytes) := by
  simp [cString, h]

theorem completes_cString_iff (buffer : Buffer capacity) :
    Completes buffer.cString ↔ 0 ∈ buffer.bytes := by
  unfold cString
  split <;> simp_all

theorem cText_overwrite_of_mem (buffer : Buffer capacity) {data : Bytes}
    (hfits : data.length ≤ capacity) (hzero : 0 ∈ data) :
    cText (buffer.overwrite data hfits).bytes = cText data := by
  rw [bytes_overwrite, cText_append_of_mem hzero]

theorem bytes_overwrite_zeroed {data : Bytes} (hlt : data.length < capacity) :
    ((zeroed capacity).overwrite data (Nat.le_of_lt hlt)).bytes =
      data ++ 0 :: List.replicate (capacity - data.length - 1) 0 := by
  rw [bytes_overwrite, bytes_zeroed, List.drop_replicate,
    ← List.replicate_succ]
  congr 2
  omega

/-- The NUL stored behind the data is there already in a zeroed buffer. -/
theorem store_overwrite_zeroed {data : Bytes} (hlt : data.length < capacity) :
    ((zeroed capacity).overwrite data (Nat.le_of_lt hlt)).store data.length 0 =
      .ok ((zeroed capacity).overwrite data (Nat.le_of_lt hlt)) := by
  rw [store_of_lt _ _ hlt]
  congr 1
  apply Buffer.ext
  simp

end Buffer

end CandCpp.Foundation
