import CandCpp.Foundation.Buffer

/-!
# The strings of the C++ library

A `BasicString` is laid out as libstdc++ lays out `std::string`: the storage
holds one byte more than the capacity, the byte behind the text is NUL and the
bytes behind that are whatever the memory held before.  A string of at most 15
bytes may live in a buffer inside the object, which has a capacity of 15 like
no storage that is allocated.  Operations that get new memory take what it
holds as an argument.
-/

namespace CandCpp.Foundation

abbrev localCapacity : Nat := 15

abbrev Garbage := Nat → UInt8

def garbage (memory : Garbage) (count : Nat) : Bytes :=
  (List.range count).map memory

@[simp] theorem length_garbage (memory : Garbage) (count : Nat) :
    (garbage memory count).length = count := by
  simp [garbage]

@[ext] structure BasicString where
  text : Bytes
  unused : Bytes
  localCapacity_le : localCapacity ≤ text.length + unused.length

namespace BasicString

def size (string : BasicString) : Nat := string.text.length

def capacity (string : BasicString) : Nat :=
  string.text.length + string.unused.length

def storage (string : BasicString) : Bytes :=
  string.text ++ 0 :: string.unused

theorem length_storage (string : BasicString) :
    string.storage.length = string.capacity + 1 := by
  simp only [storage, capacity, List.length_append, List.length_cons]
  omega

def isLocal (string : BasicString) : Bool := string.capacity == localCapacity

/-! ## Operations -/

def empty (memory : Garbage) : BasicString where
  text := []
  unused := garbage memory localCapacity
  localCapacity_le := by simp

/-- The capacity allocated for `wanted` bytes when `old` do not suffice. -/
def create (wanted old : Nat) : Nat :=
  if wanted < 2 * old then 2 * old else wanted

def resize (string : BasicString) (count : Nat) (memory : Garbage) :
    BasicString :=
  if hfits : count ≤ string.capacity then
    { text := string.text.take count ++
        List.replicate (count - string.size) 0
      unused := string.storage.drop (count + 1)
      localCapacity_le := by
        have hlocal := string.localCapacity_le
        have hstorage := string.length_storage
        simp only [size, capacity] at *
        simp only [List.length_append, List.length_take, List.length_drop,
          List.length_replicate, hstorage]
        omega }
  else
    { text := string.text ++ List.replicate (count - string.size) 0
      unused := garbage memory (create count string.capacity - count)
      localCapacity_le := by
        have hlocal := string.localCapacity_le
        simp only [size, capacity] at *
        simp only [List.length_append, List.length_replicate, length_garbage]
        omega }

/-- `memcpy(&string[0], data, size)`. -/
def memcpy (string : BasicString) (data : Bytes) :
    Except MemoryFault BasicString :=
  if hfits : data.length ≤ string.size then
    .ok {
      text := data ++ string.text.drop data.length
      unused := string.unused
      localCapacity_le := by
        have hlocal := string.localCapacity_le
        simp only [size] at hfits
        simp only [List.length_append, List.length_drop]
        omega }
  else .error (.outOfBounds string.size)

def copy (string : BasicString) (memory : Garbage) : BasicString where
  text := string.text
  unused := garbage memory (localCapacity - string.size)
  localCapacity_le := by
    simp only [length_garbage, size]
    omega

/-- The text of a local string is copied, other storage is taken over. -/
def moveAssign (target source : BasicString) : BasicString :=
  if hlocal : source.isLocal then
    { text := source.text
      unused := target.storage.drop (source.size + 1)
      localCapacity_le := by
        have htarget := target.localCapacity_le
        have hsource : source.capacity = localCapacity := by
          simpa [isLocal] using hlocal
        rw [List.length_drop, length_storage]
        simp only [capacity, size] at *
        omega }
  else source

/-! ## Texts and capacities -/

@[simp] theorem text_empty (memory : Garbage) :
    (empty memory).text = [] := rfl

@[simp] theorem capacity_empty (memory : Garbage) :
    (empty memory).capacity = localCapacity := by
  simp [empty, capacity]

theorem size_resize_empty (first second : Garbage) (count : Nat) :
    ((empty first).resize count second).size = count := by
  unfold resize
  split <;> simp [size]

theorem text_memcpy {string : BasicString} {data : Bytes}
    (hsize : data.length = string.size) :
    (string.memcpy data).map text = .ok data := by
  have hfits : data.length ≤ string.size := Nat.le_of_eq hsize
  have hdrop : string.text.drop data.length = [] :=
    List.drop_eq_nil_of_le (Nat.le_of_eq hsize.symm)
  simp [memcpy, hfits, Except.map, hdrop]

@[simp] theorem text_copy (string : BasicString) (memory : Garbage) :
    (string.copy memory).text = string.text := rfl

theorem capacity_copy (string : BasicString) (memory : Garbage) :
    (string.copy memory).capacity = max localCapacity string.size := by
  simp only [copy, capacity, size, length_garbage]
  omega

@[simp] theorem text_moveAssign (target source : BasicString) :
    (target.moveAssign source).text = source.text := by
  unfold moveAssign
  split <;> rfl

theorem capacity_moveAssign (target source : BasicString)
    (htarget : target.capacity = localCapacity) :
    (target.moveAssign source).capacity = source.capacity := by
  unfold moveAssign
  split
  · rename_i hlocal
    have hsource : source.capacity = localCapacity := by
      simpa [isLocal] using hlocal
    have hsize : source.size ≤ source.capacity := Nat.le_add_right _ _
    rw [capacity, List.length_drop, length_storage, htarget]
    simp only [size] at *
    omega
  · rfl

/-! ## Reading as many bytes as the capacity -/

theorem take_capacity_of_full {string : BasicString}
    (hfull : string.size = string.capacity) :
    string.storage.take string.capacity = string.text := by
  rw [← hfull, storage, size, List.take_left]

theorem take_capacity_of_lt {string : BasicString}
    (hroom : string.size < string.capacity) :
    ∃ rest, string.storage.take string.capacity =
      string.text ++ 0 :: rest := by
  refine ⟨string.unused.take (string.capacity - string.size - 1), ?_⟩
  rw [storage, List.take_append, List.take_of_length_le (Nat.le_of_lt hroom)]
  obtain ⟨spare, hspare⟩ : ∃ spare, string.capacity - string.size = spare + 1 :=
    ⟨string.capacity - string.size - 1, by omega⟩
  change _ ++ List.take (string.capacity - string.size) _ = _
  rw [hspare, List.take_succ_cons, Nat.add_sub_cancel]

end BasicString

end CandCpp.Foundation
