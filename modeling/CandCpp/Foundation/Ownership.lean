import CandCpp.Foundation.Fallible
import CandCpp.Foundation.Tables

/-!
# Variables that own objects on a heap

A `std::unique_ptr` is null or holds the address of an object that it owns.
The operations on such variables fault where the language gives them no
meaning: on a variable that is not alive, through a null pointer, at an address
that holds no object.  An allocator returns any address that is not in use.
While every variable owns an object of its own, the operations do what the same
operations do on variables that simply hold values.
-/

namespace CandCpp.Foundation

abbrev HeapAddress := Nat

inductive OwnershipFault (Owner : Type) where
  | lifetime (owner : Owner)
  | nullDereference (owner : Owner)
  | dangling (address : HeapAddress)
  deriving DecidableEq, Repr

namespace OwnershipFault

/-- The caller used a variable that is not alive or made one twice. -/
def IsLifetime {Owner : Type} : OwnershipFault Owner → Prop
  | .lifetime _ => True
  | .nullDereference _ | .dangling _ => False

end OwnershipFault

/-! ## Memories -/

structure Memory (Owner Object : Type) where
  pointers : Table Owner (Option HeapAddress)
  heap : Table HeapAddress Object
  allocations : Nat

/-- The addresses that `new` returns. -/
abbrev Allocator (Object : Type) := Supply HeapAddress Object

variable {Owner Object : Type} [DecidableEq Owner]

namespace Memory

def empty : Memory Owner Object := ⟨∅, ∅, 0⟩

def construct (allocator : Allocator Object) (memory : Memory Owner Object)
    (owner : Owner) (object : Object) :
    Except (OwnershipFault Owner) (Memory Owner Object) :=
  if owner ∈ memory.pointers then .error (.lifetime owner)
  else
    let address := allocator.fresh memory.allocations memory.heap
    .ok {
      pointers := memory.pointers.insert owner (some address)
      heap := memory.heap.insert address object
      allocations := memory.allocations + 1 }

/-- The address that `*owner` is about and the object there. -/
def target (memory : Memory Owner Object) (owner : Owner) :
    Except (OwnershipFault Owner) (HeapAddress × Object) :=
  match memory.pointers.lookup owner with
  | none => .error (.lifetime owner)
  | some none => .error (.nullDereference owner)
  | some (some address) =>
      match memory.heap.lookup address with
      | none => .error (.dangling address)
      | some object => .ok (address, object)

def read (memory : Memory Owner Object) (owner : Owner) :
    Except (OwnershipFault Owner) Object := do
  let (_, object) ← memory.target owner
  return object

def write (memory : Memory Owner Object) (owner : Owner) (object : Object) :
    Except (OwnershipFault Owner) (Memory Owner Object) := do
  let (address, _) ← memory.target owner
  return { memory with heap := memory.heap.insert address object }

def swap (memory : Memory Owner Object) (first second : Owner) :
    Except (OwnershipFault Owner) (Memory Owner Object) :=
  match memory.pointers.lookup first, memory.pointers.lookup second with
  | none, _ => .error (.lifetime first)
  | some _, none => .error (.lifetime second)
  | some held, some other =>
      .ok { memory with
        pointers := (memory.pointers.insert first other).insert second held }

/-- The destructor deletes the object, unless the pointer is null. -/
def destroy (memory : Memory Owner Object) (owner : Owner) :
    Except (OwnershipFault Owner) (Memory Owner Object) :=
  match memory.pointers.lookup owner with
  | none => .error (.lifetime owner)
  | some none => .ok { memory with pointers := memory.pointers.erase owner }
  | some (some address) =>
      if address ∈ memory.heap then
        .ok { memory with
          pointers := memory.pointers.erase owner
          heap := memory.heap.erase address }
      else .error (.dangling address)

end Memory

/-! ## Variables that hold values -/

abbrev Values (Owner Object : Type) := Owner → Option Object

namespace Values

def construct (values : Values Owner Object) (owner : Owner)
    (object : Object) : Option (Values Owner Object) :=
  match values owner with
  | some _ => none
  | none => some (Function.update values owner (some object))

def write (values : Values Owner Object) (owner : Owner) (object : Object) :
    Option (Values Owner Object) :=
  (values owner).map fun _ => Function.update values owner (some object)

def swap (values : Values Owner Object) (first second : Owner) :
    Option (Values Owner Object) := do
  let held ← values first
  let other ← values second
  return Function.update (Function.update values first (some other)) second
    (some held)

def destroy (values : Values Owner Object) (owner : Owner) :
    Option (Values Owner Object) :=
  (values owner).map fun _ => Function.update values owner none

end Values

/-! ## Unique ownership -/

namespace Memory

def values (memory : Memory Owner Object) : Values Owner Object := fun owner =>
  (memory.pointers.lookup owner).bind fun pointer =>
    pointer.bind fun address => memory.heap.lookup address

theorem values_of_lookup {memory : Memory Owner Object} {owner : Owner}
    {address : HeapAddress}
    (hpointer : memory.pointers.lookup owner = some (some address)) :
    memory.values owner = memory.heap.lookup address := by
  rw [values, hpointer]
  rfl

theorem values_of_lookup_none {memory : Memory Owner Object} {owner : Owner}
    (hpointer : memory.pointers.lookup owner = none) :
    memory.values owner = none := by
  rw [values, hpointer]
  rfl

/-- Every variable owns an object, no two the same, and no object is lost. -/
structure Owned (memory : Memory Owner Object) : Prop where
  valid : ∀ owner pointer, memory.pointers.lookup owner = some pointer →
    ∃ address ∈ memory.heap, pointer = some address
  distinct : ∀ first second address,
    memory.pointers.lookup first = some (some address) →
    memory.pointers.lookup second = some (some address) → first = second
  owned : ∀ address ∈ memory.heap,
    ∃ owner, memory.pointers.lookup owner = some (some address)

theorem Owned.unused {memory : Memory Owner Object} (h : memory.Owned)
    {address : HeapAddress} (hfresh : address ∉ memory.heap) (owner : Owner) :
    memory.pointers.lookup owner ≠ some (some address) := by
  intro howner
  obtain ⟨held, hmem, heq⟩ := h.valid owner _ howner
  exact hfresh (Option.some.inj heq ▸ hmem)

theorem Owned.construct {memory : Memory Owner Object} (h : memory.Owned)
    {owner : Owner} {address : HeapAddress}
    (hnew : memory.pointers.lookup owner = none)
    (hfresh : address ∉ memory.heap) (object : Object) (allocations : Nat) :
    Owned ⟨memory.pointers.insert owner (some address),
      memory.heap.insert address object, allocations⟩ where
  valid other pointer hother := by
    rw [lookup_insert_eq] at hother
    split at hother
    · cases hother
      exact ⟨_, Finmap.mem_insert.mpr (.inl rfl), rfl⟩
    · obtain ⟨held, hmem, heq⟩ := h.valid other pointer hother
      exact ⟨held, Finmap.mem_insert.mpr (.inr hmem), heq⟩
  distinct first second held hfirst hsecond := by
    rw [lookup_insert_eq] at hfirst hsecond
    split at hfirst <;> split at hsecond
    · simp_all
    · cases hfirst
      exact absurd hsecond (h.unused hfresh second)
    · cases hsecond
      exact absurd hfirst (h.unused hfresh first)
    · exact h.distinct first second held hfirst hsecond
  owned held hmem := by
    rcases Finmap.mem_insert.mp hmem with rfl | hmem
    · exact ⟨owner, Finmap.lookup_insert _⟩
    · obtain ⟨other, hother⟩ := h.owned held hmem
      have hne : other ≠ owner := by
        rintro rfl
        rw [hnew] at hother
        cases hother
      exact ⟨other, by rw [lookup_insert_of_ne _ _ hne, hother]⟩

theorem Owned.write {memory : Memory Owner Object} (h : memory.Owned)
    {address : HeapAddress} (hlive : address ∈ memory.heap) (object : Object) :
    Owned { memory with heap := memory.heap.insert address object } where
  valid owner pointer howner := by
    obtain ⟨held, hmem, heq⟩ := h.valid owner pointer howner
    exact ⟨held, Finmap.mem_insert.mpr (.inr hmem), heq⟩
  distinct := h.distinct
  owned held hmem := by
    rcases Finmap.mem_insert.mp hmem with rfl | hmem
    · exact h.owned held hlive
    · exact h.owned held hmem

theorem Owned.destroy {memory : Memory Owner Object} (h : memory.Owned)
    {owner : Owner} {address : HeapAddress}
    (hpointer : memory.pointers.lookup owner = some (some address)) :
    Owned { memory with
      pointers := memory.pointers.erase owner
      heap := memory.heap.erase address } where
  valid other pointer hother := by
    rw [lookup_erase_eq] at hother
    split at hother
    · cases hother
    · rename_i hne
      obtain ⟨held, hmem, rfl⟩ := h.valid other pointer hother
      refine ⟨held, Finmap.mem_erase.mpr ⟨?_, hmem⟩, rfl⟩
      rintro rfl
      exact hne (h.distinct other owner held hother hpointer)
  distinct first second held hfirst hsecond := by
    rw [lookup_erase_eq] at hfirst hsecond
    split at hfirst
    · cases hfirst
    · split at hsecond
      · cases hsecond
      · exact h.distinct first second held hfirst hsecond
  owned held hmem := by
    obtain ⟨hne, hmem⟩ := Finmap.mem_erase.mp hmem
    obtain ⟨other, hother⟩ := h.owned held hmem
    refine ⟨other, ?_⟩
    rw [lookup_erase_eq, if_neg, hother]
    rintro rfl
    rw [hpointer] at hother
    cases hother
    exact hne rfl

/-- A variable's value changes only with its pointer or with its object. -/
theorem values_congr {memory next : Memory Owner Object} {owner : Owner}
    (hpointer : next.pointers.lookup owner = memory.pointers.lookup owner)
    (hheap : ∀ address, memory.pointers.lookup owner = some (some address) →
      next.heap.lookup address = memory.heap.lookup address) :
    next.values owner = memory.values owner := by
  unfold values
  rw [hpointer]
  cases hheld : memory.pointers.lookup owner with
  | none => rfl
  | some pointer =>
      cases pointer with
      | none => rfl
      | some address => exact hheap address hheld

theorem values_eq_update {memory next : Memory Owner Object}
    {values : Values Owner Object} (h : memory.values = values) {owner : Owner}
    {value : Option Object} (howner : next.values owner = value)
    (hother : ∀ other ≠ owner, next.values other = memory.values other) :
    next.values = Function.update values owner value := by
  funext other
  by_cases hsame : other = owner
  · rw [hsame, Function.update_self, howner]
  · rw [Function.update_of_ne hsame, hother other hsame, h]

structure Represents (memory : Memory Owner Object)
    (values : Values Owner Object) : Prop where
  owned : memory.Owned
  values_eq : memory.values = values

theorem represents_empty :
    (empty : Memory Owner Object).Represents fun _ => none where
  owned := ⟨by simp [empty], by simp [empty], fun _ hmem =>
    absurd hmem Finmap.notMem_empty⟩
  values_eq := by
    funext owner
    simp [values, empty]

/-- A variable that holds a value points to it, any other is not alive. -/
theorem Represents.cases {memory : Memory Owner Object}
    {values : Values Owner Object} (h : memory.Represents values)
    (owner : Owner) :
    (values owner = none ∧ memory.pointers.lookup owner = none) ∨
      ∃ address object, values owner = some object ∧
        memory.pointers.lookup owner = some (some address) ∧
        memory.heap.lookup address = some object := by
  rw [← h.values_eq]
  cases hpointer : memory.pointers.lookup owner with
  | none => exact .inl ⟨values_of_lookup_none hpointer, rfl⟩
  | some pointer =>
      obtain ⟨address, hmem, rfl⟩ := h.owned.valid owner pointer hpointer
      obtain ⟨object, hobject⟩ := Finmap.mem_iff.mp hmem
      refine .inr ⟨address, object, ?_, rfl, hobject⟩
      rw [values_of_lookup hpointer, hobject]

theorem Represents.construct {memory : Memory Owner Object}
    {values : Values Owner Object} (h : memory.Represents values)
    (allocator : Allocator Object) (owner : Owner) (object : Object) :
    Refines OwnershipFault.IsLifetime Represents
      (memory.construct allocator owner object)
      (values.construct owner object) := by
  rcases h.cases owner with ⟨hvalue, hpointer⟩ | ⟨_, held, hvalue, hpointer, -⟩
  · have hnew : owner ∉ memory.pointers := Finmap.lookup_eq_none.mp hpointer
    have hfresh := allocator.fresh_notMem memory.allocations memory.heap
    rw [Memory.construct, if_neg hnew, Values.construct, hvalue]
    refine ⟨_, rfl, h.owned.construct hpointer hfresh object _,
      values_eq_update h.values_eq ?_ ?_⟩
    · refine Eq.trans (values_of_lookup (Finmap.lookup_insert _)) ?_
      exact Finmap.lookup_insert _
    · intro other hne
      refine values_congr (lookup_insert_of_ne _ _ hne) fun address hother => ?_
      refine lookup_insert_of_ne _ _ ?_
      rintro rfl
      exact h.owned.unused hfresh other hother
  · have hlive : owner ∈ memory.pointers := Finmap.mem_of_lookup_eq_some hpointer
    rw [Memory.construct, if_pos hlive, Values.construct, hvalue]
    exact ⟨_, rfl, trivial⟩

theorem Represents.target {memory : Memory Owner Object}
    {values : Values Owner Object} (h : memory.Represents values)
    (owner : Owner) :
    Refines OwnershipFault.IsLifetime
      (fun found object => found.2 = object ∧
        memory.pointers.lookup owner = some (some found.1))
      (memory.target owner) (values owner) := by
  rcases h.cases owner with ⟨hvalue, hpointer⟩ |
    ⟨address, object, hvalue, hpointer, hobject⟩
  · simp only [Memory.target, hpointer, hvalue]
    exact ⟨_, rfl, trivial⟩
  · simp only [Memory.target, hpointer, hobject, hvalue]
    exact ⟨_, rfl, rfl, rfl⟩

theorem Represents.read {memory : Memory Owner Object}
    {values : Values Owner Object} (h : memory.Represents values)
    (owner : Owner) :
    Refines OwnershipFault.IsLifetime Eq (memory.read owner) (values owner) := by
  rw [← Option.bind_fun_some (values owner)]
  refine (h.target owner).bind ?_
  rintro ⟨address, held⟩ object ⟨rfl, -⟩
  exact .pure rfl

theorem Represents.write {memory : Memory Owner Object}
    {values : Values Owner Object} (h : memory.Represents values)
    (owner : Owner) (object : Object) :
    Refines OwnershipFault.IsLifetime Represents (memory.write owner object)
      (values.write owner object) := by
  rw [Values.write, Option.map_eq_bind]
  refine (h.target owner).bind ?_
  rintro ⟨address, _⟩ held ⟨rfl, hpointer⟩
  obtain ⟨place, hlive, heq⟩ := h.owned.valid owner _ hpointer
  cases heq
  refine ⟨_, rfl, h.owned.write hlive object,
    values_eq_update h.values_eq ?_ ?_⟩
  · refine Eq.trans (values_of_lookup hpointer) ?_
    exact Finmap.lookup_insert _
  · intro other hne
    refine values_congr rfl fun place hother => ?_
    refine lookup_insert_of_ne _ _ ?_
    rintro rfl
    exact hne (h.owned.distinct other owner _ hother hpointer)

/-- Pointers may change hands as long as none is copied or dropped. -/
theorem Represents.permute {memory next : Memory Owner Object}
    {values : Values Owner Object} (h : memory.Represents values)
    (permutation : Equiv.Perm Owner) (hheap : next.heap = memory.heap)
    (hpointers : ∀ owner, next.pointers.lookup owner =
      memory.pointers.lookup (permutation owner)) :
    next.Represents fun owner => values (permutation owner) := by
  refine ⟨⟨?_, ?_, ?_⟩, ?_⟩
  · intro owner pointer hpointer
    rw [hpointers] at hpointer
    rw [hheap]
    exact h.owned.valid _ pointer hpointer
  · intro first second address hfirst hsecond
    rw [hpointers] at hfirst hsecond
    exact permutation.injective
      (h.owned.distinct _ _ address hfirst hsecond)
  · intro address hmem
    rw [hheap] at hmem
    obtain ⟨owner, howner⟩ := h.owned.owned address hmem
    refine ⟨permutation.symm owner, ?_⟩
    rw [hpointers, permutation.apply_symm_apply, howner]
  · funext owner
    rw [← h.values_eq, Memory.values, Memory.values, hheap]
    have hsame := hpointers owner
    cases hpointer : memory.pointers.lookup (permutation owner) with
    | none =>
        rw [hpointer] at hsame
        rw [hsame]
    | some pointer =>
        rw [hpointer] at hsame
        rw [hsame]

theorem Represents.swap {memory : Memory Owner Object}
    {values : Values Owner Object} (h : memory.Represents values)
    (first second : Owner) :
    Refines OwnershipFault.IsLifetime Represents (memory.swap first second)
      (values.swap first second) := by
  unfold Memory.swap Values.swap
  rcases h.cases first with ⟨hvalue, hpointer⟩ |
    ⟨address, held, hvalue, hpointer, -⟩
  · rw [hpointer, hvalue]
    exact ⟨_, rfl, trivial⟩
  · rcases h.cases second with ⟨hother, hlookup⟩ |
      ⟨place, other, hother, hlookup, -⟩
    · rw [hpointer, hlookup, hvalue, hother]
      exact ⟨_, rfl, trivial⟩
    · rw [hpointer, hlookup, hvalue, hother]
      have hvalues : Function.update (Function.update values first (some other))
          second (some held) =
            fun owner => values (Equiv.swap first second owner) := by
        funext owner
        by_cases hsecond : owner = second
        · rw [hsecond, Function.update_self, Equiv.swap_apply_right, hvalue]
        · rw [Function.update_of_ne hsecond]
          by_cases hfirst : owner = first
          · rw [hfirst, Function.update_self, Equiv.swap_apply_left, hother]
          · rw [Function.update_of_ne hfirst,
              Equiv.swap_apply_of_ne_of_ne hfirst hsecond]
      refine ⟨_, rfl, ?_⟩
      rw [hvalues]
      exact h.permute (Equiv.swap first second) rfl
        (lookup_swap hpointer hlookup)

theorem Represents.destroy {memory : Memory Owner Object}
    {values : Values Owner Object} (h : memory.Represents values)
    (owner : Owner) :
    Refines OwnershipFault.IsLifetime Represents (memory.destroy owner)
      (values.destroy owner) := by
  unfold Memory.destroy Values.destroy
  rcases h.cases owner with ⟨hvalue, hpointer⟩ |
    ⟨address, held, hvalue, hpointer, hobject⟩
  · rw [hpointer, hvalue]
    exact ⟨_, rfl, trivial⟩
  · have hlive : address ∈ memory.heap := Finmap.mem_of_lookup_eq_some hobject
    rw [hpointer, hvalue]
    simp only [hlive, if_true]
    refine ⟨_, rfl, h.owned.destroy hpointer,
      values_eq_update h.values_eq ?_ ?_⟩
    · exact values_of_lookup_none (Finmap.lookup_erase _ _)
    · intro other hne
      refine values_congr (Finmap.lookup_erase_ne hne) fun place hother => ?_
      refine Finmap.lookup_erase_ne ?_
      rintro rfl
      exact hne (h.owned.distinct other owner place hother hpointer)

end Memory

end CandCpp.Foundation
