import Mathlib.Data.Finmap
import Mathlib.Logic.Equiv.Basic
import Mathlib.Order.Lattice.Nat

/-!
# Finite tables

What a lookup finds after an entry of a table was written, removed or exchanged
with another one.  A supply hands out keys that a table does not use; which one
may depend on how often it was asked.
-/

namespace CandCpp.Foundation

variable {Key Value : Type} [DecidableEq Key]

abbrev Table (Key Value : Type) := Finmap fun _ : Key => Value

theorem lookup_insert_of_ne (table : Table Key Value) {key other : Key}
    (value : Value) (hne : other ≠ key) :
    (table.insert key value).lookup other = table.lookup other :=
  Finmap.lookup_insert_of_ne table hne

theorem lookup_insert_eq (table : Table Key Value) (key other : Key)
    (value : Value) :
    (table.insert key value).lookup other =
      if other = key then some value else table.lookup other := by
  split
  · rename_i hsame
    rw [hsame, Finmap.lookup_insert]
  · rename_i hother
    rw [lookup_insert_of_ne _ _ hother]

theorem lookup_erase_eq (table : Table Key Value) (key other : Key) :
    (table.erase key).lookup other =
      if other = key then none else table.lookup other := by
  split
  · rename_i hsame
    rw [hsame, Finmap.lookup_erase]
  · rename_i hother
    rw [Finmap.lookup_erase_ne hother]

theorem lookup_swap {table : Table Key Value} {first second : Key}
    {held other : Value} (hfirst : table.lookup first = some held)
    (hsecond : table.lookup second = some other) (key : Key) :
    ((table.insert first other).insert second held).lookup key =
      table.lookup (Equiv.swap first second key) := by
  by_cases hkey : key = second
  · subst hkey
    rw [Finmap.lookup_insert, Equiv.swap_apply_right, hfirst]
  · rw [lookup_insert_of_ne _ _ hkey]
    by_cases hsame : key = first
    · subst hsame
      rw [Finmap.lookup_insert, Equiv.swap_apply_left, hsecond]
    · rw [lookup_insert_of_ne _ _ hsame,
        Equiv.swap_apply_of_ne_of_ne hsame hkey]

theorem erase_insert_of_notMem {table : Table Key Value} {key : Key}
    (hkey : key ∉ table) (value : Value) :
    (table.insert key value).erase key = table := by
  apply Finmap.ext_lookup
  intro other
  rw [lookup_erase_eq]
  split
  · rename_i hsame
    rw [hsame, Finmap.lookup_eq_none.mpr hkey]
  · rename_i hother
    rw [lookup_insert_of_ne _ _ hother]

/-! ## Unused keys -/

structure Supply (Key Value : Type) [DecidableEq Key] where
  fresh : Nat → Table Key Value → Key
  fresh_notMem : ∀ calls table, fresh calls table ∉ table

instance : Inhabited (Supply Nat Value) where
  default :=
    { fresh := fun _ table => table.keys.sup id + 1
      fresh_notMem := by
        intro _ table hmem
        have hle := Finset.le_sup (f := id) (Finmap.mem_keys.mpr hmem)
        exact Nat.not_succ_le_self _ hle }

end CandCpp.Foundation
