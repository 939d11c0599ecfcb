import Mathlib.Data.Nat.ModEq
import Mathlib.Tactic.Ring

/-!
# Rings whose size is a power of two

Consecutive numbers, counted from a first one, at the positions of a ring, and
the words with which a program computes such positions: masks, and signed
quotients of differences that may be negative.
-/

namespace CandCpp.Foundation

def ringPosition (capacity first number : Nat) : Nat :=
  (number - first) % capacity

variable {capacity first number other : Nat}

theorem ringPosition_lt (hcapacity : 0 < capacity) :
    ringPosition capacity first number < capacity :=
  Nat.mod_lt _ hcapacity

theorem ringPosition_add (hle : first ≤ number) (distance : Nat) :
    ringPosition capacity first (number + distance) =
      (ringPosition capacity first number + distance) % capacity := by
  rw [ringPosition, ringPosition, Nat.sub_add_comm hle, Nat.mod_add_mod]

/-- Numbers less than one round apart have different positions. -/
theorem ringPosition_inj (hnumber : first ≤ number) (hle : number ≤ other)
    (hless : other < number + capacity)
    (h : ringPosition capacity first number =
      ringPosition capacity first other) : number = other := by
  have hmod : number - first ≡ other - first [MOD capacity] := h
  have hdvd := (Nat.modEq_iff_dvd' (by omega)).mp hmod
  have hzero := Nat.eq_zero_of_dvd_of_lt hdvd (by omega)
  omega

/-- A position is that of its number, whatever the round. -/
theorem ringPosition_modEq (hnumber : first ≤ number)
    (h : other + first ≡ number [MOD capacity]) :
    other % capacity = ringPosition capacity first number := by
  have hsplit : other + first ≡ number - first + first [MOD capacity] := by
    rw [Nat.sub_add_cancel hnumber]
    exact h
  exact Nat.ModEq.add_right_cancel' first hsplit

theorem ringPosition_add_first (hnumber : first ≤ number) :
    ringPosition capacity first number + first ≡ number [MOD capacity] := by
  have hmod : ringPosition capacity first number ≡ number - first
      [MOD capacity] := Nat.mod_modEq _ _
  have hsum := hmod.add_right first
  rwa [Nat.sub_add_cancel hnumber] at hsum

theorem ringPosition_add_capacity (hle : first ≤ number) :
    ringPosition capacity first (number + capacity) =
      ringPosition capacity first number := by
  rw [ringPosition, Nat.sub_add_comm hle, Nat.add_mod_right, ringPosition]

/-- Every position is that of one of the last numbers, once there have been
enough of them. -/
theorem exists_ringPosition {last position : Nat}
    (hlast : first + capacity ≤ last + 1) (hposition : position < capacity) :
    ∃ number, first ≤ number ∧ number ≤ last ∧ last < number + capacity ∧
      ringPosition capacity first number = position := by
  have hrest : (last - first) % capacity < capacity :=
    Nat.mod_lt _ (by omega)
  have hdivision := Nat.div_add_mod (last - first) capacity
  by_cases hle : position ≤ (last - first) % capacity
  · refine ⟨last - ((last - first) % capacity - position), by omega, by omega,
      by omega, ?_⟩
    have hsplit : last - ((last - first) % capacity - position) - first =
        position + capacity * ((last - first) / capacity) := by omega
    rw [ringPosition, hsplit, Nat.add_mul_mod_self_left,
      Nat.mod_eq_of_lt hposition]
  · obtain ⟨rounds, hrounds⟩ : ∃ rounds,
        (last - first) / capacity = rounds + 1 := by
      apply Nat.exists_eq_succ_of_ne_zero
      intro hzero
      rw [hzero] at hdivision
      omega
    rw [hrounds, Nat.mul_succ] at hdivision
    refine ⟨first + (position + capacity * rounds), by omega, by omega, by omega,
      ?_⟩
    rw [ringPosition, Nat.add_sub_cancel_left, Nat.add_mul_mod_self_left,
      Nat.mod_eq_of_lt hposition]

/-- A ring that divides another has the positions of its numbers. -/
theorem ringPosition_of_later {later : Nat} (hfirst : first ≤ later)
    (hnumber : later ≤ number) {position : Nat}
    (h : ringPosition (2 * capacity) later number = position)
    (hless : position < capacity) :
    ringPosition capacity first number =
      ringPosition capacity first (later + position) := by
  have hmod : number - later ≡ position [MOD capacity] := by
    have hdouble : number - later ≡ position [MOD 2 * capacity] := by
      rw [Nat.ModEq, Nat.mod_eq_of_lt (by omega : position < 2 * capacity)]
      exact h
    exact hdouble.of_mul_left 2
  have hsum := hmod.add_left (later - first)
  have hleft : later - first + (number - later) = number - first := by omega
  have hright : later - first + position = later + position - first := by omega
  rw [hleft, hright] at hsum
  exact hsum

/-! ## Words -/

theorem toNat_and_sub_one {size : UInt64} {bits : Nat}
    (hsize : size.toNat = 2 ^ bits) (word : UInt64) :
    (word &&& (size - 1)).toNat = word.toNat % size.toNat := by
  have hpos : 0 < 2 ^ bits := Nat.two_pow_pos bits
  have hone : (1 : UInt64) ≤ size := by
    rw [UInt64.le_iff_toNat_le, UInt64.toNat_one]
    omega
  rw [UInt64.toNat_and, UInt64.toNat_sub_of_le _ _ hone, UInt64.toNat_one, hsize,
    Nat.and_two_pow_sub_one_eq_mod]

theorem two_pow_dvd_of_toNat {size : UInt64} {bits : Nat}
    (hsize : size.toNat = 2 ^ bits) : size.toNat ∣ 2 ^ 64 := by
  have hless := size.toNat_lt
  rw [hsize] at hless ⊢
  exact Nat.pow_dvd_pow 2 (Nat.le_of_lt ((Nat.pow_lt_pow_iff_right (by omega)).mp hless))

theorem toInt_toInt64 (word : UInt64) :
    word.toInt64.toInt = (word.toNat : Int).bmod (2 ^ 64) :=
  word.toBitVec.toInt_eq_toNat_bmod

theorem toInt_toUInt64 (value : Int64) :
    value.toInt = (value.toUInt64.toNat : Int).bmod (2 ^ 64) :=
  value.toBitVec.toInt_eq_toNat_bmod

theorem signedQuotient {step base other : UInt64} {count : Nat}
    (hstep : step.toNat = 32) (hbase : base.toNat = 32 * number)
    (hother : other.toNat = 32 * count) (hnumber : number < 2 ^ 58)
    (hcount : count < 2 ^ 58) :
    ((base - other).toInt64 / step.toInt64).toInt = (number : Int) - count := by
  have hdifference : (base - other).toInt64.toInt = (number - count) * 32 := by
    rw [toInt_toInt64, UInt64.toNat_sub, Int.bmod_def, hbase, hother]
    omega
  have hdivisor : step.toInt64.toInt = 32 := by
    rw [toInt_toInt64, hstep]
    decide
  have hne : step.toInt64 ≠ -1 := by
    intro h
    rw [h] at hdivisor
    exact absurd hdivisor (by decide)
  rw [Int64.toInt_div_of_ne_right _ _ hne, hdifference, hdivisor,
    Int.mul_tdiv_cancel _ (by decide)]

/-- The quotient of the difference of two multiples, back in an unsigned word. -/
theorem signedQuotient_modEq {step base other : UInt64} {count : Nat}
    (hstep : step.toNat = 32) (hbase : base.toNat = 32 * number)
    (hother : other.toNat = 32 * count) (hnumber : number < 2 ^ 58)
    (hcount : count < 2 ^ 58) :
    ((base - other).toInt64 / step.toInt64).toUInt64.toNat + count ≡ number
      [MOD 2 ^ 64] := by
  have hquotient := signedQuotient hstep hbase hother hnumber hcount
  rw [toInt_toUInt64, Int.bmod_def] at hquotient
  have hless := ((base - other).toInt64 / step.toInt64).toUInt64.toNat_lt
  rw [Nat.ModEq]
  omega

/-- From the position of one number to that of another, by their distance. -/
theorem toNat_position {size tail distance : UInt64} {bits count : Nat}
    (hsize : size.toNat = 2 ^ bits)
    (htail : tail.toNat = ringPosition size.toNat first count)
    (hcount : first ≤ count) (hnumber : first ≤ number)
    (hdistance : distance.toNat + count ≡ number [MOD 2 ^ 64]) :
    ((tail + distance) &&& (size - 1)).toNat =
      ringPosition size.toNat first number := by
  rw [toNat_and_sub_one hsize, UInt64.toNat_add,
    Nat.mod_mod_of_dvd _ (two_pow_dvd_of_toNat hsize)]
  apply ringPosition_modEq hnumber
  have hsum : distance.toNat + (ringPosition size.toNat first count + first) ≡
      distance.toNat + count [MOD size.toNat] :=
    (ringPosition_add_first hcount).add_left _
  have hsplit : tail.toNat + distance.toNat + first =
      distance.toNat + (ringPosition size.toNat first count + first) := by
    rw [htail]
    omega
  rw [hsplit]
  exact hsum.trans (hdistance.of_dvd (two_pow_dvd_of_toNat hsize))

end CandCpp.Foundation
