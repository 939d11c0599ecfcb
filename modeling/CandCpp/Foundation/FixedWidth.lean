import CandCpp.Foundation.Fallible
import Mathlib.Data.Int.ModEq
import Mathlib.Tactic.Positivity

/-!
# Fixed-width integers of C++

A type is a width and whether it is signed; a value carries the proof that its
type represents it.  Conversion to a type is two's complement.  The operands of
`+` are converted to their common type first, where unsigned addition wraps and
signed addition that overflows has no meaning.
-/

namespace CandCpp.Foundation

/-! ## Types -/

structure IntegerType where
  signed : Bool
  bits : Nat
  bits_pos : 0 < bits
  deriving DecidableEq, Repr

namespace IntegerType

def int : IntegerType := ⟨true, 32, by decide⟩

def minimum (type : IntegerType) : Int :=
  if type.signed then -2 ^ (type.bits - 1) else 0

def Represents (type : IntegerType) (value : Int) : Prop :=
  type.minimum ≤ value ∧ value < type.minimum + 2 ^ type.bits

instance (type : IntegerType) (value : Int) :
    Decidable (type.Represents value) :=
  inferInstanceAs (Decidable (_ ∧ _))

def wrap (type : IntegerType) (value : Int) : Int :=
  type.minimum + (value - type.minimum) % 2 ^ type.bits

/-- A type below `int` is promoted to it. -/
def promote (type : IntegerType) : IntegerType :=
  if type.bits < int.bits then int else type

/-- The wider of two promoted types, the unsigned one where they are as wide. -/
def common (first second : IntegerType) : IntegerType :=
  let left := first.promote
  let right := second.promote
  if left.bits < right.bits then right
  else if left.bits = right.bits ∧ right.signed = false then right
  else left

variable {type : IntegerType} {value other : Int}

theorem represents_wrap (type : IntegerType) (value : Int) :
    type.Represents (type.wrap value) := by
  have hpos : (0 : Int) < 2 ^ type.bits := by positivity
  have hnonneg := Int.emod_nonneg (value - type.minimum) (ne_of_gt hpos)
  have hlt := Int.emod_lt_of_pos (value - type.minimum) hpos
  unfold Represents wrap
  omega

theorem wrap_modEq (type : IntegerType) (value : Int) :
    type.wrap value ≡ value [ZMOD 2 ^ type.bits] := by
  have hmod := (Int.mod_modEq (value - type.minimum)
    (2 ^ type.bits)).add_left type.minimum
  rwa [add_sub_cancel] at hmod

theorem wrap_congr (h : value ≡ other [ZMOD 2 ^ type.bits]) :
    type.wrap value = type.wrap other := by
  have hsub := h.sub_right type.minimum
  rw [wrap, wrap, hsub.eq]

theorem wrap_of_represents (h : type.Represents value) :
    type.wrap value = value := by
  obtain ⟨hlow, hhigh⟩ := h
  rw [wrap, Int.emod_eq_of_lt (by omega) (by omega)]
  omega

/-! ## The common type -/

theorem bits_le_common_left (first second : IntegerType) :
    first.bits ≤ (first.common second).bits := by
  unfold common promote
  grind

theorem bits_le_common_right (first second : IntegerType) :
    second.bits ≤ (first.common second).bits := by
  unfold common promote
  grind

/-- A signed type with room for all values of another type. -/
structure Widens (narrow wide : IntegerType) : Prop where
  signed : wide.signed = true
  bits_le : narrow.bits ≤ wide.bits
  bits_lt : narrow.signed = false → narrow.bits < wide.bits

theorem widens_common_left {first second : IntegerType}
    (h : (first.common second).signed = true) :
    first.Widens (first.common second) := by
  refine ⟨h, bits_le_common_left first second, ?_⟩
  revert h
  unfold common promote
  grind

theorem widens_common_right {first second : IntegerType}
    (h : (first.common second).signed = true) :
    second.Widens (first.common second) := by
  refine ⟨h, bits_le_common_right first second, ?_⟩
  revert h
  unfold common promote
  grind

theorem two_pow_bits (type : IntegerType) :
    (2 : Int) ^ type.bits = 2 * 2 ^ (type.bits - 1) := by
  rw [← pow_succ', Nat.sub_add_cancel type.bits_pos]

theorem Widens.represents {narrow wide : IntegerType}
    (h : narrow.Widens wide) (hvalue : narrow.Represents value) :
    wide.Represents value := by
  have hwide := two_pow_bits wide
  have hnarrow := two_pow_bits narrow
  simp only [Represents, minimum, h.signed, if_true] at hvalue ⊢
  cases hsigned : narrow.signed with
  | true =>
      have hle : (2 : Int) ^ (narrow.bits - 1) ≤ 2 ^ (wide.bits - 1) :=
        pow_le_pow_right₀ (by decide) (Nat.sub_le_sub_right h.bits_le 1)
      simp only [hsigned, if_true] at hvalue
      omega
  | false =>
      have hle : (2 : Int) ^ narrow.bits ≤ 2 ^ (wide.bits - 1) :=
        pow_le_pow_right₀ (by decide) (Nat.le_sub_one_of_lt (h.bits_lt hsigned))
      simp only [hsigned, Bool.false_eq_true, if_false] at hvalue
      omega

/-- `+` on values of these types is defined where it comes to this sum. -/
def NoOverflow (first second : IntegerType) (sum : Int) : Prop :=
  (first.common second).signed = true → (first.common second).Represents sum

instance (first second : IntegerType) (sum : Int) :
    Decidable (first.NoOverflow second sum) :=
  inferInstanceAs (Decidable (_ → _))

theorem noOverflow_of_represents {first : IntegerType} (second : IntegerType)
    (h : first.Represents value) : first.NoOverflow second value :=
  fun hsigned => (widens_common_left hsigned).represents h

/-- The sum of two values of such types is computed without signed overflow. -/
def NeverOverflows (type : IntegerType) : Prop :=
  type.promote.signed = false ∨ type.bits + 1 < int.bits

instance (type : IntegerType) : Decidable type.NeverOverflows :=
  inferInstanceAs (Decidable (_ ∨ _))

theorem common_eq_int {first second : IntegerType}
    (hfirst : first.NeverOverflows) (hsecond : second.NeverOverflows)
    (hsigned : (first.common second).signed = true) :
    first.common second = int ∧ first.bits + 1 < int.bits ∧
      second.bits + 1 < int.bits := by
  revert hsigned
  unfold NeverOverflows at hfirst hsecond
  unfold common
  unfold promote at *
  grind

theorem represents_half {narrow : IntegerType}
    (hbits : narrow.bits + 1 < int.bits) (hvalue : narrow.Represents value) :
    -2 ^ 30 ≤ value ∧ value < 2 ^ 30 := by
  have hwide : narrow.Widens ⟨true, 31, by decide⟩ := by
    refine ⟨rfl, ?_, fun _ => ?_⟩
    · exact Nat.le_of_lt (Nat.lt_of_succ_lt_succ hbits)
    · exact Nat.lt_of_succ_lt_succ hbits
  have hhalf := hwide.represents hvalue
  simp only [Represents, minimum, if_true] at hhalf
  omega

theorem NeverOverflows.noOverflow {first second : IntegerType}
    (hfirst : first.NeverOverflows) (hsecond : second.NeverOverflows)
    (hvalue : first.Represents value) (hother : second.Represents other) :
    first.NoOverflow second (value + other) := by
  intro hsigned
  obtain ⟨hint, hleft, hright⟩ := common_eq_int hfirst hsecond hsigned
  have hlow := represents_half hleft hvalue
  have hhigh := represents_half hright hother
  rw [hint]
  simp only [Represents, minimum, int, if_true]
  omega

/-! ## Sums raised by the range of an unsigned type -/

/-- The widths of the types that `<cstdint>` has for certain. -/
def standardWidths : List Nat := [8, 16, 32, 64]

def Standard (type : IntegerType) : Prop :=
  type.bits ∈ standardWidths

instance (type : IntegerType) : Decidable type.Standard :=
  inferInstanceAs (Decidable (_ ∈ _))

/-- Between two widths there is room for a sign and a carry. -/
theorem add_two_le_of_standard {narrow wide : Nat}
    (hnarrow : narrow ∈ standardWidths) (hwide : wide ∈ standardWidths)
    (hlt : narrow < wide) : narrow + 2 ≤ wide := by
  simp only [standardWidths, List.mem_cons, List.not_mem_nil, or_false]
    at hnarrow hwide
  omega

theorem Standard.common {first second : IntegerType} (hfirst : first.Standard)
    (hsecond : second.Standard) : (first.common second).Standard := by
  have hint : int.Standard := by decide
  unfold IntegerType.common promote
  grind

/-- A value that stands for a sum: the sum itself, or the sum as an unsigned
type of at least that width shows it. -/
def Raised (type : IntegerType) (least : Nat) (sum value : Int) : Prop :=
  value = sum ∨ ∃ bits ∈ standardWidths, least ≤ bits ∧
    (bits < type.bits ∨ bits = type.bits ∧ type.signed = false) ∧
    value = sum + 2 ^ bits

/-- The values of a signed type of that width. -/
def WithinSigned (least : Nat) (value : Int) : Prop :=
  -2 ^ (least - 1) ≤ value ∧ value < 2 ^ (least - 1)

theorem withinSigned_of_represents (hsigned : type.signed = true)
    (h : type.Represents value) : WithinSigned type.bits value := by
  have htwo := two_pow_bits type
  simp only [Represents, minimum, hsigned, if_true] at h
  unfold WithinSigned
  omega

theorem WithinSigned.represents {least : Nat} (h : WithinSigned least value)
    (hsigned : type.signed = true) (hbits : least ≤ type.bits) :
    type.Represents value := by
  have htwo := two_pow_bits type
  have hle : (2 : Int) ^ (least - 1) ≤ 2 ^ (type.bits - 1) :=
    pow_le_pow_right₀ (by decide) (Nat.sub_le_sub_right hbits 1)
  obtain ⟨hlow, hhigh⟩ := h
  simp only [Represents, minimum, hsigned, if_true]
  omega

/-- A sum that is raised by less than the type's range is nonnegative, and
leaves room for the sign bit of a standard type. -/
theorem WithinSigned.represents_raised {least bits : Nat}
    (h : WithinSigned least value) (hstandard : type.Standard)
    (hbits : bits ∈ standardWidths) (hleast : least ≤ bits)
    (hlt : bits < type.bits) : type.Represents (value + 2 ^ bits) := by
  have hgap := add_two_le_of_standard hbits hstandard hlt
  have hsmall : (2 : Int) ^ (least - 1) ≤ 2 ^ bits :=
    pow_le_pow_right₀ (by decide) (by omega)
  have hhalf : (2 : Int) ^ (bits + 1) ≤ 2 ^ (type.bits - 1) :=
    pow_le_pow_right₀ (by decide) (by omega)
  have htwo := two_pow_bits type
  rw [pow_succ] at hhalf
  obtain ⟨hlow, hhigh⟩ := h
  unfold Represents minimum
  split <;> omega

theorem Raised.noOverflow {first second : IntegerType} {least : Nat}
    {sum : Int} (h : second.Raised least sum value)
    (hwithin : WithinSigned least (other + sum)) (hfirst : first.Standard)
    (hsecond : second.Standard)
    (hfits : least ≤ first.bits ∨ first.Represents (other + sum)) :
    first.NoOverflow second (other + value) := by
  intro hsigned
  rcases h with rfl | ⟨bits, hstandard, hleast, hbits, rfl⟩
  · rcases hfits with hwide | hfits
    · exact hwithin.represents hsigned
        (hwide.trans (bits_le_common_left first second))
    · exact (widens_common_left hsigned).represents hfits
  · have hwidens := widens_common_right hsigned
    have hlt : bits < (first.common second).bits := by
      rcases hbits with hlt | ⟨rfl, hunsigned⟩
      · exact Nat.lt_of_lt_of_le hlt hwidens.bits_le
      · exact hwidens.bits_lt hunsigned
    rw [← Int.add_assoc]
    exact hwithin.represents_raised (hfirst.common hsecond) hstandard hleast
      hlt

theorem raised_wrap_self {least : Nat} {sum : Int} (hstandard : type.Standard)
    (hwithin : WithinSigned least sum) (hbits : least ≤ type.bits) :
    type.Raised least sum (type.wrap sum) := by
  cases hsigned : type.signed with
  | true =>
      left
      exact wrap_of_represents (hwithin.represents hsigned hbits)
  | false =>
      have hsmall : (2 : Int) ^ (least - 1) ≤ 2 ^ type.bits :=
        pow_le_pow_right₀ (by decide) (by omega)
      obtain ⟨hlow, hhigh⟩ := hwithin
      by_cases hnonneg : 0 ≤ sum
      · left
        apply wrap_of_represents
        simp only [Represents, minimum, hsigned, Bool.false_eq_true, if_false]
        omega
      · right
        refine ⟨type.bits, hstandard, hbits, .inr ⟨rfl, hsigned⟩, ?_⟩
        have hmod : sum ≡ sum + 2 ^ type.bits [ZMOD 2 ^ type.bits] := by
          simp [Int.ModEq]
        rw [wrap_congr hmod]
        apply wrap_of_represents
        simp only [Represents, minimum, hsigned, Bool.false_eq_true, if_false]
        omega

theorem Raised.wrap {first second : IntegerType} {least : Nat} {sum : Int}
    (h : second.Raised least sum value)
    (hwithin : WithinSigned least (other + sum)) (hfirst : first.Standard)
    (hfits : least ≤ first.bits ∨ first.Represents (other + sum)) :
    first.Raised least (other + sum) (first.wrap (other + value)) := by
  have hself : first.Raised least (other + sum) (first.wrap (other + sum)) := by
    rcases hfits with hwide | hfits
    · exact raised_wrap_self hfirst hwithin hwide
    · exact .inl (wrap_of_represents hfits)
  rcases h with rfl | ⟨bits, hstandard, hleast, -, rfl⟩
  · exact hself
  · rw [← Int.add_assoc]
    by_cases hlt : bits < first.bits
    · right
      refine ⟨bits, hstandard, hleast, .inl hlt, ?_⟩
      exact wrap_of_represents
        (hwithin.represents_raised hfirst hstandard hleast hlt)
    · have hmod : other + sum + 2 ^ bits ≡ other + sum
          [ZMOD 2 ^ first.bits] := by
        have hdvd : (2 : Int) ^ first.bits ∣ 2 ^ bits :=
          pow_dvd_pow 2 (Nat.le_of_not_lt hlt)
        simpa using (Int.modEq_zero_iff_dvd.mpr hdvd).add_left (other + sum)
      rw [wrap_congr hmod]
      exact hself

end IntegerType

/-! ## Values -/

structure FixedInt where
  type : IntegerType
  value : Int
  represents : type.Represents value
  deriving DecidableEq

structure SignedOverflow where
  type : IntegerType
  value : Int
  deriving DecidableEq

namespace FixedInt

def wrapped (type : IntegerType) (value : Int) : FixedInt :=
  ⟨type, type.wrap value, type.represents_wrap value⟩

def convert (integer : FixedInt) (type : IntegerType) : FixedInt :=
  wrapped type integer.value

def plus (first second : FixedInt) : Except SignedOverflow FixedInt :=
  let type := first.type.common second.type
  let sum := (first.convert type).value + (second.convert type).value
  if type.signed then
    if h : type.Represents sum then .ok ⟨type, sum, h⟩
    else .error ⟨type, sum⟩
  else .ok (wrapped type sum)

@[ext] theorem ext {first second : FixedInt} (htype : first.type = second.type)
    (hvalue : first.value = second.value) : first = second := by
  cases first
  cases second
  simp_all

theorem wrapped_modEq (type : IntegerType) (value : Int) :
    (wrapped type value).value ≡ value [ZMOD 2 ^ type.bits] :=
  type.wrap_modEq value

theorem convert_modEq (integer : FixedInt) (type : IntegerType) :
    (integer.convert type).value ≡ integer.value [ZMOD 2 ^ type.bits] :=
  wrapped_modEq type integer.value

theorem convert_of_represents (integer : FixedInt) {type : IntegerType}
    (h : type.Represents integer.value) :
    (integer.convert type).value = integer.value :=
  IntegerType.wrap_of_represents h

theorem modEq_of_bits_le {narrow wide : Nat} (hle : narrow ≤ wide)
    {value other : Int} (h : value ≡ other [ZMOD 2 ^ wide]) :
    value ≡ other [ZMOD 2 ^ narrow] :=
  h.of_dvd (pow_dvd_pow 2 hle)

/-! ## Addition -/

theorem operands_modEq (first second : FixedInt) :
    (first.convert (first.type.common second.type)).value +
        (second.convert (first.type.common second.type)).value ≡
      first.value + second.value
        [ZMOD 2 ^ (first.type.common second.type).bits] :=
  (first.convert_modEq _).add (second.convert_modEq _)

/-- Signed addition sees the operands' own values. -/
theorem operands_of_signed {first second : FixedInt}
    (h : (first.type.common second.type).signed = true) :
    (first.convert (first.type.common second.type)).value +
        (second.convert (first.type.common second.type)).value =
      first.value + second.value := by
  rw [convert_of_represents first
      ((IntegerType.widens_common_left h).represents first.represents),
    convert_of_represents second
      ((IntegerType.widens_common_right h).represents second.represents)]

/-- The sum, converted to the type of the first operand. -/
theorem plus_of_noOverflow {first second : FixedInt}
    (h : first.type.NoOverflow second.type (first.value + second.value)) :
    ∃ sum, first.plus second = .ok sum ∧
      (sum.convert first.type).value =
        first.type.wrap (first.value + second.value) := by
  cases hsigned : (first.type.common second.type).signed with
  | true =>
      have hsum := h hsigned
      simp only [plus, hsigned, operands_of_signed hsigned, hsum, if_true,
        dif_pos]
      exact ⟨_, rfl, rfl⟩
  | false =>
      simp only [plus, hsigned, Bool.false_eq_true, if_false]
      refine ⟨_, rfl, IntegerType.wrap_congr ?_⟩
      exact modEq_of_bits_le (IntegerType.bits_le_common_left _ _)
        ((wrapped_modEq _ _).trans (operands_modEq first second))

theorem noOverflow_of_plus {first second sum : FixedInt}
    (h : first.plus second = .ok sum) :
    first.type.NoOverflow second.type (first.value + second.value) := by
  intro hsigned
  by_contra hsum
  simp only [plus, hsigned, operands_of_signed hsigned, hsum, if_true,
    dif_neg, not_false_eq_true] at h
  cases h

end FixedInt

end CandCpp.Foundation
