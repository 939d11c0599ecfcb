import CandCpp.Foundation.FixedWidth

/-!
# The variadic `add` of cppTemplate.cpp

Each call of `add` returns its sum as a value of the type of its own first
argument, so an argument list is read from its end, through one conversion for
each argument.  A later argument of fewer bits than the first cuts off what the
first could still represent; one of at least as many bits loses nothing modulo
the range of the first, though an unsigned one may show another number.
-/

namespace CandCpp.Objects.VariadicAdd

open CandCpp.Foundation

def add (first : FixedInt) : List FixedInt → Except SignedOverflow FixedInt
  | [] => .ok first
  | next :: rest => do
      let sum ← add next rest
      let total ← first.plus sum
      return total.convert first.type

def total (arguments : List FixedInt) : Int :=
  (arguments.map FixedInt.value).sum

/-- Every suffix has a sum that the first argument of all represents. -/
def FitsFirst (first : FixedInt) (rest : List FixedInt) : Prop :=
  ∀ suffix ∈ (first :: rest).tails, first.type.Represents (total suffix)

instance (first : FixedInt) (rest : List FixedInt) :
    Decidable (FitsFirst first rest) :=
  inferInstanceAs (Decidable (∀ suffix ∈ (first :: rest).tails, _))

/-- Every suffix has a sum that its own first argument represents. -/
def SuffixSumsFit : List FixedInt → Prop
  | [] => True
  | first :: rest =>
      first.type.Represents (total (first :: rest)) ∧ SuffixSumsFit rest

instance : (arguments : List FixedInt) → Decidable (SuffixSumsFit arguments)
  | [] => inferInstanceAs (Decidable True)
  | _ :: rest =>
      have : Decidable (SuffixSumsFit rest) :=
        instDecidableSuffixSumsFit rest
      inferInstanceAs (Decidable (_ ∧ SuffixSumsFit rest))

/-- An argument of fewer bits represents the sum of its own suffix. -/
def NarrowerSumsFit (bits : Nat) : List FixedInt → Prop
  | [] => True
  | first :: rest =>
      (bits ≤ first.type.bits ∨ first.type.Represents (total (first :: rest))) ∧
        NarrowerSumsFit bits rest

instance (bits : Nat) :
    (arguments : List FixedInt) → Decidable (NarrowerSumsFit bits arguments)
  | [] => inferInstanceAs (Decidable True)
  | _ :: rest =>
      have : Decidable (NarrowerSumsFit bits rest) :=
        instDecidableNarrowerSumsFit bits rest
      inferInstanceAs (Decidable (_ ∧ NarrowerSumsFit bits rest))

/-- An argument of fewer bits than one before it keeps the sum of its own
suffix modulo the range of that one. -/
def KeptModulo (bits : Nat) : List FixedInt → Prop
  | [] => True
  | first :: rest =>
      (bits ≤ first.type.bits ∨ first.type.wrap (total (first :: rest)) ≡
        total (first :: rest) [ZMOD 2 ^ bits]) ∧
      KeptModulo (min bits first.type.bits) rest

/-- The sum in the integers, brought into the argument's type at every level. -/
def narrowed : List FixedInt → Int
  | [] => 0
  | first :: rest => first.type.wrap (first.value + narrowed rest)

/-- No addition of two promoted operands is one of signed overflow. -/
def NoOverflow (first : FixedInt) : List FixedInt → Prop
  | [] => True
  | next :: rest =>
      first.type.NoOverflow next.type (first.value + narrowed (next :: rest)) ∧
        NoOverflow next rest

/-- Exactly what the sum needs in order to come out. -/
structure KeepsSum (first : FixedInt) (rest : List FixedInt) : Prop where
  represents : first.type.Represents (total (first :: rest))
  kept : KeptModulo first.type.bits rest
  noOverflow : NoOverflow first rest

/-- Arguments whose types and suffix sums rule an overflow out. -/
def Safe (first : FixedInt) (rest : List FixedInt) : Prop :=
  SuffixSumsFit (first :: rest) ∨
    (∀ argument ∈ first :: rest, argument.type.NeverOverflows) ∨
    (first.type.signed = true ∧ FitsFirst first rest ∧
      ∀ argument ∈ first :: rest, argument.type.Standard)

instance (first : FixedInt) (rest : List FixedInt) :
    Decidable (Safe first rest) :=
  inferInstanceAs (Decidable (_ ∨ _ ∨ _))

def ReturnsTotal (first : FixedInt) (rest : List FixedInt) : Prop :=
  ∃ sum, add first rest = .ok sum ∧ sum.type = first.type ∧
    sum.value = total (first :: rest)

@[simp] theorem total_nil : total [] = 0 := rfl

@[simp] theorem total_cons (first : FixedInt) (rest : List FixedInt) :
    total (first :: rest) = first.value + total rest := by
  simp [total]

theorem total_perm {rest other : List FixedInt} (h : other.Perm rest) :
    total other = total rest :=
  (h.map FixedInt.value).sum_eq

@[simp] theorem narrowed_singleton (argument : FixedInt) :
    narrowed [argument] = argument.value := by
  simp only [narrowed, Int.add_zero]
  exact IntegerType.wrap_of_represents argument.represents

/-! ## What `add` computes -/

theorem add_of_noOverflow (first : FixedInt) (rest : List FixedInt)
    (h : NoOverflow first rest) :
    ∃ sum, add first rest = .ok sum ∧ sum.type = first.type ∧
      sum.value = narrowed (first :: rest) := by
  induction rest generalizing first with
  | nil => exact ⟨first, rfl, rfl, (narrowed_singleton first).symm⟩
  | cons next rest ih =>
      obtain ⟨hhead, hrest⟩ := h
      obtain ⟨sum, hsum, htype, hvalue⟩ := ih next hrest
      rw [← htype, ← hvalue] at hhead
      obtain ⟨whole, hwhole, hconvert⟩ := FixedInt.plus_of_noOverflow hhead
      refine ⟨whole.convert first.type, ?_, rfl, ?_⟩
      · rw [add, hsum, ok_bind, hwhole, ok_bind]
        rfl
      · rw [hconvert, hvalue]
        rfl

theorem noOverflow_of_add {first sum : FixedInt} {rest : List FixedInt}
    (h : add first rest = .ok sum) : NoOverflow first rest := by
  induction rest generalizing first sum with
  | nil => trivial
  | cons next rest ih =>
      simp only [add, bind_eq_ok_iff] at h
      obtain ⟨inner, hinner, whole, hwhole, -⟩ := h
      have hrest := ih hinner
      obtain ⟨same, hsame, htype, hvalue⟩ := add_of_noOverflow next rest hrest
      rw [hinner] at hsame
      cases hsame
      have hhead := FixedInt.noOverflow_of_plus hwhole
      rw [htype, hvalue] at hhead
      exact ⟨hhead, hrest⟩

/-! ## The sum modulo a power of two -/

theorem narrowed_modEq_of_le {bits : Nat} (first : FixedInt)
    (rest : List FixedInt) (hbits : bits ≤ first.type.bits) :
    (narrowed (first :: rest) ≡ total (first :: rest) [ZMOD 2 ^ bits]) ↔
      (narrowed rest ≡ total rest [ZMOD 2 ^ bits]) := by
  have hwrap : narrowed (first :: rest) ≡ first.value + narrowed rest
      [ZMOD 2 ^ bits] :=
    FixedInt.modEq_of_bits_le hbits (first.type.wrap_modEq _)
  rw [total_cons]
  constructor
  · intro hmod
    exact (hwrap.symm.trans hmod).add_left_cancel' first.value
  · intro hmod
    exact hwrap.trans (hmod.add_left first.value)

theorem narrowed_modEq_iff (bits : Nat) (arguments : List FixedInt) :
    (narrowed arguments ≡ total arguments [ZMOD 2 ^ bits]) ↔
      KeptModulo bits arguments := by
  induction arguments generalizing bits with
  | nil => exact iff_of_true (Int.ModEq.refl 0) trivial
  | cons first rest ih =>
      rw [KeptModulo]
      rcases Nat.le_total bits first.type.bits with hwide | hnarrow
      · rw [narrowed_modEq_of_le first rest hwide, ih, Nat.min_eq_left hwide]
        exact (and_iff_right (.inl hwide)).symm
      · rw [Nat.min_eq_right hnarrow, ← ih,
          ← narrowed_modEq_of_le first rest (Nat.le_refl _)]
        -- what the argument's own type keeps is the converted suffix sum
        have hown : (narrowed (first :: rest) ≡ total (first :: rest)
            [ZMOD 2 ^ first.type.bits]) →
            narrowed (first :: rest) =
              first.type.wrap (total (first :: rest)) := by
          intro hmod
          rw [narrowed_modEq_of_le first rest (Nat.le_refl _)] at hmod
          rw [total_cons]
          exact IntegerType.wrap_congr (hmod.add_left first.value)
        constructor
        · intro hmod
          have hless := FixedInt.modEq_of_bits_le hnarrow hmod
          rw [hown hless] at hmod
          exact ⟨.inr hmod, hless⟩
        · rintro ⟨hwide | hkept, hless⟩
          · exact FixedInt.modEq_of_bits_le hwide hless
          · rw [hown hless]
            exact hkept

theorem narrowed_eq_total_iff (first : FixedInt) (rest : List FixedInt) :
    narrowed (first :: rest) = total (first :: rest) ↔
      first.type.Represents (total (first :: rest)) ∧
        KeptModulo first.type.bits rest := by
  rw [← narrowed_modEq_iff, ← narrowed_modEq_of_le first rest (Nat.le_refl _)]
  constructor
  · intro heq
    rw [← heq]
    exact ⟨IntegerType.represents_wrap _ _, .rfl⟩
  · rintro ⟨hrepresents, hmod⟩
    have hsame := IntegerType.wrap_congr hmod
    rw [IntegerType.wrap_of_represents hrepresents] at hsame
    rw [← hsame]
    exact (IntegerType.wrap_of_represents
      (IntegerType.represents_wrap _ _)).symm

theorem returnsTotal_iff (first : FixedInt) (rest : List FixedInt) :
    ReturnsTotal first rest ↔ KeepsSum first rest := by
  constructor
  · rintro ⟨sum, hsum, -, hvalue⟩
    have hnoOverflow := noOverflow_of_add hsum
    obtain ⟨same, hsame, -, hnarrowed⟩ :=
      add_of_noOverflow first rest hnoOverflow
    rw [hsum] at hsame
    cases hsame
    obtain ⟨hrepresents, hkept⟩ :=
      (narrowed_eq_total_iff first rest).mp (hnarrowed.symm.trans hvalue)
    exact ⟨hrepresents, hkept, hnoOverflow⟩
  · intro h
    obtain ⟨sum, hsum, htype, hvalue⟩ :=
      add_of_noOverflow first rest h.noOverflow
    refine ⟨sum, hsum, htype, hvalue.trans ?_⟩
    exact (narrowed_eq_total_iff first rest).mpr ⟨h.represents, h.kept⟩

/-! ## Conditions on the types and the suffix sums -/

theorem SuffixSumsFit.narrowerSumsFit {arguments : List FixedInt}
    (h : SuffixSumsFit arguments) (bits : Nat) :
    NarrowerSumsFit bits arguments := by
  induction arguments with
  | nil => trivial
  | cons first rest ih => exact ⟨.inr h.1, ih h.2⟩

theorem NarrowerSumsFit.keptModulo {bits least : Nat}
    {arguments : List FixedInt} (h : NarrowerSumsFit bits arguments)
    (hleast : least ≤ bits) : KeptModulo least arguments := by
  induction arguments generalizing least with
  | nil => trivial
  | cons first rest ih =>
      refine ⟨?_, ih h.2 (Nat.le_trans (Nat.min_le_left _ _) hleast)⟩
      rcases h.1 with hwide | hrepresents
      · exact .inl (Nat.le_trans hleast hwide)
      · right
        rw [IntegerType.wrap_of_represents hrepresents]

theorem SuffixSumsFit.narrowed_eq {arguments : List FixedInt}
    (h : SuffixSumsFit arguments) : narrowed arguments = total arguments := by
  cases arguments with
  | nil => rfl
  | cons first rest =>
      have hkept := (h.2.narrowerSumsFit first.type.bits).keptModulo
        (Nat.le_refl _)
      exact (narrowed_eq_total_iff first rest).mpr ⟨h.1, hkept⟩

theorem SuffixSumsFit.noOverflow {first : FixedInt} {rest : List FixedInt}
    (h : SuffixSumsFit (first :: rest)) : NoOverflow first rest := by
  induction rest generalizing first with
  | nil => trivial
  | cons next rest ih =>
      refine ⟨?_, ih h.2⟩
      rw [h.2.narrowed_eq, ← total_cons]
      exact IntegerType.noOverflow_of_represents next.type h.1

theorem noOverflow_of_neverOverflows {first : FixedInt} {rest : List FixedInt}
    (h : ∀ argument ∈ first :: rest, argument.type.NeverOverflows) :
    NoOverflow first rest := by
  induction rest generalizing first with
  | nil => trivial
  | cons next rest ih =>
      rw [List.forall_mem_cons] at h
      refine ⟨?_, ih h.2⟩
      exact h.1.noOverflow (h.2 next List.mem_cons_self) first.represents
        (IntegerType.represents_wrap _ _)

/-- Below a signed first argument of that width every level shows its suffix
sum, or shows it raised by the range of a wider unsigned type. -/
theorem noOverflow_of_withinSigned {least : Nat} (first : FixedInt)
    (rest : List FixedInt)
    (hstandard : ∀ argument ∈ first :: rest, argument.type.Standard)
    (hwithin : ∀ suffix ∈ (first :: rest).tails,
      IntegerType.WithinSigned least (total suffix))
    (hfits : NarrowerSumsFit least (first :: rest)) :
    NoOverflow first rest ∧
      first.type.Raised least (total (first :: rest))
        (narrowed (first :: rest)) := by
  induction rest generalizing first with
  | nil =>
      refine ⟨trivial, .inl ?_⟩
      rw [narrowed_singleton, total_cons, total_nil, Int.add_zero]
  | cons next rest ih =>
      rw [List.forall_mem_cons] at hstandard
      rw [List.tails_cons, List.forall_mem_cons] at hwithin
      obtain ⟨hrest, hraised⟩ := ih next hstandard.2 hwithin.2 hfits.2
      have hnext := hstandard.2 next List.mem_cons_self
      refine ⟨⟨?_, hrest⟩, ?_⟩
      · exact hraised.noOverflow hwithin.1 hstandard.1 hnext hfits.1
      · exact hraised.wrap hwithin.1 hstandard.1 hfits.1

theorem Safe.noOverflow {first : FixedInt} {rest : List FixedInt}
    (h : Safe first rest)
    (hnarrower : NarrowerSumsFit first.type.bits rest) :
    NoOverflow first rest := by
  rcases h with hsuffix | hnever | ⟨hsigned, hfits, hstandard⟩
  · exact hsuffix.noOverflow
  · exact noOverflow_of_neverOverflows hnever
  · refine (noOverflow_of_withinSigned first rest hstandard ?_
      ⟨.inl (Nat.le_refl _), hnarrower⟩).1
    intro suffix hsuffix
    exact IntegerType.withinSigned_of_represents hsigned (hfits suffix hsuffix)

theorem Safe.keepsSum {first : FixedInt} {rest : List FixedInt}
    (h : Safe first rest)
    (hrepresents : first.type.Represents (total (first :: rest)))
    (hnarrower : NarrowerSumsFit first.type.bits rest) :
    KeepsSum first rest :=
  ⟨hrepresents, hnarrower.keptModulo (Nat.le_refl _), h.noOverflow hnarrower⟩

/-! ## The sum and the order of the arguments -/

theorem add_perm {first : FixedInt} {rest other : List FixedInt}
    (hperm : other.Perm rest) (h : ReturnsTotal first rest)
    (hother : ReturnsTotal first other) : add first other = add first rest := by
  obtain ⟨sum, hsum, htype, hvalue⟩ := h
  obtain ⟨swapped, hswapped, hsame, htotal⟩ := hother
  rw [total_cons, total_perm hperm, ← total_cons, ← hvalue] at htotal
  rw [hswapped, hsum, FixedInt.ext (hsame.trans htype.symm) htotal]

/-- The exact condition, and one on the types and the suffix sums alone: no
later argument of fewer bits loses its own suffix sum, and no sum overflows. -/
theorem add_returns_total_iff (first : FixedInt) (rest : List FixedInt) :
    (ReturnsTotal first rest ↔ KeepsSum first rest) ∧
      (first.type.Represents (total (first :: rest)) →
        NarrowerSumsFit first.type.bits rest → Safe first rest →
        KeepsSum first rest) ∧
      ∀ other : List FixedInt, other.Perm rest → KeepsSum first rest →
        KeepsSum first other → add first other = add first rest := by
  refine ⟨returnsTotal_iff first rest, ?_, ?_⟩
  · intro hrepresents hnarrower hsafe
    exact hsafe.keepsSum hrepresents hnarrower
  · intro other hperm h hother
    exact add_perm hperm ((returnsTotal_iff first rest).mpr h)
      ((returnsTotal_iff first other).mpr hother)

def int8 : IntegerType := ⟨true, 8, Nat.zero_lt_succ 7⟩

def uint32 : IntegerType := ⟨false, 32, Nat.zero_lt_succ 31⟩

def int64 : IntegerType := ⟨true, 64, Nat.zero_lt_succ 63⟩

/-- `add(5, 3u, -4)` is 4, though its last two arguments come to -1 as an
unsigned number. -/
theorem add_returns_total_mixed :
    ReturnsTotal (.wrapped .int 5) [.wrapped uint32 3, .wrapped .int (-4)] ∧
      add (.wrapped .int 5) [.wrapped .int (-4), .wrapped uint32 3] =
        add (.wrapped .int 5) [.wrapped uint32 3, .wrapped .int (-4)] := by
  have h := add_returns_total_iff (.wrapped .int 5)
    [.wrapped uint32 3, .wrapped .int (-4)]
  have hswapped := add_returns_total_iff (.wrapped .int 5)
    [.wrapped .int (-4), .wrapped uint32 3]
  have hkeeps := h.2.1 (by decide) (by decide) (by decide)
  have hother := hswapped.2.1 (by decide) (by decide) (by decide)
  exact ⟨h.1.mpr hkeeps, h.2.2 _ (.swap _ _ _) hkeeps hother⟩

/-- `add(int64_t(0), int8_t(100), int64_t(100))` is -56, in the other order of
its last two arguments 200. -/
theorem add_narrows :
    (∃ first rest, FitsFirst first rest ∧ ¬ ReturnsTotal first rest) ∧
      ∃ first rest other, other.Perm rest ∧ FitsFirst first rest ∧
        FitsFirst first other ∧ add first other ≠ add first rest := by
  let first := FixedInt.wrapped int64 0
  let rest := [FixedInt.wrapped int8 100, FixedInt.wrapped int64 100]
  have hrest : add first rest = .ok (.wrapped int64 (-56)) := by decide
  have hfits : FitsFirst first rest := by decide
  refine ⟨⟨first, rest, hfits, ?_⟩,
    first, rest, rest.reverse, ?_, hfits, ?_, ?_⟩
  · rintro ⟨sum, hsum, -, hvalue⟩
    rw [hrest] at hsum
    cases hsum
    exact absurd hvalue (by decide)
  · exact List.reverse_perm rest
  · decide
  · decide

end CandCpp.Objects.VariadicAdd
