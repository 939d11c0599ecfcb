import CandCpp.Foundation.Rings
import CandCpp.Queue.ImplicitProducer

/-!
# The ring of block index entries

Block number `n` is the block of the indices from `32 * n` on.  A header keeps
the entries of consecutive block numbers in a ring, counted from the first
number that the header has seen.
-/

namespace CandCpp.Queue

open CandCpp.Foundation

/-! ## Blocks of an index -/

theorem toNat_and_not_31 (number : Nat) (h : number < 2 ^ 64) :
    number &&& (2 ^ 64 - 32) = 32 * (number / 32) := by
  apply Nat.eq_of_testBit_eq
  intro bit
  have hmask : (2 ^ 64 - (31 + 1)).testBit bit =
      (decide (bit < 64) && !Nat.testBit 31 bit) :=
    Nat.testBit_two_pow_sub_succ (by decide) bit
  have hlow : Nat.testBit (2 ^ 5 - 1) bit = decide (bit < 5) :=
    Nat.testBit_two_pow_sub_one 5 bit
  rw [Nat.testBit_and]
  change (_ && (2 ^ 64 - (31 + 1)).testBit bit) =
    (2 ^ 5 * (number / 2 ^ 5)).testBit bit
  rw [hmask, Nat.testBit_two_pow_mul, Nat.testBit_div_two_pow]
  change (_ && (_ && !Nat.testBit (2 ^ 5 - 1) bit)) = _
  rw [hlow]
  by_cases hbit : bit < 5
  · simp [hbit]
  · by_cases hhigh : bit < 64
    · simp [hbit, hhigh, Nat.sub_add_cancel (Nat.le_of_not_lt hbit),
        Nat.le_of_not_lt hbit]
    · have hzero : number.testBit bit = false :=
        Nat.testBit_lt_two_pow (Nat.lt_of_lt_of_le h
          (Nat.pow_le_pow_right (by decide) (Nat.le_of_not_lt hhigh)))
      simp [hzero, Nat.sub_add_cancel (Nat.le_of_not_lt hbit)]

theorem blockBase_toNat (index : UInt64) :
    (blockBase index).toNat = 32 * (index.toNat / 32) := by
  have hmask : (~~~(BLOCK_SIZE - 1)).toNat = 2 ^ 64 - 32 := by decide
  rw [blockBase, UInt64.toNat_and, hmask]
  exact toNat_and_not_31 _ index.toNat_lt

theorem blockOffset_eq (index : UInt64) :
    blockOffset index = index.toNat % 32 := by
  have hsize : BLOCK_SIZE.toNat = 2 ^ 5 := rfl
  exact toNat_and_sub_one hsize index

/-! ## Headers -/

namespace BlockIndexHeader

structure WellFormed (header : BlockIndexHeader) : Prop where
  capacity : ∃ bits, header.capacity.toNat = 2 ^ (bits + 5)
  length : header.index.length = header.capacity.toNat

variable {header : BlockIndexHeader} {first number : Nat}

def entryAt (header : BlockIndexHeader) (first number : Nat) : Option Nat :=
  header.index[ringPosition header.capacity.toNat first number]?

theorem WellFormed.capacity_pos (h : header.WellFormed) :
    32 ≤ header.capacity.toNat := by
  obtain ⟨bits, hbits⟩ := h.capacity
  rw [hbits, Nat.pow_add]
  have hpos := Nat.two_pow_pos bits
  omega

/-- The position after the tail is that of `number`. -/
def TailBefore (header : BlockIndexHeader) (first number : Nat) : Prop :=
  (header.tail.toNat + 1) % header.capacity.toNat =
    ringPosition header.capacity.toNat first number

theorem newTail_toNat (h : header.WellFormed)
    (htail : header.TailBefore first number) :
    header.newTail.toNat =
      ringPosition header.capacity.toNat first number := by
  obtain ⟨bits, hbits⟩ := h.capacity
  rw [newTail, toNat_and_sub_one hbits, UInt64.toNat_add, UInt64.toNat_one,
    Nat.mod_mod_of_dvd _ (two_pow_dvd_of_toNat hbits)]
  exact htail

theorem lookup_newTail (h : header.WellFormed)
    (htail : header.TailBefore first number) :
    header.lookup header.newTail = header.entryAt first number := by
  rw [lookup, newTail_toNat h htail, entryAt]

theorem entryAt_isSome (h : header.WellFormed) (first number : Nat) :
    ∃ entry, header.entryAt first number = some entry := by
  have hless : ringPosition header.capacity.toNat first number <
      header.index.length := by
    rw [h.length]
    exact ringPosition_lt (by have hpos := h.capacity_pos; omega)
  exact ⟨_, List.getElem?_eq_getElem hless⟩

/-- One round of the ring, from a number on. -/
def rotated (header : BlockIndexHeader) (first oldest : Nat) : List Nat :=
  (List.range header.capacity.toNat).map fun i =>
    header.index.getD
      (ringPosition header.capacity.toNat first (oldest + i)) 0

@[simp] theorem length_rotated (header : BlockIndexHeader)
    (first oldest : Nat) :
    (header.rotated first oldest).length = header.capacity.toNat := by
  simp [rotated]

theorem getD_index (h : header.WellFormed) (number : Nat) :
    some (header.index.getD
      (ringPosition header.capacity.toNat first number) 0) =
        header.entryAt first number := by
  obtain ⟨entry, hentry⟩ := entryAt_isSome h first number
  rw [hentry, List.getD_eq_getElem?_getD]
  rw [entryAt] at hentry
  rw [hentry, Option.getD_some]

theorem getElem?_rotated (h : header.WellFormed) {oldest distance : Nat}
    (hless : distance < header.capacity.toNat) :
    (header.rotated first oldest)[distance]? =
      header.entryAt first (oldest + distance) := by
  rw [rotated, List.getElem?_map, List.getElem?_range hless, Option.map_some,
    getD_index h]

theorem mem_index_of_mem_rotated (h : header.WellFormed) {oldest entry : Nat}
    (hentry : entry ∈ header.rotated first oldest) : entry ∈ header.index := by
  obtain ⟨distance, hdistance⟩ := List.getElem?_of_mem hentry
  have hless : distance < header.capacity.toNat := by
    rw [← length_rotated header first oldest]
    exact (List.getElem?_eq_some_iff.mp hdistance).1
  rw [getElem?_rotated h hless] at hdistance
  exact List.mem_of_getElem? hdistance

theorem nodup_rotated (h : header.WellFormed) (hnodup : header.index.Nodup)
    {oldest : Nat} (hle : first ≤ oldest) :
    (header.rotated first oldest).Nodup := by
  have hpos := h.capacity_pos
  rw [List.nodup_iff_getElem?_ne_getElem?]
  intro left right hless hright heq
  rw [length_rotated] at hright
  rw [getElem?_rotated h (by omega), getElem?_rotated h hright] at heq
  have hposition : ringPosition header.capacity.toNat first (oldest + left) <
      header.index.length := by
    rw [h.length]
    exact ringPosition_lt (by omega)
  have hring := (List.getElem?_inj hposition hnodup).mp heq
  have hsame := ringPosition_inj (Nat.le_add_right_of_le hle)
    (by omega) (by omega) hring
  omega

/-- Once the tail stands at a number it stands before the next one. -/
theorem tailBefore_succ (hle : first ≤ number) {tail : UInt64}
    (htail : tail.toNat = ringPosition header.capacity.toNat first number) :
    TailBefore { header with tail := tail } first (number + 1) := by
  rw [TailBefore, htail, ringPosition_add hle]

theorem rewound_lt (h : header.WellFormed) :
    header.rewound.toNat < header.capacity.toNat := by
  obtain ⟨bits, hbits⟩ := h.capacity
  have hpos := h.capacity_pos
  rw [rewound, toNat_and_sub_one hbits]
  exact Nat.mod_lt _ (by omega)

theorem tailBefore_rewound (h : header.WellFormed)
    (htail : header.tail.toNat =
      ringPosition header.capacity.toNat first number) :
    TailBefore { header with tail := header.rewound } first number := by
  obtain ⟨bits, hbits⟩ := h.capacity
  have hdvd := two_pow_dvd_of_toNat hbits
  have hpos := h.capacity_pos
  have hless : header.tail.toNat < header.capacity.toNat := by
    rw [htail]
    exact ringPosition_lt (by omega)
  have hround : (header.tail - 1).toNat + 1 ≡ header.tail.toNat
      [MOD 2 ^ 64] := by
    rw [UInt64.toNat_sub, UInt64.toNat_one, Nat.ModEq, Nat.mod_add_mod]
    omega
  have hback : header.rewound.toNat ≡ (header.tail - 1).toNat
      [MOD header.capacity.toNat] := by
    rw [rewound, toNat_and_sub_one hbits]
    exact Nat.mod_modEq _ _
  have hnext : (header.rewound.toNat + 1) % header.capacity.toNat =
      header.tail.toNat % header.capacity.toNat :=
    (hback.add_right 1).trans (hround.of_dvd hdvd)
  rw [TailBefore, ← htail]
  exact hnext.trans (Nat.mod_eq_of_lt hless)

/-- Where a consumer looks for the block of an index, whatever number the tail
had when it read it. -/
theorem position_toNat (h : header.WellFormed) {base tail tailBase : UInt64}
    {count : Nat}
    (htail : tail.toNat = ringPosition header.capacity.toNat first count)
    (hbase : base.toNat = 32 * number) (htailBase : tailBase.toNat = 32 * count)
    (hcount : first ≤ count) (hnumber : first ≤ number)
    (hcountLess : count < 2 ^ 58) (hnumberLess : number < 2 ^ 58) :
    (header.position base tail tailBase).toNat =
      ringPosition header.capacity.toNat first number := by
  obtain ⟨bits, hbits⟩ := h.capacity
  have hstep : BLOCK_SIZE.toNat = 32 := rfl
  exact toNat_position hbits htail hcount hnumber
    (signedQuotient_modEq hstep hbase htailBase hnumberLess hcountLess)

theorem next_toNat (h : header.WellFormed) (prevPos : UInt64) :
    ((prevPos + 1) &&& (header.capacity - 1)).toNat =
      (prevPos.toNat + 1) % header.capacity.toNat := by
  obtain ⟨bits, hbits⟩ := h.capacity
  rw [toNat_and_sub_one hbits, UInt64.toNat_add, UInt64.toNat_one,
    Nat.mod_mod_of_dvd _ (two_pow_dvd_of_toNat hbits)]

theorem lookup_next (h : header.WellFormed) (prevPos : UInt64) :
    header.lookup ((prevPos + 1) &&& (header.capacity - 1)) =
      some (header.index.getD
        ((prevPos.toNat + 1) % header.capacity.toNat) 0) := by
  have hpos := h.capacity_pos
  have hless : (prevPos.toNat + 1) % header.capacity.toNat <
      header.index.length := by
    rw [h.length]
    exact Nat.mod_lt _ (by omega)
  rw [lookup, next_toNat h, List.getD_eq_getElem?_getD,
    List.getElem?_eq_getElem hless, Option.getD_some]

/-- The loop stops at the tail, and not before. -/
theorem copyFrom_eq (h : header.WellFormed) (count : Nat) {room : Nat}
    {prevPos : UInt64}
    (hend : (prevPos.toNat + count) % header.capacity.toNat =
      header.tail.toNat)
    (hpos : 0 < count) (hle : count ≤ header.capacity.toNat)
    (hroom : count ≤ room) :
    header.copyFrom room prevPos = some ((List.range count).map fun i =>
      header.index.getD
        ((prevPos.toNat + 1 + i) % header.capacity.toNat) 0) := by
  induction count generalizing prevPos room with
  | zero => exact absurd hpos (Nat.lt_irrefl 0)
  | succ count ih =>
      obtain ⟨left, rfl⟩ := Nat.exists_eq_succ_of_ne_zero
        (Nat.ne_of_gt (Nat.lt_of_lt_of_le hpos hroom))
      have hnext := next_toNat h prevPos
      rw [copyFrom, lookup_next h, Option.bind_some, List.range_succ_eq_map,
        List.map_cons, List.map_map]
      simp only [Nat.add_zero]
      cases count with
      | zero =>
          have htail : (prevPos + 1) &&& (header.capacity - 1) = header.tail :=
            UInt64.toNat_inj.mp (hnext.trans hend)
          rw [if_pos htail]
          rfl
      | succ count =>
          have htail : (prevPos + 1) &&& (header.capacity - 1) ≠ header.tail := by
            intro heq
            have hmod : prevPos.toNat + 1 ≡ prevPos.toNat + (count + 1 + 1)
                [MOD header.capacity.toNat] := by
              rw [Nat.ModEq, hend, ← hnext, heq]
            have hdvd := (Nat.modEq_iff_dvd' (by omega)).mp hmod
            have hzero := Nat.eq_zero_of_dvd_of_lt hdvd (by omega)
            omega
          have hrest := ih
            (by rw [hnext, Nat.mod_add_mod, ← hend]; congr 1; omega)
            (Nat.succ_pos count) (by omega) (Nat.le_of_succ_le_succ hroom)
          rw [if_neg htail, hrest, Option.map_some]
          congr 2
          apply List.map_congr_left
          intro i _
          rw [hnext]
          simp only [Function.comp_apply]
          congr 1
          rw [Nat.add_assoc, Nat.mod_add_mod]
          congr 1
          omega

/-- `new_block_index` copies the whole ring, from the entry after the tail on. -/
theorem copyFrom_tail (h : header.WellFormed)
    (hless : header.tail.toNat < header.capacity.toNat) {room : Nat}
    (hroom : header.capacity.toNat ≤ room) :
    header.copyFrom room header.tail =
      some ((List.range header.capacity.toNat).map fun i =>
        header.index.getD
          ((header.tail.toNat + 1 + i) % header.capacity.toNat) 0) := by
  have hpos := h.capacity_pos
  apply copyFrom_eq h _ ?_ (by omega) (Nat.le_refl _) hroom
  rw [Nat.add_mod_right, Nat.mod_eq_of_lt hless]

end BlockIndexHeader

/-! ## The ring in the memory -/

/-- Whatever a later header has at the position of a number, an older one has
at its own position of that number. -/
def Extends (header : BlockIndexHeader) (first : Nat) (old : BlockIndexHeader)
    (oldFirst : Nat) : Prop :=
  oldFirst ≤ first ∧ ∀ position entry, old.index[position]? = some entry →
    ∃ place, header.index[place]? = some entry ∧
      ∀ number, first ≤ number →
        ringPosition header.capacity.toNat first number = place →
        ringPosition old.capacity.toNat oldFirst number = position

theorem Extends.refl (header : BlockIndexHeader) (first : Nat) :
    Extends header first header first :=
  ⟨Nat.le_refl _, fun position _ hentry =>
    ⟨position, hentry, fun _ _ hposition => hposition⟩⟩

theorem Extends.trans {last header old : BlockIndexHeader}
    {lastFirst first oldFirst : Nat} (h : Extends last lastFirst header first)
    (hold : Extends header first old oldFirst) :
    Extends last lastFirst old oldFirst := by
  refine ⟨Nat.le_trans hold.1 h.1, ?_⟩
  intro position entry hentry
  obtain ⟨place, hplace, hposition⟩ := hold.2 position entry hentry
  obtain ⟨lastPlace, hlastPlace, hlast⟩ := h.2 place entry hplace
  exact ⟨lastPlace, hlastPlace, fun number hnumber hring =>
    hposition number (Nat.le_trans h.1 hnumber) (hlast number hnumber hring)⟩

variable {T : Type}

def HasKey (entries : Nat → BlockIndexEntry) (entry number : Nat) : Prop :=
  (entries entry).key.toNat = 32 * number

def Invalid (entries : Nat → BlockIndexEntry) (entry : Nat) : Prop :=
  (entries entry).key = INVALID_BLOCK_BASE

theorem HasKey.not_invalid {entries : Nat → BlockIndexEntry}
    {entry number : Nat} (h : HasKey entries entry number) :
    ¬ Invalid entries entry := by
  intro hinvalid
  have hone : (1 : Nat) = 32 * number := by
    rw [← h, hinvalid]
    rfl
  omega

/-- The current header `cur` after `inserted` blocks.  Its ring holds the last
of them, at the next position the oldest or a key without a block. -/
structure Ring (memory : Memory T) (first : Nat → Nat) (cur inserted : Nat) :
    Prop where
  blockIndex : memory.blockIndex = some cur
  headerCount : memory.headerCount = cur + 1
  wellFormed : ∀ header ≤ cur, (memory.headers header).WellFormed
  next : memory.nextBlockIndexCapacity.toNat =
    2 * (memory.headers cur).capacity.toNat
  small : (memory.headers cur).capacity.toNat ≤ 2 * inserted + 32
  nodup : (memory.headers cur).index.Nodup
  allocated : ∀ header ≤ cur, ∀ entry ∈ (memory.headers header).index,
    entry < memory.entryCount
  first_le : first cur ≤ inserted
  first_lt : 0 < inserted → first cur < inserted
  window : ∀ number entry, first cur ≤ number → number < inserted →
    inserted < number + (memory.headers cur).capacity.toNat →
    (memory.headers cur).entryAt (first cur) number = some entry →
    HasKey memory.entries entry number
  spot : ∀ entry, (memory.headers cur).entryAt (first cur) inserted = some entry →
    Invalid memory.entries entry ∨ HasKey memory.entries entry inserted ∨
      ∃ number, first cur ≤ number ∧
        number + (memory.headers cur).capacity.toNat = inserted ∧
        HasKey memory.entries entry number
  invalid : ∀ number entry, inserted < number →
    number < first cur + (memory.headers cur).capacity.toNat →
    (memory.headers cur).entryAt (first cur) number = some entry →
    Invalid memory.entries entry
  extend : ∀ header ≤ cur, Extends (memory.headers cur) (first cur)
    (memory.headers header) (first header)
  tails : ∀ header < cur, ∃ entry,
    (memory.headers header).lookup (memory.headers header).tail = some entry ∧
      ¬ Invalid memory.entries entry

namespace Ring

variable {memory : Memory T} {first : Nat → Nat} {cur inserted : Nat}
  {number other entry : Nat}

theorem capacity_pos (h : Ring memory first cur inserted) :
    32 ≤ (memory.headers cur).capacity.toNat :=
  (h.wellFormed cur (Nat.le_refl cur)).capacity_pos

theorem entryAt_inj (h : Ring memory first cur inserted)
    (hnumber : first cur ≤ number) (hle : number ≤ other)
    (hless : other < number + (memory.headers cur).capacity.toNat)
    (hentry : (memory.headers cur).entryAt (first cur) number = some entry)
    (hother : (memory.headers cur).entryAt (first cur) other = some entry) :
    number = other := by
  apply ringPosition_inj hnumber hle hless
  have hpos := h.capacity_pos
  have hlength := (h.wellFormed cur (Nat.le_refl cur)).length
  have hnumberLess : ringPosition (memory.headers cur).capacity.toNat
      (first cur) number < (memory.headers cur).index.length := by
    rw [hlength]
    exact ringPosition_lt (by omega)
  exact (List.getElem?_inj hnumberLess h.nodup).mp (hentry.trans hother.symm)

/-- Every position of the current ring is that of one of the last numbers or of
one to come. -/
theorem keyed_current (h : Ring memory first cur inserted) {position : Nat}
    (hentry : (memory.headers cur).index[position]? = some entry) :
    Invalid memory.entries entry ∨ ∃ number,
      first cur ≤ number ∧ number ≤ inserted ∧
      HasKey memory.entries entry number ∧
      ringPosition (memory.headers cur).capacity.toNat (first cur) number =
        position := by
  have hposition : position < (memory.headers cur).capacity.toNat := by
    rw [← (h.wellFormed cur (Nat.le_refl cur)).length]
    exact (List.getElem?_eq_some_iff.mp hentry).1
  by_cases hfull : first cur + (memory.headers cur).capacity.toNat ≤ inserted + 1
  · obtain ⟨number, hfirst, hle, hless, hring⟩ :=
      exists_ringPosition hfull hposition
    have hat : (memory.headers cur).entryAt (first cur) number = some entry := by
      rw [BlockIndexHeader.entryAt, hring]
      exact hentry
    rcases Nat.eq_or_lt_of_le hle with heq | hbefore
    · rw [heq] at hat
      rcases h.spot entry hat with hinvalid | hkey | ⟨old, hold, hround, hkey⟩
      · exact .inl hinvalid
      · exact .inr ⟨inserted, h.first_le, Nat.le_refl _, hkey, heq ▸ hring⟩
      · refine .inr ⟨old, hold, by omega, hkey, ?_⟩
        rw [← ringPosition_add_capacity hold, hround, ← heq, hring]
    · exact .inr ⟨number, hfirst, hle,
        h.window number entry hfirst hbefore hless hat, hring⟩
  · have hring : ringPosition (memory.headers cur).capacity.toNat (first cur)
        (first cur + position) = position := by
      rw [ringPosition, Nat.add_sub_cancel_left, Nat.mod_eq_of_lt hposition]
    have hat : (memory.headers cur).entryAt (first cur)
        (first cur + position) = some entry := by
      rw [BlockIndexHeader.entryAt, hring]
      exact hentry
    rcases Nat.lt_trichotomy (first cur + position) inserted with
      hless | heq | hmore
    · exact .inr ⟨first cur + position, Nat.le_add_right _ _, Nat.le_of_lt hless,
        h.window _ entry (Nat.le_add_right _ _) hless (by omega) hat, hring⟩
    · rw [heq] at hat
      rcases h.spot entry hat with hinvalid | hkey | ⟨old, hold, hround, -⟩
      · exact .inl hinvalid
      · exact .inr ⟨inserted, h.first_le, Nat.le_refl _, hkey, heq ▸ hring⟩
      · omega
    · exact .inl (h.invalid _ entry hmore (by omega) hat)

theorem not_hasKey_later (h : Ring memory first cur inserted)
    (hentry : (memory.headers cur).entryAt (first cur) other = some entry)
    (hless : inserted < number) : ¬ HasKey memory.entries entry number := by
  intro hkey
  rcases h.keyed_current hentry with hinvalid | ⟨last, -, hle, hlast, -⟩
  · exact hkey.not_invalid hinvalid
  · have hsame : 32 * last = 32 * number := hlast.symm.trans hkey
    omega

/-- So it is in every header that a consumer may still hold. -/
theorem keyed (h : Ring memory first cur inserted) {header position : Nat}
    (hheader : header ≤ cur)
    (hentry : (memory.headers header).index[position]? = some entry) :
    Invalid memory.entries entry ∨ ∃ number, first header ≤ number ∧
      number ≤ inserted ∧ HasKey memory.entries entry number ∧
      ringPosition (memory.headers header).capacity.toNat (first header) number =
        position := by
  obtain ⟨hfirst, hextends⟩ := h.extend header hheader
  obtain ⟨place, hplace, hring⟩ := hextends position entry hentry
  rcases h.keyed_current hplace with hinvalid | ⟨number, hnumber, hle, hkey, hat⟩
  · exact .inl hinvalid
  · exact .inr ⟨number, Nat.le_trans hfirst hnumber, hle, hkey,
      hring number hnumber hat⟩

/-- Just before the next number is the last one. -/
theorem tail_last (h : Ring memory first cur inserted) (hpos : 0 < inserted)
    (htail : (memory.headers cur).TailBefore (first cur) inserted)
    (hless : (memory.headers cur).tail.toNat <
      (memory.headers cur).capacity.toNat) :
    ∃ entry, (memory.headers cur).lookup (memory.headers cur).tail =
      some entry ∧ ¬ Invalid memory.entries entry := by
  have hcapacity := h.capacity_pos
  have hfirst := h.first_lt hpos
  have hlast : (memory.headers cur).tail.toNat =
      ringPosition (memory.headers cur).capacity.toNat (first cur)
        (inserted - 1) := by
    have hposition : ringPosition (memory.headers cur).capacity.toNat (first cur)
        (inserted - 1) < (memory.headers cur).capacity.toNat :=
      ringPosition_lt (by omega)
    have hle : first cur ≤ inserted - 1 := by omega
    have hnext : ringPosition (memory.headers cur).capacity.toNat (first cur)
        (inserted - 1 + 1) = _ := ringPosition_add hle 1
    rw [Nat.sub_add_cancel hpos, ← htail] at hnext
    have hmod := Nat.ModEq.add_right_cancel' 1 hnext
    rwa [Nat.ModEq, Nat.mod_eq_of_lt hless, Nat.mod_eq_of_lt hposition] at hmod
  obtain ⟨entry, hentry⟩ := BlockIndexHeader.entryAt_isSome
    (h.wellFormed cur (Nat.le_refl cur)) (first cur) (inserted - 1)
  refine ⟨entry, ?_, ?_⟩
  · rw [BlockIndexHeader.lookup, hlast]
    exact hentry
  · exact (h.window _ entry (by omega) (by omega) (by omega)
      hentry).not_invalid

/-- Steps that touch neither keys nor the shape of a header keep the ring. -/
theorem congr {after : Memory T} (h : Ring memory first cur inserted)
    (hblockIndex : after.blockIndex = memory.blockIndex)
    (hheaderCount : after.headerCount = memory.headerCount)
    (hnext : after.nextBlockIndexCapacity = memory.nextBlockIndexCapacity)
    (hentryCount : after.entryCount = memory.entryCount)
    (hcapacity : ∀ header,
      (after.headers header).capacity = (memory.headers header).capacity)
    (hindex : ∀ header,
      (after.headers header).index = (memory.headers header).index)
    (htail : ∀ header < cur,
      (after.headers header).tail = (memory.headers header).tail)
    (hkey : ∀ entry, (after.entries entry).key = (memory.entries entry).key) :
    Ring after first cur inserted := by
  have hentryAt : ∀ header number, (after.headers header).entryAt (first header)
      number = (memory.headers header).entryAt (first header) number := by
    intro header number
    rw [BlockIndexHeader.entryAt, BlockIndexHeader.entryAt, hcapacity, hindex]
  refine ⟨?_, ?_, ?_, ?_, ?_, ?_, ?_, h.first_le, h.first_lt, ?_, ?_, ?_, ?_,
    ?_⟩
  · rw [hblockIndex, h.blockIndex]
  · rw [hheaderCount, h.headerCount]
  · intro header hheader
    have hwell := h.wellFormed header hheader
    exact ⟨by rw [hcapacity]; exact hwell.capacity,
      by rw [hcapacity, hindex]; exact hwell.length⟩
  · rw [hnext, hcapacity, h.next]
  · rw [hcapacity]
    exact h.small
  · rw [hindex]
    exact h.nodup
  · intro header hheader entry hentry
    rw [hindex] at hentry
    rw [hentryCount]
    exact h.allocated header hheader entry hentry
  · intro number entry hnumber hless hround hentry
    rw [hcapacity] at hround
    rw [hentryAt] at hentry
    rw [HasKey, hkey]
    exact h.window number entry hnumber hless hround hentry
  · intro entry hentry
    rw [hentryAt] at hentry
    simp only [Invalid, HasKey, hkey, hcapacity]
    exact h.spot entry hentry
  · intro number entry hless hround hentry
    rw [hcapacity] at hround
    rw [hentryAt] at hentry
    rw [Invalid, hkey]
    exact h.invalid number entry hless hround hentry
  · intro header hheader
    simp only [Extends, hcapacity, hindex]
    exact h.extend header hheader
  · intro header hheader
    simp only [BlockIndexHeader.lookup, Invalid, hindex, htail header hheader,
      hkey]
    exact h.tails header hheader

/-- The key of the next block goes where the oldest one was. -/
theorem setKey (h : Ring memory first cur inserted) {key : UInt64}
    (hentry : (memory.headers cur).entryAt (first cur) inserted = some entry)
    (hkey : key.toNat = 32 * inserted) :
    Ring (memory.setKey entry key) first cur inserted := by
  have hself : HasKey (memory.setKey entry key).entries entry inserted := by
    rw [HasKey, Memory.setKey_self]
    exact hkey
  have hother : ∀ other, other ≠ entry →
      (memory.setKey entry key).entries other = memory.entries other :=
    fun other hne => Memory.setKey_of_ne hne key
  refine { h with window := ?_, spot := ?_, invalid := ?_, tails := ?_ }
  · intro number old hnumber hless hround hold
    have hne : old ≠ entry := by
      rintro rfl
      have heq := h.entryAt_inj hnumber (Nat.le_of_lt hless) hround hold hentry
      omega
    rw [HasKey, hother old hne]
    exact h.window number old hnumber hless hround hold
  · intro old hold
    cases hentry.symm.trans hold
    exact .inr (.inl hself)
  · intro number old hless hround hold
    have hne : old ≠ entry := by
      rintro rfl
      have hfirst := h.first_le
      have heq := h.entryAt_inj hfirst (Nat.le_of_lt hless)
        (Nat.lt_of_lt_of_le hround (Nat.add_le_add_right hfirst _)) hentry hold
      omega
    rw [Invalid, hother old hne]
    exact h.invalid number old hless hround hold
  · intro header hheader
    obtain ⟨old, hold, hvalid⟩ := h.tails header hheader
    refine ⟨old, hold, ?_⟩
    by_cases hne : old = entry
    · rw [hne]
      exact hself.not_invalid
    · rw [Invalid, hother old hne]
      exact hvalid

/-- Another block is in the index. -/
theorem insert (h : Ring memory first cur inserted)
    (hentry : (memory.headers cur).entryAt (first cur) inserted = some entry)
    (hkey : HasKey memory.entries entry inserted) :
    Ring memory first cur (inserted + 1) := by
  have hpos := h.capacity_pos
  have hfirst := h.first_le
  refine { h with
    small := Nat.le_trans h.small (by omega)
    first_le := Nat.le_succ_of_le h.first_le
    first_lt := fun _ => Nat.lt_succ_of_le h.first_le
    window := ?_
    spot := ?_
    invalid := fun number old hless => h.invalid number old (by omega) }
  · intro number old hnumber hless hround hold
    rcases Nat.lt_succ_iff_lt_or_eq.mp hless with hbefore | heq
    · exact h.window number old hnumber hbefore (by omega) hold
    · rw [heq] at hold ⊢
      cases hentry.symm.trans hold
      exact hkey
  · intro old hold
    by_cases hfull :
        first cur + (memory.headers cur).capacity.toNat ≤ inserted + 1
    · obtain ⟨number, hnumber⟩ := Nat.exists_eq_add_of_le hfull
      have hround : first cur + number + (memory.headers cur).capacity.toNat =
          inserted + 1 := by omega
      refine .inr (.inr ⟨first cur + number, Nat.le_add_right _ _, hround, ?_⟩)
      apply h.window _ old (Nat.le_add_right _ _) (by omega) (by omega)
      rw [BlockIndexHeader.entryAt, ← hround,
        ringPosition_add_capacity (Nat.le_add_right _ _)] at hold
      exact hold
    · exact .inl (h.invalid _ old (Nat.lt_succ_self inserted) (by omega) hold)

/-! ## A ring of twice the size -/

/-- The ring is full: the next position holds the oldest of its numbers. -/
structure Full (header : BlockIndexHeader) (entries : Nat → BlockIndexEntry)
    (first inserted oldest : Nat) : Prop where
  oldest_le : first ≤ oldest
  round : oldest + header.capacity.toNat = inserted
  key : ∀ entry, header.entryAt first inserted = some entry →
    HasKey entries entry oldest
  tail : header.TailBefore first inserted
  tail_lt : header.tail.toNat < header.capacity.toNat
  bound : inserted < 2 ^ 58

variable {oldest : Nat}

theorem Full.keys
    (hfull : Full (memory.headers cur) memory.entries (first cur) inserted
      oldest)
    (h : Ring memory first cur inserted) (hnumber : oldest ≤ number)
    (hless : number < inserted)
    (hentry : (memory.headers cur).entryAt (first cur) number = some entry) :
    HasKey memory.entries entry number := by
  have hround := hfull.round
  have hfirst := hfull.oldest_le
  rcases Nat.eq_or_lt_of_le hnumber with heq | hlater
  · rw [← heq] at hentry ⊢
    apply hfull.key
    rw [← hround, BlockIndexHeader.entryAt, ringPosition_add_capacity hfirst]
    exact hentry
  · exact h.window number entry (by omega) hless (by omega) hentry

theorem Full.position
    (hfull : Full (memory.headers cur) memory.entries (first cur) inserted
      oldest)
    (h : Ring memory first cur inserted) {position : Nat}
    (hentry : (memory.headers cur).index[position]? = some entry) :
    ∃ number, oldest ≤ number ∧ number < inserted ∧
      ringPosition (memory.headers cur).capacity.toNat (first cur) number =
        position := by
  have hround := hfull.round
  have hfirst := hfull.oldest_le
  have hpos := h.capacity_pos
  have hposition : position < (memory.headers cur).capacity.toNat := by
    rw [← (h.wellFormed cur (Nat.le_refl cur)).length]
    exact (List.getElem?_eq_some_iff.mp hentry).1
  have hlast : first cur + (memory.headers cur).capacity.toNat ≤
      inserted - 1 + 1 := by omega
  obtain ⟨number, -, hle, hless, hring⟩ := exists_ringPosition hlast hposition
  exact ⟨number, by omega, by omega, hring⟩

/-- The memory that `new_block_index` leaves when the ring is full. -/
abbrev grown (memory : Memory T) (first : Nat → Nat) (cur oldest : Nat) :
    Memory T :=
  memory.addBlockIndex ((memory.headers cur).rotated (first cur) oldest)

theorem newEntryCount_eq (h : Ring memory first cur inserted) :
    memory.newEntryCount = (memory.headers cur).capacity := by
  simp only [Memory.newEntryCount, h.blockIndex]

theorem prevCapacity_eq (h : Ring memory first cur inserted) :
    memory.prevCapacity = (memory.headers cur).capacity := by
  simp only [Memory.prevCapacity, h.blockIndex]

/-- The whole old index is copied, and the new one has room for as much again. -/
theorem newBlockIndex_eq (h : Ring memory first cur inserted)
    (hfull : Full (memory.headers cur) memory.entries (first cur) inserted
      oldest) :
    newBlockIndex memory = some (grown memory first cur oldest) := by
  have hnext := h.next
  have hcopied : copiedIndex memory =
      some ((memory.headers cur).rotated (first cur) oldest) := by
    have htail := hfull.tail
    rw [BlockIndexHeader.TailBefore, ← hfull.round,
      ringPosition_add_capacity hfull.oldest_le] at htail
    simp only [copiedIndex, h.blockIndex]
    rw [BlockIndexHeader.copyFrom_tail (h.wellFormed cur (Nat.le_refl cur))
      hfull.tail_lt (by omega), BlockIndexHeader.rotated]
    congr 1
    apply List.map_congr_left
    intro distance _
    rw [ringPosition_add hfull.oldest_le, ← htail, Nat.mod_add_mod]
  rw [newBlockIndex, hcopied, Option.bind_some, if_pos]
  rw [newEntryCount_eq h, prevCapacity_eq h, BlockIndexHeader.length_rotated]
  omega

/-- The header that `new_block_index` makes. -/
theorem newBlockIndex_header (h : Ring memory first cur inserted)
    (oldest : Nat) :
    ((grown memory first cur oldest).headers (cur + 1)).capacity.toNat =
        2 * (memory.headers cur).capacity.toNat ∧
      ((grown memory first cur oldest).headers (cur + 1)).tail.toNat =
        (memory.headers cur).capacity.toNat - 1 ∧
      ((grown memory first cur oldest).headers (cur + 1)).index =
        (memory.headers cur).rotated (first cur) oldest ++
          List.range' memory.entryCount
            (memory.headers cur).capacity.toNat := by
  have hpos := h.capacity_pos
  have hwell := h.wellFormed cur (Nat.le_refl cur)
  obtain ⟨bits, hbits⟩ := hwell.capacity
  have hnext := h.next
  have hheader : (grown memory first cur oldest).headers (cur + 1) =
      ⟨memory.nextBlockIndexCapacity,
        ((memory.headers cur).capacity - 1) &&&
          (memory.nextBlockIndexCapacity - 1),
        (memory.headers cur).rotated (first cur) oldest ++
        List.range' memory.entryCount
          (memory.headers cur).capacity.toNat⟩ := by
    have hnew : (grown memory first cur oldest).headers memory.headerCount = _ :=
      Function.update_self ..
    rw [prevCapacity_eq h, newEntryCount_eq h, h.headerCount] at hnew
    exact hnew
  have hsize : memory.nextBlockIndexCapacity.toNat = 2 ^ (bits + 6) := by
    rw [hnext, hbits, Nat.pow_succ _ (bits + 5), Nat.mul_comm]
  have hone : (1 : UInt64) ≤ (memory.headers cur).capacity := by
    rw [UInt64.le_iff_toNat_le, UInt64.toNat_one]
    omega
  rw [hheader]
  refine ⟨hnext, ?_, rfl⟩
  rw [toNat_and_sub_one hsize, hnext,
    UInt64.toNat_sub_of_le _ _ hone, UInt64.toNat_one,
    Nat.mod_eq_of_lt (by omega)]

theorem newBlockIndex_headers_of_le (h : Ring memory first cur inserted)
    {header : Nat} (hheader : header ≤ cur) :
    (grown memory first cur oldest).headers header = memory.headers header := by
  have hne : header ≠ memory.headerCount := by
    rw [h.headerCount]
    omega
  exact Function.update_of_ne hne ..

theorem newBlockIndex_entries_eq (h : Ring memory first cur inserted)
    (entry : Nat) :
    (grown memory first cur oldest).entries entry =
      if entry ∈ List.range' memory.entryCount
        (memory.headers cur).capacity.toNat
      then { memory.entries entry with key := INVALID_BLOCK_BASE }
      else memory.entries entry := by
  simp only [Memory.addBlockIndex, newEntryCount_eq h]

theorem newBlockIndex_entries (h : Ring memory first cur inserted)
    (hentry : entry < memory.entryCount) :
    (grown memory first cur oldest).entries entry = memory.entries entry := by
  have hnotMem : entry ∉ List.range' memory.entryCount
      (memory.headers cur).capacity.toNat := by
    rw [List.mem_range'_1]
    omega
  rw [newBlockIndex_entries_eq h, if_neg hnotMem]

theorem newBlockIndex_invalid (h : Ring memory first cur inserted)
    (hentry : entry ∈ List.range' memory.entryCount
      (memory.headers cur).capacity.toNat) :
    Invalid (grown memory first cur oldest).entries entry := by
  rw [Invalid, newBlockIndex_entries_eq h, if_pos hentry]

/-- The last numbers keep their entries. -/
theorem newBlockIndex_entryAt (h : Ring memory first cur inserted)
    (hfull : Full (memory.headers cur) memory.entries (first cur) inserted
      oldest) (hnumber : oldest ≤ number)
    (hless : number < inserted) :
    ((grown memory first cur oldest).headers (cur + 1)).entryAt oldest number =
      (memory.headers cur).entryAt (first cur) number := by
  obtain ⟨hcapacity, -, hindex⟩ := newBlockIndex_header h oldest
  have hround := hfull.round
  have hwell := h.wellFormed cur (Nat.le_refl cur)
  have hdistance : number - oldest < (memory.headers cur).capacity.toNat := by
    omega
  rw [BlockIndexHeader.entryAt, hindex, hcapacity, ringPosition,
    Nat.mod_eq_of_lt (by omega), List.getElem?_append_left (by simpa),
    BlockIndexHeader.getElem?_rotated hwell hdistance,
    Nat.add_sub_cancel' hnumber]

theorem newBlockIndex_entryAt_fresh (h : Ring memory first cur inserted)
    (hfull : Full (memory.headers cur) memory.entries (first cur) inserted
      oldest) (hle : inserted ≤ number)
    (hless : number < inserted + (memory.headers cur).capacity.toNat)
    (hentry : ((grown memory first cur oldest).headers (cur + 1)).entryAt oldest
      number = some entry) :
    Invalid (grown memory first cur oldest).entries entry := by
  obtain ⟨hcapacity, -, hindex⟩ := newBlockIndex_header h oldest
  have hround := hfull.round
  have hpos := h.capacity_pos
  rw [BlockIndexHeader.entryAt, hindex, hcapacity, ringPosition,
    Nat.mod_eq_of_lt (by omega),
    List.getElem?_append_right (by simp; omega)] at hentry
  exact newBlockIndex_invalid h (List.mem_of_getElem? hentry)

theorem grow (h : Ring memory first cur inserted)
    (hfull : Full (memory.headers cur) memory.entries (first cur) inserted
      oldest) :
    Ring (grown memory first cur oldest)
      (Function.update first (cur + 1) oldest) (cur + 1) inserted := by
  obtain ⟨hcapacity, htail, hindex⟩ := newBlockIndex_header h oldest
  have hround := hfull.round
  have hfirst := hfull.oldest_le
  have hbound := hfull.bound
  have hpos := h.capacity_pos
  have hwell := h.wellFormed cur (Nat.le_refl cur)
  have hcount : (grown memory first cur oldest).entryCount =
      memory.entryCount + (memory.headers cur).capacity.toNat := by
    simp only [Memory.addBlockIndex, newEntryCount_eq h]
  have hnew : Function.update first (cur + 1) oldest (cur + 1) = oldest :=
    Function.update_self ..
  have hold : ∀ header ≤ cur,
      Function.update first (cur + 1) oldest header = first header :=
    fun header hheader => Function.update_of_ne (by omega) ..
  have hkept : ∀ header ≤ cur, ∀ entry ∈ (memory.headers header).index,
      (grown memory first cur oldest).entries entry = memory.entries entry :=
    fun header hheader entry hentry =>
      newBlockIndex_entries h (h.allocated header hheader entry hentry)
  have hkeys : ∀ number entry, oldest ≤ number → number < inserted →
      (memory.headers cur).entryAt (first cur) number = some entry →
      HasKey (grown memory first cur oldest).entries entry number := by
    intro number entry hnumber hless hentry
    have hmem := List.mem_of_getElem? hentry
    rw [HasKey, hkept cur (Nat.le_refl cur) entry hmem]
    exact hfull.keys h hnumber hless hentry
  refine ⟨?_, ?_, ?_, ?_, ?_, ?_, ?_, ?_, ?_, ?_, ?_, ?_, ?_, ?_⟩
  · rw [← h.headerCount]
    rfl
  · rw [← h.headerCount]
    rfl
  · intro header hheader
    rcases Nat.lt_or_eq_of_le hheader with hless | rfl
    · rw [newBlockIndex_headers_of_le h (Nat.le_of_lt_succ hless)]
      exact h.wellFormed header (Nat.le_of_lt_succ hless)
    · obtain ⟨bits, hbits⟩ := hwell.capacity
      refine ⟨⟨bits + 1, ?_⟩, ?_⟩
      · rw [hcapacity, hbits]
        ring
      · rw [hcapacity, hindex]
        simp
        omega
  · have hdouble : (grown memory first cur oldest).nextBlockIndexCapacity =
        memory.nextBlockIndexCapacity <<< 1 := rfl
    have hsmall := h.small
    rw [hdouble, hcapacity, UInt64.toNat_shiftLeft, h.next,
      Nat.shiftLeft_eq]
    have hone : (1 : UInt64).toNat % 64 = 1 := rfl
    rw [hone]
    omega
  · rw [hcapacity]
    omega
  · rw [hindex]
    refine List.Nodup.append
      (BlockIndexHeader.nodup_rotated hwell h.nodup hfirst)
      (List.nodup_range' ..) ?_
    intro entry hrotated hfresh
    have hless := h.allocated cur (Nat.le_refl cur) entry
      (BlockIndexHeader.mem_index_of_mem_rotated hwell hrotated)
    have hle := (List.mem_range'_1.mp hfresh).1
    omega
  · intro header hheader entry hentry
    rw [hcount]
    rcases Nat.lt_or_eq_of_le hheader with hless | rfl
    · rw [newBlockIndex_headers_of_le h (Nat.le_of_lt_succ hless)] at hentry
      exact Nat.lt_add_right _
        (h.allocated header (Nat.le_of_lt_succ hless) entry hentry)
    · rw [hindex] at hentry
      rcases List.mem_append.mp hentry with hrotated | hfresh
      · exact Nat.lt_add_right _ (h.allocated cur (Nat.le_refl cur) entry
          (BlockIndexHeader.mem_index_of_mem_rotated hwell hrotated))
      · exact (List.mem_range'_1.mp hfresh).2
  · rw [hnew]
    omega
  · intro _
    rw [hnew]
    omega
  · intro number entry hnumber hless hnumberRound hentry
    rw [hnew] at hnumber hentry
    rw [newBlockIndex_entryAt h hfull hnumber hless] at hentry
    exact hkeys number entry hnumber hless hentry
  · intro entry hentry
    rw [hnew] at hentry
    exact .inl (newBlockIndex_entryAt_fresh h hfull (Nat.le_refl _) (by omega)
      hentry)
  · intro number entry hless hnumberRound hentry
    rw [hnew, hcapacity] at hnumberRound
    rw [hnew] at hentry
    exact newBlockIndex_entryAt_fresh h hfull (Nat.le_of_lt hless) (by omega)
      hentry
  · have hextends : Extends
        ((grown memory first cur oldest).headers (cur + 1)) oldest
        (memory.headers cur) (first cur) := by
      refine ⟨hfirst, ?_⟩
      intro position entry hentry
      obtain ⟨number, hnumber, hless, hring⟩ := hfull.position h hentry
      have hplace : oldest + (number - oldest) = number :=
        Nat.add_sub_cancel' hnumber
      refine ⟨number - oldest, ?_, ?_⟩
      · rw [hindex, List.getElem?_append_left (by simp; omega),
          BlockIndexHeader.getElem?_rotated hwell (by omega), hplace,
          BlockIndexHeader.entryAt, hring]
        exact hentry
      · intro later hlater hat
        rw [hcapacity] at hat
        rw [ringPosition_of_later hfirst hlater hat (by omega), hplace, hring]
    intro header hheader
    rw [hnew]
    rcases Nat.lt_or_eq_of_le hheader with hless | rfl
    · rw [newBlockIndex_headers_of_le h (Nat.le_of_lt_succ hless),
        hold header (Nat.le_of_lt_succ hless)]
      exact hextends.trans (h.extend header (Nat.le_of_lt_succ hless))
    · rw [hnew]
      exact .refl _ _
  · intro header hheader
    rw [newBlockIndex_headers_of_le h (Nat.le_of_lt_succ hheader)]
    rcases Nat.lt_succ_iff_lt_or_eq.mp hheader with hless | rfl
    · obtain ⟨entry, hentry, hvalid⟩ := h.tails header hless
      refine ⟨entry, hentry, ?_⟩
      rw [Invalid, hkept header (Nat.le_of_lt hless) entry
        (List.mem_of_getElem? hentry)]
      exact hvalid
    · have hlength : (memory.headers header).tail.toNat <
          (memory.headers header).index.length := by
        rw [hwell.length]
        exact hfull.tail_lt
      have hentry := List.getElem?_eq_getElem hlength
      obtain ⟨number, hnumber, hless, hring⟩ := hfull.position h hentry
      refine ⟨_, hentry, ?_⟩
      apply HasKey.not_invalid
      apply hkeys number _ hnumber hless
      rw [BlockIndexHeader.entryAt, hring]
      exact hentry

theorem grow_tail (h : Ring memory first cur inserted)
    (hfull : Full (memory.headers cur) memory.entries (first cur) inserted
      oldest) :
    ((grown memory first cur oldest).headers (cur + 1)).TailBefore oldest
        inserted ∧
      ((grown memory first cur oldest).headers (cur + 1)).tail.toNat <
        ((grown memory first cur oldest).headers (cur + 1)).capacity.toNat := by
  obtain ⟨hcapacity, htail, -⟩ := newBlockIndex_header h oldest
  have hround := hfull.round
  have hpos := h.capacity_pos
  refine ⟨?_, by omega⟩
  have hdistance : inserted - oldest = (memory.headers cur).capacity.toNat := by
    omega
  rw [BlockIndexHeader.TailBefore, htail, hcapacity, ringPosition, hdistance,
    Nat.sub_add_cancel (by omega)]

/-- An entry with its own key is among those that the new ring keeps. -/
theorem grow_entryAt (h : Ring memory first cur inserted)
    (hfull : Full (memory.headers cur) memory.entries (first cur) inserted
      oldest)
    (hless : number < inserted)
    (hentry : (memory.headers cur).entryAt (first cur) number = some entry)
    (hkey : HasKey memory.entries entry number) :
    oldest ≤ number ∧
      ((grown memory first cur oldest).headers (cur + 1)).entryAt oldest
        number = some entry := by
  obtain ⟨last, hlast, hlastLess, hring⟩ := hfull.position h hentry
  have hat : (memory.headers cur).entryAt (first cur) last = some entry := by
    rw [BlockIndexHeader.entryAt, hring]
    exact hentry
  have hlastKey := hfull.keys h hlast hlastLess hat
  have hsame : 32 * last = 32 * number := hlastKey.symm.trans hkey
  have hle : oldest ≤ number := by omega
  exact ⟨hle, (newBlockIndex_entryAt h hfull hle hless).trans hentry⟩

end Ring

/-- The ring that the constructor makes. -/
theorem newBlockIndex_initial {memory : Memory T} (h : Unused memory) :
    newBlockIndex memory = some (memory.addBlockIndex []) := by
  have hcopied : copiedIndex memory = some [] := by
    simp only [copiedIndex, h.blockIndex]
  rw [newBlockIndex, hcopied, Option.bind_some, if_pos]
  simp only [Memory.prevCapacity, Memory.newEntryCount, h.blockIndex,
    h.nextBlockIndexCapacity]
  decide

theorem ring_initial {memory : Memory T} (h : Unused memory) :
    Ring (memory.addBlockIndex []) (fun _ => 0) 0 0 ∧
      ((memory.addBlockIndex []).headers 0).TailBefore 0 0 ∧
      ((memory.addBlockIndex []).headers 0).tail.toNat <
        ((memory.addBlockIndex []).headers 0).capacity.toNat ∧
      ∀ number entry, ((memory.addBlockIndex []).headers 0).entryAt 0 number =
        some entry → Invalid (memory.addBlockIndex []).entries entry := by
  have hcount : memory.newEntryCount = 32 := by
    simp only [Memory.newEntryCount, h.blockIndex, h.nextBlockIndexCapacity]
    rfl
  have hheader : (memory.addBlockIndex []).headers 0 =
      ⟨32, 31, List.range' 0 32⟩ := by
    simp only [Memory.addBlockIndex, Memory.prevCapacity, hcount, h.blockIndex,
      h.headerCount, h.entryCount, h.nextBlockIndexCapacity,
      Function.update_self]
    rfl
  have hinvalid : ∀ number entry, ((memory.addBlockIndex []).headers 0).entryAt
      0 number = some entry →
        Invalid (memory.addBlockIndex []).entries entry := by
    intro number entry hentry
    rw [hheader] at hentry
    have hmem : entry ∈ List.range' 0 32 := List.mem_of_getElem? hentry
    have hentries : (memory.addBlockIndex []).entries entry =
        { memory.entries entry with key := INVALID_BLOCK_BASE } := by
      simp only [Memory.addBlockIndex, hcount, h.entryCount]
      exact if_pos hmem
    rw [Invalid, hentries]
  refine ⟨⟨?_, ?_, ?_, ?_, ?_, ?_, ?_, ?_, ?_, ?_, ?_, ?_, ?_, ?_⟩, ?_, ?_,
    hinvalid⟩
  · simp [Memory.addBlockIndex, h.headerCount]
  · simp [Memory.addBlockIndex, h.headerCount]
  · intro header hheader'
    rw [Nat.le_zero.mp hheader', hheader]
    exact ⟨⟨0, rfl⟩, by simp⟩
  · rw [hheader]
    simp [Memory.addBlockIndex, h.nextBlockIndexCapacity]
    rfl
  · rw [hheader]
    decide
  · rw [hheader]
    exact List.nodup_range' ..
  · intro header hheader' entry hentry
    rw [Nat.le_zero.mp hheader', hheader] at hentry
    simp only [Memory.addBlockIndex, hcount, h.entryCount]
    exact (List.mem_range'_1.mp hentry).2
  · exact Nat.le_refl 0
  · exact id
  · exact fun _ _ _ hless => absurd hless (Nat.not_lt_zero _)
  · exact fun entry hentry => .inl (hinvalid 0 entry hentry)
  · exact fun number entry _ _ hentry => hinvalid number entry hentry
  · intro header hheader'
    rw [Nat.le_zero.mp hheader']
    exact .refl _ _
  · exact fun _ hless => absurd hless (Nat.not_lt_zero _)
  · rw [hheader]
    rfl
  · rw [hheader]
    decide

end CandCpp.Queue
