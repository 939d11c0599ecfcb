import CandCpp.Queue.BlockIndex

/-!
# The invariant of ImplicitProducer

Beside the ledger of the counters and the ring of the block index: which block
holds the indices of each block number, how many of them its consumers have
emptied, which elements are still in it, and what each thread knows of what it
has read.
-/

namespace CandCpp.Queue

open CandCpp.Foundation

variable {T : Type} {consumers : Nat}

/-! ## Blocks by their number -/

/-- A block is in the index until it is `retired`, and out of the pool until it
is `freed`, both by the consumer that emptied it. -/
inductive BlockPhase (consumers : Nat) where
  | coming
  | live
  | emptied (index : Fin consumers)
  | retired (index : Fin consumers)
  | freed
  deriving DecidableEq

namespace BlockPhase

def Indexed : BlockPhase consumers → Prop
  | .live | .emptied _ => True
  | .coming | .retired _ | .freed => False

def Unfreed : BlockPhase consumers → Prop
  | .live | .emptied _ | .retired _ => True
  | .coming | .freed => False

end BlockPhase

/-- What the numbers of blocks stand for. -/
structure BlockMap (consumers : Nat) where
  inserted : Nat
  first : Nat → Nat
  slot : Nat → Nat
  block : Nat → Nat
  phase : Nat → BlockPhase consumers

namespace ConsumerPc

/-- What the counters see of a consumer. -/
def counters : ConsumerPc T → DequeuePc
  | .counting pc => pc
  | .loadingTail index _ | .loadingBase index _ _ | .loadingValue index _
  | .moving index _ _ | .settingEmpty index _ _ _ _
  | .storingNull index _ _ _ _ | .givingBack index _ _ _ => .claimed index

/-- The index whose element the consumer has not taken yet. -/
def unmoved : ConsumerPc T → Option UInt64
  | .counting (.claimed index) | .loadingTail index _ | .loadingBase index _ _
  | .loadingValue index _ | .moving index _ _ => some index
  | _ => none

/-- The index that its block does not count as dequeued yet. -/
def pending : ConsumerPc T → Option UInt64
  | .settingEmpty index _ _ _ _ => some index
  | pc => pc.unmoved

theorem counters_of_unmoved {pc : ConsumerPc T} {index : UInt64}
    (h : pc.unmoved = some index) : pc.counters = .claimed index := by
  cases pc with
  | counting pc =>
      cases pc with
      | claimed => exact congrArg _ (Option.some.inj h)
      | idle | loadingOvercommit | testing | committing | reloadingTail
      | claiming | overcommitting => exact nomatch h
  | loadingTail | loadingBase | loadingValue | moving =>
      exact congrArg _ (Option.some.inj h)
  | settingEmpty | storingNull | givingBack => exact nomatch h

theorem counters_of_pending {pc : ConsumerPc T} {index : UInt64}
    (h : pc.pending = some index) : pc.counters = .claimed index := by
  cases pc with
  | settingEmpty => exact congrArg _ (Option.some.inj h)
  | counting | loadingTail | loadingBase | loadingValue | moving | storingNull
  | givingBack => exact counters_of_unmoved h

theorem pending_of_unmoved {pc : ConsumerPc T} {index : UInt64}
    (h : pc.unmoved = some index) : pc.pending = some index := by
  cases pc with
  | settingEmpty => exact nomatch h
  | counting | loadingTail | loadingBase | loadingValue | moving | storingNull
  | givingBack => exact h

def pendingIn (number : Nat) (pc : ConsumerPc T) : Nat :=
  if pc.pending.map (fun index => index.toNat / 32) = some number then 1 else 0

def claims (pc : ConsumerPc T) : Nat :=
  match pc.counters with
  | .claimed _ => 1
  | _ => 0

/-- What a consumer has read, in terms of the number of its block. -/
def Knows (headers : Nat → BlockIndexHeader)
    (entries : Nat → BlockIndexEntry) (accepted : List T)
    (map : BlockMap consumers) (cur : Nat) (consumer : Fin consumers) :
    ConsumerPc T → Prop
  | .counting _ => True
  | .loadingTail index header =>
      header ≤ cur ∧ map.first header ≤ index.toNat / 32 ∧
        (headers header).entryAt (map.first header) (index.toNat / 32) =
          some (map.slot (index.toNat / 32))
  | .loadingBase index header tail =>
      (header ≤ cur ∧ map.first header ≤ index.toNat / 32 ∧
        (headers header).entryAt (map.first header) (index.toNat / 32) =
          some (map.slot (index.toNat / 32))) ∧
      ∃ entry, (headers header).lookup tail = some entry ∧
        (entries entry).key ≠ INVALID_BLOCK_BASE
  | .loadingValue index entry => entry = map.slot (index.toNat / 32)
  | .moving index entry block =>
      entry = map.slot (index.toNat / 32) ∧
        block = map.block (index.toNat / 32)
  | .settingEmpty index entry block element _ =>
      entry = map.slot (index.toNat / 32) ∧
        block = map.block (index.toNat / 32) ∧
        accepted[index.toNat]? = some element
  | .storingNull index entry block element _ =>
      entry = map.slot (index.toNat / 32) ∧
        block = map.block (index.toNat / 32) ∧
        accepted[index.toNat]? = some element ∧
        map.phase (index.toNat / 32) = .emptied consumer
  | .givingBack index block element _ =>
      block = map.block (index.toNat / 32) ∧
        accepted[index.toNat]? = some element ∧
        map.phase (index.toNat / 32) = .retired consumer

end ConsumerPc

/-! ## The parts of the invariant -/

/-- The blocks out of the pool, and how many of their elements are emptied. -/
structure Stock (head : Nat) (used : Nat → Bool) (dequeued : Nat → UInt64)
    (locals : Fin consumers → ConsumerPc T) (map : BlockMap consumers) :
    Prop where
  coming : ∀ number, map.phase number = .coming ↔ map.inserted ≤ number
  used : ∀ number, (map.phase number).Unfreed → used (map.block number) = true
  apart : ∀ number other, (map.phase number).Unfreed →
    (map.phase other).Unfreed → map.block number = map.block other →
    number = other
  count : ∀ number, (map.phase number).Unfreed →
    (dequeued (map.block number)).toNat +
        ∑ consumer, (locals consumer).pendingIn number =
      min 32 (head - 32 * number)
  live : ∀ number, map.phase number = .live →
    (dequeued (map.block number)).toNat < 32
  done : ∀ number, map.phase number ≠ .coming → map.phase number ≠ .live →
    32 * number + 32 ≤ head ∧
      ∑ consumer, (locals consumer).pendingIn number = 0

/-- The blocks that the index finds. -/
def Slots (header : BlockIndexHeader) (entries : Nat → BlockIndexEntry)
    (map : BlockMap consumers) (first : Nat) : Prop :=
  ∀ number, (map.phase number).Indexed → first ≤ number ∧
    header.entryAt first number = some (map.slot number) ∧
    (entries (map.slot number)).key.toNat = 32 * number ∧
    (entries (map.slot number)).value = some (map.block number)

/-- The elements that are published and not taken. -/
structure Contents (tail head : Nat) (blocks : Nat → Block T)
    (accepted : List T) (locals : Fin consumers → ConsumerPc T)
    (map : BlockMap consumers) : Prop where
  length : accepted.length = tail
  there : ∀ index, index < tail →
    (head ≤ index ∨ ∃ consumer claimed,
      (locals consumer).unmoved = some claimed ∧ claimed.toNat = index) →
    (blocks (map.block (index / 32))).elements (index % 32) = accepted[index]?

/-- Every claimed element is on its way out of the queue, to one consumer, or
has been taken. -/
structure Delivered (head : UInt64) (accepted : List T) (taken : List (Taken T))
    (locals : Fin consumers → ConsumerPc T) : Prop where
  nodup : (taken.map Taken.index).Nodup
  right : ∀ entry ∈ taken,
    accepted[entry.index.toNat]? = some entry.element
  claimed : ∀ entry ∈ taken, entry.index.toNat < head.toNat ∧
    ∀ consumer, (locals consumer).counters ≠ .claimed entry.index
  count : taken.length + ∑ consumer, (locals consumer).claims = head.toNat

/-! ## What the producer knows -/

/-- No block that the index finds is at `entry`. -/
def FreeEntry (map : BlockMap consumers) (entry : Nat) : Prop :=
  ∀ number, (map.phase number).Indexed → map.slot number ≠ entry

/-- A block out of the pool that is not in the index yet. -/
def FreshBlock (used : Nat → Bool) (map : BlockMap consumers) (block : Nat) :
    Prop :=
  used block = true ∧
    ∀ number, (map.phase number).Unfreed → map.block number ≠ block

/-- The tail of the current header stands before the next block number, whose
entry is not in use. -/
structure Settled (header : BlockIndexHeader)
    (entries : Nat → BlockIndexEntry) (first inserted : Nat) : Prop where
  before : header.TailBefore first inserted
  tail_lt : header.tail.toNat < header.capacity.toNat
  spot : ∀ entry, header.entryAt first inserted = some entry →
    HasKey entries entry inserted → (entries entry).value = none

/-- The tail of the current header stands at the next block number. -/
def TailAt (header : BlockIndexHeader) (first inserted : Nat) : Prop :=
  header.tail.toNat = ringPosition header.capacity.toNat first inserted

/-- The entry of the next block, with its key in place. -/
structure Reserved (header : BlockIndexHeader)
    (entries : Nat → BlockIndexEntry) (map : BlockMap consumers)
    (first entry : Nat) : Prop where
  found : header.entryAt first map.inserted = some entry
  key : HasKey entries entry map.inserted
  free : FreeEntry map entry

/-- All blocks below the tail index are in use, and no other. -/
structure Filled (tail : Nat) (tailBlock : Option Nat)
    (map : BlockMap consumers) : Prop where
  inserted : map.inserted = (tail + 31) / 32
  tailBlock : tail % 32 ≠ 0 → tailBlock = some (map.block (tail / 32))

/-- The call is at the start of a new block. -/
structure AtBlock (tail : UInt64) (map : BlockMap consumers)
    (call : EnqueueCall T) : Prop where
  current : call.currentTailIndex = tail
  inserted : tail.toNat = 32 * map.inserted

/-- The block of the tail index is in the index. -/
structure Opened (tail : UInt64) (tailBlock : Option Nat)
    (map : BlockMap consumers) (call : EnqueueCall T) : Prop where
  current : call.currentTailIndex = tail
  inserted : map.inserted = tail.toNat / 32 + 1
  tailBlock : tailBlock = some (map.block (tail.toNat / 32))

namespace EnqueuePc

def Knows (noexceptCtor : Bool) (header : BlockIndexHeader)
    (entries : Nat → BlockIndexEntry) (used : Nat → Bool)
    (blocks : Nat → Block T) (tail : UInt64) (tailBlock : Option Nat)
    (map : BlockMap consumers) (cur : Nat) : EnqueuePc T → Prop
  | .idle =>
      Settled header entries (map.first cur) map.inserted ∧
        Filled tail.toNat tailBlock map
  | .loadingHead call | .inserting call =>
      Settled header entries (map.first cur) map.inserted ∧
        AtBlock tail map call
  | .growing call =>
      Settled header entries (map.first cur) map.inserted ∧
        AtBlock tail map call ∧
        ∃ oldest, Ring.Full header entries (map.first cur) map.inserted oldest
  | .insertingNew call =>
      Settled header entries (map.first cur) map.inserted ∧
        AtBlock tail map call ∧
        ∀ entry, header.entryAt (map.first cur) map.inserted = some entry →
          Invalid entries entry
  | .storingKey call number entry newTail =>
      Settled header entries (map.first cur) map.inserted ∧
        AtBlock tail map call ∧ number = cur ∧
        header.entryAt (map.first cur) map.inserted = some entry ∧
        newTail.toNat = ringPosition header.capacity.toNat (map.first cur)
          map.inserted ∧
        FreeEntry map entry
  | .storingTail call number entry newTail =>
      AtBlock tail map call ∧ number = cur ∧
        header.TailBefore (map.first cur) map.inserted ∧
        header.tail.toNat < header.capacity.toNat ∧
        newTail.toNat = ringPosition header.capacity.toNat (map.first cur)
          map.inserted ∧
        Reserved header entries map (map.first cur) entry
  | .requisitioning call entry =>
      AtBlock tail map call ∧ TailAt header (map.first cur) map.inserted ∧
        Reserved header entries map (map.first cur) entry
  | .resetting call entry block =>
      AtBlock tail map call ∧ TailAt header (map.first cur) map.inserted ∧
        Reserved header entries map (map.first cur) entry ∧
        FreshBlock used map block
  | .constructingFirst call entry block =>
      AtBlock tail map call ∧ TailAt header (map.first cur) map.inserted ∧
        Reserved header entries map (map.first cur) entry ∧
        FreshBlock used map block ∧
        (blocks block).elementsCompletelyDequeued = 0
  | .storingValue call entry block =>
      AtBlock tail map call ∧ TailAt header (map.first cur) map.inserted ∧
        Reserved header entries map (map.first cur) entry ∧
        FreshBlock used map block ∧
        (blocks block).elementsCompletelyDequeued = 0 ∧
        (noexceptCtor = false →
          (blocks block).elements 0 = some call.element)
  | .rewinding entry block =>
      tail.toNat = 32 * map.inserted ∧
        TailAt header (map.first cur) map.inserted ∧
        Reserved header entries map (map.first cur) entry ∧
        ∀ fresh, block = some fresh → FreshBlock used map fresh
  | .clearing entry block =>
      tail.toNat = 32 * map.inserted ∧
        header.TailBefore (map.first cur) map.inserted ∧
        header.tail.toNat < header.capacity.toNat ∧
        Reserved header entries map (map.first cur) entry ∧
        ∀ fresh, block = some fresh → FreshBlock used map fresh
  | .givingBack block =>
      Settled header entries (map.first cur) map.inserted ∧
        Filled tail.toNat tailBlock map ∧ FreshBlock used map block
  | .constructing call =>
      Settled header entries (map.first cur) map.inserted ∧
        Opened tail tailBlock map call ∧
        (noexceptCtor = false → tail.toNat % 32 ≠ 0)
  | .publishing call =>
      Settled header entries (map.first cur) map.inserted ∧
        Opened tail tailBlock map call ∧
        (blocks (map.block (tail.toNat / 32))).elements (tail.toNat % 32) =
          some call.element

end EnqueuePc

/-! ## The invariant -/

def QueueState.counterPool (state : QueueState T consumers) :
    Pool consumers Counters DequeuePc :=
  ⟨state.memory.counters, fun consumer => (state.locals consumer).counters⟩

structure QueueInv (noexceptCtor : Bool) (steps : Nat)
    (state : QueueState T consumers) (map : BlockMap consumers) (cur : Nat)
    (tickets : Tickets) : Prop where
  ledger : Ledger steps state.counterPool tickets
  ring : Ring state.memory map.first cur map.inserted
  slots : Slots (state.memory.headers cur) state.memory.entries map
    (map.first cur)
  stock : Stock state.memory.counters.headIndex.toNat state.memory.used
    (fun block => (state.memory.blocks block).elementsCompletelyDequeued)
    state.locals map
  contents : Contents state.memory.counters.tailIndex.toNat
    state.memory.counters.headIndex.toNat state.memory.blocks
    state.memory.accepted state.locals map
  consumers : ∀ consumer, (state.locals consumer).Knows state.memory.headers
    state.memory.entries state.memory.accepted map cur consumer
  producer : state.producer.Knows noexceptCtor (state.memory.headers cur)
    state.memory.entries state.memory.used state.memory.blocks
    state.memory.counters.tailIndex state.memory.tailBlock map cur
  delivered : Delivered state.memory.counters.headIndex state.memory.accepted
    state.memory.taken state.locals

variable {noexceptCtor : Bool} {steps : Nat} {state : QueueState T consumers}
  {map : BlockMap consumers} {cur : Nat} {tickets : Tickets}

namespace Stock

variable {head : Nat} {used : Nat → Bool} {dequeued : Nat → UInt64}
  {locals : Fin consumers → ConsumerPc T}

theorem live_of_pending (h : Stock head used dequeued locals map)
    {consumer : Fin consumers} {index : UInt64}
    (hpending : (locals consumer).pending = some index)
    (hinserted : index.toNat / 32 < map.inserted) :
    map.phase (index.toNat / 32) = .live := by
  by_contra hlive
  have hcoming : map.phase (index.toNat / 32) ≠ .coming := by
    intro hcoming
    have hle := (h.coming _).mp hcoming
    omega
  have hone : (locals consumer).pendingIn (index.toNat / 32) = 1 := by
    simp [ConsumerPc.pendingIn, hpending]
  have hle := le_sum (ConsumerPc.pendingIn (index.toNat / 32)) locals consumer
  have hnone := (h.done _ hcoming hlive).2
  omega

theorem live_of_head_le (h : Stock head used dequeued locals map) {index : Nat}
    (hle : head ≤ index) (hinserted : index / 32 < map.inserted) :
    map.phase (index / 32) = .live := by
  by_contra hlive
  have hcoming : map.phase (index / 32) ≠ .coming := by
    intro hcoming
    have hle := (h.coming _).mp hcoming
    omega
  have hdone := (h.done _ hcoming hlive).1
  omega

end Stock

namespace QueueInv

/-- The numbers are far from the end of their range. -/
theorem bounds (h : QueueInv noexceptCtor steps state map cur tickets) :
    state.memory.counters.headIndex.toNat ≤
        state.memory.counters.tailIndex.toNat ∧
      state.memory.counters.tailIndex.toNat ≤ steps := by
  have hhead := h.ledger.head_add_grants_le
  exact ⟨Nat.le_trans (Nat.le_add_right _ _) hhead, h.ledger.tail_le⟩

theorem claimed_lt (h : QueueInv noexceptCtor steps state map cur tickets)
    {consumer : Fin consumers} {index : UInt64}
    (hclaimed : (state.locals consumer).counters = .claimed index) :
    index.toNat < state.memory.counters.headIndex.toNat := by
  have hremembers := h.ledger.remembers consumer
  simp only [QueueState.counterPool, hclaimed] at hremembers
  exact hremembers

theorem claimed_inj (h : QueueInv noexceptCtor steps state map cur tickets)
    {first second : Fin consumers} {index : UInt64}
    (hfirst : (state.locals first).counters = .claimed index)
    (hsecond : (state.locals second).counters = .claimed index) :
    first = second := by
  by_contra hne
  have hapart := h.ledger.apart first second hne
  simp only [QueueState.counterPool, hfirst, hsecond] at hapart
  exact hapart rfl

/-- Every block below the tail index has been put into the index, and at most
one more. -/
theorem inserted_bounds
    (h : QueueInv noexceptCtor steps state map cur tickets) :
    state.memory.counters.tailIndex.toNat ≤ 32 * map.inserted ∧
      32 * map.inserted ≤ state.memory.counters.tailIndex.toNat + 32 := by
  have hproducer := h.producer
  cases hpc : state.producer with
  | idle =>
      rw [hpc] at hproducer
      have hinserted := hproducer.2.inserted
      omega
  | givingBack =>
      rw [hpc] at hproducer
      have hinserted := hproducer.2.1.inserted
      omega
  | loadingHead | inserting =>
      rw [hpc] at hproducer
      have hinserted := hproducer.2.inserted
      omega
  | growing | insertingNew | storingKey =>
      rw [hpc] at hproducer
      have hinserted := hproducer.2.1.inserted
      omega
  | storingTail | requisitioning | resetting | constructingFirst
  | storingValue =>
      rw [hpc] at hproducer
      have hinserted := hproducer.1.inserted
      omega
  | rewinding | clearing =>
      rw [hpc] at hproducer
      have hinserted := hproducer.1
      omega
  | constructing | publishing =>
      rw [hpc] at hproducer
      have hinserted := hproducer.2.1.inserted
      omega

/-- The block number of a claimed index. -/
theorem claimed_inserted
    (h : QueueInv noexceptCtor steps state map cur tickets)
    {consumer : Fin consumers} {index : UInt64}
    (hclaimed : (state.locals consumer).counters = .claimed index) :
    index.toNat / 32 < map.inserted := by
  have hless := h.claimed_lt hclaimed
  have hbounds := h.bounds
  have hinserted := h.inserted_bounds
  omega

/-- A consumer that reads the tail of the current header finds a key there. -/
theorem tail_valid (h : QueueInv noexceptCtor steps state map cur tickets)
    (hpos : 0 < map.inserted) :
    ∃ entry, (state.memory.headers cur).lookup (state.memory.headers cur).tail =
      some entry ∧ ¬ Invalid state.memory.entries entry := by
  have hproducer := h.producer
  have hat : ∀ entry,
      TailAt (state.memory.headers cur) (map.first cur) map.inserted →
      Reserved (state.memory.headers cur) state.memory.entries map
        (map.first cur) entry →
      ∃ entry, (state.memory.headers cur).lookup
        (state.memory.headers cur).tail = some entry ∧
          ¬ Invalid state.memory.entries entry := by
    intro entry htail hreserved
    refine ⟨entry, ?_, hreserved.key.not_invalid⟩
    rw [BlockIndexHeader.lookup, htail]
    exact hreserved.found
  cases hpc : state.producer with
  | idle | loadingHead | inserting | growing | insertingNew | storingKey
  | givingBack | constructing | publishing =>
      rw [hpc] at hproducer
      exact h.ring.tail_last hpos hproducer.1.before hproducer.1.tail_lt
  | storingTail =>
      rw [hpc] at hproducer
      exact h.ring.tail_last hpos hproducer.2.2.1 hproducer.2.2.2.1
  | clearing =>
      rw [hpc] at hproducer
      exact h.ring.tail_last hpos hproducer.2.1 hproducer.2.2.1
  | requisitioning call entry =>
      rw [hpc] at hproducer
      exact hat entry hproducer.2.1 hproducer.2.2
  | resetting call entry | constructingFirst call entry
  | storingValue call entry | rewinding entry =>
      rw [hpc] at hproducer
      exact hat entry hproducer.2.1 hproducer.2.2.1

end QueueInv

end CandCpp.Queue
