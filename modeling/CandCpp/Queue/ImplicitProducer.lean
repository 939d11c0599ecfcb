import CandCpp.Queue.DequeueCounters

/-!
# ImplicitProducer of concurrentqueue.h

One thread enqueues and any number of threads dequeue.  Elements live in blocks
of `BLOCK_SIZE`; the block index, a ring that doubles when it is full, finds the
block of an index.  Blocks come from a pool that never hands out a block in use,
and every allocation may fail.  A step is an access of a shared object or a call
of the pool, taken in any order and with sequentially consistent accesses; it is
undefined where the code fails an assertion, follows a null pointer, leaves an
array or touches a block or an element that it does not have.
-/

namespace CandCpp.Queue

open CandCpp.Foundation

def BLOCK_SIZE : UInt64 := 32

def IMPLICIT_INITIAL_INDEX_SIZE : UInt64 := 32

def INVALID_BLOCK_BASE : UInt64 := 1

/-- `index & ~(BLOCK_SIZE - 1)` -/
def blockBase (index : UInt64) : UInt64 := index &&& ~~~(BLOCK_SIZE - 1)

/-- The offset of `Block::operator[]`. -/
def blockOffset (index : UInt64) : Nat := (index &&& (BLOCK_SIZE - 1)).toNat

/-! ## The memory -/

/-- An element is there from its construction to its destruction. -/
structure Block (T : Type) where
  elements : Nat → Option T
  elementsCompletelyDequeued : UInt64

structure BlockIndexEntry where
  key : UInt64
  value : Option Nat

structure BlockIndexHeader where
  capacity : UInt64
  tail : UInt64
  index : List Nat

/-- An element that `dequeue` took out of its block.  It is `lost` where its
assignment to the argument of `dequeue` has thrown. -/
structure Taken (T : Type) where
  index : UInt64
  element : T
  lost : Bool
  deriving DecidableEq

/-- Blocks, entries and headers are known by their numbers.  No step reads
`accepted`, the elements whose `enqueue` returned true, or `taken`, in the order
in which the calls of `dequeue` ended. -/
structure Memory (T : Type) where
  counters : Counters
  blocks : Nat → Block T
  used : Nat → Bool
  entries : Nat → BlockIndexEntry
  entryCount : Nat
  headers : Nat → BlockIndexHeader
  headerCount : Nat
  blockIndex : Option Nat
  nextBlockIndexCapacity : UInt64
  tailBlock : Option Nat
  accepted : List T
  taken : List (Taken T)

namespace Memory

variable {T : Type}

def setKey (memory : Memory T) (entry : Nat) (key : UInt64) : Memory T :=
  { memory with
    entries := Function.update memory.entries entry
      { memory.entries entry with key := key } }

def setValue (memory : Memory T) (entry : Nat) (value : Option Nat) :
    Memory T :=
  { memory with
    entries := Function.update memory.entries entry
      { memory.entries entry with value := value } }

def setTail (memory : Memory T) (header : Nat) (tail : UInt64) : Memory T :=
  { memory with
    headers := Function.update memory.headers header
      { memory.headers header with tail := tail } }

def setUsed (memory : Memory T) (block : Nat) (used : Bool) : Memory T :=
  { memory with used := Function.update memory.used block used }

def setElement (memory : Memory T) (block : Nat) (index : UInt64)
    (element : Option T) : Memory T :=
  { memory with
    blocks := Function.update memory.blocks block
      { memory.blocks block with
        elements := Function.update (memory.blocks block).elements
          (blockOffset index) element } }

def setCompletelyDequeued (memory : Memory T) (block : Nat) (count : UInt64) :
    Memory T :=
  { memory with
    blocks := Function.update memory.blocks block
      { memory.blocks block with elementsCompletelyDequeued := count } }

def take (memory : Memory T) (taken : Taken T) : Memory T :=
  { memory with taken := memory.taken ++ [taken] }

/-- What the callers of `dequeue` got. -/
def received (memory : Memory T) : List (Taken T) :=
  memory.taken.filter fun taken => !taken.lost

def lost (memory : Memory T) : List (Taken T) :=
  memory.taken.filter fun taken => taken.lost

variable {memory : Memory T} {entry other header block : Nat}
  {index : UInt64}

@[simp] theorem setKey_self (key : UInt64) :
    ((memory.setKey entry key).entries entry).key = key := by
  simp [setKey]

theorem setKey_of_ne (h : other ≠ entry) (key : UInt64) :
    (memory.setKey entry key).entries other = memory.entries other :=
  Function.update_of_ne h ..

@[simp] theorem setKey_value (key : UInt64) :
    ((memory.setKey entry key).entries other).value =
      (memory.entries other).value := by
  by_cases h : other = entry
  · simp [setKey, h]
  · rw [setKey_of_ne h]

@[simp] theorem setValue_self (value : Option Nat) :
    ((memory.setValue entry value).entries entry).value = value := by
  simp [setValue]

theorem setValue_of_ne (h : other ≠ entry) (value : Option Nat) :
    (memory.setValue entry value).entries other = memory.entries other :=
  Function.update_of_ne h ..

@[simp] theorem setValue_key (value : Option Nat) :
    ((memory.setValue entry value).entries other).key =
      (memory.entries other).key := by
  by_cases h : other = entry
  · simp [setValue, h]
  · rw [setValue_of_ne h]

@[simp] theorem setTail_self (tail : UInt64) :
    (memory.setTail header tail).headers header =
      { memory.headers header with tail := tail } :=
  Function.update_self ..

theorem setTail_of_ne (h : other ≠ header) (tail : UInt64) :
    (memory.setTail header tail).headers other = memory.headers other :=
  Function.update_of_ne h ..

@[simp] theorem setTail_capacity (tail : UInt64) :
    ((memory.setTail header tail).headers other).capacity =
      (memory.headers other).capacity := by
  by_cases h : other = header
  · simp [setTail, h]
  · rw [setTail_of_ne h]

@[simp] theorem setTail_index (tail : UInt64) :
    ((memory.setTail header tail).headers other).index =
      (memory.headers other).index := by
  by_cases h : other = header
  · simp [setTail, h]
  · rw [setTail_of_ne h]

@[simp] theorem setElement_self (element : Option T) :
    ((memory.setElement block index element).blocks block).elements
      (blockOffset index) = element := by
  simp [setElement]

theorem setElement_of_ne {offset : Nat}
    (h : other ≠ block ∨ offset ≠ blockOffset index) (element : Option T) :
    ((memory.setElement block index element).blocks other).elements offset =
      (memory.blocks other).elements offset := by
  by_cases hblock : other = block
  · simp [setElement, hblock, h.resolve_left (not_not.mpr hblock)]
  · simp [setElement, hblock]

@[simp] theorem setElement_dequeued (element : Option T) :
    ((memory.setElement block index element).blocks
        other).elementsCompletelyDequeued =
      (memory.blocks other).elementsCompletelyDequeued := by
  by_cases h : other = block <;> simp [setElement, h]

@[simp] theorem setCompletelyDequeued_self (count : UInt64) :
    ((memory.setCompletelyDequeued block count).blocks
      block).elementsCompletelyDequeued = count := by
  simp [setCompletelyDequeued]

theorem setCompletelyDequeued_of_ne (h : other ≠ block) (count : UInt64) :
    (memory.setCompletelyDequeued block count).blocks other =
      memory.blocks other :=
  Function.update_of_ne h ..

@[simp] theorem setCompletelyDequeued_elements (count : UInt64) :
    ((memory.setCompletelyDequeued block count).blocks other).elements =
      (memory.blocks other).elements := by
  by_cases h : other = block <;> simp [setCompletelyDequeued, h]

@[simp] theorem setUsed_self (used : Bool) :
    (memory.setUsed block used).used block = used := by
  simp [setUsed]

theorem setUsed_of_ne (h : other ≠ block) (used : Bool) :
    (memory.setUsed block used).used other = memory.used other :=
  Function.update_of_ne h ..

end Memory

/-! ## The block index -/

namespace BlockIndexHeader

/-- `localBlockIndex->index[position]`, inside the array. -/
def lookup (header : BlockIndexHeader) (position : UInt64) : Option Nat :=
  header.index[position.toNat]?

def newTail (header : BlockIndexHeader) : UInt64 :=
  (header.tail + 1) &&& (header.capacity - 1)

def rewound (header : BlockIndexHeader) : UInt64 :=
  (header.tail - 1) &&& (header.capacity - 1)

/-- Where `get_block_index_index_for_index` looks, given what it loaded. -/
def position (header : BlockIndexHeader) (base tail tailBase : UInt64) :
    UInt64 :=
  let offset := ((base - tailBase).toInt64 / BLOCK_SIZE.toInt64).toUInt64
  (tail + offset) &&& (header.capacity - 1)

/-- The loop of `new_block_index` from `prevPos` on, into an array that has that
much room left. -/
def copyFrom (prev : BlockIndexHeader) : Nat → UInt64 → Option (List Nat)
  | 0, _ => none
  | room + 1, prevPos =>
      let next := (prevPos + 1) &&& (prev.capacity - 1)
      (prev.lookup next).bind fun entry =>
        if next = prev.tail then some [entry]
        else (prev.copyFrom room next).map (entry :: ·)

end BlockIndexHeader

variable {T : Type}

namespace Memory

def prevCapacity (memory : Memory T) : UInt64 :=
  match memory.blockIndex with
  | none => 0
  | some prev => (memory.headers prev).capacity

def newEntryCount (memory : Memory T) : UInt64 :=
  match memory.blockIndex with
  | none => memory.nextBlockIndexCapacity
  | some prev => (memory.headers prev).capacity

/-- A new header whose array starts with what is copied from the old one. -/
def addBlockIndex (memory : Memory T) (copied : List Nat) : Memory T :=
  let capacity := memory.nextBlockIndexCapacity
  let fresh := List.range' memory.entryCount memory.newEntryCount.toNat
  { memory with
    entries := fun entry =>
      if entry ∈ fresh
      then { memory.entries entry with key := INVALID_BLOCK_BASE }
      else memory.entries entry
    entryCount := memory.entryCount + memory.newEntryCount.toNat
    headers := Function.update memory.headers memory.headerCount
      ⟨capacity, (memory.prevCapacity - 1) &&& (capacity - 1), copied ++ fresh⟩
    headerCount := memory.headerCount + 1
    blockIndex := some memory.headerCount
    nextBlockIndexCapacity := capacity <<< 1 }

end Memory

/-- The entries that `new_block_index` copies. -/
def copiedIndex (memory : Memory T) : Option (List Nat) :=
  match memory.blockIndex with
  | none => some []
  | some prev => (memory.headers prev).copyFrom
      memory.nextBlockIndexCapacity.toNat (memory.headers prev).tail

/-- `new_block_index`, if its allocation succeeds.  It asserts that it has
copied the whole old index. -/
def newBlockIndex (memory : Memory T) : Option (Memory T) :=
  (copiedIndex memory).bind fun copied =>
    if copied.length = memory.prevCapacity.toNat ∧
      copied.length + memory.newEntryCount.toNat ≤
        memory.nextBlockIndexCapacity.toNat
    then some (memory.addBlockIndex copied)
    else none

/-! ## enqueue -/

structure EnqueueCall (T : Type) where
  element : T
  currentTailIndex : UInt64

/-- What the environment decides: the next element, whether there is memory for
a block index, which block is requisitioned and whether the constructor of the
element throws. -/
structure EnqueueChoice (T : Type) where
  element : T
  indexMemory : Bool
  block : Option Nat
  throws : Bool

inductive EnqueuePc (T : Type) where
  | idle
  | loadingHead (call : EnqueueCall T)
  | inserting (call : EnqueueCall T)
  | growing (call : EnqueueCall T)
  | insertingNew (call : EnqueueCall T)
  | storingKey (call : EnqueueCall T) (header entry : Nat) (newTail : UInt64)
  | storingTail (call : EnqueueCall T) (header entry : Nat) (newTail : UInt64)
  | requisitioning (call : EnqueueCall T) (entry : Nat)
  | resetting (call : EnqueueCall T) (entry block : Nat)
  | constructingFirst (call : EnqueueCall T) (entry block : Nat)
  | rewinding (entry : Nat) (block : Option Nat)
  | clearing (entry : Nat) (block : Option Nat)
  | givingBack (block : Nat)
  | storingValue (call : EnqueueCall T) (entry block : Nat)
  | constructing (call : EnqueueCall T)
  | publishing (call : EnqueueCall T)

/-- `noexceptCtor` is `MOODYCAMEL_NOEXCEPT_CTOR`: without it the first element of
a block is constructed before the block is put into the index. -/
def enqueueStep (noexceptCtor : Bool) (memory : Memory T)
    (choice : EnqueueChoice T) :
    EnqueuePc T → Option (Memory T × EnqueuePc T)
  | .idle =>
      let call := ⟨choice.element, memory.counters.tailIndex⟩
      if call.currentTailIndex &&& (BLOCK_SIZE - 1) = 0
      then some (memory, .loadingHead call)
      else some (memory, .constructing call)
  | .loadingHead call =>
      let head := memory.counters.headIndex
      if circularLessThan call.currentTailIndex head then none
      else if circularLessThan head (call.currentTailIndex + BLOCK_SIZE)
      then some (memory, .inserting call)
      else some (memory, .idle)
  | .inserting call =>
      match memory.blockIndex with
      | none => some (memory, .idle)
      | some header =>
          let newTail := (memory.headers header).newTail
          ((memory.headers header).lookup newTail).map fun entry =>
            if (memory.entries entry).key = INVALID_BLOCK_BASE ∨
              (memory.entries entry).value = none
            then (memory, .storingKey call header entry newTail)
            else (memory, .growing call)
  | .growing call =>
      if choice.indexMemory
      then (newBlockIndex memory).map fun grown => (grown, .insertingNew call)
      else some (memory, .idle)
  | .insertingNew call =>
      memory.blockIndex.bind fun header =>
        let newTail := (memory.headers header).newTail
        ((memory.headers header).lookup newTail).bind fun entry =>
          if (memory.entries entry).key = INVALID_BLOCK_BASE
          then some (memory, .storingKey call header entry newTail)
          else none
  | .storingKey call header entry newTail =>
      some (memory.setKey entry call.currentTailIndex,
        .storingTail call header entry newTail)
  | .storingTail call header entry newTail =>
      some (memory.setTail header newTail, .requisitioning call entry)
  | .requisitioning call entry =>
      match choice.block with
      | none => some (memory, .rewinding entry none)
      | some block =>
          if memory.used block then none
          else some (memory.setUsed block true, .resetting call entry block)
  | .resetting call entry block =>
      some (memory.setCompletelyDequeued block 0,
        if noexceptCtor then .storingValue call entry block
        else .constructingFirst call entry block)
  | .constructingFirst call entry block =>
      if choice.throws then some (memory, .rewinding entry (some block))
      else some
        (memory.setElement block call.currentTailIndex (some call.element),
          .storingValue call entry block)
  | .rewinding entry block =>
      memory.blockIndex.map fun header =>
        (memory.setTail header (memory.headers header).rewound,
          .clearing entry block)
  | .clearing entry block =>
      some (memory.setValue entry none,
        match block with
        | none => .idle
        | some block => .givingBack block)
  | .givingBack block =>
      if memory.used block then some (memory.setUsed block false, .idle)
      else none
  | .storingValue call entry block =>
      some ({ memory.setValue entry (some block) with tailBlock := some block },
        if noexceptCtor then .constructing call else .publishing call)
  | .constructing call =>
      if choice.throws && !noexceptCtor then some (memory, .idle)
      else memory.tailBlock.bind fun block =>
        if memory.used block
        then some
          (memory.setElement block call.currentTailIndex (some call.element),
            .publishing call)
        else none
  | .publishing call =>
      some
        ({ memory with
            counters :=
              { memory.counters with tailIndex := 1 + call.currentTailIndex }
            accepted := memory.accepted ++ [call.element] },
          .idle)

/-! ## dequeue -/

/-- `counting` is `dequeue` up to the index that it claims. -/
inductive ConsumerPc (T : Type) where
  | counting (pc : DequeuePc)
  | loadingTail (index : UInt64) (header : Nat)
  | loadingBase (index : UInt64) (header : Nat) (tail : UInt64)
  | loadingValue (index : UInt64) (entry : Nat)
  | moving (index : UInt64) (entry block : Nat)
  | settingEmpty (index : UInt64) (entry block : Nat) (element : T)
      (lost : Bool)
  | storingNull (index : UInt64) (entry block : Nat) (element : T)
      (lost : Bool)
  | givingBack (index : UInt64) (block : Nat) (element : T) (lost : Bool)
  deriving DecidableEq

/-- `noexceptAssign` is `MOODYCAMEL_NOEXCEPT_ASSIGN`: without it the move
assignment of the element may throw, and a guard destroys the element and does
what is left to do for its block before the exception leaves `dequeue`. -/
def consumerStep (noexceptAssign : Bool) (memory : Memory T) (throws : Bool) :
    ConsumerPc T → Option (Memory T × ConsumerPc T)
  | .counting (.claimed index) =>
      memory.blockIndex.map fun header => (memory, .loadingTail index header)
  | .counting pc =>
      let next := dequeueStep memory.counters pc
      some ({ memory with counters := next.1 }, .counting next.2)
  | .loadingTail index header =>
      some (memory, .loadingBase index header (memory.headers header).tail)
  | .loadingBase index header tail =>
      ((memory.headers header).lookup tail).bind fun tailEntry =>
        let tailBase := (memory.entries tailEntry).key
        if tailBase = INVALID_BLOCK_BASE then none
        else
          let position := (memory.headers header).position (blockBase index)
            tail tailBase
          ((memory.headers header).lookup position).map fun entry =>
            (memory, .loadingValue index entry)
  | .loadingValue index entry =>
      if (memory.entries entry).key = blockBase index
      then (memory.entries entry).value.map fun block =>
        (memory, .moving index entry block)
      else none
  | .moving index entry block =>
      if memory.used block
      then ((memory.blocks block).elements (blockOffset index)).map fun element =>
        (memory.setElement block index none,
          .settingEmpty index entry block element (throws && !noexceptAssign))
      else none
  | .settingEmpty index entry block element lost =>
      let prevVal := (memory.blocks block).elementsCompletelyDequeued
      if memory.used block && prevVal < BLOCK_SIZE then
        let next := memory.setCompletelyDequeued block (prevVal + 1)
        if prevVal = BLOCK_SIZE - 1
        then some (next, .storingNull index entry block element lost)
        else some (next.take ⟨index, element, lost⟩, .counting .idle)
      else none
  | .storingNull index entry block element lost =>
      some (memory.setValue entry none, .givingBack index block element lost)
  | .givingBack index block element lost =>
      if memory.used block
      then some ((memory.setUsed block false).take ⟨index, element, lost⟩,
        .counting .idle)
      else none

/-- The element of an index, found as `dequeue` finds it. -/
def elementAt (memory : Memory T) (index : UInt64) : Option T :=
  memory.blockIndex.bind fun number =>
    let header := memory.headers number
    (header.lookup header.tail).bind fun tailEntry =>
      let position := header.position (blockBase index) header.tail
        (memory.entries tailEntry).key
      (header.lookup position).bind fun entry =>
        (memory.entries entry).value.bind fun block =>
          (memory.blocks block).elements (blockOffset index)

/-- What the blocks hold of the indices that nobody has claimed. -/
def elementsLeft (memory : Memory T) : List (Option T) :=
  let head := memory.counters.headIndex.toNat
  (List.range' head (memory.counters.tailIndex.toNat - head)).map fun index =>
    elementAt memory (.ofNat index)

/-! ## The queue of one producer -/

structure QueueState (T : Type) (consumers : Nat) where
  memory : Memory T
  producer : EnqueuePc T
  locals : Fin consumers → ConsumerPc T

inductive QueueAction (T : Type) (consumers : Nat) where
  | enqueue (choice : EnqueueChoice T)
  | dequeue (index : Fin consumers) (throws : Bool)

/-- What the constructor of `ImplicitProducer` finds: other memory is as it may
be. -/
structure Unused (memory : Memory T) : Prop where
  counters : memory.counters = .initial
  entryCount : memory.entryCount = 0
  headerCount : memory.headerCount = 0
  blockIndex : memory.blockIndex = none
  nextBlockIndexCapacity :
    memory.nextBlockIndexCapacity = IMPLICIT_INITIAL_INDEX_SIZE
  tailBlock : memory.tailBlock = none
  accepted : memory.accepted = []
  taken : memory.taken = []

variable {consumers : Nat}

def queueStep (noexceptCtor noexceptAssign : Bool)
    (state : QueueState T consumers) :
    QueueAction T consumers → Option (QueueState T consumers)
  | .enqueue choice =>
      (enqueueStep noexceptCtor state.memory choice state.producer).map
        fun next => { state with memory := next.1, producer := next.2 }
  | .dequeue index throws =>
      (consumerStep noexceptAssign state.memory throws
        (state.locals index)).map fun next =>
          { state with
            memory := next.1
            locals := Function.update state.locals index next.2 }

/-- The constructor's `new_block_index` may fail. -/
def queueSystem (noexceptCtor noexceptAssign : Bool) (T : Type)
    (consumers : Nat) :
    TransitionSystem (QueueState T consumers) (QueueAction T consumers) where
  Initial state := ∃ memory, Unused memory ∧
    (state.memory = memory ∨ newBlockIndex memory = some state.memory) ∧
    state.producer = .idle ∧ state.locals = fun _ => .counting .idle
  step := queueStep noexceptCtor noexceptAssign

end CandCpp.Queue
