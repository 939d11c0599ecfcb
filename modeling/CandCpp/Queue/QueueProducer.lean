import CandCpp.Queue.QueueConsumer

/-!
# The steps of enqueue keep the invariant
-/

namespace CandCpp.Queue

open CandCpp.Foundation

variable {T : Type} {consumers : Nat} {noexceptCtor : Bool} {steps : Nat}
  {state : QueueState T consumers} {map : BlockMap consumers} {cur : Nat}
  {tickets : Tickets} {choice : EnqueueChoice T} {next : EnqueuePc T}
  {locals : Fin consumers → ConsumerPc T}

/-! ## Reading -/

theorem AtBlock.filled {tail : UInt64} {tailBlock : Option Nat}
    {call : EnqueueCall T} (h : AtBlock tail map call) :
    Filled tail.toNat tailBlock map := by
  have hinserted := h.inserted
  exact ⟨by omega, fun hne => absurd hinserted (by omega)⟩

/-- The free entries are those that no block of the index uses. -/
theorem Slots.free {header : BlockIndexHeader}
    {entries : Nat → BlockIndexEntry} {first entry : Nat}
    (h : Slots header entries map first)
    (hentry : Invalid entries entry ∨ (entries entry).value = none) :
    FreeEntry map entry := by
  rintro number hnumber rfl
  obtain ⟨-, -, hkey, hvalue⟩ := h number hnumber
  rcases hentry with hinvalid | hnone
  · rw [hinvalid] at hkey
    have hone : INVALID_BLOCK_BASE.toNat = 1 := rfl
    omega
  · exact nomatch hnone.symm.trans hvalue

namespace QueueInv

theorem produces (h : QueueInv noexceptCtor steps state map cur tickets)
    (hknows : next.Knows noexceptCtor (state.memory.headers cur)
      state.memory.entries state.memory.used state.memory.blocks
      state.memory.counters.tailIndex state.memory.tailBlock map cur) :
    QueueInv noexceptCtor (steps + 1) { state with producer := next } map cur
      tickets :=
  { h with
    ledger := h.ledger.mono
    producer := hknows }

theorem knows (h : QueueInv noexceptCtor steps state map cur tickets)
    {pc : EnqueuePc T} (hpc : state.producer = pc) :
    pc.Knows noexceptCtor (state.memory.headers cur) state.memory.entries
      state.memory.used state.memory.blocks state.memory.counters.tailIndex
      state.memory.tailBlock map cur :=
  hpc ▸ h.producer

theorem enqueue_idle (h : QueueInv noexceptCtor steps state map cur tickets)
    (choice : EnqueueChoice T) (hpc : state.producer = .idle) :
    ∃ next, enqueueStep noexceptCtor state.memory choice .idle =
        some (state.memory, next) ∧
      QueueInv noexceptCtor (steps + 1) { state with producer := next } map cur
        tickets := by
  obtain ⟨hsettled, hfilled⟩ := h.knows hpc
  have hinserted := hfilled.inserted
  have hoffset : state.memory.counters.tailIndex &&& (BLOCK_SIZE - 1) = 0 ↔
      state.memory.counters.tailIndex.toNat % 32 = 0 := by
    rw [← blockOffset_eq]
    exact UInt64.toNat_inj.symm
  by_cases hstart : state.memory.counters.tailIndex &&& (BLOCK_SIZE - 1) = 0
  · have hzero := hoffset.mp hstart
    exact ⟨_, if_pos hstart, h.produces ⟨hsettled, rfl, by omega⟩⟩
  · have hnonzero : state.memory.counters.tailIndex.toNat % 32 ≠ 0 :=
      fun heq => hstart (hoffset.mpr heq)
    refine ⟨_, if_neg hstart, h.produces ⟨hsettled, ⟨rfl, ?_, ?_⟩, ?_⟩⟩
    · omega
    · exact hfilled.tailBlock hnonzero
    · exact fun _ => hnonzero

theorem enqueue_loadingHead
    (h : QueueInv noexceptCtor steps state map cur tickets)
    (hsteps : steps < 2 ^ 62) (choice : EnqueueChoice T) {call : EnqueueCall T}
    (hpc : state.producer = .loadingHead call) :
    ∃ next, enqueueStep noexceptCtor state.memory choice (.loadingHead call) =
        some (state.memory, next) ∧
      QueueInv noexceptCtor (steps + 1) { state with producer := next } map cur
        tickets := by
  obtain ⟨hsettled, hat⟩ := h.knows hpc
  obtain ⟨hle, htail⟩ := h.bounds
  have hless : ¬ circularLessThan call.currentTailIndex
      state.memory.counters.headIndex := by
    rw [hat.current, circularLessThan_iff (by omega) (by omega)]
    omega
  by_cases hroom : circularLessThan state.memory.counters.headIndex
      (call.currentTailIndex + BLOCK_SIZE)
  · refine ⟨.inserting call, ?_, h.produces ⟨hsettled, hat⟩⟩
    simp only [enqueueStep, if_neg hless, if_pos hroom]
  · refine ⟨.idle, ?_, h.produces ⟨hsettled, hat.filled⟩⟩
    simp only [enqueueStep, if_neg hless, if_neg hroom]

/-- The entry of the next block is free, or the ring is full. -/
theorem enqueue_inserting
    (h : QueueInv noexceptCtor steps state map cur tickets)
    (hsteps : steps < 2 ^ 62) (choice : EnqueueChoice T) {call : EnqueueCall T}
    (hpc : state.producer = .inserting call) :
    ∃ next, enqueueStep noexceptCtor state.memory choice (.inserting call) =
        some (state.memory, next) ∧
      QueueInv noexceptCtor (steps + 1) { state with producer := next } map cur
        tickets := by
  obtain ⟨hsettled, hat⟩ := h.knows hpc
  have hwell := h.ring.wellFormed cur (Nat.le_refl cur)
  have hbounds := h.bounds
  have hinserted := h.inserted_bounds
  obtain ⟨entry, hentry⟩ := BlockIndexHeader.entryAt_isSome hwell (map.first cur)
    map.inserted
  have hfound := (BlockIndexHeader.lookup_newTail hwell hsettled.before).trans
    hentry
  by_cases hunused : (state.memory.entries entry).key = INVALID_BLOCK_BASE ∨
      (state.memory.entries entry).value = none
  · refine ⟨.storingKey call cur entry (state.memory.headers cur).newTail, ?_,
      h.produces ⟨hsettled, hat, rfl, hentry,
        BlockIndexHeader.newTail_toNat hwell hsettled.before,
        h.slots.free hunused⟩⟩
    simp only [enqueueStep, h.ring.blockIndex, hfound, Option.map_some,
      if_pos hunused]
  · refine ⟨.growing call, ?_, h.produces ⟨hsettled, hat, ?_⟩⟩
    · simp only [enqueueStep, h.ring.blockIndex, hfound, Option.map_some,
        if_neg hunused]
    · rcases h.ring.spot entry hentry with
        hinvalid | hkey | ⟨oldest, holdest, hround, hkey⟩
      · exact absurd (.inl hinvalid) hunused
      · exact absurd (.inr (hsettled.spot entry hentry hkey)) hunused
      · refine ⟨oldest, holdest, hround, ?_, hsettled.before, hsettled.tail_lt,
          by omega⟩
        intro other hother
        cases hentry.symm.trans hother
        exact hkey

end QueueInv

/-! ## A new block index -/

theorem Stock.refirst {head : Nat} {used : Nat → Bool}
    {dequeued : Nat → UInt64} (h : Stock head used dequeued locals map)
    (first : Nat → Nat) :
    Stock head used dequeued locals { map with first := first } :=
  ⟨h.coming, h.used, h.apart, h.count, h.live, h.done⟩

theorem Contents.refirst {tail head : Nat} {blocks : Nat → Block T}
    {accepted : List T} (h : Contents tail head blocks accepted locals map)
    (first : Nat → Nat) :
    Contents tail head blocks accepted locals { map with first := first } :=
  ⟨h.length, h.there⟩

theorem ConsumerPc.Knows.grow {memory : Memory T} {pc : ConsumerPc T}
    {consumer : Fin consumers} {oldest : Nat}
    (h : pc.Knows memory.headers memory.entries memory.accepted map cur consumer)
    (hring : Ring memory map.first cur map.inserted) :
    pc.Knows (Ring.grown memory map.first cur oldest).headers
      (Ring.grown memory map.first cur oldest).entries memory.accepted
      { map with first := Function.update map.first (cur + 1) oldest } (cur + 1)
      consumer := by
  have hfirst : ∀ header ≤ cur,
      Function.update map.first (cur + 1) oldest header = map.first header :=
    fun header hheader => Function.update_of_ne (by omega) ..
  cases pc with
  | loadingTail index header =>
      obtain ⟨hheader, hat⟩ := h
      refine ⟨Nat.le_succ_of_le hheader, ?_⟩
      rw [hring.newBlockIndex_headers_of_le hheader]
      simp only [hfirst header hheader]
      exact hat
  | loadingBase index header tail =>
      obtain ⟨⟨hheader, hat⟩, entry, hentry, hvalid⟩ := h
      have hless := hring.allocated header hheader entry
        (List.mem_of_getElem? hentry)
      refine ⟨⟨Nat.le_succ_of_le hheader, ?_⟩, entry, ?_, ?_⟩
      · rw [hring.newBlockIndex_headers_of_le hheader]
        simp only [hfirst header hheader]
        exact hat
      · rw [hring.newBlockIndex_headers_of_le hheader]
        exact hentry
      · rw [hring.newBlockIndex_entries hless]
        exact hvalid
  | counting | loadingValue | moving | settingEmpty | storingNull
  | givingBack => exact h

namespace QueueInv

theorem enqueue_growing (h : QueueInv noexceptCtor steps state map cur tickets)
    (choice : EnqueueChoice T) {call : EnqueueCall T}
    (hpc : state.producer = .growing call) :
    ∃ after next, enqueueStep noexceptCtor state.memory choice
        (.growing call) = some (after, next) ∧
      ∃ map cur, QueueInv noexceptCtor (steps + 1)
        { state with memory := after, producer := next } map cur tickets := by
  obtain ⟨hsettled, hat, oldest, hfull⟩ := h.knows hpc
  by_cases hmemory : choice.indexMemory
  · have hself : Function.update map.first (cur + 1) oldest (cur + 1) = oldest :=
      Function.update_self ..
    have hslots : Slots
        ((Ring.grown state.memory map.first cur oldest).headers (cur + 1))
        (Ring.grown state.memory map.first cur oldest).entries
        { map with first := Function.update map.first (cur + 1) oldest }
        oldest := by
      intro number hnumber
      obtain ⟨hfirst, hentry, hkey, hvalue⟩ := h.slots number hnumber
      have hless : number < map.inserted := by
        by_contra hge
        have hcoming := (h.stock.coming number).mpr (Nat.le_of_not_lt hge)
        rw [hcoming] at hnumber
        exact hnumber
      obtain ⟨hle, hkept⟩ := h.ring.grow_entryAt hfull hless hentry hkey
      have hallocated := h.ring.allocated cur (Nat.le_refl cur) _
        (List.mem_of_getElem? hentry)
      refine ⟨hle, hkept, ?_⟩
      rw [h.ring.newBlockIndex_entries hallocated]
      exact ⟨hkey, hvalue⟩
    have hinvalid : ∀ entry,
        ((Ring.grown state.memory map.first cur oldest).headers
          (cur + 1)).entryAt oldest map.inserted = some entry →
        Invalid (Ring.grown state.memory map.first cur oldest).entries
          entry := by
      have hcapacity := h.ring.capacity_pos
      exact fun entry => h.ring.newBlockIndex_entryAt_fresh hfull
        (Nat.le_refl _) (by omega)
    obtain ⟨hbefore, hless⟩ := h.ring.grow_tail hfull
    have hstep : enqueueStep noexceptCtor state.memory choice (.growing call) =
        some (Ring.grown state.memory map.first cur oldest,
          .insertingNew call) := by
      rw [enqueueStep, if_pos hmemory, h.ring.newBlockIndex_eq hfull]
      rfl
    refine ⟨_, _, hstep,
      { map with first := Function.update map.first (cur + 1) oldest }, cur + 1,
      h.ledger.mono, h.ring.grow hfull, ?_, h.stock.refirst _,
      h.contents.refirst _, fun consumer => (h.consumers consumer).grow h.ring,
      ⟨⟨?_, hless, ?_⟩, ⟨hat.current, hat.inserted⟩, ?_⟩, h.delivered⟩
    · simp only [hself]
      exact hslots
    · simp only [hself]
      exact hbefore
    · simp only [hself]
      exact fun entry hentry hkey =>
        absurd (hinvalid entry hentry) hkey.not_invalid
    · simp only [hself]
      exact hinvalid
  · exact ⟨_, _, if_neg hmemory, map, cur, h.produces ⟨hsettled, hat.filled⟩⟩

theorem enqueue_insertingNew
    (h : QueueInv noexceptCtor steps state map cur tickets)
    (choice : EnqueueChoice T) {call : EnqueueCall T}
    (hpc : state.producer = .insertingNew call) :
    ∃ next, enqueueStep noexceptCtor state.memory choice (.insertingNew call) =
        some (state.memory, next) ∧
      QueueInv noexceptCtor (steps + 1) { state with producer := next } map cur
        tickets := by
  obtain ⟨hsettled, hat, hinvalid⟩ := h.knows hpc
  have hwell := h.ring.wellFormed cur (Nat.le_refl cur)
  obtain ⟨entry, hentry⟩ := BlockIndexHeader.entryAt_isSome hwell (map.first cur)
    map.inserted
  have hfound := (BlockIndexHeader.lookup_newTail hwell hsettled.before).trans
    hentry
  have hkey := hinvalid entry hentry
  refine ⟨.storingKey call cur entry (state.memory.headers cur).newTail, ?_,
    h.produces ⟨hsettled, hat, rfl, hentry,
      BlockIndexHeader.newTail_toNat hwell hsettled.before,
      h.slots.free (.inl hkey)⟩⟩
  simp only [enqueueStep, h.ring.blockIndex, Option.bind_some, hfound]
  exact if_pos hkey

/-! ## The entry of the next block -/

theorem enqueue_storingKey
    (h : QueueInv noexceptCtor steps state map cur tickets)
    {call : EnqueueCall T} {header entry : Nat} {newTail : UInt64}
    (hpc : state.producer = .storingKey call header entry newTail) :
    QueueInv noexceptCtor (steps + 1)
      { state with
        memory := state.memory.setKey entry call.currentTailIndex
        producer := .storingTail call header entry newTail } map cur
      tickets := by
  obtain ⟨hsettled, hat, hheader, hentry, hnewTail, hfree⟩ := h.knows hpc
  have hkey : call.currentTailIndex.toNat = 32 * map.inserted := by
    rw [hat.current]
    exact hat.inserted
  have hself : HasKey (state.memory.setKey entry call.currentTailIndex).entries
      entry map.inserted := by
    rw [HasKey, Memory.setKey_self]
    exact hkey
  refine ⟨h.ledger.mono, h.ring.setKey hentry hkey, ?_, h.stock, h.contents, ?_,
    ⟨hat, hheader, hsettled.before, hsettled.tail_lt, hnewTail, hentry, hself,
      hfree⟩, h.delivered⟩
  · intro number hnumber
    obtain ⟨hfirst, hslot, hrest⟩ := h.slots number hnumber
    refine ⟨hfirst, hslot, ?_⟩
    rw [Memory.setKey_of_ne (hfree number hnumber)]
    exact hrest
  · intro consumer
    have hknows := h.consumers consumer
    dsimp only at hknows ⊢
    cases hlocal : state.locals consumer with
    | loadingBase index other tail =>
        rw [hlocal] at hknows
        obtain ⟨hother, tailEntry, htail, hvalid⟩ := hknows
        refine ⟨hother, tailEntry, htail, ?_⟩
        by_cases hsame : tailEntry = entry
        · rw [hsame]
          exact hself.not_invalid
        · rw [Memory.setKey_of_ne hsame]
          exact hvalid
    | counting | loadingTail | loadingValue | moving | settingEmpty
    | storingNull | givingBack =>
        rw [hlocal] at hknows
        exact hknows

end QueueInv

theorem setTail_entryAt (memory : Memory T) (header other first number : Nat)
    (tail : UInt64) :
    ((memory.setTail header tail).headers other).entryAt first number =
      (memory.headers other).entryAt first number := by
  rw [BlockIndexHeader.entryAt, BlockIndexHeader.entryAt, Memory.setTail_capacity,
    Memory.setTail_index]

theorem setTail_lookup (memory : Memory T) (header other : Nat)
    (tail position : UInt64) :
    ((memory.setTail header tail).headers other).lookup position =
      (memory.headers other).lookup position := by
  rw [BlockIndexHeader.lookup, BlockIndexHeader.lookup, Memory.setTail_index]

theorem ConsumerPc.Knows.setTail {memory : Memory T} {pc : ConsumerPc T}
    {consumer : Fin consumers}
    (h : pc.Knows memory.headers memory.entries memory.accepted map cur consumer)
    (header : Nat) (tail : UInt64) :
    pc.Knows (memory.setTail header tail).headers memory.entries memory.accepted
      map cur consumer := by
  cases pc with
  | loadingTail =>
      refine ⟨h.1, h.2.1, ?_⟩
      rw [setTail_entryAt]
      exact h.2.2
  | loadingBase =>
      obtain ⟨⟨hheader, hfirst, hentry⟩, tailEntry, htail, hvalid⟩ := h
      refine ⟨⟨hheader, hfirst, ?_⟩, tailEntry, ?_, hvalid⟩
      · rw [setTail_entryAt]
        exact hentry
      · rw [setTail_lookup]
        exact htail
  | counting | loadingValue | moving | settingEmpty | storingNull
  | givingBack => exact h

namespace QueueInv

theorem retails (h : QueueInv noexceptCtor steps state map cur tickets)
    {tail : UInt64}
    (hknows : next.Knows noexceptCtor
      { state.memory.headers cur with tail := tail } state.memory.entries
      state.memory.used state.memory.blocks state.memory.counters.tailIndex
      state.memory.tailBlock map cur) :
    QueueInv noexceptCtor (steps + 1)
      { state with memory := state.memory.setTail cur tail, producer := next }
      map cur tickets := by
  refine ⟨h.ledger.mono, ?_, ?_, h.stock, h.contents,
    fun consumer => (h.consumers consumer).setTail cur tail, ?_, h.delivered⟩
  · refine h.ring.congr rfl rfl rfl rfl (fun _ => Memory.setTail_capacity tail)
      (fun _ => Memory.setTail_index tail) ?_ (fun _ => rfl)
    intro header hheader
    rw [Memory.setTail_of_ne (Nat.ne_of_lt hheader)]
  · intro number hnumber
    rw [setTail_entryAt]
    exact h.slots number hnumber
  · rw [Memory.setTail_self]
    exact hknows

theorem enqueue_storingTail
    (h : QueueInv noexceptCtor steps state map cur tickets)
    {call : EnqueueCall T} {header entry : Nat} {newTail : UInt64}
    (hpc : state.producer = .storingTail call header entry newTail) :
    QueueInv noexceptCtor (steps + 1)
      { state with
        memory := state.memory.setTail header newTail
        producer := .requisitioning call entry } map cur tickets := by
  obtain ⟨hat, rfl, -, -, hnewTail, hreserved⟩ := h.knows hpc
  exact h.retails ⟨hat, hnewTail, hreserved.found, hreserved.key,
    hreserved.free⟩

theorem enqueue_rewinding
    (h : QueueInv noexceptCtor steps state map cur tickets)
    (choice : EnqueueChoice T) {entry : Nat} {block : Option Nat}
    (hpc : state.producer = .rewinding entry block) :
    ∃ after, enqueueStep noexceptCtor state.memory choice
        (.rewinding entry block) = some (after, .clearing entry block) ∧
      QueueInv noexceptCtor (steps + 1)
        { state with memory := after, producer := .clearing entry block } map
        cur tickets := by
  obtain ⟨htail, hat, hreserved, hfresh⟩ := h.knows hpc
  have hwell := h.ring.wellFormed cur (Nat.le_refl cur)
  refine ⟨_, ?_, h.retails ⟨htail,
    BlockIndexHeader.tailBefore_rewound hwell hat,
    BlockIndexHeader.rewound_lt hwell,
    ⟨hreserved.found, hreserved.key, hreserved.free⟩, hfresh⟩⟩
  simp only [enqueueStep, h.ring.blockIndex, Option.map_some]

theorem enqueue_clearing
    (h : QueueInv noexceptCtor steps state map cur tickets)
    (choice : EnqueueChoice T) {entry : Nat} {block : Option Nat}
    (hpc : state.producer = .clearing entry block) :
    ∃ next, enqueueStep noexceptCtor state.memory choice
        (.clearing entry block) =
          some (state.memory.setValue entry none, next) ∧
      QueueInv noexceptCtor (steps + 1)
        { state with
          memory := state.memory.setValue entry none
          producer := next } map cur tickets := by
  obtain ⟨htail, hbefore, hless, hreserved, hfresh⟩ := h.knows hpc
  have hsettled : Settled (state.memory.headers cur)
      (state.memory.setValue entry none).entries (map.first cur)
      map.inserted := by
    refine ⟨hbefore, hless, ?_⟩
    intro other hother _
    cases hreserved.found.symm.trans hother
    exact Memory.setValue_self none
  have hfilled : Filled state.memory.counters.tailIndex.toNat
      state.memory.tailBlock map :=
    ⟨by omega, fun hne => absurd htail (by omega)⟩
  refine ⟨_, rfl, h.ledger.mono, h.ring_setValue entry none, ?_, h.stock,
    h.contents, fun consumer => (h.consumers consumer).setValue entry none, ?_,
    h.delivered⟩
  · intro number hnumber
    rw [Memory.setValue_of_ne (hreserved.free number hnumber)]
    exact h.slots number hnumber
  · cases block with
    | none => exact ⟨hsettled, hfilled⟩
    | some block => exact ⟨hsettled, hfilled, hfresh block rfl⟩

end QueueInv

/-! ## A block from the pool -/

/-- The pool hands out a block that is not in use, or none. -/
def FromPool (state : QueueState T consumers) (choice : EnqueueChoice T) :
    Prop :=
  ∀ call entry block, state.producer = .requisitioning call entry →
    choice.block = some block → state.memory.used block = false

namespace QueueInv

theorem stock_used (h : QueueInv noexceptCtor steps state map cur tickets)
    {used : Nat → Bool}
    (hsame : ∀ number, (map.phase number).Unfreed →
      used (map.block number) = state.memory.used (map.block number)) :
    Stock state.memory.counters.headIndex.toNat used
      (fun block => (state.memory.blocks block).elementsCompletelyDequeued)
      state.locals map :=
  h.stock.rephase (fun _ => Iff.rfl) (fun _ => Iff.rfl)
    fun number hnumber => ⟨hnumber, hsame number hnumber⟩

theorem enqueue_requisitioning
    (h : QueueInv noexceptCtor steps state map cur tickets)
    {call : EnqueueCall T} {entry : Nat}
    (hpc : state.producer = .requisitioning call entry)
    (hchoice : FromPool state choice) :
    ∃ after next, enqueueStep noexceptCtor state.memory choice
        (.requisitioning call entry) = some (after, next) ∧
      QueueInv noexceptCtor (steps + 1)
        { state with memory := after, producer := next } map cur tickets := by
  obtain ⟨hat, htail, hreserved⟩ := h.knows hpc
  have hinserted := hat.inserted
  cases hblock : choice.block with
  | none =>
      refine ⟨state.memory, .rewinding entry none, ?_,
        h.produces ⟨hinserted, htail, hreserved, nofun⟩⟩
      simp only [enqueueStep, hblock]
  | some block =>
      have hunused := hchoice call entry block hpc hblock
      have hapart : ∀ number, (map.phase number).Unfreed →
          map.block number ≠ block := by
        rintro number hnumber rfl
        rw [h.stock.used number hnumber] at hunused
        exact nomatch hunused
      refine ⟨state.memory.setUsed block true, .resetting call entry block, ?_,
        h.ledger.mono, ?_, h.slots, h.stock_used fun number hnumber =>
          Memory.setUsed_of_ne (hapart number hnumber) true, h.contents,
        h.consumers, ⟨hat, htail, hreserved, Memory.setUsed_self true, hapart⟩,
        h.delivered⟩
      · simp only [enqueueStep, hblock, hunused, Bool.false_eq_true, if_false]
      · exact h.ring.congr rfl rfl rfl rfl (fun _ => rfl) (fun _ => rfl)
          (fun _ _ => rfl) (fun _ => rfl)

theorem enqueue_givingBack
    (h : QueueInv noexceptCtor steps state map cur tickets)
    (choice : EnqueueChoice T) {block : Nat}
    (hpc : state.producer = .givingBack block) :
    enqueueStep noexceptCtor state.memory choice (.givingBack block) =
        some (state.memory.setUsed block false, .idle) ∧
      QueueInv noexceptCtor (steps + 1)
        { state with
          memory := state.memory.setUsed block false
          producer := .idle } map cur tickets := by
  obtain ⟨hsettled, hfilled, hused, hapart⟩ := h.knows hpc
  refine ⟨if_pos hused, h.ledger.mono, ?_, h.slots,
    h.stock_used fun number hnumber =>
      Memory.setUsed_of_ne (hapart number hnumber) false, h.contents,
    h.consumers, ⟨hsettled, hfilled⟩, h.delivered⟩
  exact h.ring.congr rfl rfl rfl rfl (fun _ => rfl) (fun _ => rfl)
    (fun _ _ => rfl) (fun _ => rfl)

theorem enqueue_resetting
    (h : QueueInv noexceptCtor steps state map cur tickets)
    {call : EnqueueCall T} {entry block : Nat}
    (hpc : state.producer = .resetting call entry block) :
    QueueInv noexceptCtor (steps + 1)
      { state with
        memory := state.memory.setCompletelyDequeued block 0
        producer := if noexceptCtor then .storingValue call entry block
          else .constructingFirst call entry block } map cur tickets := by
  obtain ⟨hat, htail, hreserved, hfresh⟩ := h.knows hpc
  have hkept : ∀ number, (map.phase number).Unfreed →
      ((state.memory.setCompletelyDequeued block 0).blocks
          (map.block number)).elementsCompletelyDequeued =
        (state.memory.blocks (map.block number)).elementsCompletelyDequeued := by
    intro number hnumber
    rw [Memory.setCompletelyDequeued_of_ne (hfresh.2 number hnumber)]
  refine ⟨h.ledger.mono, ?_, h.slots, ?_, ⟨h.contents.length, ?_⟩, h.consumers,
    ?_, h.delivered⟩
  · exact h.ring.congr rfl rfl rfl rfl (fun _ => rfl) (fun _ => rfl)
      (fun _ _ => rfl) (fun _ => rfl)
  · refine { h.stock with count := ?_, live := ?_ }
    · intro number hnumber
      simp only [hkept number hnumber]
      exact h.stock.count number hnumber
    · intro number hnumber
      simp only [hkept number (by rw [hnumber]; trivial)]
      exact h.stock.live number hnumber
  · intro index hless hwhere
    rw [Memory.setCompletelyDequeued_elements]
    exact h.contents.there index hless hwhere
  · have hzero : ((state.memory.setCompletelyDequeued block 0).blocks
        block).elementsCompletelyDequeued = 0 :=
      Memory.setCompletelyDequeued_self 0
    cases noexceptCtor with
    | true => exact ⟨hat, htail, hreserved, hfresh, hzero, nofun⟩
    | false => exact ⟨hat, htail, hreserved, hfresh, hzero⟩

/-! ## Constructing the element -/

/-- An element that is constructed where no other is leaves the others. -/
theorem constructs (h : QueueInv noexceptCtor steps state map cur tickets)
    {block : Nat} {index : UInt64} {element : T}
    (hapart : ∀ other, map.phase (other / 32) = .live →
      other < state.memory.counters.tailIndex.toNat →
      map.block (other / 32) ≠ block ∨ other % 32 ≠ blockOffset index)
    (hknows : next.Knows noexceptCtor (state.memory.headers cur)
      state.memory.entries state.memory.used
      (state.memory.setElement block index (some element)).blocks
      state.memory.counters.tailIndex state.memory.tailBlock map cur) :
    QueueInv noexceptCtor (steps + 1)
      { state with
        memory := state.memory.setElement block index (some element)
        producer := next } map cur tickets := by
  have hinserted := h.inserted_bounds
  have hdequeued : (fun other => ((state.memory.setElement block index
      (some element)).blocks other).elementsCompletelyDequeued) =
        fun other => (state.memory.blocks other).elementsCompletelyDequeued := by
    funext other
    exact Memory.setElement_dequeued (some element)
  refine ⟨h.ledger.mono, ?_, h.slots, ?_, ⟨h.contents.length, ?_⟩, h.consumers,
    hknows, h.delivered⟩
  · exact h.ring.congr rfl rfl rfl rfl (fun _ => rfl) (fun _ => rfl)
      (fun _ _ => rfl) (fun _ => rfl)
  · rw [hdequeued]
    exact h.stock
  · intro other hless hwhere
    have hlive : map.phase (other / 32) = .live := by
      rcases hwhere with hle | ⟨consumer, claimed, hunmoved, rfl⟩
      · exact h.stock.live_of_head_le hle
          (Nat.div_lt_of_lt_mul (Nat.lt_of_lt_of_le hless hinserted.1))
      · exact h.live rfl (ConsumerPc.pending_of_unmoved hunmoved)
          (ConsumerPc.counters_of_unmoved hunmoved)
    rw [Memory.setElement_of_ne (hapart other hlive hless)]
    exact h.contents.there other hless hwhere

theorem enqueue_constructingFirst
    (h : QueueInv noexceptCtor steps state map cur tickets)
    (choice : EnqueueChoice T) {call : EnqueueCall T} {entry block : Nat}
    (hpc : state.producer = .constructingFirst call entry block) :
    ∃ after next, enqueueStep noexceptCtor state.memory choice
        (.constructingFirst call entry block) = some (after, next) ∧
      QueueInv noexceptCtor (steps + 1)
        { state with memory := after, producer := next } map cur tickets := by
  obtain ⟨hat, htail, hreserved, hfresh, hzero⟩ := h.knows hpc
  by_cases hthrows : choice.throws
  · refine ⟨state.memory, _, if_pos hthrows,
      h.produces ⟨hat.inserted, htail, hreserved, ?_⟩⟩
    intro other hother
    cases hother
    exact hfresh
  · refine ⟨_, .storingValue call entry block, if_neg hthrows,
      h.constructs ?_ ⟨hat, htail, hreserved, hfresh, ?_, fun _ => ?_⟩⟩
    · intro other hlive _
      exact .inl (hfresh.2 _ (by rw [hlive]; trivial))
    · rw [Memory.setElement_dequeued]
      exact hzero
    · have hinserted := hat.inserted
      have hoffset : blockOffset call.currentTailIndex = 0 := by
        rw [blockOffset_eq, hat.current]
        omega
      rw [← hoffset]
      exact Memory.setElement_self (some call.element)

theorem enqueue_constructing
    (h : QueueInv noexceptCtor steps state map cur tickets)
    (choice : EnqueueChoice T) {call : EnqueueCall T}
    (hpc : state.producer = .constructing call) :
    ∃ after next, enqueueStep noexceptCtor state.memory choice
        (.constructing call) = some (after, next) ∧
      QueueInv noexceptCtor (steps + 1)
        { state with memory := after, producer := next } map cur tickets := by
  obtain ⟨hsettled, hopened, hinside⟩ := h.knows hpc
  have hinserted := hopened.inserted
  by_cases hthrows : choice.throws && !noexceptCtor
  · have hnonzero := hinside (by simp at hthrows; exact hthrows.2)
    exact ⟨state.memory, _, if_pos hthrows, h.produces
      ⟨hsettled, by omega, fun _ => hopened.tailBlock⟩⟩
  · have hlive : map.phase (state.memory.counters.tailIndex.toNat / 32) = .live :=
      h.stock.live_of_head_le h.bounds.1 (by omega)
    have hused := h.stock.used _ (by rw [hlive]; trivial)
    refine ⟨state.memory.setElement
        (map.block (state.memory.counters.tailIndex.toNat / 32))
        call.currentTailIndex (some call.element), .publishing call, ?_,
      h.constructs ?_ ⟨hsettled, hopened, ?_⟩⟩
    · simp only [enqueueStep, if_neg hthrows, hopened.tailBlock,
        Option.bind_some, if_pos hused]
    · intro other hother hless
      rw [blockOffset_eq, hopened.current]
      exact h.stock.cell_ne hlive hother (Nat.ne_of_lt hless)
    · rw [← hopened.current, ← blockOffset_eq]
      exact Memory.setElement_self (some call.element)

end QueueInv

/-! ## Putting the block into the index -/

/-- The block map after the next block has been inserted. -/
def BlockMap.insert (map : BlockMap consumers) (entry block : Nat) :
    BlockMap consumers :=
  { map with
    inserted := map.inserted + 1
    slot := Function.update map.slot map.inserted entry
    block := Function.update map.block map.inserted block
    phase := Function.update map.phase map.inserted .live }

namespace BlockMap

variable {entry block number : Nat}

theorem insert_phase_self :
    (map.insert entry block).phase map.inserted = .live :=
  Function.update_self ..

theorem insert_block_self :
    (map.insert entry block).block map.inserted = block :=
  Function.update_self ..

theorem insert_slot_self :
    (map.insert entry block).slot map.inserted = entry :=
  Function.update_self ..

theorem insert_phase_of_ne (h : number ≠ map.inserted) :
    (map.insert entry block).phase number = map.phase number :=
  Function.update_of_ne h ..

theorem insert_block_of_ne (h : number ≠ map.inserted) :
    (map.insert entry block).block number = map.block number :=
  Function.update_of_ne h ..

theorem insert_slot_of_ne (h : number ≠ map.inserted) :
    (map.insert entry block).slot number = map.slot number :=
  Function.update_of_ne h ..

end BlockMap

theorem Slots.insert {memory : Memory T} {header : BlockIndexHeader}
    {first entry : Nat} (h : Slots header memory.entries map first)
    (hreserved : Reserved header memory.entries map first entry)
    (hfirst : first ≤ map.inserted) (block : Nat) :
    Slots header (memory.setValue entry (some block)).entries
      (map.insert entry block) first := by
  intro number hnumber
  by_cases hne : number = map.inserted
  · rw [hne, BlockMap.insert_slot_self, BlockMap.insert_block_self]
    refine ⟨hfirst, hreserved.found, ?_, Memory.setValue_self (some block)⟩
    rw [Memory.setValue_key]
    exact hreserved.key
  · rw [BlockMap.insert_phase_of_ne hne] at hnumber
    rw [BlockMap.insert_slot_of_ne hne, BlockMap.insert_block_of_ne hne,
      Memory.setValue_of_ne (hreserved.free number hnumber)]
    exact h number hnumber

theorem Stock.insert {head block : Nat} {used : Nat → Bool}
    {dequeued : Nat → UInt64} (h : Stock head used dequeued locals map)
    (hfresh : FreshBlock used map block) (hzero : dequeued block = 0)
    (hhead : head ≤ 32 * map.inserted)
    (hpending : ∀ consumer index, (locals consumer).pending = some index →
      index.toNat / 32 < map.inserted) (entry : Nat) :
    Stock head used dequeued locals (map.insert entry block) := by
  have hold : ∀ number, ((map.insert entry block).phase number).Unfreed →
      number ≠ map.inserted → (map.phase number).Unfreed := by
    intro number hnumber hne
    rwa [BlockMap.insert_phase_of_ne hne] at hnumber
  refine ⟨?_, ?_, ?_, ?_, ?_, ?_⟩
  · intro number
    have hcoming := h.coming number
    change _ ↔ map.inserted + 1 ≤ number
    by_cases hne : number = map.inserted
    · rw [hne, BlockMap.insert_phase_self]
      exact ⟨nofun, fun hle => absurd hle (Nat.not_succ_le_self _)⟩
    · rw [BlockMap.insert_phase_of_ne hne, hcoming]
      omega
  · intro number hnumber
    by_cases hne : number = map.inserted
    · rw [hne, BlockMap.insert_block_self]
      exact hfresh.1
    · rw [BlockMap.insert_block_of_ne hne]
      exact h.used number (hold number hnumber hne)
  · intro number other hnumber hother hsame
    by_cases hne : number = map.inserted
    · by_contra hdifferent
      have hotherNe : other ≠ map.inserted :=
        fun heq => hdifferent (hne.trans heq.symm)
      rw [hne, BlockMap.insert_block_self,
        BlockMap.insert_block_of_ne hotherNe] at hsame
      exact hfresh.2 other (hold other hother hotherNe) hsame.symm
    · by_cases hotherNe : other = map.inserted
      · rw [hotherNe, BlockMap.insert_block_self,
          BlockMap.insert_block_of_ne hne] at hsame
        exact absurd hsame (hfresh.2 number (hold number hnumber hne))
      · rw [BlockMap.insert_block_of_ne hne,
          BlockMap.insert_block_of_ne hotherNe] at hsame
        exact h.apart number other (hold number hnumber hne)
          (hold other hother hotherNe) hsame
  · intro number hnumber
    by_cases hne : number = map.inserted
    · have hnone : ∑ consumer, (locals consumer).pendingIn number = 0 := by
        apply Finset.sum_eq_zero
        intro consumer _
        refine if_neg fun hsome => ?_
        obtain ⟨index, hindex, heq⟩ := Option.map_eq_some_iff.mp hsome
        have hless := hpending consumer index hindex
        omega
      rw [hnone, hne, BlockMap.insert_block_self, hzero, UInt64.toNat_zero]
      omega
    · rw [BlockMap.insert_block_of_ne hne]
      exact h.count number (hold number hnumber hne)
  · intro number hnumber
    by_cases hne : number = map.inserted
    · rw [hne, BlockMap.insert_block_self, hzero]
      decide
    · rw [BlockMap.insert_phase_of_ne hne] at hnumber
      rw [BlockMap.insert_block_of_ne hne]
      exact h.live number hnumber
  · intro number hcoming hlive
    have hne : number ≠ map.inserted := by
      rintro rfl
      exact hlive BlockMap.insert_phase_self
    rw [BlockMap.insert_phase_of_ne hne] at hcoming hlive
    exact h.done number hcoming hlive

theorem Contents.insert {tail head : Nat} {blocks : Nat → Block T}
    {accepted : List T} (h : Contents tail head blocks accepted locals map)
    (htail : tail ≤ 32 * map.inserted) (entry block : Nat) :
    Contents tail head blocks accepted locals (map.insert entry block) := by
  refine ⟨h.length, fun index hless hwhere => ?_⟩
  rw [BlockMap.insert_block_of_ne (by omega)]
  exact h.there index hless hwhere

theorem ConsumerPc.Knows.insert {headers : Nat → BlockIndexHeader}
    {entries : Nat → BlockIndexEntry} {accepted : List T} {pc : ConsumerPc T}
    {consumer : Fin consumers}
    (h : pc.Knows headers entries accepted map cur consumer)
    (hclaimed : ∀ index, pc.counters = .claimed index →
      index.toNat / 32 < map.inserted) (entry block : Nat) :
    pc.Knows headers entries accepted (map.insert entry block) cur
      consumer := by
  cases pc with
  | counting => trivial
  | loadingTail index | loadingBase index | loadingValue index =>
      have hne := Nat.ne_of_lt (hclaimed index rfl)
      simp only [Knows, BlockMap.insert_slot_of_ne hne]
      exact h
  | moving index | settingEmpty index =>
      have hne := Nat.ne_of_lt (hclaimed index rfl)
      simp only [Knows, BlockMap.insert_slot_of_ne hne,
        BlockMap.insert_block_of_ne hne]
      exact h
  | storingNull index | givingBack index =>
      have hne := Nat.ne_of_lt (hclaimed index rfl)
      simp only [Knows, BlockMap.insert_slot_of_ne hne,
        BlockMap.insert_block_of_ne hne, BlockMap.insert_phase_of_ne hne]
      exact h

namespace QueueInv

theorem enqueue_storingValue
    (h : QueueInv noexceptCtor steps state map cur tickets)
    {call : EnqueueCall T} {entry block : Nat}
    (hpc : state.producer = .storingValue call entry block) :
    QueueInv noexceptCtor (steps + 1)
      { state with
        memory :=
          { state.memory.setValue entry (some block) with
            tailBlock := some block }
        producer := if noexceptCtor then .constructing call
          else .publishing call } (map.insert entry block) cur tickets := by
  obtain ⟨hat, htail, hreserved, hfresh, hzero, helement⟩ := h.knows hpc
  have hbounds := h.bounds
  have hinserted := hat.inserted
  have hcapacity := h.ring.capacity_pos
  have hring : Ring { state.memory.setValue entry (some block) with
      tailBlock := some block } map.first cur map.inserted :=
    h.ring.congr rfl rfl rfl rfl (fun _ => rfl) (fun _ => rfl) (fun _ _ => rfl)
      (fun _ => Memory.setValue_key (some block))
  have hkey : HasKey (state.memory.setValue entry (some block)).entries entry
      map.inserted := by
    rw [HasKey, Memory.setValue_key]
    exact hreserved.key
  have hsettled : Settled (state.memory.headers cur)
      (state.memory.setValue entry (some block)).entries (map.first cur)
      (map.inserted + 1) := by
    refine ⟨BlockIndexHeader.tailBefore_succ h.ring.first_le htail, ?_, ?_⟩
    · rw [htail]
      exact ringPosition_lt (by omega)
    · intro other hother hotherKey
      exact absurd hotherKey (hring.not_hasKey_later hother (Nat.lt_succ_self _))
  have hblock : state.memory.counters.tailIndex.toNat / 32 = map.inserted := by
    omega
  have hthere : noexceptCtor = false →
      (state.memory.blocks ((map.insert entry block).block
        (state.memory.counters.tailIndex.toNat / 32))).elements
          (state.memory.counters.tailIndex.toNat % 32) = some call.element := by
    intro hctor
    have hoffset : state.memory.counters.tailIndex.toNat % 32 = 0 := by omega
    rw [hblock, BlockMap.insert_block_self, hoffset]
    exact helement hctor
  refine ⟨h.ledger.mono, hring.insert hreserved.found hkey,
    h.slots.insert hreserved h.ring.first_le block,
    h.stock.insert hfresh hzero (by omega) ?_ entry,
    h.contents.insert (Nat.le_of_eq hinserted) entry block, ?_, ?_,
    h.delivered⟩
  · intro consumer index hpending
    exact h.claimed_inserted (ConsumerPc.counters_of_pending hpending)
  · intro consumer
    exact ((h.consumers consumer).setValue entry (some block)).insert
      (fun index hclaimed => h.claimed_inserted hclaimed) entry block
  · have hopened : Opened state.memory.counters.tailIndex (some block)
        (map.insert entry block) call := by
      refine ⟨hat.current, congrArg (· + 1) hblock.symm, ?_⟩
      rw [hblock, BlockMap.insert_block_self]
    cases noexceptCtor with
    | true => exact ⟨hsettled, hopened, by simp⟩
    | false => exact ⟨hsettled, hopened, hthere rfl⟩

end QueueInv

/-! ## Publishing the element -/

theorem Contents.publish {tail head : Nat} {blocks : Nat → Block T}
    {accepted : List T} (h : Contents tail head blocks accepted locals map)
    {element : T}
    (helement : (blocks (map.block (tail / 32))).elements (tail % 32) =
      some element) :
    Contents (tail + 1) head blocks (accepted ++ [element]) locals map := by
  refine ⟨?_, fun index hless hwhere => ?_⟩
  · rw [List.length_append, List.length_singleton, h.length]
  · rcases Nat.lt_succ_iff_lt_or_eq.mp hless with hbefore | rfl
    · rw [List.getElem?_append_left (by rw [h.length]; exact hbefore)]
      exact h.there index hbefore hwhere
    · rw [helement, ← h.length, List.getElem?_concat_length]

theorem accepted_append {accepted : List T} {index : Nat} {element : T}
    (h : accepted[index]? = some element) (last : T) :
    (accepted ++ [last])[index]? = some element := by
  rw [List.getElem?_append_left (List.getElem?_eq_some_iff.mp h).1]
  exact h

theorem ConsumerPc.Knows.publish {headers : Nat → BlockIndexHeader}
    {entries : Nat → BlockIndexEntry} {accepted : List T} {pc : ConsumerPc T}
    {consumer : Fin consumers}
    (h : pc.Knows headers entries accepted map cur consumer) (last : T) :
    pc.Knows headers entries (accepted ++ [last]) map cur consumer := by
  cases pc with
  | settingEmpty => exact ⟨h.1, h.2.1, accepted_append h.2.2 last⟩
  | storingNull => exact ⟨h.1, h.2.1, accepted_append h.2.2.1 last, h.2.2.2⟩
  | givingBack => exact ⟨h.1, accepted_append h.2.1 last, h.2.2⟩
  | counting | loadingTail | loadingBase | loadingValue | moving => exact h

namespace QueueInv

theorem enqueue_publishing
    (h : QueueInv noexceptCtor steps state map cur tickets)
    (hsteps : steps < 2 ^ 62) {call : EnqueueCall T}
    (hpc : state.producer = .publishing call) :
    QueueInv noexceptCtor (steps + 1)
      { state with
        memory :=
          { state.memory with
            counters :=
              { state.memory.counters with
                tailIndex := 1 + call.currentTailIndex }
            accepted := state.memory.accepted ++ [call.element] }
        producer := .idle } map cur tickets := by
  obtain ⟨hsettled, hopened, hthere⟩ := h.knows hpc
  have hbounds := h.bounds
  have hinserted := hopened.inserted
  have hledger := h.ledger.publish (by omega)
  have hnext : (1 + call.currentTailIndex).toNat =
      state.memory.counters.tailIndex.toNat + 1 := by
    rw [hopened.current, UInt64.toNat_add, UInt64.toNat_one]
    omega
  have hpublished : state.memory.counters.publish =
      { state.memory.counters with tailIndex := 1 + call.currentTailIndex } := by
    rw [Counters.publish, hopened.current, UInt64.add_comm]
  have hcontents := h.contents.publish hthere
  rw [← hnext] at hcontents
  refine ⟨hpublished ▸ hledger, ?_, h.slots, h.stock, hcontents,
    fun consumer => (h.consumers consumer).publish call.element,
    ⟨hsettled, ?_, ?_⟩, h.delivered.nodup, ?_, h.delivered.claimed,
    h.delivered.count⟩
  · exact h.ring.congr rfl rfl rfl rfl (fun _ => rfl) (fun _ => rfl)
      (fun _ _ => rfl) (fun _ => rfl)
  · dsimp only
    omega
  · intro hinside
    dsimp only at hinside ⊢
    have hsame : (1 + call.currentTailIndex).toNat / 32 =
        state.memory.counters.tailIndex.toNat / 32 := by omega
    rw [hsame]
    exact hopened.tailBlock
  · exact fun entry hentry =>
      accepted_append (h.delivered.right entry hentry) call.element

/-! ## Every step of the producer -/

/-- A step of the producer is defined and keeps the invariant, whatever the
environment decides. -/
theorem enqueue (h : QueueInv noexceptCtor steps state map cur tickets)
    (hsteps : steps < 2 ^ 62) (choice : EnqueueChoice T)
    (hchoice : FromPool state choice) :
    ∃ after next, enqueueStep noexceptCtor state.memory choice state.producer =
        some (after, next) ∧
      ∃ map cur, QueueInv noexceptCtor (steps + 1)
        { state with memory := after, producer := next } map cur tickets := by
  cases hpc : state.producer with
  | idle =>
      obtain ⟨next, hstep, hnext⟩ := h.enqueue_idle choice hpc
      exact ⟨_, next, hstep, map, cur, hnext⟩
  | loadingHead call =>
      obtain ⟨next, hstep, hnext⟩ := h.enqueue_loadingHead hsteps choice hpc
      exact ⟨_, next, hstep, map, cur, hnext⟩
  | inserting call =>
      obtain ⟨next, hstep, hnext⟩ := h.enqueue_inserting hsteps choice hpc
      exact ⟨_, next, hstep, map, cur, hnext⟩
  | growing call => exact h.enqueue_growing choice hpc
  | insertingNew call =>
      obtain ⟨next, hstep, hnext⟩ := h.enqueue_insertingNew choice hpc
      exact ⟨_, next, hstep, map, cur, hnext⟩
  | storingKey call header entry newTail =>
      exact ⟨_, _, rfl, map, cur, h.enqueue_storingKey hpc⟩
  | storingTail call header entry newTail =>
      exact ⟨_, _, rfl, map, cur, h.enqueue_storingTail hpc⟩
  | requisitioning call entry =>
      obtain ⟨after, next, hstep, hnext⟩ := h.enqueue_requisitioning hpc hchoice
      exact ⟨after, next, hstep, map, cur, hnext⟩
  | resetting call entry block =>
      exact ⟨_, _, rfl, map, cur, h.enqueue_resetting hpc⟩
  | constructingFirst call entry block =>
      obtain ⟨after, next, hstep, hnext⟩ :=
        h.enqueue_constructingFirst choice hpc
      exact ⟨after, next, hstep, map, cur, hnext⟩
  | rewinding entry block =>
      obtain ⟨after, hstep, hnext⟩ := h.enqueue_rewinding choice hpc
      exact ⟨after, _, hstep, map, cur, hnext⟩
  | clearing entry block =>
      obtain ⟨next, hstep, hnext⟩ := h.enqueue_clearing choice hpc
      exact ⟨_, next, hstep, map, cur, hnext⟩
  | givingBack block =>
      obtain ⟨hstep, hnext⟩ := h.enqueue_givingBack choice hpc
      exact ⟨_, _, hstep, map, cur, hnext⟩
  | storingValue call entry block =>
      exact ⟨_, _, rfl, _, cur, h.enqueue_storingValue hpc⟩
  | constructing call =>
      obtain ⟨after, next, hstep, hnext⟩ := h.enqueue_constructing choice hpc
      exact ⟨after, next, hstep, map, cur, hnext⟩
  | publishing call =>
      exact ⟨_, _, rfl, map, cur, h.enqueue_publishing hsteps hpc⟩

end QueueInv

end CandCpp.Queue
