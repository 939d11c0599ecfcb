import CandCpp.Queue.QueueInvariant

/-!
# The steps of dequeue keep the invariant
-/

namespace CandCpp.Queue

open CandCpp.Foundation

variable {T : Type} {consumers : Nat} {noexceptCtor noexceptAssign : Bool}
  {throws : Bool} {steps : Nat}
  {state : QueueState T consumers} {map : BlockMap consumers} {cur : Nat}
  {tickets : Tickets} {consumer : Fin consumers} {pc next : ConsumerPc T}
  {locals : Fin consumers → ConsumerPc T}

/-! ## What a step of one consumer leaves alone -/

theorem pendingIn_of_none (h : pc.pending = none) (number : Nat) :
    pc.pendingIn number = 0 := by
  simp [ConsumerPc.pendingIn, h]

theorem pendingIn_of_some {index : UInt64} (h : pc.pending = some index)
    (number : Nat) :
    pc.pendingIn number = if index.toNat / 32 = number then 1 else 0 := by
  simp [ConsumerPc.pendingIn, h]

theorem pendingIn_update (hpc : locals consumer = pc) (next : ConsumerPc T)
    (number : Nat) :
    ∑ other, (Function.update locals consumer next other).pendingIn number +
        pc.pendingIn number =
      ∑ other, (locals other).pendingIn number + next.pendingIn number := by
  have hsum := sum_update (ConsumerPc.pendingIn number) locals consumer next
  rwa [hpc] at hsum

theorem knows_update {headers : Nat → BlockIndexHeader}
    {entries : Nat → BlockIndexEntry} {accepted : List T}
    (h : ∀ other, other ≠ consumer →
      (locals other).Knows headers entries accepted map cur other)
    (hself : next.Knows headers entries accepted map cur consumer)
    (other : Fin consumers) :
    (Function.update locals consumer next other).Knows headers entries accepted
      map cur other :=
  (Function.forall_update_iff locals fun other pc =>
    pc.Knows headers entries accepted map cur other).mpr ⟨hself, h⟩ other

theorem counterPool_update (locals : Fin consumers → ConsumerPc T)
    (consumer : Fin consumers) (next : ConsumerPc T) :
    (fun other => (Function.update locals consumer next other).counters) =
      Function.update (fun other => (locals other).counters) consumer
        next.counters := by
  funext other
  by_cases hother : other = consumer
  · rw [hother, Function.update_self, Function.update_self]
  · rw [Function.update_of_ne hother, Function.update_of_ne hother]

/-- The counters see nothing of a consumer that goes on with its index. -/
theorem counterPool_update_same (hpc : locals consumer = pc)
    (hcounters : next.counters = pc.counters) :
    (fun other => (Function.update locals consumer next other).counters) =
      fun other => (locals other).counters := by
  rw [counterPool_update, hcounters, ← hpc]
  exact Function.update_eq_self consumer _

namespace Stock

variable {head : Nat} {used : Nat → Bool} {dequeued : Nat → UInt64}

theorem update_locals (h : Stock head used dequeued locals map)
    (hpc : locals consumer = pc) (hpending : next.pending = pc.pending) :
    Stock head used dequeued (Function.update locals consumer next) map := by
  have hsame : ∀ number,
      ∑ other, (Function.update locals consumer next other).pendingIn number =
        ∑ other, (locals other).pendingIn number := by
    intro number
    have hsum := pendingIn_update hpc next number
    have hpendingIn : next.pendingIn number = pc.pendingIn number := by
      rw [ConsumerPc.pendingIn, ConsumerPc.pendingIn, hpending]
    omega
  exact { h with
    count := fun number hunfreed => by
      rw [hsame]
      exact h.count number hunfreed
    done := fun number hcoming hlive => by
      rw [hsame]
      exact h.done number hcoming hlive }

end Stock

theorem Contents.update_locals {tail head : Nat} {blocks : Nat → Block T}
    {accepted : List T} (h : Contents tail head blocks accepted locals map)
    (hpc : locals consumer = pc)
    (hunmoved : ∀ index, next.unmoved = some index → pc.unmoved = some index) :
    Contents tail head blocks accepted (Function.update locals consumer next)
      map := by
  refine ⟨h.length, ?_⟩
  rintro index hless (hle | ⟨other, claimed, hother, hclaimed⟩)
  · exact h.there index hless (.inl hle)
  · apply h.there index hless
    by_cases hself : other = consumer
    · rw [hself, Function.update_self] at hother
      exact .inr ⟨consumer, claimed, hpc ▸ hunmoved claimed hother, hclaimed⟩
    · rw [Function.update_of_ne hself] at hother
      exact .inr ⟨other, claimed, hother, hclaimed⟩

/-- A consumer without an element in sight is no matter. -/
theorem Contents.forget {tail head : Nat} {blocks : Nat → Block T}
    {accepted : List T} (h : Contents tail head blocks accepted locals map)
    (hnext : next.unmoved = none) :
    Contents tail head blocks accepted (Function.update locals consumer next)
      map := by
  refine h.update_locals rfl ?_
  intro index
  rw [hnext]
  exact nofun

theorem claims_update (hpc : locals consumer = pc) (next : ConsumerPc T) :
    ∑ other, (Function.update locals consumer next other).claims + pc.claims =
      ∑ other, (locals other).claims + next.claims := by
  have hsum := sum_update ConsumerPc.claims locals consumer next
  rwa [hpc] at hsum

theorem Delivered.update_locals {head : UInt64} {accepted : List T}
    {taken : List (Taken T)} (h : Delivered head accepted taken locals)
    (hpc : locals consumer = pc) (hclaims : next.claims = pc.claims)
    (hclaimed : ∀ index, next.counters = .claimed index →
      pc.counters = .claimed index) :
    Delivered head accepted taken (Function.update locals consumer next) := by
  have hsum := claims_update hpc next
  have hcount := h.count
  refine ⟨h.nodup, h.right, ?_, by omega⟩
  intro entry hentry
  obtain ⟨hless, hothers⟩ := h.claimed entry hentry
  refine ⟨hless, ?_⟩
  intro other
  by_cases hother : other = consumer
  · rw [hother, Function.update_self]
    exact fun hnext => hothers consumer (hpc ▸ hclaimed _ hnext)
  · rw [Function.update_of_ne hother]
    exact hothers other

namespace QueueInv

theorem ledger_update (h : QueueInv noexceptCtor steps state map cur tickets)
    (hpc : state.locals consumer = pc)
    (hcounters : next.counters = pc.counters) :
    Ledger (steps + 1) ⟨state.memory.counters,
      fun other => (Function.update state.locals consumer next other).counters⟩
      tickets := by
  rw [counterPool_update_same hpc hcounters]
  exact h.ledger.mono

/-- A consumer that has claimed an index reads on. -/
theorem look (h : QueueInv noexceptCtor steps state map cur tickets)
    (hpc : state.locals consumer = pc)
    (hcounters : next.counters = pc.counters)
    (hpending : next.pending = pc.pending)
    (hunmoved : next.unmoved = pc.unmoved)
    (hknows : next.Knows state.memory.headers state.memory.entries
      state.memory.accepted map cur consumer) :
    QueueInv noexceptCtor (steps + 1)
      { state with locals := Function.update state.locals consumer next } map
      cur tickets := by
  exact ⟨h.ledger_update hpc hcounters, h.ring, h.slots,
    h.stock.update_locals hpc hpending,
    h.contents.update_locals hpc (fun index => by rw [hunmoved]; exact id),
    knows_update (fun other _ => h.consumers other) hknows, h.producer,
    h.delivered.update_locals hpc
      (by rw [ConsumerPc.claims, ConsumerPc.claims, hcounters])
      (fun index => by rw [hcounters]; exact id)⟩

end QueueInv

/-! ## Up to the claim -/

theorem consumerStep_counting (memory : Memory T) {pc : DequeuePc}
    (h : ∀ index, pc ≠ .claimed index) :
    consumerStep noexceptAssign memory throws (.counting pc) =
      some ({ memory with counters := (dequeueStep memory.counters pc).1 },
        .counting (dequeueStep memory.counters pc).2) := by
  cases pc with
  | claimed index => exact absurd rfl (h index)
  | idle | loadingOvercommit | testing | committing | reloadingTail | claiming
  | overcommitting => rfl

/-- Only a claim moves the head. -/
theorem DequeueStep.quiet {counters after : Counters} {before moved : DequeuePc}
    (h : DequeueStep counters before after moved)
    (hclaiming : before ≠ .claiming) :
    after.tailIndex = counters.tailIndex ∧
      after.headIndex = counters.headIndex ∧
      ∀ index, moved ≠ .claimed index := by
  cases h with
  | claim => exact absurd rfl hclaiming
  | loadTail | loadOvercommit | goOn | giveUp | commit | grant | refuse
  | overcommit | done => exact ⟨rfl, rfl, fun _ => nofun⟩

namespace QueueInv

/-- The other counters matter to nobody but the ledger. -/
theorem counts (h : QueueInv noexceptCtor steps state map cur tickets)
    {before moved : DequeuePc} (hpc : state.locals consumer = .counting before)
    (hbefore : ∀ index, before ≠ .claimed index)
    (hmoved : ∀ index, moved ≠ .claimed index) {counters : Counters}
    (htail : counters.tailIndex = state.memory.counters.tailIndex)
    (hhead : counters.headIndex = state.memory.counters.headIndex)
    {decided : Tickets}
    (hledger : Ledger (steps + 1) ⟨counters, Function.update
      (fun other => (state.locals other).counters) consumer moved⟩ decided) :
    QueueInv noexceptCtor (steps + 1)
      { state with
        memory := { state.memory with counters := counters }
        locals := Function.update state.locals consumer (.counting moved) }
      map cur decided := by
  have hunmoved : ∀ pc : DequeuePc, (∀ index, pc ≠ .claimed index) →
      (ConsumerPc.counting pc : ConsumerPc T).unmoved = none := by
    intro pc hpc
    cases pc with
    | claimed index => exact absurd rfl (hpc index)
    | idle | loadingOvercommit | testing | committing | reloadingTail | claiming
    | overcommitting => rfl
  have hpending : ∀ pc : DequeuePc, (∀ index, pc ≠ .claimed index) →
      (ConsumerPc.counting pc : ConsumerPc T).pending = none := hunmoved
  have hclaims : ∀ pc : DequeuePc, (∀ index, pc ≠ .claimed index) →
      (ConsumerPc.counting pc : ConsumerPc T).claims = 0 := by
    intro pc hpc
    cases pc with
    | claimed index => exact absurd rfl (hpc index)
    | idle | loadingOvercommit | testing | committing | reloadingTail | claiming
    | overcommitting => rfl
  have hstock := h.stock.update_locals hpc
    (by rw [hpending moved hmoved, hpending before hbefore])
  have hcontents : Contents _ _ _ _ (Function.update state.locals consumer _)
    map := h.contents.forget (hunmoved moved hmoved)
  have hsame : (ConsumerPc.counting moved : ConsumerPc T).claims =
      (ConsumerPc.counting before : ConsumerPc T).claims := by
    rw [hclaims moved hmoved, hclaims before hbefore]
  have hdelivered := h.delivered.update_locals hpc hsame
    (fun index hclaimed => absurd hclaimed (hmoved index))
  have hproducer := h.producer
  rw [← hhead] at hstock hcontents hdelivered
  rw [← htail] at hcontents hproducer
  refine ⟨?_, h.ring.congr rfl rfl rfl rfl (fun _ => rfl) (fun _ => rfl)
      (fun _ _ => rfl) (fun _ => rfl), h.slots, hstock, hcontents,
    knows_update (fun other _ => h.consumers other) trivial, hproducer,
    hdelivered⟩
  rw [QueueState.counterPool, counterPool_update]
  exact hledger

end QueueInv

theorem Stock.claim {head : UInt64} {used : Nat → Bool}
    {dequeued : Nat → UInt64}
    (h : Stock head.toNat used dequeued locals map)
    (hpc : locals consumer = .counting .claiming) :
    Stock (head.toNat + 1) used dequeued
      (Function.update locals consumer (.counting (.claimed head))) map := by
  refine { h with count := ?_, done := ?_ }
  · intro number hunfreed
    have hcount := h.count number hunfreed
    have hsum := pendingIn_update hpc (.counting (.claimed head)) number
    rw [pendingIn_of_none rfl, pendingIn_of_some rfl] at hsum
    split at hsum <;> omega
  · intro number hcoming hlive
    obtain ⟨hle, hnone⟩ := h.done number hcoming hlive
    have hsum := pendingIn_update hpc (.counting (.claimed head)) number
    rw [pendingIn_of_none rfl, pendingIn_of_some rfl, if_neg (by omega)] at hsum
    omega

theorem Contents.claim {tail : Nat} {head : UInt64} {blocks : Nat → Block T}
    {accepted : List T}
    (h : Contents tail head.toNat blocks accepted locals map)
    (consumer : Fin consumers) :
    Contents tail (head.toNat + 1) blocks accepted
      (Function.update locals consumer (.counting (.claimed head))) map := by
  refine ⟨h.length, ?_⟩
  rintro index hless (hafter | ⟨other, claimed, hother, hclaimed⟩)
  · exact h.there index hless (.inl (Nat.le_of_succ_le hafter))
  · by_cases hconsumer : other = consumer
    · rw [hconsumer, Function.update_self] at hother
      cases hother
      exact h.there index hless (.inl (Nat.le_of_eq hclaimed))
    · rw [Function.update_of_ne hconsumer] at hother
      exact h.there index hless (.inr ⟨other, claimed, hother, hclaimed⟩)

theorem Delivered.claim {head next : UInt64} {accepted : List T}
    {taken : List (Taken T)} (h : Delivered head accepted taken locals)
    (hpc : locals consumer = .counting .claiming)
    (hnext : next.toNat = head.toNat + 1) :
    Delivered next accepted taken
      (Function.update locals consumer (.counting (.claimed head))) := by
  have hsum := claims_update hpc (.counting (.claimed head))
  have hcount := h.count
  have hzero : (ConsumerPc.counting .claiming : ConsumerPc T).claims = 0 := rfl
  have hone : (ConsumerPc.counting (.claimed head) : ConsumerPc T).claims = 1 :=
    rfl
  refine ⟨h.nodup, h.right, ?_, by omega⟩
  intro entry hentry
  obtain ⟨hless, hothers⟩ := h.claimed entry hentry
  refine ⟨by omega, ?_⟩
  intro other
  by_cases hconsumer : other = consumer
  · rw [hconsumer, Function.update_self]
    intro hclaimed
    cases hclaimed
    exact Nat.lt_irrefl _ hless
  · rw [Function.update_of_ne hconsumer]
    exact hothers other

namespace QueueInv

theorem claims (h : QueueInv noexceptCtor steps state map cur tickets)
    (hpc : state.locals consumer = .counting .claiming)
    (hsteps : steps < 2 ^ 62) {decided : Tickets}
    (hledger : Ledger (steps + 1) ⟨state.memory.counters.claim, Function.update
      (fun other => (state.locals other).counters) consumer
      (.claimed state.memory.counters.headIndex)⟩ decided) :
    QueueInv noexceptCtor (steps + 1)
      { state with
        memory := { state.memory with counters := state.memory.counters.claim }
        locals := Function.update state.locals consumer
          (.counting (.claimed state.memory.counters.headIndex)) }
      map cur decided := by
  obtain ⟨hle, htail⟩ := h.bounds
  have hnext : state.memory.counters.claim.headIndex.toNat =
      state.memory.counters.headIndex.toNat + 1 := by
    rw [Counters.claim, UInt64.toNat_add, UInt64.toNat_one]
    omega
  have hstock := h.stock.claim hpc
  have hcontents := h.contents.claim consumer
  rw [← hnext] at hstock hcontents
  refine ⟨?_, h.ring.congr rfl rfl rfl rfl (fun _ => rfl) (fun _ => rfl)
      (fun _ _ => rfl) (fun _ => rfl), h.slots, hstock, hcontents,
    knows_update (fun other _ => h.consumers other) trivial, h.producer,
    h.delivered.claim hpc hnext⟩
  rw [QueueState.counterPool, counterPool_update]
  exact hledger

/-! ## Finding the block -/

theorem live (h : QueueInv noexceptCtor steps state map cur tickets)
    {index : UInt64} (hpc : state.locals consumer = pc)
    (hpending : pc.pending = some index)
    (hclaimed : pc.counters = .claimed index) :
    map.phase (index.toNat / 32) = .live := by
  subst hpc
  exact h.stock.live_of_pending hpending (h.claimed_inserted hclaimed)

theorem claimed_inserted_of
    (h : QueueInv noexceptCtor steps state map cur tickets) {index : UInt64}
    (hpc : state.locals consumer = pc) (hclaimed : pc.counters = .claimed index) :
    index.toNat / 32 < map.inserted := by
  subst hpc
  exact h.claimed_inserted hclaimed

theorem found (h : QueueInv noexceptCtor steps state map cur tickets)
    {index : UInt64} (hpc : state.locals consumer = pc)
    (hpending : pc.pending = some index)
    (hclaimed : pc.counters = .claimed index) :
    map.first cur ≤ index.toNat / 32 ∧
      (state.memory.headers cur).entryAt (map.first cur) (index.toNat / 32) =
        some (map.slot (index.toNat / 32)) ∧
      (state.memory.entries (map.slot (index.toNat / 32))).key.toNat =
        32 * (index.toNat / 32) ∧
      (state.memory.entries (map.slot (index.toNat / 32))).value =
        some (map.block (index.toNat / 32)) := by
  apply h.slots
  rw [h.live hpc hpending hclaimed]
  trivial

theorem loadIndex (h : QueueInv noexceptCtor steps state map cur tickets)
    {index : UInt64} (hpc : state.locals consumer = .counting (.claimed index)) :
    ∃ next, consumerStep noexceptAssign state.memory throws
        (.counting (.claimed index)) = some (state.memory, next) ∧
      QueueInv noexceptCtor (steps + 1)
        { state with locals := Function.update state.locals consumer next } map
        cur tickets := by
  obtain ⟨hfirst, hentry, -, -⟩ := h.found hpc rfl rfl
  refine ⟨.loadingTail index cur, ?_, ?_⟩
  · simp [consumerStep, h.ring.blockIndex]
  · exact h.look hpc rfl rfl rfl ⟨Nat.le_refl cur, hfirst, hentry⟩

theorem loadTail (h : QueueInv noexceptCtor steps state map cur tickets)
    {index : UInt64} {header : Nat}
    (hpc : state.locals consumer = .loadingTail index header) :
    QueueInv noexceptCtor (steps + 1)
      { state with
        locals := Function.update state.locals consumer
          (.loadingBase index header (state.memory.headers header).tail) }
      map cur tickets := by
  have hknows := h.consumers consumer
  rw [hpc] at hknows
  have hinserted := h.claimed_inserted_of hpc rfl
  have hvalid : ∃ entry, (state.memory.headers header).lookup
      (state.memory.headers header).tail = some entry ∧
        ¬ Invalid state.memory.entries entry := by
    rcases Nat.lt_or_eq_of_le hknows.1 with hless | rfl
    · exact h.ring.tails header hless
    · exact h.tail_valid (by omega)
  exact h.look hpc rfl rfl rfl ⟨hknows, hvalid⟩

theorem loadBase (h : QueueInv noexceptCtor steps state map cur tickets)
    (hsteps : steps < 2 ^ 62) {index tail : UInt64} {header : Nat}
    (hpc : state.locals consumer = .loadingBase index header tail) :
    ∃ next, consumerStep noexceptAssign state.memory throws
        (.loadingBase index header tail) = some (state.memory, next) ∧
      QueueInv noexceptCtor (steps + 1)
        { state with locals := Function.update state.locals consumer next } map
        cur tickets := by
  have hknows := h.consumers consumer
  rw [hpc] at hknows
  obtain ⟨⟨hheader, hfirst, hentry⟩, tailEntry, htailEntry, hvalid⟩ := hknows
  have hinserted := h.claimed_inserted_of hpc rfl
  have hbounds := h.bounds
  obtain ⟨count, hcount, hcountLe, hkey, htail⟩ :=
    (h.ring.keyed hheader htailEntry).resolve_left hvalid
  have hsmall := h.inserted_bounds
  have hposition := BlockIndexHeader.position_toNat
    (h.ring.wellFormed header hheader) htail.symm (blockBase_toNat index) hkey
    hcount hfirst (by omega) (by omega)
  refine ⟨.loadingValue index (map.slot (index.toNat / 32)), ?_,
    h.look hpc rfl rfl rfl rfl⟩
  rw [BlockIndexHeader.entryAt, ← hposition] at hentry
  simp only [consumerStep, htailEntry, Option.bind_some, if_neg hvalid]
  rw [BlockIndexHeader.lookup, hentry]
  rfl

theorem loadValue (h : QueueInv noexceptCtor steps state map cur tickets)
    {index : UInt64} {entry : Nat}
    (hpc : state.locals consumer = .loadingValue index entry) :
    ∃ next, consumerStep noexceptAssign state.memory throws
        (.loadingValue index entry) = some (state.memory, next) ∧
      QueueInv noexceptCtor (steps + 1)
        { state with locals := Function.update state.locals consumer next } map
        cur tickets := by
  have hknows := h.consumers consumer
  rw [hpc] at hknows
  obtain ⟨-, -, hkey, hvalue⟩ := h.found hpc rfl rfl
  rw [← hknows] at hkey hvalue
  have hbase : (state.memory.entries entry).key = blockBase index :=
    UInt64.toNat_inj.mp (hkey.trans (blockBase_toNat index).symm)
  refine ⟨.moving index entry (map.block (index.toNat / 32)), ?_,
    h.look hpc rfl rfl rfl ⟨hknows, rfl⟩⟩
  simp [consumerStep, hbase, hvalue]

end QueueInv

/-! ## Taking the element -/

/-- The block map after one block has come to another phase. -/
def BlockMap.rephase (map : BlockMap consumers) (number : Nat)
    (phase : BlockPhase consumers) : BlockMap consumers :=
  { map with phase := Function.update map.phase number phase }

namespace BlockMap

variable {number other : Nat} {phase : BlockPhase consumers}

theorem rephase_self : (map.rephase number phase).phase number = phase :=
  Function.update_self ..

theorem rephase_of_ne (h : other ≠ number) :
    (map.rephase number phase).phase other = map.phase other :=
  Function.update_of_ne h ..

/-- Where the new phase satisfies no more than the old one, no block does. -/
theorem of_rephase {P : BlockPhase consumers → Prop}
    (h : P phase → P (map.phase number)) (other : Nat)
    (hother : P ((map.rephase number phase).phase other)) :
    P (map.phase other) := by
  by_cases hnumber : other = number
  · rw [hnumber, rephase_self] at hother
    rw [hnumber]
    exact h hother
  · rwa [rephase_of_ne hnumber] at hother

/-- Only the consumer of a block may come to know its new phase. -/
theorem rephase_others {consumer : Fin consumers}
    (h : ∀ other, other ≠ consumer → map.phase number ≠ .emptied other ∧
      map.phase number ≠ .retired other)
    {other : Fin consumers} (hother : other ≠ consumer) (number' : Nat)
    (hphase : map.phase number' = .emptied other ∨
      map.phase number' = .retired other) :
    (map.rephase number phase).phase number' = map.phase number' := by
  apply rephase_of_ne
  rintro rfl
  exact hphase.elim (h other hother).1 (h other hother).2

end BlockMap

theorem EnqueuePc.Knows.consume {header : BlockIndexHeader}
    {entries after : Nat → BlockIndexEntry} {used usedAfter : Nat → Bool}
    {blocks blocksAfter : Nat → Block T} {tail : UInt64}
    {tailBlock : Option Nat} {phase : Nat → BlockPhase consumers}
    {pc : EnqueuePc T}
    (h : pc.Knows noexceptCtor header entries used blocks tail tailBlock map cur)
    (hkeys : ∀ entry, (after entry).key = (entries entry).key)
    (hvalues : ∀ entry, (entries entry).value = none →
      (after entry).value = none)
    (hindexed : ∀ number, (phase number).Indexed → (map.phase number).Indexed)
    (hunfreed : ∀ number, (phase number).Unfreed → (map.phase number).Unfreed)
    (hfresh : ∀ block, FreshBlock used map block →
      usedAfter block = true ∧ blocksAfter block = blocks block)
    (htail : tail.toNat / 32 < map.inserted →
      (blocksAfter (map.block (tail.toNat / 32))).elements (tail.toNat % 32) =
        (blocks (map.block (tail.toNat / 32))).elements (tail.toNat % 32)) :
    pc.Knows noexceptCtor header after usedAfter blocksAfter tail tailBlock
      { map with phase := phase } cur := by
  have hsettled : Settled header entries (map.first cur) map.inserted →
      Settled header after (map.first cur) map.inserted := by
    intro hsettled
    refine ⟨hsettled.before, hsettled.tail_lt, ?_⟩
    intro entry hentry hkey
    rw [HasKey, hkeys] at hkey
    exact hvalues entry (hsettled.spot entry hentry hkey)
  have hfree : ∀ entry, FreeEntry map entry →
      FreeEntry { map with phase := phase } entry :=
    fun entry hfree number hnumber => hfree number (hindexed number hnumber)
  have hreserved : ∀ entry,
      Reserved header entries map (map.first cur) entry →
      Reserved header after { map with phase := phase } (map.first cur)
        entry := by
    intro entry hreserved
    refine ⟨hreserved.found, ?_, hfree entry hreserved.free⟩
    rw [HasKey, hkeys]
    exact hreserved.key
  have hstill : ∀ block, FreshBlock used map block →
      FreshBlock usedAfter { map with phase := phase } block :=
    fun block hblock => ⟨(hfresh block hblock).1,
      fun number hnumber => hblock.2 number (hunfreed number hnumber)⟩
  have hfilled : Filled tail.toNat tailBlock map →
      Filled tail.toNat tailBlock { map with phase := phase } :=
    fun hfilled => ⟨hfilled.inserted, hfilled.tailBlock⟩
  have hat : ∀ call : EnqueueCall T, AtBlock tail map call →
      AtBlock tail { map with phase := phase } call :=
    fun call hat => ⟨hat.current, hat.inserted⟩
  have hopened : ∀ call : EnqueueCall T, Opened tail tailBlock map call →
      Opened tail tailBlock { map with phase := phase } call :=
    fun call hopened => ⟨hopened.current, hopened.inserted, hopened.tailBlock⟩
  cases pc with
  | idle => exact ⟨hsettled h.1, hfilled h.2⟩
  | loadingHead call => exact ⟨hsettled h.1, hat call h.2⟩
  | inserting call => exact ⟨hsettled h.1, hat call h.2⟩
  | growing call =>
      obtain ⟨hbefore, hcall, oldest, hfull⟩ := h
      refine ⟨hsettled hbefore, hat call hcall, oldest, { hfull with key := ?_ }⟩
      intro entry hentry
      rw [HasKey, hkeys]
      exact hfull.key entry hentry
  | insertingNew call =>
      refine ⟨hsettled h.1, hat call h.2.1, ?_⟩
      intro entry hentry
      rw [Invalid, hkeys]
      exact h.2.2 entry hentry
  | storingKey call number entry newTail =>
      obtain ⟨hbefore, hcall, hcur, hentry, hnewTail, hentryFree⟩ := h
      exact ⟨hsettled hbefore, hat call hcall, hcur, hentry, hnewTail,
        hfree entry hentryFree⟩
  | storingTail call number entry newTail =>
      obtain ⟨hcall, hcur, hbefore, htailLess, hnewTail, hentry⟩ := h
      exact ⟨hat call hcall, hcur, hbefore, htailLess, hnewTail,
        hreserved entry hentry⟩
  | requisitioning call entry => exact ⟨hat call h.1, h.2.1, hreserved entry h.2.2⟩
  | resetting call entry block =>
      exact ⟨hat call h.1, h.2.1, hreserved entry h.2.2.1, hstill block h.2.2.2⟩
  | constructingFirst call entry block =>
      obtain ⟨hcall, htailAt, hentry, hblock, hzero⟩ := h
      refine ⟨hat call hcall, htailAt, hreserved entry hentry,
        hstill block hblock, ?_⟩
      rw [(hfresh block hblock).2]
      exact hzero
  | storingValue call entry block =>
      obtain ⟨hcall, htailAt, hentry, hblock, hzero, hfirst⟩ := h
      refine ⟨hat call hcall, htailAt, hreserved entry hentry,
        hstill block hblock, ?_⟩
      rw [(hfresh block hblock).2]
      exact ⟨hzero, hfirst⟩
  | rewinding entry block =>
      exact ⟨h.1, h.2.1, hreserved entry h.2.2.1,
        fun fresh hblock => hstill fresh (h.2.2.2 fresh hblock)⟩
  | clearing entry block =>
      exact ⟨h.1, h.2.1, h.2.2.1, hreserved entry h.2.2.2.1,
        fun fresh hblock => hstill fresh (h.2.2.2.2 fresh hblock)⟩
  | givingBack block => exact ⟨hsettled h.1, hfilled h.2.1, hstill block h.2.2⟩
  | constructing call => exact ⟨hsettled h.1, hopened call h.2.1, h.2.2⟩
  | publishing call =>
      refine ⟨hsettled h.1, hopened call h.2.1, ?_⟩
      rw [htail (h.2.1.inserted ▸ Nat.lt_succ_self _)]
      exact h.2.2

theorem Contents.rephase {tail head : Nat} {blocks : Nat → Block T}
    {accepted : List T} (h : Contents tail head blocks accepted locals map)
    (phase : Nat → BlockPhase consumers) :
    Contents tail head blocks accepted locals { map with phase := phase } :=
  ⟨h.length, h.there⟩

theorem ConsumerPc.Knows.rephase {headers : Nat → BlockIndexHeader}
    {entries : Nat → BlockIndexEntry} {accepted : List T}
    {phase : Nat → BlockPhase consumers}
    (h : pc.Knows headers entries accepted map cur consumer)
    (hphase : ∀ number, map.phase number = .emptied consumer ∨
      map.phase number = .retired consumer → phase number = map.phase number) :
    pc.Knows headers entries accepted { map with phase := phase } cur
      consumer := by
  cases pc with
  | counting | loadingTail | loadingBase | loadingValue | moving
  | settingEmpty => exact h
  | storingNull =>
      exact ⟨h.1, h.2.1, h.2.2.1, (hphase _ (.inl h.2.2.2)).trans h.2.2.2⟩
  | givingBack => exact ⟨h.1, h.2.1, (hphase _ (.inr h.2.2)).trans h.2.2⟩

/-- Two indices that are not dequeued are in different places. -/
theorem Stock.cell_ne {head : Nat} {used : Nat → Bool}
    {dequeued : Nat → UInt64} (h : Stock head used dequeued locals map)
    {index other : Nat} (hindex : map.phase (index / 32) = .live)
    (hother : map.phase (other / 32) = .live) (hne : other ≠ index) :
    map.block (other / 32) ≠ map.block (index / 32) ∨
      other % 32 ≠ index % 32 := by
  by_cases hsame : other / 32 = index / 32
  · exact .inr (by omega)
  · refine .inl fun hblock => hsame ?_
    exact h.apart _ _ (by rw [hother]; trivial) (by rw [hindex]; trivial) hblock

namespace QueueInv

/-- An index that is not taken is not where a claimed one is. -/
theorem apart_of_claimed (h : QueueInv noexceptCtor steps state map cur tickets)
    {index : UInt64} (hpc : state.locals consumer = pc)
    (hunmoved : pc.unmoved = some index) {other : Nat}
    (hother : map.phase (other / 32) = .live) (hne : other ≠ index.toNat) :
    map.block (other / 32) ≠ map.block (index.toNat / 32) ∨
      other % 32 ≠ blockOffset index := by
  have hlive := h.live hpc (ConsumerPc.pending_of_unmoved hunmoved)
    (ConsumerPc.counters_of_unmoved hunmoved)
  rw [blockOffset_eq]
  exact h.stock.cell_ne hlive hother hne

theorem contents_take (h : QueueInv noexceptCtor steps state map cur tickets)
    {index : UInt64} (hpc : state.locals consumer = pc)
    (hunmoved : pc.unmoved = some index) (hnext : next.unmoved = none) :
    Contents state.memory.counters.tailIndex.toNat
      state.memory.counters.headIndex.toNat
      (state.memory.setElement (map.block (index.toNat / 32)) index none).blocks
      state.memory.accepted (Function.update state.locals consumer next)
      map := by
  have hclaimed : (state.locals consumer).counters = .claimed index := by
    rw [hpc]
    exact ConsumerPc.counters_of_unmoved hunmoved
  have hless := h.claimed_lt hclaimed
  have hinserted := h.inserted_bounds
  refine ⟨h.contents.length, ?_⟩
  intro other hotherLess hwhere
  have hkept : map.phase (other / 32) = .live → other ≠ index.toNat →
      ((state.memory.setElement (map.block (index.toNat / 32)) index
        none).blocks (map.block (other / 32))).elements (other % 32) =
      (state.memory.blocks (map.block (other / 32))).elements (other % 32) := by
    intro hlive hne
    exact Memory.setElement_of_ne (h.apart_of_claimed hpc hunmoved hlive hne) none
  rcases hwhere with hle | ⟨thread, claimed, hthread, hvalue⟩
  · rw [hkept (h.stock.live_of_head_le hle (by omega)) (by omega)]
    exact h.contents.there other hotherLess (.inl hle)
  · have hne : thread ≠ consumer := by
      rintro rfl
      rw [Function.update_self, hnext] at hthread
      exact nomatch hthread
    rw [Function.update_of_ne hne] at hthread
    have hother := ConsumerPc.counters_of_unmoved hthread
    have hlive := h.live rfl (ConsumerPc.pending_of_unmoved hthread) hother
    rw [hvalue] at hlive
    rw [hkept hlive]
    · exact h.contents.there other hotherLess
        (.inr ⟨thread, claimed, hthread, hvalue⟩)
    · rintro rfl
      rw [UInt64.toNat_inj.mp hvalue] at hother
      exact hne (h.claimed_inj hother hclaimed)

theorem producer_take (h : QueueInv noexceptCtor steps state map cur tickets)
    {index : UInt64} (hpc : state.locals consumer = pc)
    (hunmoved : pc.unmoved = some index) :
    state.producer.Knows noexceptCtor (state.memory.headers cur)
      state.memory.entries state.memory.used
      (state.memory.setElement (map.block (index.toNat / 32)) index none).blocks
      state.memory.counters.tailIndex state.memory.tailBlock map cur := by
  have hlive := h.live hpc (ConsumerPc.pending_of_unmoved hunmoved)
    (ConsumerPc.counters_of_unmoved hunmoved)
  have hclaimed : (state.locals consumer).counters = .claimed index := by
    rw [hpc]
    exact ConsumerPc.counters_of_unmoved hunmoved
  have hless := h.claimed_lt hclaimed
  have hbounds := h.bounds
  refine h.producer.consume (fun _ => rfl) (fun _ => id) (fun _ => id)
    (fun _ => id) ?_ ?_
  · intro fresh hfresh
    have hapart : fresh ≠ map.block (index.toNat / 32) :=
      fun hsame => hfresh.2 _ (by rw [hlive]; trivial) hsame.symm
    exact ⟨hfresh.1, Function.update_of_ne hapart ..⟩
  · intro hinserted
    have hlast := h.stock.live_of_head_le hbounds.1 hinserted
    exact Memory.setElement_of_ne
      (h.apart_of_claimed hpc hunmoved hlast (by omega)) none

theorem moves (h : QueueInv noexceptCtor steps state map cur tickets)
    {index : UInt64} {entry block : Nat}
    (hpc : state.locals consumer = .moving index entry block) :
    ∃ element, consumerStep noexceptAssign state.memory throws
        (.moving index entry block) =
          some (state.memory.setElement block index none,
            .settingEmpty index entry block element
              (throws && !noexceptAssign)) ∧
      QueueInv noexceptCtor (steps + 1)
        { state with
          memory := state.memory.setElement block index none
          locals := Function.update state.locals consumer
            (.settingEmpty index entry block element
              (throws && !noexceptAssign)) } map cur tickets := by
  have hknows := h.consumers consumer
  rw [hpc] at hknows
  obtain ⟨hentry, rfl⟩ := hknows
  have hlive := h.live hpc rfl rfl
  have hclaimed : (state.locals consumer).counters = .claimed index := by
    rw [hpc]
    rfl
  have hless := h.claimed_lt hclaimed
  have hbounds := h.bounds
  have hlength := h.contents.length
  have hused := h.stock.used _ (by rw [hlive]; trivial)
  obtain ⟨element, helement⟩ : ∃ element,
      state.memory.accepted[index.toNat]? = some element :=
    ⟨_, List.getElem?_eq_getElem (by omega)⟩
  have hthere := h.contents.there index.toNat (by omega)
    (.inr ⟨consumer, index, by rw [hpc]; rfl, rfl⟩)
  rw [helement, ← blockOffset_eq] at hthere
  have hdequeued : (fun block => ((state.memory.setElement
      (map.block (index.toNat / 32)) index none).blocks
        block).elementsCompletelyDequeued) =
        fun block => (state.memory.blocks block).elementsCompletelyDequeued := by
    funext block
    exact Memory.setElement_dequeued none
  refine ⟨element, by simp [consumerStep, hused, hthere],
    h.ledger_update hpc rfl, ?_, h.slots, ?_, h.contents_take hpc rfl rfl,
    knows_update (fun other _ => h.consumers other) ⟨hentry, rfl, helement⟩,
    h.producer_take hpc rfl, h.delivered.update_locals hpc rfl (fun _ => id)⟩
  · exact h.ring.congr rfl rfl rfl rfl (fun _ => rfl) (fun _ => rfl)
      (fun _ _ => rfl) (fun _ => rfl)
  · rw [hdequeued]
    exact h.stock.update_locals hpc rfl

end QueueInv

/-! ## Counting the element as dequeued -/

namespace Stock

variable {head : Nat} {used : Nat → Bool} {dequeued : Nat → UInt64}
  {index : UInt64}

theorem count_empty (h : Stock head used dequeued locals map)
    (hpc : locals consumer = pc) (hpending : pc.pending = some index)
    (hnext : next.pending = none)
    (hlive : map.phase (index.toNat / 32) = .live) {number : Nat}
    (hunfreed : (map.phase number).Unfreed) :
    (Function.update dequeued (map.block (index.toNat / 32))
        (dequeued (map.block (index.toNat / 32)) + 1)
        (map.block number)).toNat +
      ∑ other, (Function.update locals consumer next other).pendingIn number =
    min 32 (head - 32 * number) := by
  have hcount := h.count number hunfreed
  have hless := h.live _ hlive
  have hsum := pendingIn_update hpc next number
  rw [pendingIn_of_some hpending, pendingIn_of_none hnext] at hsum
  by_cases hnumber : index.toNat / 32 = number
  · rw [if_pos hnumber] at hsum
    rw [hnumber] at hless
    rw [hnumber, Function.update_self, UInt64.toNat_add, UInt64.toNat_one]
    omega
  · rw [if_neg hnumber] at hsum
    have hblock : map.block number ≠ map.block (index.toNat / 32) :=
      fun hblock => hnumber
        (h.apart _ _ (by rw [hlive]; trivial) hunfreed hblock.symm)
    rw [Function.update_of_ne hblock]
    omega

theorem done_empty (h : Stock head used dequeued locals map)
    (hpc : locals consumer = pc) (hnext : next.pending = none) {number : Nat}
    (hcoming : map.phase number ≠ .coming) (hlive : map.phase number ≠ .live) :
    32 * number + 32 ≤ head ∧
      ∑ other, (Function.update locals consumer next other).pendingIn number =
        0 := by
  obtain ⟨hle, hnone⟩ := h.done number hcoming hlive
  have hsum := pendingIn_update hpc next number
  rw [pendingIn_of_none hnext] at hsum
  exact ⟨hle, by omega⟩

theorem empty (h : Stock head used dequeued locals map)
    (hpc : locals consumer = pc) (hpending : pc.pending = some index)
    (hnext : next.pending = none)
    (hlive : map.phase (index.toNat / 32) = .live)
    (hmore : (dequeued (map.block (index.toNat / 32))).toNat < 31) :
    Stock head used
      (Function.update dequeued (map.block (index.toNat / 32))
        (dequeued (map.block (index.toNat / 32)) + 1))
      (Function.update locals consumer next) map := by
  refine { h with
    count := fun number => h.count_empty hpc hpending hnext hlive
    live := ?_
    done := fun number => h.done_empty hpc hnext }
  intro number hnumber
  by_cases hblock : map.block number = map.block (index.toNat / 32)
  · rw [hblock, Function.update_self, UInt64.toNat_add, UInt64.toNat_one]
    omega
  · rw [Function.update_of_ne hblock]
    exact h.live number hnumber

/-- With the last element of a block its consumer may retire it. -/
theorem empty_last (h : Stock head used dequeued locals map)
    (hpc : locals consumer = pc) (hpending : pc.pending = some index)
    (hnext : next.pending = none)
    (hlive : map.phase (index.toNat / 32) = .live)
    (hlast : (dequeued (map.block (index.toNat / 32))).toNat = 31) :
    Stock head used
      (Function.update dequeued (map.block (index.toNat / 32))
        (dequeued (map.block (index.toNat / 32)) + 1))
      (Function.update locals consumer next)
      (map.rephase (index.toNat / 32) (.emptied consumer)) := by
  have hunfreed : ∀ number, ((map.rephase (index.toNat / 32)
      (.emptied consumer)).phase number).Unfreed → (map.phase number).Unfreed :=
    BlockMap.of_rephase fun _ => by rw [hlive]; trivial
  have hold : ∀ number, number ≠ index.toNat / 32 →
      (map.rephase (index.toNat / 32) (.emptied consumer)).phase number =
        map.phase number :=
    fun number hne => BlockMap.rephase_of_ne hne
  refine ⟨?_, ?_, ?_, ?_, ?_, ?_⟩
  · intro number
    by_cases hne : number = index.toNat / 32
    · have hbefore := h.coming number
      rw [hne, hlive] at hbefore
      rw [hne, BlockMap.rephase_self]
      exact ⟨nofun, fun hle => nomatch hbefore.mpr hle⟩
    · rw [hold number hne]
      exact h.coming number
  · exact fun number hnumber => h.used number (hunfreed number hnumber)
  · exact fun number other hnumber hother =>
      h.apart number other (hunfreed number hnumber) (hunfreed other hother)
  · exact fun number hnumber =>
      h.count_empty hpc hpending hnext hlive (hunfreed number hnumber)
  · intro number hnumber
    have hne : number ≠ index.toNat / 32 := by
      rintro rfl
      rw [BlockMap.rephase_self] at hnumber
      exact nomatch hnumber
    rw [hold number hne] at hnumber
    have hblock : map.block number ≠ map.block (index.toNat / 32) :=
      fun hblock => hne (h.apart _ _ (by rw [hnumber]; trivial)
        (by rw [hlive]; trivial) hblock)
    change (Function.update dequeued _ _ (map.block number)).toNat < 32
    rw [Function.update_of_ne hblock]
    exact h.live number hnumber
  · intro number hcoming hgone
    by_cases hne : number = index.toNat / 32
    · have hcount := h.count (index.toNat / 32) (by rw [hlive]; trivial)
      have hsum := pendingIn_update hpc next (index.toNat / 32)
      rw [pendingIn_of_none hnext, pendingIn_of_some hpending,
        if_pos rfl] at hsum
      rw [hne]
      omega
    · rw [hold number hne] at hcoming hgone
      exact h.done_empty hpc hnext hcoming hgone

/-- A block that has been emptied goes out of the index and then back to the
pool. -/
theorem rephase (h : Stock head used dequeued locals map)
    {phase : Nat → BlockPhase consumers} {usedAfter : Nat → Bool}
    (hcoming : ∀ number, phase number = .coming ↔ map.phase number = .coming)
    (hlive : ∀ number, phase number = .live ↔ map.phase number = .live)
    (hunfreed : ∀ number, (phase number).Unfreed →
      (map.phase number).Unfreed ∧
        usedAfter (map.block number) = used (map.block number)) :
    Stock head usedAfter dequeued locals { map with phase := phase } where
  coming number := (hcoming number).trans (h.coming number)
  used number hnumber := by
    obtain ⟨hbefore, hsame⟩ := hunfreed number hnumber
    exact hsame.trans (h.used number hbefore)
  apart number other hnumber hother :=
    h.apart number other (hunfreed number hnumber).1 (hunfreed other hother).1
  count number hnumber := h.count number (hunfreed number hnumber).1
  live number hnumber := h.live number ((hlive number).mp hnumber)
  done number hnumber hgone :=
    h.done number (fun hbefore => hnumber ((hcoming number).mpr hbefore))
      (fun hbefore => hgone ((hlive number).mpr hbefore))

end Stock

theorem Delivered.take {head index : UInt64} {accepted : List T}
    {taken : List (Taken T)} {element : T} {lost : Bool}
    (h : Delivered head accepted taken locals)
    (hpc : locals consumer = pc) (hclaimed : pc.counters = .claimed index)
    (hless : index.toNat < head.toNat)
    (helement : accepted[index.toNat]? = some element)
    (hsole : ∀ other, (locals other).counters = .claimed index →
      other = consumer) :
    Delivered head accepted (taken ++ [⟨index, element, lost⟩])
      (Function.update locals consumer (.counting .idle)) := by
  have hself : (locals consumer).counters = .claimed index := by
    rw [hpc]
    exact hclaimed
  have hidle : (ConsumerPc.counting .idle : ConsumerPc T).claims = 0 := rfl
  have hone : pc.claims = 1 := by
    rw [ConsumerPc.claims, hclaimed]
  have hsum := claims_update hpc (.counting .idle)
  have hcount := h.count
  refine ⟨?_, ?_, ?_, ?_⟩
  · rw [List.map_append, List.nodup_append]
    refine ⟨h.nodup, List.nodup_singleton index, ?_⟩
    rintro first hfirst second hsecond rfl
    obtain ⟨entry, hentry, hentryIndex⟩ := List.mem_map.mp hfirst
    have hnone := (h.claimed entry hentry).2 consumer
    rw [hentryIndex, List.mem_singleton.mp hsecond] at hnone
    exact hnone hself
  · intro entry hentry
    rcases List.mem_append.mp hentry with hbefore | hnew
    · exact h.right entry hbefore
    · rw [List.mem_singleton.mp hnew]
      exact helement
  · intro entry hentry
    rcases List.mem_append.mp hentry with hbefore | hnew
    · refine ⟨(h.claimed entry hbefore).1, ?_⟩
      intro other
      by_cases hother : other = consumer
      · rw [hother, Function.update_self]
        exact nofun
      · rw [Function.update_of_ne hother]
        exact (h.claimed entry hbefore).2 other
    · rw [List.mem_singleton.mp hnew]
      refine ⟨hless, ?_⟩
      intro other
      by_cases hother : other = consumer
      · rw [hother, Function.update_self]
        exact nofun
      · rw [Function.update_of_ne hother]
        exact fun hclaims => hother (hsole other hclaims)
  · rw [List.length_append, List.length_singleton]
    omega

/-- What a consumer knows of an entry is its key. -/
theorem ConsumerPc.Knows.setValue {memory : Memory T}
    (h : pc.Knows memory.headers memory.entries memory.accepted map cur consumer)
    (entry : Nat) (value : Option Nat) :
    pc.Knows memory.headers (memory.setValue entry value).entries
      memory.accepted map cur consumer := by
  cases pc with
  | loadingBase =>
      obtain ⟨hheader, tailEntry, htail, hvalid⟩ := h
      refine ⟨hheader, tailEntry, htail, ?_⟩
      rw [Memory.setValue_key]
      exact hvalid
  | counting | loadingTail | loadingValue | moving | settingEmpty | storingNull
  | givingBack => exact h

namespace QueueInv

theorem ledger_done (h : QueueInv noexceptCtor steps state map cur tickets)
    (hpc : state.locals consumer = pc) {index : UInt64}
    (hclaimed : pc.counters = .claimed index) :
    Ledger (steps + 1) ⟨state.memory.counters, fun other =>
      (Function.update state.locals consumer (.counting .idle)
        other).counters⟩ tickets := by
  have hold : state.counterPool.locals consumer = .claimed index := by
    rw [← hclaimed, ← hpc]
    rfl
  rw [counterPool_update]
  refine Ledger.mono (h.ledger.move hold ?_ ?_ ?_ trivial fun _ => trivial)
  · rfl
  · rfl
  · rfl

theorem delivered_take
    (h : QueueInv noexceptCtor steps state map cur tickets)
    (hpc : state.locals consumer = pc) {index : UInt64}
    (hclaimed : pc.counters = .claimed index) {element : T} {lost : Bool}
    (helement : state.memory.accepted[index.toNat]? = some element) :
    Delivered state.memory.counters.headIndex state.memory.accepted
      (state.memory.taken ++ [⟨index, element, lost⟩])
      (Function.update state.locals consumer (.counting .idle)) := by
  have hself : (state.locals consumer).counters = .claimed index := by
    rw [hpc]
    exact hclaimed
  exact h.delivered.take hpc hclaimed (h.claimed_lt hself) helement
    (fun other hother => h.claimed_inj hother hself)

theorem emptied (h : QueueInv noexceptCtor steps state map cur tickets)
    {number : Nat} {count : UInt64} {taken : List (Taken T)}
    {phase : Nat → BlockPhase consumers} (hlive : map.phase number = .live)
    (hunmoved : next.unmoved = none)
    (hindexed : ∀ number, (phase number).Indexed → (map.phase number).Indexed)
    (hunfreed : ∀ number, (phase number).Unfreed → (map.phase number).Unfreed)
    (hothers : ∀ other, other ≠ consumer → ∀ number,
      map.phase number = .emptied other ∨ map.phase number = .retired other →
      phase number = map.phase number)
    (hledger : Ledger (steps + 1) ⟨state.memory.counters,
      fun other => (Function.update state.locals consumer next other).counters⟩
      tickets)
    (hstock : Stock state.memory.counters.headIndex.toNat state.memory.used
      (Function.update
        (fun block => (state.memory.blocks block).elementsCompletelyDequeued)
        (map.block number) count)
      (Function.update state.locals consumer next) { map with phase := phase })
    (hself : next.Knows state.memory.headers state.memory.entries
      state.memory.accepted { map with phase := phase } cur consumer)
    (hdelivered : Delivered state.memory.counters.headIndex
      state.memory.accepted taken
      (Function.update state.locals consumer next)) :
    QueueInv noexceptCtor (steps + 1)
      { state with
        memory :=
          { state.memory.setCompletelyDequeued (map.block number) count with
            taken := taken }
        locals := Function.update state.locals consumer next }
      { map with phase := phase } cur tickets := by
  have hdequeued : (fun block => ((state.memory.setCompletelyDequeued
      (map.block number) count).blocks block).elementsCompletelyDequeued) =
        Function.update
          (fun block => (state.memory.blocks block).elementsCompletelyDequeued)
          (map.block number) count := by
    funext block
    by_cases hblock : block = map.block number
    · rw [hblock, Memory.setCompletelyDequeued_self, Function.update_self]
    · rw [Memory.setCompletelyDequeued_of_ne hblock,
        Function.update_of_ne hblock]
  rw [← hdequeued] at hstock
  refine ⟨hledger, ?_,
    fun number hnumber => h.slots number (hindexed number hnumber), hstock, ?_, knows_update (fun other hother =>
      (h.consumers other).rephase (hothers other hother)) hself, ?_, hdelivered⟩
  · exact h.ring.congr rfl rfl rfl rfl (fun _ => rfl) (fun _ => rfl)
      (fun _ _ => rfl) (fun _ => rfl)
  · have hcontents : Contents _ _ _ _ (Function.update state.locals consumer _)
      map := h.contents.forget hunmoved
    refine ⟨hcontents.length, fun index hless hwhere => ?_⟩
    change ((state.memory.setCompletelyDequeued (map.block number) count).blocks
      (map.block (index / 32))).elements (index % 32) = _
    rw [Memory.setCompletelyDequeued_elements]
    exact hcontents.there index hless hwhere
  · refine h.producer.consume (fun _ => rfl) (fun _ => id) hindexed hunfreed ?_ ?_
    · intro fresh hfresh
      have hapart : fresh ≠ map.block number :=
        fun hsame => hfresh.2 _ (by rw [hlive]; trivial) hsame.symm
      exact ⟨hfresh.1, Memory.setCompletelyDequeued_of_ne hapart count⟩
    · intro _
      change ((state.memory.setCompletelyDequeued (map.block number)
        count).blocks _).elements _ = _
      rw [Memory.setCompletelyDequeued_elements]

theorem empties (h : QueueInv noexceptCtor steps state map cur tickets)
    {index : UInt64} {entry block : Nat} {element : T} {lost : Bool}
    (hpc : state.locals consumer =
      .settingEmpty index entry block element lost) :
    ∃ after next, consumerStep noexceptAssign state.memory throws
        (.settingEmpty index entry block element lost) = some (after, next) ∧
      ∃ phase, QueueInv noexceptCtor (steps + 1)
        { state with
          memory := after
          locals := Function.update state.locals consumer next }
        { map with phase := phase } cur tickets := by
  have hknows := h.consumers consumer
  rw [hpc] at hknows
  obtain ⟨hentry, rfl, helement⟩ := hknows
  have hlive := h.live hpc rfl rfl
  have hused := h.stock.used _ (by rw [hlive]; trivial)
  have hdequeued := h.stock.live _ hlive
  have hless : (state.memory.blocks
      (map.block (index.toNat / 32))).elementsCompletelyDequeued < BLOCK_SIZE :=
    UInt64.lt_iff_toNat_lt.mpr hdequeued
  by_cases hlast : (state.memory.blocks
      (map.block (index.toNat / 32))).elementsCompletelyDequeued = BLOCK_SIZE - 1
  · have hstep : consumerStep noexceptAssign state.memory throws
        (.settingEmpty index entry (map.block (index.toNat / 32)) element
          lost) =
        some (state.memory.setCompletelyDequeued (map.block (index.toNat / 32))
          ((state.memory.blocks
            (map.block (index.toNat / 32))).elementsCompletelyDequeued + 1),
          .storingNull index entry (map.block (index.toNat / 32)) element
            lost) := by
      rw [consumerStep, if_pos (by simp [hused, hless]), if_pos hlast]
    refine ⟨_, _, hstep, _, h.emptied hlive rfl
      (BlockMap.of_rephase fun _ => by rw [hlive]; trivial)
      (BlockMap.of_rephase fun _ => by rw [hlive]; trivial)
      (fun other hother => BlockMap.rephase_others ?_ hother)
      (h.ledger_update hpc rfl)
      (h.stock.empty_last hpc rfl rfl hlive (congrArg UInt64.toNat hlast))
      ⟨hentry, rfl, helement, BlockMap.rephase_self⟩
      (h.delivered.update_locals hpc rfl (fun _ => id))⟩
    rw [hlive]
    exact fun _ _ => ⟨nofun, nofun⟩
  · have hmore : (state.memory.blocks
        (map.block (index.toNat / 32))).elementsCompletelyDequeued.toNat ≠ 31 :=
      fun heq => hlast (UInt64.toNat_inj.mp heq)
    have hstep : consumerStep noexceptAssign state.memory throws
        (.settingEmpty index entry (map.block (index.toNat / 32)) element
          lost) =
        some ((state.memory.setCompletelyDequeued (map.block (index.toNat / 32))
          ((state.memory.blocks (map.block
            (index.toNat / 32))).elementsCompletelyDequeued + 1)).take
              ⟨index, element, lost⟩, .counting .idle) := by
      rw [consumerStep, if_pos (by simp [hused, hless]), if_neg hlast]
    exact ⟨_, _, hstep, map.phase, h.emptied hlive rfl (fun _ => id)
      (fun _ => id) (fun _ _ _ _ => rfl) (h.ledger_done hpc rfl)
      (h.stock.empty hpc rfl rfl hlive (by omega)) trivial
      (h.delivered_take hpc rfl helement)⟩

/-! ## Giving the block back -/

theorem ring_setValue (h : QueueInv noexceptCtor steps state map cur tickets)
    (entry : Nat) (value : Option Nat) :
    Ring (state.memory.setValue entry value) map.first cur map.inserted :=
  h.ring.congr rfl rfl rfl rfl (fun _ => rfl) (fun _ => rfl) (fun _ _ => rfl)
    (fun _ => Memory.setValue_key value)

theorem unlinks (h : QueueInv noexceptCtor steps state map cur tickets)
    {index : UInt64} {entry block : Nat} {element : T} {lost : Bool}
    (hpc : state.locals consumer =
      .storingNull index entry block element lost) :
    QueueInv noexceptCtor (steps + 1)
      { state with
        memory := state.memory.setValue entry none
        locals := Function.update state.locals consumer
          (.givingBack index block element lost) }
      (map.rephase (index.toNat / 32) (.retired consumer)) cur tickets := by
  have hknows := h.consumers consumer
  rw [hpc] at hknows
  obtain ⟨rfl, hblock, helement, hphase⟩ := hknows
  have hkey := (h.slots _ (by rw [hphase]; trivial)).2.2.1
  have hslots : Slots (state.memory.headers cur)
      (state.memory.setValue (map.slot (index.toNat / 32)) none).entries
      (map.rephase (index.toNat / 32) (.retired consumer)) (map.first cur) := by
    intro number hnumber
    have hne : number ≠ index.toNat / 32 := by
      rintro rfl
      rw [BlockMap.rephase_self] at hnumber
      exact hnumber
    rw [BlockMap.rephase_of_ne hne] at hnumber
    have hslot := h.slots number hnumber
    have hapart : map.slot number ≠ map.slot (index.toNat / 32) := by
      intro hsame
      have hother := hslot.2.2.1
      rw [hsame] at hother
      omega
    refine ⟨hslot.1, hslot.2.1, ?_⟩
    change (Memory.entries _ (map.slot number)).key.toNat = _ ∧
      (Memory.entries _ (map.slot number)).value = _
    rw [Memory.setValue_of_ne hapart]
    exact hslot.2.2
  have hunfreed : ∀ number, ((map.rephase (index.toNat / 32)
      (.retired consumer)).phase number).Unfreed → (map.phase number).Unfreed :=
    BlockMap.of_rephase fun _ => by rw [hphase]; trivial
  have hphases : ∀ phase : BlockPhase consumers, phase = .coming ∨
      phase = .live → ∀ number, (map.rephase (index.toNat / 32)
        (.retired consumer)).phase number = phase ↔
          map.phase number = phase := by
    intro phase hcases number
    by_cases hne : number = index.toNat / 32
    · rw [hne, BlockMap.rephase_self, hphase]
      rcases hcases with rfl | rfl <;> exact ⟨nofun, nofun⟩
    · rw [BlockMap.rephase_of_ne hne]
  refine ⟨h.ledger_update hpc rfl, h.ring_setValue _ none, hslots,
    (h.stock.rephase (hphases _ (.inl rfl)) (hphases _ (.inr rfl))
      fun number hnumber => ⟨hunfreed number hnumber, rfl⟩).update_locals hpc rfl,
    (h.contents.forget rfl).rephase _, knows_update ?_ ?_, ?_,
    h.delivered.update_locals hpc rfl (fun _ => id)⟩
  · intro other hother
    refine ((h.consumers other).setValue _ none).rephase
      (BlockMap.rephase_others ?_ hother)
    intro other hother
    rw [hphase]
    exact ⟨fun hsame => hother (BlockPhase.emptied.inj hsame).symm, nofun⟩
  · exact ⟨hblock, helement, BlockMap.rephase_self⟩
  · refine h.producer.consume (fun _ => Memory.setValue_key none) ?_
      (BlockMap.of_rephase ?_) hunfreed (fun _ hfresh => ⟨hfresh.1, rfl⟩)
      (fun _ => rfl)
    · intro entry hnone
      by_cases hentry : entry = map.slot (index.toNat / 32)
      · rw [hentry]
        exact Memory.setValue_self none
      · rw [Memory.setValue_of_ne hentry]
        exact hnone
    · exact False.elim

theorem givesBack (h : QueueInv noexceptCtor steps state map cur tickets)
    {index : UInt64} {block : Nat} {element : T} {lost : Bool}
    (hpc : state.locals consumer = .givingBack index block element lost) :
    consumerStep noexceptAssign state.memory throws
        (.givingBack index block element lost) =
          some ((state.memory.setUsed block false).take ⟨index, element, lost⟩,
            .counting .idle) ∧
      QueueInv noexceptCtor (steps + 1)
        { state with
          memory :=
            (state.memory.setUsed block false).take ⟨index, element, lost⟩
          locals := Function.update state.locals consumer (.counting .idle) }
        (map.rephase (index.toNat / 32) .freed) cur tickets := by
  have hknows := h.consumers consumer
  rw [hpc] at hknows
  obtain ⟨rfl, helement, hphase⟩ := hknows
  have hused := h.stock.used _ (by rw [hphase]; trivial)
  have hunfreed : ∀ number, ((map.rephase (index.toNat / 32)
      .freed).phase number).Unfreed → (map.phase number).Unfreed ∧
        (state.memory.setUsed (map.block (index.toNat / 32)) false).used
          (map.block number) = state.memory.used (map.block number) := by
    intro number hnumber
    have hne : number ≠ index.toNat / 32 := by
      rintro rfl
      rw [BlockMap.rephase_self] at hnumber
      exact hnumber
    rw [BlockMap.rephase_of_ne hne] at hnumber
    refine ⟨hnumber, Memory.setUsed_of_ne ?_ false⟩
    exact fun hsame => hne
      (h.stock.apart _ _ hnumber (by rw [hphase]; trivial) hsame)
  have hindexed : ∀ number, ((map.rephase (index.toNat / 32)
      .freed).phase number).Indexed → (map.phase number).Indexed :=
    BlockMap.of_rephase False.elim
  have hphases : ∀ phase : BlockPhase consumers, phase = .coming ∨
      phase = .live → ∀ number, (map.rephase (index.toNat / 32)
        .freed).phase number = phase ↔ map.phase number = phase := by
    intro phase hcases number
    by_cases hne : number = index.toNat / 32
    · rw [hne, BlockMap.rephase_self, hphase]
      rcases hcases with rfl | rfl <;> exact ⟨nofun, nofun⟩
    · rw [BlockMap.rephase_of_ne hne]
  refine ⟨if_pos hused, h.ledger_done hpc rfl, ?_,
    fun number hnumber => h.slots number (hindexed number hnumber),
    (h.stock.rephase (hphases _ (.inl rfl)) (hphases _ (.inr rfl))
      hunfreed).update_locals hpc rfl,
    (h.contents.forget rfl).rephase _, knows_update ?_ trivial, ?_,
    h.delivered_take hpc rfl helement⟩
  · exact h.ring.congr rfl rfl rfl rfl (fun _ => rfl) (fun _ => rfl)
      (fun _ _ => rfl) (fun _ => rfl)
  · intro other hother
    refine (h.consumers other).rephase (BlockMap.rephase_others ?_ hother)
    intro other hother
    rw [hphase]
    exact ⟨nofun, fun hsame => hother (BlockPhase.retired.inj hsame).symm⟩
  · refine h.producer.consume (fun _ => rfl) (fun _ => id) hindexed
      (fun number hnumber => (hunfreed number hnumber).1) ?_ (fun _ => rfl)
    intro fresh hfresh
    have hapart : fresh ≠ map.block (index.toNat / 32) :=
      fun hsame => hfresh.2 _ (by rw [hphase]; trivial) hsame.symm
    exact ⟨(Memory.setUsed_of_ne hapart false).trans hfresh.1, rfl⟩

/-! ## Every step of a consumer -/

theorem count_step (h : QueueInv noexceptCtor steps state map cur tickets)
    (hsteps : steps < 2 ^ 62) {pc : DequeuePc}
    (hpc : state.locals consumer = .counting pc)
    (hclaimed : ∀ index, pc ≠ .claimed index) :
    ∃ counters moved, consumerStep noexceptAssign state.memory throws
        (.counting pc) =
          some ({ state.memory with counters := counters }, .counting moved) ∧
      ∃ decided, QueueInv noexceptCtor (steps + 1)
        { state with
          memory := { state.memory with counters := counters }
          locals := Function.update state.locals consumer (.counting moved) }
        map cur decided := by
  have hlocal : state.counterPool.locals consumer = pc :=
    congrArg ConsumerPc.counters hpc
  have hcases := dequeueStep_cases state.memory.counters pc
  obtain ⟨decided, hledger⟩ := h.ledger.dequeue (by omega) hlocal hcases
  refine ⟨_, _, consumerStep_counting _ hclaimed, decided, ?_⟩
  by_cases hclaiming : pc = .claiming
  · subst hclaiming
    exact h.claims hpc hsteps hledger
  · obtain ⟨htail, hhead, hmoved⟩ := hcases.quiet hclaiming
    exact h.counts hpc hclaimed hmoved htail hhead hledger

/-- A step of a consumer is defined and keeps the invariant. -/
theorem dequeue (h : QueueInv noexceptCtor steps state map cur tickets)
    (hsteps : steps < 2 ^ 62) (noexceptAssign throws : Bool)
    (consumer : Fin consumers) :
    ∃ after next, consumerStep noexceptAssign state.memory throws
        (state.locals consumer) = some (after, next) ∧
      ∃ map decided, QueueInv noexceptCtor (steps + 1)
        { state with
          memory := after
          locals := Function.update state.locals consumer next }
        map cur decided := by
  cases hpc : state.locals consumer with
  | counting pc =>
      by_cases hclaimed : ∃ index, pc = .claimed index
      · obtain ⟨index, rfl⟩ := hclaimed
        obtain ⟨next, hstep, hnext⟩ := h.loadIndex hpc
        exact ⟨_, next, hstep, map, tickets, hnext⟩
      · obtain ⟨counters, moved, hstep, decided, hnext⟩ := h.count_step hsteps hpc
          (fun index heq => hclaimed ⟨index, heq⟩)
        exact ⟨_, _, hstep, map, decided, hnext⟩
  | loadingTail index header =>
      exact ⟨_, _, rfl, map, tickets, h.loadTail hpc⟩
  | loadingBase index header tail =>
      obtain ⟨next, hstep, hnext⟩ := h.loadBase hsteps hpc
      exact ⟨_, next, hstep, map, tickets, hnext⟩
  | loadingValue index entry =>
      obtain ⟨next, hstep, hnext⟩ := h.loadValue hpc
      exact ⟨_, next, hstep, map, tickets, hnext⟩
  | moving index entry block =>
      obtain ⟨element, hstep, hnext⟩ := h.moves hpc
      exact ⟨_, _, hstep, map, tickets, hnext⟩
  | settingEmpty index entry block element lost =>
      obtain ⟨after, next, hstep, phase, hnext⟩ := h.empties hpc
      exact ⟨after, next, hstep, _, tickets, hnext⟩
  | storingNull index entry block element lost =>
      exact ⟨_, _, rfl, _, tickets, h.unlinks hpc⟩
  | givingBack index block element lost =>
      obtain ⟨hstep, hnext⟩ := h.givesBack hpc
      exact ⟨_, _, hstep, _, tickets, hnext⟩

end QueueInv

end CandCpp.Queue
