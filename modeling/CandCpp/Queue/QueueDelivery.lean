import CandCpp.Queue.QueueProducer

/-!
# What the queue of one producer delivers

The run lemma of the invariant, and what a user of the queue may rely on:
every element that was accepted gets to at most one consumer and is lost only
where its assignment throws, a single consumer gets them in their order, and a
consumer that has claimed an element gets it whatever the other threads do.
-/

namespace CandCpp.Queue

open CandCpp.Foundation

variable {T : Type} {consumers : Nat} {noexceptCtor noexceptAssign : Bool}
  {steps : Nat} {state next : QueueState T consumers}

/-! ## The constructor -/

theorem delivered_initial :
    Delivered 0 ([] : List T) [] (fun _ : Fin consumers => .counting .idle) :=
  ⟨List.nodup_nil, nofun, nofun,
    Nat.add_eq_zero_iff.mpr ⟨rfl, Finset.sum_eq_zero fun _ _ => rfl⟩⟩

theorem queueInv_initial {memory : Memory T} (h : Unused memory) :
    QueueInv noexceptCtor 0
      (⟨memory.addBlockIndex [], .idle, fun _ => .counting .idle⟩ :
        QueueState T consumers)
      ⟨0, fun _ => 0, fun _ => 0, fun _ => 0, fun _ => .coming⟩ 0 .none := by
  obtain ⟨hring, hbefore, hless, hinvalid⟩ := ring_initial h
  have hcounters : (memory.addBlockIndex []).counters = .initial := h.counters
  have haccepted : (memory.addBlockIndex []).accepted = [] := h.accepted
  have htaken : (memory.addBlockIndex []).taken = [] := h.taken
  refine ⟨?_, hring, fun _ => False.elim, ?_, ?_, fun _ => trivial, ?_, ?_⟩
  · rw [QueueState.counterPool, hcounters]
    exact ledger_initial
  · refine ⟨fun number => ⟨fun _ => Nat.zero_le number, fun _ => rfl⟩,
      fun _ => False.elim, fun _ _ => False.elim, fun _ => False.elim, ?_,
      fun _ hcoming => absurd rfl hcoming⟩
    intro number hlive
    cases hlive
  · rw [hcounters, haccepted]
    exact ⟨rfl, fun _ hless => absurd hless (Nat.not_lt_zero _)⟩
  · rw [hcounters]
    refine ⟨⟨hbefore, hless, ?_⟩, rfl, fun hne => absurd rfl hne⟩
    exact fun entry hentry hkey =>
      absurd (hinvalid 0 entry hentry) hkey.not_invalid
  · rw [hcounters, haccepted, htaken]
    exact delivered_initial

/-- The memory of a queue of which nothing has been allocated. -/
def Memory.unallocated (T : Type) : Memory T where
  counters := .initial
  blocks := fun _ => ⟨fun _ => none, 0⟩
  used := fun _ => false
  entries := fun _ => ⟨0, none⟩
  entryCount := 0
  headers := fun _ => ⟨0, 0, []⟩
  headerCount := 0
  blockIndex := none
  nextBlockIndexCapacity := IMPLICIT_INITIAL_INDEX_SIZE
  tailBlock := none
  accepted := []
  taken := []

def QueueState.constructed (T : Type) (consumers : Nat) :
    QueueState T consumers :=
  ⟨(Memory.unallocated T).addBlockIndex [], .idle, fun _ => .counting .idle⟩

theorem constructed_initial (noexceptCtor noexceptAssign : Bool) (T : Type)
    (consumers : Nat) :
    (queueSystem noexceptCtor noexceptAssign T consumers).Initial
      (.constructed T consumers) := by
  have hunused : Unused (Memory.unallocated T) :=
    ⟨rfl, rfl, rfl, rfl, rfl, rfl, rfl, rfl⟩
  exact ⟨_, hunused, .inr (newBlockIndex_initial hunused), rfl, rfl⟩

namespace EnqueuePc

/-- Without a block index `enqueue` gets no further than looking for it. -/
def Fails : EnqueuePc T → Prop
  | .idle => True
  | .loadingHead call | .inserting call => call.currentTailIndex = 0
  | _ => False

end EnqueuePc

/-- The constructor had no memory for its block index. -/
structure Indexless (steps : Nat) (state : QueueState T consumers)
    (tickets : Tickets) : Prop where
  ledger : Ledger steps state.counterPool tickets
  tail : state.memory.counters.tailIndex = 0
  blockIndex : state.memory.blockIndex = none
  accepted : state.memory.accepted = []
  taken : state.memory.taken = []
  producer : state.producer.Fails
  consumers : ∀ consumer, ∃ pc, state.locals consumer = .counting pc

namespace Indexless

variable {tickets : Tickets}

theorem initial {memory : Memory T} (h : Unused memory) :
    Indexless 0
      (⟨memory, .idle, fun _ => .counting .idle⟩ : QueueState T consumers)
      .none := by
  refine ⟨?_, ?_, h.blockIndex, h.accepted, h.taken, trivial,
    fun _ => ⟨.idle, rfl⟩⟩
  · rw [QueueState.counterPool, h.counters]
    exact ledger_initial
  · rw [h.counters]
    rfl

/-- There is no index to claim. -/
theorem head (h : Indexless steps state tickets) :
    state.memory.counters.headIndex.toNat = 0 ∧
      ∑ consumer, (state.locals consumer).counters.grants = 0 := by
  have hle : state.memory.counters.headIndex.toNat +
      ∑ consumer, (state.locals consumer).counters.grants ≤
        state.memory.counters.tailIndex.toNat := h.ledger.head_add_grants_le
  rw [h.tail, UInt64.toNat_zero] at hle
  omega

theorem unclaimed (h : Indexless steps state tickets)
    (consumer : Fin consumers) (index : UInt64) :
    (state.locals consumer).counters ≠ .claimed index := by
  intro hclaimed
  have hremembers := h.ledger.remembers consumer
  simp only [QueueState.counterPool, hclaimed] at hremembers
  exact absurd hremembers (by rw [DequeuePc.Remembers, h.head.1]; omega)

theorem delivered (h : Indexless steps state tickets) :
    Delivered state.memory.counters.headIndex state.memory.accepted
      state.memory.taken state.locals := by
  rw [h.taken, h.accepted]
  refine ⟨List.nodup_nil, nofun, nofun, ?_⟩
  rw [h.head.1, List.length_nil, Nat.zero_add]
  apply Finset.sum_eq_zero
  intro consumer _
  cases hpc : (state.locals consumer).counters with
  | claimed index => exact absurd hpc (h.unclaimed consumer index)
  | idle | loadingOvercommit | testing | committing | reloadingTail | claiming
  | overcommitting => rw [ConsumerPc.claims, hpc]

theorem dequeue (h : Indexless steps state tickets) (hsteps : steps < 2 ^ 62)
    (noexceptAssign throws : Bool) (consumer : Fin consumers) :
    ∃ after next, consumerStep noexceptAssign state.memory throws
        (state.locals consumer) = some (after, next) ∧
      ∃ decided, Indexless (steps + 1)
        { state with
          memory := after
          locals := Function.update state.locals consumer next } decided := by
  obtain ⟨pc, hpc⟩ := h.consumers consumer
  have hlocal : (state.locals consumer).counters = pc := by
    rw [hpc]
    rfl
  have hclaimed : ∀ index, pc ≠ .claimed index :=
    fun index heq => h.unclaimed consumer index (hlocal.trans heq)
  have hclaiming : pc ≠ .claiming := by
    rintro rfl
    have hone : (state.locals consumer).counters.grants ≤
        ∑ other, (state.locals other).counters.grants :=
      le_sum (fun pc => (ConsumerPc.counters pc).grants) state.locals consumer
    rw [hlocal, h.head.2] at hone
    exact Nat.not_succ_le_zero 0 hone
  have hcases := dequeueStep_cases state.memory.counters pc
  obtain ⟨decided, hledger⟩ := h.ledger.dequeue (by omega) hlocal hcases
  rw [hpc]
  refine ⟨_, _, consumerStep_counting _ hclaimed, decided, ?_,
    (hcases.quiet hclaiming).1.trans h.tail, h.blockIndex, h.accepted,
    h.taken, h.producer, ?_⟩
  · rw [QueueState.counterPool, counterPool_update]
    exact hledger
  · intro other
    by_cases hother : other = consumer
    · rw [hother]
      exact ⟨_, Function.update_self ..⟩
    · obtain ⟨same, hsame⟩ := h.consumers other
      exact ⟨same, (Function.update_of_ne hother ..).trans hsame⟩

theorem produces (h : Indexless steps state tickets) {next : EnqueuePc T}
    (hfails : next.Fails) :
    Indexless (steps + 1) { state with producer := next } tickets :=
  { h with
    ledger := h.ledger.mono
    producer := hfails }

theorem enqueue (h : Indexless steps state tickets)
    (choice : EnqueueChoice T) :
    ∃ next, enqueueStep noexceptCtor state.memory choice state.producer =
        some (state.memory, next) ∧
      Indexless (steps + 1) { state with producer := next } tickets := by
  have hproducer := h.producer
  cases hpc : state.producer with
  | idle =>
      refine ⟨.loadingHead ⟨choice.element, 0⟩, ?_, h.produces rfl⟩
      simp only [enqueueStep, h.tail]
      rfl
  | loadingHead call =>
      rw [hpc] at hproducer
      have hhead : state.memory.counters.headIndex = 0 :=
        UInt64.toNat_inj.mp h.head.1
      have hcall : call.currentTailIndex = 0 := hproducer
      refine ⟨.inserting call, ?_, h.produces hproducer⟩
      simp only [enqueueStep, hhead, hcall]
      rfl
  | inserting call =>
      refine ⟨.idle, ?_, h.produces trivial⟩
      simp only [enqueueStep, h.blockIndex]
  | growing | insertingNew | storingKey | storingTail | requisitioning
  | resetting | constructingFirst | rewinding | clearing | givingBack
  | storingValue | constructing | publishing =>
      rw [hpc] at hproducer
      exact hproducer.elim

end Indexless

/-! ## Runs -/

def Sound (noexceptCtor : Bool) (steps : Nat)
    (state : QueueState T consumers) : Prop :=
  (∃ map cur tickets, QueueInv noexceptCtor steps state map cur tickets) ∨
    ∃ tickets, Indexless steps state tickets

theorem sound_initial
    (h : (queueSystem noexceptCtor noexceptAssign T consumers).Initial state) :
    Sound noexceptCtor 0 state := by
  obtain ⟨memory, hunused, hmemory, hproducer, hlocals⟩ := h
  obtain ⟨stateMemory, producer, locals⟩ := state
  cases hproducer
  cases hlocals
  rcases hmemory with rfl | hmemory
  · exact .inr ⟨.none, .initial hunused⟩
  · cases (newBlockIndex_initial hunused).symm.trans hmemory
    exact .inl ⟨_, 0, .none, queueInv_initial hunused⟩

/-- The blocks that an action gets come from the pool. -/
def QueueAction.FromPool (state : QueueState T consumers) :
    QueueAction T consumers → Prop
  | .enqueue choice => CandCpp.Queue.FromPool state choice
  | .dequeue _ _ => True

theorem QueueInv.step {map : BlockMap consumers} {cur : Nat}
    {tickets : Tickets}
    (h : QueueInv noexceptCtor steps state map cur tickets)
    (hsteps : steps < 2 ^ 62) {action : QueueAction T consumers}
    (hpool : action.FromPool state) :
    ∃ next, queueStep noexceptCtor noexceptAssign state action = some next ∧
      ∃ map cur tickets,
        QueueInv noexceptCtor (steps + 1) next map cur tickets := by
  cases action with
  | enqueue choice =>
      obtain ⟨after, pc, hstep, map, cur, hnext⟩ := h.enqueue hsteps choice hpool
      refine ⟨_, ?_, map, cur, tickets, hnext⟩
      rw [queueStep, hstep]
      rfl
  | dequeue consumer throws =>
      obtain ⟨after, pc, hstep, map, decided, hnext⟩ := h.dequeue hsteps
        noexceptAssign throws consumer
      refine ⟨_, ?_, map, cur, decided, hnext⟩
      rw [queueStep, hstep]
      rfl

theorem Indexless.step {tickets : Tickets}
    (h : Indexless steps state tickets) (hsteps : steps < 2 ^ 62)
    (action : QueueAction T consumers) :
    ∃ next, queueStep noexceptCtor noexceptAssign state action = some next ∧
      ∃ tickets, Indexless (steps + 1) next tickets := by
  cases action with
  | enqueue choice =>
      obtain ⟨pc, hstep, hnext⟩ := h.enqueue choice
      refine ⟨_, ?_, tickets, hnext⟩
      rw [queueStep, hstep]
      rfl
  | dequeue consumer throws =>
      obtain ⟨after, pc, hstep, decided, hnext⟩ := h.dequeue hsteps
        noexceptAssign throws consumer
      refine ⟨_, ?_, decided, hnext⟩
      rw [queueStep, hstep]
      rfl

theorem sound_step (h : Sound noexceptCtor steps state)
    (hsteps : steps < 2 ^ 62) {action : QueueAction T consumers}
    (hpool : action.FromPool state) :
    ∃ next, queueStep noexceptCtor noexceptAssign state action = some next ∧
      Sound noexceptCtor (steps + 1) next := by
  rcases h with ⟨map, cur, tickets, hinv⟩ | ⟨tickets, hindexless⟩
  · obtain ⟨next, hstep, hnext⟩ := hinv.step hsteps hpool
    exact ⟨next, hstep, .inl hnext⟩
  · obtain ⟨next, hstep, hnext⟩ := hindexless.step hsteps action
    exact ⟨next, hstep, .inr hnext⟩

/-- A step that is defined got its block from the pool. -/
theorem fromPool_of_step {action : QueueAction T consumers}
    (hstep : queueStep noexceptCtor noexceptAssign state action = some next) :
    action.FromPool state := by
  cases action with
  | dequeue => trivial
  | enqueue choice =>
      intro call entry block hpc hblock
      cases hused : state.memory.used block with
      | false => rfl
      | true => simp [queueStep, hpc, enqueueStep, hblock, hused] at hstep

theorem sound_run {start : QueueState T consumers}
    {actions : List (QueueAction T consumers)}
    (hstart : (queueSystem noexceptCtor noexceptAssign T consumers).Initial
      start)
    (hrun : (queueSystem noexceptCtor noexceptAssign T consumers).run start
      actions = some state)
    (hlength : actions.length ≤ 2 ^ 62) :
    Sound noexceptCtor actions.length state := by
  refine TransitionSystem.run_induction
    (motive := fun actions state => actions.length ≤ 2 ^ 62 →
      Sound noexceptCtor actions.length state) ?_ ?_ hrun hlength
  · exact fun _ => sound_initial hstart
  · intro actions state action next ih hstep hlength
    rw [List.length_append, List.length_singleton] at hlength ⊢
    obtain ⟨last, hlast, hsound⟩ := sound_step (ih (by omega)) (by omega)
      (fromPool_of_step hstep)
    cases hlast.symm.trans hstep
    exact hsound

variable {start : QueueState T consumers}
  {actions : List (QueueAction T consumers)}

/-- There is memory, and block 7 is in the pool. -/
def offer (element : Nat) : EnqueueChoice Nat := ⟨element, true, some 7, false⟩

/-! ## What is in the queue -/

/-- What a user sees of the invariant. -/
structure Deliveries (steps : Nat) (state : QueueState T consumers)
    (tickets : Tickets) : Prop where
  ledger : Ledger steps state.counterPool tickets
  delivered : Delivered state.memory.counters.headIndex state.memory.accepted
    state.memory.taken state.locals
  left : elementsLeft state.memory = (state.memory.accepted.drop
    state.memory.counters.headIndex.toNat).map some

/-- An index that nobody has claimed leads to its element. -/
theorem QueueInv.elementAt {map : BlockMap consumers} {cur : Nat}
    {tickets : Tickets}
    (h : QueueInv noexceptCtor steps state map cur tickets)
    (hsteps : steps ≤ 2 ^ 62) {index : Nat}
    (hhead : state.memory.counters.headIndex.toNat ≤ index)
    (htail : index < state.memory.counters.tailIndex.toNat) :
    CandCpp.Queue.elementAt state.memory (.ofNat index) =
      state.memory.accepted[index]? := by
  obtain ⟨-, hsmall⟩ := h.bounds
  have hinserted := h.inserted_bounds
  have hindex : (UInt64.ofNat index).toNat = index :=
    UInt64.toNat_ofNat_of_lt' (by
      have hsize : UInt64.size = 2 ^ 64 := rfl
      omega)
  have hlive := h.stock.live_of_head_le hhead (by omega)
  obtain ⟨hfirst, hentry, hkey, hvalue⟩ :=
    h.slots (index / 32) (by rw [hlive]; trivial)
  obtain ⟨tailEntry, htailEntry, hvalid⟩ := h.tail_valid (by omega)
  obtain ⟨count, hcount, hcountLe, htailKey, hposition⟩ :=
    (h.ring.keyed (Nat.le_refl cur) htailEntry).resolve_left hvalid
  have hbase := blockBase_toNat (.ofNat index)
  rw [hindex] at hbase
  have hfound := BlockIndexHeader.position_toNat
    (h.ring.wellFormed cur (Nat.le_refl cur)) hposition.symm hbase htailKey
    hcount hfirst (by omega) (by omega)
  have hthere := h.contents.there index htail (.inl hhead)
  have hlookup : (state.memory.headers cur).lookup
      ((state.memory.headers cur).position (blockBase (.ofNat index))
        (state.memory.headers cur).tail (state.memory.entries tailEntry).key) =
      some (map.slot (index / 32)) := by
    rw [BlockIndexHeader.lookup, hfound]
    exact hentry
  simp only [CandCpp.Queue.elementAt, h.ring.blockIndex, Option.bind_some,
    htailEntry, hlookup, hvalue, blockOffset_eq, hindex]
  exact hthere

theorem map_getElem?_range' (elements : List T) (first : Nat) :
    (List.range' first (elements.length - first)).map (elements[·]?) =
      (elements.drop first).map some := by
  apply List.ext_getElem
  · simp
  · intro position hleft hright
    simp only [List.length_map, List.length_drop] at hright
    have hless : first + position < elements.length := by omega
    simp [List.getElem?_eq_getElem hless]

theorem QueueInv.left {map : BlockMap consumers} {cur : Nat}
    {tickets : Tickets}
    (h : QueueInv noexceptCtor steps state map cur tickets)
    (hsteps : steps ≤ 2 ^ 62) :
    elementsLeft state.memory = (state.memory.accepted.drop
      state.memory.counters.headIndex.toNat).map some := by
  rw [← map_getElem?_range', h.contents.length, elementsLeft]
  apply List.map_congr_left
  intro index hindex
  obtain ⟨hhead, htail⟩ := List.mem_range'_1.mp hindex
  exact h.elementAt hsteps hhead (by omega)

theorem Indexless.left {tickets : Tickets}
    (h : Indexless steps state tickets) :
    elementsLeft state.memory = (state.memory.accepted.drop
      state.memory.counters.headIndex.toNat).map some := by
  rw [elementsLeft, h.tail, h.accepted, UInt64.toNat_zero, Nat.zero_sub,
    List.drop_nil]
  rfl

theorem Sound.deliveries (h : Sound noexceptCtor steps state)
    (hsteps : steps ≤ 2 ^ 62) : ∃ tickets, Deliveries steps state tickets := by
  rcases h with ⟨map, cur, tickets, hinv⟩ | ⟨tickets, hindexless⟩
  · exact ⟨tickets, hinv.ledger, hinv.delivered, hinv.left hsteps⟩
  · exact ⟨tickets, hindexless.ledger, hindexless.delivered, hindexless.left⟩

theorem filterMap_range_getElem? (elements : List T) (count : Nat) :
    (List.range count).filterMap (elements[·]?) = elements.take count := by
  induction count with
  | zero => rfl
  | succ count ih =>
      have hlast : [count].filterMap (elements[·]?) =
          elements[count]?.toList := by
        cases hget : elements[count]? with
        | none =>
            rw [List.filterMap_cons_none hget, List.filterMap_nil,
              Option.toList_none]
        | some last =>
            rw [List.filterMap_cons_some hget, List.filterMap_nil,
              Option.toList_some]
      rw [List.range_succ, List.filterMap_append, ih, hlast, List.take_add_one]

theorem Delivered.elements {head : UInt64} {accepted : List T}
    {taken : List (Taken T)} {locals : Fin consumers → ConsumerPc T}
    (h : Delivered head accepted taken locals) :
    taken.map Taken.element =
      (taken.map fun entry => entry.index.toNat).filterMap (accepted[·]?) := by
  rw [List.filterMap_map, ← List.filterMap_eq_map]
  exact List.filterMap_congr fun entry hentry => (h.right entry hentry).symm

namespace ConsumerPc

/-- How many steps of its own a consumer still has to its element, where a call
of the pool is one of them. -/
def remaining : ConsumerPc T → Nat
  | .counting (.claimed _) => 8
  | .counting _ => 0
  | .loadingTail _ _ => 7
  | .loadingBase _ _ _ => 6
  | .loadingValue _ _ => 5
  | .moving _ _ _ => 4
  | .settingEmpty _ _ _ _ _ => 3
  | .storingNull _ _ _ _ _ => 2
  | .givingBack _ _ _ _ => 1

theorem remaining_pos {pc : ConsumerPc T} {index : UInt64}
    (h : pc.counters = .claimed index) : 0 < pc.remaining := by
  cases pc with
  | counting pc =>
      cases h
      exact Nat.succ_pos _
  | loadingTail | loadingBase | loadingValue | moving | settingEmpty
  | storingNull | givingBack => exact Nat.succ_pos _

/-- The assignment of the element has thrown. -/
def loses : ConsumerPc T → Bool
  | .settingEmpty _ _ _ _ lost | .storingNull _ _ _ _ lost
  | .givingBack _ _ _ lost => lost
  | _ => false

end ConsumerPc

/-- Which blocks are in use after a step at `pc`. -/
def ConsumerPc.usedAfter (used : Nat → Bool) : ConsumerPc T → Nat → Bool
  | .givingBack _ block _ _ => Function.update used block false
  | _ => used

/-- A consumer keeps its index until it is done with its element. -/
inductive ConsumerEffect (noexceptAssign : Bool) (memory : Memory T)
    (throws : Bool) (pc : ConsumerPc T) : Memory T → ConsumerPc T → Prop
  | waits {after : Memory T} {next : ConsumerPc T} :
      after.accepted = memory.accepted →
      after.taken = memory.taken →
      (∀ index, pc.counters = .claimed index →
        next.counters = .claimed index ∧ next.remaining < pc.remaining) →
      (next.loses = true → pc.loses = true ∨
        (throws = true ∧ noexceptAssign = false)) →
      ConsumerEffect noexceptAssign memory throws pc after next
  | takes {after : Memory T} {index : UInt64} {element : T} :
      after.accepted = memory.accepted →
      after.taken = memory.taken ++ [⟨index, element, pc.loses⟩] →
      pc.counters = .claimed index →
      ConsumerEffect noexceptAssign memory throws pc after (.counting .idle)

theorem consumerStep_effect {memory after : Memory T} {throws : Bool}
    {pc next : ConsumerPc T}
    (h : consumerStep noexceptAssign memory throws pc = some (after, next)) :
    ConsumerEffect noexceptAssign memory throws pc after next ∧
      after.used = pc.usedAfter memory.used := by
  cases pc with
  | counting pc =>
      by_cases hclaimed : ∃ index, pc = .claimed index
      · obtain ⟨index, rfl⟩ := hclaimed
        obtain ⟨header, -, heq⟩ := Option.map_eq_some_iff.mp h
        cases heq
        exact ⟨.waits rfl rfl (fun _ hindex => ⟨hindex, Nat.lt_succ_self 7⟩) .inl,
          rfl⟩
      · rw [consumerStep_counting _ fun index heq => hclaimed ⟨index, heq⟩] at h
        cases h
        exact ⟨.waits rfl rfl
          (fun index hindex => absurd ⟨index, hindex⟩ hclaimed) .inl, rfl⟩
  | loadingTail =>
      cases h
      exact ⟨.waits rfl rfl (fun _ hindex => ⟨hindex, Nat.lt_succ_self 6⟩) .inl,
        rfl⟩
  | loadingBase index header tail =>
      obtain ⟨tailEntry, -, hrest⟩ := Option.bind_eq_some_iff.mp h
      by_cases hinvalid : (memory.entries tailEntry).key = INVALID_BLOCK_BASE
      · simp only [if_pos hinvalid] at hrest
        cases hrest
      · simp only [if_neg hinvalid] at hrest
        obtain ⟨entry, -, heq⟩ := Option.map_eq_some_iff.mp hrest
        cases heq
        exact ⟨.waits rfl rfl (fun _ hindex => ⟨hindex, Nat.lt_succ_self 5⟩) .inl,
          rfl⟩
  | loadingValue index entry =>
      rw [consumerStep] at h
      split at h
      · obtain ⟨block, -, heq⟩ := Option.map_eq_some_iff.mp h
        cases heq
        exact ⟨.waits rfl rfl (fun _ hindex => ⟨hindex, Nat.lt_succ_self 4⟩) .inl,
          rfl⟩
      · cases h
  | moving index entry block =>
      rw [consumerStep] at h
      split at h
      · obtain ⟨element, -, heq⟩ := Option.map_eq_some_iff.mp h
        cases heq
        refine ⟨.waits rfl rfl (fun _ hindex => ⟨hindex, Nat.lt_succ_self 3⟩) ?_,
          rfl⟩
        intro hloses
        obtain ⟨hthrows, hmay⟩ := Bool.and_eq_true_iff.mp hloses
        exact .inr ⟨hthrows, by simpa using hmay⟩
      · cases h
  | settingEmpty index entry block element lost =>
      simp only [consumerStep] at h
      split at h
      · split at h
        · cases h
          exact ⟨.waits rfl rfl (fun _ hindex => ⟨hindex, Nat.lt_succ_self 2⟩)
            .inl, rfl⟩
        · cases h
          exact ⟨.takes rfl rfl rfl, rfl⟩
      · cases h
  | storingNull =>
      cases h
      exact ⟨.waits rfl rfl (fun _ hindex => ⟨hindex, Nat.lt_succ_self 1⟩) .inl,
        rfl⟩
  | givingBack index block element lost =>
      rw [consumerStep] at h
      split at h
      · cases h
        exact ⟨.takes rfl rfl rfl, rfl⟩
      · cases h

/-- Which blocks are in use after a step at `pc`. -/
def EnqueuePc.usedAfter (used : Nat → Bool) (taken : Option Nat) :
    EnqueuePc T → Nat → Bool
  | .requisitioning _ _ =>
      match taken with
      | none => used
      | some block => Function.update used block true
  | .givingBack block => Function.update used block false
  | _ => used

/-- The producer adds to the elements accepted only when it publishes one. -/
theorem enqueueStep_effect {memory after : Memory T}
    {choice : EnqueueChoice T} {pc next : EnqueuePc T}
    (h : enqueueStep noexceptCtor memory choice pc = some (after, next)) :
    after.taken = memory.taken ∧
      (after.accepted = memory.accepted ∨ ∃ call, pc = .publishing call ∧
        after.accepted = memory.accepted ++ [call.element]) ∧
      after.used = pc.usedAfter memory.used choice.block := by
  cases pc with
  | idle =>
      rw [enqueueStep] at h
      split at h <;> cases h <;> exact ⟨rfl, .inl rfl, rfl⟩
  | loadingHead =>
      simp only [enqueueStep] at h
      split at h
      · cases h
      · split at h <;> cases h <;> exact ⟨rfl, .inl rfl, rfl⟩
  | inserting =>
      rw [enqueueStep] at h
      split at h
      · cases h
        exact ⟨rfl, .inl rfl, rfl⟩
      · obtain ⟨entry, -, heq⟩ := Option.map_eq_some_iff.mp h
        split at heq <;> cases heq <;> exact ⟨rfl, .inl rfl, rfl⟩
  | growing =>
      rw [enqueueStep] at h
      split at h
      · obtain ⟨grown, hgrown, heq⟩ := Option.map_eq_some_iff.mp h
        cases heq
        obtain ⟨copied, -, hcopied⟩ := Option.bind_eq_some_iff.mp hgrown
        split at hcopied
        · cases hcopied
          exact ⟨rfl, .inl rfl, rfl⟩
        · cases hcopied
      · cases h
        exact ⟨rfl, .inl rfl, rfl⟩
  | insertingNew =>
      obtain ⟨header, -, hrest⟩ := Option.bind_eq_some_iff.mp h
      obtain ⟨entry, -, hrest⟩ := Option.bind_eq_some_iff.mp hrest
      split at hrest
      · cases hrest
        exact ⟨rfl, .inl rfl, rfl⟩
      · cases hrest
  | requisitioning =>
      rw [enqueueStep] at h
      cases hblock : choice.block with
      | none =>
          simp only [hblock] at h
          cases h
          exact ⟨rfl, .inl rfl, by simp only [EnqueuePc.usedAfter]⟩
      | some block =>
          simp only [hblock] at h
          split at h
          · cases h
          · cases h
            exact ⟨rfl, .inl rfl, by simp only [EnqueuePc.usedAfter]; rfl⟩
  | constructingFirst =>
      rw [enqueueStep] at h
      split at h <;> cases h <;> exact ⟨rfl, .inl rfl, rfl⟩
  | rewinding =>
      obtain ⟨header, -, heq⟩ := Option.map_eq_some_iff.mp h
      cases heq
      exact ⟨rfl, .inl rfl, rfl⟩
  | givingBack =>
      rw [enqueueStep] at h
      split at h
      · cases h
        exact ⟨rfl, .inl rfl, rfl⟩
      · cases h
  | constructing =>
      rw [enqueueStep] at h
      split at h
      · cases h
        exact ⟨rfl, .inl rfl, rfl⟩
      · obtain ⟨block, -, hrest⟩ := Option.bind_eq_some_iff.mp h
        split at hrest
        · cases hrest
          exact ⟨rfl, .inl rfl, rfl⟩
        · cases hrest
  | storingKey | storingTail | resetting | clearing | storingValue =>
      cases h
      exact ⟨rfl, .inl rfl, rfl⟩
  | publishing call =>
      cases h
      exact ⟨rfl, .inr ⟨call, rfl, rfl⟩, rfl⟩

theorem queueStep_taken {action : QueueAction T consumers}
    (h : queueStep noexceptCtor noexceptAssign state action = some next) :
    next.memory.taken = state.memory.taken ∨
      ∃ consumer index element,
        (state.locals consumer).counters = .claimed index ∧
        next.memory.taken = state.memory.taken ++
          [⟨index, element, (state.locals consumer).loses⟩] := by
  cases action with
  | enqueue choice =>
      obtain ⟨⟨after, pc⟩, hstep, rfl⟩ := Option.map_eq_some_iff.mp h
      exact .inl (enqueueStep_effect hstep).1
  | dequeue consumer throws =>
      obtain ⟨⟨after, pc⟩, hstep, rfl⟩ := Option.map_eq_some_iff.mp h
      cases (consumerStep_effect hstep).1 with
      | waits _ hsame => exact .inl hsame
      | takes _ htaken hclaimed =>
          exact .inr ⟨consumer, _, _, hclaimed, htaken⟩

theorem queueStep_loses {action : QueueAction T consumers}
    {consumer : Fin consumers}
    (h : queueStep noexceptCtor noexceptAssign state action = some next)
    (hloses : (next.locals consumer).loses = true) :
    (state.locals consumer).loses = true ∨
      (action = .dequeue consumer true ∧ noexceptAssign = false) := by
  cases action with
  | enqueue choice =>
      obtain ⟨⟨after, pc⟩, -, rfl⟩ := Option.map_eq_some_iff.mp h
      exact .inl hloses
  | dequeue other throws =>
      obtain ⟨⟨after, pc⟩, hstep, rfl⟩ := Option.map_eq_some_iff.mp h
      by_cases hother : consumer = other
      · subst hother
        simp only [Function.update_self] at hloses
        cases (consumerStep_effect hstep).1 with
        | waits _ _ _ hwhy =>
            rcases hwhy hloses with hbefore | ⟨hthrows, hmay⟩
            · exact .inl hbefore
            · exact .inr ⟨by rw [hthrows], hmay⟩
        | takes => cases hloses
      · simp only [Function.update_of_ne hother] at hloses
        exact .inl hloses

theorem taken_initial
    (h : (queueSystem noexceptCtor noexceptAssign T consumers).Initial state) :
    state.memory.taken = [] := by
  obtain ⟨memory, hunused, hmemory, -⟩ := h
  rcases hmemory with hmemory | hmemory
  · rw [hmemory]
    exact hunused.taken
  · have hsame := (newBlockIndex_initial hunused).symm.trans hmemory
    rw [← Option.some.inj hsame]
    exact hunused.taken

/-- Only an assignment that throws loses an element. -/
theorem lost_thrown
    (hstart : (queueSystem noexceptCtor noexceptAssign T consumers).Initial
      start)
    (hrun : (queueSystem noexceptCtor noexceptAssign T consumers).run start
      actions = some state) :
    (∀ consumer, (state.locals consumer).loses = true →
      noexceptAssign = false ∧ .dequeue consumer true ∈ actions) ∧
    ∀ taken ∈ state.memory.taken, taken.lost = true →
      noexceptAssign = false ∧ ∃ consumer, .dequeue consumer true ∈ actions := by
  refine TransitionSystem.run_induction
    (motive := fun actions state =>
      (∀ consumer, (state.locals consumer).loses = true →
        noexceptAssign = false ∧ .dequeue consumer true ∈ actions) ∧
      ∀ taken ∈ state.memory.taken, taken.lost = true →
        noexceptAssign = false ∧
          ∃ consumer, .dequeue consumer true ∈ actions) ?_ ?_ hrun
  · have hlocals : start.locals = fun _ => .counting .idle := by
      obtain ⟨_, -, -, -, hlocals⟩ := hstart
      exact hlocals
    rw [taken_initial hstart, hlocals]
    exact ⟨fun _ hloses => (by cases hloses), fun _ hmem => (by cases hmem)⟩
  · rintro actions state action next ⟨hloses, hlost⟩ hstep
    have hlater : ∀ taken ∈ state.memory.taken, taken.lost = true →
        noexceptAssign = false ∧
          ∃ consumer, .dequeue consumer true ∈ actions ++ [action] := by
      intro taken hmem htaken
      obtain ⟨hmay, consumer, hthrown⟩ := hlost taken hmem htaken
      exact ⟨hmay, consumer, List.mem_append_left _ hthrown⟩
    constructor
    · intro consumer hnext
      rcases queueStep_loses hstep hnext with hbefore | ⟨rfl, hmay⟩
      · obtain ⟨hmay, hthrown⟩ := hloses consumer hbefore
        exact ⟨hmay, List.mem_append_left _ hthrown⟩
      · exact ⟨hmay, List.mem_append_right _ (List.mem_singleton_self _)⟩
    · rcases queueStep_taken hstep with
        hsame | ⟨consumer, index, element, -, happend⟩
      · rw [hsame]
        exact hlater
      · rw [happend]
        intro taken hmem htaken
        rcases List.mem_append.mp hmem with hbefore | hlast
        · exact hlater taken hbefore htaken
        · cases List.mem_singleton.mp hlast
          obtain ⟨hmay, hthrown⟩ := hloses consumer htaken
          exact ⟨hmay, consumer, List.mem_append_left _ hthrown⟩

theorem lost_nil
    (hstart : (queueSystem noexceptCtor noexceptAssign T consumers).Initial
      start)
    (hrun : (queueSystem noexceptCtor noexceptAssign T consumers).run start
      actions = some state)
    (hnoexcept : noexceptAssign = true) :
    ∀ taken ∈ state.memory.taken, taken.lost = false := by
  intro taken hmem
  apply Bool.eq_false_iff.mpr
  intro hlost
  have hmay := ((lost_thrown hstart hrun).2 taken hmem hlost).1
  exact Bool.false_ne_true (hmay.symm.trans hnoexcept)

theorem received_eq_taken {memory : Memory T}
    (h : ∀ taken ∈ memory.taken, taken.lost = false) :
    memory.received = memory.taken := by
  apply List.filter_eq_self.mpr
  intro taken hmem
  rw [h taken hmem]
  rfl

/-! ## Every element once -/

/-- Three elements are published and two consumers take turns; the second one's
assignment throws. -/
def turns : List (QueueAction Nat 2) :=
  List.replicate 10 (.enqueue (offer 5)) ++
    List.replicate 3 (.enqueue (offer 6)) ++
    List.replicate 3 (.enqueue (offer 7)) ++
    (List.replicate 12 [.dequeue ⟨0, Nat.two_pos⟩ false,
      .dequeue ⟨1, Nat.one_lt_two⟩ true]).flatten

theorem Deliveries.next_index {steps : Nat} {tickets : Tickets}
    {state : QueueState T 1} (h : Deliveries steps state tickets)
    (hindices : state.memory.taken.map (fun taken => taken.index.toNat) =
      List.range state.memory.taken.length)
    {consumer : Fin 1} {index : UInt64}
    (hclaimed : (state.locals consumer).counters = .claimed index) :
    index.toNat = state.memory.taken.length := by
  have hremembers := h.ledger.remembers consumer
  simp only [QueueState.counterPool, hclaimed] at hremembers
  have hless : index.toNat < state.memory.counters.headIndex.toNat := hremembers
  have hone : (state.locals consumer).claims = 1 := by
    rw [ConsumerPc.claims, hclaimed]
  have hcount := h.delivered.count
  rw [Fin.sum_univ_one, ← Subsingleton.elim consumer 0, hone] at hcount
  by_contra hne
  have hmem : index.toNat ∈
      state.memory.taken.map (fun taken => taken.index.toNat) := by
    rw [hindices, List.mem_range]
    omega
  obtain ⟨taken, htaken, heq⟩ := List.mem_map.mp hmem
  apply (h.delivered.claimed taken htaken).2 consumer
  rw [hclaimed, UInt64.toNat_inj.mp heq]

/-- A single consumer takes the elements in the order in which they were
accepted, and receives them all in that order unless an assignment throws. -/
theorem received_in_order {start state : QueueState T 1}
    {actions : List (QueueAction T 1)}
    (hstart : (queueSystem noexceptCtor noexceptAssign T 1).Initial start)
    (hrun : (queueSystem noexceptCtor noexceptAssign T 1).run start actions =
      some state)
    (hlength : actions.length ≤ 2 ^ 62) :
    state.memory.taken.map Taken.element <+: state.memory.accepted ∧
    (state.memory.received.map Taken.element).Sublist state.memory.accepted ∧
    (noexceptAssign = true →
      state.memory.received.map Taken.element <+: state.memory.accepted) := by
  have hinvariant : Sound noexceptCtor actions.length state ∧
      state.memory.taken.map (fun taken => taken.index.toNat) =
        List.range state.memory.taken.length := by
    refine TransitionSystem.run_induction
      (motive := fun actions state => actions.length ≤ 2 ^ 62 →
        Sound noexceptCtor actions.length state ∧
          state.memory.taken.map (fun taken => taken.index.toNat) =
            List.range state.memory.taken.length) ?_ ?_ hrun hlength
    · rw [taken_initial hstart]
      exact fun _ => ⟨sound_initial hstart, rfl⟩
    · intro actions state action next ih hstep hlength
      rw [List.length_append, List.length_singleton] at hlength ⊢
      obtain ⟨hsound, hindices⟩ := ih (by omega)
      obtain ⟨last, hlast, hnext⟩ := sound_step hsound (by omega)
        (fromPool_of_step hstep)
      cases hlast.symm.trans hstep
      refine ⟨hnext, ?_⟩
      rcases queueStep_taken hstep with
        hsame | ⟨consumer, index, element, hclaimed, htaken⟩
      · rw [hsame]
        exact hindices
      · obtain ⟨tickets, hdeliveries⟩ := hsound.deliveries (by omega)
        rw [htaken, List.map_append, hindices, List.length_append,
          List.length_singleton, List.range_succ,
          ← hdeliveries.next_index hindices hclaimed]
        rfl
  obtain ⟨tickets, h⟩ := hinvariant.1.deliveries hlength
  have horder : state.memory.taken.map Taken.element <+:
      state.memory.accepted := by
    rw [h.delivered.elements, hinvariant.2, filterMap_range_getElem?]
    exact List.take_prefix ..
  refine ⟨horder, ?_, fun hnoexcept => ?_⟩
  · exact (List.filter_sublist.map Taken.element).trans horder.sublist
  · rwa [received_eq_taken (lost_nil hstart hrun hnoexcept)]

/-- Two elements are published, and the only consumer claims the first. -/
def claiming : List (QueueAction Nat 1) :=
  List.replicate 10 (.enqueue (offer 5)) ++
    List.replicate 3 (.enqueue (offer 6)) ++
    List.replicate 6 (.dequeue ⟨0, Nat.one_pos⟩ false)

theorem received_in_order_two :
    ∃ state : QueueState Nat 1,
      (queueSystem true true Nat 1).run (.constructed Nat 1)
          (claiming ++ List.replicate 20 (.dequeue 0 false)) = some state ∧
        state.memory.received.length = 2 ∧
        state.memory.received.map Taken.element <+: state.memory.accepted := by
  have hview : ((queueSystem true true Nat 1).run (.constructed Nat 1)
      (claiming ++ List.replicate 20 (.dequeue 0 false))).map
        (fun state => state.memory.received.length) = some 2 := by
    decide +kernel
  obtain ⟨state, hrun, hreceived⟩ := Option.map_eq_some_iff.mp hview
  exact ⟨state, hrun, hreceived, (received_in_order
    (constructed_initial true true Nat 1) hrun (by decide)).2.2 rfl⟩

/-! ## A claimed element is received -/

/-- The turns of one consumer. -/
def QueueAction.isBy (consumer : Fin consumers) :
    QueueAction T consumers → Bool
  | .dequeue index _ => decide (index = consumer)
  | .enqueue _ => false

theorem ConsumerPc.remaining_le {pc : ConsumerPc T} : pc.remaining ≤ 8 := by
  cases pc with
  | counting pc =>
      cases pc <;> simp [remaining]
  | loadingTail | loadingBase | loadingValue | moving | settingEmpty
  | storingNull | givingBack => simp [remaining]

/-- One step of the wait for the element. -/
theorem queueStep_waits {action : QueueAction T consumers}
    {consumer : Fin consumers} {index : UInt64}
    (h : queueStep noexceptCtor noexceptAssign state action = some next)
    (hclaimed : (state.locals consumer).counters = .claimed index) :
    (∃ taken ∈ next.memory.taken, taken.index = index) ∨
      (next.locals consumer).counters = .claimed index ∧
        (next.locals consumer).remaining + [action].countP (·.isBy consumer) ≤
          (state.locals consumer).remaining := by
  cases action with
  | enqueue choice =>
      obtain ⟨⟨after, pc⟩, -, rfl⟩ := Option.map_eq_some_iff.mp h
      exact .inr ⟨hclaimed, Nat.le_refl _⟩
  | dequeue other throws =>
      obtain ⟨⟨after, pc⟩, hstep, rfl⟩ := Option.map_eq_some_iff.mp h
      by_cases hother : other = consumer
      · subst hother
        simp only [Function.update_self]
        cases (consumerStep_effect hstep).1 with
        | waits _ _ hnext =>
            obtain ⟨hstill, hless⟩ := hnext index hclaimed
            have hone : [(.dequeue other throws :
                QueueAction T consumers)].countP (·.isBy other) = 1 := by
              simp [QueueAction.isBy]
            rw [hone]
            exact .inr ⟨hstill, hless⟩
        | takes _ htaken hindex =>
            cases hindex.symm.trans hclaimed
            rw [htaken]
            exact .inl ⟨_, List.mem_append_right _ (List.mem_singleton_self _),
              rfl⟩
      · simp only [Function.update_of_ne (Ne.symm hother)]
        refine .inr ⟨hclaimed, ?_⟩
        simp [QueueAction.isBy, hother]

/-- A consumer that has claimed an index takes its element within eight steps of
its own, whatever the other threads do meanwhile; a call of the pool counts as
one step. -/
theorem claimed_received {middle : QueueState T consumers}
    {before after : List (QueueAction T consumers)} {consumer : Fin consumers}
    {index : UInt64}
    (hstart : (queueSystem noexceptCtor noexceptAssign T consumers).Initial
      start)
    (hbefore : (queueSystem noexceptCtor noexceptAssign T consumers).run start
      before = some middle)
    (hclaimed : (middle.locals consumer).counters = .claimed index)
    (hafter : (queueSystem noexceptCtor noexceptAssign T consumers).run middle
      after = some state)
    (hlength : before.length + after.length ≤ 2 ^ 62)
    (hturns : 8 ≤ after.countP (·.isBy consumer)) :
    ∃ taken ∈ state.memory.taken, taken.index = index ∧
      state.memory.accepted[index.toNat]? = some taken.element ∧
      (noexceptAssign = true → taken ∈ state.memory.received) := by
  have hrun : (queueSystem noexceptCtor noexceptAssign T consumers).run start
      (before ++ after) = some state := by
    rw [TransitionSystem.run_append, hbefore]
    exact hafter
  have hwhole : (before ++ after).length ≤ 2 ^ 62 := by
    rw [List.length_append]
    exact hlength
  obtain ⟨tickets, h⟩ := (sound_run hstart hrun hwhole).deliveries hwhole
  have hwaits : (∃ taken ∈ state.memory.taken, taken.index = index) ∨
      (state.locals consumer).counters = .claimed index ∧
        (state.locals consumer).remaining + after.countP (·.isBy consumer) ≤
          8 := by
    refine TransitionSystem.run_induction
      (motive := fun after state =>
        (∃ taken ∈ state.memory.taken, taken.index = index) ∨
          (state.locals consumer).counters = .claimed index ∧
            (state.locals consumer).remaining +
              after.countP (·.isBy consumer) ≤ 8) ?_ ?_ hafter
    · exact .inr ⟨hclaimed, ConsumerPc.remaining_le⟩
    · rintro actions state action next (⟨taken, hmem, hindex⟩ | ⟨hstill, hle⟩)
        hstep
      · refine .inl ⟨taken, ?_, hindex⟩
        rcases queueStep_taken hstep with hsame | ⟨_, _, _, -, happend⟩
        · rwa [hsame]
        · rw [happend]
          exact List.mem_append_left _ hmem
      · rw [List.countP_append]
        exact (queueStep_waits hstep hstill).imp_right
          fun ⟨hnext, hless⟩ => ⟨hnext, by omega⟩
  rcases hwaits with ⟨taken, hmem, rfl⟩ | ⟨hstill, hle⟩
  · refine ⟨taken, hmem, rfl, h.delivered.right _ hmem, fun hnoexcept => ?_⟩
    rwa [received_eq_taken (lost_nil hstart hrun hnoexcept)]
  · have hpos := ConsumerPc.remaining_pos hstill
    omega

theorem claimed_received_claiming :
    ∃ middle state : QueueState Nat 1,
      (queueSystem true true Nat 1).run (.constructed Nat 1) claiming =
          some middle ∧
        (queueSystem true true Nat 1).run middle
          (List.replicate 8 (.dequeue 0 false)) = some state ∧
        ∃ taken ∈ state.memory.taken, taken.index = 0 ∧
          state.memory.accepted[0]? = some taken.element ∧
          (true = true → taken ∈ state.memory.received) := by
  have hview : ((queueSystem true true Nat 1).run (.constructed Nat 1)
      claiming).map (fun state => (state.locals 0).counters) =
        some (.claimed 0) := by decide +kernel
  have hwhole : ((queueSystem true true Nat 1).run (.constructed Nat 1)
      (claiming ++ List.replicate 8 (.dequeue 0 false))).isSome := by
    decide +kernel
  obtain ⟨middle, hmiddle, hclaimed⟩ := Option.map_eq_some_iff.mp hview
  rw [TransitionSystem.run_append, hmiddle] at hwhole
  obtain ⟨state, hstate⟩ := Option.isSome_iff_exists.mp hwhole
  exact ⟨middle, state, hmiddle, hstate,
    claimed_received (constructed_initial true true Nat 1) hmiddle hclaimed
      hstate (by decide) (by decide)⟩

/-! ## An offered element is accepted -/

namespace EnqueuePc

def call? : EnqueuePc T → Option (EnqueueCall T)
  | .loadingHead call | .inserting call | .growing call | .insertingNew call
  | .storingKey call _ _ _ | .storingTail call _ _ _ | .requisitioning call _
  | .resetting call _ _ | .constructingFirst call _ _ | .storingValue call _ _
  | .constructing call | .publishing call => some call
  | .idle | .rewinding _ _ | .clearing _ _ | .givingBack _ => none

/-- How many steps the call still has to its publication, where a call of the
pool is one of them. -/
def remaining : EnqueuePc T → Nat
  | .loadingHead _ => 12
  | .inserting _ => 11
  | .growing _ => 10
  | .insertingNew _ => 9
  | .storingKey _ _ _ _ => 8
  | .storingTail _ _ _ _ => 7
  | .requisitioning _ _ => 6
  | .resetting _ _ _ => 5
  | .constructingFirst _ _ _ => 4
  | .storingValue _ _ _ => 3
  | .constructing _ => 2
  | .publishing _ => 1
  | .idle | .rewinding _ _ | .clearing _ _ | .givingBack _ => 0

theorem remaining_pos {pc : EnqueuePc T} {call : EnqueueCall T}
    (h : pc.call? = some call) : 0 < pc.remaining := by
  cases pc with
  | idle | rewinding | clearing | givingBack => exact nomatch h
  | loadingHead | inserting | growing | insertingNew | storingKey | storingTail
  | requisitioning | resetting | constructingFirst | storingValue | constructing
  | publishing => exact Nat.succ_pos _

end EnqueuePc

end CandCpp.Queue
