import CandCpp.Queue.BlockPoolInvariant
import CandCpp.Queue.QueueDelivery
import Mathlib.Logic.Embedding.Basic

/-!
# The queue of one producer on its block pool

`requisition_block` and `add_block_to_free_list` as `enqueue` and `dequeue` call
them: access by access, on the pool that other threads use too.  The queue takes
each of these calls for one step; here every run with all their accesses is a
run of the queue, and the pool never hands it a block that it has in use.
-/

namespace CandCpp.Queue

open CandCpp.Foundation

variable {T : Type} {consumers threads blocks : Nat}

/-! ## Calls of the pool -/

/-- A thread of the queue; `none` is the producer. -/
abbrev QueueThread (consumers : Nat) := Option (Fin consumers)

def QueueAction.thread : QueueAction T consumers → QueueThread consumers
  | .enqueue _ => none
  | .dequeue index _ => some index

/-- Blocks from `blocks` on are `dynamicallyAllocated`: they are destroyed instead
of going to the free list. -/
def addCall (blocks block : Nat) : Option (BlockPoolCall blocks) :=
  if h : block < blocks then some (.add_block_to_free_list ⟨block, h⟩)
  else none

def EnqueuePc.poolCall (blocks : Nat) :
    EnqueuePc T → Option (BlockPoolCall blocks)
  | .requisitioning _ _ => some .requisition_block
  | .givingBack block => addCall blocks block
  | _ => none

def ConsumerPc.poolCall (blocks : Nat) :
    ConsumerPc T → Option (BlockPoolCall blocks)
  | .givingBack _ block _ _ => addCall blocks block
  | _ => none

/-- The call of the pool that a thread is in. -/
def QueueState.poolCall (blocks : Nat) (state : QueueState T consumers) :
    QueueThread consumers → Option (BlockPoolCall blocks)
  | none => state.producer.poolCall blocks
  | some index => (state.locals index).poolCall blocks

namespace BlockPoolPc

/-- The block that the next access of `requisition_block` returns. -/
def returns (pool : BlockPool blocks) : BlockPoolPc blocks → Option (Fin blocks)
  | .takingFromPool =>
      if h : pool.initialBlockPoolIndex.toNat < blocks
      then some ⟨pool.initialBlockPoolIndex.toNat, h⟩
      else none
  | .releasingTwo head => some head
  | _ => none

/-- The block that `add_block_to_free_list` was called for. -/
def givesBack : BlockPoolPc blocks → Option (Fin blocks)
  | .adding node | .linking node .add | .storingNext node _ .add
  | .storingRefs node _ .add | .pushing node _ .add | .readding node _ .add =>
      some node
  | _ => none

end BlockPoolPc

/-! ## Steps -/

structure SharingState (T : Type) (consumers threads blocks : Nat) where
  queue : QueueState T consumers
  pool : Pool threads (BlockPool blocks) (BlockUser blocks)

inductive SharingAction (T : Type) (consumers threads blocks : Nat) where
  | queue (action : QueueAction T consumers)
  | other (thread : Fin threads) (call : BlockPoolCall blocks)

/-- `requisition_block` returns `node`, or else what `create<Block>` does. -/
def QueueAction.answer (node : Option (Fin blocks)) :
    QueueAction T consumers → QueueAction T consumers
  | .enqueue choice =>
      .enqueue
        { choice with
          block :=
            match node with
            | some node => some node.val
            | none => choice.block.map (blocks + ·) }
  | .dequeue index throws => .dequeue index throws

@[simp] theorem QueueAction.answer_thread (node : Option (Fin blocks))
    (action : QueueAction T consumers) :
    (action.answer node).thread = action.thread := by
  cases action <;> rfl

/-- From now on `node` is a block of `heir`. -/
def passTo (locals : Fin threads → BlockUser blocks) (node : Fin blocks)
    (heir : Fin threads) (thread : Fin threads) : BlockUser blocks :=
  { locals thread with
    owned :=
      if thread = heir then insert node (locals thread).owned
      else (locals thread).owned.erase node }

/-- Whoever starts to give back a block of the queue has it from `producer`, who
requisitioned it. -/
def enterCall (producer thread : Fin threads)
    (pool : Pool threads (BlockPool blocks) (BlockUser blocks)) :
    BlockPoolCall blocks →
      Option (Pool threads (BlockPool blocks) (BlockUser blocks))
  | .requisition_block => some pool
  | .add_block_to_free_list node =>
      if (pool.locals thread).pc = .idle then
        if node ∈ (pool.locals producer).owned
        then some ⟨pool.shared, passTo pool.locals node thread⟩
        else none
      else some pool

/-- A thread of the queue that is in a call of the pool makes the next access of
this call, and with the last one its own step. -/
def sharingStep (noexceptCtor noexceptAssign : Bool)
    (role : QueueThread consumers ↪ Fin threads)
    (state : SharingState T consumers threads blocks) :
    SharingAction T consumers threads blocks →
      Option (SharingState T consumers threads blocks)
  | .queue action =>
      let thread := role action.thread
      match state.queue.poolCall blocks action.thread with
      | none =>
          (queueStep noexceptCtor noexceptAssign state.queue action).map
            fun queue => ⟨queue, state.pool⟩
      | some call =>
          (enterCall (role none) thread state.pool call).bind fun pool =>
            (blockPoolStep pool.shared (pool.locals thread) call).bind
              fun next =>
                let after := ⟨next.1,
                  Function.update pool.locals thread next.2⟩
                if next.2.pc = .idle
                then (queueStep noexceptCtor noexceptAssign state.queue
                    (action.answer ((pool.locals thread).pc.returns
                      pool.shared))).map fun queue => ⟨queue, after⟩
                else some ⟨state.queue, after⟩
  | .other thread call =>
      if ∃ part, role part = thread then none
      else ((blockPoolSystem threads blocks).step state.pool
        (thread, call)).map fun pool => ⟨state.queue, pool⟩

/-- `create<Block>` returns memory that is not in use, and a thread that is none
of the queue's gives back only a block of its own. -/
def SharingAction.Allowed (role : QueueThread consumers ↪ Fin threads)
    (state : SharingState T consumers threads blocks) :
    SharingAction T consumers threads blocks → Prop
  | .queue (.enqueue choice) => ∀ block, choice.block = some block →
      state.queue.memory.used (blocks + block) = false
  | .queue (.dequeue _ _) => True
  | .other thread call => (∀ part, role part ≠ thread) ∧
      ((state.pool.locals thread).pc = .idle → ∀ node,
        call = .add_block_to_free_list node →
        node ∈ (state.pool.locals thread).owned)

/-! ## What a step does to the pool -/

namespace BlockPoolPc

theorem token_of_givesBack {pc : BlockPoolPc blocks} {node : Fin blocks}
    (h : pc.givesBack = some node) :
    ∃ stage, pc.token = some (node, stage) ∧ stage ≠ .popped := by
  cases pc with
  | adding => cases h; exact ⟨.giving, rfl, by simp⟩
  | linking _ caller | storingNext _ _ caller | storingRefs _ _ caller =>
      cases caller with
      | add => cases h; exact ⟨.linking, rfl, by simp⟩
      | tryGet => cases h
  | pushing _ _ caller | readding _ _ caller =>
      cases caller with
      | add => cases h; exact ⟨.pushing, rfl, by simp⟩
      | tryGet => cases h
  | idle | takingFromPool | loadingHead | loadingRefs | acquiring | loadingNext
  | popping | releasingTwo | releasing => cases h

theorem token_ne_owned {pc : BlockPoolPc blocks} {node : Fin blocks} :
    pc.token ≠ some (node, .owned) := by
  cases pc <;> simp [token]

theorem givesBack_whileHead (head : Option (Fin blocks)) :
    (whileHead head).givesBack = none := by
  cases head <;> rfl

end BlockPoolPc

section Accesses

variable {pool shared : BlockPool blocks} {user next : BlockUser blocks}

/-- What an access of `requisition_block` does. -/
theorem requisition_step (h : user.pc.givesBack = none)
    (hstep : blockPoolStep pool user .requisition_block =
      some (shared, next)) :
    next.pc.givesBack = none ∧
      ((user.pc.returns pool = none ∧ next.owned = user.owned) ∨
        ∃ node, user.pc.returns pool = some node ∧
          next = user.receive node) := by
  cases hpc : user.pc with
  | idle =>
      simp only [blockPoolStep, hpc, callStep] at hstep
      split at hstep <;> cases hstep <;> exact ⟨rfl, .inl ⟨rfl, rfl⟩⟩
  | takingFromPool =>
      simp only [blockPoolStep, hpc] at hstep
      split at hstep
      · rename_i hless
        cases hstep
        exact ⟨rfl, .inr ⟨_, dif_pos hless, rfl⟩⟩
      · rename_i hempty
        cases hstep
        exact ⟨rfl, .inl ⟨dif_neg hempty, rfl⟩⟩
  | loadingHead =>
      simp only [blockPoolStep, hpc] at hstep
      cases hstep
      exact ⟨BlockPoolPc.givesBack_whileHead _, .inl ⟨rfl, rfl⟩⟩
  | loadingRefs | acquiring | popping =>
      simp only [blockPoolStep, hpc] at hstep
      split at hstep <;> cases hstep <;> exact ⟨rfl, .inl ⟨rfl, rfl⟩⟩
  | loadingNext =>
      simp only [blockPoolStep, hpc] at hstep
      cases hstep
      exact ⟨rfl, .inl ⟨rfl, rfl⟩⟩
  | releasingTwo head =>
      simp only [blockPoolStep, hpc] at hstep
      cases hstep
      exact ⟨rfl, .inr ⟨head, rfl, rfl⟩⟩
  | releasing prevHead head =>
      simp only [blockPoolStep, hpc] at hstep
      cases hstep
      refine ⟨?_, .inl ⟨rfl, rfl⟩⟩
      simp only [BlockUser.goTo]
      split
      · rfl
      · exact BlockPoolPc.givesBack_whileHead head
  | adding =>
      rw [hpc] at h
      cases h
  | linking _ caller | storingNext _ _ caller | storingRefs _ _ caller =>
      rw [hpc] at h
      simp only [blockPoolStep, hpc] at hstep
      cases caller with
      | add => cases h
      | tryGet =>
          cases hstep
          exact ⟨rfl, .inl ⟨rfl, rfl⟩⟩
  | pushing node head caller =>
      rw [hpc] at h
      simp only [blockPoolStep, hpc] at hstep
      cases caller with
      | add => cases h
      | tryGet rest =>
          split at hstep <;> cases hstep
          · exact ⟨BlockPoolPc.givesBack_whileHead rest, .inl ⟨rfl, rfl⟩⟩
          · exact ⟨rfl, .inl ⟨rfl, rfl⟩⟩
  | readding node head caller =>
      rw [hpc] at h
      simp only [blockPoolStep, hpc] at hstep
      cases caller with
      | add => cases h
      | tryGet rest =>
          cases hstep
          refine ⟨?_, .inl ⟨rfl, rfl⟩⟩
          simp only [BlockUser.goTo]
          split
          · rfl
          · exact BlockPoolPc.givesBack_whileHead rest

/-- An access of `add_block_to_free_list` returns or goes on with the same
block. -/
theorem add_step {node : Fin blocks} {call : BlockPoolCall blocks}
    (h : user.pc.givesBack = some node)
    (hstep : blockPoolStep pool user call = some (shared, next)) :
    next.owned = user.owned ∧
      (next.pc = .idle ∨
        (next.pc ≠ .idle ∧ next.pc.givesBack = some node)) := by
  cases hpc : user.pc with
  | adding =>
      rw [hpc] at h
      cases h
      simp only [blockPoolStep, hpc] at hstep
      cases hstep
      refine ⟨rfl, ?_⟩
      simp only [BlockUser.goTo]
      split
      · exact .inr ⟨by simp, rfl⟩
      · exact .inl rfl
  | linking _ caller | storingNext _ _ caller | storingRefs _ _ caller =>
      rw [hpc] at h
      simp only [blockPoolStep, hpc] at hstep
      cases caller with
      | add =>
          cases h
          cases hstep
          exact ⟨rfl, .inr ⟨by simp [BlockUser.goTo], rfl⟩⟩
      | tryGet => cases h
  | pushing _ _ caller =>
      rw [hpc] at h
      simp only [blockPoolStep, hpc] at hstep
      cases caller with
      | add =>
          cases h
          split at hstep <;> cases hstep
          · exact ⟨rfl, .inl rfl⟩
          · exact ⟨rfl, .inr ⟨by simp [BlockUser.goTo], rfl⟩⟩
      | tryGet => cases h
  | readding _ _ caller =>
      rw [hpc] at h
      simp only [blockPoolStep, hpc] at hstep
      cases caller with
      | add =>
          cases h
          cases hstep
          refine ⟨rfl, ?_⟩
          simp only [BlockUser.goTo]
          split
          · exact .inr ⟨by simp, rfl⟩
          · exact .inl rfl
      | tryGet => cases h
  | idle | takingFromPool | loadingHead | loadingRefs | acquiring | loadingNext
  | popping | releasingTwo | releasing =>
      rw [hpc] at h
      cases h

end Accesses

/-- The block still has one owner, now `heir`. -/
theorem PoolInv.passTo
    {pool : Pool threads (BlockPool blocks) (BlockUser blocks)}
    {place : Fin blocks → Place threads} {chain : List (Fin blocks)}
    (h : PoolInv pool place chain) {giver : Fin threads} {node : Fin blocks}
    (howned : node ∈ (pool.locals giver).owned) (heir : Fin threads) :
    PoolInv ⟨pool.shared, CandCpp.Queue.passTo pool.locals node heir⟩
      (Function.update place node (.held heir .owned)) chain := by
  have hplace : place node = .held giver .owned :=
    (h.placed giver node .owned).mp (.inl ⟨rfl, howned⟩)
  refine ⟨?_, ?_, h.remembers, h.linked, h.nodup, ?_, ?_, h.index_le⟩
  · intro other
    by_cases hother : other = node
    · subst hother
      have hrefs := h.refs other
      rw [hplace] at hrefs
      rw [Function.update_self]
      exact ⟨hrefs.counted, fun h => (by cases h), fun _ h => (by cases h)⟩
    · rw [Function.update_of_ne hother]
      exact h.refs other
  · intro thread other stage
    have holds := h.placed thread other stage
    by_cases hother : other = node
    · subst hother
      have htoken : (pool.locals thread).pc.token ≠ some (other, stage) := by
        intro htoken
        have hheld := holds.mp (.inr htoken)
        rw [hplace] at hheld
        cases hheld
        exact BlockPoolPc.token_ne_owned htoken
      rw [Function.update_self]
      by_cases hheir : thread = heir
      · subst hheir
        simp [BlockUser.Holds, CandCpp.Queue.passTo, htoken]
        exact eq_comm
      · simp [BlockUser.Holds, CandCpp.Queue.passTo, htoken, hheir,
          Ne.symm hheir]
    · rw [Function.update_of_ne hother, ← holds]
      by_cases hheir : thread = heir <;>
        simp [BlockUser.Holds, CandCpp.Queue.passTo, hheir, hother]
  · intro other
    by_cases hother : other = node
    · rw [hother, Function.update_self, h.listed node, hplace]
      simp
    · rw [Function.update_of_ne hother]
      exact h.listed other
  · intro other
    by_cases hother : other = node
    · rw [hother, Function.update_self]
      have huntaken := h.untaken node
      rw [hplace] at huntaken
      refine ⟨fun h => (by cases h), fun hle => ?_⟩
      cases huntaken.mpr hle
    · rw [Function.update_of_ne hother]
      exact h.untaken other

/-! ## What a step does to the queue -/

section QueueSteps

variable {noexceptCtor noexceptAssign : Bool} {steps : Nat}
  {queue after : QueueState T consumers} {thread : QueueThread consumers}
  {action : QueueAction T consumers}

theorem addCall_eq_some_iff {block : Nat} {call : BlockPoolCall blocks} :
    addCall blocks block = some call ↔
      ∃ node, call = .add_block_to_free_list node ∧ node.val = block := by
  unfold addCall
  constructor
  · intro h
    split at h
    · cases h
      exact ⟨_, rfl, rfl⟩
    · cases h
  · rintro ⟨node, rfl, rfl⟩
    exact dif_pos node.isLt

/-- The threads that are in a call of the pool. -/
theorem poolCall_cases {call : BlockPoolCall blocks}
    (h : queue.poolCall blocks thread = some call) :
    (call = .requisition_block ∧ thread = none ∧
      ∃ offered entry, queue.producer = .requisitioning offered entry) ∨
    ∃ node, call = .add_block_to_free_list node ∧
      ((thread = none ∧ queue.producer = .givingBack node.val) ∨
        ∃ consumer index element lost, thread = some consumer ∧
          queue.locals consumer =
            .givingBack index node.val element lost) := by
  cases thread with
  | none =>
      rw [QueueState.poolCall] at h
      cases hpc : queue.producer with
      | requisitioning offered entry =>
          rw [hpc] at h
          cases h
          exact .inl ⟨rfl, rfl, offered, entry, rfl⟩
      | givingBack block =>
          rw [hpc] at h
          obtain ⟨node, hcall, rfl⟩ := addCall_eq_some_iff.mp h
          exact .inr ⟨node, hcall, .inl ⟨rfl, rfl⟩⟩
      | idle | loadingHead | inserting | growing | insertingNew | storingKey
      | storingTail | resetting | constructingFirst | rewinding | clearing
      | storingValue | constructing | publishing =>
          rw [hpc] at h
          cases h
  | some consumer =>
      rw [QueueState.poolCall] at h
      cases hpc : queue.locals consumer with
      | givingBack index block element lost =>
          rw [hpc] at h
          obtain ⟨node, hcall, rfl⟩ := addCall_eq_some_iff.mp h
          exact .inr ⟨node, hcall,
            .inr ⟨consumer, index, element, lost, rfl, hpc⟩⟩
      | counting | loadingTail | loadingBase | loadingValue | moving
      | settingEmpty | storingNull =>
          rw [hpc] at h
          cases h

/-- A step is no call of another thread's. -/
theorem poolCall_of_ne
    (hstep : queueStep noexceptCtor noexceptAssign queue action = some after)
    (hne : thread ≠ action.thread) :
    after.poolCall blocks thread = queue.poolCall blocks thread := by
  cases action with
  | enqueue choice =>
      obtain ⟨next, -, rfl⟩ := Option.map_eq_some_iff.mp hstep
      cases thread with
      | none => exact absurd rfl hne
      | some index => rfl
  | dequeue index throws =>
      obtain ⟨next, -, rfl⟩ := Option.map_eq_some_iff.mp hstep
      cases thread with
      | none => rfl
      | some other =>
          have hother : other ≠ index := fun heq => hne (congrArg some heq)
          exact congrArg (ConsumerPc.poolCall blocks)
            (Function.update_of_ne hother ..)

/-- A step takes and frees blocks of the pool only in a call of the pool. -/
theorem used_of_no_call
    (hstep : queueStep noexceptCtor noexceptAssign queue action = some after)
    (hcall : queue.poolCall blocks action.thread = none) (node : Fin blocks) :
    after.memory.used node = queue.memory.used node := by
  have hfar : ∀ block, addCall blocks block = none → node.val ≠ block := by
    rintro block hnone rfl
    rw [addCall, dif_pos node.isLt] at hnone
    cases hnone
  cases action with
  | enqueue choice =>
      obtain ⟨⟨memory, pc⟩, hmoved, rfl⟩ := Option.map_eq_some_iff.mp hstep
      simp only [(enqueueStep_effect hmoved).2.2]
      rw [QueueAction.thread, QueueState.poolCall] at hcall
      cases hpc : queue.producer with
      | requisitioning =>
          rw [hpc] at hcall
          cases hcall
      | givingBack block =>
          rw [hpc] at hcall
          exact Function.update_of_ne (hfar block hcall) ..
      | idle | loadingHead | inserting | growing | insertingNew | storingKey
      | storingTail | resetting | constructingFirst | rewinding | clearing
      | storingValue | constructing | publishing => rfl
  | dequeue index throws =>
      obtain ⟨⟨memory, pc⟩, hmoved, rfl⟩ := Option.map_eq_some_iff.mp hstep
      simp only [(consumerStep_effect hmoved).2]
      rw [QueueAction.thread, QueueState.poolCall] at hcall
      cases hpc : queue.locals index with
      | givingBack claimed block =>
          rw [hpc] at hcall
          exact Function.update_of_ne (hfar block hcall) ..
      | counting | loadingTail | loadingBase | loadingValue | moving
      | settingEmpty | storingNull => rfl

/-- A call of `add_block_to_free_list` frees its block. -/
theorem used_of_add_call
    (hstep : queueStep noexceptCtor noexceptAssign queue action = some after)
    {node : Fin blocks}
    (hcall : queue.poolCall blocks action.thread =
      some (.add_block_to_free_list node)) :
    after.memory.used = Function.update queue.memory.used node.val false := by
  rcases poolCall_cases hcall with ⟨hcall, -⟩ | ⟨same, hcall, hpc⟩
  · cases hcall
  · cases hcall
    cases action with
    | enqueue choice =>
        rcases hpc with ⟨-, hpc⟩ | ⟨_, _, _, _, hthread, -⟩
        · obtain ⟨⟨memory, pc⟩, hmoved, rfl⟩ := Option.map_eq_some_iff.mp hstep
          simp only [(enqueueStep_effect hmoved).2.2, hpc]
          rfl
        · cases hthread
    | dequeue index throws =>
        rcases hpc with ⟨hthread, -⟩ | ⟨consumer, _, _, _, hthread, hpc⟩
        · cases hthread
        · cases hthread
          obtain ⟨⟨memory, pc⟩, hmoved, rfl⟩ := Option.map_eq_some_iff.mp hstep
          simp only [(consumerStep_effect hmoved).2, hpc]
          rfl

/-- A call of `requisition_block` takes the block that it returns. -/
theorem used_of_requisition_call {choice : EnqueueChoice T}
    (hstep : queueStep noexceptCtor noexceptAssign queue (.enqueue choice) =
      some after)
    (hcall : queue.poolCall blocks none = some .requisition_block) :
    after.memory.used =
      match choice.block with
      | none => queue.memory.used
      | some block => Function.update queue.memory.used block true := by
  rcases poolCall_cases hcall with ⟨-, -, offered, entry, hpc⟩ | ⟨_, hcall, -⟩
  · obtain ⟨⟨memory, pc⟩, hmoved, rfl⟩ := Option.map_eq_some_iff.mp hstep
    simp only [(enqueueStep_effect hmoved).2.2, hpc]
    rfl
  · cases hcall

theorem QueueInv.addCall {map : BlockMap consumers} {cur : Nat}
    {tickets : Tickets}
    (h : QueueInv noexceptCtor steps queue map cur tickets)
    {node : Fin blocks}
    (hcall : queue.poolCall blocks thread =
      some (.add_block_to_free_list node)) :
    (thread = none ∧ FreshBlock queue.memory.used map node) ∨
      ∃ consumer number, thread = some consumer ∧
        map.phase number = .retired consumer ∧ map.block number = node := by
  rcases poolCall_cases hcall with ⟨hcall, -⟩ | ⟨same, hcall, hpc⟩
  · cases hcall
  · cases hcall
    rcases hpc with ⟨hthread, hpc⟩ | ⟨consumer, index, _, _, hthread, hpc⟩
    · exact .inl ⟨hthread, (h.knows hpc).2.2⟩
    · have hknows := h.consumers consumer
      rw [hpc] at hknows
      exact .inr ⟨consumer, _, hthread, hknows.2.2, hknows.1.symm⟩

theorem Indexless.poolCall {tickets : Tickets}
    (h : Indexless steps queue tickets) (thread : QueueThread consumers) :
    queue.poolCall blocks thread = none := by
  cases thread with
  | none =>
      have hfails := h.producer
      rw [QueueState.poolCall]
      cases hpc : queue.producer with
      | requisitioning | givingBack =>
          rw [hpc] at hfails
          exact hfails.elim
      | idle | loadingHead | inserting | growing | insertingNew | storingKey
      | storingTail | resetting | constructingFirst | rewinding | clearing
      | storingValue | constructing | publishing => rfl
  | some consumer =>
      obtain ⟨pc, hpc⟩ := h.consumers consumer
      rw [QueueState.poolCall, hpc]
      rfl

/-- A block that is given back is in use, and only one thread gives it back. -/
theorem Sound.addCall (h : Sound noexceptCtor steps queue)
    {node : Fin blocks}
    (hcall : queue.poolCall blocks thread =
      some (.add_block_to_free_list node)) :
    queue.memory.used node = true ∧
      ∀ other, queue.poolCall blocks other =
        some (.add_block_to_free_list node) → other = thread := by
  rcases h with ⟨map, cur, tickets, hinv⟩ | ⟨tickets, hindexless⟩
  · rcases hinv.addCall hcall with
      ⟨rfl, hfresh⟩ | ⟨consumer, number, rfl, hphase, hblock⟩
    · refine ⟨hfresh.1, fun other hother => ?_⟩
      rcases hinv.addCall hother with
        ⟨rfl, -⟩ | ⟨consumer, number, -, hphase, hblock⟩
      · rfl
      · exact absurd hblock (hfresh.2 number (by rw [hphase]; trivial))
    · have hunfreed : (map.phase number).Unfreed := by
        rw [hphase]
        trivial
      refine ⟨hblock ▸ hinv.stock.used number hunfreed, fun other hother => ?_⟩
      rcases hinv.addCall hother with
        ⟨-, hfresh⟩ | ⟨second, last, rfl, hlast, hsame⟩
      · exact absurd hblock (hfresh.2 number hunfreed)
      · have hnumber := hinv.stock.apart number last hunfreed
          (by rw [hlast]; trivial) (hblock.trans hsame.symm)
        rw [← hnumber, hphase] at hlast
        cases hlast
        rfl
  · rw [hindexless.poolCall] at hcall
    cases hcall

end QueueSteps

/-! ## The blocks of the queue in the pool -/

/-- Where a thread of the queue is in its call of the pool. -/
def Serves : Option (BlockPoolCall blocks) → BlockPoolPc blocks → Prop
  | none, pc => pc = .idle
  | some .requisition_block, pc => pc.givesBack = none
  | some (.add_block_to_free_list node), pc =>
      pc = .idle ∨ pc.givesBack = some node

theorem Serves.idle (call : Option (BlockPoolCall blocks)) :
    Serves call .idle := by
  rcases call with _ | _ | node
  · rfl
  · rfl
  · exact .inl rfl

theorem Serves.addCall {call : Option (BlockPoolCall blocks)}
    {pc : BlockPoolPc blocks} {node : Fin blocks} (h : Serves call pc)
    (hgives : pc.givesBack = some node) :
    call = some (.add_block_to_free_list node) := by
  rcases call with _ | _ | other
  · cases h
    cases hgives
  · cases h.symm.trans hgives
  · rcases h with rfl | hother
    · cases hgives
    · cases hother.symm.trans hgives
      rfl

/-- A thread of the queue is giving `node` back. -/
def GivingBack (role : QueueThread consumers ↪ Fin threads)
    (locals : Fin threads → BlockUser blocks) (node : Fin blocks) : Prop :=
  ∃ part, (locals (role part)).pc.givesBack = some node

section GivingBack

variable {role : QueueThread consumers ↪ Fin threads}
  {locals : Fin threads → BlockUser blocks} {part : QueueThread consumers}
  {user : BlockUser blocks} {node : Fin blocks}

theorem givingBack_update :
    GivingBack role (Function.update locals (role part) user) node ↔
      user.pc.givesBack = some node ∨
        ∃ other ≠ part, (locals (role other)).pc.givesBack = some node := by
  constructor
  · rintro ⟨other, hother⟩
    by_cases hpart : other = part
    · rw [hpart, Function.update_self] at hother
      exact .inl hother
    · rw [Function.update_of_ne (role.injective.ne hpart)] at hother
      exact .inr ⟨other, hpart, hother⟩
  · rintro (hself | ⟨other, hpart, hother⟩)
    · exact ⟨part, by rwa [Function.update_self]⟩
    · exact ⟨other, by rwa [Function.update_of_ne (role.injective.ne hpart)]⟩

theorem givingBack_update_same
    (h : user.pc.givesBack = (locals (role part)).pc.givesBack) :
    GivingBack role (Function.update locals (role part) user) node ↔
      GivingBack role locals node := by
  rw [givingBack_update, h, ← givingBack_update, Function.update_eq_self]

theorem owned_update_same (h : user.owned = (locals (role part)).owned) :
    (Function.update locals (role part) user (role none)).owned =
      (locals (role none)).owned := by
  by_cases hpart : role none = role part
  · rw [hpart, Function.update_self, h]
  · rw [Function.update_of_ne hpart]

/-- The producer's blocks when `part` has got `node` and put it down again. -/
theorem owned_update_giveUp (node other : Fin blocks) :
    other ∈ (Function.update (passTo locals node (role part)) (role part)
        ((passTo locals node (role part) (role part)).giveUp node)
        (role none)).owned ↔
      other ≠ node ∧ other ∈ (locals (role none)).owned := by
  by_cases hpart : role none = role part
  · rw [hpart, Function.update_self]
    simp only [BlockUser.giveUp, passTo, if_true, Finset.mem_erase,
      Finset.mem_insert]
    grind
  · rw [Function.update_of_ne hpart]
    simp only [passTo, if_neg hpart, Finset.mem_erase]

theorem givingBack_update_of_forall_ne {thread : Fin threads}
    (h : ∀ part, role part ≠ thread) :
    GivingBack role (Function.update locals thread user) node ↔
      GivingBack role locals node := by
  simp only [GivingBack, Function.update_of_ne (h _)]

end GivingBack

/-- The queue has in use what the pool has handed to its threads and they have
not given back. -/
structure Shares (role : QueueThread consumers ↪ Fin threads)
    (state : SharingState T consumers threads blocks)
    (place : Fin blocks → Place threads) (chain : List (Fin blocks)) :
    Prop where
  pool : PoolInv state.pool place chain
  serves : ∀ part, Serves (state.queue.poolCall blocks part)
    (state.pool.locals (role part)).pc
  used : ∀ node : Fin blocks, state.queue.memory.used node = true ↔
    node ∈ (state.pool.locals (role none)).owned ∨
      GivingBack role state.pool.locals node

namespace Shares

variable {noexceptCtor noexceptAssign : Bool} {steps : Nat}
  {role : QueueThread consumers ↪ Fin threads}
  {state next : SharingState T consumers threads blocks}
  {place : Fin blocks → Place threads} {chain : List (Fin blocks)}
  {node : Fin blocks} {part : QueueThread consumers}

/-- A block that a thread is giving back is in its hands only. -/
theorem alone_of_givesBack (h : Shares role state place chain)
    (hgives : (state.pool.locals (role part)).pc.givesBack = some node) :
    node ∉ (state.pool.locals (role none)).owned ∧
      ∀ other, (state.pool.locals (role other)).pc.givesBack = some node →
        other = part := by
  obtain ⟨stage, htoken, -⟩ := BlockPoolPc.token_of_givesBack hgives
  have hheld := (h.pool.placed _ _ _).mp (.inr htoken)
  constructor
  · intro howned
    have hsame := (h.pool.placed _ _ _).mp (.inl ⟨rfl, howned⟩)
    rw [(Place.held.inj (hheld.symm.trans hsame)).2] at htoken
    exact BlockPoolPc.token_ne_owned htoken
  · intro other hother
    obtain ⟨last, hlast, -⟩ := BlockPoolPc.token_of_givesBack hother
    have hsame := (h.pool.placed _ _ _).mp (.inr hlast)
    exact role.injective (Place.held.inj (hsame.symm.trans hheld)).1

theorem serves_update (h : Shares role state place chain)
    {queue : QueueState T consumers} {user : BlockUser blocks}
    (hself : Serves (queue.poolCall blocks part) user.pc)
    (hothers : ∀ other, other ≠ part → queue.poolCall blocks other =
      state.queue.poolCall blocks other) (other : QueueThread consumers) :
    Serves (queue.poolCall blocks other)
      (Function.update state.pool.locals (role part) user (role other)).pc := by
  by_cases hpart : other = part
  · rw [hpart, Function.update_self]
    exact hself
  · rw [Function.update_of_ne (role.injective.ne hpart), hothers other hpart]
    exact h.serves other

theorem step_outside (h : Shares role state place chain)
    {action : QueueAction T consumers} {queue : QueueState T consumers}
    (hcall : state.queue.poolCall blocks action.thread = none)
    (hstep : queueStep noexceptCtor noexceptAssign state.queue action =
      some queue) : Shares role ⟨queue, state.pool⟩ place chain := by
  refine ⟨h.pool, fun other => ?_, fun node => ?_⟩
  · by_cases hother : other = action.thread
    · have hidle := h.serves action.thread
      rw [hcall] at hidle
      rw [hother, show (state.pool.locals (role action.thread)).pc = .idle
        from hidle]
      exact .idle _
    · rw [poolCall_of_ne hstep hother]
      exact h.serves other
  · rw [used_of_no_call hstep hcall node]
    exact h.used node

theorem step_other (h : Shares role state place chain)
    (hthreads : 2 * threads + 2 < 2 ^ 31) (hbound : blocks + threads < 2 ^ 64)
    {thread : Fin threads} {call : BlockPoolCall blocks}
    {pool : Pool threads (BlockPool blocks) (BlockUser blocks)}
    (hother : ∀ part, role part ≠ thread)
    (hstep : (blockPoolSystem threads blocks).step state.pool (thread, call) =
      some pool) :
    ∃ place chain, Shares role ⟨state.queue, pool⟩ place chain := by
  obtain ⟨shared, user, hmoved, rfl⟩ := interleave_step_iff.mp hstep
  obtain ⟨place, chain, hinv⟩ := h.pool.step hthreads hbound rfl hmoved
  refine ⟨place, chain, hinv, fun part => ?_, fun node => ?_⟩
  · simp only [Function.update_of_ne (hother part)]
    exact h.serves part
  · simp only [Function.update_of_ne (hother none),
      givingBack_update_of_forall_ne hother]
    exact h.used node

/-! ### Accesses of `requisition_block` -/

theorem requisition_access (h : Shares role state place chain)
    (hthreads : 2 * threads + 2 < 2 ^ 31) (hbound : blocks + threads < 2 ^ 64)
    {shared : BlockPool blocks} {user : BlockUser blocks}
    (hcall : state.queue.poolCall blocks none = some .requisition_block)
    (hmoved : blockPoolStep state.pool.shared (state.pool.locals (role none))
      .requisition_block = some (shared, user))
    (hbusy : user.pc ≠ .idle) :
    ∃ place chain, Shares role
      ⟨state.queue, shared, Function.update state.pool.locals (role none) user⟩
      place chain := by
  have hserves := h.serves none
  rw [hcall] at hserves
  obtain ⟨hgives, hreturns⟩ := requisition_step hserves hmoved
  obtain ⟨-, howned⟩ : _ ∧ user.owned = (state.pool.locals (role none)).owned :=
    hreturns.resolve_right fun ⟨_, _, hreceive⟩ => hbusy (by rw [hreceive]; rfl)
  obtain ⟨place, chain, hinv⟩ := h.pool.step hthreads hbound rfl hmoved
  refine ⟨place, chain, hinv, h.serves_update ?_ fun _ _ => rfl, fun node => ?_⟩
  · rw [hcall]
    exact hgives
  · simp only [Function.update_self, howned,
      givingBack_update_same (hgives.trans hserves.symm)]
    exact h.used node

/-- The last access, with the step that it lets the producer make. -/
theorem requisition_return (h : Shares role state place chain)
    (hthreads : 2 * threads + 2 < 2 ^ 31) (hbound : blocks + threads < 2 ^ 64)
    {shared : BlockPool blocks} {user : BlockUser blocks}
    {choice : EnqueueChoice T} {queue : QueueState T consumers}
    (hcall : state.queue.poolCall blocks none = some .requisition_block)
    (hmoved : blockPoolStep state.pool.shared (state.pool.locals (role none))
      .requisition_block = some (shared, user))
    (hidle : user.pc = .idle)
    (hstep : queueStep noexceptCtor noexceptAssign state.queue
      (QueueAction.answer ((state.pool.locals (role none)).pc.returns
        state.pool.shared) (.enqueue choice)) = some queue) :
    ∃ place chain, Shares role
      ⟨queue, shared, Function.update state.pool.locals (role none) user⟩
      place chain := by
  have hserves := h.serves none
  rw [hcall] at hserves
  obtain ⟨hgives, hreturns⟩ := requisition_step hserves hmoved
  obtain ⟨place, chain, hinv⟩ := h.pool.step hthreads hbound rfl hmoved
  have hused := used_of_requisition_call hstep hcall
  refine ⟨place, chain, hinv, h.serves_update ?_ ?_, fun node => ?_⟩
  · rw [hidle]
    exact .idle _
  · exact fun other hother => poolCall_of_ne hstep hother
  · simp only [Function.update_self,
      givingBack_update_same (hgives.trans hserves.symm), hused]
    rcases hreturns with ⟨hnone, howned⟩ | ⟨taken, htaken, hreceive⟩
    · rw [hnone, howned]
      cases hblock : choice.block with
      | none => exact h.used node
      | some block =>
          have hne : node.val ≠ blocks + block := by omega
          simp only [Option.map_some, Function.update_of_ne hne]
          exact h.used node
    · simp only [htaken, hreceive, BlockUser.receive, Finset.mem_insert]
      by_cases hnode : node = taken
      · simp [hnode]
      · have hne : node.val ≠ taken.val := fun heq => hnode (Fin.ext heq)
        simp only [Function.update_of_ne hne, hnode, false_or]
        exact h.used node

/-! ### Accesses of `add_block_to_free_list` -/

theorem add_start (h : Shares role state place chain)
    (hthreads : 2 * threads + 2 < 2 ^ 31) (hbound : blocks + threads < 2 ^ 64)
    {shared : BlockPool blocks} {user : BlockUser blocks}
    (hcall : state.queue.poolCall blocks part =
      some (.add_block_to_free_list node))
    (hidle : (state.pool.locals (role part)).pc = .idle)
    (howned : node ∈ (state.pool.locals (role none)).owned)
    (hmoved : blockPoolStep state.pool.shared
      (passTo state.pool.locals node (role part) (role part))
      (.add_block_to_free_list node) = some (shared, user)) :
    user.pc ≠ .idle ∧ ∃ place chain, Shares role
      ⟨state.queue, shared, Function.update
        (passTo state.pool.locals node (role part)) (role part) user⟩
      place chain := by
  have hmem : node ∈ (passTo state.pool.locals node (role part)
      (role part)).owned := by
    simp [passTo]
  have hpc : (passTo state.pool.locals node (role part) (role part)).pc =
      .idle := hidle
  obtain ⟨place, chain, hinv⟩ := (h.pool.passTo howned (role part)).step
    hthreads hbound rfl hmoved
  simp only [blockPoolStep, hpc, callStep, if_pos hmem] at hmoved
  cases hmoved
  have hnone : (state.pool.locals (role part)).pc.givesBack = none := by
    rw [hidle]
    rfl
  refine ⟨by simp [BlockUser.giveUp], place, chain, hinv, fun other => ?_,
    fun other => ?_⟩
  · by_cases hpart : other = part
    · rw [hpart, hcall]
      simp only [Function.update_self]
      exact .inr rfl
    · simp only [Function.update_of_ne (role.injective.ne hpart)]
      exact h.serves other
  · rw [h.used other]
    simp only [owned_update_giveUp, givingBack_update]
    have hbefore : GivingBack role state.pool.locals other ↔
        ∃ giver ≠ part, (state.pool.locals (role giver)).pc.givesBack =
          some other := by
      rw [← Function.update_eq_self (role part) state.pool.locals,
        givingBack_update, Function.update_eq_self, hnone]
      simp
    rw [hbefore]
    by_cases hother : other = node
    · subst hother
      exact iff_of_true (.inl howned) (.inr (.inl rfl))
    · have hne : some node ≠ some other := fun heq =>
        hother (Option.some.inj heq).symm
      have hgives : ((passTo state.pool.locals node (role part)
          (role part)).giveUp node).pc.givesBack = some node := rfl
      simp only [hother, not_false_iff, ne_eq, true_and, hgives, hne, false_or]
      exact Iff.rfl

theorem add_access (h : Shares role state place chain)
    (hthreads : 2 * threads + 2 < 2 ^ 31) (hbound : blocks + threads < 2 ^ 64)
    {shared : BlockPool blocks} {user : BlockUser blocks}
    (hcall : state.queue.poolCall blocks part =
      some (.add_block_to_free_list node))
    (hgives : (state.pool.locals (role part)).pc.givesBack = some node)
    (hmoved : blockPoolStep state.pool.shared (state.pool.locals (role part))
      (.add_block_to_free_list node) = some (shared, user))
    (hbusy : user.pc ≠ .idle) :
    ∃ place chain, Shares role
      ⟨state.queue, shared, Function.update state.pool.locals (role part) user⟩
      place chain := by
  obtain ⟨howned, hnext⟩ := add_step hgives hmoved
  obtain ⟨-, hstill⟩ := hnext.resolve_left hbusy
  obtain ⟨place, chain, hinv⟩ := h.pool.step hthreads hbound rfl hmoved
  refine ⟨place, chain, hinv, h.serves_update ?_ fun _ _ => rfl,
    fun other => ?_⟩
  · rw [hcall]
    exact .inr hstill
  · simp only [owned_update_same howned,
      givingBack_update_same (hstill.trans hgives.symm)]
    exact h.used other

/-- The last access, with the step that it lets the thread make. -/
theorem add_return (h : Shares role state place chain)
    (hthreads : 2 * threads + 2 < 2 ^ 31) (hbound : blocks + threads < 2 ^ 64)
    {shared : BlockPool blocks} {user : BlockUser blocks}
    {action : QueueAction T consumers} {queue : QueueState T consumers}
    (hpart : action.thread = part)
    (hcall : state.queue.poolCall blocks part =
      some (.add_block_to_free_list node))
    (hgives : (state.pool.locals (role part)).pc.givesBack = some node)
    (hmoved : blockPoolStep state.pool.shared (state.pool.locals (role part))
      (.add_block_to_free_list node) = some (shared, user))
    (hidle : user.pc = .idle)
    (hstep : queueStep noexceptCtor noexceptAssign state.queue action =
      some queue) :
    ∃ place chain, Shares role
      ⟨queue, shared, Function.update state.pool.locals (role part) user⟩
      place chain := by
  subst hpart
  obtain ⟨howned, -⟩ := add_step hgives hmoved
  obtain ⟨hnot, halone⟩ := h.alone_of_givesBack hgives
  obtain ⟨place, chain, hinv⟩ := h.pool.step hthreads hbound rfl hmoved
  have hnone : user.pc.givesBack = none := by
    rw [hidle]
    rfl
  refine ⟨place, chain, hinv, h.serves_update ?_ ?_, fun other => ?_⟩
  · rw [hidle]
    exact .idle _
  · exact fun other hother => poolCall_of_ne hstep hother
  · simp only [used_of_add_call hstep hcall, owned_update_same howned,
      givingBack_update, hnone]
    by_cases hother : other = node
    · subst hother
      rw [Function.update_self]
      refine iff_of_false Bool.false_ne_true ?_
      rintro (howned | hself | ⟨giver, hgiver, hsame⟩)
      · exact hnot howned
      · cases hself
      · exact hgiver (halone giver hsame)
    · have hne : other.val ≠ node.val := fun heq => hother (Fin.ext heq)
      have hself : some node ≠ some other := fun heq =>
        hother (Option.some.inj heq).symm
      rw [Function.update_of_ne hne, h.used other,
        ← Function.update_eq_self (role action.thread) state.pool.locals,
        givingBack_update, Function.update_eq_self, hgives]
      simp [hself]

/-! ### Every step -/

theorem enqueue_of_requisition {action : QueueAction T consumers}
    (hcall : state.queue.poolCall blocks action.thread =
      some .requisition_block) : ∃ choice, action = .enqueue choice := by
  cases action with
  | enqueue choice => exact ⟨choice, rfl⟩
  | dequeue index throws =>
      rcases poolCall_cases hcall with ⟨-, hthread, -⟩ | ⟨_, hcall, -⟩
      · cases hthread
      · cases hcall

theorem step (h : Shares role state place chain)
    (hthreads : 2 * threads + 2 < 2 ^ 31) (hbound : blocks + threads < 2 ^ 64)
    {action : SharingAction T consumers threads blocks}
    (hstep : sharingStep noexceptCtor noexceptAssign role state action =
      some next) :
    (∃ place chain, Shares role next place chain) ∧
      (next.queue = state.queue ∨ ∃ action,
        queueStep noexceptCtor noexceptAssign state.queue action =
          some next.queue) := by
  cases action with
  | other thread call =>
      rw [sharingStep] at hstep
      split at hstep
      · cases hstep
      · rename_i hother
        obtain ⟨pool, hpool, rfl⟩ := Option.map_eq_some_iff.mp hstep
        exact ⟨h.step_other hthreads hbound (not_exists.mp hother) hpool,
          .inl rfl⟩
  | queue action =>
      cases hcall : state.queue.poolCall blocks action.thread with
      | none =>
          simp only [sharingStep, hcall] at hstep
          obtain ⟨queue, hqueue, rfl⟩ := Option.map_eq_some_iff.mp hstep
          exact ⟨⟨_, _, h.step_outside hcall hqueue⟩, .inr ⟨action, hqueue⟩⟩
      | some call =>
          simp only [sharingStep, hcall] at hstep
          obtain ⟨pool, henter, hrest⟩ := Option.bind_eq_some_iff.mp hstep
          obtain ⟨⟨shared, user⟩, hmoved, hlast⟩ :=
            Option.bind_eq_some_iff.mp hrest
          cases call with
          | requisition_block =>
              obtain ⟨choice, rfl⟩ := enqueue_of_requisition hcall
              cases henter
              split at hlast
              · obtain ⟨queue, hqueue, rfl⟩ := Option.map_eq_some_iff.mp hlast
                exact ⟨h.requisition_return hthreads hbound hcall hmoved
                  ‹_› hqueue, .inr ⟨_, hqueue⟩⟩
              · cases hlast
                exact ⟨h.requisition_access hthreads hbound hcall hmoved ‹_›,
                  .inl rfl⟩
          | add_block_to_free_list node =>
              rw [enterCall] at henter
              split at henter
              · rename_i hidle
                split at henter
                · rename_i howned
                  cases henter
                  obtain ⟨hbusy, hnext⟩ := h.add_start hthreads hbound hcall
                    hidle howned hmoved
                  rw [if_neg hbusy] at hlast
                  cases hlast
                  exact ⟨hnext, .inl rfl⟩
                · cases henter
              · rename_i hbusy
                cases henter
                have hgives := h.serves action.thread
                rw [hcall] at hgives
                have hgives := hgives.resolve_left hbusy
                split at hlast
                · obtain ⟨queue, hqueue, rfl⟩ :=
                    Option.map_eq_some_iff.mp hlast
                  exact ⟨h.add_return hthreads hbound
                    (QueueAction.answer_thread _ action) hcall hgives hmoved
                    ‹_› hqueue, .inr ⟨_, hqueue⟩⟩
                · cases hlast
                  exact ⟨h.add_access hthreads hbound hcall hgives hmoved ‹_›,
                    .inl rfl⟩

end Shares

/-! ## Runs -/

variable {noexceptCtor noexceptAssign : Bool}
  {role : QueueThread consumers ↪ Fin threads}
  {start state : SharingState T consumers threads blocks}
  {actions : List (SharingAction T consumers threads blocks)}

def SharingState.constructed : SharingState Nat 1 3 1 :=
  ⟨.constructed Nat 1, .initial, fun _ => ⟨∅, .idle⟩⟩

end CandCpp.Queue
