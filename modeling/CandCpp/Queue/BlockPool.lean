import CandCpp.Foundation.LinkedChain
import CandCpp.Foundation.Threads

/-!
# The block pool of concurrentqueue.h

The blocks of `initialBlockPool` are handed out once by `initialBlockPoolIndex`
and from then on circulate through the lock-free `FreeList`.  A block's
reference count holds one reference for the list itself, one for each `try_get`
that looks at the block, and the bit `SHOULD_BE_ON_FREELIST` while nobody has
put it back yet.  Every access of an atomic is a step, and the threads take
their steps in any order: the accesses are sequentially consistent, whatever
memory order the source gives them.
-/

namespace CandCpp.Queue

open CandCpp.Foundation

def REFS_MASK : UInt32 := 0x7FFFFFFF

def SHOULD_BE_ON_FREELIST : UInt32 := 0x80000000

/-! ## States -/

structure BlockPool (blocks : Nat) where
  initialBlockPoolIndex : UInt64
  freeListHead : Option (Fin blocks)
  freeListRefs : Fin blocks → UInt32
  freeListNext : Fin blocks → Option (Fin blocks)

namespace BlockPool

variable {blocks : Nat}

def initial : BlockPool blocks := ⟨0, none, fun _ => 0, fun _ => none⟩

def setRefs (pool : BlockPool blocks) (node : Fin blocks) (refs : UInt32) :
    BlockPool blocks :=
  { pool with freeListRefs := Function.update pool.freeListRefs node refs }

def setNext (pool : BlockPool blocks) (node : Fin blocks)
    (next : Option (Fin blocks)) : BlockPool blocks :=
  { pool with freeListNext := Function.update pool.freeListNext node next }

def setHead (pool : BlockPool blocks) (head : Option (Fin blocks)) :
    BlockPool blocks :=
  { pool with freeListHead := head }

def takeIndex (pool : BlockPool blocks) : BlockPool blocks :=
  { pool with initialBlockPoolIndex := pool.initialBlockPoolIndex + 1 }

end BlockPool

/-- Where `add_knowing_refcount_is_zero` returns to: `add`, or the loop of a
`try_get` with its current `head`. -/
inductive AddCaller (blocks : Nat) where
  | add
  | tryGet (head : Option (Fin blocks))
  deriving DecidableEq

/-- The points of `requisition_block` and of `add_block_to_free_list` between
two accesses of an atomic. -/
inductive BlockPoolPc (blocks : Nat) where
  | idle
  | takingFromPool
  | loadingHead
  | loadingRefs (head : Fin blocks)
  | acquiring (head : Fin blocks) (refs : UInt32)
  | loadingNext (head : Fin blocks)
  | popping (head : Fin blocks) (next : Option (Fin blocks))
  | releasingTwo (head : Fin blocks)
  | releasing (prevHead : Fin blocks) (head : Option (Fin blocks))
  | adding (node : Fin blocks)
  | linking (node : Fin blocks) (caller : AddCaller blocks)
  | storingNext (node : Fin blocks) (head : Option (Fin blocks))
      (caller : AddCaller blocks)
  | storingRefs (node : Fin blocks) (head : Option (Fin blocks))
      (caller : AddCaller blocks)
  | pushing (node : Fin blocks) (head : Option (Fin blocks))
      (caller : AddCaller blocks)
  | readding (node : Fin blocks) (head : Option (Fin blocks))
      (caller : AddCaller blocks)
  deriving DecidableEq

/-- A thread with the blocks it was handed and has not given back. -/
structure BlockUser (blocks : Nat) where
  owned : Finset (Fin blocks)
  pc : BlockPoolPc blocks

inductive BlockPoolCall (blocks : Nat) where
  | requisition_block
  | add_block_to_free_list (node : Fin blocks)
  deriving DecidableEq

namespace BlockPoolPc

variable {blocks : Nat}

/-- `while (head != nullptr)` of `try_get`. -/
def whileHead : Option (Fin blocks) → BlockPoolPc blocks
  | none => .idle
  | some head => .loadingRefs head

def returnTo : AddCaller blocks → BlockPoolPc blocks
  | .add => .idle
  | .tryGet head => whileHead head

end BlockPoolPc

/-! ## Steps -/

variable {blocks : Nat}

namespace BlockUser

def goTo (user : BlockUser blocks) (pc : BlockPoolPc blocks) :
    BlockUser blocks :=
  { user with pc := pc }

/-- The call returns `node` to the thread. -/
def receive (user : BlockUser blocks) (node : Fin blocks) : BlockUser blocks :=
  ⟨insert node user.owned, .idle⟩

def giveUp (user : BlockUser blocks) (node : Fin blocks) : BlockUser blocks :=
  ⟨user.owned.erase node, .adding node⟩

end BlockUser

/-- A block that is not `dynamicallyAllocated` is in `initialBlockPool`. -/
def callStep (pool : BlockPool blocks) (user : BlockUser blocks) :
    BlockPoolCall blocks → Option (BlockPool blocks × BlockUser blocks)
  | .requisition_block =>
      if pool.initialBlockPoolIndex.toNat ≥ blocks
      then some (pool, user.goTo .loadingHead)
      else some (pool, user.goTo .takingFromPool)
  | .add_block_to_free_list node =>
      if node ∈ user.owned then some (pool, user.giveUp node) else none

def blockPoolStep (pool : BlockPool blocks) (user : BlockUser blocks)
    (call : BlockPoolCall blocks) :
    Option (BlockPool blocks × BlockUser blocks) :=
  match user.pc with
  | .idle => callStep pool user call
  | .takingFromPool =>
      if h : pool.initialBlockPoolIndex.toNat < blocks
      then some (pool.takeIndex,
        user.receive ⟨pool.initialBlockPoolIndex.toNat, h⟩)
      else some (pool.takeIndex, user.goTo .loadingHead)
  | .loadingHead => some (pool, user.goTo (.whileHead pool.freeListHead))
  | .loadingRefs head =>
      let refs := pool.freeListRefs head
      if refs &&& REFS_MASK = 0
      then some (pool, user.goTo .loadingHead)
      else some (pool, user.goTo (.acquiring head refs))
  | .acquiring head refs =>
      if pool.freeListRefs head = refs
      then some (pool.setRefs head (refs + 1), user.goTo (.loadingNext head))
      else some (pool, user.goTo .loadingHead)
  | .loadingNext head =>
      some (pool, user.goTo (.popping head (pool.freeListNext head)))
  | .popping head next =>
      if pool.freeListHead = some head
      then some (pool.setHead next, user.goTo (.releasingTwo head))
      else some (pool, user.goTo (.releasing head pool.freeListHead))
  | .releasingTwo head =>
      some (pool.setRefs head (pool.freeListRefs head - 2), user.receive head)
  | .releasing prevHead head =>
      let refs := pool.freeListRefs prevHead
      some (pool.setRefs prevHead (refs - 1),
        user.goTo (if refs = SHOULD_BE_ON_FREELIST + 1
          then .linking prevHead (.tryGet head) else .whileHead head))
  | .adding node =>
      let refs := pool.freeListRefs node
      some (pool.setRefs node (refs + SHOULD_BE_ON_FREELIST),
        user.goTo (if refs = 0 then .linking node .add else .idle))
  | .linking node caller =>
      some (pool, user.goTo (.storingNext node pool.freeListHead caller))
  | .storingNext node head caller =>
      some (pool.setNext node head, user.goTo (.storingRefs node head caller))
  | .storingRefs node head caller =>
      some (pool.setRefs node 1, user.goTo (.pushing node head caller))
  | .pushing node head caller =>
      if pool.freeListHead = head
      then some (pool.setHead (some node), user.goTo (.returnTo caller))
      else some (pool, user.goTo (.readding node pool.freeListHead caller))
  | .readding node head caller =>
      let refs := pool.freeListRefs node
      some (pool.setRefs node (refs + (SHOULD_BE_ON_FREELIST - 1)),
        user.goTo (if refs = 1 then .storingNext node head caller
          else .returnTo caller))

variable {threads : Nat}

def blockPoolSystem (threads blocks : Nat) :
    TransitionSystem (Pool threads (BlockPool blocks) (BlockUser blocks))
      (Fin threads × BlockPoolCall blocks) :=
  interleave threads (· = .initial) ⟨∅, .idle⟩ blockPoolStep

/-! ## Where a block is -/

inductive Stage where
  | owned
  | giving
  | linking
  | pushing
  | popped
  deriving DecidableEq

/-- A block that is `waiting` is in nobody's hands: the thread that drops the
last reference to it will put it on the list. -/
inductive Place (threads : Nat) where
  | untaken
  | waiting
  | listed
  | held (thread : Fin threads) (stage : Stage)
  deriving DecidableEq

/-- What the reference count of a block holds beside the references of the
threads. -/
def Place.weight : Place threads → Nat
  | .waiting | .held _ .linking => 2 ^ 31
  | .listed => 1
  | .untaken | .held _ .owned | .held _ .giving | .held _ .pushing
  | .held _ .popped => 0

namespace BlockPoolPc

/-- The block that a thread must see to, beside those it owns. -/
def token : BlockPoolPc blocks → Option (Fin blocks × Stage)
  | .adding node => some (node, .giving)
  | .linking node _ | .storingNext node _ _ | .storingRefs node _ _ =>
      some (node, .linking)
  | .pushing node _ _ | .readding node _ _ => some (node, .pushing)
  | .releasingTwo head => some (head, .popped)
  | .idle | .takingFromPool | .loadingHead | .loadingRefs _ | .acquiring _ _
  | .loadingNext _ | .popping _ _ | .releasing _ _ => none

/-- The references that a thread will give back itself. -/
def references (node : Fin blocks) : BlockPoolPc blocks → Nat
  | .loadingNext head | .popping head _ | .releasing head _
  | .pushing head _ _ | .readding head _ _ => if head = node then 1 else 0
  | .releasingTwo head => if head = node then 2 else 0
  | .idle | .takingFromPool | .loadingHead | .loadingRefs _ | .acquiring _ _
  | .adding _ | .linking _ _ | .storingNext _ _ _ | .storingRefs _ _ _ => 0

def taking : BlockPoolPc blocks → Nat
  | .takingFromPool => 1
  | _ => 0

/-- What a thread has read of a block is still so. -/
def Remembers (next : Fin blocks → Option (Fin blocks)) :
    BlockPoolPc blocks → Prop
  | .acquiring _ refs => refs &&& REFS_MASK ≠ 0
  | .popping node head | .storingRefs node head _ | .pushing node head _ =>
      next node = head
  | _ => True

theorem token_returnTo (caller : AddCaller blocks) :
    (returnTo caller).token = none := by
  rcases caller with _ | _ | head <;> rfl

theorem references_returnTo (caller : AddCaller blocks) (node : Fin blocks) :
    (returnTo caller).references node = 0 := by
  rcases caller with _ | _ | head <;> rfl

theorem taking_returnTo (caller : AddCaller blocks) :
    (returnTo caller).taking = 0 := by
  rcases caller with _ | _ | head <;> rfl

theorem remembers_returnTo (caller : AddCaller blocks)
    (next : Fin blocks → Option (Fin blocks)) :
    (returnTo caller).Remembers next := by
  rcases caller with _ | _ | head <;> trivial

/-- A thread that neither refers to a block nor sees to it does not mind. -/
theorem Remembers.setNext {pc : BlockPoolPc blocks}
    {next : Fin blocks → Option (Fin blocks)} (h : pc.Remembers next)
    {node : Fin blocks} {link : Option (Fin blocks)}
    (hreferences : pc.references node = 0)
    (htoken : ∀ stage, pc.token ≠ some (node, stage)) :
    pc.Remembers (Function.update next node link) := by
  cases pc with
  | acquiring head refs => exact h
  | popping head rest =>
      have hne : head ≠ node := by
        rintro rfl
        exact absurd hreferences (by simp [references])
      exact (Function.update_of_ne hne ..).trans h
  | storingRefs head rest caller =>
      have hne : head ≠ node := by
        rintro rfl
        exact htoken .linking rfl
      exact (Function.update_of_ne hne ..).trans h
  | pushing head rest caller =>
      have hne : head ≠ node := by
        rintro rfl
        exact htoken .pushing rfl
      exact (Function.update_of_ne hne ..).trans h
  | idle | takingFromPool | loadingHead | loadingRefs | loadingNext
  | releasingTwo | releasing | adding | linking | storingNext | readding =>
      trivial

theorem taking_le (pc : BlockPoolPc blocks) : pc.taking ≤ 1 := by
  cases pc <;> simp [taking]

theorem references_le (pc : BlockPoolPc blocks) (node : Fin blocks) :
    pc.references node ≤ 2 := by
  cases pc <;> simp only [references] <;> first | omega | (split <;> omega)

end BlockPoolPc

def BlockUser.Holds (user : BlockUser blocks) (node : Fin blocks)
    (stage : Stage) : Prop :=
  (stage = .owned ∧ node ∈ user.owned) ∨ user.pc.token = some (node, stage)

/-! ## The reference count of one block -/

/-- The count of a block at `place` of which threads hold `count` references. -/
structure RefsOf (refs : UInt32) (count : Nat) (place : Place threads) :
    Prop where
  counted : refs.toNat = place.weight + count
  waiting : place = .waiting → 0 < count
  linking : ∀ thread, place = .held thread .linking → count = 0

theorem refs_and_mask (refs : UInt32) :
    refs &&& REFS_MASK = 0 ↔ refs.toNat % 2 ^ 31 = 0 := by
  have hmask : REFS_MASK.toNat = 2 ^ 31 - 1 := rfl
  rw [← UInt32.toNat_inj, UInt32.toNat_and, hmask,
    Nat.and_two_pow_sub_one_eq_mod]
  rfl

namespace RefsOf

variable {refs : UInt32} {count : Nat} {place : Place threads}
  {thread : Fin threads}

theorem weight_cases (place : Place threads) :
    place.weight = 0 ∨ place.weight = 1 ∨
      (place.weight = 2 ^ 31 ∧
        (place = .waiting ∨ ∃ thread, place = .held thread .linking)) := by
  rcases place with _ | _ | _ | ⟨thread, _ | _ | _ | _ | _⟩ <;>
    simp [Place.weight]

/-- A count whose low bits are not zero may be raised. -/
theorem acquire (h : RefsOf refs count place) (hcount : count + 2 < 2 ^ 31)
    (hrefs : refs &&& REFS_MASK ≠ 0) :
    RefsOf (refs + 1) (count + 1) place := by
  have hcounted := h.counted
  have hlow : refs.toNat % 2 ^ 31 ≠ 0 := fun hzero =>
    hrefs ((refs_and_mask refs).mpr hzero)
  have hweight := weight_cases place
  refine ⟨?_, fun _ => Nat.succ_pos count, ?_⟩
  · rw [UInt32.toNat_add, UInt32.toNat_one]
    omega
  · intro holder hplace
    have hzero := h.linking holder hplace
    rw [hplace, hzero, Place.weight] at hcounted
    omega

/-- Whoever drops the last reference to a block that waits becomes the one who
puts it on the list. -/
theorem release (h : RefsOf refs (count + 1) place)
    (hcount : count + 2 < 2 ^ 31) (thread : Fin threads) :
    RefsOf (refs - 1) count
      (if refs = SHOULD_BE_ON_FREELIST + 1 then .held thread .linking
        else place) := by
  have hcounted := h.counted
  have hone : (1 : UInt32) ≤ refs := by
    rw [UInt32.le_iff_toNat_le, UInt32.toNat_one]
    omega
  have hnext : (refs - 1).toNat = refs.toNat - 1 := UInt32.toNat_sub_of_le _ _ hone
  have hlast : (SHOULD_BE_ON_FREELIST + 1).toNat = 2 ^ 31 + 1 := rfl
  have hweight := weight_cases place
  split
  · rename_i hrefs
    rw [hrefs, hlast] at hcounted hnext
    refine ⟨?_, nofun, fun _ _ => ?_⟩
    · rw [hrefs, hnext, Place.weight]
      omega
    · omega
  · rename_i hrefs
    have hdifferent : refs.toNat ≠ 2 ^ 31 + 1 := fun heq =>
      hrefs (UInt32.toNat_inj.mp heq)
    refine ⟨by omega, ?_, ?_⟩
    · intro hplace
      rw [hplace, Place.weight] at hcounted
      omega
    · intro holder hplace
      have hzero := h.linking holder hplace
      omega

theorem waiting_of_last (h : RefsOf refs (count + 1) place)
    (hcount : count + 2 < 2 ^ 31) (hrefs : refs = SHOULD_BE_ON_FREELIST + 1) :
    place = .waiting := by
  have hcounted := h.counted
  have hlast : (SHOULD_BE_ON_FREELIST + 1).toNat = 2 ^ 31 + 1 := rfl
  rw [hrefs, hlast] at hcounted
  rcases weight_cases place with hzero | hone | ⟨-, hwaiting | ⟨holder, hlinking⟩⟩
  · omega
  · omega
  · exact hwaiting
  · exact absurd (h.linking holder hlinking) (Nat.succ_ne_zero count)

/-- `add` either finds no reference left or leaves the block to the threads
that have one. -/
theorem add (h : RefsOf refs count (.held thread .giving))
    (hcount : count < 2 ^ 31) :
    RefsOf (refs + SHOULD_BE_ON_FREELIST) count
      (if refs = 0 then .held thread .linking else .waiting) := by
  have hcounted := h.counted
  rw [Place.weight] at hcounted
  have hbit : SHOULD_BE_ON_FREELIST.toNat = 2 ^ 31 := rfl
  have hnext : (refs + SHOULD_BE_ON_FREELIST).toNat = 2 ^ 31 + count := by
    rw [UInt32.toNat_add, hbit]
    omega
  split
  · rename_i hrefs
    rw [hrefs, UInt32.toNat_zero] at hcounted
    exact ⟨hnext, nofun, fun _ _ => by omega⟩
  · rename_i hrefs
    have hdifferent : refs.toNat ≠ 0 := fun heq => hrefs (UInt32.toNat_inj.mp heq)
    exact ⟨hnext, fun _ => by omega, nofun⟩

/-- After a failed push the pusher's own reference is traded for the bit. -/
theorem readd (h : RefsOf refs (count + 1) (.held thread .pushing))
    (hcount : count < 2 ^ 31) :
    RefsOf (refs + (SHOULD_BE_ON_FREELIST - 1)) count
      (if refs = 1 then .held thread .linking else .waiting) := by
  have hcounted := h.counted
  rw [Place.weight] at hcounted
  have hbit : (SHOULD_BE_ON_FREELIST - 1).toNat = 2 ^ 31 - 1 := rfl
  have hnext : (refs + (SHOULD_BE_ON_FREELIST - 1)).toNat =
      2 ^ 31 + count := by
    rw [UInt32.toNat_add, hbit]
    omega
  split
  · rename_i hrefs
    rw [hrefs, UInt32.toNat_one] at hcounted
    exact ⟨hnext, nofun, fun _ _ => by omega⟩
  · rename_i hrefs
    have hdifferent : refs.toNat ≠ 1 := fun heq => hrefs (UInt32.toNat_inj.mp heq)
    exact ⟨hnext, fun _ => by omega, nofun⟩

theorem releaseTwo (h : RefsOf refs (count + 2) (.held thread .popped)) :
    RefsOf (refs - 2) count (.held thread .owned) := by
  have hcounted := h.counted
  rw [Place.weight] at hcounted
  have htwo : (2 : UInt32).toNat = 2 := rfl
  have hle : (2 : UInt32) ≤ refs := by
    rw [UInt32.le_iff_toNat_le, htwo]
    omega
  refine ⟨?_, nofun, nofun⟩
  rw [UInt32.toNat_sub_of_le _ _ hle, htwo, Place.weight]
  omega

theorem publish (h : RefsOf refs count (.held thread .linking)) :
    RefsOf 1 (count + 1) (.held thread .pushing) := by
  have hzero := h.linking thread rfl
  refine ⟨?_, nofun, nofun⟩
  rw [hzero]
  rfl

theorem push (h : RefsOf refs (count + 1) (.held thread .pushing)) :
    RefsOf refs count (.listed : Place threads) := by
  have hcounted := h.counted
  rw [Place.weight] at hcounted
  refine ⟨?_, nofun, nofun⟩
  rw [hcounted, Place.weight]
  omega

theorem pop (h : RefsOf refs count (.listed : Place threads)) :
    RefsOf refs (count + 1) (.held thread .popped) := by
  have hcounted := h.counted
  rw [Place.weight] at hcounted
  refine ⟨?_, nofun, nofun⟩
  rw [hcounted, Place.weight]
  omega

end RefsOf

end CandCpp.Queue
