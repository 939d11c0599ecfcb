import CandCpp.Queue.BlockPool

/-!
# The invariant of the block pool

Every block has its place: in the initial pool, on the free list, in the hands
of a thread or on the way between them.  The place accounts for the references
to the block, and each step of a thread moves at most one block.
-/

namespace CandCpp.Queue

open CandCpp.Foundation

variable {blocks threads : Nat}

/-! ## The invariant -/

def references (locals : Fin threads → BlockUser blocks) (node : Fin blocks) :
    Nat :=
  ∑ thread, (locals thread).pc.references node

/-- Every block is in one place, and who holds it there knows. -/
def Placed (locals : Fin threads → BlockUser blocks)
    (place : Fin blocks → Place threads) : Prop :=
  ∀ thread node stage, (locals thread).Holds node stage ↔
    place node = .held thread stage

structure PoolInv (pool : Pool threads (BlockPool blocks) (BlockUser blocks))
    (place : Fin blocks → Place threads) (chain : List (Fin blocks)) :
    Prop where
  refs : ∀ node, RefsOf (pool.shared.freeListRefs node)
    (references pool.locals node) (place node)
  placed : Placed pool.locals place
  remembers : ∀ thread,
    (pool.locals thread).pc.Remembers pool.shared.freeListNext
  linked : Linked pool.shared.freeListNext pool.shared.freeListHead chain
  nodup : chain.Nodup
  listed : ∀ node, node ∈ chain ↔ place node = .listed
  untaken : ∀ node, place node = .untaken ↔
    pool.shared.initialBlockPoolIndex.toNat ≤ node
  index_le : pool.shared.initialBlockPoolIndex.toNat +
    ∑ thread, (pool.locals thread).pc.taking ≤ blocks + threads

theorem poolInv_initial :
    PoolInv (⟨.initial, fun _ => ⟨∅, .idle⟩⟩ :
      Pool threads (BlockPool blocks) (BlockUser blocks))
      (fun _ => .untaken) [] := by
  refine ⟨?_, ?_, fun _ => trivial, rfl, List.nodup_nil, ?_, ?_, ?_⟩
  · intro node
    refine ⟨?_, nofun, nofun⟩
    simp [references, BlockPoolPc.references, BlockPool.initial, Place.weight]
  · intro thread node stage
    simp [BlockUser.Holds, BlockPoolPc.token]
  · intro node
    simp
  · intro node
    simp [BlockPool.initial]
  · simp [BlockPool.initial, BlockPoolPc.taking]

theorem references_update (locals : Fin threads → BlockUser blocks)
    (thread : Fin threads) (user : BlockUser blocks) (node : Fin blocks) :
    references (Function.update locals thread user) node +
        (locals thread).pc.references node =
      references locals node + user.pc.references node :=
  sum_update (fun user : BlockUser blocks => user.pc.references node) locals
    thread user

theorem references_le (locals : Fin threads → BlockUser blocks)
    (node : Fin blocks) : references locals node ≤ 2 * threads :=
  sum_le (fun user : BlockUser blocks => user.pc.references node) locals
    fun thread => (locals thread).pc.references_le node

theorem le_references (locals : Fin threads → BlockUser blocks)
    (thread : Fin threads) (node : Fin blocks) :
    (locals thread).pc.references node ≤ references locals node :=
  le_sum (fun user : BlockUser blocks => user.pc.references node) locals thread

/-- A block changes hands. -/
theorem Placed.update_at {locals : Fin threads → BlockUser blocks}
    {place : Fin blocks → Place threads} (h : Placed locals place)
    {thread : Fin threads} {user : BlockUser blocks} {node : Fin blocks}
    {there : Place threads}
    (hself : ∀ stage, user.Holds node stage ↔ there = .held thread stage)
    (hrest : ∀ other, other ≠ node → ∀ stage,
      user.Holds other stage ↔ (locals thread).Holds other stage)
    (hfree : ∀ other, other ≠ thread → ∀ stage,
      place node ≠ .held other stage ∧ there ≠ .held other stage) :
    Placed (Function.update locals thread user)
      (Function.update place node there) := by
  intro holder block stage
  by_cases hblock : block = node
  · rw [hblock, Function.update_self]
    by_cases hholder : holder = thread
    · rw [hholder, Function.update_self]
      exact hself stage
    · rw [Function.update_of_ne hholder, h holder node stage]
      obtain ⟨hbefore, hafter⟩ := hfree holder hholder stage
      exact iff_of_false hbefore hafter
  · rw [Function.update_of_ne hblock]
    by_cases hholder : holder = thread
    · rw [hholder, Function.update_self, hrest block hblock stage]
      exact h thread block stage
    · rw [Function.update_of_ne hholder]
      exact h holder block stage

theorem Placed.update {locals : Fin threads → BlockUser blocks}
    {place : Fin blocks → Place threads} (h : Placed locals place)
    {thread : Fin threads} {user : BlockUser blocks}
    (hsame : ∀ node stage,
      user.Holds node stage ↔ (locals thread).Holds node stage) :
    Placed (Function.update locals thread user) place := by
  intro holder block stage
  by_cases hholder : holder = thread
  · rw [hholder, Function.update_self, hsame block stage]
    exact h thread block stage
  · rw [Function.update_of_ne hholder]
    exact h holder block stage

/-- A thread does something else with a block, takes it up or drops it. -/
theorem Placed.hand {locals : Fin threads → BlockUser blocks}
    {place : Fin blocks → Place threads} (h : Placed locals place)
    {thread : Fin threads} {old : BlockUser blocks}
    (hold : locals thread = old) {pc : BlockPoolPc blocks} {node : Fin blocks}
    {there : Place threads}
    (hbefore : ∀ other stage, old.pc.token = some (other, stage) →
      other = node)
    (hafter : ∀ other stage, pc.token = some (other, stage) → other = node)
    (hthere : ∀ stage, pc.token = some (node, stage) ↔
      there = .held thread stage)
    (hplace : ∀ holder stage, place node = .held holder stage →
      holder = thread ∧ stage ≠ .owned)
    (hfree : ∀ holder stage, there = .held holder stage → holder = thread) :
    Placed (Function.update locals thread (old.goTo pc))
      (Function.update place node there) := by
  have howned : node ∉ old.owned := by
    intro hmem
    have hheld := (h thread node .owned).mp (hold ▸ .inl ⟨rfl, hmem⟩)
    exact (hplace thread .owned hheld).2 rfl
  apply h.update_at
  · intro stage
    rw [← hthere stage]
    constructor
    · rintro (⟨-, hmem⟩ | htoken)
      · exact absurd hmem howned
      · exact htoken
    · exact .inr
  · intro other hother stage
    rw [hold]
    have hold : old.pc.token ≠ some (other, stage) :=
      fun htoken => hother (hbefore other stage htoken)
    have hnew : pc.token ≠ some (other, stage) :=
      fun htoken => hother (hafter other stage htoken)
    simp only [BlockUser.Holds, BlockUser.goTo, hold, hnew]
  · intro holder hholder stage
    exact ⟨fun hheld => hholder (hplace holder stage hheld).1,
      fun hheld => hholder (hfree holder stage hheld)⟩

/-- A thread receives a block that it saw to itself, or nobody. -/
theorem Placed.receive {locals : Fin threads → BlockUser blocks}
    {place : Fin blocks → Place threads} (h : Placed locals place)
    {thread : Fin threads} {old : BlockUser blocks}
    (hold : locals thread = old) {node : Fin blocks}
    (hbefore : ∀ other stage, old.pc.token = some (other, stage) →
      other = node)
    (hplace : ∀ holder stage, place node = .held holder stage →
      holder = thread) :
    Placed (Function.update locals thread (old.receive node))
      (Function.update place node (.held thread .owned)) := by
  apply h.update_at
  · intro stage
    simp [BlockUser.Holds, BlockUser.receive, BlockPoolPc.token, eq_comm]
  · intro other hother stage
    rw [hold]
    have hold : old.pc.token ≠ some (other, stage) :=
      fun htoken => hother (hbefore other stage htoken)
    have hnew : (BlockPoolPc.idle : BlockPoolPc blocks).token = none := rfl
    simp [BlockUser.Holds, BlockUser.receive, hnew, hold, hother]
  · intro holder hholder stage
    refine ⟨fun hheld => hholder (hplace holder stage hheld), ?_⟩
    intro hheld
    cases hheld
    exact hholder rfl

theorem Placed.giveUp {locals : Fin threads → BlockUser blocks}
    {place : Fin blocks → Place threads} (h : Placed locals place)
    {thread : Fin threads} {old : BlockUser blocks}
    (hold : locals thread = old) {node : Fin blocks}
    (hpc : old.pc.token = none) (hmem : node ∈ old.owned) :
    Placed (Function.update locals thread (old.giveUp node))
      (Function.update place node (.held thread .giving)) := by
  have hplace := (h thread node .owned).mp (hold ▸ .inl ⟨rfl, hmem⟩)
  apply h.update_at
  · intro stage
    simp [BlockUser.Holds, BlockUser.giveUp, BlockPoolPc.token]
  · intro other hother stage
    have hnew : (BlockPoolPc.adding node).token = some (node, .giving) := rfl
    rw [hold]
    simp [BlockUser.Holds, BlockUser.giveUp, hnew, hpc, hother, Ne.symm hother]
  · intro holder hholder stage
    rw [hplace]
    simp [Ne.symm hholder]

theorem user_remembers_update {locals : Fin threads → BlockUser blocks}
    {next : Fin blocks → Option (Fin blocks)} {thread : Fin threads}
    {user : BlockUser blocks} (huser : user.pc.Remembers next)
    (hothers : ∀ other, other ≠ thread → (locals other).pc.Remembers next)
    (other : Fin threads) :
    (Function.update locals thread user other).pc.Remembers next :=
  (Function.forall_update_iff locals
    fun _ user => user.pc.Remembers next).mpr ⟨huser, hothers⟩ other

namespace PoolInv

variable {pool : Pool threads (BlockPool blocks) (BlockUser blocks)}
  {place : Fin blocks → Place threads} {chain : List (Fin blocks)}
  {thread : Fin threads} {old user : BlockUser blocks} {node : Fin blocks}

theorem taking_update (h : PoolInv pool place chain)
    (hold : pool.locals thread = old)
    (htaking : user.pc.taking ≤ old.pc.taking ∨
      pool.shared.initialBlockPoolIndex.toNat < blocks) :
    pool.shared.initialBlockPoolIndex.toNat +
        ∑ other, (Function.update pool.locals thread user other).pc.taking ≤
      blocks + threads := by
  have hindex := h.index_le
  rcases htaking with hle | hless
  · have hsum := sum_update (fun user : BlockUser blocks => user.pc.taking)
      pool.locals thread user
    rw [hold] at hsum
    omega
  · have hsum := sum_le (fun user : BlockUser blocks => user.pc.taking)
      (Function.update pool.locals thread user)
      fun other => BlockPoolPc.taking_le _
    omega

/-- A step that only moves one thread on. -/
theorem move (h : PoolInv pool place chain) (hold : pool.locals thread = old)
    {pc : BlockPoolPc blocks} (htoken : pc.token = old.pc.token)
    (hreferences : ∀ node, pc.references node = old.pc.references node)
    (hremembers : pc.Remembers pool.shared.freeListNext)
    (htaking : pc.taking ≤ old.pc.taking ∨
      pool.shared.initialBlockPoolIndex.toNat < blocks) :
    PoolInv ⟨pool.shared, Function.update pool.locals thread (old.goTo pc)⟩
      place chain := by
  refine ⟨?_, h.placed.update ?_, user_remembers_update hremembers ?_, h.linked,
    h.nodup, h.listed, h.untaken, h.taking_update hold htaking⟩
  · intro node
    have hsum := references_update pool.locals thread (old.goTo pc) node
    rw [hold] at hsum
    have hsame := hreferences node
    have hcount : references (Function.update pool.locals thread (old.goTo pc))
        node = references pool.locals node := by
      change _ + _ = _ + pc.references node at hsum
      omega
    rw [hcount]
    exact h.refs node
  · intro node stage
    simp only [BlockUser.Holds, BlockUser.goTo, htoken, hold]
  · exact fun other _ => h.remembers other

/-- A step after which one block has another count or another place. -/
theorem change (h : PoolInv pool place chain) (hold : pool.locals thread = old)
    {refs : UInt32} {there : Place threads} {head : Option (Fin blocks)}
    {linked : List (Fin blocks)}
    (hrefs : ∀ count, count + old.pc.references node =
        references pool.locals node + user.pc.references node →
      RefsOf refs count there)
    (hreferences : ∀ other, other ≠ node →
      user.pc.references other = old.pc.references other)
    (hplaced : Placed (Function.update pool.locals thread user)
      (Function.update place node there))
    (hremembers : user.pc.Remembers pool.shared.freeListNext)
    (hlinked : Linked pool.shared.freeListNext head linked)
    (hnodup : linked.Nodup)
    (hlisted : ∀ other, other ∈ linked ↔
      Function.update place node there other = .listed)
    (huntaken : there = .untaken ↔ place node = .untaken)
    (htaking : user.pc.taking ≤ old.pc.taking) :
    PoolInv ⟨(pool.shared.setRefs node refs).setHead head,
        Function.update pool.locals thread user⟩
      (Function.update place node there) linked := by
  refine ⟨?_, hplaced, user_remembers_update hremembers ?_, hlinked, hnodup,
    hlisted, ?_, h.taking_update hold (.inl htaking)⟩
  · intro other
    have hsum := references_update pool.locals thread user other
    rw [hold] at hsum
    simp only [BlockPool.setHead, BlockPool.setRefs]
    by_cases hother : other = node
    · rw [hother, Function.update_self, Function.update_self]
      exact hrefs _ (hother ▸ hsum)
    · have hcount : references (Function.update pool.locals thread user) other =
          references pool.locals other := by
        have hsame := hreferences other hother
        omega
      rw [Function.update_of_ne hother, Function.update_of_ne hother, hcount]
      exact h.refs other
  · exact fun other _ => h.remembers other
  · intro other
    by_cases hother : other = node
    · rw [hother, Function.update_self, huntaken]
      exact h.untaken node
    · rw [Function.update_of_ne hother]
      exact h.untaken other

/-- The list stays as it is. -/
theorem recount (h : PoolInv pool place chain)
    (hold : pool.locals thread = old) {refs : UInt32} {there : Place threads}
    (hrefs : ∀ count, count + old.pc.references node =
        references pool.locals node + user.pc.references node →
      RefsOf refs count there)
    (hreferences : ∀ other, other ≠ node →
      user.pc.references other = old.pc.references other)
    (hplaced : Placed (Function.update pool.locals thread user)
      (Function.update place node there))
    (hremembers : user.pc.Remembers pool.shared.freeListNext)
    (hlisted : there = .listed ↔ place node = .listed)
    (huntaken : there = .untaken ↔ place node = .untaken)
    (htaking : user.pc.taking ≤ old.pc.taking) :
    PoolInv ⟨pool.shared.setRefs node refs,
        Function.update pool.locals thread user⟩
      (Function.update place node there) chain := by
  have hlistedAll : ∀ other, other ∈ chain ↔
      Function.update place node there other = .listed := by
    intro other
    by_cases hother : other = node
    · rw [hother, Function.update_self, hlisted]
      exact h.listed node
    · rw [Function.update_of_ne hother]
      exact h.listed other
  exact h.change hold hrefs hreferences hplaced hremembers h.linked h.nodup
    hlistedAll huntaken htaking

/-! ## The steps of `try_get_block_from_initial_pool` -/

theorem taking_taken (h : PoolInv pool place chain)
    (hbound : blocks + threads < 2 ^ 64) (hold : pool.locals thread = old)
    (hpc : old.pc = .takingFromPool) (user : BlockUser blocks)
    (huser : user.pc.taking = 0) :
    pool.shared.takeIndex.initialBlockPoolIndex.toNat =
        pool.shared.initialBlockPoolIndex.toNat + 1 ∧
      pool.shared.takeIndex.initialBlockPoolIndex.toNat +
        ∑ other, (Function.update pool.locals thread user other).pc.taking ≤
          blocks + threads := by
  have hindex := h.index_le
  have hsum := sum_update (fun user : BlockUser blocks => user.pc.taking)
    pool.locals thread user
  have hone : old.pc.taking = 1 := by
    rw [hpc]
    rfl
  simp only [hold, hone, huser] at hsum
  have hnext : pool.shared.takeIndex.initialBlockPoolIndex.toNat =
      pool.shared.initialBlockPoolIndex.toNat + 1 := by
    rw [BlockPool.takeIndex, UInt64.toNat_add, UInt64.toNat_one]
    omega
  refine ⟨hnext, ?_⟩
  rw [hnext]
  omega

theorem takeBlock (h : PoolInv pool place chain)
    (hbound : blocks + threads < 2 ^ 64) (hold : pool.locals thread = old)
    (hpc : old.pc = .takingFromPool)
    (hnode : pool.shared.initialBlockPoolIndex.toNat = node) :
    PoolInv
      ⟨pool.shared.takeIndex,
        Function.update pool.locals thread (old.receive node)⟩
      (Function.update place node (.held thread .owned)) chain := by
  have hplace := (h.untaken node).mpr (Nat.le_of_eq hnode)
  have hidle : ∀ other, old.pc.references other = 0 := by
    rw [hpc]
    exact fun _ => rfl
  obtain ⟨hnext, hindex⟩ := h.taking_taken hbound hold hpc (old.receive node) rfl
  refine ⟨?_, h.placed.receive hold ?_ ?_, user_remembers_update trivial ?_,
    h.linked, h.nodup, ?_, ?_, hindex⟩
  · intro other
    have hrefs := h.refs other
    have hsum := references_update pool.locals thread (old.receive node) other
    rw [hold, hidle other] at hsum
    have hcount : references (Function.update pool.locals thread
        (old.receive node)) other = references pool.locals other := hsum
    rw [hcount]
    by_cases hother : other = node
    · rw [hother, hplace] at hrefs
      rw [hother, Function.update_self]
      exact ⟨hrefs.counted, nofun, nofun⟩
    · rw [Function.update_of_ne hother]
      exact hrefs
  · simp [hpc, BlockPoolPc.token]
  · simp [hplace]
  · exact fun other _ => h.remembers other
  · intro other
    by_cases hother : other = node
    · rw [hother, Function.update_self, h.listed node, hplace]
      exact iff_of_false nofun nofun
    · rw [Function.update_of_ne hother]
      exact h.listed other
  · intro other
    rw [hnext, hnode]
    by_cases hother : other = node
    · rw [hother, Function.update_self]
      exact iff_of_false nofun (Nat.not_succ_le_self _)
    · have hvalue : other.val ≠ node.val := fun heq => hother (Fin.ext heq)
      rw [Function.update_of_ne hother, h.untaken other, hnode]
      omega

theorem takeNothing (h : PoolInv pool place chain)
    (hbound : blocks + threads < 2 ^ 64) (hold : pool.locals thread = old)
    (hpc : old.pc = .takingFromPool)
    (hempty : blocks ≤ pool.shared.initialBlockPoolIndex.toNat) :
    PoolInv
      ⟨pool.shared.takeIndex,
        Function.update pool.locals thread (old.goTo .loadingHead)⟩
      place chain := by
  obtain ⟨hnext, hindex⟩ :=
    h.taking_taken hbound hold hpc (old.goTo .loadingHead) rfl
  have hmoved : PoolInv
      ⟨pool.shared,
        Function.update pool.locals thread (old.goTo .loadingHead)⟩
      place chain :=
    h.move hold (by rw [hpc]; rfl) (by rw [hpc]; exact fun _ => rfl) trivial
      (.inl (Nat.zero_le _))
  refine ⟨hmoved.refs, hmoved.placed, hmoved.remembers, h.linked, h.nodup,
    h.listed, ?_, hindex⟩
  intro other
  have hless := other.isLt
  rw [h.untaken other]
  change _ ↔ pool.shared.takeIndex.initialBlockPoolIndex.toNat ≤ _
  omega

/-! ## The steps of `try_get` -/

theorem acquire (h : PoolInv pool place chain)
    (hthreads : 2 * threads + 2 < 2 ^ 31) (hold : pool.locals thread = old)
    (hpc : old.pc = .acquiring node (pool.shared.freeListRefs node)) :
    PoolInv
      ⟨pool.shared.setRefs node (pool.shared.freeListRefs node + 1),
        Function.update pool.locals thread (old.goTo (.loadingNext node))⟩
      place chain := by
  have hremembers := h.remembers thread
  rw [hold, hpc] at hremembers
  have hbound := references_le pool.locals node
  rw [← Function.update_eq_self node place]
  apply h.recount hold
  · intro count hcount
    rw [hpc] at hcount
    simp only [BlockUser.goTo, BlockPoolPc.references, if_true] at hcount
    rw [Nat.add_zero] at hcount
    rw [hcount]
    exact (h.refs node).acquire (by omega) hremembers
  · intro other hother
    simp [BlockUser.goTo, BlockPoolPc.references, hpc, Ne.symm hother]
  · rw [Function.update_eq_self]
    apply h.placed.update
    intro other stage
    simp [BlockUser.Holds, BlockUser.goTo, BlockPoolPc.token, hold, hpc]
  · trivial
  · rfl
  · rfl
  · exact Nat.zero_le _

/-- The block at the head is the thread's own from here on, and what it read
as the next block is the rest of the list. -/
theorem pop (h : PoolInv pool place chain) (hold : pool.locals thread = old)
    {next : Option (Fin blocks)} (hpc : old.pc = .popping node next)
    (hhead : pool.shared.freeListHead = some node) :
    ∃ rest, chain = node :: rest ∧
      PoolInv ⟨pool.shared.setHead next,
          Function.update pool.locals thread (old.goTo (.releasingTwo node))⟩
        (Function.update place node (.held thread .popped)) rest := by
  have hremembers := h.remembers thread
  rw [hold, hpc] at hremembers
  have hlinked := h.linked
  rw [hhead] at hlinked
  obtain ⟨rest, rfl, hrest⟩ := hlinked.pop
  refine ⟨rest, rfl, ?_⟩
  obtain ⟨hnotMem, hnodup⟩ := List.nodup_cons.mp h.nodup
  have hplace := (h.listed node).mp List.mem_cons_self
  have hrefs := h.refs node
  rw [hplace] at hrefs
  rw [hremembers] at hrest
  have hshared : pool.shared.setHead next =
      (pool.shared.setRefs node (pool.shared.freeListRefs node)).setHead
        next := by
    rw [BlockPool.setRefs, Function.update_eq_self]
  rw [hshared]
  apply h.change hold
  · intro count hcount
    rw [hpc] at hcount
    simp only [BlockUser.goTo, BlockPoolPc.references, if_true] at hcount
    have hcount : count = references pool.locals node + 1 := by omega
    rw [hcount]
    exact hrefs.pop
  · intro other hother
    simp [BlockUser.goTo, BlockPoolPc.references, hpc, Ne.symm hother]
  · apply h.placed.hand hold
    · simp [hpc, BlockPoolPc.token]
    · simp [BlockPoolPc.token]
    · simp [BlockPoolPc.token]
    · simp [hplace]
    · simp [eq_comm]
  · trivial
  · exact hrest
  · exact hnodup
  · intro other
    by_cases hother : other = node
    · rw [hother, Function.update_self]
      exact iff_of_false hnotMem (by simp)
    · rw [Function.update_of_ne hother, ← h.listed other, List.mem_cons]
      simp [hother]
  · simp [hplace]
  · exact Nat.zero_le _

theorem releaseBoth (h : PoolInv pool place chain)
    (hold : pool.locals thread = old) (hpc : old.pc = .releasingTwo node) :
    PoolInv
      ⟨pool.shared.setRefs node (pool.shared.freeListRefs node - 2),
        Function.update pool.locals thread (old.receive node)⟩
      (Function.update place node (.held thread .owned)) chain := by
  have hplace := (h.placed thread node .popped).mp
    (hold ▸ .inr (by rw [hpc]; rfl))
  have hrefs := h.refs node
  rw [hplace] at hrefs
  apply h.recount hold
  · intro count hcount
    rw [hpc] at hcount
    simp only [BlockUser.receive, BlockPoolPc.references, if_true,
      Nat.add_zero] at hcount
    rw [← hcount] at hrefs
    exact hrefs.releaseTwo
  · intro other hother
    simp [BlockUser.receive, BlockPoolPc.references, hpc, Ne.symm hother]
  · apply h.placed.receive hold
    · simp [hpc, BlockPoolPc.token, eq_comm]
    · simp [hplace, eq_comm]
  · trivial
  · simp [hplace]
  · simp [hplace]
  · exact Nat.zero_le _

/-- The count of the block that one is about to release. -/
theorem refs_releasing (h : PoolInv pool place chain)
    (hold : pool.locals thread = old) {head : Option (Fin blocks)}
    (hpc : old.pc = .releasing node head) :
    ∃ count, references pool.locals node = count + 1 ∧
      RefsOf (pool.shared.freeListRefs node) (count + 1) (place node) := by
  have hle := le_references pool.locals thread node
  rw [hold, hpc] at hle
  simp only [BlockPoolPc.references, if_true] at hle
  refine ⟨references pool.locals node - 1, by omega, ?_⟩
  rw [Nat.sub_add_cancel hle]
  exact h.refs node

theorem releaseLast (h : PoolInv pool place chain)
    (hthreads : 2 * threads + 2 < 2 ^ 31) (hold : pool.locals thread = old)
    {head : Option (Fin blocks)} (hpc : old.pc = .releasing node head)
    (hlast : pool.shared.freeListRefs node = SHOULD_BE_ON_FREELIST + 1) :
    PoolInv
      ⟨pool.shared.setRefs node (pool.shared.freeListRefs node - 1),
        Function.update pool.locals thread
          (old.goTo (.linking node (.tryGet head)))⟩
      (Function.update place node (.held thread .linking)) chain := by
  obtain ⟨rest, hcount, hrefs⟩ := h.refs_releasing hold hpc
  have hbound := references_le pool.locals node
  have hplace := hrefs.waiting_of_last (by omega) hlast
  have hnext := hrefs.release (by omega) thread
  rw [if_pos hlast] at hnext
  apply h.recount hold
  · intro count hupdated
    rw [hpc] at hupdated
    simp only [BlockUser.goTo, BlockPoolPc.references, if_true] at hupdated
    have heq : count = rest := by omega
    rw [heq]
    exact hnext
  · intro other hother
    simp [BlockUser.goTo, BlockPoolPc.references, hpc, Ne.symm hother]
  · apply h.placed.hand hold
    · simp [hpc, BlockPoolPc.token]
    · simp [BlockPoolPc.token]
    · simp [BlockPoolPc.token]
    · simp [hplace]
    · simp [eq_comm]
  · trivial
  · simp [hplace]
  · simp [hplace]
  · exact Nat.zero_le _

theorem releaseOne (h : PoolInv pool place chain)
    (hthreads : 2 * threads + 2 < 2 ^ 31) (hold : pool.locals thread = old)
    {head : Option (Fin blocks)} (hpc : old.pc = .releasing node head)
    (hlast : pool.shared.freeListRefs node ≠ SHOULD_BE_ON_FREELIST + 1) :
    PoolInv
      ⟨pool.shared.setRefs node (pool.shared.freeListRefs node - 1),
        Function.update pool.locals thread (old.goTo (.whileHead head))⟩
      place chain := by
  obtain ⟨rest, hcount, hrefs⟩ := h.refs_releasing hold hpc
  have hbound := references_le pool.locals node
  have hnext := hrefs.release (by omega) thread
  rw [if_neg hlast] at hnext
  have hwhile : ∀ other,
      (old.goTo (.whileHead head)).pc.references other = 0 :=
    BlockPoolPc.references_returnTo (.tryGet head)
  have hone : old.pc.references node = 1 := by
    rw [hpc]
    exact if_pos rfl
  rw [← Function.update_eq_self node place]
  apply h.recount hold
  · intro count hupdated
    have heq : count = rest := by
      have hzero := hwhile node
      omega
    rw [heq]
    exact hnext
  · intro other hother
    rw [hwhile other, hpc]
    exact (if_neg (Ne.symm hother)).symm
  · rw [Function.update_eq_self]
    apply h.placed.update
    intro other stage
    have hwhile := BlockPoolPc.token_returnTo (.tryGet head)
    change (BlockPoolPc.whileHead head).token = none at hwhile
    have hreleasing : (BlockPoolPc.releasing node head).token = none := rfl
    simp only [BlockUser.Holds, BlockUser.goTo, hold, hpc, hwhile, hreleasing]
  · exact BlockPoolPc.remembers_returnTo (.tryGet head) _
  · rfl
  · rfl
  · rw [hpc]
    exact Nat.le_of_eq (BlockPoolPc.taking_returnTo (.tryGet head))

/-! ## The steps of `add` -/

theorem startAdd (h : PoolInv pool place chain)
    (hold : pool.locals thread = old) (hpc : old.pc = .idle)
    (hmem : node ∈ old.owned) :
    PoolInv
      ⟨pool.shared, Function.update pool.locals thread (old.giveUp node)⟩
      (Function.update place node (.held thread .giving)) chain := by
  have hplace := (h.placed thread node .owned).mp (hold ▸ .inl ⟨rfl, hmem⟩)
  have hrefs := h.refs node
  rw [hplace] at hrefs
  have hshared : pool.shared =
      pool.shared.setRefs node (pool.shared.freeListRefs node) := by
    rw [BlockPool.setRefs, Function.update_eq_self]
  rw [hshared]
  apply h.recount hold
  · intro count hcount
    rw [hpc] at hcount
    simp only [BlockUser.giveUp, BlockPoolPc.references,
      Nat.add_zero] at hcount
    rw [hcount]
    exact ⟨hrefs.counted, by simp, by simp⟩
  · intro other _
    simp [BlockUser.giveUp, BlockPoolPc.references, hpc]
  · exact h.placed.giveUp hold (by rw [hpc]; rfl) hmem
  · trivial
  · simp [hplace]
  · simp [hplace]
  · exact Nat.zero_le _

/-- A block goes to the thread that will put it on the list, or waits. -/
theorem linkOrWait (h : PoolInv pool place chain)
    (hold : pool.locals thread = old) {stage : Stage}
    (htoken : old.pc.token = some (node, stage)) (hstage : stage ≠ .owned)
    {pc : BlockPoolPc blocks} {refs : UInt32} {there : Place threads}
    (hthere : (pc.token = some (node, .linking) ∧
        there = .held thread .linking) ∨
      (pc.token = none ∧ there = .waiting))
    (hrefs : ∀ count, count + old.pc.references node =
        references pool.locals node + pc.references node →
      RefsOf refs count there)
    (hreferences : ∀ other, other ≠ node →
      pc.references other = old.pc.references other)
    (hremembers : pc.Remembers pool.shared.freeListNext)
    (htaking : pc.taking ≤ old.pc.taking) :
    PoolInv
      ⟨pool.shared.setRefs node refs,
        Function.update pool.locals thread (old.goTo pc)⟩
      (Function.update place node there) chain := by
  have hplace := (h.placed thread node stage).mp (hold ▸ .inr htoken)
  apply h.recount hold hrefs hreferences
  · apply h.placed.hand hold
    · simp [htoken, eq_comm]
    · rcases hthere with ⟨hpc, -⟩ | ⟨hpc, -⟩ <;> simp [hpc, eq_comm]
    · rcases hthere with ⟨hpc, rfl⟩ | ⟨hpc, rfl⟩ <;> simp [hpc]
    · intro holder other hheld
      rw [hplace] at hheld
      cases hheld
      exact ⟨rfl, hstage⟩
    · rcases hthere with ⟨-, rfl⟩ | ⟨-, rfl⟩ <;> simp [eq_comm]
  · exact hremembers
  · rcases hthere with ⟨-, rfl⟩ | ⟨-, rfl⟩ <;> simp [hplace]
  · rcases hthere with ⟨-, rfl⟩ | ⟨-, rfl⟩ <;> simp [hplace]
  · exact htaking

theorem add (h : PoolInv pool place chain)
    (hthreads : 2 * threads + 2 < 2 ^ 31) (hold : pool.locals thread = old)
    (hpc : old.pc = .adding node) :
    ∃ there, PoolInv
      ⟨pool.shared.setRefs node
          (pool.shared.freeListRefs node + SHOULD_BE_ON_FREELIST),
        Function.update pool.locals thread (old.goTo
          (if pool.shared.freeListRefs node = 0 then .linking node .add
            else .idle))⟩
      (Function.update place node there) chain := by
  have htoken : old.pc.token = some (node, .giving) := by rw [hpc]; rfl
  have hplace := (h.placed thread node .giving).mp (hold ▸ .inr htoken)
  have hbound := references_le pool.locals node
  have hrefs := h.refs node
  rw [hplace] at hrefs
  have hnext := hrefs.add (by omega)
  refine ⟨if pool.shared.freeListRefs node = 0 then .held thread .linking
    else .waiting, h.linkOrWait hold htoken nofun ?_ ?_ ?_ ?_ ?_⟩
  · split
    · exact .inl ⟨rfl, rfl⟩
    · exact .inr ⟨rfl, rfl⟩
  · intro count hcount
    have heq : count = references pool.locals node := by
      rw [hpc] at hcount
      split at hcount <;> exact hcount
    rw [heq]
    exact hnext
  · intro other _
    rw [hpc]
    split <;> rfl
  · split <;> trivial
  · split <;> exact Nat.zero_le _

theorem readd (h : PoolInv pool place chain)
    (hthreads : 2 * threads + 2 < 2 ^ 31) (hold : pool.locals thread = old)
    {head : Option (Fin blocks)} {caller : AddCaller blocks}
    (hpc : old.pc = .readding node head caller) :
    ∃ there, PoolInv
      ⟨pool.shared.setRefs node
          (pool.shared.freeListRefs node + (SHOULD_BE_ON_FREELIST - 1)),
        Function.update pool.locals thread (old.goTo
          (if pool.shared.freeListRefs node = 1
            then .storingNext node head caller else .returnTo caller))⟩
      (Function.update place node there) chain := by
  have htoken : old.pc.token = some (node, .pushing) := by rw [hpc]; rfl
  have hplace := (h.placed thread node .pushing).mp (hold ▸ .inr htoken)
  have hone : old.pc.references node = 1 := by
    rw [hpc]
    exact if_pos rfl
  have hle := le_references pool.locals thread node
  rw [hold, hone] at hle
  have hbound := references_le pool.locals node
  have hrefs := h.refs node
  rw [hplace, ← Nat.sub_add_cancel hle] at hrefs
  have hnext := hrefs.readd (by omega)
  have hreturns := BlockPoolPc.references_returnTo caller
  refine ⟨if pool.shared.freeListRefs node = 1 then .held thread .linking
    else .waiting, h.linkOrWait hold htoken nofun ?_ ?_ ?_ ?_ ?_⟩
  · split
    · exact .inl ⟨rfl, rfl⟩
    · exact .inr ⟨BlockPoolPc.token_returnTo caller, rfl⟩
  · intro count hcount
    have heq : count = references pool.locals node - 1 := by
      rw [hone] at hcount
      split at hcount
      · change count + 1 = _ + 0 at hcount
        omega
      · rw [hreturns node] at hcount
        omega
    rw [heq]
    exact hnext
  · intro other hother
    have hzero : old.pc.references other = 0 := by
      rw [hpc]
      exact if_neg (Ne.symm hother)
    rw [hzero]
    split
    · rfl
    · exact hreturns other
  · split
    · trivial
    · exact BlockPoolPc.remembers_returnTo caller _
  · split
    · exact Nat.zero_le _
    · rw [BlockPoolPc.taking_returnTo]
      exact Nat.zero_le _

/-- Nobody else reads or writes the link of a block without references. -/
theorem storeNext (h : PoolInv pool place chain)
    (hold : pool.locals thread = old) {head : Option (Fin blocks)}
    {caller : AddCaller blocks} (hpc : old.pc = .storingNext node head caller) :
    PoolInv
      ⟨pool.shared.setNext node head, Function.update pool.locals thread
        (old.goTo (.storingRefs node head caller))⟩
      place chain := by
  have hplace := (h.placed thread node .linking).mp
    (hold ▸ .inr (by rw [hpc]; rfl))
  have hzero := (h.refs node).linking thread hplace
  have hidle : ∀ other, old.pc.references other = 0 := by
    rw [hpc]
    exact fun _ => rfl
  refine ⟨?_, h.placed.update ?_,
    user_remembers_update ?_ ?_, h.linked.congr ?_,
    h.nodup, h.listed, h.untaken,
    h.taking_update hold (.inl (Nat.zero_le _))⟩
  · intro other
    have hsum := references_update pool.locals thread
      (old.goTo (.storingRefs node head caller)) other
    rw [hold, hidle other] at hsum
    have hcount : references (Function.update pool.locals thread
        (old.goTo (.storingRefs node head caller))) other =
          references pool.locals other := hsum
    rw [hcount]
    exact h.refs other
  · intro other stage
    simp [BlockUser.Holds, BlockUser.goTo, BlockPoolPc.token, hold, hpc]
  · exact Function.update_self ..
  · intro other hother
    have hremembers := h.remembers other
    have hnone := le_references pool.locals other node
    have hfree : ∀ stage, (pool.locals other).pc.token ≠ some (node, stage) := by
      intro stage htoken
      have hheld := (h.placed other node stage).mp (.inr htoken)
      rw [hplace] at hheld
      cases hheld
      exact hother rfl
    rw [hzero] at hnone
    exact hremembers.setNext (Nat.le_zero.mp hnone) hfree
  · intro other hother
    apply Function.update_of_ne
    rintro rfl
    have hlisted := (h.listed other).mp hother
    rw [hplace] at hlisted
    exact nomatch hlisted

theorem storeRefs (h : PoolInv pool place chain)
    (hold : pool.locals thread = old) {head : Option (Fin blocks)}
    {caller : AddCaller blocks} (hpc : old.pc = .storingRefs node head caller) :
    PoolInv
      ⟨pool.shared.setRefs node 1, Function.update pool.locals thread
        (old.goTo (.pushing node head caller))⟩
      (Function.update place node (.held thread .pushing)) chain := by
  have hplace := (h.placed thread node .linking).mp
    (hold ▸ .inr (by rw [hpc]; rfl))
  have hremembers := h.remembers thread
  rw [hold, hpc] at hremembers
  have hrefs := h.refs node
  rw [hplace] at hrefs
  apply h.recount hold
  · intro count hcount
    rw [hpc] at hcount
    simp only [BlockUser.goTo, BlockPoolPc.references, if_true,
      Nat.add_zero] at hcount
    rw [hcount]
    exact hrefs.publish
  · intro other hother
    simp [BlockUser.goTo, BlockPoolPc.references, hpc, Ne.symm hother]
  · apply h.placed.hand hold
    · simp [hpc, BlockPoolPc.token, eq_comm]
    · simp [BlockPoolPc.token, eq_comm]
    · simp [BlockPoolPc.token]
    · simp [hplace, eq_comm]
    · simp [eq_comm]
  · exact hremembers
  · simp [hplace]
  · simp [hplace]
  · exact Nat.zero_le _

theorem push (h : PoolInv pool place chain) (hold : pool.locals thread = old)
    {caller : AddCaller blocks}
    (hpc : old.pc = .pushing node pool.shared.freeListHead caller) :
    PoolInv
      ⟨pool.shared.setHead (some node), Function.update pool.locals thread
        (old.goTo (.returnTo caller))⟩
      (Function.update place node .listed) (node :: chain) := by
  have hplace := (h.placed thread node .pushing).mp
    (hold ▸ .inr (by rw [hpc]; rfl))
  have hremembers := h.remembers thread
  rw [hold, hpc] at hremembers
  have hone : old.pc.references node = 1 := by
    rw [hpc]
    exact if_pos rfl
  have hle := le_references pool.locals thread node
  rw [hold, hone] at hle
  have hrefs := h.refs node
  rw [hplace, ← Nat.sub_add_cancel hle] at hrefs
  have hnotMem : node ∉ chain := by
    rw [h.listed node, hplace]
    exact nofun
  have hreturns : ∀ other,
      (old.goTo (.returnTo caller)).pc.references other = 0 :=
    BlockPoolPc.references_returnTo caller
  have hshared : pool.shared.setHead (some node) =
      (pool.shared.setRefs node (pool.shared.freeListRefs node)).setHead
        (some node) := by
    rw [BlockPool.setRefs, Function.update_eq_self]
  rw [hshared]
  apply h.change hold
  · intro count hcount
    have heq : count = references pool.locals node - 1 := by
      have hzero := hreturns node
      omega
    rw [heq]
    exact hrefs.push
  · intro other hother
    rw [hreturns other, hpc]
    exact (if_neg (Ne.symm hother)).symm
  · have htoken := BlockPoolPc.token_returnTo caller
    apply h.placed.hand hold
    · simp [hpc, BlockPoolPc.token, eq_comm]
    · simp [htoken]
    · simp [htoken]
    · simp [hplace, eq_comm]
    · simp
  · exact BlockPoolPc.remembers_returnTo caller _
  · exact h.linked.push hremembers
  · exact List.nodup_cons.mpr ⟨hnotMem, h.nodup⟩
  · intro other
    by_cases hother : other = node
    · rw [hother, Function.update_self]
      exact iff_of_true List.mem_cons_self rfl
    · rw [Function.update_of_ne hother, ← h.listed other, List.mem_cons]
      simp [hother]
  · simp [hplace]
  · change (BlockPoolPc.returnTo caller).taking ≤ _
    rw [BlockPoolPc.taking_returnTo]
    exact Nat.zero_le _

/-! ## Every step keeps the invariant -/

theorem call (h : PoolInv pool place chain) (hold : pool.locals thread = old)
    (hpc : old.pc = .idle) {call : BlockPoolCall blocks}
    {shared : BlockPool blocks}
    (hstep : callStep pool.shared old call = some (shared, user)) :
    ∃ place chain, PoolInv
      ⟨shared, Function.update pool.locals thread user⟩ place chain := by
  cases call with
  | requisition_block =>
      rw [callStep] at hstep
      split at hstep
      · cases hstep
        exact ⟨_, _, h.move hold (by rw [hpc]; rfl)
          (by rw [hpc]; exact fun _ => rfl) trivial (.inl (Nat.zero_le _))⟩
      · rename_i hless
        cases hstep
        exact ⟨_, _, h.move hold (by rw [hpc]; rfl)
          (by rw [hpc]; exact fun _ => rfl) trivial (.inr (by omega))⟩
  | add_block_to_free_list node =>
      rw [callStep] at hstep
      split at hstep
      · rename_i hmem
        cases hstep
        exact ⟨_, _, h.startAdd hold hpc hmem⟩
      · exact nomatch hstep

theorem step (h : PoolInv pool place chain)
    (hthreads : 2 * threads + 2 < 2 ^ 31) (hbound : blocks + threads < 2 ^ 64)
    (hold : pool.locals thread = old) {call : BlockPoolCall blocks}
    {shared : BlockPool blocks}
    (hstep : blockPoolStep pool.shared old call = some (shared, user)) :
    ∃ place chain, PoolInv
      ⟨shared, Function.update pool.locals thread user⟩ place chain := by
  cases hpc : old.pc with
  | idle =>
      simp only [blockPoolStep, hpc] at hstep
      exact h.call hold hpc hstep
  | takingFromPool =>
      simp only [blockPoolStep, hpc] at hstep
      split at hstep
      · cases hstep
        exact ⟨_, _, h.takeBlock hbound hold hpc rfl⟩
      · rename_i hempty
        cases hstep
        exact ⟨_, _, h.takeNothing hbound hold hpc (Nat.le_of_not_lt hempty)⟩
  | loadingHead =>
      simp only [blockPoolStep, hpc] at hstep
      cases hstep
      refine ⟨_, _, h.move hold ?_ ?_ ?_ (.inl ?_)⟩
      · rw [hpc]
        exact BlockPoolPc.token_returnTo (.tryGet _)
      · rw [hpc]
        exact BlockPoolPc.references_returnTo (.tryGet _)
      · exact BlockPoolPc.remembers_returnTo (.tryGet _) _
      · exact Nat.le_of_eq (BlockPoolPc.taking_returnTo (.tryGet _)) |>.trans
          (Nat.zero_le _)
  | loadingRefs head =>
      simp only [blockPoolStep, hpc] at hstep
      split at hstep
      · cases hstep
        exact ⟨_, _, h.move hold (by rw [hpc]; rfl)
          (by rw [hpc]; exact fun _ => rfl) trivial (.inl (Nat.zero_le _))⟩
      · rename_i hrefs
        cases hstep
        exact ⟨_, _, h.move hold (by rw [hpc]; rfl)
          (by rw [hpc]; exact fun _ => rfl) hrefs (.inl (Nat.zero_le _))⟩
  | acquiring head refs =>
      simp only [blockPoolStep, hpc] at hstep
      split at hstep
      · rename_i hrefs
        cases hstep
        rw [← hrefs] at hpc ⊢
        exact ⟨_, _, h.acquire hthreads hold hpc⟩
      · cases hstep
        exact ⟨_, _, h.move hold (by rw [hpc]; rfl)
          (by rw [hpc]; exact fun _ => rfl) trivial (.inl (Nat.zero_le _))⟩
  | loadingNext head =>
      simp only [blockPoolStep, hpc] at hstep
      cases hstep
      exact ⟨_, _, h.move hold (by rw [hpc]; rfl)
        (by rw [hpc]; exact fun _ => rfl) rfl (.inl (Nat.zero_le _))⟩
  | popping head next =>
      simp only [blockPoolStep, hpc] at hstep
      split at hstep
      · rename_i hhead
        cases hstep
        obtain ⟨rest, -, hinv⟩ := h.pop hold hpc hhead
        exact ⟨_, rest, hinv⟩
      · cases hstep
        exact ⟨_, _, h.move hold (by rw [hpc]; rfl)
          (by rw [hpc]; exact fun _ => rfl) trivial (.inl (Nat.zero_le _))⟩
  | releasingTwo head =>
      simp only [blockPoolStep, hpc] at hstep
      cases hstep
      exact ⟨_, _, h.releaseBoth hold hpc⟩
  | releasing prevHead head =>
      simp only [blockPoolStep, hpc] at hstep
      cases hstep
      by_cases hlast :
          pool.shared.freeListRefs prevHead = SHOULD_BE_ON_FREELIST + 1
      · rw [if_pos hlast]
        exact ⟨_, _, h.releaseLast hthreads hold hpc hlast⟩
      · rw [if_neg hlast]
        exact ⟨_, _, h.releaseOne hthreads hold hpc hlast⟩
  | adding node =>
      simp only [blockPoolStep, hpc] at hstep
      cases hstep
      obtain ⟨there, hinv⟩ := h.add hthreads hold hpc
      exact ⟨_, _, hinv⟩
  | linking node caller =>
      simp only [blockPoolStep, hpc] at hstep
      cases hstep
      exact ⟨_, _, h.move hold (by rw [hpc]; rfl)
        (by rw [hpc]; exact fun _ => rfl) trivial (.inl (Nat.zero_le _))⟩
  | storingNext node head caller =>
      simp only [blockPoolStep, hpc] at hstep
      cases hstep
      exact ⟨_, _, h.storeNext hold hpc⟩
  | storingRefs node head caller =>
      simp only [blockPoolStep, hpc] at hstep
      cases hstep
      exact ⟨_, _, h.storeRefs hold hpc⟩
  | pushing node head caller =>
      simp only [blockPoolStep, hpc] at hstep
      split at hstep
      · rename_i hhead
        cases hstep
        exact ⟨_, _, h.push hold (hhead ▸ hpc)⟩
      · cases hstep
        exact ⟨_, _, h.move hold (by rw [hpc]; rfl)
          (by rw [hpc]; exact fun _ => rfl) trivial (.inl (Nat.zero_le _))⟩
  | readding node head caller =>
      simp only [blockPoolStep, hpc] at hstep
      cases hstep
      obtain ⟨there, hinv⟩ := h.readd hthreads hold hpc
      exact ⟨_, _, hinv⟩

end PoolInv

theorem poolInv_reachable
    {pool : Pool threads (BlockPool blocks) (BlockUser blocks)}
    (hthreads : 2 * threads + 2 < 2 ^ 31) (hbound : blocks + threads < 2 ^ 64)
    (h : (blockPoolSystem threads blocks).Reachable pool) :
    ∃ place chain, PoolInv pool place chain := by
  refine h.invariant (fun pool => ∃ place chain, PoolInv pool place chain) ?_ ?_
  · rintro ⟨shared, locals⟩ ⟨hshared, hlocals⟩
    cases hshared
    cases hlocals
    exact ⟨_, _, poolInv_initial⟩
  · rintro pool ⟨thread, call⟩ next ⟨place, chain, hinv⟩ hstep
    obtain ⟨shared, user, hmoved, rfl⟩ := interleave_step_iff.mp hstep
    exact hinv.step hthreads hbound rfl hmoved

/-! ## What the users of the pool may rely on -/

/-- A block is never handed to two threads, nor to one while it is on the free
list, and the assertion of `try_get` holds. -/
theorem block_exclusive
    {pool : Pool threads (BlockPool blocks) (BlockUser blocks)}
    (hthreads : 2 * threads + 2 < 2 ^ 31) (hbound : blocks + threads < 2 ^ 64)
    (h : (blockPoolSystem threads blocks).Reachable pool) :
    (∀ first second node, node ∈ (pool.locals first).owned →
      node ∈ (pool.locals second).owned → first = second) ∧
    (∀ thread node, (pool.locals thread).pc = .releasingTwo node →
      (pool.shared.freeListRefs node).toNat < SHOULD_BE_ON_FREELIST.toNat) ∧
    ∃ chain, Linked pool.shared.freeListNext pool.shared.freeListHead chain ∧
      chain.Nodup ∧
      ∀ node ∈ chain, ∀ thread, node ∉ (pool.locals thread).owned := by
  obtain ⟨place, chain, hinv⟩ := poolInv_reachable hthreads hbound h
  refine ⟨?_, ?_, chain, hinv.linked, hinv.nodup, ?_⟩
  · intro first second node hfirst hsecond
    have hplaceFirst := (hinv.placed first node .owned).mp (.inl ⟨rfl, hfirst⟩)
    have hplaceSecond :=
      (hinv.placed second node .owned).mp (.inl ⟨rfl, hsecond⟩)
    rw [hplaceFirst] at hplaceSecond
    cases hplaceSecond
    rfl
  · intro thread node hpc
    have hplace := (hinv.placed thread node .popped).mp (.inr (by rw [hpc]; rfl))
    have hcounted := (hinv.refs node).counted
    have hle := references_le pool.locals node
    have hbit : SHOULD_BE_ON_FREELIST.toNat = 2 ^ 31 := rfl
    rw [hplace, Place.weight] at hcounted
    omega
  · intro node hnode thread howned
    have hlisted := (hinv.listed node).mp hnode
    rw [(hinv.placed thread node .owned).mp (.inl ⟨rfl, howned⟩)] at hlisted
    cases hlisted

/-- One thread takes the only block and gives it back, then the other asks for
it. -/
def handOver : List (Fin 2 × BlockPoolCall 1) :=
  List.replicate 2 (⟨0, Nat.two_pos⟩, .requisition_block) ++
    List.replicate 6
      (⟨0, Nat.two_pos⟩, .add_block_to_free_list ⟨0, Nat.one_pos⟩) ++
    List.replicate 7 (⟨1, Nat.one_lt_two⟩, .requisition_block)

theorem block_exclusive_handOver :
    ∃ pool : Pool 2 (BlockPool 1) (BlockUser 1),
      (blockPoolSystem 2 1).run ⟨.initial, fun _ => ⟨∅, .idle⟩⟩ handOver =
          some pool ∧
        0 ∈ (pool.locals 1).owned ∧ 0 ∉ (pool.locals 0).owned := by
  have hview : ((blockPoolSystem 2 1).run ⟨.initial, fun _ => ⟨∅, .idle⟩⟩
      handOver).map (fun pool => (pool.locals 1).owned) = some {0} := by
    decide +kernel
  obtain ⟨pool, hrun, howned⟩ := Option.map_eq_some_iff.mp hview
  have hreachable : (blockPoolSystem 2 1).Reachable pool :=
    .of_run ⟨rfl, rfl⟩ hrun
  have hexclusive :=
    block_exclusive (by decide) (by decide) hreachable
  have hmem : 0 ∈ (pool.locals 1).owned := by simp [howned]
  refine ⟨pool, hrun, hmem, ?_⟩
  intro hother
  exact absurd (hexclusive.1 0 1 0 hother hmem) (by decide)

theorem PoolInv.place_idle
    {pool : Pool threads (BlockPool blocks) (BlockUser blocks)}
    {place : Fin blocks → Place threads} {chain : List (Fin blocks)}
    (h : PoolInv pool place chain)
    (hidle : ∀ thread, (pool.locals thread).pc = .idle) (node : Fin blocks) :
    pool.shared.initialBlockPoolIndex.toNat ≤ node ∨
      (node ∈ chain ∧ pool.shared.freeListRefs node = 1) ∨
      (∃ thread, node ∈ (pool.locals thread).owned) := by
  have hrefs := h.refs node
  have hnone : references pool.locals node = 0 := by
    apply Finset.sum_eq_zero
    intro thread _
    rw [hidle thread]
    rfl
  rw [hnone] at hrefs
  cases hplace : place node with
  | untaken => exact .inl ((h.untaken node).mp hplace)
  | waiting => exact absurd (hrefs.waiting hplace) (Nat.lt_irrefl 0)
  | listed =>
      refine .inr (.inl ⟨(h.listed node).mpr hplace, ?_⟩)
      have hcounted := hrefs.counted
      rw [hplace] at hcounted
      exact UInt32.toNat_inj.mp hcounted
  | held thread stage =>
      refine .inr (.inr ⟨thread, ?_⟩)
      rcases (h.placed thread node stage).mpr hplace with ⟨-, howned⟩ | htoken
      · exact howned
      · rw [hidle thread] at htoken
        exact nomatch htoken

/-- A thread by itself, while no other call is under way. -/
theorem solo_requisition (shared : BlockPool blocks) {user : BlockUser blocks}
    (hidle : user.pc = .idle) :
    (∀ h : shared.initialBlockPoolIndex.toNat < blocks,
      solo blockPoolStep .requisition_block 2 shared user =
        some (shared.takeIndex, user.receive ⟨_, h⟩)) ∧
    (∀ node, blocks ≤ shared.initialBlockPoolIndex.toNat →
      shared.freeListHead = some node → shared.freeListRefs node = 1 →
      solo blockPoolStep .requisition_block 7 shared user =
        some (((shared.setRefs node 0).setHead (shared.freeListNext node)),
          user.receive node)) := by
  have hmask : (1 : UInt32) &&& REFS_MASK ≠ 0 := by decide
  constructor
  · intro hless
    simp [solo, blockPoolStep, callStep, hidle, BlockUser.goTo,
      BlockUser.receive, Nat.not_le.mpr hless, hless]
  · intro node hempty hhead hrefs
    simp [solo, blockPoolStep, callStep, hidle, BlockUser.goTo,
      BlockUser.receive, BlockPoolPc.whileHead, BlockPool.setRefs,
      BlockPool.setHead, hempty, hhead, hrefs, hmask]

/-- Until it has its block the thread is in the same call. -/
theorem solo_requisition_busy (shared : BlockPool blocks)
    {user : BlockUser blocks} (hidle : user.pc = .idle) :
    (shared.initialBlockPoolIndex.toNat < blocks →
      ∀ steps, 0 < steps → steps < 2 → ∀ last,
        solo blockPoolStep .requisition_block steps shared user = some last →
        last.2.pc ≠ .idle) ∧
    (∀ node, blocks ≤ shared.initialBlockPoolIndex.toNat →
      shared.freeListHead = some node → shared.freeListRefs node = 1 →
      ∀ steps, 0 < steps → steps < 7 → ∀ last,
        solo blockPoolStep .requisition_block steps shared user = some last →
        last.2.pc ≠ .idle) := by
  have hmask : (1 : UInt32) &&& REFS_MASK ≠ 0 := by decide
  constructor
  · rintro hless steps hpos hsteps last hlast
    obtain rfl : steps = 1 := by omega
    simp only [solo, blockPoolStep, callStep, hidle, BlockUser.goTo,
      Nat.not_le.mpr hless, if_false, Option.bind_some,
      Option.some.injEq] at hlast
    simp [← hlast]
  · intro node hempty hhead hrefs steps hpos hsteps last hlast
    have hcases : steps = 1 ∨ steps = 2 ∨ steps = 3 ∨ steps = 4 ∨ steps = 5 ∨
        steps = 6 := by omega
    rcases hcases with rfl | rfl | rfl | rfl | rfl | rfl <;>
      simp [solo, blockPoolStep, callStep, hidle, BlockUser.goTo,
        BlockPoolPc.whileHead, BlockPool.setRefs, BlockPool.setHead, hempty,
        hhead, hrefs, hmask] at hlast <;>
      simp [← hlast]

/-- The states of a thread that runs by itself. -/
theorem run_solo_busy {thread : Fin threads}
    {pool middle : Pool threads (BlockPool blocks) (BlockUser blocks)}
    {steps : Nat}
    (hbusy : ∀ last, solo blockPoolStep .requisition_block steps pool.shared
      (pool.locals thread) = some last → last.2.pc ≠ .idle)
    (hrun : (blockPoolSystem threads blocks).run pool
      (List.replicate steps (thread, .requisition_block)) = some middle) :
    (middle.locals thread).pc ≠ .idle := by
  rw [blockPoolSystem, run_solo] at hrun
  obtain ⟨last, hlast, rfl⟩ := Option.map_eq_some_iff.mp hrun
  simp only [Function.update_self]
  exact hbusy last hlast

/-- Blocks are not lost: with no call under way, a thread that asks for a block
gets one from this call, in two steps or in seven, as long as one is left, and
it is a block that nobody has. -/
theorem requisition_after_contention
    {pool : Pool threads (BlockPool blocks) (BlockUser blocks)}
    (hthreads : 2 * threads + 2 < 2 ^ 31) (hbound : blocks + threads < 2 ^ 64)
    (h : (blockPoolSystem threads blocks).Reachable pool)
    (hidle : ∀ thread, (pool.locals thread).pc = .idle)
    (hleft : ∃ node, ∀ thread, node ∉ (pool.locals thread).owned)
    (thread : Fin threads) :
    ∃ fuel node shared,
      (fuel = 2 ∨ fuel = 7) ∧
      (∀ other, node ∉ (pool.locals other).owned) ∧
      (blockPoolSystem threads blocks).run pool
          (List.replicate fuel (thread, .requisition_block)) =
        some ⟨shared, Function.update pool.locals thread
          ((pool.locals thread).receive node)⟩ ∧
      ∀ steps, 0 < steps → steps < fuel → ∀ middle,
        (blockPoolSystem threads blocks).run pool
            (List.replicate steps (thread, .requisition_block)) =
          some middle →
        (middle.locals thread).pc ≠ .idle := by
  obtain ⟨place, chain, hinv⟩ := poolInv_reachable hthreads hbound h
  have hsolo := solo_requisition pool.shared (hidle thread)
  have hbusy := solo_requisition_busy pool.shared (hidle thread)
  by_cases hless : pool.shared.initialBlockPoolIndex.toNat < blocks
  · refine ⟨2, ⟨_, hless⟩, pool.shared.takeIndex, .inl rfl, ?_, ?_, ?_⟩
    · intro other howned
      have huntaken := (hinv.untaken ⟨_, hless⟩).mpr (Nat.le_refl _)
      rw [(hinv.placed other _ .owned).mp (.inl ⟨rfl, howned⟩)] at huntaken
      exact nomatch huntaken
    · rw [blockPoolSystem, run_solo, hsolo.1 hless]
      rfl
    · exact fun steps hpos hsteps middle =>
        run_solo_busy (hbusy.1 hless steps hpos hsteps)
  · obtain ⟨left, hleft⟩ := hleft
    have hempty := Nat.le_of_not_lt hless
    have hchain : left ∈ chain := by
      rcases hinv.place_idle hidle left with huntaken | ⟨hmem, -⟩ | ⟨owner, howned⟩
      · have hvalue := left.isLt
        omega
      · exact hmem
      · exact absurd howned (hleft owner)
    cases chain with
    | nil => exact nomatch hchain
    | cons node rest =>
        have hhead := hinv.linked.1
        have hplace := (hinv.listed node).mp List.mem_cons_self
        have hfree : ∀ other, node ∉ (pool.locals other).owned := by
          intro other howned
          rw [(hinv.placed other node .owned).mp (.inl ⟨rfl, howned⟩)] at hplace
          exact nomatch hplace
        have hrefs : pool.shared.freeListRefs node = 1 := by
          rcases hinv.place_idle hidle node with
            huntaken | ⟨-, hone⟩ | ⟨owner, howned⟩
          · have hvalue := node.isLt
            omega
          · exact hone
          · exact absurd howned (hfree owner)
        refine ⟨7, node,
          (pool.shared.setRefs node 0).setHead (pool.shared.freeListNext node),
          .inr rfl, hfree, ?_, ?_⟩
        · rw [blockPoolSystem, run_solo, hsolo.2 node hempty hhead hrefs]
          rfl
        · exact fun steps hpos hsteps middle => run_solo_busy
            (hbusy.2 node hempty hhead hrefs steps hpos hsteps)

theorem requisition_after_contention_handOver :
    ∃ pool : Pool 2 (BlockPool 1) (BlockUser 1), ∃ fuel shared,
      (fuel = 2 ∨ fuel = 7) ∧
      (blockPoolSystem 2 1).run ⟨.initial, fun _ => ⟨∅, .idle⟩⟩
          (handOver.take 8) = some pool ∧
        (blockPoolSystem 2 1).run pool
            (List.replicate fuel (1, .requisition_block)) =
          some ⟨shared, Function.update pool.locals 1
            ((pool.locals 1).receive 0)⟩ := by
  have hview : ((blockPoolSystem 2 1).run ⟨.initial, fun _ => ⟨∅, .idle⟩⟩
      (handOver.take 8)).map (fun pool =>
        ((pool.locals 0).owned, (pool.locals 0).pc, (pool.locals 1).owned,
          (pool.locals 1).pc)) = some (∅, .idle, ∅, .idle) := by
    decide +kernel
  obtain ⟨pool, hrun, hlocals⟩ := Option.map_eq_some_iff.mp hview
  simp only [Prod.mk.injEq] at hlocals
  obtain ⟨hzero, hpcZero, hone, hpcOne⟩ := hlocals
  have hleft : ∀ thread, (0 : Fin 1) ∉ (pool.locals thread).owned :=
    Fin.forall_fin_two.mpr ⟨by simp [hzero], by simp [hone]⟩
  obtain ⟨fuel, node, shared, hfuel, -, hnext, -⟩ :=
    requisition_after_contention (by decide) (by decide)
      (.of_run ⟨rfl, rfl⟩ hrun) (Fin.forall_fin_two.mpr ⟨hpcZero, hpcOne⟩)
      ⟨0, hleft⟩ 1
  rw [Subsingleton.elim node 0] at hnext
  exact ⟨pool, fuel, shared, hfuel, hrun, hnext⟩

end CandCpp.Queue
