import CandCpp.Foundation.Threads
import CandCpp.Foundation.Tickets

/-!
# The counters of one producer's queue in concurrentqueue.h

A producer publishes elements by storing `tailIndex`; any number of consumers
run `dequeue`, which commits itself on `dequeueOptimisticCount` and then either
claims an index with `headIndex` or gives the commitment back on
`dequeueOvercommit`.  Every load and every read-modify-write of an atomic is a
step, and the threads take their steps in any order: the accesses are
sequentially consistent, whatever memory order the source gives them.  The
counters are those of `index_t`, so a run is taken to be shorter than 2 ^ 63,
half of its range.
-/

namespace CandCpp.Queue

open CandCpp.Foundation

/-! ## The circular order -/

def circularLessThan (a b : UInt64) : Bool :=
  decide (a - b > (1 : UInt64) <<< 63)

theorem circularLessThan_iff {a b : UInt64} (ha : a.toNat < 2 ^ 63)
    (hb : b.toNat < 2 ^ 63) :
    circularLessThan a b = true ↔ a.toNat < b.toNat := by
  have hhalf : ((1 : UInt64) <<< 63).toNat = 2 ^ 63 := by decide
  rw [circularLessThan, decide_eq_true_iff, gt_iff_lt, UInt64.lt_iff_toNat_lt,
    hhalf, UInt64.toNat_sub]
  omega

/-! ## States and steps -/

structure Counters where
  tailIndex : UInt64
  headIndex : UInt64
  dequeueOptimisticCount : UInt64
  dequeueOvercommit : UInt64
  deriving DecidableEq, Repr

def Counters.initial : Counters := ⟨0, 0, 0, 0⟩

def Counters.publish (counters : Counters) : Counters :=
  { counters with tailIndex := counters.tailIndex + 1 }

def Counters.commit (counters : Counters) : Counters :=
  { counters with
    dequeueOptimisticCount := counters.dequeueOptimisticCount + 1 }

def Counters.claim (counters : Counters) : Counters :=
  { counters with headIndex := counters.headIndex + 1 }

def Counters.overcommit (counters : Counters) : Counters :=
  { counters with dequeueOvercommit := counters.dequeueOvercommit + 1 }

/-- The points of `dequeue` between two accesses of an atomic; `claimed` goes
on with the element itself. -/
inductive DequeuePc where
  | idle
  | loadingOvercommit (tail : UInt64)
  | testing (tail overcommit : UInt64)
  | committing (overcommit : UInt64)
  | reloadingTail (overcommit myDequeueCount : UInt64)
  | claiming
  | overcommitting
  | claimed (index : UInt64)
  deriving DecidableEq, Repr

def dequeueStep (counters : Counters) : DequeuePc → Counters × DequeuePc
  | .idle => (counters, .loadingOvercommit counters.tailIndex)
  | .loadingOvercommit tail =>
      (counters, .testing tail counters.dequeueOvercommit)
  | .testing tail overcommit =>
      if circularLessThan (counters.dequeueOptimisticCount - overcommit) tail
      then (counters, .committing overcommit)
      else (counters, .idle)
  | .committing overcommit =>
      (counters.commit,
        .reloadingTail overcommit counters.dequeueOptimisticCount)
  | .reloadingTail overcommit myDequeueCount =>
      if circularLessThan (myDequeueCount - overcommit) counters.tailIndex
      then (counters, .claiming)
      else (counters, .overcommitting)
  | .claiming =>
      (counters.claim, .claimed counters.headIndex)
  | .overcommitting => (counters.overcommit, .idle)
  | .claimed _ => (counters, .idle)

inductive CounterAction (consumers : Nat) where
  | publish
  | dequeue (index : Fin consumers)
  deriving DecidableEq, Repr

variable {consumers : Nat}

def counterSystem (consumers : Nat) :
    TransitionSystem (Pool consumers Counters DequeuePc)
      (CounterAction consumers) where
  Initial pool := pool = ⟨.initial, fun _ => .idle⟩
  step pool
    | .publish => some { pool with shared := pool.shared.publish }
    | .dequeue index =>
        let next := dequeueStep pool.shared (pool.locals index)
        some ⟨next.1, Function.update pool.locals index next.2⟩

/-! ## What one step of `dequeue` can do -/

inductive DequeueStep (counters : Counters) :
    DequeuePc → Counters → DequeuePc → Prop
  | loadTail :
      DequeueStep counters .idle counters
        (.loadingOvercommit counters.tailIndex)
  | loadOvercommit {tail : UInt64} :
      DequeueStep counters (.loadingOvercommit tail) counters
        (.testing tail counters.dequeueOvercommit)
  | goOn {tail overcommit : UInt64} :
      circularLessThan (counters.dequeueOptimisticCount - overcommit) tail →
      DequeueStep counters (.testing tail overcommit) counters
        (.committing overcommit)
  | giveUp {tail overcommit : UInt64} :
      ¬ circularLessThan (counters.dequeueOptimisticCount - overcommit) tail →
      DequeueStep counters (.testing tail overcommit) counters .idle
  | commit {overcommit : UInt64} :
      DequeueStep counters (.committing overcommit) counters.commit
        (.reloadingTail overcommit counters.dequeueOptimisticCount)
  | grant {overcommit myDequeueCount : UInt64} :
      circularLessThan (myDequeueCount - overcommit) counters.tailIndex →
      DequeueStep counters (.reloadingTail overcommit myDequeueCount) counters
        .claiming
  | refuse {overcommit myDequeueCount : UInt64} :
      ¬ circularLessThan (myDequeueCount - overcommit) counters.tailIndex →
      DequeueStep counters (.reloadingTail overcommit myDequeueCount) counters
        .overcommitting
  | claim :
      DequeueStep counters .claiming counters.claim
        (.claimed counters.headIndex)
  | overcommit :
      DequeueStep counters .overcommitting counters.overcommit .idle
  | done {index : UInt64} :
      DequeueStep counters (.claimed index) counters .idle

theorem dequeueStep_cases (counters : Counters) (pc : DequeuePc) :
    DequeueStep counters pc (dequeueStep counters pc).1
      (dequeueStep counters pc).2 := by
  cases pc with
  | idle => exact .loadTail
  | loadingOvercommit tail => exact .loadOvercommit
  | testing tail overcommit =>
      rw [dequeueStep]
      split
      · exact .goOn ‹_›
      · exact .giveUp ‹_›
  | committing overcommit => exact .commit
  | reloadingTail overcommit myDequeueCount =>
      rw [dequeueStep]
      split
      · exact .grant ‹_›
      · exact .refuse ‹_›
  | claiming => exact .claim
  | overcommitting => exact .overcommit
  | claimed index => exact .done

/-! ## The ledger of the commitments -/

namespace DequeuePc

/-- A grant that has not claimed its index yet. -/
def grants : DequeuePc → Nat
  | .claiming => 1
  | .idle | .loadingOvercommit _ | .testing _ _ | .committing _
  | .reloadingTail _ _ | .overcommitting | .claimed _ => 0

/-- A refusal that has not been given back yet. -/
def refusals : DequeuePc → Nat
  | .overcommitting => 1
  | .idle | .loadingOvercommit _ | .testing _ _ | .committing _
  | .reloadingTail _ _ | .claiming | .claimed _ => 0

/-- A commitment that is not decided yet. -/
def undecided : DequeuePc → Nat
  | .reloadingTail _ _ => 1
  | .idle | .loadingOvercommit _ | .testing _ _ | .committing _ | .claiming
  | .overcommitting | .claimed _ => 0

/-- What a thread remembers of the counters is still a bound. -/
def Remembers (counters : Counters) (tickets : Tickets) : DequeuePc → Prop
  | .testing _ overcommit | .committing overcommit =>
      overcommit.toNat ≤ counters.dequeueOvercommit.toNat
  | .reloadingTail overcommit myDequeueCount =>
      tickets.Pending myDequeueCount.toNat ∧
        overcommit.toNat ≤ tickets.refusedBefore myDequeueCount.toNat
  | .claimed index => index.toNat < counters.headIndex.toNat
  | .idle | .loadingOvercommit _ | .claiming | .overcommitting => True

/-- No two threads hold one commitment or one index. -/
def Apart : DequeuePc → DequeuePc → Prop
  | .reloadingTail _ first, .reloadingTail _ second => first ≠ second
  | .claimed first, .claimed second => first ≠ second
  | _, _ => True

end DequeuePc

/-- Every commitment is granted, refused or in the hands of one thread. -/
structure Balanced (counters : Counters) (locals : Fin consumers → DequeuePc)
    (tickets : Tickets) : Prop where
  issued : counters.dequeueOptimisticCount.toNat = tickets.issued
  granted : counters.headIndex.toNat + ∑ index, (locals index).grants =
    tickets.granted.card
  refused : counters.dequeueOvercommit.toNat +
    ∑ index, (locals index).refusals = tickets.refused.card
  decided : tickets.granted.card + tickets.refused.card +
    ∑ index, (locals index).undecided = tickets.issued

/-- `steps` bounds the counters that a step increments. -/
structure Ledger (steps : Nat) (pool : Pool consumers Counters DequeuePc)
    (tickets : Tickets) : Prop where
  tail_le : pool.shared.tailIndex.toNat ≤ steps
  issued_le : tickets.issued ≤ steps
  balanced : Balanced pool.shared pool.locals tickets
  justified : tickets.Justified pool.shared.tailIndex.toNat
  remembers : ∀ index, (pool.locals index).Remembers pool.shared tickets
  apart : ∀ first second, first ≠ second →
    (pool.locals first).Apart (pool.locals second)

theorem DequeuePc.Apart.symm {first second : DequeuePc}
    (h : first.Apart second) : second.Apart first := by
  cases first <;> cases second <;> simp_all [DequeuePc.Apart, eq_comm]

theorem DequeuePc.Remembers.mono {counters next : Counters}
    {tickets : Tickets} {pc : DequeuePc} (h : pc.Remembers counters tickets)
    (hovercommit : counters.dequeueOvercommit.toNat ≤
      next.dequeueOvercommit.toNat)
    (hhead : counters.headIndex.toNat ≤ next.headIndex.toNat) :
    pc.Remembers next tickets := by
  cases pc with
  | testing | committing => exact Nat.le_trans h hovercommit
  | reloadingTail => exact h
  | claimed => exact Nat.lt_of_lt_of_le h hhead
  | idle | loadingOvercommit | claiming | overcommitting => trivial

theorem ledger_initial :
    Ledger 0 (⟨.initial, fun _ => .idle⟩ : Pool consumers Counters DequeuePc)
      .none := by
  refine ⟨Nat.le_refl 0, Nat.le_refl 0, ⟨rfl, ?_, ?_, ?_⟩, ?_, ?_, ?_⟩
  · simp [Counters.initial, DequeuePc.grants, Tickets.none]
  · simp [Counters.initial, DequeuePc.refusals, Tickets.none]
  · simp [DequeuePc.undecided, Tickets.none]
  · intro ticket hticket
    simp [Tickets.none] at hticket
  · exact fun _ => trivial
  · exact fun _ _ _ => trivial

/-- What one thread's step adds to the accounts is what it adds to the
tickets. -/
theorem Balanced.update {counters next : Counters}
    {locals : Fin consumers → DequeuePc} {tickets decided : Tickets}
    (h : Balanced counters locals tickets) {index : Fin consumers}
    {old new : DequeuePc} (hpc : locals index = old)
    (hissued : next.dequeueOptimisticCount.toNat = decided.issued)
    (hgranted : next.headIndex.toNat + new.grants + tickets.granted.card =
      counters.headIndex.toNat + old.grants + decided.granted.card)
    (hrefused : next.dequeueOvercommit.toNat + new.refusals +
        tickets.refused.card =
      counters.dequeueOvercommit.toNat + old.refusals + decided.refused.card)
    (hdecided : decided.granted.card + decided.refused.card + new.undecided +
        tickets.issued =
      tickets.granted.card + tickets.refused.card + old.undecided +
        decided.issued) :
    Balanced next (Function.update locals index new) decided := by
  have hsumGrants := sum_update DequeuePc.grants locals index new
  have hsumRefusals := sum_update DequeuePc.refusals locals index new
  have hsumUndecided := sum_update DequeuePc.undecided locals index new
  rw [hpc] at hsumGrants hsumRefusals hsumUndecided
  refine ⟨hissued, ?_, ?_, ?_⟩
  · have hbefore := h.granted
    omega
  · have hbefore := h.refused
    omega
  · have hbefore := h.decided
    omega

theorem remembers_update {locals : Fin consumers → DequeuePc}
    {counters : Counters} {tickets : Tickets} {index : Fin consumers}
    {pc : DequeuePc} (hpc : pc.Remembers counters tickets)
    (hothers : ∀ other, other ≠ index →
      (locals other).Remembers counters tickets) (thread : Fin consumers) :
    (Function.update locals index pc thread).Remembers counters tickets :=
  (Function.forall_update_iff locals
    fun _ pc => pc.Remembers counters tickets).mpr ⟨hpc, hothers⟩ thread

namespace Ledger

variable {steps : Nat} {pool : Pool consumers Counters DequeuePc}
  {tickets : Tickets} {index : Fin consumers}

theorem mono (h : Ledger steps pool tickets) :
    Ledger (steps + 1) pool tickets :=
  { h with
    tail_le := Nat.le_succ_of_le h.tail_le
    issued_le := Nat.le_succ_of_le h.issued_le }

theorem apart_update (h : Ledger steps pool tickets) {pc : DequeuePc}
    (hpc : ∀ other, other ≠ index → pc.Apart (pool.locals other))
    (first second : Fin consumers) (hne : first ≠ second) :
    (Function.update pool.locals index pc first).Apart
      (Function.update pool.locals index pc second) := by
  by_cases hfirst : first = index
  · rw [hfirst, Function.update_self,
      Function.update_of_ne (hfirst ▸ hne.symm)]
    exact hpc second (hfirst ▸ hne.symm)
  · rw [Function.update_of_ne hfirst]
    by_cases hsecond : second = index
    · rw [hsecond, Function.update_self]
      exact (hpc first hfirst).symm
    · rw [Function.update_of_ne hsecond]
      exact h.apart first second hne

/-- A step that only moves one thread on. -/
theorem move (h : Ledger steps pool tickets) {old pc : DequeuePc}
    (hpc : pool.locals index = old) (hgrants : pc.grants = old.grants)
    (hrefusals : pc.refusals = old.refusals)
    (hundecided : pc.undecided = old.undecided)
    (hremembers : pc.Remembers pool.shared tickets)
    (hapart : ∀ other, pc.Apart other) :
    Ledger steps ⟨pool.shared, Function.update pool.locals index pc⟩
      tickets :=
  ⟨h.tail_le, h.issued_le,
    h.balanced.update hpc h.balanced.issued (by rw [hgrants])
      (by rw [hrefusals]) (by rw [hundecided]),
    h.justified, remembers_update hremembers fun other _ => h.remembers other,
    h.apart_update fun other _ => hapart (pool.locals other)⟩

theorem publish (h : Ledger steps pool tickets) (hsteps : steps < 2 ^ 63) :
    Ledger (steps + 1) { pool with shared := pool.shared.publish } tickets := by
  have htail := h.tail_le
  have hnext : pool.shared.publish.tailIndex.toNat =
      pool.shared.tailIndex.toNat + 1 := by
    rw [Counters.publish, UInt64.toNat_add, UInt64.toNat_one]
    omega
  have hbalanced := h.balanced
  refine ⟨?_, Nat.le_succ_of_le h.issued_le,
    ⟨hbalanced.issued, hbalanced.granted, hbalanced.refused,
      hbalanced.decided⟩, ?_, h.remembers, h.apart⟩
  · rw [hnext]
    exact Nat.succ_le_succ htail
  · rw [hnext]
    exact h.justified.mono (Nat.le_succ _)

theorem commit (h : Ledger steps pool tickets) (hsteps : steps < 2 ^ 63)
    {overcommit : UInt64} (hpc : pool.locals index = .committing overcommit) :
    Ledger (steps + 1)
      ⟨pool.shared.commit,
        Function.update pool.locals index
          (.reloadingTail overcommit pool.shared.dequeueOptimisticCount)⟩
      tickets.issue := by
  have hissued := h.balanced.issued
  have hissuedLe := h.issued_le
  have hremembers := h.remembers index
  rw [hpc] at hremembers
  have hnext : pool.shared.commit.dequeueOptimisticCount.toNat =
      pool.shared.dequeueOptimisticCount.toNat + 1 := by
    rw [Counters.commit, UInt64.toNat_add, UInt64.toNat_one]
    omega
  have hpending : tickets.issue.Pending
      pool.shared.dequeueOptimisticCount.toNat := by
    rw [hissued]
    exact Tickets.pending_issue
  -- Whatever was given back so far was refused before this commitment.
  have hovercommit : overcommit.toNat ≤
      tickets.refusedBefore pool.shared.dequeueOptimisticCount.toNat := by
    have hrefused := h.balanced.refused
    rw [Tickets.refusedBefore_of_issued (Nat.le_of_eq hissued.symm)]
    exact Nat.le_trans hremembers (by omega)
  have hbalanced : Balanced pool.shared.commit
      (Function.update pool.locals index
        (.reloadingTail overcommit pool.shared.dequeueOptimisticCount))
      tickets.issue := by
    apply h.balanced.update hpc
    · rw [hnext, hissued]
      rfl
    · rfl
    · rfl
    · simp only [Tickets.issue, DequeuePc.undecided]
      omega
  refine ⟨Nat.le_succ_of_le h.tail_le, Nat.succ_le_succ hissuedLe, hbalanced,
    h.justified, remembers_update ⟨hpending, hovercommit⟩ ?_,
    h.apart_update ?_⟩
  · intro other _
    have hother := h.remembers other
    cases hlocal : pool.locals other with
    | reloadingTail =>
        rw [hlocal] at hother
        exact ⟨hother.1.issue, hother.2⟩
    | idle | loadingOvercommit | testing | committing | claiming
    | overcommitting | claimed =>
        rw [hlocal] at hother
        exact hother
  · intro other _
    have hother := h.remembers other
    cases hlocal : pool.locals other with
    | reloadingTail =>
        rw [hlocal] at hother
        intro heq
        have hless := hother.1.1
        rw [← heq, hissued] at hless
        exact Nat.lt_irrefl _ hless
    | idle | loadingOvercommit | testing | committing | claiming
    | overcommitting | claimed => trivial

/-- The second test of `dequeue` compares numbers, since nothing has wrapped. -/
theorem reloaded_iff (h : Ledger steps pool tickets) (hsteps : steps < 2 ^ 63)
    {overcommit myDequeueCount : UInt64}
    (hpc : pool.locals index = .reloadingTail overcommit myDequeueCount) :
    circularLessThan (myDequeueCount - overcommit) pool.shared.tailIndex ↔
      myDequeueCount.toNat <
        pool.shared.tailIndex.toNat + overcommit.toNat := by
  have htail := h.tail_le
  have hissuedLe := h.issued_le
  have hremembers := h.remembers index
  rw [hpc] at hremembers
  obtain ⟨hpending, hovercommit⟩ := hremembers
  have hle := Nat.le_trans hovercommit Tickets.refusedBefore_le
  have hless := hpending.1
  have hdifference : (myDequeueCount - overcommit).toNat =
      myDequeueCount.toNat - overcommit.toNat :=
    UInt64.toNat_sub_of_le _ _ (UInt64.le_iff_toNat_le.mpr hle)
  rw [circularLessThan_iff (by omega) (by omega), hdifference]
  omega

/-- A commitment is decided for one thread; the others keep theirs. -/
theorem settle (h : Ledger steps pool tickets) {overcommit count : UInt64}
    (hpc : pool.locals index = .reloadingTail overcommit count)
    {decided : Tickets} {pc : DequeuePc}
    (hremembers : pc.Remembers pool.shared decided)
    (hapart : ∀ other, pc.Apart other)
    (hkept : ∀ other, tickets.Pending other → other ≠ count.toNat →
      decided.Pending other ∧
        tickets.refusedBefore other ≤ decided.refusedBefore other)
    (hissued : decided.issued = tickets.issued)
    (hgranted : pc.grants + tickets.granted.card = decided.granted.card)
    (hrefused : pc.refusals + tickets.refused.card = decided.refused.card)
    (hundecided : decided.granted.card + decided.refused.card + pc.undecided =
      tickets.granted.card + tickets.refused.card + 1)
    (hjustified : decided.Justified pool.shared.tailIndex.toNat) :
    Ledger steps ⟨pool.shared, Function.update pool.locals index pc⟩
      decided := by
  have hbalanced : Balanced pool.shared (Function.update pool.locals index pc)
      decided := by
    have hnone : (DequeuePc.reloadingTail overcommit count).grants = 0 := rfl
    have hnone' : (DequeuePc.reloadingTail overcommit count).refusals = 0 := rfl
    have hone : (DequeuePc.reloadingTail overcommit count).undecided = 1 := rfl
    apply h.balanced.update hpc
    · rw [hissued]
      exact h.balanced.issued
    · omega
    · omega
    · omega
  refine ⟨h.tail_le, hissued ▸ h.issued_le, hbalanced, hjustified,
    remembers_update hremembers ?_,
    h.apart_update fun other _ => hapart (pool.locals other)⟩
  intro other hne
  have hother := h.remembers other
  have happart := h.apart other index hne
  rw [hpc] at happart
  cases hlocal : pool.locals other with
  | reloadingTail otherOvercommit otherCount =>
      rw [hlocal] at hother happart
      have hdifferent : otherCount.toNat ≠ count.toNat :=
        fun heq => happart (UInt64.toNat_inj.mp heq)
      obtain ⟨hpending, hle⟩ := hkept _ hother.1 hdifferent
      exact ⟨hpending, Nat.le_trans hother.2 hle⟩
  | idle | loadingOvercommit | testing | committing | claiming
  | overcommitting | claimed =>
      rw [hlocal] at hother
      exact hother

theorem grant (h : Ledger steps pool tickets) (hsteps : steps < 2 ^ 63)
    {overcommit myDequeueCount : UInt64}
    (hpc : pool.locals index = .reloadingTail overcommit myDequeueCount)
    (htest : circularLessThan (myDequeueCount - overcommit)
      pool.shared.tailIndex)
    (hpending : tickets.Pending myDequeueCount.toNat) :
    Ledger steps ⟨pool.shared, Function.update pool.locals index .claiming⟩
      (tickets.grant myDequeueCount.toNat hpending) := by
  have hremembers := h.remembers index
  rw [hpc] at hremembers
  have hovercommit := hremembers.2
  have hless := (h.reloaded_iff hsteps hpc).mp htest
  have hcard := Tickets.card_granted_grant hpending
  apply h.settle hpc
  · trivial
  · exact fun _ => trivial
  · exact fun other hother hne =>
      ⟨hpending.grant hother hne, Nat.le_refl _⟩
  · rfl
  · rw [hcard, DequeuePc.grants, Nat.add_comm]
  · simp only [DequeuePc.refusals, Tickets.grant]
    omega
  · rw [hcard]
    simp only [DequeuePc.undecided, Tickets.grant]
    omega
  · exact h.justified.grant hpending (by omega)

theorem refuse (h : Ledger steps pool tickets)
    {overcommit myDequeueCount : UInt64}
    (hpc : pool.locals index = .reloadingTail overcommit myDequeueCount)
    (hpending : tickets.Pending myDequeueCount.toNat) :
    Ledger steps
      ⟨pool.shared, Function.update pool.locals index .overcommitting⟩
      (tickets.refuse myDequeueCount.toNat hpending) := by
  have hcard := Tickets.card_refused_refuse hpending
  apply h.settle hpc
  · trivial
  · exact fun _ => trivial
  · exact fun other hother hne =>
      ⟨hpending.refuse hother hne,
        Tickets.refusedBefore_le_refuse hpending other⟩
  · rfl
  · simp only [DequeuePc.grants, Tickets.refuse]
    omega
  · rw [hcard, DequeuePc.refusals, Nat.add_comm]
  · rw [hcard]
    simp only [DequeuePc.undecided, Tickets.refuse]
    omega
  · exact h.justified.refuse hpending

/-- Whoever may claim an index finds it below `tailIndex`. -/
theorem head_add_grants_le (h : Ledger steps pool tickets) :
    pool.shared.headIndex.toNat + ∑ index, (pool.locals index).grants ≤
      pool.shared.tailIndex.toNat := by
  rw [h.balanced.granted]
  exact h.justified.card_granted_le

theorem claim (h : Ledger steps pool tickets) (hsteps : steps < 2 ^ 63)
    (hpc : pool.locals index = .claiming) :
    Ledger steps
      ⟨pool.shared.claim,
        Function.update pool.locals index (.claimed pool.shared.headIndex)⟩
      tickets := by
  have htail := h.tail_le
  have hhead := h.head_add_grants_le
  have hnext : pool.shared.claim.headIndex.toNat =
      pool.shared.headIndex.toNat + 1 := by
    rw [Counters.claim, UInt64.toNat_add, UInt64.toNat_one]
    omega
  refine ⟨h.tail_le, h.issued_le, ?_, h.justified, remembers_update ?_ ?_,
    h.apart_update ?_⟩
  · apply h.balanced.update hpc
    · exact h.balanced.issued
    · rw [hnext, DequeuePc.grants, DequeuePc.grants]
    · rfl
    · rfl
  · change pool.shared.headIndex.toNat < pool.shared.claim.headIndex.toNat
    omega
  · intro other _
    apply (h.remembers other).mono
    · exact Nat.le_refl _
    · rw [hnext]
      exact Nat.le_succ _
  · intro other _
    have hother := h.remembers other
    cases hlocal : pool.locals other with
    | claimed claimedIndex =>
        rw [hlocal] at hother
        intro heq
        rw [← heq] at hother
        exact Nat.lt_irrefl _ hother
    | idle | loadingOvercommit | testing | committing | reloadingTail
    | claiming | overcommitting => trivial

theorem overcommit (h : Ledger steps pool tickets) (hsteps : steps < 2 ^ 63)
    (hpc : pool.locals index = .overcommitting) :
    Ledger steps
      ⟨pool.shared.overcommit,
        Function.update pool.locals index .idle⟩
      tickets := by
  have hissuedLe := h.issued_le
  have hdecided := h.balanced.decided
  have hrefused := h.balanced.refused
  have hnext : pool.shared.overcommit.dequeueOvercommit.toNat =
      pool.shared.dequeueOvercommit.toNat + 1 := by
    rw [Counters.overcommit, UInt64.toNat_add, UInt64.toNat_one]
    omega
  refine ⟨h.tail_le, hissuedLe, ?_, h.justified, remembers_update trivial ?_,
    h.apart_update fun _ _ => trivial⟩
  · apply h.balanced.update hpc
    · exact h.balanced.issued
    · rfl
    · rw [hnext, DequeuePc.refusals, DequeuePc.refusals]
    · rfl
  · intro other _
    apply (h.remembers other).mono
    · rw [hnext]
      exact Nat.le_succ _
    · exact Nat.le_refl _

theorem dequeue (h : Ledger steps pool tickets) (hsteps : steps < 2 ^ 63)
    {pc moved : DequeuePc} {counters : Counters}
    (hpc : pool.locals index = pc)
    (hstep : DequeueStep pool.shared pc counters moved) :
    ∃ decided, Ledger (steps + 1)
      ⟨counters, Function.update pool.locals index moved⟩ decided := by
  have hremembers := h.remembers index
  rw [hpc] at hremembers
  cases hstep with
  | loadTail =>
      exact ⟨tickets, Ledger.mono
        (h.move hpc rfl rfl rfl trivial fun _ => trivial)⟩
  | loadOvercommit =>
      exact ⟨tickets, Ledger.mono
        (h.move hpc rfl rfl rfl (Nat.le_refl _) fun _ => trivial)⟩
  | goOn htest =>
      exact ⟨tickets, Ledger.mono
        (h.move hpc rfl rfl rfl hremembers fun _ => trivial)⟩
  | giveUp htest =>
      exact ⟨tickets, Ledger.mono
        (h.move hpc rfl rfl rfl trivial fun _ => trivial)⟩
  | done =>
      exact ⟨tickets, Ledger.mono
        (h.move hpc rfl rfl rfl trivial fun _ => trivial)⟩
  | commit => exact ⟨tickets.issue, h.commit hsteps hpc⟩
  | grant htest => exact ⟨_, (h.grant hsteps hpc htest hremembers.1).mono⟩
  | refuse htest => exact ⟨_, (h.refuse hpc hremembers.1).mono⟩
  | claim => exact ⟨tickets, (h.claim hsteps hpc).mono⟩
  | overcommit => exact ⟨tickets, (h.overcommit hsteps hpc).mono⟩

end Ledger

variable {pool next : Pool consumers Counters DequeuePc}

theorem ledger_step {steps : Nat} {tickets : Tickets}
    {action : CounterAction consumers} (h : Ledger steps pool tickets)
    (hsteps : steps < 2 ^ 63)
    (hstep : (counterSystem consumers).step pool action = some next) :
    ∃ decided, Ledger (steps + 1) next decided := by
  cases action with
  | publish =>
      cases hstep
      exact ⟨tickets, h.publish hsteps⟩
  | dequeue index =>
      cases hstep
      exact h.dequeue hsteps rfl (dequeueStep_cases _ _)

theorem ledger_run {start : Pool consumers Counters DequeuePc}
    {actions : List (CounterAction consumers)}
    (hstart : (counterSystem consumers).Initial start)
    (hrun : (counterSystem consumers).run start actions = some pool)
    (hlength : actions.length ≤ 2 ^ 63) :
    ∃ tickets, Ledger actions.length pool tickets := by
  cases hstart
  refine TransitionSystem.run_induction
    (motive := fun actions pool => actions.length ≤ 2 ^ 63 →
      ∃ tickets, Ledger actions.length pool tickets) ?_ ?_ hrun hlength
  · exact fun _ => ⟨.none, ledger_initial⟩
  · intro actions pool action next ih hstep hlength
    rw [List.length_append, List.length_singleton] at hlength ⊢
    obtain ⟨tickets, hledger⟩ := ih (by omega)
    exact ledger_step hledger (by omega) hstep

/-! ## What consumers may rely on -/

/-- Threads that were granted an index or hold one never get past `tailIndex`,
and never two of them to one element. -/
theorem claimed_below_tail {start : Pool consumers Counters DequeuePc}
    {actions : List (CounterAction consumers)}
    (hstart : (counterSystem consumers).Initial start)
    (hrun : (counterSystem consumers).run start actions = some pool)
    (hlength : actions.length ≤ 2 ^ 63) :
    pool.shared.headIndex.toNat +
        (Finset.univ.filter fun index => pool.locals index = .claiming).card ≤
      pool.shared.tailIndex.toNat ∧
    (∀ index element, pool.locals index = .claimed element →
      element.toNat < pool.shared.headIndex.toNat) ∧
    ∀ first second element, pool.locals first = .claimed element →
      pool.locals second = .claimed element → first = second := by
  obtain ⟨tickets, hledger⟩ := ledger_run hstart hrun hlength
  refine ⟨?_, ?_, ?_⟩
  · have hcount : (Finset.univ.filter fun index =>
          pool.locals index = .claiming).card =
        ∑ index, (pool.locals index).grants := by
      rw [Finset.card_filter]
      apply Finset.sum_congr rfl
      intro index _
      cases pool.locals index <;> simp [DequeuePc.grants]
    rw [hcount]
    exact hledger.head_add_grants_le
  · intro index element hclaimed
    have hremembers := hledger.remembers index
    rw [hclaimed] at hremembers
    exact hremembers
  · intro first second element hfirst hsecond
    by_contra hne
    have happart := hledger.apart first second hne
    rw [hfirst, hsecond] at happart
    exact happart rfl

/-- Two consumers take turns for the only element until one has claimed it. -/
def contention : List (CounterAction 2) :=
  .publish :: (List.replicate 5 [.dequeue ⟨0, Nat.two_pos⟩,
    .dequeue ⟨1, Nat.one_lt_two⟩]).flatten ++ [.dequeue ⟨0, Nat.two_pos⟩]

theorem claimed_below_tail_contention :
    ∃ pool : Pool 2 Counters DequeuePc,
      (counterSystem 2).run ⟨.initial, fun _ => .idle⟩ contention =
          some pool ∧
        pool.locals 0 = .claimed 0 ∧ pool.locals 1 = .overcommitting ∧
        pool.shared.headIndex.toNat ≤ pool.shared.tailIndex.toNat := by
  have hview : ((counterSystem 2).run ⟨.initial, fun _ => .idle⟩
      contention).map (fun pool => (pool.locals 0, pool.locals 1)) =
        some (.claimed 0, .overcommitting) := by decide +kernel
  obtain ⟨pool, hrun, hlocals⟩ := Option.map_eq_some_iff.mp hview
  have hbelow := claimed_below_tail rfl hrun (by decide)
  exact ⟨pool, hrun, congrArg Prod.fst hlocals, congrArg Prod.snd hlocals,
    Nat.le_trans (Nat.le_add_right _ _) hbelow.1⟩

/-! ## A consumer by itself -/

/-- `fuel` steps of one thread. -/
def dequeueAlone : Nat → Counters → DequeuePc → Counters × DequeuePc
  | 0, counters, pc => (counters, pc)
  | fuel + 1, counters, pc =>
      dequeueAlone fuel (dequeueStep counters pc).1 (dequeueStep counters pc).2

theorem run_dequeueAlone (pool : Pool consumers Counters DequeuePc)
    (index : Fin consumers) (fuel : Nat) :
    (counterSystem consumers).run pool
        (List.replicate fuel (.dequeue index)) =
      some ⟨(dequeueAlone fuel pool.shared (pool.locals index)).1,
        Function.update pool.locals index
          (dequeueAlone fuel pool.shared (pool.locals index)).2⟩ := by
  induction fuel generalizing pool with
  | zero => simp [dequeueAlone]
  | succ fuel ih =>
      have hstep : (counterSystem consumers).step pool (.dequeue index) =
          some ⟨(dequeueStep pool.shared (pool.locals index)).1,
            Function.update pool.locals index
              (dequeueStep pool.shared (pool.locals index)).2⟩ := rfl
      rw [List.replicate_succ, TransitionSystem.run_cons, hstep,
        Option.bind_some, ih, dequeueAlone]
      simp only [Function.update_self, Function.update_idem]

/-- `dequeue` sees the elements that nobody has claimed when it starts. -/
theorem dequeueAlone_idle {counters : Counters} :
    (circularLessThan
        (counters.dequeueOptimisticCount - counters.dequeueOvercommit)
        counters.tailIndex →
      dequeueAlone 6 counters .idle =
        (counters.commit.claim, .claimed counters.headIndex)) ∧
    (¬ circularLessThan
        (counters.dequeueOptimisticCount - counters.dequeueOvercommit)
        counters.tailIndex →
      dequeueAlone 3 counters .idle = (counters, .idle)) := by
  constructor
  · intro htest
    simp [dequeueAlone, dequeueStep, Counters.commit, Counters.claim, htest]
  · intro htest
    simp [dequeueAlone, dequeueStep, htest]

/-- With no `dequeue` under way nothing is in flight. -/
theorem Ledger.idle {steps : Nat} {tickets : Tickets}
    (h : Ledger steps pool tickets)
    (hidle : ∀ index, pool.locals index = .idle) :
    (pool.shared.dequeueOptimisticCount - pool.shared.dequeueOvercommit).toNat =
      pool.shared.headIndex.toNat := by
  have hgranted := h.balanced.granted
  have hrefused := h.balanced.refused
  have hdecided := h.balanced.decided
  have hissued := h.balanced.issued
  simp only [hidle, DequeuePc.grants, DequeuePc.refusals, DequeuePc.undecided,
    Finset.sum_const_zero, Nat.add_zero] at hgranted hrefused hdecided
  rw [UInt64.toNat_sub_of_le _ _ (UInt64.le_iff_toNat_le.mpr (by omega))]
  omega

/-- Whatever the contention was, it has neither lost an element nor left one
behind: the next `dequeue` claims the oldest that is left, if there is one. -/
theorem dequeue_after_contention {start : Pool consumers Counters DequeuePc}
    {actions : List (CounterAction consumers)}
    (hstart : (counterSystem consumers).Initial start)
    (hrun : (counterSystem consumers).run start actions = some pool)
    (hlength : actions.length < 2 ^ 63)
    (hidle : ∀ index, pool.locals index = .idle) (index : Fin consumers) :
    (pool.shared.headIndex.toNat < pool.shared.tailIndex.toNat ∧
      (counterSystem consumers).run pool
          (List.replicate 6 (.dequeue index)) =
        some ⟨pool.shared.commit.claim, Function.update pool.locals index
          (.claimed pool.shared.headIndex)⟩) ∨
    (pool.shared.headIndex = pool.shared.tailIndex ∧
      (counterSystem consumers).run pool
        (List.replicate 3 (.dequeue index)) = some pool) := by
  obtain ⟨tickets, hledger⟩ := ledger_run hstart hrun (Nat.le_of_lt hlength)
  have hle := hledger.head_add_grants_le
  have htail := hledger.tail_le
  have hdifference := hledger.idle hidle
  have htest := circularLessThan_iff
    (a := pool.shared.dequeueOptimisticCount - pool.shared.dequeueOvercommit)
    (b := pool.shared.tailIndex) (by omega) (by omega)
  rw [hdifference] at htest
  by_cases hless : pool.shared.headIndex.toNat < pool.shared.tailIndex.toNat
  · refine .inl ⟨hless, ?_⟩
    rw [run_dequeueAlone, hidle index,
      dequeueAlone_idle.1 (htest.mpr hless)]
  · refine .inr ⟨UInt64.toNat_inj.mp (by omega), ?_⟩
    rw [run_dequeueAlone, hidle index,
      dequeueAlone_idle.2 (fun h => hless (htest.mp h)), ← hidle index,
      Function.update_eq_self]

theorem dequeue_after_contention_given_back :
    ∃ pool : Pool 2 Counters DequeuePc,
      (counterSystem 2).run ⟨.initial, fun _ => .idle⟩
          (contention ++ [.dequeue 0, .dequeue 1, .publish]) = some pool ∧
        (counterSystem 2).run pool (List.replicate 6 (.dequeue 1)) =
          some ⟨pool.shared.commit.claim,
            Function.update pool.locals 1 (.claimed pool.shared.headIndex)⟩ := by
  have hview : ((counterSystem 2).run ⟨.initial, fun _ => .idle⟩
      (contention ++ [.dequeue 0, .dequeue 1, .publish])).map
        (fun pool => (pool.shared, pool.locals 0, pool.locals 1)) =
          some (⟨2, 1, 2, 1⟩, .idle, .idle) := by decide +kernel
  obtain ⟨pool, hrun, hlocals⟩ := Option.map_eq_some_iff.mp hview
  simp only [Prod.mk.injEq] at hlocals
  obtain ⟨hshared, hzero, hone⟩ := hlocals
  have hidle : ∀ index, pool.locals index = .idle :=
    Fin.forall_fin_two.mpr ⟨hzero, hone⟩
  rcases dequeue_after_contention rfl hrun (by decide) hidle 1 with
    ⟨-, hclaims⟩ | ⟨hempty, -⟩
  · exact ⟨pool, hrun, hclaims⟩
  · rw [hshared] at hempty
    exact absurd hempty (by decide)

end CandCpp.Queue
