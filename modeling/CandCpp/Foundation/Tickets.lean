import Mathlib.Data.Finset.Max
import Mathlib.Data.Finset.Card

/-!
# Numbered tickets that are granted or refused

Tickets are issued in the order of their numbers and decided in any order.  A
grant is justified by a bound if the tickets up to it, less those refused among
them, fit under the bound; then all grants together fit under it.
-/

namespace CandCpp.Foundation

structure Tickets where
  issued : Nat
  granted : Finset Nat
  refused : Finset Nat
  granted_lt : ∀ ticket ∈ granted, ticket < issued
  refused_lt : ∀ ticket ∈ refused, ticket < issued
  disjoint : Disjoint granted refused

namespace Tickets

def none : Tickets where
  issued := 0
  granted := ∅
  refused := ∅
  granted_lt := by simp
  refused_lt := by simp
  disjoint := Finset.disjoint_empty_left _

def refusedBefore (tickets : Tickets) (ticket : Nat) : Nat :=
  (tickets.refused.filter (· < ticket)).card

def Pending (tickets : Tickets) (ticket : Nat) : Prop :=
  ticket < tickets.issued ∧ ticket ∉ tickets.granted ∧ ticket ∉ tickets.refused

def Justified (tickets : Tickets) (bound : Nat) : Prop :=
  ∀ ticket ∈ tickets.granted,
    ticket + 1 ≤ bound + tickets.refusedBefore ticket

variable {tickets : Tickets} {ticket bound : Nat}

theorem refusedBefore_le : tickets.refusedBefore ticket ≤ ticket := by
  have hsub : tickets.refused.filter (· < ticket) ⊆ Finset.range ticket := by
    intro other hother
    exact Finset.mem_range.mpr (Finset.mem_filter.mp hother).2
  have hcard := Finset.card_le_card hsub
  rwa [Finset.card_range] at hcard

theorem refusedBefore_of_issued (h : tickets.issued ≤ ticket) :
    tickets.refusedBefore ticket = tickets.refused.card := by
  rw [refusedBefore, Finset.filter_true_of_mem]
  intro other hother
  exact Nat.lt_of_lt_of_le (tickets.refused_lt other hother) h

/-- The granted ticket with the highest number accounts for all the others. -/
theorem Justified.card_granted_le (h : tickets.Justified bound) :
    tickets.granted.card ≤ bound := by
  rcases tickets.granted.eq_empty_or_nonempty with hempty | hnonempty
  · rw [hempty, Finset.card_empty]
    exact Nat.zero_le _
  · have hmem := tickets.granted.max'_mem hnonempty
    have hlast := h _ hmem
    have hle : ∀ other ∈ tickets.granted,
        other ≤ tickets.granted.max' hnonempty :=
      fun other hother => tickets.granted.le_max' other hother
    generalize tickets.granted.max' hnonempty = last at hlast hle
    have hdisjoint : Disjoint tickets.granted
        (tickets.refused.filter (· < last)) :=
      tickets.disjoint.mono_right (Finset.filter_subset _ _)
    have hsub : tickets.granted ∪ tickets.refused.filter (· < last) ⊆
        Finset.range (last + 1) := by
      intro other hother
      rw [Finset.mem_range]
      rcases Finset.mem_union.mp hother with hgranted | hrefused
      · exact Nat.lt_succ_of_le (hle other hgranted)
      · exact Nat.lt_succ_of_lt (Finset.mem_filter.mp hrefused).2
    have hcard := Finset.card_le_card hsub
    rw [Finset.card_union_of_disjoint hdisjoint, Finset.card_range] at hcard
    change tickets.granted.card + tickets.refusedBefore last ≤ _ at hcard
    omega

theorem Justified.mono {other : Nat} (h : tickets.Justified bound)
    (hle : bound ≤ other) : tickets.Justified other := by
  intro ticket hticket
  exact Nat.le_trans (h ticket hticket) (Nat.add_le_add_right hle _)

/-! ## Issuing and deciding -/

def issue (tickets : Tickets) : Tickets where
  issued := tickets.issued + 1
  granted := tickets.granted
  refused := tickets.refused
  granted_lt other hother := Nat.lt_succ_of_lt (tickets.granted_lt other hother)
  refused_lt other hother := Nat.lt_succ_of_lt (tickets.refused_lt other hother)
  disjoint := tickets.disjoint

def grant (tickets : Tickets) (ticket : Nat) (h : tickets.Pending ticket) :
    Tickets where
  issued := tickets.issued
  granted := insert ticket tickets.granted
  refused := tickets.refused
  granted_lt := by
    intro other hother
    rcases Finset.mem_insert.mp hother with rfl | hgranted
    · exact h.1
    · exact tickets.granted_lt other hgranted
  refused_lt := tickets.refused_lt
  disjoint := Finset.disjoint_insert_left.mpr ⟨h.2.2, tickets.disjoint⟩

def refuse (tickets : Tickets) (ticket : Nat) (h : tickets.Pending ticket) :
    Tickets where
  issued := tickets.issued
  granted := tickets.granted
  refused := insert ticket tickets.refused
  granted_lt := tickets.granted_lt
  refused_lt := by
    intro other hother
    rcases Finset.mem_insert.mp hother with rfl | hrefused
    · exact h.1
    · exact tickets.refused_lt other hrefused
  disjoint := Finset.disjoint_insert_right.mpr ⟨h.2.1, tickets.disjoint⟩

theorem pending_issue : tickets.issue.Pending tickets.issued := by
  refine ⟨Nat.lt_succ_self _, ?_, ?_⟩
  · intro hgranted
    exact Nat.lt_irrefl _ (tickets.granted_lt _ hgranted)
  · intro hrefused
    exact Nat.lt_irrefl _ (tickets.refused_lt _ hrefused)

theorem Pending.issue (h : tickets.Pending ticket) :
    tickets.issue.Pending ticket :=
  ⟨Nat.lt_succ_of_lt h.1, h.2⟩

theorem Pending.grant {other : Nat} (h : tickets.Pending ticket)
    (hother : tickets.Pending other) (hne : other ≠ ticket) :
    (tickets.grant ticket h).Pending other := by
  refine ⟨hother.1, ?_, hother.2.2⟩
  intro hmem
  exact hother.2.1 (Finset.mem_of_mem_insert_of_ne hmem hne)

theorem Pending.refuse {other : Nat} (h : tickets.Pending ticket)
    (hother : tickets.Pending other) (hne : other ≠ ticket) :
    (tickets.refuse ticket h).Pending other := by
  refine ⟨hother.1, hother.2.1, ?_⟩
  intro hmem
  exact hother.2.2 (Finset.mem_of_mem_insert_of_ne hmem hne)

theorem card_granted_grant (h : tickets.Pending ticket) :
    (tickets.grant ticket h).granted.card = tickets.granted.card + 1 :=
  Finset.card_insert_of_notMem h.2.1

theorem card_refused_refuse (h : tickets.Pending ticket) :
    (tickets.refuse ticket h).refused.card = tickets.refused.card + 1 :=
  Finset.card_insert_of_notMem h.2.2

theorem refusedBefore_le_refuse (h : tickets.Pending ticket) (other : Nat) :
    tickets.refusedBefore other ≤
      (tickets.refuse ticket h).refusedBefore other :=
  Finset.card_le_card
    (Finset.filter_subset_filter _ (Finset.subset_insert _ _))

theorem Justified.grant (h : tickets.Justified bound)
    (hpending : tickets.Pending ticket)
    (hticket : ticket + 1 ≤ bound + tickets.refusedBefore ticket) :
    (tickets.grant ticket hpending).Justified bound := by
  intro other hother
  rcases Finset.mem_insert.mp hother with rfl | hgranted
  · exact hticket
  · exact h other hgranted

theorem Justified.refuse (h : tickets.Justified bound)
    (hpending : tickets.Pending ticket) :
    (tickets.refuse ticket hpending).Justified bound := by
  intro other hother
  have hbefore := refusedBefore_le_refuse hpending other
  have hother := h other hother
  omega

end Tickets

end CandCpp.Foundation
