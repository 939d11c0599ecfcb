/-!
# Singly linked chains in a memory of nodes

A chain is what one sees on following `next` from a head pointer to the null
pointer.
-/

namespace CandCpp.Foundation

variable {Node : Type}

def Linked (next : Node → Option Node) : Option Node → List Node → Prop
  | head, [] => head = none
  | head, node :: nodes => head = some node ∧ Linked next (next node) nodes

namespace Linked

variable {next after : Node → Option Node} {head : Option Node}
  {node : Node} {nodes : List Node}

theorem push (h : Linked next head nodes) (hnext : next node = head) :
    Linked next (some node) (node :: nodes) :=
  ⟨rfl, hnext ▸ h⟩

theorem pop (h : Linked next (some node) nodes) :
    ∃ rest, nodes = node :: rest ∧ Linked next (next node) rest := by
  cases nodes with
  | nil => exact absurd h (Option.some_ne_none node)
  | cons first rest =>
      obtain ⟨hhead, hrest⟩ := h
      cases hhead
      exact ⟨rest, rfl, hrest⟩

/-- Writes to other nodes leave a chain alone. -/
theorem congr (h : Linked next head nodes)
    (hsame : ∀ node ∈ nodes, after node = next node) :
    Linked after head nodes := by
  induction nodes generalizing head with
  | nil => exact h
  | cons first rest ih =>
      refine ⟨h.1, ?_⟩
      rw [hsame first List.mem_cons_self]
      exact ih h.2 fun node hnode => hsame node (List.mem_cons_of_mem _ hnode)

end Linked

end CandCpp.Foundation
