import Mathlib.Data.List.Basic

/-!
# Computations that may fault

`Except` models code that reaches a point after which the language promises
nothing.  The rules below take a computation apart at its binds and say when a
loop over a list of inputs gets to its end.  A computation refines a partial
specification when it does what the specification says where that is defined
and faults in an allowed way elsewhere.
-/

namespace CandCpp.Foundation

variable {Fault α β State Item : Type}

def Completes (computation : Except Fault α) : Prop :=
  ∃ value, computation = .ok value

@[simp] theorem completes_ok (value : α) :
    Completes (.ok value : Except Fault α) := ⟨value, rfl⟩

@[simp] theorem completes_pure (value : α) :
    Completes (pure value : Except Fault α) := ⟨value, rfl⟩

@[simp] theorem not_completes_error (fault : Fault) :
    ¬ Completes (.error fault : Except Fault α) := by
  rintro ⟨value, h⟩
  cases h

theorem bind_eq_ok_iff {first : Except Fault α} {rest : α → Except Fault β}
    {result : β} :
    first >>= rest = .ok result ↔
      ∃ value, first = .ok value ∧ rest value = .ok result := by
  cases first with
  | error fault => simp [bind, Except.bind]
  | ok value => simp [bind, Except.bind]

theorem completes_bind_iff {first : Except Fault α}
    {rest : α → Except Fault β} :
    Completes (first >>= rest) ↔
      ∃ value, first = .ok value ∧ Completes (rest value) := by
  cases first with
  | error fault => simp [bind, Except.bind]
  | ok value => simp [bind, Except.bind]

@[simp] theorem ok_bind (value : α) (rest : α → Except Fault β) :
    (.ok value : Except Fault α) >>= rest = rest value := rfl

@[simp] theorem error_bind (fault : Fault) (rest : α → Except Fault β) :
    (.error fault : Except Fault α) >>= rest = .error fault := rfl

/-! ## Refinement of a partial specification -/

def Refines (Allowed : Fault → Prop) (Related : α → β → Prop)
    (computation : Except Fault α) (specification : Option β) : Prop :=
  match specification with
  | some expected => ∃ value, computation = .ok value ∧ Related value expected
  | none => ∃ fault, computation = .error fault ∧ Allowed fault

theorem Refines.bind {γ δ : Type} {Allowed : Fault → Prop}
    {Related : α → β → Prop} {Final : γ → δ → Prop}
    {computation : Except Fault α} {specification : Option β}
    {rest : α → Except Fault γ} {next : β → Option δ}
    (h : Refines Allowed Related computation specification)
    (hrest : ∀ value expected, Related value expected →
      Refines Allowed Final (rest value) (next expected)) :
    Refines Allowed Final (computation >>= rest) (specification >>= next) := by
  cases specification with
  | none =>
      obtain ⟨fault, rfl, hfault⟩ := h
      exact ⟨fault, rfl, hfault⟩
  | some expected =>
      obtain ⟨value, rfl, hrelated⟩ := h
      exact hrest value expected hrelated

theorem Refines.pure {Allowed : Fault → Prop} {Related : α → β → Prop}
    {value : α} {expected : β} (h : Related value expected) :
    Refines Allowed Related (pure value) (some expected) := ⟨value, rfl, h⟩

theorem Refines.of_map {γ : Type} {Allowed : Fault → Prop}
    {Related : α → γ → Prop} {computation : Except Fault α}
    {specification : Option β} {abstraction : β → γ}
    (h : Refines Allowed Related computation
      (specification.map abstraction)) :
    Refines Allowed (fun value expected => Related value (abstraction expected))
      computation specification := by
  cases specification with
  | none => exact h
  | some expected => exact h

theorem Refines.foldlM {Abstract : Type} {Allowed : Fault → Prop}
    {Related : State → Abstract → Prop} {body : State → Item → Except Fault State}
    {step : Abstract → Item → Option Abstract}
    (hbody : ∀ state abstract item, Related state abstract →
      Refines Allowed Related (body state item) (step abstract item))
    {state : State} {abstract : Abstract} (hstart : Related state abstract)
    (items : List Item) :
    Refines Allowed Related (items.foldlM body state)
      (items.foldlM step abstract) := by
  induction items generalizing state abstract with
  | nil => exact .pure hstart
  | cons item items ih =>
      rw [List.foldlM_cons, List.foldlM_cons]
      apply (hbody state abstract item hstart).bind
      intro next expected hnext
      exact ih hnext

/-! ## Loops -/

/--
A loop whose body, while the invariant holds, gets through exactly the good
items, gets through a list of inputs exactly when all of them are good.
-/
theorem completes_foldlM_iff (Inv : State → Prop)
    {body : State → Item → Except Fault State} {Good : Item → Prop}
    (hbody : ∀ state item, Inv state →
      (Completes (body state item) ↔ Good item))
    (hinv : ∀ state item next, Inv state → body state item = .ok next →
      Inv next)
    {state : State} (hstart : Inv state) (items : List Item) :
    Completes (items.foldlM body state) ↔ ∀ item ∈ items, Good item := by
  induction items generalizing state with
  | nil => simp
  | cons item items ih =>
      rw [List.foldlM_cons, completes_bind_iff, List.forall_mem_cons,
        ← hbody state item hstart]
      constructor
      · rintro ⟨next, hnext, hrest⟩
        exact ⟨⟨next, hnext⟩, (ih (hinv _ _ _ hstart hnext)).mp hrest⟩
      · rintro ⟨⟨next, hnext⟩, hrest⟩
        exact ⟨next, hnext, (ih (hinv _ _ _ hstart hnext)).mpr hrest⟩

theorem foldlM_invariant (Inv : State → Prop)
    {body : State → Item → Except Fault State}
    (hinv : ∀ state item next, Inv state → body state item = .ok next →
      Inv next)
    {state final : State} (hstart : Inv state) {items : List Item}
    (hrun : items.foldlM body state = .ok final) : Inv final := by
  induction items generalizing state with
  | nil =>
      cases hrun
      exact hstart
  | cons item items ih =>
      rw [List.foldlM_cons, bind_eq_ok_iff] at hrun
      obtain ⟨next, hnext, hrest⟩ := hrun
      exact ih (hinv _ _ _ hstart hnext) hrest

/-! ## Loops with an early exit -/

/-- The inputs a loop gets to see: up to the first that makes it leave. -/
def reached (leaves : Item → Bool) : List Item → List Item
  | [] => []
  | item :: items =>
      if leaves item then [item] else item :: reached leaves items

theorem reached_cases (leaves : Item → Bool) (items : List Item) :
    (reached leaves items = items ∧ ∀ item ∈ items, leaves item = false) ∨
      ∃ before last, reached leaves items = before ++ [last] ∧
        (∀ item ∈ before, leaves item = false) ∧ leaves last = true := by
  induction items with
  | nil => exact .inl ⟨rfl, by simp⟩
  | cons item items ih =>
      cases hitem : leaves item with
      | true =>
          right
          exact ⟨[], item, by simp [reached, hitem], by simp, hitem⟩
      | false =>
          rcases ih with ⟨hall, hstay⟩ | ⟨before, last, heq, hstay, hlast⟩
          · left
            exact ⟨by simp [reached, hitem, hall], by simpa [hitem] using hstay⟩
          · right
            exact ⟨item :: before, last, by simp [reached, hitem, heq],
              by simpa [hitem] using hstay, hlast⟩

theorem forIn_eq_ok {body : Item → State → Except Fault (ForInStep State)}
    {next : State → Item → State} {leaves : Item → Bool}
    (hbody : ∀ item state, body item state =
      .ok (if leaves item then .done (next state item)
        else .yield (next state item)))
    (state : State) (items : List Item) :
    forIn items state body =
      .ok ((reached leaves items).foldl next state) := by
  induction items generalizing state with
  | nil => rfl
  | cons item items ih =>
      rw [List.forIn_cons, hbody, ok_bind]
      cases hitem : leaves item with
      | true => simp [reached, hitem, pure, Except.pure]
      | false => simpa [reached, hitem] using ih (next state item)

theorem completes_forIn_iff (Inv : State → Prop)
    {body : Item → State → Except Fault (ForInStep State)}
    {Good : Item → Prop} {leaves : Item → Bool}
    (hbody : ∀ item state, Inv state →
      (Completes (body item state) ↔ Good item))
    (hflow : ∀ item state exit, Inv state → body item state = .ok exit →
      (leaves item = true ∧ ∃ final, exit = .done final) ∨
        (leaves item = false ∧ ∃ next, exit = .yield next ∧ Inv next))
    {state : State} (hstart : Inv state) (items : List Item) :
    Completes (forIn items state body) ↔
      ∀ item ∈ reached leaves items, Good item := by
  induction items generalizing state with
  | nil => simp [reached]
  | cons item items ih =>
      rw [List.forIn_cons, completes_bind_iff]
      constructor
      · rintro ⟨exit, hexit, hrest⟩
        have hgood : Good item := (hbody item state hstart).mp ⟨exit, hexit⟩
        obtain ⟨hleaves, final, rfl⟩ | ⟨hstays, next, rfl, hnext⟩ :=
          hflow item state exit hstart hexit
        · simpa [reached, hleaves] using hgood
        · have htail := (ih hnext).mp hrest
          simpa [reached, hstays] using ⟨hgood, htail⟩
      · intro hgood
        have hhead : Good item := hgood item (by
          unfold reached
          split <;> simp)
        obtain ⟨exit, hexit⟩ := (hbody item state hstart).mpr hhead
        refine ⟨exit, hexit, ?_⟩
        obtain ⟨-, final, rfl⟩ | ⟨hstays, next, rfl, hnext⟩ :=
          hflow item state exit hstart hexit
        · exact completes_pure final
        · apply (ih hnext).mpr
          intro other hother
          exact hgood other (by simp [reached, hstays, hother])

end CandCpp.Foundation
