import CandCpp.Foundation.VectorIterator

/-!
# The erasing loop of cppVector.cpp

`ratry` erases the elements with `getMoney() == 10` through `erase(it++)`.  The
iterator was advanced before the erase, so that afterwards it points behind the
element that has moved up: the element behind an erased one is not looked at.
-/

namespace CandCpp.Objects.EraseLoop

open CandCpp.Foundation

variable {Reference : Type}

structure CFX where
  money_ : Int
  deriving DecidableEq, Repr

def CFX.getMoney (cfx : CFX) : Int := cfx.money_

structure State (Reference : Type) where
  cfx_v : List Reference
  it : Nat

/-- `get` leads from a reference to the object that its pointer owns. -/
def body (get : Reference → CFX) (state : State Reference) :
    Except IteratorFault (State Reference) := do
  let reference ← VectorIterator.dereference state.cfx_v state.it
  if (get reference).getMoney = 10 then
    let it ← VectorIterator.advance state.cfx_v state.it
    let cfx_v ← VectorIterator.erase state.cfx_v state.it
    return { cfx_v, it }
  else
    let it ← VectorIterator.advance state.cfx_v state.it
    return { state with it }

theorem body_decreases {get : Reference → CFX}
    {state next : State Reference} (h : body get state = .ok next) :
    next.cfx_v.length - next.it < state.cfx_v.length - state.it := by
  unfold body at h
  rw [bind_eq_ok_iff] at h
  obtain ⟨reference, -, hbranch⟩ := h
  split at hbranch
  · simp only [bind_eq_ok_iff] at hbranch
    obtain ⟨it, hadvance, cfx_v, herase, heq⟩ := hbranch
    cases heq
    obtain ⟨hlt, hit⟩ := VectorIterator.lt_of_advance hadvance
    have hlength := VectorIterator.length_of_erase herase
    simp only [hit, hlength]
    omega
  · simp only [bind_eq_ok_iff] at hbranch
    obtain ⟨it, hadvance, heq⟩ := hbranch
    cases heq
    obtain ⟨hlt, hit⟩ := VectorIterator.lt_of_advance hadvance
    simp only [hit]
    omega

def loop (get : Reference → CFX) (state : State Reference) :
    Except IteratorFault (List Reference) :=
  if state.it = state.cfx_v.length then .ok state.cfx_v
  else
    match _h : body get state with
    | .error fault => .error fault
    | .ok next => loop get next
termination_by state.cfx_v.length - state.it
decreasing_by exact body_decreases _h

def ratry (get : Reference → CFX) (cfx_v : List Reference) :
    Except IteratorFault (List Reference) :=
  loop get ⟨cfx_v, 0⟩

theorem loop_of_end (get : Reference → CFX) (cfx_v : List Reference) :
    loop get ⟨cfx_v, cfx_v.length⟩ = .ok cfx_v := by
  rw [loop, if_pos rfl]

theorem loop_of_ne (get : Reference → CFX) {state : State Reference}
    (hit : state.it ≠ state.cfx_v.length) :
    loop get state = body get state >>= loop get := by
  rw [loop, if_neg hit]
  split
  · rename_i fault h
    rw [h, error_bind]
  · rename_i next h
    rw [h, ok_bind]

/-! ## What one pass keeps -/

def Matches (get : Reference → CFX) (reference : Reference) : Prop :=
  (get reference).getMoney = 10

instance (get : Reference → CFX) : DecidablePred (Matches get) :=
  fun reference => inferInstanceAs (Decidable ((get reference).getMoney = 10))

/-- An erased element shields the one behind it; without one, the pass runs
past the end. -/
def pass (get : Reference → CFX) : List Reference → Option (List Reference)
  | [] => some []
  | [reference] => if Matches get reference then none else some [reference]
  | reference :: second :: rest =>
      if Matches get reference then
        (pass get rest).map (second :: ·)
      else (pass get (second :: rest)).map (reference :: ·)

theorem body_of_matches {get : Reference → CFX} {reference : Reference}
    (hmatches : Matches get reference) (done rest : List Reference) :
    body get ⟨done ++ reference :: rest, done.length⟩ =
      .ok ⟨done ++ rest, done.length + 1⟩ := by
  have hmoney : (get reference).getMoney = 10 := hmatches
  simp only [body, VectorIterator.dereference_append, ok_bind, hmoney, if_true,
    VectorIterator.advance_append, VectorIterator.erase_append]
  rfl

theorem body_of_not_matches {get : Reference → CFX} {reference : Reference}
    (hkept : ¬ Matches get reference) (done rest : List Reference) :
    body get ⟨done ++ reference :: rest, done.length⟩ =
      .ok ⟨done ++ reference :: rest, done.length + 1⟩ := by
  have hmoney : (get reference).getMoney ≠ 10 := hkept
  simp only [body, VectorIterator.dereference_append, ok_bind, hmoney, if_false,
    VectorIterator.advance_append]
  rfl

theorem loop_cons (get : Reference → CFX) (reference : Reference)
    (done rest : List Reference) :
    loop get ⟨done ++ reference :: rest, done.length⟩ =
      if Matches get reference then
        loop get ⟨done ++ rest, done.length + 1⟩
      else loop get ⟨done ++ reference :: rest, done.length + 1⟩ := by
  rw [loop_of_ne get (by simp)]
  split
  · rename_i hmatches
    rw [body_of_matches hmatches, ok_bind]
  · rename_i hkept
    rw [body_of_not_matches hkept, ok_bind]

theorem loop_past_end (get : Reference → CFX) (cfx_v : List Reference) :
    loop get ⟨cfx_v, cfx_v.length + 1⟩ =
      .error (.dereference (cfx_v.length + 1)) := by
  have hpast : cfx_v.length ≤ cfx_v.length + 1 := Nat.le_succ _
  rw [loop_of_ne get (Nat.succ_ne_self _), body,
    VectorIterator.dereference_of_le hpast]
  rfl

theorem loop_eq_ok_iff (get : Reference → CFX)
    (done rest result : List Reference) :
    loop get ⟨done ++ rest, done.length⟩ = .ok result ↔
      ∃ kept, pass get rest = some kept ∧ result = done ++ kept := by
  fun_induction pass get rest generalizing done with
  | case1 =>
      have hend := loop_of_end get done
      simp [hend, eq_comm]
  | case2 reference hmatches =>
      have hpast := loop_past_end get done
      rw [loop_cons, if_pos hmatches]
      simp [hpast]
  | case3 reference hkept =>
      have hend := loop_of_end get (done ++ [reference])
      rw [loop_cons, if_neg hkept]
      rw [List.length_append, List.length_singleton] at hend
      simp [hend, eq_comm]
  | case4 reference second rest hmatches ih =>
      have hrest := ih (done ++ [second])
      rw [loop_cons, if_pos hmatches]
      rw [List.length_append, List.length_singleton, List.append_assoc] at hrest
      refine hrest.trans ?_
      simp
  | case5 reference second rest hkept ih =>
      have hrest := ih (done ++ [reference])
      rw [loop_cons, if_neg hkept]
      rw [List.length_append, List.length_singleton, List.append_assoc] at hrest
      refine hrest.trans ?_
      simp

/-! ## When the pass keeps the right elements -/

/-- Behind every element that is to be erased stands one that is not. -/
def Separated (get : Reference → CFX) (cfx_v : List Reference) : Prop :=
  ∀ index reference, cfx_v[index]? = some reference → Matches get reference →
    ∃ next ∈ cfx_v[index + 1]?, ¬ Matches get next

theorem separated_nil (get : Reference → CFX) : Separated get [] := by
  intro index reference hreference
  simp at hreference

theorem separated_cons_iff (get : Reference → CFX) (reference : Reference)
    (rest : List Reference) :
    Separated get (reference :: rest) ↔
      (Matches get reference → ∃ next ∈ rest.head?, ¬ Matches get next) ∧
        Separated get rest := by
  rw [List.head?_eq_getElem?]
  constructor
  · intro h
    refine ⟨fun hmatches => ?_, fun index other hother hmatches => ?_⟩
    · simpa using h 0 reference rfl hmatches
    · simpa using h (index + 1) other (by simpa using hother) hmatches
  · rintro ⟨hhead, htail⟩ index other hother hmatches
    cases index with
    | zero =>
        have hsame : reference = other := by simpa using hother
        simpa using hhead (hsame ▸ hmatches)
    | succ index =>
        simpa using htail index other (by simpa using hother) hmatches

def kept (get : Reference → CFX) (cfx_v : List Reference) : List Reference :=
  cfx_v.filter fun reference => ¬ Matches get reference

theorem pass_eq_kept_iff (get : Reference → CFX) (cfx_v : List Reference) :
    pass get cfx_v = some (kept get cfx_v) ↔ Separated get cfx_v := by
  fun_induction pass get cfx_v with
  | case1 => simp [kept, separated_nil]
  | case2 reference hmatches => simp [separated_cons_iff, hmatches]
  | case3 reference hkept =>
      simp [separated_cons_iff, hkept, kept, separated_nil]
  | case4 reference second rest hmatches ih =>
      by_cases hsecond : Matches get second
      · have hnot : ¬ Separated get (reference :: second :: rest) := by
          simp [separated_cons_iff, hmatches, hsecond]
        refine iff_of_false ?_ hnot
        intro heq
        obtain ⟨others, -, hothers⟩ := Option.map_eq_some_iff.mp heq
        have hmem : second ∈ kept get (reference :: second :: rest) :=
          hothers ▸ List.mem_cons_self
        simp [kept, hsecond] at hmem
      · rw [separated_cons_iff, separated_cons_iff, ← ih]
        simp [kept, hmatches, hsecond]
  | case5 reference second rest hkept ih =>
      rw [separated_cons_iff, ← ih]
      simp [kept, hkept]

/-- The loop ends without a fault and with exactly the elements it should leave
when no two elements with 10 are adjacent and the last one has another value. -/
theorem ratry_eq_kept_iff (get : Reference → CFX) (cfx_v : List Reference) :
    ratry get cfx_v = .ok (kept get cfx_v) ↔ Separated get cfx_v := by
  rw [← pass_eq_kept_iff]
  refine (loop_eq_ok_iff get [] cfx_v (kept get cfx_v)).trans ?_
  simp [eq_comm]

example : pass id [CFX.mk 10, CFX.mk 0, CFX.mk 0] =
    some [CFX.mk 0, CFX.mk 0] := by decide

/-- A match at the end, and two matches in a row. -/
theorem ratry_fails :
    ratry id [CFX.mk 10] = .error (.dereference 1) ∧
      ratry id [CFX.mk 10, CFX.mk 10] = .ok [CFX.mk 10] ∧
      kept id [CFX.mk 10, CFX.mk 10] = [] := by
  refine ⟨?_, ?_, by decide⟩
  · refine (loop_cons id (CFX.mk 10) [] []).trans ?_
    exact loop_past_end id []
  · refine (loop_cons id (CFX.mk 10) [] [CFX.mk 10]).trans ?_
    exact loop_of_end id [CFX.mk 10]

end CandCpp.Objects.EraseLoop
