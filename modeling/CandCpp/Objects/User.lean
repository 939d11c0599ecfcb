import CandCpp.Foundation.Ownership

/-!
# The `User` of userPimpl.h and cppPimpl.cpp

A `User` is a `unique_ptr` to its `Impl`.  `User` variables are named by the
program that uses them; `rhs` is the parameter of `operator=`, which is alive
only during a call of it.  The reference model holds the name and the salary of
each `User` and knows no pointers.
-/

namespace CandCpp.Objects.User

open CandCpp.Foundation

variable {Var : Type} [DecidableEq Var]

/-! ## Operations -/

structure Impl where
  name : String
  salary : Int32 := -1
  deriving DecidableEq, Repr

inductive Pimpl (Var : Type) where
  | of (user : Var)
  | rhs
  deriving DecidableEq, Repr

inductive Expression (Var : Type) where
  | user (user : Var)
  | assign (target : Var) (value : Expression Var)
  deriving DecidableEq, Repr

inductive Operation (Var : Type) where
  | construct (user : Var) (name : String)
  | copyConstruct (user other : Var)
  | assign (target : Var) (value : Expression Var)
  | setSalary (user : Var) (salary : Int32)
  | getSalary (user : Var)
  | destroy (user : Var)
  deriving DecidableEq, Repr

/-! ## On the heap -/

abbrev Heap (Var : Type) := Memory (Pimpl Var) Impl

abbrev Fault (Var : Type) := OwnershipFault (Pimpl Var)

def construct (allocator : Allocator Impl) (heap : Heap Var) (user : Var)
    (name : String) : Except (Fault Var) (Heap Var) :=
  heap.construct allocator (.of user) { name }

def copyConstruct (allocator : Allocator Impl) (heap : Heap Var)
    (self : Pimpl Var) (other : Var) : Except (Fault Var) (Heap Var) := do
  let impl ← heap.read (.of other)
  heap.construct allocator self impl

/-- `operator=`: the argument is copied into `rhs`. -/
def assign (allocator : Allocator Impl) (heap : Heap Var)
    (self other : Var) : Except (Fault Var) (Heap Var) := do
  let called ← copyConstruct allocator heap .rhs other
  let swapped ← called.swap (.of self) .rhs
  swapped.destroy .rhs

def setSalary (heap : Heap Var) (user : Var) (salary : Int32) :
    Except (Fault Var) (Heap Var) := do
  let impl ← heap.read (.of user)
  heap.write (.of user) { impl with salary }

def getSalary (heap : Heap Var) (user : Var) : Except (Fault Var) Int32 := do
  let impl ← heap.read (.of user)
  return impl.salary

/-- The variable that the value of an expression refers to. -/
def evaluate (allocator : Allocator Impl) (heap : Heap Var) :
    Expression Var → Except (Fault Var) (Heap Var × Var)
  | .user user => .ok (heap, user)
  | .assign target value => do
      let (heap, other) ← evaluate allocator heap value
      let heap ← assign allocator heap target other
      return (heap, target)

/-- The salaries that were read so far are the output. -/
def execute (allocator : Allocator Impl) (state : Heap Var × List Int32) :
    Operation Var → Except (Fault Var) (Heap Var × List Int32)
  | .construct user name => do
      let heap ← construct allocator state.1 user name
      return (heap, state.2)
  | .copyConstruct user other => do
      let heap ← copyConstruct allocator state.1 (.of user) other
      return (heap, state.2)
  | .assign target value => do
      let (heap, _) ← evaluate allocator state.1 (.assign target value)
      return (heap, state.2)
  | .setSalary user salary => do
      let heap ← setSalary state.1 user salary
      return (heap, state.2)
  | .getSalary user => do
      let salary ← getSalary state.1 user
      return (state.1, state.2 ++ [salary])
  | .destroy user => do
      let heap ← state.1.destroy (.of user)
      return (heap, state.2)

def run (allocator : Allocator Impl) (operations : List (Operation Var)) :
    Except (Fault Var) (Heap Var × List Int32) :=
  operations.foldlM (execute allocator) (Memory.empty, [])

/-! ## The reference model -/

namespace Reference

abbrev Users (Var : Type) := Values Var (String × Int32)

def copyConstruct (users : Users Var) (self other : Var) :
    Option (Users Var) := do
  let pair ← users other
  users.construct self pair

def assign (users : Users Var) (self other : Var) : Option (Users Var) := do
  let pair ← users other
  users.write self pair

def setSalary (users : Users Var) (user : Var) (salary : Int32) :
    Option (Users Var) := do
  let pair ← users user
  users.write user (pair.1, salary)

def evaluate (users : Users Var) : Expression Var → Option (Users Var × Var)
  | .user user => some (users, user)
  | .assign target value => do
      let (users, other) ← evaluate users value
      let users ← assign users target other
      return (users, target)

def execute (state : Users Var × List Int32) :
    Operation Var → Option (Users Var × List Int32)
  | .construct user name => do
      let users ← state.1.construct user (name, -1)
      return (users, state.2)
  | .copyConstruct user other => do
      let users ← copyConstruct state.1 user other
      return (users, state.2)
  | .assign target value => do
      let (users, _) ← evaluate state.1 (.assign target value)
      return (users, state.2)
  | .setSalary user salary => do
      let users ← setSalary state.1 user salary
      return (users, state.2)
  | .getSalary user => do
      let pair ← state.1 user
      return (state.1, state.2 ++ [pair.2])
  | .destroy user => do
      let users ← state.1.destroy user
      return (users, state.2)

def run (operations : List (Operation Var)) :
    Option (Users Var × List Int32) :=
  operations.foldlM execute (fun _ => none, [])

end Reference

/-! ## The heap holds the reference model's users -/

/-- What each `Pimpl` has to point to between two operations. -/
def impls (users : Reference.Users Var) : Values (Pimpl Var) Impl
  | .of user => (users user).map fun pair => ⟨pair.1, pair.2⟩
  | .rhs => none

abbrev Holds (heap : Heap Var) (users : Reference.Users Var) : Prop :=
  heap.Represents (impls users)

theorem impls_update (users : Reference.Users Var) (user : Var)
    (pair : Option (String × Int32)) :
    impls (Function.update users user pair) =
      Function.update (impls users) (.of user)
        (pair.map fun pair => ⟨pair.1, pair.2⟩) := by
  funext pimpl
  cases pimpl with
  | of other =>
      by_cases hsame : other = user
      · simp [impls, hsame]
      · simp [impls, Function.update_of_ne, hsame]
  | rhs => simp [impls]

theorem impls_construct (users : Reference.Users Var) (user : Var)
    (pair : String × Int32) :
    (impls users).construct (.of user) ⟨pair.1, pair.2⟩ =
      (users.construct user pair).map impls := by
  cases huser : users user with
  | none => simp [Values.construct, impls, huser, impls_update]
  | some held => simp [Values.construct, impls, huser]

theorem impls_write (users : Reference.Users Var) (user : Var)
    (pair : String × Int32) :
    (impls users).write (.of user) ⟨pair.1, pair.2⟩ =
      (users.write user pair).map impls := by
  cases huser : users user with
  | none => simp [Values.write, impls, huser]
  | some held => simp [Values.write, impls, huser, impls_update]

/-- `operator=` leaves `rhs` as it was and changes only the target. -/
theorem impls_assign (users : Reference.Users Var) (self other : Var) :
    (do
      let impl ← impls users (.of other)
      let called ← (impls users).construct .rhs impl
      let swapped ← called.swap (.of self) .rhs
      swapped.destroy .rhs) =
      (Reference.assign users self other).map impls := by
  cases hother : users other with
  | none => simp [Reference.assign, impls, hother]
  | some pair =>
      cases hself : users self with
      | none =>
          simp [Reference.assign, impls, hother, hself, Values.construct,
            Values.swap, Values.write]
      | some held =>
          have hrhs : impls users .rhs = none := rfl
          simp [Reference.assign, impls, hother, hself, Values.construct,
            Values.swap, Values.destroy, Values.write, impls_update]
          funext pimpl
          cases pimpl with
          | of var => by_cases hsame : var = self <;> simp [hsame]
          | rhs => simp [hrhs]

variable {heap : Heap Var} {users : Reference.Users Var}

theorem refines_of_impls {result : Except (Fault Var) (Heap Var)}
    {specification : Option (Reference.Users Var)}
    (h : Refines OwnershipFault.IsLifetime Memory.Represents result
      (specification.map impls)) :
    Refines OwnershipFault.IsLifetime Holds result specification :=
  h.of_map

theorem read_refines (h : Holds heap users) (user : Var) :
    Refines OwnershipFault.IsLifetime
      (fun impl pair => impl = ⟨pair.1, pair.2⟩)
      (heap.read (.of user)) (users user) :=
  (Memory.Represents.read h (.of user)).of_map

theorem construct_refines (h : Holds heap users) (allocator : Allocator Impl)
    (user : Var) (name : String) :
    Refines OwnershipFault.IsLifetime Holds
      (construct allocator heap user name)
      (users.construct user (name, -1)) := by
  apply refines_of_impls
  rw [← impls_construct]
  exact Memory.Represents.construct h allocator (.of user) ⟨name, -1⟩

theorem copyConstruct_refines (h : Holds heap users)
    (allocator : Allocator Impl) (self other : Var) :
    Refines OwnershipFault.IsLifetime Holds
      (copyConstruct allocator heap (.of self) other)
      (Reference.copyConstruct users self other) := by
  apply refines_of_impls
  have hcopy : (Reference.copyConstruct users self other).map impls =
      (impls users (.of other)).bind fun impl =>
        (impls users).construct (.of self) impl := by
    cases hother : users other with
    | none => simp [Reference.copyConstruct, impls, hother]
    | some pair =>
        simp [Reference.copyConstruct, impls, hother, ← impls_construct]
  rw [hcopy]
  apply (Memory.Represents.read h (.of other)).bind
  rintro impl _ rfl
  exact Memory.Represents.construct h allocator (.of self) impl

theorem assign_refines (h : Holds heap users) (allocator : Allocator Impl)
    (self other : Var) :
    Refines OwnershipFault.IsLifetime Holds
      (assign allocator heap self other)
      (Reference.assign users self other) := by
  apply refines_of_impls
  rw [← impls_assign]
  simp only [assign, copyConstruct, bind_assoc]
  apply (Memory.Represents.read h (.of other)).bind
  rintro impl _ rfl
  apply (Memory.Represents.construct h allocator .rhs impl).bind
  intro called values hcalled
  apply (hcalled.swap (.of self) .rhs).bind
  intro swapped values hswapped
  exact hswapped.destroy .rhs

theorem setSalary_refines (h : Holds heap users) (user : Var)
    (salary : Int32) :
    Refines OwnershipFault.IsLifetime Holds (setSalary heap user salary)
      (Reference.setSalary users user salary) := by
  apply refines_of_impls
  have hset : (Reference.setSalary users user salary).map impls =
      (impls users (.of user)).bind fun impl =>
        (impls users).write (.of user) { impl with salary } := by
    cases huser : users user with
    | none => simp [Reference.setSalary, impls, huser]
    | some pair => simp [Reference.setSalary, impls, huser, ← impls_write]
  rw [hset]
  apply (Memory.Represents.read h (.of user)).bind
  rintro impl _ rfl
  exact Memory.Represents.write h (.of user) { impl with salary }

theorem getSalary_refines (h : Holds heap users) (user : Var) :
    Refines OwnershipFault.IsLifetime (fun salary pair => salary = pair.2)
      (getSalary heap user) (users user) := by
  rw [← Option.bind_fun_some (users user)]
  apply (read_refines h user).bind
  rintro impl pair rfl
  exact .pure rfl

theorem destroy_refines (h : Holds heap users) (user : Var) :
    Refines OwnershipFault.IsLifetime Holds (heap.destroy (.of user))
      (users.destroy user) := by
  apply refines_of_impls
  have hdestroy : (users.destroy user).map impls =
      (impls users).destroy (.of user) := by
    cases huser : users user with
    | none => simp [Values.destroy, impls, huser]
    | some pair => simp [Values.destroy, impls, huser, impls_update]
  rw [hdestroy]
  exact Memory.Represents.destroy h (.of user)

/-! ## Runs -/

theorem evaluate_refines (h : Holds heap users) (allocator : Allocator Impl)
    (expression : Expression Var) :
    Refines OwnershipFault.IsLifetime
      (fun state expected => Holds state.1 expected.1 ∧ state.2 = expected.2)
      (evaluate allocator heap expression)
      (Reference.evaluate users expression) := by
  induction expression with
  | user user => exact ⟨_, rfl, h, rfl⟩
  | assign target value ih =>
      rw [evaluate, Reference.evaluate]
      apply ih.bind
      rintro ⟨evaluated, other⟩ ⟨expected, _⟩ ⟨hevaluated, rfl⟩
      apply (assign_refines hevaluated allocator target other).bind
      intro assigned result hassigned
      exact .pure ⟨hassigned, rfl⟩

abbrev Agrees (state : Heap Var × List Int32)
    (reference : Reference.Users Var × List Int32) : Prop :=
  Holds state.1 reference.1 ∧ state.2 = reference.2

theorem execute_refines {state : Heap Var × List Int32}
    {reference : Reference.Users Var × List Int32}
    (h : Agrees state reference) (allocator : Allocator Impl)
    (operation : Operation Var) :
    Refines OwnershipFault.IsLifetime Agrees
      (execute allocator state operation)
      (Reference.execute reference operation) := by
  obtain ⟨hholds, houtput⟩ := h
  cases operation with
  | construct user name =>
      apply (construct_refines hholds allocator user name).bind
      intro next expected hnext
      exact .pure ⟨hnext, houtput⟩
  | copyConstruct user other =>
      apply (copyConstruct_refines hholds allocator user other).bind
      intro next expected hnext
      exact .pure ⟨hnext, houtput⟩
  | assign target value =>
      apply (evaluate_refines hholds allocator (.assign target value)).bind
      rintro ⟨next, _⟩ expected ⟨hnext, -⟩
      exact .pure ⟨hnext, houtput⟩
  | setSalary user salary =>
      apply (setSalary_refines hholds user salary).bind
      intro next expected hnext
      exact .pure ⟨hnext, houtput⟩
  | getSalary user =>
      apply (getSalary_refines hholds user).bind
      rintro salary pair rfl
      exact .pure ⟨hholds, by rw [houtput]⟩
  | destroy user =>
      apply (destroy_refines hholds user).bind
      intro next expected hnext
      exact .pure ⟨hnext, houtput⟩

theorem run_refines (allocator : Allocator Impl)
    (operations : List (Operation Var)) :
    Refines OwnershipFault.IsLifetime Agrees (run allocator operations)
      (Reference.run operations) := by
  apply Refines.foldlM
  · intro state reference operation h
    exact execute_refines h allocator operation
  · refine ⟨?_, rfl⟩
    have hempty : impls (fun _ : Var => none) = fun _ => none := by
      funext pimpl
      cases pimpl <;> rfl
    rw [Holds, hempty]
    exact Memory.represents_empty

/-! ## Value semantics -/

/-- Every live `User` has an `Impl` of its own, and nothing else has one. -/
structure OwnsImpls (heap : Heap Var) : Prop where
  live : ∀ user pimpl, heap.pointers.lookup (.of user) = some pimpl →
    ∃ address ∈ heap.heap, pimpl = some address
  distinct : ∀ first second address,
    heap.pointers.lookup (.of first) = some (some address) →
    heap.pointers.lookup (.of second) = some (some address) → first = second
  owned : ∀ address ∈ heap.heap,
    ∃! user, heap.pointers.lookup (.of user) = some (some address)

theorem ownsImpls_of_holds (h : Holds heap users) : OwnsImpls heap := by
  have hdistinct : ∀ first second address,
      heap.pointers.lookup (.of first) = some (some address) →
      heap.pointers.lookup (.of second) = some (some address) →
      first = second := by
    intro first second address hfirst hsecond
    exact Pimpl.of.inj
      (h.owned.distinct (.of first) (.of second) address hfirst hsecond)
  refine ⟨fun user pimpl => h.owned.valid (.of user) pimpl, hdistinct, ?_⟩
  intro address hmem
  obtain ⟨pimpl, hpimpl⟩ := h.owned.owned address hmem
  cases pimpl with
  | of user =>
      exact ⟨user, hpimpl, fun other hother =>
        hdistinct other user address hother hpimpl⟩
  | rhs =>
      rcases h.cases .rhs with ⟨-, hnone⟩ | ⟨_, _, hsome, -⟩
      · rw [hpimpl] at hnone
        cases hnone
      · cases hsome

/--
A run of operations that makes sense in the reference model gets through, reads
the same salaries and ends with the same users, each owning its `Impl`; any
other one uses a `User` that is not alive or makes one twice.
-/
theorem user_valueSemantics (allocator : Allocator Impl)
    (operations : List (Operation Var)) :
    match Reference.run operations with
    | some (users, salaries) =>
        ∃ heap : Heap Var, run allocator operations = .ok (heap, salaries) ∧
          (∀ user, (heap.values (.of user)).map
            (fun impl => (impl.name, impl.salary)) = users user) ∧
          OwnsImpls heap
    | none => ∃ user, run allocator operations = .error (.lifetime user) := by
  have hrefines := run_refines allocator operations
  cases hreference : Reference.run operations with
  | none =>
      rw [hreference] at hrefines
      obtain ⟨fault, hfault, hlifetime⟩ := hrefines
      cases fault with
      | lifetime user => exact ⟨user, hfault⟩
      | nullDereference user => exact hlifetime.elim
      | dangling address => exact hlifetime.elim
  | some reference =>
      obtain ⟨users, salaries⟩ := reference
      rw [hreference] at hrefines
      obtain ⟨⟨heap, _⟩, hrun, hholds, rfl⟩ := hrefines
      refine ⟨heap, hrun, ?_, ownsImpls_of_holds hholds⟩
      intro user
      rw [hholds.values_eq]
      change ((users user).map _).map _ = users user
      cases users user <;> rfl

end CandCpp.Objects.User
