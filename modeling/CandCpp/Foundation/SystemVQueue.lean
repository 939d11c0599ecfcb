import Mathlib.Data.List.Basic

/-!
# A System V message queue

What the operating system keeps under one key: no queue, or one with its
identifier and its messages in the order in which they were sent.  A queue
outlives the processes that use it until it is removed, and a new one under the
same key gets a new identifier.  A receive takes the first message that it
selects.
-/

namespace CandCpp.Foundation

structure QueueSlot (Entry : Type) where
  queue : Option (Nat × List Entry)
  nextId : Nat

namespace QueueSlot

variable {Entry : Type}

def messages (slot : QueueSlot Entry) : List Entry :=
  match slot.queue with
  | none => []
  | some (_, messages) => messages

/-- `msgget` without `IPC_CREAT`. -/
def openExisting (slot : QueueSlot Entry) : Option Nat :=
  slot.queue.map Prod.fst

/-- `msgget` with `IPC_CREAT`. -/
def openOrCreate (slot : QueueSlot Entry) : Nat × QueueSlot Entry :=
  match slot.queue with
  | some (msgid, _) => (msgid, slot)
  | none => (slot.nextId, ⟨some (slot.nextId, []), slot.nextId + 1⟩)

def send (slot : QueueSlot Entry) (msgid : Nat) (entry : Entry) :
    Option (QueueSlot Entry) :=
  match slot.queue with
  | none => none
  | some (found, messages) =>
      if found = msgid then
        some { slot with queue := some (found, messages ++ [entry]) }
      else none

def receive (slot : QueueSlot Entry) (msgid : Nat) (selects : Entry → Bool) :
    Option (Entry × QueueSlot Entry) :=
  match slot.queue with
  | none => none
  | some (found, messages) =>
      if found = msgid then
        (messages.find? selects).map fun entry =>
          (entry, { slot with queue := some (found, messages.eraseP selects) })
      else none

/-- `msgctl` with `IPC_RMID`. -/
def remove (slot : QueueSlot Entry) (msgid : Nat) : QueueSlot Entry :=
  if slot.openExisting = some msgid then { slot with queue := none } else slot

@[simp] theorem messages_openOrCreate (slot : QueueSlot Entry) :
    slot.openOrCreate.2.messages = slot.messages := by
  unfold openOrCreate
  split
  · rfl
  · rename_i hnone
    simp [messages, hnone]

theorem messages_send {slot next : QueueSlot Entry} {msgid : Nat}
    {entry : Entry} (h : slot.send msgid entry = some next) :
    next.messages = slot.messages ++ [entry] := by
  unfold send at h
  split at h
  · cases h
  · rename_i found messages hqueue
    split at h <;> cases h
    simp [QueueSlot.messages, hqueue]

theorem find?_of_receive {slot next : QueueSlot Entry} {msgid : Nat}
    {selects : Entry → Bool} {entry : Entry}
    (h : slot.receive msgid selects = some (entry, next)) :
    slot.messages.find? selects = some entry ∧
      next.messages = slot.messages.eraseP selects := by
  unfold receive at h
  split at h
  · cases h
  · rename_i found messages hqueue
    split at h
    · obtain ⟨first, hfirst, heq⟩ := Option.map_eq_some_iff.mp h
      cases heq
      simp [QueueSlot.messages, hqueue, hfirst]
    · cases h

theorem mem_of_receive {slot next : QueueSlot Entry} {msgid : Nat}
    {selects : Entry → Bool} {entry : Entry}
    (h : slot.receive msgid selects = some (entry, next)) :
    entry ∈ slot.messages ∧ selects entry = true ∧
      ∀ other ∈ next.messages, other ∈ slot.messages := by
  obtain ⟨hfirst, hrest⟩ := find?_of_receive h
  refine ⟨List.mem_of_find?_eq_some hfirst, List.find?_some hfirst, ?_⟩
  intro other hother
  rw [hrest] at hother
  exact List.mem_of_mem_eraseP hother

theorem mem_of_mem_remove {slot : QueueSlot Entry} {msgid : Nat}
    {entry : Entry} (h : entry ∈ (slot.remove msgid).messages) :
    entry ∈ slot.messages := by
  unfold remove at h
  split at h
  · simp [messages] at h
  · exact h

end QueueSlot

end CandCpp.Foundation
