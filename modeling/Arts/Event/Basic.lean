import Arts.Guid

/-!
# Events and their dependents

The dependents are in a chain of arrays, each twice the size of the one before; an entry may be read
once `done_writing` is set. `next` points into the list of the arrays.
-/

namespace Arts

open List

/-- `arts_event_types_t`. -/
inductive EventType where
  | latch
  | once
  | sticky
  | idem
  | counted
  | channel
  deriving DecidableEq, Repr

/-- `ARTS_EVENT_LATCH_DECR_SLOT`. -/
def latchDecrSlot : UInt32 := 0

/-- `ARTS_EVENT_LATCH_INCR_SLOT`. -/
def latchIncrSlot : UInt32 := 1

/-- `ARTS_EVENT_UPDATE`. -/
def eventUpdate : UInt32 := 2

/-- `INITIAL_DEPENDENT_SIZE`. -/
def initialDependentSize : UInt32 := 4

/-- What waits for an event: the fields of `arts_dependent_s` that the fire loops read. -/
inductive Dependent where
  /-- A slot of an EDT; `byteOffset` and `size` select a slice of the data. -/
  | edt (addr : Guid) (slot : UInt32) (byteOffset size : UInt64)
  | event (addr : Guid) (slot : UInt32)
  | callback (callback : ℕ)
  deriving DecidableEq, Repr

/-- An entry of a list of dependents. -/
structure Entry where
  dependent : Option Dependent
  /-- `done_writing`. -/
  doneWriting : Bool
  deriving DecidableEq, Repr

/-- `arts_dependent_list_s`. -/
structure DependentList where
  size : UInt32
  next : Option ℕ
  dependents : ℕ → Entry

/-- A list as `arts_calloc` leaves it, with its size. -/
def DependentList.calloc (size : UInt32) : DependentList := ⟨size, none, fun _ => ⟨none, false⟩⟩

/-- `arts_event_s`. -/
structure Event where
  type : EventType
  fired : Bool
  latchCount : UInt32
  /-- `0`, or one more than the number of dependents that the fire loop serves. -/
  pos : UInt32
  dependentCount : UInt32
  data : Guid
  /-- The lists of dependents; the first one is part of the event. -/
  lists : List DependentList

namespace Event

/-- `arts_event_create` for an event that is not a channel. -/
def create (type : EventType) (latchCount : UInt32) : Event where
  type := type
  fired := false
  latchCount := match type with
    | .once | .sticky | .idem => 1
    | _ => latchCount
  pos := 0
  dependentCount := 0
  data := Guid.null
  lists := [.calloc initialDependentSize]

/-- `list->size`. -/
def listSize (e : Event) (k : ℕ) : UInt32 :=
  match e.lists[k]? with
  | none => 0
  | some l => l.size

/-- `list->next`. -/
def listNext (e : Event) (k : ℕ) : Option ℕ :=
  match e.lists[k]? with
  | none => none
  | some l => l.next

/-- `list->dependents[j]`. -/
def entry (e : Event) (k j : ℕ) : Entry :=
  match e.lists[k]? with
  | none => ⟨none, false⟩
  | some l => l.dependents j

/-- Change `list->dependents[j]`. -/
def modifyEntry (e : Event) (k j : ℕ) (f : Entry → Entry) : Event :=
  { e with lists := e.lists.modify k fun l =>
      { l with dependents := Function.update l.dependents j (f (l.dependents j)) } }

/-- Append a list of twice the size to the `k`-th list. -/
def growList (e : Event) (k : ℕ) : Event :=
  { e with lists := (e.lists.modify k fun l => { l with next := some e.lists.length }) ++
      [.calloc (e.listSize k * 2)] }

section Lists

variable (e : Event) (k j : ℕ) (f : Entry → Entry)

@[simp] lemma length_modifyEntry : (e.modifyEntry k j f).lists.length = e.lists.length := by
  simp [modifyEntry]

@[simp] lemma listSize_modifyEntry (m : ℕ) : (e.modifyEntry k j f).listSize m = e.listSize m := by
  simp only [listSize, modifyEntry, getElem?_modify]
  cases e.lists[m]? with
  | none => rfl
  | some l => by_cases hk : k = m <;> simp [hk]

@[simp] lemma listNext_modifyEntry (m : ℕ) : (e.modifyEntry k j f).listNext m = e.listNext m := by
  simp only [listNext, modifyEntry, getElem?_modify]
  cases e.lists[m]? with
  | none => rfl
  | some l => by_cases hk : k = m <;> simp [hk]

lemma entry_modifyEntry_self (hk : k < e.lists.length) :
    (e.modifyEntry k j f).entry k j = f (e.entry k j) := by
  simp [entry, modifyEntry, hk]

lemma entry_modifyEntry_of_ne {m n : ℕ} (h : ¬ (m = k ∧ n = j)) :
    (e.modifyEntry k j f).entry m n = e.entry m n := by
  simp only [entry, modifyEntry, getElem?_modify]
  cases e.lists[m]? with
  | none => rfl
  | some l =>
    by_cases hk : k = m
    · have hn : n ≠ j := fun hn => h ⟨hk.symm, hn⟩
      simp [hk, Function.update_of_ne hn]
    · simp [hk]

@[simp] lemma length_growList : (e.growList k).lists.length = e.lists.length + 1 := by
  simp [growList]

lemma getElem?_growList_of_lt {m : ℕ} (hm : m < e.lists.length) :
    (e.growList k).lists[m]? = some { e.lists[m] with
      next := if k = m then some e.lists.length else e.lists[m].next } := by
  have hlt : m < (e.lists.modify k fun l => { l with next := some e.lists.length }).length := by
    simpa using hm
  simp only [growList, getElem?_append_left hlt, getElem?_modify,
    getElem?_eq_getElem hm]
  by_cases hk : k = m <;> simp [hk]

lemma getElem?_growList_length :
    (e.growList k).lists[e.lists.length]? = some (.calloc (e.listSize k * 2)) := by
  simp [growList]

lemma getElem?_growList_of_gt {m : ℕ} (hm : e.lists.length < m) :
    (e.growList k).lists[m]? = none :=
  getElem?_eq_none (by simpa using Nat.succ_le_of_lt hm)

lemma listSize_growList_of_lt {m : ℕ} (hm : m < e.lists.length) :
    (e.growList k).listSize m = e.listSize m := by
  simp [listSize, getElem?_growList_of_lt e k hm, hm]

@[simp] lemma listSize_growList_length :
    (e.growList k).listSize e.lists.length = e.listSize k * 2 := by
  simp only [listSize, getElem?_growList_length]
  rfl

lemma listNext_growList_self (hk : k < e.lists.length) :
    (e.growList k).listNext k = some e.lists.length := by
  simp [listNext, getElem?_growList_of_lt e k hk]

lemma listNext_growList_of_le {m : ℕ} (hm : e.lists.length ≤ m) :
    (e.growList k).listNext m = none := by
  rcases Nat.lt_or_eq_of_le hm with h | rfl
  · rw [listNext, getElem?_growList_of_gt e k h]
  · rw [listNext, getElem?_growList_length]
    rfl

lemma listNext_growList_of_ne {m : ℕ} (hm : m ≠ k) :
    (e.growList k).listNext m = e.listNext m := by
  rcases Nat.lt_or_ge m e.lists.length with h | h
  · simp [listNext, getElem?_growList_of_lt e k h, h, hm.symm]
  · rw [listNext_growList_of_le e k h]
    simp [listNext, h]

@[simp] lemma entry_growList (m n : ℕ) : (e.growList k).entry m n = e.entry m n := by
  rcases lt_trichotomy m e.lists.length with h | rfl | h
  · simp [entry, getElem?_growList_of_lt e k h, h]
  · rw [entry, getElem?_growList_length]
    simp [entry, DependentList.calloc]
  · simp [entry, getElem?_growList_of_gt e k h, h.le]

end Lists

end Event

/-- A dependent is signalled: which one, the position it was registered at, and the data. -/
structure Delivery where
  position : ℕ
  dependent : Dependent
  data : Guid
  deriving DecidableEq, Repr

end Arts
