import Arts.Event.Basic
import Arts.Machine.Basic
import Arts.Machine.Calls

/-!
# The atomic steps of registration and satisfaction

Calls on an event that is no channel are cut into their accesses. A loop that waits is a step that
is not possible yet; the program's `int` variables are 32-bit words.
-/

namespace Arts

open Option

/-! ### Registration -/

/-- Program counter of a registration; `position` is the value that the fetch-and-add returned. -/
inductive RegisterPc where
  /-- `arts_atomic_fetch_add(&event->dependent_count, 1U)`. -/
  | fetchAdd
  /-- `arts_dependent_get`: the test `position >= list->size`, and `list->next == NULL` where the
  remaining position is the size of the list. -/
  | walk (position : UInt32) (list : ℕ) (rest : UInt32)
  /-- `arts_dependent_get`: `list->next = temp`. -/
  | alloc (position : UInt32) (list : ℕ) (rest : UInt32)
  /-- `arts_dependent_get`: waiting for `list->next`. -/
  | awaitNext (position : UInt32) (list : ℕ) (rest : UInt32)
  | write (position : UInt32) (list : ℕ) (offset : UInt32)
  /-- `dependent->done_writing = true`. -/
  | publish (position : UInt32) (list : ℕ) (offset : UInt32)
  /-- The test `event->fired`. -/
  | testFired (position : UInt32)
  /-- Waiting for `event->pos`. -/
  | awaitPos (position : UInt32)
  /-- The test `event->pos - 1 <= position`. -/
  | comparePos (position : UInt32)
  /-- The registration signals its dependent itself. -/
  | signal (position : UInt32)
  /-- The call has returned, with or without having signalled. -/
  | done (position : UInt32) (signalled : Bool)
  deriving DecidableEq, Repr

/-- A registered callback of an event that is destroyed when it fires is not called any more. -/
def Event.dropsCallback (e : Event) : Dependent → Bool
  | .callback _ => decide (e.type = .latch ∨ e.type = .once ∨ e.type = .counted)
  | _ => false

/-- One step of a registration of the dependent `d`. -/
def registerStep (e : Event) (d : Dependent) :
    RegisterPc → Option (Event × RegisterPc × Option Delivery)
  | .fetchAdd => some ({ e with dependentCount := e.dependentCount + 1 },
      .walk e.dependentCount 0 e.dependentCount, none)
  | .walk position list rest =>
    if e.listSize list ≤ rest then
      if rest - e.listSize list = 0 ∧ e.listNext list = none then
        some (e, .alloc position list rest, none)
      else some (e, .awaitNext position list rest, none)
    else some (e, .write position list rest, none)
  | .alloc position list rest => some (e.growList list, .awaitNext position list rest, none)
  | .awaitNext position list rest =>
    match e.listNext list with
    | none => none
    | some next => some (e, .walk position next (rest - e.listSize list), none)
  | .write position list offset =>
    some (e.modifyEntry list offset.toNat fun x => { x with dependent := some d },
      .publish position list offset, none)
  | .publish position list offset =>
    some (e.modifyEntry list offset.toNat fun x => { x with doneWriting := true },
      .testFired position, none)
  | .testFired position =>
    if e.fired then
      if e.dropsCallback d then some (e, .done position false, none)
      else some (e, .awaitPos position, none)
    else some (e, .done position false, none)
  | .awaitPos position => if e.pos = 0 then none else some (e, .comparePos position, none)
  | .comparePos position =>
    some (e, if e.pos - 1 ≤ position then .signal position else .done position false, none)
  | .signal position => some (e, .done position true, some ⟨position.toNat, d, e.data⟩)
  | .done _ _ => none

/-- The transitions of `registerStep`. -/
inductive RegisterStep (e : Event) (d : Dependent) :
    RegisterPc → Event → RegisterPc → Option Delivery → Prop
  | fetchAdd : RegisterStep e d .fetchAdd { e with dependentCount := e.dependentCount + 1 }
      (.walk e.dependentCount 0 e.dependentCount) none
  | missing {p k r} (hle : e.listSize k ≤ r) (hz : r - e.listSize k = 0)
      (hn : e.listNext k = none) : RegisterStep e d (.walk p k r) e (.alloc p k r) none
  | onward {p k r} (hle : e.listSize k ≤ r) (hn : ¬ (r - e.listSize k = 0 ∧ e.listNext k = none)) :
      RegisterStep e d (.walk p k r) e (.awaitNext p k r) none
  | found {p k r} (hlt : ¬ e.listSize k ≤ r) :
      RegisterStep e d (.walk p k r) e (.write p k r) none
  | alloc {p k r} : RegisterStep e d (.alloc p k r) (e.growList k) (.awaitNext p k r) none
  | follow {p k r n} (hn : e.listNext k = some n) :
      RegisterStep e d (.awaitNext p k r) e (.walk p n (r - e.listSize k)) none
  | write {p k j} : RegisterStep e d (.write p k j)
      (e.modifyEntry k j.toNat fun x => { x with dependent := some d }) (.publish p k j) none
  | publish {p k j} : RegisterStep e d (.publish p k j)
      (e.modifyEntry k j.toNat fun x => { x with doneWriting := true }) (.testFired p) none
  | unfired {p} (hf : e.fired = false) : RegisterStep e d (.testFired p) e (.done p false) none
  | dropped {p} (hf : e.fired = true) (hd : e.dropsCallback d = true) :
      RegisterStep e d (.testFired p) e (.done p false) none
  | fired {p} (hf : e.fired = true) (hd : e.dropsCallback d = false) :
      RegisterStep e d (.testFired p) e (.awaitPos p) none
  | posSeen {p} (hpos : e.pos ≠ 0) : RegisterStep e d (.awaitPos p) e (.comparePos p) none
  | outside {p} (hp : e.pos - 1 ≤ p) : RegisterStep e d (.comparePos p) e (.signal p) none
  | inside {p} (hp : ¬ e.pos - 1 ≤ p) : RegisterStep e d (.comparePos p) e (.done p false) none
  | signal {p} : RegisterStep e d (.signal p) e (.done p true) (some ⟨p.toNat, d, e.data⟩)

variable {e e' : Event}

lemma registerStep_inv {d : Dependent} {pc pc' : RegisterPc}
    {dl : Option Delivery} (h : registerStep e d pc = some (e', pc', dl)) :
    RegisterStep e d pc e' pc' dl := by
  cases pc with
  | fetchAdd => cases h; exact .fetchAdd
  | walk p k r =>
    simp only [registerStep] at h
    split_ifs at h with hle hn <;> cases h
    · exact .missing hle hn.1 hn.2
    · exact .onward hle hn
    · exact .found hle
  | alloc p k r => cases h; exact .alloc
  | awaitNext p k r =>
    simp only [registerStep] at h
    cases hn : e.listNext k with
    | none => simp [hn] at h
    | some n =>
      rw [hn] at h
      cases h
      exact .follow hn
  | write p k j => cases h; exact .write
  | publish p k j => cases h; exact .publish
  | testFired p =>
    simp only [registerStep] at h
    split_ifs at h with hf hd <;> cases h
    · exact .dropped hf hd
    · exact .fired hf (by simpa using hd)
    · exact .unfired (by simpa using hf)
  | awaitPos p =>
    simp only [registerStep] at h
    split_ifs at h with hpos
    cases h
    exact .posSeen hpos
  | comparePos p =>
    simp only [registerStep] at h
    split_ifs at h with hp <;> cases h
    · exact .outside hp
    · exact .inside hp
  | signal p => cases h; exact .signal
  | done p b => cases h

/-! ### Satisfaction -/

/-- Program counter of `arts_event_satisfy_slot`; `last` is `last_known`. -/
inductive SatisfyPc where
  /-- The test `event->fired`. -/
  | testFired
  /-- `arts_atomic_add(&event->latch_count, 1U)`. -/
  | add
  /-- `event->data = data_guid`, unless it is `NULL_GUID`. -/
  | store
  /-- `arts_atomic_sub(&event->latch_count, 1U)`. -/
  | sub
  /-- `arts_atomic_swap_bool(&event->fired, true)`. -/
  | swap
  /-- `last_known = arts_atomic_fetch_add(&event->dependent_count, 0U)`. -/
  | readCount
  /-- `event->pos = last_known + 1`. -/
  | writePos (last : UInt32)
  /-- The conditions of the fire loop, and waiting for `dependent[j].done_writing`. -/
  | fire (last i j : UInt32) (list : ℕ) (total : UInt32)
  | signal (last i j : UInt32) (list : ℕ) (total : UInt32)
  /-- Waiting for `dependent_list->next`. -/
  | awaitNext (last i : UInt32) (list : ℕ) (total : UInt32)
  /-- The event is removed from the route table and freed. -/
  | free
  | done
  /-- `ARTS_ERROR`: the program is aborted. -/
  | abort
  deriving DecidableEq, Repr

inductive Effect where
  | deliver (d : Delivery)
  /-- `arts_route_table_remove_item`. -/
  | remove
  deriving DecidableEq, Repr

/-- Where `arts_event_satisfy_slot` goes when the event has not fired. -/
def SatisfyPc.ofSlot (type : EventType) (slot : UInt32) : SatisfyPc :=
  if slot = latchIncrSlot then
    if type = .once ∨ type = .counted then .abort else .add
  else if slot = latchDecrSlot then .store
  else .abort

/-- Where `arts_event_satisfy_slot` goes after the fire loop. -/
def SatisfyPc.afterFire (type : EventType) : SatisfyPc :=
  if type = .latch ∨ type = .once ∨ type = .counted then .free else .done

/-- One step of `arts_event_satisfy_slot`. -/
def satisfyStep (e : Event) (slot : UInt32) (data : Guid) :
    SatisfyPc → Option (Event × SatisfyPc × Option Effect)
  | .testFired =>
    if e.fired then
      some (e, if e.type = .idem ∨ e.type = .sticky then .done else .abort, none)
    else some (e, .ofSlot e.type slot, none)
  | .add =>
    some ({ e with latchCount := e.latchCount + 1 },
      if e.latchCount + 1 = 0 then .swap else .done, none)
  | .store => some ({ e with data := if data = Guid.null then e.data else data }, .sub, none)
  | .sub =>
    some ({ e with latchCount := e.latchCount - 1 },
      if e.latchCount - 1 = 0 then .swap else .done, none)
  | .swap =>
    some ({ e with fired := true }, if e.fired then .abort else .readCount, none)
  | .readCount => some (e, .writePos e.dependentCount, none)
  | .writePos last =>
    some ({ e with pos := last + 1 }, if 0 < last then .fire last 0 0 0 0 else .afterFire e.type,
      none)
  | .fire last i j list total =>
    if i < last ∧ j < e.listSize list then
      if (e.entry list j.toNat).doneWriting then some (e, .signal last i j list total, none)
      else none
    else if last ≤ i then some (e, .afterFire e.type, none)
    else some (e, .awaitNext last i list (total + e.listSize list), none)
  | .signal last i j list total =>
    some (e, .fire last (i + 1) (j + 1) list total,
      ((e.entry list j.toNat).dependent.map fun d => .deliver ⟨i.toNat, d, e.data⟩))
  | .awaitNext last i list total =>
    match e.listNext list with
    | none => none
    | some next => some (e, .fire last i (i - total) next total, none)
  | .free => some (e, .done, some .remove)
  | .done => none
  | .abort => none

/-- The transitions of `satisfyStep`. -/
inductive SatisfyStep (e : Event) (slot : UInt32) (data : Guid) :
    SatisfyPc → Event → SatisfyPc → Option Effect → Prop
  | again (hf : e.fired = true) (ht : e.type = .idem ∨ e.type = .sticky) :
      SatisfyStep e slot data .testFired e .done none
  | againAbort (hf : e.fired = true) (ht : ¬ (e.type = .idem ∨ e.type = .sticky)) :
      SatisfyStep e slot data .testFired e .abort none
  | pass (hf : e.fired = false) :
      SatisfyStep e slot data .testFired e (.ofSlot e.type slot) none
  | add : SatisfyStep e slot data .add { e with latchCount := e.latchCount + 1 }
      (if e.latchCount + 1 = 0 then .swap else .done) none
  | store : SatisfyStep e slot data .store
      { e with data := if data = Guid.null then e.data else data } .sub none
  | sub : SatisfyStep e slot data .sub { e with latchCount := e.latchCount - 1 }
      (if e.latchCount - 1 = 0 then .swap else .done) none
  | swap (hf : e.fired = false) :
      SatisfyStep e slot data .swap { e with fired := true } .readCount none
  | swapAbort (hf : e.fired = true) :
      SatisfyStep e slot data .swap { e with fired := true } .abort none
  | readCount : SatisfyStep e slot data .readCount e (.writePos e.dependentCount) none
  | writePos {last} : SatisfyStep e slot data (.writePos last) { e with pos := last + 1 }
      (if 0 < last then .fire last 0 0 0 0 else .afterFire e.type) none
  | ready {last i j k total} (hi : i < last) (hj : j < e.listSize k)
      (hw : (e.entry k j.toNat).doneWriting = true) :
      SatisfyStep e slot data (.fire last i j k total) e (.signal last i j k total) none
  | finish {last i j k total} (hi : last ≤ i) :
      SatisfyStep e slot data (.fire last i j k total) e (.afterFire e.type) none
  | leaveList {last i j k total} (hi : i < last) (hj : ¬ j < e.listSize k) :
      SatisfyStep e slot data (.fire last i j k total) e
        (.awaitNext last i k (total + e.listSize k)) none
  | signal {last i j k total} : SatisfyStep e slot data (.signal last i j k total) e
      (.fire last (i + 1) (j + 1) k total)
      ((e.entry k j.toNat).dependent.map fun d => .deliver ⟨i.toNat, d, e.data⟩)
  | follow {last i k total n} (hn : e.listNext k = some n) :
      SatisfyStep e slot data (.awaitNext last i k total) e (.fire last i (i - total) n total) none
  | free : SatisfyStep e slot data .free e .done (some .remove)

lemma satisfyStep_inv {slot : UInt32} {data : Guid} {pc pc' : SatisfyPc}
    {eff : Option Effect} (h : satisfyStep e slot data pc = some (e', pc', eff)) :
    SatisfyStep e slot data pc e' pc' eff := by
  cases pc with
  | testFired =>
    simp only [satisfyStep] at h
    split_ifs at h with hf ht <;> cases h
    · exact .again hf ht
    · exact .againAbort hf ht
    · exact .pass (by simpa using hf)
  | add => cases h; exact .add
  | store => cases h; exact .store
  | sub => cases h; exact .sub
  | swap =>
    simp only [satisfyStep] at h
    split_ifs at h with hf <;> cases h
    · exact .swapAbort hf
    · exact .swap (by simpa using hf)
  | readCount => cases h; exact .readCount
  | writePos last => cases h; exact .writePos
  | fire last i j k total =>
    simp only [satisfyStep] at h
    split_ifs at h with hij hw hi <;> cases h
    · exact .ready hij.1 hij.2 hw
    · exact .finish hi
    · have hlt : i < last := UInt32.not_le.1 hi
      exact .leaveList hlt fun hj => hij ⟨hlt, hj⟩
  | signal last i j k total => cases h; exact .signal
  | awaitNext last i k total =>
    simp only [satisfyStep] at h
    cases hn : e.listNext k with
    | none => simp [hn] at h
    | some n =>
      rw [hn] at h
      cases h
      exact .follow hn
  | free => cases h; exact .free
  | done => cases h
  | abort => cases h

/-! ### An event with its calls -/

inductive EventCall where
  /-- `arts_add_dependence_ex` or `arts_add_local_event_callback`. -/
  | register (d : Dependent) (pc : RegisterPc)
  /-- `arts_event_satisfy_slot`. -/
  | satisfy (slot : UInt32) (data : Guid) (pc : SatisfyPc)
  deriving DecidableEq, Repr

namespace EventCall

def isDone : EventCall → Bool
  | .register _ (.done _ _) => true
  | .satisfy _ _ .done => true
  | _ => false

def dependent : EventCall → Option Dependent
  | .register d _ => some d
  | .satisfy _ _ _ => none

def step (e : Event) : EventCall → Option (Event × EventCall × Option Effect)
  | .register d pc =>
    (registerStep e d pc).map fun x => (x.1, .register d x.2.1, x.2.2.map .deliver)
  | .satisfy slot data pc =>
    (satisfyStep e slot data pc).map fun x => (x.1, .satisfy slot data x.2.1, x.2.2)

variable {e e' : Event} {c' : EventCall} {eff : Option Effect}

lemma step_register {d : Dependent} {pc : RegisterPc} (h : step e (.register d pc) = some (e', c', eff)) :
    ∃ pc' dl, RegisterStep e d pc e' pc' dl ∧ c' = .register d pc' ∧ eff = dl.map .deliver := by
  obtain ⟨⟨e₁, pc', dl⟩, hst, heq⟩ := map_eq_some_iff.1 h
  cases heq
  exact ⟨pc', dl, registerStep_inv hst, rfl, rfl⟩

lemma step_satisfy {slot : UInt32} {data : Guid} {pc : SatisfyPc} (h : step e (.satisfy slot data pc) = some (e', c', eff)) :
    ∃ pc', SatisfyStep e slot data pc e' pc' eff ∧ c' = .satisfy slot data pc' := by
  obtain ⟨⟨e₁, pc', dl⟩, hst, heq⟩ := map_eq_some_iff.1 h
  cases heq
  exact ⟨pc', satisfyStep_inv hst, rfl⟩

end EventCall

inductive EventAct where
  | register (d : Dependent)
  | satisfy (slot : UInt32) (data : Guid)
  /-- The `i`-th call performs its next access. -/
  | step (i : ℕ)
  deriving DecidableEq, Repr

/-- An event that is not a channel, with the calls made on it and what they delivered. -/
structure Plain where
  event : Event
  present : Bool
  /-- The calls made so far, the ones that have returned included. -/
  calls : List EventCall
  log : List Delivery

namespace Plain

def start (s : Plain) (c : EventCall) : Plain :=
  { s with calls := if s.present then s.calls ++ [c] else s.calls }

/-- Record what a step does outside the event. -/
def record (s : Plain) : Option Effect → Plain
  | some (.deliver d) => { s with log := d :: s.log }
  | some .remove => { s with present := false }
  | none => s

def next (s : Plain) : EventAct → Option Plain
  | .register d => some (s.start (.register d .fetchAdd))
  | .satisfy slot data => some (s.start (.satisfy slot data .testFired))
  | .step i =>
    match s.calls[i]? with
    | none => none
    | some c =>
      (c.step s.event).map fun x =>
        { s with event := x.1, calls := s.calls.set i x.2.1 }.record x.2.2

@[simp] lemma record_event (s : Plain) (eff : Option Effect) : (s.record eff).event = s.event := by
  rcases eff with _ | (_ | _) <;> rfl

@[simp] lemma record_calls (s : Plain) (eff : Option Effect) : (s.record eff).calls = s.calls := by
  rcases eff with _ | (_ | _) <;> rfl

def Starts : EventCall → Prop
  | .register _ pc => pc = .fetchAdd
  | .satisfy _ _ pc => pc = .testFired

variable {s s' : Plain}

lemma next_step {i : ℕ} (h : s.next (.step i) = some s') :
    ∃ c e' c' eff, s.calls[i]? = some c ∧ c.step s.event = some (e', c', eff) ∧
      s' = { s with event := e', calls := s.calls.set i c' }.record eff := by
  simp only [next] at h
  cases hc : s.calls[i]? with
  | none => simp [hc] at h
  | some c =>
    rw [hc] at h
    obtain ⟨⟨e', c', eff⟩, hst, rfl⟩ := map_eq_some_iff.1 h
    exact ⟨c, e', c', eff, rfl, hst, rfl⟩

lemma next_cases {a : EventAct} (h : s.next a = some s') : (∃ c, Starts c ∧ s' = s.start c) ∨
      ∃ i c e' c' eff, s.calls[i]? = some c ∧ c.step s.event = some (e', c', eff) ∧
        s' = { s with event := e', calls := s.calls.set i c' }.record eff := by
  cases a with
  | register d => exact .inl ⟨.register d .fetchAdd, rfl, (some.inj h).symm⟩
  | satisfy slot data =>
    exact .inl ⟨.satisfy slot data .testFired, rfl, (some.inj h).symm⟩
  | step i => exact .inr ⟨i, next_step h⟩

def create (type : EventType) (latchCount : UInt32) : Plain :=
  ⟨.create type latchCount, true, [], []⟩

def machine (type : EventType) : Machine Plain EventAct where
  init s := ∃ latchCount, s = create type latchCount
  next := next

end Plain

end Arts
