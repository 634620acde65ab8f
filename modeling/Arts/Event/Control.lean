import Arts.Event.Step
import Arts.Event.Versions

/-!
# Satisfying an event without data

The same calls with and without data signal the same dependents (`control_signals_same`), except
EDTs on a channel event, whose fire loop skips them without data.
-/

namespace Arts

open List Function Option Guid

/-! ### Events that are not channels -/

def Event.erase (e : Event) : Event := { e with data := null }

def Delivery.erase (d : Delivery) : Delivery := { d with data := null }

def Effect.erase : Effect → Effect
  | .deliver d => .deliver d.erase
  | .remove => .remove

def EventCall.erase : EventCall → EventCall
  | .register d pc => .register d pc
  | .satisfy slot _ pc => .satisfy slot null pc

def EventAct.control : EventAct → EventAct
  | .satisfy slot _ => .satisfy slot null
  | a => a

namespace Event

variable (e : Event)

@[simp] lemma type_erase : e.erase.type = e.type := rfl

@[simp] lemma listSize_erase (k : ℕ) : e.erase.listSize k = e.listSize k := rfl

@[simp] lemma listNext_erase (k : ℕ) : e.erase.listNext k = e.listNext k := rfl

@[simp] lemma entry_erase (k j : ℕ) : e.erase.entry k j = e.entry k j := rfl

end Event

lemma registerStep_erase (e : Event) (d : Dependent) (pc : RegisterPc) :
    registerStep e.erase d pc =
      (registerStep e d pc).map fun x => (x.1.erase, x.2.1, x.2.2.map Delivery.erase) := by
  cases pc with
  | walk p k r =>
    by_cases hle : e.listSize k ≤ r
    · by_cases hn : r - e.listSize k = 0 ∧ e.listNext k = none <;> simp [registerStep, hle, hn]
    · simp [registerStep, hle]
  | awaitNext p k r =>
    simp only [registerStep, Event.listNext_erase]
    cases e.listNext k <;> rfl
  | testFired p =>
    have hdrops : e.erase.dropsCallback d = e.dropsCallback d := by cases d <;> rfl
    cases hf : e.fired <;> cases hd : e.dropsCallback d <;>
      simp [registerStep] <;> simp_all [Event.erase]
  | awaitPos p => by_cases hp : e.pos = 0 <;> simp [registerStep, Event.erase, hp]
  | comparePos p => by_cases hp : e.pos - 1 ≤ p <;> simp [registerStep, Event.erase, hp]
  | _ => rfl

lemma satisfyStep_erase (e : Event) (slot : UInt32) (data : Guid) (pc : SatisfyPc) :
    satisfyStep e.erase slot null pc =
      (satisfyStep e slot data pc).map fun x => (x.1.erase, x.2.1, x.2.2.map Effect.erase) := by
  cases pc with
  | testFired => cases hf : e.fired <;> simp [satisfyStep, Event.erase, hf]
  | fire last i j k total =>
    by_cases hij : i < last ∧ j < e.listSize k
    · by_cases hw : (e.entry k j.toNat).doneWriting <;> simp [satisfyStep, hij, hw]
    · by_cases hi : last ≤ i <;> simp [satisfyStep, hij, hi]
  | signal last i j k total =>
    simp only [satisfyStep, Event.entry_erase]
    cases (e.entry k j.toNat).dependent <;> rfl
  | awaitNext last i k total =>
    simp only [satisfyStep, Event.listNext_erase]
    cases e.listNext k <;> rfl
  | _ => rfl

lemma EventCall.step_erase (e : Event) (c : EventCall) :
    c.erase.step e.erase =
      (c.step e).map fun x => (x.1.erase, x.2.1.erase, x.2.2.map Effect.erase) := by
  cases c with
  | register d pc =>
    simp only [erase, step, registerStep_erase, Option.map_map]
    congr 1
    funext x
    rcases x with ⟨e', pc', _ | dl⟩ <;> rfl
  | satisfy slot data pc =>
    simp only [erase, step, satisfyStep_erase e slot data pc, Option.map_map]
    congr 1

namespace Plain

def erase (s : Plain) : Plain where
  event := s.event.erase
  present := s.present
  calls := s.calls.map EventCall.erase
  log := s.log.map Delivery.erase

lemma erase_start (s : Plain) (c : EventCall) : (s.start c).erase = s.erase.start c.erase := by
  cases hp : s.present <;> simp [start, erase, hp]

lemma erase_record (s : Plain) (eff : Option Effect) :
    (s.record eff).erase = s.erase.record (eff.map Effect.erase) := by
  rcases eff with _ | (_ | _) <;> rfl

/-- **Every step** without data is the step with data, without its data. -/
theorem next_erase (s : Plain) (a : EventAct) : s.erase.next a.control = (s.next a).map erase := by
  cases a with
  | register d => exact congrArg some (s.erase_start (.register d .fetchAdd)).symm
  | satisfy slot data => exact congrArg some (s.erase_start (.satisfy slot data .testFired)).symm
  | step i =>
    have hi : s.erase.calls[i]? = s.calls[i]?.map EventCall.erase := by simp [erase]
    simp only [EventAct.control, next, hi]
    cases s.calls[i]? with
    | none => rfl
    | some c =>
      simp only [map_some]
      rw [show s.erase.event = s.event.erase from rfl, c.step_erase, Option.map_map, Option.map_map]
      congr 1
      funext x
      simp only [comp_apply, erase_record]
      simp [erase]

lemma erase_create (type : EventType) (latchCount : UInt32) :
    (create type latchCount).erase = create type latchCount := rfl

end Plain

/-! ### Channel events -/

/-- The version without its data. -/
def Version.erase (v : Version) : Version := { v with data := null }

def Dependent.isEdt : Dependent → Bool
  | .edt _ _ _ _ => true
  | _ => false

/-- What a run without data sends instead of these signals. -/
def controlSignals (xs : List Signal) : List Signal :=
  (xs.filter fun x => !x.1.isEdt).map fun x => (x.1, null)

lemma controlSignals_append (xs ys : List Signal) :
    controlSignals (xs ++ ys) = controlSignals xs ++ controlSignals ys := by
  simp [controlSignals]

namespace Channel

def erase (e : Channel) : Channel where
  latchCount := e.latchCount
  data := null
  versions := e.versions.map Version.erase

variable (e : Channel)

/-- Erasing the data is not noticed by the calls. -/
def eraseMap : VersionMap where
  data _ := null
  version := Version.erase
  fresh _ _ := rfl
  number _ := rfl
  latch _ := rfl
  isEmpty _ := rfl

lemma erase_eq_map : e.erase = e.map eraseMap := rfl

lemma filterMap_signal_null (db : Guid → Bool) (data : Guid) (ds : List Dependent) :
    ds.filterMap (signal db null) = controlSignals (ds.filterMap (signal db data)) := by
  induction ds with
  | nil => rfl
  | cons d ds ih =>
    cases d with
    | edt addr slot byteOffset size =>
      -- not signalled without data; with data it may be, but is dropped
      rw [filterMap_cons_none (by simp [signal]), ih, filterMap_cons]
      cases hs : signal db data (.edt addr slot byteOffset size) with
      | none => rfl
      | some x =>
        have hx : x.1.isEdt = true := by
          simp only [signal] at hs
          split_ifs at hs <;> cases hs <;> rfl
        simp [controlSignals, hx]
    | event addr slot | callback n => simpa [signal, controlSignals, Dependent.isEdt] using ih

lemma fireIfZero_erase (db : Guid → Bool) (k : ℕ) : e.erase.fireIfZero db k =
    ((e.fireIfZero db k).1.erase, controlSignals (e.fireIfZero db k).2) := by
  simp only [fireIfZero, erase_eq_map, latch_map]
  split_ifs
  · simp only [fireDependents, map_freeVersion, Prod.mk.injEq, true_and]
    simp only [map, getElem?_map]
    cases e.versions[k]? with
    | none => rfl
    | some v => exact filterMap_signal_null db v.data v.dependents
  · rfl

lemma satisfySlot_erase (db : Guid → Bool) (slot : UInt32) (data : Guid) :
    e.erase.satisfySlot db slot null =
      (e.satisfySlot db slot data).map fun x => (x.1.erase, controlSignals x.2) := by
  have hincr : ∀ v, eraseMap.version v.incr = (eraseMap.version v).incr := fun _ => rfl
  have hdecr : ∀ v, eraseMap.version (v.decr data) = (eraseMap.version v).decr null :=
    fun _ => rfl
  simp only [satisfySlot, erase_eq_map, ← map_getVersions, latch_map, target_map]
  split_ifs
  · rw [← map_modify _ _ _ hincr, ← erase_eq_map, fireIfZero_erase]
    rfl
  · rw [← map_modify _ _ _ hdecr, ← erase_eq_map, fireIfZero_erase]
    rfl
  · rw [← erase_eq_map, fireIfZero_erase]
    rfl
  · rfl

lemma addDependent_erase (db : Guid → Bool) (d : Dependent) : e.erase.addDependent db d =
    ((e.addDependent db d).1.erase, controlSignals (e.addDependent db d).2) := by
  have hincr : ∀ v, eraseMap.version v.incr = (eraseMap.version v).incr := fun _ => rfl
  have hreg : ∀ v, eraseMap.version (v.register d) = (eraseMap.version v).register d := fun _ => rfl
  simp only [addDependent, erase_eq_map, ← map_getVersions, frontHasDependent_map, target_map]
  by_cases hpos : 0 < e.getVersions.latchCount
  · have hpos' : 0 < (e.getVersions.map eraseMap).latchCount := hpos
    rw [if_pos hpos, if_pos hpos', ← map_modify _ _ _ hincr, ← map_modify _ _ _ hreg,
      ← erase_eq_map, fireIfZero_erase]
    rfl
  · have hpos' : ¬ 0 < (e.getVersions.map eraseMap).latchCount := hpos
    rw [if_neg hpos, if_neg hpos', ← map_modify _ _ _ hreg, ← erase_eq_map, fireIfZero_erase]
    rfl

lemma addCallback_erase (db : Guid → Bool) (n : ℕ) : e.erase.addCallback db n =
    ((e.addCallback db n).1.erase, controlSignals (e.addCallback db n).2) := by
  have hreg : ∀ v, eraseMap.version (v.register (.callback n)) =
      (eraseMap.version v).register (.callback n) := fun _ => rfl
  have hlen : (e.getVersions.map eraseMap).versions.length = e.getVersions.versions.length := by
    simp [map]
  simp only [addCallback, erase_eq_map, ← map_getVersions, hlen]
  rw [← map_modify _ _ _ hreg, ← erase_eq_map, fireIfZero_erase]
  rfl

end Channel

def ChannelAct.control (a : ChannelAct) : ChannelAct :=
  match a.op with
  | .satisfy slot _ => { a with op := .satisfy slot null }
  | _ => a

def ChannelAct.registersEdt (a : ChannelAct) : Bool :=
  match a.op with
  | .addDependence dest slot => (Channel.dependentOf dest slot 0 0).isEdt
  | .addDependenceAt dest slot byteOffset len =>
    (Channel.dependentOf dest slot byteOffset len).isEdt
  | _ => false

namespace ChannelRun

/-- The run without data that corresponds to a run. -/
def erase (s : ChannelRun) : ChannelRun := ⟨s.channel.erase, controlSignals s.log⟩

lemma call_erase (e : Channel) (a : ChannelAct) :
    call e.erase a.control = (call e a).map fun x => (x.1.erase, controlSignals x.2) := by
  obtain ⟨op, db⟩ := a
  cases op with
  | addDependence dest slot | addDependenceAt dest slot byteOffset len =>
    exact congrArg some (e.addDependent_erase db _)
  | addCallback n => exact congrArg some (e.addCallback_erase db n)
  | satisfy slot data => exact e.satisfySlot_erase db slot data

/-- **Every call** without data does the same to the event, but it signals no EDTs. -/
theorem next_erase (latchCount : UInt32) (data : Guid) (s : ChannelRun) (a : ChannelAct) :
    (machine latchCount null).next s.erase a.control =
      ((machine latchCount data).next s a).map erase := by
  simp only [machine, erase, call_erase, Option.map_map]
  congr 1
  funext x
  simp [erase, controlSignals_append]

end ChannelRun

/-! ### Channel events without EDTs -/

namespace Channel

/-- No EDT waits for the event. -/
def NoEdt (e : Channel) : Prop := ∀ v ∈ e.versions, ∀ d ∈ v.dependents, d.isEdt = false

variable {e : Channel}

lemma NoEdt.pushVersion (h : e.NoEdt) : e.pushVersion.NoEdt := by
  intro v hv d hd
  rcases mem_append.1 hv with hv | hv
  · exact h v hv d hd
  · rw [mem_singleton.1 hv] at hd
    cases hd

lemma NoEdt.getVersions (h : e.NoEdt) : e.getVersions.NoEdt := by
  unfold Channel.getVersions
  split_ifs
  · exact h.pushVersion
  · exact h

lemma NoEdt.freeVersion (h : e.NoEdt) : e.freeVersion.NoEdt := by
  unfold Channel.freeVersion NoEdt
  split
  · exact h
  · intro v hv d hd
    rw [mem_singleton.1 hv] at hd
    cases hd
  · rename_i w vs hvs
    intro v hv d hd
    exact h v (hvs ▸ mem_cons_of_mem _ hv) d hd

lemma NoEdt.modify (h : e.NoEdt) (k : ℕ) {f : Version → Version}
    (hf : ∀ v : Version, (∀ d ∈ v.dependents, d.isEdt = false) →
      ∀ d ∈ (f v).dependents, d.isEdt = false) : (e.modify k f).NoEdt := by
  intro v hv d hd
  obtain ⟨i, hi⟩ := mem_iff_getElem?.1 hv
  simp only [Channel.modify, getElem?_modify] at hi
  obtain ⟨w, hw, rfl⟩ := map_eq_some_iff.1 hi
  have hmem := h w (mem_of_getElem? hw)
  by_cases hk : k = i
  · rw [if_pos hk] at hd
    exact hf w hmem d hd
  · rw [if_neg hk] at hd
    exact hmem d hd

lemma NoEdt.target (h : e.NoEdt) (taken : Bool) : (e.target taken).1.NoEdt := by
  cases taken with
  | false => exact h
  | true => exact h.pushVersion

lemma NoEdt.fireIfZero (h : e.NoEdt) (db : Guid → Bool) (k : ℕ) :
    (e.fireIfZero db k).1.NoEdt ∧ ∀ x ∈ (e.fireIfZero db k).2, x.1.isEdt = false := by
  unfold Channel.fireIfZero
  split_ifs
  · refine ⟨h.freeVersion, fun x hx => ?_⟩
    simp only [fireDependents] at hx
    cases hv : e.versions[k]? with
    | none => simp [hv] at hx
    | some v =>
      rw [hv] at hx
      obtain ⟨d, hd, hs⟩ := mem_filterMap.1 hx
      rw [fst_of_signal hs]
      exact h v (mem_of_getElem? hv) d hd
  · exact ⟨h, by simp⟩

lemma NoEdt.addDependent (h : e.NoEdt) (db : Guid → Bool) {d : Dependent}
    (hd : d.isEdt = false) :
    (e.addDependent db d).1.NoEdt ∧ ∀ x ∈ (e.addDependent db d).2, x.1.isEdt = false := by
  simp only [Channel.addDependent]
  refine NoEdt.fireIfZero (NoEdt.modify ?_ _ fun v hv d' hd' => ?_) db _
  · split_ifs
    · exact (h.getVersions.target _).modify _ fun v hv => hv
    · exact h.getVersions
  · rcases mem_append.1 hd' with hd' | hd'
    · exact hv d' hd'
    · rw [mem_singleton.1 hd', hd]

lemma NoEdt.addCallback (h : e.NoEdt) (db : Guid → Bool) (n : ℕ) :
    (e.addCallback db n).1.NoEdt ∧ ∀ x ∈ (e.addCallback db n).2, x.1.isEdt = false := by
  refine NoEdt.fireIfZero (NoEdt.modify h.getVersions _ fun v hv d' hd' => ?_) db _
  rcases mem_append.1 hd' with hd' | hd'
  · exact hv d' hd'
  · rw [mem_singleton.1 hd']
    rfl

lemma NoEdt.satisfySlot (h : e.NoEdt) {db : Guid → Bool} {slot : UInt32} {data : Guid}
    {y : Channel × List Signal} (hy : e.satisfySlot db slot data = some y) :
    y.1.NoEdt ∧ ∀ x ∈ y.2, x.1.isEdt = false := by
  simp only [Channel.satisfySlot] at hy
  split_ifs at hy
  · rw [← some.inj hy]
    exact NoEdt.fireIfZero (NoEdt.modify (f := Version.incr) (h.getVersions.target _) _
      fun v hv => hv) db _
  · rw [← some.inj hy]
    exact NoEdt.fireIfZero (NoEdt.modify (f := Version.decr data) (h.getVersions.target _) _
      fun v hv => hv) db _
  · rw [← some.inj hy]
    exact h.getVersions.fireIfZero db _

end Channel

lemma ChannelRun.noEdt_exec {latchCount : UInt32} {data : Guid} {acts : List ChannelAct}
    {s s' : ChannelRun} (hacts : ∀ a ∈ acts, a.registersEdt = false)
    (h : s.channel.NoEdt ∧ ∀ x ∈ s.log, x.1.isEdt = false)
    (he : (machine latchCount data).exec s acts = some s') :
    s'.channel.NoEdt ∧ ∀ x ∈ s'.log, x.1.isEdt = false := by
  induction acts generalizing s with
  | nil => cases he; exact h
  | cons a acts ih =>
    obtain ⟨s₁, hn, he⟩ := bind_eq_some_iff.1 he
    refine ih (fun b hb => hacts b (mem_cons_of_mem a hb)) ?_ he
    obtain ⟨y, hy, rfl⟩ := map_eq_some_iff.1 hn
    have hedt := hacts a mem_cons_self
    obtain ⟨op, db⟩ := a
    have hstep : y.1.NoEdt ∧ ∀ x ∈ y.2, x.1.isEdt = false := by
      cases op with
      | addDependence dest slot | addDependenceAt dest slot byteOffset len =>
        cases hy; exact h.1.addDependent db hedt
      | addCallback n => cases hy; exact h.1.addCallback db n
      | satisfy slot data => exact h.1.satisfySlot hy
    refine ⟨hstep.1, fun x hx => ?_⟩
    rcases mem_append.1 hx with hx | hx
    · exact h.2 x hx
    · exact hstep.2 x hx

/-! ### The two runs compared -/

inductive Scenario where
  /-- An event that is not a channel, with its registrations and satisfies and the order of their
  accesses. -/
  | plain (type : EventType) (notChannel : type ≠ .channel) (latchCount : UInt32)
    (acts : List EventAct)
  | channel (latchCount : UInt32) (data : Guid) (acts : List ChannelAct)

namespace Scenario

/-- The dependents that are signalled, in order; `none` if the run is not possible. -/
def signalled : Scenario → Option (List Dependent)
  | .plain type _ latchCount acts =>
    ((Plain.machine type).exec (.create type latchCount) acts).map fun s =>
      s.log.reverse.map Delivery.dependent
  | .channel latchCount data acts =>
    ((ChannelRun.machine latchCount data).exec ⟨.create latchCount data, []⟩ acts).map fun s =>
      s.log.map Prod.fst

/-- The same calls with `NULL_GUID` for all data. -/
def control : Scenario → Scenario
  | .plain type h latchCount acts => .plain type h latchCount (acts.map EventAct.control)
  | .channel latchCount _ acts => .channel latchCount null (acts.map ChannelAct.control)

/-- No EDT is registered on a channel event. -/
def EdtFree : Scenario → Prop
  | .plain _ _ _ _ => True
  | .channel _ _ acts => ∀ a ∈ acts, a.registersEdt = false

end Scenario

/-- A channel event that is satisfied without data signals exactly the dependents that are not
EDTs. -/
theorem signalled_channel_control (latchCount : UInt32) (data : Guid) (acts : List ChannelAct) :
    (Scenario.channel latchCount data acts).control.signalled =
      (Scenario.channel latchCount data acts).signalled.map (List.filter fun d => !d.isEdt) := by
  have h := Machine.exec_map (ChannelRun.next_erase latchCount data) ⟨.create latchCount data, []⟩
  simp only [Scenario.control, Scenario.signalled]
  rw [show (⟨.create latchCount null, []⟩ : ChannelRun) =
    ChannelRun.erase ⟨.create latchCount data, []⟩ from rfl, h, Option.map_map, Option.map_map]
  congr 1
  simp [ChannelRun.erase, controlSignals, List.filter_map, Function.comp_def]

/-- **Control-only satisfaction wakes the same dependents**, if no EDT is registered on a channel
event. -/
theorem control_signals_same (x : Scenario) (h : x.EdtFree) :
    x.control.signalled = x.signalled := by
  cases x with
  | plain type notChannel latchCount acts =>
    have hexec := Machine.exec_map (N := Plain.machine type) (M := Plain.machine type)
      Plain.next_erase (.create type latchCount) acts
    simp only [Scenario.control, Scenario.signalled]
    rw [Plain.erase_create] at hexec
    rw [hexec, Option.map_map]
    congr 1
    simp [Plain.erase, Delivery.erase, comp_def]
  | channel latchCount data acts =>
    rw [signalled_channel_control]
    simp only [Scenario.signalled]
    cases he : (ChannelRun.machine latchCount data).exec ⟨.create latchCount data, []⟩ acts with
    | none => rfl
    | some s =>
      have hlog := (ChannelRun.noEdt_exec h
        ⟨by simp [Channel.NoEdt, Channel.create], by simp⟩ he).2
      simp only [Option.map_some, Option.some.injEq, List.filter_eq_self, List.mem_map]
      rintro d ⟨y, hy, rfl⟩
      simp [hlog y hy]

/-- An event and a callback on a channel event are called without data, too. -/
theorem control_signals_same_channel :
    (Scenario.channel 0 7 ([.satisfy latchIncrSlot 7, .addDependence (.make 2 0 1) 0,
        .addCallback 4, .satisfy latchDecrSlot 8].map fun op => ⟨op, fun _ => true⟩)).control.signalled
      = some [.event (.make 2 0 1) 0, .callback 4] :=
  (control_signals_same _ (by simp only [Scenario.EdtFree]; decide)).trans (by decide)

/-- **An EDT is left unsignalled** when its channel event is satisfied with `NULL_GUID`. -/
theorem edt_left_unsignalled :
    ∃ acts, (Scenario.channel 1 null acts).signalled = some [.edt (.make 1 0 1) 0 0 0] ∧
      (Scenario.channel 1 null acts).control.signalled = some [] :=
  ⟨[.addDependence (.make 1 0 1) 0, .satisfy latchDecrSlot 8].map fun op => ⟨op, fun _ => true⟩,
    by decide, by decide⟩

end Arts
