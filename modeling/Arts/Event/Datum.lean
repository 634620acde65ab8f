import Arts.Event.Step

/-!
# One datum per firing

`event->data` is written before the latch is decremented, and the guard reads `fired`; so two data
can be delivered (`two_data_in_one_firing`), unless all that pass the guard carry the same.
-/

namespace Arts

open List Option EventCall

/-- The action is not a satisfy of another slot than `ARTS_EVENT_LATCH_DECR_SLOT`. -/
def EventAct.isDecr : EventAct → Bool
  | .satisfy slot _ => slot == latchDecrSlot
  | _ => true

/-- The data GUID of the satisfy that drives the latch to `0` in this step. -/
def Plain.drives (s : Plain) : EventAct → Option Guid
  | .step i =>
    match s.calls[i]? with
    | some (.satisfy _ data .sub) => if s.event.latchCount - 1 = 0 then some data else none
    | _ => none
  | _ => none

/-- An event, and the data GUID of the satisfy that drove its latch to `0`. -/
structure Firing where
  plain : Plain
  /-- The data GUID of the satisfy that drove the latch to `0`, if one did. -/
  drove : Option Guid

namespace Firing

/-- An event that is only satisfied with `ARTS_EVENT_LATCH_DECR_SLOT`. -/
def machine (type : EventType) : Machine Firing EventAct where
  init s := ∃ latchCount, s = ⟨.create type latchCount, none⟩
  next s a :=
    if a.isDecr then (s.plain.next a).map fun p => ⟨p, s.drove.or (s.plain.drives a)⟩ else none

end Firing

namespace EventCall

/-- The call is a satisfy that is past the guard. -/
def passed : EventCall → Bool
  | .satisfy _ _ .testFired => false
  | .satisfy _ _ _ => true
  | .register _ _ => false

/-- The call is not a satisfy that is past the guard with another data GUID. -/
def agreesOn (data : Guid) : EventCall → Bool
  | .satisfy _ _ .testFired => true
  | .satisfy _ data' _ => data' == data
  | .register _ _ => true

/-- The call is not about to pass the guard after a satisfy with another data GUID. -/
def mayPass (s : Plain) : EventCall → Bool
  | .satisfy _ data .testFired => s.event.fired || s.calls.all (agreesOn data)
  | _ => true

end EventCall

/-- A satisfy passes the guard only if the satisfies that passed it before carry the same data
GUID. -/
def Firing.agree (s : Firing) : EventAct → Bool
  | .step i => s.plain.calls[i]?.all (mayPass s.plain)
  | _ => true

/-! ### The invariant -/

def RegisterPc.sawFired : RegisterPc → Bool
  | .awaitPos _ | .comparePos _ | .signal _ => true
  | _ => false

def SatisfyPc.engaged : SatisfyPc → Bool
  | .testFired | .done | .abort => false
  | _ => true

/-- The satisfy has found the latch at `0`. -/
def SatisfyPc.won : SatisfyPc → Bool
  | .swap | .readCount | .writePos _ | .fire _ _ _ _ _ | .signal _ _ _ _ _ | .awaitNext _ _ _ _
  | .free => true
  | _ => false

lemma SatisfyPc.of_won {pc : SatisfyPc} (h : pc.won = true) (slot : UInt32) (data : Guid) :
    pc ≠ .add ∧ pc ≠ .sub ∧ pc.engaged = true ∧ passed (.satisfy slot data pc) = true := by
  cases pc with
  | testFired | add | store | sub | done | abort => cases h
  | _ => exact ⟨nofun, nofun, rfl, rfl⟩

/-- What is known about a call when `g` is the data GUID of all satisfies that passed the guard. -/
def EventCall.Carries (s : Firing) (g : Guid) : EventCall → Prop
  | .register _ pc => pc.sawFired = true → s.drove ≠ none
  | .satisfy slot data pc => slot = latchDecrSlot ∧ pc ≠ .add ∧ (pc.engaged = true → data = g) ∧
      (s.plain.event.fired = false → pc ≠ .testFired → data = g) ∧
      (pc = .sub → s.plain.event.data = g) ∧ (pc.won = true → s.drove ≠ none)

namespace Firing

/-- All satisfies that passed the guard carry `g`. -/
structure Carried (s : Firing) (g : Guid) : Prop where
  calls : ∀ c ∈ s.plain.calls, c.Carries s g
  fresh : (∀ c ∈ s.plain.calls, c.passed = false) →
    s.plain.event.data = Guid.null ∧ s.drove = none ∧ s.plain.event.fired = false
  data : s.plain.event.data = Guid.null ∨ s.plain.event.data = g
  drove : ∀ d, s.drove = some d → d = g ∧ s.plain.event.data = g
  fired : s.plain.event.fired = true → s.drove ≠ none
  log : ∀ x ∈ s.plain.log, s.drove = some x.data

end Firing

variable {s s' : Firing} {g : Guid}

lemma EventCall.Carries.mono {c : EventCall} (hc : c.Carries s g)
    (hdrove : s.drove ≠ none → s'.drove ≠ none)
    (hfired : s'.plain.event.fired = false → s.plain.event.fired = false)
    (hdata : s.plain.event.data = g → s'.plain.event.data = g) : c.Carries s' g := by
  cases c with
  | register d pc => exact fun hp => hdrove (hc hp)
  | satisfy slot data pc =>
    obtain ⟨hslot, hadd, heng, hopen, hsub, hwon⟩ := hc
    exact ⟨hslot, hadd, heng, fun hf => hopen (hfired hf), fun hp => hdata (hsub hp),
      fun hw => hdrove (hwon hw)⟩

namespace Firing.Carried

lemma create (type : EventType) (latchCount : UInt32) :
    Carried ⟨.create type latchCount, none⟩ Guid.null where
  calls c hc := by simp [Plain.create] at hc
  fresh _ := ⟨rfl, rfl, rfl⟩
  data := .inl rfl
  drove d hd := by cases hd
  fired hf := by cases hf
  log x hx := by simp [Plain.create] at hx

lemma drove_eq (h : s.Carried g) (hd : s.drove ≠ none) : s.drove = some s.plain.event.data := by
  obtain ⟨d, hd⟩ := ne_none_iff_exists'.1 hd
  obtain ⟨rfl, hdata⟩ := h.drove d hd
  rw [hd, hdata]

lemma start (h : s.Carried g) {c : EventCall} (hc : Plain.Starts c)
    (hslot : ∀ slot data pc, c = .satisfy slot data pc → slot = latchDecrSlot) :
    Carried ⟨s.plain.start c, s.drove⟩ g := by
  have hcar : c.Carries s g := by
    cases c with
    | register d pc =>
      cases hc
      intro hp
      cases hp
    | satisfy slot data pc =>
      cases hc
      exact ⟨hslot _ _ _ rfl, nofun, nofun, fun _ hne => absurd rfl hne, nofun, nofun⟩
  unfold Plain.start
  split_ifs
  · exact
      { h with
        calls := forall_mem_append_singleton h.calls hcar
        fresh := fun hall => h.fresh fun d hd => hall d (mem_append_left _ hd) }
  · exact h

variable {i : ℕ} {c c' : EventCall} {e' : Event} {log : List Delivery} {present : Bool}

variable {drove : Option Guid}

lemma move (h : s.Carried g) (hi : s.plain.calls[i]? = some c) (hpassed : c'.passed = c.passed) (hdata : e'.data = s.plain.event.data)
    (hfired : e'.fired = s.plain.event.fired) (hdrove : drove = s.drove)
    (hc' : c'.Carries ⟨⟨e', present, s.plain.calls.set i c', log⟩, drove⟩ g)
    (hlog : ∀ x ∈ log, s.drove = some x.data) :
    Carried ⟨⟨e', present, s.plain.calls.set i c', log⟩, drove⟩ g := by
  subst hdrove
  exact
    { calls := forall_mem_set_of_ne hc' fun j d _ hj =>
        (h.calls d (mem_of_getElem? hj)).mono id (fun hf => hfired ▸ hf)
          fun hg => hdata.trans hg
      fresh := fun hall => by
        rw [hdata, hfired]
        refine h.fresh fun d hd => ?_
        obtain ⟨j, hj⟩ := mem_iff_getElem?.1 hd
        by_cases hij : i = j
        · subst hij
          obtain rfl : c = d := some.inj (hi.symm.trans hj)
          rw [← hpassed]
          exact hall c' (List.mem_set (List.getElem?_eq_some_iff.1 hi).1 _)
        · exact hall d (mem_of_getElem? (by rw [getElem?_set_ne hij, hj]))
      data := by
        rw [hdata]
        exact h.data
      drove := fun d hd => by
        rw [hdata]
        exact h.drove d hd
      fired := fun hf => h.fired (hfired ▸ hf)
      log := hlog }

lemma engaged (h : s.Carried g) (hi : s.plain.calls[i]? = some c) (hp' : c'.passed = true) (hdata : s.plain.event.data = g → e'.data = g)
    (hdata' : e'.data = s.plain.event.data ∨ e'.data = g)
    (hdrove : s.drove ≠ none → drove = s.drove)
    (hdrove' : ∀ d, drove = some d → d = g ∧ e'.data = g)
    (hfired : e'.fired = false → s.plain.event.fired = false)
    (hfired' : e'.fired = true → drove ≠ none)
    (hc' : c'.Carries ⟨⟨e', present, s.plain.calls.set i c', s.plain.log⟩, drove⟩ g) :
    Carried ⟨⟨e', present, s.plain.calls.set i c', s.plain.log⟩, drove⟩ g where
  calls := forall_mem_set_of_ne hc' fun j d _ hj =>
    (h.calls d (mem_of_getElem? hj)).mono (fun hd => (hdrove hd).symm ▸ hd) hfired hdata
  fresh hall := by
    have := hall c' (List.mem_set (List.getElem?_eq_some_iff.1 hi).1 _)
    rw [hp'] at this
    cases this
  data := by
    rcases hdata' with heq | heq
    · exact h.data.imp heq.trans heq.trans
    · exact .inr heq
  drove := hdrove'
  fired := hfired'
  log x hx := by
    have hx' := h.log x hx
    have hne : s.drove ≠ none := by simp [hx']
    exact (hdrove hne).trans hx'

variable {data : Guid}

lemma pass (h : s.Carried g)
    (hi : s.plain.calls[i]? = some (.satisfy latchDecrSlot data .testFired))
    (hf : s.plain.event.fired = false)
    (hagree : ∀ c ∈ s.plain.calls, c.agreesOn data = true) :
    ∃ g, Carried ⟨{ s.plain with
      calls := s.plain.calls.set i (.satisfy latchDecrSlot data .store) }, s.drove⟩ g := by
  by_cases hall : ∀ c ∈ s.plain.calls, c.passed = false
  · obtain ⟨hdata, hdrove, -⟩ := h.fresh hall
    refine ⟨data, ?_⟩
    refine
      { calls := forall_mem_set_of_ne ⟨rfl, nofun, fun _ => rfl, fun _ _ => rfl, nofun, nofun⟩
          fun j c _ hj => ?_
        fresh := fun hnone => ?_
        data := .inl hdata
        drove := fun d hd => by cases hdrove.symm.trans hd
        fired := fun hf' => by cases hf.symm.trans hf'
        log := h.log }
    · have hmem := mem_of_getElem? hj
      have hpass := hall c hmem
      cases c with
      | register d pc => exact h.calls _ hmem
      | satisfy slot data' pc =>
        cases pc with
        | testFired =>
          exact ⟨(h.calls _ hmem).1, nofun, nofun, fun _ hne => absurd rfl hne, nofun, nofun⟩
        | _ => cases hpass
    · cases hnone _ (List.mem_set (List.getElem?_eq_some_iff.1 hi).1 _)
  · -- a satisfy has passed before: the data GUIDs are the same
    push Not at hall
    obtain ⟨c, hc, hpass⟩ := hall
    have hg : data = g := by
      cases c with
      | register d pc => exact absurd rfl hpass
      | satisfy slot data' pc =>
        have hag := hagree _ hc
        obtain ⟨-, -, -, hopen, -⟩ := h.calls _ hc
        cases pc with
        | testFired => exact absurd rfl hpass
        | _ =>
          rw [← hopen hf nofun]
          exact (eq_of_beq hag).symm
    subst hg
    exact ⟨data, h.engaged hi rfl id (.inl rfl) (fun _ => rfl) h.drove id h.fired
      ⟨rfl, nofun, fun _ => rfl, fun _ _ => rfl, nofun, nofun⟩⟩

lemma register_step (h : s.Carried g) {d : Dependent} {pc pc' : RegisterPc}
    {dl : Option Delivery} (hi : s.plain.calls[i]? = some (.register d pc))
    (hst : RegisterStep s.plain.event d pc e' pc' dl) :
    Carried ⟨{ s.plain with event := e', calls := s.plain.calls.set i (.register d pc') }.record
      (dl.map .deliver), s.drove⟩ g := by
  have hcar := h.calls _ (mem_of_getElem? hi)
  cases hst with
  | fired hf => exact h.move hi (by rfl) rfl rfl rfl (fun _ => h.fired hf) h.log
  | posSeen | outside => exact h.move hi (by rfl) rfl rfl rfl (fun _ => hcar rfl) h.log
  | signal =>
    refine h.move hi (by rfl) rfl rfl rfl nofun fun x hx => ?_
    rcases mem_cons.1 hx with rfl | hx
    · exact h.drove_eq (hcar rfl)
    · exact h.log x hx
  | _ => exact h.move hi (by rfl) rfl rfl rfl nofun h.log

variable {slot : UInt32} {pc : SatisfyPc}

lemma or_drives (hi : s.plain.calls[i]? = some (.satisfy slot data pc)) (hne : pc ≠ .sub) :
    s.drove.or (s.plain.drives (.step i)) = s.drove := by
  have hnone : s.plain.drives (.step i) = none := by
    simp only [Plain.drives, hi]
    cases pc with
    | sub => exact absurd rfl hne
    | _ => rfl
  rw [hnone, or_none]

variable {pc' : SatisfyPc}

lemma serve (h : s.Carried g)
    (hi : s.plain.calls[i]? = some (.satisfy slot data pc)) (hw : pc.won = true)
    (hw' : pc'.won = true ∨ pc' = .done) (hdata : e'.data = s.plain.event.data)
    (hfired : e'.fired = s.plain.event.fired) (hlog : ∀ x ∈ log, s.drove = some x.data) :
    ∃ g, Carried ⟨⟨e', present, s.plain.calls.set i (.satisfy slot data pc'), log⟩,
      s.drove.or (s.plain.drives (.step i))⟩ g := by
  obtain ⟨hslot, -, heng, -, -, hwon⟩ := h.calls _ (mem_of_getElem? hi)
  obtain ⟨-, hsub, hpe, hpassed⟩ := SatisfyPc.of_won hw slot data
  have hpc' : pc' ≠ .add ∧ pc' ≠ .sub ∧ passed (.satisfy slot data pc') = true := by
    rcases hw' with hw' | rfl
    · obtain ⟨hadd, hsub, -, hpassed⟩ := SatisfyPc.of_won hw' slot data
      exact ⟨hadd, hsub, hpassed⟩
    · exact ⟨nofun, nofun, rfl⟩
  have hg : data = g := heng hpe
  rw [or_drives hi hsub]
  exact ⟨g, h.move hi (hpc'.2.2.trans hpassed.symm) hdata hfired rfl
    ⟨hslot, hpc'.1, fun _ => hg, fun _ _ => hg, fun hp => absurd hp hpc'.2.1, fun _ => hwon hw⟩
    hlog⟩

lemma satisfy_step (h : s.Carried g)
    {eff : Option Effect} (hi : s.plain.calls[i]? = some (.satisfy slot data pc))
    (hagree : mayPass s.plain (.satisfy slot data pc) = true)
    (hst : SatisfyStep s.plain.event slot data pc e' pc' eff) :
    ∃ g, Carried ⟨{ s.plain with
        event := e', calls := s.plain.calls.set i (.satisfy slot data pc') }.record eff,
      s.drove.or (s.plain.drives (.step i))⟩ g := by
  obtain ⟨hslot, hadd, heng, hopen, hsub, hwon⟩ := h.calls _ (mem_of_getElem? hi)
  have hafter : (SatisfyPc.afterFire s.plain.event.type).won = true ∨
      SatisfyPc.afterFire s.plain.event.type = .done := by
    unfold SatisfyPc.afterFire
    split_ifs
    · exact .inl rfl
    · exact .inr rfl
  cases hst with
  | again hf | againAbort hf =>
    rw [or_drives hi nofun]
    refine ⟨g, h.engaged hi rfl id (.inl rfl) (fun _ => rfl) h.drove id h.fired
      ⟨hslot, nofun, nofun, fun hf' => ?_, nofun, nofun⟩⟩
    cases hf.symm.trans hf'
  | pass hf =>
    subst hslot
    rw [or_drives hi nofun]
    refine h.pass hi hf fun c hc => ?_
    simp only [mayPass, hf, Bool.false_or, List.all_eq_true] at hagree
    exact hagree c hc
  | add => exact absurd rfl hadd
  | store =>
    obtain rfl := heng rfl
    rw [or_drives hi nofun]
    -- a null GUID is not written, but then nothing else was written either
    have hdata : (if data = Guid.null then s.plain.event.data else data) = data := by
      split_ifs with hnull
      · subst hnull
        exact h.data.elim id id
      · rfl
    exact ⟨data, h.engaged hi rfl (fun _ => hdata) (.inr hdata) (fun _ => rfl)
      (fun d hd => ⟨(h.drove d hd).1, hdata⟩) id h.fired
      ⟨hslot, nofun, fun _ => rfl, fun _ _ => rfl, fun _ => hdata, nofun⟩⟩
  | sub =>
    obtain rfl := heng rfl
    have hdata := hsub rfl
    simp only [Plain.drives, hi]
    split_ifs with hz
    · refine ⟨data, h.engaged hi rfl id (.inl rfl) (fun hd => ?_) (fun d hd => ?_) id
        (fun _ => by simp) ⟨hslot, nofun, fun _ => rfl, fun _ _ => rfl, nofun, fun _ => by simp⟩⟩
      · rw [h.drove_eq hd, some_or]
      · rcases or_eq_some_iff.1 hd with hd | ⟨-, hd⟩
        · exact h.drove d hd
        · exact ⟨(some.inj hd).symm, hdata⟩
    · rw [or_none]
      exact ⟨data, h.engaged hi rfl id (.inl rfl) (fun _ => rfl) h.drove id h.fired
        ⟨hslot, nofun, nofun, fun _ _ => rfl, nofun, nofun⟩⟩
  | swap hf =>
    rw [or_drives hi nofun]
    exact ⟨g, h.engaged hi rfl id (.inl rfl) (fun _ => rfl) h.drove nofun (fun _ => hwon rfl)
      ⟨hslot, nofun, fun _ => heng rfl, nofun, nofun, fun _ => hwon rfl⟩⟩
  | swapAbort hf =>
    rw [or_drives hi nofun]
    exact ⟨g, h.engaged hi rfl id (.inl rfl) (fun _ => rfl) h.drove nofun (fun _ => hwon rfl)
      ⟨hslot, nofun, nofun, nofun, nofun, nofun⟩⟩
  | readCount => exact h.serve hi rfl (.inl rfl) rfl rfl h.log
  | writePos =>
    refine h.serve hi rfl ?_ rfl rfl h.log
    split_ifs
    · exact .inl rfl
    · exact hafter
  | finish => exact h.serve hi rfl hafter rfl rfl h.log
  | @signal last j k list total =>
    cases (s.plain.event.entry list k.toNat).dependent with
    | none => exact h.serve hi rfl (.inl rfl) rfl rfl h.log
    | some d =>
      refine h.serve hi rfl (.inl rfl) rfl rfl fun x hx => ?_
      rcases mem_cons.1 hx with rfl | hx
      · exact h.drove_eq (hwon rfl)
      · exact h.log x hx
  | free => exact h.serve hi rfl (.inr rfl) rfl rfl h.log
  | _ => exact h.serve hi rfl (.inl rfl) rfl rfl h.log

lemma next (h : s.Carried g) {type : EventType} {a : EventAct} (hagree : s.agree a = true)
    (hn : (machine type).next s a = some s') : ∃ g, s'.Carried g := by
  simp only [machine] at hn
  split_ifs at hn with hdecr
  obtain ⟨p, hp, rfl⟩ := map_eq_some_iff.1 hn
  cases a with
  | register d =>
    cases hp
    rw [show s.plain.drives (.register d) = none from rfl, or_none]
    exact ⟨g, h.start rfl nofun⟩
  | satisfy slot data =>
    cases hp
    rw [show s.plain.drives (.satisfy slot data) = none from rfl, or_none]
    refine ⟨g, h.start rfl fun _ _ _ heq => ?_⟩
    cases heq
    exact eq_of_beq hdecr
  | step i =>
    obtain ⟨c, e', c', eff, hi, hst, rfl⟩ := Plain.next_step hp
    have hpass : c.mayPass s.plain = true := by simpa [agree, hi] using hagree
    cases c with
    | register d pc =>
      obtain ⟨pc', dl, hstep, rfl, rfl⟩ := step_register hst
      have hnone : s.plain.drives (.step i) = none := by simp only [Plain.drives, hi]
      rw [hnone, or_none]
      exact ⟨g, h.register_step hi hstep⟩
    | satisfy slot data pc =>
      obtain ⟨pc', hstep, rfl⟩ := step_satisfy hst
      exact h.satisfy_step hi hpass hstep

end Firing.Carried

/-- **One datum per firing**, if a satisfy passes the guard only if the ones before it carry the
same data. -/
theorem one_datum_per_firing {type : EventType} {s : Firing}
    (hr : ((Firing.machine type).restrict fun s a => s.agree a = true).Reachable s) :
    (∀ x ∈ s.plain.log, s.drove = some x.data) ∧
      ∀ g, s.drove = some g → s.plain.event.data = g := by
  obtain ⟨g, h⟩ : ∃ g, s.Carried g := by
    refine hr.invariant (I := fun s => ∃ g, s.Carried g) ?_ ?_
    · rintro _ ⟨latchCount, rfl⟩
      exact ⟨_, .create type latchCount⟩
    · rintro s a s' - ⟨g, h⟩ hn
      obtain ⟨hagree, hn⟩ := Machine.restrict_next.1 hn
      exact h.next hagree hn
  refine ⟨h.log, fun d hd => ?_⟩
  obtain ⟨rfl, hdata⟩ := h.drove d hd
  exact hdata

/-- Two satisfies with the same data pass the guard, and a third one with other data is rejected. -/
theorem one_datum_per_firing_two :
    ∃ s, ((Firing.machine .sticky).restrict fun s a => s.agree a = true).Reachable s ∧
      s.drove = some 7 ∧ s.plain.log.map Delivery.data = [7, 7] ∧ s.plain.event.data = 7 := by
  exact Machine.Reachable.exists_and₂
    (r := flatten [
      [.register (.edt 1 0 0 0), .register (.edt 2 0 0 0), .satisfy latchDecrSlot 7,
        .satisfy latchDecrSlot 7, .satisfy latchDecrSlot 8],
      replicate 5 (.step 0), replicate 5 (.step 1), [.step 2, .step 3],
      replicate 7 (.step 2), [.step 3, .step 4], replicate 3 (.step 2)])
    ⟨0, rfl⟩ (by decide +kernel) fun _ hr hdrove _ => (one_datum_per_firing hr).2 7 hdrove

/-- **Two data in one firing.** Both satisfies find the event not fired. The first one signals the
first dependent with `7`; then the second one writes `8`. -/
theorem two_data_in_one_firing :
    ∃ s, (Firing.machine .sticky).Reachable s ∧ s.drove = some 7 ∧
      s.plain.log.map (fun x => (x.dependent, x.data)) =
        [(.edt 2 0 0 0, 8), (.edt 1 0 0 0, 7)] := by
  exact Machine.Reachable.exists_of_exec
    (r := flatten [
      [.register (.edt 1 0 0 0), .register (.edt 2 0 0 0), .satisfy latchDecrSlot 7,
        .satisfy latchDecrSlot 8],
      replicate 5 (.step 0), replicate 5 (.step 1), [.step 2, .step 3],
      replicate 7 (.step 2), [.step 3], replicate 3 (.step 2)])
    ⟨0, rfl⟩ (by decide +kernel)

end Arts
