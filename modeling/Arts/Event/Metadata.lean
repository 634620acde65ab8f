import Arts.Event.Registration

/-!
# When the metadata of a dependence survive its registration

They are lost in a replay, and replaced if the slice is delivered during the registration; only then
(`Registration.metadata_survives`).
-/

namespace Arts

open List Guid Channel SlotPacket

namespace Registration

variable {dest : EdtGuid} {slot : UInt32} {source : Guid}

/-! ### Every registration can be completed -/

/-- The EDT and the event are there. -/
structure Present (w : Registration) : Prop where
  edt : w.depv ≠ none
  event : w.event ≠ none
  depvOo : w.depvOo = []
  eventOo : w.eventOo = []

def waiters (w : Registration) : ℕ := w.packets.countP isWaiter

section Present

variable {w : Registration}

lemma Present.reachSlot (dest : EdtGuid) (slot : UInt32) (self : UInt64) (h : w.Present)
    (op : SlotOp) :
    (w.reachSlot dest slot self op).Present ∧
      (w.reachSlot dest slot self op).waiters = w.waiters := by
  unfold Registration.reachSlot
  split
  · split
    · exact ⟨{ h with edt := by simp }, rfl⟩
    · next hnone => exact absurd hnone h.edt
  · exact ⟨{ h with }, by simp [waiters, isWaiter]⟩

lemma Present.registerVersion (dest : EdtGuid) (slot : UInt32) (self : UInt64)
    (db : Guid → Bool) (h : w.Present) (e : Source) (byteOffset len : UInt64) :
    (w.registerVersion dest slot self db e byteOffset len).Present ∧
      (w.registerVersion dest slot self db e byteOffset len).waiters = w.waiters := by
  unfold Registration.registerVersion
  simp only
  generalize filter _ _ = own
  generalize hv : ({ w with event := some _ } : Registration) = v
  have hp : v.Present := by
    rw [← hv]
    exact { h with event := by simp }
  have hw : v.waiters = w.waiters := by rw [← hv]; rfl
  rw [← hw]
  clear hw hv
  induction own generalizing v with
  | nil => exact ⟨hp, rfl⟩
  | cons s own ih =>
    obtain ⟨hp', hw'⟩ := hp.reachSlot dest slot self (signalOp byteOffset len)
    obtain ⟨hp'', hw''⟩ := ih _ hp'
    exact ⟨hp'', hw''.trans hw'⟩

lemma Present.addDependenceEx (dest : EdtGuid) (slot : UInt32) (source : Guid)
    (db : Guid → Bool) (h : w.Present) (mode : AccessMode) (flags : UInt32) :
    (w.addDependenceEx dest slot source source.getRank db mode flags).Present ∧
      (w.addDependenceEx dest slot source source.getRank db mode flags).waiters = w.waiters := by
  obtain ⟨hp, hw⟩ := h.reachSlot dest slot source.getRank
    (.setMetadata ⟨mode, flags, 0, 0⟩)
  unfold Registration.addDependenceEx
  simp only [lookupEvent]
  split
  · next hnone => exact absurd hnone hp.event
  · next e he =>
    split
    · obtain ⟨hp', hw'⟩ := hp.registerVersion dest slot source.getRank db e 0 0
      exact ⟨hp', hw'.trans hw⟩
    · split
      · obtain ⟨hp', hw'⟩ := hp.reachSlot dest slot source.getRank (.signal .null 0)
        exact ⟨hp', hw'.trans hw⟩
      · exact ⟨hp, hw⟩

end Present

/-- What is there has nothing queued on it. -/
structure Orderly (w : Registration) : Prop where
  depvOo : w.depv ≠ none → w.depvOo = []
  eventOo : w.event ≠ none → w.eventOo = []

section Progress

variable {w : Registration}

lemma Present.leads_of_waiters_eq_zero (h : w.Present) (hw : w.waiters = 0) :
    ∃ w', (machine dest slot source).Leads w w' ∧ w'.Settled := by
  induction hn : w.packets.length generalizing w with
  | zero => exact ⟨w, .refl w, h.depvOo, h.eventOo, length_eq_zero_iff.1 hn⟩
  | succ n ih =>
    cases hp : w.packets with
    | nil => simp [hp] at hn
    | cons p ps =>
      cases p with
      | addDependence m f => simp [waiters, hp, isWaiter] at hw
      | slot op =>
        obtain ⟨depv, hd⟩ := Option.ne_none_iff_exists'.1 h.edt
        -- the EDT is on the rank that handles the message, so nothing is sent again
        have hstep : (machine dest slot source).next w (.deliver 0 fun _ => false) =
            some { w with packets := ps, depv := some (depv.modify slot.toNat op.apply) } := by
          simp [machine, next, hp, Registration.reachSlot, hd]
        obtain ⟨w', hl, hs⟩ := ih (w := { w with
            packets := ps, depv := some (depv.modify slot.toNat op.apply) })
          { h with edt := by simp }
          (by simpa [waiters, hp, isWaiter] using hw) (by simpa [hp] using hn)
        exact ⟨w', (Machine.Leads.of_next hstep).trans hl, hs⟩

lemma Present.leads (h : w.Present) :
    ∃ w', (machine dest slot source).Leads w w' ∧ w'.Settled := by
  induction hn : w.waiters generalizing w with
  | zero => exact h.leads_of_waiters_eq_zero hn
  | succ n ih =>
    obtain ⟨p, hp, hpw⟩ := countP_pos_iff.1 (by rw [waiters] at hn; omega :
      0 < w.packets.countP isWaiter)
    obtain ⟨i, hi⟩ := mem_iff_getElem?.1 hp
    cases p with
    | slot op => cases hpw
    | addDependence m f =>
      let v : Registration := { w with packets := w.packets.eraseIdx i }
      have hv : v.Present := { h with }
      obtain ⟨hp', hw'⟩ := hv.addDependenceEx dest slot source (fun _ => false) m f
      have hstep : (machine dest slot source).next w (.deliver i fun _ => false) =
          some (v.addDependenceEx dest slot source source.getRank (fun _ => false) m f) := by
        simp [machine, next, hi, v]
      have hcount : w.waiters = v.waiters + 1 := by
        obtain ⟨hlt, hget⟩ := List.getElem?_eq_some_iff.1 hi
        have hperm := getElem_cons_eraseIdx_perm hlt
        rw [hget] at hperm
        have hcount := hperm.countP_eq isWaiter
        rw [countP_cons_of_pos rfl] at hcount
        exact hcount.symm
      obtain ⟨w', hl, hs⟩ := ih hp' (by omega)
      exact ⟨w', (Machine.Leads.of_next hstep).trans hl, hs⟩

lemma Orderly.leads_event (h : w.Orderly) (hd : w.depv ≠ none) :
    ∃ w', (machine dest slot source).Leads w w' ∧ w'.Present := by
  by_cases he : w.event = none
  · let e : Source := ⟨.once, false, 0, null, []⟩
    let v : Registration := { w with event := some e, eventOo := [] }
    have hstep : (machine dest slot source).next w (.createEvent e fun _ => false) =
        some (w.eventOo.foldl (fun (w : Registration) x =>
          w.addDependenceEx dest slot source source.getRank (fun _ => false) x.1 x.2) v) := by
      simp [machine, next, he, v]
    refine ⟨_, .of_next hstep, ?_⟩
    have hv : v.Present := ⟨hd, by simp, h.depvOo hd, rfl⟩
    generalize v = v at hv
    generalize w.eventOo = xs
    induction xs generalizing v with
    | nil => exact hv
    | cons x xs ih => exact ih _ (hv.addDependenceEx _ _ _ _ x.1 x.2).1
  · exact ⟨w, .refl w, hd, he, h.depvOo hd, h.eventOo he⟩

/-- **Every registration can be completed**: create what is missing, and handle the messages. -/
theorem Orderly.leads (dest : EdtGuid) (slot : UInt32) (source : Guid) (h : w.Orderly) :
    ∃ w', (machine dest slot source).Leads w w' ∧ w'.Settled := by
  have hedt : ∃ w₁, (machine dest slot source).Leads w w₁ ∧ w₁.Orderly ∧ w₁.depv ≠ none := by
    by_cases hd : w.depv = none
    · let depv : List DepMeta := replicate (slot.toNat + 1) ⟨.null, 0, 0, 0⟩
      have hstep : (machine dest slot source).next w (.createEdt depv) = some { w with
          depv := some (w.depvOo.foldl (fun depv op => depv.modify slot.toNat op.apply) depv)
          depvOo := [] } := by
        simp [machine, next, hd, depv]
      exact ⟨_, .of_next hstep, ⟨fun _ => rfl, h.eventOo⟩, by simp⟩
    · exact ⟨w, .refl w, h, hd⟩
  obtain ⟨w₁, hl₁, ho₁, hd₁⟩ := hedt
  obtain ⟨w₂, hl₂, hp₂⟩ := ho₁.leads_event hd₁
  obtain ⟨w', hl', hs⟩ := hp₂.leads
  exact ⟨w', (hl₁.trans hl₂).trans hl', hs⟩

end Progress

/-! ### Slices -/

/-- No slice is selected. -/
def NoSlice (m : DepMeta) : Prop := m.sliceOffset = 0 ∧ m.sliceSize = 0

/-- The event is on the rank `self` and does not deliver the slice while it is registered. -/
def Holds (source : Guid) (self : UInt64) (db : Guid → Bool) (w : Registration) : Prop :=
  ∃ e, w.lookupEvent source self = some e ∧
    ¬ (e.channel.Ready ∧ e.channel.frontData ≠ null ∧ db e.channel.frontData = true)

section Slice

variable {self : UInt64} {db : Guid → Bool} {w : Registration} {byteOffset len : UInt64}

lemma signal_dependentOf (dest : EdtGuid) (slot : UInt32) (db : Guid → Bool) (data : Guid)
    (h : byteOffset ≠ 0 ∨ len ≠ 0) :
    signal db data (dependentOf dest.guid slot byteOffset len) =
      if data ≠ null ∧ db data = true then
        some (dependentOf dest.guid slot byteOffset len, data) else none := by
  have hd : dependentOf dest.guid slot byteOffset len =
      .edt dest.guid slot byteOffset len := by
    simp [dependentOf, dest.isEdt]
  rw [hd, signal]
  split_ifs <;> simp_all

lemma own_eq_nil_iff (dest : EdtGuid) (slot : UInt32) (e : Channel)
    (h : byteOffset ≠ 0 ∨ len ≠ 0) :
    ((e.addDependenceWithByteOffset db dest.guid slot byteOffset len).2.filter fun s =>
      s.1 = dependentOf dest.guid slot byteOffset len) = [] ↔
      ¬ (e.Ready ∧ e.frontData ≠ null ∧ db e.frontData = true) := by
  rw [Channel.addDependenceWithByteOffset, addDependent_signals]
  have hsig := signal_dependentOf dest slot db e.frontData h
  generalize dependentOf dest.guid slot byteOffset len = d at hsig
  by_cases hr : e.Ready
  · rw [if_pos hr, filter_eq_nil_iff]
    constructor
    · rintro hno ⟨-, hdata⟩
      rw [if_pos hdata] at hsig
      exact hno (d, e.frontData) (mem_filterMap.2 ⟨d, by simp, hsig⟩) (by simp)
    · intro hno x hx hxd
      obtain ⟨d', -, hs⟩ := mem_filterMap.1 hx
      have hd' : d' = d := (fst_of_signal hs).symm.trans (by simpa using hxd)
      rw [hd', hsig, if_neg fun hdata => hno ⟨hr, hdata⟩] at hs
      cases hs
  · simp [hr]

lemma depv_reachSlot (hfar : dest.guid.getRank = self → w.depv = none) (op : SlotOp) :
    (w.reachSlot dest slot self op).depv = w.depv := by
  unfold Registration.reachSlot
  split
  · next hself => rw [hfar hself]
  · rfl

lemma event_reachSlot (op : SlotOp) : (w.reachSlot dest slot self op).event = w.event := by
  unfold Registration.reachSlot
  split
  · split <;> rfl
  · rfl

lemma Orderly.reachSlot (h : w.Orderly) (op : SlotOp) :
    (w.reachSlot dest slot self op).Orderly := by
  unfold Registration.reachSlot
  split
  · split
    · next depv hd => exact ⟨fun _ => h.depvOo (by simp [hd]), h.eventOo⟩
    · next hd => exact ⟨fun hne => absurd hd hne, h.eventOo⟩
  · exact ⟨h.depvOo, h.eventOo⟩

/-- What a registration of a slice leaves behind, in the slot or pending, if its event is missing or
if it is delivered at once. -/
structure Lost (dest : EdtGuid) (slot : UInt32) (rank : UInt64) (w v : Registration) : Prop where
  tends : v.Tends slot NoSlice
  orderly : v.Orderly
  far : (dest.guid.getRank = rank → w.depv = none) → v.Pends NoSlice ∧ v.depv = w.depv
  remote : dest.guid.getRank ≠ rank → v.depvOo = w.depvOo

lemma Lost.reachSlot {v : Registration} (h : Lost dest slot self w v) {op : SlotOp}
    (hop : op.Keeps NoSlice) : Lost dest slot self w (v.reachSlot dest slot self op) where
  tends := h.tends.reachSlot hop
  orderly := h.orderly.reachSlot op
  far hfar := by
    obtain ⟨hp, hd⟩ := h.far hfar
    exact ⟨hp.reachSlot, (depv_reachSlot (by rwa [hd]) op).trans hd⟩
  remote hne := by
    rw [← h.remote hne]
    simp [Registration.reachSlot, hne]

lemma lost_registerVersion {e : Source} (hw : w.Settled) (hslot : w.HasSlot slot)
    (h : byteOffset ≠ 0 ∨ len ≠ 0)
    (hdue : e.channel.Ready ∧ e.channel.frontData ≠ null ∧ db e.channel.frontData = true) :
    Lost dest slot self w (w.registerVersion dest slot self db e byteOffset len) := by
  obtain ⟨hoo, heo, hp⟩ := hw
  have hop : (signalOp byteOffset len).Sets NoSlice := by
    intro m
    simp [signalOp, h, SlotOp.apply, NoSlice]
  have hne := fun hnil => (own_eq_nil_iff dest slot e.channel h).1 hnil hdue
  unfold Registration.registerVersion
  simp only
  revert hne
  generalize filter _ _ = own
  generalize hv : ({ w with event := some _ } : Registration) = v
  intro hne
  have htame : v.Tame NoSlice := by
    rw [← hv]
    exact ⟨by simp [hoo], by simp [hp], by simp [heo], by simp [hp]⟩
  have hslot' : v.HasSlot slot := by rwa [← hv]
  have horderly : v.Orderly := by
    rw [← hv]
    exact ⟨fun _ => hoo, fun _ => heo⟩
  have hdepv : v.depv = w.depv := by rw [← hv]
  have hdepvOo : v.depvOo = w.depvOo := by rw [← hv]
  cases own with
  | nil => exact absurd rfl hne
  | cons s own =>
    rw [foldl_cons]
    have hlost : Lost dest slot self w (v.reachSlot dest slot self (signalOp byteOffset len)) := by
      refine ⟨⟨hslot'.reachSlot, htame.reachSlot hop.keeps, .reachSlot_of_sets hslot' hop⟩,
        horderly.reachSlot _, fun hfar => ?_, fun hremote => ?_⟩
      · rw [← hdepv] at hfar
        exact ⟨.reachSlot_of_sets hfar hop, (depv_reachSlot hfar _).trans hdepv⟩
      · rw [← hdepvOo]
        simp [Registration.reachSlot, hremote]
    generalize v.reachSlot dest slot self (signalOp byteOffset len) = v' at hlost
    clear hne
    induction own generalizing v' with
    | nil => exact hlost
    | cons s own ih => exact ih _ (hlost.reachSlot hop.keeps)

/-- A slice whose event is missing is postponed without its metadata, and a slice that is delivered
at once replaces them. -/
theorem lost_addDependenceWithByteOffset (dest : EdtGuid) (hw : w.Settled) (hslot : w.HasSlot slot)
    (h : byteOffset ≠ 0 ∨ len ≠ 0) (hnot : ¬ w.Holds source self db) :
    Lost dest slot self w
      (w.addDependenceWithByteOffset dest slot source self db byteOffset len) := by
  obtain ⟨hoo, heo, hp⟩ := hw
  unfold Registration.addDependenceWithByteOffset
  split
  · next hnone =>
    have htame : w.Tame NoSlice := ⟨by simp [hoo], by simp [hp], by simp [heo], by simp [hp]⟩
    refine ⟨⟨hslot.postpone, htame.postpone ⟨rfl, rfl⟩, .inr pends_postpone⟩, ?_, ?_, ?_⟩
    · unfold postpone
      split
      · exact ⟨fun _ => hoo, fun _ => heo⟩
      · next hself =>
        have he : w.event = none := by
          simpa [lookupEvent, not_not.1 hself] using hnone
        exact ⟨fun _ => hoo, fun hne => absurd he hne⟩
    · exact fun _ => ⟨pends_postpone, depv_postpone⟩
    · intro _
      unfold postpone
      split <;> rfl
  · next e he =>
    refine lost_registerVersion ⟨hoo, heo, hp⟩ hslot h ?_
    by_contra hdue
    exact hnot ⟨e, he, hdue⟩

/-- What is queued or in flight before. -/
def prepend (ops : List SlotOp) (ps : List SlotPacket) (w : Registration) : Registration :=
  { w with depvOo := ops ++ w.depvOo, packets := ps ++ w.packets }

lemma reachSlot_prepend (ops : List SlotOp) (ps : List SlotPacket) (op : SlotOp) :
    (w.prepend ops ps).reachSlot dest slot self op =
      (w.reachSlot dest slot self op).prepend ops ps := by
  unfold Registration.reachSlot
  split
  · simp only [prepend]
    split <;> simp_all
  · simp [prepend]

lemma addDependenceWithByteOffset_prepend (ops : List SlotOp) (ps : List SlotPacket) :
    (w.prepend ops ps).addDependenceWithByteOffset dest slot source self db byteOffset len =
      (w.addDependenceWithByteOffset dest slot source self db byteOffset len).prepend ops ps := by
  unfold Registration.addDependenceWithByteOffset
  have he : (w.prepend ops ps).lookupEvent source self = w.lookupEvent source self := rfl
  rw [he]
  split
  · unfold postpone
    split <;> simp [prepend]
  · unfold registerVersion
    simp only
    generalize filter _ _ = own
    generalize hv : ({ w with event := some _ } : Registration) = v
    have hv' : ({ w.prepend ops ps with event := v.event } : Registration) = v.prepend ops ps := by
      rw [← hv]
      rfl
    rw [← hv] at hv'
    rw [hv', hv]
    clear hv hv'
    induction own generalizing v with
    | nil => rfl
    | cons s own ih =>
      rw [foldl_cons, foldl_cons, reachSlot_prepend]
      exact ih _

lemma tends_of_holds {m : DepMeta} (hslot : w.HasSlot slot) (htame : w.Tame (· = m))
    (h : byteOffset ≠ 0 ∨ len ≠ 0) (hh : w.Holds source self db) :
    ((w.reachSlot dest slot self (.setMetadata m)).addDependenceWithByteOffset dest slot source
      self db byteOffset len).Tends slot (· = m) := by
  obtain ⟨e, he, hnot⟩ := hh
  have hsets : (SlotOp.setMetadata m).Sets (· = m) := SlotOp.sets_setMetadata rfl
  have hev : (w.reachSlot dest slot self (.setMetadata m)).lookupEvent source self = some e := by
    rwa [lookupEvent, event_reachSlot]
  have hown := (own_eq_nil_iff dest slot e.channel h).2 hnot
  simp only [Registration.addDependenceWithByteOffset, hev, Registration.registerVersion, hown]
  exact Tends.setEvent
    ⟨hslot.reachSlot, htame.reachSlot hsets.keeps, .reachSlot_of_sets hslot hsets⟩ _

lemma exists_tends (dest : EdtGuid) {m : DepMeta} (hw : w.Settled) (hslot : w.HasSlot slot)
    (h : byteOffset ≠ 0 ∨ len ≠ 0) (hnot : ¬ w.Holds source self db) :
    ∃ w', (machine dest slot source).Leads
        ((w.reachSlot dest slot self (.setMetadata m)).addDependenceWithByteOffset dest slot source
          self db byteOffset len) w' ∧ w'.Orderly ∧ w'.Tends slot NoSlice := by
  have hlost := lost_addDependenceWithByteOffset dest hw hslot h hnot
  obtain ⟨hoo, heo, hp⟩ := hw
  by_cases hself : dest.guid.getRank = self
  · cases hd : w.depv with
    | some depv =>
      -- the metadata are written at once
      let w₁ : Registration :=
        { w with depv := some (depv.modify slot.toNat (SlotOp.setMetadata m).apply) }
      have hw₁ : w.reachSlot dest slot self (.setMetadata m) = w₁ := by
        simp [Registration.reachSlot, hself, hd, w₁]
      have hslot₁ : w₁.HasSlot slot := by
        rintro _ ⟨⟩
        rw [length_modify]
        exact hslot depv hd
      rw [hw₁]
      have hlost₁ := lost_addDependenceWithByteOffset dest (w := w₁) ⟨hoo, heo, hp⟩ hslot₁ h
        (show ¬ w₁.Holds source self db from hnot)
      exact ⟨_, .refl _, hlost₁.orderly, hlost₁.tends⟩
    | none =>
      -- they are the first ones that are replayed when the EDT is created
      have hw₁ : w.reachSlot dest slot self (.setMetadata m) = w.prepend [.setMetadata m] [] := by
        simp [Registration.reachSlot, hself, hd, prepend, hoo]
      rw [hw₁, addDependenceWithByteOffset_prepend]
      obtain ⟨-, hdv⟩ := hlost.far fun _ => hd
      generalize w.addDependenceWithByteOffset dest slot source self db byteOffset len = v at *
      rw [hd] at hdv
      let depv : List DepMeta := replicate (slot.toNat + 1) m
      have hlt : slot.toNat < depv.length := by simp [depv]
      have hstep : (machine dest slot source).next (v.prepend [.setMetadata m] [])
          (.createEdt depv) = some { v with
            depv := some (v.depvOo.foldl (fun depv op => depv.modify slot.toNat op.apply)
              (depv.modify slot.toNat (SlotOp.setMetadata m).apply))
            depvOo := [] } := by
        simp [machine, next, prepend, hdv, hlt]
      exact ⟨_, .of_next hstep, ⟨fun _ => rfl, hlost.orderly.eventOo⟩,
        hlost.tends.createEdt hdv (by rwa [length_modify])⟩
  · have hw₁ : w.reachSlot dest slot self (.setMetadata m) =
        w.prepend [] [.slot (.setMetadata m)] := by
      simp [Registration.reachSlot, hself, prepend, hp]
    rw [hw₁, addDependenceWithByteOffset_prepend]
    obtain ⟨hpends, hdv⟩ := hlost.far fun heq => absurd heq hself
    generalize w.addDependenceWithByteOffset dest slot source self db byteOffset len = v at *
    have hdoo : v.depvOo = [] := (hlost.remote hself).trans hoo
    have hedt : ∃ depv, slot.toNat < depv.length ∧ (machine dest slot source).Leads
        (v.prepend [] [.slot (.setMetadata m)])
        ({ v with depv := some depv }.prepend [] [.slot (.setMetadata m)]) := by
      cases hd : v.depv with
      | some depv =>
        refine ⟨depv, hlost.tends.hasSlot depv hd, ?_⟩
        rw [← hd]
        exact .refl _
      | none =>
        refine ⟨replicate (slot.toNat + 1) m, by simp,
          .of_next (l := .createEdt (replicate (slot.toNat + 1) m)) ?_⟩
        simp [machine, next, prepend, hd, hdoo]
    obtain ⟨depv, hlt, hl⟩ := hedt
    have hstep : (machine dest slot source).next
        ({ v with depv := some depv }.prepend [] [.slot (.setMetadata m)])
        (.deliver 0 fun _ => false) =
        some { v with depv := some (depv.modify slot.toNat (SlotOp.setMetadata m).apply) } := by
      simp [machine, next, prepend, Registration.reachSlot]
    refine ⟨_, hl.trans (.of_next hstep), ⟨fun _ => hdoo, hlost.orderly.eventOo⟩, ?_, ?_, ?_⟩
    · rintro _ ⟨⟩
      rwa [length_modify]
    · exact ⟨hlost.tends.tame.depvOo, hlost.tends.tame.slot, hlost.tends.tame.eventOo,
        hlost.tends.tame.waiter⟩
    · exact .inr hpends

end Slice

/-- **The metadata survive if and only if** no slice is selected, or the event is already on the
rank of the caller and does not deliver the slice while it is registered. -/
theorem metadata_survives (dest : EdtGuid) (slot : UInt32) (source : Guid) (self : UInt64)
    (db : Guid → Bool) (c : DependenceCall) (w₀ : Registration) (hw : w₀.Settled)
    (hslot : w₀.HasSlot slot) :
    (∀ w, (machine dest slot source).Leads (w₀.addDependenceAtEx dest slot source self db c) w →
        w.Settled → w.slotMeta slot = some c.metadata) ↔
      (c.byteOffset = 0 ∧ c.len = 0) ∨ w₀.Holds source self db := by
  have htame : ∀ Q, w₀.Tame Q := fun Q =>
    ⟨by simp [hw.1], by simp [hw.2.2], by simp [hw.2.1], by simp [hw.2.2]⟩
  constructor
  · intro hall
    by_contra hno
    push Not at hno
    obtain ⟨hslice, hnot⟩ := hno
    have h : c.byteOffset ≠ 0 ∨ c.len ≠ 0 := by
      by_cases h0 : c.byteOffset = 0
      · exact .inr (hslice h0)
      · exact .inl h0
    obtain ⟨w₁, hl₁, horderly, htends⟩ :=
      exists_tends dest hw hslot h hnot
    obtain ⟨w, hl, hs⟩ := horderly.leads dest slot source
    have hcall : w₀.addDependenceAtEx dest slot source self db c =
        (w₀.reachSlot dest slot self (.setMetadata c.metadata)).addDependenceWithByteOffset
          dest slot source self db c.byteOffset c.len := by
      rw [Registration.addDependenceAtEx, if_neg fun hz => hslice hz.1 hz.2]
    have htends' : w.Tends slot NoSlice :=
      hl.invariant htends fun _ _ _ ht hst => ht.next hst
    obtain ⟨m, hm, hno⟩ := htends'.of_settled hs
    rw [hall w (by rw [hcall]; exact hl₁.trans hl) hs] at hm
    cases hm
    exact hslice hno.1 hno.2
  · intro hcond w hl hs
    have htends : (w₀.addDependenceAtEx dest slot source self db c).Tends slot
        (· = c.metadata) := by
      unfold Registration.addDependenceAtEx
      split
      · next hz =>
        exact .addDependenceEx hslot (htame _) (by simp [DependenceCall.metadata, hz.1, hz.2])
      · next hz =>
        exact tends_of_holds hslot (htame _) (by tauto) (hcond.resolve_left hz)
    have htends' : w.Tends slot (· = c.metadata) :=
      hl.invariant htends
        fun _ _ _ ht hst => ht.next hst
    obtain ⟨m, hm, rfl⟩ := htends'.of_settled hs
    exact hm

/-- A whole block from an event on rank 1, for an EDT on rank 0 that does not exist yet. -/
theorem metadata_survives_whole :
    (⟨none, [], none, [], []⟩ : Registration).Settled ∧
      ∀ w, (machine ⟨make 1 0 7, by decide⟩ 0 (make 2 1 9)).Leads
          (addDependenceAtEx ⟨make 1 0 7, by decide⟩ 0 (make 2 1 9) 0 (fun _ => false)
            ⟨none, [], none, [], []⟩ ⟨.ro, 3, 0, 0⟩) w →
        w.Settled → w.slotMeta 0 = some ⟨.ro, 3, 0, 0⟩ :=
  ⟨by decide, (metadata_survives ⟨make 1 0 7, by decide⟩ 0 (make 2 1 9) 0
    (fun _ => false) ⟨.ro, 3, 0, 0⟩ ⟨none, [], none, [], []⟩ (by decide) nofun).2
    (.inl ⟨rfl, rfl⟩)⟩

/-- The event does not exist yet: the replay writes `DB_MODE_NULL`, no flags and no slice. -/
theorem slice_lost_in_replay :
    ¬ ∀ w, (machine ⟨make 1 0 7, by decide⟩ 0 (make 2 0 9)).Leads
        (addDependenceAtEx ⟨make 1 0 7, by decide⟩ 0 (make 2 0 9) 0 (fun _ => false)
          ⟨some [⟨.null, 0, 0, 0⟩], [], none, [], []⟩ ⟨.ro, 3, 8, 16⟩) w →
      w.Settled → w.slotMeta 0 = some ⟨.ro, 3, 8, 16⟩ := by
  intro h
  obtain ⟨w, hl, hs, hm⟩ := Machine.Leads.exists_of_exec
    (M := machine ⟨make 1 0 7, by decide⟩ 0 (make 2 0 9))
    (P := fun w => w.Settled ∧ w.slotMeta 0 = some ⟨.null, 0, 0, 0⟩)
    (s := addDependenceAtEx ⟨make 1 0 7, by decide⟩ 0 (make 2 0 9) 0 (fun _ => false)
      ⟨some [⟨.null, 0, 0, 0⟩], [], none, [], []⟩ ⟨.ro, 3, 8, 16⟩)
    (r := [.createEvent ⟨.sticky, false, 1, null, []⟩ fun _ => false]) (by decide +kernel)
  rw [h w hl hs] at hm
  exact absurd hm (by decide)

end Registration

end Arts
