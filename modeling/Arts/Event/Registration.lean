import Arts.Event.Versions
import Arts.Machine.Calls

/-!
# Registering a dependence

The metadata of a slot are written and a waiter is registered, each at once, from a queue or by a
message. `Tends Q`: whatever happens next, the metadata end in `Q`.
-/

namespace Arts

open List

/-- The metadata of a slot, fields of `arts_edt_dep_t`. -/
structure DepMeta where
  mode : AccessMode
  flags : UInt32
  sliceOffset : UInt64
  sliceSize : UInt64
  deriving DecidableEq, Repr

inductive SlotOp where
  /-- `arts_set_dep_metadata_ext`. -/
  | setMetadata (m : DepMeta)
  /-- `internal_signal_edt_ex`. -/
  | signal (mode : AccessMode) (flags : UInt32)
  deriving DecidableEq, Repr

def SlotOp.apply : SlotOp → DepMeta → DepMeta
  | .setMetadata m, _ => m
  | .signal mode flags, m =>
    let m := if mode ≠ .null then { m with mode := mode, sliceOffset := 0, sliceSize := 0 } else m
    if flags ≠ 0 then { m with flags := flags } else m

namespace SlotOp

variable {Q : DepMeta → Prop}

/-- The operation does not lead out of `Q`. -/
def Keeps (Q : DepMeta → Prop) (op : SlotOp) : Prop := ∀ m, Q m → Q (op.apply m)

/-- The operation leads into `Q`. -/
def Sets (Q : DepMeta → Prop) (op : SlotOp) : Prop := ∀ m, Q (op.apply m)

lemma Sets.keeps {op : SlotOp} (h : op.Sets Q) : op.Keeps Q := fun m _ => h m

lemma sets_setMetadata {m : DepMeta} (h : Q m) : (setMetadata m).Sets Q := fun _ => h

/-- A signal with the mode `DB_MODE_NULL` and without flags leaves the metadata alone. -/
theorem keeps_signal_null : (signal .null 0).Keeps Q := fun _ h => h

end SlotOp

/-- The source of a dependence, as far as a registration uses it. -/
structure Source where
  type : EventType
  /-- A plain event has fired, so that a new dependent signals itself. -/
  fired : Bool
  channel : Channel
  deriving DecidableEq, Repr

inductive SlotPacket where
  /-- `ARTS_REMOTE_SET_DEP_MODE_MSG` or a signal, to the rank of the EDT. -/
  | slot (op : SlotOp)
  /-- `ARTS_REMOTE_ADD_DEPENDENCE_MSG`, to the rank of the event. -/
  | addDependence (mode : AccessMode) (flags : UInt32)
  deriving DecidableEq, Repr

def SlotPacket.isWaiter : SlotPacket → Bool
  | .slot _ => false
  | .addDependence _ _ => true

/-- The dependence of one slot on one event. -/
structure Registration where
  /-- The metadata of the slots of the EDT; `none` until the EDT is created. -/
  depv : Option (List DepMeta)
  depvOo : List SlotOp
  /-- The event; `none` until it is created. -/
  event : Option Source
  /-- The registrations that are queued on the GUID of the event. -/
  eventOo : List (AccessMode × UInt32)
  packets : List SlotPacket
  deriving DecidableEq, Repr

/-- A call of `arts_add_dependence_at_ex`. Without an offset and a length it is
`arts_add_dependence_ex`. -/
structure DependenceCall where
  accessMode : AccessMode
  flags : UInt32
  byteOffset : UInt64
  len : UInt64
  deriving DecidableEq, Repr

/-- The metadata that the caller passes. -/
def DependenceCall.metadata (c : DependenceCall) : DepMeta :=
  ⟨c.accessMode, c.flags, c.byteOffset, c.len⟩

inductive RegistrationAct where
  /-- The `i`-th message is handled. -/
  | deliver (i : ℕ) (db : Guid → Bool)
  /-- The EDT is created with these slots, and what is queued on it is replayed. -/
  | createEdt (depv : List DepMeta)
  /-- The event is created, and what is queued on it is replayed. -/
  | createEvent (e : Source) (db : Guid → Bool)

namespace Registration

variable (dest : EdtGuid) (slot : UInt32) (source : Guid)

/-- `arts_set_dep_metadata_ext` and `internal_signal_edt_ex` on the rank `self`. -/
def reachSlot (self : UInt64) (w : Registration) (op : SlotOp) : Registration :=
  if dest.guid.getRank = self then
    match w.depv with
    | some depv => { w with depv := some (depv.modify slot.toNat op.apply) }
    | none => { w with depvOo := w.depvOo ++ [op] }
  else { w with packets := w.packets ++ [.slot op] }

/-- The event, if the route table of the rank `self` has it. -/
def lookupEvent (self : UInt64) (w : Registration) : Option Source :=
  if source.getRank = self then w.event else none

/-- `arts_remote_add_dependence` or `arts_out_of_order_add_dependence`. -/
def postpone (self : UInt64) (w : Registration) (mode : AccessMode) (flags : UInt32) :
    Registration :=
  if source.getRank ≠ self then { w with packets := w.packets ++ [.addDependence mode flags] }
  else { w with eventOo := w.eventOo ++ [(mode, flags)] }

/-- What a signal of the event does to the slot: a slice is passed by pointer, and the whole block
with the mode `DB_MODE_NULL`. -/
def signalOp (byteOffset len : UInt64) : SlotOp :=
  if byteOffset ≠ 0 ∨ len ≠ 0 then .signal .ptr 0 else .signal .null 0

/-- The waiter is registered in the versions of the event; the signals for it reach the slot. -/
def registerVersion (self : UInt64) (db : Guid → Bool) (w : Registration) (e : Source)
    (byteOffset len : UInt64) : Registration :=
  let (c, signals) := e.channel.addDependenceWithByteOffset db dest.guid slot byteOffset len
  let own := signals.filter fun s => s.1 = Channel.dependentOf dest.guid slot byteOffset len
  own.foldl (fun w _ => w.reachSlot dest slot self (signalOp byteOffset len))
    { w with event := some { e with channel := c } }

/-- `arts_add_dependence_ex` on the rank `self`, for an event as source. A whole block is
registered in a channel as a slice without an offset and a length. -/
def addDependenceEx (self : UInt64) (db : Guid → Bool) (w : Registration) (mode : AccessMode)
    (flags : UInt32) : Registration :=
  let w := w.reachSlot dest slot self (.setMetadata ⟨mode, flags, 0, 0⟩)
  match w.lookupEvent source self with
  | none => w.postpone source self mode flags
  | some e =>
    if e.type = .channel then w.registerVersion dest slot self db e 0 0
    else if e.fired then w.reachSlot dest slot self (.signal .null 0)
    else w

/-- `arts_event_add_dependence_with_byte_offset` on the rank `self`, with `DB_MODE_NULL`. -/
def addDependenceWithByteOffset (self : UInt64) (db : Guid → Bool) (w : Registration)
    (byteOffset len : UInt64) : Registration :=
  match w.lookupEvent source self with
  | none => w.postpone source self .null 0
  | some e => w.registerVersion dest slot self db e byteOffset len

/-- `arts_add_dependence_at_ex` on the rank `self`, for an event as source. -/
def addDependenceAtEx (self : UInt64) (db : Guid → Bool) (w : Registration) (c : DependenceCall) :
    Registration :=
  if c.byteOffset = 0 ∧ c.len = 0 then
    w.addDependenceEx dest slot source self db c.accessMode c.flags
  else
    (w.reachSlot dest slot self (.setMetadata c.metadata)).addDependenceWithByteOffset
      dest slot source self db c.byteOffset c.len

/-- One step after the call. -/
def next (w : Registration) : RegistrationAct → Option Registration
  | .deliver i db =>
    match w.packets[i]? with
    | none => none
    | some (.slot op) =>
      some ({ w with packets := w.packets.eraseIdx i }.reachSlot dest slot dest.guid.getRank op)
    | some (.addDependence mode flags) =>
      some ({ w with packets := w.packets.eraseIdx i }.addDependenceEx dest slot source
        source.getRank db mode flags)
  | .createEdt depv =>
    if w.depv = none ∧ slot.toNat < depv.length then
      some { w with
        depv := some (w.depvOo.foldl (fun depv op => depv.modify slot.toNat op.apply) depv)
        depvOo := [] }
    else none
  | .createEvent e db =>
    if w.event = none then
      some (w.eventOo.foldl
        (fun w x => w.addDependenceEx dest slot source source.getRank db x.1 x.2)
        { w with event := some e, eventOo := [] })
    else none

def Settled (w : Registration) : Prop := w.depvOo = [] ∧ w.eventOo = [] ∧ w.packets = []

instance : DecidablePred Settled := fun w => by unfold Settled; infer_instance

/-- What happens to a registration, before and after the call. -/
def machine : Machine Registration RegistrationAct where
  init := Settled
  next := next dest slot source

/-- The metadata that are stored in the slot. -/
def slotMeta (w : Registration) : Option DepMeta := w.depv.bind (·[slot.toNat]?)

variable {dest slot source}

/-! ### What the pending operations lead to -/

def HasSlot (slot : UInt32) (w : Registration) : Prop :=
  ∀ depv, w.depv = some depv → slot.toNat < depv.length

/-- Nothing that is pending leads out of `Q`. -/
structure Tame (Q : DepMeta → Prop) (w : Registration) : Prop where
  depvOo : ∀ op ∈ w.depvOo, op.Keeps Q
  slot : ∀ op, SlotPacket.slot op ∈ w.packets → op.Keeps Q
  eventOo : ∀ x ∈ w.eventOo, Q ⟨x.1, x.2, 0, 0⟩
  waiter : ∀ m f, SlotPacket.addDependence m f ∈ w.packets → Q ⟨m, f, 0, 0⟩

/-- Something is pending that leads into `Q`. -/
def Pends (Q : DepMeta → Prop) (w : Registration) : Prop :=
  (∃ op ∈ w.depvOo, op.Sets Q) ∨ (∃ op, SlotPacket.slot op ∈ w.packets ∧ op.Sets Q) ∨
    w.eventOo ≠ [] ∨ ∃ m f, SlotPacket.addDependence m f ∈ w.packets

/-- The slot is in `Q`, or something is pending that leads into `Q`. -/
def Bound (slot : UInt32) (Q : DepMeta → Prop) (w : Registration) : Prop :=
  (∃ m, w.slotMeta slot = some m ∧ Q m) ∨ w.Pends Q

/-- The registration leads into `Q`. -/
structure Tends (slot : UInt32) (Q : DepMeta → Prop) (w : Registration) : Prop where
  hasSlot : w.HasSlot slot
  tame : w.Tame Q
  bound : w.Bound slot Q

section Tends

variable {Q : DepMeta → Prop} {self : UInt64} {db : Guid → Bool} {w w' : Registration}
  {op : SlotOp} {mode : AccessMode} {flags : UInt32}

lemma Tends.of_settled (h : w.Tends slot Q) (hs : w.Settled) :
    ∃ m, w.slotMeta slot = some m ∧ Q m := by
  obtain ⟨hoo, heo, hp⟩ := hs
  rcases h.bound with hm | ⟨op, hop, -⟩ | ⟨op, hop, -⟩ | hne | ⟨m, f, hmf⟩
  · exact hm
  · simp [hoo] at hop
  · simp [hp] at hop
  · exact absurd heo hne
  · simp [hp] at hmf

lemma slotMeta_modify {depv : List DepMeta} :
    ({ w with depv := some (depv.modify slot.toNat op.apply) } : Registration).slotMeta slot =
      depv[slot.toNat]?.map op.apply := by
  simp [slotMeta]

lemma HasSlot.reachSlot (h : w.HasSlot slot) : (w.reachSlot dest slot self op).HasSlot slot := by
  unfold Registration.reachSlot
  split
  · split
    · next depv hd =>
      rintro _ ⟨⟩
      rw [length_modify]
      exact h depv hd
    · exact h
  · exact h

lemma Tame.reachSlot (h : w.Tame Q) (hop : op.Keeps Q) :
    (w.reachSlot dest slot self op).Tame Q := by
  unfold Registration.reachSlot
  split
  · split
    · exact { h with }
    · exact { h with depvOo := forall_mem_append_singleton h.depvOo hop }
  · refine ⟨h.depvOo, ?_, h.eventOo, ?_⟩
    · intro op' hop'
      rcases mem_append.1 hop' with hop' | hop'
      · exact h.slot op' hop'
      · cases mem_singleton.1 hop'
        exact hop
    · intro m f hmf
      rcases mem_append.1 hmf with hmf | hmf
      · exact h.waiter m f hmf
      · cases mem_singleton.1 hmf

lemma Pends.reachSlot (h : w.Pends Q) : (w.reachSlot dest slot self op).Pends Q := by
  unfold Registration.reachSlot
  split
  · split
    · exact h
    · rcases h with ⟨op', hop', hs⟩ | h
      · exact .inl ⟨op', mem_append_left _ hop', hs⟩
      · exact .inr h
  · rcases h with h | ⟨op', hop', hs⟩ | h | ⟨m, f, hmf⟩
    · exact .inl h
    · exact .inr (.inl ⟨op', mem_append_left _ hop', hs⟩)
    · exact .inr (.inr (.inl h))
    · exact .inr (.inr (.inr ⟨m, f, mem_append_left _ hmf⟩))

lemma Pends.reachSlot_of_sets (hfar : dest.guid.getRank = self → w.depv = none)
    (hop : op.Sets Q) : (w.reachSlot dest slot self op).Pends Q := by
  unfold Registration.reachSlot
  split
  · next hself =>
    rw [hfar hself]
    exact .inl ⟨op, by simp, hop⟩
  · exact .inr (.inl ⟨op, by simp, hop⟩)

lemma Bound.reachSlot_of_sets (h : w.HasSlot slot) (hop : op.Sets Q) :
    (w.reachSlot dest slot self op).Bound slot Q := by
  by_cases hfar : dest.guid.getRank = self → w.depv = none
  · exact .inr (.reachSlot_of_sets hfar hop)
  · push Not at hfar
    obtain ⟨depv, hd⟩ := Option.ne_none_iff_exists'.1 hfar.2
    simp only [Registration.reachSlot, hfar.1, if_true, hd]
    refine .inl ⟨op.apply (depv.get ⟨slot.toNat, h depv hd⟩), ?_, hop _⟩
    rw [slotMeta_modify, getElem?_eq_getElem (h depv hd)]
    rfl

lemma Bound.reachSlot (h : w.Bound slot Q) (hop : op.Keeps Q) :
    (w.reachSlot dest slot self op).Bound slot Q := by
  rcases h with ⟨m, hm, hQ⟩ | h
  · left
    unfold Registration.reachSlot
    split
    · split
      · next depv hd =>
        refine ⟨op.apply m, ?_, hop m hQ⟩
        rw [slotMeta_modify]
        simp only [slotMeta, hd, Option.bind_some] at hm
        rw [hm]
        rfl
      · exact ⟨m, hm, hQ⟩
    · exact ⟨m, hm, hQ⟩
  · exact .inr h.reachSlot

lemma Tends.reachSlot (h : w.Tends slot Q) (hop : op.Keeps Q) :
    (w.reachSlot dest slot self op).Tends slot Q :=
  ⟨h.hasSlot.reachSlot, h.tame.reachSlot hop, h.bound.reachSlot hop⟩

lemma Tame.postpone (h : w.Tame Q) (hQ : Q ⟨mode, flags, 0, 0⟩) :
    (w.postpone source self mode flags).Tame Q := by
  unfold Registration.postpone
  split
  · refine ⟨h.depvOo, ?_, h.eventOo, ?_⟩
    · intro op hop
      rcases mem_append.1 hop with hop | hop
      · exact h.slot op hop
      · cases mem_singleton.1 hop
    · intro m f hmf
      rcases mem_append.1 hmf with hmf | hmf
      · exact h.waiter m f hmf
      · cases mem_singleton.1 hmf
        exact hQ
  · exact { h with eventOo := forall_mem_append_singleton h.eventOo hQ }

lemma pends_postpone : (w.postpone source self mode flags).Pends Q := by
  unfold Registration.postpone
  split
  · exact .inr (.inr (.inr ⟨mode, flags, by simp⟩))
  · exact .inr (.inr (.inl (by simp)))

@[simp] lemma depv_postpone : (w.postpone source self mode flags).depv = w.depv := by
  unfold Registration.postpone
  split <;> rfl

lemma HasSlot.postpone (h : w.HasSlot slot) :
    (w.postpone source self mode flags).HasSlot slot := by
  intro depv hd
  rw [depv_postpone] at hd
  exact h depv hd

lemma Tends.setEvent (h : w.Tends slot Q) (e : Option Source) :
    ({ w with event := e } : Registration).Tends slot Q :=
  ⟨h.hasSlot, ⟨h.tame.depvOo, h.tame.slot, h.tame.eventOo, h.tame.waiter⟩, h.bound⟩

lemma Tends.foldl_reachSlot {α : Type*} {xs : List α} (h : w.Tends slot Q) (hop : op.Keeps Q) :
    (xs.foldl (fun (w : Registration) _ => w.reachSlot dest slot self op) w).Tends slot Q := by
  induction xs generalizing w with
  | nil => exact h
  | cons x xs ih => exact ih (h.reachSlot hop)

lemma Tends.registerVersion {e : Source} {byteOffset len : UInt64} (h : w.Tends slot Q)
    (hop : (signalOp byteOffset len).Keeps Q) :
    (w.registerVersion dest slot self db e byteOffset len).Tends slot Q := by
  exact (h.setEvent _).foldl_reachSlot hop

/-- `arts_add_dependence_ex` writes its own metadata, and nothing that it leaves behind writes
others. -/
theorem Tends.addDependenceEx (hs : w.HasSlot slot) (ht : w.Tame Q) (hQ : Q ⟨mode, flags, 0, 0⟩) :
    (w.addDependenceEx dest slot source self db mode flags).Tends slot Q := by
  have hsets : (SlotOp.setMetadata ⟨mode, flags, 0, 0⟩).Sets Q := SlotOp.sets_setMetadata hQ
  have h : (w.reachSlot dest slot self (.setMetadata ⟨mode, flags, 0, 0⟩)).Tends slot Q :=
    ⟨hs.reachSlot, ht.reachSlot hsets.keeps, .reachSlot_of_sets hs hsets⟩
  unfold Registration.addDependenceEx
  simp only
  split
  · exact ⟨h.hasSlot.postpone, h.tame.postpone hQ, .inr pends_postpone⟩
  · split
    · exact h.registerVersion SlotOp.keeps_signal_null
    · split
      · exact h.reachSlot SlotOp.keeps_signal_null
      · exact h

lemma Tame.eraseIdx (h : w.Tame Q) (i : ℕ) :
    ({ w with packets := w.packets.eraseIdx i } : Registration).Tame Q :=
  ⟨h.depvOo, fun op hop => h.slot op (mem_of_mem_eraseIdx hop), h.eventOo,
    fun m f hmf => h.waiter m f (mem_of_mem_eraseIdx hmf)⟩

lemma Tends.deliver_slot {i : ℕ} (h : w.Tends slot Q) (hi : w.packets[i]? = some (.slot op)) :
    ({ w with packets := w.packets.eraseIdx i }.reachSlot dest slot self op).Tends slot Q := by
  have hop : op.Keeps Q := h.tame.slot op (mem_of_getElem? hi)
  refine ⟨HasSlot.reachSlot h.hasSlot, (h.tame.eraseIdx i).reachSlot hop, ?_⟩
  rcases h.bound with hm | hoo | ⟨op', hop', hs⟩ | heo | ⟨m, f, hmf⟩
  · exact Bound.reachSlot (.inl hm) hop
  · exact Bound.reachSlot (.inr (.inl hoo)) hop
  · rcases eq_or_mem_eraseIdx hi hop' with heq | hmem
    · cases heq
      exact .reachSlot_of_sets h.hasSlot hs
    · exact Bound.reachSlot (.inr (.inr (.inl ⟨op', hmem, hs⟩))) hop
  · exact Bound.reachSlot (.inr (.inr (.inr (.inl heo)))) hop
  · rcases eq_or_mem_eraseIdx hi hmf with heq | hmem
    · cases heq
    · exact Bound.reachSlot (.inr (.inr (.inr (.inr ⟨m, f, hmem⟩)))) hop

lemma foldl_apply {ops : List SlotOp} {depv : List DepMeta} (hlt : slot.toNat < depv.length)
    (hops : ∀ op ∈ ops, op.Keeps Q) :
    slot.toNat < (ops.foldl (fun depv op => depv.modify slot.toNat op.apply) depv).length ∧
      ((∃ m, depv[slot.toNat]? = some m ∧ Q m) ∨ (∃ op ∈ ops, op.Sets Q) →
        ∃ m, (ops.foldl (fun depv op => depv.modify slot.toNat op.apply) depv)[slot.toNat]? =
          some m ∧ Q m) := by
  induction ops generalizing depv with
  | nil => exact ⟨hlt, fun h => h.elim id fun ⟨op, hop, _⟩ => by cases hop⟩
  | cons op ops ih =>
    have hop := hops op (mem_cons_self ..)
    have hmod : slot.toNat < (depv.modify slot.toNat op.apply).length := by
      rwa [length_modify]
    obtain ⟨hlt', himp⟩ := ih hmod fun op' hop' => hops op' (mem_cons_of_mem _ hop')
    refine ⟨hlt', fun h => himp ?_⟩
    have hget : (depv.modify slot.toNat op.apply)[slot.toNat]? =
        depv[slot.toNat]?.map op.apply := by simp
    rw [hget]
    rcases h with ⟨m, hm, hQ⟩ | ⟨op', hop', hs⟩
    · exact .inl ⟨op.apply m, by rw [hm]; rfl, hop m hQ⟩
    · rcases mem_cons.1 hop' with rfl | hop'
      · exact .inl ⟨op'.apply (depv.get ⟨slot.toNat, hlt⟩),
          by rw [getElem?_eq_getElem hlt]; rfl, hs _⟩
      · exact .inr ⟨op', hop', hs⟩

lemma Tends.createEdt {depv : List DepMeta} (h : w.Tends slot Q) (hnone : w.depv = none)
    (hlt : slot.toNat < depv.length) :
    ({ w with
      depv := some (w.depvOo.foldl (fun depv op => depv.modify slot.toNat op.apply) depv)
      depvOo := [] } : Registration).Tends slot Q := by
  obtain ⟨hlt', himp⟩ := foldl_apply hlt h.tame.depvOo
  refine ⟨?_, ⟨(fun _ hop => nomatch hop), h.tame.slot, h.tame.eventOo, h.tame.waiter⟩, ?_⟩
  · rintro _ ⟨⟩
    exact hlt'
  · rcases h.bound with ⟨m, hm, -⟩ | hoo | hb
    · simp [slotMeta, hnone] at hm
    · exact .inl (himp (.inr hoo))
    · exact .inr (.inr hb)

lemma Tends.foldl_addDependenceEx {xs : List (AccessMode × UInt32)} (h : w.Tends slot Q)
    (hxs : ∀ x ∈ xs, Q ⟨x.1, x.2, 0, 0⟩) :
    (xs.foldl (fun w x => w.addDependenceEx dest slot source self db x.1 x.2) w).Tends slot Q := by
  induction xs generalizing w with
  | nil => exact h
  | cons x xs ih =>
    exact ih (.addDependenceEx h.hasSlot h.tame (hxs x (mem_cons_self ..)))
      fun y hy => hxs y (mem_cons_of_mem _ hy)

lemma Tends.createEvent (h : w.Tends slot Q) (e : Source) :
    (w.eventOo.foldl (fun (w : Registration) x =>
        w.addDependenceEx dest slot source self db x.1 x.2)
      { w with event := some e, eventOo := [] }).Tends slot Q := by
  have htame : ({ w with event := some e, eventOo := [] } : Registration).Tame Q :=
    ⟨h.tame.depvOo, h.tame.slot, (fun _ hx => nomatch hx), h.tame.waiter⟩
  cases heo : w.eventOo with
  | nil =>
    -- nothing was queued: what was bound to happen still is
    refine ⟨h.hasSlot, htame, ?_⟩
    rcases h.bound with hb | hb | hb | hb | hb
    · exact .inl hb
    · exact .inr (.inl hb)
    · exact .inr (.inr (.inl hb))
    · exact absurd heo hb
    · exact .inr (.inr (.inr (.inr hb)))
  | cons x xs =>
    have hxs := h.tame.eventOo
    rw [heo] at hxs
    rw [foldl_cons]
    exact Tends.foldl_addDependenceEx
      (.addDependenceEx h.hasSlot htame
        (hxs x (mem_cons_self ..)))
      fun y hy => hxs y (mem_cons_of_mem _ hy)

/-- **Whatever a registration leads to, every step keeps leading there.** -/
theorem Tends.next {a : RegistrationAct} (h : w.Tends slot Q)
    (hnext : next dest slot source w a = some w') : w'.Tends slot Q := by
  cases a with
  | deliver i db =>
    simp only [Registration.next] at hnext
    split at hnext
    · cases hnext
    · next op hi =>
      cases hnext
      exact h.deliver_slot hi
    · next mode flags hi =>
      cases hnext
      exact .addDependenceEx h.hasSlot (h.tame.eraseIdx i)
        (h.tame.waiter mode flags (mem_of_getElem? hi))
  | createEdt depv =>
    simp only [Registration.next] at hnext
    split at hnext
    · next hc =>
      cases hnext
      exact h.createEdt hc.1 hc.2
    · cases hnext
  | createEvent e db =>
    simp only [Registration.next] at hnext
    split at hnext
    · cases hnext
      exact h.createEvent e
    · cases hnext

end Tends

end Registration

end Arts
