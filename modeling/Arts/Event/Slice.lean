import Arts.Event.Step
import Arts.Event.Versions

/-!
# Slices of the data of an event

Only channel events look at the list with the slices; there a slice is signalled when its version
fires with a data block that is found (`slices_signalled`).
-/

namespace Arts

open List Option Guid Version

/-- The dependent that `arts_add_dependence` would have registered. -/
def Dependent.whole : Dependent → Dependent
  | .edt addr slot _ _ => .edt addr slot 0 0
  | d => d

/-- The signal to the dependent that `arts_add_dependence` would have registered. -/
def Signal.whole (x : Signal) : Signal := (x.1.whole, x.2)

/-- The same call with `arts_add_dependence` instead of `arts_add_dependence_at`. -/
def ChannelOp.whole : ChannelOp → ChannelOp
  | .addDependenceAt dest slot _ _ => .addDependence dest slot
  | op => op

/-- The same call with `arts_add_dependence` instead of `arts_add_dependence_at`. -/
def ChannelAct.whole (a : ChannelAct) : ChannelAct := { a with op := a.op.whole }

/-- Slices are not noticed by the calls. -/
def wholeMap : VersionMap where
  data := id
  version v := { v with dependents := v.dependents.map Dependent.whole }
  fresh _ _ := rfl
  number _ := rfl
  latch _ := rfl
  isEmpty _ := by simp

namespace Channel

variable {e : Channel} {db : Guid → Bool}

variable {data : Guid} {d : Dependent}

lemma signal_whole (h : (signal db data d).isSome) :
    signal db data d.whole = (signal db data d).map Signal.whole := by
  cases d with
  | edt addr slot byteOffset size =>
    simp only [signal] at h ⊢
    split_ifs at h ⊢ <;> simp_all [Signal.whole, Dependent.whole]
  | event addr slot => rfl
  | callback n => rfl

variable {ds : List Dependent}

lemma filterMap_signal_whole (h : ∀ d ∈ ds, (signal db data d).isSome) :
    (ds.map Dependent.whole).filterMap (signal db data) =
      (ds.filterMap (signal db data)).map Signal.whole := by
  rw [filterMap_map, map_filterMap]
  exact filterMap_congr fun d hd => signal_whole (h d hd)

lemma fireIfZero_whole {k : ℕ} (h : ∀ v, e.versions[k]? = some v → v.latchCount = 0 →
      ∀ d ∈ v.dependents, (signal db v.data d).isSome) :
    (e.map wholeMap).fireIfZero db k =
      ((e.fireIfZero db k).1.map wholeMap, (e.fireIfZero db k).2.map Signal.whole) := by
  simp only [fireIfZero, latch_map]
  split_ifs with hz
  · simp only [fireDependents, map_freeVersion, Prod.mk.injEq, true_and]
    simp only [map, getElem?_map]
    cases hv : e.versions[k]? with
    | none => rfl
    | some v =>
      rw [latch, hv] at hz
      exact filterMap_signal_whole (h v hv hz)
  · rfl

/-- The dependents that wait in the versions. -/
def waiting (e : Channel) : List Dependent := e.versions.flatMap dependents

/-- A version that is not the first one has something to wait for, and a first version that has
nothing to wait for is the only one and not in use. -/
structure Orderly (e : Channel) : Prop where
  tail : ∀ v ∈ e.versions.tail, v.latchCount ≠ 0
  front : ∀ v vs, e.versions = v :: vs → v.latchCount = 0 → v.dependents = [] ∧ vs = []

lemma Orderly.getVersions (h : e.Orderly) : e.getVersions.Orderly := by
  unfold Channel.getVersions
  cases hv : e.versions with
  | nil =>
    refine ⟨by simp [pushVersion, hv], fun v vs hvs _ => ?_⟩
    simp only [isEmpty_nil, if_true, pushVersion, hv, nil_append, cons.injEq] at hvs
    rw [← hvs.1, ← hvs.2]
    exact ⟨rfl, rfl⟩
  | cons v vs => simpa using h

lemma waiting_getVersions (e : Channel) : e.getVersions.waiting = e.waiting := by
  unfold Channel.getVersions waiting
  cases hv : e.versions with
  | nil => simp [pushVersion, hv]
  | cons v vs => simp [hv]

lemma map_fst_filterMap_signal
    (h : ∀ d ∈ ds, (signal db data d).isSome) : (ds.filterMap (signal db data)).map Prod.fst = ds := by
  induction ds with
  | nil => rfl
  | cons d ds ih =>
    obtain ⟨x, hx⟩ := isSome_iff_exists.1 (h d (mem_cons_self ..))
    rw [filterMap_cons_some hx, map_cons, fst_of_signal hx,
      ih fun d' hd' => h d' (mem_cons_of_mem _ hd')]

/-- What a call does to the dependents: those that it registers and those that waited are
signalled or wait. `y` is what the call does if all dependents wait for whole blocks. -/
structure Serves (e : Channel) (new : List Dependent) (x y : Channel × List Signal) : Prop where
  orderly : x.1.Orderly
  perm : (x.2.map Prod.fst ++ x.1.waiting).Perm (e.waiting ++ new)
  whole : y = (x.1.map wholeMap, x.2.map Signal.whole)

variable {v : Version} {vs : List Version} {f g : Version → Version} {new : List Dependent}

lemma Orderly.serves_modify_zero (h : e.Orderly) (hv : e.versions = v :: vs)
    (hg : ∀ u, wholeMap.version (f u) = g (wholeMap.version u))
    (hf : (f v).dependents = v.dependents ++ new)
    (hdue : (f v).latchCount = 0 → ∀ d ∈ (f v).dependents, (signal db (f v).data d).isSome) :
    Serves e new ((e.modify 0 f).fireIfZero db 0)
      (((e.map wholeMap).modify 0 g).fireIfZero db 0) := by
  have hmod := versions_modify_zero hv f
  have hwhole : ((e.map wholeMap).modify 0 g).fireIfZero db 0 =
      (((e.modify 0 f).fireIfZero db 0).1.map wholeMap,
        ((e.modify 0 f).fireIfZero db 0).2.map Signal.whole) := by
    rw [← map_modify wholeMap e 0 hg]
    refine fireIfZero_whole fun u hu hz => ?_
    rw [hmod] at hu
    cases hu
    exact hdue hz
  have hwait : e.waiting = v.dependents ++ vs.flatMap dependents := by
    simp [waiting, hv]
  have htail : ∀ w ∈ vs, w.latchCount ≠ 0 := by simpa [hv] using h.tail
  rw [hwhole, fireIfZero_modify_zero hv]
  split_ifs with hz
  · have hfree : (e.modify 0 f).freeVersion.versions = if vs = [] then
        [{ f v with latchCount := 0, dependents := [], data := e.data }] else vs := by
      cases vs with
      | nil | cons w ws =>
        rw [freeVersion, hmod]
        rfl
    refine ⟨⟨?_, ?_⟩, ?_, rfl⟩
    · rw [hfree]
      split_ifs
      · simp
      · exact fun w hw => htail w (mem_of_mem_tail hw)
    · intro w ws hws hw
      rw [hfree] at hws
      split_ifs at hws
      · cases hws
        exact ⟨rfl, rfl⟩
      · exact absurd hw (htail w (by simp [hws]))
    · rw [map_fst_filterMap_signal (hdue hz), hf, hwait, waiting, hfree]
      split_ifs with hnil
      · simp [hnil]
      · rw [append_assoc, append_assoc]
        exact List.Perm.append_left _ perm_append_comm
  · refine ⟨⟨?_, ?_⟩, ?_, rfl⟩
    · rw [hmod]
      exact htail
    · intro w ws hws hw
      rw [hmod] at hws
      cases hws
      exact absurd hw hz
    · rw [hwait, waiting, hmod, flatMap_cons, hf]
      simp only [map_nil, nil_append, append_assoc]
      exact List.Perm.append_left _ perm_append_comm

lemma Orderly.serves_pushVersion (h : e.Orderly) (hv : e.versions = v :: vs) (hne : v.latchCount ≠ 0)
    (hg : ∀ u, wholeMap.version (f u) = g (wholeMap.version u))
    (hf : ∀ n, (f ⟨n, 0, [], e.data⟩).latchCount ≠ 0)
    (hnew : ∀ n, (f ⟨n, 0, [], e.data⟩).dependents = new) :
    Serves e new ((e.pushVersion.modify e.versions.length f).fireIfZero db e.versions.length)
      (((e.pushVersion.map wholeMap).modify e.versions.length g).fireIfZero db
        e.versions.length) := by
  obtain ⟨n, hn⟩ := versions_modify_pushVersion e f
  rw [← map_modify wholeMap _ _ hg, fireIfZero_whole, fireIfZero_modify_pushVersion f hf]
  · refine ⟨⟨?_, ?_⟩, ?_, rfl⟩
    · rw [hn, hv]
      intro w hw
      rcases mem_append.1 hw with hw | hw
      · exact h.tail w (by rwa [hv])
      · rw [mem_singleton.1 hw]
        exact hf n
    · intro w ws hws hw
      rw [hn, hv] at hws
      cases hws
      exact absurd hw hne
    · simp [waiting, hn, hnew n]
  · intro u hu hz
    rw [hn, getElem?_concat_length] at hu
    cases hu
    exact absurd hz (hf n)

def due (e : Channel) : ChannelOp → Option (List Dependent × Guid)
  | .addDependence dest slot =>
    if e.Ready then some (e.frontDependents ++ [dependentOf dest slot 0 0], e.frontData) else none
  | .addDependenceAt dest slot byteOffset len =>
    if e.Ready then
      some (e.frontDependents ++ [dependentOf dest slot byteOffset len], e.frontData)
    else none
  | .addCallback _ => none
  | .satisfy slot data =>
    if slot = latchIncrSlot ∧ e.latch 0 = -1 then some (e.frontDependents, e.frontData)
    else if slot = latchDecrSlot ∧ e.latch 0 = 1 then
      some (e.frontDependents, if data = null then e.frontData else data)
    else none

/-- Every dependent of the version that a call completes can be signalled: an EDT needs data, and a
slice needs a data block that the route table has. -/
def Deliverable (e : Channel) (a : ChannelAct) : Prop :=
  ∀ x ∈ e.due a.op, ∀ d ∈ x.1, (signal a.db x.2 d).isSome

instance (e : Channel) (a : ChannelAct) : Decidable (e.Deliverable a) := by
  unfold Deliverable
  infer_instance

def registered : ChannelOp → List Dependent
  | .addDependence dest slot => [dependentOf dest slot 0 0]
  | .addDependenceAt dest slot byteOffset len => [dependentOf dest slot byteOffset len]
  | .addCallback n => [.callback n]
  | .satisfy _ _ => []

lemma whole_dependentOf (dest : Guid) (slot : UInt32) (byteOffset len : UInt64) :
    (dependentOf dest slot byteOffset len).whole = dependentOf dest slot 0 0 := by
  unfold dependentOf
  split_ifs <;> rfl

lemma registered_whole (op : ChannelOp) :
    registered op.whole = (registered op).map Dependent.whole := by
  cases op with
  | addDependence dest slot | addDependenceAt dest slot byteOffset len =>
    simp [ChannelOp.whole, registered, whole_dependentOf]
  | addCallback n => rfl
  | satisfy slot data => rfl

variable {x : Channel × List Signal}

lemma Serves.of_getVersions {y : Channel × List Signal}
    (h : Serves e.getVersions new x y) : Serves e new x y :=
  ⟨h.orderly, by rw [← waiting_getVersions e]; exact h.perm, h.whole⟩

lemma Orderly.serves_addDependent (h : e.Orderly)
    (hdue : e.Ready → ∀ d' ∈ e.frontDependents ++ [d], (signal db e.frontData d').isSome) :
    Serves e [d] (e.addDependent db d) ((e.map wholeMap).addDependent db d.whole) := by
  refine Serves.of_getVersions ?_
  have hreg : ∀ u, wholeMap.version (u.register d) = (wholeMap.version u).register d.whole := by
    simp [wholeMap, register]
  obtain ⟨v, vs, hv, -, hlatch, hdeps, hdata⟩ := exists_getVersions e
  have hfront := frontHasDependent_of_cons hv
  have ho := h.getVersions
  simp only [Ready] at hdue
  have hpos' : (e.getVersions.map wholeMap).latchCount = e.latchCount := e.latchCount_getVersions
  simp only [addDependent, latchCount_getVersions, ← map_getVersions, frontHasDependent_map,
    target_map, hpos']
  by_cases hpos : 0 < e.latchCount
  · by_cases hdep : v.dependents = []
    · have hno : e.getVersions.frontHasDependent = false := by simpa [hdep] using hfront
      simp only [hpos, if_true, hno, modify_modify]
      refine ho.serves_modify_zero hv (fun u => hreg u.incr) rfl fun hz => ?_
      have hready : e.latch 0 = -1 := by
        have hz : v.latchCount + 1 = 0 := hz
        grind
      simp only [hpos, ← hdeps, hready] at hdue
      simpa [register, incr, hdep, hdata] using hdue
    · have hyes : e.getVersions.frontHasDependent = true := hfront.2 hdep
      simp only [hpos, if_true, hyes, modify_modify]
      exact ho.serves_pushVersion hv (fun hz => hdep (ho.front v vs hv hz).1) (fun u => hreg u.incr)
        (fun _ => (by decide : (0 : UInt32) + 1 ≠ 0)) fun _ => rfl
  · simp only [hpos] at hdue ⊢
    refine ho.serves_modify_zero hv hreg rfl fun hz => ?_
    simpa [register, hdeps, hdata] using hdue (hlatch ▸ hz)

lemma Orderly.serves_modify_last {us : List Version} {w : Version} (h : e.Orderly) (hv : e.versions = us ++ [w]) (hus : us ≠ [])
    (hg : ∀ u, wholeMap.version (f u) = g (wholeMap.version u))
    (hlatch : (f w).latchCount = w.latchCount) (hf : (f w).dependents = w.dependents ++ new) :
    Serves e new ((e.modify us.length f).fireIfZero db us.length)
      (((e.map wholeMap).modify us.length g).fireIfZero db us.length) := by
  obtain ⟨v, us, rfl⟩ := exists_cons_of_ne_nil hus
  have hmod : (e.modify (v :: us).length f).versions = (v :: us) ++ [f w] := by
    rw [modify, hv]
    exact modify_append_length (v :: us) w f
  have htail : ∀ u ∈ us ++ [w], u.latchCount ≠ 0 := by simpa [hv] using h.tail
  have hw : (f w).latchCount ≠ 0 := hlatch ▸ htail w (by simp)
  have hlatch' : (e.modify (v :: us).length f).latch (v :: us).length ≠ 0 := by
    rwa [latch_of_append hmod]
  -- it has something to wait for, so nothing fires
  rw [← map_modify wholeMap _ _ hg, fireIfZero_of_ne db hlatch',
    fireIfZero_of_ne db (by rwa [latch_map])]
  refine ⟨⟨?_, ?_⟩, ?_, rfl⟩
  · rw [hmod]
    intro u hu
    rcases mem_append.1 hu with hu | hu
    · exact htail u (mem_append_left _ hu)
    · rwa [mem_singleton.1 hu]
  · intro u ws hws hu
    rw [hmod] at hws
    cases hws
    exact absurd (h.front v (us ++ [w]) (by rw [hv]; rfl) hu).2 (by simp)
  · rw [waiting, waiting, hmod, hv]
    simp [hf]

lemma Orderly.serves_addCallback (h : e.Orderly) (n : ℕ) :
    Serves e [.callback n] (e.addCallback db n) ((e.map wholeMap).addCallback db n) := by
  refine Serves.of_getVersions ?_
  have hreg : ∀ u, wholeMap.version (u.register (.callback n)) =
      (wholeMap.version u).register (.callback n) := by
    simp [wholeMap, register, Dependent.whole]
  have hmap : (e.getVersions.map wholeMap).versions.length = e.getVersions.versions.length := by
    simp [map]
  obtain ⟨v, vs, hv, -⟩ := exists_getVersions e
  have ho := h.getVersions
  simp only [addCallback, ← map_getVersions, hmap]
  rcases eq_nil_or_concat vs with rfl | ⟨ws, w, rfl⟩
  · simp only [hv]
    refine ho.serves_modify_zero hv hreg rfl fun hz d hd => ?_
    rw [register, (ho.front v [] hv hz).1, nil_append] at hd
    rw [mem_singleton.1 hd]
    rfl
  · rw [concat_eq_append, ← cons_append] at hv
    have hlen : e.getVersions.versions.length - 1 = (v :: ws).length := by simp [hv]
    simp only [hlen]
    exact ho.serves_modify_last hv (by simp) hreg rfl rfl

/-- A satisfy works on the first version, or on a new one if the first one is satisfied. -/
theorem Orderly.serves_satisfySlot {slot : UInt32}
    (h : e.Orderly) (hdue : e.Deliverable ⟨.satisfy slot data, db⟩)
    (hx : e.satisfySlot db slot data = some x) :
    ∃ y, (e.map wholeMap).satisfySlot db slot data = some y ∧ Serves e [] x y := by
  obtain ⟨v, vs, hv, -, hlatch, hdeps, hdata⟩ := exists_getVersions e
  have ho := h.getVersions
  have hl := latch_of_cons hv
  have hincr' : ∀ u, wholeMap.version u.incr = (wholeMap.version u).incr := fun _ => rfl
  have hdecr' : ∀ u, wholeMap.version (u.decr data) = (wholeMap.version u).decr data :=
    fun _ => rfl
  simp only [satisfySlot, hl] at hx
  simp only [satisfySlot, ← map_getVersions, latch_map, target_map, hl]
  by_cases hincr : slot = latchIncrSlot
  · simp only [hincr] at hx ⊢
    refine ⟨_, rfl, Serves.of_getVersions ?_⟩
    rw [← some.inj hx]
    by_cases hone : v.latchCount = 1
    · simp only [hone]
      exact ho.serves_pushVersion hv (by rw [hone]; decide) hincr'
        (fun _ => (by decide : (0 : UInt32) + 1 ≠ 0)) fun _ => rfl
    · simp only [hone]
      refine ho.serves_modify_zero hv hincr' (append_nil _).symm fun hz => ?_
      have hready : e.latch 0 = -1 := by
        have hz : v.latchCount + 1 = 0 := hz
        grind
      have := hdue (e.frontDependents, e.frontData) (by simp [due, hincr, hready])
      rwa [← hdeps, ← hdata] at this
  simp only [hincr] at hx ⊢
  by_cases hdecr : slot = latchDecrSlot
  · simp only [hdecr] at hx ⊢
    refine ⟨_, rfl, Serves.of_getVersions ?_⟩
    rw [← some.inj hx]
    by_cases hone : v.latchCount = -1
    · simp only [hone]
      exact ho.serves_pushVersion hv (by rw [hone]; decide) hdecr'
        (fun _ => (by decide : (0 : UInt32) - 1 ≠ 0)) fun _ => rfl
    · simp only [hone]
      refine ho.serves_modify_zero hv hdecr' (append_nil _).symm fun hz => ?_
      have hready : e.latch 0 = 1 := by
        have hz : v.latchCount - 1 = 0 := hz
        grind
      have := hdue (e.frontDependents, if data = null then e.frontData else data)
        (by rw [due, if_neg fun hc => hincr hc.1, if_pos ⟨hdecr, hready⟩]; rfl)
      rwa [← hdeps, ← hdata] at this
  simp only [hdecr, if_false] at hx ⊢
  by_cases hupd : slot = eventUpdate
  · simp only [hupd, if_true] at hx ⊢
    refine ⟨_, rfl, Serves.of_getVersions ?_⟩
    rw [← some.inj hx]
    -- an update changes nothing before it fires
    have hid : ∀ c : Channel, c.modify 0 id = c := fun c => by rw [modify, modify_id]
    have hserves : Serves e.getVersions [] ((e.getVersions.modify 0 id).fireIfZero db 0)
        (((e.getVersions.map wholeMap).modify 0 id).fireIfZero db 0) :=
      ho.serves_modify_zero hv (fun _ => rfl) (append_nil _).symm fun hz d hd => by
        rw [id_eq, (ho.front v vs hv hz).1] at hd
        cases hd
    rwa [hid, hid] at hserves
  · simp [hupd] at hx

/-- **No call on a channel event loses a dependent**, if those that it completes can be
signalled. -/
theorem Orderly.serves_call {a : ChannelAct} (h : e.Orderly)
    (hdue : e.Deliverable a) (hx : ChannelRun.call e a = some x) :
    ∃ y, ChannelRun.call (e.map wholeMap) a.whole = some y ∧ Serves e (registered a.op) x y := by
  obtain ⟨op, db⟩ := a
  cases op with
  | addDependence dest slot =>
    cases hx
    refine ⟨_, rfl, ?_⟩
    have hserves := h.serves_addDependent fun hready =>
      hdue (e.frontDependents ++ [dependentOf dest slot 0 0], e.frontData) (by simp [due, hready])
    rwa [whole_dependentOf] at hserves
  | addDependenceAt dest slot byteOffset len =>
    cases hx
    refine ⟨_, rfl, ?_⟩
    have hserves := h.serves_addDependent fun hready =>
      hdue (e.frontDependents ++ [dependentOf dest slot byteOffset len], e.frontData)
        (by simp [due, hready])
    rwa [whole_dependentOf] at hserves
  | addCallback n =>
    cases hx
    exact ⟨_, rfl, h.serves_addCallback n⟩
  | satisfy slot data => exact h.serves_satisfySlot hdue hx

end Channel

/-- A local event of any type. -/
structure LocalEvent where
  type : EventType
  /-- The event, as the functions for events other than channels use it. -/
  plain : Plain
  /-- The versions, and the signals that were sent for them. -/
  run : ChannelRun
  /-- The dependents that were registered in the versions, the first one first. -/
  registered : List Dependent

inductive LocalAct where
  /-- A call that does not use the versions starts or moves on. -/
  | call (a : EventAct)
  | version (a : ChannelAct)

def ChannelOp.isSlice : ChannelOp → Bool
  | .addDependenceAt _ _ byteOffset len => byteOffset ≠ 0 || len ≠ 0
  | _ => false

/-- The same act with `arts_add_dependence` instead of `arts_add_dependence_at`. -/
def LocalAct.whole : LocalAct → LocalAct
  | .call a => .call a
  | .version a => .version a.whole

namespace LocalEvent

def channel (s : LocalEvent) : Channel :=
  if s.type = .channel then s.run.channel
  else ⟨s.plain.event.latchCount, s.plain.event.data, s.run.channel.versions⟩

/-- One step. The versions of an event that is not a channel are used for slices only. -/
def next (s : LocalEvent) : LocalAct → Option LocalEvent
  | .call a =>
    if s.type = .channel then none else (s.plain.next a).map fun p => { s with plain := p }
  | .version a =>
    if s.type = .channel ∨ (a.op.isSlice ∧ s.plain.present) then
      (ChannelRun.call s.channel a).map fun x =>
        { s with
          run := ⟨x.1, s.run.log ++ x.2⟩
          registered := s.registered ++ Channel.registered a.op }
    else none

def create (type : EventType) (latchCount : UInt32) (data : Guid) : LocalEvent :=
  ⟨type, .create type latchCount, ⟨.create latchCount data, []⟩, []⟩

def machine : Machine LocalEvent LocalAct where
  init s := ∃ type latchCount data, s = create type latchCount data
  next := next

/-- Slices are registered on channel events only, and a version that fires can be delivered. -/
def Fits (s : LocalEvent) : LocalAct → Prop
  | .call _ => True
  | .version a => s.type = .channel ∧ s.run.channel.Deliverable a

instance (s : LocalEvent) (a : LocalAct) : Decidable (s.Fits a) := by
  cases a <;> unfold Fits <;> infer_instance

/-- The event if all dependents had been registered for the whole data block. -/
def whole (s : LocalEvent) : LocalEvent :=
  { s with
    run := ⟨s.run.channel.map wholeMap, s.run.log.map Signal.whole⟩
    registered := s.registered.map Dependent.whole }

/-- Every dependent that was registered has been signalled once or waits, and none waits for a
version that has nothing to wait for. -/
structure Served (s : LocalEvent) : Prop where
  perm : (s.run.log.map Prod.fst ++ s.run.channel.waiting).Perm s.registered
  orderly : s.run.channel.Orderly

variable {s : LocalEvent}

lemma Served.next {s' : LocalEvent} {a : LocalAct} (h : s.Served) (hfits : s.Fits a)
    (hnext : s.next a = some s') : s'.Served ∧ s.whole.next a.whole = some s'.whole := by
  cases a with
  | call a =>
    simp only [LocalEvent.next] at hnext
    split_ifs at hnext with hch
    obtain ⟨p, hp, rfl⟩ := map_eq_some_iff.1 hnext
    refine ⟨⟨h.perm, h.orderly⟩, ?_⟩
    have hch' : ¬ s.whole.type = .channel := hch
    have hplain : s.whole.plain = s.plain := rfl
    simp only [LocalAct.whole, LocalEvent.next, hch', hplain, hp]
    rfl
  | version a =>
    obtain ⟨hch, hdue⟩ := hfits
    have hch' : s.whole.type = .channel := hch
    simp only [LocalEvent.next, hch, channel] at hnext
    obtain ⟨x, hx, rfl⟩ := map_eq_some_iff.1 hnext
    obtain ⟨y, hy, hserves⟩ := h.orderly.serves_call hdue hx
    refine ⟨⟨?_, hserves.orderly⟩, ?_⟩
    · have hreg : (s.run.log.map Prod.fst ++ (s.run.channel.waiting ++
          Channel.registered a.op)).Perm (s.registered ++ Channel.registered a.op) := by
        rw [← append_assoc]
        exact h.perm.append_right _
      rw [map_append, append_assoc]
      exact (hserves.perm.append_left _).trans hreg
    · have hcall : ChannelRun.call s.whole.channel a.whole = some y := by
        rw [channel, if_pos hch']
        exact hy
      simp only [LocalAct.whole, LocalEvent.next, hcall, hserves.whole]
      simp [whole, ChannelAct.whole, Channel.registered_whole, hch]

lemma Served.exec {t : LocalEvent} {acts : List LocalAct} (ht : t.Served)
    (h : (machine.restrict Fits).exec t acts = some s) :
    s.Served ∧ machine.exec t.whole (acts.map LocalAct.whole) = some s.whole := by
  induction acts generalizing t with
  | nil =>
    cases h
    exact ⟨ht, rfl⟩
  | cons a acts ih =>
    obtain ⟨t', hnext, h'⟩ := bind_eq_some_iff.1 h
    obtain ⟨hfits, hnext⟩ := Machine.restrict_next.1 hnext
    obtain ⟨ht', hwhole⟩ := ht.next hfits hnext
    obtain ⟨hs, hexec⟩ := ih ht' h'
    exact ⟨hs, bind_eq_some_iff.2 ⟨t'.whole, hwhole, hexec⟩⟩

/-- **Slices on channel events are signalled once, like whole blocks**, if every version that fires
can be delivered. -/
theorem slices_signalled (type : EventType) (latchCount : UInt32) (data : Guid)
    (acts : List LocalAct) (s : LocalEvent)
    (h : (machine.restrict Fits).exec (create type latchCount data) acts = some s) :
    s.Served ∧ machine.exec (create type latchCount data) (acts.map LocalAct.whole) =
      some s.whole := by
  have hserved : (create type latchCount data).Served := by
    refine ⟨List.Perm.refl _, ?_, ?_⟩
    · intro v hv
      cases hv
    · intro v vs hv
      cases hv
  exact hserved.exec h

/-- A channel event: a slice is registered, and signalled by a satisfy with a data block that the
route table has. -/
theorem slices_signalled_channel : ∃ s, (machine.restrict Fits).exec (create .channel 1 null)
      [.version ⟨.addDependenceAt (make 1 0 7) 0 8 16, fun _ => true⟩,
        .version ⟨.satisfy latchDecrSlot (make 6 0 9), fun _ => true⟩] = some s ∧
    s.Served ∧
    machine.exec (create .channel 1 null)
      [.version ⟨.addDependence (make 1 0 7) 0, fun _ => true⟩,
        .version ⟨.satisfy latchDecrSlot (make 6 0 9), fun _ => true⟩] = some s.whole := by
  obtain ⟨s, hs⟩ := isSome_iff_exists.1 (by decide +kernel :
    ((machine.restrict Fits).exec (create .channel 1 null)
      [.version ⟨.addDependenceAt (make 1 0 7) 0 8 16, fun _ => true⟩,
        .version ⟨.satisfy latchDecrSlot (make 6 0 9), fun _ => true⟩]).isSome = true)
  exact ⟨s, hs, slices_signalled .channel 1 null _ s hs⟩

/-- A sticky event: the slice is registered in the versions, which the fire loop does not look
at. -/
theorem slice_not_signalled : ∃ s, machine.Reachable s ∧
    s.registered = [.edt (make 1 0 7) 0 8 16] ∧ s.plain.event.fired = true ∧
    (∀ c ∈ s.plain.calls, c.isDone = true) ∧ s.plain.log = [] ∧ s.run.log = [] :=
  Machine.Reachable.exists_of_exec
    (r := .version ⟨.addDependenceAt (make 1 0 7) 0 8 16, fun _ => true⟩ ::
      .call (.satisfy latchDecrSlot (make 6 0 9)) :: replicate 6 (.call (.step 0)))
    ⟨.sticky, 1, null, rfl⟩ (by decide +kernel)

end LocalEvent

end Arts
