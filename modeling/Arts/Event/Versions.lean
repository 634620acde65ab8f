import Arts.Event.Channel

/-!
# The versions of a channel event

Every call changes the first version, or one pushed for the call, and fires it if its latch is `0`.
-/

namespace Arts

open List

namespace Channel

variable {e : Channel} {db : Guid → Bool}

@[simp] lemma latchCount_getVersions (e : Channel) : e.getVersions.latchCount = e.latchCount := by
  unfold getVersions
  split_ifs <;> rfl

@[simp] lemma latchCount_freeVersion (e : Channel) : e.freeVersion.latchCount = e.latchCount := by
  unfold freeVersion
  split <;> rfl

variable {v : Version} {vs : List Version}

lemma versions_modify_zero (h : e.versions = v :: vs)
    (f : Version → Version) : (e.modify 0 f).versions = f v :: vs := by
  rw [modify, h]
  rfl

lemma modify_modify (e : Channel) (k : ℕ) (f g : Version → Version) :
    (e.modify k f).modify k g = e.modify k (g ∘ f) := by
  simp [modify, modify_modify_eq]

lemma modify_append_length (vs : List Version) (v : Version) (f : Version → Version) :
    (vs ++ [v]).modify vs.length f = vs ++ [f v] := by
  induction vs with
  | nil => rfl
  | cons w vs ih => exact congrArg (w :: ·) ih

lemma versions_modify_pushVersion (e : Channel) (f : Version → Version) :
    ∃ n, (e.pushVersion.modify e.versions.length f).versions =
      e.versions ++ [f ⟨n, 0, [], e.data⟩] :=
  ⟨_, modify_append_length e.versions _ f⟩

lemma latch_of_cons (h : e.versions = v :: vs) : e.latch 0 = v.latchCount := by
  rw [latch, h]
  rfl

lemma latch_of_append (h : e.versions = vs ++ [v]) : e.latch vs.length = v.latchCount := by
  simp [latch, h]

lemma fireIfZero_cons (db : Guid → Bool) (h : e.versions = v :: vs) (hz : v.latchCount = 0) :
    e.fireIfZero db 0 = (e.freeVersion, v.dependents.filterMap (signal db v.data)) := by
  simp [fireIfZero, fireDependents, latch, h, hz]

lemma fireIfZero_of_ne (db : Guid → Bool) {k : ℕ} (h : e.latch k ≠ 0) :
    e.fireIfZero db k = (e, []) := by
  simp [fireIfZero, h]

lemma fst_of_signal {db : Guid → Bool} {data : Guid} {d : Dependent} {x : Signal}
    (h : signal db data d = some x) : x.1 = d := by
  cases d with
  | edt addr slot byteOffset size =>
    simp only [signal] at h
    split_ifs at h <;> cases h <;> rfl
  | event addr slot => cases h; rfl
  | callback n => cases h; rfl

def frontDependents (e : Channel) : List Dependent := e.versions.head?.elim [] Version.dependents

/-- The data of the first version, which is created with the data of the event. -/
def frontData (e : Channel) : Guid := e.versions.head?.elim e.data Version.data

/-- A dependence that is registered now completes the first generation. -/
def Ready (e : Channel) : Prop :=
  if 0 < e.latchCount then e.frontDependents = [] ∧ e.latch 0 = -1 else e.latch 0 = 0

instance : DecidablePred Ready := fun e => by unfold Ready; infer_instance

lemma exists_getVersions (e : Channel) : ∃ v vs, e.getVersions.versions = v :: vs ∧
    vs = e.versions.tail ∧ v.latchCount = e.latch 0 ∧ v.dependents = e.frontDependents ∧
    v.data = e.frontData := by
  unfold getVersions frontDependents frontData latch
  cases h : e.versions with
  | nil => simp [pushVersion, h]
  | cons v vs => simp [h]

lemma frontHasDependent_of_cons (h : e.versions = v :: vs) :
    e.frontHasDependent = true ↔ v.dependents ≠ [] := by
  simp [frontHasDependent, h]

lemma fireIfZero_modify_zero (h : e.versions = v :: vs)
    (f : Version → Version) : (e.modify 0 f).fireIfZero db 0 =
      if (f v).latchCount = 0 then
        ((e.modify 0 f).freeVersion, (f v).dependents.filterMap (signal db (f v).data))
      else (e.modify 0 f, []) := by
  have hv := versions_modify_zero h f
  split_ifs with hz
  · exact fireIfZero_cons db hv hz
  · exact fireIfZero_of_ne db (by rwa [latch_of_cons hv])

lemma fireIfZero_modify_pushVersion (f : Version → Version)
    (hf : ∀ n, (f ⟨n, 0, [], e.data⟩).latchCount ≠ 0) :
    (e.pushVersion.modify e.versions.length f).fireIfZero db e.versions.length =
      (e.pushVersion.modify e.versions.length f, []) := by
  obtain ⟨n, hn⟩ := versions_modify_pushVersion e f
  exact fireIfZero_of_ne db (by rw [latch_of_append hn]; exact hf n)

lemma addDependent_signals (e : Channel) (db : Guid → Bool) (d : Dependent) :
    (e.addDependent db d).2 =
      if e.Ready then (e.frontDependents ++ [d]).filterMap (signal db e.frontData) else [] := by
  obtain ⟨v, vs, hv, -, hlatch, hdeps, hdata⟩ := exists_getVersions e
  have hfront := frontHasDependent_of_cons hv
  simp only [addDependent, Ready, latchCount_getVersions, target]
  by_cases hpos : 0 < e.latchCount
  · by_cases hdep : v.dependents = []
    · have hno : e.getVersions.frontHasDependent = false := by
        simpa [hdep] using hfront
      simp only [hpos, if_true, hno, Bool.false_eq_true, if_false, modify_modify]
      rw [fireIfZero_modify_zero hv]
      have hz : e.latch 0 + 1 = 0 ↔ e.latch 0 = -1 := by grind
      simp only [Function.comp, Version.register, Version.incr, hlatch, hz, hdata, ← hdeps, hdep,
        true_and, nil_append]
      split_ifs <;> rfl
    · have hyes : e.getVersions.frontHasDependent = true := hfront.2 hdep
      simp only [hpos, if_true, hyes, modify_modify]
      rw [fireIfZero_modify_pushVersion _ fun _ => (by decide : (0 : UInt32) + 1 ≠ 0)]
      rw [hdeps] at hdep
      simp [hdep]
  · simp only [hpos, if_false]
    rw [fireIfZero_modify_zero hv]
    simp only [Version.register, hlatch, hdata, hdeps]
    split_ifs <;> rfl

end Channel

/-! ### Changing what the calls do not look at -/

/-- A change of the data and of the versions that the calls on an event do not notice. -/
structure VersionMap where
  data : Guid → Guid
  version : Version → Version
  fresh : ∀ n g, version ⟨n, 0, [], g⟩ = ⟨n, 0, [], data g⟩
  number : ∀ v, (version v).version = v.version
  latch : ∀ v, (version v).latchCount = v.latchCount
  /-- Versions with dependents stay versions with dependents. -/
  isEmpty : ∀ v, (version v).dependents.isEmpty = v.dependents.isEmpty

namespace Channel

variable (m : VersionMap) (e : Channel)

/-- Change the data and all versions. -/
def map : Channel := ⟨e.latchCount, m.data e.data, e.versions.map m.version⟩

lemma map_pushVersion : e.pushVersion.map m = (e.map m).pushVersion := by
  simp only [pushVersion, map, map_append, getLast?_map, map_cons, m.fresh]
  cases e.versions.getLast? with
  | none => rfl
  | some v => simp [m.number]

lemma map_getVersions : e.getVersions.map m = (e.map m).getVersions := by
  have hempty : (e.map m).versions.isEmpty = e.versions.isEmpty := by simp [map]
  unfold getVersions
  rw [hempty]
  split_ifs
  · exact e.map_pushVersion m
  · rfl

lemma map_freeVersion : e.freeVersion.map m = (e.map m).freeVersion := by
  unfold freeVersion
  rcases hvs : e.versions with _ | ⟨v, _ | ⟨w, vs⟩⟩ <;> simp [map, hvs, m.fresh, m.number]

lemma latch_map (k : ℕ) : (e.map m).latch k = e.latch k := by
  simp only [latch, map, getElem?_map]
  cases e.versions[k]? with
  | none => rfl
  | some v => exact m.latch v

lemma map_modify (k : ℕ) {f g : Version → Version} (h : ∀ v, m.version (f v) = g (m.version v)) :
    (e.modify k f).map m = (e.map m).modify k g := by
  simp only [modify, map, Channel.mk.injEq, true_and]
  refine ext_getElem? fun i => ?_
  simp only [getElem?_map, getElem?_modify]
  cases e.versions[i]? with
  | none => rfl
  | some v => by_cases hk : k = i <;> simp [hk, h]

lemma target_map (taken : Bool) :
    (e.map m).target taken = ((e.target taken).1.map m, (e.target taken).2) := by
  cases taken with
  | false => rfl
  | true =>
    have hlen : (e.map m).versions.length = e.versions.length := by simp [map]
    simp [target, map_pushVersion, hlen]

lemma frontHasDependent_map : (e.map m).frontHasDependent = e.frontHasDependent := by
  simp only [frontHasDependent, map]
  cases e.versions with
  | nil => rfl
  | cons v vs => simp [m.isEmpty]

end Channel

end Arts
