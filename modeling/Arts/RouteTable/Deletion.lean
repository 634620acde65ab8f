import Arts.Machine.Basic
import Arts.RouteTable.Item

/-!
# Deferred deletion of a datablock

Datablocks are created without a reference, and a marked item is not found by a return;
`DbLife.deferred_iff` says when deletion is deferred, `DbLife.destroy_goes_wrong` what happens
otherwise.
-/

namespace Arts

open Option

/-- The part of `arts_db_destroy` that concerns the item. -/
def RouteItem.dbDestroy (i : RouteItem) (guid : Guid) : RouteItem :=
  let r := i.lookupDb guid
  if r.2 then (r.1.returnDb guid).routeTableMarkDelete guid else r.1

lemma RouteItem.Is.dbDestroy {i : RouteItem} {guid : Guid} {n : ℕ} (h : i.Is guid 2 n)
    (hmax : n + 2 < 2 ^ 61) (hdata : i.data.isSome) :
    i.dbDestroy guid = i.routeTableMarkDelete guid := by
  have hlookup := h.lookupDb hmax
  have hreturn : RouteItem.returnDb { i with lock := word 2 (n + 1) } guid = i := by
    have his : RouteItem.Is { i with lock := word 2 (n + 1) } guid 2 (n + 1) :=
      ⟨h.key, rfl, by decide, Nat.lt_of_succ_lt hmax⟩
    rw [his.returnDb, ← h.lock]
  simp [RouteItem.dbDestroy, hlookup, hdata, hreturn]

/-- A datablock from its creation to its end, on the rank that owns it. -/
structure DbLife where
  item : RouteItem := {}
  created : Bool := false
  destroyed : Bool := false
  /-- The successful lookups that have not been returned. -/
  outstanding : ℕ := 0
  deriving DecidableEq

namespace DbLife

inductive Act where
  | create
  | lookup
  | giveBack
  | destroy
  deriving DecidableEq

variable (guid : Guid) (rank : ℕ)

/-- One operation. It is created once and destroyed at most once, and what is returned has been looked
up. -/
def next (d : DbLife) : Act → Option DbLife
  | .create =>
    if d.created then none
    else some { d with item := d.item.addItem guid rank false, created := true }
  | .lookup =>
    let r := d.item.lookupDb guid
    some { d with item := r.1, outstanding := d.outstanding + r.2.toNat }
  | .giveBack =>
    if 0 < d.outstanding then
      some { d with item := d.item.returnDb guid, outstanding := d.outstanding - 1 }
    else none
  | .destroy =>
    if d.created ∧ ¬ d.destroyed then
      some { d with item := d.item.routeTableMarkDelete guid, destroyed := true }
    else none

/-- The datablock under any sequence of operations. -/
def machine : Machine DbLife Act where
  init d := d = {}
  next := next guid rank

/-- **Deferred deletion.** -/
structure Deferred (d : DbLife) : Prop where
  /-- The datablock has been freed once if it has been destroyed and every lookup has been returned, and
  otherwise not. -/
  freed : d.item.freed = if d.destroyed ∧ d.outstanding = 0 then 1 else 0
  reserved : d.item.lock &&& reservedItem = 0
  available : d.item.freed = 0 → (d.item.lock &&& availableItem ≠ 0 ↔ d.created)
  deleted : d.item.freed = 0 → (d.item.lock &&& deleteItem ≠ 0 ↔ d.destroyed)

/-- **The condition**: the datablock is destroyed while two lookups are outstanding at least, and the
last one is not returned after that. -/
def Used (d : DbLife) : Act → Prop
  | .destroy => 2 ≤ d.outstanding
  | .giveBack => d.destroyed → 2 ≤ d.outstanding
  | _ => True

instance (d : DbLife) (l : Act) : Decidable (d.Used l) := by
  unfold Used
  split <;> infer_instance

/-- The states of the runs that meet the condition. -/
inductive Inv : DbLife → Prop where
  | fresh : Inv {}
  | alive {d : DbLife} (created : d.created) (destroyed : d.destroyed = false)
      (is : d.item.Is guid 2 d.outstanding) (data : d.item.data = some 1)
      (freed : d.item.freed = 0) : Inv d
  | marked {d : DbLife} {n : ℕ} (created : d.created) (destroyed : d.destroyed)
      (is : d.item.Is guid 3 n) (freed : d.item.freed = 0) (outstanding : 0 < d.outstanding) : Inv d

variable {guid rank} {d d' : DbLife} {l : Act}

lemma Inv.deferred (h : Inv guid d) : d.Deferred := by
  cases h with
  | fresh => exact ⟨rfl, by decide, by decide, by decide⟩
  | alive hc hd his _ hf =>
    have hn := his.count_lt
    refine ⟨by simp [hf, hd], ?_, fun _ => ?_, fun _ => ?_⟩ <;> rw [his.lock]
    · rw [reservedItem_eq, and_flag hn]
      decide
    · rw [availableItem_eq, and_flag hn]
      simpa [hc] using (by decide : word (2 &&& 2) 0 ≠ 0)
    · rw [deleteItem_eq, and_flag hn]
      simpa [hd] using (by decide : word (2 &&& 1) 0 = 0)
  | marked hc hd his hf ho =>
    have hn := his.count_lt
    refine ⟨by simp [hf, Nat.pos_iff_ne_zero.1 ho], ?_, fun _ => ?_, fun _ => ?_⟩ <;> rw [his.lock]
    · rw [reservedItem_eq, and_flag hn]
      decide
    · rw [availableItem_eq, and_flag hn]
      simpa [hc] using (by decide : word (3 &&& 2) 0 ≠ 0)
    · rw [deleteItem_eq, and_flag hn]
      simpa [hd] using (by decide : word (3 &&& 1) 0 ≠ 0)

lemma Inv.create (h : Inv guid d) (hst : next guid rank d .create = some d') : Inv guid d' := by
  obtain ⟨hc, hst⟩ := ite_none_left_eq_some.1 hst
  cases hst
  cases h with
  | fresh =>
    rw [RouteItem.addItem_eq]
    exact .alive rfl rfl ⟨rfl, rfl, by decide, Nat.two_pow_pos 61⟩ rfl rfl
  | alive hcr | marked hcr => exact absurd hcr hc

lemma Inv.lookup (h : Inv guid d) (hst : next guid rank d .lookup = some d') : Inv guid d' := by
  simp only [next, some.injEq] at hst
  subst hst
  cases h with
  | fresh =>
    have hno : ({} : RouteItem).lookupDb guid = ({}, false) := by
      simp [RouteItem.lookupDb, RouteItem.found, checkItemState, isAvail]
    exact .fresh
  | alive hc hd his hdata hf =>
    by_cases hmax : d.outstanding + 2 < 2 ^ 61
    · have hsome : d.item.data.isSome := by simp [hdata]
      rw [his.lookupDb hmax, hsome]
      exact .alive hc hd ⟨his.key, rfl, by decide, Nat.lt_of_succ_lt hmax⟩ hdata hf
    · rw [his.lookupDb_of_full hmax]
      exact .alive hc hd his hdata hf
  | marked hc hd his hf ho =>
    rw [his.lookupDb_of_ne (by decide)]
    exact .marked hc hd his hf ho

lemma Inv.giveBack (h : Inv guid d) (hst : next guid rank d .giveBack = some d') :
    (d.Used .giveBack → Inv guid d') ∧ (d'.Deferred → d.Used .giveBack) := by
  obtain ⟨hpos, hst⟩ := ite_none_right_eq_some.1 hst
  cases hst
  cases h with
  | fresh => cases hpos
  | alive hc hd his hdata hf =>
    refine ⟨fun _ => ?_, fun _ hd' => absurd hd' (by simp [hd])⟩
    obtain ⟨n, hn⟩ := Nat.exists_eq_succ_of_ne_zero (Nat.pos_iff_ne_zero.1 hpos)
    rw [hn] at his
    rw [his.returnDb]
    refine .alive hc hd ⟨his.key, by simp [hn], by decide, ?_⟩ hdata hf
    have := his.count_lt
    simp only [hn]
    omega
  | marked hc hd his hf ho =>
    rw [his.returnDb_of_ne (by decide)]
    refine ⟨fun hu => .marked hc hd his hf (Nat.sub_pos_of_lt (hu hd)), fun hdef _ => ?_⟩
    by_contra hlt
    have hlast : d.outstanding - 1 = 0 := by omega
    have := hdef.freed
    simp [hd, hlast, hf] at this

lemma Inv.destroy (h : Inv guid d) (hst : next guid rank d .destroy = some d') :
    (d.Used .destroy → Inv guid d') ∧ (d'.Deferred → d.Used .destroy) := by
  obtain ⟨⟨hcr, hno⟩, hst⟩ := ite_none_right_eq_some.1 hst
  cases hst
  cases h with
  | fresh => cases hcr
  | alive hc hd his hdata hf =>
    rcases hn : d.outstanding with - | - | n
    · rw [hn] at his
      rw [his.routeTableMarkDelete_of_zero]
      refine ⟨fun hu => absurd hu (by simp [Used, hn]), fun hdef => ?_⟩
      have := hdef.freed
      simp [hf] at this
    · rw [hn] at his
      rw [his.routeTableMarkDelete, if_pos rfl]
      refine ⟨fun hu => absurd hu (by simp [Used, hn]), fun hdef => ?_⟩
      have hfreed := hdef.freed
      have havail := hdef.available hfreed
      simp [RouteItem.freeItem, hc] at havail
    · rw [hn] at his
      rw [his.routeTableMarkDelete, if_neg (by omega)]
      refine ⟨fun _ => .marked hc rfl ⟨his.key, rfl, by decide, ?_⟩ hf (by simp),
        fun _ => by simp [Used, hn]⟩
      have := his.count_lt
      omega
  | marked hc hd => exact absurd hd hno

/-- **A destroyed datablock is deleted as it should be exactly as long as it is in use.** -/
theorem deferred_iff (h : ((machine guid rank).restrict Used).Reachable d) :
    d.Deferred ∧ ∀ l d', next guid rank d l = some d' → (d'.Deferred ↔ d.Used l) := by
  have hstep : ∀ d l d', Inv guid d → next guid rank d l = some d' →
      (d.Used l → Inv guid d') ∧ (d'.Deferred → d.Used l) := by
    intro d l d' hinv hst
    cases l with
    | create => exact ⟨fun _ => hinv.create hst, fun _ => trivial⟩
    | lookup => exact ⟨fun _ => hinv.lookup hst, fun _ => trivial⟩
    | giveBack => exact hinv.giveBack hst
    | destroy => exact hinv.destroy hst
  have hinv : Inv guid d := by
    refine h.invariant ?_ fun d l d' _ hinv hst => ?_
    · rintro d rfl
      exact .fresh
    · obtain ⟨hu, hst⟩ := Machine.restrict_next.1 hst
      exact (hstep d l d' hinv hst).1 hu
  refine ⟨hinv.deferred, fun l d' hst => ⟨(hstep d l d' hinv hst).2, fun hu => ?_⟩⟩
  exact ((hstep d l d' hinv hst).1 hu).deferred

/-- The GUID of a datablock of rank 0. -/
def aDb : Guid := Guid.make 6 0 1

/-- Two lookups are outstanding when the datablock is destroyed, and one is returned. -/
theorem deferred_iff_two_lookups : ∃ d : DbLife,
    ((machine aDb 0).restrict Used).Reachable d ∧ d.destroyed ∧ d.outstanding = 1 ∧
      d.Deferred ∧ ∀ l d', next aDb 0 d l = some d' → (d'.Deferred ↔ d.Used l) :=
  Machine.Reachable.exists_and₂ (r := [.create, .lookup, .lookup, .destroy, .giveBack])
    rfl (by decide +kernel) fun _ hr _ _ => deferred_iff hr

/-- A datablock that is destroyed with no lookup outstanding is not freed, and with one it is. -/
theorem destroy_goes_wrong :
    (∃ d : DbLife, (machine aDb 0).Reachable d ∧ d.destroyed ∧ d.outstanding = 0 ∧
      d.item.freed = 0 ∧ d.item.lock = 0x5FFFFFFFFFFFFFFF) ∧
    ∃ d : DbLife, (machine aDb 0).Reachable d ∧ d.outstanding = 1 ∧ d.item.freed = 1 :=
  ⟨Machine.Reachable.exists_of_exec (M := machine aDb 0)
    (r := [.create, .destroy]) rfl
    (by decide +kernel),
  Machine.Reachable.exists_of_exec
    (r := [.create, .lookup, .destroy]) rfl (by decide +kernel)⟩

end DbLife

end Arts
