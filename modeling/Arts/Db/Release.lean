import Arts.Db.Frontier
import Arts.Machine.Basic

/-!
# Releasing the datablocks of an EDT

Each datablock that an EDT has written or created is released once, by itself or at its end
(**`EdtDbs.released_once`**), but `arts_db_release(NULL_GUID)` can crash (`EdtDbs.release_crashes`).
-/

namespace Arts

open List Option Guid

structure HeldSlot where
  guid : Guid := null
  ptr : Option ℕ := none
  mode : AccessMode := .null
  deriving DecidableEq

/-- What a release of the datablock does. -/
inductive DbRelease where
  /-- `arts_progress_frontier` -/
  | progress (guid : Guid)
  /-- `arts_remote_update_db` -/
  | update (guid : Guid)
  deriving DecidableEq

def DbRelease.guid : DbRelease → Guid
  | .progress g | .update g => g

/-- The slot holds the datablock in a write mode. -/
def HeldSlot.Writes (d : HeldSlot) (g : Guid) : Prop := d.guid = g ∧ d.mode.isWrite

instance (d : HeldSlot) (g : Guid) : Decidable (d.Writes g) := inferInstanceAs (Decidable (_ ∧ _))

/-- An EDT that runs, and its datablocks. -/
structure EdtDbs where
  depv : List HeldSlot
  /-- `created_db_list` -/
  created : List Guid := []
  /-- The created datablocks that a lookup finds. -/
  alive : List Guid := []
  log : List DbRelease := []
  crashed : Bool := false
  /-- The slots as they were granted. -/
  slots : List HeldSlot
  /-- The datablocks that were created. -/
  made : List Guid := []
  deriving DecidableEq

inductive EdtDbOp where
  | create (guid : Guid)
  | release (guid : Guid)
  | destroy (guid : Guid)
  deriving DecidableEq

namespace EdtDbs

-- the rank, and which datablocks are `ARTS_DB_LOCAL`
variable (rank : ℕ) (isLocalDb : Guid → Bool)

/-- The release of a datablock by a slot. -/
def released (guid : Guid) : List DbRelease :=
  if isLocalDb guid then []
  else [if guid.getRank.toNat = rank then .progress guid else .update guid]

/-- The loop of `arts_db_release` over the slots; `none` if it reads a header through `NULL`. -/
def releaseSlots (guid : Guid) : Bool → List HeldSlot → Option (List HeldSlot × List DbRelease)
  | _, [] => some ([], [])
  | done, d :: ds =>
    if d.guid ≠ guid then (releaseSlots guid done ds).map fun r => (d :: r.1, r.2)
    else if d.mode.isWrite && !done then
      if d.ptr = none then none
      else (releaseSlots guid true ds).map fun r => ({} :: r.1, released rank isLocalDb guid ++ r.2)
    else (releaseSlots guid done ds).map fun r => ({} :: r.1, r.2)

/-- `arts_db_release` -/
def release (s : EdtDbs) (guid : Guid) : EdtDbs :=
  if guid ∈ s.created then
    { s with
      created := (s.created.reverse.replace guid null).reverse
      log := s.log ++ if guid ∈ s.alive ∧ ¬ isLocalDb guid then [.progress guid] else [] }
  else
    match releaseSlots rank isLocalDb guid false s.depv with
    | some r => { s with depv := r.1, log := s.log ++ r.2 }
    | none => { s with crashed := true }

/-- `arts_db_destroy` -/
def destroy (s : EdtDbs) (guid : Guid) : EdtDbs :=
  if guid.getType = .db then
    let s := s.release rank isLocalDb guid
    { s with alive := s.alive.filter (· ≠ guid) }
  else s

/-- `arts_db_create` and `arts_db_create_with_guid`: a datablock of another rank is not acquired. -/
def create (s : EdtDbs) (guid : Guid) : EdtDbs :=
  if guid.getRank.toNat = rank then
    { s with created := s.created ++ [guid], alive := guid :: s.alive, made := guid :: s.made }
  else { s with made := guid :: s.made }

/-- `arts_seen_write_dep` -/
def seenWriteDep (before : List HeldSlot) (d : HeldSlot) : Bool :=
  d.ptr.isSome && before.any fun b => b.guid == d.guid && b.ptr == d.ptr && b.mode.isWrite

/-- `release_dbs`; `before` are the slots that have been gone through. -/
def releaseDbs : List HeldSlot → List HeldSlot → List DbRelease
  | _, [] => []
  | before, d :: ds =>
    (if d.guid ≠ null ∧ d.mode.isWrite ∧ ¬ seenWriteDep before d then
      released rank isLocalDb d.guid else []) ++ releaseDbs (before ++ [d]) ds

/-- `arts_release_created_dbs` -/
def releaseCreatedDbs (s : EdtDbs) : List DbRelease :=
  s.created.flatMap fun g =>
    if g ≠ null ∧ g ∈ s.alive ∧ ¬ isLocalDb g then [.progress g] else []

/-- The slots are granted: those of one datablock in a write mode have one pointer, to its copy on the
rank. -/
def Granted (slots : List HeldSlot) : Prop :=
  ∀ g, g ≠ null → ∀ d ∈ slots, ∀ d' ∈ slots, d.Writes g → d'.Writes g →
    d.ptr.isSome ∧ d'.ptr = d.ptr

/-- The runs of an EDT. A datablock is created once, and it is new. -/
def machine : Machine EdtDbs EdtDbOp where
  init s := ∃ slots, Granted slots ∧ s = { depv := slots, slots := slots }
  next s
    | .create g =>
      if ¬ s.crashed ∧ g ≠ null ∧ g ∉ s.made ∧ ∀ d ∈ s.slots, ¬ d.Writes g then
        some (s.create rank g)
      else none
    | .release g => if s.crashed then none else some (s.release rank isLocalDb g)
    | .destroy g => if s.crashed then none else some (s.destroy rank isLocalDb g)

/-- **The condition on the steps.** -/
def Fit (s : EdtDbs) : EdtDbOp → Prop
  | .create g => g.getRank.toNat = rank ∨ isLocalDb g
  | .release g => g = null → ∀ d ∈ s.depv, ¬ d.Writes null
  | .destroy _ => True

instance (s : EdtDbs) : (l : EdtDbOp) → Decidable (s.Fit rank isLocalDb l)
  | .create _ => inferInstanceAs (Decidable (_ ∨ _))
  | .release _ => inferInstanceAs (Decidable (_ → _))
  | .destroy _ => isTrue trivial

/-- The datablock was granted in a write mode or created. -/
def Owes (s : EdtDbs) (g : Guid) : Prop :=
  g ∈ s.made ∨ ∃ d ∈ s.slots, d.Writes g

/-- What has been done for the datablock when the EDT ends. -/
def releases (s : EdtDbs) (g : Guid) : List DbRelease :=
  (s.log ++ releaseDbs rank isLocalDb [] s.depv ++ s.releaseCreatedDbs isLocalDb).filter (·.guid = g)

/-- If the EDT ends now, every datablock that it was granted to write or has created is released once,
and no other one. -/
def ReleasedOnce (s : EdtDbs) : Prop :=
  s.crashed = false ∧ ∀ g, g ≠ null →
    (s.Owes g → s.releases rank isLocalDb g = released rank isLocalDb g) ∧
    (¬ s.Owes g → s.releases rank isLocalDb g = [])

/-- The datablock is still to be released. -/
def Pending (s : EdtDbs) (g : Guid) : Prop := g ∈ s.created ∨ ∃ d ∈ s.depv, d.Writes g

variable {rank isLocalDb} {s : EdtDbs} {g g₀ : Guid}

lemma filter_released : (released rank isLocalDb g₀).filter (·.guid = g) =
    if g₀ = g then released rank isLocalDb g₀ else [] := by
  unfold released
  split_ifs <;> simp_all [DbRelease.guid]

lemma released_own (h : g.getRank.toNat = rank) :
    released rank isLocalDb g = if ¬ isLocalDb g then [.progress g] else [] := by
  unfold released
  split_ifs <;> simp_all

lemma releaseSlots_eq (done : Bool) (ds : List HeldSlot)
    (h : ∀ d ∈ ds, d.Writes g₀ → d.ptr.isSome) :
    releaseSlots rank isLocalDb g₀ done ds = some (ds.map fun d => if d.guid = g₀ then {} else d,
      if done = false ∧ ∃ d ∈ ds, d.Writes g₀ then released rank isLocalDb g₀ else []) := by
  induction ds generalizing done with
  | nil => simp [releaseSlots]
  | cons d ds ih =>
    have ih := fun b => ih b fun d' hd' => h d' (mem_cons_of_mem _ hd')
    have hd := h d mem_cons_self
    by_cases hg : d.guid = g₀
    · cases hw : d.mode.isWrite with
      | false => cases done <;> simp [releaseSlots, hg, hw, ih, HeldSlot.Writes]
      | true =>
        cases done <;> simp_all [releaseSlots, HeldSlot.Writes, isSome_iff_ne_none]
    · have hw : ¬ d.Writes g₀ := fun hw => hg hw.1
      simp [releaseSlots, hg, ih, hw]

lemma seenWriteDep_iff {before ds : List HeldSlot} {d : HeldSlot} (h : Granted (before ++ d :: ds))
    (hg : g ≠ null) (hd : d.Writes g) :
    seenWriteDep before d = true ↔ ∃ b ∈ before, b.Writes g := by
  have key : ∀ b ∈ before, b.Writes g → d.ptr.isSome ∧ b.ptr = d.ptr := fun b hb hw =>
    h g hg d (by simp) b (by simp [hb]) hd hw
  obtain ⟨rfl, -⟩ := hd
  simp only [seenWriteDep, Bool.and_eq_true, List.any_eq_true, beq_iff_eq]
  constructor
  · rintro ⟨-, b, hb, ⟨h₁, -⟩, h₂⟩
    exact ⟨b, hb, h₁, h₂⟩
  · rintro ⟨b, hb, hw⟩
    exact ⟨(key b hb hw).1, b, hb, ⟨hw.1, (key b hb hw).2⟩, hw.2⟩

lemma filter_releaseDbs {before ds : List HeldSlot} (h : Granted (before ++ ds)) (hg : g ≠ null) :
    (releaseDbs rank isLocalDb before ds).filter (·.guid = g) =
      if (∃ d ∈ ds, d.Writes g) ∧ ¬ ∃ b ∈ before, b.Writes g then released rank isLocalDb g else [] := by
  induction ds generalizing before with
  | nil => simp [releaseDbs]
  | cons d ds ih =>
    rw [releaseDbs, filter_append, ih (by simpa using h)]
    by_cases hd : d.Writes g
    · have hs := seenWriteDep_iff h hg hd
      by_cases hb : ∃ b ∈ before, b.Writes g
      · simp [hs.2 hb, hb]
      · rw [if_pos ⟨hd.1 ▸ hg, hd.2, mt hs.1 hb⟩, hd.1, filter_released, if_pos rfl,
          if_neg fun hc => hc.2 ⟨d, by simp, hd⟩, if_pos ⟨⟨d, by simp, hd⟩, hb⟩, append_nil]
    · have hr : ((if d.guid ≠ null ∧ d.mode.isWrite ∧ ¬ seenWriteDep before d then
          released rank isLocalDb d.guid else []).filter (·.guid = g)) = [] := by
        split_ifs with hc
        · rw [filter_released, if_neg fun he => hd ⟨he, hc.2.1⟩]
        · rfl
      rw [hr]
      simp [hd]

/-- The created datablocks that are still to be released, and what the run keeps true. -/
structure Inv (rank : ℕ) (isLocalDb : Guid → Bool) (s : EdtDbs) : Prop where
  intact : s.crashed = false
  granted : Granted s.depv
  held : ∀ g, g ≠ null → ∀ d ∈ s.depv, d.Writes g → ∃ d' ∈ s.slots, d'.Writes g
  created : ∀ g ∈ s.created, g ≠ null →
    g ∈ s.made ∧ g ∈ s.alive ∧ g.getRank.toNat = rank ∧ s.created.count g = 1
  fresh : ∀ g ∈ s.made, ∀ d ∈ s.slots, ¬ d.Writes g
  settled : ∀ g, g ≠ null → s.Owes g → ¬ s.Pending g →
    s.log.filter (·.guid = g) = released rank isLocalDb g
  unsettled : ∀ g, g ≠ null → ¬ s.Owes g ∨ s.Pending g → s.log.filter (·.guid = g) = []

namespace Inv

lemma owes (h : s.Inv rank isLocalDb) (hg : g ≠ null) (hp : s.Pending g) : s.Owes g := by
  obtain hc | ⟨d, hd, hw⟩ := hp
  · exact .inl (h.created g hc hg).1
  · exact .inr (h.held g hg d hd hw)

lemma not_writes (h : s.Inv rank isLocalDb) (hg : g ≠ null) (hc : g ∈ s.created) :
    ∀ d ∈ s.depv, ¬ d.Writes g := by
  intro d hd hw
  obtain ⟨d', hd', hw'⟩ := h.held g hg d hd hw
  exact h.fresh g (h.created g hc hg).1 d' hd' hw'

lemma filter_releaseCreatedDbs (h : s.Inv rank isLocalDb) (hg : g ≠ null) :
    (s.releaseCreatedDbs isLocalDb).filter (·.guid = g) =
      if g ∈ s.created then released rank isLocalDb g else [] := by
  have key : ∀ l : List Guid, (∀ g' ∈ l, g' ∈ s.created) →
      (l.flatMap fun g => if g ≠ null ∧ g ∈ s.alive ∧ ¬ isLocalDb g then [.progress g] else []).filter
        (fun r : DbRelease => r.guid = g) = (replicate (l.count g) (released rank isLocalDb g)).flatten := by
    intro l hl
    induction l with
    | nil => rfl
    | cons g' l ih =>
      rw [flatMap_cons, filter_append, ih fun a ha => hl a (by simp [ha])]
      by_cases he : g' = g
      · subst he
        obtain ⟨-, ha, hr, -⟩ := h.created g' (hl g' (by simp)) hg
        rw [count_cons_self, replicate_succ, flatten_cons, released_own hr]
        by_cases hL : isLocalDb g' <;> simp [hg, ha, DbRelease.guid]
      · split_ifs <;> simp [DbRelease.guid, he]
  rw [releaseCreatedDbs, key s.created fun _ h => h]
  split_ifs with hc
  · simp [(h.created g hc hg).2.2.2]
  · simp [count_eq_zero.2 hc]

lemma releasedOnce (h : s.Inv rank isLocalDb) : s.ReleasedOnce rank isLocalDb := by
  refine ⟨h.intact, fun g hg => ?_⟩
  have hr : s.releases rank isLocalDb g = s.log.filter (·.guid = g) ++
      (if ∃ d ∈ s.depv, d.Writes g then released rank isLocalDb g else []) ++
      (if g ∈ s.created then released rank isLocalDb g else []) := by
    rw [releases, filter_append, filter_append, h.filter_releaseCreatedDbs hg,
      filter_releaseDbs (by simpa using h.granted) hg]
    simp
  rw [hr]
  constructor
  · intro ho
    by_cases hc : g ∈ s.created
    · have hw : ¬ ∃ d ∈ s.depv, d.Writes g := fun ⟨d, hd, hw⟩ => h.not_writes hg hc d hd hw
      rw [h.unsettled g hg (.inr (.inl hc)), if_neg hw, if_pos hc]
      rfl
    · by_cases hw : ∃ d ∈ s.depv, d.Writes g
      · rw [h.unsettled g hg (.inr (.inr hw)), if_pos hw, if_neg hc]
        simp
      · rw [h.settled g hg ho (not_or.2 ⟨hc, hw⟩), if_neg hw, if_neg hc]
        simp
  · intro ho
    have hp : ¬ s.Pending g := fun hp => ho (h.owes hg hp)
    rw [h.unsettled g hg (.inl ho), if_neg fun hw => hp (.inr hw), if_neg fun hc => hp (.inl hc)]
    rfl

lemma settle (h : s.Inv rank isLocalDb) {depv : List HeldSlot} {created : List Guid} {ev : List DbRelease}
    (hgr : Granted depv) (hheld : ∀ g, g ≠ null → ∀ d ∈ depv, d.Writes g → ∃ d' ∈ s.slots, d'.Writes g)
    (hcreated : ∀ g ∈ created, g ≠ null → g ∈ s.created ∧ created.count g = s.created.count g)
    (hev : ∀ g, g ≠ null →
      ({ s with depv, created }.Pending g ↔ s.Pending g) ∧ ev.filter (·.guid = g) = [] ∨
      s.Pending g ∧ ¬ { s with depv, created }.Pending g ∧ ev.filter (·.guid = g) = released rank isLocalDb g) :
    { s with depv, created, log := s.log ++ ev }.Inv rank isLocalDb where
  __ := h
  granted := hgr
  held := hheld
  created g hg hn := by
    obtain ⟨hc, hct⟩ := hcreated g hg hn
    obtain ⟨h₁, h₂, h₃, h₄⟩ := h.created g hc hn
    exact ⟨h₁, h₂, h₃, hct.trans h₄⟩
  settled g hg ho hp := by
    rw [filter_append]
    obtain ⟨hiff, he⟩ | ⟨hp', -, he⟩ := hev g hg
    · rw [he, h.settled g hg ho (mt hiff.2 hp), append_nil]
    · rw [he, h.unsettled g hg (.inr hp'), nil_append]
  unsettled g hg hp := by
    rw [filter_append]
    obtain ⟨hiff, he⟩ | ⟨hp', hn, -⟩ := hev g hg
    · rw [he, h.unsettled g hg (hp.imp_right hiff.1), append_nil]
    · exact absurd (hp.resolve_left (not_not.2 (h.owes hg hp'))) hn

lemma count_replace {l : List Guid} (hg : g ≠ null) (h : g₀ ∈ l) :
    (l.replace g₀ null).count g + (if g₀ = g then 1 else 0) = l.count g := by
  induction l with
  | nil => cases h
  | cons a l ih =>
    by_cases ha : g₀ = a
    · subst ha
      simp [count_cons, Ne.symm hg]
    · have := ih ((mem_cons.1 h).resolve_left ha)
      simp only [replace_cons, beq_eq_false_iff_ne.2 ha, count_cons] at this ⊢
      omega

lemma release_created (h : s.Inv rank isLocalDb) (hc : g₀ ∈ s.created) :
    (s.release rank isLocalDb g₀).Inv rank isLocalDb ∧
      (g₀ ≠ null → g₀ ∉ (s.release rank isLocalDb g₀).created) := by
  have hct : ∀ g, g ≠ null → (s.created.reverse.replace g₀ null).reverse.count g +
      (if g₀ = g then 1 else 0) = s.created.count g := by
    intro g hg
    rw [count_reverse, count_replace hg (mem_reverse.2 hc), count_reverse]
  have hmem : ∀ g, g ≠ null → g₀ ≠ g →
      (g ∈ (s.created.reverse.replace g₀ null).reverse ↔ g ∈ s.created) := by
    intro g hg hne
    rw [← count_pos_iff, ← count_pos_iff, ← hct g hg, if_neg hne, Nat.add_zero]
  have hout : g₀ ≠ null → g₀ ∉ (s.created.reverse.replace g₀ null).reverse := by
    intro hg
    have := hct g₀ hg
    rw [(h.created g₀ hc hg).2.2.2, if_pos rfl] at this
    exact count_eq_zero.1 (by omega)
  rw [release, if_pos hc]
  refine ⟨h.settle h.granted h.held (fun g hg hn => ?_) fun g hg => ?_, hout⟩
  · have hne : g₀ ≠ g := fun he => hout (he ▸ hn) (he ▸ hg)
    refine ⟨(hmem g hn hne).1 hg, ?_⟩
    rw [← hct g hn, if_neg hne, Nat.add_zero]
  · by_cases he : g₀ = g
    · subst he
      obtain ⟨-, ha, hr, -⟩ := h.created g₀ hc hg
      refine .inr ⟨.inl hc, ?_, ?_⟩
      · rintro (hc' | ⟨d, hd, hw⟩)
        · exact hout hg hc'
        · exact h.not_writes hg hc d hd hw
      · rw [released_own hr]
        by_cases hL : isLocalDb g₀ <;> simp [ha, DbRelease.guid]
    · refine .inl ⟨or_congr_left (hmem g hg he), ?_⟩
      split_ifs <;> simp [DbRelease.guid, he]

lemma release_slots (h : s.Inv rank isLocalDb) (hc : g₀ ∉ s.created)
    (hnull : g₀ = null → ∀ d ∈ s.depv, ¬ d.Writes null) :
    (s.release rank isLocalDb g₀).Inv rank isLocalDb := by
  have hptr : ∀ d ∈ s.depv, d.Writes g₀ → d.ptr.isSome := by
    intro d hd hw
    by_cases hg : g₀ = null
    · exact absurd (hg ▸ hw) (hnull hg d hd)
    · exact (h.granted g₀ hg d hd d hd hw hw).1
  -- what is left of the slots
  have hleft : ∀ g, g ≠ null → ∀ d ∈ s.depv.map (fun d => if d.guid = g₀ then ({} : HeldSlot) else d),
      d.Writes g → d ∈ s.depv ∧ d.guid ≠ g₀ := by
    intro g hg d hd hw
    obtain ⟨d', hd', rfl⟩ := mem_map.1 hd
    by_cases hd₀ : d'.guid = g₀
    · rw [if_pos hd₀] at hw
      exact absurd hw.1.symm hg
    · rw [if_neg hd₀]
      exact ⟨hd', hd₀⟩
  rw [release, if_neg hc, releaseSlots_eq false s.depv hptr]
  refine h.settle (fun g hg d hd d' hd' hw hw' => ?_) (fun g hg d hd hw => ?_)
    (fun g hg _ => ⟨hg, rfl⟩) fun g hg => ?_
  · exact h.granted g hg d (hleft g hg d hd hw).1 d' (hleft g hg d' hd' hw').1 hw hw'
  · exact h.held g hg d (hleft g hg d hd hw).1 hw
  · by_cases he : g₀ = g
    · subst he
      have hn : ¬ ∃ d ∈ s.depv.map (fun d => if d.guid = g₀ then ({} : HeldSlot) else d), d.Writes g₀ :=
        fun ⟨d, hd, hw⟩ => (hleft g₀ hg d hd hw).2 hw.1
      by_cases hw : ∃ d ∈ s.depv, d.Writes g₀
      · refine .inr ⟨.inr hw, not_or.2 ⟨hc, hn⟩, ?_⟩
        rw [if_pos ⟨rfl, hw⟩, filter_released, if_pos rfl]
      · refine .inl ⟨or_congr_right (iff_of_false hn hw), ?_⟩
        rw [if_neg fun h => hw h.2]
        rfl
    · refine .inl ⟨or_congr_right ⟨?_, ?_⟩, ?_⟩
      · rintro ⟨d, hd, hw⟩
        exact ⟨d, (hleft g hg d hd hw).1, hw⟩
      · rintro ⟨d, hd, hw⟩
        refine ⟨d, mem_map.2 ⟨d, hd, if_neg fun hd₀ => he (hd₀.symm.trans hw.1)⟩, hw⟩
      · split_ifs
        · rw [filter_released, if_neg he]
        · rfl

lemma release (h : s.Inv rank isLocalDb) (hnull : g₀ = null → ∀ d ∈ s.depv, ¬ d.Writes null) :
    (s.release rank isLocalDb g₀).Inv rank isLocalDb := by
  by_cases hc : g₀ ∈ s.created
  · exact (h.release_created hc).1
  · exact h.release_slots hc hnull

lemma destroy (h : s.Inv rank isLocalDb) : (s.destroy rank isLocalDb g₀).Inv rank isLocalDb := by
  unfold EdtDbs.destroy
  split_ifs with ht
  · have hn : g₀ ≠ null := by
      rintro rfl
      exact absurd ht (by decide)
    have h' : (s.release rank isLocalDb g₀).Inv rank isLocalDb := h.release fun he => absurd he hn
    have hout : g₀ ∉ (s.release rank isLocalDb g₀).created := by
      by_cases hc : g₀ ∈ s.created
      · exact (h.release_created hc).2 hn
      · rw [EdtDbs.release, if_neg hc]
        split <;> exact hc
    refine { h' with created := fun g hg hgn => ?_ }
    obtain ⟨h₁, h₂, h₃⟩ := h'.created g hg hgn
    have hne : g ≠ g₀ := fun he => hout (he ▸ hg)
    exact ⟨h₁, mem_filter.2 ⟨h₂, by simpa using hne⟩, h₃⟩
  · exact h

lemma create (h : s.Inv rank isLocalDb) (hn : g₀ ≠ null) (hm : g₀ ∉ s.made)
    (hs : ∀ d ∈ s.slots, ¬ d.Writes g₀) (hfit : g₀.getRank.toNat = rank ∨ isLocalDb g₀) :
    (s.create rank g₀).Inv rank isLocalDb := by
  have hno : ¬ s.Owes g₀ := not_or.2 ⟨hm, fun ⟨d, hd, hw⟩ => hs d hd hw⟩
  have hlog := h.unsettled g₀ hn (.inl hno)
  have hc : g₀ ∉ s.created := fun hc => hm (h.created g₀ hc hn).1
  have howes : ∀ g, g ≠ g₀ → ((g ∈ g₀ :: s.made ∨ ∃ d ∈ s.slots, d.Writes g) ↔ s.Owes g) := by
    intro g hne
    simp [Owes, hne]
  have hfresh : ∀ g ∈ g₀ :: s.made, ∀ d ∈ s.slots, ¬ d.Writes g :=
    forall_mem_cons.2 ⟨hs, h.fresh⟩
  unfold EdtDbs.create
  split_ifs with hr
  · have hpend : ∀ g, g ≠ g₀ → ((g ∈ s.created ++ [g₀] ∨ ∃ d ∈ s.depv, d.Writes g) ↔ s.Pending g) := by
      intro g hne
      simp [Pending, hne]
    refine ⟨h.intact, h.granted, h.held, fun g hg hgn => ?_, hfresh, fun g hg ho hp => ?_,
      fun g hg hp => ?_⟩
    · obtain hg | hg := mem_append.1 hg
      · obtain ⟨h₁, h₂, h₃, h₄⟩ := h.created g hg hgn
        have hne : g₀ ≠ g := fun he => hc (he ▸ hg)
        exact ⟨.tail _ h₁, .tail _ h₂, h₃, by simp [h₄, hne]⟩
      · obtain rfl := mem_singleton.1 hg
        exact ⟨.head _, .head _, hr, by simp [count_eq_zero.2 hc]⟩
    · have hne : g ≠ g₀ := by
        rintro rfl
        exact hp (.inl (by simp))
      exact h.settled g hg ((howes g hne).1 ho) (mt (hpend g hne).2 hp)
    · by_cases he : g = g₀
      · exact he ▸ hlog
      · exact h.unsettled g hg (hp.imp (mt (howes g he).2) (hpend g he).1)
  · refine { h with
      created := fun g hg hgn => (h.created g hg hgn).imp_left (.tail _)
      fresh := hfresh
      settled := fun g hg ho hp => ?_
      unsettled := fun g hg hp => ?_ }
    · by_cases he : g = g₀
      · subst he
        simpa [released, hfit.resolve_left hr] using hlog
      · exact h.settled g hg ((howes g he).1 ho) hp
    · by_cases he : g = g₀
      · exact he ▸ hlog
      · exact h.unsettled g hg (hp.imp_left (mt (howes g he).2))

end Inv

/-- **Every datablock that was granted in a write mode or created is released once.** -/
theorem released_once (h : ((machine rank isLocalDb).restrict (Fit rank isLocalDb)).Reachable s) :
    s.ReleasedOnce rank isLocalDb := by
  refine Inv.releasedOnce (h.invariant ?_ ?_)
  · rintro _ ⟨slots, hslots, rfl⟩
    refine ⟨rfl, hslots, fun g _ d hd hw => ⟨d, hd, hw⟩, fun g hg => (nomatch hg), fun g hg => (nomatch hg),
      fun g _ ho hp => absurd (ho.imp_left fun h => (nomatch h)) hp, fun _ _ _ => rfl⟩
  · intro s l s' _ hi hst
    obtain ⟨hfit, hst⟩ := Machine.restrict_next.1 hst
    cases l with
    | create g =>
      simp only [machine, ite_none_right_eq_some, some.injEq] at hst
      obtain ⟨⟨-, hn, hm, hs⟩, rfl⟩ := hst
      exact hi.create hn hm hs hfit
    | release g =>
      simp only [machine, ite_none_left_eq_some, some.injEq] at hst
      obtain ⟨-, rfl⟩ := hst
      exact hi.release hfit
    | destroy g =>
      simp only [machine, ite_none_left_eq_some, some.injEq] at hst
      obtain ⟨-, rfl⟩ := hst
      exact hi.destroy

/-- A datablock of rank 1 through two slots, and a control dependence with the given mode. -/
def twoSlots (control : AccessMode) : List HeldSlot :=
  [⟨make 6 1 5, some 8, .ew⟩, ⟨make 6 1 5, some 8, .ew⟩, ⟨null, none, control⟩]

lemma granted_twoSlots (control : AccessMode) : Granted (twoSlots control) := by
  have key : ∀ g, g ≠ null → ∀ d ∈ twoSlots control, d.Writes g → d.ptr = some 8 := by
    intro g hg d hd hw
    obtain rfl | rfl := by simpa [twoSlots] using hd
    · rfl
    · exact absurd hw.1.symm hg
  intro g hg d hd d' hd' hw hw'
  rw [key g hg d hd hw, key g hg d' hd' hw']
  exact ⟨rfl, rfl⟩

/-- An EDT of rank 0 creates two datablocks, destroys one of them and releases what it holds of rank 1. -/
theorem released_once_two_slots : ∃ s : EdtDbs, (s.made.length = 2 ∧ s.log.length = 2) ∧
    s.ReleasedOnce 0 fun _ => false := by
  obtain ⟨s, hs, hP⟩ := Machine.Reachable.exists_of_exec
    (M := (machine 0 fun _ => false).restrict (Fit 0 fun _ => false))
    (P := fun s : EdtDbs => s.made.length = 2 ∧ s.log.length = 2)
    (r := [.create (make 6 0 1), .create (make 6 0 2), .destroy (make 6 0 1),
      .release (make 6 1 5)])
    ⟨twoSlots .ro, granted_twoSlots .ro, rfl⟩ (by decide +kernel)
  exact ⟨s, hP, released_once hs⟩

/-- `arts_db_release(NULL_GUID)` finds the slot without a datablock, and reads the header in front of its
null pointer. -/
theorem release_crashes : ∃ s : EdtDbs, (machine 0 fun _ => false).Reachable s ∧
    ¬ s.ReleasedOnce 0 fun _ => false := by
  obtain ⟨s, hs, hP⟩ := Machine.Reachable.exists_of_exec (M := machine 0 fun _ => false)
    (P := fun s : EdtDbs => s.crashed = true) (r := [.release null])
    ⟨twoSlots .ew, granted_twoSlots .ew, rfl⟩ (by decide +kernel)
  exact ⟨s, hs, fun h => Bool.noConfusion (hP.symm.trans h.1)⟩

end EdtDbs

end Arts
