import Arts.Db.Cdag

/-!
# Renaming a datablock

`arts_db_rename_with_guid` moves a datablock to another GUID; slots and the list of its creator keep
the old one. Nobody notices if the creator has released it and nobody waits
(**`RenameDb.transparent_of_fit`**).
-/

namespace Arts

open List Function Option

/-- The two GUIDs of a datablock that is renamed. -/
inductive DbName where
  | old
  | new
  deriving DecidableEq

/-- A datablock, its two items in the route table, and the EDTs of its rank that access it. -/
structure RenameDb where
  cdag : Cdag := ⟨autoAcquired, [], [], []⟩
  /-- `db->guid` -/
  name : DbName := .old
  /-- The block that an item leads to. -/
  data : DbName → Option ℕ
  /-- The references that an item counts. -/
  count : DbName → ℤ := fun _ => 0
  /-- The entry of the creator's `created_db_list`. -/
  created : Option DbName := some .old
  /-- The GUID in the slot. -/
  depv : Acquire → DbName := fun _ => .old
  /-- The slots that have a pointer, and their GUIDs. -/
  held : List (Acquire × DbName) := []
  /-- The EDTs that have ended, or released the datablock before. -/
  ended : List Writer := []

lemma Cdag.Inv.granted_subset {c : Cdag} (h : c.Inv) : c.granted ⊆ c.requests := fun _ hq =>
  Queue.upTo_sublist.subset (h.granted.subset hq)

lemma Cdag.Inv.nodup_granted {c : Cdag} (h : c.Inv) : c.granted.Nodup :=
  h.granted.nodup_iff.2 (Queue.upTo_sublist.nodup h.nodup)

namespace RenameDb

variable (self : ℕ)

/-- `acquire_dbs`, for a slot with the GUID that is valid. -/
def acquire (s : RenameDb) (a : Acquire) (flags : UInt32) : RenameDb :=
  let c := s.cdag.acquire self a flags
  let s := { s with cdag := c, depv := update s.depv a s.name }
  if a ∈ c.granted then
    { s with
      held := s.held ++ [(a, s.name)]
      count := update s.count s.name (s.count s.name + 1) }
  else s

/-- `arts_progress_frontier`: the references are taken from the item of `db->guid`. -/
def progress (s : RenameDb) (w : Writer) : RenameDb :=
  let c := s.cdag.release self w
  let served := c.granted.drop s.cdag.granted.length
  { s with
    cdag := c
    held := s.held ++ served.map fun a => (a, s.depv a)
    count := update s.count s.name (s.count s.name + served.length) }

/-- `release_dbs`: every GUID under which the EDT writes is released once, and the references are given
back under the GUIDs of the slots. -/
def release (s : RenameDb) (e : EdtGuid) : RenameDb :=
  let names := ((s.held.filter fun p => p.1.edt = e ∧ p.1.isWrite).map Prod.snd).dedup
  let s := names.foldl (fun s _ => s.progress self (.edt e)) s
  { s with
    held := s.held.filter fun p => p.1.edt ≠ e
    count := fun n => s.count n - s.held.countP fun p => p.1.edt = e ∧ p.2 = n
    ended := s.ended ++ [.edt e] }

/-- `arts_release_created_dbs`, or `arts_db_release` by the creator. A lookup of an empty item takes a
reference. -/
def releaseCreated (s : RenameDb) (n : DbName) : RenameDb :=
  let s :=
    if (s.data n).isSome then s.progress self .creator
    else { s with count := update s.count n (s.count n + 1) }
  { s with created := none, ended := s.ended ++ [.creator] }

/-- `arts_db_rename_with_guid`; `arts_route_table_hide_item` empties the old item. -/
def rename (s : RenameDb) : RenameDb :=
  { s with
    name := .new
    data := fun
      | .old => none
      | .new => s.data .old }

inductive Act where
  | acquire (a : Acquire) (flags : UInt32)
  | release (e : EdtGuid)
  | releaseCreated
  | rename

/-- An EDT ends when it has been granted what it has asked for. -/
def next (s : RenameDb) : Act → Option RenameDb
  | .acquire a flags =>
    if (a.mode = .ro ∨ a.mode = .ew) ∧ (∀ b ∈ s.cdag.requests, (b.edt, b.slot) ≠ (a.edt, a.slot)) ∧
        a.writer ∉ s.ended then
      some (s.acquire self a flags)
    else none
  | .release e =>
    if .edt e ∉ s.ended ∧ ∀ q ∈ s.cdag.requests, q.edt = e → q ∈ s.cdag.granted then
      some (s.release self e)
    else none
  | .releaseCreated => s.created.map (s.releaseCreated self)
  | .rename => if s.name = .old then some s.rename else none

/-- A datablock at the address `block` that an EDT has just created. -/
def machine (block : ℕ) : Machine RenameDb Act where
  init s := s = { data := fun
    | .old => some block
    | .new => none }
  next := next self

/-- **The condition on the steps**: at the rename the creator has released and nobody waits, and an EDT
does not use both GUIDs. -/
def Fit (s : RenameDb) : Act → Prop
  | .acquire a _ => ∀ q ∈ s.cdag.requests, q.edt = a.edt → s.depv q = s.name
  | .rename => s.created = none ∧ ∀ q ∈ s.cdag.requests, q ∈ s.cdag.granted
  | _ => True

instance (s : RenameDb) : (l : Act) → Decidable (s.Fit l)
  | .acquire _ _ => inferInstanceAs (Decidable (∀ _ ∈ _, _))
  | .rename => inferInstanceAs (Decidable (_ ∧ _))
  | .release _ | .releaseCreated => isTrue trivial

/-- **The rename is not noticed.** -/
structure Transparent (block : ℕ) (s : RenameDb) : Prop where
  block : s.data s.name = some block
  released : ∀ w ∈ s.ended, ¬ s.cdag.Holds w
  granted : ∀ i q, s.cdag.requests[i]? = some q →
    (∀ w ∈ ahead s.cdag.requests i q, w ∈ s.ended) → q ∈ s.cdag.granted
  references : ∀ n, s.count n = s.held.countP fun p => p.2 = n

/-- The slots, their GUIDs and their references. -/
structure Slots (s : RenameDb) : Prop where
  cdag : s.cdag.Inv
  waiting : ∀ q ∈ s.cdag.requests, q ∉ s.cdag.granted → s.depv q = s.name ∧ q.writer ∉ s.ended
  one : ∀ q ∈ s.cdag.requests, ∀ q' ∈ s.cdag.requests, q.edt = q'.edt → s.depv q = s.depv q'
  held : ∀ p, p ∈ s.held ↔ p.1 ∈ s.cdag.granted ∧ p.2 = s.depv p.1 ∧ p.1.writer ∉ s.ended
  references : ∀ n, s.count n = s.held.countP fun p => p.2 = n

structure Inv (block : ℕ) (s : RenameDb) : Prop extends Slots s where
  block : s.data s.name = some block
  created : s.created = none ∧ .creator ∈ s.ended ∨ s.created = some s.name ∧ .creator ∉ s.ended
  ended : ∀ w ∈ writers s.cdag.requests, w ∈ s.ended ↔ w ∈ s.cdag.released

section Step

variable {self} {block : ℕ} {s : RenameDb} {a : Acquire} {w : Writer} {e : EdtGuid}

lemma Inv.transparent (h : s.Inv block) : s.Transparent block where
  __ := h
  released w hw hh := by
    have hmem : w ∈ writers s.cdag.requests := mem_of_mem_take (h.cdag.order ▸ hh.1)
    exact hh.2 ((h.ended w hmem).1 hw)
  granted i q hq hw := by
    have hreq : ∀ w ∈ ahead s.cdag.requests i q, w ∈ writers s.cdag.requests := fun w hw =>
      (Cdag.writers_take_isPrefix_writers _ i).subset (mem_of_mem_take hw)
    have hc := h.cdag.count_granted hq
    rw [if_pos fun w hm => (h.ended w (hreq w hm)).1 (hw w hm)] at hc
    exact count_pos_iff.1 (hc ▸ Nat.one_pos)

namespace Slots

lemma progress (h : s.Slots) (hw : s.cdag.Holds w) : (s.progress self w).Slots := by
  have hc : (s.cdag.release self w).Inv := h.cdag.release (h.cdag.getElem?_of_holds hw)
  obtain ⟨served, hs⟩ : ∃ l, (s.cdag.release self w).granted = s.cdag.granted ++ l := ⟨_, rfl⟩
  have hdrop : (s.cdag.release self w).granted.drop s.cdag.granted.length = served := by
    rw [hs, drop_left]
  have hnew : ∀ a ∈ served, a ∈ s.cdag.requests ∧ a ∉ s.cdag.granted := by
    intro a ha
    have hsub := hc.granted_subset
    have hnd := hc.nodup_granted
    rw [hs] at hsub hnd
    exact ⟨hsub (mem_append_right _ ha), fun ha' => (nodup_append.1 hnd).2.2 a ha' a ha rfl⟩
  have hname : ∀ a ∈ served, s.depv a = s.name ∧ a.writer ∉ s.ended := fun a ha =>
    h.waiting a (hnew a ha).1 (hnew a ha).2
  unfold RenameDb.progress
  simp only [hdrop]
  refine ⟨hc, fun q hq hg => h.waiting q hq fun hg' => hg (by simp [hs, hg']), h.one, fun p => ?_,
    fun n => ?_⟩
  · simp only [hs, List.mem_append, h.held, List.mem_map]
    constructor
    · rintro (⟨hg, hp⟩ | ⟨a, ha, rfl⟩)
      · exact ⟨.inl hg, hp⟩
      · exact ⟨.inr ha, rfl, (hname a ha).2⟩
    · rintro ⟨hg | hg, hp⟩
      · exact .inl ⟨hg, hp⟩
      · exact .inr ⟨p.1, hg, by rw [← hp.1]⟩
  · have hmap : (served.map fun a => (a, s.depv a)).countP (fun p => p.2 = n) =
        if s.name = n then served.length else 0 := by
      rw [countP_map]
      split_ifs with hn
      · exact countP_eq_length.2 fun a ha => by simp [(hname a ha).1, hn]
      · exact countP_eq_zero.2 fun a ha => by simp [(hname a ha).1, hn]
    rw [countP_append, hmap]
    by_cases hn : s.name = n
    · subst hn
      simp [h.references]
    · simp [update_of_ne (Ne.symm hn), h.references, hn]

lemma finish (h : s.Slots) (hall : ∀ q ∈ s.cdag.requests, q.edt = e → q ∈ s.cdag.granted) :
    ({ s with
      held := s.held.filter fun p => p.1.edt ≠ e
      count := fun n => s.count n - s.held.countP fun p => p.1.edt = e ∧ p.2 = n
      ended := s.ended ++ [.edt e] } : RenameDb).Slots := by
  have hne : ∀ q : Acquire, q.writer ∉ s.ended ++ [.edt e] ↔ q.writer ∉ s.ended ∧ q.edt ≠ e := by
    intro q
    simp [Acquire.writer]
  refine ⟨h.cdag, fun q hq hg => ⟨(h.waiting q hq hg).1, ?_⟩, h.one, fun p => ?_, fun n => ?_⟩
  · exact (hne q).2 ⟨(h.waiting q hq hg).2, fun he => hg (hall q hq he)⟩
  · rw [mem_filter, h.held, hne]
    simp only [decide_eq_true_eq]
    tauto
  · have key : s.held.countP (fun p => p.2 = n) = (s.held.filter fun p => p.1.edt ≠ e).countP
        (fun p => p.2 = n) + s.held.countP fun p => p.1.edt = e ∧ p.2 = n := by
      rw [countP_eq_countP_filter_add s.held _ fun p => p.1.edt ≠ e]
      congr 1
      rw [countP_filter]
      congr 1
      simp [and_comm]
    have hn := h.references n
    dsimp only
    omega

lemma acquire (h : s.Slots) (hreq : ∀ b ∈ s.cdag.requests, (b.edt, b.slot) ≠ (a.edt, a.slot))
    (ha : a.writer ∉ s.ended) (hrel : a.writer ∉ s.cdag.released)
    (hfit : ∀ q ∈ s.cdag.requests, q.edt = a.edt → s.depv q = s.name) (flags : UInt32) :
    (s.acquire self a flags).Slots := by
  have hnew : a ∉ s.cdag.requests := fun hm => hreq a hm rfl
  have hc : (s.cdag.acquire self a flags).Inv := h.cdag.acquire hnew hrel
  have hng : a ∉ s.cdag.granted := fun hg => hnew (h.cdag.granted_subset hg)
  have hdepv : ∀ q ∈ s.cdag.requests, update s.depv a s.name q = s.depv q := by
    intro q hq
    refine update_of_ne ?_ _ _
    rintro rfl
    exact hnew hq
  have hone : ∀ q ∈ s.cdag.requests ++ [a], ∀ q' ∈ s.cdag.requests ++ [a], q.edt = q'.edt →
      update s.depv a s.name q = update s.depv a s.name q' := by
    have hname : ∀ q ∈ s.cdag.requests ++ [a], q.edt = a.edt →
        update s.depv a s.name q = s.name := by
      intro q hq he
      obtain hq | rfl := by simpa using hq
      · exact (hdepv q hq).trans (hfit q hq he)
      · exact update_self ..
    have hmem : ∀ q ∈ s.cdag.requests ++ [a], q.edt ≠ a.edt → q ∈ s.cdag.requests := by
      intro q hq he
      obtain hq | rfl := by simpa using hq
      · exact hq
      · exact absurd rfl he
    intro q hq q' hq' he
    by_cases ha' : q.edt = a.edt
    · rw [hname q hq ha', hname q' hq' (he ▸ ha')]
    · have hq := hmem q hq ha'
      have hq' := hmem q' hq' (he ▸ ha')
      rw [hdepv q hq, hdepv q' hq', h.one q hq q' hq' he]
  have hwait : ∀ q ∈ s.cdag.requests ++ [a], q ∉ s.cdag.granted →
      update s.depv a s.name q = s.name ∧ q.writer ∉ s.ended := by
    intro q hq hg
    obtain hq | rfl := by simpa using hq
    · rw [hdepv q hq]
      exact h.waiting q hq hg
    · exact ⟨update_self .., ha⟩
  have hheld : ∀ p : Acquire × DbName, p ∈ s.held ↔ p.1 ∈ s.cdag.granted ∧
      p.2 = update s.depv a s.name p.1 ∧ p.1.writer ∉ s.ended := by
    intro p
    rw [h.held]
    refine and_congr_right fun hg => ?_
    rw [hdepv p.1 (h.cdag.granted_subset hg)]
  unfold RenameDb.acquire
  obtain hs | hs : (s.cdag.acquire self a flags).granted = s.cdag.granted ∨
      (s.cdag.acquire self a flags).granted = s.cdag.granted ++ [a] := by
    unfold Cdag.acquire
    simp only
    split_ifs <;> simp
  · simp only [hs, if_neg hng]
    exact ⟨hc, fun q hq hg => hwait q hq (hs ▸ hg), hone, fun p => hs ▸ hheld p, h.references⟩
  · simp only [hs, mem_append, mem_singleton, or_true, if_true]
    refine ⟨hc, fun q hq hg => hwait q hq fun hg' => hg (by simp [hs, hg']), hone, fun p => ?_, fun n => ?_⟩
    · simp only [hs, mem_append, mem_singleton, hheld]
      constructor
      · rintro (⟨hg, hp⟩ | rfl)
        · exact ⟨.inl hg, hp⟩
        · exact ⟨.inr rfl, by simp, ha⟩
      · rintro ⟨hg | hg, hp⟩
        · exact .inl ⟨hg, hp⟩
        · refine .inr (Prod.ext hg (hp.1.trans ?_))
          rw [hg, update_self]
    · by_cases hn : s.name = n
      · subst hn
        simp [h.references]
      · simp [update_of_ne (Ne.symm hn), h.references, hn]

end Slots

namespace Inv

lemma acquire (h : s.Inv block) (hreq : ∀ b ∈ s.cdag.requests, (b.edt, b.slot) ≠ (a.edt, a.slot))
    (ha : a.writer ∉ s.ended) (hfit : ∀ q ∈ s.cdag.requests, q.edt = a.edt → s.depv q = s.name)
    (flags : UInt32) : (s.acquire self a flags).Inv block := by
  have hrel : a.writer ∉ s.cdag.released := by
    intro hr
    have hm : a.writer ∈ writers s.cdag.requests := mem_of_mem_take (h.cdag.released ▸ hr)
    exact ha ((h.ended _ hm).2 hr)
  have hend : ∀ w ∈ writers (s.cdag.requests ++ [a]), w ∈ s.ended ↔ w ∈ s.cdag.released := by
    intro w hw
    rw [Cdag.writers_append_singleton, Queue.mem_enlist] at hw
    obtain hw | ⟨-, rfl⟩ := hw
    · exact h.ended w hw
    · exact iff_of_false ha hrel
  refine ⟨h.toSlots.acquire hreq ha hrel hfit flags, ?_, ?_, ?_⟩ <;> unfold RenameDb.acquire <;> dsimp only <;>
    split_ifs
  all_goals first | exact h.block | exact h.created | exact hend

lemma names_eq (h : s.Inv block) (hend : .edt e ∉ s.ended)
    (hall : ∀ q ∈ s.cdag.requests, q.edt = e → q ∈ s.cdag.granted) :
    (((s.held.filter fun p => p.1.edt = e ∧ p.1.isWrite).map Prod.snd).dedup = [] ∧
      .edt e ∉ writers s.cdag.requests) ∨
    (∃ n, ((s.held.filter fun p => p.1.edt = e ∧ p.1.isWrite).map Prod.snd).dedup = [n]) ∧
      s.cdag.Holds (.edt e) := by
  have hmem : ∀ n, n ∈ ((s.held.filter fun p => p.1.edt = e ∧ p.1.isWrite).map Prod.snd).dedup ↔
      ∃ q ∈ s.cdag.granted, q.edt = e ∧ q.isWrite = true ∧ n = s.depv q := by
    intro n
    simp only [List.mem_dedup, List.mem_map, List.mem_filter, h.held, decide_eq_true_eq, Prod.exists,
      exists_eq_right]
    refine exists_congr fun q => ⟨?_, ?_⟩
    · rintro ⟨⟨hg, hn, -⟩, he, hw⟩
      exact ⟨hg, he, hw, hn⟩
    · rintro ⟨hg, rfl, hw, hn⟩
      exact ⟨⟨hg, hn, hend⟩, rfl, hw⟩
  by_cases hw : ∃ q ∈ s.cdag.granted, q.edt = e ∧ q.isWrite = true
  · obtain ⟨q, hq, rfl, hqw⟩ := hw
    have hm : q.writer ∈ writers s.cdag.granted := Queue.mem_line.2 (.inr ⟨q, hq, hqw, rfl⟩)
    have hm' : q.writer ∈ writers s.cdag.requests := mem_of_mem_take (h.cdag.order ▸ hm)
    refine .inr ⟨⟨s.depv q, ?_⟩, hm, mt (h.ended _ hm').2 hend⟩
    refine perm_singleton.1 ((perm_ext_iff_of_nodup (nodup_dedup _)
      (nodup_singleton _)).2 fun n => (hmem n).trans ⟨?_, fun hn => ?_⟩)
    · rintro ⟨q', hq', he, -, rfl⟩
      exact mem_singleton.2
        (h.one q' (h.cdag.granted_subset hq') q (h.cdag.granted_subset hq) he)
    · exact ⟨q, hq, rfl, hqw, mem_singleton.1 hn⟩
  · refine .inl ⟨eq_nil_iff_forall_not_mem.2 fun n hn => ?_, fun hm => ?_⟩
    · obtain ⟨q, hq, he, hqw, -⟩ := (hmem n).1 hn
      exact hw ⟨q, hq, he, hqw⟩
    · obtain hm | ⟨q, hq, hqw, he⟩ := Queue.mem_line.1 hm
      · simp at hm
      · exact hw ⟨q, hall q hq (Writer.edt.inj he), Writer.edt.inj he, hqw⟩

lemma release (h : s.Inv block) (hend : .edt e ∉ s.ended)
    (hall : ∀ q ∈ s.cdag.requests, q.edt = e → q ∈ s.cdag.granted) :
    (s.release self e).Inv block := by
  have hcr : ∀ l : List Writer, .creator ∈ l ++ [.edt e] ↔ .creator ∈ l := fun l => by simp
  have hmem : ∀ (l : List Writer) w, w ∈ l ++ [.edt e] ↔ w ∈ l ∨ w = .edt e := fun l w => by simp
  unfold RenameDb.release
  obtain ⟨hn, hw⟩ | ⟨⟨n, hn⟩, hw⟩ := h.names_eq hend hall
  · rw [hn]
    refine ⟨h.toSlots.finish hall, h.block, ?_, fun w hm => ?_⟩
    · simp only [hcr]
      exact h.created
    · have hne : w ≠ .edt e := fun he => hw (he ▸ hm)
      rw [hmem, or_iff_left hne]
      exact h.ended w hm
  · rw [hn]
    have hs : (s.progress self (.edt e)).Slots := h.toSlots.progress hw
    refine ⟨hs.finish fun q hq he => mem_append_left _ (hall q hq he), h.block, ?_, fun w hm => ?_⟩
    · simp only [hcr]
      exact h.created
    · rw [hmem]
      exact (or_congr_left (h.ended w hm)).trans (hmem s.cdag.released w).symm

lemma releaseCreated (h : s.Inv block) {n : DbName} (hc : s.created = some n) :
    (s.releaseCreated self n).Inv block := by
  obtain ⟨hn, -⟩ | ⟨hn, hend⟩ := h.created
  · exact absurd (hn.symm.trans hc) (by simp)
  obtain rfl : s.name = n := some.inj (hn.symm.trans hc)
  have hm : ∀ qs, Writer.creator ∈ writers qs := fun qs => Queue.mem_line.2 (.inl (by simp))
  have hw : s.cdag.Holds .creator := ⟨hm _, mt (h.ended _ (hm _)).2 hend⟩
  have hs : (s.progress self .creator).Slots := h.toSlots.progress hw
  have hmem : ∀ (l : List Writer) w, w ∈ l ++ [.creator] ↔ w ∈ l ∨ w = .creator := fun l w => by simp
  have hne : ∀ q : Acquire, q.writer ∉ s.ended ++ [.creator] ↔ q.writer ∉ s.ended := fun q => by
    simp [Acquire.writer]
  rw [RenameDb.releaseCreated, h.block, isSome_some, if_pos rfl]
  refine ⟨⟨hs.cdag, fun q hq hg => ?_, hs.one, fun p => ?_, hs.references⟩, h.block, .inl ⟨rfl, by simp⟩,
    fun w hm => ?_⟩
  · exact ⟨(hs.waiting q hq hg).1, (hne q).2 (hs.waiting q hq hg).2⟩
  · rw [hs.held]
    exact and_congr_right fun _ => and_congr_right fun _ => (hne p.1).symm
  · rw [hmem]
    exact (or_congr_left (h.ended w hm)).trans (hmem s.cdag.released w).symm

lemma rename (h : s.Inv block) (hname : s.name = .old) (hc : s.created = none)
    (hall : ∀ q ∈ s.cdag.requests, q ∈ s.cdag.granted) : s.rename.Inv block where
  toSlots := { h with waiting := fun q hq hg => absurd (hall q hq) hg }
  block := by
    rw [← h.block, hname]
    rfl
  created := by
    obtain hc' | hc' := h.created
    · exact .inl hc'
    · exact absurd (hc.symm.trans hc'.1) (by simp)
  ended := h.ended

end Inv

/-- **A rename is transparent** if the creator has released the datablock and nobody waits for it. -/
theorem transparent_of_fit (h : ((machine self block).restrict Fit).Reachable s) : s.Transparent block := by
  refine Inv.transparent (h.invariant ?_ ?_)
  · rintro _ rfl
    refine ⟨⟨Cdag.Inv.init, nofun, nofun, fun p => ?_, fun n => rfl⟩, rfl, .inr ⟨rfl, nofun⟩, ?_⟩
    · simp
    · simp
  · intro s l s' _ hi hst
    obtain ⟨hfit, hst⟩ := Machine.restrict_next.1 hst
    cases l with
    | acquire a flags =>
      obtain ⟨⟨-, hreq, ha⟩, ⟨⟩⟩ := ite_none_right_eq_some.1 hst
      exact hi.acquire hreq ha hfit flags
    | release e =>
      obtain ⟨⟨hend, hall⟩, ⟨⟩⟩ := ite_none_right_eq_some.1 hst
      exact hi.release hend hall
    | releaseCreated =>
      obtain ⟨n, hn, rfl⟩ := map_eq_some_iff.1 hst
      exact hi.releaseCreated hn
    | rename =>
      obtain ⟨hname, ⟨⟩⟩ := ite_none_right_eq_some.1 hst
      exact hi.rename hname hfit.1 hfit.2

end Step

/-- The EDT 1 writes the datablock while it is renamed, and the EDT 2 reads it under the new GUID.
-/
theorem transparent_two_edts : ∃ s : RenameDb, (s.name = .new ∧ s.count .new = 1 ∧ s.held.length = 1) ∧
    s.Transparent 8 := by
  obtain ⟨s, hs, hP⟩ := Machine.Reachable.exists_of_exec (M := (machine 0 8).restrict Fit)
    (P := fun s : RenameDb => s.name = .new ∧ s.count .new = 1 ∧ s.held.length = 1)
    (r := [.acquire ⟨.ofKey 1, 0, .ew⟩ 0, .releaseCreated, .rename, .acquire ⟨.ofKey 2, 0, .ro⟩ 0,
      .release (.ofKey 1)]) rfl (by decide +kernel)
  exact ⟨s, hP, transparent_of_fit hs⟩

/-- **A creator that renames its datablock holds it for ever**; and a reference is given back to the
other item. -/
theorem rename_blocks :
    (∃ s, (machine 0 8).Reachable s ∧ Writer.creator ∈ s.ended ∧ s.cdag.Holds .creator ∧
      ¬ s.Transparent 8) ∧
    ∃ s, (machine 0 8).Reachable s ∧ s.held = [] ∧ s.count .new = 1 ∧ s.count .old = -1 := by
  constructor
  · obtain ⟨s, hs, he, hh⟩ := Machine.Reachable.exists_of_exec (M := machine 0 8)
      (P := fun s : RenameDb => Writer.creator ∈ s.ended ∧ s.cdag.Holds .creator)
      (r := [.rename, .acquire ⟨.ofKey 1, 0, .ro⟩ 0, .releaseCreated]) rfl (by decide +kernel)
    exact ⟨s, hs, he, hh, fun ht => ht.released _ he hh⟩
  · exact Machine.Reachable.exists_of_exec
      (r := [.acquire ⟨.ofKey 1, 0, .ew⟩ 0, .acquire ⟨.ofKey 2, 0, .ew⟩ 0, .releaseCreated, .rename,
        .release (.ofKey 1), .release (.ofKey 2)]) rfl (by decide +kernel)

end RenameDb

end Arts
