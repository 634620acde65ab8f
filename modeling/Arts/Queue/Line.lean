import Mathlib

/-!
# Waiting lines

Writers stand in a *line*, in the order of their first request; a request is *placed* behind all who
stand there, or at the place of the one who makes it.
-/

namespace Arts.Queue

open List

variable {α : Type*} {l l' : List α} {i : ℕ} {x : α}

lemma getElem?_of_prefix (h : l <+: l') (hi : l[i]? = some x) : l'[i]? = some x := by
  obtain ⟨hlt, rfl⟩ := List.getElem?_eq_some_iff.1 hi
  exact prefix_iff_getElem?.1 h i hlt

variable {n : ℕ}

lemma take_eq_of_prefix (h : l <+: l') (hn : n ≤ l.length) : l.take n = l'.take n := by
  obtain ⟨t, rfl⟩ := h
  rw [take_append_of_le_length hn]

lemma idxOf_eq_of_getElem? [DecidableEq α] (hl : l.Nodup)
    (h : l[n]? = some x) : l.idxOf x = n := by
  obtain ⟨hn, rfl⟩ := List.getElem?_eq_some_iff.1 h
  exact hl.idxOf_getElem n hn

lemma forall_mem_take_iff (hl : l.Nodup) {m p : ℕ}
    (hm : m ≤ l.length) : (∀ x ∈ l.take m, x ∈ l.take p) ↔ m ≤ p := by
  refine ⟨fun h => ?_, fun h x hx => take_subset_take_left l h hx⟩
  by_contra hlt
  have hmem : l[p] ∈ l.take p := h _ (mem_take_iff_getElem.2 ⟨p, by omega, rfl⟩)
  obtain ⟨k, hk, heq⟩ := mem_take_iff_getElem.1 hmem
  have := (List.Nodup.getElem_inj_iff hl).1 heq
  omega

variable {ρ ω : Type*} [DecidableEq ω] (who : ρ → ω) (writes : ρ → Bool)

/-- One more request: who asks to write for the first time joins the end of the line. -/
def enlist (l : List ω) (q : ρ) : List ω :=
  if writes q ∧ who q ∉ l then l ++ [who q] else l

/-- The line `l` after the requests. -/
def line (l : List ω) (qs : List ρ) : List ω := qs.foldl (enlist who writes) l

/-- The requests, each with the number of those who are ahead of it. -/
def places : List ω → List ρ → List (ρ × ℕ)
  | _, [] => []
  | l, q :: qs => (q, l.idxOf (who q)) :: places (enlist who writes l q) qs

/-- The requests at the place `n`. -/
def placed (l : List ω) (qs : List ρ) (n : ℕ) : List ρ :=
  ((places who writes l qs).filter fun x => x.2 = n).map Prod.fst

/-- The requests at the place `n` or before it. -/
def upTo (l : List ω) (qs : List ρ) (n : ℕ) : List ρ :=
  ((places who writes l qs).filter fun x => x.2 ≤ n).map Prod.fst

variable {who writes} {l : List ω} {q : ρ} {qs : List ρ} {n : ℕ} {w : ω}

/-! ### The line -/

lemma enlist_of_not_writes (h : writes q = false) : enlist who writes l q = l := by
  simp [enlist, h]

lemma enlist_of_mem (h : who q ∈ l) : enlist who writes l q = l := by
  simp [enlist, h]

lemma enlist_of_notMem (h : writes q = true) (hq : who q ∉ l) :
    enlist who writes l q = l ++ [who q] := by
  simp [enlist, h, hq]

lemma prefix_enlist : l <+: enlist who writes l q := by
  unfold enlist
  split
  · exact prefix_append _ _
  · exact prefix_rfl

lemma nodup_enlist (h : l.Nodup) : (enlist who writes l q).Nodup := by
  unfold enlist
  split
  case isTrue hq => exact nodup_append.2 ⟨h, by simp, by grind⟩
  case isFalse => exact h

lemma mem_enlist : w ∈ enlist who writes l q ↔ w ∈ l ∨ writes q = true ∧ who q = w := by
  unfold enlist
  grind

lemma take_enlist (h : l.idxOf (who q) ≤ n) :
    (enlist who writes l q).take (n + 1) = enlist who writes (l.take (n + 1)) q := by
  cases hw : writes q with
  | false => rw [enlist_of_not_writes hw, enlist_of_not_writes hw]
  | true =>
    by_cases hm : who q ∈ l
    · rw [enlist_of_mem hm, enlist_of_mem ((mem_take_iff_idxOf_lt hm).2 (by omega))]
    · rw [idxOf_eq_length hm] at h
      have hl : l.take (n + 1) = l := take_of_length_le (by omega)
      rw [hl, enlist_of_notMem hw hm, take_of_length_le (by simpa using h)]

@[simp] lemma line_nil : line who writes l [] = l := rfl

@[simp] lemma line_append (qs' : List ρ) :
    line who writes l (qs ++ qs') = line who writes (line who writes l qs) qs' := by
  simp [line]

@[simp] lemma line_singleton : line who writes l [q] = enlist who writes l q := rfl

lemma line_cons : line who writes l (q :: qs) = line who writes (enlist who writes l q) qs := rfl

lemma prefix_line : l <+: line who writes l qs := by
  induction qs generalizing l with
  | nil => exact prefix_rfl
  | cons q qs ih => exact prefix_enlist.trans ih

lemma line_prefix_line {qs' : List ρ} (h : qs <+: qs') :
    line who writes l qs <+: line who writes l qs' := by
  obtain ⟨t, rfl⟩ := h
  rw [line_append]
  exact prefix_line

lemma nodup_line (h : l.Nodup) : (line who writes l qs).Nodup := by
  induction qs generalizing l with
  | nil => exact h
  | cons q qs ih => exact ih (nodup_enlist h)

lemma mem_line : w ∈ line who writes l qs ↔ w ∈ l ∨ ∃ q ∈ qs, writes q = true ∧ who q = w := by
  induction qs generalizing l with
  | nil => simp
  | cons q qs ih =>
    rw [line_cons, ih, mem_enlist]
    simp [or_assoc]

lemma line_of_mem (h : ∀ q ∈ qs, writes q = true → who q ∈ l) : line who writes l qs = l := by
  induction qs with
  | nil => rfl
  | cons q qs ih =>
    have hq : enlist who writes l q = l := by
      cases hw : writes q with
      | false => exact enlist_of_not_writes hw
      | true => exact enlist_of_mem (h q mem_cons_self hw)
    rw [line_cons, hq]
    exact ih fun q' hq' => h q' (mem_cons_of_mem _ hq')

lemma line_of_writes_eq (hqs : ∀ q ∈ qs, writes q = true → who q = w) (hw : w ∉ l)
    (hex : ∃ q ∈ qs, writes q = true) : line who writes l qs = l ++ [w] := by
  induction qs with
  | nil => simp at hex
  | cons q qs ih =>
    have hqs' : ∀ q' ∈ qs, writes q' = true → who q' = w := fun q' h =>
      hqs q' (mem_cons_of_mem _ h)
    rw [line_cons]
    cases hq : writes q with
    | false =>
      rw [enlist_of_not_writes hq]
      exact ih hqs' (by simpa [hq] using hex)
    | true =>
      have hqw := hqs q mem_cons_self hq
      rw [enlist_of_notMem hq (hqw ▸ hw), hqw]
      exact line_of_mem fun q' h hw' => by simp [hqs' q' h hw']

/-! ### Places -/

lemma map_fst_places : (places who writes l qs).map Prod.fst = qs := by
  induction qs generalizing l with
  | nil => rfl
  | cons q qs ih => rw [places, map_cons, ih]

lemma places_append_singleton : places who writes l (qs ++ [q]) =
    places who writes l qs ++ [(q, (line who writes l qs).idxOf (who q))] := by
  induction qs generalizing l with
  | nil => rfl
  | cons q' qs ih => rw [cons_append, places, places, ih, cons_append, line_cons]

lemma getElem?_places (h : qs[i]? = some q) :
    (places who writes l qs)[i]? = some (q, (line who writes l (qs.take i)).idxOf (who q)) := by
  induction qs generalizing l i with
  | nil => simp at h
  | cons q' qs ih =>
    cases i with
    | zero =>
      obtain rfl : q' = q := by simpa using h
      rfl
    | succ i =>
      exact ih (by simpa using h)

lemma mem_places {x : ρ × ℕ} (h : x ∈ places who writes l qs) :
    ∃ i, qs[i]? = some x.1 ∧ x.2 = (line who writes l (qs.take i)).idxOf (who x.1) := by
  obtain ⟨i, hi⟩ := mem_iff_getElem?.1 h
  have hfst : (places who writes l qs).map Prod.fst = qs := map_fst_places
  have hq : qs[i]? = some x.1 := by
    rw [← hfst, getElem?_map, hi]
    rfl
  have hx := hi.symm.trans (getElem?_places hq)
  exact ⟨i, hq, congrArg Prod.snd (Option.some.inj hx)⟩

lemma place_le : (line who writes l (qs.take i)).idxOf (who q) ≤ (line who writes l qs).length :=
  idxOf_le_length.trans (line_prefix_line ( take_prefix i qs)).length_le

lemma getElem?_place_of_writes (h : qs[i]? = some q) (hw : writes q = true) :
    (line who writes l qs)[(line who writes l (qs.take i)).idxOf (who q)]? = some (who q) := by
  have hpre : line who writes l (qs.take (i + 1)) <+: line who writes l qs :=
    line_prefix_line ( take_prefix _ _)
  rw [take_add_one, h, Option.toList_some, line_append, line_singleton] at hpre
  refine getElem?_of_prefix hpre ?_
  by_cases hm : who q ∈ line who writes l (qs.take i)
  · rw [enlist_of_mem hm]
    exact getElem?_idxOf hm
  · rw [enlist_of_notMem hw hm, idxOf_eq_length hm, getElem?_concat_length]

lemma placed_append_singleton : placed who writes l (qs ++ [q]) n =
    placed who writes l qs n ++ if (line who writes l qs).idxOf (who q) = n then [q] else [] := by
  rw [placed, places_append_singleton, filter_append, map_append, placed]
  by_cases h : (line who writes l qs).idxOf (who q) = n <;> simp [h]

lemma upTo_append_singleton : upTo who writes l (qs ++ [q]) n =
    upTo who writes l qs n ++ if (line who writes l qs).idxOf (who q) ≤ n then [q] else [] := by
  rw [upTo, places_append_singleton, filter_append, map_append, upTo]
  by_cases h : (line who writes l qs).idxOf (who q) ≤ n <;> simp [h]

lemma upTo_succ : (upTo who writes l qs (n + 1)).Perm
    (upTo who writes l qs n ++ placed who writes l qs (n + 1)) := by
  rw [upTo, upTo, placed, ← map_append]
  refine List.Perm.map _ ?_
  induction places who writes l qs with
  | nil => simp
  | cons x xs ih =>
    by_cases hle : x.2 ≤ n
    · have : x.2 ≠ n + 1 := by omega
      simpa [hle, this, Nat.le_succ_of_le hle] using ih
    · by_cases heq : x.2 = n + 1
      · simpa [heq] using (ih.cons x).trans perm_middle.symm
      · have : ¬ x.2 ≤ n + 1 := by omega
        simpa [hle, heq, this] using ih

lemma upTo_sublist : (upTo who writes l qs n).Sublist qs := by
  have h : ((places who writes l qs).filter fun x => decide (x.2 ≤ n)).Sublist
      (places who writes l qs) := filter_sublist
  have h' := h.map Prod.fst
  rwa [map_fst_places] at h'

lemma mem_placed : q ∈ placed who writes l qs n ↔
    ∃ i, qs[i]? = some q ∧ (line who writes l (qs.take i)).idxOf (who q) = n := by
  simp only [placed, mem_map, mem_filter, decide_eq_true_eq]
  constructor
  · rintro ⟨x, ⟨hx, rfl⟩, rfl⟩
    obtain ⟨i, hi, hp⟩ := mem_places hx
    exact ⟨i, hi, hp.symm⟩
  · rintro ⟨i, hi, rfl⟩
    exact ⟨_, ⟨mem_of_getElem? (getElem?_places hi), rfl⟩, rfl⟩

lemma mem_upTo : q ∈ upTo who writes l qs n ↔
    ∃ i, qs[i]? = some q ∧ (line who writes l (qs.take i)).idxOf (who q) ≤ n := by
  simp only [upTo, mem_map, mem_filter, decide_eq_true_eq]
  constructor
  · rintro ⟨x, ⟨hx, hn⟩, rfl⟩
    obtain ⟨i, hi, hp⟩ := mem_places hx
    exact ⟨i, hi, hp ▸ hn⟩
  · rintro ⟨i, hi, hn⟩
    exact ⟨_, ⟨mem_of_getElem? (getElem?_places hi), hn⟩, rfl⟩

/-- If no request is made twice, the requests up to the place `n` are those with such a place. -/
theorem mem_upTo_iff_of_nodup (hqs : qs.Nodup) (h : qs[i]? = some q) :
    q ∈ upTo who writes l qs n ↔ (line who writes l (qs.take i)).idxOf (who q) ≤ n := by
  refine ⟨fun hm => ?_, fun hn => mem_upTo.2 ⟨i, h, hn⟩⟩
  obtain ⟨j, hj, hn⟩ := mem_upTo.1 hm
  obtain rfl : i = j := by
    have hi := (List.getElem?_eq_some_iff.1 h).1
    exact (getElem?_inj hi hqs).1 (h.trans hj.symm)
  exact hn

lemma getElem?_line_of_mem_placed (h : q ∈ placed who writes l qs n) (hw : writes q = true) :
    (line who writes l qs)[n]? = some (who q) := by
  obtain ⟨i, hi, rfl⟩ := mem_placed.1 h
  exact getElem?_place_of_writes hi hw

lemma exists_mem_placed (hl : l.Nodup) (hn : l.length ≤ n)
    (h : (line who writes l qs)[n]? = some w) :
    ∃ q ∈ placed who writes l qs n, writes q = true ∧ who q = w := by
  have hnd : (line who writes l qs).Nodup := nodup_line hl
  have hlen := (List.getElem?_eq_some_iff.1 h).1
  rcases mem_line.1 (mem_of_getElem? h) with hm | ⟨q, hq, hw, rfl⟩
  · obtain ⟨k, hk⟩ := mem_iff_getElem?.1 hm
    have hk' := (List.getElem?_eq_some_iff.1 hk).1
    have hlk : (line who writes l qs)[k]? = some w :=
      getElem?_of_prefix prefix_line hk
    have : n = k := (getElem?_inj hlen hnd).1 (h.trans hlk.symm)
    omega
  · obtain ⟨i, hi⟩ := mem_iff_getElem?.1 hq
    have hp : n = (line who writes l (qs.take i)).idxOf (who q) :=
      (getElem?_inj hlen hnd).1 (h.trans (getElem?_place_of_writes hi hw).symm)
    exact ⟨q, mem_placed.2 ⟨i, hi, hp.symm⟩, hw, rfl⟩

end Arts.Queue
