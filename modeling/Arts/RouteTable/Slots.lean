import Arts.Machine.Cells
import Arts.RouteTable.Table

/-!
# Writing the slots of a route table

`Chain.Wrote`: one slot of a key is written, after a table may have been added. `Chain.Shows T f
m`: what the *view* `f` shows of the slots is the map `m`, with every key where it is looked for.
-/

namespace Arts

open List Function Option

variable {δ V : Type*}

/-! ### Slots -/

namespace Slot

variable {s : Slot δ} {n : ℕ}
lemma markReserve_eq (h : s.lock = 0) (used : Bool) :
    (s.markReserve used).1 = { s with lock := word 4 used.toNat } := by
  have hor : 0 ||| reservedItem = word 4 0 := by decide
  have hadd : reservedItem + 1 = word 4 1 := by decide
  cases used <;> simp [markReserve, h, hor, hadd]

lemma fill_eq (h : s.lock = word 4 n) (hn : n < 2 ^ 61) (item : Option δ) (rank : UInt32) :
    s.fill item rank = { s with lock := word 2 n, data := item, rank := rank } := by
  obtain ⟨hres, hlock⟩ := word_write (.inl rfl) hn
  simp [fill, markWrite, h, if_pos hres, hlock]

lemma incItem_eq {t : ℕ} (ht : t = 4 ∨ t = 2) (h : s.lock = word t n) (hn : n < 2 ^ 61) :
    ∃ n' < 2 ^ 61, n ≤ n' ∧ s.incItem 1 s.key = { s with lock := word t n' } := by
  by_cases hmax : n + 2 < 2 ^ 61
  · have hdel : isDel (word t n) = false := by
      rw [isDel_word (by omega) hn]
      rcases ht with rfl | rfl <;> rfl
    have hcheck := (checkMaxItem_word (s := t) hn).2 hmax
    have hadd : word t n + 1 = word t (n + 1) := pack_add_one
    exact ⟨n + 1, by omega, by omega, by simp [incItem, h, hdel, hcheck, hadd]⟩
  · have hcheck : checkMaxItem s.lock = false :=
      Bool.eq_false_iff.2 fun hc => hmax ((checkMaxItem_word hn).1 (h ▸ hc))
    refine ⟨n, hn, Nat.le_refl n, ?_⟩
    rw [← h]
    simp [incItem, hcheck]

lemma markDelete_eq (h : s.lock = word 2 n) (hn : n < 2 ^ 61) :
    s.markDelete = { s with lock := word 3 n } := by
  rw [markDelete, h, word_or_delete hn]
  rfl

end Slot

lemma shouldDelete_word {n : ℕ} (hn : n < 2 ^ 61) : shouldDelete (word 3 n) ↔ n = 0 := by
  rw [shouldDelete, isDel_word (by decide) hn, Bool.and_eq_true, beq_iff_eq, getCount_eq_zero hn]
  exact and_iff_right rfl

/-! ### Writing a slot -/

namespace Chain

variable {T T' : Chain δ} {key : Guid} {p : SlotRef} {s : Slot δ}

/-- The chain after a slot of the key was written, and maybe a table added. -/
structure Wrote (T T' : Chain δ) (key : Guid) (p : SlotRef) (s : Slot δ) : Prop where
  shape : T'.shape = T.shape ∨ T'.shape = T.grow.shape
  mem : p ∈ T'.candidates key
  slot : T'.slotAt = update T.slotAt p s

namespace Wrote

lemma modify (hp : p ∈ T.candidates key) (f : Slot δ → Slot δ) :
    Wrote T (T.modifySlot p f) key p (f (T.slotAt p)) where
  shape := .inl (shape_modifySlot T p f)
  mem := by rwa [candidates_congr (shape_modifySlot T p f)]
  slot := slotAt_modifySlot (lt_length_of_mem hp) f

lemma again (h : Wrote T T' key p s) (f : Slot δ → Slot δ) :
    Wrote T (T'.modifySlot p f) key p (f s) where
  shape := by
    rw [shape_modifySlot]
    exact h.shape
  mem := by
    rw [candidates_congr (shape_modifySlot T' p f)]
    exact h.mem
  slot := by
    rw [slotAt_modifySlot (lt_length_of_mem h.mem), h.slot, update_self,
      update_idem]

lemma mono (h : Wrote T T' key p s) {k : Guid} {q : SlotRef} (hq : q ∈ T.candidates k) :
    q ∈ T'.candidates k := by
  rcases h.shape with hs | hs
  · rwa [candidates_congr hs]
  · rw [candidates_congr hs]
    exact mem_candidates_grow hq

end Wrote

/-- **An empty slot is reserved for the key.** -/
theorem searchForEmpty_wrote (hT : T ≠ []) (key : Guid) (used : Bool) : ∃ T' p,
    T.searchForEmpty key used = some (T', p) ∧ (T.slotAt p).lock = 0 ∧
      Wrote T T' key p { T.slotAt p with lock := word 4 used.toNat, key := key } := by
  obtain ⟨G, p, hG, hmem, hlock, heq⟩ := searchForEmpty_eq hT key used
  have hslot : G.slotAt = T.slotAt := by
    rcases hG with rfl | rfl
    · rfl
    · exact slotAt_grow T
  rw [hslot] at hlock
  refine ⟨_, p, heq, hlock, ?_, ?_, ?_⟩
  · rw [shape_modifySlot]
    exact hG.imp (congrArg _) (congrArg _)
  · rwa [candidates_congr (shape_modifySlot G p _)]
  · rw [slotAt_modifySlot (lt_length_of_mem hmem), hslot, Slot.markReserve_eq hlock]

end Chain

/-! ### Views -/

/-- What is seen of a slot: its key with a value, and nothing of an empty one. -/
structure SlotView (δ V : Type*) where
  see : Slot δ → Option (Guid × V)
  eq_none_iff : ∀ s, see s = none ↔ s.lock = 0
  key : ∀ {s k v}, see s = some (k, v) → s.key = k

namespace SlotView

variable {f : SlotView δ V} {s : Slot δ} {v : Guid × V}

lemma lock_ne_zero (h : f.see s = some v) : s.lock ≠ 0 := by
  intro h0
  rw [(f.eq_none_iff s).2 h0] at h
  cases h

lemma exists_see (f : SlotView δ V) (h : s.lock ≠ 0) : ∃ v, f.see s = some v :=
  ne_none_iff_exists'.1 fun hn => h ((f.eq_none_iff s).1 hn)

end SlotView

namespace Chain

variable {T T' : Chain δ} {f : SlotView δ V} {m : Guid → Option V} {key : Guid} {p : SlotRef}
  {s : Slot δ}

structure Shows (T : Chain δ) (f : SlotView δ V) (m : Guid → Option V) : Prop where
  nonempty : T ≠ []
  placed : ∀ p, (T.slotAt p).lock ≠ 0 → p ∈ T.candidates (T.slotAt p).key
  map : CellMap (fun p => f.see (T.slotAt p)) m

lemma slotAt_new (size shift : UInt32) (p : SlotRef) :
    slotAt ([newRouteTable size shift] : Chain δ) p = {} := by
  obtain ⟨l, i⟩ := p
  cases l <;> rfl

namespace Shows

lemma new (f : SlotView δ V) (size shift : UInt32) :
    Shows [newRouteTable size shift] f fun _ => none where
  nonempty := by simp
  placed p hp := absurd (by rw [slotAt_new]) hp
  map := by
    have hcells : (fun p => f.see (slotAt [newRouteTable size shift] p)) = fun _ => none := by
      funext p
      rw [slotAt_new]
      exact (f.eq_none_iff _).2 rfl
    rw [hcells]
    exact CellMap.empty

/-- **One slot is written**: an empty candidate of a key that is not present, or the slot of the key. -/
theorem write (h : T.Shows f m) (hw : Wrote T T' key p s) {x : Option V}
    (hheld : (T.slotAt p).lock ≠ 0 → (T.slotAt p).key = key)
    (hfree : (T.slotAt p).lock = 0 → m key = none) (hsee : f.see s = x.map (key, ·)) :
    T'.Shows f (update m key x) := by
  have hcells : (fun q => f.see (T'.slotAt q)) =
      update (fun q => f.see (T.slotAt q)) p (x.map (key, ·)) := by
    funext q
    rw [hw.slot]
    by_cases hq : q = p
    · subst hq
      rw [update_self, update_self, hsee]
    · rw [update_of_ne hq, update_of_ne hq]
  refine ⟨?_, ?_, ?_⟩
  · rintro rfl
    exact absurd hw.mem (by simp [candidates])
  · intro q
    rw [hw.slot]
    by_cases hq : q = p
    · subst hq
      rw [update_self]
      intro hlock
      cases x with
      | none => exact absurd ((f.eq_none_iff s).1 hsee) hlock
      | some v =>
        rw [f.key hsee]
        exact hw.mem
    · rw [update_of_ne hq]
      exact fun hlock => hw.mono (h.placed q hlock)
  · rw [hcells]
    refine h.map.update (fun k v hc => ?_) fun hc => hfree ((f.eq_none_iff _).1 hc)
    rw [← f.key hc, hheld (f.lock_ne_zero hc)]

section Search

variable {state : KeyState} {test : V → Bool}
  (hfound : ∀ q, (T.slotAt q).isFound key state ↔
    ∃ v, f.see (T.slotAt q) = some (key, v) ∧ test v)

include hfound

lemma search_eq_some (h : T.Shows f m) (hs : T.searchForKey key state = some p) :
    p ∈ T.candidates key ∧
      ∃ v, f.see (T.slotAt p) = some (key, v) ∧ test v ∧ m key = some v := by
  rw [searchForKey_eq] at hs
  have hpass := find?_some hs
  obtain ⟨v, hv, htest⟩ := (hfound p).1 hpass
  exact ⟨mem_of_find?_eq_some hs, v, hv, htest, h.map.eq_of_cell hv⟩

lemma search_of_mem (h : T.Shows f m) {v : V} (hm : m key = some v) (htest : test v) :
    ∃ p, T.searchForKey key state = some p ∧ f.see (T.slotAt p) = some (key, v) := by
  obtain ⟨p, hp⟩ := h.map.mem.1 hm
  refine ⟨p, ?_, hp⟩
  rw [searchForKey_eq]
  refine find?_eq_some_of_unique (f.key hp ▸ h.placed p (f.lock_ne_zero hp))
    ((hfound p).2 ⟨v, hp, htest⟩) fun q hq => ?_
  obtain ⟨w, hw, -⟩ := (hfound q).1 hq
  exact h.map.once hw hp

lemma search_eq_none (h : T.Shows f m) (hno : ∀ v, m key = some v → ¬ test v) :
    T.searchForKey key state = none := by
  cases hs : T.searchForKey key state with
  | none => rfl
  | some p =>
    obtain ⟨-, v, -, htest, hm⟩ := h.search_eq_some hfound hs
    exact absurd htest (hno v hm)

end Search

end Shows

/-- A call writes the slot `p` of its key, which gives the key the value `x`. -/
structure Puts (T T' : Chain δ) (f : SlotView δ V) (m : Guid → Option V) (key : Guid) (p : SlotRef)
    (x : Option V) : Prop where
  wrote : Wrote T T' key p (T'.slotAt p)
  place : (T.slotAt p).lock = 0 ∧ m key = none ∨ (T.slotAt p).lock ≠ 0 ∧ (T.slotAt p).key = key
  see : f.see (T'.slotAt p) = x.map (key, ·)

namespace Puts

variable {x : Option V} {q : SlotRef}

lemma of_wrote (hw : Wrote T T' key p s)
    (hplace : (T.slotAt p).lock = 0 ∧ m key = none ∨
      (T.slotAt p).lock ≠ 0 ∧ (T.slotAt p).key = key)
    (hsee : f.see s = x.map (key, ·)) : Puts T T' f m key p x := by
  have hs : T'.slotAt p = s := by rw [hw.slot, update_self]
  rw [← hs] at hw hsee
  exact ⟨hw, hplace, hsee⟩

lemma refl {v : V} (hp : p ∈ T.candidates key) (hsee : f.see (T.slotAt p) = some (key, v)) :
    Puts T T f m key p (some v) where
  wrote := ⟨.inl rfl, hp, (update_eq_self p T.slotAt).symm⟩
  place := .inr ⟨f.lock_ne_zero hsee, f.key hsee⟩
  see := hsee

protected lemma shows (hp : Puts T T' f m key p x) (h : T.Shows f m) :
    T'.Shows f (update m key x) := by
  refine h.write hp.wrote (fun hlock => ?_) (fun hlock => ?_) hp.see
  · exact hp.place.elim (fun ⟨h0, _⟩ => absurd h0 hlock) And.right
  · exact hp.place.elim And.right fun ⟨hne, _⟩ => absurd hlock hne

lemma other (hp : Puts T T' f m key p x) (hq : q ≠ p) : T'.slotAt q = T.slotAt q := by
  rw [hp.wrote.slot, update_of_ne hq]

lemma key_ne (hp : Puts T T' f m key p x) (h : T.Shows f m) (hq : q ≠ p)
    (hlock : (T.slotAt q).lock ≠ 0) : (T.slotAt q).key ≠ key := by
  rintro rfl
  obtain ⟨⟨k, v⟩, hv⟩ := f.exists_see hlock
  cases f.key hv
  rcases hp.place with ⟨-, hm⟩ | ⟨hne, hk⟩
  · exact some_ne_none v ((h.map.eq_of_cell hv).symm.trans hm)
  · obtain ⟨⟨k, w⟩, hw⟩ := f.exists_see hne
    cases (f.key hw).symm.trans hk
    exact hq (h.map.once hv hw)

end Puts

/-! ### Growth -/

lemma length_candidates (T : Chain δ) (key : Guid) :
    (T.candidates key).length = collisionResolves * T.length := by
  induction T with
  | nil => rfl
  | cons t T ih =>
    rw [candidates, length_append, length_map, length_map, ih, probes,
      length_range', length_cons]
    ring

lemma nodup_candidates (T : Chain δ) (key : Guid) : (T.candidates key).Nodup := by
  induction T with
  | nil => exact nodup_nil
  | cons t T ih =>
    refine nodup_append.2 ⟨?_, ?_, ?_⟩
    · exact List.Nodup.map (fun i j h => (Prod.mk.inj h).2) (nodup_range' ..)
    · exact ih.map fun p q h => Prod.ext (Nat.succ_injective (Prod.mk.inj h).1) (Prod.mk.inj h).2
    · rintro p hp q hq rfl
      obtain ⟨i, -, rfl⟩ := mem_map.1 hp
      obtain ⟨r, -, hr⟩ := mem_map.1 hq
      cases hr

/-- **A table is added only if every slot of the key is taken.** -/
theorem searchForEmpty_length {used : Bool} (hs : T.searchForEmpty key used = some (T', p)) :
    T'.length = T.length ∨
      T'.length = T.length + 1 ∧ ∀ q ∈ T.candidates key, (T.slotAt q).lock ≠ 0 := by
  induction T generalizing T' p with
  | nil => cases hs
  | cons t T ih =>
    cases hprobe : t.probeEmpty key used with
    | some i =>
      simp only [searchForEmpty, hprobe] at hs
      cases hs
      exact .inl rfl
    | none =>
      have hfull : ∀ i ∈ probes key t.shift, (t.data i).lock ≠ 0 := by
        intro i hi h0
        have hno := find?_eq_none.1 hprobe i hi
        cases used <;> simp [h0, Slot.markReserve] at hno
      cases T with
      | nil =>
        simp only [searchForEmpty, hprobe, RouteTable.probeEmpty_new] at hs
        cases hs
        refine .inr ⟨rfl, fun q hq => ?_⟩
        obtain ⟨i, hi, rfl⟩ | ⟨q, hq, -⟩ := mem_candidates_cons.1 hq
        · exact hfull i hi
        · cases hq
      | cons u T =>
        rw [searchForEmpty, hprobe] at hs
        obtain ⟨⟨T₁, r⟩, hr, hT'⟩ := map_eq_some_iff.1 hs
        cases hT'
        refine (ih hr).imp (congrArg (· + 1)) fun h => ⟨congrArg (· + 1) h.1, fun q hq => ?_⟩
        obtain ⟨i, hi, rfl⟩ | ⟨q', hq', rfl⟩ := mem_candidates_cons.1 hq
        · exact hfull i hi
        · exact h.2 q' hq'

end Chain

end Arts
