import Arts.Machine.Basic

/-!
# Handing waiters over to one server

Waiters *join* and are numbered. After the protocol is *closed* the server takes a *snapshot* and
serves those below it; the others serve themselves. Each is served once
(`Handoff.perm_of_complete`).
-/

namespace Arts

open List Function Option

/-- The state of a hand-over of waiters `δ`. -/
structure Handoff (δ : Type*) where
  /-- The waiters, in the order in which they joined. -/
  order : List δ
  closed : Bool
  bound : Option ℕ
  served : ℕ
  /-- The decision of each waiter: `true` if it served itself, `false` if it left. -/
  decided : ℕ → Option Bool
  /-- The waiters served, with their numbers, the latest one first. -/
  log : List (δ × ℕ)

inductive HandoffAct (δ : Type*) where
  | join (d : δ)
  | close
  | snapshot
  | serve
  | leave (p : ℕ)
  | self (p : ℕ)

namespace Handoff

variable {δ : Type*}

def empty : Handoff δ := ⟨[], false, none, 0, fun _ => none, []⟩

/-- The waiter `p` may leave itself to the server. -/
def mayLeave (h : Handoff δ) (p : ℕ) : Bool :=
  match h.bound with
  | none => !h.closed
  | some b => decide (p < b)

/-- The waiter `p` may serve itself. -/
def mayServeSelf (h : Handoff δ) (p : ℕ) : Bool :=
  match h.bound with
  | none => false
  | some b => decide (b ≤ p)

def mayServe (h : Handoff δ) : Bool :=
  match h.bound with
  | none => false
  | some b => decide (h.served < b)

variable {h : Handoff δ}

lemma mayServeSelf_iff {p : ℕ} : h.mayServeSelf p ↔ ∃ b, h.bound = some b ∧ b ≤ p := by
  unfold mayServeSelf
  cases h.bound <;> simp

lemma mayServe_iff : h.mayServe ↔ ∃ b, h.bound = some b ∧ h.served < b := by
  unfold mayServe
  cases h.bound <;> simp

/-- Record that the waiter `d` with the number `p` is served. -/
def give (h : Handoff δ) (d : δ) (p : ℕ) : Handoff δ := { h with log := (d, p) :: h.log }

/-- Record the decision of the waiter `p`. -/
def settle (h : Handoff δ) (p : ℕ) (b : Bool) : Handoff δ :=
  { h with decided := update h.decided p (some b) }

def next (h : Handoff δ) : HandoffAct δ → Option (Handoff δ)
  | .join d => some { h with order := h.order ++ [d] }
  | .close => if h.closed then none else some { h with closed := true }
  | .snapshot =>
    if h.closed ∧ h.bound = none then some { h with bound := some h.order.length } else none
  | .serve =>
    if h.mayServe then
      (h.order[h.served]?).map fun d => { h with served := h.served + 1 }.give d h.served
    else none
  | .leave p =>
    if p < h.order.length ∧ h.decided p = none ∧ h.mayLeave p then some (h.settle p false) else none
  | .self p =>
    if h.decided p = none ∧ h.mayServeSelf p then
      (h.order[p]?).map fun d => (h.settle p true).give d p
    else none

def machine (δ : Type*) : Machine (Handoff δ) (HandoffAct δ) where
  init h := h = empty
  next := next

/-- The invariant of a hand-over. -/
structure Valid (h : Handoff δ) : Prop where
  open_bound : h.closed = false → h.bound = none
  nothing : h.bound = none → h.served = 0 ∧ ∀ p, h.decided p ≠ some true
  served_le : ∀ b, h.bound = some b → h.served ≤ b
  bound_le : ∀ b, h.bound = some b → b ≤ h.order.length
  left_lt : ∀ b p, h.bound = some b → h.decided p = some false → p < b
  self_ge : ∀ b p, h.bound = some b → h.decided p = some true → b ≤ p
  decided_lt : ∀ p, h.decided p ≠ none → p < h.order.length
  nodup : (h.log.map Prod.snd).Nodup
  mem_log : ∀ d p, (d, p) ∈ h.log ↔ h.order[p]? = some d ∧ (p < h.served ∨ h.decided p = some true)

namespace Valid

lemma empty : Valid (empty : Handoff δ) := by
  constructor <;> simp [Handoff.empty]

variable {h : Handoff δ}

variable {p : ℕ}

lemma served_lt (hv : h.Valid) (hp : p < h.served) : p < h.order.length := by
  cases hb : h.bound with
  | none => rw [(hv.nothing hb).1] at hp; omega
  | some b =>
    have := hv.served_le b hb
    have := hv.bound_le b hb
    omega

lemma join (hv : h.Valid) (d : δ) : Valid { h with order := h.order ++ [d] } where
  __ := hv
  bound_le b hb := by simpa using Nat.le_succ_of_le (hv.bound_le b hb)
  decided_lt p hp := by simpa using Nat.lt_succ_of_lt (hv.decided_lt p hp)
  mem_log d' p := by
    -- a number that was served or has decided belongs to a waiter that had joined before
    rw [hv.mem_log, and_congr_left_iff]
    intro hp
    have hlt : p < h.order.length := by
      rcases hp with hp | hp
      · exact hv.served_lt hp
      · exact hv.decided_lt p (by simp [hp])
    rw [getElem?_append_left hlt]

lemma close (hv : h.Valid) : Valid { h with closed := true } where
  open_bound hf := by cases hf
  __ := hv

lemma snapshot (hv : h.Valid) (hc : h.closed = true) (hb : h.bound = none) :
    Valid { h with bound := some h.order.length } where
  open_bound hf := by simp [hc] at hf
  nothing hf := by cases hf
  served_le b hb' := by
    rw [(hv.nothing hb).1]
    exact Nat.zero_le b
  bound_le b hb' := by
    cases hb'
    exact Nat.le_refl _
  left_lt b p hb' hp := by
    cases hb'
    exact hv.decided_lt p fun hnone => some_ne_none _ (hp.symm.trans hnone)
  self_ge b p hb' hp := absurd hp ((hv.nothing hb).2 p)
  __ := hv

variable {d : δ}

lemma nodup_give (hv : h.Valid) (hserved : h.served ≤ p)
    (hdec : h.decided p ≠ some true) : ((h.give d p).log.map Prod.snd).Nodup := by
  simp only [give, map_cons, nodup_cons, List.mem_map, Prod.exists, exists_eq_right]
  refine ⟨?_, hv.nodup⟩
  rintro ⟨d', hmem⟩
  rcases ((hv.mem_log d' p).1 hmem).2 with hlt | htrue
  · omega
  · exact hdec htrue

variable {b : ℕ}

lemma serve (hv : h.Valid) (hb : h.bound = some b) (hs : h.served < b)
    (hd : h.order[h.served]? = some d) :
    Valid ({ h with served := h.served + 1 }.give d h.served) where
  __ := hv
  nothing hf := by simp [give, hb] at hf
  served_le b' hb' := by
    obtain rfl : b = b' := some.inj (hb.symm.trans hb')
    exact hs
  nodup := hv.nodup_give (Nat.le_refl _) fun ht => absurd (hv.self_ge b _ hb ht) (by omega)
  mem_log d' p := by
    simp only [give, mem_cons, Prod.mk.injEq, hv.mem_log]
    constructor
    · rintro (⟨rfl, rfl⟩ | ⟨hd', hp⟩)
      · exact ⟨hd, .inl (Nat.lt_succ_self _)⟩
      · exact ⟨hd', hp.imp_left fun hlt => Nat.lt_succ_of_lt hlt⟩
    · rintro ⟨hd', hlt | ht⟩
      · rcases Nat.lt_succ_iff_lt_or_eq.1 hlt with hlt | rfl
        · exact .inr ⟨hd', .inl hlt⟩
        · exact .inl ⟨some.inj (hd'.symm.trans hd), rfl⟩
      · exact .inr ⟨hd', .inr ht⟩

lemma leave (hv : h.Valid) (hp : p < h.order.length) (hdec : h.decided p = none)
    (hmay : h.mayLeave p) : Valid (h.settle p false) where
  __ := hv
  nothing hb := by
    refine ⟨(hv.nothing hb).1, fun q => ?_⟩
    simp only [settle, update_apply]
    split_ifs
    · simp
    · exact (hv.nothing hb).2 q
  left_lt b q hb hq := by
    simp only [settle, update_apply] at hq hb
    split_ifs at hq with hqp
    · simpa [mayLeave, hb, hqp] using hmay
    · exact hv.left_lt b q hb hq
  self_ge b q hb hq := by
    simp only [settle, update_apply] at hq
    split_ifs at hq
    · simp at hq
    · exact hv.self_ge b q hb hq
  decided_lt q hq := by
    simp only [settle, update_apply] at hq
    split_ifs at hq with hqp
    · exact hqp ▸ hp
    · exact hv.decided_lt q hq
  mem_log d q := by
    rw [show (h.settle p false).log = h.log from rfl, hv.mem_log]
    simp only [settle, update_apply]
    split_ifs with hqp
    · simp [hqp, hdec]
    · rfl

lemma self (hv : h.Valid) (hb : h.bound = some b) (hge : b ≤ p)
    (hdec : h.decided p = none) (hd : h.order[p]? = some d) :
    Valid ((h.settle p true).give d p) where
  __ := hv
  nothing hf := by simp [give, settle, hb] at hf
  left_lt b' q hb' hq := by
    simp only [give, settle, update_apply] at hq
    split_ifs at hq
    · simp at hq
    · exact hv.left_lt b' q hb' hq
  self_ge b' q hb' hq := by
    obtain rfl : b = b' := some.inj (hb.symm.trans hb')
    simp only [give, settle, update_apply] at hq
    split_ifs at hq with hqp
    · exact hqp ▸ hge
    · exact hv.self_ge b q hb hq
  decided_lt q hq := by
    simp only [give, settle, update_apply] at hq
    split_ifs at hq with hqp
    · exact hqp ▸ (List.getElem?_eq_some_iff.1 hd).1
    · exact hv.decided_lt q hq
  nodup := hv.nodup_give (Nat.le_trans (hv.served_le b hb) hge) (by simp [hdec])
  mem_log d' q := by
    simp only [give, settle, mem_cons, Prod.mk.injEq, hv.mem_log, update_apply]
    by_cases hqp : q = p
    · subst hqp
      simp only [and_true, if_true, or_true]
      constructor
      · rintro (rfl | ⟨hd', -⟩)
        · exact hd
        · exact hd'
      · intro hd'
        exact .inl (some.inj (hd'.symm.trans hd))
    · simp [hqp]

lemma next (hv : h.Valid) {a : HandoffAct δ} {h' : Handoff δ} (hn : h.next a = some h') :
    h'.Valid := by
  cases a with
  | join d =>
    cases hn
    exact hv.join d
  | close =>
    simp only [Handoff.next] at hn
    split_ifs at hn with hc
    cases hn
    exact hv.close
  | snapshot =>
    simp only [Handoff.next] at hn
    split_ifs at hn with hc
    cases hn
    exact hv.snapshot hc.1 hc.2
  | serve =>
    simp only [Handoff.next] at hn
    split_ifs at hn with hs
    obtain ⟨d, hd, rfl⟩ := map_eq_some_iff.1 hn
    obtain ⟨b, hb, hlt⟩ := mayServe_iff.1 hs
    exact hv.serve hb hlt hd
  | leave p =>
    simp only [Handoff.next] at hn
    split_ifs at hn with hp
    cases hn
    exact hv.leave hp.1 hp.2.1 hp.2.2
  | self p =>
    simp only [Handoff.next] at hn
    split_ifs at hn with hp
    obtain ⟨d, hd, rfl⟩ := map_eq_some_iff.1 hn
    obtain ⟨b, hb, hle⟩ := mayServeSelf_iff.1 hp.2
    exact hv.self hb hle hp.1 hd

end Valid

lemma valid_of_reachable (hr : (machine δ).Reachable h) : h.Valid :=
  hr.invariant (by rintro _ rfl; exact Valid.empty) fun _ _ _ _ hv hn => hv.next hn

/-- **Nobody is lost or served twice**: when the server is through and all waiters have decided,
every waiter was served exactly once. -/
theorem perm_of_complete (hr : (machine δ).Reachable h)
    (hserved : h.bound = some h.served) (hall : ∀ p < h.order.length, h.decided p ≠ none) :
    h.log.Perm h.order.zipIdx := by
  have hv := valid_of_reachable hr
  rw [perm_ext_iff_of_nodup hv.nodup.of_map (nodup_zipIdx_map_snd h.order).of_map]
  rintro ⟨d, p⟩
  rw [hv.mem_log, mem_zipIdx_iff_getElem?, and_iff_left_iff_imp]
  intro hd
  have hp : p < h.order.length := (List.getElem?_eq_some_iff.1 hd).1
  cases hdec : h.decided p with
  | none => exact absurd hdec (hall p hp)
  | some b =>
    cases b with
    | false => exact .inl (hv.left_lt _ p hserved hdec)
    | true => exact .inr rfl

end Handoff

end Arts
