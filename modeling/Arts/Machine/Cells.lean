import Mathlib

/-!
# Maps kept in cells

`CellMap cells m`: a cell is empty or holds a key with its value, no key is in two, and the cells
hold the map `m`. `CellMap.update` writes one cell.
-/

namespace Arts

open Function

variable {P K V : Type*}

structure CellMap (cells : P → Option (K × V)) (m : K → Option V) : Prop where
  once : ∀ {p q k v w}, cells p = some (k, v) → cells q = some (k, w) → p = q
  mem : ∀ {k v}, m k = some v ↔ ∃ p, cells p = some (k, v)

namespace CellMap

variable {cells : P → Option (K × V)} {m : K → Option V} {p q : P} {k : K} {v : V}

lemma eq_none_iff (h : CellMap cells m) : m k = none ↔ ∀ p v, cells p ≠ some (k, v) := by
  rw [Option.eq_none_iff_forall_ne_some]
  constructor
  · exact fun hm p v hc => hm v (h.mem.2 ⟨p, hc⟩)
  · intro hc v hm
    obtain ⟨p, hp⟩ := h.mem.1 hm
    exact hc p v hp

lemma eq_of_cell (h : CellMap cells m) (hp : cells p = some (k, v)) : m k = some v :=
  h.mem.2 ⟨p, hp⟩

lemma empty : CellMap (fun _ : P => (none : Option (K × V))) fun _ => none where
  once := by simp
  mem := by simp

/-- **One cell is written.**  The cell was empty and the key new, or the cell held the key. -/
theorem update [DecidableEq P] [DecidableEq K] (h : CellMap cells m) {x : Option V}
    (hheld : ∀ k' v, cells p = some (k', v) → k' = k) (hfree : cells p = none → m k = none) :
    CellMap (update cells p (x.map (k, ·))) (update m k x) := by
  -- whoever holds the key is the cell that is written
  have hat : ∀ q w, cells q = some (k, w) → q = p := by
    intro q w hq
    cases hp : cells p with
    | none => exact absurd hq (h.eq_none_iff.1 (hfree hp) q w)
    | some c => exact h.once (hheld c.1 c.2 hp ▸ hq : cells q = some (c.1, w)) hp
  have hcell : ∀ q k' w, Function.update cells p (x.map (k, ·)) q = some (k', w) →
      q = p ∧ k' = k ∧ x = some w ∨ q ≠ p ∧ k' ≠ k ∧ cells q = some (k', w) := by
    intro q k' w hq
    by_cases hqp : q = p
    · subst hqp
      rw [update_self, Option.map_eq_some_iff] at hq
      obtain ⟨v, rfl, hv⟩ := hq
      cases hv
      exact .inl ⟨rfl, rfl, rfl⟩
    · rw [update_of_ne hqp] at hq
      exact .inr ⟨hqp, fun hk => hqp (hat q w (hk ▸ hq)), hq⟩
  constructor
  · intro q r k' v w hq hr
    rcases hcell q k' v hq with ⟨rfl, hk, -⟩ | ⟨-, hk, hq⟩ <;>
      rcases hcell r k' w hr with ⟨rfl, hk', -⟩ | ⟨-, hk', hr⟩
    · rfl
    · exact absurd hk hk'
    · exact absurd hk' hk
    · exact h.once hq hr
  · intro k' w
    constructor
    · intro hm
      by_cases hk : k' = k
      · subst hk
        rw [update_self] at hm
        exact ⟨p, by rw [update_self, hm]; rfl⟩
      · rw [update_of_ne hk] at hm
        obtain ⟨q, hq⟩ := h.mem.1 hm
        have hqp : q ≠ p := by
          rintro rfl
          exact hk (hheld k' w hq)
        exact ⟨q, by rw [update_of_ne hqp, hq]⟩
    · rintro ⟨q, hq⟩
      rcases hcell q k' w hq with ⟨-, rfl, hx⟩ | ⟨-, hk, hq⟩
      · rw [update_self, hx]
      · rw [update_of_ne hk]
        exact h.mem.2 ⟨q, hq⟩

end CellMap

lemma find?_eq_some_of_unique {cand : List P} {test : P → Bool} {p : P} (hp : p ∈ cand)
    (hpass : test p) (honly : ∀ q, test q → q = p) : cand.find? test = some p := by
  cases hf : cand.find? test with
  | none => exact absurd hpass (by simpa using List.find?_eq_none.1 hf p hp)
  | some q => rw [honly q (List.find?_some hf)]

end Arts
