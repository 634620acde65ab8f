import Mathlib

/-!
# Windows of a circular array

Index `i` is in slot `i % n`; no two indices of a window shorter than `n` share a slot. `window f t
b` is what the indices from `t` to `b - 1` hold.
-/

namespace Arts.Queue

open List

lemma mod_ne_mod_of_lt {i j n : ℕ} (hij : i < j) (hn : j < i + n) : i % n ≠ j % n := by
  intro h
  obtain ⟨k, hk⟩ : n ∣ j - i := Nat.dvd_of_mod_eq_zero (Nat.sub_mod_eq_zero_of_mod_eq h.symm)
  have hpos : 0 < k := Nat.pos_of_ne_zero (by rintro rfl; omega)
  have : n * 1 ≤ n * k := Nat.mul_le_mul_left n hpos
  omega

variable {β : Type*}

/-- What the indices from `t` to `b - 1` hold. -/
def window (f : ℕ → β) (t b : ℕ) : List β := (range' t (b - t)).map f

variable {f g : ℕ → β} {t b : ℕ}

@[simp] lemma length_window : (window f t b).length = b - t := by simp [window]

lemma window_of_le (h : b ≤ t) : window f t b = [] := by
  simp [window, Nat.sub_eq_zero_of_le h]

lemma mem_window {x : β} : x ∈ window f t b ↔ ∃ i, t ≤ i ∧ i < b ∧ f i = x := by
  simp only [window, mem_map, mem_range'_1]
  constructor
  · rintro ⟨i, ⟨hti, hib⟩, rfl⟩
    exact ⟨i, hti, by omega, rfl⟩
  · rintro ⟨i, hti, hib, rfl⟩
    exact ⟨i, ⟨hti, by omega⟩, rfl⟩

lemma window_congr (h : ∀ i, t ≤ i → i < b → f i = g i) : window f t b = window g t b := by
  refine map_congr_left fun i hi => ?_
  obtain ⟨hti, hib⟩ := mem_range'_1.1 hi
  exact h i hti (by omega)

lemma window_append {m : ℕ} (htm : t ≤ m) (hmb : m ≤ b) :
    window f t b = window f t m ++ window f m b := by
  obtain ⟨k, rfl⟩ := Nat.exists_eq_add_of_le htm
  obtain ⟨l, rfl⟩ := Nat.exists_eq_add_of_le hmb
  simp only [window, ← map_append]
  rw [show t + k - t = k by omega, show t + k + l - (t + k) = l by omega,
    show t + k + l - t = k + l by omega, range'_append_1]

lemma window_succ_right (h : t ≤ b) : window f t (b + 1) = window f t b ++ [f b] := by
  rw [window_append h (Nat.le_succ b)]
  simp [window]

lemma window_succ_left (h : t < b) : window f t b = f t :: window f (t + 1) b := by
  rw [window_append (Nat.le_succ t) h]
  simp [window]

lemma getElem?_window {i : ℕ} (h : t + i < b) : (window f t b)[i]? = some (f (t + i)) := by
  have hlt : i < b - t := by omega
  simp [window, hlt]

end Arts.Queue
