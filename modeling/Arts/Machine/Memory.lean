import Mathlib

/-!
# Memory

A memory is a function of addresses. `readMem` reads a range, `writeMem` writes a list, and
`moveMem` is `memmove` to the start.
-/

namespace Arts

open List

variable {α : Type*}

/-- The contents at `len` addresses from `off` on. -/
def readMem (m : ℕ → α) (off len : ℕ) : List α := (range' off len).map m

/-- The memory with the list written from `off` on. -/
def writeMem (m : ℕ → α) (off : ℕ) (bs : List α) : ℕ → α :=
  fun k => if off ≤ k then bs.getD (k - off) (m k) else m k

/-- The memory with `len` entries from `src` on moved to the start. -/
def moveMem (m : ℕ → α) (src len : ℕ) : ℕ → α :=
  fun k => if k < len then m (src + k) else m k

variable {m m' : ℕ → α} {off len : ℕ}

@[simp] lemma readMem_zero (m : ℕ → α) (off : ℕ) : readMem m off 0 = [] := rfl

@[simp] lemma length_readMem (m : ℕ → α) (off len : ℕ) : (readMem m off len).length = len := by
  simp [readMem]

lemma readMem_append (m : ℕ → α) (off : ℕ) {a b len : ℕ} (h : a + b = len) :
    readMem m off a ++ readMem m (off + a) b = readMem m off len := by
  rw [readMem, readMem, ← map_append, range'_append_1, h, readMem]

lemma readMem_congr (h : ∀ k, off ≤ k → k < off + len → m k = m' k) :
    readMem m off len = readMem m' off len := by
  refine map_congr_left fun k hk => ?_
  rw [mem_range'_1] at hk
  exact h k hk.1 hk.2

lemma getElem?_readMem (m : ℕ → α) (off : ℕ) {len k : ℕ} (h : k < len) :
    (readMem m off len)[k]? = some (m (off + k)) := by
  rw [readMem, getElem?_map, getElem?_range' h]
  simp

lemma take_readMem (m : ℕ → α) (off : ℕ) {n len : ℕ} (h : n ≤ len) :
    (readMem m off len).take n = readMem m off n := by
  rw [← readMem_append m off (Nat.add_sub_cancel' h), take_left' (length_readMem m off n)]

lemma readMem_writeMem_self (m : ℕ → α) (off : ℕ) (bs : List α) :
    readMem (writeMem m off bs) off bs.length = bs := by
  refine ext_getElem? fun k => ?_
  by_cases hk : k < bs.length
  · rw [getElem?_readMem _ _ hk, writeMem, if_pos (Nat.le_add_right _ _), Nat.add_sub_cancel_left,
      getD_eq_getElem?_getD, getElem?_eq_getElem hk, Option.getD_some]
  · rw [getElem?_eq_none (by simpa using hk), getElem?_eq_none (by simpa using hk)]

lemma readMem_writeMem_below (m : ℕ → α) {off : ℕ} (bs : List α) {o n : ℕ} (h : o + n ≤ off) :
    readMem (writeMem m off bs) o n = readMem m o n := by
  refine readMem_congr fun k _ hk => ?_
  rw [writeMem, if_neg (by omega)]

lemma readMem_moveMem (m : ℕ → α) (src len : ℕ) :
    readMem (moveMem m src len) 0 len = readMem m src len := by
  refine ext_getElem? fun k => ?_
  by_cases hk : k < len
  · rw [getElem?_readMem _ _ hk, getElem?_readMem _ _ hk, moveMem, Nat.zero_add, if_pos hk]
  · rw [getElem?_eq_none (by simpa using hk), getElem?_eq_none (by simpa using hk)]

end Arts
