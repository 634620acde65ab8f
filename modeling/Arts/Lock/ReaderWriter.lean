import Arts.Machine.Calls

/-!
# A reader–writer lock of two words

A writer sets `writer` and waits until `reader` is 0; a reader adds 1 to `reader` and takes it back
if `writer` has been set. `Consistent` relates the words to the phases of all threads.
-/

namespace Arts.Lock

open List

structure Words where
  reader : ℕ
  writer : Bool
  deriving DecidableEq

inductive Phase where
  | outside
  /-- A reader that is counted and has not looked at `writer` again. -/
  | counted
  | reading
  | draining
  | writing
  deriving DecidableEq

/-- What the thread adds to `reader`. -/
def Phase.readers : Phase → ℕ
  | .counted | .reading => 1
  | _ => 0

/-- The thread has set `writer`. -/
def Phase.writers : Phase → ℕ
  | .draining | .writing => 1
  | _ => 0

inductive Move : Words → Phase → Words → Phase → Prop where
  | stay (l p) : Move l p l p
  | set (r) : Move ⟨r, false⟩ .outside ⟨r, true⟩ .draining
  | drained (w) : Move ⟨0, w⟩ .draining ⟨0, w⟩ .writing
  | unlock (r w) : Move ⟨r, w⟩ .writing ⟨r, false⟩ .outside
  | count (r w) : Move ⟨r, w⟩ .outside ⟨r + 1, w⟩ .counted
  | enter (r) : Move ⟨r, false⟩ .counted ⟨r, false⟩ .reading
  | uncount (r w) : Move ⟨r, w⟩ .counted ⟨r - 1, w⟩ .outside
  | leave (r w) : Move ⟨r, w⟩ .reading ⟨r - 1, w⟩ .outside

/-- The words agree with the phases of the threads. -/
structure Consistent (l : Words) (ps : List Phase) : Prop where
  reader : weight Phase.readers ps = l.reader
  writer : weight Phase.writers ps = if l.writer then 1 else 0
  excl : .writing ∈ ps → .reading ∉ ps

variable {l l' : Words} {ps : List Phase} {i : ℕ} {p p' : Phase}

lemma Consistent.reading_notMem (h : Consistent l ps) (hr : l.reader = 0) : .reading ∉ ps := by
  intro hm
  have := le_weight Phase.readers hm
  rw [h.reader, hr] at this
  simp [Phase.readers] at this

lemma Consistent.writing_notMem (h : Consistent l ps) (hw : l.writer = false) :
    .writing ∉ ps := by
  intro hm
  have := le_weight Phase.writers hm
  rw [h.writer, hw] at this
  simp [Phase.writers] at this

lemma Consistent.writers_eq_zero (h : Consistent l ps) (hi : ps[i]? = some p)
    (hp : p.writers = 1) {j : ℕ} {q : Phase} (hne : i ≠ j) (hj : ps[j]? = some q) :
    q.writers = 0 := by
  have hadd := add_le_weight Phase.writers hi hj hne
  have hle : weight Phase.writers ps ≤ 1 := by
    rw [h.writer]
    split <;> omega
  omega

lemma excl_set (h : .writing ∈ ps → .reading ∉ ps) (hr : p' ≠ .reading) (hw : p' ≠ .writing) :
    .writing ∈ ps.set i p' → .reading ∉ ps.set i p' := by
  intro hm hm'
  have hm := (mem_or_eq_of_mem_set hm).resolve_right (Ne.symm hw)
  exact h hm ((mem_or_eq_of_mem_set hm').resolve_right (Ne.symm hr))

/-- **Every step of a thread keeps the lock consistent.** -/
theorem Consistent.move (h : Consistent l ps) (hi : ps[i]? = some p) (hm : Move l p l' p') :
    Consistent l' (ps.set i p') := by
  have hr := weight_set Phase.readers hi p'
  have hw := weight_set Phase.writers hi p'
  have hreader := h.reader
  have hwriter := h.writer
  cases hm with
  | stay =>
    obtain ⟨hlt, rfl⟩ := List.getElem?_eq_some_iff.1 hi
    rw [set_getElem_self]
    exact h
  | set =>
    simp only [Phase.readers, Phase.writers] at hr hw hreader
    simp only [Bool.false_eq_true, ↓reduceIte] at hwriter
    exact ⟨by dsimp only; omega, by simp only [↓reduceIte]; omega,
      excl_set h.excl (by simp) (by simp)⟩
  | drained w =>
    simp only [Phase.readers, Phase.writers] at hr hw hreader
    refine ⟨by dsimp only; omega, by rw [← hwriter]; omega, fun _ hm => ?_⟩
    exact h.reading_notMem rfl ((mem_or_eq_of_mem_set hm).resolve_right (by simp))
  | unlock r w =>
    simp only [Phase.readers, Phase.writers] at hr hw hreader
    have : weight Phase.writers ps ≤ 1 := by
      rw [hwriter]
      split <;> omega
    exact ⟨by dsimp only; omega, by simp only [Bool.false_eq_true, ↓reduceIte]; omega,
      excl_set h.excl (by simp) (by simp)⟩
  | count r w | uncount r w | leave r w =>
    simp only [Phase.readers, Phase.writers] at hr hw hreader
    exact ⟨by dsimp only; omega, by rw [← hwriter]; omega,
      excl_set h.excl (by simp) (by simp)⟩
  | enter r =>
    simp only [Phase.readers, Phase.writers] at hr hw hreader
    refine ⟨by dsimp only; omega, by rw [← hwriter]; omega, fun hm => ?_⟩
    exact absurd ((mem_or_eq_of_mem_set hm).resolve_right (by simp)) (h.writing_notMem rfl)

/-- A writer that has found readers may give the lock back instead of waiting for them. -/
theorem Consistent.withdraw {r : ℕ} {w : Bool} (h : Consistent ⟨r, w⟩ ps)
    (hi : ps[i]? = some .draining) : Consistent ⟨r, false⟩ (ps.set i .outside) := by
  have hr := weight_set Phase.readers hi .outside
  have hw := weight_set Phase.writers hi .outside
  have hle : weight Phase.writers ps ≤ 1 := by
    rw [h.writer]
    split <;> omega
  have hreader := h.reader
  simp only [Phase.readers, Phase.writers] at hr hw hreader
  exact ⟨by dsimp only; omega, by simp only [Bool.false_eq_true, ↓reduceIte]; omega,
    excl_set h.excl (by simp) (by simp)⟩

lemma Consistent.start (h : Consistent l ps) : Consistent l (ps ++ [.outside]) where
  reader := by simpa [Phase.readers] using h.reader
  writer := by simpa [Phase.writers] using h.writer
  excl := by simpa using h.excl

end Arts.Lock
