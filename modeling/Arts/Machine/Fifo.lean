import Mathlib

/-!
# Messages on connections

The messages in flight are one list; a message may be delivered when it is the oldest of its
connection (`Fifo.IsNext`). `Fifo.rel_of_isNext` is what a delivery can use of a relation between
messages.
-/

namespace Arts

open List

namespace Fifo

variable {κ μ : Type*} {l : List (κ × μ)} {k : ℕ} {x y : κ × μ}

/-- The `k`-th message in flight is the oldest one of its connection. -/
def IsNext (l : List (κ × μ)) (k : ℕ) : Prop := ∀ x ∈ l[k]?, ∀ y ∈ l.take k, y.1 ≠ x.1

instance [DecidableEq κ] (l : List (κ × μ)) (k : ℕ) : Decidable (IsNext l k) := by
  unfold IsNext; infer_instance

lemma eq_append_of_getElem? {α : Type*} {l : List α} {x : α} (hx : l[k]? = some x) :
    l = l.take k ++ x :: l.drop (k + 1) := by
  obtain ⟨hlt, rfl⟩ := List.getElem?_eq_some_iff.1 hx
  rw [← drop_eq_getElem_cons hlt, take_append_drop]

/-- A message left over by a delivery is ahead of it on a different connection, or behind it. -/
theorem rel_of_isNext {R : κ × μ → κ × μ → Prop} (hp : l.Pairwise R) (hx : l[k]? = some x)
    (hnext : IsNext l k) (hy : y ∈ l.eraseIdx k) : R y x ∧ y.1 ≠ x.1 ∨ R x y := by
  rw [eq_append_of_getElem? hx, pairwise_append] at hp
  obtain ⟨-, hbehind, hahead⟩ := hp
  rw [eraseIdx_eq_take_drop_succ, mem_append] at hy
  rcases hy with hy | hy
  · exact .inl ⟨hahead y hy x mem_cons_self, hnext x hx y hy⟩
  · exact .inr ((pairwise_cons.1 hbehind).1 y hy)

lemma pairwise_append_singleton {R : κ × μ → κ × μ → Prop} (hp : l.Pairwise R)
    (hx : ∀ y ∈ l, R y x) : (l ++ [x]).Pairwise R := by
  refine pairwise_append.2 ⟨hp, pairwise_singleton _ _, fun y hy z hz => ?_⟩
  rw [mem_singleton.1 hz]
  exact hx y hy

/-! ### The messages of one kind -/

section Kind

variable {α β : Type*} {f : α → Option β} {l : List α} {x : α}

lemma filterMap_eraseIdx_of_none (hx : l[k]? = some x) (hf : f x = none) :
    (l.eraseIdx k).filterMap f = l.filterMap f := by
  conv_rhs => rw [eq_append_of_getElem? hx]
  rw [eraseIdx_eq_take_drop_succ, filterMap_append, filterMap_append,
    filterMap_cons_none hf]

lemma filterMap_eq_append {b : β} (hx : l[k]? = some x) (hf : f x = some b) :
    l.filterMap f = (l.take k).filterMap f ++ b :: (l.drop (k + 1)).filterMap f := by
  conv_lhs => rw [eq_append_of_getElem? hx]
  rw [filterMap_append, filterMap_cons_some hf]

lemma getElem?_filterMap {b : β} (hx : l[k]? = some x) (hf : f x = some b) :
    (l.filterMap f)[((l.take k).filterMap f).length]? = some b := by
  rw [filterMap_eq_append hx hf, getElem?_append_right (Nat.le_refl _), Nat.sub_self,
    getElem?_cons_zero]

lemma filterMap_eraseIdx_of_some {b : β} (hx : l[k]? = some x) (hf : f x = some b) :
    (l.eraseIdx k).filterMap f =
      (l.filterMap f).eraseIdx ((l.take k).filterMap f).length := by
  rw [filterMap_eq_append hx hf, eraseIdx_append_of_length_le (Nat.le_refl _), Nat.sub_self,
    eraseIdx_cons_zero, eraseIdx_eq_take_drop_succ, filterMap_append]

lemma filterMap_append_of_none (hf : f x = none) :
    (l ++ [x]).filterMap f = l.filterMap f := by
  rw [filterMap_append, filterMap_cons_none hf, filterMap_nil, append_nil]

lemma filterMap_append_of_some {b : β} (hf : f x = some b) :
    (l ++ [x]).filterMap f = l.filterMap f ++ [b] := by
  rw [filterMap_append, filterMap_cons_some hf, filterMap_nil]

lemma count_filterMap_eraseIdx [DecidableEq β] {b : β} (hx : l[k]? = some x)
    (hf : f x = some b) (j : β) : ((l.eraseIdx k).filterMap f).count j +
      (if b = j then 1 else 0) = (l.filterMap f).count j := by
  rw [filterMap_eq_append hx hf, eraseIdx_eq_take_drop_succ, filterMap_append,
    count_append, count_append, count_cons, Nat.add_assoc]
  simp only [beq_iff_eq]

end Kind

end Fifo

end Arts
