import Mathlib

/-!
# Flags and a counter in one word

Masks act on the flags and on the `k` counter bits separately, and adding 1 changes only the counter
while it stays in its bits; a subtraction from 0 borrows from the flags (`pack_borrow`).
-/

namespace Arts

/-- The word with the flags `s` above the counter `n` of `k` bits. -/
def pack (k s n : ℕ) : UInt64 := UInt64.ofNat (2 ^ k * s + n)

variable {k s t n m : ℕ}

lemma toNat_pack (h : 2 ^ k * s + n < 2 ^ 64) : (pack k s n).toNat = 2 ^ k * s + n :=
  UInt64.toNat_ofNat_of_lt' h

lemma bitwise_pack {f : ℕ → ℕ → ℕ} {g : Bool → Bool → Bool}
    (hf : ∀ x y i, (f x y).testBit i = g (x.testBit i) (y.testBit i))
    (hlt : f n m < 2 ^ k) (hn : n < 2 ^ k) (hm : m < 2 ^ k) :
    f (2 ^ k * s + n) (2 ^ k * t + m) = 2 ^ k * f s t + f n m := by
  refine Nat.eq_of_testBit_eq fun i => ?_
  rw [hf, Nat.testBit_two_pow_mul_add _ hn, Nat.testBit_two_pow_mul_add _ hm,
    Nat.testBit_two_pow_mul_add _ hlt, hf, hf]
  split_ifs <;> rfl

lemma and_pack (hn : n < 2 ^ k) (hm : m < 2 ^ k) :
    pack k s n &&& pack k t m = pack k (s &&& t) (n &&& m) := by
  have h := bitwise_pack (s := s) (t := t) Nat.testBit_and (Nat.and_lt_two_pow n hm) hn hm
  rw [pack, pack, pack, ← h, UInt64.ofNat_and]

lemma or_pack (hn : n < 2 ^ k) (hm : m < 2 ^ k) :
    pack k s n ||| pack k t m = pack k (s ||| t) (n ||| m) := by
  have h := bitwise_pack (s := s) (t := t) Nat.testBit_or (Nat.or_lt_two_pow hn hm) hn hm
  rw [pack, pack, pack, ← h, UInt64.ofNat_or]

lemma pack_add_one : pack k s n + 1 = pack k s (n + 1) := by
  rw [pack, pack, ← Nat.add_assoc, UInt64.ofNat_add (2 ^ k * s + n) 1]
  rfl

lemma pack_sub_one : pack k s (n + 1) - 1 = pack k s n := by
  rw [← pack_add_one, UInt64.add_sub_cancel]

lemma pack_borrow : pack k (s + 1) 0 - 1 = pack k s (2 ^ k - 1) := by
  have h : 2 ^ k * (s + 1) + 0 = 2 ^ k * s + (2 ^ k - 1) + 1 := by
    have := Nat.two_pow_pos k
    rw [Nat.mul_succ]
    omega
  rw [pack, h]
  exact pack_sub_one

lemma pack_eq_zero (h : 2 ^ k * s + n < 2 ^ 64) : pack k s n = 0 ↔ s = 0 ∧ n = 0 := by
  rw [← UInt64.toNat_inj, toNat_pack h]
  show 2 ^ k * s + n = 0 ↔ _
  simp

end Arts
