import Arts.Guid.Unique

/-!
# Ranges of GUIDs

**`GuidCluster.range_iff`**: the index of a GUID in its range is a signed 32-bit number and the
number of GUIDs to allocate a 32-bit sum, so ranges are right up to these sizes.
-/

namespace Arts

open Option GuidNode Guid

namespace Guid

/-- `ARTS_GUID_GET_TYPE` as a number. -/
def tag (g : Guid) : UInt64 := (g >>> 56) &&& 0xFF

/-- `arts_guid_index_from`; the result is an `int`. -/
def indexFrom (range g : Guid) : ℤ :=
  if range.tag ≠ g.tag then -1
  else if range.getRank ≠ g.getRank then -1
  else if g.getKey < range.getKey then -1
  else Int.bmod (g.getKey - range.getKey).toNat (2 ^ 32)

lemma toNat_tag (g : Guid) : g.tag.toNat = g.toNat / 2 ^ 56 % 2 ^ 8 := by
  rw [tag, UInt64.toNat_and, UInt64.toNat_shiftRight, Nat.shiftRight_eq_div_pow]
  exact Nat.and_two_pow_sub_one_eq_mod _ 8

lemma toNat_getRank (g : Guid) : g.getRank.toNat = g.toNat / 2 ^ 40 % 2 ^ 16 := by
  rw [getRank, UInt64.toNat_and, UInt64.toNat_shiftRight, Nat.shiftRight_eq_div_pow]
  exact Nat.and_two_pow_sub_one_eq_mod _ 16

end Guid

namespace GuidCall

variable {c : GuidCall}

/-- The GUIDs of the call are a range: indices and GUIDs correspond, they have the type and the rank
of the call, and other GUIDs have negative indices. -/
structure IsRange (c : GuidCall) : Prop where
  index : ∀ i < c.size, c.guid.indexFrom (c.guid.fromIndex i) = i.toNat
  fields : ∀ i < c.size, (c.guid.fromIndex i).tag.toNat = c.type.toNat ∧
    (c.guid.fromIndex i).getRank.toNat = c.route.toNat
  outside : ∀ g : Guid, c.guid.tag ≠ g.tag ∨ c.guid.getRank ≠ g.getRank ∨
    g.getKey < c.guid.getKey → c.guid.indexFrom g < 0

/-- The first key is a multiple of `hashSize`, and all of the GUIDs were allocated. -/
structure IsAligned (c : GuidCall) (hashSize : UInt32) : Prop where
  dvd : hashSize.toNat ∣ c.guid.getKey.toNat
  start_le : c.start.getKey.toNat ≤ c.guid.getKey.toNat
  le : c.guid.getKey.toNat + c.size.toNat ≤ c.start.getKey.toNat + c.count.toNat

lemma isRange_iff {k : ℕ} (hat : c.KeyAt k) (hin : c.Inside) (htype : c.type < lastType) :
    c.IsRange ↔ c.size.toNat ≤ 2 ^ 31 ∧ c.route.toNat < 2 ^ 16 := by
  obtain ⟨hle, hstart⟩ := hat
  obtain ⟨hpos, a, ha, hguid⟩ := hin
  have htype : c.type.toNat < 7 := UInt32.lt_iff_toNat_lt.1 htype
  have hnat : ∀ i < c.size, (c.guid.fromIndex i).toNat =
      2 ^ 56 * c.type.toNat + (2 ^ 40 * (c.route.toNat % 2 ^ 16) + (k + a + i.toNat)) := by
    intro i hi
    have hi' := UInt32.lt_iff_toNat_lt.1 hi
    rw [fromIndex, UInt64.toNat_add, hguid, UInt64.toNat_add, hstart, UInt64.toNat_ofNat',
      UInt32.toNat_toUInt64]
    omega
  have hzero : c.guid.fromIndex 0 = c.guid := UInt64.add_zero _
  have h0 : (0 : UInt32) < c.size := UInt32.lt_iff_toNat_lt.2 hpos
  have hindex : ∀ i < c.size, c.guid.indexFrom (c.guid.fromIndex i) = Int.bmod i.toNat (2 ^ 32) := by
    intro i hi
    have hi' := UInt32.lt_iff_toNat_lt.1 hi
    have hg := hzero ▸ hnat 0 h0
    have hgi := hnat i hi
    rw [UInt32.toNat_zero, Nat.add_zero] at hg
    have hkey : c.guid.getKey ≤ (c.guid.fromIndex i).getKey := by
      rw [UInt64.le_iff_toNat_le, toNat_getKey, toNat_getKey]
      omega
    rw [Guid.indexFrom, if_neg, if_neg, if_neg (UInt64.not_lt.2 hkey),
      UInt64.toNat_sub_of_le _ _ hkey, toNat_getKey, toNat_getKey]
    · congr 1
      omega
    · rw [not_not, ← UInt64.toNat_inj, Guid.toNat_getRank, Guid.toNat_getRank]
      omega
    · rw [not_not, ← UInt64.toNat_inj, Guid.toNat_tag, Guid.toNat_tag]
      omega
  refine ⟨fun h => ⟨?_, ?_⟩, fun h => ⟨fun i hi => ?_, fun i hi => ?_, ?_⟩⟩
  · by_contra hgt
    have hi : (2 ^ 31 : UInt32) < c.size := UInt32.lt_iff_toNat_lt.2 (Nat.lt_of_not_le hgt)
    exact absurd ((hindex _ hi).symm.trans (h.index _ hi)) (by decide)
  · rw [← (h.fields 0 h0).2, Guid.toNat_getRank]
    exact Nat.mod_lt _ (by decide)
  · have hi' := UInt32.lt_iff_toNat_lt.1 hi
    rw [hindex i hi, Int.bmod_eq_of_le] <;> omega
  · have hi' := UInt32.lt_iff_toNat_lt.1 hi
    rw [Guid.toNat_tag, Guid.toNat_getRank, hnat i hi]
    omega
  · intro g hg
    rw [Guid.indexFrom]
    split_ifs with h₁ h₂ h₃
    · decide
    · decide
    · decide
    · exact absurd hg (by tauto)

end GuidCall

lemma GuidNode.allocate_valid {n n' : GuidNode} {c : GuidCall} {t route type count size : UInt32}
    {align : Guid → Guid} (h : (if size ≠ 0 ∧ validType type then
      n.allocate t route type count align size else none) = some (n', c)) :
    c.type < lastType ∧ c.size = size ∧ c.count = count ∧ c.guid = align c.start := by
  obtain ⟨hv, h⟩ := ite_none_right_eq_some.1 h
  obtain ⟨⟨m, g⟩, -, he⟩ := map_eq_some_iff.1 h
  cases he
  exact ⟨of_decide_eq_true (Bool.and_eq_true_iff.1 hv.2).2, rfl, rfl, rfl⟩

lemma GuidNode.dvd_alignTo {hashSize : UInt32} {k d : ℕ} {g : Guid} (hd : d ≤ k)
    (hdvd : hashSize.toNat ∣ g.toNat % 2 ^ 40 + d) (hlt : g.toNat % 2 ^ 40 + d < 2 ^ 40) :
    hashSize.toNat ∣ (alignTo hashSize k g).getKey.toNat := by
  induction k generalizing g d with
  | zero =>
    obtain rfl := Nat.le_zero.1 hd
    rw [alignTo, toNat_getKey]
    exact hdvd
  | succ k ih =>
    have hmod : g.getKey % hashSize.toUInt64 = 0 ↔ hashSize.toNat ∣ g.toNat % 2 ^ 40 := by
      rw [← UInt64.toNat_inj, UInt64.toNat_mod, UInt32.toNat_toUInt64, toNat_getKey,
        Nat.dvd_iff_mod_eq_zero]
      rfl
    rw [alignTo]
    split_ifs with h
    · rw [toNat_getKey]
      exact hmod.1 h
    · cases d with
      | zero => exact absurd (hmod.2 hdvd) h
      | succ d =>
        have hsucc : (g + 1).toNat % 2 ^ 40 = g.toNat % 2 ^ 40 + 1 := by
          rw [UInt64.toNat_add, UInt64.toNat_one]
          omega
        exact ih (d := d) (by omega) (by rwa [hsucc, Nat.add_assoc, Nat.add_comm 1])
          (by rw [hsucc]; omega)

namespace GuidCluster

variable {s : GuidCluster} {r t : UInt32} {n : GuidNode} {c : GuidCall}

lemma Inv.exists_keyAt {mark : ℕ} {q : GuidRequest} (h : s.Inv mark)
    (hr : r < (s.nodes 0).rankCount) (hreq : (s.nodes r).request t q = some (n, c))
    (hpos : 0 < c.count.toNat) : ∃ k, c.KeyAt k := by
  cases hs : s.started with
  | true => exact ⟨_, (h.alloc_key hs hr hreq).2.2.2.2⟩
  | false =>
    have hmark := h.mark_le
    have hnat := h.guidOn r
    rw [hs] at hnat
    have hon : (s.nodes r).globalGuidOn ≠ 0 := fun h0 => by
      rw [h0] at hnat
      exact absurd hnat (h.before hs).1.ne
    obtain ⟨-, hstart, hlt⟩ := createForRankInternal_startup hon (request_eq_some hreq).1
    have hsub : ((s.nodes r).globalGuidOn - c.count.toUInt64).toNat =
        (s.nodes r).globalGuidOn.toNat - c.count.toNat := by
      rw [UInt64.toNat_sub_of_le _ _ ?_, UInt32.toNat_toUInt64]
      rw [UInt64.le_iff_toNat_le, UInt32.toNat_toUInt64]
      exact hlt.le
    simp only [Bool.false_eq_true, if_false] at hnat
    exact ⟨_, GuidCall.keyAt_make (by omega) (by omega) hstart⟩

/-- **When a range is right**: its size is at most `2 ^ 31`, the rank fits into a GUID, and for a
range with an aligned start the sizes together do not exceed 32 bits. -/
theorem range_iff (hs : machine.Reachable s) (hr : r < (s.nodes 0).rankCount)
    {type size route hashSize : UInt32} (hh : 1 ≤ hashSize.toNat) :
    ((s.nodes r).request t (.reserveRange type size route) = some (n, c) →
      (c.IsRange ↔ size.toNat ≤ 2 ^ 31 ∧ c.route.toNat < 2 ^ 16)) ∧
    ((s.nodes r).request t (.reserveRangeHash type size route hashSize) = some (n, c) →
      (c.IsRange ∧ c.IsAligned hashSize ↔ size.toNat ≤ 2 ^ 31 ∧ c.route.toNat < 2 ^ 16 ∧
        size.toNat + hashSize.toNat < 2 ^ 32)) := by
  obtain ⟨mark, hi⟩ := inv_of_reachable hs
  -- a call that is narrow enough
  have hrange : ∀ q : GuidRequest, q.Narrow → (s.nodes r).request t q = some (n, c) →
      c.type < lastType → ∃ k, c.KeyAt k ∧ c.Inside ∧
        (c.IsRange ↔ c.size.toNat ≤ 2 ^ 31 ∧ c.route.toNat < 2 ^ 16) := by
    intro q hq hreq htype
    have hin := inside_of_request hq hreq
    obtain ⟨k, hat⟩ := hi.exists_keyAt hr hreq (by obtain ⟨hpos, a, ha, -⟩ := hin; omega)
    exact ⟨k, hat, hin, GuidCall.isRange_iff hat hin htype⟩
  refine ⟨fun hreq => ?_, fun hreq => ?_⟩ <;>
    obtain ⟨htype, hsize, hcount, hguid⟩ := allocate_valid hreq
  · obtain ⟨-, -, -, hiff⟩ := hrange (.reserveRange type size route) trivial hreq htype
    rwa [hsize] at hiff
  · by_cases hsum : size.toNat + hashSize.toNat < 2 ^ 32
    · obtain ⟨k, ⟨hle, hstart⟩, ⟨hpos, a, ha, hg⟩, hiff⟩ :=
        hrange (.reserveRangeHash type size route hashSize) hsum hreq htype
      have hcnat := congrArg UInt32.toNat hcount
      rw [UInt32.toNat_add, Nat.mod_eq_of_lt hsum] at hcnat
      have hdiv := Nat.div_add_mod (k + hashSize.toNat - 1) hashSize.toNat
      have hmod := Nat.mod_lt (k + hashSize.toNat - 1) hh
      have hkey : c.start.toNat % 2 ^ 40 = k := by omega
      have hal : c.IsAligned hashSize := by
        refine ⟨?_, ?_, ?_⟩
        · rw [hguid]
          refine dvd_alignTo (d := hashSize.toNat * ((k + hashSize.toNat - 1) / hashSize.toNat) - k)
            (by omega) ?_ (by omega)
          rw [hkey, Nat.add_sub_cancel' (by omega)]
          exact Nat.dvd_mul_right _ _
        all_goals
          rw [toNat_getKey, toNat_getKey, hg, UInt64.toNat_add, UInt64.toNat_ofNat']
          omega
      rw [hiff, hsize]
      tauto
    · refine iff_of_false (fun h => ?_) fun h => hsum h.2.2
      have hge := h.2.start_le
      have hle := h.2.le
      have hlt := hashSize.toNat_lt
      rw [hcount, hsize, UInt32.toNat_add] at hle
      omega

/-- Rank 1 of two ranks reserves five aligned GUIDs before the parallel start. -/
theorem range_five : ∃ s n c, machine.Reachable s ∧
    (s.nodes 1).request 0 (.reserveRangeHash 1 5 1 4) = some (n, c) ∧ c.IsRange ∧ c.IsAligned 4 := by
  have hs : machine.Reachable (create 2 1 1 1) := Machine.Reachable.of_init ⟨2, 1, 1, 1, by decide, rfl⟩
  have hreq : ((create 2 1 1 1).nodes 1).request 0 (.reserveRangeHash 1 5 1 4) = some (_, _) := rfl
  exact ⟨_, _, _, hs, hreq, ((range_iff hs (by decide) (by decide)).2 hreq).2 (by decide)⟩

/-- A range of `2 ^ 31 + 1` GUIDs: the index of the last one is negative. -/
theorem not_isRange_large : ∃ s n c, machine.Reachable s ∧
    (s.nodes 0).request 0 (.reserveRange 1 0x80000001 0) = some (n, c) ∧
    c.guid.indexFrom (c.guid.fromIndex 0x80000000) = -2 ^ 31 ∧ ¬ c.IsRange := by
  have hs : machine.Reachable (create 1 1 0 0) := Machine.Reachable.of_init ⟨1, 1, 0, 0, by decide, rfl⟩
  exact ⟨_, _, _, hs, rfl, by decide, fun h => absurd (h.index 0x80000000 (by decide)) (by decide)⟩

end GuidCluster

end Arts
