import Mathlib

/-!
# Globally unique identifiers

`arts_guid_t` packs the type (bits 63–56), the rank of the owner (bits 55–40) and a key (bits 39–0).
`EdtGuid` has the tag `ARTS_EDT`; there are at most `2 ^ 56` (`EdtGuid.length_le_of_nodup`).
-/

namespace Arts

open Nat

/-- `arts_guid_t`. -/
abbrev Guid := UInt64

/-- `arts_type_t`, the tag stored in a GUID. -/
inductive ArtsType where
  | null
  | edt
  | event
  | epoch
  | callback
  | buffer
  | db
  | lastType
  deriving DecidableEq, Repr

/-- `arts_db_access_mode_t`. -/
inductive AccessMode where
  | null
  | ro
  | ew
  | rw
  | value
  | ptr
  | lcSync
  | lcNoCopy
  | memset
  deriving DecidableEq, Repr

/-- The tag with the given number; numbers without a tag are treated as `ARTS_LAST_TYPE`. -/
def ArtsType.ofTag : ℕ → ArtsType
  | 0 => .null
  | 1 => .edt
  | 2 => .event
  | 3 => .epoch
  | 4 => .callback
  | 5 => .buffer
  | 6 => .db
  | _ => .lastType

namespace Guid

/-- `NULL_GUID`. -/
def null : Guid := 0

/-- `ARTS_GUID_GET_RANK`. -/
def getRank (g : Guid) : UInt64 := (g >>> 40) &&& 0xFFFF

/-- `ARTS_GUID_GET_TYPE`. -/
def getType (g : Guid) : ArtsType := ArtsType.ofTag ((g >>> 56) &&& 0xFF).toNat

/-- `ARTS_GUID_GET_KEY`. -/
def getKey (g : Guid) : UInt64 := g &&& 0xFFFFFFFFFF

/-- `ARTS_GUID_MAKE`. -/
def make (type rank key : UInt64) : Guid :=
  (key &&& (0xFFFFFFFFFF : UInt64)) ||| ((rank &&& (0xFFFF : UInt64)) <<< (40 : UInt64)) |||
    ((type &&& (0xFF : UInt64)) <<< (56 : UInt64))

lemma toNat_make (type rank key : UInt64) : (make type rank key).toNat =
    2 ^ 56 * (type.toNat % 2 ^ 8) + (2 ^ 40 * (rank.toNat % 2 ^ 16) + key.toNat % 2 ^ 40) := by
  have h40 : (40 : UInt64).toNat % 64 = 40 := rfl
  have h56 : (56 : UInt64).toNat % 64 = 56 := rfl
  have hk : (0xFFFFFFFFFF : UInt64).toNat = 2 ^ 40 - 1 := rfl
  have hr : (0xFFFF : UInt64).toNat = 2 ^ 16 - 1 := rfl
  have ht : (0xFF : UInt64).toNat = 2 ^ 8 - 1 := rfl
  have hkey : key.toNat % 2 ^ 40 < 2 ^ 40 := mod_lt _ (by omega)
  simp only [make, UInt64.toNat_or, UInt64.toNat_and, UInt64.toNat_shiftLeft, h40, h56, hk, hr, ht,
    and_two_pow_sub_one_eq_mod, shiftLeft_eq, Nat.mul_comm _ (2 ^ _)]
  -- the fields do not overlap, so the disjunctions are sums
  rw [mod_eq_of_lt (by omega : 2 ^ 40 * (rank.toNat % 2 ^ 16) < 2 ^ 64),
    mod_eq_of_lt (by omega : 2 ^ 56 * (type.toNat % 2 ^ 8) < 2 ^ 64),
    Nat.or_comm (key.toNat % _), ← two_pow_add_eq_or_of_lt hkey, Nat.or_comm,
    ← two_pow_add_eq_or_of_lt (by omega)]

lemma toNat_getKey (g : Guid) : g.getKey.toNat = g.toNat % 2 ^ 40 := by
  have hk : (0xFFFFFFFFFF : UInt64).toNat = 2 ^ 40 - 1 := rfl
  rw [getKey, UInt64.toNat_and, hk, and_two_pow_sub_one_eq_mod]

lemma getType_eq (g : Guid) : g.getType = ArtsType.ofTag (g.toNat / 2 ^ 56) := by
  have hlt : g.toNat / 2 ^ 56 < 2 ^ 8 := by
    have := g.toNat_lt
    omega
  have h8 : (0xFF : ℕ) = 2 ^ 8 - 1 := rfl
  rw [getType, UInt64.toNat_and, UInt64.toNat_shiftRight]
  simp only [UInt64.reduceToNat, shiftRight_eq_div_pow]
  rw [h8, and_two_pow_sub_one_eq_mod, mod_eq_of_lt hlt]

lemma getType_eq_edt {g : Guid} (h : g.getType = .edt) : g.toNat / 2 ^ 56 = 1 := by
  rw [getType_eq] at h
  -- only the number 1 has the tag `edt`
  revert h
  generalize g.toNat / 2 ^ 56 = k
  unfold ArtsType.ofTag
  split <;> simp

end Guid

structure EdtGuid where
  guid : Guid
  /-- Its tag is `ARTS_EDT`. -/
  isEdt : guid.getType = .edt
  deriving DecidableEq, Repr

namespace EdtGuid

def fields (e : EdtGuid) : Fin (2 ^ 56) := ⟨e.guid.toNat % 2 ^ 56, mod_lt _ (by omega)⟩

lemma fields_injective : Function.Injective fields := by
  rintro ⟨a, ha⟩ ⟨b, hb⟩ h
  have h₁ := Guid.getType_eq_edt ha
  have h₂ := Guid.getType_eq_edt hb
  have h₃ : a.toNat % 2 ^ 56 = b.toNat % 2 ^ 56 := congrArg Fin.val h
  have : a = b := UInt64.toNat_inj.1 (by omega)
  subst this
  rfl

/-- The EDT of rank 0 with the given key. -/
def ofKey (key : UInt64) : EdtGuid where
  guid := Guid.make 1 0 key
  isEdt := by
    rw [Guid.getType_eq, Guid.toNat_make]
    have hkey : key.toNat % 2 ^ 40 < 2 ^ 40 := mod_lt _ (by omega)
    have htag : (2 ^ 56 * (UInt64.toNat 1 % 2 ^ 8) +
        (2 ^ 40 * (UInt64.toNat 0 % 2 ^ 16) + key.toNat % 2 ^ 40)) / 2 ^ 56 = 1 := by
      rw [UInt64.toNat_one, UInt64.toNat_zero]
      omega
    rw [htag]
    rfl

lemma ofKey_inj {k l : UInt64} (hk : k.toNat < 2 ^ 40) (hl : l.toNat < 2 ^ 40) :
    ofKey k = ofKey l ↔ k = l := by
  refine ⟨fun h => ?_, fun h => by rw [h]⟩
  have htoNat : (Guid.make 1 0 k).toNat = (Guid.make 1 0 l).toNat :=
    congrArg (fun e => e.guid.toNat) h
  rw [Guid.toNat_make, Guid.toNat_make] at htoNat
  exact UInt64.toNat_inj.1 (by omega)

lemma length_le_of_nodup {es : List EdtGuid} (h : es.Nodup) : es.length ≤ 2 ^ 56 := by
  have hn : (es.map fields).Nodup := h.map fields_injective
  have := hn.length_le_card
  rwa [List.length_map, Fintype.card_fin] at this

end EdtGuid

end Arts
