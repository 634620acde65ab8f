import Arts.Machine.Basic
import Arts.Machine.Calls

/-!
# Calls on a shared memory

`Pool.Ok` is an invariant of the memory, of each call, and between any two calls;
**`Pool.Ok.advance`** is the rule by which it is kept.
-/

namespace Arts

/-- A shared memory and the calls that work on it. -/
structure Pool (M C : Type*) where
  mem : M
  calls : List C

namespace Pool

variable {M C : Type*}

/-- One step of the call `i`. -/
def advance (step : M → C → Option (M × C)) (s : Pool M C) (i : ℕ) : Option (Pool M C) :=
  (s.calls[i]?).bind fun c => (step s.mem c).map fun r => ⟨r.1, s.calls.set i r.2⟩

def machine (init : Pool M C → Prop) (step : M → C → Option (M × C)) : Machine (Pool M C) ℕ where
  init := init
  next := advance step

/-- What holds of the memory, of each call, and between two calls. -/
structure Ok (Mem : M → Prop) (Each : M → C → Prop) (Pair : C → C → Prop) (s : Pool M C) : Prop where
  mem : Mem s.mem
  each : ∀ {i : ℕ} {c}, s.calls[i]? = some c → Each s.mem c
  pair : ∀ {i j : ℕ} {c d}, i ≠ j → s.calls[i]? = some c → s.calls[j]? = some d → Pair c d

variable {Mem : M → Prop} {Each : M → C → Prop} {Pair : C → C → Prop} {s s' : Pool M C}
  {step : M → C → Option (M × C)} {i : ℕ}

/-- **The calls do not disturb each other.** -/
theorem Ok.advance (h : Ok Mem Each Pair s) (hsymm : ∀ c d, Pair c d → Pair d c)
    (hnext : Pool.advance step s i = some s')
    (hown : ∀ c c' m', s.calls[i]? = some c → step s.mem c = some (m', c') → Mem m' ∧ Each m' c' ∧
      ∀ (j : ℕ) d, i ≠ j → s.calls[j]? = some d → Each m' d ∧ Pair c' d) : Ok Mem Each Pair s' := by
  obtain ⟨c, hc, hmap⟩ := Option.bind_eq_some_iff.1 hnext
  obtain ⟨⟨m', c'⟩, hstep, rfl⟩ := Option.map_eq_some_iff.1 hmap
  obtain ⟨hmem, heach, hother⟩ := hown c c' m' hc hstep
  refine ⟨hmem, fun {j d} hj => ?_, fun {j k d e} hjk hj hk => ?_⟩
  · rcases getElem?_set_cases hj with ⟨rfl, rfl⟩ | ⟨hij, hj⟩
    · exact heach
    · exact (hother j d hij hj).1
  · rcases getElem?_set_cases hj with ⟨rfl, rfl⟩ | ⟨hij, hd⟩ <;>
      rcases getElem?_set_cases hk with ⟨rfl, rfl⟩ | ⟨hik, he⟩
    · exact absurd rfl hjk
    · exact (hother k e hik he).2
    · exact hsymm _ _ (hother j d hij hd).2
    · exact h.pair hjk hd he

end Pool

end Arts
