import Mathlib

/-!
# Machines: transition systems whose steps are computed

A machine has initial states and a partial function `next s l`; a run is a list of labels.
`Machine.restrict ok` has the runs all of whose steps meet `ok`; `Machine.Reachable.invariant` is
induction.
-/

namespace Arts

/-- A transition system with computed steps: states `S`, actions `L`. -/
structure Machine (S : Type*) (L : Type*) where
  init : S → Prop
  /-- The state after the action, or `none` if the action is not possible. -/
  next : S → L → Option S

namespace Machine

variable {S L : Type*} (M : Machine S L)

/-- Execute the actions in order. -/
def exec : S → List L → Option S
  | s, [] => some s
  | s, l :: ls => (M.next s l).bind fun s' => exec s' ls

/-- Some run leads from `s` to `s'`. -/
def Leads (s s' : S) : Prop := ∃ ls, M.exec s ls = some s'

/-- Some run leads from an initial state to `s`. -/
def Reachable (s : S) : Prop := ∃ s₀, M.init s₀ ∧ M.Leads s₀ s

/-- The machine whose steps all meet the condition `ok`. -/
def restrict (ok : S → L → Prop) [∀ s l, Decidable (ok s l)] : Machine S L where
  init := M.init
  next s l := if ok s l then M.next s l else none

variable {M}

@[simp] lemma exec_nil (s : S) : M.exec s [] = some s := rfl

@[simp] lemma exec_cons (s : S) (l : L) (ls : List L) :
    M.exec s (l :: ls) = (M.next s l).bind fun s' => M.exec s' ls := rfl

lemma exec_append (s : S) (ls ls' : List L) :
    M.exec s (ls ++ ls') = (M.exec s ls).bind fun s' => M.exec s' ls' := by
  induction ls generalizing s with
  | nil => rfl
  | cons l ls ih =>
    simp only [List.cons_append, exec_cons]
    cases M.next s l with
    | none => rfl
    | some s' => exact ih s'

lemma exec_map {T K : Type*} {N : Machine T K} {f : S → T} {g : L → K}
    (h : ∀ s l, N.next (f s) (g l) = (M.next s l).map f) (s : S) (ls : List L) :
    N.exec (f s) (ls.map g) = (M.exec s ls).map f := by
  induction ls generalizing s with
  | nil => rfl
  | cons l ls ih =>
    rw [List.map_cons, exec_cons, exec_cons, h]
    cases M.next s l with
    | none => rfl
    | some s' => exact ih s'

variable {I : S → Prop} {s s' : S}

lemma exec_invariant (hstep : ∀ s l s', I s → M.next s l = some s' → I s') {ls : List L} (hs : I s) (h : M.exec s ls = some s') : I s' := by
  induction ls generalizing s with
  | nil => cases h; exact hs
  | cons l ls ih =>
    obtain ⟨s₁, h₁, h₂⟩ := Option.bind_eq_some_iff.1 h
    exact ih (hstep s l s₁ hs h₁) h₂

/-- A run is not longer than a measure that every step decreases. -/
theorem exec_length_le {μ : S → Nat} (hstep : ∀ s l s', I s → M.next s l = some s' → I s' ∧ μ s' < μ s)
    {ls : List L} (hs : I s) (h : M.exec s ls = some s') : ls.length ≤ μ s := by
  induction ls generalizing s with
  | nil => exact Nat.zero_le _
  | cons l ls ih =>
    obtain ⟨s₁, h₁, h₂⟩ := Option.bind_eq_some_iff.1 h
    obtain ⟨hs₁, hlt⟩ := hstep s l s₁ hs h₁
    have := ih hs₁ h₂
    rw [List.length_cons]
    omega

lemma Leads.refl (s : S) : M.Leads s s := ⟨[], rfl⟩

lemma Leads.trans {s₁ s₂ s₃ : S} (h : M.Leads s₁ s₂) (h' : M.Leads s₂ s₃) : M.Leads s₁ s₃ := by
  obtain ⟨ls, h⟩ := h
  obtain ⟨ls', h'⟩ := h'
  exact ⟨ls ++ ls', by rw [exec_append, h]; exact h'⟩

lemma Leads.of_next {l : L} (h : M.next s l = some s') : M.Leads s s' :=
  ⟨[l], by simp [h]⟩

lemma Leads.exists_of_exec {P : S → Prop} [DecidablePred P] {r : List L}
    (hrun : ((M.exec s r).any fun t => decide (P t)) = true) : ∃ t, M.Leads s t ∧ P t := by
  cases hex : M.exec s r with
  | none => simp [hex] at hrun
  | some t => exact ⟨t, ⟨r, hex⟩, by simpa [hex] using hrun⟩

lemma Leads.invariant (h : M.Leads s s') (hs : I s)
    (hstep : ∀ s l s', I s → M.next s l = some s' → I s') : I s' := by
  obtain ⟨ls, h⟩ := h
  exact exec_invariant hstep hs h

namespace Reachable

variable {s : S}

lemma of_init (h : M.init s) : M.Reachable s := ⟨s, h, Leads.refl s⟩

variable {s' : S}

lemma leads (h : M.Reachable s) (h' : M.Leads s s') : M.Reachable s' := by
  obtain ⟨s₀, h₀, hl⟩ := h
  exact ⟨s₀, h₀, hl.trans h'⟩

lemma next {l : L} (h : M.Reachable s) (h' : M.next s l = some s') : M.Reachable s' :=
  h.leads (Leads.of_next h')

lemma exists_of_exec {P : S → Prop} [DecidablePred P] {r : List L} (h : M.init s)
    (hrun : ((M.exec s r).any fun t => decide (P t)) = true) : ∃ t, M.Reachable t ∧ P t := by
  obtain ⟨t, hl, hP⟩ := Leads.exists_of_exec hrun
  exact ⟨t, ⟨s, h, hl⟩, hP⟩

/-! The run `r` ends in a state in which `A` holds, so that `Q` does. -/

variable {A B Q : S → Prop} [DecidablePred A] [DecidablePred B] {r : List L}

lemma exists_and (h : M.init s) (hrun : ((M.exec s r).any fun t => decide (A t)) = true)
    (hQ : ∀ t, M.Reachable t → A t → Q t) : ∃ t, M.Reachable t ∧ A t ∧ Q t := by
  obtain ⟨t, ht, hA⟩ := exists_of_exec h hrun
  exact ⟨t, ht, hA, hQ t ht hA⟩

lemma exists_and₂ (h : M.init s) (hrun : ((M.exec s r).any fun t => decide (A t ∧ B t)) = true)
    (hQ : ∀ t, M.Reachable t → A t → B t → Q t) : ∃ t, M.Reachable t ∧ A t ∧ B t ∧ Q t := by
  obtain ⟨t, ht, hA, hB⟩ := exists_of_exec h hrun
  exact ⟨t, ht, hA, hB, hQ t ht hA hB⟩

/-- **Inductive invariants** hold in every reachable state. -/
theorem invariant {I : S → Prop} (h : M.Reachable s) (hinit : ∀ s, M.init s → I s)
    (hstep : ∀ s l s', M.Reachable s → I s → M.next s l = some s' → I s') : I s := by
  obtain ⟨s₀, h₀, hl⟩ := h
  -- the induction carries reachability along, so that invariants can build on one another
  have key : M.Reachable s ∧ I s :=
    hl.invariant (I := fun s => M.Reachable s ∧ I s) ⟨of_init h₀, hinit s₀ h₀⟩
      fun s l s' ⟨hr, hi⟩ hst => ⟨hr.next hst, hstep s l s' hr hi hst⟩
  exact key.2

end Reachable

section Restrict

variable {ok : S → L → Prop} [∀ s l, Decidable (ok s l)]

variable {s s' : S}

lemma restrict_next {l : L} :
    (M.restrict ok).next s l = some s' ↔ ok s l ∧ M.next s l = some s' := by
  simp only [restrict]
  split_ifs with h <;> simp [h]

lemma Leads.of_restrict (h : (M.restrict ok).Leads s s') : M.Leads s s' :=
  h.invariant (Leads.refl s) fun _ _ _ hl hst =>
    hl.trans (Leads.of_next (restrict_next.1 hst).2)

lemma Reachable.of_restrict (h : (M.restrict ok).Reachable s) : M.Reachable s := by
  obtain ⟨s₀, h₀, hl⟩ := h
  exact ⟨s₀, h₀, hl.of_restrict⟩

end Restrict

end Machine

end Arts
