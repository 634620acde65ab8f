import Mathlib

/-!
# Two queues that empty each other

The `k`-th request is matched with the `k`-th offer, as soon as both have arrived
(`Rendezvous.run_spec`).
-/

namespace Arts

open List

/-- Waiting requests `α`, waiting offers `β` and the matches made so far. -/
structure Rendezvous (α β : Type*) where
  /-- The requests that wait for an offer, the oldest one first. -/
  requests : List α
  /-- The offers that wait for a request, the oldest one first. -/
  offers : List β
  matched : List (α × β)

namespace Rendezvous

variable {α β : Type*}

/-- A request or an offer arrives. -/
def step (q : Rendezvous α β) : α ⊕ β → Rendezvous α β
  | .inl a =>
    match q.offers with
    | [] => { q with requests := q.requests ++ [a] }
    | b :: bs => { q with offers := bs, matched := q.matched ++ [(a, b)] }
  | .inr b =>
    match q.requests with
    | [] => { q with offers := q.offers ++ [b] }
    | a :: as => { q with requests := as, matched := q.matched ++ [(a, b)] }

/-- Requests and offers arrive one after the other. -/
def run (xs : List (α ⊕ β)) : Rendezvous α β := xs.foldl step ⟨[], [], []⟩

def lefts (xs : List (α ⊕ β)) : List α := xs.filterMap Sum.getLeft?

def rights (xs : List (α ⊕ β)) : List β := xs.filterMap Sum.getRight?

@[simp] lemma lefts_append (xs ys : List (α ⊕ β)) : lefts (xs ++ ys) = lefts xs ++ lefts ys := by
  simp [lefts]

@[simp] lemma rights_append (xs ys : List (α ⊕ β)) :
    rights (xs ++ ys) = rights xs ++ rights ys := by
  simp [rights]

/-- The requests, the offers and the matches after the arrivals `as` and `bs`. -/
def ofLists (as : List α) (bs : List β) : Rendezvous α β :=
  ⟨as.drop bs.length, bs.drop as.length, as.zip bs⟩

lemma step_inl_ofLists (as : List α) (bs : List β) (a : α) :
    (ofLists as bs).step (.inl a) = ofLists (as ++ [a]) bs := by
  induction as generalizing bs with
  | nil => cases bs <;> simp [ofLists, step]
  | cons a' as ih =>
    cases bs with
    | nil => simp [ofLists, step]
    | cons b bs =>
      have h := ih bs
      simp only [ofLists, step, length_cons, drop_succ_cons] at h ⊢
      cases hd : bs.drop as.length with
      | nil => simp_all
      | cons b' bs' => simp_all

lemma step_inr_ofLists (as : List α) (bs : List β) (b : β) :
    (ofLists as bs).step (.inr b) = ofLists as (bs ++ [b]) := by
  induction bs generalizing as with
  | nil => cases as <;> simp [ofLists, step]
  | cons b' bs ih =>
    cases as with
    | nil => simp [ofLists, step]
    | cons a as =>
      have h := ih as
      simp only [ofLists, step, length_cons, drop_succ_cons] at h ⊢
      cases hd : as.drop bs.length with
      | nil => simp_all
      | cons a' as' => simp_all

/-- **First come, first served.** -/
theorem run_spec (xs : List (α ⊕ β)) : run xs = ofLists (lefts xs) (rights xs) := by
  induction xs using reverseRecOn with
  | nil => rfl
  | append_singleton xs x ih =>
    rw [run, foldl_append, ← run, ih, lefts_append, rights_append]
    cases x with
    | inl a =>
      rw [show rights [Sum.inl a] = ([] : List β) from rfl, append_nil]
      exact step_inl_ofLists _ _ a
    | inr b =>
      rw [show lefts [Sum.inr b] = ([] : List α) from rfl, append_nil]
      exact step_inr_ofLists _ _ b

lemma requests_or_offers_eq_nil (xs : List (α ⊕ β)) :
    (run xs).requests = [] ∨ (run xs).offers = [] := by
  rw [run_spec]
  simp only [ofLists, drop_eq_nil_iff]
  omega

end Rendezvous

end Arts
