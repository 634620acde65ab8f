import Arts.Epoch.Node

/-!
# The owner of an epoch

It opens a *round* when its queue drains; the `reduce_epoch` call that leaves one unit *closes* it.
`Owner.Tokens` is the account of `outstanding`.
-/

namespace Arts

open Call

/-- The configuration of the rank that owns the epoch, one of at least two. -/
structure Config.IsOwner (cfg : Config) : Prop where
  rankCount : 2 ≤ cfg.rankCount.toNat
  own : cfg.origin = cfg.rankId
  origin_lt : cfg.origin < cfg.rankCount.toNat

variable {cfg : Config}

lemma Config.IsOwner.rankCount_ne_one (h : cfg.IsOwner) : cfg.rankCount ≠ 1 := by
  intro h1
  have := h.rankCount
  rw [h1] at this
  simp at this

/-- The number of requests that the iterations of a broadcast from the `i`-th on send. -/
def Config.requestsFrom (cfg : Config) (i : ℕ) : ℕ :=
  cfg.rankCount.toNat - i - if i ≤ cfg.origin then 1 else 0

lemma Config.requestsFrom_zero (cfg : Config) : cfg.requestsFrom 0 = cfg.rankCount.toNat - 1 := by
  simp [requestsFrom]

variable {i : ℕ}

lemma Config.IsOwner.requestsFrom_eq (h : cfg.IsOwner) (hi : i < cfg.rankCount.toNat) :
    cfg.requestsFrom i = cfg.requestsFrom (i + 1) + if i = cfg.origin then 0 else 1 := by
  have := h.origin_lt
  simp only [requestsFrom]
  split_ifs <;> omega

lemma Config.requestsFrom_of_le (hi : cfg.rankCount.toNat ≤ i) : cfg.requestsFrom i = 0 := by
  simp [requestsFrom, hi]

def countRequest : Option Out → ℕ
  | some (.epochReq _) => 1
  | _ => 0

namespace Call

variable {ε : Type*}

def onOwner (cfg : Config) : Call ε → Bool
  | .finish _ .add | .finish _ .subQueued | .finish _ .casOutstanding | .finish _ .done => true
  | .finish _ (.broadcast i) | .reduce _ _ (.broadcast i) => decide (i < cfg.rankCount.toNat)
  | .reduce _ _ _ => true
  | _ => false

/-- The units of `outstanding` that a call accounts for: one for every request it has yet to
broadcast, and one for the reply it handles. -/
def units (cfg : Config) : Call ε → ℕ
  | .finish _ (.broadcast i) | .reduce _ _ (.broadcast i) => cfg.requestsFrom i
  | .reduce _ _ .test | .reduce _ _ .addActive | .reduce _ _ (.addFinish _) |
    .reduce _ _ (.load _ _) | .reduce _ _ (.cas _ _ _) => 1
  | _ => 0

def closing : Call ε → ℕ
  | .reduce _ _ (.readActive _ _) | .reduce _ _ (.readFinish _ _) |
    .reduce _ _ (.resetActive _ _) | .reduce _ _ (.resetFinish _ _) | .reduce _ _ (.check _ _) |
    .reduce _ _ (.testLastActive _ _) | .reduce _ _ (.testLastFinish _ _) |
    .reduce _ _ (.casPhase _) | .reduce _ _ (.complete _) | .reduce _ _ (.fire _) |
    .reduce _ _ (.recordActive _ _) | .reduce _ _ (.recordFinish _) | .reduce _ _ .setPhase2 |
    .reduce _ _ .readQueued | .reduce _ _ .openRound | .reduce _ _ .closeRound => 1
  | _ => 0

/-- What a step of a call on the owner does to `outstanding` and to the units it counts. -/
inductive TokenStep (cfg : Config) (e : Epoch) (c : Call ε) (e' : Epoch) (c' : Call ε)
    (out : Option Out) : Prop
  | stay : e'.outstanding = e.outstanding → c'.units cfg = c.units cfg →
      c'.closing = c.closing → countRequest out = 0 → TokenStep cfg e c e' c' out
  | request : e'.outstanding = e.outstanding → c.units cfg = c'.units cfg + 1 →
      c'.closing = c.closing → countRequest out = 1 → TokenStep cfg e c e' c' out
  /-- The queue has drained and no round is open: a round is opened. -/
  | opens : e.outstanding = 0 → e'.outstanding = cfg.rankCount.toUInt64 → c.units cfg = 0 →
      c'.units cfg = cfg.rankCount.toNat - 1 → c.closing = 0 → c'.closing = 0 →
      countRequest out = 0 → TokenStep cfg e c e' c' out
  | reopens : e'.outstanding = e.outstanding + (cfg.rankCount - 1).toUInt64 → c.units cfg = 0 →
      c'.units cfg = cfg.rankCount.toNat - 1 → c.closing = 1 → c'.closing = 0 →
      countRequest out = 0 → TokenStep cfg e c e' c' out
  | closes : e'.outstanding = e.outstanding - 1 → c.units cfg = 0 → c'.units cfg = 0 →
      c.closing = 1 → c'.closing = 0 → countRequest out = 0 → TokenStep cfg e c e' c' out
  /-- A reply is accepted; the one that leaves a single unit closes the round. -/
  | accepts : e'.outstanding = e.outstanding - 1 → c.units cfg = 1 → c'.units cfg = 0 →
      c.closing = 0 → c'.closing = (if e.outstanding - 1 = 1 then 1 else 0) →
      countRequest out = 0 → TokenStep cfg e c e' c' out
  | ignores : e.outstanding ≤ 1 → c.units cfg = 1 → TokenStep cfg e c e' c' out

lemma countRequest_fire (e : Epoch) (v : UInt32) : countRequest (some (e.fire v)) = 0 := by
  unfold Epoch.fire
  split_ifs <;> rfl

variable {cfg : Config} {c : Call ε}

lemma tokenStep_broadcast (hcfg : cfg.IsOwner) (e : Epoch) {c' : Call ε} {i : ℕ}
    (hi : i < cfg.rankCount.toNat) (hc : c.units cfg = cfg.requestsFrom i)
    (hc' : c'.units cfg = cfg.requestsFrom (i + 1)) (hclosing : c'.closing = c.closing) :
    TokenStep cfg e c e c' (broadcastReq cfg i) := by
  rw [hcfg.requestsFrom_eq hi, ← hc'] at hc
  unfold broadcastReq
  split_ifs with h
  · exact .request rfl (by simpa [h] using hc) hclosing rfl
  · exact .stay rfl (by simpa [not_not.1 h] using hc.symm) hclosing rfl

lemma tokenStep_step (hcfg : cfg.IsOwner) (ff : Bool) (e : Epoch) (hc : c.onOwner cfg = true) :
    TokenStep cfg e c (c.step cfg ff e).1 (c.step cfg ff e).2.1 (c.step cfg ff e).2.2 := by
  cases c with
  | finish x pc =>
    cases pc with
    | add =>
      simp only [step, finishStep, FinishPc.afterAdd, hcfg.rankCount_ne_one, hcfg.own]
      exact .stay rfl rfl rfl rfl
    | subQueued =>
      simp only [step, finishStep]
      split_ifs <;> exact .stay rfl rfl rfl rfl
    | casOutstanding =>
      simp only [step, finishStep]
      split_ifs with h
      · exact .opens h rfl rfl cfg.requestsFrom_zero rfl rfl rfl
      · exact .stay rfl rfl rfl rfl
    | broadcast i =>
      have hi : i < cfg.rankCount.toNat := by simpa [onOwner] using hc
      simp only [step, finishStep]
      refine tokenStep_broadcast hcfg e hi rfl ?_ ?_
      · split_ifs with h
        · rfl
        · exact (Config.requestsFrom_of_le (not_lt.1 h)).symm
      · split_ifs <;> rfl
    | done => exact .stay rfl rfl rfl rfl
    | casPhase | complete | fire | delete | load | cas | send => simp [onOwner] at hc
  | send pc => simp [onOwner] at hc
  | reduce a f pc =>
    cases pc with
    | test | load ta tf =>
      simp only [step, reduceStep]
      split_ifs with h
      · exact .ignores h rfl
      · exact .stay rfl rfl rfl rfl
    | cas ta tf before =>
      simp only [step, reduceStep]
      split_ifs with h h1
      · subst h; exact .accepts rfl rfl rfl rfl (by simp [h1, closing]) rfl
      · subst h; exact .accepts rfl rfl rfl rfl (by simp [h1, closing]) rfl
      · exact .stay rfl rfl rfl rfl
    | check ta tf =>
      simp only [step, reduceStep, checkStep]
      split_ifs <;> exact .stay rfl rfl rfl rfl
    | testLastActive ta tf | testLastFinish ta tf | casPhase tf | readQueued | testPhase =>
      simp only [step, reduceStep]
      split_ifs <;> exact .stay rfl rfl rfl rfl
    | fire tf => exact .stay rfl rfl rfl (countRequest_fire e tf)
    | openRound => exact .reopens rfl rfl cfg.requestsFrom_zero rfl rfl rfl
    | closeRound => exact .closes rfl rfl rfl rfl rfl rfl
    | broadcast i =>
      have hi : i < cfg.rankCount.toNat := by simpa [onOwner] using hc
      simp only [step, reduceStep]
      refine tokenStep_broadcast hcfg e hi rfl ?_ ?_
      · split_ifs with h
        · rfl
        · exact (Config.requestsFrom_of_le (not_lt.1 h)).symm
      · split_ifs <;> rfl
    | addActive | addFinish | undoActive | undoFinish | readActive | readFinish | resetActive |
      resetFinish | complete | recordActive | recordFinish | setPhase2 | delete | done =>
      exact .stay rfl rfl rfl rfl

lemma onOwner_step (hcfg : cfg.IsOwner) (ff : Bool) (e : Epoch)
    (hc : c.onOwner cfg = true) : (c.step cfg ff e).2.1.onOwner cfg = true := by
  have hpos : 0 < cfg.rankCount.toNat := by have := hcfg.rankCount; omega
  cases c with
  | finish x pc =>
    cases pc with
    | add =>
      simp [step, finishStep, FinishPc.afterAdd, hcfg.rankCount_ne_one, hcfg.own, onOwner]
    | subQueued | casOutstanding | broadcast =>
      simp only [step, finishStep]
      split_ifs <;> simp_all [onOwner]
    | done => rfl
    | casPhase | complete | fire | delete | load | cas | send => simp [onOwner] at hc
  | send pc => simp [onOwner] at hc
  | reduce a f pc =>
    cases pc <;> simp only [step, reduceStep, checkStep] <;> (try split_ifs) <;>
      simp_all [onOwner]

end Call

/-- The owner of the epoch, with the number of requests sent and replies received. -/
structure Owner (ε : Type*) where
  node : Node ε
  requests : ℕ
  replies : ℕ
  deriving DecidableEq, Repr

namespace Owner

variable {ε : Type*}

/-- The actions that can happen on the owner: it sends no request to itself, and every reply
answers a request. -/
def Admits (s : Owner ε) : Act ε → Prop
  | .request => False
  | .reply _ _ => s.replies < s.requests
  | _ => True

instance (s : Owner ε) (a : Act ε) : Decidable (s.Admits a) := by
  cases a <;> unfold Admits <;> infer_instance

def countReply : Act ε → ℕ
  | .reply _ _ => 1
  | _ => 0

def next [DecidableEq ε] (cfg : Config) (s : Owner ε) (a : Act ε) : Option (Owner ε) :=
  if s.Admits a then
    (s.node.next cfg a).map fun r =>
      ⟨r.1, s.requests + countRequest r.2, s.replies + countReply a⟩
  else none

def machine [DecidableEq ε] (cfg : Config) : Machine (Owner ε) (Act ε) where
  init s := ∃ guid edtGuid slot, s = ⟨.create guid edtGuid slot true, 0, 0⟩
  next := next cfg

variable {cfg : Config}

lemma next_eq_some [DecidableEq ε] {a : Act ε} {s s' : Owner ε} :
    s.next cfg a = some s' ↔ s.Admits a ∧ ∃ n out, s.node.next cfg a = some (n, out) ∧
      s' = ⟨n, s.requests + countRequest out, s.replies + countReply a⟩ := by
  simp only [next]
  split_ifs with h
  · simp [h, eq_comm]
  · simp [h]

/-- The account of `outstanding`. Units are lost only when a reply finds the epoch deleted. -/
structure Tokens (cfg : Config) (s : Owner ε) : Prop where
  onOwner : ∀ c ∈ s.node.calls, c.onOwner cfg = true
  answered : s.replies ≤ s.requests
  account : ∃ lost, (s.node.present = true → lost = 0) ∧
    weight (units cfg) s.node.calls + s.requests + lost =
      s.replies + (s.node.epoch.outstanding.toNat - 1)
  closing : weight closing s.node.calls = 1 ∧ s.node.epoch.outstanding.toNat = 1 ∨
    weight closing s.node.calls = 0 ∧ s.node.epoch.outstanding.toNat ≠ 1

lemma Tokens.congr {s s' : Owner ε} (h : s.Tokens cfg)
    (hcalls : s'.node.calls = s.node.calls) (hpres : s'.node.present = s.node.present)
    (hout : s'.node.epoch.outstanding = s.node.epoch.outstanding)
    (hreq : s'.requests = s.requests) (hrep : s'.replies = s.replies) : s'.Tokens cfg := by
  refine ⟨by rw [hcalls]; exact h.onOwner, by rw [hreq, hrep]; exact h.answered, ?_, ?_⟩
  · rw [hcalls, hpres, hout, hreq, hrep]
    exact h.account
  · rw [hcalls, hout]
    exact h.closing

variable {cfg : Config} {s s' : Owner ε}

lemma Tokens.two_le_outstanding (h : s.Tokens cfg) {c : Call ε} (hc : c ∈ s.node.calls)
    (hu : 0 < c.units cfg) : 2 ≤ s.node.epoch.outstanding.toNat := by
  obtain ⟨lost, -, hacc⟩ := h.account
  have := h.answered
  have := le_weight (units cfg) hc
  omega

lemma tokens_step (hcfg : cfg.IsOwner) (h : s.Tokens cfg) {i : ℕ} (ff : Bool) {c : Call ε}
    (hc : s.node.calls[i]? = some c) : Tokens cfg ⟨s.node.advance cfg i ff c,
      s.requests + countRequest (c.step cfg ff s.node.epoch).2.2, s.replies⟩ := by
  have hown := h.onOwner c (List.mem_of_getElem? hc)
  have hst := tokenStep_step hcfg ff s.node.epoch hown
  have hn := hcfg.rankCount
  obtain ⟨lost, hlost, hacc⟩ := h.account
  have hclose := h.closing
  have hans := h.answered
  have hle := le_weight_of_getElem? (units cfg) hc
  have hu := weight_set (units cfg) hc (c.step cfg ff s.node.epoch).2.1
  have hcl := weight_set closing hc (c.step cfg ff s.node.epoch).2.1
  have hpresent : (s.node.advance cfg i ff c).present = true → lost = 0 := by
    simp only [Node.advance, Bool.and_eq_true]
    exact fun hp => hlost hp.1
  suffices hsuf : weight (units cfg) (s.node.calls.set i _) +
      (s.requests + countRequest (c.step cfg ff s.node.epoch).2.2) + lost =
        s.replies + ((c.step cfg ff s.node.epoch).1.outstanding.toNat - 1) ∧
      (weight closing (s.node.calls.set i _) = 1 ∧
          (c.step cfg ff s.node.epoch).1.outstanding.toNat = 1 ∨
        weight closing (s.node.calls.set i _) = 0 ∧
          (c.step cfg ff s.node.epoch).1.outstanding.toNat ≠ 1) from
    ⟨forall_mem_set h.onOwner (onOwner_step hcfg ff _ hown),
      hans.trans (Nat.le_add_right _ _), ⟨lost, hpresent, hsuf.1⟩, hsuf.2⟩
  generalize c.step cfg ff s.node.epoch = r at *
  cases hst with
  | stay ho hu' hc' hr | request ho hu' hc' hr =>
    rw [ho, hr]
    omega
  | opens h0 ho =>
    rw [h0, UInt64.toNat_zero] at hacc hclose
    rw [ho, UInt32.toNat_toUInt64]
    omega
  | reopens ho =>
    -- the call is closing, so one unit is left
    have h1 : s.node.epoch.outstanding.toNat = 1 := by omega
    have hadd : (s.node.epoch.outstanding + (cfg.rankCount - 1).toUInt64).toNat =
        cfg.rankCount.toNat := by
      have hlt := cfg.rankCount.toNat_lt
      have hsub : (cfg.rankCount - 1).toNat = cfg.rankCount.toNat - 1 :=
        UInt32.toNat_sub_of_le _ _ (UInt32.le_iff_toNat_le.2 (by rw [UInt32.toNat_one]; omega))
      rw [UInt64.toNat_add, UInt32.toNat_toUInt64, hsub, h1]
      omega
    rw [ho, hadd]
    omega
  | closes ho =>
    rw [ho, toNat_sub_one (by omega)]
    omega
  | accepts ho _ _ _ hc' =>
    have hiff : s.node.epoch.outstanding - 1 = 1 ↔ s.node.epoch.outstanding.toNat - 1 = 1 := by
      rw [← toNat_sub_one (by omega), ← UInt64.toNat_inj, UInt64.toNat_one]
    simp only [hiff] at hc'
    rw [ho, toNat_sub_one (by omega)]
    split_ifs at hc' <;> omega
  | ignores h0 hu' =>
    -- a reply that is being handled accounts for a unit of its own
    have := UInt64.le_iff_toNat_le.1 h0
    rw [UInt64.toNat_one] at this
    omega

lemma tokens_next [DecidableEq ε] (hcfg : cfg.IsOwner) {a : Act ε} (h : s.Tokens cfg)
    (hst : s.next cfg a = some s') : s'.Tokens cfg := by
  obtain ⟨hadm, n, out, hn, rfl⟩ := next_eq_some.1 hst
  cases a with
  | activate =>
    obtain ⟨rfl, rfl⟩ := Node.next_activate.1 hn
    exact h.congr (by simp) (by simp) (by simp) rfl rfl
  | enqueue edt =>
    obtain ⟨-, rfl, rfl⟩ := Node.next_enqueue.1 hn
    exact h.congr rfl rfl (by simp) rfl rfl
  | finish edt =>
    obtain ⟨-, rfl, rfl⟩ := Node.next_finish.1 hn
    by_cases hp : s.node.present = true
    · have hcalls := Node.finish_calls hp edt
      refine ⟨?_, h.answered, ?_, ?_⟩
      · rw [hcalls]
        exact forall_mem_append_singleton h.onOwner rfl
      · simpa [hcalls, units, countRequest, countReply] using h.account
      · simpa [hcalls, closing] using h.closing
    · exact h.congr (Node.finish_calls_of_not_present hp edt) rfl rfl rfl rfl
  | request => exact absurd hadm id
  | reply x y =>
    obtain ⟨rfl, rfl⟩ := Node.next_reply.1 hn
    have hlt : s.replies < s.requests := hadm
    obtain ⟨lost, hlost, hacc⟩ := h.account
    by_cases hp : s.node.present = true
    · have hcalls := Node.start_calls hp (.reduce x y .test)
      refine ⟨?_, hlt, ⟨lost, hlost, ?_⟩, ?_⟩
      · rw [hcalls]
        exact forall_mem_append_singleton h.onOwner rfl
      · simp only [hcalls, weight_append, weight_cons, weight_nil, units, Node.start_epoch,
          countRequest, countReply]
        omega
      · simpa [hcalls, closing] using h.closing
    · rw [Node.start_of_not_present hp]
      refine ⟨h.onOwner, hlt, ⟨lost + 1, fun hp' => absurd hp' hp, ?_⟩, h.closing⟩
      simp only [countRequest, countReply]
      omega
  | step i ff =>
    obtain ⟨c, hc, -, rfl, rfl⟩ := Node.next_step.1 hn
    exact tokens_step hcfg h ff hc

lemma tokens_init [DecidableEq ε] (h : (machine cfg).init s) : s.Tokens cfg := by
  obtain ⟨guid, edtGuid, slot, rfl⟩ := h
  refine ⟨?_, le_rfl, ⟨0, fun _ => rfl, rfl⟩, .inr ⟨rfl, nofun⟩⟩
  intro c hc
  cases hc

end Owner

end Arts
