import Arts.Epoch.System

/-!
# The traffic of an epoch

While a round is open, the *token* of each other rank is in one place: to be broadcast, in flight,
at work, on the way back, or received (`Wiring`).
-/

namespace Arts

open List Function Call Arts.System

namespace Call

variable {ε : Type*}

/-- The call has yet to broadcast the request to rank `j`. -/
def toReq (j : ℕ) : Call ε → ℕ
  | .finish _ (.broadcast i) | .reduce _ _ (.broadcast i) => if i ≤ j then 1 else 0
  | _ => 0

/-- What a step of a call on the owner does to the requests it has yet to broadcast. -/
inductive SpreadStep (cfg : Config) (e : Epoch) (c : Call ε) (e' : Epoch) (c' : Call ε)
    (out : Option Out) : Prop
  | opens : c.opensRound e = true → (∀ j, c.toReq j = 0) → (∀ j, c'.toReq j = 1) → out = none →
      SpreadStep cfg e c e' c' out
  /-- The request to rank `i` is sent. -/
  | sends (i : ℕ) : c.opensRound e = false → i < cfg.rankCount.toNat → i ≠ cfg.origin →
      out = some (.epochReq i) → e'.outstanding = e.outstanding →
      (∀ j < cfg.rankCount.toNat, c.toReq j = c'.toReq j + if j = i then 1 else 0) →
      SpreadStep cfg e c e' c' out
  | keeps : c.opensRound e = false → (∀ j < cfg.rankCount.toNat, j ≠ cfg.origin →
      c'.toReq j = c.toReq j) → countRequest out = 0 → Served.countReply out = 0 →
      SpreadStep cfg e c e' c' out

variable {cfg : Config} {c : Call ε}

lemma spreadStep_broadcast {e : Epoch} {c' : Call ε} {i : ℕ}
    (hi : i < cfg.rankCount.toNat) (hno : c.opensRound e = false)
    (hc : ∀ j, c.toReq j = if i ≤ j then 1 else 0)
    (hc' : ∀ j < cfg.rankCount.toNat, c'.toReq j = if i + 1 ≤ j then 1 else 0) :
    SpreadStep cfg e c e c' (broadcastReq cfg i) := by
  unfold broadcastReq
  split_ifs with h
  · refine .sends i hno hi h rfl rfl fun j hj => ?_
    rw [hc, hc' j hj]
    split_ifs <;> omega
  · refine .keeps hno (fun j hj hne => ?_) rfl rfl
    rw [hc, hc' j hj]
    split_ifs <;> omega

lemma countReply_fire (e : Epoch) (v : UInt32) : Served.countReply (some (e.fire v)) = 0 := by
  unfold Epoch.fire
  split_ifs <;> rfl

lemma spreadStep_step (hcfg : cfg.IsOwner) (ff : Bool) (e : Epoch) (hc : c.onOwner cfg = true) :
    SpreadStep cfg e c (c.step cfg ff e).1 (c.step cfg ff e).2.1 (c.step cfg ff e).2.2 := by
  cases c with
  | finish x pc =>
    cases pc with
    | add =>
      simp only [step, finishStep, FinishPc.afterAdd, hcfg.rankCount_ne_one, hcfg.own]
      exact .keeps rfl (fun _ _ _ => rfl) rfl rfl
    | subQueued =>
      simp only [step, finishStep]
      split_ifs <;> exact .keeps rfl (fun _ _ _ => rfl) rfl rfl
    | casOutstanding =>
      simp only [step, finishStep]
      split_ifs with h
      · exact .opens (by simp [opensRound, h]) (fun _ => rfl) (fun _ => rfl) rfl
      · exact .keeps (by simp [opensRound, h]) (fun _ _ _ => rfl) rfl rfl
    | broadcast i =>
      have hi : i < cfg.rankCount.toNat := by simpa [onOwner] using hc
      refine spreadStep_broadcast hi rfl (fun _ => rfl) fun j hj => ?_
      simp only [step, finishStep]
      split_ifs <;> simp only [toReq] <;> (try split_ifs) <;> omega
    | done => exact .keeps rfl (fun _ _ _ => rfl) rfl rfl
    | casPhase | complete | fire | delete | load | cas | send => simp [onOwner] at hc
  | send pc => simp [onOwner] at hc
  | reduce a f pc =>
    cases pc with
    | openRound => exact .opens rfl (fun _ => rfl) (fun _ => rfl) rfl
    | broadcast i =>
      have hi : i < cfg.rankCount.toNat := by simpa [onOwner] using hc
      refine spreadStep_broadcast hi rfl (fun _ => rfl) fun j hj => ?_
      simp only [step, reduceStep]
      split_ifs <;> simp only [toReq] <;> (try split_ifs) <;> omega
    | fire tf =>
      exact .keeps rfl (fun _ _ _ => rfl) (countRequest_fire e tf) (countReply_fire e tf)
    | test | load | cas | check | testLastActive | testLastFinish | casPhase | readQueued |
      testPhase =>
      simp only [step, reduceStep, checkStep]
      split_ifs <;> exact .keeps rfl (fun _ _ _ => rfl) rfl rfl
    | addActive | addFinish | undoActive | undoFinish | readActive | readFinish | resetActive |
      resetFinish | complete | recordActive | recordFinish | setPhase2 | closeRound | delete |
      done => exact .keeps rfl (fun _ _ _ => rfl) rfl rfl

lemma toReq_le_units (hcfg : cfg.IsOwner) {j : ℕ} (hj : j < cfg.rankCount.toNat)
    (hne : j ≠ cfg.origin) (c : Call ε) : c.toReq j ≤ c.units cfg := by
  have horigin := hcfg.origin_lt
  have h : ∀ i, (if i ≤ j then 1 else 0) ≤ cfg.requestsFrom i := by
    intro i
    unfold Config.requestsFrom
    split_ifs <;> omega
  cases c with
  | finish x pc | reduce a f pc => cases pc <;> first | exact Nat.zero_le _ | exact h _
  | send pc => exact Nat.zero_le _

end Call

/-- The history of the traffic. -/
structure Links (p : Layout) where
  handled : p.Rank → ℕ
  answered : p.Rank → ℕ
  requests : ℕ
  replies : ℕ
  heard : List (UInt32 × UInt32)
  /-- The adds to the counters in the current round. -/
  log : Side → AddLog
  /-- The owner's own counts, as read by the last closing call. -/
  own : Side → UInt32
  /-- The reply of a rank in the current round, once the owner has received it. -/
  got : p.Rank → Option (UInt32 × UInt32)

namespace Links

variable {p : Layout} {ε : Type*} (l : Links p) (s : System p ε)

def served (r : p.Rank) : Served ε := ⟨s.node r, l.handled r, l.answered r⟩

def round : Round ε := ⟨⟨s.node p.origin, l.requests, l.replies⟩, l.heard, l.log, l.own⟩

/-- Requests of a rank that were sent and whose reply has not arrived. -/
def flight (r : p.Rank) : ℕ := s.reqs r + (l.handled r - l.answered r) + (s.sends r).length

def received (r : p.Rank) : ℕ := if (l.got r).isSome then 1 else 0

def onOther (r : p.Rank) (a : Act ε) (out : Option Out) : Links p :=
  { l with
    handled := update l.handled r (l.handled r + Served.countRequest a)
    answered := update l.answered r (l.answered r + Served.countReply out) }

/-- After a step of the `i`-th call `c` of the owner. -/
def onOwner (i : ℕ) (ff : Bool) (c : Call ε) : Links p :=
  let requests :=
    l.requests + countRequest (c.step (p.config p.origin) ff (s.node p.origin).epoch).2.2
  if c.opensRound (s.node p.origin).epoch then
    { l with requests, heard := [], log := fun _ => [], got := fun _ => none }
  else
    { l with
      requests
      log := fun k => c.logStep k i (l.log k)
      own := fun k => c.ownStep k (s.node p.origin).epoch (l.own k) }

section OnOwner

variable {l s} {i : ℕ} {ff : Bool} {c : Call ε}

lemma flight_onOwner (t : System p ε) (q : p.Rank) :
    (l.onOwner s i ff c).flight t q = l.flight t q := by
  unfold onOwner
  split_ifs <;> rfl

lemma replies_onOwner : (l.onOwner s i ff c).replies = l.replies := by
  unfold onOwner
  split_ifs <;> rfl

lemma requests_onOwner : (l.onOwner s i ff c).requests =
    l.requests + countRequest (c.step (p.config p.origin) ff (s.node p.origin).epoch).2.2 := by
  unfold onOwner
  split_ifs <;> rfl

lemma got_onOwner (hopen : c.opensRound (s.node p.origin).epoch = false) :
    (l.onOwner s i ff c).got = l.got := by
  simp [onOwner, hopen]

lemma got_onOwner_of_opens (hopen : c.opensRound (s.node p.origin).epoch = true) (q : p.Rank) :
    (l.onOwner s i ff c).got q = none := by
  simp [onOwner, hopen]

lemma served_onOwner (t : System p ε) (q : p.Rank) :
    (l.onOwner s i ff c).served t q = l.served t q := by
  unfold onOwner
  split_ifs <;> rfl

end OnOwner

/-- After the owner has received the reply of a rank. -/
def receive (r : p.Rank) (v : UInt32 × UInt32) : Links p :=
  { l with
    replies := l.replies + 1
    heard := if (s.node p.origin).present then v :: l.heard else l.heard
    got := update l.got r (some v) }

end Links

/-- What the traffic keeps. -/
structure Wiring {p : Layout} (s : System p EdtGuid) (l : Links p) : Prop where
  served : ∀ r, r ≠ p.origin → (l.served s r).Inv
  round : (l.round s).Inv (p.config p.origin)
  self : l.flight s p.origin = 0
  flights : l.requests = l.replies + ∑ r, l.flight s r
  token : ∀ r : p.Rank, r ≠ p.origin →
    (s.node p.origin).epoch.outstanding.toNat = 0 ∧
        weight (toReq r) (s.node p.origin).calls + l.flight s r = 0 ∨
      (s.node p.origin).epoch.outstanding.toNat ≠ 0 ∧
        weight (toReq r) (s.node p.origin).calls + l.flight s r + l.received r = 1

namespace Wiring

variable {p : Layout} {s s' : System p EdtGuid} {l : Links p} {r : p.Rank}

lemma present (h : Wiring s l) (hr : r ≠ p.origin) : (s.node r).present = true :=
  (h.served r hr).present

lemma unreported (h : Wiring s l) (hr : r ≠ p.origin) (hun : l.answered r < l.handled r) :
    s.sends r = [] ∧ l.got r = none := by
  have htoken := h.token r hr
  simp only [Links.flight] at htoken
  refine ⟨eq_nil_of_length_eq_zero (by omega), ?_⟩
  have : l.received r = 0 := by omega
  simpa [Links.received] using this

lemma all_received (h : Wiring s l) (hone : (s.node p.origin).epoch.outstanding.toNat = 1)
    (hr : r ≠ p.origin) : weight (toReq r) (s.node p.origin).calls = 0 ∧
      l.flight s r = 0 ∧ l.received r = 1 := by
  obtain ⟨lost, -, hacc⟩ := h.round.tokens.account
  have hans := h.round.tokens.answered
  simp only [Links.round] at hacc hans
  have hunits : ∀ c ∈ (s.node p.origin).calls, c.units (p.config p.origin) = 0 :=
    weight_eq_zero.1 (by omega)
  have hreq : weight (toReq r) (s.node p.origin).calls = 0 := by
    refine weight_eq_zero.2 fun c hc => ?_
    have := toReq_le_units p.isOwner r.isLt (fun he => hr (Fin.ext he)) c
    have := hunits c hc
    omega
  have hle := Finset.single_le_sum (f := l.flight s) (fun _ _ => Nat.zero_le _) (Finset.mem_univ r)
  have hflights := h.flights
  have htoken := h.token r hr
  omega

variable {i : ℕ} {c : Call EdtGuid}

/-- When a round is opened, nothing of the previous one is under way, and nobody closes it. -/
theorem settled_of_opens (h : Wiring s l) (hc : (s.node p.origin).calls[i]? = some c)
    (hop : c.opensRound (s.node p.origin).epoch = true) :
    (s.node p.origin).epoch.outstanding.toNat ≤ 1 ∧ weight closing (s.node p.origin).calls =
      c.closing ∧ ∀ r, r ≠ p.origin → l.flight s r = 0 := by
  have hclosing := h.round.tokens.closing
  have hlec := le_weight_of_getElem? closing hc
  simp only [Links.round] at hclosing
  rcases (opensRound_step .active (p.config p.origin) false hop).2.2.2.2.2 with h0 | hcl
  · refine ⟨by omega, by omega, fun r hr => ?_⟩
    have := h.token r hr
    omega
  · have hcl := closing_of_cleared hcl
    exact ⟨by omega, by omega, fun r hr => (h.all_received (by omega) hr).2.1⟩

variable {a : Act EdtGuid} {n : Node EdtGuid}

lemma onOther (h : Wiring s l) (hr : r ≠ p.origin)
    {out : Option Out} (hadm : (l.served s r).Admits a)
    (hn : (s.node r).next (p.config r) a = some (n, out))
    (hnode : s'.node = update s.node r n) (hreqs : ∀ q, q ≠ r → s'.reqs q = s.reqs q)
    (hreq : s'.reqs r + Served.countRequest a = s.reqs r)
    (hsends : ∀ q, q ≠ r → s'.sends q = s.sends q)
    (hsend : (s'.sends r).length = (s.sends r).length + Served.countReply out) :
    Wiring s' (l.onOther r a out) := by
  have hserved : ∀ q, q ≠ p.origin → ((l.onOther r a out).served s' q).Inv := by
    intro q hq
    by_cases hqr : q = r
    · subst hqr
      refine Served.inv_next (p.isOther hr) (h.served q hr) (Served.next_eq_some.2
        ⟨hadm, n, out, hn, ?_⟩)
      simp [Links.served, Links.onOther, hnode]
    · have := h.served q hq
      simpa [Links.served, Links.onOther, hnode, hqr] using this
  have hflight : ∀ q, (l.onOther r a out).flight s' q = l.flight s q := by
    intro q
    by_cases hqr : q = r
    · subst hqr
      obtain ⟨idle, -, hcount, -⟩ := (h.served q hr).word
      obtain ⟨idle', -, hcount', -⟩ := (hserved q hr).word
      simp only [Links.served, Links.onOther, update_self] at hcount hcount'
      simp only [Links.flight, Links.onOther, update_self]
      omega
    · simp [Links.flight, Links.onOther, hqr, hreqs q hqr, hsends q hqr]
  have howner : s'.node p.origin = s.node p.origin := by
    rw [hnode, update_of_ne hr.symm]
  refine ⟨hserved, ?_, ?_, ?_, fun q hq => ?_⟩
  · have := h.round
    simpa [Links.round, Links.onOther, howner] using this
  · rw [hflight]
    exact h.self
  · simp only [hflight]
    exact h.flights
  · simp only [hflight, howner]
    exact h.token q hq

lemma local_owner (h : Wiring s l)
    (hnext : (Round.machine (p.config p.origin)).next (l.round s) a =
      some { l.round s with owner := ⟨n, l.requests, l.replies⟩ })
    (hnode : s'.node = update s.node p.origin n) (hreqs : s'.reqs = s.reqs)
    (hsends : s'.sends = s.sends)
    (hout : n.epoch.outstanding = (s.node p.origin).epoch.outstanding)
    (hcalls : ∀ j, weight (toReq j) n.calls = weight (toReq j) (s.node p.origin).calls) :
    Wiring s' l := by
  have howner : s'.node p.origin = n := by rw [hnode, update_self]
  have hflight : ∀ q, l.flight s' q = l.flight s q := fun q => by
    simp [Links.flight, hreqs, hsends]
  refine ⟨fun q hq => ?_, ?_, ?_, ?_, fun q hq => ?_⟩
  · have := h.served q hq
    simpa [Links.served, hnode, hq] using this
  · have := Round.inv_next p.isOwner h.round hnext
    simpa [Links.round, howner] using this
  · rw [hflight]
    exact h.self
  · simp only [hflight]
    exact h.flights
  · simp only [hflight, howner, hout, hcalls]
    exact h.token q hq

lemma receive (h : Wiring s l) {k : ℕ} {v : UInt32 × UInt32} (hv : (s.sends r)[k]? = some v)
    (hnode : s'.node = update s.node p.origin
      ((s.node p.origin).start (.reduce v.1 v.2 .test)))
    (hreqs : s'.reqs = s.reqs)
    (hsends : s'.sends = update s.sends r ((s.sends r).eraseIdx k)) :
    r ≠ p.origin ∧ l.got r = none ∧ Wiring s' (l.receive s r v) := by
  have hlen : ((s.sends r).eraseIdx k).length + 1 = (s.sends r).length := by
    have hlt := (List.getElem?_eq_some_iff.1 hv).1
    rw [length_eraseIdx_of_lt hlt]
    omega
  have hflight : l.flight s r = (l.receive s r v).flight s' r + 1 := by
    simp only [Links.flight, Links.receive, hreqs, hsends, update_self]
    omega
  have hflight' : ∀ q, q ≠ r → l.flight s q = (l.receive s r v).flight s' q := fun q hq => by
    simp [Links.flight, Links.receive, hreqs, hsends, hq]
  have hr : r ≠ p.origin := by
    rintro rfl
    have := h.self
    omega
  have hgot : l.received r = 0 := by
    have := h.token r hr
    omega
  have hsum := TwoWave.sum_add_of_ne hflight'
  have hflights := h.flights
  have howner : s'.node p.origin = (s.node p.origin).start (.reduce v.1 v.2 .test) := by
    rw [hnode, update_self]
  have hreplies : (l.receive s r v).replies = l.replies + 1 := rfl
  have hround : ((l.receive s r v).round s').Inv (p.config p.origin) := by
    refine Round.inv_next p.isOwner (a := .reply v.1 v.2) h.round ?_
    have hadm : l.replies < l.requests := by omega
    simp [Round.machine, Owner.next, Links.round, Owner.Admits, hadm, Node.next, Round.track,
      Links.receive, howner, countRequest, Owner.countReply]
  have hreq : ∀ j, weight (toReq j) (s'.node p.origin).calls =
      weight (toReq j) (s.node p.origin).calls := by
    intro j
    rw [howner]
    cases hp : (s.node p.origin).present <;> simp [Node.start, hp, toReq]
  refine ⟨hr, by simpa [Links.received] using hgot, fun q hq => ?_, hround, ?_, ?_, fun q hq => ?_⟩
  · have := h.served q hq
    simpa [Links.served, Links.receive, hnode, hq] using this
  · rw [← hflight' _ hr.symm]
    exact h.self
  · change l.requests = _
    omega
  · rw [hreq, howner, Node.start_epoch]
    have htoken := h.token q hq
    by_cases hqr : q = r
    · subst hqr
      have : (l.receive s q v).received q = 1 := by simp [Links.received, Links.receive]
      omega
    · rw [← hflight' q hqr]
      simpa [Links.received, Links.receive, hqr] using htoken

lemma onOwner (h : Wiring s l) (ff : Bool)
    (hc : (s.node p.origin).calls[i]? = some c) (hd : c.isDone = false)
    {t : System p EdtGuid} (hnode : t.node = update s.node p.origin
      ((s.node p.origin).advance (p.config p.origin) i ff c))
    (hreqs : t.reqs = s.reqs) (hsends : t.sends = s.sends) :
    Wiring (t.emit p.origin (c.step (p.config p.origin) ff (s.node p.origin).epoch).2.2)
      (l.onOwner s i ff c) := by
  have hmem := mem_of_getElem? hc
  have hspread := spreadStep_step p.isOwner ff (s.node p.origin).epoch
    (h.round.tokens.onOwner c hmem)
  have hout := outstanding_step (p.config p.origin) ff (s.node p.origin).epoch (c := c)
  set r := c.step (p.config p.origin) ff (s.node p.origin).epoch with hr
  have hset : ∀ j, _ := fun j => weight_set (toReq j) hc r.2.1
  have hopen := h.round.tokens.two_le_outstanding hmem
  have hclosing := h.round.tokens.closing
  have hlec := le_weight_of_getElem? closing hc
  generalize hs' : t.emit p.origin r.2.2 = s'
  have hnode' : s'.node = update s.node p.origin
      ((s.node p.origin).advance (p.config p.origin) i ff c) := by
    rw [← hs', emit_node, hnode]
  have howner : s'.node p.origin = (s.node p.origin).advance (p.config p.origin) i ff c := by
    rw [hnode', update_self]
  have hround : ((l.onOwner s i ff c).round s').Inv (p.config p.origin) := by
    refine Round.inv_next p.isOwner (a := .step i ff) h.round ?_
    simp only [Round.machine, Owner.next, Links.round, Owner.Admits, ↓reduceIte, Node.next, hc, hd,
      Bool.false_eq_true, Round.track, Round.record, Links.onOwner, howner]
    split_ifs <;> rfl
  have hserved : ∀ q, q ≠ p.origin → ((l.onOwner s i ff c).served s' q).Inv := by
    intro q hq
    have := h.served q hq
    rw [Links.served_onOwner]
    simpa [Links.served, hnode', hq] using this
  have hflights := h.flights
  cases hspread with
  | opens hop hzero hone hnone =>
    have hflight : ∀ q, (l.onOwner s i ff c).flight s' q = l.flight s q := fun q => by
      rw [Links.flight_onOwner, ← hs', hnone]
      simp [Links.flight, emit, hreqs, hsends]
    refine ⟨hserved, hround, by rw [hflight]; exact h.self, ?_, fun q hq => .inr ⟨?_, ?_⟩⟩
    · rw [Links.requests_onOwner, Links.replies_onOwner, hnone]
      simpa only [hflight, countRequest, Nat.add_zero] using h.flights
    · have hmem' := List.mem_set (List.getElem?_eq_some_iff.1 hc).1 r.2.1
      have := hround.tokens.two_le_outstanding (by rw [Links.round, howner]; exact hmem') (by
        have := toReq_le_units p.isOwner q.isLt (fun he => hq (Fin.ext he)) r.2.1
        have := hone q
        omega)
      simp only [Links.round] at this
      omega
    · have hold : weight (toReq q) (s.node p.origin).calls + l.flight s q = 0 := by
        obtain ⟨hle, -, hnone⟩ := h.settled_of_opens hc hop
        have htoken := h.token q hq
        have hq0 := hnone q hq
        by_cases h1 : (s.node p.origin).epoch.outstanding.toNat = 1
        · have := (h.all_received h1 hq).1
          omega
        · omega
      have hrec : (l.onOwner s i ff c).received q = 0 := by
        simp [Links.received, Links.got_onOwner_of_opens hop]
      have := hset q
      rw [hzero, hone] at this
      rw [hflight, hrec, howner, Node.advance, ← hr]
      simp only
      omega
  | sends j hno hj hne hreq hsame hto =>
    have hreqs' : ∀ q : p.Rank, s'.reqs q = s.reqs q + if q.val = j then 1 else 0 := fun q => by
      rw [← hs', hreq]
      simp only [emit, hreqs]
      split_ifs <;> rfl
    have hflight : ∀ q : p.Rank, (l.onOwner s i ff c).flight s' q =
        l.flight s q + if q.val = j then 1 else 0 := fun q => by
      have hsends' : s'.sends q = s.sends q := by simp [← hs', hreq, emit, hsends]
      rw [Links.flight_onOwner, Links.flight, Links.flight, hreqs', hsends']
      omega
    refine ⟨hserved, hround, ?_, ?_, fun q hq => ?_⟩
    · rw [hflight, h.self, if_neg fun he => hne he.symm]
    · rw [Links.requests_onOwner, Links.replies_onOwner, hreq]
      simp only [hflight, Finset.sum_add_distrib]
      have : ∑ q : p.Rank, (if q.val = j then 1 else 0) = 1 := by
        have hval : ∀ q : p.Rank, q.val = j ↔ q = ⟨j, hj⟩ := fun q => by rw [Fin.ext_iff]
        simp [hval]
      simp only [countRequest]
      omega
    · have := hset q
      have := hto q q.isLt
      have hrec : (l.onOwner s i ff c).received q = l.received q := by
        simp [Links.received, Links.got_onOwner hno]
      have := h.token q hq
      rw [hflight, hrec, howner, Node.advance, ← hr]
      simp only [hsame]
      omega
  | keeps hno hto hreq hrep =>
    have hflight : ∀ q : p.Rank, (l.onOwner s i ff c).flight s' q = l.flight s q := fun q => by
      rw [Links.flight_onOwner, ← hs']
      by_cases hq : q = p.origin
      · subst hq
        simp [Links.flight, emit_reqs hreq, emit_sends_length, hrep, hreqs, hsends]
      · simp [Links.flight, emit_reqs hreq, emit_sends_of_ne hq, hreqs, hsends]
    refine ⟨hserved, hround, by rw [hflight]; exact h.self, ?_, fun q hq => ?_⟩
    · rw [Links.requests_onOwner, Links.replies_onOwner, hreq, Nat.add_zero]
      simpa only [hflight] using h.flights
    · have := hset q
      have := hto q q.isLt (fun he => hq (Fin.ext he))
      have hrec : (l.onOwner s i ff c).received q = l.received q := by
        simp [Links.received, Links.got_onOwner hno]
      have htoken := h.token q hq
      rw [hflight, hrec, howner, Node.advance, ← hr]
      simp only
      rcases hout hno with hsame | ⟨hsub, hu | hcl⟩
      · rw [hsame]
        omega
      · have := hopen hu
        simp only [Links.round] at this
        rw [hsub, toNat_sub_one (by omega)]
        omega
      · have hcl := closing_of_cleared (hcl .active)
        simp only [Links.round] at hclosing hlec
        have := h.all_received (by omega) hq
        omega

end Wiring

end Arts
