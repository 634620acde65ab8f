import Arts.Epoch.Node

/-!
# One reply per request

The handler clears the top bit of `queued`, and whoever sets it again replies: the handler itself,
or the finish that drains the queue (`one_reply_per_request`).
-/

namespace Arts

open Call

/-- The configuration of a rank that does not own the epoch. -/
structure Config.IsOther (cfg : Config) : Prop where
  rankCount : 2 ≤ cfg.rankCount.toNat
  other : cfg.origin ≠ cfg.rankId

lemma Config.IsOther.rankCount_ne_one {cfg : Config} (h : cfg.IsOther) : cfg.rankCount ≠ 1 := by
  intro h1
  have := h.rankCount
  rw [h1] at this
  simp at this

namespace Call

variable {ε : Type*}

def onOther : Call ε → Bool
  | .finish _ .add | .finish _ (.load _ _) | .finish _ (.cas _ _ _) | .finish _ (.send _ _) |
    .finish _ .done => true
  | .send _ => true
  | _ => false

/-- The handler of a request that has not cleared the bit yet. -/
def unmasked : Call ε → ℕ
  | .send .mask => 1
  | _ => 0

def trying : Call ε → ℕ
  | .send .cas => 1
  | _ => 0

/-- The call has won the right to answer and has not sent the reply yet. -/
def winner : Call ε → ℕ
  | .finish _ (.send _ _) | .send (.read _ _) | .send (.send _ _) => 1
  | _ => 0

/-- The steps of the calls of a rank that does not own the epoch. -/
inductive OtherStep (ff : Bool) (e : Epoch) : Call ε → Epoch → Call ε → Option Out → Prop
  | add (x : ε) : OtherStep ff e (.finish x .add) { e with epochCounts := e.epochCounts + 1 }
      (.finish x (.load (activeHalf e.epochCounts) (newFinished e.epochCounts))) none
  | load (x : ε) (ca nf : UInt32) :
      OtherStep ff e (.finish x (.load ca nf)) e (.finish x (.cas ca nf e.queued)) none
  | drain (x : ε) (ca nf : UInt32) : e.queued = 1 →
      OtherStep ff e (.finish x (.cas ca nf 1)) { e with queued := epochBit }
        (.finish x (.send ca nf)) none
  | leave (x : ε) (ca nf : UInt32) : e.queued ≠ 1 →
      OtherStep ff e (.finish x (.cas ca nf e.queued)) { e with queued := e.queued - 1 }
        (.finish x .done) none
  | retry (x : ε) (ca nf : UInt32) (loc : UInt64) :
      OtherStep ff e (.finish x (.cas ca nf loc)) e (.finish x (.load ca nf)) none
  | workerSend (x : ε) (ca nf : UInt32) :
      OtherStep ff e (.finish x (.send ca nf)) e (.finish x .done) (some (.epochSend ca nf))
  | mask : OtherStep ff e (.send .mask) { e with queued := e.queued &&& epochMask } (.send .cas) none
  | win : e.queued = 0 →
      OtherStep ff e (.send .cas) { e with queued := epochBit } (.send (.read none none)) none
  | lose : e.queued ≠ 0 → OtherStep ff e (.send .cas) e (.send .done) none
  | readActive : ff = false →
      OtherStep ff e (.send (.read none none)) e (.send (.read (some e.active) none)) none
  | readFinish : ff = true →
      OtherStep ff e (.send (.read none none)) e (.send (.read none (some e.finished))) none
  | thenFinish (a : UInt32) :
      OtherStep ff e (.send (.read (some a) none)) e (.send (.send a e.finished)) none
  | thenActive (f : UInt32) :
      OtherStep ff e (.send (.read none (some f))) e (.send (.send e.active f)) none
  | bothRead (a f : UInt32) :
      OtherStep ff e (.send (.read (some a) (some f))) e (.send (.send a f)) none
  | handlerSend (a f : UInt32) :
      OtherStep ff e (.send (.send a f)) e (.send .done) (some (.epochSend a f))

lemma otherStep_step {cfg : Config} (hcfg : cfg.IsOther) (ff : Bool) (e : Epoch) {c : Call ε}
    (hc : c.onOther = true) (hd : c.isDone = false) :
    OtherStep ff e c (c.step cfg ff e).1 (c.step cfg ff e).2.1 (c.step cfg ff e).2.2 := by
  cases c with
  | finish x pc =>
    cases pc with
    | add =>
      simp only [step, finishStep, FinishPc.afterAdd, hcfg.rankCount_ne_one, hcfg.other]
      exact .add x
    | load ca nf => exact .load x ca nf
    | cas ca nf loc =>
      simp only [step, finishStep]
      split_ifs with h1 h2 h2
      · subst h1; exact .drain x ca nf h2
      · exact .retry x ca nf loc
      · subst h2; exact .leave x ca nf h1
      · exact .retry x ca nf loc
    | send ca nf => exact .workerSend x ca nf
    | done => simp [isDone] at hd
    | casPhase | complete | fire | delete | subQueued | casOutstanding | broadcast =>
      simp [onOther] at hc
  | send pc =>
    cases pc with
    | mask => exact .mask
    | cas =>
      simp only [step, sendStep]
      split_ifs with h
      · exact .win h
      · exact .lose h
    | read a f =>
      cases a with
      | none =>
        cases f with
        | none =>
          cases ff
          · exact .readActive rfl
          · exact .readFinish rfl
        | some f => exact .thenActive f
      | some a =>
        cases f with
        | none => exact .thenFinish a
        | some f => exact .bothRead a f
    | send a f => exact .handlerSend a f
    | done => simp [isDone] at hd
  | reduce a f pc => simp [onOther] at hc

lemma OtherStep.ne_deleteEpoch {ff : Bool} {e e' : Epoch} {c c' : Call ε} {out : Option Out}
    (h : OtherStep ff e c e' c' out) : out ≠ some .deleteEpoch := by
  cases h <;> nofun

lemma OtherStep.onOther {ff : Bool} {e e' : Epoch} {c c' : Call ε} {out : Option Out}
    (h : OtherStep ff e c e' c' out) : c'.onOther = true := by
  cases h <;> rfl

end Call

/-- A rank that answers requests, with the number of requests handled and replies issued. -/
structure Served (ε : Type*) where
  node : Node ε
  requests : ℕ
  replies : ℕ
  deriving DecidableEq, Repr

namespace Served

variable {ε : Type*}

/-- The actions that can happen on a rank that does not own the epoch: replies go to the owner
only, and the owner sends a request only after its previous one was answered. -/
def Admits (s : Served ε) : Act ε → Prop
  | .reply _ _ => False
  | .request => s.requests = s.replies
  | _ => True

instance (s : Served ε) (a : Act ε) : Decidable (s.Admits a) := by
  induction a using Act.casesOn <;> dsimp only [Admits] <;> infer_instance

def countRequest : Act ε → ℕ
  | .request => 1
  | _ => 0

def countReply : Option Out → ℕ
  | some (.epochSend _ _) => 1
  | _ => 0

def next [DecidableEq ε] (cfg : Config) (s : Served ε) (a : Act ε) : Option (Served ε) :=
  if s.Admits a then
    (s.node.next cfg a).map fun r =>
      ⟨r.1, s.requests + countRequest a, s.replies + countReply r.2⟩
  else none

def machine [DecidableEq ε] (cfg : Config) : Machine (Served ε) (Act ε) where
  init s := ∃ guid edtGuid slot, s = ⟨.create guid edtGuid slot false, 0, 0⟩
  next := next cfg

/-- Where the unanswered request is, if there is one. -/
structure Inv (s : Served ε) : Prop where
  present : s.node.present = true
  nodup : s.node.queueIds.Nodup
  onOther : ∀ c ∈ s.node.calls, c.onOther = true
  word : ∃ idle : Bool, s.node.epoch.queued = queueWord idle s.node.queueLen ∧
    s.requests = s.replies + weight winner s.node.calls +
      weight unmasked s.node.calls + (if idle then 0 else 1) ∧
    (idle = false → s.node.queueLen = 0 → 0 < weight trying s.node.calls)
  atMostOne : s.requests ≤ s.replies + 1

variable {cfg : Config} {s s' : Served EdtGuid}

lemma inv_init (h : (machine cfg).init s) : s.Inv := by
  obtain ⟨guid, edtGuid, slot, rfl⟩ := h
  refine ⟨rfl, List.nodup_nil, ?_, ⟨true, queueWord_bit.symm, rfl, nofun⟩, Nat.zero_le _⟩
  intro c hc
  cases hc

lemma word_otherStep {ff : Bool} {i : ℕ} {c c' : Call EdtGuid} {e' : Epoch} {out : Option Out}
    (hi : s.Inv) (hc : s.node.calls[i]? = some c)
    (h : OtherStep ff s.node.epoch c e' c' out) :
    ∃ idle : Bool,
      e'.queued = queueWord idle (s.node.ready.length + weight owes (s.node.calls.set i c')) ∧
      s.requests = s.replies + countReply out + weight winner (s.node.calls.set i c') +
        weight unmasked (s.node.calls.set i c') + (if idle then 0 else 1) ∧
      (idle = false → s.node.ready.length + weight owes (s.node.calls.set i c') = 0 →
        0 < weight trying (s.node.calls.set i c')) := by
  have hlt := Node.queueLen_lt hi.nodup
  obtain ⟨idle, hq, hcount, htry⟩ := hi.word
  have hone := hi.atMostOne
  have ho := weight_set owes hc c'
  have hw := weight_set winner hc c'
  have hu := weight_set unmasked hc c'
  have ht := weight_set trying hc c'
  simp only [Node.queueLen] at hlt hq htry
  generalize hready : s.node.ready.length = r at *
  generalize weight owes s.node.calls = o at *
  cases h with
  | drain x ca nf h1 =>
    -- the word is 1: a request waits and this worker is the only one counted
    rw [hq, ← queueWord_one, queueWord_inj hlt (by omega)] at h1
    obtain ⟨rfl, h1⟩ := h1
    simp [owes, queuedEdt, winner, unmasked] at ho hw hu
    refine ⟨true, ?_, ?_, by simp⟩
    · rw [show r + weight owes _ = 0 by omega, queueWord_bit]
    · simp [countReply] at hcount ⊢
      omega
  | leave x ca nf h1 =>
    simp [owes, queuedEdt, winner, unmasked] at ho hw hu ht
    have hlen : r + o = r + weight owes (s.node.calls.set i (.finish x .done)) + 1 := by omega
    refine ⟨idle, ?_, ?_, fun hidle h0 => ?_⟩
    · rw [hq, queueWord_pred idle (by omega), hlen, Nat.add_sub_cancel]
    · simp only [countReply] at hcount ⊢
      omega
    · subst hidle
      exact absurd (by rw [hq, show r + o = 1 by omega, queueWord_one]) h1
  | mask =>
    simp [owes, queuedEdt, winner, unmasked, trying] at ho hw hu ht
    have hidle : idle = true := by
      by_contra hne
      simp only [Bool.not_eq_true] at hne
      subst hne
      simp at hcount
      omega
    refine ⟨false, ?_, ?_, fun _ _ => by omega⟩
    · rw [hq, queueWord_and_mask _ hlt, ho]
    · simp [countReply] at hcount ⊢
      omega
  | win h1 =>
    rw [hq, ← queueWord_zero, queueWord_inj hlt (by omega)] at h1
    obtain ⟨rfl, h1⟩ := h1
    simp [owes, queuedEdt, winner, unmasked] at ho hw hu
    refine ⟨true, ?_, ?_, by simp⟩
    · rw [show r + weight owes _ = 0 by omega, queueWord_bit]
    · simp [countReply] at hcount ⊢
      omega
  | lose h1 =>
    simp [owes, queuedEdt, winner, unmasked] at ho hw hu ht
    refine ⟨idle, hq.trans (by rw [ho]), by simp only [countReply] at hcount ⊢; omega, fun hidle h0 => ?_⟩
    -- the bit is clear and nothing is queued, so the swap would have succeeded
    subst hidle
    exact absurd (by rw [hq, show r + o = 0 by omega, queueWord_zero]) h1
  | workerSend | handlerSend
  | add | load | retry | readActive | readFinish | thenFinish | thenActive | bothRead =>
    simp [owes, queuedEdt, winner, unmasked, trying] at ho hw hu ht
    refine ⟨idle, hq.trans (by rw [ho]), ?_, by rw [ho, ht]; exact htry⟩
    simp only [countReply] at hcount ⊢
    omega

lemma next_eq_some {a : Act ε} {s s' : Served ε} [DecidableEq ε] :
    s.next cfg a = some s' ↔ s.Admits a ∧ ∃ n out, s.node.next cfg a = some (n, out) ∧
      s' = ⟨n, s.requests + countRequest a, s.replies + countReply out⟩ := by
  simp only [next]
  split_ifs with h
  · simp [h, eq_comm]
  · simp [h]

lemma inv_next (hcfg : cfg.IsOther) {a : Act EdtGuid} (hi : s.Inv)
    (h : s.next cfg a = some s') : s'.Inv := by
  obtain ⟨hadm, n, out, hn, rfl⟩ := next_eq_some.1 h
  have hnodup := Node.queueIds_nodup_next hn hi.nodup
  obtain ⟨idle, hq, hcount, htry⟩ := hi.word
  cases a with
  | activate =>
    obtain ⟨rfl, rfl⟩ := Node.next_activate.1 hn
    refine ⟨by simpa using hi.present, hnodup, by simpa using hi.onOther, ⟨idle, ?_, ?_, ?_⟩,
      hi.atMostOne⟩
    · simpa using hq
    · simpa [countReply, countRequest] using hcount
    · simpa using htry
  | enqueue edt =>
    obtain ⟨-, rfl, rfl⟩ := Node.next_enqueue.1 hn
    refine { hi with nodup := hnodup, word := ⟨idle, ?_, hcount, ?_⟩ }
    · simp [Node.enqueue_epoch hi.present, hq, queueWord_succ]
    · intro _ h0
      simp at h0
  | finish edt =>
    obtain ⟨hmem, rfl, rfl⟩ := Node.next_finish.1 hn
    have hcalls := Node.finish_calls hi.present edt
    have hlen := Node.queueLen_finish hi.present hmem
    refine ⟨hi.present, hnodup, ?_, ⟨idle, ?_, ?_, ?_⟩, hi.atMostOne⟩
    · rw [hcalls]
      exact forall_mem_append_singleton hi.onOther rfl
    · rw [hlen]
      exact hq
    · simpa [hcalls, winner, unmasked, countReply, countRequest] using hcount
    · rw [hlen]
      simpa [hcalls, trying] using htry
  | request =>
    obtain ⟨rfl, rfl⟩ := Node.next_request.1 hn
    have hcalls := Node.start_calls hi.present (.send .mask : Call EdtGuid)
    have hreq : s.requests = s.replies := hadm
    refine ⟨hi.present, hnodup, ?_, ⟨idle, ?_, ?_, ?_⟩, by simp [countRequest, countReply, hreq]⟩
    · rw [hcalls]
      exact forall_mem_append_singleton hi.onOther rfl
    · rw [Node.queueLen_start _ rfl]
      exact hq
    · simp only [hcalls, weight_append, weight_cons, weight_nil, winner, unmasked,
        countReply, countRequest]
      omega
    · rw [Node.queueLen_start _ rfl]
      simpa [hcalls, trying] using htry
  | reply x y => exact absurd hadm id
  | step i ff =>
    obtain ⟨c, hc, hd, rfl, rfl⟩ := Node.next_step.1 hn
    have hst := otherStep_step hcfg ff s.node.epoch (hi.onOther c (List.mem_of_getElem? hc)) hd
    refine ⟨?_, hnodup, forall_mem_set hi.onOther hst.onOther, word_otherStep hi hc hst, ?_⟩
    · simp [Node.advance, hi.present, hst.ne_deleteEpoch]
    · have := hi.atMostOne
      simp only [countRequest]
      omega

lemma reachable_inv (hcfg : cfg.IsOther) (h : (machine cfg).Reachable s) : s.Inv :=
  h.invariant (fun _ => inv_init) fun _ _ _ _ hi hst => inv_next hcfg hi hst

end Served

/-- **One reply per request**: never more, and as many whenever no call is in progress and the queue
count is `0`. -/
theorem one_reply_per_request {cfg : Config} (hcfg : cfg.IsOther) {s : Served EdtGuid}
    (h : (Served.machine cfg).Reachable s) :
    s.replies ≤ s.requests ∧
      (s.node.Idle → s.node.epoch.queued &&& epochMask = 0 → s.replies = s.requests) := by
  have hi := Served.reachable_inv hcfg h
  obtain ⟨idle, hq, hcount, htry⟩ := hi.word
  refine ⟨by omega, fun hidle hzero => ?_⟩
  have hlt := Node.queueLen_lt hi.nodup
  -- no call in progress: nobody has won, nobody is about to try
  have hnone : ∀ f : Call EdtGuid → ℕ, (∀ c : Call EdtGuid, c.isDone = true → f c = 0) →
      weight f s.node.calls = 0 := fun f hf => weight_eq_zero.2 fun c hc => hf c (hidle c hc)
  have hwin := hnone winner fun c hc => by
    cases c <;> simp_all [isDone, winner]
  have hunm := hnone unmasked fun c hc => by
    cases c <;> simp_all [isDone, unmasked]
  have htr := hnone trying fun c hc => by
    cases c <;> simp_all [isDone, trying]
  rw [hq, queueWord_and_mask _ hlt, ← queueWord_zero, queueWord_inj hlt (by omega)] at hzero
  cases idle with
  | false => have := htry rfl hzero.2; omega
  | true => simp at hcount; omega

/-- A request that arrives while an EDT is queued is answered by the worker that drains the
queue. -/
theorem one_reply_per_request_drained :
    ∃ s : Served EdtGuid, (Served.machine ⟨2, 1, 0⟩).Reachable s ∧ s.requests = 1 ∧
      s.replies = s.requests := by
  let x := EdtGuid.ofKey 1
  obtain ⟨s, hr, hone, hidle, hzero⟩ :=
    Machine.Reachable.exists_of_exec (M := Served.machine ⟨2, 1, 0⟩)
      (P := fun s : Served EdtGuid => s.requests = 1 ∧ s.node.Idle ∧
        s.node.epoch.queued &&& epochMask = 0)
      (r := [.activate, .enqueue x, .request, .step 0 false, .finish x, .step 1 false,
        .step 0 false, .step 1 false, .step 1 false, .step 1 false])
      ⟨0, 0, 0, rfl⟩ (by decide +kernel)
  exact ⟨s, hr, hone, (one_reply_per_request ⟨by decide, by decide⟩ hr).2 hidle hzero⟩

end Arts
