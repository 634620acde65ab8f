import Arts.Epoch.Reduction
import Arts.Epoch.History

/-!
# The confirmation of a balanced round

`Call.Stage` says what is known at each access of `check_epoch`: nothing is confirmed before the
last comparison succeeds.
-/

namespace Arts

namespace Call

variable {ε : Type*}

/-- What is known where a call of the owner stands. `T` holds of the totals of a balanced
round. -/
def Stage (e : Epoch) (T : UInt32 → UInt32 → Prop) : Call ε → Prop
  | .reduce _ _ (.testLastActive ta tf) => T ta tf ∧ e.phase = .phase2
  | .reduce _ _ (.testLastFinish ta tf) => T ta tf ∧ e.phase = .phase2 ∧ e.lastActiveCount = ta
  | .reduce _ _ (.recordActive ta tf) => T ta tf
  | .reduce _ _ (.recordFinish tf) => T e.lastActiveCount tf
  | .reduce _ _ .setPhase2 => T e.lastActiveCount e.lastFinishedCount
  | .reduce _ _ .openRound => e.phase = .phase2 → T e.lastActiveCount e.lastFinishedCount
  | .reduce _ _ .readQueued | .reduce _ _ .closeRound => e.phase = .phase1
  | .reduce _ _ (.casPhase _) | .reduce _ _ (.complete _) | .reduce _ _ (.fire _) |
    .reduce _ _ .delete => False
  | _ => True

/-- The closing call has begun to record the totals and has not opened the next round. -/
def recording : Call ε → Bool
  | .reduce _ _ (.recordFinish _) | .reduce _ _ .setPhase2 | .reduce _ _ .openRound => true
  | _ => false

/-- The confirmation so far: the phase and the recorded totals. -/
def Confirms (e e' : Epoch) : Prop :=
  e'.phase = e.phase ∧ e'.lastActiveCount = e.lastActiveCount ∧
    e'.lastFinishedCount = e.lastFinishedCount

variable {e e' : Epoch} {T T' : UInt32 → UInt32 → Prop} {c : Call ε}

lemma Stage.congr
    (h : c.Stage e T) (he : Confirms e e') (hT : ∀ ta tf, T ta tf → T' ta tf) : c.Stage e' T' := by
  obtain ⟨hp, ha, hf⟩ := he
  cases c with
  | finish x pc => trivial
  | send pc => trivial
  | reduce a f pc => cases pc <;> simp only [Stage] at h ⊢ <;> grind

lemma Stage.of_closing_eq_zero (h : c.Stage e T) (hc : c.closing = 0) : c.Stage e' T' := by
  cases c with
  | finish x pc => trivial
  | send pc => trivial
  | reduce a f pc => cases pc <;> simp_all [Stage, closing]

variable {cfg : Config}

lemma Stage.ne_deleteEpoch (h : c.Stage e T) (hc : c.onOwner cfg = true) (ff : Bool) :
    (c.step cfg ff e).2.2 ≠ some .deleteEpoch := by
  have hfire : ∀ v, some (e.fire v) ≠ some .deleteEpoch := fun v => by
    unfold Epoch.fire
    split_ifs <;> simp
  have hreq : ∀ i, broadcastReq cfg i ≠ some .deleteEpoch := fun i => by
    unfold broadcastReq
    split_ifs <;> simp
  cases c with
  | finish x pc =>
    cases pc with
    | broadcast i => exact hreq i
    | casPhase | complete | fire | delete | load | cas | send => simp [onOwner] at hc
    | add | subQueued | casOutstanding | done =>
      simp only [step, finishStep]
      (try split_ifs) <;> simp
  | send pc => simp [onOwner] at hc
  | reduce a f pc =>
    cases pc with
    | broadcast i => exact hreq i
    | fire v => exact hfire v
    | delete => exact h.elim
    | _ => simp only [step, reduceStep]; (try split_ifs) <;> simp

lemma closing_of_recording (h : c.recording = true) : c.closing = 1 := by
  cases c with
  | finish x pc | send pc => simp [recording] at h
  | reduce a f pc => cases pc <;> simp_all [recording, closing]

lemma confirms_of_opens (hcfg : cfg.IsOwner) (ff : Bool)
    (hop : c.opensRound e = true) : Confirms e (c.step cfg ff e).1 ∧ c.unpublished = 0 ∧
      0 < (c.step cfg ff e).2.1.units cfg ∧ ∀ e' T, (c.step cfg ff e).2.1.Stage e' T := by
  have hpos : 0 < cfg.requestsFrom 0 := by
    have := hcfg.rankCount
    rw [Config.requestsFrom_zero]
    omega
  cases c with
  | finish x pc =>
    cases pc with
    | casOutstanding =>
      have h0 : e.outstanding = 0 := by simpa [opensRound] using hop
      simp only [step, finishStep, h0]
      exact ⟨⟨rfl, rfl, rfl⟩, rfl, hpos, fun _ _ => trivial⟩
    | _ => simp [opensRound] at hop
  | send pc => simp [opensRound] at hop
  | reduce a f pc =>
    cases pc with
    | openRound => exact ⟨⟨rfl, rfl, rfl⟩, rfl, hpos, fun _ _ => trivial⟩
    | _ => simp [opensRound] at hop

/-- What a step of the owner does to the confirmation. -/
structure ConfirmStep (T : UInt32 → UInt32 → Prop) (e : Epoch) (c : Call ε) (e' : Epoch)
    (c' : Call ε) : Prop where
  stage : c'.Stage e' T
  phase : e'.phase ≠ .phase3
  still : c.closing = 0 → Confirms e e'
  last : e'.phase = .phase2 → c'.recording = false → c.recording = false ∧ Confirms e e'
  closes : c.closing = 1 → e'.outstanding = e.outstanding ∨ e'.phase = .phase1

lemma ConfirmStep.calm {c' : Call ε}
    (hphase : e.phase ≠ .phase3) (he : Confirms e e') (hst : c'.Stage e' T)
    (hrec : c.recording = false)
    (hout : c.closing = 1 → e'.outstanding = e.outstanding ∨ e'.phase = .phase1) :
    ConfirmStep T e c e' c' :=
  ⟨hst, he.1 ▸ hphase, fun _ => he, fun _ _ => ⟨hrec, he⟩, hout⟩

/-- **The confirmation is not completed** while totals that satisfy `T` differ from the recorded
ones. -/
theorem confirmStep_step (hcfg : cfg.IsOwner)
    (ff : Bool) (hc : c.onOwner cfg = true) (hphase : e.phase ≠ .phase3)
    (hstage : c.Stage e T) (hno : c.opensRound e = false)
    (hcheck : ∀ a f ta, c = .reduce a f (.check ta ta) → ta ≠ 0 → T ta ta)
    (hnew : ∀ a f ta tf, c = .reduce a f (.testLastFinish ta tf) → e.lastFinishedCount ≠ tf) :
    ConfirmStep T e c (c.step cfg ff e).1 (c.step cfg ff e).2.1 := by
  have hzero {p : Prop} : 0 = 1 → p := by rintro ⟨⟩
  cases c with
  | finish x pc =>
    refine .calm hphase ?_ trivial rfl hzero
    cases pc with
    | add | subQueued | casOutstanding | broadcast | done =>
      simp only [step, finishStep]
      (try split_ifs) <;> exact ⟨rfl, rfl, rfl⟩
    | casPhase | complete | fire | delete | load | cas | send => simp [onOwner] at hc
  | send pc => simp [onOwner] at hc
  | reduce a f pc =>
    cases pc with
    | check ta tf =>
      simp only [step, reduceStep, checkStep, hcfg.rankCount_ne_one, ↓reduceIte]
      split_ifs with heq h2
      · obtain rfl : ta = tf := by simpa using UInt32.sub_eq_iff_eq_add.1 heq.2
        exact .calm hphase ⟨rfl, rfl, rfl⟩ ⟨hcheck a f ta rfl heq.1, h2⟩ rfl fun _ => .inl rfl
      · obtain rfl : ta = tf := by simpa using UInt32.sub_eq_iff_eq_add.1 heq.2
        exact .calm hphase ⟨rfl, rfl, rfl⟩ (hcheck a f ta rfl heq.1) rfl fun _ => .inl rfl
      · exact ⟨rfl, by simp, by rintro ⟨⟩, by simp, fun _ => .inl rfl⟩
    | testLastActive ta tf =>
      simp only [step, reduceStep]
      split_ifs with h
      · exact .calm hphase ⟨rfl, rfl, rfl⟩ ⟨hstage.1, hstage.2, h⟩ rfl fun _ => .inl rfl
      · exact .calm hphase ⟨rfl, rfl, rfl⟩ hstage.1 rfl fun _ => .inl rfl
    | testLastFinish ta tf =>
      -- the totals would be those of the previous round
      simp only [step, reduceStep, hnew a f ta tf rfl]
      exact .calm hphase ⟨rfl, rfl, rfl⟩ hstage.1 rfl fun _ => .inl rfl
    | recordActive ta tf | recordFinish tf =>
      exact ⟨hstage, hphase, by rintro ⟨⟩, by rintro _ ⟨⟩, fun _ => .inl rfl⟩
    | setPhase2 => exact ⟨fun _ => hstage, by rintro ⟨⟩, by rintro ⟨⟩, by rintro _ ⟨⟩, fun _ => .inl rfl⟩
    | readQueued =>
      simp only [step, reduceStep]
      split_ifs
      · refine .calm hphase ⟨rfl, rfl, rfl⟩ (fun h2 => ?_) rfl fun _ => .inl rfl
        have h1 : e.phase = .phase1 := hstage
        rw [h1] at h2
        cases h2
      · exact .calm hphase ⟨rfl, rfl, rfl⟩ hstage rfl fun _ => .inl rfl
    | closeRound => exact .calm hphase ⟨rfl, rfl, rfl⟩ trivial rfl fun _ => .inr hstage
    | testPhase =>
      simp only [step, reduceStep, hphase]
      exact .calm hphase ⟨rfl, rfl, rfl⟩ trivial rfl hzero
    | casPhase | complete | fire | delete => exact hstage.elim
    | openRound => simp [opensRound] at hno
    | test | load | cas | broadcast =>
      simp only [step, reduceStep]
      split_ifs <;> exact .calm hphase ⟨rfl, rfl, rfl⟩ trivial rfl hzero
    | addActive | addFinish | undoActive | undoFinish | done =>
      exact .calm hphase ⟨rfl, rfl, rfl⟩ trivial rfl hzero
    | readActive | readFinish | resetActive | resetFinish =>
      exact .calm hphase ⟨rfl, rfl, rfl⟩ trivial rfl fun _ => .inl rfl

end Call

end Arts
