import Arts.Db.System

/-!
# At most one EDT writes

Ownership is a token, and the head frontier is sealed while it is out. A rank with a copy grants it
in mode EW too (`DbSystem.two_writers`); apart from that there is one writer
(`DbSystem.one_writer`).
-/

namespace Arts

open List Function Option Frontier Bool

/-! ### The writer of a frontier -/

/-- A frontier has one writer: an EDT of the owner, or a write request of another rank. -/
structure Frontier.Single (owner : ℕ) (f : Frontier) : Prop where
  unsealed : f.writeSet = false → f.exclusive = none ∧ f.localWriteEdt = none
  delayed : ∀ a ∈ f.localDelayed, a.mode.isWrite = true → f.localWriteEdt = some a.edt
  exclusive : ∀ x, f.exclusive = some x → x.node ≠ owner ∧ f.localWriteEdt = none

/-- The head is sealed, and `w` is its writer if it is an EDT of the owner. -/
def SealedFor (fs : List Frontier) (w : Option EdtGuid) : Prop :=
  ∃ f, fs[0]? = some f ∧ f.writeSet = true ∧ f.localWriteEdt = w

section Push

variable {owner : ℕ} {f : Frontier} {fs : List Frontier} {q : FrontierRequest} {a : Acquire}
  {w : Option EdtGuid}

lemma Frontier.Single.empty (owner : ℕ) : Single owner {} :=
  ⟨fun _ => ⟨rfl, rfl⟩, by simp, by simp⟩

lemma Frontier.Single.taken (h : f.Single owner) (htakes : f.takes q = true)
    (hbypass : q.bypass = true → q.write = false) (hmode : q.mode.isWrite = q.write)
    (hnode : q.isLocal = false → q.data ≠ owner) (isHead : Bool) :
    ((f.taken q).1.delay q isHead).Single owner := by
  cases hseal : f.writeSet with
  | true =>
    -- the EDT that has sealed the frontier
    have hsame : q.isLocal = true ∧ f.localWriteEdt = q.edt := by
      have := htakes
      simp only [takes, hseal, Bool.not_true, Bool.false_or, and_eq_true,
        sameLocalWriter, beq_iff_eq] at this
      exact ⟨this.1, this.2.2⟩
    rw [taken_of_sealed hseal]
    refine ⟨fun hs => ?_, fun b hb hw => ?_, fun x hx => ?_⟩
    · rw [delay_writeSet] at hs
      exact absurd (hseal.symm.trans hs) (by simp)
    · rw [delay_localWriteEdt]
      rcases mem_localDelayed_delay hb with hb | ⟨-, e, he, rfl⟩
      · exact h.delayed b hb hw
      · exact hsame.2.trans he
    · rw [delay_exclusive] at hx
      rw [delay_localWriteEdt]
      exact h.exclusive x hx
  | false =>
    obtain ⟨hex, hnone⟩ := h.unsealed hseal
    have hread : ∀ b ∈ f.localDelayed, b.mode.isWrite = false := by
      intro b hb
      by_contra hw
      have := h.delayed b hb (by simpa using hw)
      rw [hnone] at this
      cases this
    have hset : (f.taken q).1.writeSet = q.write := by
      cases hb : q.bypass with
      | true => simp [Frontier.taken, pushDbToFrontier, hseal, hbypass hb]
      | false => simp [Frontier.taken, pushDbToFrontier, hseal, hb]
    have hedt : (f.taken q).1.localWriteEdt = if q.write && q.isLocal then q.edt else none := by
      simp [Frontier.taken, pushDbToFrontier, hseal, hnone]
    refine ⟨fun hs => ?_, fun b hb hw => ?_, fun x hx => ?_⟩
    · rw [delay_writeSet, hset] at hs
      rw [delay_exclusive, delay_localWriteEdt, hedt, exclusive_taken (by rw [hs]; rfl)]
      simp [hs, hex]
    · rw [delay_localWriteEdt, hedt]
      rcases mem_localDelayed_delay hb with hb | ⟨hlocal, e, he, rfl⟩
      · rw [localDelayed_taken] at hb
        exact absurd (hread b hb) (by simp [hw])
      · have hw : q.write = true := hmode.symm.trans hw
        simp [hw, hlocal, he]
    · rw [delay_exclusive] at hx
      rw [delay_localWriteEdt, hedt]
      cases hwl : (q.write && !q.isLocal) with
      | false =>
        rw [exclusive_taken hwl, hex] at hx
        cases hx
      | true =>
        obtain ⟨hw, hl⟩ := and_eq_true_iff.1 hwl
        have hl : q.isLocal = false := by simpa using hl
        refine ⟨?_, by simp [hl]⟩
        simp only [Frontier.taken, pushDbToFrontier, hseal] at hx
        simp only [false_eq_true, ↓reduceIte] at hx
        split at hx
        · obtain ⟨e, -, rfl⟩ := map_eq_some_iff.1 hx
          exact hnode hl
        · rw [hex] at hx
          cases hx

lemma single_push (h : ∀ f ∈ fs, f.Single owner) (hbypass : q.bypass = true → q.write = false)
    (hmode : q.mode.isWrite = q.write) (hnode : q.isLocal = false → q.data ≠ owner) (b : Bool) :
    ∀ f ∈ (pushDbToList q b fs).frontiers, f.Single owner := by
  intro f hf
  obtain ⟨i, hi⟩ := mem_iff_getElem?.1 hf
  rw [getElem?_push] at hi
  split at hi
  case isFalse => exact h f (mem_of_getElem? hi)
  case isTrue =>
    rw [← some.inj hi]
    cases hg : fs[taker q fs]? with
    | none =>
      exact (Single.empty owner).taken (by simp [takes]) hbypass hmode hnode _
    | some g =>
      exact (h g (mem_of_getElem? hg)).taken (takes_of_taker hg) hbypass hmode hnode _

lemma SealedFor.push (h : SealedFor fs w) (b : Bool) :
    SealedFor (pushDbToList q b fs).frontiers w := by
  obtain ⟨f, hf, hs, hw⟩ := h
  unfold SealedFor
  rw [getElem?_push]
  split
  case isFalse => exact ⟨f, hf, hs, hw⟩
  case isTrue h0 =>
    rw [← h0, hf, getD_some, taken_of_sealed hs]
    exact ⟨_, rfl, by rw [delay_writeSet]; exact hs, by rw [delay_localWriteEdt]; exact hw⟩

lemma SealedFor.unique {w' : Option EdtGuid} (h : SealedFor fs w) (h' : SealedFor fs w') :
    w = w' := by
  obtain ⟨f, hf, -, hw⟩ := h
  obtain ⟨g, hg, -, hw'⟩ := h'
  obtain rfl := some.inj (hf.symm.trans hg)
  exact hw.symm.trans hw'

lemma takes_head (h0 : taker q fs = 0) : (fs[0]?.getD ({} : Frontier)).takes q = true := by
  cases hf : fs[0]? with
  | none => rfl
  | some f => exact takes_of_taker (h0.symm ▸ hf)

lemma localWriteEdt_taken (h : f.Single owner) (htakes : f.takes q = true)
    (hwrite : q.write = true) :
    (f.taken q).1.localWriteEdt = if q.isLocal then q.edt else none := by
  cases hseal : f.writeSet with
  | true =>
    rw [taken_of_sealed hseal]
    simp only [takes, hseal, Bool.not_true, Bool.false_or, and_eq_true,
      sameLocalWriter, beq_iff_eq] at htakes
    rw [if_pos htakes.1]
    exact htakes.2.2
  | false => simp [taken, pushDbToFrontier, hseal, hwrite, (h.unsealed hseal).2]

lemma sealedFor_push (hsingle : ∀ f ∈ fs, f.Single owner) (h0 : taker q fs = 0)
    (hwrite : q.write = true) (hbypass : q.bypass = false) (b : Bool) :
    SealedFor (pushDbToList q b fs).frontiers (if q.isLocal then q.edt else none) := by
  have hhead : (fs[0]?.getD ({} : Frontier)).Single owner := by
    cases hf : fs[0]? with
    | none => exact .empty owner
    | some f => exact hsingle f (mem_of_getElem? hf)
  unfold SealedFor
  rw [getElem?_push, h0, if_pos rfl]
  refine ⟨_, rfl, ?_, ?_⟩
  · rw [delay_writeSet]
    rw [writeSet_taken (by simp [hbypass]), hwrite, Bool.or_true]
  · rw [delay_localWriteEdt]
    exact localWriteEdt_taken hhead (takes_head h0) hwrite

lemma not_sealedFor_of_taker (h0 : taker q fs = 0) (hlocal : q.isLocal = false) :
    ¬ SealedFor fs w := by
  rintro ⟨f, hf, hs, -⟩
  have htakes := takes_of_taker (h0.symm ▸ hf)
  simp [takes, hs, hlocal] at htakes

lemma onHead_push : (pushDbToList q true fs).onHead = true ↔ taker q fs = 0 := by
  rw [pushDbToList_eq]
  simp

lemma SealedFor.close (h : SealedFor fs w) : SealedFor (closeFrontier fs).1 w := by
  obtain ⟨f, hf, hs, hw⟩ := h
  cases fs with
  | nil => cases hf
  | cons g fs =>
    obtain rfl : g = f := some.inj hf
    exact ⟨_, rfl, rfl, hw⟩

lemma single_close (h : ∀ f ∈ fs, f.Single owner) :
    ∀ f ∈ (closeFrontier fs).1, f.Single owner := by
  cases fs with
  | nil => exact h
  | cons g fs =>
    intro f hf
    rcases mem_cons.1 hf with rfl | hf
    · have hg := h g mem_cons_self
      exact ⟨(fun hs => nomatch hs), hg.delayed, hg.exclusive⟩
    · exact h f (mem_cons_of_mem _ hf)

lemma single_clear (h : ∀ f ∈ fs, f.Single owner) (rank : ℕ) (edt : EdtGuid) :
    ∀ f ∈ clearExclusiveRequest rank edt fs, f.Single owner := by
  induction fs with
  | nil => exact h
  | cons g fs ih =>
    have hg := h g mem_cons_self
    have hfs := fun f hf => h f (mem_cons_of_mem g hf)
    intro f hf
    rw [clearExclusiveRequest] at hf
    split at hf
    · rcases mem_cons.1 hf with rfl | hf
      · exact ⟨fun hs => ⟨rfl, (hg.unsealed hs).2⟩, hg.delayed, by simp⟩
      · exact hfs f hf
    · rcases mem_cons.1 hf with rfl | hf
      · exact hg
      · exact ih hfs f hf

lemma SealedFor.clear (h : SealedFor fs w) (rank : ℕ) (edt : EdtGuid) :
    SealedFor (clearExclusiveRequest rank edt fs) w := by
  obtain ⟨f, hf, hs, hw⟩ := h
  cases fs with
  | nil => cases hf
  | cons g fs =>
    obtain rfl : g = f := some.inj hf
    rw [clearExclusiveRequest]
    split
    · exact ⟨_, rfl, hs, hw⟩
    · exact ⟨_, rfl, hs, hw⟩

end Push

/-! ### The token -/

def DbPacket.token : DbPacket → ℕ
  | .fullSend .. | .update .. => 1
  | _ => 0

/-- The message is a write request. -/
def DbPacket.isFullRequest : DbPacket → Bool
  | .fullRequest .. => true
  | _ => false

/-- The messages of a run in which no write request is redirected: a write request goes to the owner
and is answered to another rank, an update carries data, and the other requests only read. -/
def DbPacket.Direct (owner : ℕ) : DbPacket → Prop
  | .dbRequest _ _ mode _ => mode.isWrite = false
  | .fullRequest dest x => dest = owner ∧ x.node ≠ owner ∧ x.acquire.mode = .ew
  | .fullSend dest _ => dest ≠ owner
  | .alreadyLocal .. => False
  | .update _ data => data = true
  | _ => True

/-- What waits for a copy only reads. -/
def Waiter.Reads : Waiter → Prop
  | .slot a => a.mode.isWrite = false
  | .dbSend _ => True
  | .fullSend _ => False

namespace DbSystem

/-- **The condition.**  An EDT that asks to write finds no copy on its rank; a write request is
handled, and the owner asks to write, only while the data are on the owner; and an EDT that has
written finds its copy when it releases. -/
def Regular (owner : ℕ) (s : DbSystem) : Act → Prop
  | .acquire rank a _ => a.mode = .ew →
      if rank = owner then s.requested = true ∨ s.validRank = owner
      else (s.table rank).isAvailable = false
  | .release rank edt =>
      rank ≠ owner → (∃ p ∈ s.granted, ofEdt rank edt p = true ∧ p.2.mode.isWrite = true) →
        (s.table rank).isAvailable = true
  | .deliver i => ∀ p ∈ s.packets[i]?, p.isFullRequest = true →
      s.requested = true ∨ s.validRank = owner
  | _ => True

instance (owner : ℕ) (s : DbSystem) (l : Act) : Decidable (s.Regular owner l) := by
  cases l <;> unfold Regular <;> infer_instance

/-- How many tokens are out, apart from those of EDTs that have acquired the datablock. -/
def out (s : DbSystem) : ℕ := weight DbPacket.token s.packets + s.creating.toNat

/-- The writer for which the head is sealed while the slot is granted. -/
def sealer (owner : ℕ) (p : ℕ × Acquire) : Option EdtGuid :=
  if p.1 = owner then some p.2.edt else none

variable {p : DbPacket}

structure Inv (owner : ℕ) (s : DbSystem) : Prop where
  single : ∀ f ∈ s.frontiers, f.Single owner
  direct : ∀ p ∈ s.packets, p.Direct owner
  waiting : ∀ a ∈ s.waiting, a.mode.isWrite = false
  waiters : ∀ r ws, s.table r = .reserved ws → ∀ w ∈ ws, w.Reads
  out_le : s.out ≤ 1
  alone : 0 < s.out → ∀ p ∈ s.granted, p.2.mode.isWrite = false
  outHead : 0 < s.out → SealedFor s.frontiers none
  heldHead : ∀ p ∈ s.granted, p.2.mode.isWrite = true → SealedFor s.frontiers (sealer owner p)
  same : ∀ p ∈ s.granted, ∀ q ∈ s.granted, p.2.mode.isWrite = true → q.2.mode.isWrite = true →
    p.1 = q.1 ∧ p.2.edt = q.2.edt

namespace Inv

variable {owner : ℕ} {s : DbSystem}

/-! ### Steps that leave the token alone -/

lemma post (h : Inv owner s) (hp : p.Direct owner) (ht : p.token = 0) : Inv owner (s.post p) := by
  have hout : (s.post p).out = s.out := by simp [out, DbSystem.post, ht]
  exact
    { h with
      direct := forall_mem_append_singleton h.direct hp
      out_le := hout ▸ h.out_le
      alone := hout ▸ h.alone
      outHead := hout ▸ h.outHead }

variable {a : Acquire}

lemma grantRead (h : Inv owner s) (ha : a.mode.isWrite = false) (rank : ℕ) :
    Inv owner (s.grant rank a) where
  __ := h
  alone ho := forall_mem_append_singleton (h.alone ho) ha
  heldHead := forall_mem_append_singleton h.heldHead fun hw => absurd (ha.symm.trans hw) (by simp)
  same := by
    have hne : ∀ p ∈ s.granted ++ [(rank, a)], p.2.mode.isWrite = true → p ∈ s.granted := by
      refine forall_mem_append_singleton (fun p hp _ => hp) fun hw => ?_
      exact absurd (ha.symm.trans hw) (by simp)
    exact fun p hp q hq hw hw' => h.same p (hne p hp hw) q (hne q hq hw') hw hw'

variable {fs : List Frontier}

lemma setFrontiers (h : Inv owner s) (hsingle : ∀ f ∈ fs, f.Single owner)
    (hhead : ∀ w, SealedFor s.frontiers w → SealedFor fs w) :
    Inv owner { s with frontiers := fs } :=
  { h with
    single := hsingle
    outHead := fun ho => hhead _ (h.outHead ho)
    heldHead := fun p hp hw => hhead _ (h.heldHead p hp hw) }

lemma setIdle (h : Inv owner s) (hsingle : ∀ f ∈ fs, f.Single owner)
    (hout : s.out = 0) (hidle : ∀ p ∈ s.granted, p.2.mode.isWrite = false) :
    Inv owner { s with frontiers := fs } :=
  { h with
    single := hsingle
    outHead := fun ho => absurd hout (Nat.ne_of_gt ho)
    heldHead := fun p hp hw => absurd (hidle p hp) (by rw [hw]; simp) }

variable {rank : ℕ} {e : Replica Waiter Unit}

lemma setTable (h : Inv owner s) (he : ∀ ws, e = .reserved ws → ∀ w ∈ ws, w.Reads) :
    Inv owner { s with table := update s.table rank e } :=
  { h with
    waiters := fun r ws hws => by
      by_cases hr : r = rank
      · subst hr
        simp only [update_self] at hws
        exact he ws hws
      · simp only [update_of_ne hr] at hws
        exact h.waiters r ws hws }

lemma awaitCopy (h : Inv owner s) {w : Waiter} (hw : w.Reads) :
    Inv owner (s.awaitCopy rank w) := by
  refine h.setTable fun ws hws => ?_
  cases he : s.table rank with
  | absent =>
    rw [he] at hws
    cases hws
    simpa using hw
  | reserved ws' =>
    rw [he] at hws
    cases hws
    exact forall_mem_append_singleton (h.waiters rank ws' he) hw
  | available c =>
    rw [he] at hws
    cases hws

lemma invalidateAll (h : Inv owner s) (ranks : List ℕ) : Inv owner (s.invalidateAll ranks) := by
  have hzero : weight DbPacket.token (ranks.map .invalidate) = 0 :=
    weight_eq_zero.2 (by simp [DbPacket.token])
  have hout : (s.invalidateAll ranks).out = s.out := by
    simp [out, DbSystem.invalidateAll, hzero]
  exact
    { h with
      direct := fun p hp => by
        rcases mem_append.1 hp with hp | hp
        · exact h.direct p hp
        · obtain ⟨r, -, rfl⟩ := mem_map.1 hp
          trivial
      out_le := hout ▸ h.out_le
      alone := hout ▸ h.alone
      outHead := hout ▸ h.outHead }

lemma request (h : Inv owner s) (ha : a.mode.isWrite = false) (dest : ℕ)
    (flags : UInt32) : Inv owner (s.request owner dest a flags) := by
  have hs : Inv owner (if s.requested then s
      else { s.post (.dbRequest dest owner a.mode flags) with requested := true }) := by
    split
    · exact h
    · exact { h.post (p := .dbRequest dest owner a.mode flags) ha rfl with }
  unfold DbSystem.request
  dsimp only
  split
  · exact hs.grantRead ha owner
  · exact { hs with waiting := forall_mem_append_singleton hs.waiting ha }

lemma install (h : Inv owner s) {ws : List Waiter}
    (he : ∀ ws, e ≠ .reserved ws) (hws : ∀ w ∈ ws, w.Reads) :
    Inv owner (s.install rank (e, ws)) := by
  have hs : Inv owner { s with table := update s.table rank e } :=
    h.setTable fun ws hws => absurd hws (he ws)
  unfold DbSystem.install
  generalize { s with table := update s.table rank e } = t at hs
  induction ws generalizing t with
  | nil => exact hs
  | cons w ws ih =>
    have hw := hws w mem_cons_self
    refine ih (fun v hv => hws v (mem_cons_of_mem _ hv)) _ ?_
    cases w with
    | slot a => exact hs.grantRead hw rank
    | dbSend node => exact hs.post trivial rfl
    | fullSend x => exact hw.elim

lemma fire (h : Inv owner s) : Inv owner (s.fire owner) := by
  have hold : ∀ p ∈ s.granted ++ s.waiting.map fun a => (owner, a), p.2.mode.isWrite = true →
      p ∈ s.granted := by
    intro p hp hw
    rcases mem_append.1 hp with hp | hp
    · exact hp
    · obtain ⟨a, ha, rfl⟩ := mem_map.1 hp
      exact absurd (h.waiting a ha) (by rw [hw]; simp)
  exact
    { single := h.single
      __ := h
      waiting := by simp [DbSystem.fire]
      alone := fun ho p hp => by
        by_contra hw
        have hw : p.2.mode.isWrite = true := by simpa using hw
        exact absurd (h.alone ho p (hold p hp hw)) (by rw [hw]; simp)
      heldHead := fun p hp hw => h.heldHead p (hold p hp hw) hw
      same := fun p hp q hq hw hw' => h.same p (hold p hp hw) q (hold q hq hw') hw hw' }

/-! ### Steps that pass the token on -/

/-- The token is not out. -/
def Idle (s : DbSystem) : Prop := s.out = 0 ∧ ∀ p ∈ s.granted, p.2.mode.isWrite = false

lemma postToken (h : Inv owner s) (hidle : Idle s) (hhead : SealedFor s.frontiers none) (hp : p.Direct owner) (ht : p.token = 1) : Inv owner (s.post p) := by
  have hout : (s.post p).out = 1 := by
    have := hidle.1
    simp only [out] at this
    simp only [out, DbSystem.post, weight_append, weight_cons, weight_nil]
    omega
  exact
    { h with
      direct := forall_mem_append_singleton h.direct hp
      out_le := by rw [hout]
      alone := fun _ => hidle.2
      outHead := fun _ => hhead }

lemma grantWrite (h : Inv owner s) (hout : s.out = 0)
    (hhead : SealedFor s.frontiers (sealer owner (rank, a)))
    (hsame : ∀ p ∈ s.granted, p.2.mode.isWrite = true → p.1 = rank ∧ p.2.edt = a.edt) :
    Inv owner (s.grant rank a) where
  __ := h
  alone ho := absurd hout (Nat.ne_of_gt ho)
  heldHead := forall_mem_append_singleton h.heldHead fun _ => hhead
  same := by
    have hall : ∀ p ∈ s.granted ++ [(rank, a)], p.2.mode.isWrite = true →
        p.1 = rank ∧ p.2.edt = a.edt :=
      forall_mem_append_singleton hsame fun _ => ⟨rfl, rfl⟩
    intro p hp q hq hw hw'
    obtain ⟨hp₁, hp₂⟩ := hall p hp hw
    obtain ⟨hq₁, hq₂⟩ := hall q hq hw'
    exact ⟨hp₁.trans hq₁.symm, hp₂.trans hq₂.symm⟩

lemma grantLocal (h : Inv owner s) (hout : s.out = 0)
    (hhead : SealedFor s.frontiers (some a.edt)) : Inv owner (s.grant owner a) := by
  refine h.grantWrite hout (by simpa [sealer] using hhead) fun p hp hw => ?_
  have heq := (h.heldHead p hp hw).unique hhead
  unfold sealer at heq
  split at heq
  case isTrue hp => exact ⟨hp, some.inj heq⟩
  case isFalse => cases heq

/-- The notices of a frontier that is served, apart from its write request. -/
def Served (fs : List Frontier) (s : DbSystem) : Notice → Prop
  | .send _ => True
  | .grant a => a.mode.isWrite = true → s.out = 0 ∧ SealedFor fs (some a.edt)
  | _ => False

lemma notify {ns : List Notice} (h : Inv owner s) (hns : ∀ n ∈ ns, Served s.frontiers s n) :
    Inv owner (ns.foldl (DbSystem.notify owner) s) := by
  induction ns generalizing s with
  | nil => exact h
  | cons n ns ih =>
    have hn := hns n mem_cons_self
    have htail := fun m hm => hns m (mem_cons_of_mem n hm)
    cases n with
    | send node =>
      refine ih (h.post trivial rfl) fun m hm => ?_
      have hout : (s.post (.dbSend node)).out = s.out := by
        simp [out, DbSystem.post, DbPacket.token]
      have := htail m hm
      cases m with
      | grant a => exact fun hw => hout ▸ this hw
      | _ => exact this
    | grant a =>
      refine ih ?_ fun m hm => ?_
      · cases hw : a.mode.isWrite with
        | false => exact h.grantRead hw owner
        | true => exact h.grantLocal (hn hw).1 (hn hw).2
      · have := htail m hm
        cases m <;> exact this
    | _ => exact hn.elim

/-- **The next frontier gets the token.** -/
theorem progress (h : Inv owner s) (hidle : Idle s) :
    Inv owner (s.handle owner (progressFrontier owner owner s.frontiers)) := by
  unfold DbSystem.handle
  rcases hfs : s.frontiers with - | ⟨f, - | ⟨g, fs⟩⟩
  · exact h.setIdle (by simp [progressFrontier]) hidle.1 hidle.2
  · exact h.setIdle (by simp [progressFrontier]) hidle.1 hidle.2
  · have hsingle : ∀ f ∈ g :: fs, f.Single owner := by
      intro f' hf
      exact h.single f' (by rw [hfs]; exact mem_cons_of_mem _ hf)
    have hg := hsingle g mem_cons_self
    have hs : Inv owner { s with frontiers := g :: fs } := h.setIdle hsingle hidle.1 hidle.2
    rw [progressFrontier, if_pos rfl]
    rw [signalFrontierLocal, foldl_append, foldl_append, ← foldl_append]
    cases hex : g.exclusive with
    | none =>
      refine hs.notify fun n hn => ?_
      rcases mem_append.1 hn with hn | hn
      · obtain ⟨node, -, rfl⟩ := mem_map.1 hn
        trivial
      · obtain ⟨a, ha, rfl⟩ := mem_map.1 hn
        intro hw
        have hedt := hg.delayed a ha hw
        refine ⟨hidle.1, g, rfl, ?_, hedt⟩
        by_contra hopen
        have := (hg.unsealed (by simpa using hopen)).2
        rw [hedt] at this
        cases this
    | some x =>
      obtain ⟨hnode, hnone⟩ := hg.exclusive x hex
      have hseal : g.writeSet = true := by
        by_contra hopen
        have := (hg.unsealed (by simpa using hopen)).1
        rw [hex] at this
        cases this
      have hpost := hs.postToken hidle ⟨g, rfl, hseal, hnone⟩
        (p := .fullSend x.node x.acquire) hnode rfl
      simp only [if_neg hnode]
      refine hpost.notify fun n hn => ?_
      rcases mem_append.1 hn with hn | hn
      · obtain ⟨node, -, rfl⟩ := mem_map.1 hn
        trivial
      · obtain ⟨a, ha, rfl⟩ := mem_map.1 hn
        intro hw
        have := hg.delayed a ha hw
        rw [hnone] at this
        cases this

/-! ### The acts -/

section Acts

variable {rank : ℕ} {a : Acquire}

lemma single_duplicate {fs : List Frontier} (h : ∀ f ∈ fs, f.Single owner) (rank : ℕ)
    (edt : Option EdtGuid) (slot : UInt32) (mode : AccessMode) (flags : UInt32) :
    ∀ f ∈ (addDbDuplicateEx owner fs rank edt slot mode flags).frontiers, f.Single owner :=
  single_push h bypass_duplicateRequest rfl
    (fun hl => (beq_eq_false_iff_ne.1 hl).symm) true

lemma acquireDb (h : Inv owner s) (ha : a.mode = .ro ∨ a.mode = .ew) (flags : UInt32) :
    Inv owner (s.handle owner (acquireDb owner s.frontiers a flags)) := by
  have hs := h.setFrontiers (single_duplicate h.single owner (some a.edt) a.slot a.mode flags)
    fun w hw => hw.push true
  unfold DbSystem.handle Arts.acquireDb
  dsimp only
  split
  case isFalse => exact hs
  case isTrue hhead =>
    rcases ha with ha | ha
    · exact hs.grantRead (by rw [ha]; rfl) owner
    · have hseal : SealedFor
          (addDbDuplicateEx owner s.frontiers owner (some a.edt) a.slot a.mode flags).frontiers
          (some a.edt) := by
        have hlocal : (duplicateRequest owner owner (some a.edt) a.slot a.mode flags).isLocal = true :=
          beq_self_eq_true owner
        have := sealedFor_push h.single (onHead_push.1 hhead) (by rw [ha]; rfl)
          (by rw [ha]; rfl) true
        rw [if_pos hlocal] at this
        exact this
      refine hs.grantLocal (Nat.eq_zero_of_not_pos fun ho => ?_) hseal
      exact absurd ((hs.outHead ho).unique hseal) (by simp)

lemma acquire (h : Inv owner s) (ha : a.mode = .ro ∨ a.mode = .ew) {flags : UInt32}
    (hreg : s.Regular owner (.acquire rank a flags)) : Inv owner (s.acquire owner rank a flags) := by
  unfold DbSystem.acquire
  by_cases hrank : rank = owner
  · rw [if_pos hrank]
    split
    case isTrue => exact h
    case isFalse hreq =>
      split
      case isTrue => exact h.acquireDb ha flags
      case isFalse hvalid =>
        have hread : a.mode = .ro := by
          refine ha.resolve_right fun hew => ?_
          have := hreg hew
          rw [if_pos hrank] at this
          exact this.elim hreq hvalid
        have hs := h.setFrontiers
          (single_duplicate h.single owner (some a.edt) a.slot a.mode flags) fun w hw => hw.push true
        rw [if_pos hread]
        exact hs.request (by rw [hread]; rfl) _ _
  · rw [if_neg hrank]
    split
    case isTrue hav =>
      have hread : a.mode = .ro := by
        refine ha.resolve_right fun hew => ?_
        have := hreg hew
        rw [if_neg hrank, hav] at this
        cases this
      exact h.grantRead (by rw [hread]; rfl) rank
    case isFalse =>
      split
      case isTrue hew => exact h.post ⟨rfl, hrank, hew⟩ rfl
      case isFalse hew =>
        have hread : a.mode.isWrite = false := by
          rw [ha.resolve_right hew]
          rfl
        have hs : Inv owner (s.awaitCopy rank (.slot a)) := h.awaitCopy hread
        dsimp only
        split
        · exact hs.post hread rfl
        · exact hs

lemma prep (h : Inv owner s) : Inv owner (s.prep owner rank) := by
  unfold DbSystem.prep
  split
  · split
    · exact h
    · exact (h.setFrontiers (single_close h.single) fun w hw => hw.close).invalidateAll _
  · exact h.post trivial rfl

lemma drop (h : Inv owner s) (gs : List (ℕ × Acquire)) (hgs : gs ⊆ s.granted) :
    Inv owner { s with granted := gs } :=
  { h with
    alone := fun ho p hp => h.alone ho p (hgs hp)
    heldHead := fun p hp => h.heldHead p (hgs hp)
    same := fun p hp q hq => h.same p (hgs hp) q (hgs hq) }

lemma release (h : Inv owner s) {edt : EdtGuid} (hreg : s.Regular owner (.release rank edt)) :
    Inv owner (s.release owner rank edt) := by
  have hs := h.drop (s.granted.filter fun p => !ofEdt rank edt p) (filter_subset_self _)
  unfold DbSystem.release
  split
  case isFalse => exact hs
  case isTrue hany =>
    obtain ⟨p, hp, hpw⟩ := any_eq_true.1 hany
    obtain ⟨hof, hw⟩ := and_eq_true_iff.1 hpw
    have hof' : p.1 = rank ∧ p.2.edt = edt := by simpa [ofEdt] using hof
    have hidle : Idle { s with granted := s.granted.filter fun p => !ofEdt rank edt p } := by
      refine ⟨Nat.eq_zero_of_not_pos fun ho => ?_, fun q hq => ?_⟩
      · exact absurd (h.alone ho p hp) (by rw [hw]; simp)
      · obtain ⟨hq, hne⟩ := mem_filter.1 hq
        by_contra hqw
        obtain ⟨h₁, h₂⟩ := h.same q hq p hp (by simpa using hqw) hw
        simp [ofEdt, h₁, h₂, hof'] at hne
    split
    case isTrue => exact hs.progress hidle
    case isFalse hrank =>
      have hav := hreg hrank ⟨p, hp, hof, hw⟩
      rw [hav]
      refine hs.postToken hidle ?_ rfl rfl
      have := h.heldHead p hp hw
      rwa [sealer, if_neg (by rw [hof'.1]; exact hrank)] at this

lemma releaseCreated (h : Inv owner s) (hc : s.creating = true) :
    Inv owner (s.releaseCreated owner) := by
  have hout : s.out = 1 := by
    have := h.out_le
    simp only [out, hc, toNat_true] at this ⊢
    omega
  have hzero : out { s with creating := false } = 0 := by
    simp only [out, hc, toNat_true, toNat_false] at hout ⊢
    omega
  have hs : Inv owner { s with creating := false } :=
    { h with
      out_le := by rw [hzero]; omega
      alone := fun ho => absurd hzero (Nat.ne_of_gt ho)
      outHead := fun ho => absurd hzero (Nat.ne_of_gt ho) }
  exact hs.progress ⟨hzero, h.alone (by omega)⟩

end Acts

/-! ### The messages -/

section Deliver

variable {i : ℕ} {p : DbPacket}

lemma take (h : Inv owner s) (hp : s.packets[i]? = some p) (ht : p.token = 0) :
    Inv owner { s with packets := s.packets.eraseIdx i } := by
  have hout : out { s with packets := s.packets.eraseIdx i } = s.out := by
    have := weight_eraseIdx DbPacket.token hp
    simp only [out]
    omega
  exact
    { h with
      direct := fun p hp => h.direct p (eraseIdx_subset hp)
      out_le := by rw [hout]; exact h.out_le
      alone := by rw [hout]; exact h.alone
      outHead := by rw [hout]; exact h.outHead }

lemma takeToken (h : Inv owner s) (hp : s.packets[i]? = some p) (ht : p.token = 1) :
    Inv owner { s with packets := s.packets.eraseIdx i } ∧
      Idle { s with packets := s.packets.eraseIdx i } ∧ SealedFor s.frontiers none := by
  have hweight := weight_eraseIdx DbPacket.token hp
  have hpos : 0 < s.out := by
    simp only [out]
    omega
  have hout : out { s with packets := s.packets.eraseIdx i } = 0 := by
    have := h.out_le
    simp only [out] at this ⊢
    omega
  refine ⟨?_, ⟨hout, h.alone hpos⟩, h.outHead hpos⟩
  exact
    { h with
      direct := fun p hp => h.direct p (eraseIdx_subset hp)
      out_le := by rw [hout]; omega
      alone := fun ho => absurd hout (Nat.ne_of_gt ho)
      outHead := fun ho => absurd hout (Nat.ne_of_gt ho) }

variable {dest : ℕ}

lemma handleDbRequest (h : Inv owner s) {node : ℕ} {mode : AccessMode}
    (hmode : mode.isWrite = false) (flags : UInt32) :
    Inv owner (s.handleDbRequest owner dest node mode flags) := by
  unfold DbSystem.handleDbRequest
  split
  · split
    · exact h
    · split
      · have hs := h.setFrontiers (single_duplicate h.single node none 0 mode flags)
          fun w hw => hw.push true
        unfold DbSystem.handle remoteDbSendCheck
        dsimp only
        split
        · exact hs.post trivial rfl
        · exact hs
      · exact h.post hmode rfl
  · split
    · split
      · exact h
      · exact h.post trivial rfl
    · exact h.awaitCopy trivial

/-- **A write request is put into the head only while the token is not out.** -/
theorem handleFullRequest (h : Inv owner s) {x : Exclusive} (hx : x.node ≠ owner)
    (hmode : x.acquire.mode = .ew) (hvalid : s.requested = true ∨ s.validRank = owner) :
    Inv owner (s.handleFullRequest owner owner x) := by
  unfold DbSystem.handleFullRequest
  rw [if_pos rfl]
  split
  case isTrue => exact h
  case isFalse hreq =>
    rw [if_pos (hvalid.resolve_left hreq)]
    obtain ⟨q, hq⟩ : ∃ q, q = DbOwner.fullRequestOf owner x := ⟨_, rfl⟩
    have hlocal : q.isLocal = false := by
      rw [hq]
      exact beq_eq_false_iff_ne.2 (Ne.symm hx)
    have hwrite : q.write = true := by rw [hq]; exact congrArg AccessMode.isWrite hmode
    have hbypass : q.bypass = false := by rw [hq]; simp [DbOwner.fullRequestOf, duplicateRequest]
    have hfs : addDbDuplicateEx owner s.frontiers x.node (some x.acquire.edt) x.acquire.slot
        x.acquire.mode 0 = pushDbToList q true s.frontiers := by
      rw [hq]
      rfl
    have hsingle : ∀ f ∈ (pushDbToList q true s.frontiers).frontiers, f.Single owner :=
      hfs ▸ single_duplicate h.single _ _ _ _ _
    unfold DbSystem.handle remoteDbFullSendCheck
    rw [hfs]
    dsimp only
    split
    case isFalse => exact h.setFrontiers hsingle fun w hw => hw.push true
    case isTrue hhead =>
      have h0 := onHead_push.1 (and_eq_true_iff.1 hhead).2
      have hopen : ∀ w, ¬ SealedFor s.frontiers w := fun w => not_sealedFor_of_taker h0 hlocal
      have hidle : Idle s := by
        refine ⟨Nat.eq_zero_of_not_pos fun ho => hopen _ (h.outHead ho), fun p hp => ?_⟩
        by_contra hw
        exact hopen _ (h.heldHead p hp (by simpa using hw))
      have hseal := sealedFor_push h.single h0 hwrite hbypass true
      rw [if_neg (by simp [hlocal])] at hseal
      have hs := h.setIdle (single_clear hsingle x.node x.acquire.edt) hidle.1 hidle.2
      exact hs.postToken hidle (hseal.clear _ _) hx rfl

lemma reads_of_received (h : Inv owner s) (rank : ℕ) :
    (∀ ws, ((s.table rank).received ()).1 ≠ .reserved ws) ∧
      ∀ w ∈ ((s.table rank).received ()).2, w.Reads := by
  cases he : s.table rank with
  | reserved ws => exact ⟨by simp [Replica.received], h.waiters rank ws he⟩
  | _ => exact ⟨by simp [Replica.received], by simp [Replica.received]⟩

lemma reads_of_fullReceived (h : Inv owner s) (rank : ℕ) :
    (∀ ws, ((s.table rank).fullReceived ()).1 ≠ .reserved ws) ∧
      ∀ w ∈ ((s.table rank).fullReceived ()).2, w.Reads := by
  cases he : s.table rank with
  | reserved ws => exact ⟨by simp [Replica.fullReceived], h.waiters rank ws he⟩
  | _ => exact ⟨by simp [Replica.fullReceived], by simp [Replica.fullReceived]⟩

lemma idle_install (hidle : Idle s) (rank : ℕ) (e : Replica Waiter Unit) {ws : List Waiter}
    (hws : ∀ w ∈ ws, w.Reads) :
    Idle (s.install rank (e, ws)) ∧ (s.install rank (e, ws)).frontiers = s.frontiers := by
  have hs : Idle { s with table := update s.table rank e } := hidle
  have hfs : ({ s with table := update s.table rank e } : DbSystem).frontiers =
    s.frontiers := rfl
  unfold DbSystem.install
  generalize { s with table := update s.table rank e } = t at hs hfs
  induction ws generalizing t with
  | nil => exact ⟨hs, hfs⟩
  | cons w ws ih =>
    have hw := hws w mem_cons_self
    have htail := fun v hv => hws v (mem_cons_of_mem w hv)
    cases w with
    | slot a => exact ih htail _ ⟨hs.1, forall_mem_append_singleton hs.2 hw⟩ hfs
    | dbSend node =>
      refine ih htail _ ⟨?_, hs.2⟩ hfs
      have := hs.1
      simp only [out, wake, DbSystem.post, weight_append, weight_cons, weight_nil,
        DbPacket.token] at this ⊢
      omega
    | fullSend x => exact hw.elim

lemma handleFullSend (h : Inv owner s) (hidle : Idle s) (hhead : SealedFor s.frontiers none) (hdest : dest ≠ owner) (a : Acquire) :
    Inv owner ((s.install dest ((s.table dest).fullReceived ())).grant dest a) := by
  obtain ⟨he, hws⟩ := h.reads_of_fullReceived dest
  obtain ⟨hidle', hfs⟩ := idle_install hidle dest ((s.table dest).fullReceived ()).1 hws
  refine (h.install he hws).grantWrite hidle'.1 ?_ fun q hq hw => ?_
  · rw [sealer, if_neg hdest, hfs]
    exact hhead
  · exact absurd (hidle'.2 q hq) (by rw [hw]; simp)

lemma handleUpdateGuid (h : Inv owner s) (node : ℕ) (ranks : List ℕ) :
    Inv owner (DbSystem.invalidateAll
      { s with
        frontiers := (closeFrontier s.frontiers).1
        validRank := node
        fired := false } ranks) := by
  have hclose := h.setFrontiers (single_close h.single) fun w hw => hw.close
  have hs : Inv owner
      { s with
        frontiers := (closeFrontier s.frontiers).1
        validRank := node
        fired := false } := { hclose with }
  exact hs.invalidateAll ranks

lemma handleInvalidate (h : Inv owner s) (dest : ℕ) :
    Inv owner { s with table := update s.table dest (s.table dest).invalidate } := by
  refine h.setTable fun ws hws => ?_
  cases he : s.table dest with
  | reserved ws' =>
    rw [he] at hws
    cases hws
    exact h.waiters dest _ he
  | absent | available c =>
    rw [he] at hws
    cases hws

lemma receive (h : Inv owner s) (hp : s.packets[i]? = some p)
    (hreg : s.Regular owner (.deliver i)) :
    Inv owner (receive owner { s with packets := s.packets.eraseIdx i } p) := by
  have hdirect := h.direct p (mem_of_getElem? hp)
  cases p with
  | dbRequest dest node mode flags => exact (h.take hp rfl).handleDbRequest hdirect flags
  | dbSend dest =>
    have hs := h.take hp rfl
    unfold DbSystem.receive
    dsimp only
    split
    · split
      · exact hs.fire
      · exact hs
    · exact hs.install (hs.reads_of_received dest).1 (hs.reads_of_received dest).2
  | fullRequest dest x =>
    obtain ⟨rfl, hx, hmode⟩ := hdirect
    exact (h.take hp rfl).handleFullRequest hx hmode (hreg _ hp rfl)
  | fullSend dest a =>
    obtain ⟨hs, hidle, hhead⟩ := h.takeToken hp rfl
    unfold DbSystem.receive
    dsimp only
    rw [if_neg hdirect]
    exact hs.handleFullSend hidle hhead hdirect a
  | alreadyLocal dest a => exact hdirect.elim
  | update node data =>
    obtain ⟨hs, hidle, -⟩ := h.takeToken hp rfl
    obtain rfl : data = true := hdirect
    unfold DbSystem.receive
    exact Inv.progress { hs with } hidle
  | updateGuid node =>
    have hs := h.take hp rfl
    unfold DbSystem.receive
    dsimp only
    split
    · exact hs
    · exact hs.handleUpdateGuid node _
  | invalidate dest => exact (h.take hp rfl).handleInvalidate dest

end Deliver

lemma start (owner : ℕ) : Inv owner (start owner) where
  single := by
    intro f hf
    obtain rfl := mem_singleton.1 hf
    exact ⟨by simp, by simp, by simp⟩
  direct := by simp [DbSystem.start]
  waiting := by simp [DbSystem.start]
  waiters := by simp [DbSystem.start]
  out_le := by simp [out, DbSystem.start]
  alone := by simp [DbSystem.start]
  outHead _ := ⟨_, rfl, rfl, rfl⟩
  heldHead := by simp [DbSystem.start]
  same := by simp [DbSystem.start]

lemma next (h : Inv owner s) {l : Act} {s' : DbSystem} (hreg : s.Regular owner l)
    (hst : s.next owner l = some s') : Inv owner s' := by
  cases l with
  | acquire rank a flags =>
    obtain ⟨ha, ⟨⟩⟩ := ite_none_right_eq_some.1 hst
    exact h.acquire ha hreg
  | prep rank a =>
    obtain ⟨-, ⟨⟩⟩ := ite_none_right_eq_some.1 hst
    exact h.prep
  | release rank edt =>
    obtain ⟨-, ⟨⟩⟩ := ite_none_right_eq_some.1 hst
    exact h.release hreg
  | releaseCreated =>
    obtain ⟨hc, ⟨⟩⟩ := ite_none_right_eq_some.1 hst
    exact h.releaseCreated hc
  | deliver i =>
    obtain ⟨p, hp, rfl⟩ := map_eq_some_iff.1 hst
    exact h.receive hp hreg

end Inv

/-- **At most one EDT holds the datablock to write**, if no EDT that asks to write finds a copy on
its rank, no write request is redirected and every writer sends its data back. -/
theorem one_writer {owner : ℕ} {s : DbSystem}
    (h : ((machine owner).restrict (Regular owner)).Reachable s) : s.OneWriter := by
  have hs : Inv owner s := by
    refine h.invariant ?_ fun s l s' _ hs hst => ?_
    · rintro s rfl
      exact Inv.start owner
    · obtain ⟨hreg, hst⟩ := Machine.restrict_next.1 hst
      exact hs.next hreg hst
  refine ⟨fun p hp q hq hw hw' => hs.same p hp q hq (by rw [hw]; rfl) (by rw [hw']; rfl),
    fun hc p hp hw => ?_⟩
  have := hs.alone (by simp [out, hc]) p hp
  rw [hw] at this
  cases this

/-- The EDT 1 of rank 1 is granted the datablock to write, and the EDT 2 of the owner waits. -/
theorem one_writer_remote : ∃ s, ((machine 0).restrict (Regular 0)).Reachable s ∧
    s.granted = [(1, ⟨.ofKey 1, 0, .ew⟩)] ∧ s.frontiers.length = 2 ∧ s.OneWriter :=
  Machine.Reachable.exists_and₂ (r := [.releaseCreated, .acquire 1 ⟨.ofKey 1, 0, .ew⟩ 0, .deliver 0, .deliver 0,
      .acquire 0 ⟨.ofKey 2, 0, .ew⟩ 0]) rfl (by decide +kernel) fun _ hr _ _ => one_writer hr

/-- An EDT of rank 1 reads. The EDT 2 of rank 1 finds the copy and writes, while the EDT 3 of the
owner is granted the datablock to write. -/
theorem two_writers : ∃ s, (machine 0).Reachable s ∧ ¬ s.OneWriter := by
  obtain ⟨s, hr, hp, hq⟩ := Machine.Reachable.exists_of_exec (M := machine 0)
    (P := fun s => (1, ⟨.ofKey 2, 0, .ew⟩) ∈ s.granted ∧ (0, ⟨.ofKey 3, 0, .ew⟩) ∈ s.granted)
    (r := [.releaseCreated, .acquire 1 ⟨.ofKey 1, 0, .ro⟩ 0, .deliver 0, .deliver 0,
      .acquire 1 ⟨.ofKey 2, 0, .ew⟩ 0, .acquire 0 ⟨.ofKey 3, 0, .ew⟩ 0])
    rfl (by decide +kernel)
  refine ⟨s, hr, fun h => ?_⟩
  exact absurd (h.same _ hp _ hq rfl rfl).1 (by decide)

end DbSystem

end Arts
