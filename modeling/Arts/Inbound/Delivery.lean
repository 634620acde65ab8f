import Arts.Inbound.Reassembly

/-!
# All packets are dispatched

`Receiver.reassembled`: **the packets dispatched are the sent ones**, receives stay in the buffer,
and every state leads to the end. The measure counts bytes not received twice and those held once.
-/

namespace Arts

open List

namespace InConn

variable {c : InConn} {r : RecvResult} {limit : ℕ}

def left (c : InConn) : ℕ := 2 * c.unread.length + c.held.length

lemma left_active (ha : c.active.isSome = true) : c.left = 2 * c.unread.length + c.res := by
  rw [left, held, if_pos ha, length_readMem]

lemma left_inactive (ha : c.active = none) : c.left = 2 * c.unread.length + c.saved := by
  simp [left, held, ha]

lemma length_unread_recv (c : InConn) (off : ℕ) (r : RecvResult) :
    (c.recv off r).1.unread.length + (c.recv off r).2 = c.unread.length := by
  cases r with
  | again => simp [recv]
  | bytes n =>
    simp only [recv, length_drop]
    omega

/-- How a step changes what is left: a connection that was served already and still is, or that is
left because of the limit, has less to do. -/
structure Shrinks (c : InConn) (t : InConn × ServeResult) : Prop where
  le : t.1.left ≤ c.left
  stay : t.2 = .stay → c.active.isSome = true → t.1.left < c.left
  maxOut : t.2 = .maxOut → t.1.left < c.left

lemma shrinks_of_lt {t : InConn × ServeResult} (h : t.1.left < c.left) : c.Shrinks t :=
  ⟨Nat.le_of_lt h, fun _ _ => h, fun _ => h⟩

lemma left_moveDown (ha : c.active.isSome = true) :
    c.moveDown.left = c.left ∧ c.moveDown.active = c.active := by
  rw [InConn.moveDown]
  split_ifs with hp
  · exact ⟨by rw [left_active (by exact ha), left_active ha], rfl⟩
  · exact ⟨rfl, rfl⟩

lemma shrinks_receiveMore (ha : c.active.isSome = true) : c.Shrinks (c.receiveMore r) := by
  obtain ⟨hleft, hactive⟩ := left_moveDown ha
  have ha' : c.moveDown.active.isSome = true := by rwa [hactive]
  have hun := length_unread_recv c.moveDown c.moveDown.res r
  rw [left_active ha'] at hleft
  rw [InConn.receiveMore]
  split_ifs with hk
  · refine ⟨Nat.le_of_eq ?_, fun hs _ => (by cases hs), fun hs => (by cases hs)⟩
    rw [left_inactive rfl]
    simp only [suspend]
    have hres : (c.moveDown.recv c.moveDown.res r).1.res = c.moveDown.res := rfl
    omega
  · refine shrinks_of_lt ?_
    rw [left_active (by exact ha')]
    have hres : (c.moveDown.recv c.moveDown.res r).1.res = c.moveDown.res := rfl
    simp only [hres]
    omega

lemma left_grow (ha : c.active.isSome = true) :
    c.grow.left = c.left ∧ c.grow.active = c.active := by
  rw [InConn.grow]
  split_ifs with hp
  · exact ⟨by rw [left_active (by exact ha), left_active ha], rfl⟩
  · exact ⟨rfl, rfl⟩

lemma Inv.left_dispatch_lt (h : c.Inv) (ha : c.active.isSome = true)
    (hres : headerSize ≤ c.res) (hsize : c.size ≤ c.res) :
    (c.dispatch limit).1.left < c.left := by
  obtain ⟨p, ps, hfront⟩ := h.front ha hres
  have hpos : 0 < c.size := by
    rw [hfront.size]
    exact Nat.lt_of_lt_of_le (by decide) hfront.header
  have ha' : c.process.active.isSome = true := by simpa [InConn.process] using ha
  have hlt : c.process.left < c.left := by
    rw [left_active ha', left_active ha]
    have hr : c.process.res = c.res - c.size := rfl
    have hu : c.process.unread = c.unread := rfl
    rw [hr, hu]
    omega
  rw [InConn.dispatch]
  split_ifs with hlimit hzero
  · obtain ⟨hleft, hactive⟩ := left_moveDown ha'
    have : c.process.moveDown.suspend.left = c.process.moveDown.left := by
      rw [left_inactive rfl, left_active (by rwa [hactive])]
      rfl
    show c.process.moveDown.suspend.left < c.left
    omega
  · have hsaved : c.process.saved = 0 := by
      have := h.inBuffer
      rw [InBuffer, if_pos ha] at this
      exact this.2.2
    have : c.process.drained.left = c.process.left := by
      rw [left_inactive rfl, left_active ha', hzero]
      simp [drained, hsaved]
    show c.process.drained.left < c.left
    omega
  · exact hlt

lemma Inv.shrinks_step (h : c.Inv) : c.Shrinks (c.step limit r) := by
  rw [InConn.step]
  split_ifs with ha
  · rw [InConn.iterate]
    split_ifs with hheader
    · exact shrinks_receiveMore ha
    · have hres : headerSize ≤ c.res := Nat.le_of_not_lt hheader
      obtain ⟨hinv, -, hactive, hres', -, -⟩ := h.grow ha hres
      have hshrink : c.grow.Shrinks (if c.grow.res < c.grow.size then c.grow.receiveMore r
          else c.grow.dispatch limit) := by
        split_ifs with hpart
        · exact shrinks_receiveMore (by rwa [hactive])
        · exact shrinks_of_lt (hinv.left_dispatch_lt (by rwa [hactive]) (by omega) (by omega))
      obtain ⟨hle, hstay, hmax⟩ := hshrink
      rw [(left_grow ha).1] at hle hstay hmax
      exact ⟨hle, fun hs _ => hstay hs (by rwa [hactive]), hmax⟩
  · have hnone : c.active = none := by simpa using ha
    have hun := length_unread_recv c 0 r
    refine ⟨?_, fun _ ha' => absurd ha' ha, fun hs => ?_⟩
    · rw [left_inactive hnone, InConn.enter]
      split_ifs with hsaved
      · simp only
        split_ifs with hk
        · have hsame : (c.recv 0 r).1.left = 2 * (c.recv 0 r).1.unread.length + c.saved :=
            left_inactive hnone
          simp only [hsame]
          omega
        · rw [left_active rfl]
          simp only
          omega
      · exact Nat.le_of_eq (left_active rfl)
    · simp only [InConn.enter] at hs
      split_ifs at hs

variable {n : ℕ}

lemma left_receiveMore_lt (ha : c.active.isSome = true) (hlt : c.res < c.cap)
    (hu : c.unread ≠ []) (hn : 0 < n) :
    (c.receiveMore (.bytes n)).1.left < c.left := by
  have hsame : c.moveDown.res = c.res ∧ c.moveDown.cap = c.cap ∧
      c.moveDown.unread = c.unread := by
    rw [InConn.moveDown]
    split_ifs <;> exact ⟨rfl, rfl, rfl⟩
  obtain ⟨hres, hcap, hunread⟩ := hsame
  have hk : (c.moveDown.recv c.moveDown.res (.bytes n)).2 ≠ 0 := by
    have := length_pos_iff.2 hu
    simp only [recv, hunread]
    omega
  have hstay : (c.receiveMore (.bytes n)).2 = .stay := by
    rw [InConn.receiveMore]
    simp [hk]
  exact (shrinks_receiveMore ha).stay hstay ha

lemma Inv.left_iterate_lt (limit : ℕ) (h : c.Inv) (ha : c.active.isSome = true)
    (hu : c.unread ≠ []) (hn : 0 < n) : (c.iterate limit (.bytes n)).1.left < c.left := by
  rw [InConn.iterate]
  split_ifs with hheader
  · exact left_receiveMore_lt ha (Nat.lt_of_lt_of_le hheader h.cap) hu hn
  · have hres : headerSize ≤ c.res := Nat.le_of_not_lt hheader
    obtain ⟨hinv, hsize, hactive, hres', -, hcap⟩ := h.grow ha hres
    have hunread : c.grow.unread = c.unread := by
      rw [InConn.grow]
      split_ifs <;> rfl
    have hlt : (if c.grow.res < c.grow.size then c.grow.receiveMore (.bytes n)
        else c.grow.dispatch limit).1.left < c.grow.left := by
      split_ifs with hpart
      · exact left_receiveMore_lt (by rwa [hactive]) (by omega) (by rwa [hunread]) hn
      · exact hinv.left_dispatch_lt (by rwa [hactive]) (by omega) (by omega)
    rwa [(left_grow ha).1] at hlt

lemma Inv.enter_bytes (h : c.Inv) (ha : c.active = none) (hu : c.unread ≠ []) :
    (c.enter (.bytes 1)).1.left < c.left ∨
      ((c.enter (.bytes 1)).2 = .stay ∧ (c.enter (.bytes 1)).1.unread = c.unread) := by
  by_cases hsaved : c.saved = 0
  · have hpos := length_pos_iff.2 hu
    have hcap : 0 < c.cap := Nat.lt_of_lt_of_le (by decide) h.cap
    have hk : (c.recv 0 (.bytes 1)).2 = 1 := by
      simp only [recv]
      omega
    have hun := length_unread_recv c 0 (.bytes 1)
    rw [left_inactive ha, InConn.enter, if_pos hsaved]
    simp only [hk, Nat.one_ne_zero, if_false]
    rw [left_active rfl]
    simp only
    omega
  · right
    rw [InConn.enter, if_neg hsaved]
    exact ⟨rfl, rfl⟩

end InConn

/-! ### A call ends -/

namespace Receiver

variable {s s' : Receiver}

def left (s : Receiver) : ℕ := weight InConn.left s.conns

def serving (s : Receiver) (i : ℕ) : Bool := s.conns[i]?.any fun c => c.active.isSome

def callMeasure (s : Receiver) : ℕ :=
  match s.pos with
  | none => 0
  | some i =>
    4 * (s.conns.length + 2) * s.left + (if s.maxOut then 2 * (s.conns.length + 2) else 0) +
      2 * (s.conns.length - i) + (if s.serving i then 0 else 1) + 1

variable {i : ℕ}

lemma callMeasure_of_pos (hp : s.pos = some i) : s.callMeasure =
    4 * (s.conns.length + 2) * s.left + (if s.maxOut then 2 * (s.conns.length + 2) else 0) +
      2 * (s.conns.length - i) + (if s.serving i then 0 else 1) + 1 := by
  rw [callMeasure, hp]

variable {c : InConn}

lemma left_served (hc : s.conns[i]? = some c) (r : RecvResult) :
    (s.served i (c.step s.limit r)).left + c.left = s.left + (c.step s.limit r).1.left :=
  weight_set InConn.left hc _

lemma serving_eq (hc : s.conns[i]? = some c) : s.serving i = c.active.isSome := by
  simp [serving, hc]

/-- Less is left to do, or the connection starts to be served, or the loop goes on to the next one.
-/
theorem Inv.callMeasure_served (h : s.Inv) (hp : s.pos = some i)
    (hc : s.conns[i]? = some c) (r : RecvResult) :
    (s.served i (c.step s.limit r)).callMeasure < s.callMeasure := by
  have hlt : i < s.conns.length := (List.getElem?_eq_some_iff.1 hc).1
  have hinv := h.conns c (mem_of_getElem? hc)
  have hstep : c.Step (c.step s.limit r) := hinv.step
  obtain ⟨hle, hstay, hmax⟩ : c.Shrinks (c.step s.limit r) := hinv.shrinks_step
  have hleft := left_served hc r
  set t := c.step s.limit r
  set u := s.served i t with hu
  have hlen : u.conns.length = s.conns.length := length_set ..
  set k := s.conns.length + 2 with hk
  have hmul : ∀ {a b : ℕ}, a < b → 4 * k * a + 4 * k ≤ 4 * k * b :=
    fun hab => by
      exact Nat.mul_le_mul_left _ hab
  have hmono : ∀ {a b : ℕ}, a ≤ b → 4 * k * a ≤ 4 * k * b :=
    fun hab => Nat.mul_le_mul_left _ hab
  have hold : s.callMeasure = 4 * k * s.left + (if s.maxOut then 2 * k else 0) +
      2 * (s.conns.length - i) + (if c.active.isSome then 0 else 1) + 1 := by
    rw [callMeasure_of_pos hp, serving_eq hc]
  cases ht : t.2 with
  | stay =>
    have hnew : u.callMeasure = 4 * k * u.left + (if s.maxOut then 2 * k else 0) +
        2 * (s.conns.length - i) + 1 := by
      have hpos : u.pos = some i := by simp [hu, Receiver.served, ht]
      have hout : u.maxOut = s.maxOut := by simp [hu, Receiver.served, ht]
      have hserving : u.serving i = true := by
        have hget : u.conns[i]? = some t.1 := getElem?_set_self hlt
        rw [serving_eq hget]
        exact hstep.stay.1 ht
      rw [callMeasure_of_pos hpos, hout, hlen, hserving, if_pos rfl, Nat.add_zero]
    rw [hnew, hold]
    by_cases ha : c.active.isSome = true
    · have := hmul (show u.left < s.left by
        have := hstay ht ha
        omega)
      omega
    · have := hmono (show u.left ≤ s.left by omega)
      rw [if_neg ha]
      omega
  | leave =>
    have hpos : u.pos = some (i + 1) := by simp [hu, Receiver.served, ht]
    have hout : u.maxOut = s.maxOut := by simp [hu, Receiver.served, ht]
    have := hmono (show u.left ≤ s.left by omega)
    rw [hold, callMeasure_of_pos hpos, hout, hlen, ← hk]
    split_ifs <;> omega
  | maxOut =>
    have hpos : u.pos = some (i + 1) := by simp [hu, Receiver.served, ht]
    have hout : u.maxOut = true := by simp [hu, Receiver.served, ht]
    have := hmul (show u.left < s.left by
      have := hmax ht
      omega)
    rw [hold, callMeasure_of_pos hpos, hout, hlen, if_pos rfl, ← hk]
    split_ifs <;> omega

variable {r : RecvResult}

/-- **Every step of a call makes the measure smaller.** -/
theorem Inv.callMeasure_lt (h : s.Inv) (hst : s.next (.step r) = some s') :
    s'.callMeasure < s.callMeasure ∧ s'.left ≤ s.left := by
  simp only [Receiver.next] at hst
  split at hst
  case h_1 => cases hst
  case h_2 i hp =>
    split at hst
    case h_1 hnone =>
      cases hst
      have hserving : s.serving i = false := by simp [serving, hnone]
      refine ⟨?_, Nat.le_refl _⟩
      rw [callMeasure_of_pos hp, hserving]
      cases hm : s.maxOut with
      | true =>
        rw [callMeasure_of_pos (by rw [if_pos rfl])]
        simp only [left, Bool.false_eq_true, if_false]
        split_ifs <;> omega
      | false => simp [callMeasure]
    case h_2 c hc =>
      split_ifs at hst with hserve
      · cases hst
        refine ⟨h.callMeasure_served hp hc r, ?_⟩
        have hshrink : c.Shrinks (c.step s.limit r) :=
          (h.conns c (mem_of_getElem? hc)).shrinks_step
        have := left_served hc r
        have := hshrink.le
        omega
      · cases hst
        have hlt : i < s.conns.length := (List.getElem?_eq_some_iff.1 hc).1
        have hserving : s.serving i = false := by
          rw [serving_eq hc]
          simpa using fun ha => hserve (.inl ha)
        rw [callMeasure_of_pos hp, hserving, callMeasure_of_pos (i := i + 1) rfl]
        simp only [left, Bool.false_eq_true, if_false]
        split_ifs <;> omega

/-- **A call ends**: it takes at most as many steps as its measure says. -/
theorem Inv.call_length_le (h : s.Inv) {rs : List RecvResult}
    (hex : machine.exec s (rs.map .step) = some s') : rs.length ≤ s.callMeasure := by
  induction rs generalizing s with
  | nil => exact Nat.zero_le _
  | cons r rs ih =>
    obtain ⟨s₁, h₁, h₂⟩ := Option.bind_eq_some_iff.1 hex
    have hlt := (h.callMeasure_lt h₁).1
    have := ih (h.next (l := .step r) h₁) h₂
    rw [length_cons]
    omega

/-! ### Everything can be dispatched -/

lemma Inv.sent_next (h : s.Inv) {l : RecvStep} (hst : s.next l = some s') :
    s'.conns.map InConn.sent = s.conns.map InConn.sent := by
  cases l with
  | call ready =>
    simp only [Receiver.next] at hst
    split at hst
    case h_1 => cases hst; rfl
    case h_2 => cases hst
  | step r =>
    simp only [Receiver.next] at hst
    split at hst
    case h_1 => cases hst
    case h_2 k hp =>
      split at hst
      case h_1 => cases hst; rfl
      case h_2 c hc =>
        split_ifs at hst
        · cases hst
          have hstep : c.Step (c.step s.limit r) := (h.conns c (mem_of_getElem? hc)).step
          simp only [Receiver.served, map_set, hstep.sent]
          refine ext_getElem? fun j => ?_
          rw [getElem?_set]
          split_ifs with hkj hlt
          · rw [← hkj, getElem?_map, hc, Option.map_some]
          · rw [getElem?_eq_none (by omega)]
          · rfl
        · cases hst
          rfl

/-- A continuation of the run on the same connections that leaves no more to do. -/
structure Reaches (s s' : Receiver) : Prop where
  inv : s'.Inv
  leads : machine.Leads s s'
  sent : s'.conns.map InConn.sent = s.conns.map InConn.sent
  left : s'.left ≤ s.left

lemma Reaches.refl (h : s.Inv) : s.Reaches s := ⟨h, .refl s, rfl, Nat.le_refl _⟩

lemma Reaches.trans {s₁ s₂ s₃ : Receiver} (h : s₁.Reaches s₂) (h' : s₂.Reaches s₃) :
    s₁.Reaches s₃ :=
  ⟨h'.inv, h.leads.trans h'.leads, h'.sent.trans h.sent, Nat.le_trans h'.left h.left⟩

lemma Inv.reaches_step (h : s.Inv) (hst : s.next (.step r) = some s') : s.Reaches s' :=
  ⟨h.next hst, .of_next (l := .step r) hst, h.sent_next hst, (h.callMeasure_lt hst).2⟩

variable {k : ℕ}

lemma exists_next_step (hp : s.pos = some k) (r : RecvResult) :
    ∃ s', s.next (.step r) = some s' := by
  simp only [Receiver.next, hp]
  split
  · exact ⟨_, rfl⟩
  · split_ifs
    · exact ⟨_, rfl⟩
    · exact ⟨_, rfl⟩

lemma Inv.reaches_end (h : s.Inv) : ∃ s', s.Reaches s' ∧ s'.pos = none := by
  generalize hm : s.callMeasure = m
  induction m using Nat.strongRecOn generalizing s with
  | ind m ih =>
    cases hp : s.pos with
    | none => exact ⟨s, .refl h, hp⟩
    | some k =>
      obtain ⟨s₁, h₁⟩ := exists_next_step hp .again
      obtain ⟨s', hr, hnone⟩ :=
        ih s₁.callMeasure (hm ▸ (h.callMeasure_lt h₁).1) (h.next h₁) rfl
      exact ⟨s', (h.reaches_step h₁).trans hr, hnone⟩

lemma Inv.reaches_conn (h : s.Inv) (hp : s.pos = none) (hi : i < s.conns.length) :
    ∃ s', s.Reaches s' ∧ s'.pos = some i ∧ s'.conns = s.conns ∧ s'.ready.getD i false = true := by
  have hcall : s.next (.call (replicate i false ++ [true])) = some
      { s with pos := some 0, maxOut := false, ready := replicate i false ++ [true] } := by
    simp [Receiver.next, hp]
  have key : ∀ k ≤ i, s.Reaches
      { s with pos := some k, maxOut := false, ready := replicate i false ++ [true] } := by
    intro k hk
    induction k with
    | zero => exact ⟨h.next hcall, .of_next (l := .call _) hcall, rfl, Nat.le_refl _⟩
    | succ k ih =>
      have hk' := ih (by omega)
      refine hk'.trans (hk'.inv.reaches_step (r := .again) ?_)
      have hlt : k < s.conns.length := by omega
      have hnone : s.conns[k].active.isSome = false := by
        refine Bool.eq_false_iff.2 fun ha => ?_
        have := (h.active k _ (getElem?_eq_getElem hlt) ha).1
        rw [hp] at this
        cases this
      have hready : (replicate i false ++ [true]).getD k false = false := by
        rw [getD_eq_getElem?_getD, getElem?_append_left (by simp; omega),
          getElem?_replicate_of_lt (by omega), Option.getD_some]
      simp only [Receiver.next, getElem?_eq_getElem hlt, hnone, hready, Bool.false_eq_true,
        or_self, if_false]
  refine ⟨_, key i (Nat.le_refl i), rfl, rfl, ?_⟩
  simp

lemma next_served (hp : s.pos = some k) (hc : s.conns[k]? = some c)
    (hserve : c.active.isSome = true ∨ s.ready.getD k false = true) (r : RecvResult) :
    s.next (.step r) = some (s.served k (c.step s.limit r)) := by
  simp only [Receiver.next, hp, hc, if_pos hserve]

/-- **A call makes progress** on a connection that is reported and whose socket delivers bytes. -/
theorem Inv.reaches_less (h : s.Inv) (hp : s.pos = none)
    (hc : s.conns[i]? = some c) (hu : c.unread ≠ []) : ∃ s', s.Reaches s' ∧ s'.left < s.left := by
  have hlt : i < s.conns.length := (List.getElem?_eq_some_iff.1 hc).1
  obtain ⟨s₁, hr₁, hp₁, hconns, hready⟩ := h.reaches_conn hp hlt
  have hc₁ : s₁.conns[i]? = some c := by rwa [hconns]
  have hinv := hr₁.inv.conns c (mem_of_getElem? hc₁)
  have hnone : c.active = none := by
    refine Option.not_isSome_iff_eq_none.1 fun ha => ?_
    have := (h.active i c hc ha).1
    rw [hp] at this
    cases this
  have hserve : c.active.isSome = true ∨ s₁.ready.getD i false = true := .inr hready
  have hst₁ := next_served hp₁ hc₁ hserve (.bytes 1)
  have hr₂ := hr₁.trans (hr₁.inv.reaches_step hst₁)
  have hleft := left_served hc₁ (.bytes 1)
  have henter : c.step s₁.limit (.bytes 1) = c.enter (.bytes 1) := by
    simp [InConn.step, hnone]
  have hshrink : c.Shrinks (c.step s₁.limit (.bytes 1)) := hinv.shrinks_step
  have hle := hshrink.le
  rw [henter] at hst₁ hr₂ hleft hle
  have hbytes := hinv.enter_bytes hnone hu
  set t := c.enter (.bytes 1)
  set s₂ := s₁.served i t with hs₂
  rcases hbytes with hless | ⟨hstay, hunread⟩
  · refine ⟨_, hr₂, ?_⟩
    have := hr₁.left
    omega
  · have hstep : c.Step t := hinv.enter hnone
    have ha := hstep.stay.1 hstay
    have hp₂ : s₂.pos = some i := by simp [hs₂, Receiver.served, hstay]
    have hc₂ : s₂.conns[i]? = some t.1 := getElem?_set_self (List.getElem?_eq_some_iff.1 hc₁).1
    have hst₂ := next_served hp₂ hc₂ (.inl ha) (.bytes 1)
    refine ⟨_, hr₂.trans (hr₂.inv.reaches_step hst₂), ?_⟩
    have hleft₂ := left_served hc₂ (.bytes 1)
    have hiter : t.1.step s₂.limit (.bytes 1) = t.1.iterate s₂.limit (.bytes 1) := by
      rw [InConn.step, if_pos ha]
    rw [hiter] at hleft₂ ⊢
    have hlt₂ := hstep.inv.left_iterate_lt s₂.limit ha (by rwa [hunread]) Nat.one_pos
    have := hr₁.left
    omega

/-- **From every state all packets can be dispatched.** -/
theorem Inv.reaches_done (h : s.Inv) :
    ∃ s', s.Reaches s' ∧ s'.pos = none ∧ ∀ c ∈ s'.conns, c.unread = [] := by
  generalize hm : s.left = m
  induction m using Nat.strongRecOn generalizing s with
  | ind m ih =>
    obtain ⟨s₁, hr₁, hp₁⟩ := h.reaches_end
    by_cases hall : ∀ c ∈ s₁.conns, c.unread = []
    · exact ⟨s₁, hr₁, hp₁, hall⟩
    · obtain ⟨c, hcu⟩ := not_forall.1 hall
      obtain ⟨hc, hu⟩ := Classical.not_imp.1 hcu
      obtain ⟨i, hi⟩ := mem_iff_getElem?.1 hc
      obtain ⟨s₂, hr₂, hlt⟩ := hr₁.inv.reaches_less hp₁ hi hu
      have := hr₁.left
      obtain ⟨s₃, hr₃, hdone⟩ := ih s₂.left (by omega) hr₂.inv rfl
      exact ⟨s₃, (hr₁.trans hr₂).trans hr₃, hdone⟩

/-- **Reassembly**: the packets dispatched are the first of those sent, all of them in the end;
every receive writes inside the buffer; and every run can be continued to the end. -/
theorem reassembled (h : machine.Reachable s) : (∀ c ∈ s.conns, c.dispatched <+: c.sent ∧
      (s.pos = none → c.unread = [] → c.dispatched = c.sent) ∧
      ∀ w ∈ c.recvs, 0 < w.len ∧ w.offset + w.len ≤ w.cap) ∧
    ∃ s', machine.Leads s s' ∧ s'.conns.map InConn.sent = s.conns.map InConn.sent ∧
      ∀ c ∈ s'.conns, c.dispatched = c.sent := by
  refine ⟨fun c hc => dispatched_of_reachable h hc, ?_⟩
  obtain ⟨s', hr, hp, hunread⟩ := (inv_of_reachable h).reaches_done
  exact ⟨s', hr.leads, hr.sent, fun c hc =>
    (dispatched_of_reachable (h.leads hr.leads) hc).2.1 hp (hunread c hc)⟩

/-- A packet of 40 bytes: its size in bytes 4 to 11, and otherwise zeros. -/
def samplePacket : List UInt8 := [0, 0, 0, 0, 40] ++ replicate 35 0

/-- Two packets arrive in parts of 10, 22 and 48 bytes, with a packet limit of 1 and at first a
buffer for one header. -/
theorem reassembled_run : ∃ s, machine.Reachable s ∧
    (∃ c ∈ s.conns, c.dispatched = [samplePacket, samplePacket]) ∧
    ∀ c ∈ s.conns, c.dispatched <+: c.sent :=
  Machine.Reachable.exists_and (r := [.call [true], .step (.bytes 10), .step .again, .step .again, .call [true],
      .step .again, .step (.bytes 50), .step (.bytes 50), .step .again, .step .again,
      .step .again, .step .again, .step .again])
    ⟨[([samplePacket, samplePacket], 32)], 1, by decide +kernel, rfl⟩ (by decide +kernel) fun _ hs _ => fun c hc => ((reassembled hs).1 c hc).1

end Receiver

end Arts
