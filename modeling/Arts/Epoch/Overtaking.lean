import Arts.Epoch.Transport

/-!
# Messages that follow the data

`Packet.after` says which updates a message has to follow. A report counts all finishes of its rank
(`Calm`), and an update in flight is ahead of the report (`Packet.Late`, `Behind`); `Tracked` is the
invariant.
-/

namespace Arts

open List Function Option Arts.System Call Fifo

variable {p : Layout} {δ β : Type*}

/-! ### EDTs that have not finished -/

section Unfinished

/-- An EDT is queued on a rank and has not published its finish. -/
def Node.Unfinished (n : Node EdtGuid) (edt : EdtGuid) : Prop :=
  edt ∈ n.ready ∨ Call.finish edt .add ∈ n.calls

variable {n n' : Node EdtGuid} {edt : EdtGuid}

lemma Node.Unfinished.waiting_pos (h : n.Unfinished edt) : 0 < n.waiting := by
  rcases h with hready | hcall
  · have := length_pos_of_mem hready
    simp only [Node.waiting]
    omega
  · have hle := le_weight unpublished hcall
    simp only [unpublished] at hle
    simp only [Node.waiting]
    omega

lemma Node.Unfinished.mono (h : n.Unfinished edt) (hready : n.ready ⊆ n'.ready)
    (hcalls : n.calls ⊆ n'.calls) : n'.Unfinished edt :=
  h.imp (hready ·) (hcalls ·)

lemma Node.Unfinished.finish (h : n.Unfinished edt) (hpres : n.present = true)
    (x : EdtGuid) : (n.finish x).Unfinished edt := by
  rw [Node.Unfinished, Node.finish_calls hpres, Node.finish_ready]
  by_cases hx : edt = x
  · subst hx
    exact .inr (by simp)
  · rcases h with hready | hcall
    · exact .inl ((mem_erase_of_ne hx).2 hready)
    · exact .inr (mem_append_left _ hcall)

lemma Node.Unfinished.advance (h : n.Unfinished edt) {cfg : Config} {i : ℕ} (ff : Bool)
    {c : Call EdtGuid} (hc : n.calls[i]? = some c) (h0 : c.unpublished ≠ 1) :
    (n.advance cfg i ff c).Unfinished edt := by
  rcases h with hready | hcall
  · exact .inl hready
  · obtain ⟨j, hj⟩ := mem_iff_getElem?.1 hcall
    have hij : i ≠ j := by
      rintro rfl
      rw [hc] at hj
      cases hj
      exact h0 rfl
    refine .inr (mem_of_getElem? (i := j) ?_)
    rw [Node.advance, getElem?_set_ne hij]
    exact hj

lemma Node.Unfinished.start (h : n.Unfinished edt) (hpres : n.present = true)
    (c : Call EdtGuid) : (n.start c).Unfinished edt :=
  h.mono (List.Subset.refl _) (by rw [Node.start_calls hpres]; exact subset_append_left _ _)

/-- **An EDT stays unfinished until a step publishes its finish.** -/
theorem System.unfinished_next {s s' : System p EdtGuid} {e : System.Event p EdtGuid}
    {r : p.Rank} (h : (s.node r).Unfinished edt) (hpres : ∀ q, (s.node q).present = true)
    (hst : s.next e = some s') : (s'.node r).Unfinished edt ∨
      ∃ i ff c, e = .step r i ff ∧ (s.node r).calls[i]? = some c ∧ c.unpublished = 1 := by
  -- an event changes the node of one rank
  have hupdate : ∀ q m, s'.node = update s.node q m →
      (q = r → m.Unfinished edt) → (s'.node r).Unfinished edt := by
    intro q m hnode hm
    rw [hnode]
    by_cases hq : r = q
    · subst hq
      rw [update_self]
      exact hm rfl
    · rwa [update_of_ne hq]
  cases e with
  | activate q x =>
    obtain ⟨-, rfl⟩ := next_activate.1 hst
    exact .inl (hupdate q _ rfl fun hq => by
      subst hq
      exact h.mono (by simp) (by simp))
  | enqueue q x =>
    obtain ⟨-, -, rfl⟩ := next_enqueue.1 hst
    exact .inl (hupdate q _ rfl fun hq => by
      subst hq
      exact h.mono (subset_cons_self _ _) (List.Subset.refl _))
  | finish q x =>
    obtain ⟨-, rfl⟩ := next_finish.1 hst
    exact .inl (hupdate q _ rfl fun hq => by
      subst hq
      exact h.finish (hpres q) x)
  | deliverReq q =>
    obtain ⟨-, rfl⟩ := next_deliverReq.1 hst
    exact .inl (hupdate q _ rfl fun hq => by
      subst hq
      exact h.start (hpres q) _)
  | deliverSend q k =>
    obtain ⟨v, -, -, rfl⟩ := next_deliverSend.1 hst
    exact .inl (hupdate p.origin _ rfl fun hq => by
      subst hq
      exact h.start (hpres _) _)
  | step q i ff =>
    obtain ⟨c, hc, -, rfl⟩ := next_step.1 hst
    by_cases hone : q = r ∧ c.unpublished = 1
    · obtain ⟨rfl, hone⟩ := hone
      exact .inr ⟨i, ff, c, rfl, hc, hone⟩
    · exact .inl (hupdate q _ emit_node fun hq => by
        subst hq
        exact h.advance ff hc fun h1 => hone ⟨rfl, h1⟩)

end Unfinished

/-! ### Messages that follow the data -/

namespace Packet

/-- The message has to be handled after the other one: a report after all updates of its rank, a
request after the updates to the same rank. -/
def after (c : Placement p δ) : Packet p δ β → Packet p δ β → Bool
  | .epochSend _ _, .dbUpdate _ => true
  | .epochReq j, .dbUpdate u => decide (c.rankOf u.guid = j)
  | _, _ => false

/-- The number of finishes on its rank that a message covers: a report those that it counts, a
request those at the moment the round was opened. -/
def bound (base : ℕ) : Packet p δ β → ℕ
  | .epochSend _ f => f.toNat
  | .epochReq _ => base
  | .dbUpdate _ => 0

/-- The message is the update of an EDT that is not among the first `f` finishes. -/
def Late (n : Node EdtGuid) (finished f : ℕ) (m : Packet p δ β) : Prop :=
  f < finished ∨ ∃ u, m = .dbUpdate u ∧ n.Unfinished u.edt

variable {c : Placement p δ}

variable {m m' : Packet p δ β}

lemma exists_of_after (h : m.after c m' = true) :
    ∃ u, m' = .dbUpdate u := by
  cases m <;> cases m' <;> simp [after] at h
  · exact ⟨_, rfl⟩
  · exact ⟨_, rfl⟩

lemma after_of_update?_eq_none (h : m'.update? = none) : m.after c m' = false := by
  cases m <;> cases m' <;> first | rfl | cases h

lemma after_dbUpdate (u : DbUpdate δ β) (m : Packet p δ β) :
    (dbUpdate u : Packet p δ β).after c m = false := by
  cases m <;> rfl

lemma bound_congr (h : m.req? = none) (base base' : ℕ) : m.bound base = m.bound base' := by
  cases m with
  | epochReq j => cases h
  | dbUpdate | epochSend => rfl

end Packet

/-- The message that a call is about to send. -/
def Call.pending {ε : Type*} : Call ε → Option Out
  | .finish _ (.send a f) | .send (.send a f) => some (.epochSend a f)
  | .finish _ (.broadcast i) | .reduce _ _ (.broadcast i) => some (.epochReq i)
  | _ => none

lemma Call.pending_of_step {ε : Type*} {cfg : Config} {ff : Bool} {e : Epoch} {d : Call ε}
    {o : Out} {m : Packet p δ β} (ho : (d.step cfg ff e).2.2 = some o)
    (hm : Packet.ofOut o = some m) : d.pending = some o := by
  have hfire : ∀ v, e.fire v ≠ o := by
    rintro v rfl
    unfold Epoch.fire at hm
    split_ifs at hm <;> cases hm
  have hreq : ∀ i, broadcastReq cfg i = some o → some (.epochReq i) = some o := by
    intro i hi
    unfold broadcastReq at hi
    split_ifs at hi
    exact hi
  cases d with
  | finish x pc =>
    cases pc with
    | broadcast i => exact hreq i ho
    | send a f => exact ho
    | fire v => exact absurd (some_inj.1 ho) (hfire v)
    | delete => cases ho; cases hm
    | add | casPhase | complete | subQueued | casOutstanding | load | cas | done =>
      simp only [step, finishStep] at ho
      (try split_ifs at ho) <;> cases ho
  | send pc =>
    cases pc with
    | send a f => exact ho
    | read a f => cases a <;> cases f <;> cases ho
    | mask | cas | done =>
      simp only [step, sendStep] at ho
      (try split_ifs at ho) <;> cases ho
  | reduce a f pc =>
    cases pc with
    | broadcast i => exact hreq i ho
    | fire v => exact absurd (some_inj.1 ho) (hfire v)
    | delete => cases ho; cases hm
    | _ =>
      simp only [step, reduceStep] at ho
      (try split_ifs at ho) <;> cases ho

/-! ### What is in flight -/

/-- A message and a later one on the connections of a rank: the later one follows on the same
connection, or the earlier one is late. -/
def Behind (c : Placement p δ) (n : Node EdtGuid) (finished base : ℕ)
    (x y : ℕ × Packet p δ β) : Prop :=
  (y.2.after c x.2 = true → x.2.Late n finished (y.2.bound base) ∨ x.1 = y.1) ∧
    (x.2.after c y.2 = true → y.2.Late n finished (x.2.bound base))

/-- The requests and the reports in flight are those of the detection. -/
structure Paired (s : System p EdtGuid) (out : p.Rank → List (ℕ × Packet p δ β)) : Prop where
  sends : ∀ r, (out r).filterMap (Packet.send? ·.2) = s.sends r
  reqs : ∀ r j, ((out r).filterMap (Packet.req? ·.2)).count j =
    if r = p.origin then s.reqs j else 0

/-- All updates that a message of a rank has to follow are late or handled. -/
def Passed (c : Placement p δ) (n : Node EdtGuid) (finished base : ℕ)
    (out : List (ℕ × Packet p δ β)) (m : Packet p δ β) : Prop :=
  ∀ x ∈ out, m.after c x.2 = true → x.2.Late n finished (m.bound base)

/-- The request of the current round to a rank was handled. -/
def System.Asked (s : System p EdtGuid) (j : p.Rank) : Prop :=
  (s.node p.origin).epoch.outstanding.toNat ≠ 0 ∧
    weight (toReq j) (s.node p.origin).calls = 0 ∧ s.reqs j = 0

/-- What the connections keep: the messages of the detection do not overtake the data. -/
structure Carried (c : Placement p δ) (s : System p EdtGuid)
    (out : p.Rank → List (ℕ × Packet p δ β)) (l : Links p) (w : Waves p) : Prop where
  order : ∀ r, (out r).Pairwise (Behind c (s.node r) (w.counts r).2 (w.base r).2)
  got : ∀ r, r ≠ p.origin → ∀ v, l.got r = some v →
    Passed c (s.node r) (w.counts r).2 (w.base r).2 (out r) (.epochSend v.1 v.2)
  asked : ∀ j, j ≠ p.origin → s.Asked j →
    Passed c (s.node p.origin) (w.counts p.origin).2 (w.base p.origin).2 (out p.origin)
      (.epochReq j)

section Lists

variable {c : Placement p δ} {n : Node EdtGuid} {finished base : ℕ}
  {out : List (ℕ × Packet p δ β)} {m : Packet p δ β} {q : ℕ}

lemma Passed.eraseIdx (h : Passed c n finished base out m) (k : ℕ) :
    Passed c n finished base (out.eraseIdx k) m :=
  fun x hx => h x (mem_of_mem_eraseIdx hx)

lemma Passed.append (h : Passed c n finished base out m) {m' : Packet p δ β}
    (hm : ∀ u, m' = .dbUpdate u → n.Unfinished u.edt) :
    Passed c n finished base (out ++ [(q, m')]) m := by
  refine forall_mem_append_singleton h fun hafter => ?_
  obtain ⟨u, rfl⟩ := Packet.exists_of_after hafter
  exact .inr ⟨u, rfl, hm u rfl⟩

/-- **First in, first out.**  When a message is handled, what it has to follow is handled or
late. -/
theorem passed_of_isNext {k : ℕ} (h : out.Pairwise (Behind c n finished base))
    (hm : out[k]? = some (q, m)) (hnext : IsNext out k) :
    Passed c n finished base (out.eraseIdx k) m := by
  intro x hx hafter
  rcases rel_of_isNext h hm hnext hx with ⟨hbehind, hne⟩ | hbehind
  · exact (hbehind.1 hafter).resolve_right hne
  · exact hbehind.2 hafter

/-- A message of the detection is sent on the connection of the data that it follows. -/
theorem pairwise_send (h : out.Pairwise (Behind c n finished base)) (hm : m.update? = none)
    (hq : ∀ x ∈ out, m.after c x.2 = true → x.1 = q) :
    (out ++ [(q, m)]).Pairwise (Behind c n finished base) := by
  refine pairwise_append_singleton h fun x hx => ⟨fun hafter => .inr (hq x hx hafter), ?_⟩
  intro hafter
  simp [Packet.after_of_update?_eq_none hm] at hafter

lemma pairwise_release (h : out.Pairwise (Behind c n finished base)) {u : DbUpdate δ β}
    (hu : n.Unfinished u.edt) :
    (out ++ [(q, Packet.dbUpdate u)]).Pairwise (Behind c n finished base) := by
  refine pairwise_append_singleton h fun x _ => ⟨fun hafter => ?_, fun _ => ?_⟩
  · simp [Packet.after_dbUpdate] at hafter
  · exact .inr ⟨u, rfl, hu⟩

end Lists

/-! ### The messages and the detection -/

section Step

variable {c : Placement p δ} {s s' : System p EdtGuid} {l l' : Links p} {w w' : Waves p}
  {out known : p.Rank → List (ℕ × Packet p δ β)} {e : System.Event p EdtGuid} {r j : p.Rank}

lemma Sound.present (hs : Sound s l w) (hw : Wiring s l) (q : p.Rank) :
    (s.node q).present = true := by
  by_cases hq : q = p.origin
  · rw [hq]
    exact hs.owner.present
  · exact hw.present hq

lemma Sound.base_le (hs : Sound s l w) (q : p.Rank) : w.base q ≤ w.counts q := by
  by_cases hq : q = p.origin
  · rw [hq]
    exact hs.owner.base_le
  · exact (hs.rank q hq).snap.base_le

lemma Sound.good_le (hs : Sound s l w) (hr : r ≠ p.origin) {v : UInt32 × UInt32}
    (hv : (w.cut r).Good (w.counts r) v) : v.2.toNat ≤ (w.counts r).2 := by
  rw [hv.2.1]
  exact (hs.rank r hr).snap.level_le

variable {x : ℕ × Packet p δ β}

lemma Sound.bound_le (hs : Sound s l w) (hw : Wiring s l) (hp : Paired s known) (hx : x ∈ known r) : x.2.bound (w.base r).2 ≤ (w.counts r).2 := by
  obtain ⟨q, m⟩ := x
  cases m with
  | dbUpdate u => exact Nat.zero_le _
  | epochReq i => exact (hs.base_le r).2
  | epochSend a f =>
    have hmem : (a, f) ∈ s.sends r := by
      rw [← hp.sends r]
      exact mem_filterMap.2 ⟨_, hx, rfl⟩
    have hr : r ≠ p.origin := by
      rintro rfl
      have hself := hw.self
      have := length_pos_of_mem hmem
      simp only [Links.flight] at hself
      omega
    exact hs.good_le hr ((hs.rank r hr).sends _ hmem)

variable {m : Packet p δ β}

lemma late_next (hs : Sound s l w) (hw : Wiring s l) (hmoves : Moves s l w e l' w')
    (hst : s.next e = some s') {f : ℕ} (hf : f ≤ (w.counts r).2)
    (h : m.Late (s.node r) (w.counts r).2 f) : m.Late (s'.node r) (w'.counts r).2 f := by
  rcases h with hlt | ⟨u, rfl, hu⟩
  · exact .inl (hlt.trans_le (hmoves.counts_le r).2)
  · rcases unfinished_next hu (hs.present hw) hst with hu | ⟨i, ff, d, he, hd, hone⟩
    · exact .inr ⟨u, rfl, hu⟩
    · exact .inl (hf.trans_lt (hmoves.published_lt he hd hone))

variable {o : List (ℕ × Packet p δ β)}

lemma passed_next (hs : Sound s l w) (hw : Wiring s l) (hmoves : Moves s l w e l' w')
    (hst : s.next e = some s') (hbase : w'.base = w.base) (h : Passed c (s.node r) (w.counts r).2 (w.base r).2 o m)
    (hm : m.bound (w.base r).2 ≤ (w.counts r).2) :
    Passed c (s'.node r) (w'.counts r).2 (w'.base r).2 o m := by
  rw [hbase]
  exact fun x hx hafter => late_next hs hw hmoves hst hm (h x hx hafter)

/-! #### Requests -/

lemma System.Asked.congr (h : s'.Asked j)
    (hout : (s'.node p.origin).epoch.outstanding = (s.node p.origin).epoch.outstanding)
    (hcalls : weight (toReq j) (s'.node p.origin).calls =
      weight (toReq j) (s.node p.origin).calls)
    (hreqs : s'.reqs j = s.reqs j) : s.Asked j := by
  obtain ⟨h0, hto, hreq⟩ := h
  exact ⟨by rwa [← hout], by rwa [← hcalls], by rwa [← hreqs]⟩

variable {i : ℕ} {d : Call EdtGuid}

lemma Wiring.outstanding_ne_zero (hw : Wiring s l) (ff : Bool)
    (hd : (s.node p.origin).calls[i]? = some d)
    (hno : d.opensRound (s.node p.origin).epoch = false)
    (h0 : (d.step (p.config p.origin) ff (s.node p.origin).epoch).1.outstanding.toNat ≠ 0) :
    (s.node p.origin).epoch.outstanding.toNat ≠ 0 := by
  have hclosing := hw.round.tokens.closing
  have hlec := le_weight_of_getElem? closing hd
  have hopen := hw.round.tokens.two_le_outstanding (mem_of_getElem? hd)
  simp only [Links.round] at hclosing hopen
  rcases outstanding_step (p.config p.origin) ff (s.node p.origin).epoch hno with
    hsame | ⟨-, hunits | hcleared⟩
  · rwa [← hsame]
  · omega
  · have := closing_of_cleared (hcleared .active)
    omega

lemma asked_next (hw : Wiring s l) (hst : s.next e = some s') (hj : j ≠ p.origin)
    (hcalm : ∀ i ff, e = .step p.origin i ff →
      ∀ d ∈ (s.node p.origin).calls[i]?, d.opensRound (s.node p.origin).epoch = false)
    (h : s'.Asked j) : s.Asked j ∨ e = .deliverReq j := by
  -- an event on another rank does not concern the owner
  have hother : ∀ q n, q ≠ p.origin → s'.node = update s.node q n →
      s'.reqs j = s.reqs j → s.Asked j := by
    intro q n hq hnode hreqs
    have howner : s'.node p.origin = s.node p.origin := by
      rw [hnode, update_of_ne hq.symm]
    exact h.congr (by rw [howner]) (by rw [howner]) hreqs
  cases e with
  | activate q x =>
    obtain ⟨-, rfl⟩ := next_activate.1 hst
    by_cases hq : q = p.origin
    · subst hq
      exact .inl (h.congr (by simp) (by simp) rfl)
    · exact .inl (hother q _ hq rfl rfl)
  | enqueue q x =>
    obtain ⟨-, -, rfl⟩ := next_enqueue.1 hst
    by_cases hq : q = p.origin
    · subst hq
      exact .inl (h.congr (by simp) (by simp) rfl)
    · exact .inl (hother q _ hq rfl rfl)
  | finish q x =>
    obtain ⟨-, rfl⟩ := next_finish.1 hst
    by_cases hq : q = p.origin
    · subst hq
      refine .inl (h.congr (by simp) ?_ rfl)
      cases hpres : (s.node p.origin).present <;> simp [Node.finish, Node.start, hpres, toReq]
    · exact .inl (hother q _ hq rfl rfl)
  | deliverReq q =>
    obtain ⟨-, rfl⟩ := next_deliverReq.1 hst
    by_cases hqj : q = j
    · exact .inr (by rw [hqj])
    · refine .inl (h.congr ?_ ?_ (by simp [Ne.symm hqj]))
      · by_cases hq : q = p.origin
        · subst hq
          simp
        · simp [Ne.symm hq]
      · by_cases hq : q = p.origin
        · subst hq
          cases hpres : (s.node p.origin).present <;> simp [Node.start, hpres, toReq]
        · simp [Ne.symm hq]
  | deliverSend q k =>
    obtain ⟨v, -, -, rfl⟩ := next_deliverSend.1 hst
    refine .inl (h.congr (by simp) ?_ rfl)
    cases hpres : (s.node p.origin).present <;> simp [Node.start, hpres, toReq]
  | step q i ff =>
    obtain ⟨d, hd, hdone, rfl⟩ := next_step.1 hst
    by_cases hq : q = p.origin
    · subst hq
      have hno := hcalm i ff rfl d hd
      have hspread := spreadStep_step p.isOwner ff (s.node p.origin).epoch
        (hw.round.tokens.onOwner d (mem_of_getElem? hd))
      have hset := weight_set (toReq j) hd
        (d.step (p.config p.origin) ff (s.node p.origin).epoch).2.1
      obtain ⟨h0, hto, hreq⟩ := h
      simp only [emit_node, update_self, Node.advance] at h0 hto
      have hopen := hw.outstanding_ne_zero ff hd hno h0
      cases hspread with
      | opens hop =>
        rw [hno] at hop
        cases hop
      | sends i' _ hlt _ hout _ hall =>
        have hthis := hall j j.isLt
        rw [hout] at hreq
        simp only [emit] at hreq
        split_ifs at hreq with hji
        rw [if_neg hji] at hthis
        exact .inl ⟨hopen, by omega, hreq⟩
      | keeps _ hall hcount _ =>
        have hthis := hall j j.isLt fun he => hj (Fin.ext he)
        rw [emit_reqs hcount] at hreq
        exact .inl ⟨hopen, by omega, hreq⟩
    · have hother' := otherStep_step (p.isOther hq) ff (s.node q).epoch
        ((hw.served q hq).onOther d (mem_of_getElem? hd)) hdone
      refine .inl (hother q _ hq emit_node ?_)
      rw [emit_reqs hother'.countRequest_eq]

variable {ff : Bool}

lemma not_asked_of_opens (hw : Wiring s l) (hst : s.next (.step p.origin i ff) = some s')
    (hd : (s.node p.origin).calls[i]? = some d)
    (hop : d.opensRound (s.node p.origin).epoch = true) : ¬ s'.Asked j := by
  rintro ⟨-, hto, -⟩
  obtain ⟨d', hd', -, rfl⟩ := next_step.1 hst
  rw [hd] at hd'
  cases hd'
  have hspread := spreadStep_step p.isOwner ff (s.node p.origin).epoch
    (hw.round.tokens.onOwner d (mem_of_getElem? hd))
  cases hspread with
  | opens _ _ hone _ =>
    have hmem := List.mem_set (List.getElem?_eq_some_iff.1 hd).1
      (d.step (p.config p.origin) ff (s.node p.origin).epoch).2.1
    have hle := le_weight (toReq j) hmem
    rw [hone j] at hle
    simp only [emit_node, update_self, Node.advance] at hto
    omega
  | sends _ hno | keeps hno =>
    rw [hop] at hno
    cases hno

lemma req?_of_opens (hw : Wiring s l) (hp : Paired s known)
    (hd : (s.node p.origin).calls[i]? = some d)
    (hop : d.opensRound (s.node p.origin).epoch = true)
    (hx : x ∈ known r) : x.2.req? = none := by
  refine eq_none_iff_forall_ne_some.2 fun j hj => ?_
  have hpos : 0 < ((known r).filterMap (Packet.req? ·.2)).count j :=
    count_pos_iff.2 (mem_filterMap.2 ⟨x, hx, hj⟩)
  rw [hp.reqs] at hpos
  have hzero : s.reqs j = 0 := by
    have hflight : l.flight s j = 0 := by
      by_cases hjo : j = p.origin
      · rw [hjo]
        exact hw.self
      · exact (hw.settled_of_opens hd hop).2.2 j hjo
    simp only [Links.flight] at hflight
    omega
  split_ifs at hpos <;> omega

/-- **An event of the detection** that leaves the connections alone. -/
theorem Carried.next (h : Carried c s out l w) (hs : Sound s l w) (hw : Wiring s l)
    (hp : Paired s known) (hsub : ∀ q, out q ⊆ known q)
    (hmoves : Moves s l w e l' w') (hst : s.next e = some s')
    (hsend : ∀ q k v, e = .deliverSend q k → (s.sends q)[k]? = some v →
      Passed c (s.node q) (w.counts q).2 (w.base q).2 (out q) (.epochSend v.1 v.2))
    (hreq : ∀ q, e = .deliverReq q →
      Passed c (s.node p.origin) (w.counts p.origin).2 (w.base p.origin).2 (out p.origin)
        (.epochReq q)) : Carried c s' out l' w' := by
  have hbound : ∀ q, ∀ x ∈ out q, x.2.bound (w.base q).2 ≤ (w.counts q).2 :=
    fun q x hx => hs.bound_le hw hp (hsub q hx)
  have hmono : ∀ q, (out q).Pairwise (Behind c (s'.node q) (w'.counts q).2 (w.base q).2) := by
    intro q
    refine (h.order q).imp_of_mem fun hx hy hxy => ⟨fun hafter => ?_, fun hafter => ?_⟩
    · exact (hxy.1 hafter).imp_left (late_next hs hw hmoves hst (hbound q _ hy))
    · exact late_next hs hw hmoves hst (hbound q _ hx) (hxy.2 hafter)
  have hcases := hmoves
  cases hcases with
  | stays _ _ base got calm =>
    refine ⟨fun q => by rw [base]; exact hmono q, fun q hq v hv => ?_, fun j hj hasked => ?_⟩
    · rcases got q v hv with hold | ⟨k, he, hk⟩
      · exact passed_next hs hw hmoves hst base (h.got q hq v hold)
          (hs.good_le hq ((hs.rank q hq).got v hold))
      · exact passed_next hs hw hmoves hst base (hsend q k v he hk)
          (hs.good_le hq ((hs.rank q hq).sends v (mem_of_getElem? hk)))
    · refine passed_next hs hw hmoves hst base ?_ (hs.base_le _).2
      rcases asked_next hw hst hj calm hasked with hold | he
      · exact h.asked j hj hold
      · exact hreq j he
  | opens i ff d event call opening counts base got =>
    refine ⟨fun q => ?_, fun q _ v hv => ?_, fun j hj hasked => ?_⟩
    · have hsame : ∀ x ∈ out q, x.2.bound (w'.base q).2 = x.2.bound (w.base q).2 :=
        fun x hx => Packet.bound_congr (req?_of_opens hw hp call opening (hsub q hx)) _ _
      refine (hmono q).imp_of_mem fun hx hy hxy => ?_
      rwa [Behind, hsame _ hx, hsame _ hy]
    · rw [got q] at hv
      cases hv
    · rw [event] at hst
      exact absurd hasked (not_asked_of_opens hw hst call opening)

lemma Carried.update (h : Carried c s out l w)
    (horder : o.Pairwise (Behind c (s.node r) (w.counts r).2 (w.base r).2))
    (hpassed : ∀ m, Passed c (s.node r) (w.counts r).2 (w.base r).2 (out r) m →
      Passed c (s.node r) (w.counts r).2 (w.base r).2 o m) :
    Carried c s (update out r o) l w := by
  have hall : ∀ q m, Passed c (s.node q) (w.counts q).2 (w.base q).2 (out q) m →
      Passed c (s.node q) (w.counts q).2 (w.base q).2 (Function.update out r o q) m := by
    intro q m hm
    by_cases hq : q = r
    · subst hq
      rw [update_self]
      exact hpassed m hm
    · rwa [update_of_ne hq]
  refine ⟨fun q => ?_, fun q hq v hv => hall q _ (h.got q hq v hv),
    fun j hj hasked => hall _ _ (h.asked j hj hasked)⟩
  by_cases hq : q = r
  · subst hq
    rwa [update_self]
  · rw [update_of_ne hq]
    exact h.order q

lemma Carried.eraseIdx (h : Carried c s out l w) (r : p.Rank) (k : ℕ) :
    Carried c s (Function.update out r ((out r).eraseIdx k)) l w :=
  h.update ((h.order r).sublist (eraseIdx_sublist ..)) fun _ hm => hm.eraseIdx k

/-! #### The messages of the detection -/

lemma Paired.congr (hp : Paired s out) (hsends : s'.sends = s.sends)
    (hreqs : s'.reqs = s.reqs) : Paired s' out :=
  ⟨by rw [hsends]; exact hp.sends, by rw [hreqs]; exact hp.reqs⟩

lemma Paired.emit_of_none (hp : Paired s out) {o : Option Out}
    (ho : o.bind (Packet.ofOut : Out → Option (Packet p δ β)) = none)
    (hreq : ∀ n, o = some (.epochReq n) → r = p.origin ∧ n < p.rankCount.toNat) :
    Paired (s.emit r o) out := by
  rcases o with _ | (n | _ | _ | _ | _)
  · exact hp
  · simp [Packet.ofOut, (hreq n rfl).2] at ho
  · simp [Packet.ofOut] at ho
  · exact hp
  · exact hp
  · exact hp

lemma Paired.update (hp : Paired s out) (hsends : o.filterMap (Packet.send? ·.2) = s'.sends r)
    (hother : ∀ q, q ≠ r → s'.sends q = s.sends q)
    (hreqs : ∀ j, (o.filterMap (Packet.req? ·.2)).count j = if r = p.origin then s'.reqs j else 0)
    (hsame : r ≠ p.origin → s'.reqs = s.reqs) : Paired s' (update out r o) := by
  refine ⟨fun q => ?_, fun q j => ?_⟩
  · by_cases hq : q = r
    · subst hq
      rw [update_self, hsends]
    · rw [update_of_ne hq, hother q hq]
      exact hp.sends q
  · by_cases hq : q = r
    · subst hq
      rw [update_self]
      exact hreqs j
    · rw [update_of_ne hq, hp.reqs]
      by_cases hr : r = p.origin
      · rw [if_neg fun he => hq (he.trans hr.symm), if_neg fun he => hq (he.trans hr.symm)]
      · rw [hsame hr]

lemma Paired.emit_of_some (hp : Paired s out) {o : Option Out} (ho : o.bind Packet.ofOut = some m)
    (hreq : ∀ n, o = some (.epochReq n) → r = p.origin ∧ n < p.rankCount.toNat) (q : ℕ) :
    Paired (s.emit r o) (Function.update out r (out r ++ [(q, m)])) := by
  refine hp.update ?_ (fun _ => emit_sends_of_ne) (fun j => ?_) fun hr => ?_
  all_goals rcases o with _ | (n | ⟨a, f⟩ | _ | _ | _) <;> try cases ho
  · obtain ⟨-, hn⟩ := hreq n rfl
    obtain rfl : .epochReq ⟨n, hn⟩ = m := by simpa [Packet.ofOut, hn] using ho
    rw [filterMap_append_of_none rfl]
    exact hp.sends r
  · rw [filterMap_append_of_some (f := fun x : ℕ × Packet p δ β => x.2.send?) rfl, hp.sends]
    simp [emit]
  · obtain ⟨hr, hn⟩ := hreq n rfl
    obtain rfl : .epochReq ⟨n, hn⟩ = m := by simpa [Packet.ofOut, hn] using ho
    have hval : (⟨n, hn⟩ : p.Rank) = j ↔ j.val = n := by rw [Fin.ext_iff, eq_comm]
    rw [filterMap_append_of_some (f := fun x : ℕ × Packet p δ β => x.2.req?) rfl, count_append, hp.reqs,
      if_pos hr, if_pos hr, count_singleton]
    simp only [beq_iff_eq, hval, emit]
    split_ifs <;> rfl
  · rw [filterMap_append_of_none rfl]
    exact hp.reqs r j
  · exact absurd (hreq n rfl).1 hr
  · rfl

lemma Wiring.of_epochReq (hw : Wiring s l) {n : ℕ}
    (hd : (s.node r).calls[i]? = some d) (hdone : d.isDone = false)
    (ho : (d.step (p.config r) ff (s.node r).epoch).2.2 = some (.epochReq n)) :
    r = p.origin ∧ n < p.rankCount.toNat := by
  have hmem := mem_of_getElem? hd
  have hone : countRequest (d.step (p.config r) ff (s.node r).epoch).2.2 = 1 := by rw [ho]; rfl
  by_cases hr : r = p.origin
  · subst hr
    refine ⟨rfl, ?_⟩
    cases spreadStep_step p.isOwner ff (s.node p.origin).epoch
      (hw.round.tokens.onOwner d hmem) with
    | opens _ _ _ hnone =>
      rw [ho] at hnone
      cases hnone
    | sends i' _ hlt _ hout =>
      rw [ho] at hout
      cases hout
      exact hlt
    | keeps _ _ hzero =>
      rw [hone] at hzero
      cases hzero
  · have hother := otherStep_step (p.isOther hr) ff (s.node r).epoch
      ((hw.served r hr).onOther d hmem) hdone
    have hzero := hother.countRequest_eq
    rw [hone] at hzero
    cases hzero

variable {q k : ℕ}

lemma Paired.deliverReq (hp : Paired s out)
    (hm : (out r)[k]? = some (q, .epochReq j)) (hst : s.next (.deliverReq j) = some s') :
    r = p.origin ∧ Paired s' (Function.update out r ((out r).eraseIdx k)) := by
  obtain ⟨-, rfl⟩ := next_deliverReq.1 hst
  have hcount := fun i => count_filterMap_eraseIdx (f := fun x : ℕ × Packet p δ β => x.2.req?) hm rfl i
  have hr : r = p.origin := by
    by_contra hr
    have hthis := hcount j
    rw [hp.reqs, if_neg hr, if_pos rfl] at hthis
    cases hthis
  refine ⟨hr, hp.update ?_ (fun _ _ => rfl) (fun i => ?_) fun hne => absurd hr hne⟩
  · rw [filterMap_eraseIdx_of_none hm rfl]
    exact hp.sends r
  · have hthis := hcount i
    rw [hp.reqs, if_pos hr] at hthis
    rw [if_pos hr]
    by_cases hij : j = i
    · subst hij
      rw [if_pos rfl] at hthis
      simp only [update_self]
      exact Nat.eq_sub_of_add_eq hthis
    · rw [if_neg hij, Nat.add_zero] at hthis
      simpa only [update_of_ne (Ne.symm hij)] using hthis

lemma Paired.deliverSend (hp : Paired s out) {a f : UInt32}
    (hm : (out r)[k]? = some (q, .epochSend a f))
    (hst : s.next (.deliverSend r (((out r).take k).filterMap (Packet.send? ·.2)).length) =
      some s') : Paired s' (Function.update out r ((out r).eraseIdx k)) := by
  obtain ⟨v, -, -, rfl⟩ := next_deliverSend.1 hst
  refine hp.update ?_ (fun q' hq => update_of_ne hq _ _) (fun i => ?_) fun _ => rfl
  · simp only [update_self]
    rw [filterMap_eraseIdx_of_some (f := fun x : ℕ × Packet p δ β => x.2.send?) hm rfl, hp.sends]
  · rw [filterMap_eraseIdx_of_none hm rfl]
    exact hp.reqs r i

lemma Paired.eraseIdx (hp : Paired s out) {u : DbUpdate δ β}
    (hm : (out r)[k]? = some (q, .dbUpdate u)) :
    Paired s (Function.update out r ((out r).eraseIdx k)) := by
  refine hp.update ?_ (fun _ _ => rfl) (fun i => ?_) fun _ => rfl
  · rw [filterMap_eraseIdx_of_none hm rfl]
    exact hp.sends r
  · rw [filterMap_eraseIdx_of_none hm rfl]
    exact hp.reqs r i

lemma Paired.append (hp : Paired s out) (q : ℕ) (u : DbUpdate δ β) :
    Paired s (Function.update out r (out r ++ [(q, .dbUpdate u)])) := by
  refine hp.update ?_ (fun _ _ => rfl) (fun i => ?_) fun _ => rfl
  · rw [filterMap_append_of_none rfl]
    exact hp.sends r
  · rw [filterMap_append_of_none rfl]
    exact hp.reqs r i

/-! #### Two rounds that agree -/

/-- If the round was opened with balanced counts, nothing has happened to them since. -/
def Calm (s : System p EdtGuid) (w : Waves p) : Prop :=
  (∑ q, w.base q).1 = (∑ q, w.base q).2 → (∑ q, w.base q).2 ≠ 0 →
    ∑ q, w.base q = (s.history.activated.length, s.history.finished.length)

lemma Calm.quiescent (h : Calm s w) (heq : (∑ q, w.base q).1 = (∑ q, w.base q).2)
    (h0 : (∑ q, w.base q).2 ≠ 0) : s.history.Quiescent := by
  have hsum := h heq h0
  rw [hsum] at heq h0
  refine ⟨fun hnil => h0 ?_, heq.symm⟩
  simp only [hnil] at heq
  exact heq.symm

lemma Calm.next (h : Calm s w) (hok : s.history.Ok s.waiting) (hs' : Sound s' l' w')
    (hmoves : Moves s l w e l' w') (hst : s.next e = some s') : Calm s' w' := by
  intro heq h0
  cases hmoves with
  | stays _ _ base =>
    rw [base] at heq h0 ⊢
    obtain ⟨hact, hfin⟩ := history_next_of_quiescent hok (h.quiescent heq h0) hst
    rw [hact, hfin]
    exact h heq h0
  | opens i ff d _ _ _ counts base =>
    rw [base, ← counts]
    exact hs'.tally.sum

/-- The invariant until two rounds agree. -/
structure Tracked (c : Placement p δ) (s : System p EdtGuid)
    (out : p.Rank → List (ℕ × Packet p δ β)) (l : Links p) (w : Waves p) : Prop where
  wiring : Wiring s l
  sound : Sound s l w
  calm : Calm s w
  paired : Paired s out
  carried : Carried c s out l w

def Drained (out : p.Rank → List (ℕ × Packet p δ β)) : Prop :=
  ∀ r, ∀ x ∈ out r, x.2.update? = none

/-- **When two rounds agree, the epoch is quiescent and its data has arrived.** -/
theorem Tracked.of_agrees (h : Tracked c s out l w) (hok : s.history.Ok s.waiting)
    (haway : ∀ q, ∀ x ∈ out q, ∀ u, x.2 = .dbUpdate u → c.rankOf u.guid ≠ q)
    (hagree : s.Agrees i) : s.history.Quiescent ∧ Drained out := by
  obtain ⟨heq, h0, hone, hgot⟩ := h.sound.base_of_agrees h.wiring hagree
  have hq := h.calm.quiescent heq h0
  have hsame : ∀ q, w.base q = w.counts q :=
    TwoWave.eq_of_le_of_sum_eq h.sound.base_le ((h.calm heq h0).trans h.sound.tally.sum.symm)
  -- an update that is late belongs to an EDT that has not finished
  have hlate : ∀ q f (m : Packet p δ β), (w.counts q).2 ≤ f →
      ¬ m.Late (s.node q) (w.counts q).2 f := by
    rintro q f m hf (hlt | ⟨u, -, hu⟩)
    · omega
    · have hle := Finset.single_le_sum (f := fun q => (s.node q).waiting)
        (fun _ _ => Nat.zero_le _) (Finset.mem_univ q)
      have hzero := hq.waiting_eq_zero hok
      have hpos := hu.waiting_pos
      simp only [System.waiting] at hzero
      omega
  refine ⟨hq, fun q x hx => ?_⟩
  refine eq_none_iff_forall_ne_some.2 fun u hu => ?_
  have hxu : x.2 = .dbUpdate u := by
    cases hx2 : x.2 <;> rw [hx2] at hu <;> cases hu
    rfl
  by_cases hqo : q = p.origin
  · subst hqo
    have hj := haway _ x hx u hxu
    obtain ⟨hto, hflight, -⟩ := h.wiring.all_received hone hj
    have hasked : s.Asked (c.rankOf u.guid) := by
      simp only [Links.flight] at hflight
      exact ⟨by omega, hto, by omega⟩
    refine hlate _ _ x.2 (hsame p.origin ▸ le_rfl) (h.carried.asked _ hj hasked x hx ?_)
    simp [hxu, Packet.after]
  · obtain ⟨v, hv, hbase⟩ := hgot q hqo
    have hfin : (w.counts q).2 ≤ v.2.toNat := by rw [← hsame, hbase]
    exact hlate _ _ x.2 hfin (h.carried.got q hqo v hv x hx (by simp [hxu, Packet.after]))

/-- **An event of the detection**, until two rounds agree. -/
theorem Tracked.next (hw : Wiring s l) (hs : Sound s l w) (hcalm : Calm s w)
    (hp : Paired s known) (h : Carried c s out l w) (hsub : ∀ q, out q ⊆ known q)
    (hok : s.history.Ok s.waiting) (hord : s.Orderly e) (hnew : ∀ i, ¬ s.Agrees i)
    (hst : s.next e = some s')
    (hsend : ∀ q k v, e = .deliverSend q k → (s.sends q)[k]? = some v →
      Passed c (s.node q) (w.counts q).2 (w.base q).2 (out q) (.epochSend v.1 v.2))
    (hreq : ∀ q, e = .deliverReq q →
      Passed c (s.node p.origin) (w.counts p.origin).2 (w.base p.origin).2 (out p.origin)
        (.epochReq q)) :
    ∃ l' w', Wiring s' l' ∧ Sound s' l' w' ∧ Calm s' w' ∧ Carried c s' out l' w' := by
  obtain ⟨l', w', hw', hs', hmoves⟩ :=
    kept_next hs hw hok hord (fun i _ _ => hnew i) hst
  exact ⟨l', w', hw', hs', hcalm.next hok hs' hmoves hst,
    h.next hs hw hp hsub hmoves hst hsend hreq⟩

end Step

end Arts
