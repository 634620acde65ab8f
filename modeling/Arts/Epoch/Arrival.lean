import Arts.Epoch.Overtaking

/-!
# The writes of an epoch have arrived

If no message of the detection overtakes data (`Transport.Follows`), all updates have arrived in
`PHASE_3` (`Transport.updates_arrived`). Nothing enforces it
(`Transport.completed_without_update`).
-/

namespace Arts

open List Function Option Packet Layout

variable {p : Layout} {δ β : Type*}

/-! ### The condition -/

namespace Transport

/-- The condition on runs: that of the detection, and the messages of the detection do not leave
the data behind. When a thread sends a report, all updates of its rank that are in flight are on the
connection of the report; when it sends a request, those to the same rank are on the connection of
the request. -/
def Follows (c : Placement p δ) (s : Transport p δ β) : Event p δ β → Prop
  | .activate r edt => s.sys.Orderly (.activate r edt)
  | .step r i ff => s.sys.Orderly (.step r i ff) ∧
      ∀ d ∈ (s.sys.node r).calls[i]?, ∀ m ∈ d.pending.bind ofOut, ∀ x ∈ s.out r,
        m.after c x.2 = true → x.1 = c.outQueueIdForRank (c.thread r i) (m.dest c)
  | _ => True

instance (c : Placement p δ) (s : Transport p δ β) (e : Event p δ β) :
    Decidable (s.Follows c e) := by
  cases e <;> unfold Follows <;> infer_instance

end Transport

/-! ### Runs -/

/-- What an owner stores after an update has arrived are the bytes of an update. -/
def Transport.Updated (s : Transport p δ β) : Prop :=
  ∀ r, ∀ u ∈ s.arrived r, u.payload ≠ none → s.stored u.guid ≠ none →
    ∃ q, ∃ v ∈ s.arrived q, v.guid = u.guid ∧ s.stored u.guid = v.payload

/-- Every update that was released has arrived or is in flight, to another rank. -/
structure Transport.Ledger (c : Placement p δ) (s : Transport p δ β) : Prop where
  perm : ∀ r, (s.released r).Perm (s.arrived r ++ (s.out r).filterMap (update? ·.2))
  away : ∀ r, ∀ x ∈ s.out r, ∀ u, x.2 = .dbUpdate u → c.rankOf u.guid ≠ r
  updated : s.Updated

namespace Transport

variable [DecidableEq δ] {c : Placement p δ} {s s' : Transport p δ β} {r : p.Rank}

section Ledger

lemma updated_handleUpdateDb (h : s.Updated) (r : p.Rank) (u : DbUpdate δ β) :
    (s.handleUpdateDb r u).Updated := by
  set t := s.handleUpdateDb r u with ht
  have hsub : ∀ q, s.arrived q ⊆ t.arrived q := by
    intro q
    simp only [ht, handleUpdateDb]
    by_cases hq : q = r
    · subst hq
      rw [update_self]
      exact subset_cons_self _ _
    · rw [update_of_ne hq]
      exact List.Subset.refl _
  have hself : u ∈ t.arrived r := by simp [ht, handleUpdateDb]
  have hmem : ∀ q, ∀ v ∈ t.arrived q, v = u ∨ v ∈ s.arrived q := by
    intro q v hv
    simp only [ht, handleUpdateDb] at hv
    by_cases hq : q = r
    · subst hq
      rw [update_self] at hv
      exact mem_cons.1 hv
    · rw [update_of_ne hq] at hv
      exact .inr hv
  intro q v hv hpay hstored
  -- the bytes of an untouched DB are those of an earlier update
  have hold : v ∈ s.arrived q → t.stored v.guid = s.stored v.guid →
      ∃ q, ∃ v' ∈ t.arrived q, v'.guid = v.guid ∧ t.stored v.guid = v'.payload := by
    intro hv hsame
    rw [hsame] at hstored ⊢
    obtain ⟨q', v', hv', hguid, hbytes⟩ := h q v hv hpay hstored
    exact ⟨q', v', hsub q' hv', hguid, hbytes⟩
  cases hu : u.payload with
  | none =>
    have hsame : t.stored = s.stored := by simp [ht, handleUpdateDb, hu]
    rcases hmem q v hv with rfl | hv
    · exact absurd hu hpay
    · exact hold hv (by rw [hsame])
  | some bytes =>
    have hnew : t.stored = update s.stored u.guid ((s.stored u.guid).map fun _ => bytes) := by
      simp [ht, handleUpdateDb, hu]
    by_cases hguid : v.guid = u.guid
    · refine ⟨r, u, hself, hguid.symm, ?_⟩
      rw [hnew, hguid, update_self] at hstored ⊢
      cases hst : s.stored u.guid with
      | none =>
        rw [hst] at hstored
        exact absurd rfl hstored
      | some old => rw [hu, map_some]
    · rcases hmem q v hv with rfl | hv
      · exact absurd rfl hguid
      · exact hold hv (by rw [hnew, update_of_ne hguid])

omit [DecidableEq δ] in
lemma Ledger.update (h : s.Ledger c) (hupdated : s'.Updated)
    (hrel : ∀ q, q ≠ r → s'.released q = s.released q)
    (harr : ∀ q, q ≠ r → s'.arrived q = s.arrived q) (hout : ∀ q, q ≠ r → s'.out q = s.out q)
    (hperm : (s'.released r).Perm (s'.arrived r ++ (s'.out r).filterMap (update? ·.2)))
    (haway : ∀ x ∈ s'.out r, x ∈ s.out r ∨ ∀ u, x.2 = .dbUpdate u → c.rankOf u.guid ≠ r) :
    s'.Ledger c := by
  refine ⟨fun q => ?_, fun q x hx => ?_, hupdated⟩
  · by_cases hq : q = r
    · rwa [hq]
    · rw [hrel q hq, harr q hq, hout q hq]
      exact h.perm q
  · by_cases hq : q = r
    · subst hq
      exact (haway x hx).elim (h.away q x) id
    · rw [hout q hq] at hx
      exact h.away q x hx

lemma Ledger.release (h : s.Ledger c) (r : p.Rank) (u : DbUpdate δ β) :
    (s.release c r u).Ledger c := by
  have hcons : (u :: s.released r).Perm
      (u :: (s.arrived r ++ (s.out r).filterMap (update? ·.2))) := (h.perm r).cons u
  unfold Transport.release
  split_ifs with hr
  · have hupdated := updated_handleUpdateDb
      h.updated r u
    refine h.update hupdated (fun q hq => update_of_ne hq _ _)
      (fun q hq => update_of_ne hq _ _) (fun _ _ => rfl) ?_ fun x hx => .inl hx
    simpa [handleUpdateDb] using hcons
  · refine h.update h.updated (fun q hq => update_of_ne hq _ _)
      (fun _ _ => rfl) (fun q hq => update_of_ne hq _ _) ?_ fun x hx => ?_
    · simp only [send, update_self]
      rw [Fifo.filterMap_append_of_some (f := fun x : ℕ × Packet p δ β => x.2.update?) rfl,
        ← append_assoc]
      exact hcons.trans (perm_append_singleton u _).symm
    · simp only [send, update_self, mem_append, mem_singleton] at hx
      refine hx.imp id fun he v hv => ?_
      rw [he] at hv
      cases hv
      exact hr

omit [DecidableEq δ] in
lemma Ledger.of_out (h : s.Ledger c) {o : List (ℕ × Packet p δ β)} (sys : System p EdtGuid)
    (hsame : o.filterMap (update? ·.2) = (s.out r).filterMap (update? ·.2)) :
    ({ s with sys, out := Function.update s.out r o } : Transport p δ β).Ledger c := by
  refine h.update h.updated (fun _ _ => rfl) (fun _ _ => rfl)
    (fun q hq => update_of_ne hq _ _) ?_ fun x hx => .inr fun u hu => ?_
  · simp only [update_self, hsame]
    exact h.perm r
  · simp only [update_self] at hx
    have hmem : u ∈ (s.out r).filterMap (update? ·.2) := by
      rw [← hsame]
      exact mem_filterMap.2 ⟨x, hx, by rw [hu]; rfl⟩
    obtain ⟨y, hy, hyu⟩ := mem_filterMap.1 hmem
    refine h.away r y hy u ?_
    cases hy2 : y.2 <;> rw [hy2] at hyu <;> cases hyu
    rfl

lemma Ledger.deliver (h : s.Ledger c) {q k : ℕ} {u : DbUpdate δ β} (sys : System p EdtGuid)
    (hm : (s.out r)[k]? = some (q, .dbUpdate u)) :
    ({ s with sys, out := Function.update s.out r ((s.out r).eraseIdx k) }.handleUpdateDb
      r u).Ledger c := by
  have hupdated := updated_handleUpdateDb
    h.updated r u
  refine h.update hupdated (fun _ _ => rfl) (fun q hq => update_of_ne hq _ _)
    (fun q hq => update_of_ne hq _ _) ?_ fun x hx => .inl ?_
  · have hperm := h.perm r
    rw [Fifo.filterMap_eq_append (f := fun x : ℕ × Packet p δ β => x.2.update?) hm rfl] at hperm
    simp only [handleUpdateDb, update_self, eraseIdx_eq_take_drop_succ,
      filterMap_append]
    refine hperm.trans ?_
    rw [← append_assoc, ← append_assoc]
    exact perm_middle
  · simp only [handleUpdateDb, update_self] at hx
    exact mem_of_mem_eraseIdx hx

end Ledger

/-- The invariant of a run: the data is accounted for; and it has all arrived in a quiescent epoch,
or the detection has not agreed on two rounds. -/
structure Inv (c : Placement p δ) (s : Transport p δ β) : Prop where
  ok : s.sys.history.Ok s.sys.waiting
  ledger : s.Ledger c
  settled : s.sys.history.Quiescent ∧ Drained s.out ∨ ∃ l w, Tracked c s.sys s.out l w

lemma inv_init (h : (machine c).init s) : s.Inv c := by
  obtain ⟨hsys, hout, hrel, harr⟩ := h
  have hnil : ∀ q, s.out q = [] := fun q => by rw [hout]
  refine ⟨(System.secure_init hsys).ok, ⟨fun q => ?_, fun q x hx => ?_, fun q u hu => ?_⟩,
    .inr ⟨_, _, System.wiring_init hsys, (System.safe_init hsys).sound, ?_, ⟨fun q => ?_,
      fun q j => ?_⟩, fun q => ?_, fun q _ v hv => ?_, fun j _ _ x hx => ?_⟩⟩
  · rw [hnil, hrel, harr]
    exact List.Perm.refl _
  · rw [hnil] at hx
    cases hx
  · rw [harr] at hu
    cases hu
  · intro _ h0
    exact absurd (by simp [System.noWaves]) h0
  · obtain ⟨guid, edtGuid, slot, hsys⟩ := hsys
    rw [hnil, hsys]
    rfl
  · obtain ⟨guid, edtGuid, slot, hsys⟩ := hsys
    rw [hnil, hsys]
    simp
  · rw [hnil]
    exact List.Pairwise.nil
  · cases hv
  · rw [hnil] at hx
    cases hx

section Step

variable {e : Event p δ β}

omit [DecidableEq δ] in
lemma update?_of_message {i : ℕ} {ff : Bool} {m : Packet p δ β}
    (hm : s.message r i ff = some m) : m.update? = none := by
  obtain ⟨o, -, ho⟩ := bind_eq_some_iff.1 hm
  cases o <;> simp only [ofOut] at ho <;> (try split_ifs at ho) <;> cases ho <;> rfl

omit [DecidableEq δ] in
lemma drained_append {o : p.Rank → List (ℕ × Packet p δ β)} (h : Drained o) {q : ℕ}
    {m : Packet p δ β} (hm : m.update? = none) :
    Drained (update o r (o r ++ [(q, m)])) := by
  intro q' x hx
  by_cases hq : q' = r
  · subst hq
    rw [update_self] at hx
    exact forall_mem_append_singleton (h q') hm x hx
  · rw [update_of_ne hq] at hx
    exact h q' x hx

omit [DecidableEq δ] in
lemma drained_eraseIdx {o : p.Rank → List (ℕ × Packet p δ β)} (h : Drained o) (k : ℕ) :
    Drained (update o r ((o r).eraseIdx k)) := by
  intro q' x hx
  by_cases hq : q' = r
  · subst hq
    rw [update_self] at hx
    exact h q' x (mem_of_mem_eraseIdx hx)
  · rw [update_of_ne hq] at hx
    exact h q' x hx

/-- **Every event is one of the detection, or none of its business.** -/
theorem next_sys (hst : s.next c e = some s') :
    s'.sys = s.sys ∨ ∃ e', s.sys.next e' = some s'.sys := by
  cases e with
  | activate r edt =>
    obtain ⟨sys, hsys, rfl⟩ := next_activate.1 hst
    exact .inr ⟨_, hsys⟩
  | enqueue r edt =>
    obtain ⟨sys, hsys, rfl⟩ := next_enqueue.1 hst
    exact .inr ⟨_, hsys⟩
  | release r u =>
    obtain ⟨-, rfl⟩ := next_release.1 hst
    refine .inl ?_
    unfold release
    split_ifs <;> rfl
  | finish r edt =>
    obtain ⟨sys, hsys, rfl⟩ := next_finish hst
    exact .inr ⟨_, hsys⟩
  | step r i ff =>
    obtain ⟨sys, hsys, ⟨-, rfl⟩ | ⟨m, -, rfl⟩⟩ := next_step hst
    · exact .inr ⟨_, hsys⟩
    · exact .inr ⟨_, hsys⟩
  | deliver r k =>
    obtain ⟨q, m, sys, -, -, hsys, hs'⟩ := next_deliver hst
    have heq : s'.sys = sys := by rcases hs' with ⟨u, -, rfl⟩ | ⟨-, rfl⟩ <;> rfl
    rw [heq]
    cases m with
    | dbUpdate u => exact .inl (some_inj.1 hsys).symm
    | epochReq j => exact .inr ⟨.deliverReq j, hsys⟩
    | epochSend a f => exact .inr ⟨.deliverSend r _, hsys⟩

lemma drained_next (hok : s.sys.history.Ok s.sys.waiting) (hq : s.sys.history.Quiescent)
    (h : Drained s.out) (hst : s.next c e = some s') : Drained s'.out := by
  cases e with
  | activate r edt =>
    obtain ⟨sys, -, rfl⟩ := next_activate.1 hst
    exact h
  | enqueue r edt =>
    obtain ⟨sys, -, rfl⟩ := next_enqueue.1 hst
    exact h
  | release r u =>
    obtain ⟨hready, -⟩ := next_release.1 hst
    have hpos := Node.Unfinished.waiting_pos (.inl hready : (s.sys.node r).Unfinished u.edt)
    have hle := Finset.single_le_sum (f := fun q => (s.sys.node q).waiting)
      (fun _ _ => Nat.zero_le _) (Finset.mem_univ r)
    have hzero := hq.waiting_eq_zero hok
    simp only [System.waiting] at hzero
    omega
  | finish r edt =>
    obtain ⟨sys, -, rfl⟩ := next_finish hst
    exact h
  | step r i ff =>
    obtain ⟨sys, -, ⟨-, rfl⟩ | ⟨m, hm, rfl⟩⟩ := next_step hst
    · exact h
    · exact drained_append h (update?_of_message hm)
  | deliver r k =>
    obtain ⟨q, m, sys, -, -, -, ⟨u, -, rfl⟩ | ⟨-, rfl⟩⟩ := next_deliver hst
    · exact drained_eraseIdx h k
    · exact drained_eraseIdx h k

lemma ledger_next (h : s.Ledger c) (hst : s.next c e = some s') : s'.Ledger c := by
  cases e with
  | activate r edt =>
    obtain ⟨sys, -, rfl⟩ := next_activate.1 hst
    exact { h with }
  | enqueue r edt =>
    obtain ⟨sys, -, rfl⟩ := next_enqueue.1 hst
    exact { h with }
  | release r u =>
    obtain ⟨-, rfl⟩ := next_release.1 hst
    exact h.release r u
  | finish r edt =>
    obtain ⟨sys, -, rfl⟩ := next_finish hst
    exact { h with }
  | step r i ff =>
    obtain ⟨sys, -, ⟨-, rfl⟩ | ⟨m, hm, rfl⟩⟩ := next_step hst
    · exact { h with }
    · exact h.of_out sys (Fifo.filterMap_append_of_none (update?_of_message hm))
  | deliver r k =>
    obtain ⟨q, m, sys, hm, -, -, ⟨u, rfl, rfl⟩ | ⟨hnone, rfl⟩⟩ := next_deliver hst
    · exact h.deliver sys hm
    · exact h.of_out sys (Fifo.filterMap_eraseIdx_of_none hm hnone)

lemma tracked_next {l : Links p} {w : Waves p} (h : Tracked c s.sys s.out l w)
    (hok : s.sys.history.Ok s.sys.waiting) (hnew : ∀ i, ¬ s.sys.Agrees i)
    (hfollows : s.Follows c e) (hst : s.next c e = some s') :
    ∃ l' w', Tracked c s'.sys s'.out l' w' := by
  -- an event of the detection on connections that stay as they are
  have hsame : ∀ {e' : System.Event p EdtGuid} {sys : System p EdtGuid},
      s.sys.next e' = some sys → s.sys.Orderly e' → (∀ q k, e' ≠ .deliverSend q k) →
      (∀ q, e' ≠ .deliverReq q) → ∃ l' w', Wiring sys l' ∧ Sound sys l' w' ∧ Calm sys w' ∧
        Carried c sys s.out l' w' := fun hsys hord hsend hreq =>
    Tracked.next h.wiring h.sound h.calm h.paired h.carried (fun _ => List.Subset.refl _) hok
      hord hnew hsys (fun q k _ he => absurd he (hsend q k)) fun q he => absurd he (hreq q)
  cases e with
  | activate r edt =>
    obtain ⟨sys, hsys, rfl⟩ := next_activate.1 hst
    obtain ⟨l', w', hw', hs', hcalm', hc'⟩ := hsame hsys hfollows nofun nofun
    obtain ⟨-, rfl⟩ := System.next_activate.1 hsys
    exact ⟨l', w', hw', hs', hcalm', h.paired.congr rfl rfl, hc'⟩
  | enqueue r edt =>
    obtain ⟨sys, hsys, rfl⟩ := next_enqueue.1 hst
    obtain ⟨l', w', hw', hs', hcalm', hc'⟩ := hsame hsys trivial nofun nofun
    obtain ⟨-, -, rfl⟩ := System.next_enqueue.1 hsys
    exact ⟨l', w', hw', hs', hcalm', h.paired.congr rfl rfl, hc'⟩
  | release r u =>
    obtain ⟨hready, rfl⟩ := next_release.1 hst
    unfold release
    split_ifs with hr
    · exact ⟨l, w, h.wiring, h.sound, h.calm, h.paired, h.carried⟩
    · have hu : (s.sys.node r).Unfinished u.edt := .inl hready
      refine ⟨l, w, h.wiring, h.sound, h.calm, h.paired.append _ u,
        h.carried.update (pairwise_release (h.carried.order r) hu) fun m hm => ?_⟩
      exact hm.append fun v hv => by
        cases hv
        exact hu
  | finish r edt =>
    obtain ⟨sys, hsys, rfl⟩ := next_finish hst
    obtain ⟨l', w', hw', hs', hcalm', hc'⟩ := hsame hsys trivial nofun nofun
    obtain ⟨-, rfl⟩ := System.next_finish.1 hsys
    exact ⟨l', w', hw', hs', hcalm', h.paired.congr rfl rfl, hc'⟩
  | step r i ff =>
    obtain ⟨hord, hqueue⟩ := hfollows
    obtain ⟨sys, hsys, hmessage⟩ := next_step hst
    obtain ⟨l', w', hw', hs', hcalm', hc'⟩ := hsame hsys hord nofun nofun
    obtain ⟨d, hd, hdone, hsys'⟩ := System.next_step.1 hsys
    have hreq : ∀ n, (d.step (p.config r) ff (s.sys.node r).epoch).2.2 = some (.epochReq n) →
        r = p.origin ∧ n < p.rankCount.toNat := fun n => h.wiring.of_epochReq hd hdone
    have hemit : Paired { s.sys with
        node := update s.sys.node r ((s.sys.node r).advance (p.config r) i ff d)
        history := s.sys.history.publish d } s.out := h.paired.congr rfl rfl
    have heq : s.message r i ff =
        (d.step (p.config r) ff (s.sys.node r).epoch).2.2.bind ofOut := by
      simp [message, hd]
    rcases hmessage with ⟨hnone, rfl⟩ | ⟨m, hm, rfl⟩
    · refine ⟨l', w', hw', hs', hcalm', ?_, hc'⟩
      rw [heq] at hnone
      rw [hsys']
      exact hemit.emit_of_none hnone hreq
    · have hnone := update?_of_message hm
      rw [heq] at hm
      refine ⟨l', w', hw', hs', hcalm', ?_, hc'.update ?_ fun m' hm' => hm'.append ?_⟩
      · rw [hsys']
        exact hemit.emit_of_some hm hreq _
      · refine pairwise_send (hc'.order r) hnone fun x hx hafter => ?_
        refine hqueue d hd m ?_ x hx hafter
        obtain ⟨o, ho, hom⟩ := bind_eq_some_iff.1 hm
        exact bind_eq_some_iff.2 ⟨o, Call.pending_of_step ho hom, hom⟩
      · rintro u rfl
        cases hnone
  | deliver r k =>
    obtain ⟨q, m, sys, hm, hnext, hsys, hs'⟩ := next_deliver hst
    have hpassed := passed_of_isNext (h.carried.order r) hm hnext
    have herase := h.carried.eraseIdx r k
    have hsub : ∀ q', update s.out r ((s.out r).eraseIdx k) q' ⊆ s.out q' := by
      intro q'
      by_cases hq : q' = r
      · subst hq
        rw [update_self]
        exact (eraseIdx_sublist ..).subset
      · rw [update_of_ne hq]
        exact List.Subset.refl _
    cases m with
    | dbUpdate u =>
      cases hsys
      rcases hs' with ⟨u, -, rfl⟩ | ⟨hnone, -⟩
      · exact ⟨l, w, h.wiring, h.sound, h.calm, h.paired.eraseIdx hm, herase⟩
      · cases hnone
    | epochReq j =>
      obtain ⟨u, hu, -⟩ | ⟨-, rfl⟩ := hs'
      · cases hu
      obtain ⟨rfl, hpaired⟩ := h.paired.deliverReq hm hsys
      obtain ⟨l', w', hw', hs', hcalm', hc'⟩ := Tracked.next (e := .deliverReq j) h.wiring
        h.sound h.calm h.paired herase hsub hok trivial hnew hsys nofun fun q' he => by
          cases he
          rw [update_self]
          exact hpassed
      exact ⟨l', w', hw', hs', hcalm', hpaired, hc'⟩
    | epochSend a f =>
      obtain ⟨u, hu, -⟩ | ⟨-, rfl⟩ := hs'
      · cases hu
      have hpaired := h.paired.deliverSend hm hsys
      have hreport := Fifo.getElem?_filterMap (f := fun x : ℕ × Packet p δ β => x.2.send?) hm rfl
      rw [h.paired.sends] at hreport
      obtain ⟨l', w', hw', hs', hcalm', hc'⟩ := Tracked.next (e := .deliverSend r _) h.wiring
        h.sound h.calm h.paired herase hsub hok trivial hnew hsys (fun q' k' v he hv => by
          cases he
          rw [hreport] at hv
          cases hv
          rw [update_self]
          exact hpassed) nofun
      exact ⟨l', w', hw', hs', hcalm', hpaired, hc'⟩

lemma inv_next (h : s.Inv c) (hfollows : s.Follows c e) (hst : s.next c e = some s') :
    s'.Inv c := by
  have hok : s'.sys.history.Ok s'.sys.waiting := by
    rcases next_sys hst with heq | ⟨e', hsys⟩
    · rw [heq]
      exact h.ok
    · exact System.ok_next h.ok hsys
  refine ⟨hok, ledger_next h.ledger hst, ?_⟩
  by_cases hset : s.sys.history.Quiescent ∧ Drained s.out
  · refine .inl ⟨?_, drained_next h.ok hset.1 hset.2 hst⟩
    rcases next_sys hst with heq | ⟨e', hsys⟩
    · rw [heq]
      exact hset.1
    · exact System.quiescent_next h.ok hset.1 hsys
  · obtain ⟨l, w, htracked⟩ := h.settled.resolve_left hset
    refine .inr (tracked_next htracked h.ok (fun i hagree => hset ?_) hfollows hst)
    exact htracked.of_agrees h.ok h.ledger.away hagree

end Step

end Transport

/-- **The writes of an epoch have arrived when it completes**, in every run in which the messages of
the detection follow the data. -/
theorem Transport.updates_arrived [DecidableEq δ] {c : Placement p δ} {s : Transport p δ β}
    (h : ((Transport.machine c).restrict (Transport.Follows c)).Reachable s)
    (hphase : (s.sys.node p.origin).epoch.phase = .phase3) :
    (∀ r, (s.released r).Perm (s.arrived r)) ∧
      ∀ r, ∀ u ∈ s.released r, u.payload ≠ none → s.stored u.guid ≠ none →
        ∃ q, ∃ v ∈ s.released q, v.guid = u.guid ∧ s.stored u.guid = v.payload := by
  have hinv : s.Inv c := h.invariant (fun _ => Transport.inv_init)
    fun _ _ _ _ hi hst => Transport.inv_next hi (Machine.restrict_next.1 hst).1
      (Machine.restrict_next.1 hst).2
  obtain ⟨-, hdrained⟩ := hinv.settled.resolve_right fun ⟨_, _, htracked⟩ =>
    htracked.sound.owner.phase hphase
  have hperm : ∀ r, (s.released r).Perm (s.arrived r) := by
    intro r
    have hnil : (s.out r).filterMap (update? ·.2) = [] :=
      filterMap_eq_nil_iff.2 (hdrained r)
    have hall := hinv.ledger.perm r
    rwa [hnil, append_nil] at hall
  refine ⟨hperm, fun r u hu hpay hstored => ?_⟩
  obtain ⟨q, v, hv, hguid, hbytes⟩ :=
    hinv.ledger.updated r u ((hperm r).subset hu) hpay hstored
  exact ⟨q, v, (hperm q).symm.subset hv, hguid, hbytes⟩

/-- Two ranks and two ports; an EDT on each rank writes a DB of the other one. Workers and other
calls use the same queues. -/
theorem Transport.updates_arrived_both_ways :
    ∃ (c : Placement .pair Bool) (s : Transport .pair Bool ℕ),
      ((Transport.machine c).restrict (Transport.Follows c)).Reachable s ∧
      (s.sys.node pair.origin).epoch.phase = .phase3 ∧
      (∀ r, (s.released r).length = 1) ∧ (∀ r, (s.released r).Perm (s.arrived r)) ∧
      s.stored true = some 7 ∧ s.stored false = some 9 := by
  let o : pair.Rank := ⟨0, by decide⟩
  let q : pair.Rank := ⟨1, by decide⟩
  let x := EdtGuid.ofKey 1
  let y := EdtGuid.ofKey 2
  let c : Placement .pair Bool :=
    ⟨2, by decide, fun b => if b then o else q, fun _ => 3, fun _ i => if i = 0 then 3 else 1⟩
  obtain ⟨s, hr, hphase, hone, htrue, hfalse⟩ :=
    Machine.Reachable.exists_of_exec
      (M := (Transport.machine c).restrict (Transport.Follows c))
      (P := fun s : Transport .pair Bool ℕ =>
        (s.sys.node pair.origin).epoch.phase = .phase3 ∧
          (∀ r, (s.released r).length = 1) ∧ s.stored true = some 7 ∧ s.stored false = some 9)
      (s := ⟨⟨fun r => .create 0 0 0 (decide (r = pair.origin)), fun _ => 0, fun _ => [],
        ⟨[], [], []⟩⟩, fun _ => [], fun _ => some 0, fun _ => [], fun _ => []⟩)
      (r := flatten [[.activate o x, .activate o y, .enqueue o x, .enqueue q y,
        .release q ⟨y, true, some 7⟩, .release o ⟨x, false, some 9⟩, .finish q y],
        replicate 3 (.step q 0 false), [.finish o x], replicate 5 (.step o 0 false),
        [.deliver o 0, .deliver o 0], replicate 5 (.step q 1 false),
        [.deliver q 0, .deliver q 0], replicate 17 (.step o 1 false), [.deliver o 0],
        replicate 5 (.step q 2 false), [.deliver q 0], replicate 13 (.step o 2 false)])
      ⟨⟨0, 0, 0, rfl⟩, rfl, rfl, rfl⟩ (by decide +kernel)
  exact ⟨c, s, hr, hphase, hone, (Transport.updates_arrived hr hphase).1, htrue, hfalse⟩

/-- Three ranks, of which the first owns the epoch. -/
def Layout.triple : Layout := ⟨3, by decide, ⟨0, by decide⟩⟩

/-- **Completed without the data.** An EDT on rank 1 writes a DB of rank 2. The reports of rank 1 go
to rank 0, on another connection, and rank 0 goes to `PHASE_3` first. -/
theorem Transport.completed_without_update :
    ∃ (c : Placement .triple Unit) (s : Transport .triple Unit ℕ),
      (Transport.machine c).Reachable s ∧
      (s.sys.node triple.origin).epoch.phase = .phase3 ∧
      ∃ r, (s.released r).length = 1 ∧ s.arrived r = [] ∧
        ∀ u ∈ s.released r, u.payload = some 7 ∧ s.stored u.guid = some 0 := by
  let o : triple.Rank := ⟨0, by decide⟩
  let q : triple.Rank := ⟨1, by decide⟩
  let t : triple.Rank := ⟨2, by decide⟩
  let x := EdtGuid.ofKey 1
  let y := EdtGuid.ofKey 2
  let c : Placement .triple Unit := ⟨1, by decide, fun _ => t, fun _ => 0, fun _ _ => 0⟩
  refine ⟨c, Machine.Reachable.exists_of_exec
    (s := ⟨⟨fun r => .create 0 0 0 (decide (r = triple.origin)), fun _ => 0, fun _ => [],
      ⟨[], [], []⟩⟩, fun _ => [], fun _ => some 0, fun _ => [], fun _ => []⟩)
    (r := flatten [[.activate o x, .activate o y, .enqueue o x, .enqueue q y,
      .release q ⟨y, (), some 7⟩, .finish q y], replicate 3 (.step q 0 false),
      [.finish o x], replicate 6 (.step o 0 false), [.deliver o 0, .deliver o 0],
      replicate 5 (.step q 1 false), replicate 5 (.step t 0 false), [.deliver q 1],
      replicate 5 (.step o 1 false), [.deliver t 0], replicate 18 (.step o 2 false),
      [.deliver o 0, .deliver o 0], replicate 5 (.step q 2 false),
      replicate 5 (.step t 1 false), [.deliver q 1], replicate 5 (.step o 3 false),
      [.deliver t 0], replicate 13 (.step o 4 false)])
    ⟨⟨0, 0, 0, rfl⟩, rfl, rfl, rfl⟩ (by decide +kernel)⟩

end Arts
