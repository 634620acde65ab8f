import Arts.Event.Mirror

/-!
# Sticky and idempotent events lose and duplicate nothing

When the event has fired and all calls have returned, each dependent was signalled exactly once
(`signalled_exactly_once`).
-/

namespace Arts

open List Option EventCall

namespace EventCall

def waiter (c : EventCall) : Option (Dependent × ℕ) := c.seat.map fun x => (x.2.1, x.1)

lemma waiter_register {d : Dependent} {pc : RegisterPc} :
    waiter (.register d pc) = pc.position.map fun p => (d, p) := by
  cases hp : pc.position <;> simp [waiter, seat, hp]

lemma map_snd_waiter (c : EventCall) : c.waiter.map Prod.snd = c.position := by
  cases c with
  | register d pc => cases hp : pc.position <;> simp [waiter_register, position]
  | satisfy slot data pc => rfl

lemma map_fst_waiter {c : EventCall} (hc : c.isDone = true) :
    c.waiter.map Prod.fst = c.dependent := by
  cases c with
  | register d pc =>
    cases pc with
    | done p b => rfl
    | _ => cases hc
  | satisfy slot data pc => rfl

lemma owns_of_isDone {c : EventCall} (hc : c.isDone = true) : c.owns = 0 := by
  cases c with
  | register d pc => rfl
  | satisfy slot data pc =>
    cases pc with
    | done => rfl
    | _ => cases hc

end EventCall

namespace Plain

variable {s : Plain} {h : Handoff Dependent}

lemma Mirrors.waiters_perm (hm : s.Mirrors h) (ht : s.Table) :
    (s.calls.filterMap waiter).Perm h.order.zipIdx := by
  have hnd : (s.calls.filterMap waiter).Nodup := by
    refine List.Nodup.of_map Prod.snd ?_
    rw [map_filterMap, filterMap_congr fun c _ => c.map_snd_waiter]
    exact ht.positions.nodup_iff.2 nodup_range
  rw [perm_ext_iff_of_nodup hnd (nodup_zipIdx_map_snd h.order).of_map]
  rintro ⟨d, p⟩
  rw [mem_zipIdx_iff_getElem?, mem_filterMap]
  constructor
  · rintro ⟨c, hc, hw⟩
    obtain ⟨⟨p', d', b⟩, hseat, heq⟩ := map_eq_some_iff.1 hw
    cases heq
    exact (hm.seated c hc p' d' b hseat).1
  · intro hd
    have hp : p < s.event.dependentCount.toNat :=
      hm.count ▸ (List.getElem?_eq_some_iff.1 hd).1
    obtain ⟨d', pc, hc, hpos⟩ := ht.exists_holds hp
    have hd' := (hm.seated _ hc p d' pc.decision (by simp [seat, hpos])).1
    obtain rfl : d = d' := some.inj (hd.symm.trans hd')
    exact ⟨_, hc, by simp [waiter_register, hpos]⟩

lemma Mirrors.all_decided (hm : s.Mirrors h) (ht : s.Table)
    (hdone : ∀ c ∈ s.calls, c.isDone = true) {p : ℕ} (hp : p < h.order.length) :
    h.decided p ≠ none := by
  obtain ⟨d, pc, hc, hpos⟩ := ht.exists_holds (hm.count.symm ▸ hp)
  have hdec := (hm.seated _ hc p d pc.decision (by simp [seat, hpos])).2
  rw [hdec]
  cases pc with
  | done q b => exact some_ne_none b
  | _ => cases hdone _ hc

lemma Mirrors.loop_through (hm : s.Mirrors h) (hfired : s.event.fired = true)
    (hdone : ∀ c ∈ s.calls, c.isDone = true) : h.bound = some h.served :=
  hm.through (hm.fired ▸ hfired)
    (weight_eq_zero.2 fun c hc => owns_of_isDone (hdone c hc))

end Plain

/-- **Sticky and idempotent events lose and duplicate nothing.** -/
theorem signalled_exactly_once {type : EventType} (htype : type = .sticky ∨ type = .idem)
    {s : Plain} (hr : (Plain.machine type).Reachable s) (hfired : s.event.fired = true)
    (hdone : ∀ c ∈ s.calls, c.isDone = true) :
    (s.log.map Delivery.dependent).Perm (s.calls.filterMap dependent) := by
  have hnl : ¬ s.Lost := by
    rintro ⟨c, hc, hlost⟩
    simpa [hlost.not_done] using hdone c hc
  obtain ⟨h, hrh, hm⟩ := (Plain.mirrors_of_reachable htype hr).resolve_left hnl
  have ht := (Plain.Table.of_reachable hr).resolve_left hnl
  have hlog : s.log.map Delivery.dependent = h.log.map Prod.fst := by
    rw [← hm.log, List.map_map]
    rfl
  have hcalls : s.calls.filterMap dependent =
      (s.calls.filterMap waiter).map Prod.fst := by
    rw [map_filterMap]
    exact filterMap_congr fun c hc => (map_fst_waiter (hdone c hc)).symm
  rw [hlog, hcalls]
  exact ((Handoff.perm_of_complete hrh (hm.loop_through hfired hdone)
    fun p hp => hm.all_decided ht hdone hp).trans (hm.waiters_perm ht).symm).map _

/-- Six dependents: the fifth one needs a second list and is written while the fire loop waits for
it, and the sixth one comes too late for the loop. -/
def sixDependents : List EventAct := flatten [
  [.register (.edt 1 0 0 0), .register (.edt 2 0 0 0), .register (.edt 2 1 0 0),
    .register (.event 3 0), .register (.callback 0), .register (.edt 4 0 0 0),
    .satisfy latchDecrSlot 7],
  replicate 5 (.step 0), replicate 5 (.step 1), replicate 5 (.step 2),
  replicate 5 (.step 3), [.step 4], replicate 5 (.step 6), [.step 5],
  replicate 7 (.step 4), replicate 14 (.step 6), replicate 2 (.step 4),
  replicate 9 (.step 5)]

theorem signalled_exactly_once_six : ∃ s, (Plain.machine .sticky).Reachable s ∧
    s.calls.filterMap dependent = [.edt 1 0 0 0, .edt 2 0 0 0, .edt 2 1 0 0, .event 3 0,
      .callback 0, .edt 4 0 0 0] ∧
    (s.log.map Delivery.dependent).Perm (s.calls.filterMap dependent) := by
  have hinit : (Plain.machine .sticky).init (Plain.create .sticky 0) := ⟨0, rfl⟩
  obtain ⟨s, hr, hfired, hdone, hcalls⟩ := Machine.Reachable.exists_of_exec
    (P := fun s => s.event.fired = true ∧ (∀ c ∈ s.calls, c.isDone = true) ∧
      s.calls.filterMap dependent = [.edt 1 0 0 0, .edt 2 0 0 0, .edt 2 1 0 0,
        .event 3 0, .callback 0, .edt 4 0 0 0])
    hinit (r := sixDependents) (by decide +kernel)
  exact ⟨s, hr, hcalls, signalled_exactly_once (.inl rfl) hr hfired hdone⟩

end Arts
