import Arts.Db.ListSteps

/-!
# The first access to a drained frontier list

With the condition `ListRun.Calm` every call is served (`ListRun.first_access_served`). Without it
an access can be lost, as `head` is not tested again under the lock.
-/

namespace Arts

open List Option

/-! ### Who writes -/

/-- What keeps the writers of a frontier apart. -/
structure Seal where
  locked : Bool
  writeSet : Bool
  localWriteEdt : Option EdtGuid

/-- The seal of a frontier. -/
def FrontierNode.seal (ν : FrontierNode) : Seal :=
  ⟨ν.locked, ν.frontier.writeSet, ν.frontier.localWriteEdt⟩

/-- The seals of the frontiers. -/
def DbList.seals (d : DbList) : List Seal := d.nodes.map FrontierNode.seal

/-- A call has written an access for the EDT into the frontier. -/
def Wrote (cs : List ListCall) (n : ℕ) (edt : Option EdtGuid) : Prop :=
  ∃ c ∈ cs, c.node = some n ∧ c.op.isWrite = true ∧ c.op.edt = edt

/-- Every frontier has the accesses of at most one writer. -/
structure Writes (ks : List Seal) (cs : List ListCall) : Prop where
  /-- A call that inserts has the lock of the frontier, and if it writes it is the first one. -/
  inserting : ∀ c ∈ cs, ∀ n b, c.pc = .insert n b → ∃ k, ks[n]? = some k ∧ k.locked = true ∧
    (c.op.isWrite = true → k.writeSet = true ∧ k.localWriteEdt = none ∧ ∀ e, ¬ Wrote cs n e)
  single : ∀ (i j : ℕ) (c c' : ListCall) (n : ℕ) (b b' : Bool), cs[i]? = some c →
    cs[j]? = some c' → c.pc = .insert n b → c'.pc = .insert n b' → i = j
  noted : ∀ n e, Wrote cs n e → ∃ k, ks[n]? = some k ∧ k.writeSet = true ∧
    ∀ e', k.localWriteEdt = some e' → e = some e'
  same : ∀ n e e', Wrote cs n e → Wrote cs n e' → e = e'
  unsealed : ∀ k ∈ ks, k.writeSet = false → k.localWriteEdt = none

namespace Writes

variable {ks ks' : List Seal} {cs : List ListCall} {i n : ℕ} {c c' : ListCall} {b : Bool}

variable {e : Option EdtGuid}

lemma wrote_set (hi : cs[i]? = some c) (hop : c'.op = c.op)
    (hnode : c'.node = c.node) (h : Wrote (cs.set i c') n e) : Wrote cs n e := by
  obtain ⟨x, hx, hn, hw, he⟩ := h
  rcases mem_or_eq_of_mem_set hx with hx | rfl
  · exact ⟨x, hx, hn, hw, he⟩
  · exact ⟨c, mem_of_getElem? hi, hnode ▸ hn, hop ▸ hw, hop ▸ he⟩

lemma wrote_append (hnode : c.node = none) (h : Wrote (cs ++ [c]) n e) : Wrote cs n e := by
  obtain ⟨x, hx, hn, hw, he⟩ := h
  rcases mem_append.1 hx with hx | hx
  · exact ⟨x, hx, hn, hw, he⟩
  · obtain rfl := mem_singleton.1 hx
    rw [hnode] at hn
    cases hn

lemma start (h : Writes ks cs) (hnode : c.node = none) (hpc : ∀ n b, c.pc ≠ .insert n b) :
    Writes ks (cs ++ [c]) where
  inserting := forall_mem_append_singleton
    (fun x hx n b hp => by
      obtain ⟨k, hk, hl, hw⟩ := h.inserting x hx n b hp
      exact ⟨k, hk, hl, fun hx => ⟨(hw hx).1, (hw hx).2.1,
        fun e he => (hw hx).2.2 e (wrote_append hnode he)⟩⟩)
    fun n b hp => absurd hp (hpc n b)
  single i j x x' n b b' hi hj hp hp' := by
    have old : ∀ {i : ℕ} {x : ListCall} {b : Bool}, (cs ++ [c])[i]? = some x →
        x.pc = .insert n b → cs[i]? = some x := by
      intro i x b hi hp
      rw [getElem?_append] at hi
      split at hi
      · exact hi
      · obtain rfl := mem_singleton.1 (mem_of_getElem? hi)
        exact absurd hp (hpc n b)
    exact h.single i j x x' n b b' (old hi hp) (old hj hp') hp hp'
  noted n e he := h.noted n e (wrote_append hnode he)
  same n e e' he he' := h.same n e e' (wrote_append hnode he) (wrote_append hnode he')
  unsealed := h.unsealed

lemma goOn (h : Writes ks cs) (hi : cs[i]? = some c) (hop : c'.op = c.op)
    (hnode : c'.node = c.node) (hpc : ∀ n b, c'.pc ≠ .insert n b)
    (hks : ∀ (n : ℕ) k, ks[n]? = some k → ks'[n]? = some k)
    (hnew : ∀ k ∈ ks', k ∈ ks ∨ k.localWriteEdt = none) : Writes ks' (cs.set i c') where
  inserting := forall_mem_set
    (fun x hx n b hp => by
      obtain ⟨k, hk, hl, hw⟩ := h.inserting x hx n b hp
      exact ⟨k, hks n k hk, hl, fun hx => ⟨(hw hx).1, (hw hx).2.1,
        fun e he => (hw hx).2.2 e (wrote_set hi hop hnode he)⟩⟩)
    fun n b hp => absurd hp (hpc n b)
  single j j' x x' n b b' hj hj' hp hp' := by
    have old : ∀ {j : ℕ} {x : ListCall} {b : Bool}, (cs.set i c')[j]? = some x →
        x.pc = .insert n b → cs[j]? = some x := by
      intro j x b hj hp
      rcases getElem?_set_cases hj with ⟨-, rfl⟩ | ⟨-, hj⟩
      · exact absurd hp (hpc n b)
      · exact hj
    exact h.single j j' x x' n b b' (old hj hp) (old hj' hp') hp hp'
  noted n e he := by
    obtain ⟨k, hk, hw⟩ := h.noted n e (wrote_set hi hop hnode he)
    exact ⟨k, hks n k hk, hw⟩
  same n e e' he he' :=
    h.same n e e' (wrote_set hi hop hnode he) (wrote_set hi hop hnode he')
  unsealed k hk hw := (hnew k hk).elim (fun hk => h.unsealed k hk hw) id

lemma lock (h : Writes ks cs) (hi : cs[i]? = some c) (hop : c'.op = c.op)
    (hnode : c'.node = c.node) (hpc : c'.pc = .insert n b) {k : Seal} (hk : ks[n]? = some k)
    (hl : k.locked = false) (hs : k.writeSet = false) :
    Writes (ks.set n ⟨true, c.op.isWrite, k.localWriteEdt⟩) (cs.set i c') := by
  have hlt := (List.getElem?_eq_some_iff.1 hk).1
  have hnone := h.unsealed k (mem_of_getElem? hk) hs
  have hfree : ∀ e, ¬ Wrote cs n e := by
    intro e he
    obtain ⟨k', hk', hw, -⟩ := h.noted n e he
    obtain rfl := some.inj (hk.symm.trans hk')
    rw [hs] at hw
    cases hw
  have hidle : ∀ x ∈ cs, ∀ m b', x.pc = .insert m b' → m ≠ n := by
    rintro x hx m b' hp rfl
    obtain ⟨k', hk', hl', -⟩ := h.inserting x hx m b' hp
    obtain rfl := some.inj (hk.symm.trans hk')
    rw [hl] at hl'
    cases hl'
  refine ⟨forall_mem_set (fun x hx m b' hp => ?_) (fun m b' hp => ?_),
    fun j j' x x' m b₁ b₂ hj hj' hp hp' => ?_, fun m e he => ?_, fun m e e' he he' => ?_,
    fun k' hk' hw' => ?_⟩
  · obtain ⟨k', hk', hl', hw⟩ := h.inserting x hx m b' hp
    refine ⟨k', by rwa [getElem?_set_ne (hidle x hx m b' hp).symm], hl', fun hx => ?_⟩
    exact ⟨(hw hx).1, (hw hx).2.1, fun e he => (hw hx).2.2 e (wrote_set hi hop hnode he)⟩
  · obtain ⟨rfl, rfl⟩ := ListPc.insert.inj (hpc.symm.trans hp)
    refine ⟨_, getElem?_set_self hlt, rfl, fun hw => ⟨hop ▸ hw, hnone, fun e he => ?_⟩⟩
    exact hfree e (wrote_set hi hop hnode he)
  · rcases getElem?_set_cases hj with ⟨rfl, rfl⟩ | ⟨-, hold⟩ <;>
      rcases getElem?_set_cases hj' with ⟨rfl, rfl⟩ | ⟨-, hold'⟩
    · rfl
    · obtain ⟨rfl, rfl⟩ := ListPc.insert.inj (hpc.symm.trans hp)
      exact absurd rfl (hidle x' (mem_of_getElem? hold') _ _ hp')
    · obtain ⟨rfl, rfl⟩ := ListPc.insert.inj (hpc.symm.trans hp')
      exact absurd rfl (hidle x (mem_of_getElem? hold) _ _ hp)
    · exact h.single j j' x x' m b₁ b₂ hold hold' hp hp'
  · have he := wrote_set hi hop hnode he
    have hne : n ≠ m := by
      rintro rfl
      exact hfree e he
    rw [getElem?_set_ne hne]
    exact h.noted m e he
  · exact h.same m e e' (wrote_set hi hop hnode he) (wrote_set hi hop hnode he')
  · rcases mem_or_eq_of_mem_set hk' with hk' | rfl
    · exact h.unsealed k' hk' hw'
    · exact hnone

lemma wrote_accept {m : ℕ} (hop : c'.op = c.op) (hnode : c'.node = some n)
    (h : Wrote (cs.set i c') m e) :
    Wrote cs m e ∨ m = n ∧ c.op.isWrite = true ∧ e = c.op.edt := by
  obtain ⟨x, hx, hn, hw, he⟩ := h
  rcases mem_or_eq_of_mem_set hx with hx | rfl
  · exact .inl ⟨x, hx, hn, hw, he⟩
  · rw [hnode] at hn
    exact .inr ⟨(some.inj hn).symm, hop ▸ hw, by rw [← he, hop]⟩

/-- A call that has got its access into the frontier `n`, where no other call inserts. If it
writes, the frontier is sealed for its EDT. -/
theorem accept (h : Writes ks cs) (hop : c'.op = c.op) (hnode : c'.node = some n)
    (hpc : ∀ n b, c'.pc ≠ .insert n b)
    (hidle : ∀ j x b, i ≠ j → cs[j]? = some x → x.pc ≠ .insert n b)
    (hks : ∀ m, m ≠ n → ks'[m]? = ks[m]?) (hunsealed : ∀ k ∈ ks', k.writeSet = false →
      k.localWriteEdt = none)
    (hnoted : ∀ e, Wrote cs n e → ∃ k, ks'[n]? = some k ∧ k.writeSet = true ∧
      ∀ e', k.localWriteEdt = some e' → e = some e')
    (hwrite : c.op.isWrite = true → (∃ k, ks'[n]? = some k ∧ k.writeSet = true ∧
      ∀ e', k.localWriteEdt = some e' → c.op.edt = some e') ∧ ∀ e, Wrote cs n e → e = c.op.edt) :
    Writes ks' (cs.set i c') := by
  refine ⟨forall_mem_set_of_ne (fun m b' hp => absurd hp (hpc m b'))
      fun j x hne hj m b' hp => ?_,
    fun j j' x x' m b₁ b₂ hj hj' hp hp' => ?_, fun m e he => ?_, fun m e e' he he' => ?_, hunsealed⟩
  · have hmn : m ≠ n := by
      rintro rfl
      exact hidle j x b' hne hj hp
    obtain ⟨k, hk, hl, hw⟩ := h.inserting x (mem_of_getElem? hj) m b' hp
    refine ⟨k, (hks m hmn).trans hk, hl, fun hx => ⟨(hw hx).1, (hw hx).2.1, fun e he => ?_⟩⟩
    rcases wrote_accept hop hnode he with he | ⟨rfl, -⟩
    · exact (hw hx).2.2 e he
    · exact hmn rfl
  · have old : ∀ {j : ℕ} {x : ListCall} {b : Bool}, (cs.set i c')[j]? = some x →
        x.pc = .insert m b → cs[j]? = some x := by
      intro j x b hj hp
      rcases getElem?_set_cases hj with ⟨-, rfl⟩ | ⟨-, hj⟩
      · exact absurd hp (hpc m b)
      · exact hj
    exact h.single j j' x x' m b₁ b₂ (old hj hp) (old hj' hp') hp hp'
  · rcases wrote_accept hop hnode he with he | ⟨rfl, hw, rfl⟩
    · by_cases hmn : m = n
      · subst hmn
        exact hnoted e he
      · rw [hks m hmn]
        exact h.noted m e he
    · exact (hwrite hw).1
  · rcases wrote_accept hop hnode he with he | ⟨rfl, hw, rfl⟩ <;>
      rcases wrote_accept hop hnode he' with he' | ⟨hmn, hw', rfl⟩
    · exact h.same m e e' he he'
    · exact (hwrite hw').2 e (hmn ▸ he)
    · exact ((hwrite hw).2 e' he').symm
    · rfl

end Writes

@[simp] lemma ListOp.insert_writeSet (op : ListOp) (b : Bool) (ν : FrontierNode) :
    (op.insert b ν).seal.writeSet = ν.seal.writeSet := by
  cases op <;> rfl

@[simp] lemma ListOp.insert_localWriteEdt (op : ListOp) (b : Bool) (ν : FrontierNode) :
    (op.insert b ν).seal.localWriteEdt =
      if op.isWrite && op.isLocal then op.edt else ν.seal.localWriteEdt := by
  cases op <;> rfl

lemma ListOp.delay_seal (op : ListOp) (ν : FrontierNode) : (op.delay ν).seal = ν.seal := by
  cases op with
  | push q =>
    simp only [ListOp.delay]
    unfold Frontier.delay
    split
    · split <;> rfl
    · rfl
  | _ => rfl

namespace DbList

variable {d d' : DbList} {c' : ListCall} {cs : List ListCall} {i : ℕ}

lemma seals_setNode (d : DbList) (n : ℕ) (ν : FrontierNode) :
    (d.setNode n ν).seals = d.seals.set n ν.seal := by
  simp [seals, setNode]

variable {n : ℕ} {ν : FrontierNode}

lemma seals_of_getElem? (h : d.nodes[n]? = some ν) : d.seals[n]? = some ν.seal := by
  simp [seals, h]

lemma seals_set_of_eq {ν' : FrontierNode} (h : d.nodes[n]? = some ν) (hs : ν'.seal = ν.seal) :
    (d.nodes.set n ν').map FrontierNode.seal = d.seals := by
  obtain ⟨hlt, rfl⟩ := List.getElem?_eq_some_iff.1 h
  rw [map_set, hs, ← map_set, set_getElem_self]
  rfl

variable {ks : List Seal}

lemma getElem?_append_of_some (k : Seal) (n : ℕ) (x : Seal)
    (h : ks[n]? = some x) : (ks ++ [k])[n]? = some x := by
  rw [List.getElem?_append_left (List.getElem?_eq_some_iff.1 h).1]
  exact h

lemma localWriteEdt_of_mem_append :
    ∀ k ∈ ks ++ [FrontierNode.seal {}], k ∈ ks ∨ k.localWriteEdt = none := by
  intro k hk
  rcases mem_append.1 hk with hk | hk
  · exact .inl hk
  · rw [mem_singleton.1 hk]
    exact .inr rfl

lemma Steps.writes {op : ListOp} {node : Option ℕ} {onHead : Bool} {pc : ListPc}
    (h : d.Steps op node onHead pc d' c') (hw : Writes d.seals cs)
    (hi : cs[i]? = some ⟨op, pc, node, onHead⟩) : Writes d'.seals (cs.set i c') := by
  have hmem := mem_of_getElem? hi
  cases h with
  | stores =>
    refine hw.goOn hi rfl rfl (by simp) (fun n k hk => ?_) (fun k hk => ?_)
    · simpa [seals] using getElem?_append_of_some (FrontierNode.seal {}) n k hk
    · exact localWriteEdt_of_mem_append k (by simpa [seals] using hk)
  | @links n ν hν hn =>
    have hsame :
        (d.nodes.set n { ν with next := some d.nodes.length }).map FrontierNode.seal = d.seals :=
      seals_set_of_eq hν rfl
    refine hw.goOn hi rfl rfl (by simp) (fun n k hk => ?_) (fun k hk => ?_)
    · rw [seals, map_append, hsame]
      exact getElem?_append_of_some (FrontierNode.seal {}) n k hk
    · rw [seals, map_append, hsame] at hk
      exact localWriteEdt_of_mem_append k hk
  | delays hν hl =>
    refine hw.goOn hi rfl rfl (by simp) (fun n k hk => ?_) (fun k hk => ?_)
    · rw [seals, setNode, seals_set_of_eq hν (op.delay_seal _)]
      exact hk
    · rw [seals, setNode, seals_set_of_eq hν (op.delay_seal _)] at hk
      exact .inl hk
  | refused hν hs =>
    refine hw.goOn hi rfl rfl (fun n b => ?_) (fun _ _ hk => hk) (fun _ hk => .inl hk)
    split <;> simp
  | locks hν hs hl =>
    rw [seals_setNode]
    exact hw.lock hi (by rfl) (by rfl) (by rfl) (seals_of_getElem? hν) hl hs
  | @inserts n b ν hν =>
    obtain ⟨k, hk, hlocked, hwrite⟩ := hw.inserting _ hmem n b rfl
    obtain rfl : k = ν.seal := some.inj (hk.symm.trans (seals_of_getElem? hν))
    have hlt := (List.getElem?_eq_some_iff.1 hk).1
    have hself := getElem?_set_self (a := (op.insert b ν).seal) hlt
    rw [seals_setNode]
    refine hw.accept rfl rfl (fun m b' => ?_) (fun j x b' hne hj hp => ?_)
      (fun m hm => getElem?_set_ne hm.symm) (fun k' hk' hs => ?_) (fun e he => ?_)
      fun hop => ⟨⟨_, hself, by simpa using (hwrite hop).1, fun e he => ?_⟩,
        fun e he => absurd he ((hwrite hop).2.2 e)⟩
    · split <;> simp
    · exact hne (hw.single i j _ _ n b b' hi hj rfl hp)
    · rcases mem_or_eq_of_mem_set hk' with hk' | rfl
      · exact hw.unsealed k' hk' hs
      · have hs : ν.seal.writeSet = false := by simpa using hs
        have hop : op.isWrite = false := by
          by_contra hop
          rw [(hwrite (by simpa using hop)).1] at hs
          cases hs
        simpa [hop] using hw.unsealed _ (mem_of_getElem? hk) hs
    · have hop : op.isWrite = false := by
        by_contra hop
        exact (hwrite (by simpa using hop)).2.2 e he
      obtain ⟨k, hk', hset, hedt⟩ := hw.noted n e he
      obtain rfl := some.inj (hk.symm.trans hk')
      exact ⟨_, hself, by simpa using hset, by simpa [hop] using hedt⟩
    · rw [ListOp.insert_localWriteEdt, (hwrite hop).2.1] at he
      split at he
      · exact he
      · cases he
  | @joins n b ν hν hl hs =>
    have hk := seals_of_getElem? hν
    obtain ⟨hsome, hedt⟩ : op.edt.isSome = true ∧ ν.seal.localWriteEdt = op.edt := by
      simpa [Frontier.sameLocalWriter, FrontierNode.seal] using hs
    have hset : ν.seal.writeSet = true := by
      by_contra hset
      have := hw.unsealed _ (mem_of_getElem? hk) (by simpa using hset)
      rw [hedt] at this
      simp [this] at hsome
    refine hw.accept rfl rfl (fun m b' => ?_) (fun j x b' _ hj hp => ?_) (fun _ _ => rfl)
      hw.unsealed (hw.noted n) fun _ => ⟨⟨_, hk, hset, fun e he => hedt.symm.trans he⟩,
        fun e he => ?_⟩
    · split <;> simp
    · obtain ⟨k, hk', hlocked, -⟩ := hw.inserting x (mem_of_getElem? hj) n b' hp
      obtain rfl := some.inj (hk.symm.trans hk')
      exact absurd (hl.symm.trans hlocked) (by simp)
    · obtain ⟨k, hk', -, he⟩ := hw.noted n e he
      obtain rfl := some.inj (hk.symm.trans hk')
      obtain ⟨w, hw⟩ := isSome_iff_exists.1 hsome
      rw [he w (hedt.trans hw), hw]
  | _ => exact hw.goOn hi rfl rfl (by simp) (fun _ _ hk => hk) (fun _ hk => .inl hk)

end DbList

namespace ListRun

/-- **The steps that do no harm.**  A call tries the lock while the list is still drained and
unlocked, or finds it locked by a call that has stored a head; and the last frontier is removed only
while no call relies on it. -/
def Calm (s : ListRun) : Act → Prop
  | .call _ => True
  | .step i => ∀ c ∈ s.calls[i]?,
      (c.pc = .tryLock → (s.list.words.writer = true ↔ s.list.head ≠ none)) ∧
      (c.pc = .pop → s.list.head.bind (fun h => s.list.nodes[h]?.bind FrontierNode.next) = none →
        ∀ x ∈ s.calls, x.pc.engaged = false)

instance (s : ListRun) (l : Act) : Decidable (s.Calm l) := by
  cases l <;> unfold Calm <;> infer_instance

structure Inv (s : ListRun) : Prop where
  lock : Lock.Consistent s.list.words (s.calls.map fun c => c.pc.phase)
  valid : s.list.Valid
  storing : ∀ c ∈ s.calls, c.pc.storing = true → s.list.head = none
  engaged : ∀ c ∈ s.calls, c.pc.engaged = true → s.list.head ≠ none
  position : ∀ c ∈ s.calls, s.list.Position c.pc
  registered : ∀ c ∈ s.calls, s.list.Registered c
  writes : Writes s.list.seals s.calls

namespace Inv

variable {s s' : ListRun}

lemma init : Inv ⟨⟨none, ⟨0, false⟩, [], []⟩, []⟩ where
  lock := ⟨rfl, rfl, by simp⟩
  valid := ⟨by simp, by simp [DbList.Next]⟩
  storing := by simp
  engaged := by simp
  position := by simp
  registered := by simp
  writes := ⟨by simp, by simp, by simp [Wrote], by simp [Wrote], by simp [DbList.seals]⟩

lemma call (h : Inv s) (op : ListOp) : Inv { s with calls := s.calls ++ [.start op] } where
  lock := by
    have := h.lock.start
    cases op <;> simpa [ListCall.start, ListPc.phase] using this
  valid := h.valid
  storing := forall_mem_append_singleton h.storing
    (by cases op <;> simp [ListCall.start, ListPc.storing])
  engaged := forall_mem_append_singleton h.engaged
    (by cases op <;> simp [ListCall.start, ListPc.engaged])
  position := forall_mem_append_singleton h.position (by cases op <;> trivial)
  registered := forall_mem_append_singleton h.registered (by
    cases op <;> constructor <;> simp [ListCall.start, ListPc.progressing, ListPc.accepted])
  writes := h.writes.start rfl (by cases op <;> simp [ListCall.start])

section Step

variable {i : ℕ} {c c' : ListCall} {d' : DbList}

variable {j : ℕ} {x : ListCall}

/-- Only one call has the list locked, so that the others are not in the middle of it. -/
theorem phase_of_ne (h : Inv s) (hi : s.calls[i]? = some c) (hc : c.pc.phase = .writing) (hne : i ≠ j) (hj : s.calls[j]? = some x) :
    x.pc.phase ≠ .reading ∧ x.pc.phase.writers = 0 := by
  have hi' : (s.calls.map fun c => c.pc.phase)[i]? = some c.pc.phase := by simp [hi]
  have hj' : (s.calls.map fun c => c.pc.phase)[j]? = some x.pc.phase := by simp [hj]
  refine ⟨fun hr => ?_, h.lock.writers_eq_zero hi' (by rw [hc]; rfl) hne hj'⟩
  rw [hc] at hi'
  rw [hr] at hj'
  exact h.lock.excl (mem_of_getElem? hi') (mem_of_getElem? hj')

lemma storing_of_ne (h : Inv s) (hi : s.calls[i]? = some c) (hch : s.list.Change c.pc d') (hne : i ≠ j) (hj : s.calls[j]? = some x) (hx : x.pc.storing = true) :
    d'.head = none := by
  have hw : x.pc.phase.writers ≠ 0 := by
    generalize x.pc = pc at hx
    cases pc <;> simp [ListPc.storing, ListPc.phase, Lock.Phase.writers] at hx ⊢
  obtain ⟨op, pc, node, onHead⟩ := c
  cases hch with
  | store | pop => exact absurd (h.phase_of_ne hi rfl hne hj).2 hw
  | grow hg => exact hg.head.trans (h.storing x (mem_of_getElem? hj) hx)

lemma position_of_ne (h : Inv s) (hi : s.calls[i]? = some c) (hch : s.list.Change c.pc d') (hne : i ≠ j) (hj : s.calls[j]? = some x) : d'.Position x.pc := by
  obtain ⟨op, pc, node, onHead⟩ := c
  cases hch with
  | store | pop => exact DbList.position_of_phase_ne (h.phase_of_ne hi rfl hne hj).1
  | grow hg => exact (h.position x (mem_of_getElem? hj)).mono hg

lemma registered_of_change (h : Inv s) (hi : s.calls[i]? = some c)
    (hch : s.list.Change c.pc d') : ∀ x ∈ s.calls, d'.Registered x := by
  intro x hx
  have hc := h.storing c (mem_of_getElem? hi)
  obtain ⟨op, pc, node, onHead⟩ := c
  cases hch with
  | store => exact (h.registered x hx).store (hc rfl)
  | pop hh => exact (h.registered x hx).pop hh
  | grow hg => exact (h.registered x hx).mono hg

lemma engaged_of_change (h : Inv s) (hi : s.calls[i]? = some c) (hch : s.list.Change c.pc d')
    (hcalm : s.Calm (.step i)) : ∀ x ∈ s.calls, x.pc.engaged = true → d'.head ≠ none := by
  intro x hx hp
  have hc := (hcalm c hi).2
  obtain ⟨op, pc, node, onHead⟩ := c
  cases hch with
  | store => exact some_ne_none _
  | pop hh =>
    intro hn
    have := hc rfl (by rw [hh]; exact hn) x hx
    rw [hp] at this
    cases this
  | grow hg => exact hg.head ▸ h.engaged x hx hp

lemma engaged_mover (h : Inv s) (hi : s.calls[i]? = some c)
    (hst : s.list.Steps c.op c.node c.onHead c.pc d' c') (hcalm : s.Calm (.step i))
    (hp : c'.pc.engaged = true) : d'.head ≠ none := by
  have hold := h.engaged c (mem_of_getElem? hi)
  have htry := (hcalm c hi).1
  obtain ⟨op, pc, node, onHead⟩ := c
  cases hst with
  | findHead hh => exact hh
  | tryFails hw => exact (htry rfl).1 hw
  | stores => exact some_ne_none _
  | findNull | trySets | awaited | leaves | sets | drains | popsNull | pops | releases => cases hp
  | _ => exact hold rfl

lemma storing_mover (h : Inv s) (hi : s.calls[i]? = some c)
    (hst : s.list.Steps c.op c.node c.onHead c.pc d' c') (hcalm : s.Calm (.step i))
    (hp : c'.pc.storing = true) : d'.head = none := by
  have hold := h.storing c (mem_of_getElem? hi)
  have htry := (hcalm c hi).1
  obtain ⟨op, pc, node, onHead⟩ := c
  cases hst with
  | trySets hw =>
    by_contra hh
    have := (htry rfl).2 hh
    rw [hw] at this
    cases this
  | awaited => exact hold rfl
  | refused | inserts | joins =>
    split at hp <;> cases hp
  | _ => cases hp

/-- **Every calm step keeps the invariant.** -/
theorem step (h : Inv s) (hi : s.calls[i]? = some c) (hst : s.list.step c = some (d', c'))
    (hcalm : s.Calm (.step i)) : Inv ⟨d', s.calls.set i c'⟩ := by
  have hst := DbList.steps_of_step hst
  have hmem := mem_of_getElem? hi
  have hch := hst.change
  exact
    { lock := by
        rw [map_set]
        exact h.lock.move (by simp [hi]) hst.move
      valid := hst.valid h.valid
      storing := forall_mem_set_of_ne (h.storing_mover hi hst hcalm)
        fun _ _ hne hj => h.storing_of_ne hi hch hne hj
      engaged := forall_mem_set (h.engaged_of_change hi hch hcalm) (h.engaged_mover hi hst hcalm)
      position := forall_mem_set_of_ne (hst.position h.valid (h.position c hmem))
        fun _ _ hne hj => h.position_of_ne hi hch hne hj
      registered := forall_mem_set (h.registered_of_change hi hch)
        (hst.registered (h.position c hmem) (h.storing c hmem) (h.engaged c hmem)
          (h.registered c hmem))
      writes := hst.writes h.writes hi }

end Step

lemma next (h : Inv s) {l : Act} (hcalm : s.Calm l) (hst : s.next l = some s') : Inv s' := by
  cases l with
  | call op =>
    cases hst
    exact h.call op
  | step i =>
    obtain ⟨c, hi, hst⟩ := bind_eq_some_iff.1 hst
    obtain ⟨r, hr, rfl⟩ := map_eq_some_iff.1 hst
    exact h.step hi hr hcalm

lemma served (h : Inv s) : s.Served where
  accepted c hc hp := (h.registered c hc).accepted (by rw [hp]; rfl)
  registered c hc := (h.registered c hc).reach
  writer m _ c hc c' hc' hn hn' hw hw' :=
    h.writes.same m _ _ ⟨c, hc, hn, hw, rfl⟩ ⟨c', hc', hn', hw', rfl⟩

end Inv

/-- **In every run of calm steps** every call that has returned was accepted, an accepted access is
granted or in a frontier that can be reached, and at most one EDT writes in the head. -/
theorem first_access_served {s : ListRun} (h : (machine.restrict Calm).Reachable s) : s.Served := by
  refine Inv.served (h.invariant ?_ fun s l s' _ hs hst => ?_)
  · rintro s rfl
    exact Inv.init
  · obtain ⟨hcalm, hst⟩ := Machine.restrict_next.1 hst
    exact hs.next hcalm hst

/-- An access of an EDT of rank 0 to its own datablock. -/
def localAccess (edt : EdtGuid) (mode : AccessMode) : ListOp :=
  .push (.duplicate 0 0 (some edt) 0 mode 0)

/-- The EDT 1 finds the list drained and writes; the EDT 2 reads after it. -/
theorem first_access_served_writer_reader : ∃ s, (machine.restrict Calm).Reachable s ∧
    (∃ c ∈ s.calls, c.pc = .done ∧ c.op.isWrite = false ∧ c.node = some 1 ∧ c.onHead = false) ∧
    s.Served :=
  Machine.Reachable.exists_and (r := .call (localAccess (.ofKey 1) .ew) :: .call (localAccess (.ofKey 2) .ro) ::
      (replicate 12 (.step 0) ++ replicate 13 (.step 1)))
    rfl (by decide +kernel) fun _ hr _ => first_access_served hr

/-- Two EDTs find the list drained. The first stores a head and a third EDT waits behind it; then
the second stores another head, and the third cannot be reached any more. -/
theorem first_access_lost : ∃ s, machine.Reachable s ∧ ¬ s.Served := by
  obtain ⟨s, hr, ⟨c, hc, hn, ho⟩, hsig, hhead, hnext⟩ := Machine.Reachable.exists_of_exec
    (M := machine)
    (P := fun s => (∃ c ∈ s.calls, c.node = some 1 ∧ c.onHead = false) ∧ s.list.signalled = [] ∧
      s.list.head = some 2 ∧ s.list.nodes[2]?.bind FrontierNode.next = none)
    (r := [.call (localAccess (.ofKey 1) .ew), .call (localAccess (.ofKey 3) .ro),
        .call (localAccess (.ofKey 2) .ro), .step 1] ++
      (replicate 12 (.step 0) ++ replicate 13 (.step 2) ++ replicate 3 (.step 1)))
    rfl (by decide +kernel)
  refine ⟨s, hr, fun h => ?_⟩
  rcases h.registered c hc 1 hn with ho' | hs | ⟨m, hm, hp⟩
  · exact absurd (ho'.symm.trans ho) (by simp)
  · rw [hsig] at hs
    cases hs
  · obtain rfl : 2 = m := some.inj (hhead.symm.trans hm)
    rcases Relation.ReflTransGen.cases_head hp with h | ⟨k, hk, -⟩
    · cases h
    · rw [bind_eq_some_iff.2 hk] at hnext
      cases hnext

end ListRun

end Arts
