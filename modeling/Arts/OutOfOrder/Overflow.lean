import Arts.OutOfOrder.Replay

/-!
# A count of positions that wraps

After 2^32 adds `count` is 0 again, and the next fire empties the list
(`OoRun.wrapped_count_loses_items`).
-/

namespace Arts

open List

variable {α : Type*}

@[simp] lemma OoPc.item_addFrom (x : α) (pos i : ℕ) : (OoPc.addFrom x pos i).item = some x := by
  unfold OoPc.addFrom
  split_ifs <;> rfl

namespace OoRun

section Last

variable [DecidableEq α] {m m' : OoList α} {c : List (OoPc α)} {p p' : OoPc α} {b : Bool}

lemma leads_last (hst : m.step p = some (m', p')) :
    machine.Leads ⟨m, c ++ [p], b⟩ ⟨m', c ++ [p'], answer b p p'⟩ := by
  refine .of_next (l := .call c.length) ?_
  simp [machine, next, hst]

lemma leads_add {x : α} (hp : p.item = some x) (hp' : p'.item = some x)
    (hst : m.step p = some (m', p')) :
    machine.Leads ⟨m, c ++ [p], b⟩ ⟨m', c ++ [p'], b⟩ := by
  have hans : answer b p p' = b := by
    unfold answer
    split
    · cases hp
    · cases hp'
    · rfl
  have hlast := leads_last (c := c) (b := b) hst
  rwa [hans] at hlast

lemma leads_walk {x : α} {n i k : ℕ} (hik : i ≤ k) (hk : k ≤ n / perElement)
    (hel : k < m.elements) :
    machine.Leads ⟨m, c ++ [.addFrom x n i], b⟩ ⟨m, c ++ [.addFrom x n k], b⟩ := by
  induction hd : k - i generalizing i with
  | zero =>
    obtain rfl : i = k := by omega
    exact .refl _
  | succ d ih =>
    have hfrom : (OoPc.addFrom x n i : OoPc α) = .addWalk x n i := if_pos (by omega)
    have hst : m.step (.addWalk x n i) = some (m, .addFrom x n (i + 1)) :=
      if_pos (by omega)
    rw [hfrom]
    exact (leads_add rfl (OoPc.item_addFrom ..) hst).trans (ih (by omega) (by omega))

lemma leads_position {x : α} (hw : m.writerLock = .free) (hr : m.readerLock = 0)
    (hf : m.isFired = false) :
    machine.Leads ⟨m, c ++ [.addEnter x], b⟩
      ⟨{ m.takePosition x with readerLock := 1 }, c ++ [.addFrom x m.count.toNat 0], b⟩ := by
  have hspin : m.step (.addEnter x) = some (m, .addSpin x) := by simp [OoList.step, hw]
  have hcount : m.step (.addSpin x) = some (m, .addCount x) := by simp [OoList.step, hw]
  have hre : m.step (.addCount x) = some ({ m with readerLock := 1 }, .addRecheck x) := by
    simp [OoList.step, hr]
  have hfired : OoList.step { m with readerLock := 1 } (.addRecheck x) =
      some ({ m with readerLock := 1 }, .addFired x) := by simp [OoList.step, hw]
  have hpos : OoList.step { m with readerLock := 1 } (.addFired x) =
      some ({ m with readerLock := 1 }, .addPosition x) := by simp [OoList.step, hf]
  exact (leads_add rfl rfl hspin).trans <| (leads_add rfl rfl hcount).trans <|
    (leads_add rfl rfl hre).trans <| (leads_add rfl rfl hfired).trans <|
    (leads_add rfl rfl hpos).trans (leads_add rfl (OoPc.item_addFrom ..) rfl)

lemma leads_added {x : α} {n : ℕ} (hr : m.readerLock = 1) (hslot : m.slot n = none) :
    machine.Leads ⟨m, c ++ [.addInsert x n], b⟩
      ⟨{ m.insert n x with readerLock := 0 }, c ++ [.added x true], b⟩ := by
  have hins : m.step (.addInsert x n) = some (m.insert n x, .addUnlock x) := by
    simp [OoList.step, hslot]
  have hun : (m.insert n x).step (.addUnlock x) =
      some ({ m.insert n x with readerLock := 0 }, .added x true) := by
    simp [OoList.step, OoList.insert, hr]
  exact (leads_add rfl rfl hins).trans (leads_add rfl rfl hun)

lemma leads_alloc {x : α} {i : ℕ} (hel : m.elements = i + 1) :
    machine.Leads ⟨m, c ++ [.addFrom x (perElement * (i + 1)) 0], b⟩
      ⟨m.link i, c ++ [.addInsert x (perElement * (i + 1))], b⟩ := by
  have hdiv : perElement * (i + 1) / perElement = i + 1 :=
    Nat.mul_div_cancel_left _ OoList.perElement_pos
  have hmod : perElement * (i + 1) % perElement = 0 := Nat.mul_mod_right _ _
  have hwalk := leads_walk (m := m) (c := c) (b := b) (x := x) (n := perElement * (i + 1))
    (Nat.zero_le i) (by omega) (by omega)
  have hfrom : (OoPc.addFrom x (perElement * (i + 1)) i : OoPc α) =
      .addWalk x (perElement * (i + 1)) i := if_pos (by omega)
  rw [hfrom] at hwalk
  have halloc : m.step (.addWalk x (perElement * (i + 1)) i) =
      some (m, .addAlloc x (perElement * (i + 1)) i) := by
    simp only [OoList.step]
    rw [if_neg (by omega), if_pos ⟨by omega, hmod⟩]
  have hlink : m.step (.addAlloc x (perElement * (i + 1)) i) =
      some (m.link i, .addInsert x (perElement * (i + 1))) := by
    simp [OoList.step, OoPc.addFrom, hdiv]
  exact hwalk.trans ((leads_add rfl rfl halloc).trans (leads_add rfl rfl hlink))

end Last

/-- `n` items have been added one after the other. -/
structure Filled (n : ℕ) (m : OoList ℕ) : Prop where
  readerLock : m.readerLock = 0
  writerLock : m.writerLock = .free
  count : m.count = UInt32.ofNat n
  isFired : m.isFired = false
  elements : m.elements = (n - 1) / perElement + 1
  slot : ∀ k, n ≤ k → m.slot k = none
  fires : m.fires = 0
  positions : m.positions = (range n).map fun x => (0, x)
  replays : m.replays = []

def adds (n : ℕ) : List (OoPc ℕ) := (range n).map fun x => .added x true

variable {n : ℕ} {m : OoList ℕ}

lemma adds_succ (n : ℕ) : adds (n + 1) = adds n ++ [.added n true] := by
  simp [adds, range_succ]

lemma leads_addEnter (n : ℕ) (m : OoList ℕ) :
    machine.Leads ⟨m, adds n, false⟩ ⟨m, adds n ++ [.addEnter n], false⟩ := by
  refine .of_next (l := .add n) ?_
  have hfresh : ∀ p ∈ adds n, p.item ≠ some n := by
    intro p hp hitem
    obtain ⟨x, hx, rfl⟩ := mem_map.1 hp
    cases hitem
    exact absurd (mem_range.1 hx) (Nat.lt_irrefl _)
  exact if_pos hfresh

def taken (m : OoList ℕ) (n : ℕ) : OoList ℕ := { m.takePosition n with readerLock := 1 }

lemma Filled.leads_insert (h : Filled n m) :
    ∃ e slot, e = n / perElement + 1 ∧ (∀ k, n ≤ k → slot k = none) ∧
      machine.Leads ⟨taken m n, adds n ++ [.addFrom n n 0], false⟩
        ⟨{ taken m n with elements := e, slot := slot }, adds n ++ [.addInsert n n], false⟩ := by
  have hel := h.elements
  by_cases hnew : n % perElement = 0 ∧ n ≠ 0
  · obtain ⟨i, hi⟩ : ∃ i, n = perElement * (i + 1) := by
      refine ⟨n / perElement - 1, ?_⟩
      unfold perElement at *
      omega
    have hlen : (taken m n).elements = i + 1 := by
      show m.elements = i + 1
      unfold perElement at *
      omega
    refine ⟨i + 2, fun k => if k / perElement = i + 1 then none else m.slot k, ?_, ?_, ?_⟩
    · unfold perElement at *
      omega
    · intro k hk
      dsimp only
      split_ifs
      · rfl
      · exact h.slot k hk
    · have halloc := leads_alloc (c := adds n) (b := false) (x := n) hlen
      rwa [← hi] at halloc
  · have hlen : n / perElement < m.elements := by
      unfold perElement at *
      omega
    refine ⟨m.elements, m.slot, ?_, h.slot, ?_⟩
    · unfold perElement at *
      omega
    · have hwalk := leads_walk (m := taken m n) (c := adds n) (b := false) (x := n)
        (Nat.zero_le _) le_rfl hlen
      have hfrom : OoPc.addFrom n n (n / perElement) = .addInsert n n := if_neg (by omega)
      rwa [hfrom] at hwalk

lemma Filled.add (h : Filled n m) (hn : n < 2 ^ 32) :
    ∃ m', machine.Leads ⟨m, adds n, false⟩ ⟨m', adds (n + 1), false⟩ ∧ Filled (n + 1) m' := by
  have hcount : m.count.toNat = n := by
    rw [h.count]
    exact Nat.mod_eq_of_lt hn
  have hpos := leads_position (c := adds n) (b := false) (x := n) h.writerLock h.readerLock
    h.isFired
  rw [hcount] at hpos
  obtain ⟨e, slot, he, hslot, hwalk⟩ := h.leads_insert
  have hdone := leads_added (m := { taken m n with elements := e, slot := slot }) (c := adds n)
    (b := false) (x := n) rfl (hslot n le_rfl)
  rw [← adds_succ] at hdone
  refine ⟨_, (leads_addEnter n m).trans (hpos.trans (hwalk.trans hdone)), rfl, h.writerLock, ?_,
    h.isFired, he, ?_, h.fires, ?_, h.replays⟩
  · show m.count + 1 = _
    rw [h.count]
    simp
  · intro k hk
    show Function.update slot n (some n) k = none
    rw [Function.update_of_ne (by omega)]
    exact hslot k (by omega)
  · show m.positions ++ [(m.fires, n)] = _
    rw [h.positions, h.fires, range_succ, map_append]
    rfl

lemma exists_filled (hn : n ≤ 2 ^ 32) :
    ∃ m, machine.Reachable ⟨m, adds n, false⟩ ∧ Filled n m := by
  induction n with
  | zero => exact ⟨{}, .of_init rfl, rfl, rfl, rfl, rfl, rfl, fun _ _ => rfl, rfl, rfl, rfl⟩
  | succ n ih =>
    obtain ⟨m, hr, hm⟩ := ih (by omega)
    obtain ⟨m', hl, hm'⟩ := hm.add (by omega)
    exact ⟨m', hr.leads hl, hm'⟩

lemma leads_fired {c : List (OoPc ℕ)} (hr : m.readerLock = 0) (hw : m.writerLock = .free)
    (hc : m.count = 0) :
    ∃ m', machine.Leads ⟨m, c, false⟩ ⟨m', c ++ [.fired true], true⟩ ∧
      m'.fires = m.fires + 1 ∧ m'.positions = m.positions ∧ m'.replays = m.replays := by
  have htry : m.step (.fireTry 0) = some ({ m with writerLock := .fire }, .fireReaders 0) := by
    simp [OoList.step, hw]
  have hmark : OoList.step { m with writerLock := .fire } (.fireReaders 0) =
      some ({ m with writerLock := .fire }, .fireMark) := by simp [OoList.step, hr]
  have hclear : OoList.step { m with writerLock := .fire, isFired := true } .fireCount =
      some ({ m with writerLock := .fire, isFired := true }, .fireClear 0) := by
    simp [OoList.step, OoPc.fireFrom, hc]
  have hfire : machine.Leads ⟨m, c, false⟩ ⟨m, c ++ [.fireTry 0], false⟩ :=
    .of_next (l := .fire) rfl
  have hlead := hfire.trans <| (leads_last htry).trans <| (leads_last hmark).trans <|
    (leads_last rfl).trans <| (leads_last hclear).trans <| (leads_last rfl).trans <|
    (leads_last rfl).trans (leads_last rfl)
  exact ⟨_, hlead, rfl, rfl, rfl⟩

/-- **Accepted items that no fire replays**: after 2^32 adds `count` is 0 again. -/
theorem wrapped_count_loses_items :
    ∃ s : OoRun ℕ, machine.Reachable s ∧ (∀ x < 2 ^ 32, .added x true ∈ s.calls) ∧
      .fired true ∈ s.calls ∧ s.list.replays = [] ∧ ¬ s.Replays := by
  obtain ⟨m, hr, hm⟩ := exists_filled le_rfl
  obtain ⟨m', hl, hf, hp, hrep⟩ := leads_fired hm.readerLock hm.writerLock
    (hm.count.trans rfl)
  have hnone : m'.replays = [] := hrep.trans hm.replays
  refine ⟨_, hr.leads hl, fun x hx => ?_, by simp, hnone, fun hall => ?_⟩
  · exact mem_append_left _ (mem_map.2 ⟨x, mem_range.2 hx, rfl⟩)
  · have hpos : (0, 0) ∈ m'.positions := by
      rw [hp, hm.positions]
      exact mem_map.2 ⟨0, mem_range.2 (by decide), rfl⟩
    have hlt : 0 < m'.fires := by omega
    have := (hall.first 0 0 hpos).1 hlt
    simp [hnone] at this

end OoRun

end Arts
