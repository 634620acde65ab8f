import Arts.Event.Table
import Arts.Handoff.Basic

/-!
# Sticky and idempotent events hand their dependents over

The event refines `Arts.Handoff.Basic`: a dependent joins at `dependent_count`, `fired` closes, the
read of `dependent_count` is the snapshot, and the fire loop is the server
(`Plain.mirrors_of_reachable`).
-/

namespace Arts

open List EventCall Handoff

def RegisterPc.decision : RegisterPc → Option Bool
  | .done _ signalled => some signalled
  | _ => none

namespace EventCall

/-- The position, the dependent and the decision of a registration. -/
def seat : EventCall → Option (ℕ × Dependent × Option Bool)
  | .register d pc => pc.position.map fun p => (p, d, pc.decision)
  | .satisfy _ _ _ => none

/-- The call has won the swap of `fired` and has not finished the fire loop. -/
def owns : EventCall → ℕ
  | .satisfy _ _ .readCount | .satisfy _ _ (.writePos _) | .satisfy _ _ (.fire _ _ _ _ _)
  | .satisfy _ _ (.signal _ _ _ _ _) | .satisfy _ _ (.awaitNext _ _ _ _) => 1
  | _ => 0

/-- The part of a registration in the protocol. -/
def Seated (h : Handoff Dependent) (c : EventCall) : Prop :=
  ∀ p d b, c.seat = some (p, d, b) → h.order[p]? = some d ∧ h.decided p = b

/-- What the program counter of a call says about the protocol. -/
def Agrees (e : Event) (h : Handoff Dependent) : EventCall → Prop
  | .register _ (.comparePos _) => e.pos ≠ 0
  | .register _ (.signal p) => h.mayServeSelf p.toNat
  | .satisfy _ _ .readCount => h.closed = true ∧ h.bound = none
  | .satisfy _ _ (.writePos last) => h.bound = some last.toNat ∧ h.served = 0
  | .satisfy _ _ (.fire last i _ _ _) | .satisfy _ _ (.signal last i _ _ _)
  | .satisfy _ _ (.awaitNext last i _ _) => h.bound = some last.toNat ∧ h.served = i.toNat
  | .satisfy _ _ .free => False
  | _ => True

end EventCall

namespace Plain

/-- The event `s` is in the state `h` of the protocol. -/
structure Mirrors (s : Plain) (h : Handoff Dependent) : Prop where
  count : s.event.dependentCount.toNat = h.order.length
  fired : s.event.fired = h.closed
  pos : s.event.pos ≠ 0 → h.bound = some (s.event.pos.toNat - 1)
  log : s.log.map (fun x => (x.dependent, x.position)) = h.log
  seated : ∀ c ∈ s.calls, c.Seated h
  agrees : ∀ c ∈ s.calls, c.Agrees s.event h
  owners_le : weight owns s.calls ≤ 1
  unowned : h.closed = false → weight owns s.calls = 0
  through : h.closed = true → weight owns s.calls = 0 → h.bound = some h.served

/-- `STICKY` or `IDEM`: the event stays when it has fired. -/
def persistent (s : Plain) : Prop := s.event.type = .sticky ∨ s.event.type = .idem

end Plain

/-! ### The other calls -/

namespace EventCall

variable {e e' : Event} {h h' : Handoff Dependent} {c : EventCall}

lemma seated_of_seat (hc : c.seat = none) : c.Seated h := by
  intro p d b hb
  rw [hc] at hb
  cases hb

lemma Seated.congr {c' : EventCall} (hs : c.Seated h) (hc : c'.seat = c.seat) : c'.Seated h := by
  intro p d b hb
  exact hs p d b (hc ▸ hb)

lemma Seated.join (hs : c.Seated h) (d : Dependent) :
    c.Seated { h with order := h.order ++ [d] } := by
  intro p d' b hb
  obtain ⟨hd, hdec⟩ := hs p d' b hb
  exact ⟨by rwa [List.getElem?_append_left (List.getElem?_eq_some_iff.1 hd).1], hdec⟩

lemma Seated.settle (hs : c.Seated h) {p : ℕ} (b : Bool) (hp : c.position ≠ some p) :
    c.Seated (h.settle p b) := by
  intro q d b' hb
  obtain ⟨hd, hdec⟩ := hs q d b' hb
  refine ⟨hd, ?_⟩
  have hq : q ≠ p := by
    rintro rfl
    cases c with
    | register d pc =>
      simp only [seat, Option.map_eq_some_iff] at hb
      obtain ⟨q', hq', heq⟩ := hb
      cases heq
      exact hp hq'
    | satisfy slot data pc => cases hb
  simpa [Handoff.settle, Function.update_of_ne hq] using hdec

lemma Agrees.mono (ha : c.Agrees e h) (ho : c.owns = 0) (hpos : e.pos ≠ 0 → e'.pos ≠ 0)
    (hb : ∀ b, h.bound = some b → h'.bound = some b) : c.Agrees e' h' := by
  cases c with
  | register d pc =>
    cases pc with
    | comparePos p => exact hpos ha
    | signal p =>
      obtain ⟨b, hbound, hle⟩ := mayServeSelf_iff.1 ha
      exact mayServeSelf_iff.2 ⟨b, hb b hbound, hle⟩
    | _ => trivial
  | satisfy slot data pc =>
    cases pc with
    | free => exact ha
    | readCount | writePos | fire | signal | awaitNext => cases ho
    | _ => trivial

lemma Agrees.congr (ha : c.Agrees e h) (hpos : e.pos ≠ 0 → e'.pos ≠ 0)
    (hc : h.closed = true → h'.closed = true) (hb : h'.bound = h.bound)
    (hs : h'.served = h.served) : c.Agrees e' h' := by
  cases c with
  | register d pc =>
    cases pc with
    | comparePos p => exact hpos ha
    | signal p => simpa [Agrees, mayServeSelf, hb] using ha
    | _ => trivial
  | satisfy slot data pc =>
    cases pc with
    | free => exact ha
    | readCount => exact ⟨hc ha.1, hb.trans ha.2⟩
    | writePos last | fire last i j k total | signal last i j k total | awaitNext last i k total =>
      exact ⟨hb.trans ha.1, hs.trans ha.2⟩
    | _ => trivial

end EventCall

/-! ### One step -/

namespace Plain.Mirrors

variable {s : Plain} {h : Handoff Dependent} {i : ℕ} {c c' : EventCall} {e' : Event}

lemma create (type : EventType) (latchCount : UInt32) :
    Mirrors (create type latchCount) empty where
  count := rfl
  fired := rfl
  pos hpos := absurd rfl hpos
  log := rfl
  seated c hc := by simp [Plain.create] at hc
  agrees c hc := by simp [Plain.create] at hc
  owners_le := Nat.zero_le _
  unowned _ := rfl
  through hc := by cases hc

lemma start (hm : s.Mirrors h) (hc : Starts c) : Mirrors (s.start c) h := by
  have hseat : c.seat = none ∧ c.owns = 0 ∧ c.Agrees s.event h := by
    cases c with
    | register d pc | satisfy slot data pc => cases hc; exact ⟨rfl, rfl, trivial⟩
  obtain ⟨hseat, hown, hagree⟩ := hseat
  unfold Plain.start
  split_ifs
  · exact
      { hm with
        seated := forall_mem_append_singleton hm.seated (seated_of_seat hseat)
        agrees := forall_mem_append_singleton hm.agrees hagree
        owners_le := by simpa [hown] using hm.owners_le
        unowned := by simpa [hown] using hm.unowned
        through := by simpa [hown] using hm.through }
  · exact hm

lemma owns_other (hm : s.Mirrors h) (hi : s.calls[i]? = some c) (hc : c.owns = 1) {j : ℕ}
    {d : EventCall} (hij : i ≠ j) (hj : s.calls[j]? = some d) : d.owns = 0 := by
  have := add_le_weight owns hi hj hij
  have := hm.owners_le
  omega

lemma stutter (hm : s.Mirrors h) (hi : s.calls[i]? = some c)
    (hcount : e'.dependentCount = s.event.dependentCount) (hfired : e'.fired = s.event.fired)
    (hpos : e'.pos = s.event.pos) (hseat : c'.seat = c.seat) (hown : c'.owns = c.owns)
    (hagree : c'.Agrees e' h) : Mirrors { s with event := e', calls := s.calls.set i c' } h := by
  have hw := weight_set owns hi c'
  have hweight : weight owns (s.calls.set i c') = weight owns s.calls := by
    omega
  exact
    { count := (congrArg UInt32.toNat hcount).trans hm.count
      fired := hfired.trans hm.fired
      pos := fun hne => by
        simp only [hpos] at hne ⊢
        exact hm.pos hne
      log := hm.log
      seated := forall_mem_set hm.seated
        ((hm.seated c (mem_of_getElem? hi)).congr hseat)
      agrees := forall_mem_set_of_ne hagree fun j d _ hj =>
        (hm.agrees d (mem_of_getElem? hj)).congr (fun hne => by simpa only [hpos] using hne)
          id rfl rfl
      owners_le := hweight.le.trans hm.owners_le
      unowned := fun hc => hweight.trans (hm.unowned hc)
      through := fun hc hz => hm.through hc (hweight.symm.trans hz) }

variable {d : Dependent}

lemma join (hm : s.Mirrors h) (hi : s.calls[i]? = some (.register d .fetchAdd))
    (hlt : s.event.dependentCount.toNat < dependentCap)
    (hdec : h.decided h.order.length = none) :
    Mirrors { s with
        event := { s.event with dependentCount := s.event.dependentCount + 1 }
        calls := s.calls.set i
          (.register d (.walk s.event.dependentCount 0 s.event.dependentCount)) }
      { h with order := h.order ++ [d] } := by
  have hweight := weight_set owns hi
    (.register d (.walk s.event.dependentCount 0 s.event.dependentCount))
  exact
    { count := by simp [Event.count_succ hlt, hm.count]
      __ := hm
      seated := by
        refine forall_mem_set_of_ne ?_ fun j c _ hj =>
          (hm.seated c (mem_of_getElem? hj)).join d
        intro p d' b hb
        cases hb
        rw [hm.count]
        exact ⟨by simp, hdec⟩
      agrees := forall_mem_set_of_ne trivial fun j c _ hj =>
        (hm.agrees c (mem_of_getElem? hj)).congr id id rfl rfl
      owners_le := hweight.le.trans hm.owners_le
      unowned := fun hc => hweight.trans (hm.unowned hc)
      through := fun hc hz => hm.through hc (hweight.symm.trans hz) }

variable {pc : RegisterPc} {p : UInt32} {log : List Delivery}

lemma settle (hm : s.Mirrors h) (ht : s.Table)
    (hi : s.calls[i]? = some (.register d pc)) (hp : pc.position = some p.toNat) (b : Bool) {hlog : List (Dependent × ℕ)}
    (heq : log.map (fun x => (x.dependent, x.position)) = hlog) :
    Mirrors ⟨s.event, s.present, s.calls.set i (.register d (.done p b)), log⟩
      { h.settle p.toNat b with log := hlog } := by
  have hweight := weight_set owns hi (.register d (.done p b))
  have hd : h.order[p.toNat]? = some d :=
    (hm.seated _ (mem_of_getElem? hi) p.toNat d pc.decision (by simp [seat, hp])).1
  exact
    { count := hm.count
      __ := hm
      log := heq
      seated := by
        refine forall_mem_set_of_ne ?_ fun j c hij hj => ?_
        · intro q d' b' hb
          cases hb
          exact ⟨hd, by simp [Handoff.settle, RegisterPc.decision]⟩
        · exact (hm.seated c (mem_of_getElem? hj)).settle b fun hpos =>
            hij (ht.index_eq hi hj hp hpos)
      agrees := forall_mem_set_of_ne trivial fun j c _ hj =>
        (hm.agrees c (mem_of_getElem? hj)).congr id id rfl rfl
      owners_le := hweight.le.trans hm.owners_le
      unowned := fun hc => hweight.trans (hm.unowned hc)
      through := fun hc hz => hm.through hc (hweight.symm.trans hz) }

variable {slot : UInt32} {data : Guid}

lemma close (hm : s.Mirrors h)
    (hi : s.calls[i]? = some (.satisfy slot data .swap)) (hf : s.event.fired = false)
    (hb : h.bound = none) :
    Mirrors { s with
        event := { s.event with fired := true }
        calls := s.calls.set i (.satisfy slot data .readCount) } { h with closed := true } := by
  have hweight := weight_set owns hi (.satisfy slot data .readCount)
  simp only [hm.unowned (hm.fired ▸ hf)] at hweight
  exact
    { count := hm.count
      fired := rfl
      __ := hm
      seated := forall_mem_set hm.seated (seated_of_seat rfl)
      agrees := forall_mem_set_of_ne ⟨rfl, hb⟩ fun j c _ hj =>
        (hm.agrees c (mem_of_getElem? hj)).congr id (fun _ => rfl) rfl rfl
      owners_le := hweight.le
      unowned := fun hc => by cases hc
      through := fun _ hz => by
        rw [hz] at hweight
        cases hweight }

lemma ownerStep (hm : s.Mirrors h) (hi : s.calls[i]? = some c) (hc : c.owns = 1)
    {h' : Handoff Dependent}
    (hcount : e'.dependentCount = s.event.dependentCount) (hfired : e'.fired = s.event.fired)
    (horder : h'.order = h.order) (hclosed : h'.closed = h.closed)
    (hdecided : h'.decided = h.decided) (hpos : e'.pos ≠ 0 → h'.bound = some (e'.pos.toNat - 1))
    (hpos' : s.event.pos ≠ 0 → e'.pos ≠ 0) (hbound : ∀ b, h.bound = some b → h'.bound = some b)
    (hlog : log.map (fun x => (x.dependent, x.position)) = h'.log) (hseat : c'.seat = none)
    (hagree : c'.Agrees e' h') (hown : c'.owns = 1 ∨ c'.owns = 0 ∧ h'.bound = some h'.served) :
    Mirrors ⟨e', s.present, s.calls.set i c', log⟩ h' := by
  have hweight := weight_set owns hi c'
  have hle := hm.owners_le
  have hge := le_weight_of_getElem? owns hi
  have hcl : h.closed = true := by
    by_contra hne
    have := hm.unowned (by simpa using hne)
    omega
  exact
    { count := by rw [hcount, horder, hm.count]
      fired := by rw [hfired, hclosed, hm.fired]
      pos := hpos
      log := hlog
      seated := forall_mem_set_of_ne (seated_of_seat hseat) fun j d _ hj => by
        have hs := hm.seated d (mem_of_getElem? hj)
        simpa [Seated, horder, hdecided] using hs
      agrees := forall_mem_set_of_ne hagree fun j d hij hj =>
        (hm.agrees d (mem_of_getElem? hj)).mono (hm.owns_other hi hc hij hj) hpos' hbound
      owners_le := by
        show weight owns (s.calls.set i c') ≤ 1
        omega
      unowned := fun hf => by
        rw [hclosed, hcl] at hf
        cases hf
      through := fun _ hz => by
        change weight owns (s.calls.set i c') = 0 at hz
        rcases hown with hown | ⟨-, hb⟩
        · omega
        · exact hb }

lemma pos_sub_one (h : p ≠ 0) : (p - 1).toNat = p.toNat - 1 := by
  have hne : p.toNat ≠ 0 := fun hz => h (UInt32.toNat_inj.1 hz)
  rw [UInt32.toNat_sub_of_le _ _ (by rw [UInt32.le_iff_toNat_le]; simp; omega)]
  rfl

lemma undecided (hm : s.Mirrors h) {p : ℕ}
    (hi : s.calls[i]? = some (.register d pc)) (hp : pc.position = some p)
    (hdec : pc.decision = none) : h.order[p]? = some d ∧ h.decided p = none :=
  hm.seated _ (mem_of_getElem? hi) p d none (by simp [seat, hp, hdec])

lemma leave (hm : s.Mirrors h) (hr : (Handoff.machine Dependent).Reachable h) (ht : s.Table) (hi : s.calls[i]? = some (.register d pc))
    (hp : pc.position = some p.toNat) (hdec : pc.decision = none) (hmay : h.mayLeave p.toNat) :
    ∃ h', (Handoff.machine Dependent).Reachable h' ∧
      Mirrors { s with calls := s.calls.set i (.register d (.done p false)) } h' := by
  obtain ⟨hd, hund⟩ := hm.undecided hi hp hdec
  refine ⟨_, hr.next (l := .leave p.toNat) ?_, hm.settle ht hi hp false hm.log⟩
  exact if_pos ⟨(List.getElem?_eq_some_iff.1 hd).1, hund, hmay⟩

/-- **Every step of a registration** follows the protocol. -/
theorem register_step (hm : s.Mirrors h) (hr : (Handoff.machine Dependent).Reachable h)
    (ht : s.Table) (hpers : s.persistent) {pc' : RegisterPc}
    {dl : Option Delivery} (hi : s.calls[i]? = some (.register d pc))
    (ho : ¬ Overflows s.event (.register d pc))
    (hst : RegisterStep s.event d pc e' pc' dl) :
    ∃ h', (Handoff.machine Dependent).Reachable h' ∧
      Mirrors ({ s with event := e', calls := s.calls.set i (.register d pc') }.record
        (dl.map .deliver)) h' := by
  have hv := valid_of_reachable hr
  have hagree := hm.agrees _ (mem_of_getElem? hi)
  cases hst with
  | fetchAdd =>
    have hdec : h.decided h.order.length = none := by
      by_contra hne
      exact absurd (hv.decided_lt _ hne) (Nat.lt_irrefl _)
    exact ⟨_, hr.next (l := .join d) rfl, hm.join hi (Nat.lt_of_not_le ho) hdec⟩
  | unfired hf =>
    have hcl : h.closed = false := hm.fired ▸ hf
    exact hm.leave hr ht hi rfl rfl (by simp [mayLeave, hv.open_bound hcl, hcl])
  | dropped hf hd =>
    cases d with
    | callback n =>
      rcases hpers with htype | htype <;> simp [Event.dropsCallback, htype] at hd
    | _ => cases hd
  | posSeen hpos => exact ⟨h, hr, hm.stutter hi rfl rfl rfl rfl rfl hpos⟩
  | @outside p hp =>
    refine ⟨h, hr, hm.stutter hi rfl rfl rfl rfl rfl ?_⟩
    rw [UInt32.le_iff_toNat_le, pos_sub_one hagree] at hp
    exact mayServeSelf_iff.2 ⟨_, hm.pos hagree, hp⟩
  | @inside p hp =>
    rw [UInt32.le_iff_toNat_le, pos_sub_one hagree] at hp
    refine hm.leave hr ht hi rfl rfl ?_
    simp only [mayLeave, hm.pos hagree, decide_eq_true_eq]
    omega
  | @signal p =>
    obtain ⟨hd, hund⟩ := hm.undecided hi rfl rfl
    refine ⟨(h.settle p.toNat true).give d p.toNat, hr.next (l := .self p.toNat) ?_,
      hm.settle ht hi rfl true (by simp [hm.log, Handoff.settle])⟩
    show (if _ then _ else _) = _
    rw [if_pos ⟨hund, hagree⟩, hd]
    rfl
  | _ => exact ⟨h, hr, hm.stutter hi rfl rfl rfl rfl rfl trivial⟩

/-- **Every step of a satisfy** follows the protocol. -/
theorem satisfy_step (hm : s.Mirrors h) (hr : (Handoff.machine Dependent).Reachable h)
    (ht : s.Table) (hpers : s.persistent) {pc pc' : SatisfyPc}
    {eff : Option Effect} (hi : s.calls[i]? = some (.satisfy slot data pc))
    (hst : SatisfyStep s.event slot data pc e' pc' eff) :
    ∃ h', (Handoff.machine Dependent).Reachable h' ∧
      Mirrors ({ s with event := e', calls := s.calls.set i (.satisfy slot data pc') }.record
        eff) h' := by
  have hv := valid_of_reachable hr
  have hmem := mem_of_getElem? hi
  have hagree := hm.agrees _ hmem
  have hplaced := ht.placed _ hmem
  have hafter : SatisfyPc.afterFire s.event.type = .done := by
    rcases hpers with htype | htype <;> simp [SatisfyPc.afterFire, htype]
  cases hst with
  | pass =>
    refine ⟨h, hr, hm.stutter hi rfl rfl rfl rfl ?_ ?_⟩ <;>
      (unfold SatisfyPc.ofSlot; split_ifs <;> trivial)
  | add | sub => refine ⟨h, hr, hm.stutter hi rfl rfl rfl rfl ?_ ?_⟩ <;> (split_ifs <;> trivial)
  | swap hf =>
    have hcl : h.closed = false := hm.fired ▸ hf
    refine ⟨_, hr.next (l := .close) ?_, hm.close hi hf (hv.open_bound hcl)⟩
    exact if_neg (by simp [hcl])
  | swapAbort hf => exact ⟨h, hr, hm.stutter hi rfl hf.symm rfl rfl rfl trivial⟩
  | readCount =>
    obtain ⟨hcl, hb⟩ := hagree
    refine ⟨{ h with bound := some h.order.length }, hr.next (l := .snapshot) ?_,
      hm.ownerStep hi rfl rfl rfl rfl rfl rfl (fun hne => ?_) id (fun b hb' => ?_) hm.log rfl
      ⟨by rw [hm.count], (hv.nothing hb).1⟩ (.inl rfl)⟩
    · exact if_pos ⟨hcl, hb⟩
    · cases hb.symm.trans (hm.pos hne)
    · cases hb.symm.trans hb'
  | @writePos last =>
    obtain ⟨hb, hserved⟩ := hagree
    have hlast : (last + 1).toNat = last.toNat + 1 := by
      have hle : last.toNat ≤ s.event.dependentCount.toNat := hplaced
      have hfew := ht.shaped.few
      simp only [dependentCap] at hfew
      rw [UInt32.toNat_add, UInt32.toNat_one, Nat.mod_eq_of_lt (by omega)]
    have hne : last + 1 ≠ 0 := fun hz => by simp [hz] at hlast
    have hpos : h.bound = some ((last + 1).toNat - 1) := by rw [hb, hlast, Nat.add_sub_cancel]
    refine ⟨h, hr, hm.ownerStep hi rfl rfl rfl rfl rfl rfl (fun _ => hpos) (fun _ => hne)
      (fun _ => id) hm.log rfl ?_ ?_⟩
    · rw [hafter]
      split_ifs
      · exact ⟨hb, hserved⟩
      · trivial
    · rw [hafter]
      split_ifs with hlt
      · exact .inl rfl
      · rw [UInt32.lt_iff_toNat_lt, UInt32.toNat_zero, Nat.not_lt] at hlt
        exact .inr ⟨rfl, by rw [hb, hserved, Nat.eq_zero_of_le_zero hlt]⟩
  | ready | leaveList | follow => exact ⟨h, hr, hm.stutter hi rfl rfl rfl rfl rfl hagree⟩
  | @finish last i j k total hle =>
    obtain ⟨-, hi', -⟩ := hplaced
    obtain ⟨hb, hserved⟩ := hagree
    rw [UInt32.le_iff_toNat_le] at hle
    rw [hafter]
    exact ⟨h, hr, hm.ownerStep hi rfl rfl rfl rfl rfl rfl hm.pos id (fun _ => id) hm.log rfl trivial
      (.inr ⟨rfl, by rw [hb, hserved, Nat.le_antisymm hle hi']⟩)⟩
  | @signal last i j k total =>
    obtain ⟨hlast, hi', hk, htotal, hj, hplace, hw⟩ := hplaced
    obtain ⟨hb, hserved⟩ := hagree
    -- the entry is that of the registration with the position of the loop
    obtain ⟨d, hd⟩ := Option.isSome_iff_exists.1 (ht.shaped.written k j.toNat hw)
    obtain ⟨pc, hpc, hp⟩ := ht.held k j.toNat d hd
    have horder : h.order[h.served]? = some d := by
      rw [hserved, ← hplace]
      exact (hm.seated _ hpc _ d pc.decision (by simp [seat, hp])).1
    have hnext : (i + 1).toNat = i.toNat + 1 := by
      have hfew := ht.shaped.few
      simp only [dependentCap] at hfew
      rw [UInt32.toNat_add, UInt32.toNat_one, Nat.mod_eq_of_lt (by omega)]
    rw [hd]
    refine ⟨{ h with served := h.served + 1 }.give d h.served, hr.next (l := .serve) ?_,
      hm.ownerStep hi rfl rfl rfl rfl rfl rfl hm.pos id (fun _ => id) ?_ rfl
      ⟨hb, by rw [hnext, ← hserved]; rfl⟩ (.inl rfl)⟩
    · show (if _ then _ else _) = _
      rw [if_pos (mayServe_iff.2 ⟨_, hb, hserved ▸ hi'⟩), horder]
      rfl
    · simp [give, hm.log, hserved]
  | free => exact hagree.elim
  | _ => exact ⟨h, hr, hm.stutter hi rfl rfl rfl rfl rfl trivial⟩

end Plain.Mirrors

namespace Plain

variable {s : Plain}

lemma type_next {s' : Plain} {a : EventAct} (hn : s.next a = some s') :
    s'.event.type = s.event.type := by
  rcases next_cases hn with ⟨c, -, rfl⟩ | ⟨i, c, e', c', eff, -, hst, rfl⟩
  · rfl
  · rw [record_event]
    cases c with
    | register d pc =>
      obtain ⟨pc', dl, hstep, -, -⟩ := step_register hst
      cases hstep <;> rfl
    | satisfy slot data pc =>
      obtain ⟨pc', hstep, -⟩ := step_satisfy hst
      cases hstep <;> rfl

variable {type : EventType}

lemma type_of_reachable (hr : (machine type).Reachable s) : s.event.type = type :=
  hr.invariant (by rintro _ ⟨latchCount, rfl⟩; rfl)
    fun _ _ _ _ ht hn => (type_next hn).trans ht

/-- **Refinement**: as long as no registration is lost, the event is in a state of the hand-over. -/
theorem mirrors_of_reachable (htype : type = .sticky ∨ type = .idem) (hr : (machine type).Reachable s) :
    s.Lost ∨ ∃ h, (Handoff.machine Dependent).Reachable h ∧ s.Mirrors h := by
  refine hr.invariant
    (I := fun s => s.Lost ∨ ∃ h, (Handoff.machine Dependent).Reachable h ∧ s.Mirrors h) ?_ ?_
  · rintro _ ⟨latchCount, rfl⟩
    exact .inr ⟨_, .of_init rfl, .create type latchCount⟩
  · rintro s a s' hr' (hlost | ⟨h, hrh, hm⟩) hn
    · exact .inl (hlost.next (chained_of_reachable hr') hn)
    · rcases Table.of_reachable hr' with hlost | ht
      · exact .inl (hlost.next (chained_of_reachable hr') hn)
      · have hpers : s.persistent := by rwa [persistent, type_of_reachable hr']
        rcases next_cases hn with ⟨c, hcs, rfl⟩ | ⟨i, c, e', c', eff, hi, hst, rfl⟩
        · exact .inr ⟨h, hrh, hm.start hcs⟩
        · by_cases ho : c.Overflows s.event
          · exact .inl (ht.lost_of_overflows hi ho hst)
          · refine .inr ?_
            cases c with
            | register d pc =>
              obtain ⟨pc', dl, hstep, rfl, rfl⟩ := step_register hst
              exact hm.register_step hrh ht hpers hi ho hstep
            | satisfy slot data pc =>
              obtain ⟨pc', hstep, rfl⟩ := step_satisfy hst
              exact hm.satisfy_step hrh ht hpers hi hstep

end Plain

end Arts
