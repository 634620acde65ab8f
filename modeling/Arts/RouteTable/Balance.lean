import Arts.Machine.Calls
import Arts.RouteTable.Handlers

/-!
# Whether the references are balanced

The item should have one reference for each slot that holds the datablock. Some branches do not
give back what they take (`RankDb.references_unbalanced`); with the others it has
(`RankDb.balanced_of_fit`).
-/

namespace Arts

open List Option RouteItem Notice

/-! ### What is served -/

def Notice.isGrant : Notice → Bool
  | .grant _ => true
  | _ => false

def Notice.isRequest : Notice → Bool
  | .request _ _ => true
  | _ => false

section Served

variable {self rank : ℕ} {f : Frontier}

lemma grants_signalFrontierLocal :
    (signalFrontierLocal self f).countP isGrant ≤ f.localDelayed.length + 1 := by
  have hgrants : (f.localDelayed.map Notice.grant).countP isGrant ≤ f.localDelayed.length :=
    countP_le_length.trans_eq (length_map _)
  have hsends : ((f.copies self).map send).countP isGrant = 0 := by
    simp [isGrant]
  unfold signalFrontierLocal
  cases f.exclusive with
  | none =>
    simp only [nil_append, countP_append]
    omega
  | some x =>
    simp only [countP_append, countP_singleton]
    split_ifs <;> omega

lemma grants_signalFrontierRemote {getFrom : ℕ} :
    (signalFrontierRemote self f getFrom).2.countP isGrant = 0 := by
  unfold signalFrontierRemote
  cases f.exclusive with
  | none => simp [isGrant]
  | some x =>
    by_cases hx : x.node = getFrom <;> simp [hx, isGrant]

lemma grants_progressFrontier (self rank : ℕ) (fs : List Frontier) :
    (progressFrontier self rank fs).2.countP isGrant ≤
      ((fs[1]?.map Frontier.localDelayed).getD []).length + 1 := by
  rcases fs with - | ⟨f, - | ⟨g, fs⟩⟩
  · exact Nat.zero_le _
  · exact Nat.zero_le _
  · by_cases hr : rank = self
    · simpa [progressFrontier, hr] using grants_signalFrontierLocal
    · simp [progressFrontier, hr, grants_signalFrontierRemote]

lemma requests_progressFrontier {fs : List Frontier}
    (h : rank = self ∨ (fs[1]?.map Frontier.localDelayed).getD [] = []) :
    ∀ x ∈ (progressFrontier self rank fs).2, x.isRequest = false := by
  rcases fs with - | ⟨f, - | ⟨g, fs⟩⟩
  · simp [progressFrontier]
  · simp [progressFrontier]
  · by_cases hr : rank = self
    · cases hx : g.exclusive with
      | none =>
        simp [progressFrontier, hr, signalFrontierLocal, hx, or_imp, forall_and, isRequest]
      | some x =>
        by_cases hn : x.node = self <;>
          simp [progressFrontier, hr, signalFrontierLocal, hx, hn, or_imp, forall_and,
            isRequest]
    · have hd : g.localDelayed = [] := by simpa [hr] using h
      cases hx : g.exclusive with
      | none =>
        simp [progressFrontier, hr, signalFrontierRemote, hx, hd, isRequest]
      | some x =>
        by_cases hn : x.node = rank <;>
          simp [progressFrontier, hr, signalFrontierRemote, hx, hn, hd, isRequest]

end Served

namespace RankDb

inductive Act where
  | create (edt : EdtGuid)
  | dbRequest (rank : ℕ) (mode : AccessMode) (flags : UInt32)
  | fullRequest (x : Exclusive)
  | dbSend (sameSize : Bool)
  | fullSend (a : Acquire) (edt : Bool)
  | alreadyLocal (a : Acquire) (edt : Bool)
  | update (rank : ℕ) (data : Bool)
  | updateGuid (rank : ℕ)
  | acquire (a : Acquire) (flags : UInt32)
  | acquireSlice
  | release (a : Acquire) (first : Bool)
  | releaseCreated (edt : EdtGuid)
  | waitRelease (edt : EdtGuid)
  | waitReacquire (edt : EdtGuid)
  deriving DecidableEq

variable (e : DbSite)

/-- One message or step of an EDT. A datablock is created on its owner, and what is released has been
acquired or created. -/
def next (w : RankDb) : Act → Option RankDb
  | .create edt => if e.isLocal then some (w.dbCreate e edt) else none
  | .dbRequest rank mode flags => some (w.remoteDbSend e rank mode flags)
  | .fullRequest x => some (w.remoteDbFullSend e x)
  | .dbSend sameSize => some (w.handleDbReceived e sameSize)
  | .fullSend a edt => some (w.handleDbFullReceived e a edt)
  | .alreadyLocal a edt => some (w.handleSendAlreadyLocal e a edt)
  | .update rank data => some (w.handleUpdateDb e rank data)
  | .updateGuid rank => some (w.handleUpdateDbGuid e rank)
  | .acquire a flags => some (w.acquireDb e a flags)
  | .acquireSlice => some (w.acquireSlice e)
  | .release a first => if a ∈ w.held then some (w.releaseDb e a first) else none
  | .releaseCreated edt => if edt ∈ w.creators then some (w.releaseCreatedDb e edt) else none
  | .waitRelease edt => some (w.waitReleaseDbs e edt)
  | .waitReacquire edt => some (w.waitReacquireDbs e edt)

/-- A rank that has not heard of the datablock. -/
def machine : Machine RankDb Act where
  init w := w = {}
  next := next e

/-- **The reference count is the number of slots that hold the datablock.** -/
def Balanced (w : RankDb) : Prop := (getCount w.item.lock).toNat = w.held.length

def present (w : RankDb) : Bool := w.item.lock ≠ 0

/-- The accesses of this rank that wait in the frontier after the head. -/
def delayed (w : RankDb) : List Acquire :=
  ((w.frontiers.getD [])[1]?.map Frontier.localDelayed).getD []

/-- **The branches that are balanced.** -/
def Fit (w : RankDb) : Act → Prop
  | .dbRequest rank _ _ => w.present ∧ (w.item.rank ≠ e.self ∨ e.isLocal ∨ rank = e.self)
  | .fullRequest _ => w.present ∧ (w.item.rank ≠ e.self ∨ e.isLocal)
  | .dbSend _ | .alreadyLocal _ _ => ¬ w.present
  | .fullSend _ _ => False
  | .update rank data =>
    e.isLocal → w.present → data = false ∧ (rank = e.self ∨ w.delayed = [])
  | .acquire a _ =>
    if w.present then
      e.dbType = .dbLocal ∨ w.item.rank = e.self ∨
        if e.isLocal then a.mode = .lcSync ∨ e.dbType = .dbDefault ∧ accessMode e a.mode ≠ .ro
        else accessMode e a.mode = .ew
    else ¬ e.isLocal ∧ accessMode e a.mode = .ew
  | .acquireSlice => w.present ∨ ¬ e.isLocal
  | .waitRelease edt | .waitReacquire edt => edt ∉ w.creators
  | .create _ | .updateGuid _ | .release _ _ | .releaseCreated _ => True

/-- There is room for the references of the slots that hold the datablock or wait for it. -/
def Room (w : RankDb) : Prop := w.held.length + w.delayed.length + 3 < 2 ^ 61

instance (w : RankDb) (l : Act) : Decidable (w.Fit e l) := by
  unfold Fit
  split <;> infer_instance

instance (w : RankDb) : Decidable w.Room := inferInstanceAs (Decidable (_ < _))

/-! ### The parts of the handlers -/

/-- The item is available with `n` references, `h` slots hold the datablock and nothing is deferred. -/
structure Refs (w : RankDb) (n h : ℕ) : Prop where
  is : w.item.Is e.guid 2 n
  data : w.item.data.isSome
  ooList : w.ooList = []
  held : w.held.length = h

section Parts

variable {e} {w : RankDb} {n h : ℕ}

lemma Refs.lookupDb (hw : w.Refs e n h) (hn : n + 2 < 2 ^ 61) :
    w.lookupDb e = ({ w with item := { w.item with lock := word 2 (n + 1) } }, true) := by
  rw [RankDb.lookupDb, hw.is.lookupDb hn, hw.data]

lemma Refs.found (hw : w.Refs e n h) (hn : n + 2 < 2 ^ 61) : (w.lookupDb e).2 = true := by
  rw [hw.lookupDb hn]

lemma Refs.lookup (hw : w.Refs e n h) (hn : n + 2 < 2 ^ 61) :
    (w.lookupDb e).1.Refs e (n + 1) h := by
  rw [hw.lookupDb hn]
  exact { hw with is := ⟨hw.is.key, rfl, by decide, Nat.lt_of_succ_lt hn⟩ }

lemma Refs.returnDb (hw : w.Refs e (n + 1) h) : (w.returnDb e).Refs e n h := by
  rw [RankDb.returnDb, hw.is.returnDb]
  exact { hw with is := ⟨hw.is.key, rfl, by decide, Nat.lt_of_succ_lt hw.is.count_lt⟩ }

lemma Refs.give (hw : w.Refs e n h) (a : Acquire) :
    { w with held := w.held ++ [a] }.Refs e n (h + 1) :=
  { hw with held := by simp [hw.held] }

lemma Refs.grant (hw : w.Refs e n h) (hn : n + 2 < 2 ^ 61) (a : Acquire) :
    (w.grant e a).Refs e (n + 1) (h + 1) :=
  (hw.lookup hn).give a

lemma Refs.frontiers (hw : w.Refs e n h) (fs : Option (List Frontier)) :
    { w with frontiers := fs }.Refs e n h :=
  { hw with }

lemma Refs.creators (hw : w.Refs e n h) (cs : List EdtGuid) :
    { w with creators := cs }.Refs e n h :=
  { hw with }

lemma Refs.addDbDuplicate (hw : w.Refs e n h) (rank : ℕ) (edt : Option EdtGuid) (slot : UInt32)
    (mode : AccessMode) (flags : UInt32) :
    (w.addDbDuplicate e rank edt slot mode flags).1.Refs e n h := by
  unfold RankDb.addDbDuplicate
  split_ifs
  · exact hw
  · exact hw.frontiers _

lemma Refs.fireOo (hw : w.Refs e n h) : (w.fireOo e).Refs e n h := by
  unfold RankDb.fireOo
  rw [hw.ooList]
  split_ifs
  · exact ⟨hw.is, hw.data, rfl, hw.held⟩
  · exact hw

lemma Refs.remoteDbSendCheck (hw : w.Refs e n h) (hl : e.isLocal) (rank : ℕ) (mode : AccessMode)
    (flags : UInt32) : (w.remoteDbSendCheck e rank mode flags).Refs e n h := by
  rw [RankDb.remoteDbSendCheck, if_pos hl]
  exact hw.addDbDuplicate ..

lemma Refs.remoteDbFullSendCheck (hw : w.Refs e n h) (hl : e.isLocal) (x : Exclusive) :
    (w.remoteDbFullSendCheck e x).Refs e n h := by
  have hadd := hw.addDbDuplicate x.node (some x.acquire.edt) x.acquire.slot x.acquire.mode 0
  simp only [RankDb.remoteDbFullSendCheck]
  split_ifs
  · exact hadd.frontiers _
  · exact hadd

end Parts

/-! ### Progress of the frontiers -/

section Progress

variable {e} {w : RankDb} {n h : ℕ}

lemma Refs.notices (hw : w.Refs e n h) {ns : List Notice}
    (hno : ∀ x ∈ ns, x.isRequest = false) (hn : n + ns.countP isGrant + 1 < 2 ^ 61) :
    (ns.foldl (notice e) w).Refs e (n + ns.countP isGrant)
        (h + ns.countP isGrant) ∧
      w.held <+: (ns.foldl (notice e) w).held := by
  induction ns generalizing w n h with
  | nil => exact ⟨hw, prefix_rfl⟩
  | cons x ns ih =>
    have hno' := fun y hy => hno y (mem_cons_of_mem _ hy)
    cases x with
    | grant a =>
      rw [countP_cons_of_pos rfl] at hn ⊢
      obtain ⟨hk, hpre⟩ := ih (hw.grant (by omega) a) hno' (by omega)
      rw [Nat.add_right_comm, Nat.add_right_comm h, Nat.add_assoc n, Nat.add_assoc h] at hk
      exact ⟨hk, (prefix_append _ _).trans hpre⟩
    | request getFrom a => cases hno _ mem_cons_self
    | _ => exact ih hw hno' hn

lemma Refs.progressFrontier (hw : w.Refs e n h) {rank : ℕ}
    (hrank : rank = e.self ∨ w.delayed = []) (hn : n + w.delayed.length + 2 < 2 ^ 61) :
    ∃ k, (w.progressFrontier e rank).Refs e (n + k) (h + k) ∧ k ≤ w.delayed.length + 1 ∧
      w.held <+: (w.progressFrontier e rank).held := by
  unfold RankDb.progressFrontier
  unfold delayed at hrank hn ⊢
  cases hf : w.frontiers with
  | none => exact ⟨0, hw, Nat.zero_le _, prefix_rfl⟩
  | some fs =>
    rw [hf, getD_some] at hrank hn
    have hle := grants_progressFrontier e.self rank fs
    obtain ⟨hrefs, hpre⟩ := (hw.frontiers (some (Arts.progressFrontier e.self rank fs).1)).notices
      (requests_progressFrontier hrank) (by omega)
    exact ⟨_, hrefs, hle, hpre⟩

end Progress

/-! ### The handlers -/

/-- The states of the runs that take only balanced branches. -/
inductive Inv (w : RankDb) : Prop where
  | absent (lock : w.item.lock = 0) (ooList : w.ooList = []) (held : w.held = [])
  | present (refs : w.Refs e w.held.length w.held.length)

section Handlers

variable {e} {w : RankDb} {n h : ℕ}

lemma Refs.inv (hw : w.Refs e n n) : w.Inv e := by
  obtain rfl := hw.held
  exact .present hw

lemma Refs.isPresent (hw : w.Refs e n h) : w.present := by
  have hne : word 2 n ≠ 0 := by
    rw [word, Ne, pack_eq_zero (by have := hw.is.count_lt; omega)]
    simp
  simp [present, hw.is.lock, hne]

lemma Inv.balanced (hw : w.Inv e) : w.Balanced := by
  cases hw with
  | absent hlock _ hheld =>
    rw [Balanced, hlock, hheld]
    decide
  | present hrefs => rw [Balanced, hrefs.is.lock, toNat_getCount hrefs.is.count_lt]

lemma Refs.remoteDbSend (hw : w.Refs e n h) (hn : n + 2 < 2 ^ 61) {rank : ℕ}
    (hfit : w.item.rank ≠ e.self ∨ e.isLocal ∨ rank = e.self) (mode : AccessMode) (flags : UInt32) :
    (w.remoteDbSend e rank mode flags).Refs e n h := by
  have hl := hw.lookup hn
  unfold RankDb.remoteDbSend
  simp only [hw.is.lookupRank, hw.found hn, any_some, bne_iff_ne, Bool.not_true,
    Bool.false_eq_true, if_false, Bool.and_eq_true, Bool.not_eq_true', beq_iff_eq]
  split_ifs with hrank hback
  · exact hw
  · exact hl.fireOo.returnDb
  · have hlocal : e.isLocal := by
      by_contra hno
      rcases hfit with hfit | hfit | hfit
      · exact hrank hfit
      · exact hno hfit
      · exact hback ⟨Bool.not_eq_true _ ▸ hno, hfit⟩
    exact (hl.remoteDbSendCheck hlocal ..).returnDb

lemma Refs.remoteDbFullSend (hw : w.Refs e n h) (hn : n + 2 < 2 ^ 61)
    (hfit : w.item.rank ≠ e.self ∨ e.isLocal) (x : Exclusive) :
    (w.remoteDbFullSend e x).Refs e n h := by
  unfold RankDb.remoteDbFullSend
  simp only [hw.is.lookupRank, hw.found hn, any_some, bne_iff_ne, Bool.not_true,
    Bool.false_eq_true, if_false]
  split_ifs with hrank
  · exact hw
  · have hlocal : e.isLocal := hfit.resolve_left hrank
    exact ((hw.lookup hn).remoteDbFullSendCheck hlocal x).returnDb

lemma Refs.handleUpdateDb (hw : w.Refs e n n) {rank : ℕ}
    (hfit : rank = e.self ∨ w.delayed = []) (hn : n + w.delayed.length + 2 < 2 ^ 61) :
    (w.handleUpdateDb e rank false).Inv e := by
  unfold RankDb.handleUpdateDb
  simp only [lookupItemWithState, if_pos hw.is.allocated.1, Bool.false_eq_true, if_false]
  split_ifs
  · obtain ⟨k, hk, -⟩ := hw.progressFrontier hfit hn
    exact hk.inv
  · exact hw.inv
  · exact hw.inv

lemma Refs.handleUpdateDbGuid (hw : w.Refs e n h) (rank : ℕ) :
    (w.handleUpdateDbGuid e rank).Refs e n h := by
  unfold RankDb.handleUpdateDbGuid
  split_ifs
  · exact { hw with is := ⟨hw.is.key, hw.is.lock, hw.is.status_lt, hw.is.count_lt⟩ }
  · exact hw

lemma Refs.dbCreate (hw : w.Refs e n h) (edt : EdtGuid) : (w.dbCreate e edt).Refs e n h := by
  have hrace : w.item.addItemRace e.guid e.self = (w.item, false) := by
    simp [addItemRace, hw.is.allocated]
  simp only [RankDb.dbCreate, hrace]
  exact hw.creators _

lemma Refs.acquireDb (hw : w.Refs e n n) (hn : n + 2 < 2 ^ 61) {a : Acquire} (flags : UInt32)
    (hfit : e.dbType = .dbLocal ∨ w.item.rank = e.self ∨
      if e.isLocal then a.mode = .lcSync ∨ e.dbType = .dbDefault ∧ accessMode e a.mode ≠ .ro
      else accessMode e a.mode = .ew) :
    (w.acquireDb e a flags).Inv e := by
  have hl := hw.lookup hn
  have hrank : (w.lookupDb e).1.item.rank = w.item.rank := by rw [hw.lookupDb hn]
  unfold RankDb.acquireDb
  simp only [hw.found hn, if_true, hrank]
  split_ifs with htype hsync hlocal hhead hself hread hvalid hmode
  · exact (hl.give _).inv
  · exact (hl.give _).inv
  · exact ((hl.addDbDuplicate ..).give _).inv
  · exact (hl.addDbDuplicate ..).returnDb.inv
  · rw [if_pos hlocal] at hfit
    rcases hfit with hfit | hfit | hfit | ⟨hdef, hmode⟩
    · exact absurd hfit htype
    · exact absurd hfit hself
    · exact absurd ⟨by simp [hfit, accessMode], hlocal⟩ hsync
    · simp [hmode, hdef] at hread
  · exact (hl.addDbDuplicate ..).returnDb.inv
  · exact (hl.give _).inv
  · exact hl.returnDb.inv
  · rw [if_neg hlocal] at hfit
    exact absurd ((hfit.resolve_left htype).resolve_left hvalid) hmode

lemma Refs.acquireSlice (hw : w.Refs e n h) (hn : n + 2 < 2 ^ 61) :
    (w.acquireSlice e).Refs e n h := by
  simp only [RankDb.acquireSlice, hw.found hn]
  exact (hw.lookup hn).returnDb

lemma Refs.releaseDb (hw : w.Refs e n n) (hn : n + w.delayed.length + 2 < 2 ^ 61) {a : Acquire}
    (ha : a ∈ w.held) (first : Bool) : (w.releaseDb e a first).Inv e := by
  -- the reference of the slot is given back
  have hback : ∀ (w' : RankDb) (k : ℕ), w'.Refs e (n + k) (n + k) → a ∈ w'.held →
      { w'.returnDb e with held := (w'.returnDb e).held.erase a }.Inv e := by
    intro w' k hw' ha'
    obtain ⟨m, hm⟩ : ∃ m, n + k = m + 1 := by
      refine Nat.exists_eq_add_one.2 ?_
      rw [← hw'.held]
      exact length_pos_of_mem ha'
    rw [hm] at hw'
    have hr := hw'.returnDb
    have hlen : (w'.held.erase a).length = m := by
      rw [length_erase_of_mem ha', hw'.held, Nat.add_sub_cancel]
    exact Refs.inv { hr with held := hlen }
  unfold RankDb.releaseDb
  split_ifs with hwrite hlocal hfound
  · obtain ⟨k, hk, -, hpre⟩ := hw.progressFrontier (.inl rfl) hn
    exact hback _ k hk (hpre.subset ha)
  · have hl := (hw.lookup (by omega)).returnDb
    refine hback _ 0 hl ?_
    rwa [hw.lookupDb (by omega)]
  · exact hback w 0 hw ha
  · exact hback w 0 hw ha

lemma Refs.releaseCreatedDb (hw : w.Refs e n n) (hn : n + w.delayed.length + 3 < 2 ^ 61)
    (edt : EdtGuid) : (w.releaseCreatedDb e edt).Inv e := by
  have hl := hw.lookup (by omega)
  have hdelayed : (w.lookupDb e).1.delayed = w.delayed := by rw [hw.lookupDb (by omega)]; rfl
  obtain ⟨k, hk, -⟩ := hl.progressFrontier (.inl rfl) (by rw [hdelayed]; omega)
  rw [Nat.add_right_comm] at hk
  simp only [RankDb.releaseCreatedDb, hw.found (by omega)]
  exact (hk.returnDb.creators _).inv

lemma Refs.waitReleaseDbs (hw : w.Refs e n n) (hn : n + w.delayed.length + 3 < 2 ^ 61)
    {edt : EdtGuid} (hfit : edt ∉ w.creators) : (w.waitReleaseDbs e edt).Inv e := by
  simp only [RankDb.waitReleaseDbs]
  split_ifs
  · obtain ⟨k, hk, -⟩ := hw.progressFrontier (.inl rfl) (by omega)
    exact hk.inv
  · exact hw.inv

lemma Refs.waitReacquireDbs (hw : w.Refs e n h) {edt : EdtGuid} (hfit : edt ∉ w.creators) :
    (w.waitReacquireDbs e edt).Refs e n h := by
  simp only [RankDb.waitReacquireDbs]
  split_ifs
  · exact hw.frontiers _
  · exact hw

/-! ### A rank without the datablock -/

lemma lookupDb_of_empty (hlock : w.item.lock = 0) : w.lookupDb e = (w, false) := by
  simp [RankDb.lookupDb, RouteItem.lookupDb, found_of_empty hlock]

lemma refs_publish (hlock : w.item.lock = 0) (hoo : w.ooList = []) (hheld : w.held = []) :
    (w.item.addItemRace e.guid e.self).2 = true ∧
      { w with
        item := (w.item.addItemRace e.guid e.self).1
        frontiers := newDbList e }.Refs e 0 0 := by
  have hrace : w.item.addItemRace e.guid e.self =
      ({ w.item with lock := word 2 0, key := e.guid, data := some 1, rank := e.self }, true) := by
    rw [addItemRace, if_neg (by simp [found_of_empty hlock]),
      addItem_eq]
  rw [hrace]
  exact ⟨rfl, ⟨rfl, rfl, by decide, Nat.two_pow_pos 61⟩, rfl, hoo, by rw [hheld]; rfl⟩

lemma inv_dbCreate_of_empty (hlock : w.item.lock = 0) (hoo : w.ooList = []) (hheld : w.held = [])
    (edt : EdtGuid) : (w.dbCreate e edt).Inv e := by
  obtain ⟨hnew, hrefs⟩ := refs_publish (e := e) hlock hoo hheld
  simp only [RankDb.dbCreate, hnew, if_true]
  have hfired := hrefs.fireOo
  exact Refs.inv { hfired with }

lemma inv_handleDbReceived_of_empty (hlock : w.item.lock = 0) (hoo : w.ooList = [])
    (hheld : w.held = []) (sameSize : Bool) : (w.handleDbReceived e sameSize).Inv e := by
  obtain ⟨hnew, hrefs⟩ := refs_publish (e := e) hlock hoo hheld
  have hno : w.item.lookupItemWithState e.guid .allocatedKey true = (w.item, .noKey) := by
    simp [lookupItemWithState, found_of_empty hlock]
  simp only [RankDb.handleDbReceived, hno, hnew]
  exact hrefs.fireOo.inv

end Handlers

/-! ### Runs -/

section Runs

variable {e} {w w' : RankDb} {l : Act}

lemma inv_next_of_absent (hlock : w.item.lock = 0) (hoo : w.ooList = []) (hheld : w.held = [])
    (hfit : w.Fit e l) (hst : next e w l = some w') : w'.Inv e := by
  have hsame : w.Inv e := .absent hlock hoo hheld
  have habsent : w.present = false := by simp [present, hlock]
  have hlookup := lookupDb_of_empty (e := e) hlock
  cases l with
  | create edt =>
    obtain ⟨-, hst⟩ := ite_none_right_eq_some.1 hst
    cases hst
    exact inv_dbCreate_of_empty hlock hoo hheld edt
  | dbSend sameSize =>
    cases hst
    exact inv_handleDbReceived_of_empty hlock hoo hheld sameSize
  | dbRequest | fullRequest => simp [Fit, habsent] at hfit
  | fullSend => exact hfit.elim
  | alreadyLocal a edt =>
    cases hst
    simpa [handleSendAlreadyLocal, hlookup, dbRequestCallback] using hsame
  | update rank data =>
    cases hst
    simpa [handleUpdateDb, lookupItemWithState, found_of_empty hlock] using hsame
  | updateGuid rank =>
    cases hst
    simpa [handleUpdateDbGuid, found_of_empty hlock] using hsame
  | acquire a flags =>
    cases hst
    simp only [Fit, habsent, Bool.false_eq_true, if_false] at hfit
    simpa [RankDb.acquireDb, hlookup, hfit] using hsame
  | acquireSlice =>
    cases hst
    have hlocal : e.isLocal = false := by simpa [Fit, habsent] using hfit
    simpa [RankDb.acquireSlice, hlookup, hlocal] using hsame
  | release a first =>
    rw [next, hheld] at hst
    simp at hst
  | releaseCreated edt =>
    obtain ⟨-, hst⟩ := ite_none_right_eq_some.1 hst
    cases hst
    simp only [RankDb.releaseCreatedDb, hlookup]
    exact .absent hlock hoo hheld
  | waitRelease edt =>
    cases hst
    simpa [RankDb.waitReleaseDbs, if_neg hfit, writes, hheld] using hsame
  | waitReacquire edt =>
    cases hst
    simpa [RankDb.waitReacquireDbs, if_neg hfit, writes, hheld] using hsame

lemma inv_next_of_present (hw : w.Refs e w.held.length w.held.length) (hroom : w.Room)
    (hfit : w.Fit e l) (hst : next e w l = some w') : w'.Inv e := by
  have hpresent := hw.isPresent
  unfold Room at hroom
  have hn : w.held.length + 2 < 2 ^ 61 := by omega
  cases l with
  | create edt =>
    obtain ⟨-, hst⟩ := ite_none_right_eq_some.1 hst
    cases hst
    exact (hw.dbCreate edt).inv
  | dbSend sameSize | alreadyLocal a edt => exact absurd hpresent hfit
  | dbRequest rank mode flags =>
    cases hst
    exact (hw.remoteDbSend hn hfit.2 mode flags).inv
  | fullRequest x =>
    cases hst
    exact (hw.remoteDbFullSend hn hfit.2 x).inv
  | fullSend => exact hfit.elim
  | update rank data =>
    cases hst
    by_cases hlocal : e.isLocal
    · obtain ⟨rfl, hrank⟩ := hfit hlocal hpresent
      exact hw.handleUpdateDb hrank (by omega)
    · rw [handleUpdateDb, if_neg hlocal]
      exact hw.inv
  | updateGuid rank =>
    cases hst
    exact (hw.handleUpdateDbGuid rank).inv
  | acquire a flags =>
    cases hst
    rw [Fit, if_pos hpresent] at hfit
    exact hw.acquireDb hn flags hfit
  | acquireSlice =>
    cases hst
    exact (hw.acquireSlice hn).inv
  | release a first =>
    obtain ⟨ha, hst⟩ := ite_none_right_eq_some.1 hst
    cases hst
    exact hw.releaseDb (by omega) ha first
  | releaseCreated edt =>
    obtain ⟨-, hst⟩ := ite_none_right_eq_some.1 hst
    cases hst
    exact hw.releaseCreatedDb hroom edt
  | waitRelease edt =>
    cases hst
    exact hw.waitReleaseDbs hroom hfit
  | waitReacquire edt =>
    cases hst
    exact (hw.waitReacquireDbs hfit).inv

end Runs

/-- A datablock of rank 0, seen from the rank `self` of two. -/
def aSite (self : ℕ) : DbSite where
  guid := Guid.make 6 0 1
  dbType := .dbDefault
  self := self
  ranks := 2

def aWrite (key : UInt64) : Acquire := ⟨.ofKey key, 0, .ew⟩

end RankDb

end Arts
