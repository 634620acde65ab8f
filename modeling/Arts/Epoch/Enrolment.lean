import Arts.Guid
import Arts.Machine.Basic

/-!
# The epochs of the EDTs on a thread

An EDT is finished once in each epoch it is enrolled in, at any depth of nesting, while the lists
have less than `2 ^ 32` entries (**`EdtThread.thread_balanced`**).
-/

namespace Arts

open List Function Option Guid

/-- `thread_local_t`: what a thread knows about the EDT it runs. The lists may be `NULL`. -/
structure EdtTls where
  currentEdtGuid : Option EdtGuid := none
  currentEdt : Option EdtGuid := none
  epochList : Option (List Guid) := none
  createdDbList : Option (List Guid) := none
  deriving DecidableEq

namespace EdtTls

/-- `arts_set_current_epoch_guid` -/
def setCurrentEpochGuid (t : EdtTls) (g : Guid) : EdtTls :=
  if g = null then t else { t with epochList := some (t.epochList.getD [] ++ [g]) }

/-- `arts_set_thread_local_edt_info`: the lists are reset. -/
def setThreadLocalEdtInfo (t : EdtTls) (e : EdtGuid) (epoch : Guid) : EdtTls :=
  setCurrentEpochGuid
    { currentEdtGuid := some e
      currentEdt := some e
      epochList := t.epochList.map fun _ => []
      createdDbList := t.createdDbList.map fun _ => [] } epoch

/-- `arts_track_created_db` -/
def trackCreatedDb (t : EdtTls) (g : Guid) : EdtTls :=
  { t with createdDbList := some (t.createdDbList.getD [] ++ [g]) }

/-- `arts_check_epoch_is_root` finds the first entry, and the wait sets it to `NULL_GUID`. -/
def unsetEpoch (t : EdtTls) (g : Guid) : EdtTls :=
  { t with epochList := t.epochList.map fun l => l.replace g null }

/-- `epoch_array_length`, an `unsigned int` -/
def epochArrayLength (t : EdtTls) : ℕ := (t.epochList.getD []).length % 2 ^ 32

/-- The epochs that `arts_increment_finished_epoch_list` goes through. -/
def finishedEpochs (t : EdtTls) : List Guid :=
  ((t.epochList.getD []).take t.epochArrayLength).filter (· ≠ null)

/-- `arts_unset_thread_local_edt_info`: a list of more than `MAX_EPOCH_ARRAY_LIST` entries is deleted. -/
def unsetThreadLocalEdtInfo (t : EdtTls) : EdtTls :=
  { currentEdtGuid := none
    currentEdt := none
    epochList := if 32 < t.epochArrayLength then none else t.epochList.map fun _ => []
    createdDbList := t.createdDbList }

end EdtTls

/-- The enrolments of an EDT that are open, and the datablocks it has created. -/
structure EdtLists where
  epochs : List Guid := []
  createdDbs : List Guid := []

/-- A thread: its lists, and those saved by the EDTs that wait. -/
structure EdtThread where
  tls : EdtTls := {}
  saved : List EdtTls := []
  started : List EdtGuid := []
  ended : List EdtGuid := []
  /-- The entries pushed by each EDT. -/
  pushed : List (EdtGuid × Guid) := []
  /-- The calls of `increment_finished_epoch`, with the EDT that is current. -/
  finished : List (EdtGuid × Guid) := []
  /-- What each EDT has done itself. -/
  own : EdtGuid → EdtLists := fun _ => {}

namespace EdtThread

inductive Act where
  /-- The scheduler runs an EDT. -/
  | run (e : EdtGuid) (epoch : Guid)
  /-- `arts_start_epoch` or `arts_initialize_and_start_epoch` -/
  | startEpoch (g : Guid)
  | createDb (g : Guid)
  | waitOnHandle (g : Guid)
  | yield
  /-- The scheduler returns into the wait or the yield. -/
  | resume
  /-- The EDT ends. -/
  | finish

/-- `arts_save_thread_local` -/
def save (s : EdtThread) : EdtThread := { s with tls := {}, saved := s.tls :: s.saved }

/-- A step of the EDT `e`. -/
def act (s : EdtThread) (e : EdtGuid) : Act → Option EdtThread
  | .startEpoch g =>
    if g = null then none
    else some { s with
      tls := s.tls.setCurrentEpochGuid g
      pushed := s.pushed ++ [(e, g)]
      own := update s.own e { s.own e with epochs := (s.own e).epochs ++ [g] } }
  | .createDb g => some { s with
      tls := s.tls.trackCreatedDb g
      own := update s.own e { s.own e with createdDbs := (s.own e).createdDbs ++ [g] } }
  | .waitOnHandle g =>
    if g = null then none
    else if g ∈ s.tls.epochList.getD [] then
      some <| save { s with
        tls := s.tls.unsetEpoch g
        finished := s.finished ++ [(e, g)]
        own := update s.own e { s.own e with epochs := (s.own e).epochs.erase g } }
    else some s
  | .yield => some s.save
  | .finish => some { s with
      tls := s.tls.unsetThreadLocalEdtInfo
      finished := s.finished ++ s.tls.finishedEpochs.map fun g => (e, g)
      ended := s.ended ++ [e]
      own := update s.own e { s.own e with epochs := [] } }
  | _ => none

/-- An EDT runs once; epochs that are started or waited for exist. -/
def next (s : EdtThread) (l : Act) : Option EdtThread :=
  match s.tls.currentEdt with
  | some e => s.act e l
  | none =>
    match l with
    | .run e epoch =>
      if e ∈ s.started then none
      else some { s with
        tls := s.tls.setThreadLocalEdtInfo e epoch
        started := s.started ++ [e]
        pushed := if epoch = null then s.pushed else s.pushed ++ [(e, epoch)]
        own := update s.own e { epochs := if epoch = null then [] else [epoch] } }
    | .resume =>
      -- `arts_restore_thread_local` deletes the lists that are there
      match s.saved with
      | t :: ts => some { s with tls := t, saved := ts }
      | [] => none
    | _ => none

def machine : Machine EdtThread Act where
  init s := s = {}
  next := next

/-- **The condition on the steps.** -/
def Fit (s : EdtThread) : Act → Prop
  | .startEpoch _ => (s.tls.epochList.getD []).length + 1 < 2 ^ 32
  | _ => True

instance (s : EdtThread) : (l : Act) → Decidable (s.Fit l)
  | .startEpoch _ => inferInstanceAs (Decidable (_ < _))
  | .run .. | .createDb _ | .waitOnHandle _ | .yield | .resume | .finish => isTrue trivial

end EdtThread

/-- The thread shows an EDT its own lists. -/
structure EdtTls.Shows (t : EdtTls) (own : EdtGuid → EdtLists) : Prop where
  guid : t.currentEdtGuid = t.currentEdt
  epochs : ∀ e, t.currentEdt = some e →
    (t.epochList.getD []).filter (· ≠ null) = (own e).epochs
  createdDbs : ∀ e, t.currentEdt = some e → t.createdDbList.getD [] = (own e).createdDbs

/-- **The enrolments are balanced.** -/
structure EdtThread.Balanced (s : EdtThread) : Prop where
  shows : s.tls.Shows s.own
  balance : ∀ e g, s.pushed.count (e, g) = s.finished.count (e, g) + (s.own e).epochs.count g
  ended : ∀ e ∈ s.ended, (s.own e).epochs = []

lemma filter_replace_null {g : Guid} (hg : g ≠ null) (l : List Guid) :
    (l.replace g null).filter (· ≠ null) = (l.filter (· ≠ null)).erase g := by
  induction l with
  | nil => rfl
  | cons a l ih =>
    by_cases ha : g = a
    · subst ha
      simp [hg]
    · have hga : (g == a) = false := beq_eq_false_iff_ne.2 ha
      have hag : (a == g) = false := beq_eq_false_iff_ne.2 (Ne.symm ha)
      rw [replace_cons, hga]
      by_cases hn : a = null
      · simpa [hn] using ih
      · simpa [hn, hag] using ih

lemma EdtTls.Shows.update {t : EdtTls} {own : EdtGuid → EdtLists} {e : EdtGuid} (h : t.Shows own)
    (he : t.currentEdt ≠ some e) (x : EdtLists) : t.Shows (update own e x) := by
  have hne : ∀ e', t.currentEdt = some e' → e' ≠ e := fun e' h' heq => he (heq ▸ h')
  refine ⟨h.guid, fun e' h' => ?_, fun e' h' => ?_⟩
  · rw [update_of_ne (hne e' h')]
    exact h.epochs e' h'
  · rw [update_of_ne (hne e' h')]
    exact h.createdDbs e' h'

lemma EdtTls.Shows.of_own {t : EdtTls} (own : EdtGuid → EdtLists) {e : EdtGuid} {x : EdtLists}
    (hcur : t.currentEdt = some e) (hguid : t.currentEdtGuid = some e)
    (hepochs : (t.epochList.getD []).filter (· ≠ null) = x.epochs)
    (hdbs : t.createdDbList.getD [] = x.createdDbs) : t.Shows (Function.update own e x) := by
  refine ⟨hguid.trans hcur.symm, fun e' he' => ?_, fun e' he' => ?_⟩ <;>
    obtain rfl := some.inj (hcur.symm.trans he') <;> rw [update_self]
  · exact hepochs
  · exact hdbs

namespace EdtThread

structure Inv (s : EdtThread) : Prop where
  shows : ∀ t ∈ s.tls :: s.saved, t.Shows s.own
  small : ∀ t ∈ s.tls :: s.saved, (t.epochList.getD []).length < 2 ^ 32
  nodup : ((s.tls :: s.saved).filterMap EdtTls.currentEdt).Nodup
  active : ∀ e ∈ (s.tls :: s.saved).filterMap EdtTls.currentEdt, e ∈ s.started ∧ e ∉ s.ended
  ended : s.ended ⊆ s.started
  idle : ∀ e, e ∉ s.started ∨ e ∈ s.ended → (s.own e).epochs = []
  balance : ∀ e g, s.pushed.count (e, g) = s.finished.count (e, g) + (s.own e).epochs.count g

namespace Inv

variable {s : EdtThread} {e : EdtGuid}

lemma balanced (h : s.Inv) : s.Balanced :=
  ⟨h.shows s.tls mem_cons_self, h.balance, fun e he => h.idle e (.inr he)⟩

lemma save (h : s.Inv) : s.save.Inv := by
  have hcons : ∀ t : EdtTls, t ∈ s.save.tls :: s.save.saved → t = {} ∨ t ∈ s.tls :: s.saved :=
    fun t ht => mem_cons.1 ht
  refine { h with shows := fun t ht => ?_, small := fun t ht => ?_ }
  · obtain rfl | ht := hcons t ht
    · exact ⟨rfl, nofun, nofun⟩
    · exact h.shows t ht
  · obtain rfl | ht := hcons t ht
    · decide
    · exact h.small t ht

lemma ne_of_saved (h : s.Inv) (he : s.tls.currentEdt = some e) {t : EdtTls} (ht : t ∈ s.saved) :
    t.currentEdt ≠ some e := by
  intro hte
  have hnd := h.nodup
  rw [filterMap_cons_some he] at hnd
  exact (nodup_cons.1 hnd).1 (mem_filterMap.2 ⟨t, ht, hte⟩)

lemma balance_move (h : s.Inv) {x : EdtLists} {P F : List Guid}
    (hbal : ∀ g, P.count g + (s.own e).epochs.count g = F.count g + x.epochs.count g) (e' : EdtGuid) (g : Guid) :
    (s.pushed ++ P.map fun g => (e, g)).count (e', g) =
      (s.finished ++ F.map fun g => (e, g)).count (e', g) + (update s.own e x e').epochs.count g := by
  have hmap : ∀ l : List Guid, (l.map fun g => (e, g)).count (e', g) = if e' = e then l.count g else 0 := by
    intro l
    split_ifs with he
    · subst he
      exact count_map_of_injective l _ (fun a b hab => (Prod.mk.inj hab).2) g
    · exact count_eq_zero.2 fun hm => by simp_all
  have hs := h.balance e' g
  rw [count_append, count_append, hmap, hmap]
  by_cases he : e' = e
  · subst he
    have := hbal g
    rw [if_pos rfl, if_pos rfl, update_self]
    omega
  · rw [if_neg he, if_neg he, update_of_ne he]
    omega

lemma move (h : s.Inv) (he : s.tls.currentEdt = some e) {t : EdtTls} {x : EdtLists} (P F : List Guid)
    (ht : t.currentEdt = some e) (hshows : t.Shows (update s.own e x))
    (hsmall : (t.epochList.getD []).length < 2 ^ 32)
    (hbal : ∀ g, P.count g + (s.own e).epochs.count g = F.count g + x.epochs.count g) :
    { s with
      tls := t
      pushed := s.pushed ++ P.map fun g => (e, g)
      finished := s.finished ++ F.map fun g => (e, g)
      own := update s.own e x }.Inv := by
  have hedts : (t :: s.saved).filterMap EdtTls.currentEdt =
      (s.tls :: s.saved).filterMap EdtTls.currentEdt := by
    rw [filterMap_cons_some ht, filterMap_cons_some he]
  have hact := h.active e (by simp [filterMap_cons_some he])
  refine ⟨fun t' ht' => ?_, fun t' ht' => ?_, hedts ▸ h.nodup, ?_, h.ended,
    fun e' he' => ?_, h.balance_move hbal⟩
  · obtain rfl | ht' := mem_cons.1 ht'
    · exact hshows
    · exact (h.shows t' (.tail _ ht')).update (h.ne_of_saved he ht') x
  · obtain rfl | ht' := mem_cons.1 ht'
    · exact hsmall
    · exact h.small t' (.tail _ ht')
  · exact fun e' he' => h.active e' (hedts ▸ he')
  · have hne : e' ≠ e := by
      rintro rfl
      exact he'.elim (· hact.1) hact.2
    exact (congrArg EdtLists.epochs (update_of_ne hne _ _)).trans (h.idle e' he')

lemma finish (h : s.Inv) (he : s.tls.currentEdt = some e) :
    { s with
      tls := s.tls.unsetThreadLocalEdtInfo
      finished := s.finished ++ s.tls.finishedEpochs.map fun g => (e, g)
      ended := s.ended ++ [e]
      own := update s.own e { s.own e with epochs := [] } }.Inv := by
  have hsmall := h.small s.tls mem_cons_self
  have hfin : s.tls.finishedEpochs = (s.own e).epochs := by
    rw [EdtTls.finishedEpochs, EdtTls.epochArrayLength, Nat.mod_eq_of_lt hsmall, take_length]
    exact (h.shows s.tls mem_cons_self).epochs e he
  have hedts : (s.tls :: s.saved).filterMap EdtTls.currentEdt =
      e :: s.saved.filterMap EdtTls.currentEdt := filterMap_cons_some he
  have hnd := nodup_cons.1 (hedts ▸ h.nodup)
  refine ⟨fun t' ht' => ?_, fun t' ht' => ?_, hnd.2, fun e' he' => ?_, ?_, fun e' he' => ?_, fun e' g => ?_⟩
  · obtain rfl | ht' := mem_cons.1 ht'
    · exact ⟨rfl, nofun, nofun⟩
    · exact (h.shows t' (.tail _ ht')).update (h.ne_of_saved he ht') _
  · obtain rfl | ht' := mem_cons.1 ht'
    · simp only [EdtTls.unsetThreadLocalEdtInfo]
      split_ifs
      · decide
      · cases s.tls.epochList <;> simp
    · exact h.small t' (.tail _ ht')
  · have hact := h.active e' (hedts ▸ mem_cons_of_mem e he')
    have hne : e' ≠ e := fun heq => hnd.1 (heq ▸ he')
    exact ⟨hact.1, by simp [hact.2, hne]⟩
  · have hact := h.active e (hedts ▸ mem_cons_self)
    exact append_subset.2 ⟨h.ended, by simpa using hact.1⟩
  · by_cases hne : e' = e
    · subst hne
      simp
    · exact (congrArg EdtLists.epochs (update_of_ne hne _ _)).trans
        (h.idle e' (he'.imp_right fun hm => by simpa [hne] using hm))
  · have hb := h.balance_move (e := e) (x := { s.own e with epochs := [] }) (P := [])
      (F := s.tls.finishedEpochs) (fun g => by simp [hfin]) e' g
    simpa using hb

lemma run (h : s.Inv) (hcur : s.tls.currentEdt = none) (hnew : e ∉ s.started) (epoch : Guid) :
    { s with
      tls := s.tls.setThreadLocalEdtInfo e epoch
      started := s.started ++ [e]
      pushed := if epoch = null then s.pushed else s.pushed ++ [(e, epoch)]
      own := update s.own e { epochs := if epoch = null then [] else [epoch] } }.Inv := by
  obtain ⟨P, hP⟩ : ∃ P : List Guid, P = if epoch = null then [] else [epoch] := ⟨_, rfl⟩
  have hpushed : (if epoch = null then s.pushed else s.pushed ++ [(e, epoch)]) =
      s.pushed ++ P.map fun g => (e, g) := by
    rw [hP]
    split_ifs <;> simp
  have ht : (s.tls.setThreadLocalEdtInfo e epoch).currentEdt = some e ∧
      (s.tls.setThreadLocalEdtInfo e epoch).currentEdtGuid = some e ∧
      (s.tls.setThreadLocalEdtInfo e epoch).epochList.getD [] = P ∧
      (s.tls.setThreadLocalEdtInfo e epoch).createdDbList.getD [] = [] := by
    rw [hP]
    unfold EdtTls.setThreadLocalEdtInfo EdtTls.setCurrentEpochGuid
    cases s.tls.epochList <;> cases s.tls.createdDbList <;> split_ifs <;> simp
  have hfilter : P.filter (· ≠ null) = P := by
    rw [hP]
    split_ifs with h <;> simp [h]
  have hedts : (s.tls :: s.saved).filterMap EdtTls.currentEdt = s.saved.filterMap EdtTls.currentEdt :=
    filterMap_cons_none hcur
  have hnot : e ∉ s.saved.filterMap EdtTls.currentEdt := fun hm => hnew (h.active e (hedts ▸ hm)).1
  rw [hpushed, ← hP]
  refine ⟨fun t ht' => ?_, fun t ht' => ?_, ?_, fun e' he' => ?_,
    fun e' he' => mem_append_left _ (h.ended he'), fun e' he' => ?_, fun e' g => ?_⟩
  · obtain rfl | ht' := mem_cons.1 ht'
    · exact .of_own _ ht.1 ht.2.1 (by rw [ht.2.2.1, hfilter]) ht.2.2.2
    · refine (h.shows t (.tail _ ht')).update (fun hte => ?_) _
      exact hnot (mem_filterMap.2 ⟨t, ht', hte⟩)
  · obtain rfl | ht' := mem_cons.1 ht'
    · rw [ht.2.2.1, hP]
      split_ifs <;> simp
    · exact h.small t (.tail _ ht')
  · rw [filterMap_cons_some ht.1]
    exact nodup_cons.2 ⟨hnot, hedts ▸ h.nodup⟩
  · rw [filterMap_cons_some ht.1] at he'
    obtain rfl | he' := mem_cons.1 he'
    · exact ⟨by simp, fun hm => hnew (h.ended hm)⟩
    · have hact := h.active e' (hedts ▸ he')
      exact ⟨by simp [hact.1], hact.2⟩
  · have hne : e' ≠ e := by
      rintro rfl
      exact he'.elim (· (by simp)) fun hm => hnew (h.ended hm)
    exact (congrArg EdtLists.epochs (update_of_ne hne _ _)).trans
      (h.idle e' (he'.imp_left fun hm hs => hm (by simp [hs])))
  · have := h.balance_move (e := e) (x := { epochs := P }) (P := P) (F := [])
      (fun g => by simp [h.idle e (.inl hnew)]) e' g
    simpa using this

lemma act (h : s.Inv) (he : s.tls.currentEdt = some e) {l : Act} (hfit : s.Fit l) {s' : EdtThread}
    (hst : s.act e l = some s') : s'.Inv := by
  have hshows := h.shows s.tls mem_cons_self
  have hsmall := h.small s.tls mem_cons_self
  have hguid : s.tls.currentEdtGuid = some e := hshows.guid.trans he
  cases l with
  | run | resume => cases hst
  | startEpoch g =>
    obtain ⟨hg, ⟨⟩⟩ := ite_none_left_eq_some.1 hst
    have ht : s.tls.setCurrentEpochGuid g =
        { s.tls with epochList := some (s.tls.epochList.getD [] ++ [g]) } := if_neg hg
    have := h.move he (t := s.tls.setCurrentEpochGuid g)
      (x := { s.own e with epochs := (s.own e).epochs ++ [g] }) [g] [] (by rw [ht]; exact he) ?_ ?_ ?_
    · simpa using this
    · rw [ht]
      refine .of_own _ he hguid ?_ (hshows.createdDbs e he)
      simp only [getD_some, filter_append, hshows.epochs e he]
      simp [hg]
    · rw [ht]
      have hlen : (s.tls.epochList.getD []).length + 1 < 2 ^ 32 := hfit
      simpa using hlen
    · intro g'
      simp only [count_append, count_nil]
      omega
  | createDb g =>
    cases hst
    have := h.move he (t := s.tls.trackCreatedDb g)
      (x := { s.own e with createdDbs := (s.own e).createdDbs ++ [g] }) [] [] he
      (.of_own _ he hguid (hshows.epochs e he) ?_) hsmall fun _ => rfl
    · simpa using this
    · simp [EdtTls.trackCreatedDb, hshows.createdDbs e he]
  | waitOnHandle g =>
    obtain ⟨hg, hst⟩ := ite_none_left_eq_some.1 hst
    split_ifs at hst with hm
    · cases hst
      obtain ⟨l, hl⟩ : ∃ l, s.tls.epochList = some l := by
        cases hl : s.tls.epochList with
        | none => simp [hl] at hm
        | some l => exact ⟨l, rfl⟩
      have hown : l.filter (· ≠ null) = (s.own e).epochs := by
        have := hshows.epochs e he
        rwa [hl] at this
      have hmem : g ∈ (s.own e).epochs := by
        rw [hl, getD_some] at hm
        rw [← hown]
        exact mem_filter.2 ⟨hm, by simpa using hg⟩
      have := h.move he (t := s.tls.unsetEpoch g)
        (x := { s.own e with epochs := (s.own e).epochs.erase g }) [] [g] he
        (.of_own _ he hguid ?_ (hshows.createdDbs e he)) ?_ fun g' => ?_
      · refine Inv.save ?_
        simpa using this
      · simp only [EdtTls.unsetEpoch, hl, map_some, getD_some]
        rw [filter_replace_null hg, hown]
      · simpa [EdtTls.unsetEpoch, hl] using hsmall
      · rw [count_nil, Nat.zero_add, (perm_cons_erase hmem).count_eq g', count_cons,
          count_singleton, Nat.add_comm]
    · cases hst
      exact h
  | yield =>
    cases hst
    exact h.save
  | finish =>
    cases hst
    exact h.finish he

end Inv

/-- **Every enrolment of an EDT is finished once, by the EDT itself**, at any depth of nesting. -/
theorem thread_balanced {s : EdtThread} (h : (machine.restrict Fit).Reachable s) : s.Balanced := by
  refine Inv.balanced (h.invariant ?_ ?_)
  · rintro _ rfl
    refine ⟨fun t ht => ?_, fun t ht => ?_, .nil, nofun, nofun, fun _ _ => rfl, fun _ _ => rfl⟩
    · obtain rfl := mem_singleton.1 ht
      exact ⟨rfl, nofun, nofun⟩
    · obtain rfl := mem_singleton.1 ht
      decide
  · intro s l s' _ hi hst
    obtain ⟨hfit, hst⟩ := Machine.restrict_next.1 hst
    simp only [machine, next] at hst
    split at hst
    · rename_i e he
      exact hi.act he hfit hst
    · rename_i hcur
      cases l with
      | run e epoch =>
        obtain ⟨hnew, ⟨⟩⟩ := ite_none_left_eq_some.1 hst
        exact hi.run hcur hnew epoch
      | resume =>
        simp only at hst
        split at hst
        · rename_i t ts hs
          cases hst
          have hmem : ∀ t' ∈ t :: ts, t' ∈ s.tls :: s.saved := fun t' ht' => hs ▸ .tail _ ht'
          have hedts : (s.tls :: s.saved).filterMap EdtTls.currentEdt =
              (t :: ts).filterMap EdtTls.currentEdt := by
            rw [filterMap_cons_none hcur, hs]
          exact ⟨fun t' ht' => hi.shows t' (hmem t' ht'), fun t' ht' => hi.small t' (hmem t' ht'),
            hedts ▸ hi.nodup, hedts ▸ hi.active, hi.ended, hi.idle, hi.balance⟩
        · cases hst
      | startEpoch | createDb | waitOnHandle | yield | finish => cases hst

/-- The EDT 1 starts the epoch 7 and waits on it; meanwhile the EDT 2 of the epoch 7 runs and ends. -/
theorem balanced_nested : ∃ s : EdtThread, (s.ended.length = 2 ∧ s.finished.length = 3) ∧ s.Balanced := by
  obtain ⟨s, hs, hP⟩ := Machine.Reachable.exists_of_exec (M := machine.restrict Fit)
    (P := fun s : EdtThread => s.ended.length = 2 ∧ s.finished.length = 3)
    (r := [.run (.ofKey 1) 5, .startEpoch 7, .createDb 9, .waitOnHandle 7, .run (.ofKey 2) 7, .createDb 8, .yield,
      .resume, .finish, .resume, .finish]) rfl (by decide +kernel)
  exact ⟨s, hP, thread_balanced hs⟩

lemma exists_pushed (n : ℕ) : ∃ s : EdtThread, machine.Reachable s ∧ s.tls.currentEdt = some (.ofKey 1) ∧
    s.tls.epochList = some (replicate (n + 1) 5) ∧
    s.pushed = replicate (n + 1) (.ofKey 1, 5) ∧ s.finished = [] := by
  induction n with
  | zero =>
    exact Machine.Reachable.exists_of_exec
      (r := [.run (.ofKey 1) 5]) rfl (by decide +kernel)
  | succ n ih =>
    obtain ⟨s, hs, hcur, hlist, hpushed, hfin⟩ := ih
    have hst : machine.next s (.startEpoch 5) = some { s with
        tls := s.tls.setCurrentEpochGuid 5
        pushed := s.pushed ++ [(.ofKey 1, 5)]
        own := update s.own (.ofKey 1)
          { s.own (.ofKey 1) with epochs := (s.own (.ofKey 1)).epochs ++ [5] } } := by
      simp only [machine, EdtThread.next, hcur]
      rfl
    refine ⟨_, hs.next hst, hcur, ?_, ?_, hfin⟩
    · rw [EdtTls.setCurrentEpochGuid, if_neg (by decide), hlist]
      exact congrArg some replicate_succ'.symm
    · rw [hpushed]
      exact replicate_succ'.symm

/-- **After `2 ^ 32` enrolments none of them is finished**: the length of the list is cut to 32 bits. -/
theorem enrolments_lost : ∃ s : EdtThread, machine.Reachable s ∧ EdtGuid.ofKey 1 ∈ s.ended ∧
    s.pushed.count (.ofKey 1, 5) = 2 ^ 32 ∧ s.finished = [] ∧ ¬ s.Balanced := by
  obtain ⟨n, hn⟩ : ∃ n, n + 1 = 2 ^ 32 := ⟨2 ^ 32 - 1, rfl⟩
  obtain ⟨s, hs, hcur, hlist, hpushed, hfin⟩ := exists_pushed n
  have hend : s.tls.finishedEpochs = [] := by
    rw [EdtTls.finishedEpochs, EdtTls.epochArrayLength, hlist, getD_some, length_replicate, hn,
      Nat.mod_self, take_zero, filter_nil]
  have hst : machine.next s .finish = some { s with
      tls := s.tls.unsetThreadLocalEdtInfo
      ended := s.ended ++ [.ofKey 1]
      own := update s.own (.ofKey 1) { s.own (.ofKey 1) with epochs := [] } } := by
    simp [machine, EdtThread.next, hcur, act, hend]
  have hcount : s.pushed.count (.ofKey 1, 5) = 2 ^ 32 := by
    rw [hpushed, count_replicate_self, hn]
  refine ⟨_, hs.next hst, by simp, hcount, hfin, fun hb => ?_⟩
  have hbal := hb.balance (.ofKey 1) 5
  simp only [hcount, hfin] at hbal
  cases hbal

end EdtThread

end Arts
