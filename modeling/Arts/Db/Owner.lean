import Arts.Db.Frontier
import Arts.Machine.Basic

/-!
# The requests of other ranks on the owner of a datablock

Every write request is answered once (`DbOwner.full_requests_answered`), except that of a rank which
has asked to read before (`DbOwner.write_request_lost`).
-/

namespace Arts

open List Option Frontier

/-- `arts_clear_exclusive_request`: the first frontier with the request forgets it. -/
def clearExclusiveRequest (rank : ℕ) (edt : EdtGuid) : List Frontier → List Frontier
  | [] => []
  | f :: fs =>
    if f.exclusive.any fun x => x.node == rank && x.acquire.edt == edt then
      { f with exclusive := none } :: fs
    else f :: clearExclusiveRequest rank edt fs

/-- `arts_remote_db_send_check` on the owner: the list and the messages. -/
def remoteDbSendCheck (owner : ℕ) (fs : List Frontier) (rank : ℕ) (mode : AccessMode)
    (flags : UInt32) : List Frontier × List Notice :=
  let r := addDbDuplicateEx owner fs rank none 0 mode flags
  (r.frontiers, if r.unique then [.send rank] else [])

/-- `arts_remote_db_full_send_check` on the owner: the list and the messages. -/
def remoteDbFullSendCheck (owner : ℕ) (fs : List Frontier) (x : Exclusive) :
    List Frontier × List Notice :=
  let r := addDbDuplicateEx owner fs x.node (some x.acquire.edt) x.acquire.slot x.acquire.mode 0
  if r.unique && r.onHead then
    (clearExclusiveRequest x.node x.acquire.edt r.frontiers, [.fullSend x.node x.acquire])
  else (r.frontiers, [])

/-- `acquire_dbs` on the owner, for one slot: the list and the grant. -/
def acquireDb (owner : ℕ) (fs : List Frontier) (a : Acquire) (flags : UInt32) :
    List Frontier × List Notice :=
  let r := addDbDuplicateEx owner fs owner (some a.edt) a.slot a.mode flags
  (r.frontiers, if r.onHead then [.grant a] else [])

/-- `arts_remote_handle_update_db`: with data they are on the owner from now on. -/
def handleUpdateDb (owner : ℕ) (fs : List Frontier) (rank : ℕ) (data : Bool) :
    List Frontier × List Notice :=
  progressFrontier owner (if data then owner else rank) fs

/-- The owner of a datablock. -/
structure DbOwner where
  frontiers : List Frontier
  popped : ℕ
  /-- The write requests that have been handled, each with the number of the frontier that took
  it. -/
  requests : List (Exclusive × ℕ)
  notices : List Notice
  deriving DecidableEq

namespace DbOwner

inductive Act where
  /-- `DB_REQUEST` of a rank. -/
  | dbRequest (rank : ℕ) (flags : UInt32)
  /-- `DB_FULL_REQUEST`. -/
  | fullRequest (x : Exclusive)
  | acquire (a : Acquire) (flags : UInt32)
  | release
  /-- `DB_UPDATE` of a rank, with or without data. -/
  | update (rank : ℕ) (data : Bool)

/-- The arguments with which a write request is pushed. -/
def fullRequestOf (owner : ℕ) (x : Exclusive) : FrontierRequest :=
  duplicateRequest owner x.node (some x.acquire.edt) x.acquire.slot x.acquire.mode 0

/-- The number of the frontier that takes a write request. -/
def number (owner : ℕ) (s : DbOwner) (x : Exclusive) : ℕ :=
  s.popped + taker (fullRequestOf owner x) s.frontiers

def handle (s : DbOwner) (r : List Frontier × List Notice) : DbOwner :=
  { s with frontiers := r.1, notices := s.notices ++ r.2 }

/-- The state after `arts_progress_frontier`. -/
def progress (s : DbOwner) (r : List Frontier × List Notice) : DbOwner :=
  { s.handle r with popped := if s.frontiers = [] then s.popped else s.popped + 1 }

/-- One message or call. Every write request of another rank is of another EDT. -/
def next (owner : ℕ) (s : DbOwner) : Act → Option DbOwner
  | .dbRequest rank flags =>
    if rank ≠ owner then some (s.handle (remoteDbSendCheck owner s.frontiers rank .ro flags))
    else none
  | .fullRequest x =>
    if x.node ≠ owner ∧ x.acquire.mode = .ew ∧
        ∀ y ∈ s.requests, y.1.acquire.edt ≠ x.acquire.edt then
      some { s.handle (remoteDbFullSendCheck owner s.frontiers x) with
        requests := s.requests ++ [(x, s.number owner x)] }
    else none
  | .acquire a flags =>
    if a.mode = .ro ∨ a.mode = .ew then some (s.handle (acquireDb owner s.frontiers a flags))
    else none
  | .release => some (s.progress (progressFrontier owner owner s.frontiers))
  | .update rank data => some (s.progress (handleUpdateDb owner s.frontiers rank data))

def machine (owner : ℕ) : Machine DbOwner Act where
  init s := s = ⟨autoAcquired, 0, [], []⟩
  next := next owner

/-- Every write request is answered once: when it is handled if its frontier is the head, and
otherwise when its frontier becomes the head. -/
def Answered (s : DbOwner) : Prop :=
  ∀ x n, (x, n) ∈ s.requests →
    s.notices.count (.fullSend x.node x.acquire) = if n ≤ s.popped then 1 else 0

/-- The condition on a message: a write request is not of a rank that the frontier which takes it
lists, and an update carries data. -/
def Fit (owner : ℕ) (s : DbOwner) : Act → Prop
  | .fullRequest x =>
    ∀ f ∈ s.frontiers[taker (fullRequestOf owner x) s.frontiers]?, x.node ∉ f.list
  | .update _ data => data = true
  | _ => True

instance (owner : ℕ) (s : DbOwner) (l : Act) : Decidable (s.Fit owner l) := by
  cases l <;> unfold Fit <;> infer_instance

/-- The write request that waits in the `k`-th frontier. -/
def pendingAt (s : DbOwner) (k : ℕ) : Option Exclusive := s.frontiers[k]?.bind exclusive

/-- The write requests that are not answered wait in their frontiers. -/
structure Inv (owner : ℕ) (s : DbOwner) : Prop where
  unique : ∀ x n y m, (x, n) ∈ s.requests → (y, m) ∈ s.requests →
    x.acquire.edt = y.acquire.edt → x = y ∧ n = m
  remote : ∀ x n, (x, n) ∈ s.requests → x.node ≠ owner
  /-- A request whose frontier is not the head yet is recorded there, and nothing else is. -/
  pending : ∀ k x, 0 < k → (s.pendingAt k = some x ↔ (x, s.popped + k) ∈ s.requests)
  writeSet : ∀ f ∈ s.frontiers, f.exclusive ≠ none → f.writeSet = true
  asked : ∀ node a, .fullSend node a ∈ s.notices → ∃ n, (⟨node, a⟩, n) ∈ s.requests
  answered : s.Answered

variable {owner : ℕ} {s : DbOwner}

/-! ### Steps that concern no write request of another rank -/

variable {x : Exclusive}

variable {q : FrontierRequest}

/-- An access that is not a write of another rank leaves the recorded requests alone. -/
theorem pending_push (hq : (q.write && !q.isLocal) = false) (b : Bool)
    (fs : List Frontier) (i : ℕ) :
    (pushDbToList q b fs).frontiers[i]?.bind exclusive =
      fs[i]?.bind exclusive := by
  rw [getElem?_push]
  split
  case isTrue h =>
    rw [h, bind_some, delay_exclusive, exclusive_taken hq]
    cases fs[taker q fs]? <;> rfl
  case isFalse => rfl

lemma writeSet_push (hq : (q.write && !q.isLocal) = false) (b : Bool)
    {fs : List Frontier} (h : ∀ f ∈ fs, f.exclusive ≠ none → f.writeSet = true) :
    ∀ f ∈ (pushDbToList q b fs).frontiers, f.exclusive ≠ none → f.writeSet = true := by
  intro f hf hex
  obtain ⟨i, hi⟩ := mem_iff_getElem?.1 hf
  rw [getElem?_push] at hi
  split at hi
  case isFalse => exact h f (mem_of_getElem? hi) hex
  case isTrue =>
    rw [← some.inj hi] at hex ⊢
    rw [delay_exclusive, exclusive_taken hq] at hex
    rw [delay_writeSet]
    cases hg : fs[taker q fs]? with
    | none => rw [hg] at hex; exact absurd rfl hex
    | some g =>
      rw [hg] at hex
      have hw := h g (mem_of_getElem? hg) hex
      rw [getD_some, taken_of_sealed hw]
      exact hw

lemma Inv.handle (hs : s.Inv owner) {r : List Frontier × List Notice}
    (hpend : ∀ i, r.1[i]?.bind exclusive = s.pendingAt i)
    (hseal : ∀ f ∈ r.1, f.exclusive ≠ none → f.writeSet = true)
    (hnone : ∀ node a, .fullSend node a ∉ r.2) : (s.handle r).Inv owner where
  __ := hs
  pending k x hk := by
    have h := hs.pending k x hk
    rwa [← hpend k] at h
  writeSet := hseal
  asked node a h := hs.asked node a ((mem_append.1 h).resolve_right (hnone node a))
  answered x n h := by
    have := hs.answered x n h
    rwa [DbOwner.handle, count_append, count_eq_zero.2 (hnone _ _), Nat.add_zero]

lemma Inv.push (hs : s.Inv owner) (hq : (q.write && !q.isLocal) = false)
    {ns : List Notice} (hnone : ∀ node a, .fullSend node a ∉ ns) :
    (s.handle ((pushDbToList q true s.frontiers).frontiers, ns)).Inv owner :=
  hs.handle (pending_push hq true s.frontiers) (writeSet_push hq true hs.writeSet) hnone

/-! ### The head is removed -/

lemma count_signalFrontierLocal (f : Frontier) (hx : x.node ≠ owner) :
    (signalFrontierLocal owner f).count (.fullSend x.node x.acquire) =
      if f.exclusive = some x then 1 else 0 := by
  have hsend : ((f.copies owner).map Notice.send).count (.fullSend x.node x.acquire) = 0 :=
    count_eq_zero.2 (by simp)
  have hgrant : (f.localDelayed.map Notice.grant).count (.fullSend x.node x.acquire) = 0 :=
    count_eq_zero.2 (by simp)
  rw [signalFrontierLocal, count_append, count_append, hsend, hgrant]
  cases hex : f.exclusive with
  | none => simp
  | some y =>
    by_cases hy : y = x
    · simp [hy, hx]
    · have hne : Notice.fullSend y.node y.acquire ≠ .fullSend x.node x.acquire := by
        intro h
        exact hy (by cases x; cases y; simp_all)
      by_cases hself : y.node = owner <;> simp [hself, hy, hne]

lemma count_progressFrontier (hx : x.node ≠ owner) :
    (progressFrontier owner owner s.frontiers).2.count (.fullSend x.node x.acquire) =
      if s.pendingAt 1 = some x then 1 else 0 := by
  unfold pendingAt
  rcases s.frontiers with - | ⟨f, - | ⟨g, fs⟩⟩
  · rfl
  · rfl
  · rw [progressFrontier, if_pos rfl, count_signalFrontierLocal g hx]
    rfl

lemma mem_progressFrontier {node : ℕ} {a : Acquire}
    (h : .fullSend node a ∈ (progressFrontier owner owner s.frontiers).2) :
    s.pendingAt 1 = some ⟨node, a⟩ := by
  unfold pendingAt
  rcases hfs : s.frontiers with - | ⟨f, - | ⟨g, fs⟩⟩
  · rw [hfs] at h; cases h
  · rw [hfs] at h; cases h
  · rw [hfs, progressFrontier, if_pos rfl, signalFrontierLocal] at h
    change g.exclusive = _
    cases hex : g.exclusive with
    | none => simp [hex] at h
    | some y =>
      by_cases hself : y.node = owner
      · simp [hex, hself] at h
      · have h' : node = y.node ∧ a = y.acquire := by simpa [hex, hself] using h
        rw [h'.1, h'.2]

lemma Inv.progress (hs : s.Inv owner) :
    (s.progress (progressFrontier owner owner s.frontiers)).Inv owner := by
  by_cases hnil : s.frontiers = []
  · have heq : s.progress (progressFrontier owner owner s.frontiers) =
        s.handle (s.frontiers, []) := by
      rw [DbOwner.progress, if_pos hnil, hnil]
      rfl
    rw [heq]
    exact hs.handle (fun _ => rfl) hs.writeSet (by simp)
  · set t := s.progress (progressFrontier owner owner s.frontiers) with ht
    have hpop : t.popped = s.popped + 1 := by
      rw [ht, DbOwner.progress, if_neg hnil]
    have hfr : t.frontiers = s.frontiers.tail := progressFrontier_self_fst _ _
    have hreq : t.requests = s.requests := rfl
    refine ⟨hs.unique, hs.remote, fun k x hk => ?pending, fun f hf => ?writeSet,
      fun node a h => ?asked, fun x n h => ?answered⟩
    case pending =>
      rw [hpop, hreq, pendingAt, hfr, getElem?_tail, Nat.add_assoc, Nat.add_comm 1]
      exact hs.pending (k + 1) x (Nat.succ_pos k)
    case writeSet =>
      rw [hfr] at hf
      exact hs.writeSet f (mem_of_mem_tail hf)
    case asked =>
      rcases mem_append.1 h with h | h
      · exact hs.asked node a h
      · exact ⟨_, (hs.pending 1 _ Nat.one_pos).1 (mem_progressFrontier h)⟩
    case answered =>
      change (s.notices ++ _).count _ = _
      rw [hpop, count_append, hs.answered x n h, count_progressFrontier (hs.remote x n h)]
      by_cases hx : s.pendingAt 1 = some x
      · obtain ⟨-, rfl⟩ := hs.unique x n x _ h ((hs.pending 1 x Nat.one_pos).1 hx) rfl
        simp [hx]
      · have hn : n ≠ s.popped + 1 := by
          rintro rfl
          exact hx ((hs.pending 1 x Nat.one_pos).2 h)
        split <;> split <;> omega

/-! ### A write request -/

lemma taken_fullRequest (hx : x.node ≠ owner) (hm : x.acquire.mode = .ew)
    {f : Frontier} (hf : f.writeSet = false) (hl : x.node ∉ f.list) :
    f.taken (fullRequestOf owner x) =
      ({ f with writeSet := true, list := f.list ++ [x.node], exclusive := some x }, true) := by
  have hlocal : (owner == x.node) = false := by simpa using Ne.symm hx
  have hw : x.acquire.mode.isWrite = true := by rw [hm]; rfl
  simp [taken, pushDbToFrontier, fullRequestOf, duplicateRequest, hf, pushDbToElement, hl,
    hlocal, hw]

variable {k : ℕ}

lemma open_of_taker (hx : x.node ≠ owner) (hk : taker (fullRequestOf owner x) s.frontiers = k) :
    (s.frontiers[k]?.getD {}).writeSet = false := by
  cases hf : s.frontiers[k]? with
  | none => rfl
  | some f =>
    have h := takes_of_taker (hk ▸ hf)
    have hlocal : (owner == x.node) = false := by simpa using Ne.symm hx
    simpa [takes, fullRequestOf, duplicateRequest, hlocal] using h

/-- What handling a write request does: the first unsealed frontier is sealed with the request,
which is answered if that is the head. -/
theorem remoteDbFullSendCheck_eq (hx : x.node ≠ owner)
    (hm : x.acquire.mode = .ew) (hk : taker (fullRequestOf owner x) s.frontiers = k)
    (hl : x.node ∉ (s.frontiers[k]?.getD {}).list) :
    ∃ g : Frontier, g.writeSet = true ∧ g.exclusive = (if k = 0 then none else some x) ∧
      remoteDbFullSendCheck owner s.frontiers x =
        (s.frontiers.take k ++ g :: s.frontiers.drop (k + 1),
          if k = 0 then [.fullSend x.node x.acquire] else []) := by
  have hlocal : (owner == x.node) = false := by simpa using Ne.symm hx
  have hadd : addDbDuplicateEx owner s.frontiers x.node (some x.acquire.edt) x.acquire.slot
      x.acquire.mode 0 = pushDbToList (fullRequestOf owner x) true s.frontiers := rfl
  have hdelay : ∀ (f : Frontier) (b : Bool), f.delay (fullRequestOf owner x) b = f := by
    intro f b
    simp [delay, fullRequestOf, duplicateRequest, hlocal]
  have htaken := taken_fullRequest hx hm (open_of_taker hx hk) hl
  rw [remoteDbFullSendCheck, hadd, pushDbToList_eq, hk, htaken, hdelay]
  generalize s.frontiers[k]?.getD {} = f
  by_cases h0 : k = 0
  · refine ⟨{ f with writeSet := true, list := f.list ++ [x.node], exclusive := none }, rfl, ?_, ?_⟩
    · rw [if_pos h0]
    · simp [h0, clearExclusiveRequest]
  · refine ⟨{ f with writeSet := true, list := f.list ++ [x.node], exclusive := some x }, rfl, ?_,
      ?_⟩
    · rw [if_neg h0]
    · simp [h0]

lemma Inv.fullRequest (hs : s.Inv owner) (hx : x.node ≠ owner)
    (hm : x.acquire.mode = .ew) (hnew : ∀ y ∈ s.requests, y.1.acquire.edt ≠ x.acquire.edt)
    (hfit : s.Fit owner (.fullRequest x)) :
    Inv owner { s.handle (remoteDbFullSendCheck owner s.frontiers x) with
      requests := s.requests ++ [(x, s.number owner x)] } := by
  obtain ⟨k, hk⟩ : ∃ k, taker (fullRequestOf owner x) s.frontiers = k := ⟨_, rfl⟩
  have hkF : k ≤ s.frontiers.length := hk ▸ taker_le _ _
  have hl : x.node ∉ (s.frontiers[k]?.getD {}).list := by
    cases hf : s.frontiers[k]? with
    | none => exact not_mem_nil
    | some f => exact hfit f (hk ▸ hf)
  obtain ⟨g, hgw, hgx, heq⟩ := remoteDbFullSendCheck_eq hx hm hk hl
  have hnumber : s.number owner x = s.popped + k := by rw [number, hk]
  -- no request is recorded in the frontier yet
  have hfree : ∀ y, 0 < k → (y, s.popped + k) ∉ s.requests := by
    intro y h0 hy
    obtain ⟨f, hf, hex⟩ := bind_eq_some_iff.1 ((hs.pending k y h0).2 hy)
    have hopen := open_of_taker hx hk
    rw [hf, getD_some] at hopen
    have := hs.writeSet f (mem_of_getElem? hf) (by simp [hex])
    simp [this] at hopen
  have hcount : s.notices.count (.fullSend x.node x.acquire) = 0 := by
    refine count_eq_zero.2 fun h => ?_
    obtain ⟨n, hn⟩ := hs.asked _ _ h
    exact hnew _ hn rfl
  rw [heq, hnumber]
  refine ⟨?unique, ?remote, fun i y hi => ?pending, fun f hf hex => ?writeSet,
    fun node a h => ?asked, fun y n h => ?answered⟩
  case unique =>
    intro y n z m hy hz he
    rcases mem_append.1 hy with hy' | hy' <;> rcases mem_append.1 hz with hz' | hz'
    · exact hs.unique y n z m hy' hz' he
    · obtain ⟨rfl, rfl⟩ := Prod.mk.inj (mem_singleton.1 hz')
      exact absurd he (hnew (y, n) hy')
    · obtain ⟨rfl, rfl⟩ := Prod.mk.inj (mem_singleton.1 hy')
      exact absurd he.symm (hnew (z, m) hz')
    · exact Prod.mk.inj ((mem_singleton.1 hy').trans (mem_singleton.1 hz').symm)
  case remote =>
    intro y n hy
    rcases mem_append.1 hy with hy | hy
    · exact hs.remote y n hy
    · obtain ⟨rfl, -⟩ := Prod.mk.inj (mem_singleton.1 hy)
      exact hx
  case pending =>
    change (s.frontiers.take k ++ g :: s.frontiers.drop (k + 1))[i]?.bind exclusive = _ ↔
      (y, s.popped + i) ∈ s.requests ++ [(x, s.popped + k)]
    rw [getElem?_take_cons_drop hkF, mem_append, mem_singleton, Prod.mk.injEq]
    by_cases hik : i = k
    · have hk0 : 0 < k := hik ▸ hi
      rw [if_pos hik, bind_some, hgx, if_neg (by omega), hik]
      simp [hfree y hk0, eq_comm]
    · rw [if_neg hik, ← hs.pending i y hi]
      simp [hik, pendingAt]
  case writeSet =>
    obtain ⟨i, hi⟩ := mem_iff_getElem?.1 hf
    change (s.frontiers.take k ++ g :: s.frontiers.drop (k + 1))[i]? = _ at hi
    rw [getElem?_take_cons_drop hkF] at hi
    split at hi
    · rw [← some.inj hi]
      exact hgw
    · exact hs.writeSet f (mem_of_getElem? hi) hex
  case asked =>
    rcases mem_append.1 h with h | h
    · obtain ⟨n, hn⟩ := hs.asked node a h
      exact ⟨n, mem_append_left _ hn⟩
    · split at h
      · obtain ⟨rfl, rfl⟩ := Notice.fullSend.inj (mem_singleton.1 h)
        exact ⟨_, mem_append_right _ (mem_singleton_self _)⟩
      · cases h
  case answered =>
    change (s.notices ++ if k = 0 then [Notice.fullSend x.node x.acquire] else []).count _ =
      if n ≤ s.popped then 1 else 0
    rw [count_append]
    rcases mem_append.1 h with h | h
    · have hne : Notice.fullSend x.node x.acquire ≠ .fullSend y.node y.acquire := fun he =>
        hnew _ h (congrArg Acquire.edt (Notice.fullSend.inj he).2).symm
      rw [hs.answered y n h, Nat.add_eq_left]
      split
      · exact count_eq_zero.2 (by simpa using fun hn ha => hne (by rw [hn, ha]))
      · rfl
    · obtain ⟨rfl, rfl⟩ := Prod.mk.inj (mem_singleton.1 h)
      rw [hcount]
      by_cases h0 : k = 0
      · simp [h0]
      · rw [if_neg h0, if_neg (by omega)]
        rfl

/-! ### Every request is answered -/

lemma Inv.init : Inv owner ⟨autoAcquired, 0, [], []⟩ where
  unique _ _ _ _ h := nomatch h
  remote _ _ h := nomatch h
  pending k x hk := by
    obtain ⟨k, rfl⟩ := Nat.exists_eq_succ_of_ne_zero (Nat.ne_of_gt hk)
    simp [pendingAt, autoAcquired]
  writeSet f hf _ := by rw [mem_singleton.1 hf]
  asked _ _ h := nomatch h
  answered _ _ h := nomatch h

lemma Inv.next (hs : s.Inv owner) {l : Act} {s' : DbOwner} (hfit : s.Fit owner l)
    (hst : s.next owner l = some s') : s'.Inv owner := by
  cases l with
  | dbRequest rank flags =>
    obtain ⟨-, ⟨⟩⟩ := ite_none_right_eq_some.1 hst
    refine hs.push (by simp [duplicateRequest, AccessMode.isWrite]) fun node a => ?_
    split <;> simp
  | fullRequest x =>
    obtain ⟨⟨hx, hm, hnew⟩, ⟨⟩⟩ := ite_none_right_eq_some.1 hst
    exact hs.fullRequest hx hm hnew hfit
  | acquire a flags =>
    obtain ⟨-, ⟨⟩⟩ := ite_none_right_eq_some.1 hst
    refine hs.push (by simp [duplicateRequest]) fun node a => ?_
    split <;> simp
  | release =>
    obtain ⟨⟩ := hst
    exact hs.progress
  | update rank data =>
    obtain ⟨⟩ := hst
    obtain rfl : data = true := hfit
    exact hs.progress

/-- **Every write request of another rank is answered once**, when its frontier becomes the head, if
none meets its own rank in the frontier that takes it and every update carries data. -/
theorem full_requests_answered
    (h : ((machine owner).restrict (Fit owner)).Reachable s) : s.Answered := by
  have hinv : s.Inv owner := by
    refine h.invariant (fun s hs => hs ▸ Inv.init) fun s l s' _ hs hst => ?_
    obtain ⟨hfit, hst⟩ := Machine.restrict_next.1 hst
    exact hs.next hfit hst
  exact hinv.answered

/-- Two ranks ask to write, after a third one has asked to read, and the creator has released. -/
theorem full_requests_answered_two : ∃ s, ((machine 0).restrict (Fit 0)).Reachable s ∧
    s.requests = [(⟨1, .ofKey 1, 0, .ew⟩, 1), (⟨2, .ofKey 2, 0, .ew⟩, 2)] ∧ s.popped = 1 ∧
    s.Answered :=
  Machine.Reachable.exists_and₂ (r := [.dbRequest 3 0, .fullRequest ⟨1, .ofKey 1, 0, .ew⟩, .fullRequest ⟨2, .ofKey 2, 0, .ew⟩,
      .release]) rfl (by decide +kernel) fun _ hr _ _ => full_requests_answered hr

/-- Rank 1 asks to read and then to write: the write request seals the frontier and leaves no
record. -/
theorem write_request_lost : ∃ s, (machine 0).Reachable s ∧ ¬ s.Answered := by
  obtain ⟨s, hr, hs⟩ := Machine.Reachable.exists_of_exec (M := machine 0)
    (P := fun s => (⟨1, .ofKey 1, 0, .ew⟩, 1) ∈ s.requests ∧ s.popped = 1 ∧
      s.notices.count (.fullSend 1 ⟨.ofKey 1, 0, .ew⟩) = 0)
    (r := [.dbRequest 1 0, .fullRequest ⟨1, .ofKey 1, 0, .ew⟩, .release]) rfl (by decide +kernel)
  refine ⟨s, hr, fun h => ?_⟩
  have := h _ _ hs.1
  rw [hs.2.1, hs.2.2] at this
  simp at this

end DbOwner

end Arts
