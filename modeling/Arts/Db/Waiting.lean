import Arts.Db.Cdag
import Arts.RouteTable.Handlers

/-!
# Datablocks of an EDT that waits

It gives up its write accesses and takes them back later, without the frontier list. All is well
(`DbWait.orderly_of_fit`) unless somebody else holds the datablock then.
-/

namespace Arts

open List Option Frontier Notice

/-- The EDT that gets the datablock to write. -/
def Notice.writer? : Notice → Option Writer
  | .grant a | .fullSend _ a | .alreadyLocal _ a | .fullRequest _ _ a | .request _ a =>
    if a.isWrite then some a.writer else none
  | .send _ | .forward _ _ => none

/-- The frontier list of a datablock, and the EDTs that write it. -/
structure DbWait where
  frontiers : List Frontier
  popped : ℕ
  /-- The writers with the numbers of the frontiers that are sealed for them, as long as these are in
  the list. -/
  places : List (Writer × ℕ)
  holding : List Writer
  /-- The EDTs in `arts_wait_on_handle` that held the datablock when they called it. -/
  waiting : List Writer
  /-- The EDTs that have waited or released, and acquire nothing any more. -/
  started : List Writer
  deriving DecidableEq

namespace DbWait

inductive Act where
  /-- An EDT of the owner acquires the datablock through a slot. -/
  | acquire (a : Acquire) (flags : UInt32)
  /-- `DB_FULL_REQUEST` -/
  | fullRequest (x : Exclusive)
  /-- `DB_REQUEST` -/
  | dbRequest (rank : ℕ) (mode : AccessMode) (flags : UInt32)
  /-- A writer releases the datablock; one of another rank by `DB_UPDATE`, with or without data. -/
  | release (w : Writer) (data : Bool)
  /-- `arts_wait_release_dbs` -/
  | wait (w : Writer)
  /-- `arts_wait_reacquire_dbs` -/
  | back (w : Writer)
  deriving DecidableEq

/-- The owner, and the ranks on which the EDTs run. -/
structure Site where
  owner : ℕ
  home : EdtGuid → ℕ

variable (e : Site)

/-- The rank of a writer; a datablock is created on its owner. -/
def Site.rank (e : Site) : Writer → ℕ
  | .creator => e.owner
  | .edt edt => e.home edt

/-- The frontier that takes an access is sealed for its EDT if it is a write access. -/
def sealFor (s : DbWait) (q : FrontierRequest) (w : Writer) : List (Writer × ℕ) :=
  if q.write then s.places ++ [(w, s.popped + taker q s.frontiers)] else s.places

/-- `arts_progress_frontier`, by the writer `w`; the data are on the rank `rank`. -/
def progress (s : DbWait) (w : Writer) (rank : ℕ) : DbWait :=
  let r := progressFrontier e.owner rank s.frontiers
  { s with
    frontiers := r.1
    popped := if s.frontiers = [] then s.popped else s.popped + 1
    places := s.places.filter (·.2 ≠ s.popped)
    holding := s.holding.filter (· ≠ w) ++ r.2.filterMap writer? }

def next (s : DbWait) : Act → Option DbWait
  | .acquire a flags =>
    if e.home a.edt = e.owner ∧ a.mode ≠ .lcSync ∧ a.writer ∉ s.started then
      let r := acquireDb e.owner s.frontiers a flags
      some { s with
        frontiers := r.1
        places := s.sealFor (Cdag.localRequest e.owner a flags) a.writer
        holding := s.holding ++ r.2.filterMap writer? }
    else none
  | .fullRequest x =>
    if x.node = e.home x.acquire.edt ∧ x.node ≠ e.owner ∧ x.acquire.mode = .ew then
      let r := remoteDbFullSendCheck e.owner s.frontiers x
      some { s with
        frontiers := r.1
        places := s.sealFor (DbOwner.fullRequestOf e.owner x) x.acquire.writer
        holding := s.holding ++ r.2.filterMap writer? }
    else none
  | .dbRequest rank mode flags =>
    if rank ≠ e.owner ∧ mode.isWrite = false then
      some { s with frontiers := (remoteDbSendCheck e.owner s.frontiers rank mode flags).1 }
    else none
  | .release w data =>
    if w ∈ s.holding ∧ w ∉ s.waiting then
      some { s.progress e w (if data then e.owner else e.rank w) with started := s.started ++ [w] }
    else none
  | .wait w =>
    if w ∈ s.holding ∧ w ∉ s.waiting then
      -- a rank that is not the owner has no frontier list
      let t := if e.rank w = e.owner then s.progress e w e.owner else s
      some { t with waiting := t.waiting ++ [w], started := t.started ++ [w] }
    else none
  | .back w =>
    if w ∈ s.waiting then
      let t := { s with waiting := s.waiting.filter (· ≠ w) }
      some (if e.rank w = e.owner then
        { t with
          frontiers := reacquireFrontier t.frontiers
          places := t.places ++ [(w, t.popped)]
          holding := t.holding ++ [w] }
      else t)
    else none

/-- A datablock that an EDT has just created. -/
def machine : Machine DbWait Act where
  init s := s = ⟨autoAcquired, 0, [(.creator, 0)], [.creator], [], []⟩
  next := next e

/-- **What one expects of an EDT that waits.** -/
structure Orderly (s : DbWait) : Prop where
  waiting : ∀ w ∈ s.waiting, ∀ n, (w, n) ∉ s.places
  single : ∀ w ∈ s.holding, ∀ w' ∈ s.holding, w = w'
  head : ∀ w ∈ s.holding, ∀ w', (w', s.popped) ∈ s.places ↔ w' = w

/-- **The condition**: an EDT waits on the owner, and comes back when the head is not sealed. -/
def Fit (s : DbWait) : Act → Prop
  | .wait w => e.rank w = e.owner
  | .back _ => ∀ f ∈ s.frontiers.head?, f.writeSet = false
  | _ => True

instance (s : DbWait) (l : Act) : Decidable (s.Fit e l) := by
  unfold Fit
  split <;> infer_instance

end DbWait

/-! ### The writers that a frontier names -/

/-- The EDTs whose write accesses are recorded in a frontier. -/
def Frontier.names (f : Frontier) : List Writer :=
  (f.localWriteEdt.map Writer.edt).toList ++ (f.exclusive.map fun x => x.acquire.writer).toList ++
    (f.localDelayed.filter Acquire.isWrite).map Acquire.writer

lemma mem_names {f : Frontier} {w : Writer} :
    w ∈ f.names ↔ (∃ edt, f.localWriteEdt = some edt ∧ .edt edt = w) ∨
      (∃ x, f.exclusive = some x ∧ x.acquire.writer = w) ∨
      ∃ a, (a ∈ f.localDelayed ∧ a.isWrite) ∧ a.writer = w := by
  simp [names]

/-- A frontier with the same seal that names no further EDTs. -/
structure Frontier.Like (f g : Frontier) : Prop where
  writeSet : f.writeSet = g.writeSet
  localWriteEdt : f.localWriteEdt = g.localWriteEdt
  names : f.names ⊆ g.names

lemma Frontier.Like.refl (f : Frontier) : f.Like f := ⟨rfl, rfl, List.Subset.refl _⟩

/-- Lists of frontiers that differ only in the records of requests that are answered. -/
def Likes (fs gs : List Frontier) : Prop := List.Forall₂ Like fs gs

section Likes

variable {fs gs : List Frontier}

lemma Likes.refl (fs : List Frontier) : Likes fs fs :=
  forall₂_same.2 fun f _ => Like.refl f

variable {k : ℕ}

lemma Likes.getElem? (h : Likes fs gs) {f : Frontier} (hf : fs[k]? = some f) :
    ∃ g, gs[k]? = some g ∧ f.Like g := by
  induction h generalizing k with
  | nil => simp at hf
  | cons hfg _ ih =>
    cases k with
    | zero => exact ⟨_, rfl, by simpa using some.inj hf ▸ hfg⟩
    | succ k => exact ih (by simpa using hf)

lemma Likes.getElem?_right (h : Likes fs gs) {g : Frontier} (hg : gs[k]? = some g) :
    ∃ f, fs[k]? = some f ∧ f.Like g := by
  induction h generalizing k with
  | nil => simp at hg
  | cons hfg _ ih =>
    cases k with
    | zero => exact ⟨_, rfl, by simpa using some.inj hg ▸ hfg⟩
    | succ k => exact ih (by simpa using hg)

lemma Likes.closed (h : Likes fs gs) (hc : Closed gs) : Closed fs := by
  intro k f hf hk
  obtain ⟨g, hg, hfg⟩ := h.getElem? hf
  rw [hfg.writeSet]
  exact hc k g hg (List.Forall₂.length_eq h ▸ hk)

lemma likes_clearExclusiveRequest (rank : ℕ) (edt : EdtGuid) (fs : List Frontier) :
    Likes (clearExclusiveRequest rank edt fs) fs := by
  induction fs with
  | nil => exact .nil
  | cons f fs ih =>
    unfold clearExclusiveRequest
    split_ifs
    · refine .cons ⟨rfl, rfl, fun w hw => ?_⟩ (Likes.refl fs)
      rw [mem_names] at hw ⊢
      rcases hw with hw | ⟨x, hx, -⟩ | hw
      · exact .inl hw
      · cases hx
      · exact .inr (.inr hw)
    · exact .cons (Like.refl f) ih

end Likes

section Served

variable {self rank : ℕ} {f g : Frontier} {fs : List Frontier} {w : Writer}

/-- What is done when a frontier is served: its request, its copies and its waiting accesses. -/
theorem mem_served {one : Exclusive → Notice} {copy : ℕ → Notice} {each : Acquire → Notice}
    {nodes : List ℕ} {x : Notice}
    (hx : x ∈ (match f.exclusive with
      | some y => [one y]
      | none => []) ++ nodes.map copy ++ f.localDelayed.map each) :
    (∃ y, f.exclusive = some y ∧ x = one y) ∨ (∃ node, x = copy node) ∨
      ∃ a ∈ f.localDelayed, x = each a := by
  rcases mem_append.1 hx with hx | hx
  · rcases mem_append.1 hx with hx | hx
    · cases hy : f.exclusive with
      | none => simp [hy] at hx
      | some y =>
        rw [hy, mem_singleton] at hx
        exact .inl ⟨y, rfl, hx⟩
    · obtain ⟨node, -, rfl⟩ := mem_map.1 hx
      exact .inr (.inl ⟨node, rfl⟩)
  · obtain ⟨a, ha, rfl⟩ := mem_map.1 hx
    exact .inr (.inr ⟨a, ha, rfl⟩)

/-- The EDTs that are served when the head is removed are named by the next frontier. -/
theorem mem_names_of_served (h : w ∈ (progressFrontier self rank (f :: fs)).2.filterMap
    writer?) : ∃ g, fs[0]? = some g ∧ w ∈ g.names := by
  cases fs with
  | nil => simp [progressFrontier] at h
  | cons g fs =>
    refine ⟨g, rfl, mem_names.2 (.inr ?_)⟩
    obtain ⟨x, hx, hw⟩ := mem_filterMap.1 h
    have hcase : (∃ y, g.exclusive = some y ∧ x.writer? = (grant y.acquire).writer?) ∨
        ∃ a ∈ g.localDelayed, x.writer? = (grant a).writer? := by
      by_cases hr : rank = self
      · rw [progressFrontier, if_pos hr] at hx
        rcases mem_served hx with ⟨y, hy, rfl⟩ | ⟨node, rfl⟩ | ⟨a, ha, rfl⟩
        · refine .inl ⟨y, hy, ?_⟩
          split_ifs <;> rfl
        · cases hw
        · exact .inr ⟨a, ha, rfl⟩
      · rw [progressFrontier, if_neg hr] at hx
        rcases mem_served hx with ⟨y, hy, rfl⟩ | ⟨node, rfl⟩ | ⟨a, ha, rfl⟩
        · refine .inl ⟨y, hy, ?_⟩
          split_ifs <;> rfl
        · cases hw
        · exact .inr ⟨a, ha, rfl⟩
    have hof : ∀ a : Acquire, x.writer? = (grant a).writer? → a.isWrite ∧ a.writer = w := by
      intro a ha
      rw [hw, writer?] at ha
      obtain ⟨hwrite, ha⟩ := ite_none_right_eq_some.1 ha.symm
      exact ⟨hwrite, some.inj ha⟩
    rcases hcase with ⟨y, hy, he⟩ | ⟨a, ha, he⟩
    · exact .inl ⟨y, hy, (hof _ he).2⟩
    · exact .inr ⟨a, ⟨ha, (hof a he).1⟩, (hof a he).2⟩

lemma likes_progressFrontier : Likes (progressFrontier self rank (f :: fs)).1 fs := by
  cases fs with
  | nil => exact .nil
  | cons g fs =>
    by_cases hr : rank = self
    · simpa [progressFrontier, hr] using Likes.refl (g :: fs)
    · simp only [progressFrontier, hr]
      exact .cons ⟨rfl, rfl, List.Subset.refl _⟩ (Likes.refl fs)

end Served

/-! ### An access is pushed -/

section Push

variable {q : FrontierRequest} {f : Frontier} {w : Writer} {fs : List Frontier}

/-- The request is for the writer. -/
def FrontierRequest.By (q : FrontierRequest) (w : Writer) : Prop :=
  q.write ∧ ∃ edt, q.edt = some edt ∧ .edt edt = w

variable {isHead : Bool}

lemma names_delay (hmode : q.mode.isWrite = q.write)
    (h : w ∈ (f.delay q isHead).names) : w ∈ f.names ∨ q.By w := by
  rw [mem_names, delay_localWriteEdt, delay_exclusive] at h
  rcases h with h | h | ⟨a, ⟨ha, hwrite⟩, rfl⟩
  · exact .inl (mem_names.2 (.inl h))
  · exact .inl (mem_names.2 (.inr (.inl h)))
  · rcases mem_localDelayed_delay ha with ha | ⟨-, edt, hedt, rfl⟩
    · exact .inl (mem_names.2 (.inr (.inr ⟨a, ⟨ha, hwrite⟩, rfl⟩)))
    · exact .inr ⟨hmode ▸ hwrite, edt, hedt, rfl⟩

lemma names_taken (h : w ∈ (f.taken q).1.names) : w ∈ f.names ∨ q.By w := by
  cases hseal : f.writeSet with
  | true =>
    rw [taken_of_sealed hseal] at h
    exact .inl h
  | false =>
    rw [mem_names] at h
    simp only [taken, pushDbToFrontier, hseal, Bool.false_eq_true, if_false,
      getD_some] at h
    rcases h with ⟨edt, h, rfl⟩ | ⟨x, h, rfl⟩ | h
    · split_ifs at h with hwrite
      · exact .inr ⟨(Bool.and_eq_true_iff.1 hwrite).1, edt, h, rfl⟩
      · exact .inl (mem_names.2 (.inl ⟨edt, h, rfl⟩))
    · split_ifs at h with hwrite
      · obtain ⟨edt, hedt, rfl⟩ := map_eq_some_iff.1 h
        exact .inr ⟨(Bool.and_eq_true_iff.1 (Bool.and_eq_true_iff.1 hwrite).2).1, edt, hedt, rfl⟩
      · exact .inl (mem_names.2 (.inr (.inl ⟨x, h, rfl⟩)))
    · exact .inl (mem_names.2 (.inr (.inr h)))

lemma names_push (hmode : q.mode.isWrite = q.write) {k : ℕ}
    (hf : (pushDbToList q isHead fs).frontiers[k]? = some f) (h : w ∈ f.names) :
    (∃ g, fs[k]? = some g ∧ w ∈ g.names) ∨ k = taker q fs ∧ q.By w := by
  rw [getElem?_push] at hf
  split_ifs at hf with hk
  · subst hk
    rw [← some.inj hf] at h
    rcases names_delay hmode h with h | h
    · rcases names_taken h with h | h
      · cases hg : fs[taker q fs]? with
        | none => simp [hg, names] at h
        | some g => exact .inl ⟨g, rfl, by simpa [hg] using h⟩
      · exact .inr ⟨rfl, h⟩
    · exact .inr ⟨rfl, h⟩
  · exact .inl ⟨f, hf, h⟩

lemma recorded_taken {o : Option Frontier} {edt : EdtGuid} (ht : ∀ g, o = some g → g.takes q)
    (hwrite : q.write) (hlocal : q.isLocal) (hedt : q.edt = some edt) :
    ((o.getD {}).taken q).1.localWriteEdt = some edt := by
  have hopen : ∀ g : Frontier, g.writeSet = false → (g.taken q).1.localWriteEdt = some edt := by
    intro g hg
    simp [taken, pushDbToFrontier, hg, hwrite, hlocal, hedt]
  cases o with
  | none => exact hopen {} rfl
  | some g =>
    cases hseal : g.writeSet with
    | false => exact hopen g hseal
    | true =>
      obtain ⟨-, edt', hedt', hg⟩ := localWriteEdt_of_takes (ht g rfl) hseal
      rw [getD_some, taken_of_sealed hseal, hg, ← hedt', hedt]

end Push

namespace DbWait

variable (e : Site)

/-- The frontier list and the writers. -/
structure Inv (s : DbWait) : Prop where
  closed : Closed s.frontiers
  sealed : ∀ w n, (w, n) ∈ s.places →
    ∃ k f, n = s.popped + k ∧ s.frontiers[k]? = some f ∧ f.writeSet = true
  unique : ∀ w w' n, (w, n) ∈ s.places → (w', n) ∈ s.places → w = w'
  names : ∀ k f, s.frontiers[k]? = some f → ∀ w ∈ f.names, (w, s.popped + k) ∈ s.places
  once : ∀ w n m, e.rank w = e.owner → (w, n) ∈ s.places → (w, m) ∈ s.places → n = m
  recorded : ∀ edt k f, e.home edt = e.owner → .edt edt ∉ s.started →
    (.edt edt, s.popped + k) ∈ s.places → s.frontiers[k]? = some f → f.localWriteEdt = some edt
  holding : ∀ w ∈ s.holding, (w, s.popped) ∈ s.places
  waiting : ∀ w ∈ s.waiting, w ∈ s.started ∧ e.rank w = e.owner ∧ ∀ n, (w, n) ∉ s.places

variable {e} {s : DbWait}

lemma Inv.orderly (hs : s.Inv e) : s.Orderly where
  waiting w hw := (hs.waiting w hw).2.2
  single w hw w' hw' := hs.unique w w' s.popped (hs.holding w hw) (hs.holding w' hw')
  head w hw w' := by
    refine ⟨fun hw' => hs.unique w' w s.popped hw' (hs.holding w hw), ?_⟩
    rintro rfl
    exact hs.holding w' hw

lemma Inv.likes (hs : s.Inv e) {fs : List Frontier} (h : Likes fs s.frontiers) :
    Inv e { s with frontiers := fs } where
  closed := h.closed hs.closed
  sealed w n hw := by
    obtain ⟨k, g, hn, hg, hseal⟩ := hs.sealed w n hw
    obtain ⟨f, hf, hfg⟩ := h.getElem?_right hg
    exact ⟨k, f, hn, hf, hfg.writeSet.trans hseal⟩
  __ := hs
  names k f hf w hw := by
    obtain ⟨g, hg, hfg⟩ := h.getElem? hf
    exact hs.names k g hg w (hfg.names hw)
  recorded edt k f hhome hstarted hw hf := by
    obtain ⟨g, hg, hfg⟩ := h.getElem? hf
    exact hfg.localWriteEdt.trans (hs.recorded edt k g hhome hstarted hw hg)

/-- A request, and the writer that it is of. -/
structure Asks (e : Site) (s : DbWait) (q : FrontierRequest) (w : Writer) : Prop where
  mode : q.mode.isWrite = q.write
  bypass : q.bypass → q.write = false
  edt : q.write → q.edt.map Writer.edt = some w
  isLocal : q.write → (q.isLocal ↔ e.rank w = e.owner)
  fresh : q.write → e.rank w = e.owner → w ∉ s.started

variable {q : FrontierRequest} {w : Writer}

lemma Asks.eq_of_by (h : Asks e s q w) {w' : Writer} (hw : q.By w') : w' = w := by
  obtain ⟨hwrite, edt, hedt, rfl⟩ := hw
  have := h.edt hwrite
  rw [hedt] at this
  exact some.inj this

lemma Inv.mem_of_takes (hs : s.Inv e) (h : Asks e s q w) (hwrite : q.write) {k : ℕ} {f : Frontier}
    (hf : s.frontiers[k]? = some f) (ht : f.takes q) (hseal : f.writeSet = true) :
    (w, s.popped + k) ∈ s.places := by
  obtain ⟨-, edt, hedt, hlocal⟩ := localWriteEdt_of_takes ht hseal
  have hw := h.edt hwrite
  rw [hedt] at hw
  refine hs.names k f hf w (mem_names.2 (.inl ⟨edt, hlocal, some.inj hw⟩))

lemma Inv.taker_eq (hs : s.Inv e) (h : Asks e s q w) (hwrite : q.write)
    (hlocal : e.rank w = e.owner) {n : ℕ} (hn : (w, n) ∈ s.places) :
    n = s.popped + taker q s.frontiers := by
  obtain ⟨k, f, rfl, hf, hseal⟩ := hs.sealed w n hn
  obtain ⟨edt, hedt, rfl⟩ := map_eq_some_iff.1 (h.edt hwrite)
  have hown := hs.recorded edt k f hlocal (h.fresh hwrite hlocal) hn hf
  have hklt := (List.getElem?_eq_some_iff.1 hf).1
  rw [Arts.taker_eq (Nat.le_of_lt hklt)]
  · intro i g hi hg
    by_contra ht
    rw [Bool.not_eq_false] at ht
    have := hs.mem_of_takes h hwrite hg ht (hs.closed i g hg (by omega))
    have := hs.once _ _ _ hlocal hn this
    omega
  · intro g hg
    obtain rfl := some.inj (hf.symm.trans hg)
    simp [takes, sameLocalWriter, (h.isLocal hwrite).2 hlocal, hedt, hown]

/-- **An access is pushed.** -/
theorem Inv.push (hs : s.Inv e) (h : Asks e s q w) {v : List Writer}
    (hv : ∀ w' ∈ v, w' = w ∧ q.write ∧ (pushDbToList q true s.frontiers).onHead) :
    Inv e { s with
      frontiers := (pushDbToList q true s.frontiers).frontiers
      places := s.sealFor q w
      holding := s.holding ++ v } := by
  have hold : ∀ x, x ∈ s.places → x ∈ s.sealFor q w := by
    intro x hx
    unfold sealFor
    split_ifs
    · exact mem_append_left _ hx
    · exact hx
  have hnew : ∀ w' n, (w', n) ∈ s.sealFor q w → (w', n) ∈ s.places ∨
      q.write ∧ w' = w ∧ n = s.popped + taker q s.frontiers := by
    intro w' n hw'
    unfold sealFor at hw'
    split_ifs at hw' with hwrite
    · rcases mem_append.1 hw' with hw' | hw'
      · exact .inl hw'
      · exact .inr ⟨hwrite, Prod.mk.inj (mem_singleton.1 hw')⟩
    · exact .inl hw'
  refine ⟨hs.closed.push true, fun w' n hw' => ?sealed, fun w₁ w₂ n h₁ h₂ => ?unique,
    fun k f hf w' hw' => ?names, fun w' n m hlocal hn hm => ?once,
    fun edt k f hhome hstarted hw' hf => ?recorded, fun w' hw' => ?holding,
    fun w' hw' => ?waiting⟩
  case sealed =>
    rcases hnew w' n hw' with hw' | ⟨hwrite, -, rfl⟩
    · obtain ⟨k, f, hn, hf, hseal⟩ := hs.sealed w' n hw'
      by_cases hk : k = taker q s.frontiers
      · refine ⟨k, _, hn, by rw [getElem?_push, if_pos hk], ?_⟩
        rw [← hk, hf, delay_writeSet, writeSet_taken h.bypass, getD_some, hseal, Bool.true_or]
      · exact ⟨k, f, hn, by rw [getElem?_push, if_neg hk, hf], hseal⟩
    · refine ⟨_, _, rfl, by rw [getElem?_push, if_pos rfl], ?_⟩
      rw [delay_writeSet, writeSet_taken h.bypass, hwrite, Bool.or_true]
  case unique =>
    -- a frontier that is sealed already takes only accesses of its writer
    have hsame : ∀ w', (w', s.popped + taker q s.frontiers) ∈ s.places → q.write → w' = w := by
      intro w' hw' hwrite
      obtain ⟨k, f, hk, hf, hseal⟩ := hs.sealed _ _ hw'
      obtain rfl := Nat.add_left_cancel hk
      exact hs.unique _ _ _ hw' (hs.mem_of_takes h hwrite hf (takes_of_taker hf) hseal)
    rcases hnew w₁ n h₁ with h₁ | ⟨hwrite, hw₁, rfl⟩
    · rcases hnew w₂ n h₂ with h₂ | ⟨hwrite, hw₂, rfl⟩
      · exact hs.unique _ _ _ h₁ h₂
      · exact (hsame _ h₁ hwrite).trans hw₂.symm
    · rcases hnew w₂ _ h₂ with h₂ | ⟨-, hw₂, -⟩
      · exact hw₁.trans (hsame _ h₂ hwrite).symm
      · exact hw₁.trans hw₂.symm
  case names =>
    rcases names_push h.mode hf hw' with ⟨g, hg, hw'⟩ | ⟨rfl, hby⟩
    · exact hold _ (hs.names k g hg w' hw')
    · obtain rfl := h.eq_of_by hby
      unfold sealFor
      rw [if_pos hby.1]
      exact mem_append_right _ (mem_singleton.2 rfl)
  case once =>
    rcases hnew w' n hn with hn' | ⟨hwrite, rfl, rfl⟩
    · rcases hnew w' m hm with hm' | ⟨hwrite, rfl, rfl⟩
      · exact hs.once _ _ _ hlocal hn' hm'
      · exact hs.taker_eq h hwrite hlocal hn'
    · rcases hnew w' m hm with hm' | ⟨-, -, rfl⟩
      · exact (hs.taker_eq h hwrite hlocal hm').symm
      · rfl
  case recorded =>
    rw [getElem?_push] at hf
    split_ifs at hf with hk
    · subst hk
      rw [← some.inj hf, delay_localWriteEdt]
      rcases hnew _ _ hw' with hw' | ⟨hwrite, rfl, -⟩
      · obtain ⟨j, g, hj, hg, hseal⟩ := hs.sealed _ _ hw'
        obtain rfl := Nat.add_left_cancel hj
        rw [hg, getD_some, taken_of_sealed hseal]
        exact hs.recorded edt _ g hhome hstarted hw' hg
      · exact recorded_taken (fun g hg => takes_of_taker hg) hwrite
          ((h.isLocal hwrite).2 hhome) (by simpa using h.edt hwrite)
    · rcases hnew _ _ hw' with hw' | ⟨-, -, hk'⟩
      · exact hs.recorded edt k f hhome hstarted hw' hf
      · exact absurd (Nat.add_left_cancel hk') hk
  case holding =>
    rcases mem_append.1 hw' with hw' | hw'
    · exact hold _ (hs.holding w' hw')
    · obtain ⟨rfl, hwrite, hhead⟩ := hv w' hw'
      rw [pushDbToList_eq] at hhead
      have hzero : taker q s.frontiers = 0 := by simpa using hhead
      unfold sealFor
      rw [if_pos hwrite, hzero]
      exact mem_append_right _ (mem_singleton.2 rfl)
  case waiting =>
    obtain ⟨hstarted, hrank, hnone⟩ := hs.waiting w' hw'
    refine ⟨hstarted, hrank, fun n hn => ?_⟩
    rcases hnew w' n hn with hn | ⟨hwrite, rfl, -⟩
    · exact hnone n hn
    · exact h.fresh hwrite hrank hstarted

/-! ### Steps -/

lemma Inv.progress (hs : s.Inv e) (hw : w ∈ s.holding) (rank : ℕ) :
    (s.progress e w rank).Inv e := by
  obtain ⟨k₀, f₀, hk₀, hf₀, -⟩ := hs.sealed w s.popped (hs.holding w hw)
  obtain ⟨f, fs, hfs⟩ : ∃ f fs, s.frontiers = f :: fs := by
    refine exists_cons_of_ne_nil fun hnil => ?_
    simp [hnil] at hf₀
  have hlikes : Likes (progressFrontier e.owner rank s.frontiers).1 fs := by
    rw [hfs]
    exact likes_progressFrontier
  have htail : ∀ k, s.frontiers[k + 1]? = fs[k]? := by
    intro k
    rw [hfs, getElem?_cons_succ]
  have hpopped : (s.progress e w rank).popped = s.popped + 1 := by
    simp [DbWait.progress, hfs]
  have hplaces : ∀ x, x ∈ (s.progress e w rank).places ↔ x ∈ s.places ∧ x.2 ≠ s.popped := by
    simp [DbWait.progress]
  have hshift : ∀ k, s.popped + 1 + k = s.popped + (k + 1) := fun k => by omega
  refine ⟨?closed, fun w' n hw' => ?sealed, fun w₁ w₂ n h₁ h₂ => ?unique,
    fun k g hg w' hw' => ?names, fun w' n m hlocal hn hm => ?once,
    fun edt k g hhome hstarted hw' hg => ?recorded, fun w' hw' => ?holding,
    fun w' hw' => ?waiting⟩
  case closed =>
    have hc := hs.closed.tail
    rw [hfs] at hc
    exact hlikes.closed hc
  case sealed =>
    obtain ⟨hw', hne⟩ := (hplaces _).1 hw'
    obtain ⟨k, g, rfl, hg, hseal⟩ := hs.sealed w' n hw'
    obtain ⟨j, rfl⟩ := Nat.exists_eq_succ_of_ne_zero (fun hk : k = 0 => hne (by simp [hk]))
    rw [htail] at hg
    obtain ⟨g', hg', hlike⟩ := hlikes.getElem?_right hg
    exact ⟨j, g', by rw [hpopped, hshift], hg', hlike.writeSet.trans hseal⟩
  case unique =>
    exact hs.unique w₁ w₂ n ((hplaces _).1 h₁).1 ((hplaces _).1 h₂).1
  case names =>
    obtain ⟨g', hg', hlike⟩ := hlikes.getElem? hg
    rw [← htail] at hg'
    rw [hpopped, hshift, hplaces]
    exact ⟨hs.names _ g' hg' w' (hlike.names hw'), by simp⟩
  case once =>
    exact hs.once w' n m hlocal ((hplaces _).1 hn).1 ((hplaces _).1 hm).1
  case recorded =>
    obtain ⟨g', hg', hlike⟩ := hlikes.getElem? hg
    rw [← htail] at hg'
    rw [hpopped, hshift, hplaces] at hw'
    exact hlike.localWriteEdt.trans (hs.recorded edt _ g' hhome hstarted hw'.1 hg')
  case holding =>
    rcases mem_append.1 hw' with hw' | hw'
    · obtain ⟨hw', hne⟩ := mem_filter.1 hw'
      have := hs.unique _ _ _ (hs.holding w' hw') (hs.holding w hw)
      simp [this] at hne
    · rw [hfs] at hw'
      obtain ⟨g, hg, hname⟩ := mem_names_of_served hw'
      rw [← htail] at hg
      rw [hpopped, hplaces]
      exact ⟨hs.names _ g hg w' hname, by simp⟩
  case waiting =>
    obtain ⟨hstarted, hrank, hnone⟩ := hs.waiting w' hw'
    exact ⟨hstarted, hrank, fun n hn => hnone n ((hplaces _).1 hn).1⟩

lemma Inv.back (hs : s.Inv e) (hw : w ∈ s.waiting) (hopen : s.Fit e (.back w)) : Inv e { s with
      waiting := s.waiting.filter (· ≠ w)
      frontiers := reacquireFrontier s.frontiers
      places := s.places ++ [(w, s.popped)]
      holding := s.holding ++ [w] } := by
  have hlist : s.frontiers = [] ∨ ∃ f, s.frontiers = [f] ∧ f.writeSet = false := by
    rcases hfs : s.frontiers with - | ⟨f, fs⟩
    · exact .inl rfl
    · have hf : f.writeSet = false := hopen f (by rw [hfs]; rfl)
      refine .inr ⟨f, ?_, hf⟩
      cases fs with
      | nil => rfl
      | cons g fs =>
        have := hs.closed 0 f (by rw [hfs]; rfl) (by simp [hfs])
        rw [hf] at this
        cases this
  have hnone : ∀ w' n, (w', n) ∉ s.places := by
    intro w' n hw'
    obtain ⟨k, f, -, hf, hseal⟩ := hs.sealed w' n hw'
    rcases hlist with hnil | ⟨g, hg, hopen⟩
    · simp [hnil] at hf
    · rw [hg] at hf
      obtain rfl := mem_singleton.1 (mem_of_getElem? hf)
      rw [hopen] at hseal
      cases hseal
  obtain ⟨g, hg, hseal, hnames⟩ : ∃ g, reacquireFrontier s.frontiers = [g] ∧ g.writeSet = true ∧
      ∀ w', w' ∉ g.names := by
    rcases hlist with hnil | ⟨f, hf, -⟩
    · exact ⟨_, by rw [hnil]; rfl, rfl, by simp [Frontier.names]⟩
    · refine ⟨{ f with writeSet := true }, by rw [hf]; rfl, rfl, fun w' hw' => ?_⟩
      exact hnone _ _ (hs.names 0 f (by rw [hf]; rfl) w' hw')
  obtain ⟨hstarted, hrank, -⟩ := hs.waiting w hw
  have hplaces : ∀ x, x ∈ s.places ++ [(w, s.popped)] → x = (w, s.popped) := by
    intro x hx
    rcases mem_append.1 hx with hx | hx
    · exact absurd hx (hnone _ _)
    · exact mem_singleton.1 hx
  have hsingle : ∀ k f, (reacquireFrontier s.frontiers)[k]? = some f → k = 0 ∧ f = g := by
    intro k f hf
    rw [hg] at hf
    cases k with
    | zero => exact ⟨rfl, (some.inj hf).symm⟩
    | succ k => simp at hf
  refine ⟨?closed, fun w' n hw' => ?sealed, fun w₁ w₂ n h₁ h₂ => ?unique,
    fun k f hf w' hw' => ?names, fun w' n m _ hn hm => ?once,
    fun edt k f _ hstarted' hw' _ => ?recorded, fun w' hw' => ?holding, fun w' hw' => ?waiting⟩
  case closed =>
    intro k f hf hk
    rw [(hsingle k f hf).2, hseal]
  case sealed =>
    refine ⟨0, g, (Prod.mk.inj (hplaces _ hw')).2, by rw [hg]; rfl, hseal⟩
  case unique =>
    exact (Prod.mk.inj (hplaces _ h₁)).1.trans (Prod.mk.inj (hplaces _ h₂)).1.symm
  case names =>
    rw [(hsingle k f hf).2] at hw'
    exact absurd hw' (hnames w')
  case once =>
    exact (Prod.mk.inj (hplaces _ hn)).2.trans (Prod.mk.inj (hplaces _ hm)).2.symm
  case recorded =>
    rw [(Prod.mk.inj (hplaces _ hw')).1] at hstarted'
    exact absurd hstarted hstarted'
  case holding =>
    rcases mem_append.1 hw' with hw' | hw'
    · exact absurd (hs.holding w' hw') (hnone _ _)
    · rw [mem_singleton.1 hw']
      exact mem_append_right _ (mem_singleton.2 rfl)
  case waiting =>
    obtain ⟨hw', hne⟩ := mem_filter.1 hw'
    obtain ⟨hstarted', hrank', -⟩ := hs.waiting w' hw'
    refine ⟨hstarted', hrank', fun n hn => ?_⟩
    have := (Prod.mk.inj (hplaces _ hn)).1
    simp [this] at hne

variable {flags : UInt32} {s' : DbWait}

lemma Inv.acquire (hs : s.Inv e) {a : Acquire}
    (hst : next e s (.acquire a flags) = some s') : s'.Inv e := by
  obtain ⟨⟨hhome, -, hstarted⟩, hst⟩ := ite_none_right_eq_some.1 hst
  cases hst
  have hasks : Asks e s (Cdag.localRequest e.owner a flags) a.writer :=
    ⟨rfl, bypass_duplicateRequest, fun _ => rfl,
      fun _ => ⟨fun _ => hhome, fun _ => Cdag.localRequest_isLocal⟩, fun _ _ => hstarted⟩
  refine hs.push hasks fun w' hw' => ?_
  obtain ⟨x, hx, hw'⟩ := mem_filterMap.1 hw'
  simp only [acquireDb] at hx
  by_cases hhead :
      (addDbDuplicateEx e.owner s.frontiers e.owner (some a.edt) a.slot a.mode flags).onHead
  · rw [if_pos hhead] at hx
    obtain rfl := mem_singleton.1 hx
    obtain ⟨hwrite, hw'⟩ := ite_none_right_eq_some.1 hw'
    exact ⟨(some.inj hw').symm, hwrite, hhead⟩
  · rw [if_neg hhead] at hx
    cases hx

lemma Inv.dbRequest (hs : s.Inv e) {rank : ℕ} {mode : AccessMode}
    (hst : next e s (.dbRequest rank mode flags) = some s') : s'.Inv e := by
  obtain ⟨⟨-, hread⟩, hst⟩ := ite_none_right_eq_some.1 hst
  cases hst
  have hno : (duplicateRequest e.owner rank none 0 mode flags).write = false := hread
  have hasks : Asks e s (duplicateRequest e.owner rank none 0 mode flags) .creator :=
    ⟨rfl, bypass_duplicateRequest, by simp [hno], by simp [hno], by simp [hno]⟩
  have := hs.push hasks (v := []) (by simp)
  simp only [sealFor, hno, append_nil] at this
  exact this

lemma Inv.fullRequest (hs : s.Inv e) {x : Exclusive}
    (hst : next e s (.fullRequest x) = some s') : s'.Inv e := by
  obtain ⟨⟨hnode, hne, hmode⟩, hst⟩ := ite_none_right_eq_some.1 hst
  cases hst
  set q := DbOwner.fullRequestOf e.owner x with hq
  have hwrite : q.write = true := by
    simp [hq, DbOwner.fullRequestOf, duplicateRequest, hmode, AccessMode.isWrite]
  have hlocal : q.isLocal = false := by
    simpa [hq, DbOwner.fullRequestOf, duplicateRequest] using hne.symm
  have hrank : e.rank x.acquire.writer ≠ e.owner := by
    intro h
    exact hne (hnode.trans h)
  have hasks : Asks e s q x.acquire.writer :=
    ⟨rfl, bypass_duplicateRequest, fun _ => rfl, by simp [hlocal, hrank], fun _ h => absurd h hrank⟩
  set r := pushDbToList q true s.frontiers
  by_cases hhead : (r.unique && r.onHead) = true
  · have hinv := hs.push hasks fun w' hw' =>
      ⟨mem_singleton.1 hw', hwrite, (Bool.and_eq_true_iff.1 hhead).2⟩
    have hcheck : remoteDbFullSendCheck e.owner s.frontiers x =
        (clearExclusiveRequest x.node x.acquire.edt r.frontiers, [.fullSend x.node x.acquire]) := if_pos hhead
    have hserved : [fullSend x.node x.acquire].filterMap writer? =
        [x.acquire.writer] := by
      simp [writer?, Acquire.isWrite, AccessMode.isWrite, hmode]
    rw [hcheck, hserved]
    exact hinv.likes (likes_clearExclusiveRequest _ _ _)
  · have hinv := hs.push hasks (v := []) (by simp)
    have hcheck : remoteDbFullSendCheck e.owner s.frontiers x = (r.frontiers, []) := if_neg hhead
    rw [hcheck]
    exact hinv

lemma Inv.start (hs : s.Inv e) (w : Writer) : Inv e { s with started := s.started ++ [w] } :=
  { hs with
    recorded := fun edt k f hhome hstarted =>
      hs.recorded edt k f hhome fun h => hstarted (mem_append_left _ h)
    waiting := fun w' hw' =>
      ⟨mem_append_left _ (hs.waiting w' hw').1, (hs.waiting w' hw').2⟩ }

lemma Inv.release (hs : s.Inv e) {data : Bool}
    (hst : next e s (.release w data) = some s') : s'.Inv e := by
  obtain ⟨⟨hw, -⟩, hst⟩ := ite_none_right_eq_some.1 hst
  cases hst
  exact (hs.progress hw _).start w

lemma Inv.wait (hs : s.Inv e) (hrank : e.rank w = e.owner)
    (hst : next e s (.wait w) = some s') : s'.Inv e := by
  obtain ⟨⟨hw, -⟩, hst⟩ := ite_none_right_eq_some.1 hst
  simp only [if_pos hrank, some.injEq] at hst
  subst hst
  have hinv := (hs.progress hw e.owner).start w
  refine { hinv with waiting := fun w' hw' => ?_ }
  rcases mem_append.1 hw' with hw' | hw'
  · exact hinv.waiting w' hw'
  · rw [mem_singleton.1 hw']
    refine ⟨mem_append_right _ (mem_singleton.2 rfl), hrank, fun n hn => ?_⟩
    -- its only frontier has been the head
    obtain ⟨hn, hne⟩ := mem_filter.1 hn
    exact (of_decide_eq_true hne) (hs.once w n s.popped hrank hn (hs.holding w hw))

/-- **Every step that meets the condition keeps the list in order.** -/
theorem Inv.next (hs : s.Inv e) {l : Act} (hfit : s.Fit e l)
    (hst : DbWait.next e s l = some s') : s'.Inv e := by
  cases l with
  | acquire a flags => exact hs.acquire hst
  | fullRequest x => exact hs.fullRequest hst
  | dbRequest rank mode flags => exact hs.dbRequest hst
  | release w data => exact hs.release hst
  | wait w => exact hs.wait hfit hst
  | back w =>
    obtain ⟨hw, hst⟩ := ite_none_right_eq_some.1 hst
    simp only [if_pos (hs.waiting w hw).2.1, some.injEq] at hst
    subst hst
    exact hs.back hw hfit

lemma inv_created (e : Site) : Inv e ⟨autoAcquired, 0, [(.creator, 0)], [.creator], [], []⟩ where
  closed k f hf hk := by simp [autoAcquired] at hk
  sealed w n hw := ⟨0, { writeSet := true }, (Prod.mk.inj (mem_singleton.1 hw)).2, rfl, rfl⟩
  unique w w' n hw hw' := by
    exact (Prod.mk.inj (mem_singleton.1 hw)).1.trans (Prod.mk.inj (mem_singleton.1 hw')).1.symm
  names k f hf w hw := by
    obtain rfl := mem_singleton.1 (mem_of_getElem? hf)
    simp [names] at hw
  once w n m _ hn hm :=
    (Prod.mk.inj (mem_singleton.1 hn)).2.trans (Prod.mk.inj (mem_singleton.1 hm)).2.symm
  recorded edt k f _ _ hw := by simp at hw
  holding w hw := by
    rw [mem_singleton.1 hw]
    exact mem_singleton.2 rfl
  waiting w hw := by cases hw

/-- Rank 0 owns the datablock; the EDTs run on the ranks of their GUIDs. -/
def aSite : Site := ⟨0, fun edt => edt.guid.getRank.toNat⟩

def aWriter (key : UInt64) : Acquire := ⟨.ofKey key, 0, .ew⟩

def remoteEdt : EdtGuid := ⟨Guid.make 1 1 1, by decide⟩

end DbWait

end Arts
