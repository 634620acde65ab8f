import Arts.Db.Owner
import Arts.Db.Replica
import Arts.Machine.Calls

/-!
# Reading a datablock from another rank

The owner answers `DB_REQUEST` at once and again when the frontier becomes the head. The first
answer can be stale (`Readers.stale_read`); if it is the last one, all is well
(`Readers.read_after_write`).
-/

namespace Arts

open List Function Option

/-- A snapshot of a datablock. -/
structure Copy (α : Type*) where
  bytes : α
  /-- How many writers had released when it was made. -/
  released : ℕ
  deriving DecidableEq

/-- A `DB_REQUEST` as it arrives at the owner. -/
structure Asked where
  rank : ℕ
  /-- How many requests the rank had sent, this one included. -/
  number : ℕ
  released : ℕ
  /-- The frontiers, with the writers that have not released. -/
  frontiers : List Frontier

/-- The `n`-th release comes after those of all writers that were registered when the request
arrived. -/
def Asked.Covered (x : Asked) (n : ℕ) : Prop :=
  ∀ k f, x.frontiers[k]? = some f → f.writeSet = true → x.released + k < n

lemma Asked.Covered.mono {x : Asked} {m n : ℕ} (h : x.Covered m) (hmn : m ≤ n) : x.Covered n :=
  fun k f hf hw => Nat.lt_of_lt_of_le (h k f hf hw) hmn

/-- A slot of an EDT that has got a copy. -/
structure Grant (α : Type*) where
  rank : ℕ
  acquire : Acquire
  /-- The number of the request for which it has waited, if it has. -/
  number : Option ℕ
  copy : Copy α

/-- A datablock that is written on its owner rank only. -/
structure Readers (α : Type*) where
  frontiers : List Frontier
  bytes : α
  released : ℕ
  last : ℕ → Option (Copy α)
  /-- `DB_REQUEST` messages in flight: the rank, the number of the request and the flags. -/
  requests : List (ℕ × ℕ × UInt32)
  /-- `DB_SEND` messages in flight. -/
  sends : List (ℕ × Copy α)
  /-- `INVALIDATE_DB` messages in flight. -/
  invalidates : List ℕ
  table : ℕ → Replica Acquire (Copy α)
  asks : ℕ → ℕ
  asked : List Asked
  /-- The slots of other ranks that have got a copy. -/
  granted : List (Grant α)

namespace Readers

variable {α : Type*}

/-- The ranks that get a copy. -/
def targets (ns : List Notice) : List ℕ :=
  ns.filterMap fun n => match n with | .send node => some node | _ => none

/-- `arts_remote_db_send_now` to each of the ranks. -/
def send (s : Readers α) (ranks : List ℕ) : Readers α :=
  { s with
    last := fun r => if r ∈ ranks then some ⟨s.bytes, s.released⟩ else s.last r
    sends := s.sends ++ ranks.map fun r => (r, ⟨s.bytes, s.released⟩) }

/-- `acquire_dbs` on another rank, for one slot in mode RO. -/
def read (s : Readers α) (rank : ℕ) (a : Acquire) (flags : UInt32) : Readers α :=
  match s.table rank with
  | .available c => { s with granted := s.granted ++ [⟨rank, a, none, c⟩] }
  | e =>
    let (e', new) := e.await a
    { s with
      table := update s.table rank e'
      asks := if new then update s.asks rank (s.asks rank + 1) else s.asks
      requests := if new then s.requests ++ [(rank, s.asks rank + 1, flags)] else s.requests }

/-- `prep_dbs` for the writer of the head. -/
def prep (owner : ℕ) (s : Readers α) : Readers α :=
  let (fs, ranks) := closeFrontier s.frontiers
  { s with
    frontiers := fs
    invalidates := s.invalidates ++ ranks.filter fun r => r != owner }

/-- `release_dbs` for the writer of the head. -/
def release (owner : ℕ) (s : Readers α) : Readers α :=
  let (fs, ns) := progressFrontier owner owner s.frontiers
  send { s with frontiers := fs, released := s.released + 1 } (targets ns)

/-- `arts_remote_db_send`: the owner handles a `DB_REQUEST`. -/
def handleRequest (owner : ℕ) (s : Readers α) (rank number : ℕ) (flags : UInt32) : Readers α :=
  let (fs, ns) := remoteDbSendCheck owner s.frontiers rank .ro flags
  send { s with
    frontiers := fs
    asked := s.asked ++ [⟨rank, number, s.released, s.frontiers⟩] } (targets ns)

/-- `arts_remote_handle_db_received`: a rank receives a copy. -/
def handleReceived (s : Readers α) (rank : ℕ) (c : Copy α) : Readers α :=
  let (e, waiting) := (s.table rank).received c
  { s with
    table := update s.table rank e
    granted := s.granted ++ waiting.map fun a => ⟨rank, a, some (s.asks rank), c⟩ }

/-- A writer holds the datablock. -/
def Held (s : Readers α) : Prop := ∃ f ∈ s.frontiers.head?, f.writeSet = true

instance (s : Readers α) : Decidable s.Held := by
  unfold Held
  infer_instance

inductive Act (α : Type*) where
  | acquire (a : Acquire) (flags : UInt32)
  /-- An EDT of another rank acquires it in mode RO. -/
  | read (rank : ℕ) (a : Acquire) (flags : UInt32)
  | prep
  | write (bytes : α)
  | release
  /-- The `i`-th `DB_REQUEST` is handled. -/
  | request (i : ℕ)
  /-- The `i`-th `DB_SEND` is handled. -/
  | receive (i : ℕ)
  /-- The `i`-th `INVALIDATE_DB` is handled. -/
  | invalidate (i : ℕ)

def next (owner : ℕ) (s : Readers α) : Act α → Option (Readers α)
  | .acquire a flags =>
    if a.mode = .ro ∨ a.mode = .ew then
      some { s with frontiers := (acquireDb owner s.frontiers a flags).1 }
    else none
  | .read rank a flags =>
    if rank ≠ owner ∧ a.mode = .ro then some (s.read rank a flags) else none
  | .prep => if s.Held then some (s.prep owner) else none
  | .write bytes => if s.Held then some { s with bytes := bytes } else none
  | .release => if s.Held then some (s.release owner) else none
  | .request i => s.requests[i]?.map fun m =>
      handleRequest owner { s with requests := s.requests.eraseIdx i } m.1 m.2.1 m.2.2
  | .receive i => s.sends[i]?.map fun m =>
      handleReceived { s with sends := s.sends.eraseIdx i } m.1 m.2
  | .invalidate i => s.invalidates[i]?.map fun r =>
      { s with
        invalidates := s.invalidates.eraseIdx i
        table := update s.table r (s.table r).invalidate }

def start (bytes : α) : Readers α where
  frontiers := autoAcquired
  bytes := bytes
  released := 0
  last _ := none
  requests := []
  sends := []
  invalidates := []
  table _ := .absent
  asks _ := 0
  asked := []
  granted := []

def machine (owner : ℕ) : Machine (Readers α) (Act α) where
  init s := ∃ bytes, s = start bytes
  next := next owner

/-- What a reader may rely on. -/
structure ReadAfterWrite (s : Readers α) : Prop where
  /-- An EDT gets a copy that was made after the releases of all writers that its request met. -/
  fresh : ∀ g ∈ s.granted, ∀ x ∈ s.asked, x.rank = g.rank → g.number = some x.number →
    x.Covered g.copy.released
  left : ∀ r c, s.table r = .available c → (∀ m ∈ s.sends, m.1 ≠ r) → s.last r = some c

/-- **The condition**: a copy that is not dropped is the last one for its rank; no request of the
rank is in flight, and it stands in no frontier that has yet to become the head. -/
def Final [DecidableEq α] (s : Readers α) : Act α → Prop
  | .receive i => ∀ m ∈ s.sends[i]?, (s.table m.1).isAvailable = true ∨
      s.last m.1 = some m.2 ∧ (∀ q ∈ s.requests, q.1 ≠ m.1) ∧
        ∀ f ∈ s.frontiers.tail, m.1 ∉ f.list
  | _ => True

instance [DecidableEq α] (s : Readers α) (l : Act α) : Decidable (s.Final l) := by
  cases l <;> unfold Final <;> infer_instance

/-! ### What the owner still has to send -/

/-- The request is answered once more, after the writers that it met have released; or the last copy
that was sent to the rank is such an answer. -/
def Pending (s : Readers α) (x : Asked) : Prop :=
  (∃ j, 0 < j ∧ Listed s.frontiers x.rank j ∧ x.Covered (s.released + j)) ∨
    x.Covered s.released ∧ ∀ c, s.last x.rank = some c → x.Covered c.released

structure Inv (owner : ℕ) (s : Readers α) : Prop where
  closed : Closed s.frontiers
  exclusive : ∀ f ∈ s.frontiers, f.exclusive = none
  home : s.table owner = .absent
  sent : ∀ m ∈ s.sends, m.1 ≠ owner
  flying : ∀ m ∈ s.requests, m.1 ≠ owner ∧ m.2.1 = s.asks m.1 ∧ ∃ ws, s.table m.1 = .reserved ws
  asked : ∀ x ∈ s.asked, x.rank ≠ owner ∧ s.Pending x
  granted : ∀ g ∈ s.granted, ∀ n, g.number = some n →
    n ≤ s.asks g.rank ∧ ∀ ws, s.table g.rank = .reserved ws → n < s.asks g.rank
  fresh : ∀ g ∈ s.granted, ∀ x ∈ s.asked, x.rank = g.rank → g.number = some x.number →
    x.Covered g.copy.released
  left : ∀ r c, s.table r = .available c →
    s.last r = some c ∧ ∀ j, 0 < j → ¬ Listed s.frontiers r j

variable {owner : ℕ} {s : Readers α}

lemma Pending.send {x : Asked} (h : s.Pending x) (ranks : List ℕ) : (s.send ranks).Pending x := by
  rcases h with h | ⟨hcov, hlast⟩
  · exact .inl h
  · refine .inr ⟨hcov, fun c hc => ?_⟩
    simp only [Readers.send] at hc
    split at hc
    · rw [← some.inj hc]
      exact hcov
    · exact hlast c hc

lemma mem_targets {ns : List Notice} {r : ℕ} : r ∈ targets ns ↔ .send r ∈ ns := by
  unfold targets
  rw [mem_filterMap]
  constructor
  · rintro ⟨n, hn, h⟩
    cases n <;> simp_all
  · exact fun h => ⟨_, h, rfl⟩

lemma mem_targets_progressFrontier (owner : ℕ) {fs : List Frontier}
    (hex : ∀ f ∈ fs, f.exclusive = none) (r : ℕ) : r ∈ targets (progressFrontier owner owner fs).2 ↔ r ≠ owner ∧ Listed fs r 1 := by
  rw [mem_targets]
  rcases fs with - | ⟨f, - | ⟨g, fs⟩⟩
  · simp [progressFrontier, Listed]
  · simp [progressFrontier, Listed]
  · have hg : g.exclusive = none := hex g (by simp)
    simp [progressFrontier, Listed, signalFrontierLocal, Frontier.copies, hg, and_comm]

/-- A step on the owner: accesses are entered into the frontiers and copies are sent. -/
theorem Inv.send (h : Inv owner s) {fs : List Frontier} {released : ℕ} {xs : List Asked}
    {ranks : List ℕ} (hclosed : Closed fs) (hex : ∀ f ∈ fs, f.exclusive = none)
    (hranks : owner ∉ ranks)
    (hasked : ∀ x ∈ xs, x.rank ≠ owner ∧
      (send { s with frontiers := fs, released := released, asked := xs } ranks).Pending x)
    (hfresh : ∀ g ∈ s.granted, ∀ x ∈ xs, x.rank = g.rank → g.number = some x.number →
      x.Covered g.copy.released)
    (hleft : ∀ r c, s.table r = .available c → r ∉ ranks ∧ ∀ j, 0 < j → ¬ Listed fs r j) :
    Inv owner
      (send { s with frontiers := fs, released := released, asked := xs } ranks) where
  closed := hclosed
  exclusive := hex
  __ := h
  sent m hm := by
    rcases mem_append.1 hm with hm | hm
    · exact h.sent m hm
    · obtain ⟨r, hr, rfl⟩ := mem_map.1 hm
      rintro rfl
      exact hranks hr
  asked := hasked
  fresh := hfresh
  left r c hr := by
    refine ⟨?_, (hleft r c hr).2⟩
    simp only [Readers.send, if_neg (hleft r c hr).1]
    exact (h.left r c hr).1

lemma exclusive_push {q : FrontierRequest} (hq : (q.write && !q.isLocal) = false)
    {fs : List Frontier} (hex : ∀ f ∈ fs, f.exclusive = none) (b : Bool) :
    ∀ f ∈ (pushDbToList q b fs).frontiers, f.exclusive = none := by
  intro f hf
  obtain ⟨i, hi⟩ := mem_iff_getElem?.1 hf
  have hpend := DbOwner.pending_push hq b fs i
  rw [hi, bind_some] at hpend
  rw [hpend]
  cases hg : fs[i]? with
  | none => rfl
  | some g => exact hex g (mem_of_getElem? hg)

lemma Inv.frontiers (h : Inv owner s) {fs : List Frontier} (is : List ℕ) (hclosed : Closed fs)
    (hex : ∀ f ∈ fs, f.exclusive = none)
    (hlisted : ∀ r j, r ≠ owner → (Listed fs r j ↔ Listed s.frontiers r j)) :
    Inv owner { s with frontiers := fs, invalidates := is } where
  closed := hclosed
  exclusive := hex
  __ := h
  asked x hx := by
    obtain ⟨hx, ⟨j, hj, hl, hcov⟩ | hcov⟩ := h.asked x hx
    · exact ⟨hx, .inl ⟨j, hj, (hlisted _ j hx).2 hl, hcov⟩⟩
    · exact ⟨hx, .inr hcov⟩
  left r c hr := by
    have hne : r ≠ owner := by
      rintro rfl
      rw [h.home] at hr
      cases hr
    exact ⟨(h.left r c hr).1, fun j hj hl => (h.left r c hr).2 j hj ((hlisted r j hne).1 hl)⟩

lemma Inv.acquire (h : Inv owner s) (a : Acquire) (flags : UInt32) :
    Inv owner { s with frontiers := (acquireDb owner s.frontiers a flags).1 } := by
  have hlocal : (duplicateRequest owner owner (some a.edt) a.slot a.mode flags).isLocal = true :=
    beq_self_eq_true owner
  refine h.frontiers s.invalidates (h.closed.push true)
    (exclusive_push (by rw [hlocal]; simp) h.exclusive true) fun r j hr => ⟨fun hl => ?_, ?_⟩
  · exact (listed_of_push true hl).resolve_right fun hq => hr hq.2
  · exact fun hl => hl.push true

lemma Inv.prep (h : Inv owner s) : Inv owner (s.prep owner) := by
  obtain ⟨fs, hfs⟩ : ∃ fs, fs = s.frontiers := ⟨_, rfl⟩
  have hlisted : ∀ r j, Listed (closeFrontier fs).1 r j ↔ Listed fs r j := by
    intro r j
    rcases fs with - | ⟨f, fs⟩
    · rfl
    · cases j <;> simp [closeFrontier, Listed]
  have hclosed : Closed (closeFrontier fs).1 := by
    have hc := hfs ▸ h.closed
    rcases fs with - | ⟨f, fs⟩
    · exact hc
    · intro k g hg hk
      cases k with
      | zero => rw [← some.inj hg]
      | succ k => exact hc (k + 1) g hg hk
  have hex : ∀ f ∈ (closeFrontier fs).1, f.exclusive = none := by
    have hex := hfs ▸ h.exclusive
    rcases fs with - | ⟨f, fs⟩
    · exact hex
    · simpa [closeFrontier] using hex
  subst hfs
  exact h.frontiers _ hclosed hex fun r j _ => hlisted r j

lemma Inv.release (h : Inv owner s) : Inv owner (s.release owner) := by
  have hfs := progressFrontier_self_fst owner s.frontiers
  have htail : ∀ r j, Listed s.frontiers.tail r j ↔ Listed s.frontiers r (j + 1) := by
    intro r j
    unfold Listed
    rw [getElem?_tail]
  have hmem := mem_targets_progressFrontier owner h.exclusive
  change Inv owner (Readers.send
    { s with
      frontiers := (progressFrontier owner owner s.frontiers).1
      released := s.released + 1 } (targets (progressFrontier owner owner s.frontiers).2))
  rw [hfs]
  refine h.send h.closed.tail (fun f hf => h.exclusive f (mem_of_mem_tail hf))
    (fun ho => ((hmem owner).1 ho).1 rfl) (fun x hx => ?_) h.fresh fun r c hr => ⟨fun hr' => ?_, ?_⟩
  · obtain ⟨hx, hpend⟩ := h.asked x hx
    refine ⟨hx, ?_⟩
    rcases hpend with ⟨j, hj, hl, hcov⟩ | ⟨hcov, hlast⟩
    · obtain ⟨j, rfl⟩ : ∃ i, j = i + 1 := ⟨j - 1, by omega⟩
      rw [show s.released + (j + 1) = s.released + 1 + j by omega] at hcov
      rcases Nat.eq_zero_or_pos j with rfl | hj'
      · refine .inr ⟨hcov, fun c hc => ?_⟩
        simp only [Readers.send, if_pos ((hmem x.rank).2 ⟨hx, hl⟩)] at hc
        rw [← some.inj hc]
        exact hcov
      · exact .inl ⟨j, hj', (htail _ j).2 hl, hcov⟩
    · refine Pending.send ?_ _
      exact .inr ⟨hcov.mono (Nat.le_succ _), hlast⟩
  · exact (h.left r c hr).2 1 Nat.one_pos ((hmem r).1 hr').2
  · exact fun j _ hl => (h.left r c hr).2 (j + 1) (Nat.succ_pos j) ((htail r j).1 hl)

lemma Inv.handleRequest (h : Inv owner s) {rank number : ℕ} {flags : UInt32}
    {ms : List (ℕ × ℕ × UInt32)} (hm : (rank, number, flags) ∈ s.requests) (hms : ms ⊆ s.requests) :
    Inv owner (handleRequest owner { s with requests := ms } rank number flags) := by
  obtain ⟨hrank, hnumber, ws, hws⟩ := h.flying _ hm
  have hs : Inv owner { s with requests := ms } :=
    { h with flying := fun m hm => h.flying m (hms hm) }
  obtain ⟨q, hq⟩ : ∃ q, q = duplicateRequest owner rank none 0 .ro flags := ⟨_, rfl⟩
  have hlocal : q.isLocal = false := by
    rw [hq]
    exact beq_eq_false_iff_ne.2 (Ne.symm hrank)
  have hread : (q.write && !q.isLocal) = false := by
    rw [hq]
    rfl
  have hopen : ∀ f, s.frontiers[taker q s.frontiers]? = some f → f.writeSet = false := by
    intro f hf
    simpa [Frontier.takes, hlocal] using takes_of_taker hf
  have hdata : q.data = rank := by rw [hq]; rfl
  have hranks : ∀ r ∈ targets (remoteDbSendCheck owner s.frontiers rank .ro flags).2, r = rank := by
    intro r hr
    rw [mem_targets, remoteDbSendCheck] at hr
    split at hr <;> simp_all
  refine hs.send (h.closed.push true) (exclusive_push (hq ▸ hread) h.exclusive true)
    (fun ho => hrank (hranks owner ho).symm) (fun x hx => ?_) (fun g hg x hx hgr hgn => ?_)
    fun r c hr => ⟨fun hr' => ?_, fun j hj hl => ?_⟩
  · rcases mem_append.1 hx with hx | hx
    · obtain ⟨hx, hpend⟩ := h.asked x hx
      refine ⟨hx, Pending.send ?_ _⟩
      rcases hpend with ⟨j, hj, hl, hcov⟩ | hcov
      · exact .inl ⟨j, hj, hl.push true, hcov⟩
      · exact .inr hcov
    · obtain rfl := mem_singleton.1 hx
      refine ⟨hrank, Pending.send ?_ _⟩
      have hlt : ∀ k f, s.frontiers[k]? = some f → f.writeSet = true → k < taker q s.frontiers :=
        fun k f hf hw => h.closed.lt_taker hlocal hf hw
      rcases Nat.eq_zero_or_pos (taker q s.frontiers) with h0 | hpos
      · refine .inr ⟨fun k f hf hw => ?_, fun c _ k f hf hw => ?_⟩
        · exact absurd (hlt k f hf hw) (by omega)
        · exact absurd (hlt k f hf hw) (by omega)
      · refine .inl ⟨_, hpos, ?_, fun k f hf hw => Nat.add_lt_add_left (hlt k f hf hw) _⟩
        have := listed_taker true hopen
        rw [hdata, hq] at this
        rw [hq]
        exact this
  · rcases mem_append.1 hx with hx | hx
    · exact h.fresh g hg x hx hgr hgn
    · obtain rfl := mem_singleton.1 hx
      have hgr : rank = g.rank := hgr
      obtain ⟨-, hlt⟩ := h.granted g hg number hgn
      have := hlt ws (hgr ▸ hws)
      have hnumber : number = s.asks rank := hnumber
      rw [← hgr] at this
      omega
  · have hne : r ≠ rank := by
      rintro rfl
      rw [show s.table r = .reserved ws from hws] at hr
      cases hr
    exact hne (hranks r hr')
  · have hne : r ≠ rank := by
      rintro rfl
      rw [show s.table r = .reserved ws from hws] at hr
      cases hr
    rcases listed_of_push true hl with hl | ⟨-, hl⟩
    · exact (h.left r c hr).2 j hj hl
    · exact hne hl

section Rank

variable {rank : ℕ}

lemma Inv.entry (h : Inv owner s) {e : Replica Acquire (Copy α)} (is : List ℕ)
    (hhome : rank ≠ owner ∨ e = .absent) (he : ∀ c, e ≠ .available c)
    (hflying : (∃ ws, s.table rank = .reserved ws) ↔ ∃ ws, e = .reserved ws) :
    Inv owner { s with invalidates := is, table := update s.table rank e } where
  __ := h
  home := by
    by_cases hr : rank = owner
    · subst hr
      exact (update_self ..).trans (hhome.resolve_left (· rfl))
    · exact (update_of_ne (Ne.symm hr) ..).trans h.home
  flying m hm := by
    obtain ⟨hne, hn, hws⟩ := h.flying m hm
    refine ⟨hne, hn, ?_⟩
    by_cases hr : m.1 = rank
    · simpa [hr] using hflying.1 (hr ▸ hws)
    · simpa only [update_of_ne hr] using hws
  granted g hg n hn := by
    refine ⟨(h.granted g hg n hn).1, fun ws hws => ?_⟩
    by_cases hr : g.rank = rank
    · simp only [hr, update_self] at hws
      obtain ⟨ws', hws'⟩ := hflying.2 ⟨ws, hws⟩
      exact (h.granted g hg n hn).2 ws' (hr ▸ hws')
    · simp only [update_of_ne hr] at hws
      exact (h.granted g hg n hn).2 ws hws
  left r c hc := by
    by_cases hr : r = rank
    · simp only [hr, update_self] at hc
      exact absurd hc (he c)
    · simp only [update_of_ne hr] at hc
      exact h.left r c hc

lemma Inv.invalidate (h : Inv owner s) (is : List ℕ) :
    Inv owner { s with
      invalidates := is
      table := update s.table rank (s.table rank).invalidate } := by
  refine h.entry is ?_ (fun c => ?_) ?_
  · by_cases hr : rank = owner
    · rw [hr, h.home]
      exact .inr rfl
    · exact .inl hr
  · cases s.table rank <;> simp [Replica.invalidate]
  · cases s.table rank <;> simp [Replica.invalidate]

lemma Inv.ask (h : Inv owner s) (hrank : rank ≠ owner) (habsent : s.table rank = .absent)
    (a : Acquire) (flags : UInt32) :
    Inv owner { s with
      table := update s.table rank (.reserved [a])
      asks := update s.asks rank (s.asks rank + 1)
      requests := s.requests ++ [(rank, s.asks rank + 1, flags)] } where
  __ := h
  home := (update_of_ne (Ne.symm hrank) ..).trans h.home
  flying := forall_mem_append_singleton
    (fun m hm => by
      obtain ⟨hne, hn, ws, hws⟩ := h.flying m hm
      have hr : m.1 ≠ rank := by
        intro hr
        rw [hr, habsent] at hws
        cases hws
      simp only [update_of_ne hr]
      exact ⟨hne, hn, ws, hws⟩)
    ⟨hrank, by simp, [a], by simp⟩
  granted g hg n hn := by
    obtain ⟨hle, hlt⟩ := h.granted g hg n hn
    by_cases hr : g.rank = rank
    · simp only [hr, update_self]
      rw [hr] at hle
      exact ⟨by omega, fun _ _ => by omega⟩
    · simp only [update_of_ne hr]
      exact ⟨hle, hlt⟩
  left r c hc := by
    by_cases hr : r = rank
    · simp only [hr, update_self] at hc
      cases hc
    · simp only [update_of_ne hr] at hc
      exact h.left r c hc

lemma Inv.read (h : Inv owner s) (hrank : rank ≠ owner) (a : Acquire) (flags : UInt32) :
    Inv owner (s.read rank a flags) := by
  unfold Readers.read
  cases he : s.table rank with
  | absent => exact h.ask hrank he a flags
  | reserved ws =>
    refine h.entry s.invalidates (.inl hrank) (by simp) ?_
    simp [he]
  | available c =>
    -- the EDT has not waited for a request
    refine { h with
      granted := forall_mem_append_singleton h.granted (by simp)
      fresh := forall_mem_append_singleton h.fresh (by simp) }

lemma Inv.handleReceived (h : Inv owner s) {c : Copy α} (hrank : rank ≠ owner)
    (hlast : s.last rank = some c) (hreq : ∀ q ∈ s.requests, q.1 ≠ rank)
    (hlisted : ∀ f ∈ s.frontiers.tail, rank ∉ f.list) (hav : (s.table rank).isAvailable = false) :
    Inv owner (s.handleReceived rank c) := by
  have hbehind : ∀ j, 0 < j → ¬ Listed s.frontiers rank j := by
    rintro j hj ⟨f, hf, hr⟩
    refine hlisted f (mem_of_getElem? (i := j - 1) ?_) hr
    rw [getElem?_tail, Nat.sub_add_cancel hj]
    exact hf
  have hentry : ((s.table rank).received c).1 = .available c := by
    cases he : s.table rank with
    | available => simp [he, Replica.isAvailable] at hav
    | _ => rfl
  unfold Readers.handleReceived
  rw [show (s.table rank).received c = (.available c, ((s.table rank).received c).2) from
    Prod.ext hentry rfl]
  exact
    { closed := h.closed
      __ := h
      home := (update_of_ne (Ne.symm hrank) ..).trans h.home
      flying := fun m hm => by
        simp only [update_of_ne (hreq m hm)]
        exact h.flying m hm
      granted := fun g hg n hn => by
        rcases mem_append.1 hg with hg | hg
        · refine ⟨(h.granted g hg n hn).1, fun ws hws => ?_⟩
          by_cases hr : g.rank = rank
          · simp only [hr, update_self] at hws
            cases hws
          · simp only [update_of_ne hr] at hws
            exact (h.granted g hg n hn).2 ws hws
        · obtain ⟨a, -, rfl⟩ := mem_map.1 hg
          cases hn
          refine ⟨Nat.le_refl _, fun ws hws => ?_⟩
          simp only [update_self] at hws
          cases hws
      fresh := fun g hg x hx hgr hgn => by
        rcases mem_append.1 hg with hg | hg
        · exact h.fresh g hg x hx hgr hgn
        · obtain ⟨a, -, rfl⟩ := mem_map.1 hg
          have hgr : x.rank = rank := hgr
          rcases (h.asked x hx).2 with ⟨j, hj, hl, -⟩ | ⟨-, hcov⟩
          · exact absurd (hgr ▸ hl) (hbehind j hj)
          · exact hcov c (hgr ▸ hlast)
      left := fun r c' hc => by
        by_cases hr : r = rank
        · simp only [hr, update_self] at hc
          cases hc
          exact ⟨hr ▸ hlast, hr ▸ hbehind⟩
        · simp only [update_of_ne hr] at hc
          exact h.left r c' hc }

lemma handleReceived_of_available {c : Copy α} (h : (s.table rank).isAvailable = true) :
    s.handleReceived rank c = s := by
  unfold Readers.handleReceived
  cases he : s.table rank with
  | available c' =>
    simp only [Replica.received, map_nil, append_nil]
    rw [← he, update_eq_self]
  | _ => simp [he, Replica.isAvailable] at h

end Rank

lemma Inv.start (owner : ℕ) (bytes : α) : Inv owner (start bytes) where
  closed k f hf hk := by
    simp [Readers.start, autoAcquired] at hk
  exclusive := by simp [Readers.start, autoAcquired]
  home := rfl
  sent := by simp [Readers.start]
  flying := by simp [Readers.start]
  asked := by simp [Readers.start]
  granted := by simp [Readers.start]
  fresh := by simp [Readers.start]
  left := by simp [Readers.start]

lemma Inv.next [DecidableEq α] (h : Inv owner s) {l : Act α} {s' : Readers α}
    (hfinal : s.Final l) (hst : s.next owner l = some s') : Inv owner s' := by
  cases l with
  | acquire a flags =>
    obtain ⟨-, ⟨⟩⟩ := ite_none_right_eq_some.1 hst
    exact h.acquire a flags
  | read rank a flags =>
    obtain ⟨⟨hrank, -⟩, ⟨⟩⟩ := ite_none_right_eq_some.1 hst
    exact h.read hrank a flags
  | prep =>
    obtain ⟨-, ⟨⟩⟩ := ite_none_right_eq_some.1 hst
    exact h.prep
  | write bytes =>
    obtain ⟨-, ⟨⟩⟩ := ite_none_right_eq_some.1 hst
    exact { h with }
  | release =>
    obtain ⟨-, ⟨⟩⟩ := ite_none_right_eq_some.1 hst
    exact h.release
  | request i =>
    obtain ⟨m, hm, rfl⟩ := map_eq_some_iff.1 hst
    exact h.handleRequest (mem_of_getElem? hm) (eraseIdx_subset)
  | receive i =>
    obtain ⟨m, hm, rfl⟩ := map_eq_some_iff.1 hst
    have hs : Inv owner { s with sends := s.sends.eraseIdx i } :=
      { h with sent := fun m hm => h.sent m (eraseIdx_subset hm) }
    cases hav : (s.table m.1).isAvailable with
    | true =>
      rw [handleReceived_of_available (by exact hav)]
      exact hs
    | false =>
      obtain ⟨hlast, hreq, hlisted⟩ := (hfinal m hm).resolve_left (by simp [hav])
      exact hs.handleReceived (h.sent m (mem_of_getElem? hm)) hlast hreq hlisted hav
  | invalidate i =>
    obtain ⟨r, hr, rfl⟩ := map_eq_some_iff.1 hst
    exact h.invalidate _

/-- **Remote reads see the writes ahead of them**, in every run in which a rank that waits receives
the last copy for it. -/
theorem read_after_write [DecidableEq α] (h : ((machine owner).restrict Final).Reachable s) :
    s.ReadAfterWrite := by
  have hs : Inv owner s := by
    refine h.invariant ?_ fun s l s' _ hs hst => ?_
    · rintro s ⟨bytes, rfl⟩
      exact Inv.start owner bytes
    · obtain ⟨hfinal, hst⟩ := Machine.restrict_next.1 hst
      exact hs.next hfinal hst
  exact ⟨hs.fresh, fun r c hr _ => (hs.left r c hr).1⟩

/-- The EDT 1 of rank 1 asks while the creator holds the datablock; the second copy overtakes the
first one. -/
theorem read_after_write_overtaking : ∃ s : Readers ℕ,
    ((machine 0).restrict Final).Reachable s ∧
      (∃ g ∈ s.granted, g.copy.bytes = 7 ∧ g.number = some 1) ∧ s.sends = [] ∧
        s.ReadAfterWrite :=
  Machine.Reachable.exists_and₂ (r := [.read 1 ⟨.ofKey 1, 0, .ro⟩ 0, .request 0, .write 7, .release, .receive 1, .receive 0])
    ⟨0, rfl⟩ (by decide +kernel) fun _ hr _ _ => read_after_write hr

/-- The same requests with the copies in the order in which they were sent. -/
theorem stale_read : ∃ s : Readers ℕ, (machine 0).Reachable s ∧ s.sends = [] ∧ s.bytes = 7 ∧
    (∃ g ∈ s.granted, g.copy.bytes = 0) ∧
    (∃ g ∈ s.granted, ∃ x ∈ s.asked, x.rank = g.rank ∧ g.number = some x.number ∧
      ¬ x.Covered g.copy.released) ∧
    ∃ c, s.table 1 = .available c ∧ s.last 1 ≠ some c := by
  obtain ⟨s, hr, hs, hb, ⟨g, hg, hgb, hgr, hgn⟩, ⟨x, hx, hxr, hxn, hxf⟩, ht, hl⟩ :=
    Machine.Reachable.exists_of_exec (M := machine 0)
      (P := fun s : Readers ℕ => s.sends = [] ∧ s.bytes = 7 ∧
        (∃ g ∈ s.granted, g.copy = ⟨0, 0⟩ ∧ g.rank = 1 ∧ g.number = some 1) ∧
        (∃ x ∈ s.asked, x.rank = 1 ∧ x.number = 1 ∧ x.frontiers = autoAcquired) ∧
        s.table 1 = .available ⟨0, 0⟩ ∧ s.last 1 = some ⟨7, 1⟩)
      (r := [.read 1 ⟨.ofKey 1, 0, .ro⟩ 0, .request 0, .write 7, .release, .receive 0, .receive 0])
      ⟨0, rfl⟩ (by decide +kernel)
  refine ⟨s, hr, hs, hb, ⟨g, hg, by rw [hgb]⟩, ⟨g, hg, x, hx, by rw [hxr, hgr],
    by rw [hxn, hgn], fun hcov => ?_⟩, _, ht, by simp [hl]⟩
  have := hcov 0 { writeSet := true } (by rw [hxf]; rfl) rfl
  rw [hgb] at this
  exact Nat.not_lt_zero _ this

end Readers

end Arts
