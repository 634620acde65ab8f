import Arts.Guid

/-!
# The frontiers of a datablock

The owner keeps the outstanding accesses in a list of *frontiers*. A write access *seals* its
frontier; the release of a write removes the head and serves the next one. `[]` is a list whose
head is `NULL`.
-/

namespace Arts

open List Option

/-- `arts_is_write_mode`. -/
def AccessMode.isWrite : AccessMode → Bool
  | .ew | .memset => true
  | _ => false

/-- An access of an EDT through one of its slots. -/
structure Acquire where
  edt : EdtGuid
  slot : UInt32
  mode : AccessMode
  deriving DecidableEq

/-- The write access of another rank, the fields `exNode`, `exEdtGuid`, `exSlot` and `exMode`. -/
structure Exclusive where
  node : ℕ
  acquire : Acquire
  deriving DecidableEq

/-- `arts_db_frontier_s`; the default values are those of `arts_new_db_frontier`. -/
structure Frontier where
  /-- `WRITE_SET` of the lock word: the frontier takes no further access. -/
  writeSet : Bool := false
  list : List ℕ := []
  /-- The write access of another rank that waits for the frontier to become the head. -/
  exclusive : Option Exclusive := none
  /-- The EDT of this rank that sealed the frontier. -/
  localWriteEdt : Option EdtGuid := none
  /-- The accesses of this rank that wait for the frontier to become the head. -/
  localDelayed : List Acquire := []
  deriving DecidableEq

/-- The arguments of `arts_push_db_to_list`. -/
structure FrontierRequest where
  data : ℕ
  write : Bool
  isLocal : Bool
  /-- A read access that need not wait for the list to be in order. -/
  bypass : Bool
  edt : Option EdtGuid
  slot : UInt32
  mode : AccessMode

/-- `arts_push_db_to_element`: enter the rank unless it is listed; says whether it was entered. -/
def pushDbToElement (list : List ℕ) (data : ℕ) : List ℕ × Bool :=
  if data ∈ list then (list, false) else (list ++ [data], true)

/-- `arts_same_local_writer`. -/
def Frontier.sameLocalWriter (f : Frontier) (edt : Option EdtGuid) : Bool :=
  edt.isSome && f.localWriteEdt == edt

/-- `arts_push_db_to_frontier`: `none` if the frontier is sealed, else the frontier with the access
and whether the rank is new in it. -/
def pushDbToFrontier (f : Frontier) (q : FrontierRequest) : Option (Frontier × Bool) :=
  if f.writeSet then none
  else
    let (list, inserted) := pushDbToElement f.list q.data
    some ({ f with
      writeSet := !q.bypass && q.write
      list := list
      -- a rank that is listed already leaves no record of its write access
      exclusive := if inserted && (q.write && !q.isLocal) then
          q.edt.map fun e => ⟨q.data, e, q.slot, q.mode⟩
        else f.exclusive
      localWriteEdt := if q.write && q.isLocal then q.edt else f.localWriteEdt }, inserted)

/-- `arts_push_delayed_edt`, for an access of the owner that was not taken by the head. -/
def Frontier.delay (f : Frontier) (q : FrontierRequest) (isHead : Bool) : Frontier :=
  match q.edt with
  | some e =>
    if q.isLocal && !isHead then
      { f with localDelayed := f.localDelayed ++ [⟨e, q.slot, q.mode⟩] }
    else f
  | none => f

/-- What `arts_push_db_to_list` leaves. -/
structure Pushed where
  frontiers : List Frontier
  /-- The rank is new in the frontier that took the access (the result of the call). -/
  unique : Bool
  onHead : Bool

/-- `arts_push_db_to_list`: the first frontier that takes the access, or that was sealed by the same
EDT, gets it; a frontier is appended if there is none. -/
def pushDbToList (q : FrontierRequest) : Bool → List Frontier → Pushed
  -- the first frontier of a drained list, or one appended after the last
  | isHead, [] =>
    match pushDbToFrontier {} q with
    | some (f, unique) => ⟨[f.delay q isHead], unique, isHead⟩
    | none => ⟨[{}], false, false⟩
  | isHead, f :: fs =>
    match pushDbToFrontier f q with
    | some (f', unique) => ⟨f'.delay q isHead :: fs, unique, isHead⟩
    | none =>
      if q.isLocal && f.sameLocalWriter q.edt then ⟨f.delay q isHead :: fs, false, isHead⟩
      else
        let r := pushDbToList q false fs
        { r with frontiers := f :: r.frontiers }

/-- `ARTS_DEP_FLAG_PREFER_DUPLICATE`. -/
def preferDuplicate : UInt32 := 1

/-- The arguments with which `arts_add_db_duplicate_ex` pushes an access, on the rank `owner`, which
owns the DB. -/
def duplicateRequest (owner rank : ℕ) (edt : Option EdtGuid) (slot : UInt32) (mode : AccessMode)
    (flags : UInt32) : FrontierRequest :=
  ⟨rank, mode.isWrite, owner == rank, mode == .ro && flags &&& preferDuplicate != 0, edt, slot, mode⟩

/-- `arts_add_db_duplicate_ex` on the rank `owner`, which owns the DB. -/
def addDbDuplicateEx (owner : ℕ) (fs : List Frontier) (rank : ℕ) (edt : Option EdtGuid)
    (slot : UInt32) (mode : AccessMode) (flags : UInt32) : Pushed :=
  pushDbToList (duplicateRequest owner rank edt slot mode flags) true fs

/-- What serving a frontier does: slots of this rank that get the DB, and messages. -/
inductive Notice where
  | grant (a : Acquire)
  /-- `DB_FULL_SEND` to the rank, for the slot. -/
  | fullSend (node : ℕ) (a : Acquire)
  /-- `DB_SEND` to the rank. -/
  | send (node : ℕ)
  /-- `DB_FULL_SEND_ALREADY_LOCAL` to the rank, which has the data. -/
  | alreadyLocal (node : ℕ) (a : Acquire)
  /-- `DB_FULL_REQUEST` of the rank `node`, sent to the rank that has the data. -/
  | fullRequest (node getFrom : ℕ) (a : Acquire)
  /-- `DB_REQUEST` of the rank `node`, sent to the rank that has the data. -/
  | forward (node getFrom : ℕ)
  /-- `arts_remote_db_request` for a slot of this rank. -/
  | request (getFrom : ℕ) (a : Acquire)
  deriving DecidableEq

/-- The ranks of the frontier that get a copy when it is served. -/
def Frontier.copies (f : Frontier) (self : ℕ) : List ℕ :=
  f.list.filter fun node => node != self && !(f.exclusive.any fun x => x.node == node)

/-- `arts_signal_frontier_local`. -/
def signalFrontierLocal (self : ℕ) (f : Frontier) : List Notice :=
  (match f.exclusive with
    | some x => [if x.node = self then .grant x.acquire else .fullSend x.node x.acquire]
    | none => []) ++
  (f.copies self).map .send ++ f.localDelayed.map .grant

/-- `arts_signal_frontier_remote`: the data are on the rank `getFrom`. -/
def signalFrontierRemote (self : ℕ) (f : Frontier) (getFrom : ℕ) : Frontier × List Notice :=
  ({ f with list := (pushDbToElement f.list getFrom).1 },
    (match f.exclusive with
      | some x =>
        [if x.node = getFrom then .alreadyLocal getFrom x.acquire
          else .fullRequest x.node getFrom x.acquire]
      | none => []) ++
    (f.copies self).map (fun node => .forward node getFrom) ++
    f.localDelayed.map (.request getFrom))

/-- `arts_progress_frontier`: the data are on the rank `rank`. -/
def progressFrontier (self rank : ℕ) : List Frontier → List Frontier × List Notice
  | _ :: f :: fs =>
    if rank = self then (f :: fs, signalFrontierLocal self f)
    else
      let (f, notices) := signalFrontierRemote self f rank
      (f :: fs, notices)
  | _ => ([], [])

/-- `arts_close_frontier`: seal the head; the ranks it lists. -/
def closeFrontier : List Frontier → List Frontier × List ℕ
  | [] => ([], [])
  | f :: fs => ({ f with writeSet := true } :: fs, f.list)

/-- The list of `arts_new_db_list`, sealed by `arts_db_auto_acquire` for the EDT that creates
the DB. -/
def autoAcquired : List Frontier := [{ writeSet := true }]

/-! ### Where an access goes -/

section Push

variable {q : FrontierRequest} {f : Frontier}

/-- The frontier takes the access: it is not sealed, or it was sealed by the same EDT. -/
def Frontier.takes (f : Frontier) (q : FrontierRequest) : Bool :=
  !f.writeSet || (q.isLocal && f.sameLocalWriter q.edt)

/-- A frontier with the access it takes, and whether the rank is new in it. -/
def Frontier.taken (f : Frontier) (q : FrontierRequest) : Frontier × Bool :=
  (pushDbToFrontier f q).getD (f, false)

/-- The number of the frontier that takes the access. -/
def taker (q : FrontierRequest) (fs : List Frontier) : ℕ := fs.findIdx fun f => f.takes q

lemma pushDbToFrontier_eq_none_iff : pushDbToFrontier f q = none ↔ f.writeSet = true := by
  simp only [pushDbToFrontier]
  split <;> simp_all

lemma pushDbToFrontier_of_open (h : f.writeSet = false) :
    pushDbToFrontier f q = some (f.taken q) := by
  cases hp : pushDbToFrontier f q with
  | none => simp [pushDbToFrontier_eq_none_iff.1 hp] at h
  | some x => rw [Frontier.taken, hp, getD_some]

lemma pushDbToFrontier_of_sealed (h : f.writeSet = true) : pushDbToFrontier f q = none :=
  pushDbToFrontier_eq_none_iff.2 h

lemma taken_of_sealed (h : f.writeSet = true) : f.taken q = (f, false) := by
  rw [Frontier.taken, pushDbToFrontier_of_sealed h, getD_none]

@[simp] lemma delay_exclusive (isHead : Bool) : (f.delay q isHead).exclusive = f.exclusive := by
  unfold Frontier.delay
  split
  · split <;> rfl
  · rfl

@[simp] lemma delay_writeSet (isHead : Bool) : (f.delay q isHead).writeSet = f.writeSet := by
  unfold Frontier.delay
  split
  · split <;> rfl
  · rfl

@[simp] lemma delay_localWriteEdt (isHead : Bool) :
    (f.delay q isHead).localWriteEdt = f.localWriteEdt := by
  unfold Frontier.delay
  split
  · split <;> rfl
  · rfl

lemma mem_localDelayed_delay {isHead : Bool} {b : Acquire}
    (h : b ∈ (f.delay q isHead).localDelayed) :
    b ∈ f.localDelayed ∨ q.isLocal = true ∧ ∃ e, q.edt = some e ∧ b = ⟨e, q.slot, q.mode⟩ := by
  unfold Frontier.delay at h
  split at h
  case h_1 e he =>
    split at h
    case isTrue hl =>
      rcases mem_append.1 h with h | h
      · exact .inl h
      · exact .inr ⟨(Bool.and_eq_true_iff.1 hl).1, e, he, mem_singleton.1 h⟩
    case isFalse => exact .inl h
  case h_2 => exact .inl h

lemma localDelayed_taken : (f.taken q).1.localDelayed = f.localDelayed := by
  cases hseal : f.writeSet with
  | true => rw [taken_of_sealed hseal]
  | false => simp [Frontier.taken, pushDbToFrontier, hseal]

lemma writeSet_taken (hb : q.bypass = true → q.write = false) :
    (f.taken q).1.writeSet = (f.writeSet || q.write) := by
  cases hseal : f.writeSet with
  | true => rw [taken_of_sealed hseal, hseal, Bool.true_or]
  | false =>
    cases hw : q.write with
    | false => simp [Frontier.taken, pushDbToFrontier, hseal, hw]
    | true =>
      have hbypass : q.bypass = false := Bool.eq_false_iff.2 fun h => by simp [hb h] at hw
      simp [Frontier.taken, pushDbToFrontier, hseal, hw, hbypass]

lemma localWriteEdt_of_takes (h : f.takes q = true) (hseal : f.writeSet = true) :
    q.isLocal = true ∧ ∃ edt, q.edt = some edt ∧ f.localWriteEdt = some edt := by
  simp only [Frontier.takes, hseal, Bool.not_true, Bool.false_or, Bool.and_eq_true,
    Frontier.sameLocalWriter, beq_iff_eq] at h
  obtain ⟨hlocal, hsome, heq⟩ := h
  obtain ⟨edt, hedt⟩ := isSome_iff_exists.1 hsome
  exact ⟨hlocal, edt, hedt, heq.trans hedt⟩

lemma exclusive_taken (h : (q.write && !q.isLocal) = false) :
    (f.taken q).1.exclusive = f.exclusive := by
  cases hseal : f.writeSet with
  | true => rw [taken_of_sealed hseal]
  | false => simp [Frontier.taken, pushDbToFrontier, hseal, h]

/-- **Where an access goes**: the first frontier that takes it gets it, or a new one at the end. -/
theorem pushDbToList_eq (q : FrontierRequest) (isHead : Bool) (fs : List Frontier) :
    pushDbToList q isHead fs =
      { frontiers := fs.take (taker q fs) ++
          ((fs[taker q fs]?.getD {}).taken q).1.delay q (isHead && taker q fs == 0) ::
            fs.drop (taker q fs + 1)
        unique := ((fs[taker q fs]?.getD {}).taken q).2
        onHead := isHead && taker q fs == 0 } := by
  induction fs generalizing isHead with
  | nil =>
    rw [pushDbToList, pushDbToFrontier_of_open rfl]
    simp [taker]
  | cons f fs ih =>
    cases hseal : f.writeSet with
    | false =>
      have htaker : taker q (f :: fs) = 0 := by simp [taker, findIdx_cons, Frontier.takes, hseal]
      rw [pushDbToList, pushDbToFrontier_of_open hseal, htaker]
      simp
    | true =>
      rw [pushDbToList, pushDbToFrontier_of_sealed hseal]
      cases hsame : q.isLocal && f.sameLocalWriter q.edt with
      | true =>
        have htaker : taker q (f :: fs) = 0 := by
          simp [taker, findIdx_cons, Frontier.takes, hsame]
        simp [htaker, Frontier.taken, pushDbToFrontier_of_sealed hseal]
      | false =>
        have htaker : taker q (f :: fs) = taker q fs + 1 := by
          simp [taker, findIdx_cons, Frontier.takes, hseal, hsame]
        simp [htaker, ih]

lemma bypass_duplicateRequest {owner rank : ℕ} {edt : Option EdtGuid} {slot : UInt32}
    {mode : AccessMode} {flags : UInt32}
    (h : (duplicateRequest owner rank edt slot mode flags).bypass = true) :
    (duplicateRequest owner rank edt slot mode flags).write = false := by
  cases mode <;> simp_all [duplicateRequest, AccessMode.isWrite]

lemma taker_le (q : FrontierRequest) (fs : List Frontier) : taker q fs ≤ fs.length :=
  findIdx_le_length

lemma takes_of_taker {fs : List Frontier} (h : fs[taker q fs]? = some f) : f.takes q = true := by
  obtain ⟨hlt, rfl⟩ := List.getElem?_eq_some_iff.1 h
  exact findIdx_getElem (w := hlt)

lemma taker_eq {fs : List Frontier} {k : ℕ} (hk : k ≤ fs.length)
    (hlt : ∀ i f, i < k → fs[i]? = some f → f.takes q = false)
    (heq : ∀ f, fs[k]? = some f → f.takes q = true) : taker q fs = k := by
  rcases Nat.lt_or_ge k fs.length with h | h
  · refine (findIdx_eq h).2 ⟨heq _ (getElem?_eq_getElem h), fun j hj => ?_⟩
    exact hlt j _ hj (getElem?_eq_getElem (by omega))
  · obtain rfl : k = fs.length := by omega
    refine findIdx_eq_length.2 fun f hf => ?_
    obtain ⟨i, hi, rfl⟩ := getElem_of_mem hf
    exact hlt i _ hi (getElem?_eq_getElem hi)

end Push

lemma getElem?_take_cons_drop {α : Type*} {l : List α} {k : ℕ} {x : α} (hk : k ≤ l.length)
    (i : ℕ) : (l.take k ++ x :: l.drop (k + 1))[i]? = if i = k then some x else l[i]? := by
  have hlen : (l.take k).length = k := length_take_of_le hk
  rcases Nat.lt_trichotomy i k with h | rfl | h
  · rw [getElem?_append_left (by omega), getElem?_take_of_lt h, if_neg (by omega)]
  · rw [getElem?_append_right (by omega), hlen, if_pos rfl]
    simp
  · rw [getElem?_append_right (by omega), hlen, if_neg (by omega)]
    obtain ⟨d, rfl⟩ : ∃ d, i = k + 1 + d := ⟨i - (k + 1), by omega⟩
    rw [show k + 1 + d - k = d + 1 by omega, getElem?_cons_succ, getElem?_drop]

lemma getElem?_push (q : FrontierRequest) (b : Bool) (fs : List Frontier) (i : ℕ) :
    (pushDbToList q b fs).frontiers[i]? =
      if i = taker q fs then
        some (((fs[taker q fs]?.getD {}).taken q).1.delay q (b && taker q fs == 0))
      else fs[i]? := by
  rw [pushDbToList_eq]
  exact getElem?_take_cons_drop (taker_le q fs) i

lemma progressFrontier_self_fst (owner : ℕ) (fs : List Frontier) :
    (progressFrontier owner owner fs).1 = fs.tail := by
  rcases fs with - | ⟨f, - | ⟨g, fs⟩⟩ <;> simp [progressFrontier]

/-! ### The ranks of a frontier -/

section Ranks

variable {q : FrontierRequest} {f : Frontier} {fs : List Frontier} {r i : ℕ}

@[simp] lemma delay_list (isHead : Bool) : (f.delay q isHead).list = f.list := by
  unfold Frontier.delay
  split
  · split <;> rfl
  · rfl

lemma mem_pushDbToElement {list : List ℕ} {data : ℕ} :
    r ∈ (pushDbToElement list data).1 ↔ r ∈ list ∨ r = data := by
  unfold pushDbToElement
  split
  case isTrue h =>
    refine ⟨.inl, ?_⟩
    rintro (h' | rfl)
    · exact h'
    · exact h
  case isFalse => simp

lemma list_taken_of_open (h : f.writeSet = false) :
    (f.taken q).1.list = (pushDbToElement f.list q.data).1 := by
  simp [Frontier.taken, pushDbToFrontier, h]

lemma mem_list_taken (h : r ∈ (f.taken q).1.list) : r ∈ f.list ∨ r = q.data := by
  cases hseal : f.writeSet with
  | true => rw [taken_of_sealed hseal] at h; exact .inl h
  | false => rw [list_taken_of_open hseal] at h; exact mem_pushDbToElement.1 h

lemma mem_list_taken_of_mem (h : r ∈ f.list) : r ∈ (f.taken q).1.list := by
  cases hseal : f.writeSet with
  | true => rw [taken_of_sealed hseal]; exact h
  | false => rw [list_taken_of_open hseal]; exact mem_pushDbToElement.2 (.inl h)

/-- The rank stands in the `i`-th frontier. -/
def Listed (fs : List Frontier) (r i : ℕ) : Prop := ∃ f, fs[i]? = some f ∧ r ∈ f.list

lemma listed_of_push (b : Bool) :
    Listed (pushDbToList q b fs).frontiers r i →
      Listed fs r i ∨ i = taker q fs ∧ r = q.data := by
  rintro ⟨f, hf, hr⟩
  rw [getElem?_push] at hf
  split at hf
  case isFalse => exact .inl ⟨f, hf, hr⟩
  case isTrue hi =>
    rw [← some.inj hf, delay_list] at hr
    rcases mem_list_taken hr with hr | hr
    · cases hg : fs[taker q fs]? with
      | none => rw [hg] at hr; cases hr
      | some g =>
        rw [hg] at hr
        exact .inl ⟨g, by rw [hi, hg], hr⟩
    · exact .inr ⟨hi, hr⟩

lemma Listed.push (h : Listed fs r i) (b : Bool) :
    Listed (pushDbToList q b fs).frontiers r i := by
  obtain ⟨f, hf, hr⟩ := h
  unfold Listed
  rw [getElem?_push]
  split
  case isFalse => exact ⟨f, hf, hr⟩
  case isTrue hi =>
    subst hi
    rw [hf]
    exact ⟨_, rfl, by rw [delay_list]; exact mem_list_taken_of_mem hr⟩

lemma listed_taker (b : Bool) (hopen : ∀ f, fs[taker q fs]? = some f → f.writeSet = false) :
    Listed (pushDbToList q b fs).frontiers q.data (taker q fs) := by
  refine ⟨_, by rw [getElem?_push, if_pos rfl], ?_⟩
  rw [delay_list]
  cases hg : fs[taker q fs]? with
  | none =>
    rw [getD_none, list_taken_of_open rfl]
    exact mem_pushDbToElement.2 (.inr rfl)
  | some g =>
    rw [getD_some, list_taken_of_open (hopen g hg)]
    exact mem_pushDbToElement.2 (.inr rfl)

/-- Only the last frontier is open. -/
def Closed (fs : List Frontier) : Prop :=
  ∀ k f, fs[k]? = some f → k + 1 < fs.length → f.writeSet = true

lemma takes_of_lt_taker {k : ℕ} (h : k < taker q fs) (hf : fs[k]? = some f) :
    f.takes q = false := by
  obtain ⟨hlt, rfl⟩ := List.getElem?_eq_some_iff.1 hf
  exact not_of_lt_findIdx h

lemma writeSet_of_takes (h : f.takes q = false) : f.writeSet = true := by
  cases hs : f.writeSet with
  | true => rfl
  | false => simp [Frontier.takes, hs] at h

lemma length_push (b : Bool) :
    (pushDbToList q b fs).frontiers.length = max fs.length (taker q fs + 1) := by
  have hle := taker_le q fs
  rw [pushDbToList_eq]
  simp only [length_append, length_take, length_cons, length_drop]
  omega

lemma Closed.push (h : Closed fs) (b : Bool) : Closed (pushDbToList q b fs).frontiers := by
  intro k f hf hk
  rw [length_push] at hk
  rw [getElem?_push] at hf
  split at hf
  case isFalse hne =>
    by_cases hlast : k + 1 < fs.length
    · exact h k f hf hlast
    · exact writeSet_of_takes (takes_of_lt_taker (q := q) (by omega) hf)
  case isTrue heq =>
    rw [← some.inj hf, delay_writeSet]
    cases hg : fs[taker q fs]? with
    | none =>
      have := getElem?_eq_none_iff.1 hg
      omega
    | some g =>
      have hseal := h _ g hg (by omega)
      rw [getD_some, taken_of_sealed hseal]
      exact hseal

lemma Closed.tail (h : Closed fs) : Closed fs.tail := by
  intro k f hf hk
  rw [getElem?_tail] at hf
  rw [length_tail] at hk
  exact h (k + 1) f hf (by omega)

lemma Closed.lt_taker (h : Closed fs) (hq : q.isLocal = false) {k : ℕ} (hf : fs[k]? = some f)
    (hs : f.writeSet = true) : k < taker q fs := by
  by_contra hge
  have hlt := (List.getElem?_eq_some_iff.1 hf).1
  obtain ⟨g, hg⟩ : ∃ g, fs[taker q fs]? = some g :=
    ⟨_, getElem?_eq_getElem (Nat.lt_of_le_of_lt (Nat.not_lt.1 hge) hlt)⟩
  have htakes := takes_of_taker hg
  have hopen : g.writeSet = false := by simpa [Frontier.takes, hq] using htakes
  have hne : taker q fs ≠ k := by
    intro he
    rw [he, hf] at hg
    rw [← some.inj hg, hs] at hopen
    cases hopen
  have hseal := h _ g hg (by omega)
  rw [hopen] at hseal
  cases hseal

end Ranks

end Arts
