import Arts.Db.Frontier
import Arts.Machine.Basic
import Arts.Queue.Line

/-!
# The order of the accesses on the owner rank

The writers stand in a line, in the order of their first request to write; the frontier list is the
part of the line that has not been released, and an access waits for the writers ahead of it
(`Cdag.ordered`).
-/

namespace Arts

open List Option Queue Acquire

/-- Who holds a datablock to write. -/
inductive Writer where
  | creator
  | edt (e : EdtGuid)
  deriving DecidableEq

/-- The EDT that is recorded in the frontier of the writer. -/
def Writer.edt? : Writer → Option EdtGuid
  | .creator => none
  | .edt e => some e

/-- The EDT of an access, as a writer. -/
def Acquire.writer (a : Acquire) : Writer := .edt a.edt

def Acquire.isWrite (a : Acquire) : Bool := a.mode.isWrite

/-- The creator and the EDTs that ask to write, in the order of their first request. -/
def writers (qs : List Acquire) : List Writer :=
  line writer isWrite [.creator] qs

/-- The writers that are ahead of the `i`-th request, `q`, when it arrives: those that have asked
before it, or before its own EDT if that has asked to write. -/
def ahead (qs : List Acquire) (i : ℕ) (q : Acquire) : List Writer :=
  (writers (qs.take i)).take ((writers (qs.take i)).idxOf q.writer)

/-- The frontier belongs to the `n`-th writer of the line `ws`, or to the end of the line. -/
structure Frontier.Shows (f : Frontier) (ws : List Writer) (n : ℕ) : Prop where
  writeSet : f.writeSet = decide (n < ws.length)
  localWriteEdt : f.localWriteEdt = ws[n]?.bind Writer.edt?
  exclusive : f.exclusive = none

lemma Frontier.Shows.append {f : Frontier} {ws : List Writer} {n : ℕ} (h : f.Shows ws n)
    (hn : n < ws.length) (ws' : List Writer) : f.Shows (ws ++ ws') n := by
  refine ⟨?_, ?_, h.exclusive⟩
  · rw [h.writeSet, length_append]
    simp [hn, Nat.lt_of_lt_of_le hn (Nat.le_add_right _ _)]
  · rw [h.localWriteEdt, getElem?_append_left hn]

/-- The slot that is served by a notice. -/
def Notice.granted? : Notice → Option Acquire
  | .grant a => some a
  | _ => none

/-- A datablock whose accesses are all on its owner rank. -/
structure Cdag where
  frontiers : List Frontier
  requests : List Acquire
  /-- The requests that have been granted, in this order. -/
  granted : List Acquire
  /-- The writers that have released, in this order. -/
  released : List Writer
  deriving DecidableEq

namespace Cdag

/-- A writer that has been granted the datablock and has not released it. -/
def Holds (s : Cdag) (w : Writer) : Prop := w ∈ writers s.granted ∧ w ∉ s.released

instance (s : Cdag) (w : Writer) : Decidable (s.Holds w) := by
  unfold Holds
  infer_instance

/-- `acquire_dbs`, for one slot. -/
def acquire (self : ℕ) (s : Cdag) (a : Acquire) (flags : UInt32) : Cdag :=
  let r := addDbDuplicateEx self s.frontiers self (some a.edt) a.slot a.mode flags
  { s with
    frontiers := r.frontiers
    requests := s.requests ++ [a]
    granted := if r.onHead then s.granted ++ [a] else s.granted }

/-- `release_dbs`, or `arts_release_created_dbs` for the creator. -/
def release (self : ℕ) (s : Cdag) (w : Writer) : Cdag :=
  let r := progressFrontier self self s.frontiers
  { s with
    frontiers := r.1
    granted := s.granted ++ r.2.filterMap Notice.granted?
    released := s.released ++ [w] }

inductive Act where
  | acquire (a : Acquire) (flags : UInt32)
  | release (w : Writer)

/-- A slot is acquired once, in mode RO or EW and before its EDT runs; a writer releases once. -/
def next (self : ℕ) (s : Cdag) : Act → Option Cdag
  | .acquire a flags =>
    if (a.mode = .ro ∨ a.mode = .ew) ∧ (∀ b ∈ s.requests, (b.edt, b.slot) ≠ (a.edt, a.slot)) ∧
        a.writer ∉ s.released then
      some (s.acquire self a flags)
    else none
  | .release w => if s.Holds w then some (s.release self w) else none

def machine (self : ℕ) : Machine Cdag Act where
  init s := s = ⟨autoAcquired, [], [], []⟩
  next := next self

/-- The requests whose place in the line is `n`. -/
def placed (s : Cdag) (n : ℕ) : List Acquire :=
  Queue.placed writer isWrite [.creator] s.requests n

/-- The requests whose place in the line is at most `n`. -/
def upTo (s : Cdag) (n : ℕ) : List Acquire :=
  Queue.upTo writer isWrite [.creator] s.requests n

/-- The accesses that wait in the `k`-th frontier. -/
def delayedAt (s : Cdag) (k : ℕ) : List Acquire :=
  (s.frontiers[k]?.map Frontier.localDelayed).getD []

/-- The frontier list is the line of the writers that have not released. -/
structure Inv (s : Cdag) : Prop where
  nodup : s.requests.Nodup
  released : s.released = (writers s.requests).take s.released.length
  granted : s.granted.Perm (s.upTo s.released.length)
  order : writers s.granted = (writers s.requests).take (s.released.length + 1)
  le_length : (writers s.requests).length ≤ s.released.length + s.frontiers.length
  length_le : s.released.length + s.frontiers.length ≤ (writers s.requests).length + 1
  frontier : ∀ (k : ℕ) (f : Frontier), s.frontiers[k]? = some f →
    f.Shows (writers s.requests) (s.released.length + k)
  delayed : ∀ k, 0 < k → s.delayedAt k = s.placed (s.released.length + k)

variable {s : Cdag}

lemma Inv.released_length_le (hs : s.Inv) : s.released.length ≤ (writers s.requests).length := by
  have := congrArg length hs.released
  rw [length_take] at this
  omega

section Writers

variable {qs : List Acquire} {a : Acquire}

lemma nodup_writers : (writers qs).Nodup := nodup_line (by simp)

lemma writers_append_singleton : writers (qs ++ [a]) =
    enlist writer isWrite (writers qs) a := by
  rw [writers, line_append, line_singleton, writers]

/-- A new request changes the line only if it is a write and its EDT is not in the line. -/
theorem writers_append_of_idxOf_lt (h : (writers qs).idxOf a.writer < (writers qs).length) :
    writers (qs ++ [a]) = writers qs := by
  rw [writers_append_singleton, enlist_of_mem (idxOf_lt_length_iff.1 h)]

end Writers

lemma Inv.mem_released_iff (hs : s.Inv) {n : ℕ} {w : Writer}
    (h : (writers s.requests)[n]? = some w) : w ∈ s.released ↔ n < s.released.length := by
  rw [hs.released, mem_take_iff_idxOf_lt (mem_of_getElem? h),
    idxOf_eq_of_getElem? nodup_writers h, ← hs.released]

section Push

variable {self : ℕ} {s : Cdag} {a : Acquire} {flags : UInt32}

/-- The arguments with which an EDT of the owner pushes an access. -/
def localRequest (self : ℕ) (a : Acquire) (flags : UInt32) : FrontierRequest :=
  duplicateRequest self self (some a.edt) a.slot a.mode flags

lemma localRequest_isLocal : (localRequest self a flags).isLocal = true := beq_self_eq_true self

lemma addDbDuplicateEx_self (fs : List Frontier) :
    addDbDuplicateEx self fs self (some a.edt) a.slot a.mode flags =
      pushDbToList (localRequest self a flags) true fs := rfl

variable {f : Frontier}

lemma taken_local (h : f.writeSet = false) : (f.taken (localRequest self a flags)).1 = { f with
        writeSet := a.isWrite
        list := (pushDbToElement f.list self).1
        localWriteEdt := if a.isWrite then some a.edt else f.localWriteEdt } := by
  have hwrite : (localRequest self a flags).write = a.isWrite := rfl
  have hseal : (!(localRequest self a flags).bypass && a.isWrite) = a.isWrite := by
    cases hm : a.mode <;>
      simp [localRequest, duplicateRequest, isWrite, AccessMode.isWrite, hm]
  simp only [Frontier.taken, pushDbToFrontier, h, hseal, hwrite]
  simp [localRequest, duplicateRequest]

lemma delay_local (f : Frontier) (isHead : Bool) : f.delay (localRequest self a flags) isHead =
    if isHead then f else { f with localDelayed := f.localDelayed ++ [a] } := by
  cases isHead <;> simp [Frontier.delay, localRequest, duplicateRequest]

variable {qs : List Acquire}

lemma writers_append_of_idxOf_eq (h : (writers qs).idxOf a.writer = (writers qs).length) :
    writers (qs ++ [a]) = writers qs ++ if a.isWrite then [a.writer] else [] := by
  have hm : a.writer ∉ writers qs := by
    rw [← idxOf_lt_length_iff]
    omega
  rw [writers_append_singleton]
  cases hw : a.isWrite with
  | false => simp [enlist_of_not_writes hw]
  | true => simp [enlist_of_notMem hw hm]

lemma takes_of_shows {ws : List Writer} {n : ℕ} (hf : f.Shows ws n) :
    f.takes (localRequest self a flags) = true ↔ ws.length ≤ n ∨ ws[n]? = some a.writer := by
  have hedt : f.localWriteEdt = some a.edt ↔ ws[n]? = some a.writer := by
    rw [hf.localWriteEdt, bind_eq_some_iff]
    constructor
    · rintro ⟨w, hw, he⟩
      cases w with
      | creator => cases he
      | edt e => rw [hw, writer, ← some.inj he]
    · exact fun h => ⟨_, h, rfl⟩
  simp [Frontier.takes, hf.writeSet, localRequest, duplicateRequest, Frontier.sameLocalWriter, hedt]

lemma shows_taken (self : ℕ) (flags : UInt32)
    (hf : f.Shows (writers qs) ((writers qs).idxOf a.writer)) :
    ((f.taken (localRequest self a flags)).1).Shows (writers (qs ++ [a]))
      ((writers qs).idxOf a.writer) := by
  rcases Nat.lt_or_ge ((writers qs).idxOf a.writer) (writers qs).length with hj | hj
  · have hseal : f.writeSet = true := by rw [hf.writeSet, decide_eq_true_eq]; exact hj
    rw [writers_append_of_idxOf_lt hj, taken_of_sealed hseal]
    exact hf
  · have hj' : (writers qs).idxOf a.writer = (writers qs).length :=
      Nat.le_antisymm idxOf_le_length hj
    rw [hj'] at hf ⊢
    have hopen : f.writeSet = false := by simp [hf.writeSet]
    have hnone : f.localWriteEdt = none := by simp [hf.localWriteEdt]
    rw [taken_local hopen, writers_append_of_idxOf_eq hj']
    refine ⟨?_, ?_, hf.exclusive⟩
    · cases a.isWrite <;> simp
    · cases a.isWrite <;> simp [hnone, writer, Writer.edt?]

/-- The frontier that belongs to the EDT of the access, or to the end of the line, takes the
access. -/
theorem Inv.push (hs : s.Inv) (self : ℕ) (flags : UInt32) (ha : a.writer ∉ s.released) :
    ∃ k g, s.released.length + k = (writers s.requests).idxOf a.writer ∧ k ≤ s.frontiers.length ∧
      (pushDbToList (localRequest self a flags) true s.frontiers).frontiers =
        s.frontiers.take k ++ g :: s.frontiers.drop (k + 1) ∧
      (pushDbToList (localRequest self a flags) true s.frontiers).onHead = decide (k = 0) ∧
      g.Shows (writers (s.requests ++ [a])) (s.released.length + k) ∧
      (0 < k → g.localDelayed = s.delayedAt k ++ [a]) := by
  -- the EDT is behind the writers that have released
  have hP : s.released.length ≤ (writers s.requests).idxOf a.writer := by
    by_contra hlt
    have hm : a.writer ∈ writers s.requests := by
      rw [← idxOf_lt_length_iff]
      have := hs.released_length_le
      omega
    exact ha ((hs.mem_released_iff (getElem?_idxOf hm)).2 (by omega))
  obtain ⟨k, hk⟩ := Nat.exists_eq_add_of_le hP
  have hidx : (writers s.requests).idxOf a.writer ≤ (writers s.requests).length :=
    idxOf_le_length
  have hle := hs.le_length
  have hkF : k ≤ s.frontiers.length := by omega
  have htaker : taker (localRequest self a flags) s.frontiers = k := by
    refine taker_eq hkF (fun i f hi hf => ?_) fun f hf => ?_
    · rw [Bool.eq_false_iff, ne_eq, takes_of_shows (hs.frontier i f hf)]
      rintro (h | h)
      · omega
      · have := idxOf_eq_of_getElem? nodup_writers h
        omega
    · rw [takes_of_shows (hs.frontier k f hf), ← hk]
      rcases Nat.lt_or_ge ((writers s.requests).idxOf a.writer) (writers s.requests).length
        with h | h
      · exact .inr (getElem?_idxOf (idxOf_lt_length_iff.1 h))
      · exact .inl h
  -- the frontier, or the new one at the end
  have hshows : (s.frontiers[k]?.getD {}).Shows (writers s.requests)
      ((writers s.requests).idxOf a.writer) := by
    cases hf : s.frontiers[k]? with
    | some f => exact hk ▸ hs.frontier k f hf
    | none =>
      have := getElem?_eq_none_iff.1 hf
      obtain hj : (writers s.requests).idxOf a.writer = (writers s.requests).length := by omega
      rw [hj]
      exact ⟨by simp, by simp, rfl⟩
  have hdelayed : (s.frontiers[k]?.getD {}).localDelayed = s.delayedAt k := by
    rw [delayedAt]
    cases s.frontiers[k]? <;> rfl
  have hpush := pushDbToList_eq (localRequest self a flags) true s.frontiers
  rw [htaker, Bool.true_and, delay_local] at hpush
  refine ⟨k, _, hk.symm, hkF, by rw [hpush], by rw [hpush]; rfl, ?_, fun h => ?_⟩
  · have := shows_taken self flags hshows
    rw [← hk]
    split
    · exact this
    · exact ⟨this.writeSet, this.localWriteEdt, this.exclusive⟩
  · rw [if_neg (by simpa using Nat.ne_of_gt h), ← hdelayed]
    simp only [localDelayed_taken]

end Push

section Step

variable {self : ℕ} {s : Cdag} {a : Acquire} {flags : UInt32}

@[simp] lemma acquire_released : (s.acquire self a flags).released = s.released := rfl

@[simp] lemma acquire_requests : (s.acquire self a flags).requests = s.requests ++ [a] := rfl

lemma placed_append (n : ℕ) : (s.acquire self a flags).placed n =
    s.placed n ++ if (writers s.requests).idxOf a.writer = n then [a] else [] :=
  placed_append_singleton

lemma upTo_append (n : ℕ) : (s.acquire self a flags).upTo n =
    s.upTo n ++ if (writers s.requests).idxOf a.writer ≤ n then [a] else [] :=
  upTo_append_singleton

lemma writers_append_cases (qs : List Acquire) (a : Acquire) : writers (qs ++ [a]) = writers qs ∨
      (writers qs).idxOf a.writer = (writers qs).length ∧ a.isWrite = true ∧
        writers (qs ++ [a]) = writers qs ++ [a.writer] := by
  rcases Nat.lt_or_ge ((writers qs).idxOf a.writer) (writers qs).length with h | h
  · exact .inl (writers_append_of_idxOf_lt h)
  · have h' : (writers qs).idxOf a.writer = (writers qs).length :=
      Nat.le_antisymm idxOf_le_length h
    have happ := writers_append_of_idxOf_eq h'
    cases hw : a.isWrite with
    | false => exact .inl (by simpa [hw] using happ)
    | true => exact .inr ⟨h', rfl, by simpa [hw] using happ⟩

lemma Inv.acquire (hs : s.Inv) (hnew : a ∉ s.requests) (ha : a.writer ∉ s.released) :
    (s.acquire self a flags).Inv := by
  obtain ⟨k, g, hk, hkF, hfr, hhead, hg, hdelay⟩ := hs.push self flags ha
  have hfr' : (s.acquire self a flags).frontiers =
      s.frontiers.take k ++ g :: s.frontiers.drop (k + 1) := by
    rw [← hfr, ← addDbDuplicateEx_self]
    rfl
  have hgranted : (s.acquire self a flags).granted =
      if k = 0 then s.granted ++ [a] else s.granted := by
    simp [Cdag.acquire, addDbDuplicateEx_self, hhead]
  have hget : ∀ i, (s.acquire self a flags).frontiers[i]? =
      if i = k then some g else s.frontiers[i]? := by
    rw [hfr']
    exact getElem?_take_cons_drop hkF
  have hlen : (s.acquire self a flags).frontiers.length = max s.frontiers.length (k + 1) := by
    rw [hfr', length_append, length_take, length_cons, length_drop]
    omega
  have hpre : writers s.requests <+: writers (s.requests ++ [a]) :=
    line_prefix_line (prefix_append _ _)
  have hP := hs.released_length_le
  have hidx : (writers s.requests).idxOf a.writer ≤ (writers s.requests).length :=
    idxOf_le_length
  have hle := hs.le_length
  have hge := hs.length_le
  -- whether the line gets longer
  have hline := writers_append_cases s.requests a
  have hlength : (writers (s.requests ++ [a])).length = (writers s.requests).length ∨
      (writers s.requests).idxOf a.writer = (writers s.requests).length ∧
      (writers (s.requests ++ [a])).length = (writers s.requests).length + 1 := by
    rcases hline with h | ⟨hj, -, h⟩
    · exact .inl (by rw [h])
    · exact .inr ⟨hj, by rw [h, length_append, length_singleton]⟩
  refine ⟨?nodup, ?released, ?granted, ?order, ?le_length, ?length_le, fun i f hi => ?frontier,
    fun i hi => ?delayed⟩
  case nodup => exact nodup_append.2 ⟨hs.nodup, by simp, by grind⟩
  case released => exact hs.released.trans ( take_eq_of_prefix hpre hP)
  case granted =>
    rw [upTo_append, hgranted, ← hk, acquire_released]
    by_cases h : k = 0
    · simpa [h] using hs.granted.append_right [a]
    · rw [if_neg h, if_neg (by omega), append_nil]
      exact hs.granted
  case order =>
    rw [hgranted]
    by_cases h : k = 0
    · have hle' : (writers s.requests).idxOf a.writer ≤ s.released.length := by omega
      rw [if_pos h, writers_append_singleton, hs.order, ← take_enlist hle',
        ← writers_append_singleton, acquire_released, acquire_requests]
    · rw [if_neg h, hs.order]
      exact take_eq_of_prefix hpre (by omega)
  case le_length =>
    rw [hlen, acquire_requests, acquire_released]
    omega
  case length_le =>
    rw [hlen, acquire_requests, acquire_released]
    omega
  case frontier =>
    rw [hget] at hi
    rw [acquire_requests, acquire_released]
    split at hi
    case isTrue h =>
      rw [← some.inj hi, h]
      exact hg
    case isFalse h =>
      have hf := hs.frontier i f hi
      have hiF := (List.getElem?_eq_some_iff.1 hi).1
      rcases hline with heq | ⟨hj, -, heq⟩
      · rwa [heq]
      · rw [heq]
        exact hf.append (by omega) _
  case delayed =>
    rw [placed_append, acquire_released, delayedAt, hget]
    by_cases h : i = k
    · rw [if_pos h, if_pos (by omega), ← hs.delayed i hi, h]
      exact hdelay (by omega)
    · rw [if_neg h, if_neg (by omega), append_nil]
      exact hs.delayed i hi

lemma granted_signalFrontierLocal {f : Frontier} (h : f.exclusive = none) :
    (signalFrontierLocal self f).filterMap Notice.granted? = f.localDelayed := by
  have hsend : ((f.copies self).map Notice.send).filterMap Notice.granted? = [] := by
    rw [filterMap_map, filterMap_eq_nil_iff]
    exact fun _ _ => rfl
  have hgrant : (f.localDelayed.map Notice.grant).filterMap Notice.granted? = f.localDelayed := by
    rw [filterMap_map]
    exact filterMap_some
  rw [signalFrontierLocal, h, nil_append, filterMap_append, hsend, hgrant,
    nil_append]

lemma Inv.granted_progress (hs : s.Inv) :
    (progressFrontier self self s.frontiers).2.filterMap Notice.granted? = s.delayedAt 1 := by
  obtain ⟨fs, hfs⟩ : ∃ fs, s.frontiers = fs := ⟨_, rfl⟩
  rcases fs with - | ⟨f, - | ⟨g, fs⟩⟩
  · rw [delayedAt, hfs]
    rfl
  · rw [delayedAt, hfs]
    rfl
  · have hg := (hs.frontier 1 g (by rw [hfs]; rfl)).exclusive
    rw [delayedAt, hfs, progressFrontier, if_pos rfl, granted_signalFrontierLocal hg]
    rfl

variable {w : Writer}

/-- The writer that holds the datablock is the first in the line that has not released. -/
theorem Inv.getElem?_of_holds (hs : s.Inv) (hw : s.Holds w) :
    (writers s.requests)[s.released.length]? = some w := by
  obtain ⟨hg, hr⟩ := hw
  rw [hs.order, take_add_one, mem_append, ← hs.released] at hg
  rcases hg with h | h
  · exact absurd h hr
  · exact mem_toList.1 h

lemma Inv.release (hs : s.Inv)
    (hw : (writers s.requests)[s.released.length]? = some w) : (s.release self w).Inv := by
  have hfr : (s.release self w).frontiers = s.frontiers.tail := progressFrontier_self_fst _ _
  have hgranted : (s.release self w).granted = s.granted ++ s.placed (s.released.length + 1) := by
    rw [← hs.delayed 1 Nat.one_pos, ← hs.granted_progress]
    rfl
  have hreq : (s.release self w).requests = s.requests := rfl
  have hrel : (s.release self w).released.length = s.released.length + 1 := by
    simp [Cdag.release]
  have htake : (writers s.requests).take (s.released.length + 1) = s.released ++ [w] := by
    rw [take_add_one, ← hs.released, hw]
    rfl
  have hP := (List.getElem?_eq_some_iff.1 hw).1
  have hle := hs.le_length
  have hge := hs.length_le
  refine ⟨hs.nodup, ?released, ?granted, ?order, ?le_length, ?length_le, fun i f hi => ?frontier,
    fun i hi => ?delayed⟩
  case released =>
    rw [hrel, hreq, htake]
    rfl
  case granted =>
    rw [hgranted, hrel]
    exact (hs.granted.append_right _).trans upTo_succ.symm
  case order =>
    have hsucc : (writers s.requests).take (s.released.length + 1 + 1) =
        (writers s.requests).take (s.released.length + 1) ++
          (writers s.requests)[s.released.length + 1]?.toList := take_add_one
    rw [hgranted, hrel, hreq, writers, line_append, ← writers, hs.order, hsucc]
    cases hnext : (writers s.requests)[s.released.length + 1]? with
    | none =>
      -- nobody is left in the line, so nothing that waits is a write
      refine (line_of_mem fun q hq hwr => ?_).trans (append_nil _).symm
      have := getElem?_line_of_mem_placed hq hwr
      exact absurd (hnext.symm.trans this) (by simp)
    | some w' =>
      refine line_of_writes_eq (fun q hq hwr => ?_) (fun hm => ?_) ?_
      · have := getElem?_line_of_mem_placed hq hwr
        exact (some.inj (hnext.symm.trans this)).symm
      · have hmem := mem_of_getElem? hnext
        have hidx := idxOf_eq_of_getElem? nodup_writers hnext
        have := (mem_take_iff_idxOf_lt hmem).1 hm
        omega
      · obtain ⟨q, hq, hwr, -⟩ := exists_mem_placed (by simp) (by simp) hnext
        exact ⟨q, hq, hwr⟩
  case le_length =>
    rw [hfr, hrel, hreq, length_tail]
    omega
  case length_le =>
    rw [hfr, hrel, hreq, length_tail]
    omega
  case frontier =>
    rw [hfr, getElem?_tail] at hi
    rw [hrel, hreq, Nat.add_assoc, Nat.add_comm 1]
    exact hs.frontier (i + 1) f hi
  case delayed =>
    rw [delayedAt, hfr, getElem?_tail, hrel, Nat.add_assoc, Nat.add_comm 1]
    exact hs.delayed (i + 1) (Nat.succ_pos i)

lemma Inv.init : (Cdag.mk autoAcquired [] [] []).Inv where
  nodup := nodup_nil
  released := rfl
  granted := .nil
  order := rfl
  le_length := Nat.le_refl 1
  length_le := Nat.le_succ 1
  frontier k f hf := by
    cases k with
    | zero =>
      obtain rfl : ({ writeSet := true } : Frontier) = f := by simpa [autoAcquired] using hf
      exact ⟨rfl, rfl, rfl⟩
    | succ k => simp [autoAcquired] at hf
  delayed k hk := by
    obtain ⟨k, rfl⟩ := Nat.exists_eq_succ_of_ne_zero (Nat.ne_of_gt hk)
    rfl

lemma Inv.next (hs : s.Inv) {l : Act} {s' : Cdag} (hst : s.next self l = some s') : s'.Inv := by
  cases l with
  | acquire a flags =>
    obtain ⟨⟨-, hnew, ha⟩, ⟨⟩⟩ := ite_none_right_eq_some.1 hst
    exact hs.acquire (fun hm => hnew a hm rfl) ha
  | release w =>
    obtain ⟨hw, ⟨⟩⟩ := ite_none_right_eq_some.1 hst
    exact hs.release (hs.getElem?_of_holds hw)

/-- **The frontier list is the line of the writers that have not released**, in every state. -/
theorem inv_of_reachable (h : (machine self).Reachable s) : s.Inv :=
  h.invariant (fun _ hs => hs ▸ Inv.init) fun _ _ _ _ hs hst => hs.next hst

end Step

/-- The order of the accesses of a datablock on its owner rank. -/
structure Ordered (s : Cdag) : Prop where
  exclusive : ∀ w w', s.Holds w → s.Holds w' → w = w'
  granted_in_order : writers s.granted <+: writers s.requests
  /-- A reader that asks after another EDT has asked to write is granted after that EDT has
  released; a slot of an EDT that itself asked to write before is not a reader. -/
  reader_waits : ∀ i j a q, i < j → s.requests[i]? = some a → a.isWrite = true →
    s.requests[j]? = some q → q.isWrite = false → q.edt ≠ a.edt →
    q.writer ∉ writers (s.requests.take i) → q ∈ s.granted → a.writer ∈ s.released
  sealed : ∀ k, k + 1 < s.frontiers.length → ∃ f w, s.frontiers[k]? = some f ∧
    f.writeSet = true ∧ f.localWriteEdt = w.edt? ∧ w ∈ writers s.requests ∧ w ∉ s.released
  /-- A request has been granted once if all writers ahead of it have released, and has not been
  granted otherwise. -/
  granted_once : ∀ i q, s.requests[i]? = some q →
    s.granted.count q = if ∀ w ∈ ahead s.requests i q, w ∈ s.released then 1 else 0
  /-- The further slots of an EDT that has asked to write join the frontier it has sealed. -/
  joins : ∀ i q, s.requests[i]? = some q → q.writer ∈ writers (s.requests.take i) →
    q.writer ∉ s.released → ∃ k f, s.frontiers[k]? = some f ∧ f.writeSet = true ∧
      f.localWriteEdt = some q.edt ∧ if k = 0 then q ∈ s.granted else q ∈ f.localDelayed

section Order

variable {self : ℕ} {s : Cdag}

lemma writers_take_isPrefix_writers (qs : List Acquire) (i : ℕ) : writers (qs.take i) <+: writers qs :=
  line_prefix_line ( take_prefix i qs)

variable {i : ℕ} {q : Acquire}

lemma Inv.mem_granted_iff (hs : s.Inv) (h : s.requests[i]? = some q) :
    q ∈ s.granted ↔ (writers (s.requests.take i)).idxOf q.writer ≤ s.released.length :=
  hs.granted.mem_iff.trans (mem_upTo_iff_of_nodup hs.nodup h)

lemma Inv.count_granted (hs : s.Inv) (h : s.requests[i]? = some q) :
    s.granted.count q = if ∀ w ∈ ahead s.requests i q, w ∈ s.released then 1 else 0 := by
  have hnd : s.granted.Nodup := hs.granted.nodup_iff.2 (upTo_sublist.nodup hs.nodup)
  have hahead : ahead s.requests i q =
      (writers s.requests).take ((writers (s.requests.take i)).idxOf q.writer) :=
    take_eq_of_prefix (writers_take_isPrefix_writers _ i) idxOf_le_length
  have hiff : (∀ w ∈ ahead s.requests i q, w ∈ s.released) ↔ q ∈ s.granted := by
    rw [hs.mem_granted_iff h, hahead, hs.released]
    simp only [length_take, Nat.min_eq_left hs.released_length_le]
    exact forall_mem_take_iff nodup_writers place_le
  rw [hnd.count]
  simp only [hiff]

lemma Inv.reader_waits (hs : s.Inv) {j : ℕ} {a : Acquire} (hij : i < j)
    (ha : s.requests[i]? = some a) (haw : a.isWrite = true) (hq : s.requests[j]? = some q)
    (hne : q.edt ≠ a.edt) (hnot : q.writer ∉ writers (s.requests.take i))
    (hgr : q ∈ s.granted) : a.writer ∈ s.released := by
  have hsucc : writers (s.requests.take (i + 1)) =
      enlist writer isWrite (writers (s.requests.take i)) a := by
    rw [take_add_one, ha, toList_some, writers_append_singleton]
  have hmem : a.writer ∈ writers (s.requests.take (i + 1)) := by
    rw [hsucc]
    exact mem_enlist.2 (.inr ⟨haw, rfl⟩)
  have hnmem : q.writer ∉ writers (s.requests.take (i + 1)) := by
    rw [hsucc, mem_enlist]
    rintro (h | ⟨-, h⟩)
    · exact hnot h
    · exact hne (Writer.edt.inj h).symm
  -- the line at the write request is ahead of the reader
  have hpre : writers (s.requests.take (i + 1)) <+: writers (s.requests.take j) :=
    line_prefix_line ( take_prefix_take_left (by omega))
  have hle : (writers (s.requests.take (i + 1))).length ≤ s.released.length := by
    rw [← idxOf_eq_length hnmem]
    exact (hpre.idxOf_le _).trans ((hs.mem_granted_iff hq).1 hgr)
  have heq := take_eq_of_prefix (writers_take_isPrefix_writers s.requests (i + 1)) (Nat.le_refl _)
  rw [take_length] at heq
  rw [heq] at hmem
  rw [hs.released]
  exact take_subset_take_left _ hle hmem

lemma Inv.sealed (hs : s.Inv) {k : ℕ} (hk : k + 1 < s.frontiers.length) :
    ∃ f w, s.frontiers[k]? = some f ∧ f.writeSet = true ∧ f.localWriteEdt = w.edt? ∧
      w ∈ writers s.requests ∧ w ∉ s.released := by
  have hge := hs.length_le
  have hlt : s.released.length + k < (writers s.requests).length := by omega
  have hk' : k < s.frontiers.length := by omega
  have hget := getElem?_eq_getElem hk'
  have hf := hs.frontier k _ hget
  obtain ⟨w, hw⟩ : ∃ w, (writers s.requests)[s.released.length + k]? = some w :=
    ⟨_, getElem?_eq_getElem hlt⟩
  refine ⟨_, w, hget, ?_, ?_, mem_of_getElem? hw, fun hm => ?_⟩
  · rw [hf.writeSet, decide_eq_true_eq]
    exact hlt
  · rw [hf.localWriteEdt, hw, bind_some]
  · have := (hs.mem_released_iff hw).1 hm
    omega

lemma Inv.joins (hs : s.Inv) (hq : s.requests[i]? = some q)
    (hw : q.writer ∈ writers (s.requests.take i)) (hr : q.writer ∉ s.released) :
    ∃ k f, s.frontiers[k]? = some f ∧ f.writeSet = true ∧ f.localWriteEdt = some q.edt ∧
      if k = 0 then q ∈ s.granted else q ∈ f.localDelayed := by
  have hplace : (writers s.requests)[(writers (s.requests.take i)).idxOf q.writer]? =
      some q.writer :=
    getElem?_of_prefix (writers_take_isPrefix_writers _ i) (getElem?_idxOf hw)
  have hlt := (List.getElem?_eq_some_iff.1 hplace).1
  have hle := hs.le_length
  have hP : s.released.length ≤ (writers (s.requests.take i)).idxOf q.writer :=
    Nat.le_of_not_lt fun h => hr ((hs.mem_released_iff hplace).2 h)
  obtain ⟨k, hk⟩ := Nat.exists_eq_add_of_le hP
  have hk' : k < s.frontiers.length := by omega
  have hget := getElem?_eq_getElem hk'
  have hf := hs.frontier k _ hget
  rw [hk] at hplace
  refine ⟨k, _, hget, ?_, ?_, ?_⟩
  · rw [hf.writeSet, decide_eq_true_eq]
    omega
  · rw [hf.localWriteEdt, hplace]
    rfl
  · split
    case isTrue h => exact (hs.mem_granted_iff hq).2 (by omega)
    case isFalse h =>
      have hd := hs.delayed k (Nat.pos_of_ne_zero h)
      rw [delayedAt, hget] at hd
      change (s.frontiers[k]).localDelayed = _ at hd
      rw [hd]
      exact mem_placed.2 ⟨i, hq, hk⟩

/-- **The accesses on the owner rank are ordered by the frontiers**: one writer at a time, in the
order of their first requests, and every request is granted once, when the writers ahead of it have
released. -/
theorem ordered (h : (machine self).Reachable s) : s.Ordered := by
  have hs := inv_of_reachable h
  exact {
    exclusive := fun w w' hw hw' =>
      some.inj ((hs.getElem?_of_holds hw).symm.trans (hs.getElem?_of_holds hw'))
    granted_in_order := by
      rw [hs.order]
      exact take_prefix _ _
    reader_waits := fun i j a q hij ha haw hq _ hne hnot hgr =>
      hs.reader_waits hij ha haw hq hne hnot hgr
    sealed := fun k hk => hs.sealed hk
    granted_once := fun i q hq => hs.count_granted hq
    joins := fun i q hq hw hr => hs.joins hq hw hr }

/-- The EDT 1 asks to write through two slots, the EDT 2 to read; the creator has released. -/
theorem ordered_two_edts : ∃ s, (machine 0).Reachable s ∧ s.Holds (.edt (.ofKey 1)) ∧
    s.requests.length = 3 ∧ s.granted.length = 2 ∧ s.Ordered := by
  obtain ⟨s, hr, hh, hl, hg⟩ := Machine.Reachable.exists_of_exec (M := machine 0)
    (P := fun s => s.Holds (.edt (.ofKey 1)) ∧ s.requests.length = 3 ∧ s.granted.length = 2)
    (r := [.acquire ⟨.ofKey 1, 0, .ew⟩ 0, .acquire ⟨.ofKey 2, 0, .ro⟩ 0, .release .creator,
      .acquire ⟨.ofKey 1, 1, .ro⟩ 0]) rfl (by decide +kernel)
  exact ⟨s, hr, hh, hl, hg, ordered hr⟩

lemma Inv.exists_holds (hs : s.Inv) (h : s.released.length < (writers s.requests).length) :
    ∃ w, s.Holds w := by
  have hw := getElem?_eq_getElem h
  refine ⟨_, ?_, fun hr => Nat.lt_irrefl _ ((hs.mem_released_iff hw).1 hr)⟩
  rw [hs.order, take_add_one, hw]
  exact mem_append_right _ mem_cons_self

/-- **The frontier list does not get stuck**: releases alone lead to a state in which every request is
granted. -/
theorem drains (h : (machine self).Reachable s) :
    ∃ s', (machine self).Leads s s' ∧ s'.requests = s.requests ∧ ∀ q ∈ s.requests, q ∈ s'.granted := by
  have hs := inv_of_reachable h
  induction hn : (writers s.requests).length - s.released.length generalizing s with
  | zero =>
    refine ⟨s, .refl s, rfl, fun q hq => ?_⟩
    obtain ⟨i, hi⟩ := mem_iff_getElem?.1 hq
    have := (writers_take_isPrefix_writers s.requests i).length_le
    have := idxOf_le_length (a := q.writer) (l := writers (s.requests.take i))
    exact (hs.mem_granted_iff hi).2 (by omega)
  | succ n ih =>
    obtain ⟨w, hw⟩ := hs.exists_holds (by omega)
    have hst : (machine self).next s (.release w) = some (s.release self w) := if_pos hw
    obtain ⟨s', hl, hall⟩ := ih (h.next hst) (inv_of_reachable (h.next hst)) (by
      simp only [release, length_append, length_singleton]
      omega)
    exact ⟨s', (Machine.Leads.of_next hst).trans hl, hall⟩

/-- A write and a read wait for the creator. -/
theorem drains_two_edts : ∃ s, (machine 0).Reachable s ∧ s.granted = [] ∧
    ∃ s', (machine 0).Leads s s' ∧ s'.requests = s.requests ∧ ∀ q ∈ s.requests, q ∈ s'.granted :=
  Machine.Reachable.exists_and (r := [.acquire ⟨.ofKey 1, 0, .ew⟩ 0, .acquire ⟨.ofKey 2, 0, .ro⟩ 0])
    rfl (by decide +kernel) fun _ hr _ => drains hr

end Order

end Cdag

end Arts
