import Arts.Db.Drained

/-!
# The steps of the calls on a frontier list

`DbList.Steps` says once what a step of a call does, one case for each way through `DbList.step`.
-/

namespace Arts

open List Option

namespace ListPc

/-- Where the call is in the protocol of the lock. -/
def phase : ListPc → Lock.Phase
  | .testHead | .tryLock | .awaitWriter | .countReader | .lockWriter | .done => .outside
  | .awaitReaders | .drainReaders => .draining
  | .storeHead | .unlockWriter | .pop | .release => .writing
  | .checkWriter | .uncountReader => .counted
  | .readHead | .lock .. | .insert .. | .join .. | .link _ | .advance _ | .delay _
  | .unlockReader => .reading

/-- The call has locked the list to store a new head. -/
def storing : ListPc → Bool
  | .awaitReaders | .storeHead => true
  | _ => false

/-- The call relies on a head: it has found one or has stored one. -/
def engaged : ListPc → Bool
  | .unlockWriter | .awaitWriter | .countReader | .checkWriter | .uncountReader | .readHead
  | .lock .. | .insert .. | .join .. | .link _ | .advance _ | .delay _ | .unlockReader => true
  | _ => false

/-- The call is in `arts_progress_frontier`. -/
def progressing : ListPc → Bool
  | .lockWriter | .drainReaders | .pop | .release => true
  | _ => false

/-- The access has been accepted. -/
def accepted : ListPc → Bool
  | .delay _ | .unlockReader | .done => true
  | _ => false

end ListPc

namespace ListOp

end ListOp

namespace DbList

/-- What a step does, one case for each way through `DbList.step`. -/
inductive Steps (d : DbList) (op : ListOp) (node : Option ℕ) (onHead : Bool) :
    ListPc → DbList → ListCall → Prop where
  | findNull (h : d.head = none) : Steps d op node onHead .testHead d ⟨op, .tryLock, node, onHead⟩
  | findHead (h : d.head ≠ none) :
    Steps d op node onHead .testHead d ⟨op, .awaitWriter, node, onHead⟩
  | tryFails (h : d.words.writer = true) :
    Steps d op node onHead .tryLock d ⟨op, .awaitWriter, node, onHead⟩
  | trySets (h : d.words.writer = false) : Steps d op node onHead .tryLock
      { d with words := ⟨d.words.reader, true⟩ } ⟨op, .awaitReaders, node, onHead⟩
  | awaited (h : d.words.reader = 0) :
    Steps d op node onHead .awaitReaders d ⟨op, .storeHead, node, onHead⟩
  | stores : Steps d op node onHead .storeHead
      { d with head := some d.nodes.length, nodes := d.nodes ++ [{}] }
      ⟨op, .unlockWriter, node, onHead⟩
  | unlocks : Steps d op node onHead .unlockWriter
      { d with words := ⟨d.words.reader, false⟩ } ⟨op, .awaitWriter, node, onHead⟩
  | noWriter (h : d.words.writer = false) :
    Steps d op node onHead .awaitWriter d ⟨op, .countReader, node, onHead⟩
  | counts : Steps d op node onHead .countReader
      { d with words := ⟨d.words.reader + 1, d.words.writer⟩ } ⟨op, .checkWriter, node, onHead⟩
  | retries (h : d.words.writer = true) :
    Steps d op node onHead .checkWriter d ⟨op, .uncountReader, node, onHead⟩
  | enters (h : d.words.writer = false) :
    Steps d op node onHead .checkWriter d ⟨op, .readHead, node, onHead⟩
  | uncounts : Steps d op node onHead .uncountReader
      { d with words := ⟨d.words.reader - 1, d.words.writer⟩ } ⟨op, .awaitWriter, node, onHead⟩
  | readsNull (h : d.head = none) :
    Steps d op node onHead .readHead d ⟨op, .unlockReader, node, onHead⟩
  | readsHead {n : ℕ} (h : d.head = some n) :
    Steps d op node onHead .readHead d ⟨op, .lock n true, node, onHead⟩
  | refused {n : ℕ} {b : Bool} {ν : FrontierNode} (hν : d.nodes[n]? = some ν)
      (h : ν.frontier.writeSet = true) : Steps d op node onHead (.lock n b) d
      ⟨op, if op.isLocal then .join n b else .link n, node, onHead⟩
  | locks {n : ℕ} {b : Bool} {ν : FrontierNode} (hν : d.nodes[n]? = some ν)
      (h : ν.frontier.writeSet = false) (hl : ν.locked = false) :
    Steps d op node onHead (.lock n b) (d.setNode n (op.lock ν)) ⟨op, .insert n b, node, onHead⟩
  | inserts {n : ℕ} {b : Bool} {ν : FrontierNode} (hν : d.nodes[n]? = some ν) :
    Steps d op node onHead (.insert n b) (d.setNode n (op.insert b ν))
      ⟨op, if op.isLocal && !b then .delay n else .unlockReader, some n, b⟩
  | joins {n : ℕ} {b : Bool} {ν : FrontierNode} (hν : d.nodes[n]? = some ν) (hl : ν.locked = false)
      (h : ν.frontier.sameLocalWriter op.edt = true) : Steps d op node onHead (.join n b) d
      ⟨op, if op.isLocal && !b then .delay n else .unlockReader, some n, b⟩
  | passes {n : ℕ} {b : Bool} {ν : FrontierNode} (hν : d.nodes[n]? = some ν)
      (h : ν.frontier.sameLocalWriter op.edt = false) :
    Steps d op node onHead (.join n b) d ⟨op, .link n, node, onHead⟩
  | links {n : ℕ} {ν : FrontierNode} (hν : d.nodes[n]? = some ν) (h : ν.next = none) :
    Steps d op node onHead (.link n)
      { d with nodes := d.nodes.set n { ν with next := some d.nodes.length } ++ [{}] }
      ⟨op, .advance n, node, onHead⟩
  | linked {n : ℕ} {ν : FrontierNode} (hν : d.nodes[n]? = some ν) (h : ν.next ≠ none) :
    Steps d op node onHead (.link n) d ⟨op, .advance n, node, onHead⟩
  | ends {n : ℕ} (h : d.nodes[n]?.bind FrontierNode.next = none) :
    Steps d op node onHead (.advance n) d ⟨op, .unlockReader, node, onHead⟩
  | advances {n m : ℕ} (h : d.Next n m) :
    Steps d op node onHead (.advance n) d ⟨op, .lock m false, node, onHead⟩
  | delays {n : ℕ} {ν : FrontierNode} (hν : d.nodes[n]? = some ν) (hl : ν.locked = false) :
    Steps d op node onHead (.delay n) (d.setNode n (op.delay ν)) ⟨op, .unlockReader, node, onHead⟩
  | leaves : Steps d op node onHead .unlockReader
      { d with words := ⟨d.words.reader - 1, d.words.writer⟩ } ⟨op, .done, node, onHead⟩
  | sets (h : d.words.writer = false) : Steps d op node onHead .lockWriter
      { d with words := ⟨d.words.reader, true⟩ } ⟨op, .drainReaders, node, onHead⟩
  | drains (h : d.words.reader = 0) :
    Steps d op node onHead .drainReaders d ⟨op, .pop, node, onHead⟩
  | popsNull (h : d.head = none) : Steps d op node onHead .pop d ⟨op, .release, node, onHead⟩
  | pops {h : ℕ} (hh : d.head = some h) : Steps d op node onHead .pop
      { d with head := d.nodes[h]?.bind FrontierNode.next
               signalled := d.signalled ++ (d.nodes[h]?.bind FrontierNode.next).toList }
      ⟨op, .release, node, onHead⟩
  | releases : Steps d op node onHead .release
      { d with words := ⟨d.words.reader, false⟩ } ⟨op, .done, node, onHead⟩

variable {d d' : DbList} {c c' : ListCall}

lemma steps_of_step (h : d.step c = some (d', c')) : d.Steps c.op c.node c.onHead c.pc d' c' := by
  obtain ⟨op, pc, node, onHead⟩ := c
  cases pc <;> simp only [step] at h
  case testHead =>
    by_cases hh : d.head = none
    · rw [if_pos hh] at h
      cases h
      exact .findNull hh
    · rw [if_neg hh] at h
      cases h
      exact .findHead hh
  case tryLock =>
    split at h <;> cases h
    case isTrue hw => exact .tryFails hw
    case isFalse hw => exact .trySets (Bool.eq_false_iff.2 hw)
  case awaitReaders =>
    obtain ⟨hr, ⟨⟩⟩ := ite_none_right_eq_some.1 h
    exact .awaited hr
  case storeHead => cases h; exact .stores
  case unlockWriter => cases h; exact .unlocks
  case awaitWriter =>
    split at h <;> cases h
    case isFalse hw => exact .noWriter (Bool.eq_false_iff.2 hw)
  case countReader => cases h; exact .counts
  case checkWriter =>
    cases hw : d.words.writer with
    | true => simp only [hw] at h; cases h; exact .retries hw
    | false => simp only [hw] at h; cases h; exact .enters hw
  case uncountReader => cases h; exact .uncounts
  case readHead =>
    split at h <;> cases h
    case h_1 hh => exact .readsNull hh
    case h_2 hh => exact .readsHead hh
  case lock n b =>
    split at h
    case h_1 => cases h
    case h_2 ν hν =>
      split at h
      case isTrue hs => cases h; exact .refused hν hs
      case isFalse hs =>
        split at h
        case isTrue => cases h
        case isFalse hl =>
          cases h
          exact .locks hν (Bool.eq_false_iff.2 hs) (Bool.eq_false_iff.2 hl)
  case insert n b =>
    split at h <;> cases h
    case h_2 ν hν => exact .inserts hν
  case join n b =>
    split at h
    case h_1 => cases h
    case h_2 ν hν =>
      split at h
      case isTrue => cases h
      case isFalse hl =>
        split at h <;> cases h
        case isTrue hs => exact .joins hν (Bool.eq_false_iff.2 hl) hs
        case isFalse hs => exact .passes hν (Bool.eq_false_iff.2 hs)
  case link n =>
    split at h
    case h_1 => cases h
    case h_2 ν hν =>
      split at h <;> cases h
      case isTrue hn => exact .links hν hn
      case isFalse hn => exact .linked hν hn
  case advance n =>
    split at h <;> cases h
    case h_1 hn => exact .ends hn
    case h_2 m hn => exact .advances (bind_eq_some_iff.1 hn)
  case delay n =>
    split at h
    case h_1 => cases h
    case h_2 ν hν =>
      split at h <;> cases h
      case isFalse hl => exact .delays hν (Bool.eq_false_iff.2 hl)
  case unlockReader => cases h; exact .leaves
  case lockWriter =>
    split at h <;> cases h
    case isFalse hw => exact .sets (Bool.eq_false_iff.2 hw)
  case drainReaders =>
    obtain ⟨hr, ⟨⟩⟩ := ite_none_right_eq_some.1 h
    exact .drains hr
  case pop =>
    split at h <;> cases h
    case h_1 hh => exact .popsNull hh
    case h_2 hh => exact .pops hh
  case release => cases h; exact .releases
  case done => cases h

variable {op : ListOp} {node : Option ℕ} {onHead : Bool} {pc : ListPc}

lemma Steps.move (h : d.Steps op node onHead pc d' c') :
    Lock.Move d.words pc.phase d'.words c'.pc.phase := by
  obtain ⟨head, ⟨reader, writer⟩, nodes, signalled⟩ := d
  cases h with
  | trySets h | sets h => obtain rfl : writer = false := h; exact .set _
  | awaited h | drains h => obtain rfl : reader = 0 := h; exact .drained _
  | unlocks => exact .unlock _ _
  | releases => exact .unlock _ _
  | counts => exact .count _ _
  | uncounts => exact .uncount _ _
  | enters h => obtain rfl : writer = false := h; exact .enter _
  | leaves => exact .leave _ _
  | refused hν h | inserts hν | joins hν hl h => split <;> exact .stay _ _
  | _ => exact .stay _ _

/-! ### The shape of the list -/

/-- The head and the links are frontiers, and a link leads to a younger frontier. -/
structure Valid (d : DbList) : Prop where
  head_lt : ∀ h, d.head = some h → h < d.nodes.length
  next_lt : ∀ a b, d.Next a b → a < b ∧ b < d.nodes.length

/-- The list has grown: nothing was removed from it. -/
structure Grows (d d' : DbList) : Prop where
  head : d'.head = d.head
  signalled : d'.signalled = d.signalled
  length : d.nodes.length ≤ d'.nodes.length
  next : ∀ a b, d.Next a b → d'.Next a b

lemma Grows.refl (d : DbList) : d.Grows d := ⟨rfl, rfl, Nat.le_refl _, fun _ _ h => h⟩

lemma Grows.words (d : DbList) (w : Lock.Words) : d.Grows { d with words := w } :=
  ⟨rfl, rfl, Nat.le_refl _, fun _ _ h => h⟩

variable {n : ℕ}

lemma Linked.mono (h : d.Linked n) (hg : d.Grows d') : d'.Linked n := by
  obtain ⟨m, hm, hp⟩ := h
  exact ⟨m, hg.head.trans hm, Relation.ReflTransGen.mono hg.next _ _ hp⟩

variable {ν ν' : FrontierNode}

lemma next_setNode (hν : d.nodes[n]? = some ν)
    (hn : ν'.next = ν.next) (a b : ℕ) : (d.setNode n ν').Next a b ↔ d.Next a b := by
  unfold Next setNode
  by_cases hna : n = a
  · subst hna
    obtain ⟨hlt, rfl⟩ := List.getElem?_eq_some_iff.1 hν
    simp [hlt, hn]
  · simp [hna]

lemma Grows.setNode (hν : d.nodes[n]? = some ν) (hn : ν'.next = ν.next) :
    d.Grows (d.setNode n ν') :=
  ⟨rfl, rfl, by simp [DbList.setNode], fun a b h => (next_setNode hν hn a b).2 h⟩

lemma Valid.setNode (hd : d.Valid) (hν : d.nodes[n]? = some ν)
    (hn : ν'.next = ν.next) : (d.setNode n ν').Valid where
  head_lt h hh := by simpa [DbList.setNode] using hd.head_lt h hh
  next_lt a b hab := by
    simpa [DbList.setNode] using hd.next_lt a b ((next_setNode hν hn a b).1 hab)

lemma next_append (d : DbList) (a b : ℕ) :
    DbList.Next { d with nodes := d.nodes ++ [{}] } a b ↔ d.Next a b := by
  unfold Next
  rcases Nat.lt_trichotomy a d.nodes.length with h | rfl | h
  · rw [getElem?_append_left h]
  · rw [getElem?_concat_length, getElem?_eq_none (Nat.le_refl _)]
    simp only [some.injEq, reduceCtorEq, false_and, exists_false, iff_false]
    rintro ⟨ν, rfl, h⟩
    cases h
  · rw [getElem?_eq_none (by simp; omega), getElem?_eq_none (Nat.le_of_lt h)]

lemma lock_next (op : ListOp) (ν : FrontierNode) : (op.lock ν).next = ν.next := rfl

lemma insert_next (op : ListOp) (b : Bool) (ν : FrontierNode) :
    (op.insert b ν).next = ν.next := by
  cases op <;> rfl

lemma delay_next (op : ListOp) (ν : FrontierNode) : (op.delay ν).next = ν.next := by
  cases op <;> rfl

lemma next_link (hν : d.nodes[n]? = some ν) (hn : ν.next = none) (a b : ℕ) : DbList.Next
        { d with nodes := d.nodes.set n { ν with next := some d.nodes.length } ++ [{}] } a b ↔
      d.Next a b ∨ a = n ∧ b = d.nodes.length := by
  have happ := next_append (d.setNode n { ν with next := some d.nodes.length }) a b
  refine happ.trans ?_
  obtain ⟨hlt, rfl⟩ := List.getElem?_eq_some_iff.1 hν
  unfold Next setNode
  by_cases hna : n = a
  · subst hna
    simp [hlt, hn, eq_comm]
  · simp [hna, Ne.symm hna]

section Steps

variable {op : ListOp} {node : Option ℕ} {onHead : Bool} {pc : ListPc}

lemma Steps.grows (h : d.Steps op node onHead pc d' c') (hs : pc ≠ .storeHead)
    (hp : pc ≠ .pop) : d.Grows d' := by
  cases h with
  | stores => exact absurd rfl hs
  | popsNull | pops => exact absurd rfl hp
  | locks hν => exact .setNode hν (lock_next op _)
  | inserts hν => exact .setNode hν (insert_next op _ _)
  | delays hν => exact .setNode hν (delay_next op _)
  | links hν hn =>
    refine ⟨rfl, rfl, by simp, fun a b h => (next_link hν hn a b).2 (.inl h)⟩
  | _ => first | exact .refl _ | exact .words _ _

/-- What becomes of the list: a head is stored, the head is removed, or the list grows. -/
inductive Change (d : DbList) : ListPc → DbList → Prop where
  | store : Change d .storeHead { d with head := some d.nodes.length, nodes := d.nodes ++ [{}] }
  | pop {h : ℕ} (hh : d.head = some h) : Change d .pop
      { d with head := d.nodes[h]?.bind FrontierNode.next
               signalled := d.signalled ++ (d.nodes[h]?.bind FrontierNode.next).toList }
  | grow {pc : ListPc} {d' : DbList} (h : d.Grows d') : Change d pc d'

lemma Steps.change (h : d.Steps op node onHead pc d' c') : d.Change pc d' := by
  have hgrows := h.grows
  cases h with
  | stores => exact .store
  | pops hh => exact .pop hh
  | popsNull => exact .grow (.refl _)
  | _ => exact .grow (hgrows (by simp) (by simp))

lemma Steps.valid (h : d.Steps op node onHead pc d' c') (hd : d.Valid) : d'.Valid := by
  cases h with
  | stores =>
    refine ⟨fun h hh => ?_, fun a b hab => ?_⟩
    · cases hh
      simp
    · have := hd.next_lt a b ((next_append d a b).1 hab)
      exact ⟨this.1, by simp; omega⟩
  | pops hh =>
    refine ⟨fun h hn => ?_, hd.next_lt⟩
    exact (hd.next_lt _ h (bind_eq_some_iff.1 hn)).2
  | locks hν => exact hd.setNode hν (lock_next op _)
  | inserts hν => exact hd.setNode hν (insert_next op _ _)
  | delays hν => exact hd.setNode hν (delay_next op _)
  | links hν hn =>
    refine ⟨fun h hh => ?_, fun a b hab => ?_⟩
    · have := hd.head_lt h hh
      simp
      omega
    · have hlt := (List.getElem?_eq_some_iff.1 hν).1
      rcases (next_link hν hn a b).1 hab with h | ⟨rfl, rfl⟩
      · have := hd.next_lt a b h
        exact ⟨this.1, by simp; omega⟩
      · exact ⟨hlt, by simp⟩
  | _ => first | exact hd | exact ⟨hd.head_lt, hd.next_lt⟩

end Steps

/-! ### Where a call is in the list -/

/-- The call is at the frontier `n`, with the flag `is_head`. -/
def At (d : DbList) (n : ℕ) : Bool → Prop
  | true => d.head = some n
  | false => ∃ h, d.head = some h ∧ h < n ∧ Relation.ReflTransGen d.Next h n

/-- A call that walks over the list is at a frontier that can be reached. -/
def Position (d : DbList) : ListPc → Prop
  | .lock n b | .insert n b | .join n b => d.At n b
  | .link n | .delay n => d.Linked n
  | .advance n => d.Linked n ∧ ∃ m, d.Next n m
  | _ => True

variable {b : Bool}

lemma At.linked (h : d.At n b) : d.Linked n := by
  cases b with
  | true => exact ⟨n, h, .refl⟩
  | false =>
    obtain ⟨m, hm, -, hp⟩ := h
    exact ⟨m, hm, hp⟩

lemma At.mono (h : d.At n b) (hg : d.Grows d') : d'.At n b := by
  cases b with
  | true => exact hg.head.trans h
  | false =>
    obtain ⟨m, hm, hlt, hp⟩ := h
    exact ⟨m, hg.head.trans hm, hlt, Relation.ReflTransGen.mono hg.next _ _ hp⟩

lemma Position.mono (h : d.Position pc) (hg : d.Grows d') : d'.Position pc := by
  cases pc with
  | lock n b | insert n b | join n b => exact At.mono h hg
  | link n | delay n => exact Linked.mono h hg
  | advance n =>
    obtain ⟨hl, m, hm⟩ := h
    exact ⟨hl.mono hg, m, hg.next n m hm⟩
  | _ => trivial

lemma position_of_phase_ne (h : pc.phase ≠ .reading) : d.Position pc := by
  cases pc <;> trivial

lemma Valid.le_of_path (hd : d.Valid) {a b : ℕ} (h : Relation.ReflTransGen d.Next a b) :
    a ≤ b := by
  induction h with
  | refl => exact Nat.le_refl _
  | tail _ hbc ih =>
    have := (hd.next_lt _ _ hbc).1
    omega

lemma Steps.position (h : d.Steps op node onHead pc d' c') (hd : d.Valid) (hpos : d.Position pc) :
    d'.Position c'.pc := by
  have hgrows := h.grows
  cases h with
  | readsHead hh => exact hh
  | refused hν hs =>
    split
    · exact hpos
    · exact At.linked hpos
  | locks hν hs hl => exact At.mono hpos (hgrows (by simp) (by simp))
  | inserts hν =>
    split
    · exact (At.linked hpos).mono (hgrows (by simp) (by simp))
    · trivial
  | joins hν hl hs =>
    split
    · exact At.linked hpos
    · trivial
  | passes hν hs => exact At.linked hpos
  | links hν hn =>
    exact ⟨Linked.mono hpos (hgrows (by simp) (by simp)), _,
      (next_link hν hn _ _).2 (.inr ⟨rfl, rfl⟩)⟩
  | linked hν hn =>
    obtain ⟨m, hm⟩ := ne_none_iff_exists'.1 hn
    exact ⟨hpos, m, _, hν, hm⟩
  | advances hnm =>
    obtain ⟨⟨m, hm, hp⟩, -⟩ := hpos
    have h₁ := hd.le_of_path hp
    have h₂ := (hd.next_lt _ _ hnm).1
    exact ⟨m, hm, by omega, hp.tail hnm⟩
  | _ => trivial

/-! ### Where the access of a call is -/

/-- What is known of the access of a call. -/
structure Registered (d : DbList) (c : ListCall) : Prop where
  kind : c.pc.progressing = true → c.op = .progress
  fresh : c.pc.accepted = false → c.node = none
  accepted : c.pc.accepted = true → c.op = .progress ∨ c.node ≠ none
  node_lt : ∀ n, c.node = some n → n < d.nodes.length
  reach : ∀ n, c.node = some n → c.onHead = true ∨ n ∈ d.signalled ∨ d.Linked n
  head : ∀ n, c.node = some n → d.head = some n → c.onHead = true ∨ n ∈ d.signalled

lemma Registered.mono (h : d.Registered c) (hg : d.Grows d') : d'.Registered c where
  __ := h
  node_lt n hn := Nat.lt_of_lt_of_le (h.node_lt n hn) hg.length
  reach n hn := by
    rw [hg.signalled]
    exact (h.reach n hn).imp_right (Or.imp_right (·.mono hg))
  head n hn hh := by
    rw [hg.signalled]
    exact h.head n hn (hg.head.symm.trans hh)

lemma Registered.store (h : d.Registered c) (hd : d.head = none) :
    Registered { d with head := some d.nodes.length, nodes := d.nodes ++ [{}] } c where
  __ := h
  node_lt n hn := by
    have := h.node_lt n hn
    simp
    omega
  reach n hn := by
    rcases h.reach n hn with ho | hs | ⟨m, hm, -⟩
    · exact .inl ho
    · exact .inr (.inl hs)
    · rw [hd] at hm
      cases hm
  head n hn hh := by
    cases hh
    exact absurd (h.node_lt _ hn) (Nat.lt_irrefl _)

lemma Registered.pop (h : d.Registered c) {m : ℕ} (hm : d.head = some m) : Registered
      { d with head := d.nodes[m]?.bind FrontierNode.next
               signalled := d.signalled ++ (d.nodes[m]?.bind FrontierNode.next).toList } c where
  __ := h
  reach n hn := by
    rcases h.reach n hn with ho | hs | ⟨m', hm', hp⟩
    · exact .inl ho
    · exact .inr (.inl (mem_append_left _ hs))
    · obtain rfl : m = m' := some.inj (hm.symm.trans hm')
      rcases Relation.ReflTransGen.cases_head hp with rfl | ⟨k, hk, hp⟩
      · exact (h.head _ hn hm).imp_right fun hs => .inl (mem_append_left _ hs)
      · exact .inr (.inr ⟨k, bind_eq_some_iff.2 hk, hp⟩)
  head n _ hh := .inr (mem_append_right _ (by simpa using hh))

lemma Registered.goOn (h : d.Registered c) (hop : c'.op = c.op) (hnode : c'.node = c.node)
    (hon : c'.onHead = c.onHead) (hacc : c'.pc.accepted = c.pc.accepted)
    (hprog : c'.pc.progressing = true → c.pc.progressing = true) : d.Registered c' where
  kind hp := by rw [hop]; exact h.kind (hprog hp)
  fresh := by rw [hacc, hnode]; exact h.fresh
  accepted := by rw [hacc, hop, hnode]; exact h.accepted
  node_lt := by rw [hnode]; exact h.node_lt
  reach := by rw [hnode, hon]; exact h.reach
  head := by rw [hnode, hon]; exact h.head

/-- An access is accepted by a frontier that can be reached; if it is not granted, that frontier is
not the head. -/
theorem At.registered (h : d.At n b) (hlt : n < d.nodes.length) :
    d.Registered ⟨op, if op.isLocal && !b then .delay n else .unlockReader, some n, b⟩ where
  kind := by
    split <;> simp [ListPc.progressing]
  fresh := by
    split <;> simp [ListPc.accepted]
  accepted _ := .inr (by simp)
  node_lt m hm := by
    cases hm
    exact hlt
  reach m hm := by
    cases hm
    exact .inr (.inr h.linked)
  head m hm hh := by
    cases hm
    cases b with
    | true => exact .inl rfl
    | false =>
      obtain ⟨k, hk, hlt, -⟩ := h
      obtain rfl := some.inj (hk.symm.trans hh)
      exact absurd hlt (Nat.lt_irrefl _)

lemma Steps.registered (h : d.Steps op node onHead pc d' c') (hpos : d.Position pc)
    (hstoring : pc.storing = true → d.head = none) (hengaged : pc.engaged = true → d.head ≠ none)
    (hk : d.Registered ⟨op, pc, node, onHead⟩) : d'.Registered c' := by
  have hgrows := h.grows
  cases h with
  | stores => exact (hk.store (hstoring rfl)).goOn rfl rfl rfl rfl (by simp [ListPc.progressing])
  | pops hh => exact (hk.pop hh).goOn rfl rfl rfl rfl (fun _ => rfl)
  | popsNull => exact hk.goOn rfl rfl rfl rfl (fun _ => rfl)
  | readsNull hh => exact absurd hh (hengaged rfl)
  | ends hn =>
    obtain ⟨-, m, hm⟩ := hpos
    rw [bind_eq_some_iff.2 hm] at hn
    cases hn
  | inserts hν =>
    have hlt := (List.getElem?_eq_some_iff.1 hν).1
    exact At.registered (At.mono hpos (hgrows (by simp) (by simp))) (by simpa [setNode])
  | joins hν => exact At.registered hpos (List.getElem?_eq_some_iff.1 hν).1
  | refused hν hs =>
    refine hk.goOn rfl rfl rfl ?_ ?_ <;> dsimp only <;> split <;>
      simp [ListPc.accepted, ListPc.progressing]
  | releases =>
    have hop : op = .progress := hk.kind rfl
    exact ⟨by simp [ListPc.progressing], by simp [ListPc.accepted], fun _ => .inl hop,
      (hk.mono (.words _ _)).node_lt, (hk.mono (.words _ _)).reach, (hk.mono (.words _ _)).head⟩
  | _ =>
    exact (hk.mono (hgrows (by simp) (by simp))).goOn rfl rfl rfl rfl
      (by simp [ListPc.progressing])

end DbList

end Arts
