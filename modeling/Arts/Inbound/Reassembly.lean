import Arts.Inbound.Basic
import Arts.Machine.Calls

/-!
# Packets are reassembled

`InConn.Inv`: what is held, followed by what has not been received, are the packets not dispatched;
held is less than a packet, unless the packet limit was reached.
-/

namespace Arts

open List Option

namespace InConn

variable {c : InConn} {r : RecvResult} {limit : ℕ}

def held (c : InConn) : List UInt8 :=
  if c.active.isSome then readMem c.buf c.packet c.res else readMem c.buf 0 c.saved

/-- What is held is in the buffer. -/
def InBuffer (c : InConn) : Prop :=
  if c.active.isSome then 0 < c.res ∧ c.packet + c.res ≤ c.cap ∧ c.saved = 0 else c.saved ≤ c.cap

structure Inv (c : InConn) : Prop where
  wellFormed : ∀ p ∈ c.sent, WellFormed p
  cap : headerSize ≤ c.cap
  inBuffer : c.InBuffer
  stream : ∃ ps, c.sent = c.dispatched ++ ps ∧ c.held ++ c.unread = ps.flatten
  recvs : ∀ w ∈ c.recvs, 0 < w.len ∧ w.offset + w.len ≤ w.cap

/-- What waits in the buffer is not a whole packet. -/
def Incomplete (c : InConn) : Prop :=
  c.saved < headerSize ∨ c.saved < packetSize (readMem c.buf 0 headerSize)

lemma inv_create {sent : List (List UInt8)} {cap : ℕ} (hs : ∀ p ∈ sent, WellFormed p)
    (hc : headerSize ≤ cap) : Inv (create sent cap) where
  wellFormed := hs
  cap := hc
  inBuffer := Nat.zero_le _
  stream := ⟨sent, rfl, rfl⟩
  recvs := by simp [create]

/-! ### The first packet of what is held -/

/-- The first packet in the stream, once its header is in the buffer. -/
structure Front (c : InConn) (p : List UInt8) (ps : List (List UInt8)) : Prop where
  sent : c.sent = c.dispatched ++ p :: ps
  stream : readMem c.buf c.packet c.res ++ c.unread = p ++ ps.flatten
  size : c.size = p.length
  header : headerSize ≤ p.length

lemma Inv.front (h : c.Inv) (ha : c.active.isSome = true) (hres : headerSize ≤ c.res) :
    ∃ p ps, c.Front p ps := by
  obtain ⟨ps, hsent, hstream⟩ := h.stream
  rw [held, if_pos ha] at hstream
  have hlen := congrArg length hstream
  rw [length_append, length_readMem] at hlen
  cases ps with
  | nil =>
    rw [flatten_nil, length_nil] at hlen
    exact absurd hres (by rw [headerSize]; omega)
  | cons p ps =>
    obtain ⟨hp, hsize⟩ := h.wellFormed p (by simp [hsent])
    refine ⟨p, ps, hsent, hstream, ?_, hp⟩
    -- the header of the first packet is the first part of what is held
    have hheader : readMem c.buf c.packet headerSize = p.take headerSize := by
      rw [← take_readMem c.buf c.packet hres,
        ← take_append_of_le_length (by rwa [length_readMem]), hstream, flatten_cons,
        take_append_of_le_length hp]
    rw [size, hheader, hsize]

lemma Front.dispatched {p : List UInt8} {ps : List (List UInt8)} (h : c.Front p ps)
    (hres : c.size ≤ c.res) : readMem c.buf c.packet c.size = p ∧
      readMem c.buf (c.packet + c.size) (c.res - c.size) ++ c.unread = ps.flatten := by
  have hcut := readMem_append c.buf c.packet (Nat.add_sub_cancel' hres)
  have hstream := h.stream
  rw [← hcut, append_assoc] at hstream
  exact append_inj hstream (by rw [length_readMem, h.size])

/-! ### The steps -/

lemma recv_spec (c : InConn) (off : ℕ) (r : RecvResult) :
    (c.recv off r).2 ≤ c.cap - off ∧
      readMem (c.recv off r).1.buf 0 (off + (c.recv off r).2) ++ (c.recv off r).1.unread =
        readMem c.buf 0 off ++ c.unread := by
  obtain ⟨k, hk, hle, hun⟩ : ∃ k, (c.recv off r).2 = k ∧ k ≤ c.cap - off ∧ k ≤ c.unread.length := by
    refine ⟨_, rfl, ?_⟩
    cases r with
    | again => exact ⟨Nat.zero_le _, Nat.zero_le _⟩
    | bytes n =>
      simp only [recv]
      omega
  have hbuf : (c.recv off r).1.buf = writeMem c.buf off (c.unread.take k) := by
    rw [← hk]
    rfl
  have hunread : (c.recv off r).1.unread = c.unread.drop k := by
    rw [← hk]
    rfl
  refine ⟨hk ▸ hle, ?_⟩
  have hlen : (c.unread.take k).length = k := length_take_of_le hun
  rw [hk, hbuf, hunread, ← readMem_append _ 0 (rfl : off + k = off + k), Nat.zero_add,
    readMem_writeMem_below _ _ (by omega)]
  have hself := readMem_writeMem_self c.buf off (c.unread.take k)
  rw [hlen] at hself
  rw [hself, append_assoc, take_append_drop]

/-- How a step may leave a connection: still served, or left with less than a packet, or left
because of the limit. -/
structure Step (c : InConn) (t : InConn × ServeResult) : Prop where
  inv : t.1.Inv
  sent : t.1.sent = c.sent
  stay : t.2 = .stay ↔ t.1.active.isSome = true
  leave : t.2 = .leave → t.1.Incomplete

lemma Inv.moveDown (h : c.Inv) (ha : c.active.isSome = true) :
    c.moveDown.Inv ∧ c.moveDown.packet = 0 ∧ c.moveDown.active = c.active ∧
      c.moveDown.res = c.res ∧ c.moveDown.cap = c.cap ∧ c.moveDown.sent = c.sent ∧
      (headerSize ≤ c.res → c.moveDown.size = c.size) := by
  rw [InConn.moveDown]
  split_ifs with hp
  · obtain ⟨hpos, hle, hsaved⟩ : 0 < c.res ∧ c.packet + c.res ≤ c.cap ∧ c.saved = 0 := by
      have := h.inBuffer
      rwa [InBuffer, if_pos ha] at this
    obtain ⟨ps, hps, hstream⟩ := h.stream
    refine ⟨⟨h.wellFormed, h.cap, ?_, ⟨ps, hps, ?_⟩, h.recvs⟩, rfl, rfl, rfl, rfl, rfl,
      fun hres => ?_⟩
    · simp only [InBuffer, if_pos ha]
      omega
    · simp only [held, if_pos ha] at hstream ⊢
      rw [readMem_moveMem, hstream]
    · simp only [size]
      rw [← take_readMem _ 0 hres, readMem_moveMem, take_readMem _ _ hres]
  · exact ⟨h, not_not.1 hp, rfl, rfl, rfl, rfl, fun _ => rfl⟩

lemma Inv.receiveAt (h : c.Inv) (ha : c.active.isSome = true) (hp : c.packet = 0)
    (hlt : c.res < c.cap) (hinc : c.res < headerSize ∨ c.res < c.size) :
    c.Step (if (c.recv c.res r).2 = 0 then ((c.recv c.res r).1.suspend, .leave)
      else ({ (c.recv c.res r).1 with res := (c.recv c.res r).1.res + (c.recv c.res r).2 },
        .stay)) := by
  obtain ⟨ps, hps, hstream⟩ := h.stream
  obtain ⟨hpos, hbuf, hsaved⟩ : 0 < c.res ∧ c.packet + c.res ≤ c.cap ∧ c.saved = 0 := by
    have := h.inBuffer
    rwa [InBuffer, if_pos ha] at this
  rw [held, if_pos ha, hp] at hstream
  obtain ⟨hle, happ⟩ := recv_spec c c.res r
  rw [hstream] at happ
  have hcalls : ∀ w ∈ (c.recv c.res r).1.recvs, 0 < w.len ∧ w.offset + w.len ≤ w.cap := by
    intro w hw
    rcases mem_cons.1 hw with rfl | hw
    · simp only
      omega
    · exact h.recvs w hw
  split_ifs with hk
  · rw [hk, Nat.add_zero] at happ
    refine ⟨⟨h.wellFormed, h.cap, ?_, ⟨ps, hps, happ⟩, hcalls⟩, rfl, by simp [suspend], fun _ => ?_⟩
    · exact Nat.le_of_lt hlt
    · rcases hinc with hinc | hinc
      · exact .inl hinc
      · by_cases hheader : c.res < headerSize
        · exact .inl hheader
        · right
          have hsame : readMem (c.recv c.res r).1.buf 0 headerSize = readMem c.buf 0 headerSize :=
            readMem_writeMem_below _ _ (by omega)
          simp only [suspend]
          rw [hsame, ← hp]
          exact hinc
  · refine ⟨⟨h.wellFormed, h.cap, ?_, ⟨ps, hps, ?_⟩, hcalls⟩, rfl, by simpa [recv] using ha,
      fun hl => by cases hl⟩
    · have ha' : (c.recv c.res r).1.active.isSome = true := ha
      simp only [InBuffer, if_pos ha']
      have hp' : (c.recv c.res r).1.packet = 0 := hp
      have hres' : (c.recv c.res r).1.res = c.res := rfl
      have hcap' : (c.recv c.res r).1.cap = c.cap := rfl
      have hsaved' : (c.recv c.res r).1.saved = 0 := hsaved
      omega
    · have ha' : (c.recv c.res r).1.active.isSome = true := ha
      have hp' : (c.recv c.res r).1.packet = 0 := hp
      have hres' : (c.recv c.res r).1.res = c.res := rfl
      simp only [held, if_pos ha', hp']
      exact happ

lemma Inv.receiveMore (h : c.Inv) (ha : c.active.isSome = true) (hlt : c.res < c.cap)
    (hinc : c.res < headerSize ∨ c.res < c.size) : c.Step (c.receiveMore r) := by
  obtain ⟨hinv, hpacket, hactive, hres, hcap, hsent, hsize⟩ := h.moveDown ha
  have hinc' : c.moveDown.res < headerSize ∨ c.moveDown.res < c.moveDown.size := by
    rw [hres]
    by_cases hheader : c.res < headerSize
    · exact .inl hheader
    · right
      rw [hsize (Nat.le_of_not_lt hheader)]
      exact hinc.resolve_left hheader
  have hstep := hinv.receiveAt (r := r) (by rwa [hactive]) hpacket (by rwa [hres, hcap]) hinc'
  exact { hstep with sent := hstep.sent.trans hsent }

lemma le_newBufSize (size : ℕ) : size ≤ newBufSize size := by
  rw [newBufSize]
  split_ifs
  · exact Nat.le_refl _
  · exact Nat.le_mul_of_pos_right _ (by decide)

lemma Inv.grow (h : c.Inv) (ha : c.active.isSome = true) (hres : headerSize ≤ c.res) :
    c.grow.Inv ∧ c.grow.size = c.size ∧ c.grow.active = c.active ∧ c.grow.res = c.res ∧
      c.grow.sent = c.sent ∧ c.size ≤ c.grow.cap := by
  rw [InConn.grow]
  split_ifs with hcap
  · obtain ⟨hpos, hle, hsaved⟩ : 0 < c.res ∧ c.packet + c.res ≤ c.cap ∧ c.saved = 0 := by
      have := h.inBuffer
      rwa [InBuffer, if_pos ha] at this
    have hsame : ∀ n ≤ c.res, readMem (fun k => if k < c.cap then c.buf k else 0) c.packet n =
        readMem c.buf c.packet n := fun n hn =>
      readMem_congr fun k _ hk => if_pos (by omega)
    have hge := le_newBufSize c.size
    obtain ⟨ps, hps, hstream⟩ := h.stream
    refine ⟨⟨h.wellFormed, ?_, ?_, ⟨ps, hps, ?_⟩, h.recvs⟩, ?_, rfl, rfl, rfl, hge⟩
    · exact Nat.le_trans h.cap (Nat.le_trans (Nat.le_of_lt hcap) hge)
    · simp only [InBuffer, if_pos ha]
      exact ⟨hpos, by omega, hsaved⟩
    · simp only [held, if_pos ha] at hstream ⊢
      rw [hsame _ (Nat.le_refl _), hstream]
    · simp only [size]
      rw [hsame _ hres]
  · exact ⟨h, rfl, rfl, rfl, rfl, Nat.le_of_not_lt hcap⟩

/-- **A packet that is processed** is the first one that is left. -/
theorem Inv.process (h : c.Inv) (ha : c.active.isSome = true) (hres : headerSize ≤ c.res)
    (hsize : c.size ≤ c.res) :
    (0 < c.process.res → c.process.Inv) ∧ c.process.active.isSome = true ∧
      ∃ ps, c.sent = c.process.dispatched ++ ps ∧
        readMem c.buf (c.packet + c.size) (c.res - c.size) ++ c.unread = ps.flatten := by
  obtain ⟨p, ps, hfront⟩ := h.front ha hres
  obtain ⟨hpacket, hstream⟩ := hfront.dispatched hsize
  obtain ⟨hpos, hle, hsaved⟩ : 0 < c.res ∧ c.packet + c.res ≤ c.cap ∧ c.saved = 0 := by
    have := h.inBuffer
    rwa [InBuffer, if_pos ha] at this
  have hsent : c.sent = c.process.dispatched ++ ps := by
    simp only [InConn.process]
    rw [hpacket, hfront.sent, append_assoc, singleton_append]
  have ha' : c.process.active.isSome = true := by simpa [InConn.process] using ha
  refine ⟨fun hpos' => ⟨h.wellFormed, h.cap, ?_, ⟨ps, hsent, ?_⟩, h.recvs⟩, ha', ps, hsent, hstream⟩
  · rw [InBuffer, if_pos ha']
    refine ⟨hpos', ?_, hsaved⟩
    simp only [InConn.process]
    omega
  · rw [held, if_pos ha']
    exact hstream

lemma Inv.suspend (h : c.Inv) (ha : c.active.isSome = true) (hp : c.packet = 0) :
    c.suspend.Inv := by
  obtain ⟨hpos, hle, hsaved⟩ : 0 < c.res ∧ c.packet + c.res ≤ c.cap ∧ c.saved = 0 := by
    have := h.inBuffer
    rwa [InBuffer, if_pos ha] at this
  obtain ⟨ps, hps, hstream⟩ := h.stream
  rw [held, if_pos ha, hp] at hstream
  refine ⟨h.wellFormed, h.cap, ?_, ⟨ps, hps, hstream⟩, h.recvs⟩
  simp only [InBuffer, InConn.suspend, isSome_none, Bool.false_eq_true, if_false]
  omega

lemma Inv.dispatch (h : c.Inv) (ha : c.active.isSome = true) (hres : headerSize ≤ c.res)
    (hsize : c.size ≤ c.res) : c.Step (c.dispatch limit) := by
  obtain ⟨hinv, ha', ps, hsent, hstream⟩ := h.process ha hres hsize
  have hsaved : c.process.saved = 0 := by
    have := h.inBuffer
    rw [InBuffer, if_pos ha] at this
    exact this.2.2
  rw [InConn.dispatch]
  split_ifs with hlimit hzero
  · obtain ⟨hdown, hpacket, hactive, -, -, hsent', -⟩ := (hinv hlimit.2.2).moveDown ha'
    exact ⟨hdown.suspend (by rwa [hactive]) hpacket, hsent', by simp [InConn.suspend],
      fun hl => by cases hl⟩
  · have hnil : c.res - c.size = 0 := hzero
    rw [hnil, readMem_zero, nil_append] at hstream
    refine ⟨⟨h.wellFormed, h.cap, ?_, ⟨ps, hsent, ?_⟩, h.recvs⟩, rfl, by simp [drained],
      fun _ => .inl ?_⟩
    · simp [InBuffer, drained, hsaved]
    · simp only [drained, hsaved]
      exact hstream
    · simp only [drained, hsaved]
      decide
  · exact ⟨hinv (Nat.pos_of_ne_zero hzero), rfl, by simpa using ha', fun hl => by cases hl⟩

lemma Inv.iterate (h : c.Inv) (ha : c.active.isSome = true) : c.Step (c.iterate limit r) := by
  rw [InConn.iterate]
  split_ifs with hheader
  · exact h.receiveMore ha (Nat.lt_of_lt_of_le hheader h.cap) (.inl hheader)
  · have hres : headerSize ≤ c.res := Nat.le_of_not_lt hheader
    obtain ⟨hinv, hsize, hactive, hres', hsent, hcap⟩ := h.grow ha hres
    have hstep : c.grow.Step (if c.grow.res < c.grow.size then c.grow.receiveMore r
        else c.grow.dispatch limit) := by
      split_ifs with hpart
      · exact hinv.receiveMore (by rwa [hactive]) (by omega) (.inr hpart)
      · exact hinv.dispatch (by rwa [hactive]) (by omega) (by omega)
    exact { hstep with sent := hstep.sent.trans hsent }

lemma Inv.enter (h : c.Inv) (ha : c.active = none) : c.Step (c.enter r) := by
  obtain ⟨ps, hps, hstream⟩ := h.stream
  have hbuf := h.inBuffer
  simp only [InBuffer, ha, isSome_none, Bool.false_eq_true, if_false] at hbuf
  simp only [held, ha, isSome_none, Bool.false_eq_true, if_false] at hstream
  have hcalls : ∀ w ∈ (c.recv 0 r).1.recvs, 0 < w.len ∧ w.offset + w.len ≤ w.cap := by
    intro w hw
    rcases mem_cons.1 hw with rfl | hw
    · exact ⟨Nat.lt_of_lt_of_le (by decide : 0 < headerSize) h.cap, by simp⟩
    · exact h.recvs w hw
  obtain ⟨hle, happ⟩ := recv_spec c 0 r
  rw [readMem_zero, nil_append, Nat.zero_add] at happ
  rw [InConn.enter]
  split_ifs with hsaved
  · rw [hsaved, readMem_zero, nil_append] at hstream
    rw [hstream] at happ
    have ha' : (c.recv 0 r).1.active = none := ha
    have hsaved' : (c.recv 0 r).1.saved = 0 := hsaved
    simp only
    split_ifs with hk
    · rw [hk, readMem_zero, nil_append] at happ
      refine ⟨⟨h.wellFormed, h.cap, ?_, ⟨ps, hps, ?_⟩, hcalls⟩, rfl, by simp [ha'],
        fun _ => .inl (by rw [hsaved']; decide)⟩
      · simp [InBuffer, ha', hsaved']
      · simp only [held, ha', hsaved', readMem_zero]
        exact happ
    · refine ⟨⟨h.wellFormed, h.cap, ?_, ⟨ps, hps, ?_⟩, hcalls⟩, rfl, by simp, fun hl => by cases hl⟩
      · simp only [InBuffer, isSome_some, if_true]
        have hcap : (c.recv 0 r).1.cap = c.cap := rfl
        omega
      · exact happ
  · refine ⟨⟨h.wellFormed, h.cap, ?_, ⟨ps, hps, ?_⟩, h.recvs⟩, rfl, by simp, fun hl => by cases hl⟩
    · simp only [InBuffer]
      exact ⟨Nat.pos_of_ne_zero hsaved, by omega, trivial⟩
    · exact hstream

/-- **Every step with a connection** keeps its invariant. -/
theorem Inv.step (h : c.Inv) : c.Step (c.step limit r) := by
  rw [InConn.step]
  split_ifs with ha
  · exact h.iterate ha
  · exact h.enter (by simpa using ha)

/-- If everything was received and what waits is not a whole packet, all packets were dispatched. -/
theorem Inv.dispatched_eq (h : c.Inv) (ha : c.active = none) (hinc : c.Incomplete)
    (hunread : c.unread = []) : c.dispatched = c.sent := by
  obtain ⟨ps, hps, hstream⟩ := h.stream
  simp only [held, ha, isSome_none, Bool.false_eq_true, if_false, hunread,
    append_nil] at hstream
  cases ps with
  | nil => rw [hps, append_nil]
  | cons p ps =>
    obtain ⟨hp, hsize⟩ := h.wellFormed p (by simp [hps])
    have hlen : p.length ≤ c.saved := by
      have := congrArg length hstream
      rw [length_readMem, flatten_cons, length_append] at this
      omega
    have hheader : readMem c.buf 0 headerSize = p.take headerSize := by
      rw [← take_readMem c.buf 0 (Nat.le_trans hp hlen), hstream, flatten_cons,
        take_append_of_le_length hp]
    rcases hinc with hinc | hinc
    · omega
    · rw [hheader, hsize] at hinc
      omega

end InConn

/-! ### The receiver thread -/

namespace Receiver

variable {s s' : Receiver}

/-- What holds in every state: only the connection at the index of the loop is served, and another
one that holds a whole packet will be served in this call. -/
structure Inv (s : Receiver) : Prop where
  conns : ∀ c ∈ s.conns, c.Inv
  active : ∀ i c, s.conns[i]? = some c → c.active.isSome = true →
    s.pos = some i ∧ s.ready.getD i false = true
  waits : ∀ i c, s.conns[i]? = some c → c.active = none → c.Incomplete ∨
    (s.ready.getD i false = true ∧ ∃ k, s.pos = some k ∧ (s.maxOut = true ∨ k ≤ i))

lemma Inv.call (h : s.Inv) (hp : s.pos = none) (ready : List Bool) :
    Inv { s with pos := some 0, maxOut := false, ready := ready } := by
  refine ⟨h.conns, fun i c hi ha => ?_, fun i c hi ha => .inl ?_⟩
  · have := (h.active i c hi ha).1
    rw [hp] at this
    cases this
  · rcases h.waits i c hi ha with hinc | ⟨-, k, hk, -⟩
    · exact hinc
    · rw [hp] at hk
      cases hk

lemma Inv.again (h : s.Inv) {k : ℕ} (hp : s.pos = some k) (hk : s.conns.length ≤ k) :
    Inv { s with pos := if s.maxOut then some 0 else none, maxOut := false } := by
  have hlt : ∀ {i c}, s.conns[i]? = some c → i < k := fun hi =>
    Nat.lt_of_lt_of_le (List.getElem?_eq_some_iff.1 hi).1 hk
  refine ⟨h.conns, fun i c hi ha => ?_, fun i c hi ha => ?_⟩
  · have hpos := (h.active i c hi ha).1
    rw [hp] at hpos
    exact absurd (some.inj hpos) (Nat.ne_of_gt (hlt hi))
  · rcases h.waits i c hi ha with hinc | ⟨hready, j, hj, hor⟩
    · exact .inl hinc
    · right
      obtain rfl : k = j := some.inj (hp.symm.trans hj)
      have hmax : s.maxOut = true := hor.resolve_right (Nat.not_le.2 (hlt hi))
      exact ⟨hready, 0, by simp [hmax], .inr (Nat.zero_le _)⟩

lemma Inv.skip (h : s.Inv) {k : ℕ} {c : InConn} (hp : s.pos = some k)
    (hc : s.conns[k]? = some c) (hskip : ¬ (c.active.isSome = true ∨ s.ready.getD k false = true)) :
    Inv { s with pos := some (k + 1) } := by
  rw [not_or] at hskip
  refine ⟨h.conns, fun i d hi ha => ?_, fun i d hi ha => ?_⟩
  · have hpos := (h.active i d hi ha).1
    obtain rfl : k = i := some.inj (hp.symm.trans hpos)
    rw [hc] at hi
    cases hi
    exact absurd ha hskip.1
  · rcases h.waits i d hi ha with hinc | ⟨hready, j, hj, hor⟩
    · exact .inl hinc
    · right
      obtain rfl : k = j := some.inj (hp.symm.trans hj)
      refine ⟨hready, k + 1, rfl, hor.imp_right fun hle => ?_⟩
      rcases Nat.eq_or_lt_of_le hle with rfl | hlt
      · exact absurd hready hskip.2
      · exact hlt

lemma Inv.served (h : s.Inv) {k : ℕ} {c : InConn} {r : RecvResult} (hp : s.pos = some k)
    (hc : s.conns[k]? = some c) (hserve : c.active.isSome = true ∨ s.ready.getD k false = true) :
    Inv (s.served k (c.step s.limit r)) := by
  have hstep : c.Step (c.step s.limit r) := (h.conns c (mem_of_getElem? hc)).step
  have hready : s.ready.getD k false = true := by
    rcases hserve with ha | hr
    · exact (h.active k c hc ha).2
    · exact hr
  have hother : ∀ {i d}, k ≠ i → s.conns[i]? = some d → d.active = none := fun hne hi => by
    refine not_isSome_iff_eq_none.1 fun ha => hne ?_
    exact some.inj (hp.symm.trans (h.active _ _ hi ha).1)
  refine ⟨fun d hd => ?_, fun i d hi ha => ?_, fun i d hi ha => ?_⟩
  · rcases mem_or_eq_of_mem_set hd with hd | rfl
    · exact h.conns d hd
    · exact hstep.inv
  · rcases getElem?_set_cases hi with ⟨rfl, rfl⟩ | ⟨hne, hi⟩
    · exact ⟨by simp [Receiver.served, hstep.stay.2 ha], hready⟩
    · rw [hother hne hi] at ha
      cases ha
  · rcases getElem?_set_cases hi with ⟨rfl, rfl⟩ | ⟨hne, hi⟩
    · cases ht : (c.step s.limit r).2 with
      | stay =>
        have hactive := hstep.stay.1 ht
        rw [ha] at hactive
        cases hactive
      | leave => exact .inl (hstep.leave ht)
      | maxOut => exact .inr ⟨hready, k + 1, by simp [Receiver.served, ht], .inl (by
          simp [Receiver.served, ht])⟩
    · rcases h.waits i d hi ha with hinc | ⟨hr, j, hj, hor⟩
      · exact .inl hinc
      · right
        obtain rfl : k = j := some.inj (hp.symm.trans hj)
        refine ⟨hr, ?_⟩
        rcases hor with hmax | hle
        · refine ⟨if (c.step s.limit r).2 = .stay then k else k + 1, ?_, .inl ?_⟩
          · simp only [Receiver.served]
            split_ifs <;> rfl
          · simp [Receiver.served, hmax]
        · refine ⟨if (c.step s.limit r).2 = .stay then k else k + 1, ?_, .inr ?_⟩
          · simp only [Receiver.served]
            split_ifs <;> rfl
          · split_ifs <;> omega

lemma Inv.next (h : s.Inv) {l : RecvStep} (hst : s.next l = some s') : s'.Inv := by
  cases l with
  | call ready =>
    simp only [Receiver.next] at hst
    split at hst
    case h_1 hp =>
      cases hst
      exact h.call hp ready
    case h_2 => cases hst
  | step r =>
    simp only [Receiver.next] at hst
    split at hst
    case h_1 => cases hst
    case h_2 k hp =>
      split at hst
      case h_1 hnone =>
        cases hst
        exact h.again hp (getElem?_eq_none_iff.1 hnone)
      case h_2 c hc =>
        split_ifs at hst with hserve
        · cases hst
          exact h.served hp hc hserve
        · cases hst
          exact h.skip hp hc hserve

lemma inv_of_reachable (h : machine.Reachable s) : s.Inv := by
  refine h.invariant ?_ fun s l s' _ hi hst => hi.next hst
  rintro _ ⟨cs, limit, hcs, rfl⟩
  have hcreate : ∀ i c, (cs.map fun c => InConn.create c.1 c.2)[i]? = some c →
      ∃ d ∈ cs, c = InConn.create d.1 d.2 := fun i c hi => by
    obtain ⟨d, hd, rfl⟩ := mem_map.1 (mem_of_getElem? hi)
    exact ⟨d, hd, rfl⟩
  refine ⟨fun c hc => ?_, fun i c hi ha => ?_, fun i c hi _ => .inl (.inl ?_)⟩
  · obtain ⟨d, hd, rfl⟩ := mem_map.1 hc
    exact InConn.inv_create (hcs d hd).1 (hcs d hd).2
  · obtain ⟨d, -, rfl⟩ := hcreate i c hi
    cases ha
  · obtain ⟨d, -, rfl⟩ := hcreate i c hi
    exact (by decide : 0 < headerSize)

lemma dispatched_of_reachable (h : machine.Reachable s) {c : InConn} (hc : c ∈ s.conns) :
    c.dispatched <+: c.sent ∧
      (s.pos = none → c.unread = [] → c.dispatched = c.sent) ∧
      ∀ w ∈ c.recvs, 0 < w.len ∧ w.offset + w.len ≤ w.cap := by
  have hi := inv_of_reachable h
  have hinv := hi.conns c hc
  obtain ⟨ps, hps, -⟩ := hinv.stream
  refine ⟨⟨ps, hps.symm⟩, fun hp hunread => ?_, hinv.recvs⟩
  obtain ⟨i, hget⟩ := mem_iff_getElem?.1 hc
  have hnone : c.active = none := by
    refine not_isSome_iff_eq_none.1 fun ha => ?_
    have := (hi.active i c hget ha).1
    rw [hp] at this
    cases this
  refine hinv.dispatched_eq hnone ?_ hunread
  rcases hi.waits i c hget hnone with hinc | ⟨-, k, hk, -⟩
  · exact hinc
  · rw [hp] at hk
    cases hk

end Receiver

end Arts
