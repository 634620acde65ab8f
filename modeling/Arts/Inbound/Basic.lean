import Arts.Machine.Basic
import Arts.Machine.Memory

/-!
# Receiving packets

A receiver reads each connection into a buffer and dispatches the packets there; a part waits at its
start. A step is one receive or one packet. No object in memory is as large as `2 ^ 63` bytes.
-/

namespace Arts

/-- `sizeof(struct arts_remote_packet_s)`. -/
def headerSize : ℕ := 32

/-- A number whose bytes are stored from the lowest to the highest. -/
def leNat : List UInt8 → ℕ
  | [] => 0
  | b :: bs => b.toNat + 256 * leNat bs

/-- `packet->size`, the eight bytes after the message type. -/
@[irreducible] def packetSize (header : List UInt8) : ℕ := leNat ((header.drop 4).take 8)

/-- A packet has a header, and its length is the size in the header. -/
def WellFormed (p : List UInt8) : Prop :=
  headerSize ≤ p.length ∧ packetSize (p.take headerSize) = p.length

instance (p : List UInt8) : Decidable (WellFormed p) := inferInstanceAs (Decidable (_ ∧ _))

/-- What a receive on a socket answers: at most so many of the bytes that are there, or nothing now
(`EAGAIN`, `EWOULDBLOCK` or `EINTR`). -/
inductive RecvResult where
  | bytes (n : ℕ)
  | again
  deriving DecidableEq, Repr

/-- A call of `recv`: where it writes, how many bytes it allows, and the size of the buffer. -/
structure RecvCall where
  offset : ℕ
  len : ℕ
  cap : ℕ
  deriving DecidableEq, Repr

structure InConn where
  sent : List (List UInt8)
  /-- The bytes of them that have not been received. -/
  unread : List UInt8
  /-- `bypass_buf`. -/
  buf : ℕ → UInt8
  /-- `bypass_packet_size`. -/
  cap : ℕ
  /-- `re_recieve_res`. -/
  saved : ℕ
  /-- `packets_processed_this_socket` while the connection is served. -/
  active : Option ℕ
  /-- `packet`, as an index of the buffer, and `res`. -/
  packet : ℕ
  res : ℕ
  /-- The packets that were given to `arts_server_process_packet`. -/
  dispatched : List (List UInt8)
  /-- The calls of `recv`. -/
  recvs : List RecvCall

/-- How a step leaves the connection. -/
inductive ServeResult where
  | stay
  | leave
  /-- It is left because of the packet limit; `max_out_working` is set. -/
  | maxOut
  deriving DecidableEq, Repr

namespace InConn

/-- A connection with an empty buffer of the given size. -/
def create (sent : List (List UInt8)) (cap : ℕ) : InConn where
  sent := sent
  unread := sent.flatten
  buf := fun _ => 0
  cap := cap
  saved := 0
  active := none
  packet := 0
  res := 0
  dispatched := []
  recvs := []

/-- `recv` into the buffer from `off` on, and the number of bytes received; 0 stands for
`EAGAIN`. -/
def recv (c : InConn) (off : ℕ) (r : RecvResult) : InConn × ℕ :=
  let k := match r with
    | .again => 0
    | .bytes n => min n (min (c.cap - off) c.unread.length)
  ({ c with
      buf := writeMem c.buf off (c.unread.take k)
      unread := c.unread.drop k
      recvs := ⟨off, c.cap - off, c.cap⟩ :: c.recvs }, k)

/-- `memmove` of what is held to the start of the buffer. -/
def moveDown (c : InConn) : InConn :=
  if c.packet ≠ 0 then { c with buf := moveMem c.buf c.packet c.res, packet := 0 } else c

/-- `packet->size`. -/
def size (c : InConn) : ℕ := packetSize (readMem c.buf c.packet headerSize)

/-- `new_buf_size`. -/
def newBufSize (size : ℕ) : ℕ := if 2 ^ 28 < size then size else size * 4

def grow (c : InConn) : InConn :=
  if c.cap < c.size then
    { c with
      buf := fun k => if k < c.cap then c.buf k else 0
      cap := newBufSize c.size }
  else c

/-- The connection is left; what is held stays at the start of the buffer. -/
def suspend (c : InConn) : InConn := { c with saved := c.res, active := none }

/-- The connection is left; nothing is held. -/
def drained (c : InConn) : InConn := { c with active := none }

/-- The body of the two inner loops: receive more of the header or of the packet. -/
def receiveMore (c : InConn) (r : RecvResult) : InConn × ServeResult :=
  let c := c.moveDown
  let t := c.recv c.res r
  if t.2 = 0 then (t.1.suspend, .leave) else ({ t.1 with res := t.1.res + t.2 }, .stay)

/-- `arts_server_process_packet`, and the packet is taken out of what is held. -/
def process (c : InConn) : InConn :=
  { c with
    dispatched := c.dispatched ++ [readMem c.buf c.packet c.size]
    res := c.res - c.size
    packet := c.packet + c.size
    active := c.active.map (· + 1) }

/-- A packet is processed; then the packet limit is checked and whether anything is left. -/
def dispatch (limit : ℕ) (c : InConn) : InConn × ServeResult :=
  let c := c.process
  if limit ≠ 0 ∧ limit ≤ c.active.getD 0 ∧ 0 < c.res then (c.moveDown.suspend, .maxOut)
  else if c.res = 0 then (c.drained, .leave)
  else (c, .stay)

def iterate (limit : ℕ) (c : InConn) (r : RecvResult) : InConn × ServeResult :=
  if c.res < headerSize then c.receiveMore r
  else
    let c := c.grow
    if c.res < c.size then c.receiveMore r else c.dispatch limit

/-- The connection is served: receive, or take up what was received before. -/
def enter (c : InConn) (r : RecvResult) : InConn × ServeResult :=
  if c.saved = 0 then
    let t := c.recv 0 r
    if t.2 = 0 then (t.1, .leave)
    else ({ t.1 with packet := 0, res := t.2, active := some 0 }, .stay)
  else ({ c with packet := 0, res := c.saved, saved := 0, active := some 0 }, .stay)

/-- One step with the connection. -/
def step (limit : ℕ) (c : InConn) (r : RecvResult) : InConn × ServeResult :=
  if c.active.isSome then c.iterate limit r else c.enter r

end InConn

structure Receiver where
  conns : List InConn
  /-- `arts_recv_packets_per_socket_limit`; zero is no limit. -/
  limit : ℕ
  /-- The index in the loop over the connections; `none` between calls. -/
  pos : Option ℕ
  /-- `max_out_working`. -/
  maxOut : Bool
  /-- The connections with `POLLIN`. -/
  ready : List Bool

inductive RecvStep where
  /-- A call of `arts_server_try_to_receive`, with the answer of `poll`. -/
  | call (ready : List Bool)
  /-- A step of the call, with the answer of the socket if it is asked. -/
  | step (r : RecvResult)
  deriving DecidableEq, Repr

namespace Receiver

/-- The connection at `i` after a step with it. -/
def served (s : Receiver) (i : ℕ) (t : InConn × ServeResult) : Receiver :=
  { s with
    conns := s.conns.set i t.1
    pos := if t.2 = .stay then some i else some (i + 1)
    maxOut := s.maxOut || t.2 == .maxOut }

/-- `arts_server_try_to_receive`, step by step. -/
def next (s : Receiver) : RecvStep → Option Receiver
  | .call ready =>
    match s.pos with
    | none => some { s with pos := some 0, maxOut := false, ready := ready }
    | some _ => none
  | .step r =>
    match s.pos with
    | none => none
    | some i =>
      match s.conns[i]? with
      | none =>
        -- the end of the loop over the connections
        some { s with pos := if s.maxOut then some 0 else none, maxOut := false }
      | some c =>
        if c.active.isSome ∨ s.ready.getD i false then some (s.served i (c.step s.limit r))
        else some { s with pos := some (i + 1) }

/-- A receiver thread with any connections, on which any well-formed packets are sent, with buffers
for at least a header and with any packet limit. -/
def machine : Machine Receiver RecvStep where
  init s := ∃ (cs : List (List (List UInt8) × ℕ)) (limit : ℕ),
    (∀ c ∈ cs, (∀ p ∈ c.1, WellFormed p) ∧ headerSize ≤ c.2) ∧
    s = { conns := cs.map fun c => .create c.1 c.2, limit := limit, pos := none, maxOut := false,
          ready := [] }
  next := next

end Receiver

end Arts
