import Arts.Machine.Basic
import Arts.Machine.Memory

/-!
# Outbound queues

A message is a header and possibly a payload in the memory of the caller; a socket may accept a
part, and the rest waits in `out_resend`. A byte on the wire is named by its place; `Chunk` is an
accepted send.
-/

namespace Arts

/-- Where a byte is stored: with the message or in the payload. -/
inductive Part where
  | header
  | payload
  deriving DecidableEq, Repr

/-- The place of a byte: the number of the message, the part and the index there. -/
abbrev BytePos := ℕ × Part × ℕ

structure Chunk where
  id : ℕ
  part : Part
  offset : ℕ
  len : ℕ
  deriving DecidableEq, Repr

/-- `len` places from `offset` on. -/
def window (id : ℕ) (part : Part) (offset len : ℕ) : List BytePos :=
  readMem (fun k => (id, part, k)) offset len

def Chunk.places (c : Chunk) : List BytePos := window c.id c.part c.offset c.len

def places (cs : List Chunk) : List BytePos := cs.flatMap Chunk.places

inductive SendResult where
  /-- Up to `n` bytes of what was given are accepted; `accept 0` is a send of length zero. -/
  | accept (n : UInt64)
  /-- Nothing is accepted now: `EAGAIN` or `EWOULDBLOCK`. -/
  | again
  | error
  deriving DecidableEq, Repr

/-- `arts_send_max_bytes_per_call` and `arts_send_max_iters_per_call`; zero is no limit. -/
structure SendLimits where
  maxBytes : UInt64
  maxIters : UInt32
  deriving DecidableEq, Repr

structure Sent where
  chunks : List Chunk
  /-- The result of the call; `-1` is the error value. -/
  remaining : UInt64
  /-- The socket reported an error or a send of length zero. -/
  failed : Bool
  /-- `errno` is `EAGAIN` afterwards. -/
  errnoAgain : Bool
  deriving DecidableEq, Repr

namespace Sent

/-- `(uint64_t)-1`. -/
def errorValue : UInt64 := 0xFFFFFFFFFFFFFFFF

def idle (remaining : UInt64) (errnoAgain : Bool) : Sent :=
  { chunks := [], remaining := remaining, failed := false, errnoAgain := errnoAgain }

/-- The socket reports an error or a send of length zero. -/
def fail (errnoAgain : Bool) : Sent :=
  { chunks := [], remaining := errorValue, failed := true, errnoAgain := errnoAgain }

/-- The call ends after the socket accepted a chunk. -/
def stop (c : Chunk) (remaining : UInt64) (errnoAgain : Bool) : Sent :=
  { chunks := [c], remaining := remaining, failed := false, errnoAgain := errnoAgain }

def prepend (c : Chunk) (s : Sent) : Sent := { s with chunks := c :: s.chunks }

end Sent

/-- The loop of `arts_actual_send`. The number of accepted bytes is stored in a 32-bit `int`. -/
def sendLoop (lim : SendLimits) (id : ℕ) (part : Part) (base : ℕ) :
    List SendResult → UInt64 → UInt64 → ℕ → Bool → Sent
  | [], _, length, _, errnoAgain => .idle length (errnoAgain || decide (length ≠ 0))
  | r :: rs, total, length, iterations, errnoAgain =>
    if length = 0 then .idle 0 errnoAgain
    else match r with
      | .again => .idle length true
      | .error => .fail false
      | .accept n =>
        if n = 0 then .fail errnoAgain
        else
          let n := if n ≤ length then n else length
          let c : Chunk :=
            { id := id, part := part, offset := base + total.toNat, len := n.toNat }
          let res := n.toUInt32
          if res = 0 then .stop c Sent.errorValue errnoAgain
          else if 0x80000000 ≤ res then
            -- a negative `int`: the loop ends as after a failed send, with the `errno` of before
            .stop c (if errnoAgain then length else Sent.errorValue) errnoAgain
          else
            let total := total + res.toUInt64
            let length := length - res.toUInt64
            if length ≠ 0 ∧ lim.maxBytes ≠ 0 ∧ lim.maxBytes ≤ total then
              .stop c length errnoAgain
            else if length ≠ 0 ∧ lim.maxIters ≠ 0 ∧
                lim.maxIters.toInt32.toInt ≤ iterations + 1 then
              .stop c length errnoAgain
            else if 1000000 < iterations + 1 then .stop c length errnoAgain
            else (sendLoop lim id part base rs total length (iterations + 1) errnoAgain).prepend c

/-- `arts_actual_send` of `length` bytes from `base` on. -/
def actualSend (lim : SendLimits) (id : ℕ) (part : Part) (base : ℕ) (length : UInt64)
    (rs : List SendResult) (errnoAgain : Bool) : Sent :=
  sendLoop lim id part base rs 0 length 0 errnoAgain

/-- `out_list_s`. -/
structure OutMsg where
  id : ℕ
  offset : UInt32
  length : UInt32
  payload : Bool
  payloadSize : UInt64
  offsetPayload : UInt32
  /-- `free_method` is not `NULL`. -/
  freeMethod : Bool
  deriving DecidableEq, Repr

/-- What is left open when a message is sent: whether the socket is connected, the limits, and what
the socket answers to the sends of the header and of the payload. -/
structure Visit where
  connected : Bool
  limits : SendLimits
  header : List SendResult
  payload : List SendResult
  deriving DecidableEq, Repr

namespace OutMsg

def rest (m : OutMsg) : List BytePos :=
  window m.id .header m.offset.toNat m.length.toNat ++
    if m.payload then window m.id .payload m.offsetPayload.toNat m.payloadSize.toNat else []

/-- `out_pending_length`. -/
def pendingLength (m : OutMsg) : UInt64 :=
  m.length.toUInt64 + if m.payload then m.payloadSize else 0

/-- `arts_remote_send_request`. -/
def sendRequest (m : OutMsg) (v : Visit) (errnoAgain : Bool) : Sent :=
  if v.connected then
    actualSend v.limits m.id .header m.offset.toNat m.length.toUInt64 v.header errnoAgain
  else .idle m.length.toUInt64 errnoAgain

/-- `arts_remote_send_payload_request`. -/
def sendPayloadRequest (m : OutMsg) (v : Visit) (errnoAgain : Bool) : Sent :=
  if v.connected then
    let t := actualSend v.limits m.id .header m.offset.toNat m.length.toUInt64 v.header errnoAgain
    if t.remaining ≠ 0 then { t with remaining := t.remaining + m.payloadSize }
    else
      let u := actualSend v.limits m.id .payload m.offsetPayload.toNat m.payloadSize v.payload
        t.errnoAgain
      { u with chunks := t.chunks ++ u.chunks }
  else .idle (m.length.toUInt64 + m.payloadSize) errnoAgain

def send (m : OutMsg) (v : Visit) (errnoAgain : Bool) : Sent :=
  if m.payload then m.sendPayloadRequest v errnoAgain else m.sendRequest v errnoAgain

/-- `partial_send_store`. -/
def partialSendStore (m : OutMsg) (remaining : UInt64) : OutMsg :=
  if m.payload then
    if m.length.toUInt64 ≤ m.length.toUInt64 + m.payloadSize - remaining then
      { m with
        length := 0
        offsetPayload := (m.offsetPayload.toUInt64 + (m.payloadSize - remaining)).toUInt32
        payloadSize := remaining }
    else
      { m with
        offset := (m.offset.toUInt64 +
          (m.length.toUInt64 - (remaining - m.payloadSize))).toUInt32
        length := (remaining - m.payloadSize).toUInt32 }
  else
    { m with
      offset := (m.offset.toUInt64 + (m.length.toUInt64 - remaining)).toUInt32
      length := remaining.toUInt32 }

/-- What the caller makes of a message that it has tried to send. -/
structure Handled where
  chunks : List Chunk
  remaining : UInt64
  pending : Option OutMsg
  complete : Bool
  progress : Bool
  freed : Bool
  errnoAgain : Bool
  deriving DecidableEq, Repr

/-- What both callers do with a result that is not the error value. -/
def store (m : OutMsg) (s : Sent) : Handled where
  chunks := s.chunks
  remaining := s.remaining
  pending := if s.remaining ≠ 0 then some (m.partialSendStore s.remaining) else none
  complete := s.remaining == 0
  progress := decide (s.remaining < m.pendingLength)
  freed := m.payload && m.freeMethod && s.remaining == 0
  errnoAgain := s.errnoAgain

/-- `arts_remote_async_send` for one message; after an error it is deleted. -/
def asyncVisit (m : OutMsg) (v : Visit) (errnoAgain : Bool) : Handled :=
  let s := m.send v errnoAgain
  if s.remaining = Sent.errorValue then
    { chunks := s.chunks, remaining := s.remaining, pending := none, complete := false,
      progress := false, freed := m.payload && m.freeMethod, errnoAgain := s.errnoAgain }
  else m.store s

/-- `arts_remote_flush_outbound` for one message; after an error it is kept as it was. -/
def flushVisit (m : OutMsg) (v : Visit) (errnoAgain : Bool) : Handled :=
  let s := m.send v errnoAgain
  if s.remaining = Sent.errorValue then
    { chunks := s.chunks, remaining := s.remaining, pending := some m, complete := false,
      progress := false, freed := false, errnoAgain := s.errnoAgain }
  else m.store s

end OutMsg

/-- An outbound queue, with the `out_resend` entry that its sender thread keeps for it. -/
structure OutQueue where
  list : List OutMsg
  /-- `out_resend`. -/
  resend : Option OutMsg
  wire : List Chunk
  errnoAgain : Bool
  /-- All messages that were put into the queue, as they were. -/
  enqueued : List OutMsg
  /-- How many messages were taken from the queue and are finished. -/
  finished : ℕ
  /-- The payloads that were freed: the message, and the number of bytes accepted until then. -/
  freed : List (ℕ × ℕ)
  deriving DecidableEq, Repr

namespace OutQueue

def create : OutQueue :=
  { list := [], resend := none, wire := [], errnoAgain := false, enqueued := [], finished := 0,
    freed := [] }

/-- `arts_link_list_push_back` of a new message with `length` bytes stored with it and possibly a
payload: its first byte, its size and whether it has to be freed. -/
def enqueue (q : OutQueue) (length : UInt32) (payload : Option (UInt32 × UInt64 × Bool)) :
    OutQueue :=
  let m : OutMsg :=
    { id := q.enqueued.length, offset := 0, length := length, payload := payload.isSome
      payloadSize := payload.elim 0 fun p => p.2.1
      offsetPayload := payload.elim 0 fun p => p.1
      freeMethod := payload.elim false fun p => p.2.2 }
  { q with list := q.list ++ [m], enqueued := q.enqueued ++ [m] }

/-- The message in `out_resend`, or else `arts_link_list_pop_front`. -/
def pop (q : OutQueue) : Option (OutMsg × List OutMsg) :=
  match q.resend with
  | some m => some (m, q.list)
  | none => match q.list with
    | [] => none
    | m :: ms => some (m, ms)

def handled (q : OutQueue) (list : List OutMsg) (h : OutMsg.Handled) : OutQueue :=
  { q with
    list := list
    resend := h.pending
    wire := q.wire ++ h.chunks
    errnoAgain := h.errnoAgain
    finished := if h.pending.isSome then q.finished else q.finished + 1
    freed := if h.freed then
        (q.finished, (places (q.wire ++ h.chunks)).length) :: q.freed else q.freed }

/-- The body of the loop of `arts_remote_async_send` for one queue: the queue afterwards, whether
there was progress and whether there was an error. -/
def visit (q : OutQueue) (v : Visit) : OutQueue × Bool × Bool :=
  match q.pop with
  | none => (q, false, false)
  | some (m, list) =>
    let h := m.asyncVisit v q.errnoAgain
    (q.handled list h, h.progress, h.remaining == Sent.errorValue)

/-- The `for` loop of `arts_remote_async_send` over the queues of the thread. -/
def sendRound : List Visit → List OutQueue → List OutQueue × Bool × Bool
  | _, [] => ([], false, false)
  | [], qs => (qs, false, false)
  | v :: vs, q :: qs =>
    let r := q.visit v
    if r.2.2 then (r.1 :: qs, r.2.1, true)
    else
      let t := sendRound vs qs
      (r.1 :: t.1, r.2.1 || t.2.1, t.2.2)

/-- `arts_remote_async_send`: rounds over the queues for as long as there is progress; the result
says whether there was progress and no error. -/
def asyncSend : List (List Visit) → List OutQueue → Bool → List OutQueue × Bool
  | [], qs, success => (qs, success)
  | vs :: rounds, qs, success =>
    let r := sendRound vs qs
    if r.2.2 then (r.1, false)
    else if r.2.1 then asyncSend rounds r.1 true
    else (r.1, success)

inductive Step where
  | enqueue (length : UInt32) (payload : Option (UInt32 × UInt64 × Bool))
  | visit (v : Visit)
  deriving DecidableEq, Repr

end OutQueue

end Arts
