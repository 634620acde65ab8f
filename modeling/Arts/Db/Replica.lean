import Mathlib

/-!
# The copy of a datablock on another rank

The entry of the copy is *reserved* while it has been asked for. A copy that arrives while the
entry is available is dropped, unless it comes with `DB_FULL_SEND`.
-/

namespace Arts

/-- The entry of a datablock in the route table of a rank that does not own it: `β` is a copy, `ω`
what waits for one. -/
inductive Replica (ω β : Type*) where
  | absent
  /-- The state `RESERVED_KEY`, with the out-of-order list. -/
  | reserved (waiting : List ω)
  /-- The state `AVAILABLE_KEY`. -/
  | available (copy : β)
  deriving DecidableEq

namespace Replica

variable {ω β : Type*}

def isAvailable : Replica ω β → Bool
  | .available _ => true
  | _ => false

/-- `arts_route_table_add_sent` and `arts_route_table_add_oo`: wait for the copy; says whether the
entry is new. -/
def await (w : ω) : Replica ω β → Replica ω β × Bool
  | .absent => (.reserved [w], true)
  | .reserved ws => (.reserved (ws ++ [w]), false)
  | .available c => (.available c, false)

/-- `arts_remote_handle_db_received`: the copy of a `DB_SEND`, and what has waited for it. -/
def received (c : β) : Replica ω β → Replica ω β × List ω
  | .absent => (.available c, [])
  | .reserved ws => (.available c, ws)
  -- `arts_route_table_add_item_race` finds an entry and adds nothing
  | .available c' => (.available c', [])

/-- `arts_remote_handle_db_full_recieved`: the copy of a `DB_FULL_SEND`, and what has waited. -/
def fullReceived (c : β) : Replica ω β → Replica ω β × List ω
  | .reserved ws => (.available c, ws)
  | _ => (.available c, [])

/-- `arts_route_table_invalidate_item`. -/
def invalidate : Replica ω β → Replica ω β
  | .available _ => .absent
  | e => e

end Replica

end Arts
