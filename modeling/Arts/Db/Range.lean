import Arts.Db.Deferral

/-!
# Accesses outside a datablock

A put copies without a check, and so does a get that is not served through a frontier.
**`AccessDb.out_of_range_reported_iff`** says exactly when such an access is reported.
-/

namespace Arts

/-- The range of the payload that the operation is for. -/
def DbOp.range : DbOp → ℕ × ℕ
  | .get _ _ offset size _ => (offset.toNat, size.toNat)
  | .put data _ _ offset => (offset.toNat, data.length)
  | .request _ _ _ => (0, 0)

/-- The operation has not been performed yet. -/
def AccessEnd.Waits : AccessEnd → Prop
  | .queued | .deferred | .forwarded _ => True
  | _ => False

/-- The call ended in an error, without an access outside a payload of `n` bytes. -/
def AccessResult.Reported (a : AccessResult) (n : ℕ) : Prop :=
  a.ending = .error ∧ ∀ r ∈ a.touched, r.1 + r.2 ≤ n

/-- A call on a rank, with the rank that it names, in a state of the datablock there. -/
structure AccessStage where
  site : DbSite
  rank : ℕ
  db : AccessDb

namespace AccessStage

/-- The call; if it calls itself again that is a stage of its own. -/
def run (s : AccessStage) (op : DbOp) : Option AccessResult := s.db.callAt s.site 1 s.rank op

/-- What the source checks, or need not check. -/
def Checks (s : AccessStage) : DbOp → Prop
  | .get edt _ _ _ shape => s.rank = s.site.self → (s.db.lookupDb s.site).2 →
      s.site.dbType = .dbLocal ∨ s.db.item.rank = s.site.self ∧ ¬ s.site.isLocal →
        edt ≠ Guid.null ∧ shape
  | _ => False

end AccessStage

/-- **The paths of an operation** on a datablock of `n` bytes: its calls, the last of which is made in the
second stage, and how it ends. The states in between are arbitrary. -/
inductive AccessPath (n : ℕ) (op : DbOp) : AccessStage → AccessStage → AccessResult → Prop
  | ends {s : AccessStage} {a : AccessResult} (hn : s.db.block.dataSize = n) (h : s.run op = some a)
      (hend : ¬ a.ending.Waits) : AccessPath n op s s a
  /-- The frontier of the slice request has become the head. -/
  | delayed {s : AccessStage} {a : AccessResult} {w : AccessDb} {edt : Guid}
      {slot offset size : UInt32} {shape : Bool} (hop : op = .get edt slot offset size shape)
      (h : s.run op = some a) (hq : a.ending = .queued) (hn : w.block.dataSize = n) :
      AccessPath n op s s (w.signalDbSlice edt slot ⟨offset.toNat, size.toNat, shape⟩)
  /-- The operation is called again, replayed or handled on the rank to which it was sent. -/
  | later {s s' t : AccessStage} {a : AccessResult}
      (h : ∀ a, s.run op = some a → a.ending = .deferred ∨ ∃ k, a.ending = .forwarded k)
      (hp : AccessPath n op s' t a) : AccessPath n op s t a

namespace AccessDb

variable {e : DbSite} {w : AccessDb} {op : DbOp} {n : ℕ} {edt : Guid} {slot : UInt32} {s : DbSlice}

lemma signalDbSlice_of_lt (h : w.block.dataSize < s.offset + s.size) :
    w.signalDbSlice edt slot s = ⟨w, .error, []⟩ := by
  have hv : ¬ w.block.validateDbSlice s := fun hv =>
    Nat.not_le.2 h (DbBlock.validateDbSlice_iff.1 hv).2
  rw [signalDbSlice, DbBlock.deliverSlice, if_neg hv]

lemma reported_error (w : AccessDb) (n : ℕ) : (⟨w, .error, []⟩ : AccessResult).Reported n :=
  ⟨rfl, fun _ h => by cases h⟩

lemma reported_signalNow (h : w.block.dataSize < s.offset + s.size) :
    (w.signalNow edt slot s).Reported n ↔ edt ≠ Guid.null ∧ s.preserveShape := by
  by_cases hedt : edt = Guid.null
  · rw [signalNow, if_pos hedt]
    exact ⟨fun hr => (nomatch hr.1), fun hne => absurd hedt hne.1⟩
  by_cases hs : s.preserveShape
  · refine iff_of_true ?_ ⟨hedt, hs⟩
    rw [signalNow, if_neg hedt, if_pos hs]
    split
    · exact reported_error w n
    · rw [if_neg (by omega)]
      exact reported_error w n
  · rw [signalNow, if_neg hedt, if_neg hs]
    exact ⟨fun hr => (nomatch hr.1), fun hne => absurd hne.2 hs⟩

lemma signalNow_ending_ne (w : AccessDb) (edt : Guid) (slot : UInt32) (s : DbSlice) :
    (w.signalNow edt slot s).ending ≠ .queued := by
  rw [signalNow]
  split_ifs <;> (try split) <;> simp

lemma reported_serveGet (h : w.block.dataSize < s.offset + s.size)
    (hend : ¬ (w.serveGet e op edt slot s).ending.Waits) :
    (w.serveGet e op edt slot s).Reported n ↔
      (e.dbType = .dbLocal ∨ w.item.rank = e.self ∧ ¬ e.isLocal → edt ≠ Guid.null ∧ s.preserveShape) := by
  rw [serveGet] at hend ⊢
  split_ifs at hend ⊢ with hnow hrank hedt
  · rw [reported_signalNow h]
    exact ⟨fun hr _ => hr, fun hr => hr hnow⟩
  · exact iff_of_true (reported_error w n) fun hc => absurd hc hnow
  · refine iff_of_true ?_ fun hc => absurd hc hnow
    rw [requestDbSlice] at hend ⊢
    split at hend
    · rw [signalDbSlice_of_lt h]
      exact reported_error w n
    · split_ifs at hend ⊢
      · rw [signalDbSlice_of_lt (by exact h)]
        exact reported_error _ n
      · exact absurd trivial hend
  · exact absurd trivial hend

lemma lookupDb_rank (w : AccessDb) : (w.lookupDb e).1.item.rank = w.item.rank := by
  simp only [lookupDb, RouteItem.lookupDb, RouteItem.incItem]
  split_ifs <;> rfl

lemma checks_of_lacksEdt {t : AccessStage} (h : op.lacksEdt)
    (hno : t.rank = t.site.self → (t.db.lookupDb t.site).2 → False) : t.Checks op := by
  cases op with
  | get => exact fun hs hf => (hno hs hf).elim
  | put | request => cases h

lemma reported_run {t : AccessStage} {a : AccessResult}
    (hop : t.db.block.dataSize < op.range.1 + op.range.2) (h : t.run op = some a)
    (hend : ¬ a.ending.Waits) : a.Reported n ↔ t.Checks op := by
  have hreq : ¬ op.isRequest := by
    intro hr
    obtain ⟨_, _, _, rfl⟩ := DbOp.isRequest_iff.1 hr
    exact absurd hop (Nat.not_lt_zero _)
  rw [AccessStage.run, callAt, access_succ hreq] at h
  by_cases hself : t.rank = t.site.self
  · rw [if_pos hself] at h
    by_cases hfound : (t.db.lookupDb t.site).2
    · simp only [hfound, if_true, Option.some.injEq] at h
      subst h
      cases op with
      | get edt slot offset size shape =>
        refine (reported_serveGet (by exact hop) hend).trans ?_
        rw [lookupDb_rank]
        exact ⟨fun hc _ _ => hc, fun hc => hc hself hfound⟩
      | put => exact iff_of_false (fun hr => by cases hr.1) id
      | request => exact absurd rfl hreq
    · simp only [access] at h
      split_ifs at h with hedt <;> cases h
      · exact iff_of_true (reported_error _ n) (checks_of_lacksEdt hedt fun _ hf => absurd hf hfound)
      · exact absurd trivial hend
  · split_ifs at h with hedt <;> cases h
    · exact iff_of_true (reported_error _ n) (checks_of_lacksEdt hedt fun hs => absurd hs hself)
    · exact absurd trivial hend

/-- **When an operation that is out of range is reported.** -/
theorem out_of_range_reported_iff {s t : AccessStage} {a : AccessResult}
    (hop : n < op.range.1 + op.range.2) (h : AccessPath n op s t a) : a.Reported n ↔ t.Checks op := by
  induction h with
  | ends hn h hend => exact reported_run (hn ▸ hop) h hend
  | later _ _ ih => exact ih
  | @delayed s a w edt slot offset size shape hget h hq hn =>
    subst hget
    rw [signalDbSlice_of_lt (by exact hn ▸ hop)]
    refine iff_of_true (reported_error w n) fun hself hfound hnow => ?_
    -- a slice that may be signalled at once does not wait in a frontier
    rw [AccessStage.run, callAt, access_succ (fun hr => by cases hr), if_pos hself] at h
    simp only [hfound, if_true, Option.some.injEq] at h
    subst h
    rw [← lookupDb_rank] at hnow
    rw [serve, serveGet, if_pos hnow] at hq
    exact absurd hq (signalNow_ending_ne _ _ _ _)

/-- The owner has the datablock, and it has a frontier. -/
def ownStage : AccessStage := ⟨ownSite, 0, withLock (word 2 1)⟩

/-- The eight bytes from byte 4 on of a datablock of eight bytes, asked for on its owner. -/
theorem reported_own : ∃ a, ownStage.run (.get (Guid.make 2 0 2) 0 4 8 false) = some a ∧
    a.Reported 8 := by
  refine ⟨_, rfl, (@out_of_range_reported_iff (.get (Guid.make 2 0 2) 0 4 8 false) 8 _ ownStage _
    ?_ (.ends rfl rfl ?_)).2 ?_⟩
  · decide
  · exact id
  · exact fun _ _ h => absurd h (by decide)

/-- The same range of an `ARTS_DB_LOCAL` datablock is delivered, and a put writes one byte behind
the end. -/
theorem out_of_range_performed :
    ((withLock (word 2 1)).callAt { ownSite with dbType := .dbLocal } 1 0
      (.get (Guid.make 2 0 2) 0 4 8 false)).map (fun a => (a.ending, a.touched)) =
        some (.delivered (Guid.make 2 0 2) 0 (List.replicate 8 0), [(4, 8)]) ∧
    (ownStage.run (.put [1] Guid.null 0 8)).map (fun a => (a.ending, a.touched)) =
      some (.written, [(8, 1)]) := by
  decide

end AccessDb

end Arts
