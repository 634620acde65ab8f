import Arts.Event.Versions
import Arts.Queue.Rendezvous

/-!
# Channel events are first in, first out

The list of versions is one of two queues, data or dependents; so the `k`-th dependence receives the
data of the `k`-th satisfy (`Arts.Queue.Rendezvous`).
-/

namespace Arts

open List Option Version Rendezvous ChannelAct

/-- The dependent wants the whole data block, not a slice. -/
def Dependent.isWhole : Dependent → Bool
  | .edt _ _ byteOffset size => byteOffset == 0 && size == 0
  | _ => true

namespace Version

def Waits (v : Version) (d : Dependent) : Prop :=
  v.latchCount = 1 ∧ v.dependents = [d] ∧ d.isWhole = true

def Keeps (v : Version) (data : Guid) : Prop :=
  v.latchCount = -1 ∧ v.dependents = [] ∧ v.data = data ∧ data ≠ Guid.null

def Fresh (v : Version) : Prop := v.latchCount = 0 ∧ v.dependents = []

end Version

namespace Channel

/-- The versions are the queue of waiting dependents, or the queue of data; if both are empty, there
is no version or a single one that is not in use. -/
inductive Queues (vs : List Version) : List Dependent → List Guid → Prop
  | none (h : vs = []) : Queues vs [] []
  | idle {v : Version} (h : vs = [v]) (hv : v.Fresh) : Queues vs [] []
  | waiting {d : Dependent} {ds : List Dependent} (h : List.Forall₂ Waits vs (d :: ds)) :
      Queues vs (d :: ds) []
  | ready {g : Guid} {gs : List Guid} (h : List.Forall₂ Keeps vs (g :: gs)) :
      Queues vs [] (g :: gs)

variable {data : Guid} {d : Dependent}

lemma signal_of_isWhole (db : Guid → Bool) (hd : d.isWhole = true)
    (hdata : data ≠ Guid.null) : signal db data d = some (d, data) := by
  cases d with
  | edt addr slot byteOffset size =>
    simp only [Dependent.isWhole, Bool.and_eq_true, beq_iff_eq] at hd
    simp [signal, hdata, hd.1, hd.2]
  | event addr slot => rfl
  | callback n => rfl

lemma isWhole_dependentOf (dest : Guid) (slot : UInt32) :
    (dependentOf dest slot 0 0).isWhole = true := by
  unfold dependentOf
  split_ifs <;> rfl

variable {e : Channel} {ds : List Dependent} {gs : List Guid}

lemma Queues.getVersions (h : Queues e.versions ds gs) :
    Queues e.getVersions.versions ds gs ∧ e.getVersions.versions ≠ [] := by
  unfold Channel.getVersions
  cases hvs : e.versions with
  | nil =>
    rw [hvs] at h
    simp only [pushVersion, hvs]
    cases h with
    | none => exact ⟨.idle rfl ⟨rfl, rfl⟩, cons_ne_nil _ _⟩
    | idle h | waiting h | ready h => cases h
  | cons v vs =>
    simp only [isEmpty_cons, Bool.false_eq_true, if_false, hvs]
    exact ⟨hvs ▸ h, cons_ne_nil _ _⟩

variable {vs : List Version} {v : Version}

lemma forall₂_append_singleton {α : Type*} {R : Version → α → Prop}
    {xs : List α} {x : α} (h : List.Forall₂ R vs xs) (hv : R v x) :
    List.Forall₂ R (vs ++ [v]) (xs ++ [x]) :=
  rel_append h (.cons hv .nil)

lemma queues_freeVersion_waiting (hv : e.versions = v :: vs)
    (h : List.Forall₂ Waits vs ds) : Queues e.freeVersion.versions ds [] := by
  cases h with
  | nil =>
    rw [freeVersion, hv]
    exact .idle rfl ⟨rfl, rfl⟩
  | cons hw hws =>
    rw [freeVersion, hv]
    exact .waiting (.cons hw hws)

lemma queues_freeVersion_ready (hv : e.versions = v :: vs)
    (h : List.Forall₂ Keeps vs gs) : Queues e.freeVersion.versions [] gs := by
  cases h with
  | nil =>
    rw [freeVersion, hv]
    exact .idle rfl ⟨rfl, rfl⟩
  | cons hw hws =>
    rw [freeVersion, hv]
    exact .ready (.cons hw hws)

/-- The queues after an arrival, with the match that it makes. -/
structure Refines (x : Channel × List Signal) (latchCount : UInt32)
    (q : Rendezvous Dependent Guid) (m : List Signal) : Prop where
  latchCount : x.1.latchCount = latchCount
  queues : Queues x.1.versions q.requests q.offers
  matched : q.matched = m ++ x.2

/-- **A satisfy with data** is an offer. -/
theorem satisfySlot_refines (db : Guid → Bool) (hdata : data ≠ Guid.null)
    (h : Queues e.versions ds gs) (m : List Signal) :
    ∃ x, e.satisfySlot db latchDecrSlot data = some x ∧
      Refines x e.latchCount (step ⟨ds, gs, m⟩ (.inr data)) m := by
  obtain ⟨hq, hne⟩ := h.getVersions
  clear h
  have hslot : latchDecrSlot ≠ latchIncrSlot := by decide
  simp only [satisfySlot, if_neg hslot, if_true, some.injEq, exists_eq_left']
  rw [← latchCount_getVersions e]
  generalize e.getVersions = e at hq hne
  cases hq with
  | none h => exact absurd h hne
  | @idle v h hv =>
    obtain ⟨hlatch, hdeps⟩ := hv
    have hmod := versions_modify_zero h (decr data)
    have hl : (v.decr data).latchCount = -1 := by simp [decr, hlatch]
    rw [latch_of_cons h, hlatch]
    change Refines ((e.modify 0 (decr data)).fireIfZero db 0) _ _ _
    rw [fireIfZero_of_ne db (by rw [latch_of_cons hmod, hl]; decide)]
    exact ⟨rfl, by rw [hmod]; exact .ready (.cons ⟨hl, hdeps, if_neg hdata, hdata⟩ .nil),
      (append_nil m).symm⟩
  | @waiting d ds h =>
    obtain ⟨v, vs, ⟨hlatch, hdeps, hwhole⟩, hvs, heq⟩ := forall₂_cons_right_iff.1 h
    have hmod := versions_modify_zero heq (decr data)
    have hl : (v.decr data).latchCount = 0 := by simp [decr, hlatch]
    rw [latch_of_cons heq, hlatch]
    change Refines ((e.modify 0 (decr data)).fireIfZero db 0) _ _ _
    rw [fireIfZero_cons db hmod hl]
    refine ⟨?_, queues_freeVersion_waiting hmod hvs, ?_⟩
    · rw [latchCount_freeVersion]
      rfl
    · have hsignal : signal db (v.decr data).data d = some (d, data) := by
        rw [show (v.decr data).data = data from if_neg hdata]
        exact signal_of_isWhole db hwhole hdata
      rw [show (v.decr data).dependents = [d] from hdeps]
      simp [step, hsignal]
  | @ready g gs h =>
    obtain ⟨v, vs, ⟨hlatch, hdeps, hd, -⟩, hvs, heq⟩ := forall₂_cons_right_iff.1 h
    obtain ⟨n, hmod⟩ := versions_modify_pushVersion e (decr data)
    rw [latch_of_cons heq, hlatch]
    change Refines ((e.pushVersion.modify e.versions.length (decr data)).fireIfZero db
      e.versions.length) _ _ _
    have hl : (decr data ⟨n, 0, [], e.data⟩).latchCount = -1 := rfl
    rw [fireIfZero_of_ne db (by rw [latch_of_append hmod, hl]; decide)]
    refine ⟨rfl, ?_, (append_nil m).symm⟩
    rw [hmod]
    exact .ready (forall₂_append_singleton h ⟨hl, rfl, if_neg hdata, hdata⟩)

/-- **A dependence** is a request. -/
theorem addDependent_refines (db : Guid → Bool) (hwhole : d.isWhole = true)
    (hpos : 0 < e.latchCount) (h : Queues e.versions ds gs) (m : List Signal) :
    Refines (e.addDependent db d) e.latchCount (step ⟨ds, gs, m⟩ (.inl d)) m := by
  obtain ⟨hq, hne⟩ := h.getVersions
  clear h
  rw [← latchCount_getVersions e] at hpos ⊢
  simp only [addDependent]
  generalize e.getVersions = e at hq hne hpos
  simp only [if_pos hpos]
  cases hq with
  | none h => exact absurd h hne
  | @idle v h hv =>
    obtain ⟨hlatch, hdeps⟩ := hv
    have hmod := versions_modify_zero (versions_modify_zero h incr) (register d)
    have hl : (v.incr.register d).latchCount = 1 := by simp [incr, register, hlatch]
    have hd : (v.incr.register d).dependents = [d] := by
      simp [incr, register, hdeps]
    have htaken : e.frontHasDependent = false := by simp [frontHasDependent, h, hdeps]
    rw [htaken]
    change Refines (((e.modify 0 incr).modify 0 (register d)).fireIfZero db 0) _ _ _
    rw [fireIfZero_of_ne db (by rw [latch_of_cons hmod, hl]; decide)]
    exact ⟨rfl, by rw [hmod]; exact .waiting (.cons ⟨hl, hd, hwhole⟩ .nil),
      (append_nil m).symm⟩
  | @waiting d' ds h =>
    obtain ⟨v, vs, ⟨hlatch, hdeps, -⟩, hvs, heq⟩ := forall₂_cons_right_iff.1 h
    have htaken : e.frontHasDependent = true := by simp [frontHasDependent, heq, hdeps]
    obtain ⟨n, hmod⟩ := versions_modify_pushVersion e (register d ∘ incr)
    have hl : (register d (incr ⟨n, 0, [], e.data⟩)).latchCount = 1 := rfl
    rw [htaken]
    change Refines (((e.pushVersion.modify e.versions.length incr).modify e.versions.length
      (register d)).fireIfZero db e.versions.length) _ _ _
    rw [modify_modify, fireIfZero_of_ne db (by rw [latch_of_append hmod]; exact hl ▸ by decide)]
    refine ⟨rfl, ?_, (append_nil m).symm⟩
    rw [hmod]
    exact .waiting (forall₂_append_singleton h ⟨hl, rfl, hwhole⟩)
  | @ready g gs h =>
    obtain ⟨v, vs, ⟨hlatch, hdeps, hdata, hnull⟩, hvs, heq⟩ := forall₂_cons_right_iff.1 h
    have hmod := versions_modify_zero (versions_modify_zero heq incr) (register d)
    have hl : (v.incr.register d).latchCount = 0 := by
      rw [show (v.incr.register d).latchCount = v.latchCount + 1 from rfl, hlatch]
      decide
    have hd : (v.incr.register d).dependents = [d] := by
      simp [incr, register, hdeps]
    have htaken : e.frontHasDependent = false := by simp [frontHasDependent, heq, hdeps]
    rw [htaken]
    change Refines (((e.modify 0 incr).modify 0 (register d)).fireIfZero db 0) _ _ _
    rw [fireIfZero_cons db hmod hl, hd]
    refine ⟨?_, queues_freeVersion_ready hmod hvs, ?_⟩
    · rw [latchCount_freeVersion]
      rfl
    · have hsignal : signal db (v.incr.register d).data d = some (d, g) := by
        rw [show (v.incr.register d).data = g from hdata]
        exact signal_of_isWhole db hwhole hnull
      simp [step, hsignal]

end Channel

/-- `arts_add_dependence` is a request, and a `DECR` satisfy with data is an offer. -/
def ChannelAct.arrival (a : ChannelAct) : Option (Dependent ⊕ Guid) :=
  match a.op with
  | .addDependence dest slot => some (.inl (Channel.dependentOf dest slot 0 0))
  | .satisfy slot data =>
    if slot = latchDecrSlot ∧ data ≠ Guid.null then some (.inr data) else none
  | _ => none

def dependences (acts : List ChannelAct) : List Dependent :=
  lefts (acts.filterMap arrival)

def satisfyData (acts : List ChannelAct) : List Guid :=
  rights (acts.filterMap arrival)

namespace ChannelRun

/-- The event is in the state `q` of the two queues. -/
structure Mirrors (s : ChannelRun) (q : Rendezvous Dependent Guid) : Prop where
  positive : 0 < s.channel.latchCount
  queues : Channel.Queues s.channel.versions q.requests q.offers
  log : s.log = q.matched

variable {s : ChannelRun} {q : Rendezvous Dependent Guid}

/-- **One call** is one arrival. -/
theorem Mirrors.next (h : s.Mirrors q)
    {a : ChannelAct} {x : Dependent ⊕ Guid} (hx : a.arrival = some x) (latchCount : UInt32)
    (data : Guid) : ∃ s', (machine latchCount data).next s a = some s' ∧ s'.Mirrors (q.step x) := by
  obtain ⟨hpos, hq, hlog⟩ := h
  obtain ⟨op, db⟩ := a
  cases op with
  | addDependence dest slot =>
    cases hx
    have href := Channel.addDependent_refines db (Channel.isWhole_dependentOf dest slot) hpos hq
      q.matched
    exact ⟨_, rfl, href.latchCount ▸ hpos, href.queues, by rw [hlog]; exact href.matched.symm⟩
  | satisfy slot data =>
    simp only [arrival] at hx
    split_ifs at hx with hdata
    cases hx
    obtain ⟨rfl, hdata⟩ := hdata
    obtain ⟨y, hy, href⟩ := Channel.satisfySlot_refines db hdata hq q.matched
    refine ⟨⟨y.1, s.log ++ y.2⟩, ?_, href.latchCount ▸ hpos, href.queues, ?_⟩
    · simp [machine, call, hy]
    · rw [hlog]
      exact href.matched.symm
  | addDependenceAt dest slot byteOffset len => cases hx
  | addCallback callback => cases hx

lemma Mirrors.exec (h : s.Mirrors q)
    {acts : List ChannelAct} (hacts : ∀ a ∈ acts, a.arrival.isSome) (latchCount : UInt32)
    (data : Guid) : ∃ s', (machine latchCount data).exec s acts = some s' ∧
      s'.Mirrors ((acts.filterMap arrival).foldl step q) := by
  induction acts generalizing s q with
  | nil => exact ⟨s, rfl, h⟩
  | cons a acts ih =>
    obtain ⟨x, hx⟩ := isSome_iff_exists.1 (hacts a mem_cons_self)
    obtain ⟨s₁, hn, h₁⟩ := h.next hx latchCount data
    obtain ⟨s₂, he, h₂⟩ := ih h₁ fun b hb => hacts b (mem_cons_of_mem a hb)
    exact ⟨s₂, by rw [Machine.exec_cons, hn, bind_some, he], by
      rwa [filterMap_cons_some hx, foldl_cons]⟩

end ChannelRun

/-- **Channel events are FIFO**: the `k`-th dependence receives the data of the `k`-th satisfy,
once. -/
theorem channel_fifo {latchCount : UInt32} (hpos : 0 < latchCount) (data : Guid)
    (acts : List ChannelAct) (hacts : ∀ a ∈ acts, a.arrival.isSome) :
    ∃ s, (ChannelRun.machine latchCount data).exec ⟨.create latchCount data, []⟩ acts = some s ∧
      s.log = (dependences acts).zip (satisfyData acts) ∧
      Channel.Queues s.channel.versions
        ((dependences acts).drop (satisfyData acts).length)
        ((satisfyData acts).drop (dependences acts).length) ∧
      ((dependences acts).drop (satisfyData acts).length = [] ∨
        (satisfyData acts).drop (dependences acts).length = []) := by
  have hinit : ChannelRun.Mirrors ⟨.create latchCount data, []⟩ ⟨[], [], []⟩ :=
    ⟨hpos, .none rfl, rfl⟩
  obtain ⟨s, he, -, hq, hlog⟩ := hinit.exec hacts latchCount data
  have hspec := run_spec (acts.filterMap arrival)
  have hor := requests_or_offers_eq_nil (acts.filterMap arrival)
  rw [← run, hspec] at hq hlog
  rw [hspec] at hor
  exact ⟨s, he, hlog, hq, hor⟩

/-- Two dependences wait for data, then two data GUIDs wait for dependences. -/
theorem channel_fifo_four :
    ∃ s, (ChannelRun.machine 1 Guid.null).exec ⟨.create 1 Guid.null, []⟩
        ([.addDependence 1 0, .addDependence 2 0, .satisfy latchDecrSlot 7,
          .satisfy latchDecrSlot 8, .satisfy latchDecrSlot 9, .satisfy latchDecrSlot 10,
          .addDependence 3 1, .addDependence 4 0].map fun op => ⟨op, fun _ => false⟩) = some s ∧
      s.log = [(.edt 1 0 0 0, 7), (.edt 2 0 0 0, 8), (.edt 3 1 0 0, 9), (.edt 4 0 0 0, 10)] := by
  obtain ⟨s, he, hlog, -⟩ := channel_fifo (show (0 : UInt32) < 1 by decide) Guid.null
    ([.addDependence 1 0, .addDependence 2 0, .satisfy latchDecrSlot 7,
      .satisfy latchDecrSlot 8, .satisfy latchDecrSlot 9, .satisfy latchDecrSlot 10,
      .addDependence 3 1, .addDependence 4 0].map fun op => ⟨op, fun _ => false⟩) (by decide)
  exact ⟨s, he, hlog.trans (by decide)⟩

end Arts
