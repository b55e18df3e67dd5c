import DelosLab.NativeLoglet.MemoryStore
import DelosLab.NativeLoglet.SqlAlone
import Mathlib.Logic.Relation

/-!
# The laws of a LogletStore

The operations on any segments, in any order, on a `MemoryLogletStore` and on a
`SQLiteLogletStore` that may be opened again between two of them. Both conform to the
operations on the rows of one segment, and the laws follow from what these do.
-/

namespace DelosLab.NativeLoglet

open Async Async.Coroutine

/-- The operations of a store. -/
inductive StoreOperation : Type where
  | put (entry : LogEntry) (knownTail : Nat)
  | repair (entry : LogEntry) (knownTail : Nat)
  | prefixTrim (segmentId : String) (trimPosition : Int)
  | sealSegment (segmentId : String) (knownTail : Nat)
  | get (segmentId : String) (position knownTail : Nat)
  | state (segmentId : String) (knownTail : Nat)

inductive StoreReply : Type where
  | done
  | watermark (value : Nat)
  | entry (value : Option LogEntry)
  | state (value : LogServerState)

def StoreOperation.segmentId : StoreOperation → String
  | .put entry _ => entry.segmentId
  | .repair entry _ => entry.segmentId
  | .prefixTrim segmentId _ => segmentId
  | .sealSegment segmentId _ => segmentId
  | .get segmentId _ _ => segmentId
  | .state segmentId _ => segmentId

/-! ## On the rows of one segment -/

namespace LogletStore

def apply (kind : StoreKind) (self : LogletStore) :
    StoreOperation → LogletStore × Except Error StoreReply
  | .put entry knownTail =>
      ((put kind self entry knownTail).1, (put kind self entry knownTail).2.map fun _ => .done)
  | .repair entry knownTail =>
      ((repair kind self entry knownTail).1,
        (repair kind self entry knownTail).2.map fun _ => .done)
  | .prefixTrim _ trimPosition =>
      if trimPosition < 0 then
        (self, .error (.valueError "prefixTrim requires a non-negative position"))
      else
        ((self.prefixTrim trimPosition.toNat).1,
          .ok (.watermark (self.prefixTrim trimPosition.toNat).2))
  | .sealSegment _ knownTail => (self.seal knownTail, .ok .done)
  | .get _ position knownTail =>
      ((self.get position knownTail).1, .ok (.entry (self.get position knownTail).2))
  | .state _ knownTail => ((self.state knownTail).1, .ok (.state (self.state knownTail).2))

@[simp] theorem observeKnownTail_zero (s : LogletStore) : s.observeKnownTail 0 = s := by
  rw [observeKnownTail, Nat.max_eq_left (Nat.zero_le _)]

/-- No two entries share a position. -/
def Distinct (s : LogletStore) : Prop :=
  ∀ e ∈ s.entries, ∀ e' ∈ s.entries, e.position = e'.position → e = e'

theorem Distinct.insert {s : LogletStore} {entry : LogEntry} (hs : s.Distinct)
    (hfree : ∀ e ∈ s.entries, e.position ≠ entry.position) : (s.insert entry).Distinct := by
  intro e he e' he' hpos
  rcases List.mem_append.mp he with hold | hnew <;> rcases List.mem_append.mp he' with hold' | hnew'
  · exact hs e hold e' hold' hpos
  · rw [List.mem_singleton.mp hnew'] at hpos
    exact absurd hpos (hfree e hold)
  · rw [List.mem_singleton.mp hnew] at hpos
    exact absurd hpos.symm (hfree e' hold')
  · rw [List.mem_singleton.mp hnew, List.mem_singleton.mp hnew']

/-- What one operation may do to the rows of its segment. -/
structure Lawful (op : StoreOperation) (s s' : LogletStore) : Prop where
  advances : s.Advances s'
  trimmedPrefix : s.trimmedPrefix ≤ s'.trimmedPrefix
  distinct : s.Distinct → s'.Distinct
  swept : s.Swept → s'.Swept
  kept : s.Swept → ∀ e ∈ s.entries, e ∈ s'.entries ∨ e.position < s'.trimmedPrefix ∧
    ∃ trimPosition : Int, op = .prefixTrim op.segmentId trimPosition ∧ e.position < trimPosition
  sealedPut : ∀ entry knownTail, op = .put entry knownTail → s.sealed = true →
    s'.entries = s.entries
  predecessor : ∀ entry knownTail, op = .put entry knownTail → entry ∈ s'.entries →
    entry ∉ s.entries → 0 < entry.position →
      (∃ e ∈ s.entries, e.position + 1 = entry.position) ∨ entry.position ≤ s'.knownTail

/-- Known tails are not looked at, so observing one is always lawful. -/
theorem lawful_observeKnownTail (op : StoreOperation) (s : LogletStore) (n : Nat) :
    s.Lawful op (s.observeKnownTail n) where
  advances := s.advances_observeKnownTail n
  trimmedPrefix := Nat.le_refl _
  distinct := fun h => h
  swept := fun h => h
  kept := fun _ _ he => .inl he
  sealedPut := fun _ _ _ _ => rfl
  predecessor := fun _ _ _ he hnew _ => absurd he hnew

/-- An operation that stores at most one entry, where there is none. -/
theorem lawful_insert {op : StoreOperation} {s : LogletStore} {entry : LogEntry} {n : Nat}
    (htrim : s.trimmedPrefix ≤ entry.position)
    (hfree : ∀ e ∈ s.entries, e.position ≠ entry.position)
    (hput : ∀ entry' knownTail, op = .put entry' knownTail → entry' = entry ∧ s.sealed = false ∧
      ((s.observeKnownTail n).lacksPredecessor entry = false)) :
    s.Lawful op ((s.observeKnownTail n).insert entry) where
  advances := (s.advances_observeKnownTail n).trans (advances_insert _ entry)
  trimmedPrefix := Nat.le_refl _
  distinct := fun h => Distinct.insert (s := s.observeKnownTail n) h hfree
  swept := fun h e he => by
    rcases List.mem_append.mp he with hold | hnew
    · exact h e hold
    · rw [List.mem_singleton.mp hnew]
      exact htrim
  kept := fun _ _ he => .inl (List.mem_append_left _ he)
  sealedPut := fun entry' knownTail hop hs => by
    rw [(hput entry' knownTail hop).2.1] at hs
    cases hs
  predecessor := fun entry' knownTail hop _ _ hpos => by
    obtain ⟨rfl, -, hlacks⟩ := hput entry' knownTail hop
    exact present_of_not_lacks (by rw [hlacks]; nofun)

/-- A put without its predecessor stores nothing. -/
theorem put_lacking {kind : StoreKind} {s : LogletStore} {entry : LogEntry} {n : Nat}
    (h : (s.observeKnownTail n).lacksPredecessor entry = true) :
    (put kind s entry n).1 = s.observeKnownTail n := by
  cases kind with
  | memory =>
      show (MemoryLogletStore.put s entry n).1 = _
      rw [MemoryLogletStore.put]
      simp only [h, if_true]
      split
      · rfl
      · split
        · split
          · rfl
          · rfl
        · rfl
  | sqlite =>
      show (SQLiteLogletStore.put s entry n).1 = _
      rw [SQLiteLogletStore.put, SQLiteLogletStore.write]
      simp only [h, Bool.and_self, if_true]
      split
      · rfl
      · split
        · rfl
        · split
          · split
            · rfl
            · rfl
          · rfl

theorem lawful_put (kind : StoreKind) (s : LogletStore) (entry : LogEntry) (n : Nat) :
    s.Lawful (.put entry n) (put kind s entry n).1 := by
  have heffect := put_effect kind s entry n
  have hlacking : (s.observeKnownTail n).lacksPredecessor entry = true →
      (put kind s entry n).1 = s.observeKnownTail n := put_lacking
  generalize (put kind s entry n).1 = s', (put kind s entry n).2 = r at heffect hlacking
  cases heffect with
  | failed e h => exact lawful_observeKnownTail _ s n
  | kept hopen h => exact lawful_observeKnownTail _ s n
  | added hopen htrim hfree h =>
      refine lawful_insert htrim hfree fun entry' knownTail hop => ?_
      injection hop with hentry
      refine ⟨hentry.symm, hopen, ?_⟩
      cases hlacks : (s.observeKnownTail n).lacksPredecessor entry with
      | false => rfl
      | true =>
          have hsame := congrArg (fun s => s.entries.length) (hlacking hlacks)
          simp [insert, observeKnownTail] at hsame

theorem lawful_repair (kind : StoreKind) (s : LogletStore) (entry : LogEntry) (n : Nat) :
    s.Lawful (.repair entry n) (repair kind s entry n).1 := by
  have heffect := repair_effect kind s entry n
  generalize (repair kind s entry n).1 = s', (repair kind s entry n).2 = r at heffect
  cases heffect with
  | trimmed => exact lawful_observeKnownTail _ s n
  | conflict e h => exact lawful_observeKnownTail _ s n
  | kept h => exact lawful_observeKnownTail _ s n
  | added htrim hfree => exact lawful_insert htrim hfree nofun

theorem lawful_prefixTrim (s : LogletStore) (segmentId : String) (trimPosition : Nat) :
    s.Lawful (.prefixTrim segmentId trimPosition) (s.prefixTrim trimPosition).1 where
  advances := s.advances_prefixTrim trimPosition
  trimmedPrefix := Nat.le_max_left _ _
  distinct := fun h e he e' he' hpos =>
    h e (List.mem_filter.mp he).1 e' (List.mem_filter.mp he').1 hpos
  swept := fun _ => s.swept_prefixTrim trimPosition
  kept := fun h e he => by
    by_cases hlt : e.position < trimPosition
    · exact .inr ⟨Nat.lt_of_lt_of_le hlt (Nat.le_max_right _ _), trimPosition, rfl,
        Int.ofNat_lt.mpr hlt⟩
    · exact .inl (List.mem_filter.mpr
        ⟨he, decide_eq_true (Nat.max_le.mpr ⟨h e he, Nat.le_of_not_lt hlt⟩)⟩)
  sealedPut := nofun
  predecessor := nofun

theorem lawful_seal (s : LogletStore) (segmentId : String) (n : Nat) :
    s.Lawful (.sealSegment segmentId n) (s.seal n) where
  advances := s.advances_seal n
  trimmedPrefix := Nat.le_refl _
  distinct := fun h => h
  swept := fun h => h
  kept := fun _ _ he => .inl he
  sealedPut := nofun
  predecessor := nofun

theorem lawful_apply (kind : StoreKind) (s : LogletStore) (op : StoreOperation) :
    s.Lawful op (s.apply kind op).1 := by
  cases op with
  | put entry knownTail => exact lawful_put kind s entry knownTail
  | repair entry knownTail => exact lawful_repair kind s entry knownTail
  | prefixTrim segmentId trimPosition =>
      rw [apply]
      split
      · have h := lawful_observeKnownTail (.prefixTrim segmentId trimPosition) s 0
        rwa [observeKnownTail_zero] at h
      · next h =>
          obtain ⟨n, rfl⟩ := Int.eq_ofNat_of_zero_le (Int.not_lt.mp h)
          exact lawful_prefixTrim s segmentId n
  | sealSegment segmentId knownTail => exact lawful_seal s segmentId knownTail
  | get segmentId position knownTail => exact lawful_observeKnownTail _ s knownTail
  | state segmentId knownTail => exact lawful_observeKnownTail _ s knownTail

/-- An operation that raises does no more than to observe a known tail. -/
theorem apply_error {kind : StoreKind} {s : LogletStore} {op : StoreOperation} {e : Error}
    (h : (s.apply kind op).2 = .error e) :
    ∃ n, (s.apply kind op).1 = s.observeKnownTail n := by
  cases op with
  | put entry knownTail =>
      refine ⟨knownTail, ?_⟩
      have heffect := put_effect kind s entry knownTail
      simp only [apply] at h ⊢
      generalize (put kind s entry knownTail).1 = s', (put kind s entry knownTail).2 = r
        at heffect h ⊢
      cases heffect with
      | failed e h => rfl
      | kept hopen h => rfl
      | added hopen htrim hfree hpred => cases h
  | repair entry knownTail =>
      refine ⟨knownTail, ?_⟩
      have heffect := repair_effect kind s entry knownTail
      simp only [apply] at h ⊢
      generalize (repair kind s entry knownTail).1 = s', (repair kind s entry knownTail).2 = r
        at heffect h ⊢
      cases heffect with
      | trimmed => rfl
      | conflict e h => rfl
      | kept h => rfl
      | added htrim hfree => cases h
  | prefixTrim segmentId trimPosition =>
      rw [apply] at h ⊢
      split
      · exact ⟨0, s.observeKnownTail_zero.symm⟩
      · next hneg =>
          rw [if_neg hneg] at h
          cases h
  | sealSegment segmentId knownTail => cases h
  | get segmentId position knownTail => cases h
  | state segmentId knownTail => cases h

end LogletStore

/-! ## A store of several segments -/

/-- What a store holds for each segment, and what one operation and one restart may do to it.
The reply of an operation that raises is `none`. -/
structure StoreModel (σ : Type) where
  initial : σ
  segment : σ → String → LogletStore
  Runs : σ → StoreOperation → σ → Option StoreReply → Prop
  Restarts : σ → σ → Prop

namespace StoreModel

variable {σ : Type} (M : StoreModel σ)

inductive Step (s s' : σ) : Prop where
  | operation (op : StoreOperation) (reply : Option StoreReply) (h : M.Runs s op s' reply)
  | restart (h : M.Restarts s s')

/-- Any number of operations on any segments, and of restarts. -/
abbrev Reaches : σ → σ → Prop := Relation.ReflTransGen M.Step

def Reachable (s : σ) : Prop := M.Reaches M.initial s

/-- The laws of a store. -/
structure Laws : Prop where
  /-- An entry disappears only when a trim passes it, -/
  kept : ∀ {s op s' reply segmentId e}, M.Reachable s → M.Runs s op s' reply →
    e ∈ (M.segment s segmentId).entries → e ∉ (M.segment s' segmentId).entries →
      ∃ trimPosition : Int, op = .prefixTrim segmentId trimPosition ∧ e.position < trimPosition
  /-- and no restart loses one. -/
  durable : ∀ {s s'}, M.Reachable s → M.Restarts s s' → ∀ segmentId,
    (M.segment s' segmentId).entries = (M.segment s segmentId).entries ∧
    (M.segment s' segmentId).sealed = (M.segment s segmentId).sealed ∧
    (M.segment s' segmentId).trimmedPrefix = (M.segment s segmentId).trimmedPrefix
  /-- An entry is never replaced by a different one. -/
  unreplaced : ∀ {s s' segmentId e e'}, M.Reachable s → M.Reaches s s' →
    e ∈ (M.segment s segmentId).entries → e' ∈ (M.segment s' segmentId).entries →
      e.position = e'.position → e = e'
  swept : ∀ {s segmentId e}, M.Reachable s → e ∈ (M.segment s segmentId).entries →
    (M.segment s segmentId).trimmedPrefix ≤ e.position
  sealed : ∀ {s s' segmentId}, M.Reachable s → M.Reaches s s' →
    (M.segment s segmentId).sealed = true → (M.segment s' segmentId).sealed = true
  sealedPut : ∀ {s entry knownTail s' reply}, M.Reachable s →
    M.Runs s (.put entry knownTail) s' reply → (M.segment s entry.segmentId).sealed = true →
      (M.segment s' entry.segmentId).entries = (M.segment s entry.segmentId).entries
  watermark : ∀ {s s' segmentId}, M.Reachable s → M.Reaches s s' →
    (M.segment s segmentId).trimmedPrefix ≤ (M.segment s' segmentId).trimmedPrefix
  localTail : ∀ {s s' segmentId}, M.Reachable s → M.Reaches s s' →
    (M.segment s segmentId).localTail ≤ (M.segment s' segmentId).localTail
  trimmedTail : ∀ {s segmentId}, M.Reachable s →
    (M.segment s segmentId).trimmedPrefix ≤ (M.segment s segmentId).localTail
  others : ∀ {s op s' reply segmentId}, M.Reachable s → M.Runs s op s' reply →
    segmentId ≠ op.segmentId → M.segment s' segmentId = M.segment s segmentId
  /-- A put that stores a position behind the first has the position before it, or knows that
  the tail has come as far. -/
  predecessor : ∀ {s entry knownTail s' reply}, M.Reachable s →
    M.Runs s (.put entry knownTail) s' reply → 0 < entry.position →
      entry ∈ (M.segment s' entry.segmentId).entries →
      entry ∉ (M.segment s entry.segmentId).entries →
        (∃ e ∈ (M.segment s entry.segmentId).entries, e.position + 1 = entry.position) ∨
          entry.position ≤ (M.segment s' entry.segmentId).knownTail
  raised : ∀ {s op s'}, M.Reachable s → M.Runs s op s' none → ∀ segmentId,
    (M.segment s' segmentId).entries = (M.segment s segmentId).entries ∧
    (M.segment s' segmentId).sealed = (M.segment s segmentId).sealed ∧
    (M.segment s' segmentId).trimmedPrefix = (M.segment s segmentId).trimmedPrefix
  /-- What `state` and `get` report. -/
  state : ∀ {s segmentId knownTail s' report}, M.Reachable s →
    M.Runs s (.state segmentId knownTail) s' (some (.state report)) →
      report = (M.segment s' segmentId).snapshot
  get : ∀ {s segmentId position knownTail s' entry}, M.Reachable s →
    M.Runs s (.get segmentId position knownTail) s' (some (.entry entry)) →
      entry = (M.segment s segmentId).entryAt position

/-- Every operation does to the rows of its segment what the operation on these rows does,
or raises and does no more than to observe a known tail. -/
structure Conforms (kind : StoreKind) : Prop where
  initial : ∀ segmentId, M.segment M.initial segmentId = .empty segmentId
  done : ∀ {s op s' reply}, M.Reachable s → M.Runs s op s' (some reply) →
    M.segment s' = Function.update (M.segment s) op.segmentId
      ((M.segment s op.segmentId).apply kind op).1 ∧
    ((M.segment s op.segmentId).apply kind op).2 = .ok reply
  raised : ∀ {s op s'}, M.Reachable s → M.Runs s op s' none →
    ∃ n, M.segment s' = Function.update (M.segment s) op.segmentId
      ((M.segment s op.segmentId).observeKnownTail n)
  restarts : ∀ {s s'}, M.Reachable s → M.Restarts s s' →
    ∀ segmentId, M.segment s' segmentId = (M.segment s segmentId).reopen

variable {M} {kind : StoreKind} {s s' : σ} {op : StoreOperation} {reply : Option StoreReply}
  {segmentId : String}

/-- An operation changes its own segment alone, and lawfully. -/
theorem Conforms.runs (h : M.Conforms kind) (hs : M.Reachable s) (hr : M.Runs s op s' reply) :
    ∃ rows, (M.segment s op.segmentId).Lawful op rows ∧
      M.segment s' = Function.update (M.segment s) op.segmentId rows := by
  cases reply with
  | some reply => exact ⟨_, LogletStore.lawful_apply kind _ op, (h.done hs hr).1⟩
  | none =>
      obtain ⟨n, hrows⟩ := h.raised hs hr
      exact ⟨_, LogletStore.lawful_observeKnownTail op _ n, hrows⟩

/-- What the rows of a segment keep when lawful operations and restarts do. -/
theorem Conforms.step (h : M.Conforms kind) {R : LogletStore → LogletStore → Prop}
    (hrefl : ∀ rows, R rows rows)
    (hlawful : ∀ op rows rows', LogletStore.Lawful op rows rows' → R rows rows')
    (hreopen : ∀ rows, R rows rows.reopen) (hs : M.Reachable s) (hstep : M.Step s s')
    (segmentId : String) : R (M.segment s segmentId) (M.segment s' segmentId) := by
  cases hstep with
  | operation op reply hr =>
      obtain ⟨rows, hrows, heq⟩ := h.runs hs hr
      rw [heq]
      by_cases hid : segmentId = op.segmentId
      · subst hid
        rw [Function.update_self]
        exact hlawful op _ _ hrows
      · rw [Function.update_of_ne hid]
        exact hrefl _
  | restart hr =>
      rw [h.restarts hs hr segmentId]
      exact hreopen _

/-- What one step keeps, every run keeps. -/
theorem Conforms.reaches (h : M.Conforms kind) {R : LogletStore → LogletStore → Prop}
    (hrefl : ∀ rows, R rows rows) (htrans : ∀ a b c, R a b → R b c → R a c)
    (hlawful : ∀ op rows rows', LogletStore.Lawful op rows rows' → R rows rows')
    (hreopen : ∀ rows, R rows rows.reopen) (hs : M.Reachable s) (hr : M.Reaches s s')
    (segmentId : String) : R (M.segment s segmentId) (M.segment s' segmentId) := by
  induction hr with
  | refl => exact hrefl _
  | tail hr hstep ih =>
      exact htrans _ _ _ ih (h.step hrefl hlawful hreopen (hs.trans hr) hstep segmentId)

/-- Every reachable store is tidy. -/
theorem Conforms.invariant (h : M.Conforms kind) (hs : M.Reachable s) (segmentId : String) :
    (M.segment s segmentId).Distinct ∧ (M.segment s segmentId).Swept := by
  have hkept := h.reaches (R := fun rows rows' =>
      rows.Distinct ∧ rows.Swept → rows'.Distinct ∧ rows'.Swept) (fun _ hi => hi)
    (fun _ _ _ h h' hi => h' (h hi))
    (fun op rows rows' hl hi => ⟨hl.distinct hi.1, hl.swept hi.2⟩) (fun _ hi => hi) .refl hs
    segmentId
  refine hkept ?_
  rw [h.initial]
  exact ⟨nofun, nofun⟩

/-- In a run, an entry stays until the watermark has passed it. -/
theorem Conforms.keeps (h : M.Conforms kind) (hs : M.Reachable s) (hr : M.Reaches s s')
    {e : LogEntry} (he : e ∈ (M.segment s segmentId).entries) :
    e ∈ (M.segment s' segmentId).entries ∨ e.position < (M.segment s' segmentId).trimmedPrefix := by
  have hkept := h.reaches (R := fun rows rows' => rows.Swept → rows'.Swept ∧
      rows.trimmedPrefix ≤ rows'.trimmedPrefix ∧
        ∀ e ∈ rows.entries, e ∈ rows'.entries ∨ e.position < rows'.trimmedPrefix)
    (fun _ hi => ⟨hi, Nat.le_refl _, fun _ he => .inl he⟩) (fun a b c h h' hi => ?_)
    (fun op rows rows' hl hi => ⟨hl.swept hi, hl.trimmedPrefix,
      fun e he => (hl.kept hi e he).imp_right And.left⟩)
    (fun _ hi => ⟨hi, Nat.le_refl _, fun _ he => .inl he⟩) hs hr segmentId
  · exact (hkept (h.invariant hs segmentId).2).2.2 e he
  · obtain ⟨hb, hle, hkept⟩ := h hi
    obtain ⟨hc, hle', hkept'⟩ := h' hb
    refine ⟨hc, Nat.le_trans hle hle', fun e he => ?_⟩
    rcases hkept e he with he | hlt
    · exact hkept' e he
    · exact .inr (Nat.lt_of_lt_of_le hlt hle')

theorem Conforms.laws (h : M.Conforms kind) : M.Laws where
  kept := fun {s op s' reply segmentId e} hs hr he hgone => by
    obtain ⟨rows, hrows, heq⟩ := h.runs hs hr
    rw [heq] at hgone
    by_cases hid : segmentId = op.segmentId
    · subst hid
      rw [Function.update_self] at hgone
      rcases hrows.kept (h.invariant hs _).2 e he with hmem | ⟨-, htrim⟩
      · exact absurd hmem hgone
      · exact htrim
    · rw [Function.update_of_ne hid] at hgone
      exact absurd he hgone
  durable := fun hs hr segmentId => by
    rw [h.restarts hs hr segmentId]
    exact ⟨rfl, rfl, rfl⟩
  unreplaced := fun {s s' segmentId e e'} hs hr he he' hpos => by
    have hs' : M.Reachable s' := hs.trans hr
    rcases h.keeps hs hr he with hmem | hlt
    · exact (h.invariant hs' segmentId).1 e hmem e' he' hpos
    · rw [hpos] at hlt
      exact absurd ((h.invariant hs' segmentId).2 e' he') (Nat.not_le_of_lt hlt)
  swept := fun hs he => (h.invariant hs _).2 _ he
  sealed := fun {s s' segmentId} hs hr =>
    h.reaches (R := fun rows rows' => rows.sealed = true → rows'.sealed = true) (fun _ hi => hi)
      (fun _ _ _ h h' hi => h' (h hi)) (fun op _ _ hl => hl.advances.sealed) (fun _ hi => hi) hs hr
      segmentId
  sealedPut := fun {s entry knownTail s' reply} hs hr hsealed => by
    obtain ⟨rows, hrows, heq⟩ := h.runs hs hr
    rw [heq]
    simp only [StoreOperation.segmentId, Function.update_self]
    exact hrows.sealedPut entry knownTail rfl hsealed
  watermark := fun {s s' segmentId} hs hr =>
    h.reaches (R := fun rows rows' => rows.trimmedPrefix ≤ rows'.trimmedPrefix)
      (fun _ => Nat.le_refl _) (fun _ _ _ => Nat.le_trans) (fun op _ _ hl => hl.trimmedPrefix)
      (fun _ => Nat.le_refl _) hs hr segmentId
  localTail := fun {s s' segmentId} hs hr =>
    h.reaches (R := fun rows rows' => rows.localTail ≤ rows'.localTail) (fun _ => Nat.le_refl _)
      (fun _ _ _ => Nat.le_trans) (fun op _ _ hl => hl.advances.localTail)
      (fun _ => Nat.le_refl _) hs hr segmentId
  trimmedTail := fun _ => Nat.le_max_right _ _
  others := fun {s op s' reply segmentId} hs hr hid => by
    obtain ⟨rows, -, heq⟩ := h.runs hs hr
    rw [heq, Function.update_of_ne hid]
  predecessor := fun {s entry knownTail s' reply} hs hr hpos hmem hnew => by
    obtain ⟨rows, hrows, heq⟩ := h.runs hs hr
    rw [heq] at hmem ⊢
    simp only [StoreOperation.segmentId, Function.update_self] at hmem ⊢
    exact hrows.predecessor entry knownTail rfl hmem hnew hpos
  raised := fun {s op s'} hs hr segmentId => by
    obtain ⟨n, heq⟩ := h.raised hs hr
    rw [heq]
    by_cases hid : segmentId = op.segmentId
    · subst hid
      rw [Function.update_self]
      exact ⟨rfl, rfl, rfl⟩
    · rw [Function.update_of_ne hid]
      exact ⟨rfl, rfl, rfl⟩
  state := fun {s segmentId knownTail s' report} hs hr => by
    obtain ⟨heq, hreply⟩ := h.done hs hr
    cases hreply
    rw [heq]
    simp only [StoreOperation.segmentId, Function.update_self]
    rfl
  get := fun {s segmentId position knownTail s' entry} hs hr => by
    obtain ⟨-, hreply⟩ := h.done hs hr
    cases hreply
    rfl

end StoreModel

/-! ## MemoryLogletStore -/

namespace MemoryStore

def apply (self : MemoryStore) : StoreOperation → MemoryStore × Except Error StoreReply
  | .put entry knownTail =>
      ((self.put entry knownTail).1, (self.put entry knownTail).2.map fun _ => .done)
  | .repair entry knownTail =>
      ((self.repair entry knownTail).1, (self.repair entry knownTail).2.map fun _ => .done)
  | .prefixTrim segmentId trimPosition =>
      ((self.prefixTrim segmentId trimPosition).1,
        (self.prefixTrim segmentId trimPosition).2.map .watermark)
  | .sealSegment segmentId knownTail => (self.sealSegment segmentId knownTail, .ok .done)
  | .get segmentId position knownTail =>
      ((self.get segmentId position knownTail).1,
        .ok (.entry (self.get segmentId position knownTail).2))
  | .state segmentId knownTail =>
      ((self.state segmentId knownTail).1, .ok (.state (self.state segmentId knownTail).2))

def model : StoreModel MemoryStore where
  initial := empty
  segment := segment
  Runs := fun self op self' reply =>
    self' = (self.apply op).1 ∧ reply = (self.apply op).2.toOption
  Restarts := fun _ _ => False

/-- An operation on the dictionaries is the operation on the rows of its segment. -/
theorem segment_apply (self : MemoryStore) (op : StoreOperation) :
    (self.apply op).1.segment = Function.update self.segment op.segmentId
        ((self.segment op.segmentId).apply .memory op).1 ∧
      (self.apply op).2 = ((self.segment op.segmentId).apply .memory op).2 := by
  cases op with
  | put entry knownTail =>
      obtain ⟨hrows, hresult⟩ := self.segment_put entry knownTail
      exact ⟨hrows, congrArg (Except.map fun _ => StoreReply.done) hresult⟩
  | repair entry knownTail =>
      obtain ⟨hrows, hresult⟩ := self.segment_repair entry knownTail
      exact ⟨hrows, congrArg (Except.map fun _ => StoreReply.done) hresult⟩
  | prefixTrim segmentId trimPosition =>
      by_cases hneg : trimPosition < 0
      · simp only [apply, prefixTrim, LogletStore.apply, if_pos hneg]
        exact ⟨(Function.update_eq_self _ _).symm, rfl⟩
      · obtain ⟨n, rfl⟩ := Int.eq_ofNat_of_zero_le (Int.not_lt.mp hneg)
        obtain ⟨hrows, hresult⟩ := self.segment_prefixTrim segmentId n
        simp only [LogletStore.apply, if_neg hneg]
        exact ⟨hrows, congrArg (Except.map StoreReply.watermark) hresult⟩
  | sealSegment segmentId knownTail => exact ⟨self.segment_sealSegment segmentId knownTail, rfl⟩
  | get segmentId position knownTail =>
      refine ⟨self.segment_observeKnownTail segmentId knownTail, ?_⟩
      simp only [apply, get, entry_eq]
      rfl
  | state segmentId knownTail =>
      refine ⟨self.segment_observeKnownTail segmentId knownTail, ?_⟩
      simp only [apply, state_eq]
      rfl

theorem conforms : model.Conforms .memory where
  initial := fun _ => rfl
  done := fun {s op s' reply} _ hr => by
    obtain ⟨rfl, hreply⟩ := hr
    obtain ⟨hrows, hresult⟩ := s.segment_apply op
    refine ⟨hrows, ?_⟩
    rw [hresult] at hreply
    cases happly : ((s.segment op.segmentId).apply .memory op).2 with
    | ok a =>
        rw [happly] at hreply
        cases hreply
        exact happly
    | error e =>
        rw [happly] at hreply
        cases hreply
  raised := fun {s op s'} _ hr => by
    obtain ⟨rfl, hreply⟩ := hr
    obtain ⟨hrows, hresult⟩ := s.segment_apply op
    rw [hresult] at hreply
    cases happly : ((s.segment op.segmentId).apply .memory op).2 with
    | ok a =>
        rw [happly] at hreply
        cases hreply
    | error e =>
        obtain ⟨n, hn⟩ := LogletStore.apply_error happly
        exact ⟨n, hrows.trans (congrArg (Function.update s.segment op.segmentId) hn)⟩
  restarts := fun _ hr => absurd hr id

end MemoryStore

/-! ## SQLiteLogletStore -/

namespace Sql

def operation : StoreOperation → Co StoreReply
  | .put entry knownTail => do
      put entry knownTail
      ret .done
  | .repair entry knownTail => do
      repair entry knownTail
      ret .done
  | .prefixTrim segmentId trimPosition => do
      let watermark ← prefixTrim segmentId trimPosition
      ret (.watermark watermark)
  | .sealSegment segmentId knownTail => do
      sealSegment segmentId knownTail
      ret .done
  | .get segmentId position knownTail => do
      let entry ← get segmentId position knownTail
      ret (.entry entry)
  | .state segmentId knownTail => do
      let report ← state segmentId knownTail
      ret (.state report)

/-- Operations that nothing interrupts, whatever statements of theirs are refused. -/
def model : StoreModel World where
  initial := .opened ⟨[], []⟩
  segment := fun w => w.connection.committed.rows w.knownTails
  Runs := fun w op w' reply => ∃ script script' result,
    scripted.run (w, script) (operation op) = ((w', script'), result) ∧ reply = result.toOption
  Restarts := fun w w' => disturb w .crash = some w'

/-- The known tails after an observation. -/
def observed (k : String → Nat) (segmentId : String) (knownTail : Nat) : String → Nat :=
  Function.update k segmentId (max (k segmentId) knownTail)

theorem rows_observed (t : Tables) (k : String → Nat) (segmentId : String) (knownTail : Nat) :
    t.rows (observed k segmentId knownTail) = Function.update (t.rows k) segmentId
      ((t.rows k segmentId).observeKnownTail knownTail) := by
  funext id
  by_cases hid : id = segmentId
  · subst hid
    simp [Tables.rows, observed, Tables.store, LogletStore.observeKnownTail]
  · simp [Tables.rows, observed, hid]

namespace Solo

variable {t : Tables} {k : String → Nat} {X : World → StoreError → Prop}

theorem observe (segmentId : String) (knownTail : Nat) :
    Solo (Idle t k) (act (.observeKnownTail segmentId knownTail))
      (fun w a => Idle t (observed k segmentId knownTail) w ∧ a = ()) X :=
  .perform fun _ hs =>
    ⟨⟨hs.connection, hs.lock, congrArg (observed · segmentId knownTail) hs.knownTails⟩, rfl⟩

/-- An observation, and a write after it. -/
theorem write (entry : LogEntry) (knownTail : Nat) (rejectIfSealed requirePredecessor : Bool) :
    Solo (Idle t k)
      (do
        act (.observeKnownTail entry.segmentId knownTail)
        Sql.write entry rejectIfSealed requirePredecessor)
      (fun w a => ∃ t' k', Idle t' k' w ∧ Updates (t.rows k) entry.segmentId
        (SQLiteLogletStore.write ((t.rows k entry.segmentId).observeKnownTail knownTail) entry
          rejectIfSealed requirePredecessor) (t'.rows k') a)
      (fun w e => ∃ n, Idle t (observed k entry.segmentId n) w ∧
        Raises (SQLiteLogletStore.write ((t.rows k entry.segmentId).observeKnownTail knownTail)
          entry rejectIfSealed requirePredecessor).2 e) := by
  have hrows := rows_observed t k entry.segmentId knownTail
  have hown : t.rows (observed k entry.segmentId knownTail) entry.segmentId =
      (t.rows k entry.segmentId).observeKnownTail knownTail := by
    rw [hrows, Function.update_self]
  refine seq (observe entry.segmentId knownTail) ?_
  refine (transaction (raises_operational _)
    (writeBody entry rejectIfSealed requirePredecessor)).mono (fun s hs => hs) ?_ ?_
  · rintro s a ⟨t', hs, hupdate, hresult⟩
    rw [hown] at hupdate hresult
    rw [hrows, Function.update_idem] at hupdate
    exact ⟨t', _, hs, hupdate, hresult⟩
  · rintro s e ⟨hs, hraises⟩
    rw [hown] at hraises
    exact ⟨knownTail, hs, hraises⟩

theorem Raises.map {ρ ρ' : Type} {result : Except Error ρ} {e : StoreError} (f : ρ → ρ')
    (h : Raises result e) : Raises (result.map f) e := by
  rcases h with hop | ⟨e', rfl, hresult⟩
  · exact .inl hop
  · exact .inr ⟨e', rfl, by rw [hresult]; rfl⟩

/-- The reply of an operation is made of the value of its coroutine. -/
theorem reply {α : Type} {p : Co α} {segmentId : String} {result : LogletStore × Except Error α}
    (f : α → StoreReply)
    (h : Solo (Idle t k) p
      (fun w a => ∃ t' k', Idle t' k' w ∧ Updates (t.rows k) segmentId result (t'.rows k') a)
      (fun w e => ∃ n, Idle t (observed k segmentId n) w ∧ Raises result.2 e)) :
    Solo (Idle t k) (do let a ← p; ret (f a))
      (fun w a => ∃ t' k', Idle t' k' w ∧
        Updates (t.rows k) segmentId (result.1, result.2.map f) (t'.rows k') a)
      (fun w e => ∃ n, Idle t (observed k segmentId n) w ∧ Raises (result.2.map f) e) := by
  refine .bind (h.mono (fun _ hs => hs) (fun _ _ hs => hs) ?_) fun a => .ret ?_
  · rintro s e ⟨n, hs, hraises⟩
    exact ⟨n, hs, Raises.map f hraises⟩
  · rintro s ⟨t', k', hs, hrows, hresult⟩
    exact ⟨t', k', hs, hrows, by rw [hresult]; rfl⟩

/-- `prefix_trim` on the rows of one segment. -/
def trimmed (rows : LogletStore) (trimPosition : Int) : LogletStore × Except Error Nat :=
  if trimPosition < 0 then
    (rows, .error (.valueError "prefixTrim requires a non-negative position"))
  else ((rows.prefixTrim trimPosition.toNat).1, .ok (rows.prefixTrim trimPosition.toNat).2)

theorem observed_zero (k : String → Nat) (segmentId : String) : observed k segmentId 0 = k := by
  rw [observed, Nat.max_eq_left (Nat.zero_le _), Function.update_eq_self]

theorem prefixTrim (segmentId : String) (trimPosition : Int) :
    Solo (Idle t k) (Sql.prefixTrim segmentId trimPosition)
      (fun w a => ∃ t' k', Idle t' k' w ∧
        Updates (t.rows k) segmentId (trimmed (t.rows k segmentId) trimPosition) (t'.rows k') a)
      (fun w e => ∃ n, Idle t (observed k segmentId n) w ∧
        Raises (trimmed (t.rows k segmentId) trimPosition).2 e) := by
  have hkept : observed k segmentId 0 = k := observed_zero k segmentId
  by_cases hneg : trimPosition < 0
  · simp only [trimmed, if_pos hneg]
    refine fails (Int.not_le.mpr hneg) fun w hw => ⟨0, ?_, .inr ⟨_, rfl, rfl⟩⟩
    rw [hkept]
    exact hw
  · simp only [trimmed, if_neg hneg]
    refine seq (check (Int.not_lt.mp hneg)) ?_
    refine (transaction (fun message => ⟨message, rfl⟩)
      (prefixTrimBody segmentId trimPosition.toNat)).mono (fun s hs => hs) ?_ ?_
    · rintro s a ⟨t', hs, hrows, rfl⟩
      exact ⟨t', k, hs, hrows, rfl⟩
    · rintro s e ⟨hs, hraises⟩
      refine ⟨0, ?_, .inl hraises⟩
      rw [hkept]
      exact hs

theorem sealSegment (segmentId : String) (knownTail : Nat) :
    Solo (Idle t k) (Sql.sealSegment segmentId knownTail)
      (fun w a => ∃ t' k', Idle t' k' w ∧ Updates (t.rows k) segmentId
        ((t.rows k segmentId).seal knownTail, .ok ()) (t'.rows k') a)
      (fun w e => ∃ n, Idle t (observed k segmentId n) w ∧ Raises (.ok () : Except Error Unit) e) :=
    by
  have hrows := rows_observed t k segmentId knownTail
  refine seq (observe segmentId knownTail) ?_
  refine (transaction (fun message => ⟨message, rfl⟩) (sealBody segmentId)).mono
    (fun s hs => hs) ?_ ?_
  · rintro s a ⟨t', hs, hupdate⟩
    rw [hrows, Function.update_self, Function.update_idem] at hupdate
    exact ⟨t', _, hs, hupdate, rfl⟩
  · rintro s e ⟨hs, hraises⟩
    exact ⟨knownTail, hs, .inl hraises⟩

theorem get (segmentId : String) (position knownTail : Nat) :
    Solo (Idle t k) (Sql.get segmentId position knownTail)
      (fun w a => ∃ t' k', Idle t' k' w ∧ Updates (t.rows k) segmentId
        ((t.rows k segmentId).observeKnownTail knownTail,
          .ok ((t.rows k segmentId).entryAt position)) (t'.rows k') a)
      (fun w e => ∃ n, Idle t (observed k segmentId n) w ∧
        Raises (.ok ((t.rows k segmentId).entryAt position) : Except Error _) e) := by
  refine seq (observe segmentId knownTail) ?_
  have hquery : Solo (Idle t (observed k segmentId knownTail)) (Sql.entryAt segmentId position)
      (fun w a => Idle t (observed k segmentId knownTail) w ∧ a = t.entryRow segmentId position)
      (fun w e => Idle t (observed k segmentId knownTail) w ∧
        Raises (.ok ((t.rows k segmentId).entryAt position) : Except Error _) e) :=
    executed nofun (raises_operational _) rfl
  refine hquery.mono (fun s hs => hs) ?_ ?_
  · rintro s a ⟨hs, rfl⟩
    exact ⟨t, _, hs, rows_observed t k segmentId knownTail, congrArg Except.ok
      (Tables.entryRow_eq t segmentId position _).symm⟩
  · rintro s e ⟨hs, hraises⟩
    exact ⟨knownTail, hs, hraises⟩

theorem state (segmentId : String) (knownTail : Nat) :
    Solo (Idle t k) (Sql.state segmentId knownTail)
      (fun w a => ∃ t' k', Idle t' k' w ∧ Updates (t.rows k) segmentId
        ((t.rows k segmentId).observeKnownTail knownTail,
          .ok ((t.rows k segmentId).state knownTail).2) (t'.rows k') a)
      (fun w e => ∃ n, Idle t (observed k segmentId n) w ∧
        Raises (.ok ((t.rows k segmentId).state knownTail).2 : Except Error _) e) := by
  let k' := observed k segmentId knownTail
  have hE := raises_operational (.ok ((t.rows k segmentId).state knownTail).2)
  have hknown : Solo (Idle t k') (act (.knownTail segmentId))
      (fun w n => Idle t k' w ∧ n = k' segmentId)
      (fun w e => Idle t k' w ∧ Raises (.ok ((t.rows k segmentId).state knownTail).2) e) :=
    .perform fun s hs => ⟨hs, congrFun hs.knownTails _⟩
  have hstate : Solo (Idle t k) (Sql.state segmentId knownTail)
      (fun w a => Idle t k' w ∧
        a = reportOf segmentId (t.segmentRow segmentId) (t.maxPosition segmentId) (k' segmentId))
      (fun w e => Idle t k' w ∧ Raises (.ok ((t.rows k segmentId).state knownTail).2) e) :=
    seq (observe segmentId knownTail) (seq (executed nofun hE rfl) (seq (executed nofun hE rfl)
      (seq hknown (.ret fun s hs => ⟨hs, rfl⟩))))
  refine hstate.mono (fun s hs => hs) ?_ fun s e hs => ⟨knownTail, hs⟩
  rintro s a ⟨hs, rfl⟩
  refine ⟨t, k', hs, rows_observed t k segmentId knownTail, congrArg Except.ok ?_⟩
  have hsnapshot : ((t.rows k segmentId).state knownTail).2 = ⟨segmentId, t.localTail segmentId,
      (t.row segmentId).trimmedPrefix, max (k segmentId) knownTail, (t.row segmentId).sealed⟩ :=
    rfl
  rw [hsnapshot, t.localTail_eq]
  simp only [reportOf, Tables.row, k', observed, Function.update_self]

/-- What an operation does to the rows, and what an operation that raises leaves. -/
theorem operation (op : StoreOperation) :
    Solo (Idle t k) (Sql.operation op)
      (fun w reply => ∃ t' k', Idle t' k' w ∧ Updates (t.rows k) op.segmentId
        ((t.rows k op.segmentId).apply .sqlite op) (t'.rows k') reply)
      (fun w e => ∃ n, Idle t (observed k op.segmentId n) w ∧
        Raises ((t.rows k op.segmentId).apply .sqlite op).2 e) := by
  cases op with
  | put entry knownTail => exact reply (fun _ => .done) (write entry knownTail true true)
  | repair entry knownTail => exact reply (fun _ => .done) (write entry knownTail false false)
  | prefixTrim segmentId trimPosition =>
      have h := reply .watermark (prefixTrim (t := t) (k := k) segmentId trimPosition)
      rw [trimmed] at h
      rw [LogletStore.apply]
      split at h
      · next hneg => 
          rw [if_pos hneg]
          exact h
      · next hneg =>
          rw [if_neg hneg]
          exact h
  | sealSegment segmentId knownTail =>
      exact reply (fun _ => .done) (sealSegment segmentId knownTail)
  | get segmentId position knownTail => exact reply .entry (get segmentId position knownTail)
  | state segmentId knownTail => exact reply .state (state segmentId knownTail)

end Solo

theorem idle_initial : Idle ⟨[], []⟩ (fun _ => 0) model.initial := ⟨rfl, rfl, rfl⟩

/-- Between two operations nobody is inside the lock. -/
theorem idle {w : World} (h : model.Reachable w) : ∃ t k, Idle t k w := by
  induction h with
  | refl => exact ⟨_, _, idle_initial⟩
  | tail _ hstep ih =>
      obtain ⟨t, k, hw⟩ := ih
      cases hstep with
      | operation op reply hr =>
          obtain ⟨script, script', result, hrun, -⟩ := hr
          cases result with
          | ok a =>
              obtain ⟨t', k', hidle, -⟩ := (Solo.operation op).ok hw hrun
              exact ⟨t', k', hidle⟩
          | error e =>
              obtain ⟨n, hidle, -⟩ := (Solo.operation op).error hw hrun
              exact ⟨t, _, hidle⟩
      | restart hr =>
          cases hr
          exact ⟨_, _, rfl, rfl, rfl⟩

theorem segment_of_idle {t : Tables} {k : String → Nat} {w : World} (h : Idle t k w) :
    model.segment w = t.rows k := by
  show w.connection.committed.rows w.knownTails = t.rows k
  rw [h.connection, h.knownTails]
  rfl

theorem conforms : model.Conforms .sqlite where
  initial := fun _ => rfl
  done := fun {w op w' reply} hw hr => by
    obtain ⟨t, k, hidle⟩ := idle hw
    obtain ⟨script, script', result, hrun, hreply⟩ := hr
    cases result with
    | ok a =>
        cases hreply
        obtain ⟨t', k', hidle', hrows, hresult⟩ := (Solo.operation op).ok hidle hrun
        rw [segment_of_idle hidle, segment_of_idle hidle']
        exact ⟨hrows, hresult⟩
    | error e => cases hreply
  raised := fun {w op w'} hw hr => by
    obtain ⟨t, k, hidle⟩ := idle hw
    obtain ⟨script, script', result, hrun, hreply⟩ := hr
    cases result with
    | ok a => cases hreply
    | error e =>
        obtain ⟨n, hidle', -⟩ := (Solo.operation op).error hidle hrun
        rw [segment_of_idle hidle, segment_of_idle hidle']
        exact ⟨n, rows_observed t k op.segmentId n⟩
  restarts := fun {w w'} hw hr segmentId => by
    cases hr
    rfl

end Sql

/-- Both stores keep the laws, whatever operations run on which segments, and however often
the SQLite store is opened again. -/
theorem store_laws : MemoryStore.model.Laws ∧ Sql.model.Laws :=
  ⟨MemoryStore.conforms.laws, Sql.conforms.laws⟩

end DelosLab.NativeLoglet
