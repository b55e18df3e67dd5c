import DelosLab.Paxos.Register

/-!
# SQLitePaxosStorage

The tables of a Paxos node, and `load` and `save` on them. A save is one transaction, any
statement of which may be refused; what it committed is what the next load reads.
-/

namespace DelosLab.Paxos

open VirtualLog (LogChain VersionedLogChain)

/-- `model_dump_json` and `model_validate_json` of a model, over the texts `J`. -/
structure Codec (J α : Type) where
  dump : α → J
  validate : J → Option α
  validate_dump : ∀ a, validate (dump a) = some a

/-- The models that the tables hold as texts. -/
structure Codecs (J P : Type) where
  ballot : Codec J Ballot
  value : Codec J (PaxosValue P)
  chain : Codec J (LogChain P)

/-- A row of `paxos_slots`. -/
structure SlotRow (J : Type) where
  slot : Nat
  promisedBallotJson : Option J
  acceptedBallotJson : Option J
  acceptedValueJson : Option J
  decidedValueJson : Option J
deriving DecidableEq

/-- `paxos_node`, `paxos_slots` and `version_register`; the first and the last have the one
row that `open` inserts. -/
structure PaxosTables (J : Type) where
  localRound : Nat
  lastApplied : Nat
  slots : List (SlotRow J)
  version : Nat
  chainJson : Option J
deriving DecidableEq

variable {J P : Type}

/-- The tables that `open` creates. -/
def PaxosTables.empty : PaxosTables J := ⟨0, 0, [], 0, none⟩

/-! ## Saving -/

def SlotRow.ofSlot (codecs : Codecs J P) (slot : AcceptorSlotState P) : SlotRow J where
  slot := slot.slot
  promisedBallotJson := slot.promisedBallot.map codecs.ballot.dump
  acceptedBallotJson := slot.acceptedBallot.map codecs.ballot.dump
  acceptedValueJson := slot.acceptedValue.map codecs.value.dump
  decidedValueJson := slot.decidedValue.map codecs.value.dump

/-- `INSERT INTO paxos_slots` of many rows; `slot` is the primary key. -/
def insertSlots (rows : List (SlotRow J)) : List (SlotRow J) → Except Error (List (SlotRow J))
  | [] => .ok rows
  | row :: rest =>
      if rows.any fun r => r.slot == row.slot then .error .storage
      else insertSlots (rows ++ [row]) rest

abbrev PaxosStatement (J : Type) : Type := PaxosTables J → Except Error (PaxosTables J)

/-- The statements of `save`, from `BEGIN IMMEDIATE` to the commit. -/
def saveStatements (codecs : Codecs J P) (state : PersistentPaxosState P) :
    List (PaxosStatement J) :=
  [.ok,
    fun t => .ok { t with localRound := state.localRound, lastApplied := state.lastApplied },
    fun t => .ok { t with slots := [] },
    fun t => do
      let slots ← insertSlots t.slots (state.slots.map (SlotRow.ofSlot codecs))
      .ok { t with slots := slots },
    fun t => .ok { t with
      version := state.stateMachine.version
      chainJson := state.stateMachine.chain.map codecs.chain.dump },
    .ok]

/-- The statements in their order; a refused one raises. -/
def runStatements : List (PaxosStatement J) → List Bool → PaxosStatement J
  | [], _, t => .ok t
  | _ :: _, true :: _, _ => .error .storage
  | statement :: rest, false :: refused, t => do
      let t ← statement t
      runStatements rest refused t
  | statement :: rest, [], t => do
      let t ← statement t
      runStatements rest [] t

/-- `save`: a transaction that raises is rolled back. -/
def PaxosTables.save (codecs : Codecs J P) (t : PaxosTables J) (state : PersistentPaxosState P)
    (refused : List Bool) : PaxosTables J × Except Error Unit :=
  match runStatements (saveStatements codecs state) refused t with
  | .ok t' => (t', .ok ())
  | .error e => (t, .error e)

/-! ## Loading -/

/-- `None if json is None else Model.model_validate_json(json)`. -/
def Codec.read {α : Type} (codec : Codec J α) : Option J → Except Error (Option α)
  | none => .ok none
  | some json =>
      match codec.validate json with
      | some a => .ok (some a)
      | none => .error .validation

/-- `AcceptorSlotState(...)` of a row. -/
def SlotRow.toSlot (codecs : Codecs J P) (row : SlotRow J) :
    Except Error (AcceptorSlotState P) := do
  let promisedBallot ← codecs.ballot.read row.promisedBallotJson
  let acceptedBallot ← codecs.ballot.read row.acceptedBallotJson
  let acceptedValue ← codecs.value.read row.acceptedValueJson
  let decidedValue ← codecs.value.read row.decidedValueJson
  let slot : AcceptorSlotState P :=
    ⟨row.slot, promisedBallot, acceptedBallot, acceptedValue, decidedValue⟩
  if slot.Valid then .ok slot else .error .validation

/-- `SELECT ... FROM paxos_slots ORDER BY slot`. -/
def PaxosTables.slotRows (t : PaxosTables J) : List (SlotRow J) :=
  t.slots.insertionSort fun a b => a.slot ≤ b.slot

/-- `load`: every model is validated again. -/
def PaxosTables.load (codecs : Codecs J P) (t : PaxosTables J) :
    Except Error (PersistentPaxosState P) := do
  let slots ← t.slotRows.mapM (SlotRow.toSlot codecs)
  let chain ← codecs.chain.read t.chainJson
  if initial : t.version = 0 ↔ chain = none then
    let state : PersistentPaxosState P :=
      ⟨t.localRound, slots, t.lastApplied, ⟨t.version, chain, initial⟩⟩
    if state.Valid then .ok state else .error .validation
  else .error .validation

/-! ## A saved state is loaded again -/

theorem Codec.read_dump {α : Type} (codec : Codec J α) (a : Option α) :
    codec.read (a.map codec.dump) = .ok a := by
  cases a with
  | none => rfl
  | some a =>
      rw [Option.map_some, read, codec.validate_dump]

theorem SlotRow.toSlot_ofSlot (codecs : Codecs J P) {slot : AcceptorSlotState P}
    (h : slot.Valid) : (SlotRow.ofSlot codecs slot).toSlot codecs = .ok slot := by
  rw [toSlot, ofSlot]
  simp only [Codec.read_dump]
  exact if_pos h

theorem mapM_toSlot (codecs : Codecs J P) {slots : List (AcceptorSlotState P)}
    (h : ∀ slot ∈ slots, slot.Valid) :
    (slots.map (SlotRow.ofSlot codecs)).mapM (SlotRow.toSlot codecs) = .ok slots := by
  induction slots with
  | nil => rfl
  | cons slot slots ih =>
      rw [List.map_cons, List.mapM_cons, SlotRow.toSlot_ofSlot codecs (h slot List.mem_cons_self),
        ih fun s hs => h s (List.mem_cons_of_mem _ hs)]
      rfl

/-- Rows with different keys are all inserted. -/
theorem insertSlots_eq {rows new : List (SlotRow J)}
    (h : ((rows ++ new).map SlotRow.slot).Nodup) : insertSlots rows new = .ok (rows ++ new) := by
  induction new generalizing rows with
  | nil => rw [insertSlots, List.append_nil]
  | cons row new ih =>
      have hfree : ¬(rows.any fun r => r.slot == row.slot) = true := by
        intro hany
        obtain ⟨r, hr, heq⟩ := List.any_eq_true.mp hany
        rw [List.map_append, List.nodup_append] at h
        exact h.2.2 r.slot (List.mem_map_of_mem hr) row.slot
          (List.mem_map_of_mem List.mem_cons_self) (beq_iff_eq.mp heq)
      rw [insertSlots, if_neg hfree, ih]
      · rw [List.append_assoc, List.singleton_append]
      · rwa [List.append_assoc, List.singleton_append]

/-- What the tables hold for a state. -/
def PaxosTables.ofState (codecs : Codecs J P) (state : PersistentPaxosState P) :
    PaxosTables J where
  localRound := state.localRound
  lastApplied := state.lastApplied
  slots := state.slots.map (SlotRow.ofSlot codecs)
  version := state.stateMachine.version
  chainJson := state.stateMachine.chain.map codecs.chain.dump

theorem slot_ofSlot (codecs : Codecs J P) (slots : List (AcceptorSlotState P)) :
    (slots.map (SlotRow.ofSlot codecs)).map SlotRow.slot = slots.map AcceptorSlotState.slot := by
  rw [List.map_map]
  rfl

theorem saveStatements_spec (codecs : Codecs J P) {state : PersistentPaxosState P}
    (h : state.Valid) (t : PaxosTables J) :
    runStatements (saveStatements codecs state) [] t = .ok (.ofState codecs state) := by
  have hinsert : insertSlots [] (state.slots.map (SlotRow.ofSlot codecs)) =
      .ok (state.slots.map (SlotRow.ofSlot codecs)) := by
    refine insertSlots_eq ?_
    rw [List.nil_append, slot_ofSlot]
    exact h.unique
  simp only [saveStatements, runStatements, bind, Except.bind, hinsert]
  rfl

/-- A refusal that does not come changes nothing. -/
theorem runStatements_of_ok {statements : List (PaxosStatement J)} {refused : List Bool}
    {t t' : PaxosTables J} (h : runStatements statements refused t = .ok t') :
    runStatements statements [] t = .ok t' := by
  induction statements generalizing refused t with
  | nil => exact h
  | cons statement rest ih =>
      cases refused with
      | nil => exact h
      | cons r refused =>
          cases r with
          | true => cases h
          | false =>
              simp only [runStatements] at h ⊢
              cases hs : statement t with
              | error e =>
                  rw [hs] at h
                  cases h
              | ok t₁ =>
                  rw [hs] at h
                  exact ih h

/-- A save either replaces everything, or raises and changes nothing. -/
theorem PaxosTables.save_cases (codecs : Codecs J P) (t : PaxosTables J)
    {state : PersistentPaxosState P} (h : state.Valid) (refused : List Bool) :
    t.save codecs state refused = (.ofState codecs state, .ok ()) ∨
      ∃ e, t.save codecs state refused = (t, .error e) := by
  rw [save]
  cases hr : runStatements (saveStatements codecs state) refused t with
  | error e => exact .inr ⟨e, rfl⟩
  | ok t' =>
      have hall := runStatements_of_ok hr
      rw [saveStatements_spec codecs h] at hall
      cases hall
      exact .inl rfl

/-- Statements that are not refused save the state. -/
theorem PaxosTables.save_valid (codecs : Codecs J P) (t : PaxosTables J)
    {state : PersistentPaxosState P} (h : state.Valid) :
    t.save codecs state [] = (.ofState codecs state, .ok ()) := by
  rw [save, saveStatements_spec codecs h]

/-- **A load after a save gives the saved state back.** -/
theorem PaxosTables.load_ofState (codecs : Codecs J P) {state : PersistentPaxosState P}
    (h : state.Valid) : (ofState codecs state).load codecs = .ok state := by
  have hrows : (ofState codecs state).slotRows = state.slots.map (SlotRow.ofSlot codecs) := by
    refine List.Pairwise.insertionSort_eq ?_
    have hsorted := List.pairwise_insertionSort (fun a b : Nat => a ≤ b)
      (state.slots.map AcceptorSlotState.slot)
    rw [← h.sorted, ← slot_ofSlot codecs, List.pairwise_map] at hsorted
    exact hsorted
  rw [load, hrows, mapM_toSlot codecs h.slots]
  have hchain : codecs.chain.read (ofState codecs state).chainJson =
      .ok state.stateMachine.chain := codecs.chain.read_dump _
  show (codecs.chain.read (ofState codecs state).chainJson >>= _) = _
  rw [hchain]
  show (if initial : state.stateMachine.version = 0 ↔ state.stateMachine.chain = none then _
    else _) = _
  rw [dif_pos state.stateMachine.initial]
  exact if_pos h

theorem PaxosTables.load_empty (codecs : Codecs J P) :
    (empty : PaxosTables J).load codecs = .ok .empty := by
  have hvalid : (PersistentPaxosState.empty : PersistentPaxosState P).Valid :=
    ⟨nofun, rfl, .nil, nofun⟩
  exact load_ofState codecs hvalid

end DelosLab.Paxos
