import Mathlib.Data.List.Sort
import Mathlib.Data.Prod.Lex
import Mathlib.Data.String.Basic
import DelosLab.VirtualLog.MetaStore

/-!
# Paxos values, acceptor state and messages

The MetaStore runs one Paxos instance in each slot; what a slot decides is a
command of the versioned register.
-/

namespace DelosLab.Paxos

open VirtualLog (LogChain VersionedLogChain CompareAndSetResult)

@[ext] structure Ballot where
  round : Nat
  nodeId : String
  positive : 1 ≤ round
  named : nodeId ≠ ""

instance : DecidableEq Ballot := fun _ _ => decidable_of_iff _ Ballot.ext_iff.symm

/-- `(self.round, self.node_id) < (other.round, other.node_id)`. -/
instance : LinearOrder Ballot :=
  LinearOrder.lift' (fun b => toLex (b.round, b.nodeId)) (by
    intro a b h
    have h' := Prod.mk.inj (toLex.injective h)
    exact Ballot.ext h'.1 h'.2)

inductive PaxosCommand (P : Type) : Type where
  | compareAndSet (expectedVersion : Nat) (newChain : LogChain P)
  | readBarrier
deriving DecidableEq

structure PaxosValue (P : Type) where
  command : PaxosCommand P
deriving DecidableEq

structure AcceptorSlotState (P : Type) where
  slot : Nat
  promisedBallot : Option Ballot
  acceptedBallot : Option Ballot
  acceptedValue : Option (PaxosValue P)
  decidedValue : Option (PaxosValue P)
deriving DecidableEq

/-- `AcceptorSlotState(slot=slot)`. -/
def AcceptorSlotState.empty {P : Type} (slot : Nat) : AcceptorSlotState P :=
  ⟨slot, none, none, none, none⟩

structure PersistentPaxosState (P : Type) where
  localRound : Nat
  slots : List (AcceptorSlotState P)
  lastApplied : Nat
  stateMachine : VersionedLogChain P
deriving DecidableEq

/-- `PersistentPaxosState()`. -/
def PersistentPaxosState.empty {P : Type} : PersistentPaxosState P :=
  ⟨0, [], 0, VersionedLogChain.zero⟩

structure PrepareRequest where
  slot : Nat
  ballot : Ballot
deriving DecidableEq

structure PrepareResponse (P : Type) where
  promised : Bool
  promisedBallot : Ballot
  acceptedBallot : Option Ballot
  acceptedValue : Option (PaxosValue P)
  decidedValue : Option (PaxosValue P)
deriving DecidableEq

structure AcceptRequest (P : Type) where
  slot : Nat
  ballot : Ballot
  value : PaxosValue P
deriving DecidableEq

structure AcceptResponse where
  accepted : Bool
  promisedBallot : Ballot
deriving DecidableEq

structure DecideRequest (P : Type) where
  slot : Nat
  value : PaxosValue P
deriving DecidableEq

inductive Error : Type where
  | noQuorum (message : String)
  | safety (message : String)
  | keyError (slot : Nat)
  | typeError (message : String)
  | storage   -- `storage.save` raised
  | validation   -- the fields of a model are out of bounds
  | cancelled
deriving DecidableEq

/-! ## The state machine of the register -/

inductive StateMachineResult (P : Type) : Type where
  | swapped (result : CompareAndSetResult P)
  | snapshot (snapshot : VersionedLogChain P)
deriving DecidableEq

variable {P : Type}

/-- `VersionRegisterStateMachine.apply`: the snapshot afterwards, and the result. -/
def apply (snapshot : VersionedLogChain P) :
    PaxosCommand P → VersionedLogChain P × StateMachineResult P
  | .readBarrier => (snapshot, .snapshot snapshot)
  | .compareAndSet expectedVersion newChain =>
      if snapshot.version ≠ expectedVersion then (snapshot, .swapped (.versionMismatch snapshot))
      else
        let next := VersionedLogChain.installed expectedVersion newChain
        (next, .swapped (.applied next))

/-- A command moves the register by one version or not at all. -/
theorem version_le_apply (snapshot : VersionedLogChain P) (command : PaxosCommand P) :
    snapshot.version ≤ (apply snapshot command).1.version := by
  cases command with
  | readBarrier => exact Nat.le_refl _
  | compareAndSet expectedVersion newChain =>
      by_cases h : snapshot.version = expectedVersion
      · rw [apply, if_neg (not_not_intro h), h]
        exact Nat.le_succ _
      · rw [apply, if_pos h]

/-! ## Slots -/

/-- `PaxosAcceptor._slot`. -/
def PersistentPaxosState.slot (state : PersistentPaxosState P) (slotNumber : Nat) :
    AcceptorSlotState P :=
  (state.slots.find? fun s => s.slot == slotNumber).getD (AcceptorSlotState.empty slotNumber)

def replaceSlot (state : PersistentPaxosState P) (changed : AcceptorSlotState P) :
    PersistentPaxosState P :=
  let slots := (state.slots.filter fun s => s.slot != changed.slot) ++ [changed]
  { state with slots := slots.insertionSort fun a b => a.slot ≤ b.slot }

/-- Sorting by slot keeps the first entry of every slot. -/
theorem find?_orderedInsert (x : AcceptorSlotState P) (n : Nat) (l : List (AcceptorSlotState P)) :
    (l.orderedInsert (fun a b => a.slot ≤ b.slot) x).find? (fun s => s.slot == n) =
      (x :: l).find? fun s => s.slot == n := by
  induction l with
  | nil => rfl
  | cons y l ih =>
      rw [List.orderedInsert_cons]
      split
      · rfl
      · next hlt =>
          by_cases hy : y.slot = n
          · have hx : (x.slot == n) = false := by simp; omega
            simp [hy, hx]
          · have hy' : (y.slot == n) = false := by simp [hy]
            rw [List.find?_cons, hy', ih]
            simp [List.find?_cons, hy']

theorem find?_insertionSort (n : Nat) (l : List (AcceptorSlotState P)) :
    (l.insertionSort fun a b => a.slot ≤ b.slot).find? (fun s => s.slot == n) =
      l.find? fun s => s.slot == n := by
  induction l with
  | nil => rfl
  | cons x l ih =>
      rw [List.insertionSort_cons, find?_orderedInsert, List.find?_cons, List.find?_cons, ih]

theorem find?_filter_ne {n m : Nat} (h : n ≠ m) (l : List (AcceptorSlotState P)) :
    (l.filter fun s => s.slot != m).find? (fun s => s.slot == n) =
      l.find? fun s => s.slot == n := by
  rw [List.find?_filter]
  congr 1
  funext s
  by_cases hs : s.slot = n
  · simp [hs, h]
  · simp [hs]

theorem find?_replaceSlot (state : PersistentPaxosState P) (changed : AcceptorSlotState P)
    (n : Nat) :
    (replaceSlot state changed).slots.find? (fun s => s.slot == n) =
      if n = changed.slot then some changed else state.slots.find? fun s => s.slot == n := by
  simp only [replaceSlot]
  rw [find?_insertionSort, List.find?_append]
  split
  · next h =>
      subst h
      have hnone : (state.slots.filter fun s => s.slot != changed.slot).find?
          (fun s => s.slot == changed.slot) = none := by
        rw [List.find?_eq_none]
        intro s hs
        simpa using (List.mem_filter.mp hs).2
      rw [hnone]
      simp
  · next h =>
      have hne : (changed.slot == n) = false := by simp; omega
      rw [find?_filter_ne h]
      simp [hne]

theorem slot_replaceSlot_of_eq {state : PersistentPaxosState P} {changed : AcceptorSlotState P}
    {n : Nat} (h : n = changed.slot) : (replaceSlot state changed).slot n = changed := by
  rw [PersistentPaxosState.slot, find?_replaceSlot, if_pos h]
  rfl

@[simp] theorem slot_replaceSlot_self (state : PersistentPaxosState P)
    (changed : AcceptorSlotState P) : (replaceSlot state changed).slot changed.slot = changed :=
  slot_replaceSlot_of_eq rfl

theorem slot_replaceSlot_of_ne {state : PersistentPaxosState P} {changed : AcceptorSlotState P}
    {n : Nat} (h : n ≠ changed.slot) : (replaceSlot state changed).slot n = state.slot n := by
  rw [PersistentPaxosState.slot, find?_replaceSlot, if_neg h]
  rfl

/-- A slot's state carries its own number. -/
theorem slot_slot (state : PersistentPaxosState P) (n : Nat) : (state.slot n).slot = n := by
  rw [PersistentPaxosState.slot]
  cases h : state.slots.find? fun s => s.slot == n with
  | none => rfl
  | some s =>
      have := List.find?_some h
      simpa using this

@[simp] theorem replaceSlot_localRound (state : PersistentPaxosState P)
    (changed : AcceptorSlotState P) : (replaceSlot state changed).localRound = state.localRound :=
  rfl

@[simp] theorem replaceSlot_lastApplied (state : PersistentPaxosState P)
    (changed : AcceptorSlotState P) :
    (replaceSlot state changed).lastApplied = state.lastApplied := rfl

/-! ## Validators -/

/-- What the field bounds and `validate_accepted_pair` accept. -/
structure AcceptorSlotState.Valid (state : AcceptorSlotState P) : Prop where
  positive : 1 ≤ state.slot
  together : state.acceptedBallot.isNone = state.acceptedValue.isNone
  bounded : ∀ accepted, state.acceptedBallot = some accepted →
    ∀ promised, state.promisedBallot = some promised → accepted ≤ promised

/-- What `validate_progress` accepts, over valid slot states. -/
structure PersistentPaxosState.Valid (state : PersistentPaxosState P) : Prop where
  slots : ∀ slot ∈ state.slots, slot.Valid
  sorted : state.slots.map AcceptorSlotState.slot =
    (state.slots.map AcceptorSlotState.slot).insertionSort fun a b => a ≤ b
  unique : (state.slots.map AcceptorSlotState.slot).Nodup
  decided : ∀ number ∈ List.range' 1 state.lastApplied,
    ∃ slot ∈ state.slots, slot.slot = number ∧ slot.decidedValue.isSome

instance (state : AcceptorSlotState P) : Decidable state.Valid :=
  decidable_of_iff (1 ≤ state.slot ∧ state.acceptedBallot.isNone = state.acceptedValue.isNone ∧
      (state.acceptedBallot.all fun accepted =>
        state.promisedBallot.all fun promised => decide (accepted ≤ promised)) = true)
    ⟨fun h => ⟨h.1, h.2.1, by simpa [Option.all_eq_true] using h.2.2⟩,
      fun h => ⟨h.positive, h.together, by simpa [Option.all_eq_true] using h.bounded⟩⟩

instance (state : PersistentPaxosState P) : Decidable state.Valid :=
  decidable_of_iff ((∀ slot ∈ state.slots, slot.Valid) ∧
      state.slots.map AcceptorSlotState.slot =
        ((state.slots.map AcceptorSlotState.slot).insertionSort fun a b => a ≤ b) ∧
      (state.slots.map AcceptorSlotState.slot).Nodup ∧
      ∀ number ∈ List.range' 1 state.lastApplied,
        ∃ slot ∈ state.slots, slot.slot = number ∧ slot.decidedValue.isSome)
    ⟨fun h => ⟨h.1, h.2.1, h.2.2.1, h.2.2.2⟩, fun h => ⟨h.slots, h.sorted, h.unique, h.decided⟩⟩

end DelosLab.Paxos
