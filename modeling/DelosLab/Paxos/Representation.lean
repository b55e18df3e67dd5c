import DelosLab.Paxos.Register

/-!
# The representation of an acceptor

What the validators of a saved state check, the four operations keep: the slots stay
sorted and unique, an accepted pair stays whole and below the promise, and `decide` goes on
until the slot after the last applied one is not decided.
-/

namespace DelosLab.Paxos

variable {P : Type}

/-! ## Replacing a slot -/

instance : Std.Total fun a b : AcceptorSlotState P => a.slot ≤ b.slot :=
  ⟨fun a b => Nat.le_total a.slot b.slot⟩

instance : IsTrans (AcceptorSlotState P) fun a b => a.slot ≤ b.slot :=
  ⟨fun _ _ _ => Nat.le_trans⟩

theorem mem_replaceSlot {state : PersistentPaxosState P} {changed s : AcceptorSlotState P}
    (h : s ∈ (replaceSlot state changed).slots) : s = changed ∨ s ∈ state.slots := by
  rw [replaceSlot, List.mem_insertionSort, List.mem_append] at h
  rcases h with hold | hnew
  · exact .inr (List.mem_filter.mp hold).1
  · exact .inl (List.mem_singleton.mp hnew)

/-- One state for a slot, in the order of the slots. -/
def PersistentPaxosState.Ordered (state : PersistentPaxosState P) : Prop :=
  state.slots.Pairwise fun a b => a.slot < b.slot

theorem PersistentPaxosState.Ordered.nodup {state : PersistentPaxosState P} (h : state.Ordered) :
    (state.slots.map AcceptorSlotState.slot).Nodup := by
  rw [List.Nodup, List.pairwise_map]
  exact h.imp Nat.ne_of_lt

theorem PersistentPaxosState.Ordered.replaceSlot {state : PersistentPaxosState P}
    (h : state.Ordered) (changed : AcceptorSlotState P) : (replaceSlot state changed).Ordered := by
  have hnodup : (((state.slots.filter fun s => s.slot != changed.slot) ++ [changed]).map
      AcceptorSlotState.slot).Nodup := by
    rw [List.map_append, List.nodup_append]
    refine ⟨h.nodup.sublist ((List.filter_sublist).map _), List.nodup_singleton _, ?_⟩
    intro n hn m hm heq
    obtain ⟨s, hs, rfl⟩ := List.mem_map.mp hn
    rw [List.map_singleton, List.mem_singleton] at hm
    have hne := (List.mem_filter.mp hs).2
    rw [heq, hm] at hne
    simp at hne
  have hsorted := List.pairwise_insertionSort (fun a b : AcceptorSlotState P => a.slot ≤ b.slot)
    ((state.slots.filter fun s => s.slot != changed.slot) ++ [changed])
  have hperm := (List.perm_insertionSort (fun a b : AcceptorSlotState P => a.slot ≤ b.slot)
    ((state.slots.filter fun s => s.slot != changed.slot) ++ [changed])).map AcceptorSlotState.slot
  have hdistinct := hperm.nodup_iff.mpr hnodup
  rw [List.Nodup, List.pairwise_map] at hdistinct
  exact (hsorted.and hdistinct).imp fun hle => Nat.lt_of_le_of_ne hle.1 hle.2

/-! ## The loop of decide stops at an open slot -/

theorem exists_of_decided {state : PersistentPaxosState P} {n : Nat}
    (h : state.decided n ≠ none) :
    ∃ s ∈ state.slots, s.slot = n ∧ s.decidedValue.isSome = true := by
  rw [PersistentPaxosState.decided, PersistentPaxosState.slot] at h
  cases hs : state.slots.find? fun s => s.slot == n with
  | none =>
      rw [hs] at h
      exact absurd rfl h
  | some s =>
      rw [hs] at h
      have hslot := List.find?_some hs
      exact ⟨s, List.mem_of_find?_eq_some hs, beq_iff_eq.mp hslot,
        Option.isSome_iff_ne_none.mpr h⟩

/-- The slots that may still be applied. -/
def PersistentPaxosState.ahead (state : PersistentPaxosState P) (lastApplied : Nat) : Nat :=
  state.slots.countP fun s => lastApplied < s.slot

/-- A decided slot that is applied is no longer ahead. -/
theorem ahead_succ_lt {state : PersistentPaxosState P} {lastApplied : Nat}
    (h : state.decided (lastApplied + 1) ≠ none) :
    state.ahead (lastApplied + 1) < state.ahead lastApplied := by
  obtain ⟨s, hs, hslot, -⟩ := exists_of_decided h
  obtain ⟨l, r, hl⟩ := List.append_of_mem hs
  have hmono : ∀ l : List (AcceptorSlotState P),
      l.countP (fun s => lastApplied + 1 < s.slot) ≤ l.countP fun s => lastApplied < s.slot := by
    intro l
    refine List.countP_mono_left fun x _ hx => ?_
    simp only [decide_eq_true_eq] at hx ⊢
    omega
  have hafter : ¬lastApplied + 1 < s.slot := by omega
  have hbefore : lastApplied < s.slot := by omega
  have h₁ := hmono l
  have h₂ := hmono r
  rw [PersistentPaxosState.ahead, PersistentPaxosState.ahead, hl]
  simp only [List.countP_append, List.countP_cons, decide_eq_true_eq, if_pos hbefore,
    if_neg hafter]
  omega

/-- With a turn for every slot ahead, the loop stops at a slot that is not decided. -/
theorem PaxosAcceptor.applyDecided_stops (state : PersistentPaxosState P) {turns : Nat}
    {applied : PaxosAcceptor.Applied P} (h : state.ahead applied.lastApplied ≤ turns) :
    state.decided ((PaxosAcceptor.applyDecided state turns applied).lastApplied + 1) = none := by
  induction turns generalizing applied with
  | zero =>
      rw [PaxosAcceptor.applyDecided]
      by_contra hdecided
      have hlt := ahead_succ_lt hdecided
      omega
  | succ turns ih =>
      rw [PaxosAcceptor.applyDecided]
      simp only
      split
      · next hnone => exact hnone
      · next value hvalue =>
          have hlt : state.ahead (applied.lastApplied + 1) < state.ahead applied.lastApplied :=
            ahead_succ_lt (show state.decided (applied.lastApplied + 1) ≠ none by
              rw [PersistentPaxosState.decided, hvalue]
              rintro ⟨⟩)
          exact ih (show state.ahead (applied.lastApplied + 1) ≤ turns by omega)

/-! ## What the operations keep -/

/-- The accepted pair of a slot is whole and its ballot is promised. -/
structure AcceptorSlotState.Sound (s : AcceptorSlotState P) : Prop where
  positive : 1 ≤ s.slot
  together : s.acceptedBallot.isNone = s.acceptedValue.isNone
  promised : ∀ b, s.acceptedBallot = some b → ∃ p, s.promisedBallot = some p ∧ b ≤ p

theorem AcceptorSlotState.Sound.valid {s : AcceptorSlotState P} (h : s.Sound) : s.Valid := by
  refine ⟨h.positive, h.together, fun b hb p hp => ?_⟩
  obtain ⟨p', hp', hle⟩ := h.promised b hb
  rw [hp] at hp'
  cases hp'
  exact hle

/-- What holds of an acceptor between two operations. -/
structure PaxosAcceptor.Representation (a : PaxosAcceptor P) : Prop where
  wellFormed : a.WellFormed
  ordered : a.state.Ordered
  slots : ∀ s ∈ a.state.slots, s.Sound
  next : a.state.decided (a.state.lastApplied + 1) = none

/-- The validators accept the state. -/
theorem PaxosAcceptor.Representation.valid {a : PaxosAcceptor P} (h : a.Representation) :
    a.state.Valid where
  slots := fun s hs => (h.slots s hs).valid
  sorted := by
    refine (List.Pairwise.insertionSort_eq ?_).symm
    rw [List.pairwise_map]
    exact h.ordered.imp Nat.le_of_lt
  unique := h.ordered.nodup
  decided := by
    intro n hn
    rw [List.mem_range'_1] at hn
    exact exists_of_decided (h.wellFormed.applied n hn.1 (by omega))

/-- A slot that was never written is sound. -/
theorem PaxosAcceptor.Representation.slot {a : PaxosAcceptor P} (h : a.Representation) {n : Nat}
    (hn : 1 ≤ n) : (a.state.slot n).Sound := by
  rw [PersistentPaxosState.slot]
  cases hs : a.state.slots.find? fun s => s.slot == n with
  | none => exact ⟨hn, rfl, by rintro _ ⟨⟩⟩
  | some s => exact h.slots s (List.mem_of_find?_eq_some hs)

theorem PaxosAcceptor.Representation.create (nodeId : String) :
    (PaxosAcceptor.create nodeId (.empty : PersistentPaxosState P)).Representation := by
  have happlied : ∀ slot, 1 ≤ slot → slot ≤ 0 →
      (PersistentPaxosState.empty : PersistentPaxosState P).decided slot ≠ none := by
    intro slot hpos hle
    omega
  exact ⟨⟨rfl, rfl, rfl, happlied, nofun⟩, .nil, nofun, rfl⟩

/-- Setting a slot without deciding it. -/
theorem PaxosAcceptor.Representation.setSlot {a : PaxosAcceptor P} (h : a.Representation)
    {changed : AcceptorSlotState P} (hs : changed.Sound)
    (hd : changed.decidedValue = a.state.decided changed.slot) :
    (a.setSlot changed).Representation where
  wellFormed := h.wellFormed.setSlot hd
  ordered := h.ordered.replaceSlot changed
  slots := by
    intro s hmem
    rcases mem_replaceSlot hmem with rfl | hold
    · exact hs
    · exact h.slots s hold
  next := (decided_replaceSlot hd _).trans h.next

theorem PaxosAcceptor.Representation.reserveBallot {a : PaxosAcceptor P} (h : a.Representation)
    (minimumRound : Nat) (saves : Bool) :
    (a.reserveBallot minimumRound saves).1.Representation := by
  refine ⟨h.wellFormed.reserveBallot minimumRound saves, ?_, ?_, ?_⟩ <;>
    cases saves
  · exact h.ordered
  · exact h.ordered
  · exact h.slots
  · exact h.slots
  · exact h.next
  · exact h.next

theorem PaxosAcceptor.Representation.prepare {a : PaxosAcceptor P} (h : a.Representation)
    {request : PrepareRequest} (hpos : 1 ≤ request.slot) (saves : Bool) :
    (a.prepare request saves).1.Representation := by
  rcases a.prepare_cases request saves with heq | ⟨promised, -, heq⟩ | ⟨hb, heq⟩
  · rw [heq]
    exact h
  · rw [heq]
    exact h
  · rw [heq]
    have hs := h.slot hpos
    refine h.setSlot ⟨hs.positive, hs.together, fun b hacc => ?_⟩
      (congrArg a.state.decided (slot_slot _ _).symm)
    obtain ⟨p, hp, hle⟩ := hs.promised b hacc
    exact ⟨request.ballot, rfl, le_trans hle (AcceptorSlotState.le_of_outbid hb hp)⟩

theorem PaxosAcceptor.advances_prepare (a : PaxosAcceptor P) (request : PrepareRequest)
    (saves : Bool) : a.Advances (a.prepare request saves).1 := by
  rcases a.prepare_cases request saves with heq | ⟨promised, -, heq⟩ | ⟨hb, heq⟩
  · rw [heq]
    exact .refl a
  · rw [heq]
    exact .refl a
  · rw [heq]
    have hslot : ((a.state.slot request.slot).withPromise request.ballot).slot = request.slot :=
      slot_slot _ _
    exact PaxosAcceptor.advances_setSlot (hslot.symm ▸ hb) rfl
      (congrArg a.state.decided hslot.symm)

section Decide

variable [DecidableEq P]

theorem PaxosAcceptor.advances_accept (a : PaxosAcceptor P) (request : AcceptRequest P)
    (saves : Bool) : a.Advances (a.accept request saves).1 := by
  rcases a.accept_cases request saves with ⟨⟨message, heq⟩, -⟩ | heq | ⟨promised, heq⟩ | ⟨hb, heq⟩
  · rw [heq]
    exact .refl a
  · rw [heq]
    exact .refl a
  · rw [heq]
    exact .refl a
  · rw [heq]
    have hslot : ((a.state.slot request.slot).withVote request.ballot request.value).slot =
        request.slot := slot_slot _ _
    exact PaxosAcceptor.advances_setSlot (hslot.symm ▸ hb) rfl
      (congrArg a.state.decided hslot.symm)

theorem PaxosAcceptor.Representation.accept {a : PaxosAcceptor P} (h : a.Representation)
    {request : AcceptRequest P} (hpos : 1 ≤ request.slot) (saves : Bool) :
    (a.accept request saves).1.Representation := by
  rcases a.accept_cases request saves with ⟨⟨message, heq⟩, -⟩ | heq | ⟨promised, heq⟩ | ⟨hb, heq⟩
  · rw [heq]
    exact h
  · rw [heq]
    exact h
  · rw [heq]
    exact h
  · rw [heq]
    refine h.setSlot ⟨(h.slot hpos).positive, rfl, fun b hacc => ?_⟩
      (congrArg a.state.decided (slot_slot _ _).symm)
    cases hacc
    exact ⟨request.ballot, rfl, le_refl _⟩

/-- Deciding fills the gap and applies every slot that follows it. -/
theorem PaxosAcceptor.Representation.decide {a : PaxosAcceptor P} (h : a.Representation)
    {request : DecideRequest P} (hpos : 1 ≤ request.slot) (saves : Bool) :
    (a.decide request saves).1.Representation := by
  rcases a.decide_cases request saves with ⟨value, -, ⟨-, heq⟩ | ⟨-, message, heq⟩⟩ |
    ⟨hnone, heq | ⟨stop, hstop, heq⟩⟩
  · rw [heq]
    exact h
  · rw [heq]
    exact h
  · rw [heq]
    exact h
  · rw [heq, hstop]
    refine ⟨h.wellFormed.applied_wellFormed hnone _, ?_, ?_, ?_⟩
    · exact h.ordered.replaceSlot _
    · intro s hmem
      rcases mem_replaceSlot hmem with rfl | hold
      · have hs := h.slot hpos
        exact ⟨hs.positive, hs.together, hs.promised⟩
      · exact h.slots s hold
    · exact PaxosAcceptor.applyDecided_stops _ List.countP_le_length

end Decide

end DelosLab.Paxos
