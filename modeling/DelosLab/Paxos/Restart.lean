import DelosLab.Paxos.Representation
import DelosLab.Paxos.SqliteStorage
import Mathlib.Logic.Relation

/-!
# An acceptor over its tables

Requests in any order, saves that are refused at any statement, and restarts in between. The
tables always hold the state of the acceptor, so an acceptor that is created from them again
answers as the old one would have.
-/

namespace DelosLab.Paxos

open VirtualLog (LogChain)

variable {J P : Type}

/-- A request to an acceptor; the slots of the messages are positive. -/
inductive AcceptorCall (P : Type) : Type where
  | reserveBallot (minimumRound : Nat)
  | prepare (request : PrepareRequest) (positive : 1 ≤ request.slot)
  | accept (request : AcceptRequest P) (positive : 1 ≤ request.slot)
  | decide (request : DecideRequest P) (positive : 1 ≤ request.slot)

inductive AcceptorAnswer (P : Type) : Type where
  | ballot (ballot : Ballot)
  | prepared (response : PrepareResponse P)
  | accepted (response : AcceptResponse)
  | decided
deriving DecidableEq

/-- An acceptor and the tables of its storage. -/
structure StoredAcceptor (J P : Type) where
  acceptor : PaxosAcceptor P
  tables : PaxosTables J

section Requests

variable [DecidableEq P]

def PaxosAcceptor.answer (self : PaxosAcceptor P) (saves : Bool) :
    AcceptorCall P → PaxosAcceptor P × Except Error (AcceptorAnswer P)
  | .reserveBallot minimumRound =>
      ((self.reserveBallot minimumRound saves).1,
        (self.reserveBallot minimumRound saves).2.map .ballot)
  | .prepare request _ =>
      ((self.prepare request saves).1, (self.prepare request saves).2.map .prepared)
  | .accept request _ =>
      ((self.accept request saves).1, (self.accept request saves).2.map .accepted)
  | .decide request _ =>
      ((self.decide request saves).1, (self.decide request saves).2.map fun _ => .decided)

/-- The state that a request saves: a request saves when a failing save fails it. -/
def PaxosAcceptor.toSave (self : PaxosAcceptor P) (call : AcceptorCall P) :
    Option (PersistentPaxosState P) :=
  match (self.answer false call).2 with
  | .error .storage => some (self.answer true call).1.state
  | _ => none

namespace StoredAcceptor

/-- A request, of whose save some statements may be refused. -/
def answer (codecs : Codecs J P) (self : StoredAcceptor J P) (refused : List Bool)
    (call : AcceptorCall P) : StoredAcceptor J P × Except Error (AcceptorAnswer P) :=
  match self.acceptor.toSave call with
  | none =>
      let answered := self.acceptor.answer true call
      (⟨answered.1, self.tables⟩, answered.2)
  | some state =>
      let saved := self.tables.save codecs state refused
      let answered := self.acceptor.answer saved.2.isOk call
      (⟨answered.1, saved.1⟩, answered.2)

/-- The answers to one request after another. -/
def answers (codecs : Codecs J P) : StoredAcceptor J P → List (List Bool × AcceptorCall P) →
    List (Except Error (AcceptorAnswer P))
  | _, [] => []
  | self, (refused, call) :: calls =>
      (self.answer codecs refused call).2 ::
        answers codecs (self.answer codecs refused call).1 calls

omit [DecidableEq P] in
/-- `PaxosAcceptor.create` over the tables. -/
def restart (codecs : Codecs J P) (self : StoredAcceptor J P) :
    Except Error (StoredAcceptor J P) := do
  let state ← self.tables.load codecs
  .ok ⟨.create self.acceptor.nodeId state, self.tables⟩

/-- A process that stops inside a request stops before or after the commit of its save, and
has given no answer; so a restart follows a request that failed or one that succeeded. -/
inductive Step (codecs : Codecs J P) (d d' : StoredAcceptor J P) : Prop where
  | request (refused : List Bool) (call : AcceptorCall P)
      (h : d' = (d.answer codecs refused call).1)
  | restart (h : d.restart codecs = .ok d')

abbrev Reaches (codecs : Codecs J P) : StoredAcceptor J P → StoredAcceptor J P → Prop :=
  Relation.ReflTransGen (Step codecs)

omit [DecidableEq P] in
/-- A node whose storage has just been opened for the first time. -/
def opened (nodeId : String) : StoredAcceptor J P := ⟨.create nodeId .empty, .empty⟩

def Reachable (codecs : Codecs J P) (nodeId : String) (d : StoredAcceptor J P) : Prop :=
  Reaches codecs (opened nodeId) d

end StoredAcceptor

/-! ## What a request does to the acceptor -/

/-- An operation saves nothing and leaves the acceptor alone, or it saves its new state and
fails when the save does. -/
def PaxosAcceptor.SavesOnce {α : Type} (a : PaxosAcceptor P)
    (op : Bool → PaxosAcceptor P × Except Error α) : Prop :=
  (∃ r, r ≠ .error .storage ∧ ∀ saves, op saves = (a, r)) ∨
    op false = (a, .error .storage) ∧ (op true).1.storage = (op true).1.state

omit [DecidableEq P] in
theorem PaxosAcceptor.savesOnce_reserveBallot (a : PaxosAcceptor P) (minimumRound : Nat) :
    a.SavesOnce (a.reserveBallot minimumRound) :=
  .inr ⟨rfl, rfl⟩

omit [DecidableEq P] in
theorem PaxosAcceptor.savesOnce_prepare (a : PaxosAcceptor P) (request : PrepareRequest) :
    a.SavesOnce (a.prepare request) := by
  cases hb : (a.state.slot request.slot).outbid request.ballot with
  | some promised =>
      refine .inl ⟨_, ?_, fun saves => by rw [PaxosAcceptor.prepare]; simp only [hb]; rfl⟩
      rintro ⟨⟩
  | none =>
      right
      simp only [PaxosAcceptor.prepare, hb]
      exact ⟨rfl, rfl⟩

theorem PaxosAcceptor.savesOnce_accept (a : PaxosAcceptor P) (request : AcceptRequest P) :
    a.SavesOnce (a.accept request) := by
  rw [SavesOnce]
  simp only [PaxosAcceptor.accept]
  split
  · refine .inl ⟨_, ?_, fun _ => rfl⟩
    rintro ⟨⟩
  split
  · refine .inl ⟨_, ?_, fun _ => rfl⟩
    rintro ⟨⟩
  cases (a.state.slot request.slot).outbid request.ballot with
  | some promised =>
      refine .inl ⟨_, ?_, fun _ => rfl⟩
      rintro ⟨⟩
  | none => exact .inr ⟨rfl, rfl⟩

theorem PaxosAcceptor.savesOnce_decide (a : PaxosAcceptor P) (request : DecideRequest P) :
    a.SavesOnce (a.decide request) := by
  rw [SavesOnce]
  simp only [PaxosAcceptor.decide]
  cases (a.state.slot request.slot).decidedValue with
  | some value =>
      by_cases hv : value = request.value
      · simp only [if_neg (not_not_intro hv)]
        refine .inl ⟨_, ?_, fun _ => rfl⟩
        rintro ⟨⟩
      · simp only [if_pos hv]
        refine .inl ⟨_, ?_, fun _ => rfl⟩
        rintro ⟨⟩
  | none => exact .inr ⟨rfl, rfl⟩

omit [DecidableEq P] in
theorem PaxosAcceptor.SavesOnce.map {α β : Type} {a : PaxosAcceptor P}
    {op : Bool → PaxosAcceptor P × Except Error α} (h : a.SavesOnce op) (f : α → β) :
    a.SavesOnce fun saves => ((op saves).1, (op saves).2.map f) := by
  rcases h with ⟨r, hne, hop⟩ | ⟨hfalse, htrue⟩
  · refine .inl ⟨r.map f, ?_, fun saves => by simp only [hop saves]⟩
    cases r with
    | ok a => nofun
    | error e => exact fun heq => hne (congrArg Except.error (Except.error.inj heq))
  · exact .inr ⟨by simp only [hfalse]; rfl, htrue⟩

theorem PaxosAcceptor.savesOnce_answer (a : PaxosAcceptor P) (call : AcceptorCall P) :
    a.SavesOnce fun saves => a.answer saves call := by
  cases call with
  | reserveBallot minimumRound => exact (a.savesOnce_reserveBallot minimumRound).map _
  | prepare request positive => exact (a.savesOnce_prepare request).map _
  | accept request positive => exact (a.savesOnce_accept request).map _
  | decide request positive => exact (a.savesOnce_decide request).map _

/-- What `toSave` says about a request. -/
theorem PaxosAcceptor.answer_cases (a : PaxosAcceptor P) (call : AcceptorCall P) :
    (a.toSave call = none ∧ (a.answer true call).1 = a) ∨
    (a.toSave call = some (a.answer true call).1.state ∧
      a.answer false call = (a, .error .storage) ∧
      (a.answer true call).1.storage = (a.answer true call).1.state) := by
  rcases a.savesOnce_answer call with ⟨r, hne, hop⟩ | ⟨hfalse, htrue⟩
  · left
    have hop : ∀ saves, a.answer saves call = (a, r) := hop
    rw [toSave, hop, hop]
    refine ⟨?_, rfl⟩
    split
    · next heq => exact absurd heq hne
    · rfl
  · right
    have hfalse : a.answer false call = (a, .error .storage) := hfalse
    refine ⟨?_, hfalse, htrue⟩
    rw [toSave, hfalse]

theorem PaxosAcceptor.Representation.answer {a : PaxosAcceptor P} (h : a.Representation)
    (saves : Bool) (call : AcceptorCall P) : (a.answer saves call).1.Representation := by
  cases call with
  | reserveBallot minimumRound => exact h.reserveBallot minimumRound saves
  | prepare request positive => exact h.prepare positive saves
  | accept request positive => exact h.accept positive saves
  | decide request positive => exact h.decide positive saves

theorem PaxosAcceptor.advances_answer (a : PaxosAcceptor P) (saves : Bool)
    (call : AcceptorCall P) : a.Advances (a.answer saves call).1 := by
  cases call with
  | reserveBallot minimumRound => exact a.advances_reserveBallot minimumRound saves
  | prepare request positive => exact a.advances_prepare request saves
  | accept request positive => exact a.advances_accept request saves
  | decide request positive => exact a.advances_decide request saves

/-! ## What is kept between requests -/

/-- The tables hold the state of the acceptor. -/
structure StoredAcceptor.Sound (codecs : Codecs J P) (d : StoredAcceptor J P) : Prop where
  representation : d.acceptor.Representation
  loads : d.tables.load codecs = .ok d.acceptor.state

omit [DecidableEq P] in
theorem StoredAcceptor.sound_opened (codecs : Codecs J P) (nodeId : String) :
    (opened nodeId : StoredAcceptor J P).Sound codecs :=
  ⟨.create nodeId, PaxosTables.load_empty codecs⟩

/-- A request that saves, with the save that it makes. -/
theorem StoredAcceptor.answer_of_toSave {codecs : Codecs J P} {d : StoredAcceptor J P}
    {call : AcceptorCall P} {state : PersistentPaxosState P} (refused : List Bool)
    (h : d.acceptor.toSave call = some state) :
    d.answer codecs refused call =
      (⟨(d.acceptor.answer (d.tables.save codecs state refused).2.isOk call).1,
        (d.tables.save codecs state refused).1⟩,
        (d.acceptor.answer (d.tables.save codecs state refused).2.isOk call).2) := by
  rw [answer, h]

theorem StoredAcceptor.Sound.answer {codecs : Codecs J P} {d : StoredAcceptor J P}
    (h : d.Sound codecs) (refused : List Bool) (call : AcceptorCall P) :
    (d.answer codecs refused call).1.Sound codecs := by
  rcases d.acceptor.answer_cases call with ⟨hnone, hsame⟩ | ⟨hsome, hfalse, -⟩
  · have heq : (d.answer codecs refused call).1 = d := by
      rw [StoredAcceptor.answer, hnone]
      simp only [hsame]
    rw [heq]
    exact h
  · have hrep := h.representation.answer true call
    rw [answer_of_toSave refused hsome]
    rcases d.tables.save_cases codecs hrep.valid refused with hsaved | ⟨e, hfailed⟩
    · rw [hsaved]
      exact ⟨hrep, PaxosTables.load_ofState codecs hrep.valid⟩
    · rw [hfailed]
      have hkept : (d.acceptor.answer (Except.error e : Except Error Unit).isOk call).1 =
          d.acceptor := congrArg Prod.fst hfalse
      exact ⟨hkept.symm ▸ h.representation, hkept.symm ▸ h.loads⟩

omit [DecidableEq P] in
/-- A restart finds the state that was there. -/
theorem StoredAcceptor.Sound.restart {codecs : Codecs J P} {d : StoredAcceptor J P}
    (h : d.Sound codecs) :
    d.restart codecs = .ok ⟨.create d.acceptor.nodeId d.acceptor.state, d.tables⟩ := by
  rw [StoredAcceptor.restart, h.loads]
  rfl

omit [DecidableEq P] in
theorem StoredAcceptor.Sound.restarted {codecs : Codecs J P} {d : StoredAcceptor J P}
    (h : d.Sound codecs) :
    (⟨.create d.acceptor.nodeId d.acceptor.state, d.tables⟩ : StoredAcceptor J P).Sound codecs := by
  obtain ⟨hwf, -⟩ := h.representation.wellFormed.restart
  rw [h.representation.wellFormed.durable] at hwf
  exact ⟨⟨hwf, h.representation.ordered, h.representation.slots, h.representation.next⟩, h.loads⟩

theorem StoredAcceptor.Sound.step {codecs : Codecs J P} {d d' : StoredAcceptor J P}
    (h : d.Sound codecs) (hstep : Step codecs d d') : d'.Sound codecs := by
  cases hstep with
  | request refused call heq => exact heq ▸ h.answer refused call
  | restart hr =>
      rw [h.restart] at hr
      cases hr
      exact h.restarted

theorem StoredAcceptor.Sound.advances {codecs : Codecs J P} {d d' : StoredAcceptor J P}
    (h : d.Sound codecs) (hstep : Step codecs d d') : d.acceptor.Advances d'.acceptor := by
  cases hstep with
  | request refused call heq =>
      rw [heq, StoredAcceptor.answer]
      split
      · exact d.acceptor.advances_answer _ call
      · exact d.acceptor.advances_answer _ call
  | restart hr =>
      rw [h.restart] at hr
      cases hr
      exact ⟨rfl, fun _ _ hv => hv, Nat.le_refl _, Nat.le_refl _, fun _ p hp => ⟨p, hp, le_refl p⟩⟩

theorem StoredAcceptor.Sound.reaches {codecs : Codecs J P} {d d' : StoredAcceptor J P}
    (h : d.Sound codecs) (hr : Reaches codecs d d') :
    d'.Sound codecs ∧ d.acceptor.Advances d'.acceptor := by
  induction hr with
  | refl => exact ⟨h, .refl _⟩
  | tail _ hstep ih => exact ⟨ih.1.step hstep, ih.2.trans (ih.1.advances hstep)⟩

/-! ## A recreated acceptor -/

/-- The same acceptor but for the results that it remembers. -/
def PaxosAcceptor.Twins (a a' : PaxosAcceptor P) : Prop :=
  ∃ results, a' = { a with appliedResults := results }

/-- No request looks at the remembered results. -/
theorem PaxosAcceptor.Twins.answer {a a' : PaxosAcceptor P} (h : a.Twins a') (saves : Bool)
    (call : AcceptorCall P) :
    (a'.answer saves call).2 = (a.answer saves call).2 ∧
      (a.answer saves call).1.Twins (a'.answer saves call).1 := by
  obtain ⟨results, rfl⟩ := h
  cases call with
  | reserveBallot minimumRound =>
      cases saves with
      | true => exact ⟨rfl, results, rfl⟩
      | false => exact ⟨rfl, results, rfl⟩
  | prepare request positive =>
      simp only [PaxosAcceptor.answer, PaxosAcceptor.prepare]
      cases (a.state.slot request.slot).outbid request.ballot with
      | some promised => exact ⟨rfl, results, rfl⟩
      | none =>
          cases saves with
          | true => exact ⟨rfl, results, rfl⟩
          | false => exact ⟨rfl, results, rfl⟩
  | accept request positive =>
      simp only [PaxosAcceptor.answer, PaxosAcceptor.accept]
      split_ifs
      · exact ⟨rfl, results, rfl⟩
      · exact ⟨rfl, results, rfl⟩
      · cases (a.state.slot request.slot).outbid request.ballot with
        | some promised => exact ⟨rfl, results, rfl⟩
        | none => exact ⟨rfl, results, rfl⟩
      · cases (a.state.slot request.slot).outbid request.ballot with
        | some promised => exact ⟨rfl, results, rfl⟩
        | none => exact ⟨rfl, results, rfl⟩
  | decide request positive =>
      simp only [PaxosAcceptor.answer, PaxosAcceptor.decide]
      cases (a.state.slot request.slot).decidedValue with
      | some value =>
          simp only
          split_ifs
          · exact ⟨rfl, results, rfl⟩
          · exact ⟨rfl, results, rfl⟩
      | none =>
          cases saves with
          | true => exact ⟨rfl, _, rfl⟩
          | false => exact ⟨rfl, results, rfl⟩

/-- Twins save the same. -/
theorem PaxosAcceptor.Twins.toSave {a a' : PaxosAcceptor P} (h : a.Twins a')
    (call : AcceptorCall P) : a'.toSave call = a.toSave call := by
  obtain ⟨results, hstate⟩ := (h.answer true call).2
  rw [PaxosAcceptor.toSave, PaxosAcceptor.toSave, (h.answer false call).1, hstate]

/-- Over the same tables twins give the same answers. -/
theorem StoredAcceptor.answers_twins {codecs : Codecs J P} {a a' : PaxosAcceptor P}
    (h : a.Twins a') (tables : PaxosTables J) (calls : List (List Bool × AcceptorCall P)) :
    (⟨a', tables⟩ : StoredAcceptor J P).answers codecs calls =
      (⟨a, tables⟩ : StoredAcceptor J P).answers codecs calls := by
  induction calls generalizing a a' tables with
  | nil => rfl
  | cons request calls ih =>
      obtain ⟨refused, call⟩ := request
      simp only [answers, StoredAcceptor.answer, h.toSave call]
      cases a.toSave call with
      | none => rw [(h.answer true call).1, ih (h.answer true call).2]
      | some state =>
          simp only
          rw [(h.answer _ call).1, ih (h.answer _ call).2]

/-! ## Every run -/

/-- **The representation of an acceptor and its restarts.** For every sequence of requests,
of refused statements and of restarts. -/
structure AcceptorLaws (codecs : Codecs J P) (nodeId : String) : Prop where
  valid : ∀ {d}, StoredAcceptor.Reachable codecs nodeId d → d.acceptor.state.Valid
  paired : ∀ {d}, StoredAcceptor.Reachable codecs nodeId d → ∀ s ∈ d.acceptor.state.slots,
    s.acceptedBallot.isSome = s.acceptedValue.isSome ∧
      ∀ b, s.acceptedBallot = some b → ∃ p, s.promisedBallot = some p ∧ b ≤ p
  next : ∀ {d}, StoredAcceptor.Reachable codecs nodeId d →
    d.acceptor.state.decided (d.acceptor.state.lastApplied + 1) = none
  register : ∀ {d}, StoredAcceptor.Reachable codecs nodeId d →
    d.acceptor.stateMachine = d.acceptor.state.stateMachine ∧
      d.acceptor.state.stateMachine =
        registerAt d.acceptor.state.decided d.acceptor.state.lastApplied
  /-- Promises and rounds never decrease. -/
  monotone : ∀ {d d'}, StoredAcceptor.Reachable codecs nodeId d →
    StoredAcceptor.Reaches codecs d d' →
      d.acceptor.state.localRound ≤ d'.acceptor.state.localRound ∧
      ∀ slot p, (d.acceptor.state.slot slot).promisedBallot = some p →
        ∃ p', (d'.acceptor.state.slot slot).promisedBallot = some p' ∧ p ≤ p'
  /-- A saved state is valid, and a load after the save yields it. -/
  saved : ∀ {d call state}, StoredAcceptor.Reachable codecs nodeId d →
    d.acceptor.toSave call = some state → state.Valid ∧ ∀ tables : PaxosTables J,
      ∃ tables', tables.save codecs state [] = (tables', .ok ()) ∧
        tables'.load codecs = .ok state
  /-- The tables hold the state of the acceptor, -/
  loads : ∀ {d}, StoredAcceptor.Reachable codecs nodeId d →
    d.tables.load codecs = .ok d.acceptor.state
  /-- so that an acceptor recreated from them answers as the acceptor itself. -/
  recreated : ∀ {d}, StoredAcceptor.Reachable codecs nodeId d →
    ∃ d', d.restart codecs = .ok d' ∧ ∀ calls, d'.answers codecs calls = d.answers codecs calls

theorem acceptor_laws (codecs : Codecs J P) (nodeId : String) : AcceptorLaws codecs nodeId := by
  have hsound : ∀ {d}, StoredAcceptor.Reachable codecs nodeId d → d.Sound codecs :=
    fun h => ((StoredAcceptor.sound_opened codecs nodeId).reaches h).1
  refine
    { valid := fun h => (hsound h).representation.valid
      paired := fun h s hs => ?_
      next := fun h => (hsound h).representation.next
      register := fun h =>
        ⟨(hsound h).representation.wellFormed.stateMachine,
          (hsound h).representation.wellFormed.register⟩
      monotone := fun h hr =>
        ⟨((hsound h).reaches hr).2.localRound, ((hsound h).reaches hr).2.promised⟩
      saved := fun {d call state} h hs => ?_
      loads := fun h => (hsound h).loads
      recreated := fun {d} h => ⟨_, (hsound h).restart, fun calls => ?_⟩ }
  · have hslot := (hsound h).representation.slots s hs
    refine ⟨?_, hslot.promised⟩
    rw [← Option.not_isNone, ← Option.not_isNone, hslot.together]
  · rcases d.acceptor.answer_cases call with ⟨hnone, -⟩ | ⟨hsome, -⟩
    · rw [hnone] at hs
      cases hs
    · rw [hsome] at hs
      cases hs
      have hvalid := ((hsound h).representation.answer true call).valid
      exact ⟨hvalid, fun tables =>
        ⟨_, tables.save_valid codecs hvalid, PaxosTables.load_ofState codecs hvalid⟩⟩
  · obtain ⟨a, tables⟩ := d
    refine StoredAcceptor.answers_twins ⟨[], ?_⟩ tables calls
    have hwf := (hsound h).representation.wellFormed
    rw [PaxosAcceptor.create, ← hwf.stateMachine]
    have hdurable : a.storage = a.state := hwf.durable
    rw [← hdurable]

end Requests

/-- Texts that are the models themselves. -/
def Codecs.plain (P : Type) : Codecs (Ballot ⊕ PaxosValue P ⊕ LogChain P) P where
  ballot := ⟨.inl, Sum.getLeft?, fun _ => rfl⟩
  value := ⟨fun value => .inr (.inl value), fun json => json.getRight?.bind Sum.getLeft?,
    fun _ => rfl⟩
  chain := ⟨fun chain => .inr (.inr chain), fun json => json.getRight?.bind Sum.getRight?,
    fun _ => rfl⟩

/-- An acceptor that has learned slot 2 before slot 1. -/
def gapFilled : StoredAcceptor (Ballot ⊕ PaxosValue Unit ⊕ LogChain Unit) Unit :=
  let d := ((StoredAcceptor.opened "meta-1").answer (.plain Unit) []
    (.decide ⟨2, ⟨.readBarrier⟩⟩ Nat.two_pos)).1
  (d.answer (.plain Unit) [] (.decide ⟨1, ⟨.readBarrier⟩⟩ Nat.one_pos)).1

/-- It has applied both, and so has the acceptor that is recreated from its tables. -/
theorem acceptor_laws_gapFilled :
    gapFilled.acceptor.state.lastApplied = 2 ∧ gapFilled.acceptor.state.decided 3 = none ∧
      gapFilled.tables.load (.plain Unit) = .ok gapFilled.acceptor.state ∧
      ∃ d', gapFilled.restart (.plain Unit) = .ok d' ∧ ∀ calls,
        d'.answers (.plain Unit) calls = gapFilled.answers (.plain Unit) calls := by
  have hlaws := acceptor_laws (Codecs.plain Unit) "meta-1"
  have hreached : StoredAcceptor.Reachable (.plain Unit) "meta-1" gapFilled :=
    .tail (.tail .refl (.request [] _ rfl)) (.request [] _ rfl)
  have happlied : gapFilled.acceptor.state.lastApplied = 2 := by decide
  refine ⟨happlied, ?_, hlaws.loads hreached, hlaws.recreated hreached⟩
  have hnext := hlaws.next hreached
  rwa [happlied] at hnext

end DelosLab.Paxos
