import DelosLab.NativeLoglet.Client

/-!
# What a read of a segment finds and passes over

`readNext` skips the trimmed prefix that its client knows, and every position that all
of the members it asks answer to lack.
-/

namespace DelosLab.NativeLoglet

open Async Async.Coroutine

/-- What `member` answers to a `get`. -/
def answer (o : Oracle signature) (knownTail : Nat) (member : String) (position : Nat) :
    Except Error (Option LogEntry) :=
  o.wait (.entry (o.act (.send [(member, .get position knownTail)])) member)

variable {o : Oracle signature} {knownTail : Nat}

/-- One turn of the loop over the members, with the answer of its member. -/
theorem run_readPosition_cons (position : Nat) (member : String) (members : List String)
    (responses : Nat) :
    run o (readPosition position knownTail (member :: members) responses) =
      match answer o knownTail member position with
      | .ok (some entry) => .ok (some entry, responses + 1)
      | .ok none => run o (readPosition position knownTail members (responses + 1))
      | .error e =>
          if e = .connection then run o (readPosition position knownTail members responses)
          else .error e := by
  have hsend : run o (act (.send [(member, .get position knownTail)])) =
      .ok (o.act (.send [(member, .get position knownTail)])) := rfl
  have hwait : ∀ batch, run o (wait (.entry batch member)) = o.wait (.entry batch member) :=
    fun _ => run_await _
  rw [readPosition, run_bind, hsend]
  simp only [Except.bind, run_bind, run_handle, hwait]
  unfold answer
  cases o.wait (.entry (o.act (.send [(member, .get position knownTail)])) member) with
  | ok entry =>
      cases entry with
      | none => rfl
      | some entry => rfl
  | error e =>
      by_cases he : e = .connection
      · simp [he]
      · simp [he]

/-- A position where a member holds an entry, or where all that answer lack one. -/
theorem run_readPosition {position : Nat} {members : List String} {responses : Nat}
    {r : Option LogEntry × Nat}
    (h : run o (readPosition position knownTail members responses) = .ok r) :
    (∀ e, r.1 = some e → ∃ member ∈ members,
      answer o knownTail member position = .ok (some e)) ∧
    (r.1 = none → r.2 ≤ responses + members.length ∧
      (r.2 = responses + members.length →
        ∀ member ∈ members, answer o knownTail member position = .ok none)) := by
  induction members generalizing responses with
  | nil =>
      cases h
      exact ⟨nofun, fun _ => ⟨Nat.le_refl _, fun _ _ hm => nomatch hm⟩⟩
  | cons member members ih =>
      rw [run_readPosition_cons] at h
      split at h
      · next e hanswer =>
          cases h
          refine ⟨fun e' he => ?_, nofun⟩
          cases he
          exact ⟨member, List.mem_cons_self, hanswer⟩
      · next hanswer =>
          obtain ⟨hfound, hmissing⟩ := ih h
          refine ⟨fun e he => ?_, fun hnone => ?_⟩
          · obtain ⟨m, hm, ha⟩ := hfound e he
            exact ⟨m, List.mem_cons_of_mem _ hm, ha⟩
          · obtain ⟨hle, hall⟩ := hmissing hnone
            rw [List.length_cons]
            refine ⟨by omega, fun heq m hm => ?_⟩
            rcases List.mem_cons.mp hm with rfl | hm
            · exact hanswer
            · exact hall (by omega) m hm
      · split at h
        · obtain ⟨hfound, hmissing⟩ := ih h
          refine ⟨fun e he => ?_, fun hnone => ?_⟩
          · obtain ⟨m, hm, ha⟩ := hfound e he
            exact ⟨m, List.mem_cons_of_mem _ hm, ha⟩
          · -- A member that did not answer is missing among the responses.
            obtain ⟨hle, -⟩ := hmissing hnone
            rw [List.length_cons]
            exact ⟨by omega, fun heq => by omega⟩
        · cases h

variable {self : Segment} {members : List String}

/-- The first position that is held, with nothing held before it. -/
theorem run_readPositions {position count : Nat} {r : Option LogEntry}
    (h : run o (self.readPositions members knownTail position count) = .ok r) :
    (∀ e, r = some e → ∃ l, position ≤ l ∧ l < position + count ∧
      (∃ member ∈ members, answer o knownTail member l = .ok (some e)) ∧
        ∀ p, position ≤ p → p < l →
          ∀ member ∈ members, answer o knownTail member p = .ok none) ∧
    (r = none → ∀ p, position ≤ p → p < position + count →
      ∀ member ∈ members, answer o knownTail member p = .ok none) := by
  induction count generalizing position with
  | zero =>
      cases h
      exact ⟨nofun, fun _ p hp hp' => by omega⟩
  | succ count ih =>
      rw [Segment.readPositions] at h
      obtain ⟨⟨entry, responses⟩, hread, h⟩ := run_bind_ok h
      obtain ⟨hfound, hmissing⟩ := run_readPosition hread
      cases entry with
      | some e =>
          cases h
          refine ⟨fun e' he => ?_, nofun⟩
          cases he
          exact ⟨position, Nat.le_refl _, by omega, hfound e rfl, fun p hp hp' => by omega⟩
      | none =>
          obtain ⟨_, hcheck, h⟩ := run_bind_ok h
          have hresponses := run_require_ok hcheck
          have hall := (hmissing rfl).2 (by rw [hresponses, Nat.zero_add])
          obtain ⟨hsome, hnone⟩ := ih h
          refine ⟨fun e he => ?_, fun hr p hp hp' => ?_⟩
          · obtain ⟨l, hl, hl', hm, hbefore⟩ := hsome e he
            refine ⟨l, by omega, by omega, hm, fun p hp hp' => ?_⟩
            rcases Nat.eq_or_lt_of_le hp with rfl | hlt
            · exact hall
            · exact hbefore p hlt hp'
          · rcases Nat.eq_or_lt_of_le hp with rfl | hlt
            · exact hall
            · exact hnone hr p hlt (by omega)

/-- What `readNext` passes over: the prefix that its client knows to be trimmed, and
what all the members that it asks lack. -/
def Hidden (o : Oracle signature) (self : Segment) (localNode : String) (position : Nat) : Prop :=
  position < (o.act .client).trimmedPrefix ∨
    ∀ member ∈ self.readMembers localNode,
      answer o (o.act .client).knownTail member position = .ok none

theorem run_readNext {localNode : String} {localStart localStop : Nat} {r : Option LogEntry}
    (h : run o (self.readNext localNode localStart localStop) = .ok r) :
    (∀ e, r = some e → ∃ l, localStart ≤ l ∧ l < localStop ∧
      (o.act .client).trimmedPrefix ≤ l ∧ (∃ member ∈ self.readMembers localNode,
        answer o (o.act .client).knownTail member l = .ok (some e)) ∧
        ∀ p, localStart ≤ p → p < l → Hidden o self localNode p) ∧
    (r = none → ∀ p, localStart ≤ p → p < localStop → Hidden o self localNode p) := by
  rw [Segment.readNext] at h
  obtain ⟨client, hclient, h⟩ := run_bind_ok h
  obtain rfl : o.act .client = client := Except.ok.inj hclient
  simp only at h
  split at h
  · next hempty =>
      cases h
      exact ⟨nofun, fun _ p _ hp => .inl (by omega)⟩
  · next hne =>
      obtain ⟨hfound, hmissing⟩ := run_readPositions h
      refine ⟨fun e he => ?_, fun hr p hp hp' => ?_⟩
      · obtain ⟨l, hl, hl', hm, hbefore⟩ := hfound e he
        refine ⟨l, by omega, by omega, by omega, hm, fun p hp hp' => ?_⟩
        by_cases hlt : p < (o.act .client).trimmedPrefix
        · exact .inl hlt
        · exact .inr (hbefore p (by omega) hp')
      · by_cases hlt : p < (o.act .client).trimmedPrefix
        · exact .inl hlt
        · exact .inr (hmissing hr p (by omega) (by omega))

end DelosLab.NativeLoglet
