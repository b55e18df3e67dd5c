import DelosLab.NativeLoglet.Durability

/-!
# Checking the tail is linearizable

A call is ordered behind all that had returned when it was invoked: their positions
and tails are covered on a majority there, and a majority is what the call reads.
-/

namespace DelosLab.NativeLoglet

open Async Async.Runtime Consensus

namespace World

/-- Each tail that was returned is behind what had returned when it was asked for. -/
structure TailsOrdered (w : World) : Prop where
  acknowledged : ∀ r ∈ w.completed, ∀ tail, r.outcome = .tail tail →
    ∀ e ∈ w.completed.take r.before, ∀ id result, e.outcome = .appended id result →
      result.position < tail.tail
  monotone : ∀ r ∈ w.completed, ∀ tail, r.outcome = .tail tail →
    ∀ e ∈ w.completed.take r.before, ∀ earlier, e.outcome = .tail earlier →
      earlier.tail ≤ tail.tail ∧ (earlier.sealed = true → tail.sealed = true)

/-- What a run keeps about the tails that were returned. -/
structure Ordered (w : World) : Prop where
  tails : w.TailsOrdered
  before : ∀ r ∈ w.completed, r.before ≤ w.completed.length

end World

variable {𝒮 : Deployment} {w₀ w : World}

/-- A tail that was read is behind every position that had been acknowledged. -/
theorem TailRead.acknowledged {tail : CheckTailResult} (h : TailRead 𝒮 w₀ w tail)
    (hi : Inv 𝒮 w₀) {e : Completion} (he : e ∈ w₀.completed) {id : String}
    {result : AppendResult} (hout : e.outcome = .appended id result) :
    result.position < tail.tail := by
  have hret := hi.returned e he
  rw [hout] at hret
  exact h.covered _ (hret.2.1 _ (Nat.lt_succ_self _))

/-- A tail that was read is not before a tail that had been returned. -/
theorem TailRead.monotone {tail : CheckTailResult} (h : TailRead 𝒮 w₀ w tail)
    (hi : Inv 𝒮 w₀) {e : Completion} (he : e ∈ w₀.completed) {earlier : CheckTailResult}
    (hout : e.outcome = .tail earlier) :
    earlier.tail ≤ tail.tail ∧ (earlier.sealed = true → tail.sealed = true) := by
  have hret := hi.returned e he
  rw [hout] at hret
  obtain ⟨hknown, hsealed⟩ := hret
  constructor
  · by_contra hlt
    have hcovered := h.covered tail.tail (hknown _ (by omega))
    exact Nat.lt_irrefl _ hcovered
  · intro hs
    exact h.closed (Majority.mono (hsealed hs) fun _ _ hn => hn.1)

/-- A call returns that was invoked in `w₀`. -/
theorem World.Ordered.finish (h : w.Ordered) (hg : Grow w₀ w) {r : Completion}
    (hb : r.before = w₀.completed.length)
    (hacked : ∀ tail, r.outcome = .tail tail → ∀ e ∈ w₀.completed, ∀ id result,
      e.outcome = .appended id result → result.position < tail.tail)
    (hmono : ∀ tail, r.outcome = .tail tail → ∀ e ∈ w₀.completed, ∀ earlier,
      e.outcome = .tail earlier →
        earlier.tail ≤ tail.tail ∧ (earlier.sealed = true → tail.sealed = true)) :
    World.Ordered { w with completed := w.completed ++ [r] } := by
  obtain ⟨rest, hrest⟩ := hg.completed
  have hlen : r.before ≤ w.completed.length := by
    rw [hb, ← hrest, List.length_append]
    exact Nat.le_add_right _ _
  have htake : (w.completed ++ [r]).take r.before = w₀.completed := by
    rw [List.take_append_of_le_length hlen, hb, ← hrest, List.take_left]
  have hold : ∀ r' ∈ w.completed, (w.completed ++ [r]).take r'.before =
      w.completed.take r'.before := fun r' hr' => List.take_append_of_le_length (h.before r' hr')
  refine ⟨⟨fun r' hr' tail hout e he => ?_, fun r' hr' tail hout e he => ?_⟩, fun r' hr' => ?_⟩
  · rcases List.mem_append.mp hr' with hr' | hr'
    · exact h.tails.acknowledged r' hr' tail hout e (hold r' hr' ▸ he)
    · obtain rfl := List.mem_singleton.mp hr'
      exact hacked tail hout e (htake ▸ he)
  · rcases List.mem_append.mp hr' with hr' | hr'
    · exact h.tails.monotone r' hr' tail hout e (hold r' hr' ▸ he)
    · obtain rfl := List.mem_singleton.mp hr'
      exact hmono tail hout e (htake ▸ he)
  · rw [List.length_append]
    rcases List.mem_append.mp hr' with hr' | hr'
    · exact Nat.le_add_right_of_le (h.before r' hr')
    · obtain rfl := List.mem_singleton.mp hr'
      exact Nat.le_add_right_of_le hlen

/-- The rider of a run whose tails are ordered. -/
def tailsRider (𝒮 : Deployment) : Rider 𝒮 where
  holds := World.Ordered
  stable := by
    intro w w' _ _ _ hc _ h
    refine ⟨⟨?_, ?_⟩, ?_⟩
    · rw [hc]
      exact h.tails.acknowledged
    · rw [hc]
      exact h.tails.monotone
    · rw [hc]
      exact h.before

theorem tailsRider_kept {C : Condition signature World TaskId Call Choice} :
    (tailsRider 𝒮).Kept C where
  returned := by
    intro w₀ w t c o hi₀ _ _ h hg hinvoked hpost
    refine World.Ordered.finish h hg hinvoked (fun tail hout => ?_) fun tail hout => ?_
    · obtain rfl : o = .tail tail := hout
      exact fun e he id result he' => TailRead.acknowledged hpost hi₀ he he'
    · obtain rfl : o = .tail tail := hout
      exact fun e he earlier he' => TailRead.monotone hpost hi₀ he he'
  raised := fun _ _ _ _ _ h _ => ⟨⟨h.tails.acknowledged, h.tails.monotone⟩, h.before⟩

/-- **Checking the tail is linearizable.** A tail that is returned is behind every
position acknowledged before its call and not before any tail returned before its
call, a seal that was seen is seen by every later call, and everything below the
tail is covered on a majority. -/
theorem checkTail_linearizable {s : SystemState}
    (h : 𝒮.runtime.ReachableUnder trimsReturned (· = World.initial 𝒮) s) :
    s.world.TailsOrdered ∧
    ∀ r ∈ s.world.completed, ∀ tail, r.outcome = .tail tail →
      ∀ p < tail.tail, Majority 𝒮.segment.members fun node => s.world.Covers node p := by
  have hinit : (tailsRider 𝒮).holds (World.initial 𝒮) :=
    ⟨⟨(fun _ hr => nomatch hr), (fun _ hr => nomatch hr)⟩, (fun _ hr => nomatch hr)⟩
  obtain ⟨hi, hordered⟩ := inv_of_reachable (fun _ _ _ hc => hc) tailsRider_kept hinit h
  refine ⟨World.Ordered.tails hordered, fun r hr tail hout => ?_⟩
  have hret := hi.returned r hr
  rw [hout] at hret
  exact hret.1

/-! ## Tails of three nodes -/

/-- `a` appends a command with `a` and `b`, `c` finds its position on them, `b` seals
everybody, and `c` checks the tail again with `b` and itself, which repairs `c`. -/
def sealedRun : List (Action TaskId Call Choice Disturbance) :=
  let put := some (Response.state (stateAt 1 0 false))
  let entry : LogEntry := ⟨threeNodes.segment.segmentId, 0, "x", [1]⟩
  let closed := fun localTail => some (Response.state (stateAt localTail 1 true))
  List.flatten
    [[.launch ⟨"a", 0⟩ (.append "x" [1] 1), .resume ⟨"a", 0⟩ .done], handled 0 ["a", "b"],
     [.resume ⟨"a", 0⟩ (.gathered [put, put, none]), .launch ⟨"c", 0⟩ (.checkTail 1)],
     delivered 1 ["a", "b"],
     [.resume ⟨"c", 0⟩ (.gathered [put, put, none]), .launch ⟨"b", 0⟩ .seal],
     handled 2 ["a", "b", "c"],
     [.resume ⟨"b", 0⟩ (.gathered [some (.state (stateAt 1 0 true)),
        some (.state (stateAt 1 0 true)), some (.state (stateAt 0 0 true))]),
      .launch ⟨"c", 1⟩ (.checkTail 1)],
     delivered 3 ["b", "c"],
     [.resume ⟨"c", 1⟩ (.gathered [none, closed 1, closed 0])],
     delivered 4 ["b"], [.resume ⟨"c", 1⟩ (.entry (some entry))],
     delivered 5 ["c"], [.resume ⟨"c", 1⟩ (.entry none)],
     delivered 6 ["b"], [.resume ⟨"c", 1⟩ (.entry (some entry))],
     delivered 7 ["c"], [.resume ⟨"c", 1⟩ (.entry none)],
     handled 8 ["c"], [.resume ⟨"c", 1⟩ (.state (stateAt 1 1 true))]]

theorem sealedRun_runs :
    ((threeNodes.runtime.runWhile meetsLaunches (fresh _ _ _ _ (World.initial threeNodes))
      sealedRun).map fun s => s.world.completed.map fun r => (r.before, r.outcome)) =
    some [(0, .appended "x" ⟨0, 1⟩), (1, .tail ⟨1, false⟩), (2, .done), (3, .tail ⟨1, true⟩)] := by
  decide +kernel

theorem checkTail_linearizable_sealed :
    ∃ s : SystemState, (s.world.completed.map fun r => (r.before, r.outcome)) =
        [(0, .appended "x" ⟨0, 1⟩), (1, .tail ⟨1, false⟩), (2, .done), (3, .tail ⟨1, true⟩)] ∧
      s.world.TailsOrdered := by
  obtain ⟨s, hs, hpost⟩ := Option.map_eq_some_iff.mp sealedRun_runs
  exact ⟨s, hpost, (checkTail_linearizable
    (ReachableUnder.runWhile meets_of_meetsLaunches (.init rfl) hs)).1⟩

end DelosLab.NativeLoglet
