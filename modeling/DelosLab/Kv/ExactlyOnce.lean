import DelosLab.Kv.Runs
import DelosLab.NativeLoglet.Durability

/-!
# Every replica executes every command once

Over a log whose reads return the least entry of the asked range, the tables of every
replica are the replay of the log through their applied position, and a `submit` returns
the result of the first occurrence of its request.
-/

namespace DelosLab.Kv

open Async Async.Runtime
open VirtualLog (Bytes VirtualLogEntry)

variable {𝒮 : Deployment}

/-- `r` is the least entry of the log in `[start, stop)`, or there is none. -/
def World.Least (w : World) (start stop : Nat) : Option VirtualLogEntry → Prop
  | none => ∀ q < stop, start ≤ q → w.log q = none
  | some e => start ≤ e.position ∧ e.position < stop ∧
      w.log e.position = some ⟨e.commandId, e.payload⟩ ∧
        ∀ q < e.position, start ≤ q → w.log q = none

instance (w : World) (start stop : Nat) :
    (r : Option VirtualLogEntry) → Decidable (w.Least start stop r)
  | none => inferInstanceAs (Decidable (∀ q < stop, start ≤ q → w.log q = none))
  | some e => inferInstanceAs (Decidable (start ≤ e.position ∧ e.position < stop ∧
      w.log e.position = some ⟨e.commandId, e.payload⟩ ∧
        ∀ q < e.position, start ≤ q → w.log q = none))

/-- What a read through the view answers is the least entry of the range. -/
def World.LeastRead (𝒮 : Deployment) (w : World) (node : String) (start stop : Int)
    (view : ReadView) : Prop :=
  match view.readNext (𝒮.virtualLogs node) node start stop with
  | .ok r => w.Least start.toNat stop.toNat r
  | .error _ => True

instance (w : World) (node : String) (start stop : Int) (view : ReadView) :
    Decidable (w.LeastRead 𝒮 node start stop view) := by
  unfold World.LeastRead
  split <;> infer_instance

theorem World.LeastRead.of_ok {w : World} {node : String} {start stop : Int} {view : ReadView}
    {r : Option VirtualLogEntry} (h : w.LeastRead 𝒮 node start stop view)
    (hr : view.readNext (𝒮.virtualLogs node) node start stop = .ok r) :
    w.Least start.toNat stop.toNat r := by
  unfold World.LeastRead at h
  rwa [hr] at h

/-- The runs of the service over a log whose reads return the least entry of the range. -/
def leastReads (𝒮 : Deployment) : Condition signature World TaskId Call Choice :=
  serving fun w node start stop view => w.LeastRead 𝒮 node start stop view

/-- A read of the least entry skips nothing. -/
theorem World.LeastRead.unskipped {w : World} {node : String} {start stop : Int}
    {view : ReadView} (h : w.LeastRead 𝒮 node start stop view) :
    w.Unskipped 𝒮 node start stop view := by
  intro e he q hq hlt
  exact (h.of_ok he).2.2.2 q hlt hq

theorem faithful_of_leastReads {s : SystemState}
    (h : 𝒮.runtime.ReachableUnder (leastReads 𝒮) (· = World.empty) s) :
    𝒮.runtime.ReachableUnder (faithful 𝒮) (· = World.empty) s :=
  h.mono (serving_mono fun _ _ _ _ _ _ hread => hread.unskipped)

/-- The result that the replay of the log gives to a request is the one of the first
occurrence of the request. -/
structure FirstResult (𝒮 : Deployment) (w : World) (identity : String × String)
    (result : KvResult) (p : Nat) (first : KvCommandEnvelope) : Prop where
  settled : p < w.settled
  command : 𝒮.commands w p = some first
  same : first.identity = identity
  least : ∀ q < p, ∀ c, 𝒮.commands w q = some c → c.identity ≠ identity
  result : result = (KvStateMachine.apply (𝒮.replay w p).state first.operation).2

theorem Completed.firstResult {w : World} {command : KvCommandEnvelope} {result : KvResult}
    (h : Completed 𝒮 w command result) :
    ∃ p first, FirstResult 𝒮 w command.identity result p first := by
  obtain ⟨x, hx, hresult⟩ := h
  obtain ⟨p, hp, hcommand, hid, hbefore, hstep⟩ := Replication.Machine.first_some hx
  exact ⟨p, x.1, hp, hcommand, hid, hbefore, hresult.symm.trans hstep⟩

/-- **Exactly once.** The committed tables of a replica are the replay of the log through
their applied position, and what a `submit` returns is the result of the first occurrence
of its request. -/
theorem replicas_execute_once {s : SystemState}
    (h : 𝒮.runtime.ReachableUnder (leastReads 𝒮) (· = World.empty) s) :
    (∀ node, ∃ n : Nat, (n : Int) = (s.world.connection node).committed.appliedPosition + 1 ∧
      n ≤ s.world.settled ∧
        (s.world.connection node).committed.IsReplay (𝒮.replay s.world n)) ∧
    ∀ sub ∈ s.world.submitted, 𝒮.codec.Lossless sub.command →
      ∃ p first, FirstResult 𝒮 s.world sub.command.identity sub.result p first := by
  have hi := inv_of_reachable (faithful_of_leastReads h)
  constructor
  · intro node
    have hstore := (hi.store node).committed
    exact ⟨_, hstore.next_eq, hstore.next_le, hstore.shape⟩
  · intro sub hsub hlossless
    exact (hi.submitted sub hsub hlossless).firstResult

/-! ## A run of two replicas -/

/-- The JSON of a `put` of a string that needs no escapes. -/
def putJson (clientId requestId key value : String) : Bytes :=
  let text := "\x7b\"schema_version\":1,\"client_id\":\"" ++ clientId ++
    "\",\"request_id\":\"" ++ requestId ++ "\",\"operation\":\x7b\"kind\":\"put\",\"key\":\"" ++
    key ++ "\",\"value\":\"" ++ value ++ "\"\x7d\x7d"
  text.toList.flatMap String.utf8EncodeChar

/-- A codec that knows the JSON of some commands. -/
def Codec.ofJson (rows : List (KvCommandEnvelope × Bytes)) : Codec where
  toPayload := fun command =>
    match rows.find? fun row => row.1 = command with
    | some row => row.2
    | none => []
  fromPayload := fun payload => (rows.find? fun row => row.2 = payload).map Prod.fst

theorem one_named : "1" ≠ "" := by decide

def firstPut : KvCommandEnvelope :=
  ⟨⟨"alice", by decide⟩, ⟨"1", one_named⟩, .put ⟨"k", by decide⟩ (.str "v")⟩

def secondPut : KvCommandEnvelope :=
  ⟨⟨"bob", by decide⟩, ⟨"1", one_named⟩, .put ⟨"k", by decide⟩ (.str "w")⟩

/-- Another command under the identity of the first. -/
def otherPut : KvCommandEnvelope :=
  ⟨⟨"alice", by decide⟩, ⟨"1", one_named⟩, .put ⟨"k", by decide⟩ (.str "x")⟩

def replicas : Deployment where
  codec := .ofJson [(firstPut, putJson "alice" "1" "k" "v"), (secondPut, putJson "bob" "1" "k" "w"),
    (otherPut, putJson "alice" "1" "k" "x")]
  virtualLogs := fun _ => ⟨true, true, 3, three_positive⟩

def content (command : KvCommandEnvelope) : Content :=
  ⟨command.commandId, replicas.codec.toPayload command⟩

/-- A chain of one segment. -/
def oneSegment : VirtualLog.VersionedLogChain NativeLoglet.NativeLogletConfiguration :=
  .installed 0
    { segments := [.first "segment" ⟨"native", 1, NativeLoglet.threeNodes.segment.configuration⟩
        (by decide)]
      valid := by decide }

/-- All members hold these commands, one after the other. -/
def viewOf (commands : List KvCommandEnvelope) : ReadView where
  cached := oneSegment
  clients := fun _ => .new
  answers := fun segmentId _ p => .ok (commands[p]?.map fun command =>
    ⟨segmentId, p, command.commandId, replicas.codec.toPayload command⟩)

def done (t : TaskId) (n : Nat) : List (Action TaskId Call Choice Disturbance) :=
  List.replicate n (.resume t .done)

/-- `b` crashes while it applies the first entry, and asks again; the log has the command
twice. Then `a` is asked again. -/
def onceRun : List (Action TaskId Call Choice Disturbance) :=
  let a : TaskId := ⟨"a", 0⟩
  let b : TaskId := ⟨"b", 0⟩
  let view := viewOf [firstPut, firstPut]
  List.flatten
    [[.launch a (.submit firstPut), .launch b (.submit firstPut)], done a 3, done b 3,
     [.disturb (.decide 0 (content firstPut)), .disturb (.decide 1 (content firstPut)),
      .disturb (.settle 2), .resume a (.position 0), .resume b (.position 1)],
     done a 2, [.resume a (.read view)], done a 11,
     done b 2, [.resume b (.read view)], done b 5,
     [.disturb (.crash "b"), .launch b (.submit firstPut)], done b 3,
     [.resume b (.position 1)], done b 2, [.resume b (.read view)], done b 11,
     [.resume b (.read view)], done b 7, [.launch a (.submit firstPut)], done a 1]

/-- The check of a run of `replicas` under `leastReads`. -/
def meetsLeast : SystemState → Action TaskId Call Choice Disturbance → Bool :=
  meetsServing fun w node start stop view => w.LeastRead replicas node start stop view

def firstApplied : KvResult := ⟨.applied, some (.str "v")⟩

theorem onceRun_runs :
    ((replicas.runtime.runWhile meetsLeast (fresh _ _ _ _ World.empty) onceRun).map fun s =>
      (s.world.submitted, ["a", "b"].map fun node =>
        (s.world.connection node).committed.appliedPosition)) =
    some ([⟨"a", firstPut, firstApplied⟩, ⟨"b", firstPut, firstApplied⟩,
      ⟨"a", firstPut, firstApplied⟩], [0, 1]) := by
  decide +kernel

theorem replicas_execute_once_twice :
    ∃ s : SystemState, s.world.submitted = [⟨"a", firstPut, firstApplied⟩,
        ⟨"b", firstPut, firstApplied⟩, ⟨"a", firstPut, firstApplied⟩] ∧
      ∀ sub ∈ s.world.submitted, ∃ p first,
        FirstResult replicas s.world sub.command.identity sub.result p first := by
  obtain ⟨s, hs, hpost⟩ := Option.map_eq_some_iff.mp onceRun_runs
  obtain ⟨-, hresults⟩ := replicas_execute_once
    (ReachableUnder.runWhile meets_of_meetsServing (.init rfl) hs)
  have hsubmitted := (Prod.mk.inj hpost).1
  refine ⟨s, hsubmitted, fun sub hsub => hresults sub hsub ?_⟩
  have hcommand : sub.command = firstPut := by
    rw [hsubmitted] at hsub
    simp only [List.mem_cons, List.not_mem_nil, or_false] at hsub
    rcases hsub with rfl | rfl | rfl <;> rfl
  rw [hcommand]
  show replicas.codec.fromPayload (replicas.codec.toPayload firstPut) = some firstPut
  decide +kernel

end DelosLab.Kv
