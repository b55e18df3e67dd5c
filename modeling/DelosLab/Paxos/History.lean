import Mathlib.Data.Finset.Dedup
import Mathlib.Data.Finset.Max
import DelosLab.Async.Observer
import DelosLab.Paxos.Barrier

/-!
# One register history

The register of the peers is a list of chains that only grows: its version is the length of
the list and its chain the last one. Every peer's state machine, and every snapshot that a
call returns, is the register behind a prefix of that one list.
-/

namespace DelosLab.Paxos

open Async Async.Runtime Consensus
open VirtualLog (LogChain VersionedLogChain CompareAndSetResult)

variable {P : Type}

/-! ## Registers as histories -/

/-- The register behind the chains that were installed, oldest first. -/
def ofHistory (chains : List (LogChain P)) : VersionedLogChain P :=
  match chains.getLast? with
  | some chain => .installed (chains.length - 1) chain
  | none => .zero

/-- The installed chains after a command. -/
def extend (chains : List (LogChain P)) : PaxosCommand P → List (LogChain P)
  | .readBarrier => chains
  | .compareAndSet expectedVersion newChain =>
      if chains.length = expectedVersion then chains ++ [newChain] else chains

/-- The chains that the decided commands of the slots from 1 to `n` installed. -/
def chainsAt (decided : Nat → Option (PaxosValue P)) : Nat → List (LogChain P)
  | 0 => []
  | n + 1 =>
      match decided (n + 1) with
      | some value => extend (chainsAt decided n) value.command
      | none => chainsAt decided n

theorem ofHistory_append (chains : List (LogChain P)) (chain : LogChain P) :
    ofHistory (chains ++ [chain]) = .installed chains.length chain := by
  rw [ofHistory, List.getLast?_concat, List.length_append]
  rfl

theorem version_ofHistory (chains : List (LogChain P)) :
    (ofHistory chains).version = chains.length := by
  rcases chains.eq_nil_or_concat with rfl | ⟨front, chain, rfl⟩
  · rfl
  · rw [List.concat_eq_append, ofHistory_append, List.length_append]
    rfl

/-- The state machine's commands act on the history. -/
theorem apply_ofHistory (chains : List (LogChain P)) (command : PaxosCommand P) :
    (apply (ofHistory chains) command).1 = ofHistory (extend chains command) := by
  cases command with
  | readBarrier => rfl
  | compareAndSet expectedVersion newChain =>
      rw [apply, extend, version_ofHistory]
      by_cases h : chains.length = expectedVersion
      · rw [if_neg (not_not_intro h), if_pos h, ofHistory_append, h]
      · rw [if_pos h, if_neg h]

/-- The register of the decided commands is that of the chains they installed. -/
theorem registerAt_eq_ofHistory (decided : Nat → Option (PaxosValue P)) (n : Nat) :
    registerAt decided n = ofHistory (chainsAt decided n) := by
  induction n with
  | zero => rfl
  | succ n ih =>
      rw [registerAt, chainsAt]
      cases decided (n + 1) with
      | none => exact ih
      | some value => exact ih ▸ apply_ofHistory _ _

theorem extend_grows (chains : List (LogChain P)) (command : PaxosCommand P) :
    chains <+: extend chains command := by
  cases command with
  | readBarrier => exact List.prefix_refl _
  | compareAndSet expectedVersion newChain =>
      rw [extend]
      split
      · exact List.prefix_append _ _
      · exact List.prefix_refl _

theorem chainsAt_grows (decided : Nat → Option (PaxosValue P)) {n m : Nat} (h : n ≤ m) :
    chainsAt decided n <+: chainsAt decided m := by
  induction m, h using Nat.le_induction with
  | base => exact List.prefix_refl _
  | succ m _ ih =>
      refine ih.trans ?_
      rw [chainsAt]
      cases decided (m + 1) with
      | none => exact List.prefix_refl _
      | some value => exact extend_grows _ _

theorem chainsAt_congr {decided decided' : Nat → Option (PaxosValue P)} {n : Nat}
    (h : ∀ m, 1 ≤ m → m ≤ n → decided m = decided' m) :
    chainsAt decided n = chainsAt decided' n := by
  induction n with
  | zero => rfl
  | succ n ih =>
      have hn := ih fun m hm hle => h m hm (Nat.le_succ_of_le hle)
      rw [chainsAt, chainsAt, h (n + 1) (Nat.le_add_left 1 n) (Nat.le_refl _), hn]

/-- Along one list of chains a version determines the register. -/
theorem ofHistory_congr {chains h h' : List (LogChain P)} (hh : h <+: chains)
    (hh' : h' <+: chains) (hv : (ofHistory h).version = (ofHistory h').version) : h = h' := by
  rw [version_ofHistory, version_ofHistory] at hv
  exact (List.prefix_of_prefix_length_le hh hh' (Nat.le_of_eq hv)).eq_of_length hv

/-- The chain that made version `v + 1` stands at index `v`. -/
theorem getElem?_of_installed {chains h : List (LogChain P)} (hh : h <+: chains) {v : Nat}
    {chain : LogChain P} (heq : ofHistory h = .installed v chain) : chains[v]? = some chain := by
  rcases h.eq_nil_or_concat with rfl | ⟨front, last, rfl⟩
  · have hversion := congrArg VersionedLogChain.version heq
    cases hversion
  · rw [List.concat_eq_append] at heq hh
    rw [ofHistory_append] at heq
    have hv : front.length = v := Nat.succ.inj (congrArg VersionedLogChain.version heq)
    have hc : last = chain := Option.some.inj (congrArg VersionedLogChain.chain heq)
    obtain ⟨tail, rfl⟩ := hh
    rw [List.append_assoc, ← hv, List.getElem?_append_right (Nat.le_refl _), Nat.sub_self, ← hc]
    rfl

/-! ## What the calls return -/

/-- A call that returned. -/
structure Return (P : Type) where
  call : Call P
  outcome : Outcome P

/-- The snapshot that a call returned: the result of a read, `Applied.snapshot` or
`VersionMismatch.current`. -/
def Outcome.returned : Outcome P → Option (VersionedLogChain P)
  | .value _ => none
  | .snapshot chain => some chain
  | .swapped result => some result.current

/-- Keeps every call of every peer that returned, and with what. -/
def returnObserver : Observer (signature P) (World P) TaskId (Call P) (Outcome P)
    (List (Return P)) where
  start := fun _ _ _ returns => returns
  exec := fun _ _ _ returns => returns
  resume := fun _ _ _ _ returns => returns
  finish := fun _ _ c o returns =>
    match o with
    | .ok outcome => ⟨c, outcome⟩ :: returns
    | .error _ => returns

/-- The peers of a deployment and the returned calls. -/
abbrev RecordedState (P : Type) : Type :=
  State (signature P) (World P × List (Return P)) TaskId (Call P) (Outcome P)

/-- `node` has applied every slot up to `slot`. -/
def World.HasApplied (w : World P) (node : String) (slot : Nat) : Prop :=
  slot ≤ (w.acceptors node).state.lastApplied ∧
    ∀ m, 1 ≤ m → m ≤ slot → w.decided node m ≠ none

theorem World.HasApplied.grow {w w' : World P} (hg : Grow w w') {node : String} {slot : Nat}
    (h : w.HasApplied node slot) :
    w'.HasApplied node slot ∧
      registerAt (w'.decided node) slot = registerAt (w.decided node) slot := by
  have hsame : ∀ m, 1 ≤ m → m ≤ slot → w'.decided node m = w.decided node m := by
    intro m hm hle
    obtain ⟨v, hv⟩ := Option.ne_none_iff_exists'.mp (h.2 m hm hle)
    rw [hv]
    exact (hg.advances node).decided m v hv
  refine ⟨⟨Nat.le_trans h.1 (hg.advances node).lastApplied, fun m hm hle => ?_⟩, ?_⟩
  · rw [hsame m hm hle]
    exact h.2 m hm hle
  · exact registerAt_congr hsame

theorem Inv.hasApplied {𝒮 : Deployment} {w : World P} (h : Inv 𝒮 w) {node : String} {slot : Nat}
    (hle : slot ≤ (w.acceptors node).state.lastApplied) : w.HasApplied node slot :=
  ⟨hle, fun m hm hm' => (h.wellFormed node).applied m hm (Nat.le_trans hm' hle)⟩

/-- Where the snapshot of a returned call comes from. -/
structure Explained (members : List String) (w : World P) (r : Return P) : Prop where
  snapshot : ∀ x ∈ r.outcome.returned, ∃ node ∈ members, ∃ slot,
    w.HasApplied node slot ∧ registerAt (w.decided node) slot = x
  applied : ∀ x, r.outcome = .swapped (.applied x) →
    ∃ v c turns, r.call = .compareAndSet v c turns ∧ x = .installed v c

theorem Explained.grow {members : List String} {w w' : World P} (hg : Grow w w') {r : Return P}
    (h : Explained members w r) : Explained members w' r := by
  refine ⟨fun x hx => ?_, h.applied⟩
  obtain ⟨node, hmem, slot, happ, hreg⟩ := h.snapshot x hx
  obtain ⟨happ', hsame⟩ := happ.grow hg
  exact ⟨node, hmem, slot, happ', hsame.trans hreg⟩

/-- An applied swap installed the chain it was asked to install. -/
theorem applied_of_resultAt {decided : Nat → Option (PaxosValue P)} {slot v : Nat}
    {c : LogChain P} {x : VersionedLogChain P} (hd : decided slot = some ⟨.compareAndSet v c⟩)
    (h : resultAt decided slot = some (.swapped (.applied x))) : x = .installed v c := by
  rw [resultAt, hd] at h
  simp only [Option.map_some, apply] at h
  split at h
  · cases h
  · cases h
    rfl

theorem CallPost.explained {𝒮 : Deployment} {w : World P} (hi : Inv 𝒮 w) {t : TaskId} {n : Nat}
    {c : Call P} {o : Outcome P} (h : CallPost 𝒮 t n c w o) {members : List String}
    (hmem : t.node ∈ members) : Explained members w ⟨c, o⟩ := by
  cases c with
  | decideSlot slot proposed =>
      cases o with
      | value _ => exact ⟨nofun, nofun⟩
      | snapshot _ => exact False.elim h
      | swapped _ => exact False.elim h
  | read turns =>
      cases o with
      | snapshot snapshot =>
          obtain ⟨slot, -, hle, -, hreg⟩ := h
          refine ⟨fun x hx => ?_, nofun⟩
          obtain rfl := Option.some.inj hx
          exact ⟨t.node, hmem, slot, hi.hasApplied hle, hreg⟩
      | value _ => exact False.elim h
      | swapped _ => exact False.elim h
  | compareAndSet expectedVersion newChain turns =>
      cases o with
      | swapped result =>
          obtain ⟨slot, hpos, hle, hdec, hres⟩ := h
          refine ⟨fun x hx => ?_, fun x hx => ?_⟩
          · obtain rfl := Option.some.inj hx
            exact ⟨t.node, hmem, slot, hi.hasApplied hle, registerAt_of_swapped hpos hres⟩
          · cases hx
            exact ⟨_, _, _, rfl, applied_of_resultAt hdec hres⟩
      | value _ => exact False.elim h
      | snapshot _ => exact False.elim h

/-! ## One history for all peers -/

/-- The chains that the state machine of a peer has gone through. -/
def World.chains (w : World P) (node : String) : List (LogChain P) :=
  chainsAt (w.decided node) (w.acceptors node).state.lastApplied

/-- A member behind which no member has applied. -/
def World.Foremost (w : World P) (members : List String) (node : String) : Prop :=
  node ∈ members ∧
    ∀ a ∈ members, (w.acceptors a).state.lastApplied ≤ (w.acceptors node).state.lastApplied

/-- Every member's state machine, and every snapshot that a call returned, stands behind
a prefix of `chains`. -/
structure OneHistory (members : List String) (chains : List (LogChain P)) (w : World P)
    (returns : List (Return P)) : Prop where
  peer : ∀ node ∈ members, ∃ h, h <+: chains ∧ (w.acceptors node).stateMachine = ofHistory h
  returned : ∀ r ∈ returns, ∀ x ∈ r.outcome.returned, ∃ h, h <+: chains ∧ ofHistory h = x
  applied : ∀ v c turns x, ⟨.compareAndSet v c turns, .swapped (.applied x)⟩ ∈ returns →
    x = .installed v c ∧ chains[v]? = some c

theorem World.exists_foremost (w : World P) {members : List String} (h : members ≠ []) :
    ∃ node, w.Foremost members node := by
  obtain ⟨node, hmem, hmax⟩ := members.toFinset.exists_max_image
    (fun a => (w.acceptors a).state.lastApplied)
    ⟨_, List.mem_toFinset.mpr (List.head_mem h)⟩
  exact ⟨node, List.mem_toFinset.mp hmem, fun a ha => hmax a (List.mem_toFinset.mpr ha)⟩

/-- Every peer's state machine is the register behind its chains. -/
theorem Inv.stateMachine_eq {𝒮 : Deployment} {w : World P} (h : Inv 𝒮 w) (node : String) :
    (w.acceptors node).stateMachine = ofHistory (w.chains node) := by
  have hreg := (h.wellFormed node).stateMachine.trans (h.wellFormed node).register
  exact hreg.trans (registerAt_eq_ofHistory _ _)

/-- What a peer has applied by now stands in the chains of every peer that has applied as
much later. -/
theorem Inv.chainsAt_stays {𝒮 : Deployment} {w w' : World P} (h : Inv 𝒮 w) (h' : Inv 𝒮 w')
    (hg : Grow w w') {a b : String} {slot : Nat}
    (ha : slot ≤ (w.acceptors a).state.lastApplied)
    (hb : slot ≤ (w'.acceptors b).state.lastApplied) :
    chainsAt (w.decided a) slot <+: w'.chains b := by
  rw [chainsAt_congr fun _ hm hle => h.decided_eq h' hg ha hb hm hle]
  exact chainsAt_grows _ hb

/-- A member has applied no more by now than a foremost member later. -/
theorem World.Foremost.le {w w' : World P} {members : List String} {a b : String}
    (hb : w'.Foremost members b) (hg : Grow w w') (ha : a ∈ members) :
    (w.acceptors a).state.lastApplied ≤ (w'.acceptors b).state.lastApplied :=
  Nat.le_trans (hg.advances a).lastApplied (hb.2 a ha)

/-- The chains of a foremost member are the history of the register. -/
theorem Inv.oneHistory {𝒮 : Deployment} {w : World P} (h : Inv 𝒮 w) {members : List String}
    {returns : List (Return P)} (hret : ∀ r ∈ returns, Explained members w r) {b : String}
    (hb : w.Foremost members b) : OneHistory members (w.chains b) w returns := by
  have hreturned : ∀ r ∈ returns, ∀ x ∈ r.outcome.returned,
      ∃ l, l <+: w.chains b ∧ ofHistory l = x := by
    intro r hr x hx
    obtain ⟨node, hmem, slot, happ, hreg⟩ := (hret r hr).snapshot x hx
    have hle := Nat.le_trans happ.1 (hb.2 node hmem)
    exact ⟨_, h.chainsAt_stays h (.refl w) happ.1 hle,
      (registerAt_eq_ofHistory _ _).symm.trans hreg⟩
  refine ⟨fun node hmem => ?_, hreturned, fun v c turns x hx => ?_⟩
  · exact ⟨_, h.chainsAt_stays h (.refl w) (Nat.le_refl _) (hb.2 node hmem),
      h.stateMachine_eq node⟩
  · obtain ⟨v', c', turns', hcall, rfl⟩ := (hret _ hx).applied x rfl
    cases hcall
    obtain ⟨l, hl, heq⟩ := hreturned _ hx _ rfl
    exact ⟨rfl, getElem?_of_installed hl heq⟩

/-- Snapshots of one version are equal. -/
theorem OneHistory.snapshot_eq {members : List String} {chains : List (LogChain P)} {w : World P}
    {returns : List (Return P)} (h : OneHistory members chains w returns) {r r' : Return P}
    (hr : r ∈ returns) (hr' : r' ∈ returns) {x y : VersionedLogChain P}
    (hx : x ∈ r.outcome.returned) (hy : y ∈ r'.outcome.returned) (hv : x.version = y.version) :
    x = y := by
  obtain ⟨l, hl, rfl⟩ := h.returned r hr x hx
  obtain ⟨l', hl', rfl⟩ := h.returned r' hr' y hy
  rw [ofHistory_congr hl hl' hv]

/-! ## Every run has one history -/

section Run

variable [DecidableEq P] {𝒮 : Deployment}

def returnWatch (𝒮 : Deployment) :
    Watch (discipline 𝒮 (Condition.any (S := signature P)) (Rider.none 𝒮 P))
      (returnObserver (P := P)) where
  Inv := fun w returns => ∀ r ∈ returns, Explained 𝒮.members.members w r
  Rely := fun _ _ _ => True
  rely_refl := fun _ _ => trivial
  rely_trans := fun _ _ => trivial
  grow := fun hg h r hr => (h r hr).grow hg
  start := fun _ _ _ h => h
  exec := fun _ _ h => h
  resume := fun _ _ _ h => h
  start_rely := fun _ _ _ _ => trivial
  exec_rely := fun _ _ _ _ => trivial
  resume_rely := fun _ _ _ _ _ => trivial

theorem return_sound :
    ((returnWatch (P := P) 𝒮).discipline Condition.any).Sound where
  start := by
    intro w t c w' p hi _ hst
    obtain ⟨⟨w₁, p'⟩, hst', heq⟩ := Option.map_eq_some_iff.mp hst
    obtain ⟨rfl, rfl⟩ := Prod.mk.inj heq
    change 𝒮.start w.1 t c = some (w₁, p') at hst'
    rw [Deployment.start] at hst'
    split at hst'
    · next hmem =>
        cases hst'
        have hg := w.1.grow_invoke t w.1.completed.length
        have hk : ((returnWatch 𝒮).discipline Condition.any).Kept t w
            ({ w.1 with invoked := Function.update w.1.invoked t w.1.completed.length }, w.2) :=
          Watch.kept_iff.mpr ⟨kept_invoke hi.1 t _, (returnWatch 𝒮).grow hg hi.2,
            fun _ _ => trivial⟩
        have hp : ((returnWatch 𝒮).discipline Condition.any).Triple t c
            (fun w => 0 ≤ (w.1.acceptors t.node).state.lastApplied) _
            (fun w o => CallPost 𝒮 t 0 c w.1 o) fun _ e => e.Harmless :=
          (returnWatch 𝒮).triple (fun _ => trivial)
            (program_spec (𝒮.proposer t.node hmem) rfl 0 c)
        refine ⟨hg, hp.safe_finish hk (Nat.zero_le _) (fun v o hi' h => ?_) fun v e hi' h => ?_⟩
        · have hg' := finish_grow v.1 t (.ok o)
          refine Watch.kept_iff.mpr ⟨kept_finish hi'.1 t o trivial, ?_, fun _ _ => trivial⟩
          intro r hr
          rcases List.mem_cons.mp hr with rfl | hr
          · exact (h.explained hi'.1.1 hmem).grow hg'
          · exact (hi'.2 r hr).grow hg'
        · refine Watch.kept_iff.mpr ⟨kept_raise hi'.1 t h, ?_, fun _ _ => trivial⟩
          exact (returnWatch 𝒮).grow (finish_grow v.1 t (.error e)) hi'.2
    · cases hst'
  disturb := by
    intro w d w' hi hd
    obtain ⟨w₁, hd', rfl⟩ := Option.map_eq_some_iff.mp hd
    obtain ⟨hi', hg, hr⟩ := (sound_none 𝒮).disturb hi.1 hd'
    exact ⟨⟨hi', (returnWatch 𝒮).grow hg hi.2⟩, hg, fun u hu => ⟨hr u hu, trivial⟩⟩

/-- **One register history.** In every run, snapshots of one version that calls returned
carry one chain; an applied `compare_and_set` returned the next version with the chain it
was given; no version has two applied chains; and there is one list of chains, which only
grows, of which every peer's state machine and every returned snapshot is a prefix. -/
theorem one_register_history {s s' : RecordedState P}
    (h : (𝒮.runtime.observed returnObserver).Reachable (· = (World.initial P, [])) s)
    (hl : (𝒮.runtime.observed returnObserver).Later Condition.any s s') :
    (∀ r ∈ s.world.2, ∀ r' ∈ s.world.2, ∀ x ∈ r.outcome.returned, ∀ y ∈ r'.outcome.returned,
      x.version = y.version → x.chain = y.chain) ∧
    (∀ v c turns x, ⟨.compareAndSet v c turns, .swapped (.applied x)⟩ ∈ s.world.2 →
      x.version = v + 1 ∧ x.chain = some c) ∧
    (∀ v c turns x c' turns' x', ⟨.compareAndSet v c turns, .swapped (.applied x)⟩ ∈ s.world.2 →
      ⟨.compareAndSet v c' turns', .swapped (.applied x')⟩ ∈ s.world.2 → c = c') ∧
    ∃ chains chains', chains <+: chains' ∧
      OneHistory 𝒮.members.members chains s.world.1 s.world.2 ∧
      OneHistory 𝒮.members.members chains' s'.world.1 s'.world.2 ∧
      ∀ node, (s.world.1.acceptors node).stateMachine.version ≤
        (s'.world.1.acceptors node).stateMachine.version := by
  have hinit : ∀ w : World P × List (Return P), w = (World.initial P, []) →
      ((returnWatch 𝒮).discipline Condition.any).Inv w := by
    rintro w rfl
    exact ⟨⟨inv_initial 𝒮, trivial⟩, fun r hr => nomatch hr⟩
  have hs := return_sound.reachable hinit h
  obtain ⟨hs', hg⟩ := return_sound.grow_later hs hl
  have hne : 𝒮.members.members ≠ [] := by
    intro hnil
    have hsize := 𝒮.members.size
    rw [hnil] at hsize
    cases hsize
  obtain ⟨b, hb⟩ := s.world.1.exists_foremost hne
  obtain ⟨b', hb'⟩ := s'.world.1.exists_foremost hne
  have hone := hs.1.1.1.oneHistory hs.1.2 hb
  refine ⟨fun r hr r' hr' x hx y hy hv => ?_, fun v c turns x hx => ?_,
    fun v c turns x c' turns' x' hx hx' => ?_, _, _, ?_, hone,
    hs'.1.1.1.oneHistory hs'.1.2 hb', fun node => ?_⟩
  · rw [hone.snapshot_eq hr hr' hx hy hv]
  · rw [(hone.applied v c turns x hx).1]
    exact ⟨rfl, rfl⟩
  · have hc := (hone.applied v c turns x hx).2
    rw [(hone.applied v c' turns' x' hx').2] at hc
    exact (Option.some.inj hc).symm
  · exact hs.1.1.1.chainsAt_stays hs'.1.1.1 hg (Nat.le_refl _) (hb'.le hg hb.1)
  · rw [hs.1.1.1.stateMachine_eq, hs'.1.1.1.stateMachine_eq, version_ofHistory, version_ofHistory]
    exact (hs.1.1.1.chainsAt_stays hs'.1.1.1 hg (Nat.le_refl _)
      (hg.advances node).lastApplied).length_le

end Run

/-! ## A run of two swaps -/

/-- `a` installs the first chain in slot 1; a second `compare_and_set` at version 0 finds
it in slot 2; `a` restarts and reads it in slot 3. -/
def mismatchRun : List (Action TaskId (Call Unit) (Choice Unit) (Disturbance Unit)) :=
  [.launch ⟨"a", 0⟩ (.compareAndSet 0 singleSegment 1)] ++
    undisturbed ⟨"a", 0⟩ 1 ⟨1, "a", Nat.one_pos, a_named⟩ bootstrapValue ++
    [.launch ⟨"a", 1⟩ (.compareAndSet 0 singleSegment 1)] ++
    undisturbed ⟨"a", 1⟩ 2 ⟨2, "a", Nat.two_pos, a_named⟩ bootstrapValue ++
    [.disturb (.crash "a"), .launch ⟨"a", 2⟩ (.read 1)] ++
    undisturbed ⟨"a", 2⟩ 3 ⟨3, "a", three_positive, a_named⟩ ⟨.readBarrier⟩

theorem mismatchRun_runs :
    (((threeNodes.runtime.observed returnObserver).run
        (fresh _ _ _ _ (World.initial Unit, [])) mismatchRun).map fun s =>
      s.world.2.map fun r => (r.outcome.version, r.outcome.returned)) =
    some [(some 1, some (.installed 0 singleSegment)),
      (none, some (.installed 0 singleSegment)),
      (some 1, some (.installed 0 singleSegment))] := by
  decide +kernel

theorem one_register_history_mismatch :
    ∃ s : RecordedState Unit,
      (s.world.2.map fun r => (r.outcome.version, r.outcome.returned)) =
        [(some 1, some (.installed 0 singleSegment)),
          (none, some (.installed 0 singleSegment)),
          (some 1, some (.installed 0 singleSegment))] ∧
      ∃ chains, OneHistory ["a", "b", "c"] chains s.world.1 s.world.2 := by
  obtain ⟨s, hs, hpost⟩ := Option.map_eq_some_iff.mp mismatchRun_runs
  obtain ⟨-, -, -, chains, -, -, hone, -⟩ := one_register_history
    (Reachable.run (.init rfl) hs) .refl
  exact ⟨s, hpost, chains, hone⟩

end DelosLab.Paxos
