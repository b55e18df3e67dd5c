import DelosLab.Paxos.Proposals

/-!
# Swaps that lost

A `compare_and_set` that a peer answers with a mismatch was decided in a slot where the
register had another version. The same command installs its chain in another slot only if a
peer took it up there after it had applied it.
-/

namespace DelosLab.Paxos

open Async Async.Runtime Consensus
open VirtualLog (LogChain VersionedLogChain CompareAndSetResult)

variable {P : Type}

/-- `node` has applied a swap of version `v` to `chain` at another version. -/
def World.Lost (w : World P) (node : String) (v : Nat) (chain : LogChain P) : Prop :=
  ∃ slot, 1 ≤ slot ∧ w.HasApplied node slot ∧
    w.decided node slot = some ⟨.compareAndSet v chain⟩ ∧
    (registerAt (w.decided node) (slot - 1)).version ≠ v

/-- Some peer's register has gone from version `v` to version `v + 1` with `chain`. -/
def World.Installed (w : World P) (v : Nat) (chain : LogChain P) : Prop :=
  ∃ node, (w.chains node)[v]? = some chain

/-- No peer has taken up a swap of version `v` to `chain` that it had applied before. -/
def Notes.TakenUpOnce (notes : Notes P) (v : Nat) (chain : LogChain P) : Prop :=
  ∀ p ∈ notes.picks, p.value = ⟨.compareAndSet v chain⟩ → p.spent = false

theorem World.Lost.grow {w w' : World P} (hg : Grow w w') {node : String} {v : Nat}
    {chain : LogChain P} (h : w.Lost node v chain) : w'.Lost node v chain := by
  obtain ⟨slot, hpos, happ, hdec, hver⟩ := h
  have hbefore : w.HasApplied node (slot - 1) :=
    ⟨Nat.le_trans (Nat.sub_le slot 1) happ.1,
      fun m hm hle => happ.2 m hm (Nat.le_trans hle (Nat.sub_le slot 1))⟩
  refine ⟨slot, hpos, (happ.grow hg).1, (hg.advances node).decided slot _ hdec, ?_⟩
  rw [(hbefore.grow hg).2]
  exact hver

/-- A mismatch is the answer of a slot that was applied at another version. -/
theorem Inv.lost {𝒮 : Deployment} {w : World P} (h : Inv 𝒮 w) {node : String} {v : Nat}
    {chain : LogChain P} {x : VersionedLogChain P}
    (hs : SwapsAt node v chain w (.versionMismatch x)) : w.Lost node v chain := by
  obtain ⟨slot, hpos, hle, hdec, hres⟩ := hs
  refine ⟨slot, hpos, h.hasApplied hle, hdec, fun hver => ?_⟩
  rw [resultAt, hdec] at hres
  simp only [Option.map_some, apply] at hres
  split at hres
  · next hne => exact hne hver
  · cases hres

/-- The chain at an index was installed by a slot at that version. -/
theorem exists_slot_of_chainsAt {decided : Nat → Option (PaxosValue P)} {n v : Nat}
    {chain : LogChain P} (h : (chainsAt decided n)[v]? = some chain) :
    ∃ slot, 1 ≤ slot ∧ slot ≤ n ∧ decided slot = some ⟨.compareAndSet v chain⟩ ∧
      (registerAt decided (slot - 1)).version = v := by
  induction n with
  | zero => cases h
  | succ n ih =>
      -- The slot is an earlier one, unless the last slot installed the chain.
      have earlier : (chainsAt decided n)[v]? = some chain →
          ∃ slot, 1 ≤ slot ∧ slot ≤ n + 1 ∧ decided slot = some ⟨.compareAndSet v chain⟩ ∧
            (registerAt decided (slot - 1)).version = v := by
        intro h
        obtain ⟨slot, hpos, hle, hslot⟩ := ih h
        exact ⟨slot, hpos, Nat.le_succ_of_le hle, hslot⟩
      rw [chainsAt] at h
      cases hd : decided (n + 1) with
      | none =>
          rw [hd] at h
          exact earlier h
      | some value =>
          obtain ⟨command⟩ := value
          rw [hd] at h
          cases command with
          | readBarrier => exact earlier h
          | compareAndSet expectedVersion newChain =>
              simp only [extend] at h
              split at h
              · next hver =>
                  rcases Nat.lt_or_ge v (chainsAt decided n).length with hlt | hge
                  · rw [List.getElem?_append_left hlt] at h
                    exact earlier h
                  · rw [List.getElem?_append_right hge] at h
                    obtain ⟨hzero, hchain⟩ := List.getElem?_eq_some_iff.mp h
                    have hv : v = expectedVersion := by
                      simp only [List.length_singleton] at hzero
                      omega
                    rw [List.getElem_singleton] at hchain
                    refine ⟨n + 1, Nat.le_add_left 1 n, Nat.le_refl _, ?_, ?_⟩
                    · rw [hd, hv, hchain]
                    · rw [Nat.add_sub_cancel, registerAt_eq_ofHistory, version_ofHistory, hver, hv]
              · exact earlier h

/-- A value that a peer has decided was taken up for its slot. -/
theorem Origins.pick {𝒮 : Deployment} {w : World P × Notes P} (h : Origins w) (hi : Inv 𝒮 w.1)
    {node : String} {slot : Nat} {value : PaxosValue P}
    (hd : w.1.decided node slot = some value) :
    ∃ p ∈ w.2.picks, p.slot = slot ∧ p.value = value ∧ p.Holds w.1 := by
  obtain ⟨b, hb⟩ := hi.chosen_of_decided hd
  obtain ⟨p, hp, hslot, hvalue⟩ :=
    h.proposed slot b value ((hi.disciplined slot).proposed_of_chosen hb)
  exact ⟨p, hp, hslot, hvalue, h.picks p hp⟩

/-- A swap that was never taken up again is decided in no two slots, unless the register had
passed its version at the earlier one. -/
theorem Origins.passed {𝒮 : Deployment} {w : World P × Notes P} (h : Origins w)
    (hi : Inv 𝒮 w.1) {a b : String} {k e v : Nat} {chain : LogChain P}
    (honce : w.2.TakenUpOnce v chain) (hk : 1 ≤ k) (hlt : k < e)
    (hka : w.1.HasApplied a k) (hdk : w.1.decided a k = some ⟨.compareAndSet v chain⟩)
    (hde : w.1.decided b e = some ⟨.compareAndSet v chain⟩) :
    v < (registerAt (w.1.decided a) (k - 1)).version := by
  obtain ⟨p, hp, rfl, hvalue, hholds⟩ := h.pick hi hde
  have hkp : k ≤ (w.1.acceptors p.node).state.lastApplied :=
    Nat.le_trans (Nat.le_sub_one_of_lt hlt) hholds.applied.1
  have hsame : w.1.decided p.node k = some p.value := by
    rw [← hi.decided_eq hi (.refl _) hka.1 hkp hk (Nat.le_refl k), hdk, hvalue]
  have hregister : registerAt (w.1.decided p.node) (k - 1) =
      registerAt (w.1.decided a) (k - 1) :=
    hi.registerAt_eq hi (.refl _) (Nat.le_trans (Nat.sub_le k 1) hkp)
      (Nat.le_trans (Nat.sub_le k 1) hka.1)
  have hfresh := hholds.fresh (honce p hp hvalue) v chain (congrArg PaxosValue.command hvalue) k hk
    hlt hsame
  rw [hregister] at hfresh
  exact hfresh

/-- **A lost swap that no peer took up twice is not installed.** -/
theorem Origins.not_installed {𝒮 : Deployment} {w : World P × Notes P} (h : Origins w)
    (hi : Inv 𝒮 w.1) {node : String} {v : Nat} {chain : LogChain P}
    (hlost : w.1.Lost node v chain) (honce : w.2.TakenUpOnce v chain) :
    ¬w.1.Installed v chain := by
  rintro ⟨b, hchain⟩
  obtain ⟨k, hk, hka, hdk, hne⟩ := hlost
  obtain ⟨e, he, hle, hde, hver⟩ := exists_slot_of_chainsAt hchain
  have heb : w.1.HasApplied b e := hi.hasApplied hle
  rcases Nat.lt_trichotomy k e with hlt | heq | hlt
  · -- The register was past `v` behind slot `k`, so it was at the later slot `e`.
    have hpassed := h.passed hi honce hk hlt hka hdk hde
    have hmono := version_registerAt_le (w.1.decided b) (Nat.sub_le_sub_right (Nat.le_of_lt hlt) 1)
    rw [hver, ← hi.registerAt_eq hi (.refl _) (Nat.le_trans (Nat.sub_le k 1) hka.1)
      (Nat.le_trans (Nat.sub_le k 1) (Nat.le_trans (Nat.le_of_lt hlt) heb.1))] at hmono
    exact Nat.lt_irrefl v (Nat.lt_of_lt_of_le hpassed hmono)
  · subst heq
    refine hne ?_
    rw [hi.registerAt_eq hi (.refl _) (Nat.le_trans (Nat.sub_le k 1) hka.1)
      (Nat.le_trans (Nat.sub_le k 1) heb.1)]
    exact hver
  · have hpassed := h.passed hi honce he hlt heb hde hdk
    rw [hver] at hpassed
    exact Nat.lt_irrefl v hpassed

/-! ## What the calls return -/

section Run

variable [DecidableEq P] {𝒮 : Deployment}

/-- Every mismatch that a call returned is a loss at its peer. -/
def Notes.Losses (notes : Notes P) (w : World P) : Prop :=
  ∀ t v chain turns x, notes.returned t =
    some ⟨.compareAndSet v chain turns, .swapped (.versionMismatch x)⟩ → w.Lost t.node v chain

omit [DecidableEq P] in
theorem Notes.Losses.grow {notes notes' : Notes P} {w w' : World P} (h : notes.Losses w)
    (hg : Grow w w') (hn : notes'.returned = notes.returned) : notes'.Losses w' := by
  intro t v chain turns x hr
  rw [hn] at hr
  exact (h t v chain turns x hr).grow hg

theorem returned_exec (w : World P) (t : TaskId) (a : Act P) (notes : Notes P) :
    (pickObserver.exec w t a notes).returned = notes.returned := by
  simp only [pickObserver]
  split <;> rfl

def lossWatch (𝒮 : Deployment) :
    Watch (discipline 𝒮 (Condition.any (S := signature P)) (Rider.none 𝒮 P))
      (pickObserver (P := P)) where
  Inv := fun w notes => notes.Losses w
  Rely := fun _ _ _ => True
  rely_refl := fun _ _ => trivial
  rely_trans := fun _ _ => trivial
  grow := fun hg h => h.grow hg rfl
  start := fun _ _ _ h => h
  exec := fun t a h => h.grow (.refl _) (returned_exec _ t a _)
  resume := fun _ _ _ h => h
  start_rely := fun _ _ _ _ => trivial
  exec_rely := fun _ _ _ _ => trivial
  resume_rely := fun _ _ _ _ _ => trivial

theorem loss_sound : ((lossWatch (P := P) 𝒮).discipline ownTasks).Sound where
  start := by
    intro w t c w' p hi _ hst
    obtain ⟨⟨w₁, p'⟩, hst', heq⟩ := Option.map_eq_some_iff.mp hst
    obtain ⟨rfl, rfl⟩ := Prod.mk.inj heq
    change 𝒮.start w.1 t c = some (w₁, p') at hst'
    rw [Deployment.start] at hst'
    split at hst'
    · next hmem =>
        cases hst'
        have hg := w.1.grow_invoke t w.1.completed.length
        have hk : ((lossWatch 𝒮).discipline ownTasks).Kept t w
            ({ w.1 with invoked := Function.update w.1.invoked t w.1.completed.length },
              { w.2 with calls := Function.update w.2.calls t (some c) }) :=
          Watch.kept_iff.mpr ⟨kept_invoke hi.1 t _, hi.2.grow hg rfl, fun _ _ => trivial⟩
        have hp : ((lossWatch 𝒮).discipline ownTasks).Triple t c
            (fun w => 0 ≤ (w.1.acceptors t.node).state.lastApplied) _
            (fun w o => CallPost 𝒮 t 0 c w.1 o) fun _ e => e.Harmless :=
          (lossWatch 𝒮).triple (fun _ => trivial)
            (program_spec (𝒮.proposer t.node hmem) rfl 0 c)
        refine ⟨hg, hp.safe_finish hk (Nat.zero_le _) (fun v o hi' h => ?_) fun v e hi' h => ?_⟩
        · have hg' := finish_grow v.1 t (.ok o)
          refine Watch.kept_iff.mpr ⟨kept_finish hi'.1 t o trivial, ?_, fun _ _ => trivial⟩
          intro u n chain turns x hr
          change Function.update v.2.returned t (some ⟨c, o⟩) u = _ at hr
          by_cases hut : u = t
          · rw [hut, Function.update_self] at hr
            cases hr
            rw [hut]
            exact (hi'.1.1.lost h).grow hg'
          · rw [Function.update_of_ne hut] at hr
            exact (hi'.2 u n chain turns x hr).grow hg'
        · refine Watch.kept_iff.mpr ⟨kept_raise hi'.1 t h, ?_, fun _ _ => trivial⟩
          exact hi'.2.grow (finish_grow v.1 t (.error e)) rfl
    · cases hst'
  disturb := by
    intro w d w' hi hd
    obtain ⟨w₁, hd', rfl⟩ := Option.map_eq_some_iff.mp hd
    obtain ⟨hi', hg, hr⟩ := (sound_none 𝒮).disturb hi.1 hd'
    exact ⟨⟨hi', hi.2.grow hg rfl⟩, hg, fun u hu => ⟨hr u hu, trivial⟩⟩

/-- The peers and the notes on their calls. -/
abbrev NotedState (P : Type) : Type :=
  State (signature P) (World P × Notes P) TaskId (Call P) (Outcome P)

/-- The states that the peers reach while they serve calls, each by a task of its own. -/
def Deployment.Serving (𝒮 : Deployment) : NotedState P → Prop :=
  (𝒮.runtime.observed pickObserver).ReachableUnder ownTasks
    (· = (World.initial P, Notes.initial P))

/-- What the peers keep while they serve. -/
structure Served (𝒮 : Deployment) (w : World P × Notes P) : Prop where
  inv : Inv 𝒮 w.1
  origins : Origins w
  losses : w.2.Losses w.1

theorem Deployment.Serving.stateInv {s : NotedState P} (h : 𝒮.Serving s) :
    ((lossWatch 𝒮).discipline ownTasks).StateInv s := by
  refine loss_sound.reachable ?_ h
  rintro w rfl
  exact ⟨⟨inv_initial 𝒮, trivial⟩, nofun⟩

omit [DecidableEq P] in
theorem origins_initial (𝒮 : Deployment) : Origins (World.initial P, Notes.initial P) := by
  refine ⟨(inv_initial 𝒮).wellFormed, ?_, nofun, nofun⟩
  rintro slot b v ⟨m, hm, -⟩
  cases hm

theorem Deployment.Serving.served {s : NotedState P} (h : 𝒮.Serving s) : Served 𝒮 s.world := by
  have hi : ∀ s : NotedState P, 𝒮.Serving s → Inv 𝒮 s.world.1 :=
    fun s hs => (hs.stateInv).1.1.1
  refine ⟨hi s h, ?_, h.stateInv.1.2⟩
  refine (origins_sound.reachable ?_ (h.within hi)).1
  rintro w rfl
  exact origins_initial 𝒮

/-- From there on the peers only grow. -/
theorem Deployment.Serving.grow {s s' : NotedState P} (h : 𝒮.Serving s)
    (hl : (𝒮.runtime.observed pickObserver).Later ownTasks s s') :
    Grow s.world.1 s'.world.1 :=
  (loss_sound.grow_later h.stateInv hl).2

/-- The call of a task stays what it is. -/
theorem keeps_call (t : TaskId) (c : Call P) :
    (𝒮.runtime.observed pickObserver).Keeps ownTasks fun w => w.2.calls t = some c where
  start := by
    intro w u c' w' p hw hC hst
    obtain ⟨r, -, heq⟩ := Option.map_eq_some_iff.mp hst
    obtain ⟨rfl, -⟩ := Prod.mk.inj heq
    have hne : t ≠ u := by
      rintro rfl
      rw [hC.1] at hw
      cases hw
    exact (Function.update_of_ne hne _ _).trans hw
  exec := by
    intro w u a hw
    show (pickObserver.exec w.1 u a w.2).calls t = some c
    simp only [pickObserver]
    split <;> exact hw
  resume := by
    intro w u c' e x w' r hw _ hr
    obtain ⟨r', -, heq⟩ := Option.map_eq_some_iff.mp hr
    obtain ⟨rfl, -⟩ := Prod.mk.inj heq
    exact hw
  finish := by
    intro w u c' o hw
    cases o <;> exact hw
  disturb := by
    intro w d w' hw hd
    obtain ⟨w₁, -, rfl⟩ := Option.map_eq_some_iff.mp hd
    exact hw

end Run

end DelosLab.Paxos
