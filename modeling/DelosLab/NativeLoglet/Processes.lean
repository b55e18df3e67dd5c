import DelosLab.NativeLoglet.Discipline

/-!
# Changing one process

The store, the client and the sequencer of a process change one at a time, and a
restart changes the process as a whole.
-/

namespace DelosLab.NativeLoglet

open Async Consensus LogletStore

variable {𝒮 : Deployment} {w : World}

/-! ## Changing one part of a process -/

theorem World.setProcess_self (w : World) (node : String) (process : Process) :
    (w.setProcess node process).processes node = process :=
  Function.update_self _ _ _

theorem World.setProcess_of_ne (w : World) {node n : String} (process : Process) (h : n ≠ node) :
    (w.setProcess node process).processes n = w.processes n :=
  Function.update_of_ne h _ _

@[simp] theorem World.store_setStore (w : World) (node : String) (s : LogletStore) :
    (w.setStore node s).store node = s := by
  rw [World.store, World.setStore, World.setProcess_self]

theorem World.store_setStore_of_ne (w : World) {node n : String} (s : LogletStore) (h : n ≠ node) :
    (w.setStore node s).store n = w.store n := by
  rw [World.store, World.setStore, World.setProcess_of_ne _ _ h, World.store]

/-- Setting a store leaves the rest of every process alone. -/
theorem World.processes_setStore (w : World) (node : String) (s : LogletStore) (n : String) :
    (w.setStore node s).processes n =
      { w.processes n with store := (w.setStore node s).store n } := by
  by_cases hn : n = node
  · subst hn
    rw [World.store_setStore, World.setStore, World.setProcess_self]
  · rw [World.store_setStore_of_ne w s hn, World.setStore, World.setProcess_of_ne _ _ hn]
    rfl

/-! ## The store of a LogServer -/

theorem World.grow_setStore {node : String} {s : LogletStore} (h : (w.store node).Advances s) :
    Grow w (w.setStore node s) := by
  refine ⟨fun n => ?_, List.prefix_refl _, List.Subset.refl _, fun _ hr => .inl hr,
    List.prefix_refl _, List.Subset.refl _, fun _ _ hp => .inl hp, List.prefix_refl _⟩
  by_cases hn : n = node
  · subst hn
    rw [World.store_setStore]
    exact h
  · rw [World.store_setStore_of_ne w s hn]
    exact .refl _

theorem World.rely_setStore (w : World) (node : String) (s : LogletStore) (t : TaskId) :
    Rely t w (w.setStore node s) := by
  refine ⟨fun s' hs => ⟨?_, rfl⟩, fun hp => ?_, rfl⟩
  · rw [World.Locked, World.processes_setStore]
    exact hs
  · rw [World.processes_setStore]
    exact hp

theorem Inv.setStore (h : Inv 𝒮 w) {node : String} {s : LogletStore}
    (hadv : (w.store node).Advances s) (hs : StoreInv 𝒮 (w.setStore node s) node s) :
    Inv 𝒮 (w.setStore node s) := by
  have hg := World.grow_setStore hadv
  refine h.changed hg rfl (List.Subset.refl _) rfl rfl rfl rfl rfl (fun n => ?_) (fun n => ?_)
    (h.fenced.mono hg rfl fun n => ⟨_, _, w.processes_setStore node s n⟩)
  · by_cases hn : n = node
    · subst hn
      rw [World.store_setStore]
      exact hs
    · rw [World.store_setStore_of_ne w s hn]
      exact (h.store n).mono hg
  · rw [World.client, World.processes_setStore]
    exact (h.client n).mono hg

/-! ## The client of a process -/

@[simp] theorem World.client_setClient (w : World) (node : String) (c : NativeLogletClient) :
    (w.setClient node c).client node = c := by
  rw [World.client, World.setClient, World.setProcess_self]

theorem World.client_setClient_of_ne (w : World) {node n : String} (c : NativeLogletClient)
    (h : n ≠ node) : (w.setClient node c).client n = w.client n := by
  rw [World.client, World.setClient, World.setProcess_of_ne _ _ h, World.client]

theorem World.processes_setClient (w : World) (node : String) (c : NativeLogletClient)
    (n : String) :
    (w.setClient node c).processes n =
      { w.processes n with client := (w.setClient node c).client n } := by
  by_cases hn : n = node
  · subst hn
    rw [World.client_setClient, World.setClient, World.setProcess_self]
  · rw [World.client_setClient_of_ne w c hn, World.setClient, World.setProcess_of_ne _ _ hn]
    rfl

/-- A change that leaves every store and all records alone. -/
theorem World.grow_of_store {w' : World} (hs : ∀ n, w'.store n = w.store n)
    (hm : w'.messages = w.messages) (hr : w'.replies = w.replies) (ha : w.assigned <+: w'.assigned)
    (hst : w'.stored = w.stored) (hc : w'.completed = w.completed) : Grow w w' := by
  refine ⟨fun n => hs n ▸ .refl _, hm ▸ List.prefix_refl _, hr ▸ List.Subset.refl _,
    fun r hr' => .inl (hr ▸ hr'), ha, hst ▸ List.Subset.refl _, fun n p hp => .inl (hst ▸ hp),
    hc ▸ List.prefix_refl _⟩

theorem World.grow_setClient (w : World) (node : String) (c : NativeLogletClient) :
    Grow w (w.setClient node c) := by
  refine World.grow_of_store (fun n => ?_) rfl rfl (List.prefix_refl _) rfl rfl
  rw [World.store, World.processes_setClient]
  rfl

theorem World.rely_setClient (w : World) (node : String) (c : NativeLogletClient) (t : TaskId) :
    Rely t w (w.setClient node c) := by
  refine ⟨fun s hs => ⟨?_, rfl⟩, fun hp => ?_, rfl⟩
  · rw [World.Locked, World.processes_setClient]
    exact hs
  · rw [World.processes_setClient]
    exact hp

theorem Inv.setClient (h : Inv 𝒮 w) {node : String} {c : NativeLogletClient}
    (hc : ClientInv 𝒮 w c) : Inv 𝒮 (w.setClient node c) := by
  have hg := w.grow_setClient node c
  refine h.changed hg rfl (List.Subset.refl _) rfl rfl rfl rfl rfl (fun n => ?_) (fun n => ?_)
    (h.fenced.mono hg rfl fun n => ⟨_, _, w.processes_setClient node c n⟩)
  · rw [World.store, World.processes_setClient]
    exact (h.store n).mono hg
  · by_cases hn : n = node
    · subst hn
      rw [World.client_setClient]
      exact hc.mono hg
    · rw [World.client_setClient_of_ne w c hn]
      exact (h.client n).mono hg

/-! ## The sequencer of a process -/

@[simp] theorem World.processes_setSequencer_self (w : World) (node : String)
    (s : NativeSequencer) :
    (w.setSequencer node s).processes node = { w.processes node with sequencer := some s } :=
  World.setProcess_self _ _ _

theorem World.processes_setSequencer_of_ne (w : World) {node n : String} (s : NativeSequencer)
    (h : n ≠ node) : (w.setSequencer node s).processes n = w.processes n :=
  World.setProcess_of_ne _ _ h

/-- Setting a sequencer leaves stores, clients and incarnations alone. -/
theorem World.setSequencer_parts (w : World) (node : String) (s : NativeSequencer) (n : String) :
    (w.setSequencer node s).store n = w.store n ∧ (w.setSequencer node s).client n = w.client n ∧
      ((w.setSequencer node s).processes n).incarnation = (w.processes n).incarnation ∧
        ((w.setSequencer node s).processes n).past = (w.processes n).past := by
  rw [World.store, World.client]
  by_cases hn : n = node
  · subst hn
    rw [World.processes_setSequencer_self]
    exact ⟨rfl, rfl, rfl, rfl⟩
  · rw [World.processes_setSequencer_of_ne w s hn]
    exact ⟨rfl, rfl, rfl, rfl⟩

theorem World.grow_setSequencer (w : World) (node : String) (s : NativeSequencer) :
    Grow w (w.setSequencer node s) :=
  World.grow_of_store (fun n => (w.setSequencer_parts node s n).1) rfl rfl (List.prefix_refl _)
    rfl rfl

theorem Inv.setSequencer (h : Inv 𝒮 w) {node : String} {s : NativeSequencer}
    (hnode : node = 𝒮.segment.configuration.sequencerNode ∧
      (w.processes node).incarnation = 𝒮.segment.configuration.sequencerIncarnation)
    (hready : s.holder = none → SequencerInv 𝒮 w s s.pending) :
    Inv 𝒮 (w.setSequencer node s) := by
  have hg := w.grow_setSequencer node s
  refine h.changed hg rfl (List.Subset.refl _) rfl rfl rfl rfl rfl (fun n => ?_) (fun n => ?_)
    ⟨fun n hn => ?_, fun n => ?_, fun _ => ?_, fun n s' hn hh => ?_⟩
  · rw [(w.setSequencer_parts node s n).1]
    exact (h.store n).mono hg
  · rw [(w.setSequencer_parts node s n).2.1]
    exact (h.client n).mono hg
  · by_cases heq : n = node
    · subst heq
      rw [World.processes_setSequencer_self]
      exact hnode
    · rw [World.processes_setSequencer_of_ne w s heq] at hn ⊢
      exact h.fenced.fence n hn
  · obtain ⟨-, -, hinc, hpast⟩ := w.setSequencer_parts node s n
    rw [hinc, hpast]
    exact h.fenced.fresh n
  · rw [← hnode.1, World.processes_setSequencer_self]
    exact .inl nofun
  · by_cases heq : n = node
    · subst heq
      rw [World.processes_setSequencer_self] at hn
      obtain rfl := Option.some.inj hn
      exact (hready hh).mono hg rfl
    · rw [World.processes_setSequencer_of_ne w s heq] at hn
      exact (h.fenced.ready n s' hn hh).mono hg rfl

/-- There is one sequencer, so one task is inside its lock. -/
theorem Inv.locked_unique (h : Inv 𝒮 w) {t u : TaskId} {s s' : NativeSequencer}
    (ht : (w.processes t.node).sequencer = some s) (hu : w.Locked u s') :
    s' = s ∧ u.node = t.node := by
  have hpresent : ∀ {n x}, (w.processes n).sequencer = some x → (w.processes n).sequencer ≠ none :=
    fun hx hn => nomatch hx.symm.trans hn
  have hnode : u.node = t.node :=
    (h.fenced.fence _ (hpresent hu.1)).1.trans (h.fenced.fence _ (hpresent ht)).1.symm
  have hs := hu.1
  rw [hnode, ht] at hs
  exact ⟨(Option.some.inj hs).symm, hnode⟩

/-- A change of a sequencer that `u` is not inside of. -/
theorem World.rely_setSequencer {node : String} {s : NativeSequencer} {u : TaskId}
    (hu : ∀ s', w.Locked u s' → u.node ≠ node) : Rely u w (w.setSequencer node s) := by
  refine ⟨fun s' hs => ⟨?_, rfl⟩, fun hp => ?_, rfl⟩
  · rw [World.Locked, World.processes_setSequencer_of_ne w s (hu s' hs)]
    exact hs
  · by_cases hn : u.node = node
    · rw [hn, World.processes_setSequencer_self]
      exact nofun
    · rw [World.processes_setSequencer_of_ne w s hn]
      exact hp

/-! ## Restarting a process -/

/-- A process comes up again: its store is reopened and everything else is new. -/
theorem Inv.restart (h : Inv 𝒮 w) {node incarnation : String} {w' : World}
    (hr : 𝒮.restart w node incarnation = some w') :
    Inv 𝒮 w' ∧ Grow w w' ∧ ∀ t, t.node ≠ node → Rely t w w' := by
  rw [Deployment.restart] at hr
  split at hr
  · next hinc =>
      cases hr
      set w' := World.setProcess _ node _ with hw'
      have hself : w'.processes node = ⟨incarnation,
          (w.processes node).incarnation :: (w.processes node).past, none, .new,
          (w.processes node).store.reopen⟩ := World.setProcess_self _ _ _
      have hother : ∀ n, n ≠ node → w'.processes n = w.processes n :=
        fun n hn => World.setProcess_of_ne _ _ hn
      have hg : Grow w w' := by
        refine ⟨fun n => ?_, List.prefix_refl _, List.Subset.refl _, fun _ hr => .inl hr,
          List.prefix_refl _, List.Subset.refl _, fun _ _ hp => .inl hp, List.prefix_refl _⟩
        by_cases hn : n = node
        · subst hn
          rw [World.store, World.store, hself]
          exact advances_reopen _
        · rw [World.store, World.store, hother n hn]
          exact .refl _
      refine ⟨h.changed hg rfl (List.filter_subset_self _) rfl rfl rfl rfl rfl (fun n => ?_)
        (fun n => ?_) ⟨fun n hn => ?_, fun n => ?_, fun ha => ?_, fun n s hn hh => ?_⟩, hg,
        fun t ht => ?_⟩
      · by_cases hn : n = node
        · subst hn
          rw [World.store, hself]
          exact { (h.store n).mono hg with known := knownTail_zero }
        · rw [World.store, hother n hn]
          exact (h.store n).mono hg
      · by_cases hn : n = node
        · subst hn
          rw [World.client, hself]
          exact ⟨knownTail_zero, knownTail_zero⟩
        · rw [World.client, hother n hn]
          exact (h.client n).mono hg
      · by_cases heq : n = node
        · subst heq
          rw [hself] at hn
          exact absurd rfl hn
        · rw [hother n heq] at hn ⊢
          exact h.fenced.fence n hn
      · by_cases hn : n = node
        · subst hn
          rw [hself]
          exact hinc.2
        · rw [hother n hn]
          exact h.fenced.fresh n
      · by_cases heq : 𝒮.segment.configuration.sequencerNode = node
        · -- The incarnation that had the sequencer is past now.
          right
          rw [heq, hself]
          rcases h.fenced.once ha with hpresent | hpast
          · rw [heq] at hpresent
            rw [← (h.fenced.fence node hpresent).2]
            exact List.mem_cons_self
          · rw [heq] at hpast
            exact List.mem_cons_of_mem _ hpast
        · rw [hother _ heq]
          exact h.fenced.once ha
      · by_cases heq : n = node
        · subst heq
          rw [hself] at hn
          cases hn
        · rw [hother n heq] at hn
          exact (h.fenced.ready n s hn hh).mono hg rfl
      · refine ⟨fun s hs => ⟨?_, rfl⟩, fun hp => ?_, rfl⟩
        · rw [World.Locked, hother _ ht]
          exact hs
        · rw [hother _ ht]
          exact hp
  · cases hr

end DelosLab.NativeLoglet
