import DelosLab.Async.RelyGuarantee
import DelosLab.VirtualLog.History

/-!
# What the clients of one virtual log keep

The invariant says that the register runs through a valid history, that every
snapshot anyone holds was installed, and that every `compare_and_set` in flight
proposes a legal successor of the version it names. A task relies on the others
for one thing only: identifiers that it has drawn stay its own.
-/

namespace DelosLab.VirtualLog

open Async Async.Coroutine

variable {P : Type}

/-- A snapshot that was installed at some time, or the empty register. -/
def Known (history : List (LogChain P)) (s : VersionedLogChain P) : Prop :=
  ∀ chain, s.chain = some chain → ∃ n, s.version = n + 1 ∧ history[n]? = some chain

/-- A snapshot with its chain was installed. -/
def Installed (history : List (LogChain P)) (s : Snapshot P) : Prop :=
  ∃ n, s.version = n + 1 ∧ history[n]? = some s.chain

/-- A `compare_and_set` that may be invoked: it installs a first chain, or
proposes a successor of the installed chain whose version it names. -/
def Proposable (events : List LogletEvent) (history : List (LogChain P)) (expected : Nat)
    (chain : LogChain P) : Prop :=
  (expected = 0 ∧ ∃ s, chain.segments = [s] ∧ s.virtualStart = 0 ∧ s.virtualStop = none) ∨
    ∃ n old, expected = n + 1 ∧ history[n]? = some old ∧ Succeeds events history old chain ∧
      SealsFirst events old chain

namespace World

/-- The chain with this call is in flight. -/
def Proposes (w : World P) (call : Nat) (chain : LogChain P) : Prop :=
  ∃ expected, (call, RegisterCall.compareAndSet expected chain) ∈ w.pending

/-- No installed chain and no chain in flight uses this identifier. -/
def Unused (w : World P) (id : String) : Prop :=
  (∀ chain ∈ w.history, id ∉ chain.ids) ∧ ∀ call chain, w.Proposes call chain → id ∉ chain.ids

/-- An acknowledged append came from the active segment of a chain installed by
then, whose Loglet returned the position behind it. -/
def Acknowledged (w : World P) (ack : Ack) : Prop :=
  ∃ n chain, n < ack.version ∧ ack.version ≤ w.history.length ∧
    w.history[n]? = some chain ∧ ack.segmentId = chain.active.segmentId ∧
    ack.position = chain.active.virtualStart + ack.localPosition ∧
    LogletEvent.appended ack.segmentId ack.commandId ack.localPosition ∈ w.events

/-- The register holds the newest chain of the history. -/
def RegisterCurrent (w : World P) : Prop :=
  w.register.version = w.history.length ∧ w.register.chain = w.history.getLast?

end World

/-- Answers that a contract admitted one after the other. -/
def Admitted (contract : LogletContract) : List LogletEvent → Prop
  | [] => True
  | e :: events => contract.admits events e = true ∧ Admitted contract events

structure Inv (𝒮 : Deployment) (w : World P) : Prop where
  register : w.RegisterCurrent
  history : ValidHistory w.events w.history
  sealedFirst : ∀ n old new, w.history[n]? = some old → w.history[n + 1]? = some new →
    SealsFirst w.events old new
  cached : ∀ node s, (w.instances node).cached = some s → Known w.history s
  read : ∀ call s, (call, RegisterReply.read s) ∈ w.replies → Known w.history s
  swapped : ∀ call r, (call, RegisterReply.compareAndSet r) ∈ w.replies →
    Known w.history r.current
  pending : ∀ call expected chain, (call, RegisterCall.compareAndSet expected chain) ∈ w.pending →
    Proposable w.events w.history expected chain
  apart : ∀ i j c d, w.Proposes i c → w.Proposes j d → i ≠ j →
    ∀ id ∈ c.ids, id ∈ d.ids → ∃ chain ∈ w.history, id ∈ chain.ids
  undrawn : ∀ t n, w.drawn t ≤ n → w.Unused (𝒮.uuids.id t n)
  admitted : Admitted 𝒮.contract w.events
  acks : ∀ ack ∈ w.acks, w.Acknowledged ack

/-- The history and the answers of the Loglets only grow. -/
structure Grow (w w' : World P) : Prop where
  history : w.history <+: w'.history
  events : w.events ⊆ w'.events

/-- What the others leave alone: the identifiers of `t` and its last answer. -/
structure Rely (𝒮 : Deployment) (t : TaskId) (w w' : World P) : Prop where
  drawn : w'.drawn t = w.drawn t
  lastAppend : w'.lastAppend t = w.lastAppend t
  unused : ∀ n, w.Unused (𝒮.uuids.id t n) → w'.Unused (𝒮.uuids.id t n)

/-- `id` was drawn by `t`, which has not used it yet. -/
def Owns (𝒮 : Deployment) (t : TaskId) (id : String) (w : World P) : Prop :=
  w.Unused id ∧ ∃ n, id = 𝒮.uuids.id t n ∧ n < w.drawn t

/-! ## Facts that last -/

theorem getElem?_of_prefix {α : Type} {xs ys : List α} (h : xs <+: ys) {n : Nat} {a : α}
    (ha : xs[n]? = some a) : ys[n]? = some a := by
  obtain ⟨zs, rfl⟩ := h
  rw [List.getElem?_append_left (List.getElem?_eq_some_iff.mp ha).1]
  exact ha

theorem Known.mono {history history' : List (LogChain P)} {s : VersionedLogChain P}
    (h : Known history s) (hp : history <+: history') : Known history' s := by
  intro chain hc
  obtain ⟨n, hv, hn⟩ := h chain hc
  exact ⟨n, hv, getElem?_of_prefix hp hn⟩

theorem Installed.mono {history history' : List (LogChain P)} {s : Snapshot P}
    (h : Installed history s) (hp : history <+: history') : Installed history' s := by
  obtain ⟨n, hv, hn⟩ := h
  exact ⟨n, hv, getElem?_of_prefix hp hn⟩

theorem Known.installed {history : List (LogChain P)} {s : VersionedLogChain P}
    (h : Known history s) {chain : LogChain P} (hc : s.chain = some chain) :
    Installed history ⟨s.version, chain⟩ :=
  h chain hc

theorem Proposable.mono {events events' : List LogletEvent} {history : List (LogChain P)}
    {expected : Nat} {chain : LogChain P} (h : Proposable events history expected chain)
    (he : events ⊆ events') : Proposable events' history expected chain := by
  rcases h with h | ⟨n, old, hv, hn, hs⟩
  · exact .inl h
  · exact .inr ⟨n, old, hv, hn, hs.1.mono he, hs.2.mono he⟩

theorem World.Acknowledged.mono {w w' : World P} {ack : Ack} (h : w.Acknowledged ack)
    (hg : Grow w w') : w'.Acknowledged ack := by
  obtain ⟨n, chain, hn, hlen, hc, hid, hpos, he⟩ := h
  exact ⟨n, chain, hn, Nat.le_trans hlen hg.history.length_le,
    getElem?_of_prefix hg.history hc, hid, hpos, hg.events he⟩

theorem Grow.refl (w : World P) : Grow w w := ⟨List.prefix_refl _, List.Subset.refl _⟩

theorem Grow.trans {w₁ w₂ w₃ : World P} (h : Grow w₁ w₂) (h' : Grow w₂ w₃) : Grow w₁ w₃ :=
  ⟨h.history.trans h'.history, List.Subset.trans h.events h'.events⟩

theorem Rely.refl (𝒮 : Deployment) (t : TaskId) (w : World P) : Rely 𝒮 t w w :=
  ⟨rfl, rfl, fun _ h => h⟩

theorem Rely.trans {𝒮 : Deployment} {t : TaskId} {w₁ w₂ w₃ : World P}
    (h : Rely 𝒮 t w₁ w₂) (h' : Rely 𝒮 t w₂ w₃) : Rely 𝒮 t w₁ w₃ :=
  ⟨h'.drawn.trans h.drawn, h'.lastAppend.trans h.lastAppend,
    fun n hn => h'.unused n (h.unused n hn)⟩

theorem Owns.stable {𝒮 : Deployment} {t : TaskId} {id : String} {w w' : World P}
    (h : Owns 𝒮 t id w) (hr : Rely 𝒮 t w w') : Owns 𝒮 t id w' := by
  obtain ⟨hu, n, rfl, hn⟩ := h
  exact ⟨hr.unused n hu, n, rfl, hr.drawn ▸ hn⟩

/-! ## Changes of the world that keep the invariant -/

theorem Inv.onInstance {𝒮 : Deployment} {w : World P} (h : Inv 𝒮 w) {node : String}
    {f : Instance P → Instance P}
    (hf : ∀ s, (f (w.instances node)).cached = some s → Known w.history s) :
    Inv 𝒮 (w.onInstance node f) :=
  { h with
    cached := by
      intro node' s hs
      simp only [World.onInstance] at hs
      by_cases hn : node' = node
      · subst hn
        rw [Function.update_self] at hs
        exact hf s hs
      · rw [Function.update_of_ne hn] at hs
        exact h.cached node' s hs }

theorem Inv.draw {𝒮 : Deployment} {w : World P} (h : Inv 𝒮 w) (t : TaskId) :
    Inv 𝒮 { w with drawn := Function.update w.drawn t (w.drawn t + 1) } :=
  { h with
    undrawn := by
      intro u n hn
      refine h.undrawn u n ?_
      simp only at hn
      by_cases hu : u = t
      · subst hu
        rw [Function.update_self] at hn
        omega
      · rwa [Function.update_of_ne hu] at hn }

/-- A Loglet answers. -/
theorem Inv.answer {𝒮 : Deployment} {w w' : World P} {e : LogletEvent} (h : Inv 𝒮 w)
    (hw : w.answer 𝒮.contract e = some w') : Inv 𝒮 w' ∧ w' = { w with events := e :: w.events } := by
  unfold World.answer at hw
  split at hw
  · next hadmits =>
      obtain rfl := Option.some.inj hw
      have he : w.events ⊆ e :: w.events := List.subset_cons_self _ _
      refine ⟨{ h with
        history := h.history.mono he
        sealedFirst := fun n old new hold hnew => (h.sealedFirst n old new hold hnew).mono he
        pending := fun call expected chain hp => (h.pending call expected chain hp).mono he
        admitted := ⟨hadmits, h.admitted⟩
        acks := fun ack ha => (h.acks ack ha).mono ⟨List.prefix_refl _, he⟩ }, rfl⟩
  · cases hw

/-- A world with the same history and fewer calls in flight leaves no identifier used. -/
theorem World.Unused.mono {w w' : World P} {id : String} (h : w.Unused id)
    (hh : w'.history = w.history) (hp : ∀ call chain, w'.Proposes call chain → w.Proposes call chain) :
    w'.Unused id := by
  refine ⟨fun chain hc => h.1 chain (hh ▸ hc), fun call chain hc => h.2 call chain (hp call chain hc)⟩

theorem mem_of_lookup {α : Type} {l : List (Nat × α)} {k : Nat} {a : α}
    (h : l.lookup k = some a) : (k, a) ∈ l := by
  obtain ⟨l₁, l₂, rfl, -⟩ := List.lookup_eq_some_iff.mp h
  simp

/-- Invoking a read of the register. -/
theorem Inv.invokeRead {𝒮 : Deployment} {w : World P} (h : Inv 𝒮 w) :
    Inv 𝒮 { w with pending := (w.nextCall, .read) :: w.pending, nextCall := w.nextCall + 1 } := by
  -- A read proposes nothing.
  have hp : ∀ call chain, World.Proposes
      { w with pending := (w.nextCall, .read) :: w.pending, nextCall := w.nextCall + 1 }
      call chain → w.Proposes call chain := by
    rintro call chain ⟨expected, hm⟩
    rcases List.mem_cons.mp hm with hm | hm
    · simp at hm
    · exact ⟨expected, hm⟩
  exact { h with
    pending := by
      intro call expected chain hm
      rcases List.mem_cons.mp hm with hm | hm
      · simp at hm
      · exact h.pending call expected chain hm
    apart := fun i j c d hc hd => h.apart i j c d (hp i c hc) (hp j d hd)
    undrawn := fun t n hn =>
      ⟨(h.undrawn t n hn).1, fun call chain hc => (h.undrawn t n hn).2 call chain (hp call chain hc)⟩ }

/-- The identifiers of a proposal: installed before, or drawn by its proposer. -/
def Drawn (𝒮 : Deployment) (t : TaskId) (w : World P) (chain : LogChain P) : Prop :=
  ∀ id ∈ chain.ids, (∃ c ∈ w.history, id ∈ c.ids) ∨ Owns 𝒮 t id w

/-- Invoking a `compare_and_set` whose identifiers nobody else proposes. -/
theorem Inv.invokeCompareAndSet {𝒮 : Deployment} {w : World P} {t : TaskId} {expected : Nat}
    {chain : LogChain P} (h : Inv 𝒮 w) (hp : Proposable w.events w.history expected chain)
    (hd : Drawn 𝒮 t w chain) :
    Inv 𝒮 { w with
      pending := (w.nextCall, .compareAndSet expected chain) :: w.pending
      nextCall := w.nextCall + 1 } := by
  -- What is proposed afterwards is the new chain, under a fresh call, or was before.
  have hprop : ∀ call c, World.Proposes
      { w with
        pending := (w.nextCall, .compareAndSet expected chain) :: w.pending
        nextCall := w.nextCall + 1 } call c →
      (call = w.nextCall ∧ c = chain) ∨ w.Proposes call c := by
    rintro call c ⟨v, hm⟩
    rcases List.mem_cons.mp hm with hm | hm
    · simp only [Prod.mk.injEq, RegisterCall.compareAndSet.injEq] at hm
      exact .inl ⟨hm.1, hm.2.2⟩
    · exact .inr ⟨v, hm⟩
  have hnew : ∀ call c, w.Proposes call c → ∀ id ∈ chain.ids, id ∈ c.ids →
      ∃ c' ∈ w.history, id ∈ c'.ids := by
    intro call c hc id hid hidc
    rcases hd id hid with hold | hown
    · exact hold
    · exact absurd hidc (hown.1.2 call c hc)
  exact { h with
    pending := by
      intro call v c hm
      rcases List.mem_cons.mp hm with hm | hm
      · simp only [Prod.mk.injEq, RegisterCall.compareAndSet.injEq] at hm
        obtain ⟨rfl, rfl, rfl⟩ := hm
        exact hp
      · exact h.pending call v c hm
    apart := by
      intro i j c d hc hd hij id hidc hidd
      rcases hprop i c hc with ⟨hi, hci⟩ | hc'
      · rcases hprop j d hd with ⟨hj, -⟩ | hd'
        · exact absurd (hi.trans hj.symm) hij
        · exact hnew j d hd' id (hci ▸ hidc) hidd
      · rcases hprop j d hd with ⟨-, hdj⟩ | hd'
        · exact hnew i c hc' id (hdj ▸ hidd) hidc
        · exact h.apart i j c d hc' hd' hij id hidc hidd
    undrawn := by
      intro u n hn
      have hu := h.undrawn u n hn
      refine ⟨hu.1, fun call c hc hid => ?_⟩
      rcases hprop call c hc with ⟨-, rfl⟩ | hc'
      · rcases hd _ hid with ⟨c', hc', hidc'⟩ | ⟨-, m, hm, hlt⟩
        · exact hu.1 c' hc' hidc'
        · obtain ⟨rfl, rfl⟩ := 𝒮.uuids.injective _ _ _ _ hm
          have hn' : w.drawn u ≤ n := hn
          omega
      · exact hu.2 call c hc' hid }

/-- The snapshot in the register was installed. -/
theorem World.RegisterCurrent.known {w : World P} (h : w.RegisterCurrent) :
    Known w.history w.register := by
  intro chain hc
  rw [h.2] at hc
  have hne : w.history ≠ [] := by
    intro hnil
    rw [hnil] at hc
    cases hc
  have hlen := List.length_pos_iff.mpr hne
  refine ⟨w.history.length - 1, ?_, ?_⟩
  · rw [h.1]
    omega
  · rwa [← List.getLast?_eq_getElem?]

theorem World.proposes_of_erased {w : World P} {call : Nat} {i : Nat} {c : LogChain P}
    (h : World.Proposes { w with pending := w.pending.filter fun entry => entry.1 ≠ call } i c) :
    w.Proposes i c ∧ i ≠ call := by
  obtain ⟨expected, hm⟩ := h
  rw [List.mem_filter] at hm
  exact ⟨⟨expected, hm.1⟩, by simpa using hm.2⟩

/-- A call that took effect is in flight no more. -/
theorem Inv.erase {𝒮 : Deployment} {w : World P} (h : Inv 𝒮 w) (call : Nat) :
    Inv 𝒮 { w with pending := w.pending.filter fun entry => entry.1 ≠ call } :=
  { h with
    pending := fun i expected chain hm => h.pending i expected chain (List.mem_filter.mp hm).1
    apart := fun i j c d hc hd =>
      h.apart i j c d (World.proposes_of_erased hc).1 (World.proposes_of_erased hd).1
    undrawn := fun t n hn =>
      (h.undrawn t n hn).mono rfl fun _ _ hc => (World.proposes_of_erased hc).1 }

theorem Inv.replyRead {𝒮 : Deployment} {w : World P} {call : Nat} {s : VersionedLogChain P}
    (h : Inv 𝒮 w) (hs : Known w.history s) :
    Inv 𝒮 { w with replies := (call, .read s) :: w.replies } :=
  { h with
    read := by
      intro i s' hm
      rcases List.mem_cons.mp hm with hm | hm
      · cases hm
        exact hs
      · exact h.read i s' hm
    swapped := by
      intro i r hm
      rcases List.mem_cons.mp hm with hm | hm
      · cases hm
      · exact h.swapped i r hm }

theorem Inv.replySwapped {𝒮 : Deployment} {w : World P} {call : Nat}
    {r : CompareAndSetResult P} (h : Inv 𝒮 w) (hr : Known w.history r.current) :
    Inv 𝒮 { w with replies := (call, .compareAndSet r) :: w.replies } :=
  { h with
    read := by
      intro i s' hm
      rcases List.mem_cons.mp hm with hm | hm
      · cases hm
      · exact h.read i s' hm
    swapped := by
      intro i r' hm
      rcases List.mem_cons.mp hm with hm | hm
      · cases hm
        exact hr
      · exact h.swapped i r' hm }

/-- The world after the proposal `call` of `chain` was installed. -/
def World.install (w : World P) (call expected : Nat) (chain : LogChain P) : World P :=
  { w with
    register := VersionedLogChain.installed expected chain
    history := w.history ++ [chain]
    pending := w.pending.filter fun entry => entry.1 ≠ call }

/-- An unused identifier stays unused when a proposal of others is installed. -/
theorem World.Unused.install {w : World P} {id : String} {call expected : Nat}
    {chain : LogChain P} (h : w.Unused id)
    (hm : (call, RegisterCall.compareAndSet expected chain) ∈ w.pending) :
    (w.install call expected chain).Unused id := by
  constructor
  · intro c hc
    rcases List.mem_append.mp hc with hc | hc
    · exact h.1 c hc
    · rw [List.mem_singleton.mp hc]
      exact h.2 call chain ⟨expected, hm⟩
  · intro i c hc
    exact h.2 i c (World.proposes_of_erased hc).1

theorem World.grow_install (w : World P) (call expected : Nat) (chain : LogChain P) :
    Grow w (w.install call expected chain) :=
  ⟨List.prefix_append _ _, List.Subset.refl _⟩

/-- **Installing a proposal.** The version check puts the chain behind the one
that it was built from. -/
theorem Inv.install {𝒮 : Deployment} {w : World P} {call expected : Nat} {chain : LogChain P}
    (h : Inv 𝒮 w) (hm : (call, RegisterCall.compareAndSet expected chain) ∈ w.pending)
    (hv : w.register.version = expected) : Inv 𝒮 (w.install call expected chain) := by
  have hlen : w.history.length = expected := h.register.1.symm.trans hv
  have hg := w.grow_install call expected chain
  refine { register := ?register, history := ?history, sealedFirst := ?sealedFirst,
           cached := ?cached, read := ?read, swapped := ?swapped, pending := ?pending, apart := ?apart, undrawn := ?undrawn,
           admitted := h.admitted, acks := fun ack ha => (h.acks ack ha).mono hg }
  case register =>
    refine ⟨?_, ?_⟩
    · simp [World.install, VersionedLogChain.installed, hlen]
    · simp [World.install, VersionedLogChain.installed]
  case history =>
    rcases h.pending call expected chain hm with ⟨hzero, s, hs⟩ | ⟨n, old, hn, hold, hsucc, -⟩
    · have hnil : w.history = [] := List.length_eq_zero_iff.mp (hlen.trans hzero)
      refine ⟨fun c hc => ?_, fun n old c _ hc => ?_⟩
      · simp only [World.install, hnil, List.nil_append, List.getElem?_cons_zero,
          Option.some.injEq] at hc
        exact ⟨s, hc ▸ hs.1, hs.2⟩
      · simp [World.install, hnil] at hc
    · refine h.history.snoc ?_ hsucc
      rw [List.getLast?_eq_getElem?, hlen, hn, Nat.add_sub_cancel]
      exact hold
  case sealedFirst =>
    intro n old new hold hnew
    have hn := (List.getElem?_eq_some_iff.mp hnew).1
    rw [World.install, List.length_append, List.length_singleton] at hn
    have hold' : w.history[n]? = some old := by
      rwa [World.install, List.getElem?_append_left (by omega)] at hold
    by_cases hn' : n + 1 < w.history.length
    · rw [World.install, List.getElem?_append_left hn'] at hnew
      exact h.sealedFirst n old new hold' hnew
    · -- The new chain is the proposal, whose proposer had sealed its predecessor.
      have hlast : n + 1 = w.history.length := by omega
      rw [World.install, List.getElem?_append_right (by omega), hlast, Nat.sub_self] at hnew
      obtain rfl := Option.some.inj hnew
      rcases h.pending call expected chain hm with ⟨hzero, -⟩ | ⟨m, old', hm', hold'', -, hseal⟩
      · omega
      · obtain rfl : m = n := by omega
        obtain rfl := Option.some.inj (hold'.symm.trans hold'')
        exact hseal
  case cached => exact fun node s hs => (h.cached node s hs).mono hg.history
  case read => exact fun i s hs => (h.read i s hs).mono hg.history
  case swapped => exact fun i r hr => (h.swapped i r hr).mono hg.history
  case pending =>
    intro i v c hi
    obtain ⟨hi, hne⟩ := List.mem_filter.mp hi
    rcases h.pending i v c hi with hfirst | ⟨n, old, hn, hold, hsucc, hseal⟩
    · exact .inl hfirst
    · refine .inr ⟨n, old, hn, getElem?_of_prefix hg.history hold, ?_, hseal⟩
      cases hsucc with
      | «extends» he fresh =>
          refine .extends he fun d hd hid => ?_
          rcases List.mem_append.mp hd with hd | hd
          · exact fresh d hd hid
          · -- Two proposals in flight share no fresh identifier.
            rw [List.mem_singleton.mp hd] at hid
            have hmem : c.active.segmentId ∈ c.ids := List.mem_map_of_mem c.active_mem
            obtain ⟨e, he', hide⟩ := h.apart i call c chain ⟨v, hi⟩ ⟨expected, hm⟩
              (by simpa using hne) _ hmem hid
            exact fresh e he' hide
      | truncates ht => exact .truncates ht
      | modifies hmod => exact .modifies hmod
  case apart =>
    intro i j c d hc hd hij id hidc hidd
    obtain ⟨e, he, hide⟩ := h.apart i j c d (World.proposes_of_erased hc).1
      (World.proposes_of_erased hd).1 hij id hidc hidd
    exact ⟨e, List.mem_append_left _ he, hide⟩
  case undrawn => exact fun t n hn => (h.undrawn t n hn).install hm

/-- A call of the register takes effect. -/
theorem Inv.linearize {𝒮 : Deployment} {w w' : World P} {call : Nat} (h : Inv 𝒮 w)
    (hw : w.linearize call = some w') :
    Inv 𝒮 w' ∧ Grow w w' ∧ ∀ t, Rely 𝒮 t w w' := by
  have erased : ∀ id, w.Unused id → World.Unused
      { w with pending := w.pending.filter fun entry => entry.1 ≠ call } id :=
    fun id hid => hid.mono rfl fun _ _ hc => (World.proposes_of_erased hc).1
  unfold World.linearize at hw
  split at hw
  · cases hw
  · obtain rfl := Option.some.inj hw
    refine ⟨(h.erase call).replyRead h.register.known,
      ⟨List.prefix_refl _, List.Subset.refl _⟩, fun t => ⟨rfl, rfl, fun n => ?_⟩⟩
    exact erased _
  · next expected chain hl =>
      have hm := mem_of_lookup hl
      by_cases hv : w.register.version = expected
      · rw [compareAndSet_of_eq hv] at hw
        obtain rfl := Option.some.inj hw
        have hinst := h.install hm hv
        have hg := w.grow_install call expected chain
        refine ⟨hinst.replySwapped hinst.register.known, ⟨hg.history, hg.events⟩,
          fun t => ⟨rfl, rfl, fun n hn => ?_⟩⟩
        exact hn.install hm
      · rw [compareAndSet_of_ne hv] at hw
        obtain rfl := Option.some.inj hw
        refine ⟨(h.erase call).replySwapped h.register.known,
          ⟨List.prefix_refl _, List.Subset.refl _⟩, fun t => ⟨rfl, rfl, fun n => ?_⟩⟩
        exact erased _

/-- An instance crashes. -/
theorem Inv.crash {𝒮 : Deployment} {w : World P} (h : Inv 𝒮 w) (node : String) :
    Inv 𝒮 (w.onInstance node fun _ => ⟨none, none⟩) :=
  h.onInstance fun s hs => by cases hs

theorem Inv.acknowledge {𝒮 : Deployment} {w : World P} {ack : Ack} (h : Inv 𝒮 w)
    (ha : w.Acknowledged ack) : Inv 𝒮 { w with acks := ack :: w.acks } :=
  { h with
    acks := by
      intro a hmem
      rcases List.mem_cons.mp hmem with rfl | hmem
      · exact ha
      · exact h.acks a hmem }

theorem inv_initial (𝒮 : Deployment) : Inv 𝒮 (World.initial P) where
  register := ⟨rfl, rfl⟩
  history := ValidHistory.nil []
  sealedFirst := fun _ _ _ hold _ => by simp [World.initial] at hold
  cached := fun _ _ hs => by cases hs
  read := fun _ _ hs => by cases hs
  swapped := fun _ _ hs => by cases hs
  pending := fun _ _ _ hs => by cases hs
  apart := by
    rintro _ _ _ _ ⟨_, hs⟩
    cases hs
  undrawn := by
    refine fun _ _ _ => ⟨?_, ?_⟩
    · rintro _ hs
      cases hs
    · rintro _ _ ⟨_, hs⟩
      cases hs
  admitted := trivial
  acks := fun _ hs => by cases hs

end DelosLab.VirtualLog
