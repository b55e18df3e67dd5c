import DelosLab.NativeLoglet.Rounds

/-!
# What LogServers answer

What the LogServers of a segment do to their stores and which answers they give, whatever
they are asked for: nothing here needs the entries to be in order. A LogServer that answers a
get with nothing has trimmed the position, when it ever covered it.
-/

namespace DelosLab.NativeLoglet

open Async LogletStore

variable {𝒮 : Deployment} {w w' : World}

/-! ## Stores -/

namespace LogletStore

/-- An entry stays until it is trimmed, and the watermark does not fall. -/
structure Upward (s s' : LogletStore) : Prop where
  entries : ∀ e ∈ s.entries, e ∈ s'.entries ∨ e.position < s'.trimmedPrefix
  trimmedPrefix : s.trimmedPrefix ≤ s'.trimmedPrefix

theorem Upward.refl (s : LogletStore) : s.Upward s := ⟨fun _ h => .inl h, Nat.le_refl _⟩

theorem Upward.trans {s₁ s₂ s₃ : LogletStore} (h : s₁.Upward s₂) (h' : s₂.Upward s₃) :
    s₁.Upward s₃ := by
  refine ⟨fun e he => ?_, Nat.le_trans h.trimmedPrefix h'.trimmedPrefix⟩
  rcases h.entries e he with hkept | htrimmed
  · exact h'.entries e hkept
  · exact .inr (Nat.lt_of_lt_of_le htrimmed h'.trimmedPrefix)

theorem Upward.covers {s s' : LogletStore} (h : s.Upward s') {p : Nat} (hc : s.Covers p) :
    s'.Covers p := by
  rcases hc with htrimmed | ⟨e, he, rfl⟩
  · exact .inl (Nat.lt_of_lt_of_le htrimmed h.trimmedPrefix)
  · rcases h.entries e he with hkept | htrimmed
    · exact .inr ⟨e, hkept, rfl⟩
    · exact .inl htrimmed

/-- A store that only gets entries moves upward. -/
theorem upward_of_subset {s s' : LogletStore} (he : s.entries ⊆ s'.entries)
    (ht : s'.trimmedPrefix = s.trimmedPrefix) : s.Upward s' :=
  ⟨fun _ h => .inl (he h), Nat.le_of_eq ht.symm⟩

theorem upward_put (kind : StoreKind) (s : LogletStore) (entry : LogEntry) (knownTail : Nat) :
    s.Upward (LogletStore.put kind s entry knownTail).1 := by
  have heffect := put_effect kind s entry knownTail
  generalize LogletStore.put kind s entry knownTail = result at heffect ⊢
  obtain ⟨s', r⟩ := result
  cases heffect with
  | failed => exact upward_of_subset (List.Subset.refl _) rfl
  | kept => exact upward_of_subset (List.Subset.refl _) rfl
  | added => exact upward_of_subset (List.subset_append_left _ _) rfl

/-- A repair that succeeds leaves its entry in the store. -/
theorem upward_repair (kind : StoreKind) (s : LogletStore) (entry : LogEntry) (knownTail : Nat) :
    s.Upward (LogletStore.repair kind s entry knownTail).1 ∧
      ((LogletStore.repair kind s entry knownTail).2 = .ok () →
        entry ∈ (LogletStore.repair kind s entry knownTail).1.entries) := by
  have heffect := repair_effect kind s entry knownTail
  generalize LogletStore.repair kind s entry knownTail = result at heffect ⊢
  obtain ⟨s', r⟩ := result
  cases heffect with
  | trimmed => exact ⟨upward_of_subset (List.Subset.refl _) rfl, nofun⟩
  | conflict => exact ⟨upward_of_subset (List.Subset.refl _) rfl, nofun⟩
  | kept hmem => exact ⟨upward_of_subset (List.Subset.refl _) rfl, fun _ => hmem⟩
  | added =>
      exact ⟨upward_of_subset (List.subset_append_left _ _) rfl,
        fun _ => List.mem_append_right _ (List.mem_singleton_self _)⟩

theorem upward_prefixTrim (s : LogletStore) (trimPosition : Nat) :
    s.Upward (s.prefixTrim trimPosition).1 := by
  refine ⟨fun e he => ?_, Nat.le_max_left _ _⟩
  by_cases hle : max s.trimmedPrefix trimPosition ≤ e.position
  · exact .inl (List.mem_filter.mpr ⟨he, decide_eq_true hle⟩)
  · exact .inr (Nat.lt_of_not_le hle)

theorem upward_observeKnownTail (s : LogletStore) (knownTail : Nat) :
    s.Upward (s.observeKnownTail knownTail) := ⟨fun _ h => .inl h, Nat.le_refl _⟩

theorem upward_seal (s : LogletStore) (knownTail : Nat) : s.Upward (s.seal knownTail) :=
  ⟨fun _ h => .inl h, Nat.le_refl _⟩

theorem upward_reopen (s : LogletStore) : s.Upward s.reopen := ⟨fun _ h => .inl h, Nat.le_refl _⟩

end LogletStore

/-! ## What every step keeps -/

/-- The member has trimmed `p`, if it covered it in `before`. -/
def Lacks (before : World) (p : Nat) (node : String) (w : World) : Prop :=
  before.Covers node p → p < (w.store node).trimmedPrefix

/-- Stores move upward, messages stay, and an answer of nothing to a get comes from a member
that lacks the position. -/
structure Forward (w w' : World) : Prop where
  stores : ∀ node, (w.store node).Upward (w'.store node)
  messages : w.messages <+: w'.messages
  missed : ∀ r ∈ w'.replies, r ∈ w.replies ∨ ∀ p k, w.request r.batch r.node = some (.get p k) →
    r.response = .entry none → Lacks w p r.node w'

/-- Every answer is one to a request; an entry that answers a get is the one of its position,
and a get meets no exception. -/
def GetsAnswered (w : World) : Prop :=
  ∀ r ∈ w.replies, ∃ request, w.request r.batch r.node = some request ∧
    ∀ p k, request = .get p k →
      (∀ e, r.response = .entry (some e) → e.position = p) ∧ ∀ e, r.response ≠ .error e

theorem request_persists {batch : Nat} {node : String} {request : Request}
    (hm : w.messages <+: w'.messages) (h : w.request batch node = some request) :
    w'.request batch node = some request := by
  obtain ⟨requests, hb, hl⟩ := Option.bind_eq_some_iff.mp h
  refine Option.bind_eq_some_iff.mpr ⟨requests, ?_, hl⟩
  obtain ⟨rest, hrest⟩ := hm
  rw [← hrest, List.getElem?_append_left (List.getElem?_eq_some_iff.mp hb).1, hb]

theorem Forward.refl (w : World) : Forward w w :=
  ⟨fun _ => .refl _, List.prefix_refl _, fun _ hr => .inl hr⟩

theorem Forward.covers (h : Forward w w') {node : String} {p : Nat} (hc : w.Covers node p) :
    w'.Covers node p := (h.stores node).covers hc

theorem Lacks.mono {before : World} {p : Nat} {node : String} (h : Lacks before p node w)
    (hf : Forward w w') : Lacks before p node w' :=
  fun hc => Nat.lt_of_lt_of_le (h hc) (hf.stores node).trimmedPrefix

theorem Forward.trans {w₁ w₂ w₃ : World} (h : Forward w₁ w₂) (h' : Forward w₂ w₃) :
    Forward w₁ w₃ where
  stores := fun node => (h.stores node).trans (h'.stores node)
  messages := h.messages.trans h'.messages
  missed := by
    intro r hr
    rcases h'.missed r hr with hold | hnew
    · rcases h.missed r hold with hold | hnew
      · exact .inl hold
      · exact .inr fun p k hreq hnone => (hnew p k hreq hnone).mono h'
    · exact .inr fun p k hreq hnone hc =>
        hnew p k (request_persists h.messages hreq) hnone (h.covers hc)

/-- A step that gives no answer. -/
theorem Forward.silent (hs : ∀ node, (w.store node).Upward (w'.store node))
    (hm : w.messages <+: w'.messages) (hr : w'.replies = w.replies) : Forward w w' :=
  ⟨hs, hm, fun _ hmem => .inl (hr ▸ hmem)⟩

theorem GetsAnswered.silent (h : GetsAnswered w) (hm : w.messages <+: w'.messages)
    (hr : w'.replies = w.replies) : GetsAnswered w' := by
  intro r hmem
  obtain ⟨request, hreq, hget⟩ := h r (hr ▸ hmem)
  exact ⟨request, request_persists hm hreq, hget⟩

/-! ## Steps of tasks -/

theorem exec_silent (w : World) (t : TaskId) (a : Act) :
    (𝒮.exec w t a).1.replies = w.replies := by
  cases a with
  | sequencerFor =>
      simp only [Deployment.exec, Deployment.sequencerFor]
      split
      · rfl
      · split <;> rfl
  | _ => rfl

theorem exec_forward (w : World) (t : TaskId) (a : Act) : Forward w (𝒮.exec w t a).1 :=
  .silent (fun node => by rw [store_exec]; exact .refl _) (exec_grow w t a).messages
    (exec_silent w t a)

theorem Resumed.silent {t : TaskId} {e : Wait} {x : Choice} {r : Except Error (WaitResult e)}
    (h : Resumed w t e x w' r) : w'.replies = w.replies ∧ w'.messages = w.messages ∧
      ∀ node, w'.store node = w.store node := by
  cases h with
  | acquired _ => exact ⟨rfl, rfl, fun node => (w.setSequencer_parts t.node _ node).1⟩
  | _ => exact ⟨rfl, rfl, fun _ => rfl⟩

/-! ## Steps of LogServers -/

/-- What a LogServer that handles a request does. -/
structure Handled (w w' : World) (batch : Nat) (node : String) : Prop where
  stores : ∀ n, (w.store n).Upward (w'.store n)
  messages : w'.messages = w.messages
  replies : ∀ r ∈ w'.replies, r ∈ w.replies ∨ r.batch = batch ∧ r.node = node ∧
    ∀ p k, w.request batch node = some (.get p k) →
      r.response = .entry ((w.store node).entryAt p) ∨ ∃ s, r.response = .state s

theorem Handled.forward {batch : Nat} {node : String} (h : Handled w w' batch node) :
    Forward w w' where
  stores := h.stores
  messages := h.messages ▸ List.prefix_refl _
  missed := by
    intro r hr
    rcases h.replies r hr with hold | ⟨rfl, rfl, hget⟩
    · exact .inl hold
    · refine .inr fun p k hreq hnone hc => ?_
      rcases hget p k hreq with hentry | ⟨s, hstate⟩
      · -- The store has no entry at a position that it covers, so it has trimmed it.
        have hat : (w.store r.node).entryAt p = none :=
          Response.entry.inj (hentry.symm.trans hnone)
        rcases hc with htrimmed | ⟨e, he, hp⟩
        · exact Nat.lt_of_lt_of_le htrimmed (h.stores r.node).trimmedPrefix
        · exact absurd hp (entryAt_none hat e he)
      · rw [hstate] at hnone
        cases hnone

theorem GetsAnswered.handled {batch : Nat} {node : String} {request : Request}
    (hg : GetsAnswered w) (h : Handled w w' batch node)
    (hreq : w.request batch node = some request) : GetsAnswered w' := by
  have hm : w.messages <+: w'.messages := h.messages ▸ List.prefix_refl _
  intro r hr
  rcases h.replies r hr with hold | ⟨rfl, rfl, hget⟩
  · obtain ⟨request', hreq', hans⟩ := hg r hold
    exact ⟨request', request_persists hm hreq', hans⟩
  · refine ⟨request, request_persists hm hreq, fun p k heq => ?_⟩
    subst heq
    rcases hget p k hreq with hentry | ⟨s, hstate⟩
    · rw [hentry]
      exact ⟨fun e he => (entryAt_some (Response.entry.inj he)).2, nofun⟩
    · rw [hstate]
      exact ⟨nofun, nofun⟩

theorem upward_setStore {node : String} {s : LogletStore} (h : (w.store node).Upward s)
    (n : String) : (w.store n).Upward ((w.setStore node s).store n) := by
  by_cases hn : n = node
  · subst hn
    rw [World.store_setStore]
    exact h
  · rw [World.store_setStore_of_ne w s hn]
    exact .refl _

/-- A LogServer changes its store and gives at most one answer. -/
theorem Handled.of_reply {batch : Nat} {node : String} {s : LogletStore} {request : Request}
    (response : Response) (hs : (w.store node).Upward s)
    (hreq : w.request batch node = some request)
    (hr : ∀ p k, request = .get p k → response = .entry ((w.store node).entryAt p) ∨
      ∃ s, response = .state s)
    (hstores : ∀ n, w'.store n = (w.setStore node s).store n) (hm : w'.messages = w.messages)
    (hreplies : w'.replies ⊆ ⟨batch, node, response⟩ :: w.replies) : Handled w w' batch node where
  stores := fun n => hstores n ▸ upward_setStore hs n
  messages := hm
  replies := by
    intro r hmem
    rcases List.mem_cons.mp (hreplies hmem) with rfl | hold
    · refine .inr ⟨rfl, rfl, fun p k hget => ?_⟩
      exact hr p k (Option.some.inj (hreq.symm.trans hget))
    · exact .inl hold

/-- A handler that writes answers a get with nothing. -/
theorem Handled.written {batch : Nat} {node : String} {s : LogletStore} {request : Request}
    (hs : (w.store node).Upward s) (hreq : w.request batch node = some request)
    (hget : ∀ p k, request ≠ .get p k) (r : Except Error Unit) :
    Handled w ((w.setStore node s).written batch node r) batch node := by
  cases r with
  | ok _ =>
      exact .of_reply (.entry none) hs hreq (fun p k h => absurd h (hget p k))
        (fun _ => rfl) rfl (List.subset_cons_self _ _)
  | error e =>
      exact .of_reply (.error e) hs hreq (fun p k h => absurd h (hget p k))
        (fun _ => rfl) rfl (List.Subset.refl _)

theorem handled_deliver {batch : Nat} {node : String} {request : Request}
    (hreq : w.request batch node = some request) :
    Handled w (w.deliver 𝒮 batch node request) batch node := by
  cases request with
  | put entry knownTail =>
      have hup := upward_put 𝒮.kind (w.store node) entry knownTail
      rw [World.deliver]
      generalize LogletStore.put 𝒮.kind (w.store node) entry knownTail = result at hup ⊢
      obtain ⟨s, r⟩ := result
      have hwritten := Handled.written hup hreq (by rintro _ _ ⟨⟩) r
      cases r with
      | ok _ => exact ⟨hwritten.stores, hwritten.messages, hwritten.replies⟩
      | error e => exact hwritten
  | repair entry knownTail =>
      exact .written (upward_repair 𝒮.kind (w.store node) entry knownTail).1 hreq (by rintro _ _ ⟨⟩) _
  | get position knownTail =>
      refine .of_reply _ (upward_observeKnownTail _ knownTail) hreq (fun p k heq => .inl ?_)
        (fun _ => rfl) rfl (List.Subset.refl _)
      cases heq
      rfl
  | «seal» knownTail => exact .written (upward_seal _ knownTail) hreq (by rintro _ _ ⟨⟩) (.ok ())
  | prefixTrim trimPosition => exact .written (upward_prefixTrim _ trimPosition) hreq (by rintro _ _ ⟨⟩) (.ok ())
  | state knownTail =>
      exact .of_reply _ (upward_observeKnownTail _ knownTail) hreq (by rintro _ _ ⟨⟩) (fun _ => rfl) rfl
        (List.Subset.refl _)
  | waitForTail localTail knownTail =>
      rw [World.deliver]
      split
      · exact .of_reply _ (upward_observeKnownTail _ knownTail) hreq (by rintro _ _ ⟨⟩) (fun _ => rfl) rfl
          (List.Subset.refl _)
      · exact .of_reply (.entry none) (upward_observeKnownTail _ knownTail) hreq (by rintro _ _ ⟨⟩)
          (fun _ => rfl) rfl (List.subset_cons_self _ _)

theorem handled_respond {batch : Nat} {node : String} {request : Request}
    (hreq : w.request batch node = some request) :
    Handled w (w.respond batch node request) batch node :=
  .of_reply _ (upward_observeKnownTail _ request.stateTail) hreq (fun _ _ _ => .inr ⟨_, rfl⟩)
    (fun _ => rfl) rfl (List.Subset.refl _)

/-- What happens between the steps of the tasks. -/
theorem disturb_forward {d : Disturbance} (hg : GetsAnswered w)
    (h : 𝒮.disturb w d = some w') : Forward w w' ∧ GetsAnswered w' := by
  have hsilent : (∀ node, (w.store node).Upward (w'.store node)) → w'.messages = w.messages →
      w'.replies = w.replies → Forward w w' ∧ GetsAnswered w' := fun hs hm hr =>
    ⟨.silent hs (hm ▸ List.prefix_refl _) hr, hg.silent (hm ▸ List.prefix_refl _) hr⟩
  cases d with
  | deliver batch node =>
      obtain ⟨request, hreq, rfl⟩ := Option.map_eq_some_iff.mp h
      exact ⟨(handled_deliver hreq).forward, hg.handled (handled_deliver hreq) hreq⟩
  | respond batch node =>
      obtain ⟨-, h⟩ := Option.ite_none_right_eq_some.mp h
      obtain ⟨request, hreq, rfl⟩ := Option.map_eq_some_iff.mp h
      exact ⟨(handled_respond hreq).forward, hg.handled (handled_respond hreq) hreq⟩
  | learn node returned =>
      simp only [Deployment.disturb, Deployment.learn] at h
      split at h
      · cases h
        refine hsilent (fun n => ?_) rfl rfl
        rw [World.store_setClient]
        exact .refl _
      · cases h
  | restart node incarnation =>
      rw [Deployment.disturb, Deployment.restart] at h
      split at h
      · cases h
        refine hsilent (fun n => ?_) rfl rfl
        by_cases hn : n = node
        · subst hn
          rw [World.store, World.store, World.setProcess_self]
          exact upward_reopen _
        · rw [World.store, World.store, World.setProcess_of_ne _ _ hn]
          exact .refl _
      · cases h

end DelosLab.NativeLoglet
