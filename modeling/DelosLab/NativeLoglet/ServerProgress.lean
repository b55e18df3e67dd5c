import DelosLab.NativeLoglet.Answers
import DelosLab.NativeLoglet.GenuineEntries

/-!
# What LogServers never take back

Whoever asks for what: a LogServer keeps an entry until it has trimmed its position, stays
sealed, and its watermark does not fall. So an answer that it has given stays true of it. It
stores nothing that it was not asked to store.
-/

namespace DelosLab.NativeLoglet

open Async LogletStore

variable {𝒮 : Deployment} {w w' : World}

/-! ## Stores -/

namespace LogletStore

/-- A store that has moved on. -/
structure Onward (s s' : LogletStore) : Prop where
  upward : s.Upward s'
  sealed : s.sealed = true → s'.sealed = true
  swept : s.Swept → s'.Swept

theorem Onward.refl (s : LogletStore) : s.Onward s := ⟨.refl s, id, id⟩

theorem Onward.trans {s₁ s₂ s₃ : LogletStore} (h : s₁.Onward s₂) (h' : s₂.Onward s₃) :
    s₁.Onward s₃ :=
  ⟨h.upward.trans h'.upward, fun hs => h'.sealed (h.sealed hs), fun hs => h'.swept (h.swept hs)⟩

theorem onward_put (kind : StoreKind) (s : LogletStore) (entry : LogEntry) (knownTail : Nat) :
    s.Onward (LogletStore.put kind s entry knownTail).1 := by
  have heffect := put_effect kind s entry knownTail
  refine ⟨upward_put kind s entry knownTail, fun hs => ?_, heffect.swept⟩
  generalize LogletStore.put kind s entry knownTail = result at heffect ⊢
  obtain ⟨s', r⟩ := result
  cases heffect with
  | failed => exact hs
  | kept => exact hs
  | added => exact hs

theorem onward_repair (kind : StoreKind) (s : LogletStore) (entry : LogEntry) (knownTail : Nat) :
    s.Onward (LogletStore.repair kind s entry knownTail).1 := by
  have heffect := repair_effect kind s entry knownTail
  refine ⟨(upward_repair kind s entry knownTail).1, fun hs => ?_, heffect.swept⟩
  generalize LogletStore.repair kind s entry knownTail = result at heffect ⊢
  obtain ⟨s', r⟩ := result
  cases heffect with
  | trimmed => exact hs
  | conflict => exact hs
  | kept => exact hs
  | added => exact hs

theorem onward_prefixTrim (s : LogletStore) (trimPosition : Nat) :
    s.Onward (s.prefixTrim trimPosition).1 :=
  ⟨upward_prefixTrim s trimPosition, id, fun _ => swept_prefixTrim s trimPosition⟩

theorem onward_observeKnownTail (s : LogletStore) (knownTail : Nat) :
    s.Onward (s.observeKnownTail knownTail) := ⟨upward_observeKnownTail s knownTail, id, id⟩

theorem onward_seal (s : LogletStore) (knownTail : Nat) : s.Onward (s.seal knownTail) :=
  ⟨upward_seal s knownTail, fun _ => rfl, id⟩

theorem onward_reopen (s : LogletStore) : s.Onward s.reopen := ⟨upward_reopen s, id, id⟩

/-- The store has the entry, or it has trimmed its position. -/
def Keeps (s : LogletStore) (e : LogEntry) : Prop :=
  e ∈ s.entries ∨ e.position < s.trimmedPrefix

theorem Keeps.mono {s s' : LogletStore} {e : LogEntry} (h : s.Keeps e) (hs : s.Onward s') :
    s'.Keeps e := by
  rcases h with hmem | hlt
  · exact hs.upward.entries e hmem
  · exact .inr (Nat.lt_of_lt_of_le hlt hs.upward.trimmedPrefix)

/-- What a store has done once its LogServer answers a request with a state. -/
def Done (s : LogletStore) : Request → Prop
  | .repair entry _ => s.Keeps entry
  | .prefixTrim trimPosition => trimPosition ≤ s.trimmedPrefix
  | .seal _ => s.sealed = true
  | _ => True

theorem Done.mono {s s' : LogletStore} {request : Request} (h : s.Done request)
    (hs : s.Onward s') : s'.Done request := by
  cases request with
  | repair entry knownTail => exact Keeps.mono h hs
  | prefixTrim trimPosition => exact Nat.le_trans h hs.upward.trimmedPrefix
  | «seal» knownTail => exact hs.sealed h
  | _ => trivial

/-- What an answer to a request tells of the store, then and ever after. -/
structure Told (s : LogletStore) (request : Request) (response : Response) : Prop where
  state : ∀ state, response = .state state →
    state.trimmedPrefix ≤ s.trimmedPrefix ∧ s.Done request
  entry : ∀ e, response = .entry (some e) →
    s.Keeps e ∧ ∀ p k, request = .get p k → e.position = p

theorem Told.mono {s s' : LogletStore} {request : Request} {response : Response}
    (h : s.Told request response) (hs : s.Onward s') : s'.Told request response where
  state := by
    intro state hstate
    obtain ⟨hle, hdone⟩ := h.state state hstate
    exact ⟨Nat.le_trans hle hs.upward.trimmedPrefix, hdone.mono hs⟩
  entry := by
    intro e he
    obtain ⟨hkeeps, hposition⟩ := h.entry e he
    exact ⟨hkeeps.mono hs, hposition⟩

theorem Told.of_error (s : LogletStore) (request : Request) (e : Error) :
    s.Told request (.error e) :=
  ⟨by rintro _ ⟨⟩, by rintro _ ⟨⟩⟩

/-- A state that a store tells of itself. -/
theorem Told.of_snapshot {s : LogletStore} {request : Request} (h : s.Done request)
    (knownTail : Nat) : (s.state knownTail).1.Told request (.state (s.state knownTail).2) := by
  refine ⟨fun state hstate => ?_, by rintro _ ⟨⟩⟩
  cases hstate
  exact ⟨Nat.le_refl _, h.mono (onward_observeKnownTail s knownTail)⟩

end LogletStore

/-! ## Answers -/

/-- The request is one to store the entry. -/
def Request.Writes (e : LogEntry) : Request → Prop
  | .put entry _ => e = entry
  | .repair entry _ => e = entry
  | _ => False

/-- Handlers that have written have done what they were asked for, answers are true, and a store
has no entry that its LogServer was not asked to store. -/
structure Truthful (w : World) : Prop where
  handling : ∀ batch node, (batch, node) ∈ w.handling →
    ∃ request, w.request batch node = some request ∧ (w.store node).Done request
  replies : ∀ r ∈ w.replies, ∃ request, w.request r.batch r.node = some request ∧
    (w.store r.node).Told request r.response
  stored : ∀ node, ∀ e ∈ (w.store node).entries,
    ∃ batch request, w.request batch node = some request ∧ request.Writes e

/-- Stores move on, messages and answers stay, and a state that is new tells of a watermark that
is not behind the old one. -/
structure World.Onward (w w' : World) : Prop where
  stores : ∀ node, (w.store node).Onward (w'.store node)
  messages : w.messages <+: w'.messages
  answers : w.replies ⊆ w'.replies
  replies : ∀ r ∈ w'.replies, r ∈ w.replies ∨
    ∀ s, r.response = .state s → (w.store r.node).trimmedPrefix ≤ s.trimmedPrefix

theorem World.Onward.refl (w : World) : w.Onward w :=
  ⟨fun _ => .refl _, List.prefix_refl _, List.Subset.refl _, fun _ hr => .inl hr⟩

theorem World.Onward.trans {w₁ w₂ w₃ : World} (h : w₁.Onward w₂) (h' : w₂.Onward w₃) :
    w₁.Onward w₃ where
  stores := fun node => (h.stores node).trans (h'.stores node)
  messages := h.messages.trans h'.messages
  answers := List.Subset.trans h.answers h'.answers
  replies := by
    intro r hr
    rcases h'.replies r hr with hold | hnew
    · exact h.replies r hold
    · refine .inr fun s hs => ?_
      exact Nat.le_trans (h.stores r.node).upward.trimmedPrefix (hnew s hs)

/-- A step that gives no answer. -/
theorem World.Onward.silent (hs : ∀ node, (w.store node).Onward (w'.store node))
    (hm : w.messages <+: w'.messages) (hr : w'.replies = w.replies) : w.Onward w' :=
  ⟨hs, hm, hr ▸ List.Subset.refl _, fun _ hmem => .inl (hr ▸ hmem)⟩

theorem Truthful.silent (h : Truthful w) (ho : w.Onward w') (hh : w'.handling ⊆ w.handling)
    (hr : w'.replies = w.replies)
    (he : ∀ node, (w'.store node).entries ⊆ (w.store node).entries) : Truthful w' := by
  refine ⟨fun b n hb => ?_, fun r hmem => ?_, fun n e hmem => ?_⟩
  · obtain ⟨request, hreq, hdone⟩ := h.handling b n (hh hb)
    exact ⟨request, request_persists ho.messages hreq, hdone.mono (ho.stores n)⟩
  · obtain ⟨request, hreq, htold⟩ := h.replies r (hr ▸ hmem)
    exact ⟨request, request_persists ho.messages hreq, htold.mono (ho.stores r.node)⟩
  · obtain ⟨batch, request, hreq, hwrites⟩ := h.stored n e (he n hmem)
    exact ⟨batch, request, request_persists ho.messages hreq, hwrites⟩

theorem onward_setStore {node : String} {s : LogletStore} (h : (w.store node).Onward s)
    (n : String) : (w.store n).Onward ((w.setStore node s).store n) := by
  by_cases hn : n = node
  · subst hn
    rw [World.store_setStore]
    exact h
  · rw [World.store_setStore_of_ne w s hn]
    exact .refl _

/-- What a LogServer does that handles a request: its store moves on to `s`, the request is
noted as done or answered. -/
structure Serves (w w' : World) (batch : Nat) (node : String) (request : Request)
    (s : LogletStore) : Prop where
  onward : (w.store node).Onward s
  entries : ∀ e ∈ s.entries, e ∈ (w.store node).entries ∨ request.Writes e
  stores : ∀ n, w'.store n = (w.setStore node s).store n
  messages : w'.messages = w.messages
  handling : ∀ b n, (b, n) ∈ w'.handling → (b, n) ∈ w.handling ∨
    b = batch ∧ n = node ∧ s.Done request
  answers : w.replies ⊆ w'.replies
  replies : ∀ r ∈ w'.replies, r ∈ w.replies ∨ r.batch = batch ∧ r.node = node ∧
    s.Told request r.response ∧ ∀ state, r.response = .state state →
      (w.store node).trimmedPrefix ≤ state.trimmedPrefix

namespace Serves

variable {batch : Nat} {node : String} {request : Request} {s : LogletStore}

theorem worldOnward (h : Serves w w' batch node request s) : w.Onward w' where
  stores := fun n => h.stores n ▸ onward_setStore h.onward n
  messages := h.messages ▸ List.prefix_refl _
  answers := h.answers
  replies := by
    intro r hr
    rcases h.replies r hr with hold | ⟨-, rfl, -, hle⟩
    · exact .inl hold
    · exact .inr hle

theorem truthful (h : Serves w w' batch node request s) (hw : Truthful w)
    (hreq : w.request batch node = some request) : Truthful w' := by
  have hself : w'.store node = s := by rw [h.stores, World.store_setStore]
  have ho := h.worldOnward
  refine ⟨fun b n hb => ?_, fun r hr => ?_, fun n e he => ?_⟩
  · rcases h.handling b n hb with hold | ⟨rfl, rfl, hdone⟩
    · obtain ⟨request', hreq', hdone⟩ := hw.handling b n hold
      exact ⟨request', request_persists ho.messages hreq', hdone.mono (ho.stores n)⟩
    · exact ⟨request, request_persists ho.messages hreq, hself ▸ hdone⟩
  · rcases h.replies r hr with hold | ⟨rfl, rfl, htold, -⟩
    · obtain ⟨request', hreq', htold⟩ := hw.replies r hold
      exact ⟨request', request_persists ho.messages hreq', htold.mono (ho.stores r.node)⟩
    · exact ⟨request, request_persists ho.messages hreq, hself ▸ htold⟩
  · have hold : ∀ e ∈ (w.store n).entries, ∃ batch request,
        w'.request batch n = some request ∧ request.Writes e := by
      intro e he
      obtain ⟨batch', request', hreq', hwrites⟩ := hw.stored n e he
      exact ⟨batch', request', request_persists ho.messages hreq', hwrites⟩
    rw [h.stores] at he
    by_cases hn : n = node
    · subst hn
      rw [World.store_setStore] at he
      rcases h.entries e he with he | hwrites
      · exact hold e he
      · exact ⟨batch, request, request_persists ho.messages hreq, hwrites⟩
    · rw [World.store_setStore_of_ne w s hn] at he
      exact hold e he

/-- A handler has written, or it has raised. -/
theorem written (hs : (w.store node).Onward s)
    (he : ∀ e ∈ s.entries, e ∈ (w.store node).entries ∨ request.Writes e) {r : Except Error Unit}
    (hdone : r = .ok () → s.Done request) :
    Serves w ((w.setStore node s).written batch node r) batch node request s := by
  cases r with
  | ok _ =>
      refine ⟨hs, he, fun _ => rfl, rfl, fun b n hb => ?_, List.Subset.refl _, fun _ hr => .inl hr⟩
      rcases List.mem_cons.mp hb with heq | hb
      · cases heq
        exact .inr ⟨rfl, rfl, hdone rfl⟩
      · exact .inl hb
  | error e =>
      refine ⟨hs, he, fun _ => rfl, rfl, fun _ _ hb => .inl hb, List.subset_cons_self _ _,
        fun r hr => ?_⟩
      rcases List.mem_cons.mp hr with rfl | hr
      · exact .inr ⟨rfl, rfl, .of_error s request e, by rintro _ ⟨⟩⟩
      · exact .inl hr

/-- A LogServer answers with its state. -/
theorem snapshot (batch : Nat) (hdone : (w.store node).Done request) (knownTail : Nat)
    {handling : List (Nat × String)} (hh : handling ⊆ w.handling) :
    Serves w (({ w with handling := handling }.setStore node
      ((w.store node).state knownTail).1).reply batch node
        (.state ((w.store node).state knownTail).2)) batch node request
          ((w.store node).state knownTail).1 := by
  refine ⟨onward_observeKnownTail _ knownTail, fun _ he => .inl he, fun _ => rfl, rfl,
    fun _ _ hb => .inl (hh hb), List.subset_cons_self _ _, fun r hr => ?_⟩
  rcases List.mem_cons.mp hr with rfl | hr
  · refine .inr ⟨rfl, rfl, .of_snapshot hdone knownTail, fun state hstate => ?_⟩
    cases hstate
    exact Nat.le_refl _
  · exact .inl hr

end Serves

/-- What a LogServer does when a request reaches it. -/
theorem serves_deliver (w : World) (batch : Nat) (node : String) (request : Request) :
    ∃ s, Serves w (w.deliver 𝒮 batch node request) batch node request s := by
  cases request with
  | put entry knownTail =>
      have hs := onward_put 𝒮.kind (w.store node) entry knownTail
      have he : ∀ e ∈ (LogletStore.put 𝒮.kind (w.store node) entry knownTail).1.entries,
          e ∈ (w.store node).entries ∨ (Request.put entry knownTail).Writes e :=
        Remote.entries_put 𝒮.kind (w.store node) entry knownTail
      rw [World.deliver]
      generalize LogletStore.put 𝒮.kind (w.store node) entry knownTail = result at hs he ⊢
      obtain ⟨s, r⟩ := result
      have hwritten : Serves w ((w.setStore node s).written batch node r) batch node
          (.put entry knownTail) s := .written hs he fun _ => trivial
      refine ⟨s, ?_⟩
      cases r with
      | ok _ => exact ⟨hs, he, hwritten.stores, hwritten.messages, hwritten.handling, hwritten.answers,
          hwritten.replies⟩
      | error e => exact hwritten
  | repair entry knownTail =>
      have he : ∀ e ∈ (LogletStore.repair 𝒮.kind (w.store node) entry knownTail).1.entries,
          e ∈ (w.store node).entries ∨ (Request.repair entry knownTail).Writes e :=
        Remote.entries_repair 𝒮.kind (w.store node) entry knownTail
      refine ⟨_, .written (onward_repair 𝒮.kind (w.store node) entry knownTail) he fun hok => ?_⟩
      exact .inl ((upward_repair 𝒮.kind (w.store node) entry knownTail).2 hok)
  | get position knownTail =>
      refine ⟨_, onward_observeKnownTail _ knownTail, fun _ he => .inl he, fun _ => rfl, rfl,
        fun _ _ hb => .inl hb, List.subset_cons_self _ _, fun r hr => ?_⟩
      rcases List.mem_cons.mp hr with rfl | hr
      · refine .inr ⟨rfl, rfl, ⟨by rintro _ ⟨⟩, fun e he => ?_⟩, by rintro _ ⟨⟩⟩
        obtain ⟨hmem, hposition⟩ := entryAt_some (Response.entry.inj he)
        refine ⟨.inl hmem, fun p k heq => ?_⟩
        cases heq
        exact hposition
      · exact .inl hr
  | «seal» knownTail =>
      exact ⟨_, .written (r := .ok ()) (onward_seal _ knownTail) (fun _ he => .inl he)
        fun _ => rfl⟩
  | prefixTrim trimPosition =>
      refine ⟨_, .written (r := .ok ()) (onward_prefixTrim _ trimPosition)
        (fun _ he => .inl (List.mem_of_mem_filter he)) fun _ => ?_⟩
      exact Nat.le_max_right _ _
  | state knownTail =>
      have hdone : (w.store node).Done (.state knownTail) := trivial
      exact ⟨_, .snapshot batch hdone knownTail (List.Subset.refl _)⟩
  | waitForTail localTail knownTail =>
      have hdone : (w.store node).Done (.waitForTail localTail knownTail) := trivial
      rw [World.deliver]
      split
      · exact ⟨_, .snapshot batch hdone knownTail (List.Subset.refl _)⟩
      · exact ⟨_, onward_observeKnownTail _ knownTail, fun _ he => .inl he, fun _ => rfl, rfl,
          fun _ _ hb => .inl hb, List.Subset.refl _, fun _ hr => .inl hr⟩

/-! ## Every step -/

theorem exec_handling (w : World) (t : TaskId) (a : Act) :
    (𝒮.exec w t a).1.handling = w.handling := by
  cases a with
  | sequencerFor =>
      simp only [Deployment.exec, Deployment.sequencerFor]
      split
      · rfl
      · split <;> rfl
  | _ => rfl

theorem exec_onward (w : World) (t : TaskId) (a : Act) : w.Onward (𝒮.exec w t a).1 := by
  refine .silent (fun node => ?_) (exec_forward w t a).messages (exec_silent w t a)
  rw [store_exec]
  exact .refl _

theorem Truthful.exec (h : Truthful w) (t : TaskId) (a : Act) : Truthful (𝒮.exec w t a).1 :=
  h.silent (exec_onward w t a) (exec_handling w t a ▸ List.Subset.refl _) (exec_silent w t a)
    fun node => store_exec w t a node ▸ List.Subset.refl _

theorem Resumed.onward {t : TaskId} {e : Wait} {x : Choice} {r : Except Error (WaitResult e)}
    (h : Resumed w t e x w' r) : w.Onward w' := by
  obtain ⟨hreplies, hmessages, hstores⟩ := h.silent
  refine .silent (fun node => ?_) (hmessages ▸ List.prefix_refl _) hreplies
  rw [hstores]
  exact .refl _

/-- What happens between the steps of the tasks. -/
theorem disturb_onward {d : Disturbance} (h : Truthful w) (hd : 𝒮.disturb w d = some w') :
    w.Onward w' ∧ Truthful w' := by
  have hsilent : (∀ node, (w.store node).Onward (w'.store node) ∧
      (w'.store node).entries = (w.store node).entries) → w'.messages = w.messages →
      w'.handling ⊆ w.handling → w'.replies = w.replies → w.Onward w' ∧ Truthful w' := by
    intro hs hm hh hr
    have ho : w.Onward w' := .silent (fun node => (hs node).1) (hm ▸ List.prefix_refl _) hr
    exact ⟨ho, h.silent ho hh hr fun node => (hs node).2 ▸ List.Subset.refl _⟩
  cases d with
  | deliver batch node =>
      obtain ⟨request, hreq, rfl⟩ := Option.map_eq_some_iff.mp hd
      obtain ⟨s, hs⟩ : ∃ s, Serves w (w.deliver 𝒮 batch node request) batch node request s :=
        serves_deliver w batch node request
      exact ⟨hs.worldOnward, hs.truthful h hreq⟩
  | respond batch node =>
      obtain ⟨hmem, hd⟩ := Option.ite_none_right_eq_some.mp hd
      obtain ⟨request, hreq, rfl⟩ := Option.map_eq_some_iff.mp hd
      obtain ⟨request', hreq', hdone⟩ := h.handling batch node hmem
      obtain rfl := Option.some.inj (hreq.symm.trans hreq')
      have hs := Serves.snapshot batch hdone request.stateTail
        (List.erase_subset : w.handling.erase (batch, node) ⊆ w.handling)
      exact ⟨hs.worldOnward, hs.truthful h hreq⟩
  | learn node returned =>
      simp only [Deployment.disturb, Deployment.learn] at hd
      split at hd
      · cases hd
        refine hsilent (fun n => ?_) rfl (List.Subset.refl _) rfl
        rw [World.store_setClient]
        exact ⟨.refl _, rfl⟩
      · cases hd
  | restart node incarnation =>
      rw [Deployment.disturb, Deployment.restart] at hd
      split at hd
      · cases hd
        refine hsilent (fun n => ?_) rfl (List.filter_subset_self _) rfl
        by_cases hn : n = node
        · subst hn
          rw [World.store, World.store, World.setProcess_self]
          exact ⟨onward_reopen _, rfl⟩
        · rw [World.store, World.store, World.setProcess_of_ne _ _ hn]
          exact ⟨.refl _, rfl⟩
      · cases hd

end DelosLab.NativeLoglet
