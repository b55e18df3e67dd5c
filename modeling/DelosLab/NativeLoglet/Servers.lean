import DelosLab.NativeLoglet.Processes

/-!
# The LogServers keep the discipline

Handling a request changes the store of one LogServer and then records the handler
or an answer. Each part keeps the invariant by itself.
-/

namespace DelosLab.NativeLoglet

open Async Consensus LogletStore

variable {𝒮 : Deployment} {w : World}

/-! ## The store of a LogServer -/

/-- A LogServer observes a known tail. -/
theorem Inv.observeKnownTail (h : Inv 𝒮 w) (node : String) {knownTail : Nat}
    (hk : w.Known 𝒮 knownTail) :
    Inv 𝒮 (w.setStore node ((w.store node).observeKnownTail knownTail)) := by
  have hadv := advances_observeKnownTail (w.store node) knownTail
  have hs := (h.store node).mono (World.grow_setStore hadv)
  exact h.setStore hadv { hs with known := hs.known.max (hk.mono (World.grow_setStore hadv)) }

/-- A LogServer gets an entry whose predecessors are covered. -/
theorem Inv.insert (h : Inv 𝒮 w) {node : String} {entry : LogEntry} (ha : entry ∈ w.assigned)
    (hp : w.Dense 𝒮 node entry.position) :
    Inv 𝒮 (w.setStore node ((w.store node).insert entry)) := by
  have hadv := advances_insert (w.store node) entry
  have hg := World.grow_setStore hadv
  have hs := (h.store node).mono hg
  refine h.setStore hadv { hs with entries := fun e he => ?_, dense := fun p hlt => ?_ }
  · rcases List.mem_append.mp he with he | he
    · exact hs.entries e he
    · rw [List.mem_singleton.mp he]
      exact ha
  · -- Below the old tail, below the entry, or at the entry.
    have hcases : p < (w.store node).localTail ∨ p < entry.position ∨ p = entry.position := by
      have htail : ((w.store node).insert entry).localTail ≤
          max (w.store node).localTail (entry.position + 1) := by
        simp only [localTail, LogletStore.insert, entriesTail_append]
        simp only [entriesTail]
        omega
      omega
    rcases hcases with hlt | hlt | rfl
    · exact hs.dense p hlt
    · exact hp.mono hg p hlt
    · refine .inl ?_
      show (World.store _ node).Covers _
      rw [World.store_setStore]
      exact .inr ⟨entry, List.mem_append_right _ (List.mem_singleton_self _), rfl⟩

/-- Trimming below a known tail. -/
theorem Inv.prefixTrim (h : Inv 𝒮 w) (node : String) {trimPosition : Nat}
    (hk : w.Known 𝒮 trimPosition) :
    Inv 𝒮 (w.setStore node ((w.store node).prefixTrim trimPosition).1) := by
  have hadv := advances_prefixTrim (w.store node) trimPosition
  have hg := World.grow_setStore hadv
  have hs := (h.store node).mono hg
  have hwatermark := hs.trimmed.max (hk.mono hg)
  refine h.setStore hadv { hs with
    entries := fun e he => hs.entries e (List.mem_of_mem_filter he)
    trimmed := hwatermark
    dense := fun p hlt => ?_ }
  by_cases hp : p < max (w.store node).trimmedPrefix trimPosition
  · exact .inr (hwatermark p hp)
  · refine hs.dense p ?_
    have := entriesTail_filter_le (fun e => max (w.store node).trimmedPrefix trimPosition ≤ e.position)
      (w.store node).entries
    simp only [localTail, LogletStore.prefixTrim] at hlt ⊢
    omega

theorem Inv.seal (h : Inv 𝒮 w) (node : String) {knownTail : Nat} (hk : w.Known 𝒮 knownTail) :
    Inv 𝒮 (w.setStore node ((w.store node).seal knownTail)) := by
  have hadv := advances_seal (w.store node) knownTail
  have hs := (h.store node).mono (World.grow_setStore hadv)
  exact h.setStore hadv { hs with known := hs.known.max (hk.mono (World.grow_setStore hadv)) }

@[simp] theorem World.setStore_setStore (w : World) (node : String) (s s' : LogletStore) :
    (w.setStore node s).setStore node s' = w.setStore node s' := by
  simp only [World.setStore, World.setProcess, Function.update_self, Function.update_idem]

/-! ## Records and answers -/

theorem World.grow_handling (w : World) (handling : List (Nat × String)) :
    Grow w { w with handling := handling } :=
  ⟨fun _ => .refl _, List.prefix_refl _, List.Subset.refl _, fun _ hr => .inl hr,
    List.prefix_refl _, List.Subset.refl _, fun _ _ h => .inl h, List.prefix_refl _⟩

theorem Inv.handles (h : Inv 𝒮 w) {handling : List (Nat × String)}
    (hh : ∀ batch node, (batch, node) ∈ handling →
      ∃ request, w.request batch node = some request ∧ Wrote w node request) :
    Inv 𝒮 { w with handling := handling } :=
  { h with
    handling := hh
    replies := fun r hr => by
      obtain ⟨request, hreq, hinv⟩ := h.replies r hr
      exact ⟨request, hreq, hinv.mono (w.grow_handling handling)⟩
    store := fun n => (h.store n).mono (w.grow_handling handling)
    fenced := h.fenced.mono (w.grow_handling handling) rfl fun n => ⟨_, _, rfl⟩
    requests := fun requests hr item hi =>
      (h.requests requests hr item hi).mono (w.grow_handling handling)
    returned := fun r hr => (h.returned r hr).mono (w.grow_handling handling) }

theorem World.grow_reply {batch : Nat} {node : String} {response : Response}
    (hs : ∀ s, response = .state s → Since w node s) : Grow w (w.reply batch node response) := by
  refine ⟨fun _ => .refl _, List.prefix_refl _, List.subset_cons_self _ _, fun r hr => ?_,
    List.prefix_refl _, List.Subset.refl _, fun _ _ h => .inl h, List.prefix_refl _⟩
  rcases List.mem_cons.mp hr with rfl | hr
  · exact .inr hs
  · exact .inl hr

theorem Inv.reply (h : Inv 𝒮 w) {batch : Nat} {node : String} {request : Request}
    {response : Response} (hreq : w.request batch node = some request)
    (hr : ReplyInv 𝒮 w node request response) (hs : ∀ s, response = .state s → Since w node s) :
    Inv 𝒮 (w.reply batch node response) :=
  have hg : Grow w (w.reply batch node response) := World.grow_reply hs
  { h with
    replies := fun r hmem => by
      rcases List.mem_cons.mp hmem with rfl | hmem
      · exact ⟨request, hreq, hr.mono hg⟩
      · obtain ⟨request', hreq', hinv⟩ := h.replies r hmem
        exact ⟨request', hreq', hinv.mono hg⟩
    handling := fun batch n hb => by
      obtain ⟨request', hreq', hw⟩ := h.handling batch n hb
      exact ⟨request', hreq', hw.mono hg⟩
    store := fun n => (h.store n).mono hg
    fenced := h.fenced.mono hg rfl fun n => ⟨_, _, rfl⟩
    requests := fun requests hr' item hi => (h.requests requests hr' item hi).mono hg
    returned := fun r hr' => (h.returned r hr').mono hg }

theorem World.rely_of_processes {w' : World} (hp : w'.processes = w.processes)
    (ha : w'.assigned = w.assigned) (hi : w'.invoked = w.invoked) (t : TaskId) : Rely t w w' := by
  refine ⟨fun s hs => ⟨?_, ha⟩, fun hs => ?_, congrFun hi t⟩
  · rw [World.Locked, hp]
    exact hs
  · rw [hp]
    exact hs

/-- An open LogServer accepts a put of an entry that it covers. -/
theorem World.grow_stored {node : String} {p : Nat} (hopen : (w.store node).sealed = false) :
    Grow w { w with stored := (node, p) :: w.stored } := by
  refine ⟨fun _ => .refl _, List.prefix_refl _, List.Subset.refl _, fun _ hr => .inl hr,
    List.prefix_refl _, List.subset_cons_self _ _, fun n q hq => ?_, List.prefix_refl _⟩
  rcases List.mem_cons.mp hq with heq | hq
  · cases heq
    exact .inr hopen
  · exact .inl hq

theorem Inv.stores (h : Inv 𝒮 w) {node : String} {p : Nat} (hopen : (w.store node).sealed = false)
    (hc : w.Covers node p) : Inv 𝒮 { w with stored := (node, p) :: w.stored } :=
  have hg : Grow w { w with stored := (node, p) :: w.stored } := World.grow_stored hopen
  { h with
    stored := fun n q hq => by
      rcases List.mem_cons.mp hq with heq | hq
      · cases heq
        exact hc
      · exact h.stored n q hq
    replies := fun r hmem => by
      obtain ⟨request, hreq, hinv⟩ := h.replies r hmem
      exact ⟨request, hreq, hinv.mono hg⟩
    handling := fun batch n hb => by
      obtain ⟨request, hreq, hw⟩ := h.handling batch n hb
      exact ⟨request, hreq, hw.mono hg⟩
    store := fun n => (h.store n).mono hg
    fenced := h.fenced.mono hg rfl fun n => ⟨_, _, rfl⟩
    requests := fun requests hr' item hi => (h.requests requests hr' item hi).mono hg
    returned := fun r hr' => (h.returned r hr').mono hg }

/-! ## Handling a request -/

/-- What a step of a LogServer keeps. -/
structure Served (𝒮 : Deployment) (w w' : World) : Prop where
  inv : Inv 𝒮 w'
  grow : Grow w w'
  rely : ∀ t, Rely t w w'
  completed : w'.completed = w.completed
  failed : w'.failed = w.failed

theorem Served.trans {w₁ w₂ w₃ : World} (h : Served 𝒮 w₁ w₂) (h' : Served 𝒮 w₂ w₃) :
    Served 𝒮 w₁ w₃ :=
  ⟨h'.inv, h.grow.trans h'.grow, fun t => (h.rely t).trans (h'.rely t),
    h'.completed.trans h.completed, h'.failed.trans h.failed⟩

theorem Served.setStore {node : String} {s : LogletStore} (hi : Inv 𝒮 (w.setStore node s))
    (hadv : (w.store node).Advances s) : Served 𝒮 w (w.setStore node s) :=
  ⟨hi, World.grow_setStore hadv, w.rely_setStore node s, rfl, rfl⟩

theorem Served.reply (h : Inv 𝒮 w) {batch : Nat} {node : String} {request : Request}
    {response : Response} (hreq : w.request batch node = some request)
    (hr : ReplyInv 𝒮 w node request response) (hs : ∀ s, response = .state s → Since w node s) :
    Served 𝒮 w (w.reply batch node response) :=
  ⟨h.reply hreq hr hs, World.grow_reply hs, World.rely_of_processes rfl rfl rfl, rfl, rfl⟩

theorem Served.handling (h : Inv 𝒮 w) {batch : Nat} {node : String} {request : Request}
    (hreq : w.request batch node = some request) (hw : Wrote w node request) :
    Served 𝒮 w (w.written batch node (.ok ())) := by
  refine ⟨h.handles fun b n hb => ?_, w.grow_handling _, World.rely_of_processes rfl rfl rfl,
    rfl, rfl⟩
  rcases List.mem_cons.mp hb with heq | hb
  · cases heq
    exact ⟨request, hreq, hw⟩
  · exact h.handling b n hb

theorem Served.stored (h : Inv 𝒮 w) {node : String} {p : Nat}
    (hopen : (w.store node).sealed = false) (hc : w.Covers node p) :
    Served 𝒮 w (w.accept node p (.ok ())) :=
  ⟨h.stores hopen hc, World.grow_stored hopen, World.rely_of_processes rfl rfl rfl, rfl, rfl⟩

theorem Inv.requestInv (h : Inv 𝒮 w) {batch : Nat} {node : String} {request : Request}
    (hreq : w.request batch node = some request) : RequestInv 𝒮 w request := by
  obtain ⟨requests, hb, hl⟩ := Option.bind_eq_some_iff.mp hreq
  obtain ⟨l₁, l₂, heq, -⟩ := List.lookup_eq_some_iff.mp hl
  exact h.requests requests (List.mem_of_getElem? hb) (node, request) (by simp [heq])

/-- What a LogServer reads of itself is true. -/
theorem Inv.snapshot (h : Inv 𝒮 w) (node : String) :
    StateFacts 𝒮 w node (w.store node).snapshot ∧ Since w node (w.store node).snapshot :=
  ⟨⟨(h.store node).known, (h.store node).trimmed, (h.store node).dense, fun hs => hs,
    fun _ p hp => Covers.lt_localTail (h.stored node p hp)⟩, Nat.le_refl _, fun hs => hs⟩

/-- A LogServer answers with its state. -/
theorem Served.snapshot (h : Inv 𝒮 w) {batch : Nat} {node : String} {request : Request}
    (hreq : w.request batch node = some request) (hw : Wrote w node request) :
    Served 𝒮 w (w.reply batch node (.state (w.store node).snapshot)) := by
  obtain ⟨hfacts, hsince⟩ := h.snapshot node
  refine .reply h hreq ⟨fun s hs => ?_, nofun, nofun⟩ fun s hs => ?_
  · cases hs
    exact ⟨hfacts, hw⟩
  · cases hs
    exact hsince

/-- A LogServer raises an error: a tame one, or to a put. -/
theorem Served.raised (h : Inv 𝒮 w) {batch : Nat} {node : String} {request : Request} {e : Error}
    (hreq : w.request batch node = some request)
    (he : e.Tame ∨ ∃ entry k, request = .put entry k) :
    Served 𝒮 w (w.reply batch node (.error e)) := by
  refine .reply h hreq ⟨nofun, nofun, fun e' he' => ?_⟩ nofun
  cases he'
  exact he

theorem Served.observe (h : Inv 𝒮 w) (node : String) {knownTail : Nat}
    (hk : w.Known 𝒮 knownTail) :
    Served 𝒮 w (w.setStore node ((w.store node).observeKnownTail knownTail)) :=
  .setStore (h.observeKnownTail node hk) (advances_observeKnownTail _ _)

/-- Two assigned entries of one position or of one command are one entry. -/
theorem Inv.eq_of_position (h : Inv 𝒮 w) {e e' : LogEntry} (he : e ∈ w.assigned)
    (he' : e' ∈ w.assigned) (hp : e.position = e'.position) : e = e' := by
  obtain ⟨i, hi⟩ := List.getElem?_of_mem he
  obtain ⟨j, hj⟩ := List.getElem?_of_mem he'
  rw [← h.positions i e hi, hp, h.positions j e' hj] at hi
  exact Option.some.inj (hi.symm.trans hj)

theorem Inv.eq_of_command (h : Inv 𝒮 w) {e e' : LogEntry} (he : e ∈ w.assigned)
    (he' : e' ∈ w.assigned) (hc : e.commandId = e'.commandId) : e = e' :=
  List.inj_on_of_nodup_map h.commands he he' hc

theorem Served.put (h : Inv 𝒮 w) {batch : Nat} {node : String} {entry : LogEntry} {knownTail : Nat}
    (hreq : w.request batch node = some (.put entry knownTail)) :
    Served 𝒮 w (w.deliver 𝒮 batch node (.put entry knownTail)) := by
  obtain ⟨ha, -, hk⟩ := h.requestInv hreq
  have h₁ := Served.observe h node hk
  have heffect := put_effect 𝒮.kind (w.store node) entry knownTail
  rw [World.deliver]
  generalize LogletStore.put 𝒮.kind (w.store node) entry knownTail = result at heffect ⊢
  obtain ⟨s, r⟩ := result
  simp only at heffect ⊢
  -- Accepting the put, once the store covers its entry.
  have haccept : ∀ {w' : World}, Served 𝒮 w w' → (w'.store node).sealed = false →
      w'.Covers node entry.position →
        Served 𝒮 w ((w'.accept node entry.position (.ok ())).written batch node (.ok ())) := by
    intro w' h' hopen hc
    have h₂ := h'.trans (.stored h'.inv hopen hc)
    exact h₂.trans (.handling h₂.inv (h₂.grow.request hreq) List.mem_cons_self)
  cases heffect with
  | failed e he => exact h₁.trans (.raised h₁.inv hreq (.inr ⟨entry, knownTail, rfl⟩))
  | kept hopen hmem =>
      refine haccept h₁ ?_ ?_
      · rw [World.store_setStore]
        exact hopen
      · rw [World.Covers, World.store_setStore]
        exact .inr ⟨entry, hmem, rfl⟩
  | added hopen htrim hfree hpred =>
      have hdense : World.Dense 𝒮
          (w.setStore node ((w.store node).observeKnownTail knownTail)) node entry.position := by
        rcases hpred with ⟨p, hp, hc⟩ | hle
        · -- The predecessor lies below the tail, so everything below the entry does.
          have hlt : p < (w.store node).localTail := hc.lt_localTail
          exact (h₁.inv.store node).dense.le (by rw [World.store_setStore, hp]; exact hlt)
        · have hknown := (h₁.inv.store node).known
          rw [World.store_setStore] at hknown
          exact (hknown.le hle).denseTo node
      have h₂ := h₁.inv.insert ha hdense
      rw [World.store_setStore, World.setStore_setStore] at h₂
      refine haccept (.setStore h₂ ((advances_observeKnownTail _ _).trans (advances_insert _ _))) ?_ ?_
      · rw [World.store_setStore]
        exact hopen
      · rw [World.Covers, World.store_setStore]
        exact .inr ⟨entry, List.mem_append_right _ (List.mem_singleton_self _), rfl⟩

theorem Served.repair (h : Inv 𝒮 w) {batch : Nat} {node : String} {entry : LogEntry}
    {knownTail : Nat} (hreq : w.request batch node = some (.repair entry knownTail)) :
    Served 𝒮 w (w.deliver 𝒮 batch node (.repair entry knownTail)) := by
  obtain ⟨ha, hpos, hk⟩ := h.requestInv hreq
  have h₁ := Served.observe h node hk
  have heffect := repair_effect 𝒮.kind (w.store node) entry knownTail
  rw [World.deliver]
  generalize LogletStore.repair 𝒮.kind (w.store node) entry knownTail = result at heffect ⊢
  obtain ⟨s, r⟩ := result
  simp only at heffect ⊢
  cases heffect with
  | trimmed => exact h₁.trans (.raised h₁.inv hreq (.inl ⟨nofun, nofun⟩))
  | conflict e hother =>
      -- Everything that is stored was assigned, so nothing conflicts.
      obtain ⟨other, hmem, hne, hsame⟩ := hother
      have hother := (h.store node).entries other hmem
      rcases hsame with hp | hc
      · exact absurd (h.eq_of_position hother ha hp) hne
      · exact absurd (h.eq_of_command hother ha hc) hne
  | kept hmem =>
      refine h₁.trans (.handling h₁.inv hreq ?_)
      show World.Covers _ node entry.position
      rw [World.Covers, World.store_setStore]
      exact .inr ⟨entry, hmem, rfl⟩
  | added htrim hfree =>
      have h₂ := h₁.inv.insert ha ((hpos.mono h₁.grow).denseTo node)
      rw [World.store_setStore, World.setStore_setStore] at h₂
      have h₃ := Served.setStore h₂ ((advances_observeKnownTail _ _).trans (advances_insert _ _))
      refine h₃.trans (.handling h₃.inv hreq ?_)
      show World.Covers _ node entry.position
      rw [World.Covers, World.store_setStore]
      exact .inr ⟨entry, List.mem_append_right _ (List.mem_singleton_self _), rfl⟩

/-- A LogServer observes a known tail and answers with its state. -/
theorem Served.state (h : Inv 𝒮 w) {batch : Nat} {node : String} {request : Request}
    {knownTail : Nat} (hreq : w.request batch node = some request) (hk : w.Known 𝒮 knownTail)
    (hw : Wrote w node request) :
    Served 𝒮 w ((w.setStore node ((w.store node).state knownTail).1).reply batch node
      (.state ((w.store node).state knownTail).2)) := by
  have h₁ := Served.observe h node hk
  have h₂ := Served.snapshot h₁.inv (h₁.grow.request hreq) (hw.mono h₁.grow)
  rw [World.store_setStore] at h₂
  exact h₁.trans h₂

/-- **Handling any request that was sent keeps the invariant.** -/
theorem Served.deliver (h : Inv 𝒮 w) {batch : Nat} {node : String} {request : Request}
    (hreq : w.request batch node = some request) :
    Served 𝒮 w (w.deliver 𝒮 batch node request) := by
  have hr := h.requestInv hreq
  cases request with
  | put entry knownTail => exact .put h hreq
  | repair entry knownTail => exact .repair h hreq
  | get position knownTail =>
      have h₁ := Served.observe h node hr
      refine h₁.trans (.reply h₁.inv hreq ⟨nofun, fun p k e hreq' he => ?_, nofun⟩ nofun)
      cases hreq'
      obtain ⟨hmem, hp⟩ := entryAt_some (Response.entry.inj he)
      refine ⟨(h.store node).entries e hmem, hp, ?_⟩
      rw [World.Covers, World.store_setStore]
      exact .inr ⟨e, hmem, hp⟩
  | «seal» knownTail =>
      have h₁ := Served.setStore (h.seal node hr) (advances_seal _ _)
      exact h₁.trans (.handling h₁.inv hreq trivial)
  | prefixTrim trimPosition =>
      have h₁ := Served.setStore (h.prefixTrim node hr) (advances_prefixTrim _ _)
      exact h₁.trans (.handling h₁.inv hreq trivial)
  | state knownTail => exact .state h hreq hr trivial
  | waitForTail localTail knownTail =>
      rw [World.deliver]
      split
      · exact .state h hreq hr trivial
      · exact .observe h node hr

theorem Inv.stateTail_known (h : Inv 𝒮 w) {batch : Nat} {node : String} {request : Request}
    (hreq : w.request batch node = some request) : w.Known 𝒮 request.stateTail := by
  have hr := h.requestInv hreq
  cases request with
  | put entry knownTail => exact hr.2.2
  | repair entry knownTail => exact hr.2.2
  | «seal» knownTail => exact hr
  | _ => exact knownTail_zero

/-- A handler answers after it wrote. -/
theorem Served.respond (h : Inv 𝒮 w) {batch : Nat} {node : String} {request : Request}
    (hmem : (batch, node) ∈ w.handling) (hreq : w.request batch node = some request) :
    Served 𝒮 w (w.respond batch node request) := by
  obtain ⟨request', hreq', hw⟩ := h.handling batch node hmem
  obtain rfl := Option.some.inj (hreq.symm.trans hreq')
  have hi : Inv 𝒮 { w with handling := w.handling.erase (batch, node) } :=
    h.handles fun b n hb => h.handling b n (List.mem_of_mem_erase hb)
  have h₁ : Served 𝒮 w { w with handling := w.handling.erase (batch, node) } :=
    ⟨hi, w.grow_handling _, World.rely_of_processes rfl rfl rfl, rfl, rfl⟩
  exact h₁.trans (.state hi hreq (h.stateTail_known hreq) hw)

end DelosLab.NativeLoglet
