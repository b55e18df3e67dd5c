import DelosLab.NativeLoglet.Durability
import DelosLab.NativeLoglet.RuntimeDiscipline

/-!
# The errors of a RemoteNativeLogletRuntime

An answer that a call gathers may be missing, and `read_next` goes on to the next member. Only
the gets and repairs of a sealed `check_tail` are awaited bare, so that what they raise, a loss
of the connection or a trim in between, is no exception of a Loglet.
-/

namespace DelosLab.NativeLoglet.Remote

open Async Async.Runtime Async.Coroutine
open VirtualLog (Bytes)

variable {𝒮 : Deployment} {C : Condition signature World TaskId Call Choice} {t : TaskId}
  {c : Call} {α : Type} {E : NativeLoglet.Error → Prop} {F : World → Prop}
  {X : World → Error → Prop} {self : Segment}

/-! ## Acts and waits of a client -/

/-- A part of a call of the client, which raises nothing but `E`. -/
abbrev Raises (𝒮 : Deployment) (C : Condition signature World TaskId Call Choice) (t : TaskId)
    (c : Call) (E : NativeLoglet.Error → Prop) (F : World → Prop) (p : NativeLoglet.Co α)
    (Q : World → α → Prop) (X : World → Error → Prop) : Prop :=
  (discipline 𝒮 C).Ported native t c F p Q (fun _ e => E e) X

/-- What the client's calls raise when too few members answer. -/
def Scarce (e : NativeLoglet.Error) : Prop := e = .cancelled ∨ ∃ message, e = .noQuorum message

/-- What `check_tail` may raise besides. -/
def Unsettled (e : NativeLoglet.Error) : Prop :=
  Scarce e ∨ ∃ message, e = .tailUnavailable message

/-- What `read_next` may raise. -/
def Unread (e : NativeLoglet.Error) : Prop :=
  e = .cancelled ∨ ∃ message, e = .logletUnavailable message

theorem client_spec : Raises 𝒮 C t c E F (act .client) (fun w _ => F w) X :=
  act_spec fun _ hi hf => ⟨.refl hi, hf⟩

theorem setClient_spec (hF : (discipline 𝒮 C).Persistent F) {a : NativeLoglet.Act}
    {f : NativeLoglet.World → NativeLogletClient}
    (hexec : ∀ w, (𝒮.exec w t a).1 = w.setClient t.node (f w)) :
    Raises 𝒮 C t c E F (act a) (fun w _ => F w) X := by
  refine act_spec fun w hi hf => ?_
  have haside := aside_setClient w.segment t.node (f w.segment)
  rw [hexec]
  exact ⟨haside.kept hi (hi.genuine.setClient t.node _), hF _ _ haside.grow hf⟩

theorem observeTail_spec (hF : (discipline 𝒮 C).Persistent F) (tail : Nat) :
    Raises 𝒮 C t c E F (act (.observeTail tail)) (fun w _ => F w) X :=
  setClient_spec hF fun _ => rfl

theorem observeTrimmed_spec (hF : (discipline 𝒮 C).Persistent F) (watermark : Nat) :
    Raises 𝒮 C t c E F (act (.observeTrimmed watermark)) (fun w _ => F w) X :=
  setClient_spec hF fun _ => rfl

theorem observeTails_spec (hF : (discipline 𝒮 C).Persistent F) (states : List LogServerState) :
    Raises 𝒮 C t c E F (observeAll NativeLoglet.observe states) (fun w _ => F w) X := by
  induction states with
  | nil => exact .ret fun _ _ h => h
  | cons state states ih => exact .bind (observeTail_spec hF state.knownTail) fun _ => ih

theorem send_spec (hF : (discipline 𝒮 C).Persistent F) {requests : List (String × Request)}
    (hr : ∀ w, F w → ∀ item ∈ requests, Carries w.segment.assigned item.2) :
    Raises 𝒮 C t c E F (act (.send requests))
      (fun w batch => F w ∧ w.segment.messages[batch]? = some requests) X := by
  refine act_spec fun w hi hf => ⟨kept_send hi (hr w hf), hF _ _ (grow_send w _) hf, ?_⟩
  exact List.getElem?_concat_length

theorem cancelled_of_resumed {w w' : NativeLoglet.World} {e : NativeLoglet.Wait}
    {x : NativeLoglet.Choice} {err : NativeLoglet.Error}
    (h : Resumed w t e x w' (.error err)) (hentry : ∀ batch node, e ≠ .entry batch node)
    (hstate : ∀ batch node, e ≠ .state batch node) : err = .cancelled := by
  cases h with
  | cancelled => rfl
  | noEntry h => exact absurd rfl (hentry _ _)
  | unstated h => exact absurd rfl (hstate _ _)

/-- A wait that only a cancellation fails. -/
theorem calm_wait (hF : (discipline 𝒮 C).Persistent F) (hE : E .cancelled)
    {e : NativeLoglet.Wait} (he : e ≠ .acquire)
    (hentry : ∀ batch node, e ≠ .entry batch node) (hstate : ∀ batch node, e ≠ .state batch node) :
    Raises 𝒮 C t c E F (NativeLoglet.wait e) (fun w _ => F w) X := by
  refine wait_spec hF.lasting.stable fun w x w' r hi hf _ hr => ?_
  obtain rfl := Resumed.eq_of_ne hr he
  refine ⟨.refl hi, fun _ _ => hf, fun err herr => ?_⟩
  subst herr
  exact cancelled_of_resumed hr hentry hstate ▸ hE

theorem askAll_spec (hF : (discipline 𝒮 C).Persistent F) (hE : E .cancelled) {request : Request}
    (hr : ∀ assigned, Carries assigned request) :
    Raises 𝒮 C t c E F (self.askAll request) (fun w _ => F w) X := by
  refine .bind (send_spec hF fun w _ item hitem => ?_) fun batch => ?_
  · obtain ⟨node, -, rfl⟩ := List.mem_map.mp hitem
    exact hr w.segment.assigned
  · exact (calm_wait (e := .gather batch self.members) hF hE nofun nofun nofun).pre
      fun _ _ h => h.1

/-! ## Calls that gather -/

theorem seal_spec (hF : (discipline 𝒮 C).Persistent F) :
    Raises 𝒮 C t c Scarce F self.seal (fun w _ => F w) X :=
  .bind client_spec fun _ => .bind (askAll_spec hF (.inl rfl) fun _ => trivial) fun _ =>
    .bind (observeTails_spec hF _) fun _ =>
      .require (fun _ _ h _ => h) fun _ _ _ _ => .inr ⟨_, rfl⟩

theorem prefixTrim_spec (hF : (discipline 𝒮 C).Persistent F) (trimPosition : Nat) :
    Raises 𝒮 C t c Scarce F (self.prefixTrim trimPosition) (fun w _ => F w) X :=
  .bind (askAll_spec hF (.inl rfl) fun _ => trivial) fun _ =>
    .bind (.require (Q := fun w _ => F w) (fun _ _ h _ => h) fun _ _ _ _ => .inr ⟨_, rfl⟩)
      fun _ => .bind (observeTrimmed_spec hF _) fun _ => .ret fun _ _ h => h

theorem readStates_spec (hF : (discipline 𝒮 C).Persistent F) :
    Raises 𝒮 C t c Scarce F self.readStates (fun w _ => F w) X :=
  .bind client_spec fun _ => .bind (askAll_spec hF (.inl rfl) fun _ => trivial) fun _ =>
    .bind (.require (Q := fun w _ => F w) (fun _ _ h _ => h) fun _ _ _ _ => .inr ⟨_, rfl⟩)
      fun _ => .bind (observeTails_spec hF _) fun _ => .ret fun _ _ h => h

theorem waitForProgress_spec (hF : (discipline 𝒮 C).Persistent F)
    (states : List (String × LogServerState)) (observedTail : Nat) :
    Raises 𝒮 C t c Scarce F (self.waitForProgress states observedTail)
      (fun w _ => F w) X := by
  refine .bind client_spec fun client => .bind (send_spec hF fun w _ item hitem => ?_) fun batch =>
    .bind ((calm_wait (e := .firstState batch) hF (.inl rfl) nofun nofun nofun).pre
      fun _ _ h => h.1) fun first => ?_
  · obtain ⟨node, -, rfl⟩ := List.mem_map.mp hitem
    trivial
  · cases first with
    | none => exact .raise fun _ _ _ => .inr ⟨_, rfl⟩
    | some state => exact observeTail_spec hF state.knownTail

/-! ## The copies of a position -/

/-- No get and no repair of the call fails. -/
structure Undenied (C : Condition signature World TaskId Call Choice) (c : Call) : Prop where
  entry : ∀ w t batch node e, ¬C.resume w t c (.native (.entry batch node)) (.native (.fail e))
  state : ∀ w t batch node e, ¬C.resume w t c (.native (.state batch node)) (.native (.fail e))

/-- Copies of the entry that a position has been assigned to. -/
def Copies (position : Nat) (copies : List LogEntry) (w : World) : Prop :=
  ∀ e ∈ copies, e ∈ w.segment.assigned ∧ e.position = position

theorem persistent_copies (position : Nat) (copies : List LogEntry) :
    (discipline 𝒮 C).Persistent (Copies position copies) :=
  fun _ _ hg h e he => ⟨hg.assigned.subset (h e he).1, (h e he).2⟩

theorem persistent_sent (batch : Nat) (requests : List (String × Request)) :
    (discipline 𝒮 C).Persistent fun w => w.segment.messages[batch]? = some requests := by
  intro w w' hg h
  obtain ⟨rest, hrest⟩ := hg.messages
  rw [← hrest, List.getElem?_append_left (List.getElem?_eq_some_iff.mp h).1, h]

theorem request_of_sent {w : World} {batch : Nat} {node : String} {request : Request}
    (h : w.segment.messages[batch]? = some [(node, request)]) :
    w.segment.request batch node = some request :=
  Option.bind_eq_some_iff.mpr ⟨_, h, List.lookup_cons_self⟩

/-- An answer to a get is the entry of its position, or nothing; only a lost connection denies
it. -/
theorem entry_spec (hF : (discipline 𝒮 C).Persistent F) (hE : E .cancelled)
    (hfail : Undenied C c ∨ E .connection) {batch position knownTail : Nat} {node : String} :
    Raises 𝒮 C t c E
      (fun w => F w ∧ w.segment.messages[batch]? = some [(node, .get position knownTail)])
      (NativeLoglet.wait (.entry batch node))
      (fun w r => F w ∧ Copies position r.toList w) X := by
  refine wait_spec (hF.and (persistent_sent batch _)).lasting.stable
    fun w x w' r hi hf hc hr => ?_
  have hreq := request_of_sent hf.2
  cases hr with
  | cancelled => exact ⟨.refl hi, nofun, fun _ h => Except.error.inj h ▸ hE⟩
  | entry hmem =>
      refine ⟨.refl hi, fun a ha => ⟨hf.1, fun e he => ?_⟩, nofun⟩
      cases ha
      obtain ⟨request, hreq', hans⟩ := hi.genuine.replies _ hmem
      obtain rfl := Option.some.inj (hreq.symm.trans hreq')
      exact hans.entry position knownTail e rfl (congrArg Response.entry (Option.mem_toList.mp he))
  | noEntry h =>
      refine ⟨.refl hi, nofun, fun err herr => ?_⟩
      cases herr
      rcases hfail with hundenied | hconnection
      · exact absurd hc (hundenied.entry w t batch node _)
      · rcases h with rfl | hmem
        · exact hconnection
        · obtain ⟨request, hreq', hans⟩ := hi.genuine.replies _ hmem
          obtain rfl := Option.some.inj (hreq.symm.trans hreq')
          exact absurd rfl (hans.error position knownTail _ rfl)

theorem getEntry_spec (hF : (discipline 𝒮 C).Persistent F) (hE : E .cancelled)
    (hfail : Undenied C c ∨ E .connection) (node : String) (position : Nat) :
    Raises 𝒮 C t c E F (getEntry node position)
      (fun w r => F w ∧ Copies position r.toList w) X := by
  refine .bind client_spec fun client => .bind (send_spec hF fun w _ item hitem => ?_) fun batch =>
    entry_spec hF hE hfail
  obtain rfl := List.mem_singleton.mp hitem
  trivial

theorem repairEntry_spec (hF : (discipline 𝒮 C).Persistent F) (hE : E .cancelled)
    (hfail : Undenied C c ∨ ∀ e, E e) {entry : LogEntry} (he : ∀ w, F w → entry ∈ w.segment.assigned)
    (node : String) : Raises 𝒮 C t c E F (repairEntry node entry) (fun w _ => F w) X := by
  refine .bind client_spec fun client => .bind (send_spec hF fun w hf item hitem => ?_)
    fun batch => ?_
  · obtain rfl := List.mem_singleton.mp hitem
    exact he w hf
  · refine .pre (wait_spec hF.lasting.stable fun w x w' r hi hf hc hr => ?_) fun _ _ h => h.1
    cases hr with
    | cancelled => exact ⟨.refl hi, nofun, fun _ h => Except.error.inj h ▸ hE⟩
    | state hmem => exact ⟨.refl hi, fun _ _ => hf, nofun⟩
    | unstated h =>
        refine ⟨.refl hi, nofun, fun e _ => ?_⟩
        rcases hfail with hundenied | hany
        · exact absurd hc (hundenied.state w t batch node _)
        · exact hany e

theorem collectCopies_spec (hE : E .cancelled) (hfail : Undenied C c ∨ ∀ e, E e) (position : Nat)
    (nodes : List String) {F : World → Prop} (hF : (discipline 𝒮 C).Persistent F) :
    Raises 𝒮 C t c E F (collectCopies position nodes)
      (fun w copies => F w ∧ Copies position copies w) X := by
  induction nodes generalizing F with
  | nil => exact .ret fun _ _ h => ⟨h, nofun⟩
  | cons node nodes ih =>
      refine .bind (getEntry_spec hF hE (hfail.imp_right fun h => h .connection) node position) fun entry => ?_
      refine .bind (ih (hF.and (persistent_copies position entry.toList))) fun copies => ?_
      refine .ret fun w _ h => ⟨h.1.1, fun e he => ?_⟩
      rcases List.mem_append.mp he with he | he
      · exact h.1.2 e he
      · exact h.2 e he

theorem spreadCopy_spec (hF : (discipline 𝒮 C).Persistent F) (hE : E .cancelled)
    (hfail : Undenied C c ∨ ∀ e, E e) {canonical : LogEntry}
    (hcanonical : ∀ w, F w → canonical ∈ w.segment.assigned) (position : Nat)
    (nodes : List String) :
    Raises 𝒮 C t c E F (spreadCopy canonical position nodes) (fun w _ => F w) X := by
  induction nodes with
  | nil => exact .ret fun _ _ h => h
  | cons node nodes ih =>
      refine .bind ((getEntry_spec hF hE (hfail.imp_right fun h => h .connection) node position).post
        fun _ _ _ h => h.1) fun entry => ?_
      cases entry with
      | some _ => exact ih
      | none => exact .bind (repairEntry_spec hF hE hfail hcanonical node) fun _ => ih

/-- The copies of a position are copies of one entry, so they never conflict. -/
theorem repairPosition_spec (hE : ∀ e, Unsettled e → E e) (hfail : Undenied C c ∨ ∀ e, E e)
    (nodes : List String) (position : Nat) :
    Raises 𝒮 C t c E (fun _ => True) (repairPosition nodes position) (fun _ _ => True) X := by
  have hcancelled : E .cancelled := hE _ (.inl (.inl rfl))
  refine .bind (collectCopies_spec hcancelled hfail position nodes
    (Discipline.persistent_const True)) fun copies => ?_
  cases copies with
  | nil => exact .raise fun _ _ _ => hE _ (.inr ⟨_, rfl⟩)
  | cons canonical rest =>
      refine .bind (.require (Q := fun w _ => Copies position (canonical :: rest) w)
        (fun _ _ h _ => h.2) fun w hi h hp => ?_) fun _ => ?_
      · refine absurd (fun copy hcopy => ?_) hp
        obtain ⟨hmem, hposition⟩ := h.2 copy (.tail _ hcopy)
        obtain ⟨hmem', hposition'⟩ := h.2 canonical (.head _)
        exact hi.genuine.eq_of_position hmem hmem' (hposition.trans hposition'.symm)
      · exact (spreadCopy_spec (persistent_copies position _) hcancelled hfail
          (fun w h => (h canonical (.head _)).1) position nodes).post fun _ _ _ _ => trivial

theorem repairThrough_spec (hE : ∀ e, Unsettled e → E e) (hfail : Undenied C c ∨ ∀ e, E e)
    (tail : Nat) (nodes : List String) :
    Raises 𝒮 C t c E (fun _ => True) (repairThrough tail nodes) (fun _ _ => True) X := by
  have hpositions : ∀ count position, Raises 𝒮 C t c E (fun _ => True)
      (repairPositions nodes position count) (fun _ _ => True) X := by
    intro count
    induction count with
    | zero => exact fun _ => .ret fun _ _ h => h
    | succ count ih =>
        exact fun position => .bind (repairPosition_spec hE hfail nodes position) fun _ => ih _
  exact .bind client_spec fun client => hpositions _ _

theorem checkTail_spec (hE : ∀ e, Unsettled e → E e) (hfail : Undenied C c ∨ ∀ e, E e)
    (turns : Nat) :
    Raises 𝒮 C t c E (fun _ => True) (self.checkTail turns) (fun _ _ => True) X := by
  have hF : (discipline 𝒮 C).Persistent fun _ => True := Discipline.persistent_const True
  have hscarce : ∀ {α : Type} {p : NativeLoglet.Co α}, Raises 𝒮 C t c Scarce (fun _ => True) p
      (fun _ _ => True) X → Raises 𝒮 C t c E (fun _ => True) p (fun _ _ => True) X :=
    fun h => h.mono (fun _ _ h => h) (fun _ _ _ h => h) fun _ _ _ h => hE _ (.inl h)
  induction turns with
  | zero => exact .bind (calm_wait (e := .never) hF (hE _ (.inl (.inl rfl))) nofun nofun nofun) nofun
  | succ turns ih =>
      refine .bind (hscarce (readStates_spec hF)) fun states =>
        .bind (observeTrimmed_spec hF _) fun _ => ?_
      dsimp only
      split
      · exact .bind (hscarce (seal_spec hF)) fun _ => ih
      · split
        · exact .bind (repairThrough_spec hE hfail _ _) fun _ =>
            .bind (observeTail_spec hF _) fun _ => .ret fun _ _ h => h
        · refine .bind client_spec fun client => ?_
          split
          · exact .bind (observeTail_spec hF _) fun _ => .ret fun _ _ h => h
          · exact .bind (hscarce (waitForProgress_spec hF states _)) fun _ => ih

/-! ## `read_next` -/

theorem readPosition_spec (position knownTail : Nat) (members : List String) (responses : Nat) :
    Raises 𝒮 C t c Unread (fun _ => True) (readPosition position knownTail members responses)
      (fun _ _ => True) X := by
  have hF : (discipline 𝒮 C).Persistent fun _ => True := Discipline.persistent_const True
  induction members generalizing responses with
  | nil => exact .ret fun _ _ h => h
  | cons member members ih =>
      refine .bind (send_spec hF fun w _ item hitem => ?_) fun batch => ?_
      · obtain rfl := List.mem_singleton.mp hitem
        trivial
      · refine .bind (Q := fun _ _ => True) (.handle (.bind (entry_spec hF
          (E := fun e => e = .cancelled ∨ e = .connection) (.inl rfl) (.inr (.inr rfl)))
            fun _ => .ret fun _ _ _ => trivial) fun e => ?_) fun answer => ?_
        · split
          · exact .ret fun _ _ _ => trivial
          · next hne => exact .raise fun _ _ h => .inl (h.resolve_right hne)
        · rcases answer with _ | _ | entry
          · exact ih responses
          · exact ih (responses + 1)
          · exact .ret fun _ _ _ => trivial

theorem readNext_spec (localNode : String) (localStart localStop : Nat) :
    Raises 𝒮 C t c Unread (fun _ => True) (𝒮.segment.readNext localNode localStart localStop)
      (fun _ _ => True) X := by
  have hpositions : ∀ members knownTail count position, Raises 𝒮 C t c Unread (fun _ => True)
      (𝒮.segment.readPositions members knownTail position count) (fun _ _ => True) X := by
    intro members knownTail count
    induction count with
    | zero => exact fun _ => .ret fun _ _ _ => trivial
    | succ count ih =>
        intro position
        refine .bind (readPosition_spec position knownTail members 0) fun found => ?_
        rcases found with ⟨_ | entry, responses⟩
        · exact .bind (.require (Q := fun _ _ => True) (fun _ _ _ _ => trivial)
            fun _ _ _ _ => .inr ⟨_, rfl⟩) fun _ => ih _
        · exact .ret fun _ _ _ => trivial
  refine .bind client_spec fun client => ?_
  dsimp only
  split
  · exact .ret fun _ _ _ => trivial
  · exact hpositions _ _ _ _

/-! ## The calls of the runtime -/

/-- The triple of a call of the runtime. -/
abbrev Surfacing (𝒮 : Deployment) (C : Condition signature World TaskId Call Choice) (t : TaskId)
    (c : Call) (p : Co α) : Prop :=
  (discipline 𝒮 C).Triple t c (fun _ => True) p (fun _ _ => True) fun _ e => Surfaces c e

theorem surfaces_cancelled : Surfaces c (.native .cancelled) := .inr (.inr (.inr rfl))

theorem surfaces_unavailable (message : String) : Surfaces c (.logletUnavailable message) :=
  .inr (.inl ⟨message, rfl⟩)

theorem orUnavailable_spec {p : NativeLoglet.Co α}
    (h : ∀ X, Raises 𝒮 C t c Scarce (fun _ => True) p (fun _ _ => True) X) :
    Surfacing 𝒮 C t c (orUnavailable (native.translate p)) := by
  refine .handle ((h fun _ e => ∃ e', Scarce e' ∧ e = raised e').triple
    fun _ e _ he => ⟨e, he, rfl⟩) fun e => ?_
  rintro w₀ w hk ⟨e', rfl | ⟨message, rfl⟩, rfl⟩
  · exact ⟨hk, surfaces_cancelled⟩
  · exact ⟨hk, surfaces_unavailable message⟩

theorem orTailUnavailable_spec {p : NativeLoglet.Co α}
    (h : ∀ X, Raises 𝒮 C t c Unsettled (fun _ => True) p (fun _ _ => True) X) :
    Surfacing 𝒮 C t c (orTailUnavailable (native.translate p)) := by
  refine .handle ((h fun _ e => ∃ e', Unsettled e' ∧ e = raised e').triple
    fun _ e _ he => ⟨e, he, rfl⟩) fun e => ?_
  rintro w₀ w hk ⟨e', (rfl | ⟨message, rfl⟩) | ⟨message, rfl⟩, rfl⟩
  · exact ⟨hk, surfaces_cancelled⟩
  · exact ⟨hk, surfaces_unavailable message⟩
  · exact ⟨hk, surfaces_unavailable message⟩

theorem readNext_surfacing (localNode : String) (localStart localStop : Nat) :
    Surfacing 𝒮 C t c
      (native.translate (𝒮.segment.readNext localNode localStart localStop)) := by
  refine (readNext_spec localNode localStart localStop).triple fun w e _ he => ?_
  rcases he with rfl | ⟨message, rfl⟩
  · exact surfaces_cancelled
  · exact surfaces_unavailable message

/-! ### Appends -/

/-- What the HTTP call of an append raises. -/
def Refuses (commandId : String) : Error → Prop
  | .sequencerUnavailable _ => True
  | .native (.notSequencer _) => True
  | .native (.incarnationMismatch _) => True
  | .native (.segmentSealed _) => True
  | .native (.entryConflict conflicting) => conflicting = commandId
  | .native (.noQuorum _) => True
  | .native .cancelled => True
  | _ => False

theorem appendResponse_error {e : NativeLoglet.Error} {result : AppendResult} :
    appendResponse (.error e) ≠ .ok result := by
  cases e with
  | _ => nofun

/-- An append that is answered has been committed. -/
theorem post_spec (node commandId : String) (payload : Bytes) :
    (discipline 𝒮 C).Triple t c (fun _ => True) (Remote.wait (.post node commandId payload))
      (fun _ r => ∀ result, r = some (.ok result) → 1 ≤ result.knownTail)
      fun _ e => Refuses commandId e := by
  refine .wait (Discipline.persistent_const True).lasting.stable fun w x w' r hi _ _ hs => ?_
  cases x with
  | native x => cases hs
  | unreached =>
      cases hs
      refine ⟨.refl hi, fun a ha => ?_, nofun⟩
      cases ha
      exact nofun
  | responded result =>
      cases result with
      | ok result =>
          obtain ⟨hmem, heq⟩ := Option.ite_none_right_eq_some.mp hs
          cases heq
          refine ⟨.refl hi, fun a ha => ?_, nofun⟩
          cases ha
          rintro _ ⟨⟩
          exact hi.appended result hmem
      | error e =>
          cases hs
          refine ⟨.refl hi, fun a ha => ?_, nofun⟩
          cases ha
          exact fun result hr => absurd (Option.some.inj hr) appendResponse_error
  | cancel =>
      cases hs
      refine ⟨.refl hi, nofun, fun err herr => ?_⟩
      cases herr
      trivial

theorem httpAppend_spec (node : String) (segment : Segment) (commandId : String)
    (payload : Bytes) :
    (discipline 𝒮 C).Triple t c (fun _ => True)
      (HttpSequencerTransport.append node segment commandId payload)
      (fun _ result => 1 ≤ result.knownTail) fun _ e => Refuses commandId e := by
  refine .bind (post_spec node commandId payload) fun r => ?_
  rcases r with _ | result | ⟨statusCode, code⟩
  · exact .raise fun _ _ _ => trivial
  · exact .ret fun _ _ h => h result rfl
  · dsimp only
    split
    · exact .raise fun _ _ _ => trivial
    split
    · exact .raise fun _ _ _ => trivial
    split
    · exact .raise fun _ _ _ => trivial
    split
    · exact .raise fun _ _ _ => rfl
    split
    · exact .raise fun _ _ _ => trivial
    · exact .raise fun _ _ _ => trivial

theorem append_surfacing (self : RemoteNativeLogletRuntime) (commandId : String)
    (payload : Bytes) :
    Surfacing 𝒮 C t (.append commandId payload) (self.append commandId payload) := by
  refine .bind (Q := fun _ result => 1 ≤ result.knownTail) (.handle (httpAppend_spec _ _ _ _)
    fun e => ?_) fun result => ?_
  · intro w₀ w hk he
    cases e with
    | logletSealed message => cases he
    | logletUnavailable message => cases he
    | sequencerUnavailable node => exact ⟨hk, surfaces_unavailable node⟩
    | native e =>
        cases e with
        | segmentSealed message => exact ⟨hk, .inl ⟨message, rfl⟩⟩
        | entryConflict conflicting =>
            obtain rfl : conflicting = commandId := he
            exact ⟨hk, .inr (.inr (.inl ⟨_, payload, rfl, rfl⟩))⟩
        | noQuorum message => exact ⟨hk, surfaces_unavailable message⟩
        | notSequencer node => exact ⟨hk, surfaces_unavailable node⟩
        | incarnationMismatch node => exact ⟨hk, surfaces_unavailable node⟩
        | cancelled => exact ⟨hk, surfaces_cancelled⟩
        | _ => cases he
  · refine .bind (Q := fun _ _ => 1 ≤ result.knownTail) (.act fun w hi h => ?_) fun _ => ?_
    · have haside := aside_setClient w.segment t.node { w.segment.client t.node with
        knownTail := max (w.segment.client t.node).knownTail result.knownTail }
      exact ⟨haside.kept hi (hi.genuine.setClient t.node _), h⟩
    · refine .orRaise (fun _ _ _ _ _ => trivial) fun w _ h hnone => ?_
      rw [LogletAppend.validate, dif_pos h] at hnone
      cases hnone

/-! ## Every run -/

/-- No get and no repair fails with which a `check_tail` brings the copies of sealed members
together. -/
def repairsAnswered : Condition signature World TaskId Call Choice where
  launch := fun _ _ _ => True
  resume := fun _ _ c e x =>
    match c, e, x with
    | .checkTail _, .native (.entry _ _), .native (.fail _) => False
    | .checkTail _, .native (.state _ _), .native (.fail _) => False
    | _, _, _ => True

theorem undenied_checkTail (turns : Nat) : Undenied repairsAnswered (.checkTail turns) :=
  ⟨fun _ _ _ _ _ h => h, fun _ _ _ _ _ h => h⟩

/-- What the end of a call is known to be: a call surfaces what it raises, and an append in the
process of the sequencer has committed its entry. -/
def Ends (c : Call) : Except Error Outcome → Prop
  | .ok (.registry result) => 1 ≤ result.knownTail
  | .ok _ => True
  | .error e => (∃ commandId payload turns, c = .registryAppend commandId payload turns) ∨
      Surfaces c e

theorem program_spec (hfail : ∀ turns, Undenied C (.checkTail turns)) (node : String) (c : Call) :
    (discipline 𝒮 C).Triple t c (fun _ => True) (program 𝒮 node c) (fun _ o => Ends c (.ok o))
      fun _ e => Ends c (.error e) := by
  have hF : (discipline 𝒮 C).Persistent fun _ => True := Discipline.persistent_const True
  have hends : ∀ {α : Type} {p : Co α}, Surfacing 𝒮 C t c p →
      (discipline 𝒮 C).Triple t c (fun _ => True) p (fun _ _ => True)
        fun _ e => Ends c (.error e) :=
    fun h => h.mono (fun _ _ h => h) (fun _ _ _ h => h) fun _ _ _ h => .inr h
  cases c with
  | append commandId payload =>
      exact .bind (hends (append_surfacing _ commandId payload)) fun _ => .ret fun _ _ _ => trivial
  | «seal» =>
      exact .bind (hends (orTailUnavailable_spec fun X => (seal_spec hF).mono (fun _ _ h => h)
        (fun _ _ _ h => h) fun _ _ _ h => .inl h)) fun _ => .ret fun _ _ _ => trivial
  | checkTail turns =>
      exact .bind (hends (orTailUnavailable_spec fun X => checkTail_spec (fun _ h => h) (.inl (hfail turns)) turns))
        fun _ => .ret fun _ _ _ => trivial
  | prefixTrim trimPosition =>
      exact .bind (hends (orUnavailable_spec fun X => prefixTrim_spec hF trimPosition))
        fun _ => .ret fun _ _ _ => trivial
  | readNext localStart localStop =>
      exact .bind (hends (readNext_surfacing node localStart localStop))
        fun _ => .ret fun _ _ _ => trivial
  | registryAppend commandId payload turns =>
      refine .bind ((registryAppend_spec commandId payload turns).triple fun w e _ _ =>
        .inl ⟨commandId, payload, turns, rfl⟩) fun result => .ret fun _ _ h => h

theorem finish_kept {w : World} {o : Except Error Outcome} (hi : Inv 𝒮 w) (h : Ends c o) :
    (discipline 𝒮 C).Kept t w (finish w c o) := by
  unfold finish
  split
  · refine ⟨⟨hi.genuine, fun r hr => ?_, hi.failed⟩, fun u _ s hs => ⟨s, hs, fun hk => hk⟩⟩
    rcases List.mem_cons.mp hr with rfl | hr
    · exact h
    · exact hi.appended r hr
  · exact .refl hi
  · exact .refl hi
  · next e hplain =>
      refine ⟨⟨hi.genuine, hi.appended, fun c' e' hmem => ?_⟩, fun u _ s hs => ⟨s, hs, fun hk => hk⟩⟩
      rcases List.mem_cons.mp hmem with heq | hmem
      · obtain ⟨rfl, rfl⟩ := Prod.mk.inj heq
        refine h.resolve_left ?_
        rintro ⟨commandId, payload, turns, rfl⟩
        exact hplain commandId payload turns rfl
      · exact hi.failed c' e' hmem

theorem aside_respond (w : NativeLoglet.World) (batch : Nat) (node : String) (request : Request) :
    Aside w (w.respond batch node request) :=
  ⟨rfl, rfl, fun n => by
    rw [World.respond, World.reply]
    exact (aside_setStore { w with handling := w.handling.erase (batch, node) } node _).sequencers n⟩

theorem disturb_kept {w : World} {segment : NativeLoglet.World} {d : Disturbance}
    (hi : Inv 𝒮 w) (h : 𝒮.disturb w.segment d = some segment) :
    Inv 𝒮 { w with segment := segment } ∧ Grow w { w with segment := segment } ∧
      ∀ u, (runtime 𝒮).survives d u = true → Rely u w { w with segment := segment } := by
  have haside : ∀ {segment : NativeLoglet.World}, Aside w.segment segment → Genuine 𝒮 segment →
      Inv 𝒮 { w with segment := segment } ∧ Grow w { w with segment := segment } ∧
        ∀ u, (runtime 𝒮).survives d u = true → Rely u w { w with segment := segment } :=
    fun h hg => ⟨hi.genuinely hg, h.grow, fun u _ => h.rely u⟩
  cases d with
  | deliver batch node =>
      obtain ⟨request, hreq, rfl⟩ := Option.map_eq_some_iff.mp h
      exact haside (aside_deliver w.segment batch node request) (hi.genuine.deliver hreq)
  | respond batch node =>
      obtain ⟨-, h⟩ := Option.ite_none_right_eq_some.mp h
      obtain ⟨request, hreq, rfl⟩ := Option.map_eq_some_iff.mp h
      exact haside (aside_respond w.segment batch node request) (hi.genuine.respond hreq)
  | learn node returned =>
      simp only [Deployment.disturb, Deployment.learn] at h
      split at h
      · cases h
        exact haside (aside_setClient w.segment node _) (hi.genuine.setClient node _)
      · cases h
  | restart node incarnation =>
      obtain ⟨hg, hmessages, hassigned, hother⟩ := hi.genuine.restart h
      refine ⟨hi.genuinely hg, ⟨hmessages ▸ List.prefix_refl _, hassigned ▸ List.prefix_refl _⟩,
        fun u hu s hs => ⟨s, ?_, fun hk => hk⟩⟩
      rw [hother u.node (of_decide_eq_true hu)]
      exact hs

theorem sound (hfail : ∀ turns, Undenied C (.checkTail turns)) : (discipline 𝒮 C).Sound where
  start := fun {w t c w' p} hi _ hs => by
    cases hs
    exact ⟨.refl w, (program_spec hfail t.node c).safe_finish (.refl hi) trivial
      (fun _ _ hi h => finish_kept hi h) fun _ _ hi h => finish_kept hi h⟩
  disturb := fun hi hs => by
    obtain ⟨segment, h, rfl⟩ := Option.map_eq_some_iff.mp hs
    exact disturb_kept hi h

theorem inv_initial (𝒮 : Deployment) : Inv 𝒮 (.initial 𝒮) where
  genuine :=
    { positions := fun _ _ h => by cases h
      stores := fun _ _ h => by cases h
      requests := fun _ h => by cases h
      replies := fun _ h => by cases h
      fence := fun _ h => absurd rfl h
      fresh := fun _ h => by cases h
      once := fun h => absurd rfl h
      books := fun _ _ h => by cases h }
  appended := fun _ h => by cases h
  failed := fun _ _ h => by cases h

/-- **Transport failures surface as Loglet errors**, in runs in which the gets and repairs of
`check_tail` are answered. -/
theorem errors_surface {s : SystemState}
    (h : (runtime 𝒮).ReachableUnder repairsAnswered (· = World.initial 𝒮) s) :
    ∀ c e, (c, e) ∈ s.world.failed → Surfaces c e :=
  ((sound undenied_checkTail).reachable (by rintro w rfl; exact inv_initial 𝒮) h).1.failed

/-! ## Two runs of three nodes -/

def meetsRepairsAnswered (s : SystemState) : Action TaskId Call Choice Disturbance → Bool
  | .resume t (.native (.fail _)) =>
      match s.tasks t with
      | some (.checkTail _, _) => false
      | _ => true
  | _ => true

theorem meets_of_meetsRepairsAnswered (s : SystemState)
    (a : Action TaskId Call Choice Disturbance) (h : meetsRepairsAnswered s a = true) :
    Meets repairsAnswered s a := by
  cases a with
  | launch t c => trivial
  | disturb d => trivial
  | resume t x =>
      intro c e k ht
      simp only [repairsAnswered]
      split
      · simp only [meetsRepairsAnswered, ht, Bool.false_eq_true] at h
      · simp only [meetsRepairsAnswered, ht, Bool.false_eq_true] at h
      · trivial

/-- `nodes` handle their requests of a batch up to the first store operation. -/
def delivers (batch : Nat) (nodes : List String) :
    List (Action TaskId Call Choice Disturbance) :=
  nodes.map fun node => .disturb (.deliver batch node)

def handles (batch : Nat) (nodes : List String) : List (Action TaskId Call Choice Disturbance) :=
  delivers batch nodes ++ nodes.map fun node => .disturb (.respond batch node)

/-- Nobody answers a seal. -/
def unansweredRun : List (Action TaskId Call Choice Disturbance) :=
  [.launch ⟨"b", 0⟩ .seal, .resume ⟨"b", 0⟩ (.native (.gathered [none, none, none]))]

/-- `a` appends a command with itself and `b`, `b` seals everybody, and `c` checks the tail with
`b` and itself; `b` is lost when it is asked for its copy. -/
def lostRun : List (Action TaskId Call Choice Disturbance) :=
  let state := fun localTail closed => some (Response.state (stateAt localTail 0 closed))
  List.flatten
    [[.launch ⟨"a", 0⟩ (.registryAppend "x" [1] 1), .resume ⟨"a", 0⟩ (.native .done)],
     handles 0 ["a", "b"],
     [.resume ⟨"a", 0⟩ (.native (.gathered [state 1 false, state 1 false, none])),
      .launch ⟨"b", 0⟩ .seal], handles 1 ["a", "b", "c"],
     [.resume ⟨"b", 0⟩ (.native (.gathered [state 1 true, state 1 true, state 0 true])),
      .launch ⟨"c", 0⟩ (.checkTail 1)], delivers 2 ["b", "c"],
     [.resume ⟨"c", 0⟩ (.native (.gathered [none, state 1 true, state 0 true])),
      .resume ⟨"c", 0⟩ (.native (.fail .connection))]]

theorem unansweredRun_runs :
    (((runtime threeNodes).runWhile meetsRepairsAnswered
      (fresh _ _ _ _ (World.initial threeNodes)) unansweredRun).map fun s => s.world.failed) =
    some [(.seal, .logletUnavailable "segment")] := by
  decide +kernel

theorem errors_surface_unanswered :
    ∃ s : SystemState, s.world.failed = [(.seal, .logletUnavailable "segment")] ∧
      ∀ c e, (c, e) ∈ s.world.failed → Surfaces c e := by
  obtain ⟨s, hs, hfailed⟩ := Option.map_eq_some_iff.mp unansweredRun_runs
  exact ⟨s, hfailed,
    errors_surface (ReachableUnder.runWhile meets_of_meetsRepairsAnswered (.init rfl) hs)⟩

theorem lostRun_runs :
    (((runtime threeNodes).run (fresh _ _ _ _ (World.initial threeNodes)) lostRun).map
      fun s => s.world.failed) = some [(.checkTail 1, .native .connection)] := by
  decide +kernel

/-- A member that is lost while a sealed segment is repaired is lost on the caller too. -/
theorem connection_escapes :
    ¬∀ s : SystemState, (runtime threeNodes).Reachable (· = World.initial threeNodes) s →
      ∀ c e, (c, e) ∈ s.world.failed → Surfaces c e := by
  intro h
  obtain ⟨s, hs, hfailed⟩ := Option.map_eq_some_iff.mp lostRun_runs
  have hsurfaces := h s (Reachable.run (.init rfl) hs) (.checkTail 1) (.native .connection)
    (hfailed ▸ List.mem_singleton_self _)
  rcases hsurfaces with ⟨_, heq⟩ | ⟨_, heq⟩ | ⟨_, _, heq, -⟩ | heq
  · cases heq
  · cases heq
  · cases heq
  · cases heq

end DelosLab.NativeLoglet.Remote
