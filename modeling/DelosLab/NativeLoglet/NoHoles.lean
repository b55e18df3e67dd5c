import DelosLab.Async.Observer
import DelosLab.NativeLoglet.Answers
import DelosLab.NativeLoglet.LogletErrors

/-!
# Reads without holes

`read_next` passes over a position on two grounds: every member has answered that it has no
entry there, or the client remembers that the position was trimmed. The answers of all members
are good for it. What the client remembers is the largest watermark that any LogServer has ever
reported to it, also one that no majority has reached: there a committed entry is passed over
that nobody has trimmed.
-/

namespace DelosLab.NativeLoglet.Remote.Reads

open Async Async.Runtime Async.Coroutine Consensus

/-! ## What an observer sees of the reads -/

/-- A `read_next` that has ended: the segment when it was called, its range, what it came to,
and the watermarks that the trims that had returned by then had confirmed. -/
structure Report where
  before : NativeLoglet.World
  localStart : Nat
  localStop : Nat
  result : Except Error (Option LogEntry)
  confirmed : List Nat

/-- `begun` has the segment as it was when the call of a task began, and `missed` the batches
and members of the requests that were answered to the call with no entry. -/
structure Notes where
  begun : TaskId → NativeLoglet.World
  missed : TaskId → List (Nat × String)
  confirmed : List Nat
  reads : List Report

def Notes.initial (𝒮 : Deployment) : Notes := ⟨fun _ => .initial 𝒮, fun _ => [], [], []⟩

/-- The member has answered the call of `t`. -/
def Notes.answered (g : Notes) (t : TaskId) (batch : Nat) (node : String) :
    Option LogEntry → Notes
  | none => { g with missed := Function.update g.missed t ((batch, node) :: g.missed t) }
  | some _ => g

def Notes.report (g : Notes) (t : TaskId) (localStart localStop : Nat)
    (result : Except Error (Option LogEntry)) : Notes :=
  { g with reads := ⟨g.begun t, localStart, localStop, result, g.confirmed⟩ :: g.reads }

def observer : Observer signature World TaskId Call Outcome Notes where
  start := fun w t _ g =>
    { g with
      begun := Function.update g.begun t w.segment
      missed := Function.update g.missed t [] }
  exec := fun _ _ _ g => g
  resume := fun _ t e r g =>
    match e, r with
    | .native (.entry batch node), .ok (.ok found) => g.answered t batch node found
    | _, _ => g
  finish := fun _ t c o g =>
    match c, o with
    | .prefixTrim _, .ok (.trimmed watermark) => { g with confirmed := watermark :: g.confirmed }
    | .readNext localStart localStop, .ok (.entry found) =>
        g.report t localStart localStop (.ok found)
    | .readNext localStart localStop, .error e => g.report t localStart localStop (.error e)
    | _, _ => g

/-- The runtimes of a deployment, watched. -/
def watched (𝒮 : Deployment) :
    Runtime signature (World × Notes) TaskId Call Choice Disturbance Outcome :=
  (runtime 𝒮).observed observer

abbrev WatchedState : Type := State signature (World × Notes) TaskId Call Outcome

def start (𝒮 : Deployment) : World × Notes := (.initial 𝒮, .initial 𝒮)

/-! ## What a read owes its caller -/

/-- The entry at `p` is committed: a majority has it or has trimmed it, and a member has it
still. -/
def CommittedAt (𝒮 : Deployment) (w : NativeLoglet.World) (p : Nat) : Prop :=
  (∃ node ∈ 𝒮.segment.members, ∃ e ∈ (w.store node).entries, e.position = p) ∧
    Majority 𝒮.segment.members fun node => w.Covers node p

def TrimmedAt (𝒮 : Deployment) (w : NativeLoglet.World) (p : Nat) : Prop :=
  Majority 𝒮.segment.members fun node => p < (w.store node).trimmedPrefix

/-- A trim that has returned confirmed a watermark above `p`. -/
def Confirmed (confirmed : List Nat) (p : Nat) : Prop := ∃ watermark ∈ confirmed, p < watermark

/-- What was committed when the call began and lies before `stop` has been trimmed since. -/
def Skips (𝒮 : Deployment) (before : NativeLoglet.World) (localStart stop : Nat)
    (confirmed : List Nat) : Prop :=
  ∀ p, localStart ≤ p → p < stop → CommittedAt 𝒮 before p → Confirmed confirmed p

/-- A read passes over no hole, or it raises `LogletUnavailable`. -/
def Report.Faithful (𝒮 : Deployment) (r : Report) : Prop :=
  match r.result with
  | .ok found =>
      Skips 𝒮 r.before r.localStart (found.elim r.localStop LogEntry.position) r.confirmed
  | .error e => (∃ message, e = .logletUnavailable message) ∨ e = .native .cancelled

/-- The member has answered the call of `t` that it has nothing at `p`. -/
def Missed (t : TaskId) (p : Nat) (node : String) (w : World × Notes) : Prop :=
  ∃ batch knownTail, (batch, node) ∈ w.2.missed t ∧
    w.1.segment.request batch node = some (.get p knownTail)

/-- When a read begins, its client remembers no trim that has not been confirmed of a committed
entry in its range; and when all members have answered that they have nothing at a position,
then what a majority has trimmed since the read began has been confirmed. -/
def trimsConfirmed (𝒮 : Deployment) : Condition signature (World × Notes) TaskId Call Choice where
  launch := fun w t c =>
    match c with
    | .readNext localStart localStop =>
        Skips 𝒮 w.1.segment localStart (min localStop (w.1.segment.client t.node).trimmedPrefix)
          w.2.confirmed
    | _ => True
  resume := fun w t c e x =>
    match c, e, x with
    | .readNext _ _, .native (.entry batch node), .native (.entry none) =>
        ∀ p k, w.1.segment.request batch node = some (.get p k) →
          (∀ member ∈ 𝒮.segment.readMembers t.node, member ≠ node → Missed t p member w) →
            CommittedAt 𝒮 (w.2.begun t) p → TrimmedAt 𝒮 w.1.segment p →
              Confirmed w.2.confirmed p
    | _, _, _ => True

/-! ## The discipline -/

variable {𝒮 : Deployment} {C : Condition signature (World × Notes) TaskId Call Choice}
  {t : TaskId} {c : Call}

/-- What the end of a wait of `t` leaves of the notes. -/
structure Noted (t : TaskId) (g g' : Notes) : Prop where
  begun : g'.begun = g.begun
  missed : ∀ u, u ≠ t → g'.missed u = g.missed u
  confirmed : g'.confirmed = g.confirmed
  reads : g'.reads = g.reads

theorem noted_answered (g : Notes) (t : TaskId) (batch : Nat) (node : String)
    (found : Option LogEntry) : Noted t g (g.answered t batch node found) := by
  cases found with
  | none => exact ⟨rfl, fun u hu => Function.update_of_ne hu _ _, rfl, rfl⟩
  | some e => exact ⟨rfl, fun _ _ => rfl, rfl, rfl⟩

theorem noted_resume (w : World) (t : TaskId) (e : Wait) (r : Except Error (WaitResult e))
    (g : Notes) : Noted t g (observer.resume w t e r g) := by
  simp only [observer]
  split
  · exact noted_answered g t _ _ _
  · exact ⟨rfl, fun _ _ => rfl, rfl, rfl⟩

theorem resume_forward {w w' : World × Notes} {e : Wait} {x : Choice}
    {r : Except Error (WaitResult e)} (h : (watched 𝒮).resume w t e x = some (w', r)) :
    Noted t w.2 w'.2 ∧ Forward w.1.segment w'.1.segment ∧
      w'.1.segment.messages = w.1.segment.messages ∧
        w'.1.segment.replies = w.1.segment.replies := by
  obtain ⟨⟨w₁, r₁⟩, hr, heq⟩ := Option.map_eq_some_iff.mp h
  cases heq
  have hnoted : Noted t w.2 (observer.resume w₁ t e r₁ w.2) := noted_resume w₁ t e r₁ w.2
  rcases resume_cases hr with rfl | ⟨s, -, -, rfl⟩
  · exact ⟨hnoted, .refl _, rfl, rfl⟩
  · refine ⟨hnoted, .silent (fun node => ?_) (List.prefix_refl _) rfl, rfl, rfl⟩
    show (w.1.segment.store node).Upward ((w.1.segment.setSequencer t.node s).store node)
    rw [World.store_setSequencer]
    exact .refl _

theorem finish_segment (w : World) (c : Call) (o : Except Error Outcome) :
    (finish w c o).segment = w.segment := by
  unfold finish
  split <;> rfl

theorem finish_confirmed (w : World) (t : TaskId) (c : Call) (o : Except Error Outcome)
    (g : Notes) : g.confirmed ⊆ (observer.finish w t c o g).confirmed := by
  simp only [observer]
  split
  · exact List.subset_cons_self _ _
  · exact List.Subset.refl _
  · exact List.Subset.refl _
  · exact List.Subset.refl _

/-- What the tasks of a watched deployment keep. -/
def discipline (𝒮 : Deployment) (C : Condition signature (World × Notes) TaskId Call Choice) :
    Discipline (watched 𝒮) C where
  Inv := fun w => GetsAnswered w.1.segment ∧ ∀ r ∈ w.2.reads, r.Faithful 𝒮
  Grow := fun w w' => Forward w.1.segment w'.1.segment ∧ w.2.confirmed ⊆ w'.2.confirmed
  Rely := fun t w w' => w'.2.begun t = w.2.begun t ∧ w'.2.missed t = w.2.missed t
  grow_refl := fun w => ⟨.refl _, List.Subset.refl _⟩
  grow_trans := fun h h' => ⟨h.1.trans h'.1, List.Subset.trans h.2 h'.2⟩
  rely_refl := fun _ _ => ⟨rfl, rfl⟩
  rely_trans := fun h h' => ⟨h'.1.trans h.1, h'.2.trans h.2⟩
  exec_grow := fun w t a => ⟨exec_forward w.1.segment t a, List.Subset.refl _⟩
  resume_grow := fun h => by
    obtain ⟨hnotes, hforward, -, -⟩ := resume_forward h
    exact ⟨hforward, hnotes.confirmed ▸ List.Subset.refl _⟩
  finish_grow := fun w t c o =>
    ⟨(finish_segment w.1 c o).symm ▸ Forward.refl _, finish_confirmed w.1 t c o w.2⟩

abbrev Inv (𝒮 : Deployment) (w : World × Notes) : Prop :=
  GetsAnswered w.1.segment ∧ ∀ r ∈ w.2.reads, r.Faithful 𝒮

theorem exec_kept {w : World × Notes} (hi : Inv 𝒮 w) (a : NativeLoglet.Act) :
    (discipline 𝒮 C).Kept t w ((watched 𝒮).exec w t a).1 :=
  ⟨⟨hi.1.silent (exec_forward w.1.segment t a).messages (exec_silent w.1.segment t a), hi.2⟩,
    fun _ _ => ⟨rfl, rfl⟩⟩

theorem resume_kept {w w' : World × Notes} {e : Wait} {x : Choice}
    {r : Except Error (WaitResult e)} (hi : Inv 𝒮 w)
    (h : (watched 𝒮).resume w t e x = some (w', r)) : (discipline 𝒮 C).Kept t w w' := by
  obtain ⟨hnotes, -, hmessages, hreplies⟩ := resume_forward h
  exact ⟨⟨hi.1.silent (hmessages ▸ List.prefix_refl _) hreplies, hnotes.reads ▸ hi.2⟩,
    fun u hu => ⟨congrFun hnotes.begun u, hnotes.missed u hu⟩⟩

/-- A call that is no read keeps the discipline, whatever it does. -/
theorem any_triple (p : Co Outcome) :
    (discipline 𝒮 C).Triple t c (fun _ => True) p (fun _ _ => True) fun _ _ => True :=
  .any (fun _ a hi => exec_kept hi a) (fun hi _ hs => resume_kept hi hs) p

/-! ## Acts and waits of a read -/

section Rules

variable {P : World × Notes → Prop} {X : World × Notes → Error → Prop}
  {Y : World × Notes → NativeLoglet.Error → Prop}

theorem act_spec {a : NativeLoglet.Act} {Q : World × Notes → NativeLoglet.ActResult a → Prop}
    (h : ∀ w, Inv 𝒮 w → P w → Q ((watched 𝒮).exec w t a).1 ((watched 𝒮).exec w t a).2) :
    (discipline 𝒮 C).Ported native t c P (act a) Q Y X :=
  .perform (.act fun w hi hp => ⟨exec_kept hi a, h w hi hp⟩)

theorem wait_spec {batch : Nat} {node : String} {Q : World × Notes → Option LogEntry → Prop}
    (hP : (discipline 𝒮 C).Stable t P)
    (h : ∀ w x r, Inv 𝒮 w → P w → C.resume w t c (.native (.entry batch node)) (.native x) →
      Resumed w.1.segment t (.entry batch node) x w.1.segment r →
        (∀ a, r = .ok a → Q (w.1, w.2.answered t batch node a) a) ∧
          ∀ err, r = .error err → Y w err) :
    (discipline 𝒮 C).Ported native t c P (NativeLoglet.wait (.entry batch node)) Q Y X := by
  refine .await (.wait hP fun w x w' r hi hp hc hs => ?_)
  have hkept : (discipline 𝒮 C).Kept t w w' := resume_kept hi hs
  obtain ⟨⟨w₁, r₁⟩, hr, heq⟩ := Option.map_eq_some_iff.mp hs
  cases heq
  cases x with
  | native x =>
      obtain ⟨⟨w₂, r₂⟩, hr', heq⟩ := Option.map_eq_some_iff.mp hr
      cases heq
      have hres := resumed_of_resume hr'
      obtain rfl := Resumed.eq_of_ne hres nofun
      obtain ⟨hok, herror⟩ := h w x r₂ hi hp hc hres
      refine ⟨hkept, fun a ha => ?_, nofun⟩
      cases ha
      cases r₂ with
      | ok found =>
          refine ⟨fun a ha => ?_, nofun⟩
          cases ha
          exact hok found rfl
      | error e =>
          refine ⟨nofun, fun err he => ?_⟩
          cases he
          exact herror e rfl
  | unreached => cases hr
  | responded result => cases hr
  | cancel => cases hr

end Rules

/-! ## One position -/

/-- The call of `t` began in `before`. -/
def Reading (t : TaskId) (before : NativeLoglet.World) (w : World × Notes) : Prop :=
  w.2.begun t = before ∧ Forward before w.1.segment

theorem lasting_reading (before : NativeLoglet.World) :
    (discipline 𝒮 C).Lasting t (Reading t before) :=
  fun _ _ hg hr h => ⟨hr.1.trans h.1, h.2.trans hg.1⟩

theorem Skips.mono {before : NativeLoglet.World} {localStart stop : Nat}
    {confirmed confirmed' : List Nat} (h : Skips 𝒮 before localStart stop confirmed)
    (hc : confirmed ⊆ confirmed') : Skips 𝒮 before localStart stop confirmed' := by
  intro p hle hlt hcommitted
  obtain ⟨watermark, hmem, hp⟩ := h p hle hlt hcommitted
  exact ⟨watermark, hc hmem, hp⟩

/-- The members in `asked` have been asked for `p`, and `responses` of them have answered. -/
structure Progress (𝒮 : Deployment) (t : TaskId) (before : NativeLoglet.World) (p : Nat)
    (asked left : List String) (responses : Nat) (w : World × Notes) : Prop where
  counted : responses ≤ asked.length
  lacking : responses = asked.length → ∀ node ∈ asked, Lacks before p node w.1.segment
  missed : responses = asked.length → ∀ node ∈ asked, Missed t p node w
  settled : left = [] → responses = asked.length → CommittedAt 𝒮 before p →
    Confirmed w.2.confirmed p

theorem lasting_progress (before : NativeLoglet.World) (p : Nat) (asked left : List String)
    (responses : Nat) :
    (discipline 𝒮 C).Lasting t (Progress 𝒮 t before p asked left responses) := by
  intro w w' hg hr h
  refine ⟨h.counted, fun hall node hmem => (h.lacking hall node hmem).mono hg.1,
    fun hall node hmem => ?_, fun hleft hall hc => ?_⟩
  · obtain ⟨batch, k, hmissed, hreq⟩ := h.missed hall node hmem
    exact ⟨batch, k, hr.2.symm ▸ hmissed, request_persists hg.1.messages hreq⟩
  · obtain ⟨watermark, hmem, hp⟩ := h.settled hleft hall hc
    exact ⟨watermark, hg.2 hmem, hp⟩

/-- A member was asked for `p` since the call began, and it has nothing there only when it lacks
the position. -/
def Asked (before : NativeLoglet.World) (p knownTail batch : Nat) (node : String)
    (w : World × Notes) : Prop :=
  w.1.segment.request batch node = some (.get p knownTail) ∧
    ∀ r ∈ w.1.segment.replies, r.batch = batch → r.node = node → r.response = .entry none →
      Lacks before p node w.1.segment

theorem lasting_asked (before : NativeLoglet.World) (p knownTail batch : Nat) (node : String) :
    (discipline 𝒮 C).Lasting t fun w => Reading t before w ∧ Asked before p knownTail batch node w := by
  intro w w' hg hr h
  refine ⟨lasting_reading before w w' hg hr h.1, request_persists hg.1.messages h.2.1,
    fun r hmem hb hn hnone => ?_⟩
  rcases hg.1.missed r hmem with hold | hnew
  · exact (h.2.2 r hold hb hn hnone).mono hg.1
  · subst hb hn
    exact fun hc => hnew p knownTail h.2.1 hnone (h.1.2.covers hc)

/-- Nobody has answered a request that is just being sent. -/
theorem asked_send {w : World × Notes} (hi : Inv 𝒮 w) (before : NativeLoglet.World)
    (p knownTail : Nat) (node : String) :
    Asked before p knownTail w.1.segment.messages.length node
      ((watched 𝒮).exec w t (.send [(node, .get p knownTail)])).1 := by
  have hsent : (w.1.segment.messages ++ [[(node, Request.get p knownTail)]])[
      w.1.segment.messages.length]? = some [(node, .get p knownTail)] :=
    List.getElem?_concat_length
  refine ⟨Option.bind_eq_some_iff.mpr ⟨_, hsent, List.lookup_cons_self⟩,
    fun r hmem hb _ _ => ?_⟩
  obtain ⟨request, hreq, -⟩ := hi.1 r hmem
  obtain ⟨requests, hget, -⟩ := Option.bind_eq_some_iff.mp hreq
  exact absurd (List.getElem?_eq_some_iff.mp hget).1 (hb ▸ Nat.lt_irrefl _)

theorem members_subset (localNode node : String) (h : node ∈ 𝒮.segment.members) :
    node ∈ 𝒮.segment.readMembers localNode := by
  by_cases heq : node = localNode
  · exact heq ▸ List.mem_cons_self
  · exact List.mem_cons_of_mem _ (List.mem_filter.mpr ⟨h, decide_eq_true heq⟩)

/-- All members have answered that they have nothing, so a majority has trimmed the position. -/
theorem trimmedAt_of_lacks {before : NativeLoglet.World} {w : NativeLoglet.World} {p : Nat}
    {localNode : String} (hc : CommittedAt 𝒮 before p)
    (h : ∀ node ∈ 𝒮.segment.readMembers localNode, Lacks before p node w) : TrimmedAt 𝒮 w p :=
  hc.2.mono fun node hmem hcovers => h node (members_subset localNode node hmem) hcovers

/-- One more member has answered that it has nothing. -/
theorem Progress.answered {before : NativeLoglet.World} {p k batch localStart localStop : Nat}
    {asked left : List String} {node : String} {responses : Nat} {w : World × Notes}
    (h : Progress 𝒮 t before p asked (node :: left) responses w) (hread : Reading t before w)
    (hmembers : asked ++ node :: left = 𝒮.segment.readMembers t.node)
    (hlacks : Lacks before p node w.1.segment)
    (hreq : w.1.segment.request batch node = some (.get p k))
    (hc : (trimsConfirmed 𝒮).resume w t (.readNext localStart localStop)
      (.native (.entry batch node)) (.native (.entry none))) :
    Progress 𝒮 t before p (asked ++ [node]) left (responses + 1)
      (w.1, w.2.answered t batch node none) := by
  have hasked : responses + 1 = (asked ++ [node]).length → responses = asked.length := by
    rw [List.length_append, List.length_singleton]
    exact Nat.succ.inj
  have hlacking : responses + 1 = (asked ++ [node]).length →
      ∀ n ∈ asked ++ [node], Lacks before p n w.1.segment := by
    intro hall n hmem
    rcases List.mem_append.mp hmem with hmem | hmem
    · exact h.lacking (hasked hall) n hmem
    · exact List.mem_singleton.mp hmem ▸ hlacks
  refine ⟨?_, hlacking, fun hall n hmem => ?_, fun hleft hall hcommitted => ?_⟩
  · rw [List.length_append, List.length_singleton]
    exact Nat.succ_le_succ h.counted
  · have hmissed : (w.2.answered t batch node none).missed t = (batch, node) :: w.2.missed t :=
      Function.update_self _ _ _
    rcases List.mem_append.mp hmem with hmem | hmem
    · obtain ⟨batch', k', hmem', hreq'⟩ := h.missed (hasked hall) n hmem
      exact ⟨batch', k', hmissed.symm ▸ List.mem_cons_of_mem _ hmem', hreq'⟩
    · obtain rfl := List.mem_singleton.mp hmem
      exact ⟨batch, k, hmissed.symm ▸ List.mem_cons_self, hreq⟩
  · subst hleft
    have htrimmed : TrimmedAt 𝒮 w.1.segment p :=
      trimmedAt_of_lacks hcommitted (hmembers ▸ hlacking hall)
    refine hc p k hreq (fun member hmem hne => ?_) (hread.1 ▸ hcommitted) htrimmed
    rw [← hmembers] at hmem
    rcases List.mem_append.mp hmem with hmem | hmem
    · exact h.missed (hasked hall) member hmem
    · exact absurd (List.mem_singleton.mp hmem) hne

/-- A member that gave no answer does not count. -/
theorem Progress.unanswered {before : NativeLoglet.World} {p : Nat} {asked left : List String}
    {node : String} {responses : Nat} {w : World × Notes}
    (h : Progress 𝒮 t before p asked (node :: left) responses w) :
    Progress 𝒮 t before p (asked ++ [node]) left responses w := by
  have hlt : responses < (asked ++ [node]).length := by
    rw [List.length_append, List.length_singleton]
    exact Nat.lt_succ_of_le h.counted
  exact ⟨Nat.le_of_lt hlt, fun hall => absurd hall (Nat.ne_of_lt hlt),
    fun hall => absurd hall (Nat.ne_of_lt hlt), fun _ hall => absurd hall (Nat.ne_of_lt hlt)⟩

section Reads

variable {localStart localStop : Nat} {before : NativeLoglet.World}
  {X : World × Notes → Error → Prop}

/-- The triple of what a read does; it raises what `Unread` says. -/
abbrev Looks {α : Type} (𝒮 : Deployment) (t : TaskId) (localStart localStop : Nat)
    (P : World × Notes → Prop) (p : NativeLoglet.Co α) (Q : World × Notes → α → Prop)
    (X : World × Notes → Error → Prop) : Prop :=
  (discipline 𝒮 (trimsConfirmed 𝒮)).Ported native t (.readNext localStart localStop) P p Q
    (fun _ e => Unread e) X

/-- The call began in `before`, and what it has passed over before `position` was trimmed. -/
def Passed (𝒮 : Deployment) (t : TaskId) (before : NativeLoglet.World) (localStart position : Nat)
    (w : World × Notes) : Prop :=
  Reading t before w ∧ Skips 𝒮 before localStart position w.2.confirmed

theorem lasting_passed (position : Nat) :
    (discipline 𝒮 C).Lasting t (Passed 𝒮 t before localStart position) :=
  fun w w' hg hr h => ⟨lasting_reading before w w' hg hr h.1, h.2.mono hg.2⟩

/-- How the answer of one member is taken. -/
theorem answer_spec {position knownTail batch responses : Nat} {member : String}
    {asked left : List String}
    (hmembers : asked ++ member :: left = 𝒮.segment.readMembers t.node) :
    (discipline 𝒮 (trimsConfirmed 𝒮)).Ported native t (.readNext localStart localStop)
      (fun w => (Passed 𝒮 t before localStart position w ∧
        Progress 𝒮 t before position asked (member :: left) responses w) ∧
          Reading t before w ∧ Asked before position knownTail batch member w)
      (NativeLoglet.wait (.entry batch member))
      (fun w entry => Passed 𝒮 t before localStart position w ∧
        match entry with
        | some e => e.position = position
        | none => Progress 𝒮 t before position (asked ++ [member]) left (responses + 1) w)
      (fun w e => (Passed 𝒮 t before localStart position w ∧
        Progress 𝒮 t before position asked (member :: left) responses w) ∧
          (e = .cancelled ∨ e = .connection)) X := by
  refine wait_spec ?_ fun w x r hi h hc hres => ?_
  · exact (((lasting_passed position).and
      (lasting_progress before position asked _ responses)).and
        (lasting_asked before position knownTail batch member)).stable
  · obtain ⟨hkept, hread, hreq, hasked⟩ := h
    cases hres with
    | cancelled => exact ⟨nofun, fun _ he => ⟨hkept, .inl (Except.error.inj he).symm⟩⟩
    | @entry _ _ entry hmem =>
        refine ⟨fun a ha => ⟨?_, ?_⟩, nofun⟩
        · cases a <;> exact hkept.1
        cases ha
        obtain ⟨request, hreq', hans⟩ := hi.1 _ hmem
        cases entry with
        | none =>
            exact hkept.2.answered hread hmembers (hasked _ hmem rfl rfl rfl) hreq hc
        | some e =>
            exact (hans position knownTail (Option.some.inj (hreq'.symm.trans hreq))).1 e rfl
    | noEntry h =>
        refine ⟨nofun, fun err he => ⟨hkept, .inr ?_⟩⟩
        cases he
        rcases h with rfl | hmem
        · rfl
        · obtain ⟨request, hreq', hans⟩ := hi.1 _ hmem
          have hnone := (hans position knownTail (Option.some.inj (hreq'.symm.trans hreq))).2
          exact absurd rfl (hnone _)

theorem readPosition_spec {position knownTail : Nat} (members asked : List String)
    (responses : Nat) (hmembers : asked ++ members = 𝒮.segment.readMembers t.node) :
    Looks 𝒮 t localStart localStop
      (fun w => Passed 𝒮 t before localStart position w ∧
        Progress 𝒮 t before position asked members responses w)
      (readPosition position knownTail members responses)
      (fun w r => Passed 𝒮 t before localStart position w ∧
        match r with
        | (some e, _) => e.position = position
        | (none, n) => n = (𝒮.segment.readMembers t.node).length → CommittedAt 𝒮 before position →
            Confirmed w.2.confirmed position) X := by
  induction members generalizing asked responses with
  | nil =>
      rw [List.append_nil] at hmembers
      refine .ret fun w _ h => ⟨h.1, fun hall => ?_⟩
      exact h.2.settled rfl (hmembers ▸ hall)
  | cons member members ih =>
      have hmembers' : (asked ++ [member]) ++ members = 𝒮.segment.readMembers t.node := by
        rw [List.append_assoc, List.singleton_append, hmembers]
      refine .bind (Q := fun w batch => (Passed 𝒮 t before localStart position w ∧
        Progress 𝒮 t before position asked (member :: members) responses w) ∧
          Reading t before w ∧ Asked before position knownTail batch member w)
        (act_spec fun w hi h => ?_) fun batch => ?_
      · have hg := (discipline 𝒮 (trimsConfirmed 𝒮)).exec_grow w t
          (.send [(member, .get position knownTail)])
        have hpassed := lasting_passed (C := trimsConfirmed 𝒮) position w _ hg ⟨rfl, rfl⟩ h.1
        exact ⟨⟨hpassed, lasting_progress before position asked _ responses w _ hg ⟨rfl, rfl⟩ h.2⟩,
          hpassed.1, asked_send hi before position knownTail member⟩
      · refine .bind (Q := fun w answer => Passed 𝒮 t before localStart position w ∧
          match answer with
          | none => Progress 𝒮 t before position (asked ++ [member]) members responses w
          | some (some e) => e.position = position
          | some none => Progress 𝒮 t before position (asked ++ [member]) members (responses + 1) w)
          (.handle (.bind (answer_spec hmembers) fun entry => .ret fun w _ h => ?_)
            fun e => ?_) fun answer => ?_
        · cases entry with
          | none => exact h
          | some e => exact h
        · split
          · exact .ret fun w _ h => ⟨h.1.1, h.1.2.unanswered⟩
          · next hne => exact .raise fun w _ h => .inl (h.2.resolve_right hne)
        · rcases answer with _ | _ | entry
          · exact ih (asked ++ [member]) responses hmembers'
          · exact ih (asked ++ [member]) (responses + 1) hmembers'
          · exact .ret fun _ _ h => h

/-! ## A range -/

theorem readPositions_spec {knownTail : Nat} (position count : Nat) :
    Looks 𝒮 t localStart localStop (Passed 𝒮 t before localStart position)
      (𝒮.segment.readPositions (𝒮.segment.readMembers t.node) knownTail position count)
      (fun w found => Passed 𝒮 t before localStart
        (found.elim (position + count) LogEntry.position) w) X := by
  induction count generalizing position with
  | zero => exact .ret fun _ _ h => h
  | succ count ih =>
      refine .bind (.pre (readPosition_spec _ [] 0 rfl) fun w _ h =>
        ⟨h, Nat.le_refl _, fun _ _ => nofun, fun _ _ => nofun, nofun⟩) fun found => ?_
      rcases found with ⟨_ | entry, responses⟩
      · refine .bind (Q := fun w _ => Passed 𝒮 t before localStart (position + 1) w)
          (.require (fun w _ h hall => ?_) fun _ _ _ _ => .inr ⟨_, rfl⟩) fun _ => ?_
        · refine ⟨h.1.1, fun p hle hlt hc => ?_⟩
          rcases Nat.lt_succ_iff_lt_or_eq.mp hlt with hlt | rfl
          · exact h.1.2 p hle hlt hc
          · exact h.2 hall hc
        · have hnext := ih (position + 1)
          rwa [Nat.add_assoc, Nat.add_comm 1] at hnext
      · refine .ret fun w _ h => ?_
        show Passed 𝒮 t before localStart entry.position w
        rw [h.2]
        exact h.1

theorem readNext_spec :
    Looks 𝒮 t localStart localStop
      (fun w => w.2.begun t = before ∧ before = w.1.segment ∧
        Skips 𝒮 before localStart (min localStop (before.client t.node).trimmedPrefix)
          w.2.confirmed)
      (𝒮.segment.readNext t.node localStart localStop)
      (fun w found => Passed 𝒮 t before localStart (found.elim localStop LogEntry.position) w)
      X := by
  refine .bind (Q := fun w client => Reading t before w ∧
    Skips 𝒮 before localStart (min localStop client.trimmedPrefix) w.2.confirmed)
    (act_spec fun w _ h => ?_) fun client => ?_
  · obtain ⟨hbegun, rfl, hskips⟩ := h
    exact ⟨⟨hbegun, .refl _⟩, hskips⟩
  · dsimp only
    split
    · next hle =>
        -- The client remembers that the whole range was trimmed.
        refine .ret fun w _ h => ⟨h.1, fun p hge hlt hc => h.2 p hge ?_ hc⟩
        have : p < localStop := hlt
        omega
    · next hlt =>
        have hstop : max localStart client.trimmedPrefix +
            (localStop - max localStart client.trimmedPrefix) = localStop := by omega
        refine .mono (readPositions_spec (max localStart client.trimmedPrefix) _)
          (fun w _ h => ⟨h.1, fun p hge hbelow hc => h.2 p hge ?_ hc⟩) (fun w found _ h => ?_)
          fun _ _ _ h => h
        · omega
        · rwa [hstop] at h

end Reads

/-! ## Every run -/

/-- What the end of a call is known to be. -/
def Ends (𝒮 : Deployment) (t : TaskId) (c : Call) (w : World × Notes) :
    Except Error Outcome → Prop
  | .ok (.entry found) => ∀ localStart localStop, c = .readNext localStart localStop →
      Report.Faithful 𝒮 ⟨w.2.begun t, localStart, localStop, .ok found, w.2.confirmed⟩
  | .error e => ∀ localStart localStop, c = .readNext localStart localStop →
      Report.Faithful 𝒮 ⟨w.2.begun t, localStart, localStop, .error e, w.2.confirmed⟩
  | _ => True

theorem ends_of_other (h : ∀ localStart localStop, c ≠ .readNext localStart localStop)
    (w : World × Notes) (o : Except Error Outcome) : Ends 𝒮 t c w o := by
  unfold Ends
  split
  · exact fun i j hc => absurd hc (h i j)
  · exact fun i j hc => absurd hc (h i j)
  · trivial

theorem program_spec (before : NativeLoglet.World) (c : Call) :
    (discipline 𝒮 (trimsConfirmed 𝒮)).Triple t c
      (fun w => w.2.begun t = before ∧ before = w.1.segment ∧ (trimsConfirmed 𝒮).launch w t c)
      (program 𝒮 t.node c) (fun w o => Ends 𝒮 t c w (.ok o)) fun w e => Ends 𝒮 t c w (.error e) := by
  have hother : (∀ i j, c ≠ .readNext i j) → (discipline 𝒮 (trimsConfirmed 𝒮)).Triple t c
      (fun w => w.2.begun t = before ∧ before = w.1.segment ∧ (trimsConfirmed 𝒮).launch w t c)
      (program 𝒮 t.node c) (fun w o => Ends 𝒮 t c w (.ok o))
        fun w e => Ends 𝒮 t c w (.error e) := fun h =>
    (any_triple _).mono (fun _ _ _ => trivial) (fun w o _ _ => ends_of_other h w (.ok o))
      fun w e _ _ => ends_of_other h w (.error e)
  cases c with
  | readNext localStart localStop =>
      refine .bind (.pre (Discipline.Ported.triple
        readNext_spec fun w e _ he => ?_)
        fun w _ h => ⟨h.1, h.2.1, ?_⟩) fun found => .ret fun w _ h => ?_
      · rintro i j -
        rcases he with rfl | ⟨message, rfl⟩
        · exact .inr rfl
        · exact .inl ⟨message, rfl⟩
      · obtain ⟨-, rfl, hlaunch⟩ := h
        exact hlaunch
      · intro i j hc
        cases hc
        obtain ⟨⟨hbegun, -⟩, hskips⟩ := h
        subst hbegun
        exact hskips
  | _ => exact hother nofun

theorem finish_kept {w : World × Notes} {o : Except Error Outcome} (hi : Inv 𝒮 w)
    (h : Ends 𝒮 t c w o) :
    (discipline 𝒮 C).Kept t w ((watched 𝒮).finish w t c o) := by
  have hsegment : GetsAnswered ((watched 𝒮).finish w t c o).1.segment := by
    show GetsAnswered (finish w.1 c o).segment
    rw [finish_segment]
    exact hi.1
  have hnotes : (observer.finish w.1 t c o w.2).begun = w.2.begun ∧
      (observer.finish w.1 t c o w.2).missed = w.2.missed := by
    simp only [observer]
    split <;> exact ⟨rfl, rfl⟩
  refine ⟨⟨hsegment, ?_⟩, fun u _ => ⟨congrFun hnotes.1 u, congrFun hnotes.2 u⟩⟩
  show ∀ r ∈ (observer.finish w.1 t c o w.2).reads, r.Faithful 𝒮
  simp only [observer]
  split
  · exact hi.2
  · exact List.forall_mem_cons.mpr ⟨h _ _ rfl, hi.2⟩
  · exact List.forall_mem_cons.mpr ⟨h _ _ rfl, hi.2⟩
  · exact hi.2

theorem sound : (discipline 𝒮 (trimsConfirmed 𝒮)).Sound where
  start := fun {w t c w' p} hi hlaunch hs => by
    cases hs
    have hbegin : (discipline 𝒮 (trimsConfirmed 𝒮)).Kept t w
        (w.1, observer.start w.1 t c w.2) :=
      ⟨hi, fun u hu => ⟨Function.update_of_ne hu _ _, Function.update_of_ne hu _ _⟩⟩
    refine ⟨⟨.refl _, List.Subset.refl _⟩, ?_⟩
    refine (program_spec w.1.segment c).safe_finish hbegin ⟨Function.update_self _ _ _, rfl, ?_⟩
      (fun _ _ hi h => finish_kept hi h) fun _ _ hi h => finish_kept hi h
    cases c with
    | readNext localStart localStop => exact hlaunch
    | _ => trivial
  disturb := fun {w d w'} hi hs => by
    obtain ⟨w₁, h₁, rfl⟩ := Option.map_eq_some_iff.mp hs
    obtain ⟨segment, h, rfl⟩ := Option.map_eq_some_iff.mp h₁
    obtain ⟨hforward, hanswered⟩ := disturb_forward hi.1 h
    exact ⟨⟨hanswered, hi.2⟩, ⟨hforward, List.Subset.refl _⟩, fun _ _ => ⟨rfl, rfl⟩⟩

/-- **A read invents no hole**, in runs in which no client that reads remembers a trim of a
committed entry which no majority has confirmed. -/
theorem reads_invent_no_hole {s : WatchedState}
    (h : (watched 𝒮).ReachableUnder (trimsConfirmed 𝒮) (· = start 𝒮) s) :
    ∀ r ∈ s.world.2.reads, r.Faithful 𝒮 :=
  (sound.reachable (by rintro w rfl; exact ⟨nofun, nofun⟩) h).1.2

/-! ## Two runs of three nodes -/

/-- What a client or a LogServer remembers was never trimmed or has been confirmed. -/
def remembered (w : World × Notes) (watermark : Nat) : Bool :=
  watermark = 0 || w.2.confirmed.contains watermark

def meetsTrimsConfirmed (s : WatchedState) : Action TaskId Call Choice Disturbance → Bool
  | .launch t (.readNext _ _) =>
      remembered s.world (s.world.1.segment.client t.node).trimmedPrefix
  | .resume _ (.native (.entry none)) => threeNodes.segment.members.all fun node =>
      remembered s.world (s.world.1.segment.store node).trimmedPrefix
  | _ => true

theorem confirmed_of_remembered {w : World × Notes} {watermark p : Nat}
    (h : remembered w watermark = true) (hp : p < watermark) : Confirmed w.2.confirmed p := by
  rcases Bool.or_eq_true_iff.mp h with hzero | hmem
  · rw [of_decide_eq_true hzero] at hp
    exact absurd hp (Nat.not_lt_zero p)
  · exact ⟨watermark, List.contains_iff_mem.mp hmem, hp⟩

theorem meets_of_meetsTrimsConfirmed (s : WatchedState)
    (a : Action TaskId Call Choice Disturbance) (h : meetsTrimsConfirmed s a = true) :
    Meets (trimsConfirmed threeNodes) s a := by
  cases a with
  | disturb d => trivial
  | launch t c =>
      cases c with
      | readNext localStart localStop =>
          intro p _ hlt _
          exact confirmed_of_remembered h (Nat.lt_of_lt_of_le hlt (Nat.min_le_right _ _))
      | _ => trivial
  | resume t x =>
      intro c e k ht
      simp only [trimsConfirmed]
      split
      · intro p _ _ _ _ htrimmed
        obtain ⟨node, hmem, hp, -⟩ := htrimmed.inter htrimmed
        exact confirmed_of_remembered (List.all_eq_true.mp h node hmem) hp
      · trivial

/-- `a` appends a command with `stored`. -/
def appendRun (stored : List String) : List (Action TaskId Call Choice Disturbance) :=
  [.launch ⟨"a", 0⟩ (.registryAppend "x" [1] 1), .resume ⟨"a", 0⟩ (.native .done)] ++
    handles 0 stored ++
    [.resume ⟨"a", 0⟩ (.native (.gathered (threeNodes.segment.members.map fun node =>
      if node ∈ stored then some (.state (stateAt 1 0 false)) else none)))]

/-- A LogServer that has trimmed the first position. -/
def trimmedState : LogServerState :=
  { stateAt 1 0 false with trimmedPrefix := 1 }

/-- `c` has not got the entry, `a` is not reached, and `b` has it; then `b` trims it everywhere
and reads it no more. -/
def faithfulRun : List (Action TaskId Call Choice Disturbance) :=
  List.flatten
    [appendRun ["a", "b"], [.launch ⟨"c", 0⟩ (.readNext 0 1)], delivers 1 ["c"],
     [.resume ⟨"c", 0⟩ (.native (.entry none)), .resume ⟨"c", 0⟩ (.native (.fail .connection))],
     delivers 3 ["b"],
     [.resume ⟨"c", 0⟩ (.native (.entry (some ⟨"segment", 0, "x", [1]⟩))),
      .launch ⟨"b", 0⟩ (.prefixTrim 1)], handles 4 ["a", "b"],
     [.resume ⟨"b", 0⟩ (.native (.gathered
      [some (.state trimmedState), some (.state trimmedState), none])),
      .launch ⟨"b", 1⟩ (.readNext 0 1)]]

/-- `b` trims an entry that all have, and only `a` is reached; `c` checks the tail and reads. -/
def holeRun : List (Action TaskId Call Choice Disturbance) :=
  List.flatten
    [appendRun ["a", "b", "c"], [.launch ⟨"b", 0⟩ (.prefixTrim 1)], handles 1 ["a"],
     [.resume ⟨"b", 0⟩ (.native (.gathered [some (.state trimmedState), none, none])),
      .launch ⟨"c", 0⟩ (.checkTail 1)], delivers 2 ["a", "b", "c"],
     [.resume ⟨"c", 0⟩ (.native (.gathered [some (.state trimmedState),
      some (.state (stateAt 1 0 false)), some (.state (stateAt 1 0 false))])),
      .launch ⟨"c", 1⟩ (.readNext 0 1)]]

/-- A report without the segment. -/
structure Summary where
  localStart : Nat
  localStop : Nat
  found : Option (Option LogEntry)
  confirmed : List Nat
deriving DecidableEq

def Report.summary (r : Report) : Summary :=
  ⟨r.localStart, r.localStop, r.result.toOption, r.confirmed⟩

theorem faithfulRun_runs :
    (((watched threeNodes).runWhile meetsTrimsConfirmed
      (fresh _ _ _ _ (start threeNodes)) faithfulRun).map fun s =>
        s.world.2.reads.map Report.summary) =
    some [⟨0, 1, some none, [1]⟩, ⟨0, 1, some (some ⟨"segment", 0, "x", [1]⟩), []⟩] := by
  decide +kernel

theorem reads_invent_no_hole_trimmed :
    ∃ s : WatchedState, s.world.2.reads.map Report.summary =
        [⟨0, 1, some none, [1]⟩, ⟨0, 1, some (some ⟨"segment", 0, "x", [1]⟩), []⟩] ∧
      ∀ r ∈ s.world.2.reads, r.Faithful threeNodes := by
  obtain ⟨s, hs, hreads⟩ := Option.map_eq_some_iff.mp faithfulRun_runs
  exact ⟨s, hreads, reads_invent_no_hole
    (ReachableUnder.runWhile meets_of_meetsTrimsConfirmed (.init rfl) hs)⟩

/-- The positions that a member had when the read began. -/
def Report.held (r : Report) (node : String) : List Nat :=
  (r.before.store node).entries.map LogEntry.position

theorem holeRun_runs :
    (((watched threeNodes).run (fresh _ _ _ _ (start threeNodes)) holeRun).map fun s =>
        s.world.2.reads.map fun r => (r.summary, r.held "b", r.held "c")) =
    some [(⟨0, 1, some none, []⟩, [0], [0])] := by
  decide +kernel

theorem held_mem {r : Report} {node : String} {p : Nat} (h : p ∈ r.held node) :
    ∃ e ∈ (r.before.store node).entries, e.position = p := List.mem_map.mp h

/-- A watermark that one LogServer has reached hides an entry that the others keep. -/
theorem minority_trim_hides :
    ¬∀ s : WatchedState, (watched threeNodes).Reachable (· = start threeNodes) s →
      ∀ r ∈ s.world.2.reads, r.Faithful threeNodes := by
  intro h
  obtain ⟨s, hs, hreads⟩ := Option.map_eq_some_iff.mp holeRun_runs
  obtain ⟨r, hread, hr⟩ := List.map_eq_singleton_iff.mp hreads
  obtain ⟨before, localStart, localStop, result, confirmed⟩ := r
  have hfaithful := h s (Reachable.run (.init rfl) hs) _ (hread ▸ List.mem_singleton_self _)
  simp only [Report.summary, Prod.mk.injEq, Summary.mk.injEq] at hr
  obtain ⟨⟨rfl, rfl, hresult, rfl⟩, hb, hc⟩ := hr
  have hmember : ∀ node, node = "b" ∨ node = "c" →
      ∃ e ∈ (before.store node).entries, e.position = 0 := by
    rintro node (rfl | rfl)
    · exact held_mem (hb ▸ List.mem_singleton_self _)
    · exact held_mem (hc ▸ List.mem_singleton_self _)
  have hcommitted : CommittedAt threeNodes before 0 := by
    refine ⟨⟨"b", by decide, hmember "b" (.inl rfl)⟩, ["b", "c"], ⟨by decide, by decide, by decide⟩,
      fun node hnode => .inr (hmember node ?_)⟩
    simpa using hnode
  cases result with
  | error e => cases hresult
  | ok found =>
      cases hresult
      obtain ⟨watermark, hmem, -⟩ := hfaithful 0 (Nat.le_refl 0) Nat.zero_lt_one hcommitted
      cases hmem

end DelosLab.NativeLoglet.Remote.Reads
