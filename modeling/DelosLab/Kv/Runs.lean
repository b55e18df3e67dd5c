import DelosLab.Kv.Materializer

/-!
# Every run of the service keeps the discipline

What the calls of the service tell when they end, and that every call and every
disturbance keeps what the replicas owe each other.
-/

namespace DelosLab.Kv

open Async Async.Coroutine Async.Discipline Async.Runtime

variable {𝒮 : Deployment} {w w' : World} {t : TaskId} {c : Call}

/-- No read of `t` has met a gap. -/
def Quiet (t : TaskId) (w : World) : Prop := w.gap t = false

theorem Quiet.stable : (discipline 𝒮).Stable t (Quiet t) := gap_lasting.stable

/-! ## The service -/

/-- The waits that do not read the log. -/
def Wait.Plain : Wait → Prop
  | .readNext _ _ => False
  | _ => True

theorem wait_quiet {e : Wait} (he : e.Plain) :
    (discipline 𝒮).Triple t c (Quiet t) (wait e) (fun w _ => Quiet t w)
      (fun w _ => Quiet t w) := by
  refine wait_spec Quiet.stable (fun w x w' a _ h _ hr => ?_) fun w x _ h => h
  cases hr with
  | read => exact he.elim
  | _ => exact h

theorem ensureBootstrapped_spec :
    (discipline 𝒮).Triple t c (Quiet t) Codec.ensureBootstrapped (fun w _ => Quiet t w)
      (fun w _ => Quiet t w) := by
  refine .bind (Triple.act (Q := fun w _ => Quiet t w) fun w hi h => ⟨.refl hi, h⟩) fun cached => ?_
  cases cached with
  | true => exact .ret fun _ _ h => h
  | false =>
      refine withLock_spec Quiet.stable (fun _ _ h _ => h) (fun _ _ _ h => h)
        (show (discipline 𝒮).Triple t c (Quiet t) _ (fun w _ => Quiet t w) (fun w _ => Quiet t w)
          from .handle (wait_quiet trivial) fun e => ?_) nofun (fun _ _ _ h => h) fun _ _ _ h => h
      cases e with
      | chainUnavailable message =>
          refine .bind (.handle (wait_quiet trivial) fun e => ?_) fun _ => wait_quiet trivial
          cases e with
          | logletUnavailable message => exact .raise fun _ _ h => h
          | _ => exact .raise fun _ _ h => h
      | _ => exact .raise fun _ _ h => h

theorem orReconfigure_spec {α : Type} {P : World → Prop} {body : Co α} {Q : World → α → Prop}
    {message : String}
    (h : (discipline 𝒮).Triple t c P body Q fun _ _ => True) :
    (discipline 𝒮).Triple t c P (Codec.orReconfigure message body) Q fun _ _ => True := by
  refine .handle h fun e => ?_
  cases e with
  | logletSealed message => exact .raise fun _ _ _ => trivial
  | logletUnavailable message => exact .raise fun _ _ _ => trivial
  | _ => exact .raise fun _ _ _ => trivial

/-- An `append` that is answered has its entry at a settled position. -/
theorem append_spec (commandId : String) (payload : VirtualLog.Bytes) :
    (discipline 𝒮).Triple t c (Quiet t) (wait (.append commandId payload))
      (fun w p => (Quiet t w ∧ Below p w) ∧ w.log p = some ⟨commandId, payload⟩)
      fun _ _ => True := by
  refine wait_spec Quiet.stable (fun w x w' a _ h _ hr => ?_) fun _ _ _ _ => trivial
  cases hr with
  | appended commandId payload p hlog hp =>
      refine ⟨⟨h, ?_⟩, hlog⟩
      unfold Below
      omega

theorem checkTail_spec :
    (discipline 𝒮).Triple t c (Quiet t) (wait .checkTail)
      (fun w tail => Quiet t w ∧ Below (tail.tail - 1) w) fun _ _ => True := by
  refine wait_spec Quiet.stable (fun w x w' a _ h _ hr => ?_) fun _ _ _ _ => trivial
  cases hr with
  | tail tail ht =>
      refine ⟨h, ?_⟩
      unfold Below
      omega

theorem log_persistent (p : Nat) (content : Content) :
    (discipline 𝒮).Persistent fun w => w.log p = some content :=
  fun _ _ hg h => hg.log p content h

/-- A command that its payload stands for. -/
def Codec.Lossless (codec : Codec) (command : KvCommandEnvelope) : Prop :=
  codec.fromPayload (codec.toPayload command) = some command

/-- **`submit`** returns the result of the first occurrence of its request. -/
theorem submit_spec (command : KvCommandEnvelope) :
    (discipline 𝒮).Triple t c (Quiet t) (𝒮.codec.submit command)
      (fun w r => 𝒮.codec.Lossless command → Completed 𝒮 w command r) fun _ _ => True := by
  have hread : (discipline 𝒮).Triple t c (Quiet t)
      (SQLiteKvStore.request command.clientId.val command.requestId.val)
      (fun w completed => Quiet t w ∧ ∀ x, completed = some x →
        (𝒮.replay w w.settled).first command.identity = some x) fun _ _ => True := by
    refine select_spec (s := .selectRequest _ _) trivial (fun w completed hi h ha => ⟨h, fun x hx => ?_⟩)
      (fun completed => ?_) fun _ _ _ _ _ => trivial
    · have hrow : (w.connection t.node).working.request command.identity = completed :=
        Except.ok.inj ha
      exact (hi.store t.node).readable.request _ x (hrow.trans hx)
    · intro w w' hg hr hi h
      exact ⟨Quiet.stable w w' hg hr hi h.1, fun x hx => Deployment.first_grow hg (h.2 x hx)⟩
  refine .bind hread fun completed => ?_
  cases completed with
  | some completed =>
      refine .bind (.check fun _ _ _ _ => trivial) fun _ => .ret fun w _ h _ => ?_
      exact ⟨completed, h.1.2 completed rfl, rfl⟩
  | none =>
      refine .bind ((ensureBootstrapped_spec.pre fun _ _ h => h.1).mono (fun _ _ h => h)
        (fun _ _ _ h => h) fun _ _ _ _ => trivial) fun _ => ?_
      refine .bind (orReconfigure_spec (append_spec _ _)) fun p => ?_
      refine ((materializeThrough_spec _).frame (log_persistent p _)).mono (fun _ _ h => h) ?_
        fun _ _ _ _ => trivial
      rintro w r _ ⟨hm, hlog⟩ hlossless
      obtain ⟨q, command', hq, hcommand, hcompleted⟩ := hm.entry
      obtain rfl : q = p := Int.ofNat.inj hq
      rw [Deployment.commands, hlog] at hcommand
      obtain rfl : command = command' := Option.some.inj (hlossless.symm.trans hcommand)
      exact hcompleted

theorem sync_spec :
    (discipline 𝒮).Triple t c (Quiet t) 𝒮.codec.sync (fun _ _ => True) fun _ _ => True := by
  refine .bind (ensureBootstrapped_spec.mono (fun _ _ h => h) (fun _ _ _ h => h)
    fun _ _ _ _ => trivial) fun _ => .bind (orReconfigure_spec checkTail_spec) fun tail =>
      .bind (.check fun _ _ _ _ => trivial) fun _ => .given fun _ => ?_
  have hstable : (discipline 𝒮).Stable t fun w => Quiet t w ∧ Below (tail.tail - 1) w :=
    (gap_lasting.and (Below.persistent _).lasting).stable
  refine .bind (select_spec (s := .selectProgress) (Q := fun w _ =>
    Quiet t w ∧ Below (tail.tail - 1) w) trivial (fun _ _ _ h _ => h) (fun _ => hstable)
      fun _ _ _ _ _ => trivial) fun current => ?_
  by_cases hlt : current < (tail.tail : Int) - 1
  · simp only [hlt, if_true]
    exact .bind ((materializeThrough_spec _).mono (fun _ _ h => h) (fun _ _ _ _ => trivial)
      fun _ _ _ _ => trivial) fun _ => .ret fun _ _ _ => trivial
  · simp only [hlt, if_false]
    exact .ret fun _ _ _ => trivial

theorem get_spec (key : String) :
    (discipline 𝒮).Triple t c (Quiet t) (𝒮.codec.get key) (fun _ _ => True) fun _ _ => True := by
  refine .bind sync_spec fun _ => select_spec (s := .selectItem key) trivial
    (fun _ _ _ _ _ => trivial) (fun _ _ _ _ _ _ _ => trivial) fun _ _ _ _ _ => trivial

/-! ## The ends of a call -/

/-- What a call tells when it returns. -/
def CallPost (𝒮 : Deployment) (t : TaskId) (c : Call) (w : World) : Outcome → Prop
  | .result r =>
      match c with
      | .submit command => 𝒮.codec.Lossless command → Completed 𝒮 w command r
      | .materializeThrough target => Below target w ∧ Materialized 𝒮 t target w r
      | _ => True
  | _ => True

/-- What a call tells when it raises. -/
def CallError (𝒮 : Deployment) (t : TaskId) (c : Call) (w : World) (e : Error) : Prop :=
  match c with
  | .materializeThrough target =>
      Below target w ∧ ReplayError 𝒮 w target (w.gap t) (w.faulted t.node) e
  | _ => True

theorem program_spec {w₀ : World} (hc : c.Serves w₀) :
    (discipline 𝒮).Triple t c (fun w => Quiet t w ∧ Grow w₀ w) (𝒮.program c)
      (fun w o => CallPost 𝒮 t c w o) (CallError 𝒮 t c) := by
  cases c with
  | submit command =>
      exact .bind ((submit_spec command).mono (fun _ _ h => h.1) (fun _ _ _ h => h)
        fun _ _ _ _ => trivial) fun r => .ret fun _ _ h => h
  | sync =>
      exact .bind (sync_spec.mono (fun _ _ h => h.1) (fun _ _ _ h => h) fun _ _ _ _ => trivial)
        fun _ => .ret fun _ _ _ => trivial
  | get key =>
      exact .bind ((get_spec key).mono (fun _ _ h => h.1) (fun _ _ _ h => h)
        fun _ _ _ _ => trivial) fun _ => .ret fun _ _ _ => trivial
  | materializeThrough target =>
      refine .bind (((materializeThrough_spec target).frame (Below.persistent target)).mono
        (fun w _ h => ?_) (fun _ _ _ h => h) fun _ _ _ h => ⟨h.2, h.1⟩)
          fun r => .ret fun _ _ h => ⟨h.2, h.1⟩
      have hb : Below target w := Below.mono hc h.2
      exact ⟨⟨h.1, hb⟩, hb⟩
  | _ => exact hc.elim

/-- Another `submit` has returned what it may return. -/
theorem Inv.submit (h : Inv 𝒮 w) (s : Submitted)
    (hs : 𝒮.codec.Lossless s.command → Completed 𝒮 w s.command s.result) :
    Inv 𝒮 { w with submitted := w.submitted ++ [s] } := by
  have hg : Grow w { w with submitted := w.submitted ++ [s] } := .of_eq rfl rfl
  refine ⟨fun n => (h.store n).mono hg, fun s' hmem hlossless => ?_,
    fun f hf => (h.replayed f hf).mono hg (Int.le_refl _)⟩
  rcases List.mem_append.mp hmem with hmem | hmem
  · exact (h.submitted s' hmem hlossless).mono hg
  · obtain rfl := List.mem_singleton.mp hmem
    exact (hs hlossless).mono hg

/-- Another `materialize_through` has ended as it may end. -/
theorem Inv.replay (h : Inv 𝒮 w) (f : Replayed) (hf : ReplayedInv 𝒮 w f) :
    Inv 𝒮 { w with replayed := w.replayed ++ [f] } := by
  have hg : Grow w { w with replayed := w.replayed ++ [f] } := .of_eq rfl rfl
  refine ⟨fun n => (h.store n).mono hg, fun s hs hlossless => (h.submitted s hs hlossless).mono hg,
    fun f' hmem => ?_⟩
  rcases List.mem_append.mp hmem with hmem | hmem
  · exact (h.replayed f' hmem).mono hg (Int.le_refl _)
  · obtain rfl := List.mem_singleton.mp hmem
    exact hf.mono hg (Int.le_refl _)

/-- The others rely on nothing that the lists of ended calls say. -/
theorem Inv.kept (hi : Inv 𝒮 w') (hr : w'.replicas = w.replicas) (hg : w'.gap = w.gap)
    (hf : w'.faulted = w.faulted) : (discipline 𝒮).Kept t w w' := by
  refine ⟨hi, fun u _ => .of_others ?_ ?_ ?_⟩
  · rw [hr]
  · rw [hg]
  · rw [hf]
    exact id

theorem finish_ok {w₀ : World} (hc : c.Serves w₀) {o : Outcome} (hi : Inv 𝒮 w)
    (h : CallPost 𝒮 t c w o) : (discipline 𝒮).Kept t w (Deployment.finish w t c (.ok o)) := by
  cases c with
  | submit command =>
      cases o with
      | result r => exact Inv.kept (hi.submit ⟨t.node, command, r⟩ h) rfl rfl rfl
      | _ => exact .refl hi
  | materializeThrough target =>
      cases o with
      | result r =>
          obtain ⟨hb, hm⟩ := h
          refine Inv.kept (hi.replay _ ⟨hb, fun r' _ => ⟨hm.gap, hm.applied⟩, nofun⟩) rfl rfl rfl
      | _ => exact .refl hi
  | sync => exact .refl hi
  | get key => exact .refl hi
  | _ => exact hc.elim

theorem finish_error {w₀ : World} (hc : c.Serves w₀) {e : Error} (hi : Inv 𝒮 w)
    (h : CallError 𝒮 t c w e) : (discipline 𝒮).Kept t w (Deployment.finish w t c (.error e)) := by
  cases c with
  | materializeThrough target =>
      obtain ⟨hb, herr⟩ := h
      refine Inv.kept (hi.replay _ ⟨hb, nofun, fun e' he => ?_⟩) rfl rfl rfl
      obtain rfl := Except.error.inj he
      exact herr
  | submit command => exact .refl hi
  | sync => exact .refl hi
  | get key => exact .refl hi
  | _ => exact hc.elim

/-! ## Soundness -/

/-- What happens between the steps of the tasks keeps the invariant. -/
theorem disturb_kept {d : Disturbance} (hi : Inv 𝒮 w)
    (h : Deployment.disturb w d = some w') :
    Inv 𝒮 w' ∧ Grow w w' ∧ ∀ u, Deployment.survives d u = true → Rely u w w' := by
  cases d with
  | decide position content =>
      rw [Deployment.disturb] at h
      split at h
      · next hfree =>
          cases h
          have hg : Grow w { w with log := Function.update w.log position (some content) } := by
            refine ⟨fun p c' hp => ?_, Nat.le_refl _, fun p hp => ?_⟩
            · by_cases heq : p = position
              · subst heq
                rw [hfree.2] at hp
                cases hp
              · exact (Function.update_of_ne heq _ _).trans hp
            · exact Function.update_of_ne (Nat.ne_of_lt (Nat.lt_of_lt_of_le hp hfree.1)) _ _
          exact ⟨hi.of_grow hg rfl rfl (fun n => (hi.store n).mono hg) fun _ => Int.le_refl _, hg,
            fun u _ => .of_others rfl rfl id⟩
      · cases h
  | settle position =>
      cases h
      have hg : Grow w { w with settled := max w.settled position } :=
        ⟨fun _ _ hp => hp, Nat.le_max_left _ _, fun _ _ => rfl⟩
      exact ⟨hi.of_grow hg rfl rfl (fun n => (hi.store n).mono hg) fun _ => Int.le_refl _, hg,
        fun u _ => .of_others rfl rfl id⟩
  | trim position =>
      rw [Deployment.disturb] at h
      split at h
      · cases h
        have hg : Grow w { w with trimmed := max w.trimmed position } := .of_eq rfl rfl
        exact ⟨hi.of_grow hg rfl rfl (fun n => (hi.store n).mono hg) fun _ => Int.le_refl _, hg,
          fun u _ => .of_others rfl rfl id⟩
      · cases h
  | crash node =>
      cases h
      have hg : Grow w { w.setReplica node (.opened (w.connection node).committed) with
        faulted := Function.update w.faulted node false } := .of_eq rfl rfl
      have hreplica : (w.setReplica node (.opened (w.connection node).committed)).replicas node =
          .opened (w.connection node).committed := Function.update_self _ _ _
      have hs := (hi.store node).committed.mono hg
      refine ⟨hi.of_replica hg rfl rfl node (fun n hn => ⟨Function.update_of_ne hn _ _,
        Function.update_of_ne hn _ _⟩) ?_ ?_, hg, fun u hu => ?_⟩
      · show StoreInv 𝒮 _ _ ((w.setReplica node _).replicas node)
        rw [hreplica]
        exact ⟨hs, ⟨Int.le_refl _, fun _ _ hx => hs.first hx⟩, fun _ => .opened _ _⟩
      · show _ ≤ ((w.setReplica node _).replicas node).connection.committed.appliedPosition
        rw [hreplica]
        exact Int.le_refl _
      · -- The tasks of the other replicas survive.
        have hne : u.node ≠ node := of_decide_eq_true hu
        refine .of_others (Function.update_of_ne hne _ _) rfl fun hf => ?_
        exact (Function.update_of_ne hne _ _).trans hf

theorem sound : (discipline 𝒮).Sound where
  start := by
    intro w t c w' p hi hc hs
    obtain ⟨rfl, rfl⟩ := Prod.mk.inj (Option.some.inj hs)
    have hg : Grow w { w with gap := Function.update w.gap t false } := .of_eq rfl rfl
    refine ⟨hg, ?_⟩
    refine (program_spec hc).safe_finish (hi.gap_kept false) ⟨Function.update_self _ _ _, hg⟩ ?_ ?_
    · exact fun w' o hi' hpost => finish_ok hc hi' hpost
    · exact fun w' e hi' herr => finish_error hc hi' herr
  disturb := fun hi hd => disturb_kept hi hd

/-- The replicas start over empty tables. -/
def World.empty : World := .initial fun _ => .empty

/-- Empty tables are the replay of no entry. -/
theorem replays_empty : Replays 𝒮 World.empty .empty where
  low := Int.le_refl _
  settled := Int.negSucc_lt_zero 0
  shape := Tables.isReplay_empty
  valid p hp := absurd hp (Nat.not_lt_zero p)
  agreed p hp := absurd hp (Nat.not_lt_zero p)

theorem inv_empty : Inv 𝒮 World.empty where
  store node := by
    refine ⟨replays_empty, ⟨Int.le_refl _, fun key x hx => ?_⟩, fun _ => .opened _ _⟩
    exact absurd ((Tables.request_empty key).symm.trans hx) (Option.some_ne_none x).symm
  submitted _ h := absurd h List.not_mem_nil
  replayed _ h := absurd h List.not_mem_nil

theorem inv_of_reachable {s : SystemState}
    (h : 𝒮.runtime.ReachableUnder (faithful 𝒮) (· = World.empty) s) : Inv 𝒮 s.world :=
  (sound.reachable (fun _ hw => hw ▸ inv_empty) h).1

end DelosLab.Kv
