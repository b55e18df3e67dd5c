import DelosLab.Kv.Rules

/-!
# The transaction of `apply`

The holder of the materializer's lock applies the next command of the log. Whatever fails,
the connection is between two transactions when `apply` is over.
-/

namespace DelosLab.Kv

open Async Async.Coroutine Async.Discipline

variable {𝒮 : Deployment} {w : World} {t : TaskId} {c : Call}

/-- The next command behind tables `T` is `command`, at `p`. -/
structure NextAt (𝒮 : Deployment) (T : Tables) (p : Nat) (command : KvCommandEnvelope)
    (w : World) : Prop where
  command : 𝒮.commands w p = some command
  settled : p < w.settled
  skipped : ∀ q, T.next ≤ q → q < p → w.log q = none

theorem NextAt.steady (T : Tables) (p : Nat) (command : KvCommandEnvelope) :
    Steady t (NextAt 𝒮 T p command) := by
  intro w w' hg _ h
  refine ⟨?_, Nat.lt_of_lt_of_le h.settled hg.settled, fun q hq hqp => ?_⟩
  · rw [Deployment.commands_grow hg h.settled]
    exact h.command
  · rw [hg.fixed q (Nat.lt_trans hqp h.settled)]
    exact h.skipped q hq hqp

/-- The prior command of the request, if there is one, is `command`. -/
def Agreed (T : Tables) (command : KvCommandEnvelope) : Prop :=
  ∀ prior, T.request command.identity = some prior → prior.1 = command

/-! ## What the statements may do -/

section Allowed

variable {k k' : Connection} {T : Tables} {p : Nat} {command : KvCommandEnvelope}

theorem Inv.replays (hi : Inv 𝒮 w) (hk : w.connection t.node = k) : Replays 𝒮 w k.committed :=
  hk ▸ (hi.store t.node).committed

theorem request_congr {T T' : Tables} (h : T.requests = T'.requests) (key : String × String) :
    T.request key = T'.request key := by
  unfold Tables.request Tables.requestRow
  rw [h]

/-- A statement that leaves the committed tables, and no wrong row to read. -/
theorem Allowed.of_requests (hi : Inv 𝒮 w) (hk : w.connection t.node = k)
    (hcommitted : k'.committed = k.committed)
    (hahead : k.committed.appliedPosition ≤ k'.working.appliedPosition)
    (hrequest : ∀ key x, k'.working.request key = some x →
      (𝒮.replay w w.settled).first key = some x) : Allowed 𝒮 w k k' := by
  refine ⟨hcommitted ▸ hi.replays hk, ⟨hcommitted ▸ hahead, hrequest⟩, ?_⟩
  rw [hcommitted]

/-- A statement that does not touch the table of requests. -/
theorem Allowed.of_same_requests (hi : Inv 𝒮 w) (hk : w.connection t.node = k)
    (hcommitted : k'.committed = k.committed)
    (hahead : k.committed.appliedPosition ≤ k'.working.appliedPosition)
    (hrequests : k'.working.requests = k.working.requests) : Allowed 𝒮 w k k' := by
  refine .of_requests hi hk hcommitted hahead fun key x hx => ?_
  rw [request_congr hrequests] at hx
  have hr : Readable 𝒮 w (w.connection t.node) := (hi.store t.node).readable
  rw [hk] at hr
  exact hr.request key x hx

/-- A statement that leaves the connection as it is. -/
theorem Allowed.same (hi : Inv 𝒮 w) (hk : w.connection t.node = k) : Allowed 𝒮 w k k := by
  have hr : Readable 𝒮 w (w.connection t.node) := (hi.store t.node).readable
  rw [hk] at hr
  exact ⟨hi.replays hk, hr, Int.le_refl _⟩

/-- The connection comes to rest over tables that are a replay. -/
theorem Allowed.rest (h : Replays 𝒮 w T)
    (hle : k.committed.appliedPosition ≤ T.appliedPosition) : Allowed 𝒮 w k (.opened T) :=
  ⟨h, ⟨Int.le_refl _, fun _ _ hx => h.first hx⟩, hle⟩

end Allowed

/-! ## The body of the transaction -/

/-- Why `apply` fails at `p`: an exception of the replica, or a conflict. -/
def ApplyError (𝒮 : Deployment) (t : TaskId) (p : Nat) (w : World) (e : Error) : Prop :=
  w.faulted t.node = true ∨ 𝒮.Conflict w p ∧ ∃ message, e = .requestConflict message

/-- The connection before the last statements of `apply`: only the entry and the progress
are missing. -/
structure Staged (T : Tables) (p : Nat) (command : KvCommandEnvelope) (r : KvResult)
    (k : Connection) : Prop where
  committed : k.committed = T
  agreed : Agreed T command
  result : r = (T.applied p command).2
  entries : k.working.appliedEntries = T.appliedEntries
  progress : k.working.appliedPosition = T.appliedPosition
  requests : k.working.requests = (T.applied p command).1.requests
  whole : ({ k.working with
    appliedEntries := T.appliedEntries ++ [KvAppliedRow.mk p command r]
    appliedPosition := (p : Int) } : Tables) = (T.applied p command).1

section Body

variable {k : Connection} {p : Nat} {command : KvCommandEnvelope}

/-- A statement of the holder that only reads. -/
theorem select_held {s : Statement} (hs : s.Selects) {F : World → Prop}
    (hF : Steady t F) :
    (discipline 𝒮).Triple t c (fun w => Held t k w ∧ F w) (execute s)
      (fun w a => (Held t k w ∧ F w) ∧ (k.execute s).2 = .ok a)
      (fun w _ => (Held t k w ∧ F w) ∧ w.faulted t.node = true) := by
  have hk' : (k.execute s).1 = k := Connection.execute_selects hs k
  obtain ⟨a, ha⟩ := Connection.execute_selects_ok hs k
  refine (execute_held hF fun w hi _ hk => hk'.symm ▸ .same hi hk).mono (fun _ _ h => h) ?_ ?_
  · rintro w a _ ⟨h, ha⟩
    exact ⟨hk' ▸ h, ha⟩
  · rintro w e _ ⟨h, hf | he⟩
    · exact ⟨hk' ▸ h, hf⟩
    · rw [ha] at he
      cases he

/-- A write of the holder that cannot fail by itself. -/
theorem write_held {s : Statement} {k' : Connection} {F : World → Prop} {a : s.Result}
    (hF : Steady t F) (hs : k.execute s = (k', .ok a))
    (ha : ∀ w, Inv 𝒮 w → F w → w.connection t.node = k → Allowed 𝒮 w k k') :
    (discipline 𝒮).Triple t c (fun w => Held t k w ∧ F w) (execute s)
      (fun w _ => Held t k' w ∧ F w)
      (fun w _ => ∃ k', (Held t k' w ∧ F w) ∧ w.faulted t.node = true) := by
  have hk' : (k.execute s).1 = k' := by rw [hs]
  refine (execute_held hF fun w hi hf hk => hk' ▸ ha w hi hf hk).mono (fun _ _ h => h) ?_ ?_
  · rintro w a _ ⟨h, -⟩
    exact hk' ▸ h
  · rintro w e _ ⟨h, hf | he⟩
    · exact ⟨_, h, hf⟩
    · rw [hs] at he
      cases he

/-- The connection of `k` with other working items and requests. -/
def Connection.rewrite (k : Connection) (items : KvValues) (requests : List KvRequestRow) :
    Connection :=
  ⟨k.committed, { k.working with items := items, requests := requests }, k.inTransaction, true⟩

theorem Connection.execute_deleteItems (k : Connection) :
    k.execute .deleteItems = (k.rewrite ∅ k.working.requests, .ok ()) := rfl

theorem Connection.execute_insertItems (k : Connection) (values : KvValues)
    (requests : List KvRequestRow) :
    (k.rewrite ∅ requests).execute (.insertItems values) =
      (k.rewrite values requests, .ok ()) := by
  show (({ k.rewrite ∅ requests with
    working := (k.rewrite ∅ requests).working.insertItems values
    rewriting := true } : Connection), _) = _
  simp only [Connection.rewrite, Tables.insertItems, Finmap.union_empty]

theorem Connection.execute_insertRequest (k : Connection) (items : KvValues) (row : KvRequestRow)
    (h : k.working.requestRow row.key = none) :
    (k.rewrite items k.working.requests).execute (.insertRequests [row]) =
      (k.rewrite items (k.working.requests ++ [row]), .ok ()) := by
  have hrow : (k.rewrite items k.working.requests).working.requestRow row.key = none := h
  show (k.rewrite items k.working.requests).write (Tables.insertMany _ _ [row]) = _
  simp only [Tables.insertMany, Tables.insertRequest, hrow, Connection.write]
  rfl

/-- Rewriting the items shows no wrong row. -/
theorem Allowed.of_rewrite {k₁ : Connection} (hclean : k.working = k.committed) (hi : Inv 𝒮 w)
    (hk : w.connection t.node = k₁) (hc : k₁.committed = k.committed)
    (hr : k₁.working.requests = k.working.requests) (items : KvValues) :
    Allowed 𝒮 w k₁ (k.rewrite items k.working.requests) := by
  refine .of_same_requests hi hk hc.symm ?_ hr.symm
  show k₁.committed.appliedPosition ≤ k.working.appliedPosition
  rw [hclean, hc]

theorem replaceSnapshot_spec (hclean : k.working = k.committed) {F : World → Prop}
    (hF : Steady t F) (values : KvValues) :
    (discipline 𝒮).Triple t c (fun w => Held t k w ∧ F w) (SQLiteKvStore.replaceSnapshot values)
      (fun w _ => Held t (k.rewrite values k.working.requests) w ∧ F w)
      (fun w _ => ∃ k', (Held t k' w ∧ F w) ∧ w.faulted t.node = true) := by
  refine .bind (write_held hF k.execute_deleteItems fun w hi _ hk => ?_) fun _ =>
    write_held hF (k.execute_insertItems _ _) fun w hi _ hk => ?_
  · exact .of_rewrite hclean hi hk rfl rfl _
  · exact .of_rewrite hclean hi hk rfl rfl _

/-- The new row of requests. -/
theorem insertRequest_spec (hclean : k.working = k.committed) (hle : k.committed.next ≤ p)
    (hprior : k.committed.request command.identity = none) (values : KvValues) :
    (discipline 𝒮).Triple t c
      (fun w => Held t (k.rewrite values k.working.requests) w ∧
        NextAt 𝒮 k.committed p command w)
      (execute (.insertRequests [Tables.newRow p command (k.committed.applied p command).2]))
      (fun w _ => Held t (k.rewrite values (k.committed.applied p command).1.requests) w ∧
        NextAt 𝒮 k.committed p command w)
      (fun w _ => ∃ k', (Held t k' w ∧ NextAt 𝒮 k.committed p command w) ∧
        w.faulted t.node = true) := by
  have hrow : k.working.requestRow command.identity = none := by
    rw [hclean]
    exact Option.map_eq_none_iff.mp hprior
  have hagreed : Agreed k.committed command := by
    intro x hx
    rw [hprior] at hx
    cases hx
  have hrequests : k.working.requests ++ [Tables.newRow p command (k.committed.applied p command).2] =
      (k.committed.applied p command).1.requests := by
    rw [Tables.applied, hprior, hclean]
  have hexecute := k.execute_insertRequest values
    (Tables.newRow p command (k.committed.applied p command).2) hrow
  rw [hrequests] at hexecute
  refine write_held (NextAt.steady _ _ _) hexecute fun w hi hat hk => ?_
  -- The row is the first command of its request in the log.
  obtain ⟨hreplays, -⟩ := Replays.applied (hi.replays hk) hat.settled hat.command hle
    hat.skipped hagreed
  refine .of_requests hi hk rfl ?_ fun key x hx => hreplays.first ?_
  · show k.committed.appliedPosition ≤ k.working.appliedPosition
    rw [hclean]
  · rw [← hx]
    exact request_congr rfl key

theorem resultOf_spec (hclean : k.working = k.committed) (hle : k.committed.next ≤ p) :
    (discipline 𝒮).Triple t c (fun w => Held t k w ∧ NextAt 𝒮 k.committed p command w)
      (SQLiteKvStore.resultOf p command)
      (fun w r => ∃ k', (Held t k' w ∧ NextAt 𝒮 k.committed p command w) ∧
        Staged k.committed p command r k')
      (fun w e => ∃ k', (Held t k' w ∧ NextAt 𝒮 k.committed p command w) ∧
        ApplyError 𝒮 t p w e) := by
  have hF : Steady t (NextAt 𝒮 k.committed p command) := NextAt.steady _ _ _
  have herror : ∀ w e, Inv 𝒮 w → (∃ k', (Held t k' w ∧ NextAt 𝒮 k.committed p command w) ∧
      w.faulted t.node = true) → ∃ k', (Held t k' w ∧ NextAt 𝒮 k.committed p command w) ∧
        ApplyError 𝒮 t p w e := fun _ _ _ ⟨k', h⟩ => ⟨k', h.1, .inl h.2⟩
  refine .bind ((select_held (s := .selectRequest _ _) trivial hF).mono (fun _ _ h => h)
    (fun _ _ _ h => h) fun w e hi h => herror w e hi ⟨k, h⟩) fun prior => .given fun hprior => ?_
  have hprior : k.committed.request command.identity = prior := by
    rw [← hclean]
    exact Except.ok.inj hprior
  have happlied := Tables.applied.eq_def k.committed p command
  rw [hprior] at happlied
  cases prior with
  | some prior =>
      refine .bind (.check fun w hi h hne => ?_) fun _ => .given fun heq => .ret fun w hi h => ?_
      · -- The prior command of the request is another one: the entry is in conflict.
        refine ⟨k, h, .inr ⟨⟨command, prior, h.2.command, ?_, hne⟩, _, rfl⟩⟩
        have hr := hi.replays h.1.connection
        rw [Replays.replay_skip hle h.2.skipped, ← hr.shape.requests]
        exact hprior
      · refine ⟨k, h, rfl, fun x hx => ?_, ?_, ?_, ?_, ?_, ?_⟩
        · rw [hprior] at hx
          rw [← Option.some.inj hx]
          exact heq
        · rw [happlied]
        · rw [hclean]
        · rw [hclean]
        · rw [hclean, happlied]
        · rw [hclean, happlied]
  | none =>
      have hresult : (k.committed.applied p command).2 =
          (KvStateMachine.apply k.committed.items command.operation).2 := by rw [happlied]
      refine .bind ((select_held (s := .selectItems) trivial hF).mono (fun _ _ h => h)
        (fun _ _ _ h => h) fun w e hi h => herror w e hi ⟨k, h⟩) fun values =>
          .given fun hvalues => ?_
      have hvalues : k.committed.items = values := by
        rw [← hclean]
        exact Except.ok.inj hvalues
      subst hvalues
      refine .bind ((replaceSnapshot_spec hclean hF _).mono (fun _ _ h => h) (fun _ _ _ h => h)
        herror) fun _ => ?_
      rw [← hresult]
      refine .bind ((insertRequest_spec hclean hle hprior _).mono (fun _ _ h => h)
        (fun _ _ _ h => h) herror) fun _ =>
          .ret fun w hi h => ⟨_, h, rfl, fun x hx => ?_, rfl, ?_, ?_, rfl, ?_⟩
      · rw [hprior] at hx
        cases hx
      · show k.working.appliedEntries = _
        rw [hclean]
      · show k.working.appliedPosition = _
        rw [hclean]
      · rw [happlied]
        rfl

theorem Tables.applied_appliedPosition (T : Tables) (p : Nat) (command : KvCommandEnvelope) :
    (T.applied p command).1.appliedPosition = p := by
  unfold Tables.applied
  split <;> rfl

/-- The entry, the progress and the commit. -/
theorem finish_spec {r : KvResult} {k' : Connection} {T : Tables} (hle : T.next ≤ p)
    (hentry : T.entryAt p = none) (hk' : Staged T p command r k') :
    (discipline 𝒮).Triple t c (fun w => Held t k' w ∧ NextAt 𝒮 T p command w)
      (do
        execute (.insertEntries [⟨p, command, r⟩])
        execute (.updateProgress p)
        execute .commit
        ret r)
      (fun w a => (Held t (.opened (T.applied p command).1) w ∧ NextAt 𝒮 T p command w) ∧
        a = (T.applied p command).2)
      (fun w _ => ∃ k', (Held t k' w ∧ NextAt 𝒮 T p command w) ∧ w.faulted t.node = true) := by
  have hF : Steady t (NextAt 𝒮 T p command) := NextAt.steady _ _ _
  have hahead : T.appliedPosition ≤ p := by
    unfold Tables.next at hle
    omega
  have hrow : k'.working.entryRow p = none := by
    have hT : T.entryRow p = none := Option.map_eq_none_iff.mp hentry
    unfold Tables.entryRow
    rw [hk'.entries]
    exact hT
  have hinsert : k'.execute (.insertEntries [⟨p, command, r⟩]) =
      ({ k' with
        working := { k'.working with
          appliedEntries := T.appliedEntries ++ [KvAppliedRow.mk p command r] } }, .ok ()) := by
    show k'.write (Tables.insertMany Tables.insertEntry _ _) = _
    simp only [Tables.insertMany, Tables.insertEntry, hrow, Connection.write, hk'.entries]
  refine .bind (write_held hF hinsert fun w hi _ hk => ?_) fun _ => ?_
  · refine .of_same_requests hi hk rfl ?_ rfl
    show k'.committed.appliedPosition ≤ k'.working.appliedPosition
    rw [hk'.progress, hk'.committed]
  · have hupdate : ({ k' with
        working := { k'.working with
          appliedEntries := T.appliedEntries ++ [KvAppliedRow.mk p command r] } } :
        Connection).execute (.updateProgress p) =
        ({ k' with working := (T.applied p command).1 }, .ok ()) := by
      have hpos : ¬(p : Int) < -1 := by omega
      show Connection.write _ (Tables.updateProgress _ _) = _
      simp only [Tables.updateProgress, if_neg hpos, Connection.write, hk'.whole]
    refine .bind (write_held hF hupdate fun w hi _ hk => ?_) fun _ => ?_
    · refine .of_same_requests hi hk rfl ?_ hk'.requests.symm
      show k'.committed.appliedPosition ≤ (T.applied p command).1.appliedPosition
      rw [Tables.applied_appliedPosition, hk'.committed]
      exact hahead
    · have hcommit : ({ k' with working := (T.applied p command).1 } : Connection).execute
          .commit = (.opened (T.applied p command).1, .ok ()) := rfl
      refine .bind (write_held hF hcommit fun w hi hat hk => ?_) fun _ =>
        .ret fun w _ h => ⟨h, hk'.result⟩
      have hT : Replays 𝒮 w T := by
        have hr := hi.replays hk
        rwa [show ({ k' with working := (T.applied p command).1 } : Connection).committed = T
          from hk'.committed] at hr
      refine .rest (hT.applied hat.settled hat.command hle hat.skipped hk'.agreed).1 ?_
      show k'.committed.appliedPosition ≤ _
      rw [Tables.applied_appliedPosition, hk'.committed]
      exact hahead

theorem applyBody_spec (hclean : k.working = k.committed) (hle : k.committed.next ≤ p) :
    (discipline 𝒮).Triple t c (fun w => Held t k w ∧ NextAt 𝒮 k.committed p command w)
      (SQLiteKvStore.applyBody p command)
      (fun w r => (Held t (.opened (k.committed.applied p command).1) w ∧
        NextAt 𝒮 k.committed p command w) ∧ r = (k.committed.applied p command).2)
      (fun w e => ∃ k', (Held t k' w ∧ NextAt 𝒮 k.committed p command w) ∧
        ApplyError 𝒮 t p w e) := by
  have hF : Steady t (NextAt 𝒮 k.committed p command) := NextAt.steady _ _ _
  have herror : ∀ w e, Inv 𝒮 w → (∃ k', (Held t k' w ∧ NextAt 𝒮 k.committed p command w) ∧
      w.faulted t.node = true) → ∃ k', (Held t k' w ∧ NextAt 𝒮 k.committed p command w) ∧
        ApplyError 𝒮 t p w e := fun _ _ _ ⟨k', h⟩ => ⟨k', h.1, .inl h.2⟩
  refine .bind ((select_held (s := .selectProgress) trivial hF).mono (fun _ _ h => h)
    (fun _ _ _ h => h) fun w e hi h => herror w e hi ⟨k, h⟩) fun current =>
      .given fun hcurrent => ?_
  have hcurrent : current = k.committed.appliedPosition := by
    rw [← hclean]
    exact (Except.ok.inj hcurrent).symm
  have hbehind : ¬(p : Int) ≤ current := by
    unfold Tables.next at hle
    omega
  rw [if_neg hbehind]
  refine .bind (resultOf_spec hclean hle) fun r => .of_forall fun k' => .given fun hstaged => ?_
  refine Triple.pre (.given fun hentry => (finish_spec hle hentry hstaged).mono (fun _ _ h => h)
    (fun _ _ _ h => h) herror) fun w hi h => ⟨h, ?_⟩
  have hr : Replays 𝒮 w k.committed := hstaged.committed ▸ hi.replays h.1.connection
  exact (hr.shape.entries p).trans (Replication.Machine.applied_of_le hle)

/-- The connection is put back between transactions. -/
theorem rollback_spec {F : World → Prop} (hF : Steady t F) (e : Error) (k' : Connection) :
    (discipline 𝒮).Triple t c (fun w => Held t k' w ∧ F w)
      (do
        execute .rollback
        raise e : Co KvResult)
      (fun _ _ => False)
      (fun w e' => Held t (.opened k'.committed) w ∧
        (w.faulted t.node = true ∨ e' = e ∧ F w)) := by
  refine .bind ((execute_held (s := .rollback) hF fun w hi _ hk =>
    .rest (hi.replays hk) (Int.le_refl _)).mono (fun _ _ h => h) (fun _ _ _ h => h.1)
      fun w e' _ h => ?_) fun _ => .raise fun w _ h => ⟨h.1, .inr ⟨rfl, h.2⟩⟩
  obtain ⟨h, hf | he⟩ := h
  · exact ⟨h.1, .inl hf⟩
  · cases he

theorem Idle.opened (faulted : Bool) (T : Tables) : Idle faulted (.opened T) := ⟨rfl, nofun⟩

theorem ApplyError.steady (T : Tables) (e : Error) :
    Steady t fun w => NextAt 𝒮 T p command w ∧ ApplyError 𝒮 t p w e := by
  intro w w' hg hf ⟨hat, herr⟩
  refine ⟨NextAt.steady T p command w w' hg hf hat, ?_⟩
  rcases herr with hfault | ⟨hc, he⟩
  · exact .inl (hf hfault)
  · exact .inr ⟨(Deployment.conflict_grow hg hat.settled).mpr hc, he⟩

/-- The body with its handler. -/
theorem orRollback_spec (hclean : k.working = k.committed) (hle : k.committed.next ≤ p) :
    (discipline 𝒮).Triple t c (fun w => Held t k w ∧ NextAt 𝒮 k.committed p command w)
      (SQLiteKvStore.orRollback (SQLiteKvStore.applyBody p command))
      (fun w r => (Held t (.opened (k.committed.applied p command).1) w ∧
        NextAt 𝒮 k.committed p command w) ∧ r = (k.committed.applied p command).2)
      (fun w e => ∃ k', Held t k' w ∧ Idle (w.faulted t.node) k' ∧ ApplyError 𝒮 t p w e) := by
  refine .handle (applyBody_spec hclean hle) fun e => .of_forall fun k' => ?_
  have hF : Steady t fun w => NextAt 𝒮 k.committed p command w ∧ ApplyError 𝒮 t p w e :=
    ApplyError.steady k.committed e
  refine (rollback_spec hF e k').mono ?_ ?_ ?_
  · exact fun w _ h => ⟨h.1.1, h.1.2, h.2⟩
  · exact fun _ _ _ h => h.elim
  · rintro w e' _ ⟨hheld, hf | ⟨rfl, -, herr⟩⟩
    · exact ⟨_, hheld, .opened _ _, .inl hf⟩
    · exact ⟨_, hheld, .opened _ _, herr⟩

/-- The transaction, begun and ended. -/
theorem transaction_spec (hle : k.committed.next ≤ p) :
    (discipline 𝒮).Triple t c
      (fun w => Held t k w ∧ Idle (w.faulted t.node) k ∧ NextAt 𝒮 k.committed p command w)
      (do
        execute .begin
        SQLiteKvStore.orRollback (SQLiteKvStore.applyBody p command))
      (fun w r => (Held t (.opened (k.committed.applied p command).1) w ∧
        NextAt 𝒮 k.committed p command w) ∧ r = (k.committed.applied p command).2)
      (fun w e => ∃ k', Held t k' w ∧ Idle (w.faulted t.node) k' ∧ ApplyError 𝒮 t p w e) := by
  have hF : Steady t fun w => Idle (w.faulted t.node) k ∧ NextAt 𝒮 k.committed p command w :=
    (Steady.idle k).and (NextAt.steady _ _ _)
  cases hopen : k.inTransaction with
  | true =>
      -- Some exception has left the connection inside a transaction.
      have hbegin : k.execute .begin = (k, .error
          (.operationalError "cannot start a transaction within a transaction")) := if_pos hopen
      refine .bind (Q := fun _ _ => False) ((execute_held hF fun w hi _ hk => ?_).mono
        (fun _ _ h => h) ?_ ?_) fun _ => fun _ _ _ hfalse => hfalse.elim
      · rw [hbegin]
        exact .same hi hk
      · rintro w a _ ⟨-, ha⟩
        rw [hbegin] at ha
        cases ha
      · rintro w e _ ⟨⟨hheld, hidle, -⟩, -⟩
        rw [hbegin] at hheld
        exact ⟨k, hheld, hidle, .inl (hidle.closed hopen)⟩
  | false =>
      have hbegin : k.execute .begin = ({ k with inTransaction := true }, .ok ()) :=
        if_neg (by rw [hopen]; exact Bool.false_ne_true)
      refine .bind ((execute_held hF fun w hi hf hk => ?_).mono (fun _ _ h => h)
        (fun _ _ _ h => h) ?_) fun _ => ?_
      · rw [hbegin]
        refine .of_same_requests hi hk rfl ?_ rfl
        show k.committed.appliedPosition ≤ k.working.appliedPosition
        rw [hf.1.clean]
      · rintro w e _ ⟨⟨hheld, hidle, -⟩, hf | he⟩
        · rw [hbegin] at hheld
          exact ⟨_, hheld, ⟨hidle.clean, fun _ => hf⟩, .inl hf⟩
        · rw [hbegin] at he
          cases he
      · rw [hbegin]
        have hspec : k.working = k.committed → (discipline 𝒮).Triple t c
            (fun w => Held t { k with inTransaction := true } w ∧
              NextAt 𝒮 k.committed p command w) _ _ _ :=
          fun hclean => orRollback_spec (k := { k with inTransaction := true }) hclean hle
        exact (Triple.given hspec).pre fun w _ h => ⟨⟨h.1.1, h.1.2.2⟩, h.1.2.1.clean⟩

/-- **`apply`** of the next command, by the holder of the materializer's lock. -/
theorem apply_spec (hle : k.committed.next ≤ p) :
    (discipline 𝒮).Triple t c
      (fun w => Held t k w ∧ Idle (w.faulted t.node) k ∧ NextAt 𝒮 k.committed p command w)
      (SQLiteKvStore.apply p command)
      (fun w r => (Held t (.opened (k.committed.applied p command).1) w ∧
        NextAt 𝒮 k.committed p command w) ∧ r = (k.committed.applied p command).2)
      (fun w e => ∃ k', Held t k' w ∧ Idle (w.faulted t.node) k' ∧ ApplyError 𝒮 t p w e) := by
  have hF : Steady t fun w => Idle (w.faulted t.node) k ∧ NextAt 𝒮 k.committed p command w :=
    (Steady.idle k).and (NextAt.steady _ _ _)
  have hbody : (discipline 𝒮).Triple t c (fun w => Held t k w ∧ Idle (w.faulted t.node) k ∧
      NextAt 𝒮 k.committed p command w) _ _ _ := transaction_spec hle
  refine withLock_spec ((Held.lasting k).and hF.lasting).stable ?_ ?_ hbody ?_ ?_ ?_
  · exact fun w _ h _ => ⟨h.1.setLock nofun, hF.setLock h.2⟩
  · intro w e _ h
    exact ⟨k, h.1.fault, (Steady.idle k).fault h.2.1, .inl (Function.update_self _ _ _)⟩
  · intro w _ h
    cases h
  · exact fun w r _ h => ⟨⟨h.1.1.setLock nofun, (NextAt.steady _ _ _).setLock h.1.2⟩, h.2⟩
  · rintro w e _ ⟨k', hheld, hidle, herr⟩
    exact ⟨k', hheld.setLock nofun, (Steady.idle k').setLock hidle, herr⟩

end Body

end DelosLab.Kv
