import DelosLab.NativeLoglet.Transports

/-!
# One LogServer, by HTTP and called directly

A request that reaches its endpoint with what the client put into its URL runs the server as
the direct call does, so the transports differ where the URL, the body or the response does not
carry what it is made of.
-/

namespace DelosLab.NativeLoglet

open LogletStore

/-- The LogletErrors that a server raises. -/
def StoreFailure.served (e : StoreFailure) : Bool :=
  match e.errorClass with
  | .segmentSealed => true
  | .entryConflict => true
  | .predecessorUnavailable => true
  | .positionTrimmed => true
  | _ => false

/-- The same value, or a LogletError of the same class, or the same wait. -/
def SameOutcome : ServerAnswer → ClientAnswer → Prop
  | .returned value, .returned value' => value = value'
  | .raised e, .raised (.loglet e') =>
      e.served = true ∧ e.errorClass = (StoreFailure.loglet e').errorClass
  | .waiting waiter, .waiting waiter' => waiter = waiter'
  | _, _ => False

instance : (answer : ServerAnswer) → (answer' : ClientAnswer) →
    Decidable (SameOutcome answer answer')
  | .returned value, .returned value' => inferInstanceAs (Decidable (value = value'))
  | .raised _, .raised (.loglet _) => inferInstanceAs (Decidable (_ ∧ _))
  | .waiting waiter, .waiting waiter' => inferInstanceAs (Decidable (waiter = waiter'))
  | .returned _, .raised _ => isFalse nofun
  | .returned _, .waiting _ => isFalse nofun
  | .raised _, .returned _ => isFalse nofun
  | .raised _, .raised (.httpStatus _) => isFalse nofun
  | .raised _, .raised .validation => isFalse nofun
  | .raised _, .raised .request => isFalse nofun
  | .raised _, .waiting _ => isFalse nofun
  | .waiting _, .returned _ => isFalse nofun
  | .waiting _, .raised _ => isFalse nofun

/-- A call leaves the server in the same state and has the same outcome by both transports. -/
def TransportsAgree (web : WebLayer) (K : WholeStore) (store : K.Held)
    (c : TransportCall K.Held) : Prop :=
  (HttpLogletTransport.call web store c).1 = (DirectLogletTransport.call K store c).1 ∧
    SameOutcome (DirectLogletTransport.call K store c).2 (HttpLogletTransport.call web store c).2

/-! ## What the URL, the body and the response carry -/

/-- A URL leads to its own endpoint with what the client put into it. -/
def WebLayer.Carries (web : WebLayer) (endpoint : Endpoint) (segmentId : String)
    (number knownTail : Nat) : Prop :=
  web.route endpoint segmentId number knownTail = .endpoint endpoint segmentId number knownTail

/-- The answer of a server becomes a response: a state has integers that become text, an entry
is of UTF-8 and the exception has a handler. -/
def Sendable : ServerAnswer → Prop
  | .returned (.state state) => PrintableState state
  | .returned (.entry none) => True
  | .returned (.entry (some entry)) => (dumpEntry entry).isSome = true
  | .raised e => e.served = true
  | .waiting _ => True

instance : (answer : ServerAnswer) → Decidable (Sendable answer)
  | .returned (.state state) => inferInstanceAs (Decidable (PrintableState state))
  | .returned (.entry none) => isTrue trivial
  | .returned (.entry (some entry)) => inferInstanceAs (Decidable ((dumpEntry entry).isSome = true))
  | .raised e => inferInstanceAs (Decidable (e.served = true))
  | .waiting _ => isTrue trivial

/-- A get that finds nothing, of a URL that leads to nothing either. -/
def MissedAlike (web : WebLayer) (K : WholeStore) (store : K.Held) (segmentId : String)
    (position knownTail : Nat) : Prop :=
  (K.serveGet store segmentId position knownTail).2 = .returned (.entry none) ∧
    match web.route .getEntry segmentId position knownTail with
    | .endpoint .getEntry segmentId' position' knownTail' =>
        K.serveGet store segmentId' position' knownTail' =
          K.serveGet store segmentId position knownTail
    | .refused .notFound => (K.serveGet store segmentId position knownTail).1 = store
    | _ => False

/-- The requests and responses of a call carry all that it is made of. -/
def Carried (web : WebLayer) (K : WholeStore) (store : K.Held) (c : TransportCall K.Held) : Prop :=
  let answer := (DirectLogletTransport.call K store c).2
  match c with
  | .put entry knownTail => (dumpEntry entry).isSome = true ∧ Printable knownTail ∧
      web.Carries .putEntry entry.segmentId entry.position 0 ∧ Sendable answer
  | .repair entry knownTail => (dumpEntry entry).isSome = true ∧ Printable knownTail ∧
      web.Carries .repairEntry entry.segmentId entry.position 0 ∧ Sendable answer
  | .get segmentId position knownTail => (Printable position ∧ Printable knownTail) ∧
      (web.Carries .getEntry segmentId position knownTail ∧ Sendable answer ∨
        MissedAlike web K store segmentId position knownTail)
  | .seal segmentId knownTail => Printable knownTail ∧
      web.Carries .sealSegment segmentId 0 0 ∧ Sendable answer
  | .prefixTrim segmentId trimPosition => Printable trimPosition ∧
      web.Carries .prefixTrimSegment segmentId trimPosition 0 ∧ Sendable answer
  | .state segmentId knownTail => Printable knownTail ∧
      web.Carries .getState segmentId 0 knownTail ∧ Sendable answer
  | .waitForTail segmentId localTail knownTail _ =>
      (Printable localTail ∧ Printable knownTail) ∧
      web.Carries .waitForTail segmentId localTail knownTail ∧ Sendable answer

/-! ## JSON -/

theorem bytesOf_textOf {payload : VirtualLog.Bytes} {text : String}
    (h : textOf payload = some text) : bytesOf text = payload := by
  unfold textOf String.fromUTF8? at h
  split at h
  · cases h
    rfl
  · cases h

/-- What is dumped is validated as it was. -/
theorem validateEntry_dumpEntry {entry : LogEntry} {json : EntryJson}
    (h : dumpEntry entry = some json) : validateEntry json = entry := by
  unfold dumpEntry at h
  split at h
  · obtain ⟨text, htext, hjson⟩ := Option.map_eq_some_iff.mp h
    rw [← hjson, validateEntry, bytesOf_textOf htext]
  · cases h

/-! ## What the answers are about -/

/-- An answer tells of one segment. -/
def ServerAnswer.About (segmentId : String) : ServerAnswer → Prop
  | .returned (.state state) => state.segmentId = segmentId
  | .returned (.entry (some entry)) => entry.segmentId = segmentId
  | .waiting waiter => waiter.segmentId = segmentId
  | _ => True

/-- An answer of a call that returns a state. -/
def ServerAnswer.OfState : ServerAnswer → Prop
  | .returned (.entry _) => False
  | _ => True

/-- An answer of `get`. -/
def ServerAnswer.OfEntry : ServerAnswer → Prop
  | .returned (.state _) => False
  | .waiting _ => False
  | _ => True

/-- A response that tells of another segment, and of no LogletError. -/
def HttpResponse.Apart (segmentId : String) : HttpResponse → Prop
  | .state report => report.segmentId ≠ segmentId
  | .entry json => json.segmentId ≠ segmentId
  | .protocolError _ _ => False
  | .pending waiter => waiter.segmentId ≠ segmentId
  | _ => True

section Answers

variable {answer : ServerAnswer} {segmentId segmentId' : String}

theorem handleError_served {e : StoreFailure} (h : e.served = true) :
    ∃ code message, handleError e = .protocolError code message ∧
      ∃ e', e = .loglet e' ∧ HttpLogletTransport.protocolError code message = .loglet e' := by
  cases e with
  | integrityError => cases h
  | overflowError => cases h
  | loglet e =>
      cases e with
      | segmentSealed segmentId => exact ⟨_, _, rfl, _, rfl, rfl⟩
      | entryConflict message => exact ⟨_, _, rfl, _, rfl, rfl⟩
      | predecessorUnavailable message => exact ⟨_, _, rfl, _, rfl, rfl⟩
      | positionTrimmed message => exact ⟨_, _, rfl, _, rfl, rfl⟩
      | _ => cases h

theorem handleError_unserved {e : StoreFailure} (h : e.served = false) :
    handleError e = .status 500 := by
  cases e with
  | integrityError => rfl
  | overflowError => rfl
  | loglet e =>
      cases e with
      | segmentSealed segmentId => cases h
      | entryConflict message => cases h
      | predecessorUnavailable message => cases h
      | positionTrimmed message => cases h
      | _ => rfl

/-- An exception with a handler arrives as it is. -/
theorem same_raised {e : StoreFailure} (read : HttpResponse → ClientAnswer)
    (hprotocol : ∀ code message, read (.protocolError code message) =
      .raised (HttpLogletTransport.protocolError code message))
    (hstatus : read (.status 500) = .raised (.httpStatus 500)) :
    SameOutcome (.raised e) (read (handleError e)) ↔ e.served = true := by
  cases hserved : e.served with
  | false =>
      rw [handleError_unserved hserved, hstatus]
      exact iff_of_false nofun Bool.false_ne_true
  | true =>
      obtain ⟨code, message, hhandled, e', rfl, hread⟩ := handleError_served hserved
      rw [hhandled, hprotocol, hread]
      exact iff_of_true ⟨hserved, rfl⟩ rfl

/-- A state arrives as it is if it becomes text. -/
theorem same_readState (h : answer.OfState) :
    SameOutcome answer (HttpLogletTransport.readState (respond answer)) ↔ Sendable answer := by
  cases answer with
  | raised e => exact same_raised _ (fun _ _ => rfl) rfl
  | waiting waiter => exact iff_of_true rfl trivial
  | returned value =>
      cases value with
      | entry entry => exact h.elim
      | state state =>
          rw [respond]
          split
          · next hp => exact iff_of_true rfl hp
          · next hp => exact iff_of_false nofun hp

/-- An entry arrives as it is if its payload is of UTF-8. -/
theorem same_readEntry (h : answer.OfEntry) :
    SameOutcome answer (HttpLogletTransport.readEntry (respond answer)) ↔ Sendable answer := by
  cases answer with
  | raised e => exact same_raised _ (fun _ _ => rfl) rfl
  | waiting waiter => exact h.elim
  | returned value =>
      cases value with
      | state state => exact h.elim
      | entry entry =>
          cases entry with
          | none => exact iff_of_true rfl trivial
          | some entry =>
              rw [respond, Sendable]
              cases hdump : dumpEntry entry with
              | none => exact iff_of_false (by rintro ⟨⟩) (by rintro ⟨⟩)
              | some json =>
                  refine iff_of_true ?_ rfl
                  show Returned.entry (some entry) = .entry (some (validateEntry json))
                  rw [validateEntry_dumpEntry hdump]

/-- A call that returns a state is not answered by what tells of another segment. -/
theorem apart_readState {response : HttpResponse} (habout : answer.About segmentId)
    (hstate : answer.OfState) (hapart : response.Apart segmentId) :
    ¬SameOutcome answer (HttpLogletTransport.readState response) := by
  cases response with
  | protocolError code message => exact hapart.elim
  | state state =>
      intro h
      cases answer with
      | raised e => exact h
      | waiting waiter => exact h
      | returned value =>
          cases value with
          | entry entry => exact hstate
          | state state' =>
              have hsame : Returned.state state' = .state state := h
              cases hsame
              exact hapart habout
  | pending waiter =>
      intro h
      cases answer with
      | raised e => exact h
      | returned value => exact h
      | waiting waiter' =>
          have hsame : waiter' = waiter := h
          cases hsame
          exact hapart habout
  | entry json =>
      cases answer with
      | _ => exact nofun
  | otherJson =>
      cases answer with
      | _ => exact nofun
  | status code =>
      cases answer with
      | _ => exact nofun

/-- A get is answered by what tells of another segment only if both find nothing. -/
theorem apart_readEntry {response : HttpResponse} (habout : answer.About segmentId)
    (hentry : answer.OfEntry) (hapart : response.Apart segmentId)
    (h : SameOutcome answer (HttpLogletTransport.readEntry response)) :
    answer = .returned (.entry none) ∧ response = .status 404 := by
  cases response with
  | protocolError code message => exact hapart.elim
  | status code =>
      by_cases hcode : code = 404
      · subst hcode
        cases answer with
        | raised e => exact h.elim
        | waiting waiter => exact h.elim
        | returned value =>
            have hsame : value = .entry none := h
            rw [hsame]
            exact ⟨rfl, rfl⟩
      · rw [HttpLogletTransport.readEntry, if_neg hcode] at h
        cases answer with
        | _ => exact h.elim
  | entry json =>
      cases answer with
      | raised e => exact h.elim
      | waiting waiter => exact h.elim
      | returned value =>
          have hsame : value = .entry (some (validateEntry json)) := h
          rw [hsame] at habout
          exact absurd habout hapart
  | state state =>
      cases answer with
      | _ => exact h.elim
  | otherJson =>
      cases answer with
      | _ => exact h.elim
  | pending waiter =>
      cases answer with
      | returned value => exact h.elim
      | raised e => exact h.elim
      | waiting waiter => exact hentry.elim

/-- An answer about one segment, and of no LogletError, makes a response apart from another. -/
theorem apart_respond (habout : answer.About segmentId')
    (hserved : ∀ e, answer = .raised e → e.served = false) (hne : segmentId' ≠ segmentId) :
    (respond answer).Apart segmentId := by
  cases answer with
  | raised e =>
      rw [respond, handleError_unserved (hserved e rfl)]
      trivial
  | waiting waiter => exact fun h => hne (habout.symm.trans h)
  | returned value =>
      cases value with
      | state state =>
          rw [respond]
          split
          · exact fun h => hne (habout.symm.trans h)
          · trivial
      | entry entry =>
          cases entry with
          | none => trivial
          | some entry =>
              rw [respond]
              cases hdump : dumpEntry entry with
              | none => trivial
              | some json =>
                  have hentry := validateEntry_dumpEntry hdump
                  have hid : json.segmentId = entry.segmentId :=
                    congrArg LogEntry.segmentId hentry
                  exact fun h => hne (habout.symm.trans (hid.symm.trans h))

/-- Only a get is answered with 404. -/
theorem respond_ne_404 (h : answer.OfState) : respond answer ≠ .status 404 := by
  cases answer with
  | waiting waiter => exact nofun
  | raised e =>
      rw [respond]
      cases hserved : e.served with
      | false =>
          rw [handleError_unserved hserved]
          exact fun heq => absurd (HttpResponse.status.inj heq) (by decide)
      | true =>
          obtain ⟨code, message, hhandled, -⟩ := handleError_served hserved
          rw [hhandled]
          exact nofun
  | returned value =>
      cases value with
      | entry entry => exact h.elim
      | state state =>
          rw [respond]
          split
          · exact nofun
          · exact fun heq => absurd (HttpResponse.status.inj heq) (by decide)

end Answers

/-! ## What the stores give -/

/-- What both stores keep to. -/
structure WholeStore.Lawful (K : WholeStore) : Prop where
  state_segment : ∀ store segmentId knownTail,
    (K.state store segmentId knownTail).2.segmentId = segmentId
  get_segment : ∀ {store segmentId position knownTail entry},
    (K.get store segmentId position knownTail).2 = .ok (some entry) → entry.segmentId = segmentId
  get_served : ∀ {store segmentId position knownTail e},
    (K.get store segmentId position knownTail).2 = .error e → e.served = false
  trim_served : ∀ {store segmentId trimPosition e},
    (K.prefixTrim store segmentId trimPosition).2 = .error e → e.served = false
  put_get : ∀ {store entry knownTail}, (K.put store entry knownTail).2 = .ok () →
    ∀ observed knownTail', (K.get (K.state (K.put store entry knownTail).1 entry.segmentId
      observed).1 entry.segmentId entry.position knownTail').2 = .ok (some entry)

theorem entryAt_insert_self {s : LogletStore} {entry : LogEntry}
    (h : s.entryAt entry.position = none) :
    (s.insert entry).entryAt entry.position = some entry := by
  rw [LogletStore.entryAt] at h
  rw [LogletStore.entryAt, LogletStore.insert, List.find?_append, h]
  simp

/-- A put that is accepted leaves its entry at its position. -/
theorem memory_put_entryAt {s : LogletStore} {entry : LogEntry} {n : Nat}
    (h : (MemoryLogletStore.put s entry n).2 = .ok ()) :
    (MemoryLogletStore.put s entry n).1.entryAt entry.position = some entry := by
  rw [MemoryLogletStore.put] at h ⊢
  generalize s.observeKnownTail n = s at h ⊢
  split at h
  · cases h
  · next hopen =>
      rw [if_neg hopen]
      cases hat : s.entryAt entry.position with
      | some existing =>
          simp only [hat] at h ⊢
          split at h
          · cases h
          · next heq =>
              rw [if_neg heq, hat, not_not.mp heq]
      | none =>
          simp only [hat] at h ⊢
          split at h
          · cases h
          · next hpred =>
              rw [if_neg hpred]
              rw [memory_write_free hat] at h ⊢
              split at h
              · cases h
              · next htrimmed =>
                  rw [if_neg htrimmed]
                  exact entryAt_insert_self hat

/-- So does one that SQLite accepts, and it can bind the position. -/
theorem sqlite_put_entryAt {s : LogletStore} {entry : LogEntry}
    (h : (SqliteStore.writeRows s entry true true).2 = .ok ()) :
    (SqliteStore.writeRows s entry true true).1.entryAt entry.position = some entry ∧
      Int64 entry.position := by
  rw [SqliteStore.writeRows] at h ⊢
  split at h
  · cases h
  next hfits =>
    rw [if_neg hfits]
    rw [SQLiteLogletStore.write] at h ⊢
    split at h
    · cases h
    next hopen =>
      split at h
      · cases h
      next htrimmed =>
        have hbound : Int64 entry.position := by
          by_contra hn
          exact hfits ⟨hopen, Nat.not_lt.mp htrimmed, hn⟩
        rw [if_neg hopen, if_neg htrimmed]
        refine ⟨?_, hbound⟩
        cases hat : s.entryAt entry.position with
        | some existing =>
            simp only [hat] at h ⊢
            split at h
            · cases h
            · next heq => rw [if_neg heq, hat, not_not.mp heq]
        | none =>
            simp only [hat] at h ⊢
            split at h
            · cases h
            next hpred =>
              rw [if_neg hpred]
              cases hcommand : s.positionForCommand entry.commandId with
              | none => exact entryAt_insert_self hat
              | some commandPosition =>
                  simp only [hcommand] at h ⊢
                  split at h
                  · cases h
                  · next heq =>
                      rw [if_neg heq]
                      exact entryAt_insert_self hat

theorem MemoryStore.getAt_segment {store : MemoryStore} {segmentId : String} {position : Int}
    {knownTail : Nat} {entry : LogEntry}
    (h : (store.getAt segmentId position knownTail).2 = some entry) :
    entry.segmentId = segmentId := by
  rw [getAt] at h
  split at h
  · cases h
  · have hfound := List.find?_some h
    exact (of_decide_eq_true hfound).1

theorem SqliteStore.entryAt_segment {store : SqliteStore} {segmentId : String} {position : Int}
    {entry : LogEntry} (h : store.entryAt segmentId position = .ok (some entry)) :
    entry.segmentId = segmentId := by
  rw [entryAt] at h
  split at h
  · cases h
  split at h
  · cases h
  · have hfound := List.find?_some (Except.ok.inj h)
    exact (of_decide_eq_true hfound).1

theorem SqliteStore.entryAt_unserved {store : SqliteStore} {segmentId : String} {position : Int}
    {e : StoreFailure} (h : store.entryAt segmentId position = .error e) : e.served = false := by
  rw [entryAt] at h
  split at h
  · cases h
    rfl
  split at h
  · cases h
  · cases h

theorem SqliteStore.prefixTrim_unserved {store : SqliteStore} {segmentId : String}
    {trimPosition : Int} {e : StoreFailure}
    (h : (store.prefixTrim segmentId trimPosition).2 = .error e) : e.served = false := by
  rw [prefixTrim] at h
  split at h
  · cases h
    rfl
  split at h
  · cases h
    rfl
  · cases h

theorem MemoryStore.put_get {store : MemoryStore} {entry : LogEntry} {knownTail : Nat}
    (h : (store.put entry knownTail).2 = .ok ()) (observed knownTail' : Nat) :
    (((store.put entry knownTail).1.observeKnownTail entry.segmentId observed).getAt
      entry.segmentId entry.position knownTail').2 = some entry := by
  obtain ⟨hrows, hresult⟩ := @MemoryStore.segment_put store entry knownTail
  have hat : (store.put entry knownTail).1.entry entry.segmentId entry.position = some entry := by
    rw [MemoryStore.entry_eq, hrows, Function.update_self]
    exact memory_put_entryAt (hresult.symm.trans h)
  rw [getAt, if_neg (Int.not_lt.mpr (Int.natCast_nonneg _)), Int.toNat_natCast]
  exact hat

theorem SqliteStore.put_get {store : SqliteStore} {entry : LogEntry} {knownTail : Nat}
    (h : (store.put entry knownTail).2 = .ok ()) :
    (store.put entry knownTail).1.entryAt entry.segmentId entry.position = .ok (some entry) := by
  obtain ⟨hrows, hresult⟩ := @SqliteStore.write_rows_observed store entry knownTail true true
  obtain ⟨hat, hfits⟩ := sqlite_put_entryAt (hresult.symm.trans h)
  have hrow : (store.put entry knownTail).1.tables.entryRow entry.segmentId entry.position =
      some entry := by
    have heq := congrFun hrows entry.segmentId
    rw [Function.update_self] at heq
    rw [← heq] at hat
    exact (Sql.Tables.entryRow_eq _ _ _ _).trans hat
  rw [entryAt, if_neg (not_not_intro hfits), if_neg (Int.not_lt.mpr (Int.natCast_nonneg _)),
    Int.toNat_natCast, hrow]

theorem mapError_ok {r : Except Error Unit} (h : r.mapError StoreFailure.loglet = .ok ()) :
    r = .ok () := by
  cases r with
  | error e => cases h
  | ok value => rfl

theorem lawful_memory : StoreKind.memory.whole.Lawful where
  state_segment := fun _ _ _ => rfl
  get_segment := fun h => MemoryStore.getAt_segment (Except.ok.inj h)
  get_served := fun h => nomatch h
  trim_served := by
    intro store segmentId trimPosition e h
    have hok := (@MemoryStore.segment_prefixTrim store segmentId trimPosition).2
    have hresult := (congrArg (Except.mapError StoreFailure.loglet) hok).symm.trans h
    cases hresult
  put_get := fun h observed knownTail' =>
    congrArg Except.ok (MemoryStore.put_get (mapError_ok h) observed knownTail')

theorem lawful_sqlite : StoreKind.sqlite.whole.Lawful where
  state_segment := fun store segmentId knownTail =>
    congrArg LogServerState.segmentId (@SqliteStore.state_eq store segmentId knownTail)
  get_segment := fun h => SqliteStore.entryAt_segment h
  get_served := fun h => SqliteStore.entryAt_unserved h
  trim_served := fun h => SqliteStore.prefixTrim_unserved h
  put_get := fun h _ _ => SqliteStore.put_get h

theorem StoreKind.lawful : (kind : StoreKind) → kind.whole.Lawful
  | .memory => lawful_memory
  | .sqlite => lawful_sqlite

/-! ## The endpoints -/

section Endpoints

variable {K : WholeStore} {store : K.Held} {segmentId segmentId' : String} {knownTail : Nat}

/-- What a call of a segment answers: about that segment, and a state. -/
def StateOf (segmentId : String) (answer : ServerAnswer) : Prop :=
  answer.About segmentId ∧ answer.OfState

theorem stateOf_report (hK : K.Lawful) (store : K.Held) (segmentId : String) (knownTail : Nat) :
    StateOf segmentId (K.report store segmentId knownTail).2 :=
  ⟨hK.state_segment store segmentId knownTail, trivial⟩

theorem stateOf_servePut (hK : K.Lawful) (store : K.Held) (entry : LogEntry) (knownTail : Nat) :
    StateOf entry.segmentId (K.servePut store entry knownTail).2 := by
  rw [WholeStore.servePut]
  split
  · exact stateOf_report hK _ _ _
  · exact ⟨trivial, trivial⟩

theorem stateOf_serveRepair (hK : K.Lawful) (store : K.Held) (entry : LogEntry)
    (knownTail : Nat) : StateOf entry.segmentId (K.serveRepair store entry knownTail).2 := by
  rw [WholeStore.serveRepair]
  split
  · exact stateOf_report hK _ _ _
  · exact ⟨trivial, trivial⟩

theorem stateOf_servePrefixTrim (hK : K.Lawful) (store : K.Held) (segmentId : String)
    (trimPosition : Nat) :
    StateOf segmentId (K.servePrefixTrim store segmentId trimPosition).2 := by
  rw [WholeStore.servePrefixTrim]
  split
  · exact stateOf_report hK _ _ _
  · exact ⟨trivial, trivial⟩

theorem stateOf_serveWait (hK : K.Lawful) (waiter : Waiter) (wakes : List K.Held) :
    ∀ store, StateOf waiter.segmentId (K.serveWait waiter store wakes).2 := by
  induction wakes with
  | nil =>
      intro store
      rw [WholeStore.serveWait]
      split
      · exact ⟨hK.state_segment _ _ _, trivial⟩
      · exact ⟨rfl, trivial⟩
  | cons woken wakes ih =>
      intro store
      rw [WholeStore.serveWait]
      split
      · exact ⟨hK.state_segment _ _ _, trivial⟩
      · exact ih woken

theorem about_serveGet (hK : K.Lawful) (store : K.Held) (segmentId : String) (position : Int)
    (knownTail : Nat) : (K.serveGet store segmentId position knownTail).2.About segmentId ∧
      (K.serveGet store segmentId position knownTail).2.OfEntry := by
  rw [WholeStore.serveGet]
  split
  · next store' entry hget =>
      cases entry with
      | none => exact ⟨trivial, trivial⟩
      | some entry => exact ⟨hK.get_segment (congrArg Prod.snd hget), trivial⟩
  · exact ⟨trivial, trivial⟩

/-- A report raises nothing, so what raises before it is what a call raises. -/
theorem report_raised {e : StoreFailure} :
    (K.report store segmentId knownTail).2 ≠ .raised e := nofun

theorem serveWait_raised (waiter : Waiter) (wakes : List K.Held) :
    ∀ store e, (K.serveWait waiter store wakes).2 ≠ .raised e := by
  induction wakes with
  | nil =>
      intro store e
      rw [WholeStore.serveWait]
      split
      · exact nofun
      · exact nofun
  | cons woken wakes ih =>
      intro store e
      rw [WholeStore.serveWait]
      split
      · exact nofun
      · exact ih woken e

theorem serveGet_unserved (hK : K.Lawful) {position : Int} {e : StoreFailure}
    (h : (K.serveGet store segmentId position knownTail).2 = .raised e) : e.served = false := by
  rw [WholeStore.serveGet] at h
  split at h
  · cases h
  · next store' e' hget =>
      cases h
      exact hK.get_served (congrArg Prod.snd hget)

theorem servePrefixTrim_unserved (hK : K.Lawful) {trimPosition : Nat} {e : StoreFailure}
    (h : (K.servePrefixTrim store segmentId trimPosition).2 = .raised e) : e.served = false := by
  rw [WholeStore.servePrefixTrim] at h
  split at h
  · exact absurd h report_raised
  · next store' e' htrim =>
      cases h
      exact hK.trim_served (congrArg Prod.snd htrim)

/-- A request that an endpoint serves for another segment: the entry in its body is of its own
one, so no write is served. -/
theorem endpoint_apart (hK : K.Lawful) (endpoint : Endpoint) (number : Int) {body : RequestBody}
    (hbody : ∀ json knownTail, body = .write json knownTail → json.segmentId = segmentId)
    (hne : segmentId' ≠ segmentId) (wakes : List K.Held) :
    (K.endpoint store endpoint segmentId' number knownTail body wakes).2.Apart segmentId := by
  have hmismatch : ∀ {json knownTail}, body = .write json knownTail → ∀ answer,
      (validatePath store (validateEntry json) segmentId' number answer).2.Apart segmentId := by
    intro json knownTail hwrite answer
    have hid : (validateEntry json).segmentId ≠ segmentId' := by
      intro h
      exact hne (h.symm.trans (hbody json knownTail hwrite))
    rw [validatePath, if_pos (.inl hid)]
    trivial
  cases endpoint with
  | putEntry =>
      cases hwrite : body with
      | write json knownTail => exact hmismatch hwrite _
      | knownTail knownTail => trivial
      | none => trivial
  | repairEntry =>
      cases hwrite : body with
      | write json knownTail => exact hmismatch hwrite _
      | knownTail knownTail => trivial
      | none => trivial
  | getEntry =>
      exact apart_respond (about_serveGet hK _ _ _ _).1 (fun e h => serveGet_unserved hK h) hne
  | sealSegment =>
      cases body with
      | write json knownTail => trivial
      | knownTail knownTail =>
          exact apart_respond (stateOf_report hK _ _ _).1 (fun e h => absurd h report_raised) hne
      | none => trivial
  | prefixTrimSegment =>
      rw [WholeStore.endpoint]
      split
      · trivial
      · exact apart_respond (stateOf_servePrefixTrim hK _ _ _).1
          (fun e h => servePrefixTrim_unserved hK h) hne
  | getState =>
      exact apart_respond (stateOf_report hK _ _ _).1 (fun e h => absurd h report_raised) hne
  | waitForTail =>
      rw [WholeStore.endpoint]
      split
      · trivial
      · exact apart_respond (stateOf_serveWait hK _ _ _).1
          (fun e h => absurd h (serveWait_raised _ _ _ e)) hne

/-- Only the endpoint of a get answers 404. -/
theorem endpoint_404 (hK : K.Lawful) {endpoint : Endpoint} {number : Int} {body : RequestBody}
    {wakes : List K.Held}
    (h : (K.endpoint store endpoint segmentId number knownTail body wakes).2 = .status 404) :
    endpoint = .getEntry := by
  have h422 : HttpResponse.status 422 ≠ .status 404 :=
    fun h => absurd (HttpResponse.status.inj h) (by decide)
  have hpath : ∀ entry answer, StateOf entry.segmentId answer.2 →
      (validatePath store entry segmentId number answer).2 ≠ .status 404 := by
    intro entry answer hstate
    rw [validatePath]
    split
    · exact h422
    · exact respond_ne_404 hstate.2
  cases endpoint with
  | getEntry => rfl
  | putEntry =>
      cases body with
      | write json knownTail => exact absurd h (hpath _ _ (stateOf_servePut hK _ _ _))
      | knownTail knownTail => exact absurd h h422
      | none => exact absurd h h422
  | repairEntry =>
      cases body with
      | write json knownTail => exact absurd h (hpath _ _ (stateOf_serveRepair hK _ _ _))
      | knownTail knownTail => exact absurd h h422
      | none => exact absurd h h422
  | sealSegment =>
      cases body with
      | write json knownTail => exact absurd h h422
      | knownTail knownTail => exact absurd h (respond_ne_404 (stateOf_report hK _ _ _).2)
      | none => exact absurd h h422
  | prefixTrimSegment =>
      rw [WholeStore.endpoint] at h
      split at h
      · exact absurd h h422
      · exact absurd h (respond_ne_404 (stateOf_servePrefixTrim hK _ _ _).2)
  | getState => exact absurd h (respond_ne_404 (stateOf_report hK _ _ _).2)
  | waitForTail =>
      rw [WholeStore.endpoint] at h
      split at h
      · exact absurd h h422
      · exact absurd h (respond_ne_404 (stateOf_serveWait hK _ _ _).2)

end Endpoints

/-! ## One call -/

section Calls

open HttpLogletTransport

variable {web : WebLayer} {K : WholeStore} {store : K.Held} {segmentId : String}
  {number knownTail : Nat}

/-- What a client reads of a request that reached no endpoint is of no segment. -/
theorem refusalAnswer_eq (read : HttpResponse → ClientAnswer) (refusal : Refusal) :
    refusalAnswer read refusal = .raised .request ∨
      ∃ code, refusalAnswer read refusal = read (.status code) := by
  cases refusal with
  | invalidUrl => exact .inl rfl
  | redirect => exact .inr ⟨_, rfl⟩
  | notFound => exact .inr ⟨_, rfl⟩
  | methodNotAllowed => exact .inr ⟨_, rfl⟩
  | unprocessable => exact .inr ⟨_, rfl⟩

theorem not_same_request (answer : ServerAnswer) : ¬SameOutcome answer (.raised .request) := by
  cases answer with
  | _ => exact nofun

/-- A request that reaches no endpoint is no answer to a call that returns a state. -/
theorem refused_readState {answer : ServerAnswer} (hstate : StateOf segmentId answer)
    (refusal : Refusal) : ¬SameOutcome answer (refusalAnswer readState refusal) := by
  rcases refusalAnswer_eq readState refusal with hraised | ⟨code, hread⟩
  · rw [hraised]
    exact not_same_request answer
  · have hapart : HttpResponse.Apart segmentId (.status code) := trivial
    rw [hread]
    exact apart_readState hstate.1 hstate.2 hapart

/-- A request for a state agrees with the direct call exactly if its URL leads to its endpoint
and the answer becomes a response. -/
theorem send_agrees (hweb : web.Documented) (hK : K.Lawful) {endpoint : Endpoint}
    {body : RequestBody} {wakes : List K.Held} {direct : K.Held × ServerAnswer}
    (hstate : StateOf segmentId direct.2)
    (hown : K.endpoint store endpoint segmentId number knownTail body wakes =
      direct.map id respond)
    (hbody : ∀ json knownTail, body = .write json knownTail → json.segmentId = segmentId) :
    ((send web store endpoint segmentId number knownTail body wakes readState).1 = direct.1 ∧
      SameOutcome direct.2
        (send web store endpoint segmentId number knownTail body wakes readState).2) ↔
      web.Carries endpoint segmentId number knownTail ∧ Sendable direct.2 := by
  rw [send, WebLayer.Carries]
  cases hroute : web.route endpoint segmentId number knownTail with
  | endpoint endpoint' segmentId' number' knownTail' =>
      by_cases hid : segmentId' = segmentId
      · subst hid
        obtain ⟨rfl, rfl, rfl⟩ := hweb.own hroute
        simp only [hown, true_and]
        refine Iff.trans ?_ (same_readState hstate.2)
        exact ⟨fun h => h.2, fun h => ⟨rfl, h⟩⟩
      · refine iff_of_false (fun h => ?_) fun h => ?_
        · exact apart_readState hstate.1 hstate.2 (endpoint_apart hK _ _ hbody hid _) h.2
        · injection h.1 with _ h
          exact hid h
  | elsewhere =>
      have hapart : HttpResponse.Apart segmentId .otherJson := trivial
      exact iff_of_false (fun h => apart_readState hstate.1 hstate.2 hapart h.2) nofun
  | refused refusal => exact iff_of_false (fun h => refused_readState hstate refusal h.2) nofun

theorem respond_eq_404 {answer : ServerAnswer} (h : respond answer = .status 404) :
    answer = .returned (.entry none) := by
  cases answer with
  | waiting waiter => cases h
  | raised e => exact absurd h (respond_ne_404 trivial)
  | returned value =>
      cases value with
      | state state => exact absurd h (respond_ne_404 trivial)
      | entry entry =>
          cases entry with
          | none => rfl
          | some entry =>
              rw [respond] at h
              cases hdump : dumpEntry entry with
              | none =>
                  rw [hdump] at h
                  exact absurd (HttpResponse.status.inj h) (by decide)
              | some json =>
                  rw [hdump] at h
                  cases h

/-- Of the requests that reach no endpoint, only one that finds no route looks like a get that
finds nothing. -/
theorem refused_readEntry {answer : ServerAnswer} {refusal : Refusal}
    (h : SameOutcome answer (refusalAnswer readEntry refusal)) :
    refusal = .notFound ∧ answer = .returned (.entry none) := by
  cases answer with
  | raised e =>
      cases refusal with
      | _ => exact h.elim
  | waiting waiter =>
      cases refusal with
      | _ => exact h.elim
  | returned value =>
      cases refusal with
      | notFound =>
          have hsame : value = .entry none := h
          rw [hsame]
          exact ⟨rfl, rfl⟩
      | _ => exact h.elim

/-- A request for an entry agrees with the direct call also where both find nothing. -/
theorem send_get_agrees (hweb : web.Documented) (hK : K.Lawful) {position : Nat} :
    let direct := K.serveGet store segmentId position knownTail
    let sent := send web store .getEntry segmentId position knownTail .none [] readEntry
    (sent.1 = direct.1 ∧ SameOutcome direct.2 sent.2) ↔
      web.Carries .getEntry segmentId position knownTail ∧ Sendable direct.2 ∨
        MissedAlike web K store segmentId position knownTail := by
  intro direct sent
  obtain ⟨habout, hentry⟩ := about_serveGet hK store segmentId position knownTail
  have hmissed : ∀ {response : HttpResponse}, response.Apart segmentId →
      SameOutcome direct.2 (readEntry response) →
        direct.2 = .returned (.entry none) ∧ response = .status 404 :=
    fun hapart h => apart_readEntry habout hentry hapart h
  simp only [sent, send, WebLayer.Carries, MissedAlike]
  cases hroute : web.route .getEntry segmentId position knownTail with
  | endpoint endpoint' segmentId' number' knownTail' =>
      by_cases hid : segmentId' = segmentId
      · subst hid
        obtain ⟨rfl, rfl, rfl⟩ := hweb.own hroute
        constructor
        · rintro ⟨-, hsame⟩
          exact .inl ⟨rfl, (same_readEntry hentry).mp hsame⟩
        · intro h
          refine ⟨rfl, (same_readEntry hentry).mpr ?_⟩
          rcases h with ⟨-, hsendable⟩ | ⟨hnone, -⟩
          · exact hsendable
          · rw [hnone]
            trivial
      · have hapart : (K.endpoint store endpoint' segmentId' number' knownTail' .none []).2.Apart
            segmentId := endpoint_apart hK endpoint' number' (by rintro _ _ ⟨⟩) hid []
        constructor
        · rintro ⟨hstore, hsame⟩
          obtain ⟨hnone, h404⟩ := hmissed hapart hsame
          obtain rfl := endpoint_404 hK h404
          exact .inr ⟨hnone, Prod.ext hstore ((respond_eq_404 h404).trans hnone.symm)⟩
        · rintro (⟨h, -⟩ | ⟨hnone, h⟩)
          · injection h with _ h
            exact absurd h hid
          · cases endpoint' with
            | getEntry =>
                change (K.serveGet store segmentId' number' knownTail').1 = direct.1 ∧
                  SameOutcome direct.2
                    (readEntry (respond (K.serveGet store segmentId' number' knownTail').2))
                rw [h]
                refine ⟨rfl, ?_⟩
                rw [hnone]
                rfl
            | _ => exact h.elim
  | elsewhere =>
      have hapart : HttpResponse.Apart segmentId .otherJson := trivial
      refine iff_of_false (fun h => ?_) ?_
      · obtain ⟨-, h404⟩ := hmissed hapart h.2
        cases h404
      · rintro (⟨h, -⟩ | ⟨-, h⟩)
        · cases h
        · exact h
  | refused refusal =>
      constructor
      · rintro ⟨hstore, hsame⟩
        obtain ⟨rfl, hnone⟩ := refused_readEntry hsame
        exact .inr ⟨hnone, hstore.symm⟩
      · rintro (⟨h, -⟩ | ⟨hnone, h⟩)
        · cases h
        · cases refusal with
          | notFound =>
              refine ⟨h.symm, ?_⟩
              rw [hnone]
              rfl
          | _ => exact h.elim

end Calls

section Agreement

open HttpLogletTransport

variable {web : WebLayer} {K : WholeStore} {store : K.Held}

/-- A request that is not sent agrees with nothing. -/
theorem not_agrees_request {c : TransportCall K.Held}
    (h : call web store c = (store, .raised .request)) : ¬TransportsAgree web K store c := by
  rintro ⟨-, hsame⟩
  rw [h] at hsame
  exact not_same_request _ hsame

/-- The entry in the body of a write is the one of its URL. -/
theorem validatePath_own {entry : LogEntry} {json : EntryJson}
    (hdump : dumpEntry entry = some json) (answer : LogEntry → K.Held × ServerAnswer) :
    validatePath store (validateEntry json) entry.segmentId entry.position
      (answer (validateEntry json)) = (answer entry).map id respond := by
  rw [validateEntry_dumpEntry hdump, validatePath, if_neg]
  rintro (h | h)
  · exact h rfl
  · exact h rfl

theorem segmentId_dumpEntry {entry : LogEntry} {json : EntryJson}
    (hdump : dumpEntry entry = some json) : json.segmentId = entry.segmentId :=
  congrArg LogEntry.segmentId (validateEntry_dumpEntry hdump)

/-- A write agrees with the direct call exactly if it is carried. -/
theorem sendWrite_agrees (hweb : web.Documented) (hK : K.Lawful) (endpoint : Endpoint)
    (entry : LogEntry) (knownTail : Nat) {direct : K.Held × ServerAnswer}
    (hstate : StateOf entry.segmentId direct.2)
    (hown : ∀ json, dumpEntry entry = some json → K.endpoint store endpoint entry.segmentId
      entry.position 0 (.write json knownTail) [] = direct.map id respond) :
    ((sendWrite web store endpoint entry knownTail).1 = direct.1 ∧
      SameOutcome direct.2 (sendWrite web store endpoint entry knownTail).2) ↔
      (dumpEntry entry).isSome = true ∧ Printable knownTail ∧
        web.Carries endpoint entry.segmentId entry.position 0 ∧ Sendable direct.2 := by
  rw [sendWrite]
  cases hdump : dumpEntry entry with
  | none => exact iff_of_false (fun h => not_same_request _ h.2) nofun
  | some json =>
      by_cases hk : Printable knownTail
      · simp only [Option.isSome_some, true_and, hk]
        refine send_agrees hweb hK hstate (hown json hdump) ?_
        rintro json' knownTail' ⟨⟩
        exact segmentId_dumpEntry hdump
      · simp only [if_neg hk]
        exact iff_of_false (fun h => not_same_request _ h.2) fun h => hk h.2.1

/-- A call without an entry agrees with the direct one exactly if it is carried. -/
theorem send_printed_agrees (hweb : web.Documented) (hK : K.Lawful) {c : TransportCall K.Held}
    {printable : Prop} [Decidable printable] {endpoint : Endpoint} {segmentId : String}
    {number knownTail : Nat} {body : RequestBody} {wakes : List K.Held}
    (hbody : ∀ json knownTail, body ≠ .write json knownTail)
    (hcall : call web store c = if printable then
      send web store endpoint segmentId number knownTail body wakes readState
        else (store, .raised .request))
    (hstate : StateOf segmentId (DirectLogletTransport.call K store c).2)
    (hown : K.endpoint store endpoint segmentId number knownTail body wakes =
      (DirectLogletTransport.call K store c).map id respond) :
    TransportsAgree web K store c ↔
      printable ∧ web.Carries endpoint segmentId number knownTail ∧
        Sendable (DirectLogletTransport.call K store c).2 := by
  by_cases hp : printable
  · rw [if_pos hp] at hcall
    rw [TransportsAgree, hcall, and_iff_right hp]
    exact send_agrees hweb hK hstate hown fun json k h => absurd h (hbody json k)
  · rw [if_neg hp] at hcall
    exact iff_of_false (not_agrees_request hcall) fun h => hp h.1

/-- The transports agree on a call exactly if its requests and responses carry all of it. -/
theorem agree_iff_carried (hweb : web.Documented) (hK : K.Lawful) (c : TransportCall K.Held) :
    TransportsAgree web K store c ↔ Carried web K store c := by
  cases c with
  | put entry knownTail =>
      exact sendWrite_agrees hweb hK .putEntry entry knownTail (stateOf_servePut hK _ _ _)
        fun json hdump => validatePath_own hdump fun entry => K.servePut store entry knownTail
  | repair entry knownTail =>
      exact sendWrite_agrees hweb hK .repairEntry entry knownTail (stateOf_serveRepair hK _ _ _)
        fun json hdump => validatePath_own hdump fun entry => K.serveRepair store entry knownTail
  | get segmentId position knownTail =>
      by_cases hp : Printable position ∧ Printable knownTail
      · have hcall : call web store (.get segmentId position knownTail) = send web store .getEntry
            segmentId position knownTail .none [] readEntry := if_pos hp
        rw [TransportsAgree, hcall, Carried, and_iff_right hp]
        exact send_get_agrees hweb hK
      · exact iff_of_false (not_agrees_request (if_neg hp)) fun h => hp h.1
  | «seal» segmentId knownTail =>
      exact send_printed_agrees hweb hK (by rintro _ _ ⟨⟩) rfl (stateOf_report hK _ _ _) rfl
  | prefixTrim segmentId trimPosition =>
      have hown : K.endpoint store .prefixTrimSegment segmentId trimPosition 0 .none [] =
          (K.servePrefixTrim store segmentId trimPosition).map id respond := by
        rw [WholeStore.endpoint, if_neg (Int.not_lt.mpr (Int.natCast_nonneg _)),
          Int.toNat_natCast]
      exact send_printed_agrees hweb hK (by rintro _ _ ⟨⟩) rfl
        (stateOf_servePrefixTrim hK _ _ _) hown
  | state segmentId knownTail =>
      exact send_printed_agrees hweb hK (by rintro _ _ ⟨⟩) rfl (stateOf_report hK _ _ _) rfl
  | waitForTail segmentId localTail knownTail wakes =>
      have hown : K.endpoint store .waitForTail segmentId localTail knownTail .none wakes =
          (K.serveWait ⟨segmentId, localTail, knownTail⟩ store wakes).map id respond := by
        rw [WholeStore.endpoint, if_neg (Int.not_lt.mpr (Int.natCast_nonneg _)),
          Int.toNat_natCast]
      exact send_printed_agrees hweb hK (by rintro _ _ ⟨⟩) rfl (stateOf_serveWait hK _ _ _) hown

theorem readState_handleError (e : StoreFailure) (value : Returned) :
    readState (handleError e) ≠ .returned value := by
  cases hserved : e.served with
  | false =>
      rw [handleError_unserved hserved]
      exact nofun
  | true =>
      obtain ⟨code, message, hhandled, -⟩ := handleError_served hserved
      rw [hhandled]
      exact nofun

/-- A put that has returned is one that the server has made. -/
theorem put_returned {entry : LogEntry} {knownTail : Nat} {value : Returned}
    (hcarries : web.Carries .putEntry entry.segmentId entry.position 0)
    (h : (call web store (.put entry knownTail)).2 = .returned value) :
    (dumpEntry entry).isSome = true ∧ (K.put store entry knownTail).2 = .ok () ∧
      (call web store (.put entry knownTail)).1 =
        (K.state (K.put store entry knownTail).1 entry.segmentId knownTail).1 := by
  rw [call, sendWrite] at h ⊢
  cases hdump : dumpEntry entry with
  | none =>
      rw [hdump] at h
      cases h
  | some json =>
      rw [hdump] at h
      simp only at h ⊢
      split at h
      · next hk =>
          have hown : K.endpoint store .putEntry entry.segmentId entry.position 0
              (.write json knownTail) [] = (K.servePut store entry knownTail).map id respond :=
            validatePath_own hdump fun entry => K.servePut store entry knownTail
          rw [if_pos hk, send, hcarries]
          rw [send, hcarries] at h
          simp only [hown] at h ⊢
          rw [WholeStore.servePut] at h ⊢
          cases hput : K.put store entry knownTail with
          | mk store' result =>
              rw [hput] at h
              cases result with
              | ok value => exact ⟨rfl, rfl, rfl⟩
              | error e => exact absurd h (readState_handleError e value)
      · cases h

/-- What a put by HTTP has written is what a get by HTTP returns. -/
theorem read_back (hK : K.Lawful) {entry : LogEntry} {knownTail knownTail' : Nat}
    {value : Returned} (hput : web.Carries .putEntry entry.segmentId entry.position 0)
    (hget : web.Carries .getEntry entry.segmentId entry.position knownTail')
    (hprintable : Printable knownTail')
    (h : (call web store (.put entry knownTail)).2 = .returned value) :
    (call web (call web store (.put entry knownTail)).1
      (.get entry.segmentId entry.position knownTail')).2 = .returned (.entry (some entry)) := by
  obtain ⟨hdump, hok, hstore⟩ := put_returned hput h
  obtain ⟨json, hjson⟩ := Option.isSome_iff_exists.mp hdump
  have hposition : Printable entry.position := by
    by_contra hn
    rw [dumpEntry, if_neg hn] at hjson
    cases hjson
  have hfound := hK.put_get hok knownTail knownTail'
  rw [hstore]
  generalize (K.state (K.put store entry knownTail).1 entry.segmentId knownTail).1 = store'
    at hfound ⊢
  have hserved : (K.serveGet store' entry.segmentId entry.position knownTail').2 =
      .returned (.entry (some entry)) := by
    rw [WholeStore.serveGet]
    cases hresult : K.get store' entry.segmentId entry.position knownTail' with
    | mk store'' result =>
        rw [hresult] at hfound
        cases hfound
        rfl
  rw [call, if_pos ⟨hposition, hprintable⟩, send, hget]
  show readEntry (respond (K.serveGet store' entry.segmentId entry.position knownTail').2) = _
  rw [hserved, respond, hjson]
  show ClientAnswer.returned (.entry (some (validateEntry json))) = _
  rw [validateEntry_dumpEntry hjson]

/-- By HTTP, a call leaves the server in the same state and has the same outcome as called
directly exactly if its requests and responses carry all that it is made of, and what a put has
written is read back. -/
theorem transports_agree_iff (hweb : web.Documented) (kind : StoreKind)
    (store : kind.whole.Held) :
    (∀ c, TransportsAgree web kind.whole store c ↔ Carried web kind.whole store c) ∧
      ∀ entry knownTail knownTail' value, Printable knownTail' →
        web.Carries .putEntry entry.segmentId entry.position 0 →
        web.Carries .getEntry entry.segmentId entry.position knownTail' →
        (call web store (.put entry knownTail)).2 = .returned value →
        (call web (call web store (.put entry knownTail)).1
          (.get entry.segmentId entry.position knownTail')).2 =
            .returned (.entry (some entry)) :=
  ⟨agree_iff_carried hweb kind.lawful, fun _ _ _ _ hprintable hput hget h =>
    read_back kind.lawful hput hget hprintable h⟩

/-! ## Segments of letters, digits and marks that no URL escapes -/

/-- A segment that is one part of a path as it stands. -/
def PlainSegment (segmentId : String) : Prop :=
  segmentId ≠ "" ∧ segmentId ≠ "." ∧ segmentId ≠ ".." ∧
    ∀ c ∈ segmentId.toList, c.isAlphanum = true ∨ c ∈ ['-', '.', '_', '~']

instance (segmentId : String) : Decidable (PlainSegment segmentId) :=
  letI := List.decidableBAll (fun c : Char => c.isAlphanum = true ∨ c ∈ ['-', '.', '_', '~'])
    segmentId.toList
  inferInstanceAs (Decidable (_ ∧ _))

/-- URLs of plain segments lead to their endpoints. -/
def plainUrls : WebLayer where
  route := fun endpoint segmentId number knownTail =>
    if PlainSegment segmentId then .endpoint endpoint segmentId number knownTail
    else .refused .notFound

theorem plainUrls_documented : plainUrls.Documented where
  own := by
    intro endpoint segmentId n k endpoint' n' k' h
    simp only [plainUrls] at h
    split at h
    · cases h
      exact ⟨rfl, rfl, rfl⟩
    · cases h

/-- A put of a payload of UTF-8 into an empty store. -/
theorem transports_agree_text : plainUrls.Documented ∧
    TransportsAgree plainUrls StoreKind.memory.whole MemoryStore.empty
      (.put ⟨"s", 0, "r", [104, 105]⟩ 0) :=
  ⟨plainUrls_documented,
    ((transports_agree_iff plainUrls_documented .memory MemoryStore.empty).1
      (.put ⟨"s", 0, "r", [104, 105]⟩ 0)).mpr
        ⟨by decide +kernel, by decide +kernel, rfl, by decide +kernel⟩⟩

/-- A payload that is not of UTF-8 is put directly and not by HTTP. -/
theorem payload_not_text : ¬∀ c, TransportsAgree plainUrls StoreKind.memory.whole
    MemoryStore.empty c := by
  intro h
  have hput := (h (.put ⟨"s", 0, "r", [255]⟩ 0)).2
  exact absurd hput (by decide +kernel)

end Agreement

end DelosLab.NativeLoglet
