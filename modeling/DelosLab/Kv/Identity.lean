import DelosLab.Common.PrefixCode
import DelosLab.Kv.Store
import DelosLab.NativeLoglet.Protocol
import DelosLab.NativeLoglet.SqlTables

/-!
# The identity of a command

The log knows a command by its `command_id`, the application by its client and its request.
Percent-escaped bytes are the words of a prefix code in which no word begins with a slash.
-/

namespace DelosLab.Kv

/-! ## Percent-escaped bytes -/

theorem byte_ext {a b : UInt8} (h : Char.ofNat a.toNat = Char.ofNat b.toNat) : a = b := by
  have hvalid : ∀ b : UInt8, (Char.ofNat b.toNat).toNat = b.toNat := by
    intro b
    have hlt : b.toNat < 256 := b.toNat_lt
    rw [Char.ofNat, dif_pos (.inl (by omega))]
    rfl
  apply UInt8.toNat_inj.mp
  rw [← hvalid a, ← hvalid b, h]

theorem hexDigit_inj {m n : Nat} (hm : m < 16) (hn : n < 16) (h : hexDigit m = hexDigit n) :
    m = n := by
  have hall : ∀ m n : Fin 16, hexDigit m = hexDigit n → m = n := by decide
  exact Fin.mk.inj (hall ⟨m, hm⟩ ⟨n, hn⟩ h)

/-- A byte is told by its two hexadecimal digits. -/
theorem hexDigits_inj {a b : UInt8} (hhigh : hexDigit (a.toNat / 16) = hexDigit (b.toNat / 16))
    (hlow : hexDigit (a.toNat % 16) = hexDigit (b.toNat % 16)) : a = b := by
  have ha : a.toNat < 256 := a.toNat_lt
  have hb : b.toNat < 256 := b.toNat_lt
  have h₁ := hexDigit_inj (by omega) (by omega) hhigh
  have h₂ := hexDigit_inj (by omega) (by omega) hlow
  apply UInt8.toNat_inj.mp
  omega

theorem isUnreserved_percent {b : UInt8} (h : Char.ofNat b.toNat = '%') :
    isUnreserved b = false := by
  rw [isUnreserved, h]
  decide

theorem isUnreserved_slash {b : UInt8} (h : Char.ofNat b.toNat = '/') :
    isUnreserved b = false := by
  rw [isUnreserved, h]
  decide

theorem quoteByte_of_unreserved {b : UInt8} (h : isUnreserved b = true) :
    quoteByte b = [Char.ofNat b.toNat] := if_pos h

theorem quoteByte_of_reserved {b : UInt8} (h : isUnreserved b = false) :
    quoteByte b = ['%', hexDigit (b.toNat / 16), hexDigit (b.toNat % 16)] := by
  rw [quoteByte, h]
  rfl

theorem prefixCode_quoteByte : PrefixCode quoteByte := by
  refine ⟨fun a => ?_, fun a b l r heq => ?_⟩
  · cases ha : isUnreserved a with
    | true => rw [quoteByte_of_unreserved ha]; exact nofun
    | false => rw [quoteByte_of_reserved ha]; exact nofun
  · cases ha : isUnreserved a with
    | true =>
        rw [quoteByte_of_unreserved ha] at heq
        cases hb : isUnreserved b with
        | true =>
            rw [quoteByte_of_unreserved hb] at heq
            obtain ⟨hhead, htail⟩ := List.cons.inj heq
            exact ⟨byte_ext hhead, htail⟩
        | false =>
            rw [quoteByte_of_reserved hb] at heq
            rw [isUnreserved_percent (List.cons.inj heq).1] at ha
            cases ha
    | false =>
        rw [quoteByte_of_reserved ha] at heq
        cases hb : isUnreserved b with
        | true =>
            rw [quoteByte_of_unreserved hb] at heq
            rw [isUnreserved_percent (List.cons.inj heq).1.symm] at hb
            cases hb
        | false =>
            rw [quoteByte_of_reserved hb] at heq
            obtain ⟨-, heq⟩ := List.cons.inj heq
            obtain ⟨hhigh, heq⟩ := List.cons.inj heq
            obtain ⟨hlow, htail⟩ := List.cons.inj heq
            exact ⟨hexDigits_inj hhigh hlow, htail⟩

theorem separates_slash : Separates quoteByte '/' := by
  intro b l r heq
  cases hb : isUnreserved b with
  | true =>
      rw [quoteByte_of_unreserved hb] at heq
      rw [isUnreserved_slash (List.cons.inj heq).1] at hb
      cases hb
  | false =>
      rw [quoteByte_of_reserved hb] at heq
      exact absurd (List.cons.inj heq).1 (by decide)

/-! ## `command_id` -/

/-- The UTF-8 bytes of a string. -/
def utf8 (s : String) : List UInt8 := s.toList.flatMap String.utf8EncodeChar

theorem utf8_inj {s s' : String} (h : utf8 s = utf8 s') : s = s' := by
  rw [← String.toByteArray_inj, ← String.utf8Encode_toList, ← String.utf8Encode_toList]
  exact congrArg List.toByteArray h

theorem toList_quote (s : String) : (quote s).toList = (utf8 s).flatMap quoteByte := by
  rw [quote, String.toList_ofList, utf8, List.flatMap_assoc]

theorem toList_commandId (c : KvCommandEnvelope) :
    c.commandId.toList = (utf8 c.clientId.val).flatMap quoteByte ++
      '/' :: (utf8 c.requestId.val).flatMap quoteByte := by
  rw [KvCommandEnvelope.commandId, String.toList_append, String.toList_append, toList_quote,
    toList_quote, List.append_assoc]
  rfl

/-- Two commands have one `command_id` exactly when they are of one request. -/
theorem commandId_eq_iff (c c' : KvCommandEnvelope) :
    c.commandId = c'.commandId ↔ c.identity = c'.identity := by
  constructor
  · intro h
    have hlist := congrArg String.toList h
    rw [toList_commandId, toList_commandId] at hlist
    obtain ⟨hclient, hrequest⟩ := prefixCode_quoteByte.split separates_slash _ _ _ _ hlist
    have hrequest := prefixCode_quoteByte.flatMap_inj _ _ hrequest
    rw [KvCommandEnvelope.identity, utf8_inj hclient, utf8_inj hrequest]
    rfl
  · intro h
    obtain ⟨hclient, hrequest⟩ := Prod.mk.inj h
    rw [KvCommandEnvelope.commandId, hclient, hrequest]
    rfl

/-! ## The tables that are keyed on it -/

section Lookup

variable {α κ : Type} [DecidableEq κ] {key : α → κ} {name : KvCommandEnvelope → κ}

/-- A table whose rows are named after `commands` has a row of a request exactly when one of
the commands is of that request. -/
theorem isSome_find_iff (hname : ∀ c c', name c = name c' ↔ c.identity = c'.identity)
    {rows : List α} {commands : List KvCommandEnvelope} (hrows : rows.map key = commands.map name)
    (c : KvCommandEnvelope) :
    (rows.find? fun r => key r = name c).isSome = true ↔
      ∃ d ∈ commands, d.identity = c.identity := by
  have hmem : ∀ k, (∃ r ∈ rows, key r = k) ↔ ∃ d ∈ commands, name d = k := by
    intro k
    rw [← List.mem_map, ← List.mem_map, hrows]
  rw [List.find?_isSome]
  constructor
  · rintro ⟨r, hr, hk⟩
    obtain ⟨d, hd, hname'⟩ := (hmem (name c)).mp ⟨r, hr, of_decide_eq_true hk⟩
    exact ⟨d, hd, (hname d c).mp hname'⟩
  · rintro ⟨d, hd, hid⟩
    obtain ⟨r, hr, hk⟩ := (hmem (name c)).mpr ⟨d, hd, (hname d c).mpr hid⟩
    exact ⟨r, hr, decide_eq_true hk⟩

end Lookup

/-- The log and the application identify the same requests: two commands have one
`command_id` exactly when they have one client and one request. Where the sequencer, the
rows of a segment and the table of requests hold the same commands, either all three of
them know a command's request or none does. -/
theorem log_identity :
    (∀ c c' : KvCommandEnvelope,
      c.commandId = c'.commandId ↔ c.clientId = c'.clientId ∧ c.requestId = c'.requestId) ∧
    ∀ (commands : List KvCommandEnvelope) (c : KvCommandEnvelope)
      (sequencer : NativeLoglet.NativeSequencer) (index : NativeLoglet.Sql.Tables)
      (segmentId : String) (t : Tables),
      sequencer.entriesByCommand.map NativeLoglet.LogEntry.commandId =
        commands.map KvCommandEnvelope.commandId →
      (index.segmentEntries segmentId).map NativeLoglet.LogEntry.commandId =
        commands.map KvCommandEnvelope.commandId →
      t.requests.map KvRequestRow.key = commands.map KvCommandEnvelope.identity →
      ((sequencer.entryFor c.commandId).isSome = true ↔ (t.request c.identity).isSome = true) ∧
        ((index.commandRow segmentId c.commandId).isSome = true ↔
          (t.request c.identity).isSome = true) := by
  refine ⟨fun c c' => ?_, fun commands c sequencer index segmentId t hsequencer hindex ht => ?_⟩
  · rw [commandId_eq_iff, KvCommandEnvelope.identity, KvCommandEnvelope.identity, Prod.mk.injEq,
      Subtype.ext_iff, Subtype.ext_iff]
  · have happlied : (t.request c.identity).isSome = true ↔
        ∃ d ∈ commands, d.identity = c.identity := by
      rw [Tables.request, Option.isSome_map]
      exact isSome_find_iff (fun _ _ => Iff.rfl) ht c
    rw [happlied]
    constructor
    · exact isSome_find_iff commandId_eq_iff hsequencer c
    · have hrow : index.commandRow segmentId c.commandId =
          (index.segmentEntries segmentId).find? fun e => e.commandId = c.commandId := by
        rw [NativeLoglet.Sql.Tables.commandRow, NativeLoglet.Sql.Tables.segmentEntries,
          List.find?_filter]
        congr
        funext e
        simp [Bool.decide_and]
      rw [hrow]
      exact isSome_find_iff commandId_eq_iff hindex c

/-- The client `a/` with the request `b` and the client `a` with the request `/b`. -/
theorem log_identity_slash :
    let put (client request : NonEmptyStr) : KvCommandEnvelope :=
      ⟨client, request, .put ⟨"k", by decide⟩ (.int 0)⟩
    let c := put ⟨"a/", by decide⟩ ⟨"b", by decide⟩
    let d := put ⟨"a", by decide⟩ ⟨"/b", by decide⟩
    let entry : NativeLoglet.LogEntry := ⟨"s", 0, c.commandId, []⟩
    c.commandId ≠ d.commandId ∧
      ((NativeLoglet.NativeSequencer.entryFor ⟨1, 0, [entry], none, none⟩ d.commandId).isSome =
          true ↔
        ((⟨∅, [⟨"a/", "b", c, ⟨.applied, none⟩, 0⟩], [], -1⟩ : Tables).request
          d.identity).isSome = true) := by
  intro put c d entry
  refine ⟨fun h => ?_, ?_⟩
  · exact absurd ((log_identity.1 c d).mp h).1 (by decide)
  · exact (log_identity.2 [c] d ⟨1, 0, [entry], none, none⟩ ⟨[], [entry]⟩ "s"
      ⟨∅, [⟨"a/", "b", c, ⟨.applied, none⟩, 0⟩], [], -1⟩ rfl rfl rfl).1

end DelosLab.Kv
