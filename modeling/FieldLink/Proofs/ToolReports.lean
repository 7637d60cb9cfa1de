import FieldLink.Proofs.ClientHandshake
import FieldLink.Proofs.CommandArguments
import FieldLink.Proofs.PreferredFormat

/-!
# What the diagnostic tool prints for a command, it reads again

Spaces around the digits and the case of letters are lost in copying and do not count; the report is a JSON text
that says what was asked for; and the signature in it is one that a node with the key accepts.
-/

namespace FieldLink

namespace Hexadecimal

private theorem digitValue?_toLower (c : Char) : digitValue? c.toLower = digitValue? c := by
  simp only [digitValue?, toNat_toLower]
  grind

private theorem read?_map_toLower (text : List Char) : read? (text.map Char.toLower) = read? text := by
  induction text using read?.induct with
  | case1 => rfl
  | case2 c => rfl
  | case3 high low rest ih => simp only [List.map_cons, read?, digitValue?_toLower, ih]

private theorem exists_digitValue?_of_read? {text : List Char} {octets : Octets} (h : read? text = some octets) :
    ∀ c ∈ text, ∃ n, digitValue? c = some n := by
  induction text using read?.induct generalizing octets with
  | case1 => simp
  | case2 c => cases h
  | case3 high low rest ih =>
    simp only [read?, Option.bind_eq_bind, Option.bind_eq_some_iff] at h
    obtain ⟨m, hhigh, n, hlow, others, hothers, -⟩ := h
    intro c hc
    rcases List.mem_cons.mp hc with rfl | hc
    · exact ⟨m, hhigh⟩
    rcases List.mem_cons.mp hc with rfl | hc
    · exact ⟨n, hlow⟩
    · exact ih hothers c hc

private theorem cases_of_digitValue? {c : Char} {n : Nat} (h : digitValue? c = some n) :
    48 ≤ c.toNat ∧ c.toNat ≤ 57 ∨ 65 ≤ c.toNat ∧ c.toNat ≤ 70 ∨ 97 ≤ c.toNat ∧ c.toNat ≤ 102 := by
  simp only [digitValue?] at h
  grind

end Hexadecimal

/-- A copy of a text: with spaces around it or without, and some letters in the other case. -/
def Copied (text copy : String) : Prop :=
  ∃ front back recased, copy = front ++ recased ++ back ∧ (∀ c ∈ front.toList, isSpace c = true) ∧
    (∀ c ∈ back.toList, isSpace c = true) ∧ Handshake.Headers.Recased text recased

namespace Copied

open Hexadecimal Handshake.Headers

theorem refl (text : String) : Copied text text := by
  refine ⟨"", "", text, by simp, by simp, by simp, recased_iff.mpr rfl⟩

variable {text copy : String} {octets : Octets}

private theorem exists_digits (h : Copied text copy) (hread : decode? text = some octets) :
    ∃ front digits back, copy.toList = front ++ digits ++ back ∧ (∀ c ∈ front, isSpace c = true) ∧
      (∀ c ∈ back, isSpace c = true) ∧ (∀ c ∈ digits, ∃ n, digitValue? c = some n) ∧ read? digits = some octets := by
  obtain ⟨front, back, recased, rfl, hfront, hback, hrecased⟩ := h
  have hdigits : read? recased.toList = some octets := by
    rw [← read?_map_toLower, ← recased_iff.mp hrecased, read?_map_toLower]
    exact hread
  exact ⟨front.toList, recased.toList, back.toList, by rw [String.toList_append, String.toList_append], hfront, hback,
    exists_digitValue?_of_read? hdigits, hdigits⟩

/-- What octets a text spells, its copies spell. -/
theorem octets?_eq (h : Copied text copy) (hread : decode? text = some octets) : Tool.octets? copy = some octets := by
  obtain ⟨front, digits, back, hcopy, hfront, hback, hdigits, hoctets⟩ := h.exists_digits hread
  have hinside : ∀ c ∈ digits, isSpace c = false := by
    intro c hc
    obtain ⟨n, hn⟩ := hdigits c hc
    have hrange := cases_of_digitValue? hn
    simp only [isSpace, decide_eq_false_iff_not]
    omega
  rw [Tool.octets?, hcopy, trim_append hfront hinside hback, decode?, String.toList_ofList]
  exact hoctets

theorem isOption_eq_false (h : Copied text copy) (hread : decode? text = some octets) :
    Arguments.isOption copy = false := by
  obtain ⟨front, digits, back, hcopy, hfront, hback, hdigits, -⟩ := h.exists_digits hread
  have hspace {c : Char} (hc : isSpace c = true) : c ≠ '-' := by
    rintro rfl
    cases hc
  have hhyphen : ∀ c ∈ copy.toList, c ≠ '-' := by
    intro c hc
    rw [hcopy, List.append_assoc, List.mem_append, List.mem_append] at hc
    rcases hc with hc | hc | hc
    · exact hspace (hfront c hc)
    · rintro rfl
      obtain ⟨n, hn⟩ := hdigits '-' hc
      cases hn
    · exact hspace (hback c hc)
  rw [Arguments.isOption]
  split
  · next c rest htext => exact absurd rfl (hhyphen '-' (by rw [htext]; exact List.mem_cons_self))
  · rfl

end Copied

theorem copied_toUpper (text : String) {front back : String} (hfront : ∀ c ∈ front.toList, isSpace c = true)
    (hback : ∀ c ∈ back.toList, isSpace c = true) : Copied text (front ++ text.toUpper ++ back) := by
  refine ⟨front, back, text.toUpper, rfl, hfront, hback, ?_⟩
  rw [Handshake.Headers.Recased, String.toUpper, String.map_eq_internal, String.toList_ofList]
  exact List.forall₂_map_right_iff.mpr (List.forall₂_same.mpr fun _ _ => .inr (.inr rfl))

private theorem ToolRequest.ofArguments?_decode {copy : String} (h : Arguments.isOption copy = false)
    (environment : String → Option String) : ofArguments? environment ["decode", "--hex", copy] = some (.decode copy) := by
  have hnames : Arguments.AreNames ["hex"] [] := ⟨by decide, by simp⟩
  have hwritten : Arguments.Written ["hex"] [] [("hex", copy)] [Arguments.longForm "hex" none, copy] :=
    .apart List.mem_cons_self h .nil
  have hread := (Arguments.read?_eq_some_iff hnames).mpr ⟨hwritten, by simp⟩
  have hlong : Arguments.longForm "hex" none = "--hex" := by decide
  rw [hlong] at hread
  simp [ofArguments?, decode?, hread]

namespace Tool

theorem hasDistinctNames_report {e : Envelope} (h : e.payload.HasDistinctNames) : (report e).HasDistinctNames := by
  have hauth : ((e.signature.map Signature.toDocument).getD .null).HasDistinctNames := by
    cases e.signature with
    | none => trivial
    | some s => exact s.hasDistinctNames_toDocument
  exact ⟨show ["format", "v", "type", "ts", "seq", "crc", "crc_valid", "auth", "payload"].Nodup by decide, trivial,
    trivial, trivial, trivial, trivial, trivial, trivial, hauth, h, trivial⟩

private theorem depth_report (e : Envelope) : (report e).depth ≤ max e.payload.depth 1 + 1 := by
  have hauth : ((e.signature.map Signature.toDocument).getD .null).depth ≤ 1 := by
    cases e.signature with
    | none => exact Nat.zero_le 1
    | some s => exact Nat.le_of_eq s.depth_toDocument
  have hdepth : (report e).depth = max 0 (max 0 (max 0 (max 0 (max 0 (max 0 (max 0
      (max ((e.signature.map Signature.toDocument).getD .null).depth (max e.payload.depth 0)))))))) + 1 := rfl
  omega

theorem readJson?_report {e : Envelope} (hnames : e.payload.HasDistinctNames) (hdepth : e.payload.depth ≤ 126) :
    Document.readJson? (Utf8.encode ((report e).indentedText 0)) = some (report e) := by
  have hlevels := depth_report e
  exact Document.readJson?_indentedText (hasDistinctNames_report hnames) (by rw [Json.maxDepth]; omega)

private theorem readJson?_report_command {timestamp : UInt64} {sequence : UInt32} {command : Command}
    {signature : Option Signature} {e : Envelope}
    (h : e.Carries .command timestamp sequence command.toDocument signature) :
    Document.readJson? (Utf8.encode ((report e).indentedText 0)) = some (report e) := by
  refine readJson?_report ?_ ?_
  · rw [h.payload]
    exact DistinctPayload.hasDistinctNames command
  · rw [h.payload]
    exact Nat.le_trans command.isShallow_toDocument.depth_le (by decide)

private theorem run_decode {text : String} {octets : Octets} {e : Envelope} (htext : octets? text = some octets)
    (h : Envelope.decode octets = .ok e) (clock : Clock) (source : RandomSource) :
    run clock source (.decode text) = .ok (.ofList ((report e).indentedText 0)) := by
  simp only [run, decode, htext, h]
  rfl

/-- A request for a command, with a key in hexadecimal. The time is in the request or is the present. -/
structure Asks (r : CommandRequest) (clock : Clock) (key : Key) (command : Command) (timestamp : UInt64)
    (sequence : UInt32) (preferCbor : Bool) : Prop where
  key : octets? r.key = some key.octets
  command : r.toCommand = command
  timestamp : r.timestamp.getD clock.milliseconds = timestamp
  sequence : r.sequence = sequence
  preferCbor : r.preferCbor = preferCbor

private theorem asks_ofCommand (clock : Clock) (key : Key) (command : Command) (timestamp : UInt64) (sequence : UInt32)
    (preferCbor : Bool) : Asks (.ofCommand key command timestamp sequence preferCbor) clock key command timestamp
      sequence preferCbor where
  key := (Copied.refl _).octets?_eq (Hexadecimal.decode?_encode key.octets)
  command := CommandRequest.toCommand_ofCommand ..
  timestamp := rfl
  sequence := rfl
  preferCbor := rfl

structure ReportsOn (command : Command) (timestamp : UInt64) (sequence : UInt32) (preferCbor : Bool)
    (members : List (String × Document)) : Prop where
  format : members.lookup "format" = some (.text (if preferCbor then "cbor" else "json"))
  version : members.lookup "v" = some (.ofUInt32 1)
  kind : members.lookup "type" = some (.text "cmd")
  timestamp : members.lookup "ts" = some (.ofUInt64 timestamp)
  sequence : members.lookup "seq" = some (.ofUInt32 sequence)
  crcValid : members.lookup "crc_valid" = some (.bool true)
  payload : members.lookup "payload" = some command.toDocument

private theorem exists_reportsOn {command : Command} {timestamp : UInt64} {sequence : UInt32} {preferCbor : Bool}
    {signature : Signature} {e : Envelope}
    (hcarries : e.Carries .command timestamp sequence command.toDocument (some signature))
    (hformat : e.format = if preferCbor then .cbor else .json) :
    ∃ members, report e = .object members ∧ ReportsOn command timestamp sequence preferCbor members ∧
      members.lookup "auth" = some signature.toDocument := by
  refine ⟨_, rfl, ⟨?_, ?_, ?_, ?_, ?_, ?_, ?_⟩, ?_⟩
  · show some (Document.text (formatName e.format)) = _
    rw [hformat]
    cases preferCbor <;> rfl
  · show some (Document.ofUInt32 e.version) = _
    rw [hcarries.version]
    rfl
  · show some (Document.text e.kind.name) = _
    rw [hcarries.kind]
    rfl
  · show some (Document.ofUInt64 e.timestamp) = _
    rw [hcarries.timestamp]
  · show some (Document.ofUInt32 e.sequence) = _
    rw [hcarries.sequence]
  · show some (Document.bool e.crcValid) = _
    rw [hcarries.crcValid]
  · show some e.payload = _
    rw [hcarries.payload]
  · show some ((e.signature.map Signature.toDocument).getD .null) = _
    rw [hcarries.signature]
    rfl

/-- What is built for a request is received as it was asked for, and in the format that was. -/
theorem exists_decode_built (r : CommandRequest) (key : Key) (now : UInt64) (source : RandomSource) :
    ∃ e, Envelope.decode (Envelope.encode r.preferCbor .command (r.timestamp.getD now) r.sequence r.toCommand.toDocument
        (some (signature r key now source))).octets = .ok e ∧
      e.Carries .command (r.timestamp.getD now) r.sequence r.toCommand.toDocument (some (signature r key now source)) ∧
      e.format = if r.preferCbor then .cbor else .json := by
  have hshallow := r.toCommand.isShallow_toDocument
  have hsignature : ∀ s, some (signature r key now source) = some s → s.Fits := by
    intro s hs
    cases hs
    exact Authenticator.fits_signatureOf (Authenticator.isNonce_draw source)
  exact Envelope.exists_decode_preferred .command (r.timestamp.getD now) r.sequence _ r.preferCbor
    r.toCommand.hasItem_toDocument (DistinctPayload.hasDistinctNames r.toCommand)
    (Nat.le_trans hshallow.depth_le (by decide)) hshallow.fits hsignature

/-- A command that can be carried out can be asked for, under any key, for any time, with any sequence number and in both
formats; and whoever asks, at any time and whatever is drawn for the nonce, is printed an envelope. What is printed is
taken back, copied as it may be, and the report on it says what was asked for, in which format, and that the CRC is right.
The signature in the report is that of the envelope, and makes an authenticator with the key and no history accept it. -/
theorem printed_command_verifies (key : Key) {command : Command} (hvalid : command.fault? = none) (timestamp : UInt64)
    (sequence : UInt32) (preferCbor : Bool) :
    (∃ arguments r, (∀ environment, ToolRequest.ofArguments? environment ("command" :: arguments) = some (.command r)) ∧
      ∀ clock, Asks r clock key command timestamp sequence preferCbor) ∧
    ∀ r clock source, Asks r clock key command timestamp sequence preferCbor →
      ∃ output, run clock source (.command r) = .ok output ∧ ∀ copy, Copied output copy →
        (∀ environment, ToolRequest.ofArguments? environment ["decode", "--hex", copy] = some (.decode copy)) ∧
        ∃ printed members octets e signature verifier,
          (∀ clock source, run clock source (.decode copy) = .ok printed) ∧
          Document.readJson? (Utf8.encode printed.toList) = some (.object members) ∧
          ReportsOn command timestamp sequence preferCbor members ∧
          (members.lookup "auth").bind Signature.ofDocument? = some signature ∧
          octets? copy = some octets ∧ Envelope.decode octets = .ok e ∧ e.signature = some signature ∧
          Authenticator.withKey key.octets = .ok verifier ∧ (verifier.validate e).1 = .ok () := by
  constructor
  · exact ⟨_, _, CommandRequest.ofArguments?_arguments (CommandRequest.isComplete_ofCommand ..),
      fun clock => asks_ofCommand clock key command timestamp sequence preferCbor⟩
  rintro r clock source ⟨hkey, rfl, rfl, rfl, rfl⟩
  have hbuild : buildCommand r clock.milliseconds source = .ok _ :=
    buildCommand_eq_ok_iff.mpr ⟨key, hkey, hvalid, rfl⟩
  refine ⟨_, run_command_eq_ok_iff.mpr ⟨_, hbuild, rfl⟩, fun copy hcopy => ?_⟩
  have hread := Hexadecimal.decode?_encode (Envelope.encode r.preferCbor .command (r.timestamp.getD clock.milliseconds)
    r.sequence r.toCommand.toDocument (some (signature r key clock.milliseconds source))).octets
  have hoctets := hcopy.octets?_eq hread
  obtain ⟨e, hdecode, hcarries, hformat⟩ := exists_decode_built r key clock.milliseconds source
  obtain ⟨members, hmembers, hreports, hauth⟩ := exists_reportsOn hcarries hformat
  refine ⟨ToolRequest.ofArguments?_decode (hcopy.isOption_eq_false hread), _, members, _, e, _, _,
    run_decode hoctets hdecode, ?_, hreports, ?_, hoctets, hdecode, hcarries.signature,
    Authenticator.withKey_eq_ok_iff.mpr ⟨key, rfl, rfl⟩, ?_⟩
  · rw [String.toList_ofList, ← hmembers]
    exact readJson?_report_command hcarries
  · rw [hauth]
    exact Signature.ofDocument?_toDocument _
  · -- Without a history no time stamp is too old and no nonce is known.
    have hfresh := (Authenticator.isFresh_iff 0 (r.timestamp.getD clock.milliseconds)).mpr (.inl rfl)
    rw [Authenticator.validate_of_carries rfl hcarries hfresh (Authenticator.isNonce_draw source) rfl]

/-- A key, and a request for every action at the present time that has it in both cases and between spaces. -/
def spacedKey : Key where
  octets := [0x01, 0x23, 0x45, 0x67, 0x89, 0xab, 0xcd, 0xef, 0xab, 0xcd, 0xef, 0x98, 0x76, 0x54, 0x32, 0x10, 0x01, 0x23,
    0x45, 0x67, 0x89, 0xab, 0xcd, 0xef, 0xab, 0xcd, 0xef, 0x98, 0x76, 0x54, 0x32, 0x10]
  length_eq := rfl

def spacedRequest : CommandRequest :=
  { ToolRequest.allActions with key := " 0123456789abcdefABCDEF98765432100123456789abcdefABCDEF9876543210\n" }

/-- What is printed for it, and copied in capitals behind a tab and in front of a line end, is reported on. -/
theorem printed_command_verifies_in_capitals :
    spacedRequest.toCommand.fault? = none ∧
      Asks spacedRequest ⟨5000⟩ spacedKey spacedRequest.toCommand 5000 1 true ∧
      ∃ output printed members, run ⟨5000⟩ (.cycle [1, 2, 3]) (.command spacedRequest) = .ok output ∧
        run ⟨7000⟩ (.cycle []) (.decode ("\t" ++ output.toUpper ++ "\n")) = .ok printed ∧
        Document.readJson? (Utf8.encode printed.toList) = some (.object members) ∧
        ReportsOn spacedRequest.toCommand 5000 1 true members := by
  have hvalid : spacedRequest.toCommand.fault? = none := by decide
  have hkey : octets? spacedRequest.key = some spacedKey.octets := by decide +kernel
  have hasks : Asks spacedRequest ⟨5000⟩ spacedKey spacedRequest.toCommand 5000 1 true := ⟨hkey, rfl, rfl, rfl, rfl⟩
  obtain ⟨-, hprinted⟩ := printed_command_verifies spacedKey hvalid 5000 1 true
  obtain ⟨output, hrun, hcopies⟩ := hprinted spacedRequest ⟨5000⟩ (.cycle [1, 2, 3]) hasks
  obtain ⟨-, printed, members, _, _, _, _, hdecode, hjson, hreports, -⟩ :=
    hcopies ("\t" ++ output.toUpper ++ "\n") (copied_toUpper output (by simp [isSpace]) (by simp [isSpace]))
  exact ⟨hvalid, hasks, output, printed, members, hrun, hdecode _ _, hjson, hreports⟩

end Tool
end FieldLink
