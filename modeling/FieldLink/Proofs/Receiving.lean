import FieldLink.Session
import FieldLink.Proofs.CommandDecision

/-!
# What a session makes of the frames that it receives

A frame is refused on the way to its message, or the message is judged. What is handed on is marked just if it
was checked, and then it was signed under the key of the session, which no frame changes.
-/

namespace FieldLink.Session

variable {s : Session} {inbound : Inbound} {e : Envelope}

/-- What need not be checked is handed on as it is. A command that is checked is handed on where it is accepted, and
refused otherwise. -/
theorem judge_cases (s : Session) (e : Envelope) :
    ((e.kind = .command → s.authenticator = none) ∧ s.judge e = (.ok ⟨e, false⟩, s)) ∨
      ∃ a, e.kind = .command ∧ s.authenticator = some a ∧
        ((a.validate e).1 = .ok () ∧
            s.judge e = (.ok ⟨e, true⟩, { s with authenticator := some (a.validate e).2 }) ∨
          s.judge e = (.error .commandRejected, { s with authenticator := some (a.validate e).2 })) := by
  unfold judge
  split
  · next a hkind hauthenticator =>
    refine .inr ⟨a, hkind, hauthenticator, ?_⟩
    generalize a.validate e = validated
    obtain ⟨verdict, after⟩ := validated
    cases verdict with
    | error rejection => exact .inr rfl
    | ok => exact .inl ⟨rfl, rfl⟩
  · next hunchecked =>
    refine .inl ⟨fun hkind => ?_, rfl⟩
    cases hauthenticator : s.authenticator with
    | none => rfl
    | some a => exact absurd hauthenticator (hunchecked a hkind)

theorem envelope_of_judge (h : (s.judge e).1 = .ok inbound) : inbound.envelope = e := by
  rcases s.judge_cases e with ⟨-, hjudge⟩ | ⟨a, -, -, ⟨-, hjudge⟩ | hjudge⟩
  all_goals
    rw [hjudge] at h
    cases h
  · rfl
  · rfl

theorem judge_keeps (s : Session) (e : Envelope) :
    ∃ authenticator, (s.judge e).2 = { s with authenticator } ∧
      authenticator.map Authenticator.key = s.authenticator.map Authenticator.key := by
  rcases s.judge_cases e with ⟨-, hjudge⟩ | ⟨a, -, ha, hjudge⟩
  · rw [hjudge]
    exact ⟨s.authenticator, rfl, rfl⟩
  · refine ⟨some (a.validate e).2, ?_, ?_⟩
    · rcases hjudge with ⟨-, hjudge⟩ | hjudge
      all_goals rw [hjudge]
    · rw [ha, Option.map_some, Option.map_some, Authenticator.validate_key]

/-- A frame is refused on the way to a message, or its message is judged. -/
theorem receive_cases (s : Session) (frame : Octets) : ∃ watermark,
    (∃ e, s.receive frame = (.error e, { s with watermark })) ∨
      ∃ e, s.receive frame = judge { s with watermark } e := by
  refine ⟨(Frame.openText s.context frame s.watermark).2, ?_⟩
  simp only [receive]
  cases (Frame.openText s.context frame s.watermark).1 with
  | error e => exact .inl ⟨_, rfl⟩
  | ok text =>
    cases hdecode : Envelope.decode text with
    | error e =>
      refine .inl ⟨.protocol e, ?_⟩
      simp only [hdecode]
    | ok e =>
      refine .inr ⟨e, ?_⟩
      simp only [hdecode]

theorem receive_keeps (s : Session) (frame : Octets) :
    ∃ watermark authenticator, (s.receive frame).2 = { s with watermark, authenticator } ∧
      authenticator.map Authenticator.key = s.authenticator.map Authenticator.key := by
  obtain ⟨watermark, ⟨e, hrefused⟩ | ⟨e, hjudged⟩⟩ := s.receive_cases frame
  · rw [hrefused]
    exact ⟨watermark, s.authenticator, rfl, rfl⟩
  · rw [hjudged]
    exact ⟨watermark, judge_keeps { s with watermark } e⟩

/-- What is true of a message that a session hands on. -/
structure Vouches (s : Session) (inbound : Inbound) : Prop where
  marked : inbound.authenticated = true ↔ inbound.envelope.kind = .command ∧ s.authenticator.isSome = true
  signed : ∀ a, s.authenticator = some a → inbound.envelope.kind = .command →
    ∃ key signature nonce, a.key = some key ∧ inbound.envelope.signature = some signature ∧
      Hexadecimal.decode? signature.nonce = some nonce ∧
      commandMac inbound.envelope.payload inbound.envelope.version inbound.envelope.timestamp nonce key.octets =
        .ok signature.mac

theorem Vouches.of_key {other : Session} (h : other.Vouches inbound)
    (hkey : other.authenticator.map Authenticator.key = s.authenticator.map Authenticator.key) :
    s.Vouches inbound := by
  refine ⟨?_, ?_⟩
  · rw [h.marked, ← Option.isSome_map, hkey, Option.isSome_map]
  · intro a ha hkind
    rw [ha, Option.map_some, Option.map_eq_some_iff] at hkey
    obtain ⟨b, hb, hsame⟩ := hkey
    rw [← hsame]
    exact h.signed b hb hkind

theorem vouches_of_judge (h : (s.judge e).1 = .ok inbound) : s.Vouches inbound := by
  rcases s.judge_cases e with ⟨hunchecked, hjudge⟩ | ⟨a, hkind, ha, ⟨haccepted, hjudge⟩ | hjudge⟩
  all_goals
    rw [hjudge] at h
    cases h
  · refine ⟨⟨nofun, ?_⟩, ?_⟩
    · rintro ⟨hkind, hsome⟩
      rw [hunchecked hkind] at hsome
      cases hsome
    · intro a ha hkind
      rw [hunchecked hkind] at ha
      cases ha
  · refine ⟨by simp [hkind, ha], ?_⟩
    intro other hother _
    rw [ha] at hother
    cases hother
    obtain ⟨signature, key, nonce, hsignature, hkey, -, -, hnonce, -, -, -, hmac⟩ :=
      Authenticator.validate_eq_ok_iff.mp haccepted
    exact ⟨key, signature, nonce, hkey, hsignature, hnonce, hmac⟩

theorem vouches_of_receive {frame : Octets} (h : (s.receive frame).1 = .ok inbound) : s.Vouches inbound := by
  obtain ⟨watermark, ⟨e, hrefused⟩ | ⟨e, hjudged⟩⟩ := s.receive_cases frame
  · rw [hrefused] at h
    cases h
  · rw [hjudged] at h
    exact (vouches_of_judge h).of_key rfl

def answers (s : Session) : List Octets → List (Except SessionError Inbound)
  | [] => []
  | frame :: rest => (s.receive frame).1 :: (s.receive frame).2.answers rest

def afterFrames (s : Session) (frames : List Octets) : Session := frames.foldl (fun s frame => (s.receive frame).2) s

theorem answers_append (s : Session) (frames later : List Octets) :
    s.answers (frames ++ later) = s.answers frames ++ (s.afterFrames frames).answers later := by
  induction frames generalizing s with
  | nil => rfl
  | cons frame frames ih => exact congrArg _ (ih (s.receive frame).2)

theorem vouches_of_mem_answers {frames : List Octets} (h : .ok inbound ∈ s.answers frames) : s.Vouches inbound := by
  induction frames generalizing s with
  | nil => cases h
  | cons frame frames ih =>
    rcases List.mem_cons.mp h with hfirst | hlater
    · exact vouches_of_receive hfirst.symm
    · obtain ⟨watermark, authenticator, hafter, hkey⟩ := s.receive_keeps frame
      refine (ih hlater).of_key ?_
      rw [hafter, hkey]

end FieldLink.Session
