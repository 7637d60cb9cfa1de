import FieldLink.Proofs.BoardEffects
import FieldLink.Proofs.PayloadDelivery
import FieldLink.Session

/-!
# What becomes of a board and a message

A command that can be carried out is carried out as a whole, and every other message is answered by a failure
and changes nothing. Once its payload has been read, only a frequency of zero can still stop a command, and the
frequency is the first of its steps.
-/

namespace FieldLink

structure Envelope.Commands (e : Envelope) (c : Command) : Prop where
  kind : e.kind = .command
  crcValid : e.crcValid = true
  payload : Payload.ofDocument Command e.payload = .ok c
  frequency : ∀ a, c.frequency = some a → a.frequency ≠ 0

theorem Command.frequency_ne_zero_iff (c : Command) :
    c.frequency ≠ some ⟨0⟩ ↔ ∀ a, c.frequency = some a → a.frequency ≠ 0 := by
  constructor
  · rintro hother ⟨frequency⟩ ha rfl
    exact hother ha
  · intro h hzero
    exact h _ hzero rfl

namespace Board

section Execution

variable {e : Envelope} {command : Command} {b after : Board} (hkind : e.kind = .command) (hcrc : e.crcValid = true)
  (hcommand : Payload.ofEnvelope Command e = .ok command)
include hkind hcrc hcommand

private theorem execute_of_performed (hperform : b.perform command.steps = (.ok (), after)) :
    b.execute e = (.success e.sequence, after) := by
  simp [execute, hkind, hcrc, hcommand, hperform]

private theorem execute_of_fault {fault : BoardFault} (hperform : b.perform command.steps = (.error fault, after)) :
    b.execute e = (.failure e.sequence fault.message, after) := by
  simp [execute, hkind, hcrc, hcommand, hperform]

/-- The frequency zero is refused and changes nothing; any other command changes what it names. -/
theorem execute_cases (hvalid : command.fault? = none) (b : Board) :
    (command.frequency = some ⟨0⟩ →
      b.execute e = (.failure e.sequence BoardFault.zeroFrequency.message, b)) ∧
    (command.frequency ≠ some ⟨0⟩ → ∃ changed, b.execute e = (.success e.sequence, changed) ∧
      ∀ after, Applied command b after ↔ after = changed) := by
  constructor
  · intro hzero
    exact execute_of_fault hkind hcrc hcommand (b.perform_steps_of_zeroFrequency hzero)
  · intro hother
    obtain ⟨changed, hperform, happlied⟩ :=
      b.exists_perform_steps hvalid (command.frequency_ne_zero_iff.mp hother)
    refine ⟨changed, execute_of_performed hkind hcrc hcommand hperform, ?_⟩
    intro after
    constructor
    · intro h
      exact h.unique happlied
    · rintro rfl
      exact happlied

end Execution

variable {e : Envelope} {c : Command} {b after : Board}

theorem Applied.again (h : Applied c b after) : Applied c after after :=
  ⟨h.frequency, h.duty, h.latches, fun _ => rfl, fun _ _ _ => rfl, fun _ _ _ _ => rfl⟩

theorem ofEnvelope_eq_ok_iff (hkind : e.kind = .command) :
    Payload.ofEnvelope Command e = .ok c ↔ Payload.ofDocument Command e.payload = .ok c := by
  rw [Payload.ofEnvelope, if_pos (show e.kind = Payload.kind Command from hkind)]

private theorem exists_execute_of_commands (h : e.Commands c) (b : Board) :
    ∃ after, b.execute e = (.success e.sequence, after) ∧ Applied c b after := by
  have hcommand := (ofEnvelope_eq_ok_iff h.kind).mpr h.payload
  obtain ⟨-, hvalid⟩ := Payload.ofDocument_eq_ok_iff.mp h.payload
  obtain ⟨after, hexecute, hunique⟩ :=
    (execute_cases h.kind h.crcValid hcommand hvalid b).2 (c.frequency_ne_zero_iff.mpr h.frequency)
  exact ⟨after, hexecute, (hunique after).mpr rfl⟩

private theorem exists_execute_of_not_commands (h : ∀ c, ¬e.Commands c) (b : Board) :
    ∃ reason, b.execute e = (.failure e.sequence reason, b) := by
  by_cases hkind : e.kind = .command
  · cases hcrc : e.crcValid with
    | false => exact ⟨"crc mismatch", by simp [execute, hkind, hcrc]⟩
    | true =>
      cases hcommand : Payload.ofEnvelope Command e with
      | error fault => exact ⟨"invalid command", by simp [execute, hkind, hcrc, hcommand]⟩
      | ok c =>
        have hpayload := (ofEnvelope_eq_ok_iff hkind).mp hcommand
        obtain ⟨-, hvalid⟩ := Payload.ofDocument_eq_ok_iff.mp hpayload
        have hzero : c.frequency = some ⟨0⟩ := by
          by_contra hother
          exact h c ⟨hkind, hcrc, hpayload, c.frequency_ne_zero_iff.mp hother⟩
        exact ⟨_, (execute_cases hkind hcrc hcommand hvalid b).1 hzero⟩
  · exact ⟨"not a command", by simp [execute, hkind]⟩

/-- A message is answered for its sequence number. It is answered by a success just if it is a command with a valid CRC
whose payload is read and that does not ask for the frequency zero; then the board has what the command names and keeps
all else. After any other answer the board is as it was. Executed again, the message has the same answer and changes
nothing. -/
theorem execute_all_or_nothing (b : Board) (m : Inbound) :
    (b.execute m.envelope).1.sequence = m.envelope.sequence ∧
    ((b.execute m.envelope).1.ok = true ↔ m.envelope.kind = .command ∧ m.envelope.crcValid = true ∧
      ∃ c, Payload.ofDocument Command m.envelope.payload = .ok c ∧ ∀ a, c.frequency = some a → a.frequency ≠ 0) ∧
    ((b.execute m.envelope).1.ok = false → (b.execute m.envelope).2 = b) ∧
    ((b.execute m.envelope).1.ok = true → ∃ c, Payload.ofDocument Command m.envelope.payload = .ok c ∧
      c.IsExecutable ∧ Applied c b (b.execute m.envelope).2) ∧
    (b.execute m.envelope).2.execute m.envelope = b.execute m.envelope := by
  obtain ⟨e, authenticated⟩ := m
  by_cases hcommands : ∃ c, e.Commands c
  · obtain ⟨c, hc⟩ := hcommands
    obtain ⟨after, hexecute, happlied⟩ := exists_execute_of_commands hc b
    obtain ⟨again, hagain, happliedAgain⟩ := exists_execute_of_commands hc after
    rw [happliedAgain.unique happlied.again] at hagain
    obtain ⟨-, hvalid⟩ := Payload.ofDocument_eq_ok_iff.mp hc.payload
    rw [hexecute]
    refine ⟨rfl, ?_, ?_, ?_, hagain⟩
    · exact iff_of_true rfl ⟨hc.kind, hc.crcValid, c, hc.payload, hc.frequency⟩
    · intro hfailed
      cases hfailed
    · intro _
      exact ⟨c, hc.payload, (c.fault?_eq_none_iff).mp hvalid, happlied⟩
  · rw [not_exists] at hcommands
    obtain ⟨reason, hexecute⟩ := exists_execute_of_not_commands hcommands b
    rw [hexecute]
    refine ⟨rfl, ?_, fun _ => rfl, ?_, hexecute⟩
    · refine iff_of_false nofun ?_
      rintro ⟨hkind, hcrc, c, hpayload, hfrequency⟩
      exact hcommands c ⟨hkind, hcrc, hpayload, hfrequency⟩
    · intro hok
      cases hok

end Board
end FieldLink
