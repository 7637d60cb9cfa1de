import FieldLink.Board

/-!
# What a command does to a board

Each of its actions writes a field of its own, the port action only the bits under its mask, and all else stays
as it was. A command that asks for the frequency zero stops before it has done anything.
-/

namespace FieldLink

namespace Latches

def bit (l : Latches) (p : Port) (i : Nat) : Bool := (l.get p).toBitVec.getLsbD i

private theorem get_set (l : Latches) (p other : Port) (value : UInt16) :
    (l.set p value).get other = if other = p then value else l.get other := by
  cases p <;> cases other <;> rfl

private theorem eq_of_bits {l m : Latches} (h : ∀ p i, l.bit p i = m.bit p i) : l = m := by
  have hport (p : Port) : l.get p = m.get p :=
    UInt16.toBitVec_inj.mp (BitVec.eq_of_getLsbD_eq fun i _ => h p i)
  cases l
  cases m
  obtain rfl := hport .a
  obtain rfl := hport .b
  rfl

end Latches

namespace Command

def writes (c : Command) (e : Expander) (p : Port) (i : Nat) : Prop :=
  ∃ a, c.port = some a ∧ e = a.expander ∧ p = a.port ∧ a.mask.toBitVec.getLsbD i = true

end Command

namespace Board

/-- A board before and after a command. -/
structure Applied (c : Command) (before after : Board) : Prop where
  frequency : ∀ a, c.frequency = some a → after.frequency = a.frequency
  duty : ∀ a (h : a.channel.toNat < channelCount), c.duty = some a → after.duty[a.channel.toNat] = a.duty
  latches : ∀ a, c.port = some a → ∀ i, a.mask.toBitVec.getLsbD i = true →
    (after.latches a.expander).bit a.port i = a.value.toBitVec.getLsbD i
  frequency_kept : c.frequency = none → after.frequency = before.frequency
  duty_kept : ∀ i (h : i < channelCount), (∀ a, c.duty = some a → a.channel.toNat ≠ i) →
    after.duty[i] = before.duty[i]
  latches_kept : ∀ e p i, ¬c.writes e p i → (after.latches e).bit p i = (before.latches e).bit p i

theorem Applied.unique {c : Command} {before after other : Board} (h : Applied c before after)
    (h' : Applied c before other) : after = other := by
  have hfrequency : after.frequency = other.frequency := by
    cases hc : c.frequency with
    | none => rw [h.frequency_kept hc, h'.frequency_kept hc]
    | some a => rw [h.frequency a hc, h'.frequency a hc]
  have hduty : after.duty = other.duty := by
    refine Vector.ext fun i hi => ?_
    by_cases hwritten : ∃ a, c.duty = some a ∧ a.channel.toNat = i
    · obtain ⟨a, ha, rfl⟩ := hwritten
      rw [h.duty a hi ha, h'.duty a hi ha]
    · have hother : ∀ a, c.duty = some a → a.channel.toNat ≠ i := fun a ha heq => hwritten ⟨a, ha, heq⟩
      rw [h.duty_kept i hi hother, h'.duty_kept i hi hother]
  have hlatches (e : Expander) : after.latches e = other.latches e := by
    refine Latches.eq_of_bits fun p i => ?_
    by_cases hwritten : c.writes e p i
    · obtain ⟨a, ha, rfl, rfl, hmask⟩ := hwritten
      rw [h.latches a ha i hmask, h'.latches a ha i hmask]
    · rw [h.latches_kept e p i hwritten, h'.latches_kept e p i hwritten]
  obtain ⟨frequency, duty, first, second⟩ := after
  obtain ⟨frequency', duty', first', second'⟩ := other
  obtain rfl : frequency = frequency' := hfrequency
  obtain rfl : duty = duty' := hduty
  obtain rfl : first = first' := hlatches .first
  obtain rfl : second = second' := hlatches .second
  rfl

@[simp] theorem latches_setLatches (b : Board) (e other : Expander) (l : Latches) :
    (b.setLatches e l).latches other = if other = e then l else b.latches other := by
  cases e <;> cases other <;> rfl

@[simp] theorem frequency_setLatches (b : Board) (e : Expander) (l : Latches) :
    (b.setLatches e l).frequency = b.frequency := by
  cases e <;> rfl

@[simp] theorem duty_setLatches (b : Board) (e : Expander) (l : Latches) : (b.setLatches e l).duty = b.duty := by
  cases e <;> rfl

private theorem getLsbD_masked (old mask value : UInt16) (i : Nat) : (masked old mask value).toBitVec.getLsbD i =
    if mask.toBitVec.getLsbD i then value.toBitVec.getLsbD i else old.toBitVec.getLsbD i := by
  rw [masked, UInt16.toBitVec_or, UInt16.toBitVec_and, UInt16.toBitVec_and, UInt16.toBitVec_not, BitVec.getLsbD_or,
    BitVec.getLsbD_and, BitVec.getLsbD_and, BitVec.getLsbD_not]
  by_cases hi : i < 16
  · cases mask.toBitVec.getLsbD i <;> simp [hi]
  · simp [BitVec.getLsbD_of_ge _ _ (Nat.le_of_not_lt hi)]

private theorem bit_writePort (b : Board) (a : PortAction) (e : Expander) (p : Port) (i : Nat) :
    ((b.writePort a.expander a.port a.mask a.value).latches e).bit p i =
      if e = a.expander ∧ p = a.port ∧ a.mask.toBitVec.getLsbD i = true then a.value.toBitVec.getLsbD i
      else (b.latches e).bit p i := by
  rw [writePort, latches_setLatches]
  by_cases he : e = a.expander
  · subst he
    rw [if_pos rfl, Latches.bit, Latches.get_set]
    by_cases hp : p = a.port
    · subst hp
      rw [if_pos rfl, getLsbD_masked]
      simp [Latches.bit]
    · simp [hp, Latches.bit]
  · simp [he]

section Steps

variable (b : Board) (rest : List Action)

private theorem exists_perform_frequency (x : Option FrequencyAction) (hx : ∀ a, x = some a → a.frequency ≠ 0) :
    ∃ after : Board, b.perform ((x.map .frequency).toList ++ rest) = after.perform rest ∧
      (∀ a, x = some a → after.frequency = a.frequency) ∧ (x = none → after.frequency = b.frequency) ∧
      after.duty = b.duty ∧ after.latches = b.latches := by
  cases x with
  | none => exact ⟨b, rfl, by simp, fun _ => rfl, rfl, rfl⟩
  | some a =>
    refine ⟨{ b with frequency := a.frequency }, ?_, ?_, by simp, rfl, rfl⟩
    · simp [perform, act, setFrequency, hx a rfl]
    · rintro _ ⟨⟩
      rfl

private theorem exists_perform_duty (x : Option DutyAction) (hx : ∀ a, x = some a → a.channel.toNat < channelCount) :
    ∃ after : Board, b.perform ((x.map .duty).toList ++ rest) = after.perform rest ∧
      (∀ a (h : a.channel.toNat < channelCount), x = some a → after.duty[a.channel.toNat] = a.duty) ∧
      (∀ i (h : i < channelCount), (∀ a, x = some a → a.channel.toNat ≠ i) → after.duty[i] = b.duty[i]) ∧
      after.frequency = b.frequency ∧ after.latches = b.latches := by
  cases x with
  | none => exact ⟨b, rfl, by simp, fun _ _ _ => rfl, rfl, rfl⟩
  | some a =>
    refine ⟨{ b with duty := b.duty.set a.channel.toNat a.duty (hx a rfl) }, ?_, ?_, ?_, rfl, rfl⟩
    · simp [perform, act, setDuty, hx a rfl]
    · rintro _ h ⟨⟩
      exact Vector.getElem_set_self h
    · intro i h hother
      exact Vector.getElem_set_ne (hx a rfl) h (hother a rfl)

private theorem exists_perform_port (x : Option PortAction) :
    ∃ after : Board, b.perform (x.map .port).toList = (.ok (), after) ∧
      (∀ a, x = some a → ∀ i, a.mask.toBitVec.getLsbD i = true →
        (after.latches a.expander).bit a.port i = a.value.toBitVec.getLsbD i) ∧
      (∀ e p i, (¬∃ a, x = some a ∧ e = a.expander ∧ p = a.port ∧ a.mask.toBitVec.getLsbD i = true) →
        (after.latches e).bit p i = (b.latches e).bit p i) ∧
      after.frequency = b.frequency ∧ after.duty = b.duty := by
  cases x with
  | none => exact ⟨b, rfl, by simp, fun _ _ _ _ => rfl, rfl, rfl⟩
  | some a =>
    refine ⟨b.writePort a.expander a.port a.mask a.value, rfl, ?_, ?_, ?_, ?_⟩
    · rintro _ ⟨⟩ i hi
      rw [bit_writePort, if_pos ⟨rfl, rfl, hi⟩]
    · intro e p i hother
      rw [bit_writePort, if_neg fun h => hother ⟨a, rfl, h⟩]
    · rw [writePort, frequency_setLatches]
    · rw [writePort, duty_setLatches]

end Steps

theorem exists_perform_steps (b : Board) {c : Command} (hvalid : c.fault? = none)
    (hfrequency : ∀ a, c.frequency = some a → a.frequency ≠ 0) :
    ∃ after : Board, b.perform c.steps = (.ok (), after) ∧ Applied c b after := by
  have hchannel : ∀ a, c.duty = some a → a.channel.toNat < channelCount := by
    intro a ha
    rw [Command.fault?, ha] at hvalid
    simpa using hvalid
  obtain ⟨first, hfirst, hfrequency, hfrequencyKept, hduty, hlatches⟩ :=
    b.exists_perform_frequency ((c.duty.map .duty).toList ++ (c.port.map .port).toList) c.frequency hfrequency
  obtain ⟨second, hsecond, hdutySet, hdutyKept, hsecondFrequency, hsecondLatches⟩ :=
    first.exists_perform_duty (c.port.map .port).toList c.duty hchannel
  obtain ⟨third, hthird, hbits, hbitsKept, hthirdFrequency, hthirdDuty⟩ := second.exists_perform_port c.port
  refine ⟨third, ?_, ?_⟩
  · rw [Command.steps, List.append_assoc, hfirst, hsecond, hthird]
  · refine ⟨?_, ?_, hbits, ?_, ?_, ?_⟩
    · intro a ha
      rw [hthirdFrequency, hsecondFrequency, hfrequency a ha]
    · intro a h ha
      simp only [hthirdDuty, hdutySet a h ha]
    · intro hnone
      rw [hthirdFrequency, hsecondFrequency, hfrequencyKept hnone]
    · intro i h hother
      simp only [hthirdDuty, hdutyKept i h hother, hduty]
    · intro e p i hother
      rw [hbitsKept e p i hother, hsecondLatches, hlatches]

/-- The frequency comes first, so that nothing is done before it is refused. -/
theorem perform_steps_of_zeroFrequency (b : Board) {c : Command} (h : c.frequency = some ⟨0⟩) :
    b.perform c.steps = (.error .zeroFrequency, b) := by
  rw [Command.steps, h]
  rfl

end Board
end FieldLink
