import FieldLink.Proofs.SendAttempts

/-!
# The numbers of a sender over any run of calls

A message that the transport took has the next number, and nothing else uses a number up; every text that is
sealed uses a counter up, whatever becomes of its frame, so that no two frames of one stream have the same.
-/

namespace FieldLink.Session

inductive Call : Type 1 where
  | attempt (a : Attempt) (vectors : RandomSource) (transport : Transport)
  | receive (frame : Octets)
  | reconnect

structure Report where
  call : Call
  before : Session
  handed : Option Octets
  result : Option (Except SessionError Sent)
  after : Session

def perform (s : Session) (call : Call) : Report :=
  match call with
  | .attempt a vectors transport =>
    let (result, after) := a.perform s vectors transport
    ⟨call, s, a.handed s vectors, some result, after⟩
  | .receive frame => ⟨call, s, none, none, (s.receive frame).2⟩
  | .reconnect => ⟨call, s, none, none, s.reconnect⟩

def run (s : Session) : List Call → List Report
  | [] => []
  | call :: rest => s.perform call :: (s.perform call).after.run rest

def afterCalls (s : Session) (calls : List Call) : Session := calls.foldl (fun s call => (s.perform call).after) s

/-- All that one call may do. An attempt fails where there is nothing to hand over or no counter for it, or uses a
counter up on a text that no frame can hold, or hands a frame over that the transport refuses or takes. -/
inductive Outcome (s : Session) : Call → Report → Prop where
  | failed (a : Attempt) (vectors : RandomSource) (transport : Transport) (e : SessionError)
      (hcause : ∀ d, a.draft s = .ok d →
        s.context.frameKey.isSome = true ∧ s.context.sent = UInt64.ofNat (2 ^ 64 - 1)) :
    Outcome s (.attempt a vectors transport) ⟨.attempt a vectors transport, s, none, some (.error e), s⟩
  | tooLong (a : Attempt) (vectors : RandomSource) (transport : Transport) {d : Draft}
      (hkey : s.context.frameKey.isSome = true) (hmoved : s.context.sent < s.context.sent + 1)
      (hdraft : a.draft s = .ok d) (htext : Gcm.maxLength < (d.text s.preferCbor s.nextSequence).length) :
    Outcome s (.attempt a vectors transport)
      ⟨.attempt a vectors transport, s, none, some (.error (.security (.invalidArgument .textTooLong))),
        { s with context := { s.context with sent := s.context.sent + 1 } }⟩
  | refused (a : Attempt) (vectors : RandomSource) (transport : Transport) {frame : Octets}
      {context : SecurityContext} (e : SessionError) (hleaves : Frame.Leaves s.context frame context) :
    Outcome s (.attempt a vectors transport)
      ⟨.attempt a vectors transport, s, some frame, some (.error e), { s with context }⟩
  | taken (a : Attempt) (vectors : RandomSource) (transport : Transport) {frame : Octets} {context : SecurityContext}
      {d : Draft} (hleaves : Frame.Leaves s.context frame context) (hdraft : a.draft s = .ok d)
      (hcarrying : Carrying s.context d s.preferCbor s.nextSequence frame) :
    Outcome s (.attempt a vectors transport)
      ⟨.attempt a vectors transport, s, some frame, some (.ok ⟨s.nextSequence, frame⟩),
        { s with context, nextSequence := s.nextSequence + 1 }⟩
  | received (frame : Octets) {after : Session} (hcontext : after.context = s.context)
      (hsequence : after.nextSequence = s.nextSequence) :
    Outcome s (.receive frame) ⟨.receive frame, s, none, none, after⟩
  | reconnected : Outcome s .reconnect ⟨.reconnect, s, none, none, s.reconnect⟩

theorem perform_outcome (s : Session) (call : Call) : Outcome s call (s.perform call) := by
  cases call with
  | receive frame =>
    obtain ⟨watermark, authenticator, hafter, -⟩ := s.receive_keeps frame
    exact .received frame (by rw [hafter]) (by rw [hafter])
  | reconnect => exact .reconnected
  | attempt a vectors transport =>
    simp only [perform, a.perform_eq s vectors transport, Attempt.handed]
    cases hdraft : a.draft s with
    | error e => exact .failed a vectors transport e (by simp [hdraft])
    | ok d =>
      simp only [post_eq, Draft.text]
      generalize hseal : Frame.sealText s.context _ vectors = outcome
      obtain ⟨result, context, rest⟩ := outcome
      cases result with
      | error e =>
        obtain ⟨hkey, ⟨hspent, rfl⟩ | ⟨htext, hmoved, rfl, rfl⟩⟩ := Frame.cases_of_sealText_error hseal
        · exact .failed a vectors transport (.security e) fun _ _ => ⟨hkey, hspent⟩
        · exact .tooLong a vectors transport hkey hmoved hdraft htext
      | ok frame =>
        have hleaves := Frame.leaves_of_sealText hseal
        cases htaken : transport frame with
        | error e =>
          simp only [htaken]
          exact .refused a vectors transport e hleaves
        | ok =>
          simp only [htaken]
          have hcarrying := carrying_of_sealText (Attempt.sendable_of_draft hdraft) hseal
          exact .taken a vectors transport hleaves hdraft hcarrying

namespace Report

def sent (r : Report) : Option Sent := r.result.bind Except.toOption

/-- The counter that was used up, by any call but one that starts a new stream. -/
def drawn (r : Report) : Option UInt64 :=
  if r.after.context.sent = r.before.context.sent then none else some r.after.context.sent

end Report

section Step

variable {s : Session} {call : Call} {r : Report}

theorem Outcome.before_eq (h : Outcome s call r) : r.before = s := by cases h <;> rfl

theorem Outcome.call_eq (h : Outcome s call r) : r.call = call := by cases h <;> rfl

theorem Outcome.sent_cases (h : Outcome s call r) :
    r.sent = none ∧ r.after.nextSequence = s.nextSequence ∨
      ∃ frame, r.sent = some ⟨s.nextSequence, frame⟩ ∧ r.after.nextSequence = s.nextSequence + 1 := by
  cases h with
  | failed a vectors transport e hcause => exact .inl ⟨rfl, rfl⟩
  | tooLong a vectors transport hkey hmoved hdraft htext => exact .inl ⟨rfl, rfl⟩
  | refused a vectors transport e hleaves => exact .inl ⟨rfl, rfl⟩
  | taken a vectors transport hleaves hdraft hcarrying => exact .inr ⟨_, rfl, rfl⟩
  | received frame hcontext hsequence => exact .inl ⟨rfl, hsequence⟩
  | reconnected => exact .inl ⟨rfl, rfl⟩

theorem Outcome.frameKey_eq (h : Outcome s call r) : r.after.context.frameKey = s.context.frameKey := by
  cases h with
  | failed a vectors transport e hcause => rfl
  | tooLong a vectors transport hkey hmoved hdraft htext => rfl
  | refused a vectors transport e hleaves => exact hleaves.frameKey_eq
  | taken a vectors transport hleaves hdraft hcarrying => exact hleaves.frameKey_eq
  | received frame hcontext hsequence => exact congrArg SecurityContext.frameKey hcontext
  | reconnected => rfl

private theorem Report.drawn_of_eq (h : r.after.context.sent = r.before.context.sent) : r.drawn = none := if_pos h

private theorem Report.drawn_of_lt (h : r.before.context.sent < r.after.context.sent) :
    r.drawn = some r.after.context.sent :=
  if_neg fun heq => UInt64.lt_irrefl _ (heq ▸ h)

/-- Under a key, a call in a stream uses no counter up and hands no frame over; or it uses up the next one, for the
frame that it hands over or for a text that no frame can hold. -/
theorem Outcome.counter_cases (h : Outcome s call r) (hkey : s.context.frameKey.isSome = true)
    (hcall : call ≠ .reconnect) :
    r.drawn = none ∧ r.after.context.sent = s.context.sent ∧ r.handed = none ∨
      s.context.sent < s.context.sent + 1 ∧ r.drawn = some (s.context.sent + 1) ∧
        r.after.context.sent = s.context.sent + 1 ∧
        (r.handed = none ∧ r.result = some (.error (.security (.invalidArgument .textTooLong))) ∨
          ∃ frame, r.handed = some frame ∧ Frame.counterOf frame = s.context.sent + 1) := by
  cases h with
  | failed a vectors transport e hcause => exact .inl ⟨Report.drawn_of_eq rfl, rfl, rfl⟩
  | tooLong a vectors transport _ hmoved hdraft htext =>
    exact .inr ⟨hmoved, Report.drawn_of_lt hmoved, rfl, .inl ⟨rfl, rfl⟩⟩
  | refused a vectors transport e hleaves =>
    obtain ⟨hmoved, hcounter, hafter⟩ := hleaves.of_key hkey
    exact .inr ⟨hmoved, hafter ▸ Report.drawn_of_lt (hafter ▸ hmoved), hafter, .inr ⟨_, rfl, hcounter⟩⟩
  | taken a vectors transport hleaves hdraft hcarrying =>
    obtain ⟨hmoved, hcounter, hafter⟩ := hleaves.of_key hkey
    exact .inr ⟨hmoved, hafter ▸ Report.drawn_of_lt (hafter ▸ hmoved), hafter, .inr ⟨_, rfl, hcounter⟩⟩
  | received frame hcontext hsequence =>
    have hsame := congrArg SecurityContext.sent hcontext
    exact .inl ⟨Report.drawn_of_eq hsame, hsame, rfl⟩
  | reconnected => exact absurd rfl hcall

private theorem Outcome.carried (h : Outcome s call r) {sent : Sent} (hsent : r.sent = some sent) :
    r.handed = some sent.frame ∧ ∃ a vectors transport d, call = .attempt a vectors transport ∧
      a.draft s = .ok d ∧ Carrying s.context d s.preferCbor sent.sequence sent.frame := by
  cases h with
  | failed a vectors transport e hcause => cases hsent
  | tooLong a vectors transport hkey hmoved hdraft htext => cases hsent
  | refused a vectors transport e hleaves => cases hsent
  | taken a vectors transport hleaves hdraft hcarrying =>
    cases hsent
    exact ⟨rfl, a, vectors, transport, _, rfl, hdraft, hcarrying⟩
  | received frame hcontext hsequence => cases hsent
  | reconnected => cases hsent

private theorem Outcome.of_unhanded {a : Attempt} {vectors : RandomSource} {transport : Transport}
    (h : Outcome s (.attempt a vectors transport) r) {d : Draft} (hdraft : a.draft s = .ok d)
    (hnone : r.handed = none) :
    s.context.frameKey.isSome = true ∧ (s.context.sent = UInt64.ofNat (2 ^ 64 - 1) ∨
      Gcm.maxLength < (d.text s.preferCbor s.nextSequence).length) := by
  cases h with
  | failed _ _ _ e hcause =>
    obtain ⟨hkey, hspent⟩ := hcause d hdraft
    exact ⟨hkey, .inl hspent⟩
  | tooLong _ _ _ hkey hmoved hdrafted htext =>
    rw [hdraft] at hdrafted
    cases hdrafted
    exact ⟨hkey, .inr htext⟩
  | refused _ _ _ e hleaves => cases hnone
  | taken _ _ _ hleaves hdrafted hcarrying => cases hnone

private theorem Outcome.of_exhausted {a : Attempt} {vectors : RandomSource} {transport : Transport}
    (h : Outcome s (.attempt a vectors transport) r) (hkey : s.context.frameKey.isSome = true)
    (hspent : s.context.sent = UInt64.ofNat (2 ^ 64 - 1)) :
    (∃ e, r.result = some (.error e)) ∧ r.handed = none ∧ r.after = s := by
  have hstuck : ¬s.context.sent < s.context.sent + 1 := by
    rw [hspent]
    decide
  cases h with
  | failed _ _ _ e hcause => exact ⟨⟨e, rfl⟩, rfl, rfl⟩
  | tooLong _ _ _ _ hmoved => exact absurd hmoved hstuck
  | refused _ _ _ e hleaves => exact absurd (hleaves.of_key hkey).1 hstuck
  | taken _ _ _ hleaves hdraft hcarrying => exact absurd (hleaves.of_key hkey).1 hstuck

end Step

/-- The numbers that a run answers are the ones after another that follow the one that was next. -/
theorem sequences_run (calls : List Call) {s : Session} {first : Nat} (hfirst : s.nextSequence = UInt32.ofNat first) :
    ((s.run calls).filterMap Report.sent).map Sent.sequence =
      (List.range' first ((s.run calls).filterMap Report.sent).length).map UInt32.ofNat := by
  induction calls generalizing s first with
  | nil => rfl
  | cons call calls ih =>
    have houtcome := s.perform_outcome call
    rw [run]
    generalize s.perform call = r at houtcome ⊢
    rcases houtcome.sent_cases with ⟨hnone, hkept⟩ | ⟨frame, hsome, hnext⟩
    · rw [List.filterMap_cons_none hnone]
      exact ih (hkept.trans hfirst)
    · have hafter : r.after.nextSequence = UInt32.ofNat (first + 1) := by
        rw [hnext, hfirst, UInt32.ofNat_add]
        rfl
      rw [List.filterMap_cons_some hsome, List.map_cons, List.length_cons, List.range'_succ, List.map_cons, ih hafter,
        hfirst]

/-- The counters that a stream uses up follow each other. -/
theorem drawn_run {calls : List Call} (hcalls : ∀ call ∈ calls, call ≠ .reconnect) {s : Session}
    (hkey : s.context.frameKey.isSome = true) :
    ∃ n, s.context.sent.toNat + n < 2 ^ 64 ∧
      (s.run calls).filterMap Report.drawn = (List.range' (s.context.sent.toNat + 1) n).map UInt64.ofNat := by
  induction calls generalizing s with
  | nil => exact ⟨0, s.context.sent.toNat_lt, rfl⟩
  | cons call calls ih =>
    have houtcome := s.perform_outcome call
    rw [run]
    generalize s.perform call = r at houtcome ⊢
    have hafterKey : r.after.context.frameKey.isSome = true := by rw [houtcome.frameKey_eq, hkey]
    obtain ⟨n, hlt, hdrawn⟩ := ih (fun other hother => hcalls other (List.mem_cons_of_mem call hother)) hafterKey
    rcases houtcome.counter_cases hkey (hcalls call List.mem_cons_self) with
      ⟨hnone, hsame, -⟩ | ⟨hmoved, hsome, hnext, -⟩
    · rw [hsame] at hlt hdrawn
      refine ⟨n, hlt, ?_⟩
      rw [List.filterMap_cons_none hnone, hdrawn]
    · have hsucc : (s.context.sent + 1).toNat = s.context.sent.toNat + 1 := by
        rw [UInt64.lt_iff_toNat_lt, UInt64.toNat_add] at hmoved
        rw [UInt64.toNat_add]
        simp only [UInt64.reduceToNat] at hmoved ⊢
        omega
      rw [hnext, hsucc] at hlt hdrawn
      refine ⟨n + 1, by omega, ?_⟩
      rw [List.filterMap_cons_some hsome, hdrawn, List.range'_succ, List.map_cons, ← hsucc, UInt64.ofNat_toNat]

private theorem frameKey_afterCalls (s : Session) (calls : List Call) :
    (s.afterCalls calls).context.frameKey = s.context.frameKey := by
  induction calls generalizing s with
  | nil => rfl
  | cons call calls ih => exact (ih (s.perform call).after).trans (s.perform_outcome call).frameKey_eq

theorem perform_of_mem_run {calls : List Call} {s : Session} {r : Report} (hr : r ∈ s.run calls) :
    r.call ∈ calls ∧ r.before.perform r.call = r ∧ r.before.context.frameKey = s.context.frameKey := by
  induction calls generalizing s with
  | nil => cases hr
  | cons call calls ih =>
    have houtcome := s.perform_outcome call
    rcases List.mem_cons.mp hr with rfl | hr
    · rw [houtcome.before_eq, houtcome.call_eq]
      exact ⟨List.mem_cons_self, rfl, rfl⟩
    · obtain ⟨hcall, hmade, hkey⟩ := ih hr
      exact ⟨List.mem_cons_of_mem call hcall, hmade, hkey.trans houtcome.frameKey_eq⟩

private theorem outcome_of_mem_run {calls : List Call} {s : Session} {r : Report} (hr : r ∈ s.run calls) :
    Outcome r.before r.call r := by
  have houtcome := r.before.perform_outcome r.call
  rw [(perform_of_mem_run hr).2.1] at houtcome
  exact houtcome

/-- The reports of the calls from a start or a reconnection up to the next reconnection. The counters that are used up
are those from one on, each for the frame that is handed over or for a text that no frame can hold. -/
structure Stream (reports : List Report) : Prop where
  drawn : ∃ n < 2 ^ 64, reports.filterMap Report.drawn = (List.range' 1 n).map UInt64.ofNat
  handed : ∀ r ∈ reports, ∀ frame, r.handed = some frame → r.drawn = some (Frame.counterOf frame)
  wasted : ∀ r ∈ reports, r.drawn.isSome = true → r.handed = none →
    r.result = some (.error (.security (.invalidArgument .textTooLong)))
  increasing : (reports.filterMap Report.handed).Pairwise fun f g => Frame.counterOf f < Frame.counterOf g

section Stream

variable {calls : List Call} {s : Session} (hcalls : ∀ call ∈ calls, call ≠ .reconnect)
  (hkey : s.context.frameKey.isSome = true)
include hcalls hkey

private theorem drawn_cases_of_mem_run {r : Report} (hr : r ∈ s.run calls) :
    r.drawn = none ∧ r.handed = none ∨
      r.handed = none ∧ r.result = some (.error (.security (.invalidArgument .textTooLong))) ∨
        ∃ frame, r.handed = some frame ∧ r.drawn = some (Frame.counterOf frame) := by
  obtain ⟨hcall, -, hkeep⟩ := perform_of_mem_run hr
  rcases (outcome_of_mem_run hr).counter_cases (by rw [hkeep, hkey]) (hcalls r.call hcall) with
    ⟨hnone, -, hkept⟩ | ⟨-, hsome, -, hwasted | ⟨frame, hframe, hcounter⟩⟩
  · exact .inl ⟨hnone, hkept⟩
  · exact .inr (.inl hwasted)
  · exact .inr (.inr ⟨frame, hframe, hsome.trans (congrArg some hcounter.symm)⟩)

private theorem drawn_of_handed {r : Report} (hr : r ∈ s.run calls) {frame : Octets} (hframe : r.handed = some frame) :
    r.drawn = some (Frame.counterOf frame) := by
  rcases drawn_cases_of_mem_run hcalls hkey hr with ⟨-, hnone⟩ | ⟨hnone, -⟩ | ⟨other, hother, hdrawn⟩
  · rw [hnone] at hframe
    cases hframe
  · rw [hnone] at hframe
    cases hframe
  · rw [hother] at hframe
    cases hframe
    exact hdrawn

private theorem pairwise_drawn_run : ((s.run calls).filterMap Report.drawn).Pairwise (· < ·) := by
  obtain ⟨n, hn, hdrawn⟩ := drawn_run hcalls hkey
  rw [hdrawn, List.pairwise_map]
  refine (List.pairwise_lt_range' ..).imp_of_mem ?_
  intro i j _ hj hlt
  have hbound := (List.mem_range'_1.mp hj).2
  rw [UInt64.lt_iff_toNat_lt, UInt64.toNat_ofNat_of_lt' (show i < 2 ^ 64 by omega),
    UInt64.toNat_ofNat_of_lt' (show j < 2 ^ 64 by omega)]
  exact hlt

theorem Stream.run (hsent : s.context.sent = 0) : Stream (s.run calls) where
  drawn := by
    obtain ⟨n, hn, hdrawn⟩ := drawn_run hcalls hkey
    rw [hsent] at hn hdrawn
    exact ⟨n, by simpa using hn, by simpa using hdrawn⟩
  handed := fun r hr frame hframe => drawn_of_handed hcalls hkey hr hframe
  wasted := by
    intro r hr hsome hnone
    rcases drawn_cases_of_mem_run hcalls hkey hr with ⟨hdrawn, -⟩ | ⟨-, hwasted⟩ | ⟨frame, hframe, -⟩
    · rw [hdrawn] at hsome
      cases hsome
    · exact hwasted
    · rw [hframe] at hnone
      cases hnone
  increasing := by
    -- The counters of the frames are among those that were used up, in the same order.
    have hincreasing := pairwise_drawn_run hcalls hkey
    rw [List.pairwise_filterMap] at hincreasing ⊢
    refine hincreasing.imp_of_mem ?_
    intro r later hr hlater hlt frame hframe other hother
    exact hlt _ (drawn_of_handed hcalls hkey hr hframe) _ (drawn_of_handed hcalls hkey hlater hother)

end Stream

/-- What holds of any calls on a session. Successful sendings are answered with the numbers from one on, and nothing
else uses a number up; the frame that was taken has what was to be sent in it, under the number that was answered; and
an attempt to send under a key that has no counter left fails and changes nothing. -/
structure Numbered (s : Session) (calls : List Call) : Prop where
  sequences : ((s.run calls).filterMap Report.sent).map Sent.sequence =
    (List.range' 1 ((s.run calls).filterMap Report.sent).length).map UInt32.ofNat
  kept : ∀ r ∈ s.run calls, r.sent = none → r.after.nextSequence = r.before.nextSequence
  /-- What is to go out is handed over, unless under a key no counter is left for it or no frame can hold it. -/
  drafted : ∀ r ∈ s.run calls, ∀ a vectors transport, r.call = .attempt a vectors transport →
    ∀ d, a.draft r.before = .ok d → r.handed = none →
      r.before.context.frameKey.isSome = true ∧ (r.before.context.sent = UInt64.ofNat (2 ^ 64 - 1) ∨
        Gcm.maxLength < (d.text r.before.preferCbor r.before.nextSequence).length)
  /-- The frame that is handed over is all that a transport, this or another, decides about. -/
  offered : ∀ r ∈ s.run calls, ∀ a vectors transport, r.call = .attempt a vectors transport → ∀ other : Transport,
    (∃ sent, (a.perform r.before vectors other).1 = .ok sent) ↔ ∃ frame, r.handed = some frame ∧ other frame = .ok ()
  carried : ∀ r ∈ s.run calls, ∀ sent, r.sent = some sent → r.handed = some sent.frame ∧
    ∃ a vectors transport d, r.call = .attempt a vectors transport ∧ a.draft r.before = .ok d ∧
      Carrying r.before.context d r.before.preferCbor sent.sequence sent.frame
  /-- Between two reconnections the counters start again, and so they do before the first one where none was used. -/
  streams : s.context.frameKey.isSome = true → ∀ front segment rest, calls = front ++ segment ++ rest →
    (front = [] ∧ s.context.sent = 0 ∨ ∃ earlier, front = earlier ++ [.reconnect]) →
    (∀ call ∈ segment, call ≠ .reconnect) → Stream ((s.afterCalls front).run segment)
  exhausted : ∀ r ∈ s.run calls, r.before.context.frameKey.isSome = true →
    r.before.context.sent = UInt64.ofNat (2 ^ 64 - 1) → ∀ a vectors transport,
    r.call = .attempt a vectors transport → (∃ e, r.result = some (.error e)) ∧ r.handed = none ∧ r.after = r.before

/-- Whatever is sent, received and refused by the transport: a session that starts numbers its messages without a gap,
and its frames within each stream. -/
theorem start_numbered (c : SecurityContext) (preferCbor : Bool) (authenticator : Option Authenticator)
    (calls : List Call) : (start c preferCbor authenticator).Numbered calls := by
  refine ⟨sequences_run calls rfl, ?_, ?_, ?_, ?_, ?_, ?_⟩
  · intro r hr hnone
    rcases (outcome_of_mem_run hr).sent_cases with ⟨-, hkept⟩ | ⟨frame, hsome, -⟩
    · exact hkept
    · rw [hnone] at hsome
      cases hsome
  · intro r hr a vectors transport hcall d hdraft hnone
    have houtcome := outcome_of_mem_run hr
    rw [hcall] at houtcome
    exact houtcome.of_unhanded hdraft hnone
  · intro r hr a vectors transport hcall other
    rw [← (perform_of_mem_run hr).2.1, hcall]
    exact a.exists_sent_iff r.before vectors other
  · intro r hr sent hsent
    exact (outcome_of_mem_run hr).carried hsent
  · rintro hkey front segment rest - hfront hsegment
    refine Stream.run hsegment (by rw [frameKey_afterCalls, hkey]) ?_
    rcases hfront with ⟨rfl, hsent⟩ | ⟨earlier, rfl⟩
    · exact hsent
    · rw [afterCalls, List.foldl_append]
      rfl
  · intro r hr hkey hspent a vectors transport hcall
    have houtcome := outcome_of_mem_run hr
    rw [hcall] at houtcome
    exact houtcome.of_exhausted hkey hspent

/-- A heartbeat that the transport refuses, and the same one again: the second has the first number and the second
counter. -/
example :
    let context : SecurityContext := ⟨none, some ⟨List.replicate 32 0x42, rfl⟩, 0, none⟩
    let payload := Document.object [("uptime_ms", .ofUInt64 5)]
    let heartbeat := Attempt.document .heartbeat 1000 payload ⟨List.nodup_singleton _, trivial, trivial⟩
    let reports := (start context false none).run
      [.attempt heartbeat (.cycle [7]) Transport.closed, .attempt heartbeat (.cycle [7]) Transport.reliable]
    (reports.filterMap Report.sent).map Sent.sequence = [1] ∧ reports.filterMap Report.drawn = [1, 2] := by
  decide +kernel

end FieldLink.Session
