import FieldLink.Dispatcher
import FieldLink.Proofs.Receiving
import Mathlib.Data.List.Perm.Basic

/-!
# Dispatchers among their callers

A delivery holds the session only until it has an answer, so that other deliveries, takings and the end of the
queue may come before it offers what it has. However all of these follow each other, no message is lost or
repeated on its way, every delivery is counted once, and to the session it is as if it received the frames
alone.
-/

namespace FieldLink

private theorem Tally.foldl_count (outcomes : List Outcome) (t : Tally) :
    outcomes.foldl Tally.count t = ⟨t.queued + .ofNat (outcomes.count .queued),
      t.rejected + .ofNat (outcomes.count .rejected), t.dropped + .ofNat (outcomes.count .dropped)⟩ := by
  induction outcomes generalizing t with
  | nil => simp
  | cons outcome outcomes ih =>
    rw [List.foldl_cons, ih]
    cases outcome <;> simp [Tally.count, UInt64.ofNat_add, UInt64.add_assoc, UInt64.add_comm]

namespace Dispatcher

/-- What a delivery does with the answer of the session. -/
def offer (d : Dispatcher) : Except SessionError Inbound → Outcome × Dispatcher
  | .error _ => (.rejected, { d with tally := d.tally.count .rejected })
  | .ok inbound =>
    if d.hasRoom then (.queued, { d with queue := d.queue ++ [inbound], tally := d.tally.count .queued })
    else (.dropped, { d with tally := d.tally.count .dropped })

theorem deliver_eq (d : Dispatcher) (frame : Octets) :
    d.deliver frame = offer { d with session := (d.session.receive frame).2 } (d.session.receive frame).1 := by
  unfold deliver
  generalize d.session.receive frame = received
  obtain ⟨_ | inbound, session⟩ := received
  · rfl
  · rfl

/-- A dispatcher among its callers, with the answers that deliveries have and have yet to offer. -/
structure Traffic where
  dispatcher : Dispatcher
  underWay : List (Except SessionError Inbound)

/-- One thing that happens. A delivery is two of them, with anything in between. -/
inductive Event where
  | receive (frame : Octets)
  | offer (index : Nat)
  | take
  | close

def Event.frame? : Event → Option Octets
  | .receive frame => some frame
  | _ => none

end Dispatcher

def Taken.message? : Taken → Option Inbound
  | .message inbound => some inbound
  | _ => none

namespace Dispatcher

structure Report where
  event : Event
  before : Traffic
  /-- What a delivery that came to its end had offered, and what it returned. -/
  delivered : Option (Except SessionError Inbound × Outcome)
  taken : Option Inbound
  after : Traffic

namespace Report

def answer (r : Report) : Option (Except SessionError Inbound) := r.delivered.map Prod.fst

def outcome (r : Report) : Option Outcome := r.delivered.map Prod.snd

def queued (r : Report) : Option Inbound :=
  match r.delivered with
  | some (.ok inbound, .queued) => some inbound
  | _ => none

end Report

namespace Traffic

def perform (t : Traffic) (event : Event) : Report :=
  match event with
  | .receive frame =>
    let (answer, session) := t.dispatcher.session.receive frame
    ⟨event, t, none, none, ⟨{ t.dispatcher with session }, t.underWay ++ [answer]⟩⟩
  | .offer index =>
    match t.underWay[index]? with
    | none => ⟨event, t, none, none, t⟩
    | some answer =>
      let (outcome, dispatcher) := t.dispatcher.offer answer
      ⟨event, t, some (answer, outcome), none, ⟨dispatcher, t.underWay.eraseIdx index⟩⟩
  | .take =>
    let (taken, dispatcher) := t.dispatcher.take
    ⟨event, t, none, taken.message?, { t with dispatcher }⟩
  | .close => ⟨event, t, none, none, { t with dispatcher := t.dispatcher.close }⟩

def run (t : Traffic) : List Event → List Report
  | [] => []
  | event :: rest => t.perform event :: (t.perform event).after.run rest

def afterEvents (t : Traffic) (events : List Event) : Traffic := events.foldl (fun t event => (t.perform event).after) t

end Traffic

/-- All that one event may do. -/
inductive Effect (t : Traffic) : Event → Report → Prop
  | received (frame : Octets) :
    Effect t (.receive frame) ⟨.receive frame, t, none, none,
      ⟨{ t.dispatcher with session := (t.dispatcher.session.receive frame).2 },
        t.underWay ++ [(t.dispatcher.session.receive frame).1]⟩⟩
  | missed (index : Nat) : Effect t (.offer index) ⟨.offer index, t, none, none, t⟩
  | rejected (index : Nat) {e : SessionError} (hanswer : t.underWay[index]? = some (.error e)) :
    Effect t (.offer index) ⟨.offer index, t, some (.error e, .rejected), none,
      ⟨{ t.dispatcher with tally := t.dispatcher.tally.count .rejected }, t.underWay.eraseIdx index⟩⟩
  | queued (index : Nat) {inbound : Inbound} (hanswer : t.underWay[index]? = some (.ok inbound))
      (hopen : t.dispatcher.isOpen = true) (hroom : t.dispatcher.queue.length < t.dispatcher.capacity) :
    Effect t (.offer index) ⟨.offer index, t, some (.ok inbound, .queued), none,
      ⟨{ t.dispatcher with
          queue := t.dispatcher.queue ++ [inbound], tally := t.dispatcher.tally.count .queued },
        t.underWay.eraseIdx index⟩⟩
  | dropped (index : Nat) {inbound : Inbound} (hanswer : t.underWay[index]? = some (.ok inbound))
      (hfull : t.dispatcher.capacity ≤ t.dispatcher.queue.length ∨ t.dispatcher.isOpen = false) :
    Effect t (.offer index) ⟨.offer index, t, some (.ok inbound, .dropped), none,
      ⟨{ t.dispatcher with tally := t.dispatcher.tally.count .dropped }, t.underWay.eraseIdx index⟩⟩
  | taken {inbound : Inbound} {rest : List Inbound} (hqueue : t.dispatcher.queue = inbound :: rest) :
    Effect t .take ⟨.take, t, none, some inbound, { t with dispatcher := { t.dispatcher with queue := rest } }⟩
  | idle : Effect t .take ⟨.take, t, none, none, t⟩
  | closed : Effect t .close ⟨.close, t, none, none, { t with dispatcher := t.dispatcher.close }⟩

theorem Traffic.perform_effect (t : Traffic) (event : Event) : Effect t event (t.perform event) := by
  cases event with
  | receive frame => exact .received frame
  | offer index =>
    simp only [perform]
    cases hanswer : t.underWay[index]? with
    | none => exact .missed index
    | some answer =>
      cases answer with
      | error e => exact .rejected index hanswer
      | ok inbound =>
        simp only [Dispatcher.offer]
        split
        · next hroom =>
          rw [hasRoom, Bool.and_eq_true, decide_eq_true_eq] at hroom
          exact .queued index hanswer hroom.1 hroom.2
        · next hroom =>
          refine .dropped index hanswer ?_
          rw [hasRoom, Bool.and_eq_true, decide_eq_true_eq, not_and] at hroom
          cases hopen : t.dispatcher.isOpen with
          | false => exact .inr rfl
          | true => exact .inl (Nat.not_lt.mp (hroom hopen))
  | take =>
    simp only [perform, take]
    split
    · next hopen =>
      cases hqueue : t.dispatcher.queue with
      | nil => exact .idle
      | cons inbound rest => exact .taken hqueue
    · exact .idle
  | close => exact .closed

/-- What events do from one state to another, by their reports. -/
structure Ledger (t : Traffic) (events : List Event) (reports : List Report) (after : Traffic) : Prop where
  session : after.dispatcher.session = t.dispatcher.session.afterFrames (events.filterMap Event.frame?)
  answers : (reports.filterMap Report.answer ++ after.underWay).Perm
    (t.underWay ++ t.dispatcher.session.answers (events.filterMap Event.frame?))
  inOrder : reports.filterMap Report.taken ++ after.dispatcher.queue =
    t.dispatcher.queue ++ reports.filterMap Report.queued
  tally : after.dispatcher.tally = (reports.filterMap Report.outcome).foldl Tally.count t.dispatcher.tally
  capacity : after.dispatcher.capacity = t.dispatcher.capacity
  bounded : t.dispatcher.queue.length ≤ t.dispatcher.capacity →
    after.dispatcher.queue.length ≤ after.dispatcher.capacity
  isOpen : after.dispatcher.isOpen = true ↔ t.dispatcher.isOpen = true ∧ .close ∉ events

section Ledger

variable {t middle after : Traffic}

theorem Ledger.refl (t : Traffic) : Ledger t [] [] t :=
  ⟨rfl, .of_eq (List.append_nil _).symm, (List.append_nil _).symm, rfl, rfl, id, by simp⟩

theorem Ledger.append {events later : List Event} {reports more : List Report} (h : Ledger t events reports middle)
    (k : Ledger middle later more after) : Ledger t (events ++ later) (reports ++ more) after where
  session := by rw [k.session, h.session, List.filterMap_append, Session.afterFrames, Session.afterFrames,
    Session.afterFrames, List.foldl_append]
  answers := by
    have hmore := k.answers
    rw [h.session] at hmore
    simp only [List.filterMap_append, Session.answers_append, List.append_assoc]
    refine (hmore.append_left _).trans ?_
    simp only [← List.append_assoc]
    exact h.answers.append_right _
  inOrder := by
    rw [List.filterMap_append, List.filterMap_append, List.append_assoc, k.inOrder, ← List.append_assoc, h.inOrder,
      List.append_assoc]
  tally := by rw [k.tally, h.tally, List.filterMap_append, List.foldl_append]
  capacity := k.capacity.trans h.capacity
  bounded := fun hbounded => k.bounded (h.bounded hbounded)
  isOpen := by rw [k.isOpen, h.isOpen, List.mem_append, not_or, and_assoc]

private theorem perm_of_getElem? {answers : List (Except SessionError Inbound)} {index : Nat}
    {answer : Except SessionError Inbound} (h : answers[index]? = some answer) :
    (answer :: answers.eraseIdx index).Perm answers := by
  obtain ⟨hindex, rfl⟩ := List.getElem?_eq_some_iff.mp h
  exact List.getElem_cons_eraseIdx_perm hindex

theorem Effect.before_eq {event : Event} {r : Report} (h : Effect t event r) : r.before = t := by cases h <;> rfl

theorem Effect.ledger {event : Event} {r : Report} (h : Effect t event r) : Ledger t [event] [r] r.after := by
  have hsame : t.underWay.Perm (t.underWay ++ []) := .of_eq (List.append_nil _).symm
  have hwaits : t.dispatcher.queue = t.dispatcher.queue ++ [] := (List.append_nil _).symm
  cases h with
  | received frame => exact ⟨rfl, .refl _, hwaits, rfl, rfl, id, by simp⟩
  | missed index => exact ⟨rfl, hsame, hwaits, rfl, rfl, id, by simp⟩
  | rejected index hanswer => exact ⟨rfl, (perm_of_getElem? hanswer).trans hsame, hwaits, rfl, rfl, id, by simp⟩
  | queued index hanswer hopen hroom =>
    refine ⟨rfl, (perm_of_getElem? hanswer).trans hsame, rfl, rfl, rfl, ?_, by simp⟩
    intro _
    rw [List.length_append]
    exact hroom
  | dropped index hanswer hfull => exact ⟨rfl, (perm_of_getElem? hanswer).trans hsame, hwaits, rfl, rfl, id, by simp⟩
  | taken hqueue =>
    rw [hqueue] at hwaits
    refine ⟨rfl, hsame, ?_, rfl, rfl, ?_, by simp⟩
    · rw [hqueue]
      exact hwaits
    · intro hbounded
      rw [hqueue] at hbounded
      exact Nat.le_of_succ_le hbounded
  | idle => exact ⟨rfl, hsame, hwaits, rfl, rfl, id, by simp⟩
  | closed => exact ⟨rfl, hsame, hwaits, rfl, rfl, id, by simp [close]⟩

theorem ledger_run (t : Traffic) (events : List Event) : Ledger t events (t.run events) (t.afterEvents events) := by
  induction events generalizing t with
  | nil => exact .refl t
  | cons event events ih => exact (t.perform_effect event).ledger.append (ih (t.perform event).after)

theorem exists_of_mem_run {events : List Event} {r : Report} (hr : r ∈ t.run events) :
    ∃ earlier event, r.before = t.afterEvents earlier ∧ Effect r.before event r := by
  induction events generalizing t with
  | nil => cases hr
  | cons event events ih =>
    have heffect := t.perform_effect event
    rcases List.mem_cons.mp hr with rfl | hr
    · refine ⟨[], event, ?_⟩
      rw [heffect.before_eq]
      exact ⟨rfl, heffect⟩
    · obtain ⟨earlier, later, hbefore, hlater⟩ := ih hr
      exact ⟨event :: earlier, later, hbefore, hlater⟩

end Ledger

namespace Report

private theorem answer_of_delivered {r : Report} {answer : Except SessionError Inbound} {outcome : Outcome}
    (h : r.delivered = some (answer, outcome)) : r.answer = some answer := by
  rw [Report.answer, h, Option.map_some]

private theorem delivered_of_queued {r : Report} {inbound : Inbound} (h : r.queued = some inbound) :
    r.delivered = some (.ok inbound, .queued) := by
  unfold queued at h
  split at h
  · next hdelivered =>
    cases h
    exact hdelivered
  · cases h

end Report

section Effect

variable {t : Traffic} {event : Event} {r : Report}

private theorem Effect.tally_eq (h : Effect t event r) :
    r.after.dispatcher.tally = r.outcome.elim t.dispatcher.tally t.dispatcher.tally.count := by
  cases h <;> rfl

theorem Effect.judged (h : Effect t event r) {answer : Except SessionError Inbound} {outcome : Outcome}
    (hdelivered : r.delivered = some (answer, outcome)) :
    (outcome = .rejected ↔ ∃ e, answer = .error e) ∧
    (outcome = .dropped ↔ (∃ inbound, answer = .ok inbound) ∧
      (t.dispatcher.capacity ≤ t.dispatcher.queue.length ∨ t.dispatcher.isOpen = false)) := by
  cases h with
  | received frame => cases hdelivered
  | missed index => cases hdelivered
  | rejected index hanswer =>
    cases hdelivered
    simp
  | queued index hanswer hopen hroom =>
    cases hdelivered
    simp [hopen, hroom]
  | dropped index hanswer hfull =>
    cases hdelivered
    simp [hfull]
  | taken hqueue => cases hdelivered
  | idle => cases hdelivered
  | closed => cases hdelivered

end Effect

theorem Traffic.offer_receive (t : Traffic) (frame : Octets) :
    (t.perform (.receive frame)).after.perform (.offer t.underWay.length) =
      ⟨.offer t.underWay.length, (t.perform (.receive frame)).after,
        some ((t.dispatcher.session.receive frame).1, (t.dispatcher.deliver frame).1), none,
        ⟨(t.dispatcher.deliver frame).2, t.underWay⟩⟩ := by
  simp only [perform, deliver_eq, List.getElem?_concat_length, List.eraseIdx_append_of_length_le (Nat.le_refl _),
    Nat.sub_self, List.eraseIdx_cons_zero, List.append_nil]

/-- What holds of a dispatcher of some capacity after any events, by their reports. -/
structure Accounted (s : Session) (capacity : Nat) (events : List Event) (reports : List Report)
    (after : Traffic) : Prop where
  session : after.dispatcher.session = s.afterFrames (events.filterMap Event.frame?)
  /-- Each answer of the session has been offered once, or is under way. -/
  answers : (reports.filterMap Report.answer ++ after.underWay).Perm (s.answers (events.filterMap Event.frame?))
  inOrder : reports.filterMap Report.taken ++ after.dispatcher.queue = reports.filterMap Report.queued
  bounded : after.dispatcher.queue.length ≤ max capacity 1
  gone : after.dispatcher.isOpen = false ↔ .close ∈ events
  counted : ∀ r ∈ reports,
    r.after.dispatcher.tally = r.outcome.elim r.before.dispatcher.tally r.before.dispatcher.tally.count
  totals : after.dispatcher.tally = ⟨.ofNat ((reports.filterMap Report.outcome).count .queued),
    .ofNat ((reports.filterMap Report.outcome).count .rejected),
    .ofNat ((reports.filterMap Report.outcome).count .dropped)⟩
  /-- What the session refused is rejected. What it accepted is dropped where the queue is full or its receiver gone, and
  queued otherwise. -/
  judged : ∀ r ∈ reports, ∀ answer outcome, r.delivered = some (answer, outcome) →
    (outcome = .rejected ↔ ∃ e, answer = .error e) ∧
    (outcome = .dropped ↔ (∃ inbound, answer = .ok inbound) ∧
      (r.before.dispatcher.queue.length = max capacity 1 ∨ r.before.dispatcher.isOpen = false))
  vouched : ∀ inbound ∈ reports.filterMap Report.queued, s.Vouches inbound
  /-- A delivery that nothing comes between is made at once. -/
  atOnce : ∀ frame, ∃ before,
    (after.perform (.receive frame)).after.perform (.offer after.underWay.length) =
      ⟨.offer after.underWay.length, before,
        some ((after.dispatcher.session.receive frame).1, (after.dispatcher.deliver frame).1), none,
        ⟨(after.dispatcher.deliver frame).2, after.underWay⟩⟩

/-- However deliveries, takings and the end of the queue follow each other, every message that was queued is taken in its
turn or still waits, and every delivery is counted for what became of it. -/
theorem start_accounted (s : Session) (capacity : Nat) (events : List Event) :
    let t : Traffic := ⟨start s capacity, []⟩
    Accounted s capacity events (t.run events) (t.afterEvents events) := by
  intro t
  have hledger := ledger_run t events
  refine ⟨hledger.session, hledger.answers, hledger.inOrder, ?_, ?_, ?_, ?_, ?_, ?_, ?_⟩
  · rw [← show (t.afterEvents events).dispatcher.capacity = max capacity 1 from hledger.capacity]
    exact hledger.bounded (Nat.zero_le _)
  · rw [← Bool.not_eq_true, hledger.isOpen]
    simp [t, start]
  · intro r hr
    obtain ⟨earlier, event, -, heffect⟩ := exists_of_mem_run hr
    exact heffect.tally_eq
  · rw [hledger.tally, Tally.foldl_count]
    simp [t, start, Tally.zero]
  · intro r hr answer outcome hdelivered
    obtain ⟨earlier, event, hbefore, heffect⟩ := exists_of_mem_run hr
    have hearlier := ledger_run t earlier
    rw [← hbefore] at hearlier
    have hcapacity : r.before.dispatcher.capacity = max capacity 1 := hearlier.capacity
    have hbounded := hearlier.bounded (Nat.zero_le _)
    rw [hcapacity] at hbounded
    have hjudged := heffect.judged hdelivered
    rw [hcapacity] at hjudged
    rw [Nat.le_antisymm_iff, and_iff_right hbounded]
    exact hjudged
  · intro inbound hinbound
    obtain ⟨r, hr, hqueued⟩ := List.mem_filterMap.mp hinbound
    have hanswer := Report.answer_of_delivered (Report.delivered_of_queued hqueued)
    refine Session.vouches_of_mem_answers (hledger.answers.subset ?_)
    exact List.mem_append_left _ (List.mem_filterMap.mpr ⟨r, hr, hanswer⟩)
  · intro frame
    exact ⟨_, (t.afterEvents events).offer_receive frame⟩

/-- Two deliveries to a queue of one message, of which the later one comes first. -/
example :
    let payload := Document.object [("uptime_ms", .ofUInt64 5)]
    let frame := (Envelope.encode false .heartbeat 1000 1 payload none).octets
    let other := (Envelope.encode true .heartbeat 1000 2 payload none).octets
    let t : Traffic := ⟨start (.start ⟨none, none, 0, none⟩ false none) 1, []⟩
    let reports := t.run [.receive frame, .receive other, .offer 1, .offer 0, .take]
    reports.filterMap Report.outcome = [.queued, .dropped] ∧
      (reports.filterMap Report.taken).map (·.envelope.sequence) = [2] := by
  decide +kernel

end Dispatcher
end FieldLink
