import FieldLink.Session

/-!
# Dispatchers

Received messages wait in a queue of bounded length. Delivery never waits: what finds no room, or nobody who
would take it, is dropped, and every frame is counted once.
-/

namespace FieldLink

inductive Outcome where
  | queued
  | rejected
  | dropped
deriving DecidableEq

structure Tally where
  queued : UInt64
  rejected : UInt64
  dropped : UInt64
deriving DecidableEq

namespace Tally

def zero : Tally := ⟨0, 0, 0⟩

def count (t : Tally) : Outcome → Tally
  | .queued => { t with queued := t.queued + 1 }
  | .rejected => { t with rejected := t.rejected + 1 }
  | .dropped => { t with dropped := t.dropped + 1 }

end Tally

/-- A session with the messages that wait to be taken from it, the oldest first. -/
structure Dispatcher where
  session : Session
  capacity : Nat
  queue : List Inbound
  isOpen : Bool
  tally : Tally

inductive Taken where
  | message (inbound : Inbound)
  | nothing
  | closed

namespace Dispatcher

/-- An empty queue, with room for one message at least. -/
def start (session : Session) (capacity : Nat) : Dispatcher := ⟨session, max capacity 1, [], true, .zero⟩

def hasRoom (d : Dispatcher) : Bool := d.isOpen && d.queue.length < d.capacity

def deliver (d : Dispatcher) (frame : Octets) : Outcome × Dispatcher :=
  match d.session.receive frame with
  | (.error _, session) => (.rejected, { d with session, tally := d.tally.count .rejected })
  | (.ok inbound, session) =>
    if d.hasRoom then
      (.queued, { d with session, queue := d.queue ++ [inbound], tally := d.tally.count .queued })
    else (.dropped, { d with session, tally := d.tally.count .dropped })

def take (d : Dispatcher) : Taken × Dispatcher :=
  if d.isOpen then
    match d.queue with
    | [] => (.nothing, d)
    | inbound :: rest => (.message inbound, { d with queue := rest })
  else (.closed, d)

/-- The dispatcher when nobody takes messages any more; what still waits is never taken. -/
def close (d : Dispatcher) : Dispatcher := { d with isOpen := false }

end Dispatcher
end FieldLink
