import Wagonet.Library.Machine
import Wagonet.Library.Watch
import Wagonet.ProtocolHandler

/-!
The task of one accepted connection, `ConnectionHandler::run`.

The task alternates between the two branches of its `select!`: the future of
`handle_next`, and a change on the shutdown channel. Taking the second branch
drops the future at the await point it has reached, keeping only what it has
done to the transport and to the command handler; the next turn of the loop
starts a new one.

The actions of the machine are what the client, the network, the timers, the
holders of shutdown senders and the server may do; any of them may come at any
time. The application's command handler is a function of the requests it has
seen: it shares nothing with those of other connections, and it does not panic.
-/

namespace Wagonet

open Library

/-- A user-supplied command handler: its answer to the last of these requests. -/
abbrev CommandHandler := List (UInt32 × List UInt8) → CommandResult

namespace ConnectionHandler

/-- How the future of a `handle_next` has ended. -/
inductive Fate
  | returned (r : Except Error Bool)
  /-- the other branch of the `select!` was taken -/
  | dropped
  /-- the server has aborted the task -/
  | aborted

/-- A `handle_next` that has ended: the operations it completed, and its fate. -/
structure Cycle where
  events : List (Net Handler).Event
  fate : Fate

inductive Phase
  /-- `tls_acceptor.accept(stream)` -/
  | tlsAccept
  /-- the transport is created -/
  | setUp
  /-- in the `select!`, with the future of `handle_next` -/
  | serving (next : Task (Net Handler) FramedServer (Except Error Bool))
  /-- the `changed` branch was taken, the value is not read yet -/
  | woken (transport : FramedServer)
  | ended (r : Except Error Unit)
  | aborted

end ConnectionHandler

/-- A connection task with what its surroundings have in store for it. -/
structure ConnectionHandler where
  phase : ConnectionHandler.Phase
  inbox : Inbox
  shutdown : Watch Bool
  /-- the version of `shutdown_rx` -/
  seen : Nat
  past : List ConnectionHandler.Cycle
  /-- the operations completed by the current `handle_next` -/
  current : List (Net Handler).Event

namespace ConnectionHandler

inductive Act
  /-- bytes of the client arrive -/
  | deliver (bytes : List UInt8)
  /-- the client closes its end -/
  | close
  /-- a shutdown sender sends a value -/
  | notify (value : Bool)
  | dropSenders
  | tlsAccepted (r : Except Nat Unit)
  | setUp (reserved : Bool)
  /-- the awaited operation completes -/
  | progress (c : IoChoice)
  /-- a timer around the awaited operation runs out -/
  | elapse (i : Nat)
  /-- the `handle_next` branch is taken -/
  | turn
  /-- the `changed` branch is taken -/
  | wake
  /-- `*self.shutdown_rx.borrow()` -/
  | borrow
  /-- the server aborts the task -/
  | abort

/-- The operations completed since the connection was accepted. -/
def events (c : ConnectionHandler) : List (Net Handler).Event :=
  c.past.flatMap (·.events) ++ c.current

/-- The requests passed to the command handler. -/
def handled (c : ConnectionHandler) : List (UInt32 × List UInt8) := entered c.events

/-- The bytes written back to the client. -/
def written (c : ConnectionHandler) : List UInt8 := sent c.events

/-- Entering the command handler is a plain call; every other operation is an await
point. -/
def suspends : (Net Handler).Op → Bool
  | .call (.enter _ _) => false
  | _ => true

/-- The answer to the operation `handle_next` waits for. -/
def answer (handler : CommandHandler) (c : ConnectionHandler) :
    (o : (Net Handler).Op) → IoChoice → Option ((Net Handler).Reply o)
  | .wait _ a, choice => (c.inbox.answer a choice).map .inr
  | .call (.enter _ _), .ready _ => some ()
  | .call .leave, .ready _ => some (handler c.handled)
  | .call _, .fail _ => none

/-- The awaited operation has got its answer. -/
def advance (c : ConnectionHandler) (o : (Net Handler).Op)
    (k : (Net Handler).Reply o → Task (Net Handler) FramedServer (Except Error Bool))
    (r : (Net Handler).Reply o) : ConnectionHandler :=
  { c with
    phase := .serving (k r)
    inbox := c.inbox.consume (Interface.Event.received ⟨o, r⟩).length
    current := c.current ++ [⟨o, r⟩] }

/-- The current `handle_next` has ended. -/
def endCycle (c : ConnectionHandler) (fate : Fate) (phase : Phase) : ConnectionHandler :=
  { c with phase := phase, past := c.past ++ [⟨c.current, fate⟩], current := [] }

def step (handler : CommandHandler) (maxBufferSize : Nat) (c : ConnectionHandler) :
    Act → Option ConnectionHandler
  | .deliver bytes => some { c with inbox := c.inbox.deliver bytes }
  | .close => some { c with inbox := c.inbox.close }
  | .notify value => some { c with shutdown := c.shutdown.send value }
  | .dropSenders => some { c with shutdown := c.shutdown.close }
  | .tlsAccepted r =>
      match c.phase with
      | .tlsAccept =>
          match r with
          | .ok () => some { c with phase := .setUp }
          | .error e => some { c with phase := .ended (.error (.tls e)) }
      | _ => none
  | .setUp reserved =>
      match c.phase with
      | .setUp =>
          match FramedServer.new.setMaxBufferSize maxBufferSize reserved with
          | (.ok (), s) => some { c with phase := .serving (ProtocolHandler.handleNext s) }
          | (.error e, _) => some { c with phase := .ended (.error e) }
      | _ => none
  | .progress choice =>
      match c.phase with
      | .serving (.await _ o k) => (c.answer handler o choice).map (c.advance o k)
      | _ => none
  | .elapse i =>
      match c.phase with
      | .serving (.await _ (.wait ts a) k) =>
          if h : i < ts.length then some (c.advance (.wait ts a) k (.inl ⟨i, h⟩)) else none
      | _ => none
  | .turn =>
      match c.phase with
      | .serving (.done s r) =>
          some (c.endCycle (.returned r)
            (match r with
            | .ok true => .serving (ProtocolHandler.handleNext s)
            | _ => .ended (.ok ())))
      | _ => none
  | .wake =>
      match c.phase with
      | .serving (.await s o _) =>
          if suspends o ∧ c.shutdown.changed c.seen then
            some { c.endCycle .dropped (.woken s) with seen := c.shutdown.version }
          else none
      | _ => none
  | .borrow =>
      match c.phase with
      | .woken s =>
          some { c with
            phase :=
              if c.shutdown.value then .ended (.ok ())
              else .serving (ProtocolHandler.handleNext s) }
      | _ => none
  | .abort =>
      match c.phase with
      | .tlsAccept => some { c with phase := .aborted }
      | .serving (.await _ o _) =>
          if suspends o then some (c.endCycle .aborted .aborted) else none
      | _ => none

/-- A connection that was just accepted, over TLS or plain TCP. -/
def Fresh (c : ConnectionHandler) : Prop :=
  (c.phase = .tlsAccept ∨ c.phase = .setUp) ∧ c.inbox.bytes = [] ∧ c.inbox.closed = false ∧
    c.past = [] ∧ c.current = []

/-- The connection task as a machine. -/
def machine (handler : CommandHandler) (maxBufferSize : Nat) :
    Machine ConnectionHandler Act where
  init := Fresh
  step := step handler maxBufferSize

end ConnectionHandler

end Wagonet
