import Wagonet.ClientExchange
import Wagonet.ConnectionHandler
import Wagonet.Library.Conversation

/-!
One connection between a `ClientTL` in answer mode and the framework's server.

The client performs its operations one after the other: requests by
`handle_message`, and pings of its background task. The server runs `handle_next`
in a loop. Both streams are reliable and move the bytes in pieces of any size;
no operation of the network fails, and of all timers only the one in the second
half of a ping response runs out.

A failed operation drops the stream, which ends the session: the client would go
on with another connection.
-/

namespace Wagonet

open Library

namespace Session

/-- An operation of the client. -/
inductive Op
  | call (command : UInt32) (data : List UInt8)
  | ping
  deriving DecidableEq

/-- What the client runs on the locked stream; a ping returns no bytes. -/
def Op.program (clientMax : Nat) :
    Op → Async (Net Interface.empty) ByteVec Error (List UInt8)
  | .call command data => ClientTL.exchange command data true clientMax
  | .ping => do
      Ping.exchange
      pure []

inductive Client
  /-- between two operations, with the stream in its cell -/
  | idle (buffer : ByteVec)
  | busy (op : Op) (task : Task (Net Interface.empty) ByteVec (Except Error (List UInt8)))
  /-- the stream was dropped -/
  | dropped

inductive Server
  | serving (next : Task (Net Handler) FramedServer (Except Error Bool))
  | ended

/-- An operation that has ended, and what it returned. -/
structure Entry where
  op : Op
  result : Except Error (List UInt8)

end Session

structure Session where
  client : Session.Client
  server : Session.Server
  toServer : Inbox
  toClient : Inbox
  /-- the requests the command handler was run on -/
  handled : List (UInt32 × List UInt8)
  log : List Session.Entry

namespace Session

inductive Act
  | start (op : Op)
  /-- the awaited operation of the client moves at most `n + 1` bytes -/
  | client (n : Nat)
  /-- the timer with this index runs out on the client's side -/
  | lapse (i : Nat)
  /-- the operation of the client returns -/
  | finish
  /-- the awaited operation of the server moves at most `n + 1` bytes -/
  | server (n : Nat)
  /-- `handle_next` has returned -/
  | turn
  deriving DecidableEq

def step (handler : CommandHandler) (clientMax : Nat) (s : Session) : Act → Option Session
  | .start op =>
      match s.client with
      | .idle buffer => some { s with client := .busy op (op.program clientMax buffer) }
      | _ => none
  | .client n =>
      match s.client with
      | .busy op task =>
          (task.progress s.toClient n).map fun (task', inbox, out) =>
            { s with
              client := .busy op task'
              toClient := inbox
              toServer := s.toServer.deliver out }
      | _ => none
  | .lapse i =>
      match s.client with
      | .busy op task =>
          (task.elapse .pingOldFormatRead i).map fun task' => { s with client := .busy op task' }
      | _ => none
  | .finish =>
      match s.client with
      | .busy op (.done buffer (.ok v)) =>
          some { s with client := .idle buffer, log := s.log ++ [⟨op, .ok v⟩] }
      | .busy op (.done _ (.error e)) =>
          some { s with
            client := .dropped
            toServer := s.toServer.close
            log := s.log ++ [⟨op, .error e⟩] }
      | _ => none
  | .server n =>
      match s.server with
      | .serving (.await _ (.call (.enter command data)) k) =>
          some { s with server := .serving (k ()), handled := s.handled ++ [(command, data)] }
      | .serving (.await _ (.call .leave) k) =>
          some { s with server := .serving (k (handler s.handled)) }
      | .serving next =>
          (next.progress s.toServer n).map fun (next', inbox, out) =>
            { s with
              server := .serving next'
              toServer := inbox
              toClient := s.toClient.deliver out }
      | .ended => none
  | .turn =>
      match s.server with
      | .serving (.done transport (.ok true)) =>
          some { s with server := .serving (ProtocolHandler.handleNext transport) }
      | .serving (.done _ _) => some { s with server := .ended, toClient := s.toClient.close }
      | _ => none

/-- A connection that was just established. -/
def Fresh (serverMax : Nat) (s : Session) : Prop :=
  (∃ buffer, s.client = .idle buffer) ∧
    (∃ transport : FramedServer, transport.maxBufferSize = serverMax ∧
      s.server = .serving (ProtocolHandler.handleNext transport)) ∧
    s.toServer = {} ∧ s.toClient = {} ∧ s.handled = [] ∧ s.log = []

def machine (handler : CommandHandler) (clientMax serverMax : Nat) : Machine Session Act where
  init := Fresh serverMax
  step := step handler clientMax

/-! ### What the operations are for -/

/-- The request an operation hands to the command handler, if it does. -/
def Op.request (serverMax : Nat) : Op → Option (UInt32 × List UInt8)
  | .call command data =>
      if command ≠ Command.ping ∧ declaredSize data ≤ serverMax then some (command, data)
      else none
  | .ping => none

/-- The requests handed to the command handler by these operations. -/
def accepted (serverMax : Nat) (log : List Entry) : List (UInt32 × List UInt8) :=
  log.filterMap (·.op.request serverMax)

@[simp] theorem accepted_nil (serverMax : Nat) : accepted serverMax [] = [] := rfl

theorem accepted_snoc (serverMax : Nat) (log : List Entry) (e : Entry) :
    accepted serverMax (log ++ [e]) =
      accepted serverMax log ++ (e.op.request serverMax).toList := by
  rw [accepted, List.filterMap_append, accepted]
  cases h : e.op.request serverMax with
  | none => simp [h]
  | some r => simp [h]

/-- What the client makes of the answer of the command handler. -/
def answerOf (clientMax : Nat) (result : CommandResult) : Except Error (List UInt8) :=
  if declaredSize (responseOf result).2 > clientMax then
    .error (.bufferOverflow (declaredSize (responseOf result).2) clientMax)
  else if (responseOf result).1 = 1 then .ok (responseOf result).2
  else .error (.responseError (responseOf result).1)

/-- What an operation is to return after the command handler has seen the requests
`past`. -/
def expected (handler : CommandHandler) (clientMax serverMax : Nat)
    (past : List (UInt32 × List UInt8)) : Op → Except Error (List UInt8)
  | .ping => .ok []
  | .call command data =>
      if declaredSize data > serverMax then .error (.io .unexpectedEof)
      else if command = Command.ping then .error (.responseError 7)
      else answerOf clientMax (handler (past ++ [(command, data)]))

/-- The bytes an operation may leave unread by the server: the acknowledgement of an
empty response. -/
def leftover : Op → List UInt8 → List UInt8
  | .call _ _, [] => [1]
  | _, _ => []

end Session

end Wagonet
