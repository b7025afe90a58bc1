import Wagonet.Library.Stream

/-!
The crate's error type.

Formatted messages keep their format string and the numbers formatted into
it apart.
-/

namespace Wagonet

open Library

/-- A boxed `dyn std::error::Error`: what its `into()` was called on. -/
inductive Boxed (ε : Type)
  | text (message : String) (args : List Nat)
  | io (e : IoError)
  | error (e : ε)

inductive Error
  | io (e : IoError)
  /-- A timer elapsed. -/
  | timeout (message : String)
  | tls (code : Nat)
  | protocol (message : String)
  | bufferOverflow (expected limit : Nat)
  | notConnected
  /-- The peer closed the connection at a frame boundary: a normal disconnect. -/
  | connectionClosed
  /-- The peer closed the connection in the middle of a frame. -/
  | connectionClosedMidFrame (received expected : Nat)
  | responseError (status : UInt8)
  | config (message : String) (args : List Nat)
  | other (inner : Boxed Error)
  | msg (message : String)

/-- The peer went away, rather than a bug, a timeout or a protocol violation. -/
def Error.isDisconnect : Error → Bool
  | .connectionClosed => true
  | .connectionClosedMidFrame _ _ => true
  | _ => false

end Wagonet
