import Wagonet.ServerTransport

/-!
The client side of one exchange, and the ping.

`ClientTL` and `ClientTLS` exchange the same frames; they differ in the errors
they make of what goes wrong, which are collected in `ExchangeErrors`. All
functions work on a stream whose lock is held and on the client's own buffer.
-/

namespace Wagonet

open Library

/-- The errors of an exchange. -/
structure ExchangeErrors (ε : Type) where
  io : IoError → ε
  /-- an error of the crate that is passed on -/
  crate : Error → ε
  sendingRequestHeader : ε
  sendingResponseHeader : ε
  waitingForResponseHeader : ε
  sendingMessage : ε
  waitingForMessage : ε
  /-- the server has rejected the request -/
  rejected : UInt8 → ε
  /-- the status of the response is not Ok -/
  notOk : UInt8 → ε
  overflow : Nat → Nat → ε

namespace ClientExchange

variable {C : Interface} {ε : Type} (E : ExchangeErrors ε)

/-- Read into the client's buffer. -/
def fill (start : List UInt8) (buffer : ByteVec) : ByteVec := buffer.overwrite start

def sendRequestHeaderLocked (command dataSize : UInt32) : Async (Net C) ByteVec ε Unit := do
  Async.modify .clear
  Async.modify (·.extend (RequestHeader.encode ⟨command, dataSize⟩))
  let buffer ← Async.get
  Async.within .write E.sendingRequestHeader E.io (writeAll buffer.bytes)
  Async.mapError E.io flush
  Async.modify .clear

def sendResponseHeaderLocked (status : UInt8) (dataSize : UInt32) :
    Async (Net C) ByteVec ε Unit := do
  let isDefault : Bool := dataSize == 0
  Async.modify .clear
  Async.modify (·.extend (ResponseHeader.encode ⟨status, dataSize⟩ isDefault))
  let buffer ← Async.get
  Async.within .write E.sendingResponseHeader E.io (writeAll buffer.bytes)
  Async.mapError E.io flush
  Async.modify .clear

def receiveResponseHeaderLocked (isDefault commandHasAnswer : Bool) (maxBufferSize : Nat) :
    Async (Net C) ByteVec ε ResponseHeader := do
  let resultBufSize := ResponseHeader.encodedLen isDefault commandHasAnswer
  Async.modify (·.resize resultBufSize)
  let _ ← Async.within .readHeader E.waitingForResponseHeader E.io (readExact resultBufSize fill)
  let decodeAsDefault := isDefault || !commandHasAnswer
  let buffer ← Async.get
  let responseHeader ← Async.ofExcept
    ((ResponseHeader.decode buffer.bytes decodeAsDefault maxBufferSize).1.mapError E.crate)
  Async.modify .clear
  pure responseHeader

def sendMessageLocked (command : UInt32) (data : List UInt8) (commandHasAnswer : Bool)
    (maxBufferSize : Nat) : Async (Net C) ByteVec ε Unit := do
  sendRequestHeaderLocked E command (UInt32.ofNat data.length)
  let ackHeader ← receiveResponseHeaderLocked E true commandHasAnswer maxBufferSize
  if ackHeader.status ≠ 1 then
    Async.fail (E.rejected ackHeader.status)
  else
    Async.within .write E.sendingMessage E.io (writeAll data)
    Async.mapError E.io flush
    Async.modify .clear

def receiveMessageLocked (commandHasAnswer : Bool) (maxBufferSize : Nat) :
    Async (Net C) ByteVec ε (List UInt8) := do
  let resHeader ← receiveResponseHeaderLocked E false commandHasAnswer maxBufferSize
  let dataSize := resHeader.dataSize.toNat
  -- the ACK is sent before the status is looked at
  sendResponseHeaderLocked E 1 0
  if resHeader.status ≠ 1 then
    Async.fail (E.notOk resHeader.status)
  else if dataSize > maxBufferSize then
    Async.fail (E.overflow dataSize maxBufferSize)
  else if dataSize = 0 then
    Async.modify .clear
    pure []
  else
    Async.modify (·.resize dataSize)
    let _ ← Async.within .readData E.waitingForMessage E.crate (readExactOrClosed dataSize fill)
    let buffer ← Async.get
    pure buffer.bytes

/-- The exchange of `handle_message` on a locked stream. -/
def exchange (command : UInt32) (data : List UInt8) (commandHasAnswer : Bool)
    (maxBufferSize : Nat) : Async (Net C) ByteVec ε (List UInt8) := do
  sendMessageLocked E command data commandHasAnswer maxBufferSize
  receiveMessageLocked E commandHasAnswer maxBufferSize

end ClientExchange

namespace ClientTL

def errors : ExchangeErrors Error where
  io := .io
  crate := id
  sendingRequestHeader := .timeout "Sending request header"
  sendingResponseHeader := .timeout "Sending response header"
  waitingForResponseHeader := .timeout "Waiting for response header"
  sendingMessage := .timeout "Sending message data"
  waitingForMessage := .timeout "Waiting for message data"
  rejected := .responseError
  notOk := .responseError
  overflow := .bufferOverflow

def exchange {C : Interface} (command : UInt32) (data : List UInt8) (commandHasAnswer : Bool)
    (maxBufferSize : Nat) : Async (Net C) ByteVec Error (List UInt8) :=
  ClientExchange.exchange errors command data commandHasAnswer maxBufferSize

end ClientTL

namespace ClientTLS

def errors : ExchangeErrors (Boxed Error) where
  io := .io
  crate := .error
  sendingRequestHeader := .text "Timeout sending request header" []
  sendingResponseHeader := .text "Timeout sending response header" []
  waitingForResponseHeader := .text "Timeout waiting for response header" []
  sendingMessage := .text "Timeout sending message data" []
  waitingForMessage := .text "Timeout waiting for message data" []
  rejected status := .text "Request rejected by server: status \x7b\x7d" [status.toNat]
  notOk status := .text "Response status is not Ok: \x7bstatus\x7d" [status.toNat]
  overflow _ _ := .text "Data size is more then max buffer size" []

/-- Boxed errors become `Error::Other` where they leave the exchange. -/
def exchange {C : Interface} (command : UInt32) (data : List UInt8) (commandHasAnswer : Bool)
    (maxBufferSize : Nat) : Async (Net C) ByteVec Error (List UInt8) :=
  Async.mapError .other
    (ClientExchange.exchange errors command data commandHasAnswer maxBufferSize)

end ClientTLS

/-! ### The ping -/

namespace Ping

variable {C : Interface} {σ : Type}

/-- `send_ping_request_impl`; no timer limits it. -/
def sendPingRequestImpl : Async (Net C) σ Error Unit := do
  Async.mapError .io (writeAll (RequestHeader.encode ⟨Command.ping, 0⟩))
  Async.mapError .io flush

/-- Read into a buffer of the function. -/
def discard (_ : List UInt8) (s : σ) : σ := s

theorem keepsLongest_discard : KeepsLongest (discard : List UInt8 → σ → σ) := fun _ _ _ _ => rfl

/-- `receive_ping_response_impl`: the status byte, and whatever else comes within the
short timer that tells the two response formats apart. -/
def receivePingResponseImpl : Async (Net C) σ Error Unit := do
  let statusBuf ← Async.within .readHeader (.timeout "Ping response header timeout")
    (fun e => if e = IoError.unexpectedEof then .connectionClosed else .io e)
    (readExact 1 discard)
  let status := statusBuf.headD 0
  if status ≠ 1 then
    Async.fail (.responseError status)
  else
    match ← Async.timeout .pingOldFormatRead (readExact 4 discard) with
    | some (.ok sizeBuf) =>
        if fromBeBytes sizeBuf ≠ 0 then
          Async.fail (.protocol "ping response must have data_size 0")
        else
          pure ()
    | some (.error e) => Async.fail (.io e)
    | none => pure ()

/-- One ping on a locked stream. -/
def exchange : Async (Net C) σ Error Unit := do
  sendPingRequestImpl
  receivePingResponseImpl

end Ping

end Wagonet
