import Wagonet.ClientExchange

/-!
The operations of a client and the loop of its ping task.

They are programs over the mutexes they share, statement by statement: a guard
that lives for one statement is locked and unlocked around it, other guards are
unlocked where they go out of scope. An exchange on the stream is one operation
here; its program is that of the client or of the ping.
-/

namespace Wagonet

open Library

/-- The number of a connection, in the order in which connections are made. -/
abbrev Conn := Nat

/-- The mutexes of a client: `in_flight` and the others of `PingState`, and the one
around the stream. -/
inductive Mutex
  | inFlight
  | stream
  | shouldStop
  | config
  | timeoutConfig
  | lastActivity
  | taskHandle
  deriving DecidableEq

structure PingConfig where
  interval : Duration
  enabled : Bool

/-- What goes over the connection while its lock is held. -/
inductive Exchange
  | request (command : UInt32) (data : List UInt8) (commandHasAnswer : Bool) (maxBufferSize : Nat)
  | ping

def Exchange.isPing : Exchange → Bool
  | .request _ _ _ _ => false
  | .ping => true

inductive ClientAwait
  | lock (m : Mutex)
  | tcpConnect
  | tlsConnect (c : Conn)
  | sleep (d : Duration)
  | shutdown (c : Conn)
  /-- an exchange on the connection, with the client's buffer -/
  | exchange (c : Conn) (x : Exchange) (buffer : ByteVec)

@[reducible] def ClientAwait.Reply : ClientAwait → Type
  | .lock _ => Unit
  | .tcpConnect => Except IoError Conn
  | .tlsConnect _ => Except Nat Unit
  | .sleep _ => Unit
  | .shutdown _ => Except IoError Unit
  | .exchange _ _ _ => ByteVec × Except Error (List UInt8)

def ClientAwait.isExchange : ClientAwait → Bool
  | .exchange _ _ _ => true
  | _ => false

/-- What is done under a lock, and what needs none. -/
inductive ClientCall
  | tryLock (m : Mutex)
  | unlock (m : Mutex)
  | loadStream
  | setStream (v : Option Conn)
  | loadShouldStop
  | setShouldStop (v : Bool)
  | loadConfig
  | setConfig (v : PingConfig)
  | loadTimeoutConfig
  | setTimeoutConfig (v : TimeoutConfig)
  | elapsed
  | touch
  | takeHandle
  | setHandle (t : Nat)
  | spawn
  | abort (t : Nat)
  /-- `NativeTlsConnector::builder().build()` -/
  | buildConnector

@[reducible] def ClientCall.Reply : ClientCall → Type
  | .tryLock _ => Bool
  | .loadStream => Option Conn
  | .loadShouldStop => Bool
  | .loadConfig => PingConfig
  | .loadTimeoutConfig => TimeoutConfig
  | .elapsed => Duration
  | .takeHandle => Option Nat
  | .spawn => Nat
  | .buildConnector => Except Nat Unit
  | _ => Unit

@[reducible] def ClientAwaits : Interface where
  Op := ClientAwait
  Reply := ClientAwait.Reply

@[reducible] def ClientCalls : Interface where
  Op := ClientCall
  Reply := ClientCall.Reply

abbrev ClientIO : Interface := Timed Timer ClientAwaits ClientCalls

/-- Whatever is asked, some answer is possible. -/
theorem ClientIO.reply_nonempty (o : ClientIO.Op) : Nonempty (Interface.Reply ClientIO o) := by
  match o with
  | .wait ts (.tcpConnect) => exact ⟨.inr (.ok 0)⟩
  | .wait ts (.exchange _ _ buffer) => exact ⟨.inr (buffer, .ok [])⟩
  | .wait ts (.lock _) => exact ⟨.inr ()⟩
  | .wait ts (.sleep _) => exact ⟨.inr ()⟩
  | .wait ts (.tlsConnect _) => exact ⟨.inr (.ok ())⟩
  | .wait ts (.shutdown _) => exact ⟨.inr (.ok ())⟩
  | .call .loadConfig => exact ⟨(⟨0, false⟩ : PingConfig)⟩
  | .call .loadTimeoutConfig => exact ⟨({} : TimeoutConfig)⟩
  | .call .buildConnector => exact ⟨.ok ()⟩
  | .call .loadStream => exact ⟨none⟩
  | .call .takeHandle => exact ⟨none⟩
  | .call (.tryLock _) => exact ⟨true⟩
  | .call .loadShouldStop => exact ⟨true⟩
  | .call .elapsed => exact ⟨(0 : Duration)⟩
  | .call .spawn => exact ⟨(0 : Nat)⟩
  | .call (.unlock _) | .call (.setStream _) | .call (.setShouldStop _) | .call (.setConfig _)
  | .call (.setTimeoutConfig _) | .call .touch | .call (.setHandle _) | .call (.abort _) =>
      exact ⟨()⟩

/-- The fields of a client that its operations read and write. -/
structure ClientFields where
  commandHasAnswer : Bool
  buffer : ByteVec
  maxBufferSize : Nat
  timeoutConfig : TimeoutConfig
  keepAlive : Bool

section

variable {σ ε α : Type}

/-- A guard that lives for one statement. -/
def withLock (m : Mutex) (body : ClientCall) : Async ClientIO σ ε body.Reply := do
  Async.wait (A := ClientAwaits) (.lock m)
  let r ← Async.call (C := ClientCalls) body
  Async.call (C := ClientCalls) (.unlock m)
  pure r

end

namespace PingState

variable {σ : Type}

def isEnabled : Async ClientIO σ Error Bool := do
  let config ← withLock .config .loadConfig
  pure config.enabled

/-- Start the background ping task; its loop is `pingIteration`. -/
def startPingTask : Async ClientIO σ Error Unit := do
  if ← isEnabled then
    withLock .shouldStop (.setShouldStop false)
    let handle ← Async.call (C := ClientCalls) .spawn
    withLock .taskHandle (.setHandle handle)

/-- The second statement of `stop_ping_task`. -/
def tryAbort : Async ClientIO σ Error Unit := do
  if ← Async.call (C := ClientCalls) (.tryLock .taskHandle) then
    match ← Async.call (C := ClientCalls) .takeHandle with
    | some handle => Async.call (C := ClientCalls) (.abort handle)
    | none => pure ()
    Async.call (C := ClientCalls) (.unlock .taskHandle)

/-- Stop the background ping task, without waiting for it; what cannot be locked at
once is left as it is. -/
def stopPingTask : Async ClientIO σ Error Unit := do
  if ← Async.call (C := ClientCalls) (.tryLock .shouldStop) then
    Async.call (C := ClientCalls) (.setShouldStop true)
    Async.call (C := ClientCalls) (.unlock .shouldStop)
  tryAbort

def pingCheckDivisor : Nat := 4

def minPingCheckInterval : Duration := .fromMillis 100

/-- One iteration of the ping task's loop; it returns whether there is another one. -/
def pingIteration : Async ClientIO Unit Error Bool := do
  let interval ← withLock .config .loadConfig
  Async.wait (A := ClientAwaits)
    (.sleep (max (interval.interval / pingCheckDivisor) minPingCheckInterval))
  if ← withLock .shouldStop .loadShouldStop then
    pure false
  else
    let elapsed ← withLock .lastActivity .elapsed
    let currentInterval ← withLock .config .loadConfig
    if elapsed < currentInterval.interval then
      pure true
    else if ← Async.call (C := ClientCalls) (.tryLock .inFlight) then
      Async.wait (A := ClientAwaits) (.lock .stream)
      match ← Async.call (C := ClientCalls) .loadStream with
      | none =>
          -- the guard of the stream lives on to the end of the iteration
          Async.call (C := ClientCalls) (.unlock .inFlight)
          withLock .shouldStop (.setShouldStop true)
          Async.call (C := ClientCalls) (.unlock .stream)
          pure false
      | some c =>
          let _ ← withLock .timeoutConfig .loadTimeoutConfig
          let (_, pingResult) ← Async.wait (A := ClientAwaits)
            (.exchange c .ping (.withCapacity 0))
          match pingResult with
          | .error _ =>
              Async.call (C := ClientCalls) (.setStream none)
              withLock .shouldStop (.setShouldStop true)
              Async.call (C := ClientCalls) (.unlock .stream)
              Async.call (C := ClientCalls) (.unlock .inFlight)
              pure false
          | .ok _ =>
              withLock .lastActivity .touch
              Async.call (C := ClientCalls) (.unlock .stream)
              Async.call (C := ClientCalls) (.unlock .inFlight)
              pure true
    else
      pure true

end PingState

/-- Which client it is, with the fields that only `ClientTLS` has. -/
inductive ClientKind
  | tl
  | tls (domain : String) (acceptInvalidCerts : Bool)

namespace ClientKind

def placeholderDomain : String := "example.org"

/-- The program of an exchange. -/
def program (K : ClientKind) : Exchange → Async (Net Interface.empty) ByteVec Error (List UInt8)
  | .request command data commandHasAnswer maxBufferSize =>
      match K with
      | .tl => ClientTL.exchange command data commandHasAnswer maxBufferSize
      | .tls _ _ => ClientTLS.exchange command data commandHasAnswer maxBufferSize
  | .ping => do
      Ping.exchange
      pure []

/-- What is checked before anything is connected. -/
def checkDomain : ClientKind → Async ClientIO ClientFields Error Unit
  | .tl => pure ()
  | .tls domain acceptInvalidCerts =>
      if domain = placeholderDomain ∧ acceptInvalidCerts = false then
        Async.fail (.config "TLS domain not set: call set_domain() before connecting" [])
      else
        pure ()

def buildConnector : ClientKind → Async ClientIO ClientFields Error Unit
  | .tl => pure ()
  | .tls _ _ => do
      match ← Async.call (C := ClientCalls) .buildConnector with
      | .ok () => pure ()
      | .error e => Async.fail (.tls e)

/-- What makes a stream of an established TCP connection. -/
def wrapStream (c : Conn) : ClientKind → Async ClientIO ClientFields Error Unit
  | .tl => pure ()
  | .tls _ _ => do
      match ← Async.wait (A := ClientAwaits) (.tlsConnect c) with
      | .ok () => pure ()
      | .error e => Async.fail (.tls e)

def notConnected : ClientKind → Error
  | .tl => .notConnected
  | .tls _ _ => .msg "Not connected"

end ClientKind

namespace Client

variable (K : ClientKind)

def connectRetryDelay : Duration := .fromSecs 1

/-- What `connect` does with a new stream. -/
def useStream (c : Conn) : Async ClientIO ClientFields Error Unit := do
  withLock .stream (.setStream (some c))
  -- Stop any existing ping task before starting a new one
  PingState.stopPingTask
  let self ← Async.get
  if self.keepAlive then
    if ← PingState.isEnabled then
      PingState.startPingTask

/-- The retry loop of `connect`, with the number of tries left. -/
def connectLoop : Nat → Async ClientIO ClientFields Error Unit
  | 0 => do
      if (← withLock .stream .loadStream).isNone then
        Async.fail (.msg "Connection error, max retries reached")
      else
        pure ()
  | tries + 1 => do
      match ← Async.timeout .connect
          (Async.wait (A := ClientAwaits) .tcpConnect : Async ClientIO ClientFields Error _) with
      | some (.ok (.ok c)) => do
          K.wrapStream c
          useStream c
      | _ => do
          Async.wait (A := ClientAwaits) (.sleep connectRetryDelay)
          connectLoop tries

def connect : Async ClientIO ClientFields Error Unit := do
  K.checkDomain
  Async.within .connectTotal (.timeout "connect total deadline exceeded") id do
    K.buildConnector
    connectLoop K defaultMaxConnectRetries

/-- The connection is made first if there is none, or if it is not to be kept. -/
def ensureConnected : Async ClientIO ClientFields Error Unit := do
  let self ← Async.get
  if self.keepAlive then
    if (← withLock .stream .loadStream).isNone then
      connect K
  else
    connect K

def handleMessage (command : UInt32) (requestData : List UInt8) :
    Async ClientIO ClientFields Error (List UInt8) := do
  ensureConnected K
  Async.wait (A := ClientAwaits) (.lock .inFlight)
  Async.wait (A := ClientAwaits) (.lock .stream)
  match ← Async.call (C := ClientCalls) .loadStream with
  | none => do
      Async.call (C := ClientCalls) (.unlock .stream)
      Async.call (C := ClientCalls) (.unlock .inFlight)
      Async.fail K.notConnected
  | some c => do
      let self ← Async.get
      let (buffer, result) ← Async.wait (A := ClientAwaits)
        (.exchange c (.request command requestData self.commandHasAnswer self.maxBufferSize)
          self.buffer)
      Async.modify ({ · with buffer := buffer })
      match result with
      | .error _ => do
          Async.call (C := ClientCalls) (.setStream none)
          -- Stop ping task since connection is lost
          PingState.stopPingTask
      | .ok _ => withLock .lastActivity .touch
      Async.call (C := ClientCalls) (.unlock .stream)
      Async.call (C := ClientCalls) (.unlock .inFlight)
      Async.ofExcept result

def disconnect : Async ClientIO ClientFields Error Unit := do
  PingState.stopPingTask
  Async.wait (A := ClientAwaits) (.lock .stream)
  match ← Async.call (C := ClientCalls) .loadStream with
  | none => do
      Async.call (C := ClientCalls) (.setStream none)
      Async.call (C := ClientCalls) (.unlock .stream)
  | some c => do
      match ← Async.wait (A := ClientAwaits) (.shutdown c) with
      | .error e => do
          Async.call (C := ClientCalls) (.setStream none)
          Async.call (C := ClientCalls) (.unlock .stream)
          Async.fail (.io e)
      | .ok () => do
          Async.call (C := ClientCalls) (.setStream none)
          Async.call (C := ClientCalls) (.unlock .stream)

def setKeepAlive (enabled : Bool) : Async ClientIO ClientFields Error Unit := do
  let self ← Async.get
  if !enabled && self.keepAlive then
    PingState.stopPingTask
    withLock .stream (.setStream none)
  Async.modify ({ · with keepAlive := enabled })
  Async.wait (A := ClientAwaits) (.lock .config)
  let config ← Async.call (C := ClientCalls) .loadConfig
  Async.call (C := ClientCalls)
    (.setConfig { config with enabled := enabled && decide (config.interval > 0) })
  Async.call (C := ClientCalls) (.unlock .config)

def setTimeoutConfig (timeoutConfig : TimeoutConfig) : Async ClientIO ClientFields Error Unit := do
  let config := timeoutConfig.withPingInterval timeoutConfig.pingInterval
  Async.ofExcept config.validate
  let self ← Async.get
  let pingEnabled := self.keepAlive && decide (config.pingInterval > 0)
  -- the guard of the configuration lives to the end
  Async.wait (A := ClientAwaits) (.lock .config)
  Async.call (C := ClientCalls) (.setConfig ⟨config.pingInterval, pingEnabled⟩)
  withLock .timeoutConfig (.setTimeoutConfig config)
  Async.modify ({ · with timeoutConfig := config })
  Async.call (C := ClientCalls) (.unlock .config)

end Client

namespace ClientTL

def connect : Async ClientIO ClientFields Error Unit := Client.connect .tl

def handleMessage (command : UInt32) (requestData : List UInt8) :
    Async ClientIO ClientFields Error (List UInt8) := Client.handleMessage .tl command requestData

end ClientTL

namespace ClientTLS

def connect (domain : String) (acceptInvalidCerts : Bool) :
    Async ClientIO ClientFields Error Unit := Client.connect (.tls domain acceptInvalidCerts)

def handleMessage (domain : String) (acceptInvalidCerts : Bool) (command : UInt32)
    (requestData : List UInt8) : Async ClientIO ClientFields Error (List UInt8) :=
  Client.handleMessage (.tls domain acceptInvalidCerts) command requestData

end ClientTLS

end Wagonet
