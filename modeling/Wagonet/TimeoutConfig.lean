import Wagonet.Error

/-!
Timeouts.

A duration is a number of nanoseconds. The transports name the timer they
wait inside by the field of the configuration that sets it.
-/

namespace Wagonet

abbrev Duration := Nat

/-- `Duration::from_secs` -/
def Duration.fromSecs (n : Nat) : Duration := n * 1000000000

/-- `Duration::from_millis` -/
def Duration.fromMillis (n : Nat) : Duration := n * 1000000

def defaultConnectTimeout : Duration := .fromSecs 10
def defaultReadHeaderTimeout : Duration := .fromSecs 60
def defaultReadDataTimeout : Duration := .fromSecs 60
def defaultWriteTimeout : Duration := .fromSecs 60
def defaultPingInterval : Duration := .fromSecs 30
def defaultPingWriteTimeout : Duration := .fromSecs 5
def defaultMaxConnectRetries : Nat := 10
def defaultConnectTotalTimeout : Duration := .fromSecs 30
def pingClampSubtraction : Duration := .fromSecs 1
def pingClampHalveThreshold : Duration := .fromMillis 200
def pingClampHalveDivisor : Nat := 2

/-- The timers of the crate: the fields of `TimeoutConfig` that limit one wait, and
the fixed limit on the second part of a ping response. -/
inductive Timer
  | connectTotal
  | connect
  | readHeader
  | readData
  | write
  | pingWrite
  | pingOldFormatRead
  deriving DecidableEq, Repr

/-- The settings of the keep-alive probes of TCP. -/
structure KeepAliveConfig where
  time : Duration
  interval : Duration
  deriving DecidableEq

structure TimeoutConfig where
  connect : Duration := defaultConnectTimeout
  readHeader : Duration := defaultReadHeaderTimeout
  readData : Duration := defaultReadDataTimeout
  write : Duration := defaultWriteTimeout
  keepAlive : Option KeepAliveConfig := none
  connectTotal : Duration := defaultConnectTotalTimeout
  pingWrite : Duration := defaultPingWriteTimeout
  pingInterval : Duration := defaultPingInterval
  deriving DecidableEq

namespace TimeoutConfig

def validate (c : TimeoutConfig) : Except Error Unit :=
  if c.connectTotal = 0 then
    .error (.config "connect_total must be greater than zero" [])
  else if c.pingWrite = 0 then
    .error (.config "ping_write must be greater than zero" [])
  else if c.pingInterval ≥ c.readHeader then
    .error (.config ("TimeoutConfig invariant violated: ping_interval (\x7b:?\x7d) >= read_header " ++
      "(\x7b:?\x7d). Pings may not prevent server-side connection timeout.")
      [c.pingInterval, c.readHeader])
  else
    .ok ()

/-- Set `ping_interval`, clamped below `read_header`. -/
def withPingInterval (c : TimeoutConfig) (interval : Duration) : TimeoutConfig :=
  if interval ≥ c.readHeader then
    if c.readHeader > 0 then
      let clamped := c.readHeader - pingClampSubtraction
      { c with
        pingInterval :=
          if clamped = 0 ∧ c.readHeader ≥ pingClampHalveThreshold then
            c.readHeader / pingClampHalveDivisor
          else
            clamped }
    else
      { c with pingInterval := 0 }
  else
    { c with pingInterval := interval }

end TimeoutConfig

end Wagonet
