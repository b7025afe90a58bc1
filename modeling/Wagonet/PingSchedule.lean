import Wagonet.ClientOperations
import Wagonet.Library.Polling

/-!
When the ping task of an idle connection sends its first ping.

The task looks at the clock once in each period, and sends a ping at the first
look at which the interval is over. The moment of the last activity lies anywhere
in a period, so that look may come a whole period late.
-/

namespace Wagonet

open Library

namespace PingState

/-- The surroundings of the ping task while nobody else uses the connection: sleeps are
exact, nothing else takes time, all locks are free, and nothing is changed. -/
structure Idle where
  config : TimeoutConfig
  /-- `last_activity` -/
  activity : Duration

/-- The time between two looks at the clock. -/
def checkInterval (config : TimeoutConfig) : Duration :=
  max (config.pingInterval / pingCheckDivisor) minPingCheckInterval

namespace Idle

variable (e : Idle) (now : Duration)

def answerWait : (a : ClientAwait) → Option (a.Reply × Duration)
  | .lock _ => some ((), now)
  | .sleep d => some ((), now + d)
  | _ => none

def answerCall : (c : ClientCall) → Option c.Reply
  | .tryLock _ => some true
  | .unlock _ => some ()
  | .loadStream => some (some 0)
  | .loadShouldStop => some false
  | .loadConfig => some ⟨e.config.pingInterval, true⟩
  | .loadTimeoutConfig => some e.config
  | .elapsed => some (now - e.activity)
  | _ => none

/-- Perform the program up to the first ping, or to its end. -/
def untilPing {σ α : Type} : Task ClientIO σ α → Duration → Option (Duration ⊕ (α × Duration))
  | .done _ a, now => some (.inr (a, now))
  | .await _ (.call c) k, now => (e.answerCall now c).bind fun r => untilPing (k r) now
  | .await _ (.wait _ (.exchange _ .ping _)) _, now => some (.inl now)
  | .await _ (.wait _ a) k, now =>
      (answerWait now a).bind fun (r, now') => untilPing (k (.inr r)) now'

/-- The moment of the first ping that the task sends from now on, where an iteration
begins; it is looked for in so many iterations. -/
def firstPing : Nat → Duration → Option Duration
  | 0, _ => none
  | n + 1, now =>
      match e.untilPing (pingIteration ()) now with
      | some (.inl t) => some t
      | some (.inr (.ok true, now')) => firstPing n now'
      | _ => none

section

variable {e now} {σ ε α : Type} {s : σ}

theorem untilPing_sleep {d : Duration} {f : Unit → Async ClientIO σ ε α} :
    e.untilPing ((Async.wait (A := ClientAwaits) (.sleep d) >>= f) s) now =
      e.untilPing (f () s) (now + d) := rfl

theorem untilPing_lock {m : Mutex} {f : Unit → Async ClientIO σ ε α} :
    e.untilPing ((Async.wait (A := ClientAwaits) (.lock m) >>= f) s) now =
      e.untilPing (f () s) now := rfl

theorem untilPing_call {c : ClientCall} {r : c.Reply} {f : c.Reply → Async ClientIO σ ε α}
    (hc : e.answerCall now c = some r) :
    e.untilPing ((Async.call (C := ClientCalls) c >>= f) s) now = e.untilPing (f r s) now := by
  rw [Async.bind_apply, Async.call, Task.bind_await, untilPing, hc]
  rfl

theorem untilPing_withLock {m : Mutex} {c : ClientCall} {r : c.Reply}
    {f : c.Reply → Async ClientIO σ ε α} (hc : e.answerCall now c = some r) :
    e.untilPing ((withLock m c >>= f) s) now = e.untilPing (f r s) now := by
  simp only [withLock, Async.bind_assoc]
  rw [untilPing_lock, untilPing_call hc, untilPing_call rfl, Async.pure_bind]

end

/-- One iteration: sleep, look at the clock, and send a ping if the interval is over. -/
theorem untilPing_pingIteration :
    e.untilPing (pingIteration ()) now =
      if now + checkInterval e.config - e.activity < e.config.pingInterval then
        some (.inr (.ok true, now + checkInterval e.config))
      else
        some (.inl (now + checkInterval e.config)) := by
  rw [pingIteration, untilPing_withLock rfl, untilPing_sleep, untilPing_withLock rfl, if_neg nofun,
    untilPing_withLock rfl, untilPing_withLock rfl]
  split
  · rename_i hearly
    exact (if_pos hearly).symm
  · rename_i hlate
    rw [untilPing_call rfl, if_pos rfl, untilPing_lock, untilPing_call rfl,
      untilPing_withLock rfl]
    exact (if_neg hlate).symm

/-- The task polls the clock. -/
theorem firstPing_eq (n : Nat) :
    e.firstPing n now =
      Polling.firstLook (checkInterval e.config) e.config.pingInterval e.activity n now := by
  induction n generalizing now with
  | zero => rfl
  | succ n ih =>
      rw [firstPing, untilPing_pingIteration, Polling.firstLook]
      by_cases hearly : now + checkInterval e.config - e.activity < e.config.pingInterval
      · rw [if_pos hearly, if_pos hearly]
        exact ih _
      · rw [if_neg hearly, if_neg hearly]

end Idle

theorem checkInterval_pos (config : TimeoutConfig) : 0 < checkInterval config :=
  Nat.lt_of_lt_of_le (by decide) (Nat.le_max_right _ _)

/-- However the last activity falls between two looks at the clock, a ping is sent
before a peer with the same timeouts gives up waiting for a request header. -/
def EarlyEnough (config : TimeoutConfig) : Prop :=
  ∀ now activity, now ≤ activity → activity ≤ now + checkInterval config →
    ∃ n t, (⟨config, activity⟩ : Idle).firstPing n now = some t ∧ t < activity + config.readHeader

/-- Pings are early enough exactly if the interval and a period between two looks at the
clock together are no more than the peer's timeout. -/
theorem earlyEnough_iff {config : TimeoutConfig} (hpos : 0 < config.pingInterval) :
    EarlyEnough config ↔ config.pingInterval + checkInterval config ≤ config.readHeader := by
  simp only [EarlyEnough, Idle.firstPing_eq]
  exact Polling.firstLook_within_iff (checkInterval_pos config) hpos

/-- The defaults are early enough. -/
theorem earlyEnough_iff_default :
    EarlyEnough {} ↔ defaultPingInterval + .fromMillis 7500 ≤ defaultReadHeaderTimeout :=
  @earlyEnough_iff {} (by decide)

/-- An interval that was clamped below the peer's timeout leaves no room for a period. -/
theorem clamped_not_early :
    ¬∀ config : TimeoutConfig, config.validate = .ok () → 0 < config.pingInterval →
      EarlyEnough config := by
  intro h
  have hearly := h (TimeoutConfig.withPingInterval {} defaultReadHeaderTimeout) rfl (by decide)
  exact absurd ((earlyEnough_iff (by decide)).mp hearly) (by decide)

end PingState

end Wagonet
