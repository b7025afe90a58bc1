import Wagonet.ConnectionHandler

/-!
`Server::run`: the accept loop and the drain loop.

The run task goes through its statements one at a time. Everything else is an
action of its surroundings: connections arrive, `accept` fails, timers run out,
values are sent on the shutdown channel, and connection tasks go on and end.
Of a connection task the server sees only whether it has ended; its stages are
those of `ConnectionHandler::run`.
-/

namespace Wagonet

open Library

/-- `Semaphore::MAX_PERMITS`, `usize::MAX >> 3`; a semaphore with more panics. -/
def maxPermits : Nat := (2 ^ 64 - 1) / 8

namespace Server

/-- How a connection task has ended. -/
inductive Ending
  | returned
  | failed
  | panicked
  | aborted
  deriving DecidableEq

/-- How far a connection task is in `ConnectionHandler::run`. -/
inductive Stage
  /-- in the TLS handshake, where the shutdown channel is not watched -/
  | handshake
  | serving
  | ended (how : Ending)
  deriving DecidableEq

/-- The stages a connection task can go on to. -/
def Stage.canBecome : Stage → Stage → Bool
  | .handshake, .serving => true
  | .handshake, .ended _ => true
  | .serving, .ended _ => true
  | _, _ => false

def Stage.isEnded : Stage → Bool
  | .ended _ => true
  | _ => false

/-- A spawned connection task: the accepted stream and the command handler it owns.
The permit it owns is dropped when it ends. -/
structure Conn where
  stream : Nat
  handler : Nat
  stage : Stage
  abortRequested : Bool
  deriving DecidableEq

structure Config where
  hasFactory : Bool
  isTls : Bool
  maxConnections : Nat
  drainTimeout : Duration

inductive Phase
  /-- `run` was called -/
  | start
  /-- at the head of the accept loop -/
  | loopHead
  /-- waiting for a permit -/
  | permitWait
  /-- in the `select!` of `accept` and `changed`, with a permit -/
  | accepting
  /-- the `changed` branch was taken, the value is not read yet -/
  | acceptWoken
  /-- a stream was accepted -/
  | accepted (stream : Nat)
  /-- in the `select!` of the back-off and `changed`, with the permit -/
  | backoff
  | backoffWoken
  /-- in the drain loop, about to look at the handle with this index -/
  | draining (i : Nat)
  /-- awaiting the handle with this index inside the timer -/
  | joining (i : Nat)
  | returned
  | failed
  | panicked
  deriving DecidableEq

/-- The phases of the accept loop. -/
def Phase.inAcceptLoop : Phase → Bool
  | .loopHead => true
  | .permitWait => true
  | .accepting => true
  | .acceptWoken => true
  | .accepted _ => true
  | .backoff => true
  | .backoffWoken => true
  | _ => false

end Server

structure Server where
  phase : Server.Phase
  shutdown : Watch Bool
  /-- the version of `shutdown_rx` -/
  seen : Nat
  /-- the permits the semaphore has left -/
  permits : Nat
  /-- the streams `accept` has returned, in order -/
  accepted : List Nat
  /-- how often the factory was called; the handlers are numbered by their call -/
  factoryCalls : Nat
  /-- all tasks ever spawned, in order -/
  conns : List Server.Conn
  /-- `connection_handles`, as indices into `conns` -/
  handles : List Nat
  /-- the time since the drain loop began -/
  elapsed : Duration

namespace Server

inductive Act
  | bind (ok : Bool)
  /-- `retain(|h| !h.is_finished())` -/
  | prune
  /-- `acquire_owned` returns -/
  | acquire
  | acceptOk (stream : Nat)
  | acceptErr
  /-- a `changed` branch is taken -/
  | changed
  /-- `*self.shutdown_rx.borrow()` -/
  | borrow
  /-- create the handler and spawn the connection task -/
  | spawn
  | backoffExpired
  | notify (value : Bool)
  | dropSenders
  /-- a connection task goes on to another stage -/
  | conn (i : Nat) (stage : Stage)
  /-- look at the clock in the drain loop -/
  | drain
  /-- the awaited handle has finished -/
  | joined
  /-- the drain timer runs out -/
  | drainExpired
  /-- time passes -/
  | tick (d : Duration)

/-- The actions the run task performs without anybody else: its statements, its own
timers, and noticing what was sent on the shutdown channel. -/
def Act.own : Act → Bool
  | .prune => true
  | .acquire => true
  | .changed => true
  | .borrow => true
  | .spawn => true
  | .backoffExpired => true
  | _ => false

def isFinished (s : Server) (i : Nat) : Bool :=
  match s.conns[i]? with
  | some c => c.stage.isEnded
  | none => false

/-- `drain(i..)` with an `abort` of every handle. -/
def abortFrom (s : Server) (i : Nat) : Server :=
  { s with
    phase := .returned
    handles := s.handles.take i
    conns := s.conns.mapIdx fun j c =>
      if j ∈ s.handles.drop i then { c with abortRequested := true } else c }

variable (config : Config)

/-- Leave the iteration that holds a permit: the permit is dropped. -/
def dropPermit (s : Server) (phase : Phase) : Server :=
  { s with phase := phase, permits := s.permits + 1 }

def step (s : Server) : Act → Option Server
  | .bind ok =>
      match s.phase with
      | .start =>
          if config.hasFactory = false ∨ ok = false then
            some { s with phase := .failed }
          else if config.maxConnections ≠ 0 ∧ config.maxConnections > maxPermits then
            -- `Semaphore::new` panics
            some { s with phase := .panicked }
          else
            some { s with phase := .loopHead, permits := config.maxConnections }
      | _ => none
  | .prune =>
      match s.phase with
      | .loopHead =>
          some { s with
            phase := .permitWait
            handles := s.handles.filter fun i => !s.isFinished i }
      | _ => none
  | .acquire =>
      match s.phase with
      | .permitWait =>
          if config.maxConnections = 0 then
            -- no semaphore, hence no permit: `None => break`
            some { s with phase := .draining 0 }
          else if s.permits > 0 then
            some { s with phase := .accepting, permits := s.permits - 1 }
          else
            none
      | _ => none
  | .acceptOk stream =>
      match s.phase with
      | .accepting =>
          some { s with phase := .accepted stream, accepted := s.accepted ++ [stream] }
      | _ => none
  | .acceptErr =>
      match s.phase with
      | .accepting => some { s with phase := .backoff }
      | _ => none
  | .changed =>
      if s.shutdown.changed s.seen then
        match s.phase with
        | .accepting => some { s with phase := .acceptWoken, seen := s.shutdown.version }
        | .backoff => some { s with phase := .backoffWoken, seen := s.shutdown.version }
        | _ => none
      else
        none
  | .borrow =>
      match s.phase with
      | .acceptWoken =>
          some (s.dropPermit (if s.shutdown.value then .draining 0 else .loopHead))
      | .backoffWoken =>
          some (s.dropPermit (if s.shutdown.value then .draining 0 else .loopHead))
      | _ => none
  | .spawn =>
      match s.phase with
      | .accepted stream =>
          some { s with
            phase := .loopHead
            factoryCalls := s.factoryCalls + 1
            conns := s.conns ++
              [⟨stream, s.factoryCalls, if config.isTls then .handshake else .serving, false⟩]
            handles := s.handles ++ [s.conns.length] }
      | _ => none
  | .backoffExpired =>
      match s.phase with
      | .backoff => some (s.dropPermit .loopHead)
      | _ => none
  | .notify value => some { s with shutdown := s.shutdown.send value }
  | .dropSenders => some { s with shutdown := s.shutdown.close }
  | .conn i stage =>
      match s.conns[i]? with
      | some c =>
          if c.stage.canBecome stage ∧ (stage = .ended .aborted → c.abortRequested) then
            some { s with
              conns := s.conns.set i { c with stage := stage }
              permits := if stage.isEnded then s.permits + 1 else s.permits }
          else
            none
      | none => none
  | .drain =>
      match s.phase with
      | .draining i =>
          if i < s.handles.length then
            if s.elapsed ≥ config.drainTimeout then some (s.abortFrom i)
            else some { s with phase := .joining i }
          else
            some { s with phase := .returned }
      | _ => none
  | .joined =>
      match s.phase with
      | .joining i =>
          match s.handles[i]? with
          | some h => if s.isFinished h then some { s with phase := .draining (i + 1) } else none
          | none => none
      | _ => none
  | .drainExpired =>
      match s.phase with
      | .joining i =>
          match s.handles[i]? with
          | some h =>
              if s.isFinished h = false ∧ s.elapsed ≥ config.drainTimeout then
                some (s.abortFrom i)
              else none
          | none => none
      | _ => none
  | .tick d =>
      match s.phase with
      | .draining _ => some { s with elapsed := s.elapsed + d }
      | .joining _ => some { s with elapsed := s.elapsed + d }
      | _ => some s

/-- A server on which `run` was called: nothing was accepted, and whatever was sent on
the shutdown channel is unseen. -/
def Fresh (s : Server) : Prop :=
  s.phase = .start ∧ s.seen ≤ s.shutdown.version ∧
    (s.shutdown.value = true → s.seen ≠ s.shutdown.version) ∧
    s.accepted = [] ∧ s.factoryCalls = 0 ∧ s.conns = [] ∧ s.handles = [] ∧ s.elapsed = 0

def machine : Machine Server Act where
  init := Fresh
  step := step config

end Server

namespace ConnectionHandler

/-- What the server can tell of a connection task. -/
def Phase.stage : Phase → Server.Stage
  | .tlsAccept => .handshake
  | .setUp => .serving
  | .serving _ => .serving
  | .woken _ => .serving
  | .ended (.ok _) => .ended .returned
  | .ended (.error _) => .ended .failed
  | .aborted => .ended .aborted

end ConnectionHandler

end Wagonet
