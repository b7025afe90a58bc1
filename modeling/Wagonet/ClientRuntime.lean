import Wagonet.ClientOperations
import Wagonet.Library.Machine

/-!
A client at work, with its ping tasks.

The threads take their steps in any order: the operation the caller awaits, and
any number of ping tasks, those included that were to be stopped. Dropping a
future at an await point releases its guards. An aborted task is dropped where
it is suspended; as long as it runs it goes on.

`wire` keeps what is sent and received on each connection in the order in which
it happens, and `record` the exchanges that have ended there. `homes` are the
connections for which the ping tasks were started, and `sawEnabled` is what the
threads have read. `call`, `exchanged` and `result` tell of the last operation
which it is, how its exchange has ended and what it has returned. The programs
depend on none of them.
-/

namespace Wagonet

open Library

inductive Agent
  /-- the operation of the caller -/
  | client
  /-- a ping task -/
  | ping (t : Nat)
  deriving DecidableEq

namespace ClientRuntime

/-- How an exchange has ended. -/
inductive Fate
  | returned (r : Except Error (List UInt8))
  | dropped

/-- An exchange that has ended: the operations it completed, and its fate. -/
structure Segment where
  owner : Agent
  exchange : Exchange
  events : List (Net Interface.empty).Event
  fate : Fate

/-- What it has left on the wire. -/
def Segment.tagged (x : Segment) : List (Agent × (Net Interface.empty).Event) :=
  x.events.map (x.owner, ·)

/-- An exchange that goes on: the operations it has completed. -/
structure Ongoing where
  conn : Conn
  exchange : Exchange
  events : List (Net Interface.empty).Event

/-- An exchange that goes on, with what is left of its program. -/
structure Running extends Ongoing where
  task : Task (Net Interface.empty) ByteVec (Except Error (List UInt8))

namespace Ongoing

/-- One more operation. -/
def add (x : Ongoing) (e : (Net Interface.empty).Event) : Ongoing :=
  { x with events := x.events ++ [e] }

def ended (x : Ongoing) (g : Agent) (fate : Fate) : Segment :=
  ⟨g, x.exchange, x.events, fate⟩

end Ongoing

/-- A program and the exchange it waits for, if it has begun. -/
structure Thread (σ α : Type) where
  task : Task ClientIO σ α
  running : Option Running

/-- What the threads share. -/
structure World where
  holder : Mutex → Option Agent
  cell : Option Conn
  shouldStop : Bool
  config : PingConfig
  timeoutConfig : TimeoutConfig
  taskHandle : Option Nat
  /-- the tasks that were aborted -/
  aborted : List Nat
  /-- for each ping task the connection that was stored last before it was spawned -/
  homes : List (Option Conn)
  connections : Nat
  /-- the connection that was stored last -/
  stored : Option Conn
  /-- whether pings were enabled when a thread read the configuration last -/
  sawEnabled : Agent → Bool
  wire : Conn → List (Agent × (Net Interface.empty).Event)
  record : Conn → List Segment

/-- What the surroundings of a thread decide about its next step. -/
inductive Choice
  | go
  /-- what is awaited fails -/
  | fail (e : IoError)
  | tlsFail (code : Nat)
  | duration (d : Duration)
  /-- a timer around what is awaited runs out -/
  | elapse (i : Nat)
  /-- bytes are read -/
  | bytes (bs : List UInt8)
  /-- so many bytes are written -/
  | written (n : Nat)

end ClientRuntime

/-- An operation of the caller. -/
inductive ClientRuntime.ClientOp
  | connect
  | handleMessage (command : UInt32) (requestData : List UInt8)
  | disconnect
  | setKeepAlive (enabled : Bool)
  | setTimeoutConfig (timeoutConfig : TimeoutConfig)

/-- A ping task. -/
structure PingTask where
  thread : ClientRuntime.Thread Unit (Except Error Bool)
  /-- suspended, and not polled at the moment -/
  parked : Bool
  ended : Bool

structure ClientRuntime where
  world : ClientRuntime.World
  fields : ClientFields
  /-- the operation of the caller that was begun and has not ended -/
  op : Option (ClientRuntime.Thread ClientFields (Except Error (List UInt8)))
  pings : Nat → PingTask
  call : Option ClientRuntime.ClientOp
  exchanged : Option (Except Error (List UInt8))
  result : Option (Except Error (List UInt8))

namespace ClientRuntime

/-- The peer's or the network's answer to an operation on the stream. -/
def answer : (o : StreamOp) → Choice → Option o.Reply
  | .read room, .bytes bs => if h : bs.length ≤ room then some (.ok ⟨bs, h⟩) else none
  | .write bytes, .written n => if h : n ≤ bytes.length then some (.ok ⟨n, h⟩) else none
  | .flush, .go => some (.ok ())
  | .read _, .fail e => some (.error e)
  | .write _, .fail e => some (.error e)
  | .flush, .fail e => some (.error e)
  | _, _ => none

namespace World

def setHolder (w : World) (m : Mutex) (g : Option Agent) : World :=
  { w with holder := fun m' => if m' = m then g else w.holder m' }

/-- All guards of this thread are dropped. -/
def release (w : World) (g : Agent) : World :=
  { w with holder := fun m => if w.holder m = some g then none else w.holder m }

def addWire (w : World) (c : Conn) (e : Agent × (Net Interface.empty).Event) : World :=
  { w with wire := fun c' => if c' = c then w.wire c ++ [e] else w.wire c' }

def addRecord (w : World) (c : Conn) (x : Segment) : World :=
  { w with record := fun c' => if c' = c then w.record c ++ [x] else w.record c' }

/-- A call of one of the threads. -/
def call (w : World) (g : Agent) : (c : ClientCall) → Choice → Option (c.Reply × World)
  | .tryLock m, .go =>
      if w.holder m = none then some (true, w.setHolder m (some g)) else some (false, w)
  | .unlock m, .go => some ((), w.setHolder m none)
  | .loadStream, .go => some (w.cell, w)
  | .setStream none, .go => some ((), { w with cell := none })
  | .setStream (some c), .go => some ((), { w with cell := some c, stored := some c })
  | .loadShouldStop, .go => some (w.shouldStop, w)
  | .setShouldStop v, .go => some ((), { w with shouldStop := v })
  | .loadConfig, .go =>
      some (w.config, { w with
        sawEnabled := fun g' => if g' = g then w.config.enabled else w.sawEnabled g' })
  | .setConfig v, .go => some ((), { w with config := v })
  | .loadTimeoutConfig, .go => some (w.timeoutConfig, w)
  | .setTimeoutConfig v, .go => some ((), { w with timeoutConfig := v })
  | .elapsed, .duration d => some (d, w)
  | .touch, .go => some ((), w)
  | .takeHandle, .go => some (w.taskHandle, { w with taskHandle := none })
  | .setHandle t, .go => some ((), { w with taskHandle := some t })
  | .spawn, .go => some (w.homes.length, { w with homes := w.homes ++ [w.stored] })
  | .abort t, .go =>
      some ((), if t < w.homes.length then { w with aborted := t :: w.aborted } else w)
  | .buildConnector, .go => some (.ok (), w)
  | .buildConnector, .tlsFail code => some (.error code, w)
  | _, _ => none

/-- What one of the threads awaits, other than an exchange. -/
def wait (w : World) (g : Agent) : (a : ClientAwait) → Choice → Option (a.Reply × World)
  | .lock m, .go => if w.holder m = none then some ((), w.setHolder m (some g)) else none
  | .tcpConnect, .go => some (.ok w.connections, { w with connections := w.connections + 1 })
  | .tcpConnect, .fail e => some (.error e, w)
  | .tlsConnect _, .go => some (.ok (), w)
  | .tlsConnect _, .tlsFail code => some (.error code, w)
  | .sleep _, .go => some ((), w)
  | .shutdown _, .go => some (.ok (), w)
  | .shutdown _, .fail e => some (.error e, w)
  | _, _ => none

end World

/-- The answer to an operation of an exchange. -/
def Running.answer : (o : (Net Interface.empty).Op) → Choice →
    Option ((Net Interface.empty).Reply o)
  | .wait ts _, .elapse i => if h : i < ts.length then some (.inl ⟨i, h⟩) else none
  | .wait _ a, choice => (ClientRuntime.answer a choice).map .inr
  | .call c, _ => c.elim

namespace Thread

variable {σ α : Type}

/-- The thread is at an await point: one of its exchange, if it is in one. -/
def suspended (th : Thread σ α) : Bool :=
  match th.running, th.task with
  | some run, _ => (run.task matches .await _ _ _)
  | none, .await _ (.wait _ (.exchange _ _ _)) _ => false
  | none, .await _ (.wait _ _) _ => true
  | none, _ => false

/-- The next step of a thread: of its exchange, or of the program itself. -/
def step (K : ClientKind) (g : Agent) (w : World) (th : Thread σ α) (choice : Choice) :
    Option (World × Thread σ α) :=
  match th.task with
  | .done _ _ => none
  | .await _ (.call c) k => (w.call g c choice).map fun (r, w') => (w', ⟨k r, none⟩)
  | .await _ (.wait _ (.exchange c x buffer)) k =>
      match th.running with
      | none => some (w, { th with running := some ⟨⟨c, x, []⟩, K.program x buffer⟩ })
      | some run =>
          match run.task with
          | .done buffer r =>
              some (w.addRecord run.conn (run.ended g (.returned r)),
                ⟨k (.inr (buffer, r)), none⟩)
          | .await _ o k' =>
              (Running.answer o choice).map fun r =>
                (w.addWire run.conn (g, ⟨o, r⟩),
                  { th with running := some ⟨run.add ⟨o, r⟩, k' r⟩ })
  | .await _ (.wait ts a) k =>
      match choice with
      | .elapse i => if h : i < ts.length then some (w, ⟨k (.inl ⟨i, h⟩), none⟩) else none
      | choice => (w.wait g a choice).map fun (r, w') => (w', ⟨k (.inr r), none⟩)

/-- What the exchange has returned that is about to end. -/
def outcome (th : Thread σ α) : Option (Except Error (List UInt8)) :=
  match th.running with
  | some ⟨_, .done _ r⟩ => some r
  | _ => none

/-- What is left in the world when the thread is dropped. -/
def drop (g : Agent) (w : World) (th : Thread σ α) : World :=
  match th.running with
  | none => w.release g
  | some run => (w.addRecord run.conn (run.ended g .dropped)).release g

end Thread

/-- The fields of a client whose operation is dropped here: an exchange leaves its
buffer behind. -/
def fieldsLeft (th : Thread ClientFields (Except Error (List UInt8))) : ClientFields :=
  match th.running with
  | none => th.task.left
  | some run => { th.task.left with buffer := run.task.left }

/-- The program of an operation; only `handle_message` returns bytes. -/
def ClientOp.program (K : ClientKind) :
    ClientOp → Async ClientIO ClientFields Error (List UInt8)
  | .connect => do
      Client.connect K
      pure []
  | .handleMessage command requestData => Client.handleMessage K command requestData
  | .disconnect => do
      Client.disconnect
      pure []
  | .setKeepAlive enabled => do
      Client.setKeepAlive enabled
      pure []
  | .setTimeoutConfig timeoutConfig => do
      Client.setTimeoutConfig timeoutConfig
      pure []

inductive Act
  | start (op : ClientOp)
  | client (choice : Choice)
  /-- the operation returns -/
  | finish
  /-- the future of the operation is dropped -/
  | cancel
  | ping (t : Nat) (choice : Choice)
  /-- the ping task is suspended -/
  | park (t : Nat)
  /-- the ping task is polled again -/
  | resume (t : Nat)
  /-- an iteration of the ping task ends -/
  | turn (t : Nat)
  /-- the runtime drops an aborted ping task -/
  | drop (t : Nat)

def setPing (s : ClientRuntime) (t : Nat) (p : PingTask) : ClientRuntime :=
  { s with pings := fun t' => if t' = t then p else s.pings t' }

/-- The task was spawned, and has not ended. -/
def alive (s : ClientRuntime) (t : Nat) : Prop :=
  t < s.world.homes.length ∧ (s.pings t).ended = false

instance (s : ClientRuntime) (t : Nat) : Decidable (s.alive t) :=
  inferInstanceAs (Decidable (_ ∧ _))

def step (K : ClientKind) (s : ClientRuntime) : Act → Option ClientRuntime
  | .start op =>
      match s.op with
      | none =>
          some { s with
            op := some ⟨op.program K s.fields, none⟩
            call := some op
            exchanged := none
            result := none }
      | some _ => none
  | .client choice =>
      match s.op with
      | some th =>
          (th.step K .client s.world choice).map fun (w, th') =>
            { s with world := w, op := some th', exchanged := th.outcome.or s.exchanged }
      | none => none
  | .finish =>
      match s.op with
      | some ⟨.done fields r, _⟩ => some { s with fields := fields, op := none, result := some r }
      | _ => none
  | .cancel =>
      match s.op with
      | some th =>
          if th.suspended then
            some { s with
              world := th.drop .client s.world
              fields := fieldsLeft th
              op := none }
          else
            none
      | none => none
  | .ping t choice =>
      if s.alive t ∧ (s.pings t).parked = false then
        ((s.pings t).thread.step K (.ping t) s.world choice).map fun (w, th') =>
          { s with world := w }.setPing t { s.pings t with thread := th' }
      else
        none
  | .park t =>
      if s.alive t ∧ (s.pings t).parked = false ∧ (s.pings t).thread.suspended then
        some (s.setPing t { s.pings t with parked := true })
      else
        none
  | .resume t =>
      if s.alive t ∧ (s.pings t).parked = true ∧ t ∉ s.world.aborted then
        some (s.setPing t { s.pings t with parked := false })
      else
        none
  | .turn t =>
      if s.alive t ∧ (s.pings t).parked = false then
        match (s.pings t).thread.task with
        | .done _ (.ok true) =>
            some (s.setPing t { s.pings t with thread := ⟨PingState.pingIteration (), none⟩ })
        | .done _ _ => some (s.setPing t { s.pings t with ended := true })
        | _ => none
      else
        none
  | .drop t =>
      if s.alive t ∧ (s.pings t).parked = true ∧ t ∈ s.world.aborted then
        some ({ s with world := (s.pings t).thread.drop (.ping t) s.world }.setPing t
          { s.pings t with ended := true })
      else
        none

/-- A client that was just made. -/
structure Fresh (s : ClientRuntime) : Prop where
  unlocked : ∀ m, s.world.holder m = none
  cell : s.world.cell = none
  aborted : s.world.aborted = []
  homes : s.world.homes = []
  stored : s.world.stored = none
  sawEnabled : ∀ g, s.world.sawEnabled g = true
  wire : ∀ c, s.world.wire c = []
  record : ∀ c, s.world.record c = []
  op : s.op = none
  call : s.call = none
  taskHandle : s.world.taskHandle = none
  keepAlive : s.fields.keepAlive = false
  pings : ∀ t, s.pings t = ⟨⟨PingState.pingIteration (), none⟩, true, false⟩

def machine (K : ClientKind) : Machine ClientRuntime Act where
  init := Fresh
  step := step K

/-- `ClientTL::new` -/
def new : ClientRuntime where
  world :=
    { holder := fun _ => none
      cell := none
      shouldStop := false
      config := ⟨defaultPingInterval, true⟩
      timeoutConfig := {}
      taskHandle := none
      aborted := []
      homes := []
      connections := 0
      stored := none
      sawEnabled := fun _ => true
      wire := fun _ => []
      record := fun _ => [] }
  fields :=
    { commandHasAnswer := true
      buffer := .withCapacity FramedServer.defaultMaxBufferSize
      maxBufferSize := FramedServer.defaultMaxBufferSize
      timeoutConfig := {}
      keepAlive := false }
  op := none
  pings := fun _ => ⟨⟨PingState.pingIteration (), none⟩, true, false⟩
  call := none
  exchanged := none
  result := none

theorem fresh_new : Fresh new := by
  constructor <;> intros <;> rfl

/-- The operation of the caller takes so many steps that cannot fail. -/
def clientGoes (n : Nat) : List Act := List.replicate n (.client .go)

/-- The first ping task takes so many steps that cannot fail. -/
def pingGoes (n : Nat) : List Act := List.replicate n (.ping 0 .go)

/-- A keep-alive connection is made, and with it the first ping task. -/
def connecting : List Act :=
  [.start (.setKeepAlive true)] ++ clientGoes 4 ++ [.finish, .start .connect] ++ clientGoes 23 ++
    [.finish]

/-- The ping task finds that a ping is due, and has locked the stream for it. -/
def pinging : List Act :=
  [.resume 0] ++ pingGoes 8 ++ [.ping 0 (.duration (.fromSecs 30))] ++ pingGoes 7

/-- The ping is sent and answered. -/
def pingAnswered : List Act :=
  pingGoes 4 ++ [.ping 0 (.written 8), .ping 0 .go, .ping 0 (.bytes [1]), .ping 0 (.elapse 0)] ++
    pingGoes 6

/-- No future is dropped in this action, and no task. -/
def Act.dropsNone : Act → Bool
  | .cancel => false
  | .drop _ => false
  | _ => true

/-- The mutex that a thread waits for. -/
def Thread.wanted {σ α : Type} (th : Thread σ α) : Option Mutex :=
  match th.task with
  | .await _ (.wait _ (.lock m)) _ => some m
  | _ => none

def wanted (s : ClientRuntime) : Agent → Option Mutex
  | .client => s.op.bind (·.wanted)
  | .ping t => if s.alive t then (s.pings t).thread.wanted else none

end ClientRuntime

end Wagonet
