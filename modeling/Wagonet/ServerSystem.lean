import Wagonet.Library.View
import Wagonet.DrainLoop
import Wagonet.ConnectionPermits
import Wagonet.ConnectionShutdown

/-!
The server with its connection tasks.

`run` and the tasks it has spawned take their steps in any order. They share the shutdown
channel, each with a receiver of its own: a task gets a clone of the receiver of `run`. A
task that goes on to another stage gives its permit back if this is its end, and `run` sees
of it what `JoinHandle` shows. No task panics, since no command handler does.
-/

namespace Wagonet

open Library

/-! ### The streams and their tasks -/

namespace Server

variable {config : Config} {s s' : Server} {a : Act}

/-- What a request to abort leaves as it is. -/
def Conn.kept (c : Conn) : Nat × Nat × Stage := (c.stream, c.handler, c.stage)

theorem map_of_kept {α : Type} (f : Nat × Nat × Stage → α)
    (h : s'.conns.map Conn.kept = s.conns.map Conn.kept) :
    s'.conns.map (fun c => f c.kept) = s.conns.map (fun c => f c.kept) := by
  simpa [Function.comp_def] using congrArg (List.map f) h

/-- The actions that concern the accepted streams and their tasks. -/
def Act.takes : Act → Bool
  | .acceptOk _ => true
  | .spawn => true
  | .conn _ _ => true
  | _ => false

/-- What a step does to the accepted streams and to the tasks that are spawned for them. -/
inductive Takes (config : Config) (s : Server) : Act → Server → Prop
  | nothing {a : Act} {s' : Server} : a.takes = false →
      s'.phase.pending = s.phase.pending → s'.accepted = s.accepted →
        s'.conns.map Conn.kept = s.conns.map Conn.kept → s'.factoryCalls = s.factoryCalls →
          Takes config s a s'
  | accepts {stream : Nat} : s.phase = .accepting → Takes config s (.acceptOk stream)
      { s with phase := .accepted stream, accepted := s.accepted ++ [stream] }
  | spawns {stream : Nat} : s.phase = .accepted stream → Takes config s .spawn
      { s with
        phase := .loopHead
        factoryCalls := s.factoryCalls + 1
        conns := s.conns ++
          [⟨stream, s.factoryCalls, if config.isTls then .handshake else .serving, false⟩]
        handles := s.handles ++ [s.conns.length] }
  | goesOn {s' : Server} {i : Nat} {c : Conn} {stage : Stage} : s.conns[i]? = some c →
      s'.conns = s.conns.set i { c with stage := stage } → s'.phase = s.phase →
        s'.accepted = s.accepted → s'.factoryCalls = s.factoryCalls →
          Takes config s (.conn i stage) s'

theorem takes_of_step (hs : step config s a = some s') : Takes config s a s' := by
  have loop {s' : Server} {a : Act} (ha : a.takes = false)
      (hpending : s'.phase.pending = s.phase.pending) (haccepted : s'.accepted = s.accepted)
      (hconns : s'.conns = s.conns) (hcalls : s'.factoryCalls = s.factoryCalls) :
      Takes config s a s' :=
    .nothing ha hpending haccepted (congrArg _ hconns) hcalls
  have aborts {i : Nat} {a : Act} (ha : a.takes = false)
      (hpending : s.phase.pending = []) : Takes config s a (s.abortFrom i) := by
    refine .nothing ha hpending.symm rfl ?_ rfl
    refine List.ext_getElem (by simp [abortFrom]) fun j _ _ => ?_
    simp only [abortFrom, List.getElem_map, List.getElem_mapIdx]
    split <;> rfl
  cases a with
  | acceptOk stream =>
      simp only [step] at hs
      split at hs <;> cases hs
      exact .accepts ‹_›
  | spawn =>
      simp only [step] at hs
      split at hs <;> cases hs
      exact .spawns ‹_›
  | conn i stage =>
      simp only [step] at hs
      split at hs
      · split at hs <;> cases hs
        exact .goesOn ‹_› rfl rfl rfl rfl
      · cases hs
  | notify | dropSenders => cases hs; exact loop rfl rfl rfl rfl rfl
  | drain =>
      simp only [step] at hs
      split at hs
      · rename_i i hphase
        split at hs
        · split at hs <;> cases hs
          · exact aborts rfl (by rw [hphase]; rfl)
          · exact loop rfl (by rw [hphase]; rfl) rfl rfl rfl
        · cases hs
          exact loop rfl (by rw [hphase]; rfl) rfl rfl rfl
      · cases hs
  | joined =>
      simp only [step] at hs
      split at hs
      · rename_i i hphase
        split at hs
        · split at hs <;> cases hs
          exact loop rfl (by rw [hphase]; rfl) rfl rfl rfl
        · cases hs
      · cases hs
  | drainExpired =>
      simp only [step] at hs
      split at hs
      · rename_i i hphase
        split at hs
        · split at hs <;> cases hs
          exact aborts rfl (by rw [hphase]; rfl)
        · cases hs
      · cases hs
  | tick d =>
      simp only [step] at hs
      split at hs <;> cases hs <;> exact loop rfl rfl rfl rfl rfl
  | borrow =>
      simp only [step] at hs
      split at hs <;> cases hs
      all_goals
        rename_i hphase
        refine loop rfl ?_ rfl rfl rfl
        rw [hphase, dropPermit]
        cases s.shutdown.value <;> rfl
  | changed =>
      simp only [step] at hs
      split at hs
      · split at hs <;> cases hs
        all_goals
          rename_i hphase
          exact loop rfl (by rw [hphase]; rfl) rfl rfl rfl
      · cases hs
  | bind ok =>
      simp only [step] at hs
      split at hs
      · rename_i hphase
        split at hs
        · cases hs
          exact loop rfl (by rw [hphase]; rfl) rfl rfl rfl
        · split at hs <;> cases hs
          · exact loop rfl (by rw [hphase]; rfl) rfl rfl rfl
          · exact loop rfl (by rw [hphase]; rfl) rfl rfl rfl
      · cases hs
  | acquire =>
      simp only [step] at hs
      split at hs
      · rename_i hphase
        split at hs
        · cases hs
          exact loop rfl (by rw [hphase]; rfl) rfl rfl rfl
        · split at hs <;> cases hs
          exact loop rfl (by rw [hphase]; rfl) rfl rfl rfl
      · cases hs
  | prune | acceptErr | backoffExpired =>
      simp only [step] at hs
      split at hs <;> cases hs
      rename_i hphase
      exact loop rfl (by rw [hphase]; rfl) rfl rfl rfl

/-- Every accepted stream is handed to one task, in order, with a command handler of its
own. -/
structure Keyed (s : Server) : Prop where
  streams : s.conns.map (·.stream) ++ s.phase.pending = s.accepted
  handlers : s.conns.map (·.handler) = List.range s.factoryCalls

theorem keyed_of_fresh (h : Fresh s) : Keyed s := by
  obtain ⟨hphase, -, -, haccepted, hcalls, hconns, -, -⟩ := h
  refine ⟨?_, ?_⟩
  · rw [hconns, hphase, haccepted]
    rfl
  · rw [hconns, hcalls]
    rfl

theorem Keyed.step (h : Keyed s) (hs : Server.step config s a = some s') : Keyed s' := by
  obtain ⟨hstreams, hhandlers⟩ := h
  cases takes_of_step hs with
  | nothing _ hpending haccepted hconns hcalls =>
      refine ⟨?_, ?_⟩
      · rw [hpending, haccepted, ← hstreams]
        exact congrArg (· ++ _) (map_of_kept (·.1) hconns)
      · rw [hcalls, ← hhandlers]
        exact map_of_kept (·.2.1) hconns
  | accepts hphase =>
      refine ⟨?_, hhandlers⟩
      rw [hphase] at hstreams
      rw [← hstreams]
      simp [Phase.pending]
  | spawns hphase =>
      refine ⟨?_, ?_⟩
      · rw [hphase] at hstreams
        rw [← hstreams]
        simp [Phase.pending]
      · simp [hhandlers, List.range_succ]
  | @goesOn s' i c stage hc hconns hphase haccepted hcalls =>
      refine ⟨?_, ?_⟩
      · rw [hconns, hphase, haccepted,
          map_set_of_getElem? (·.stream) (b := { c with stage := stage }) hc rfl, hstreams]
      · rw [hconns, hcalls,
          map_set_of_getElem? (·.handler) (b := { c with stage := stage }) hc rfl, hhandlers]

/-- The shutdown channel after an action of the server. -/
def Act.heard (a : Act) (shutdown : Watch Bool) : Watch Bool :=
  match a with
  | .notify value => shutdown.send value
  | .dropSenders => shutdown.close
  | _ => shutdown

theorem shutdown_of_step (hs : step config s a = some s') :
    s'.shutdown = a.heard s.shutdown := by
  cases a with
  | notify | dropSenders => cases hs; rfl
  | tick d =>
      simp only [step] at hs
      split at hs <;> cases hs <;> rfl
  | bind | acquire | conn | drain | joined | drainExpired | changed =>
      simp only [step] at hs
      repeat' split at hs
      all_goals first | cases hs; rfl | cases hs
  | prune | acceptOk | acceptErr | backoffExpired | spawn | borrow =>
      simp only [step] at hs
      split at hs <;> cases hs <;> rfl

end Server

/-! ### Everybody together -/

/-- `ConnectionHandler::new` for a stream that was just accepted, with the TLS acceptor of
the server if it has one. -/
def ConnectionHandler.new (isTls : Bool) (shutdown : Watch Bool) (seen : Nat) :
    ConnectionHandler :=
  ⟨if isTls then .tlsAccept else .setUp, {}, shutdown, seen, [], []⟩

theorem ConnectionHandler.fresh_new {isTls : Bool} {shutdown : Watch Bool} {seen : Nat} :
    Fresh (.new isTls shutdown seen) := by
  refine ⟨?_, rfl, rfl, rfl, rfl⟩
  cases isTls
  · exact .inr rfl
  · exact .inl rfl

structure ServerSystem where
  server : Server
  /-- the connection tasks, in the order in which they were spawned -/
  tasks : List ConnectionHandler

namespace ServerSystem

structure Config extends Server.Config where
  maxBufferSize : Nat
  /-- the command handlers that the factory creates, by the number of its call -/
  factory : Nat → CommandHandler

inductive Act
  | server (a : Server.Act)
  /-- something happens to a connection task, or it goes on -/
  | task (i : Nat) (a : ConnectionHandler.Act)

/-- What the connection tasks hear on the shutdown channel. -/
def hears : Server.Act → Option ConnectionHandler.Act
  | .notify value => some (.notify value)
  | .dropSenders => some .dropSenders
  | _ => none

def hear (a : Server.Act) (t : ConnectionHandler) : ConnectionHandler :=
  { t with shutdown := a.heard t.shutdown }

/-- The actions of one connection. -/
def own (i : Nat) : Act → Option ConnectionHandler.Act
  | .server a => hears a
  | .task j a => if j = i then some a else none

/-- What a connection task or its surroundings do, the shutdown channel apart. -/
def ofTask : ConnectionHandler.Act → Bool
  | .notify _ => false
  | .dropSenders => false
  | _ => true

/-- A connection task ends or goes on only by itself. -/
def ofServer : Server.Act → Bool
  | .conn _ _ => false
  | _ => true

/-- The task that a statement of `run` spawns. -/
def spawned (config : Config) (s : Server) : Server.Act → List ConnectionHandler
  | .spawn => [.new config.isTls s.shutdown s.seen]
  | _ => []

/-- What the server sees when a task goes on. -/
def seeStage (config : Config) (s : Server) (i : Nat) (stage stage' : Server.Stage) :
    Option Server :=
  if stage' = stage then some s else Server.step config.toConfig s (.conn i stage')

def step (config : Config) (s : ServerSystem) : Act → Option ServerSystem
  | .server a =>
      if ofServer a then
        (Server.step config.toConfig s.server a).map fun server =>
          ⟨server, s.tasks.map (hear a) ++ spawned config s.server a⟩
      else
        none
  | .task i a =>
      if ofTask a then
        s.tasks[i]?.bind fun t =>
          (ConnectionHandler.step (config.factory i) config.maxBufferSize t a).bind fun t' =>
            (seeStage config s.server i t.phase.stage t'.phase.stage).map fun server =>
              ⟨server, s.tasks.set i t'⟩
      else
        none

/-- A server on which `run` was called. -/
def Fresh (s : ServerSystem) : Prop := Server.Fresh s.server ∧ s.tasks = []

def machine (config : Config) : Machine ServerSystem Act where
  init := Fresh
  step := step config

variable {config : Config} {s s' : ServerSystem}

/-! ### What a step does -/

/-- The two kinds of steps. -/
inductive Does (config : Config) (s : ServerSystem) : Act → ServerSystem → Prop
  | server {a : Server.Act} {server : Server} : ofServer a = true →
      Server.step config.toConfig s.server a = some server →
        Does config s (.server a) ⟨server, s.tasks.map (hear a) ++ spawned config s.server a⟩
  | task {i : Nat} {a : ConnectionHandler.Act} {t t' : ConnectionHandler} {server : Server} :
      ofTask a = true → s.tasks[i]? = some t →
        ConnectionHandler.step (config.factory i) config.maxBufferSize t a = some t' →
          seeStage config s.server i t.phase.stage t'.phase.stage = some server →
            Does config s (.task i a) ⟨server, s.tasks.set i t'⟩

theorem does_of_step {a : Act} (hs : step config s a = some s') : Does config s a s' := by
  cases a with
  | server a =>
      obtain ⟨ha, hs⟩ := Option.ite_none_right_eq_some.mp hs
      obtain ⟨server, hserver, rfl⟩ := Option.map_eq_some_iff.mp hs
      exact .server ha hserver
  | task i a =>
      obtain ⟨ha, hs⟩ := Option.ite_none_right_eq_some.mp hs
      obtain ⟨t, ht, hs⟩ := Option.bind_eq_some_iff.mp hs
      obtain ⟨t', ht', hs⟩ := Option.bind_eq_some_iff.mp hs
      obtain ⟨server, hserver, rfl⟩ := Option.map_eq_some_iff.mp hs
      exact .task ha ht ht' hserver

theorem hear_eq_step {handler : CommandHandler} {m : Nat} {a : Server.Act}
    {b : ConnectionHandler.Act} (h : hears a = some b) (t : ConnectionHandler) :
    ConnectionHandler.step handler m t b = some (hear a t) := by
  cases a with
  | notify value => cases h; rfl
  | dropSenders => cases h; rfl
  | _ => cases h

theorem hear_eq_self {a : Server.Act} (h : hears a = none) (t : ConnectionHandler) :
    hear a t = t := by
  cases a with
  | notify | dropSenders => cases h
  | _ => rfl

@[simp] theorem hear_phase (a : Server.Act) (t : ConnectionHandler) :
    (hear a t).phase = t.phase := rfl

/-! ### A connection is on its own -/

/-- A connection task performs its own actions and no others. -/
theorem task_of_step {i : Nat} {a : Act} {t : ConnectionHandler} (ht : s.tasks[i]? = some t)
    (hs : step config s a = some s') :
    match own i a with
    | none => s'.tasks[i]? = some t
    | some b => ∃ t', ConnectionHandler.step (config.factory i) config.maxBufferSize t b = some t' ∧
        s'.tasks[i]? = some t' := by
  obtain ⟨hlt, -⟩ := List.getElem?_eq_some_iff.mp ht
  cases does_of_step hs with
  | @server a server ha hserver =>
      have hheard : (s.tasks.map (hear a) ++ spawned config s.server a)[i]? = some (hear a t) := by
        rw [List.getElem?_append_left (by simpa using hlt), List.getElem?_map, ht, Option.map_some]
      dsimp only [own]
      cases hb : hears a with
      | none => rw [hheard, hear_eq_self hb]
      | some b => exact ⟨hear a t, hear_eq_step hb t, hheard⟩
  | @task j a u u' server ha hu hu' hserver =>
      dsimp only [own]
      by_cases heq : j = i
      · subst heq
        cases ht.symm.trans hu
        rw [if_pos rfl]
        exact ⟨u', hu', List.getElem?_set_self hlt⟩
      · rw [if_neg heq]
        exact (List.getElem?_set_ne heq).trans ht

/-- What the server does, seen from one of its tasks. -/
theorem views_task (i : Nat) : (machine config).Views
    (ConnectionHandler.machine (config.factory i) config.maxBufferSize) (own i)
    fun s t => s.tasks[i]? = some t := by
  refine ⟨?_, ?_⟩
  · intro s t a s' ht ha hs
    have htask := task_of_step ht hs
    rwa [ha] at htask
  · intro s t a b s' ht ha hs
    have htask := task_of_step ht hs
    rwa [ha] at htask

end ServerSystem

namespace ConnectionHandler

variable {handler : CommandHandler} {maxBufferSize : Nat} {c c' : ConnectionHandler} {a : Act}

/-- A task does nothing to the shutdown channel. -/
theorem shutdown_of_ofTask (ha : ServerSystem.ofTask a = true)
    (hs : step handler maxBufferSize c a = some c') : c'.shutdown = c.shutdown := by
  cases a with
  | notify | dropSenders => cases ha
  | deliver | close => cases hs; rfl
  | progress choice =>
      simp only [step] at hs
      split at hs
      · obtain ⟨r, -, rfl⟩ := Option.map_eq_some_iff.mp hs
        rfl
      · cases hs
  | _ =>
      simp only [step] at hs
      repeat' split at hs
      all_goals first | cases hs; rfl | cases hs

/-- A task is at an end before its time only if it was aborted. -/
theorem abort_of_stage (hs : step handler maxBufferSize c a = some c')
    (hstage : c'.phase.stage = .ended .aborted) (hbefore : c.phase.stage ≠ .ended .aborted) :
    a = .abort := by
  cases a with
  | abort => rfl
  | deliver | close | notify | dropSenders => cases hs; exact absurd hstage hbefore
  | progress choice =>
      simp only [step] at hs
      split at hs
      · obtain ⟨r, -, rfl⟩ := Option.map_eq_some_iff.mp hs
        cases hstage
      · cases hs
  | turn =>
      simp only [step] at hs
      split at hs <;> cases hs
      rename_i s r hphase
      rcases r with e | goesOn
      · cases hstage
      · cases goesOn <;> cases hstage
  | borrow =>
      simp only [step] at hs
      split at hs <;> cases hs
      dsimp only at hstage
      split at hstage <;> cases hstage
  | _ =>
      simp only [step] at hs
      repeat' split at hs
      all_goals first | cases hs; cases hstage | cases hs

end ConnectionHandler

namespace ServerSystem

variable {config : Config} {s s' : ServerSystem}

/-! ### The server sees its tasks as they are -/

/-- What `run` can tell of its tasks, and what they share. -/
structure Agree (s : ServerSystem) : Prop where
  keyed : s.server.Keyed
  stages : s.server.conns.map (·.stage) = s.tasks.map (·.phase.stage)
  shutdown : ∀ t ∈ s.tasks, t.shutdown = s.server.shutdown

theorem agree_of_fresh (h : Fresh s) : Agree s := by
  obtain ⟨hserver, htasks⟩ := h
  refine ⟨Server.keyed_of_fresh hserver, ?_, ?_⟩
  · rw [hserver.2.2.2.2.2.1, htasks]
    rfl
  · simp [htasks]

namespace Agree

theorem length (h : Agree s) : s.server.conns.length = s.tasks.length := by
  simpa using congrArg List.length h.stages

/-- The connection of a task, as `run` knows it. -/
theorem conn {i : Nat} {t : ConnectionHandler} (h : Agree s) (ht : s.tasks[i]? = some t) :
    ∃ c, s.server.conns[i]? = some c ∧ c.stage = t.phase.stage ∧ c.handler = i ∧
      s.server.accepted[i]? = some c.stream := by
  obtain ⟨hlt, -⟩ := List.getElem?_eq_some_iff.mp ht
  have hlt' : i < s.server.conns.length := h.length ▸ hlt
  have hstage : (s.server.conns.map (·.stage))[i]? = some t.phase.stage := by
    rw [h.stages, List.getElem?_map, ht]
    rfl
  have hhandler : (s.server.conns.map (·.handler))[i]? = some i := by
    rw [h.keyed.handlers]
    have hcalls := congrArg List.length h.keyed.handlers
    rw [List.length_map, List.length_range] at hcalls
    rw [List.getElem?_range (hcalls ▸ hlt')]
  have hc := List.getElem?_eq_getElem hlt'
  rw [List.getElem?_map, hc] at hstage hhandler
  refine ⟨s.server.conns[i], hc, Option.some.inj hstage, Option.some.inj hhandler, ?_⟩
  rw [← h.keyed.streams, List.getElem?_append_left (by simpa using hlt'), List.getElem?_map, hc]
  rfl

end Agree

/-- The server sees that a task goes on to another stage, and nothing else. -/
theorem seeStage_eq {server server' : Server} {i : Nat} {stage stage' : Server.Stage}
    (hs : seeStage config server i stage stage' = some server') :
    (stage' = stage ∧ server' = server) ∨
      Server.step config.toConfig server (.conn i stage') = some server' := by
  rw [seeStage] at hs
  split at hs
  · exact .inl ⟨‹_›, (Option.some.inj hs).symm⟩
  · exact .inr hs

theorem Agree.step {a : Act} (h : Agree s) (hs : ServerSystem.step config s a = some s') :
    Agree s' := by
  cases does_of_step hs with
  | @server a server ha hserver =>
      have hshutdown := Server.shutdown_of_step hserver
      refine ⟨h.keyed.step hserver, ?_, ?_⟩
      · have hheard : (s.tasks.map (hear a)).map (·.phase.stage) =
            s.tasks.map (·.phase.stage) := by simp [Function.comp_def]
        rw [List.map_append, hheard, ← h.stages]
        cases Server.takes_of_step hserver with
        | nothing hspawn _ _ hconns =>
            have hsame : server.conns.map (·.stage) = s.server.conns.map (·.stage) :=
              Server.map_of_kept (·.2.2) hconns
            rw [hsame]
            cases a with
            | spawn => cases hspawn
            | _ => exact (List.append_nil _).symm
        | accepts => exact (List.append_nil _).symm
        | spawns =>
            simp only [List.map_append, List.map_cons, List.map_nil, spawned,
              ConnectionHandler.new]
            split <;> rfl
        | goesOn => cases ha
      · intro t ht
        rcases List.mem_append.mp ht with ht | ht
        · obtain ⟨u, hu, rfl⟩ := List.mem_map.mp ht
          rw [hshutdown, ← h.shutdown u hu]
          rfl
        · cases a with
          | spawn =>
              rw [List.mem_singleton.mp ht, hshutdown]
              rfl
          | _ => cases ht
  | @task i a t t' server ha ht ht' hserver =>
      have hshutdown : t'.shutdown = t.shutdown := ConnectionHandler.shutdown_of_ofTask ha ht'
      obtain ⟨hlt, -⟩ := List.getElem?_eq_some_iff.mp ht
      have hstages : (s.tasks.set i t').map (·.phase.stage) =
          (s.server.conns.map (·.stage)).set i t'.phase.stage := by
        rw [List.map_set, h.stages]
      have hothers (server : Server) (hsame : server.shutdown = s.server.shutdown) :
          ∀ u ∈ s.tasks.set i t', u.shutdown = server.shutdown := by
        intro u hu
        rw [hsame]
        rcases List.mem_or_eq_of_mem_set hu with hu | rfl
        · exact h.shutdown u hu
        · exact hshutdown.trans (h.shutdown t (List.mem_of_getElem? ht))
      rcases seeStage_eq hserver with ⟨hsame, rfl⟩ | hserver
      · refine ⟨h.keyed, ?_, hothers _ rfl⟩
        obtain ⟨c, hc, hstage, -⟩ := h.conn ht
        rw [hstages, hsame, ← hstage]
        exact (List.map_set.symm.trans (Server.map_set_of_getElem? (·.stage) hc rfl)).symm
      · refine ⟨h.keyed.step hserver, ?_, hothers _ (Server.shutdown_of_step hserver)⟩
        cases Server.takes_of_step hserver with
        | nothing hconn => cases hconn
        | goesOn hc hconns => rw [hconns, hstages, List.map_set]

theorem agree_of_reachable {ok : ServerSystem → Act → Prop} (h : (machine config).Reachable ok s) :
    Agree s :=
  h.invariant Agree (fun _ hs => agree_of_fresh hs) fun _ _ _ hI _ hs => hI.step hs

/-- Of the whole system, `run` is the accept loop and the drain loop. -/
theorem server_of_reachable {ok : ServerSystem → Act → Prop}
    (h : (machine config).Reachable ok s) :
    (Server.machine config.toConfig).Reachable Machine.anyStep s.server := by
  have first (s : ServerSystem) (hs : Fresh s) :
      (Server.machine config.toConfig).Reachable Machine.anyStep s.server := .init hs.1
  refine h.invariant (fun s => (Server.machine config.toConfig).Reachable Machine.anyStep s.server)
    first ?_
  intro s a s' hreach _ hs
  have next {a : Server.Act} {server : Server}
      (hserver : Server.step config.toConfig s.server a = some server) :
      (Server.machine config.toConfig).Reachable Machine.anyStep server :=
    .step hreach trivial hserver
  cases does_of_step hs with
  | server _ hserver => exact next hserver
  | task _ _ _ hserver =>
      rcases seeStage_eq hserver with ⟨-, rfl⟩ | hserver
      · exact hreach
      · exact next hserver

/-- Where a task comes from. -/
theorem task_before {i : Nat} {a : Act} {t' : ConnectionHandler}
    (ht' : s'.tasks[i]? = some t') (hs : step config s a = some s') :
    (∃ t, s.tasks[i]? = some t) ∨ i = s.tasks.length ∧ a = .server .spawn ∧
      t' = .new config.isTls s.server.shutdown s.server.seen := by
  obtain ⟨hlt, -⟩ := List.getElem?_eq_some_iff.mp ht'
  by_cases hold : i < s.tasks.length
  · exact .inl ⟨_, List.getElem?_eq_getElem hold⟩
  refine .inr ?_
  cases does_of_step hs with
  | @server a server ha hserver =>
      rw [List.getElem?_append_right (by simpa using hold), List.length_map] at ht'
      cases a with
      | spawn =>
          rw [spawned, List.getElem?_singleton] at ht'
          obtain ⟨hzero, hnew⟩ := Option.ite_none_right_eq_some.mp ht'
          exact ⟨by omega, rfl, (Option.some.inj hnew).symm⟩
      | _ => simp [spawned] at ht'
  | task =>
      rw [List.length_set] at hlt
      exact absurd hlt hold

/-- Each task is a connection task with the command handler that was made for it. -/
theorem task_of_reachable {ok : ServerSystem → Act → Prop}
    {ok' : ConnectionHandler → ConnectionHandler.Act → Prop}
    (hok : ∀ s i t a b s', s.tasks[i]? = some t → ok s a → own i a = some b →
      step config s a = some s' → ok' t b)
    (h : (machine config).Reachable ok s) (i : Nat) (t : ConnectionHandler)
    (ht : s.tasks[i]? = some t) :
    (ConnectionHandler.machine (config.factory i) config.maxBufferSize).Reachable ok' t := by
  induction h generalizing t with
  | init hfresh => simp [hfresh.2] at ht
  | @step s s' a _ hokay hs ih =>
      rcases task_before ht hs with hold | ⟨-, -, rfl⟩
      · obtain ⟨u, hu⟩ := hold
        have hstep := task_of_step hu hs
        cases ha : own i a with
        | none =>
            rw [ha] at hstep
            rw [Option.some.inj (ht.symm.trans hstep)]
            exact ih u hu
        | some b =>
            rw [ha] at hstep
            obtain ⟨u', hu', htask⟩ := hstep
            rw [Option.some.inj (ht.symm.trans htask)]
            exact .step (ih u hu) (hok s i u a b s' hu hokay ha hs) hu'
      · exact .init ConnectionHandler.fresh_new

/-! ### Nobody is in the way -/

/-- What a connection can do by itself, it can do in the server: nothing holds it up, and
nobody else is concerned. -/
theorem exists_task_step {i : Nat} {a : ConnectionHandler.Act} {t t' : ConnectionHandler}
    (h : Agree s) (ht : s.tasks[i]? = some t) (ha : ofTask a = true)
    (habort : a = .abort → s.server.abortAsked i)
    (hs : ConnectionHandler.step (config.factory i) config.maxBufferSize t a = some t') :
    ∃ s', step config s (.task i a) = some s' ∧ s'.tasks = s.tasks.set i t' ∧
      s'.server.phase = s.server.phase ∧ s.server.Keeps s'.server := by
  have hsee : ∃ server, seeStage config s.server i t.phase.stage t'.phase.stage = some server ∧
      server.phase = s.server.phase ∧ s.server.Keeps server := by
    rw [seeStage]
    split
    · exact ⟨s.server, rfl, rfl, .of_eq rfl⟩
    · rename_i hstage
      obtain ⟨c, hc, hold, -⟩ := h.conn ht
      have hbecomes := (ConnectionHandler.stage_step hs).resolve_left hstage
      have hasked : t'.phase.stage = .ended .aborted → c.abortRequested = true := by
        intro hended
        have ha := ConnectionHandler.abort_of_stage hs hended fun hbefore =>
          hstage (hended.trans hbefore.symm)
        obtain ⟨c', hc', hasked⟩ := habort ha
        cases hc.symm.trans hc'
        exact hasked
      have hserver : Server.step config.toConfig s.server (.conn i t'.phase.stage) = some
          { s.server with
            conns := s.server.conns.set i { c with stage := t'.phase.stage }
            permits :=
              if t'.phase.stage.isEnded then s.server.permits + 1 else s.server.permits } := by
        simp only [Server.step, hc, hold, hbecomes, true_and]
        exact if_pos hasked
      exact ⟨_, hserver, rfl, (Server.does_of_step hserver).keeps⟩
  obtain ⟨server, hserver, hphase, hkeeps⟩ := hsee
  exact ⟨⟨server, s.tasks.set i t'⟩, by simp [step, ha, ht, hs, hserver], rfl, hphase, hkeeps⟩

/-- The same for a run of the connection alone. -/
theorem exists_task_run {i : Nat} {as : List ConnectionHandler.Act} {t t' : ConnectionHandler}
    (h : Agree s) (ht : s.tasks[i]? = some t)
    (has : ∀ a ∈ as, ofTask a = true ∧ (a = .abort → s.server.abortAsked i))
    (hr : (ConnectionHandler.machine (config.factory i) config.maxBufferSize).run t as = some t') :
    ∃ s', (machine config).run s (as.map (.task i)) = some s' ∧ s'.tasks = s.tasks.set i t' ∧
      s'.server.phase = s.server.phase := by
  induction as generalizing s t with
  | nil =>
      cases hr
      obtain ⟨hlt, rfl⟩ := List.getElem?_eq_some_iff.mp ht
      exact ⟨s, rfl, (List.set_getElem_self hlt).symm, rfl⟩
  | cons a as ih =>
      obtain ⟨u, hu, hr⟩ := Option.bind_eq_some_iff.mp hr
      obtain ⟨ha, habort⟩ := has a (List.mem_cons_self ..)
      obtain ⟨s₁, hs₁, htasks, hphase, hkeeps⟩ := exists_task_step h ht ha habort hu
      obtain ⟨hlt, -⟩ := List.getElem?_eq_some_iff.mp ht
      have hnext : s₁.tasks[i]? = some u := by rw [htasks, List.getElem?_set_self hlt]
      obtain ⟨s', hs', htasks', hphase'⟩ := ih (h.step hs₁) hnext
        (fun b hb => (has b (List.mem_cons_of_mem _ hb)).imp_right fun hasked hb =>
          hkeeps.asked i (hasked hb)) hr
      refine ⟨s', ?_, ?_, hphase'.trans hphase⟩
      · have hfirst : (machine config).step s (.task i a) = some s₁ := hs₁
        rw [List.map_cons, Machine.run_cons_of_step _ hfirst, hs']
      · rw [htasks', htasks, List.set_set]

/-- A plain server with three permits whose connections send back what they get. -/
def echoServer : Config := ⟨⟨true, false, 3, .fromSecs 5⟩, 64, fun _ => ConnectionHandler.echo⟩

def start : ServerSystem := ⟨.start, []⟩

theorem fresh_start : Fresh start := ⟨Server.fresh_start, rfl⟩

def accepts (stream : Nat) : List Act :=
  [.server .prune, .server .acquire, .server (.acceptOk stream), .server .spawn]

/-- Two connections; the first one has begun a request, the second one fails. -/
def twoConnections : List Act :=
  [.server (.bind true)] ++ accepts 7 ++ accepts 8 ++
  [.task 0 (.setUp true), .task 0 (.deliver [0, 0, 0, 7, 0, 0, 0, 1]),
    .task 0 (.progress (.ready 8)), .task 1 (.setUp false)]

theorem exists_twoConnections :
    ∃ s t, (machine echoServer).run start twoConnections = some s ∧ s.tasks[0]? = some t ∧
      (machine echoServer).Reachable Machine.anyStep s := by
  obtain ⟨s, hs, hlen⟩ := Option.map_eq_some_iff.mp
    (show ((machine echoServer).run start twoConnections).map (·.tasks.length) = some 2 by
      decide +kernel)
  exact ⟨s, _, hs, List.getElem?_eq_getElem (by omega),
    .run (.init fresh_start) (fun _ _ _ => trivial) hs⟩

/-- The tasks that have not ended. -/
def running (s : ServerSystem) : Nat := s.tasks.countP fun t => !t.phase.stage.isEnded

theorem Agree.running (h : Agree s) : s.running = s.server.unfinished := by
  rw [Server.unfinished, h.stages, List.countP_map]
  rfl

/-- In every run, a shutdown included, each accepted stream has exactly one task, or is
about to get it, in the order of the streams; a task is a connection with the command
handler that was created for it; and at no moment more of them go on than the limit says. -/
theorem accepted_served (h : (machine config).Reachable Machine.anyStep s) :
    (s.tasks.length + s.server.phase.pending.length = s.server.accepted.length ∧
        ∀ i t, s.tasks[i]? = some t → ∃ c : Server.Conn, s.server.conns[i]? = some c ∧
          s.server.accepted[i]? = some c.stream ∧ c.handler = i ∧ c.stage = t.phase.stage ∧
            (ConnectionHandler.machine (config.factory i) config.maxBufferSize).Reachable
              Machine.anyStep t) ∧
      s.running ≤ config.maxConnections := by
  have hagree := agree_of_reachable h
  refine ⟨⟨?_, fun i t ht => ?_⟩, ?_⟩
  · rw [← hagree.length, ← hagree.keyed.streams, List.length_append, List.length_map]
  · obtain ⟨c, hc, hstage, hhandler, hstream⟩ := hagree.conn ht
    exact ⟨c, hc, hstream, hhandler, hstage,
      task_of_reachable (fun _ _ _ _ _ _ _ _ _ _ => trivial) h i t ht⟩
  · rw [hagree.running]
    have hbalanced : Server.Balanced config.toConfig s.server :=
      (server_of_reachable h).invariant (Server.Balanced config.toConfig)
        (fun _ hs => Server.balanced_of_fresh hs) fun _ _ _ hI _ hs => hI.step hs
    cases hphase : s.server.phase.hasSemaphore with
    | true =>
        have htotal := hbalanced.total hphase
        omega
    | false =>
        rw [Server.unfinished_of_nil (hbalanced.none_before hphase)]
        exact Nat.zero_le _

theorem accepted_served_twoConnections :
    ∃ s, (machine echoServer).run start twoConnections = some s ∧
      (s.tasks.length + s.server.phase.pending.length = s.server.accepted.length ∧
        ∀ i t, s.tasks[i]? = some t → ∃ c : Server.Conn, s.server.conns[i]? = some c ∧
          s.server.accepted[i]? = some c.stream ∧ c.handler = i ∧ c.stage = t.phase.stage ∧
            (ConnectionHandler.machine ConnectionHandler.echo 64).Reachable Machine.anyStep t) ∧
      s.running ≤ 3 := by
  obtain ⟨s, -, hs, -, hreach⟩ := exists_twoConnections
  exact ⟨s, hs, accepted_served hreach⟩

end ServerSystem

end Wagonet
