import Wagonet.EndToEnd
import Wagonet.IdempotentShutdown

/-!
Any number of clients and one server.

The clients connect whenever they want, the server accepts their connections in some order,
as many at a time as it has permits for, and is shut down at some time. Every accepted
stream has a client's connection at its other end; what was sent on a connection is
delivered in order and unchanged, at any time or never. Apart from that everybody takes
steps in any order: the clients with their ping tasks, `run`, and the connection tasks.
-/

namespace Wagonet

open Library ClientRuntime

/-! ### A shutdown channel that is used for a shutdown -/

namespace ServerSystem

variable {config : Config} {s s' : ServerSystem} {a : Act}

/-- The shutdown channel is used as `shutdown` does: `true` is sent and nothing else. The
server has a sender of its own, which is not dropped while it runs. -/
def Signals : Act → Prop
  | .server (.notify value) => value = true
  | .server .dropSenders => False
  | _ => True

instance : ∀ a, Decidable (Signals a)
  | .server (.notify value) => inferInstanceAs (Decidable (value = true))
  | .server .dropSenders => .isFalse id
  | .server (.bind _) | .server .prune | .server .acquire | .server (.acceptOk _)
  | .server .acceptErr | .server .changed | .server .borrow | .server .spawn
  | .server .backoffExpired | .server (.conn _ _) | .server .drain | .server .joined
  | .server .drainExpired | .server (.tick _) | .task _ _ => .isTrue trivial

/-- A server whose shutdown channel nobody has used but for a shutdown. -/
def Untold (s : ServerSystem) : Prop :=
  s.server.shutdown.value = false →
    s.server.shutdown.closed = false ∧ s.server.seen = s.server.shutdown.version

end ServerSystem

theorem Server.seen_of_step {config : Server.Config} {s s' : Server} {a : Server.Act}
    (hs : Server.step config s a = some s') : s'.seen = a.sees s.shutdown s.seen := by
  cases a with
  | notify | dropSenders => cases hs; rfl
  | tick d =>
      simp only [Server.step] at hs
      split at hs <;> cases hs <;> rfl
  | bind | acquire | conn | drain | joined | drainExpired | changed =>
      simp only [Server.step] at hs
      repeat' split at hs
      all_goals first | cases hs; rfl | cases hs
  | prune | acceptOk | acceptErr | backoffExpired | spawn | borrow =>
      simp only [Server.step] at hs
      split at hs <;> cases hs <;> rfl

/-- The stream that an action accepts. -/
def Server.Act.accepted : Server.Act → List Nat
  | .acceptOk stream => [stream]
  | _ => []

theorem Server.accepted_of_step {config : Server.Config} {s s' : Server} {a : Server.Act}
    (hs : Server.step config s a = some s') : s'.accepted = s.accepted ++ a.accepted := by
  cases Server.takes_of_step hs with
  | nothing ha _ haccepted =>
      rw [haccepted]
      cases a with
      | acceptOk | spawn | conn => cases ha
      | _ => exact (List.append_nil _).symm
  | accepts => rfl
  | spawns => exact (List.append_nil _).symm
  | goesOn _ _ _ haccepted => exact haccepted.trans (List.append_nil _).symm

theorem ConnectionHandler.seen_of_step {handler : CommandHandler} {maxBufferSize : Nat}
    {c c' : ConnectionHandler} {a : ConnectionHandler.Act}
    (hs : ConnectionHandler.step handler maxBufferSize c a = some c') :
    c'.seen = a.sees c.shutdown c.seen := by
  cases a with
  | deliver | close | notify | dropSenders => cases hs; rfl
  | progress choice =>
      simp only [ConnectionHandler.step] at hs
      split at hs
      · obtain ⟨r, -, rfl⟩ := Option.map_eq_some_iff.mp hs
        rfl
      · cases hs
  | _ =>
      simp only [ConnectionHandler.step] at hs
      repeat' split at hs
      all_goals first | cases hs; rfl | cases hs

theorem ConnectionHandler.changed_of_wake {handler : CommandHandler} {maxBufferSize : Nat}
    {c c' : ConnectionHandler}
    (hs : ConnectionHandler.step handler maxBufferSize c .wake = some c') :
    c.shutdown.changed c.seen = true := by
  simp only [ConnectionHandler.step] at hs
  split at hs
  · split at hs <;> cases hs
    exact (And.right ‹_›)
  · cases hs

theorem Server.changed_of_changed {config : Server.Config} {s s' : Server}
    (hs : Server.step config s .changed = some s') : s.shutdown.changed s.seen = true := by
  simp only [Server.step] at hs
  split at hs
  · assumption
  · cases hs

namespace ServerSystem

variable {config : Config} {s s' : ServerSystem} {a : Act}

def Act.accepted : Act → List Nat
  | .server a => a.accepted
  | .task _ _ => []

theorem accepted_of_step (hs : step config s a = some s') :
    s'.server.accepted = s.server.accepted ++ a.accepted := by
  cases does_of_step hs with
  | server _ hserver => exact Server.accepted_of_step hserver
  | task _ _ _ hserver =>
      rcases seeStage_eq hserver with ⟨-, rfl⟩ | hserver
      · exact (List.append_nil _).symm
      · exact Server.accepted_of_step hserver

theorem tasks_of_acceptOk {stream : Nat}
    (hs : step config s (.server (.acceptOk stream)) = some s') : s'.tasks = s.tasks := by
  cases does_of_step hs with
  | server =>
      dsimp only [spawned]
      rw [List.append_nil]
      exact (List.map_congr_left fun t _ => hear_eq_self rfl t).trans (List.map_id _)

/-- Before the shutdown there is nothing new for anybody. -/
structure Calm (s : ServerSystem) : Prop where
  agree : Agree s
  untold : Untold s
  tasks : s.server.shutdown.value = false → ∀ t ∈ s.tasks, t.seen = s.server.shutdown.version

namespace Calm

theorem not_changed (h : Calm s) (hvalue : s.server.shutdown.value = false) :
    s.server.shutdown.changed s.server.shutdown.version = false := by
  simp [Watch.changed, (h.untold hvalue).1]

theorem seen_of_spawned {server : Server} {a : Server.Act} {t : ConnectionHandler}
    (ht : t ∈ spawned config server a) : t.seen = server.seen := by
  cases a with
  | spawn => rw [List.mem_singleton.mp ht]; rfl
  | _ => cases ht

theorem of_fresh (hs : Fresh s) (h : Untold s) : Calm s := by
  refine ⟨agree_of_fresh hs, h, fun _ => ?_⟩
  rw [hs.2]
  exact fun t ht => absurd ht List.not_mem_nil

/-- A task wakes up for a shutdown only. -/
theorem wakes {i : Nat} {t t' : ConnectionHandler} {handler : CommandHandler} {m : Nat}
    (h : Calm s) (ht : s.tasks[i]? = some t)
    (hs : ConnectionHandler.step handler m t .wake = some t') : t.shutdown.value = true := by
  have hmem := List.mem_of_getElem? ht
  have hchanged := ConnectionHandler.changed_of_wake hs
  have hshutdown := h.agree.shutdown t hmem
  cases hvalue : t.shutdown.value with
  | true => rfl
  | false =>
      rw [hshutdown] at hvalue hchanged
      rw [h.tasks hvalue t hmem, h.not_changed hvalue] at hchanged
      cases hchanged

theorem step (h : Calm s) (ha : Signals a) (hs : ServerSystem.step config s a = some s') :
    Calm s' := by
  have hagree := h.agree.step hs
  cases does_of_step hs with
  | @server a server _ hserver =>
      have hshutdown := Server.shutdown_of_step hserver
      have hseen := Server.seen_of_step hserver
      cases a with
      | notify value =>
          obtain rfl : value = true := ha
          have htrue : server.shutdown.value = true := by rw [hshutdown]; rfl
          exact ⟨hagree, fun hfalse => absurd (htrue.symm.trans hfalse) (by simp),
            fun hfalse => absurd (htrue.symm.trans hfalse) (by simp)⟩
      | dropSenders => exact ha.elim
      | changed =>
          have hchanged := Server.changed_of_changed hserver
          have htrue : s.server.shutdown.value = true := by
            cases hvalue : s.server.shutdown.value with
            | true => rfl
            | false =>
                rw [(h.untold hvalue).2, h.not_changed hvalue] at hchanged
                cases hchanged
          have htrue' : server.shutdown.value = true := by rw [hshutdown]; exact htrue
          exact ⟨hagree, fun hfalse => absurd (htrue'.symm.trans hfalse) (by simp),
            fun hfalse => absurd (htrue'.symm.trans hfalse) (by simp)⟩
      | _ =>
          have hsame : server.shutdown = s.server.shutdown := hshutdown
          have hsame' : server.seen = s.server.seen := hseen
          refine ⟨hagree, ?_, fun hfalse => ?_⟩
          · rw [Untold, hsame, hsame']
            exact h.untold
          · rw [hsame] at hfalse ⊢
            intro t ht
            rcases List.mem_append.mp ht with ht | ht
            · obtain ⟨u, hu, rfl⟩ := List.mem_map.mp ht
              exact h.tasks hfalse u hu
            · exact (seen_of_spawned ht).trans (h.untold hfalse).2
  | @task i a t t' server hofTask ht ht' hserver =>
      have hsame : server.shutdown = s.server.shutdown ∧ server.seen = s.server.seen := by
        rcases seeStage_eq hserver with ⟨-, rfl⟩ | hserver
        · exact ⟨rfl, rfl⟩
        · exact ⟨Server.shutdown_of_step hserver, Server.seen_of_step hserver⟩
      refine ⟨hagree, ?_, fun hfalse => ?_⟩
      · rw [Untold, hsame.1, hsame.2]
        exact h.untold
      · dsimp only at hfalse ⊢
        rw [hsame.1] at hfalse ⊢
        intro u hu
        rcases List.mem_or_eq_of_mem_set hu with hu | rfl
        · exact h.tasks hfalse u hu
        · have hmem := List.mem_of_getElem? ht
          rw [ConnectionHandler.seen_of_step ht']
          cases a with
          | wake =>
              have htrue := h.wakes ht ht'
              rw [h.agree.shutdown t hmem, hfalse] at htrue
              cases htrue
          | _ => exact h.tasks hfalse t hmem

end Calm

/-- While the channel is used for a shutdown only, a connection heeds it. -/
theorem Calm.heeds {i : Nat} {t : ConnectionHandler} {b : ConnectionHandler.Act} (h : Calm s)
    (ht : s.tasks[i]? = some t) (ha : Signals a) (hb : own i a = some b)
    (hs : ServerSystem.step config s a = some s') : ConnectionHandler.Heeds t b := by
  cases b with
  | notify value =>
      cases does_of_step hs with
      | @server a =>
          cases a with
          | notify value' => cases hb; exact ha
          | _ => cases hb
      | task hofTask =>
          obtain ⟨-, hb⟩ := Option.ite_none_right_eq_some.mp hb
          cases hb
          cases hofTask
  | wake =>
      have htask := task_of_step ht hs
      rw [hb] at htask
      obtain ⟨t', ht', -⟩ := htask
      exact .inl (h.wakes ht ht')
  | _ => trivial

end ServerSystem

/-! ### Clients and server -/

structure Deployment where
  clients : Nat → CallLog
  server : ServerSystem
  /-- the client's connection at the other end of each accepted stream, in order -/
  peers : List (Nat × Conn)

namespace Deployment

open EndToEnd

structure Config where
  system : ServerSystem.Config
  kind : Nat → ClientKind

inductive Act
  | client (k : Nat) (a : ClientRuntime.Act)
  /-- `accept` returns this connection of a client -/
  | accept (k : Nat) (c : Conn)
  | server (a : ServerSystem.Act)

/-- The task at the other end of a connection; one that has done nothing, if it was not
accepted. -/
def taskOf (s : Deployment) (k : Nat) (c : Conn) : ConnectionHandler :=
  s.server.tasks[s.peers.idxOf (k, c)]?.getD ConnectionHandler.accepted

/-- One client, and the tasks at the other ends of its connections. -/
def view (s : Deployment) (k : Nat) : EndToEnd := ⟨s.clients k, s.taskOf k⟩

/-- Streams are accepted from clients only. -/
def inside : ServerSystem.Act → Bool
  | .server (.acceptOk _) => false
  | _ => true

def step (config : Config) (s : Deployment) : Act → Option Deployment
  | .client k a =>
      (CallLog.step (config.kind k) (s.clients k) a).bind fun log =>
        let s' := { s with clients := Function.update s.clients k log }
        if ∀ c < log.runtime.world.connections, (s'.view k).Delivers c then some s' else none
  | .accept k c =>
      if (k, c) ∉ s.peers ∧ c < (s.clients k).runtime.world.connections then
        (ServerSystem.step config.system s.server (.server (.acceptOk s.peers.length))).map
          fun server => { s with server := server, peers := s.peers ++ [(k, c)] }
      else
        none
  | .server a =>
      if inside a then
        (ServerSystem.step config.system s.server a).bind fun server =>
          let s' := { s with server := server }
          if ∀ peer ∈ s.peers, (s'.view peer.1).Delivers peer.2 then some s' else none
      else
        none

/-- Clients that were just created, in answer mode, and a server on which `run` is called. -/
def Fresh (config : Config) (s : Deployment) : Prop :=
  (∀ k, (CallLog.machine (config.kind k)).init (s.clients k)) ∧
    ServerSystem.Fresh s.server ∧ ServerSystem.Untold s.server ∧ s.peers = []

def machine (config : Config) : Machine Deployment Act where
  init := Fresh config
  step := step config

/-- No client is dropped in the middle of an exchange, the calls are proper, and the
shutdown channel is used for a shutdown. -/
def Fair (s : Deployment) : Act → Prop
  | .client k a =>
      Undisturbed (s.clients k).runtime a ∧ ∀ call ∈ CallLog.called a, ProperCall call
  | .accept _ _ => True
  | .server a => ServerSystem.Signals a

variable {config : Config} {s s' : Deployment} {a : Act}

/-- The command handler of the task at the other end of a connection. -/
def handlerOf (config : Config) (s : Deployment) (k : Nat) (c : Conn) : CommandHandler :=
  config.system.factory (s.peers.idxOf (k, c))

/-- Each client, with the tasks at the other ends of its connections, is as if it were
alone. -/
structure Whole (config : Config) (s : Deployment) : Prop where
  server : (ServerSystem.machine config.system).Reachable
    (fun s a => ServerSystem.Calm s ∧ ServerSystem.Signals a) s.server
  calm : ServerSystem.Calm s.server
  nodup : s.peers.Nodup
  accepted : s.peers.length = s.server.server.accepted.length
  sides : ∀ k, Sides (config.kind k) (handlerOf config s k) config.system.maxBufferSize (s.view k)

namespace Whole

theorem agree (h : Whole config s) : ServerSystem.Agree s.server :=
  ServerSystem.agree_of_reachable h.server

theorem tasks_le (h : Whole config s) : s.server.tasks.length ≤ s.peers.length := by
  rw [h.accepted, ← h.agree.keyed.streams, List.length_append, List.length_map, h.agree.length]
  exact Nat.le_add_right _ _

/-- The connection at the other end of a task. -/
theorem taskOf_eq {i : Nat} {t : ConnectionHandler} {k : Nat} {c : Conn} (h : Whole config s)
    (ht : s.server.tasks[i]? = some t) (hpeer : s.peers[i]? = some (k, c)) :
    s.taskOf k c = t ∧ s.peers.idxOf (k, c) = i := by
  obtain ⟨hlt, hpeer⟩ := List.getElem?_eq_some_iff.mp hpeer
  have hidx : s.peers.idxOf (k, c) = i := by rw [← hpeer, h.nodup.idxOf_getElem]
  refine ⟨?_, hidx⟩
  rw [taskOf, hidx, ht]
  rfl

end Whole

/-- What is at the other end of a connection is a connection task. -/
theorem taskOf_reachable (h : (ServerSystem.machine config.system).Reachable
      (fun s a => ServerSystem.Calm s ∧ ServerSystem.Signals a) s.server) (k : Nat) (c : Conn) :
    (ConnectionHandler.machine (handlerOf config s k c) config.system.maxBufferSize).Reachable
      ConnectionHandler.Heeds (s.taskOf k c) := by
  rw [taskOf]
  cases ht : s.server.tasks[s.peers.idxOf (k, c)]? with
  | none => exact .init ConnectionHandler.fresh_accepted
  | some t =>
      exact ServerSystem.task_of_reachable
        (fun _ _ _ _ _ _ ht hok hb hs => hok.1.heeds ht hok.2 hb hs) h _ t ht

theorem whole_of_fresh (h : Fresh config s) : Whole config s := by
  obtain ⟨hclients, hfresh, huntold, hpeers⟩ := h
  have htask (k : Nat) (c : Conn) : s.taskOf k c = ConnectionHandler.accepted := by
    rw [taskOf, hfresh.2]
    rfl
  refine ⟨.init hfresh, .of_fresh hfresh huntold, hpeers ▸ List.nodup_nil, ?_, fun k => ?_⟩
  · rw [hpeers, hfresh.1.2.2.2.1]
    rfl
  · obtain ⟨hinit, hanswers, hcalls⟩ := hclients k
    refine ⟨.init ⟨hinit, hanswers, hcalls⟩, taskOf_reachable (.init hfresh) k, ?_, fun c => ?_⟩
    · dsimp only [view]
      rw [hcalls]
      exact fun call hcall => absurd hcall List.not_mem_nil
    · have hsilent : (s.view k).events c = [] := by
        rw [events, view, hinit.wire]
        rfl
      rw [hsilent]
      dsimp only [view]
      rw [htask]
      exact .nil

namespace Whole

theorem client_step {k : Nat} {a : ClientRuntime.Act} (h : Whole config s)
    (hok : Fair s (.client k a)) (hs : Deployment.step config s (.client k a) = some s') :
    Whole config s' := by
  obtain ⟨log, hlog, hs⟩ := Option.bind_eq_some_iff.mp hs
  obtain ⟨hdelivers, hs⟩ := Option.ite_none_right_eq_some.mp hs
  cases hs
  refine ⟨h.server, h.calm, h.nodup, h.accepted, fun j => ?_⟩
  by_cases heq : j = k
  · subst heq
    simp only [view, Function.update_self] at hdelivers ⊢
    exact (h.sides j).client_step hok.1 hok.2 hlog hdelivers
  · simp only [view, Function.update_of_ne heq]
    exact h.sides j

/-- The server goes on, and its tasks with it. -/
theorem of_server {a : ServerSystem.Act} {server : ServerSystem} {peers : List (Nat × Conn)}
    (h : Whole config s) (ha : ServerSystem.Signals a)
    (hserver : ServerSystem.step config.system s.server a = some server) (hnodup : peers.Nodup)
    (haccepted : peers.length = server.server.accepted.length)
    (hevents : ∀ k c,
      let s' : Deployment := { s with server := server, peers := peers }
      (s'.taskOf k c).events = (s.taskOf k c).events ∨
        ∃ e, (s'.taskOf k c).events = (s.taskOf k c).events ++ [e] ∧ (s'.view k).Delivers c) :
    Whole config { s with server := server, peers := peers } := by
  have hreach : (ServerSystem.machine config.system).Reachable
      (fun s a => ServerSystem.Calm s ∧ ServerSystem.Signals a) server :=
    .step h.server ⟨h.calm, ha⟩ hserver
  exact ⟨hreach, h.calm.step ha hserver, hnodup, haccepted, fun k =>
    (h.sides k).server_step (taskOf_reachable hreach k) (hevents k)⟩

theorem taskOf_of_length_le {k : Nat} {c : Conn}
    (hle : s.server.tasks.length ≤ s.peers.idxOf (k, c)) :
    s.taskOf k c = ConnectionHandler.accepted := by
  rw [taskOf, List.getElem?_eq_none hle]
  rfl

theorem accept_step {k : Nat} {c : Conn} (h : Whole config s)
    (hs : Deployment.step config s (.accept k c) = some s') : Whole config s' := by
  obtain ⟨⟨hnew, -⟩, hs⟩ := Option.ite_none_right_eq_some.mp hs
  obtain ⟨server, hserver, rfl⟩ := Option.map_eq_some_iff.mp hs
  have htasks := ServerSystem.tasks_of_acceptOk hserver
  have hsignals : ServerSystem.Signals (.server (.acceptOk s.peers.length)) := trivial
  have hnodup : (s.peers ++ [(k, c)]).Nodup := List.concat_eq_append ▸ h.nodup.concat hnew
  refine h.of_server hsignals hserver hnodup ?_ fun j c' => .inl ?_
  · rw [ServerSystem.accepted_of_step hserver, List.length_append, List.length_append,
      ← h.accepted]
    rfl
  · -- the new connection has no task yet, and the others keep theirs
    by_cases hmem : (j, c') ∈ s.peers
    · simp only [taskOf, htasks, List.idxOf_append_of_mem hmem]
    · have hle := h.tasks_le
      rw [taskOf_of_length_le (s := s) (by rw [List.idxOf_of_notMem hmem]; exact hle)]
      refine congrArg _ (taskOf_of_length_le ?_)
      rw [htasks, List.idxOf_append_of_notMem hmem]
      omega

theorem server_step {a : ServerSystem.Act} (h : Whole config s) (ha : ServerSystem.Signals a)
    (hs : Deployment.step config s (.server a) = some s') : Whole config s' := by
  obtain ⟨hinside, hs⟩ := Option.ite_none_right_eq_some.mp hs
  obtain ⟨server, hserver, hs⟩ := Option.bind_eq_some_iff.mp hs
  obtain ⟨hdelivers, hs⟩ := Option.ite_none_right_eq_some.mp hs
  cases hs
  refine h.of_server ha hserver h.nodup ?_ fun k c => ?_
  · rw [ServerSystem.accepted_of_step hserver, List.length_append, h.accepted]
    cases a with
    | task => rfl
    | server a =>
        cases a with
        | acceptOk => cases hinside
        | _ => rfl
  -- the task at the other end goes on, is spawned, or is not concerned
  have hbefore : s.taskOf k c = s.server.tasks[s.peers.idxOf (k, c)]?.getD .accepted := rfl
  have hafter : ({ s with server := server } : Deployment).taskOf k c =
      server.tasks[s.peers.idxOf (k, c)]?.getD .accepted := rfl
  dsimp only
  cases ht : s.server.tasks[s.peers.idxOf (k, c)]? with
  | none =>
      refine .inl ?_
      rw [hafter, hbefore, ht]
      cases ht' : server.tasks[s.peers.idxOf (k, c)]? with
      | none => rfl
      | some t =>
          rcases ServerSystem.task_before ht' hserver with ⟨u, hu⟩ | ⟨-, -, rfl⟩
          · cases ht.symm.trans hu
          · rfl
  | some t =>
      obtain ⟨hlt, -⟩ := List.getElem?_eq_some_iff.mp ht
      have hmem : (k, c) ∈ s.peers :=
        List.idxOf_lt_length_iff.mp (Nat.lt_of_lt_of_le hlt h.tasks_le)
      have hstep := ServerSystem.task_of_step ht hserver
      rw [hafter, hbefore, ht]
      cases hown : ServerSystem.own (s.peers.idxOf (k, c)) a with
      | none =>
          rw [hown] at hstep
          rw [hstep]
          exact .inl rfl
      | some b =>
          rw [hown] at hstep
          obtain ⟨t', ht', htask⟩ := hstep
          rw [htask]
          rcases ConnectionHandler.step_events ht' with ⟨hsame, -⟩ | ⟨-, e, hmore, -⟩
          · exact .inl hsame
          · exact .inr ⟨e, hmore, hdelivers (k, c) hmem⟩

theorem step (h : Whole config s) (hok : Fair s a)
    (hs : Deployment.step config s a = some s') : Whole config s' := by
  cases a with
  | client k a => exact h.client_step hok hs
  | accept k c => exact h.accept_step hs
  | server a => exact h.server_step hok hs

end Whole

theorem whole_of_reachable (h : (machine config).Reachable Fair s) : Whole config s :=
  h.invariant (Whole config) (fun _ hs => whole_of_fresh hs) fun _ _ _ hI hok hs => hI.step hok hs

/-! ### A call that is answered -/

instance (s : Deployment) : ∀ a, Decidable (Fair s a)
  | .client k .cancel =>
      decidable_of_iff (((s.clients k).runtime.ongoing .client).isNone = true) <| by
        simp [Fair, Undisturbed, CallLog.called]
  | .client k (.drop t) =>
      decidable_of_iff (((s.clients k).runtime.ongoing (.ping t)).isNone = true) <| by
        simp [Fair, Undisturbed, CallLog.called]
  | .client _ (.start op) =>
      decidable_of_iff (∀ call ∈ CallLog.called (.start op), ProperCall call)
        ⟨fun h => ⟨trivial, h⟩, And.right⟩
  | .client _ (.client _) | .client _ .finish | .client _ (.ping _ _) | .client _ (.park _)
  | .client _ (.resume _) | .client _ (.turn _) => .isTrue ⟨trivial, nofun⟩
  | .accept _ _ => .isTrue trivial
  | .server a => inferInstanceAs (Decidable (ServerSystem.Signals a))

/-- Nothing has happened yet. -/
def fresh : Deployment := ⟨fun _ => ⟨.new, []⟩, .start, []⟩

theorem init_fresh : (machine config).init fresh :=
  ⟨fun _ => ⟨fresh_new, rfl, rfl⟩, ServerSystem.fresh_start, fun _ => ⟨rfl, rfl⟩, rfl⟩

/-- A command handler that answers with the number of the requests. -/
def counting : CommandHandler := fun requests => .ok (.ok, [UInt8.ofNat requests.length])

theorem declared_counting : ConnectionHandler.Declared counting := by
  intro requests status reply h
  cases h
  exact Nat.lt_of_sub_eq_succ rfl

/-- A plain server with three permits, and clients without TLS. -/
def countingServer : Config :=
  ⟨⟨⟨true, false, 3, .fromSecs 5⟩, 64, fun _ => counting⟩, fun _ => .tl⟩

def byClient (k : Nat) (as : List ClientRuntime.Act) : List Act := as.map (.client k)

def byTask (i : Nat) (as : List ConnectionHandler.Act) : List Act :=
  as.map fun a => .server (.task i a)

def accepts (k : Nat) (c : Conn) : List Act :=
  [.server (.server .prune), .server (.server .acquire), .accept k c, .server (.server .spawn)]

/-- Two clients connect, and a request of one with one byte of payload is answered. -/
def callAnswered : List Act :=
  byClient 4 connecting ++ byClient 9 connecting ++ [.server (.server (.bind true))] ++
  accepts 9 0 ++ accepts 4 0 ++
  byClient 4 ([.start (.handleMessage 7 [5])] ++ clientGoes 7 ++
    [.client (.written 8), .client .go]) ++
  byTask 1 [.setUp true, .deliver [0, 0, 0, 7, 0, 0, 0, 1], .progress (.ready 8),
    .progress (.ready 1), .progress (.ready 0)] ++
  byClient 4 [.client (.bytes [1]), .client (.written 1), .client .go] ++
  byTask 1 [.deliver [5], .progress (.ready 1), .progress (.ready 0), .progress (.ready 0),
    .progress (.ready 5), .progress (.ready 0)] ++
  byClient 4 [.client (.bytes [1, 0, 0, 0, 1]), .client (.written 1), .client .go] ++
  byTask 1 [.deliver [1], .progress (.ready 1), .progress (.ready 1), .progress (.ready 0),
    .turn] ++
  byClient 4 ([.client (.bytes [1])] ++ clientGoes 6 ++ [.finish])

theorem exists_callAnswered :
    ∃ s t, (machine countingServer).run fresh callAnswered = some s ∧
      (machine countingServer).Reachable Fair s ∧ s.server.tasks[1]? = some t ∧
        s.peers[1]? = some (4, 0) ∧ (s.clients 4).runtime.op = none ∧
          (s.clients 4).runtime.call = some (.handleMessage 7 [5]) ∧
            (s.clients 4).runtime.result = some (.ok [1]) := by
  obtain ⟨s, hs, hproj⟩ := Option.map_eq_some_iff.mp
    (show ((machine countingServer).run fresh callAnswered).map
      (fun s => ((s.clients 4).runtime.op.isNone,
        (s.clients 4).runtime.call.elim [] fun op => CallLog.called (.start op),
        ((s.clients 4).runtime.result.bind (·.toOption)).getD [])) = some (true, [(7, [5])], [1]) by
          decide +kernel)
  simp only [Prod.mk.injEq, Option.isNone_iff_eq_none] at hproj
  obtain ⟨hop, hcall, hresult⟩ := hproj
  obtain ⟨s', hs', hproj'⟩ := Option.map_eq_some_iff.mp
    (show ((machine countingServer).run fresh callAnswered).map
      (fun s => (s.server.tasks.length, s.peers)) = some (2, [(9, 0), (4, 0)]) by decide +kernel)
  obtain rfl := Option.some.inj (hs.symm.trans hs')
  obtain ⟨hlen, hpeers⟩ := Prod.mk.inj hproj'
  have hreach : (machine countingServer).Reachable Fair s :=
    Machine.Along.reachable (.init init_fresh) (by decide +kernel) hs
  refine ⟨s, _, hs, hreach, List.getElem?_eq_getElem (by omega), by rw [hpeers]; rfl, hop, ?_, ?_⟩
  · generalize (s.clients 4).runtime.call = call at hcall ⊢
    rcases call with _ | op
    · cases hcall
    · cases op with
      | handleMessage command data =>
          cases hcall
          rfl
      | connect | disconnect | setKeepAlive | setTimeoutConfig => cases hcall
  · generalize (s.clients 4).runtime.result = result at hresult ⊢
    rcases result with _ | e | response
    · cases hresult
    · cases hresult
    · cases hresult
      rfl

/-! ### What clients and server agree on -/

/-- Of the requests that a client begins on a connection, in their order, the command
handler at the other end is entered with the first ones: with all that were answered, and
with none that was not begun. Each response is what it answers to the requests up to this
one. -/
theorem handled_in_order (h : (machine config).Reachable Fair s)
    (hdeclared : ∀ i, ConnectionHandler.Declared (config.system.factory i)) {i : Nat}
    {t : ConnectionHandler} {k : Nat} {c : Conn} (ht : s.server.tasks[i]? = some t)
    (hpeer : s.peers[i]? = some (k, c)) :
    ((s.view k).answered c).map (·.1) <+: t.handled ∧ t.handled <+: (s.view k).begun c ∧
      (config.system.factory i).Answers ((s.view k).answered c) := by
  have hwhole := whole_of_reachable h
  obtain ⟨htask, hidx⟩ := hwhole.taskOf_eq ht hpeer
  have hsides := (hwhole.sides k).in_order (fun c => hdeclared _) c
  rw [← htask, ← hidx]
  exact hsides

theorem handled_in_order_callAnswered :
    ∃ s t, (machine countingServer).run fresh callAnswered = some s ∧
      s.server.tasks[1]? = some t ∧ ((s.view 4).answered 0).map (·.1) <+: t.handled ∧
        t.handled <+: (s.view 4).begun 0 ∧ counting.Answers ((s.view 4).answered 0) := by
  obtain ⟨s, t, hs, hreach, ht, hpeer, -⟩ := exists_callAnswered
  exact ⟨s, t, hs, ht, handled_in_order hreach (fun _ => declared_counting) ht hpeer⟩

/-- What the tasks have handled on the connections of a client are calls of its
`handle_message`, each of them handled once at most, by one task, and in the order of the
calls. Every task has a connection of its own. -/
theorem handled_once (h : (machine config).Reachable Fair s)
    (hdeclared : ∀ i, ConnectionHandler.Declared (config.system.factory i)) :
    s.peers.Nodup ∧ s.server.tasks.length ≤ s.peers.length ∧
      ∀ k, ∃ L : List (Conn × Request), (L.map (·.2)).Sublist (s.clients k).calls ∧
        ∀ (i : Nat) (t : ConnectionHandler) (c : Conn), s.server.tasks[i]? = some t →
          s.peers[i]? = some (k, c) → t.handled = CallLog.on L c := by
  have hwhole := whole_of_reachable h
  refine ⟨hwhole.nodup, hwhole.tasks_le, fun k => ?_⟩
  obtain ⟨L, hcalls, hon⟩ := (hwhole.sides k).once fun c => hdeclared _
  refine ⟨L, hcalls, fun i t c ht hpeer => ?_⟩
  rw [← (hwhole.taskOf_eq ht hpeer).1]
  exact hon c

theorem handled_once_callAnswered :
    ∃ s, (machine countingServer).run fresh callAnswered = some s ∧
      s.peers.Nodup ∧ s.server.tasks.length ≤ s.peers.length ∧
        ∀ k, ∃ L : List (Conn × Request), (L.map (·.2)).Sublist (s.clients k).calls ∧
          ∀ (i : Nat) (t : ConnectionHandler) (c : Conn), s.server.tasks[i]? = some t →
            s.peers[i]? = some (k, c) → t.handled = CallLog.on L c := by
  obtain ⟨s, -, hs, hreach, -⟩ := exists_callAnswered
  exact ⟨s, hs, handled_once hreach fun _ => declared_counting⟩

/-- A response that `handle_message` returns is what the command handler of a task at the
other end of one of this client's connections has answered to this very request, which it
has handled last. -/
theorem returned_is_handled (h : (machine config).Reachable Fair s)
    (hdeclared : ∀ i, ConnectionHandler.Declared (config.system.factory i)) {k : Nat}
    {command : UInt32} {data response : List UInt8} (hop : (s.clients k).runtime.op = none)
    (hcall : (s.clients k).runtime.call = some (.handleMessage command data))
    (hresult : (s.clients k).runtime.result = some (.ok response)) :
    ∃ (i : Nat) (t : ConnectionHandler) (c : Conn) (earlier : List Request),
      s.server.tasks[i]? = some t ∧ s.peers[i]? = some (k, c) ∧
      t.handled = earlier ++ [(command, data)] ∧
        config.system.factory i (earlier ++ [(command, data)]) = .ok (.ok, response) := by
  have hwhole := whole_of_reachable h
  obtain ⟨c, earlier, hhandled, hanswer⟩ := (hwhole.sides k).returned (fun c => hdeclared _)
    hop hcall hresult
  have hbefore : (s.view k).server c =
      s.server.tasks[s.peers.idxOf (k, c)]?.getD .accepted := rfl
  cases ht : s.server.tasks[s.peers.idxOf (k, c)]? with
  | none =>
      rw [hbefore, ht] at hhandled
      simp [ConnectionHandler.handled, ConnectionHandler.events, ConnectionHandler.accepted,
        entered] at hhandled
  | some t =>
      obtain ⟨hlt, -⟩ := List.getElem?_eq_some_iff.mp ht
      have hidx := Nat.lt_of_lt_of_le hlt hwhole.tasks_le
      rw [hbefore, ht] at hhandled
      refine ⟨_, t, c, earlier, ht, ?_, hhandled, hanswer⟩
      rw [List.getElem?_eq_getElem hidx, List.getElem_idxOf hidx]

theorem returned_is_handled_callAnswered :
    ∃ s, (machine countingServer).run fresh callAnswered = some s ∧
      ∃ (i : Nat) (t : ConnectionHandler) (c : Conn) (earlier : List Request),
        s.server.tasks[i]? = some t ∧ s.peers[i]? = some (4, c) ∧
        t.handled = earlier ++ [(7, [5])] ∧
          counting (earlier ++ [(7, [5])]) = .ok (.ok, [1]) := by
  obtain ⟨s, -, hs, hreach, -, -, hop, hcall, hresult⟩ := exists_callAnswered
  exact ⟨s, hs, returned_is_handled hreach (fun _ => declared_counting) hop hcall hresult⟩

end Deployment

end Wagonet
