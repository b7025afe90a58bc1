import Wagonet.ServerSystem

/-!
A shutdown is sent once or many times.

A receiver looks at the shutdown channel until it has seen `true`; from then on it only
leaves its loop. So all that a second `true` can change is a counter that nobody reads any
more, or that already tells of something new.
-/

namespace Wagonet

open Library

/-! ### The accept loop -/

namespace Server

variable {config : Config} {s s' t : Server} {a : Act}

/-- The server with another state of its shutdown channel. -/
def withWatch (s : Server) (w : Watch Bool) (seen : Nat) : Server :=
  { s with shutdown := w, seen := seen }

section

variable {w : Watch Bool} {n : Nat}

@[simp] theorem withWatch_phase : (s.withWatch w n).phase = s.phase := rfl

@[simp] theorem withWatch_handles : (s.withWatch w n).handles = s.handles := rfl

@[simp] theorem withWatch_elapsed : (s.withWatch w n).elapsed = s.elapsed := rfl

@[simp] theorem isFinished_withWatch {i : Nat} :
    (s.withWatch w n).isFinished i = s.isFinished i := rfl

end

/-- The version of `shutdown_rx` after an action. -/
def Act.sees (a : Act) (w : Watch Bool) (seen : Nat) : Nat :=
  match a with
  | .changed => w.version
  | _ => seen

/-- Of the channel `run` reads its value, and whether there is something new before it has
left the loop. -/
theorem step_withWatch {w : Watch Bool} {n : Nat} (hvalue : w.value = s.shutdown.value)
    (hnew : s.phase.beforeWake = true → w.changed n = true) (hs : step config s a = some s') :
    step config (s.withWatch w n) a = some (s'.withWatch (a.heard w) (a.sees w n)) := by
  cases a with
  | notify | dropSenders => cases hs; rfl
  | prune | acceptOk | acceptErr | spawn | backoffExpired =>
      simp only [step] at hs
      split at hs <;> cases hs
      simp only [step, withWatch, ‹s.phase = _›]
      rfl
  | tick d =>
      simp only [step] at hs
      simp only [step, withWatch]
      split at hs <;> cases hs <;> rfl
  | borrow =>
      simp only [step] at hs
      split at hs <;> cases hs
      all_goals
        simp only [step, withWatch, ‹s.phase = _›, hvalue]
        rfl
  | changed =>
      simp only [step] at hs
      split at hs
      · split at hs <;> cases hs
        all_goals
          rename_i hphase
          simp only [step, withWatch, hphase, hnew (by rw [hphase]; rfl), if_true]
          rfl
      · cases hs
  | conn i stage =>
      simp only [step] at hs
      split at hs
      · rename_i c hc
        split at hs <;> cases hs
        rename_i hstage
        simp only [step, withWatch, hc]
        exact if_pos hstage
      · cases hs
  | bind | acquire =>
      simp only [step] at hs
      repeat' split at hs
      all_goals cases hs
      all_goals
        simp only [step, withWatch, ‹s.phase = _›]
        simp only [*, if_true, if_false, ne_eq, not_false_eq_true, and_self]
        rfl
  | drain =>
      simp only [step] at hs
      repeat' split at hs
      all_goals cases hs
      all_goals
        simp only [step, withWatch_phase, withWatch_handles, withWatch_elapsed, ‹s.phase = _›]
        simp only [*, if_true, if_false]
        rfl
  | joined | drainExpired =>
      simp only [step] at hs
      repeat' split at hs
      all_goals cases hs
      all_goals
        simp only [step, withWatch_phase, withWatch_handles, withWatch_elapsed,
          isFinished_withWatch, ‹s.phase = _›]
        simp only [*, and_self, if_true]
        rfl

/-- The server without its shutdown channel. -/
def unwatched (s : Server) : Server := s.withWatch ⟨false, 0, false⟩ 0

theorem eq_withWatch (h : s.unwatched = t.unwatched) :
    t = s.withWatch t.shutdown t.seen := by
  obtain ⟨phase, w, n, permits, accepted, calls, conns, handles, elapsed⟩ := t
  simp only [unwatched, withWatch, Server.mk.injEq, true_and] at h
  obtain ⟨rfl, rfl, rfl, rfl, rfl, rfl, rfl⟩ := h
  rfl

/-- Two servers that differ in their shutdown channel only, and are both told of it. -/
theorem step_of_unwatched (h : s.unwatched = t.unwatched)
    (hvalue : t.shutdown.value = s.shutdown.value)
    (hnew : t.phase.beforeWake = true → t.shutdown.changed t.seen = true)
    (hs : step config s a = some s') :
    ∃ t', step config t a = some t' ∧ s'.unwatched = t'.unwatched := by
  have ht := eq_withWatch h
  have hphase : t.phase = s.phase := by rw [ht]; rfl
  have hstep := step_withWatch (n := t.seen) hvalue (hphase ▸ hnew) hs
  rw [← ht] at hstep
  exact ⟨_, hstep, rfl⟩

/-- Until it has left its loop, `run` is told of a shutdown. -/
theorem Unseen.changed (h : s.Unseen) (hphase : s.phase.beforeWake = true)
    (hvalue : s.shutdown.value = true) : s.shutdown.changed s.seen = true := by
  simp [Watch.changed, (h.unseen hphase hvalue).symm]

end Server

/-! ### A connection task -/

namespace ConnectionHandler

variable {handler : CommandHandler} {maxBufferSize : Nat} {c c' d : ConnectionHandler} {a : Act}

/-- The task with another state of its shutdown channel. -/
def withWatch (c : ConnectionHandler) (w : Watch Bool) (seen : Nat) : ConnectionHandler :=
  { c with shutdown := w, seen := seen }

/-- The version of the task's receiver after an action. -/
def Act.sees (a : Act) (w : Watch Bool) (seen : Nat) : Nat :=
  match a with
  | .wake => w.version
  | _ => seen

theorem step_withWatch {w : Watch Bool} {n : Nat} (ha : ServerSystem.ofTask a = true)
    (hvalue : w.value = c.shutdown.value)
    (hnew : ∀ t, c.phase = .serving t → w.changed n = true)
    (hs : step handler maxBufferSize c a = some c') :
    step handler maxBufferSize (c.withWatch w n) a = some (c'.withWatch w (a.sees w n)) := by
  cases a with
  | notify | dropSenders => cases ha
  | deliver | close => cases hs; rfl
  | tlsAccepted | setUp =>
      simp only [step] at hs
      split at hs
      · rename_i hphase
        simp only [step, withWatch, hphase]
        split at hs <;> cases hs <;> simp only [*] <;> rfl
      · cases hs
  | progress choice =>
      simp only [step] at hs
      split at hs
      · rename_i s o k hphase
        obtain ⟨r, hr, rfl⟩ := Option.map_eq_some_iff.mp hs
        have hanswer : (c.withWatch w n).answer handler o choice = some r := by
          rw [← hr]
          cases o with
          | wait => rfl
          | call c' => cases c' <;> cases choice <;> rfl
        simp only [step, withWatch, hphase] at hanswer ⊢
        rw [hanswer]
        rfl
      · cases hs
  | elapse i =>
      simp only [step] at hs
      split at hs
      · rename_i s ts o k hphase
        split at hs <;> cases hs
        rename_i hi
        simp only [step, withWatch, hphase]
        exact dif_pos hi
      · cases hs
  | turn | borrow =>
      simp only [step] at hs
      split at hs <;> cases hs
      rename_i hphase
      simp only [step, withWatch, hphase, hvalue]
      rfl
  | wake =>
      simp only [step] at hs
      split at hs
      · rename_i s o k hphase
        split at hs <;> cases hs
        rename_i hsuspends
        simp only [step, withWatch, hphase]
        exact if_pos ⟨hsuspends.1, hnew _ hphase⟩
      · cases hs
  | abort =>
      simp only [step] at hs
      split at hs
      · rename_i hphase
        cases hs
        simp only [step, withWatch, hphase]
        rfl
      · rename_i s o k hphase
        split at hs <;> cases hs
        rename_i hsuspends
        simp only [step, withWatch, hphase]
        exact if_pos hsuspends
      · cases hs

/-- The task without its shutdown channel. -/
def unwatched (c : ConnectionHandler) : ConnectionHandler := c.withWatch ⟨false, 0, false⟩ 0

theorem eq_withWatch (h : c.unwatched = d.unwatched) : d = c.withWatch d.shutdown d.seen := by
  obtain ⟨phase, inbox, w, n, past, current⟩ := d
  simp only [unwatched, withWatch, ConnectionHandler.mk.injEq, true_and] at h
  obtain ⟨rfl, rfl, rfl, rfl⟩ := h
  rfl

/-- The phases in which the shutdown channel is still to be looked at. -/
def Phase.listens : Phase → Bool
  | .tlsAccept => true
  | .setUp => true
  | .serving _ => true
  | _ => false

/-- While the channel holds `true`, a task that goes on has not seen it. -/
structure Unread (c : ConnectionHandler) : Prop where
  behind : c.seen ≤ c.shutdown.version
  unread : c.phase.listens = true → c.shutdown.value = true → c.seen ≠ c.shutdown.version

namespace Unread

theorem of_same (h : c.Unread) (hw : c'.shutdown = c.shutdown) (hn : c'.seen = c.seen)
    (hphase : c'.phase.listens = true → c.phase.listens = true) : c'.Unread := by
  refine ⟨?_, ?_⟩
  · rw [hw, hn]
    exact h.behind
  · rw [hw, hn]
    exact fun hlistens => h.unread (hphase hlistens)

theorem step (h : c.Unread) (ha : ServerSystem.ofTask a = true)
    (hs : ConnectionHandler.step handler maxBufferSize c a = some c') : c'.Unread := by
  cases a with
  | notify | dropSenders => cases ha
  | deliver | close => cases hs; exact h.of_same rfl rfl id
  | wake =>
      simp only [ConnectionHandler.step] at hs
      split at hs
      · split at hs <;> cases hs
        refine ⟨Nat.le_refl _, ?_⟩
        rintro ⟨⟩
      · cases hs
  | borrow =>
      simp only [ConnectionHandler.step] at hs
      split at hs <;> cases hs
      refine ⟨h.behind, fun hlistens hvalue => ?_⟩
      dsimp only at hlistens hvalue
      rw [hvalue, if_pos rfl] at hlistens
      cases hlistens
  | progress choice =>
      simp only [ConnectionHandler.step] at hs
      split at hs
      · rename_i s o k hphase
        obtain ⟨r, -, rfl⟩ := Option.map_eq_some_iff.mp hs
        exact h.of_same rfl rfl fun _ => by rw [hphase]; rfl
      · cases hs
  | turn =>
      simp only [ConnectionHandler.step] at hs
      split at hs <;> cases hs
      rename_i hphase
      exact h.of_same rfl rfl fun _ => by rw [hphase]; rfl
  | tlsAccepted | setUp | elapse | abort =>
      simp only [ConnectionHandler.step] at hs
      repeat' split at hs
      all_goals cases hs
      all_goals exact h.of_same rfl rfl fun _ => by simp only [*]; rfl

theorem hear (h : c.Unread) (a : Server.Act) : (ServerSystem.hear a c).Unread := by
  cases a with
  | notify value =>
      exact ⟨Nat.le_succ_of_le h.behind, fun _ _ => Nat.ne_of_lt (Nat.lt_succ_of_le h.behind)⟩
  | _ => exact ⟨h.behind, h.unread⟩

/-- A task that goes on is told of a shutdown. -/
theorem changed (h : c.Unread) (hphase : c.phase.listens = true)
    (hvalue : c.shutdown.value = true) : c.shutdown.changed c.seen = true := by
  simp [Watch.changed, (h.unread hphase hvalue).symm]

end Unread

end ConnectionHandler

/-! ### Everybody together -/

namespace ServerSystem

variable {config : Config} {s s' t : ServerSystem} {a : Act}

/-- The server and its tasks without the shutdown channel. -/
def unwatched (s : ServerSystem) : ServerSystem :=
  ⟨s.server.unwatched, s.tasks.map (·.unwatched)⟩

/-- Nobody who still listens has seen a shutdown. -/
structure Unread (s : ServerSystem) : Prop where
  agree : Agree s
  server : s.server.Unseen
  tasks : ∀ c ∈ s.tasks, c.Unread

theorem unread_of_fresh (h : Fresh s) : Unread s := by
  refine ⟨agree_of_fresh h, ?_, ?_⟩
  · obtain ⟨⟨-, hbehind, hunseen, -⟩, -⟩ := h
    exact ⟨hbehind, fun _ => hunseen⟩
  · rw [h.2]
    exact fun c hc => absurd hc List.not_mem_nil

theorem Unread.step (h : Unread s) (hs : ServerSystem.step config s a = some s') : Unread s' := by
  refine ⟨h.agree.step hs, ?_, ?_⟩
  · cases does_of_step hs with
    | server _ hserver => exact h.server.step hserver
    | task _ _ _ hserver =>
        rcases seeStage_eq hserver with ⟨-, rfl⟩ | hserver
        · exact h.server
        · exact h.server.step hserver
  · cases does_of_step hs with
    | @server a server ha hserver =>
        intro c hc
        rcases List.mem_append.mp hc with hc | hc
        · obtain ⟨d, hd, rfl⟩ := List.mem_map.mp hc
          exact (h.tasks d hd).hear a
        · cases a with
          | spawn =>
              rw [List.mem_singleton.mp hc]
              simp only [Server.step] at hserver
              split at hserver <;> cases hserver
              rename_i hphase
              exact ⟨h.server.behind, fun _ => h.server.unseen (by rw [hphase]; rfl)⟩
          | _ => cases hc
    | task ha hu hu' _ =>
        intro c hc
        rcases List.mem_or_eq_of_mem_set hc with hc | rfl
        · exact h.tasks c hc
        · exact (h.tasks _ (List.mem_of_getElem? hu)).step ha hu'

theorem unread_of_reachable {ok : ServerSystem → Act → Prop}
    (h : (machine config).Reachable ok s) : Unread s :=
  h.invariant Unread (fun _ hs => unread_of_fresh hs) fun _ _ _ hI _ hs => hI.step hs

/-- The same server, told of the shutdown another number of times. -/
structure Retold (s t : ServerSystem) : Prop where
  same : s.unwatched = t.unwatched
  unread : Unread s ∧ Unread t
  value : s.server.shutdown.value = true ∧ t.server.shutdown.value = true

namespace Retold

theorem symm (h : Retold s t) : Retold t s :=
  ⟨h.same.symm, h.unread.symm, h.value.symm⟩

theorem server (h : Retold s t) : s.server.unwatched = t.server.unwatched :=
  congrArg ServerSystem.server h.same

theorem tasks (h : Retold s t) : s.tasks.map (·.unwatched) = t.tasks.map (·.unwatched) :=
  congrArg ServerSystem.tasks h.same

/-- What goes on in one connection goes on in the other. -/
theorem task {i : Nat} {b : ConnectionHandler.Act} {c c' : ConnectionHandler} (h : Retold s t)
    (hb : ofTask b = true) (hc : s.tasks[i]? = some c)
    (hs : ConnectionHandler.step (config.factory i) config.maxBufferSize c b = some c') :
    ∃ d d', t.tasks[i]? = some d ∧ d.phase = c.phase ∧
      ConnectionHandler.step (config.factory i) config.maxBufferSize d b = some d' ∧
        d'.phase = c'.phase ∧ c'.unwatched = d'.unwatched := by
  have hmap := congrArg (·[i]?) h.tasks
  rw [List.getElem?_map, List.getElem?_map, hc, Option.map_some] at hmap
  obtain ⟨d, hd, hsame⟩ := Option.map_eq_some_iff.mp hmap.symm
  have hwatch := ConnectionHandler.eq_withWatch hsame.symm
  have hphase : d.phase = c.phase := by rw [hwatch]; rfl
  have hlive {u : ServerSystem} (hu : Unread u) (hvalue : u.server.shutdown.value = true)
      {e : ConnectionHandler} (he : u.tasks[i]? = some e) : e.shutdown.value = true :=
    (congrArg Watch.value (hu.agree.shutdown e (List.mem_of_getElem? he))).trans hvalue
  have hd' := hlive h.unread.2 h.value.2 hd
  have hstep := ConnectionHandler.step_withWatch (w := d.shutdown) (n := d.seen) hb
    (hd'.trans (hlive h.unread.1 h.value.1 hc).symm) (fun u hu =>
      (h.unread.2.tasks d (List.mem_of_getElem? hd)).changed (by rw [hphase, hu]; rfl) hd') hs
  rw [← hwatch] at hstep
  exact ⟨d, _, hd, hphase, hstep, rfl, rfl⟩

theorem value_of_step {s' : ServerSystem} (hvalue : s.server.shutdown.value = true)
    (ha : a ≠ .server (.notify false)) (hs : ServerSystem.step config s a = some s') :
    s'.server.shutdown.value = true := by
  cases does_of_step hs with
  | @server a server _ hserver =>
      rw [Server.shutdown_of_step hserver]
      cases a with
      | notify value =>
          cases value with
          | true => rfl
          | false => exact absurd rfl ha
      | _ => exact hvalue
  | task _ _ _ hserver =>
      rcases seeStage_eq hserver with ⟨-, rfl⟩ | hserver
      · exact hvalue
      · rw [Server.shutdown_of_step hserver]
        exact hvalue

theorem step (h : Retold s t) (ha : a ≠ .server (.notify false))
    (hs : ServerSystem.step config s a = some s') :
    ∃ t', ServerSystem.step config t a = some t' ∧ Retold s' t' := by
  -- it is enough to find a step to a state that looks the same
  have build (t' : ServerSystem) (ht : ServerSystem.step config t a = some t')
      (hsame : s'.unwatched = t'.unwatched) :
      ∃ t', ServerSystem.step config t a = some t' ∧ Retold s' t' :=
    ⟨t', ht, hsame, ⟨h.unread.1.step hs, h.unread.2.step ht⟩,
      value_of_step h.value.1 ha hs, value_of_step h.value.2 ha ht⟩
  have hserver {a : Server.Act} {server : Server}
      (hstep : Server.step config.toConfig s.server a = some server) :=
    Server.step_of_unwatched h.server (h.value.2.trans h.value.1.symm)
      (fun hphase => h.unread.2.server.changed hphase h.value.2) hstep
  cases does_of_step hs with
  | @server a server hofServer hstep =>
      obtain ⟨server', hstep', hsame⟩ := hserver hstep
      refine build ⟨server', t.tasks.map (hear a) ++ spawned config t.server a⟩
        (by simp [ServerSystem.step, hofServer, hstep']) ?_
      have htasks (u : ServerSystem) :
          (u.tasks.map (hear a)).map (·.unwatched) = u.tasks.map (·.unwatched) := by
        simp [Function.comp_def, hear, ConnectionHandler.unwatched, ConnectionHandler.withWatch]
      have hspawned : (spawned config s.server a).map (·.unwatched) =
          (spawned config t.server a).map (·.unwatched) := by
        cases a <;> rfl
      simp only [unwatched, hsame, List.map_append, htasks, h.tasks, hspawned]
  | @task i b c c' server hb hc hc' hstep =>
      obtain ⟨d, d', hd, hphase, hd', hphase', hsame⟩ := h.task hb hc hc'
      have hsee : ∃ server', seeStage config t.server i d.phase.stage d'.phase.stage =
          some server' ∧ server.unwatched = server'.unwatched := by
        rw [seeStage, hphase, hphase']
        rw [seeStage] at hstep
        split at hstep
        · cases hstep
          exact ⟨t.server, if_pos ‹_›, h.server⟩
        · rw [if_neg ‹_›]
          exact hserver hstep
      obtain ⟨server', hstep', hserver'⟩ := hsee
      refine build ⟨server', t.tasks.set i d'⟩
        (by simp [ServerSystem.step, hb, hd, hd', hstep']) ?_
      simp only [unwatched, hserver', List.map_set, h.tasks, hsame]

end Retold

/-- Anything but a call of `shutdown`, or `true` sent through a handle. -/
def Act.notShutdown : Act → Bool
  | .server (.notify true) => false
  | _ => true

theorem Retold.shutdown {a : Act} (h : Retold s t) (ha : a.notShutdown = false) :
    ∃ s', ServerSystem.step config s a = some s' ∧ Retold s' t := by
  obtain rfl : a = .server (.notify true) := by
    unfold Act.notShutdown at ha
    split at ha
    · rfl
    · cases ha
  have hs : ServerSystem.step config s (.server (.notify true)) =
      some ⟨{ s.server with shutdown := s.server.shutdown.send true },
        s.tasks.map (hear (.notify true)) ++ []⟩ := rfl
  refine ⟨_, hs, ?_, ⟨h.unread.1.step hs, h.unread.2⟩, rfl, h.value.2⟩
  rw [← h.same]
  simp [unwatched, Server.unwatched, Server.withWatch, Function.comp_def, hear,
    ConnectionHandler.unwatched, ConnectionHandler.withWatch]

/-- A shutdown is idempotent. Once `true` was sent, whatever is done from then on can be
done without sending it again, and with it sent any number of times more, at any moments:
it ends in the same state of the server and of its connections. -/
theorem shutdown_idempotent (h : (machine config).Reachable Machine.anyStep s)
    (hvalue : s.server.shutdown.value = true) {as : List Act}
    (has : ∀ a ∈ as, a ≠ .server (.notify false)) :
    (∀ s', (machine config).run s as = some s' →
      ∃ t', (machine config).run s (as.filter Act.notShutdown) = some t' ∧
        s'.unwatched = t'.unwatched) ∧
      ∀ t', (machine config).run s (as.filter Act.notShutdown) = some t' →
        ∃ s', (machine config).run s as = some s' ∧ s'.unwatched = t'.unwatched := by
  have hunread := unread_of_reachable h
  have hR : Retold s s := ⟨rfl, ⟨hunread, hunread⟩, hvalue, hvalue⟩
  have hback {s t t' : ServerSystem} {a : Act} (hR : Retold s t)
      (ha : a ≠ .server (.notify false)) (ht : step config t a = some t') :
      ∃ s', step config s a = some s' ∧ Retold s' t' := by
    obtain ⟨s', hs, hR'⟩ := hR.symm.step ha ht
    exact ⟨s', hs, hR'.symm⟩
  obtain ⟨hfewer, hmore⟩ := Machine.run_filter_both (M := machine config) (R := Retold)
    (fun _ _ _ _ hR ha _ hs => hR.step ha hs) (fun _ _ _ _ hR ha _ ht => hback hR ha ht)
    (fun _ _ _ hR ha => hR.shutdown ha) hR has
  refine ⟨fun s' hr => ?_, fun t' hr => ?_⟩
  · obtain ⟨t', ht', hR'⟩ := hfewer s' hr
    exact ⟨t', ht', hR'.same⟩
  · obtain ⟨s', hs', hR'⟩ := hmore t' hr
    exact ⟨s', hs', hR'.same⟩

/-- The server is told to shut down while one connection is served; it is told again, and
then everybody leaves. -/
def toldAgain : List Act :=
  [.server (.notify true), .server .prune, .server .acquire, .server .changed,
    .server (.notify true), .server .borrow, .server .drain, .task 0 .wake,
    .server (.notify true), .task 0 .borrow, .server .joined]

theorem shutdown_idempotent_toldAgain :
    ∃ s, (machine echoServer).run start (twoConnections ++ [.server (.notify true)]) = some s ∧
      (∀ s', (machine echoServer).run s toldAgain = some s' →
        ∃ t', (machine echoServer).run s (toldAgain.filter Act.notShutdown) = some t' ∧
          s'.unwatched = t'.unwatched) ∧
      ∀ t', (machine echoServer).run s (toldAgain.filter Act.notShutdown) = some t' →
        ∃ s', (machine echoServer).run s toldAgain = some s' ∧ s'.unwatched = t'.unwatched := by
  obtain ⟨s, hs, hvalue⟩ := Option.map_eq_some_iff.mp
    (show ((machine echoServer).run start (twoConnections ++ [.server (.notify true)])).map
      (·.server.shutdown.value) = some true by decide +kernel)
  have hreach : (machine echoServer).Reachable Machine.anyStep s :=
    .run (.init fresh_start) (fun _ _ _ => trivial) hs
  exact ⟨s, hs, shutdown_idempotent hreach hvalue (by simp [toldAgain])⟩

end ServerSystem

end Wagonet
