import Wagonet.Server

/-!
The accept loop of the server: what makes it stop, and what can block it.

Without a shutdown the loop goes on and spawns one task for each accepted
connection, provided that there is a semaphore to take permits from. With a
shutdown the run task reaches the drain loop by steps of its own from every
phase in which it holds a permit; from the others it first needs a permit, and
only the end of a connection task can free one.
-/

namespace Wagonet

open Library

namespace ConnectionHandler

/-- The stages the server knows of are those a connection task goes through. -/
theorem stage_step {handler : CommandHandler} {maxBufferSize : Nat} {c c' : ConnectionHandler}
    {a : Act} (hs : step handler maxBufferSize c a = some c') :
    c'.phase.stage = c.phase.stage ∨ c.phase.stage.canBecome c'.phase.stage = true := by
  cases a with
  | deliver bytes => cases hs; exact .inl rfl
  | close => cases hs; exact .inl rfl
  | notify value => cases hs; exact .inl rfl
  | dropSenders => cases hs; exact .inl rfl
  | tlsAccepted r =>
      simp only [step] at hs
      split at hs
      · rename_i hphase
        rw [hphase]
        split at hs <;> cases hs <;> exact .inr rfl
      · cases hs
  | setUp reserved =>
      simp only [step] at hs
      split at hs
      · rename_i hphase
        rw [hphase]
        split at hs <;> cases hs
        · exact .inl rfl
        · exact .inr rfl
      · cases hs
  | progress choice =>
      simp only [step] at hs
      split at hs
      · rename_i s o k hphase
        rw [hphase]
        obtain ⟨r, -, rfl⟩ := Option.map_eq_some_iff.mp hs
        exact .inl rfl
      · cases hs
  | elapse i =>
      simp only [step] at hs
      split at hs
      · rename_i s ts o k hphase
        rw [hphase]
        split at hs <;> cases hs
        exact .inl rfl
      · cases hs
  | turn =>
      simp only [step] at hs
      split at hs
      · rename_i s r hphase
        rw [hphase]
        cases hs
        match r with
        | .ok true => exact .inl rfl
        | .ok false => exact .inr rfl
        | .error _ => exact .inr rfl
      · cases hs
  | wake =>
      simp only [step] at hs
      split at hs
      · rename_i s o k hphase
        rw [hphase]
        split at hs <;> cases hs
        exact .inl rfl
      · cases hs
  | borrow =>
      simp only [step] at hs
      split at hs
      · rename_i s hphase
        rw [hphase]
        cases hs
        cases c.shutdown.value with
        | true => exact .inr rfl
        | false => exact .inl rfl
      · cases hs
  | abort =>
      simp only [step] at hs
      split at hs
      · rename_i hphase
        rw [hphase]
        cases hs
        exact .inr rfl
      · rename_i s o k hphase
        rw [hphase]
        split at hs <;> cases hs
        exact .inr rfl
      · cases hs

end ConnectionHandler

namespace Server

variable {config : Config}

/-! ### Without a shutdown -/

/-- `true` was not sent and is not sent. -/
def NoShutdown (s : Server) (a : Act) : Prop :=
  s.shutdown.value = false ∧ a ≠ .notify true

/-- The run task has not left its accept loop, unless it never came that far. -/
def Phase.keepsServing : Phase → Bool
  | .draining _ => false
  | .joining _ => false
  | .returned => false
  | .panicked => false
  | _ => true

/-- The accepted stream that is about to be spawned. -/
def Phase.pending : Phase → List Nat
  | .accepted stream => [stream]
  | _ => []

/-- The loop was not left, and each accepted stream was handed to exactly one
connection task, in order, with a command handler of its own. -/
structure Serves (s : Server) : Prop where
  serving : s.phase.keepsServing = true
  spawned : s.conns.map (·.stream) ++ s.phase.pending = s.accepted
  handlers : s.conns.map (·.handler) = List.range s.factoryCalls

theorem map_set_of_getElem? {α β : Type} (f : α → β) {l : List α} {i : Nat} {a b : α}
    (h : l[i]? = some a) (hf : f b = f a) : (l.set i b).map f = l.map f := by
  obtain ⟨hi, rfl⟩ := List.getElem?_eq_some_iff.mp h
  rw [List.map_set, hf, ← List.getElem_map f, List.set_getElem_self]
  simpa using hi

theorem Serves.step {s s' : Server} {a : Act} (hpos : 0 < config.maxConnections)
    (hmax : config.maxConnections ≤ maxPermits) (h : Serves s) (hok : NoShutdown s a)
    (hs : step config s a = some s') : Serves s' := by
  obtain ⟨hserving, hspawned, hhandlers⟩ := h
  cases a with
  | bind ok =>
      simp only [Server.step] at hs
      split at hs
      · rename_i hphase
        rw [hphase] at hspawned
        have hbound : ¬(config.maxConnections ≠ 0 ∧ config.maxConnections > maxPermits) := by
          omega
        simp only [hbound, if_false] at hs
        split at hs <;> cases hs <;> exact ⟨rfl, hspawned, hhandlers⟩
      · cases hs
  | prune =>
      simp only [Server.step] at hs
      split at hs
      · rename_i hphase
        rw [hphase] at hspawned
        cases hs
        exact ⟨rfl, hspawned, hhandlers⟩
      · cases hs
  | acquire =>
      simp only [Server.step] at hs
      split at hs
      · rename_i hphase
        rw [hphase] at hspawned
        simp only [Nat.pos_iff_ne_zero.mp hpos, if_false] at hs
        split at hs <;> cases hs
        exact ⟨rfl, hspawned, hhandlers⟩
      · cases hs
  | acceptOk stream =>
      simp only [Server.step] at hs
      split at hs
      · rename_i hphase
        rw [hphase] at hspawned
        cases hs
        refine ⟨rfl, ?_, hhandlers⟩
        rw [← hspawned]
        simp [Phase.pending]
      · cases hs
  | acceptErr =>
      simp only [Server.step] at hs
      split at hs
      · rename_i hphase
        rw [hphase] at hspawned
        cases hs
        exact ⟨rfl, hspawned, hhandlers⟩
      · cases hs
  | changed =>
      simp only [Server.step] at hs
      split at hs
      · split at hs
        · rename_i hphase
          rw [hphase] at hspawned
          cases hs
          exact ⟨rfl, hspawned, hhandlers⟩
        · rename_i hphase
          rw [hphase] at hspawned
          cases hs
          exact ⟨rfl, hspawned, hhandlers⟩
        · cases hs
      · cases hs
  | borrow =>
      simp only [Server.step, hok.1] at hs
      split at hs
      · rename_i hphase
        rw [hphase] at hspawned
        cases hs
        exact ⟨rfl, hspawned, hhandlers⟩
      · rename_i hphase
        rw [hphase] at hspawned
        cases hs
        exact ⟨rfl, hspawned, hhandlers⟩
      · cases hs
  | spawn =>
      simp only [Server.step] at hs
      split at hs
      · rename_i stream hphase
        rw [hphase] at hspawned
        cases hs
        refine ⟨rfl, ?_, ?_⟩
        · rw [← hspawned]
          simp [Phase.pending]
        · simp [hhandlers, List.range_succ]
      · cases hs
  | backoffExpired =>
      simp only [Server.step] at hs
      split at hs
      · rename_i hphase
        rw [hphase] at hspawned
        cases hs
        exact ⟨rfl, hspawned, hhandlers⟩
      · cases hs
  | notify value => cases hs; exact ⟨hserving, hspawned, hhandlers⟩
  | dropSenders => cases hs; exact ⟨hserving, hspawned, hhandlers⟩
  | conn i stage =>
      simp only [Server.step] at hs
      split at hs
      · rename_i c hc
        split at hs
        · cases hs
          have hstream := map_set_of_getElem? (·.stream) (b := { c with stage := stage }) hc rfl
          have hhandler := map_set_of_getElem? (·.handler) (b := { c with stage := stage }) hc rfl
          exact ⟨hserving, by rw [hstream, hspawned], by rw [hhandler, hhandlers]⟩
        · cases hs
      · cases hs
  | drain =>
      simp only [Server.step] at hs
      split at hs
      · rename_i i hphase
        rw [hphase] at hserving
        cases hserving
      · cases hs
  | joined =>
      simp only [Server.step] at hs
      split at hs
      · rename_i i hphase
        rw [hphase] at hserving
        cases hserving
      · cases hs
  | drainExpired =>
      simp only [Server.step] at hs
      split at hs
      · rename_i i hphase
        rw [hphase] at hserving
        cases hserving
      · cases hs
  | tick d =>
      simp only [Server.step] at hs
      split at hs <;> cases hs <;> exact ⟨hserving, hspawned, hhandlers⟩

/-- A server that was just created, when `run` is called. -/
def start : Server := ⟨.start, ⟨false, 0, false⟩, 0, 0, [], 0, [], [], 0⟩

theorem fresh_start : Fresh start :=
  ⟨rfl, Nat.le_refl _, nofun, rfl, rfl, rfl, rfl, rfl⟩

/-- With the limit 0, documented as no limit, there is no semaphore and the first
iteration leaves the loop. -/
theorem leaves_of_zero (hf : config.hasFactory = true) (h0 : config.maxConnections = 0) :
    (machine config).Reachable NoShutdown { start with phase := .draining 0 } := by
  have hbind : step config start (.bind true) = some { start with phase := .loopHead } := by
    simp [Server.step, start, hf, h0]
  have hprune : step config { start with phase := .loopHead } .prune =
      some { start with phase := .permitWait } := rfl
  have hacquire : step config { start with phase := .permitWait } .acquire =
      some { start with phase := .draining 0 } := by
    simp [Server.step, h0]
  have hstart : (machine config).Reachable NoShutdown start := .init fresh_start
  have hhead := hstart.step (a := .bind true) ⟨rfl, nofun⟩ hbind
  have hwait := hhead.step (a := .prune) ⟨rfl, nofun⟩ hprune
  exact hwait.step (a := .acquire) ⟨rfl, nofun⟩ hacquire

theorem panics_of_gt (hf : config.hasFactory = true) (hgt : maxPermits < config.maxConnections) :
    (machine config).Reachable NoShutdown { start with phase := .panicked } := by
  have h0 : config.maxConnections ≠ 0 := by omega
  have hbind : step config start (.bind true) = some { start with phase := .panicked } := by
    simp [Server.step, start, hf, h0, hgt]
  have hstart : (machine config).Reachable NoShutdown start := .init fresh_start
  exact hstart.step (a := .bind true) ⟨rfl, nofun⟩ hbind

theorem serves_of_fresh {s : Server} (h : Fresh s) : Serves s := by
  obtain ⟨hphase, -, -, hacc, hcalls, hconns, -, -⟩ := h
  refine ⟨?_, ?_, ?_⟩
  · rw [hphase]
    rfl
  · rw [hphase, hconns, hacc]
    rfl
  · rw [hconns, hcalls]
    rfl

/-- Without a shutdown the server serves for ever, if and only if the limit on the
number of connections is one a semaphore can have. -/
theorem serves_iff (hf : config.hasFactory = true) :
    (∀ s, (machine config).Reachable NoShutdown s → Serves s) ↔
      0 < config.maxConnections ∧ config.maxConnections ≤ maxPermits := by
  constructor
  · intro h
    refine ⟨Nat.pos_of_ne_zero fun h0 => ?_, Nat.le_of_not_lt fun hgt => ?_⟩
    · exact absurd (h _ (leaves_of_zero hf h0)).serving (by decide)
    · exact absurd (h _ (panics_of_gt hf hgt)).serving (by decide)
  · rintro ⟨hpos, hmax⟩ s h
    exact h.invariant Serves (fun s hs => serves_of_fresh hs)
      (fun s a s' hI hok hs => hI.step hpos hmax hok hs)

/-- A plain server with the limits a new server has. -/
def defaults : Config := ⟨true, false, 1024, .fromSecs 5⟩

theorem serves_iff_defaults :
    (∀ s, (machine defaults).Reachable NoShutdown s → Serves s) ↔
      0 < 1024 ∧ 1024 ≤ maxPermits :=
  serves_iff rfl

/-- With the limit 0 the loop ends before it has accepted anything. -/
theorem unlimited_leaves :
    ¬∀ (config : Config) (s : Server), config.hasFactory = true →
      (machine config).Reachable NoShutdown s → Serves s := by
  intro h
  have hleft := h { defaults with maxConnections := 0 } _ rfl (leaves_of_zero rfl rfl)
  exact absurd hleft.serving (by decide)

/-! ### With a shutdown -/

/-- The phases in which the run task still has to take a `changed` branch before it
can leave the loop. -/
def Phase.beforeWake : Phase → Bool
  | .start => true
  | .loopHead => true
  | .permitWait => true
  | .accepting => true
  | .accepted _ => true
  | .backoff => true
  | _ => false

/-- While the channel holds `true`, the receiver of the run task has not seen it. -/
structure Unseen (s : Server) : Prop where
  behind : s.seen ≤ s.shutdown.version
  unseen : s.phase.beforeWake = true → s.shutdown.value = true → s.seen ≠ s.shutdown.version

theorem Unseen.step {s s' : Server} {a : Act} (h : Unseen s) (hs : step config s a = some s') :
    Unseen s' := by
  obtain ⟨hbehind, hunseen⟩ := h
  cases a with
  | bind ok =>
      simp only [Server.step] at hs
      split at hs
      · rename_i hphase
        rw [hphase] at hunseen
        split at hs
        · cases hs
          exact ⟨hbehind, nofun⟩
        · split at hs <;> cases hs
          · exact ⟨hbehind, nofun⟩
          · exact ⟨hbehind, hunseen⟩
      · cases hs
  | prune =>
      simp only [Server.step] at hs
      split at hs <;> cases hs
      rename_i hphase
      rw [hphase] at hunseen
      exact ⟨hbehind, hunseen⟩
  | acquire =>
      simp only [Server.step] at hs
      split at hs
      · rename_i hphase
        rw [hphase] at hunseen
        split at hs
        · cases hs
          exact ⟨hbehind, nofun⟩
        · split at hs <;> cases hs
          exact ⟨hbehind, hunseen⟩
      · cases hs
  | acceptOk stream =>
      simp only [Server.step] at hs
      split at hs <;> cases hs
      rename_i hphase
      rw [hphase] at hunseen
      exact ⟨hbehind, hunseen⟩
  | acceptErr =>
      simp only [Server.step] at hs
      split at hs <;> cases hs
      rename_i hphase
      rw [hphase] at hunseen
      exact ⟨hbehind, hunseen⟩
  | changed =>
      simp only [Server.step] at hs
      split at hs
      · split at hs <;> cases hs
        · exact ⟨Nat.le_refl _, nofun⟩
        · exact ⟨Nat.le_refl _, nofun⟩
      · cases hs
  | borrow =>
      simp only [Server.step] at hs
      split at hs
      · cases hs
        refine ⟨hbehind, fun hwait hv => ?_⟩
        change (if s.shutdown.value then Phase.draining 0 else .loopHead).beforeWake = true at hwait
        rw [show s.shutdown.value = true from hv] at hwait
        cases hwait
      · cases hs
        refine ⟨hbehind, fun hwait hv => ?_⟩
        change (if s.shutdown.value then Phase.draining 0 else .loopHead).beforeWake = true at hwait
        rw [show s.shutdown.value = true from hv] at hwait
        cases hwait
      · cases hs
  | spawn =>
      simp only [Server.step] at hs
      split at hs <;> cases hs
      rename_i stream hphase
      rw [hphase] at hunseen
      exact ⟨hbehind, hunseen⟩
  | backoffExpired =>
      simp only [Server.step] at hs
      split at hs <;> cases hs
      rename_i hphase
      rw [hphase] at hunseen
      exact ⟨hbehind, hunseen⟩
  | notify value =>
      cases hs
      exact ⟨Nat.le_succ_of_le hbehind, fun _ _ => Nat.ne_of_lt (Nat.lt_succ_of_le hbehind)⟩
  | dropSenders => cases hs; exact ⟨hbehind, hunseen⟩
  | conn i stage =>
      simp only [Server.step] at hs
      split at hs
      · split at hs <;> cases hs
        exact ⟨hbehind, hunseen⟩
      · cases hs
  | drain =>
      simp only [Server.step] at hs
      split at hs
      · split at hs
        · split at hs <;> cases hs <;> exact ⟨hbehind, nofun⟩
        · cases hs
          exact ⟨hbehind, nofun⟩
      · cases hs
  | joined =>
      simp only [Server.step] at hs
      split at hs
      · split at hs
        · split at hs <;> cases hs
          exact ⟨hbehind, nofun⟩
        · cases hs
      · cases hs
  | drainExpired =>
      simp only [Server.step] at hs
      split at hs
      · split at hs
        · split at hs <;> cases hs
          exact ⟨hbehind, nofun⟩
        · cases hs
      · cases hs
  | tick d =>
      simp only [Server.step] at hs
      split at hs <;> cases hs <;> exact ⟨hbehind, hunseen⟩

theorem unseen_of_reachable {s : Server} (h : (machine config).Reachable Machine.anyStep s) :
    Unseen s :=
  h.invariant Unseen (fun s (hf : Fresh s) => ⟨hf.2.1, fun _ => hf.2.2.1⟩)
    (fun _ _ _ hI _ hs => hI.step hs)

/-- The run task can leave the accept loop by steps of its own. -/
def CanLeave (config : Config) (s : Server) : Prop :=
  ∃ as s', (∀ a ∈ as, a.own = true) ∧ (machine config).run s as = some s' ∧
    s'.phase.inAcceptLoop = false

/-- The phases in which the run task holds no permit, or will have to give away the
one it holds, before it watches the shutdown channel again. -/
def Phase.needsPermit : Phase → Bool
  | .loopHead => true
  | .permitWait => true
  | .accepted _ => true
  | _ => false

theorem canLeave_of_step {s s' : Server} {a : Act} (ha : a.own = true)
    (hs : step config s a = some s') (h : CanLeave config s') : CanLeave config s := by
  obtain ⟨as, s'', hown, hrun, hleft⟩ := h
  refine ⟨a :: as, s'', ?_, ?_, hleft⟩
  · intro b hb
    rcases List.mem_cons.mp hb with rfl | hb
    · exact ha
    · exact hown b hb
  · rw [Machine.run_cons_of_step (machine config) hs, hrun]

/-! From each phase, the way out of the loop while the channel holds an unseen `true`. -/

section

variable {s : Server}

theorem canLeave_of_woken (hphase : s.phase = .acceptWoken ∨ s.phase = .backoffWoken)
    (hv : s.shutdown.value = true) : CanLeave config s := by
  refine ⟨[.borrow], s.dropPermit (.draining 0), by simp [Act.own], ?_, rfl⟩
  rcases hphase with hphase | hphase <;>
    simp [Machine.run, machine, Server.step, hphase, hv]

theorem canLeave_of_selecting (hphase : s.phase = .accepting ∨ s.phase = .backoff)
    (hv : s.shutdown.value = true) (hunseen : s.seen ≠ s.shutdown.version) :
    CanLeave config s := by
  have hchanged : s.shutdown.changed s.seen = true := by
    simp [Watch.changed, Ne.symm hunseen]
  rcases hphase with hphase | hphase
  · have hstep : step config s .changed =
        some { s with phase := .acceptWoken, seen := s.shutdown.version } := by
      simp only [Server.step, hchanged, if_true, hphase]
    exact canLeave_of_step rfl hstep (canLeave_of_woken (.inl rfl) hv)
  · have hstep : step config s .changed =
        some { s with phase := .backoffWoken, seen := s.shutdown.version } := by
      simp only [Server.step, hchanged, if_true, hphase]
    exact canLeave_of_step rfl hstep (canLeave_of_woken (.inr rfl) hv)

theorem canLeave_of_permitWait (hphase : s.phase = .permitWait)
    (hpermit : config.maxConnections ≠ 0 → 0 < s.permits) (hv : s.shutdown.value = true)
    (hunseen : s.seen ≠ s.shutdown.version) : CanLeave config s := by
  by_cases h0 : config.maxConnections = 0
  · refine ⟨[.acquire], { s with phase := .draining 0 }, by simp [Act.own], ?_, rfl⟩
    simp [Machine.run, machine, Server.step, hphase, h0]
  · have hstep : step config s .acquire =
        some { s with phase := .accepting, permits := s.permits - 1 } := by
      simp only [Server.step, hphase, h0, if_false, gt_iff_lt, hpermit h0, if_true]
    exact canLeave_of_step rfl hstep (canLeave_of_selecting (.inl rfl) hv hunseen)

theorem canLeave_of_loopHead (hphase : s.phase = .loopHead)
    (hpermit : config.maxConnections ≠ 0 → 0 < s.permits) (hv : s.shutdown.value = true)
    (hunseen : s.seen ≠ s.shutdown.version) : CanLeave config s := by
  have hstep : ∃ handles, step config s .prune =
      some { s with phase := .permitWait, handles := handles } := by
    simp only [Server.step, hphase]
    exact ⟨_, rfl⟩
  obtain ⟨handles, hstep⟩ := hstep
  exact canLeave_of_step rfl hstep (canLeave_of_permitWait rfl hpermit hv hunseen)

theorem canLeave_of_accepted {stream : Nat} (hphase : s.phase = .accepted stream)
    (hpermit : config.maxConnections ≠ 0 → 0 < s.permits) (hv : s.shutdown.value = true)
    (hunseen : s.seen ≠ s.shutdown.version) : CanLeave config s := by
  have hstep : ∃ s', step config s .spawn = some s' ∧ s'.phase = .loopHead ∧
      s'.permits = s.permits ∧ s'.shutdown = s.shutdown ∧ s'.seen = s.seen := by
    simp only [Server.step, hphase]
    exact ⟨_, rfl, rfl, rfl, rfl, rfl⟩
  obtain ⟨s', hstep, hphase', hpermits, hshutdown, hseen⟩ := hstep
  refine canLeave_of_step rfl hstep (canLeave_of_loopHead hphase' ?_ ?_ ?_)
  · rwa [hpermits]
  · rwa [hshutdown]
  · rwa [hshutdown, hseen]

end

/-- The run task has no way out of its own: the channel does not hold `true`, or all
permits are taken and it needs one. -/
structure Blocked (s : Server) : Prop where
  looping : s.phase.inAcceptLoop = true
  why : s.shutdown.value = false ∨ s.phase.needsPermit = true ∧ s.permits = 0

/-- The steps of the run task do not unblock it. -/
theorem Blocked.own_step {s s' : Server} {a : Act} (hpos : 0 < config.maxConnections)
    (h : Blocked s) (ha : a.own = true) (hs : step config s a = some s') : Blocked s' := by
  obtain ⟨hloop, hwhy⟩ := h
  cases a with
  | prune =>
      simp only [Server.step] at hs
      split at hs <;> cases hs
      exact ⟨rfl, hwhy.imp_right fun hp => ⟨rfl, hp.2⟩⟩
  | acquire =>
      simp only [Server.step] at hs
      split at hs
      · simp only [Nat.pos_iff_ne_zero.mp hpos, if_false] at hs
        split at hs <;> cases hs
        rename_i hfree
        exact ⟨rfl, .inl (hwhy.resolve_right fun hp => by omega)⟩
      · cases hs
  | changed =>
      simp only [Server.step] at hs
      split at hs
      · split at hs <;> cases hs
        · rename_i hphase
          rw [hphase] at hwhy
          exact ⟨rfl, .inl (hwhy.resolve_right nofun)⟩
        · rename_i hphase
          rw [hphase] at hwhy
          exact ⟨rfl, .inl (hwhy.resolve_right nofun)⟩
      · cases hs
  | borrow =>
      simp only [Server.step] at hs
      split at hs
      · rename_i hphase
        rw [hphase] at hwhy
        have hv : s.shutdown.value = false := hwhy.resolve_right nofun
        rw [hv] at hs
        cases hs
        exact ⟨rfl, .inl hv⟩
      · rename_i hphase
        rw [hphase] at hwhy
        have hv : s.shutdown.value = false := hwhy.resolve_right nofun
        rw [hv] at hs
        cases hs
        exact ⟨rfl, .inl hv⟩
      · cases hs
  | spawn =>
      simp only [Server.step] at hs
      split at hs <;> cases hs
      exact ⟨rfl, hwhy.imp_right fun hp => ⟨rfl, hp.2⟩⟩
  | backoffExpired =>
      simp only [Server.step] at hs
      split at hs <;> cases hs
      rename_i hphase
      rw [hphase] at hwhy
      exact ⟨rfl, .inl (hwhy.resolve_right nofun)⟩
  | _ => cases ha

theorem Blocked.not_canLeave {s : Server} (hpos : 0 < config.maxConnections) (h : Blocked s) :
    ¬CanLeave config s := by
  rintro ⟨as, s', hown, hrun, hleft⟩
  induction as generalizing s with
  | nil =>
      cases hrun
      rw [h.looping] at hleft
      cases hleft
  | cons a as ih =>
      rw [Machine.run_cons, Option.bind_eq_some_iff] at hrun
      obtain ⟨t, ht, hrun⟩ := hrun
      exact ih (h.own_step hpos (hown a (by simp)) ht) (fun b hb => hown b (by simp [hb])) hrun

/-- Once `true` is on the shutdown channel, the run task can leave its accept loop by
itself, except when it needs a permit and all of them are held by connection tasks. -/
theorem canLeave_iff {s : Server} (hpos : 0 < config.maxConnections)
    (h : (machine config).Reachable Machine.anyStep s) (hloop : s.phase.inAcceptLoop = true) :
    CanLeave config s ↔
      s.shutdown.value = true ∧ (s.phase.needsPermit = true → 0 < s.permits) := by
  constructor
  · intro hleave
    by_contra hno
    refine Blocked.not_canLeave hpos ⟨hloop, ?_⟩ hleave
    cases hv : s.shutdown.value with
    | false => exact .inl rfl
    | true =>
        simp only [hv, true_and, Classical.not_imp, Nat.not_lt, Nat.le_zero] at hno
        exact .inr hno
  · rintro ⟨hv, hpermit⟩
    have hunseen := (unseen_of_reachable h).unseen
    cases hphase : s.phase with
    | loopHead =>
        rw [hphase] at hpermit hunseen
        exact canLeave_of_loopHead hphase (fun _ => hpermit rfl) hv (hunseen rfl hv)
    | permitWait =>
        rw [hphase] at hpermit hunseen
        exact canLeave_of_permitWait hphase (fun _ => hpermit rfl) hv (hunseen rfl hv)
    | accepting =>
        rw [hphase] at hunseen
        exact canLeave_of_selecting (.inl hphase) hv (hunseen rfl hv)
    | acceptWoken => exact canLeave_of_woken (.inl hphase) hv
    | accepted stream =>
        rw [hphase] at hpermit hunseen
        exact canLeave_of_accepted hphase (fun _ => hpermit rfl) hv (hunseen rfl hv)
    | backoff =>
        rw [hphase] at hunseen
        exact canLeave_of_selecting (.inr hphase) hv (hunseen rfl hv)
    | backoffWoken => exact canLeave_of_woken (.inr hphase) hv
    | _ =>
        rw [hphase] at hloop
        cases hloop

/-- A TLS server with one permit. -/
def oneTls : Config := ⟨true, true, 1, .fromSecs 5⟩

/-- The only permit goes to a connection that never sends its TLS handshake; the run
task waits for a permit when the shutdown comes. -/
def stalledHandshake : List Act :=
  [.bind true, .prune, .acquire, .acceptOk 0, .spawn, .prune, .notify true]

/-- The same shutdown, sent before anybody connects. -/
def promptShutdown : List Act := [.bind true, .prune, .acquire, .notify true]

theorem canLeave_iff_promptShutdown :
    ∃ s, (machine oneTls).run start promptShutdown = some s ∧
      (CanLeave oneTls s ↔
        s.shutdown.value = true ∧ (s.phase.needsPermit = true → 0 < s.permits)) := by
  obtain ⟨s, hs, hloop⟩ := Option.map_eq_some_iff.mp
    (show ((machine oneTls).run start promptShutdown).map (·.phase.inAcceptLoop) = some true by
      decide +kernel)
  have hreach : (machine oneTls).Reachable Machine.anyStep s :=
    Machine.Reachable.run (.init fresh_start) (fun _ _ _ => trivial) hs
  exact ⟨s, hs, canLeave_iff (by decide) hreach hloop⟩

/-- A peer that stalls in the handshake keeps the server from shutting down. -/
theorem stalledHandshake_blocks :
    ¬∀ (config : Config) (s : Server), 0 < config.maxConnections →
      (machine config).Reachable Machine.anyStep s → s.phase.inAcceptLoop = true →
        s.shutdown.value = true → CanLeave config s := by
  intro h
  obtain ⟨s, hs, hproj⟩ := Option.map_eq_some_iff.mp
    (show ((machine oneTls).run start stalledHandshake).map
      (fun s => (s.phase, s.shutdown.value, s.permits, s.conns.map (·.stage))) =
        some (.permitWait, true, 0, [.handshake]) by decide +kernel)
  have hreach : (machine oneTls).Reachable Machine.anyStep s :=
    Machine.Reachable.run (.init fresh_start) (fun _ _ _ => trivial) hs
  simp only [Prod.mk.injEq] at hproj
  obtain ⟨hphase, hv, hpermits, -⟩ := hproj
  have hblocked : Blocked s := ⟨by rw [hphase]; rfl, .inr ⟨by rw [hphase]; rfl, hpermits⟩⟩
  exact hblocked.not_canLeave (by decide)
    (h oneTls s (by decide) hreach (by rw [hphase]; rfl) hv)

end Server

end Wagonet
