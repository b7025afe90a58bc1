import Mathlib
import Wagonet.ClientSteps
import Wagonet.Library.LockOrder

/-!
The order in which the mutexes of a client are locked.

A thread locks a mutex only while all those it has locked come before it. So the
operations of the caller and the ping tasks never wait for each other in a circle,
whichever of them are dropped.
-/

namespace Wagonet

open Library ClientRuntime

/-- The place of a mutex in the order. -/
def Mutex.rank : Mutex → Nat
  | .inFlight => 0
  | .stream => 1
  | .config => 2
  | .shouldStop => 3
  | .lastActivity => 3
  | .timeoutConfig => 3
  | .taskHandle => 3

namespace LockOrder

/-- The mutex comes after all that are held. -/
def After (held : List Mutex) (m : Mutex) : Prop := ∀ m' ∈ held, m'.rank < m.rank

instance (held : List Mutex) (m : Mutex) : Decidable (After held m) :=
  inferInstanceAs (Decidable (∀ m' ∈ held, m'.rank < m.rank))

/-- The local state of a thread are the mutexes it holds, the last one first. -/
def discipline {σ : Type} : Discipline ClientAwaits ClientCalls (List Mutex) σ where
  waits held _ a :=
    match a with
    | .lock m => After held m
    | _ => True
  waited held a _ :=
    match a with
    | .lock m => m :: held
    | _ => held
  calls held c :=
    match c with
    | .unlock m => m ∈ held
    | _ => True
  called held c r :=
    match c, r with
    | .tryLock m, true => m :: held
    | .unlock m, _ => held.erase m
    | _, _ => held
  timed held _ := held = []
  lapsed held := held

def isLock : ClientAwait → Bool
  | .lock _ => true
  | _ => false

/-- What is called while a mutex is locked. -/
def isBody : ClientCall → Bool
  | .tryLock _ | .unlock _ => false
  | _ => true

section

variable {σ ε β : Type} {s : σ} {held : List Mutex}
  {final : List Mutex → σ → Except ε β → Prop}

theorem body_calls {c : ClientCall} (hc : isBody c = true) :
    (discipline : Discipline _ _ _ σ).calls held c := by
  cases c <;> trivial

theorem body_called {c : ClientCall} (hc : isBody c = true) (r : c.Reply) :
    (discipline : Discipline _ _ _ σ).called held c r = held := by
  cases c <;> first | rfl | cases hc

theorem obeys_lock {m : Mutex} {f : Unit → Async ClientIO σ ε β} (hm : After held m)
    (h : (f () s).Obeys discipline final (m :: held)) :
    ((Async.wait (A := ClientAwaits) (.lock m) >>= f) s).Obeys discipline final held :=
  Async.obeys_wait_bind.mpr ⟨hm, fun _ => h⟩

theorem obeys_wait {a : ClientAwait} {f : a.Reply → Async ClientIO σ ε β} (ha : isLock a = false)
    (h : ∀ r, (f r s).Obeys discipline final held) :
    ((Async.wait (A := ClientAwaits) a >>= f) s).Obeys discipline final held := by
  refine Async.obeys_wait_bind.mpr ?_
  cases a <;> first | exact ⟨trivial, h⟩ | cases ha

theorem obeys_tryLock {m : Mutex} {f : Bool → Async ClientIO σ ε β}
    (hfalse : (f false s).Obeys discipline final held)
    (htrue : (f true s).Obeys discipline final (m :: held)) :
    ((Async.call (C := ClientCalls) (.tryLock m) >>= f) s).Obeys discipline final held :=
  Async.obeys_call_bind.mpr ⟨trivial, fun
    | false => hfalse
    | true => htrue⟩

theorem obeys_unlock {m : Mutex} {f : Unit → Async ClientIO σ ε β} (hm : m ∈ held)
    (h : (f () s).Obeys discipline final (held.erase m)) :
    ((Async.call (C := ClientCalls) (.unlock m) >>= f) s).Obeys discipline final held :=
  Async.obeys_call_bind.mpr ⟨hm, fun _ => h⟩

theorem obeys_body {c : ClientCall} {f : c.Reply → Async ClientIO σ ε β} (hc : isBody c = true)
    (h : ∀ r, (f r s).Obeys discipline final held) :
    ((Async.call (C := ClientCalls) c >>= f) s).Obeys discipline final held :=
  Async.obeys_call_bind.mpr ⟨body_calls hc, fun r => (body_called hc r).symm ▸ h r⟩

theorem obeys_withLock {m : Mutex} {c : ClientCall} {f : c.Reply → Async ClientIO σ ε β}
    (hm : After held m) (hc : isBody c = true)
    (h : ∀ r, (f r s).Obeys discipline final held) :
    ((withLock m c >>= f) s).Obeys discipline final held := by
  simp only [withLock, Async.bind_assoc, Async.pure_bind]
  refine obeys_lock hm (obeys_body hc fun r => obeys_unlock (List.mem_cons_self ..) ?_)
  simpa using h r

/-- The same inside a timer, where nothing else is held. -/
theorem withLock_obeys {m : Mutex} {c : ClientCall}
    {final : List Mutex → σ → Except ε c.Reply → Prop} (hc : isBody c = true)
    (h : ∀ r, final [] s (.ok r)) :
    (withLock m c s : Task ClientIO _ _).Obeys discipline.interruptible final [] := by
  refine Async.obeys_wait_bind.mpr ⟨⟨nofun, rfl⟩, fun _ => ?_⟩
  refine Async.obeys_call_bind.mpr ⟨body_calls (σ := σ) hc, fun r => ?_⟩
  have hheld : (discipline : Discipline _ _ _ σ).called [m] c r = [m] := body_called hc r
  refine Async.obeys_call_bind.mpr ⟨?_, fun _ => ?_⟩
  · change m ∈ (discipline : Discipline _ _ _ σ).called [m] c r
    simp [hheld]
  · change final (((discipline : Discipline _ _ _ σ).called [m] c r).erase m) s (.ok r)
    simpa [hheld] using h r

theorem obeys_withLock_timed {m : Mutex} {c : ClientCall} {f : c.Reply → Async ClientIO σ ε β}
    (hc : isBody c = true) (h : ∀ r, (f r s).Obeys discipline.interruptible final []) :
    ((withLock m c >>= f) s).Obeys discipline.interruptible final [] :=
  Async.obeys_bind (withLock_obeys hc h)

end

/-- A ping task holds nothing between two iterations. -/
theorem pingIteration_obeys :
    (PingState.pingIteration ()).Obeys discipline (fun held _ _ => held = []) [] := by
  refine obeys_withLock nofun rfl fun interval => ?_
  refine obeys_wait rfl fun _ => ?_
  refine obeys_withLock nofun rfl fun shouldStop => ?_
  split
  · rfl
  refine obeys_withLock nofun rfl fun elapsed => ?_
  refine obeys_withLock nofun rfl fun currentInterval => ?_
  split
  · rfl
  refine obeys_tryLock rfl (obeys_lock (by decide) (obeys_body rfl fun v => ?_))
  match v with
  | none =>
      refine obeys_unlock (by decide) (obeys_withLock (by decide) rfl fun _ => ?_)
      exact obeys_unlock (by decide) rfl
  | some c =>
      refine obeys_withLock (by decide) rfl fun _ => ?_
      refine obeys_wait rfl fun r => ?_
      match r with
      | (_, .error _) =>
          refine obeys_body rfl fun _ => obeys_withLock (by decide) rfl fun _ => ?_
          exact obeys_unlock (by decide) (obeys_unlock (by decide) rfl)
      | (_, .ok _) =>
          refine obeys_withLock (by decide) rfl fun _ => ?_
          exact obeys_unlock (by decide) (obeys_unlock (by decide) rfl)

variable {K : ClientKind} {s : ClientFields} {held : List Mutex}

/-- `stop_ping_task` waits for no mutex, whatever is held. -/
theorem stopPingTask_obeys :
    (PingState.stopPingTask s : Task ClientIO _ _).Obeys discipline.interruptible
      (fun held' s' r => r = .ok () ∧ held' = held ∧ s' = s) held := by
  have abort : (PingState.tryAbort s : Task ClientIO _ _).Obeys discipline.interruptible
      (fun held' s' r => r = .ok () ∧ held' = held ∧ s' = s) held := by
    refine Async.obeys_call_bind.mpr ⟨trivial, fun locked => ?_⟩
    cases locked with
    | false => exact ⟨rfl, rfl, rfl⟩
    | true =>
        refine Async.obeys_call_bind.mpr ⟨trivial, fun handle => ?_⟩
        have hlast : (discipline : Discipline _ _ _ ClientFields).called
            (.taskHandle :: held) (.unlock .taskHandle) () = held := by
          simp [discipline]
        match handle with
        | some handle =>
            refine Async.obeys_call_bind.mpr ⟨trivial, fun _ => ?_⟩
            exact ⟨List.mem_cons_self .., fun _ => ⟨rfl, hlast, rfl⟩⟩
        | none => exact ⟨List.mem_cons_self .., fun _ => ⟨rfl, hlast, rfl⟩⟩
  refine Async.obeys_call_bind.mpr ⟨trivial, fun locked => ?_⟩
  cases locked with
  | false => exact abort
  | true =>
      refine Async.obeys_call_bind.mpr ⟨trivial, fun _ => ?_⟩
      refine Async.obeys_call_bind.mpr ⟨List.mem_cons_self .., fun _ => ?_⟩
      simpa [discipline, Discipline.interruptible] using abort

theorem isEnabled_obeys :
    (PingState.isEnabled s : Task ClientIO _ _).Obeys discipline.interruptible
      (fun held' _ _ => held' = []) [] :=
  obeys_withLock_timed rfl fun _ => rfl

theorem startPingTask_obeys :
    (PingState.startPingTask s : Task ClientIO _ _).Obeys discipline.interruptible
      (fun held' _ _ => held' = []) [] := by
  refine Async.obeys_bind (isEnabled_obeys.mono fun held' s r hheld => ?_)
  subst hheld
  match r with
  | .error _ => rfl
  | .ok enabled =>
      dsimp only
      split
      · refine obeys_withLock_timed rfl fun _ => ?_
        refine Async.obeys_call_bind.mpr ⟨trivial, fun handle => ?_⟩
        exact withLock_obeys (m := .taskHandle) (c := .setHandle handle) rfl fun _ => rfl
      · rfl

theorem wrapStream_obeys {c : Conn} :
    (K.wrapStream c s).Obeys discipline.interruptible (fun held' _ _ => held' = []) [] := by
  cases K with
  | tl => rfl
  | tls domain acceptInvalidCerts =>
      refine Async.obeys_wait_bind.mpr ⟨⟨trivial, rfl⟩, fun r => ?_⟩
      match r with
      | .ok () => rfl
      | .error e => rfl

theorem useStream_obeys {c : Conn} :
    (Client.useStream c s).Obeys discipline.interruptible (fun held' _ _ => held' = []) [] := by
  refine obeys_withLock_timed rfl fun _ => ?_
  refine Async.obeys_bind (stopPingTask_obeys.mono fun held' s' r hr => ?_)
  obtain ⟨rfl, rfl, rfl⟩ := hr
  dsimp only
  rw [Async.get_bind_apply]
  split
  · refine Async.obeys_bind (isEnabled_obeys.mono fun held' s r hheld => ?_)
    subst hheld
    match r with
    | .error _ => rfl
    | .ok enabled =>
        dsimp only
        split
        · exact startPingTask_obeys
        · rfl
  · rfl

theorem connectLoop_obeys {tries : Nat} :
    (Client.connectLoop K tries s).Obeys discipline.interruptible (fun held' _ _ => held' = [])
      [] := by
  induction tries generalizing s with
  | zero =>
      refine obeys_withLock_timed rfl fun v => ?_
      split
      · rfl
      · rfl
  | succ tries ih =>
      have again : ((Async.wait (A := ClientAwaits) (.sleep Client.connectRetryDelay) >>=
          fun _ => Client.connectLoop K tries) s).Obeys discipline.interruptible
          (fun held' _ _ => held' = []) [] :=
        Async.obeys_wait_bind.mpr ⟨⟨trivial, rfl⟩, fun _ => ih⟩
      refine Async.obeys_timeout_wait_bind ⟨trivial, rfl⟩ rfl again fun r => ?_
      match r with
      | .error _ => exact again
      | .ok c =>
          refine Async.obeys_bind (wrapStream_obeys.mono fun held' s r hheld => ?_)
          subst hheld
          match r with
          | .error _ => rfl
          | .ok () => exact useStream_obeys

theorem checkDomain_obeys :
    (K.checkDomain s).Obeys discipline (fun held' _ _ => held' = []) [] := by
  cases K with
  | tl => rfl
  | tls domain acceptInvalidCerts =>
      simp only [ClientKind.checkDomain]
      split
      · rfl
      · rfl

theorem buildConnector_obeys :
    (K.buildConnector s).Obeys discipline.interruptible (fun held' _ _ => held' = []) [] := by
  cases K with
  | tl => rfl
  | tls domain acceptInvalidCerts =>
      have h : ∀ r : Except Nat Unit, ((match r with
          | .ok () => pure ()
          | .error e => Async.fail (.tls e) : Async ClientIO ClientFields Error Unit) s).Obeys
          discipline.interruptible (fun held' _ _ => held' = []) []
        | .ok () => rfl
        | .error _ => rfl
      exact Async.obeys_call_bind.mpr ⟨trivial, h⟩

theorem connect_obeys :
    (Client.connect K s).Obeys discipline (fun held' _ _ => held' = []) [] := by
  refine Async.obeys_bind (checkDomain_obeys.mono fun held' s r hheld => ?_)
  subst hheld
  match r with
  | .error _ => rfl
  | .ok () =>
      have inner : ((do K.buildConnector; Client.connectLoop K defaultMaxConnectRetries) s).Obeys
          discipline.interruptible (fun held' _ _ => held' = []) [] := by
        refine Async.obeys_bind (buildConnector_obeys.mono fun held' s r hheld => ?_)
        subst hheld
        match r with
        | .error _ => rfl
        | .ok () => exact connectLoop_obeys
      exact Async.obeys_within inner (fun _ _ _ h => h) fun _ _ h => h

theorem ensureConnected_obeys :
    (Client.ensureConnected K s).Obeys discipline (fun held' _ _ => held' = []) [] := by
  rw [Client.ensureConnected, Async.get_bind_apply]
  split
  · refine obeys_withLock nofun rfl fun v => ?_
    split
    · exact connect_obeys
    · rfl
  · exact connect_obeys

theorem handleMessage_obeys {command : UInt32} {requestData : List UInt8} :
    (Client.handleMessage K command requestData s).Obeys discipline
      (fun held' _ _ => held' = []) [] := by
  refine Async.obeys_bind (ensureConnected_obeys.mono fun held' s r hheld => ?_)
  subst hheld
  match r with
  | .error _ => rfl
  | .ok () =>
  refine obeys_lock nofun (obeys_lock (by decide) (obeys_body rfl fun v => ?_))
  match v with
  | none => exact obeys_unlock (by decide) (obeys_unlock (by decide) rfl)
  | some c =>
      dsimp only
      rw [Async.get_bind_apply]
      refine obeys_wait rfl fun r => ?_
      obtain ⟨buffer, result⟩ := r
      match result with
      | .error e =>
          refine obeys_body rfl fun _ => ?_
          refine Async.obeys_bind (stopPingTask_obeys.of_interruptible.mono
            fun held' s r hr => ?_)
          obtain ⟨rfl, rfl, rfl⟩ := hr
          exact obeys_unlock (by decide) (obeys_unlock (by decide) rfl)
      | .ok response =>
          refine obeys_withLock (by decide) rfl fun _ => ?_
          exact obeys_unlock (by decide) (obeys_unlock (by decide) rfl)

theorem disconnect_obeys :
    (Client.disconnect s).Obeys discipline (fun held' _ _ => held' = []) [] := by
  refine Async.obeys_bind (stopPingTask_obeys.of_interruptible.mono fun held' s r hr => ?_)
  obtain ⟨rfl, rfl, rfl⟩ := hr
  refine obeys_lock nofun (obeys_body rfl fun v => ?_)
  match v with
  | none => exact obeys_body rfl fun _ => ⟨List.mem_cons_self .., fun _ => rfl⟩
  | some c =>
      refine obeys_wait rfl fun r => ?_
      match r with
      | .error e => exact obeys_body rfl fun _ => obeys_unlock (by decide) rfl
      | .ok () => exact obeys_body rfl fun _ => ⟨List.mem_cons_self .., fun _ => rfl⟩

/-- What `set_keep_alive` does in any case. -/
theorem enable_obeys {enabled : Bool} :
    ((do
      Async.modify ({ · with keepAlive := enabled })
      Async.wait (A := ClientAwaits) (.lock .config)
      let config ← Async.call (C := ClientCalls) .loadConfig
      Async.call (C := ClientCalls)
        (.setConfig { config with enabled := enabled && decide (config.interval > 0) })
      Async.call (C := ClientCalls) (.unlock .config) : Async ClientIO ClientFields Error Unit)
      s).Obeys discipline (fun held' _ _ => held' = []) [] := by
  rw [Async.modify_bind_apply]
  refine obeys_lock nofun (obeys_body rfl fun config => obeys_body rfl fun _ => ?_)
  exact ⟨List.mem_cons_self .., fun _ => rfl⟩

theorem setKeepAlive_obeys {enabled : Bool} :
    (Client.setKeepAlive enabled s).Obeys discipline (fun held' _ _ => held' = []) [] := by
  rw [Client.setKeepAlive, Async.get_bind_apply]
  split
  · refine Async.obeys_bind (stopPingTask_obeys.of_interruptible.mono fun held' s r hr => ?_)
    obtain ⟨rfl, rfl, rfl⟩ := hr
    exact obeys_withLock nofun rfl fun _ => enable_obeys
  · exact enable_obeys

theorem setTimeoutConfig_obeys {timeoutConfig : TimeoutConfig} :
    (Client.setTimeoutConfig timeoutConfig s).Obeys discipline (fun held' _ _ => held' = [])
      [] := by
  simp only [Client.setTimeoutConfig]
  match (timeoutConfig.withPingInterval timeoutConfig.pingInterval).validate with
  | .error e => rfl
  | .ok () =>
      rw [Async.ofExcept_ok_bind_apply, Async.get_bind_apply]
      refine obeys_lock nofun (obeys_body rfl fun _ => ?_)
      refine obeys_withLock (by decide) rfl fun _ => ?_
      exact ⟨List.mem_cons_self .., fun _ => rfl⟩

theorem program_obeys (op : ClientOp) :
    (op.program K s).Obeys discipline (fun held' _ _ => held' = []) [] := by
  have pure_after {m : Async ClientIO ClientFields Error Unit}
      (h : (m s).Obeys discipline (fun held' _ _ => held' = []) []) :
      ((do m; pure []) s : Task ClientIO _ (Except Error (List UInt8))).Obeys discipline
        (fun held' _ _ => held' = []) [] :=
    Async.obeys_bind (h.mono fun held' s r hheld => by cases r <;> exact hheld)
  cases op with
  | connect => exact pure_after connect_obeys
  | handleMessage command requestData => exact handleMessage_obeys
  | disconnect => exact pure_after disconnect_obeys
  | setKeepAlive enabled => exact pure_after setKeepAlive_obeys
  | setTimeoutConfig timeoutConfig => exact pure_after setTimeoutConfig_obeys

/-- All operations lock in the order. -/
def regime (K : ClientKind) : Regime K (List Mutex) where
  client := discipline
  ping := discipline
  start _ := []
  ends _ held _ _ := held = []
  idle := []
  program op _ := program_obeys op
  iteration := pingIteration_obeys

/-- What a mutex is held by is what a thread knows to hold. -/
structure Held (s : ClientRuntime) (loc : Agent → List Mutex) : Prop where
  known : ∀ m g, s.world.holder m = some g → m ∈ loc g
  idle : s.op = none → loc .client = []

section

variable {σ α : Type} {g : Agent} {w w' : World} {loc : Agent → List Mutex}

/-- Only the mutexes of one thread change hands. -/
theorem known_update {q : List Mutex} (h : ∀ m g, w.holder m = some g → m ∈ loc g)
    (hq : ∀ m g', w'.holder m = some g' →
      (g' = g ∧ m ∈ q) ∨ (w.holder m = some g' ∧ (m ∈ loc g → m ∈ q))) :
    ∀ m g', w'.holder m = some g' → m ∈ Function.update loc g q g' := by
  intro m g' hm
  by_cases heq : g' = g
  · subst heq
    rw [Function.update_self]
    rcases hq m g' hm with ⟨-, hmem⟩ | ⟨hold, hmem⟩
    · exact hmem
    · exact hmem (h m g' hold)
  · rw [Function.update_of_ne heq]
    rcases hq m g' hm with ⟨heq', -⟩ | ⟨hold, -⟩
    · exact absurd heq' heq
    · exact h m g' hold

theorem known_setHolder {m : Mutex} (h : ∀ m g, w.holder m = some g → m ∈ loc g) :
    ∀ m' g', (w.setHolder m (some g)).holder m' = some g' →
      m' ∈ Function.update loc g (m :: loc g) g' := by
  refine known_update h fun m' g' hm' => ?_
  by_cases heq : m' = m
  · subst heq
    simp only [World.setHolder, if_true, Option.some.injEq] at hm'
    exact .inl ⟨hm'.symm, List.mem_cons_self ..⟩
  · simp only [World.setHolder, heq, if_false] at hm'
    exact .inr ⟨hm', List.mem_cons_of_mem _⟩

theorem known_unset {m : Mutex} (h : ∀ m g, w.holder m = some g → m ∈ loc g) :
    ∀ m' g', (w.setHolder m none).holder m' = some g' →
      m' ∈ Function.update loc g ((loc g).erase m) g' := by
  refine known_update h fun m' g' hm' => ?_
  by_cases heq : m' = m
  · simp [World.setHolder, heq] at hm'
  · simp only [World.setHolder, heq, if_false] at hm'
    exact .inr ⟨hm', (List.mem_erase_of_ne heq).mpr⟩

theorem known_same (h : ∀ m g, w.holder m = some g → m ∈ loc g) (hw : w'.holder = w.holder) :
    ∀ m g', w'.holder m = some g' → m ∈ Function.update loc g (loc g) g' := by
  rw [hw, Function.update_eq_self]
  exact h

theorem known_call {c : ClientCall} {r : c.Reply} {choice : Choice}
    (h : ∀ m g, w.holder m = some g → m ∈ loc g) (hc : w.call g c choice = some (r, w')) :
    ∀ m g', w'.holder m = some g' →
      m ∈ Function.update loc g ((discipline : Discipline _ _ _ σ).called (loc g) c r) g' := by
  cases c with
  | tryLock m =>
      cases choice <;> simp only [World.call, reduceCtorEq] at hc
      split at hc
      · cases hc
        exact known_setHolder h
      · cases hc
        exact known_same h rfl
  | unlock m =>
      cases choice <;> simp only [World.call, reduceCtorEq] at hc
      cases hc
      exact known_unset h
  | setStream v =>
      cases v <;> cases choice <;> simp only [World.call, reduceCtorEq] at hc <;> cases hc <;>
        exact known_same h rfl
  | abort t =>
      cases choice <;> simp only [World.call, reduceCtorEq] at hc
      cases hc
      refine known_same h ?_
      split <;> rfl
  | _ =>
      cases choice <;> simp only [World.call, reduceCtorEq] at hc <;> cases hc <;>
        exact known_same h rfl

theorem known_wait {a : ClientAwait} {r : a.Reply} {choice : Choice}
    (h : ∀ m g, w.holder m = some g → m ∈ loc g) (ha : w.wait g a choice = some (r, w')) :
    ∀ m g', w'.holder m = some g' →
      m ∈ Function.update loc g ((discipline : Discipline _ _ _ σ).waited (loc g) a r) g' := by
  cases a with
  | lock m =>
      cases choice <;> simp only [World.wait, reduceCtorEq] at ha
      split at ha
      · cases ha
        exact known_setHolder h
      · cases ha
  | _ =>
      cases choice <;> simp only [World.wait, reduceCtorEq] at ha <;> cases ha <;>
        exact known_same h rfl

theorem known_move {th th' : Thread σ α} {q' : List Mutex} {choice : Choice}
    (h : ∀ m g, w.holder m = some g → m ∈ loc g)
    (hm : th.Moves discipline K g w (loc g) choice w' th' q') :
    ∀ m g', w'.holder m = some g' → m ∈ Function.update loc g q' g' := by
  cases hm with
  | call hcalls hcall => exact known_call h hcall
  | wait hex hwaits hwait => exact known_wait h hwait
  | elapse => exact known_same h rfl
  | begins => exact known_same h rfl
  | event => exact known_same h rfl
  | ends => exact known_same h rfl

theorem known_drop {th : Thread σ α} (h : ∀ m g, w.holder m = some g → m ∈ loc g) :
    ∀ m g', (th.drop g w).holder m = some g' → m ∈ Function.update loc g [] g' := by
  have hrelease : ∀ w₁ : World, w₁.holder = w.holder → ∀ m g',
      (w₁.release g).holder m = some g' → m ∈ Function.update loc g [] g' := by
    intro w₁ hw m g' hm
    simp only [World.release, hw] at hm
    split at hm
    · cases hm
    · rename_i hne
      have heq : g' ≠ g := fun heq => hne (heq ▸ hm)
      simpa [heq] using h m g' hm
  rw [Thread.drop]
  split
  · exact hrelease w rfl
  · exact hrelease _ rfl

end

theorem held_of_fresh {s : ClientRuntime} (h : Fresh s) : Held s fun _ => [] :=
  ⟨by simp [h.unlocked], fun _ => rfl⟩

theorem Held.step {s s' : ClientRuntime} {loc loc' : Agent → List Mutex} {a : Act}
    (h : Held s loc) (hm : (regime K).Moves s loc a s' loc') : Held s' loc' := by
  cases hm with
  | start hop =>
      refine ⟨?_, nofun⟩
      have hloc : Function.update loc .client ((regime K).start s.fields) = loc := by
        rw [show (regime K).start s.fields = loc .client from (h.idle hop).symm,
          Function.update_eq_self]
      rw [hloc]
      exact h.known
  | client hop hmove => exact ⟨known_move h.known hmove, nofun⟩
  | finish hop hcall hends => exact ⟨h.known, fun _ => hends⟩
  | cancel hop => exact ⟨known_drop h.known, fun _ => Function.update_self ..⟩
  | ping halive hparked hmove =>
      exact ⟨known_move h.known hmove, by simpa [setPing] using h.idle⟩
  | park => exact ⟨h.known, h.idle⟩
  | resume => exact ⟨h.known, h.idle⟩
  | again => exact ⟨h.known, h.idle⟩
  | ended => exact ⟨h.known, h.idle⟩
  | drop => exact ⟨known_drop h.known, by simpa [setPing] using h.idle⟩

theorem after_of_wanted {σ α : Type} {th : Thread σ α} {final : List Mutex → σ → α → Prop}
    {m : Mutex} (h : th.task.Obeys discipline final held) (hm : th.wanted = some m) :
    After held m := by
  obtain ⟨task, running⟩ := th
  cases task with
  | done s a => simp [Thread.wanted] at hm
  | await s o k =>
      cases o with
      | call c => simp [Thread.wanted] at hm
      | wait ts a =>
          cases a with
          | lock m' =>
              simp only [Thread.wanted, Option.some.injEq] at hm
              exact hm ▸ h.1
          | _ => simp [Thread.wanted] at hm

/-- In no reachable state do the operation of the caller and ping tasks wait for each
other in a circle. -/
theorem no_deadlock {s : ClientRuntime} (h : (machine K).Reachable Machine.anyStep s)
    (g : Agent) : ¬Relation.TransGen (WaitsFor s.world.holder s.wanted) g g := by
  obtain ⟨loc, hobeyed, hheld⟩ := (regime K).invariant Held (fun s hs => held_of_fresh hs)
    (fun s loc a s' loc' _ hI _ hm => hI.step hm) h
  refine WaitsFor.acyclic Mutex.rank (fun g m m' hwanted hholder => ?_) g
  have hafter : After (loc g) m := by
    cases g with
    | client =>
        obtain ⟨th, hop, hth⟩ := Option.bind_eq_some_iff.mp hwanted
        obtain ⟨-, op, -, hobeys⟩ := hobeyed.client th hop
        exact after_of_wanted hobeys hth
    | ping t =>
        simp only [wanted, Option.ite_none_right_eq_some] at hwanted
        obtain ⟨halive, hth⟩ := hwanted
        exact after_of_wanted (hobeyed.ping t halive.2).2 hth
  exact hafter m' (hheld.known m' g hholder)

/-- A call that comes while a ping is about to be sent waits for the ping task. -/
theorem no_deadlock_callInPing :
    ∃ s, (machine .tl).run new (connecting ++ pinging ++ [.start (.handleMessage 1 [])]) = some s ∧
      s.wanted .client = some .stream ∧ s.world.holder .stream = some (.ping 0) ∧
        ∀ g, ¬Relation.TransGen (WaitsFor s.world.holder s.wanted) g g := by
  obtain ⟨s, hs, hproj⟩ := Option.map_eq_some_iff.mp
    (show ((machine .tl).run new (connecting ++ pinging ++ [.start (.handleMessage 1 [])])).map
      (fun s => (s.wanted .client, s.world.holder .stream)) =
        some (some .stream, some (.ping 0)) by decide +kernel)
  simp only [Prod.mk.injEq] at hproj
  have hreach : (machine .tl).Reachable Machine.anyStep s :=
    Machine.Reachable.run (.init fresh_new) (fun _ _ _ => trivial) hs
  exact ⟨s, hs, hproj.1, hproj.2, no_deadlock hreach⟩

end LockOrder

end Wagonet
