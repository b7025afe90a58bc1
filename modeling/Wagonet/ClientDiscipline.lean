import Wagonet.ClientUses

/-!
What the programs of a client do with the stream's lock.

The local state says what a thread knows of the cell: it has not locked it, or it
has and knows what is in it, or the exchange on what is in it has failed. Only a
thread that has locked the cell changes it or uses the stream, and none unlocks
it after a failed exchange before it has emptied it. The operations of the caller
also stop ping tasks, which they do only after they have stored a new stream, or
if they empty the cell before they end.
-/

namespace Wagonet

open Library

/-- What a thread knows of the cell of the stream. -/
inductive Hold
  | free
  | taken
  | sees (v : Option Conn)
  /-- the exchange on this connection has failed -/
  | failed (c : Conn)
  deriving DecidableEq

inductive Mode
  | plain
  /-- a new stream was stored, and no ping task was spawned since -/
  | stored
  /-- a ping task was stopped, and the cell is still to be emptied -/
  | clearing
  deriving DecidableEq

structure Local where
  hold : Hold
  mode : Mode
  /-- a connection that was made last and is not stored -/
  fresh : Option Conn
  deriving DecidableEq

namespace Local

def start : Local := ⟨.free, .plain, none⟩

/-- The cell is locked, and the exchange has not failed. -/
def canUnlock (q : Local) : Prop :=
  match q.hold with
  | .taken | .sees _ => True
  | .free | .failed _ => False

/-- No exchange has failed; only then does a thread wait. -/
def calm (q : Local) : Prop := ∀ c, q.hold ≠ .failed c

/-- After the cell was emptied. -/
def cleared (q : Local) : Local :=
  { q with hold := .sees none, mode := if q.mode = .clearing then .plain else q.mode }

/-- After a ping task was aborted. -/
def stopped (q : Local) : Local :=
  if q.mode = .stored ∨ q.hold = .sees none then q else { q with mode := .clearing }

/-- Where an operation of the caller may end, or be stopped by a timer. -/
def settled (q : Local) : Prop := q.hold = .free ∧ q.mode ≠ .clearing

/-- The rules; the operations of the caller may do more than ping tasks. -/
def discipline {σ : Type} (caller : Bool) : Discipline ClientAwaits ClientCalls Local σ where
  waits q _ a :=
    match a with
    | .lock .stream => q.hold = .free
    | .exchange c x _ => q.hold = .sees (some c) ∧ q.mode ≠ .clearing ∧ x.isPing = !caller
    | .tcpConnect => caller = true ∧ q.calm
    | _ => q.calm
  waited q a r :=
    match a, r with
    | .lock .stream, _ => { q with hold := .taken }
    | .exchange c _ _, (_, .error _) => { q with hold := .failed c }
    | .tcpConnect, .ok c => { q with fresh := some c }
    | _, _ => q
  calls q c :=
    match c with
    | .tryLock m => m ≠ .stream
    | .unlock .stream => q.canUnlock
    | .loadStream => q.hold = .taken
    | .setStream none => q.hold ≠ .free ∧ (caller = false → ∃ c, q.hold = .failed c)
    | .setStream (some c) =>
        caller = true ∧ q.canUnlock ∧ q.fresh = some c ∧ q.mode ≠ .clearing
    | .spawn => caller = true ∧ q.mode = .stored
    | .abort _ => caller = true
    | _ => True
  called q c r :=
    match c, r with
    | .unlock .stream, _ => { q with hold := .free }
    | .loadStream, v => { q with hold := .sees v }
    | .setStream none, _ => q.cleared
    | .setStream (some c), _ => ⟨.sees (some c), .stored, none⟩
    | .spawn, _ => { q with mode := .plain }
    | .abort _, _ => q.stopped
    | _, _ => q
  timed q _ := q.settled
  lapsed q := q

theorem cleared_mode (q : Local) : q.cleared.mode ≠ .clearing := by
  simp only [cleared]
  split
  · nofun
  · assumption

theorem stopped_cleared (q : Local) : q.cleared.stopped = q.cleared := if_pos (.inr rfl)

theorem stopped_hold (q : Local) : q.stopped.hold = q.hold := by
  simp only [stopped]
  split <;> rfl

theorem stopped_stopped (q : Local) : q.stopped.stopped = q.stopped := by
  simp only [stopped]
  split
  · rfl
  · exact ite_self _

theorem stopped_fresh (q : Local) : q.stopped.fresh = q.fresh := by
  simp only [stopped]
  split <;> rfl

theorem calm_of_free {q : Local} (h : q.hold = .free) : q.calm := by
  intro c
  rw [h]
  nofun

theorem calm_of_sees {q : Local} {v : Option Conn} (h : q.hold = .sees v) : q.calm := by
  intro c
  rw [h]
  nofun

theorem settled.calm {q : Local} (h : q.settled) : q.calm := calm_of_free h.1

theorem eta_free {q : Local} (h : q.hold = .free) : (⟨.free, q.mode, q.fresh⟩ : Local) = q := by
  rw [← h]

end Local

open Local

/-- Calls that have nothing to do with the cell of the stream or with ping tasks. -/
def ClientCall.neutral : ClientCall → Bool
  | .tryLock _ | .unlock _ | .loadStream | .setStream _ | .spawn | .abort _ => false
  | _ => true

/-! ### The rules for single statements -/

section

variable {σ ε β : Type} {s : σ} {q : Local} {final : Local → σ → Except ε β → Prop}
  (caller : Bool)

theorem calm_of_waits {a : ClientAwait} (h : (discipline caller).waits q s a) : q.calm := by
  intro c hc
  cases a with
  | lock m =>
      cases m with
      | stream => simp [discipline, hc] at h
      | _ => exact h c hc
  | exchange c' x buffer => simp [discipline, hc] at h
  | tcpConnect => exact h.2 c hc
  | tlsConnect c' => exact h c hc
  | sleep d => exact h c hc
  | shutdown c' => exact h c hc

theorem discipline_lock (s : σ) {m : Mutex} (hm : m ≠ .stream) (hq : q.calm) :
    (discipline caller).waits q s (.lock m) ∧
      (discipline caller : Discipline _ _ _ σ).waited q (.lock m) () = q := by
  cases m <;> first | exact absurd rfl hm | exact ⟨hq, rfl⟩

theorem discipline_unlock (q : Local) {m : Mutex} (hm : m ≠ .stream) :
    (discipline caller : Discipline _ _ _ σ).calls q (.unlock m) ∧
      (discipline caller : Discipline _ _ _ σ).called q (.unlock m) () = q := by
  cases m <;> first | exact absurd rfl hm | exact ⟨trivial, rfl⟩

theorem discipline_neutral (q : Local) {c : ClientCall} (hc : c.neutral = true) :
    (discipline caller : Discipline _ _ _ σ).calls q c ∧
      ∀ r, (discipline caller : Discipline _ _ _ σ).called q c r = q := by
  cases c <;> first | exact ⟨trivial, fun _ => rfl⟩ | exact absurd hc nofun

variable {caller}

theorem obeys_lock {m : Mutex} {f : Unit → Async ClientIO σ ε β} (hm : m ≠ .stream)
    (hq : q.calm) (h : (f () s).Obeys (discipline caller) final q) :
    ((Async.wait (A := ClientAwaits) (.lock m) >>= f) s).Obeys (discipline caller) final q := by
  obtain ⟨hw, hwq⟩ := discipline_lock caller s hm hq
  exact Async.obeys_wait_bind.mpr ⟨hw, fun _ => hwq.symm ▸ h⟩

theorem obeys_unlock {m : Mutex} {f : Unit → Async ClientIO σ ε β} (hm : m ≠ .stream)
    (h : (f () s).Obeys (discipline caller) final q) :
    ((Async.call (C := ClientCalls) (.unlock m) >>= f) s).Obeys (discipline caller) final
      q := by
  obtain ⟨hw, hq⟩ := discipline_unlock (σ := σ) caller q hm
  exact Async.obeys_call_bind.mpr ⟨hw, fun _ => hq.symm ▸ h⟩

/-- A statement under one of the other locks. -/
theorem obeys_withLock {m : Mutex} {c : ClientCall} {f : c.Reply → Async ClientIO σ ε β}
    (hm : m ≠ .stream) (hc : c.neutral = true) (hq : q.calm)
    (h : ∀ r, (f r s).Obeys (discipline caller) final q) :
    ((withLock m c >>= f) s).Obeys (discipline caller) final q := by
  obtain ⟨hcalls, hcalled⟩ := discipline_neutral (σ := σ) caller q hc
  simp only [withLock, Async.bind_assoc]
  refine obeys_lock hm hq (Async.obeys_call_bind.mpr ⟨hcalls, fun r => ?_⟩)
  rw [hcalled]
  exact obeys_unlock hm (h r)

/-- The same where a timer may run out. -/
theorem withLock_obeys {m : Mutex} {c : ClientCall}
    {final : Local → σ → Except ε c.Reply → Prop} (hm : m ≠ .stream) (hc : c.neutral = true)
    (hq : q.settled) (h : ∀ r, final q s (.ok r)) :
    (withLock m c s : Task ClientIO _ _).Obeys (discipline caller).interruptible final q := by
  obtain ⟨hw, hwq⟩ := discipline_lock caller s hm hq.calm
  obtain ⟨hu, huq⟩ := discipline_unlock (σ := σ) caller q hm
  obtain ⟨hcalls, hcalled⟩ := discipline_neutral (σ := σ) caller q hc
  refine Async.obeys_wait_bind.mpr ⟨⟨hw, hq⟩, fun _ => ?_⟩
  refine Async.obeys_call_bind.mpr ⟨hwq.symm ▸ hcalls, fun r => ?_⟩
  refine Async.obeys_call_bind.mpr ⟨?_, fun _ => ?_⟩
  · exact hwq.symm ▸ (hcalled r).symm ▸ hu
  · have hend : (discipline caller : Discipline _ _ _ σ).called
        ((discipline caller : Discipline _ _ _ σ).called
          ((discipline caller : Discipline _ _ _ σ).waited q (.lock m) ()) c r) (.unlock m) ()
        = q := by
      rw [hwq, hcalled, huq]
    exact hend.symm ▸ h r

theorem obeys_withLock_timed {m : Mutex} {c : ClientCall} {f : c.Reply → Async ClientIO σ ε β}
    (hm : m ≠ .stream) (hc : c.neutral = true) (hq : q.settled)
    (h : ∀ r, (f r s).Obeys (discipline caller).interruptible final q) :
    ((withLock m c >>= f) s).Obeys (discipline caller).interruptible final q :=
  Async.obeys_bind (withLock_obeys hm hc hq h)

/-- Looking at the cell. -/
theorem peek_obeys (hq : q.settled) :
    (withLock .stream .loadStream s : Task ClientIO _ (Except ε _)).Obeys
      (discipline caller).interruptible (fun q' s' r => q' = q ∧ s' = s ∧ ∃ v, r = .ok v)
      q := by
  refine Async.obeys_wait_bind.mpr ⟨⟨hq.1, hq⟩, fun _ => ?_⟩
  refine Async.obeys_call_bind.mpr ⟨rfl, fun v => ?_⟩
  exact Async.obeys_call_bind.mpr ⟨trivial, fun _ => ⟨eta_free hq.1, rfl, v, rfl⟩⟩

end

namespace PingState

/-- A ping task ends each iteration with nothing locked. -/
theorem pingIteration_obeys :
    (pingIteration ()).Obeys (discipline false) (fun q _ _ => q = start) start := by
  refine obeys_withLock (by decide) rfl (calm_of_free rfl) fun interval => ?_
  refine Async.obeys_wait_bind.mpr ⟨calm_of_free rfl, fun _ => ?_⟩
  refine obeys_withLock (by decide) rfl (calm_of_free rfl) fun shouldStop => ?_
  split
  · rfl
  refine obeys_withLock (by decide) rfl (calm_of_free rfl) fun elapsed => ?_
  refine obeys_withLock (by decide) rfl (calm_of_free rfl) fun currentInterval => ?_
  split
  · rfl
  refine Async.obeys_call_bind.mpr ⟨nofun, fun locked => ?_⟩
  split
  · refine Async.obeys_wait_bind.mpr ⟨rfl, fun _ => ?_⟩
    refine Async.obeys_call_bind.mpr ⟨rfl, fun v => ?_⟩
    match v with
    | none =>
        refine obeys_unlock (by decide) ?_
        refine obeys_withLock (by decide) rfl (calm_of_sees rfl) fun _ => ?_
        exact Async.obeys_call_bind.mpr ⟨trivial, fun _ => rfl⟩
    | some c =>
        refine obeys_withLock (by decide) rfl (calm_of_sees rfl) fun _ => ?_
        have hmode : Mode.plain ≠ .clearing := nofun
        refine Async.obeys_wait_bind.mpr ⟨⟨rfl, hmode, rfl⟩, fun r => ?_⟩
        match r with
        | (_, .error _) =>
            refine Async.obeys_call_bind.mpr ⟨⟨nofun, fun _ => ⟨c, rfl⟩⟩, fun _ => ?_⟩
            refine obeys_withLock (by decide) rfl (calm_of_sees rfl) fun _ => ?_
            exact Async.obeys_call_bind.mpr ⟨trivial, fun _ => obeys_unlock (by decide) rfl⟩
        | (_, .ok _) =>
            refine obeys_withLock (by decide) rfl (calm_of_sees rfl) fun _ => ?_
            exact Async.obeys_call_bind.mpr ⟨trivial, fun _ => obeys_unlock (by decide) rfl⟩
  · rfl

/-- `stop_ping_task` awaits nothing; it may abort one task. -/
theorem stopPingTask_obeys {s : ClientFields} {q : Local} :
    (stopPingTask s : Task ClientIO _ _).Obeys (discipline true).interruptible
      (fun q' _ r => r = .ok () ∧ (q' = q ∨ q' = q.stopped)) q := by
  refine (stopPingTask_obeys_of (I := fun q' => q' = q ∨ q' = q.stopped) ?_ (.inl rfl)).mono
    fun q' s' r h => ⟨h.1, h.2.2⟩
  intro q' c hq' hc
  cases c with
  | tryLock m =>
      refine ⟨?_, fun _ => hq'⟩
      rintro rfl
      cases hc
  | unlock m =>
      cases m with
      | stream => cases hc
      | _ => exact ⟨trivial, fun _ => hq'⟩
  | abort t =>
      refine ⟨rfl, fun _ => .inr ?_⟩
      change q'.stopped = q.stopped
      rcases hq' with rfl | rfl
      · rfl
      · exact q.stopped_stopped
  | _ => first | exact ⟨trivial, fun _ => hq'⟩ | cases hc

theorem isEnabled_obeys {s : ClientFields} {q : Local} (hq : q.settled) :
    (isEnabled s : Task ClientIO _ _).Obeys (discipline true).interruptible
      (fun q' s' r => q' = q ∧ s' = s ∧ ∃ b, r = .ok b) q :=
  obeys_withLock_timed (by decide) rfl hq fun _ => ⟨rfl, rfl, _, rfl⟩

/-- `start_ping_task` is only used after a new stream was stored. -/
theorem startPingTask_obeys {s : ClientFields} {q : Local} (hq : q.settled)
    (hmode : q.mode = .stored) :
    (startPingTask s : Task ClientIO _ _).Obeys (discipline true).interruptible
      (fun q' _ _ => q'.settled) q := by
  refine Async.obeys_bind ((isEnabled_obeys hq).mono ?_)
  rintro q' s r ⟨rfl, rfl, enabled, rfl⟩
  dsimp only
  split
  · refine obeys_withLock_timed (by decide) rfl hq fun _ => ?_
    refine Async.obeys_call_bind.mpr ⟨⟨rfl, hmode⟩, fun handle => ?_⟩
    exact withLock_obeys (m := .taskHandle) (c := .setHandle handle) nofun rfl ⟨hq.1, nofun⟩
      fun _ => ⟨hq.1, nofun⟩
  · exact hq

end PingState

namespace Client

variable {K : ClientKind} {s : ClientFields} {q : Local}

theorem wrapStream_obeys {c : Conn} (hq : q.settled) :
    (K.wrapStream c s).Obeys (discipline true).interruptible (fun q' _ _ => q' = q) q := by
  cases K with
  | tl => rfl
  | tls domain acceptInvalidCerts =>
      refine Async.obeys_wait_bind.mpr ⟨⟨hq.calm, hq⟩, fun r => ?_⟩
      match r with
      | .ok () => rfl
      | .error e => rfl

/-- The stream is stored, and then the ping task of the one before is stopped. -/
theorem useStream_obeys {c : Conn} (hq : q.settled) (hfresh : q.fresh = some c) :
    (useStream c s).Obeys (discipline true).interruptible (fun q' _ _ => q'.settled) q := by
  simp only [useStream, withLock, Async.bind_assoc, Async.pure_bind]
  refine Async.obeys_wait_bind.mpr ⟨⟨hq.1, hq⟩, fun _ => ?_⟩
  refine Async.obeys_call_bind.mpr ⟨⟨rfl, trivial, hfresh, hq.2⟩, fun _ => ?_⟩
  refine Async.obeys_call_bind.mpr ⟨trivial, fun _ => ?_⟩
  refine Async.obeys_bind (PingState.stopPingTask_obeys.mono fun q' s r hr => ?_)
  -- an abort is nothing to care about here
  obtain ⟨rfl, hq'⟩ := hr
  obtain rfl : q' = ⟨.free, .stored, none⟩ := hq'.elim id id
  have hstored : (⟨.free, .stored, none⟩ : Local).settled := ⟨rfl, nofun⟩
  dsimp only
  rw [Async.get_bind_apply]
  split
  · refine Async.obeys_bind ((PingState.isEnabled_obeys hstored).mono fun q' s r hr => ?_)
    obtain ⟨rfl, rfl, enabled, rfl⟩ := hr
    dsimp only
    split
    · exact PingState.startPingTask_obeys hstored rfl
    · exact hstored
  · exact hstored

theorem connectLoop_obeys {tries : Nat} (hq : q.settled) :
    (connectLoop K tries s).Obeys (discipline true).interruptible (fun q' _ _ => q'.settled) q := by
  induction tries generalizing s with
  | zero =>
      refine Async.obeys_bind ((peek_obeys hq).mono fun q' s r hr => ?_)
      obtain ⟨rfl, rfl, v, rfl⟩ := hr
      dsimp only
      split
      · exact hq
      · exact hq
  | succ tries ih =>
      have again : ∀ s, ((Async.wait (A := ClientAwaits) (.sleep connectRetryDelay) >>=
          fun _ => connectLoop K tries) s).Obeys (discipline true).interruptible
          (fun q' _ _ => q'.settled) q :=
        fun s => Async.obeys_wait_bind.mpr ⟨⟨hq.calm, hq⟩, fun _ => ih⟩
      refine Async.obeys_timeout_wait_bind ⟨⟨rfl, hq.calm⟩, hq⟩ hq (again s) fun r => ?_
      match r with
      | .error _ => exact again s
      | .ok c =>
          let made : Local := { q with fresh := some c }
          refine Async.obeys_bind ((wrapStream_obeys (q := made) hq).mono fun q' s r hq' => ?_)
          subst hq'
          match r with
          | .error _ => exact hq
          | .ok () => exact useStream_obeys hq rfl

theorem checkDomain_obeys :
    (K.checkDomain s).Obeys (discipline true) (fun q' _ _ => q' = q) q := by
  cases K with
  | tl => rfl
  | tls domain acceptInvalidCerts =>
      simp only [ClientKind.checkDomain]
      split
      · rfl
      · rfl

theorem buildConnector_obeys :
    (K.buildConnector s).Obeys (discipline true).interruptible (fun q' _ _ => q' = q) q := by
  cases K with
  | tl => rfl
  | tls domain acceptInvalidCerts =>
      have h : ∀ r : Except Nat Unit, ((match r with
          | .ok () => pure ()
          | .error e => Async.fail (.tls e) : Async ClientIO ClientFields Error Unit) s).Obeys
          (discipline true).interruptible (fun q' _ _ => q' = q) q
        | .ok () => rfl
        | .error _ => rfl
      exact Async.obeys_call_bind.mpr ⟨trivial, h⟩

theorem connect_obeys (hq : q.settled) :
    (connect K s).Obeys (discipline true) (fun q' _ _ => q'.settled) q := by
  refine Async.obeys_bind (checkDomain_obeys.mono fun q' s r hq' => ?_)
  subst hq'
  match r with
  | .error _ => exact hq
  | .ok () =>
      have inner : ((do K.buildConnector; connectLoop K defaultMaxConnectRetries) s).Obeys
          (discipline true).interruptible (fun q' _ _ => q'.settled) q' := by
        refine Async.obeys_bind (buildConnector_obeys.mono fun q' s r hq' => ?_)
        subst hq'
        match r with
        | .error _ => exact hq
        | .ok () => exact connectLoop_obeys hq
      exact Async.obeys_within inner (fun _ _ _ h => h) fun _ _ h => h

theorem ensureConnected_obeys (hq : q.settled) :
    (ensureConnected K s).Obeys (discipline true) (fun q' _ _ => q'.settled) q := by
  rw [ensureConnected, Async.get_bind_apply]
  split
  · refine Async.obeys_bind ((peek_obeys hq).of_interruptible.mono fun q' s r hr => ?_)
    obtain ⟨rfl, rfl, v, rfl⟩ := hr
    dsimp only
    split
    · exact connect_obeys hq
    · exact hq
  · exact connect_obeys hq

theorem handleMessage_obeys {command : UInt32} {requestData : List UInt8} (hq : q.settled) :
    (handleMessage K command requestData s).Obeys (discipline true) (fun q' _ _ => q'.settled)
      q := by
  refine Async.obeys_bind ((ensureConnected_obeys hq).mono fun q' s r hq' => ?_)
  match r with
  | .error _ => exact hq'
  | .ok () =>
  refine Async.obeys_wait_bind.mpr ⟨hq'.calm, fun _ => ?_⟩
  refine Async.obeys_wait_bind.mpr ⟨hq'.1, fun _ => ?_⟩
  refine Async.obeys_call_bind.mpr ⟨rfl, fun v => ?_⟩
  match v with
  | none =>
      refine Async.obeys_call_bind.mpr ⟨trivial, fun _ => ?_⟩
      exact Async.obeys_call_bind.mpr ⟨trivial, fun _ => ⟨rfl, hq'.2⟩⟩
  | some c =>
      dsimp only
      rw [Async.get_bind_apply]
      refine Async.obeys_wait_bind.mpr ⟨⟨rfl, hq'.2, rfl⟩, fun r => ?_⟩
      obtain ⟨buffer, result⟩ := r
      match result with
      | .error e =>
          refine Async.obeys_call_bind.mpr ⟨⟨nofun, nofun⟩, fun _ => ?_⟩
          refine Async.obeys_bind (PingState.stopPingTask_obeys.of_interruptible.mono
            fun q'' s r hr => ?_)
          obtain ⟨rfl, hq''⟩ := hr
          obtain rfl : q'' = Local.cleared _ := hq''.elim id (·.trans (stopped_cleared _))
          refine Async.obeys_call_bind.mpr ⟨trivial, fun _ => ?_⟩
          exact obeys_unlock (by decide) ⟨rfl, cleared_mode _⟩
      | .ok response =>
          refine obeys_withLock (by decide) rfl (calm_of_sees rfl) fun _ => ?_
          refine Async.obeys_call_bind.mpr ⟨trivial, fun _ => ?_⟩
          exact obeys_unlock (by decide) ⟨rfl, hq'.2⟩

/-- Stopping a ping task leaves the cell alone. -/
theorem stopPingTask_hold {q' : Local} (hq : q.hold = .free) (hq' : q' = q ∨ q' = q.stopped) :
    q'.hold = .free := by
  rcases hq' with rfl | rfl
  · exact hq
  · rw [stopped_hold, hq]

theorem disconnect_obeys (hq : q.settled) :
    (disconnect s).Obeys (discipline true) (fun q' _ _ => q'.settled) q := by
  refine Async.obeys_bind (PingState.stopPingTask_obeys.of_interruptible.mono fun q' s r hr => ?_)
  obtain ⟨rfl, hq'⟩ := hr
  refine Async.obeys_wait_bind.mpr ⟨stopPingTask_hold hq.1 hq', fun _ => ?_⟩
  refine Async.obeys_call_bind.mpr ⟨rfl, fun v => ?_⟩
  match v with
  | none =>
      refine Async.obeys_call_bind.mpr ⟨⟨nofun, nofun⟩, fun _ => ?_⟩
      exact ⟨trivial, fun _ => ⟨rfl, cleared_mode _⟩⟩
  | some c =>
      refine Async.obeys_wait_bind.mpr ⟨calm_of_sees rfl, fun r => ?_⟩
      match r with
      | .error e =>
          refine Async.obeys_call_bind.mpr ⟨⟨nofun, nofun⟩, fun _ => ?_⟩
          exact Async.obeys_call_bind.mpr ⟨trivial, fun _ => ⟨rfl, cleared_mode _⟩⟩
      | .ok () =>
          refine Async.obeys_call_bind.mpr ⟨⟨nofun, nofun⟩, fun _ => ?_⟩
          exact ⟨trivial, fun _ => ⟨rfl, cleared_mode _⟩⟩

/-- What `set_keep_alive` does in any case. -/
theorem enable_obeys {enabled : Bool} (hq : q.settled) :
    ((do
      Async.modify ({ · with keepAlive := enabled })
      Async.wait (A := ClientAwaits) (.lock .config)
      let config ← Async.call (C := ClientCalls) .loadConfig
      Async.call (C := ClientCalls)
        (.setConfig { config with enabled := enabled && decide (config.interval > 0) })
      Async.call (C := ClientCalls) (.unlock .config) : Async ClientIO ClientFields Error Unit)
      s).Obeys (discipline true) (fun q' _ _ => q'.settled) q := by
  rw [Async.modify_bind_apply]
  refine Async.obeys_wait_bind.mpr ⟨hq.calm, fun _ => ?_⟩
  refine Async.obeys_call_bind.mpr ⟨trivial, fun config => ?_⟩
  refine Async.obeys_call_bind.mpr ⟨trivial, fun _ => ?_⟩
  exact ⟨trivial, fun _ => hq⟩

theorem setKeepAlive_obeys {enabled : Bool} (hq : q.settled) :
    (setKeepAlive enabled s).Obeys (discipline true) (fun q' _ _ => q'.settled) q := by
  rw [setKeepAlive, Async.get_bind_apply]
  split
  · refine Async.obeys_bind (PingState.stopPingTask_obeys.of_interruptible.mono
      fun q' s r hr => ?_)
    obtain ⟨rfl, hq'⟩ := hr
    simp only [withLock, Async.bind_assoc, Async.pure_bind]
    refine Async.obeys_wait_bind.mpr ⟨stopPingTask_hold hq.1 hq', fun _ => ?_⟩
    refine Async.obeys_call_bind.mpr ⟨⟨nofun, nofun⟩, fun _ => ?_⟩
    exact Async.obeys_call_bind.mpr ⟨trivial, fun _ => enable_obeys ⟨rfl, cleared_mode _⟩⟩
  · exact enable_obeys hq

theorem setTimeoutConfig_obeys {timeoutConfig : TimeoutConfig} (hq : q.settled) :
    (setTimeoutConfig timeoutConfig s).Obeys (discipline true) (fun q' _ _ => q'.settled) q := by
  simp only [setTimeoutConfig]
  match (timeoutConfig.withPingInterval timeoutConfig.pingInterval).validate with
  | .error e => exact hq
  | .ok () =>
      rw [Async.ofExcept_ok_bind_apply, Async.get_bind_apply]
      refine Async.obeys_wait_bind.mpr ⟨hq.calm, fun _ => ?_⟩
      refine Async.obeys_call_bind.mpr ⟨trivial, fun _ => ?_⟩
      refine obeys_withLock (by decide) rfl hq.calm fun _ => ?_
      exact ⟨trivial, fun _ => hq⟩

end Client

end Wagonet
