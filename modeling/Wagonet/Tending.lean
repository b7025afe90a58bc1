import Wagonet.ClientRuntime
import Wagonet.ClientUses

/-!
Where the programs of a client stop ping tasks, and where a ping task ends.

An operation of the caller stops ping tasks only after it has stored a new stream, or
if the cell of the stream is empty before it ends. It resets `should_stop` only for a
stream that has no task yet. A ping task ends only where it has found `should_stop` set
or the cell empty, or has emptied the cell itself.
-/

namespace Wagonet

open Library ClientRuntime

/-- What an operation of the caller has done to the ping task of the stored stream. -/
inductive Tending
  /-- nothing: if there is one, it goes on -/
  | calm
  /-- a new stream was stored, and no task was started for it yet -/
  | opened
  /-- the same, and `should_stop` was reset -/
  | rearmed
  /-- the cell was emptied -/
  | emptied
  /-- the task was stopped, and the cell is still to be emptied -/
  | halted

namespace Tending

/-- A ping task was told to stop, or aborted. -/
def told : Tending → Tending
  | .calm => .halted
  | .rearmed => .opened
  | q => q

theorem told_told (q : Tending) : q.told.told = q.told := by cases q <;> rfl

/-- The rules for the operations of the caller. -/
def discipline : Discipline ClientAwaits ClientCalls Tending ClientFields where
  waits _ _ _ := True
  waited q _ _ := q
  calls q c :=
    match c with
    | .setShouldStop false => q = .opened
    | .spawn => q = .rearmed
    | _ => True
  called q c _ :=
    match c with
    | .setStream none => .emptied
    | .setStream (some _) => .opened
    | .setShouldStop true => q.told
    | .setShouldStop false => .rearmed
    | .spawn => .calm
    | .abort _ => q.told
    | _ => q
  timed q _ := q ≠ .halted
  lapsed _ := .calm

/-! ### The programs -/

section

variable {K : ClientKind} {s : ClientFields} {q : Tending}

/-- A statement under a lock, where a timer may run out. -/
theorem withLock_tends {m : Mutex} {c : ClientCall} (hq : q ≠ .halted)
    (hc : discipline.calls q c) :
    (withLock m c s : Task ClientIO ClientFields (Except Error c.Reply)).Obeys
      discipline.interruptible
      (fun q' s' r => s' = s ∧ ∃ v, r = .ok v ∧ q' = discipline.called q c v) q := by
  refine Async.obeys_wait_bind.mpr ⟨⟨trivial, hq⟩, fun _ => ?_⟩
  refine Async.obeys_call_bind.mpr ⟨hc, fun v => ?_⟩
  exact Async.obeys_call_bind.mpr ⟨trivial, fun _ => ⟨rfl, v, rfl, rfl⟩⟩

theorem stopPingTask_tends :
    (PingState.stopPingTask s : Task ClientIO _ _).Obeys discipline.interruptible
      (fun q' _ r => r = .ok () ∧ (q' = q ∨ q' = q.told)) q := by
  refine (PingState.stopPingTask_obeys_of (I := fun q' => q' = q ∨ q' = q.told) ?_
    (.inl rfl)).mono fun q' s' r h => ⟨h.1, h.2.2⟩
  intro q' c hq' hc
  have htold : q'.told = q.told := by
    rcases hq' with rfl | rfl
    · rfl
    · exact q.told_told
  cases c with
  | setShouldStop v =>
      cases v with
      | true => exact ⟨trivial, fun _ => .inr htold⟩
      | false => cases hc
  | abort t => exact ⟨trivial, fun _ => .inr htold⟩
  | _ => first | exact ⟨trivial, fun _ => hq'⟩ | cases hc

/-- Where nothing is stored that has a task, no task is stopped. -/
theorem stopPingTask_keeps (hq : q.told = q) :
    (PingState.stopPingTask s : Task ClientIO _ _).Obeys discipline.interruptible
      (fun q' _ r => r = .ok () ∧ q' = q) q := by
  refine stopPingTask_tends.mono fun q' s r hq' => ?_
  rwa [hq, or_self] at hq'

theorem isEnabled_tends (hq : q ≠ .halted) :
    (PingState.isEnabled s : Task ClientIO ClientFields (Except Error Bool)).Obeys
      discipline.interruptible (fun q' _ _ => q' = q) q := by
  refine Async.obeys_bind ((withLock_tends (m := .config) (c := .loadConfig) hq trivial).mono ?_)
  rintro q' s r ⟨rfl, v, rfl, rfl⟩
  rfl

theorem calm_ne : calm ≠ halted := by simp

theorem opened_ne : opened ≠ halted := by simp

theorem emptied_ne : emptied ≠ halted := by simp

theorem startPingTask_tends :
    (PingState.startPingTask s : Task ClientIO ClientFields (Except Error Unit)).Obeys
      discipline.interruptible (fun q' _ _ => q' ≠ .halted) .opened := by
  refine Async.obeys_bind ((isEnabled_tends opened_ne).mono fun q' s r hq' => ?_)
  subst hq'
  cases r with
  | error e => exact opened_ne
  | ok enabled =>
      cases enabled with
      | false => exact opened_ne
      | true =>
          refine Async.obeys_bind ((withLock_tends (m := .shouldStop) (c := .setShouldStop false)
            opened_ne rfl).mono ?_)
          rintro q' s r ⟨rfl, v, rfl, rfl⟩
          refine Async.obeys_call_bind.mpr ⟨rfl, fun t => ?_⟩
          refine (withLock_tends (m := .taskHandle) (c := .setHandle t) calm_ne trivial).mono ?_
          rintro q' s r ⟨rfl, v, rfl, rfl⟩
          exact calm_ne

theorem useStream_tends {c : Conn} (hq : q ≠ .halted) :
    (Client.useStream c s).Obeys discipline.interruptible (fun q' _ _ => q' ≠ .halted) q := by
  refine Async.obeys_bind ((withLock_tends (m := .stream) (c := .setStream (some c)) hq
    trivial).mono ?_)
  rintro q' s r ⟨rfl, v, rfl, rfl⟩
  refine Async.obeys_bind ((stopPingTask_keeps (q := .opened) rfl).mono ?_)
  rintro q' s r ⟨rfl, rfl⟩
  dsimp only
  rw [Async.get_bind_apply]
  split
  · refine Async.obeys_bind ((isEnabled_tends opened_ne).mono fun q' s r hq' => ?_)
    subst hq'
    cases r with
    | error e => exact opened_ne
    | ok enabled =>
        cases enabled with
        | false => exact opened_ne
        | true => exact startPingTask_tends
  · exact opened_ne

theorem wrapStream_tends {c : Conn} (hq : q ≠ .halted) :
    (K.wrapStream c s).Obeys discipline.interruptible (fun q' _ _ => q' ≠ .halted) q := by
  cases K with
  | tl => exact hq
  | tls domain acceptInvalidCerts =>
      refine Async.obeys_wait_bind.mpr ⟨⟨trivial, hq⟩, fun r => ?_⟩
      cases r with
      | ok u => exact hq
      | error e => exact hq

theorem connectLoop_tends {tries : Nat} (hq : q ≠ .halted) :
    (Client.connectLoop K tries s).Obeys discipline.interruptible (fun q' _ _ => q' ≠ .halted)
      q := by
  induction tries generalizing q s with
  | zero =>
      refine Async.obeys_bind ((withLock_tends (m := .stream) (c := .loadStream) hq
        trivial).mono ?_)
      rintro q' s r ⟨rfl, v, rfl, rfl⟩
      cases v with
      | none => exact hq
      | some c => exact hq
  | succ tries ih =>
      have again : ∀ q s, q ≠ .halted → ((Async.wait (A := ClientAwaits)
          (.sleep Client.connectRetryDelay) >>= fun _ => Client.connectLoop K tries) s).Obeys
          discipline.interruptible (fun q' _ _ => q' ≠ .halted) q :=
        fun q s hq => Async.obeys_wait_bind.mpr ⟨⟨trivial, hq⟩, fun _ => ih hq⟩
      refine Async.obeys_timeout_wait_bind ⟨trivial, hq⟩ hq (again .calm s calm_ne) fun r => ?_
      cases r with
      | error e => exact again q s hq
      | ok c =>
          refine Async.obeys_bind ((wrapStream_tends hq).mono fun q' s r hq' => ?_)
          cases r with
          | error e => exact hq'
          | ok u => exact useStream_tends hq'

theorem connect_tends (hq : q ≠ .halted) :
    (Client.connect K s).Obeys discipline (fun q' _ _ => q' ≠ .halted) q := by
  have hdomain : (K.checkDomain s).Obeys discipline (fun q' _ _ => q' ≠ .halted) q := by
    cases K with
    | tl => exact hq
    | tls domain acceptInvalidCerts =>
        simp only [ClientKind.checkDomain]
        split <;> exact hq
  have hinner : ∀ (q : Tending) s, q ≠ .halted → ((do
      K.buildConnector
      Client.connectLoop K defaultMaxConnectRetries) s).Obeys
      discipline.interruptible (fun q' _ _ => q' ≠ halted) q := by
    intro q s hq
    cases K with
    | tl => exact connectLoop_tends hq
    | tls domain acceptInvalidCerts =>
        refine Async.obeys_bind (Async.obeys_call_bind.mpr ⟨trivial, fun r => ?_⟩)
        cases r with
        | ok u => exact connectLoop_tends hq
        | error e => exact hq
  refine Async.obeys_bind (hdomain.mono fun q' s r hq' => ?_)
  cases r with
  | error e => exact hq'
  | ok u => exact Async.obeys_within (hinner q' s hq') (fun _ _ _ h => h) fun _ _ _ => calm_ne

theorem ensureConnected_tends (hq : q ≠ .halted) :
    (Client.ensureConnected K s).Obeys discipline (fun q' _ _ => q' ≠ .halted) q := by
  rw [Client.ensureConnected, Async.get_bind_apply]
  split
  · refine Async.obeys_bind ((withLock_tends (m := .stream) (c := .loadStream) hq
      trivial).of_interruptible.mono ?_)
    rintro q' s r ⟨rfl, v, rfl, rfl⟩
    cases v with
    | none => exact connect_tends hq
    | some c => exact hq
  · exact connect_tends hq

theorem handleMessage_tends {command : UInt32} {data : List UInt8} (hq : q ≠ .halted) :
    (Client.handleMessage K command data s).Obeys discipline (fun q' _ _ => q' ≠ .halted) q := by
  refine Async.obeys_bind ((ensureConnected_tends hq).mono fun q s r hq => ?_)
  cases r with
  | error e => exact hq
  | ok u =>
  refine Async.obeys_wait_bind.mpr ⟨trivial, fun _ => ?_⟩
  refine Async.obeys_wait_bind.mpr ⟨trivial, fun _ => ?_⟩
  refine Async.obeys_call_bind.mpr ⟨trivial, fun v => ?_⟩
  cases v with
  | none =>
      refine Async.obeys_call_bind.mpr ⟨trivial, fun _ => ?_⟩
      exact Async.obeys_call_bind.mpr ⟨trivial, fun _ => hq⟩
  | some c =>
      dsimp only
      rw [Async.get_bind_apply]
      refine Async.obeys_wait_bind.mpr ⟨trivial, fun r => ?_⟩
      obtain ⟨buffer, result⟩ := r
      cases result with
      | error e =>
          refine Async.obeys_call_bind.mpr ⟨trivial, fun _ => ?_⟩
          refine Async.obeys_bind ((stopPingTask_keeps (q := .emptied)
            rfl).of_interruptible.mono ?_)
          rintro q' s r ⟨rfl, rfl⟩
          refine Async.obeys_call_bind.mpr ⟨trivial, fun _ => ?_⟩
          exact Async.obeys_call_bind.mpr ⟨trivial, fun _ => emptied_ne⟩
      | ok response =>
          simp only [withLock, Async.bind_assoc, Async.pure_bind]
          refine Async.obeys_wait_bind.mpr ⟨trivial, fun _ => ?_⟩
          refine Async.obeys_call_bind.mpr ⟨trivial, fun _ => ?_⟩
          refine Async.obeys_call_bind.mpr ⟨trivial, fun _ => ?_⟩
          refine Async.obeys_call_bind.mpr ⟨trivial, fun _ => ?_⟩
          exact Async.obeys_call_bind.mpr ⟨trivial, fun _ => hq⟩

/-- In any case the cell is emptied. -/
theorem disconnect_tends :
    (Client.disconnect s).Obeys discipline (fun q' _ _ => q' ≠ .halted) q := by
  refine Async.obeys_bind (stopPingTask_tends.of_interruptible.mono ?_)
  rintro q' s r ⟨rfl, -⟩
  refine Async.obeys_wait_bind.mpr ⟨trivial, fun _ => ?_⟩
  refine Async.obeys_call_bind.mpr ⟨trivial, fun v => ?_⟩
  cases v with
  | none =>
      refine Async.obeys_call_bind.mpr ⟨trivial, fun _ => ?_⟩
      exact Async.obeys_call.mpr ⟨trivial, fun _ => emptied_ne⟩
  | some c =>
      refine Async.obeys_wait_bind.mpr ⟨trivial, fun r => ?_⟩
      cases r with
      | error e =>
          refine Async.obeys_call_bind.mpr ⟨trivial, fun _ => ?_⟩
          exact Async.obeys_call_bind.mpr ⟨trivial, fun _ => emptied_ne⟩
      | ok u =>
          refine Async.obeys_call_bind.mpr ⟨trivial, fun _ => ?_⟩
          exact Async.obeys_call.mpr ⟨trivial, fun _ => emptied_ne⟩

/-- The configuration is written without a look at the tasks. -/
theorem enable_tends {enabled : Bool} (hq : q ≠ .halted) :
    ((do
      Async.modify ({ · with keepAlive := enabled })
      Async.wait (A := ClientAwaits) (.lock .config)
      let config ← Async.call (C := ClientCalls) .loadConfig
      Async.call (C := ClientCalls)
        (.setConfig { config with enabled := enabled && decide (config.interval > 0) })
      Async.call (C := ClientCalls) (.unlock .config) : Async ClientIO ClientFields Error Unit)
      s).Obeys discipline (fun q' _ _ => q' ≠ .halted) q := by
  rw [Async.modify_bind_apply]
  refine Async.obeys_wait_bind.mpr ⟨trivial, fun _ => ?_⟩
  refine Async.obeys_call_bind.mpr ⟨trivial, fun config => ?_⟩
  refine Async.obeys_call_bind.mpr ⟨trivial, fun _ => ?_⟩
  exact ⟨trivial, fun _ => hq⟩

theorem setKeepAlive_tends {enabled : Bool} (hq : q ≠ .halted) :
    (Client.setKeepAlive enabled s).Obeys discipline (fun q' _ _ => q' ≠ .halted) q := by
  rw [Client.setKeepAlive, Async.get_bind_apply]
  split
  · refine Async.obeys_bind (stopPingTask_tends.of_interruptible.mono ?_)
    rintro q' s r ⟨rfl, -⟩
    simp only [withLock, Async.bind_assoc, Async.pure_bind]
    refine Async.obeys_wait_bind.mpr ⟨trivial, fun _ => ?_⟩
    refine Async.obeys_call_bind.mpr ⟨trivial, fun _ => ?_⟩
    refine Async.obeys_call_bind.mpr ⟨trivial, fun _ => ?_⟩
    exact enable_tends emptied_ne
  · exact enable_tends hq

theorem setTimeoutConfig_tends {timeoutConfig : TimeoutConfig} (hq : q ≠ .halted) :
    (Client.setTimeoutConfig timeoutConfig s).Obeys discipline (fun q' _ _ => q' ≠ .halted)
      q := by
  simp only [Client.setTimeoutConfig]
  cases (timeoutConfig.withPingInterval timeoutConfig.pingInterval).validate with
  | error e => exact hq
  | ok u =>
      rw [Async.ofExcept_ok_bind_apply, Async.get_bind_apply]
      simp only [withLock, Async.bind_assoc, Async.pure_bind]
      refine Async.obeys_wait_bind.mpr ⟨trivial, fun _ => ?_⟩
      refine Async.obeys_call_bind.mpr ⟨trivial, fun _ => ?_⟩
      refine Async.obeys_wait_bind.mpr ⟨trivial, fun _ => ?_⟩
      refine Async.obeys_call_bind.mpr ⟨trivial, fun _ => ?_⟩
      refine Async.obeys_call_bind.mpr ⟨trivial, fun _ => ?_⟩
      rw [Async.modify_bind_apply]
      exact ⟨trivial, fun _ => hq⟩

/-- No operation ends between the two. -/
theorem program_tends {op : ClientOp} :
    (op.program K s).Obeys discipline (fun q _ _ => q ≠ .halted) .calm := by
  have hvoid {m : Async ClientIO ClientFields Error Unit}
      (h : (m s).Obeys discipline (fun q _ _ => q ≠ .halted) .calm) :
      ((m >>= fun _ => pure []) s).Obeys discipline
        (fun q _ (_ : Except Error (List UInt8)) => q ≠ .halted) .calm := by
    refine Async.obeys_bind (h.mono fun q s r hq => ?_)
    cases r with
    | ok u => exact hq
    | error e => exact hq
  cases op with
  | connect => exact hvoid (connect_tends calm_ne)
  | handleMessage command requestData => exact handleMessage_tends calm_ne
  | disconnect => exact hvoid disconnect_tends
  | setKeepAlive enabled => exact hvoid (setKeepAlive_tends calm_ne)
  | setTimeoutConfig timeoutConfig => exact hvoid (setTimeoutConfig_tends calm_ne)

end

end Tending

/-! ### The loop of a ping task -/

/-- The rules that tell whether a ping task is about to end. -/
def endingDiscipline : Discipline ClientAwaits ClientCalls Bool Unit where
  waits _ _ _ := True
  waited q _ _ := q
  calls _ _ := True
  called q c r :=
    match c, r with
    | .loadShouldStop, true => true
    | .loadStream, none => true
    | .setStream none, _ => true
    | _, _ => q
  timed _ _ := True
  lapsed q := q

namespace PingState

/-- A statement under a lock. -/
theorem ending_withLock {β : Type} {q : Bool} {m : Mutex} {c : ClientCall}
    {f : c.Reply → Async ClientIO Unit Error β} {final : Bool → Unit → Except Error β → Prop}
    (h : ∀ r, (f r ()).Obeys endingDiscipline final (endingDiscipline.called q c r)) :
    ((withLock m c >>= f) ()).Obeys endingDiscipline final q := by
  simp only [withLock, Async.bind_assoc, Async.pure_bind]
  refine Async.obeys_wait_bind.mpr ⟨trivial, fun _ => ?_⟩
  refine Async.obeys_call_bind.mpr ⟨trivial, fun r => ?_⟩
  exact Async.obeys_call_bind.mpr ⟨trivial, fun _ => h r⟩

/-- A ping task ends only if it was told to stop, or has found or left the cell empty. -/
theorem pingIteration_ending :
    (pingIteration ()).Obeys endingDiscipline (fun q _ r => r = .ok true ∨ q = true) false := by
  refine ending_withLock fun interval => ?_
  refine Async.obeys_wait_bind.mpr ⟨trivial, fun _ => ?_⟩
  refine ending_withLock fun shouldStop => ?_
  cases shouldStop with
  | true => exact .inr rfl
  | false =>
  refine ending_withLock fun elapsed => ?_
  refine ending_withLock fun currentInterval => ?_
  split
  · exact .inl rfl
  refine Async.obeys_call_bind.mpr ⟨trivial, fun locked => ?_⟩
  cases locked with
  | false => exact .inl rfl
  | true =>
  refine Async.obeys_wait_bind.mpr ⟨trivial, fun _ => ?_⟩
  refine Async.obeys_call_bind.mpr ⟨trivial, fun v => ?_⟩
  cases v with
  | none =>
      refine Async.obeys_call_bind.mpr ⟨trivial, fun _ => ?_⟩
      refine ending_withLock fun _ => ?_
      exact Async.obeys_call_bind.mpr ⟨trivial, fun _ => .inr rfl⟩
  | some c =>
      refine ending_withLock fun _ => ?_
      refine Async.obeys_wait_bind.mpr ⟨trivial, fun r => ?_⟩
      obtain ⟨buffer, result⟩ := r
      cases result with
      | error e =>
          refine Async.obeys_call_bind.mpr ⟨trivial, fun _ => ?_⟩
          refine ending_withLock fun _ => ?_
          refine Async.obeys_call_bind.mpr ⟨trivial, fun _ => ?_⟩
          exact Async.obeys_call_bind.mpr ⟨trivial, fun _ => .inr rfl⟩
      | ok response =>
          refine ending_withLock fun _ => ?_
          refine Async.obeys_call_bind.mpr ⟨trivial, fun _ => ?_⟩
          exact Async.obeys_call_bind.mpr ⟨trivial, fun _ => .inl rfl⟩

end PingState

end Wagonet
