import Wagonet.ClientOperations
import Wagonet.Library.Operations

/-!
Which operations the programs of a client perform, and what they leave alone.

Only `handle_message` begins an exchange, and only the two operations that change the
settings write the configurations. Nothing but those two and the end of an exchange
touches the fields of the client.
-/

namespace Wagonet

open Library

/-- The call writes one of the configurations of `PingState`. -/
def ClientCall.configures : ClientCall → Bool
  | .setConfig _ => true
  | .setTimeoutConfig _ => true
  | _ => false

/-- The call writes no configuration, and does not empty the cell of the stream. -/
def ClientCall.connects : ClientCall → Bool
  | .setConfig _ => false
  | .setTimeoutConfig _ => false
  | .setStream none => false
  | _ => true

/-- The call has to do with the ping task and its settings only, which it does not write. -/
def ClientCall.controls : ClientCall → Bool
  | .setConfig _ => false
  | .setTimeoutConfig _ => false
  | .setStream _ => false
  | .loadStream => false
  | _ => true

theorem ClientCall.connects_of_controls {c : ClientCall} (h : c.controls = true) :
    c.connects = true := by
  cases c <;> first | rfl | cases h

theorem ClientCall.configures_of_connects {c : ClientCall} (h : c.connects = true) :
    c.configures = false := by
  cases c <;> first | rfl | cases h

/-- The call is one of those with which ping tasks are stopped. -/
def ClientCall.stops : ClientCall → Bool
  | .tryLock m => m = .shouldStop ∨ m = .taskHandle
  | .unlock m => m = .shouldStop ∨ m = .taskHandle
  | .setShouldStop v => v
  | .takeHandle => true
  | .abort _ => true
  | _ => false

/-- What is awaited may begin an exchange for this request, and no other. -/
def ClientAwait.onlyRequest (command : UInt32) (requestData : List UInt8) : ClientAwait → Prop
  | .exchange _ x _ => ∃ answer m, x = .request command requestData answer m
  | _ => True

theorem ClientAwait.onlyRequest_of_isExchange {command : UInt32} {requestData : List UInt8}
    {a : ClientAwait} (h : a.isExchange = false) : a.onlyRequest command requestData := by
  cases a <;> trivial

/-- A program that begins no exchange, writes no configuration and empties no cell. -/
abbrev Connects {σ ε α : Type} (m : Async ClientIO σ ε α) : Prop :=
  m.Among (A := ClientAwaits) (C := ClientCalls) (fun a => a.isExchange = false)
    (fun c => c.connects = true)

/-- A program that waits for mutexes only, and leaves the cell of the stream alone. -/
abbrev Controls {σ ε α : Type} (m : Async ClientIO σ ε α) : Prop :=
  m.Among (A := ClientAwaits) (C := ClientCalls) (fun a => ∃ m, a = .lock m)
    (fun c => c.controls = true)

/-- A program that waits for nothing, and leaves the cell of the stream alone. -/
abbrev Commands {σ ε α : Type} (m : Async ClientIO σ ε α) : Prop :=
  m.Among (A := ClientAwaits) (C := ClientCalls) (fun _ => False) (fun c => c.controls = true)

theorem Commands.controls {σ ε α : Type} {m : Async ClientIO σ ε α} (h : Commands m) :
    Controls m := h.mono fun _ => TimedOp.Among.mono (fun _ => False.elim) fun _ hc => hc

theorem Controls.connects {σ ε α : Type} {m : Async ClientIO σ ε α} (h : Controls m) :
    Connects m :=
  h.mono fun _ => TimedOp.Among.mono (by rintro _ ⟨m, rfl⟩; rfl)
    fun _ => ClientCall.connects_of_controls

section

variable {Q σ ε α : Type} {D : Discipline ClientAwaits ClientCalls Q σ} {q : Q} {s : σ}
  {m : Async ClientIO σ ε α}

/-- Such a program obeys any rules that do not care about these calls. -/
theorem Commands.obeys (hm : Commands m)
    (hcall : ∀ c : ClientCall, c.controls = true → D.calls q c ∧ ∀ r, D.called q c r = q) :
    (m s).Obeys D (fun q' _ _ => q' = q) q := by
  refine Task.Obeys.of_among (I := (· = q)) (P := fun _ => True) ?_ ?_ ?_ ?_ (hm s)
    (Task.leaves_of_forall fun _ => trivial) rfl
  · exact fun _ _ _ _ _ hno => hno.elim
  · exact fun _ _ _ _ _ hno => hno.elim
  · rintro _ c rfl hc
    exact hcall c hc
  · exact fun _ _ _ hq _ => hq

/-- Where a timer may run out, it may wait for locks as well. -/
theorem Controls.obeys (hm : Controls m)
    (hlock : ∀ m s, D.waits q s (.lock m) ∧ ∀ r, D.waited q (.lock m) r = q)
    (htimed : ∀ s, D.timed q s ∧ D.lapsed q = q)
    (hcall : ∀ c : ClientCall, c.controls = true → D.calls q c ∧ ∀ r, D.called q c r = q) :
    (m s).Obeys D (fun q' _ _ => q' = q) q := by
  refine Task.Obeys.of_among (I := (· = q)) (P := fun _ => True) ?_ ?_ ?_ ?_ (hm s)
    (Task.leaves_of_forall fun _ => trivial) rfl
  · rintro _ s a rfl - ⟨m, rfl⟩
    exact hlock m s
  · rintro _ s a rfl - -
    exact htimed s
  · rintro _ c rfl hc
    exact hcall c hc
  · exact fun _ _ _ hq _ => hq

/-- Where it begins no exchange and empties no cell, a program does not matter to them. -/
theorem Connects.obeys (hm : Connects m)
    (hwait : ∀ a s, a.isExchange = false → D.waits q s a ∧ ∀ r, D.waited q a r = q)
    (htimed : ∀ s, D.timed q s ∧ D.lapsed q = q)
    (hcall : ∀ c : ClientCall, c.connects = true → D.calls q c ∧ ∀ r, D.called q c r = q) :
    (m s).Obeys D (fun q' _ _ => q' = q) q := by
  refine Task.Obeys.of_among (I := (· = q)) (P := fun _ => True) ?_ ?_ ?_ ?_ (hm s)
    (Task.leaves_of_forall fun _ => trivial) rfl
  · rintro _ s a rfl - ha
    exact hwait a s ha
  · rintro _ s a rfl - -
    exact htimed s
  · rintro _ c rfl hc
    exact hcall c hc
  · exact fun _ _ _ hq _ => hq

end

section

variable {σ ε : Type} {W : ClientAwait → Prop} {U : ClientCall → Prop} {P : σ → Prop}

theorem among_withLock {m : Mutex} {body : ClientCall} (hlock : W (.lock m)) (hbody : U body)
    (hunlock : U (.unlock m)) :
    (withLock m body : Async ClientIO σ ε _).Among (A := ClientAwaits) (C := ClientCalls) W U := by
  refine (Async.among_wait hlock).bind fun _ => (Async.among_call hbody).bind fun _ => ?_
  exact (Async.among_call hunlock).bind fun _ => Async.uses_pure _

theorem connects_wait {a : ClientAwait} (h : a.isExchange = false) :
    Connects (Async.wait (A := ClientAwaits) a : Async ClientIO σ ε _) := Async.among_wait h

theorem connects_withLock {m : Mutex} {body : ClientCall}
    (h : body.connects = true) :
    Connects (withLock m body : Async ClientIO σ ε _) := among_withLock rfl h rfl

theorem controls_call {c : ClientCall} (h : c.controls = true) :
    Controls (Async.call (C := ClientCalls) c : Async ClientIO σ ε _) := Async.among_call h

theorem commands_call {c : ClientCall} (h : c.controls = true) :
    Commands (Async.call (C := ClientCalls) c : Async ClientIO σ ε _) := Async.among_call h

theorem controls_withLock {m : Mutex} {body : ClientCall} (h : body.controls = true) :
    Controls (withLock m body : Async ClientIO σ ε _) := among_withLock ⟨m, rfl⟩ h rfl

theorem keeps_withLock {m : Mutex} {body : ClientCall} :
    (withLock m body : Async ClientIO σ ε _).Keeps P :=
  (Async.Keeps.wait _).bind fun _ => (Async.Keeps.call _).bind fun _ =>
    (Async.Keeps.call _).bind fun _ => .pure _

end

namespace PingState

variable {σ : Type} {P : σ → Prop}

theorem controls_isEnabled : Controls (isEnabled : Async ClientIO σ Error Bool) :=
  (controls_withLock rfl).bind fun _ => Async.uses_pure _

theorem keeps_isEnabled : (isEnabled : Async ClientIO σ Error Bool).Keeps P :=
  keeps_withLock.bind fun _ => .pure _

theorem controls_startPingTask : Controls (startPingTask : Async ClientIO σ Error Unit) := by
  refine controls_isEnabled.bind fun enabled => ?_
  split
  · refine (controls_withLock rfl).bind fun _ => (controls_call rfl).bind fun _ => ?_
    exact controls_withLock rfl
  · exact Async.uses_pure _

theorem keeps_startPingTask : (startPingTask : Async ClientIO σ Error Unit).Keeps P := by
  refine keeps_isEnabled.bind fun enabled => ?_
  split
  · exact keeps_withLock.bind fun _ => (Async.Keeps.call _).bind fun _ => keeps_withLock
  · exact .pure _

theorem commands_tryAbort : Commands (tryAbort : Async ClientIO σ Error Unit) := by
  refine (commands_call rfl).bind fun locked => ?_
  split
  · refine (commands_call rfl).bind fun handle => ?_
    cases handle with
    | some handle => exact (commands_call rfl).bind fun _ => commands_call rfl
    | none => exact commands_call rfl
  · exact Async.uses_pure _

theorem keeps_tryAbort : (tryAbort : Async ClientIO σ Error Unit).Keeps P := by
  refine (Async.Keeps.call _).bind fun locked => ?_
  split
  · refine (Async.Keeps.call _).bind fun handle => ?_
    match handle with
    | some handle => exact (Async.Keeps.call _).bind fun _ => Async.Keeps.call _
    | none => exact Async.Keeps.call _
  · exact .pure _

theorem commands_stopPingTask : Commands (stopPingTask : Async ClientIO σ Error Unit) := by
  refine (commands_call rfl).bind fun locked => ?_
  split
  · refine (commands_call rfl).bind fun _ => (commands_call rfl).bind fun _ => ?_
    exact commands_tryAbort
  · exact commands_tryAbort

section

variable {Q : Type} {D : Discipline ClientAwaits ClientCalls Q σ} {I : Q → Prop} {q : Q} {s : σ}

theorem tryAbort_obeys_of
    (hcall : ∀ q (c : ClientCall), I q → c.stops = true → D.calls q c ∧ ∀ r, I (D.called q c r))
    (hq : I q) :
    (tryAbort s : Task ClientIO σ (Except Error Unit)).Obeys D
      (fun q' s' r => r = .ok () ∧ s' = s ∧ I q') q := by
  obtain ⟨hlock, hlocked⟩ := hcall q (.tryLock .taskHandle) hq rfl
  refine Async.obeys_call_bind.mpr ⟨hlock, fun locked => ?_⟩
  have hq' := hlocked locked
  cases locked with
  | false => exact ⟨rfl, rfl, hq'⟩
  | true =>
      obtain ⟨htake, htaken⟩ := hcall _ .takeHandle hq' rfl
      refine Async.obeys_call_bind.mpr ⟨htake, fun handle => ?_⟩
      have hunlock (q : Q) (hq : I q) : (Async.call (C := ClientCalls) (.unlock .taskHandle) s :
          Task ClientIO σ (Except Error Unit)).Obeys D
          (fun q' s' r => r = .ok () ∧ s' = s ∧ I q') q := by
        obtain ⟨hunlock, hunlocked⟩ := hcall q (.unlock .taskHandle) hq rfl
        exact Async.obeys_call.mpr ⟨hunlock, fun r => ⟨rfl, rfl, hunlocked r⟩⟩
      cases handle with
      | none => exact hunlock _ (htaken none)
      | some t =>
          obtain ⟨habort, haborted⟩ := hcall _ (.abort t) (htaken (some t)) rfl
          exact Async.obeys_call_bind.mpr ⟨habort, fun r => hunlock _ (haborted r)⟩

/-- `stop_ping_task` returns, and keeps what its calls keep. -/
theorem stopPingTask_obeys_of
    (hcall : ∀ q (c : ClientCall), I q → c.stops = true → D.calls q c ∧ ∀ r, I (D.called q c r))
    (hq : I q) :
    (stopPingTask s : Task ClientIO σ (Except Error Unit)).Obeys D
      (fun q' s' r => r = .ok () ∧ s' = s ∧ I q') q := by
  obtain ⟨hlock, hlocked⟩ := hcall q (.tryLock .shouldStop) hq rfl
  refine Async.obeys_call_bind.mpr ⟨hlock, fun locked => ?_⟩
  have hq' := hlocked locked
  cases locked with
  | false => exact tryAbort_obeys_of hcall hq'
  | true =>
      obtain ⟨hset, hsetted⟩ := hcall _ (.setShouldStop true) hq' rfl
      refine Async.obeys_call_bind.mpr ⟨hset, fun r => ?_⟩
      obtain ⟨hunlock, hunlocked⟩ := hcall _ (.unlock .shouldStop) (hsetted r) rfl
      exact Async.obeys_call_bind.mpr ⟨hunlock, fun r => tryAbort_obeys_of hcall (hunlocked r)⟩

end

theorem keeps_stopPingTask : (stopPingTask : Async ClientIO σ Error Unit).Keeps P := by
  refine (Async.Keeps.call _).bind fun locked => ?_
  split
  · exact (Async.Keeps.call _).bind fun _ => (Async.Keeps.call _).bind fun _ => keeps_tryAbort
  · exact keeps_tryAbort

/-- A ping task writes no configuration. -/
theorem among_pingIteration :
    pingIteration.Among (A := ClientAwaits) (C := ClientCalls) (fun _ => True)
      (fun c => c.configures = false) := by
  have hlock {m : Mutex} {c : ClientCall} (hc : c.configures = false) :
      (withLock m c : Async ClientIO Unit Error _).Among (A := ClientAwaits) (C := ClientCalls)
        (fun _ => True) (fun c => c.configures = false) := among_withLock trivial hc rfl
  refine (hlock rfl).bind fun interval => ?_
  refine Async.Uses.bind (Async.among_wait trivial) fun _ => ?_
  refine (hlock rfl).bind fun shouldStop => ?_
  split
  · exact Async.uses_pure _
  refine (hlock rfl).bind fun elapsed => ?_
  refine (hlock rfl).bind fun currentInterval => ?_
  split
  · exact Async.uses_pure _
  refine Async.Uses.bind (Async.among_call rfl) fun locked => ?_
  split
  · refine Async.Uses.bind (Async.among_wait trivial) fun _ => ?_
    refine Async.Uses.bind (Async.among_call rfl) fun v => ?_
    cases v with
    | none =>
        refine Async.Uses.bind (Async.among_call rfl) fun _ => ?_
        refine (hlock rfl).bind fun _ => ?_
        exact Async.Uses.bind (Async.among_call rfl) fun _ => Async.uses_pure _
    | some c =>
        refine (hlock rfl).bind fun _ => ?_
        refine Async.Uses.bind (Async.among_wait trivial) fun r => ?_
        obtain ⟨buffer, result⟩ := r
        cases result with
        | error e =>
            refine Async.Uses.bind (Async.among_call rfl) fun _ => ?_
            refine (hlock rfl).bind fun _ => ?_
            refine Async.Uses.bind (Async.among_call rfl) fun _ => ?_
            exact Async.Uses.bind (Async.among_call rfl) fun _ => Async.uses_pure _
        | ok response =>
            refine (hlock rfl).bind fun _ => ?_
            refine Async.Uses.bind (Async.among_call rfl) fun _ => ?_
            exact Async.Uses.bind (Async.among_call rfl) fun _ => Async.uses_pure _
  · exact Async.uses_pure _

end PingState

namespace Client

variable {K : ClientKind} {P : ClientFields → Prop}

theorem connects_wrapStream {c : Conn} : Connects (K.wrapStream c) := by
  cases K with
  | tl => exact Async.uses_pure _
  | tls domain acceptInvalidCerts =>
      refine (connects_wait rfl).bind fun r => ?_
      match r with
      | .ok () => exact Async.uses_pure _
      | .error e => exact Async.uses_fail _

theorem keeps_wrapStream {c : Conn} : (K.wrapStream c).Keeps P := by
  cases K with
  | tl => exact .pure _
  | tls domain acceptInvalidCerts =>
      refine (Async.Keeps.wait _).bind fun r => ?_
      match r with
      | .ok () => exact .pure _
      | .error e => exact .fail _

theorem connects_useStream {c : Conn} : Connects (useStream c) := by
  refine (connects_withLock rfl).bind fun _ => ?_
  refine PingState.commands_stopPingTask.controls.connects.bind fun _ => ?_
  refine Async.uses_get.bind fun self => ?_
  split
  · refine PingState.controls_isEnabled.connects.bind fun enabled => ?_
    split
    · exact PingState.controls_startPingTask.connects
    · exact Async.uses_pure _
  · exact Async.uses_pure _

theorem keeps_useStream {c : Conn} : (useStream c).Keeps P := by
  refine keeps_withLock.bind fun _ => PingState.keeps_stopPingTask.bind fun _ => ?_
  refine Async.Keeps.get.bind fun self => ?_
  split
  · refine PingState.keeps_isEnabled.bind fun enabled => ?_
    split
    · exact PingState.keeps_startPingTask
    · exact .pure _
  · exact .pure _

theorem connects_connectLoop {tries : Nat} : Connects (connectLoop K tries) := by
  induction tries with
  | zero =>
      refine (connects_withLock rfl).bind fun v => ?_
      split
      · exact Async.uses_fail _
      · exact Async.uses_pure _
  | succ tries ih =>
      refine (Async.among_timeout (connects_wait (ε := Error) rfl)).bind fun r => ?_
      split
      · exact connects_wrapStream.bind fun _ => connects_useStream
      · exact (connects_wait rfl).bind fun _ => ih

theorem keeps_connectLoop {tries : Nat} : (connectLoop K tries).Keeps P := by
  induction tries with
  | zero =>
      refine keeps_withLock.bind fun v => ?_
      split
      · exact .fail _
      · exact .pure _
  | succ tries ih =>
      refine (Async.Keeps.timeout (Async.Keeps.wait _)).bind fun r => ?_
      split
      · exact keeps_wrapStream.bind fun _ => keeps_useStream
      · exact (Async.Keeps.wait _).bind fun _ => ih

theorem commands_checkDomain : Commands K.checkDomain := by
  cases K with
  | tl => exact Async.uses_pure _
  | tls domain acceptInvalidCerts =>
      simp only [ClientKind.checkDomain]
      split
      · exact Async.uses_fail _
      · exact Async.uses_pure _

theorem keeps_checkDomain : K.checkDomain.Keeps P := by
  cases K with
  | tl => exact .pure _
  | tls domain acceptInvalidCerts =>
      simp only [ClientKind.checkDomain]
      split
      · exact .fail _
      · exact .pure _

theorem commands_buildConnector : Commands K.buildConnector := by
  cases K with
  | tl => exact Async.uses_pure _
  | tls domain acceptInvalidCerts =>
      refine (commands_call rfl).bind fun r => ?_
      cases r with
      | ok u => exact Async.uses_pure _
      | error e => exact Async.uses_fail _

theorem keeps_buildConnector : K.buildConnector.Keeps P := by
  cases K with
  | tl => exact .pure _
  | tls domain acceptInvalidCerts =>
      refine (Async.Keeps.call _).bind fun r => ?_
      match r with
      | .ok () => exact .pure _
      | .error e => exact .fail _

theorem connects_connect : Connects (connect K) :=
  commands_checkDomain.controls.connects.bind fun _ => Async.among_within <|
    commands_buildConnector.controls.connects.bind fun _ => connects_connectLoop

theorem keeps_connect : (connect K).Keeps P :=
  keeps_checkDomain.bind fun _ => .within <| keeps_buildConnector.bind fun _ => keeps_connectLoop

theorem connects_ensureConnected : Connects (ensureConnected K) := by
  refine Async.uses_get.bind fun self => ?_
  split
  · refine (connects_withLock rfl).bind fun v => ?_
    split
    · exact connects_connect
    · exact Async.uses_pure _
  · exact connects_connect

theorem keeps_ensureConnected : (ensureConnected K).Keeps P := by
  refine Async.Keeps.get.bind fun self => ?_
  split
  · refine keeps_withLock.bind fun v => ?_
    split
    · exact keeps_connect
    · exact .pure _
  · exact keeps_connect

/-- `disconnect` begins no exchange and writes no configuration. -/
theorem among_disconnect :
    disconnect.Among (A := ClientAwaits) (C := ClientCalls) (fun a => a.isExchange = false)
      (fun c => c.configures = false) := by
  have hstop : (PingState.stopPingTask : Async ClientIO ClientFields Error Unit).Among
      (A := ClientAwaits) (C := ClientCalls) (fun a => a.isExchange = false)
      (fun c => c.configures = false) :=
    PingState.commands_stopPingTask.controls.connects.mono fun o =>
      TimedOp.Among.mono (fun _ h => h) fun _ => ClientCall.configures_of_connects
  refine hstop.bind fun _ => Async.Uses.bind (Async.among_wait rfl) fun _ => ?_
  refine Async.Uses.bind (Async.among_call rfl) fun v => ?_
  match v with
  | none =>
      exact Async.Uses.bind (Async.among_call rfl) fun _ => Async.among_call rfl
  | some c =>
      refine Async.Uses.bind (Async.among_wait rfl) fun r => ?_
      match r with
      | .error e =>
          refine Async.Uses.bind (Async.among_call rfl) fun _ => ?_
          exact Async.Uses.bind (Async.among_call rfl) fun _ => Async.uses_fail _
      | .ok () =>
          exact Async.Uses.bind (Async.among_call rfl) fun _ => Async.among_call rfl

theorem keeps_disconnect : disconnect.Keeps P := by
  refine PingState.keeps_stopPingTask.bind fun _ => (Async.Keeps.wait _).bind fun _ => ?_
  refine (Async.Keeps.call _).bind fun v => ?_
  match v with
  | none => exact (Async.Keeps.call _).bind fun _ => Async.Keeps.call _
  | some c =>
      refine (Async.Keeps.wait _).bind fun r => ?_
      match r with
      | .error e =>
          exact (Async.Keeps.call _).bind fun _ => (Async.Keeps.call _).bind fun _ => .fail _
      | .ok () => exact (Async.Keeps.call _).bind fun _ => Async.Keeps.call _

/-- What `handle_message` ends with, once its exchange is over. -/
theorem among_release {command : UInt32} {requestData : List UInt8}
    (result : Except Error (List UInt8)) :
    (do Async.call (C := ClientCalls) (.unlock .stream)
        Async.call (C := ClientCalls) (.unlock .inFlight)
        Async.ofExcept result : Async ClientIO ClientFields Error (List UInt8)).Among
      (A := ClientAwaits) (C := ClientCalls) (fun a => a.onlyRequest command requestData)
      (fun c => c.configures = false) := by
  refine Async.Uses.bind (Async.among_call rfl) fun _ => ?_
  exact Async.Uses.bind (Async.among_call rfl) fun _ => Async.uses_ofExcept _

/-- `handle_message` begins only exchanges for its own request, and writes no configuration. -/
theorem among_handleMessage {command : UInt32} {requestData : List UInt8} :
    (handleMessage K command requestData).Among (A := ClientAwaits) (C := ClientCalls)
      (fun a => a.onlyRequest command requestData) (fun c => c.configures = false) := by
  have weaken {α : Type} {m : Async ClientIO ClientFields Error α} (h : Connects m) :
      m.Among (A := ClientAwaits) (C := ClientCalls) (fun a => a.onlyRequest command requestData)
        (fun c => c.configures = false) :=
    h.mono fun o => TimedOp.Among.mono (fun _ => ClientAwait.onlyRequest_of_isExchange)
      fun _ => ClientCall.configures_of_connects
  refine (weaken connects_ensureConnected).bind fun _ => ?_
  refine Async.Uses.bind (Async.among_wait trivial) fun _ => ?_
  refine Async.Uses.bind (Async.among_wait trivial) fun _ => ?_
  refine Async.Uses.bind (Async.among_call rfl) fun v => ?_
  cases v with
  | none =>
      refine Async.Uses.bind (Async.among_call rfl) fun _ => ?_
      exact Async.Uses.bind (Async.among_call rfl) fun _ => Async.uses_fail _
  | some c =>
      refine Async.uses_get.bind fun self => ?_
      refine Async.Uses.bind (Async.among_wait ⟨_, _, rfl⟩) fun r => ?_
      obtain ⟨buffer, result⟩ := r
      refine (Async.uses_modify _).bind fun _ => ?_
      cases result with
      | error e =>
          refine Async.Uses.bind (Async.among_call rfl) fun _ => ?_
          refine (weaken PingState.commands_stopPingTask.controls.connects).bind fun _ => ?_
          exact among_release _
      | ok response => exact (weaken (connects_withLock rfl)).bind fun _ => among_release _

end Client

end Wagonet
