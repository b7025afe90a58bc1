import Wagonet.ClientSteps

/-!
What the programs of a client do with its ping tasks.

The local state of an operation says what it knows of the tasks: whether the handle of
the task that runs is in `task_handle`, what it has read of the configuration, whether
it has told the tasks to stop. A task is spawned only for a client that keeps its
connection alive, with pings enabled, after the one before was stopped and the flag
was reset. A ping task sets the flag only while it holds the stream's lock and the cell
is empty.
-/

namespace Wagonet

open Library ClientRuntime

/-- Where the handle of the ping task is that neither has ended nor was aborted, if there
is one. -/
inductive Handle
  /-- in `task_handle` -/
  | kept
  /-- there is no such task -/
  | gone
  /-- it was taken out of `task_handle` -/
  | taken (t : Nat)
  /-- the task was spawned, and its handle is not stored yet -/
  | spawned (t : Nat)
  /-- somebody else has locked `task_handle` -/
  | lost
  deriving DecidableEq

namespace Handle

def take : Handle → Option Nat → Handle
  | .kept, some t => .taken t
  | .kept, none => .gone
  | h, _ => h

def abort : Handle → Handle
  | .taken _ => .gone
  | h => h

def spawn : Handle → Nat → Handle
  | .gone, t => .spawned t
  | h, _ => h

def store : Handle → Handle
  | .spawned _ => .kept
  | h => h

/-- A timer has run out. -/
def lapse : Handle → Handle
  | .spawned _ => .lost
  | h => h

/-- No handle is on its way. -/
def Still (h : Handle) : Prop := h = .kept ∨ h = .gone ∨ h = .lost

def Stopped (h : Handle) : Prop := h = .gone ∨ h = .lost

theorem Stopped.still {h : Handle} (hh : h.Stopped) : h.Still := .inr hh

end Handle

/-- What a thread knows of the ping tasks. -/
structure Control where
  /-- `keep_alive` when the operation was begun -/
  keepAlive : Bool
  handle : Handle
  /-- it has locked `task_handle` -/
  hasHandle : Bool
  /-- it has locked the stream -/
  hasStream : Bool
  /-- the cell of the stream is empty -/
  emptied : Bool
  /-- the configuration that was read or written last was enabled -/
  enabled : Bool
  /-- it was enabled just if its interval is not zero -/
  exact : Bool
  /-- `should_stop` was reset, and nothing was told to stop since -/
  rearmed : Bool
  /-- if pings are enabled then there is a ping task for the stored stream -/
  covered : Bool
  /-- the exchange has failed -/
  failed : Bool
  deriving DecidableEq

namespace Control

/-- An operation of a client with these fields begins. -/
def start (fields : ClientFields) : Control where
  keepAlive := fields.keepAlive
  handle := if fields.keepAlive then .kept else .gone
  hasHandle := false
  hasStream := false
  emptied := false
  enabled := false
  exact := fields.keepAlive
  rearmed := false
  covered := fields.keepAlive
  failed := false

/-- Between two iterations of a ping task. -/
def idle : Control := ⟨false, .gone, false, false, false, false, false, false, false, false⟩

/-- Something that stops a ping task was done; where the cell is empty that does no harm. -/
def told (q : Control) : Control := { q with covered := q.emptied }

/-- Where an operation of the caller may end. -/
structure Settled (q : Control) (fields : ClientFields) : Prop where
  keepAlive : fields.keepAlive = q.keepAlive
  still : q.handle.Still
  noHandle : q.hasHandle = false
  noStream : q.hasStream = false
  stopped : q.keepAlive = false → q.handle.Stopped
  covered : q.keepAlive = true → q.covered = true ∧ q.exact = true

/-- A timer has run out. -/
def lapse (q : Control) : Control :=
  { q with handle := q.handle.lapse, covered := q.covered || q.keepAlive }

/-- The rules for the operations of the caller. -/
def discipline : Discipline ClientAwaits ClientCalls Control ClientFields where
  waits q _ a :=
    q.hasHandle = false ∧ (a = .lock .taskHandle ∨ q.handle.Still) ∧
      (a = .lock .stream → q.hasStream = false)
  waited q a r :=
    match a, r with
    | .lock .stream, _ => { q with hasStream := true }
    | .lock .taskHandle, _ => { q with hasHandle := true }
    | .exchange _ _ _, (_, .error _) => { q with failed := true }
    | .exchange _ _ _, (_, .ok _) => { q with failed := false }
    | _, _ => q
  calls q c :=
    match c with
    | .tryLock m => m = .shouldStop ∨ (m = .taskHandle ∧ q.hasHandle = false)
    | .unlock .stream => q.hasStream = true
    | .unlock .taskHandle => q.hasHandle = true ∧ q.handle.Still
    | .setStream (some _) => q.hasStream = true
    | .takeHandle => q.hasHandle = true ∧ q.handle.Still
    | .setHandle t => q.hasHandle = true ∧ (q.handle = .spawned t ∨ q.handle = .lost)
    | .abort t => q.handle = .taken t ∨ q.handle.Stopped
    | .spawn =>
        q.keepAlive = true ∧ q.enabled = true ∧ q.rearmed = true ∧ q.handle.Stopped
    | _ => True
  called q c r :=
    match c, r with
    | .tryLock .taskHandle, true => { q with hasHandle := true }
    | .tryLock .taskHandle, false => { q with handle := .lost }
    | .unlock .stream, _ => { q with hasStream := false }
    | .unlock .taskHandle, _ => { q with hasHandle := false }
    | .setStream none, _ => { q with emptied := true, covered := true }
    | .setStream (some _), _ =>
        { q with emptied := false, covered := false, rearmed := false }
    | .setShouldStop true, _ => { q.told with rearmed := false }
    | .setShouldStop false, _ => { q with rearmed := true }
    | .loadConfig, v => { q with enabled := v.enabled, covered := q.covered || !v.enabled }
    | .setConfig v, _ =>
        { q with
          enabled := v.enabled
          exact := v.enabled == decide (v.interval > 0)
          covered := true }
    | .takeHandle, h => { q with handle := q.handle.take h }
    | .setHandle _, _ => { q with handle := q.handle.store }
    | .spawn, t => { q with handle := q.handle.spawn t, covered := true }
    | .abort _, _ => { q.told with handle := q.handle.abort }
    | _, _ => q
  timed q s := q.lapse.Settled s ∧ q.failed = false
  lapsed q := q.lapse

theorem called_enabled {q : Control} {c : ClientCall} {r : c.Reply} (hload : c ≠ .loadConfig)
    (hset : ∀ v, c ≠ .setConfig v) : (discipline.called q c r).enabled = q.enabled := by
  cases c with
  | tryLock m => cases m <;> cases r <;> rfl
  | unlock m => cases m <;> rfl
  | setStream v => cases v <;> rfl
  | setShouldStop v => cases v <;> rfl
  | loadConfig => exact absurd rfl hload
  | setConfig v => exact absurd rfl (hset v)
  | _ => rfl

theorem waited_enabled {q : Control} {a : ClientAwait} {r : a.Reply} :
    (discipline.waited q a r).enabled = q.enabled := by
  cases a with
  | lock m => cases m <;> rfl
  | exchange c x buffer =>
      match r with
      | (_, .ok _) => rfl
      | (_, .error _) => rfl
  | _ => rfl

/-- The rules for ping tasks. -/
def pingDiscipline : Discipline ClientAwaits ClientCalls Control Unit where
  waits q _ a := a ≠ .lock .taskHandle ∧ (a = .lock .stream → q.hasStream = false)
  waited q a _ :=
    match a with
    | .lock .stream => { q with hasStream := true }
    | _ => q
  calls q c :=
    match c with
    | .tryLock m => m = .inFlight
    | .unlock m => m ≠ .taskHandle ∧ (m = .stream → q.hasStream = true)
    | .loadStream => q.hasStream = true
    | .setStream v => v = none ∧ q.hasStream = true
    | .setShouldStop _ => q.hasStream = true ∧ q.emptied = true
    | .setConfig _ | .takeHandle | .setHandle _ | .spawn | .abort _ => False
    | _ => True
  called q c r :=
    match c, r with
    | .unlock .stream, _ => { q with hasStream := false, emptied := false }
    | .loadStream, v => { q with emptied := v.isNone }
    | .setStream _, _ => { q with emptied := true }
    | _, _ => q
  timed _ _ := True
  lapsed q := q

theorem settled_start (fields : ClientFields) : (start fields).Settled fields := by
  refine ⟨rfl, ?_, rfl, rfl, fun h => ?_, fun h => ⟨h, h⟩⟩
  · simp only [start]
    split
    · exact .inl rfl
    · exact .inr (.inl rfl)
  · simp only [start] at h ⊢
    exact .inl (by simp [h])

end Control

open Control

/-! ### Ping tasks -/

namespace PingState

/-- A statement of a ping task under one of the other locks. -/
theorem obeys_withLock {β : Type} {q : Control} {m : Mutex} {c : ClientCall}
    {f : c.Reply → Async ClientIO Unit Error β} {final : Control → Unit → Except Error β → Prop}
    (hm : m ≠ .stream ∧ m ≠ .taskHandle)
    (hc : pingDiscipline.calls q c ∧ ∀ r, pingDiscipline.called q c r = q)
    (h : ∀ r, (f r ()).Obeys pingDiscipline final q) :
    ((withLock m c >>= f) ()).Obeys pingDiscipline final q := by
  have hlock : pingDiscipline.waited q (.lock m) () = q := by
    cases m <;> first | rfl | exact absurd rfl hm.1
  have hunlock : pingDiscipline.called q (.unlock m) () = q := by
    cases m <;> first | rfl | exact absurd rfl hm.1
  simp only [withLock, Async.bind_assoc, Async.pure_bind]
  refine Async.obeys_wait_bind.mpr ⟨⟨by simpa using hm.2, fun heq => ?_⟩, fun _ => ?_⟩
  · exact absurd (ClientAwait.lock.inj heq) hm.1
  rw [hlock]
  refine Async.obeys_call_bind.mpr ⟨hc.1, fun r => ?_⟩
  rw [hc.2 r]
  refine Async.obeys_call_bind.mpr ⟨⟨hm.2, fun heq => absurd heq hm.1⟩, fun _ => ?_⟩
  rw [hunlock]
  exact h r

/-- A ping task tells the tasks to stop only where it has found or left the cell empty. -/
theorem pingIteration_control :
    (pingIteration ()).Obeys pingDiscipline (fun q _ _ => q = idle) idle := by
  refine obeys_withLock (by decide) ⟨trivial, fun _ => rfl⟩ fun interval => ?_
  refine Async.obeys_wait_bind.mpr ⟨⟨nofun, nofun⟩, fun _ => ?_⟩
  refine obeys_withLock (by decide) ⟨trivial, fun _ => rfl⟩ fun shouldStop => ?_
  split
  · rfl
  refine obeys_withLock (by decide) ⟨trivial, fun _ => rfl⟩ fun elapsed => ?_
  refine obeys_withLock (by decide) ⟨trivial, fun _ => rfl⟩ fun currentInterval => ?_
  split
  · rfl
  refine Async.obeys_call_bind.mpr ⟨rfl, fun locked => ?_⟩
  split
  · refine Async.obeys_wait_bind.mpr ⟨⟨nofun, fun _ => rfl⟩, fun _ => ?_⟩
    refine Async.obeys_call_bind.mpr ⟨rfl, fun v => ?_⟩
    match v with
    | none =>
        refine Async.obeys_call_bind.mpr ⟨⟨nofun, nofun⟩, fun _ => ?_⟩
        refine obeys_withLock (by decide) ⟨⟨rfl, rfl⟩, fun _ => rfl⟩ fun _ => ?_
        exact Async.obeys_call_bind.mpr ⟨⟨nofun, fun _ => rfl⟩, fun _ => rfl⟩
    | some c =>
        refine obeys_withLock (by decide) ⟨trivial, fun _ => rfl⟩ fun _ => ?_
        refine Async.obeys_wait_bind.mpr ⟨⟨nofun, nofun⟩, fun r => ?_⟩
        match r with
        | (_, .error _) =>
            refine Async.obeys_call_bind.mpr ⟨⟨rfl, rfl⟩, fun _ => ?_⟩
            refine obeys_withLock (by decide) ⟨⟨rfl, rfl⟩, fun _ => rfl⟩ fun _ => ?_
            refine Async.obeys_call_bind.mpr ⟨⟨nofun, fun _ => rfl⟩, fun _ => ?_⟩
            exact Async.obeys_call_bind.mpr ⟨⟨nofun, nofun⟩, fun _ => rfl⟩
        | (_, .ok _) =>
            refine obeys_withLock (by decide) ⟨trivial, fun _ => rfl⟩ fun _ => ?_
            refine Async.obeys_call_bind.mpr ⟨⟨nofun, fun _ => rfl⟩, fun _ => ?_⟩
            exact Async.obeys_call_bind.mpr ⟨⟨nofun, nofun⟩, fun _ => rfl⟩
  · rfl

end PingState

/-! ### Operations of the caller -/

/-- What is left after a ping task was stopped. -/
structure Control.Halted (q q' : Control) : Prop where
  keepAlive : q'.keepAlive = q.keepAlive
  stopped : q'.handle.Stopped
  noHandle : q'.hasHandle = false
  hasStream : q'.hasStream = q.hasStream
  emptied : q'.emptied = q.emptied
  exact : q'.exact = q.exact
  failed : q'.failed = q.failed
  covered : q.emptied = true → q.covered = true → q'.covered = true

section

variable {K : ClientKind} {s : ClientFields} {q : Control}

/-- A statement under a lock that is not the stream's nor that of the handle. -/
theorem withLock_control {m : Mutex} {c : ClientCall} (hm : m ≠ .stream ∧ m ≠ .taskHandle)
    (ht : Control.discipline.timed q s) (hstill : q.handle.Still)
    (hc : Control.discipline.calls q c) :
    (withLock m c s : Task ClientIO ClientFields (Except Error c.Reply)).Obeys
      Control.discipline.interruptible
      (fun q' s' r => s' = s ∧ ∃ v, r = .ok v ∧ q' = Control.discipline.called q c v) q := by
  have hlock : Control.discipline.interruptible.waited q (.lock m) () = q := by
    cases m <;> first | rfl | exact absurd rfl hm.1 | exact absurd rfl hm.2
  have hunlock : ∀ q : Control, Control.discipline.calls q (.unlock m) ∧
      Control.discipline.called q (.unlock m) () = q := by
    intro q
    cases m <;> first | exact ⟨trivial, rfl⟩ | exact absurd rfl hm.1 | exact absurd rfl hm.2
  refine Async.obeys_wait_bind.mpr ⟨⟨⟨ht.1.noHandle, .inr hstill, fun heq => ?_⟩, ht⟩, fun _ => ?_⟩
  · exact absurd (ClientAwait.lock.inj heq) hm.1
  rw [hlock]
  refine Async.obeys_call_bind.mpr ⟨hc, fun r => ?_⟩
  exact Async.obeys_call_bind.mpr ⟨(hunlock _).1, fun _ => ⟨rfl, r, rfl, (hunlock _).2⟩⟩

namespace PingState

theorem tryAbort_control (hstill : q.handle.Still) (hlock : q.hasHandle = false) :
    (tryAbort s : Task ClientIO _ _).Obeys Control.discipline.interruptible
      (fun q' s' r => r = .ok () ∧ s' = s ∧ q.Halted q') q := by
  refine Async.obeys_call_bind.mpr ⟨.inr ⟨rfl, hlock⟩, fun locked => ?_⟩
  cases locked with
  | false =>
      exact ⟨rfl, rfl, rfl, .inr rfl, hlock, rfl, rfl, rfl, rfl, fun _ h => h⟩
  | true =>
      refine Async.obeys_call_bind.mpr ⟨⟨rfl, hstill⟩, fun handle => ?_⟩
      match handle with
      | some handle =>
          have htaken : q.handle.take (some handle) = .taken handle ∨
              (q.handle.take (some handle)).Stopped := by
            rcases hstill with h | h | h <;> rw [h]
            · exact .inl rfl
            · exact .inr (.inl rfl)
            · exact .inr (.inr rfl)
          have habort : (q.handle.take (some handle)).abort.Stopped := by
            rcases hstill with h | h | h <;> rw [h]
            · exact .inl rfl
            · exact .inl rfl
            · exact .inr rfl
          refine Async.obeys_call_bind.mpr ⟨htaken, fun _ => ?_⟩
          exact ⟨⟨rfl, habort.still⟩, fun _ => ⟨rfl, rfl, rfl, habort, rfl, rfl, rfl, rfl, rfl,
            fun he _ => he⟩⟩
      | none =>
          have hgone : (q.handle.take none).Stopped := by
            rcases hstill with h | h | h <;> rw [h]
            · exact .inl rfl
            · exact .inl rfl
            · exact .inr rfl
          exact ⟨⟨rfl, hgone.still⟩, fun _ => ⟨rfl, rfl, rfl, hgone, rfl, rfl, rfl, rfl, rfl,
            fun _ h => h⟩⟩

/-- After `stop_ping_task` there is no ping task that goes on. -/
theorem stopPingTask_control (hstill : q.handle.Still) (hlock : q.hasHandle = false) :
    (stopPingTask s : Task ClientIO _ _).Obeys Control.discipline.interruptible
      (fun q' s' r => r = .ok () ∧ s' = s ∧ q.Halted q') q := by
  refine Async.obeys_call_bind.mpr ⟨.inl rfl, fun locked => ?_⟩
  split
  · refine Async.obeys_call_bind.mpr ⟨trivial, fun _ => ?_⟩
    refine Async.obeys_call_bind.mpr ⟨trivial, fun _ => ?_⟩
    let halting : Control := { q.told with rearmed := false }
    refine (tryAbort_control (q := halting) hstill hlock).mono fun q' s' r h => ?_
    obtain ⟨hr, hs, h⟩ := h
    exact ⟨hr, hs, h.keepAlive, h.stopped, h.noHandle, h.hasStream, h.emptied, h.exact, h.failed,
      fun he _ => h.covered he he⟩
  · exact tryAbort_control hstill hlock

theorem isEnabled_control (ht : Control.discipline.timed q s) (hstill : q.handle.Still) :
    (isEnabled s : Task ClientIO _ _).Obeys Control.discipline.interruptible
      (fun q' s' r => s' = s ∧ ∃ enabled : Bool, r = .ok enabled ∧
        q' = { q with enabled := enabled, covered := q.covered || !enabled }) q := by
  refine Async.obeys_bind ((withLock_control (m := .config) (c := .loadConfig) ⟨nofun, nofun⟩ ht
    hstill trivial).mono ?_)
  rintro q' s' r ⟨rfl, v, rfl, rfl⟩
  exact ⟨rfl, v.enabled, rfl, rfl⟩

end PingState

/-- A new stream was stored, and the task of the one before was stopped. -/
structure Control.Opened (q : Control) (fields : ClientFields) : Prop where
  keepAlive : fields.keepAlive = q.keepAlive
  stopped : q.handle.Stopped
  noHandle : q.hasHandle = false
  noStream : q.hasStream = false
  exact : q.keepAlive = true → q.exact = true
  failed : q.failed = false

namespace Control.Opened

theorem settled (h : q.Opened s) (hcovered : q.keepAlive = true → q.covered = true) :
    q.Settled s ∧ q.failed = false :=
  ⟨⟨h.keepAlive, h.stopped.still, h.noHandle, h.noStream, fun _ => h.stopped,
    fun hk => ⟨hcovered hk, h.exact hk⟩⟩, h.failed⟩

theorem timed (h : q.Opened s) : Control.discipline.timed q s := by
  have hlapse : q.handle.lapse.Stopped := by
    rcases h.stopped with hh | hh <;> rw [hh]
    · exact .inl rfl
    · exact .inr rfl
  refine ⟨⟨h.keepAlive, hlapse.still, h.noHandle, h.noStream, fun _ => hlapse, fun hk => ?_⟩,
    h.failed⟩
  exact ⟨by simp [Control.lapse, show q.keepAlive = true from hk], h.exact hk⟩

end Control.Opened

namespace PingState

theorem startPingTask_control (h : q.Opened s) (hk : q.keepAlive = true) :
    (startPingTask s : Task ClientIO _ _).Obeys Control.discipline.interruptible
      (fun q' s' _ => q'.Settled s' ∧ q'.failed = false) q := by
  refine Async.obeys_bind ((isEnabled_control h.timed h.stopped.still).mono ?_)
  rintro q₁ s' r ⟨rfl, enabled, rfl, rfl⟩
  have hasked : ∀ enabled, ({ q with enabled, covered := q.covered || !enabled } : Control).Opened
      s' := fun _ => ⟨h.keepAlive, h.stopped, h.noHandle, h.noStream, h.exact, h.failed⟩
  match enabled with
  | false => exact (hasked false).settled fun _ => Bool.or_true _
  | true =>
      refine Async.obeys_bind ((withLock_control (m := .shouldStop) (c := .setShouldStop false)
        ⟨nofun, nofun⟩ (hasked true).timed h.stopped.still trivial).mono ?_)
      rintro q₂ s r ⟨rfl, -, rfl, rfl⟩
      refine Async.obeys_call_bind.mpr ⟨⟨hk, rfl, rfl, h.stopped⟩, fun t => ?_⟩
      -- the handle is not stored yet, and a timer may run out here
      have hlapse : ((q.handle.spawn t).lapse).Stopped := by
        rcases h.stopped with hh | hh <;> rw [hh] <;> exact .inr rfl
      have hspawn : q.handle.spawn t = .spawned t ∨ q.handle.spawn t = .lost := by
        rcases h.stopped with hh | hh <;> rw [hh]
        · exact .inl rfl
        · exact .inr rfl
      have hstore : (q.handle.spawn t).store.Still := by
        rcases h.stopped with hh | hh <;> rw [hh]
        · exact .inl rfl
        · exact .inr (.inr rfl)
      refine Async.obeys_wait_bind.mpr ⟨⟨⟨h.noHandle, .inl rfl, nofun⟩, ?_⟩, fun _ => ?_⟩
      · exact ⟨⟨h.keepAlive, hlapse.still, h.noHandle, h.noStream, fun _ => hlapse,
          fun hk => ⟨rfl, h.exact hk⟩⟩, h.failed⟩
      refine Async.obeys_call_bind.mpr ⟨⟨rfl, hspawn⟩, fun _ => ?_⟩
      refine Async.obeys_call_bind.mpr ⟨⟨rfl, hstore⟩, fun _ => ?_⟩
      refine ⟨⟨h.keepAlive, hstore, rfl, h.noStream, fun hk' => ?_, fun hk => ⟨rfl, h.exact hk⟩⟩,
        h.failed⟩
      exact absurd (hk.symm.trans hk') nofun

end PingState

theorem Control.Settled.timed (h : q.Settled s) (hfailed : q.failed = false) :
    Control.discipline.timed q s := by
  have hlapse : q.handle.lapse = q.handle := by
    rcases h.still with hh | hh | hh <;> rw [hh] <;> rfl
  refine ⟨⟨h.keepAlive, ?_, h.noHandle, h.noStream, fun hk => ?_, fun hk => ⟨?_, (h.covered hk).2⟩⟩,
    hfailed⟩
  · rw [Control.lapse, hlapse]
    exact h.still
  · rw [Control.lapse, hlapse]
    exact h.stopped hk
  · simp [Control.lapse, show q.keepAlive = true from hk]

namespace Client

/-- What holds wherever a connection is made. -/
def Ready (q : Control) (fields : ClientFields) : Prop :=
  q.Settled fields ∧ q.failed = false

theorem Ready.wait (h : Ready q s) {a : ClientAwait} :
    Control.discipline.interruptible.waits q s a :=
  ⟨⟨h.1.noHandle, .inr h.1.still, fun _ => h.1.noStream⟩, h.1.timed h.2⟩

/-- A look at the cell. -/
theorem peek_control (h : Ready q s) :
    (withLock .stream .loadStream s : Task ClientIO _ (Except Error _)).Obeys
      Control.discipline.interruptible (fun q' s' r => Ready q' s' ∧ s' = s ∧ ∃ v, r = .ok v)
      q := by
  refine Async.obeys_wait_bind.mpr ⟨h.wait, fun _ => ?_⟩
  refine Async.obeys_call_bind.mpr ⟨trivial, fun v => ?_⟩
  refine Async.obeys_call_bind.mpr ⟨rfl, fun _ => ⟨⟨?_, h.2⟩, rfl, v, rfl⟩⟩
  exact ⟨h.1.keepAlive, h.1.still, h.1.noHandle, rfl, h.1.stopped, h.1.covered⟩

/-- The task of the stream before is stopped, and one for the new stream is started. -/
theorem useStream_control {c : Conn} (h : Ready q s) :
    (useStream c s).Obeys Control.discipline.interruptible (fun q' s' _ => Ready q' s') q := by
  simp only [useStream, withLock, Async.bind_assoc, Async.pure_bind]
  refine Async.obeys_wait_bind.mpr ⟨h.wait, fun _ => ?_⟩
  refine Async.obeys_call_bind.mpr ⟨rfl, fun _ => ?_⟩
  refine Async.obeys_call_bind.mpr ⟨rfl, fun _ => ?_⟩
  let stored : Control :=
    { q with hasStream := false, emptied := false, covered := false, rearmed := false }
  refine Async.obeys_bind ((PingState.stopPingTask_control (q := stored) h.1.still
    h.1.noHandle).mono ?_)
  rintro q₁ s' r ⟨rfl, rfl, hhalted⟩
  have hkeep : q₁.keepAlive = q.keepAlive := hhalted.keepAlive
  have hopened : q₁.Opened s' := by
    refine ⟨h.1.keepAlive.trans hkeep.symm, hhalted.stopped, hhalted.noHandle, hhalted.hasStream,
      fun hk => ?_, hhalted.failed.trans h.2⟩
    exact hhalted.exact.trans (h.1.covered (hkeep.symm.trans hk)).2
  dsimp only
  rw [Async.get_bind_apply]
  split
  · rename_i hk
    have hk' : q₁.keepAlive = true := hopened.keepAlive.symm.trans hk
    refine Async.obeys_bind ((PingState.isEnabled_control hopened.timed
      hopened.stopped.still).mono ?_)
    rintro q₂ s r ⟨rfl, enabled, rfl, rfl⟩
    have hasked : ∀ enabled, ({ q₁ with enabled, covered := q₁.covered || !enabled } :
        Control).Opened s := fun _ => ⟨hopened.keepAlive, hopened.stopped, hopened.noHandle,
      hopened.noStream, hopened.exact, hopened.failed⟩
    match enabled with
    | false => exact (hasked false).settled fun _ => Bool.or_true _
    | true => exact PingState.startPingTask_control (hasked true) hk'
  · rename_i hk
    refine hopened.settled fun hk' => ?_
    exact absurd (hopened.keepAlive.trans hk') hk

theorem wrapStream_control {c : Conn} (h : Ready q s) :
    (K.wrapStream c s).Obeys Control.discipline.interruptible (fun q' s' _ => Ready q' s') q := by
  cases K with
  | tl => exact h
  | tls domain acceptInvalidCerts =>
      refine Async.obeys_wait_bind.mpr ⟨h.wait, fun r => ?_⟩
      match r with
      | .ok () => exact h
      | .error e => exact h

theorem connectLoop_control {tries : Nat} (h : Ready q s) :
    (connectLoop K tries s).Obeys Control.discipline.interruptible
      (fun q' s' _ => Ready q' s') q := by
  induction tries generalizing q s with
  | zero =>
      refine Async.obeys_bind ((peek_control h).mono ?_)
      rintro q' s' r ⟨h', rfl, v, rfl⟩
      dsimp only
      split
      · exact h'
      · exact h'
  | succ tries ih =>
      have again : ∀ q s, Ready q s → ((Async.wait (A := ClientAwaits) (.sleep connectRetryDelay)
          >>= fun _ => connectLoop K tries) s).Obeys Control.discipline.interruptible
          (fun q' s' _ => Ready q' s') q :=
        fun q s h => Async.obeys_wait_bind.mpr ⟨h.wait, fun _ => ih h⟩
      have hlapse : Ready q.lapse s := h.1.timed h.2
      refine Async.obeys_timeout_wait_bind h.wait (h.1.timed h.2) (again q.lapse s hlapse)
        fun r => ?_
      match r with
      | .error _ => exact again q s h
      | .ok c =>
          refine Async.obeys_bind ((wrapStream_control h).mono fun q' s' r h' => ?_)
          match r with
          | .error _ => exact h'
          | .ok () => exact useStream_control h'

theorem checkDomain_control (h : Ready q s) :
    (K.checkDomain s).Obeys Control.discipline (fun q' s' _ => Ready q' s') q := by
  cases K with
  | tl => exact h
  | tls domain acceptInvalidCerts =>
      simp only [ClientKind.checkDomain]
      split
      · exact h
      · exact h

theorem buildConnector_control (h : Ready q s) :
    (K.buildConnector s).Obeys Control.discipline.interruptible
      (fun q' s' _ => Ready q' s') q := by
  cases K with
  | tl => exact h
  | tls domain acceptInvalidCerts =>
      refine Async.obeys_call_bind.mpr ⟨trivial, fun r => ?_⟩
      match r with
      | .ok () => exact h
      | .error _ => exact h

theorem connect_control (h : Ready q s) :
    (connect K s).Obeys Control.discipline (fun q' s' _ => Ready q' s') q := by
  refine Async.obeys_bind ((checkDomain_control h).mono fun q' s' r h' => ?_)
  match r with
  | .error _ => exact h'
  | .ok () =>
      have inner : ((do K.buildConnector; connectLoop K defaultMaxConnectRetries) s').Obeys
          Control.discipline.interruptible (fun q' s' _ => Ready q' s') q' := by
        refine Async.obeys_bind ((buildConnector_control h').mono fun q' s r h' => ?_)
        match r with
        | .error _ => exact h'
        | .ok () => exact connectLoop_control h'
      exact Async.obeys_within inner (fun _ _ _ h => h) fun _ _ h => h

theorem ensureConnected_control (h : Ready q s) :
    (ensureConnected K s).Obeys Control.discipline (fun q' s' _ => Ready q' s') q := by
  rw [ensureConnected, Async.get_bind_apply]
  split
  · refine Async.obeys_bind ((peek_control h).of_interruptible.mono ?_)
    rintro q' s' r ⟨h', rfl, v, rfl⟩
    dsimp only
    split
    · exact connect_control h'
    · exact h'
  · exact connect_control h

/-- Where an operation of the caller ends. -/
structure Ends (op : ClientOp) (q : Control) (fields : ClientFields) : Prop where
  still : q.handle.Still
  noHandle : q.hasHandle = false
  noStream : q.hasStream = false
  stopped : fields.keepAlive = false ∨ op = .disconnect ∨ q.failed = true → q.handle.Stopped
  covered : fields.keepAlive = true → q.covered = true ∧ q.exact = true

theorem Ready.ends {op : ClientOp} (h : Ready q s) (hop : op ≠ .disconnect) : Ends op q s := by
  refine ⟨h.1.still, h.1.noHandle, h.1.noStream, ?_, fun hk => ?_⟩
  · rintro (hk | hd | hf)
    · exact h.1.stopped (h.1.keepAlive.symm.trans hk)
    · exact absurd hd hop
    · exact absurd (h.2.symm.trans hf) nofun
  · exact h.1.covered (h.1.keepAlive.symm.trans hk)

theorem handleMessage_control {command : UInt32} {requestData : List UInt8} (h : Ready q s) :
    (handleMessage K command requestData s).Obeys Control.discipline
      (fun q' s' _ => Ends (.handleMessage command requestData) q' s') q := by
  refine Async.obeys_bind ((ensureConnected_control h).mono fun q' s' r h' => ?_)
  have hend : Ends (.handleMessage command requestData) q' s' := h'.ends nofun
  match r with
  | .error _ => exact hend
  | .ok () =>
  have hwait : ∀ a, Control.discipline.waits q' s' a := fun a =>
    ⟨h'.1.noHandle, .inr h'.1.still, fun _ => h'.1.noStream⟩
  refine Async.obeys_wait_bind.mpr ⟨hwait _, fun _ => ?_⟩
  refine Async.obeys_wait_bind.mpr ⟨hwait _, fun _ => ?_⟩
  refine Async.obeys_call_bind.mpr ⟨trivial, fun v => ?_⟩
  match v with
  | none =>
      refine Async.obeys_call_bind.mpr ⟨rfl, fun _ => ?_⟩
      refine Async.obeys_call_bind.mpr ⟨trivial, fun _ => ?_⟩
      exact ⟨hend.still, hend.noHandle, rfl, hend.stopped, hend.covered⟩
  | some c =>
      dsimp only
      rw [Async.get_bind_apply]
      refine Async.obeys_wait_bind.mpr ⟨⟨h'.1.noHandle, .inr h'.1.still, nofun⟩, fun r => ?_⟩
      obtain ⟨buffer, result⟩ := r
      match result with
      | .error e =>
          refine Async.obeys_call_bind.mpr ⟨trivial, fun _ => ?_⟩
          let cleared : Control :=
            { q' with hasStream := true, failed := true, emptied := true, covered := true }
          refine Async.obeys_bind ((PingState.stopPingTask_control (q := cleared) h'.1.still
            h'.1.noHandle).of_interruptible.mono ?_)
          rintro q₁ s r ⟨rfl, rfl, hhalted⟩
          refine Async.obeys_call_bind.mpr ⟨hhalted.hasStream, fun _ => ?_⟩
          refine Async.obeys_call_bind.mpr ⟨trivial, fun _ => ?_⟩
          refine ⟨hhalted.stopped.still, hhalted.noHandle, rfl, fun _ => hhalted.stopped,
            fun hk => ⟨hhalted.covered rfl rfl, ?_⟩⟩
          exact hhalted.exact.trans (hend.covered hk).2
      | .ok response =>
          simp only [withLock, Async.bind_assoc, Async.pure_bind]
          refine Async.obeys_wait_bind.mpr
            ⟨⟨h'.1.noHandle, .inr h'.1.still, nofun⟩, fun _ => ?_⟩
          refine Async.obeys_call_bind.mpr ⟨trivial, fun _ => ?_⟩
          refine Async.obeys_call_bind.mpr ⟨trivial, fun _ => ?_⟩
          refine Async.obeys_call_bind.mpr ⟨rfl, fun _ => ?_⟩
          refine Async.obeys_call_bind.mpr ⟨trivial, fun _ => ?_⟩
          refine ⟨hend.still, hend.noHandle, rfl, ?_, hend.covered⟩
          rintro (hk | hd | hf)
          · exact hend.stopped (.inl hk)
          · cases hd
          · cases hf

theorem disconnect_control (h : Ready q s) :
    (disconnect s).Obeys Control.discipline (fun q' s' _ => Ends .disconnect q' s') q := by
  refine Async.obeys_bind ((PingState.stopPingTask_control h.1.still
    h.1.noHandle).of_interruptible.mono ?_)
  rintro q' s' r ⟨rfl, rfl, hhalted⟩
  -- the cell is emptied in any case
  have hends : ∀ q₁ : Control, q₁.handle = q'.handle → q₁.hasHandle = q'.hasHandle →
      q₁.hasStream = false → q₁.exact = q'.exact → q₁.covered = true →
      Ends .disconnect q₁ s' := by
    intro q₁ hh hl hs he hc
    refine ⟨hh ▸ hhalted.stopped.still, hl.trans hhalted.noHandle, hs, fun _ =>
      hh ▸ hhalted.stopped, fun hk => ⟨hc, ?_⟩⟩
    exact (he.trans hhalted.exact).trans (h.1.covered (h.1.keepAlive.symm.trans hk)).2
  refine Async.obeys_wait_bind.mpr ⟨⟨hhalted.noHandle, .inr hhalted.stopped.still, fun _ =>
    hhalted.hasStream.trans h.1.noStream⟩, fun _ => ?_⟩
  refine Async.obeys_call_bind.mpr ⟨trivial, fun v => ?_⟩
  match v with
  | none =>
      refine Async.obeys_call_bind.mpr ⟨trivial, fun _ => ?_⟩
      exact Async.obeys_call.mpr ⟨rfl, fun _ => hends _ rfl rfl rfl rfl rfl⟩
  | some c =>
      refine Async.obeys_wait_bind.mpr
        ⟨⟨hhalted.noHandle, .inr hhalted.stopped.still, nofun⟩, fun r => ?_⟩
      match r with
      | .error e =>
          refine Async.obeys_call_bind.mpr ⟨trivial, fun _ => ?_⟩
          exact Async.obeys_call_bind.mpr ⟨rfl, fun _ => hends _ rfl rfl rfl rfl rfl⟩
      | .ok () =>
          refine Async.obeys_call_bind.mpr ⟨trivial, fun _ => ?_⟩
          exact Async.obeys_call.mpr ⟨rfl, fun _ => hends _ rfl rfl rfl rfl rfl⟩

/-- What `set_keep_alive` does in any case. -/
theorem enable_control {enabled : Bool} (hstill : q.handle.Still) (hlock : q.hasHandle = false)
    (hstream : q.hasStream = false) (hfailed : q.failed = false)
    (hstopped : enabled = false → q.handle.Stopped) :
    ((do
      Async.modify ({ · with keepAlive := enabled })
      Async.wait (A := ClientAwaits) (.lock .config)
      let config ← Async.call (C := ClientCalls) .loadConfig
      Async.call (C := ClientCalls)
        (.setConfig { config with enabled := enabled && decide (config.interval > 0) })
      Async.call (C := ClientCalls) (.unlock .config) : Async ClientIO ClientFields Error Unit)
      s).Obeys Control.discipline (fun q' s' _ => Ends (.setKeepAlive enabled) q' s') q := by
  rw [Async.modify_bind_apply]
  refine Async.obeys_wait_bind.mpr ⟨⟨hlock, .inr hstill, nofun⟩, fun _ => ?_⟩
  refine Async.obeys_call_bind.mpr ⟨trivial, fun config => ?_⟩
  refine Async.obeys_call_bind.mpr ⟨trivial, fun _ => ?_⟩
  refine ⟨trivial, fun _ => ⟨hstill, hlock, hstream, ?_, fun hk => ⟨rfl, ?_⟩⟩⟩
  · rintro (hk | hd | hf)
    · exact hstopped hk
    · cases hd
    · exact absurd (hfailed.symm.trans hf) nofun
  · have hk : enabled = true := hk
    subst hk
    exact beq_self_eq_true (decide (config.interval > 0))

theorem setKeepAlive_control {enabled : Bool} (h : Ready q s) :
    (setKeepAlive enabled s).Obeys Control.discipline
      (fun q' s' _ => Ends (.setKeepAlive enabled) q' s') q := by
  rw [setKeepAlive, Async.get_bind_apply]
  split
  · refine Async.obeys_bind ((PingState.stopPingTask_control h.1.still
      h.1.noHandle).of_interruptible.mono ?_)
    rintro q' s' r ⟨rfl, rfl, hhalted⟩
    simp only [withLock, Async.bind_assoc, Async.pure_bind]
    refine Async.obeys_wait_bind.mpr ⟨⟨hhalted.noHandle, .inr hhalted.stopped.still, fun _ =>
      hhalted.hasStream.trans h.1.noStream⟩, fun _ => ?_⟩
    refine Async.obeys_call_bind.mpr ⟨trivial, fun _ => ?_⟩
    refine Async.obeys_call_bind.mpr ⟨rfl, fun _ => ?_⟩
    exact enable_control hhalted.stopped.still hhalted.noHandle rfl (hhalted.failed.trans h.2)
      fun _ => hhalted.stopped
  · rename_i hk
    refine enable_control h.1.still h.1.noHandle h.1.noStream h.2 fun henabled => ?_
    refine h.1.stopped (h.1.keepAlive.symm.trans ?_)
    simpa [henabled] using hk

theorem setTimeoutConfig_control {timeoutConfig : TimeoutConfig} (h : Ready q s) :
    (setTimeoutConfig timeoutConfig s).Obeys Control.discipline
      (fun q' s' _ => Ends (.setTimeoutConfig timeoutConfig) q' s') q := by
  have hend : Ends (.setTimeoutConfig timeoutConfig) q s := h.ends nofun
  simp only [setTimeoutConfig]
  match (timeoutConfig.withPingInterval timeoutConfig.pingInterval).validate with
  | .error e => exact hend
  | .ok () =>
      rw [Async.ofExcept_ok_bind_apply, Async.get_bind_apply]
      simp only [withLock, Async.bind_assoc, Async.pure_bind]
      have hwait : ∀ m, m ≠ .stream → Control.discipline.waits q s (.lock m) := fun m hm =>
        ⟨h.1.noHandle, .inr h.1.still, fun heq => absurd (ClientAwait.lock.inj heq) hm⟩
      refine Async.obeys_wait_bind.mpr ⟨hwait .config nofun, fun _ => ?_⟩
      refine Async.obeys_call_bind.mpr ⟨trivial, fun _ => ?_⟩
      refine Async.obeys_wait_bind.mpr ⟨hwait .timeoutConfig nofun, fun _ => ?_⟩
      refine Async.obeys_call_bind.mpr ⟨trivial, fun _ => ?_⟩
      refine Async.obeys_call_bind.mpr ⟨trivial, fun _ => ?_⟩
      rw [Async.modify_bind_apply]
      refine ⟨trivial, fun _ => ⟨hend.still, hend.noHandle, hend.noStream, hend.stopped, fun hk =>
        ⟨rfl, ?_⟩⟩⟩
      have hk : s.keepAlive = true := hk
      simp [hk, Control.discipline]

end Client

end

namespace ClientRuntime

variable {K : ClientKind}

/-- The rules for ping tasks. -/
def controlRegime (K : ClientKind) : Regime K Control where
  client := Control.discipline
  ping := Control.pingDiscipline
  start := Control.start
  ends op q fields _ := Client.Ends op q fields
  idle := .idle
  program op fields := by
    have hstart : Client.Ready (.start fields) fields := ⟨settled_start fields, rfl⟩
    have hvoid {op : ClientOp} {m : Async ClientIO ClientFields Error Unit}
        (h : (m fields).Obeys Control.discipline (fun q s _ => Client.Ends op q s)
          (.start fields)) :
        ((m >>= fun _ => pure []) fields).Obeys Control.discipline
          (fun q s (_ : Except Error (List UInt8)) => Client.Ends op q s) (.start fields) := by
      refine Async.obeys_bind (h.mono fun q s r hq => ?_)
      match r with
      | .ok () => exact hq
      | .error _ => exact hq
    cases op with
    | connect =>
        exact hvoid ((Client.connect_control hstart).mono fun _ _ _ h => h.ends nofun)
    | handleMessage command requestData => exact Client.handleMessage_control hstart
    | disconnect => exact hvoid (Client.disconnect_control hstart)
    | setKeepAlive enabled => exact hvoid (Client.setKeepAlive_control hstart)
    | setTimeoutConfig timeoutConfig => exact hvoid (Client.setTimeoutConfig_control hstart)
  iteration := PingState.pingIteration_control

/-! ### What a step changes of the ping tasks -/

variable {w w' : World} {g : Agent} {choice : Choice}

/-- Nothing that concerns the ping tasks has changed. -/
structure World.SameTasks (w w' : World) : Prop where
  config : w'.config = w.config
  sawEnabled : w'.sawEnabled = w.sawEnabled
  shouldStop : w'.shouldStop = w.shouldStop
  taskHandle : w'.taskHandle = w.taskHandle
  homes : w'.homes = w.homes
  aborted : w'.aborted = w.aborted
  cell : w'.cell = w.cell
  stored : w'.stored = w.stored

theorem World.SameTasks.refl : w.SameTasks w := ⟨rfl, rfl, rfl, rfl, rfl, rfl, rfl, rfl⟩

theorem World.sameTasks_of_call {c : ClientCall} {r : c.Reply}
    (h : w.call g c choice = some (r, w')) : (w.after g c).SameTasks w' := by
  have hframe := World.call_frame (f := fun w => (w.config, w.sawEnabled, w.shouldStop,
    w.taskHandle, w.homes, w.aborted, w.cell, w.stored)) (fun _ _ => rfl) (fun _ _ => rfl) h
  simp only [Prod.mk.injEq] at hframe
  obtain ⟨hconfig, hsaw, hstop, hhandle, hhomes, haborted, hcell, hstored⟩ := hframe
  exact ⟨hconfig, hsaw, hstop, hhandle, hhomes, haborted, hcell, hstored⟩

theorem World.sameTasks_of_wait {a : ClientAwait} {r : a.Reply}
    (h : w.wait g a choice = some (r, w')) : w.SameTasks w' := by
  have hframe := World.wait_frame (f := fun w => (w.config, w.sawEnabled, w.shouldStop,
    w.taskHandle, w.homes, w.aborted, w.cell, w.stored)) (fun _ _ => rfl) (fun _ _ => rfl) h
  simp only [Prod.mk.injEq] at hframe
  obtain ⟨hconfig, hsaw, hstop, hhandle, hhomes, haborted, hcell, hstored⟩ := hframe
  exact ⟨hconfig, hsaw, hstop, hhandle, hhomes, haborted, hcell, hstored⟩

theorem World.sameTasks_drop {σ α : Type} {th : Thread σ α} : w.SameTasks (th.drop g w) := by
  rw [Thread.drop]
  split <;> exact ⟨rfl, rfl, rfl, rfl, rfl, rfl, rfl, rfl⟩

/-- A step of a thread is a call, or it changes nothing of the ping tasks. -/
theorem Thread.Moves.tasks {σ α Q : Type} {D : Discipline ClientAwaits ClientCalls Q σ}
    {th th' : Thread σ α} {q q' : Q} (hm : th.Moves D K g w q choice w' th' q') :
    (w.SameTasks w' ∧ (q' = q ∨ (∃ a r, q' = D.waited q a r) ∨ q' = D.lapsed q)) ∨
      ∃ c r, D.calls q c ∧ w.call g c choice = some (r, w') ∧ q' = D.called q c r ∧
        ∃ s k run, th = ⟨.await s (.call c) k, run⟩ ∧ th' = ⟨k r, none⟩ := by
  cases hm with
  | call hcalls hcall => exact .inr ⟨_, _, hcalls, hcall, rfl, _, _, _, rfl, rfl⟩
  | wait _ _ hwait => exact .inl ⟨World.sameTasks_of_wait hwait, .inr (.inl ⟨_, _, rfl⟩)⟩
  | elapse => exact .inl ⟨.refl, .inr (.inr rfl)⟩
  | begins => exact .inl ⟨.refl, .inl rfl⟩
  | event =>
      exact .inl ⟨⟨rfl, rfl, rfl, rfl, rfl, rfl, rfl, rfl⟩, .inl rfl⟩
  | ends =>
      exact .inl ⟨⟨rfl, rfl, rfl, rfl, rfl, rfl, rfl, rfl⟩, .inr (.inl ⟨_, _, rfl⟩)⟩

end ClientRuntime

end Wagonet
