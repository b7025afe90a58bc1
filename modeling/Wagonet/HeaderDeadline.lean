import Wagonet.ConnectionShutdown

/-!
A connection with the clock of its `read_header` timer.

A wake-up drops the future of `handle_next`, and the next one waits for the request
header with a timer of its own. So two things must be the case for a wake-up to go
unnoticed: nothing of the header was read before it, and the client does not need
more time for the header than the first of these timers allows.

The clock is there for this one timer, which every `handle_next` starts when it is
begun. The other timers are started after the header was read, when no wake-up is
harmless any more; they may run out at any time. A timer that is up is seen before more
time passes.
-/

namespace Wagonet

open Library

structure TimedConnection where
  task : ConnectionHandler
  now : Duration
  /-- when the current `handle_next` was begun -/
  since : Duration
  /-- when the first one was begun for the request that is awaited; the task does not
  depend on that -/
  waiting : Duration

namespace TimedConnection

open ConnectionHandler (Phase)

/-- The task waits for bytes of a request header. -/
def awaitsHeader (c : ConnectionHandler) : Bool :=
  match c.phase with
  | .serving (.await _ (.wait [.readHeader] (.read _)) _) => (sent c.current).isEmpty
  | _ => false

/-- A `handle_next` is begun. -/
def begins : ConnectionHandler.Act → Bool
  | .setUp _ | .turn | .borrow => true
  | _ => false

inductive Act
  | task (a : ConnectionHandler.Act)
  /-- time passes -/
  | tick (d : Duration)

/-- What the timer allows: it runs out when its time is up, and not before. -/
def InTime (readHeader : Duration) (c : TimedConnection) : Act → Prop
  | .tick d => awaitsHeader c.task = true → c.now + d ≤ c.since + readHeader
  | .task (.elapse _) => awaitsHeader c.task = true → c.since + readHeader ≤ c.now
  | .task _ => True

instance (readHeader : Duration) (c : TimedConnection) : ∀ a, Decidable (InTime readHeader c a)
  | .tick _ | .task (.elapse _) => inferInstanceAs (Decidable (_ → _))
  | .task (.deliver _) | .task .close | .task (.notify _) | .task .dropSenders
  | .task (.tlsAccepted _) | .task (.setUp _) | .task (.progress _) | .task .turn | .task .wake
  | .task .borrow | .task .abort => .isTrue trivial

/-- The task has done `a`, and is `task` now. -/
def withTask (c : TimedConnection) (a : ConnectionHandler.Act) (task : ConnectionHandler) :
    TimedConnection where
  task := task
  now := c.now
  since := if begins a then c.now else c.since
  waiting := if begins a && !a.isWatch then c.now else c.waiting

def step (handler : CommandHandler) (maxBufferSize : Nat) (readHeader : Duration)
    (c : TimedConnection) (a : Act) : Option TimedConnection :=
  if InTime readHeader c a then
    match a with
    | .tick d => some { c with now := c.now + d }
    | .task a => (c.task.step handler maxBufferSize a).map (c.withTask a)
  else
    none

/-- A connection that was just accepted. -/
structure Fresh (c : TimedConnection) : Prop where
  task : c.task.Fresh
  since : c.since = c.now
  waiting : c.waiting = c.now

def machine (handler : CommandHandler) (maxBufferSize : Nat) (readHeader : Duration) :
    Machine TimedConnection Act where
  init := Fresh
  step := step handler maxBufferSize readHeader

/-! ### Wake-ups that go unnoticed -/

def Act.isWatch : Act → Bool
  | .task a => a.isWatch
  | .tick _ => false

/-- The future was dropped by a wake-up, and the next one is not begun yet. -/
def woken (c : ConnectionHandler) : Bool :=
  match c.phase with
  | .woken _ => true
  | _ => false

/-- `true` is not sent, the `changed` branch is taken only before the first byte of a
request header is read, and that header is there before `read_header` has passed since it
was first waited for. -/
def Unnoticed (readHeader : Duration) (c : TimedConnection) : Act → Prop
  | .task a => c.task.BetweenRequests a
  | .tick d => (awaitsHeader c.task || woken c.task) = true → c.now + d ≤ c.waiting + readHeader

instance (readHeader : Duration) (c : TimedConnection) :
    ∀ a, Decidable (Unnoticed readHeader c a)
  | .task a => inferInstanceAs (Decidable (c.task.BetweenRequests a))
  | .tick _ => inferInstanceAs (Decidable (_ → _))

/-- At the same times and without the events on the shutdown channel, the same schedule
hands the same requests to the command handler and writes the same bytes. -/
def SameWithoutWatch (handler : CommandHandler) (maxBufferSize : Nat) (readHeader : Duration)
    (c c' : TimedConnection) (as : List Act) : Prop :=
  ∃ d, (machine handler maxBufferSize readHeader).run c (as.filter fun a => !a.isWatch) = some d ∧
    d.task.handled = c'.task.handled ∧ d.task.written = c'.task.written ∧
      d.task.inbox = c'.task.inbox ∧ d.now = c'.now

/-- Two connections that only the shutdown channel tells apart; the second was never
woken, and its timer is the one that was started first. -/
structure Alike (c d : TimedConnection) : Prop where
  task : ConnectionHandler.Alike c.task d.task
  now : d.now = c.now
  since : d.since = c.waiting
  waiting_le : c.waiting ≤ c.since
  since_le : c.since ≤ c.now

variable {handler : CommandHandler} {maxBufferSize : Nat} {readHeader : Duration}
  {c c' d : TimedConnection} {a : Act}

theorem step_task_iff {a : ConnectionHandler.Act} :
    step handler maxBufferSize readHeader c (.task a) = some c' ↔
      InTime readHeader c (.task a) ∧ ∃ task, c.task.step handler maxBufferSize a = some task ∧
        c.withTask a task = c' := by
  rw [step]
  split
  · rename_i htime
    simp [htime]
  · rename_i htime
    simp [htime]

theorem awaitsHeader_of_alike {c d : ConnectionHandler} (h : ConnectionHandler.Alike c d)
    (hd : awaitsHeader d = true) : awaitsHeader c = true ∨ woken c = true := by
  rw [awaitsHeader, h.phase, ← h.current] at hd
  rw [awaitsHeader, woken]
  cases hphase : c.phase with
  | woken s => exact .inr rfl
  | _ =>
      rw [hphase] at hd
      exact .inl hd

theorem not_woken_of_elapse {c c' : ConnectionHandler} {i : Nat}
    (hs : c.step handler maxBufferSize (.elapse i) = some c') : woken c = false := by
  rw [woken]
  cases hphase : c.phase with
  | woken s => simp [ConnectionHandler.step, hphase] at hs
  | _ => rfl

namespace Alike

theorem of_fresh (h : Fresh c) (hv : c.task.shutdown.value = false) : Alike c c where
  task := ConnectionHandler.alike_of_fresh h.task hv
  now := rfl
  since := h.since.trans h.waiting.symm
  waiting_le := by rw [h.since, h.waiting]
  since_le := h.since.le

theorem step_keep (h : Alike c d) (hok : Unnoticed readHeader c a) (hk : a.isWatch = false)
    (hs : step handler maxBufferSize readHeader c a = some c') :
    ∃ d', step handler maxBufferSize readHeader d a = some d' ∧ Alike c' d' := by
  cases a with
  | tick δ =>
      rw [step] at hs
      split at hs
      · rename_i htime
        cases hs
        have hd : InTime readHeader d (.tick δ) := by
          intro hawaits
          rw [h.now, h.since]
          exact hok (by simpa using awaitsHeader_of_alike h.task hawaits)
        refine ⟨_, if_pos hd, h.task, by rw [h.now], h.since, h.waiting_le, ?_⟩
        exact Nat.le_trans h.since_le (Nat.le_add_right _ _)
      · cases hs
  | task a =>
      obtain ⟨htime, task, hstep, rfl⟩ := step_task_iff.mp hs
      obtain ⟨task', hstep', htask⟩ := h.task.step_keep hk hstep
      have hd : InTime readHeader d (.task a) := by
        cases a with
        | elapse i =>
            intro hawaits
            have hc : awaitsHeader c.task = true := by
              refine (awaitsHeader_of_alike h.task hawaits).resolve_right ?_
              rw [not_woken_of_elapse hstep]
              simp
            rw [h.now, h.since]
            exact Nat.le_trans (Nat.add_le_add_right h.waiting_le _) (htime hc)
        | _ => trivial
      have hwatch : a.isWatch = false := hk
      refine ⟨_, step_task_iff.mpr ⟨hd, task', hstep', rfl⟩, htask, h.now, ?_, ?_, ?_⟩
      · simp only [withTask, hwatch, Bool.not_false, Bool.and_true, h.now, h.since]
      · simp only [withTask, hwatch, Bool.not_false, Bool.and_true]
        split
        · exact Nat.le_refl _
        · exact h.waiting_le
      · simp only [withTask]
        split
        · exact Nat.le_refl _
        · exact h.since_le

/-- A wake-up that goes unnoticed only starts a later timer. -/
theorem step_watch (h : Alike c d) (hok : Unnoticed readHeader c a) (hk : a.isWatch = true)
    (hs : step handler maxBufferSize readHeader c a = some c') : Alike c' d := by
  cases a with
  | tick δ => cases hk
  | task a =>
      obtain ⟨-, task, hstep, rfl⟩ := step_task_iff.mp hs
      have hwatch : a.isWatch = true := hk
      refine ⟨h.task.step_watch hok hk hstep, h.now, ?_, ?_, ?_⟩
      · simpa [withTask, hwatch] using h.since
      · simp only [withTask, hwatch, Bool.not_true, Bool.and_false, Bool.false_eq_true, if_false]
        split
        · exact Nat.le_trans h.waiting_le h.since_le
        · exact h.waiting_le
      · simp only [withTask]
        split
        · exact Nat.le_refl _
        · exact h.since_le

end Alike

/-- Wake-ups between requests do not disturb a connection whose client sends its headers
in time. -/
theorem wakeUps_between_requests {as : List Act} (hfresh : Fresh c)
    (hv : c.task.shutdown.value = false)
    (hok : (machine handler maxBufferSize readHeader).Along (Unnoticed readHeader) c as)
    (hrun : (machine handler maxBufferSize readHeader).run c as = some c') :
    SameWithoutWatch handler maxBufferSize readHeader c c' as := by
  have hkeep : ∀ s t a s', Alike s t → Unnoticed readHeader s a → (!a.isWatch) = true →
      step handler maxBufferSize readHeader s a = some s' →
        ∃ t', step handler maxBufferSize readHeader t a = some t' ∧ Alike s' t' :=
    fun s t a s' hR hok hk hs => hR.step_keep hok (by simpa using hk) hs
  have homit : ∀ s t a s', Alike s t → Unnoticed readHeader s a → (!a.isWatch) = false →
      step handler maxBufferSize readHeader s a = some s' → Alike s' t :=
    fun s t a s' hR hok hk hs => hR.step_watch hok (by simpa using hk) hs
  obtain ⟨d, hd, halike⟩ := Machine.run_filter hkeep homit (Alike.of_fresh hfresh hv) hok hrun
  refine ⟨d, hd, ?_, ?_, halike.task.inbox.symm, halike.now⟩
  · simp only [ConnectionHandler.handled, halike.task.events]
  · simp only [ConnectionHandler.written, halike.task.events]

/-- A plain connection that was just accepted by a server that runs. -/
def accepted : TimedConnection := ⟨.accepted, 0, 0, 0⟩

theorem fresh_accepted : Fresh accepted := ⟨ConnectionHandler.fresh_accepted, rfl, rfl⟩

/-- A request of command 1 without payload, and four bytes more. After twenty seconds the
`changed` branch is taken for a `false`, and after twenty more the header is read. -/
def wakeBeforeHeader : List Act :=
  [.task (.setUp true), .tick (.fromSecs 20), .task (.notify false), .task .wake, .task .borrow,
    .tick (.fromSecs 20), .task (.deliver [0, 0, 0, 1, 0, 0, 0, 0, 0, 0, 0, 5]),
    .task (.progress (.ready 8)), .task (.progress (.ready 1))]

/-- The branch is taken when half of the header was read. -/
def wakeInHeader : List Act :=
  [.task (.setUp true), .task (.deliver [0, 0, 0, 1, 0, 0, 0, 0, 0, 0, 0, 5]),
    .task (.progress (.ready 4)), .task (.notify false), .task .wake, .task .borrow,
    .task (.progress (.ready 8)), .task (.progress (.ready 1))]

/-- The branch is taken after fifty seconds, and the header is there after ninety. -/
def wakeBeforeDeadline : List Act :=
  [.task (.setUp true), .tick (.fromSecs 50), .task (.notify false), .task .wake, .task .borrow,
    .tick (.fromSecs 40), .task (.deliver [0, 0, 0, 1, 0, 0, 0, 0]),
    .task (.progress (.ready 8)), .task (.progress (.ready 1)), .task (.progress (.ready 0)),
    .task (.progress (.ready 0))]

theorem wakeUps_between_requests_accepted :
    ∃ c', (machine ConnectionHandler.echo 16 defaultReadHeaderTimeout).run accepted
        wakeBeforeHeader = some c' ∧
      SameWithoutWatch ConnectionHandler.echo 16 defaultReadHeaderTimeout accepted c'
        wakeBeforeHeader := by
  obtain ⟨c', hc'⟩ := Option.isSome_iff_exists.mp
    (show ((machine ConnectionHandler.echo 16 defaultReadHeaderTimeout).run accepted
      wakeBeforeHeader).isSome = true by decide +kernel)
  exact ⟨c', hc', wakeUps_between_requests fresh_accepted rfl (by decide +kernel) hc'⟩

/-- The second half of the header and the bytes after it are taken for a header: the
request is answered with a rejection. -/
theorem wakeUp_in_header_disturbs :
    ¬∀ (handler : CommandHandler) (maxBufferSize : Nat) (readHeader : Duration)
      (c c' : TimedConnection) (as : List Act), Fresh c → c.task.shutdown.value = false →
        (∀ value, Act.task (.notify value) ∈ as → value = false) →
          (machine handler maxBufferSize readHeader).run c as = some c' →
            SameWithoutWatch handler maxBufferSize readHeader c c' as := by
  intro h
  obtain ⟨c', hc', hw⟩ := Option.map_eq_some_iff.mp
    (show ((machine ConnectionHandler.echo 16 defaultReadHeaderTimeout).run accepted
      wakeInHeader).map (·.task.written) = some [7] by decide +kernel)
  obtain ⟨d, hd, -, hsame, -⟩ := h ConnectionHandler.echo 16 defaultReadHeaderTimeout accepted
    c' wakeInHeader fresh_accepted rfl (by simp [wakeInHeader]) hc'
  have hd' : ((machine ConnectionHandler.echo 16 defaultReadHeaderTimeout).run accepted
      (wakeInHeader.filter fun a => !a.isWatch)).map (·.task.written) = some [1] := by
    decide +kernel
  rw [hd, Option.map_some, hsame, hw] at hd'
  exact absurd hd' (by decide)

/-- Without the events the time for the header is up after sixty seconds. -/
def headerTooLate : List Act :=
  [.task (.setUp true), .tick (.fromSecs 50), .tick (.fromSecs 10), .task (.elapse 0), .task .turn]

/-- A wake-up before the first byte of a header postpones the end of `read_header`: the
request is handled, and the same schedule without the events is none. -/
theorem wakeUp_postpones_deadline :
    ∃ c' d, (machine ConnectionHandler.echo 16 defaultReadHeaderTimeout).run accepted
        wakeBeforeDeadline = some c' ∧
      c'.task.handled = [(1, [])] ∧
      ¬SameWithoutWatch ConnectionHandler.echo 16 defaultReadHeaderTimeout accepted c'
        wakeBeforeDeadline ∧
      (machine ConnectionHandler.echo 16 defaultReadHeaderTimeout).run accepted headerTooLate =
        some d ∧
      d.task.handled = [] ∧ (d.task.phase matches .ended _) = true := by
  obtain ⟨c', hc', hhandled⟩ := Option.map_eq_some_iff.mp
    (show ((machine ConnectionHandler.echo 16 defaultReadHeaderTimeout).run accepted
      wakeBeforeDeadline).map (·.task.handled) = some [(1, [])] by decide +kernel)
  obtain ⟨d, hd, hproj⟩ := Option.map_eq_some_iff.mp
    (show ((machine ConnectionHandler.echo 16 defaultReadHeaderTimeout).run accepted
      headerTooLate).map (fun d => (d.task.handled, d.task.phase matches .ended _)) =
        some ([], true) by decide +kernel)
  simp only [Prod.mk.injEq] at hproj
  refine ⟨c', d, hc', hhandled, ?_, hd, hproj.1, hproj.2⟩
  rintro ⟨d', hd', -⟩
  have hstuck : ((machine ConnectionHandler.echo 16 defaultReadHeaderTimeout).run accepted
      (wakeBeforeDeadline.filter fun a => !a.isWatch)).isNone = true := by decide +kernel
  rw [hd'] at hstuck
  cases hstuck

end TimedConnection

end Wagonet
