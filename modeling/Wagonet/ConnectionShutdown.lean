import Wagonet.ConnectionHandler

/-!
What the shutdown channel does to a connection.

The `changed` branch of the `select!` drops the future of `handle_next`
wherever it is suspended. That is harmless before the first byte of a request
was read; afterwards the bytes that the future has read are lost, and once the
command handler was entered its answer is lost.
-/

namespace Wagonet

open Library

namespace ConnectionHandler

variable {handler : CommandHandler} {maxBufferSize : Nat}

/-- While `handle_next` runs, its future is what remains of it after the operations
it has completed. -/
def Tracked (c : ConnectionHandler) : Prop :=
  match c.phase with
  | .serving t => ∃ s, (ProtocolHandler.handleNext s).Partial c.current t
  | _ => c.current = []

theorem tracked_of_fresh {c : ConnectionHandler} (h : Fresh c) : Tracked c := by
  obtain ⟨hphase | hphase, -, -, -, hcur⟩ := h <;> simp [Tracked, hphase, hcur]

theorem tracked_step {c c' : ConnectionHandler} {a : Act} (h : Tracked c)
    (hs : step handler maxBufferSize c a = some c') : Tracked c' := by
  unfold Tracked at h
  cases a with
  | deliver bytes => cases hs; exact h
  | close => cases hs; exact h
  | notify value => cases hs; exact h
  | dropSenders => cases hs; exact h
  | tlsAccepted r =>
      simp only [step] at hs
      split at hs
      · rename_i hphase
        rw [hphase] at h
        split at hs <;> cases hs <;> exact h
      · cases hs
  | setUp reserved =>
      simp only [step] at hs
      split at hs
      · rename_i hphase
        rw [hphase] at h
        split at hs
        · cases hs
          exact ⟨_, by rw [show _ = _ from h]; exact .refl⟩
        · cases hs
          exact h
      · cases hs
  | progress choice =>
      simp only [step] at hs
      split at hs
      · rename_i s o k hphase
        rw [hphase] at h
        obtain ⟨r, -, rfl⟩ := Option.map_eq_some_iff.mp hs
        obtain ⟨s₀, h⟩ := h
        have hnext := Task.Partial.step r h
        exact ⟨s₀, hnext⟩
      · cases hs
  | elapse i =>
      simp only [step] at hs
      split at hs
      · rename_i s ts o k hphase
        rw [hphase] at h
        split at hs
        · cases hs
          obtain ⟨s₀, h⟩ := h
          exact ⟨s₀, .step _ h⟩
        · cases hs
      · cases hs
  | turn =>
      simp only [step] at hs
      split at hs
      · rename_i s r hphase
        cases hs
        match r with
        | .ok true => exact ⟨s, .refl⟩
        | .ok false => rfl
        | .error _ => rfl
      · cases hs
  | wake =>
      simp only [step] at hs
      split at hs
      · split at hs
        · cases hs
          rfl
        · cases hs
      · cases hs
  | borrow =>
      simp only [step] at hs
      split at hs
      · rename_i s hphase
        rw [hphase] at h
        cases hs
        cases hv : c.shutdown.value with
        | true => simpa [Tracked, hv] using h
        | false =>
            simp only [Tracked]
            exact ⟨s, by rw [show c.current = [] from h]; exact .refl⟩
      · cases hs
  | abort =>
      simp only [step] at hs
      split at hs
      · rename_i hphase
        rw [hphase] at h
        cases hs
        exact h
      · split at hs
        · cases hs
          rfl
        · cases hs
      · cases hs

/-! ### Wake-ups that are not a shutdown -/

/-- The actions that have to do with the shutdown channel. -/
def Act.isWatch : Act → Bool
  | .notify _ => true
  | .dropSenders => true
  | .wake => true
  | .borrow => true
  | _ => false

/-- `true` is not sent, and the `changed` branch is taken only while the current
`handle_next` has completed no operation: it has not read a byte. -/
def BetweenRequests (c : ConnectionHandler) : Act → Prop
  | .notify value => value = false
  | .wake => c.current = []
  | _ => True

instance (c : ConnectionHandler) : ∀ a, Decidable (BetweenRequests c a)
  | .notify value => inferInstanceAs (Decidable (value = false))
  | .wake => decidable_of_iff (c.current.isEmpty = true) List.isEmpty_iff
  | .deliver _ | .close | .dropSenders | .tlsAccepted _ | .setUp _ | .progress _ | .elapse _
  | .turn | .borrow | .abort => .isTrue trivial

/-- Where the task goes on after a wake-up that is not a shutdown. -/
def Phase.settled : Phase → Phase
  | .woken s => .serving (ProtocolHandler.handleNext s)
  | phase => phase

/-- Two connections that only the shutdown channel tells apart. -/
structure Alike (c d : ConnectionHandler) : Prop where
  tracked : Tracked c
  value : c.shutdown.value = false
  inbox : c.inbox = d.inbox
  current : c.current = d.current
  past : c.past.flatMap (·.events) = d.past.flatMap (·.events)
  phase : d.phase = c.phase.settled

namespace Alike

variable {c d c' : ConnectionHandler} {a : Act}

theorem events (h : Alike c d) : c.events = d.events := by
  simp only [ConnectionHandler.events, h.current, h.past]

theorem answer (h : Alike c d) (o : (Net Handler).Op) (choice : IoChoice) :
    c.answer handler o choice = d.answer handler o choice := by
  match o, choice with
  | .wait _ _, _ => simp only [ConnectionHandler.answer, h.inbox]
  | .call (.enter _ _), .ready _ => rfl
  | .call (.enter _ _), .fail _ => rfl
  | .call .leave, .ready _ => simp only [ConnectionHandler.answer, handled, h.events]
  | .call .leave, .fail _ => rfl

/-- The awaited operation gets the same answer on both sides. -/
theorem advance (h : Alike c d) {s : FramedServer} {o : (Net Handler).Op}
    {k : (Net Handler).Reply o → Task (Net Handler) FramedServer (Except Error Bool)}
    (hphase : c.phase = .serving (.await s o k)) (r : (Net Handler).Reply o) :
    Alike (c.advance o k r) (d.advance o k r) where
  tracked := by
    have ht := h.tracked
    rw [Tracked, hphase] at ht
    obtain ⟨s₀, ht⟩ := ht
    have hnext := Task.Partial.step r ht
    exact ⟨s₀, hnext⟩
  value := h.value
  inbox := by simp only [ConnectionHandler.advance, h.inbox]
  current := by simp only [ConnectionHandler.advance, h.current]
  past := h.past
  phase := rfl

/-- The current `handle_next` ends on both sides. -/
theorem endCycle (h : Alike c d) (fate : Fate) {phase : Phase} (hp : phase.settled = phase)
    (ht : Tracked (c.endCycle fate phase)) :
    Alike (c.endCycle fate phase) (d.endCycle fate phase) where
  tracked := ht
  value := h.value
  inbox := h.inbox
  current := rfl
  past := by simp only [ConnectionHandler.endCycle, List.flatMap_append, h.past, h.current]
  phase := hp.symm

/-- What one side does without its shutdown channel, the other side can do as well. -/
theorem step_keep (h : Alike c d) (hk : a.isWatch = false)
    (hs : step handler maxBufferSize c a = some c') :
    ∃ d', step handler maxBufferSize d a = some d' ∧ Alike c' d' := by
  have ht := tracked_step h.tracked hs
  cases a with
  | deliver bytes =>
      cases hs
      exact ⟨_, rfl, ht, h.value, by rw [h.inbox], h.current, h.past, h.phase⟩
  | close =>
      cases hs
      exact ⟨_, rfl, ht, h.value, by rw [h.inbox], h.current, h.past, h.phase⟩
  | notify value => cases hk
  | dropSenders => cases hk
  | wake => cases hk
  | borrow => cases hk
  | tlsAccepted r =>
      simp only [step] at hs ⊢
      split at hs
      · rename_i hphase
        rw [h.phase, hphase]
        split at hs <;> cases hs <;>
          exact ⟨_, rfl, ht, h.value, h.inbox, h.current, h.past, rfl⟩
      · cases hs
  | setUp reserved =>
      simp only [step] at hs ⊢
      split at hs
      · rename_i hphase
        rw [h.phase, hphase]
        simp only [Phase.settled]
        split at hs <;> cases hs <;>
          exact ⟨_, rfl, ht, h.value, h.inbox, h.current, h.past, rfl⟩
      · cases hs
  | progress choice =>
      simp only [step] at hs ⊢
      split at hs
      · rename_i s o k hphase
        obtain ⟨r, hr, rfl⟩ := Option.map_eq_some_iff.mp hs
        rw [h.answer] at hr
        simp only [h.phase, hphase, Phase.settled, hr, Option.map_some]
        exact ⟨_, rfl, h.advance hphase r⟩
      · cases hs
  | elapse i =>
      simp only [step] at hs ⊢
      split at hs
      · rename_i s ts o k hphase
        rw [h.phase, hphase]
        split at hs
        · rename_i hi
          cases hs
          exact ⟨_, dif_pos hi, h.advance hphase _⟩
        · cases hs
      · cases hs
  | turn =>
      simp only [step] at hs ⊢
      split at hs
      · rename_i s r hphase
        rw [h.phase, hphase]
        cases hs
        refine ⟨_, rfl, h.endCycle _ ?_ ht⟩
        match r with
        | .ok true => rfl
        | .ok false => rfl
        | .error _ => rfl
      · cases hs
  | abort =>
      simp only [step] at hs ⊢
      split at hs
      · rename_i hphase
        rw [h.phase, hphase]
        cases hs
        exact ⟨_, rfl, ht, h.value, h.inbox, h.current, h.past, rfl⟩
      · rename_i s o k hphase
        rw [h.phase, hphase]
        split at hs
        · rename_i ho
          cases hs
          exact ⟨_, if_pos ho, h.endCycle _ rfl ht⟩
        · cases hs
      · cases hs

/-- A step on the shutdown channel between requests changes nothing else: the
`handle_next` started afterwards is the one that was dropped. -/
theorem step_watch (h : Alike c d) (hok : BetweenRequests c a) (hk : a.isWatch = true)
    (hs : step handler maxBufferSize c a = some c') : Alike c' d := by
  have ht := tracked_step h.tracked hs
  cases a with
  | notify value =>
      cases hs
      exact ⟨ht, hok, h.inbox, h.current, h.past, h.phase⟩
  | dropSenders =>
      cases hs
      exact ⟨ht, h.value, h.inbox, h.current, h.past, h.phase⟩
  | wake =>
      have hcur : c.current = [] := hok
      simp only [step] at hs
      split at hs
      · rename_i s o k hphase
        split at hs
        · cases hs
          have hfut := h.tracked
          rw [Tracked, hphase] at hfut
          obtain ⟨s₀, hfut⟩ := hfut
          rw [hcur, Task.partial_nil_iff] at hfut
          obtain ⟨k', hk'⟩ := ProtocolHandler.handleNext_await s₀
          have hleft : s = s₀.resizeBuffer RequestHeader.encodedLen := by
            rw [hk'] at hfut
            cases hfut
            rfl
          refine ⟨ht, h.value, h.inbox, hcur.symm.trans h.current, ?_, ?_⟩
          · simp only [ConnectionHandler.endCycle, List.flatMap_append, h.past, hcur,
              List.flatMap_cons, List.flatMap_nil, List.append_nil]
          · rw [h.phase, hphase, hfut]
            simp only [Phase.settled, ConnectionHandler.endCycle]
            rw [hleft, ProtocolHandler.handleNext_resizeBuffer]
        · cases hs
      · cases hs
  | borrow =>
      simp only [step] at hs
      split at hs
      · rename_i s hphase
        cases hs
        refine ⟨ht, h.value, h.inbox, h.current, h.past, ?_⟩
        rw [h.phase, hphase, h.value]
        rfl
      · cases hs
  | _ => cases hk

end Alike

theorem alike_of_fresh {c : ConnectionHandler} (h : Fresh c) (hv : c.shutdown.value = false) :
    Alike c c where
  tracked := tracked_of_fresh h
  value := hv
  inbox := rfl
  current := rfl
  past := rfl
  phase := by obtain ⟨hphase | hphase, -⟩ := h <;> rw [hphase] <;> rfl

/-- A plain connection that was just accepted by a server that runs. -/
def accepted : ConnectionHandler :=
  ⟨.setUp, {}, ⟨false, 0, false⟩, 0, [], []⟩

theorem fresh_accepted : Fresh accepted := ⟨.inr rfl, rfl, rfl, rfl, rfl⟩

/-- A command handler that sends every payload back. -/
def echo : CommandHandler := fun calls => .ok (.ok, (calls.getLast?.getD (0, [])).2)

/-! ### The shutdown signal -/

/-- The `changed` branch is taken only while the current `handle_next` has not entered
the command handler. -/
def BeforeHandler (c : ConnectionHandler) : Act → Prop
  | .wake => entered c.current = []
  | _ => True

instance (c : ConnectionHandler) : ∀ a, Decidable (BeforeHandler c a)
  | .wake => decidable_of_iff ((entered c.current).isEmpty = true) List.isEmpty_iff
  | .deliver _ | .close | .notify _ | .dropSenders | .tlsAccepted _ | .setUp _ | .progress _
  | .elapse _ | .turn | .borrow | .abort => .isTrue trivial

/-- If the command handler was entered, the whole response exchange has taken place,
unless an operation of the transport failed or the server has aborted the task. -/
def Cycle.Whole (y : Cycle) : Prop :=
  entered y.events = [] ∨ anyFailed y.events = true ∨ y.fate = .aborted ∨ Exchanged y.events

/-- No request whose handling has ended was cut in half, and when the task has ended,
so has the handling of every request. -/
structure NoRequestCut (c : ConnectionHandler) : Prop where
  whole : ∀ y ∈ c.past, y.Whole
  none_left : ∀ r, c.phase = .ended r → c.current = []

theorem whole_step {c c' : ConnectionHandler} {a : Act} (ht : Tracked c)
    (hw : ∀ y ∈ c.past, y.Whole) (hok : BeforeHandler c a)
    (hs : step handler maxBufferSize c a = some c') : ∀ y ∈ c'.past, y.Whole := by
  have hend : ∀ fate phase, Cycle.Whole ⟨c.current, fate⟩ →
      ∀ y ∈ (c.endCycle fate phase).past, y.Whole := by
    intro fate phase h y hy
    rcases List.mem_append.mp hy with hy | hy
    · exact hw y hy
    · rw [List.mem_singleton.mp hy]
      exact h
  cases a with
  | deliver bytes => cases hs; exact hw
  | close => cases hs; exact hw
  | notify value => cases hs; exact hw
  | dropSenders => cases hs; exact hw
  | tlsAccepted r =>
      simp only [step] at hs
      split at hs
      · split at hs <;> cases hs <;> exact hw
      · cases hs
  | setUp reserved =>
      simp only [step] at hs
      split at hs
      · split at hs <;> cases hs <;> exact hw
      · cases hs
  | progress choice =>
      simp only [step] at hs
      split at hs
      · obtain ⟨r, -, rfl⟩ := Option.map_eq_some_iff.mp hs
        exact hw
      · cases hs
  | elapse i =>
      simp only [step] at hs
      split at hs
      · split at hs
        · cases hs
          exact hw
        · cases hs
      · cases hs
  | turn =>
      simp only [step] at hs
      split at hs
      · rename_i s r hphase
        cases hs
        refine hend _ _ ?_
        -- the future has ended, so its operations make a complete run of the cycle
        rw [Tracked, hphase] at ht
        obtain ⟨s₀, ht⟩ := ht
        have hrun := ht.run .done
        rw [List.append_nil] at hrun
        exact (ProtocolHandler.handleNext_run hrun).imp_right (Or.imp_right .inr)
      · cases hs
  | wake =>
      simp only [step] at hs
      split at hs
      · rename_i s o k hphase
        split at hs
        · cases hs
          exact hend .dropped (.woken s) (.inl hok)
        · cases hs
      · cases hs
  | borrow =>
      simp only [step] at hs
      split at hs
      · cases hs
        exact hw
      · cases hs
  | abort =>
      simp only [step] at hs
      split at hs
      · cases hs
        exact hw
      · split at hs
        · cases hs
          exact hend .aborted .aborted (.inr (.inr (.inl rfl)))
        · cases hs
      · cases hs

/-- A shutdown that arrives before the command handler is entered, or waits for the
end of the cycle, cuts no request in half. -/
theorem shutdown_before_handler {c : ConnectionHandler}
    (h : (machine handler maxBufferSize).Reachable BeforeHandler c) : NoRequestCut c := by
  have hinv : Tracked c ∧ ∀ y ∈ c.past, y.Whole := by
    refine h.invariant (fun c => Tracked c ∧ ∀ y ∈ c.past, y.Whole) ?_ ?_
    · intro c hfresh
      refine ⟨tracked_of_fresh hfresh, ?_⟩
      rw [hfresh.2.2.2.1]
      exact nofun
    · intro c a c' hc hok hs
      exact ⟨tracked_step hc.1 hs, whole_step hc.1 hc.2 hok hs⟩
  refine ⟨hinv.2, fun r hphase => ?_⟩
  have ht := hinv.1
  rw [Tracked, hphase] at ht
  exact ht

/-- A request of command 1 that is answered, acknowledged and done with before the
shutdown signal is seen. -/
def shutdownAfterRequest : List Act :=
  [.setUp true, .deliver [0, 0, 0, 1, 0, 0, 0, 0], .progress (.ready 8), .progress (.ready 1),
    .progress (.ready 0), .progress (.ready 0), .progress (.ready 0), .progress (.ready 5),
    .progress (.ready 0), .deliver [1], .progress (.ready 1), .progress (.ready 0), .turn,
    .notify true, .wake, .borrow]

/-- The same request; the signal is seen while the command handler runs. -/
def shutdownInHandler : List Act :=
  [.setUp true, .deliver [0, 0, 0, 1, 0, 0, 0, 0], .progress (.ready 8), .progress (.ready 1),
    .progress (.ready 0), .progress (.ready 0), .notify true, .wake, .borrow]

theorem shutdown_before_handler_accepted :
    ∃ c, (machine echo 16).run accepted shutdownAfterRequest = some c ∧ c.handled = [(1, [])] ∧
      NoRequestCut c := by
  obtain ⟨c, hc, hhandled⟩ := Option.map_eq_some_iff.mp
    (show ((machine echo 16).run accepted shutdownAfterRequest).map handled = some [(1, [])] by
      decide +kernel)
  have hreach : (machine echo 16).Reachable BeforeHandler c :=
    Machine.Along.reachable (.init fresh_accepted) (by decide +kernel) hc
  exact ⟨c, hc, hhandled, shutdown_before_handler hreach⟩

theorem leave_mem_of_exchanged {es : List (Net Handler).Event} (h : Exchanged es) :
    (es.any fun e => e.op == .call .leave) = true := by
  obtain ⟨before, after, command, data, result, ack, rfl, -⟩ := h
  simp

/-- The command handler was entered, but the connection ends without a response. -/
theorem shutdown_in_handler_cuts :
    ¬∀ (handler : CommandHandler) (maxBufferSize : Nat) (c : ConnectionHandler),
      (machine handler maxBufferSize).Reachable Machine.anyStep c → NoRequestCut c := by
  intro h
  obtain ⟨c, hc, hpast⟩ := Option.map_eq_some_iff.mp
    (show ((machine echo 16).run accepted shutdownInHandler).map
      (fun c => c.past.map fun y => ((entered y.events).isEmpty, anyFailed y.events,
        y.fate matches .aborted, y.events.any fun e => e.op == .call .leave)) =
          some [(false, false, false, false)] by decide +kernel)
  have hreach : (machine echo 16).Reachable Machine.anyStep c :=
    Machine.Reachable.run (.init fresh_accepted) (fun _ _ _ => trivial) hc
  obtain ⟨y, hy, hproj⟩ := List.map_eq_singleton_iff.mp hpast
  simp only [Prod.mk.injEq] at hproj
  rcases (h echo 16 c hreach).whole y (by simp [hy]) with hy | hy | hy | hy
  · simp [hy] at hproj
  · simp [hy] at hproj
  · simp [hy] at hproj
  · simp [leave_mem_of_exchanged hy] at hproj

end ConnectionHandler

end Wagonet
