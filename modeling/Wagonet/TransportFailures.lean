import Wagonet.ConnectionShutdown

/-!
What `handle_next` makes of a failing transport.

`ProtocolHandler` knows its transport by three functions that may fail, and the command
handler by one. `handleNextCalls` is `handle_next` over these four; a run over a stream
is one of them in which each call is carried out by the transport. An error of the
transport is returned, except where the reply to a failed command handler is sent: its
result is thrown away.
-/

namespace Wagonet

open Library

namespace ProtocolHandler

/-- The functions that `handle_next` calls. -/
inductive ProtocolCall
  | readCommand
  | receiveData (size : Nat)
  | run (command : UInt32) (data : List UInt8)
  | sendResponse (status : UInt8) (buf : Option (List UInt8))

@[reducible] def ProtocolCall.Reply : ProtocolCall → Type
  | .readCommand => Except Error (Option (UInt32 × Nat))
  | .receiveData _ => Except Error (List UInt8)
  | .run _ _ => CommandResult
  | .sendResponse _ _ => Except Error Unit

@[reducible] def ProtocolCalls : Interface where
  Op := ProtocolCall
  Reply := ProtocolCall.Reply

def callTo (c : ProtocolCall) : Async ProtocolCalls Unit Error c.Reply :=
  fun s => .await s c fun r => .done s (.ok r)

/-- `handle_next` over the transport and the command handler it was given. -/
def handleNextCalls : Async ProtocolCalls Unit Error Bool := do
  let info ← callTo .readCommand
  match ← Async.ofExcept info with
  | none => pure true
  | some (command, dataSize) => do
      let data ← callTo (.receiveData dataSize)
      let data ← Async.ofExcept data
      match ← callTo (.run command data) with
      | .ok (status, responseData) => do
          let sent ← callTo (.sendResponse status.toU8 (some responseData))
          Async.ofExcept sent
          if status = .finish then pure false else pure true
      | .error _ => do
          let _ ← callTo (.sendResponse ResponseStatus.error.toU8 (some []))
          pure true

/-- The calls are carried out one after the other by this transport, and by a command
handler. -/
inductive Carried :
    FramedServer → List ProtocolCalls.Event → List (Net Handler).Event → FramedServer → Prop
  | nil {s : FramedServer} : Carried s [] [] s
  | readCommand {s s₁ s' : FramedServer} {es es' : List (Net Handler).Event}
      {r : Except Error (Option (UInt32 × Nat))} {cs : List ProtocolCalls.Event} :
      (FramedServer.readCommand s).Run es s₁ r → Carried s₁ cs es' s' →
        Carried s (⟨.readCommand, r⟩ :: cs) (es ++ es') s'
  | receiveData {s s₁ s' : FramedServer} {es es' : List (Net Handler).Event} {size : Nat}
      {r : Except Error (List UInt8)} {cs : List ProtocolCalls.Event} :
      (FramedServer.receiveData size s).Run es s₁ r → Carried s₁ cs es' s' →
        Carried s (⟨.receiveData size, r⟩ :: cs) (es ++ es') s'
  | run {s s₁ s' : FramedServer} {es es' : List (Net Handler).Event} {command : UInt32}
      {data : List UInt8} {r : CommandResult} {cs : List ProtocolCalls.Event} :
      (runCommand command data s).Run es s₁ (.ok r) → Carried s₁ cs es' s' →
        Carried s (⟨.run command data, r⟩ :: cs) (es ++ es') s'
  | sendResponse {s s₁ s' : FramedServer} {es es' : List (Net Handler).Event} {status : UInt8}
      {buf : Option (List UInt8)} {r : Except Error Unit} {cs : List ProtocolCalls.Event} :
      (FramedServer.sendData status buf s).Run es s₁ r → Carried s₁ cs es' s' →
        Carried s (⟨.sendResponse status buf, r⟩ :: cs) (es ++ es') s'

/-- These are the calls of this run of `handle_next`. -/
structure CallsOf (s : FramedServer) (es : List (Net Handler).Event) (s' : FramedServer)
    (r : Except Error Bool) (cs : List ProtocolCalls.Event) : Prop where
  carried : Carried s cs es s'
  run : (handleNextCalls ()).Run cs () r

/-- A call of the transport has returned an error. -/
def TransportFailed (c : ProtocolCalls.Event) : Prop :=
  match c with
  | ⟨.readCommand, .error _⟩ => True
  | ⟨.receiveData _, .error _⟩ => True
  | ⟨.sendResponse _ _, .error _⟩ => True
  | _ => False

/-- No failure of the transport is taken for a healthy session. -/
def Reported (cs : List ProtocolCalls.Event) (r : Except Error Bool) : Prop :=
  (∃ c ∈ cs, TransportFailed c) → ∃ e, r = .error e

def HandlerFailed (c : ProtocolCalls.Event) : Prop :=
  match c with
  | ⟨.run _ _, .error _⟩ => True
  | _ => False

def ReplyFailed (c : ProtocolCalls.Event) : Prop :=
  match c with
  | ⟨.sendResponse _ _, .error _⟩ => True
  | _ => False

/-- The command handler has failed, and the reply that says so could not be sent. -/
def Swallowed (cs : List ProtocolCalls.Event) : Prop :=
  (∃ c ∈ cs, HandlerFailed c) ∧ ∃ c ∈ cs, ReplyFailed c

/-! ### The calls of a run -/

theorem callTo_bind_run {α : Type} {c : ProtocolCall}
    {f : c.Reply → Async ProtocolCalls Unit Error α} {cs : List ProtocolCalls.Event}
    {r : Except Error α} :
    ((callTo c >>= f) ()).Run cs () r ↔ ∃ reply cs', cs = ⟨c, reply⟩ :: cs' ∧
      (f reply ()).Run cs' () r := Task.run_await_iff

/-- Every run of `handle_next` is one of `handleNextCalls`, carried out by the transport. -/
theorem exists_callsOf {s s' : FramedServer} {es : List (Net Handler).Event}
    {r : Except Error Bool} (h : (handleNext s).Run es s' r) : ∃ cs, CallsOf s es s' r cs := by
  rcases Async.run_bind_iff.mp h with ⟨e, rfl, h₁⟩ | ⟨es₁, es₂, s₁, info, rfl, h₁, h₂⟩
  · exact ⟨[⟨.readCommand, .error e⟩], List.append_nil es ▸ .readCommand h₁ .nil, .await .done⟩
  match info with
  | none =>
      obtain ⟨rfl, rfl, rfl⟩ := Task.run_done_iff.mp h₂
      exact ⟨[⟨.readCommand, .ok none⟩], .readCommand h₁ .nil, .await .done⟩
  | some (command, dataSize) =>
  rcases Async.run_bind_iff.mp h₂ with ⟨e, rfl, h₃⟩ | ⟨es₃, es₄, s₂, data, rfl, h₃, h₄⟩
  · refine ⟨[⟨.readCommand, .ok (some (command, dataSize))⟩, ⟨.receiveData dataSize, .error e⟩],
      .readCommand h₁ (List.append_nil es₂ ▸ .receiveData h₃ .nil), .await (.await .done)⟩
  rcases Async.run_bind_iff.mp h₄ with ⟨e, rfl, h₅⟩ | ⟨es₅, es₆, s₃, result, rfl, h₅, h₆⟩
  · obtain ⟨_, -, hr⟩ := runCommand_run h₅
    cases hr
  -- what was called up to the reply, which is the last call
  have carried {status : UInt8} {buf : Option (List UInt8)} {sent : Except Error Unit}
      (hsend : (FramedServer.sendData status buf s₃).Run es₆ s' sent) :
      Carried s [⟨.readCommand, .ok (some (command, dataSize))⟩,
        ⟨.receiveData dataSize, .ok data⟩, ⟨.run command data, result⟩,
        ⟨.sendResponse status buf, sent⟩] (es₁ ++ (es₃ ++ (es₅ ++ es₆))) s' := by
    rw [← List.append_nil es₆]
    exact .readCommand h₁ (.receiveData h₃ (.run h₅ (.sendResponse hsend .nil)))
  match result with
  | .ok (status, responseData) =>
      rcases Async.run_bind_iff.mp h₆ with ⟨e, rfl, h₇⟩ | ⟨es₇, es₈, s₄, u, rfl, h₇, h₈⟩
      · exact ⟨_, carried h₇, .await (.await (.await (.await .done)))⟩
      · have finished : es₈ = [] ∧ s' = s₄ ∧
            ((do if status = .finish then pure false else pure true :
              Async ProtocolCalls Unit Error Bool) ()).Run [] () r := by
          split at h₈
          · rename_i hfinish
            obtain ⟨rfl, rfl, rfl⟩ := Task.run_done_iff.mp h₈
            exact ⟨rfl, rfl, by rw [if_pos hfinish]; exact .done⟩
          · rename_i hfinish
            obtain ⟨rfl, rfl, rfl⟩ := Task.run_done_iff.mp h₈
            exact ⟨rfl, rfl, by rw [if_neg hfinish]; exact .done⟩
        obtain ⟨rfl, rfl, hdone⟩ := finished
        rw [List.append_nil] at carried ⊢
        exact ⟨_, carried h₇, .await (.await (.await (.await hdone)))⟩
  | .error e =>
      rcases Async.run_bind_iff.mp h₆ with ⟨e', -, h₇⟩ | ⟨es₇, es₈, s₄, sent, rfl, h₇, h₈⟩
      · obtain ⟨r₁, hr, -⟩ := Async.attempt_run_iff.mp h₇
        cases hr
      · obtain ⟨r₁, -, h₇⟩ := Async.attempt_run_iff.mp h₇
        obtain ⟨rfl, rfl, rfl⟩ := Task.run_done_iff.mp h₈
        rw [List.append_nil] at carried ⊢
        exact ⟨_, carried h₇, .await (.await (.await (.await .done)))⟩

/-- And calls that are carried out so make a run of `handle_next`. -/
theorem CallsOf.handleNext_run {s s' : FramedServer} {es : List (Net Handler).Event}
    {r : Except Error Bool} {cs : List ProtocolCalls.Event} (h : CallsOf s es s' r cs) :
    (handleNext s).Run es s' r := by
  obtain ⟨hcarried, hrun⟩ := h
  obtain ⟨info, cs₁, rfl, h₁⟩ := callTo_bind_run.mp hrun
  obtain _ | ⟨hread, hcarried⟩ := hcarried
  match info with
  | .error e =>
      obtain ⟨rfl, -, rfl⟩ := Task.run_done_iff.mp h₁
      cases hcarried
      exact Async.run_bind_iff.mpr (.inl ⟨e, rfl, by rwa [List.append_nil]⟩)
  | .ok none =>
      obtain ⟨rfl, -, rfl⟩ := Task.run_done_iff.mp h₁
      cases hcarried
      exact Async.run_bind hread .done
  | .ok (some (command, dataSize)) =>
  obtain ⟨data, cs₂, rfl, h₂⟩ := callTo_bind_run.mp h₁
  obtain _ | _ | ⟨hreceive, hcarried⟩ := hcarried
  refine Async.run_bind hread ?_
  match data with
  | .error e =>
      obtain ⟨rfl, -, rfl⟩ := Task.run_done_iff.mp h₂
      cases hcarried
      exact Async.run_bind_iff.mpr (.inl ⟨e, rfl, by rwa [List.append_nil]⟩)
  | .ok data =>
  obtain ⟨result, cs₃, rfl, h₃⟩ := callTo_bind_run.mp h₂
  obtain _ | _ | _ | ⟨hhandled, hcarried⟩ := hcarried
  refine Async.run_bind hreceive (Async.run_bind hhandled ?_)
  match result with
  | .ok (status, responseData) =>
      obtain ⟨sent, cs₄, rfl, h₄⟩ := callTo_bind_run.mp h₃
      obtain _ | _ | _ | _ | ⟨hsend, hcarried⟩ := hcarried
      match sent with
      | .error e =>
          obtain ⟨rfl, -, rfl⟩ := Task.run_done_iff.mp h₄
          cases hcarried
          exact Async.run_bind_iff.mpr (.inl ⟨e, rfl, by rwa [List.append_nil]⟩)
      | .ok () =>
          refine Async.run_bind hsend ?_
          rw [Async.ofExcept_ok_bind_apply] at h₄
          split at h₄
          · rename_i hfinish
            obtain ⟨rfl, -, rfl⟩ := Task.run_done_iff.mp h₄
            cases hcarried
            rw [if_pos hfinish]
            exact .done
          · rename_i hfinish
            obtain ⟨rfl, -, rfl⟩ := Task.run_done_iff.mp h₄
            cases hcarried
            rw [if_neg hfinish]
            exact .done
  | .error e =>
      obtain ⟨sent, cs₄, rfl, h₄⟩ := callTo_bind_run.mp h₃
      obtain _ | _ | _ | _ | ⟨hsend, hcarried⟩ := hcarried
      obtain ⟨rfl, -, rfl⟩ := Task.run_done_iff.mp h₄
      cases hcarried
      exact Async.run_bind (Async.attempt_run_iff.mpr ⟨sent, rfl, hsend⟩) .done

/-! ### Failures -/

/-- A failure of the transport is reported if and only if it was not that of the reply to
a failed command handler. -/
theorem reported_iff {cs : List ProtocolCalls.Event} {r : Except Error Bool}
    (h : (handleNextCalls ()).Run cs () r) : Reported cs r ↔ ¬Swallowed cs := by
  obtain ⟨info, cs₁, rfl, h₁⟩ := callTo_bind_run.mp h
  match info with
  | .error e =>
      obtain ⟨rfl, -, rfl⟩ := Task.run_done_iff.mp h₁
      simp [Reported, Swallowed, HandlerFailed]
  | .ok none =>
      obtain ⟨rfl, -, rfl⟩ := Task.run_done_iff.mp h₁
      simp [Reported, Swallowed, HandlerFailed, TransportFailed]
  | .ok (some (command, dataSize)) =>
  obtain ⟨data, cs₂, rfl, h₂⟩ := callTo_bind_run.mp h₁
  match data with
  | .error e =>
      obtain ⟨rfl, -, rfl⟩ := Task.run_done_iff.mp h₂
      simp [Reported, Swallowed, HandlerFailed]
  | .ok data =>
  obtain ⟨result, cs₃, rfl, h₃⟩ := callTo_bind_run.mp h₂
  match result with
  | .ok (status, responseData) =>
      -- the error of this reply is returned
      obtain ⟨sent, cs₄, rfl, h₄⟩ := callTo_bind_run.mp h₃
      match sent with
      | .error e =>
          obtain ⟨rfl, -, rfl⟩ := Task.run_done_iff.mp h₄
          simp [Reported, Swallowed, HandlerFailed]
      | .ok () =>
          obtain rfl : cs₄ = [] := by
            rw [Async.ofExcept_ok_bind_apply] at h₄
            split at h₄ <;> exact (Task.run_done_iff.mp h₄).1
          simp [Reported, Swallowed, HandlerFailed, TransportFailed]
  | .error e =>
      -- the error of this one is not
      obtain ⟨sent, cs₄, rfl, h₄⟩ := callTo_bind_run.mp h₃
      obtain ⟨rfl, -, rfl⟩ := Task.run_done_iff.mp h₄
      match sent with
      | .error e' => simp [Reported, Swallowed, HandlerFailed, ReplyFailed, TransportFailed]
      | .ok () => simp [Reported, Swallowed, HandlerFailed, ReplyFailed, TransportFailed]

end ProtocolHandler

/-! ### Two cycles -/

namespace ProtocolHandler

/-- The calls of a cycle that reads a request of command 1 without payload and runs the
command handler, up to its reply. -/
def requestCalls (data : List UInt8) (result : CommandResult) : List ProtocolCalls.Event :=
  [⟨.readCommand, .ok (some (1, 0))⟩, ⟨.receiveData 0, .ok data⟩, ⟨.run 1 data, result⟩]

/-- Whatever the command handler returns and the client answers to the reply, there is a
cycle in which it does. -/
theorem exists_cycle (result : CommandResult) (status : UInt8) (buf : List UInt8) (ack : UInt8) :
    ∃ es s' data, Carried .new (requestCalls data result ++ [⟨.sendResponse status (some buf),
      if ack = 1 then .ok () else .error (.msg "Receiving response status is not OK")⟩]) es s' := by
  obtain ⟨es₁, s₁, h₁⟩ := FramedServer.readCommand_succeeds (C := Handler) (s := .new)
    ⟨1, 0⟩ (by decide) (Nat.zero_le _)
  have hdata : ∃ s₂ data, (FramedServer.receiveData 0 s₁ : Task (Net Handler) _ _).Run [] s₂
      (.ok data) := by
    rw [FramedServer.receiveData, Async.get_bind_apply, if_neg (Nat.not_lt_zero _),
      Async.modify_bind_apply]
    exact ⟨_, _, .done⟩
  obtain ⟨s₂, data, h₂⟩ := hdata
  have hhandled : (runCommand 1 data s₂).Run
      [⟨.call (.enter 1 data), ()⟩, ⟨.call .leave, result⟩] s₂ (.ok result) :=
    .await (.await .done)
  obtain ⟨es₃, s₃, h₃, -, -⟩ := FramedServer.sendData_answered (C := Handler) status buf ack s₂
  exact ⟨_, s₃, data, .readCommand h₁ (.receiveData h₂ (.run hhandled (.sendResponse h₃ .nil)))⟩

/-- The command handler has failed and the client does not acknowledge the reply: the
cycle ends as if nothing was wrong. -/
theorem reply_failure_swallowed :
    ∃ es s' cs, CallsOf .new es s' (.ok true) cs ∧ (handleNext .new).Run es s' (.ok true) ∧
      ¬Reported cs (.ok true) := by
  obtain ⟨es, s', data, hcarried⟩ := exists_cycle (.error (.msg "failed"))
    ResponseStatus.error.toU8 [] 5
  have hcalls : CallsOf .new es s' (.ok true) _ :=
    ⟨hcarried, .await (.await (.await (.await .done)))⟩
  refine ⟨es, s', _, hcalls, hcalls.handleNext_run, fun h => ?_⟩
  obtain ⟨e, he⟩ := h ⟨_, List.mem_append_right _ (List.mem_singleton_self _), trivial⟩
  cases he

end ProtocolHandler

/-! ### The connection after a failure -/

namespace ConnectionHandler

open ProtocolHandler

variable {handler : CommandHandler} {maxBufferSize : Nat}

/-- If the cycle has returned, it was to be followed by another one. -/
def Cycle.Healthy (y : Cycle) : Prop := ∀ r, y.fate = .returned r → r = .ok true

/-- What a step does to the cycles that have ended: nothing, or the current one ends, and
with it the task, unless it is healthy. -/
theorem past_step {c c' : ConnectionHandler} {a : Act}
    (hs : step handler maxBufferSize c a = some c') :
    (c'.past = c.past ∧ ∀ r, c.phase = .ended r → c'.phase = .ended r) ∨
      ∃ t y, c.phase = .serving t ∧ c'.past = c.past ++ [y] ∧ y.events = c.current ∧
        (∀ r, y.fate = .returned r → ∃ s, t = .done s r) ∧
          (y.Healthy ∨ c'.phase = .ended (.ok ())) := by
  cases a with
  | deliver bytes => cases hs; exact .inl ⟨rfl, fun _ h => h⟩
  | close => cases hs; exact .inl ⟨rfl, fun _ h => h⟩
  | notify value => cases hs; exact .inl ⟨rfl, fun _ h => h⟩
  | dropSenders => cases hs; exact .inl ⟨rfl, fun _ h => h⟩
  | tlsAccepted r =>
      simp only [step] at hs
      split at hs
      · rename_i hphase
        split at hs <;> cases hs <;> exact .inl ⟨rfl, by simp [hphase]⟩
      · cases hs
  | setUp reserved =>
      simp only [step] at hs
      split at hs
      · rename_i hphase
        split at hs <;> cases hs <;> exact .inl ⟨rfl, by simp [hphase]⟩
      · cases hs
  | progress choice =>
      simp only [step] at hs
      split at hs
      · rename_i hphase
        obtain ⟨r, -, rfl⟩ := Option.map_eq_some_iff.mp hs
        exact .inl ⟨rfl, by simp [hphase]⟩
      · cases hs
  | elapse i =>
      simp only [step] at hs
      split at hs
      · rename_i hphase
        split at hs
        · cases hs
          exact .inl ⟨rfl, by simp [hphase]⟩
        · cases hs
      · cases hs
  | turn =>
      simp only [step] at hs
      split at hs
      · rename_i s r hphase
        cases hs
        refine .inr ⟨_, _, hphase, rfl, rfl, ?_, ?_⟩
        · rintro r' ⟨⟩
          exact ⟨s, rfl⟩
        · rcases r with e | goesOn
          · exact .inr rfl
          · cases goesOn with
            | true =>
                left
                rintro r' ⟨⟩
                rfl
            | false => exact .inr rfl
      · cases hs
  | wake =>
      simp only [step] at hs
      split at hs
      · rename_i hphase
        split at hs
        · cases hs
          exact .inr ⟨_, _, hphase, rfl, rfl, by simp, .inl (by rintro _ ⟨⟩)⟩
        · cases hs
      · cases hs
  | borrow =>
      simp only [step] at hs
      split at hs
      · rename_i hphase
        cases hs
        exact .inl ⟨rfl, by simp [hphase]⟩
      · cases hs
  | abort =>
      simp only [step] at hs
      split at hs
      · rename_i hphase
        cases hs
        exact .inl ⟨rfl, by simp [hphase]⟩
      · rename_i hphase
        split at hs
        · cases hs
          exact .inr ⟨_, _, hphase, rfl, rfl, by simp, .inl (by rintro _ ⟨⟩)⟩
        · cases hs
      · cases hs

/-- The cycles that have ended are runs of `handle_next`, and only the last one need not
be healthy; after such a one the task has ended. -/
structure Cycled (c : ConnectionHandler) : Prop where
  tracked : Tracked c
  runs : ∀ y ∈ c.past, ∀ r, y.fate = .returned r →
    ∃ s s', (handleNext s).Run y.events s' r
  healthy : ∀ y ∈ c.past.dropLast, y.Healthy
  last : (∀ r, c.phase ≠ .ended r) → ∀ y ∈ c.past, y.Healthy

theorem cycled_of_reachable {c : ConnectionHandler}
    (h : (machine handler maxBufferSize).Reachable Machine.anyStep c) : Cycled c := by
  refine h.invariant Cycled (fun c hfresh => ?_) fun c a c' hc _ hs => ?_
  · have hpast : c.past = [] := hfresh.2.2.2.1
    refine ⟨tracked_of_fresh hfresh, ?_, ?_, ?_⟩ <;> rw [hpast] <;> nofun
  · obtain ⟨htracked, hruns, hhealthy, hlast⟩ := hc
    rcases past_step hs with ⟨hpast, hended⟩ | ⟨t, y, hphase, hpast, hevents, hfate, hy⟩
    · refine ⟨tracked_step htracked hs, by rwa [hpast], by rwa [hpast], fun hgoes => ?_⟩
      rw [hpast]
      exact hlast fun r hr => hgoes r (hended r hr)
    · have hall := hlast (by rw [hphase]; nofun)
      refine ⟨tracked_step htracked hs, fun x hx r hr => ?_, ?_, fun hgoes x hx => ?_⟩
      · rw [hpast] at hx
        rcases List.mem_append.mp hx with hx | hx
        · exact hruns x hx r hr
        · obtain rfl := List.mem_singleton.mp hx
          obtain ⟨s', rfl⟩ := hfate r hr
          rw [Tracked, hphase] at htracked
          obtain ⟨s, hpartial⟩ := htracked
          have hrun := hpartial.run .done
          rw [List.append_nil, ← hevents] at hrun
          exact ⟨s, s', hrun⟩
      · rw [hpast, List.dropLast_concat]
        exact hall
      · rw [hpast] at hx
        rcases List.mem_append.mp hx with hx | hx
        · exact hall x hx
        · obtain rfl := List.mem_singleton.mp hx
          exact hy.resolve_right (hgoes _)

/-- A cycle that has returned otherwise is the last one. -/
theorem last_of_unhealthy {c : ConnectionHandler} {before after : List Cycle} {y : Cycle}
    (h : Cycled c) (hpast : c.past = before ++ y :: after) (hy : ¬y.Healthy) :
    after = [] ∧ c.current = [] ∧ ∃ r, c.phase = .ended r := by
  have hafter : after = [] := by
    by_contra hne
    refine hy (h.healthy y ?_)
    rw [hpast, List.dropLast_append_of_ne_nil (by simp), List.dropLast_cons_of_ne_nil hne]
    simp
  have hended : ∃ r, c.phase = .ended r := by
    by_contra hgoes
    exact hy (h.last (fun r hr => hgoes ⟨r, hr⟩) y (by simp [hpast]))
  obtain ⟨r, hphase⟩ := hended
  have htracked := h.tracked
  rw [Tracked, hphase] at htracked
  exact ⟨hafter, htracked, r, hphase⟩

/-- Each cycle is made of calls to the transport and the command handler. A failure of
the transport makes the cycle fail, if and only if it is not that of the reply to a failed
command handler; and after a cycle that has failed so the connection reads no more. -/
theorem transport_failure_ends (s s' : FramedServer) (es : List (Net Handler).Event)
    (r : Except Error Bool) :
    ((handleNext s).Run es s' r → ∃ cs, CallsOf s es s' r cs) ∧
    (∀ cs, CallsOf s es s' r cs → (Reported cs r ↔ ¬Swallowed cs)) ∧
    ∀ (handler : CommandHandler) (maxBufferSize : Nat) (c : ConnectionHandler),
      (machine handler maxBufferSize).Reachable Machine.anyStep c →
        ∀ before y after r, c.past = before ++ y :: after → y.fate = .returned r →
          (∃ s s' cs, CallsOf s y.events s' r cs) ∧
          ∀ s s' cs, CallsOf s y.events s' r cs → (∃ e ∈ cs, TransportFailed e) →
            ¬Swallowed cs → after = [] ∧ c.current = [] ∧ ∃ r, c.phase = .ended r := by
  refine ⟨exists_callsOf, fun cs h => reported_iff h.run, ?_⟩
  intro handler maxBufferSize c h before y after r hpast hfate
  have hcycled := cycled_of_reachable h
  obtain ⟨s, s', hrun⟩ := hcycled.runs y (by simp [hpast]) r hfate
  obtain ⟨cs, hcalls⟩ := exists_callsOf hrun
  refine ⟨⟨s, s', cs, hcalls⟩, fun s s' cs hcalls hfailed hkept => ?_⟩
  obtain ⟨e, rfl⟩ := (reported_iff hcalls.run).mpr hkept hfailed
  exact last_of_unhealthy hcycled hpast fun hy => nomatch hy _ hfate

/-- A reply that the client does not acknowledge. -/
theorem transport_failure_ends_unacknowledged :
    ∃ es s' cs e, CallsOf .new es s' (.error e) cs ∧ (Reported cs (.error e) ↔ ¬Swallowed cs) := by
  obtain ⟨es, s', data, hcarried⟩ := exists_cycle (.ok (.ok, [7])) 1 [7] 5
  have hcalls : CallsOf .new es s' (.error _) _ :=
    ⟨hcarried, .await (.await (.await (.await .done)))⟩
  exact ⟨es, s', _, _, hcalls, (transport_failure_ends _ _ _ _).2.1 _ hcalls⟩

end ConnectionHandler

end Wagonet
