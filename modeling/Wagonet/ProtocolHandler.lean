import Wagonet.ServerTransport

/-!
One request-response cycle of the server, `ProtocolHandler::handle_next`.

The application's command handler is code outside the crate: it is entered
with a request and leaves with an answer, and may be suspended in between.
-/

namespace Wagonet

open Library

/-- What a command handler's `run` returns. -/
abbrev CommandResult := Except Error (ResponseStatus × List UInt8)

inductive HandlerOp
  | enter (command : UInt32) (data : List UInt8)
  | leave
  deriving DecidableEq

@[reducible] def HandlerOp.Reply : HandlerOp → Type
  | .enter _ _ => Unit
  | .leave => CommandResult

@[reducible] def Handler : Interface where
  Op := HandlerOp
  Reply := HandlerOp.Reply

namespace ProtocolHandler

/-- `command_handler.run(command, data)` -/
def runCommand (command : UInt32) (data : List UInt8) :
    Async (Net Handler) FramedServer Error CommandResult := do
  Async.call (C := Handler) (.enter command data)
  Async.call (C := Handler) .leave

def handleNext : Async (Net Handler) FramedServer Error Bool := do
  match ← FramedServer.readCommand with
  | none => pure true
  | some (command, dataSize) => do
      let data ← FramedServer.receiveData dataSize
      match ← runCommand command data with
      | .ok (status, responseData) => do
          FramedServer.sendData status.toU8 (some responseData)
          if status = .finish then pure false else pure true
      | .error _ => do
          let _ ← Async.attempt (FramedServer.sendData ResponseStatus.error.toU8 (some []))
          pure true

/-- A cycle begins by waiting for a request header. -/
theorem handleNext_await (s : FramedServer) :
    ∃ k, handleNext s = .await (s.resizeBuffer RequestHeader.encodedLen)
      (.wait [.readHeader] (.read RequestHeader.encodedLen)) k := by
  obtain ⟨k, hk⟩ := FramedServer.readCommand_await (C := Handler) s
  exact Async.bind_await hk _

/-- Dropping a cycle at its beginning and starting another one is starting one. -/
theorem handleNext_resizeBuffer (s : FramedServer) :
    handleNext (s.resizeBuffer RequestHeader.encodedLen) = handleNext s := by
  simp only [handleNext, Async.bind_apply (m := FramedServer.readCommand),
    FramedServer.readCommand_resizeBuffer]

end ProtocolHandler

/-- The requests a run has handed to the command handler. -/
def entered (es : List (Net Handler).Event) : List (UInt32 × List UInt8) :=
  es.filterMap fun e =>
    match e.op with
    | .call (.enter command data) => some (command, data)
    | _ => none

@[simp] theorem entered_nil : entered [] = [] := rfl

@[simp] theorem entered_append (es es' : List (Net Handler).Event) :
    entered (es ++ es') = entered es ++ entered es' := List.filterMap_append

/-- Code that only awaits operations of the stream enters no command handler. -/
theorem entered_of_awaits {es : List (Net Handler).Event} (h : ∀ e ∈ es, Async.Awaits e.op) :
    entered es = [] := by
  refine List.filterMap_eq_nil_iff.mpr fun e he => ?_
  have hop := h e he
  match hcase : e.op with
  | .wait _ _ => rfl
  | .call _ =>
      rw [hcase] at hop
      exact hop.elim

/-- The status and the payload sent for what the command handler has returned. -/
def responseOf : CommandResult → UInt8 × List UInt8
  | .ok (status, data) => (status.toU8, data)
  | .error _ => (ResponseStatus.error.toU8, [])

/-- The command handler was run, and after it the response exchange took place: header,
the client's answer to it, and the payload if that answer is an acknowledgement. -/
def Exchanged (es : List (Net Handler).Event) : Prop :=
  ∃ (before after : List (Net Handler).Event) (command : UInt32) (data : List UInt8)
      (result : CommandResult) (ack : UInt8),
    es = before ++ ⟨.call (.enter command data), ()⟩ :: ⟨.call .leave, result⟩ :: after ∧
      received after = [ack] ∧
      sent after =
        ResponseHeader.encode
          ⟨(responseOf result).1, FramedServer.dataSizeOf (some (responseOf result).2)⟩ false ++
        if ack = 1 then (responseOf result).2 else []

namespace ProtocolHandler

theorem runCommand_run {command : UInt32} {data : List UInt8} {s s' : FramedServer}
    {es : List (Net Handler).Event} {r : Except Error CommandResult}
    (h : (runCommand command data s).Run es s' r) :
    ∃ result, es = [⟨.call (.enter command data), ()⟩, ⟨.call .leave, result⟩] ∧
      r = .ok result := by
  rcases Async.run_bind_iff.mp h with ⟨e, -, h₁⟩ | ⟨es₁, es₂, s₁, u, rfl, h₁, h₂⟩
  · obtain ⟨_, -, -, hr⟩ := Async.call_run_iff.mp h₁
    cases hr
  · obtain ⟨_, rfl, -, -⟩ := Async.call_run_iff.mp h₁
    obtain ⟨result, rfl, -, rfl⟩ := Async.call_run_iff.mp h₂
    exact ⟨result, rfl, rfl⟩

/-- A complete cycle that has entered the command handler has exchanged its response,
unless an operation of the transport failed. -/
theorem handleNext_run {s s' : FramedServer} {es : List (Net Handler).Event}
    {r : Except Error Bool} (h : (handleNext s).Run es s' r) :
    entered es = [] ∨ anyFailed es = true ∨ Exchanged es := by
  rcases Async.run_bind_iff.mp h with ⟨e, rfl, h₁⟩ | ⟨es₁, es₂, s₁, command, rfl, h₁, h₂⟩
  · exact .inl (entered_of_awaits ((FramedServer.awaits_readCommand s).run h₁))
  have hnone := entered_of_awaits ((FramedServer.awaits_readCommand s).run h₁)
  match command with
  | none =>
      obtain ⟨rfl, -, -⟩ := Task.run_done_iff.mp h₂
      exact .inl (by simp [hnone])
  | some (command, dataSize) =>
  rcases Async.run_bind_iff.mp h₂ with ⟨e, rfl, h₃⟩ | ⟨es₃, es₄, s₂, data, rfl, h₃, h₄⟩
  · have hnone' := entered_of_awaits ((FramedServer.awaits_receiveData s₁).run h₃)
    exact .inl (by simp [hnone, hnone'])
  rcases Async.run_bind_iff.mp h₄ with ⟨e, rfl, h₅⟩ | ⟨es₅, es₆, s₃, result, rfl, h₅, h₆⟩
  · obtain ⟨_, -, hr⟩ := runCommand_run h₅
    cases hr
  obtain ⟨_, rfl, hr⟩ := runCommand_run h₅
  cases hr
  have hsend : ∃ s₄ r₁, (FramedServer.sendData (responseOf result).1
      (some (responseOf result).2) s₃).Run es₆ s₄ r₁ := by
    match result with
    | .ok (status, responseData) =>
        rcases Async.run_bind_iff.mp h₆ with ⟨e, -, h₇⟩ | ⟨es₇, es₈, s₄, u, rfl, h₇, h₈⟩
        · exact ⟨_, _, h₇⟩
        · split at h₈ <;> obtain ⟨rfl, -, -⟩ := Task.run_done_iff.mp h₈ <;>
            exact ⟨_, _, by rwa [List.append_nil]⟩
    | .error _ =>
        rcases Async.run_bind_iff.mp h₆ with ⟨e, -, h₇⟩ | ⟨es₇, es₈, s₄, u, rfl, h₇, h₈⟩
        · obtain ⟨r₁, -, h₇⟩ := Async.attempt_run_iff.mp h₇
          exact ⟨_, _, h₇⟩
        · obtain ⟨r₁, -, h₇⟩ := Async.attempt_run_iff.mp h₇
          obtain ⟨rfl, -, -⟩ := Task.run_done_iff.mp h₈
          exact ⟨_, _, by rwa [List.append_nil]⟩
  obtain ⟨s₄, r₁, hsend⟩ := hsend
  rcases FramedServer.sendData_run hsend with hbad | ⟨ack, hrec, hsent⟩
  · exact .inr (.inl (by simp [hbad]))
  · exact .inr (.inr ⟨es₁ ++ es₃, es₆, command, data, result, ack, by simp, hrec, hsent⟩)

end ProtocolHandler

end Wagonet
