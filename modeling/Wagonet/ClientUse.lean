import Wagonet.ClientSettings

/-!
A client and its caller, with the setters that need no runtime.

The caller may set the answer mode and the size of the buffer between two operations,
and begin a `handle_message` in no-answer mode. That one is under a guard, which resets
the mode where the operation returns and where its future is dropped. `mode` keeps what
the caller has set; the program does not depend on it.
-/

namespace Wagonet

open Library

/-- `set_max_buffer_size` of a client: the result, and the fields after it. Whether the
allocator grants the reservation is up to the system. -/
def ClientFields.setMaxBufferSize (bufferSize : Nat) (reserved : Bool) (self : ClientFields) :
    Except Error Unit × ClientFields :=
  let limit := if bufferSize > 0 then bufferSize else FramedServer.defaultMaxBufferSize
  let additional := limit - self.buffer.bytes.length
  let (granted, buffer) := self.buffer.tryReserve additional reserved
  let self := { self with buffer := buffer }
  if granted then
    (.ok (), { self with maxBufferSize := limit })
  else
    (.error (.config
      "max_buffer_size \x7blimit\x7d cannot be reserved on this system: \x7be\x7d" [limit]),
      self)

theorem ClientFields.setMaxBufferSize_commandHasAnswer {bufferSize : Nat} {reserved : Bool}
    {self : ClientFields} :
    (self.setMaxBufferSize bufferSize reserved).2.commandHasAnswer = self.commandHasAnswer := by
  cases reserved <;> rfl

def ClientFields.setCommandHasAnswer (commandHasAnswer : Bool) (self : ClientFields) :
    ClientFields := { self with commandHasAnswer := commandHasAnswer }

structure ClientUse where
  runtime : ClientRuntime
  /-- a `NoAnswerGuard` is alive -/
  guarded : Bool
  /-- the answer mode that was set last -/
  mode : Bool

namespace ClientUse

inductive Act
  | runtime (a : ClientRuntime.Act)
  | setCommandHasAnswer (commandHasAnswer : Bool)
  | setMaxBufferSize (bufferSize : Nat) (reserved : Bool)
  /-- `handle_message_with_no_answer` is called -/
  | startNoAnswer (command : UInt32) (requestData : List UInt8)

/-- The future of the operation is gone after this action. -/
def Act.ends : Act → Bool
  | .runtime .finish => true
  | .runtime .cancel => true
  | _ => false

def withFields (s : ClientUse) (fields : ClientFields) : ClientUse :=
  { s with runtime := { s.runtime with fields := fields } }

/-- `NoAnswerGuard::drop`, if there is a guard. -/
def dropGuard (s : ClientUse) : ClientUse :=
  if s.guarded then
    { s.withFields (s.runtime.fields.setCommandHasAnswer true) with guarded := false }
  else
    s

def step (K : ClientKind) (s : ClientUse) : Act → Option ClientUse
  | .runtime a =>
      (ClientRuntime.step K s.runtime a).map fun runtime =>
        let s' := { s with runtime := runtime }
        if (Act.runtime a).ends then s'.dropGuard else s'
  | .setCommandHasAnswer commandHasAnswer =>
      match s.runtime.op with
      | none =>
          some { s.withFields (s.runtime.fields.setCommandHasAnswer commandHasAnswer) with
            mode := commandHasAnswer }
      | some _ => none
  | .setMaxBufferSize bufferSize reserved =>
      match s.runtime.op with
      | none =>
          some (s.withFields (s.runtime.fields.setMaxBufferSize bufferSize reserved).2)
      | some _ => none
  | .startNoAnswer command requestData =>
      let s' := s.withFields (s.runtime.fields.setCommandHasAnswer false)
      (ClientRuntime.step K s'.runtime (.start (.handleMessage command requestData))).map
        fun runtime => { s' with runtime := runtime, guarded := true }

/-- A client that was just made. -/
def new : ClientUse := ⟨.new, false, true⟩

def machine (K : ClientKind) : Machine ClientUse Act where
  init s := s = new
  step := step K

variable {K : ClientKind} {Q : Type} {R : ClientRuntime.Regime K Q} {s s' : ClientUse}
  {loc loc' : Agent → Q} {a : Act}

/-- What happens in one step. -/
inductive Moves (R : ClientRuntime.Regime K Q) :
    ClientUse → (Agent → Q) → Act → ClientUse → (Agent → Q) → Prop
  | runtime {s : ClientUse} {loc loc' : Agent → Q} {a : ClientRuntime.Act}
      {runtime : ClientRuntime} :
      (Act.runtime a).ends = false → R.Moves s.runtime loc a runtime loc' →
        Moves R s loc (.runtime a) { s with runtime := runtime } loc'
  | ends {s : ClientUse} {loc loc' : Agent → Q} {a : ClientRuntime.Act}
      {runtime : ClientRuntime} :
      (Act.runtime a).ends = true → R.Moves s.runtime loc a runtime loc' →
        Moves R s loc (.runtime a) { s with runtime := runtime }.dropGuard loc'
  | setCommandHasAnswer {s : ClientUse} {loc : Agent → Q} {commandHasAnswer : Bool} :
      s.runtime.op = none →
        Moves R s loc (.setCommandHasAnswer commandHasAnswer)
          { s.withFields (s.runtime.fields.setCommandHasAnswer commandHasAnswer) with
            mode := commandHasAnswer } loc
  | setMaxBufferSize {s : ClientUse} {loc : Agent → Q} {bufferSize : Nat} {reserved : Bool} :
      s.runtime.op = none →
        Moves R s loc (.setMaxBufferSize bufferSize reserved)
          (s.withFields (s.runtime.fields.setMaxBufferSize bufferSize reserved).2) loc
  | startNoAnswer {s : ClientUse} {loc loc' : Agent → Q} {command : UInt32}
      {requestData : List UInt8} {runtime : ClientRuntime} :
      R.Moves (s.withFields (s.runtime.fields.setCommandHasAnswer false)).runtime loc
          (.start (.handleMessage command requestData)) runtime loc' →
        Moves R s loc (.startNoAnswer command requestData)
          { s with runtime := runtime, guarded := true } loc'

theorem op_of_ends {r r' : ClientRuntime} {a : ClientRuntime.Act} (hm : R.Moves r loc a r' loc')
    (ha : (Act.runtime a).ends = true) : r'.op = none := by
  cases hm <;> first | rfl | cases ha

theorem op_of_not_ends {r r' : ClientRuntime} {a : ClientRuntime.Act}
    (hm : R.Moves r loc a r' loc') (ha : (Act.runtime a).ends = false) (hop : r.op ≠ none) :
    r'.op ≠ none := by
  cases hm with
  | finish => cases ha
  | cancel => cases ha
  | start => nofun
  | client => nofun
  | _ => exact hop

/-- The rules are about the threads, not about the fields between two operations. -/
theorem obeyed_withFields {fields : ClientFields} (h : R.Obeyed s.runtime loc) :
    R.Obeyed (s.withFields fields).runtime loc := ⟨h.client, h.ping, h.ended, h.parked⟩

theorem obeyed_dropGuard (h : R.Obeyed s.runtime loc) : R.Obeyed s.dropGuard.runtime loc := by
  rw [dropGuard]
  split
  · exact obeyed_withFields h
  · exact h

theorem Moves.of_step (h : R.Obeyed s.runtime loc) (hs : step K s a = some s') :
    ∃ loc', R.Obeyed s'.runtime loc' ∧ Moves R s loc a s' loc' := by
  cases a with
  | runtime a =>
      simp only [step, Option.map_eq_some_iff] at hs
      obtain ⟨runtime, hstep, rfl⟩ := hs
      obtain ⟨loc', h', hmove⟩ := h.step hstep
      cases hends : (Act.runtime a).ends with
      | true => exact ⟨loc', obeyed_dropGuard h', .ends hends hmove⟩
      | false => exact ⟨loc', h', .runtime hends hmove⟩
  | setCommandHasAnswer commandHasAnswer =>
      simp only [step] at hs
      split at hs
      · rename_i hop
        cases hs
        exact ⟨loc, obeyed_withFields h, .setCommandHasAnswer hop⟩
      · cases hs
  | setMaxBufferSize bufferSize reserved =>
      simp only [step] at hs
      split at hs
      · rename_i hop
        cases hs
        exact ⟨loc, obeyed_withFields h, .setMaxBufferSize hop⟩
      · cases hs
  | startNoAnswer command requestData =>
      simp only [step, Option.map_eq_some_iff] at hs
      obtain ⟨runtime, hstep, rfl⟩ := hs
      obtain ⟨loc', h', hmove⟩ := (obeyed_withFields h).step hstep
      exact ⟨loc', h', .startNoAnswer hmove⟩

/-- The induction over a run, with the local states of the threads. -/
theorem invariant (R : ClientRuntime.Regime K Q) {ok : ClientUse → Act → Prop}
    (I : ClientUse → (Agent → Q) → Prop) (hinit : I new fun _ => R.idle)
    (hstep : ∀ s loc a s' loc', R.Obeyed s.runtime loc → I s loc → ok s a →
      Moves R s loc a s' loc' → I s' loc')
    (h : (machine K).Reachable ok s) : ∃ loc, R.Obeyed s.runtime loc ∧ I s loc := by
  refine h.invariant (fun s => ∃ loc, R.Obeyed s.runtime loc ∧ I s loc) ?_ ?_
  · rintro s rfl
    exact ⟨_, ClientRuntime.Regime.obeyed_of_fresh R ClientRuntime.fresh_new, hinit⟩
  · rintro s a s' ⟨loc, hobeyed, hI⟩ hok hs
    obtain ⟨loc', hobeyed', hmove⟩ := Moves.of_step hobeyed hs
    exact ⟨loc', hobeyed', hstep s loc a s' loc' hobeyed hI hok hmove⟩

end ClientUse

end Wagonet
