import Mathlib
import Wagonet.ConnectionShutdown
import Wagonet.Library.Leaves

/-!
How the server cuts the bytes of a client into frames.

Each `handle_next` consumes one turn: a request header, the payload that the header
announces if the request is accepted, and the client's acknowledgement of the
response. Whatever the client sends and however it arrives, the bytes consumed are
one turn after the other, and the command handler gets the payloads.
-/

namespace Wagonet

open Library

/-- What one `handle_next` consumes. -/
inductive Turn
  /-- the header is not complete -/
  | cutHeader (bytes : List UInt8)
  | ping
  /-- the header is refused -/
  | refused (header : RequestHeader)
  /-- the payload is not complete, or the command handler is not entered yet -/
  | cutPayload (header : RequestHeader) (bytes : List UInt8)
  /-- the command handler is entered; the acknowledgement may not have come -/
  | request (header : RequestHeader) (data : List UInt8) (ack : Option UInt8)

namespace Turn

/-- The frames of a turn: header, payload and acknowledgement. -/
def frames : Turn → List (List UInt8)
  | .cutHeader bytes => [bytes]
  | .ping => [RequestHeader.encode ⟨Command.ping, 0⟩]
  | .refused header => [header.encode]
  | .cutPayload header bytes => [header.encode, bytes]
  | .request header data ack => [header.encode, data, ack.toList]

/-- The bytes consumed in this turn. -/
def consumed (turn : Turn) : List UInt8 := turn.frames.flatten

/-- The request that is handed to the command handler. -/
def calls : Turn → List (UInt32 × List UInt8)
  | .request header data _ => [(header.command, data)]
  | _ => []

/-- The header may be followed by a payload. -/
def Accepts (m : Nat) (header : RequestHeader) : Prop :=
  header.command ≠ Command.ping ∧ header.dataSize.toNat ≤ m

/-- The sizes of the frames are those that the header announces, within the limit. -/
def Valid (m : Nat) : Turn → Prop
  | .cutHeader bytes => bytes.length < RequestHeader.encodedLen
  | .ping => True
  | .refused header => ¬Accepts m header
  | .cutPayload header bytes => Accepts m header ∧ bytes.length ≤ header.dataSize.toNat
  | .request header data _ => Accepts m header ∧ data.length = header.dataSize.toNat

/-- The header is complete, and so is the payload that it announces. -/
def Whole : Turn → Prop
  | .ping => True
  | .request _ _ _ => True
  | _ => False

/-- No acknowledgement is missing. -/
def Acknowledged : Turn → Prop
  | .request _ _ ack => ack.isSome = true
  | _ => True

/-- The operations have consumed this turn, and handed its request to the command
handler. -/
structure Covers (m : Nat) (es : List (Net Handler).Event) (turn : Turn) : Prop where
  valid : turn.Valid m
  consumed : received es = turn.consumed
  called : entered es = turn.calls

end Turn

/-! ### One turn -/

namespace FramedServer

variable {C : Interface} {s s' : FramedServer} {es : List (Net C).Event}

/-- A header is read, and either refused or accepted, or it is a ping. -/
theorem readCommand_cut {r : Except Error (Option (UInt32 × Nat))}
    (h : (readCommand s : Task (Net C) _ _).Run es s' r) :
    ((received es).length < RequestHeader.encodedLen ∧ ∃ e, r = .error e) ∨
      ∃ header : RequestHeader, received es = header.encode ∧
        ((¬Turn.Accepts s.maxBufferSize header ∧ (∃ e, r = .error e)) ∨
          (header = ⟨Command.ping, 0⟩ ∧ r = .ok none) ∨
          (Turn.Accepts s.maxBufferSize header ∧ ((∃ e, r = .error e) ∨
            r = .ok (some (header.command, header.dataSize.toNat))))) := by
  simp only [readCommand, Async.modify_bind_apply] at h
  rcases Async.run_bind_iff.mp h with ⟨e, rfl, h₁⟩ | ⟨es₁, es₂, s₁, u, rfl, h₁, h₂⟩
  · obtain ⟨-, ⟨-, -, hr, -⟩ | ⟨hlen, -⟩⟩ := readFrame_run h₁
    · cases hr
    · exact .inl ⟨hlen, e, rfl⟩
  obtain ⟨-, ⟨hlen, -, -, hbuf, hmax⟩ | ⟨-, -, e, hr⟩⟩ := readFrame_run h₁
  case inr => cases hr
  right
  obtain ⟨header, hheader⟩ := RequestHeader.exists_encode hlen
  simp only [Async.get_bind_apply, hbuf, hheader, hmax, RequestHeader.decode_encode] at h₂
  -- a status frame is sent, and nothing is received
  have status {α : Type} {code : UInt8} {timer : Timer} {m : Async (Net C) FramedServer Error α}
      {s s' : FramedServer} {es : List (Net C).Event} {r q : Except Error α}
      (h : ((sendResponseHeader code 0 true timer >>= fun _ => m) s).Run es s' r)
      (hm : ∀ s s' es r, (m s).Run es s' r → es = [] ∧ r = q) :
      received es = [] ∧ ((∃ e, r = .error e) ∨ r = q) := by
    rcases Async.run_bind_iff.mp h with ⟨e, rfl, h₁⟩ | ⟨es₁, es₂, s₁, u, rfl, h₁, h₂⟩
    · obtain ⟨hrec, -⟩ := sendResponseHeader_run h₁
      exact ⟨hrec, .inl ⟨e, rfl⟩⟩
    · obtain ⟨hrec, -⟩ := sendResponseHeader_run h₁
      obtain ⟨rfl, rfl⟩ := hm _ _ _ _ h₂
      exact ⟨by simp [hrec], .inr rfl⟩
  refine ⟨header, ?_⟩
  rw [received_append, hheader]
  by_cases hlimit : header.dataSize.toNat > s.maxBufferSize
  · simp only [hlimit, if_true, Async.ofExcept_error_bind_apply, Task.run_done_iff] at h₂
    obtain ⟨rfl, -, rfl⟩ := h₂
    exact ⟨List.append_nil _, .inl ⟨fun haccepts => Nat.not_lt.mpr haccepts.2 hlimit, _, rfl⟩⟩
  simp only [hlimit, if_false, Async.ofExcept_ok_bind_apply, Async.modify_bind_apply] at h₂
  by_cases hping : header.command = Command.ping
  · have hnot : ¬Turn.Accepts s.maxBufferSize header := fun haccepts => haccepts.1 hping
    by_cases hsize : header.dataSize.toNat ≠ 0
    · simp only [hping, hsize, if_true, ne_eq, not_false_eq_true] at h₂
      obtain ⟨hrec, hr⟩ := status (q := .error (.protocol "Ping must have data_size=0")) h₂
        fun s s' es r h => by
          obtain ⟨rfl, -, rfl⟩ := Task.run_done_iff.mp h
          exact ⟨rfl, rfl⟩
      refine ⟨by rw [hrec, List.append_nil], .inl ⟨hnot, ?_⟩⟩
      rcases hr with he | hr
      · exact he
      · exact ⟨_, hr⟩
    · simp only [hping, hsize, if_true, if_false] at h₂
      obtain ⟨hrec, hr⟩ := status (q := .ok none) h₂ fun s s' es r h => by
        obtain ⟨rfl, -, rfl⟩ := Task.run_done_iff.mp h
        exact ⟨rfl, rfl⟩
      refine ⟨by rw [hrec, List.append_nil], ?_⟩
      rcases hr with he | hr
      · exact .inl ⟨hnot, he⟩
      · refine .inr (.inl ⟨?_, hr⟩)
        have hzero : header.dataSize = 0 := UInt32.toNat_inj.mp (by simpa using hsize)
        rw [← hping, ← hzero]
  · have haccepts : Turn.Accepts s.maxBufferSize header := ⟨hping, Nat.not_lt.mp hlimit⟩
    simp only [hping, if_false] at h₂
    obtain ⟨hrec, hr⟩ := status (q := .ok (some (header.command, header.dataSize.toNat))) h₂
      fun s s' es r h => by
        obtain ⟨rfl, -, rfl⟩ := Task.run_done_iff.mp h
        exact ⟨rfl, rfl⟩
    exact ⟨by rw [hrec, List.append_nil], .inr (.inr ⟨haccepts, hr⟩)⟩

/-- A payload within the limit is read completely, or the function fails. -/
theorem receiveData_cut {n : Nat} {r : Except Error (List UInt8)} (hn : n ≤ s.maxBufferSize)
    (h : (receiveData n s : Task (Net C) _ _).Run es s' r) :
    ((received es).length = n ∧ r = .ok (received es)) ∨
      ((received es).length < n ∧ ∃ e, r = .error e) := by
  simp only [receiveData, Async.get_bind_apply, Nat.not_lt.mpr hn, if_false,
    Async.modify_bind_apply] at h
  rcases Async.run_bind_iff.mp h with ⟨e, rfl, h₁⟩ | ⟨es₁, es₂, s₁, u, rfl, h₁, h₂⟩
  · obtain ⟨-, ⟨-, -, hr, -⟩ | ⟨hlen, -⟩⟩ := readFrame_run h₁
    · cases hr
    · exact .inr ⟨hlen, e, rfl⟩
  obtain ⟨-, ⟨hlen, -, -, hbuf, -⟩ | ⟨-, -, e, hr⟩⟩ := readFrame_run h₁
  case inr => cases hr
  rw [Async.get_bind_apply, Async.modify_bind_apply] at h₂
  obtain ⟨rfl, -, rfl⟩ := Task.run_done_iff.mp h₂
  exact .inl ⟨by rwa [List.append_nil], by rw [List.append_nil, hbuf]⟩

/-- Of the client's answer to a response one byte is read at most. -/
theorem sendData_cut {status : UInt8} {buf : List UInt8} {r : Except Error Unit}
    (h : (sendData status (some buf) s : Task (Net C) _ _).Run es s' r) :
    ∃ ack : Option UInt8, received es = ack.toList := by
  simp only [sendData, Option.isNone_some] at h
  rcases Async.run_bind_iff.mp h with ⟨e, rfl, h₁⟩ | ⟨es₁, es₂, s₁, u, rfl, h₁, h₂⟩
  · exact ⟨none, (sendResponseHeader_run h₁).1⟩
  obtain ⟨hrec, -⟩ := sendResponseHeader_run h₁
  rw [received_append, hrec, List.nil_append]
  rcases Async.run_bind_iff.mp h₂ with ⟨e, rfl, h₃⟩ | ⟨es₃, es₄, s₂, header, rfl, h₃, h₄⟩
  · simp only [receiveResponseHeader, Async.modify_bind_apply] at h₃
    rcases Async.run_bind_iff.mp h₃ with ⟨e', -, h₅⟩ | ⟨es₅, es₆, s₃, u, rfl, h₅, h₆⟩
    · obtain ⟨-, ⟨-, -, hr, -⟩ | ⟨hlen, -⟩⟩ := readFrame_run h₅
      · cases hr
      · exact ⟨none, List.eq_nil_of_length_eq_zero (Nat.lt_one_iff.mp hlen)⟩
    · obtain ⟨-, ⟨hlen, -, -, hbuf, -⟩ | ⟨-, -, e', hr⟩⟩ := readFrame_run h₅
      case inr => cases hr
      obtain ⟨ack, hack⟩ := List.length_eq_one_iff.mp hlen
      simp only [Async.get_bind_apply, hbuf, hack, ResponseHeader.decode_true_singleton,
        Async.ofExcept_ok_bind_apply, Async.modify_bind_apply, Async.pure_apply,
        Task.run_done_iff] at h₆
      cases h₆.2.2
  obtain ⟨-, ⟨ack, hack, -, -⟩ | ⟨-, e, hr⟩⟩ := receiveResponseHeader_run h₃
  case inr => cases hr
  have hnone : received es₄ = [] := by
    split at h₄
    · obtain ⟨rfl, -, -⟩ := Task.run_done_iff.mp h₄
      rfl
    rcases Async.run_bind_iff.mp h₄ with ⟨e, rfl, h₅⟩ | ⟨es₅, es₆, s₃, u', rfl, h₅, h₆⟩
    · exact (writeLoop_within_run h₅).1
    obtain ⟨hrec₅, -⟩ := writeLoop_within_run h₅
    rw [received_append, hrec₅, List.nil_append]
    rcases Async.run_bind_iff.mp h₆ with ⟨e, rfl, h₇⟩ | ⟨es₇, es₈, s₄, u'', rfl, h₇, h₈⟩
    · obtain ⟨r₁, -, h₇⟩ := Async.mapError_run_iff.mp h₇
      exact (flushStream_run h₇).1
    · obtain ⟨r₁, -, h₇⟩ := Async.mapError_run_iff.mp h₇
      obtain ⟨rfl, -, -⟩ := Task.run_done_iff.mp h₈
      rw [List.append_nil]
      exact (flushStream_run h₇).1
  exact ⟨some ack, by simp [hack, hnone]⟩

/-! The size limit of a server does not change. -/

section

variable {m : Nat}

theorem keeps_sendResponseHeader {status : UInt8} {dataSize : UInt32} {isDefault : Bool}
    {timer : Timer} :
    (sendResponseHeader status dataSize isDefault timer :
      Async (Net C) FramedServer Error Unit).Keeps (·.maxBufferSize = m) := by
  refine Async.Keeps.bind (Async.Keeps.modify fun _ h => h) fun _ => ?_
  refine Async.Keeps.bind (Async.Keeps.modify fun _ h => h) fun _ => ?_
  refine Async.Keeps.bind Async.Keeps.get fun _ => ?_
  refine Async.Keeps.bind (Async.Keeps.within Async.Keeps.writeLoop) fun _ => ?_
  refine Async.Keeps.bind (Async.Keeps.mapError Async.Keeps.flushStream) fun _ => ?_
  exact Async.Keeps.modify fun _ h => h

theorem keeps_readCommand :
    (readCommand : Async (Net C) FramedServer Error _).Keeps (·.maxBufferSize = m) := by
  refine Async.Keeps.bind (Async.Keeps.modify fun _ h => h) fun _ => ?_
  refine Async.Keeps.bind (Async.Keeps.within (Async.Keeps.readLoop fun _ _ h => h)) fun _ => ?_
  refine Async.Keeps.bind Async.Keeps.get fun _ => ?_
  refine Async.Keeps.bind (Async.Keeps.ofExcept _) fun header => ?_
  refine Async.Keeps.bind (Async.Keeps.modify fun _ h => h) fun _ => ?_
  dsimp only
  split
  · split
    · exact Async.Keeps.bind keeps_sendResponseHeader fun _ => Async.Keeps.fail _
    · exact Async.Keeps.bind keeps_sendResponseHeader fun _ => Async.Keeps.pure _
  · split
    · exact Async.Keeps.bind keeps_sendResponseHeader fun _ => Async.Keeps.fail _
    · exact Async.Keeps.bind keeps_sendResponseHeader fun _ => Async.Keeps.pure _

theorem keeps_receiveData {n : Nat} :
    (receiveData n : Async (Net C) FramedServer Error _).Keeps (·.maxBufferSize = m) := by
  refine Async.Keeps.bind Async.Keeps.get fun _ => ?_
  split
  · exact Async.Keeps.fail _
  refine Async.Keeps.bind (Async.Keeps.modify fun _ h => h) fun _ => ?_
  refine Async.Keeps.bind (Async.Keeps.within (Async.Keeps.readLoop fun _ _ h => h)) fun _ => ?_
  refine Async.Keeps.bind Async.Keeps.get fun _ => ?_
  exact Async.Keeps.bind (Async.Keeps.modify fun _ h => h) fun _ => Async.Keeps.pure _

theorem keeps_receiveResponseHeader :
    (receiveResponseHeader true : Async (Net C) FramedServer Error _).Keeps
      (·.maxBufferSize = m) := by
  refine Async.Keeps.bind (Async.Keeps.modify fun _ h => h) fun _ => ?_
  refine Async.Keeps.bind (Async.Keeps.within (Async.Keeps.readLoop fun _ _ h => h)) fun _ => ?_
  refine Async.Keeps.bind Async.Keeps.get fun _ => ?_
  refine Async.Keeps.bind (Async.Keeps.ofExcept _) fun _ => ?_
  exact Async.Keeps.bind (Async.Keeps.modify fun _ h => h) fun _ => Async.Keeps.pure _

theorem keeps_sendData {status : UInt8} {buf : List UInt8} :
    (sendData status (some buf) : Async (Net C) FramedServer Error _).Keeps
      (·.maxBufferSize = m) := by
  refine Async.Keeps.bind keeps_sendResponseHeader fun _ => ?_
  refine Async.Keeps.bind keeps_receiveResponseHeader fun header => ?_
  split
  · exact Async.Keeps.fail _
  refine Async.Keeps.bind (Async.Keeps.within Async.Keeps.writeLoop) fun _ => ?_
  refine Async.Keeps.bind (Async.Keeps.mapError Async.Keeps.flushStream) fun _ => ?_
  exact Async.Keeps.modify fun _ h => h

end

theorem awaits_receiveResponseHeader :
    (receiveResponseHeader true : Async (Net C) FramedServer Error _).Uses Async.Awaits :=
  (Async.uses_modify _).bind fun _ => (Async.Awaits.within awaits_readLoop).bind fun _ =>
    Async.uses_get.bind fun _ => (Async.uses_ofExcept _).bind fun _ =>
      (Async.uses_modify _).bind fun _ => Async.uses_pure _

theorem awaits_sendData {status : UInt8} {buf : List UInt8} :
    (sendData status (some buf) : Async (Net C) FramedServer Error _).Uses Async.Awaits := by
  refine awaits_sendResponseHeader.bind fun _ =>
    awaits_receiveResponseHeader.bind fun header => ?_
  split
  · exact Async.uses_fail _
  · exact (Async.Awaits.within awaits_writeLoop).bind fun _ =>
      (Async.Awaits.mapError awaits_flushStream).bind fun _ => Async.uses_modify _

end FramedServer

namespace ProtocolHandler

/-- Code that only awaits operations of the stream leaves the command handler alone. -/
theorem quiet_of_awaits {es : List (Net Handler).Event} (h : ∀ e ∈ es, Async.Awaits e.op) :
    entered es = [] ∧ ∀ result, ⟨.call .leave, result⟩ ∉ es :=
  ⟨entered_of_awaits h, fun _ hmem => h _ hmem⟩

/-- The response to a request: at most the acknowledgement is read. After Finish the
connection ends. -/
theorem respond_cut {command : UInt32} {data : List UInt8} {s s' : FramedServer}
    {es : List (Net Handler).Event} {r : Except Error Bool}
    (h : ((do
      match ← runCommand command data with
      | .ok (status, responseData) => do
          FramedServer.sendData status.toU8 (some responseData)
          if status = .finish then pure false else pure true
      | .error _ => do
          let _ ← Async.attempt (FramedServer.sendData ResponseStatus.error.toU8 (some []))
          pure true : Async (Net Handler) FramedServer Error Bool) s).Run es s' r) :
    ∃ (result : CommandResult) (rest : List (Net Handler).Event) (ack : Option UInt8),
      es = ⟨.call (.enter command data), ()⟩ :: ⟨.call .leave, result⟩ :: rest ∧
      received rest = ack.toList ∧ (ack.isSome = true ∨ anyFailed rest = true) ∧
      (∀ e ∈ rest, Async.Awaits e.op) ∧
      ∀ data, result = .ok (.finish, data) → r ≠ .ok true := by
  rcases Async.run_bind_iff.mp h with ⟨e, rfl, h₁⟩ | ⟨es₁, es₂, s₁, result, rfl, h₁, h₂⟩
  · obtain ⟨_, -, hr⟩ := runCommand_run h₁
    cases hr
  obtain ⟨_, rfl, hr⟩ := runCommand_run h₁
  cases hr
  have hsend : ∃ s₂ r₂, (FramedServer.sendData (responseOf result).1
      (some (responseOf result).2) s₁).Run es₂ s₂ r₂ ∧
      ∀ data, result = .ok (.finish, data) → r ≠ .ok true := by
    match result with
    | .ok (status, responseData) =>
        rcases Async.run_bind_iff.mp h₂ with ⟨e, rfl, h₃⟩ | ⟨es₃, es₄, s₂, u, rfl, h₃, h₄⟩
        · exact ⟨_, _, h₃, fun _ _ => nofun⟩
        · split at h₄
          · obtain ⟨rfl, -, rfl⟩ := Task.run_done_iff.mp h₄
            exact ⟨_, _, by rwa [List.append_nil], fun _ _ => by simp⟩
          · rename_i hstatus
            obtain ⟨rfl, -, -⟩ := Task.run_done_iff.mp h₄
            refine ⟨_, _, by rwa [List.append_nil], fun data hfinish => ?_⟩
            cases hfinish
            exact absurd rfl hstatus
    | .error _ =>
        rcases Async.run_bind_iff.mp h₂ with ⟨e, -, h₃⟩ | ⟨es₃, es₄, s₂, u, rfl, h₃, h₄⟩
        · obtain ⟨r₁, -, h₃⟩ := Async.attempt_run_iff.mp h₃
          exact ⟨_, _, h₃, nofun⟩
        · obtain ⟨r₁, -, h₃⟩ := Async.attempt_run_iff.mp h₃
          obtain ⟨rfl, -, -⟩ := Task.run_done_iff.mp h₄
          exact ⟨_, _, by rwa [List.append_nil], nofun⟩
  obtain ⟨s₂, r₂, hsend, hfinish⟩ := hsend
  obtain ⟨ack, hack⟩ := FramedServer.sendData_cut hsend
  refine ⟨result, es₂, ack, rfl, hack, ?_, (FramedServer.awaits_sendData s₁).run hsend, hfinish⟩
  rcases FramedServer.sendData_run hsend with hbad | ⟨status, hrec, -⟩
  · exact .inr hbad
  · cases ack with
    | none => cases hrec.symm.trans hack
    | some ack => exact .inl rfl

theorem keeps_handleNext {m : Nat} : handleNext.Keeps (·.maxBufferSize = m) := by
  refine FramedServer.keeps_readCommand.bind fun command => ?_
  match command with
  | none => exact .pure _
  | some (command, dataSize) =>
      refine FramedServer.keeps_receiveData.bind fun data => ?_
      refine Async.Keeps.bind ((Async.Keeps.call _).bind fun _ => .call _) fun result => ?_
      match result with
      | .ok (status, responseData) =>
          refine FramedServer.keeps_sendData.bind fun _ => ?_
          split
          · exact .pure _
          · exact .pure _
      | .error _ => exact (FramedServer.keeps_sendData.attempt).bind fun _ => .pure _

/-- What a complete `handle_next` has consumed. It goes on only after a whole turn that
was not answered with Finish; an acknowledgement is missing only if an operation failed.
Nothing but the acknowledgement is read after the command handler was entered. -/
theorem handleNext_cut {s s' : FramedServer} {es : List (Net Handler).Event}
    {r : Except Error Bool} (h : (handleNext s).Run es s' r) :
    ∃ turn : Turn, turn.Covers s.maxBufferSize es ∧
      (∀ b, r = .ok b → turn.Whole ∧ (turn.Acknowledged ∨ anyFailed es = true)) ∧
      (∀ data, ⟨.call .leave, .ok (.finish, data)⟩ ∈ es → r ≠ .ok true) ∧
      ∀ header data ack, turn = .request header data ack →
        ∃ before after : List (Net Handler).Event,
          es = before ++ ⟨.call (.enter header.command data), ()⟩ :: after ∧
          entered before = [] ∧ received after = ack.toList := by
  rcases Async.run_bind_iff.mp h with ⟨e, rfl, h₁⟩ | ⟨es₁, es₂, s₁, command, rfl, h₁, h₂⟩
  · obtain ⟨hentered, hleave⟩ := quiet_of_awaits ((FramedServer.awaits_readCommand s).run h₁)
    rcases FramedServer.readCommand_cut h₁ with
      ⟨hlen, -⟩ | ⟨header, hheader, ⟨hrefused, -⟩ | ⟨-, hr⟩ | ⟨haccepts, -⟩⟩
    · exact ⟨.cutHeader (received es), ⟨hlen, by simp [Turn.consumed, Turn.frames], hentered⟩,
        nofun, fun _ hmem => absurd hmem (hleave _), nofun⟩
    · exact ⟨.refused header, ⟨hrefused, by simp [Turn.consumed, Turn.frames, hheader], hentered⟩,
        nofun, fun _ hmem => absurd hmem (hleave _), nofun⟩
    · cases hr
    · exact ⟨.cutPayload header [], ⟨⟨haccepts, Nat.zero_le _⟩,
        by simp [Turn.consumed, Turn.frames, hheader], hentered⟩, nofun,
        fun _ hmem => absurd hmem (hleave _), nofun⟩
  obtain ⟨hentered₁, hleave₁⟩ := quiet_of_awaits ((FramedServer.awaits_readCommand s).run h₁)
  have hmax : s₁.maxBufferSize = s.maxBufferSize :=
    (FramedServer.keeps_readCommand (m := s.maxBufferSize) s rfl).of_run h₁
  rcases FramedServer.readCommand_cut h₁ with
    ⟨-, e, hr⟩ | ⟨header, hheader, ⟨-, e, hr⟩ | ⟨hping, hr⟩ | ⟨haccepts, ⟨e, hr⟩ | hr⟩⟩
  · cases hr
  · cases hr
  · cases hr
    obtain ⟨rfl, -, -⟩ := Task.run_done_iff.mp h₂
    rw [List.append_nil]
    exact ⟨.ping, ⟨trivial, by simp [Turn.consumed, Turn.frames, hheader, hping], hentered₁⟩,
      fun _ _ => ⟨trivial, .inl trivial⟩, fun _ hmem => absurd hmem (hleave₁ _), nofun⟩
  · cases hr
  cases hr
  rcases Async.run_bind_iff.mp h₂ with ⟨e, rfl, h₃⟩ | ⟨es₃, es₄, s₂, data, rfl, h₃, h₄⟩
  · obtain ⟨hentered₂, hleave₂⟩ := quiet_of_awaits ((FramedServer.awaits_receiveData s₁).run h₃)
    rcases FramedServer.receiveData_cut (hmax ▸ haccepts.2) h₃ with ⟨-, hr⟩ | ⟨hlen, -⟩
    · cases hr
    refine ⟨.cutPayload header (received es₂), ⟨⟨haccepts, Nat.le_of_lt hlen⟩, ?_, ?_⟩, nofun, ?_,
      nofun⟩
    · simp [Turn.consumed, Turn.frames, hheader]
    · rw [entered_append, hentered₁, hentered₂]
      rfl
    · intro _ hmem
      rcases List.mem_append.mp hmem with hmem | hmem
      · exact absurd hmem (hleave₁ _)
      · exact absurd hmem (hleave₂ _)
  obtain ⟨hentered₃, hleave₃⟩ := quiet_of_awaits ((FramedServer.awaits_receiveData s₁).run h₃)
  rcases FramedServer.receiveData_cut (hmax ▸ haccepts.2) h₃ with ⟨hlen, hr⟩ | ⟨-, e, hr⟩
  case inr => cases hr
  cases hr
  obtain ⟨result, rest, ack, rfl, hack, hacked, hrest, hfinish⟩ := respond_cut h₄
  obtain ⟨hentered₄, hleave₄⟩ := quiet_of_awaits hrest
  refine ⟨.request header (received es₃) ack, ⟨⟨haccepts, hlen⟩, ?_, ?_⟩, ?_, ?_, ?_⟩
  · simp [Turn.consumed, Turn.frames, hheader, hack]
  · rw [entered_append, entered_append, hentered₁, hentered₃]
    exact congrArg ((header.command, received es₃) :: ·) hentered₄
  · intro b _
    refine ⟨trivial, hacked.imp id fun hbad => ?_⟩
    simp [hbad]
  · intro d hmem
    simp only [List.mem_append, List.mem_cons] at hmem
    rcases hmem with hmem | hmem | hmem | hmem | hmem
    · exact absurd hmem (hleave₁ _)
    · exact absurd hmem (hleave₃ _)
    · cases hmem
    · cases hmem
      exact hfinish d rfl
    · exact absurd hmem (hleave₄ _)
  · rintro header' data' ack' heq
    cases heq
    refine ⟨es₁ ++ es₃, ⟨.call .leave, result⟩ :: rest, by simp, ?_, hack⟩
    rw [entered_append, hentered₁, hentered₃]
    rfl

/-- What a `handle_next` has consumed that may not have ended. -/
theorem handleNext_cut_partial {s : FramedServer} {es : List (Net Handler).Event}
    {t : Task (Net Handler) FramedServer (Except Error Bool)}
    (h : (handleNext s).Partial es t) : ∃ turn : Turn, turn.Covers s.maxBufferSize es := by
  -- let it end without receiving any more
  obtain ⟨es', s', r, hrun, -, hquiet⟩ := t.exists_quiet_run fun c => by
    match c with
    | .enter _ _ => exact ⟨()⟩
    | .leave => exact ⟨.error (.msg "")⟩
  obtain ⟨turn, ⟨hvalid, hconsumed, hcalled⟩, -, -, hcall⟩ := handleNext_cut (h.run hrun)
  rw [received_append, hquiet, List.append_nil] at hconsumed
  rw [entered_append] at hcalled
  by_cases hlater : entered es' = []
  · exact ⟨turn, hvalid, hconsumed, by rwa [hlater, List.append_nil] at hcalled⟩
  match turn with
  | .cutHeader _ | .ping | .refused _ | .cutPayload _ _ =>
      exact absurd (List.append_eq_nil_iff.mp hcalled).2 hlater
  | .request header data ack =>
      -- the command handler is entered in the part that was left out
      have hnow : entered es = [] := by
        match hes : entered es with
        | [] => rfl
        | x :: xs =>
            rw [hes, Turn.calls, List.cons_append, List.cons.injEq] at hcalled
            exact absurd (List.append_eq_nil_iff.mp hcalled.2).2 hlater
      obtain ⟨before, after, heq, -, hafter⟩ := hcall header data ack rfl
      have hnone : received after = [] := by
        rcases List.append_eq_append_iff.mp heq with ⟨mid, -, hes'⟩ | ⟨mid, hes, hmid⟩
        · rw [hes', received_append] at hquiet
          exact (List.append_eq_nil_iff.mp (List.append_eq_nil_iff.mp hquiet).2).2
        · match mid with
          | [] =>
              rw [List.nil_append] at hmid
              rw [← hmid, received_cons] at hquiet
              exact (List.append_eq_nil_iff.mp hquiet).2
          | x :: mid =>
              obtain ⟨rfl, -⟩ := List.cons.inj hmid
              rw [hes, entered_append] at hnow
              cases (List.append_eq_nil_iff.mp hnow).2
      cases ack with
      | some ack => cases hafter.symm.trans hnone
      | none =>
          refine ⟨.cutPayload header data, ⟨hvalid.1, Nat.le_of_eq hvalid.2⟩, ?_, hnow⟩
          rw [hconsumed]
          simp [Turn.consumed, Turn.frames]

end ProtocolHandler

/-! ### The turns of a connection -/

namespace ConnectionHandler

variable {handler : CommandHandler} {maxBufferSize m : Nat} {c c' : ConnectionHandler} {a : Act}

/-- The limit that a transport is given: 0 stands for the default. -/
def sizeLimit (maxBufferSize : Nat) : Nat :=
  if maxBufferSize > 0 then maxBufferSize else FramedServer.defaultMaxBufferSize

/-- A cycle has consumed this turn. -/
structure Cycle.Cut (m : Nat) (y : Cycle) (turn : Turn) : Prop where
  covers : turn.Covers m y.events
  whole : y.fate = .returned (.ok true) →
    turn.Whole ∧ (turn.Acknowledged ∨ anyFailed y.events = true)

/-- A cycle that has to be the last one: `handle_next` has failed, or the reply of the
command handler was Finish. -/
def Cycle.Final (y : Cycle) : Prop :=
  (∃ e, y.fate = .returned (.error e)) ∨
    ∃ data, ⟨.call .leave, .ok (.finish, data)⟩ ∈ y.events

/-- What holds of a connection while no shutdown signal is seen. -/
structure Parsed (m : Nat) (c : ConnectionHandler) : Prop where
  cut : ∃ turns, List.Forall₂ (Cycle.Cut m) c.past turns
  final : ∀ y ∈ c.past, y.Final → y.fate ≠ .returned (.ok true)
  went_on : ∀ y ∈ c.past.dropLast, y.fate = .returned (.ok true)
  phase : match c.phase with
    | .serving t => (∀ y ∈ c.past, y.fate = .returned (.ok true)) ∧
        ∃ s, s.maxBufferSize = m ∧ (ProtocolHandler.handleNext s).Partial c.current t
    | .woken _ => False
    | .tlsAccept => c.past = [] ∧ c.current = []
    | .setUp => c.past = [] ∧ c.current = []
    | .ended _ => c.current = []
    | .aborted => c.current = []

namespace Parsed

theorem of_fresh (h : Fresh c) : Parsed m c := by
  obtain ⟨hphase, -, -, hpast, hcurrent⟩ := h
  refine ⟨⟨[], by rw [hpast]; exact .nil⟩, by simp [hpast], by simp [hpast], ?_⟩
  rcases hphase with hphase | hphase
  · rw [hphase]
    exact ⟨hpast, hcurrent⟩
  · rw [hphase]
    exact ⟨hpast, hcurrent⟩

/-- The past does not change, and the phase is as it should be. -/
theorem of_past (h : Parsed m c) (hpast : c'.past = c.past)
    (hphase : match c'.phase with
      | .serving t => (∀ y ∈ c'.past, y.fate = .returned (.ok true)) ∧
          ∃ s, s.maxBufferSize = m ∧ (ProtocolHandler.handleNext s).Partial c'.current t
      | .woken _ => False
      | .tlsAccept => c'.past = [] ∧ c'.current = []
      | .setUp => c'.past = [] ∧ c'.current = []
      | .ended _ => c'.current = []
      | .aborted => c'.current = []) : Parsed m c' :=
  ⟨hpast ▸ h.cut, hpast ▸ h.final, hpast ▸ h.went_on, hphase⟩

/-- The current cycle ends, and it has consumed a turn. -/
theorem endCycle (h : Parsed m c) (hall : ∀ y ∈ c.past, y.fate = .returned (.ok true))
    {fate : Fate} {phase : Phase} {turn : Turn} (hcut : Cycle.Cut m ⟨c.current, fate⟩ turn)
    (hfinal : Cycle.Final ⟨c.current, fate⟩ → fate ≠ .returned (.ok true))
    (hphase : match phase with
      | .serving t => fate = .returned (.ok true) ∧
          ∃ s, s.maxBufferSize = m ∧ t = ProtocolHandler.handleNext s
      | .ended _ => True
      | .aborted => True
      | _ => False) : Parsed m (c.endCycle fate phase) := by
  obtain ⟨turns, hturns⟩ := h.cut
  refine ⟨⟨turns ++ [turn], List.rel_append hturns (.cons hcut .nil)⟩, ?_, ?_, ?_⟩
  · intro y hy
    rcases List.mem_append.mp hy with hy | hy
    · exact h.final y hy
    · rw [List.mem_singleton.mp hy]
      exact hfinal
  · intro y hy
    rw [ConnectionHandler.endCycle, List.dropLast_concat] at hy
    exact hall y hy
  · cases phase with
    | serving t =>
        obtain ⟨rfl, s, hs, rfl⟩ := hphase
        refine ⟨fun y hy => ?_, s, hs, .refl⟩
        rcases List.mem_append.mp hy with hy | hy
        · exact hall y hy
        · rw [List.mem_singleton.mp hy]
    | ended r => rfl
    | aborted => rfl
    | _ => exact hphase.elim

theorem step (h : Parsed (sizeLimit maxBufferSize) c) (hok : a ≠ .wake)
    (hs : ConnectionHandler.step handler maxBufferSize c a = some c') :
    Parsed (sizeLimit maxBufferSize) c' := by
  have hphase := h.phase
  cases a with
  | deliver bytes => cases hs; exact h.of_past rfl hphase
  | close => cases hs; exact h.of_past rfl hphase
  | notify value => cases hs; exact h.of_past rfl hphase
  | dropSenders => cases hs; exact h.of_past rfl hphase
  | tlsAccepted r =>
      simp only [ConnectionHandler.step] at hs
      split at hs
      · rename_i hp
        rw [hp] at hphase
        split at hs
        · cases hs
          exact h.of_past rfl hphase
        · cases hs
          exact h.of_past rfl hphase.2
      · cases hs
  | setUp reserved =>
      simp only [ConnectionHandler.step] at hs
      split at hs
      · rename_i hp
        rw [hp] at hphase
        split at hs
        · rename_i s hnew
          cases hs
          exact h.of_past rfl ⟨by simp [hphase.1], s, FramedServer.setMaxBufferSize_ok hnew,
            by rw [hphase.2]; exact .refl⟩
        · cases hs
          exact h.of_past rfl hphase.2
      · cases hs
  | progress choice =>
      simp only [ConnectionHandler.step] at hs
      split at hs
      · rename_i s o k hp
        rw [hp] at hphase
        obtain ⟨r, -, rfl⟩ := Option.map_eq_some_iff.mp hs
        obtain ⟨hall, s₀, hmax, hpartial⟩ := hphase
        have hnext := Task.Partial.step r hpartial
        exact h.of_past rfl ⟨hall, s₀, hmax, hnext⟩
      · cases hs
  | elapse i =>
      simp only [ConnectionHandler.step] at hs
      split at hs
      · rename_i s ts o k hp
        rw [hp] at hphase
        split at hs
        · cases hs
          obtain ⟨hall, s₀, hmax, hpartial⟩ := hphase
          exact h.of_past rfl ⟨hall, s₀, hmax, .step _ hpartial⟩
        · cases hs
      · cases hs
  | turn =>
      simp only [ConnectionHandler.step] at hs
      split at hs
      · rename_i s r hp
        rw [hp] at hphase
        cases hs
        obtain ⟨hall, s₀, hmax, hpartial⟩ := hphase
        have hrun := hpartial.run .done
        rw [List.append_nil] at hrun
        obtain ⟨turn, hturn, hwhole, hfinish, -⟩ := ProtocolHandler.handleNext_cut hrun
        have hkeeps := (ProtocolHandler.keeps_handleNext s₀ hmax).of_run hrun
        have hcut : Cycle.Cut (sizeLimit maxBufferSize) ⟨c.current, .returned r⟩ turn :=
          ⟨hmax ▸ hturn, fun hr => by cases hr; exact hwhole true rfl⟩
        refine h.endCycle hall hcut ?_ ?_
        · rintro (⟨e, hr⟩ | ⟨data, hmem⟩)
          · cases hr
            simp
          · exact fun hr => hfinish data hmem (by cases hr; rfl)
        · rcases r with e | goesOn
          · trivial
          · cases goesOn with
            | true => exact ⟨rfl, s, hkeeps, rfl⟩
            | false => trivial
      · cases hs
  | wake => exact absurd rfl hok
  | borrow =>
      simp only [ConnectionHandler.step] at hs
      split at hs
      · rename_i hp
        rw [hp] at hphase
        exact hphase.elim
      · cases hs
  | abort =>
      simp only [ConnectionHandler.step] at hs
      split at hs
      · rename_i hp
        rw [hp] at hphase
        cases hs
        exact h.of_past rfl hphase.2
      · rename_i s o k hp
        rw [hp] at hphase
        split at hs
        · cases hs
          obtain ⟨hall, s₀, hmax, hpartial⟩ := hphase
          obtain ⟨turn, hturn⟩ := ProtocolHandler.handleNext_cut_partial hpartial
          have hcut : Cycle.Cut (sizeLimit maxBufferSize) ⟨c.current, .aborted⟩ turn :=
            ⟨hmax ▸ hturn, by simp⟩
          exact h.endCycle hall hcut (fun _ => by simp) trivial
        · cases hs
      · cases hs

theorem run {acts : List Act} (h : Parsed (sizeLimit maxBufferSize) c)
    (hok : ∀ a ∈ acts, a ≠ .wake) (hr : (machine handler maxBufferSize).run c acts = some c') :
    Parsed (sizeLimit maxBufferSize) c' := by
  induction acts generalizing c with
  | nil =>
      cases hr
      exact h
  | cons a acts ih =>
      rw [Machine.run_cons, Option.bind_eq_some_iff] at hr
      obtain ⟨d, hd, hr⟩ := hr
      exact ih (h.step (hok a List.mem_cons_self) hd)
        (fun b hb => hok b (List.mem_cons_of_mem _ hb)) hr

/-- After Finish or an error there is no further cycle. -/
theorem stops (h : Parsed m c) {before after : List Cycle} {y : Cycle}
    (hpast : c.past = before ++ y :: after) (hy : y.Final) : after = [] ∧ c.current = [] := by
  have hfate := h.final y (by simp [hpast]) hy
  have hafter : after = [] := by
    rcases List.eq_nil_or_concat after with rfl | ⟨rest, z, rfl⟩
    · rfl
    · refine absurd (h.went_on y ?_) hfate
      rw [hpast, List.concat_eq_append, ← List.cons_append, ← List.append_assoc,
        List.dropLast_concat]
      simp
  refine ⟨hafter, ?_⟩
  have hphase := h.phase
  cases hp : c.phase with
  | serving t =>
      rw [hp] at hphase
      exact absurd (hphase.1 y (by simp [hpast])) hfate
  | woken s =>
      rw [hp] at hphase
      exact hphase.elim
  | tlsAccept =>
      rw [hp] at hphase
      exact hphase.2
  | setUp =>
      rw [hp] at hphase
      exact hphase.2
  | ended r =>
      rw [hp] at hphase
      exact hphase
  | aborted =>
      rw [hp] at hphase
      exact hphase

end Parsed

/-! ### The stream of the client -/

/-- The bytes that arrive during these actions. -/
def delivered (acts : List Act) : List UInt8 :=
  acts.flatMap fun a =>
    match a with
    | .deliver bytes => bytes
    | _ => []

/-- A step completes at most one operation. It takes bytes from the inbox, and it meets the
end of the stream only if the client has closed its end and the inbox is empty. -/
theorem step_events (hs : step handler maxBufferSize c a = some c') :
    (c'.events = c.events ∧ (c'.inbox = c.inbox.deliver (delivered [a]) ∨
        (a = .close ∧ c'.inbox = c.inbox.close))) ∨
      (delivered [a] = [] ∧ ∃ e : (Net Handler).Event, c'.events = c.events ++ [e] ∧
        c'.inbox = c.inbox.consume e.received.length ∧
        e.received = c.inbox.bytes.take e.received.length ∧
        (e.AtEnd → c.inbox.bytes = [] ∧ c.inbox.closed = true)) := by
  have hsame : c.inbox = c.inbox.deliver [] := by rw [Inbox.deliver, List.append_nil]
  have hend : ∀ fate phase, (c.endCycle fate phase).events = c.events := by
    intro fate phase
    simp [events, endCycle]
  cases a with
  | deliver bytes =>
      cases hs
      exact .inl ⟨rfl, .inl (by simp [delivered])⟩
  | close => cases hs; exact .inl ⟨rfl, .inr ⟨rfl, rfl⟩⟩
  | notify value => cases hs; exact .inl ⟨rfl, .inl hsame⟩
  | dropSenders => cases hs; exact .inl ⟨rfl, .inl hsame⟩
  | tlsAccepted r =>
      simp only [step] at hs
      split at hs
      · split at hs <;> cases hs <;> exact .inl ⟨rfl, .inl hsame⟩
      · cases hs
  | setUp reserved =>
      simp only [step] at hs
      split at hs
      · split at hs <;> cases hs <;> exact .inl ⟨rfl, .inl hsame⟩
      · cases hs
  | progress choice =>
      simp only [step] at hs
      split at hs
      · rename_i s o k hp
        obtain ⟨r, hr, rfl⟩ := Option.map_eq_some_iff.mp hs
        refine .inr ⟨rfl, ⟨o, r⟩, (List.append_assoc ..).symm, rfl, ?_⟩
        cases o with
        | call c => exact ⟨rfl, False.elim⟩
        | wait ts o =>
            obtain ⟨r, hanswer, rfl⟩ := Option.map_eq_some_iff.mp hr
            refine ⟨Inbox.received_of_answer hanswer, fun hend => ?_⟩
            cases o with
            | read room =>
                cases r with
                | error e => exact hend.elim
                | ok chunk => exact Inbox.closed_of_answer hend.1 hanswer hend.2
            | _ => exact hend.elim
      · cases hs
  | elapse i =>
      simp only [step] at hs
      split at hs
      · rename_i s ts o k hp
        split at hs
        · cases hs
          refine .inr ⟨rfl, ⟨.wait ts o, .inl _⟩, (List.append_assoc ..).symm, rfl, rfl, ?_⟩
          cases o <;> exact False.elim
        · cases hs
      · cases hs
  | turn =>
      simp only [step] at hs
      split at hs
      · cases hs
        exact .inl ⟨hend _ _, .inl hsame⟩
      · cases hs
  | wake =>
      simp only [step] at hs
      split at hs
      · rename_i s o k hp
        split at hs
        · cases hs
          exact .inl ⟨hend .dropped (.woken s), .inl hsame⟩
        · cases hs
      · cases hs
  | borrow =>
      simp only [step] at hs
      split at hs
      · cases hs
        exact .inl ⟨rfl, .inl hsame⟩
      · cases hs
  | abort =>
      simp only [step] at hs
      split at hs
      · cases hs
        exact .inl ⟨rfl, .inl hsame⟩
      · split at hs
        · cases hs
          exact .inl ⟨hend _ _, .inl hsame⟩
        · cases hs
      · cases hs

/-- The bytes that have arrived were received, or they are in the inbox. -/
theorem received_step (hs : step handler maxBufferSize c a = some c') :
    received c'.events ++ c'.inbox.bytes =
      received c.events ++ c.inbox.bytes ++ delivered [a] := by
  rcases step_events hs with ⟨he, hi | ⟨rfl, hi⟩⟩ | ⟨hd, e, he, hi, htake, -⟩
  · rw [he, hi, Inbox.deliver, List.append_assoc]
  · rw [he, hi]
    exact (List.append_nil _).symm
  · have hsplit : e.received ++ c.inbox.bytes.drop e.received.length = c.inbox.bytes := by
      nth_rewrite 1 [htake]
      exact List.take_append_drop ..
    rw [hd, he, hi, received_append, List.append_nil, List.append_assoc, received_cons,
      received_nil, List.append_nil, Inbox.consume_bytes, hsplit]

theorem received_run {acts : List Act}
    (hr : (machine handler maxBufferSize).run c acts = some c') :
    received c'.events ++ c'.inbox.bytes =
      received c.events ++ c.inbox.bytes ++ delivered acts := by
  induction acts generalizing c with
  | nil =>
      cases hr
      exact (List.append_nil _).symm
  | cons a acts ih =>
      rw [Machine.run_cons, Option.bind_eq_some_iff] at hr
      obtain ⟨d, hd, hr⟩ := hr
      rw [ih hr, received_step hd, List.append_assoc, List.append_assoc]
      simp [delivered]

/-- Once a read has met the end of the stream, nothing is received any more. -/
def EndsOnce (c : ConnectionHandler) : Prop :=
  ∀ before e after, c.events = before ++ e :: after → e.AtEnd →
    received after = [] ∧ c.inbox.bytes = [] ∧ c.inbox.closed = true

theorem EndsOnce.step (h : EndsOnce c)
    (hs : ConnectionHandler.step handler maxBufferSize c a = some c')
    (hclosed : c.inbox.closed = true → delivered [a] = []) : EndsOnce c' := by
  intro before e after heq hend
  rcases step_events hs with ⟨he, hi⟩ | ⟨-, e', he, hi, htake, hend'⟩
  · obtain ⟨hreceived, hbytes, hc⟩ := h before e after (he ▸ heq) hend
    refine ⟨hreceived, ?_⟩
    rcases hi with hi | ⟨-, hi⟩
    · rw [hi, hclosed hc]
      exact ⟨by rw [Inbox.deliver, hbytes]; rfl, hc⟩
    · rw [hi]
      exact ⟨hbytes, rfl⟩
  · rw [he] at heq
    have hnone : c.inbox.bytes = [] → e'.received = [] := by
      intro hbytes
      rw [htake, hbytes, List.take_nil]
    rcases List.eq_nil_or_concat after with rfl | ⟨after', e'', rfl⟩
    · obtain ⟨-, rfl⟩ := List.append_inj' heq rfl |>.imp id List.singleton_inj.mp
      obtain ⟨hbytes, hc⟩ := hend' hend
      refine ⟨rfl, ?_, ?_⟩
      · rw [hi, Inbox.consume_bytes, hbytes, List.drop_nil]
      · rw [hi]
        exact hc
    · rw [List.concat_eq_append, ← List.cons_append, ← List.append_assoc] at heq
      obtain ⟨hevents, hlast⟩ := List.append_inj' heq rfl
      cases hlast
      obtain ⟨hreceived, hbytes, hc⟩ := h before e after' hevents hend
      refine ⟨?_, ?_, ?_⟩
      · rw [List.concat_eq_append, received_append, hreceived, received_cons, hnone hbytes]
        rfl
      · rw [hi, Inbox.consume_bytes, hbytes, List.drop_nil]
      · rw [hi]
        exact hc

/-- Nothing arrives after the client has closed its end. -/
def ClosesLast (acts : List Act) : Prop :=
  ∀ before after, acts = before ++ .close :: after → delivered after = []

theorem endsOnce_of_run {acts : List Act} (h : EndsOnce c)
    (hclosed : c.inbox.closed = true → delivered acts = []) (hlast : ClosesLast acts)
    (hr : (machine handler maxBufferSize).run c acts = some c') : EndsOnce c' := by
  induction acts generalizing c with
  | nil =>
      cases hr
      exact h
  | cons a acts ih =>
      rw [Machine.run_cons, Option.bind_eq_some_iff] at hr
      obtain ⟨d, hd, hr⟩ := hr
      have hsplit : delivered (a :: acts) = delivered [a] ++ delivered acts := by
        simp [delivered]
      have hnone (hc : c.inbox.closed = true) : delivered [a] = [] ∧ delivered acts = [] :=
        List.append_eq_nil_iff.mp (hsplit ▸ hclosed hc)
      refine ih (h.step hd fun hc => (hnone hc).1) (fun hc => ?_) (fun before after heq => ?_) hr
      · rcases step_events hd with ⟨-, hi | ⟨rfl, hi⟩⟩ | ⟨-, e, -, hi, -⟩
        · rw [hi] at hc
          exact (hnone hc).2
        · exact hlast [] acts rfl
        · rw [hi] at hc
          exact (hnone hc).2
      · exact hlast (a :: before) after (by rw [heq, List.cons_append])

/-! ### The segmentation of a whole run -/

/-- A turn that was consumed by these operations, and after which the loop went on. -/
structure Passed (m : Nat) (es : List (Net Handler).Event) (turn : Turn) : Prop where
  covers : turn.Covers m es
  whole : turn.Whole
  acknowledged : turn.Acknowledged ∨ anyFailed es = true

/-- The operations of a connection, turn by turn. -/
theorem Parsed.parts (h : Parsed m c) :
    ∃ parts turns es, ∃ last : Turn, c.events = parts.flatten ++ es ∧
      List.Forall₂ (Passed m) parts turns ∧ last.Covers m es := by
  have passed {past : List Cycle} {turns : List Turn} (hcut : List.Forall₂ (Cycle.Cut m) past turns)
      (hall : ∀ y ∈ past, y.fate = .returned (.ok true)) :
      List.Forall₂ (Passed m) (past.map (·.events)) turns := by
    induction hcut with
    | nil => exact .nil
    | cons hy _ ih =>
        obtain ⟨hwhole, hack⟩ := hy.whole (hall _ List.mem_cons_self)
        exact .cons ⟨hy.covers, hwhole, hack⟩ (ih fun y hy => hall y (List.mem_cons_of_mem _ hy))
  -- no cycle is under way: the last one that has ended may be incomplete
  have stopped (hcurrent : c.current = []) : ∃ parts turns es, ∃ last : Turn,
      c.events = parts.flatten ++ es ∧ List.Forall₂ (Passed m) parts turns ∧
        last.Covers m es := by
    obtain ⟨turns, hturns⟩ := h.cut
    rcases List.eq_nil_or_concat c.past with hpast | ⟨past, y, hpast⟩
    · exact ⟨[], [], [], .cutHeader [], by simp [events, hpast, hcurrent], .nil,
        show 0 < RequestHeader.encodedLen by decide, rfl, rfl⟩
    · rw [hpast, List.concat_eq_append] at hturns
      have hgo := h.went_on
      rw [hpast, List.concat_eq_append, List.dropLast_concat] at hgo
      have hbefore := List.forall₂_take past.length hturns
      have hlast := List.forall₂_drop past.length hturns
      rw [List.take_left] at hbefore
      rw [List.drop_left] at hlast
      obtain ⟨last, _, hy, -, -⟩ := List.forall₂_cons_left_iff.mp hlast
      refine ⟨_, _, y.events, last, ?_, passed hbefore hgo, hy.covers⟩
      simp [events, hpast, hcurrent, List.flatMap_def]
  have hphase := h.phase
  cases hp : c.phase with
  | serving t =>
      rw [hp] at hphase
      obtain ⟨hall, s, rfl, hpartial⟩ := hphase
      obtain ⟨turns, hturns⟩ := h.cut
      obtain ⟨last, hlast⟩ := ProtocolHandler.handleNext_cut_partial hpartial
      exact ⟨_, turns, c.current, last, by simp [events, List.flatMap_def],
        passed hturns hall, hlast⟩
  | woken s =>
      rw [hp] at hphase
      exact hphase.elim
  | tlsAccept =>
      rw [hp] at hphase
      exact stopped hphase.2
  | setUp =>
      rw [hp] at hphase
      exact stopped hphase.2
  | ended r =>
      rw [hp] at hphase
      exact stopped hphase
  | aborted =>
      rw [hp] at hphase
      exact stopped hphase

theorem received_of_passed {parts : List (List (Net Handler).Event)} {turns : List Turn}
    (h : List.Forall₂ (Passed m) parts turns) :
    received parts.flatten = turns.flatMap Turn.consumed := by
  induction h with
  | nil => rfl
  | cons hturn _ ih =>
      rw [List.flatten_cons, received_append, hturn.covers.consumed, ih, List.flatMap_cons]

theorem entered_of_passed {parts : List (List (Net Handler).Event)} {turns : List Turn}
    (h : List.Forall₂ (Passed m) parts turns) :
    entered parts.flatten = turns.flatMap Turn.calls := by
  induction h with
  | nil => rfl
  | cons hturn _ ih =>
      rw [List.flatten_cons, entered_append, hturn.covers.called, ih, List.flatMap_cons]

theorem valid_of_passed {parts : List (List (Net Handler).Event)} {turns : List Turn}
    (h : List.Forall₂ (Passed m) parts turns) :
    ∀ turn ∈ turns, turn.Valid m ∧ turn.Whole := by
  induction h with
  | nil => exact nofun
  | cons hturn _ ih =>
      intro turn hmem
      rcases List.mem_cons.mp hmem with rfl | hmem
      · exact ⟨hturn.covers.valid, hturn.whole⟩
      · exact ih turn hmem

/-- If nothing is received after the first operation that has failed, nothing is
received after a missing acknowledgement. -/
theorem consumed_of_unacknowledged {parts : List (List (Net Handler).Event)}
    {es : List (Net Handler).Event} {before after : List Turn} {turn : Turn}
    (h : List.Forall₂ (Passed m) parts (before ++ turn :: after))
    (hturn : ¬turn.Acknowledged)
    (hend : ∀ x e y, parts.flatten ++ es = x ++ e :: y → e.failed = true → received y = []) :
    after.flatMap Turn.consumed = [] ∧ received es = [] := by
  have hafter := List.forall₂_drop before.length h
  rw [List.drop_left] at hafter
  obtain ⟨part, rest, hpart, hrest, hparts⟩ := List.forall₂_cons_right_iff.mp hafter
  rcases hpart.acknowledged with hack | hbad
  · exact absurd hack hturn
  obtain ⟨e, he, hfailed⟩ := List.any_eq_true.mp hbad
  obtain ⟨x, y, rfl⟩ := List.append_of_mem he
  have hall : parts.flatten ++ es =
      ((parts.take before.length).flatten ++ x) ++ e :: (y ++ rest.flatten ++ es) := by
    conv_lhs => rw [← List.take_append_drop before.length parts, hparts]
    simp
  have hnone := hend _ e _ hall hfailed
  rw [received_append, received_append] at hnone
  obtain ⟨hnone, hes⟩ := List.append_eq_nil_iff.mp hnone
  rw [← received_of_passed hrest]
  exact ⟨(List.append_eq_nil_iff.mp hnone).2, hes⟩

/-- The stream of a client is cut into these turns, the last of which may be
incomplete. -/
structure Segmented (m : Nat) (stream : List UInt8) (c : ConnectionHandler) (turns : List Turn)
    (last : Turn) : Prop where
  stream : stream = (turns ++ [last]).flatMap Turn.consumed ++ c.inbox.bytes
  handled : c.handled = (turns ++ [last]).flatMap Turn.calls
  valid : ∀ turn ∈ turns ++ [last], turn.Valid m
  whole : ∀ turn ∈ turns, turn.Whole

/-- No operation of the transport has failed, but for reads at the end of the stream. -/
def OnlyEnds (c : ConnectionHandler) : Prop := ∀ e ∈ c.events, e.failed = true → e.AtEnd

/-- Whatever a client sends and however it arrives, the server cuts it into turns, hands
the payloads to the command handler, and stops after Finish or an error. A missing
acknowledgement is at the end of the stream, unless an operation has failed. -/
theorem run_segmented {c₀ c : ConnectionHandler} {acts : List Act} (hfresh : Fresh c₀)
    (hshutdown : ∀ a ∈ acts, a ≠ .wake)
    (hr : (machine handler maxBufferSize).run c₀ acts = some c) :
    (∃ turns last, Segmented (sizeLimit maxBufferSize) (delivered acts) c turns last ∧
      (OnlyEnds c → ClosesLast acts → ∀ before turn after, turns = before ++ turn :: after →
        ¬turn.Acknowledged → (after ++ [last]).flatMap Turn.consumed = [])) ∧
    (∀ request ∈ c.handled, request.1 ≠ Command.ping ∧
      request.2.length ≤ sizeLimit maxBufferSize) ∧
    ∀ before y after, c.past = before ++ y :: after → y.Final →
      after = [] ∧ c.current = [] := by
  have hparsed : Parsed (sizeLimit maxBufferSize) c :=
    (Parsed.of_fresh hfresh).run hshutdown hr
  obtain ⟨-, hbytes, hopen, hpast, hcurrent⟩ := hfresh
  have hnone : c₀.events = [] := by simp [events, hpast, hcurrent]
  have hstream := received_run hr
  rw [hnone, hbytes] at hstream
  obtain ⟨parts, turns, es, last, hevents, hpassed, hlast⟩ := hparsed.parts
  have hsegmented : Segmented (sizeLimit maxBufferSize) (delivered acts) c turns last := by
    refine ⟨?_, ?_, fun turn hturn => ?_, fun turn hturn => (valid_of_passed hpassed turn hturn).2⟩
    · rw [List.flatMap_append, List.flatMap_singleton, ← hlast.consumed,
        ← received_of_passed hpassed, ← received_append, ← hevents, hstream]
      rfl
    · rw [List.flatMap_append, List.flatMap_singleton, ← hlast.called,
        ← entered_of_passed hpassed, ← entered_append, ← hevents]
      rfl
    · rcases List.mem_append.mp hturn with hturn | hturn
      · exact (valid_of_passed hpassed turn hturn).1
      · rw [List.mem_singleton.mp hturn]
        exact hlast.valid
  refine ⟨⟨turns, last, hsegmented, ?_⟩, fun request hrequest => ?_, fun _ _ _ => hparsed.stops⟩
  · rintro hends hcloses before turn after rfl hturn
    have hstart : EndsOnce c₀ := fun before e after heq => by
      rw [hnone] at heq
      cases (List.append_eq_nil_iff.mp heq.symm).2
    have hquiet : EndsOnce c :=
      endsOnce_of_run hstart (fun hc => absurd (hopen.symm.trans hc) (by simp)) hcloses hr
    obtain ⟨hafter, hes⟩ := consumed_of_unacknowledged hpassed hturn fun x e y heq he =>
      (hquiet x e y (hevents.trans heq)
        (hends e (by rw [hevents, heq]; simp) he)).1
    rw [List.flatMap_append, List.flatMap_singleton, hafter, ← hlast.consumed, hes]
    rfl
  · rw [hsegmented.handled] at hrequest
    obtain ⟨turn, hturn, hcall⟩ := List.mem_flatMap.mp hrequest
    have hvalid := hsegmented.valid turn hturn
    cases turn with
    | request header data ack =>
        obtain rfl := List.mem_singleton.mp hcall
        exact ⟨hvalid.1.1, hvalid.2 ▸ hvalid.1.2⟩
    | _ => cases hcall

/-- A ping and a request with two bytes of payload, in three pieces; then the client
closes its end. -/
def pingThenRequest : List Act :=
  [.setUp true, .deliver [0, 0, 0, 0, 0, 0, 0, 0, 0, 0], .progress (.ready 8),
    .progress (.ready 1), .progress (.ready 0), .turn, .progress (.ready 2),
    .deliver [0, 1, 0, 0, 0, 2, 7], .progress (.ready 9), .progress (.ready 1),
    .progress (.ready 0), .progress (.ready 2), .deliver [9, 1], .close, .progress (.ready 1),
    .progress (.ready 0), .progress (.ready 0), .progress (.ready 5), .progress (.ready 0),
    .progress (.ready 1), .progress (.ready 2), .progress (.ready 0), .turn,
    .progress (.ready 1), .turn]

theorem run_segmented_pingThenRequest :
    ∃ c, (machine echo 16).run accepted pingThenRequest = some c ∧ c.handled = [(1, [7, 9])] ∧
      ∃ turns last, Segmented (sizeLimit 16) (delivered pingThenRequest) c turns last := by
  obtain ⟨c, hc, hhandled⟩ := Option.map_eq_some_iff.mp
    (show ((machine echo 16).run accepted pingThenRequest).map handled = some [(1, [7, 9])] by
      decide +kernel)
  obtain ⟨⟨turns, last, hsegmented, -⟩, -⟩ :=
    run_segmented fresh_accepted (by simp [pingThenRequest]) hc
  exact ⟨c, hc, hhandled, turns, last, hsegmented⟩

end ConnectionHandler

end Wagonet
