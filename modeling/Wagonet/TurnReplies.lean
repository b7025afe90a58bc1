import Mathlib
import Wagonet.Segmentation

/-!
What the server writes in one turn.

A status byte answers the header, and once the command handler has returned, the header
of the response and its payload follow. Wherever a cycle is cut off, it has written a
beginning of that. It goes on to another cycle only if it has written all of it, or if
the command handler had failed: then a reply that could not be sent is passed over.
-/

namespace Wagonet

open Library

/-- What the command handler has returned in a run. -/
def results (es : List (Net Handler).Event) : List CommandResult :=
  es.filterMap fun e =>
    match e with
    | ⟨.call .leave, result⟩ => some result
    | _ => none

@[simp] theorem results_nil : results [] = [] := rfl

@[simp] theorem results_append (es es' : List (Net Handler).Event) :
    results (es ++ es') = results es ++ results es' := List.filterMap_append

/-- Code that only awaits operations of the stream does not run the command handler. -/
theorem results_of_awaits {es : List (Net Handler).Event} (h : ∀ e ∈ es, Async.Awaits e.op) :
    results es = [] := by
  refine List.filterMap_eq_nil_iff.mpr fun e he => ?_
  have hop := h e he
  obtain ⟨o, r⟩ := e
  cases o with
  | wait ts a => rfl
  | call c => exact hop.elim

/-- Neither does it enter the command handler. -/
def Quiet (es : List (Net Handler).Event) : Prop := entered es = [] ∧ results es = []

theorem Quiet.of_awaits {es : List (Net Handler).Event} (h : ∀ e ∈ es, Async.Awaits e.op) :
    Quiet es := ⟨entered_of_awaits h, results_of_awaits h⟩

theorem quiet_append {es es' : List (Net Handler).Event} :
    Quiet (es ++ es') ↔ Quiet es ∧ Quiet es' := by
  simp only [Quiet, entered_append, results_append, List.append_eq_nil_iff]
  tauto

/-- The header that announces what the command handler has returned. -/
def responseHeader (result : CommandResult) : List UInt8 :=
  ResponseHeader.encode
    ⟨(responseOf result).1, FramedServer.dataSizeOf (some (responseOf result).2)⟩ false

namespace Turn

/-- The answer to a complete request header, if there is one. -/
def status (m : Nat) (header : RequestHeader) : List UInt8 :=
  if header.dataSize.toNat > m then []
  else if header.command = Command.ping ∧ header.dataSize.toNat ≠ 0 then [7]
  else [1]

/-- The response to a request, with the payload if its header was acknowledged. -/
def response (ack : Option UInt8) : List CommandResult → List UInt8
  | [] => []
  | result :: _ => responseHeader result ++ if ack = some 1 then (responseOf result).2 else []

/-- What is written in a turn in which the command handler has returned these results. -/
def replies (m : Nat) (results : List CommandResult) : Turn → List UInt8
  | .cutHeader _ => []
  | .ping => [1]
  | .refused header => status m header
  | .cutPayload _ _ => [1]
  | .request _ _ ack => 1 :: response ack results

theorem status_of_accepts {m : Nat} {header : RequestHeader} (h : Accepts m header) :
    status m header = [1] := by
  rw [status, if_neg (Nat.not_lt.mpr h.2), if_neg fun hping => h.1 hping.1]

theorem status_ping (m : Nat) : status m ⟨Command.ping, 0⟩ = [1] := by simp [status]

/-- The operations have consumed this turn and written a beginning of the reply to it. -/
structure Served (m : Nat) (es : List (Net Handler).Event) (turn : Turn) : Prop extends
    Covers m es turn where
  wrote : sent es <+: turn.replies m (results es)
  /-- a result is that of the one request -/
  answers : ∀ result ∈ results es, ∃ before after,
    es = before ++ ⟨.call .leave, result⟩ :: after ∧ entered before = entered es

/-- The whole reply was written and acknowledged, unless the command handler has failed. -/
def Done (es : List (Net Handler).Event) : Turn → Prop
  | .ping => sent es = [1]
  | .request _ _ ack => ∃ result, results es = [result] ∧
      ((sent es = 1 :: response ack [result] ∧ ack = some 1) ∨ ∃ e, result = .error e)
  | _ => False

theorem Done.whole {es : List (Net Handler).Event} {turn : Turn} (h : turn.Done es) :
    turn.Whole := by
  cases turn with
  | ping => trivial
  | request header data ack => trivial
  | _ => cases h

end Turn

/-! ### What the frames write -/

namespace FramedServer

variable {C : Interface} {s s' : FramedServer} {es : List (Net C).Event}

theorem sendResponseHeader_wrote {status : UInt8} {dataSize : UInt32} {isDefault : Bool}
    {timer : Timer} {r : Except Error Unit}
    (h : (sendResponseHeader status dataSize isDefault timer s : Task (Net C) _ _).Run es s' r) :
    sent es <+: ResponseHeader.encode ⟨status, dataSize⟩ isDefault ∧
      (r = .ok () → sent es = ResponseHeader.encode ⟨status, dataSize⟩ isDefault) := by
  have hok : r = .ok () → sent es = ResponseHeader.encode ⟨status, dataSize⟩ isDefault := by
    rintro rfl
    obtain ⟨-, -, ⟨hsent, -⟩ | ⟨-, e, hr⟩⟩ := sendResponseHeader_run h
    · exact hsent
    · cases hr
  refine ⟨?_, hok⟩
  simp only [sendResponseHeader, Async.modify_bind_apply, Async.get_bind_apply] at h
  rcases Async.run_bind_iff.mp h with ⟨e, rfl, h₁⟩ | ⟨es₁, es₂, s₁, u, rfl, h₁, h₂⟩
  · obtain ⟨-, -, ⟨hsent, -⟩ | ⟨⟨rest, -, hrest⟩, -⟩⟩ := writeLoop_within_run h₁
    · exact hsent ▸ List.prefix_rfl
    · exact ⟨rest, hrest.symm⟩
  · obtain ⟨-, -, ⟨hsent, -⟩ | ⟨-, -, e, hr⟩⟩ := writeLoop_within_run h₁
    case inr => cases hr
    have hquiet : sent es₂ = [] := by
      rcases Async.run_bind_iff.mp h₂ with ⟨e, rfl, h₃⟩ | ⟨es₃, es₄, s₂, u', rfl, h₃, h₄⟩
      · obtain ⟨r₁, -, h₃⟩ := Async.mapError_run_iff.mp h₃
        exact (flushStream_run h₃).2.1
      · obtain ⟨r₁, -, h₃⟩ := Async.mapError_run_iff.mp h₃
        obtain ⟨rfl, -, -⟩ := Task.run_done_iff.mp h₄
        rw [List.append_nil]
        exact (flushStream_run h₃).2.1
    rw [sent_append, hquiet, hsent, List.append_nil]
    exact List.prefix_rfl

/-- A header that is not complete is not answered, and any other by its status at most. -/
theorem readCommand_wrote {r : Except Error (Option (UInt32 × Nat))}
    (h : (readCommand s : Task (Net C) _ _).Run es s' r) :
    ((received es).length < RequestHeader.encodedLen → sent es = []) ∧
      ∀ header : RequestHeader, received es = header.encode →
        sent es <+: Turn.status s.maxBufferSize header ∧
          ∀ command, r = .ok command → sent es = Turn.status s.maxBufferSize header := by
  simp only [readCommand, Async.modify_bind_apply] at h
  rcases Async.run_bind_iff.mp h with ⟨e, rfl, h₁⟩ | ⟨es₁, es₂, s₁, u, rfl, h₁, h₂⟩
  · obtain ⟨hsent, -⟩ := readFrame_run h₁
    exact ⟨fun _ => hsent, fun header _ => ⟨hsent ▸ List.nil_prefix, by rintro a ⟨⟩⟩⟩
  obtain ⟨hsent, ⟨hlen, -, -, hbuf, hmax⟩ | ⟨-, -, e, hr⟩⟩ := readFrame_run h₁
  case inr => cases hr
  refine ⟨fun hshort => ?_, fun header hheader => ?_⟩
  · rw [received_append, List.length_append] at hshort
    omega
  -- nothing is read after the header
  have hread : received es₁ = header.encode := by
    rw [received_append] at hheader
    exact List.append_inj_left (hheader.trans (List.append_nil _).symm) hlen
  rw [sent_append, hsent, List.nil_append]
  simp only [Async.get_bind_apply, hbuf, hread, hmax, RequestHeader.decode_encode] at h₂
  have answer {α : Type} {code : UInt8} {timer : Timer} {q : Except Error α}
      {s s' : FramedServer} {es : List (Net C).Event} {r : Except Error α}
      (h : ((sendResponseHeader code 0 true timer >>= fun _ => Async.ofExcept q) s).Run es s' r) :
      sent es <+: [code] ∧ ∀ a, r = .ok a → sent es = [code] := by
    rcases Async.run_bind_iff.mp h with ⟨e, rfl, h₁⟩ | ⟨es₁, es₂, s₁, u, rfl, h₁, h₂⟩
    · exact ⟨(sendResponseHeader_wrote h₁).1, by rintro a ⟨⟩⟩
    · obtain ⟨rfl, -, -⟩ := Task.run_done_iff.mp h₂
      rw [List.append_nil]
      exact ⟨(sendResponseHeader_wrote h₁).1, fun _ _ => (sendResponseHeader_wrote h₁).2 rfl⟩
  rw [Turn.status]
  by_cases hlimit : header.dataSize.toNat > s.maxBufferSize
  · simp only [hlimit, if_true, Async.ofExcept_error_bind_apply, Task.run_done_iff] at h₂
    obtain ⟨rfl, -, rfl⟩ := h₂
    exact ⟨List.nil_prefix, by rintro a ⟨⟩⟩
  simp only [hlimit, if_false, Async.ofExcept_ok_bind_apply, Async.modify_bind_apply] at h₂ ⊢
  by_cases hping : header.command = Command.ping
  · by_cases hsize : header.dataSize.toNat ≠ 0
    · simp only [hping, hsize, if_true, ne_eq, not_false_eq_true, and_self] at h₂ ⊢
      exact answer (q := .error _) h₂
    · simp only [hping, hsize, if_true, if_false, and_false] at h₂ ⊢
      exact answer (q := .ok _) h₂
  · simp only [hping, if_false, false_and] at h₂ ⊢
    exact answer (q := .ok _) h₂

/-- A payload is received without sending anything. -/
theorem receiveData_wrote {n : Nat} {r : Except Error (List UInt8)}
    (h : (receiveData n s : Task (Net C) _ _).Run es s' r) : sent es = [] := by
  rw [receiveData, Async.get_bind_apply] at h
  split at h
  · obtain ⟨rfl, -, -⟩ := Task.run_done_iff.mp h
    rfl
  rw [Async.modify_bind_apply] at h
  rcases Async.run_bind_iff.mp h with ⟨e, rfl, h₁⟩ | ⟨es₁, es₂, s₁, u, rfl, h₁, h₂⟩
  · exact (readFrame_run h₁).1
  · rw [Async.get_bind_apply, Async.modify_bind_apply] at h₂
    obtain ⟨rfl, -, -⟩ := Task.run_done_iff.mp h₂
    rw [List.append_nil]
    exact (readFrame_run h₁).1

/-- The payload of a response is sent after its header was acknowledged, and not
otherwise. -/
theorem sendData_wrote {status : UInt8} {buf : List UInt8} {r : Except Error Unit}
    (h : (sendData status (some buf) s : Task (Net C) _ _).Run es s' r) :
    ∃ ack : Option UInt8, received es = ack.toList ∧
      sent es <+: ResponseHeader.encode ⟨status, dataSizeOf (some buf)⟩ false ++
        (if ack = some 1 then buf else []) ∧
      (r = .ok () → ack = some 1 ∧
        sent es = ResponseHeader.encode ⟨status, dataSizeOf (some buf)⟩ false ++ buf) := by
  have hread := h
  simp only [sendData, Option.isNone_some] at h
  rcases Async.run_bind_iff.mp h with ⟨e, rfl, h₁⟩ | ⟨es₁, es₂, s₁, u, rfl, h₁, h₂⟩
  · refine ⟨none, (sendResponseHeader_run h₁).1, ?_, by rintro ⟨⟩⟩
    rw [if_neg (by simp), List.append_nil]
    exact (sendResponseHeader_wrote h₁).1
  have hrec := (sendResponseHeader_run h₁).1
  have hheader := (sendResponseHeader_wrote h₁).2 rfl
  rcases Async.run_bind_iff.mp h₂ with ⟨e, rfl, h₃⟩ | ⟨es₃, es₄, s₂, header, rfl, h₃, h₄⟩
  · obtain ⟨ack, hack⟩ := sendData_cut hread
    refine ⟨ack, hack, ?_, by rintro ⟨⟩⟩
    rw [sent_append, hheader, (receiveResponseHeader_run h₃).1]
    exact List.prefix_append_right_inj _ |>.mpr List.nil_prefix
  obtain ⟨hsent, ⟨ack, hack, -, hr⟩ | ⟨-, e, hr⟩⟩ := receiveResponseHeader_run h₃
  case inr => cases hr
  obtain rfl : header = ⟨ack, 0⟩ := by cases hr; rfl
  simp only [sent_append, hheader, hsent, List.nil_append, received_append, hrec, hack,
    List.prefix_append_right_inj, List.append_cancel_left_eq]
  by_cases hone : ack = 1
  · subst hone
    simp only [ne_eq, not_true_eq_false, if_false] at h₄
    rcases Async.run_bind_iff.mp h₄ with ⟨e, rfl, h₅⟩ | ⟨es₅, es₆, s₃, u', rfl, h₅, h₆⟩
    · obtain ⟨hrec₅, -, ⟨hsent₅, -⟩ | ⟨⟨rest, -, hrest⟩, -⟩⟩ := writeLoop_within_run h₅
      · exact ⟨some 1, by rw [hrec₅]; rfl, by rw [hsent₅, if_pos rfl], by rintro ⟨⟩⟩
      · refine ⟨some 1, by rw [hrec₅]; rfl, ?_, by rintro ⟨⟩⟩
        rw [if_pos rfl]
        exact ⟨rest, hrest.symm⟩
    obtain ⟨hrec₅, -, ⟨hsent₅, -⟩ | ⟨-, -, e, hr⟩⟩ := writeLoop_within_run h₅
    case inr => cases hr
    have hquiet : received es₆ = [] ∧ sent es₆ = [] := by
      rcases Async.run_bind_iff.mp h₆ with ⟨e, rfl, h₇⟩ | ⟨es₇, es₈, s₄, u', rfl, h₇, h₈⟩
      · obtain ⟨r₁, -, h₇⟩ := Async.mapError_run_iff.mp h₇
        obtain ⟨hr, hs, -⟩ := flushStream_run h₇
        exact ⟨hr, hs⟩
      · obtain ⟨r₁, -, h₇⟩ := Async.mapError_run_iff.mp h₇
        obtain ⟨hr, hs, -⟩ := flushStream_run h₇
        obtain ⟨rfl, -, -⟩ := Task.run_done_iff.mp h₈
        simp [hr, hs]
    refine ⟨some 1, by simp [hrec₅, hquiet.1], ?_, fun _ => ⟨rfl, by simp [hsent₅, hquiet.2]⟩⟩
    simp [hsent₅, hquiet.2]
  · simp only [ne_eq, hone, not_false_eq_true, if_true, Async.fail_apply, Task.run_done_iff] at h₄
    obtain ⟨rfl, -, rfl⟩ := h₄
    exact ⟨some ack, rfl, List.nil_prefix, by rintro ⟨⟩⟩

end FramedServer

/-! ### What a cycle writes -/

namespace ProtocolHandler

variable {s s' : FramedServer} {es : List (Net Handler).Event} {r : Except Error Bool}

/-- The part of a cycle after the payload was read: the command handler is run, and its
result is sent. -/
theorem respond_wrote {command : UInt32} {data : List UInt8}
    (h : ((do
      match ← runCommand command data with
      | .ok (status, responseData) => do
          FramedServer.sendData status.toU8 (some responseData)
          if status = .finish then pure false else pure true
      | .error _ => do
          let _ ← Async.attempt (FramedServer.sendData ResponseStatus.error.toU8 (some []))
          pure true : Async (Net Handler) FramedServer Error Bool) s).Run es s' r) :
    ∃ (result : CommandResult) (rest : List (Net Handler).Event) (ack : Option UInt8),
      es = ⟨.call (.enter command data), ()⟩ :: ⟨.call .leave, result⟩ :: rest ∧
      Quiet rest ∧ received rest = ack.toList ∧ sent rest <+: Turn.response ack [result] ∧
      (r = .ok true →
        (sent rest = Turn.response ack [result] ∧ ack = some 1) ∨ ∃ e, result = .error e) := by
  rcases Async.run_bind_iff.mp h with ⟨e, rfl, h₁⟩ | ⟨es₁, es₂, s₁, result, rfl, h₁, h₂⟩
  · obtain ⟨_, -, hr⟩ := runCommand_run h₁
    cases hr
  obtain ⟨_, rfl, hr⟩ := runCommand_run h₁
  cases hr
  have hsend : ∃ s₂ r₂, (FramedServer.sendData (responseOf result).1
      (some (responseOf result).2) s₁).Run es₂ s₂ r₂ ∧
      (r = .ok true → r₂ = .ok () ∨ ∃ e, result = .error e) := by
    match result with
    | .ok (status, responseData) =>
        rcases Async.run_bind_iff.mp h₂ with ⟨e, rfl, h₃⟩ | ⟨es₃, es₄, s₂, u, rfl, h₃, h₄⟩
        · exact ⟨_, _, h₃, nofun⟩
        · have hnil : es₄ = [] := by
            split at h₄
            · exact (Task.run_done_iff.mp h₄).1
            · exact (Task.run_done_iff.mp h₄).1
          subst hnil
          exact ⟨_, _, by rwa [List.append_nil], fun _ => .inl rfl⟩
    | .error e =>
        rcases Async.run_bind_iff.mp h₂ with ⟨e', -, h₃⟩ | ⟨es₃, es₄, s₂, u, rfl, h₃, h₄⟩
        · obtain ⟨r₁, -, h₃⟩ := Async.attempt_run_iff.mp h₃
          exact ⟨_, _, h₃, fun _ => .inr ⟨e, rfl⟩⟩
        · obtain ⟨r₁, -, h₃⟩ := Async.attempt_run_iff.mp h₃
          obtain ⟨rfl, -, -⟩ := Task.run_done_iff.mp h₄
          exact ⟨_, _, by rwa [List.append_nil], fun _ => .inr ⟨e, rfl⟩⟩
  obtain ⟨s₂, r₂, hsend, hr⟩ := hsend
  obtain ⟨ack, hack, hwrote, hall⟩ := FramedServer.sendData_wrote hsend
  refine ⟨result, es₂, ack, rfl, .of_awaits ((FramedServer.awaits_sendData s₁).run hsend), hack,
    hwrote, fun htrue => (hr htrue).imp_left fun hok => ?_⟩
  obtain ⟨rfl, hsent⟩ := hall hok
  exact ⟨by rw [hsent, Turn.response, if_pos rfl, responseHeader], rfl⟩

/-- A cycle enters the command handler once at most, and before that it has sent no more
than the answer to the header. -/
theorem handleNext_shape (h : (handleNext s).Run es s' r) :
    (Quiet es ∧ ∃ turn : Turn, turn.Covers s.maxBufferSize es ∧
        sent es <+: turn.replies s.maxBufferSize [] ∧
        (r = .ok true → turn = .ping ∧ sent es = [1])) ∨
      ∃ (header : RequestHeader) (data : List UInt8) (before rest : List (Net Handler).Event)
        (result : CommandResult) (ack : Option UInt8),
        es = before ++
          ⟨.call (.enter header.command data), ()⟩ :: ⟨.call .leave, result⟩ :: rest ∧
        (Turn.request header data ack).Valid s.maxBufferSize ∧
        Quiet before ∧ received before = header.encode ++ data ∧ sent before = [1] ∧
        Quiet rest ∧ received rest = ack.toList ∧ sent rest <+: Turn.response ack [result] ∧
        (r = .ok true →
          (sent rest = Turn.response ack [result] ∧ ack = some 1) ∨ ∃ e, result = .error e) := by
  rcases Async.run_bind_iff.mp h with ⟨e, rfl, h₁⟩ | ⟨es₁, es₂, s₁, command, rfl, h₁, h₂⟩
  · have hquiet := Quiet.of_awaits ((FramedServer.awaits_readCommand s).run h₁)
    obtain ⟨hcut, hwrote⟩ := FramedServer.readCommand_wrote h₁
    refine .inl ⟨hquiet, ?_⟩
    rcases FramedServer.readCommand_cut h₁ with
      ⟨hlen, -⟩ | ⟨header, hheader, ⟨hrefused, -⟩ | ⟨-, hr⟩ | ⟨haccepts, -⟩⟩
    · refine ⟨.cutHeader (received es), ⟨hlen, by simp [Turn.consumed, Turn.frames], hquiet.1⟩, ?_,
        nofun⟩
      rw [hcut hlen]
      exact List.nil_prefix
    · exact ⟨.refused header, ⟨hrefused, by simp [Turn.consumed, Turn.frames, hheader], hquiet.1⟩,
        (hwrote header hheader).1, nofun⟩
    · cases hr
    · refine ⟨.cutPayload header [], ⟨⟨haccepts, Nat.zero_le _⟩,
        by simp [Turn.consumed, Turn.frames, hheader], hquiet.1⟩, ?_, nofun⟩
      have hsent := (hwrote header hheader).1
      rwa [Turn.status_of_accepts haccepts] at hsent
  have hquiet₁ := Quiet.of_awaits ((FramedServer.awaits_readCommand s).run h₁)
  have hmax : s₁.maxBufferSize = s.maxBufferSize :=
    (FramedServer.keeps_readCommand (m := s.maxBufferSize) s rfl).of_run h₁
  obtain ⟨-, hwrote⟩ := FramedServer.readCommand_wrote h₁
  rcases FramedServer.readCommand_cut h₁ with
    ⟨-, e, hr⟩ | ⟨header, hheader, ⟨-, e, hr⟩ | ⟨hping, hr⟩ | ⟨haccepts, ⟨e, hr⟩ | hr⟩⟩
  · cases hr
  · cases hr
  · cases hr
    obtain ⟨rfl, -, -⟩ := Task.run_done_iff.mp h₂
    have hsent : sent es₁ = [1] := by
      rw [(hwrote header hheader).2 none rfl, hping, Turn.status_ping]
    rw [List.append_nil]
    exact .inl ⟨hquiet₁, .ping,
      ⟨trivial, by simp [Turn.consumed, Turn.frames, hheader, hping], hquiet₁.1⟩,
      hsent ▸ List.prefix_rfl, fun _ => ⟨rfl, hsent⟩⟩
  · cases hr
  cases hr
  have hsent₁ : sent es₁ = [1] := by
    rw [(hwrote header hheader).2 _ rfl, Turn.status_of_accepts haccepts]
  rcases Async.run_bind_iff.mp h₂ with ⟨e, rfl, h₃⟩ | ⟨es₃, es₄, s₂, data, rfl, h₃, h₄⟩
  · have hquiet₂ := Quiet.of_awaits ((FramedServer.awaits_receiveData s₁).run h₃)
    have hquiet := quiet_append.mpr ⟨hquiet₁, hquiet₂⟩
    rcases FramedServer.receiveData_cut (hmax ▸ haccepts.2) h₃ with ⟨-, hr⟩ | ⟨hlen, -⟩
    · cases hr
    refine .inl ⟨hquiet, .cutPayload header (received es₂), ⟨⟨haccepts, Nat.le_of_lt hlen⟩, ?_,
      hquiet.1⟩, ?_, nofun⟩
    · simp [Turn.consumed, Turn.frames, hheader]
    · rw [sent_append, hsent₁, FramedServer.receiveData_wrote h₃]
      exact List.prefix_rfl
  have hquiet₃ := Quiet.of_awaits ((FramedServer.awaits_receiveData s₁).run h₃)
  rcases FramedServer.receiveData_cut (hmax ▸ haccepts.2) h₃ with ⟨hlen, hr⟩ | ⟨-, e, hr⟩
  case inr => cases hr
  cases hr
  obtain ⟨result, rest, ack, rfl, hquiet₄, hack, hsent₄, hdone⟩ := respond_wrote h₄
  refine .inr ⟨header, received es₃, es₁ ++ es₃, rest, result, ack, by simp, ⟨haccepts, hlen⟩,
    quiet_append.mpr ⟨hquiet₁, hquiet₃⟩, by simp [hheader], ?_, hquiet₄, hack, hsent₄, hdone⟩
  rw [sent_append, hsent₁, FramedServer.receiveData_wrote h₃]
  rfl

section

variable {m : Nat} {header : RequestHeader} {data : List UInt8}
  {before rest : List (Net Handler).Event} {result : CommandResult} {ack : Option UInt8}

/-- A cycle in which the command handler has returned has served its request. -/
theorem served_of_request (hvalid : (Turn.request header data ack).Valid m)
    (hbefore : Quiet before) (hread : received before = header.encode ++ data)
    (hsent : sent before = [1]) (hrest : Quiet rest) (hack : received rest = ack.toList)
    (hwrote : sent rest <+: Turn.response ack [result])
    (hes : es = before ++
      ⟨.call (.enter header.command data), ()⟩ :: ⟨.call .leave, result⟩ :: rest) :
    (Turn.request header data ack).Served m es ∧ results es = [result] ∧
      sent es = 1 :: sent rest := by
  have hresults : results es = [result] := by
    rw [hes, results_append, hbefore.2]
    exact congrArg (result :: ·) hrest.2
  have hentered : entered es = [(header.command, data)] := by
    rw [hes, entered_append, hbefore.1]
    exact congrArg ((header.command, data) :: ·) hrest.1
  have hall : sent es = 1 :: sent rest := by
    rw [hes, sent_append, hsent]
    rfl
  refine ⟨⟨⟨hvalid, ?_, hentered⟩, ?_, ?_⟩, hresults, hall⟩
  · rw [hes, received_append, hread, received_cons, received_cons, hack]
    simp [Turn.consumed, Turn.frames]
  · rw [hresults, hall]
    exact List.cons_prefix_cons.mpr ⟨rfl, hwrote⟩
  · rw [hresults, hentered]
    rintro result' hresult'
    rw [List.mem_singleton.mp hresult']
    refine ⟨before ++ [⟨.call (.enter header.command data), ()⟩], rest, by rw [hes]; simp, ?_⟩
    rw [entered_append, hbefore.1]
    rfl

/-- The same for the part of the cycle after which nothing was received or sent. -/
theorem served_of_shape {es' : List (Net Handler).Event}
    (hall : es ++ es' = before ++
      ⟨.call (.enter header.command data), ()⟩ :: ⟨.call .leave, result⟩ :: rest)
    (hsilent : received es' = [] ∧ sent es' = [])
    (hvalid : (Turn.request header data ack).Valid m)
    (hbefore : Quiet before) (hread : received before = header.encode ++ data)
    (hsent : sent before = [1]) (hrest : Quiet rest) (hack : received rest = ack.toList)
    (hwrote : sent rest <+: Turn.response ack [result]) : ∃ turn : Turn, turn.Served m es := by
  -- the part ends before the command handler is entered
  have early (mid : List (Net Handler).Event) (hbefore' : before = es ++ mid)
      (hmid : received mid = [] ∧ sent mid = []) : ∃ turn : Turn, turn.Served m es := by
    subst hbefore'
    rw [received_append, hmid.1, List.append_nil] at hread
    rw [sent_append, hmid.2, List.append_nil] at hsent
    have hquiet := (quiet_append.mp hbefore).1
    refine ⟨.cutPayload header data, ⟨⟨hvalid.1, Nat.le_of_eq hvalid.2⟩, ?_, hquiet.1⟩, ?_, ?_⟩
    · rw [hread]
      simp [Turn.consumed, Turn.frames]
    · rw [hsent]
      exact List.prefix_rfl
    · rw [hquiet.2]
      exact fun result hresult => absurd hresult List.not_mem_nil
  rcases List.append_eq_append_iff.mp hall with ⟨mid, hmid, rfl⟩ | ⟨after, rfl, hafter⟩
  · rw [received_append, sent_append, List.append_eq_nil_iff, List.append_eq_nil_iff] at hsilent
    exact early mid hmid ⟨hsilent.1.1, hsilent.2.1⟩
  rcases after with _ | ⟨e, _ | ⟨e', after⟩⟩
  · exact early [] (by simp) ⟨rfl, rfl⟩
  · -- it ends while the command handler runs
    obtain ⟨rfl, -⟩ := List.cons.inj hafter
    refine ⟨.request header data none, ⟨hvalid, ?_, ?_⟩, ?_, ?_⟩
    · rw [received_append, hread]
      simp [Turn.consumed, Turn.frames]
    · rw [entered_append, hbefore.1]
      rfl
    · rw [sent_append, hsent, results_append, hbefore.2]
      exact List.prefix_rfl
    · rw [results_append, hbefore.2]
      exact fun result hresult => absurd hresult List.not_mem_nil
  · obtain ⟨rfl, htail⟩ := List.cons.inj hafter
    obtain ⟨rfl, -⟩ := List.cons.inj htail
    obtain rfl : rest = after ++ es' := (List.cons.inj htail).2
    rw [received_append, hsilent.1, List.append_nil] at hack
    rw [sent_append, hsilent.2, List.append_nil] at hwrote
    exact ⟨.request header data ack, (served_of_request hvalid hbefore hread hsent
      (quiet_append.mp hrest).1 hack hwrote rfl).1⟩

end

/-- A cycle, wherever it is cut off, has served one turn. -/
theorem served_of_partial {t : Task (Net Handler) FramedServer (Except Error Bool)}
    (h : (handleNext s).Partial es t) : ∃ turn : Turn, turn.Served s.maxBufferSize es := by
  -- let it end without receiving or sending any more
  obtain ⟨es', s', r, hrun, hsent, hreceived⟩ := t.exists_quiet_run fun c => by
    match c with
    | .enter _ _ => exact ⟨()⟩
    | .leave => exact ⟨.error (.msg "")⟩
  rcases handleNext_shape (h.run hrun) with
    ⟨hquiet, turn, ⟨hvalid, hconsumed, hcalled⟩, hwrote, -⟩ | ⟨header, data, before, rest, result,
      ack, hall, hvalid, hbefore, hread, hsent', hrest, hack, hwrote, -⟩
  · obtain ⟨hentered, hresults⟩ := (quiet_append.mp hquiet).1
    rw [received_append, hreceived, List.append_nil] at hconsumed
    rw [sent_append, hsent, List.append_nil] at hwrote
    rw [hquiet.1] at hcalled
    refine ⟨turn, ⟨hvalid, hconsumed, hentered.trans hcalled⟩, by rwa [hresults], ?_⟩
    rw [hresults]
    exact nofun
  · exact served_of_shape hall ⟨hreceived, hsent⟩ hvalid hbefore hread hsent' hrest hack hwrote

/-- A cycle that is followed by another one is done with its turn. -/
theorem done_of_run (h : (handleNext s).Run es s' (.ok true)) :
    ∃ turn : Turn, turn.Served s.maxBufferSize es ∧ turn.Done es := by
  rcases handleNext_shape h with
    ⟨hquiet, turn, hcovers, hwrote, hdone⟩ | ⟨header, data, before, rest, result, ack, rfl, hvalid,
      hbefore, hread, hsent, hrest, hack, hwrote, hdone⟩
  · obtain ⟨rfl, hsent⟩ := hdone rfl
    refine ⟨.ping, ⟨hcovers, by rwa [hquiet.2], ?_⟩, hsent⟩
    rw [hquiet.2]
    exact nofun
  · obtain ⟨hserved, hresults, hall⟩ := served_of_request hvalid hbefore hread hsent hrest hack
      hwrote rfl
    refine ⟨.request header data ack, hserved, result, hresults, (hdone rfl).imp_left ?_⟩
    rintro ⟨hsent', rfl⟩
    exact ⟨by rw [hall, hsent'], rfl⟩

end ProtocolHandler

end Wagonet
