import Wagonet.ServerTransport

/-!
The status frame that answers a request header.

The size limit is checked twice: by `RequestHeader::decode`, whose error leaves
`read_command` at once, and by `read_command` itself, which answers with the
rejection status. The first check decides every request that exceeds the limit,
so the second never rejects anything.
-/

namespace Wagonet

open Library

/-- What `read_command` owes a client whose request header it has read: one status
frame, and the result that goes with it. -/
def StatusFrameRule (header : RequestHeader) (maxBufferSize : Nat) (frames : List UInt8)
    (r : Except Error (Option (UInt32 × Nat))) : Prop :=
  if header.command = Command.ping ∧ header.dataSize = 0 then
    frames = ResponseHeader.encode ⟨1, 0⟩ true ∧ r = .ok none
  else if header.command ≠ Command.ping ∧ header.dataSize.toNat ≤ maxBufferSize then
    frames = ResponseHeader.encode ⟨1, 0⟩ true ∧
      r = .ok (some (header.command, header.dataSize.toNat))
  else
    frames = ResponseHeader.encode ⟨7, 0⟩ true ∧ ∃ e, r = .error e

namespace FramedServer

variable {C : Interface} {s s' : FramedServer} {es : List (Net C).Event}

/-- The status frame that accepts or rejects a request, followed by the return. -/
theorem answer_run {α : Type} {status : UInt8} {timer : Timer}
    {m : Async (Net C) FramedServer Error α} {r : Except Error α}
    (h : ((sendResponseHeader status 0 true timer >>= fun _ => m) s).Run es s' r)
    (hok : anyFailed es = false) :
    ∃ es₁ es₂ s₁, es = es₁ ++ es₂ ∧ received es₁ = [] ∧
      sent es₁ = ResponseHeader.encode ⟨status, 0⟩ true ∧ (m s₁).Run es₂ s' r := by
  rcases Async.run_bind_iff.mp h with ⟨e, rfl, h₁⟩ | ⟨es₁, es₂, s₁, u, rfl, h₁, h₂⟩
  · obtain ⟨-, -, ⟨-, -, hr⟩ | ⟨hbad, -⟩⟩ := sendResponseHeader_run h₁
    · cases hr
    · rw [hbad] at hok
      cases hok
  · obtain ⟨hrec, -, ⟨hsent, -, -⟩ | ⟨hbad, -⟩⟩ := sendResponseHeader_run h₁
    · exact ⟨es₁, es₂, s₁, rfl, hrec, hsent, h₂⟩
    · simp [hbad] at hok

/-- A header that was read completely is handed to `decode`; what follows depends on
the header and the limit only. -/
theorem readCommand_run {header : RequestHeader} {r : Except Error (Option (UInt32 × Nat))}
    (h : (readCommand s : Task (Net C) _ _).Run es s' r)
    (hread : received es = header.encode) (hok : anyFailed es = false) :
    if header.dataSize.toNat > s.maxBufferSize then
      sent es = [] ∧ r = .error (.bufferOverflow header.dataSize.toNat s.maxBufferSize)
    else if header.command = Command.ping then
      if header.dataSize.toNat ≠ 0 then
        sent es = ResponseHeader.encode ⟨7, 0⟩ true ∧
          r = .error (.protocol "Ping must have data_size=0")
      else
        sent es = ResponseHeader.encode ⟨1, 0⟩ true ∧ r = .ok none
    else
      sent es = ResponseHeader.encode ⟨1, 0⟩ true ∧
        r = .ok (some (header.command, header.dataSize.toNat)) := by
  simp only [readCommand, Async.modify_bind_apply] at h
  rcases Async.run_bind_iff.mp h with ⟨e, rfl, h₁⟩ | ⟨es₁, es₂, s₁, u, rfl, h₁, h₂⟩
  · obtain ⟨-, ⟨-, -, hr, -⟩ | ⟨-, hbad, -⟩⟩ := readFrame_run h₁
    · cases hr
    · rw [hbad] at hok
      cases hok
  obtain ⟨hsent, ⟨hlen, -, -, hbuf, hmax⟩ | ⟨-, hbad, -⟩⟩ := readFrame_run h₁
  case inr => simp [hbad] at hok
  -- all eight bytes are there, so the rest of the function receives nothing
  have hrec : received es₁ = header.encode ∧ received es₂ = [] := by
    rw [received_append] at hread
    exact List.append_inj (hread.trans (List.append_nil _).symm) hlen
  have hok₂ : anyFailed es₂ = false := by
    simp only [anyFailed_append, Bool.or_eq_false_iff] at hok
    exact hok.2
  simp only [Async.get_bind_apply, hbuf, hrec.1, hmax, RequestHeader.decode_encode] at h₂
  rw [sent_append, hsent, List.nil_append]
  by_cases hlimit : header.dataSize.toNat > s.maxBufferSize
  · simp only [hlimit, if_true, Async.ofExcept_error_bind_apply, Task.run_done_iff] at h₂ ⊢
    obtain ⟨rfl, -, rfl⟩ := h₂
    exact ⟨rfl, rfl⟩
  simp only [hlimit, if_false, Async.ofExcept_ok_bind_apply, Async.modify_bind_apply] at h₂ ⊢
  by_cases hping : header.command = Command.ping
  · by_cases hsize : header.dataSize.toNat ≠ 0
    · simp only [hping, hsize, if_true, ne_eq, not_false_eq_true] at h₂ ⊢
      obtain ⟨es₃, es₄, s₂, rfl, -, hframe, h₃⟩ := answer_run h₂ hok₂
      obtain ⟨rfl, -, rfl⟩ := Task.run_done_iff.mp h₃
      exact ⟨by rw [List.append_nil, hframe], rfl⟩
    · simp only [hping, hsize, if_true, if_false] at h₂ ⊢
      obtain ⟨es₃, es₄, s₂, rfl, -, hframe, h₃⟩ := answer_run h₂ hok₂
      obtain ⟨rfl, -, rfl⟩ := Task.run_done_iff.mp h₃
      exact ⟨by rw [List.append_nil, hframe], rfl⟩
  · simp only [hping, if_false] at h₂ ⊢
    obtain ⟨es₃, es₄, s₂, rfl, -, hframe, h₃⟩ := answer_run h₂ hok₂
    obtain ⟨rfl, -, rfl⟩ := Task.run_done_iff.mp h₃
    exact ⟨by rw [List.append_nil, hframe], rfl⟩

end FramedServer

/-- The rule holds exactly for the requests within the size limit: a larger one makes
`decode` fail, and `read_command` returns without a status frame. -/
theorem statusFrameRule_iff {C : Interface} {header : RequestHeader} {s s' : FramedServer}
    {es : List (Net C).Event} {r : Except Error (Option (UInt32 × Nat))}
    (h : (ServerTL.readCommand s).Run es s' r ∨ (ServerTLS.readCommand s).Run es s' r)
    (hread : received es = header.encode) (hok : anyFailed es = false) :
    StatusFrameRule header s.maxBufferSize (sent es) r ↔
      header.dataSize.toNat ≤ s.maxBufferSize := by
  have hrun := FramedServer.readCommand_run (h.elim id id) hread hok
  have hzero : header.dataSize.toNat = 0 ↔ header.dataSize = 0 := by
    rw [← UInt32.toNat_inj]
    rfl
  unfold StatusFrameRule
  rcases Nat.lt_or_ge s.maxBufferSize header.dataSize.toNat with hlimit | hlimit
  · simp only [hlimit, if_true] at hrun
    have hpos : ¬(header.command = Command.ping ∧ header.dataSize = 0) := by
      rintro ⟨-, h0⟩
      rw [hzero.mpr h0] at hlimit
      exact absurd hlimit (Nat.not_lt_zero _)
    simp [hpos, hrun.1, Nat.not_le.mpr hlimit]
  · simp only [Nat.not_lt.mpr hlimit, if_false, ne_eq, ite_not] at hrun
    simp only [hlimit, and_true, iff_true, ← hzero]
    by_cases hping : header.command = Command.ping <;>
      by_cases hsize : header.dataSize.toNat = 0 <;> simp_all

/-- The events of `read_command` on a stream that delivers a header at once and takes
the status frame `frame` at once. -/
def headerEvents (header : RequestHeader) (timer : Timer) (frame : List UInt8) :
    List (Net .empty).Event :=
  ⟨.wait [.readHeader] (.read 8), .inr (.ok ⟨header.encode, Nat.le_refl _⟩)⟩ ::
    if frame = [] then []
    else [⟨.wait [timer] (.write frame), .inr (.ok ⟨frame.length, Nat.le_refl _⟩)⟩,
      ⟨.wait [] .flush, .inr (.ok ())⟩]

/-- A server with a size limit of 16 bytes. -/
def smallServer : FramedServer := ⟨.withCapacity 16, 16⟩

/-- A request of 16 bytes for command 42 is within the limit and accepted. -/
theorem statusFrameRule_accepted :
    ∃ s' r, (ServerTL.readCommand smallServer).Run (headerEvents ⟨42, 16⟩ .write [1]) s' r ∧
      (StatusFrameRule ⟨42, 16⟩ 16 (sent (headerEvents ⟨42, 16⟩ .write [1])) r ↔
        (16 : UInt32).toNat ≤ 16) := by
  obtain ⟨s', r, hr⟩ : ∃ s' r, (ServerTL.readCommand smallServer).Run
      (headerEvents ⟨42, 16⟩ .write [1]) s' r := Task.exists_run_of_replay (by decide +kernel)
  exact ⟨s', r, hr, statusFrameRule_iff (.inl hr) rfl rfl⟩

/-- A request of 17 bytes ends `read_command` without any status frame. -/
theorem statusFrameRule_not_oversized :
    ¬∀ (header : RequestHeader) (s s' : FramedServer) (es : List (Net .empty).Event)
      (r : Except Error (Option (UInt32 × Nat))),
      (ServerTL.readCommand s).Run es s' r → received es = header.encode →
        anyFailed es = false → StatusFrameRule header s.maxBufferSize (sent es) r := by
  intro h
  obtain ⟨s', r, hr⟩ : ∃ s' r, (ServerTL.readCommand smallServer).Run
      (headerEvents ⟨42, 17⟩ .write []) s' r := Task.exists_run_of_replay (by decide +kernel)
  have hrule := h ⟨42, 17⟩ smallServer s' (headerEvents ⟨42, 17⟩ .write []) r hr rfl rfl
  simp [StatusFrameRule, headerEvents, smallServer, Command.ping] at hrule

end Wagonet
