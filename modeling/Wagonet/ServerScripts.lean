import Wagonet.Library.Conversation
import Wagonet.ProtocolHandler

/-!
The scripts the server follows when no timer runs out.
-/

namespace Wagonet

open Library

/-- Of all timers only the one in the second half of a ping response runs out. -/
def ProbeOnly (t : Timer) : Prop := t = .pingOldFormatRead

namespace FramedServer

variable {C : Interface} {s : FramedServer}

/-- The function ends with `r` and leaves the size limit alone. -/
def Ends {α : Type} (s : FramedServer) (r : Except Error α) (s' : FramedServer)
    (r' : Except Error α) : Prop :=
  s'.maxBufferSize = s.maxBufferSize ∧ r' = r

theorem follows_readFrame {ι : Type} {T : Timer} {elapsed : Error} {conv : ι → Error}
    {eof : Nat → ι} {io : IoError → ι} (bs : List UInt8) (hT : ¬ProbeOnly T) :
    Follows ProbeOnly (Async.within (C := C) T elapsed conv
        (readLoop bs.length fill eof io bs.length []) (resizeBuffer bs.length s))
      (bs.map .recv) fun s' r => Ends s (.ok bs) s' r ∧ s'.buffer.bytes = bs := by
  refine .within hT ((Follows.readLoop keepsLongest_fill (by simp) (by simp)).mono ?_)
  rintro s' r ⟨rfl, hs⟩
  have hlen : (resizeBuffer bs.length s).buffer.bytes.length = bs.length :=
    ByteVec.resize_length _ _
  refine ⟨⟨?_, rfl⟩, ?_⟩
  · rw [hs]
    split <;> rfl
  · rw [hs]
    split
    · rename_i hnil
      subst hnil
      exact List.eq_nil_of_length_eq_zero hlen
    · exact ByteVec.overwrite_all hlen.symm

theorem follows_readFrame_eof {ι : Type} {T : Timer} {elapsed : Error} {conv : ι → Error}
    {eof : Nat → ι} {io : IoError → ι} {n : Nat} (hn : 0 < n) (hT : ¬ProbeOnly T) :
    Follows ProbeOnly (Async.within (C := C) T elapsed conv (readLoop n fill eof io n [])
        (resizeBuffer n s))
      [.eof] fun s' r => Ends s (.error (conv (eof 0))) s' r := by
  obtain ⟨m, rfl⟩ := Nat.exists_eq_add_of_lt hn
  refine .within hT ((Follows.readLoop_eof (by omega)).mono ?_)
  rintro s' r ⟨rfl, rfl⟩
  exact ⟨rfl, rfl⟩

theorem follows_sendResponseHeader (status : UInt8) (dataSize : UInt32) (isDefault : Bool)
    {T : Timer} (hT : ¬ProbeOnly T) :
    Follows ProbeOnly (sendResponseHeader status dataSize isDefault T s : Task (Net C) _ _)
      ((ResponseHeader.encode ⟨status, dataSize⟩ isDefault).map .send ++ [.flush])
      (Ends s (.ok ())) := by
  simp only [sendResponseHeader, Async.modify_bind_apply, Async.get_bind_apply]
  refine .seq (P := fun s' _ => s'.maxBufferSize = s.maxBufferSize)
    (.within hT ((Follows.writeLoop (Nat.le_refl _)).mono ?_)) ?_
  · rintro s' r ⟨rfl, rfl⟩
    exact ⟨(), rfl, rfl⟩
  · intro s' _ hs'
    rw [← List.append_nil [_]]
    refine .seq (P := fun s'' _ => s'' = s') (.mapError (Follows.flush.mono ?_)) ?_
    · rintro s'' r ⟨rfl, rfl⟩
      exact ⟨(), rfl, rfl⟩
    · rintro s'' _ rfl
      exact ⟨rfl, hs', rfl⟩

/-- What `read_command` makes of a header that was read completely. -/
def commandResult (header : RequestHeader) (maxBufferSize : Nat) :
    Except Error (Option (UInt32 × Nat)) :=
  if header.dataSize.toNat > maxBufferSize then
    .error (.bufferOverflow header.dataSize.toNat maxBufferSize)
  else if header.command = Command.ping then
    if header.dataSize.toNat ≠ 0 then .error (.protocol "Ping must have data_size=0")
    else .ok none
  else
    .ok (some (header.command, header.dataSize.toNat))

/-- The part of the script that answers a request header. -/
def statusTokens (header : RequestHeader) (maxBufferSize : Nat) : List (Token Timer C) :=
  if header.dataSize.toNat > maxBufferSize then []
  else if header.command = Command.ping ∧ header.dataSize.toNat ≠ 0 then [.send 7, .flush]
  else [.send 1, .flush]

theorem follows_readCommand (header : RequestHeader) :
    Follows ProbeOnly (readCommand s : Task (Net C) _ _)
      (header.encode.map .recv ++ statusTokens header s.maxBufferSize)
      (Ends s (commandResult header s.maxBufferSize)) := by
  have hdone : ∀ {α : Type} {status : UInt8} {T : Timer} {s₁ : FramedServer}
      {r : Except Error α}, ¬ProbeOnly T → s₁.maxBufferSize = s.maxBufferSize →
      Follows ProbeOnly
        ((sendResponseHeader status 0 true T >>= fun _ => Async.ofExcept r) s₁ :
          Task (Net C) _ _)
        [.send status, .flush] (Ends s r) := by
    intro α status T s₁ r hT hs₁
    rw [← List.append_nil [_, _]]
    refine .seq (P := fun s' _ => s'.maxBufferSize = s.maxBufferSize)
      ((follows_sendResponseHeader status 0 true hT).mono ?_) ?_
    · rintro s' r ⟨hs', rfl⟩
      exact ⟨(), rfl, hs'.trans hs₁⟩
    · intro s' _ hs'
      exact ⟨rfl, hs', rfl⟩
  simp only [readCommand, Async.modify_bind_apply]
  refine .seq (P := fun s' _ => s'.maxBufferSize = s.maxBufferSize ∧
    s'.buffer.bytes = header.encode)
    ((follows_readFrame (T := .readHeader) header.encode (by rintro ⟨⟩)).mono ?_) ?_
  · rintro s' r ⟨⟨hs', rfl⟩, hbuf⟩
    exact ⟨_, rfl, hs', hbuf⟩
  rintro s₁ _ ⟨hs₁, hbuf⟩
  simp only [Async.get_bind_apply, hbuf, hs₁, RequestHeader.decode_encode, statusTokens,
    commandResult]
  by_cases hlimit : header.dataSize.toNat > s.maxBufferSize
  · simp only [hlimit, if_true, Async.ofExcept_error_bind_apply]
    exact ⟨rfl, hs₁, rfl⟩
  simp only [hlimit, if_false, Async.ofExcept_ok_bind_apply, Async.modify_bind_apply]
  by_cases hping : header.command = Command.ping
  · by_cases hsize : header.dataSize.toNat = 0
    · simp only [hping, hsize, if_true, if_false, ne_eq, not_true_eq_false, and_false]
      exact hdone (by rintro ⟨⟩) hs₁
    · simp only [hping, hsize, if_true, ne_eq, not_false_eq_true, and_self]
      exact hdone (by rintro ⟨⟩) hs₁
  · simp only [hping, if_false, false_and]
    exact hdone (by rintro ⟨⟩) hs₁

theorem follows_receiveData {data : List UInt8} (h : data.length ≤ s.maxBufferSize) :
    Follows ProbeOnly (receiveData data.length s : Task (Net C) _ _) (data.map .recv)
      (Ends s (.ok data)) := by
  have hlimit : ¬data.length > s.maxBufferSize := Nat.not_lt.mpr h
  simp only [receiveData, Async.get_bind_apply, hlimit, if_false, Async.modify_bind_apply]
  rw [← List.append_nil (data.map _)]
  refine .seq (P := fun s' _ => s'.maxBufferSize = s.maxBufferSize ∧ s'.buffer.bytes = data)
    ((follows_readFrame (T := .readData) data nofun).mono ?_) ?_
  · rintro s' r ⟨⟨hs', rfl⟩, hbuf⟩
    exact ⟨_, rfl, hs', hbuf⟩
  · rintro s₁ _ ⟨hs₁, hbuf⟩
    exact ⟨rfl, hs₁, by simp only [hbuf]⟩

theorem follows_receiveResponseHeader (status : UInt8) :
    Follows ProbeOnly (receiveResponseHeader true s : Task (Net C) _ _) [.recv status]
      (Ends s (.ok ⟨status, 0⟩)) := by
  simp only [receiveResponseHeader, Async.modify_bind_apply]
  rw [← List.append_nil [_]]
  refine .seq (P := fun s' _ => s'.maxBufferSize = s.maxBufferSize ∧ s'.buffer.bytes = [status])
    ((follows_readFrame (T := .readHeader) [status] (by rintro ⟨⟩)).mono ?_) ?_
  · rintro s' r ⟨⟨hs', rfl⟩, hbuf⟩
    exact ⟨_, rfl, hs', hbuf⟩
  · rintro s₁ _ ⟨hs₁, hbuf⟩
    simp only [Async.get_bind_apply, hbuf, ResponseHeader.decode_true_singleton]
    exact ⟨rfl, hs₁, rfl⟩

theorem follows_receiveResponseHeader_eof :
    Follows ProbeOnly (receiveResponseHeader true s : Task (Net C) _ _) [.eof]
      fun s' r => s'.maxBufferSize = s.maxBufferSize ∧ ∃ e, r = .error e := by
  simp only [receiveResponseHeader, Async.modify_bind_apply]
  refine .stop ((follows_readFrame_eof (T := .readHeader)
    (n := ResponseHeader.encodedLen true true) (by decide) (by rintro ⟨⟩)).mono ?_)
  rintro s' r ⟨hs', rfl⟩
  exact ⟨_, rfl, hs', _, rfl⟩

/-- The header of a response with a payload. -/
def responseHeaderTokens (status : UInt8) (buf : List UInt8) : List (Token Timer C) :=
  (ResponseHeader.encode ⟨status, dataSizeOf (some buf)⟩ false).map .send ++ [.flush]

/-- A response that the client acknowledges. -/
theorem follows_sendData (status : UInt8) (buf : List UInt8) :
    Follows ProbeOnly (sendData status (some buf) s : Task (Net C) _ _)
      (responseHeaderTokens status buf ++ ([.recv 1] ++ (buf.map .send ++ [.flush])))
      (Ends s (.ok ())) := by
  simp only [sendData, Option.isNone_some]
  refine .seq (P := fun s' _ => s'.maxBufferSize = s.maxBufferSize)
    ((follows_sendResponseHeader (T := .write) status _ false (by rintro ⟨⟩)).mono ?_) ?_
  · rintro s' r ⟨hs', rfl⟩
    exact ⟨(), rfl, hs'⟩
  intro s₁ _ hs₁
  refine .seq (P := fun s' header => s'.maxBufferSize = s.maxBufferSize ∧ header = ⟨1, 0⟩)
    ((follows_receiveResponseHeader 1).mono ?_) ?_
  · rintro s' r ⟨hs', rfl⟩
    exact ⟨_, rfl, hs'.trans hs₁, rfl⟩
  rintro s₂ _ ⟨hs₂, rfl⟩
  simp only [ne_eq, not_true_eq_false, if_false]
  refine .seq (P := fun s' _ => s'.maxBufferSize = s.maxBufferSize)
    (.within (by rintro ⟨⟩) ((Follows.writeLoop (Nat.le_refl _)).mono ?_)) ?_
  · rintro s' r ⟨rfl, rfl⟩
    exact ⟨(), rfl, hs₂⟩
  intro s₃ _ hs₃
  rw [← List.append_nil [_]]
  refine .seq (P := fun s' _ => s'.maxBufferSize = s.maxBufferSize)
    (.mapError (Follows.flush.mono ?_)) ?_
  · rintro s' r ⟨rfl, rfl⟩
    exact ⟨(), rfl, hs₃⟩
  · intro s₄ _ hs₄
    exact ⟨rfl, hs₄, rfl⟩

/-- A response whose header the client does not answer. -/
theorem follows_sendData_eof (status : UInt8) (buf : List UInt8) :
    Follows ProbeOnly (sendData status (some buf) s : Task (Net C) _ _)
      (responseHeaderTokens status buf ++ [.eof])
      fun s' r => s'.maxBufferSize = s.maxBufferSize ∧ ∃ e, r = .error e := by
  simp only [sendData, Option.isNone_some]
  refine .seq (P := fun s' _ => s'.maxBufferSize = s.maxBufferSize)
    ((follows_sendResponseHeader (T := .write) status _ false (by rintro ⟨⟩)).mono ?_) ?_
  · rintro s' r ⟨hs', rfl⟩
    exact ⟨(), rfl, hs'⟩
  intro s₁ _ hs₁
  refine .stop (follows_receiveResponseHeader_eof.mono ?_)
  rintro s' r ⟨hs', e, rfl⟩
  exact ⟨e, rfl, hs'.trans hs₁, e, rfl⟩

end FramedServer

namespace ProtocolHandler

variable {s : FramedServer}

/-- The end of a cycle: the size limit is as before, and `keepAlive` says whether the
loop goes on. -/
def CycleEnds (maxBufferSize : Nat) (keepAlive : Bool) (s' : FramedServer)
    (r : Except Error Bool) : Prop :=
  s'.maxBufferSize = maxBufferSize ∧ (r = .ok true ↔ keepAlive = true)

/-- The script of a cycle that never reaches the command handler: a ping, a request
the server rejects, or one it cannot decode. -/
def controlScript (header : RequestHeader) (maxBufferSize : Nat) : List (Token Timer Handler) :=
  header.encode.map .recv ++ FramedServer.statusTokens header maxBufferSize

/-- The script of a cycle that runs the command handler on a request, up to the
response. -/
def requestScript (command : UInt32) (data : List UInt8) (result : CommandResult) :
    List (Token Timer Handler) :=
  (RequestHeader.encode ⟨command, UInt32.ofNat data.length⟩).map .recv ++
    ([.send 1, .flush] ++ (data.map .recv ++
      [.call (C := Handler) (.enter command data) (), .call (C := Handler) .leave result]))

/-- The response header for what the command handler has returned. -/
def headerScript (result : CommandResult) : List (Token Timer Handler) :=
  FramedServer.responseHeaderTokens (responseOf result).1 (responseOf result).2

/-- The rest of that script when the client acknowledges the response header. -/
def payloadScript (result : CommandResult) : List (Token Timer Handler) :=
  [.recv 1] ++ ((responseOf result).2.map .send ++ [.flush])

/-- After this result the connection stays open. -/
def keepsOpen : CommandResult → Bool
  | .ok (.finish, _) => false
  | _ => true

theorem follows_handleNext_control {header : RequestHeader}
    (h : header.dataSize.toNat > s.maxBufferSize ∨ header.command = Command.ping) :
    Follows ProbeOnly (handleNext s) (controlScript header s.maxBufferSize)
      (CycleEnds s.maxBufferSize
        (decide (header.dataSize.toNat = 0 ∧ header.dataSize.toNat ≤ s.maxBufferSize))) := by
  rw [← List.append_nil (controlScript _ _)]
  by_cases hok : header.dataSize.toNat = 0 ∧ header.dataSize.toNat ≤ s.maxBufferSize
  · have hlimit : ¬header.dataSize.toNat > s.maxBufferSize := Nat.not_lt.mpr hok.2
    have hres : FramedServer.commandResult header s.maxBufferSize = .ok none := by
      rw [FramedServer.commandResult, if_neg hlimit, if_pos (h.resolve_left hlimit),
        if_neg (not_not_intro hok.1)]
    refine .seq (P := fun s' r => s'.maxBufferSize = s.maxBufferSize ∧ r = none)
      ((FramedServer.follows_readCommand header).mono ?_) ?_
    · rintro s' r ⟨hs', rfl⟩
      exact ⟨none, hres, hs', rfl⟩
    · rintro s' _ ⟨hs', rfl⟩
      exact ⟨rfl, hs', by simp [hok.1]⟩
  · have hres : ∃ e, FramedServer.commandResult header s.maxBufferSize = .error e := by
      unfold FramedServer.commandResult
      split
      · exact ⟨_, rfl⟩
      · rename_i hlimit
        have hsize : header.dataSize.toNat ≠ 0 := fun h0 => hok ⟨h0, Nat.not_lt.mp hlimit⟩
        rw [if_pos (h.resolve_left hlimit), if_pos hsize]
        exact ⟨_, rfl⟩
    obtain ⟨e, hres⟩ := hres
    rw [List.append_nil]
    refine .stop ((FramedServer.follows_readCommand header).mono ?_)
    rintro s' r ⟨hs', rfl⟩
    exact ⟨e, hres, hs', by simp [hok]⟩

/-- A cycle up to the response: what follows depends on how the response goes. -/
theorem follows_handleNext_request {command : UInt32} {data : List UInt8}
    {result : CommandResult} {toks : List (Token Timer Handler)}
    {Q : FramedServer → Except Error Bool → Prop} (hc : command ≠ Command.ping)
    (hd : data.length ≤ s.maxBufferSize) (h32 : data.length < 2 ^ 32)
    (h : ∀ s', s'.maxBufferSize = s.maxBufferSize → Follows ProbeOnly
      ((match result with
        | .ok (status, responseData) => do
            FramedServer.sendData status.toU8 (some responseData)
            if status = .finish then pure false else pure true
        | .error _ => do
            let _ ← Async.attempt (FramedServer.sendData ResponseStatus.error.toU8 (some []))
            pure true : Async (Net Handler) FramedServer Error Bool) s') toks Q) :
    Follows ProbeOnly (handleNext s)
      (requestScript command data result ++ toks) Q := by
  have hsize : (UInt32.ofNat data.length).toNat = data.length := by
    rw [UInt32.toNat_ofNat', Nat.mod_eq_of_lt h32]
  have hlimit : ¬data.length > s.maxBufferSize := Nat.not_lt.mpr hd
  have hcmd := FramedServer.follows_readCommand (C := Handler) (s := s)
    ⟨command, UInt32.ofNat data.length⟩
  simp only [FramedServer.statusTokens, FramedServer.commandResult, hsize, hlimit, if_false, hc,
    false_and] at hcmd
  simp only [requestScript, List.append_assoc]
  rw [← List.append_assoc]
  refine .seq (P := fun s' r => s'.maxBufferSize = s.maxBufferSize ∧
    r = some (command, data.length)) (hcmd.mono ?_) ?_
  · rintro s' r ⟨hs', rfl⟩
    exact ⟨_, rfl, hs', rfl⟩
  rintro s₁ _ ⟨hs₁, rfl⟩
  refine .seq (P := fun s' r => s'.maxBufferSize = s.maxBufferSize ∧ r = data)
    ((FramedServer.follows_receiveData (by rwa [hs₁])).mono ?_) ?_
  · rintro s' r ⟨hs', rfl⟩
    exact ⟨_, rfl, hs'.trans hs₁, rfl⟩
  rintro s₂ _ ⟨hs₂, rfl⟩
  refine .seq (P := fun s' r => s' = s₂ ∧ r = result) ?_ ?_
  · rw [← List.singleton_append]
    refine .seq (P := fun s' _ => s' = s₂)
      ((Follows.call (C := Handler) (.enter command _) () s₂).mono ?_) ?_
    · rintro s' r ⟨rfl, rfl⟩
      exact ⟨(), rfl, rfl⟩
    · rintro s' _ rfl
      refine (Follows.call (C := Handler) .leave result s').mono ?_
      rintro s'' r ⟨rfl, rfl⟩
      exact ⟨result, rfl, rfl, rfl⟩
  · rintro s₃ _ ⟨rfl, rfl⟩
    exact h s₃ hs₂

/-- A request whose response the client acknowledges. -/
theorem follows_handleNext_acknowledged {command : UInt32} {data : List UInt8}
    {result : CommandResult} (hc : command ≠ Command.ping) (hd : data.length ≤ s.maxBufferSize)
    (h32 : data.length < 2 ^ 32) :
    Follows ProbeOnly (handleNext s)
      (requestScript command data result ++ (headerScript result ++ payloadScript result))
      (CycleEnds s.maxBufferSize (keepsOpen result)) := by
  refine follows_handleNext_request hc hd h32 fun s₁ hs₁ => ?_
  rw [← List.append_nil (_ ++ _)]
  match result with
  | .ok (status, responseData) =>
      refine .seq (P := fun s' _ => s'.maxBufferSize = s.maxBufferSize)
        ((FramedServer.follows_sendData status.toU8 responseData).mono ?_) ?_
      · rintro s' r ⟨hs', rfl⟩
        exact ⟨(), rfl, hs'.trans hs₁⟩
      · intro s' _ hs'
        by_cases hf : status = .finish
        · subst hf
          exact ⟨rfl, hs', by simp [keepsOpen]⟩
        · simp only [hf, if_false]
          exact ⟨rfl, hs', by cases status <;> simp_all [keepsOpen]⟩
  | .error _ =>
      refine .seq (P := fun s' _ => s'.maxBufferSize = s.maxBufferSize)
        (.attempt ((FramedServer.follows_sendData ResponseStatus.error.toU8 []).mono ?_)) ?_
      · rintro s' r ⟨hs', rfl⟩
        exact ⟨_, rfl, hs'.trans hs₁⟩
      · intro s' _ hs'
        exact ⟨rfl, hs', by simp [keepsOpen]⟩

/-- A request whose response header the client does not answer: it closes the stream. -/
theorem follows_handleNext_unanswered {command : UInt32} {data : List UInt8}
    {status : ResponseStatus} {responseData : List UInt8} (hc : command ≠ Command.ping)
    (hd : data.length ≤ s.maxBufferSize) (h32 : data.length < 2 ^ 32) :
    Follows ProbeOnly (handleNext s)
      (requestScript command data (.ok (status, responseData)) ++
        (headerScript (.ok (status, responseData)) ++ [.eof]))
      (CycleEnds s.maxBufferSize false) := by
  refine follows_handleNext_request hc hd h32 fun s₁ hs₁ => ?_
  refine .stop ((FramedServer.follows_sendData_eof status.toU8 responseData).mono ?_)
  rintro s' r ⟨hs', e, rfl⟩
  exact ⟨e, rfl, hs'.trans hs₁, by simp⟩

/-- A cycle on a stream that has ended. -/
theorem follows_handleNext_eof :
    Follows ProbeOnly (handleNext s) [.eof] (CycleEnds s.maxBufferSize false) := by
  refine .stop ?_
  simp only [FramedServer.readCommand, Async.modify_bind_apply]
  refine .stop ((FramedServer.follows_readFrame_eof (T := .readHeader)
    (n := RequestHeader.encodedLen) (by decide) (by rintro ⟨⟩)).mono ?_)
  rintro s' r ⟨hs', rfl⟩
  exact ⟨_, rfl, _, rfl, hs', by simp⟩

end ProtocolHandler

end Wagonet
