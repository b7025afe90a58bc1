import Wagonet.Header
import Wagonet.Library.ByteVec
import Wagonet.TimeoutConfig

/-!
The server side of one connection: `ServerTL` and `ServerTLS`.

The two types run the same frames over a TCP stream and over a TLS stream;
`FramedServer` is what they have in common, and each keeps its functions under
its own name.
-/

namespace Wagonet

open Library

/-- The interface of code that talks to one stream and performs the operations
of `C` besides. -/
abbrev Net (C : Interface) : Interface := Timed Timer Stream C

section

variable {C : Interface} {σ : Type}

/-- `read_exact_or_closed`: fill a buffer of `n` bytes, telling a disconnect between
frames from one in the middle of a frame. -/
def readExactOrClosed (n : Nat) (fill : List UInt8 → σ → σ) :
    Async (Net C) σ Error (List UInt8) :=
  readLoop n fill
    (fun filled => if filled = 0 then .connectionClosed else .connectionClosedMidFrame filled n)
    .io n []

/-- `AsyncReadExt::read_exact` -/
def readExact (n : Nat) (fill : List UInt8 → σ → σ) : Async (Net C) σ IoError (List UInt8) :=
  readLoop n fill (fun _ => .unexpectedEof) id n []

/-- `AsyncWriteExt::write_all` -/
def writeAll (bytes : List UInt8) : Async (Net C) σ IoError Unit :=
  writeLoop id bytes.length bytes

/-- `AsyncWriteExt::flush` -/
def flush : Async (Net C) σ IoError Unit := flushStream id

end

/-- The state of a `ServerTL` or a `ServerTLS` besides the stream. -/
structure FramedServer where
  buffer : ByteVec
  maxBufferSize : Nat

namespace FramedServer

variable {C : Interface}

def withBuffer (s : FramedServer) (buffer : ByteVec) : FramedServer := { s with buffer := buffer }

@[simp] theorem withBuffer_maxBufferSize (s : FramedServer) (buffer : ByteVec) :
    (s.withBuffer buffer).maxBufferSize = s.maxBufferSize := rfl

@[simp] theorem withBuffer_buffer (s : FramedServer) (buffer : ByteVec) :
    (s.withBuffer buffer).buffer = buffer := rfl

/-- `DEFAULT_MAX_BUFFER_SIZE` -/
def defaultMaxBufferSize : Nat := 10 * 1024 * 1024

def new : FramedServer where
  buffer := .withCapacity defaultMaxBufferSize
  maxBufferSize := defaultMaxBufferSize

/-- `set_max_buffer_size`: the result, and the transport after it. Whether the allocator
grants the reservation is up to the system. -/
def setMaxBufferSize (maxBufferSize : Nat) (reserved : Bool) (s : FramedServer) :
    Except Error Unit × FramedServer :=
  let limit := if maxBufferSize > 0 then maxBufferSize else defaultMaxBufferSize
  let additional := limit - s.buffer.bytes.length
  let (granted, buffer) := s.buffer.tryReserve additional reserved
  let s := s.withBuffer buffer
  if granted then
    (.ok (), { s with maxBufferSize := limit })
  else
    (.error (.config
      "max_buffer_size \x7blimit\x7d cannot be reserved on this system: \x7be\x7d" [limit]), s)

theorem setMaxBufferSize_ok {maxBufferSize : Nat} {reserved : Bool} {s s' : FramedServer}
    (h : s.setMaxBufferSize maxBufferSize reserved = (.ok (), s')) :
    s'.maxBufferSize = if maxBufferSize > 0 then maxBufferSize else defaultMaxBufferSize := by
  cases reserved <;> cases h
  rfl

/-- Read into the server's own buffer. -/
def fill (start : List UInt8) (s : FramedServer) : FramedServer :=
  s.withBuffer (s.buffer.overwrite start)

def resizeBuffer (n : Nat) (s : FramedServer) : FramedServer := s.withBuffer (s.buffer.resize n)

def clearBuffer (s : FramedServer) : FramedServer := s.withBuffer s.buffer.clear

def sendResponseHeader (status : UInt8) (dataSize : UInt32) (isDefault : Bool) (timer : Timer) :
    Async (Net C) FramedServer Error Unit := do
  Async.modify clearBuffer
  Async.modify fun s =>
    s.withBuffer (s.buffer.extend (ResponseHeader.encode ⟨status, dataSize⟩ isDefault))
  let s ← Async.get
  Async.within timer (.msg "Sending response header timeout") .io (writeAll s.buffer.bytes)
  Async.mapError .io flush
  Async.modify clearBuffer

def readCommand : Async (Net C) FramedServer Error (Option (UInt32 × Nat)) := do
  Async.modify (resizeBuffer RequestHeader.encodedLen)
  let _ ← Async.within .readHeader (.msg "Timeout waiting for request header") id
    (readExactOrClosed RequestHeader.encodedLen fill)
  let s ← Async.get
  let reqHeader ← Async.ofExcept (RequestHeader.decode s.buffer.bytes s.maxBufferSize).1
  Async.modify clearBuffer
  let dataSize := reqHeader.dataSize.toNat
  if reqHeader.command = Command.ping then
    if dataSize ≠ 0 then
      sendResponseHeader 7 0 true .pingWrite
      Async.fail (.protocol "Ping must have data_size=0")
    else
      sendResponseHeader 1 0 true .pingWrite
      pure none
  else if dataSize > s.maxBufferSize then
    sendResponseHeader 7 0 true .write
    Async.fail (.msg "Data size exceeds maximum allowed buffer size")
  else
    sendResponseHeader 1 0 true .write
    pure (some (reqHeader.command, dataSize))

def receiveResponseHeader (isDefault : Bool) :
    Async (Net C) FramedServer Error ResponseHeader := do
  let resultBufLen := ResponseHeader.encodedLen isDefault true
  Async.modify (resizeBuffer resultBufLen)
  let _ ← Async.within .readHeader (.msg "Timeout waiting for response header") .io
    (readExact resultBufLen fill)
  let s ← Async.get
  let resHeader ← Async.ofExcept (ResponseHeader.decode s.buffer.bytes isDefault s.maxBufferSize).1
  Async.modify clearBuffer
  pure resHeader

def receiveData (bufSize : Nat) : Async (Net C) FramedServer Error (List UInt8) := do
  let s ← Async.get
  if bufSize > s.maxBufferSize then
    Async.fail (.msg "Invalid data size")
  else
    Async.modify (resizeBuffer bufSize)
    let _ ← Async.within .readData (.msg "Timeout waiting for data")
      (fun e =>
        match e with
        | .connectionClosed => .connectionClosedMidFrame 0 bufSize
        | other => other)
      (readExactOrClosed bufSize fill)
    let s ← Async.get
    Async.modify clearBuffer
    pure s.buffer.bytes

/-- `data_size as u32` -/
def dataSizeOf (buf : Option (List UInt8)) : UInt32 := UInt32.ofNat (buf.getD []).length

def sendData (status : UInt8) (buf : Option (List UInt8)) :
    Async (Net C) FramedServer Error Unit := do
  -- The frame size is defined by the answer mode, not by the payload length.
  let isDefault := buf.isNone
  sendResponseHeader status (dataSizeOf buf) isDefault .write
  let resHeader ← receiveResponseHeader true
  if resHeader.status ≠ 1 then
    Async.fail (.msg "Receiving response status is not OK")
  else
    match buf with
    | some buf => Async.within .write (.msg "Timeout sending data") .io (writeAll buf)
    | none => pure ()
    Async.mapError .io flush
    Async.modify clearBuffer

/-! ### Runs of the frames -/

section

variable {s s' : FramedServer} {es : List (Net C).Event}

theorem keepsLongest_fill : KeepsLongest fill := by
  intro a b s h
  simp only [fill, withBuffer, ByteVec.overwrite_overwrite h]

/-- Reading a frame of `n` bytes leaves exactly those bytes in the buffer. -/
theorem readFrame_run {ι : Type} {n : Nat} {t : Timer} {elapsed : Error} {conv : ι → Error}
    {eof : Nat → ι} {io : IoError → ι} {r : Except Error (List UInt8)}
    (h : (Async.within t elapsed conv (readLoop n fill eof io n []) (resizeBuffer n s) :
      Task (Net C) _ _).Run es s' r) :
    sent es = [] ∧
      (((received es).length = n ∧ anyFailed es = false ∧ r = .ok (received es) ∧
          s'.buffer.bytes = received es ∧ s'.maxBufferSize = s.maxBufferSize) ∨
        ((received es).length < n ∧ anyFailed es = true ∧ ∃ e, r = .error e)) := by
  obtain ⟨hsent, hcase⟩ := readLoop_within_run keepsLongest_fill h
  refine ⟨hsent, hcase.imp ?_ id⟩
  rintro ⟨hlen, hok, hr, hs⟩
  refine ⟨hlen, hok, hr, ?_⟩
  have hbuf : (resizeBuffer n s).buffer.bytes.length = n := ByteVec.resize_length _ _
  split at hs
  · rename_i hnil
    rw [hnil] at hlen
    rw [hs, hnil]
    exact ⟨List.eq_nil_of_length_eq_zero (hbuf.trans hlen.symm), rfl⟩
  · rw [hs]
    exact ⟨ByteVec.overwrite_all (hlen.trans hbuf.symm), rfl⟩

/-- `read_command` first waits for the bytes of a request header, having touched
nothing but the size of the buffer. -/
theorem readCommand_await (s : FramedServer) :
    ∃ k, (readCommand s : Task (Net C) _ _) =
      .await (s.resizeBuffer RequestHeader.encodedLen)
        (.wait [.readHeader] (.read RequestHeader.encodedLen)) k := by
  rw [readCommand, Async.modify_bind_apply]
  obtain ⟨k, hk⟩ := readLoop_within_await (show 0 < RequestHeader.encodedLen by decide)
    (s.resizeBuffer RequestHeader.encodedLen)
  exact Async.bind_await hk _

theorem readCommand_resizeBuffer (s : FramedServer) :
    (readCommand (s.resizeBuffer RequestHeader.encodedLen) : Task (Net C) _ _) =
      readCommand s := by
  have hbuf : (s.resizeBuffer RequestHeader.encodedLen).resizeBuffer RequestHeader.encodedLen =
      s.resizeBuffer RequestHeader.encodedLen := by
    simp only [resizeBuffer, withBuffer, ByteVec.resize_resize]
  simp only [readCommand, Async.modify_bind_apply, hbuf]

/-- A response header is written out completely, or the function fails. -/
theorem sendResponseHeader_run {status : UInt8} {dataSize : UInt32} {isDefault : Bool}
    {timer : Timer} {r : Except Error Unit}
    (h : (sendResponseHeader status dataSize isDefault timer s : Task (Net C) _ _).Run es s' r) :
    received es = [] ∧ s'.maxBufferSize = s.maxBufferSize ∧
      ((sent es = ResponseHeader.encode ⟨status, dataSize⟩ isDefault ∧ anyFailed es = false ∧
          r = .ok ()) ∨
        (anyFailed es = true ∧ ∃ e, r = .error e)) := by
  simp only [sendResponseHeader, Async.modify_bind_apply, Async.get_bind_apply] at h
  rcases Async.run_bind_iff.mp h with ⟨e, rfl, h₁⟩ | ⟨es₁, es₂, s₁, u, rfl, h₁, h₂⟩
  · obtain ⟨hrec, hs, hcase⟩ := writeLoop_within_run h₁
    rcases hcase with ⟨-, -, hr⟩ | ⟨-, hbad, -⟩
    · cases hr
    · exact ⟨hrec, by rw [hs]; rfl, .inr ⟨hbad, e, rfl⟩⟩
  · obtain ⟨hrec, hs, hcase⟩ := writeLoop_within_run h₁
    rcases hcase with ⟨hsent, hok, -⟩ | ⟨-, -, e, hr⟩
    · rcases Async.run_bind_iff.mp h₂ with ⟨e, rfl, h₃⟩ | ⟨es₃, es₄, s₂, u', rfl, h₃, h₄⟩
      · obtain ⟨r₁, hr, h₃⟩ := Async.mapError_run_iff.mp h₃
        obtain ⟨hrec', hsent', hs', hcase⟩ := flushStream_run h₃
        rcases hcase with ⟨-, rfl⟩ | ⟨hbad, -⟩
        · cases hr
        · exact ⟨by simp [hrec, hrec'], by rw [hs', hs]; rfl, .inr ⟨by simp [hbad], e, rfl⟩⟩
      · obtain ⟨r₁, hr, h₃⟩ := Async.mapError_run_iff.mp h₃
        obtain ⟨hrec', hsent', hs', hcase⟩ := flushStream_run h₃
        obtain ⟨rfl, rfl, rfl⟩ := Task.run_done_iff.mp h₄
        rcases hcase with ⟨hok', -⟩ | ⟨-, e, rfl⟩
        · refine ⟨by simp [hrec, hrec'], by rw [hs', hs]; rfl, .inl ⟨?_, by simp [hok, hok'], rfl⟩⟩
          simp only [sent_append, hsent, hsent', List.append_nil]
          rfl
        · cases hr
    · cases hr

theorem awaits_sendResponseHeader {status : UInt8} {dataSize : UInt32} {isDefault : Bool}
    {timer : Timer} :
    (sendResponseHeader status dataSize isDefault timer :
      Async (Net C) FramedServer Error Unit).Uses Async.Awaits := by
  refine (Async.uses_modify _).bind fun _ => (Async.uses_modify _).bind fun _ =>
    Async.uses_get.bind fun _ => (Async.Awaits.within awaits_writeLoop).bind fun _ =>
      (Async.Awaits.mapError awaits_flushStream).bind fun _ => Async.uses_modify _

theorem awaits_readCommand :
    (readCommand : Async (Net C) FramedServer Error _).Uses Async.Awaits := by
  refine (Async.uses_modify _).bind fun _ => (Async.Awaits.within awaits_readLoop).bind fun _ =>
    Async.uses_get.bind fun _ => (Async.uses_ofExcept _).bind fun _ =>
      (Async.uses_modify _).bind fun _ => ?_
  dsimp only
  split
  · split
    · exact awaits_sendResponseHeader.bind fun _ => Async.uses_fail _
    · exact awaits_sendResponseHeader.bind fun _ => Async.uses_pure _
  · split
    · exact awaits_sendResponseHeader.bind fun _ => Async.uses_fail _
    · exact awaits_sendResponseHeader.bind fun _ => Async.uses_pure _

theorem awaits_receiveData {n : Nat} :
    (receiveData n : Async (Net C) FramedServer Error _).Uses Async.Awaits := by
  refine Async.uses_get.bind fun s => ?_
  split
  · exact Async.uses_fail _
  · exact (Async.uses_modify _).bind fun _ => (Async.Awaits.within awaits_readLoop).bind fun _ =>
      Async.uses_get.bind fun _ => (Async.uses_modify _).bind fun _ => Async.uses_pure _

/-- Reading an acknowledgement yields its status byte. -/
theorem receiveResponseHeader_run {r : Except Error ResponseHeader}
    (h : (receiveResponseHeader true s : Task (Net C) _ _).Run es s' r) :
    sent es = [] ∧
      ((∃ status, received es = [status] ∧ anyFailed es = false ∧ r = .ok ⟨status, 0⟩) ∨
        (anyFailed es = true ∧ ∃ e, r = .error e)) := by
  simp only [receiveResponseHeader, Async.modify_bind_apply] at h
  rcases Async.run_bind_iff.mp h with ⟨e, rfl, h₁⟩ | ⟨es₁, es₂, s₁, u, rfl, h₁, h₂⟩
  · obtain ⟨hsent, ⟨-, -, hr, -⟩ | ⟨-, hbad, -⟩⟩ := readFrame_run h₁
    · cases hr
    · exact ⟨hsent, .inr ⟨hbad, e, rfl⟩⟩
  · obtain ⟨hsent, ⟨hlen, hok, -, hbuf, -⟩ | ⟨-, -, e, hr⟩⟩ := readFrame_run h₁
    · obtain ⟨status, hstatus⟩ := List.length_eq_one_iff.mp hlen
      simp only [Async.get_bind_apply, hbuf, hstatus, ResponseHeader.decode_true_singleton,
        Async.ofExcept_ok_bind_apply, Async.modify_bind_apply, Async.pure_apply,
        Task.run_done_iff] at h₂
      obtain ⟨rfl, -, rfl⟩ := h₂
      exact ⟨by simp [hsent], .inl ⟨status, by simp [hstatus], by simp [hok], rfl⟩⟩
    · cases hr

/-- A response: header, acknowledgement by the client, and, if the client accepts,
the payload; or a failed operation. -/
theorem sendData_run {status : UInt8} {buf : List UInt8} {r : Except Error Unit}
    (h : (sendData status (some buf) s : Task (Net C) _ _).Run es s' r) :
    anyFailed es = true ∨ ∃ ack, received es = [ack] ∧
      sent es = ResponseHeader.encode ⟨status, dataSizeOf (some buf)⟩ false ++
        if ack = 1 then buf else [] := by
  simp only [sendData, Option.isNone_some] at h
  rcases Async.run_bind_iff.mp h with ⟨e, rfl, h₁⟩ | ⟨es₁, es₂, s₁, u, rfl, h₁, h₂⟩
  · obtain ⟨-, -, ⟨-, -, hr⟩ | ⟨hbad, -⟩⟩ := sendResponseHeader_run h₁
    · cases hr
    · exact .inl hbad
  obtain ⟨hrec, -, ⟨hsent, -, -⟩ | ⟨-, e, hr⟩⟩ := sendResponseHeader_run h₁
  case inr => cases hr
  rcases Async.run_bind_iff.mp h₂ with ⟨e, rfl, h₃⟩ | ⟨es₃, es₄, s₂, header, rfl, h₃, h₄⟩
  · obtain ⟨-, ⟨_, -, -, hr⟩ | ⟨hbad, -⟩⟩ := receiveResponseHeader_run h₃
    · cases hr
    · exact .inl (by simp [hbad])
  obtain ⟨hsent', ⟨ack, hack, -, hr⟩ | ⟨-, e, hr⟩⟩ := receiveResponseHeader_run h₃
  case inr => cases hr
  obtain rfl : header = ⟨ack, 0⟩ := by cases hr; rfl
  by_cases hone : ack = 1
  · simp only [hone, ne_eq, not_true_eq_false, if_false] at h₄
    rcases Async.run_bind_iff.mp h₄ with ⟨e, rfl, h₅⟩ | ⟨es₅, es₆, s₃, u', rfl, h₅, h₆⟩
    · obtain ⟨-, -, ⟨-, -, hr⟩ | ⟨-, hbad, -⟩⟩ := writeLoop_within_run h₅
      · cases hr
      · exact .inl (by simp [hbad])
    obtain ⟨hrec₅, -, ⟨hsent₅, -, -⟩ | ⟨-, -, e, hr⟩⟩ := writeLoop_within_run h₅
    case inr => cases hr
    have hquiet : received es₆ = [] ∧ sent es₆ = [] := by
      rcases Async.run_bind_iff.mp h₆ with ⟨e, rfl, h₇⟩ | ⟨es₇, es₈, s₄, u', rfl, h₇, h₈⟩
      · obtain ⟨r₁, -, h₇⟩ := Async.mapError_run_iff.mp h₇
        obtain ⟨hr, hs, -⟩ := flushStream_run h₇
        exact ⟨hr, hs⟩
      · obtain ⟨r₁, -, h₇⟩ := Async.mapError_run_iff.mp h₇
        obtain ⟨hr, hs, -⟩ := flushStream_run h₇
        obtain ⟨rfl, -, -⟩ := Task.run_done_iff.mp h₈
        simp [hr, hs]
    right
    refine ⟨ack, by simp [hrec, hack, hrec₅, hquiet.1], ?_⟩
    simp [hsent, hsent', hsent₅, hquiet.2, hone]
  · simp only [ne_eq, hone, not_false_eq_true, if_true, Async.fail_apply, Task.run_done_iff] at h₄
    obtain ⟨rfl, -, -⟩ := h₄
    right
    exact ⟨ack, by simp [hrec, hack], by simp [hsent, hsent', hone]⟩

/-! ### Runs that exist -/

/-- A response header can be written. -/
theorem sendResponseHeader_succeeds (status : UInt8) (dataSize : UInt32) (isDefault : Bool)
    (timer : Timer) (s : FramedServer) :
    ∃ es s', (sendResponseHeader status dataSize isDefault timer s : Task (Net C) _ _).Run es s'
        (.ok ()) ∧
      sent es = ResponseHeader.encode ⟨status, dataSize⟩ isDefault ∧ received es = [] := by
  let full := s.clearBuffer.withBuffer
    (s.clearBuffer.buffer.extend (ResponseHeader.encode ⟨status, dataSize⟩ isDefault))
  obtain ⟨es, hrun, hsent, hrec⟩ := writeLoop_within_succeeds (C := C) timer
    (Error.msg "Sending response header timeout") Error.io id full.buffer.bytes full
  obtain ⟨es', hrun', hsent', hrec'⟩ := flushStream_succeeds (τ := Timer) (C := C)
    (id : IoError → IoError) full
  refine ⟨es ++ es', full.clearBuffer, ?_, ?_, by rw [received_append, hrec, hrec']; rfl⟩
  · simp only [sendResponseHeader, Async.modify_bind_apply, Async.get_bind_apply]
    refine Async.run_bind hrun ?_
    refine Async.run_bind_iff.mpr (.inr ⟨es', [], full, (), by simp, ?_, .done⟩)
    exact Async.mapError_run_iff.mpr ⟨_, rfl, hrun'⟩
  · rw [sent_append, hsent, hsent', List.append_nil]
    rfl

/-- A request header within the limit can be read and accepted. -/
theorem readCommand_succeeds (header : RequestHeader) (hcommand : header.command ≠ Command.ping)
    (hfits : header.dataSize.toNat ≤ s.maxBufferSize) :
    ∃ es s', (readCommand s : Task (Net C) _ _).Run es s'
      (.ok (some (header.command, header.dataSize.toNat))) := by
  obtain ⟨es₁, s₁, hrun₁, hrec₁, -⟩ := readLoop_within_succeeds (C := C) Timer.readHeader
    (Error.msg "Timeout waiting for request header") id fill
    (fun filled => if filled = 0 then Error.connectionClosed else
      .connectionClosedMidFrame filled RequestHeader.encodedLen)
    .io header.encode_length (by decide) (s.resizeBuffer RequestHeader.encodedLen)
  obtain ⟨-, ⟨-, -, -, hbuf, hmax⟩ | ⟨-, -, e, hr⟩⟩ := readFrame_run hrun₁
  case inr => cases hr
  rw [hrec₁] at hbuf
  obtain ⟨es₂, s₂, hrun₂, -, -⟩ := sendResponseHeader_succeeds (C := C) 1 0 true .write
    s₁.clearBuffer
  refine ⟨es₁ ++ (es₂ ++ []), s₂, ?_⟩
  rw [readCommand, Async.modify_bind_apply]
  refine Async.run_bind hrun₁ ?_
  have hlimit : ¬header.dataSize.toNat > s.maxBufferSize := Nat.not_lt.mpr hfits
  rw [Async.get_bind_apply, hbuf, hmax, RequestHeader.decode_encode, if_neg hlimit,
    Async.ofExcept_ok_bind_apply, Async.modify_bind_apply, if_neg hcommand, if_neg hlimit]
  exact Async.run_bind hrun₂ .done

/-- A response can be sent, to a client that answers its header with `ack`. -/
theorem sendData_answered (status : UInt8) (buf : List UInt8) (ack : UInt8) (s : FramedServer) :
    ∃ es s', (sendData status (some buf) s : Task (Net C) _ _).Run es s'
        (if ack = 1 then .ok () else .error (.msg "Receiving response status is not OK")) ∧
      received es = [ack] ∧
        sent es = ResponseHeader.encode ⟨status, dataSizeOf (some buf)⟩ false ++
          if ack = 1 then buf else [] := by
  obtain ⟨es₁, s₁, hrun₁, hsent₁, hrec₁⟩ := sendResponseHeader_succeeds (C := C) status
    (dataSizeOf (some buf)) false .write s
  obtain ⟨es₂, s₂, hrun₂, hrec₂, hsent₂⟩ := readLoop_within_succeeds (C := C)
    Timer.readHeader (Error.msg "Timeout waiting for response header") Error.io fill
    (fun _ => IoError.unexpectedEof) id (List.length_singleton (a := ack)) Nat.one_pos
    (s₁.resizeBuffer 1)
  obtain ⟨-, ⟨-, -, -, hbuf, -⟩ | ⟨-, -, e, hr⟩⟩ := readFrame_run hrun₂
  case inr => cases hr
  rw [hrec₂] at hbuf
  have hread : (receiveResponseHeader true s₁ : Task (Net C) _ _).Run es₂ s₂.clearBuffer
      (.ok ⟨ack, 0⟩) := by
    rw [receiveResponseHeader, Async.modify_bind_apply]
    refine Async.run_bind_iff.mpr (.inr ⟨es₂, [], s₂, [ack], by simp, hrun₂, ?_⟩)
    rw [Async.get_bind_apply, hbuf]
    exact .done
  obtain ⟨es₃, hrun₃, hsent₃, hrec₃⟩ := writeLoop_within_succeeds (C := C) Timer.write
    (Error.msg "Timeout sending data") Error.io id buf s₂.clearBuffer
  obtain ⟨es₄, hrun₄, hsent₄, hrec₄⟩ := flushStream_succeeds (τ := Timer) (C := C)
    (id : IoError → IoError) s₂.clearBuffer
  by_cases hack : ack = 1
  · refine ⟨es₁ ++ (es₂ ++ (es₃ ++ es₄)), s₂.clearBuffer.clearBuffer, ?_, ?_, ?_⟩
    · simp only [sendData, Option.isNone_some, if_pos hack]
      refine Async.run_bind hrun₁ (Async.run_bind hread ?_)
      simp only [hack, ne_eq, not_true_eq_false, if_false]
      refine Async.run_bind hrun₃ ?_
      refine Async.run_bind_iff.mpr (.inr ⟨es₄, [], s₂.clearBuffer, (), by simp, ?_, .done⟩)
      exact Async.mapError_run_iff.mpr ⟨_, rfl, hrun₄⟩
    · simp only [received_append, hrec₁, hrec₂, hrec₃, hrec₄, List.nil_append, List.append_nil]
    · simp only [sent_append, hsent₁, hsent₂, hsent₃, hsent₄, List.nil_append, List.append_nil,
        if_pos hack]
  · refine ⟨es₁ ++ (es₂ ++ []), s₂.clearBuffer, ?_, ?_, ?_⟩
    · simp only [sendData, Option.isNone_some, if_neg hack]
      refine Async.run_bind hrun₁ (Async.run_bind hread ?_)
      simp only [ne_eq, hack, not_false_eq_true, if_true]
      exact .done
    · simp [hrec₁, hrec₂]
    · simp [hsent₁, hsent₂, hack]

end

end FramedServer

namespace ServerTL

def readCommand {C : Interface} : Async (Net C) FramedServer Error (Option (UInt32 × Nat)) :=
  FramedServer.readCommand

def receiveData {C : Interface} (bufSize : Nat) : Async (Net C) FramedServer Error (List UInt8) :=
  FramedServer.receiveData bufSize

def sendData {C : Interface} (status : UInt8) (buf : Option (List UInt8)) :
    Async (Net C) FramedServer Error Unit :=
  FramedServer.sendData status buf

end ServerTL

namespace ServerTLS

def readCommand {C : Interface} : Async (Net C) FramedServer Error (Option (UInt32 × Nat)) :=
  FramedServer.readCommand

def receiveData {C : Interface} (bufSize : Nat) : Async (Net C) FramedServer Error (List UInt8) :=
  FramedServer.receiveData bufSize

def sendData {C : Interface} (status : UInt8) (buf : Option (List UInt8)) :
    Async (Net C) FramedServer Error Unit :=
  FramedServer.sendData status buf

end ServerTLS

end Wagonet
