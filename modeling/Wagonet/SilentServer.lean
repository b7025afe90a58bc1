import Wagonet.DeclaredSize
import Wagonet.Library.Delivery

/-!
No-answer mode with a server that never replies.

Without an answer the header of the response is read as one byte, but it is read, and so
is the status byte that accepts the request before its payload is sent. So an exchange
with a server that sends nothing waits for the first of the two until the timer runs out,
and the payload stays unsent.
-/

namespace Wagonet

open Library

namespace ClientExchange

variable {C : Interface} {ε : Type} {E : ExchangeErrors ε} {command : UInt32}
  {data : List UInt8} {m : Nat} {buffer buffer' : ByteVec} {es : List (Net C).Event}

theorem sendRequestHeaderLocked_silent {dataSize : UInt32} {r : Except ε Unit}
    (h : (sendRequestHeaderLocked E command dataSize buffer : Task (Net C) _ _).Run es buffer' r)
    (hsilent : Silent es) : sent es = RequestHeader.encode ⟨command, dataSize⟩ ∧ r = .ok () := by
  simp only [sendRequestHeaderLocked, Async.modify_bind_apply, Async.get_bind_apply] at h
  rcases Async.run_bind_iff.mp h with ⟨e, rfl, h₁⟩ | ⟨es₁, es₂, s₁, u, rfl, h₁, h₂⟩
  · obtain ⟨-, -, hr⟩ := writeLoop_within_silent h₁ hsilent
    cases hr
  obtain ⟨hsilent₁, hsilent₂⟩ := silent_append.mp hsilent
  obtain ⟨hsent, -, -⟩ := writeLoop_within_silent h₁ hsilent₁
  rcases Async.run_bind_iff.mp h₂ with ⟨e, rfl, h₃⟩ | ⟨es₃, es₄, s₂, u', rfl, h₃, h₄⟩
  · obtain ⟨r₁, hr, h₃⟩ := Async.mapError_run_iff.mp h₃
    obtain ⟨-, -, rfl⟩ := flushStream_silent h₃ hsilent₂
    cases hr
  · obtain ⟨r₁, -, h₃⟩ := Async.mapError_run_iff.mp h₃
    obtain ⟨hflush, -, -⟩ := flushStream_silent h₃ (silent_append.mp hsilent₂).1
    obtain ⟨rfl, -, rfl⟩ := Task.run_done_iff.mp h₄
    refine ⟨?_, rfl⟩
    rw [sent_append, sent_append, hsent, hflush]
    exact List.append_nil _

theorem receiveResponseHeaderLocked_silent {isDefault commandHasAnswer : Bool}
    {r : Except ε ResponseHeader}
    (h : (receiveResponseHeaderLocked E isDefault commandHasAnswer m buffer :
      Task (Net C) _ _).Run es buffer' r)
    (hsilent : Silent es) : sent es = [] ∧ r = .error E.waitingForResponseHeader := by
  have hpos : 0 < ResponseHeader.encodedLen isDefault commandHasAnswer := by
    cases isDefault <;> cases commandHasAnswer <;> decide
  simp only [receiveResponseHeaderLocked, Async.modify_bind_apply] at h
  rcases Async.run_bind_iff.mp h with ⟨e, rfl, h₁⟩ | ⟨es₁, es₂, s₁, u, rfl, h₁, h₂⟩
  · obtain ⟨hsent, -, hr⟩ := readLoop_within_silent hpos h₁ hsilent
    exact ⟨hsent, congrArg Except.error (Except.error.inj hr)⟩
  · obtain ⟨-, -, hr⟩ := readLoop_within_silent hpos h₁ (silent_append.mp hsilent).1
    cases hr

/-- The exchange ends where it waits for the request to be accepted. -/
theorem exchange_silent {commandHasAnswer : Bool} {r : Except ε (List UInt8)}
    (h : (exchange E command data commandHasAnswer m buffer : Task (Net C) _ _).Run es buffer' r)
    (hsilent : Silent es) :
    sent es = opening command data ∧ r = .error E.waitingForResponseHeader := by
  have hsend {es : List (Net C).Event} {buffer' : ByteVec} {r : Except ε Unit}
      (h : (sendMessageLocked E command data commandHasAnswer m buffer : Task (Net C) _ _).Run
        es buffer' r) (hsilent : Silent es) :
      sent es = opening command data ∧ r = .error E.waitingForResponseHeader := by
    rcases Async.run_bind_iff.mp h with ⟨e, rfl, h₁⟩ | ⟨es₁, es₂, s₁, u, rfl, h₁, h₂⟩
    · obtain ⟨-, hr⟩ := sendRequestHeaderLocked_silent h₁ hsilent
      cases hr
    obtain ⟨hsilent₁, hsilent₂⟩ := silent_append.mp hsilent
    obtain ⟨hsent, -⟩ := sendRequestHeaderLocked_silent h₁ hsilent₁
    rcases Async.run_bind_iff.mp h₂ with ⟨e, rfl, h₃⟩ | ⟨es₃, es₄, s₂, header, rfl, h₃, h₄⟩
    · obtain ⟨hnone, hr⟩ := receiveResponseHeaderLocked_silent h₃ hsilent₂
      refine ⟨?_, congrArg Except.error (Except.error.inj hr)⟩
      rw [sent_append, hsent, hnone, List.append_nil]
      rfl
    · obtain ⟨-, hr⟩ := receiveResponseHeaderLocked_silent h₃ (silent_append.mp hsilent₂).1
      cases hr
  rcases Async.run_bind_iff.mp h with ⟨e, rfl, h₁⟩ | ⟨es₁, es₂, s₁, u, rfl, h₁, h₂⟩
  · obtain ⟨hsent, hr⟩ := hsend h₁ hsilent
    exact ⟨hsent, congrArg Except.error (Except.error.inj hr)⟩
  · obtain ⟨-, hr⟩ := hsend h₁ (silent_append.mp hsilent).1
    cases hr

/-- The exchange with a silent peer: the header goes out, and the timer runs out. -/
theorem exists_silent_exchange (E : ExchangeErrors ε) (command : UInt32) (data : List UInt8)
    (commandHasAnswer : Bool) (m : Nat) (buffer : ByteVec) :
    ∃ es buffer', (exchange E command data commandHasAnswer m buffer : Task (Net C) _ _).Run es
      buffer' (.error E.waitingForResponseHeader) ∧ Silent es := by
  have hopening : opening command data ≠ [] := by rintro ⟨⟩
  obtain ⟨es₁, hwrite, hsilent₁⟩ := exists_silent_write (C := C) Timer.write
    E.sendingRequestHeader E.io id hopening (buffer.clear.extend (opening command data))
  obtain ⟨es₂, hflush, hsilent₂⟩ := exists_silent_flush (τ := Timer) (C := C) id
    (buffer.clear.extend (opening command data))
  obtain ⟨es₃, hread, hsilent₃⟩ := exists_silent_read (C := C) Timer.readHeader
    E.waitingForResponseHeader E.io fill (fun _ => .unexpectedEof) id (n := 1) Nat.one_pos
    ((buffer.clear.extend (opening command data)).clear.resize 1)
  have hheader : (sendRequestHeaderLocked E command (UInt32.ofNat data.length) buffer :
      Task (Net C) _ _).Run (es₁ ++ (es₂ ++ []))
      (buffer.clear.extend (opening command data)).clear (.ok ()) := by
    simp only [sendRequestHeaderLocked, Async.modify_bind_apply, Async.get_bind_apply]
    exact Async.run_bind hwrite
      (Async.run_bind (Async.mapError_run_iff.mpr ⟨.ok (), rfl, hflush⟩) .done)
  have hreceive : (receiveResponseHeaderLocked E true commandHasAnswer m
      (buffer.clear.extend (opening command data)).clear : Task (Net C) _ _).Run es₃
      ((buffer.clear.extend (opening command data)).clear.resize 1)
      (.error E.waitingForResponseHeader) := by
    simp only [receiveResponseHeaderLocked, Async.modify_bind_apply]
    exact Async.run_bind_iff.mpr (.inl ⟨_, rfl, hread⟩)
  refine ⟨(es₁ ++ (es₂ ++ [])) ++ es₃, _, Async.run_bind_iff.mpr (.inl ⟨_, rfl,
    Async.run_bind hheader (Async.run_bind_iff.mpr (.inl ⟨_, rfl, hreceive⟩))⟩), ?_⟩
  simp only [silent_append]
  exact ⟨⟨hsilent₁, hsilent₂, by rintro _ ⟨⟩⟩, hsilent₃⟩

end ClientExchange

namespace ClientKind

variable {K : ClientKind} {command : UInt32} {data : List UInt8} {m : Nat} {buffer : ByteVec}

/-- The error of a response header that has not come in time. -/
def waitingForResponseHeader : ClientKind → Error
  | .tl => ClientTL.errors.waitingForResponseHeader
  | .tls _ _ => .other ClientTLS.errors.waitingForResponseHeader

/-- An exchange without an answer needs nothing from the server but that it reads. -/
def NeedsNoReply (K : ClientKind) (command : UInt32) (data : List UInt8) (m : Nat)
    (buffer : ByteVec) : Prop :=
  ∀ es buffer' r, (K.program (.request command data false m) buffer).Run es buffer' r →
    Silent es → sent es = ClientExchange.opening command data ++ data ∧ r = .ok []

theorem request_silent {answer : Bool} {buffer' : ByteVec} {es : List (Net Interface.empty).Event}
    {r : Except Error (List UInt8)}
    (h : (K.program (.request command data answer m) buffer).Run es buffer' r)
    (hsilent : Silent es) :
    sent es = ClientExchange.opening command data ∧ r = .error K.waitingForResponseHeader := by
  cases K with
  | tl => exact ClientExchange.exchange_silent h hsilent
  | tls domain acceptInvalidCerts =>
      obtain ⟨r₁, rfl, h₁⟩ := Async.mapError_run_iff.mp h
      obtain ⟨hsent, rfl⟩ := ClientExchange.exchange_silent h₁ hsilent
      exact ⟨hsent, rfl⟩

theorem exists_silent_request (K : ClientKind) (command : UInt32) (data : List UInt8)
    (answer : Bool) (m : Nat) (buffer : ByteVec) :
    ∃ es buffer', (K.program (.request command data answer m) buffer).Run es buffer'
      (.error K.waitingForResponseHeader) ∧ Silent es := by
  cases K with
  | tl => exact ClientExchange.exists_silent_exchange ClientTL.errors command data answer m buffer
  | tls domain acceptInvalidCerts =>
      obtain ⟨es, buffer', hrun, hsilent⟩ :=
        ClientExchange.exists_silent_exchange ClientTLS.errors command data answer m buffer
      exact ⟨es, buffer', Async.mapError_run_iff.mpr ⟨_, rfl, hrun⟩, hsilent⟩

/-- No exchange without an answer does without a reply: with a server that reads and sends
nothing it sends its header, waits for the timer, and fails before the payload. -/
theorem never_needsNoReply (K : ClientKind) (command : UInt32) (data : List UInt8) (m : Nat)
    (buffer : ByteVec) :
    ¬K.NeedsNoReply command data m buffer ∧
      (∃ es buffer' r, (K.program (.request command data false m) buffer).Run es buffer' r ∧
        Silent es) ∧
      ∀ es buffer' r, (K.program (.request command data false m) buffer).Run es buffer' r →
        Silent es → sent es = ClientExchange.opening command data ∧
          r = .error K.waitingForResponseHeader := by
  obtain ⟨es, buffer', hrun, hsilent⟩ := exists_silent_request K command data false m buffer
  refine ⟨fun h => ?_, ⟨es, buffer', _, hrun, hsilent⟩, fun es buffer' r => request_silent⟩
  obtain ⟨-, hr⟩ := h es buffer' _ hrun hsilent
  cases hr

/-- Three bytes for a server that never replies: an error after the timeout. -/
theorem silent_server_times_out :
    ¬ClientKind.tl.NeedsNoReply 99 [1, 2, 3] 1024 (.withCapacity 8) := by
  intro h
  obtain ⟨es, buffer', hrun, hsilent⟩ :=
    exists_silent_request .tl 99 [1, 2, 3] false 1024 (.withCapacity 8)
  obtain ⟨-, hr⟩ := h es buffer' _ hrun hsilent
  cases hr

end ClientKind

end Wagonet
