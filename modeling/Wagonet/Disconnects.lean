import Wagonet.ExchangeRuns

/-!
How a disconnect is reported.

A connection that closes between frames has ended normally; one that closes inside a
frame has not, and the error says how much of the frame was there. Frames are read in
two ways: `read_exact_or_closed` tells the two apart, and `read_exact` does not. So the
errors are right where the first is used and the case of no bytes is corrected for
frames that are owed.
-/

namespace Wagonet

open Library

inductive Frame
  | requestHeader
  | ack
  | requestPayload
  | responseHeader
  | responsePayload
  deriving DecidableEq

/-- A frame of which only some bytes have come before the peer closed its end. -/
structure Cut where
  frame : Frame
  received : Nat
  expected : Nat

namespace Cut

/-- The error that a cut frame is to be reported with. -/
structure Classified (cut : Cut) (e : Error) : Prop where
  midFrame : 0 < cut.received → e = .connectionClosedMidFrame cut.received cut.expected
  payload : cut.frame = .requestPayload ∨ cut.frame = .responsePayload →
    e = .connectionClosedMidFrame cut.received cut.expected
  normal : e = .connectionClosed ↔ cut.frame = .requestHeader ∧ cut.received = 0

/-- A response header in pieces, and a response without its payload. -/
def Misread (cut : Cut) : Prop :=
  cut.frame = .responseHeader ∧ 0 < cut.received ∨
    cut.frame = .responsePayload ∧ cut.received = 0

/-- The error it is reported with. -/
def told (cut : Cut) : Error :=
  match cut.frame with
  | .requestHeader | .responsePayload =>
      if cut.received = 0 then .connectionClosed
      else .connectionClosedMidFrame cut.received cut.expected
  | .requestPayload => .connectionClosedMidFrame cut.received cut.expected
  | .ack | .responseHeader => .io .unexpectedEof

theorem classified_told_iff {cut : Cut} (hlt : cut.received < cut.expected)
    (hack : cut.frame = .ack → cut.expected = 1) : cut.Classified cut.told ↔ ¬cut.Misread := by
  obtain ⟨frame, received, expected⟩ := cut
  constructor
  · rintro ⟨hmid, hpayload, -⟩ (⟨rfl, hpos⟩ | ⟨rfl, hzero⟩)
    · exact nomatch hmid hpos
    · obtain rfl : received = 0 := hzero
      exact nomatch hpayload (.inr rfl)
  · intro hread
    cases frame with
    | requestHeader =>
        refine ⟨fun hpos => if_neg (Nat.ne_of_gt hpos), by simp, ?_⟩
        by_cases hzero : received = 0 <;> simp [told, hzero]
    | ack =>
        have hone : expected = 1 := hack rfl
        refine ⟨fun hpos => ?_, by simp, by simp [told]⟩
        change 0 < received at hpos
        change received < expected at hlt
        omega
    | requestPayload => exact ⟨fun _ => rfl, fun _ => rfl, by simp [told]⟩
    | responseHeader =>
        exact ⟨fun hpos => absurd (.inl ⟨rfl, hpos⟩) hread, by simp, by simp [told]⟩
    | responsePayload =>
        have hpos : received ≠ 0 := fun hzero => hread (.inr ⟨rfl, hzero⟩)
        exact ⟨fun _ => if_neg hpos, fun _ => if_neg hpos, by simp [told, hpos]⟩

end Cut

/-- The frame that is being read after these bytes. -/
abbrev CutOf := List UInt8 → Cut

def requestHeaderCut : CutOf := fun bytes => ⟨.requestHeader, bytes.length, 8⟩

def requestPayloadCut (n : Nat) : CutOf := fun bytes => ⟨.requestPayload, bytes.length, n⟩

def ackCut : CutOf := fun bytes => ⟨.ack, bytes.length, 1⟩

/-- The client reads the acceptance of its request, the response header, and the payload
whose size that declares. -/
def exchangeCut (commandHasAnswer : Bool) : CutOf
  | [] => ⟨.ack, 0, 1⟩
  | _ :: bytes =>
      let n := ResponseHeader.encodedLen false commandHasAnswer
      if bytes.length < n then ⟨.responseHeader, bytes.length, n⟩
      else ⟨.responsePayload, bytes.length - n, (fromBeBytes ((bytes.drop 1).take 4)).toNat⟩

variable {C : Interface} {σ α β : Type}

def errorOf : Except Error α → Option Error
  | .ok _ => none
  | .error e => some e

/-- A run that reads frames: what happens on the stream, the error that is returned, and
which frame is read when. -/
inductive Reading : List (Net C).Event → Option Error → CutOf → Prop
  | readCommand {s s' : FramedServer} {es : List (Net C).Event}
      {r : Except Error (Option (UInt32 × Nat))} :
      (ServerTL.readCommand s).Run es s' r → Reading es (errorOf r) requestHeaderCut
  | receiveData {n : Nat} {s s' : FramedServer} {es : List (Net C).Event}
      {r : Except Error (List UInt8)} :
      (ServerTL.receiveData n s).Run es s' r → Reading es (errorOf r) (requestPayloadCut n)
  | sendData {status : UInt8} {buf : Option (List UInt8)} {s s' : FramedServer}
      {es : List (Net C).Event} {r : Except Error Unit} :
      (ServerTL.sendData status buf s).Run es s' r → Reading es (errorOf r) ackCut
  | exchange {command : UInt32} {data : List UInt8} {commandHasAnswer : Bool} {m : Nat}
      {buffer buffer' : ByteVec} {es : List (Net C).Event} {r : Except Error (List UInt8)} :
      (ClientTL.exchange command data commandHasAnswer m buffer).Run es buffer' r →
        Reading es (errorOf r) (exchangeCut commandHasAnswer)

/-- A frame that is cut is reported as such, and a normal disconnect only if the peer has
closed its end. -/
def ReportsCut (es : List (Net C).Event) (e : Option Error) (cutOf : CutOf) : Prop :=
  (PeerClosed es → ∃ e', e = some e' ∧
    (cutOf (received es)).received < (cutOf (received es)).expected ∧
    (cutOf (received es)).Classified e') ∧
  (e = some .connectionClosed → PeerClosed es)

/-! ### What reports no disconnect -/

/-- The function does not notice a closed connection, and does not report one. -/
def Unclosed (m : Async (Net C) σ Error α) : Prop :=
  ∀ s es s' r, (m s).Run es s' r → ¬PeerClosed es ∧ errorOf r ≠ some .connectionClosed

namespace Unclosed

theorem bind {m : Async (Net C) σ Error α} {f : α → Async (Net C) σ Error β} (hm : Unclosed m)
    (hf : ∀ a, Unclosed (f a)) : Unclosed (m >>= f) := by
  intro s es s' r h
  rcases Async.run_bind_iff.mp h with ⟨e, rfl, h₁⟩ | ⟨es₁, es₂, s₁, a, rfl, h₁, h₂⟩
  · exact hm _ _ _ _ h₁
  · obtain ⟨hopen₁, -⟩ := hm _ _ _ _ h₁
    obtain ⟨hopen₂, hne⟩ := hf a _ _ _ _ h₂
    exact ⟨by simp [hopen₁, hopen₂], hne⟩

theorem of_done {m : Async (Net C) σ Error α}
    (h : ∀ s, ∃ s' r, m s = .done s' r ∧ errorOf r ≠ some .connectionClosed) : Unclosed m := by
  intro s es s' r hrun
  obtain ⟨s₁, r₁, hdone, hne⟩ := h s
  rw [hdone] at hrun
  obtain ⟨rfl, rfl, rfl⟩ := Task.run_done_iff.mp hrun
  exact ⟨peerClosed_nil, hne⟩

theorem pure (a : α) : Unclosed (Pure.pure a : Async (Net C) σ Error α) :=
  .of_done fun s => ⟨s, .ok a, rfl, nofun⟩

theorem fail {e : Error} (he : e ≠ .connectionClosed) :
    Unclosed (Async.fail e : Async (Net C) σ Error α) :=
  .of_done fun s => ⟨s, .error e, rfl, fun h => he (Option.some.inj h)⟩

theorem get : Unclosed (Async.get : Async (Net C) σ Error σ) :=
  .of_done fun s => ⟨s, .ok s, rfl, nofun⟩

theorem modify (f : σ → σ) : Unclosed (Async.modify f : Async (Net C) σ Error Unit) :=
  .of_done fun s => ⟨f s, .ok (), rfl, nofun⟩

theorem ofExcept {r : Except Error α} (hr : errorOf r ≠ some .connectionClosed) :
    Unclosed (Async.ofExcept r : Async (Net C) σ Error α) :=
  .of_done fun s => ⟨s, r, rfl, hr⟩

theorem writeAll {T : Timer} {elapsed : Error} {bytes : List UInt8}
    (helapsed : elapsed ≠ .connectionClosed) :
    Unclosed (Async.within T elapsed .io (Wagonet.writeAll bytes) :
      Async (Net C) σ Error Unit) := by
  intro s es s' r h
  obtain ⟨hopen, herror⟩ := writeLoop_within_closed h
  refine ⟨hopen, fun hr => ?_⟩
  match r with
  | .error e =>
      obtain rfl := Option.some.inj hr
      rcases herror _ rfl with he | ⟨i, he⟩
      · exact helapsed he.symm
      · cases he

theorem flushed : Unclosed (Async.mapError .io Wagonet.flush : Async (Net C) σ Error Unit) := by
  intro s es s' r h
  obtain ⟨r₁, rfl, h₁⟩ := Async.mapError_run_iff.mp h
  refine ⟨(flushStream_closed h₁).1, ?_⟩
  cases r₁ <;> nofun

end Unclosed

/-- Reading ends with this error if the peer has closed, and otherwise with no report of it. -/
def Reports (es : List (Net C).Event) (e : Option Error) (cut : Cut) : Prop :=
  (PeerClosed es ∧ cut.received < cut.expected ∧ e = some cut.told) ∨
    (¬PeerClosed es ∧ e ≠ some .connectionClosed)

theorem reportsCut_iff_of_reports {es : List (Net C).Event} {e : Option Error} {cutOf : CutOf}
    (hack : (cutOf (received es)).frame = .ack → (cutOf (received es)).expected = 1)
    (h : Reports es e (cutOf (received es))) :
    ReportsCut es e cutOf ↔ (PeerClosed es → ¬(cutOf (received es)).Misread) := by
  rcases h with ⟨hclosed, hlt, rfl⟩ | ⟨hopen, hne⟩
  · rw [← Cut.classified_told_iff hlt hack]
    constructor
    · rintro ⟨hcut, -⟩ -
      obtain ⟨e', he', -, hclassified⟩ := hcut hclosed
      cases he'
      exact hclassified
    · exact fun hclassified => ⟨fun _ => ⟨_, rfl, hlt, hclassified hclosed⟩, fun _ => hclosed⟩
  · exact ⟨fun _ hclosed => absurd hclosed hopen,
      fun _ => ⟨fun hclosed => absurd hclosed hopen, fun he => absurd he hne⟩⟩

/-! ### The functions of the server -/

namespace FramedServer

variable {s s' : FramedServer} {es : List (Net C).Event}

theorem unclosed_sendResponseHeader {status : UInt8} {dataSize : UInt32} {isDefault : Bool}
    {timer : Timer} :
    Unclosed (sendResponseHeader status dataSize isDefault timer : Async (Net C) _ _ _) :=
  (Unclosed.modify _).bind fun _ => (Unclosed.modify _).bind fun _ => Unclosed.get.bind fun _ =>
    (Unclosed.writeAll (by nofun)).bind fun _ => Unclosed.flushed.bind fun _ => .modify _

theorem requestHeader_ne_closed {buf : List UInt8} {m : Nat} :
    errorOf (RequestHeader.decode buf m).1 ≠ some .connectionClosed := by
  simp only [RequestHeader.decode]
  split
  · simp [errorOf]
  · split <;> simp [errorOf]

theorem responseHeader_ne_closed {buf : List UInt8} {isDefault : Bool} {m : Nat} :
    errorOf (ResponseHeader.decode buf isDefault m).1 ≠ some .connectionClosed := by
  simp only [ResponseHeader.decode]
  split
  · simp [errorOf]
  · split
    · simp [errorOf]
    · split
      · simp [errorOf]
      · split <;> simp [errorOf]

/-- Everything in `read_command` after the header was read. -/
theorem readCommand_reports {r : Except Error (Option (UInt32 × Nat))}
    (h : (readCommand s : Task (Net C) _ _).Run es s' r) :
    Reports es (errorOf r) (requestHeaderCut (received es)) := by
  rw [readCommand, Async.modify_bind_apply] at h
  rcases Async.run_bind_iff.mp h with ⟨e, rfl, h₁⟩ | ⟨es₁, es₂, s₁, u, rfl, h₁, h₂⟩
  · rcases readLoop_within_closed h₁ with ⟨hclosed, hlen, hr⟩ | ⟨hopen, herror⟩
    · refine .inl ⟨hclosed, hlen, ?_⟩
      cases hr
      rfl
    · refine .inr ⟨hopen, ?_⟩
      rcases herror e rfl with rfl | ⟨i, rfl⟩ <;> simp [errorOf]
  · have hopen₁ : ¬PeerClosed es₁ := readLoop_within_open h₁
    have hrest : Unclosed (do
        let s ← Async.get
        let reqHeader ← Async.ofExcept (RequestHeader.decode s.buffer.bytes s.maxBufferSize).1
        Async.modify clearBuffer
        let dataSize := reqHeader.dataSize.toNat
        if reqHeader.command = Command.ping then
          if dataSize ≠ 0 then
            sendResponseHeader 7 0 true .pingWrite
            Async.fail (.protocol "Ping must have data_size=0")
          else
            sendResponseHeader 1 0 true .pingWrite
            pure none
        else if dataSize > s.maxBufferSize then
          sendResponseHeader 7 0 true .write
          Async.fail (.msg "Data size exceeds maximum allowed buffer size")
        else
          sendResponseHeader 1 0 true .write
          pure (some (reqHeader.command, dataSize)) :
        Async (Net C) FramedServer Error (Option (UInt32 × Nat))) := by
      refine Unclosed.get.bind fun s => (Unclosed.ofExcept requestHeader_ne_closed).bind fun _ =>
        (Unclosed.modify _).bind fun _ => ?_
      dsimp only
      split
      · split
        · exact unclosed_sendResponseHeader.bind fun _ => .fail (by simp)
        · exact unclosed_sendResponseHeader.bind fun _ => .pure _
      · split
        · exact unclosed_sendResponseHeader.bind fun _ => .fail (by simp)
        · exact unclosed_sendResponseHeader.bind fun _ => .pure _
    obtain ⟨hopen₂, hne⟩ := hrest _ _ _ _ h₂
    exact .inr ⟨by simp [hopen₁, hopen₂], hne⟩

theorem receiveData_reports {n : Nat} {r : Except Error (List UInt8)}
    (h : (receiveData n s : Task (Net C) _ _).Run es s' r) :
    Reports es (errorOf r) (requestPayloadCut n (received es)) := by
  rw [receiveData, Async.get_bind_apply] at h
  split at h
  · obtain ⟨rfl, rfl, rfl⟩ := Task.run_done_iff.mp h
    exact .inr ⟨peerClosed_nil, nofun⟩
  rw [Async.modify_bind_apply] at h
  rcases Async.run_bind_iff.mp h with ⟨e, rfl, h₁⟩ | ⟨es₁, es₂, s₁, u, rfl, h₁, h₂⟩
  · rcases readLoop_within_closed h₁ with ⟨hclosed, hlen, hr⟩ | ⟨hopen, herror⟩
    · refine .inl ⟨hclosed, hlen, ?_⟩
      obtain rfl := Except.error.inj hr
      by_cases hzero : (received es).length = 0 <;>
        simp [errorOf, requestPayloadCut, Cut.told, hzero]
    · refine .inr ⟨hopen, ?_⟩
      rcases herror e rfl with rfl | ⟨i, rfl⟩ <;> nofun
  · have hopen₁ : ¬PeerClosed es₁ := readLoop_within_open h₁
    obtain ⟨rfl, rfl, rfl⟩ := Task.run_done_iff.mp h₂
    exact .inr ⟨by simpa using hopen₁, nofun⟩

/-- The acknowledgement is one byte, so it is there or nothing is. -/
theorem receiveResponseHeader_closed {r : Except Error ResponseHeader}
    (h : (receiveResponseHeader true s : Task (Net C) _ _).Run es s' r) :
    (PeerClosed es ∧ received es = [] ∧ errorOf r = some (.io .unexpectedEof)) ∨
      (¬PeerClosed es ∧ errorOf r ≠ some .connectionClosed) := by
  rw [receiveResponseHeader, Async.modify_bind_apply] at h
  rcases Async.run_bind_iff.mp h with ⟨e, rfl, h₁⟩ | ⟨es₁, es₂, s₁, u, rfl, h₁, h₂⟩
  · rcases readLoop_within_closed h₁ with ⟨hclosed, hlen, hr⟩ | ⟨hopen, herror⟩
    · have hnil : received es = [] := List.eq_nil_of_length_eq_zero (Nat.lt_one_iff.mp hlen)
      exact .inl ⟨hclosed, hnil, congrArg errorOf hr⟩
    · refine .inr ⟨hopen, ?_⟩
      rcases herror e rfl with rfl | ⟨i, rfl⟩ <;> simp [errorOf]
  · have hopen₁ : ¬PeerClosed es₁ := readLoop_within_open h₁
    have hrest : Unclosed (do
        let s ← Async.get
        let resHeader ← Async.ofExcept
          (ResponseHeader.decode s.buffer.bytes true s.maxBufferSize).1
        Async.modify clearBuffer
        pure resHeader : Async (Net C) FramedServer Error ResponseHeader) :=
      Unclosed.get.bind fun _ => (Unclosed.ofExcept responseHeader_ne_closed).bind fun _ =>
        (Unclosed.modify _).bind fun _ => .pure _
    obtain ⟨hopen₂, hne⟩ := hrest _ _ _ _ h₂
    exact .inr ⟨by simp [hopen₁, hopen₂], hne⟩

theorem unclosed_sendBody {resHeader : ResponseHeader} {buf : Option (List UInt8)} :
    Unclosed (if resHeader.status ≠ 1 then
      Async.fail (.msg "Receiving response status is not OK")
    else do
      match buf with
      | some buf => Async.within .write (.msg "Timeout sending data") .io (writeAll buf)
      | none => pure ()
      Async.mapError .io flush
      Async.modify clearBuffer : Async (Net C) FramedServer Error Unit) := by
  split
  · exact .fail (by simp)
  · cases buf with
    | some buf =>
        exact (Unclosed.writeAll (by simp)).bind fun _ => Unclosed.flushed.bind fun _ => .modify _
    | none => exact Unclosed.flushed.bind fun _ => .modify _

theorem sendData_reports {status : UInt8} {buf : Option (List UInt8)} {r : Except Error Unit}
    (h : (sendData status buf s : Task (Net C) _ _).Run es s' r) :
    Reports es (errorOf r) (ackCut (received es)) := by
  rw [sendData] at h
  rcases Async.run_bind_iff.mp h with ⟨e, rfl, h₁⟩ | ⟨es₁, es₂, s₁, u, rfl, h₁, h₂⟩
  · obtain ⟨hopen, hne⟩ := unclosed_sendResponseHeader _ _ _ _ h₁
    exact .inr ⟨hopen, hne⟩
  obtain ⟨hopen₁, -⟩ := unclosed_sendResponseHeader _ _ _ _ h₁
  obtain ⟨hrec₁, -, -⟩ := sendResponseHeader_run h₁
  rcases Async.run_bind_iff.mp h₂ with ⟨e, rfl, h₃⟩ | ⟨es₃, es₄, s₂, header, rfl, h₃, h₄⟩
  · rcases receiveResponseHeader_closed h₃ with ⟨hclosed, hrec, hr⟩ | ⟨hopen, hne⟩
    · exact .inl ⟨by simp [hclosed], by simp [ackCut, hrec₁, hrec], hr⟩
    · exact .inr ⟨by simp [hopen₁, hopen], hne⟩
  · have hopen₃ : ¬PeerClosed es₃ := by
      rcases receiveResponseHeader_closed h₃ with ⟨-, -, hr⟩ | ⟨hopen, -⟩
      · cases hr
      · exact hopen
    obtain ⟨hopen₄, hne⟩ := unclosed_sendBody _ _ _ _ h₄
    exact .inr ⟨by simp [hopen₁, hopen₃, hopen₄], hne⟩

end FramedServer

/-! ### The exchange of the client -/

namespace ClientTL

open ClientExchange

variable {buffer buffer' : ByteVec} {es : List (Net C).Event}

/-- A frame that is sent, as `ClientExchange.sendFrame_run` has it. -/
theorem unclosed_sendFrame {T : Timer} {elapsed : Error} {bytes : List UInt8}
    (helapsed : elapsed ≠ .connectionClosed) :
    Unclosed (do
      Async.within (C := C) T elapsed errors.io (writeAll bytes)
      Async.mapError errors.io flush
      Async.modify .clear : Async (Net C) ByteVec Error Unit) :=
  (Unclosed.writeAll helapsed).bind fun _ => Unclosed.flushed.bind fun _ => .modify _

theorem unclosed_sendRequestHeaderLocked {command dataSize : UInt32} :
    Unclosed (sendRequestHeaderLocked errors command dataSize : Async (Net C) _ _ _) :=
  (Unclosed.modify _).bind fun _ => (Unclosed.modify _).bind fun _ => Unclosed.get.bind fun _ =>
    unclosed_sendFrame (by nofun)

theorem unclosed_sendResponseHeaderLocked {status : UInt8} {dataSize : UInt32} :
    Unclosed (sendResponseHeaderLocked errors status dataSize : Async (Net C) _ _ _) :=
  (Unclosed.modify _).bind fun _ => (Unclosed.modify _).bind fun _ => Unclosed.get.bind fun _ =>
    unclosed_sendFrame (by nofun)

/-- A header in pieces is an I/O error like any other. -/
theorem receiveResponseHeaderLocked_closed {isDefault commandHasAnswer : Bool} {m : Nat}
    {r : Except Error ResponseHeader}
    (h : (receiveResponseHeaderLocked errors isDefault commandHasAnswer m buffer :
      Task (Net C) _ _).Run es buffer' r) :
    (PeerClosed es ∧
        (received es).length < ResponseHeader.encodedLen isDefault commandHasAnswer ∧
        errorOf r = some (.io .unexpectedEof)) ∨
      (¬PeerClosed es ∧ errorOf r ≠ some .connectionClosed) := by
  rw [receiveResponseHeaderLocked, Async.modify_bind_apply] at h
  rcases Async.run_bind_iff.mp h with ⟨e, rfl, h₁⟩ | ⟨es₁, es₂, s₁, u, rfl, h₁, h₂⟩
  · rcases readLoop_within_closed h₁ with ⟨hclosed, hlen, hr⟩ | ⟨hopen, herror⟩
    · exact .inl ⟨hclosed, hlen, congrArg errorOf hr⟩
    · refine .inr ⟨hopen, ?_⟩
      rcases herror e rfl with rfl | ⟨i, rfl⟩ <;> rintro ⟨⟩
  · have hopen₁ : ¬PeerClosed es₁ := readLoop_within_open h₁
    have hdecode (bytes : List UInt8) (isDefault : Bool) :
        errorOf ((ResponseHeader.decode bytes isDefault m).1.mapError errors.crate) ≠
          some .connectionClosed := by
      have hne := @FramedServer.responseHeader_ne_closed bytes isDefault m
      cases hd : (ResponseHeader.decode bytes isDefault m).1 with
      | ok header => simp [errorOf, Except.mapError]
      | error e =>
          rw [hd] at hne
          exact hne
    have hrest : Unclosed (do
        let buffer ← Async.get
        let responseHeader ← Async.ofExcept ((ResponseHeader.decode buffer.bytes
          (isDefault || !commandHasAnswer) m).1.mapError errors.crate)
        Async.modify .clear
        pure responseHeader : Async (Net C) ByteVec Error ResponseHeader) :=
      Unclosed.get.bind fun _ => (Unclosed.ofExcept (hdecode _ _)).bind fun _ =>
        (Unclosed.modify _).bind fun _ => .pure _
    obtain ⟨hopen₂, hne⟩ := hrest _ _ _ _ h₂
    exact .inr ⟨by simp [hopen₁, hopen₂], hne⟩

/-- Up to the payload: the acceptance of the request is cut or not. -/
theorem sendMessageLocked_closed {command : UInt32} {data : List UInt8} {commandHasAnswer : Bool}
    {m : Nat} {r : Except Error Unit}
    (h : (sendMessageLocked errors command data commandHasAnswer m buffer :
      Task (Net C) _ _).Run es buffer' r) :
    (PeerClosed es ∧ received es = [] ∧ errorOf r = some (.io .unexpectedEof)) ∨
      (¬PeerClosed es ∧ errorOf r ≠ some .connectionClosed) := by
  rcases Async.run_bind_iff.mp h with ⟨e, rfl, h₁⟩ | ⟨es₁, es₂, s₁, u, rfl, h₁, h₂⟩
  · exact .inr (unclosed_sendRequestHeaderLocked _ _ _ _ h₁)
  obtain ⟨hopen₁, -⟩ := unclosed_sendRequestHeaderLocked _ _ _ _ h₁
  have hrec₁ : received es₁ = [] := by
    simp only [sendRequestHeaderLocked, Async.modify_bind_apply, Async.get_bind_apply] at h₁
    exact (sendFrame_run h₁).1
  rcases Async.run_bind_iff.mp h₂ with ⟨e, rfl, h₃⟩ | ⟨es₃, es₄, s₂, header, rfl, h₃, h₄⟩
  · rcases receiveResponseHeaderLocked_closed h₃ with ⟨hclosed, hlen, hr⟩ | ⟨hopen, hne⟩
    · have hrec₃ : received es₂ = [] := List.eq_nil_of_length_eq_zero (Nat.lt_one_iff.mp hlen)
      exact .inl ⟨by simp [hclosed], by simp [hrec₁, hrec₃], hr⟩
    · exact .inr ⟨by simp [hopen₁, hopen], hne⟩
  · have hopen₃ : ¬PeerClosed es₃ := by
      rcases receiveResponseHeaderLocked_closed h₃ with ⟨-, -, hr⟩ | ⟨hopen, -⟩
      · cases hr
      · exact hopen
    have hrest : Unclosed (if header.status ≠ 1 then Async.fail (errors.rejected header.status)
        else do
          Async.within .write errors.sendingMessage errors.io (writeAll data)
          Async.mapError errors.io flush
          Async.modify .clear : Async (Net C) ByteVec Error Unit) := by
      split
      · exact .fail (by rintro ⟨⟩)
      · exact unclosed_sendFrame (by rintro ⟨⟩)
    obtain ⟨hopen₄, hne⟩ := hrest _ _ _ _ h₄
    exact .inr ⟨by simp [hopen₁, hopen₃, hopen₄], hne⟩

/-- After a whole response header it is the payload that is read. -/
theorem exchangeCut_payload {first : UInt8} {header : ResponseHeader} {part : List UInt8} :
    exchangeCut true (first :: (header.encode false ++ part)) =
      ⟨.responsePayload, part.length, header.dataSize.toNat⟩ := by
  have hlen : (header.encode false ++ part).length = 5 + part.length := by
    rw [List.length_append, ResponseHeader.encode_false_length]
    rfl
  have hsize : ((header.encode false ++ part).drop 1).take 4 = toBeBytes header.dataSize :=
    List.take_left' (toBeBytes_length _)
  have hlong : ¬5 + part.length < ResponseHeader.encodedLen false true :=
    Nat.not_lt.mpr (Nat.le_add_right 5 _)
  have hpart : 5 + part.length - ResponseHeader.encodedLen false true = part.length :=
    Nat.add_sub_cancel_left 5 _
  simp only [exchangeCut, hlen, hlong, if_false, hsize, fromBeBytes_toBeBytes, hpart]

/-- The response: its header is cut, or its payload, or nothing is. -/
theorem receiveMessageLocked_reports {commandHasAnswer : Bool} {m : Nat}
    {r : Except Error (List UInt8)} (first : UInt8)
    (h : (receiveMessageLocked errors commandHasAnswer m buffer : Task (Net C) _ _).Run
      es buffer' r) :
    Reports es (errorOf r) (exchangeCut commandHasAnswer (first :: received es)) := by
  rcases Async.run_bind_iff.mp h with ⟨e, rfl, h₁⟩ | ⟨es₁, es₂, s₁, header, rfl, h₁, h₂⟩
  · rcases receiveResponseHeaderLocked_closed h₁ with ⟨hclosed, hlen, hr⟩ | hopen
    · have hcut : exchangeCut commandHasAnswer (first :: received es) =
          ⟨.responseHeader, _, _⟩ := if_pos hlen
      rw [hcut]
      exact .inl ⟨hclosed, hlen, hr⟩
    · exact .inr hopen
  have hopen₁ : ¬PeerClosed es₁ := by
    rcases receiveResponseHeaderLocked_closed h₁ with ⟨-, -, hr⟩ | ⟨hopen, -⟩
    · cases hr
    · exact hopen
  obtain ⟨-, ⟨header', hheader, hd, -, hr⟩ | ⟨-, e, hr⟩⟩ := receiveResponseHeaderLocked_run h₁
  case inr => cases hr
  obtain rfl : header = header' := by
    split at hr
    · cases hr
    · exact Except.ok.inj hr
  rcases Async.run_bind_iff.mp h₂ with ⟨e, rfl, h₃⟩ | ⟨es₃, es₄, s₂, u, rfl, h₃, h₄⟩
  · obtain ⟨hopen₃, hne⟩ := unclosed_sendResponseHeaderLocked _ _ _ _ h₃
    exact .inr ⟨by simp [hopen₁, hopen₃], hne⟩
  obtain ⟨hopen₃, -⟩ := unclosed_sendResponseHeaderLocked _ _ _ _ h₃
  have hrec₃ : received es₃ = [] := by
    simp only [sendResponseHeaderLocked, Async.modify_bind_apply, Async.get_bind_apply] at h₃
    exact (sendFrame_run h₃).1
  -- the ways to end without having read any more
  have ended {s₄ : ByteVec} {r₀ : Except Error (List UInt8)} (hrun : (Task.done s₄ r₀ :
      Task (Net C) ByteVec _).Run es₄ buffer' r) (hne : errorOf r₀ ≠ some .connectionClosed) :
      Reports (es₁ ++ (es₃ ++ es₄)) (errorOf r)
        (exchangeCut commandHasAnswer (first :: received (es₁ ++ (es₃ ++ es₄)))) := by
    obtain ⟨rfl, -, rfl⟩ := Task.run_done_iff.mp hrun
    exact .inr ⟨by simp [hopen₁, hopen₃], hne⟩
  split at h₄
  · exact ended h₄ (by rintro ⟨⟩)
  split at h₄
  · exact ended h₄ (by rintro ⟨⟩)
  split at h₄
  · rw [Async.modify_bind_apply] at h₄
    exact ended h₄ (by rintro ⟨⟩)
  rename_i hsize
  rw [Async.modify_bind_apply] at h₄
  have hanswer : commandHasAnswer = true := by
    cases commandHasAnswer with
    | true => rfl
    | false => exact absurd (by rw [hd rfl]; rfl) hsize
  subst hanswer
  rcases Async.run_bind_iff.mp h₄ with ⟨e, rfl, h₅⟩ | ⟨es₅, es₆, s₃, u', rfl, h₅, h₆⟩
  · have hbytes : received (es₁ ++ (es₃ ++ es₄)) = header.encode false ++ received es₄ := by
      simp only [received_append, hheader, hrec₃, List.nil_append]
      rfl
    rcases readLoop_within_closed h₅ with ⟨hclosed, hlen, hr₅⟩ | ⟨hopen, herror⟩
    · rw [hbytes, exchangeCut_payload]
      exact .inl ⟨by simp [hclosed], hlen, congrArg errorOf hr₅⟩
    · refine .inr ⟨by simp [hopen₁, hopen₃, hopen], ?_⟩
      rcases herror e rfl with rfl | ⟨i, rfl⟩ <;> rintro ⟨⟩
  · have hopen₅ : ¬PeerClosed es₅ := readLoop_within_open h₅
    obtain ⟨rfl, -, rfl⟩ := Task.run_done_iff.mp h₆
    exact .inr ⟨by simp [hopen₁, hopen₃, hopen₅], by rintro ⟨⟩⟩

theorem exchange_reports {command : UInt32} {data : List UInt8} {commandHasAnswer : Bool}
    {m : Nat} {r : Except Error (List UInt8)}
    (h : (exchange command data commandHasAnswer m buffer : Task (Net C) _ _).Run es buffer' r) :
    Reports es (errorOf r) (exchangeCut commandHasAnswer (received es)) := by
  rcases Async.run_bind_iff.mp h with ⟨e, rfl, h₁⟩ | ⟨es₁, es₂, s₁, u, rfl, h₁, h₂⟩
  · rcases sendMessageLocked_closed h₁ with ⟨hclosed, hrec, hr⟩ | hopen
    · rw [hrec]
      exact .inl ⟨hclosed, Nat.one_pos, hr⟩
    · exact .inr hopen
  have hopen₁ : ¬PeerClosed es₁ := by
    rcases sendMessageLocked_closed h₁ with ⟨-, -, hr⟩ | ⟨hopen, -⟩
    · cases hr
    · exact hopen
  obtain ⟨-, -, ⟨-, hrec₁, -, -⟩ | ⟨-, e, hr⟩⟩ := sendMessageLocked_run h₁
  case inr => cases hr
  have hbytes : received (es₁ ++ es₂) = 1 :: received es₂ := by rw [received_append, hrec₁]; rfl
  rw [hbytes]
  rcases receiveMessageLocked_reports 1 h₂ with ⟨hclosed, hrest⟩ | ⟨hopen, hne⟩
  · exact .inl ⟨by simp [hclosed], hrest⟩
  · exact .inr ⟨by simp [hopen₁, hopen], hne⟩

end ClientTL

/-! ### Where the errors are right -/

theorem Reading.reports {es : List (Net C).Event} {e : Option Error} {cutOf : CutOf}
    (h : Reading es e cutOf) : Reports es e (cutOf (received es)) := by
  cases h with
  | readCommand h => exact FramedServer.readCommand_reports h
  | receiveData h => exact FramedServer.receiveData_reports h
  | sendData h => exact FramedServer.sendData_reports h
  | exchange h => exact ClientTL.exchange_reports h

theorem Reading.expected_ack {es : List (Net C).Event} {e : Option Error} {cutOf : CutOf}
    (h : Reading es e cutOf) (bytes : List UInt8) (hack : (cutOf bytes).frame = .ack) :
    (cutOf bytes).expected = 1 := by
  cases h with
  | readCommand => cases hack
  | receiveData => cases hack
  | sendData => rfl
  | exchange =>
      cases bytes with
      | nil => rfl
      | cons first bytes =>
          simp only [exchangeCut] at hack ⊢
          split at hack <;> cases hack

/-- A disconnect is classified by where it happened, except in the two frames that the
client reads wrongly. -/
theorem disconnect_classified_iff {es : List (Net C).Event} {e : Option Error} {cutOf : CutOf}
    (h : Reading es e cutOf) :
    ReportsCut es e cutOf ↔ (PeerClosed es → ¬(cutOf (received es)).Misread) :=
  reportsCut_iff_of_reports (h.expected_ack _) h.reports

/-- A client that closes after three bytes of a request header. -/
def cutRequestHeader : List (Net Interface.empty).Event :=
  [⟨.wait [.readHeader] (.read 8), .inr (.ok ⟨[0, 0, 0], by decide⟩)⟩,
    ⟨.wait [.readHeader] (.read 5), .inr (.ok ⟨[], by decide⟩)⟩]

/-- An empty request is sent and accepted, and a response begins to arrive. -/
def requestAccepted : List (Net Interface.empty).Event :=
  [⟨.wait [.write] (.write (ClientExchange.opening 7 [])), .inr (.ok ⟨8, Nat.le_refl 8⟩)⟩,
    ⟨.wait [] .flush, .inr (.ok ())⟩,
    ⟨.wait [.readHeader] (.read 1), .inr (.ok ⟨[1], Nat.le_refl 1⟩)⟩,
    ⟨.wait [] .flush, .inr (.ok ())⟩]

/-- The server closes after two bytes of the response header. -/
def cutResponseHeader : List (Net Interface.empty).Event :=
  requestAccepted ++
    [⟨.wait [.readHeader] (.read 5), .inr (.ok ⟨[1, 0], by decide⟩)⟩,
      ⟨.wait [.readHeader] (.read 3), .inr (.ok ⟨[], by decide⟩)⟩]

/-- The server closes after the response header, which announces two bytes. -/
def cutResponsePayload : List (Net Interface.empty).Event :=
  requestAccepted ++
    [⟨.wait [.readHeader] (.read 5), .inr (.ok ⟨[1, 0, 0, 0, 2], Nat.le_refl 5⟩)⟩,
      ⟨.wait [.write] (.write [1]), .inr (.ok ⟨1, Nat.le_refl 1⟩)⟩,
      ⟨.wait [] .flush, .inr (.ok ())⟩,
      ⟨.wait [.readData] (.read 2), .inr (.ok ⟨[], Nat.zero_le 2⟩)⟩]

theorem disconnect_classified_inRequestHeader : ∃ e,
    ReportsCut cutRequestHeader e requestHeaderCut ↔
      (PeerClosed cutRequestHeader → ¬(requestHeaderCut (received cutRequestHeader)).Misread) := by
  obtain ⟨s', r, hrun⟩ : ∃ s' r, (ServerTL.readCommand .new : Task (Net Interface.empty) _ _).Run
      cutRequestHeader s' r := Task.exists_run_of_replay (by decide +kernel)
  exact ⟨_, disconnect_classified_iff (.readCommand hrun)⟩

/-- Two disconnects of a server that the client does not classify: in the middle of a
response header, and after it. -/
theorem disconnect_misread :
    (∃ buffer' r, (ClientTL.exchange 7 [] true 16 (.withCapacity 16) :
        Task (Net Interface.empty) _ _).Run cutResponseHeader buffer' r ∧
      ¬ReportsCut cutResponseHeader (errorOf r) (exchangeCut true)) ∧
    ∃ buffer' r, (ClientTL.exchange 7 [] true 16 (.withCapacity 16) :
        Task (Net Interface.empty) _ _).Run cutResponsePayload buffer' r ∧
      ¬ReportsCut cutResponsePayload (errorOf r) (exchangeCut true) := by
  constructor
  · obtain ⟨buffer', r, hrun⟩ : ∃ buffer' r, (ClientTL.exchange 7 [] true 16 (.withCapacity 16) :
        Task (Net Interface.empty) _ _).Run cutResponseHeader buffer' r :=
      Task.exists_run_of_replay (by decide +kernel)
    have hreports := (Reading.exchange hrun).reports
    refine ⟨buffer', r, hrun, fun h => ?_⟩
    refine (reportsCut_iff_of_reports ((Reading.exchange hrun).expected_ack _) hreports).mp h ?_
      (.inl ⟨rfl, by decide⟩)
    exact ⟨_, List.mem_of_mem_getLast? rfl, by decide, rfl⟩
  · obtain ⟨buffer', r, hrun⟩ : ∃ buffer' r, (ClientTL.exchange 7 [] true 16 (.withCapacity 16) :
        Task (Net Interface.empty) _ _).Run cutResponsePayload buffer' r :=
      Task.exists_run_of_replay (by decide +kernel)
    have hreports := (Reading.exchange hrun).reports
    refine ⟨buffer', r, hrun, fun h => ?_⟩
    refine (reportsCut_iff_of_reports ((Reading.exchange hrun).expected_ack _) hreports).mp h ?_
      (.inr ⟨rfl, by decide⟩)
    exact ⟨_, List.mem_of_mem_getLast? rfl, by decide, rfl⟩

end Wagonet
