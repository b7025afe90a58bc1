import Wagonet.ExchangeRuns
import Wagonet.ServerScripts

/-!
The scripts the client follows when no timer runs out but the one in the second
half of a ping response.
-/

namespace Wagonet

open Library

namespace ClientExchange

variable {C : Interface} {ε : Type} {E : ExchangeErrors ε} {buffer : ByteVec}

theorem follows_readFrame {ι : Type} {T : Timer} {elapsed : ε} {conv : ι → ε} {eof : Nat → ι}
    {io : IoError → ι} (bs : List UInt8) (hT : ¬ProbeOnly T) :
    Follows ProbeOnly (Async.within (C := C) T elapsed conv
        (readLoop bs.length fill eof io bs.length []) (buffer.resize bs.length))
      (bs.map .recv) fun buffer' r => r = .ok bs ∧ buffer'.bytes = bs := by
  refine .within hT ((Follows.readLoop keepsLongest_fill (by simp) (by simp)).mono ?_)
  rintro buffer' r ⟨rfl, rfl⟩
  have hlen : (buffer.resize bs.length).bytes.length = bs.length := ByteVec.resize_length _ _
  refine ⟨rfl, ?_⟩
  split
  · rename_i hnil
    subst hnil
    exact List.eq_nil_of_length_eq_zero hlen
  · exact ByteVec.overwrite_all hlen.symm

theorem follows_writeFrame {σ : Type} {s : σ} {T : Timer} {elapsed : ε} {conv : IoError → ε}
    (bs : List UInt8) (hT : ¬ProbeOnly T) :
    Follows ProbeOnly (Async.within (C := C) T elapsed conv (writeAll bs) s)
      (bs.map .send) fun s' r => s' = s ∧ r = .ok () := by
  refine .within hT ((Follows.writeLoop (Nat.le_refl _)).mono ?_)
  rintro s' r ⟨rfl, rfl⟩
  exact ⟨rfl, rfl⟩

/-- A frame is written and flushed. -/
theorem follows_sendFrame {T : Timer} {elapsed : ε} (bs : List UInt8) (hT : ¬ProbeOnly T) :
    Follows ProbeOnly ((do
        Async.within (C := C) T elapsed E.io (writeAll bs)
        Async.mapError E.io flush
        Async.modify .clear : Async (Net C) ByteVec ε Unit) buffer)
      (bs.map .send ++ [.flush]) fun _ r => r = .ok () := by
  refine .seq (P := fun _ _ => True) ((follows_writeFrame bs hT).mono ?_) ?_
  · rintro s' r ⟨-, rfl⟩
    exact ⟨(), rfl, trivial⟩
  · intro s' _ _
    rw [← List.append_nil [_]]
    refine .seq (P := fun _ _ => True) (.mapError (Follows.flush.mono ?_)) ?_
    · rintro s'' r ⟨-, rfl⟩
      exact ⟨(), rfl, trivial⟩
    · intro s'' _ _
      exact ⟨rfl, rfl⟩

theorem follows_sendRequestHeaderLocked (command dataSize : UInt32) :
    Follows ProbeOnly
      (sendRequestHeaderLocked E command dataSize buffer : Task (Net C) _ _)
      ((RequestHeader.encode ⟨command, dataSize⟩).map .send ++ [.flush])
      fun _ r => r = .ok () := by
  simp only [sendRequestHeaderLocked, Async.modify_bind_apply, Async.get_bind_apply]
  exact follows_sendFrame _ (by rintro ⟨⟩)

/-- The acknowledgement of a response header. -/
theorem follows_sendResponseHeaderLocked :
    Follows ProbeOnly (sendResponseHeaderLocked E 1 0 buffer : Task (Net C) _ _)
      [.send 1, .flush] fun _ r => r = .ok () := by
  simp only [sendResponseHeaderLocked, Async.modify_bind_apply, Async.get_bind_apply]
  exact follows_sendFrame [1] (by rintro ⟨⟩)

/-- The status byte that answers a request header. -/
theorem follows_receiveStatus (status : UInt8) (m : Nat) :
    Follows ProbeOnly (receiveResponseHeaderLocked E true true m buffer : Task (Net C) _ _)
      [.recv status] fun _ r => r = .ok ⟨status, 0⟩ := by
  simp only [receiveResponseHeaderLocked, Async.modify_bind_apply]
  rw [← List.append_nil [_]]
  refine .seq (P := fun buffer' _ => buffer'.bytes = [status])
    ((follows_readFrame (T := .readHeader) [status] (by rintro ⟨⟩)).mono ?_) ?_
  · rintro buffer' r ⟨rfl, hbuf⟩
    exact ⟨_, rfl, hbuf⟩
  · intro buffer' _ hbuf
    simp only [Async.get_bind_apply, hbuf, Bool.not_true, Bool.or_false,
      ResponseHeader.decode_true_singleton]
    exact ⟨rfl, rfl⟩

/-- The server has closed the stream instead of answering the request header. -/
theorem follows_receiveStatus_eof (m : Nat) :
    Follows ProbeOnly (receiveResponseHeaderLocked E true true m buffer : Task (Net C) _ _)
      [.eof] fun _ r => r = .error (E.io .unexpectedEof) := by
  simp only [receiveResponseHeaderLocked, Async.modify_bind_apply]
  refine .stop (.within (by rintro ⟨⟩) ((Follows.readLoop_eof (by decide)).mono ?_))
  rintro buffer' r ⟨-, rfl⟩
  exact ⟨_, rfl, rfl⟩

/-- The header of a response, if its size is within the limit. -/
theorem follows_receiveHeader (header : ResponseHeader) (m : Nat) :
    Follows ProbeOnly (receiveResponseHeaderLocked E false true m buffer : Task (Net C) _ _)
      ((header.encode false).map .recv) fun _ r => r =
        if header.dataSize.toNat > m then
          .error (E.crate (.bufferOverflow header.dataSize.toNat m))
        else .ok header := by
  simp only [receiveResponseHeaderLocked, Async.modify_bind_apply]
  rw [← List.append_nil (List.map _ _)]
  refine .seq (P := fun buffer' _ => buffer'.bytes = header.encode false)
    ((follows_readFrame (T := .readHeader) (header.encode false) (by rintro ⟨⟩)).mono ?_) ?_
  · rintro buffer' r ⟨rfl, hbuf⟩
    exact ⟨_, rfl, hbuf⟩
  · intro buffer' _ hbuf
    simp only [Async.get_bind_apply, hbuf, Bool.not_true, Bool.or_false,
      ResponseHeader.decode_encode]
    split <;> exact ⟨rfl, rfl⟩

/-- The script up to the server's answer to the request header. -/
def openScript (command : UInt32) (data : List UInt8) : List (Token Timer C) :=
  (RequestHeader.encode ⟨command, UInt32.ofNat data.length⟩).map .send ++ [.flush]

/-- The script of a request that the server accepts, up to the response. -/
def sendScript (command : UInt32) (data : List UInt8) : List (Token Timer C) :=
  openScript command data ++ ([.recv 1] ++ (data.map .send ++ [.flush]))

/-- The response header. -/
def headerScript (status : UInt8) (payload : List UInt8) : List (Token Timer C) :=
  (ResponseHeader.encode ⟨status, UInt32.ofNat payload.length⟩ false).map .recv

/-- The acknowledgement, and the payload unless the status is an error. -/
def replyScript (status : UInt8) (payload : List UInt8) : List (Token Timer C) :=
  [.send 1, .flush] ++ if status = 1 then payload.map .recv else []

section

variable {command : UInt32} {data : List UInt8} {m : Nat}

theorem follows_sendMessageLocked :
    Follows ProbeOnly (sendMessageLocked E command data true m buffer : Task (Net C) _ _)
      (sendScript command data) fun _ r => r = .ok () := by
  refine .seq (P := fun _ _ => True) ((follows_sendRequestHeaderLocked _ _).mono ?_) ?_
  · rintro s r rfl
    exact ⟨(), rfl, trivial⟩
  intro s _ _
  refine .seq (P := fun _ header => header = ⟨1, 0⟩) ((follows_receiveStatus 1 m).mono ?_) ?_
  · rintro s' r rfl
    exact ⟨_, rfl, rfl⟩
  rintro s' _ rfl
  simp only [ne_eq, not_true_eq_false, if_false]
  exact follows_sendFrame data nofun

theorem follows_sendMessageLocked_rejected {status : UInt8} (h : status ≠ 1) :
    Follows ProbeOnly (sendMessageLocked E command data true m buffer : Task (Net C) _ _)
      (openScript command data ++ [.recv status]) fun _ r => r = .error (E.rejected status) := by
  refine .seq (P := fun _ _ => True) ((follows_sendRequestHeaderLocked _ _).mono ?_) ?_
  · rintro s r rfl
    exact ⟨(), rfl, trivial⟩
  intro s _ _
  rw [← List.append_nil [_]]
  refine .seq (P := fun _ header => header = ⟨status, 0⟩)
    ((follows_receiveStatus status m).mono ?_) ?_
  · rintro s' r rfl
    exact ⟨_, rfl, rfl⟩
  rintro s' _ rfl
  simp only [ne_eq, h, not_false_eq_true, if_true]
  exact ⟨rfl, rfl⟩

theorem follows_sendMessageLocked_eof :
    Follows ProbeOnly (sendMessageLocked E command data true m buffer : Task (Net C) _ _)
      (openScript command data ++ [.eof]) fun _ r => r = .error (E.io .unexpectedEof) := by
  refine .seq (P := fun _ _ => True) ((follows_sendRequestHeaderLocked _ _).mono ?_) ?_
  · rintro s r rfl
    exact ⟨(), rfl, trivial⟩
  intro s _ _
  refine .stop ((follows_receiveStatus_eof m).mono ?_)
  rintro s' r rfl
  exact ⟨_, rfl, rfl⟩

theorem follows_receiveMessageLocked {status : UInt8} {payload : List UInt8}
    (hm : declaredSize payload ≤ m) (h : status = 1 → payload.length < 2 ^ 32) :
    Follows ProbeOnly (receiveMessageLocked E true m buffer : Task (Net C) _ _)
      (headerScript status payload ++ replyScript status payload)
      fun _ r => r = if status = 1 then .ok payload else .error (E.notOk status) := by
  have hlimit : ¬(UInt32.ofNat payload.length).toNat > m := Nat.not_lt.mpr hm
  refine .seq (P := fun _ header => header = ⟨status, UInt32.ofNat payload.length⟩)
    ((follows_receiveHeader ⟨status, UInt32.ofNat payload.length⟩ m).mono ?_) ?_
  · rintro s r rfl
    simp only [hlimit, if_false]
    exact ⟨_, rfl, rfl⟩
  rintro s _ rfl
  refine .seq (P := fun _ _ => True) (follows_sendResponseHeaderLocked.mono ?_) ?_
  · rintro s' r rfl
    exact ⟨(), rfl, trivial⟩
  intro s' _ _
  by_cases hst : status = 1
  · have hsize : (UInt32.ofNat payload.length).toNat = payload.length :=
      declaredSize_of_lt (h hst)
    rw [hsize] at hlimit
    simp only [hst, hsize, hlimit, ne_eq, not_true_eq_false, if_false, if_true]
    by_cases hnil : payload = []
    · subst hnil
      exact ⟨rfl, rfl⟩
    · simp only [List.length_eq_zero_iff, hnil, if_false, Async.modify_bind_apply]
      rw [← List.append_nil (List.map _ _)]
      refine .seq (P := fun buffer' _ => buffer'.bytes = payload)
        ((follows_readFrame (T := .readData) payload nofun).mono ?_) ?_
      · rintro s'' r ⟨rfl, hbuf⟩
        exact ⟨_, rfl, hbuf⟩
      · intro s'' _ hbuf
        exact ⟨rfl, by rw [hbuf]⟩
  · simp only [ne_eq, hst, not_false_eq_true, if_true, if_false]
    exact ⟨rfl, rfl⟩

theorem follows_receiveMessageLocked_overflow {status : UInt8} {payload : List UInt8}
    (hm : m < declaredSize payload) :
    Follows ProbeOnly (receiveMessageLocked E true m buffer : Task (Net C) _ _)
      (headerScript status payload)
      fun _ r => r = .error (E.crate (.bufferOverflow (declaredSize payload) m)) := by
  refine .stop ((follows_receiveHeader ⟨status, UInt32.ofNat payload.length⟩ m).mono ?_)
  rintro s r rfl
  exact ⟨_, if_pos hm, rfl⟩

/-- A request that is answered. -/
theorem follows_exchange {status : UInt8} {payload : List UInt8}
    (hm : declaredSize payload ≤ m) (h : status = 1 → payload.length < 2 ^ 32) :
    Follows ProbeOnly (exchange E command data true m buffer : Task (Net C) _ _)
      (sendScript command data ++ (headerScript status payload ++ replyScript status payload))
      fun _ r => r = if status = 1 then .ok payload else .error (E.notOk status) := by
  refine .seq (P := fun _ _ => True) (follows_sendMessageLocked.mono ?_) ?_
  · rintro s r rfl
    exact ⟨(), rfl, trivial⟩
  · intro s _ _
    exact follows_receiveMessageLocked hm h

/-- A request whose response is longer than the client allows. -/
theorem follows_exchange_overflow {status : UInt8} {payload : List UInt8}
    (hm : m < declaredSize payload) :
    Follows ProbeOnly (exchange E command data true m buffer : Task (Net C) _ _)
      (sendScript command data ++ headerScript status payload)
      fun _ r => r = .error (E.crate (.bufferOverflow (declaredSize payload) m)) := by
  refine .seq (P := fun _ _ => True) (follows_sendMessageLocked.mono ?_) ?_
  · rintro s r rfl
    exact ⟨(), rfl, trivial⟩
  · intro s _ _
    exact follows_receiveMessageLocked_overflow hm

/-- A request that the server rejects with a status. -/
theorem follows_exchange_rejected {status : UInt8} (h : status ≠ 1) :
    Follows ProbeOnly (exchange E command data true m buffer : Task (Net C) _ _)
      (openScript command data ++ [.recv status]) fun _ r => r = .error (E.rejected status) := by
  refine .stop ((follows_sendMessageLocked_rejected h).mono ?_)
  rintro s r rfl
  exact ⟨_, rfl, rfl⟩

/-- A request that the server answers by closing the stream. -/
theorem follows_exchange_eof :
    Follows ProbeOnly (exchange E command data true m buffer : Task (Net C) _ _)
      (openScript command data ++ [.eof]) fun _ r => r = .error (E.io .unexpectedEof) := by
  refine .stop (follows_sendMessageLocked_eof.mono ?_)
  rintro s r rfl
  exact ⟨_, rfl, rfl⟩

end

end ClientExchange

namespace Ping

variable {C : Interface} {σ : Type} {s : σ}

/-- The script of a ping: the server answers with the status byte alone, and the wait
for more bytes runs into its timer. -/
def script : List (Token Timer C) :=
  (RequestHeader.encode ⟨Command.ping, 0⟩).map .send ++
    ([.flush] ++ ([.recv 1] ++ [.lapse .pingOldFormatRead]))

theorem follows_sendPingRequestImpl :
    Follows ProbeOnly (sendPingRequestImpl s : Task (Net C) σ _)
      ((RequestHeader.encode ⟨Command.ping, 0⟩).map .send ++ [.flush])
      fun s' r => s' = s ∧ r = .ok () := by
  refine .seq (P := fun s' _ => s' = s)
    (.mapError ((Follows.writeLoop (Nat.le_refl _)).mono ?_)) ?_
  · rintro s' r ⟨rfl, rfl⟩
    exact ⟨(), rfl, rfl⟩
  · rintro s' _ rfl
    refine .mapError (Follows.flush.mono ?_)
    rintro s'' r ⟨rfl, rfl⟩
    exact ⟨rfl, rfl⟩

theorem follows_receivePingResponseImpl :
    Follows ProbeOnly (receivePingResponseImpl s : Task (Net C) σ _)
      ([.recv 1] ++ [.lapse .pingOldFormatRead]) fun _ r => r = .ok () := by
  have hread : Follows ProbeOnly (readExact 1 discard s : Task (Net C) σ _)
      (([1] : List UInt8).map .recv) _ :=
    Follows.readLoop keepsLongest_discard rfl (Nat.le_refl _)
  refine .seq (P := fun _ statusBuf => statusBuf = [1])
    (.within nofun (hread.mono ?_)) ?_
  · rintro s' r ⟨rfl, rfl⟩
    exact ⟨_, rfl, rfl⟩
  rintro s₁ _ rfl
  simp only [List.headD_cons, ne_eq, not_true_eq_false, if_false]
  rw [← List.append_nil [_]]
  refine .seq (P := fun _ o => o = none) ?_ ?_
  · rw [← List.append_nil [_]]
    have hlapse : Follows ProbeOnly
        ((readExact 4 discard s₁ : Task (Net C) σ _).timeout .pingOldFormatRead)
        [.lapse .pingOldFormatRead] fun s' o => s' = s₁ ∧ o = none :=
      Follows.lapse (readLoop_of_lt (by decide) s₁) rfl
    refine Follows.bind (hlapse.mono ?_)
    rintro s' o ⟨-, rfl⟩
    exact ⟨rfl, none, rfl, rfl⟩
  · rintro s₂ _ rfl
    exact ⟨rfl, rfl⟩

theorem follows_exchange : Follows ProbeOnly (exchange s : Task (Net C) σ _) script
    fun _ r => r = .ok () := by
  rw [script, ← List.append_assoc]
  refine .seq (P := fun _ _ => True) (follows_sendPingRequestImpl.mono ?_) ?_
  · rintro s' r ⟨-, rfl⟩
    exact ⟨(), rfl, trivial⟩
  · intro s' _ _
    exact follows_receivePingResponseImpl

end Ping

end Wagonet
