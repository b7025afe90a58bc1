import Wagonet.ClientOperations
import Wagonet.WireFormat

/-!
What an exchange of the client sends and receives.

The frames are sent in one order, each after the answer to the one before it, and
every early return leaves out the rest. So a run is known from what the peer sends
and from where an operation fails.
-/

namespace Wagonet

open Library

namespace ClientExchange

variable {C : Interface} {ε : Type} {E : ExchangeErrors ε} {buffer buffer' : ByteVec}
  {es : List (Net C).Event}

theorem keepsLongest_fill : KeepsLongest fill := by
  intro a b buffer h
  simp only [fill, ByteVec.overwrite_overwrite h]

/-- Reading a frame of `n` bytes leaves exactly those bytes in the buffer. -/
theorem readFrame_run {ι : Type} {n : Nat} {t : Timer} {elapsed : ε} {conv : ι → ε} {eof : Nat → ι}
    {io : IoError → ι} {r : Except ε (List UInt8)}
    (h : (Async.within t elapsed conv (readLoop n fill eof io n []) (buffer.resize n) :
      Task (Net C) _ _).Run es buffer' r) :
    sent es = [] ∧
      (((received es).length = n ∧ anyFailed es = false ∧ r = .ok (received es) ∧
          buffer'.bytes = received es) ∨
        (anyFailed es = true ∧ ∃ e, r = .error e)) := by
  obtain ⟨hsent, hcase⟩ := readLoop_within_run keepsLongest_fill h
  refine ⟨hsent, hcase.imp ?_ And.right⟩
  rintro ⟨hlen, hok, hr, hs⟩
  refine ⟨hlen, hok, hr, ?_⟩
  have hbuf : (buffer.resize n).bytes.length = n := ByteVec.resize_length _ _
  split at hs
  · rename_i hnil
    rw [hnil] at hlen ⊢
    rw [hs]
    exact List.eq_nil_of_length_eq_zero (hbuf.trans hlen.symm)
  · rw [hs]
    exact ByteVec.overwrite_all (hlen.trans hbuf.symm)

/-- A frame is written completely, or the function fails. -/
theorem sendFrame_run {T : Timer} {elapsed : ε} {bytes : List UInt8} {r : Except ε Unit}
    (h : ((do
        Async.within (C := C) T elapsed E.io (writeAll bytes)
        Async.mapError E.io flush
        Async.modify .clear : Async (Net C) ByteVec ε Unit) buffer).Run es buffer' r) :
    received es = [] ∧ (∃ rest, bytes = sent es ++ rest) ∧
      ((sent es = bytes ∧ anyFailed es = false ∧ r = .ok ()) ∨
        (anyFailed es = true ∧ ∃ e, r = .error e)) := by
  rcases Async.run_bind_iff.mp h with ⟨e, rfl, h₁⟩ | ⟨es₁, es₂, s₁, u, rfl, h₁, h₂⟩
  · obtain ⟨hrec, -, ⟨-, -, hr⟩ | ⟨⟨rest, -, hrest⟩, hbad, -⟩⟩ := writeLoop_within_run h₁
    · cases hr
    · exact ⟨hrec, ⟨rest, hrest⟩, .inr ⟨hbad, e, rfl⟩⟩
  obtain ⟨hrec, -, ⟨hsent, hok, -⟩ | ⟨-, -, e, hr⟩⟩ := writeLoop_within_run h₁
  case inr => cases hr
  rcases Async.run_bind_iff.mp h₂ with ⟨e, rfl, h₃⟩ | ⟨es₃, es₄, s₂, u', rfl, h₃, h₄⟩
  · obtain ⟨r₁, hr, h₃⟩ := Async.mapError_run_iff.mp h₃
    obtain ⟨hrec', hsent', -, ⟨-, rfl⟩ | ⟨hbad, -⟩⟩ := flushStream_run h₃
    · cases hr
    · exact ⟨by simp [hrec, hrec'], ⟨[], by simp [hsent, hsent']⟩, .inr ⟨by simp [hbad], e, rfl⟩⟩
  · obtain ⟨r₁, hr, h₃⟩ := Async.mapError_run_iff.mp h₃
    obtain ⟨hrec', hsent', -, ⟨hok', -⟩ | ⟨-, e, rfl⟩⟩ := flushStream_run h₃
    · obtain ⟨rfl, rfl, rfl⟩ := Task.run_done_iff.mp h₄
      exact ⟨by simp [hrec, hrec'], ⟨[], by simp [hsent, hsent']⟩,
        .inl ⟨by simp [hsent, hsent'], by simp [hok, hok'], rfl⟩⟩
    · cases hr

/-- A header is received completely, or the function fails. -/
theorem receiveResponseHeaderLocked_run {isDefault commandHasAnswer : Bool} {m : Nat}
    {r : Except ε ResponseHeader}
    (h : (receiveResponseHeaderLocked E isDefault commandHasAnswer m buffer :
      Task (Net C) _ _).Run es buffer' r) :
    sent es = [] ∧
      ((∃ header : ResponseHeader,
          received es = header.encode (isDefault || !commandHasAnswer) ∧
          ((isDefault || !commandHasAnswer) = true → header.dataSize = 0) ∧
          anyFailed es = false ∧
          r = if header.dataSize.toNat > m then
              .error (E.crate (.bufferOverflow header.dataSize.toNat m)) else .ok header) ∨
        (anyFailed es = true ∧ ∃ e, r = .error e)) := by
  have hlen : ResponseHeader.encodedLen isDefault commandHasAnswer =
      ResponseHeader.encodedLen (isDefault || !commandHasAnswer) true := by
    cases isDefault <;> cases commandHasAnswer <;> rfl
  simp only [receiveResponseHeaderLocked, Async.modify_bind_apply, hlen] at h
  rcases Async.run_bind_iff.mp h with ⟨e, rfl, h₁⟩ | ⟨es₁, es₂, s₁, u, rfl, h₁, h₂⟩
  · obtain ⟨hsent, ⟨-, -, hr, -⟩ | ⟨hbad, -⟩⟩ := readFrame_run h₁
    · cases hr
    · exact ⟨hsent, .inr ⟨hbad, e, rfl⟩⟩
  obtain ⟨hsent, ⟨hn, hok, -, hbuf⟩ | ⟨-, e, hr⟩⟩ := readFrame_run h₁
  case inr => cases hr
  obtain ⟨header, hheader, hd⟩ := ResponseHeader.exists_encode hn
  rw [Async.get_bind_apply, hbuf, hheader, ResponseHeader.decode_encode_of header m hd] at h₂
  have hend : es₂ = [] ∧ r = if header.dataSize.toNat > m then
      .error (E.crate (.bufferOverflow header.dataSize.toNat m)) else .ok header := by
    split at h₂
    · rename_i hover
      obtain ⟨rfl, -, rfl⟩ := Task.run_done_iff.mp h₂
      exact ⟨rfl, (if_pos hover).symm⟩
    · rename_i hfits
      obtain ⟨rfl, -, rfl⟩ := Task.run_done_iff.mp h₂
      exact ⟨rfl, (if_neg hfits).symm⟩
  obtain ⟨rfl, hr⟩ := hend
  exact ⟨by simp [hsent], .inl ⟨header, by simp [hheader], hd, by simp [hok], hr⟩⟩

/-! ### The exchange -/

/-- What the peer sends to a request that it accepts and answers. -/
def Answered (commandHasAnswer : Bool) (maxBufferSize : Nat) (bytes payload : List UInt8) : Prop :=
  ∃ header : ResponseHeader, bytes = 1 :: (header.encode (!commandHasAnswer) ++ payload) ∧
    (commandHasAnswer = false → header.dataSize = 0) ∧ header.status = 1 ∧
      header.dataSize.toNat ≤ maxBufferSize ∧ payload.length = header.dataSize.toNat

variable {command : UInt32} {data : List UInt8} {commandHasAnswer : Bool} {m : Nat}

/-- The bytes of a request header. -/
def opening (command : UInt32) (data : List UInt8) : List UInt8 :=
  RequestHeader.encode ⟨command, UInt32.ofNat data.length⟩

/-- The payload is sent after the request was accepted, and not otherwise. -/
theorem sendMessageLocked_run {r : Except ε Unit}
    (h : (sendMessageLocked E command data commandHasAnswer m buffer : Task (Net C) _ _).Run
      es buffer' r) :
    (∃ rest, opening command data ++ data = sent es ++ rest) ∧
      (8 < (sent es).length → received es = [1]) ∧
      ((anyFailed es = false ∧ received es = [1] ∧ sent es = opening command data ++ data ∧
          r = .ok ()) ∨
        ((anyFailed es = true ∨ ∃ status, status ≠ 1 ∧ received es = [status]) ∧
          ∃ e, r = .error e)) := by
  have hopening : (opening command data).length = 8 := rfl
  rcases Async.run_bind_iff.mp h with ⟨e, rfl, h₁⟩ | ⟨es₁, es₂, s₁, u, rfl, h₁, h₂⟩
  · simp only [sendRequestHeaderLocked, Async.modify_bind_apply, Async.get_bind_apply] at h₁
    obtain ⟨-, ⟨rest, hrest⟩, ⟨-, -, hr⟩ | ⟨hbad, -⟩⟩ := sendFrame_run h₁
    · cases hr
    · have hlen : (sent es ++ rest).length = 8 := by rw [← hrest]; rfl
      rw [List.length_append] at hlen
      refine ⟨⟨rest ++ data, ?_⟩, fun hlong => by omega, .inr ⟨.inl hbad, e, rfl⟩⟩
      rw [← List.append_assoc, ← hrest]
      rfl
  simp only [sendRequestHeaderLocked, Async.modify_bind_apply, Async.get_bind_apply] at h₁
  obtain ⟨hrec, -, ⟨hsent, hok, -⟩ | ⟨-, e, hr⟩⟩ := sendFrame_run h₁
  case inr => cases hr
  replace hsent : sent es₁ = opening command data := hsent
  rcases Async.run_bind_iff.mp h₂ with ⟨e, rfl, h₃⟩ | ⟨es₃, es₄, s₂, header, rfl, h₃, h₄⟩
  · obtain ⟨hsent₃, ⟨header, -, hd, -, hr⟩ | ⟨hbad, -⟩⟩ := receiveResponseHeaderLocked_run h₃
    · rw [show header.dataSize = 0 from hd rfl] at hr
      cases hr
    · refine ⟨⟨data, by simp [hsent, hsent₃]⟩, fun hlong => ?_,
        .inr ⟨.inl (by simp [hbad]), e, rfl⟩⟩
      simp [hsent, hsent₃, hopening] at hlong
  obtain ⟨hsent₃, ⟨header', hheader, hd, hok₃, hr⟩ | ⟨-, e, hr⟩⟩ :=
    receiveResponseHeaderLocked_run h₃
  case inr => cases hr
  have hzero : header'.dataSize = 0 := hd rfl
  rw [hzero] at hr
  obtain rfl : header = header' := Except.ok.inj hr
  have hstatus : received (es₁ ++ es₃) = [header.status] := by
    rw [received_append, hrec, hheader]
    rfl
  by_cases hone : header.status = 1
  · rw [if_neg (by simp [hone])] at h₄
    obtain ⟨hrec₄, ⟨rest, hrest⟩, hcase⟩ := sendFrame_run h₄
    rw [hone] at hstatus
    have hall : received (es₁ ++ (es₃ ++ es₄)) = [1] := by
      rw [← List.append_assoc, received_append, hstatus, hrec₄, List.append_nil]
    refine ⟨⟨rest, by simp [hsent, hsent₃, ← hrest]⟩, fun _ => hall, hcase.imp ?_ ?_⟩
    · rintro ⟨hsent₄, hok₄, rfl⟩
      exact ⟨by simp [hok, hok₃, hok₄], hall, by simp [hsent, hsent₃, hsent₄], rfl⟩
    · rintro ⟨hbad, e, rfl⟩
      exact ⟨.inl (by simp [hbad]), e, rfl⟩
  · rw [if_pos hone] at h₄
    obtain ⟨rfl, -, rfl⟩ := Task.run_done_iff.mp h₄
    refine ⟨⟨data, by simp [hsent, hsent₃]⟩, fun hlong => ?_,
      .inr ⟨.inr ⟨header.status, hone, by simpa using hstatus⟩, _, rfl⟩⟩
    simp [hsent, hsent₃, hopening] at hlong

/-- The response is acknowledged once its header was received. -/
theorem receiveMessageLocked_run {r : Except ε (List UInt8)}
    (h : (receiveMessageLocked E commandHasAnswer m buffer : Task (Net C) _ _).Run es buffer' r) :
    (∃ rest, [1] = sent es ++ rest) ∧
      ((anyFailed es = false ∧ sent es = [1] ∧ ∃ payload, r = .ok payload ∧
          Answered commandHasAnswer m (1 :: received es) payload) ∨
        ((anyFailed es = true ∨
            ∀ payload, ¬Answered commandHasAnswer m (1 :: received es) payload) ∧
          ∃ e, r = .error e)) := by
  have hdd : ∀ header : ResponseHeader,
      ((false || !commandHasAnswer) = true → header.dataSize = 0) →
        (commandHasAnswer = false → header.dataSize = 0) := by
    intro header hd hno
    exact hd (by rw [hno]; rfl)
  -- a header that is not accepted is not one that is
  have refuse : ∀ (header : ResponseHeader) (payload rest : List UInt8),
      ((false || !commandHasAnswer) = true → header.dataSize = 0) →
        (header.status ≠ 1 ∨ m < header.dataSize.toNat) →
          ¬Answered commandHasAnswer m (1 :: (header.encode (false || !commandHasAnswer) ++ rest))
            payload := by
    rintro header payload rest hd hbad ⟨header', hbytes, hd', hstatus, hsize, -⟩
    obtain ⟨rfl, -⟩ := ResponseHeader.encode_append_inj hd
      (fun hno => hd' (by simpa using hno)) (List.cons.inj hbytes).2
    rcases hbad with hbad | hbad
    · exact hbad hstatus
    · omega
  rcases Async.run_bind_iff.mp h with ⟨e, rfl, h₁⟩ | ⟨es₁, es₂, s₁, header, rfl, h₁, h₂⟩
  · obtain ⟨hsent, ⟨header, hheader, hd, -, hr⟩ | ⟨hbad, -⟩⟩ := receiveResponseHeaderLocked_run h₁
    · refine ⟨⟨[1], by simp [hsent]⟩, .inr ⟨.inr fun payload => ?_, e, rfl⟩⟩
      have hover : m < header.dataSize.toNat := by
        by_contra hfits
        rw [if_neg hfits] at hr
        cases hr
      rw [hheader, ← List.append_nil (header.encode _)]
      exact refuse header payload [] hd (.inr hover)
    · exact ⟨⟨[1], by simp [hsent]⟩, .inr ⟨.inl hbad, e, rfl⟩⟩
  obtain ⟨hsent, ⟨header', hheader, hd, hok, hr⟩ | ⟨-, e, hr⟩⟩ := receiveResponseHeaderLocked_run h₁
  case inr => cases hr
  have hfits : header'.dataSize.toNat ≤ m := by
    by_contra hover
    rw [if_pos (by omega)] at hr
    cases hr
  rw [if_neg (by omega)] at hr
  obtain rfl : header = header' := Except.ok.inj hr
  rcases Async.run_bind_iff.mp h₂ with ⟨e, rfl, h₃⟩ | ⟨es₃, es₄, s₂, u, rfl, h₃, h₄⟩
  · simp only [sendResponseHeaderLocked, Async.modify_bind_apply, Async.get_bind_apply] at h₃
    obtain ⟨-, ⟨rest, hrest⟩, ⟨-, -, hr⟩ | ⟨hbad, -⟩⟩ := sendFrame_run h₃
    · cases hr
    · exact ⟨⟨rest, by rw [sent_append, hsent]; exact hrest⟩, .inr ⟨.inl (by simp [hbad]), e, rfl⟩⟩
  simp only [sendResponseHeaderLocked, Async.modify_bind_apply, Async.get_bind_apply] at h₃
  obtain ⟨hrec₃, -, ⟨hsent₃, hok₃, -⟩ | ⟨-, e, hr⟩⟩ := sendFrame_run h₃
  case inr => cases hr
  replace hsent₃ : sent es₃ = [1] := hsent₃
  have hack : sent es₄ = [] → sent (es₁ ++ (es₃ ++ es₄)) = [1] := by
    intro hsent₄
    simp [hsent, hsent₃, hsent₄]
  have hbytes : received (es₁ ++ (es₃ ++ es₄)) =
      header.encode (false || !commandHasAnswer) ++ received es₄ := by
    simp only [received_append, hheader, hrec₃, List.nil_append]
  by_cases hone : header.status = 1
  case neg =>
    rw [if_pos hone] at h₄
    obtain ⟨rfl, -, rfl⟩ := Task.run_done_iff.mp h₄
    refine ⟨⟨[], by rw [hack rfl]; rfl⟩, .inr ⟨.inr fun payload => ?_, _, rfl⟩⟩
    rw [hbytes]
    exact refuse header payload _ hd (.inl hone)
  rw [if_neg (by simp [hone]), if_neg (by omega)] at h₄
  split at h₄
  · rename_i hzero
    obtain ⟨rfl, -, rfl⟩ := Task.run_done_iff.mp h₄
    refine ⟨⟨[], by rw [hack rfl]; rfl⟩,
      .inl ⟨by simp [hok, hok₃], hack rfl, [], rfl, header, ?_, hdd header hd, hone, hfits,
        hzero.symm⟩⟩
    rw [hbytes]
    rfl
  · rw [Async.modify_bind_apply] at h₄
    rcases Async.run_bind_iff.mp h₄ with ⟨e, rfl, h₅⟩ | ⟨es₅, es₆, s₃, bytes, rfl, h₅, h₆⟩
    · obtain ⟨hsent₅, ⟨-, -, hr, -⟩ | ⟨hbad, -⟩⟩ := readFrame_run h₅
      · cases hr
      · exact ⟨⟨[], by rw [hack hsent₅]; rfl⟩, .inr ⟨.inl (by simp [hbad]), e, rfl⟩⟩
    obtain ⟨hsent₅, ⟨hn, hok₅, -, hbuf⟩ | ⟨-, e, hr⟩⟩ := readFrame_run h₅
    case inr => cases hr
    rw [Async.get_bind_apply] at h₆
    obtain ⟨rfl, -, rfl⟩ := Task.run_done_iff.mp h₆
    rw [List.append_nil] at hack hbytes ⊢
    refine ⟨⟨[], by rw [hack hsent₅]; rfl⟩, .inl ⟨by simp [hok, hok₃, hok₅], hack hsent₅, s₃.bytes,
      rfl, header, ?_, hdd header hd, hone, hfits, by rw [hbuf, hn]⟩⟩
    rw [hbytes, hbuf]
    rfl

/-- A run of an exchange: what is sent is a beginning of the request header, the payload
and the acknowledgement; the payload comes after the server has accepted the request; and
the exchange succeeds exactly if no operation fails and the peer accepts and answers. -/
theorem exchange_run {r : Except ε (List UInt8)}
    (h : (exchange E command data commandHasAnswer m buffer : Task (Net C) _ _).Run es buffer' r) :
    (∃ rest, opening command data ++ data ++ [1] = sent es ++ rest) ∧
      (8 < (sent es).length → ∃ rest, received es = 1 :: rest) ∧
      ((anyFailed es = false ∧ sent es = opening command data ++ data ++ [1] ∧
          ∃ payload, r = .ok payload ∧ Answered commandHasAnswer m (received es) payload) ∨
        ((anyFailed es = true ∨ ∀ payload, ¬Answered commandHasAnswer m (received es) payload) ∧
          ∃ e, r = .error e)) := by
  rcases Async.run_bind_iff.mp h with ⟨e, rfl, h₁⟩ | ⟨es₁, es₂, s₁, u, rfl, h₁, h₂⟩
  · obtain ⟨⟨rest, hrest⟩, hlong, ⟨-, -, -, hr⟩ | ⟨hwhy, -⟩⟩ := sendMessageLocked_run h₁
    · cases hr
    · refine ⟨⟨rest ++ [1], by rw [hrest, List.append_assoc]⟩, fun h8 => ⟨[], hlong h8⟩,
        .inr ⟨hwhy.imp_right ?_, e, rfl⟩⟩
      rintro ⟨status, hne, hrec⟩ payload ⟨header, hbytes, -⟩
      rw [hrec] at hbytes
      exact hne (List.cons.inj hbytes).1
  obtain ⟨-, -, ⟨hok, hrec, hsent, -⟩ | ⟨-, e, hr⟩⟩ := sendMessageLocked_run h₁
  case inr => cases hr
  obtain ⟨⟨rest, hrest⟩, hcase⟩ := receiveMessageLocked_run h₂
  have hall : received (es₁ ++ es₂) = 1 :: received es₂ := by
    rw [received_append, hrec]
    rfl
  refine ⟨⟨rest, ?_⟩, fun _ => ⟨_, hall⟩, ?_⟩
  · rw [sent_append, hsent, List.append_assoc _ (sent es₂), ← hrest]
  · rw [hall]
    rcases hcase with ⟨hok₂, hsent₂, hpayload⟩ | ⟨hwhy, e, rfl⟩
    · exact .inl ⟨by simp [hok, hok₂], by rw [sent_append, hsent, hsent₂], hpayload⟩
    · exact .inr ⟨hwhy.imp_left (by simp [·]), e, rfl⟩

end ClientExchange

namespace ClientKind

variable {K : ClientKind} {command : UInt32} {data : List UInt8} {commandHasAnswer : Bool} {m : Nat}
  {buffer buffer' : ByteVec} {es : List (Net Interface.empty).Event}

/-- A run of the request of either client, as `ClientExchange.exchange_run` has it. -/
theorem request_run {r : Except Error (List UInt8)}
    (h : (K.program (.request command data commandHasAnswer m) buffer).Run es buffer' r) :
    (∃ rest, ClientExchange.opening command data ++ data ++ [1] = sent es ++ rest) ∧
      (8 < (sent es).length → ∃ rest, received es = 1 :: rest) ∧
      ((anyFailed es = false ∧ sent es = ClientExchange.opening command data ++ data ++ [1] ∧
          ∃ payload, r = .ok payload ∧
            ClientExchange.Answered commandHasAnswer m (received es) payload) ∨
        ((anyFailed es = true ∨
            ∀ payload, ¬ClientExchange.Answered commandHasAnswer m (received es) payload) ∧
          ∃ e, r = .error e)) := by
  cases K with
  | tl => exact ClientExchange.exchange_run h
  | tls domain acceptInvalidCerts =>
      obtain ⟨r₁, rfl, h₁⟩ := Async.mapError_run_iff.mp h
      obtain ⟨hopened, hack, hcase⟩ := ClientExchange.exchange_run h₁
      refine ⟨hopened, hack, hcase.imp ?_ ?_⟩
      · rintro ⟨hok, hsent, payload, rfl, hanswered⟩
        exact ⟨hok, hsent, payload, rfl, hanswered⟩
      · rintro ⟨hwhy, e, rfl⟩
        exact ⟨hwhy, _, rfl⟩

/-- A request that was begun has sent a beginning of its frames, and nothing of its
payload before it was accepted. -/
theorem request_partial {t : Task (Net Interface.empty) ByteVec (Except Error (List UInt8))}
    (h : (K.program (.request command data commandHasAnswer m) buffer).Partial es t) :
    (∃ rest, ClientExchange.opening command data ++ data ++ [1] = sent es ++ rest) ∧
      (8 < (sent es).length → ∃ rest, received es = 1 :: rest) := by
  obtain ⟨es', buffer', r, hrun, hsent, hreceived⟩ := t.exists_quiet_run fun c : Empty => c.elim
  obtain ⟨hopened, hack, -⟩ := request_run (h.run hrun)
  rw [sent_append, hsent, List.append_nil] at hopened hack
  rw [received_append, hreceived, List.append_nil] at hack
  exact ⟨hopened, hack⟩

end ClientKind

end Wagonet
