import Wagonet.Header
import Wagonet.Library.ByteVec

/-!
The headers and the status codes as they are read back.

Every read and every write of the transports is aligned by the two headers: what
`encode` appends to a buffer is what `decode` takes off the front of its input,
whatever comes after it. A decoder that fails leaves its input where it was. The
status of a response travels as a byte; applications may carry it as a `u32`, and
the conversion from there keeps the low byte only.
-/

namespace Wagonet

open Library

/-! ### Headers -/

namespace RequestHeader

variable {input rest : List UInt8} {m : Nat} {header : RequestHeader}

/-- A header in front of other bytes: it is taken off, unless it declares too much. -/
theorem decode_append (h : RequestHeader) (rest : List UInt8) (m : Nat) :
    decode (h.encode ++ rest) m =
      if h.dataSize.toNat ≤ m then (.ok h, rest)
      else (.error (.bufferOverflow h.dataSize.toNat m), h.encode ++ rest) := by
  have hlen : ¬(h.encode ++ rest).length < encodedLen := by
    rw [List.length_append, encode_length]
    omega
  have hc : fromBeBytes ((h.encode ++ rest).take 4) = h.command := fromBeBytes_toBeBytes h.command
  have hd : fromBeBytes (((h.encode ++ rest).drop 4).take 4) = h.dataSize :=
    fromBeBytes_toBeBytes h.dataSize
  have hrest : (h.encode ++ rest).drop encodedLen = rest := List.drop_left' rfl
  simp only [decode, hlen, if_false, hc, hd, hrest]
  by_cases hm : h.dataSize.toNat ≤ m
  · rw [if_neg (Nat.not_lt.mpr hm), if_pos hm]
  · rw [if_pos (Nat.lt_of_not_le hm), if_neg hm]

theorem decode_short (h : input.length < encodedLen) :
    decode input m = (.error (.protocol "Not enough bytes to decode RequestHeader"), input) := by
  rw [decode, if_pos h]

/-- What was decoded was there, byte for byte, in front of what is left. -/
theorem eq_append_of_decode (h : decode input m = (.ok header, rest)) :
    input = header.encode ++ rest := by
  rcases Nat.lt_or_ge input.length encodedLen with hshort | hlen
  · rw [decode_short hshort] at h
    cases h
  have htake : (input.take encodedLen).length = encodedLen := by
    rw [List.length_take]
    omega
  obtain ⟨sent, hsent⟩ := exists_encode htake
  have hsplit : input = sent.encode ++ input.drop encodedLen := by
    rw [← hsent, List.take_append_drop]
  rw [hsplit, decode_append] at h
  split at h
  · cases h
    exact hsplit
  · cases h

end RequestHeader

namespace ResponseHeader

variable {input rest : List UInt8} {m : Nat} {header : ResponseHeader}

/-- As many bytes as a header has are the encoding of one. -/
theorem exists_encode {isDefault : Bool} {bytes : List UInt8}
    (h : bytes.length = encodedLen isDefault true) :
    ∃ header : ResponseHeader, bytes = header.encode isDefault ∧
      (isDefault = true → header.dataSize = 0) := by
  cases isDefault with
  | true =>
      obtain ⟨status, rfl⟩ := List.length_eq_one_iff.mp h
      exact ⟨⟨status, 0⟩, rfl, fun _ => rfl⟩
  | false =>
      match bytes, h with
      | [status, a, b, c, d], _ =>
          refine ⟨⟨status, fromBeBytes [a, b, c, d]⟩, ?_, nofun⟩
          simp only [encode, toBeBytes_fromBeBytes, Bool.false_eq_true, if_false]

theorem encode_length (h : ResponseHeader) (isDefault : Bool) :
    (h.encode isDefault).length = encodedLen isDefault true := by
  cases isDefault <;> rfl

/-- A header is known from its bytes, whatever follows them. -/
theorem encode_append_inj {isDefault : Bool} {h h' : ResponseHeader} {rest rest' : List UInt8}
    (hd : isDefault = true → h.dataSize = 0) (hd' : isDefault = true → h'.dataSize = 0)
    (heq : h.encode isDefault ++ rest = h'.encode isDefault ++ rest') : h = h' ∧ rest = rest' := by
  obtain ⟨henc, hrest⟩ := List.append_inj heq (by rw [encode_length, encode_length])
  refine ⟨?_, hrest⟩
  obtain ⟨status, dataSize⟩ := h
  obtain ⟨status', dataSize'⟩ := h'
  cases isDefault with
  | true =>
      simp only [encode, if_true, List.cons.injEq, and_true] at henc
      rw [henc, show dataSize = 0 from hd rfl, show dataSize' = 0 from hd' rfl]
  | false =>
      simp only [encode, Bool.false_eq_true, if_false, List.cons.injEq] at henc
      have hsize := congrArg fromBeBytes henc.2
      rw [fromBeBytes_toBeBytes, fromBeBytes_toBeBytes] at hsize
      rw [henc.1, hsize]

/-- Decoding a header that was encoded in the same way. -/
theorem decode_encode_of {isDefault : Bool} (h : ResponseHeader) (m : Nat)
    (hd : isDefault = true → h.dataSize = 0) :
    (decode (h.encode isDefault) isDefault m).1 =
      if h.dataSize.toNat > m then .error (.bufferOverflow h.dataSize.toNat m) else .ok h := by
  cases isDefault with
  | true =>
      obtain ⟨status, dataSize⟩ := h
      obtain rfl : dataSize = 0 := hd rfl
      exact (if_neg (Nat.not_lt_zero m)).symm
  | false =>
      rw [decode_encode]
      split <;> rfl

theorem decode_false_append (h : ResponseHeader) (rest : List UInt8) (m : Nat) :
    decode (h.encode false ++ rest) false m =
      if h.dataSize.toNat ≤ m then (.ok h, rest)
      else (.error (.bufferOverflow h.dataSize.toNat m), h.encode false ++ rest) := by
  have hlen : ¬(h.encode false ++ rest).length < responseHeaderSize := by
    rw [List.length_append, encode_false_length]
    omega
  have hd : fromBeBytes (((h.encode false ++ rest).drop 1).take 4) = h.dataSize :=
    fromBeBytes_toBeBytes h.dataSize
  have hrest : (h.encode false ++ rest).drop responseHeaderSize = rest := List.drop_left' rfl
  obtain ⟨tail, hcons⟩ : ∃ tail, h.encode false ++ rest = h.status :: tail := ⟨_, rfl⟩
  rw [hcons] at hlen hd hrest ⊢
  simp only [decode, Bool.false_eq_true, hlen, if_false, hd, hrest]
  by_cases hm : h.dataSize.toNat ≤ m
  · rw [if_neg (Nat.not_lt.mpr hm), if_pos hm]
  · rw [if_pos (Nat.lt_of_not_le hm), if_neg hm]

theorem decode_short {isDefault : Bool} (h : input.length < encodedLen isDefault true) :
    decode input isDefault m =
      (.error (.protocol "Not enough bytes to decode ResponseHeader"), input) := by
  cases input with
  | nil => rfl
  | cons status tail =>
      cases isDefault with
      | true => exact absurd h (Nat.not_lt.mpr (Nat.succ_le_succ (Nat.zero_le _)))
      | false =>
          have hshort : (status :: tail).length < responseHeaderSize := h
          simp only [decode, Bool.false_eq_true, hshort, if_false, if_true]

/-- What was decoded was there, byte for byte, in front of what is left. -/
theorem eq_append_of_decode (h : decode input false m = (.ok header, rest)) :
    input = header.encode false ++ rest := by
  rcases Nat.lt_or_ge input.length responseHeaderSize with hshort | hlen
  · rw [decode_short hshort] at h
    cases h
  have htake : (input.take responseHeaderSize).length = responseHeaderSize := by
    rw [List.length_take]
    omega
  obtain ⟨sent, hsent, -⟩ := @exists_encode false _ htake
  have hsplit : input = sent.encode false ++ input.drop responseHeaderSize := by
    rw [← hsent, List.take_append_drop]
  rw [hsplit, decode_false_append] at h
  split at h
  · cases h
    exact hsplit
  · cases h

end ResponseHeader

/-- The codecs of the headers are inverse to each other, over any bytes in front of
what is encoded and behind it, and a failed decoder has not moved. -/
theorem headers_read_back (command dataSize : UInt32) (status : UInt8) (buffer : ByteVec)
    (rest : List UInt8) (m : Nat) :
    -- a request header
    (∃ bytes, (buffer.extend (RequestHeader.encode ⟨command, dataSize⟩)).bytes =
        buffer.bytes ++ bytes ∧
      bytes.length = 8 ∧ bytes.length = RequestHeader.encodedLen ∧
      (dataSize.toNat ≤ m →
        RequestHeader.decode (bytes ++ rest) m = (.ok ⟨command, dataSize⟩, rest)) ∧
      (m < dataSize.toNat →
        RequestHeader.decode (bytes ++ rest) m =
          (.error (.bufferOverflow dataSize.toNat m), bytes ++ rest))) ∧
    (∀ input : List UInt8, input.length < RequestHeader.encodedLen →
      ∃ text, RequestHeader.decode input m = (.error (.protocol text), input)) ∧
    (∀ input header left, RequestHeader.decode input m = (.ok header, left) →
      input = header.encode ++ left) ∧
    -- a response header with the size of the payload
    (∃ bytes, (buffer.extend (ResponseHeader.encode ⟨status, dataSize⟩ false)).bytes =
        buffer.bytes ++ bytes ∧
      bytes.length = 5 ∧ bytes.length = ResponseHeader.encodedLen false true ∧
      (dataSize.toNat ≤ m →
        ResponseHeader.decode (bytes ++ rest) false m = (.ok ⟨status, dataSize⟩, rest)) ∧
      (m < dataSize.toNat →
        ResponseHeader.decode (bytes ++ rest) false m =
          (.error (.bufferOverflow dataSize.toNat m), bytes ++ rest))) ∧
    -- a response header that is the status alone
    (∃ bytes, (buffer.extend (ResponseHeader.encode ⟨status, dataSize⟩ true)).bytes =
        buffer.bytes ++ bytes ∧
      bytes.length = 1 ∧ bytes.length = ResponseHeader.encodedLen true true ∧
      ResponseHeader.decode (bytes ++ rest) true m = (.ok ⟨status, 0⟩, rest)) ∧
    (∀ (isDefault : Bool) (input : List UInt8),
      input.length < ResponseHeader.encodedLen isDefault true →
        ∃ text, ResponseHeader.decode input isDefault m = (.error (.protocol text), input)) ∧
    (∀ input header left, ResponseHeader.decode input false m = (.ok header, left) →
      input = header.encode false ++ left) := by
  refine ⟨⟨_, rfl, rfl, rfl, fun hm => ?_, fun hm => ?_⟩,
    fun input hshort => ⟨_, RequestHeader.decode_short hshort⟩,
    fun input header left => RequestHeader.eq_append_of_decode,
    ⟨_, rfl, rfl, rfl, fun hm => ?_, fun hm => ?_⟩,
    ⟨_, rfl, rfl, rfl, rfl⟩,
    fun isDefault input hshort => ⟨_, ResponseHeader.decode_short hshort⟩,
    fun input header left => ResponseHeader.eq_append_of_decode⟩
  · rw [RequestHeader.decode_append, if_pos hm]
  · rw [RequestHeader.decode_append, if_neg (Nat.not_le.mpr hm)]
  · rw [ResponseHeader.decode_false_append, if_pos hm]
  · rw [ResponseHeader.decode_false_append, if_neg (Nat.not_le.mpr hm)]

/-! ### Status codes -/

namespace ResponseStatus

/-- `ResponseStatus::from_repr` -/
def fromRepr : UInt8 → Option ResponseStatus
  | 0 => some .unknown
  | 1 => some .ok
  | 2 => some .finish
  | 3 => some .error
  | 4 => some .databaseError
  | 5 => some .invalidCommand
  | 6 => some .invalidData
  | 7 => some .invalidDataSize
  | 8 => some .invalidDataFormat
  | 9 => some .invalidDataValue
  | 10 => some .invalidDomain
  | 11 => some .invalidRequest
  | 12 => some .invalidResponse
  | 13 => some .invalidSignature
  | _ => none

/-- `From<u8> for ResponseStatus` -/
def ofU8 (value : UInt8) : ResponseStatus := (fromRepr value).getD .unknown

/-- `From<u32> for ResponseStatus`; the cast keeps the low byte. -/
def ofU32 (status : UInt32) : ResponseStatus := (fromRepr status.toUInt8).getD .unknown

/-- `From<ResponseStatus> for u32` -/
def toU32 (status : ResponseStatus) : UInt32 := status.toU8.toUInt32

theorem fromRepr_eq_some_iff {value : UInt8} {status : ResponseStatus} :
    fromRepr value = some status ↔ status.toU8 = value := by
  constructor
  · intro h
    unfold fromRepr at h
    split at h <;> cases h <;> rfl
  · rintro rfl
    cases status <;> rfl

@[simp] theorem ofU8_toU8 (status : ResponseStatus) : ofU8 status.toU8 = status := by
  rw [ofU8, fromRepr_eq_some_iff.mpr rfl, Option.getD_some]

theorem toU8_le (status : ResponseStatus) : status.toU8.toNat ≤ 13 := by
  cases status <;> decide

/-- The codes are the numbers up to 13, without a gap. -/
theorem exists_toU8 {value : UInt8} (h : value.toNat ≤ 13) :
    ∃ status : ResponseStatus, status.toU8 = value := by
  have hall : ∀ code < 14, (fromRepr (UInt8.ofNat code)).isSome = true := by decide
  have hcode := hall value.toNat (Nat.lt_succ_of_le h)
  rw [UInt8.ofNat_toNat] at hcode
  obtain ⟨status, hstatus⟩ := Option.isSome_iff_exists.mp hcode
  exact ⟨status, fromRepr_eq_some_iff.mp hstatus⟩

/-- What is not a code is unknown. -/
theorem ofU8_of_lt {value : UInt8} (h : 13 < value.toNat) : ofU8 value = .unknown := by
  cases hstatus : fromRepr value with
  | none => rw [ofU8, hstatus, Option.getD_none]
  | some status =>
      have hle := toU8_le status
      rw [fromRepr_eq_some_iff.mp hstatus] at hle
      omega

theorem ofU8_eq_unknown_iff {value : UInt8} :
    ofU8 value = .unknown ↔ value.toNat = 0 ∨ 13 < value.toNat := by
  constructor
  · intro h
    by_cases hle : value.toNat ≤ 13
    · obtain ⟨status, rfl⟩ := exists_toU8 hle
      rw [ofU8_toU8] at h
      exact .inl (h ▸ rfl)
    · exact .inr (Nat.lt_of_not_le hle)
  · rintro (hzero | hlt)
    · rw [show value = 0 from UInt8.toNat_inj.mp hzero]
      rfl
    · exact ofU8_of_lt hlt

theorem toNat_toU32 (status : ResponseStatus) : status.toU32.toNat = status.toU8.toNat :=
  UInt8.toNat_toUInt32 _

/-- The code of a known status comes back as the low byte of the number. -/
theorem toU8_ofU32 {n : UInt32} (h : ofU32 n ≠ .unknown) :
    (ofU32 n).toU8.toNat = n.toNat % 256 := by
  have hle : n.toUInt8.toNat ≤ 13 :=
    Nat.le_of_not_lt fun hlt => h (ofU8_of_lt hlt)
  obtain ⟨status, hstatus⟩ := exists_toU8 hle
  rw [show ofU32 n = ofU8 n.toUInt8 from rfl, ← hstatus, ofU8_toU8, hstatus, UInt32.toNat_toUInt8]

/-- A number comes back from a status, or gives the unknown one, unless it is too big for a
byte and its low byte is the code of a status. -/
theorem ofU32_survives_iff (n : UInt32) :
    ((ofU32 n ≠ .unknown → (ofU32 n).toU32 = n) ∧
      ((∀ status : ResponseStatus, status.toU32 ≠ n) → ofU32 n = .unknown) ∧
      (∀ value : UInt8, value.toUInt32 = n → ofU32 n = ofU8 value)) ↔
    n.toNat < 256 ∨ n.toNat % 256 = 0 ∨ 13 < n.toNat % 256 := by
  have hunknown : ofU32 n = .unknown ↔ n.toNat % 256 = 0 ∨ 13 < n.toNat % 256 := by
    rw [← UInt32.toNat_toUInt8]
    exact ofU8_eq_unknown_iff
  constructor
  · rintro ⟨hback, -, -⟩
    by_cases h : ofU32 n = .unknown
    · exact .inr (hunknown.mp h)
    · left
      calc
        n.toNat = (ofU32 n).toU32.toNat := by rw [hback h]
        _ = (ofU32 n).toU8.toNat := toNat_toU32 _
        _ < 256 := UInt8.toNat_lt _
  · intro hn
    have hback (h : ofU32 n ≠ .unknown) : (ofU32 n).toU32 = n := by
      have hsmall : n.toNat < 256 := hn.resolve_right fun hlow => h (hunknown.mpr hlow)
      apply UInt32.toNat_inj.mp
      rw [toNat_toU32, toU8_ofU32 h, Nat.mod_eq_of_lt hsmall]
    refine ⟨hback, fun hcode => ?_, ?_⟩
    · by_contra h
      exact hcode _ (hback h)
    · rintro value rfl
      rw [ofU32, UInt8.toUInt8_toUInt32, ofU8]

/-- A number beyond a byte passes for success. -/
theorem ofU32_passes_for_ok :
    ofU32 257 = .ok ∧ (∀ status : ResponseStatus, status.toU32 ≠ 257) ∧
      ¬(ofU32 257 ≠ .unknown → (ofU32 257).toU32 = 257) := by
  refine ⟨by decide, fun status => ?_, by decide⟩
  cases status <;> decide

end ResponseStatus

end Wagonet
