import Mathlib
import Wagonet.Error

/-!
Request and response headers and the status codes they carry.

Both headers are big-endian. A response header has two encodings: the status
byte alone, which serves as acknowledgement, and the status byte followed by
the size of the payload.
-/

namespace Wagonet

/-- `u32::to_be_bytes` -/
def toBeBytes (n : UInt32) : List UInt8 :=
  [UInt8.ofNat (n.toNat / 2 ^ 24), UInt8.ofNat (n.toNat / 2 ^ 16),
    UInt8.ofNat (n.toNat / 2 ^ 8), UInt8.ofNat n.toNat]

/-- `u32::from_be_bytes` of a slice of four bytes -/
def fromBeBytes : List UInt8 → UInt32
  | [a, b, c, d] =>
      UInt32.ofNat (a.toNat * 2 ^ 24 + b.toNat * 2 ^ 16 + c.toNat * 2 ^ 8 + d.toNat)
  | _ => 0

@[simp] theorem toBeBytes_length (n : UInt32) : (toBeBytes n).length = 4 := rfl

@[simp] theorem fromBeBytes_toBeBytes (n : UInt32) : fromBeBytes (toBeBytes n) = n := by
  apply UInt32.toNat_inj.mp
  have hn : n.toNat < 2 ^ 32 := n.toNat_lt
  simp only [toBeBytes, fromBeBytes, UInt32.toNat_ofNat', UInt8.toNat_ofNat']
  omega

/-- Four bytes are the encoding of the number that is decoded from them. -/
theorem toBeBytes_fromBeBytes (a b c d : UInt8) :
    toBeBytes (fromBeBytes [a, b, c, d]) = [a, b, c, d] := by
  have ha : a.toNat < 2 ^ 8 := a.toNat_lt
  have hb : b.toNat < 2 ^ 8 := b.toNat_lt
  have hc : c.toNat < 2 ^ 8 := c.toNat_lt
  have hd : d.toNat < 2 ^ 8 := d.toNat_lt
  simp only [toBeBytes, fromBeBytes, UInt32.toNat_ofNat', List.cons.injEq, and_true,
    ← UInt8.toNat_inj, UInt8.toNat_ofNat']
  omega

/-- The size a header declares for a payload: its length as a `u32`. -/
def declaredSize (data : List UInt8) : Nat := (UInt32.ofNat data.length).toNat

theorem declaredSize_of_lt {data : List UInt8} (h : data.length < 2 ^ 32) :
    declaredSize data = data.length := by
  rw [declaredSize, UInt32.toNat_ofNat', Nat.mod_eq_of_lt h]

/-- `Command::Ping` as a number -/
def Command.ping : UInt32 := 0

inductive ResponseStatus
  | unknown
  | ok
  | finish
  | error
  | databaseError
  | invalidCommand
  | invalidData
  | invalidDataSize
  | invalidDataFormat
  | invalidDataValue
  | invalidDomain
  | invalidRequest
  | invalidResponse
  | invalidSignature
  deriving DecidableEq, Repr

/-- `From<ResponseStatus> for u8` -/
def ResponseStatus.toU8 : ResponseStatus → UInt8
  | .unknown => 0
  | .ok => 1
  | .finish => 2
  | .error => 3
  | .databaseError => 4
  | .invalidCommand => 5
  | .invalidData => 6
  | .invalidDataSize => 7
  | .invalidDataFormat => 8
  | .invalidDataValue => 9
  | .invalidDomain => 10
  | .invalidRequest => 11
  | .invalidResponse => 12
  | .invalidSignature => 13

theorem ResponseStatus.toU8_eq_one_iff {status : ResponseStatus} :
    status.toU8 = 1 ↔ status = .ok := by
  cases status <;> decide

structure RequestHeader where
  command : UInt32
  dataSize : UInt32
  deriving DecidableEq

namespace RequestHeader

def encodedLen : Nat := 8

/-- The bytes `encode` appends to the buffer. -/
def encode (h : RequestHeader) : List UInt8 := toBeBytes h.command ++ toBeBytes h.dataSize

/-- Decode a header from a slice: the header or the error, and where the slice
starts afterwards. -/
def decode (buf : List UInt8) (maxDataSize : Nat) : Except Error RequestHeader × List UInt8 :=
  if buf.length < encodedLen then
    (.error (.protocol "Not enough bytes to decode RequestHeader"), buf)
  else
    let command := fromBeBytes (buf.take 4)
    let dataSize := fromBeBytes ((buf.drop 4).take 4)
    if dataSize.toNat > maxDataSize then
      (.error (.bufferOverflow dataSize.toNat maxDataSize), buf)
    else
      (.ok ⟨command, dataSize⟩, buf.drop encodedLen)

@[simp] theorem encode_length (h : RequestHeader) : h.encode.length = encodedLen := rfl

/-- Any eight bytes are a header. -/
theorem exists_encode {bytes : List UInt8} (h : bytes.length = encodedLen) :
    ∃ header : RequestHeader, bytes = header.encode := by
  match bytes, h with
  | [a, b, c, d, a', b', c', d'], _ =>
      refine ⟨⟨fromBeBytes [a, b, c, d], fromBeBytes [a', b', c', d']⟩, ?_⟩
      rw [encode, toBeBytes_fromBeBytes, toBeBytes_fromBeBytes]
      rfl

/-- Headers with the same bytes are the same. -/
theorem encode_inj {h h' : RequestHeader} (heq : h.encode = h'.encode) : h = h' := by
  obtain ⟨hcommand, hsize⟩ := List.append_inj heq rfl
  have hc := congrArg fromBeBytes hcommand
  have hd := congrArg fromBeBytes hsize
  simp only [fromBeBytes_toBeBytes] at hc hd
  obtain ⟨command, dataSize⟩ := h
  obtain ⟨command', dataSize'⟩ := h'
  cases hc
  cases hd
  rfl

/-- Decoding what was encoded gives the header back, if its size is within the limit. -/
theorem decode_encode (h : RequestHeader) (m : Nat) :
    decode h.encode m =
      if h.dataSize.toNat > m then (.error (.bufferOverflow h.dataSize.toNat m), h.encode)
      else (.ok h, []) := by
  have hc : fromBeBytes (h.encode.take 4) = h.command := fromBeBytes_toBeBytes h.command
  have hd : fromBeBytes ((h.encode.drop 4).take 4) = h.dataSize := fromBeBytes_toBeBytes h.dataSize
  simp only [decode, encode_length, Nat.lt_irrefl, if_false, hc, hd]
  rfl

end RequestHeader

structure ResponseHeader where
  status : UInt8
  dataSize : UInt32
  deriving DecidableEq

namespace ResponseHeader

def defaultResponseHeaderSize : Nat := 1

def responseHeaderSize : Nat := 5

def encodedLen (isDefault commandHasAnswer : Bool) : Nat :=
  if isDefault then defaultResponseHeaderSize
  else if commandHasAnswer then responseHeaderSize
  else defaultResponseHeaderSize

/-- The bytes `encode` appends to the buffer. -/
def encode (h : ResponseHeader) (isDefault : Bool) : List UInt8 :=
  h.status :: if isDefault then [] else toBeBytes h.dataSize

/-- Decode a header from a slice: the header or the error, and where the slice
starts afterwards. -/
def decode (buf : List UInt8) (isDefault : Bool) (maxDataSize : Nat) :
    Except Error ResponseHeader × List UInt8 :=
  match buf with
  | [] => (.error (.protocol "Not enough bytes to decode ResponseHeader"), buf)
  | status :: _ =>
      if isDefault then
        (.ok ⟨status, 0⟩, buf.drop defaultResponseHeaderSize)
      else if buf.length < responseHeaderSize then
        (.error (.protocol "Not enough bytes to decode ResponseHeader"), buf)
      else
        let dataSize := fromBeBytes ((buf.drop 1).take 4)
        if dataSize.toNat > maxDataSize then
          (.error (.bufferOverflow dataSize.toNat maxDataSize), buf)
        else
          (.ok ⟨status, dataSize⟩, buf.drop responseHeaderSize)

@[simp] theorem encode_true (h : ResponseHeader) : h.encode true = [h.status] := rfl

@[simp] theorem encode_false_length (h : ResponseHeader) :
    (h.encode false).length = responseHeaderSize := rfl

@[simp] theorem decode_true_singleton (status : UInt8) (m : Nat) :
    decode [status] true m = (.ok ⟨status, 0⟩, []) := rfl

theorem decode_encode (h : ResponseHeader) (m : Nat) :
    decode (h.encode false) false m =
      if h.dataSize.toNat > m then
        (.error (.bufferOverflow h.dataSize.toNat m), h.encode false)
      else (.ok h, []) := by
  have hd : fromBeBytes (((h.encode false).drop 1).take 4) = h.dataSize :=
    fromBeBytes_toBeBytes h.dataSize
  obtain ⟨status, dataSize⟩ := h
  simp only [encode, Bool.false_eq_true, if_false] at hd ⊢
  simp only [decode, Bool.false_eq_true, if_false, hd, List.length_cons, toBeBytes_length,
    responseHeaderSize, Nat.lt_irrefl]
  rfl

end ResponseHeader

end Wagonet
