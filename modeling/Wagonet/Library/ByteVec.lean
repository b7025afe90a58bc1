import Mathlib

/-!
A growable byte buffer with its capacity.

Growing beyond the capacity reallocates; the capacity after that is only
known to suffice, and the smallest sufficient one stands for it here. `asked`
tells of the past: it is the greatest length that was asked for since room was
made last, and nothing depends on it.
-/

namespace Wagonet.Library

structure ByteVec where
  bytes : List UInt8
  capacity : Nat
  asked : Nat
  fits : bytes.length ≤ capacity

namespace ByteVec

@[ext] theorem ext {v w : ByteVec} (hb : v.bytes = w.bytes) (hc : v.capacity = w.capacity)
    (ha : v.asked = w.asked) : v = w := by
  cases v
  cases w
  cases hb
  cases hc
  cases ha
  rfl

def withCapacity (n : Nat) : ByteVec := ⟨[], n, 0, Nat.zero_le n⟩

def clear (v : ByteVec) : ByteVec := ⟨[], v.capacity, v.asked, Nat.zero_le _⟩

/-- Make room for `additional` more bytes. -/
def reserve (v : ByteVec) (additional : Nat) : ByteVec :=
  ⟨v.bytes, max v.capacity (v.bytes.length + additional), 0,
    Nat.le_trans v.fits (Nat.le_max_left _ _)⟩

/-- `Vec::try_reserve`: a reservation that is not granted changes nothing. -/
def tryReserve (v : ByteVec) (additional : Nat) (granted : Bool) : Bool × ByteVec :=
  if granted then (true, v.reserve additional) else (false, v)

/-- Replace the contents, growing the allocation if it is too small. -/
def store (v : ByteVec) (bytes : List UInt8) : ByteVec :=
  ⟨bytes, max v.capacity bytes.length, max v.asked bytes.length, Nat.le_max_right _ _⟩

/-- Cut to `n` bytes or fill up with zeros. -/
def resize (v : ByteVec) (n : Nat) : ByteVec :=
  v.store (v.bytes.take n ++ List.replicate (n - v.bytes.length) 0)

def extend (v : ByteVec) (bytes : List UInt8) : ByteVec := v.store (v.bytes ++ bytes)

/-- Overwrite the beginning of the contents; the length stays. -/
def overwrite (v : ByteVec) (start : List UInt8) : ByteVec :=
  ⟨(start ++ v.bytes.drop start.length).take v.bytes.length, v.capacity, v.asked,
    Nat.le_trans (List.length_take_le _ _) v.fits⟩

@[simp] theorem clear_bytes (v : ByteVec) : v.clear.bytes = [] := rfl

@[simp] theorem extend_bytes (v : ByteVec) (bytes : List UInt8) :
    (v.extend bytes).bytes = v.bytes ++ bytes := rfl

theorem resize_bytes (v : ByteVec) (n : Nat) :
    (v.resize n).bytes = v.bytes.take n ++ List.replicate (n - v.bytes.length) 0 := rfl

@[simp] theorem resize_length (v : ByteVec) (n : Nat) : (v.resize n).bytes.length = n := by
  simp only [resize_bytes, List.length_append, List.length_take, List.length_replicate]
  omega

/-- Resizing twice to one length is resizing once. -/
theorem resize_resize (v : ByteVec) (n : Nat) : (v.resize n).resize n = v.resize n := by
  have hlen : (v.resize n).bytes.length = n := resize_length v n
  have hb : ((v.resize n).resize n).bytes = (v.resize n).bytes := by
    rw [resize_bytes (v.resize n), hlen, Nat.sub_self, List.replicate_zero, List.append_nil]
    exact List.take_of_length_le (Nat.le_of_eq hlen)
  refine ByteVec.ext hb ?_ ?_
  · change max (v.resize n).capacity ((v.resize n).resize n).bytes.length = (v.resize n).capacity
    rw [hb]
    exact Nat.max_eq_left (v.resize n).fits
  · change max (v.resize n).asked ((v.resize n).resize n).bytes.length = (v.resize n).asked
    rw [hb]
    exact Nat.max_eq_left (Nat.le_max_right _ _)

theorem overwrite_bytes (v : ByteVec) (start : List UInt8) :
    (v.overwrite start).bytes = (start ++ v.bytes.drop start.length).take v.bytes.length := rfl

/-- Overwriting everything. -/
theorem overwrite_all {v : ByteVec} {bytes : List UInt8} (h : bytes.length = v.bytes.length) :
    (v.overwrite bytes).bytes = bytes := by
  rw [overwrite_bytes, h, List.drop_length, List.append_nil, ← h, List.take_length]

/-- A longer beginning replaces a shorter one. -/
theorem overwrite_overwrite {v : ByteVec} {a b : List UInt8} (h : a.length ≤ b.length) :
    (v.overwrite a).overwrite b = v.overwrite b := by
  refine ByteVec.ext ?_ rfl rfl
  have hlen : (v.overwrite a).bytes.length = v.bytes.length := by
    simp only [overwrite_bytes, List.length_take, List.length_append, List.length_drop]
    omega
  rw [overwrite_bytes, hlen, overwrite_bytes, overwrite_bytes]
  refine List.ext_getElem? fun i => ?_
  simp only [List.getElem?_take, List.getElem?_append, List.getElem?_drop]
  grind

/-! ### Staying within the capacity -/

/-- A buffer of this capacity that was never asked for more than `n` bytes. -/
structure Within (cap n : Nat) (v : ByteVec) : Prop where
  capacity : v.capacity = cap
  asked : v.asked ≤ n

namespace Within

variable {cap n : Nat} {v : ByteVec}

theorem clear (h : v.Within cap n) : v.clear.Within cap n := ⟨h.capacity, h.asked⟩

theorem overwrite (h : v.Within cap n) (start : List UInt8) : (v.overwrite start).Within cap n :=
  ⟨h.capacity, h.asked⟩

/-- What fits is stored without a new allocation. -/
theorem store (h : v.Within cap n) (hn : n ≤ cap) {bytes : List UInt8} (hlen : bytes.length ≤ n) :
    (v.store bytes).Within cap n := by
  have hfits : bytes.length ≤ v.capacity := h.capacity ▸ Nat.le_trans hlen hn
  exact ⟨(Nat.max_eq_left hfits).trans h.capacity, Nat.max_le.mpr ⟨h.asked, hlen⟩⟩

theorem resize (h : v.Within cap n) (hn : n ≤ cap) {k : Nat} (hk : k ≤ n) :
    (v.resize k).Within cap n := by
  refine h.store hn ?_
  have hlen : (v.resize k).bytes.length = k := resize_length v k
  rwa [← resize_bytes, hlen]

/-- A frame is written into an empty buffer. -/
theorem clear_extend (h : v.Within cap n) (hn : n ≤ cap) {bytes : List UInt8}
    (hlen : bytes.length ≤ n) : (v.clear.extend bytes).Within cap n := h.clear.store hn hlen

end Within

end ByteVec

end Wagonet.Library
