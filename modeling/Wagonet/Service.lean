import Wagonet.CallLog
import Wagonet.TurnReplies
import Wagonet.WireFormat

/-!
What a server is for: a function of the bytes of its client.

From the bytes that a client has sent so far, `serve` tells which requests its command
handler is given and what is written back to it. It knows of no chunks, no timers and no
buffers, and more bytes never take back what was made of the first ones.
-/

namespace Wagonet

open Library

/-- What is made of the bytes of a client. -/
structure Service where
  handled : List Request
  written : List UInt8

namespace Service

/-- Nothing is handled, and nothing written. -/
def idle : Service := ⟨[], []⟩

/-- These requests and these bytes come before the rest. -/
def after (handled : List Request) (written : List UInt8) (rest : Service) : Service :=
  ⟨handled ++ rest.handled, written ++ rest.written⟩

/-- As far as something was done, the same was done. -/
instance : Preorder Service where
  le s t := s.handled <+: t.handled ∧ s.written <+: t.written
  le_refl _ := ⟨List.prefix_rfl, List.prefix_rfl⟩
  le_trans _ _ _ h h' := ⟨h.1.trans h'.1, h.2.trans h'.2⟩

variable {handled handled' : List Request} {written written' : List UInt8} {s t : Service}

theorem idle_le : idle ≤ s := ⟨List.nil_prefix, List.nil_prefix⟩

theorem after_after : after handled written (after handled' written' s) =
    after (handled ++ handled') (written ++ written') s := by
  simp only [after, List.append_assoc]

theorem after_le_after (h : s ≤ t) : after handled written s ≤ after handled written t :=
  ⟨(List.prefix_append_right_inj _).mpr h.1, (List.prefix_append_right_inj _).mpr h.2⟩

end Service

/-- Whether the connection is kept after this result and the client's answer to its
header. -/
def CommandResult.goesOn (ack : UInt8) : CommandResult → Bool
  | .ok (status, _) => status ≠ .finish ∧ ack = 1
  | .error _ => true

/-- The service that a client gets for its bytes. -/
def serve (m : Nat) (handler : CommandHandler) (bytes : List UInt8) : Service :=
  match _hdecode : RequestHeader.decode bytes m with
  | (.error _, _) => .idle
  | (.ok header, rest) =>
      if header.command = Command.ping then
        if header.dataSize = 0 then (serve m handler rest).after [] [1] else ⟨[], [7]⟩
      else if rest.length < header.dataSize.toNat then ⟨[], [1]⟩
      else
        let request := (header.command, rest.take header.dataSize.toNat)
        let result := handler [request]
        match _hack : rest.drop header.dataSize.toNat with
        | [] => ⟨[request], 1 :: Turn.response none [result]⟩
        | ack :: more =>
            (if result.goesOn ack then serve m (fun later => handler (request :: later)) more
              else .idle).after [request] (1 :: Turn.response (some ack) [result])
termination_by bytes.length
decreasing_by
  · rw [RequestHeader.eq_append_of_decode _hdecode]
    simp [RequestHeader.encodedLen]
  · have hlen := congrArg List.length _hack
    rw [RequestHeader.eq_append_of_decode _hdecode]
    simp only [List.length_drop, List.length_cons, List.length_append] at hlen ⊢
    omega

section

variable {m : Nat} {handler : CommandHandler} {header : RequestHeader}
  {bytes bytes' data rest more : List UInt8} {ack : UInt8}

theorem serve_short (h : bytes.length < RequestHeader.encodedLen) :
    serve m handler bytes = .idle := by
  rw [serve, RequestHeader.decode_short h]

@[simp] theorem serve_nil : serve m handler [] = .idle := serve_short (by decide)

theorem serve_ping : serve m handler (RequestHeader.encode ⟨Command.ping, 0⟩ ++ rest) =
    (serve m handler rest).after [] [1] := by
  have hm : (RequestHeader.mk Command.ping 0).dataSize.toNat ≤ m := Nat.zero_le m
  rw [serve, RequestHeader.decode_append, if_pos hm]
  simp

/-- A header that is refused is the last one. -/
theorem serve_refused (h : ¬Turn.Accepts m header) (hping : header ≠ ⟨Command.ping, 0⟩) :
    serve m handler (header.encode ++ rest) = ⟨[], Turn.status m header⟩ := by
  rw [serve, RequestHeader.decode_append, Turn.status]
  rcases Nat.lt_or_ge m header.dataSize.toNat with hlarge | hm
  · rw [if_neg (Nat.not_le.mpr hlarge), if_pos hlarge]
    rfl
  rw [if_pos hm, if_neg (Nat.not_lt.mpr hm)]
  have hcommand : header.command = Command.ping := by
    by_contra hne
    exact h ⟨hne, hm⟩
  have hsize : header.dataSize ≠ 0 := by
    intro hsize
    obtain ⟨command, dataSize⟩ := header
    cases hcommand
    cases hsize
    exact hping rfl
  have hnat : header.dataSize.toNat ≠ 0 := fun hzero => hsize (UInt32.toNat_inj.mp hzero)
  simp [hcommand, hsize, hnat]

/-- A payload that is not complete is waited for. -/
theorem serve_cut (h : Turn.Accepts m header) (hcut : rest.length < header.dataSize.toNat) :
    serve m handler (header.encode ++ rest) = ⟨[], [1]⟩ := by
  rw [serve, RequestHeader.decode_append, if_pos h.2]
  simp [h.1, hcut]

/-- A request is handled and answered with a header. -/
theorem serve_request (h : Turn.Accepts m header) (hdata : data.length = header.dataSize.toNat) :
    serve m handler (header.encode ++ data) =
      ⟨[(header.command, data)],
        1 :: Turn.response none [handler [(header.command, data)]]⟩ := by
  have hfull : ¬data.length < header.dataSize.toNat := by omega
  have htake : data.take header.dataSize.toNat = data := List.take_of_length_le (by omega)
  have hdrop : data.drop header.dataSize.toNat = [] := List.drop_eq_nil_of_le (by omega)
  rw [serve, RequestHeader.decode_append, if_pos h.2]
  simp only [h.1, hfull, if_false, htake]
  rw [hdrop]

/-- Its payload follows once the client has answered, and then the next request. -/
theorem serve_answered (h : Turn.Accepts m header) (hdata : data.length = header.dataSize.toNat) :
    serve m handler (header.encode ++ (data ++ ack :: more)) =
      (if (handler [(header.command, data)]).goesOn ack then
          serve m (fun later => handler ((header.command, data) :: later)) more
        else .idle).after [(header.command, data)]
        (1 :: Turn.response (some ack) [handler [(header.command, data)]]) := by
  have hfull : ¬(data ++ ack :: more).length < header.dataSize.toNat := by
    rw [List.length_append]
    omega
  have htake : (data ++ ack :: more).take header.dataSize.toNat = data := List.take_left' hdata
  have hdrop : (data ++ ack :: more).drop header.dataSize.toNat = ack :: more :=
    List.drop_left' hdata
  rw [serve, RequestHeader.decode_append, if_pos h.2]
  simp only [h.1, hfull, if_false, htake]
  rw [hdrop]

/-! ### More bytes -/

/-- The bytes are not yet a header, or they begin with one. -/
theorem short_or_header (bytes : List UInt8) :
    bytes.length < RequestHeader.encodedLen ∨
      ∃ (header : RequestHeader) (rest : List UInt8), bytes = header.encode ++ rest := by
  rcases Nat.lt_or_ge bytes.length RequestHeader.encodedLen with hshort | hlen
  · exact .inl hshort
  have htake : (bytes.take RequestHeader.encodedLen).length = RequestHeader.encodedLen := by
    rw [List.length_take]
    omega
  obtain ⟨header, hheader⟩ := RequestHeader.exists_encode htake
  refine .inr ⟨header, bytes.drop RequestHeader.encodedLen, ?_⟩
  rw [← hheader, List.take_append_drop]

/-- Before a payload, or they contain it. -/
theorem short_or_payload (n : Nat) (bytes : List UInt8) :
    bytes.length < n ∨ ∃ data rest, bytes = data ++ rest ∧ data.length = n := by
  rcases Nat.lt_or_ge bytes.length n with hshort | hlen
  · exact .inl hshort
  · exact .inr ⟨bytes.take n, bytes.drop n, (List.take_append_drop n bytes).symm,
      List.length_take_of_le hlen⟩

theorem response_none_prefix {ack : Option UInt8} {result : CommandResult} :
    Turn.response none [result] <+: Turn.response ack [result] := by
  rw [Turn.response, Turn.response, if_neg (by simp), List.append_nil]
  exact List.prefix_append _ _

/-- The response begins as soon as the payload is there. -/
theorem le_serve_request (h : Turn.Accepts m header)
    (hdata : data.length = header.dataSize.toNat) :
    ⟨[(header.command, data)],
        1 :: Turn.response none [handler [(header.command, data)]]⟩ ≤
      serve m handler (header.encode ++ (data ++ rest)) := by
  cases rest with
  | nil => rw [List.append_nil, serve_request h hdata]
  | cons ack more =>
      rw [serve_answered h hdata]
      refine ⟨List.prefix_append _ _, List.IsPrefix.trans ?_ (List.prefix_append _ _)⟩
      exact List.cons_prefix_cons.mpr ⟨rfl, response_none_prefix⟩

/-- A header that is accepted is answered. -/
theorem le_serve_accepted (h : Turn.Accepts m header) :
    ⟨[], [1]⟩ ≤ serve m handler (header.encode ++ rest) := by
  rcases short_or_payload header.dataSize.toNat rest with hcut | ⟨data, rest, rfl, hdata⟩
  · rw [serve_cut h hcut]
  · refine le_trans ⟨List.nil_prefix, ?_⟩ (le_serve_request h hdata)
    exact List.cons_prefix_cons.mpr ⟨rfl, List.nil_prefix⟩

/-- What was made of the first bytes stays. -/
theorem serve_le_serve_append :
    serve m handler bytes ≤ serve m handler (bytes ++ more) := by
  induction hn : bytes.length using Nat.strong_induction_on generalizing handler bytes with
  | _ n ih =>
      rcases short_or_header bytes with hshort | ⟨header, rest, rfl⟩
      · rw [serve_short hshort]
        exact Service.idle_le
      rw [List.append_assoc]
      rw [List.length_append] at hn
      by_cases hping : header = ⟨Command.ping, 0⟩
      · subst hping
        rw [serve_ping, serve_ping]
        have hlen : rest.length < n := by
          simp only [RequestHeader.encode_length, RequestHeader.encodedLen] at hn
          omega
        exact Service.after_le_after (ih rest.length hlen rfl)
      by_cases h : Turn.Accepts m header
      case neg => rw [serve_refused h hping, serve_refused h hping]
      rcases short_or_payload header.dataSize.toNat rest with hcut | ⟨data, rest, rfl, hdata⟩
      · rw [serve_cut h hcut]
        exact le_serve_accepted h
      rw [List.append_assoc]
      cases rest with
      | nil =>
          rw [List.append_nil, serve_request h hdata]
          exact le_serve_request h hdata
      | cons ack later =>
          rw [List.cons_append, serve_answered h hdata, serve_answered h hdata]
          refine Service.after_le_after ?_
          split
          · have hlen : later.length < n := by
              simp only [List.length_append, List.length_cons] at hn
              omega
            exact ih later.length hlen rfl
          · exact le_refl _

end

end Wagonet
