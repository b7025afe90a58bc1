import Wagonet.ExchangeRuns
import Wagonet.Library.Operations

/-!
The acknowledgement of a response header.

The server waits for it whatever it has announced, so the client sends it before it
looks at the status. But the size is looked at earlier, when the header is decoded: a
response that is too large is left without an answer.
-/

namespace Wagonet

open Library

/-- The operation sends something. -/
def writes : StreamOp → Prop
  | .read _ => False
  | _ => True

variable {C : Interface}

/-- Something that was to be sent could not be. -/
def WriteFails (es : List (Net C).Event) : Prop :=
  ∃ e ∈ es, TimedOp.Among writes (fun _ => False) e.op ∧ e.failed = true

theorem writeFails_append {es es' : List (Net C).Event} :
    WriteFails (es ++ es') ↔ WriteFails es ∨ WriteFails es' := by
  simp only [WriteFails, List.mem_append, or_and_right, exists_or]

/-- Among writes, whatever fails is a write. -/
theorem writeFails_of_among {es : List (Net C).Event}
    (h : ∀ e ∈ es, TimedOp.Among writes (fun _ => False) e.op) (hbad : anyFailed es = true) :
    WriteFails es := by
  obtain ⟨e, he, hfailed⟩ := List.any_eq_true.mp hbad
  exact ⟨e, he, h e he, hfailed⟩

theorem among_writeLoop {σ ε : Type} {fuel : Nat} {io : IoError → ε} {bytes : List UInt8} :
    (writeLoop io fuel bytes : Async (Net C) σ ε Unit).Among writes (fun _ => False) := by
  induction fuel generalizing bytes with
  | zero => exact Async.uses_pure _
  | succ fuel ih =>
      unfold writeLoop
      split
      · exact Async.uses_pure _
      · refine Async.Uses.bind (Async.among_wait trivial) fun r => ?_
        cases r with
        | error e => exact Async.uses_fail _
        | ok n =>
            dsimp only
            split
            · exact Async.uses_fail _
            · exact ih

theorem among_flush {σ : Type} :
    (flush : Async (Net C) σ IoError Unit).Among writes (fun _ => False) := by
  refine Async.Uses.bind (Async.among_wait trivial) fun r => ?_
  match r with
  | .error e => exact Async.uses_fail _
  | .ok () => exact Async.uses_pure _

namespace ClientExchange

variable {ε : Type} {E : ExchangeErrors ε} {buffer buffer' : ByteVec} {es : List (Net C).Event}
  {commandHasAnswer : Bool} {m : Nat}

theorem among_sendResponseHeaderLocked {status : UInt8} {dataSize : UInt32} :
    (sendResponseHeaderLocked E status dataSize : Async (Net C) ByteVec ε Unit).Among writes
      (fun _ => False) := by
  refine (Async.uses_modify _).bind fun _ => (Async.uses_modify _).bind fun _ =>
    Async.uses_get.bind fun _ => (Async.among_within among_writeLoop).bind fun _ =>
      Async.Uses.bind (fun s => (among_flush s).bind fun _ _ => trivial) fun _ =>
        Async.uses_modify _

/-- A response header that is not returned: it was not read to its end, or it announces
more than the limit. -/
theorem receiveResponseHeaderLocked_error {isDefault : Bool} {e : ε}
    (h : (receiveResponseHeaderLocked E isDefault commandHasAnswer m buffer :
      Task (Net C) _ _).Run es buffer' (.error e)) :
    sent es = [] ∧
      ((received es).length < ResponseHeader.encodedLen isDefault commandHasAnswer ∨
        ∃ header : ResponseHeader,
          received es = header.encode (isDefault || !commandHasAnswer) ∧
            ((isDefault || !commandHasAnswer) = true → header.dataSize = 0) ∧
              m < header.dataSize.toNat) := by
  obtain ⟨hsent, ⟨header, hheader, hd, -, hr⟩ | ⟨hbad, -⟩⟩ := receiveResponseHeaderLocked_run h
  · refine ⟨hsent, .inr ⟨header, hheader, hd, ?_⟩⟩
    by_contra hfits
    rw [if_neg hfits] at hr
    cases hr
  · refine ⟨hsent, .inl ?_⟩
    rw [receiveResponseHeaderLocked, Async.modify_bind_apply] at h
    rcases Async.run_bind_iff.mp h with ⟨e', -, h₁⟩ | ⟨es₁, es₂, s₁, u, rfl, h₁, h₂⟩
    · obtain ⟨-, ⟨-, -, hr, -⟩ | ⟨hlen, -, -⟩⟩ := readLoop_within_run keepsLongest_fill h₁
      · cases hr
      · exact hlen
    · -- nothing fails after the bytes were read
      obtain ⟨-, ⟨-, hok, -, -⟩ | ⟨-, -, e', hr⟩⟩ := readLoop_within_run keepsLongest_fill h₁
      · have hquiet : es₂ = [] := by
          rw [Async.get_bind_apply] at h₂
          cases hd : (ResponseHeader.decode s₁.bytes (isDefault || !commandHasAnswer)
              m).1.mapError E.crate with
          | error e' =>
              rw [hd] at h₂
              exact (Task.run_done_iff.mp h₂).1
          | ok header =>
              rw [hd] at h₂
              exact (Task.run_done_iff.mp h₂).1
        rw [hquiet, List.append_nil, hok] at hbad
        cases hbad
      · cases hr

/-- Once a response header was read, and if the writes do not fail, it is acknowledged if
and only if the size it announces is within the limit; its status makes no difference. -/
theorem acknowledged_iff {r : Except ε (List UInt8)} {header : ResponseHeader}
    (h : (receiveMessageLocked E commandHasAnswer m buffer : Task (Net C) _ _).Run es buffer' r)
    (hd : commandHasAnswer = false → header.dataSize = 0)
    (hread : header.encode (!commandHasAnswer) <+: received es) (hwrites : ¬WriteFails es) :
    sent es = [1] ↔ header.dataSize.toNat ≤ m := by
  have hd' : (false || !commandHasAnswer) = true → header.dataSize = 0 :=
    fun hno => hd (by simpa using hno)
  obtain ⟨rest, hrest⟩ := hread
  obtain ⟨⟨left, hleft⟩, -⟩ := receiveMessageLocked_run h
  rcases Async.run_bind_iff.mp h with ⟨e, rfl, h₁⟩ | ⟨es₁, es₂, s₁, header', rfl, h₁, h₂⟩
  · obtain ⟨hsent, hshort | ⟨header', hheader, hd₁, hover⟩⟩ := receiveResponseHeaderLocked_error h₁
    · have hlen : (header.encode (!commandHasAnswer)).length =
          ResponseHeader.encodedLen false commandHasAnswer := by cases commandHasAnswer <;> rfl
      rw [← hrest, List.length_append, hlen] at hshort
      omega
    · rw [hheader, ← List.append_nil (header'.encode _)] at hrest
      obtain ⟨rfl, -⟩ := ResponseHeader.encode_append_inj hd' hd₁ hrest
      rw [hsent]
      exact ⟨nofun, fun hfits => absurd hover (Nat.not_lt.mpr hfits)⟩
  obtain ⟨hsent₁, ⟨header₁, hheader, hd₁, -, hr⟩ | ⟨-, e, hr⟩⟩ := receiveResponseHeaderLocked_run h₁
  case inr => cases hr
  rw [received_append, hheader] at hrest
  obtain ⟨rfl, -⟩ := ResponseHeader.encode_append_inj hd' hd₁ hrest
  have hfits : header.dataSize.toNat ≤ m := by
    by_contra hover
    rw [if_pos (Nat.lt_of_not_le hover)] at hr
    cases hr
  refine ⟨fun _ => hfits, fun _ => ?_⟩
  rcases Async.run_bind_iff.mp h₂ with ⟨e, rfl, h₃⟩ | ⟨es₃, es₄, s₂, u, rfl, h₃, h₄⟩
  · have hamong := (among_sendResponseHeaderLocked s₁).run h₃
    simp only [sendResponseHeaderLocked, Async.modify_bind_apply, Async.get_bind_apply] at h₃
    obtain ⟨-, -, ⟨-, -, hr₃⟩ | ⟨hbad, -⟩⟩ := sendFrame_run h₃
    · cases hr₃
    · exact absurd (writeFails_append.mpr (.inr (writeFails_of_among hamong hbad))) hwrites
  · simp only [sendResponseHeaderLocked, Async.modify_bind_apply, Async.get_bind_apply] at h₃
    obtain ⟨-, -, ⟨hsent₃, -, -⟩ | ⟨-, e, hr₃⟩⟩ := sendFrame_run h₃
    · replace hsent₃ : sent es₃ = [1] := hsent₃
      -- no more than the acknowledgement is ever sent
      simp only [sent_append, hsent₁, hsent₃, List.nil_append, List.cons_append, List.cons.injEq,
        true_and] at hleft ⊢
      exact (List.append_eq_nil_iff.mp hleft.symm).1
    · cases hr₃

end ClientExchange

/-- A refusal with two bytes of payload, within the limit. -/
def refusalEvents : List (Net Interface.empty).Event :=
  [⟨.wait [.readHeader] (.read 5), .inr (.ok ⟨[3, 0, 0, 0, 2], by decide⟩)⟩,
    ⟨.wait [.write] (.write [1]), .inr (.ok ⟨1, by decide⟩)⟩,
    ⟨.wait [] .flush, .inr (.ok ())⟩]

/-- A response of 17 bytes, of which the header was read. -/
def oversizedEvents : List (Net Interface.empty).Event :=
  [⟨.wait [.readHeader] (.read 5), .inr (.ok ⟨[1, 0, 0, 0, 17], by decide⟩)⟩]

theorem acknowledged_iff_refusal :
    sent refusalEvents = [1] ↔ (⟨3, 2⟩ : ResponseHeader).dataSize.toNat ≤ 16 := by
  obtain ⟨buffer', r, hrun⟩ : ∃ buffer' r,
      (ClientExchange.receiveMessageLocked ClientTL.errors true 16 (.withCapacity 16) :
        Task (Net Interface.empty) _ _).Run refusalEvents buffer' r :=
    Task.exists_run_of_replay (by decide +kernel)
  refine ClientExchange.acknowledged_iff hrun nofun ⟨[], rfl⟩ ?_
  rintro ⟨e, he, -, hfailed⟩
  have hok : anyFailed refusalEvents = false := rfl
  exact absurd (List.any_eq_true.mpr ⟨e, he, hfailed⟩) (by rw [anyFailed] at hok; simp [hok])

/-- The header of a response that is too large is read, nothing fails, and no
acknowledgement is sent. -/
theorem oversized_unacknowledged :
    (∃ buffer' r, (ClientExchange.receiveMessageLocked ClientTL.errors true 16 (.withCapacity 16) :
        Task (Net Interface.empty) _ _).Run oversizedEvents buffer' r) ∧
      ResponseHeader.encode ⟨1, 17⟩ false <+: received oversizedEvents ∧
        anyFailed oversizedEvents = false ∧ sent oversizedEvents = [] :=
  ⟨Task.exists_run_of_replay (by decide +kernel), ⟨[], rfl⟩, rfl, rfl⟩

end Wagonet
