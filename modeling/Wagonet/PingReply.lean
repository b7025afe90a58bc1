import Wagonet.ClientExchange

/-!
Where the reading of a ping reply ends.

A server answers a ping with one byte, or, if it is an old one, with five. The two are
told apart by a timer: if it runs out while the last four bytes are awaited, the reply
is taken for a short one, and what has come of them since or comes later stays on the
stream or is thrown away.
-/

namespace Wagonet

open Library

namespace Ping

/-- The reply of a server. -/
def shortReply : List UInt8 := [1]

/-- The reply of an old server, a whole response header. -/
def longReply : List UInt8 := [1, 0, 0, 0, 0]

variable {C : Interface} {σ : Type} {reply : List UInt8} {s s' : σ} {es : List (Net C).Event}
  {r : Except Error Unit}

/-- The reply was read up to its last byte if the function succeeds. -/
def EndsOnBoundary (reply : List UInt8) (es : List (Net C).Event) (r : Except Error Unit) : Prop :=
  r = .ok () → received es = reply

/-- The short timer has run out. -/
def OldFormatLate (es : List (Net C).Event) : Prop := ∃ e ∈ es, e.lapses .pingOldFormatRead

/-- Reading the four bytes of the size inside the short timer. -/
theorem readSize_run {o : Option (Except IoError (List UInt8))}
    (h : ((readExact 4 discard s : Task (Net C) σ _).timeout .pingOldFormatRead).Run es s' o) :
    (o = none ↔ OldFormatLate es) ∧
      (((received es).length = 4 ∧ o ≠ none) ∨
        ((received es).length < 4 ∧ ∀ bytes, o ≠ some (.ok bytes))) := by
  refine ⟨Task.lapses_of_timeout_run h, ?_⟩
  obtain ⟨-, ⟨hlen, -, rfl, -⟩ | ⟨hlen, -, hr⟩⟩ :=
    readLoop_timeout_run keepsLongest_discard (by simp) (by simp) h
  · exact .inl ⟨hlen, nofun⟩
  · exact .inr ⟨hlen, hr⟩

/-- Whatever is read of one of the two replies, in whichever pieces and at whichever
times: reading ends on the boundary of the reply, if it succeeds, exactly if the reply
is the short one or the short timer does not run out. -/
theorem reply_boundary_iff (hreply : reply = shortReply ∨ reply = longReply)
    (h : (receivePingResponseImpl s : Task (Net C) σ _).Run es s' r)
    (hreceived : received es <+: reply) :
    EndsOnBoundary reply es r ↔ reply = shortReply ∨ ¬OldFormatLate es := by
  have hheader {es₁ : List (Net C).Event} {s₁ : σ} {r₁ : Except Error (List UInt8)}
      (h₁ : (Async.within .readHeader (.timeout "Ping response header timeout")
        (fun e => if e = IoError.unexpectedEof then Error.connectionClosed else .io e)
        (readExact 1 discard) s : Task (Net C) σ _).Run es₁ s₁ r₁) : ¬OldFormatLate es₁ := by
    rintro ⟨e, he, hlapses⟩
    obtain ⟨es₃, es₄, s₂, o, rfl, h₃, h₄⟩ := Task.run_bind_iff.mp h₁
    obtain ⟨rfl, -, -⟩ := Task.run_done_iff.mp h₄
    rw [List.append_nil] at he
    exact nomatch Task.eq_of_lapses h₃ he hlapses
  rcases Async.run_bind_iff.mp h with ⟨e, rfl, h₁⟩ | ⟨es₁, es₂, s₁, statusBuf, rfl, h₁, h₂⟩
  · exact ⟨fun _ => .inr (hheader h₁), fun _ => nofun⟩
  obtain ⟨-, ⟨hlen₁, -, hstatus, -⟩ | ⟨-, -, e, hr⟩⟩ := readLoop_within_run keepsLongest_discard h₁
  case inr => cases hr
  obtain rfl : statusBuf = received es₁ := Except.ok.inj hstatus
  by_cases hone : (received es₁).headD 0 = 1
  case neg =>
    rw [if_pos hone] at h₂
    obtain ⟨rfl, -, rfl⟩ := Task.run_done_iff.mp h₂
    rw [List.append_nil]
    exact ⟨fun _ => .inr (hheader h₁), fun _ => nofun⟩
  rw [if_neg (not_not_intro hone)] at h₂
  obtain ⟨es₃, es₄, s₂, o', rfl, h₃, h₄⟩ := Task.run_bind_iff.mp h₂
  obtain ⟨es₅, es₆, s₃, o, rfl, h₅, h₆⟩ := Task.run_bind_iff.mp h₃
  obtain ⟨rfl, rfl, rfl⟩ := Task.run_done_iff.mp h₆
  obtain ⟨hnone, hcase⟩ := readSize_run h₅
  have hend : es₄ = [] := by
    match o with
    | none => exact (Task.run_done_iff.mp h₄).1
    | some (.error e) => exact (Task.run_done_iff.mp h₄).1
    | some (.ok sizeBuf) =>
        dsimp only at h₄
        split at h₄ <;> exact (Task.run_done_iff.mp h₄).1
  subst hend
  rw [List.append_nil, List.append_nil] at hreceived ⊢
  have hlate : OldFormatLate (es₁ ++ es₅) ↔ o = none := by
    rw [hnone]
    constructor
    · rintro ⟨e, he, hlapses⟩
      rcases List.mem_append.mp he with he | he
      · exact absurd ⟨e, he, hlapses⟩ (hheader h₁)
      · exact ⟨e, he, hlapses⟩
    · rintro ⟨e, he, hlapses⟩
      exact ⟨e, List.mem_append_right _ he, hlapses⟩
  have hlen : (received (es₁ ++ es₅)).length = 1 + (received es₅).length := by
    rw [received_append, List.length_append, hlen₁]
  have hle := hreceived.length_le
  -- as many bytes as the reply has are the reply
  have whole (hn : reply.length = (received (es₁ ++ es₅)).length) : received (es₁ ++ es₅) = reply :=
    hreceived.eq_of_length hn.symm
  match o with
  | none =>
      obtain ⟨-, -, rfl⟩ := Task.run_done_iff.mp h₄
      have hshort : (received es₅).length < 4 := (hcase.resolve_left fun h => h.2 rfl).1
      rw [hlate]
      constructor
      · intro hboundary
        refine .inl (hreply.resolve_right fun hlong => ?_)
        have heq := congrArg List.length (hboundary rfl)
        rw [hlong] at heq
        change _ = 5 at heq
        omega
      · rintro (rfl | hnot) -
        · refine whole ?_
          change _ ≤ 1 at hle
          change 1 = _
          omega
        · exact absurd rfl hnot
  | some (.error e) =>
      obtain ⟨-, -, rfl⟩ := Task.run_done_iff.mp h₄
      rw [hlate]
      exact ⟨fun _ => .inr nofun, fun _ => nofun⟩
  | some (.ok sizeBuf) =>
      have hfour : (received es₅).length = 4 :=
        (hcase.resolve_right fun h => h.2 _ rfl).1
      have hreplyLen : reply.length = 5 := by
        rcases hreply with rfl | rfl
        · change _ ≤ 1 at hle
          omega
        · rfl
      rw [hlate]
      exact ⟨fun _ => .inr nofun, fun _ _ => whole (by omega)⟩

/-- An old server's reply in three pieces, all of them in time. -/
def repliedInTime : List (Net Interface.empty).Event :=
  [⟨.wait [.readHeader] (.read 1), .inr (.ok ⟨[1], by decide⟩)⟩,
    ⟨.wait [.pingOldFormatRead] (.read 4), .inr (.ok ⟨[0], by decide⟩)⟩,
    ⟨.wait [.pingOldFormatRead] (.read 3), .inr (.ok ⟨[0, 0, 0], by decide⟩)⟩]

/-- The same reply, of which two bytes are late. -/
def repliedLate : List (Net Interface.empty).Event :=
  [⟨.wait [.readHeader] (.read 1), .inr (.ok ⟨[1], by decide⟩)⟩,
    ⟨.wait [.pingOldFormatRead] (.read 4), .inr (.ok ⟨[0, 0], by decide⟩)⟩,
    ⟨.wait [.pingOldFormatRead] (.read 2), .inl ⟨0, by decide⟩⟩]

theorem reply_boundary_repliedInTime :
    EndsOnBoundary longReply repliedInTime (.ok ()) ↔
      longReply = shortReply ∨ ¬OldFormatLate repliedInTime := by
  obtain ⟨s', u, hrun⟩ : ∃ s' u, (receivePingResponseImpl () :
      Task (Net Interface.empty) Unit _).Run repliedInTime s' (.ok u) :=
    Task.exists_run_ok_of_replay (by decide +kernel)
  exact reply_boundary_iff (.inr rfl) hrun (List.prefix_refl _)

/-- Two bytes of the reply are left for whoever reads next. -/
theorem reply_left_behind :
    (∃ s', (receivePingResponseImpl () : Task (Net Interface.empty) Unit _).Run repliedLate s'
      (.ok ())) ∧
      longReply = received repliedLate ++ [0, 0] ∧
        ¬EndsOnBoundary longReply repliedLate (.ok ()) := by
  obtain ⟨s', u, hrun⟩ : ∃ s' u, (receivePingResponseImpl () :
      Task (Net Interface.empty) Unit _).Run repliedLate s' (.ok u) :=
    Task.exists_run_ok_of_replay (by decide +kernel)
  exact ⟨⟨s', hrun⟩, rfl, fun h => absurd (h rfl) (by decide)⟩

end Ping

end Wagonet
