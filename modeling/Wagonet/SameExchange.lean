import Wagonet.ExchangeRuns
import Wagonet.Library.Alike

/-!
The exchange of `ClientTLS` beside that of `ClientTL`.

Both write and read the same bytes, keep the same buffer and return the same payload
or both an error. The errors are never the same: those of `ClientTLS` are boxed when
they leave the exchange.
-/

namespace Wagonet

open Library

/-- An error that is not boxed. -/
def Error.Plain (e : Error) : Prop := ∀ inner, e ≠ .other inner

theorem ResponseHeader.decode_plain {buf : List UInt8} {isDefault : Bool} {m : Nat} {e : Error}
    (h : (ResponseHeader.decode buf isDefault m).1 = .error e) : e.Plain := by
  unfold ResponseHeader.decode at h
  split at h
  · cases h
    nofun
  · split at h
    · cases h
    · split at h
      · cases h
        nofun
      · dsimp only at h
        split at h
        · cases h
          nofun
        · cases h

/-- The errors of two exchanges are related one by one. -/
structure ExchangeErrors.Alike {ε ε' : Type} (R : ε → ε' → Prop) (E : ExchangeErrors ε)
    (E' : ExchangeErrors ε') : Prop where
  io : ∀ e, R (E.io e) (E'.io e)
  crate : ∀ e, e.Plain → R (E.crate e) (E'.crate e)
  sendingRequestHeader : R E.sendingRequestHeader E'.sendingRequestHeader
  sendingResponseHeader : R E.sendingResponseHeader E'.sendingResponseHeader
  waitingForResponseHeader : R E.waitingForResponseHeader E'.waitingForResponseHeader
  sendingMessage : R E.sendingMessage E'.sendingMessage
  waitingForMessage : R E.waitingForMessage E'.waitingForMessage
  rejected : ∀ status, R (E.rejected status) (E'.rejected status)
  notOk : ∀ status, R (E.notOk status) (E'.notOk status)
  overflow : ∀ expected limit, R (E.overflow expected limit) (E'.overflow expected limit)

namespace ClientExchange

variable {C : Interface} {ε ε' : Type} {R : ε → ε' → Prop} {E : ExchangeErrors ε}
  {E' : ExchangeErrors ε'}

/-- What is the same in both clients. -/
theorem within_alike {T : Timer} {elapsed : ε} {elapsed' : ε'} {α : Type}
    {m : Async (Net C) ByteVec IoError α} (hE : E.Alike R E') (h : R elapsed elapsed') :
    (Async.within T elapsed E.io m).Alike R (Async.within T elapsed' E'.io m) := by
  refine (Async.Alike.refl (fun _ => rfl) m).within (Q := Eq) h ?_
  rintro e _ rfl
  exact hE.io e

theorem flush_alike (hE : E.Alike R E') :
    (Async.mapError E.io flush : Async (Net C) ByteVec ε Unit).Alike R
      (Async.mapError E'.io flush) := by
  refine (Async.Alike.refl (fun _ => rfl) flush).mapError (Q := Eq) ?_
  rintro e _ rfl
  exact hE.io e

theorem sendRequestHeaderLocked_alike {command dataSize : UInt32} (hE : E.Alike R E') :
    (sendRequestHeaderLocked E command dataSize : Async (Net C) ByteVec ε Unit).Alike R
      (sendRequestHeaderLocked E' command dataSize) := by
  refine .bind (.modify _) fun _ => .bind (.modify _) fun _ => .bind .get fun buffer => ?_
  refine .bind (within_alike hE hE.sendingRequestHeader) fun _ => ?_
  exact .bind (flush_alike hE) fun _ => .modify _

theorem sendResponseHeaderLocked_alike {status : UInt8} {dataSize : UInt32}
    (hE : E.Alike R E') :
    (sendResponseHeaderLocked E status dataSize : Async (Net C) ByteVec ε Unit).Alike R
      (sendResponseHeaderLocked E' status dataSize) := by
  refine .bind (.modify _) fun _ => .bind (.modify _) fun _ => .bind .get fun buffer => ?_
  refine .bind (within_alike hE hE.sendingResponseHeader) fun _ => ?_
  exact .bind (flush_alike hE) fun _ => .modify _

theorem receiveResponseHeaderLocked_alike {isDefault commandHasAnswer : Bool} {m : Nat}
    (hE : E.Alike R E') :
    (receiveResponseHeaderLocked E isDefault commandHasAnswer m :
      Async (Net C) ByteVec ε ResponseHeader).Alike R
      (receiveResponseHeaderLocked E' isDefault commandHasAnswer m) := by
  refine .bind (.modify _) fun _ => ?_
  refine .bind (within_alike hE hE.waitingForResponseHeader) fun _ => .bind .get fun buffer => ?_
  refine .bind (.ofExcept ?_) fun header => .bind (.modify _) fun _ => .pure _
  cases hdecode : (ResponseHeader.decode buffer.bytes (isDefault || !commandHasAnswer) m).1 with
  | ok header => exact .ok header
  | error e => exact .error (hE.crate e (ResponseHeader.decode_plain hdecode))

theorem sendMessageLocked_alike {command : UInt32} {data : List UInt8} {commandHasAnswer : Bool}
    {m : Nat} (hE : E.Alike R E') :
    (sendMessageLocked E command data commandHasAnswer m : Async (Net C) ByteVec ε Unit).Alike R
      (sendMessageLocked E' command data commandHasAnswer m) := by
  refine .bind (sendRequestHeaderLocked_alike hE) fun _ => ?_
  refine .bind (receiveResponseHeaderLocked_alike hE) fun ackHeader => ?_
  split
  · exact .fail (hE.rejected _)
  · refine .bind (within_alike hE hE.sendingMessage) fun _ => ?_
    exact .bind (flush_alike hE) fun _ => .modify _

theorem receiveMessageLocked_alike {commandHasAnswer : Bool} {m : Nat} (hE : E.Alike R E') :
    (receiveMessageLocked E commandHasAnswer m : Async (Net C) ByteVec ε (List UInt8)).Alike R
      (receiveMessageLocked E' commandHasAnswer m) := by
  have hdata : ∀ n, (readExactOrClosed n fill : Async (Net C) ByteVec Error _).Alike
      (fun e e' => e' = e ∧ e.Plain) (readExactOrClosed n fill) := by
    refine fun n => Async.Alike.readLoop (fun k => ⟨rfl, ?_⟩) fun e => ⟨rfl, nofun⟩
    split
    · nofun
    · nofun
  refine .bind (receiveResponseHeaderLocked_alike hE) fun resHeader => ?_
  refine .bind (sendResponseHeaderLocked_alike hE) fun _ => ?_
  split
  · exact .fail (hE.notOk _)
  split
  · exact .fail (hE.overflow _ _)
  split
  · exact .bind (.modify _) fun _ => .pure _
  · refine .bind (.modify _) fun _ => ?_
    refine .bind ((hdata _).within hE.waitingForMessage ?_) fun _ => .bind .get fun _ => .pure _
    rintro e _ ⟨rfl, he⟩
    exact hE.crate _ he

theorem exchange_alike {command : UInt32} {data : List UInt8} {commandHasAnswer : Bool} {m : Nat}
    (hE : E.Alike R E') :
    (exchange E command data commandHasAnswer m : Async (Net C) ByteVec ε (List UInt8)).Alike R
      (exchange E' command data commandHasAnswer m) :=
  .bind (sendMessageLocked_alike hE) fun _ => receiveMessageLocked_alike hE

end ClientExchange

/-- The errors of `ClientTL` are plain, whatever `ClientTLS` has in their place. -/
theorem errors_alike :
    ClientTL.errors.Alike (fun (e : Error) (_ : Boxed Error) => e.Plain) ClientTLS.errors := by
  constructor
  · exact fun e => nofun
  · exact fun e he => he
  · nofun
  · nofun
  · nofun
  · nofun
  · nofun
  · exact fun status => nofun
  · exact fun status => nofun
  · exact fun expected limit => nofun

section

variable {C : Interface} {command : UInt32} {data : List UInt8} {commandHasAnswer : Bool} {m : Nat}
  {buffer : ByteVec} {es : List (Net C).Event}

/-- The exchanges of both clients are the same, but for their errors. -/
theorem ClientTL.exchange_alike :
    (ClientTL.exchange command data commandHasAnswer m :
      Async (Net C) ByteVec Error (List UInt8)).Alike
      (fun e e' => e.Plain ∧ ∃ inner, e' = .other inner)
      (ClientTLS.exchange command data commandHasAnswer m) :=
  (ClientExchange.exchange_alike errors_alike).mapError_right fun _ inner he => ⟨he, inner, rfl⟩

/-- Both exchanges have the same runs, with the same bytes sent and received, and keep the
same buffer; they return the same payload, or both an error. They return the same if and
only if no operation fails and the peer accepts the request and answers it. -/
theorem exchanges_agree_iff :
    ((∃ buffer' r, (ClientTL.exchange command data commandHasAnswer m buffer :
        Task (Net C) _ _).Run es buffer' r) ↔
      ∃ buffer' r, (ClientTLS.exchange command data commandHasAnswer m buffer :
        Task (Net C) _ _).Run es buffer' r) ∧
    ∀ buffer' r buffer'' r',
      (ClientTL.exchange command data commandHasAnswer m buffer :
        Task (Net C) _ _).Run es buffer' r →
      (ClientTLS.exchange command data commandHasAnswer m buffer :
        Task (Net C) _ _).Run es buffer'' r' →
      buffer'' = buffer' ∧ r'.toOption = r.toOption ∧
        (r' = r ↔ anyFailed es = false ∧
          ∃ payload, ClientExchange.Answered commandHasAnswer m (received es) payload) := by
  have halike := @ClientTL.exchange_alike C command data commandHasAnswer m buffer
  refine ⟨⟨?_, ?_⟩, ?_⟩
  · rintro ⟨buffer', r, h⟩
    obtain ⟨r', h', -⟩ := halike.run h
    exact ⟨buffer', r', h'⟩
  · rintro ⟨buffer', r, h⟩
    obtain ⟨r', h', -⟩ := halike.symm.run h
    exact ⟨buffer', r', h'⟩
  · intro buffer' r buffer'' r' h h'
    obtain ⟨r₁, h₁, hr⟩ := halike.run h
    obtain ⟨rfl, rfl⟩ := h₁.unique h'
    obtain ⟨-, -, hcase⟩ := ClientExchange.exchange_run h
    refine ⟨rfl, ?_, ?_⟩
    · cases hr with
      | ok payload => rfl
      | error he => rfl
    · rcases hcase with ⟨hok, -, payload, rfl, hanswered⟩ | ⟨hwhy, e, rfl⟩
      · cases hr
        exact ⟨fun _ => ⟨hok, payload, hanswered⟩, fun _ => rfl⟩
      · cases hr with
        | error he =>
            obtain ⟨hplain, inner, rfl⟩ := he
            constructor
            · intro heq
              exact absurd (Except.error.inj heq).symm (hplain inner)
            · rintro ⟨hok, payload, hanswered⟩
              rcases hwhy with hbad | hno
              · rw [hok] at hbad
                cases hbad
              · exact absurd hanswered (hno payload)

/-- The server accepts a request and announces two bytes, of which it sends one. -/
def closedMidFrame : List (Net Interface.empty).Event :=
  [⟨.wait [.write] (.write [0, 0, 0, 7, 0, 0, 0, 0]), .inr (.ok ⟨8, by decide⟩)⟩,
    ⟨.wait [] .flush, .inr (.ok ())⟩,
    ⟨.wait [.readHeader] (.read 1), .inr (.ok ⟨[1], Nat.le.refl⟩)⟩,
    ⟨.wait [] .flush, .inr (.ok ())⟩,
    ⟨.wait [.readHeader] (.read 5), .inr (.ok ⟨[1, 0, 0, 0, 2], by decide⟩)⟩,
    ⟨.wait [.write] (.write [1]), .inr (.ok ⟨1, Nat.le.refl⟩)⟩,
    ⟨.wait [] .flush, .inr (.ok ())⟩,
    ⟨.wait [.readData] (.read 2), .inr (.ok ⟨[9], by decide⟩)⟩,
    ⟨.wait [.readData] (.read 1), .inr (.ok ⟨[], by decide⟩)⟩]

/-- A connection that was closed in the middle of a frame is a disconnect for one client
and not for the other. -/
theorem closedMidFrame_disagrees :
    ¬∀ (C : Interface) (command : UInt32) (data : List UInt8) (commandHasAnswer : Bool) (m : Nat)
      (buffer buffer' : ByteVec) (es : List (Net C).Event) (e : Error),
      (ClientTL.exchange command data commandHasAnswer m buffer : Task (Net C) _ _).Run es buffer'
        (.error e) →
      ∃ e', (ClientTLS.exchange command data commandHasAnswer m buffer :
        Task (Net C) _ _).Run es buffer' (.error e') ∧ e'.isDisconnect = e.isDisconnect := by
  intro h
  obtain ⟨⟨buffer', r⟩, hreplay, hr⟩ := Option.map_eq_some_iff.mp
    (show ((ClientTL.exchange 7 [] true 16 (.withCapacity 16) :
        Task (Net Interface.empty) _ _).replay closedMidFrame).map
      (fun p => Except.casesOn p.2 Error.isDisconnect fun _ => false) = some true by decide +kernel)
  cases r with
  | ok response => cases hr
  | error e =>
      have hrun := Task.run_of_replay hreplay
      obtain ⟨r', hrun', halike⟩ := ClientTL.exchange_alike _ |>.run hrun
      obtain ⟨e', hrun'', hsame⟩ := h _ 7 [] true 16 _ buffer' closedMidFrame e hrun
      obtain ⟨-, heq⟩ := hrun'.unique hrun''
      subst heq
      cases halike with
      | error he =>
          obtain ⟨-, inner, rfl⟩ := he
          rw [show e.isDisconnect = true from hr] at hsame
          cases hsame

end

end Wagonet
