import Wagonet.Acknowledged
import Wagonet.Library.Suspended
import Wagonet.ServedExchanges
import Wagonet.Service
import Wagonet.ServerSystem

/-!
The cycles of a server as a function of the bytes of its client.

A cycle that goes on to another one has served the bytes that it has received; the last
one may be anywhere, and it has served no more than that. While it waits for a byte it has
served all of them. The connections of a server are served so side by side.
-/

namespace Wagonet

open Library

/-! ### Waiting for a byte -/

namespace FramedServer

variable {C : Interface} {s s' : FramedServer} {es : List (Net C).Event} {ts : List Timer}
  {room : Nat}

theorem among_sendResponseHeader {status : UInt8} {dataSize : UInt32} {isDefault : Bool}
    {timer : Timer} : (sendResponseHeader status dataSize isDefault timer :
      Async (Net C) FramedServer Error Unit).Among writes (fun _ => False) := by
  refine (Async.uses_modify _).bind fun _ => (Async.uses_modify _).bind fun _ =>
    Async.uses_get.bind fun _ => (Async.among_within among_writeLoop).bind fun _ =>
      (Async.among_mapError among_flush).bind fun _ => Async.uses_modify _

/-- A program that only writes is not suspended at a read. -/
theorem not_suspended {α : Type} {t : Task (Net C) FramedServer α}
    {k : (Net C).Reply (.wait ts (.read room)) → Task (Net C) FramedServer α}
    (ht : t.Among writes (fun _ => False))
    (h : t.Partial es (.await s' (.wait ts (.read room)) k)) : False := (ht.begun h).2.1

theorem readCommand_suspended
    {k : (Net C).Reply (.wait ts (.read room)) → Task (Net C) FramedServer _}
    (h : (readCommand s : Task (Net C) _ _).Partial es (.await s' (.wait ts (.read room)) k)) :
    sent es = [] ∧ (received es).length < RequestHeader.encodedLen := by
  rw [readCommand, Async.modify_bind_apply] at h
  rcases Async.partial_bind_await h with ⟨k', h⟩ | ⟨es₁, es₂, s₁, u, rfl, -, h⟩
  · exact readLoop_within_suspended h
  refine (not_suspended ?_ h).elim
  refine Async.uses_get.bind (fun s => ?_) s₁
  refine (Async.uses_ofExcept _).bind fun header => (Async.uses_modify _).bind fun _ => ?_
  dsimp only
  split
  · split
    · exact among_sendResponseHeader.bind fun _ => Async.uses_fail _
    · exact among_sendResponseHeader.bind fun _ => Async.uses_pure _
  · split
    · exact among_sendResponseHeader.bind fun _ => Async.uses_fail _
    · exact among_sendResponseHeader.bind fun _ => Async.uses_pure _

theorem receiveData_suspended {n : Nat}
    {k : (Net C).Reply (.wait ts (.read room)) → Task (Net C) FramedServer _}
    (h : (receiveData n s : Task (Net C) _ _).Partial es (.await s' (.wait ts (.read room)) k)) :
    sent es = [] ∧ (received es).length < n := by
  rw [receiveData, Async.get_bind_apply] at h
  split at h
  · obtain ⟨-, hdone⟩ := Task.partial_done h
    cases hdone
  rw [Async.modify_bind_apply] at h
  rcases Async.partial_bind_await h with ⟨k', h⟩ | ⟨es₁, es₂, s₁, u, rfl, -, h⟩
  · exact readLoop_within_suspended h
  · obtain ⟨-, hdone⟩ := Task.partial_done h
    cases hdone

theorem receiveResponseHeader_suspended
    {k : (Net C).Reply (.wait ts (.read room)) → Task (Net C) FramedServer _}
    (h : (receiveResponseHeader true s : Task (Net C) _ _).Partial es
      (.await s' (.wait ts (.read room)) k)) : sent es = [] ∧ received es = [] := by
  simp only [receiveResponseHeader, Async.modify_bind_apply] at h
  rcases Async.partial_bind_await h with ⟨k', h⟩ | ⟨es₁, es₂, s₁, u, rfl, -, h⟩
  · obtain ⟨hsent, hlen⟩ := readLoop_within_suspended h
    exact ⟨hsent, List.eq_nil_of_length_eq_zero (Nat.lt_one_iff.mp hlen)⟩
  · refine (not_suspended ?_ h).elim
    exact Async.uses_get.bind (fun s => (Async.uses_ofExcept _).bind fun header =>
      (Async.uses_modify _).bind fun _ => Async.uses_pure _) s₁

/-- A response waits for nothing but the client's answer to its header. -/
theorem sendData_suspended {status : UInt8} {buf : List UInt8}
    {k : (Net C).Reply (.wait ts (.read room)) → Task (Net C) FramedServer _}
    (h : (sendData status (some buf) s : Task (Net C) _ _).Partial es
      (.await s' (.wait ts (.read room)) k)) :
    sent es = ResponseHeader.encode ⟨status, dataSizeOf (some buf)⟩ false ∧ received es = [] := by
  simp only [sendData, Option.isNone_some] at h
  rcases Async.partial_bind_await h with ⟨k', h⟩ | ⟨es₁, es₂, s₁, u, rfl, h₁, h⟩
  · exact (not_suspended (among_sendResponseHeader s) h).elim
  have hrec := (sendResponseHeader_run h₁).1
  have hsent := (sendResponseHeader_wrote h₁).2 rfl
  rcases Async.partial_bind_await h with ⟨k', h⟩ | ⟨es₃, es₄, s₂, header, rfl, -, h⟩
  · obtain ⟨hsent₂, hrec₂⟩ := receiveResponseHeader_suspended h
    exact ⟨by simp [hsent, hsent₂], by simp [hrec, hrec₂]⟩
  · refine (not_suspended ?_ h).elim
    split
    · trivial
    · exact (Async.among_within among_writeLoop).bind (fun _ =>
        (Async.among_mapError among_flush).bind fun _ => Async.uses_modify _) s₂

end FramedServer

/-! ### One cycle -/

/-- What these operations have made of the bytes that were received. -/
def service (es : List (Net Handler).Event) : Service := ⟨entered es, sent es⟩

/-- If the command handler has failed, the transport has not: its error was exchanged. -/
def Settled (es : List (Net Handler).Event) : Prop :=
  ∀ result ∈ results es, result.isOk = true ∨ anyFailed es = false

instance : DecidablePred Settled := fun es =>
  inferInstanceAs (Decidable (∀ result ∈ results es, result.isOk = true ∨ anyFailed es = false))

theorem not_mem_of_quiet {es : List (Net Handler).Event} {result : CommandResult}
    (h : Quiet es) : ⟨.call .leave, result⟩ ∉ es := by
  intro hmem
  have hresult : result ∈ results es := List.mem_filterMap.mpr ⟨_, hmem, rfl⟩
  rw [h.2] at hresult
  cases hresult

namespace ProtocolHandler

variable {s s' : FramedServer} {es : List (Net Handler).Event} {handler : CommandHandler}

/-- The response to a request that has failed, if the transport has not. -/
theorem exchanged_of_settled {before rest : List (Net Handler).Event} {command : UInt32}
    {data : List UInt8} {e : Error} {r : Except Error Bool} (h : (handleNext s).Run es s' r)
    (hsettled : Settled es) (hbefore : Quiet before) (hrest : Quiet rest)
    (hes : es = before ++ ⟨.call (.enter command data), ()⟩ :: ⟨.call .leave, .error e⟩ :: rest) :
    ∃ ack, received rest = [ack] ∧ sent rest = Turn.response (some ack) [.error e] := by
  have hresult : .error e ∈ results es := by
    rw [hes, results_append]
    exact List.mem_append_right _ List.mem_cons_self
  have hentered : entered es ≠ [] := by
    rw [hes, entered_append]
    exact List.append_ne_nil_of_right_ne_nil _ (List.cons_ne_nil _ _)
  have hgood : anyFailed es = false := (hsettled _ hresult).resolve_left (by rintro ⟨⟩)
  rcases handleNext_run h with hnone | hbad | ⟨before', after, command', data', result, ack, hes',
    hack, hsent⟩
  · exact absurd hnone hentered
  · rw [hgood] at hbad
    cases hbad
  -- the command handler has returned once
  have hsplit :
      (before ++ [⟨.call (.enter command data), ()⟩]) ++ ⟨.call .leave, .error e⟩ :: rest =
        (before' ++ [⟨.call (.enter command' data'), ()⟩]) ++ ⟨.call .leave, result⟩ :: after := by
    rw [List.append_assoc, List.append_assoc]
    exact hes.symm.trans hes'
  have hnotin : (⟨.call .leave, result⟩ : (Net Handler).Event) ∉
      before ++ [⟨.call (.enter command data), ()⟩] := by
    rw [List.mem_append, not_or]
    exact ⟨not_mem_of_quiet hbefore, by simp⟩
  obtain ⟨-, hevent, rfl⟩ :=
    (List.append_cons_inj_of_notMem hnotin (not_mem_of_quiet hrest)).mp hsplit
  obtain rfl : .error e = result := by
    cases hevent
    rfl
  refine ⟨ack, hack, hsent.trans ?_⟩
  simp [Turn.response, responseHeader]

/-- A cycle that goes on has served its bytes, whatever follows them. -/
theorem serve_of_run (h : (handleNext s).Run es s' (.ok true)) (hsettled : Settled es)
    (hfaithful : ConnectionHandler.Faithful handler es) (bytes : List UInt8) :
    serve s.maxBufferSize handler (received es ++ bytes) =
      (serve s.maxBufferSize (fun later => handler (entered es ++ later)) bytes).after
        (entered es) (sent es) := by
  rcases handleNext_shape h with
    ⟨hquiet, turn, ⟨-, hconsumed, -⟩, -, hping⟩ | ⟨header, data, before, rest, result, ack, hes,
      hvalid, hbefore, hread, hsent, hrest, hack, -, hdone⟩
  · obtain ⟨rfl, hone⟩ := hping rfl
    rw [hquiet.1, hone, hconsumed]
    exact serve_ping
  have hresult : result = handler [(header.command, data)] := by
    have hhandler := hfaithful (before ++ [⟨.call (.enter header.command data), ()⟩]) result rest
      (by rw [hes, List.append_assoc]; rfl)
    rw [entered_append, hbefore.1] at hhandler
    exact hhandler
  -- the client has answered, and the connection is kept
  obtain ⟨status, rfl, hwrote, hgoes⟩ : ∃ status, ack = some status ∧
      sent rest = Turn.response (some status) [result] ∧ result.goesOn status = true := by
    cases result with
    | error e =>
        obtain ⟨status, hstatus, hwrote⟩ := exchanged_of_settled h hsettled hbefore hrest hes
        cases ack with
        | none => cases hack.symm.trans hstatus
        | some ack =>
            obtain rfl : ack = status := List.singleton_inj.mp (hack.symm.trans hstatus)
            exact ⟨ack, rfl, hwrote, rfl⟩
    | ok reply =>
        rcases hdone rfl with ⟨hwrote, rfl⟩ | ⟨e, he⟩
        case inr => cases he
        refine ⟨1, rfl, hwrote, ?_⟩
        obtain ⟨status, response⟩ := reply
        have hfinish : status ≠ .finish := by
          rintro rfl
          obtain ⟨-, -, -, hstops, -⟩ := handleNext_cut h
          refine hstops response ?_ rfl
          rw [hes]
          simp
        simp [CommandResult.goesOn, hfinish]
  obtain ⟨-, -, hall⟩ := served_of_request hvalid hbefore hread hsent hrest hack
    (hwrote ▸ List.prefix_rfl) hes
  have hentered : entered es = [(header.command, data)] := by
    rw [hes, entered_append, hbefore.1]
    exact congrArg ((header.command, data) :: ·) hrest.1
  have hreceived : received es ++ bytes = header.encode ++ (data ++ status :: bytes) := by
    rw [hes, received_append, hread, received_cons, received_cons, hack]
    simp
  rw [hreceived, serve_answered hvalid.1 hvalid.2, ← hresult, if_pos hgoes, hentered, hall, hwrote]
  rfl

/-- What a turn is answered with is what its bytes are served with. -/
theorem replies_le_serve {turn : Turn} (hserved : turn.Served s.maxBufferSize es)
    (hfaithful : ConnectionHandler.Faithful handler es) :
    ⟨turn.calls, turn.replies s.maxBufferSize (results es)⟩ ≤
      serve s.maxBufferSize handler turn.consumed := by
  obtain ⟨⟨hvalid, -, hcalled⟩, -, hanswers⟩ := hserved
  have hping : serve s.maxBufferSize handler (RequestHeader.encode ⟨Command.ping, 0⟩) =
      ⟨[], [1]⟩ := by
    rw [← List.append_nil (RequestHeader.encode _), serve_ping, serve_nil]
    rfl
  cases turn with
  | cutHeader bytes => exact Service.idle_le
  | ping => exact le_of_eq hping.symm
  | refused header =>
      simp only [Turn.consumed, Turn.frames, List.flatten_singleton]
      by_cases hheader : header = ⟨Command.ping, 0⟩
      · subst hheader
        rw [hping, Turn.replies, Turn.status_ping]
        exact le_refl _
      · rw [← List.append_nil header.encode, serve_refused hvalid hheader]
        exact le_refl _
  | cutPayload header bytes =>
      simp only [Turn.consumed, Turn.frames, List.flatten_cons]
      exact le_serve_accepted hvalid.1
  | request header data ack =>
      have hresponse : Turn.response ack (results es) <+:
          Turn.response ack [handler [(header.command, data)]] := by
        cases hresults : results es with
        | nil => exact List.nil_prefix
        | cons result later =>
            obtain ⟨before, after, hes, hentered⟩ := hanswers result (by simp [hresults])
            have hresult := hfaithful before result after hes
            rw [hentered, hcalled] at hresult
            rw [hresult]
            exact List.prefix_rfl
      simp only [Turn.consumed, Turn.frames, List.flatten_cons, List.flatten_nil, List.append_nil]
      rw [Turn.replies, Turn.calls]
      cases ack with
      | none =>
          rw [Option.toList_none, List.append_nil, serve_request hvalid.1 hvalid.2]
          exact ⟨List.prefix_rfl, List.cons_prefix_cons.mpr ⟨rfl, hresponse⟩⟩
      | some ack =>
          rw [Option.toList_some, serve_answered hvalid.1 hvalid.2]
          refine ⟨List.prefix_append _ _, List.IsPrefix.trans ?_ (List.prefix_append _ _)⟩
          exact List.cons_prefix_cons.mpr ⟨rfl, hresponse⟩

/-- Wherever a cycle is, it has served no more than the bytes it has received. -/
theorem service_le_of_begun {t : Task (Net Handler) FramedServer (Except Error Bool)}
    (h : (handleNext s).Partial es t) (hfaithful : ConnectionHandler.Faithful handler es) :
    service es ≤ serve s.maxBufferSize handler (received es) := by
  obtain ⟨turn, hserved⟩ := served_of_partial h
  have hle := replies_le_serve hserved hfaithful
  rw [service, hserved.consumed, hserved.called]
  exact ⟨hle.1, hserved.wrote.trans hle.2⟩

/-- While it waits for a byte it has served all of them. -/
theorem service_eq_of_suspended {ts : List Timer} {room : Nat}
    {k : (Net Handler).Reply (.wait ts (.read room)) → Task (Net Handler) FramedServer _}
    (h : (handleNext s).Partial es (.await s' (.wait ts (.read room)) k))
    (hfaithful : ConnectionHandler.Faithful handler es) :
    service es = serve s.maxBufferSize handler (received es) := by
  have awaited {α : Type} {t t' : Task (Net Handler) FramedServer α}
      {es : List (Net Handler).Event} (ht : t.Uses Async.Awaits) (h : t.Partial es t') :
      entered es = [] := entered_of_awaits (ht.begun h).1
  rcases Async.partial_bind_await h with ⟨k', h⟩ | ⟨es₁, es₂, s₁, command, rfl, h₁, h⟩
  · obtain ⟨hsent, hshort⟩ := FramedServer.readCommand_suspended h
    rw [serve_short hshort, service, hsent, awaited (FramedServer.awaits_readCommand s) h]
    rfl
  obtain ⟨hentered₁, -⟩ := Quiet.of_awaits ((FramedServer.awaits_readCommand s).run h₁)
  have hmax : s₁.maxBufferSize = s.maxBufferSize :=
    (FramedServer.keeps_readCommand (m := s.maxBufferSize) s rfl).of_run h₁
  obtain ⟨-, hwrote⟩ := FramedServer.readCommand_wrote h₁
  rcases FramedServer.readCommand_cut h₁ with
    ⟨-, e, hr⟩ | ⟨header, hheader, ⟨-, e, hr⟩ | ⟨hping, hr⟩ | ⟨haccepts, ⟨e, hr⟩ | hr⟩⟩
  · cases hr
  · cases hr
  · cases hr
    obtain ⟨-, hdone⟩ := Task.partial_done h
    cases hdone
  · cases hr
  cases hr
  have hsent₁ : sent es₁ = [1] := by
    rw [(hwrote header hheader).2 _ rfl, Turn.status_of_accepts haccepts]
  rcases Async.partial_bind_await h with ⟨k', h⟩ | ⟨es₃, es₄, s₂, data, rfl, h₃, h⟩
  · obtain ⟨hsent, hshort⟩ := FramedServer.receiveData_suspended h
    rw [received_append, hheader, serve_cut haccepts hshort, service, sent_append, hsent₁, hsent,
      entered_append, hentered₁, awaited (FramedServer.awaits_receiveData s₁) h]
    rfl
  obtain ⟨hentered₃, -⟩ := Quiet.of_awaits ((FramedServer.awaits_receiveData s₁).run h₃)
  rcases FramedServer.receiveData_cut (hmax ▸ haccepts.2) h₃ with ⟨hlen, hr⟩ | ⟨-, e, hr⟩
  case inr => cases hr
  cases hr
  rcases Async.partial_bind_await h with ⟨k', h⟩ | ⟨es₅, es₆, s₃, result, rfl, h₅, h₆⟩
  · have hcalls : (runCommand header.command (received es₃)).Among (fun _ => False)
        (fun _ => True) := (Async.among_call trivial).bind fun _ => Async.among_call trivial
    exact ((hcalls s₂).begun h).2.1.elim
  obtain ⟨_, rfl, hr⟩ := runCommand_run h₅
  cases hr
  obtain ⟨k', hsend⟩ : ∃ k', (FramedServer.sendData (responseOf result).1
      (some (responseOf result).2) s₃).Partial es₆ (.await s' (.wait ts (.read room)) k') := by
    cases result with
    | ok reply =>
        rcases Async.partial_bind_await h₆ with hsend | ⟨es₇, es₈, s₄, u, rfl, -, h₈⟩
        · exact hsend
        · exfalso
          split at h₈
          all_goals
            obtain ⟨-, hdone⟩ := Task.partial_done h₈
            cases hdone
    | error e =>
        rcases Async.partial_bind_await h₆ with ⟨k', h₇⟩ | ⟨es₇, es₈, s₄, u, rfl, -, h₈⟩
        · rcases Task.partial_bind_await h₇ with hsend | ⟨es₇, es₈, s₄, r, rfl, -, h₈⟩
          · exact hsend
          · obtain ⟨-, hdone⟩ := Task.partial_done h₈
            cases hdone
        · obtain ⟨-, hdone⟩ := Task.partial_done h₈
          cases hdone
  obtain ⟨hsent, hrec⟩ := FramedServer.sendData_suspended hsend
  have hquiet := awaited (FramedServer.awaits_sendData s₃) hsend
  -- the response to the request has begun
  have hresult : result = handler [(header.command, received es₃)] := by
    have hreturned := hfaithful
      (es₁ ++ (es₃ ++ [⟨.call (.enter header.command (received es₃)), ()⟩])) result es₆ (by simp)
    simp only [entered_append, hentered₁, hentered₃] at hreturned
    exact hreturned
  have hentered : entered ([⟨.call (.enter header.command (received es₃)), ()⟩,
      ⟨.call .leave, result⟩] ++ es₆) = [(header.command, received es₃)] := by
    rw [entered_append, hquiet]
    rfl
  have hwritten : sent ([⟨.call (.enter header.command (received es₃)), ()⟩,
      ⟨.call .leave, result⟩] ++ es₆) = Turn.response none [result] := by
    simp [hsent, Turn.response, responseHeader]
  have hread : received ([⟨.call (.enter header.command (received es₃)), ()⟩,
      ⟨.call .leave, result⟩] ++ es₆) = [] := by simp [hrec]
  simp only [service, entered_append es₁, entered_append es₃, sent_append es₁, sent_append es₃,
    received_append es₁, received_append es₃, hentered₁, hentered₃, hentered, hsent₁,
    FramedServer.receiveData_wrote h₃, hwritten, hheader, hread, List.nil_append, List.append_nil]
  rw [serve_request haccepts hlen, ← hresult]
  rfl

end ProtocolHandler

/-! ### The whole stream -/

theorem service_append {es es' : List (Net Handler).Event} :
    service (es ++ es') = (service es').after (entered es) (sent es) := by
  rw [service, entered_append, sent_append]
  rfl

namespace ConnectionHandler

variable {m : Nat} {handler : CommandHandler} {es : List (Net Handler).Event}

/-- The cycles that went on have served their bytes. -/
theorem Chain.serve (h : Chain Settled m es) (hfaithful : Faithful handler es)
    (bytes : List UInt8) :
    serve m handler (received es ++ bytes) =
      (serve m (fun later => handler (entered es ++ later)) bytes).after (entered es)
        (sent es) := by
  induction h generalizing handler with
  | nil => rfl
  | next hs hrun hsettled _ ih =>
      subst hs
      rw [received_append, List.append_assoc,
        ProtocolHandler.serve_of_run hrun hsettled hfaithful.head, ih hfaithful.tail,
        Service.after_after, entered_append, sent_append]
      simp only [List.append_assoc]

theorem Loop.service_le (h : Loop Settled m es) (hfaithful : Faithful handler es) :
    service es ≤ serve m handler (received es) := by
  obtain ⟨past, last, s, t, rfl, hchain, rfl, ht⟩ := h.split
  rw [received_append, hchain.serve hfaithful.head, service_append]
  exact Service.after_le_after (ProtocolHandler.service_le_of_begun ht hfaithful.tail)

variable {maxBufferSize : Nat} {c₀ c : ConnectionHandler} {acts : List Act}

/-- The task waits for a byte of its client. -/
def Waits (c : ConnectionHandler) : Prop :=
  ∃ s ts room k, c.phase = .serving (.await s (.wait ts (.read room)) k)

/-- The shutdown channel is used for a shutdown, and if the command handler has failed, the
cycle goes on with its error exchanged. -/
def Orderly (c : ConnectionHandler) (a : Act) : Prop := Heeds c a ∧ Passes Settled c a

instance (c : ConnectionHandler) : ∀ a, Decidable (Passes Settled c a)
  | .turn => inferInstanceAs (Decidable (Settled c.current))
  | .deliver _ | .close | .notify _ | .dropSenders | .tlsAccepted _ | .setUp _ | .progress _
  | .elapse _ | .wake | .borrow | .abort => .isTrue trivial

instance (c : ConnectionHandler) (a : Act) : Decidable (Orderly c a) :=
  inferInstanceAs (Decidable (_ ∧ _))

/-- What the command handler was given and what was written. -/
def served (c : ConnectionHandler) : Service := ⟨c.handled, c.written⟩

/-- The bytes that the client has sent so far: those that were read and those that wait. -/
def stream (c : ConnectionHandler) : List UInt8 := received c.events ++ c.inbox.bytes

theorem stream_of_run (hfresh : Fresh c₀)
    (hr : (machine handler maxBufferSize).run c₀ acts = some c) : c.stream = delivered acts := by
  have hbytes := received_run hr
  rwa [events_of_fresh hfresh, hfresh.2.1] at hbytes

/-- A connection serves the bytes that its client has sent. -/
theorem served_of_reachable (h : (machine handler maxBufferSize).Reachable Orderly c) :
    c.served ≤ serve (sizeLimit maxBufferSize) handler c.stream ∧
      (c.Waits → c.inbox.bytes = [] →
        c.served = serve (sizeLimit maxBufferSize) handler c.stream) := by
  obtain ⟨hcycling, hfaithful⟩ := cycling_of_reachable h fun _ _ hact => hact
  refine ⟨?_, ?_⟩
  · exact le_trans (hcycling.loop.service_le hfaithful) serve_le_serve_append
  rintro ⟨s, ts, room, k, hphase⟩ hinbox
  rw [Cycling, hphase] at hcycling
  obtain ⟨hchain, s₀, hs, ht⟩ := hcycling
  rw [events_eq] at hfaithful
  have hlast := ProtocolHandler.service_eq_of_suspended ht hfaithful.tail
  rw [stream, hinbox, List.append_nil, events_eq, received_append, hchain.serve hfaithful.head,
    ← hs, ← hlast, ← service_append]
  rfl

/-- However the bytes of a client arrive and wherever its connection has come to, the server
has handled a beginning of the requests and written a beginning of the replies that belong
to these bytes; and all of them when it waits for more. -/
theorem serves_stream (hfresh : Fresh c₀)
    (horderly : (machine handler maxBufferSize).Along Orderly c₀ acts)
    (hr : (machine handler maxBufferSize).run c₀ acts = some c) :
    c.served ≤ serve (sizeLimit maxBufferSize) handler (delivered acts) ∧
      (c.Waits → c.inbox.bytes = [] →
        c.served = serve (sizeLimit maxBufferSize) handler (delivered acts)) := by
  rw [← stream_of_run hfresh hr]
  exact served_of_reachable (horderly.reachable (.init hfresh) hr)

theorem serves_stream_pingThenRequest :
    ∃ c, (machine echo 16).run accepted pingThenRequest = some c ∧ c.handled = [(1, [7, 9])] ∧
      c.served ≤ serve 16 echo (delivered pingThenRequest) := by
  obtain ⟨c, hc, hhandled⟩ := Option.map_eq_some_iff.mp
    (show ((machine echo 16).run accepted pingThenRequest).map handled = some [(1, [7, 9])] by
      decide +kernel)
  exact ⟨c, hc, hhandled, (serves_stream fresh_accepted (by decide +kernel) hc).1⟩

end ConnectionHandler

/-! ### The streams of a server -/

namespace ServerSystem

variable {config : Config} {s₀ s s' : ServerSystem} {a : Act} {as as' : List Act} {i : Nat}
  {t : ConnectionHandler}

/-- The bytes that the client of a connection has sent. -/
def sentTo (i : Nat) (as : List Act) : List UInt8 :=
  ConnectionHandler.delivered (as.filterMap (own i))

theorem sentTo_append : sentTo i (as ++ as') = sentTo i as ++ sentTo i as' := by
  simp [sentTo, ConnectionHandler.delivered]

/-- What is done to one connection is orderly. -/
def Orderly (i : Nat) (s : ServerSystem) (a : Act) : Prop :=
  ∀ t ∈ s.tasks[i]?, ∀ b ∈ own i a, ConnectionHandler.Orderly t b

instance (i : Nat) (s : ServerSystem) (a : Act) : Decidable (Orderly i s a) :=
  inferInstanceAs (Decidable (∀ t ∈ s.tasks[i]?, ∀ b ∈ own i a, ConnectionHandler.Orderly t b))

/-- Nobody sends to a connection before it has its task. -/
theorem sentTo_of_none (ht : s.tasks[i]? = none) (hs : step config s a = some s') :
    sentTo i [a] = [] := by
  cases does_of_step hs with
  | @server a =>
      cases a with
      | _ => rfl
  | @task j a u u' server _ hu =>
      have hne : j ≠ i := by
        rintro rfl
        cases hu.symm.trans ht
      simp [sentTo, own, hne, ConnectionHandler.delivered]

/-- A task begins as a new connection that has received nothing. -/
theorem exists_spawned (hnone : s₀.tasks[i]? = none) (hr : (machine config).run s₀ as = some s)
    (ht : s.tasks[i]? = some t) :
    ∃ before after s₁ shutdown seen, as = before ++ after ∧ sentTo i before = [] ∧
      (machine config).run s₀ before = some s₁ ∧ (machine config).run s₁ after = some s ∧
        s₁.tasks[i]? = some (.new config.isTls shutdown seen) := by
  induction as generalizing s₀ with
  | nil =>
      cases hr
      cases hnone.symm.trans ht
  | cons a as ih =>
      rw [Machine.run_cons, Option.bind_eq_some_iff] at hr
      obtain ⟨u, hu, hr⟩ := hr
      have hsent := sentTo_of_none hnone hu
      cases hnext : u.tasks[i]? with
      | none =>
          obtain ⟨before, after, s₁, shutdown, seen, rfl, hbefore, hr₁, hr₂, hnew⟩ := ih hnext hr
          refine ⟨a :: before, after, s₁, shutdown, seen, rfl, ?_, ?_, hr₂, hnew⟩
          · rw [← List.singleton_append, sentTo_append, hsent, hbefore]
            rfl
          · rw [Machine.run_cons_of_step _ hu, hr₁]
      | some t₁ =>
          rcases task_before hnext hu with ⟨t₀, ht₀⟩ | ⟨-, -, rfl⟩
          · cases hnone.symm.trans ht₀
          · refine ⟨[a], as, u, _, _, rfl, hsent, ?_, hr, hnext⟩
            rw [Machine.run_cons_of_step _ hu, Machine.run_nil]

/-- Whatever becomes of the other connections, each one is served as if it were alone: by
the bytes of its client, with a beginning of what belongs to them, and with all of it when
it waits for more. And nothing holds it up: however it can go on by itself, it can do so in
the server, which goes on as before, as do the others. -/
theorem streams_served (hfresh : Fresh s₀) (horderly : (machine config).Along (Orderly i) s₀ as)
    (hr : (machine config).run s₀ as = some s) (ht : s.tasks[i]? = some t) :
    t.served ≤ serve (ConnectionHandler.sizeLimit config.maxBufferSize) (config.factory i)
        (sentTo i as) ∧
      (t.Waits → t.inbox.bytes = [] →
        t.served = serve (ConnectionHandler.sizeLimit config.maxBufferSize) (config.factory i)
          (sentTo i as)) ∧
      ∀ acts t', (∀ a ∈ acts, ofTask a = true ∧ (a = .abort → s.server.abortAsked i)) →
        (ConnectionHandler.machine (config.factory i) config.maxBufferSize).run t acts = some t' →
          ∃ s', (machine config).run s (acts.map (.task i)) = some s' ∧
            s'.tasks = s.tasks.set i t' ∧ s'.server.phase = s.server.phase := by
  obtain ⟨before, after, s₁, shutdown, seen, rfl, hbefore, hr₁, hr₂, hnew⟩ :=
    exists_spawned (by simp [hfresh.2]) hr ht
  have hown := (views_task i).along (fun _ t a b ht hb hok => hok t ht b hb) hnew
    (horderly.rest hr₁) hr₂
  obtain ⟨t₁, hrun, ht₁⟩ := (views_task i).run hnew hr₂
  cases ht.symm.trans ht₁
  have hstream : t.stream = sentTo i (before ++ after) := by
    rw [ConnectionHandler.stream_of_run ConnectionHandler.fresh_new hrun, sentTo_append, hbefore]
    rfl
  obtain ⟨hle, heq⟩ := ConnectionHandler.served_of_reachable
    (hown.reachable (.init ConnectionHandler.fresh_new) hrun)
  rw [← hstream]
  have hreach : (machine config).Reachable Machine.anyStep s :=
    .run (.init hfresh) (fun _ _ _ => trivial) hr
  exact ⟨hle, heq, fun _ _ hacts hgoes =>
    exists_task_run (agree_of_reachable hreach) ht hacts hgoes⟩

/-- The second connection has failed; the first one serves its request. -/
def besideFailure : List Act :=
  twoConnections ++
  [.task 0 (.progress (.ready 1)), .task 0 (.progress (.ready 0)), .task 0 (.deliver [5, 1]),
    .task 0 (.progress (.ready 1)), .task 0 (.progress (.ready 0)),
    .task 0 (.progress (.ready 0)), .task 0 (.progress (.ready 5)),
    .task 0 (.progress (.ready 0)), .task 0 (.progress (.ready 1)),
    .task 0 (.progress (.ready 1)), .task 0 (.progress (.ready 0)), .task 0 .turn]

theorem streams_served_besideFailure :
    ∃ s t, (machine echoServer).run start besideFailure = some s ∧ s.tasks[0]? = some t ∧
      t.handled = [(7, [5])] ∧
      t.served ≤ serve 64 ConnectionHandler.echo (sentTo 0 besideFailure) := by
  obtain ⟨t, ht, hhandled⟩ := Option.map_eq_some_iff.mp
    (show (((machine echoServer).run start besideFailure).bind (·.tasks[0]?)).map
      ConnectionHandler.handled = some [(7, [5])] by decide +kernel)
  obtain ⟨s, hs, ht⟩ := Option.bind_eq_some_iff.mp ht
  exact ⟨s, t, hs, ht, hhandled, (streams_served fresh_start (by decide +kernel) hs ht).1⟩

end ServerSystem

end Wagonet
