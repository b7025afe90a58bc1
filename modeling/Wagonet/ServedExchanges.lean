import Wagonet.Library.Link
import Wagonet.ServedCycles
import Wagonet.Transcript

/-!
The exchanges of a client against the cycles of a server.

An exchange sends a request header, a payload and an acknowledgement, or the header of a
ping. A server that has received a beginning of these bytes is in one turn, with this
request; and a response that the client gets is the one which the command handler has
returned. So both sides have finished with an exchange before the next one begins.
-/

namespace Wagonet

open Library ClientRuntime ConnectionHandler

/-! ### What an exchange sends -/

/-- A ping sends its header and waits for a byte. -/
theorem Ping.exchange_run {C : Interface} {σ : Type} {s s' : σ} {es : List (Net C).Event}
    {r : Except Error Unit} (h : (Ping.exchange s : Task (Net C) σ _).Run es s' r) :
    sent es <+: RequestHeader.encode ⟨Command.ping, 0⟩ ∧
      (r = .ok () → sent es = RequestHeader.encode ⟨Command.ping, 0⟩ ∧
        ∃ rest, received es = 1 :: rest) := by
  have request {es : List (Net C).Event} {s s' : σ} {r : Except Error Unit}
      (h : (Ping.sendPingRequestImpl s : Task (Net C) σ _).Run es s' r) :
      received es = [] ∧ ((sent es = RequestHeader.encode ⟨Command.ping, 0⟩) ∨
        (sent es <+: RequestHeader.encode ⟨Command.ping, 0⟩ ∧ ∃ e, r = .error e)) := by
    rcases Async.run_bind_iff.mp h with ⟨e, rfl, h₁⟩ | ⟨es₁, es₂, s₁, u, rfl, h₁, h₂⟩
    · obtain ⟨r₁, -, h₁⟩ := Async.mapError_run_iff.mp h₁
      obtain ⟨hrec, ⟨hsent, -⟩ | ⟨hsent, -⟩⟩ := writeLoop_run (Nat.le_refl _) h₁
      · exact ⟨hrec, .inl hsent⟩
      · exact ⟨hrec, .inr ⟨hsent, e, rfl⟩⟩
    · obtain ⟨r₁, hr₁, h₁⟩ := Async.mapError_run_iff.mp h₁
      obtain ⟨r₂, -, h₂⟩ := Async.mapError_run_iff.mp h₂
      obtain ⟨hrec₂, hsent₂, -⟩ := flushStream_run h₂
      obtain ⟨hrec, ⟨hsent, -⟩ | ⟨-, e, rfl⟩⟩ := writeLoop_run (Nat.le_refl _) h₁
      · exact ⟨by simp [hrec, hrec₂], .inl (by simp [hsent, hsent₂])⟩
      · cases hr₁
  rcases Async.run_bind_iff.mp h with ⟨e, rfl, h₁⟩ | ⟨es₁, es₂, s₁, u, rfl, h₁, h₂⟩
  · obtain ⟨-, hsent | ⟨hsent, -⟩⟩ := request h₁
    · exact ⟨hsent ▸ List.prefix_rfl, nofun⟩
    · exact ⟨hsent, nofun⟩
  obtain ⟨hrec, hsent | ⟨-, e, hr⟩⟩ := request h₁
  case inr => cases hr
  -- the reply is read without sending anything
  have hreply : sent es₂ = [] ∧ (r = .ok () → ∃ rest, received es₂ = 1 :: rest) := by
    rcases Async.run_bind_iff.mp h₂ with ⟨e, rfl, h₃⟩ | ⟨es₃, es₄, s₂, status, rfl, h₃, h₄⟩
    · exact ⟨(readLoop_within_run keepsLongest_discard h₃).1, nofun⟩
    obtain ⟨hsent₃, ⟨hlen, -, hstatus, -⟩ | ⟨-, -, e, hr⟩⟩ :=
      readLoop_within_run keepsLongest_discard h₃
    case inr => cases hr
    obtain rfl : status = received es₃ := Except.ok.inj hstatus
    by_cases hone : (received es₃).headD 0 = 1
    case neg =>
      rw [if_pos hone] at h₄
      obtain ⟨rfl, -, rfl⟩ := Task.run_done_iff.mp h₄
      exact ⟨by simp [hsent₃], nofun⟩
    rw [if_neg (not_not_intro hone)] at h₄
    obtain ⟨byte, hbyte⟩ := List.length_eq_one_iff.mp hlen
    have hfirst : received es₃ = [1] := by
      rw [hbyte] at hone ⊢
      exact congrArg (fun b => [b]) hone
    obtain ⟨es₅, es₆, s₃, o', rfl, h₅, h₆⟩ := Task.run_bind_iff.mp h₄
    obtain ⟨es₇, es₈, s₄, o, rfl, h₇, h₈⟩ := Task.run_bind_iff.mp h₅
    obtain ⟨rfl, rfl, rfl⟩ := Task.run_done_iff.mp h₈
    have hsent₇ := (readLoop_timeout_run keepsLongest_discard (by simp) (by simp) h₇).1
    have hend : es₆ = [] := by
      match o with
      | none => exact (Task.run_done_iff.mp h₆).1
      | some (.error e) => exact (Task.run_done_iff.mp h₆).1
      | some (.ok sizeBuf) =>
          dsimp only at h₆
          split at h₆ <;> exact (Task.run_done_iff.mp h₆).1
    subst hend
    exact ⟨by simp [hsent₃, hsent₇], fun _ => ⟨received es₇, by simp [hfirst]⟩⟩
  refine ⟨?_, fun hr => ?_⟩
  · rw [sent_append, hsent, hreply.1, List.append_nil]
  · obtain ⟨rest, hrest⟩ := hreply.2 hr
    exact ⟨by rw [sent_append, hsent, hreply.1, List.append_nil], rest, by simp [hrec, hrest]⟩

namespace Exchange

/-- All that an exchange sends. -/
def bytes : Exchange → List UInt8
  | .request command data _ _ => ClientExchange.opening command data ++ data ++ [1]
  | .ping => RequestHeader.encode ⟨Command.ping, 0⟩

/-- What is received in an exchange that succeeds. -/
def Reply : Exchange → List UInt8 → List UInt8 → Prop
  | .request _ _ commandHasAnswer m, bytes, response =>
      ClientExchange.Answered commandHasAnswer m bytes response
  | .ping, bytes, _ => ∃ rest, bytes = 1 :: rest

/-- A request is none of the pings, and its header can tell the size of its payload. -/
def Proper : Exchange → Prop
  | .request command data _ _ => command ≠ Command.ping ∧ data.length < 2 ^ 32
  | .ping => True

end Exchange

namespace ClientKind

variable {K : ClientKind} {x : Exchange} {buffer buffer' : ByteVec}
  {es : List (Net Interface.empty).Event}

theorem exchange_run {r : Except Error (List UInt8)}
    (h : (K.program x buffer).Run es buffer' r) :
    sent es <+: x.bytes ∧
      ∀ response, r = .ok response → sent es = x.bytes ∧ x.Reply (received es) response := by
  cases x with
  | request command data commandHasAnswer m =>
      obtain ⟨⟨rest, hrest⟩, -, hcase⟩ := request_run h
      refine ⟨⟨rest, hrest.symm⟩, ?_⟩
      rintro response rfl
      rcases hcase with ⟨-, hsent, payload, hr, hanswered⟩ | ⟨-, e, hr⟩
      · cases hr
        exact ⟨hsent, hanswered⟩
      · cases hr
  | ping =>
      rcases Async.run_bind_iff.mp h with ⟨e, rfl, h₁⟩ | ⟨es₁, es₂, s₁, u, rfl, h₁, h₂⟩
      · exact ⟨(Ping.exchange_run h₁).1, nofun⟩
      · obtain ⟨rfl, -, rfl⟩ := Task.run_done_iff.mp h₂
        rw [List.append_nil]
        obtain ⟨hsent, hok⟩ := Ping.exchange_run h₁
        exact ⟨hsent, fun _ _ => hok rfl⟩

theorem exchange_partial {t : Task (Net Interface.empty) ByteVec (Except Error (List UInt8))}
    (h : (K.program x buffer).Partial es t) : sent es <+: x.bytes := by
  obtain ⟨es', buffer', r, hrun, hsent, -⟩ := t.exists_quiet_run fun c : Empty => c.elim
  have hall := (exchange_run (h.run hrun)).1
  rwa [sent_append, hsent, List.append_nil] at hall

end ClientKind

/-! ### The turn of an exchange -/

namespace RequestHeader

/-- A header is known from its bytes, whatever follows them. -/
theorem eq_of_prefix {header header' : RequestHeader} {rest rest' : List UInt8}
    (h : header.encode ++ rest <+: header'.encode ++ rest') :
    header = header' ∧ rest <+: rest' := by
  obtain ⟨after, hafter⟩ := h
  rw [List.append_assoc] at hafter
  obtain ⟨hheader, hrest⟩ := List.append_inj hafter rfl
  exact ⟨encode_inj hheader, after, hrest⟩

end RequestHeader

namespace Turn

variable {m : Nat} {turn : Turn} {command : UInt32} {data more : List UInt8}

/-- Of the header of a ping the server makes a ping, or it is still at it. -/
theorem of_ping (hvalid : turn.Valid m) (h : turn.consumed <+: Exchange.ping.bytes ++ more) :
    (∃ bytes, turn = .cutHeader bytes) ∨ turn = .ping ∨ turn = .refused ⟨Command.ping, 0⟩ := by
  cases turn with
  | cutHeader bytes => exact .inl ⟨bytes, rfl⟩
  | ping => exact .inr (.inl rfl)
  | refused header =>
      obtain ⟨rfl, -⟩ := RequestHeader.eq_of_prefix h
      exact .inr (.inr rfl)
  | cutPayload header bytes =>
      obtain ⟨rfl, -⟩ := RequestHeader.eq_of_prefix h
      exact absurd rfl hvalid.1.1
  | request header data ack =>
      obtain ⟨rfl, -⟩ := RequestHeader.eq_of_prefix h
      exact absurd rfl hvalid.1.1

/-- Of the bytes of a request the server makes this request, as far as they go. -/
theorem of_request (hvalid : turn.Valid m) (hping : command ≠ Command.ping)
    (hsize : data.length < 2 ^ 32)
    (h : turn.consumed <+: ClientExchange.opening command data ++ data ++ [1] ++ more) :
    (∃ bytes, turn = .cutHeader bytes) ∨
      turn = .refused ⟨command, UInt32.ofNat data.length⟩ ∨
      (∃ bytes, turn = .cutPayload ⟨command, UInt32.ofNat data.length⟩ bytes) ∨
      ∃ ack, turn = .request ⟨command, UInt32.ofNat data.length⟩ data ack ∧
        ack.toList <+: 1 :: more := by
  rw [ClientExchange.opening, List.append_assoc, List.append_assoc] at h
  cases turn with
  | cutHeader bytes => exact .inl ⟨bytes, rfl⟩
  | ping =>
      obtain ⟨heq, -⟩ := RequestHeader.eq_of_prefix h
      exact absurd (congrArg RequestHeader.command heq).symm hping
  | refused header =>
      obtain ⟨rfl, -⟩ := RequestHeader.eq_of_prefix h
      exact .inr (.inl rfl)
  | cutPayload header bytes =>
      obtain ⟨rfl, -⟩ := RequestHeader.eq_of_prefix h
      exact .inr (.inr (.inl ⟨bytes, rfl⟩))
  | request header data' ack =>
      obtain ⟨rfl, hrest⟩ := RequestHeader.eq_of_prefix h
      have hlen : data'.length = data.length := by
        rw [hvalid.2]
        exact Nat.mod_eq_of_lt hsize
      obtain ⟨after, hafter⟩ := hrest
      simp only [List.flatten_cons, List.flatten_nil, List.append_nil, List.append_assoc] at hafter
      obtain ⟨rfl, hack⟩ := List.append_inj hafter hlen
      exact .inr (.inr (.inr ⟨ack, rfl, after, hack⟩))

theorem status_length_le (m : Nat) (header : RequestHeader) : (status m header).length ≤ 1 := by
  rw [status]
  split
  · exact Nat.zero_le 1
  · split <;> exact Nat.le_refl 1

/-- Only one result is announced with the status that the client accepts. -/
theorem ok_of_status {result : CommandResult} (h : (responseOf result).1 = 1) :
    ∃ reply, result = .ok (.ok, reply) := by
  match result with
  | .error e => cases h
  | .ok (status, reply) =>
      obtain rfl := ResponseStatus.toU8_eq_one_iff.mp h
      exact ⟨reply, rfl⟩

end Turn

/-! ### One exchange -/

namespace ConnectionHandler

variable {P : List (Net Handler).Event → Prop} {m : Nat} {es : List (Net Handler).Event}
  {x : Exchange} {handler : CommandHandler}
  {command : UInt32} {data response bytes : List UInt8}

/-- As long as no more was received than the bytes of one exchange, one turn tells all. -/
theorem Loop.one_turn (h : Loop P m es) (hread : received es <+: x.bytes) (hx : x.Proper) :
    ∃ (turn : Turn) (first rest : List (Net Handler).Event), es = first ++ rest ∧
      turn.Served m first ∧ turn.consumed <+: x.bytes ∧ sent rest = [] ∧ entered rest = [] := by
  cases h with
  | last hs ht =>
      subst hs
      obtain ⟨turn, hserved⟩ := ProtocolHandler.served_of_partial ht
      exact ⟨turn, es, [], (List.append_nil es).symm, hserved, hserved.consumed ▸ hread, rfl, rfl⟩
  | next hs hrun hP hrest =>
      rename_i s s' first rest
      subst hs
      obtain ⟨turn, hserved, hdone⟩ := ProtocolHandler.done_of_run hrun
      rw [received_append, hserved.consumed] at hread
      have hconsumed : turn.consumed <+: x.bytes := (List.prefix_append _ _).trans hread
      obtain ⟨hsent, hentered⟩ := hrest.quiet <| by
        have hlen := hread.length_le
        rw [List.length_append] at hlen
        have hwhole := hdone.whole
        rw [← List.append_nil x.bytes] at hconsumed
        cases x with
        | ping =>
            rcases Turn.of_ping hserved.valid hconsumed with ⟨bytes, rfl⟩ | rfl | rfl
            · cases hwhole
            · change 8 + _ ≤ 8 at hlen
              change _ < 8
              omega
            · cases hwhole
        | request command data cha limit =>
            rcases Turn.of_request hserved.valid hx.1 hx.2 hconsumed with
              ⟨bytes, rfl⟩ | rfl | ⟨bytes, rfl⟩ | ⟨ack, rfl, -⟩
            · cases hwhole
            · cases hwhole
            · cases hwhole
            · simp only [Turn.consumed, Turn.frames, Exchange.bytes, ClientExchange.opening,
                List.flatten_cons, List.length_append, RequestHeader.encode_length] at hlen
              simp only [List.length_cons, List.length_nil, RequestHeader.encodedLen] at hlen ⊢
              omega
      exact ⟨turn, first, rest, rfl, hserved, hconsumed, hsent, hentered⟩

/-- The server answers a ping with one byte. -/
theorem Loop.answered_ping {rest : List UInt8} (h : Loop P m es)
    (hread : received es <+: Exchange.ping.bytes) (hwritten : 1 :: rest <+: sent es) :
    rest = [] ∧ entered es = [] := by
  obtain ⟨turn, first, after, rfl, hserved, hconsumed, hsent, hentered⟩ :=
    h.one_turn hread trivial
  rw [← List.append_nil Exchange.ping.bytes] at hconsumed
  rw [sent_append, hsent, List.append_nil] at hwritten
  have hreply := hwritten.trans hserved.wrote
  have hone (hreply : 1 :: rest <+: [1]) : rest = [] :=
    List.prefix_nil.mp (List.cons_prefix_cons.mp hreply).2
  rw [entered_append, hentered, List.append_nil, hserved.called]
  rcases Turn.of_ping hserved.valid hconsumed with ⟨bytes, rfl⟩ | rfl | rfl
  · exact absurd hreply (by simp [Turn.replies])
  · exact ⟨hone hreply, rfl⟩
  · rw [Turn.replies, Turn.status_ping] at hreply
    exact ⟨hone hreply, rfl⟩

/-- The replies of a command handler are such that a header can tell their size. -/
def Declared (handler : CommandHandler) : Prop :=
  ∀ requests status reply, handler requests = .ok (status, reply) → reply.length < 2 ^ 32

/-- A response that the client accepts is what the command handler has returned. -/
theorem Loop.answered_request {cha : Bool} {limit : Nat} (h : Loop P m es)
    (hfaithful : Faithful handler es) (hdeclared : Declared handler)
    (hread : received es <+: (Exchange.request command data cha limit).bytes)
    (hproper : (Exchange.request command data cha limit).Proper)
    (hanswered : ClientExchange.Answered true limit bytes response)
    (hwritten : bytes <+: sent es) :
    handler [(command, data)] = .ok (.ok, response) ∧ entered es = [(command, data)] ∧
      bytes = 1 :: Turn.response (some 1) [.ok (.ok, response)] ∧
      ∃ later, results es = .ok (.ok, response) :: later := by
  obtain ⟨turn, first, after, rfl, hserved, hconsumed, hsent, hentered⟩ :=
    h.one_turn hread hproper
  obtain ⟨header, rfl, -, hstatus, -, hlen⟩ := hanswered
  rw [← List.append_nil (Exchange.bytes _)] at hconsumed
  rw [sent_append, hsent, List.append_nil] at hwritten
  have hreply := hwritten.trans hserved.wrote
  -- more than a status byte was written
  have short {bytes : List UInt8} (hreply : 1 :: (header.encode (!true) ++ response) <+: bytes)
      (hle : bytes.length ≤ 1) : False := by
    have hlong := hreply.length_le
    rw [List.length_cons, List.length_append, Bool.not_true,
      ResponseHeader.encode_false_length] at hlong
    change 5 + _ + 1 ≤ _ at hlong
    omega
  rcases Turn.of_request hserved.valid hproper.1 hproper.2 hconsumed with
    ⟨bytes, rfl⟩ | rfl | ⟨bytes, rfl⟩ | ⟨ack, rfl, -⟩
  · exact (short hreply (Nat.zero_le 1)).elim
  · exact (short hreply (Turn.status_length_le m _)).elim
  · exact (short hreply (Nat.le_refl 1)).elim
  rw [entered_append, hentered, List.append_nil, hserved.called, results_append]
  cases hresults : results first with
  | nil =>
      rw [hresults] at hreply
      exact (short hreply (Nat.le_refl 1)).elim
  | cons result later =>
      rw [hresults] at hreply
      obtain ⟨before, later', hfirst, hbefore⟩ := hserved.answers result (by simp [hresults])
      rw [hserved.called] at hbefore
      have hresult : result = handler [(command, data)] := by
        have hhandler := hfaithful before result (later' ++ after) (by simp [hfirst])
        rwa [hbefore] at hhandler
      obtain ⟨more, hmore⟩ := (List.cons_prefix_cons.mp hreply).2
      rw [List.append_assoc, Bool.not_true, Turn.response, responseHeader] at hmore
      obtain ⟨rfl, hrest⟩ := ResponseHeader.encode_append_inj (by simp) (by simp) hmore
      obtain ⟨reply, rfl⟩ := Turn.ok_of_status hstatus
      have hsize : response.length = reply.length := by
        rw [hlen]
        exact Nat.mod_eq_of_lt (hdeclared _ _ _ hresult.symm)
      obtain rfl : response = reply := by
        split at hrest
        · exact (List.append_inj (hrest.trans (List.append_nil _).symm) hsize).1
        · obtain ⟨rfl, -⟩ := List.append_eq_nil_iff.mp hrest
          exact (List.eq_nil_of_length_eq_zero hsize.symm).symm
      refine ⟨hresult.symm, rfl, ?_, _, rfl⟩
      rw [Turn.response, if_pos rfl]
      rfl

end ConnectionHandler

theorem ConnectionHandler.Faithful.head {handler : CommandHandler}
    {first rest : List (Net Handler).Event} (h : Faithful handler (first ++ rest)) :
    Faithful handler first := by
  rintro before result after rfl
  exact h before result (after ++ rest) (List.append_assoc _ _ _)

theorem ConnectionHandler.Faithful.tail {handler : CommandHandler}
    {first rest : List (Net Handler).Event} (h : Faithful handler (first ++ rest)) :
    Faithful (fun requests => handler (entered first ++ requests)) rest := by
  rintro before result after rfl
  change result = handler (entered first ++ entered before)
  rw [← entered_append]
  exact h (first ++ before) result after (List.append_assoc _ _ _).symm

/-! ### Both sides -/

/-- Where a party sends and receives bytes. -/
def netPort (C : Interface) : Port (Net C).Event UInt8 := ⟨(·.sent), (·.received)⟩

@[simp] theorem netPort_sent {C : Interface} (es : List (Net C).Event) :
    (netPort C).sent es = sent es := rfl

@[simp] theorem netPort_received {C : Interface} (es : List (Net C).Event) :
    (netPort C).received es = received es := rfl

/-- A client and a server over one connection. -/
abbrev Connected : List (Net Interface.empty).Event → List (Net Handler).Event → Prop :=
  Linked (netPort Interface.empty) (netPort Handler)

namespace Connected

variable {P : List (Net Handler).Event → Prop} {m : Nat}
  {es more : List (Net Interface.empty).Event} {fs : List (Net Handler).Event}
  {handler : CommandHandler} {command : UInt32} {data response : List UInt8} {cha : Bool}
  {limit : Nat}

variable (P) in
/-- The server is still in the turn of an exchange that has ended for the client, or it has
finished with it. -/
def Advances (m : Nat) (es : List (Net Interface.empty).Event) (requests : List Request)
    (fs : List (Net Handler).Event) : Prop :=
  (entered fs = requests ∧ sent fs <+: received es) ∨
    ∃ first rest, fs = first ++ rest ∧ Loop P m rest ∧ entered first = requests ∧
      received first = sent es ∧ sent first = received es

theorem advances_ping (h : Connected (es ++ more) fs) (hloop : Loop P m fs)
    (hsent : sent es = Exchange.ping.bytes) (hreply : ∃ rest, received es = 1 :: rest) :
    Advances P m es [] fs := by
  obtain ⟨fs₁, fs₂, hfs, h₁⟩ := h.before
  obtain ⟨rest, hreceived⟩ := hreply
  have hread := h.received_right
  simp only [netPort_received, netPort_sent, sent_append, hsent] at hread
  have hwritten : received es <+: sent fs₁ := h₁.received_left
  rw [hreceived] at hwritten
  -- when the client had its reply, the server was at this ping
  obtain ⟨rfl, -⟩ := (hfs ▸ hloop).before.answered_ping (hsent ▸ h₁.received_right) hwritten
  rw [Advances, hreceived]
  cases hloop with
  | last hs ht =>
      subst hs
      obtain ⟨turn, hserved⟩ := ProtocolHandler.served_of_partial ht
      rw [hserved.consumed] at hread
      have hwrote := hserved.wrote
      rw [hserved.called]
      rcases Turn.of_ping hserved.valid hread with ⟨bytes, rfl⟩ | rfl | rfl
      · exact .inl ⟨rfl, hwrote.trans List.nil_prefix⟩
      · exact .inl ⟨rfl, hwrote⟩
      · rw [Turn.replies, Turn.status_ping] at hwrote
        exact .inl ⟨rfl, hwrote⟩
  | next hs hrun hP hrest =>
      rename_i s s' first rest
      subst hs
      obtain ⟨turn, hserved, hdone⟩ := ProtocolHandler.done_of_run hrun
      rw [received_append, hserved.consumed] at hread
      rcases Turn.of_ping hserved.valid ((List.prefix_append _ _).trans hread) with
        ⟨bytes, rfl⟩ | rfl | rfl
      · cases hdone
      · refine .inr ⟨first, rest, rfl, hrest, hserved.called, ?_, hdone⟩
        rw [hserved.consumed, hsent]
        exact List.append_nil _
      · cases hdone

theorem advances_request (h : Connected (es ++ more) fs) (hloop : Loop P m fs)
    (hfaithful : Faithful handler fs) (hdeclared : Declared handler)
    (hsent : sent es = (Exchange.request command data cha limit).bytes)
    (hproper : (Exchange.request command data cha limit).Proper)
    (hreply : ClientExchange.Answered true limit (received es) response) :
    handler [(command, data)] = .ok (.ok, response) ∧ Advances P m es [(command, data)] fs := by
  obtain ⟨fs₁, fs₂, rfl, h₁⟩ := h.before
  have hread := h.received_right
  simp only [netPort_received, netPort_sent, sent_append, hsent] at hread
  -- when the client had its response, the server was at this request
  obtain ⟨hhandler, hentered₁, hbytes, later, hresults₁⟩ := hloop.before.answered_request
    hfaithful.head hdeclared (hsent ▸ h₁.received_right) hproper hreply h₁.received_left
  refine ⟨hhandler, ?_⟩
  have hresults : results (fs₁ ++ fs₂) = .ok (.ok, response) :: (later ++ results fs₂) := by
    rw [results_append, hresults₁, List.cons_append]
  have hentered : entered (fs₁ ++ fs₂) = (command, data) :: entered fs₂ := by
    rw [entered_append, hentered₁]
    rfl
  rw [Advances, hbytes]
  generalize fs₁ ++ fs₂ = fs at *
  cases hloop with
  | last hs ht =>
      subst hs
      obtain ⟨turn, hserved⟩ := ProtocolHandler.served_of_partial ht
      rw [hserved.consumed] at hread
      have hwrote := hserved.wrote
      rw [hserved.called] at hentered ⊢
      rcases Turn.of_request hserved.valid hproper.1 hproper.2 hread with
        ⟨bytes, rfl⟩ | rfl | ⟨bytes, rfl⟩ | ⟨ack, rfl, -⟩
      · cases hentered
      · cases hentered
      · cases hentered
      · refine .inl ⟨rfl, hwrote.trans ?_⟩
        rw [hresults, Turn.replies, Turn.response, Turn.response, if_pos rfl]
        refine List.cons_prefix_cons.mpr ⟨rfl, (List.prefix_append_right_inj _).mpr ?_⟩
        split
        · exact List.prefix_rfl
        · exact List.nil_prefix
  | next hs hrun hP hrest =>
      rename_i s s' first rest
      subst hs
      obtain ⟨turn, hserved, hdone⟩ := ProtocolHandler.done_of_run hrun
      rw [received_append, hserved.consumed] at hread
      rcases Turn.of_request hserved.valid hproper.1 hproper.2
        ((List.prefix_append _ _).trans hread) with
        ⟨bytes, rfl⟩ | rfl | ⟨bytes, rfl⟩ | ⟨ack, rfl, -⟩
      · cases hdone
      · cases hdone
      · cases hdone
      · obtain ⟨result, hresult, hcase⟩ := hdone
        rw [results_append, hresult] at hresults
        obtain rfl : result = .ok (.ok, response) := (List.cons.inj hresults).1
        rcases hcase with ⟨hwrote, rfl⟩ | ⟨e, he⟩
        · refine .inr ⟨first, rest, rfl, hrest, hserved.called, ?_, hwrote⟩
          rw [hserved.consumed, hsent]
          simp [Turn.consumed, Turn.frames, Exchange.bytes, ClientExchange.opening]
        · cases he

end Connected

/-! ### All exchanges of a connection -/

theorem Exchange.Reply.ne_nil {x : Exchange} {bytes response : List UInt8}
    (h : x.Reply bytes response) : bytes ≠ [] := by
  cases x with
  | request command data cha limit =>
      obtain ⟨header, rfl, -⟩ := h
      nofun
  | ping =>
      obtain ⟨rest, rfl⟩ := h
      nofun

/-- Each response is what the command handler answers to its request after those before
it. -/
def CommandHandler.Answers (handler : CommandHandler)
    (answered : List (Request × List UInt8)) : Prop :=
  ∀ earlier request response later, answered = earlier ++ (request, response) :: later →
    handler (earlier.map (·.1) ++ [request]) = .ok (.ok, response)

theorem CommandHandler.Answers.cons {handler : CommandHandler} {request : Request}
    {response : List UInt8} {answered : List (Request × List UInt8)}
    (h : handler [request] = .ok (.ok, response))
    (hrest : CommandHandler.Answers (fun requests => handler (request :: requests)) answered) :
    handler.Answers ((request, response) :: answered) := by
  intro earlier request' response' later heq
  cases earlier with
  | nil =>
      obtain ⟨hfirst, -⟩ := List.cons.inj heq
      cases hfirst
      exact h
  | cons first earlier =>
      obtain ⟨rfl, hlater⟩ := List.cons.inj heq
      exact hrest earlier request' response' later hlater

namespace Connected

variable {K : ClientKind} {P : List (Net Handler).Event → Prop} {m : Nat}
  {es more : List (Net Interface.empty).Event} {x : Exchange}
  {done : List Segment} {y : Segment} {fs : List (Net Handler).Event} {handler : CommandHandler}

/-- The last exchange, which may have come to any point: its request is handled once at
most. -/
theorem agree_last (h : Connected es fs) (hloop : Loop P m fs) (hx : x.Proper)
    (hes : ∃ buffer t, (K.program x buffer).Partial es t) :
    entered fs = [] ∨ entered fs = x.asked.toList := by
  obtain ⟨buffer, t, ht⟩ := hes
  have hread : received fs <+: sent es := h.received_right
  obtain ⟨turn, first, rest, rfl, hserved, hconsumed, -, hentered⟩ :=
    hloop.one_turn (hread.trans (ClientKind.exchange_partial ht)) hx
  rw [entered_append, hentered, List.append_nil, hserved.called]
  rw [← List.append_nil x.bytes] at hconsumed
  cases x with
  | ping =>
      rcases Turn.of_ping hserved.valid hconsumed with ⟨bytes, rfl⟩ | rfl | rfl
      · exact .inl rfl
      · exact .inl rfl
      · exact .inl rfl
  | request command data cha limit =>
      rcases Turn.of_request hserved.valid hx.1 hx.2 hconsumed with
        ⟨bytes, rfl⟩ | rfl | ⟨bytes, rfl⟩ | ⟨ack, rfl, -⟩
      · exact .inl rfl
      · exact .inl rfl
      · exact .inl rfl
      · exact .inr rfl

/-- One exchange that has succeeded. -/
theorem advances (h : Connected (y.events ++ more) fs) (hloop : Loop P m fs)
    (hfaithful : Faithful handler fs) (hdeclared : Declared handler) (hy : y.Succeeded K)
    (hproper : y.exchange.Proper) :
    Advances P m y.events y.asked.toList fs ∧ received y.events ≠ [] ∧
      ((y.asked = none ∧ y.answered = none) ∨ ∃ request response,
        y.asked = some request ∧ y.answered = some (request, response) ∧
          handler [request] = .ok (.ok, response)) := by
  obtain ⟨hawaits, buffer, buffer', response, hfate, hrun⟩ := hy
  obtain ⟨hsent, hreply⟩ := (ClientKind.exchange_run hrun).2 response rfl
  have hne := hreply.ne_nil
  obtain ⟨owner, exchange, events, fate⟩ := y
  cases exchange with
  | ping =>
      refine ⟨advances_ping h hloop hsent hreply, hne, .inl ⟨rfl, ?_⟩⟩
      exact Segment.answered_of_asked rfl
  | request command data cha limit =>
      obtain rfl : cha = true := hawaits
      obtain ⟨hhandler, hadvances⟩ :=
        advances_request h hloop hfaithful hdeclared hsent hproper hreply
      refine ⟨hadvances, hne, .inr ⟨(command, data), response, rfl, ?_, hhandler⟩⟩
      obtain rfl : fate = .returned (.ok response) := hfate
      rfl

/-- What the server has handled on a connection are the requests of the exchanges that
have succeeded there, and then perhaps that of the last exchange; and the responses are
those of the command handler. -/
theorem agree (h : Connected (done.flatMap (·.events) ++ es) fs) (hloop : Loop P m fs)
    (hfaithful : Faithful handler fs) (hdeclared : Declared handler)
    (hdone : ∀ y ∈ done, y.Succeeded K ∧ y.exchange.Proper) (hx : x.Proper)
    (hes : ∃ buffer t, (K.program x buffer).Partial es t) :
    (entered fs = done.filterMap Segment.asked ∨
      entered fs = done.filterMap Segment.asked ++ x.asked.toList) ∧
    handler.Answers (done.filterMap Segment.answered) := by
  induction done generalizing fs handler with
  | nil => exact ⟨agree_last h hloop hx hes, fun earlier _ _ _ heq => by simp at heq⟩
  | cons y done ih =>
      rw [List.flatMap_cons, List.append_assoc] at h
      obtain ⟨hy, hproper⟩ := hdone y List.mem_cons_self
      have hlater : ∀ y ∈ done, y.Succeeded K ∧ y.exchange.Proper := fun y hy =>
        hdone y (List.mem_cons_of_mem _ hy)
      obtain ⟨hadvances, -, hanswer⟩ := advances h hloop hfaithful hdeclared hy hproper
      rcases hadvances with ⟨hentered, hwrote⟩ | ⟨first, rest, rfl, hrest, hentered, hread, hwrote⟩
      · -- nothing was sent for another exchange
        obtain rfl : done = [] := by
          cases done with
          | nil => rfl
          | cons y' done =>
              obtain ⟨-, buffer, buffer', response, -, hrun⟩ := (hlater y' List.mem_cons_self).1
              have hne := ((ClientKind.exchange_run hrun).2 response rfl).2.ne_nil
              have hle := (h.received_left.trans hwrote).length_le
              simp only [netPort_received, List.flatMap_cons, received_append,
                List.length_append] at hle
              exact absurd (List.eq_nil_of_length_eq_zero (by omega)) hne
        rcases hanswer with ⟨hasked, hanswered⟩ | ⟨request, response, hasked, hanswered, hhandler⟩
        · rw [List.filterMap_cons_none hasked, List.filterMap_cons_none hanswered]
          rw [hasked] at hentered
          exact ⟨.inl hentered, fun earlier _ _ _ heq => by simp at heq⟩
        · rw [List.filterMap_cons_some hasked, List.filterMap_cons_some hanswered]
          rw [hasked] at hentered
          exact ⟨.inl hentered, .cons hhandler fun earlier _ _ _ heq => by simp at heq⟩
      · have htail := h.tail (by simp [hwrote]) (by simp [hread])
        obtain ⟨hih, hanswers⟩ := ih htail hrest hfaithful.tail
          (fun requests status reply => hdeclared _ status reply) hlater
        rw [entered_append, hentered]
        rcases hanswer with ⟨hasked, hanswered⟩ | ⟨request, response, hasked, hanswered, hhandler⟩
        · rw [List.filterMap_cons_none hasked, List.filterMap_cons_none hanswered]
          rw [hentered, hasked] at hanswers
          rw [hasked]
          exact ⟨hih, hanswers⟩
        · rw [List.filterMap_cons_some hasked, List.filterMap_cons_some hanswered]
          rw [hentered, hasked] at hanswers
          rw [hasked]
          refine ⟨hih.imp (congrArg (request :: ·)) (congrArg (request :: ·)), ?_⟩
          exact .cons hhandler hanswers

end Connected

end Wagonet
