import Wagonet.ClientUses
import Wagonet.ExchangeRuns

/-!
The size that a frame declares, and the size of what follows.

The length of a payload is a `usize`, the field of the header a `u32`, and the
conversion keeps the lower bits. So a header tells the truth exactly about payloads
that are shorter than `2 ^ 32` bytes; a longer one is sent all the same.
-/

namespace Wagonet

open Library

theorem declaredSize_iff {data : List UInt8} :
    declaredSize data = data.length ↔ data.length < 2 ^ 32 := by
  constructor
  · intro h
    rw [← h]
    exact (UInt32.ofNat data.length).toNat_lt
  · exact declaredSize_of_lt

/-- A call finds in the cell what is stored there, or nothing, if a ping has failed
meanwhile. -/
def Client.finds (cell : Option Conn) (e : ClientCalls.Event) : Prop :=
  match e with
  | ⟨.loadStream, v⟩ => v = cell ∨ v = none
  | _ => True

/-- What is stored afterwards. -/
def Client.leaves (cell : Option Conn) (e : ClientCalls.Event) : Option Conn :=
  match e with
  | ⟨.loadStream, v⟩ => v
  | ⟨.setStream v, _⟩ => v
  | _ => cell

/-- What an operation of the caller finds in the cell, with what was stored there before:
nobody else stores a stream. -/
def Client.Consistent : Option Conn → List ClientCalls.Event → Prop
  | _, [] => True
  | cell, e :: es => Client.finds cell e ∧ Client.Consistent (Client.leaves cell e) es

/-- Whichever request header is written in a run of `handle_message` with this in the cell,
it declares the size of the payload. -/
def Client.DeclaresSize (K : ClientKind) (command : UInt32) (requestData : List UInt8)
    (fields : ClientFields) (cell : Option Conn) : Prop :=
  ∀ (es : List ClientIO.Event) fields' r,
    (Client.handleMessage K command requestData fields).Run es fields' r →
      Client.Consistent cell (callsOf es) →
        ∀ (ts : List Timer) (c : Conn) (x : Exchange) (buffer buffer' : ByteVec) r',
          (⟨.wait ts (.exchange c x buffer), .inr (buffer', r')⟩ : ClientIO.Event) ∈ es →
            ∀ es', (K.program x buffer).Run es' buffer' r' →
              ∀ header : RequestHeader, header.encode <+: sent es' →
                header.dataSize.toNat = requestData.length

/-- Whichever response header is written in a run, it declares the size of the payload. -/
def FramedServer.DeclaresSize
    (send : UInt8 → Option (List UInt8) → Async (Net Interface.empty) FramedServer Error Unit)
    (status : UInt8) (buf : List UInt8) (s : FramedServer) : Prop :=
  ∀ es s' r, (send status (some buf) s).Run es s' r →
    ∀ header : ResponseHeader, header.encode false <+: sent es →
      header.dataSize.toNat = buf.length

/-! ### The headers that are written -/

namespace ClientKind

variable {K : ClientKind} {command : UInt32} {data : List UInt8} {answer : Bool} {m : Nat}
  {buffer buffer' : ByteVec} {es : List (Net Interface.empty).Event}

/-- The only request header that an exchange writes. -/
theorem request_header {r : Except Error (List UInt8)} {header : RequestHeader}
    (h : (K.program (.request command data answer m) buffer).Run es buffer' r)
    (hheader : header.encode <+: sent es) : header.dataSize.toNat = declaredSize data := by
  obtain ⟨⟨rest, hrest⟩, -, -⟩ := request_run h
  have hall : header.encode <+: ClientExchange.opening command data ++ data ++ [1] :=
    hheader.trans ⟨rest, hrest.symm⟩
  have hopening : ClientExchange.opening command data <+:
      ClientExchange.opening command data ++ data ++ [1] :=
    ⟨data ++ [1], (List.append_assoc ..).symm⟩
  have heq := (List.prefix_of_prefix_length_le hall hopening (Nat.le_refl 8)).eq_of_length rfl
  rw [RequestHeader.encode_inj heq]
  rfl

/-- Each of the two exchanges begins by waiting to write the request header. -/
theorem request_await (K : ClientKind) (command : UInt32) (data : List UInt8) (answer : Bool)
    (m : Nat) (buffer : ByteVec) :
    ∃ s k, K.program (.request command data answer m) buffer =
      .await s (.wait [.write] (.write (ClientExchange.opening command data))) k := by
  have hinner {ε : Type} (E : ExchangeErrors ε) : ∃ s k,
      ClientExchange.exchange (C := Interface.empty) E command data answer m buffer =
        .await s (.wait [.write] (.write (ClientExchange.opening command data))) k := by
    have hopening : ClientExchange.opening command data ≠ [] := nofun
    obtain ⟨k, hk⟩ := writeLoop_within_await (C := Interface.empty) Timer.write
      E.sendingRequestHeader E.io id hopening
      (buffer.clear.extend (ClientExchange.opening command data))
    obtain ⟨k₁, hk₁⟩ := Async.bind_await hk fun _ => (do
      Async.mapError E.io flush
      Async.modify .clear : Async (Net Interface.empty) ByteVec ε Unit)
    obtain ⟨k₂, hk₂⟩ := Async.bind_await hk₁ _
    obtain ⟨k₃, hk₃⟩ := Async.bind_await hk₂ _
    exact ⟨_, k₃, hk₃⟩
  cases K with
  | tl => exact hinner ClientTL.errors
  | tls domain acceptInvalidCerts =>
      obtain ⟨s, k, h⟩ := hinner ClientTLS.errors
      exact ⟨s, fun r => (k r).bind fun s' r => .done s' (r.mapError .other),
        congrArg (fun t => t.bind fun s' r => .done s' (r.mapError Error.other)) h⟩

/-- Some run of an exchange has written the request header. -/
theorem request_writes (K : ClientKind) (command : UInt32) (data : List UInt8) (answer : Bool)
    (m : Nat) (buffer : ByteVec) :
    ∃ es buffer' r, (K.program (.request command data answer m) buffer).Run es buffer' r ∧
      ClientExchange.opening command data <+: sent es := by
  obtain ⟨s, k, htask⟩ := request_await K command data answer m buffer
  obtain ⟨es, buffer', r, hrun, -, -⟩ :=
    (k (.inr (.ok ⟨8, Nat.le_refl 8⟩))).exists_quiet_run fun c : Empty => c.elim
  rw [htask]
  refine ⟨_, buffer', r, .await hrun, sent es, ?_⟩
  rfl

end ClientKind

namespace FramedServer

variable {status : UInt8} {buf : List UInt8} {s s' : FramedServer}
  {es : List (Net Interface.empty).Event}

/-- A run of `send_data` begins with the one header that it writes. -/
theorem sendData_opens {r : Except Error Unit}
    (h : (sendData status (some buf) s : Task (Net Interface.empty) _ _).Run es s' r) :
    sent es <+: ResponseHeader.encode ⟨status, dataSizeOf (some buf)⟩ false ∨
      ResponseHeader.encode ⟨status, dataSizeOf (some buf)⟩ false <+: sent es := by
  simp only [sendData, Option.isNone_some, sendResponseHeader, Async.modify_bind_apply,
    Async.get_bind_apply, Async.bind_assoc] at h
  rcases Async.run_bind_iff.mp h with ⟨e, rfl, h₁⟩ | ⟨es₁, es₂, s₁, u, rfl, h₁, h₂⟩
  · obtain ⟨-, -, ⟨hsent, -, -⟩ | ⟨⟨rest, -, hrest⟩, -, -⟩⟩ := writeLoop_within_run h₁
    · exact .inl (hsent ▸ List.prefix_refl _)
    · exact .inl ⟨rest, hrest.symm⟩
  · obtain ⟨-, -, ⟨hsent, -, -⟩ | ⟨-, -, e, hr⟩⟩ := writeLoop_within_run h₁
    · right
      rw [sent_append, hsent]
      exact List.prefix_append _ _
    · cases hr

theorem sendData_header {r : Except Error Unit} {header : ResponseHeader}
    (h : (sendData status (some buf) s : Task (Net Interface.empty) _ _).Run es s' r)
    (hheader : header.encode false <+: sent es) : header.dataSize.toNat = declaredSize buf := by
  have heq : header.encode false = ResponseHeader.encode ⟨status, dataSizeOf (some buf)⟩ false := by
    rcases sendData_opens h with hshort | hlong
    · exact (hheader.trans hshort).eq_of_length rfl
    · exact (List.prefix_of_prefix_length_le hheader hlong (Nat.le_refl 5)).eq_of_length rfl
  obtain ⟨rfl, -⟩ := @ResponseHeader.encode_append_inj false header ⟨status, dataSizeOf (some buf)⟩
    [] [] nofun nofun (congrArg (· ++ []) heq)
  rfl

end FramedServer

/-! ### When a call comes to its exchange -/

namespace Client

variable {K : ClientKind} {fields : ClientFields} {cell : Option Conn}

theorem consistent_append {es es' : List ClientCalls.Event} :
    Consistent cell (es ++ es') ↔ Consistent cell es ∧ Consistent (es.foldl leaves cell) es' := by
  induction es generalizing cell with
  | nil => simp [Consistent]
  | cons e es ih => exact (and_congr_right fun _ => ih).trans and_assoc.symm

/-- The calls find what they can find, and leave this stream in the cell. -/
def Stores (cell : Option Conn) (c : Conn) (es : List ClientCalls.Event) : Prop :=
  Consistent cell es ∧ es.foldl leaves cell = some c

theorem stores_append {c : Conn} {es es' : List ClientCalls.Event} (h : Consistent cell es)
    (h' : Stores (es.foldl leaves cell) c es') : Stores cell c (es ++ es') := by
  refine ⟨consistent_append.mpr ⟨h, h'.1⟩, ?_⟩
  rw [List.foldl_append]
  exact h'.2

theorem exists_reply (o : ClientIO.Op) (cell : Option Conn) :
    ∃ r, Consistent cell (callsOf [(⟨o, r⟩ : ClientIO.Event)]) := by
  obtain ⟨r⟩ := ClientIO.reply_nonempty o
  cases o with
  | wait ts a => exact ⟨r, trivial⟩
  | call c =>
      cases c with
      | loadStream => exact ⟨cell, .inl rfl, trivial⟩
      | _ => exact ⟨r, trivial, trivial⟩

/-- A task goes on to some end, whatever is in the cell. -/
theorem exists_consistent_run {α : Type} (t : Task ClientIO ClientFields α)
    (cell : Option Conn) : ∃ es s a, t.Run es s a ∧ Consistent cell (callsOf es) := by
  induction t generalizing cell with
  | done s a => exact ⟨[], s, a, .done, trivial⟩
  | await s o k ih =>
      obtain ⟨r, hr⟩ := exists_reply o cell
      obtain ⟨es, s', a, hrun, hes⟩ :=
        ih r ((callsOf [(⟨o, r⟩ : ClientIO.Event)]).foldl leaves cell)
      refine ⟨[⟨o, r⟩] ++ es, s', a, .await hrun, ?_⟩
      rw [callsOf_append]
      exact consistent_append.mpr ⟨hr, hes⟩

theorem withLock_run (m : Mutex) (body : ClientCall) (r : body.Reply) :
    (withLock m body fields : Task ClientIO _ (Except Error _)).Run
      [⟨.wait [] (.lock m), .inr ()⟩, ⟨.call body, r⟩, ⟨.call (.unlock m), ()⟩] fields (.ok r) :=
  .await (.await (.await .done))

/-- The stream is stored; no ping task is found, and none is started. -/
theorem useStream_succeeds (c : Conn) :
    ∃ es, (useStream c fields).Run es fields (.ok ()) ∧
      ∀ cell, Stores cell c (callsOf es) := by
  have hstop : (PingState.stopPingTask fields : Task ClientIO _ (Except Error Unit)).Run
      [⟨.call (.tryLock .shouldStop), false⟩, ⟨.call (.tryLock .taskHandle), false⟩] fields
      (.ok ()) := .await (.await .done)
  have hrest : ∃ es, ((do
      let self ← Async.get
      if self.keepAlive then
        if ← PingState.isEnabled then
          PingState.startPingTask : Async ClientIO ClientFields Error Unit) fields).Run es fields
        (.ok ()) ∧ ∀ c, Stores (some c) c (callsOf es) := by
    rw [Async.get_bind_apply]
    cases hkeep : fields.keepAlive with
    | false => exact ⟨[], .done, fun _ => ⟨trivial, rfl⟩⟩
    | true =>
        refine ⟨_, Async.run_bind (Async.run_bind (withLock_run .config .loadConfig ⟨0, false⟩)
          .done) .done, fun _ => ?_⟩
        simp [Stores, Consistent, finds, leaves]
  obtain ⟨es, hrest, hes⟩ := hrest
  refine ⟨_, Async.run_bind (withLock_run .stream (.setStream (some c)) ())
    (Async.run_bind hstop hrest), fun cell => ?_⟩
  rw [callsOf_append, callsOf_append]
  refine stores_append ⟨trivial, trivial, trivial⟩ (stores_append ⟨trivial, trivial, trivial⟩ ?_)
  exact hes c

/-- `connect` can succeed, unless the domain of a `ClientTLS` is still to be set. -/
theorem connect_succeeds (hK : K ≠ .tls ClientKind.placeholderDomain false) :
    ∃ es, (connect K fields).Run es fields (.ok ()) ∧ ∀ cell, Stores cell 0 (callsOf es) := by
  have hwrap : ∃ es, (K.wrapStream 0 fields).Run es fields (.ok ()) ∧ callsOf es = [] := by
    cases K with
    | tl => exact ⟨[], .done, rfl⟩
    | tls domain acceptInvalidCerts =>
        exact ⟨[⟨.wait [] (.tlsConnect 0), .inr (.ok ())⟩], .await .done, rfl⟩
  have hbuild : ∃ es, (K.buildConnector fields).Run es fields (.ok ()) ∧
      ∀ cell, Consistent cell (callsOf es) := by
    cases K with
    | tl => exact ⟨[], .done, fun _ => trivial⟩
    | tls domain acceptInvalidCerts =>
        exact ⟨[⟨.call .buildConnector, .ok ()⟩], .await .done, fun _ => ⟨trivial, trivial⟩⟩
  obtain ⟨es₁, hbuild, hcalls₁⟩ := hbuild
  obtain ⟨es₂, hwrap, hcalls₂⟩ := hwrap
  obtain ⟨es₃, huse, hcalls₃⟩ : ∃ es, (useStream 0 fields).Run es fields (.ok ()) ∧
      ∀ cell, Stores cell 0 (callsOf es) := useStream_succeeds 0
  have hloop (tries : Nat) : (connectLoop K (tries + 1) fields).Run
      (⟨.wait [.connect] .tcpConnect, .inr (.ok 0)⟩ :: (es₂ ++ es₃)) fields (.ok ()) := by
    rw [connectLoop, Async.bind_apply, Async.timeout, Async.wait, Task.timeout]
    exact .await (Async.run_bind hwrap huse)
  have hinner : ((do K.buildConnector; connectLoop K defaultMaxConnectRetries) fields).Run
      (es₁ ++ _) fields (.ok ()) := Async.run_bind hbuild (hloop 9)
  obtain ⟨es, htimed, hcalls⟩ := hinner.timeout .connectTotal
  have hcheck : (K.checkDomain fields).Run [] fields (.ok ()) := by
    cases K with
    | tl => exact .done
    | tls domain acceptInvalidCerts =>
        have hset : ¬(domain = ClientKind.placeholderDomain ∧ acceptInvalidCerts = false) := by
          rintro ⟨rfl, rfl⟩
          exact hK rfl
        rw [ClientKind.checkDomain, if_neg hset]
        exact .done
  refine ⟨es, Async.run_bind hcheck ?_, fun cell => ?_⟩
  · exact Task.run_bind_iff.mpr ⟨es, [], fields, _, (List.append_nil _).symm, htimed, .done⟩
  · rw [hcalls, callsOf_append, callsOf_wait, callsOf_append, hcalls₂, List.nil_append]
    exact stores_append (hcalls₁ cell) (hcalls₃ _)

theorem ensureConnected_succeeds
    (h : K ≠ .tls ClientKind.placeholderDomain false ∨
      (fields.keepAlive = true ∧ cell ≠ none)) :
    ∃ es c, (ensureConnected K fields).Run es fields (.ok ()) ∧ Stores cell c (callsOf es) := by
  have hload : (withLock .stream .loadStream fields : Task ClientIO _ (Except Error _)).Run _
      fields (.ok cell) := withLock_run .stream .loadStream cell
  have hfound : Consistent cell [⟨.loadStream, cell⟩, ⟨.unlock .stream, ()⟩] :=
    ⟨.inl rfl, trivial, trivial⟩
  rw [ensureConnected, Async.get_bind_apply]
  cases hkeep : fields.keepAlive with
  | false =>
      obtain ⟨es, hrun, hstores⟩ := connect_succeeds (h.resolve_right (by simp [hkeep]))
      exact ⟨es, 0, hrun, hstores cell⟩
  | true =>
      cases cell with
      | some c => exact ⟨_, c, Async.run_bind hload .done, hfound, rfl⟩
      | none =>
          obtain ⟨es, hrun, hstores⟩ := connect_succeeds (h.resolve_right (by simp))
          refine ⟨_, 0, Async.run_bind hload hrun, ?_⟩
          rw [callsOf_append]
          exact stores_append hfound (hstores _)

/-- A `handle_message` that can connect, or need not, comes to its exchange, whatever the
outcome of that is. -/
theorem handleMessage_exchanges (command : UInt32) (requestData : List UInt8)
    (h : K ≠ .tls ClientKind.placeholderDomain false ∨
      (fields.keepAlive = true ∧ cell ≠ none))
    (buffer : ByteVec) (result : Except Error (List UInt8)) :
    ∃ es fields' r c, (handleMessage K command requestData fields).Run es fields' r ∧
      Consistent cell (callsOf es) ∧
      (⟨.wait [] (.exchange c (.request command requestData fields.commandHasAnswer
        fields.maxBufferSize) fields.buffer), .inr (buffer, result)⟩ : ClientIO.Event) ∈ es := by
  obtain ⟨es, c, hconnected, hes, hcell⟩ := ensureConnected_succeeds h
  -- the exchange is reached whatever the rest of the call then does
  have hreached : ∃ rest : Task ClientIO ClientFields (Except Error (List UInt8)),
      ∀ es' fields' r, rest.Run es' fields' r →
        (handleMessage K command requestData fields).Run
          (es ++ ⟨.wait [] (.lock .inFlight), .inr ()⟩ :: ⟨.wait [] (.lock .stream), .inr ()⟩ ::
            ⟨.call .loadStream, some c⟩ :: ⟨.wait [] (.exchange c (.request command requestData
              fields.commandHasAnswer fields.maxBufferSize) fields.buffer),
              .inr (buffer, result)⟩ :: es') fields' r :=
    ⟨_, fun es' fields' r hrest =>
      Async.run_bind hconnected (.await (.await (.await (.await hrest))))⟩
  obtain ⟨rest, hreached⟩ := hreached
  obtain ⟨es', fields', r, hrest, hes'⟩ := exists_consistent_run rest (some c)
  refine ⟨_, fields', r, c, hreached es' fields' r hrest, ?_, by simp⟩
  rw [callsOf_append, consistent_append, hcell]
  exact ⟨hes, .inl rfl, hes'⟩

/-- A call that cannot connect, and would have to, ends before it comes to an exchange. -/
theorem handleMessage_unset (command : UInt32) (requestData : List UInt8)
    (h : fields.keepAlive = false ∨ cell = none) {es : List ClientIO.Event}
    {fields' : ClientFields} {r : Except Error (List UInt8)}
    (hrun : (handleMessage (.tls ClientKind.placeholderDomain false) command requestData
      fields).Run es fields' r) (hes : Consistent cell (callsOf es)) :
    ∀ ts c x buffer r', (⟨.wait ts (.exchange c x buffer), r'⟩ : ClientIO.Event) ∉ es := by
  rw [handleMessage, Async.bind_apply, ensureConnected, Async.get_bind_apply] at hrun
  cases hkeep : fields.keepAlive with
  | false =>
      rw [hkeep] at hrun
      obtain ⟨rfl, -, -⟩ := Task.run_done_iff.mp hrun
      simp
  | true =>
      obtain rfl := h.resolve_left (by simp [hkeep])
      rw [hkeep] at hrun
      obtain ⟨i | r₁, es₁, rfl, hrun₁⟩ := Task.run_await_iff.mp hrun
      · exact i.elim0
      obtain ⟨v, es₂, rfl, hrun₂⟩ := Task.run_await_iff.mp hrun₁
      obtain ⟨r₃, es₃, rfl, hrun₃⟩ := Task.run_await_iff.mp hrun₂
      obtain rfl : v = none := or_self_iff.mp hes.1
      obtain ⟨rfl, -, -⟩ := Task.run_done_iff.mp hrun₃
      simp

theorem declaresSize_iff {command : UInt32} {requestData : List UInt8} :
    DeclaresSize K command requestData fields cell ↔
      requestData.length < 2 ^ 32 ∨
        (K = .tls ClientKind.placeholderDomain false ∧
          (fields.keepAlive = false ∨ cell = none)) := by
  rw [← declaredSize_iff]
  constructor
  · intro h
    by_contra hnot
    rw [not_or, not_and_or] at hnot
    obtain ⟨hsize, hunset⟩ := hnot
    have hcan : K ≠ .tls ClientKind.placeholderDomain false ∨
        (fields.keepAlive = true ∧ cell ≠ none) := by
      refine hunset.imp_right fun hstored => ?_
      rw [not_or, Bool.not_eq_false] at hstored
      exact hstored
    obtain ⟨es', buffer', r', hrun', hwritten⟩ := ClientKind.request_writes K command
      requestData fields.commandHasAnswer fields.maxBufferSize fields.buffer
    obtain ⟨es, fields', r, c, hrun, hes, hmem⟩ :=
      handleMessage_exchanges command requestData hcan buffer' r'
    exact hsize (h es fields' r hrun hes _ _ _ _ _ _ hmem es' hrun' ⟨command, _⟩ hwritten)
  · rintro (hsize | ⟨rfl, hunset⟩) es fields' r hrun hes ts c x buffer buffer' r' hmem es' hrun'
      header hheader
    · obtain ⟨answer, m, rfl⟩ := (among_handleMessage fields).run hrun _ hmem
      rw [ClientKind.request_header hrun' hheader, hsize]
    · exact absurd hmem (handleMessage_unset command requestData hunset hrun hes _ _ _ _ _)

end Client

theorem FramedServer.declaresSize_iff {status : UInt8} {buf : List UInt8} {s : FramedServer} :
    DeclaresSize sendData status buf s ↔ buf.length < 2 ^ 32 := by
  rw [← declaredSize_iff]
  constructor
  · intro h
    obtain ⟨es, s', hrun, -, hsent⟩ := sendData_answered status buf 1 s
    exact h es s' _ hrun ⟨status, _⟩ (hsent ▸ List.prefix_append _ _)
  · intro hsize es s' r hrun header hheader
    rw [sendData_header hrun hheader, hsize]

/-! ### The four functions that send a payload -/

/-- Every header that is written declares the size of its payload if and only if the
payload is shorter than `2 ^ 32` bytes; a call that never comes to its header aside, which
is one of a `ClientTLS` that has to connect and does not know for which domain. -/
theorem payload_declared_iff (payload : List UInt8) (command : UInt32) (fields : ClientFields)
    (cell : Option Conn) (domain : String) (acceptInvalidCerts : Bool) (status : UInt8)
    (s : FramedServer) :
    (Client.DeclaresSize .tl command payload fields cell ↔ payload.length < 2 ^ 32) ∧
    (Client.DeclaresSize (.tls domain acceptInvalidCerts) command payload fields cell ↔
      payload.length < 2 ^ 32 ∨
        ((domain = ClientKind.placeholderDomain ∧ acceptInvalidCerts = false) ∧
          (fields.keepAlive = false ∨ cell = none))) ∧
    (FramedServer.DeclaresSize ServerTL.sendData status payload s ↔ payload.length < 2 ^ 32) ∧
    (FramedServer.DeclaresSize ServerTLS.sendData status payload s ↔ payload.length < 2 ^ 32) := by
  refine ⟨?_, ?_, FramedServer.declaresSize_iff, FramedServer.declaresSize_iff⟩
  · rw [Client.declaresSize_iff]
    simp
  · rw [Client.declaresSize_iff, ClientKind.tls.injEq]

/-- A reply of `2 ^ 32` bytes is sent whole, behind a header that declares none; and so
is a request. -/
theorem long_payload_undeclared :
    (∃ es s', (ServerTL.sendData 1 (some (List.replicate (2 ^ 32) 0)) .new :
        Task (Net Interface.empty) _ _).Run es s' (.ok ()) ∧
      sent es = ResponseHeader.encode ⟨1, 0⟩ false ++ List.replicate (2 ^ 32) 0) ∧
    ¬FramedServer.DeclaresSize ServerTL.sendData 1 (List.replicate (2 ^ 32) 0) .new ∧
    ¬Client.DeclaresSize .tl 7 (List.replicate (2 ^ 32) 0)
      ⟨true, .withCapacity 8, 8, {}, true⟩ none := by
  have hsize : FramedServer.dataSizeOf (some (List.replicate (2 ^ 32) 0)) = 0 := by
    rw [FramedServer.dataSizeOf, Option.getD_some, List.length_replicate]
    rfl
  have hlong : ¬(List.replicate (2 ^ 32) (0 : UInt8)).length < 2 ^ 32 := by
    rw [List.length_replicate]
    exact Nat.lt_irrefl _
  refine ⟨?_, fun h => hlong (FramedServer.declaresSize_iff.mp h), fun h => ?_⟩
  · obtain ⟨es, s', hrun, -, hsent⟩ :=
      FramedServer.sendData_answered 1 (List.replicate (2 ^ 32) 0) 1 .new
    exact ⟨es, s', hrun, by rw [hsent, hsize]; rfl⟩
  · rcases Client.declaresSize_iff.mp h with hlt | ⟨hkind, -⟩
    · exact hlong hlt
    · cases hkind

end Wagonet
