import Wagonet.ClientScripts
import Wagonet.Session

/-!
The scripts of one operation of a session, on both sides.

`Plan` says what the scripts of the two parties have to be for one another, and
there is a plan for every operation. What the plan promises survives every
step, since a step only takes away from the front of a script.
-/

namespace Wagonet

open Library

namespace Session

/-- The scripts of a session. -/
abbrev ClientScript := List (Token Timer Interface.empty)

abbrev ServerScript := List (Token Timer Handler)

/-! ### Requests in a script -/

/-- The requests a script still hands to the command handler. -/
def entering (b : ServerScript) : List (UInt32 × List UInt8) :=
  b.filterMap fun
    | .call (.enter command data) _ => some (command, data)
    | _ => none

@[simp] theorem entering_nil : entering [] = [] := rfl

@[simp] theorem entering_append (b b' : ServerScript) :
    entering (b ++ b') = entering b ++ entering b' := List.filterMap_append

@[simp] theorem entering_map_send (bs : List UInt8) :
    entering (bs.map .send) = [] := by
  simp [entering, List.filterMap_map]

@[simp] theorem entering_map_recv (bs : List UInt8) :
    entering (bs.map .recv) = [] := by
  simp [entering, List.filterMap_map]

theorem entering_of_suffix {b b' : ServerScript} (h : b' <:+ b) (hb : entering b = []) :
    entering b' = [] := by
  obtain ⟨x, rfl⟩ := h
  exact (List.append_eq_nil_iff.mp (by simpa using hb)).2

/-- The answers in the script are those of the command handler, after the requests
it has seen. -/
def Coherent (handler : CommandHandler) : List (UInt32 × List UInt8) → ServerScript → Prop
  | _, [] => True
  | past, .call (.enter command data) _ :: b => Coherent handler (past ++ [(command, data)]) b
  | past, .call .leave result :: b => result = handler past ∧ Coherent handler past b
  | past, _ :: b => Coherent handler past b

section

variable {handler : CommandHandler} {past : List (UInt32 × List UInt8)}

@[simp] theorem coherent_send_cons (c : UInt8) (b : ServerScript) :
    Coherent handler past (.send c :: b) = Coherent handler past b := rfl

@[simp] theorem coherent_recv_cons (c : UInt8) (b : ServerScript) :
    Coherent handler past (.recv c :: b) = Coherent handler past b := rfl

@[simp] theorem coherent_flush_cons (b : ServerScript) :
    Coherent handler past (.flush :: b) = Coherent handler past b := rfl

theorem coherent_append {b b' : ServerScript} :
    Coherent handler past (b ++ b') ↔
      Coherent handler past b ∧ Coherent handler (past ++ entering b) b' := by
  induction b generalizing past with
  | nil => simp [Coherent]
  | cons x b ih =>
      match x with
      | .send _ => exact ih
      | .recv _ => exact ih
      | .flush => exact ih
      | .eof => exact ih
      | .lapse _ => exact ih
      | .call (.enter command data) _ =>
          simp only [List.cons_append, Coherent, ih, List.append_assoc]
          rfl
      | .call .leave result =>
          simp only [List.cons_append, Coherent, ih, and_assoc]
          rfl

/-- A script without calls is coherent. -/
theorem coherent_of_silent {b : ServerScript} (h : ∀ c r, .call c r ∉ b) :
    Coherent handler past b := by
  induction b with
  | nil => trivial
  | cons x b ih =>
      have hb := ih fun c r hmem => h c r (List.mem_cons_of_mem _ hmem)
      match x with
      | .send _ => exact hb
      | .recv _ => exact hb
      | .flush => exact hb
      | .eof => exact hb
      | .lapse _ => exact hb
      | .call c r => exact absurd List.mem_cons_self (h c r)

theorem entering_of_silent {b : ServerScript} (h : ∀ c r, .call c r ∉ b) : entering b = [] := by
  refine List.filterMap_eq_nil_iff.mpr fun x hx => ?_
  match x with
  | .send _ => rfl
  | .recv _ => rfl
  | .flush => rfl
  | .eof => rfl
  | .lapse _ => rfl
  | .call c r => exact absurd hx (h c r)

end

/-! ### Scripts without waits -/

section

variable {C : Interface}

/-- The script has no wait that ends without bytes. -/
def Active (toks : List (Token Timer C)) : Prop := ∀ x ∈ toks, x.isWait = false

@[simp] theorem active_nil : Active ([] : List (Token Timer C)) := nofun

@[simp] theorem active_cons {x : Token Timer C} {a : List (Token Timer C)} :
    Active (x :: a) ↔ x.isWait = false ∧ Active a := List.forall_mem_cons

@[simp] theorem active_append {a b : List (Token Timer C)} :
    Active (a ++ b) ↔ Active a ∧ Active b := List.forall_mem_append

@[simp] theorem active_map_send (bs : List UInt8) :
    Active (bs.map .send : List (Token Timer C)) := by
  simp [Active, Token.isWait]

@[simp] theorem active_map_recv (bs : List UInt8) :
    Active (bs.map .recv : List (Token Timer C)) := by
  simp [Active, Token.isWait]

theorem Active.closing {a b : List (Token Timer C)} (ha : Active a) (hb : Closing b) :
    Closing (a ++ b) := by
  induction a with
  | nil => exact hb
  | cons x a ih =>
      refine ⟨fun hx => ?_, ih fun y hy => ha y (List.mem_cons_of_mem _ hy)⟩
      rw [ha x List.mem_cons_self] at hx
      cases hx

theorem Active.eof_not_mem {a : List (Token Timer C)} (ha : Active a) : .eof ∉ a :=
  fun h => nomatch ha _ h

theorem Active.lapse_not_mem {a : List (Token Timer C)} (ha : Active a) (T : Timer) :
    .lapse T ∉ a := fun h => nomatch ha _ h

end

/-- The scripts `a` and `b` can be followed side by side: neither party waits for an
event that the other one keeps from coming. `tail` are the moves the client leaves
out at the end, `keep` says whether the server goes on after its script. -/
structure Compatible (a : ClientScript) (b : ServerScript) (tail : List Move) (keep : Bool) :
    Prop where
  closing_left : Closing a
  closing_right : Closing b
  waits : ∀ x ∈ a, x.isWait = true → tail = []
  eof_left : .eof ∈ a → keep = false ∧ .eof ∉ b
  eof_right : .eof ∈ b → keep = false
  lapse_left : ∀ T, .lapse T ∈ a → keep = true
  lapse_right : ∀ T, .lapse T ∉ b
  tail_recv : ∀ d, .send d ∉ tail

namespace Compatible

variable {a a' : ClientScript} {b b' : ServerScript} {tail : List Move} {keep : Bool}

theorem suffix (h : Compatible a b tail keep) (ha : a' <:+ a) (hb : b' <:+ b) :
    Compatible a' b' tail keep where
  closing_left := by
    obtain ⟨x, rfl⟩ := ha
    exact h.closing_left.of_append
  closing_right := by
    obtain ⟨x, rfl⟩ := hb
    exact h.closing_right.of_append
  waits x hx := h.waits x (ha.subset hx)
  eof_left hx := (h.eof_left (ha.subset hx)).imp id fun hn hy => hn (hb.subset hy)
  eof_right hx := h.eof_right (hb.subset hx)
  lapse_left T hx := h.lapse_left T (ha.subset hx)
  lapse_right T hx := h.lapse_right T (hb.subset hx)
  tail_recv := h.tail_recv

theorem calm (ha : Active a) (hb : Active b) (ht : ∀ d, .send d ∉ tail) :
    Compatible a b tail keep where
  closing_left := List.append_nil a ▸ ha.closing trivial
  closing_right := List.append_nil b ▸ hb.closing trivial
  waits x hx hw := by
    rw [ha x hx] at hw
    cases hw
  eof_left hx := absurd hx ha.eof_not_mem
  eof_right hx := absurd hx hb.eof_not_mem
  lapse_left T hx := absurd hx (ha.lapse_not_mem T)
  lapse_right := hb.lapse_not_mem
  tail_recv := ht

/-- The client waits for the server to close the stream. -/
theorem eofLeft (ha : Active a) (hb : Active b) : Compatible (a ++ [.eof]) b [] false where
  closing_left := ha.closing ⟨fun _ => rfl, trivial⟩
  closing_right := List.append_nil b ▸ hb.closing trivial
  waits _ _ _ := rfl
  eof_left _ := ⟨rfl, hb.eof_not_mem⟩
  eof_right _ := rfl
  lapse_left T hx := absurd (by simpa using hx) (ha.lapse_not_mem T)
  lapse_right := hb.lapse_not_mem
  tail_recv := nofun

/-- The server waits for the client to close the stream. -/
theorem eofRight (ha : Active a) (hb : Active b) (ht : ∀ d, .send d ∉ tail) :
    Compatible a (b ++ [.eof]) tail false where
  closing_left := List.append_nil a ▸ ha.closing trivial
  closing_right := hb.closing ⟨fun _ => rfl, trivial⟩
  waits x hx hw := by
    rw [ha x hx] at hw
    cases hw
  eof_left hx := absurd hx ha.eof_not_mem
  eof_right _ := rfl
  lapse_left T hx := absurd hx (ha.lapse_not_mem T)
  lapse_right T hx := hb.lapse_not_mem T (by simpa using hx)
  tail_recv := ht

/-- The client waits for a timer, and the server for the next request. -/
theorem lapse (ha : Active a) (hb : Active b) (T : Timer) :
    Compatible (a ++ [.lapse T]) b [] true where
  closing_left := ha.closing ⟨fun _ => rfl, trivial⟩
  closing_right := List.append_nil b ▸ hb.closing trivial
  waits _ _ _ := rfl
  eof_left hx := absurd (by simpa using hx) ha.eof_not_mem
  eof_right hx := absurd hx hb.eof_not_mem
  lapse_left _ _ := rfl
  lapse_right := hb.lapse_not_mem
  tail_recv := nofun

/-- A server that goes on after its script waits for nothing but requests. -/
theorem active (h : Compatible a b tail true) : Active b := by
  intro x hx
  match x with
  | .send _ => rfl
  | .recv _ => rfl
  | .flush => rfl
  | .call _ _ => rfl
  | .eof => exact absurd (h.eof_right hx) nofun
  | .lapse T => exact absurd hx (h.lapse_right T)

/-- The server has something left to do from before. -/
theorem after (h : Compatible a b tail keep) (hb : Active b') :
    Compatible a (b' ++ b) tail keep where
  closing_left := h.closing_left
  closing_right := hb.closing h.closing_right
  waits := h.waits
  eof_left hx := ⟨(h.eof_left hx).1, by simpa [hb.eof_not_mem] using (h.eof_left hx).2⟩
  eof_right hx := h.eof_right (by simpa [hb.eof_not_mem] using hx)
  lapse_left := h.lapse_left
  lapse_right T hx := h.lapse_right T (by simpa [hb.lapse_not_mem T] using hx)
  tail_recv := h.tail_recv

end Compatible

/-- Where the client has nothing left to do but `tail`, no request is left in the
server's script. -/
def Settled (tail : List Move) (b : ServerScript) : Prop :=
  ∀ l ab ba, l <:+ b → InFlight tail (moves l) ab ba → entering l = []

theorem settled_of_split {tail : List Move} {pre post : ServerScript}
    (hpost : entering post = []) (h : ∀ x ab ba, ¬InFlight tail (x ++ moves post) ab ba) :
    Settled tail (pre ++ post) := by
  intro l ab ba hl hnet
  rcases List.suffix_or_suffix_of_suffix hl (List.suffix_append pre post) with h' | ⟨x, rfl⟩
  · exact entering_of_suffix h' hpost
  · exact absurd (by simpa using hnet) (h (moves x) ab ba)

theorem settled_of_entering {tail : List Move} {b : ServerScript} (h : entering b = []) :
    Settled tail b := fun _ _ _ hl _ => entering_of_suffix hl h

/-! ### Plans -/

/-- A request that the server accepts declares its size, and is not taken for a ping. -/
def Op.Sound (serverMax : Nat) : Op → Prop
  | .call command data => declaredSize data ≤ serverMax →
      if command = Command.ping then declaredSize data ≠ 0 else data.length < 2 ^ 32
  | .ping => True

/-- A response that the client reads to its end declares its size. -/
def Declared (handler : CommandHandler) (clientMax : Nat) : Prop :=
  ∀ requests, (responseOf (handler requests)).1 = 1 →
    declaredSize (responseOf (handler requests)).2 ≤ clientMax →
    (responseOf (handler requests)).2.length < 2 ^ 32

/-- The scripts of an operation after the command handler has seen the requests `past`. -/
structure Plan (handler : CommandHandler) (clientMax serverMax : Nat)
    (past : List (UInt32 × List UInt8)) (op : Op) (a : ClientScript) (b : ServerScript)
    (tail : List Move) (keep : Bool) : Prop where
  client : ∀ buffer, Follows ProbeOnly (op.program clientMax buffer) a
    fun _ r => r = expected handler clientMax serverMax past op
  server : ∀ transport : FramedServer, transport.maxBufferSize = serverMax →
    Follows ProbeOnly (ProtocolHandler.handleNext transport) b
      (ProtocolHandler.CycleEnds serverMax keep)
  dual : moves b = (moves a ++ tail).map .dual
  compatible : Compatible a b tail keep
  keeps : ∀ v, expected handler clientMax serverMax past op = .ok v → keep = true ∧ tail = []
  probes : ∀ T, .lapse T ∈ a → op = .ping
  coherent : Coherent handler past b
  entering_eq : entering b = (op.request serverMax).toList
  settled : ∀ b₀, entering b₀ = [] → Settled tail (b₀ ++ b)
  unread : ∀ v, expected handler clientMax serverMax past op = .ok v →
    ∀ x l, l <:+ x ++ moves b → (∀ d, .send d ∉ l) → l <:+ (leftover op v).map .recv

section

variable {handler : CommandHandler} {clientMax serverMax : Nat}
  {past : List (UInt32 × List UInt8)}

theorem plan_ping : ∃ a b tail keep, Plan handler clientMax serverMax past .ping a b tail keep := by
  refine ⟨Ping.script, ProtocolHandler.controlScript ⟨Command.ping, 0⟩ serverMax, [], true, ?_⟩
  have hb : ProtocolHandler.controlScript ⟨Command.ping, 0⟩ serverMax =
      (RequestHeader.encode ⟨Command.ping, 0⟩).map .recv ++ [.send 1, .flush] := by
    simp [ProtocolHandler.controlScript, FramedServer.statusTokens]
  exact
    { client := fun buffer => by
        rw [← List.append_nil Ping.script]
        refine .seq (P := fun _ _ => True) (Ping.follows_exchange.mono ?_) ?_
        · rintro s r rfl
          exact ⟨(), rfl, trivial⟩
        · intro s _ _
          exact ⟨rfl, rfl⟩
      server := by
        rintro transport rfl
        exact ProtocolHandler.follows_handleNext_control (.inr rfl)
      dual := by
        rw [hb]
        simp [Ping.script, List.map_map, Function.comp_def]
      compatible := by
        rw [hb, Ping.script, ← List.append_assoc, ← List.append_assoc]
        exact .lapse (by simp [Token.isWait]) (by simp [Token.isWait]) _
      keeps := fun _ _ => ⟨rfl, rfl⟩
      probes := fun _ _ => rfl
      coherent := by
        rw [hb]
        exact coherent_of_silent (by simp)
      entering_eq := by
        rw [hb]
        exact entering_of_silent (by simp)
      settled := fun b₀ h₀ => settled_of_entering (by
        rw [hb, entering_append, h₀]
        exact entering_of_silent (by simp))
      unread := by
        intro v hv x l hl hsend
        rw [hb, moves_append, moves_map_recv, ← List.append_assoc] at hl
        cases hv
        exact Move.suffix_of_sendless (List.cons_ne_nil 1 []) hl hsend }

variable {command : UInt32} {data : List UInt8}

/-- The server does not accept the size of the request. -/
theorem plan_oversized (h : declaredSize data > serverMax) :
    ∃ a b tail keep, Plan handler clientMax serverMax past (.call command data) a b tail keep := by
  have hexp : expected handler clientMax serverMax past (.call command data) =
      .error (.io .unexpectedEof) := by
    simp [expected, h]
  have hb : ProtocolHandler.controlScript ⟨command, UInt32.ofNat data.length⟩ serverMax =
      (RequestHeader.encode ⟨command, UInt32.ofNat data.length⟩).map .recv := by
    have h' : (RequestHeader.mk command (UInt32.ofNat data.length)).dataSize.toNat > serverMax := h
    rw [ProtocolHandler.controlScript, FramedServer.statusTokens, if_pos h', List.append_nil]
  refine ⟨ClientExchange.openScript command data ++ [.eof],
    (RequestHeader.encode ⟨command, UInt32.ofNat data.length⟩).map .recv, [], false, ?_⟩
  exact
    { client := fun buffer => by
        rw [hexp]
        exact ClientExchange.follows_exchange_eof
      server := by
        rintro transport rfl
        have hserver := ProtocolHandler.follows_handleNext_control
          (show (RequestHeader.mk command (UInt32.ofNat data.length)).dataSize.toNat >
              transport.maxBufferSize ∨ _ from .inl h)
        have hkeep : decide (declaredSize data = 0 ∧
            declaredSize data ≤ transport.maxBufferSize) = false :=
          decide_eq_false fun hk => Nat.not_le.mpr h hk.2
        rw [hb] at hserver
        exact hkeep ▸ hserver
      dual := by simp [ClientExchange.openScript]
      compatible := .eofLeft (by simp [ClientExchange.openScript, Token.isWait]) (by simp)
      keeps := by
        rw [hexp]
        simp
      probes := by simp [ClientExchange.openScript]
      coherent := coherent_of_silent (by simp)
      entering_eq := by
        simp [Op.request, Nat.not_le.mpr h]
      settled := fun b₀ h₀ => settled_of_entering (by simp [h₀])
      unread := by
        rw [hexp]
        simp }

/-- The command is that of a ping, but there is a payload. -/
theorem plan_rejected (h : declaredSize data ≤ serverMax) (hd : declaredSize data ≠ 0) :
    ∃ a b tail keep,
      Plan handler clientMax serverMax past (.call Command.ping data) a b tail keep := by
  have hlimit : ¬declaredSize data > serverMax := Nat.not_lt.mpr h
  have hexp : expected handler clientMax serverMax past (.call Command.ping data) =
      .error (.responseError 7) := by
    simp [expected, hlimit]
  have hb : ProtocolHandler.controlScript ⟨Command.ping, UInt32.ofNat data.length⟩ serverMax =
      (RequestHeader.encode ⟨Command.ping, UInt32.ofNat data.length⟩).map .recv ++
        [.send 7, .flush] := by
    have hlimit' : ¬(RequestHeader.mk Command.ping (UInt32.ofNat data.length)).dataSize.toNat >
        serverMax := hlimit
    rw [ProtocolHandler.controlScript, FramedServer.statusTokens, if_neg hlimit',
      if_pos ⟨rfl, hd⟩]
  refine ⟨ClientExchange.openScript Command.ping data ++ [.recv 7],
    (RequestHeader.encode ⟨Command.ping, UInt32.ofNat data.length⟩).map .recv ++
      [.send 7, .flush], [], false, ?_⟩
  exact
    { client := fun buffer => by
        rw [hexp]
        exact ClientExchange.follows_exchange_rejected (by decide)
      server := by
        rintro transport rfl
        have hserver := ProtocolHandler.follows_handleNext_control
          (show (RequestHeader.mk Command.ping (UInt32.ofNat data.length)).dataSize.toNat >
              transport.maxBufferSize ∨ _ from .inr rfl)
        have hkeep : decide (declaredSize data = 0 ∧
            declaredSize data ≤ transport.maxBufferSize) = false :=
          decide_eq_false fun hk => hd hk.1
        rw [hb] at hserver
        exact hkeep ▸ hserver
      dual := by simp [ClientExchange.openScript]
      compatible := .calm (by simp [ClientExchange.openScript, Token.isWait])
        (by simp [Token.isWait]) (by simp)
      keeps := by
        rw [hexp]
        simp
      probes := by simp [ClientExchange.openScript]
      coherent := coherent_of_silent (by simp)
      entering_eq := by
        rw [entering_of_silent (by simp)]
        simp [Op.request]
      settled := fun b₀ h₀ => settled_of_entering (by
        rw [entering_append, h₀]
        exact entering_of_silent (by simp))
      unread := by
        rw [hexp]
        simp }

/-! The request reaches the command handler. -/

theorem coherent_requestScript :
    Coherent handler past (ProtocolHandler.requestScript command data
      (handler (past ++ [(command, data)]))) := by
  rw [ProtocolHandler.requestScript, coherent_append, coherent_append, coherent_append]
  refine ⟨coherent_of_silent (by simp), coherent_of_silent (by simp),
    coherent_of_silent (by simp), ?_⟩
  simp [Coherent, entering_of_silent (b := [.send 1, .flush]) (by simp)]

theorem entering_requestScript {result : CommandResult} :
    entering (ProtocolHandler.requestScript command data result) = [(command, data)] := by
  rw [ProtocolHandler.requestScript, entering_append, entering_append, entering_append,
    entering_of_silent (b := [.send 1, .flush]) (by simp)]
  simp [entering]

theorem moves_requestScript {result : CommandResult} :
    moves (ProtocolHandler.requestScript command data result) =
      (RequestHeader.encode ⟨command, UInt32.ofNat data.length⟩).map .recv ++
        .send 1 :: data.map .recv := by
  simp [ProtocolHandler.requestScript]

theorem moves_headerScript {result : CommandResult} :
    moves (ProtocolHandler.headerScript result) =
      (ResponseHeader.encode ⟨(responseOf result).1,
        UInt32.ofNat (responseOf result).2.length⟩ false).map .send := by
  simp [ProtocolHandler.headerScript, FramedServer.responseHeaderTokens, FramedServer.dataSizeOf]

theorem silent_headerScript {result : CommandResult} :
    ∀ c r, .call c r ∉ ProtocolHandler.headerScript result := by
  simp [ProtocolHandler.headerScript, FramedServer.responseHeaderTokens]

theorem silent_payloadScript {result : CommandResult} :
    ∀ c r, .call c r ∉ ProtocolHandler.payloadScript result := by
  simp [ProtocolHandler.payloadScript]

theorem active_requestScript {result : CommandResult} :
    Active (ProtocolHandler.requestScript command data result) := by
  simp [ProtocolHandler.requestScript, Token.isWait]

theorem active_headerScript {result : CommandResult} :
    Active (ProtocolHandler.headerScript result) := by
  simp [ProtocolHandler.headerScript, FramedServer.responseHeaderTokens, Token.isWait]

theorem active_payloadScript {result : CommandResult} :
    Active (ProtocolHandler.payloadScript result) := by
  simp [ProtocolHandler.payloadScript, Token.isWait]

theorem active_sendScript {C : Interface} :
    Active (ClientExchange.sendScript command data : List (Token Timer C)) := by
  simp [ClientExchange.sendScript, ClientExchange.openScript, Token.isWait]

theorem active_replyScript {C : Interface} {status : UInt8} {payload : List UInt8} :
    Active (ClientExchange.replyScript status payload : List (Token Timer C)) := by
  simp only [ClientExchange.replyScript, active_append]
  split <;> simp [Token.isWait]

theorem moves_sendScript {C : Interface} :
    moves (ClientExchange.sendScript command data : List (Token Timer C)) =
      (RequestHeader.encode ⟨command, UInt32.ofNat data.length⟩).map .send ++
        .recv 1 :: data.map .send := by
  simp [ClientExchange.sendScript, ClientExchange.openScript]

theorem moves_replyScript {C : Interface} {status : UInt8} {payload : List UInt8} :
    moves (ClientExchange.replyScript status payload : List (Token Timer C)) =
      .send 1 :: if status = 1 then payload.map .recv else [] := by
  simp only [ClientExchange.replyScript, moves_append]
  split <;> simp

/-- What a client that sees an error status leaves unread. -/
def tailOf (result : CommandResult) : List Move :=
  if (responseOf result).1 = 1 then [] else (responseOf result).2.map .recv

theorem tailOf_recv {result : CommandResult} (d : UInt8) : .send d ∉ tailOf result := by
  simp only [tailOf]
  split <;> simp

theorem keepsOpen_of_ok {result : CommandResult} (h : (responseOf result).1 = 1) :
    ProtocolHandler.keepsOpen result = true := by
  match result with
  | .error _ => exact absurd h (show ResponseStatus.error.toU8 ≠ 1 by decide)
  | .ok (status, _) =>
      obtain rfl := ResponseStatus.toU8_eq_one_iff.mp h
      rfl

theorem answerOf_ok {result : CommandResult} {v : List UInt8}
    (h : answerOf clientMax result = .ok v) :
    (responseOf result).1 = 1 ∧ v = (responseOf result).2 := by
  simp only [answerOf] at h
  split at h
  · cases h
  · split at h
    · cases h
      exact ⟨‹_›, rfl⟩
    · cases h

/-- The response is not longer than the client allows. -/
theorem plan_answered (h32 : data.length < 2 ^ 32) (h : declaredSize data ≤ serverMax)
    (hc : command ≠ Command.ping) (hdeclared : Declared handler clientMax)
    (hr : declaredSize (responseOf (handler (past ++ [(command, data)]))).2 ≤ clientMax) :
    ∃ a b tail keep, Plan handler clientMax serverMax past (.call command data) a b tail keep := by
  have hlimit : ¬declaredSize data > serverMax := Nat.not_lt.mpr h
  have hr32 := fun hst => hdeclared (past ++ [(command, data)]) hst hr
  have hexp : expected handler clientMax serverMax past (.call command data) =
      answerOf clientMax (handler (past ++ [(command, data)])) := by
    simp [expected, hlimit, hc]
  have hcoh : Coherent handler past (ProtocolHandler.requestScript command data
      (handler (past ++ [(command, data)]))) := coherent_requestScript
  generalize hres : handler (past ++ [(command, data)]) = result at *
  refine ⟨ClientExchange.sendScript command data ++
      (ClientExchange.headerScript (responseOf result).1 (responseOf result).2 ++
        ClientExchange.replyScript (responseOf result).1 (responseOf result).2),
    ProtocolHandler.requestScript command data result ++
      (ProtocolHandler.headerScript result ++ ProtocolHandler.payloadScript result),
    tailOf result, ProtocolHandler.keepsOpen result, ?_⟩
  exact
    { client := fun buffer => by
        rw [hexp, answerOf, if_neg (Nat.not_lt.mpr hr)]
        exact ClientExchange.follows_exchange hr hr32
      server := by
        rintro transport rfl
        exact ProtocolHandler.follows_handleNext_acknowledged hc (declaredSize_of_lt h32 ▸ h) h32
      dual := by
        simp only [moves_append, moves_requestScript, moves_headerScript, moves_sendScript,
          moves_replyScript, tailOf, ProtocolHandler.payloadScript, ClientExchange.headerScript]
        split <;> simp [Function.comp_def]
      compatible := by
        refine .calm ?_ ?_ tailOf_recv
        · simp only [active_append, active_sendScript, active_replyScript,
            ClientExchange.headerScript, active_map_recv, and_self]
        · simp only [active_append, active_requestScript, active_headerScript,
            active_payloadScript, and_self]
      keeps := by
        intro v hv
        have hst := (answerOf_ok (hexp ▸ hv)).1
        exact ⟨keepsOpen_of_ok hst, by rw [tailOf, if_pos hst]⟩
      probes T hT := absurd hT (Active.lapse_not_mem (by
        simp only [active_append, active_sendScript, active_replyScript,
          ClientExchange.headerScript, active_map_recv, and_self]) T)
      coherent := by
        rw [coherent_append, coherent_append]
        exact ⟨hcoh, coherent_of_silent silent_headerScript,
          coherent_of_silent silent_payloadScript⟩
      entering_eq := by
        rw [entering_append, entering_append, entering_requestScript,
          entering_of_silent silent_headerScript, entering_of_silent silent_payloadScript]
        simp [Op.request, hc, h]
      settled := by
        intro b₀ _
        rw [← List.append_assoc]
        refine settled_of_split ?_ fun x ab ba => ?_
        · rw [entering_append, entering_of_silent silent_headerScript,
            entering_of_silent silent_payloadScript]
          rfl
        · rw [moves_append, moves_headerScript]
          exact InFlight.not_send_recv tailOf_recv
      unread := by
        intro v hv x l hl hsend
        obtain ⟨-, rfl⟩ := answerOf_ok (hexp ▸ hv)
        rw [moves_append, moves_append, moves_headerScript, ← List.append_assoc] at hl
        cases hpay : (responseOf result).2 with
        | nil =>
            simp only [ProtocolHandler.payloadScript, hpay, List.map_nil, List.nil_append] at hl
            exact Move.suffix_of_sendless (List.cons_ne_nil _ _) hl hsend
        | cons c cs =>
            rw [ProtocolHandler.payloadScript, hpay] at hl
            have hl' : l <:+ (x ++ moves (ProtocolHandler.requestScript command data result) ++
                (ResponseHeader.encode ⟨(responseOf result).1,
                  UInt32.ofNat (c :: cs).length⟩ false).map .send ++ [.recv 1]) ++
                ((c :: cs).map .send ++ []) := by
              simpa [hpay] using hl
            exact Move.suffix_of_sendless (List.cons_ne_nil c cs) hl' hsend }

/-- The response is longer than the client allows. -/
theorem plan_overflow (h32 : data.length < 2 ^ 32) (h : declaredSize data ≤ serverMax)
    (hc : command ≠ Command.ping)
    (hr : clientMax < declaredSize (responseOf (handler (past ++ [(command, data)]))).2) :
    ∃ a b tail keep, Plan handler clientMax serverMax past (.call command data) a b tail keep := by
  have hlimit : ¬declaredSize data > serverMax := Nat.not_lt.mpr h
  have hexp : expected handler clientMax serverMax past (.call command data) =
      .error (.bufferOverflow
        (declaredSize (responseOf (handler (past ++ [(command, data)]))).2) clientMax) := by
    simp [expected, hlimit, hc, answerOf, hr]
  have hcoh : Coherent handler past (ProtocolHandler.requestScript command data
      (handler (past ++ [(command, data)]))) := coherent_requestScript
  generalize hres : handler (past ++ [(command, data)]) = result at *
  have heof : ∀ c r, .call c r ∉ ([.eof] : ServerScript) := by simp
  refine ⟨ClientExchange.sendScript command data ++
      ClientExchange.headerScript (responseOf result).1 (responseOf result).2,
    ProtocolHandler.requestScript command data result ++
      (ProtocolHandler.headerScript result ++ [.eof]), [], false, ?_⟩
  exact
    { client := fun buffer => by
        rw [hexp]
        exact ClientExchange.follows_exchange_overflow hr
      server := by
        rintro transport rfl
        cases result with
        | ok answer =>
            exact ProtocolHandler.follows_handleNext_unanswered hc (declaredSize_of_lt h32 ▸ h) h32
        | error e => exact absurd hr (Nat.not_lt_zero _)
      dual := by
        simp [moves_requestScript, moves_headerScript, moves_sendScript,
          ClientExchange.headerScript, Function.comp_def]
      compatible := by
        rw [← List.append_assoc]
        refine .eofRight ?_ ?_ (by simp)
        · simp only [active_append, active_sendScript, ClientExchange.headerScript,
            active_map_recv, and_self]
        · simp only [active_append, active_requestScript, active_headerScript, and_self]
      keeps := by
        rw [hexp]
        simp
      probes T hT := absurd hT (Active.lapse_not_mem (by
        simp only [active_append, active_sendScript, ClientExchange.headerScript,
          active_map_recv, and_self]) T)
      coherent := by
        rw [coherent_append, coherent_append]
        exact ⟨hcoh, coherent_of_silent silent_headerScript, coherent_of_silent heof⟩
      entering_eq := by
        rw [entering_append, entering_append, entering_requestScript,
          entering_of_silent silent_headerScript, entering_of_silent heof]
        simp [Op.request, hc, h]
      settled := by
        intro b₀ _
        rw [← List.append_assoc]
        refine settled_of_split ?_ fun x ab ba hnet => ?_
        · rw [entering_append, entering_of_silent silent_headerScript, entering_of_silent heof]
          rfl
        · rw [moves_append, moves_headerScript] at hnet
          have hmem : Move.send (responseOf result).1 ∈ ab.map Move.recv := by
            rw [← hnet.eq_nil_of_left_nil.2]
            simp [ResponseHeader.encode]
          simp at hmem
      unread := by
        rw [hexp]
        simp }

/-- There is a plan for every operation. -/
theorem exists_plan {op : Op} (hop : op.Sound serverMax) (hdeclared : Declared handler clientMax) :
    ∃ a b tail keep, Plan handler clientMax serverMax past op a b tail keep := by
  match op with
  | .ping => exact plan_ping
  | .call command data =>
      by_cases h : declaredSize data ≤ serverMax
      · by_cases hc : command = Command.ping
        · subst hc
          exact plan_rejected h (by simpa using hop h)
        · have h32 : data.length < 2 ^ 32 := by simpa [hc] using hop h
          by_cases hr : declaredSize (responseOf (handler (past ++ [(command, data)]))).2 ≤
              clientMax
          · exact plan_answered h32 h hc hdeclared hr
          · exact plan_overflow h32 h hc (Nat.not_le.mp hr)
      · exact plan_oversized (Nat.not_le.mp h)

end

end Session

end Wagonet
