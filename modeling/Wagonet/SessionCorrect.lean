import Wagonet.SessionProgress

/-!
What a session does for its callers.

Here the calls are those the server accepts and the responses those the client
accepts. Then every call is one run of the command handler, in the order of the
calls, and returns its answer; pings do not show; and the streams are empty
again after every operation, up to the acknowledgement of an empty response,
which the client sends last and does not wait for.
-/

namespace Wagonet

open Library

namespace Session

/-- The request an operation sends. -/
def Op.sends : Op → List (UInt32 × List UInt8)
  | .call command data => [(command, data)]
  | .ping => []

/-- The requests of all calls that have returned, in order. -/
def calls (log : List Entry) : List (UInt32 × List UInt8) := log.flatMap (·.op.sends)

/-- The server accepts the call. -/
def Op.Served (serverMax : Nat) : Op → Prop
  | .call command data => command ≠ Command.ping ∧ data.length ≤ serverMax ∧ data.length < 2 ^ 32
  | .ping => True

def Act.Served (serverMax : Nat) : Act → Prop
  | .start op => op.Served serverMax
  | _ => True

instance decidableServed (serverMax : Nat) : ∀ act : Act, Decidable (act.Served serverMax)
  | .start (.call _ _) => inferInstanceAs (Decidable (_ ∧ _ ∧ _))
  | .start .ping => .isTrue trivial
  | .client _ | .lapse _ | .finish | .server _ | .turn => .isTrue trivial

/-- The client accepts every response. -/
def Accepted (handler : CommandHandler) (clientMax : Nat) : Prop :=
  ∀ requests, (responseOf (handler requests)).2.length ≤ clientMax ∧
    (responseOf (handler requests)).2.length < 2 ^ 32

/-- What an operation returns: a ping nothing, and a call the payload of the command
handler's answer, or the status if that is not Ok. -/
def reply (handler : CommandHandler) (past : List (UInt32 × List UInt8)) :
    Op → Except Error (List UInt8)
  | .ping => .ok []
  | .call command data =>
      let (status, payload) := responseOf (handler (past ++ [(command, data)]))
      if status = 1 then .ok payload else .error (.responseError status)

/-- What holds in every state of a session. -/
structure Correct (handler : CommandHandler) (clientMax serverMax : Nat) (s : Session) :
    Prop where
  /-- every operation has returned the right value, and no operation has followed one
  that failed -/
  returned : ∀ l op r l', s.log = l ++ ⟨op, r⟩ :: l' →
    r = reply handler (calls l) op ∧ (l' ≠ [] → ∃ v, r = .ok v)
  /-- the command handler was run once for each call, in order, and for nothing else -/
  handled : s.handled = calls s.log ∨
    ∃ op, s.current = some op ∧ s.handled = calls s.log ++ op.sends
  /-- between two operations nothing is under way but that acknowledgement -/
  quiet : ∀ buffer, s.client = .idle buffer →
    s.toClient.bytes = [] ∧ s.toServer.bytes <:+ lastLeftover s.log
  /-- the stream is dropped exactly after a failure -/
  dropped : s.client = .dropped ↔ ∃ l op e, s.log = l ++ [⟨op, .error e⟩]
  finishes : ∀ op, s.current = some op → Finishes handler clientMax serverMax s

section

variable {handler : CommandHandler} {clientMax serverMax : Nat} {s : Session} {op : Op}
  {log : List Entry}

theorem Op.Served.sound (h : op.Served serverMax) : op.Sound serverMax := by
  match op with
  | .ping => trivial
  | .call command data =>
      intro _
      rw [if_neg h.1]
      exact h.2.2

theorem Op.Served.request_eq (h : op.Served serverMax) :
    (op.request serverMax).toList = op.sends := by
  match op with
  | .ping => rfl
  | .call command data =>
      have hsize : declaredSize data ≤ serverMax := declaredSize_of_lt h.2.2 ▸ h.2.1
      rw [Op.request, if_pos ⟨h.1, hsize⟩]
      rfl

theorem accepted_eq_calls (h : ∀ e ∈ log, e.op.Served serverMax) :
    accepted serverMax log = calls log := by
  induction log with
  | nil => rfl
  | cons e log ih =>
      have he := (h e List.mem_cons_self).request_eq
      have hlog := ih fun e' he' => h e' (List.mem_cons_of_mem _ he')
      rw [accepted, List.filterMap_cons, calls, List.flatMap_cons, ← he]
      cases hr : e.op.request serverMax with
      | none => exact hlog
      | some r => exact congrArg (r :: ·) hlog

theorem Accepted.declared (h : Accepted handler clientMax) : Declared handler clientMax :=
  fun requests _ _ => (h requests).2

theorem expected_eq_reply (h : Accepted handler clientMax) (hop : op.Served serverMax)
    (past : List (UInt32 × List UInt8)) :
    expected handler clientMax serverMax past op = reply handler past op := by
  match op with
  | .ping => rfl
  | .call command data =>
      obtain ⟨hle, hlt⟩ := h (past ++ [(command, data)])
      have hsize : ¬declaredSize data > serverMax := by
        rw [declaredSize_of_lt hop.2.2]
        exact Nat.not_lt.mpr hop.2.1
      rw [expected, if_neg hsize, if_neg hop.1, answerOf,
        if_neg (by rw [declaredSize_of_lt hlt]; exact Nat.not_lt.mpr hle)]
      rfl

/-- Every operation of the session is one the server accepts. -/
def AllServed (serverMax : Nat) (s : Session) : Prop :=
  (∀ e ∈ s.log, e.op.Served serverMax) ∧ ∀ op, s.current = some op → op.Served serverMax

theorem allServed_of_reachable
    (h : (machine handler clientMax serverMax).Reachable (fun _ act => act.Served serverMax) s) :
    AllServed serverMax s := by
  refine h.invariant (AllServed serverMax) ?_ ?_
  · rintro t ⟨⟨buffer, hclient⟩, -, -, -, -, hlog⟩
    exact ⟨by simp [hlog], by simp [current, hclient]⟩
  · intro t act t' ht hact hs
    by_cases hint : act.Internal
    · obtain ⟨hcurrent, hlog⟩ := frame_of_internal hint hs
      rw [AllServed, hcurrent, hlog]
      exact ht
    · cases act with
      | start op =>
          simp only [machine, step] at hs
          split at hs
          · cases hs
            refine ⟨ht.1, fun op' hop' => ?_⟩
            cases hop'
            exact hact
          · cases hs
      | finish =>
          have hsnoc : ∀ {op : Op} {r : Except Error (List UInt8)}, t.current = some op →
              ∀ e ∈ t.log ++ [⟨op, r⟩], e.op.Served serverMax := by
            intro op r hop e he
            rcases List.mem_append.mp he with he | he
            · exact ht.1 e he
            · obtain rfl := List.mem_singleton.mp he
              exact ht.2 op hop
          simp only [machine, step] at hs
          split at hs
          · rename_i op buffer v hbusy
            cases hs
            exact ⟨hsnoc (by rw [current, hbusy]), by rintro _ ⟨⟩⟩
          · rename_i op buffer e hbusy
            cases hs
            exact ⟨hsnoc (by rw [current, hbusy]), by rintro _ ⟨⟩⟩
          · cases hs
      | client k => exact absurd trivial hint
      | lapse i => exact absurd trivial hint
      | server k => exact absurd trivial hint
      | turn => exact absurd trivial hint

/-- What the invariant says where no operation is under way. -/
theorem Sync.idle {n : Nat} {a : ClientScript} {b : ServerScript} {tail : List Move}
    {keep : Bool} {buffer : ByteVec}
    (h : Sync handler clientMax serverMax s a b tail keep n) (hc : s.client = .idle buffer) :
    s.toClient.bytes = [] ∧ s.toServer.bytes <:+ lastLeftover s.log := by
  have halign := h.client
  rw [hc] at halign
  obtain ⟨rfl, rfl, -, -, -, hleft⟩ := halign
  obtain ⟨hnil, hb⟩ := h.inFlight.eq_nil_of_left_nil
  refine ⟨hnil, ?_⟩
  rw [hb] at hleft
  obtain ⟨x, hx⟩ := hleft
  obtain ⟨y, z, hlast, -, hz⟩ := List.map_eq_append_iff.mp hx.symm
  have hinj : z = s.toServer.bytes :=
    List.map_injective_iff.mpr (fun c d hcd => Move.recv.inj hcd) hz
  exact ⟨y, by rw [← hinj, hlast]⟩

/-- The requests the command handler has seen: all of the finished calls, and that of
the current one before or after the command handler is run. -/
theorem Sync.handled_eq {n : Nat} {a : ClientScript} {b : ServerScript} {tail : List Move}
    {keep : Bool} (h : Sync handler clientMax serverMax s a b tail keep n)
    (hserved : AllServed serverMax s) :
    s.handled = calls s.log ∨ ∃ op, s.current = some op ∧ s.handled = calls s.log ++ op.sends := by
  have halign := h.client
  have hhandled := h.handled
  rw [requests, accepted_eq_calls hserved.1] at hhandled
  cases hc : s.client with
  | idle buffer =>
      rw [hc] at halign hhandled
      obtain ⟨-, -, -, hentering, -⟩ := halign
      rw [hentering, List.append_nil, List.append_nil] at hhandled
      exact .inl hhandled
  | dropped =>
      rw [hc] at halign hhandled
      obtain ⟨-, -, hentering, -⟩ := halign
      rw [hentering, List.append_nil, List.append_nil] at hhandled
      exact .inl hhandled
  | busy op task =>
      have hcurrent : s.current = some op := by rw [current, hc]
      rw [hc] at halign hhandled
      obtain ⟨-, -, -, henters, -⟩ := halign
      dsimp only at hhandled
      rw [(hserved.2 op hcurrent).request_eq] at henters hhandled
      have hcases : entering b = [] ∨ entering b = op.sends := by
        cases op with
        | ping => exact .inl (List.suffix_nil.mp henters)
        | call command data =>
            exact (List.suffix_cons_iff.mp henters).symm.imp_left List.suffix_nil.mp
      rcases hcases with hnil | hall
      · rw [hnil, List.append_nil] at hhandled
        exact .inr ⟨op, hcurrent, hhandled⟩
      · rw [hall] at hhandled
        exact .inl (List.append_cancel_right hhandled)

/-- A session is correct in every state, as long as its calls are those the server
accepts. -/
theorem correct_of_reachable (haccepted : Accepted handler clientMax)
    (h : (machine handler clientMax serverMax).Reachable (fun _ act => act.Served serverMax) s) :
    Correct handler clientMax serverMax s := by
  have hserved := allServed_of_reachable h
  have hinv : Inv handler clientMax serverMax s := by
    refine inv_of_reachable haccepted.declared (h.mono fun t act hact => ?_)
    match act with
    | .start op => exact Op.Served.sound hact
    | .client _ | .lapse _ | .finish | .server _ | .turn => trivial
  have hfinishes : ∀ op, s.current = some op → Finishes handler clientMax serverMax s :=
    fun op => finishes hinv
  obtain ⟨a, b, tail, keep, n, hsync⟩ := hinv
  have halign := hsync.client
  exact
    { returned := by
        intro l op r l' hlog
        obtain ⟨hr, hnext⟩ := hsync.recorded l ⟨op, r⟩ l' hlog
        have hop : op.Served serverMax := hserved.1 ⟨op, r⟩ (by simp [hlog])
        have hl : ∀ e ∈ l, e.op.Served serverMax := fun e he => hserved.1 e (by simp [hlog, he])
        rw [accepted_eq_calls hl, expected_eq_reply haccepted hop] at hr
        exact ⟨hr, hnext⟩
      handled := hsync.handled_eq hserved
      quiet := fun buffer hc => hsync.idle hc
      dropped := by
        constructor
        · intro hc
          rw [hc] at halign
          exact halign.2.2.2
        · rintro ⟨l, op, e, hlog⟩
          have hfailed : ¬Successful s.log := by
            intro hs
            obtain ⟨v, hv⟩ := hs ⟨op, .error e⟩ (by simp [hlog])
            cases hv
          match hc : s.client with
          | .dropped => rfl
          | .idle _ =>
              rw [hc] at halign
              exact absurd halign.2.2.2.2.1 hfailed
          | .busy _ _ =>
              rw [hc] at halign
              exact absurd halign.2.2.2.2.1 hfailed
      finishes := hfinishes }

end

/-- Command 1 with one byte, answered with one byte, and a ping. -/
def callThenPing : List Act :=
  [.start (.call 1 [5]), .client 7, .client 0, .server 7, .server 0, .server 0, .client 0,
    .client 0, .client 0, .server 0, .server 0, .server 0, .server 4, .server 0, .client 4,
    .client 0, .client 0, .server 0, .server 0, .server 0, .turn, .client 0, .finish,
    .start .ping, .client 7, .client 0, .server 7, .server 0, .server 0, .turn, .client 0,
    .lapse 0, .finish]

theorem accepted_replying {payload : List UInt8} {clientMax : Nat} (h : payload.length ≤ clientMax)
    (h32 : payload.length < 2 ^ 32) : Accepted (replying payload) clientMax := fun _ => ⟨h, h32⟩

theorem correct_callThenPing :
    ∃ s, (machine (replying [9]) 16 16).run (established 16) callThenPing = some s ∧
      s.handled = [(1, [5])] ∧ s.log.map (·.op) = [.call 1 [5], .ping] ∧
      Correct (replying [9]) 16 16 s := by
  obtain ⟨s, hs, hproj⟩ := Option.map_eq_some_iff.mp
    (show ((machine (replying [9]) 16 16).run (established 16) callThenPing).map
      (fun s => (s.handled, s.log.map (·.op))) = some ([(1, [5])], [.call 1 [5], .ping]) by
        decide +kernel)
  have hreach : (machine (replying [9]) 16 16).Reachable (fun _ act => act.Served 16) s :=
    .run (.init (fresh_established 16))
      (fun act hact _ => (by decide : ∀ act ∈ callThenPing, act.Served 16) act hact) hs
  obtain ⟨hhandled, hops⟩ := Prod.mk.inj hproj
  exact ⟨s, hs, hhandled, hops,
    correct_of_reachable (accepted_replying (by decide) (by decide)) hreach⟩

/-- Command 1 with one byte, answered with an empty response. -/
def callWithEmptyResponse : List Act :=
  [.start (.call 1 [5]), .client 7, .client 0, .server 7, .server 0, .server 0, .client 0,
    .client 0, .client 0, .server 0, .server 0, .server 0, .server 4, .server 0, .client 4,
    .client 0, .client 0, .finish]

def Client.isIdle : Client → Bool
  | .idle _ => true
  | _ => false

/-- The acknowledgement of an empty response is still under way when the call returns. -/
theorem empty_response_leaves_ack :
    ¬∀ (handler : CommandHandler) (clientMax serverMax : Nat) (s : Session),
      Accepted handler clientMax →
      (machine handler clientMax serverMax).Reachable (fun _ act => act.Served serverMax) s →
        s.client.isIdle = true → s.toServer.bytes = [] ∧ s.toClient.bytes = [] := by
  intro h
  obtain ⟨s, hs, hproj⟩ := Option.map_eq_some_iff.mp
    (show ((machine (replying []) 16 16).run (established 16) callWithEmptyResponse).map
      (fun s => (s.client.isIdle, s.toServer.bytes)) = some (true, [1]) by decide +kernel)
  have hreach : (machine (replying []) 16 16).Reachable (fun _ act => act.Served 16) s :=
    .run (.init (fresh_established 16))
      (fun act hact _ => (by decide : ∀ act ∈ callWithEmptyResponse, act.Served 16) act hact) hs
  obtain ⟨hidle, hbytes⟩ := Prod.mk.inj hproj
  have hempty := (h _ _ _ s (accepted_replying (by decide) (by decide)) hreach hidle).1
  rw [hbytes] at hempty
  cases hempty

end Session

end Wagonet
