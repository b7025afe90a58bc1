import Wagonet.SessionSafety

/-!
A session always goes on.

The two parties never wait for each other, as long as no call is taken for a
ping: a party that waits for bytes finds the other one able to move. Every step
consumes a part of what `Sync` says is left, so an operation that has begun
returns after a bounded number of steps.
-/

namespace Wagonet

open Library

namespace Session

/-- `handle_message` waits for bytes of the server. -/
def Client.awaitsReply : Client → Bool
  | .busy (.call _ _) task => task.isReading
  | _ => false

/-- `handle_next` waits for bytes of the client. -/
def Server.awaitsClient : Server → Bool
  | .serving next => next.isReading
  | .ended => false

/-- Both parties wait to read on the open connection, and nothing is under way. -/
def MutualWait (s : Session) : Prop :=
  s.client.awaitsReply = true ∧ s.server.awaitsClient = true ∧
    s.toServer.bytes = [] ∧ s.toClient.bytes = []

instance decidableMutualWait (s : Session) : Decidable s.MutualWait :=
  inferInstanceAs (Decidable (_ ∧ _ ∧ _ ∧ _))

instance decidableSound (serverMax : Nat) : ∀ act : Act, Decidable (act.Sound serverMax)
  | .start (.call _ _) => inferInstanceAs (Decidable (_ → ite _ _ _))
  | .start .ping => .isTrue trivial
  | .client _ | .lapse _ | .finish | .server _ | .turn => .isTrue trivial

section

variable {handler : CommandHandler} {clientMax serverMax n : Nat} {s s' : Session}
  {a : ClientScript} {b : ServerScript} {tail : List Move} {keep : Bool} {op : Op}
  {task : Task (Net Interface.empty) ByteVec (Except Error (List UInt8))}
  {next : Task (Net Handler) FramedServer (Except Error Bool)}

/-- Where both parties wait and nothing is under way, it is the timer of a ping that
the client waits for. -/
theorem Sync.both_waiting (h : Sync handler clientMax serverMax s a b tail keep n)
    (hclient : s.client = .busy op task) (hreads : task.isReading = true)
    (hserver : s.server = .serving next) (hreads' : next.isReading = true)
    (hto : s.toServer.bytes = []) (hfrom : s.toClient.bytes = []) :
    op = .ping ∧ ∃ i, (task.elapse .pingOldFormatRead i).isSome = true := by
  have halign := h.client
  have hserving := h.server
  have hnet := h.inFlight
  rw [hclient] at halign
  rw [hserver] at hserving
  rw [hto, hfrom] at hnet
  have hdual := hnet.dual_of_nil
  obtain ⟨hfollows, hprobe, -⟩ := halign
  -- nothing is left for the server to do where the client waits for its end
  have heof : ∀ a', a = .eof :: a' → moves a ++ tail = [] := by
    rintro a' rfl
    rw [moves_eof_cons, h.compatible.closing_left.1 rfl,
      h.compatible.waits .eof List.mem_cons_self rfl]
    rfl
  rcases hfollows.reads_next hreads with ⟨c, a', ha⟩ | ⟨a', ha⟩ | ⟨T, a', i, ha, rfl, hi⟩
  · subst ha
    rcases hserving.reads_next hreads' with ⟨rfl, -⟩ | ⟨d, b', rfl⟩ | ⟨b', rfl⟩ | ⟨T, b', rfl⟩
    · cases hdual
    · cases hdual
    · rw [moves_eof_cons, h.compatible.closing_right.1 rfl] at hdual
      cases hdual
    · exact absurd List.mem_cons_self (h.compatible.lapse_right T)
  · obtain ⟨hkeep, hb⟩ := h.compatible.eof_left (ha ▸ List.mem_cons_self)
    rw [heof a' ha] at hdual
    rcases hserving.reads_next hreads' with ⟨-, hk⟩ | ⟨d, b', rfl⟩ | ⟨b', rfl⟩ | ⟨T, b', rfl⟩
    · rw [hkeep] at hk
      cases hk
    · cases hdual
    · exact absurd List.mem_cons_self hb
    · exact absurd List.mem_cons_self (h.compatible.lapse_right T)
  · exact ⟨hprobe _ (ha ▸ List.mem_cons_self), i, hi⟩

/-- In no run whose calls are all sound do the two parties wait for each other. -/
theorem no_mutualWait (hdeclared : Declared handler clientMax)
    (h : (machine handler clientMax serverMax).Reachable (fun _ act => act.Sound serverMax) s) :
    ¬s.MutualWait := by
  rintro ⟨hclient, hserver, hto, hfrom⟩
  obtain ⟨a, b, tail, keep, n, hsync⟩ := inv_of_reachable hdeclared h
  match hc : s.client, hs : s.server with
  | .idle _, _ => simp [hc, Client.awaitsReply] at hclient
  | .dropped, _ => simp [hc, Client.awaitsReply] at hclient
  | .busy .ping _, _ => simp [hc, Client.awaitsReply] at hclient
  | _, .ended => simp [hs, Server.awaitsClient] at hserver
  | .busy (.call command data) task, .serving next =>
      rw [hc] at hclient
      rw [hs] at hserver
      obtain ⟨hping, -⟩ := hsync.both_waiting hc hclient hs hserver hto hfrom
      cases hping

end

/-! ### A call that is taken for a ping -/

/-- A connection that was just established. -/
def established (serverMax : Nat) : Session where
  client := .idle (.withCapacity 0)
  server := .serving (ProtocolHandler.handleNext ⟨.withCapacity 0, serverMax⟩)
  toServer := {}
  toClient := {}
  handled := []
  log := []

theorem fresh_established (serverMax : Nat) : Fresh serverMax (established serverMax) :=
  ⟨⟨_, rfl⟩, ⟨_, rfl, rfl⟩, rfl, rfl, rfl, rfl⟩

/-- A command handler that always answers with this payload. -/
def replying (payload : List UInt8) : CommandHandler := fun _ => .ok (.ok, payload)

theorem declared_replying {payload : List UInt8} (h : payload.length < 2 ^ 32) (clientMax : Nat) :
    Declared (replying payload) clientMax := fun _ _ _ => h

/-- The server takes the header for that of a ping, and its status for the client is
the acceptance of the request. -/
def callWithoutPayload : List Act :=
  [.start (.call Command.ping []), .client 7, .client 0, .server 7, .server 0, .server 0, .turn,
    .client 0, .client 0]

theorem call_without_payload_waits :
    ¬∀ (handler : CommandHandler) (clientMax serverMax : Nat) (s : Session),
      (machine handler clientMax serverMax).Reachable Machine.anyStep s → ¬s.MutualWait := by
  intro h
  obtain ⟨s, hs, hwait⟩ := Option.map_eq_some_iff.mp
    (show ((machine (replying []) 16 16).run (established 16) callWithoutPayload).map
      (fun s => decide s.MutualWait) = some true by decide +kernel)
  have hreach : (machine (replying []) 16 16).Reachable Machine.anyStep s :=
    Machine.Reachable.run (.init (fresh_established 16)) (fun _ _ _ => trivial) hs
  exact h _ _ _ s hreach (of_decide_eq_true hwait)

/-- Command 1 with one byte, up to the point where the server waits for that byte. -/
def callWithPayload : List Act :=
  [.start (.call 1 [5]), .client 7, .client 0, .server 7, .server 0, .server 0, .client 0]

theorem no_mutualWait_callWithPayload :
    ∃ s, (machine (replying []) 16 16).run (established 16) callWithPayload = some s ∧
      s.server.awaitsClient = true ∧ ¬s.MutualWait := by
  obtain ⟨s, hs, hwait⟩ := Option.map_eq_some_iff.mp
    (show ((machine (replying []) 16 16).run (established 16) callWithPayload).map
      (fun s => s.server.awaitsClient) = some true by decide +kernel)
  have hreach : (machine (replying []) 16 16).Reachable (fun _ act => act.Sound 16) s :=
    .run (.init (fresh_established 16))
      (fun act hact _ => (by decide : ∀ act ∈ callWithPayload, act.Sound 16) act hact) hs
  exact ⟨s, hs, hwait, no_mutualWait (declared_replying (by decide) 16) hreach⟩

/-! ### Every operation returns -/

/-- The steps that complete an operation that has begun. -/
def Act.Internal : Act → Prop
  | .start _ => False
  | .finish => False
  | _ => True

/-- The operation that has begun and not returned. -/
def current (s : Session) : Option Op :=
  match s.client with
  | .busy op _ => some op
  | _ => none

section

variable {handler : CommandHandler} {clientMax serverMax n : Nat} {s s' : Session}
  {a : ClientScript} {b : ServerScript} {tail : List Move} {keep : Bool} {op : Op}
  {task : Task (Net Interface.empty) ByteVec (Except Error (List UInt8))}

theorem client_step_isSome {k : Nat} (hc : s.client = .busy op task)
    (hp : (task.progress s.toClient k).isSome = true) :
    (step handler clientMax s (.client k)).isSome = true := by
  simp only [step, hc, Option.isSome_map, hp]

theorem finish_step_isSome {buffer : ByteVec} {r : Except Error (List UInt8)}
    (hc : s.client = .busy op (.done buffer r)) :
    (step handler clientMax s .finish).isSome = true := by
  cases r <;> simp [step, hc]

theorem turn_step_isSome {transport : FramedServer} {r : Except Error Bool}
    (hs : s.server = .serving (.done transport r)) :
    (step handler clientMax s .turn).isSome = true := by
  match r with
  | .ok true => simp [step, hs]
  | .ok false => simp [step, hs]
  | .error _ => simp [step, hs]

theorem call_step_isSome {transport : FramedServer} {c : HandlerOp}
    {k : c.Reply → Task (Net Handler) FramedServer (Except Error Bool)}
    (hs : s.server = .serving (.await transport (.call c) k)) :
    (step handler clientMax s (.server 0)).isSome = true := by
  match c with
  | .enter _ _ => simp [step, hs]
  | .leave => simp [step, hs]

theorem server_step_isSome {next : Task (Net Handler) FramedServer (Except Error Bool)}
    (hs : s.server = .serving next) (hp : (next.progress s.toServer 0).isSome = true) :
    (step handler clientMax s (.server 0)).isSome = true := by
  match next with
  | .done _ _ => cases hp
  | .await _ (.call _) _ => cases hp
  | .await _ (.wait _ _) _ => simpa [step, hs] using hp

/-- While an operation is under way one of the parties can go on. -/
theorem Sync.enabled (h : Sync handler clientMax serverMax s a b tail keep n)
    (hc : s.client = .busy op task) :
    ∃ act, (act = .finish ∨ act.Internal) ∧ (step handler clientMax s act).isSome = true := by
  cases hp : task.progress s.toClient 0 with
  | some r =>
      exact ⟨.client 0, .inr trivial, client_step_isSome hc (by rw [hp]; rfl)⟩
  | none =>
      rcases Task.progress_eq_none hp with ⟨buffer, r, rfl⟩ | ⟨_, c, _, _⟩ |
        ⟨hreads, hfrom, hopen⟩
      · exact ⟨.finish, .inl rfl, finish_step_isSome hc⟩
      · exact c.elim
      · cases hs : s.server with
        | ended =>
            rw [h.serverGone.mpr hs] at hopen
            cases hopen
        | serving next =>
            cases hp' : next.progress s.toServer 0 with
            | some r =>
                exact ⟨.server 0, .inr trivial, server_step_isSome hs (by rw [hp']; rfl)⟩
            | none =>
                rcases Task.progress_eq_none hp' with ⟨_, r, rfl⟩ | ⟨_, c, k, rfl⟩ |
                  ⟨hreads', hto, -⟩
                · exact ⟨.turn, .inr trivial, turn_step_isSome hs⟩
                · exact ⟨.server 0, .inr trivial, call_step_isSome hs⟩
                · obtain ⟨-, i, hi⟩ := h.both_waiting hc hreads hs hreads' hto hfrom
                  exact ⟨.lapse i, .inr trivial, by simpa only [step, hc, Option.isSome_map]⟩

/-- An internal step consumes something and neither begins nor ends an operation. -/
theorem Sync.internal_step {act : Act} (h : Sync handler clientMax serverMax s a b tail keep n)
    (hact : act.Internal) (hs : step handler clientMax s act = some s') :
    ∃ a' b' n', a'.length + b'.length + n' < a.length + b.length + n ∧
      Sync handler clientMax serverMax s' a' b' tail keep n' := by
  cases act with
  | start op => exact hact.elim
  | finish => exact hact.elim
  | client k =>
      obtain ⟨a', hlt, h'⟩ := h.client_step hs
      exact ⟨a', b, n, by omega, h'⟩
  | lapse i =>
      obtain ⟨a', hlt, h'⟩ := h.lapse_step hs
      exact ⟨a', b, n, by omega, h'⟩
  | server k =>
      obtain ⟨b', hlt, h'⟩ := h.server_step hs
      exact ⟨a, b', n, by omega, h'⟩
  | turn =>
      obtain ⟨n', hlt, h'⟩ := h.turn_step hs
      exact ⟨a, b, n', by omega, h'⟩

theorem frame_of_internal {act : Act} (hact : act.Internal)
    (hs : step handler clientMax s act = some s') : s'.current = s.current ∧ s'.log = s.log := by
  cases act with
  | start op => exact hact.elim
  | finish => exact hact.elim
  | client k =>
      simp only [step] at hs
      split at hs
      · rename_i op task hc
        obtain ⟨r, -, rfl⟩ := Option.map_eq_some_iff.mp hs
        exact ⟨by rw [current, current, hc], rfl⟩
      · cases hs
  | lapse i =>
      simp only [step] at hs
      split at hs
      · rename_i op task hc
        obtain ⟨r, -, rfl⟩ := Option.map_eq_some_iff.mp hs
        exact ⟨by rw [current, current, hc], rfl⟩
      · cases hs
  | server k =>
      simp only [step] at hs
      split at hs
      · cases hs
        exact ⟨rfl, rfl⟩
      · cases hs
        exact ⟨rfl, rfl⟩
      · obtain ⟨r, -, rfl⟩ := Option.map_eq_some_iff.mp hs
        exact ⟨rfl, rfl⟩
      · cases hs
  | turn =>
      simp only [step] at hs
      split at hs <;> cases hs <;> exact ⟨rfl, rfl⟩

/-- A run of internal steps is no longer than what was left to do, and the operation is
still under way after it. -/
theorem Sync.run_length {as : List Act} (h : Sync handler clientMax serverMax s a b tail keep n)
    (hacts : ∀ act ∈ as, act.Internal)
    (hr : (machine handler clientMax serverMax).run s as = some s') :
    as.length ≤ a.length + b.length + n ∧ s'.current = s.current ∧
      Inv handler clientMax serverMax s' := by
  induction as generalizing s a b n with
  | nil =>
      cases hr
      exact ⟨Nat.zero_le _, rfl, a, b, tail, keep, n, h⟩
  | cons act as ih =>
      rw [Machine.run_cons, Option.bind_eq_some_iff] at hr
      obtain ⟨t, ht, hr⟩ := hr
      have hact := hacts act List.mem_cons_self
      obtain ⟨a', b', n', hlt, h'⟩ := h.internal_step hact ht
      obtain ⟨hle, hcur, hinv⟩ := ih h' (fun x hx => hacts x (List.mem_cons_of_mem _ hx)) hr
      refine ⟨?_, hcur.trans (frame_of_internal hact ht).1, hinv⟩
      rw [List.length_cons]
      omega

/-- An operation that is under way returns: however the steps of the two parties are
chosen, there are only boundedly many before `finish`, and until then there is always
one more. -/
def Finishes (handler : CommandHandler) (clientMax serverMax : Nat) (s : Session) : Prop :=
  ∃ bound, ∀ as s', (∀ act ∈ as, act.Internal) →
    (machine handler clientMax serverMax).run s as = some s' →
      as.length ≤ bound ∧ ∃ act, (act = .finish ∨ act.Internal) ∧
        (step handler clientMax s' act).isSome = true

theorem finishes (h : Inv handler clientMax serverMax s) (hc : s.current = some op) :
    Finishes handler clientMax serverMax s := by
  obtain ⟨a, b, tail, keep, n, hsync⟩ := h
  refine ⟨a.length + b.length + n, fun as s' hacts hr => ?_⟩
  obtain ⟨hle, hcur, a', b', tail', keep', n', hsync'⟩ := hsync.run_length hacts hr
  refine ⟨hle, ?_⟩
  rw [hc, current] at hcur
  split at hcur
  · rename_i op' task hbusy
    exact hsync'.enabled hbusy
  · cases hcur

end

end Session

end Wagonet
