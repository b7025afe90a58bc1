import Wagonet.SessionPlan

/-!
Correctness of a session.

The invariant `Sync` says that what is left of the two scripts fits what is under
way in the streams. Every step of a party takes something away from its script,
an operation that begins appends its plan to both, and so the invariant holds in
every state. It excludes that both parties wait, and bounds the number of steps
an operation takes.
-/

namespace Wagonet

open Library

namespace Session

/-! ### The server's loop -/

/-- The loop of the server follows the script `b` and then goes on or not; `n` of its
cycles have not ended. -/
inductive Serving (serverMax : Nat) : Server → ServerScript → Bool → Nat → Prop
  | waiting {transport : FramedServer} : transport.maxBufferSize = serverMax →
      Serving serverMax (.serving (ProtocolHandler.handleNext transport)) [] true 0
  | last {next : Task (Net Handler) FramedServer (Except Error Bool)} {b : ServerScript} :
      Follows ProbeOnly next b (ProtocolHandler.CycleEnds serverMax false) →
      Serving serverMax (.serving next) b false 1
  | cycle {next : Task (Net Handler) FramedServer (Except Error Bool)} {b b' : ServerScript}
      {keep : Bool} {n : Nat} :
      Follows ProbeOnly next b (ProtocolHandler.CycleEnds serverMax true) →
      (∀ transport : FramedServer, transport.maxBufferSize = serverMax →
        Serving serverMax (.serving (ProtocolHandler.handleNext transport)) b' keep n) →
      Serving serverMax (.serving next) (b ++ b') keep (n + 1)
  | ended : Serving serverMax .ended [] false 0

namespace Serving

variable {serverMax n : Nat} {keep : Bool} {b : ServerScript}
  {next : Task (Net Handler) FramedServer (Except Error Bool)}

theorem single (h : Follows ProbeOnly next b (ProtocolHandler.CycleEnds serverMax keep)) :
    Serving serverMax (.serving next) b keep 1 := by
  cases keep with
  | false => exact .last h
  | true =>
      rw [← List.append_nil b]
      exact .cycle h fun transport ht => .waiting ht

/-- One more cycle for a server that goes on. -/
theorem append {server : Server} {b' : ServerScript} (h : Serving serverMax server b true n)
    (h' : ∀ transport : FramedServer, transport.maxBufferSize = serverMax →
      Follows ProbeOnly (ProtocolHandler.handleNext transport) b'
        (ProtocolHandler.CycleEnds serverMax keep)) :
    Serving serverMax server (b ++ b') keep (n + 1) := by
  generalize hk : true = keep₀ at h
  induction h with
  | waiting ht => exact single (h' _ ht)
  | last _ => cases hk
  | cycle hnext _ ih =>
      rw [List.append_assoc]
      exact .cycle hnext fun transport ht => ih transport ht hk
  | ended => cases hk

/-- A step of the server on the streams. -/
theorem progress {next' : Task (Net Handler) FramedServer (Except Error Bool)}
    {inbox inbox' : Inbox} {k : Nat} {out ba : List UInt8} {a : List Move}
    (h : Serving serverMax (.serving next) b keep n)
    (hp : next.progress inbox k = some (next', inbox', out))
    (hnet : InFlight (moves b) a ba inbox.bytes) (hclosing : Closing b)
    (hlapse : ∀ T, .lapse T ∉ b)
    (hclosed : inbox.closed = true → keep = false ∧ ∀ d, .send d ∉ a) :
    inbox'.closed = inbox.closed ∧ ∃ gone b', b = gone ++ b' ∧ gone ≠ [] ∧
      (∀ c r, .call c r ∉ gone) ∧ Serving serverMax (.serving next') b' keep n ∧
      InFlight (moves b') a (ba ++ out) inbox'.bytes := by
  cases h with
  | @waiting transport ht =>
      obtain ⟨k', hk'⟩ := ProtocolHandler.handleNext_await transport
      have hnil : inbox.bytes = [] := hnet.eq_nil_of_left_nil.1
      have hopen : inbox.closed = false := by
        cases hcl : inbox.closed with
        | false => rfl
        | true => exact absurd (hclosed hcl).1 nofun
      rw [hk'] at hp
      simp [Task.progress, Inbox.answer, hnil, hopen] at hp
  | last h =>
      obtain ⟨hcl, gone, b', hs⟩ := Follows.progress h hp
        (show InFlight (moves b ++ []) a ba inbox.bytes by rwa [List.append_nil]) hclosing
        (fun _ _ _ => rfl) fun hc => ⟨(hclosed hc).2, hlapse⟩
      exact ⟨hcl, gone, b', hs.script, hs.moved, hs.silent, .last hs.follows,
        by simpa using hs.inFlight⟩
  | @cycle _ b₁ b₂ _ n h h₂ =>
      obtain ⟨hcl, gone, b', hs⟩ := Follows.progress h hp
        (show InFlight (moves b₁ ++ moves b₂) a ba inbox.bytes by rwa [← moves_append])
        hclosing.left (fun x hx hw => hclosing.right_of_wait hx hw)
        fun hc => ⟨(hclosed hc).2, fun T hT => hlapse T (List.mem_append_left _ hT)⟩
      refine ⟨hcl, gone, b' ++ b₂, ?_, hs.moved, hs.silent, .cycle hs.follows h₂, ?_⟩
      · rw [hs.script, List.append_assoc]
      · rw [moves_append]
        exact hs.inFlight

/-- A step of the server into or out of the command handler. -/
theorem call {transport : FramedServer} {c : HandlerOp}
    {k : c.Reply → Task (Net Handler) FramedServer (Except Error Bool)}
    (h : Serving serverMax (.serving (.await transport (.call c) k)) b keep n) :
    ∃ r b', b = .call (C := Handler) c r :: b' ∧ Serving serverMax (.serving (k r)) b' keep n := by
  generalize hnext : Task.await (I := Net Handler) transport (.call c) k = next at h
  cases h with
  | @waiting transport' ht =>
      obtain ⟨k', hk'⟩ := ProtocolHandler.handleNext_await transport'
      rw [hk'] at hnext
      cases hnext
  | last h =>
      subst hnext
      obtain ⟨r, rest, rfl, h⟩ := h
      exact ⟨r, rest, rfl, .last h⟩
  | cycle h h₂ =>
      subst hnext
      obtain ⟨r, rest, rfl, h⟩ := h
      exact ⟨r, _, rfl, .cycle h h₂⟩

/-- The end of a cycle. -/
theorem turn {transport : FramedServer} {r : Except Error Bool}
    (h : Serving serverMax (.serving (.done transport r)) b keep n) :
    ∃ n', n = n' + 1 ∧
      ((r = .ok true ∧
          Serving serverMax (.serving (ProtocolHandler.handleNext transport)) b keep n') ∨
        (r ≠ .ok true ∧ Serving serverMax .ended b keep n')) := by
  generalize hnext : Task.done transport r = next at h
  cases h with
  | @waiting transport' ht =>
      obtain ⟨k', hk'⟩ := ProtocolHandler.handleNext_await transport'
      rw [hk'] at hnext
      cases hnext
  | last h =>
      subst hnext
      obtain ⟨rfl, -, hr⟩ := h
      exact ⟨0, rfl, .inr ⟨fun hok => absurd (hr.mp hok) nofun, .ended⟩⟩
  | cycle h h₂ =>
      subst hnext
      obtain ⟨rfl, ht, hr⟩ := h
      exact ⟨_, rfl, .inl ⟨hr.mpr rfl, h₂ _ ht⟩⟩

/-- What is next where the server waits for bytes. -/
theorem reads_next (h : Serving serverMax (.serving next) b keep n)
    (hr : next.isReading = true) :
    (b = [] ∧ keep = true) ∨ (∃ c b', b = .recv c :: b') ∨ (∃ b', b = .eof :: b') ∨
      ∃ T b', b = .lapse T :: b' := by
  have hfollows : ∀ {b₁ : ServerScript} {Q : FramedServer → Except Error Bool → Prop},
      Follows ProbeOnly next b₁ Q →
      (∃ c b', b₁ = .recv c :: b') ∨ (∃ b', b₁ = .eof :: b') ∨ ∃ T b', b₁ = .lapse T :: b' := by
    intro b₁ Q h
    rcases h.reads_next hr with h | h | ⟨T, b', -, h, -⟩
    · exact .inl h
    · exact .inr (.inl h)
    · exact .inr (.inr ⟨T, b', h⟩)
  cases h with
  | waiting => exact .inl ⟨rfl, rfl⟩
  | last h => exact .inr (hfollows h)
  | cycle h _ =>
      rcases hfollows h with ⟨c, b', rfl⟩ | ⟨b', rfl⟩ | ⟨T, b', rfl⟩
      · exact .inr (.inl ⟨c, _, rfl⟩)
      · exact .inr (.inr (.inl ⟨_, rfl⟩))
      · exact .inr (.inr (.inr ⟨T, _, rfl⟩))

end Serving

/-! ### The invariant -/

/-- The requests handed to the command handler when everything begun is done. -/
def requests (serverMax : Nat) (s : Session) : List (UInt32 × List UInt8) :=
  accepted serverMax s.log ++
    match s.client with
    | .busy op _ => (op.request serverMax).toList
    | _ => []

/-- What the last operation may have left unread. -/
def lastLeftover (log : List Entry) : List UInt8 :=
  match log.getLast? with
  | some ⟨op, .ok v⟩ => leftover op v
  | _ => []

/-- Every operation has returned what is expected of it, and all but the last one a
value. -/
def Recorded (handler : CommandHandler) (clientMax serverMax : Nat) (log : List Entry) : Prop :=
  ∀ l e l', log = l ++ e :: l' →
    e.result = expected handler clientMax serverMax (accepted serverMax l) e.op ∧
      (l' ≠ [] → ∃ v, e.result = .ok v)

/-- No operation has failed. -/
def Successful (log : List Entry) : Prop := ∀ e ∈ log, ∃ v, e.result = .ok v

/-- The client follows its script `a`, in each of its states. -/
def Aligned (handler : CommandHandler) (clientMax serverMax : Nat) (log : List Entry)
    (a : ClientScript) (b : ServerScript) (tail : List Move) (keep : Bool) : Client → Prop
  | .idle _ =>
      a = [] ∧ tail = [] ∧ keep = true ∧ entering b = [] ∧ Successful log ∧
        moves b <:+ (lastLeftover log).map .recv
  | .busy op task =>
      Follows ProbeOnly task a
          (fun _ r => r = expected handler clientMax serverMax (accepted serverMax log) op) ∧
        (∀ T, .lapse T ∈ a → op = .ping) ∧ Settled tail b ∧
        entering b <:+ (op.request serverMax).toList ∧ Successful log ∧
        ∀ v, expected handler clientMax serverMax (accepted serverMax log) op = .ok v →
          keep = true ∧ tail = [] ∧
            ∀ l, l <:+ moves b → (∀ d, .send d ∉ l) → l <:+ (leftover op v).map .recv
  | .dropped =>
      a = [] ∧ keep = false ∧ entering b = [] ∧
        ∃ l op e, log = l ++ [⟨op, .error e⟩]

/-- The two parties are in step. -/
structure Sync (handler : CommandHandler) (clientMax serverMax : Nat) (s : Session)
    (a : ClientScript) (b : ServerScript) (tail : List Move) (keep : Bool) (n : Nat) : Prop where
  client : Aligned handler clientMax serverMax s.log a b tail keep s.client
  server : Serving serverMax s.server b keep n
  inFlight : InFlight (moves a ++ tail) (moves b) s.toServer.bytes s.toClient.bytes
  compatible : Compatible a b tail keep
  coherent : Coherent handler s.handled b
  handled : s.handled ++ entering b = s.requests serverMax
  recorded : Recorded handler clientMax serverMax s.log
  clientGone : s.toServer.closed = true → s.client = .dropped
  serverGone : s.toClient.closed = true ↔ s.server = .ended

section

variable {handler : CommandHandler} {clientMax serverMax n k : Nat} {s s' : Session}
  {a : ClientScript} {b : ServerScript} {tail : List Move} {keep : Bool}

theorem Recorded.snoc {log : List Entry} {op : Op} {r : Except Error (List UInt8)}
    (h : Recorded handler clientMax serverMax log) (hlog : Successful log)
    (hr : r = expected handler clientMax serverMax (accepted serverMax log) op) :
    Recorded handler clientMax serverMax (log ++ [⟨op, r⟩]) := by
  intro l e l' heq
  rcases List.eq_nil_or_concat l' with rfl | ⟨l₁, x, rfl⟩
  · obtain rfl := List.append_inj_left' heq rfl
    cases List.append_inj_right' heq rfl
    exact ⟨hr, fun hne => absurd rfl hne⟩
  · have heq' : log ++ [⟨op, r⟩] = (l ++ e :: l₁) ++ [x] := by simpa using heq
    obtain rfl := List.append_inj_left' heq' rfl
    exact ⟨(h l e l₁ rfl).1, fun _ => hlog e (by simp)⟩

/-- The client's script has no timers left once the server has ended. -/
theorem Sync.of_closed (h : Sync handler clientMax serverMax s a b tail keep n)
    (hc : s.toClient.closed = true) : b = [] ∧ keep = false := by
  have hserver := h.server
  rw [h.serverGone.mp hc] at hserver
  cases hserver
  exact ⟨rfl, rfl⟩

/-- An operation on the streams by the client. -/
theorem Sync.client_step (h : Sync handler clientMax serverMax s a b tail keep n)
    (hs : step handler clientMax s (.client k) = some s') :
    ∃ a', a'.length < a.length ∧ Sync handler clientMax serverMax s' a' b tail keep n := by
  have hclient := h.client
  simp only [step] at hs
  split at hs
  · rename_i op task hbusy
    rw [hbusy] at hclient
    obtain ⟨hfollows, hprobe, hsettled, henters, hlog, hkeeps⟩ := hclient
    obtain ⟨⟨task', inbox, out⟩, hp, rfl⟩ := Option.map_eq_some_iff.mp hs
    obtain ⟨hcl, gone, a', hst⟩ := hfollows.progress hp h.inFlight h.compatible.closing_left
      h.compatible.waits fun hc => by
        obtain ⟨rfl, rfl⟩ := h.of_closed hc
        exact ⟨nofun, fun T hT => absurd (h.compatible.lapse_left T hT) nofun⟩
    have hsuffix : a' <:+ a := ⟨gone, hst.script.symm⟩
    refine ⟨a', ?_, ?_⟩
    · rw [hst.script, List.length_append]
      have := List.length_pos_iff.mpr hst.moved
      omega
    · exact
        { client := ⟨hst.follows, fun T hT => hprobe T (hsuffix.subset hT), hsettled, henters,
            hlog, hkeeps⟩
          server := h.server
          inFlight := hst.inFlight
          compatible := h.compatible.suffix hsuffix List.suffix_rfl
          coherent := h.coherent
          handled := by
            rw [h.handled, requests, requests, hbusy]
          recorded := h.recorded
          clientGone := fun hc => absurd (h.clientGone hc) (by simp [hbusy])
          serverGone := by
            rw [← h.serverGone, hcl] }
  · cases hs

/-- The timer of a ping runs out. -/
theorem Sync.lapse_step (h : Sync handler clientMax serverMax s a b tail keep n)
    (hs : step handler clientMax s (.lapse k) = some s') :
    ∃ a', a'.length < a.length ∧ Sync handler clientMax serverMax s' a' b tail keep n := by
  have hclient := h.client
  simp only [step] at hs
  split at hs
  · rename_i op task hbusy
    rw [hbusy] at hclient
    obtain ⟨hfollows, hprobe, hsettled, henters, hlog, hkeeps⟩ := hclient
    obtain ⟨task', hp, rfl⟩ := Option.map_eq_some_iff.mp hs
    obtain ⟨T, a', rfl, hfollows'⟩ := hfollows.elapse rfl hp
    have hsuffix : a' <:+ .lapse T :: a' := List.suffix_cons _ _
    exact ⟨a', Nat.lt_succ_self _,
      { client := ⟨hfollows', fun T hT => hprobe T (hsuffix.subset hT), hsettled, henters, hlog,
          hkeeps⟩
        server := h.server
        inFlight := h.inFlight
        compatible := h.compatible.suffix hsuffix List.suffix_rfl
        coherent := h.coherent
        handled := by
          rw [h.handled, requests, requests, hbusy]
        recorded := h.recorded
        clientGone := fun hc => absurd (h.clientGone hc) (by simp [hbusy])
        serverGone := h.serverGone }⟩
  · cases hs

/-- What the client's state says of the server's script holds of what is left of it. -/
theorem Aligned.suffix {log : List Entry} {client : Client} {b' : ServerScript}
    (h : Aligned handler clientMax serverMax log a b tail keep client) (hb : b' <:+ b) :
    Aligned handler clientMax serverMax log a b' tail keep client := by
  have hmoves : moves b' <:+ moves b := by
    obtain ⟨x, rfl⟩ := hb
    rw [moves_append]
    exact List.suffix_append _ _
  match client with
  | .idle _ =>
      obtain ⟨ha, ht, hk, he, hlog, hleft⟩ := h
      exact ⟨ha, ht, hk, entering_of_suffix hb he, hlog, hmoves.trans hleft⟩
  | .busy _ _ =>
      obtain ⟨hf, hp, hset, he, hlog, hkeeps⟩ := h
      have hentering : entering b' <:+ entering b := by
        obtain ⟨x, rfl⟩ := hb
        rw [entering_append]
        exact List.suffix_append _ _
      refine ⟨hf, hp, fun l ab ba hl => hset l ab ba (hl.trans hb), hentering.trans he, hlog,
        fun v hv => ?_⟩
      obtain ⟨hk, ht, hleft⟩ := hkeeps v hv
      exact ⟨hk, ht, fun l hl => hleft l (hl.trans hmoves)⟩
  | .dropped =>
      obtain ⟨ha, hk, he, hlog⟩ := h
      exact ⟨ha, hk, entering_of_suffix hb he, hlog⟩

/-- No byte is on its way to the server once the client has dropped the stream, other
than those it has sent before. -/
theorem Sync.of_gone (h : Sync handler clientMax serverMax s a b tail keep n)
    (hc : s.toServer.closed = true) : a = [] ∧ keep = false := by
  have hclient := h.client
  rw [h.clientGone hc] at hclient
  exact ⟨hclient.1, hclient.2.1⟩

/-- A step of the server. -/
theorem Sync.server_step (h : Sync handler clientMax serverMax s a b tail keep n)
    (hs : step handler clientMax s (.server k) = some s') :
    ∃ b', b'.length < b.length ∧ Sync handler clientMax serverMax s' a b' tail keep n := by
  have hserver := h.server
  have hgone : s.toClient.closed = true ↔ False := by
    rw [h.serverGone]
    refine ⟨fun hended => ?_, False.elim⟩
    simp [step, hended] at hs
  simp only [step] at hs
  split at hs
  · rename_i transport command data k hnext
    rw [hnext] at hserver
    obtain ⟨r, b', rfl, hserver'⟩ := hserver.call
    cases hs
    exact ⟨b', Nat.lt_succ_self _,
      { client := h.client.suffix (List.suffix_cons _ _)
        server := hserver'
        inFlight := h.inFlight
        compatible := h.compatible.suffix List.suffix_rfl (List.suffix_cons _ _)
        coherent := h.coherent
        handled := by
          have hh := h.handled
          simp only [List.append_assoc]
          exact hh
        recorded := h.recorded
        clientGone := h.clientGone
        serverGone := by simpa using hgone }⟩
  · rename_i transport k hnext
    rw [hnext] at hserver
    obtain ⟨r, b', rfl, hserver'⟩ := hserver.call
    obtain ⟨rfl, hcoherent⟩ := h.coherent
    cases hs
    exact ⟨b', Nat.lt_succ_self _,
      { client := h.client.suffix (List.suffix_cons _ _)
        server := hserver'
        inFlight := h.inFlight
        compatible := h.compatible.suffix List.suffix_rfl (List.suffix_cons _ _)
        coherent := hcoherent
        handled := h.handled
        recorded := h.recorded
        clientGone := h.clientGone
        serverGone := by simpa using hgone }⟩
  · rename_i next _ _ hnext
    rw [hnext] at hserver
    obtain ⟨⟨next', inbox, out⟩, hp, rfl⟩ := Option.map_eq_some_iff.mp hs
    obtain ⟨hcl, gone, b', rfl, hne, hsilent, hserver', hnet⟩ := hserver.progress hp
      h.inFlight.symm h.compatible.closing_right h.compatible.lapse_right fun hc => by
        obtain ⟨rfl, hkeep⟩ := h.of_gone hc
        exact ⟨hkeep, h.compatible.tail_recv⟩
    have hsuffix : b' <:+ gone ++ b' := List.suffix_append _ _
    refine ⟨b', ?_, ?_⟩
    · rw [List.length_append]
      have := List.length_pos_iff.mpr hne
      omega
    · exact
        { client := h.client.suffix hsuffix
          server := hserver'
          inFlight := hnet.symm
          compatible := h.compatible.suffix List.suffix_rfl hsuffix
          coherent := by
            have hc := (coherent_append.mp h.coherent).2
            rwa [entering_of_silent hsilent, List.append_nil] at hc
          handled := by
            have hh := h.handled
            rw [entering_append, entering_of_silent hsilent, List.nil_append] at hh
            exact hh
          recorded := h.recorded
          clientGone := fun hc => h.clientGone (hcl ▸ hc)
          serverGone := by simpa [Inbox.deliver] using hgone }
  · cases hs

/-- A cycle of the server ends. -/
theorem Sync.turn_step (h : Sync handler clientMax serverMax s a b tail keep n)
    (hs : step handler clientMax s .turn = some s') :
    ∃ n', n' < n ∧ Sync handler clientMax serverMax s' a b tail keep n' := by
  have hserver := h.server
  simp only [step] at hs
  split at hs
  · rename_i transport hnext
    rw [hnext] at hserver
    obtain ⟨n', rfl, hok | ⟨hr, -⟩⟩ := hserver.turn
    · cases hs
      exact ⟨n', Nat.lt_succ_self _,
        { h with
          server := hok.2
          serverGone := by
            have hg := h.serverGone
            rw [hnext] at hg
            simpa using hg }⟩
    · exact absurd rfl hr
  · rename_i transport r hr hnext
    rw [hnext] at hserver
    obtain ⟨n', rfl, ⟨hok, -⟩ | ⟨-, hended⟩⟩ := hserver.turn
    · exact absurd hok hr
    · cases hs
      exact ⟨n', Nat.lt_succ_self _,
        { h with
          server := hended
          serverGone := by simp [Inbox.close] }⟩
  · cases hs

theorem Successful.snoc {log : List Entry} {e : Entry} (h : Successful log)
    (he : ∃ v, e.result = .ok v) : Successful (log ++ [e]) := by
  intro e' he'
  rcases List.mem_append.mp he' with he' | he'
  · exact h e' he'
  · obtain rfl := List.mem_singleton.mp he'
    exact he

/-- The operation of the client returns. -/
theorem Sync.finish_step (h : Sync handler clientMax serverMax s a b tail keep n)
    (hs : step handler clientMax s .finish = some s') :
    ∃ a' b' tail' keep' n', Sync handler clientMax serverMax s' a' b' tail' keep' n' := by
  have hclient := h.client
  simp only [step] at hs
  split at hs
  · -- a value: the stream goes back to its cell
    rename_i op buffer v hbusy
    rw [hbusy] at hclient
    obtain ⟨⟨rfl, hexp⟩, -, hsettled, -, hlog, hkeeps⟩ := hclient
    obtain ⟨rfl, rfl, hleft⟩ := hkeeps v hexp.symm
    obtain ⟨-, hb⟩ := h.inFlight.eq_nil_of_left_nil
    cases hs
    exact ⟨[], b, [], true, n,
      { client := by
          refine ⟨rfl, rfl, rfl, hsettled b _ _ List.suffix_rfl h.inFlight,
            hlog.snoc ⟨v, rfl⟩, ?_⟩
          rw [lastLeftover, List.getLast?_concat]
          exact hleft _ List.suffix_rfl (by simp [hb])
        server := h.server
        inFlight := h.inFlight
        compatible := h.compatible
        coherent := h.coherent
        handled := by
          rw [h.handled, requests, requests, hbusy, accepted_snoc, List.append_nil]
        recorded := h.recorded.snoc hlog hexp
        clientGone := fun hc => absurd (h.clientGone hc) (by simp [hbusy])
        serverGone := h.serverGone }⟩
  · -- an error: the stream is dropped, which the server notices in its next cycle
    rename_i op buffer e hbusy
    rw [hbusy] at hclient
    obtain ⟨⟨rfl, hexp⟩, -, hsettled, -, hlog, -⟩ := hclient
    have hnet := h.inFlight
    have hentering : entering b = [] := hsettled b _ _ List.suffix_rfl hnet
    cases hs
    have hdropped : ∀ {b' : ServerScript} {n' : Nat}, entering b' = [] → moves b' = moves b →
        Serving serverMax s.server b' false n' → Compatible [] b' tail false →
        Coherent handler s.handled b' →
        Sync handler clientMax serverMax
          { s with
            client := .dropped
            toServer := s.toServer.close
            log := s.log ++ [⟨op, .error e⟩] } [] b' tail false n' := by
      intro b' n' hb' hmoves hserver hcompatible hcoherent
      exact
        { client := ⟨rfl, rfl, hb', s.log, op, e, rfl⟩
          server := hserver
          inFlight := by
            rw [hmoves]
            exact hnet
          compatible := hcompatible
          coherent := hcoherent
          handled := by
            have hh := h.handled
            rw [hentering] at hh
            rw [hb', hh, requests, requests, hbusy, accepted_snoc, List.append_nil]
          recorded := h.recorded.snoc hlog hexp
          clientGone := fun _ => rfl
          serverGone := h.serverGone }
    cases keep with
    | false =>
        exact ⟨[], b, tail, false, n,
          hdropped hentering rfl h.server h.compatible h.coherent⟩
    | true =>
        have hactive := h.compatible.active
        have heof : ∀ c r, .call c r ∉ ([.eof] : ServerScript) := by simp
        refine ⟨[], b ++ [.eof], tail, false, n + 1, hdropped ?_ (by simp) ?_ ?_ ?_⟩
        · rw [entering_append, hentering, entering_of_silent heof]
          rfl
        · refine h.server.append fun transport ht => ?_
          rw [← ht]
          exact ProtocolHandler.follows_handleNext_eof
        · exact .eofRight active_nil hactive h.compatible.tail_recv
        · exact coherent_append.mpr ⟨h.coherent, coherent_of_silent heof⟩
  · cases hs

/-- An operation begins. -/
theorem Sync.start_step {op : Op} (hop : op.Sound serverMax)
    (hdeclared : Declared handler clientMax)
    (h : Sync handler clientMax serverMax s a b tail keep n)
    (hs : step handler clientMax s (.start op) = some s') :
    ∃ a' b' tail' keep' n', Sync handler clientMax serverMax s' a' b' tail' keep' n' := by
  have hclient := h.client
  simp only [step] at hs
  split at hs
  · rename_i buffer hidle
    rw [hidle] at hclient
    obtain ⟨rfl, rfl, rfl, hentering, hlog, -⟩ := hclient
    obtain ⟨a', b', tail', keep', hplan⟩ :=
      @exists_plan handler clientMax serverMax (accepted serverMax s.log) op hop hdeclared
    have hpast : s.handled = accepted serverMax s.log := by
      have hh := h.handled
      rwa [hentering, List.append_nil, requests, hidle, List.append_nil] at hh
    have hnet : InFlight (moves a' ++ tail') (moves (b ++ b')) s.toServer.bytes
        s.toClient.bytes := by
      have happ := h.inFlight.append (moves a' ++ tail')
      rwa [moves_nil, List.append_nil, List.nil_append, ← hplan.dual, ← moves_append] at happ
    cases hs
    refine ⟨a', b ++ b', tail', keep', n + 1, ?_⟩
    exact
      { client := by
          refine ⟨hplan.client buffer, hplan.probes, hplan.settled b hentering, ?_, hlog,
            fun v hv => ?_⟩
          · rw [entering_append, hentering, List.nil_append]
            exact hplan.entering_eq ▸ List.suffix_rfl
          obtain ⟨hk, ht⟩ := hplan.keeps v hv
          refine ⟨hk, ht, fun l hl => ?_⟩
          rw [moves_append] at hl
          exact hplan.unread v hv _ l hl
        server := h.server.append hplan.server
        inFlight := hnet
        compatible := hplan.compatible.after h.compatible.active
        coherent := by
          rw [coherent_append, hentering, List.append_nil, hpast]
          exact ⟨hpast ▸ h.coherent, hplan.coherent⟩
        handled := by
          rw [entering_append, hentering, List.nil_append, hplan.entering_eq, hpast]
          rfl
        recorded := h.recorded
        clientGone := fun hc => absurd (h.clientGone hc) (by simp [hidle])
        serverGone := h.serverGone }
  · cases hs

/-- The invariant of a session. -/
def Inv (handler : CommandHandler) (clientMax serverMax : Nat) (s : Session) : Prop :=
  ∃ a b tail keep n, Sync handler clientMax serverMax s a b tail keep n

theorem inv_of_fresh (h : Fresh serverMax s) : Inv handler clientMax serverMax s := by
  obtain ⟨⟨buffer, hclient⟩, ⟨transport, ht, hserver⟩, hto, hfrom, hhandled, hlog⟩ := h
  exact ⟨[], [], [], true, 0,
    { client := by
        rw [hclient, hlog]
        exact ⟨rfl, rfl, rfl, rfl, nofun, List.suffix_rfl⟩
      server := hserver ▸ .waiting ht
      inFlight := by
        rw [hto, hfrom]
        exact .start
      compatible := .calm active_nil active_nil nofun
      coherent := trivial
      handled := by simp [requests, hclient, hhandled, hlog]
      recorded := fun l e l' heq => by simp [hlog] at heq
      clientGone := by simp [hto]
      serverGone := by simp [hfrom, hserver] }⟩

/-- Only sound operations begin. -/
def Act.Sound (serverMax : Nat) : Act → Prop
  | .start op => op.Sound serverMax
  | _ => True

/-- The invariant holds in every state of a session. -/
theorem inv_of_reachable (hdeclared : Declared handler clientMax)
    (h : (machine handler clientMax serverMax).Reachable (fun _ act => act.Sound serverMax) s) :
    Inv handler clientMax serverMax s := by
  refine h.invariant (Inv handler clientMax serverMax) (fun t ht => inv_of_fresh ht) ?_
  rintro t act t' ⟨a, b, tail, keep, n, hsync⟩ hsound hs
  cases act with
  | start op => exact hsync.start_step hsound hdeclared hs
  | client k =>
      obtain ⟨a', -, hsync⟩ := hsync.client_step hs
      exact ⟨_, _, _, _, _, hsync⟩
  | lapse i =>
      obtain ⟨a', -, hsync⟩ := hsync.lapse_step hs
      exact ⟨_, _, _, _, _, hsync⟩
  | finish => exact hsync.finish_step hs
  | server k =>
      obtain ⟨b', -, hsync⟩ := hsync.server_step hs
      exact ⟨_, _, _, _, _, hsync⟩
  | turn =>
      obtain ⟨n', -, hsync⟩ := hsync.turn_step hs
      exact ⟨_, _, _, _, _, hsync⟩

end

end Session

end Wagonet
