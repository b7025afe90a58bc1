import Wagonet.ClientSettings
import Wagonet.OneExchange

/-!
The calls of `handle_message`, and the requests that become of them.

A call begins one request at most, on one connection. So the requests that were begun,
on all connections and in the order in which they were begun, are some of the calls, in
the order of the calls; and a response that is returned belongs to the request that was
answered last on some connection.
-/

namespace Wagonet

open Library ClientRuntime

/-- The command and the payload of a request. -/
abbrev Request := UInt32 × List UInt8

/-- The request of an exchange that is none of the pings. -/
def Exchange.asked : Exchange → Option Request
  | .request command data _ _ => some (command, data)
  | .ping => none

theorem Exchange.asked_of_isPing {x : Exchange} (h : x.isPing = true) : x.asked = none := by
  cases x with
  | request command data commandHasAnswer maxBufferSize => cases h
  | ping => rfl

namespace ClientRuntime

def Segment.asked (y : Segment) : Option Request := y.exchange.asked

/-- The request of an exchange that has succeeded, and the response to it. -/
def Segment.answered (y : Segment) : Option (Request × List UInt8) :=
  match y.fate with
  | .returned (.ok response) => y.asked.map (·, response)
  | _ => none

theorem Segment.answered_of_asked {y : Segment} (h : y.asked = none) : y.answered = none := by
  rw [Segment.answered, h]
  split <;> rfl

namespace World

/-- The requests that were begun on a connection. The last exchange may go on. -/
def asked (w : World) (x : Option Ongoing) (c : Conn) : List Request :=
  (w.record c).filterMap Segment.asked ++
    ((x.filter (·.conn = c)).bind (·.exchange.asked)).toList

/-- The requests that were answered on a connection, each with the response to it. -/
def answered (w : World) (c : Conn) : List (Request × List UInt8) :=
  (w.record c).filterMap Segment.answered

variable {w w' : World} {x : Ongoing} {y : Segment} {c c' : Conn} {g : Agent} {fate : Fate}

theorem asked_of_record (h : w'.record = w.record) (x : Option Ongoing) :
    w'.asked x = w.asked x := by
  funext c
  rw [asked, asked, h]

/-- An exchange that was begun counts from then on. -/
theorem asked_begins {x : Exchange} {request : Request} (hx : x.asked = some request) :
    w.asked (some ⟨c, x, []⟩) = Function.update (w.asked none) c (w.asked none c ++ [request]) := by
  funext c'
  by_cases heq : c' = c
  · subst heq
    simp [asked, Option.filter_some, hx]
  · simp [asked, Option.filter_some, heq, Ne.symm heq]

theorem asked_event {e e' : (Net Interface.empty).Event} :
    (w.addWire c (g, e)).asked (some (x.add e')) = w.asked (some x) := by
  funext c'
  simp only [asked, Option.filter_some, Ongoing.add]
  split <;> rfl

theorem record_ends :
    (w.addRecord x.conn (x.ended g fate)).record =
      Function.update w.record x.conn (w.record x.conn ++ [x.ended g fate]) :=
  addRecord_record w x.conn (x.ended g fate)

/-- It makes no difference that it ends. -/
theorem asked_ends : (w.addRecord x.conn (x.ended g fate)).asked none = w.asked (some x) := by
  funext c
  rw [asked, asked, record_ends]
  by_cases heq : c = x.conn
  · subst heq
    cases hx : x.exchange.asked <;> simp [Segment.asked, Ongoing.ended, Option.filter_some, hx]
  · simp [Option.filter_some, heq, Ne.symm heq]

end World

/-! ### The rules for every operation -/

/-- The rules for an operation that begins no exchange. -/
def Stage.silent : Discipline ClientAwaits ClientCalls Stage ClientFields where
  waits _ _ a := a.isExchange = false
  waited q _ _ := q
  calls _ _ := True
  called q _ _ := q
  timed _ _ := True
  lapsed q := q

namespace ClientOp

def rules : ClientOp → Discipline ClientAwaits ClientCalls Stage ClientFields
  | .handleMessage command requestData => Stage.discipline command requestData
  | _ => Stage.silent

/-- What an operation may return. -/
def Returns : ClientOp → Stage → Except Error (List UInt8) → Prop
  | .handleMessage _ _, q, r => q.Returns r
  | _, _, _ => True

/-- Only a call of `handle_message` begins an exchange, and only one. -/
theorem exchange_of_waits {op : ClientOp} {q : Stage} {s : ClientFields} {c : Conn} {x : Exchange}
    {buffer : ByteVec} (h : op.rules.waits q s (.exchange c x buffer)) :
    q = .before ∧ ∃ command data commandHasAnswer m, op = .handleMessage command data ∧
      x = .request command data commandHasAnswer m := by
  cases op with
  | handleMessage command data =>
      obtain ⟨hq, commandHasAnswer, m, hx⟩ := h
      exact ⟨hq, command, data, commandHasAnswer, m, rfl, hx⟩
  | connect | disconnect | setKeepAlive | setTimeoutConfig => cases h

/-- An operation that begins no exchange. -/
abbrev Silent {α : Type} (m : Async ClientIO ClientFields Error α) : Prop :=
  m.Among (A := ClientAwaits) (C := ClientCalls) (fun a => a.isExchange = false) (fun _ => True)

theorem silent_of_connects {α : Type} {m : Async ClientIO ClientFields Error α}
    (h : Connects m) : Silent m :=
  h.mono fun _ => TimedOp.Among.mono (fun _ ha => ha) fun _ _ => trivial

theorem silent_setKeepAlive {enabled : Bool} : Silent (Client.setKeepAlive enabled) := by
  have hend : Silent (do
      Async.modify ({ · with keepAlive := enabled })
      Async.wait (A := ClientAwaits) (.lock .config)
      let config ← Async.call (C := ClientCalls) .loadConfig
      Async.call (C := ClientCalls)
        (.setConfig { config with enabled := enabled && decide (config.interval > 0) })
      Async.call (C := ClientCalls) (.unlock .config) :
        Async ClientIO ClientFields Error Unit) := by
    refine (Async.uses_modify _).bind fun _ => Async.Uses.bind (Async.among_wait rfl) fun _ => ?_
    refine Async.Uses.bind (Async.among_call trivial) fun config => ?_
    exact Async.Uses.bind (Async.among_call trivial) fun _ => Async.among_call trivial
  refine Async.uses_get.bind fun self => ?_
  split
  · refine (silent_of_connects PingState.commands_stopPingTask.controls.connects).bind fun _ => ?_
    exact Async.Uses.bind (among_withLock rfl trivial trivial) fun _ => hend
  · exact hend

theorem silent_setTimeoutConfig {timeoutConfig : TimeoutConfig} :
    Silent (Client.setTimeoutConfig timeoutConfig) := by
  refine (Async.uses_ofExcept _).bind fun _ => Async.uses_get.bind fun self => ?_
  refine Async.Uses.bind (Async.among_wait rfl) fun _ => ?_
  refine Async.Uses.bind (Async.among_call trivial) fun _ => ?_
  refine Async.Uses.bind (among_withLock rfl trivial trivial) fun _ => ?_
  exact (Async.uses_modify _).bind fun _ => Async.among_call trivial

/-- Every operation obeys its rules. -/
theorem program_once {K : ClientKind} (op : ClientOp) (fields : ClientFields) :
    (op.program K fields).Obeys op.rules (fun q _ r => op.Returns q r) .before := by
  have quiet {m : Async ClientIO ClientFields Error Unit} (hm : Silent m) :
      ((m >>= fun _ => pure []) fields).Obeys Stage.silent
        (fun _ _ (_ : Except Error (List UInt8)) => True) .before := by
    have huses : Silent
        (m >>= fun _ => (pure [] : Async ClientIO ClientFields Error (List UInt8))) :=
      Async.Uses.bind hm fun _ => Async.uses_pure _
    refine Task.Obeys.of_among (I := fun _ => True) (P := fun _ => True) ?_ ?_ ?_ ?_ (huses fields)
      (Task.leaves_of_forall fun _ => trivial) trivial
    · exact fun _ _ _ _ _ ha => ⟨ha, fun _ => trivial⟩
    · exact fun _ _ _ _ _ _ => ⟨trivial, trivial⟩
    · exact fun _ _ _ _ => ⟨trivial, fun _ => trivial⟩
    · exact fun _ _ _ _ _ => trivial
  cases op with
  | connect => exact quiet (silent_of_connects Client.connects_connect)
  | handleMessage command data => exact Client.handleMessage_once
  | disconnect =>
      exact quiet (Client.among_disconnect.mono fun _ =>
        TimedOp.Among.mono (fun _ ha => ha) fun _ _ => trivial)
  | setKeepAlive enabled => exact quiet silent_setKeepAlive
  | setTimeoutConfig timeoutConfig => exact quiet silent_setTimeoutConfig

end ClientOp

/-- No request was begun or has ended. -/
def World.SameRequests (w w' : World) : Prop :=
  ∀ c, ∃ pings, w'.record c = w.record c ++ pings ∧ ∀ y ∈ pings, Segment.asked y = none

namespace World.SameRequests

variable {w w' : World}

theorem of_record (h : w'.record = w.record) : w.SameRequests w' := by
  intro c
  exact ⟨[], by rw [h, List.append_nil], nofun⟩

theorem of_ping {K : ClientKind} {t : Nat} {x : Ongoing} {fate : Fate}
    (hx : Beginning K (.ping t) x.exchange x.events) :
    w.SameRequests (w.addRecord x.conn (x.ended (.ping t) fate)) := by
  intro c
  rw [record_ends]
  by_cases heq : c = x.conn
  · subst heq
    rw [Function.update_self]
    refine ⟨_, rfl, fun y hy => ?_⟩
    rw [List.mem_singleton.mp hy]
    exact Exchange.asked_of_isPing (hx.1.mpr nofun)
  · rw [Function.update_of_ne heq]
    exact ⟨[], (List.append_nil _).symm, nofun⟩

theorem asked (h : w.SameRequests w') (x : Option Ongoing) : w'.asked x = w.asked x := by
  funext c
  obtain ⟨pings, hrecord, hpings⟩ := h c
  rw [World.asked, World.asked, hrecord, List.filterMap_append,
    List.filterMap_eq_nil_iff.mpr hpings, List.append_nil]

end World.SameRequests

section

variable {K : ClientKind} {s s' : ClientRuntime} {loc : Agent → Local} {a : Act}

theorem Thread.Moves.sameRequests {w w' : World} {t : Nat}
    {th th' : Thread Unit (Except Error Bool)} {q q' : Local} {choice : Choice}
    {final : Local → Unit → Except Error Bool → Prop} (hbegun : th.Begun K)
    (hobeys : th.task.Obeys (Local.discipline false) final q)
    (hm : th.Moves (Local.discipline false) K (.ping t) w q choice w' th' q') :
    w.SameRequests w' := by
  cases hm with
  | call _ hcall => exact .of_record (World.call_log hcall).2
  | wait _ _ hwait => exact .of_record (World.wait_log hwait).2
  | ends => exact .of_ping (hbegun.beginning (by simp) hobeys rfl)
  | elapse | begins | event => exact .of_record rfl

/-- What ping tasks do adds nothing to the requests. -/
theorem sameRequests_of_others (hobeyed : (streamRegime K).Obeyed s loc) (ha : a.others = true)
    (hs : ClientRuntime.step K s a = some s') :
    (s'.op = s.op ∧ s'.call = s.call ∧ s'.result = s.result) ∧
      s.world.SameRequests s'.world := by
  obtain ⟨loc', -, hmove⟩ := hobeyed.step hs
  cases hmove with
  | start | client | finish | cancel => cases ha
  | ping halive _ hm =>
      obtain ⟨hbegun, hobeys⟩ := hobeyed.ping _ halive.2
      exact ⟨⟨rfl, rfl, rfl⟩, hm.sameRequests hbegun hobeys⟩
  | drop halive =>
      obtain ⟨hbegun, hobeys⟩ := hobeyed.ping _ halive.2
      refine ⟨⟨rfl, rfl, rfl⟩, ?_⟩
      dsimp only [ClientRuntime.setPing]
      rw [Thread.drop]
      split
      · exact .of_record rfl
      · rename_i run hrun
        exact .of_ping (hbegun.beginning (by simp) hobeys hrun)
  | park | resume | again | ended => exact ⟨⟨rfl, rfl, rfl⟩, .of_record rfl⟩

end

end ClientRuntime

/-- A client, and the calls of `handle_message` that were made on it. -/
structure CallLog where
  runtime : ClientRuntime
  calls : List Request

namespace CallLog

/-- The call that an action makes. -/
def called : Act → List Request
  | .start (.handleMessage command requestData) => [(command, requestData)]
  | _ => []

def step (K : ClientKind) (s : CallLog) (a : Act) : Option CallLog :=
  (ClientRuntime.step K s.runtime a).map fun runtime => ⟨runtime, s.calls ++ called a⟩

/-- A client in answer mode. -/
def machine (K : ClientKind) : Machine CallLog Act where
  init s := Fresh s.runtime ∧ s.runtime.fields.commandHasAnswer = true ∧ s.calls = []
  step := step K

variable {K : ClientKind} {s s' : CallLog} {a : Act} {L : List (Conn × Request)} {q q' : Stage}
  {c : Conn}

theorem runtime_of_reachable {ok : CallLog → Act → Prop} {ok' : ClientRuntime → Act → Prop}
    (hok : ∀ s a, ok s a → ok' s.runtime a) (h : (machine K).Reachable ok s) :
    (ClientRuntime.machine K).Reachable ok' s.runtime := by
  refine h.invariant (fun s => (ClientRuntime.machine K).Reachable ok' s.runtime) ?_ ?_
  · exact fun s hs => .init hs.1
  · intro s a s' hs ha hstep
    obtain ⟨runtime, hruntime, rfl⟩ := Option.map_eq_some_iff.mp hstep
    exact hs.step (hok s a ha) hruntime

/-- Of these requests the ones on a connection. -/
def on (L : List (Conn × Request)) (c : Conn) : List Request :=
  (L.filter (·.1 = c)).map (·.2)

theorem on_concat {request : Request} :
    on (L ++ [(c, request)]) = Function.update (on L) c (on L c ++ [request]) := by
  funext c'
  by_cases heq : c' = c
  · subst heq
    simp [on]
  · simp [on, heq, Ne.symm heq]

theorem on_cons {request : Request} :
    on ((c, request) :: L) = Function.update (on L) c (request :: on L c) := by
  funext c'
  by_cases heq : c' = c
  · subst heq
    simp [on]
  · simp [on, heq, Ne.symm heq]

/-- The beginnings of what is done on each connection are told by a part of all of it. -/
theorem exists_on_of_prefix {f : Conn → List Request} (h : ∀ c, f c <+: on L c) :
    ∃ L', L'.Sublist L ∧ ∀ c, on L' c = f c := by
  induction L generalizing f with
  | nil => exact ⟨[], .refl _, fun c => (List.prefix_nil.mp (h c)).symm⟩
  | cons entry L ih =>
      obtain ⟨c, request⟩ := entry
      simp only [on_cons] at h
      cases hc : f c with
      | nil =>
          obtain ⟨L', hL', hon⟩ := ih (f := f) fun c' => by
            by_cases heq : c' = c
            · rw [heq, hc]
              exact List.nil_prefix
            · simpa [heq] using h c'
          exact ⟨L', hL'.cons _, hon⟩
      | cons first later =>
          have hfirst := h c
          rw [hc, Function.update_self] at hfirst
          obtain ⟨rfl, hlater⟩ := List.cons_prefix_cons.mp hfirst
          obtain ⟨L', hL', hon⟩ := ih (f := Function.update f c later) fun c' => by
            by_cases heq : c' = c
            · rw [heq, Function.update_self]
              exact hlater
            · simpa [heq] using h c'
          refine ⟨(c, first) :: L', hL'.cons_cons _, fun c' => ?_⟩
          rw [on_cons]
          by_cases heq : c' = c
          · rw [heq, Function.update_self, hon c, Function.update_self, hc]
          · simpa [heq] using hon c'

/-- This call was answered with this response, and no request was begun on its connection
since. -/
def Answered (s : CallLog) (call : Request) (response : List UInt8) (c : Conn) : Prop :=
  ∃ earlier y pings, s.runtime.world.record c = earlier ++ y :: pings ∧
    y.answered = some (call, response) ∧ ∀ z ∈ pings, Segment.asked z = none

theorem Answered.of_same {runtime : ClientRuntime} {call : Request} {response : List UInt8}
    (h : s.Answered call response c) (hsame : s.runtime.world.SameRequests runtime.world) :
    Answered { s with runtime := runtime } call response c := by
  obtain ⟨earlier, y, pings, hrecord, hy, hpings⟩ := h
  obtain ⟨later, hlater, hall⟩ := hsame c
  refine ⟨earlier, y, pings ++ later, ?_, hy, fun z hz => ?_⟩
  · rw [hlater, hrecord]
    simp
  · exact (List.mem_append.mp hz).elim (hpings z) (hall z)

/-- What is known of the requests while a call is under way. -/
def Told (s : CallLog) (L : List (Conn × Request)) (call : Request) : Stage → Prop
  | .before => s.runtime.ongoing .client = none →
      ∃ earlier, s.calls = earlier ++ [call] ∧ (L.map (·.2)).Sublist earlier
  | .ended c r => ∀ response, r = .ok response → s.Answered call response c
  | .cleared _ _ => True

namespace Told

variable {runtime : ClientRuntime} {call : Request}

theorem of_same (h : s.Told L call q) (hsame : s.runtime.world.SameRequests runtime.world)
    (hongoing : runtime.ongoing .client = none → s.runtime.ongoing .client = none) :
    Told { s with runtime := runtime } L call q := by
  cases q with
  | before => exact fun hnone => h (hongoing hnone)
  | ended c r => exact fun response hr => (h response hr).of_same hsame
  | cleared c e => trivial

theorem emptied (h : s.Told L call q) : s.Told L call q.emptied := by
  cases q with
  | before => exact h
  | ended c r =>
      cases r with
      | ok response => exact h
      | error e => trivial
  | cleared c e => trivial

end Told

/-- All requests that were begun, with their connections, are accounted for. -/
structure Accounts (K : ClientKind) (s : CallLog) (L : List (Conn × Request)) (q : Stage) :
    Prop where
  asked : s.runtime.world.asked (s.runtime.ongoing .client) = on L
  calls : (L.map (·.2)).Sublist s.calls
  obeys : ∀ th, s.runtime.op = some th → th.Begun K ∧
    ∃ op, s.runtime.call = some op ∧ th.task.Obeys op.rules (fun q _ r => op.Returns q r) q
  told : s.runtime.op ≠ none → s.runtime.result = none ∧ ∀ call : Request,
    s.runtime.call = some (.handleMessage call.1 call.2) → s.Told L call q
  returned : s.runtime.op = none → ∀ (call : Request) (response : List UInt8),
    s.runtime.call = some (.handleMessage call.1 call.2) →
      s.runtime.result = some (.ok response) → ∃ c, s.Answered call response c

namespace Accounts

/-- Nothing happens that concerns the requests. -/
theorem of_same {runtime : ClientRuntime} (h : Accounts K s L q)
    (hop : runtime.op = s.runtime.op ∧ runtime.call = s.runtime.call ∧
      runtime.result = s.runtime.result)
    (hsame : s.runtime.world.SameRequests runtime.world) :
    Accounts K { s with runtime := runtime } L q := by
  obtain ⟨hop, hcall, hresult⟩ := hop
  have hongoing : runtime.ongoing .client = s.runtime.ongoing .client := by
    rw [ClientRuntime.ongoing, ClientRuntime.ongoing, hop]
  refine ⟨?_, h.calls, ?_, ?_, ?_⟩
  · rw [hongoing, hsame.asked]
    exact h.asked
  · rw [hop, hcall]
    exact h.obeys
  · rw [hop, hresult, hcall]
    exact fun hsome => (h.told hsome).imp_right fun htold call hc =>
      (htold call hc).of_same hsame fun hnone => hongoing ▸ hnone
  · rw [hop, hcall, hresult]
    intro hnone call response hc hr
    obtain ⟨c, hanswered⟩ := h.returned hnone call response hc hr
    exact ⟨c, hanswered.of_same hsame⟩

/-- The operation of the caller takes a step. -/
theorem client {th th' : Thread ClientFields (Except Error (List UInt8))} {w' : World}
    {choice : Choice} (h : Accounts K s L q) (hop : s.runtime.op = some th)
    (hs : th.step K .client s.runtime.world choice = some (w', th')) :
    ∃ L' q', Accounts K
      { s with runtime := { s.runtime with
          world := w', op := some th',
          exchanged := th.outcome.or s.runtime.exchanged } } L' q' := by
  obtain ⟨hbegun, op, hcall, hobeys⟩ := h.obeys th hop
  obtain ⟨hresult, htold⟩ := h.told (by simp [hop])
  obtain ⟨q', hobeys', hmove⟩ := Thread.Moves.of_step hobeys hs
  have hongoing : s.runtime.ongoing .client = th.ongoing := by
    rw [ClientRuntime.ongoing, hop]
    rfl
  have hasked := h.asked
  rw [hongoing] at hasked
  -- what is left to prove in each case
  have build (L' : List (Conn × Request))
      (hasked' : w'.asked th'.ongoing = on L') (hcalls : (L'.map (·.2)).Sublist s.calls)
      (htold' : ∀ call : Request, op = .handleMessage call.1 call.2 →
        Told { s with runtime := { s.runtime with world := w', op := some th' } } L' call q') :
      ∃ L' q', Accounts K
        { s with runtime := { s.runtime with
            world := w', op := some th', exchanged := th.outcome.or s.runtime.exchanged } }
          L' q' := by
    refine ⟨L', q', hasked', hcalls, ?_, ?_, fun hnone => by cases hnone⟩
    · rintro th ⟨⟩
      exact ⟨hbegun.move hmove, op, hcall, hobeys'⟩
    · intro _
      refine ⟨hresult, fun call hc => ?_⟩
      exact htold' call (Option.some.inj (hcall.symm.trans hc))
  have told (call : Request) (hop : op = .handleMessage call.1 call.2) : s.Told L call q :=
    htold call (by rw [hcall, hop])
  cases hmove with
  | call hcalls hw =>
      rename_i s₀ c r k run
      obtain rfl := hbegun.running_eq_none (by rintro ts c x buffer ⟨⟩)
      obtain ⟨-, hrecord⟩ := World.call_log hw
      refine build L ((World.asked_of_record hrecord _).trans hasked) h.calls fun call hop => ?_
      have htold' : Told { s with runtime := { s.runtime with
          world := w', op := some ⟨k r, none⟩ } } L call q :=
        (told call hop).of_same (.of_record hrecord) fun _ => hongoing
      subst hop
      cases c with
      | setStream v =>
          cases v with
          | none => exact htold'.emptied
          | some c => exact htold'
      | _ => exact htold'
  | wait hex hwaits hw =>
      rename_i s₀ ts a r k run
      obtain rfl := hbegun.running_eq_none (by rintro ts c x buffer ⟨⟩; cases hex)
      obtain ⟨-, hrecord⟩ := World.wait_log hw
      refine build L ((World.asked_of_record hrecord _).trans hasked) h.calls fun call hop => ?_
      have htold' : Told { s with runtime := { s.runtime with
          world := w', op := some ⟨k (.inr r), none⟩ } } L call q :=
        (told call hop).of_same (.of_record hrecord) fun _ => hongoing
      subst hop
      cases a with
      | exchange c x buffer => cases hex
      | _ => exact htold'
  | elapse hex hwaits htimed =>
      rename_i s₀ ts a i k run
      obtain rfl := hbegun.running_eq_none (by rintro ts c x buffer ⟨⟩; cases hex)
      refine build L hasked h.calls fun call hop => ?_
      have htold' : Told { s with runtime := { s.runtime with
          op := some ⟨k (.inl i), none⟩ } } L call q :=
        (told call hop).of_same (.of_record rfl) fun _ => hongoing
      subst hop
      exact htold'
  | begins hwaits =>
      rename_i s₀ ts c x buffer k
      obtain ⟨rfl, command, data, cha, m, rfl, rfl⟩ := ClientOp.exchange_of_waits hwaits
      obtain ⟨earlier, hcalls, hsub⟩ := told (command, data) rfl hongoing
      refine build (L ++ [(c, (command, data))]) ?_ ?_ fun _ _ hnone => by cases hnone
      · rw [on_concat, ← hasked]
        exact World.asked_begins rfl
      · rw [hcalls, List.map_append]
        exact hsub.append (List.Sublist.refl _)
  | event hanswer =>
      refine build L (World.asked_event.trans hasked) h.calls fun call hop => ?_
      exact (told call hop).of_same (.of_record rfl) fun hnone => by cases hnone
  | ends =>
      rename_i s₀ ts c x buffer buffer' y k r
      obtain ⟨s₁, ts', buffer'', k', htask, -⟩ := hbegun _ rfl
      dsimp only at htask
      cases htask
      obtain ⟨rfl, command, data, cha, m, rfl, hx⟩ := ClientOp.exchange_of_waits hobeys.1
      refine build L (World.asked_ends.trans hasked) h.calls fun call hop => ?_
      intro response hr
      obtain ⟨rfl, rfl⟩ := ClientOp.handleMessage.inj hop
      subst hr
      refine ⟨s.runtime.world.record y.conn, y.ended .client (.returned (.ok response)), [], ?_, ?_,
        by simp⟩
      · exact (congrFun World.record_ends _).trans (Function.update_self ..)
      · simp [Segment.answered, Segment.asked, Ongoing.ended, hx, Exchange.asked]

theorem step {loc : Agent → Local} (h : Accounts K s L q)
    (hobeyed : (streamRegime K).Obeyed s.runtime loc) (hs : CallLog.step K s a = some s') :
    ∃ L' q', Accounts K s' L' q' := by
  obtain ⟨runtime, hruntime, rfl⟩ := Option.map_eq_some_iff.mp hs
  have hothers (ha : a.others = true) (hcalled : called a = []) :
      ∃ L' q', Accounts K ⟨runtime, s.calls ++ called a⟩ L' q' := by
    obtain ⟨hop, hsame⟩ := sameRequests_of_others hobeyed ha hruntime
    rw [hcalled, List.append_nil]
    exact ⟨L, q, h.of_same hop hsame⟩
  have hcalls : called a = [] → s.calls ++ called a = s.calls := fun h => by
    rw [h, List.append_nil]
  cases a with
  | start op =>
      simp only [ClientRuntime.step] at hruntime
      split at hruntime
      · rename_i hop
        cases hruntime
        have hnone : s.runtime.ongoing .client = none := by rw [ClientRuntime.ongoing, hop]; rfl
        have hasked := h.asked
        rw [hnone] at hasked
        refine ⟨L, .before, hasked, h.calls.trans (List.sublist_append_left _ _), ?_, ?_,
          fun hnone => by cases hnone⟩
        · rintro th ⟨⟩
          exact ⟨.of_none, op, rfl, op.program_once s.runtime.fields⟩
        · refine fun _ => ⟨rfl, fun call hcall _ => ⟨s.calls, ?_, h.calls⟩⟩
          obtain rfl := Option.some.inj hcall
          rfl
      · cases hruntime
  | client choice =>
      simp only [ClientRuntime.step] at hruntime
      split at hruntime
      · rename_i th hop
        simp only [Option.map_eq_some_iff, Prod.exists] at hruntime
        obtain ⟨w', th', hth, rfl⟩ := hruntime
        rw [hcalls rfl]
        exact h.client hop hth
      · cases hruntime
  | finish =>
      simp only [ClientRuntime.step] at hruntime
      split at hruntime
      · rename_i fields r running hop
        cases hruntime
        rw [hcalls rfl]
        obtain ⟨hbegun, op, hcall, hreturns⟩ := h.obeys _ hop
        obtain rfl := hbegun.running_eq_none_of_done
        have hasked := h.asked
        have hnone : s.runtime.ongoing .client = none := by rw [ClientRuntime.ongoing, hop]; rfl
        rw [hnone] at hasked
        refine ⟨L, q, hasked, h.calls, by rintro th ⟨⟩, fun hsome => absurd rfl hsome, ?_⟩
        intro _ call response hcall' hr
        obtain rfl := Option.some.inj (hcall.symm.trans hcall')
        obtain rfl := Option.some.inj hr
        have htold := (h.told (by simp [hop])).2 call hcall
        cases q with
        | before => obtain ⟨e, he⟩ := hreturns; cases he
        | ended c r => exact ⟨c, htold response hreturns.1.symm⟩
        | cleared c e => cases hreturns
      · cases hruntime
  | cancel =>
      simp only [ClientRuntime.step] at hruntime
      split at hruntime
      · rename_i th hop
        split at hruntime
        · cases hruntime
          rw [hcalls rfl]
          obtain ⟨hresult, -⟩ := h.told (by simp [hop])
          refine ⟨L, q, ?_, h.calls, by rintro th ⟨⟩, fun hsome => absurd rfl hsome, ?_⟩
          · have hasked := h.asked
            have hongoing : s.runtime.ongoing .client = th.ongoing := by
              rw [ClientRuntime.ongoing, hop]
              rfl
            rw [hongoing] at hasked
            change (Thread.drop .client s.runtime.world th).asked none = on L
            rw [Thread.drop, ← hasked]
            split
            · rename_i hrun
              rw [Thread.ongoing, hrun]
              rfl
            · rename_i run hrun
              rw [Thread.ongoing, hrun]
              exact World.asked_ends
          · intro _ call response _ hr
            cases hresult.symm.trans hr
        · cases hruntime
      · cases hruntime
  | ping | park | resume | turn | drop => exact hothers rfl rfl

end Accounts

/-- In every run the requests that were begun are accounted for. -/
theorem accounts_of_reachable {ok : CallLog → Act → Prop} (h : (machine K).Reachable ok s) :
    ∃ L q, Accounts K s L q := by
  have hinv : ∃ loc, (streamRegime K).Obeyed s.runtime loc ∧ ∃ L q, Accounts K s L q := by
    refine h.invariant (fun s => ∃ loc, (streamRegime K).Obeyed s.runtime loc ∧
      ∃ L q, Accounts K s L q) ?_ ?_
    · rintro s ⟨hfresh, -, hcalls⟩
      refine ⟨_, Regime.obeyed_of_fresh _ hfresh, [], .before, ?_, List.nil_sublist _, ?_, ?_, ?_⟩
      · funext c
        simp [World.asked, hfresh.record, ClientRuntime.ongoing, hfresh.op, on]
      · simp [hfresh.op]
      · simp [hfresh.op]
      · simp [hfresh.call]
    · rintro s a s' ⟨loc, hobeyed, L, q, haccounts⟩ - hs
      obtain ⟨runtime, hruntime, rfl⟩ := Option.map_eq_some_iff.mp hs
      obtain ⟨loc', hobeyed', -⟩ := hobeyed.step hruntime
      exact ⟨loc', hobeyed', haccounts.step hobeyed hs⟩
  obtain ⟨-, -, haccounts⟩ := hinv
  exact haccounts

end CallLog

end Wagonet
