import Wagonet.ServedExchanges

/-!
A client, the connections it makes, and the tasks of a server at their other ends.

Every connection ends at a task with a command handler of its own. The network delivers
what was sent on a connection in order and unchanged, at any time or never; apart from that
the client, its ping tasks and the tasks of the server take their steps in any order.
-/

namespace Wagonet

open Library ClientRuntime ConnectionHandler

/-! ### What a client does on its connections -/

namespace ClientRuntime

variable {K : ClientKind} {r r' : ClientRuntime}

theorem Thread.Moves.wire {σ α Q : Type} {D : Discipline ClientAwaits ClientCalls Q σ}
    {g : Agent} {w w' : World} {th th' : Thread σ α} {q q' : Q} {choice : Choice}
    (hm : th.Moves D K g w q choice w' th' q') :
    w'.wire = w.wire ∨ ∃ c e, w'.wire = Function.update w.wire c (w.wire c ++ [e]) := by
  cases hm with
  | call _ hcall => exact .inl (World.call_log hcall).1
  | wait _ _ hwait => exact .inl (World.wait_log hwait).1
  | event => exact .inr ⟨_, _, addWire_wire _ _ _⟩
  | elapse | begins | ends => exact .inl rfl

theorem drop_wire {σ α : Type} {g : Agent} {w : World} {th : Thread σ α} :
    (th.drop g w).wire = w.wire := by
  rw [Thread.drop]
  split <;> rfl

/-- A step of a client adds one event at most, on one connection. -/
theorem wire_of_step {a : ClientRuntime.Act} {loc : Agent → Local}
    (hobeyed : (streamRegime K).Obeyed r loc)
    (hs : ClientRuntime.step K r a = some r') :
    r'.world.wire = r.world.wire ∨
      ∃ c e, r'.world.wire = Function.update r.world.wire c (r.world.wire c ++ [e]) := by
  obtain ⟨loc', -, hmove⟩ := hobeyed.step hs
  cases hmove with
  | client _ hm => exact hm.wire
  | ping _ _ hm => exact hm.wire
  | cancel => exact .inl drop_wire
  | drop => exact .inl drop_wire
  | _ => exact .inl rfl

/-- Only connections that were made are read and written. -/
theorem lt_connections {c : Conn}
    (h : (ClientRuntime.machine K).Reachable Machine.anyStep r) (hc : r.world.wire c ≠ []) :
    c < r.world.connections := by
  obtain ⟨S, hR, hS, -⟩ := shared_of_reachable h
  rw [← hR.shows.wire] at hc
  rw [← hR.shows.connections]
  by_cases hrun : ∃ g x, S.running g = some x ∧ x.conn = c
  · obtain ⟨g, x, hx, rfl⟩ := hrun
    exact hS.numbered.stored _ (hS.numbered.cell _ (hS.exclusive.cell_of_running hx))
  · rw [hS.logged.quiet c fun g x hx hc => hrun ⟨g, x, hx, hc⟩] at hc
    have hrecord : S.record c ≠ [] := by
      rintro hnil
      exact hc (by rw [hnil]; rfl)
    obtain ⟨c', hc', hle⟩ := hS.numbered.record c hrecord
    exact Nat.lt_of_le_of_lt hle (hS.numbered.stored c' hc')

end ClientRuntime

structure EndToEnd where
  log : CallLog
  server : Conn → ConnectionHandler

namespace EndToEnd

/-- What the client has done on a connection. -/
def events (s : EndToEnd) (c : Conn) : List (Net Interface.empty).Event :=
  (s.log.runtime.world.wire c).map (·.2)

/-- The requests that the client has begun on a connection. -/
def begun (s : EndToEnd) (c : Conn) : List Request :=
  s.log.runtime.world.asked (s.log.runtime.ongoing .client) c

/-- The requests that were answered on a connection, with their responses. -/
def answered (s : EndToEnd) (c : Conn) : List (Request × List UInt8) :=
  s.log.runtime.world.answered c

/-- What either side has got on this connection was sent by the other one. -/
def Delivers (s : EndToEnd) (c : Conn) : Prop :=
  received (s.events c) <+: (s.server c).written ∧
    received (s.server c).events ++ (s.server c).inbox.bytes <+: sent (s.events c)

instance (s : EndToEnd) (c : Conn) : Decidable (s.Delivers c) :=
  inferInstanceAs (Decidable (_ ∧ _))

/-- A command that is not reserved, and a payload whose size a header can tell. -/
def ProperCall (call : Request) : Prop := call.1 ≠ Command.ping ∧ call.2.length < 2 ^ 32

instance (call : Request) : Decidable (ProperCall call) := inferInstanceAs (Decidable (_ ∧ _))

variable {K : ClientKind} {handler : Conn → CommandHandler} {maxBufferSize : Nat}
  {s s' : EndToEnd}

/-! ### Both sides in step -/

/-- Both sides are machines of their own, connected by what was sent and received. -/
structure Sides (K : ClientKind) (handler : Conn → CommandHandler) (maxBufferSize : Nat)
    (s : EndToEnd) : Prop where
  client : (CallLog.machine K).Reachable (fun s a => Undisturbed s.runtime a) s.log
  server : ∀ c, (ConnectionHandler.machine (handler c) maxBufferSize).Reachable Heeds (s.server c)
  proper : ∀ call ∈ s.log.calls, ProperCall call
  connected : ∀ c, Connected (s.events c) (s.server c).events

namespace Sides

theorem runtime (h : Sides K handler maxBufferSize s) :
    (ClientRuntime.machine K).Reachable Undisturbed s.log.runtime :=
  CallLog.runtime_of_reachable (fun _ _ hok => hok) h.client

/-- The client takes a step, and what it has got was sent to it. -/
theorem client_step {a : ClientRuntime.Act} {log : CallLog}
    (h : Sides K handler maxBufferSize s) (hok : Undisturbed s.log.runtime a)
    (hproper : ∀ call ∈ CallLog.called a, ProperCall call) (hs : CallLog.step K s.log a = some log)
    (hdelivers : ∀ c < log.runtime.world.connections,
      ({ s with log := log } : EndToEnd).Delivers c) :
    Sides K handler maxBufferSize { s with log := log } := by
  have hreach : (CallLog.machine K).Reachable (fun s a => Undisturbed s.runtime a) log :=
    h.client.step hok hs
  obtain ⟨runtime, hruntime, rfl⟩ := Option.map_eq_some_iff.mp hs
  refine ⟨hreach, h.server, ?_, fun c => ?_⟩
  · intro call hcall
    exact (List.mem_append.mp hcall).elim (h.proper call) (hproper call)
  · obtain ⟨S, hR, -⟩ := shared_of_reachable (h.runtime.mono fun _ _ _ => trivial)
    have hconnected := h.connected c
    rcases wire_of_step hR.obeyed hruntime with hwire | ⟨c', e, hwire⟩
    · simp only [events] at hconnected ⊢
      rwa [hwire]
    by_cases heq : c = c'
    · subst heq
      have hafter : (ClientRuntime.machine K).Reachable Machine.anyStep runtime :=
        CallLog.runtime_of_reachable (fun _ _ _ => trivial) hreach
      have hlt := lt_connections (c := c) hafter (by rw [hwire]; simp)
      have hreceived := (hdelivers c hlt).1
      simp only [events, hwire, Function.update_self, List.map_append, List.map_cons,
        List.map_nil] at hreceived hconnected ⊢
      exact hconnected.left hreceived
    · simp only [events, hwire, Function.update_of_ne heq] at hconnected ⊢
      exact hconnected

/-- The tasks at the other ends go on, and what one of them has got was sent to it. -/
theorem server_step {handler' : Conn → CommandHandler} {server : Conn → ConnectionHandler}
    (h : Sides K handler maxBufferSize s)
    (hreach : ∀ c,
      (ConnectionHandler.machine (handler' c) maxBufferSize).Reachable Heeds (server c))
    (hevents : ∀ c, (server c).events = (s.server c).events ∨
      ∃ e, (server c).events = (s.server c).events ++ [e] ∧
        ({ s with server := server } : EndToEnd).Delivers c) :
    Sides K handler' maxBufferSize { s with server := server } := by
  refine ⟨h.client, hreach, h.proper, fun c => ?_⟩
  have hconnected : Connected (s.events c) (s.server c).events := h.connected c
  rcases hevents c with hsame | ⟨e, hmore, hdelivers⟩
  · dsimp only
    rw [hsame]
    exact hconnected
  · have hreceived := (List.prefix_append _ _).trans hdelivers.2
    dsimp only at hreceived ⊢
    rw [hmore] at hreceived ⊢
    exact hconnected.right hreceived

end Sides

/-! ### Requests are handled once -/

theorem proper_of_asked {x : Exchange}
    (h : ∀ request, x.asked = some request → ProperCall request) : x.Proper := by
  cases x with
  | request command data cha limit => exact h (command, data) rfl
  | ping => trivial

/-- Each request that was begun is one of the calls. -/
theorem Sides.proper_begun (h : Sides K handler maxBufferSize s) {c : Conn} {request : Request}
    (hmem : request ∈ s.begun c) : ProperCall request := by
  obtain ⟨L, q, haccounts⟩ := CallLog.accounts_of_reachable h.client
  have hbegun : s.begun c = CallLog.on L c := congrFun haccounts.asked c
  rw [hbegun, CallLog.on, List.mem_map] at hmem
  obtain ⟨entry, hentry, rfl⟩ := hmem
  exact h.proper _ (haccounts.calls.subset (List.mem_map_of_mem (List.mem_filter.mp hentry).1))

/-- Client and server agree on what was done on a connection. -/
theorem Sides.agree (h : Sides K handler maxBufferSize s) {c : Conn}
    (hdeclared : Declared (handler c)) :
    ∃ done x es, Transcript K s.log.runtime c done x es ∧
      ((s.server c).handled = done.filterMap Segment.asked ∨
        (s.server c).handled = done.filterMap Segment.asked ++ x.asked.toList) ∧
      (handler c).Answers (s.answered c) := by
  obtain ⟨done, x, es, htranscript⟩ := CallLog.transcript_of_reachable (fun _ _ hok => hok)
    h.client c
  obtain ⟨hloop, hfaithful⟩ := loop_of_reachable (P := fun _ => True)
    (h.server c) fun _ a hheeds => ⟨hheeds, by cases a <;> trivial⟩
  have hconnected := h.connected c
  rw [events, htranscript.events] at hconnected
  have hproper {x : Exchange} (hx : ∀ request, x.asked = some request → request ∈ s.begun c) :
      x.Proper := proper_of_asked fun request hrequest => h.proper_begun (hx request hrequest)
  have hbegun : s.begun c = done.filterMap Segment.asked ++ x.asked.toList := htranscript.asked
  have hdone : ∀ y ∈ done, y.Succeeded K ∧ y.exchange.Proper := by
    refine fun y hy => ⟨htranscript.succeeded y hy, hproper fun request hrequest => ?_⟩
    rw [hbegun]
    exact List.mem_append_left _ (List.mem_filterMap.mpr ⟨y, hy, hrequest⟩)
  have hx : x.Proper := by
    refine hproper fun request hrequest => ?_
    rw [hbegun, hrequest]
    exact List.mem_append_right _ (by simp)
  obtain ⟨hhandled, hanswers⟩ := hconnected.agree hloop hfaithful hdeclared hdone hx
    htranscript.begun
  have hanswered : s.answered c = done.filterMap Segment.answered := htranscript.answered
  exact ⟨done, x, es, htranscript, hhandled, hanswered ▸ hanswers⟩

/-- On each connection the command handler is entered with the requests in the order in
which they were begun: with all that were answered, and with none that was not begun. Each
response is what it answers to the requests up to this one. -/
theorem Sides.in_order (h : Sides K handler maxBufferSize s)
    (hdeclared : ∀ c, Declared (handler c)) (c : Conn) :
    (s.answered c).map (·.1) <+: (s.server c).handled ∧ (s.server c).handled <+: s.begun c ∧
      (handler c).Answers (s.answered c) := by
  obtain ⟨done, x, es, htranscript, hhandled, hanswers⟩ :=
    h.agree (hdeclared c)
  have hanswered : (s.answered c).map (·.1) = done.filterMap Segment.asked :=
    htranscript.map_answered
  have hbegun : s.begun c = done.filterMap Segment.asked ++ x.asked.toList := htranscript.asked
  refine ⟨?_, ?_, hanswers⟩
  · rw [hanswered]
    rcases hhandled with hhandled | hhandled
    · exact hhandled ▸ List.prefix_rfl
    · exact hhandled ▸ List.prefix_append _ _
  · rw [hbegun]
    rcases hhandled with hhandled | hhandled
    · exact hhandled ▸ List.prefix_append _ _
    · exact hhandled ▸ List.prefix_rfl

/-- All that is handled on all connections are calls of `handle_message`, each of them
handled once at most and in the order of the calls. -/
theorem Sides.once (h : Sides K handler maxBufferSize s)
    (hdeclared : ∀ c, Declared (handler c)) :
    ∃ L : List (Conn × Request), (L.map (·.2)).Sublist s.log.calls ∧
      ∀ c, (s.server c).handled = CallLog.on L c := by
  obtain ⟨L, q, haccounts⟩ := CallLog.accounts_of_reachable h.client
  obtain ⟨L', hL', hon⟩ := CallLog.exists_on_of_prefix (L := L)
    (f := fun c => (s.server c).handled) fun c => by
      obtain ⟨done, x, es, htranscript, hhandled, -⟩ := h.agree (hdeclared c)
      rw [← haccounts.asked, htranscript.asked]
      rcases hhandled with hhandled | hhandled
      · exact hhandled ▸ List.prefix_append _ _
      · exact hhandled ▸ List.prefix_rfl
  exact ⟨L', (hL'.map _).trans haccounts.calls, fun c => (hon c).symm⟩

/-- A response that `handle_message` returns is what the command handler of some connection
has answered to this very request, which it has handled last. -/
theorem Sides.returned (h : Sides K handler maxBufferSize s)
    (hdeclared : ∀ c, Declared (handler c)) {command : UInt32} {data response : List UInt8}
    (hop : s.log.runtime.op = none)
    (hcall : s.log.runtime.call = some (.handleMessage command data))
    (hresult : s.log.runtime.result = some (.ok response)) :
    ∃ c earlier, (s.server c).handled = earlier ++ [(command, data)] ∧
      handler c (earlier ++ [(command, data)]) = .ok (.ok, response) := by
  obtain ⟨L, q, haccounts⟩ := CallLog.accounts_of_reachable h.client
  obtain ⟨c, earlier, y, pings, hrecord, hy, hpings⟩ :=
    haccounts.returned hop (command, data) response hcall hresult
  obtain ⟨done, x, es, htranscript, hhandled, hanswers⟩ := h.agree (hdeclared c)
  have hongoing : s.log.runtime.ongoing .client = none := by
    rw [ClientRuntime.ongoing, hop]
    rfl
  have hasked := htranscript.asked
  rw [hongoing, World.asked] at hasked
  simp only [Option.filter_none, Option.bind_none, Option.toList_none, List.append_nil] at hasked
  -- the last request on the connection is the one that was answered
  have hnone : x.asked = none := by
    by_contra hasks
    obtain ⟨z, hz, hfailed⟩ := htranscript.last hasks hongoing
    rw [hz, List.filterMap_append, List.append_cancel_left_eq] at hasked
    rw [hrecord] at hz
    rcases List.eq_nil_or_concat pings with rfl | ⟨init, z', rfl⟩
    · obtain ⟨-, hlast⟩ := List.append_inj' hz rfl
      rw [List.singleton_inj.mp hlast, hfailed.answered] at hy
      cases hy
    · rw [List.concat_eq_append, ← List.cons_append, ← List.append_assoc] at hz
      obtain ⟨-, hlast⟩ := List.append_inj' hz rfl
      have hz' := hpings z' (by simp)
      rw [List.singleton_inj.mp hlast] at hz'
      rw [List.filterMap_cons_none hz'] at hasked
      cases hx : x.asked with
      | none => exact hasks hx
      | some request => simp [hx] at hasked
  rw [hnone] at hasked hhandled
  simp only [Option.toList_none, List.append_nil, or_self] at hasked hhandled
  have hanswered : (s.answered c).map (·.1) = done.filterMap Segment.asked :=
    htranscript.map_answered
  have hlast : s.answered c =
      earlier.filterMap Segment.answered ++ [((command, data), response)] := by
    rw [answered, World.answered, hrecord, List.filterMap_append, List.filterMap_cons_some hy,
      List.filterMap_eq_nil_iff.mpr fun z hz => Segment.answered_of_asked (hpings z hz)]
  refine ⟨c, (earlier.filterMap Segment.answered).map (·.1), ?_, ?_⟩
  · rw [hhandled, ← hanswered, hlast, List.map_append]
    rfl
  · exact hanswers _ _ _ [] hlast

end EndToEnd

end Wagonet
