import Wagonet.CallLog

/-!
What a client has done on one connection.

As long as nobody is dropped in the middle of an exchange, the exchanges of a connection
have all succeeded but for one at the end. In answer mode every request waits for a
response.
-/

namespace Wagonet

open Library ClientRuntime

/-- A request waits for a response. -/
def Exchange.AwaitsResponse : Exchange → Prop
  | .request _ _ commandHasAnswer _ => commandHasAnswer = true
  | .ping => True

theorem Exchange.awaitsResponse_of_isPing {x : Exchange} (h : x.isPing = true) :
    x.AwaitsResponse := by
  cases x with
  | request command data commandHasAnswer maxBufferSize => cases h
  | ping => trivial

namespace ClientRuntime

/-- The exchange was performed from its beginning to a good end. -/
def Segment.Succeeded (K : ClientKind) (y : Segment) : Prop :=
  y.exchange.AwaitsResponse ∧ ∃ buffer buffer' response,
    y.fate = .returned (.ok response) ∧
      (K.program y.exchange buffer).Run y.events buffer' (.ok response)

/-- The exchanges of the caller wait for responses. -/
structure Moded (s : ClientRuntime) (loc : Agent → Settings) : Prop where
  knows : KnowsFields s loc
  mode : s.fields.commandHasAnswer = true
  record : ∀ c, ∀ y ∈ s.world.record c, y.owner = .client → y.exchange.AwaitsResponse

section

variable {K : ClientKind} {s s' : ClientRuntime} {loc loc' : Agent → Settings} {a : Act}

theorem record_of_moves {w w' : World} {g : Agent} {σ α Q : Type}
    {D : Discipline ClientAwaits ClientCalls Q σ} {q q' : Q} {choice : Choice}
    {th th' : Thread σ α} (hm : th.Moves D K g w q choice w' th' q') :
    w'.record = w.record ∨ ∃ run fate, th.running = some run ∧
      w' = w.addRecord run.conn (run.ended g fate) := by
  cases hm with
  | call _ hcall => exact .inl (World.call_log hcall).2
  | wait _ _ hwait => exact .inl (World.wait_log hwait).2
  | ends => exact .inr ⟨_, _, rfl, rfl⟩
  | elapse | begins | event => exact .inl rfl

theorem mem_addRecord {w : World} {c c' : Conn} {x y : Segment}
    (h : y ∈ (w.addRecord c x).record c') : y ∈ w.record c' ∨ y = x := by
  rw [addRecord_record] at h
  by_cases heq : c' = c
  · subst heq
    rwa [Function.update_self, List.mem_append, List.mem_singleton] at h
  · rw [Function.update_of_ne heq] at h
    exact .inl h

namespace Moded

theorem exchange (h : Moded s loc) (hobeyed : (settingsRegime K).Obeyed s loc)
    {th : Thread ClientFields (Except Error (List UInt8))} (hop : s.op = some th)
    {run : Running} (hrun : th.running = some run) : run.exchange.AwaitsResponse := by
  obtain ⟨command, data, hx, -⟩ := h.knows.exchange hobeyed hop hrun
  rw [hx]
  exact h.mode

theorem step (h : Moded s loc) (hobeyed : (settingsRegime K).Obeyed s loc)
    (hm : (settingsRegime K).Moves s loc a s' loc') : Moded s' loc' := by
  have hsame := (h.knows.sameLimits hm).1
  refine ⟨h.knows.step hm, hsame.trans h.mode, ?_⟩
  -- a new entry is the exchange of the caller, or that of a ping task
  have entry {run : Running} {fate : Fate} {g : Agent}
      (hrun : g = .client → run.exchange.AwaitsResponse) :
      ∀ c, ∀ y ∈ (s.world.addRecord run.conn (run.ended g fate)).record c,
        y.owner = .client → y.exchange.AwaitsResponse := by
    intro c y hy howner
    rcases mem_addRecord hy with hy | rfl
    · exact h.record c y hy howner
    · exact hrun howner
  cases hm with
  | client hop hmove =>
      rcases record_of_moves hmove with hrecord | ⟨run, fate, hrun, rfl⟩
      · exact fun c y hy => h.record c y (hrecord ▸ hy)
      · exact entry fun _ => h.exchange hobeyed hop hrun
  | cancel hop =>
      dsimp only
      rw [Thread.drop]
      split
      · exact h.record
      · rename_i run hrun
        exact entry fun _ => h.exchange hobeyed hop hrun
  | ping _ _ hmove =>
      rcases record_of_moves hmove with hrecord | ⟨run, fate, hrun, rfl⟩
      · exact fun c y hy => h.record c y (hrecord ▸ hy)
      · exact entry fun hclient => by cases hclient
  | drop =>
      dsimp only [ClientRuntime.setPing]
      rw [Thread.drop]
      split
      · exact h.record
      · exact entry fun hclient => by cases hclient
  | _ => exact h.record

end Moded

end

/-- What has happened on a connection: these exchanges, and the beginning of one more. -/
structure Transcript (K : ClientKind) (s : ClientRuntime) (c : Conn) (done : List Segment)
    (x : Exchange) (es : List (Net Interface.empty).Event) : Prop where
  events : (s.world.wire c).map (·.2) = done.flatMap (·.events) ++ es
  succeeded : ∀ y ∈ done, y.Succeeded K
  awaits : x.AwaitsResponse
  begun : ∃ buffer t, (K.program x buffer).Partial es t
  asked : s.world.asked (s.ongoing .client) c =
    done.filterMap Segment.asked ++ x.asked.toList
  answered : s.world.answered c = done.filterMap Segment.answered
  /-- a request that has ended there has failed -/
  last : x.asked ≠ none → s.ongoing .client = none →
    ∃ z, s.world.record c = done ++ [z] ∧ z.Failed

variable {K : ClientKind} {s : ClientRuntime} {c : Conn}

theorem Segment.Valid.succeeded {y : Segment} (h : y.Valid K)
    (hmode : y.owner = .client → y.exchange.AwaitsResponse) (hy : ¬y.Failed) :
    y.Succeeded K := by
  simp only [Segment.Failed, not_forall, ne_eq, not_not] at hy
  obtain ⟨response, hr⟩ := hy
  obtain ⟨buffer, buffer', hrun⟩ := h.2 _ hr
  refine ⟨?_, buffer, buffer', response, hr, hrun⟩
  by_cases howner : y.owner = .client
  · exact hmode howner
  · exact Exchange.awaitsResponse_of_isPing (h.1.1.mpr howner)

theorem Segment.Failed.answered {y : Segment} (h : y.Failed) : y.answered = none := by
  rw [Segment.answered]
  split
  · rename_i response hr
    exact absurd hr (h response)
  · rfl

/-- An exchange that has succeeded was answered. -/
theorem Segment.Succeeded.answered {y : Segment} (h : y.Succeeded K) :
    y.answered.map (·.1) = y.asked := by
  obtain ⟨-, buffer, buffer', response, hfate, -⟩ := h
  rw [Segment.answered, hfate]
  cases y.asked <;> rfl

theorem Transcript.map_answered {done : List Segment} {x : Exchange}
    {es : List (Net Interface.empty).Event} (h : Transcript K s c done x es) :
    (s.world.answered c).map (·.1) = done.filterMap Segment.asked := by
  rw [h.answered, List.map_filterMap]
  exact List.filterMap_congr fun y hy => (h.succeeded y hy).answered

theorem flatMap_tagged (done : List Segment) (g : Agent)
    (es : List (Net Interface.empty).Event) :
    (done.flatMap Segment.tagged ++ es.map (g, ·)).map (·.2) =
      done.flatMap (·.events) ++ es := by
  rw [List.map_append, List.map_map, List.map_flatMap]
  congr 1
  · refine List.flatMap_congr fun y _ => ?_
    rw [Segment.tagged, List.map_map]
    exact List.map_id _
  · exact List.map_id _

/-- The connections of a client in answer mode, none of whose exchanges was dropped. -/
theorem transcript_of_moded (h : (machine K).Reachable Undisturbed s)
    (hmode : (∀ c, ∀ y ∈ s.world.record c, y.owner = .client → y.exchange.AwaitsResponse) ∧
      ∀ x, s.ongoing .client = some x → x.exchange.AwaitsResponse) (c : Conn) :
    ∃ done x es, Transcript K s c done x es := by
  obtain ⟨hvalid, hbeginning⟩ := valid_of_reachable h
  obtain ⟨S, hS, hR⟩ := refines_of_reachable
    (fun S l => ∀ g, l = .drop g → S.running g = none)
    (fun s S a l hR hok hl => undisturbed_tells hR hok hl) h
  obtain ⟨hsound, -, hlast⟩ := SharedStream.clean_of_reachable Segment.Failed
    (fun y r hy hfailed => hfailed r hy) (fun S g x hok hx => by simp [hok g rfl] at hx) hS
  have hgood : ∀ y ∈ S.record c, ¬y.Failed → y.Succeeded K := by
    rw [hR.shows.record]
    exact fun y hy => (hvalid c y hy).succeeded (hmode.1 c y hy)
  have hasked (c : Conn) : s.world.asked (s.ongoing .client) c =
      (S.record c).filterMap Segment.asked ++
        (((S.running .client).filter (·.conn = c)).bind (·.exchange.asked)).toList := by
    rw [World.asked, hR.shows.record, hR.running]
  have hanswered (c : Conn) : s.world.answered c = (S.record c).filterMap Segment.answered := by
    rw [World.answered, hR.shows.record]
  by_cases hrun : ∃ g x, S.running g = some x ∧ x.conn = c
  · obtain ⟨g, x, hx, rfl⟩ := hrun
    have hx' : s.ongoing g = some x := by rw [← hR.running]; exact hx
    obtain ⟨hkind, buffer, t, hpartial⟩ := hbeginning g x hx'
    refine ⟨S.record x.conn, x.exchange, x.events, ?_, ?_, ?_, ⟨buffer, t, hpartial⟩, ?_,
      hanswered x.conn, fun hasks hnone => ?_⟩
    · rw [← hR.shows.wire, hsound.logged.ongoing g x hx, flatMap_tagged]
    · exact fun y hy => hgood y hy (hlast.running g x hx y hy)
    · by_cases hg : g = .client
      · exact hmode.2 x (hg ▸ hx')
      · exact Exchange.awaitsResponse_of_isPing (hkind.mpr hg)
    · rw [hasked]
      by_cases hg : g = .client
      · subst hg
        simp [hx, Option.filter_some]
      · have hnone := hsound.exclusive.running_other (hsound.exclusive.owner_of_running hx)
          (Ne.symm hg)
        simp [hnone, Exchange.asked_of_isPing (hkind.mpr hg)]
    · by_cases hg : g = .client
      · rw [hg, hnone] at hx'
        cases hx'
      · exact absurd (Exchange.asked_of_isPing (hkind.mpr hg)) hasks
  · have hwire : s.world.wire c = (S.record c).flatMap Segment.tagged := by
      rw [← hR.shows.wire]
      exact hsound.logged.quiet c fun g x hx hc => hrun ⟨g, x, hx, hc⟩
    have hnobody : (S.running .client).filter (·.conn = c) = none := by
      cases hx : S.running .client with
      | none => rfl
      | some x => simpa [Option.filter_some] using fun hc => hrun ⟨_, x, hx, hc⟩
    have hidle : ∃ buffer t, (K.program .ping buffer).Partial [] t := ⟨.withCapacity 0, _, .refl⟩
    have hgone := hasked c
    rw [hnobody] at hgone
    rcases List.eq_nil_or_concat (S.record c) with hnil | ⟨done, last, hrecord⟩
    · exact ⟨[], .ping, [], by simp [hwire, hnil], by simp, trivial, hidle,
        by simp [hgone, hnil, Exchange.asked], by simp [hanswered, hnil], fun h => absurd rfl h⟩
    · rw [List.concat_eq_append] at hrecord
      have hdone : ∀ y ∈ done, y.Succeeded K := fun y hy =>
        hgood y (by simp [hrecord, hy]) (hlast.before c y (by simpa [hrecord] using hy))
      have hmem : last ∈ S.record c := by simp [hrecord]
      by_cases hfailed : last.Failed
      · have hlast' := hvalid c last (hR.shows.record ▸ hmem)
        obtain ⟨hkind, hbegun⟩ := hlast'.1
        refine ⟨done, last.exchange, last.events, ?_, hdone, ?_, hbegun, ?_, ?_,
          fun _ _ => ⟨last, hR.shows.record ▸ hrecord, hfailed⟩⟩
        · rw [hwire, hrecord, List.flatMap_append, List.flatMap_singleton, Segment.tagged]
          exact flatMap_tagged done last.owner last.events
        · by_cases howner : last.owner = .client
          · exact hmode.1 c last (hR.shows.record ▸ hmem) howner
          · exact Exchange.awaitsResponse_of_isPing (hkind.mpr howner)
        · rw [hgone, hrecord]
          cases hx : last.exchange.asked <;> simp [Segment.asked, hx]
        · simp [hanswered, hrecord, hfailed.answered]
      · refine ⟨done ++ [last], .ping, [], ?_, ?_, trivial, hidle, ?_, ?_, fun h => absurd rfl h⟩
        · rw [hwire, hrecord, ← flatMap_tagged _ .client [], List.map_nil, List.append_nil]
        · intro y hy
          rcases List.mem_append.mp hy with hy | hy
          · exact hdone y hy
          · rw [List.mem_singleton.mp hy]
            exact hgood last hmem hfailed
        · simp [hgone, hrecord, Exchange.asked]
        · rw [hanswered, hrecord]

end ClientRuntime

namespace CallLog

variable {K : ClientKind} {s : CallLog} {ok : CallLog → Act → Prop}

/-- The exchanges of the caller wait for responses. -/
theorem moded_of_reachable (h : (machine K).Reachable ok s) :
    (∀ c, ∀ y ∈ s.runtime.world.record c, y.owner = .client → y.exchange.AwaitsResponse) ∧
      ∀ x, s.runtime.ongoing .client = some x → x.exchange.AwaitsResponse := by
  have hinv : ∃ loc, (settingsRegime K).Obeyed s.runtime loc ∧ Moded s.runtime loc := by
    refine h.invariant (fun s => ∃ loc, (settingsRegime K).Obeyed s.runtime loc ∧
      Moded s.runtime loc) ?_ ?_
    · rintro s ⟨hfresh, hmode, -⟩
      refine ⟨_, Regime.obeyed_of_fresh _ hfresh, fun hop => absurd hfresh.op hop, hmode, ?_⟩
      simp [hfresh.record]
    · rintro s a s' ⟨loc, hobeyed, hmoded⟩ - hs
      obtain ⟨runtime, hruntime, rfl⟩ := Option.map_eq_some_iff.mp hs
      obtain ⟨loc', hobeyed', hmove⟩ := hobeyed.step hruntime
      exact ⟨loc', hobeyed', hmoded.step hobeyed hmove⟩
  obtain ⟨loc, hobeyed, hmoded⟩ := hinv
  refine ⟨hmoded.record, fun x hx => ?_⟩
  obtain ⟨th, hop, hth⟩ := Option.bind_eq_some_iff.mp hx
  obtain ⟨run, hrun, rfl⟩ := Option.map_eq_some_iff.mp hth
  exact hmoded.exchange hobeyed hop hrun

theorem transcript_of_reachable (hok : ∀ s a, ok s a → Undisturbed s.runtime a)
    (h : (machine K).Reachable ok s) (c : Conn) :
    ∃ done x es, Transcript K s.runtime c done x es :=
  transcript_of_moded (runtime_of_reachable hok h) (moded_of_reachable h) c

end CallLog

end Wagonet
