import Wagonet.ClientRefinement
import Wagonet.ConnectionReuse

/-!
What is on the wire of a connection.

The exchanges of a connection follow one another: each is a run of its program,
and as long as nobody is dropped in the middle of one, all but the last are whole.
-/

namespace Wagonet

open Library

namespace ClientRuntime

variable {K : ClientKind}

/-- The caller makes requests, and ping tasks send pings. -/
def OwnKind (g : Agent) (x : Exchange) : Prop := x.isPing = true ↔ g ≠ .client

/-- An exchange that was performed from its beginning to a good end. -/
def Segment.Whole (K : ClientKind) (y : Segment) : Prop :=
  OwnKind y.owner y.exchange ∧
    ∃ buffer buffer' response, (K.program y.exchange buffer).Run y.events buffer' (.ok response)

/-- An exchange that was begun, and perhaps not finished. -/
def Beginning (K : ClientKind) (g : Agent) (x : Exchange) (es : List (Net Interface.empty).Event) :
    Prop :=
  OwnKind g x ∧ ∃ buffer t, (K.program x buffer).Partial es t

/-- What is recorded of an exchange is what its program did. -/
def Segment.Valid (K : ClientKind) (y : Segment) : Prop :=
  Beginning K y.owner y.exchange y.events ∧
    ∀ r, y.fate = .returned r →
      ∃ buffer buffer', (K.program y.exchange buffer).Run y.events buffer' r

theorem Segment.Valid.whole {y : Segment} {response : List UInt8} (h : y.Valid K)
    (hr : y.fate = .returned (.ok response)) : y.Whole K := by
  obtain ⟨buffer, buffer', hrun⟩ := h.2 _ hr
  exact ⟨h.1.1, buffer, buffer', response, hrun⟩

section

variable {σ α : Type} {caller : Bool} {g : Agent} {w w' : World} {th th' : Thread σ α}
  {q q' : Local} {choice : Choice} {final : Local → σ → α → Prop}

theorem valid_addRecord {c : Conn} {x : Segment} (h : ∀ c, ∀ y ∈ w.record c, y.Valid K)
    (hx : x.Valid K) : ∀ c', ∀ y ∈ (w.addRecord c x).record c', y.Valid K := by
  intro c' y hy
  rw [addRecord_record] at hy
  by_cases heq : c' = c
  · subst heq
    rw [Function.update_self, List.mem_append, List.mem_singleton] at hy
    rcases hy with hy | rfl
    · exact h c' y hy
    · exact hx
  · rw [Function.update_of_ne heq] at hy
    exact h c' y hy

/-- The exchange that a thread is in. -/
theorem Thread.Begun.beginning {run : Running} (hcaller : caller = true ↔ g = .client)
    (hbegun : th.Begun K) (hobeys : th.task.Obeys (Local.discipline caller) final q)
    (hrun : th.running = some run) : Beginning K g run.exchange run.events := by
  obtain ⟨s, ts, buffer, k, htask, hpartial⟩ := hbegun run hrun
  rw [htask] at hobeys
  obtain ⟨-, -, hping⟩ := hobeys.1
  refine ⟨?_, buffer, run.task, hpartial⟩
  rw [OwnKind, hping, Ne, ← hcaller, Bool.not_eq_true', Bool.not_eq_true]

theorem Thread.Moves.valid (h : ∀ c, ∀ y ∈ w.record c, y.Valid K)
    (hcaller : caller = true ↔ g = .client) (hbegun : th.Begun K)
    (hobeys : th.task.Obeys (Local.discipline caller) final q)
    (hm : th.Moves (Local.discipline caller) K g w q choice w' th' q') :
    ∀ c, ∀ y ∈ w'.record c, y.Valid K := by
  cases hm with
  | call hcalls hcall =>
      rw [(World.call_log hcall).2]
      exact h
  | wait hex hwaits hwait =>
      rw [(World.wait_log hwait).2]
      exact h
  | elapse => exact h
  | begins => exact h
  | event => exact h
  | ends =>
      rename_i s ts c x buffer buffer' y k r
      have hbeginning := hbegun.beginning hcaller hobeys rfl
      obtain ⟨s', ts', buffer'', k', htask, hpartial⟩ := hbegun _ rfl
      refine valid_addRecord h ⟨hbeginning, fun r' hr' => ?_⟩
      cases hr'
      have hrun := hpartial.run .done
      rw [List.append_nil] at hrun
      exact ⟨buffer'', buffer', hrun⟩

theorem Thread.valid_drop (h : ∀ c, ∀ y ∈ w.record c, y.Valid K)
    (hcaller : caller = true ↔ g = .client) (hbegun : th.Begun K)
    (hobeys : th.task.Obeys (Local.discipline caller) final q) :
    ∀ c, ∀ y ∈ (th.drop g w).record c, y.Valid K := by
  rw [Thread.drop]
  split
  · exact h
  · rename_i run hrun
    exact valid_addRecord h ⟨hbegun.beginning hcaller hobeys hrun, by rintro _ ⟨⟩⟩

end

/-- All exchanges that are recorded, and those that go on, are runs of their programs. -/
theorem valid_of_reachable {ok : ClientRuntime → Act → Prop} {s : ClientRuntime}
    (h : (machine K).Reachable ok s) :
    (∀ c, ∀ y ∈ s.world.record c, y.Valid K) ∧
      ∀ g x, s.ongoing g = some x → Beginning K g x.exchange x.events := by
  have hstep : ∀ s loc a s' loc', (streamRegime K).Obeyed s loc →
      (∀ c, ∀ y ∈ s.world.record c, y.Valid K) → (streamRegime K).Moves s loc a s' loc' →
        ∀ c, ∀ y ∈ s'.world.record c, y.Valid K := by
    intro s loc a s' loc' hobeyed hI hmove
    cases hmove with
    | client hop hmove =>
        obtain ⟨hbegun, op, -, hobeys⟩ := hobeyed.client _ hop
        exact hmove.valid hI (by simp) hbegun hobeys
    | cancel hop =>
        obtain ⟨hbegun, op, -, hobeys⟩ := hobeyed.client _ hop
        exact Thread.valid_drop hI (by simp) hbegun hobeys
    | ping halive _ hmove =>
        obtain ⟨hbegun, hobeys⟩ := hobeyed.ping _ halive.2
        exact hmove.valid hI (by simp) hbegun hobeys
    | drop halive =>
        obtain ⟨hbegun, hobeys⟩ := hobeyed.ping _ halive.2
        exact Thread.valid_drop hI (by simp) hbegun hobeys
    | _ => exact hI
  obtain ⟨loc, hobeyed, hvalid⟩ := (streamRegime K).invariant
    (fun s _ => ∀ c, ∀ y ∈ s.world.record c, y.Valid K)
    (fun s hs c => by simp [hs.record c])
    (fun s loc a s' loc' hobeyed hI _ hmove => hstep s loc a s' loc' hobeyed hI hmove) h
  refine ⟨hvalid, fun g x hx => ?_⟩
  cases g with
  | client =>
      obtain ⟨th, hop, hth⟩ := Option.bind_eq_some_iff.mp hx
      obtain ⟨run, hrun, rfl⟩ := Option.map_eq_some_iff.mp hth
      obtain ⟨hbegun, op, -, hobeys⟩ := hobeyed.client th hop
      exact hbegun.beginning (by simp) hobeys hrun
  | ping t =>
      simp only [ongoing, Option.ite_none_left_eq_some] at hx
      obtain ⟨hlive, hth⟩ := hx
      obtain ⟨run, hrun, rfl⟩ := Option.map_eq_some_iff.mp hth
      obtain ⟨hbegun, hobeys⟩ := hobeyed.ping t (by simpa using hlive)
      exact hbegun.beginning (by simp) hobeys hrun

/-! ### Exchanges are not mixed -/

/-- Nobody is dropped in the middle of an exchange. -/
def Undisturbed (s : ClientRuntime) : Act → Prop
  | .cancel => s.ongoing .client = none
  | .drop t => s.ongoing (.ping t) = none
  | _ => True

/-- The exchange did not come to a good end. -/
def Segment.Failed (y : Segment) : Prop := ∀ response, y.fate ≠ .returned (.ok response)

theorem Segment.Valid.whole_of_not_failed {y : Segment} (h : y.Valid K) (hy : ¬y.Failed) :
    y.Whole K := by
  simp only [Segment.Failed, not_forall, ne_eq, not_not] at hy
  obtain ⟨response, hr⟩ := hy
  exact h.whole hr

theorem undisturbed_tells {s : ClientRuntime} {S : SharedStream} {a : Act}
    {l : SharedStream.Label} (h : Refines K s S) (hok : Undisturbed s a) (hl : a.Tells s l) :
    ∀ g, l = .drop g → S.running g = none := by
  rintro g rfl
  rw [h.running]
  cases a with
  | cancel =>
      cases hl
      exact hok
  | drop t =>
      obtain ⟨-, hl⟩ := hl
      cases hl
      exact hok
  | client choice =>
      obtain ⟨th, -, hth⟩ := hl
      cases hth
  | ping t choice => cases hl
  | start op => cases hl
  | _ => cases hl

/-- Pings and requests exclude each other: what is written to a connection and read from
it is one whole exchange after the other, with at most one at the end that goes on or has
failed. -/
theorem exchanges_exclusive {s : ClientRuntime} (h : (machine K).Reachable Undisturbed s)
    (c : Conn) :
    ∃ (done : List Segment) (g : Agent) (x : Exchange) (es : List _),
      s.world.wire c = done.flatMap Segment.tagged ++ es.map (g, ·) ∧
        (∀ y ∈ done, y.Whole K) ∧ Beginning K g x es := by
  obtain ⟨hvalid, hbeginning⟩ := valid_of_reachable h
  obtain ⟨S, hS, hR⟩ := refines_of_reachable
    (fun S l => ∀ g, l = .drop g → S.running g = none)
    (fun s S a l hR hok hl => undisturbed_tells hR hok hl) h
  obtain ⟨hsound, -, hlast⟩ := SharedStream.clean_of_reachable Segment.Failed
    (fun y r hy hfailed => hfailed r hy) (fun S g x hok hx => by simp [hok g rfl] at hx) hS
  rw [← hR.shows.wire]
  rw [← hR.shows.record] at hvalid
  rw [← hR.running] at hbeginning
  by_cases hrun : ∃ g x, S.running g = some x ∧ x.conn = c
  · obtain ⟨g, x, hx, rfl⟩ := hrun
    exact ⟨S.record x.conn, g, x.exchange, x.events, hsound.logged.ongoing g x hx,
      fun y hy => (hvalid _ y hy).whole_of_not_failed (hlast.running g x hx y hy),
      hbeginning g x hx⟩
  · have hwire := hsound.logged.quiet c fun g x hx hc => hrun ⟨g, x, hx, hc⟩
    have hwhole : ∀ y ∈ (S.record c).dropLast, y.Whole K := fun y hy =>
      (hvalid c y (List.dropLast_subset _ hy)).whole_of_not_failed (hlast.before c y hy)
    rcases List.eq_nil_or_concat (S.record c) with hnil | ⟨done, last, hrecord⟩
    · refine ⟨[], .client, .request 0 [] true 0, [], by simp [hwire, hnil], nofun, ?_, ?_⟩
      · simp [OwnKind, Exchange.isPing]
      · exact ⟨.withCapacity 0, _, .refl⟩
    · rw [List.concat_eq_append] at hrecord
      rw [hrecord, List.dropLast_concat] at hwhole
      refine ⟨done, last.owner, last.exchange, last.events, ?_, hwhole, ?_⟩
      · rw [hwire, hrecord]
        simp [Segment.tagged]
      · exact (hvalid c last (by simp [hrecord])).1

theorem undisturbed_of_dropsNone {s : ClientRuntime} {a : Act} (h : a.dropsNone = true) :
    Undisturbed s a := by
  cases a <;> trivial

/-- A ping is sent and answered, and then a request is begun. -/
theorem exchanges_exclusive_pingThenCall :
    ∃ s, (machine .tl).run new (connecting ++ pinging ++ pingAnswered ++
        [.start (.handleMessage 7 [])] ++ clientGoes 7 ++ [.client (.written 5)]) = some s ∧
      (s.world.wire 0).map (·.1) = [.ping 0, .ping 0, .ping 0, .ping 0, .client] ∧
      ∃ (done : List Segment) (g : Agent) (x : Exchange) (es : List _),
        s.world.wire 0 = done.flatMap Segment.tagged ++ es.map (g, ·) ∧
          (∀ y ∈ done, y.Whole .tl) ∧ Beginning .tl g x es := by
  obtain ⟨s, hs, hproj⟩ := Option.map_eq_some_iff.mp
    (show ((machine .tl).run new (connecting ++ pinging ++ pingAnswered ++
        [.start (.handleMessage 7 [])] ++ clientGoes 7 ++ [.client (.written 5)])).map
      (fun s => (s.world.wire 0).map (·.1)) =
        some [.ping 0, .ping 0, .ping 0, .ping 0, .client] by decide +kernel)
  have hdrops : ∀ a ∈ connecting ++ pinging ++ pingAnswered ++ [.start (.handleMessage 7 [])] ++
      clientGoes 7 ++ [.client (.written 5)], a.dropsNone = true := by decide
  have hreach : (machine .tl).Reachable Undisturbed s :=
    Machine.Reachable.run (.init fresh_new)
      (fun a ha _ => undisturbed_of_dropsNone (hdrops a ha)) hs
  exact ⟨s, hs, hproj, exchanges_exclusive hreach 0⟩

end ClientRuntime

end Wagonet
