import Wagonet.PingControl

/-!
Pings that are switched off.

A ping task that was started with pings enabled does not look at `enabled` again: it
reads the interval only. So switching pings off is heeded just if no ping task goes on:
all have ended, or were aborted and are suspended.
-/

namespace Wagonet

open Library

namespace ClientRuntime

variable {K : ClientKind} {s s' : ClientRuntime} {loc loc' : Agent → Control} {a : Act}

/-- Each ping task has ended, or it was aborted and is suspended. -/
def NoneRuns (s : ClientRuntime) : Prop :=
  ∀ t < s.world.homes.length,
    (s.pings t).ended = true ∨ (t ∈ s.world.aborted ∧ (s.pings t).parked = true)

instance (s : ClientRuntime) : Decidable s.NoneRuns :=
  inferInstanceAs (Decidable (∀ t < s.world.homes.length, _ ∨ (_ ∧ _)))

/-- The next step of the caller's operation switches pings off. -/
def disables (s : ClientRuntime) : Bool :=
  match s.op with
  | some ⟨.await _ (.call (.setConfig v)) _, _⟩ => !v.enabled
  | _ => false

/-- Pings are switched off only while no ping task goes on. -/
def DisablesIdle (s : ClientRuntime) : Act → Prop
  | .client _ => s.disables = true → s.NoneRuns
  | _ => True

instance (s : ClientRuntime) : ∀ a, Decidable (DisablesIdle s a)
  | .client _ => inferInstanceAs (Decidable (_ → _))
  | .start _ | .finish | .cancel | .ping _ _ | .park _ | .resume _ | .turn _ | .drop _ =>
      .isTrue trivial

/-- A ping is under way only if pings were enabled when its task read the configuration
last. -/
def PingsEnabled (s : ClientRuntime) : Prop :=
  ∀ t, s.alive t → (s.pings t).thread.running.isSome = true →
    s.world.sawEnabled (.ping t) = true

/-- Whoever goes on has seen pings enabled, and they still are. -/
structure Silent (s : ClientRuntime) (loc : Agent → Control) : Prop where
  saw : ∀ t, s.world.sawEnabled (.ping t) = true
  none : s.world.config.enabled = false → s.NoneRuns
  known : (loc .client).enabled = true → s.world.config.enabled = true

namespace Silent

theorem enabled_of_alive (h : Silent s loc) {t : Nat} (ht : s.alive t)
    (hrun : (s.pings t).parked = false ∨ t ∉ s.world.aborted) :
    s.world.config.enabled = true := by
  by_contra hoff
  rcases h.none (by simpa using hoff) t ht.1 with hended | ⟨habort, hparked⟩
  · exact absurd (ht.2.symm.trans hended) nofun
  · rcases hrun with hrun | hrun
    · exact absurd (hrun.symm.trans hparked) nofun
    · exact absurd habort hrun

/-- The ping tasks and the configuration stay as they are. -/
theorem of_same (h : Silent s loc)
    (hworld : (s'.world.config, s'.world.sawEnabled, s'.world.homes, s'.world.aborted) =
      (s.world.config, s.world.sawEnabled, s.world.homes, s.world.aborted))
    (hpings : s'.pings = s.pings)
    (hknown : (loc' .client).enabled = true → (loc .client).enabled = true) :
    Silent s' loc' := by
  simp only [Prod.mk.injEq] at hworld
  obtain ⟨hconfig, hsaw, hhomes, haborted⟩ := hworld
  refine ⟨?_, ?_, ?_⟩
  · rw [hsaw]
    exact h.saw
  · rw [NoneRuns, hconfig, hhomes, haborted, hpings]
    exact h.none
  · rw [hconfig]
    exact fun hq => h.known (hknown hq)

/-- A ping task is suspended or polled again, or an iteration of it ends. -/
theorem setPing (h : Silent s loc) {t : Nat} {p : PingTask}
    (hp : s.world.config.enabled = false → (s.pings t).ended = true ∨
      (t ∈ s.world.aborted ∧ (s.pings t).parked = true) →
        p.ended = true ∨ (t ∈ s.world.aborted ∧ p.parked = true)) :
    Silent (s.setPing t p) loc := by
  refine ⟨h.saw, fun hoff t' ht' => ?_, h.known⟩
  by_cases heq : t' = t
  · subst heq
    simpa [ClientRuntime.setPing] using hp hoff (h.none hoff t' ht')
  · simpa [ClientRuntime.setPing, heq] using h.none hoff t' ht'

/-- A call of the caller's operation. -/
theorem client_call (h : Silent s loc) {c : ClientCall} {r : c.Reply} {choice : Choice}
    (hc : Control.discipline.calls (loc .client) c)
    (hoff : ∀ v, c = .setConfig v → v.enabled = false → s.NoneRuns)
    (hcall : s.world.call .client c choice = some (r, s'.world)) (hpings : s'.pings = s.pings)
    (hloc : loc' .client = Control.discipline.called (loc .client) c r) : Silent s' loc' := by
  have hw := World.sameTasks_of_call hcall
  have hknown (hload : c ≠ .loadConfig) (hset : ∀ v, c ≠ .setConfig v)
      (hq : (loc' .client).enabled = true) : (loc .client).enabled = true := by
    rwa [hloc, Control.called_enabled hload hset] at hq
  cases c with
  | loadConfig =>
      cases choice <;> simp only [World.call, reduceCtorEq] at hcall
      obtain ⟨rfl, -⟩ := Prod.mk.inj (Option.some.inj hcall)
      refine ⟨fun t => ?_, ?_, ?_⟩
      · rw [hw.sawEnabled]
        exact h.saw t
      · rw [NoneRuns, hw.config, hw.homes, hw.aborted, hpings]
        exact h.none
      · rw [hw.config, hloc]
        exact id
  | setConfig v =>
      refine ⟨fun t => ?_, fun hv => ?_, fun hq => ?_⟩
      · rw [hw.sawEnabled]
        exact h.saw t
      · rw [hw.config] at hv
        rw [NoneRuns, hw.homes, hw.aborted, hpings]
        exact hoff v rfl hv
      · rw [hloc] at hq
        rw [hw.config]
        exact hq
  | spawn =>
      -- pings are enabled, and so there is nothing to show of the new task
      have hconfig : s'.world.config.enabled = true := by
        rw [hw.config]
        exact h.known hc.2.1
      refine ⟨fun t => ?_, fun hv => ?_, fun _ => hconfig⟩
      · rw [hw.sawEnabled]
        exact h.saw t
      · exact absurd (hconfig.symm.trans hv) (by simp)
  | abort t =>
      have habort : ∀ t' ∈ s.world.aborted, t' ∈ s'.world.aborted := by
        intro t' ht'
        rw [hw.aborted]
        simp only [World.after]
        split
        · exact List.mem_cons_of_mem _ ht'
        · exact ht'
      refine ⟨fun t => ?_, fun hv t' ht' => ?_, fun hq => ?_⟩
      · rw [hw.sawEnabled]
        exact h.saw t
      · rw [hw.config] at hv
        rw [hw.homes] at ht'
        rw [hpings]
        exact (h.none hv t' ht').imp_right (And.imp_left (habort t'))
      · rw [hloc] at hq
        rw [hw.config]
        exact h.known hq
  | setStream v =>
      refine h.of_same ?_ hpings (hknown (by simp) (by simp))
      rw [hw.config, hw.sawEnabled, hw.homes, hw.aborted]
      cases v <;> rfl
  | _ =>
      refine h.of_same ?_ hpings (hknown (by simp) (by simp))
      rw [hw.config, hw.sawEnabled, hw.homes, hw.aborted]
      rfl

/-- A call of a ping task. -/
theorem ping_call (h : Silent s loc) {t : Nat} {c : ClientCall} {r : c.Reply} {choice : Choice}
    {w' : World} {th : Thread Unit (Except Error Bool)} {q' : Control} (ht : s.alive t)
    (hparked : (s.pings t).parked = false)
    (hc : Control.pingDiscipline.calls (loc (.ping t)) c)
    (hcall : s.world.call (.ping t) c choice = some (r, w')) :
    Silent ({ s with world := w' }.setPing t { s.pings t with thread := th })
      (Function.update loc (.ping t) q') := by
  have hw := World.sameTasks_of_call hcall
  have hon := h.enabled_of_alive ht (.inl hparked)
  have hsame : (w'.config, w'.homes, w'.aborted) =
      (s.world.config, s.world.homes, s.world.aborted) := by
    rw [hw.config, hw.homes, hw.aborted]
    cases c with
    | setStream v => cases v <;> rfl
    | setConfig v => exact hc.elim
    | spawn => exact hc.elim
    | abort t' => exact hc.elim
    | _ => rfl
  simp only [Prod.mk.injEq] at hsame
  obtain ⟨hconfig, hhomes, haborted⟩ := hsame
  refine ⟨fun t' => ?_, fun hoff => ?_, fun _ => ?_⟩
  · change w'.sawEnabled (.ping t') = true
    rw [hw.sawEnabled]
    cases c with
    | loadConfig =>
        simp only [World.after]
        split
        · exact hon
        · exact h.saw t'
    | setStream v => cases v <;> exact h.saw t'
    | _ => exact h.saw t'
  · change w'.config.enabled = false at hoff
    rw [hconfig] at hoff
    exact absurd (hon.symm.trans hoff) (by simp)
  · change w'.config.enabled = true
    rw [hconfig]
    exact hon

theorem step (h : Silent s loc) (hok : DisablesIdle s a)
    (hm : (controlRegime K).Moves s loc a s' loc') : Silent s' loc' := by
  cases hm with
  | start hop => exact h.of_same rfl rfl (by simp [controlRegime, Control.start])
  | client hop hmove =>
      rename_i choice w' q' th th'
      rcases hmove.tasks with ⟨hw, hq⟩ | ⟨c, r, hc, hcall, rfl, s₀, k, run, rfl, rfl⟩
      · refine h.of_same ?_ rfl fun henabled => ?_
        · change (w'.config, w'.sawEnabled, w'.homes, w'.aborted) = _
          rw [hw.config, hw.sawEnabled, hw.homes, hw.aborted]
        · rw [Function.update_self] at henabled
          rcases hq with rfl | ⟨a, r, rfl⟩ | rfl
          · exact henabled
          · rwa [show (controlRegime K).client = Control.discipline from rfl,
              Control.waited_enabled] at henabled
          · exact henabled
      · refine h.client_call hc (fun v hv hoff => hok ?_) hcall rfl (Function.update_self ..)
        subst hv
        simp [disables, hop, hoff]
  | finish hop hcall hends => exact h.of_same rfl rfl id
  | cancel hop hbegun hwaits =>
      rename_i th
      have hw : s.world.SameTasks (th.drop .client s.world) := World.sameTasks_drop
      refine h.of_same ?_ rfl fun henabled => ?_
      · change ((th.drop .client s.world).config, (th.drop .client s.world).sawEnabled,
          (th.drop .client s.world).homes, (th.drop .client s.world).aborted) = _
        rw [hw.config, hw.sawEnabled, hw.homes, hw.aborted]
      · rw [Function.update_self] at henabled
        cases henabled
  | ping halive hparked hmove =>
      rename_i t choice w' q' th'
      rcases hmove.tasks with ⟨hw, -⟩ | ⟨c, r, hc, hcall, rfl, s₀, k, run, hth, rfl⟩
      · have hworld : Silent { s with world := w' } (Function.update loc (.ping t) q') := by
          refine h.of_same ?_ rfl (by simp)
          change (w'.config, w'.sawEnabled, w'.homes, w'.aborted) = _
          rw [hw.config, hw.sawEnabled, hw.homes, hw.aborted]
        exact hworld.setPing fun _ hp => hp
      · exact h.ping_call halive hparked hc hcall
  | park halive => exact h.setPing fun _ hp => hp.imp_right fun hp => ⟨hp.1, rfl⟩
  | resume halive hparked habort =>
      refine h.setPing fun _ hp => hp.imp_right fun hp => ?_
      exact absurd hp.1 habort
  | again halive htask hidle => exact h.setPing fun _ hp => hp
  | ended halive htask hr hidle => exact h.setPing fun _ _ => .inl rfl
  | drop halive habort hbegun hwaits =>
      rename_i t
      have hw : s.world.SameTasks ((s.pings t).thread.drop (.ping t) s.world) :=
        World.sameTasks_drop
      have hworld : Silent { s with world := (s.pings t).thread.drop (.ping t) s.world }
          (Function.update loc (.ping t) (controlRegime K).idle) := by
        refine h.of_same ?_ rfl (by simp)
        change (((s.pings t).thread.drop (.ping t) s.world).config, _, _, _) = _
        rw [hw.config, hw.sawEnabled, hw.homes, hw.aborted]
      exact hworld.setPing fun _ _ => .inl rfl

theorem of_fresh (h : Fresh s) : Silent s fun _ => .idle := by
  refine ⟨fun t => h.sawEnabled _, fun _ t ht => ?_, nofun⟩
  rw [h.homes] at ht
  cases ht

end Silent

/-- As long as pings are switched off only while no ping task goes on, a ping task begins
a ping only if it has seen pings enabled. -/
theorem pings_enabled (h : (machine K).Reachable DisablesIdle s) : s.PingsEnabled := by
  obtain ⟨loc, -, hsilent⟩ := (controlRegime K).invariant Silent (fun s hs => Silent.of_fresh hs)
    (fun s loc a s' loc' _ hI hok hm => hI.step hok hm) h
  exact fun t _ _ => hsilent.saw t

/-- Keep-alive is switched off and on again, and the new ping task pings. -/
def silenced : List Act :=
  connecting ++ [.start (.setKeepAlive false)] ++ clientGoes 14 ++ [.finish, .drop 0] ++
    connecting ++ [.resume 1] ++ List.replicate 8 (.ping 1 .go) ++
    [.ping 1 (.duration (.fromSecs 30))] ++ List.replicate 11 (.ping 1 .go)

theorem pings_enabled_silenced :
    ∃ s, (machine .tl).run new silenced = some s ∧ s.alive 1 ∧
      (s.pings 1).thread.running.isSome = true ∧ s.world.sawEnabled (.ping 1) = true := by
  obtain ⟨s, hs, hproj⟩ := Option.map_eq_some_iff.mp
    (show ((machine .tl).run new silenced).map
      (fun s => (decide (s.alive 1), (s.pings 1).thread.running.isSome)) = some (true, true) by
        decide +kernel)
  simp only [Prod.mk.injEq, decide_eq_true_eq] at hproj
  have hreach : (machine .tl).Reachable DisablesIdle s :=
    Machine.Along.reachable (.init fresh_new) (by decide +kernel) hs
  exact ⟨s, hs, hproj.1, hproj.2, pings_enabled hreach 1 hproj.1 hproj.2⟩

/-- Pings are switched off by an interval of zero while the ping task sleeps; later it
pings. -/
def zeroed : List Act :=
  connecting ++ [.start (.setTimeoutConfig { pingInterval := .fromSecs 0 })] ++ clientGoes 6 ++
    [.finish] ++ pinging ++ pingGoes 4

theorem zeroed_pings :
    ¬∀ (K : ClientKind) (s : ClientRuntime), (machine K).Reachable Machine.anyStep s →
      s.PingsEnabled := by
  intro h
  obtain ⟨s, hs, hproj⟩ := Option.map_eq_some_iff.mp
    (show ((machine .tl).run new zeroed).map
      (fun s => (decide (s.alive 0), (s.pings 0).thread.running.isSome,
        s.world.sawEnabled (.ping 0))) = some (true, true, false) by decide +kernel)
  simp only [Prod.mk.injEq, decide_eq_true_eq] at hproj
  have hreach : (machine .tl).Reachable Machine.anyStep s :=
    Machine.Reachable.run (.init fresh_new) (fun _ _ _ => trivial) hs
  have hsaw := h .tl s hreach 0 hproj.1 hproj.2.1
  exact absurd (hsaw.symm.trans hproj.2.2) nofun

end ClientRuntime

end Wagonet
