import Wagonet.ClientSettings
import Wagonet.PingClamp

/-!
The three copies of the ping and timeout settings.

`timeout_config` is a field of the client, and `PingState` has a copy of it and, in
`config`, one of its ping interval. The operations that change them change all three,
or none if the new configuration is refused; so the copies agree whenever no operation
is under way.
-/

namespace Wagonet

open Library

namespace ClientRuntime

variable {K : ClientKind} {s s' : ClientRuntime} {loc loc' : Agent → Settings} {a : Act}

/-! ### What is written to the configurations -/

theorem World.call_configs {w w' : World} {g : Agent} {c : ClientCall} {r : c.Reply}
    {choice : Choice} (h : w.call g c choice = some (r, w')) :
    (w'.config = match c with
      | .setConfig v => v
      | _ => w.config) ∧
    w'.timeoutConfig = match c with
      | .setTimeoutConfig v => v
      | _ => w.timeoutConfig := by
  cases c with
  | tryLock m =>
      cases choice <;> simp only [World.call, reduceCtorEq] at h
      split at h <;> cases h <;> exact ⟨rfl, rfl⟩
  | setStream v =>
      cases v <;> cases choice <;> simp only [World.call, reduceCtorEq] at h <;> cases h <;>
        exact ⟨rfl, rfl⟩
  | abort t =>
      cases choice <;> simp only [World.call, reduceCtorEq] at h
      cases h
      dsimp only
      split <;> exact ⟨rfl, rfl⟩
  | _ =>
      cases choice <;> simp only [World.call, reduceCtorEq] at h <;> cases h <;> exact ⟨rfl, rfl⟩

theorem World.call_same {w w' : World} {g : Agent} {c : ClientCall} {r : c.Reply}
    {choice : Choice} (h : w.call g c choice = some (r, w')) (hc : c.configures = false) :
    w'.config = w.config ∧ w'.timeoutConfig = w.timeoutConfig := by
  obtain ⟨hconfig, htimeout⟩ := World.call_configs h
  cases c with
  | setConfig v => cases hc
  | setTimeoutConfig v => cases hc
  | _ => exact ⟨hconfig, htimeout⟩

theorem World.wait_configs {w w' : World} {g : Agent} {a : ClientAwait} {r : a.Reply}
    {choice : Choice} (h : w.wait g a choice = some (r, w')) :
    w'.config = w.config ∧ w'.timeoutConfig = w.timeoutConfig :=
  Prod.mk.inj (World.wait_frame (f := fun w => (w.config, w.timeoutConfig)) (fun _ _ => rfl)
    (fun _ _ => rfl) h)

theorem drop_configs {σ α : Type} {g : Agent} {w : World} {th : Thread σ α} :
    (th.drop g w).config = w.config ∧ (th.drop g w).timeoutConfig = w.timeoutConfig := by
  rw [Thread.drop]
  split <;> exact ⟨rfl, rfl⟩

/-- The action goes on with an operation or a ping task: it neither begins nor ends the
operation of the caller. -/
def Act.goesOn : Act → Bool
  | .start _ => false
  | .finish => false
  | .cancel => false
  | _ => true

/-- The operation was begun with these fields and configurations, and what it has written
since is in the world. -/
structure Written (begun : ClientFields) (ping : PingConfig) (timeouts : TimeoutConfig)
    (w : World) (q : Settings) : Prop where
  config : w.config = q.config.getD ping
  timeoutConfig : w.timeoutConfig = q.timeoutConfig.getD timeouts
  loaded : ∀ v, q.loaded = some v → v = ping
  fields : ∃ buffer, q.fields = { begun with buffer := buffer }

namespace Written

variable {begun : ClientFields} {ping : PingConfig} {timeouts : TimeoutConfig}
  {w w' : World} {q : Settings}

theorem start : Written begun w.config w.timeoutConfig w (.start begun) :=
  ⟨rfl, rfl, nofun, begun.buffer, rfl⟩

theorem of_same (h : Written begun ping timeouts w q) (hconfig : w'.config = w.config)
    (htimeout : w'.timeoutConfig = w.timeoutConfig) :
    Written begun ping timeouts w' q :=
  ⟨hconfig.trans h.config, htimeout.trans h.timeoutConfig, h.loaded, h.fields⟩

theorem called {g : Agent} {c : ClientCall} {r : c.Reply} {choice : Choice}
    (h : Written begun ping timeouts w q) (hc : Settings.discipline.calls q c)
    (hw : w.call g c choice = some (r, w')) :
    Written begun ping timeouts w' (Settings.discipline.called q c r) := by
  obtain ⟨hconfig, htimeout⟩ := World.call_configs hw
  cases c with
  | loadConfig =>
      refine ⟨hconfig.trans h.config, htimeout.trans h.timeoutConfig, ?_, h.fields⟩
      rintro v ⟨⟩
      have hnone : q.config = none := hc
      cases choice <;> simp only [World.call, reduceCtorEq] at hw
      cases hw
      rw [h.config, hnone]
      rfl
  | setConfig v => exact ⟨hconfig, htimeout.trans h.timeoutConfig, h.loaded, h.fields⟩
  | setTimeoutConfig v => exact ⟨hconfig.trans h.config, htimeout, h.loaded, h.fields⟩
  | _ => exact h.of_same hconfig htimeout

theorem waited {a : ClientAwait} {r : a.Reply} (h : Written begun ping timeouts w q) :
    Written begun ping timeouts w (Settings.discipline.waited q a r) := by
  cases a with
  | exchange c x buffer =>
      obtain ⟨buffer', hfields⟩ := h.fields
      refine ⟨h.config, h.timeoutConfig, h.loaded, r.1, ?_⟩
      exact congrArg (fun f : ClientFields => { f with buffer := r.1 }) hfields
  | _ => exact h

/-- A step of the caller's operation. -/
theorem moves {th th' : Thread ClientFields (Except Error (List UInt8))} {choice : Choice}
    {q' : Settings} (h : Written begun ping timeouts w q)
    (hm : th.Moves Settings.discipline K .client w q choice w' th' q') :
    Written begun ping timeouts w' q' := by
  cases hm with
  | call hc hw => exact h.called hc hw
  | wait _ _ hw =>
      obtain ⟨hconfig, htimeout⟩ := World.wait_configs hw
      exact (h.of_same hconfig htimeout).waited
  | elapse => exact h
  | begins => exact h
  | event => exact h.of_same rfl rfl
  | ends =>
      obtain ⟨hconfig, htimeout, hloaded, hfields⟩ := h.waited
      exact ⟨hconfig, htimeout, hloaded, hfields⟩

/-- A step of a ping task. -/
theorem ping_moves {α : Type} {th th' : Thread Unit α} {g : Agent} {choice : Choice}
    {q' : Settings} (hm : th.Moves Settings.pingDiscipline K g w q choice w' th' q') :
    w'.config = w.config ∧ w'.timeoutConfig = w.timeoutConfig := by
  cases hm with
  | call hc hw => exact World.call_same hw hc
  | wait _ _ hw => exact World.wait_configs hw
  | elapse => exact ⟨rfl, rfl⟩
  | begins => exact ⟨rfl, rfl⟩
  | event => exact ⟨rfl, rfl⟩
  | ends => exact ⟨rfl, rfl⟩

/-- What goes on between the beginning of an operation and its end. -/
theorem step (h : Written begun ping timeouts s.world (loc .client))
    (hm : (settingsRegime K).Moves s loc a s' loc') (ha : a.goesOn = true) :
    Written begun ping timeouts s'.world (loc' .client) := by
  have hne (t : Nat) : Agent.client ≠ .ping t := nofun
  cases hm with
  | start => cases ha
  | finish => cases ha
  | cancel => cases ha
  | client _ hm => simpa using h.moves hm
  | ping _ _ hm =>
      rw [Function.update_of_ne (hne _)]
      obtain ⟨hconfig, htimeout⟩ := ping_moves hm
      exact h.of_same hconfig htimeout
  | park => exact h
  | resume => exact h
  | again => exact h
  | ended => exact h
  | drop =>
      rw [Function.update_of_ne (hne _)]
      obtain ⟨hconfig, htimeout⟩ := drop_configs
      exact h.of_same hconfig htimeout

variable {fields : ClientFields} {r : Except Error (List UInt8)}

theorem setKeepAlive {enabled : Bool} (h : Written begun ping timeouts w q)
    (hends : Settings.Ends (.setKeepAlive enabled) q fields r) :
    r = .ok [] ∧ fields.keepAlive = enabled ∧ fields.timeoutConfig = begun.timeoutConfig ∧
      w.config = { ping with enabled := enabled && decide (ping.interval > 0) } ∧
      w.timeoutConfig = timeouts := by
  obtain ⟨-, hr, hkeep, hfields, htimeout, config, hloaded, hconfig⟩ := hends
  obtain ⟨buffer, hbegun⟩ := h.fields
  obtain rfl := h.loaded config hloaded
  refine ⟨hr, hkeep, by rw [hfields, hbegun], ?_, ?_⟩
  · rw [h.config, hconfig, Option.getD_some]
  · rw [h.timeoutConfig, htimeout, Option.getD_none]

theorem setTimeoutConfig {timeoutConfig : TimeoutConfig} (h : Written begun ping timeouts w q)
    (hends : Settings.Ends (.setTimeoutConfig timeoutConfig) q fields r) :
    fields.keepAlive = begun.keepAlive ∧
      let config := timeoutConfig.withPingInterval timeoutConfig.pingInterval
      (config.validate = .ok () ∧ r = .ok [] ∧ fields.timeoutConfig = config ∧
          w.timeoutConfig = config ∧ w.config = ⟨config.pingInterval,
            fields.keepAlive && decide (config.pingInterval > 0)⟩) ∨
        (∃ e, config.validate = .error e ∧ r = .error e) ∧
          fields.timeoutConfig = begun.timeoutConfig ∧ w.config = ping ∧
          w.timeoutConfig = timeouts := by
  obtain ⟨-, hkeep, hends⟩ := hends
  obtain ⟨buffer, hbegun⟩ := h.fields
  refine ⟨by rw [hkeep, hbegun], ?_⟩
  dsimp only at hends ⊢
  cases hvalid : (timeoutConfig.withPingInterval timeoutConfig.pingInterval).validate with
  | ok valid =>
      simp only [hvalid] at hends
      obtain ⟨hr, hfields, htimeout, hconfig⟩ := hends
      refine .inl ⟨rfl, hr, hfields, ?_, ?_⟩
      · rw [h.timeoutConfig, htimeout, Option.getD_some]
      · rw [h.config, hconfig, Option.getD_some]
  | error e =>
      simp only [hvalid] at hends
      obtain ⟨hr, hfields, hconfig, htimeout⟩ := hends
      refine .inr ⟨⟨e, rfl, hr⟩, by rw [hfields, hbegun], ?_, ?_⟩
      · rw [h.config, hconfig, Option.getD_none]
      · rw [h.timeoutConfig, htimeout, Option.getD_none]

end Written

/-! ### The copies -/

/-- The copies of a configuration in which pings come before the server's timeout. -/
structure Copied (ping : PingConfig) (timeouts : TimeoutConfig) (fields : ClientFields) : Prop where
  interval : ping.interval = fields.timeoutConfig.pingInterval
  early : fields.timeoutConfig.pingInterval < fields.timeoutConfig.readHeader
  timeoutConfig : timeouts = fields.timeoutConfig

/-- The copies of the client, and whether pings are enabled. -/
structure InStep (s : ClientRuntime) : Prop extends
    Copied s.world.config s.world.timeoutConfig s.fields where
  enabled : s.world.config.enabled = (s.fields.keepAlive && decide (s.world.config.interval > 0))

/-- Every operation leaves copies behind if it has found them. -/
theorem Copied.ended {begun fields : ClientFields} {ping : PingConfig} {timeouts : TimeoutConfig}
    {w : World} {q : Settings} {op : ClientOp} {r : Except Error (List UInt8)}
    (h : Copied ping timeouts begun) (hw : Written begun ping timeouts w q)
    (hends : Settings.Ends op q fields r) : Copied w.config w.timeoutConfig fields := by
  have hsame (hfields : fields.timeoutConfig = begun.timeoutConfig)
      (hconfig : w.config.interval = ping.interval) (htimeout : w.timeoutConfig = timeouts) :
      Copied w.config w.timeoutConfig fields := by
    refine ⟨?_, ?_, ?_⟩
    · rw [hconfig, hfields, h.interval]
    · rw [hfields]
      exact h.early
    · rw [htimeout, hfields, h.timeoutConfig]
  have hunwritten (hends : fields.keepAlive = q.fields.keepAlive ∧
      fields.timeoutConfig = q.fields.timeoutConfig ∧ q.Unwritten) :
      Copied w.config w.timeoutConfig fields := by
    obtain ⟨-, hfields, hconfig, htimeout⟩ := hends
    obtain ⟨buffer, hbegun⟩ := hw.fields
    refine hsame (by rw [hfields, hbegun]) ?_ ?_
    · rw [hw.config, hconfig, Option.getD_none]
    · rw [hw.timeoutConfig, htimeout, Option.getD_none]
  cases op with
  | connect => exact hunwritten hends.2
  | handleMessage command requestData => exact hunwritten hends.2
  | disconnect => exact hunwritten hends.2
  | setKeepAlive enabled =>
      obtain ⟨-, -, hfields, hconfig, htimeout⟩ := hw.setKeepAlive hends
      exact hsame hfields (by rw [hconfig]) htimeout
  | setTimeoutConfig timeoutConfig =>
      obtain ⟨-, ⟨hvalid, -, hfields, htimeout, hconfig⟩ | ⟨-, hfields, hconfig, htimeout⟩⟩ :=
        hw.setTimeoutConfig hends
      · obtain ⟨-, -, hlt⟩ := TimeoutConfig.validate_ok_iff.mp hvalid
        exact ⟨by rw [hconfig, hfields], by rw [hfields]; exact hlt, by rw [htimeout, hfields]⟩
      · exact hsame hfields (by rw [hconfig]) htimeout

/-- In every state of a client whose operations are never dropped: the copies agree, or an
operation is under way that has found them so. -/
def Kept (s : ClientRuntime) (loc : Agent → Settings) : Prop :=
  ∃ ping timeouts, Copied ping timeouts s.fields ∧
    (s.op = none → s.world.config = ping ∧ s.world.timeoutConfig = timeouts) ∧
    (s.op ≠ none → Written s.fields ping timeouts s.world (loc .client))

theorem kept_new : Kept new fun _ => Settings.idle :=
  ⟨_, _, ⟨rfl, by decide, rfl⟩, fun _ => ⟨rfl, rfl⟩, fun h => absurd rfl h⟩

theorem Kept.step (h : Kept s loc) (ha : a ≠ .cancel)
    (hm : (settingsRegime K).Moves s loc a s' loc') : Kept s' loc' := by
  obtain ⟨ping, timeouts, hcopied, hidle, hbusy⟩ := h
  have hgoes (ha : a.goesOn = true) (hfields : s'.fields = s.fields)
      (hop : s'.op = none ↔ s.op = none) (hworld : s.op = none → s'.world.config = s.world.config ∧
        s'.world.timeoutConfig = s.world.timeoutConfig) : Kept s' loc' := by
    refine ⟨ping, timeouts, hfields ▸ hcopied, fun hnone => ?_, fun hsome => ?_⟩
    · obtain ⟨hconfig, htimeout⟩ := hidle (hop.mp hnone)
      obtain ⟨hconfig', htimeout'⟩ := hworld (hop.mp hnone)
      exact ⟨hconfig'.trans hconfig, htimeout'.trans htimeout⟩
    · rw [hfields]
      exact (hbusy fun hnone => hsome (hop.mpr hnone)).step hm ha
  cases hm with
  | start hnone =>
      obtain ⟨rfl, rfl⟩ := hidle hnone
      refine ⟨_, _, hcopied, nofun, fun _ => ?_⟩
      rw [Function.update_self]
      exact Written.start
  | finish hop _ hends =>
      have hw := hbusy (by rw [hop]; nofun)
      exact ⟨_, _, hcopied.ended hw hends, fun _ => ⟨rfl, rfl⟩, fun h => absurd rfl h⟩
  | cancel => exact absurd rfl ha
  | client hop _ =>
      refine hgoes rfl rfl ⟨nofun, fun hnone => ?_⟩ fun hnone => ?_
      · exact absurd (hop.symm.trans hnone) nofun
      · exact absurd (hop.symm.trans hnone) nofun
  | ping _ _ hm => exact hgoes rfl rfl Iff.rfl fun _ => Written.ping_moves hm
  | park => exact hgoes rfl rfl Iff.rfl fun _ => ⟨rfl, rfl⟩
  | resume => exact hgoes rfl rfl Iff.rfl fun _ => ⟨rfl, rfl⟩
  | again => exact hgoes rfl rfl Iff.rfl fun _ => ⟨rfl, rfl⟩
  | ended => exact hgoes rfl rfl Iff.rfl fun _ => ⟨rfl, rfl⟩
  | drop => exact hgoes rfl rfl Iff.rfl fun _ => drop_configs

/-- The operation goes from `s` to `s'`, whatever the ping tasks do in between. -/
def Performs (K : ClientKind) (s : ClientRuntime) (op : ClientOp) (s' : ClientRuntime) : Prop :=
  ∃ as : List Act, (∀ a ∈ as, a.goesOn = true) ∧
    (machine K).run s (.start op :: (as ++ [.finish])) = some s'

theorem call_eq (hm : (settingsRegime K).Moves s loc a s' loc') (ha : a.goesOn = true) :
    s'.call = s.call := by
  cases hm with
  | start => cases ha
  | finish => cases ha
  | cancel => cases ha
  | _ => rfl

/-- What is in the world after an operation is what it has written. -/
theorem Performs.written {op : ClientOp} (h : Performs K s op s')
    (hobeyed : (settingsRegime K).Obeyed s loc) :
    s.op = none ∧ ∃ q r, Settings.Ends op q s'.fields r ∧ s'.result = some r ∧
      Written s.fields s.world.config s.world.timeoutConfig s'.world q := by
  obtain ⟨as, has, hrun⟩ := h
  rw [Machine.run_cons, Option.bind_eq_some_iff] at hrun
  obtain ⟨t, ht, hrun⟩ := hrun
  obtain ⟨loc₁, hobeyed₁, hmove⟩ := hobeyed.step (a := .start op) ht
  cases hmove with
  | start hnone =>
      rw [Machine.run_append, Option.bind_eq_some_iff] at hrun
      obtain ⟨u, hu, hrun⟩ := hrun
      rw [Machine.run_cons, Option.bind_eq_some_iff] at hrun
      obtain ⟨v, hfinish, hrun⟩ := hrun
      obtain rfl : v = s' := Option.some.inj hrun
      have hwritten : Written s.fields s.world.config s.world.timeoutConfig s.world
          (Function.update loc .client (Settings.start s.fields) .client) := by
        rw [Function.update_self]
        exact Written.start
      obtain ⟨loc₂, hobeyed₂, hw, hcall⟩ := hobeyed₁.along
        (fun s' loc =>
          Written s.fields s.world.config s.world.timeoutConfig s'.world (loc .client) ∧
            s'.call = some op)
        (fun _ _ _ _ _ _ hI ha hm => ⟨hI.1.step hm ha, (call_eq hm ha).trans hI.2⟩)
        ⟨hwritten, rfl⟩ (Machine.Along.of_forall fun a ha _ => has a ha) hu
      obtain ⟨loc₃, -, hmove⟩ := hobeyed₂.step (a := .finish) hfinish
      cases hmove with
      | finish hop hcall' hends =>
          cases hcall.symm.trans hcall'
          exact ⟨hnone, _, _, hends, rfl, hw⟩

/-- After any operations that were not dropped: `set_keep_alive` succeeds and leaves the
three copies in step. `set_timeout_config` succeeds just if the times it checks are
positive, and leaves the copies in step, of the given configuration but for a ping
interval that is too long; if it fails, it changes none of them. -/
theorem settings_in_step {before : List Act} (hrun : (machine K).run new before = some s)
    (hok : ∀ a ∈ before, a ≠ .cancel) :
    (∀ enabled s', Performs K s (.setKeepAlive enabled) s' →
      s'.result = some (.ok []) ∧ InStep s' ∧ s'.fields.keepAlive = enabled ∧
        s'.fields.timeoutConfig = s.fields.timeoutConfig) ∧
    ∀ c s', Performs K s (.setTimeoutConfig c) s' →
      s'.fields.keepAlive = s.fields.keepAlive ∧
      ((∃ r, s'.result = some (.ok r)) ↔
        0 < c.readHeader ∧ 0 < c.connectTotal ∧ 0 < c.pingWrite) ∧
      (∀ r, s'.result = some (.ok r) → InStep s' ∧
        ∃ p, s'.fields.timeoutConfig = { c with pingInterval := p } ∧
          (c.pingInterval < c.readHeader → p = c.pingInterval)) ∧
      ((∀ r, s'.result ≠ some (.ok r)) → (∃ e, s'.result = some (.error e)) ∧
        s'.world.config = s.world.config ∧ s'.world.timeoutConfig = s.world.timeoutConfig ∧
        s'.fields.timeoutConfig = s.fields.timeoutConfig) := by
  obtain ⟨loc, hobeyed, hkept⟩ := (Regime.obeyed_of_fresh (settingsRegime K) fresh_new).along Kept
    (fun _ _ _ _ _ _ h ha hm => h.step ha hm) kept_new
    (Machine.Along.of_forall fun a ha _ => hok a ha) hrun
  obtain ⟨ping, timeouts, hcopied, hidle, -⟩ := hkept
  constructor
  · intro enabled s' h
    obtain ⟨hnone, q, r, hends, hr, hw⟩ := h.written hobeyed
    obtain ⟨rfl, rfl⟩ := hidle hnone
    obtain ⟨rfl, hkeep, hfields, hconfig, htimeout⟩ := hw.setKeepAlive hends
    refine ⟨hr, ⟨hcopied.ended hw hends, ?_⟩, hkeep, hfields⟩
    rw [hconfig, hkeep]
  · intro c s' h
    obtain ⟨hnone, q, r, hends, hr, hw⟩ := h.written hobeyed
    obtain ⟨rfl, rfl⟩ := hidle hnone
    have hiff := TimeoutConfig.validate_clamped_iff (c := c)
    obtain ⟨p, hp, hsame⟩ := TimeoutConfig.withPingInterval_eq (c := c) c.pingInterval
    obtain ⟨hkeep, ⟨hvalid, rfl, hfields, htimeout, hconfig⟩ |
      ⟨⟨e, hvalid, rfl⟩, hfields, hconfig, htimeout⟩⟩ := hw.setTimeoutConfig hends
    · have hstep : InStep s' := ⟨hcopied.ended hw hends, by rw [hconfig]⟩
      refine ⟨hkeep, ⟨fun _ => hiff.mp hvalid, fun _ => ⟨_, hr⟩⟩, fun r _ => ⟨hstep, p, ?_, hsame⟩,
        fun hnot => absurd hr (hnot _)⟩
      rw [hfields, hp]
    · have hfailed : ∀ r, s'.result ≠ some (.ok r) := fun r hok => nomatch hr.symm.trans hok
      refine ⟨hkeep, ⟨fun ⟨r, hok⟩ => absurd hok (hfailed r), fun hpos => ?_⟩,
        fun r hok => absurd hok (hfailed r), fun _ => ⟨⟨e, hr⟩, hconfig, htimeout, hfields⟩⟩
      exact nomatch hvalid.symm.trans (hiff.mpr hpos)

/-- A ping interval that is clamped to half of `read_header`. -/
def shortTimeout : TimeoutConfig := { readHeader := .fromMillis 200, pingInterval := .fromSecs 1 }

theorem settings_in_step_shortTimeout :
    ∃ s', Performs .tl new (.setTimeoutConfig shortTimeout) s' ∧
      s'.world.config.interval = .fromMillis 100 ∧ InStep s' := by
  obtain ⟨s', hrun, hproj⟩ := Option.map_eq_some_iff.mp
    (show ((machine .tl).run new
      (.start (.setTimeoutConfig shortTimeout) :: (clientGoes 6 ++ [.finish]))).map
        (fun s => (s.world.config.interval, s.result.any Except.isOk)) =
          some (.fromMillis 100, true) by decide +kernel)
  obtain ⟨hinterval, hok⟩ := Prod.mk.inj hproj
  have hperforms : Performs .tl new (.setTimeoutConfig shortTimeout) s' :=
    ⟨clientGoes 6, by decide, hrun⟩
  refine ⟨s', hperforms, hinterval, ?_⟩
  obtain ⟨_ | response, hr, hisOk⟩ := (Option.any_eq_true _ _).mp hok
  · cases hisOk
  · have hquiet : ∀ a ∈ ([] : List Act), a ≠ .cancel := by simp
    exact (((settings_in_step (K := .tl) rfl hquiet).2 _ _ hperforms).2.2.1 response hr).1

end ClientRuntime

end Wagonet
