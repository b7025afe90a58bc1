import Wagonet.ClientSteps
import Wagonet.ClientUses

/-!
What the operations of a client read and write of its settings.

The local state of an operation holds the fields it has begun with, and what it has
done to the configurations in `PingState`. Nobody else writes those, so the local
state tells what is in them; the fields of the client change where an operation ends,
and its buffer with each exchange.
-/

namespace Wagonet

open Library ClientRuntime

/-- The fields that matter to an exchange are those. -/
structure ClientFields.Agrees (fields s : ClientFields) : Prop where
  commandHasAnswer : s.commandHasAnswer = fields.commandHasAnswer
  buffer : s.buffer = fields.buffer
  maxBufferSize : s.maxBufferSize = fields.maxBufferSize

theorem ClientFields.Agrees.refl (fields : ClientFields) : fields.Agrees fields := ⟨rfl, rfl, rfl⟩

/-- What an operation has done with the settings of its client. -/
structure Settings where
  /-- the fields it has begun with, and the buffer of the exchange that ended last -/
  fields : ClientFields
  /-- the configuration that was read last -/
  loaded : Option PingConfig
  /-- the configurations that were written -/
  config : Option PingConfig
  timeoutConfig : Option TimeoutConfig

namespace Settings

def start (fields : ClientFields) : Settings := ⟨fields, none, none, none⟩

/-- Between two operations. -/
def idle : Settings := start ⟨true, .withCapacity 0, 0, {}, false⟩

/-- The operation was begun with these fields; its exchanges have changed the buffer. -/
def BegunWith (q : Settings) (fields : ClientFields) : Prop :=
  q.fields = { fields with buffer := q.fields.buffer }

/-- Neither configuration was written. -/
def Unwritten (q : Settings) : Prop := q.config = none ∧ q.timeoutConfig = none

/-- The rules for the operations of the caller. -/
def discipline : Discipline ClientAwaits ClientCalls Settings ClientFields where
  waits q s a :=
    q.fields.Agrees s ∧
      match a with
      | .exchange _ x buffer =>
          buffer = q.fields.buffer ∧ ∃ command data,
            x = .request command data q.fields.commandHasAnswer q.fields.maxBufferSize
      | _ => True
  waited q a r :=
    match a, r with
    | .exchange _ _ _, (buffer, _) => { q with fields := { q.fields with buffer := buffer } }
    | _, _ => q
  calls q c :=
    match c with
    | .loadConfig => q.config = none
    | _ => True
  called q c r :=
    match c, r with
    | .loadConfig, v => { q with loaded := some v }
    | .setConfig v, _ => { q with config := some v }
    | .setTimeoutConfig v, _ => { q with timeoutConfig := some v }
    | _, _ => q
  timed q s := q.fields.Agrees s
  lapsed q := q

/-- Ping tasks write no configuration. -/
def pingDiscipline : Discipline ClientAwaits ClientCalls Settings Unit where
  waits _ _ _ := True
  waited q _ _ := q
  calls _ c := c.configures = false
  called q _ _ := q
  timed _ _ := True
  lapsed q := q

/-- Where an operation of the caller ends, by what it is. -/
def EndsWith : ClientOp → Settings → ClientFields → Except Error (List UInt8) → Prop
  | .setKeepAlive enabled, q, fields, r =>
      r = .ok [] ∧ fields.keepAlive = enabled ∧ fields.timeoutConfig = q.fields.timeoutConfig ∧
        q.timeoutConfig = none ∧ ∃ config, q.loaded = some config ∧
          q.config = some { config with enabled := enabled && decide (config.interval > 0) }
  | .setTimeoutConfig timeoutConfig, q, fields, r =>
      fields.keepAlive = q.fields.keepAlive ∧
        let config := timeoutConfig.withPingInterval timeoutConfig.pingInterval
        match config.validate with
        | .error e => r = .error e ∧ fields.timeoutConfig = q.fields.timeoutConfig ∧ q.Unwritten
        | .ok () =>
            r = .ok [] ∧ fields.timeoutConfig = config ∧ q.timeoutConfig = some config ∧
              q.config = some ⟨config.pingInterval,
                fields.keepAlive && decide (config.pingInterval > 0)⟩
  | _, q, fields, _ =>
      fields.keepAlive = q.fields.keepAlive ∧ fields.timeoutConfig = q.fields.timeoutConfig ∧
        q.Unwritten

/-- Where an operation of the caller ends. -/
def Ends (op : ClientOp) (q : Settings) (fields : ClientFields)
    (r : Except Error (List UInt8)) : Prop :=
  q.fields.Agrees fields ∧ EndsWith op q fields r

/-! ### The programs -/

section

variable {α : Type} {q : Settings} {s : ClientFields}

/-- A program that begins no exchange, writes no configuration and leaves the fields
alone. -/
theorem obeys_of_among {t : Task ClientIO ClientFields α}
    {final : Settings → ClientFields → α → Prop}
    (ht : t.Among (A := ClientAwaits) (C := ClientCalls) (fun a => a.isExchange = false)
      (fun c => c.configures = false))
    (hleaves : t.Leaves (· = s)) (hagrees : q.fields.Agrees s) (hunwritten : q.Unwritten)
    (hfinal : ∀ loaded a, final { q with loaded := loaded } s a) :
    t.Obeys discipline final q := by
  refine Task.Obeys.of_among (I := fun q' => ∃ loaded, q' = { q with loaded := loaded })
    (P := (· = s)) ?_ ?_ ?_ ?_ ht hleaves ⟨_, rfl⟩
  · rintro _ _ a ⟨loaded, rfl⟩ rfl ha
    cases a with
    | exchange c x buffer => cases ha
    | _ => exact ⟨⟨hagrees, trivial⟩, fun _ => ⟨loaded, rfl⟩⟩
  · rintro _ _ _ ⟨loaded, rfl⟩ rfl -
    exact ⟨hagrees, loaded, rfl⟩
  · rintro _ c ⟨loaded, rfl⟩ hc
    cases c with
    | loadConfig => exact ⟨hunwritten.1, fun v => ⟨some v, rfl⟩⟩
    | setConfig v => cases hc
    | setTimeoutConfig v => cases hc
    | _ => exact ⟨trivial, fun _ => ⟨loaded, rfl⟩⟩
  · rintro _ _ a ⟨loaded, rfl⟩ rfl
    exact hfinal loaded a

theorem obeys_connects {m : Async ClientIO ClientFields Error α} (hm : Connects m)
    (hkeeps : m.Keeps (· = s)) (hagrees : q.fields.Agrees s) (hunwritten : q.Unwritten)
    {final : Settings → ClientFields → Except Error α → Prop}
    (hfinal : ∀ loaded r, final { q with loaded := loaded } s r) :
    (m s).Obeys discipline final q :=
  obeys_of_among ((hm s).mono fun _ => TimedOp.Among.mono (fun _ h => h)
    fun _ => ClientCall.configures_of_connects) (hkeeps s rfl) hagrees hunwritten hfinal

theorem stopPingTask_settings :
    (PingState.stopPingTask s : Task ClientIO ClientFields (Except Error Unit)).Obeys discipline
      (fun q' s' r => r = .ok () ∧ s' = s ∧ q' = q) q := by
  refine PingState.stopPingTask_obeys_of ?_ rfl
  rintro _ c rfl hc
  cases c <;> first | exact ⟨trivial, fun _ => rfl⟩ | cases hc

/-- The exchange uses the fields the operation has begun with. -/
theorem handleMessage_settings (K : ClientKind) (command : UInt32) (requestData : List UInt8) :
    (Client.handleMessage K command requestData s).Obeys discipline
      (Ends (.handleMessage command requestData)) (start s) := by
  have hstart : s.Agrees s := .refl s
  refine Async.obeys_bind (obeys_connects Client.connects_ensureConnected
    Client.keeps_ensureConnected hstart ⟨rfl, rfl⟩ fun loaded r => ?_)
  match r with
  | .error e => exact ⟨hstart, rfl, rfl, rfl, rfl⟩
  | .ok () =>
      refine Async.obeys_wait_bind.mpr ⟨⟨hstart, trivial⟩, fun _ => ?_⟩
      refine Async.obeys_wait_bind.mpr ⟨⟨hstart, trivial⟩, fun _ => ?_⟩
      refine Async.obeys_call_bind.mpr ⟨trivial, fun v => ?_⟩
      match v with
      | none =>
          refine Async.obeys_call_bind.mpr ⟨trivial, fun _ => ?_⟩
          refine Async.obeys_call_bind.mpr ⟨trivial, fun _ => ?_⟩
          exact ⟨hstart, rfl, rfl, rfl, rfl⟩
      | some c =>
          dsimp only
          rw [Async.get_bind_apply]
          refine Async.obeys_wait_bind.mpr ⟨⟨hstart, rfl, _, _, rfl⟩, fun r => ?_⟩
          obtain ⟨buffer, result⟩ := r
          have hafter := ClientFields.Agrees.refl { s with buffer := buffer }
          rw [Async.modify_bind_apply]
          match result with
          | .error e =>
              refine Async.obeys_call_bind.mpr ⟨trivial, fun _ => ?_⟩
              refine Async.obeys_bind (stopPingTask_settings.mono ?_)
              rintro q s' r ⟨rfl, rfl, rfl⟩
              refine Async.obeys_call_bind.mpr ⟨trivial, fun _ => ?_⟩
              refine Async.obeys_call_bind.mpr ⟨trivial, fun _ => ?_⟩
              exact ⟨hafter, rfl, rfl, rfl, rfl⟩
          | .ok response =>
              have htouch : Connects (withLock .lastActivity .touch : Async ClientIO ClientFields
                Error Unit) := connects_withLock rfl
              refine Async.obeys_bind (obeys_connects htouch keeps_withLock hafter ⟨rfl, rfl⟩
                fun loaded r => ?_)
              match r with
              | .error e => exact ⟨hafter, rfl, rfl, rfl, rfl⟩
              | .ok () =>
                  refine Async.obeys_call_bind.mpr ⟨trivial, fun _ => ?_⟩
                  refine Async.obeys_call_bind.mpr ⟨trivial, fun _ => ?_⟩
                  exact ⟨hafter, rfl, rfl, rfl, rfl⟩

/-- The end of `set_keep_alive`: the configuration is read and written under its lock. -/
theorem enable_settings {enabled : Bool} (hagrees : q.fields.Agrees s) (hunwritten : q.Unwritten)
    (htimeout : s.timeoutConfig = q.fields.timeoutConfig) :
    ((do
      Async.modify ({ · with keepAlive := enabled })
      Async.wait (A := ClientAwaits) (.lock .config)
      let config ← Async.call (C := ClientCalls) .loadConfig
      Async.call (C := ClientCalls)
        (.setConfig { config with enabled := enabled && decide (config.interval > 0) })
      Async.call (C := ClientCalls) (.unlock .config) : Async ClientIO ClientFields Error Unit)
        s).Obeys discipline
      (fun q s r => Ends (.setKeepAlive enabled) q s (r.map fun _ => [])) q := by
  have hafter : q.fields.Agrees { s with keepAlive := enabled } :=
    ⟨hagrees.commandHasAnswer, hagrees.buffer, hagrees.maxBufferSize⟩
  rw [Async.modify_bind_apply]
  refine Async.obeys_wait_bind.mpr ⟨⟨hafter, trivial⟩, fun _ => ?_⟩
  refine Async.obeys_call_bind.mpr ⟨hunwritten.1, fun config => ?_⟩
  refine Async.obeys_call_bind.mpr ⟨trivial, fun _ => ?_⟩
  exact ⟨trivial, fun _ => ⟨hafter, rfl, rfl, htimeout, hunwritten.2, config, rfl, rfl⟩⟩

theorem setKeepAlive_settings (enabled : Bool) :
    (Client.setKeepAlive enabled s).Obeys discipline
      (fun q s r => Ends (.setKeepAlive enabled) q s (r.map fun _ => [])) (start s) := by
  have hstart : s.Agrees s := .refl s
  rw [Client.setKeepAlive, Async.get_bind_apply]
  split
  · refine Async.obeys_bind (stopPingTask_settings.mono ?_)
    rintro q s' r ⟨rfl, rfl, rfl⟩
    simp only [withLock, Async.bind_assoc, Async.pure_bind]
    refine Async.obeys_wait_bind.mpr ⟨⟨hstart, trivial⟩, fun _ => ?_⟩
    refine Async.obeys_call_bind.mpr ⟨trivial, fun _ => ?_⟩
    refine Async.obeys_call_bind.mpr ⟨trivial, fun _ => ?_⟩
    exact enable_settings hstart ⟨rfl, rfl⟩ rfl
  · exact enable_settings hstart ⟨rfl, rfl⟩ rfl

theorem setTimeoutConfig_settings (timeoutConfig : TimeoutConfig) :
    (Client.setTimeoutConfig timeoutConfig s).Obeys discipline
      (fun q s r => Ends (.setTimeoutConfig timeoutConfig) q s (r.map fun _ => [])) (start s) := by
  have hstart : s.Agrees s := .refl s
  simp only [Client.setTimeoutConfig]
  cases hvalid : (timeoutConfig.withPingInterval timeoutConfig.pingInterval).validate with
  | error e =>
      refine ⟨hstart, rfl, ?_⟩
      simp only [hvalid]
      exact ⟨rfl, rfl, rfl, rfl⟩
  | ok valid =>
      rw [Async.ofExcept_ok_bind_apply, Async.get_bind_apply]
      simp only [withLock, Async.bind_assoc, Async.pure_bind]
      refine Async.obeys_wait_bind.mpr ⟨⟨hstart, trivial⟩, fun _ => ?_⟩
      refine Async.obeys_call_bind.mpr ⟨trivial, fun _ => ?_⟩
      refine Async.obeys_wait_bind.mpr ⟨⟨hstart, trivial⟩, fun _ => ?_⟩
      refine Async.obeys_call_bind.mpr ⟨trivial, fun _ => ?_⟩
      refine Async.obeys_call_bind.mpr ⟨trivial, fun _ => ?_⟩
      rw [Async.modify_bind_apply]
      refine ⟨trivial, fun _ => ⟨⟨rfl, rfl, rfl⟩, rfl, ?_⟩⟩
      simp only [hvalid]
      exact ⟨rfl, trivial, rfl, rfl⟩

/-- A program whose result is `()` ends where it leaves the fields alone. -/
theorem program_settings {m : Async ClientIO ClientFields Error Unit} {op : ClientOp}
    (h : (m s).Obeys discipline (fun q s r => Ends op q s (r.map fun _ => [])) q) :
    ((m >>= fun _ => pure []) s).Obeys discipline (Ends op) q := by
  refine Async.obeys_bind (h.mono fun q s r hq => ?_)
  match r with
  | .ok () => exact hq
  | .error _ => exact hq

theorem pingIteration_settings :
    (PingState.pingIteration ()).Obeys pingDiscipline (fun q _ _ => q = idle) idle := by
  have huses := PingState.among_pingIteration ()
  refine Task.Obeys.of_among (I := (· = idle)) (P := fun _ => True) ?_ ?_ ?_ ?_ huses
    (Task.leaves_of_forall fun _ => trivial) rfl
  · exact fun q s a hq _ _ => ⟨trivial, fun _ => hq⟩
  · exact fun q s a hq _ _ => ⟨trivial, hq⟩
  · exact fun q c hq hc => ⟨hc, fun _ => hq⟩
  · exact fun q s a hq _ => hq

end

end Settings

namespace ClientRuntime

open Settings

/-- The rules for what is done with the settings. -/
def settingsRegime (K : ClientKind) : Regime K Settings where
  client := Settings.discipline
  ping := Settings.pingDiscipline
  start := Settings.start
  ends := Settings.Ends
  idle := Settings.idle
  program op fields := by
    have hstart : fields.Agrees fields := .refl fields
    cases op with
    | connect =>
        refine program_settings (obeys_connects Client.connects_connect Client.keeps_connect hstart
          ⟨rfl, rfl⟩ fun loaded r => ?_)
        exact ⟨hstart, rfl, rfl, rfl, rfl⟩
    | handleMessage command requestData => exact handleMessage_settings K command requestData
    | disconnect =>
        refine program_settings (obeys_of_among (Client.among_disconnect fields)
          (Client.keeps_disconnect fields rfl) hstart ⟨rfl, rfl⟩ fun loaded r => ?_)
        exact ⟨hstart, rfl, rfl, rfl, rfl⟩
    | setKeepAlive enabled => exact program_settings (setKeepAlive_settings enabled)
    | setTimeoutConfig timeoutConfig => exact program_settings (setTimeoutConfig_settings _)
  iteration := pingIteration_settings

/-! ### The fields while an operation is under way -/

variable {K : ClientKind} {s s' : ClientRuntime} {loc loc' : Agent → Settings} {a : Act}

/-- A step of the operation changes the fields it works with in one place: an exchange
that ends leaves its buffer. -/
theorem fields_of_moves {w w' : World} {q q' : Settings} {choice : Choice}
    {th th' : Thread ClientFields (Except Error (List UInt8))}
    (hm : th.Moves Settings.discipline K .client w q choice w' th' q') :
    q'.fields = { q.fields with buffer := q'.fields.buffer } := by
  cases hm with
  | call =>
      rename_i c r k run hc hw
      cases c <;> rfl
  | wait =>
      rename_i a r k run hex ha hw
      cases a <;> rfl
  | _ => rfl

/-- The operation of the caller knows the fields of the client. -/
def KnowsFields (s : ClientRuntime) (loc : Agent → Settings) : Prop :=
  s.op ≠ none → (loc .client).BegunWith s.fields

/-- The mode of the exchanges and the limit of the buffer. -/
def SameLimits (fields fields' : ClientFields) : Prop :=
  fields'.commandHasAnswer = fields.commandHasAnswer ∧
    fields'.maxBufferSize = fields.maxBufferSize

theorem KnowsFields.step (h : KnowsFields s loc) (hm : (settingsRegime K).Moves s loc a s' loc') :
    KnowsFields s' loc' := by
  have hne (t : Nat) : Agent.client ≠ .ping t := nofun
  cases hm with
  | start =>
      intro _
      rw [Function.update_self]
      rfl
  | client hop hm =>
      intro _
      have hbegun : (loc .client).BegunWith s.fields := h (by rw [hop]; nofun)
      rw [Function.update_self]
      have hfields := fields_of_moves hm
      rw [Settings.BegunWith] at hbegun ⊢
      rw [hfields, hbegun]
  | finish => exact fun hop => absurd rfl hop
  | cancel => exact fun hop => absurd rfl hop
  | ping =>
      intro hop
      rw [Function.update_of_ne (hne _)]
      exact h hop
  | drop =>
      intro hop
      rw [Function.update_of_ne (hne _)]
      exact h hop
  | _ => exact h

/-- Neither is changed by an operation, whether it returns or is dropped. -/
theorem KnowsFields.sameLimits (h : KnowsFields s loc)
    (hm : (settingsRegime K).Moves s loc a s' loc') : SameLimits s.fields s'.fields := by
  cases hm with
  | finish hop _ hends =>
      have hbegun : (loc .client).BegunWith s.fields := h (by rw [hop]; nofun)
      have hagrees := hends.1
      rw [hbegun] at hagrees
      exact ⟨hagrees.commandHasAnswer, hagrees.maxBufferSize⟩
  | cancel hop hth hwaits =>
      rename_i th
      have hbegun : (loc .client).BegunWith s.fields := h (by rw [hop]; nofun)
      obtain ⟨self, ts, a, k, htask, hagrees, -⟩ := hwaits
      rw [hbegun] at hagrees
      have hleft : SameLimits s.fields th.task.left := by
        rw [htask]
        exact ⟨hagrees.commandHasAnswer, hagrees.maxBufferSize⟩
      rw [SameLimits, fieldsLeft]
      split <;> exact hleft
  | _ => exact ⟨rfl, rfl⟩

/-- The exchange of an operation is a request with these settings. -/
theorem KnowsFields.exchange (h : KnowsFields s loc) (hobeyed : (settingsRegime K).Obeyed s loc)
    {th : Thread ClientFields (Except Error (List UInt8))} (hop : s.op = some th)
    {run : Running} (hrun : th.running = some run) :
    ∃ command data, run.exchange =
      .request command data s.fields.commandHasAnswer s.fields.maxBufferSize ∧
      (K.program run.exchange (loc .client).fields.buffer).Partial run.events run.task := by
  have hbegun : (loc .client).BegunWith s.fields := h (by rw [hop]; nofun)
  obtain ⟨hth, op, -, hobeys⟩ := hobeyed.client th hop
  obtain ⟨self, ts, buffer, k, htask, hpartial⟩ := hth run hrun
  rw [htask] at hobeys
  obtain ⟨⟨-, rfl, command, data, hx⟩, -⟩ := hobeys
  rw [hbegun] at hx
  exact ⟨command, data, hx, hpartial⟩

end ClientRuntime

end Wagonet
