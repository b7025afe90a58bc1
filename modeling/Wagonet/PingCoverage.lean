import Wagonet.FreshConnections
import Wagonet.TendedTasks

/-!
Whether a connection that is kept alive is covered by a ping task.

Only `connect` starts a ping task, for the stream that it has just stored and if pings
are enabled then. So a stored stream is left without a task where pings are switched on
later than that, and where the time for `connect` is up before the task was started.
Elsewhere a request that succeeds with keep-alive and pings leaves a stream behind whose
ping task goes on.
-/

namespace Wagonet

open Library

namespace ClientRuntime

variable {K : ClientKind} {w w' : World} {q q' : Control} {choice : Choice}

/-- If a stream is stored, then a ping task was started for it. -/
def World.Attended (w : World) : Prop := ∀ c ∈ w.cell, some c ∈ w.homes

instance (w : World) : Decidable w.Attended :=
  inferInstanceAs (Decidable (∀ c ∈ w.cell, some c ∈ w.homes))

/-- A timer runs out. -/
def Choice.lapses : Choice → Bool
  | .elapse _ => true
  | _ => false

/-- The next step of the caller's operation writes a configuration with pings enabled. -/
def enables (s : ClientRuntime) : Bool :=
  match s.op with
  | some ⟨.await _ (.call (.setConfig v)) _, _⟩ => v.enabled
  | _ => false

/-- No operation is cancelled. Where pings are switched on, and where the time for `connect`
is up while they are, no stream is stored for which no ping task was started. -/
def AttendsStream (s : ClientRuntime) : Act → Prop
  | .cancel => False
  | .client choice =>
      (s.enables = true ∨ (choice.lapses = true ∧ s.fields.keepAlive = true ∧
        s.world.config.enabled = true)) → s.world.Attended
  | _ => True

instance (s : ClientRuntime) : ∀ a, Decidable (AttendsStream s a)
  | .cancel => .isFalse id
  | .client _ => inferInstanceAs (Decidable (_ → _))
  | .start _ | .finish | .ping _ _ | .park _ | .resume _ | .turn _ | .drop _ => .isTrue trivial

theorem completes_of_attendsStream {s : ClientRuntime} {a : Act} (h : AttendsStream s a) :
    Completes s a := by
  cases a <;> first | exact h.elim | trivial

/-- A call of `handle_message` was the last operation, and it has succeeded. -/
def succeeded (s : ClientRuntime) : Bool :=
  match s.op, s.call, s.result with
  | none, some (.handleMessage _ _), some (.ok _) => true
  | _, _, _ => false

theorem op_of_succeeded {s : ClientRuntime} (h : s.succeeded = true) : s.op = none := by
  rw [succeeded] at h
  split at h
  · assumption
  · cases h

/-- Where a request has succeeded on a client that keeps its connection alive with pings,
a ping task for the stored stream has neither ended nor been aborted, and was not told
to stop. -/
def PingsCover (s : ClientRuntime) : Prop :=
  s.succeeded = true → s.fields.keepAlive = true → s.world.config.interval > 0 →
    ∀ c, s.world.cell = some c →
      ∃ t, s.world.startedFor t c ∧ s.Live t ∧ s.world.shouldStop = false

/-! ### Which streams are attended -/

/-- What the caller's operation knows of the stored stream is true. -/
structure World.Covers (w : World) (q : Control) : Prop where
  stored : ∀ c, w.cell = some c → w.stored = some c
  emptied : q.emptied = true → w.cell = none
  covered : q.covered = true → w.config.enabled = true → w.Attended
  exact : q.exact = true → w.config.enabled = decide (w.config.interval > 0)

theorem World.attended_of_empty (h : w.cell = none) : w.Attended := by
  intro c hc
  cases h.symm.trans (Option.mem_def.mp hc)

namespace World.Covers

/-- The stored stream and the configuration stay as they are; the cell may be emptied. -/
theorem of_same (h : w.Covers q) (hcell : w'.cell = w.cell ∨ w'.cell = none)
    (hw : (w'.stored, w'.homes, w'.config) = (w.stored, w.homes, w.config))
    (hq : (q'.emptied, q'.covered, q'.exact) = (q.emptied, q.covered, q.exact)) :
    w'.Covers q' := by
  simp only [Prod.mk.injEq] at hw hq
  obtain ⟨hstored, hhomes, hconfig⟩ := hw
  obtain ⟨hemptied, hcovered, hexact⟩ := hq
  have hsome {c : Conn} (hc : w'.cell = some c) : w.cell = some c := by
    rcases hcell with hsame | hnone
    · exact hsame ▸ hc
    · cases hnone.symm.trans hc
  refine ⟨fun c hc => hstored.trans (h.stored c (hsome hc)), fun he => ?_, fun hq henabled => ?_,
    fun hq => ?_⟩
  · rcases hcell with hsame | hnone
    · exact hsame.trans (h.emptied (hemptied ▸ he))
    · exact hnone
  · intro c hc
    rw [hhomes]
    exact h.covered (hcovered ▸ hq) (hconfig ▸ henabled) c (hsome hc)
  · rw [hconfig]
    exact h.exact (hexact ▸ hq)

/-- A ping task is told to stop, or aborted. -/
theorem told (h : w.Covers q) (hcell : w'.cell = w.cell) (hstored : w'.stored = w.stored)
    (hconfig : w'.config = w.config)
    (hq : (q'.emptied, q'.covered, q'.exact) = (q.emptied, q.emptied, q.exact)) :
    w'.Covers q' := by
  simp only [Prod.mk.injEq] at hq
  obtain ⟨hemptied, hcovered, hexact⟩ := hq
  have hnone (he : q.emptied = true) : w'.cell = none := hcell.trans (h.emptied he)
  refine ⟨fun c hc => ?_, fun he => hnone (hemptied ▸ he), fun hq _ => ?_, fun hq => ?_⟩
  · rw [hstored]
    exact h.stored c (hcell ▸ hc)
  · exact attended_of_empty (hnone (hcovered ▸ hq))
  · rw [hconfig]
    exact h.exact (hexact ▸ hq)

/-- A call of the caller's operation. -/
theorem call {c : ClientCall} {r : c.Reply} (h : w.Covers q)
    (henables : ∀ v, c = .setConfig v → v.enabled = true → w.Attended)
    (hcall : w.call .client c choice = some (r, w')) :
    w'.Covers (Control.discipline.called q c r) := by
  have hw := World.sameTasks_of_call hcall
  cases c with
  | setStream v =>
      cases v with
      | none =>
          have hnone : w'.cell = none := hw.cell
          refine ⟨fun c hc => ?_, fun _ => hnone, fun _ _ => attended_of_empty hnone, fun hq => ?_⟩
          · cases hnone.symm.trans hc
          · rw [hw.config]
            exact h.exact hq
      | some c =>
          refine ⟨fun c' hc' => ?_, by simp [Control.discipline], by simp [Control.discipline],
            fun hq => ?_⟩
          · obtain rfl := Option.some.inj (hc'.symm.trans hw.cell)
            exact hw.stored
          · rw [hw.config]
            exact h.exact hq
  | setShouldStop v =>
      cases v with
      | true => exact h.told hw.cell hw.stored hw.config rfl
      | false => exact h.of_same (.inl hw.cell) (by rw [hw.stored, hw.homes, hw.config]; rfl) rfl
  | loadConfig =>
      cases choice <;> simp only [World.call, reduceCtorEq] at hcall
      obtain ⟨rfl, -⟩ := Prod.mk.inj (Option.some.inj hcall)
      have hsame : w'.Covers q :=
        h.of_same (.inl hw.cell) (by rw [hw.stored, hw.homes, hw.config]; rfl) rfl
      refine ⟨hsame.stored, hsame.emptied, fun hq henabled => ?_, hsame.exact⟩
      have hconfig : w.config.enabled = true := hw.config ▸ henabled
      have hcovered : (q.covered || !w.config.enabled) = true := hq
      rw [hconfig, Bool.not_true, Bool.or_false] at hcovered
      exact hsame.covered hcovered henabled
  | setConfig v =>
      have hconfig : w'.config = v := hw.config
      have hhomes : w'.homes = w.homes := hw.homes
      have hcell : w'.cell = w.cell := hw.cell
      refine ⟨fun c hc => ?_, fun he => hcell.trans (h.emptied he), fun _ henabled => ?_,
        fun hq => ?_⟩
      · rw [show w'.stored = w.stored from hw.stored]
        exact h.stored c (hcell ▸ hc)
      · rw [hconfig] at henabled
        intro c hc
        rw [hhomes]
        exact henables v rfl henabled c (hcell ▸ hc)
      · rw [hconfig]
        exact beq_iff_eq.mp hq
  | spawn =>
      have hcell : w'.cell = w.cell := hw.cell
      have hstored : w'.stored = w.stored := hw.stored
      refine ⟨fun c hc => hstored.trans (h.stored c (hcell ▸ hc)),
        fun he => hcell.trans (h.emptied he), fun _ _ c hc => ?_, fun hq => ?_⟩
      · rw [show w'.homes = w.homes ++ [w.stored] from hw.homes, ← h.stored c (hcell ▸ hc)]
        exact List.mem_append_right _ (List.mem_singleton.mpr rfl)
      · rw [hw.config]
        exact h.exact hq
  | abort t => exact h.told hw.cell hw.stored hw.config rfl
  | tryLock m =>
      refine h.of_same (.inl hw.cell) (by rw [hw.stored, hw.homes, hw.config]; rfl) ?_
      cases m <;> cases r <;> rfl
  | unlock m =>
      refine h.of_same (.inl hw.cell) (by rw [hw.stored, hw.homes, hw.config]; rfl) ?_
      cases m <;> rfl
  | _ => exact h.of_same (.inl hw.cell) (by rw [hw.stored, hw.homes, hw.config]; rfl) rfl

/-- A move of the caller's operation. -/
theorem client {α : Type} {th th' : Thread ClientFields α} (h : w.Covers q)
    (henables : ∀ s v k, th.task = .await s (.call (.setConfig v)) k → v.enabled = true →
      w.Attended)
    (hlapses : choice.lapses = true → q.keepAlive = true → w.config.enabled = true → w.Attended)
    (hm : th.Moves Control.discipline K .client w q choice w' th' q') : w'.Covers q' := by
  cases hm with
  | call hc hcall =>
      refine h.call ?_ hcall
      rintro v rfl
      exact henables _ v _ rfl
  | wait hex hwaits hwait =>
      rename_i a r k run
      have hw := World.sameTasks_of_wait hwait
      refine h.of_same (.inl hw.cell) (by rw [hw.stored, hw.homes, hw.config]) ?_
      cases a with
      | lock m => cases m <;> rfl
      | exchange c x buffer => cases hex
      | _ => rfl
  | elapse _ _ ht =>
      refine ⟨h.stored, h.emptied, fun hq henabled => ?_, h.exact⟩
      rcases Bool.or_eq_true_iff.mp hq with hcovered | hkeep
      · exact h.covered hcovered henabled
      · exact hlapses rfl hkeep henabled
  | begins => exact h
  | event => exact h.of_same (.inl rfl) rfl rfl
  | ends =>
      rename_i r
      cases r <;> exact h.of_same (.inl rfl) rfl rfl

end World.Covers

/-- A local state keeps what it knows of `keep_alive`. -/
theorem keepAlive_of_move {α : Type} {th th' : Thread ClientFields α}
    (hm : th.Moves Control.discipline K .client w q choice w' th' q') :
    q'.keepAlive = q.keepAlive := by
  cases hm with
  | call hc hcall =>
      rename_i c r k run
      cases c with
      | tryLock m => cases m <;> cases r <;> rfl
      | unlock m => cases m <;> rfl
      | setStream v => cases v <;> rfl
      | setShouldStop v => cases v <;> rfl
      | _ => rfl
  | wait hex hwaits hwait =>
      rename_i a r k run
      cases a with
      | lock m => cases m <;> rfl
      | exchange c x buffer => cases hex
      | _ => rfl
  | elapse => rfl
  | begins => rfl
  | event => rfl
  | ends =>
      rename_i r
      cases r <;> rfl

/-! ### All threads -/

section

variable {s s' : ClientRuntime} {loc loc' : Agent → Control} {a : Act}

/-- With keep-alive and pings a ping task was started for the stored stream. -/
structure Attending (s : ClientRuntime) (loc : Agent → Control) : Prop where
  empty : KnowsEmpty s loc
  covers : s.world.Covers (loc .client)
  keepAlive : s.op ≠ none → (loc .client).keepAlive = s.fields.keepAlive
  idle : s.op = none → s.fields.keepAlive = true →
    (loc .client).covered = true ∧ (loc .client).exact = true

theorem Attending.step (h : Attending s loc) (hok : AttendsStream s a)
    (hm : (controlRegime K).Moves s loc a s' loc') : Attending s' loc' := by
  have hothers (ha : a.others = true) (hclient : loc' .client = loc .client)
      (hop : s'.op = s.op) (hfields : s'.fields = s.fields) : Attending s' loc' := by
    obtain ⟨hspares, hconfig⟩ := h.empty.spares ha hm
    refine ⟨h.empty.step hm, ?_, ?_, ?_⟩
    · rw [hclient]
      refine h.covers.of_same (hspares.cell.imp_left And.left) ?_ rfl
      rw [hspares.stored, hspares.homes, hconfig]
    · rw [hclient, hop, hfields]
      exact h.keepAlive
    · rw [hclient, hop, hfields]
      exact h.idle
  have hempty := h.empty.step hm
  cases hm with
  | start hop =>
      refine ⟨hempty, ?_, fun _ => ?_, by simp⟩
      · rw [Function.update_self]
        refine ⟨h.covers.stored, by simp [controlRegime, Control.start], fun hkeep => ?_,
          fun hkeep => ?_⟩
        · exact h.covers.covered (h.idle hop hkeep).1
        · exact h.covers.exact (h.idle hop hkeep).2
      · rw [Function.update_self]
        rfl
  | client hop hmove =>
      rename_i choice w' q' th th'
      have hkeep := h.keepAlive (by simp [hop])
      refine ⟨hempty, ?_, fun _ => ?_, by simp⟩
      · rw [Function.update_self]
        refine h.covers.client (fun s₁ v k htask henabled => hok (.inl ?_))
          (fun hlapse hq henabled => hok (.inr ⟨hlapse, hkeep.symm.trans hq, henabled⟩)) hmove
        obtain ⟨task, run⟩ := th
        dsimp only at htask
        subst htask
        simp [enables, hop, henabled]
      · rw [Function.update_self]
        exact (keepAlive_of_move hmove).trans hkeep
  | finish hop hcall hends =>
      exact ⟨hempty, h.covers, by simp, fun _ hkeep => hends.covered hkeep⟩
  | cancel hop => exact hok.elim
  | ping halive hparked hmove => exact hothers rfl (by simp) rfl rfl
  | park => exact hothers rfl rfl rfl rfl
  | resume => exact hothers rfl rfl rfl rfl
  | again => exact hothers rfl rfl rfl rfl
  | ended => exact hothers rfl rfl rfl rfl
  | drop => exact hothers rfl (by simp) rfl rfl

theorem Attending.of_fresh (h : Fresh s) : Attending s fun _ => .idle := by
  refine ⟨KnowsEmpty.of_fresh h, ⟨?_, ?_, ?_, ?_⟩, fun hop => absurd h.op hop, fun _ hkeep => ?_⟩
  · simp [h.cell]
  · exact fun _ => h.cell
  · exact fun hq => by cases hq
  · exact fun hq => by cases hq
  · cases h.keepAlive.symm.trans hkeep

/-- If pings are switched on, and the time for `connect` is up, only where no stream is
stored that never had a ping task, then a ping task goes on wherever there is to be one. -/
theorem pings_cover (h : (machine K).Reachable AttendsStream s) : s.PingsCover := by
  obtain ⟨loc, -, hattending⟩ := (controlRegime K).invariant Attending
    (fun s hs => Attending.of_fresh hs) (fun s loc a s' loc' _ hI hok hm => hI.step hok hm) h
  intro hsucceeded hkeep hinterval c hcell
  have hop := op_of_succeeded hsucceeded
  obtain ⟨hcovered, hexact⟩ := hattending.idle hop hkeep
  have henabled : s.world.config.enabled = true := by
    rw [hattending.covers.exact hexact]
    exact decide_eq_true hinterval
  obtain ⟨t, ht⟩ := List.getElem?_of_mem (hattending.covers.covered hcovered henabled c hcell)
  exact ⟨t, ht, tended_of_reachable (h.mono fun _ _ => completes_of_attendsStream) hop hcell ht⟩

/-- A request is sent and answered, and succeeds. -/
def requestAnswered : List Act :=
  .start (.handleMessage 7 []) :: (clientGoes 7 ++ [.client (.written 8), .client .go,
    .client (.bytes [1]), .client .go, .client (.bytes [1, 0, 0, 0, 0]), .client (.written 1),
    .client .go] ++ clientGoes 6 ++ [.finish])

theorem pings_cover_requestAnswered :
    ∃ s, (machine .tl).run new (connecting ++ requestAnswered) = some s ∧
      s.world.cell = some 0 ∧ ∃ t, s.world.startedFor t 0 ∧ s.Live t ∧
        s.world.shouldStop = false := by
  obtain ⟨s, hs, hproj⟩ := Option.map_eq_some_iff.mp
    (show ((machine .tl).run new (connecting ++ requestAnswered)).map
      (fun s => (s.succeeded, s.fields.keepAlive, decide (s.world.config.interval > 0),
        s.world.cell)) = some (true, true, true, some 0) by decide +kernel)
  simp only [Prod.mk.injEq, decide_eq_true_eq] at hproj
  obtain ⟨hsucceeded, hkeep, hinterval, hcell⟩ := hproj
  have hreach : (machine .tl).Reachable AttendsStream s :=
    Machine.Along.reachable (.init fresh_new) (by decide +kernel) hs
  exact ⟨s, hs, hcell, pings_cover hreach hsucceeded hkeep hinterval 0 hcell⟩

/-- The stream of a call without keep-alive is left in the cell when keep-alive is switched
on, and no ping task is started for it. -/
def keptUncovered : List Act :=
  connectingOnce ++ [.start (.setKeepAlive true)] ++ clientGoes 4 ++ [.finish] ++ requestAnswered

theorem keptUncovered_uncovered :
    ¬∀ (K : ClientKind) (s : ClientRuntime), (machine K).Reachable Completes s →
      s.PingsCover := by
  intro h
  obtain ⟨s, hs, hproj⟩ := Option.map_eq_some_iff.mp
    (show ((machine .tl).run new keptUncovered).map
      (fun s => (s.succeeded, s.fields.keepAlive, decide (s.world.config.interval > 0),
        s.world.cell, s.world.homes.isEmpty)) = some (true, true, true, some 0, true) by
        decide +kernel)
  simp only [Prod.mk.injEq, decide_eq_true_eq, List.isEmpty_iff] at hproj
  obtain ⟨hsucceeded, hkeep, hinterval, hcell, hhomes⟩ := hproj
  have hreach : (machine .tl).Reachable Completes s :=
    Machine.Along.reachable (.init fresh_new) (by decide +kernel) hs
  obtain ⟨t, hstarted, -⟩ := h .tl s hreach hsucceeded hkeep hinterval 0 hcell
  rw [World.startedFor, hhomes] at hstarted
  cases hstarted

end

end ClientRuntime

end Wagonet
