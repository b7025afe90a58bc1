import Wagonet.TaskLocks

/-!
At most one ping task.

`connect` stops the task of the stream before and starts one for the new stream;
`set_keep_alive(false)`, `disconnect` and a failed exchange stop it. Each of them finds
the task by its handle in `task_handle`. The handle is stored after the task was
spawned, at a lock of its own: an operation that is dropped there, or whose time is up,
leaves a task behind that no other operation will find.
-/

namespace Wagonet

open Library

namespace ClientRuntime

variable {K : ClientKind} {s s' : ClientRuntime} {loc loc' : Agent → Control} {a : Act}
  {choice : Choice}

/-- The ping task has neither ended nor been aborted. -/
def Live (s : ClientRuntime) (t : Nat) : Prop := s.alive t ∧ t ∉ s.world.aborted

instance (s : ClientRuntime) (t : Nat) : Decidable (s.Live t) :=
  inferInstanceAs (Decidable (_ ∧ _))

/-- There is at most one live ping task; between the operations of the caller it is the
one in `task_handle`, and there is none where none is to be. -/
structure OnePingTask (s : ClientRuntime) : Prop where
  one : ∀ t t', s.Live t → s.Live t' → t = t'
  kept : s.op = none → ∀ t, s.Live t → s.world.taskHandle = some t
  keepAlive : s.op = none → s.fields.keepAlive = false → ∀ t, ¬s.Live t
  disconnected : s.op = none → s.call = some .disconnect → ∀ t, ¬s.Live t
  failed : ∀ command requestData e, s.op = none →
    s.call = some (.handleMessage command requestData) → s.exchanged = some (.error e) →
      ∀ t, ¬s.Live t

/-- No operation of the caller is cancelled. -/
def Completes (_ : ClientRuntime) : Act → Prop
  | .cancel => False
  | _ => True

/-- No operation is cancelled, and no timer runs out while a handle is to be stored. -/
def StoresHandle (s : ClientRuntime) : Act → Prop
  | .cancel => False
  | .client (.elapse _) => s.wanted .client ≠ some .taskHandle
  | _ => True

instance (s : ClientRuntime) : ∀ a, Decidable (Completes s a)
  | .cancel => .isFalse id
  | .start _ | .client _ | .finish | .ping _ _ | .park _ | .resume _ | .turn _ | .drop _ =>
      .isTrue trivial

instance (s : ClientRuntime) : ∀ a, Decidable (StoresHandle s a)
  | .cancel => .isFalse id
  | .client (.elapse _) => inferInstanceAs (Decidable (_ ≠ _))
  | .client .go | .client (.fail _) | .client (.tlsFail _) | .client (.duration _)
  | .client (.bytes _) | .client (.written _) => .isTrue trivial
  | .start _ | .finish | .ping _ _ | .park _ | .resume _ | .turn _ | .drop _ => .isTrue trivial

/-- The live ping task is where the handle says. -/
def Places (s : ClientRuntime) : Handle → Prop
  | .kept => ∀ t, s.Live t → s.world.taskHandle = some t
  | .gone => ∀ t, ¬s.Live t
  | .taken t | .spawned t => ∀ t', s.Live t' → t' = t
  | .lost => False

theorem Places.mono {h : Handle} (hp : s.Places h) (hlive : ∀ t, s'.Live t → s.Live t)
    (hhandle : s'.world.taskHandle = s.world.taskHandle) : s'.Places h := by
  cases h with
  | kept =>
      intro t ht
      rw [hhandle]
      exact hp t (hlive t ht)
  | gone => exact fun t ht => hp t (hlive t ht)
  | taken t => exact fun t' ht => hp t' (hlive t' ht)
  | spawned t => exact fun t' ht => hp t' (hlive t' ht)
  | lost => exact hp

theorem Places.one {h : Handle} (hp : s.Places h) {t t' : Nat} (ht : s.Live t)
    (ht' : s.Live t') : t = t' := by
  cases h with
  | kept => exact Option.some.inj ((hp t ht).symm.trans (hp t' ht'))
  | gone => exact absurd ht (hp t)
  | taken t₁ => exact (hp t ht).trans (hp t' ht').symm
  | spawned t₁ => exact (hp t ht).trans (hp t' ht').symm
  | lost => exact hp.elim

theorem Places.of_stopped {h : Handle} (hp : s.Places h) (hstopped : h.Stopped) (t : Nat) :
    ¬s.Live t := by
  rcases hstopped with rfl | rfl
  · exact hp t
  · exact hp.elim

theorem Places.of_still {h : Handle} (hp : s.Places h) (hstill : h.Still) {t : Nat}
    (ht : s.Live t) : s.world.taskHandle = some t := by
  rcases hstill with rfl | rfl | rfl
  · exact hp t ht
  · exact absurd ht (hp t)
  · exact hp.elim

theorem live_of_world (hhomes : s'.world.homes.length = s.world.homes.length)
    (haborted : ∀ t ∈ s.world.aborted, t ∈ s'.world.aborted)
    (hpings : ∀ t, (s'.pings t).ended = false → (s.pings t).ended = false) (t : Nat)
    (ht : s'.Live t) : s.Live t :=
  ⟨⟨hhomes ▸ ht.1.1, hpings t ht.1.2⟩, fun hmem => ht.2 (haborted t hmem)⟩

/-- Nothing that concerns the tasks has changed. -/
theorem Places.of_sameTasks {h : Handle} (hp : s.Places h) (hw : s.world.SameTasks s'.world)
    (hpings : ∀ t, (s'.pings t).ended = false → (s.pings t).ended = false) : s'.Places h :=
  hp.mono (live_of_world (congrArg _ hw.homes) (fun _ ht => hw.aborted ▸ ht) hpings)
    hw.taskHandle

/-- A call of the caller's operation. -/
theorem places_call {c : ClientCall} {r : c.Reply} (hlocked : Locked s loc)
    (hp : s.Places (loc .client).handle) (hc : Control.discipline.calls (loc .client) c)
    (hcall : s.world.call .client c choice = some (r, s'.world)) (hpings : s'.pings = s.pings) :
    s'.Places (Control.discipline.called (loc .client) c r).handle := by
  have hw := World.sameTasks_of_call hcall
  have hended : ∀ t, (s'.pings t).ended = false → (s.pings t).ended = false := by
    rw [hpings]
    exact fun _ => id
  have hplain (hhomes : (s.world.after .client c).homes = s.world.homes)
      (haborted : (s.world.after .client c).aborted = s.world.aborted)
      (hhandle : (s.world.after .client c).taskHandle = s.world.taskHandle) :
      s'.Places (loc .client).handle := by
    refine hp.mono (live_of_world (congrArg _ (hw.homes.trans hhomes)) (fun t ht => ?_) hended)
      (hw.taskHandle.trans hhandle)
    rw [hw.aborted, haborted]
    exact ht
  cases c with
  | tryLock m =>
      rcases hc with rfl | ⟨rfl, hfree⟩
      · exact hplain rfl rfl rfl
      · cases r with
        | true => exact hplain rfl rfl rfl
        | false =>
            cases choice <;> simp only [World.call, reduceCtorEq] at hcall
            rw [if_pos (hlocked.handle_free hfree)] at hcall
            cases hcall
  | takeHandle =>
      cases choice <;> simp only [World.call, reduceCtorEq] at hcall
      obtain ⟨rfl, -⟩ := Prod.mk.inj (Option.some.inj hcall)
      have hlive : ∀ t, s'.Live t → s.Live t :=
        live_of_world (congrArg _ hw.homes) (fun t ht => hw.aborted ▸ ht) hended
      have htaken : ∀ t, s'.Live t → s.world.taskHandle = some t := fun t ht =>
        hp.of_still hc.2 (hlive t ht)
      show s'.Places ((loc .client).handle.take s.world.taskHandle)
      rcases hc.2 with hkept | hgone | hlost
      · rw [hkept]
        cases hhandle : s.world.taskHandle with
        | none => exact fun t' ht => absurd (hhandle.symm.trans (htaken t' ht)) (by simp)
        | some t => exact fun t' ht => Option.some.inj ((htaken t' ht).symm.trans hhandle)
      · rw [hgone] at hp ⊢
        exact fun t ht => hp t (hlive t ht)
      · rw [hlost] at hp
        exact hp.elim
  | setHandle t =>
      have hlive : ∀ t, s'.Live t → s.Live t :=
        live_of_world (congrArg _ hw.homes) (fun t ht => hw.aborted ▸ ht) hended
      show s'.Places (loc .client).handle.store
      rcases hc.2 with hspawned | hlost
      · rw [hspawned] at hp ⊢
        exact fun t' ht => hw.taskHandle.trans (congrArg some (hp t' (hlive t' ht)).symm)
      · rw [hlost] at hp
        exact hp.elim
  | spawn =>
      cases choice <;> simp only [World.call, reduceCtorEq] at hcall
      obtain ⟨rfl, -⟩ := Prod.mk.inj (Option.some.inj hcall)
      have hnone := hp.of_stopped hc.2.2.2
      show s'.Places ((loc .client).handle.spawn s.world.homes.length)
      rcases hc.2.2.2 with hgone | hlost
      · rw [hgone]
        intro t ht
        have hlt : t < s.world.homes.length + 1 := by
          have hlen := ht.1.1
          rwa [hw.homes, World.after, List.length_append] at hlen
        by_contra hne
        refine hnone t ⟨⟨by omega, hended t ht.1.2⟩, fun hmem => ht.2 ?_⟩
        rw [hw.aborted]
        exact hmem
      · rw [hlost] at hp
        exact hp.elim
  | abort t =>
      have hlive : ∀ t, s'.Live t → s.Live t := by
        refine live_of_world (congrArg _ hw.homes) (fun t ht => ?_) hended
        rw [hw.aborted]
        simp only [World.after]
        split
        · exact List.mem_cons_of_mem _ ht
        · exact ht
      show s'.Places (loc .client).handle.abort
      rcases hc with htaken | hgone | hlost
      · rw [htaken] at hp ⊢
        intro t' ht
        obtain rfl := hp t' (hlive t' ht)
        refine ht.2 ?_
        rw [hw.aborted]
        simp [World.after, (hlive t' ht).1.1]
      · rw [hgone] at hp ⊢
        exact fun t ht => hp t (hlive t ht)
      · rw [hlost] at hp
        exact hp.elim
  | unlock m => cases m <;> exact hplain rfl rfl rfl
  | setStream v => cases v <;> exact hplain rfl rfl rfl
  | setShouldStop v => cases v <;> exact hplain rfl rfl rfl
  | _ => exact hplain rfl rfl rfl

/-- A move of the caller's operation, in which no handle is lost. -/
theorem places_move {α : Type} {th th' : Thread ClientFields α} {q' : Control}
    (hlocked : Locked s loc) (hp : s.Places (loc .client).handle)
    (hm : th.Moves Control.discipline K .client s.world (loc .client) choice s'.world th' q')
    (hintime : ∀ i, choice = .elapse i → th.wanted ≠ some .taskHandle)
    (hpings : s'.pings = s.pings) : s'.Places q'.handle := by
  have hended : ∀ t, (s'.pings t).ended = false → (s.pings t).ended = false := by
    rw [hpings]
    exact fun _ => id
  have hsame {w' : World} (hw' : s'.world = w') (hw : s.world.SameTasks w') :
      s'.Places (loc .client).handle := hp.of_sameTasks (hw' ▸ hw) hended
  generalize hw' : s'.world = w' at hm
  cases hm with
  | call hc hcall => exact places_call hlocked hp hc (hw' ▸ hcall) hpings
  | wait hex ha hwait =>
      have hhandle : ∀ {a : ClientAwait} {r : a.Reply}, a.isExchange = false →
          (Control.discipline.waited (loc .client) a r).handle = (loc .client).handle := by
        intro a r hex
        cases a with
        | lock m => cases m <;> rfl
        | exchange c x buffer => cases hex
        | _ => rfl
      rw [hhandle hex]
      exact hsame hw' (World.sameTasks_of_wait hwait)
  | elapse hex ha ht =>
      rename_i a i k run
      have hstill : (loc .client).handle.Still := by
        refine ha.2.1.resolve_left fun hlock => ?_
        subst hlock
        exact hintime _ rfl rfl
      have hlapse : (loc .client).handle.lapse = (loc .client).handle := by
        rcases hstill with hh | hh | hh <;> rw [hh] <;> rfl
      show s'.Places (loc .client).handle.lapse
      rw [hlapse]
      exact hsame hw' .refl
  | begins => exact hsame hw' .refl
  | event => exact hsame hw' ⟨rfl, rfl, rfl, rfl, rfl, rfl, rfl, rfl⟩
  | ends =>
      rename_i r
      cases r <;> exact hsame hw' ⟨rfl, rfl, rfl, rfl, rfl, rfl, rfl, rfl⟩

/-- It is a ping task that takes the step. -/
def Act.ofTask : Act → Bool
  | .ping _ _ | .park _ | .resume _ | .turn _ | .drop _ => true
  | .start _ | .client _ | .finish | .cancel => false

/-- The operation of the caller and the handle stay as they are, and no task comes to life. -/
structure SameOp (s : ClientRuntime) (loc : Agent → Control) (s' : ClientRuntime)
    (loc' : Agent → Control) : Prop where
  client : loc' .client = loc .client
  live : ∀ t, s'.Live t → s.Live t
  handle : s'.world.taskHandle = s.world.taskHandle
  fields : s'.fields = s.fields
  op : s'.op = s.op
  call : s'.call = s.call
  exchanged : s'.exchanged = s.exchanged

/-- A ping task changes neither handles nor which tasks there are. -/
theorem sameHandles_of_pingMoves {α : Type} {g : Agent} {w w' : World} {q q' : Control}
    {th th' : Thread Unit α} (hm : th.Moves Control.pingDiscipline K g w q choice w' th' q') :
    w'.homes = w.homes ∧ w'.aborted = w.aborted ∧ w'.taskHandle = w.taskHandle := by
  rcases hm.tasks with ⟨hw, -⟩ | ⟨c, r, hc, hcall, -⟩
  · exact ⟨hw.homes, hw.aborted, hw.taskHandle⟩
  · have hw := World.sameTasks_of_call hcall
    rw [hw.homes, hw.aborted, hw.taskHandle]
    cases c with
    | setStream v => cases v <;> exact ⟨rfl, rfl, rfl⟩
    | takeHandle => exact hc.elim
    | setHandle t => exact hc.elim
    | spawn => exact hc.elim
    | abort t => exact hc.elim
    | _ => exact ⟨rfl, rfl, rfl⟩

/-- Only a ping task changes, which does not come to life by that. -/
theorem live_setPing {w' : World} {t : Nat} {p : PingTask} (hhomes : w'.homes = s.world.homes)
    (haborted : w'.aborted = s.world.aborted)
    (hp : p.ended = false → (s.pings t).ended = false) (t' : Nat)
    (ht : ({ s with world := w' }.setPing t p).Live t') : s.Live t' := by
  refine live_of_world (congrArg _ hhomes) (fun _ ht => haborted ▸ ht) (fun t' ht' => ?_) t' ht
  by_cases heq : t' = t
  · subst heq
    simp only [setPing, if_true] at ht'
    exact hp ht'
  · simpa [setPing, heq] using ht'

theorem sameOp_of_ofTask (ha : a.ofTask = true)
    (hm : (controlRegime K).Moves s loc a s' loc') : SameOp s loc s' loc' := by
  cases hm with
  | start => cases ha
  | client => cases ha
  | finish => cases ha
  | cancel => cases ha
  | ping halive hparked hmove =>
      obtain ⟨hhomes, haborted, hhandle⟩ := sameHandles_of_pingMoves hmove
      exact ⟨by simp, live_setPing hhomes haborted id, hhandle, rfl, rfl, rfl, rfl⟩
  | park => exact ⟨rfl, live_setPing rfl rfl id, rfl, rfl, rfl, rfl, rfl⟩
  | resume => exact ⟨rfl, live_setPing rfl rfl id, rfl, rfl, rfl, rfl, rfl⟩
  | again => exact ⟨rfl, live_setPing rfl rfl id, rfl, rfl, rfl, rfl, rfl⟩
  | ended => exact ⟨rfl, live_setPing rfl rfl (by simp), rfl, rfl, rfl, rfl, rfl⟩
  | drop halive habort hbegun hwaits =>
      rename_i t
      have hw : s.world.SameTasks ((s.pings t).thread.drop (.ping t) s.world) :=
        World.sameTasks_drop
      exact ⟨by simp, live_setPing hw.homes hw.aborted (by simp), hw.taskHandle, rfl, rfl, rfl,
        rfl⟩

/-- Between the operations the live task is in `task_handle`, or there is none. -/
structure Handled (s : ClientRuntime) (loc : Agent → Control) : Prop where
  locked : Locked s loc
  places : s.Places (loc .client).handle
  failed : s.op ≠ none → ∀ e, s.exchanged = some (.error e) → (loc .client).failed = true
  still : s.op = none → (loc .client).handle.Still
  stopped : s.op = none → s.fields.keepAlive = false ∨ s.call = some .disconnect ∨
    (∃ e, s.exchanged = some (.error e)) → (loc .client).handle.Stopped

/-- The outcome of the exchange is in the local state. -/
theorem failed_of_move {α : Type} {w w' : World} {q q' : Control}
    {th th' : Thread ClientFields α} {exchanged : Option (Except Error (List UInt8))}
    (hbegun : th.Begun K) (h : ∀ e, exchanged = some (.error e) → q.failed = true)
    (hm : th.Moves Control.discipline K .client w q choice w' th' q') :
    ∀ e, th.outcome.or exchanged = some (.error e) → q'.failed = true := by
  have hnone {t : Task ClientIO ClientFields α} {run : Option Running}
      (hbegun : Thread.Begun K ⟨t, run⟩)
      (hex : ∀ s ts c x buffer k, t ≠ .await s (.wait ts (.exchange c x buffer)) k) :
      (⟨t, run⟩ : Thread ClientFields α).outcome = none := by
    cases run with
    | none => rfl
    | some run =>
        obtain ⟨s, ts, buffer, k, htask, -⟩ := hbegun run rfl
        exact absurd htask (hex _ _ _ _ _ _)
  cases hm with
  | call hc hcall =>
      rename_i c r k run
      rw [hnone hbegun nofun, Option.none_or]
      have hsame : (Control.discipline.called q c r).failed = q.failed := by
        cases c with
        | tryLock m => cases m <;> cases r <;> rfl
        | unlock m => cases m <;> rfl
        | setStream v => cases v <;> rfl
        | setShouldStop v => cases v <;> rfl
        | _ => rfl
      rwa [hsame]
  | wait hex ha hwait =>
      rename_i a r k run
      rw [hnone hbegun ?_, Option.none_or]
      · have hsame : (Control.discipline.waited q a r).failed = q.failed := by
          cases a with
          | lock m => cases m <;> rfl
          | exchange c x buffer => cases hex
          | _ => rfl
        rwa [hsame]
      · rintro s ts c x buffer k ⟨⟩
        cases hex
  | elapse hex ha ht =>
      rw [hnone hbegun ?_, Option.none_or]
      · exact h
      · rintro s ts c x buffer k ⟨⟩
        cases hex
  | begins => exact h
  | event => exact h
  | ends =>
      rename_i r
      cases r with
      | ok => exact fun e he => nomatch he
      | error => exact fun _ _ => rfl

namespace Handled

theorem of_sameOp (h : Handled s loc) (hlocked : Locked s' loc')
    (hsame : SameOp s loc s' loc') : Handled s' loc' := by
  refine ⟨hlocked, ?_, ?_, ?_, ?_⟩
  · rw [hsame.client]
    exact h.places.mono hsame.live hsame.handle
  · rw [hsame.client, hsame.op, hsame.exchanged]
    exact h.failed
  · rw [hsame.client, hsame.op]
    exact h.still
  · rw [hsame.client, hsame.op, hsame.fields, hsame.call, hsame.exchanged]
    exact h.stopped

theorem step (hobeyed : (controlRegime K).Obeyed s loc) (h : Handled s loc)
    (hok : StoresHandle s a) (hm : (controlRegime K).Moves s loc a s' loc') :
    Handled s' loc' := by
  have hlocked := h.locked.step hm
  by_cases htask : a.ofTask = true
  · exact h.of_sameOp hlocked (sameOp_of_ofTask htask hm)
  cases hm with
  | start hop =>
      refine ⟨hlocked, ?_, by simp, by simp, by simp⟩
      rw [Function.update_self]
      show Places s (Control.start s.fields).handle
      simp only [Control.start]
      split
      · exact fun t ht => h.places.of_still (h.still hop) ht
      · rename_i hkeep
        exact h.places.of_stopped (h.stopped hop (.inl (by simpa using hkeep)))
  | client hop hmove =>
      rename_i choice w' q' th th'
      refine ⟨hlocked, ?_, fun _ => ?_, by simp, by simp⟩
      · rw [Function.update_self]
        refine places_move (s := s) h.locked h.places hmove ?_ rfl
        rintro i rfl hwanted
        refine hok ?_
        rw [wanted, hop]
        exact hwanted
      · rw [Function.update_self]
        exact failed_of_move (hobeyed.client _ hop).1 (h.failed (by simp [hop])) hmove
  | finish hop hcall hends =>
      refine ⟨hlocked, h.places, by simp, fun _ => hends.still, fun _ hwhy => hends.stopped ?_⟩
      rcases hwhy with hkeep | hdisconnect | ⟨e, he⟩
      · exact .inl hkeep
      · exact .inr (.inl (Option.some.inj (hcall.symm.trans hdisconnect)))
      · exact .inr (.inr (h.failed (by simp [hop]) e he))
  | cancel hop => exact hok.elim
  | _ => exact absurd rfl htask

theorem of_fresh (h : Fresh s) : Handled s fun _ => .idle := by
  refine ⟨locked_of_fresh h, fun t ht => ?_, fun hop => absurd h.op hop, fun _ => .inr (.inl rfl),
    fun _ _ => .inl rfl⟩
  have hlt := ht.1.1
  rw [h.homes] at hlt
  cases hlt

end Handled

/-- If no operation is cancelled, and `connect` does not run out of time while it is to
store the handle of a new task, then there is at most one live ping task, in its place. -/
theorem onePingTask (h : (machine K).Reachable StoresHandle s) : s.OnePingTask := by
  obtain ⟨loc, -, hhandled⟩ := (controlRegime K).invariant Handled
    (fun s hs => Handled.of_fresh hs)
    (fun s loc a s' loc' hobeyed hI hok hm => hI.step hobeyed hok hm) h
  refine ⟨fun t t' ht ht' => hhandled.places.one ht ht', fun hop t ht =>
    hhandled.places.of_still (hhandled.still hop) ht, fun hop hkeep => ?_, fun hop hcall => ?_,
    fun command requestData e hop hcall he => ?_⟩
  · exact hhandled.places.of_stopped (hhandled.stopped hop (.inl hkeep))
  · exact hhandled.places.of_stopped (hhandled.stopped hop (.inr (.inl hcall)))
  · exact hhandled.places.of_stopped (hhandled.stopped hop (.inr (.inr ⟨e, he⟩)))

/-- A second connection is made, and its ping task takes the place of the first. -/
def reconnected : List Act :=
  connecting ++ [.start .connect] ++ clientGoes 24 ++ [.finish]

theorem onePingTask_reconnected :
    ∃ s, (machine .tl).run new reconnected = some s ∧ s.Live 1 ∧ s.op = none ∧
      s.OnePingTask := by
  obtain ⟨s, hs, hproj⟩ := Option.map_eq_some_iff.mp
    (show ((machine .tl).run new reconnected).map
      (fun s => (decide (s.Live 1), s.op.isNone)) = some (true, true) by decide +kernel)
  simp only [Prod.mk.injEq, decide_eq_true_eq, Option.isNone_iff_eq_none] at hproj
  have hreach : (machine .tl).Reachable StoresHandle s :=
    Machine.Along.reachable (.init fresh_new) (by decide +kernel) hs
  exact ⟨s, hs, hproj.1, hproj.2, onePingTask hreach⟩

/-- The time for `connect` is up just before the handle of the new task is stored; the
next `connect` does not find that task, and starts another one. -/
def orphaned : List Act :=
  [.start (.setKeepAlive true)] ++ clientGoes 4 ++ [.finish, .start .connect] ++ clientGoes 20 ++
    [.client (.elapse 0), .finish, .start .connect] ++ clientGoes 23 ++ [.finish]

theorem orphaned_stays :
    ¬∀ (K : ClientKind) (s : ClientRuntime), (machine K).Reachable Completes s →
      s.OnePingTask := by
  intro h
  obtain ⟨s, hs, hproj⟩ := Option.map_eq_some_iff.mp
    (show ((machine .tl).run new orphaned).map
      (fun s => (decide (s.Live 0), decide (s.Live 1))) = some (true, true) by decide +kernel)
  simp only [Prod.mk.injEq, decide_eq_true_eq] at hproj
  have hreach : (machine .tl).Reachable Completes s :=
    Machine.Along.reachable (.init fresh_new) (by decide +kernel) hs
  exact absurd ((h .tl s hreach).one 0 1 hproj.1 hproj.2) nofun

end ClientRuntime

end Wagonet
