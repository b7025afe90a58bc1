import Wagonet.OneExchange
import Wagonet.OnePingTask
import Wagonet.Tending

/-!
The ping task of the stored stream goes on.

A stream is stored once, and at most one task is started for it. Between the operations
of the caller that task, if there is one, has neither ended nor been aborted, and was
not told to stop.
-/

namespace Wagonet

open Library

namespace ClientRuntime

variable {K : ClientKind} {w w' : World} {g : Agent} {choice : Choice}

/-! ### What the ping tasks leave alone -/

/-- The step of a thread that stores nothing and tells no task to stop, or the cell is
empty after it. -/
structure World.Spares (w w' : World) : Prop where
  stored : w'.stored = w.stored
  homes : w'.homes = w.homes
  aborted : w'.aborted = w.aborted
  cell : (w'.cell = w.cell ∧ w'.shouldStop = w.shouldStop) ∨ w'.cell = none

theorem World.SameTasks.spares (h : w.SameTasks w') : w.Spares w' :=
  ⟨h.stored, h.homes, h.aborted, .inl ⟨h.cell, h.shouldStop⟩⟩

/-- A ping task that knows the cell to be empty has locked it. -/
structure KnowsEmpty (s : ClientRuntime) (loc : Agent → Control) : Prop where
  locked : Locked s loc
  empty : ∀ t, (loc (.ping t)).emptied = true →
    (loc (.ping t)).hasStream = true ∧ s.world.cell = none

namespace KnowsEmpty

variable {s s' : ClientRuntime} {loc loc' : Agent → Control} {a : Act}

/-- A ping task tells the tasks to stop only where the cell is empty. -/
theorem spares (h : KnowsEmpty s loc) (ha : a.others = true)
    (hm : (controlRegime K).Moves s loc a s' loc') :
    s.world.Spares s'.world ∧ s'.world.config = s.world.config := by
  cases hm with
  | start | client | finish | cancel => cases ha
  | ping halive hparked hmove =>
      rename_i t choice w' q' th'
      rcases hmove.tasks with ⟨hw, -⟩ | ⟨c, r, hc, hcall, -⟩
      · exact ⟨hw.spares, hw.config⟩
      · have hw := World.sameTasks_of_call hcall
        change s.world.Spares w' ∧ w'.config = s.world.config
        cases c with
        | setStream v =>
            obtain ⟨rfl, -⟩ := hc
            exact ⟨⟨hw.stored, hw.homes, hw.aborted, .inr hw.cell⟩, hw.config⟩
        | setShouldStop v =>
            have hcell : w'.cell = none := hw.cell.trans (h.empty t hc.2).2
            exact ⟨⟨hw.stored, hw.homes, hw.aborted, .inr hcell⟩, hw.config⟩
        | setConfig v => exact hc.elim
        | takeHandle => exact hc.elim
        | setHandle t => exact hc.elim
        | spawn => exact hc.elim
        | abort t => exact hc.elim
        | _ => exact ⟨⟨hw.stored, hw.homes, hw.aborted, .inl ⟨hw.cell, hw.shouldStop⟩⟩, hw.config⟩
  | park => exact ⟨World.SameTasks.refl.spares, rfl⟩
  | resume => exact ⟨World.SameTasks.refl.spares, rfl⟩
  | again => exact ⟨World.SameTasks.refl.spares, rfl⟩
  | ended => exact ⟨World.SameTasks.refl.spares, rfl⟩
  | drop =>
      rename_i t halive habort hbegun hwaits
      have hw : s.world.SameTasks ((s.pings t).thread.drop (.ping t) s.world) :=
        World.sameTasks_drop
      exact ⟨hw.spares, hw.config⟩

/-- The cell is filled by no other step than one of the caller's. -/
theorem cell_client {w' : World} {q' : Control} {choice : Choice}
    {th th' : Thread ClientFields (Except Error (List UInt8))} (h : KnowsEmpty s loc)
    (hm : th.Moves Control.discipline K .client s.world (loc .client) choice w' th' q') {t : Nat}
    (ht : (loc (.ping t)).emptied = true) : w'.cell = none := by
  obtain ⟨hlocked, hcell⟩ := h.empty t ht
  rcases hm.tasks with ⟨hw, -⟩ | ⟨c, r, hc, hcall, -⟩
  · exact hw.cell.trans hcell
  · rw [World.call_cell hcall]
    cases c with
    | setStream v =>
        cases v with
        | none => rfl
        | some c =>
            have hclient := (h.locked.stream .client).mpr hc
            have hping := (h.locked.stream (.ping t)).mpr hlocked
            cases hclient.symm.trans hping
    | _ => exact hcell

/-- A ping task finds the cell empty, or empties it, while it has locked it. -/
theorem emptied_of_move {α : Type} {g : Agent} {w w' : World} {q q' : Control} {choice : Choice}
    {th th' : Thread Unit α} (h : q.emptied = true → q.hasStream = true ∧ w.cell = none)
    (hcell : w.cell = none → w'.cell = none)
    (hm : th.Moves Control.pingDiscipline K g w q choice w' th' q') (hq : q'.emptied = true) :
    q'.hasStream = true ∧ w'.cell = none := by
  have hsame (hq : q.emptied = true) : q.hasStream = true ∧ w'.cell = none :=
    (h hq).imp_right hcell
  cases hm with
  | call hc hcall =>
      rename_i c r k run
      cases c with
      | unlock m =>
          cases m with
          | stream => cases hq
          | _ => exact hsame hq
      | loadStream =>
          cases choice <;> simp only [World.call, reduceCtorEq] at hcall
          obtain ⟨rfl, rfl⟩ := Prod.mk.inj (Option.some.inj hcall)
          exact ⟨hc, Option.isNone_iff_eq_none.mp hq⟩
      | setStream v =>
          obtain ⟨rfl, hlocked⟩ := hc
          exact ⟨hlocked, World.call_cell hcall⟩
      | _ => exact hsame hq
  | wait hex hwaits hwait =>
      rename_i a r k run
      cases a with
      | lock m =>
          cases m with
          | stream => exact ⟨rfl, (hsame hq).2⟩
          | _ => exact hsame hq
      | _ => exact hsame hq
  | elapse => exact hsame hq
  | begins => exact hsame hq
  | event => exact hsame hq
  | ends => exact hsame hq

theorem step (h : KnowsEmpty s loc) (hm : (controlRegime K).Moves s loc a s' loc') :
    KnowsEmpty s' loc' := by
  refine ⟨h.locked.step hm, ?_⟩
  have hstays (ha : a.others = true) (hcell : s.world.cell = none) : s'.world.cell = none := by
    rcases (h.spares ha hm).1.cell with ⟨hsame, -⟩ | hnone
    · exact hsame.trans hcell
    · exact hnone
  have hothers (ha : a.others = true) (t : Nat) (ht : (loc (.ping t)).emptied = true) :
      (loc (.ping t)).hasStream = true ∧ s'.world.cell = none :=
    (h.empty t ht).imp_right (hstays ha)
  cases hm with
  | start hop => exact h.empty
  | client hop hmove => exact fun t ht => ⟨(h.empty t ht).1, h.cell_client hmove ht⟩
  | finish => exact h.empty
  | cancel hop hbegun hwaits =>
      rename_i th
      have hw : s.world.SameTasks (th.drop .client s.world) := World.sameTasks_drop
      exact fun t ht => (h.empty t ht).imp_right hw.cell.trans
  | ping halive hparked hmove =>
      rename_i t choice w' q' th'
      intro t' ht'
      by_cases heq : t' = t
      · subst heq
        rw [Function.update_self] at ht' ⊢
        exact emptied_of_move (h.empty t') (hstays rfl) hmove ht'
      · have hne : Agent.ping t' ≠ .ping t := by simpa using heq
        rw [Function.update_of_ne hne] at ht' ⊢
        exact hothers rfl t' ht'
  | park => exact hothers rfl
  | resume => exact hothers rfl
  | again => exact hothers rfl
  | ended => exact hothers rfl
  | drop =>
      rename_i t halive habort hbegun hwaits
      intro t' ht'
      by_cases heq : t' = t
      · subst heq
        rw [Function.update_self] at ht'
        cases ht'
      · have hne : Agent.ping t' ≠ .ping t := by simpa using heq
        rw [Function.update_of_ne hne] at ht' ⊢
        exact hothers rfl t' ht'

theorem of_fresh (h : Fresh s) : KnowsEmpty s fun _ => .idle :=
  ⟨locked_of_fresh h, fun _ ht => by cases ht⟩

theorem of_reachable (h : (machine K).Reachable Machine.anyStep s) :
    ∃ loc, (controlRegime K).Obeyed s loc ∧ KnowsEmpty s loc :=
  (controlRegime K).invariant KnowsEmpty (fun _ hs => of_fresh hs)
    (fun _ _ _ _ _ _ hI _ hm => hI.step hm) h

end KnowsEmpty

/-! ### What the caller does to the task of the stored stream -/

/-- The ping task was started for this connection. -/
def World.startedFor (w : World) (t : Nat) (c : Conn) : Prop := w.homes[t]? = some (some c)

/-- What an operation has done to the ping task of the stored stream is true. -/
def World.Tended (w : World) : Tending → Prop
  | .calm => ∀ t c, w.cell = some c → w.startedFor t c → t ∉ w.aborted ∧ w.shouldStop = false
  | .opened => ∀ t c, w.stored = some c → ¬w.startedFor t c
  | .rearmed =>
      (∀ t c, w.stored = some c → ¬w.startedFor t c) ∧ (w.shouldStop = false ∨ w.cell = none)
  | .emptied => w.cell = none
  | .halted => True

/-- A ping task for the stored stream that is ending was stopped. -/
structure World.Kept (w : World) (q : Tending) (P : Nat → Prop) : Prop where
  tended : w.Tended q
  spent : ∀ t c, w.cell = some c → w.startedFor t c → P t → w.shouldStop = true ∨ t ∈ w.aborted
  bound : ∀ t, P t ∨ t ∈ w.aborted → t < w.homes.length

namespace World.Kept

variable {q : Tending} {P P' : Nat → Prop}

/-- The step of a ping task. -/
theorem spares (h : w.Kept q P) (hw : w.Spares w') : w'.Kept q P := by
  have hstarted {t : Nat} {c : Conn} : w'.startedFor t c ↔ w.startedFor t c := by
    rw [World.startedFor, World.startedFor, hw.homes]
  obtain ⟨htended, hspent, hbound⟩ := h
  refine ⟨?_, fun t c hcell hhome hs => ?_, ?_⟩
  · rcases hw.cell with ⟨hcell, hstop⟩ | hnone
    · cases q <;> simp only [World.Tended, hstarted, hcell, hstop, hw.aborted, hw.stored] <;>
        exact htended
    · cases q with
      | calm =>
          intro t c hcell
          rw [hnone] at hcell
          cases hcell
      | opened =>
          simp only [World.Tended, hstarted, hw.stored]
          exact htended
      | rearmed =>
          simp only [World.Tended, hstarted, hw.stored]
          exact ⟨htended.1, .inr hnone⟩
      | emptied => exact hnone
      | halted => trivial
  · rcases hw.cell with ⟨hsame, hstop⟩ | hnone
    · rw [hstop, hw.aborted]
      exact hspent t c (hsame ▸ hcell) (hstarted.mp hhome) hs
    · rw [hnone] at hcell
      cases hcell
  · rw [hw.homes, hw.aborted]
    exact hbound

/-- One more task is about to end. -/
theorem mono (h : w.Kept q P)
    (hspent : ∀ t, P' t → P t ∨
      (t < w.homes.length ∧ (w.shouldStop = true ∨ w.cell = none ∨ t ∈ w.aborted))) :
    w.Kept q P' := by
  refine ⟨h.tended, fun t c hcell hhome hs => ?_, fun t ht => ?_⟩
  · rcases hspent t hs with hs | ⟨-, hstop | hnone | habort⟩
    · exact h.spent t c hcell hhome hs
    · exact .inl hstop
    · rw [hnone] at hcell
      cases hcell
    · exact .inr habort
  · rcases ht with hs | habort
    · rcases hspent t hs with hs | ⟨hlt, -⟩
      · exact h.bound t (.inl hs)
      · exact hlt
    · exact h.bound t (.inr habort)

/-- The operation ends, or is interrupted. -/
theorem settle (h : w.Kept q P) (hq : q ≠ .halted)
    (hstored : ∀ c, w.cell = some c → w.stored = some c) : w.Kept .calm P := by
  refine ⟨fun t c hcell hhome => ?_, h.spent, h.bound⟩
  cases q with
  | calm => exact h.tended t c hcell hhome
  | opened => exact absurd hhome (h.tended t c (hstored c hcell))
  | rearmed => exact absurd hhome (h.tended.1 t c (hstored c hcell))
  | emptied => cases hcell.symm.trans h.tended
  | halted => exact absurd rfl hq

/-- Tasks are told to stop, or aborted. -/
theorem told (h : w.Kept q P) (hstored : w'.stored = w.stored) (hhomes : w'.homes = w.homes)
    (hcell : w'.cell = w.cell) (hspent : w'.shouldStop = true ∨ w'.shouldStop = w.shouldStop)
    (haborted : ∀ t ∈ w.aborted, t ∈ w'.aborted)
    (hbound : ∀ t ∈ w'.aborted, t < w.homes.length) : w'.Kept q.told P := by
  have hstarted {t : Nat} {c : Conn} : w'.startedFor t c ↔ w.startedFor t c := by
    rw [World.startedFor, World.startedFor, hhomes]
  refine ⟨?_, fun t c hc hhome hs => ?_, fun t ht => ?_⟩
  · have htended := h.tended
    cases q with
    | calm => trivial
    | opened =>
        simp only [Tending.told, World.Tended, hstarted, hstored]
        exact htended
    | rearmed =>
        simp only [Tending.told, World.Tended, hstarted, hstored]
        exact htended.1
    | emptied => exact hcell.trans htended
    | halted => trivial
  · rcases hspent with hstop | hstop
    · exact .inl hstop
    · rw [hstop]
      exact (h.spent t c (hcell ▸ hc) (hstarted.mp hhome) hs).imp_right (haborted t)
  · rw [hhomes]
    exact ht.elim (fun hs => h.bound t (.inl hs)) (hbound t)

/-- A ping task is started, which is the only one for the stored stream. -/
theorem spawn (h : w.Kept .rearmed P) (hstored : ∀ c, w.cell = some c → w.stored = some c)
    (hw : w'.homes = w.homes ++ [w.stored]) (haborted : w'.aborted = w.aborted)
    (hcell : w'.cell = w.cell) (hstop : w'.shouldStop = w.shouldStop) : w'.Kept .calm P := by
  -- the new task is neither aborted nor about to end
  have hnew {t : Nat} {c : Conn} (hc : w'.cell = some c) (hhome : w'.startedFor t c) :
      t = w.homes.length := by
    have hold := h.tended.1 t c (hstored c (hcell ▸ hc))
    rw [World.startedFor, hw, List.getElem?_append] at hhome
    split at hhome
    · exact absurd hhome hold
    · obtain ⟨hlt, -⟩ := List.getElem?_eq_some_iff.mp hhome
      rw [List.length_singleton] at hlt
      omega
  refine ⟨fun t c hc hhome => ⟨fun habort => ?_, ?_⟩, fun t c hc hhome hs => ?_, fun t ht => ?_⟩
  · rw [haborted] at habort
    exact absurd (h.bound t (.inr habort)) (by rw [hnew hc hhome]; exact Nat.lt_irrefl _)
  · rw [hstop]
    rcases h.tended.2 with hfalse | hnone
    · exact hfalse
    · cases hnone.symm.trans (hcell ▸ hc)
  · exact absurd (h.bound t (.inl hs)) (by rw [hnew hc hhome]; exact Nat.lt_irrefl _)
  · rw [haborted] at ht
    rw [hw, List.length_append]
    exact Nat.lt_add_right _ (h.bound t ht)

/-- A call of the caller's operation. -/
theorem call {c : ClientCall} {r : c.Reply} (h : w.Kept q P)
    (hstored : ∀ c, w.cell = some c → w.stored = some c)
    (hfresh : ∀ c', c = .setStream (some c') → ∀ t, ¬w.startedFor t c')
    (hc : Tending.discipline.calls q c) (hcall : w.call .client c choice = some (r, w')) :
    w'.Kept (Tending.discipline.called q c r) P := by
  have hw := World.sameTasks_of_call hcall
  have hsame {t : Nat} {c' : Conn} (hhomes : w'.homes = w.homes) :
      w'.startedFor t c' ↔ w.startedFor t c' := by
    rw [World.startedFor, World.startedFor, hhomes]
  have hbound (hhomes : w'.homes = w.homes) (haborted : w'.aborted = w.aborted) (t : Nat) :
      P t ∨ t ∈ w'.aborted → t < w'.homes.length := by
    rw [hhomes, haborted]
    exact h.bound t
  cases c with
  | setStream v =>
      cases v with
      | none =>
          have hnone : w'.cell = none := hw.cell
          refine ⟨hnone, fun t c hc => ?_, hbound hw.homes hw.aborted⟩
          cases hnone.symm.trans hc
      | some c =>
          have hhomes : w'.homes = w.homes := hw.homes
          have hnone (t : Nat) : ¬w'.startedFor t c := fun hhome =>
            hfresh c rfl t ((hsame hhomes).mp hhome)
          refine ⟨fun t c' hc' hhome => ?_, fun t c' hc' hhome => ?_, hbound hhomes hw.aborted⟩
          · obtain rfl := Option.some.inj (hc'.symm.trans hw.stored)
            exact hnone t hhome
          · obtain rfl := Option.some.inj (hc'.symm.trans hw.cell)
            exact absurd hhome (hnone t)
  | setShouldStop v =>
      cases v with
      | true =>
          refine h.told hw.stored hw.homes hw.cell (.inl hw.shouldStop) (fun t ht => ?_) ?_
          · rw [hw.aborted]
            exact ht
          · rw [hw.aborted]
            exact fun t ht => h.bound t (.inr ht)
      | false =>
          obtain rfl := hc
          have hhomes : w'.homes = w.homes := hw.homes
          have hstored' : w'.stored = w.stored := hw.stored
          refine ⟨⟨fun t c hc => ?_, .inl hw.shouldStop⟩, fun t c hc hhome => ?_,
            hbound hhomes hw.aborted⟩
          · rw [hsame hhomes]
            exact h.tended t c (hstored' ▸ hc)
          · have hcell : w.cell = some c := hw.cell.symm.trans hc
            exact absurd ((hsame hhomes).mp hhome) (h.tended t c (hstored c hcell))
  | spawn =>
      obtain rfl := hc
      exact h.spawn hstored hw.homes hw.aborted hw.cell hw.shouldStop
  | abort t =>
      refine h.told hw.stored hw.homes hw.cell (.inr hw.shouldStop) (fun t' ht' => ?_) ?_
      · rw [hw.aborted]
        simp only [World.after]
        split
        · exact List.mem_cons_of_mem _ ht'
        · exact ht'
      · intro t' ht'
        rw [hw.aborted] at ht'
        simp only [World.after] at ht'
        split at ht'
        · rename_i hlt
          rcases List.mem_cons.mp ht' with rfl | ht'
          · exact hlt
          · exact h.bound t' (.inr ht')
        · exact h.bound t' (.inr ht')
  | _ => exact h.spares ⟨hw.stored, hw.homes, hw.aborted, .inl ⟨hw.cell, hw.shouldStop⟩⟩

end World.Kept

/-- A move of the caller's operation. -/
theorem World.Kept.client {α : Type} {th th' : Thread ClientFields α} {q q' : Tending}
    {P : Nat → Prop} (h : w.Kept q P) (hstored : ∀ c, w.cell = some c → w.stored = some c)
    (hfresh : ∀ s c k, th.task = .await s (.call (.setStream (some c))) k →
      ∀ t, ¬w.startedFor t c)
    (hm : th.Moves Tending.discipline K .client w q choice w' th' q') : w'.Kept q' P := by
  cases hm with
  | call hc hcall =>
      refine h.call hstored ?_ hc hcall
      rintro c' rfl
      exact hfresh _ c' _ rfl
  | wait _ _ hwait => exact h.spares (World.sameTasks_of_wait hwait).spares
  | elapse _ _ ht => exact h.settle ht hstored
  | begins => exact h
  | event => exact h.spares (World.SameTasks.spares ⟨rfl, rfl, rfl, rfl, rfl, rfl, rfl, rfl⟩)
  | ends => exact h.spares (World.SameTasks.spares ⟨rfl, rfl, rfl, rfl, rfl, rfl, rfl, rfl⟩)

/-- A ping task is about to end where it was told so, or where the cell is empty. -/
theorem ending_of_move {α : Type} {th th' : Thread Unit α} {q q' : Bool}
    (hm : th.Moves endingDiscipline K g w q choice w' th' q') (hq : q' = true) :
    q = true ∨ w'.shouldStop = true ∨ w'.cell = none := by
  cases hm with
  | call hc hcall =>
      rename_i s c r k run
      cases c with
      | loadShouldStop =>
          cases choice <;> simp only [World.call, reduceCtorEq] at hcall
          obtain ⟨rfl, rfl⟩ := Prod.mk.inj (Option.some.inj hcall)
          cases hstop : w.shouldStop with
          | true => exact .inr (.inl rfl)
          | false =>
              rw [hstop] at hq
              exact .inl hq
      | loadStream =>
          cases choice <;> simp only [World.call, reduceCtorEq] at hcall
          obtain ⟨rfl, rfl⟩ := Prod.mk.inj (Option.some.inj hcall)
          cases hcell : w.cell with
          | none => exact .inr (.inr rfl)
          | some c =>
              rw [hcell] at hq
              exact .inl hq
      | setStream v =>
          cases v with
          | none => exact .inr (.inr (World.call_cell hcall))
          | some c => exact .inl hq
      | _ => exact .inl hq
  | wait => exact .inl hq
  | elapse => exact .inl hq
  | begins => exact .inl hq
  | event => exact .inl hq
  | ends => exact .inl hq

/-! ### All threads -/

section

variable {s s' : ClientRuntime} {S : SharedStream} {q : Tending} {ending : Nat → Bool} {a : Act}

/-- The task is about to end, or it has. -/
def Spent (s : ClientRuntime) (ending : Nat → Bool) (t : Nat) : Prop :=
  ending t = true ∨ (s.pings t).ended = true

/-- What the operation of the caller has done to the ping task of the stored stream, and
which tasks are about to end. -/
structure Tends (K : ClientKind) (s : ClientRuntime) (q : Tending) (ending : Nat → Bool) :
    Prop where
  client : ∀ th, s.op = some th → th.task.Obeys Tending.discipline (fun q _ _ => q ≠ .halted) q
  ping : ∀ t, (s.pings t).ended = false →
    (s.pings t).thread.task.Obeys endingDiscipline (fun q _ r => r = .ok true ∨ q = true)
      (ending t)
  kept : s.world.Kept q (s.Spent ending)
  idle : s.op = none → q = .calm

theorem Refines.cell_stored (hR : Refines K s S) (hS : S.Sound) (c : Conn)
    (hc : s.world.cell = some c) : s.world.stored = some c := by
  rw [← hR.shows.stored]
  exact hS.numbered.cell c (hR.shows.cell.trans hc)

/-- A stream is stored once, so no task was started for it before that. -/
theorem Refines.fresh (hR : Refines K s S) (hS : S.Sound)
    {th : Thread ClientFields (Except Error (List UInt8))} (hop : s.op = some th)
    (s₁ : ClientFields) (c : Conn)
    (k : Unit → Task ClientIO ClientFields (Except Error (List UInt8)))
    (htask : th.task = .await s₁ (.call (.setStream (some c))) k) (t : Nat) :
    ¬s.world.startedFor t c := by
  intro hhome
  obtain ⟨-, op, -, hobeys⟩ := hR.obeyed.client th hop
  rw [htask] at hobeys
  obtain ⟨-, -, hfresh, -⟩ := hobeys.1
  refine hS.numbered.not_past hfresh (hS.numbered.homes c ?_)
  rw [hR.shows.homes]
  exact List.mem_of_getElem? hhome

namespace Tends

/-- Something happens to a ping task. -/
theorem setPing {w' : World} {t : Nat} {p : PingTask} {e : Bool} (h : Tends K s q ending)
    (hw : s.world.Spares w') (ht : t < s.world.homes.length)
    (hping : p.ended = false → p.thread.task.Obeys endingDiscipline
      (fun q _ r => r = .ok true ∨ q = true) e)
    (hspent : e = true ∨ p.ended = true →
      s.Spent ending t ∨ w'.shouldStop = true ∨ w'.cell = none ∨ t ∈ w'.aborted) :
    Tends K ({ s with world := w' }.setPing t p) q (Function.update ending t e) := by
  refine ⟨h.client, fun t' ht' => ?_, ?_, h.idle⟩
  · by_cases heq : t' = t
    · subst heq
      simp only [ClientRuntime.setPing, if_true, Function.update_self] at ht' ⊢
      exact hping ht'
    · simp only [ClientRuntime.setPing, heq, if_false, Function.update_of_ne heq] at ht' ⊢
      exact h.ping t' ht'
  · refine (h.kept.spares hw).mono fun t' ht' => ?_
    by_cases heq : t' = t
    · subst heq
      simp only [Spent, ClientRuntime.setPing, if_true, Function.update_self] at ht'
      rw [hw.homes]
      exact (hspent ht').imp_right fun h => ⟨ht, h⟩
    · simp only [Spent, ClientRuntime.setPing, heq, if_false, Function.update_of_ne heq] at ht'
      exact .inl ht'

theorem client_step (h : Tends K s q ending) (hR : Refines K s S) (hS : S.Sound)
    {choice : Choice} (hs : ClientRuntime.step K s (.client choice) = some s') :
    ∃ q', Tends K s' q' ending := by
  simp only [ClientRuntime.step] at hs
  split at hs
  · rename_i th hop
    simp only [Option.map_eq_some_iff, Prod.exists] at hs
    obtain ⟨w', th', hstep, rfl⟩ := hs
    obtain ⟨q', hobeys', hmove⟩ := Thread.Moves.of_step (h.client th hop) hstep
    refine ⟨q', ?_, h.ping, ?_, by simp⟩
    · rintro th ⟨⟩
      exact hobeys'
    · exact h.kept.client (hR.cell_stored hS) (hR.fresh hS hop) hmove
  · cases hs

theorem ping_step (h : Tends K s q ending) {loc : Agent → Control}
    (hobeyed : (controlRegime K).Obeyed s loc) (hknows : KnowsEmpty s loc) {t : Nat}
    {choice : Choice} (hs : ClientRuntime.step K s (.ping t choice) = some s') :
    ∃ ending', Tends K s' q ending' := by
  obtain ⟨loc', -, hmove⟩ := hobeyed.step hs
  obtain ⟨hspares, -⟩ := hknows.spares rfl hmove
  simp only [ClientRuntime.step] at hs
  split at hs
  · rename_i halive
    obtain ⟨⟨hlt, hended⟩, hparked⟩ := halive
    simp only [Option.map_eq_some_iff, Prod.exists] at hs
    obtain ⟨w', th', hstep, rfl⟩ := hs
    obtain ⟨e, hobeys', hmove⟩ := Thread.Moves.of_step (h.ping t hended) hstep
    refine ⟨_, h.setPing hspares hlt (fun _ => hobeys') fun he => ?_⟩
    rcases he with he | he
    · rcases ending_of_move hmove he with he | hstop | hnone
      · exact .inl (.inl he)
      · exact .inr (.inl hstop)
      · exact .inr (.inr (.inl hnone))
    · exact .inl (.inr he)
  · cases hs

theorem step (h : Tends K s q ending) (hR : Refines K s S) (hS : S.Sound) {loc : Agent → Control}
    (hobeyed : (controlRegime K).Obeyed s loc) (hknows : KnowsEmpty s loc) (hok : Completes s a)
    (hs : ClientRuntime.step K s a = some s') : ∃ q' ending', Tends K s' q' ending' := by
  have hrefl : s.world.Spares s.world := World.SameTasks.refl.spares
  cases a with
  | start op =>
      simp only [ClientRuntime.step] at hs
      split at hs
      · rename_i hop
        cases hs
        obtain rfl := h.idle hop
        refine ⟨.calm, ending, ?_, h.ping, h.kept, by simp⟩
        rintro th ⟨⟩
        exact Tending.program_tends
      · cases hs
  | client choice =>
      obtain ⟨q', h'⟩ := h.client_step hR hS hs
      exact ⟨q', ending, h'⟩
  | finish =>
      simp only [ClientRuntime.step] at hs
      split at hs
      · rename_i fields r running hop
        cases hs
        have hq : q ≠ .halted := h.client _ hop
        exact ⟨.calm, ending, by simp, h.ping, h.kept.settle hq (hR.cell_stored hS), fun _ => rfl⟩
      · cases hs
  | cancel => exact hok.elim
  | ping t choice =>
      obtain ⟨ending', h'⟩ := h.ping_step hobeyed hknows hs
      exact ⟨q, ending', h'⟩
  | park t =>
      simp only [ClientRuntime.step] at hs
      split at hs
      · rename_i ht
        cases hs
        exact ⟨q, _, h.setPing hrefl ht.1.1 (h.ping t) .inl⟩
      · cases hs
  | resume t =>
      simp only [ClientRuntime.step] at hs
      split at hs
      · rename_i ht
        cases hs
        exact ⟨q, _, h.setPing hrefl ht.1.1 (h.ping t) .inl⟩
      · cases hs
  | turn t =>
      simp only [ClientRuntime.step] at hs
      split at hs
      · rename_i ht
        obtain ⟨⟨hlt, hended⟩, hparked⟩ := ht
        have hobeys := h.ping t hended
        split at hs
        · cases hs
          refine ⟨q, _, h.setPing hrefl hlt (fun _ => PingState.pingIteration_ending) ?_⟩
          exact fun he => he.elim (by simp) fun he => .inl (.inr he)
        · rename_i u r hr htask
          cases hs
          rw [htask] at hobeys
          refine ⟨q, _, h.setPing (e := ending t) hrefl hlt (by simp) fun _ => .inl (.inl ?_)⟩
          exact hobeys.resolve_left hr
        · cases hs
      · cases hs
  | drop t =>
      obtain ⟨loc', -, hmove⟩ := hobeyed.step hs
      obtain ⟨hspares, -⟩ := hknows.spares rfl hmove
      simp only [ClientRuntime.step] at hs
      split at hs
      · rename_i ht
        cases hs
        obtain ⟨⟨hlt, hended⟩, hparked, habort⟩ := ht
        refine ⟨q, _, h.setPing (e := ending t) hspares hlt (by simp) fun _ => ?_⟩
        refine .inr (.inr (.inr ?_))
        have haborted : ((s.pings t).thread.drop (.ping t) s.world).aborted = s.world.aborted :=
          hspares.aborted
        rw [haborted]
        exact habort
      · cases hs

theorem of_fresh (h : Fresh s) : Tends K s .calm fun _ => false := by
  refine ⟨by simp [h.op], fun t _ => ?_, ⟨?_, ?_, ?_⟩, fun _ => rfl⟩
  · rw [h.pings t]
    exact PingState.pingIteration_ending
  · simp [World.Tended, h.cell]
  · simp [h.cell]
  · simp [Spent, h.pings, h.aborted]

end Tends

/-- Between the operations of the caller, if none of them was cancelled, every ping task
that was started for the stored stream goes on. -/
theorem tended_of_reachable (h : (machine K).Reachable Completes s) (hop : s.op = none) {t : Nat}
    {c : Conn} (hcell : s.world.cell = some c) (hhome : s.world.startedFor t c) :
    s.Live t ∧ s.world.shouldStop = false := by
  have hinv : (machine K).Reachable Machine.anyStep s ∧ ∃ q ending, Tends K s q ending := by
    refine h.invariant (fun s => (machine K).Reachable Machine.anyStep s ∧
      ∃ q ending, Tends K s q ending) (fun s hs => ⟨.init hs, _, _, Tends.of_fresh hs⟩) ?_
    rintro s a s' ⟨hreach, q, ending, htends⟩ hok hs
    obtain ⟨S, hR, hS, -⟩ := shared_of_reachable hreach
    obtain ⟨loc, hobeyed, hknows⟩ := KnowsEmpty.of_reachable hreach
    exact ⟨hreach.step trivial hs, htends.step hR hS hobeyed hknows hok hs⟩
  obtain ⟨-, q, ending, htends⟩ := hinv
  obtain rfl := htends.idle hop
  obtain ⟨habort, hstop⟩ := htends.kept.tended t c hcell hhome
  have hlt : t < s.world.homes.length := (List.getElem?_eq_some_iff.mp hhome).1
  cases hended : (s.pings t).ended with
  | false => exact ⟨⟨⟨hlt, hended⟩, habort⟩, hstop⟩
  | true =>
      rcases htends.kept.spent t c hcell hhome (.inr hended) with htold | habort'
      · cases hstop.symm.trans htold
      · exact absurd habort' habort

end

end ClientRuntime

end Wagonet
