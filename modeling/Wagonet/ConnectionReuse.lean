import Wagonet.SharedStream

/-!
When a connection is not used any more.

Some exchanges are bad for their connection: it must not be used after them. Bad
are those that went wrong, for one. A thread whose exchange has failed takes the
connection out of the cell before it unlocks it, so it depends on the threads
that are dropped whether a bad exchange is the last one on its connection.
-/

namespace Wagonet

open Library ClientRuntime

namespace SharedStream

variable {S S' : SharedStream} {g : Agent} {l : Label} {bad : Segment → Prop}

/-- A bad exchange is the last one on its connection. -/
structure Last (bad : Segment → Prop) (S : SharedStream) : Prop where
  before : ∀ c, ∀ y ∈ (S.record c).dropLast, ¬bad y
  running : ∀ g x, S.running g = some x → ∀ y ∈ S.record x.conn, ¬bad y

namespace Last

theorem endExchange (h : S.Last bad) (hS : S.Exclusive) (fate : Fate) :
    (S.endExchange g fate).Last bad := by
  cases hx : S.running g with
  | none =>
      rw [endExchange_of_none hx]
      exact h
  | some x =>
      constructor
      · intro c y hy
        by_cases heq : c = x.conn
        · subst heq
          simp only [endExchange_record, hx, Function.update_self, List.dropLast_concat] at hy
          exact h.running g x hx y hy
        · simp only [endExchange_record, hx, Function.update_of_ne heq] at hy
          exact h.before c y hy
      · intro g' x' hx'
        by_cases heq : g' = g
        · simp [heq] at hx'
        · simp [heq, hS.running_other (hS.owner_of_running hx) heq] at hx'

theorem apply (h : S.Last bad) (hS : S.Exclusive)
    (hbegins : ∀ g x, l = .begins g x → S.enabled l → ∀ y ∈ S.record x.conn, ¬bad y)
    (hl : S.enabled l) : (S.apply l).Last bad := by
  cases l with
  | begins g x =>
      refine ⟨h.before, fun g' x' hx' => ?_⟩
      by_cases heq : g' = g
      · subst heq
        simp only [SharedStream.apply, Function.update_self, Option.some.injEq] at hx'
        exact hx' ▸ hbegins g' x rfl hl
      · simp only [SharedStream.apply, Function.update_of_ne heq] at hx'
        exact h.running g' x' hx'
  | event g e =>
      cases hx : S.running g with
      | none => exact absurd hx hl
      | some x =>
          rw [apply_event hx]
          refine ⟨h.before, fun g' x' hx' => ?_⟩
          by_cases heq : g' = g
          · subst heq
            simp only [Function.update_self, Option.some.injEq] at hx'
            exact hx' ▸ h.running g' x hx
          · simp only [Function.update_of_ne heq] at hx'
            exact h.running g' x' hx'
  | ends g r =>
      cases hx : S.running g with
      | none => exact absurd hx hl
      | some x =>
          have hend := h.endExchange (g := g) hS (.returned r)
          rw [apply_ends hx]
          exact ⟨hend.before, hend.running⟩
  | drop g =>
      have hend := h.endExchange (g := g) hS .dropped
      exact ⟨hend.before, hend.running⟩
  | lock g => exact ⟨h.before, h.running⟩
  | unlock g => exact ⟨h.before, h.running⟩
  | load g => exact ⟨h.before, h.running⟩
  | clear g => exact ⟨h.before, h.running⟩
  | store c => exact ⟨h.before, h.running⟩
  | connect => exact ⟨h.before, h.running⟩
  | spawn => exact ⟨h.before, h.running⟩
  | abort t => exact ⟨h.before, h.running⟩
  | settle => exact ⟨h.before, h.running⟩

end Last

/-- After a bad exchange the connection is taken out of the cell before anything else. -/
def Clean (bad : Segment → Prop) (S : SharedStream) : Prop :=
  ∀ c y, S.cell = some c → y ∈ S.record c → bad y → ∃ g, (S.loc g).hold = .failed c

namespace Clean

/-- The thread whose exchange has failed has locked the cell. -/
theorem owner {c : Conn} {y : Segment} (h : S.Clean bad) (hS : S.Exclusive)
    (hc : S.cell = some c) (hy : y ∈ S.record c) (hbad : bad y) (hg : S.owner = some g) :
    (S.loc g).hold = .failed c := by
  obtain ⟨g', hg'⟩ := h c y hc hy hbad
  rwa [← Exclusive.owner_unique hg (hS.owner_of_hold (g := g') (by rw [hg']; nofun))]

/-- Nobody has failed, or the cell is as it was and so is what is known of it. -/
theorem of_loc (h : S.Clean bad) (hcell : S'.cell = S.cell) (hrecord : S'.record = S.record)
    (hloc : ∀ g c, (S.loc g).hold = .failed c → (S'.loc g).hold = .failed c) : S'.Clean bad := by
  intro c y hc hy hbad
  obtain ⟨g, hg⟩ := h c y (hcell ▸ hc) (hrecord ▸ hy) hbad
  exact ⟨g, hloc g c hg⟩

theorem withLocal (h : S.Clean bad) {q : Local}
    (hq : q.hold = (S.loc g).hold ∨ (S.loc g).calm) : (S.withLocal g q).Clean bad := by
  refine h.of_loc rfl rfl fun g' c hg' => ?_
  by_cases heq : g' = g
  · subst heq
    rcases hq with hq | hq
    · simpa [hq] using hg'
    · exact absurd hg' (hq c)
  · simpa [heq] using hg'

/-- An exchange that ends is the only one, so nothing bad was before it. -/
theorem endExchange {x : Ongoing} {fate : Fate} (h : S.Clean bad) (hS : S.Exclusive)
    (hx : S.running g = some x) {y : Segment} {c : Conn} (hc : S.cell = some c)
    (hy : y ∈ (S.endExchange g fate).record c) (hbad : bad y) :
    y = x.ended g fate ∧ c = x.conn := by
  have hconn : c = x.conn := Option.some.inj (hc.symm.trans (hS.cell_of_running hx))
  subst hconn
  simp only [endExchange_record, hx, Function.update_self, List.mem_append,
    List.mem_singleton] at hy
  rcases hy with hy | hy
  · have hfailed := h.owner hS hc hy hbad (hS.owner_of_running hx)
    rw [hS.hold_of_running hx] at hfailed
    cases hfailed
  · exact ⟨hy, rfl⟩

theorem apply (h : S.Clean bad) (hS : S.Exclusive) (hN : S.Numbered)
    (hok : ∀ y r, y.fate = .returned (.ok r) → ¬bad y)
    (hdrop : ∀ g x, l = .drop g → S.running g = some x → ¬bad (x.ended g .dropped))
    (hl : S.enabled l) : (S.apply l).Clean bad := by
  cases l with
  | lock g =>
      have hcalm : (S.loc g).calm := Local.calm_of_free (hS.idle g (by rw [hl]; simp)).1
      exact withLocal (S := { S with owner := some g }) h (.inr hcalm)
  | unlock g =>
      have hcalm : (S.loc g).calm := fun c hc => by
        simp [enabled, Local.canUnlock, hc] at hl
      exact withLocal (S := { S with owner := none }) h (.inr hcalm)
  | load g =>
      have hcalm : (S.loc g).calm := fun c hc => by simp [hc, enabled] at hl
      exact withLocal h (.inr hcalm)
  | clear g =>
      intro c y hc
      simp [SharedStream.apply] at hc
  | store c =>
      intro c' y hc' hy
      obtain rfl : c = c' := Option.some.inj hc'
      exact absurd (hN.record c (List.ne_nil_of_mem hy)) (hN.not_past hl.2.2.1)
  | connect =>
      exact withLocal (S := { S with connections := S.connections + 1 }) h (.inl rfl)
  | spawn => exact withLocal (S := { S with homes := S.homes ++ [S.stored] }) h (.inl rfl)
  | abort t =>
      exact withLocal
        (S := { S with aborted := if t < S.homes.length then t :: S.aborted else S.aborted }) h
        (.inl (Local.stopped_hold _))
  | begins g x => exact h
  | event g e =>
      cases hx : S.running g with
      | none => exact absurd hx hl
      | some x =>
          rw [apply_event hx]
          exact h
  | ends g r =>
      cases hx : S.running g with
      | none => exact absurd hx hl
      | some x =>
          rw [apply_ends hx]
          intro c y hc hy hbad
          obtain ⟨rfl, rfl⟩ := h.endExchange hS hx hc hy hbad
          cases r with
          | ok response => exact absurd hbad (hok _ response rfl)
          | error e => exact ⟨g, by simp [afterExchange]⟩
  | settle => exact h.withLocal (.inr hl.calm)
  | drop g =>
      cases hx : S.running g with
      | none =>
          refine h.of_loc rfl ?_ fun g' c hg' => ?_
          · funext c
            simp [SharedStream.apply, hx]
          · have hne : g' ≠ g := fun heq => hl c (heq ▸ hg')
            simpa [SharedStream.apply, hne] using hg'
      | some x =>
          intro c y hc hy hbad
          obtain ⟨rfl, rfl⟩ := h.endExchange hS hx hc hy hbad
          exact absurd hbad (hdrop g x rfl hx)

end Clean

/-- Nobody is dropped in the middle of an exchange that is bad for it. -/
theorem clean_of_reachable {ok : SharedStream → Label → Prop} (bad : Segment → Prop)
    (hok : ∀ y r, y.fate = .returned (.ok r) → ¬bad y)
    (hdrop : ∀ S g x, ok S (.drop g) → S.running g = some x → ¬bad (x.ended g .dropped))
    (h : machine.Reachable ok S) : S.Sound ∧ S.Clean bad ∧ S.Last bad := by
  refine h.invariant (fun S => S.Sound ∧ S.Clean bad ∧ S.Last bad) (fun S hS => ?_)
    fun S l S' hS hl hs => ?_
  · have hrecord : ∀ c, S.record c = [] := hS.2.2.2.2.2.2.1
    refine ⟨.of_init hS, fun c y _ hy => ?_, fun c y hy => ?_, fun g x _ y hy => ?_⟩
    · simp [hrecord] at hy
    · simp [hrecord] at hy
    · simp [hrecord] at hy
  · obtain ⟨hen, rfl⟩ := step_eq_some_iff.mp hs
    obtain ⟨hsound, hclean, hlast⟩ := hS
    refine ⟨hsound.apply hen, ?_,
      hlast.apply hsound.exclusive (fun g x hl' hen y hy hbad => ?_) hen⟩
    · refine hclean.apply hsound.exclusive hsound.numbered hok (fun g x hl' hx => ?_) hen
      exact hdrop S g x (hl' ▸ hl) hx
    · subst hl'
      obtain ⟨hhold, -⟩ := hen
      have howner := hsound.exclusive.owner_of_hold (g := g) (by rw [hhold]; nofun)
      have hfailed := hclean.owner hsound.exclusive (hsound.exclusive.cell_of_sees hhold) hy hbad
        howner
      rw [hhold] at hfailed
      cases hfailed

/-! ### Connections that are gone -/

/-- Where an exchange has failed, its failure is recorded. -/
def Failures (S : SharedStream) : Prop :=
  ∀ g c, (S.loc g).hold = .failed c →
    ∃ y ∈ S.record c, y.owner = g ∧ ∃ e, y.fate = .returned (.error e)

namespace Failures

theorem of_loc (h : S.Failures) (hrecord : ∀ c, ∀ y ∈ S.record c, y ∈ S'.record c)
    (hloc : ∀ g c, (S'.loc g).hold = .failed c → (S.loc g).hold = .failed c) : S'.Failures := by
  intro g c hg
  obtain ⟨y, hy, howner⟩ := h g c (hloc g c hg)
  exact ⟨y, hrecord c y hy, howner⟩

theorem withLocal (h : S.Failures) {q : Local} (hq : q.hold = (S.loc g).hold ∨ q.calm) :
    (S.withLocal g q).Failures := by
  refine h.of_loc (fun _ _ hy => hy) fun g' c hg' => ?_
  by_cases heq : g' = g
  · subst heq
    rw [withLocal_loc, Function.update_self] at hg'
    rcases hq with hq | hq
    · rwa [← hq]
    · exact absurd hg' (hq c)
  · simpa [heq] using hg'

theorem mem_endExchange {fate : Fate} {c : Conn} {y : Segment} (hy : y ∈ S.record c) :
    y ∈ (S.endExchange g fate).record c := by
  cases hx : S.running g with
  | none => rwa [endExchange_of_none hx]
  | some x =>
      by_cases heq : c = x.conn
      · subst heq
        simpa [hx] using Or.inl hy
      · simpa [hx, heq] using hy

theorem apply (h : S.Failures) (hl : S.enabled l) : (S.apply l).Failures := by
  cases l with
  | lock g => exact withLocal (S := { S with owner := some g }) h (.inr (by rintro _ ⟨⟩))
  | unlock g => exact withLocal (S := { S with owner := none }) h (.inr (by rintro _ ⟨⟩))
  | load g => exact h.withLocal (.inr (by rintro _ ⟨⟩))
  | clear g => exact withLocal (S := { S with cell := none }) h (.inr (by rintro _ ⟨⟩))
  | store c =>
      exact withLocal (S := { S with cell := some c, stored := some c }) h (.inr (by rintro _ ⟨⟩))
  | connect => exact withLocal (S := { S with connections := S.connections + 1 }) h (.inl rfl)
  | spawn => exact withLocal (S := { S with homes := S.homes ++ [S.stored] }) h (.inl rfl)
  | abort t =>
      exact withLocal
        (S := { S with aborted := if t < S.homes.length then t :: S.aborted else S.aborted }) h
        (.inl (Local.stopped_hold _))
  | begins g x => exact h
  | event g e =>
      cases hx : S.running g with
      | none => exact absurd hx hl
      | some x =>
          rw [apply_event hx]
          exact h
  | ends g r =>
      cases hx : S.running g with
      | none => exact absurd hx hl
      | some x =>
          have hend : (S.endExchange g (.returned r)).Failures :=
            h.of_loc (fun _ _ hy => mem_endExchange hy) fun _ _ hg => hg
          rw [apply_ends hx]
          cases r with
          | ok response => exact hend.withLocal (.inl rfl)
          | error e =>
              intro g' c hg'
              by_cases heq : g' = g
              · subst heq
                simp only [withLocal_loc, Function.update_self, afterExchange,
                  Hold.failed.injEq] at hg'
                subst hg'
                exact ⟨x.ended g' (.returned (.error e)), by simp [hx], rfl, e, rfl⟩
              · rw [withLocal_loc, Function.update_of_ne heq] at hg'
                exact hend g' c hg'
  | settle => exact h.withLocal (.inr (by rintro _ ⟨⟩))
  | drop g =>
      have hend : (S.endExchange g .dropped).Failures :=
        h.of_loc (fun _ _ hy => mem_endExchange hy) fun _ _ hg => hg
      exact withLocal (q := .start) (S := { S.endExchange g .dropped with
        owner := if S.owner = some g then none else S.owner
        dropped := g :: S.dropped }) hend (.inr (by rintro _ ⟨⟩))

end Failures

theorem failures_of_reachable {ok : SharedStream → Label → Prop} (h : machine.Reachable ok S) :
    S.Failures := by
  refine h.invariant Failures (fun S hS g c hg => ?_) fun S l S' hS _ hs => ?_
  · rw [hS.2.2.2.2.2.2.2.1 g] at hg
    cases hg
  · obtain ⟨hl, rfl⟩ := step_eq_some_iff.mp hs
    exact hS.apply hl

/-- The connection was in the cell and is not used any more. -/
def Gone (S : SharedStream) (c : Conn) : Prop :=
  S.Past c ∧ S.cell ≠ some c ∧ ∀ g x, S.running g = some x → x.conn ≠ c

/-- Connections that are gone do not come back. -/
theorem Gone.apply {c : Conn} (h : S.Gone c) (hsound : S.Sound) (hl : S.enabled l) :
    (S.apply l).Gone c ∧ (S.apply l).wire c = S.wire c := by
  obtain ⟨hpast, hcell, hrunning⟩ := h
  have hended : ∀ g' fate g x, (S.endExchange g' fate).running g = some x → x.conn ≠ c := by
    intro g' fate g x hx
    by_cases heq : g = g'
    · simp [heq] at hx
    · rw [endExchange_running, Function.update_of_ne heq] at hx
      exact hrunning g x hx
  cases l with
  | clear g => exact ⟨⟨hpast, by rintro ⟨⟩, hrunning⟩, rfl⟩
  | store c' =>
      have hne : c' ≠ c := fun heq => hsound.numbered.not_past hl.2.2.1 (heq ▸ hpast)
      obtain ⟨c'', hc'', hle⟩ := hpast
      have hlt := (hsound.numbered.fresh c' hl.2.2.1).2 c'' hc''
      exact ⟨⟨⟨c', rfl, Nat.le_trans hle (Nat.le_of_lt hlt)⟩,
        fun heq => hne (Option.some.inj heq), hrunning⟩, rfl⟩
  | begins g x =>
      have hx : x.conn ≠ c := fun heq =>
        hcell (heq ▸ hsound.exclusive.cell_of_sees hl.1)
      refine ⟨⟨hpast, hcell, fun g' x' hx' => ?_⟩, rfl⟩
      by_cases heq : g' = g
      · subst heq
        simp only [SharedStream.apply, Function.update_self, Option.some.injEq] at hx'
        exact hx' ▸ hx
      · simp only [SharedStream.apply, Function.update_of_ne heq] at hx'
        exact hrunning g' x' hx'
  | event g e =>
      cases hx : S.running g with
      | none => exact absurd hx hl
      | some x =>
          have hne := hrunning g x hx
          rw [apply_event hx]
          refine ⟨⟨hpast, hcell, fun g' x' hx' => ?_⟩, Function.update_of_ne hne.symm _ _⟩
          by_cases heq : g' = g
          · subst heq
            simp only [Function.update_self, Option.some.injEq] at hx'
            exact hx' ▸ hne
          · simp only [Function.update_of_ne heq] at hx'
            exact hrunning g' x' hx'
  | ends g r =>
      cases hx : S.running g with
      | none => exact absurd hx hl
      | some x =>
          rw [apply_ends hx]
          exact ⟨⟨hpast, hcell, hended g (.returned r)⟩, rfl⟩
  | drop g => exact ⟨⟨hpast, hcell, hended g .dropped⟩, rfl⟩
  | lock g => exact ⟨⟨hpast, hcell, hrunning⟩, rfl⟩
  | unlock g => exact ⟨⟨hpast, hcell, hrunning⟩, rfl⟩
  | load g => exact ⟨⟨hpast, hcell, hrunning⟩, rfl⟩
  | connect => exact ⟨⟨hpast, hcell, hrunning⟩, rfl⟩
  | spawn => exact ⟨⟨hpast, hcell, hrunning⟩, rfl⟩
  | abort t => exact ⟨⟨hpast, hcell, hrunning⟩, rfl⟩
  | settle => exact ⟨⟨hpast, hcell, hrunning⟩, rfl⟩

end SharedStream

end Wagonet
