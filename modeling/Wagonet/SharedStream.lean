import Mathlib
import Wagonet.ClientDiscipline
import Wagonet.ClientRuntime

/-!
One stream that is shared by an operation of the caller and by ping tasks.

Of the threads of a client only that is left which matters for the stream: what
each knows of the cell, and the exchange it is in. A step is taken by a thread
that follows the discipline, so the steps are those which the discipline allows.
The invariants of the stream are proved here; that a client takes no other steps
is proved where the two are related.
-/

namespace Wagonet

open Library ClientRuntime

structure SharedStream where
  /-- who has locked the cell -/
  owner : Option Agent
  cell : Option Conn
  stored : Option Conn
  connections : Nat
  homes : List (Option Conn)
  aborted : List Nat
  /-- the threads that were dropped; only the caller comes back with another operation -/
  dropped : List Agent
  wire : Conn → List (Agent × (Net Interface.empty).Event)
  record : Conn → List Segment
  loc : Agent → Local
  running : Agent → Option Ongoing

namespace SharedStream

inductive Label
  | lock (g : Agent)
  | unlock (g : Agent)
  | load (g : Agent)
  /-- the cell is emptied -/
  | clear (g : Agent)
  /-- the caller stores a new stream -/
  | store (c : Conn)
  | connect
  | spawn
  | abort (t : Nat)
  | begins (g : Agent) (x : Ongoing)
  | event (g : Agent) (e : (Net Interface.empty).Event)
  | ends (g : Agent) (r : Except Error (List UInt8))
  /-- an operation of the caller ends -/
  | settle
  /-- a thread is dropped -/
  | drop (g : Agent)

@[simps] def withLocal (S : SharedStream) (g : Agent) (q : Local) : SharedStream :=
  { S with loc := Function.update S.loc g q }

/-- The exchange of this thread ends. -/
@[simps] def endExchange (S : SharedStream) (g : Agent) (fate : Fate) : SharedStream :=
  { S with
    running := Function.update S.running g none
    record := match S.running g with
      | none => S.record
      | some x => Function.update S.record x.conn (S.record x.conn ++ [x.ended g fate]) }

theorem endExchange_of_none {S : SharedStream} {g : Agent} {fate : Fate}
    (h : S.running g = none) : S.endExchange g fate = S := by
  have hrunning : Function.update S.running g none = S.running := by
    rw [← h, Function.update_eq_self]
  simp only [endExchange, h, hrunning]

/-- What a thread knows after its exchange has ended. -/
def afterExchange (q : Local) (c : Conn) : Except Error (List UInt8) → Local
  | .ok _ => q
  | .error _ => { q with hold := .failed c }

def enabled (S : SharedStream) : Label → Prop
  | .lock _ => S.owner = none
  | .unlock g => (S.loc g).canUnlock ∧ S.running g = none
  | .load g => (S.loc g).hold = .taken
  | .clear g => (S.loc g).hold ≠ .free ∧ S.running g = none ∧
      (g ≠ .client → ∃ c, (S.loc g).hold = .failed c)
  | .store c => (S.loc .client).canUnlock ∧ S.running .client = none ∧
      (S.loc .client).fresh = some c ∧ (S.loc .client).mode ≠ .clearing
  | .connect => True
  | .spawn => (S.loc .client).mode = .stored
  | .abort _ => True
  | .begins g x => (S.loc g).hold = .sees (some x.conn) ∧ (S.loc g).mode ≠ .clearing ∧
      S.running g = none ∧ x.events = [] ∧ (g ∈ S.dropped → g = .client)
  | .event g _ => S.running g ≠ none
  | .ends g _ => S.running g ≠ none
  | .settle => (S.loc .client).settled
  | .drop g => (S.loc g).calm

def apply (S : SharedStream) : Label → SharedStream
  | .lock g => { S with owner := some g }.withLocal g { S.loc g with hold := .taken }
  | .unlock g => { S with owner := none }.withLocal g { S.loc g with hold := .free }
  | .load g => S.withLocal g { S.loc g with hold := .sees S.cell }
  | .clear g => { S with cell := none }.withLocal g (S.loc g).cleared
  | .store c =>
      { S with cell := some c, stored := some c }.withLocal .client ⟨.sees (some c), .stored, none⟩
  | .connect =>
      { S with connections := S.connections + 1 }.withLocal .client
        { S.loc .client with fresh := some S.connections }
  | .spawn =>
      { S with homes := S.homes ++ [S.stored] }.withLocal .client
        { S.loc .client with mode := .plain }
  | .abort t =>
      { S with aborted := if t < S.homes.length then t :: S.aborted else S.aborted }.withLocal
        .client (S.loc .client).stopped
  | .begins g x => { S with running := Function.update S.running g (some x) }
  | .event g e =>
      match S.running g with
      | none => S
      | some x =>
          { S with
            running := Function.update S.running g (some (x.add e))
            wire := Function.update S.wire x.conn (S.wire x.conn ++ [(g, e)]) }
  | .ends g r =>
      match S.running g with
      | none => S
      | some x => (S.endExchange g (.returned r)).withLocal g (afterExchange (S.loc g) x.conn r)
  | .settle => S.withLocal .client .start
  | .drop g =>
      { S.endExchange g .dropped with
        owner := if S.owner = some g then none else S.owner
        dropped := g :: S.dropped }.withLocal g .start

open Classical in
/-- Threads that follow the discipline. -/
noncomputable def machine : Machine SharedStream Label where
  init S :=
    S.owner = none ∧ S.cell = none ∧ S.stored = none ∧ S.homes = [] ∧ S.aborted = [] ∧
      (∀ c, S.wire c = []) ∧ (∀ c, S.record c = []) ∧ (∀ g, S.loc g = .start) ∧
      ∀ g, S.running g = none
  step S l := if S.enabled l then some (S.apply l) else none

theorem step_eq_some_iff {S S' : SharedStream} {l : Label} :
    machine.step S l = some S' ↔ S.enabled l ∧ S.apply l = S' := by
  simp only [machine, Option.ite_none_right_eq_some, Option.some.injEq]

variable {S S' : SharedStream} {g : Agent} {l : Label}

theorem apply_event {x : Ongoing} {e : (Net Interface.empty).Event} (hx : S.running g = some x) :
    S.apply (.event g e) =
      { S with
        running := Function.update S.running g (some (x.add e))
        wire := Function.update S.wire x.conn (S.wire x.conn ++ [(g, e)]) } := by
  simp only [apply, hx]

theorem apply_ends {x : Ongoing} {r : Except Error (List UInt8)} (hx : S.running g = some x) :
    S.apply (.ends g r) =
      (S.endExchange g (.returned r)).withLocal g (afterExchange (S.loc g) x.conn r) := by
  simp only [apply, hx]

/-! ### One thread at a time -/

/-- What a thread that has locked the cell knows is true, and its exchange is on what
is in the cell. -/
def Holds (cell : Option Conn) (running : Option Ongoing) : Hold → Prop
  | .free => False
  | .taken => running = none
  | .sees v => cell = v ∧ ∀ x, running = some x → v = some x.conn
  | .failed c => cell = some c ∧ running = none

structure Exclusive (S : SharedStream) : Prop where
  idle : ∀ g, S.owner ≠ some g → (S.loc g).hold = .free ∧ S.running g = none
  held : ∀ g, S.owner = some g → Holds S.cell (S.running g) (S.loc g).hold

namespace Exclusive

theorem owner_of_hold (h : S.Exclusive) (hg : (S.loc g).hold ≠ .free) : S.owner = some g := by
  by_contra howner
  exact hg (h.idle g howner).1

theorem owner_of_running {x : Ongoing} (h : S.Exclusive) (hx : S.running g = some x) :
    S.owner = some g := by
  by_contra howner
  rw [(h.idle g howner).2] at hx
  cases hx

theorem cell_of_sees {v : Option Conn} (h : S.Exclusive) (hg : (S.loc g).hold = .sees v) :
    S.cell = v := by
  have hheld := h.held g (h.owner_of_hold (by simp [hg]))
  rw [hg] at hheld
  exact hheld.1

theorem cell_of_failed {c : Conn} (h : S.Exclusive) (hg : (S.loc g).hold = .failed c) :
    S.cell = some c := by
  have hheld := h.held g (h.owner_of_hold (by simp [hg]))
  rw [hg] at hheld
  exact hheld.1

/-- An exchange is on the connection in the cell. -/
theorem hold_of_running {x : Ongoing} (h : S.Exclusive) (hx : S.running g = some x) :
    (S.loc g).hold = .sees (some x.conn) := by
  have hheld := h.held g (h.owner_of_running hx)
  rw [hx] at hheld
  cases hhold : (S.loc g).hold with
  | free => simp [hhold, Holds] at hheld
  | taken => simp [hhold, Holds] at hheld
  | sees v =>
      rw [hhold] at hheld
      rw [hheld.2 x rfl]
  | failed c => simp [hhold, Holds] at hheld

theorem cell_of_running {x : Ongoing} (h : S.Exclusive) (hx : S.running g = some x) :
    S.cell = some x.conn := h.cell_of_sees (h.hold_of_running hx)

theorem owner_unique {g' : Agent} (hg : S.owner = some g) (hg' : S.owner = some g') : g' = g :=
  Option.some.inj (hg'.symm.trans hg)

/-- Only the thread that has locked the cell, or locks it, does anything. -/
theorem of_owner (h : S.Exclusive) (howner : S.owner = none ∨ S.owner = some g)
    (hothers : ∀ g' ≠ g, S'.loc g' = S.loc g' ∧ S'.running g' = S.running g')
    (h' : (S'.owner = some g ∧ Holds S'.cell (S'.running g) (S'.loc g).hold) ∨
      (S'.owner = none ∧ (S'.loc g).hold = .free ∧ S'.running g = none)) : S'.Exclusive := by
  have hidle : ∀ g' ≠ g, (S'.loc g').hold = .free ∧ S'.running g' = none := by
    intro g' hg'
    obtain ⟨hloc, hrun⟩ := hothers g' hg'
    rw [hloc, hrun]
    refine h.idle g' fun hg'' => ?_
    rcases howner with howner | howner
    · rw [howner] at hg''
      cases hg''
    · exact hg' (owner_unique howner hg'')
  constructor
  · intro g' hg'
    by_cases heq : g' = g
    · subst heq
      rcases h' with ⟨hown, -⟩ | ⟨-, hfree⟩
      · exact absurd hown hg'
      · exact hfree
    · exact hidle g' heq
  · intro g' hg'
    rcases h' with ⟨hown, hheld⟩ | ⟨hown, -⟩
    · rw [owner_unique hown hg']
      exact hheld
    · rw [hown] at hg'
      cases hg'

/-- Nobody locks the cell or unlocks it, nor changes it or what is known of it. -/
theorem of_same (h : S.Exclusive) (howner : S'.owner = S.owner) (hcell : S'.cell = S.cell)
    (hothers : ∀ g, (S'.loc g).hold = (S.loc g).hold ∧ S'.running g = S.running g) :
    S'.Exclusive := by
  constructor
  · intro g hg
    rw [(hothers g).1, (hothers g).2]
    exact h.idle g (howner ▸ hg)
  · intro g hg
    rw [(hothers g).1, (hothers g).2, hcell]
    exact h.held g (howner ▸ hg)

/-- Something is noted that does not concern the cell. -/
theorem withLocal (h : S.Exclusive) {q : Local} (hq : q.hold = (S.loc g).hold) :
    (S.withLocal g q).Exclusive := by
  refine h.of_same rfl rfl fun g' => ⟨?_, rfl⟩
  by_cases heq : g' = g
  · subst heq
    simpa using hq
  · simp [heq]

/-- A thread that has locked the cell goes on, and still has it locked. -/
theorem keeps (h : S.Exclusive) (howner : S.owner = some g) (howner' : S'.owner = S.owner)
    (hothers : ∀ g' ≠ g, S'.loc g' = S.loc g' ∧ S'.running g' = S.running g')
    (hheld : Holds S'.cell (S'.running g) (S'.loc g).hold) : S'.Exclusive :=
  h.of_owner (.inr howner) hothers (.inl ⟨howner'.trans howner, hheld⟩)

theorem apply (h : S.Exclusive) (hl : S.enabled l) : (S.apply l).Exclusive := by
  cases l with
  | lock g =>
      have hg : S.running g = none := (h.idle g (by rw [hl]; simp)).2
      refine h.of_owner (g := g) (.inl hl) (fun g' hg' => by simp [SharedStream.apply, hg']) ?_
      simp [SharedStream.apply, Holds, hg]
  | unlock g =>
      obtain ⟨hlock, hrun⟩ := hl
      have howner : S.owner = some g :=
        h.owner_of_hold fun hfree => by simp [Local.canUnlock, hfree] at hlock
      refine h.of_owner (.inr howner) (fun g' hg' => by simp [SharedStream.apply, hg']) ?_
      simp [SharedStream.apply, hrun]
  | load g =>
      have howner : S.owner = some g := h.owner_of_hold (by rw [hl]; simp)
      have hrun := h.held g howner
      rw [hl] at hrun
      refine h.keeps howner rfl (fun g' hg' => by simp [SharedStream.apply, hg']) ?_
      simp [SharedStream.apply, Holds, show S.running g = none from hrun]
  | clear g =>
      obtain ⟨hhold, hrun, -⟩ := hl
      refine h.keeps (h.owner_of_hold hhold) rfl
        (fun g' hg' => by simp [SharedStream.apply, hg']) ?_
      simp [SharedStream.apply, Holds, Local.cleared, hrun]
  | store c =>
      obtain ⟨hlock, hrun, -⟩ := hl
      have howner : S.owner = some .client :=
        h.owner_of_hold fun hfree => by simp [Local.canUnlock, hfree] at hlock
      refine h.keeps howner rfl (fun g' hg' => by simp [SharedStream.apply, hg']) ?_
      simp [SharedStream.apply, Holds, hrun]
  | connect =>
      exact withLocal (S := { S with connections := S.connections + 1 })
        (h.of_same rfl rfl fun _ => ⟨rfl, rfl⟩) rfl
  | spawn =>
      exact withLocal (S := { S with homes := S.homes ++ [S.stored] })
        (h.of_same rfl rfl fun _ => ⟨rfl, rfl⟩) rfl
  | abort t =>
      exact withLocal
        (S := { S with aborted := if t < S.homes.length then t :: S.aborted else S.aborted })
        (h.of_same rfl rfl fun _ => ⟨rfl, rfl⟩) (Local.stopped_hold _)
  | begins g x =>
      obtain ⟨hhold, -⟩ := hl
      refine h.keeps (h.owner_of_hold (by rw [hhold]; simp)) rfl
        (fun g' hg' => by simp [SharedStream.apply, hg']) ?_
      simp [SharedStream.apply, Holds, hhold, h.cell_of_sees hhold]
  | event g e =>
      cases hx : S.running g with
      | none => exact absurd hx hl
      | some x =>
          have hhold := h.hold_of_running hx
          refine h.keeps (h.owner_of_running hx) (by simp [SharedStream.apply, hx])
            (fun g' hg' => by simp [SharedStream.apply, hx, hg']) ?_
          simp [SharedStream.apply, Holds, hx, hhold, h.cell_of_sees hhold, Ongoing.add]
  | ends g r =>
      cases hx : S.running g with
      | none => exact absurd hx hl
      | some x =>
          have hhold := h.hold_of_running hx
          refine h.keeps (h.owner_of_running hx) (by simp [SharedStream.apply, endExchange, hx])
            (fun g' hg' => by simp [SharedStream.apply, endExchange, hx, hg']) ?_
          cases r with
          | ok _ =>
              simp [SharedStream.apply, endExchange, afterExchange, Holds, hx, hhold,
                h.cell_of_sees hhold]
          | error _ =>
              simp [SharedStream.apply, endExchange, afterExchange, Holds, hx,
                h.cell_of_sees hhold]
  | settle => exact h.withLocal (Eq.symm hl.1)
  | drop g =>
      by_cases howner : S.owner = some g
      · refine h.of_owner (.inr howner) (fun g' hg' => ?_) (.inr ?_)
        · cases hx : S.running g <;> simp [SharedStream.apply, endExchange, hx, hg']
        · cases hx : S.running g <;>
            simp [SharedStream.apply, endExchange, hx, howner, Local.start]
      · obtain ⟨hfree, hrun⟩ := h.idle g howner
        refine h.of_same ?_ ?_ fun g' => ?_
        · simp [SharedStream.apply, endExchange, hrun, howner]
        · simp [SharedStream.apply, endExchange, hrun]
        · by_cases hg' : g' = g
          · subst hg'
            simp [SharedStream.apply, endExchange, hrun, hfree, Local.start]
          · simp [SharedStream.apply, endExchange, hrun, hg']

end Exclusive

/-! ### Connections are stored once -/

/-- The connection was stored, or one that was made after it. -/
def Past (S : SharedStream) (c : Conn) : Prop := ∃ c', S.stored = some c' ∧ c ≤ c'

structure Numbered (S : SharedStream) : Prop where
  cell : ∀ c, S.cell = some c → S.stored = some c
  stored : ∀ c, S.stored = some c → c < S.connections
  fresh : ∀ c, (S.loc .client).fresh = some c →
    c < S.connections ∧ ∀ c', S.stored = some c' → c' < c
  record : ∀ c, S.record c ≠ [] → S.Past c
  homes : ∀ c, some c ∈ S.homes → S.Past c

namespace Numbered

/-- A connection that is about to be stored is a new one. -/
theorem not_past {c : Conn} (h : S.Numbered) (hc : (S.loc .client).fresh = some c) :
    ¬S.Past c := by
  rintro ⟨c', hc', hle⟩
  exact absurd ((h.fresh c hc).2 c' hc') (Nat.not_lt.mpr hle)

/-- No connection is made or stored. -/
theorem of_same (h : S.Numbered) (hcell : S'.cell = S.cell ∨ S'.cell = none)
    (hstored : S'.stored = S.stored) (hconn : S'.connections = S.connections)
    (hfresh : (S'.loc .client).fresh = (S.loc .client).fresh ∨ (S'.loc .client).fresh = none)
    (hrecord : ∀ c, S'.record c ≠ [] → S.Past c)
    (hhomes : ∀ c, some c ∈ S'.homes → S.Past c) : S'.Numbered := by
  have hpast : ∀ c, S.Past c → S'.Past c := by simp [Past, hstored]
  constructor
  · intro c hc
    rcases hcell with hcell | hcell
    · rw [hstored]
      exact h.cell c (hcell ▸ hc)
    · simp [hcell] at hc
  · rw [hstored, hconn]
    exact h.stored
  · intro c hc
    rw [hstored, hconn]
    rcases hfresh with hfresh | hfresh
    · exact h.fresh c (hfresh ▸ hc)
    · simp [hfresh] at hc
  · exact fun c hc => hpast c (hrecord c hc)
  · exact fun c hc => hpast c (hhomes c hc)

theorem endExchange (h : S.Numbered) (hS : S.Exclusive) (fate : Fate) :
    (S.endExchange g fate).Numbered := by
  refine h.of_same (.inl rfl) rfl rfl (.inl rfl) (fun c hc => ?_) h.homes
  cases hx : S.running g with
  | none => exact h.record c (by simpa [hx] using hc)
  | some x =>
      by_cases heq : c = x.conn
      · exact ⟨c, h.cell c (heq ▸ hS.cell_of_running hx), Nat.le_refl c⟩
      · exact h.record c (by simpa [hx, heq] using hc)

theorem withLocal (h : S.Numbered) {q : Local} (hq : q.fresh = (S.loc g).fresh ∨ q.fresh = none) :
    (S.withLocal g q).Numbered := by
  refine h.of_same (.inl rfl) rfl rfl ?_ h.record h.homes
  by_cases heq : Agent.client = g
  · subst heq
    simpa using hq
  · simp [heq]

theorem apply (h : S.Numbered) (hS : S.Exclusive) (hl : S.enabled l) : (S.apply l).Numbered := by
  cases l with
  | lock g =>
      exact withLocal (S := { S with owner := some g })
        ⟨h.cell, h.stored, h.fresh, h.record, h.homes⟩ (.inl rfl)
  | unlock g =>
      exact withLocal (S := { S with owner := none })
        ⟨h.cell, h.stored, h.fresh, h.record, h.homes⟩ (.inl rfl)
  | load g => exact h.withLocal (.inl rfl)
  | clear g =>
      exact withLocal (S := { S with cell := none })
        (h.of_same (.inr rfl) rfl rfl (.inl rfl) h.record h.homes) (.inl rfl)
  | store c =>
      obtain ⟨-, -, hfresh, -⟩ := hl
      have hpast : ∀ c', S.Past c' → c' ≤ c := by
        rintro c' ⟨c'', hc'', hle⟩
        exact Nat.le_trans hle (Nat.le_of_lt ((h.fresh c hfresh).2 c'' hc''))
      constructor
      · exact fun c' hc' => hc'
      · intro c' hc'
        cases hc'
        exact (h.fresh c hfresh).1
      · simp [SharedStream.apply]
      · exact fun c' hc' => ⟨c, rfl, hpast c' (h.record c' hc')⟩
      · exact fun c' hc' => ⟨c, rfl, hpast c' (h.homes c' hc')⟩
  | connect =>
      constructor
      · exact h.cell
      · exact fun c hc => Nat.lt_succ_of_lt (h.stored c hc)
      · intro c hc
        simp only [SharedStream.apply, withLocal_loc, Function.update_self, Option.some.injEq]
          at hc
        subst hc
        exact ⟨Nat.lt_succ_self _, h.stored⟩
      · exact h.record
      · exact h.homes
  | spawn =>
      refine withLocal (S := { S with homes := S.homes ++ [S.stored] })
        (h.of_same (.inl rfl) rfl rfl (.inl rfl) h.record fun c hc => ?_) (.inl rfl)
      rcases List.mem_append.mp hc with hc | hc
      · exact h.homes c hc
      · exact ⟨c, (List.mem_singleton.mp hc).symm, Nat.le_refl c⟩
  | abort t =>
      refine withLocal
        (S := { S with aborted := if t < S.homes.length then t :: S.aborted else S.aborted })
        ⟨h.cell, h.stored, h.fresh, h.record, h.homes⟩ (.inl (Local.stopped_fresh _))
  | begins g x => exact ⟨h.cell, h.stored, h.fresh, h.record, h.homes⟩
  | event g e =>
      cases hx : S.running g with
      | none => exact absurd hx hl
      | some x =>
          rw [apply_event hx]
          exact ⟨h.cell, h.stored, h.fresh, h.record, h.homes⟩
  | ends g r =>
      cases hx : S.running g with
      | none => exact absurd hx hl
      | some x =>
          rw [apply_ends hx]
          refine withLocal (h.endExchange hS _) (.inl ?_)
          cases r with
          | ok _ => rfl
          | error _ => rfl
  | settle => exact h.withLocal (.inr rfl)
  | drop g =>
      have hend := h.endExchange (g := g) hS .dropped
      exact withLocal (q := .start) (S := { S.endExchange g .dropped with
        owner := if S.owner = some g then none else S.owner
        dropped := g :: S.dropped })
        ⟨hend.cell, hend.stored, hend.fresh, hend.record, hend.homes⟩ (.inr rfl)

end Numbered

/-! ### What is on the wire -/

/-- Nobody is in an exchange unless he has locked the cell. -/
theorem Exclusive.running_other {g' : Agent} (h : S.Exclusive) (hg : S.owner = some g)
    (hg' : g' ≠ g) : S.running g' = none :=
  (h.idle g' fun howner => hg' (Exclusive.owner_unique hg howner)).2

structure Logged (S : SharedStream) : Prop where
  ongoing : ∀ g x, S.running g = some x →
    S.wire x.conn = (S.record x.conn).flatMap Segment.tagged ++ x.events.map (g, ·)
  quiet : ∀ c, (∀ g x, S.running g = some x → x.conn ≠ c) →
    S.wire c = (S.record c).flatMap Segment.tagged

namespace Logged

theorem endExchange (h : S.Logged) (hS : S.Exclusive) (fate : Fate) :
    (S.endExchange g fate).Logged := by
  cases hx : S.running g with
  | none =>
      rw [endExchange_of_none hx]
      exact h
  | some x =>
      have hothers : ∀ g', (S.endExchange g fate).running g' = none := by
        intro g'
        by_cases heq : g' = g
        · simp [heq]
        · simpa [heq] using hS.running_other (hS.owner_of_running hx) heq
      constructor
      · intro g' y hy
        rw [hothers g'] at hy
        cases hy
      · intro c _
        by_cases heq : c = x.conn
        · subst heq
          simp [hx, h.ongoing g x hx, Segment.tagged, Ongoing.ended]
        · have hquiet := h.quiet c fun g' y hy => by
            by_cases hg' : g' = g
            · subst hg'
              cases hx.symm.trans hy
              exact fun hc => heq hc.symm
            · rw [hS.running_other (hS.owner_of_running hx) hg'] at hy
              cases hy
          simpa [hx, heq] using hquiet

theorem apply (h : S.Logged) (hS : S.Exclusive) (hl : S.enabled l) : (S.apply l).Logged := by
  cases l with
  | begins g x =>
      obtain ⟨hhold, -, hrun, hevents, -⟩ := hl
      have howner : S.owner = some g := hS.owner_of_hold (by rw [hhold]; nofun)
      have hquiet : ∀ c, S.wire c = (S.record c).flatMap Segment.tagged := by
        refine fun c => h.quiet c fun g' y hy => ?_
        by_cases hg' : g' = g
        · rw [hg', hrun] at hy
          cases hy
        · rw [hS.running_other howner hg'] at hy
          cases hy
      constructor
      · intro g' y hy
        by_cases hg' : g' = g
        · subst hg'
          simp only [SharedStream.apply, Function.update_self, Option.some.injEq] at hy
          subst hy
          simpa [SharedStream.apply, hevents] using hquiet x.conn
        · simp only [SharedStream.apply, Function.update_of_ne hg'] at hy
          exact h.ongoing g' y hy
      · exact fun c _ => hquiet c
  | event g e =>
      cases hx : S.running g with
      | none => exact absurd hx hl
      | some x =>
          rw [apply_event hx]
          constructor
          · intro g' y hy
            by_cases hg' : g' = g
            · subst hg'
              simp only [Function.update_self, Option.some.injEq] at hy
              subst hy
              simp [Ongoing.add, h.ongoing g' x hx]
            · simp only [Function.update_of_ne hg'] at hy
              rw [hS.running_other (hS.owner_of_running hx) hg'] at hy
              cases hy
          · intro c hc
            have hne : c ≠ x.conn := fun heq => hc g (x.add e) (by simp) heq.symm
            simp only [Function.update_of_ne hne]
            refine h.quiet c fun g' y hy => ?_
            by_cases hg' : g' = g
            · subst hg'
              cases hx.symm.trans hy
              exact hne.symm
            · rw [hS.running_other (hS.owner_of_running hx) hg'] at hy
              cases hy
  | ends g r =>
      cases hx : S.running g with
      | none => exact absurd hx hl
      | some x =>
          have hend := h.endExchange (g := g) hS (.returned r)
          rw [apply_ends hx]
          exact ⟨hend.ongoing, hend.quiet⟩
  | drop g =>
      have hend := h.endExchange (g := g) hS .dropped
      exact ⟨hend.ongoing, hend.quiet⟩
  | lock g => exact ⟨h.ongoing, h.quiet⟩
  | unlock g => exact ⟨h.ongoing, h.quiet⟩
  | load g => exact ⟨h.ongoing, h.quiet⟩
  | clear g => exact ⟨h.ongoing, h.quiet⟩
  | store c => exact ⟨h.ongoing, h.quiet⟩
  | connect => exact ⟨h.ongoing, h.quiet⟩
  | spawn => exact ⟨h.ongoing, h.quiet⟩
  | abort t => exact ⟨h.ongoing, h.quiet⟩
  | settle => exact ⟨h.ongoing, h.quiet⟩

end Logged

structure Sound (S : SharedStream) : Prop where
  exclusive : S.Exclusive
  numbered : S.Numbered
  logged : S.Logged

theorem Sound.of_init (h : machine.init S) : S.Sound := by
  obtain ⟨howner, hcell, hstored, hhomes, -, hwire, hrecord, hloc, hrunning⟩ := h
  have hfree : ∀ g, (S.loc g).hold = .free := fun g => by rw [hloc g]; rfl
  refine ⟨⟨fun g _ => ⟨hfree g, hrunning g⟩, fun g hg => ?_⟩, ⟨?_, ?_, ?_, ?_, ?_⟩, ⟨?_, ?_⟩⟩
  · simp [howner] at hg
  · simp [hcell]
  · simp [hstored]
  · simp [hloc, Local.start]
  · simp [hrecord]
  · simp [hhomes]
  · simp [hrunning]
  · simp [hwire, hrecord]

theorem Sound.apply (h : S.Sound) (hl : S.enabled l) : (S.apply l).Sound :=
  ⟨h.exclusive.apply hl, h.numbered.apply h.exclusive hl, h.logged.apply h.exclusive hl⟩

theorem sound_of_reachable {ok : SharedStream → Label → Prop} (h : machine.Reachable ok S) :
    S.Sound := by
  refine h.invariant Sound (fun S hS => .of_init hS) fun S l S' hS _ hs => ?_
  obtain ⟨hl, rfl⟩ := step_eq_some_iff.mp hs
  exact hS.apply hl

end SharedStream

end Wagonet
