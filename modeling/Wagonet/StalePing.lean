import Wagonet.ConnectionReuse
import Wagonet.WholeExchanges

/-!
A ping whose task is aborted.

An aborted task is dropped wherever it waits, in the middle of a ping too, and a
ping does not take its connection out of the cell then. It need not, if the ping is
on the connection that its task was started for: where such a task is aborted, the
connection was replaced before or is taken out of the cell afterwards.
-/

namespace Wagonet

open Library ClientRuntime

/-- A ping of which something was written, and that was given up before it had read its
reply to the end. -/
def ClientRuntime.Segment.AbandonedPing (y : Segment) : Prop :=
  (∃ t, y.owner = .ping t) ∧ y.fate = .dropped ∧ sent y.events ≠ []

def ClientRuntime.Fate.isDropped : Fate → Bool
  | .returned _ => false
  | .dropped => true

namespace SharedStream

variable {S S' : SharedStream} {g : Agent} {l : Label} {t : Nat} {c : Conn}

/-- The ping task was started for this connection. -/
def Home (S : SharedStream) (t : Nat) (c : Conn) : Prop := S.homes[t]? = some (some c)

/-- A ping is begun only on the connection that its task was started for, and the caller
does not give up between stopping the task of the stored connection and emptying the
cell. -/
def Homely (S : SharedStream) : Label → Prop
  | .begins (.ping t) x => S.Home t x.conn
  | .drop .client => ∀ t c, S.cell = some c → S.Home t c → t ∉ S.aborted
  | .drop (.ping t) => t ∈ S.aborted
  | _ => True

/-- The ping tasks and their connections. -/
structure Homes (S : SharedStream) : Prop where
  bound : ∀ t ∈ S.aborted, t < S.homes.length
  unique : ∀ t t' c, S.Home t c → S.Home t' c → t = t'
  /-- no task was started yet for a connection that was just stored -/
  stored : (S.loc .client).mode = .stored → ∀ t c, S.stored = some c → ¬S.Home t c
  /-- where the task of the stored connection was aborted, the cell will be emptied -/
  clearing : ∀ t c, t ∈ S.aborted → S.Home t c → S.cell = some c →
    (S.loc .client).mode = .clearing
  running : ∀ t x, S.running (.ping t) = some x → S.Home t x.conn
  abandoned : ∀ c, ∀ y ∈ S.record c, ∀ t, y.owner = .ping t → y.fate = .dropped →
    t ∈ S.aborted ∧ .ping t ∈ S.dropped ∧ S.Home t c

theorem Home.lt (h : S.Home t c) : t < S.homes.length := (List.getElem?_eq_some_iff.mp h).1

namespace Homes

/-- The tasks and the connections stay as they are; the cell may be emptied. -/
theorem of_same (h : S.Homes) (hhomes : S'.homes = S.homes) (haborted : S'.aborted = S.aborted)
    (hstored : S'.stored = S.stored) (hcell : S'.cell = S.cell ∨ S'.cell = none)
    (hmode : (S'.loc .client).mode = (S.loc .client).mode ∨
      ((S'.loc .client).mode ≠ .stored ∧ ∀ t c, t ∈ S.aborted → S.Home t c → S'.cell ≠ some c))
    (hrunning : ∀ t x, S'.running (.ping t) = some x → S.Home t x.conn)
    (habandoned : ∀ c, ∀ y ∈ S'.record c, ∀ t, y.owner = .ping t → y.fate = .dropped →
      t ∈ S.aborted ∧ .ping t ∈ S'.dropped ∧ S.Home t c) : S'.Homes := by
  have hhome : ∀ t c, S'.Home t c ↔ S.Home t c := fun t c => by simp only [Home, hhomes]
  constructor
  · rw [haborted, hhomes]
    exact h.bound
  · simpa only [hhome] using h.unique
  · intro hm t c hc
    rw [hstored] at hc
    rw [hhome]
    rcases hmode with hmode | ⟨hmode, -⟩
    · exact h.stored (hmode ▸ hm) t c hc
    · exact absurd hm hmode
  · intro t c ht hhome' hc
    rw [haborted] at ht
    rw [hhome] at hhome'
    rcases hmode with hmode | ⟨-, hnone⟩
    · rw [hmode]
      rcases hcell with hcell | hcell
      · exact h.clearing t c ht hhome' (hcell ▸ hc)
      · rw [hcell] at hc
        cases hc
    · exact absurd hc (hnone t c ht hhome')
  · simpa only [hhome] using hrunning
  · simpa only [hhome, haborted] using habandoned

/-- Something is noted that does not concern the ping tasks. -/
theorem withLocal (h : S.Homes) {q : Local} (hq : q.mode = (S.loc g).mode) :
    (S.withLocal g q).Homes := by
  refine h.of_same rfl rfl rfl (.inl rfl) (.inl ?_) h.running h.abandoned
  by_cases heq : Agent.client = g
  · subst heq
    simpa using hq
  · simp [heq]

/-- More tasks were started, none of them for a connection with an older task. -/
theorem of_more (h : S.Homes) {v : Option Conn}
    (hhomes : S'.homes = S.homes ++ [v]) (hnew : ∀ t c, v = some c → ¬S.Home t c)
    (haborted : S'.aborted = S.aborted)
    (hstored : (S'.loc .client).mode ≠ .stored)
    (hclearing : ∀ t c, t ∈ S.aborted → S.Home t c → S'.cell ≠ some c)
    (hrunning : S'.running = S.running) (hrecord : S'.record = S.record)
    (hdropped : S'.dropped = S.dropped) : S'.Homes := by
  have hold : ∀ t c, S.Home t c → S'.Home t c := fun t c ht => by
    rw [Home, hhomes, List.getElem?_append_left ht.lt]
    exact ht
  have hcases : ∀ t c, S'.Home t c → S.Home t c ∨ (t = S.homes.length ∧ v = some c) := by
    intro t c ht
    rw [Home, hhomes, List.getElem?_append] at ht
    split at ht
    · exact .inl ht
    · obtain ⟨hlt, heq⟩ := List.getElem?_eq_some_iff.mp ht
      simp only [List.length_singleton, Nat.lt_one_iff] at hlt
      simp only [List.getElem_singleton] at heq
      exact .inr ⟨by omega, heq⟩
  constructor
  · intro t ht
    rw [haborted] at ht
    rw [hhomes, List.length_append]
    exact Nat.lt_add_right _ (h.bound t ht)
  · intro t t' c ht ht'
    rcases hcases t c ht with ht | ⟨rfl, hv⟩ <;> rcases hcases t' c ht' with ht' | ⟨rfl, hv'⟩
    · exact h.unique t t' c ht ht'
    · exact absurd ht (hnew t c hv')
    · exact absurd ht' (hnew t' c hv)
    · rfl
  · exact fun hm => absurd hm hstored
  · intro t c ht hhome hc
    rw [haborted] at ht
    rcases hcases t c hhome with hhome | ⟨rfl, -⟩
    · exact absurd hc (hclearing t c ht hhome)
    · exact absurd (h.bound _ ht) (Nat.lt_irrefl _)
  · intro t x hx
    rw [hrunning] at hx
    exact hold t x.conn (h.running t x hx)
  · intro c y hy t howner hfate
    rw [hrecord] at hy
    rw [haborted, hdropped]
    obtain ⟨habort, hdrop, hhome⟩ := h.abandoned c y hy t howner hfate
    exact ⟨habort, hdrop, hold t c hhome⟩

/-- What is recorded when an exchange ends. -/
theorem endExchange_abandoned (h : S.Homes) {fate : Fate} {dropped : List Agent}
    (hsub : ∀ g ∈ S.dropped, g ∈ dropped)
    (hfate : ∀ t, g = .ping t → fate = .dropped → t ∈ S.aborted ∧ .ping t ∈ dropped) :
    ∀ c, ∀ y ∈ (S.endExchange g fate).record c, ∀ t, y.owner = .ping t → y.fate = .dropped →
      t ∈ S.aborted ∧ .ping t ∈ dropped ∧ S.Home t c := by
  intro c y hy t howner hdropped
  have hbefore : y ∈ S.record c → t ∈ S.aborted ∧ .ping t ∈ dropped ∧ S.Home t c := fun hy =>
    have ⟨habort, hdrop, hhome⟩ := h.abandoned c y hy t howner hdropped
    ⟨habort, hsub _ hdrop, hhome⟩
  cases hx : S.running g with
  | none =>
      rw [endExchange_of_none hx] at hy
      exact hbefore hy
  | some x =>
      by_cases heq : c = x.conn
      · subst heq
        simp only [endExchange_record, hx, Function.update_self, List.mem_append,
          List.mem_singleton] at hy
        rcases hy with hy | rfl
        · exact hbefore hy
        · subst howner
          obtain ⟨habort, hdrop⟩ := hfate t rfl hdropped
          exact ⟨habort, hdrop, h.running t x hx⟩
      · simp only [endExchange_record, hx, Function.update_of_ne heq] at hy
        exact hbefore hy

theorem running_of_endExchange (h : S.Homes) {fate : Fate} {x : Ongoing}
    (hx : (S.endExchange g fate).running (.ping t) = some x) : S.Home t x.conn := by
  by_cases heq : Agent.ping t = g
  · simp [heq] at hx
  · simp only [endExchange_running, Function.update_of_ne heq] at hx
    exact h.running t x hx

theorem apply (h : S.Homes) (hsound : S.Sound) (hok : S.Homely l) (hl : S.enabled l) :
    (S.apply l).Homes := by
  cases l with
  | lock g =>
      exact withLocal (S := { S with owner := some g })
        (h.of_same rfl rfl rfl (.inl rfl) (.inl rfl) h.running h.abandoned) rfl
  | unlock g =>
      exact withLocal (S := { S with owner := none })
        (h.of_same rfl rfl rfl (.inl rfl) (.inl rfl) h.running h.abandoned) rfl
  | load g => exact h.withLocal rfl
  | connect =>
      exact withLocal (S := { S with connections := S.connections + 1 })
        (h.of_same rfl rfl rfl (.inl rfl) (.inl rfl) h.running h.abandoned) rfl
  | clear g =>
      refine h.of_same rfl rfl rfl (.inr rfl) ?_ h.running h.abandoned
      by_cases heq : Agent.client = g
      · subst heq
        by_cases hm : (S.loc .client).mode = .clearing
        · refine .inr ⟨?_, fun _ _ _ _ => by rintro ⟨⟩⟩
          simp [SharedStream.apply, Local.cleared, hm]
        · exact .inl (by simp [SharedStream.apply, Local.cleared, hm])
      · exact .inl (by simp [SharedStream.apply, heq])
  | store c =>
      -- the connection is a new one, and no task was started for it
      have hnew : ∀ t, ¬S.Home t c := fun t ht =>
        hsound.numbered.not_past hl.2.2.1 (hsound.numbered.homes c (List.mem_of_getElem? ht))
      constructor
      · exact h.bound
      · exact h.unique
      · intro _ t c' hc'
        cases hc'
        exact hnew t
      · intro t c' _ hhome hc'
        cases hc'
        exact absurd hhome (hnew t)
      · exact h.running
      · exact h.abandoned
  | spawn =>
      refine h.of_more (v := S.stored) rfl (fun t c hc => h.stored hl t c hc) rfl ?_
        (fun t c ht hhome hc => ?_) rfl rfl rfl
      · simp [SharedStream.apply]
      · have hmode := h.clearing t c ht hhome hc
        rw [show (S.loc .client).mode = .stored from hl] at hmode
        cases hmode
  | abort t =>
      have hmem : ∀ t' ∈ S.aborted,
          t' ∈ if t < S.homes.length then t :: S.aborted else S.aborted := by
        intro t' ht'
        split
        · exact List.mem_cons_of_mem _ ht'
        · exact ht'
      constructor
      · intro t' ht'
        simp only [SharedStream.apply, withLocal_aborted, withLocal_homes] at ht' ⊢
        split at ht'
        · rename_i hlt
          rcases List.mem_cons.mp ht' with rfl | ht'
          · exact hlt
          · exact h.bound t' ht'
        · exact h.bound t' ht'
      · exact h.unique
      · intro hm
        refine h.stored ?_
        simp only [SharedStream.apply, withLocal_loc, Function.update_self, Local.stopped] at hm
        split at hm
        · exact hm
        · cases hm
      · intro t' c _ hhome hc
        simp only [SharedStream.apply, withLocal_loc, Function.update_self, Local.stopped]
        -- a task of the stored connection can only be stopped if the cell is emptied later
        rw [if_neg]
        rintro (hm | hhold)
        · exact h.stored hm t' c (hsound.numbered.cell c hc) hhome
        · have hnone := hsound.exclusive.cell_of_sees hhold
          rw [show S.cell = some c from hc] at hnone
          cases hnone
      · exact h.running
      · intro c y hy t' howner hfate
        obtain ⟨habort, hdrop, hhome⟩ := h.abandoned c y hy t' howner hfate
        exact ⟨hmem t' habort, hdrop, hhome⟩
  | begins g x =>
      refine h.of_same rfl rfl rfl (.inl rfl) (.inl rfl) (fun t x' hx' => ?_) h.abandoned
      by_cases heq : Agent.ping t = g
      · subst heq
        simp only [SharedStream.apply, Function.update_self, Option.some.injEq] at hx'
        exact hx' ▸ hok
      · simp only [SharedStream.apply, Function.update_of_ne heq] at hx'
        exact h.running t x' hx'
  | event g e =>
      cases hx : S.running g with
      | none => exact absurd hx hl
      | some x =>
          rw [apply_event hx]
          refine h.of_same rfl rfl rfl (.inl rfl) (.inl rfl) (fun t x' hx' => ?_) h.abandoned
          by_cases heq : Agent.ping t = g
          · subst heq
            simp only [Function.update_self, Option.some.injEq] at hx'
            exact hx' ▸ h.running t x hx
          · simp only [Function.update_of_ne heq] at hx'
            exact h.running t x' hx'
  | ends g r =>
      cases hx : S.running g with
      | none => exact absurd hx hl
      | some x =>
          have hend : (S.endExchange g (.returned r)).Homes :=
            h.of_same rfl rfl rfl (.inl rfl) (.inl rfl)
              (fun t x' hx' => h.running_of_endExchange hx')
              (h.endExchange_abandoned (fun _ hg => hg) fun _ _ hfate => by cases hfate)
          rw [apply_ends hx]
          refine hend.withLocal ?_
          cases r with
          | ok _ => rfl
          | error _ => rfl
  | settle =>
      refine h.of_same rfl rfl rfl (.inl rfl) (.inr ⟨?_, fun t c ht hhome hc => ?_⟩)
        h.running h.abandoned
      · simp [SharedStream.apply, Local.start]
      · exact hl.2 (h.clearing t c ht hhome hc)
  | drop g =>
      have hdropped : ∀ t, g = .ping t → Fate.dropped = .dropped →
          t ∈ S.aborted ∧ .ping t ∈ g :: S.dropped := by
        rintro t rfl -
        exact ⟨hok, List.mem_cons_self⟩
      refine h.of_same rfl rfl rfl (.inl rfl) ?_ (fun t x' hx' => ?_)
        (h.endExchange_abandoned (fun g' hg' => List.mem_cons_of_mem _ hg') hdropped)
      · cases g with
        | client =>
            refine .inr ⟨by simp [SharedStream.apply, Local.start], fun t c ht hhome hc => ?_⟩
            exact hok t c hc hhome ht
        | ping t => exact .inl (by simp [SharedStream.apply])
      · exact h.running_of_endExchange (show (S.endExchange g .dropped).running _ = _ from hx')

theorem of_init (h : machine.init S) : S.Homes := by
  obtain ⟨-, hcell, hstored, hhomes, haborted, -, hrecord, -, hrunning⟩ := h
  refine ⟨?_, ?_, ?_, ?_, ?_, ?_⟩
  · simp [haborted]
  · simp [Home, hhomes]
  · simp [hstored]
  · simp [haborted]
  · simp [hrunning]
  · simp [hrecord]

/-- After a ping was given up nobody begins anything on its connection. -/
theorem begins_not_abandoned (h : S.Homes) (hsound : S.Sound) {x : Ongoing}
    (hok : S.Homely (.begins g x)) (hl : S.enabled (.begins g x)) :
    ∀ y ∈ S.record x.conn, ¬y.AbandonedPing := by
  rintro y hy ⟨⟨t, howner⟩, hfate, -⟩
  obtain ⟨hhold, hmode, -, -, hlive⟩ := hl
  obtain ⟨habort, hdropped, hhome⟩ := h.abandoned x.conn y hy t howner hfate
  match g with
  | .client => exact hmode (h.clearing t x.conn habort hhome (hsound.exclusive.cell_of_sees hhold))
  | .ping t' =>
      obtain rfl : t = t' := h.unique t t' x.conn hhome hok
      cases hlive hdropped

end Homes

/-- Where pings are begun at home only, a connection is not used after a ping on it was
given up. -/
theorem homes_of_reachable (h : machine.Reachable Homely S) :
    S.Sound ∧ S.Homes ∧ S.Last Segment.AbandonedPing := by
  refine h.invariant (fun S => S.Sound ∧ S.Homes ∧ S.Last Segment.AbandonedPing)
    (fun S hS => ?_) fun S l S' hS hok hs => ?_
  · have hrecord : ∀ c, S.record c = [] := hS.2.2.2.2.2.2.1
    refine ⟨.of_init hS, .of_init hS, fun c y hy => ?_, fun g x _ y hy => ?_⟩
    · simp [hrecord] at hy
    · simp [hrecord] at hy
  · obtain ⟨hl, rfl⟩ := step_eq_some_iff.mp hs
    obtain ⟨hsound, hhomes, hlast⟩ := hS
    refine ⟨hsound.apply hl, hhomes.apply hsound hok hl,
      hlast.apply hsound.exclusive (fun g x hbegins hl => ?_) hl⟩
    subst hbegins
    exact hhomes.begins_not_abandoned hsound hok hl

end SharedStream

namespace ClientRuntime

variable {K : ClientKind} {s : ClientRuntime}

/-- The connection on which the thread begins an exchange in its next step. -/
def Thread.beginsOn {σ α : Type} (th : Thread σ α) : Option Conn :=
  match th.running, th.task with
  | none, .await _ (.wait _ (.exchange c _ _)) _ => some c
  | _, _ => none

/-- A ping task pings only the connection that it was started for, and no future is
dropped after it has stopped the task of the stored connection and before it has taken
that connection out of the cell. -/
def PingsAtHome (s : ClientRuntime) : Act → Prop
  | .ping t _ => (s.pings t).thread.beginsOn = none ∨
      s.world.homes[t]? = some (s.pings t).thread.beginsOn
  | .cancel => s.world.cell = none ∨
      ∀ t ∈ s.world.aborted, s.world.homes[t]? ≠ some s.world.cell
  | _ => True

instance (s : ClientRuntime) (a : Act) : Decidable (PingsAtHome s a) := by
  cases a <;> simp only [PingsAtHome] <;> infer_instance

theorem pingsAtHome_tells {S : SharedStream} {a : Act} {l : SharedStream.Label}
    (h : Refines K s S) (hok : PingsAtHome s a) (hl : a.Tells s l) : S.Homely l := by
  cases a with
  | cancel =>
      cases hl
      intro t c hc hhome ht
      rw [h.shows.cell] at hc
      rw [h.shows.aborted] at ht
      rw [SharedStream.Home, h.shows.homes, ← hc] at hhome
      rcases hok with hnone | hok
      · rw [hc] at hnone
        cases hnone
      · exact hok t ht hhome
  | drop t =>
      obtain ⟨habort, rfl⟩ := hl
      rw [← h.shows.aborted] at habort
      exact habort
  | client choice =>
      obtain ⟨th, -, hl⟩ := hl
      match l with
      | .begins g x =>
          obtain ⟨rfl, -⟩ := hl
          trivial
      | .drop g => cases hl
      | .lock g | .unlock g | .load g | .clear g | .store c | .connect | .spawn | .abort t
      | .event g e | .ends g r | .settle => trivial
  | ping t choice =>
      match l with
      | .begins g x =>
          obtain ⟨rfl, hrunning, -, s', ts, buffer, k, htask⟩ := hl
          have hbegins : (s.pings t).thread.beginsOn = some x.conn := by
            rw [Thread.beginsOn, hrunning, htask]
          rw [SharedStream.Homely, SharedStream.Home, h.shows.homes, ← hbegins]
          refine hok.resolve_left ?_
          rw [hbegins]
          nofun
      | .drop g => cases hl
      | .lock g | .unlock g | .load g | .clear g | .store c | .connect | .spawn | .abort t
      | .event g e | .ends g r | .settle => trivial
  | start op =>
      cases hl
      trivial
  | _ => cases hl

/-- After a ping task was aborted in the middle of a ping, the connection of that ping is
not used any more. -/
theorem aborted_ping_abandons (h : (machine K).Reachable PingsAtHome s) (c : Conn) :
    (∀ y ∈ (s.world.record c).dropLast, ¬y.AbandonedPing) ∧
      ∀ g x, s.ongoing g = some x → x.conn = c → ∀ y ∈ s.world.record c, ¬y.AbandonedPing := by
  obtain ⟨S, hS, hR⟩ := refines_of_reachable SharedStream.Homely
    (fun s S a l hR hok hl => pingsAtHome_tells hR hok hl) h
  obtain ⟨-, -, hlast⟩ := SharedStream.homes_of_reachable hS
  rw [← hR.shows.record, ← hR.running]
  refine ⟨hlast.before c, ?_⟩
  rintro g x hx rfl
  exact hlast.running g x hx

/-- A ping waits for its reply, its task is aborted and dropped, and the cell is emptied. -/
def keepAliveEnds : List Act :=
  connecting ++ pinging ++ pingGoes 4 ++ [.ping 0 (.written 8), .start (.setKeepAlive false)] ++
    clientGoes 7 ++ [.park 0, .drop 0] ++ clientGoes 7 ++ [.finish]

theorem aborted_ping_abandons_keepAliveEnds :
    ∃ s, (machine .tl).run new keepAliveEnds = some s ∧
      ∀ g x, s.ongoing g = some x → x.conn = 0 → ∀ y ∈ s.world.record 0, ¬y.AbandonedPing := by
  obtain ⟨s, hs, hproj⟩ := Option.map_eq_some_iff.mp
    (show ((machine .tl).run new keepAliveEnds).map
      (fun s => (s.world.cell, (s.world.record 0).map fun y => (y.owner, sent y.events))) =
        some (none, [(.ping 0, [0, 0, 0, 0, 0, 0, 0, 0])]) by decide +kernel)
  have hreach : (machine .tl).Reachable PingsAtHome s :=
    Machine.Along.reachable (.init fresh_new) (by decide +kernel) hs
  exact ⟨s, hs, (aborted_ping_abandons hreach 0).2⟩

/-- The ping task is about to lock the stream when a new one is stored; it pings on that,
and is aborted while it waits for the reply. -/
def reconnecting : List Act :=
  connecting ++ [.resume 0] ++ pingGoes 8 ++ [.ping 0 (.duration (.fromSecs 30))] ++ pingGoes 5 ++
    [.start .connect] ++ clientGoes 4 ++ pingGoes 6 ++ [.ping 0 (.written 8)] ++ clientGoes 6 ++
    [.park 0, .drop 0] ++ clientGoes 14 ++ [.finish]

/-- The next call uses the connection with the ping that was given up, no byte of whose
reply was read. -/
theorem aborted_ping_spoils :
    ¬∀ (K : ClientKind) (s : ClientRuntime), (machine K).Reachable Machine.anyStep s →
      ∀ g x, s.ongoing g = some x → ∀ y ∈ s.world.record x.conn,
        ¬(y.AbandonedPing ∧ received y.events = []) := by
  intro h
  obtain ⟨s, hs, hproj⟩ := Option.map_eq_some_iff.mp
    (show ((machine .tl).run new (reconnecting ++ [.start (.handleMessage 7 [])] ++
      clientGoes 7)).map
      (fun s => ((s.ongoing .client).map (·.conn), (s.world.record 1).any fun y =>
        y.owner = .ping 0 ∧ sent y.events = [0, 0, 0, 0, 0, 0, 0, 0] ∧ received y.events = [] ∧
          y.fate.isDropped)) = some (some 1, true) by decide +kernel)
  simp only [Prod.mk.injEq, List.any_eq_true, decide_eq_true_eq] at hproj
  obtain ⟨hconn, y, hy, howner, hsent, hreceived, hfate⟩ := hproj
  have hreach : (machine .tl).Reachable Machine.anyStep s :=
    Machine.Reachable.run (.init fresh_new) (fun _ _ _ => trivial) hs
  obtain ⟨x, hx, hconn⟩ := Option.map_eq_some_iff.mp hconn
  refine h .tl s hreach .client x hx y (hconn ▸ hy)
    ⟨⟨⟨0, howner⟩, ?_, by rw [hsent]; nofun⟩, hreceived⟩
  cases hf : y.fate with
  | returned r =>
      rw [hf] at hfate
      cases hfate
  | dropped => rfl

end ClientRuntime

end Wagonet
