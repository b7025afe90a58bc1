import Wagonet.AcceptLoop

/-!
The handles of the connection tasks, and the drain loop.

`run` keeps a handle of every task that it has spawned and that has not ended. The
drain loop goes through the handles one by one; those it has not come to when the
time is up are aborted, so no task is left when `run` returns.
-/

namespace Wagonet

open Library

namespace Server

variable {config : Config} {s s' : Server} {a : Act}

/-- The task was asked to end. -/
def abortAsked (s : Server) (i : Nat) : Prop := ∃ c, s.conns[i]? = some c ∧ c.abortRequested = true

/-- The drain loop was not entered. -/
def Phase.beforeDrain : Phase → Bool
  | .draining _ => false
  | .joining _ => false
  | .returned => false
  | _ => true

/-- The statements of the drain loop. -/
def Act.drains : Act → Bool
  | .drain => true
  | .joined => true
  | .drainExpired => true
  | _ => false

theorem isFinished_eq_true {i : Nat} :
    s.isFinished i = true ↔ ∃ c, s.conns[i]? = some c ∧ c.stage.isEnded = true := by
  simp only [isFinished]
  cases h : s.conns[i]? with
  | none => simp
  | some c => simp

/-- What a step does to the handles and to the connection tasks. -/
inductive Does (config : Config) (s : Server) : Act → Server → Prop
  /-- neither the phase nor a task nor a handle is concerned -/
  | nothing {a : Act} {s' : Server} : a.drains = false → s'.phase = s.phase →
      s'.conns = s.conns → s'.handles = s.handles → Does config s a s'
  | loops {a : Act} {s' : Server} : a.drains = false → s.phase.beforeDrain = true →
      s'.phase.beforeDrain = true → s'.conns = s.conns → s'.handles = s.handles →
        Does config s a s'
  | leaves {a : Act} {s' : Server} : a.drains = false → s.phase.beforeDrain = true →
      s'.phase = .draining 0 → s'.conns = s.conns → s'.handles = s.handles → Does config s a s'
  | prune {s' : Server} : s.phase.beforeDrain = true → s'.phase.beforeDrain = true →
      s'.conns = s.conns → s'.handles = s.handles.filter (fun i => !s.isFinished i) →
        Does config s .prune s'
  | spawn {s' : Server} {c : Conn} : s.phase.beforeDrain = true → s'.phase.beforeDrain = true →
      s'.conns = s.conns ++ [c] → s'.handles = s.handles ++ [s.conns.length] →
        Does config s .spawn s'
  | conn {s' : Server} {i : Nat} {c : Conn} {stage : Stage} : s.conns[i]? = some c →
      c.stage.canBecome stage = true → s'.phase = s.phase →
        s'.conns = s.conns.set i { c with stage := stage } → s'.handles = s.handles →
          Does config s (.conn i stage) s'
  | awaits {i : Nat} : s.phase = .draining i → i < s.handles.length →
      Does config s .drain { s with phase := .joining i }
  | joined {i h : Nat} : s.phase = .joining i → s.handles[i]? = some h → s.isFinished h = true →
      Does config s .joined { s with phase := .draining (i + 1) }
  | aborts {a : Act} {i : Nat} : a.drains = true → s.phase = .draining i ∨ s.phase = .joining i →
      i < s.handles.length → Does config s a (s.abortFrom i)
  | returns {i : Nat} : s.phase = .draining i → s.handles.length ≤ i →
      Does config s .drain { s with phase := .returned }

theorem does_of_step (hs : step config s a = some s') : Does config s a s' := by
  cases a with
  | bind ok =>
      simp only [Server.step] at hs
      split at hs
      · rename_i hphase
        have hbefore : s.phase.beforeDrain = true := by rw [hphase]; rfl
        split at hs
        · cases hs
          exact .loops rfl hbefore rfl rfl rfl
        · split at hs <;> cases hs <;> exact .loops rfl hbefore rfl rfl rfl
      · cases hs
  | prune =>
      simp only [Server.step] at hs
      split at hs <;> cases hs
      rename_i hphase
      exact .prune (by rw [hphase]; rfl) rfl rfl rfl
  | acquire =>
      simp only [Server.step] at hs
      split at hs
      · rename_i hphase
        have hbefore : s.phase.beforeDrain = true := by rw [hphase]; rfl
        split at hs
        · cases hs
          exact .leaves rfl hbefore rfl rfl rfl
        · split at hs <;> cases hs
          exact .loops rfl hbefore rfl rfl rfl
      · cases hs
  | acceptOk stream =>
      simp only [Server.step] at hs
      split at hs <;> cases hs
      rename_i hphase
      exact .loops rfl (by rw [hphase]; rfl) rfl rfl rfl
  | acceptErr =>
      simp only [Server.step] at hs
      split at hs <;> cases hs
      rename_i hphase
      exact .loops rfl (by rw [hphase]; rfl) rfl rfl rfl
  | changed =>
      simp only [Server.step] at hs
      split at hs
      · split at hs <;> cases hs
        · rename_i hphase
          exact .loops rfl (by rw [hphase]; rfl) rfl rfl rfl
        · rename_i hphase
          exact .loops rfl (by rw [hphase]; rfl) rfl rfl rfl
      · cases hs
  | borrow =>
      have hleave : s.phase.beforeDrain = true →
          Does config s .borrow
            (s.dropPermit (if s.shutdown.value then .draining 0 else .loopHead)) := by
        intro hbefore
        cases s.shutdown.value with
        | true => exact .leaves rfl hbefore rfl rfl rfl
        | false => exact .loops rfl hbefore rfl rfl rfl
      simp only [Server.step] at hs
      split at hs <;> cases hs
      · rename_i hphase
        exact hleave (by rw [hphase]; rfl)
      · rename_i hphase
        exact hleave (by rw [hphase]; rfl)
  | spawn =>
      simp only [Server.step] at hs
      split at hs <;> cases hs
      rename_i stream hphase
      exact .spawn (by rw [hphase]; rfl) rfl rfl rfl
  | backoffExpired =>
      simp only [Server.step] at hs
      split at hs <;> cases hs
      rename_i hphase
      exact .loops rfl (by rw [hphase]; rfl) rfl rfl rfl
  | notify value =>
      cases hs
      exact .nothing rfl rfl rfl rfl
  | dropSenders =>
      cases hs
      exact .nothing rfl rfl rfl rfl
  | conn i stage =>
      simp only [Server.step] at hs
      split at hs
      · rename_i c hc
        split at hs <;> cases hs
        rename_i hstage
        exact .conn hc hstage.1 rfl rfl rfl
      · cases hs
  | drain =>
      simp only [Server.step] at hs
      split at hs
      · rename_i i hphase
        split at hs
        · rename_i hlt
          split at hs <;> cases hs
          · exact .aborts rfl (.inl hphase) hlt
          · exact .awaits hphase hlt
        · rename_i hge
          cases hs
          exact .returns hphase (Nat.le_of_not_lt hge)
      · cases hs
  | joined =>
      simp only [Server.step] at hs
      split at hs
      · rename_i i hphase
        split at hs
        · rename_i h hh
          split at hs <;> cases hs
          rename_i hfinished
          exact .joined hphase hh hfinished
        · cases hs
      · cases hs
  | drainExpired =>
      simp only [Server.step] at hs
      split at hs
      · rename_i i hphase
        split at hs
        · rename_i h hh
          split at hs <;> cases hs
          exact .aborts rfl (.inr hphase) (List.getElem?_eq_some_iff.mp hh).1
        · cases hs
      · cases hs
  | tick d =>
      simp only [Server.step] at hs
      split at hs <;> cases hs <;> exact .nothing rfl rfl rfl rfl

/-! ### Connection tasks go on -/

/-- No task is forgotten, what has ended stays so, and so does a request to abort. -/
structure Keeps (s s' : Server) : Prop where
  length : s.conns.length ≤ s'.conns.length
  finished : ∀ i, s.isFinished i = true → s'.isFinished i = true
  asked : ∀ i, s.abortAsked i → s'.abortAsked i

theorem Keeps.of_eq (h : s'.conns = s.conns) : Keeps s s' := by
  refine ⟨Nat.le_of_eq (by rw [h]), fun i hi => ?_, fun i hi => ?_⟩
  · simpa only [isFinished, h] using hi
  · simpa only [abortAsked, h] using hi

theorem Keeps.set {i : Nat} {c : Conn} {stage : Stage} (hc : s.conns[i]? = some c)
    (hstage : c.stage.canBecome stage = true)
    (h : s'.conns = s.conns.set i { c with stage := stage }) : Keeps s s' := by
  obtain ⟨hi, -⟩ := List.getElem?_eq_some_iff.mp hc
  refine ⟨by simp [h], fun j hj => ?_, fun j ⟨d, hd, hasked⟩ => ?_⟩
  · obtain ⟨d, hd, hended⟩ := isFinished_eq_true.mp hj
    have hne : i ≠ j := by
      rintro rfl
      cases hc.symm.trans hd
      cases hold : c.stage with
      | ended how => simp [hold, Stage.canBecome] at hstage
      | _ => simp [hold, Stage.isEnded] at hended
    exact isFinished_eq_true.mpr ⟨d, by rw [h, List.getElem?_set_ne hne, hd], hended⟩
  · by_cases heq : i = j
    · subst heq
      cases hc.symm.trans hd
      exact ⟨{ c with stage := stage }, by rw [h, List.getElem?_set_self hi], hasked⟩
    · exact ⟨d, by rw [h, List.getElem?_set_ne heq, hd], hasked⟩

theorem Keeps.append {c : Conn} (h : s'.conns = s.conns ++ [c]) : Keeps s s' := by
  have hlookup : ∀ (i : Nat) (d : Conn), s.conns[i]? = some d → s'.conns[i]? = some d := by
    intro i d hd
    obtain ⟨hi, -⟩ := List.getElem?_eq_some_iff.mp hd
    rw [h, List.getElem?_append_left hi, hd]
  refine ⟨by simp [h], fun i hi => ?_, fun i ⟨d, hd, hasked⟩ => ⟨d, hlookup i d hd, hasked⟩⟩
  obtain ⟨d, hd, hended⟩ := isFinished_eq_true.mp hi
  exact isFinished_eq_true.mpr ⟨d, hlookup i d hd, hended⟩

theorem Keeps.trans {t : Server} (h : Keeps s s') (h' : Keeps s' t) : Keeps s t :=
  ⟨Nat.le_trans h.length h'.length, fun i hi => h'.finished i (h.finished i hi),
    fun i hi => h'.asked i (h.asked i hi)⟩

theorem abortFrom_getElem? (s : Server) (i j : Nat) : (s.abortFrom i).conns[j]? =
    s.conns[j]?.map fun c =>
      if j ∈ s.handles.drop i then { c with abortRequested := true } else c := by
  simp [abortFrom]

theorem Keeps.abortFrom (s : Server) (i : Nat) : Keeps s (s.abortFrom i) := by
  refine ⟨by simp [Server.abortFrom], fun j hj => ?_, fun j ⟨c, hc, hasked⟩ => ?_⟩
  · obtain ⟨c, hc, hended⟩ := isFinished_eq_true.mp hj
    refine isFinished_eq_true.mpr ⟨_, by rw [abortFrom_getElem?, hc, Option.map_some], ?_⟩
    split <;> exact hended
  · refine ⟨_, by rw [abortFrom_getElem?, hc, Option.map_some], ?_⟩
    split
    · rfl
    · exact hasked

/-- The handles from `i` on are aborted. -/
theorem asked_of_abortFrom {i j : Nat} (hlt : j < s.conns.length) (hj : j ∈ s.handles.drop i) :
    (s.abortFrom i).abortAsked j := by
  refine ⟨{ s.conns[j] with abortRequested := true }, ?_, rfl⟩
  rw [abortFrom_getElem?, List.getElem?_eq_getElem hlt, Option.map_some, if_pos hj]

theorem Does.keeps (h : Does config s a s') : Keeps s s' := by
  cases h with
  | nothing _ _ hconns => exact .of_eq hconns
  | loops _ _ _ hconns => exact .of_eq hconns
  | leaves _ _ _ hconns => exact .of_eq hconns
  | prune _ _ hconns => exact .of_eq hconns
  | spawn _ _ hconns => exact .append hconns
  | conn hc hstage _ hconns => exact .set hc hstage hconns
  | awaits => exact .of_eq rfl
  | joined => exact .of_eq rfl
  | aborts => exact .abortFrom s _
  | returns => exact .of_eq rfl

/-! ### No task without a handle -/

/-- Where the drain loop is in the list of handles. -/
def Phase.index : Phase → Nat
  | .draining i => i
  | .joining i => i
  | _ => 0

/-- Every task that goes on has a handle until `run` returns, and then it was aborted;
the drain loop has come past handles of finished tasks only. -/
structure Owned (s : Server) : Prop where
  nodup : s.handles.Nodup
  known : ∀ h ∈ s.handles, h < s.conns.length
  owned : s.phase ≠ .returned → ∀ i c, s.conns[i]? = some c → c.stage.isEnded = false →
    i ∈ s.handles
  passed : ∀ h ∈ s.handles.take s.phase.index, s.isFinished h = true
  inRange : ∀ i, s.phase = .joining i → i < s.handles.length
  returned : s.phase = .returned → ∀ i c, s.conns[i]? = some c →
    s.isFinished i = true ∨ s.abortAsked i

theorem index_of_beforeDrain {p : Phase} (h : p.beforeDrain = true) : p.index = 0 := by
  cases p <;> first | rfl | cases h

theorem not_joining_of_beforeDrain {p : Phase} {i : Nat} (h : p.beforeDrain = true) :
    p ≠ .joining i := by
  rintro rfl
  cases h

theorem ne_returned_of_beforeDrain {p : Phase} (h : p.beforeDrain = true) : p ≠ .returned := by
  rintro rfl
  cases h

namespace Owned

/-- Only the phase changes, and no handle is passed that was not passed before. -/
theorem of_same (h : Owned s) (hconns : s'.conns = s.conns) (hhandles : s'.handles = s.handles)
    (hbefore : s.phase ≠ .returned) (hafter : s'.phase ≠ .returned)
    (hrange : ∀ i, s'.phase = .joining i → i < s.handles.length)
    (hindex : ∀ h ∈ s.handles.take s'.phase.index, s.isFinished h = true) : Owned s' := by
  refine ⟨hhandles ▸ h.nodup, ?_, fun _ => ?_, ?_, by rwa [hhandles],
    fun hret => absurd hret hafter⟩
  · rw [hhandles, hconns]
    exact h.known
  · rw [hhandles, hconns]
    exact h.owned hbefore
  · rw [hhandles]
    exact fun i hi => (Keeps.of_eq hconns).finished i (hindex i hi)

theorem unended {i : Nat} {c : Conn} (hc : s.conns[i]? = some c)
    (hopen : c.stage.isEnded = false) : s.isFinished i = false := by
  rw [← Bool.not_eq_true, isFinished_eq_true]
  rintro ⟨d, hd, hended⟩
  cases hc.symm.trans hd
  exact absurd (hopen.symm.trans hended) nofun

/-- A task that has no handle that can still be aborted has ended. -/
theorem finished_of_passed {i : Nat} (h : Owned s) (hret : s.phase ≠ .returned)
    (hi : ∀ h ∈ s.handles, h = i → s.isFinished i = true ∨ s'.abortAsked i) (hkeeps : Keeps s s')
    {c : Conn} (hc : s.conns[i]? = some c) : s'.isFinished i = true ∨ s'.abortAsked i := by
  cases hended : c.stage.isEnded with
  | true => exact .inl (hkeeps.finished i (isFinished_eq_true.mpr ⟨c, hc, hended⟩))
  | false => exact (hi i (h.owned hret i c hc hended) rfl).imp_left (hkeeps.finished i)

/-- The rest of the handles is aborted. -/
theorem abortFrom {i : Nat} (h : Owned s) (hret : s.phase ≠ .returned)
    (hindex : s.phase.index = i) : Owned (s.abortFrom i) := by
  have hsub : s.handles.take i ⊆ s.handles := (List.take_sublist i s.handles).subset
  have hkeeps := Keeps.abortFrom s i
  refine ⟨h.nodup.sublist (List.take_sublist i s.handles), fun j hj => ?_, nofun,
    fun j hj => by simp [Server.abortFrom, Phase.index] at hj, nofun, fun _ j c hc => ?_⟩
  · exact Nat.lt_of_lt_of_le (h.known j (hsub hj)) hkeeps.length
  · obtain ⟨d, hd, -⟩ := Option.map_eq_some_iff.mp ((abortFrom_getElem? s i j).symm.trans hc)
    refine h.finished_of_passed hret (fun k hk hkj => ?_) hkeeps hd
    subst hkj
    rw [← List.take_append_drop i s.handles, List.mem_append] at hk
    refine hk.imp (fun hk => h.passed k ?_) (asked_of_abortFrom (List.getElem?_eq_some_iff.mp hd).1)
    rwa [hindex]

theorem step (h : Owned s) (hd : Does config s a s') : Owned s' := by
  have hkeeps := hd.keeps
  cases hd with
  | nothing _ hphase hconns hhandles =>
      refine ⟨hhandles ▸ h.nodup, ?_, ?_, ?_, ?_, ?_⟩
      · rw [hhandles, hconns]
        exact h.known
      · rw [hphase, hhandles, hconns]
        exact h.owned
      · rw [hphase, hhandles]
        exact fun i hi => hkeeps.finished i (h.passed i hi)
      · rw [hphase, hhandles]
        exact h.inRange
      · rw [hphase, hconns]
        exact fun hret i c hc =>
          (h.returned hret i c hc).imp (hkeeps.finished i) (hkeeps.asked i)
  | loops _ hbefore hbefore' hconns hhandles =>
      refine h.of_same hconns hhandles (ne_returned_of_beforeDrain hbefore)
        (ne_returned_of_beforeDrain hbefore')
        (fun i hi => absurd hi (not_joining_of_beforeDrain hbefore')) ?_
      rw [index_of_beforeDrain hbefore']
      simp
  | leaves _ hbefore hphase' hconns hhandles =>
      refine h.of_same hconns hhandles (ne_returned_of_beforeDrain hbefore)
        (by rw [hphase']; nofun) (by rw [hphase']; nofun) ?_
      rw [hphase']
      simp [Phase.index]
  | prune hbefore hbefore' hconns hhandles =>
      refine ⟨hhandles ▸ h.nodup.filter _, ?_, fun _ i c hc hopen => ?_, ?_,
        fun i hi => absurd hi (not_joining_of_beforeDrain hbefore'),
        fun hret => absurd hret (ne_returned_of_beforeDrain hbefore')⟩
      · rw [hhandles, hconns]
        exact fun j hj => h.known j (List.mem_of_mem_filter hj)
      · rw [hconns] at hc
        have hmem := h.owned (ne_returned_of_beforeDrain hbefore) i c hc hopen
        rw [hhandles, List.mem_filter]
        exact ⟨hmem, by rw [unended hc hopen]; rfl⟩
      · rw [index_of_beforeDrain hbefore']
        simp
  | spawn hbefore hbefore' hconns hhandles =>
      have hnew : s.conns.length ∉ s.handles := fun hmem => Nat.lt_irrefl _ (h.known _ hmem)
      refine ⟨?_, ?_, fun _ i c hc hopen => ?_, ?_,
        fun i hi => absurd hi (not_joining_of_beforeDrain hbefore'),
        fun hret => absurd hret (ne_returned_of_beforeDrain hbefore')⟩
      · rw [hhandles]
        refine List.nodup_append.mpr ⟨h.nodup, by simp, fun j hj k hk => ?_⟩
        rw [List.mem_singleton.mp hk]
        exact fun heq => hnew (heq ▸ hj)
      · rw [hhandles, hconns]
        intro j hj
        rw [List.length_append, List.length_singleton]
        rcases List.mem_append.mp hj with hj | hj
        · exact Nat.lt_succ_of_lt (h.known j hj)
        · rw [List.mem_singleton.mp hj]
          exact Nat.lt_succ_self _
      · rw [hhandles, List.mem_append, List.mem_singleton]
        rw [hconns] at hc
        by_cases hlt : i < s.conns.length
        · rw [List.getElem?_append_left hlt] at hc
          exact .inl (h.owned (ne_returned_of_beforeDrain hbefore) i c hc hopen)
        · have hi := (List.getElem?_eq_some_iff.mp hc).1
          simp only [List.length_append, List.length_singleton] at hi
          exact .inr (by omega)
      · rw [index_of_beforeDrain hbefore']
        simp
  | conn hc hstage hphase hconns hhandles =>
      rename_i i c stage
      refine ⟨hhandles ▸ h.nodup, ?_, fun hret j d hd hopen => ?_, ?_, ?_, fun hret j d hd => ?_⟩
      · rw [hhandles, hconns]
        simpa using h.known
      · rw [hhandles]
        rw [hphase] at hret
        rw [hconns] at hd
        by_cases heq : i = j
        · subst heq
          refine h.owned hret i c hc ?_
          cases hold : c.stage with
          | ended how => simp [hold, Stage.canBecome] at hstage
          | _ => rfl
        · rw [List.getElem?_set_ne heq] at hd
          exact h.owned hret j d hd hopen
      · rw [hphase, hhandles]
        exact fun j hj => hkeeps.finished j (h.passed j hj)
      · rw [hphase, hhandles]
        exact h.inRange
      · have hj := (List.getElem?_eq_some_iff.mp hd).1
        rw [hconns, List.length_set] at hj
        rw [hphase] at hret
        exact (h.returned hret j _ (List.getElem?_eq_getElem hj)).imp (hkeeps.finished j)
          (hkeeps.asked j)
  | awaits hphase hlt =>
      refine h.of_same rfl rfl (by rw [hphase]; nofun) nofun
        (fun i hi => by cases hi; exact hlt) ?_
      have hpassed := h.passed
      rwa [hphase] at hpassed
  | joined hphase hh hfinished =>
      refine h.of_same rfl rfl (by rw [hphase]; nofun) nofun nofun ?_
      have hpassed := h.passed
      rw [hphase] at hpassed
      intro k hk
      simp only [Phase.index, List.take_add_one, hh, Option.toList_some, List.mem_append,
        List.mem_singleton] at hk
      rcases hk with hk | rfl
      · exact hpassed k hk
      · exact hfinished
  | aborts _ hphase =>
      rcases hphase with hphase | hphase
      · exact h.abortFrom (by rw [hphase]; nofun) (by rw [hphase]; rfl)
      · exact h.abortFrom (by rw [hphase]; nofun) (by rw [hphase]; rfl)
  | returns hphase hle =>
      have hpassed := h.passed
      rw [hphase] at hpassed
      simp only [Phase.index, List.take_of_length_le hle] at hpassed
      refine ⟨h.nodup, h.known, nofun, nofun, nofun, fun _ i c hc => ?_⟩
      refine h.finished_of_passed (by rw [hphase]; nofun) (fun k hk hki => ?_) (.of_eq rfl) hc
      exact .inl (hki ▸ hpassed k hk)

end Owned

/-! ### The drain loop -/

/-- The handles that the drain loop still has to await. -/
def remaining (s : Server) : List Nat :=
  match s.phase with
  | .draining i => s.handles.drop i
  | .joining i => s.handles.drop (i + 1)
  | _ => []

/-- A bound on the statements of the drain loop that are still to come. -/
def drainBound (s : Server) : Nat :=
  match s.phase with
  | .draining i => 2 * (s.handles.length - i) + 1
  | .joining i => 2 * (s.handles.length - i)
  | _ => 0

/-- The handle that the run task begins to await in the step to `s'`. -/
def awaitedBy (a : Act) (s' : Server) : List Nat :=
  match a, s'.phase with
  | .drain, .joining i => s'.handles[i]?.toList
  | _, _ => []

/-- The handles that the run task awaits in the run of these actions, in order. -/
def awaited (config : Config) : Server → List Act → List Nat
  | _, [] => []
  | s, a :: as =>
      match step config s a with
      | none => []
      | some s' => awaitedBy a s' ++ awaited config s' as

theorem awaitedBy_of_not_drains (h : a.drains = false) (s' : Server) : awaitedBy a s' = [] := by
  cases a <;> first | rfl | cases h

/-- A step of the drain loop awaits the next handle, or none at all. -/
structure Drains (a : Act) (s s' : Server) : Prop where
  after : s'.phase.beforeDrain = false
  next : ∃ rest, s.remaining = awaitedBy a s' ++ s'.remaining ++ rest ∧ ∀ h ∈ rest, s'.abortAsked h
  bound : s'.drainBound + (if a.drains then 1 else 0) ≤ s.drainBound

theorem Does.drains (h : Does config s a s') (howned : Owned s)
    (hafter : s.phase.beforeDrain = false) : Drains a s s' := by
  cases h with
  | nothing hdrains hphase hconns hhandles =>
      refine ⟨by rw [hphase, hafter], ⟨[], ?_, nofun⟩, ?_⟩
      · rw [awaitedBy_of_not_drains hdrains, List.append_nil, List.nil_append]
        simp only [remaining, hphase, hhandles]
      · rw [hdrains]
        simp [drainBound, hphase, hhandles]
  | loops _ hbefore => exact absurd (hafter.symm.trans hbefore) nofun
  | leaves _ hbefore => exact absurd (hafter.symm.trans hbefore) nofun
  | prune hbefore => exact absurd (hafter.symm.trans hbefore) nofun
  | spawn hbefore => exact absurd (hafter.symm.trans hbefore) nofun
  | conn hc hstage hphase hconns hhandles =>
      refine ⟨by rw [hphase, hafter], ⟨[], ?_, nofun⟩, ?_⟩
      · rw [awaitedBy_of_not_drains rfl, List.append_nil, List.nil_append]
        simp only [remaining, hphase, hhandles]
      · simp [drainBound, hphase, hhandles, Act.drains]
  | awaits hphase hlt =>
      refine ⟨rfl, ⟨[], ?_, nofun⟩, ?_⟩
      · simp only [remaining, hphase, awaitedBy, List.append_nil]
        rw [List.drop_eq_getElem_cons hlt, List.getElem?_eq_getElem hlt]
        rfl
      · simp only [drainBound, hphase, Act.drains, if_true]
        omega
  | joined hphase hh hfinished =>
      have hlt := (List.getElem?_eq_some_iff.mp hh).1
      refine ⟨rfl, ⟨[], ?_, nofun⟩, ?_⟩
      · simp [remaining, hphase, awaitedBy]
      · simp only [drainBound, hphase, Act.drains, if_true]
        omega
  | aborts hdrains hphase hlt =>
      rename_i i
      have hasked : ∀ h ∈ s.handles.drop i, (s.abortFrom i).abortAsked h := fun h hh =>
        asked_of_abortFrom (howned.known h ((List.drop_sublist i s.handles).subset hh)) hh
      have hnone : awaitedBy a (s.abortFrom i) ++ (s.abortFrom i).remaining = [] := by
        cases a <;> rfl
      rcases hphase with hphase | hphase
      · refine ⟨rfl, ⟨s.handles.drop i, ?_, hasked⟩, ?_⟩
        · rw [hnone]
          simp only [remaining, hphase, List.nil_append]
        · simp only [drainBound, hphase, hdrains, abortFrom, if_true]
          omega
      · refine ⟨rfl, ⟨s.handles.drop (i + 1), ?_, fun h hh => hasked h ?_⟩, ?_⟩
        · rw [hnone]
          simp only [remaining, hphase, List.nil_append]
        · exact (List.drop_sublist_drop_left s.handles (Nat.le_succ i)).subset hh
        · simp only [drainBound, hphase, hdrains, abortFrom, if_true]
          omega
  | returns hphase hle =>
      refine ⟨rfl, ⟨[], ?_, nofun⟩, ?_⟩
      · simp only [remaining, hphase, List.drop_of_length_le hle]
        rfl
      · simp only [drainBound, hphase, Act.drains, if_true]
        omega

theorem owned_of_fresh (h : Fresh s) : Owned s := by
  obtain ⟨hphase, -, -, -, -, hconns, hhandles, -⟩ := h
  refine ⟨by simp [hhandles], by simp [hhandles], by simp [hconns], by simp [hhandles], ?_, ?_⟩
  · rw [hphase]
    nofun
  · rw [hphase]
    nofun

theorem owned_of_reachable (h : (machine config).Reachable Machine.anyStep s) : Owned s :=
  h.invariant Owned (fun _ hs => owned_of_fresh hs) fun _ _ _ hI _ hs => hI.step (does_of_step hs)

/-- Along a run in the drain loop: the handles are awaited one after the other, those
that are not are aborted, and the loop comes to an end. -/
theorem drains_along {as : List Act} (howned : Owned s) (hafter : s.phase.beforeDrain = false)
    (hrun : (machine config).run s as = some s') :
    (∃ rest, s.remaining = awaited config s as ++ rest ∧
        (s'.phase = .returned → ∀ h ∈ rest, s'.abortAsked h)) ∧
      (as.filter Act.drains).length + s'.drainBound ≤ s.drainBound ∧ Keeps s s' := by
  induction as generalizing s with
  | nil =>
      cases hrun
      refine ⟨⟨remaining s', rfl, fun hret => ?_⟩, Nat.le_of_eq (Nat.zero_add _), .of_eq rfl⟩
      rw [remaining, hret]
      nofun
  | cons a as ih =>
      rw [Machine.run_cons, Option.bind_eq_some_iff] at hrun
      obtain ⟨t, ht, hrun⟩ := hrun
      have hdoes : Does config s a t := does_of_step ht
      obtain ⟨hafter', ⟨aborted, hnext, hasked⟩, hbound⟩ := hdoes.drains howned hafter
      obtain ⟨⟨rest, hrest, hreturned⟩, hle, hkeeps⟩ := ih (howned.step hdoes) hafter' hrun
      have hawaited : awaited config s (a :: as) = awaitedBy a t ++ awaited config t as := by
        simp only [awaited, show step config s a = some t from ht]
      refine ⟨⟨rest ++ aborted, ?_, fun hret h hh => ?_⟩, ?_, ?_⟩
      · rw [hawaited, hnext, hrest]
        simp only [List.append_assoc]
      · rcases List.mem_append.mp hh with hh | hh
        · exact hreturned hret h hh
        · exact hkeeps.asked h (hasked h hh)
      · rw [List.filter_cons]
        cases hd : a.drains with
        | true =>
            simp only [hd, if_true, List.length_cons] at hbound ⊢
            omega
        | false =>
            simp only [hd, Bool.false_eq_true, if_false] at hbound ⊢
            omega
      · exact hdoes.keeps.trans hkeeps

/-- When the time is up, the drain loop waits for nothing. -/
theorem drain_enabled (howned : Owned s) (hafter : s.phase.beforeDrain = false)
    (hret : s.phase ≠ .returned) (htime : config.drainTimeout ≤ s.elapsed) :
    ∃ a, a.drains = true ∧ (step config s a).isSome = true := by
  match hphase : s.phase with
  | .draining i =>
      refine ⟨.drain, rfl, ?_⟩
      simp only [Server.step, hphase]
      split <;> rfl
  | .joining i =>
      have hlt := howned.inRange i hphase
      have hh := List.getElem?_eq_getElem hlt
      cases hfinished : s.isFinished s.handles[i] with
      | true => exact ⟨.joined, rfl, by simp [Server.step, hphase, hh, hfinished]⟩
      | false => exact ⟨.drainExpired, rfl, by simp [Server.step, hphase, hh, hfinished, htime]⟩
  | .returned => exact absurd hphase hret
  | .start | .loopHead | .permitWait | .accepting | .acceptWoken | .accepted _ | .backoff
  | .backoffWoken | .failed | .panicked =>
      rw [hphase] at hafter
      cases hafter

/-- No connection task outlives `run`. As long as it has not returned it has a handle of
every task that goes on. The drain loop awaits the handles in their order, each once,
until the time is up; it ends, and aborts those it has not awaited. -/
theorem none_outlives_run (h : (machine config).Reachable Machine.anyStep s) :
    (s.phase = .returned → ∀ c ∈ s.conns, c.stage.isEnded = true ∨ c.abortRequested = true) ∧
      (s.phase ≠ .returned → ∀ i c, s.conns[i]? = some c → c.stage.isEnded = false →
        i ∈ s.handles) ∧
      (s.phase.beforeDrain = false → s.phase ≠ .returned → config.drainTimeout ≤ s.elapsed →
        ∃ a, a.drains = true ∧ (step config s a).isSome = true) ∧
      (s.phase = .draining 0 → ∀ as s', (machine config).run s as = some s' →
        (as.filter Act.drains).length ≤ 2 * s.handles.length + 1 ∧ s.handles.Nodup ∧
          ∃ rest, s.handles = awaited config s as ++ rest ∧
            (s'.phase = .returned → ∀ h ∈ rest, s'.abortAsked h)) := by
  have howned := owned_of_reachable h
  refine ⟨fun hret c hc => ?_, howned.owned, fun hafter => drain_enabled howned hafter,
    fun hphase as s' hrun => ?_⟩
  · obtain ⟨i, hi⟩ := List.mem_iff_getElem?.mp hc
    rcases howned.returned hret i c hi with hdone | hdone
    · obtain ⟨d, hd, hended⟩ := isFinished_eq_true.mp hdone
      cases hi.symm.trans hd
      exact .inl hended
    · obtain ⟨d, hd, hasked⟩ := hdone
      cases hi.symm.trans hd
      exact .inr hasked
  · obtain ⟨hawaited, hle, -⟩ := drains_along howned (by rw [hphase]; rfl) hrun
    have hremaining : s.remaining = s.handles := by simp [remaining, hphase]
    have hbound : s.drainBound = 2 * s.handles.length + 1 := by simp [drainBound, hphase]
    rw [hremaining] at hawaited
    exact ⟨by omega, howned.nodup, hawaited⟩

/-- Two connections at the time of the shutdown; one ends, the other is aborted. -/
def drainTwo : List Act :=
  [.bind true, .prune, .acquire, .acceptOk 7, .spawn, .prune, .acquire, .acceptOk 8, .spawn,
    .prune, .acquire, .notify true, .changed, .borrow]

theorem none_outlives_run_drainTwo :
    ∃ s s', (machine defaults).run start drainTwo = some s ∧ s.phase = .draining 0 ∧
      (machine defaults).run s [.drain, .conn 0 (.ended .returned), .joined, .drain,
        .tick (.fromSecs 5), .drainExpired] = some s' ∧ s'.phase = .returned ∧
      (∀ c ∈ s'.conns, c.stage.isEnded = true ∨ c.abortRequested = true) ∧
      s.handles.Nodup ∧ ∃ rest, s.handles = awaited defaults s [.drain,
        .conn 0 (.ended .returned), .joined, .drain, .tick (.fromSecs 5), .drainExpired] ++ rest := by
  obtain ⟨s, hs, hphase⟩ := Option.map_eq_some_iff.mp
    (show ((machine defaults).run start drainTwo).map (·.phase) = some (.draining 0) by
      decide +kernel)
  have hreach : (machine defaults).Reachable Machine.anyStep s :=
    Machine.Reachable.run (.init fresh_start) (fun _ _ _ => trivial) hs
  obtain ⟨s', hs', hphase'⟩ := Option.map_eq_some_iff.mp
    (show ((machine defaults).run start (drainTwo ++ [.drain, .conn 0 (.ended .returned), .joined,
      .drain, .tick (.fromSecs 5), .drainExpired])).map (·.phase) = some .returned by
      decide +kernel)
  rw [Machine.run_append, hs, Option.bind_some] at hs'
  have hreach' : (machine defaults).Reachable Machine.anyStep s' :=
    Machine.Reachable.run hreach (fun _ _ _ => trivial) hs'
  obtain ⟨-, hnodup, rest, hawaited, -⟩ := (none_outlives_run hreach).2.2.2 hphase _ s' hs'
  exact ⟨s, s', hs, hphase, hs', hphase', (none_outlives_run hreach').1 hphase', hnodup, rest,
    hawaited⟩

end Server

end Wagonet
