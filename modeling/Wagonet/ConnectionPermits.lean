import Wagonet.AcceptLoop

/-!
The permits of the accept loop.

A permit is in the semaphore, with the iteration of the loop that has acquired
it, or with a connection task that has not ended. None is lost on any way an
iteration can end, so there are never more of these tasks than permits.
-/

namespace Wagonet

open Library

namespace Server

variable {config : Config} {s s' : Server}

/-- The number of spawned connection tasks that have not ended; each holds a permit. -/
def unfinished (s : Server) : Nat := (s.conns.map (·.stage)).countP fun stage => !stage.isEnded

/-- The permits that the current iteration of the accept loop holds. -/
def Phase.heldPermits : Phase → Nat
  | .accepting => 1
  | .acceptWoken => 1
  | .accepted _ => 1
  | .backoff => 1
  | .backoffWoken => 1
  | _ => 0

/-- `run` has come to create its semaphore. -/
def Phase.hasSemaphore : Phase → Bool
  | .start => false
  | .failed => false
  | .panicked => false
  | _ => true

/-- Every permit is somewhere. -/
structure Balanced (config : Config) (s : Server) : Prop where
  none_before : s.phase.hasSemaphore = false → s.conns = []
  total : s.phase.hasSemaphore = true →
    s.permits + s.unfinished + s.phase.heldPermits = config.maxConnections

theorem unfinished_of_nil (h : s.conns = []) : s.unfinished = 0 := by
  rw [unfinished, h]
  rfl

/-- The loop goes on, no task ends, and none is spawned. -/
theorem Balanced.of_same (h : Balanced config s) (hphase : s.phase.hasSemaphore = true)
    (hphase' : s'.phase.hasSemaphore = true)
    (hconns : s'.conns.map (·.stage) = s.conns.map (·.stage))
    (hpermits : s'.permits + s'.phase.heldPermits = s.permits + s.phase.heldPermits) :
    Balanced config s' := by
  refine ⟨fun hno => absurd (hphase'.symm.trans hno) nofun, fun _ => ?_⟩
  have htotal := h.total hphase
  have hsame : s'.unfinished = s.unfinished := by rw [unfinished, hconns, unfinished]
  omega

/-- An abort is only a request. -/
theorem abortFrom_stages (s : Server) (i : Nat) :
    (s.abortFrom i).conns.map (·.stage) = s.conns.map (·.stage) := by
  refine List.ext_getElem (by simp [abortFrom]) fun j _ _ => ?_
  simp only [abortFrom, List.getElem_map, List.getElem_mapIdx]
  split <;> rfl

/-- A task that ends gives its permit back. -/
theorem unfinished_set {i : Nat} {c : Conn} {stage : Stage} (hc : s.conns[i]? = some c)
    (hstage : c.stage.canBecome stage = true) :
    ((s.conns.set i { c with stage := stage }).map (·.stage)).countP (fun stage => !stage.isEnded) +
      (if stage.isEnded then 1 else 0) = s.unfinished := by
  obtain ⟨hi, rfl⟩ := List.getElem?_eq_some_iff.mp hc
  have hopen : (s.conns[i]).stage.isEnded = false := by
    cases hold : (s.conns[i]).stage with
    | ended how => simp [hold, Stage.canBecome] at hstage
    | _ => rfl
  have hcount : 0 < (s.conns.map (·.stage)).countP (fun stage => !stage.isEnded) :=
    List.countP_pos_iff.mpr ⟨_, List.mem_map_of_mem (List.getElem_mem hi), by simp [hopen]⟩
  rw [List.map_set, List.countP_set (by simpa using hi), unfinished]
  simp only [List.getElem_map, hopen, Bool.not_false, if_true]
  cases stage.isEnded
  · simp only [Bool.not_false, if_true, Bool.false_eq_true, if_false]
    omega
  · simp only [Bool.not_true, Bool.false_eq_true, if_false, if_true]
    omega

theorem Balanced.step {a : Act} (h : Balanced config s) (hs : step config s a = some s') :
    Balanced config s' := by
  cases a with
  | bind ok =>
      simp only [Server.step] at hs
      split at hs
      · rename_i hphase
        have hconns : s.conns = [] := h.none_before (by rw [hphase]; rfl)
        split at hs
        · cases hs
          exact ⟨fun _ => hconns, by rintro ⟨⟩⟩
        · split at hs <;> cases hs
          · exact ⟨fun _ => hconns, by rintro ⟨⟩⟩
          · refine ⟨by rintro ⟨⟩, fun _ => ?_⟩
            have hnone := unfinished_of_nil (s := { s with
              phase := .loopHead, permits := config.maxConnections }) hconns
            rw [hnone]
            rfl
      · cases hs
  | prune =>
      simp only [Server.step] at hs
      split at hs <;> cases hs
      rename_i hphase
      exact h.of_same (by rw [hphase]; rfl) rfl rfl (by rw [hphase]; rfl)
  | acquire =>
      simp only [Server.step] at hs
      split at hs
      · rename_i hphase
        split at hs
        · cases hs
          exact h.of_same (by rw [hphase]; rfl) rfl rfl (by rw [hphase]; rfl)
        · split at hs <;> cases hs
          refine h.of_same (by rw [hphase]; rfl) rfl rfl ?_
          rw [hphase]
          simp only [Phase.heldPermits]
          omega
      · cases hs
  | acceptOk stream =>
      simp only [Server.step] at hs
      split at hs <;> cases hs
      rename_i hphase
      exact h.of_same (by rw [hphase]; rfl) rfl rfl (by rw [hphase]; rfl)
  | acceptErr =>
      simp only [Server.step] at hs
      split at hs <;> cases hs
      rename_i hphase
      exact h.of_same (by rw [hphase]; rfl) rfl rfl (by rw [hphase]; rfl)
  | changed =>
      simp only [Server.step] at hs
      split at hs
      · split at hs <;> cases hs
        · rename_i hphase
          exact h.of_same (by rw [hphase]; rfl) rfl rfl (by rw [hphase]; rfl)
        · rename_i hphase
          exact h.of_same (by rw [hphase]; rfl) rfl rfl (by rw [hphase]; rfl)
      · cases hs
  | borrow =>
      simp only [Server.step] at hs
      split at hs
      · rename_i hphase
        cases hs
        cases s.shutdown.value <;>
          exact h.of_same (by rw [hphase]; rfl) rfl rfl (by rw [hphase]; rfl)
      · rename_i hphase
        cases hs
        cases s.shutdown.value <;>
          exact h.of_same (by rw [hphase]; rfl) rfl rfl (by rw [hphase]; rfl)
      · cases hs
  | spawn =>
      simp only [Server.step] at hs
      split at hs <;> cases hs
      rename_i stream hphase
      have htotal := h.total (by rw [hphase]; rfl)
      rw [hphase] at htotal
      -- the permit goes from the loop to the task
      refine ⟨by rintro ⟨⟩, fun _ => ?_⟩
      have hopen : (if config.isTls = true then Stage.handshake else .serving).isEnded = false := by
        split <;> rfl
      simp only [unfinished, List.map_append, List.map_cons, List.map_nil, List.countP_append,
        List.countP_singleton, hopen, Bool.not_false, if_true]
      exact htotal
  | backoffExpired =>
      simp only [Server.step] at hs
      split at hs <;> cases hs
      rename_i hphase
      exact h.of_same (by rw [hphase]; rfl) rfl rfl (by rw [hphase]; rfl)
  | notify value => cases hs; exact ⟨h.none_before, h.total⟩
  | dropSenders => cases hs; exact ⟨h.none_before, h.total⟩
  | conn i stage =>
      simp only [Server.step] at hs
      split at hs
      · rename_i c hc
        split at hs <;> cases hs
        rename_i hstage
        have hset := unfinished_set hc hstage.1
        refine ⟨fun hno => ?_, fun hphase => ?_⟩
        · simp [h.none_before hno] at hc
        · have htotal := h.total hphase
          simp only [unfinished] at hset htotal ⊢
          rw [← hset] at htotal
          split at htotal
          · rename_i hended
            rw [if_pos hended]
            omega
          · rename_i hended
            rw [if_neg hended]
            omega
      · cases hs
  | drain =>
      simp only [Server.step] at hs
      split at hs
      · rename_i i hphase
        split at hs
        · split at hs <;> cases hs
          · exact h.of_same (by rw [hphase]; rfl) rfl (abortFrom_stages s i)
              (by rw [hphase]; rfl)
          · exact h.of_same (by rw [hphase]; rfl) rfl rfl (by rw [hphase]; rfl)
        · cases hs
          exact h.of_same (by rw [hphase]; rfl) rfl rfl (by rw [hphase]; rfl)
      · cases hs
  | joined =>
      simp only [Server.step] at hs
      split at hs
      · rename_i i hphase
        split at hs
        · split at hs <;> cases hs
          exact h.of_same (by rw [hphase]; rfl) rfl rfl (by rw [hphase]; rfl)
        · cases hs
      · cases hs
  | drainExpired =>
      simp only [Server.step] at hs
      split at hs
      · rename_i i hphase
        split at hs
        · split at hs <;> cases hs
          exact h.of_same (by rw [hphase]; rfl) rfl (abortFrom_stages s i) (by rw [hphase]; rfl)
        · cases hs
      · cases hs
  | tick d =>
      simp only [Server.step] at hs
      split at hs <;> cases hs <;> exact ⟨h.none_before, h.total⟩

theorem balanced_of_fresh (h : Fresh s) : Balanced config s := by
  obtain ⟨hphase, -, -, -, -, hconns, -, -⟩ := h
  refine ⟨fun _ => hconns, fun hno => ?_⟩
  rw [hphase] at hno
  cases hno

/-- In every reachable state at most as many connection tasks go on as the limit says,
and each permit is in the semaphore, with one of these tasks, or with the loop. -/
theorem permits_conserved (h : (machine config).Reachable Machine.anyStep s) :
    s.unfinished ≤ config.maxConnections ∧
      (s.phase.hasSemaphore = true →
        s.permits + s.unfinished + s.phase.heldPermits = config.maxConnections) := by
  have hbalanced := h.invariant (Balanced config) (fun s hs => balanced_of_fresh hs)
    fun s a s' hI _ hs => hI.step hs
  refine ⟨?_, hbalanced.total⟩
  cases hphase : s.phase.hasSemaphore with
  | true =>
      have htotal := hbalanced.total hphase
      omega
  | false =>
      rw [unfinished_of_nil (hbalanced.none_before hphase)]
      exact Nat.zero_le _

/-- A connection task that holds the only permit, and the loop that waits for it. -/
theorem permits_conserved_stalledHandshake :
    ∃ s, (machine oneTls).run start stalledHandshake = some s ∧
      (s.phase, s.permits, s.unfinished) = (.permitWait, 0, 1) ∧ s.unfinished ≤ 1 ∧
        (s.phase.hasSemaphore = true →
          s.permits + s.unfinished + s.phase.heldPermits = 1) := by
  obtain ⟨s, hs, hproj⟩ := Option.map_eq_some_iff.mp
    (show ((machine oneTls).run start stalledHandshake).map
      (fun s => (s.phase, s.permits, s.unfinished)) = some (.permitWait, 0, 1) by decide +kernel)
  have hreach : (machine oneTls).Reachable Machine.anyStep s :=
    Machine.Reachable.run (.init fresh_start) (fun _ _ _ => trivial) hs
  exact ⟨s, hs, hproj, permits_conserved hreach⟩

end Server

end Wagonet
