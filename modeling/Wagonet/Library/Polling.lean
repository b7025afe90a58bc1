import Mathlib

/-!
Polling a clock.

A loop looks at the clock once in each period, and acts at the first look at which
an interval has passed since some event. The event lies anywhere between two
looks, so the action may come a whole period late, less one tick of the clock.
-/

namespace Wagonet.Library.Polling

variable {period interval event now t : Nat}

/-- The moment of the first look at which the interval is over, if it is among the
next ones; the last look was at `now`. -/
def firstLook (period interval event : Nat) : Nat → Nat → Option Nat
  | 0, _ => none
  | n + 1, now =>
      if now + period - event < interval then firstLook period interval event n (now + period)
      else some (now + period)

/-- The action comes at one of the looks, and not before the interval is over. -/
theorem firstLook_spec {n : Nat} (hpos : 0 < interval)
    (h : firstLook period interval event n now = some t) :
    event + interval ≤ t ∧ ∃ k, t = now + period * k := by
  induction n generalizing now with
  | zero => cases h
  | succ n ih =>
      rw [firstLook] at h
      split at h
      · obtain ⟨hle, k, hk⟩ := ih h
        exact ⟨hle, k + 1, by rw [hk, Nat.mul_succ]; omega⟩
      · cases h
        exact ⟨by omega, 1, by rw [Nat.mul_one]⟩

/-- It comes less than a period after the interval is over. -/
theorem exists_firstLook (hperiod : 0 < period) (hnow : now < event + interval) :
    ∃ n t, firstLook period interval event n now = some t ∧ t < event + interval + period := by
  induction hleft : event + interval - now using Nat.strong_induction_on generalizing now with
  | _ left ih =>
      by_cases hearly : now + period - event < interval
      · obtain ⟨n, t, hn, ht⟩ := ih (event + interval - (now + period)) (by omega) (by omega) rfl
        exact ⟨n + 1, t, by rw [firstLook, if_pos hearly, hn], ht⟩
      · refine ⟨1, now + period, ?_, by omega⟩
        rw [firstLook, if_neg hearly]

/-- Wherever the event lies between two looks, the action comes within the limit: exactly
if there is room for the interval and a period. -/
theorem firstLook_within_iff {limit : Nat} (hperiod : 0 < period) (hpos : 0 < interval) :
    (∀ now event, now ≤ event → event ≤ now + period →
      ∃ n t, firstLook period interval event n now = some t ∧ t < event + limit) ↔
        interval + period ≤ limit := by
  constructor
  · intro h
    -- the last look before the interval is over comes one tick too early
    let d := (interval - 1) % period
    let k := (interval - 1) / period
    have hd : d < period := Nat.mod_lt _ hperiod
    have hsplit : period * k + d = interval - 1 := Nat.div_add_mod _ _
    obtain ⟨n, t, hn, ht⟩ := h 0 (period - d) (Nat.zero_le _) (by omega)
    obtain ⟨hle, j, hj⟩ := firstLook_spec hpos hn
    have hlast : period * (k + 1) < period * j := by
      rw [Nat.mul_succ]
      omega
    have hnext : period * (k + 2) ≤ period * j :=
      Nat.mul_le_mul_left _ (Nat.lt_of_mul_lt_mul_left hlast)
    rw [Nat.mul_succ, Nat.mul_succ] at hnext
    omega
  · intro h now event hle _
    obtain ⟨n, t, hn, ht⟩ := exists_firstLook hperiod
      (show now < event + interval by omega)
    exact ⟨n, t, hn, by omega⟩

end Wagonet.Library.Polling
