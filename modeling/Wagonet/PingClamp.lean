import Wagonet.TimeoutConfig

/-!
The clamp of the ping interval.

`with_ping_interval` keeps the interval below `read_header`: an interval that is not
is replaced by one second less than `read_header`, or by half of it where that leaves
nothing, or by zero where `read_header` is too short for that as well. Halving goes up
to one second, where subtracting starts again from zero.
-/

namespace Wagonet

namespace TimeoutConfig

variable {c : TimeoutConfig}

/-- The clamp comes below `read_header` wherever there is room. -/
theorem withPingInterval_lt_iff {interval : Duration} :
    (c.withPingInterval interval).pingInterval < c.readHeader ↔ 0 < c.readHeader := by
  rw [withPingInterval]
  split
  · split
    · rename_i hpos
      refine ⟨fun _ => hpos, fun _ => ?_⟩
      dsimp only
      split
      · exact Nat.div_lt_self hpos (by decide)
      · exact Nat.sub_lt hpos (by decide)
    · exact ⟨fun h => h, fun h => h⟩
  · rename_i hlt
    exact ⟨fun h => Nat.lt_of_le_of_lt (Nat.zero_le _) h, fun _ => Nat.lt_of_not_le hlt⟩

/-- The clamp changes the interval only, and only if it is not below `read_header`. -/
theorem withPingInterval_eq (interval : Duration) :
    ∃ p, c.withPingInterval interval = { c with pingInterval := p } ∧
      (interval < c.readHeader → p = interval) := by
  simp only [withPingInterval]
  split
  · rename_i hge
    have hnot : ¬interval < c.readHeader := Nat.not_lt.mpr hge
    split
    · exact ⟨_, rfl, fun h => absurd h hnot⟩
    · exact ⟨_, rfl, fun h => absurd h hnot⟩
  · exact ⟨_, rfl, fun _ => rfl⟩

theorem validate_ok_iff : c.validate = .ok () ↔
    0 < c.connectTotal ∧ 0 < c.pingWrite ∧ c.pingInterval < c.readHeader := by
  simp only [validate]
  split
  · rename_i h
    simp [h]
  · split
    · rename_i h
      simp [h]
    · split
      · rename_i h
        simp [Nat.not_lt.mpr h]
      · rename_i h₁ h₂ h₃
        refine ⟨fun _ => ⟨?_, ?_, Nat.not_le.mp h₃⟩, fun _ => rfl⟩
        · exact Nat.pos_of_ne_zero h₁
        · exact Nat.pos_of_ne_zero h₂

/-- What is accepted is what has positive times, whatever its ping interval is. -/
theorem validate_clamped_iff : (c.withPingInterval c.pingInterval).validate = .ok () ↔
    0 < c.readHeader ∧ 0 < c.connectTotal ∧ 0 < c.pingWrite := by
  have hlt := @withPingInterval_lt_iff c c.pingInterval
  obtain ⟨p, hp, -⟩ := withPingInterval_eq (c := c) c.pingInterval
  rw [hp] at hlt
  rw [validate_ok_iff, hp, hlt]
  exact ⟨fun ⟨ht, hw, hr⟩ => ⟨hr, ht, hw⟩, fun ⟨hr, ht, hw⟩ => ⟨ht, hw, hr⟩⟩

/-- The four regions of the clamp. -/
theorem withPingInterval_pingInterval (c : TimeoutConfig) (interval : Duration) :
    (c.withPingInterval interval).pingInterval =
      if interval < c.readHeader then interval
      else if pingClampSubtraction < c.readHeader then c.readHeader - pingClampSubtraction
      else if pingClampHalveThreshold ≤ c.readHeader then c.readHeader / pingClampHalveDivisor
      else 0 := by
  have hthreshold : 0 < pingClampHalveThreshold := by decide
  rw [withPingInterval]
  rcases Nat.lt_or_ge interval c.readHeader with hlt | hge
  · rw [if_neg (Nat.not_le.mpr hlt), if_pos hlt]
  rw [if_pos hge, if_neg (Nat.not_lt.mpr hge)]
  rcases Nat.eq_zero_or_pos c.readHeader with hzero | hpos
  · rw [hzero, if_neg (Nat.lt_irrefl 0), if_neg (Nat.not_lt_zero _),
      if_neg (Nat.not_le.mpr hthreshold)]
  rw [if_pos hpos]
  dsimp only
  rcases Nat.lt_or_ge pingClampSubtraction c.readHeader with hlong | hshort
  · rw [if_neg fun h => Nat.sub_ne_zero_of_lt hlong h.1, if_pos hlong]
  · rw [if_neg (Nat.not_lt.mpr hshort), Nat.sub_eq_zero_of_le hshort]
    simp only [true_and, ge_iff_le]

/-- The regions compared. -/
theorem regions_le_iff {threshold second interval r₁ r₂ : Nat} (hr : r₁ ≤ r₂) :
    ((if interval < r₁ then interval else if second < r₁ then r₁ - second
        else if threshold ≤ r₁ then r₁ / 2 else 0) ≤
      (if interval < r₂ then interval else if second < r₂ then r₂ - second
        else if threshold ≤ r₂ then r₂ / 2 else 0)) ↔
      ¬(threshold ≤ r₁ ∧ r₁ ≤ second ∧ second < r₂ ∧ r₂ ≤ interval ∧ r₂ - second < r₁ / 2) := by
  rcases Nat.lt_or_ge interval r₂ with hfree | hclamped
  · -- the longer timeout leaves the interval alone, and the clamp only shortens it
    rw [if_pos hfree]
    refine ⟨fun _ h => by omega, fun _ => ?_⟩
    split_ifs <;> omega
  rw [if_neg (Nat.not_lt.mpr hclamped), if_neg (Nat.not_lt.mpr (Nat.le_trans hr hclamped))]
  rcases Nat.lt_or_ge second r₁ with hlong | hshort
  · -- a second is subtracted from both
    rw [if_pos hlong, if_pos (Nat.lt_of_lt_of_le hlong hr)]
    omega
  rw [if_neg (Nat.not_lt.mpr hshort)]
  rcases Nat.lt_or_ge second r₂ with hlong | hshort'
  · -- a second is subtracted from the longer one, and the shorter one is halved
    rw [if_pos hlong]
    split <;> omega
  · rw [if_neg (Nat.not_lt.mpr hshort')]
    split_ifs <;> omega

/-- The clamp grows with `read_header`, except where it falls from half of it to what is
left of it after a second. -/
theorem withPingInterval_mono_iff (c : TimeoutConfig) (interval : Duration)
    {r₁ r₂ : Duration} (hr : r₁ ≤ r₂) :
    ({ c with readHeader := r₁ }.withPingInterval interval).pingInterval ≤
        ({ c with readHeader := r₂ }.withPingInterval interval).pingInterval ↔
      ¬(pingClampHalveThreshold ≤ r₁ ∧ r₁ ≤ pingClampSubtraction ∧ pingClampSubtraction < r₂ ∧
        r₂ ≤ interval ∧ r₂ - pingClampSubtraction < r₁ / pingClampHalveDivisor) := by
  rw [withPingInterval_pingInterval, withPingInterval_pingInterval]
  exact regions_le_iff hr

/-- A second, and a tenth of a second more: the clamp falls from half a second to a tenth. -/
theorem withPingInterval_not_mono :
    ¬∀ (c : TimeoutConfig) (interval r₁ r₂ : Duration), r₁ ≤ r₂ →
      ({ c with readHeader := r₁ }.withPingInterval interval).pingInterval ≤
        ({ c with readHeader := r₂ }.withPingInterval interval).pingInterval := by
  intro h
  exact absurd (h {} (.fromSecs 10) (.fromSecs 1) (.fromMillis 1100) (by decide)) (by decide)

theorem withPingInterval_mono_iff_twoSeconds :
    Duration.fromSecs 1 ≤ Duration.fromSecs 2 ∧
      (({ readHeader := .fromSecs 1 } : TimeoutConfig).withPingInterval
          (.fromSecs 10)).pingInterval ≤
        (({ readHeader := .fromSecs 2 } : TimeoutConfig).withPingInterval
          (.fromSecs 10)).pingInterval :=
  ⟨by decide, (withPingInterval_mono_iff {} (.fromSecs 10)
    (show Duration.fromSecs 1 ≤ Duration.fromSecs 2 by decide)).mpr (by decide)⟩

end TimeoutConfig

end Wagonet
