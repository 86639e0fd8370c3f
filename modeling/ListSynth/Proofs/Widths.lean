import ListSynth.Proofs.Outcomes
/-!
Beam widths in exact arithmetic. Power and product saturate one after the other, which comes to the same as cutting
off the exact width once; so widths never fall, and grow as long as there is a greater one.
-/

namespace ListSynth

section Saturation

/-- The greatest word. -/
def greatest : Nat := UInt64.size - 1

theorem toNat_saturate (n : Nat) : (saturate n).toNat = min n greatest := by
  unfold saturate greatest
  split
  · rename_i small
    rw [UInt64.toNat_ofNat_of_lt' small]
    omega
  · rename_i large
    rw [UInt64.toNat_ofNat_of_lt' (by decide)]
    omega

theorem toNat_saturatingPow (a : UInt64) (k : Nat) : (saturatingPow a k).toNat = min (a.toNat ^ k) greatest := by
  unfold saturatingPow
  split
  · rename_i zero
    rw [zero]
    cases k with
    | zero => rfl
    | succ k => simp
  · rename_i one
    rw [one, Nat.one_pow]
    rfl
  · rename_i n zero one
    split
    · exact toNat_saturate _
    · rename_i far
      have base : 2 ≤ a.toNat := (Nat.two_le_iff _).mpr ⟨zero, one⟩
      have past : greatest ≤ a.toNat ^ k :=
        calc greatest ≤ 2 ^ 64 := by decide
          _ ≤ 2 ^ k := Nat.pow_le_pow_right (by decide) (by omega)
          _ ≤ a.toNat ^ k := Nat.pow_le_pow_left base k
      rw [UInt64.toNat_ofNat_of_lt' (by decide), Nat.min_eq_right past]
      rfl

theorem min_mul_min (n b limit : Nat) : min (min n limit * b) limit = min (n * b) limit := by
  rcases Nat.le_total n limit with below | above
  · rw [Nat.min_eq_left below]
  · rw [Nat.min_eq_right above]
    cases b with
    | zero => simp
    | succ b =>
        have cut : limit ≤ limit * (b + 1) := Nat.le_mul_of_pos_right limit (Nat.succ_pos b)
        rw [Nat.min_eq_right cut, Nat.min_eq_right (Nat.le_trans cut (Nat.mul_le_mul_right _ above))]

end Saturation

namespace Settings

variable {c : Settings}

theorem toNat_width (c : Settings) (k : Nat) :
    (c.width k).toNat = min (c.widening.toNat ^ k * c.beamSize.toNat) greatest := by
  rw [width, saturatingMul, toNat_saturate, toNat_saturatingPow, min_mul_min]

section Accepted

variable (settings : c.fault? = none)

include settings

theorem two_le_widening : 2 ≤ c.widening.toNat := by
  have wide : ¬ c.widening < 2 := fun narrow => fault?_eq_none_iff.mp settings (.inr (.inr narrow))
  rw [UInt64.lt_iff_toNat_lt] at wide
  exact Nat.not_lt.mp wide

theorem widening_pos : 0 < c.widening.toNat := Nat.lt_of_lt_of_le Nat.two_pos (two_le_widening settings)

theorem beamSize_pos : 0 < c.beamSize.toNat := by
  have beam : c.beamSize ≠ 0 := fun none => fault?_eq_none_iff.mp settings (.inl none)
  exact Nat.pos_of_ne_zero fun zero => beam (UInt64.toNat_inj.mp zero)

theorem width_le_succ (k : Nat) : (c.width k).toNat ≤ (c.width (k + 1)).toNat := by
  have power : c.widening.toNat ^ k ≤ c.widening.toNat ^ (k + 1) :=
    Nat.pow_le_pow_right (widening_pos settings) (Nat.le_succ k)
  rw [toNat_width, toNat_width]
  exact Nat.le_min_of_le_of_le
    (Nat.le_trans (Nat.min_le_left _ _) (Nat.mul_le_mul_right _ power)) (Nat.min_le_right _ _)

/-- A width that is not the greatest yet is followed by a greater one. -/
theorem width_lt_succ {k : Nat} (below : (c.width k).toNat < greatest) :
    (c.width k).toNat < (c.width (k + 1)).toNat := by
  have power : c.widening.toNat ^ k < c.widening.toNat ^ (k + 1) :=
    Nat.pow_lt_pow_right (two_le_widening settings) (Nat.lt_succ_self k)
  have exact : (c.width k).toNat ≤ c.widening.toNat ^ k * c.beamSize.toNat := by
    rw [toNat_width]
    exact Nat.min_le_left _ _
  have grown : c.widening.toNat ^ k * c.beamSize.toNat < c.widening.toNat ^ (k + 1) * c.beamSize.toNat :=
    Nat.mul_lt_mul_of_pos_right power (beamSize_pos settings)
  rw [toNat_width c (k + 1)]
  exact Nat.lt_min.mpr ⟨Nat.lt_of_le_of_lt exact grown, below⟩

theorem beamSize_le_width (k : Nat) : c.beamSize.toNat ≤ (c.width k).toNat := by
  rw [toNat_width]
  refine Nat.le_min_of_le_of_le ?_ (Nat.le_sub_one_of_lt c.beamSize.toNat_lt)
  exact Nat.le_mul_of_pos_left _ (Nat.pow_pos (widening_pos settings))

theorem width_pos (k : Nat) : 0 < (c.width k).toNat :=
  Nat.lt_of_lt_of_le (beamSize_pos settings) (beamSize_le_width settings k)

end Accepted

end Settings

end ListSynth
