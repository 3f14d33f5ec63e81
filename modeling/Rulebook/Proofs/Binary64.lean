import Rulebook.Binary64.Basic

/-!
# `Rulebook.Proofs.Binary64` — the order of floats, and rounding keeps it

Every float that is a number has a place on a line of integers, its `rank`: the units of a finite one with their
sign, and beyond all of them the two infinities. Floats are compared by rank. Rounding never reverses an order, so
the floats nearest to two integers stand as the integers do, or they are equal.

* `roundDiv_mono`, `roundUnits_mono` — rounding is monotone;
* `roundDiv_nearest`, `roundUnits_nearest` — what rounding gives is as close as can be;
* `compare?_eq_rank` — the order of floats is that of their ranks;
* `rank_ofInt_mono`, `compare?_ofInt` — **integers as floats**;
* `exists_ofInt_eq_finite`, `ofInt_nearest` — an integer of 64 bits has a finite float, and none is closer to it.
-/

namespace Rulebook.Binary64

/-! ## Rounding -/

theorem le_roundDiv (num den : Nat) : num / den ≤ roundDiv num den := by
  unfold roundDiv
  dsimp only
  split
  · exact Nat.le_refl _
  · split
    · exact Nat.le_succ _
    · split
      · exact Nat.le_refl _
      · exact Nat.le_succ _

/-- A larger quotient has no smaller whole number nearest to it. -/
theorem roundDiv_mono {m n den : Nat} (positive : 0 < den) (h : m ≤ n) : roundDiv m den ≤ roundDiv n den := by
  rcases Nat.lt_or_ge (m / den) (n / den) with less | ge
  · calc roundDiv m den ≤ m / den + 1 := roundDiv_le m den
      _ ≤ n / den := less
      _ ≤ roundDiv n den := le_roundDiv n den
  · -- With one whole part, the remainders decide.
    have same : m / den = n / den := Nat.le_antisymm (Nat.div_le_div_right h) ge
    have left := Nat.div_add_mod m den
    have right := Nat.div_add_mod n den
    have rest : m % den ≤ n % den := by
      rw [same] at left
      omega
    have bound := Nat.mod_lt n positive
    unfold roundDiv
    dsimp only
    rw [same]
    grind

/-- Rounding a quotient of at most 53 bits stays at or below the next power of two. -/
theorem roundUnits_le (num den : Nat) : roundUnits num den ≤ Nat.pow 2 ((num / den).log2 - 52 + 53) := by
  unfold roundUnits
  simp only [Nat.pow_eq]
  generalize shift : (num / den).log2 - 52 = e
  have whole : num / (den * 2 ^ e) < 2 ^ 53 := by
    rw [← Nat.div_div_eq_div_mul, Nat.div_lt_iff_lt_mul (Nat.two_pow_pos e), ← Nat.pow_add]
    exact Nat.lt_of_lt_of_le Nat.lt_log2_self (Nat.pow_le_pow_right (by decide) (by omega))
  have nearest := Nat.le_trans (roundDiv_le num (den * 2 ^ e)) whole
  calc roundDiv num (den * 2 ^ e) * 2 ^ e ≤ 2 ^ 53 * 2 ^ e := Nat.mul_le_mul_right _ nearest
    _ = 2 ^ (e + 53) := by rw [← Nat.pow_add, Nat.add_comm]

/-- Rounding a quotient of at least 53 bits stays at or above its highest power of two. -/
theorem le_roundUnits {num den : Nat} (large : 52 ≤ (num / den).log2) :
    Nat.pow 2 (num / den).log2 ≤ roundUnits num den := by
  have some : num / den ≠ 0 := fun none => by simp [none] at large
  have bound := Nat.log2_self_le some
  unfold roundUnits
  simp only [Nat.pow_eq]
  obtain ⟨e, shift⟩ := Nat.exists_eq_add_of_le large
  rw [shift] at bound
  rw [shift, Nat.add_sub_cancel_left]
  have whole : 2 ^ 52 ≤ num / (den * 2 ^ e) := by
    rw [← Nat.div_div_eq_div_mul, Nat.le_div_iff_mul_le (Nat.two_pow_pos e), ← Nat.pow_add]
    exact bound
  calc 2 ^ (52 + e) = 2 ^ 52 * 2 ^ e := Nat.pow_add ..
    _ ≤ roundDiv num (den * 2 ^ e) * 2 ^ e :=
        Nat.mul_le_mul_right _ (Nat.le_trans whole (le_roundDiv _ _))

theorem log2_mono {m n : Nat} (h : m ≤ n) : m.log2 ≤ n.log2 := by
  by_cases zero : m = 0
  · subst zero
    exact Nat.zero_le _
  · exact (Nat.le_log2 (by omega)).mpr (Nat.le_trans (Nat.log2_self_le zero) h)

/-- **Rounding is monotone**: a larger quotient does not have fewer units nearest to it. -/
theorem roundUnits_mono {m n den : Nat} (positive : 0 < den) (h : m ≤ n) :
    roundUnits m den ≤ roundUnits n den := by
  have quotients : m / den ≤ n / den := Nat.div_le_div_right h
  rcases Nat.lt_or_ge ((m / den).log2 - 52) ((n / den).log2 - 52) with less | ge
  · -- The larger one starts where the smaller one ends at the latest.
    calc roundUnits m den ≤ Nat.pow 2 ((m / den).log2 - 52 + 53) := roundUnits_le m den
      _ ≤ Nat.pow 2 (n / den).log2 := Nat.pow_le_pow_right (by decide) (by omega)
      _ ≤ roundUnits n den := le_roundUnits (by omega)
  · have lengths : (m / den).log2 ≤ (n / den).log2 := log2_mono quotients
    have same : (m / den).log2 - 52 = (n / den).log2 - 52 := by omega
    unfold roundUnits
    simp only [Nat.pow_eq, same]
    refine Nat.mul_le_mul_right _ (roundDiv_mono ?_ h)
    exact Nat.mul_pos positive (Nat.two_pow_pos _)

/-- **The whole number nearest to a quotient**: no other one is closer. -/
theorem roundDiv_nearest (num : Nat) {den : Nat} (positive : 0 < den) (k : Nat) :
    ((roundDiv num den * den : Nat) - (num : Int)).natAbs ≤ ((k * den : Nat) - (num : Int)).natAbs := by
  have whole := Nat.div_add_mod' num den
  have bound := Nat.mod_lt num positive
  have above : (num / den + 1) * den = num / den * den + den := Nat.succ_mul _ _
  -- The other number lies at or below the quotient, or above it.
  have other : k * den ≤ num / den * den ∨ (num / den + 1) * den ≤ k * den :=
    (Nat.lt_or_ge (num / den) k).elim (fun h => .inr (Nat.mul_le_mul_right den h))
      fun h => .inl (Nat.mul_le_mul_right den h)
  unfold roundDiv
  dsimp only
  split
  · omega
  · split
    · omega
    · split <;> omega

/-- **The nearest number of units**: no count with at most 53 significant bits is closer to a quotient. -/
theorem roundUnits_nearest (num : Nat) {den n : Nat} (positive : 0 < den) (bits : Nat.pow 2 (n.log2 - 52) ∣ n) :
    ((roundUnits num den * den : Nat) - (num : Int)).natAbs ≤ ((n * den : Nat) - (num : Int)).natAbs := by
  -- Counts of the same length or longer are on the grid that is rounded to; shorter ones are below its first point.
  have grid : ∀ k, ((roundUnits num den * den : Nat) - (num : Int)).natAbs ≤
      ((k * Nat.pow 2 ((num / den).log2 - 52) * den : Nat) - (num : Int)).natAbs := by
    intro k
    have step : 0 < den * Nat.pow 2 ((num / den).log2 - 52) := Nat.mul_pos positive (Nat.two_pow_pos _)
    have nearest := roundDiv_nearest num step k
    unfold roundUnits
    dsimp only
    rw [Nat.mul_assoc, Nat.mul_comm _ den, Nat.mul_assoc, Nat.mul_comm _ den]
    exact nearest
  rcases Nat.lt_or_ge (n.log2 - 52) ((num / den).log2 - 52) with shorter | longer
  · have first := grid (Nat.pow 2 52)
    have start : Nat.pow 2 52 * Nat.pow 2 ((num / den).log2 - 52) = Nat.pow 2 (num / den).log2 := by
      simp only [Nat.pow_eq]
      rw [← Nat.pow_add]
      congr 1
      omega
    have below : n * den ≤ Nat.pow 2 (num / den).log2 * den :=
      Nat.mul_le_mul_right den (Nat.le_of_lt (Nat.lt_of_lt_of_le Nat.lt_log2_self
        (Nat.pow_le_pow_right Nat.two_pos (by omega))))
    have within : Nat.pow 2 (num / den).log2 * den ≤ num :=
      Nat.le_trans (Nat.mul_le_mul_right den (Nat.log2_self_le (by rintro none; simp [none] at shorter)))
        (Nat.div_mul_le_self num den)
    rw [start] at first
    omega
  · obtain ⟨k, same⟩ := Nat.dvd_trans (Nat.pow_dvd_pow 2 longer) bits
    have point := grid k
    rwa [Nat.mul_comm k, Nat.pow_eq, ← same] at point

/-! ## Ranks -/

/-- The place of a float in the order: its units with their sign, and beyond all of them the infinities. -/
def rank : Binary64 → Int
  | finite x => x.signed
  | infinite negative => if negative then -limit else limit
  | nan => 0

theorem rank_infinity : (infinite false).rank = limit := rfl

theorem rank_negative_infinity : (infinite true).rank = -limit := rfl

theorem Finite.signed_bounds (x : Finite) : -(limit : Int) < x.signed ∧ x.signed < limit := by
  have bound := x.representable.2
  unfold Finite.signed
  split <;> omega

/-- **Floats are compared by rank**, if they are numbers. -/
theorem compare?_eq_rank {x y : Binary64} (hx : x ≠ nan) (hy : y ≠ nan) :
    x.compare? y = some (compare x.rank y.rank) := by
  have positive : -(limit : Int) < limit := by
    have := limit_pos
    omega
  cases x with
  | nan => exact absurd rfl hx
  | finite x =>
      obtain ⟨above, below⟩ := x.signed_bounds
      cases y with
      | nan => exact absurd rfl hy
      | finite y => rfl
      | infinite b =>
          cases b with
          | true => rw [rank_negative_infinity, rank, Int.compare_eq_gt.mpr above]; rfl
          | false => rw [rank_infinity, rank, Int.compare_eq_lt.mpr below]; rfl
  | infinite a =>
      cases y with
      | nan => exact absurd rfl hy
      | finite y =>
          obtain ⟨above, below⟩ := y.signed_bounds
          cases a with
          | true => rw [rank_negative_infinity, rank, Int.compare_eq_lt.mpr above]; rfl
          | false => rw [rank_infinity, rank, Int.compare_eq_gt.mpr below]; rfl
      | infinite b =>
          cases a <;> cases b
          · rw [Int.compare_eq_eq.mpr rfl]; rfl
          · rw [rank_infinity, rank_negative_infinity, Int.compare_eq_gt.mpr positive]; rfl
          · rw [rank_infinity, rank_negative_infinity, Int.compare_eq_lt.mpr positive]; rfl
          · rw [Int.compare_eq_eq.mpr rfl]; rfl

/-! ## Integers -/

theorem ofRatio_ne_nan (negative : Bool) (num den : Nat) : ofRatio negative num den ≠ nan := by
  unfold ofRatio
  split <;> exact nofun

theorem ofInt_ne_nan (n : Int) : ofInt n ≠ nan := ofRatio_ne_nan _ _ _

/-- The rank of a rounded quotient is the units nearest to it, up to the limit, with the sign. -/
theorem rank_ofRatio (negative : Bool) (num den : Nat) :
    (ofRatio negative num den).rank =
      if negative then -((min (roundUnits num den) limit : Nat) : Int)
      else ((min (roundUnits num den) limit : Nat) : Int) := by
  unfold ofRatio
  split
  · rename_i below
    rw [Nat.min_eq_left (Nat.le_of_lt below)]
    rfl
  · rename_i beyond
    rw [Nat.min_eq_right (Nat.not_lt.mp beyond)]
    rfl

/-- **The float nearest to an integer grows with it**. -/
theorem rank_ofInt_mono {m n : Int} (h : m ≤ n) : (ofInt m).rank ≤ (ofInt n).rank := by
  unfold ofInt
  rw [rank_ofRatio, rank_ofRatio]
  have rounds : ∀ {i j : Int}, i.natAbs ≤ j.natAbs →
      roundUnits (i.natAbs * one) 1 ≤ roundUnits (j.natAbs * one) 1 :=
    fun le => roundUnits_mono Nat.one_pos (Nat.mul_le_mul_right one le)
  by_cases hm : m < 0
  · by_cases hn : n < 0
    · have less := rounds (show n.natAbs ≤ m.natAbs by omega)
      simp only [hm, hn, decide_true, if_true]
      omega
    · simp only [hm, hn, decide_true, decide_false, if_true, Bool.false_eq_true, if_false]
      omega
  · have hn : ¬ n < 0 := by omega
    have less := rounds (show m.natAbs ≤ n.natAbs by omega)
    simp only [hm, hn, decide_false, Bool.false_eq_true, if_false]
    omega

/-- Integers of 64 bits have finite floats nearest to them. -/
theorem exists_ofInt_eq_finite {n : Int} (small : n.natAbs ≤ Nat.pow 2 64) : ∃ x, ofInt n = .finite x := by
  have below : roundUnits (n.natAbs * one) 1 < limit := by
    have largest : roundUnits (Nat.pow 2 64 * one) 1 < limit := by decide +kernel
    exact Nat.lt_of_le_of_lt (roundUnits_mono Nat.one_pos (Nat.mul_le_mul_right one small)) largest
  refine ⟨⟨decide (n < 0), _, pow_dvd_roundUnits (n.natAbs * one) 1, below⟩, ?_⟩
  rw [ofInt, ofRatio, dif_pos below]

/-- **The float nearest to an integer**: no finite one is closer. -/
theorem ofInt_nearest {n : Int} {x : Finite} (h : ofInt n = .finite x) (y : Finite) :
    (x.signed - n * one).natAbs ≤ (y.signed - n * one).natAbs := by
  have nearest := roundUnits_nearest (n.natAbs * one) Nat.one_pos y.representable.1
  have zero := roundUnits_nearest (n.natAbs * one) Nat.one_pos (Nat.dvd_zero _)
  have magnitude : ((n.natAbs * one : Nat) : Int) = if n < 0 then -(n * one) else n * one := by
    split
    · rw [Int.natCast_mul, Int.ofNat_natAbs_of_nonpos (by omega), Int.neg_mul]
    · rw [Int.natCast_mul, Int.natAbs_of_nonneg (by omega)]
  unfold ofInt ofRatio at h
  split at h
  · cases h
    unfold Finite.signed
    dsimp only
    by_cases negative : n < 0
    · simp only [negative, decide_true, if_true] at magnitude ⊢
      split <;> omega
    · simp only [negative, decide_false, Bool.false_eq_true, if_false] at magnitude ⊢
      split <;> omega
  · cases h

/-- **The floats nearest to two integers** stand as the integers do, or they are equal. -/
theorem compare?_ofInt (m n : Int) :
    (ofInt m).compare? (ofInt n) = some (if (ofInt m).eq (ofInt n) then .eq else compare m n) := by
  have order := compare?_eq_rank (ofInt_ne_nan m) (ofInt_ne_nan n)
  unfold Binary64.eq
  rw [order]
  rcases Int.lt_trichotomy m n with less | rfl | greater
  · rcases Int.lt_or_eq_of_le (rank_ofInt_mono (Int.le_of_lt less)) with ranks | ranks
    · rw [Int.compare_eq_lt.mpr ranks, Int.compare_eq_lt.mpr less]
      rfl
    · rw [Int.compare_eq_eq.mpr ranks]
      rfl
  · rw [Int.compare_eq_eq.mpr rfl]
    rfl
  · rcases Int.lt_or_eq_of_le (rank_ofInt_mono (Int.le_of_lt greater)) with ranks | ranks
    · rw [Int.compare_eq_gt.mpr ranks, Int.compare_eq_gt.mpr greater]
      rfl
    · rw [Int.compare_eq_eq.mpr ranks.symm]
      rfl

end Rulebook.Binary64
