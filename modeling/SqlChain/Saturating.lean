/-!
# Saturation to 64 bits
-/

namespace SqlChain

/-- The 64-bit integer nearest to `n`. -/
def saturate (n : Int) : Int64 :=
  Int64.ofInt (max Int64.minValue.toInt (min n Int64.maxValue.toInt))

theorem minValue_toInt_le (n : Int64) : Int64.minValue.toInt ≤ n.toInt := n.le_toInt

theorem toInt_le_maxValue (n : Int64) : n.toInt ≤ Int64.maxValue.toInt :=
  Int.le_of_lt_add_one n.toInt_lt

theorem toInt_saturate (n : Int) :
    (saturate n).toInt = max Int64.minValue.toInt (min n Int64.maxValue.toInt) := by
  rw [saturate, Int64.toInt_ofInt]
  have low : Int64.minValue.toInt = -9223372036854775808 := rfl
  have high : Int64.maxValue.toInt = 9223372036854775807 := rfl
  exact Int.bmod_eq_of_le (by simp only [Int64.size]; omega) (by simp only [Int64.size]; omega)

theorem saturate_toInt (n : Int64) : saturate n.toInt = n := by
  rw [← Int64.toInt_inj, toInt_saturate, Int.min_eq_left (toInt_le_maxValue n),
    Int.max_eq_right (minValue_toInt_le n)]

end SqlChain
