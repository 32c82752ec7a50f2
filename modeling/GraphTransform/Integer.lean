/-!
# Integers of 64 bits

Arithmetic is done on exact integers, which are then taken back into 64 bits. That is possible
exactly for the integers that some word of 64 bits stands for.
-/

namespace GraphTransform

/-- The word of 64 bits for an exact integer, if there is one. -/
def toInt64? (n : Int) : Option Int64 :=
  if -0x8000000000000000 ≤ n ∧ n < 0x8000000000000000 then some (Int64.ofInt n) else none

theorem toInt64?_eq_some_iff {n : Int} {i : Int64} : toInt64? n = some i ↔ i.toInt = n := by
  unfold toInt64?
  constructor
  · intro h
    split at h
    · rename_i hn
      rw [← Option.some.inj h]
      exact Int64.toInt_ofInt_of_le hn.1 hn.2
    · simp at h
  · rintro rfl
    rw [if_pos ⟨Int64.le_toInt i, Int64.toInt_lt i⟩, Int64.ofInt_toInt]

theorem toInt64?_eq_none_iff {n : Int} : toInt64? n = none ↔
    n < -0x8000000000000000 ∨ 0x8000000000000000 ≤ n := by
  unfold toInt64?
  split <;> rename_i h <;> simp <;> omega

@[simp] theorem toInt64?_toInt (i : Int64) : toInt64? i.toInt = some i :=
  toInt64?_eq_some_iff.2 rfl

example : toInt64? 9223372036854775807 = some 9223372036854775807 ∧
    toInt64? 9223372036854775808 = none ∧
    toInt64? (-9223372036854775808) = some (-9223372036854775808) := by decide +kernel

end GraphTransform
