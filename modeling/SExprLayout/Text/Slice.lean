/-!
# Slices with signed bounds

`slice start stop xs` holds the items of `xs` between two signed bounds.  A negative bound counts from the end,
once; each bound is then brought between zero and the length, and a slice whose bounds cross is empty.
-/

namespace SExprLayout

/-- The place in a list of the given length that a signed bound names. -/
def boundIndex (length : Nat) (bound : Int) : Nat :=
  min length (if bound < 0 then bound + length else bound).toNat

/-- The items from the bound `start` up to the bound `stop`. -/
def slice (start stop : Int) (xs : List α) : List α :=
  (xs.drop (boundIndex xs.length start)).take (boundIndex xs.length stop - boundIndex xs.length start)

theorem boundIndex_of_le {length bound : Nat} (h : bound ≤ length) : boundIndex length bound = bound := by
  unfold boundIndex
  split <;> omega

/-- Two natural bounds in order cut a middle part out. -/
theorem slice_append (before middle after : List α) :
    slice before.length (before.length + middle.length : Nat) (before ++ middle ++ after) = middle := by
  unfold slice
  rw [boundIndex_of_le (by simp), boundIndex_of_le (by simp), Nat.add_sub_cancel_left, List.append_assoc,
    List.drop_left, List.take_left]

/-- What two natural bounds cut out of a list is cut out of a longer one further on. -/
theorem slice_between {before xs after : List α} {start stop : Int} (first : 0 ≤ start) (order : start ≤ stop)
    (last : stop ≤ xs.length) :
    slice (start + before.length) (stop + before.length) (before ++ xs ++ after) = slice start stop xs := by
  obtain ⟨m, rfl⟩ := Int.eq_ofNat_of_zero_le first
  obtain ⟨n, rfl⟩ := Int.eq_ofNat_of_zero_le (Int.le_trans first order)
  have front : (before ++ xs ++ after).drop (m + before.length) = xs.drop m ++ after := by
    rw [Nat.add_comm, ← List.drop_drop, List.append_assoc, List.drop_left, List.drop_append_of_le_length (by omega)]
  have enough : n - m ≤ (xs.drop m).length := by
    rw [List.length_drop]
    omega
  unfold slice
  rw [← Int.natCast_add, ← Int.natCast_add, boundIndex_of_le (by simp; omega), boundIndex_of_le (by simp; omega),
    boundIndex_of_le (by omega), boundIndex_of_le (by omega), front, Nat.add_sub_add_right,
    List.take_append_of_le_length enough]

/-- Two bounds in order cut a list into what is before the slice, the slice, and what is behind it. -/
theorem exists_append_slice {start stop : Int} {xs : List α} (first : 0 ≤ start) (order : start ≤ stop)
    (last : stop ≤ xs.length) :
    ∃ before after, xs = before ++ slice start stop xs ++ after ∧ before.length = start ∧
      (before ++ slice start stop xs).length = stop := by
  obtain ⟨m, rfl⟩ := Int.eq_ofNat_of_zero_le first
  obtain ⟨n, rfl⟩ := Int.eq_ofNat_of_zero_le (Int.le_trans first order)
  have front : xs.take m ++ slice m n xs = xs.take n := by
    rw [slice, boundIndex_of_le (by omega), boundIndex_of_le (by omega), ← List.take_add,
      Nat.add_sub_cancel' (by omega)]
  refine ⟨xs.take m, xs.drop n, ?_, ?_, ?_⟩
  · rw [front, List.take_append_drop]
  · rw [List.length_take, Nat.min_eq_left (by omega)]
  · rw [front, List.length_take, Nat.min_eq_left (by omega)]

end SExprLayout
