import Mathlib.Data.List.Zip
import ListSynth.Eval
import ListSynth.Proofs.Except
/-!
What evaluation demands of its operands and what it can make of them: operands are lists, results are never
longer, and aggregates alone make scalars.
-/

namespace ListSynth

namespace Value

theorem items?_eq_some_iff {v : Value} {items : List Value} : v.items? = some items ↔ v = .list items := by
  cases v <;> simp [items?]

theorem ints?_eq_some_iff {v : Value} {xs : List Int64} : v.ints? = some xs ↔ v = .ofInts xs := by
  simp only [ints?, Option.bind_eq_some_iff, items?_eq_some_iff, mapM_eq_some_iff]
  constructor
  · rintro ⟨items, rfl, each⟩
    refine congrArg Value.list ?_
    induction each with
    | nil => rfl
    | @cons item x items xs same rest ih =>
        cases item with
        | int n =>
            cases same
            exact congrArg (Value.int x :: ·) ih
        | _ => cases same
  · rintro rfl
    exact ⟨_, rfl, List.forall₂_map_left_iff.mpr (List.forall₂_same.mpr fun x _ => rfl)⟩

theorem length_of_ints? {v : Value} {xs : List Int64} (h : v.ints? = some xs) :
    v.isScalar = false ∧ v.length = xs.length := by
  simp only [ints?, Option.bind_eq_some_iff, items?_eq_some_iff] at h
  obtain ⟨items, rfl, h⟩ := h
  exact ⟨rfl, (mapM_eq_some_iff.mp h).length_eq⟩

@[simp] theorem isScalar_ofInts (xs : List Int64) : (ofInts xs).isScalar = false := rfl

@[simp] theorem length_ofInts (xs : List Int64) : (ofInts xs).length = xs.length := by
  simp [ofInts, length, items?]

end Value

namespace Combinator

variable {c : Combinator} {op : ArithOp} {v w u : Value} {x y z : Slot}

/-- The combinators that make a scalar of a list. -/
def aggregates : List Combinator := [.sum, .max, .min, .length]

theorem role_eq_aggregate_iff : c.role = .aggregate ↔ c ∈ aggregates := by
  cases c <;> simp [role, aggregates]

theorem integers_eq_ok_iff {xs : List Int64} : c.integers v = .ok xs ↔ v.ints? = some xs := by
  unfold integers
  split <;> simp_all

theorem items_eq_ok_iff {items : List Value} : c.items v = .ok items ↔ v = .list items := by
  unfold Combinator.items
  rw [← Value.items?_eq_some_iff]
  split <;> simp_all

theorem inRange_eq_ok_iff {o : Option Value} : c.inRange o = .ok w ↔ o = some w := by
  unfold inRange
  split <;> simp_all

theorem picked_eq_ok_iff {o : Option Int64} : c.picked o = .ok w ↔ ∃ n, o = some n ∧ w = .int n := by
  unfold picked
  split <;> simp_all [eq_comm]

/-- One operand gives a result only when it is a list. The result is no longer, and a scalar exactly when
the combinator is an aggregate. -/
theorem onValue_ok (h : c.onValue v = .ok w) :
    v.isScalar = false ∧ w.length ≤ v.length ∧ (w.isScalar = true ↔ c.role = .aggregate) := by
  cases c with
  | map op n =>
      simp only [onValue, bind_eq_ok_iff, integers_eq_ok_iff, inRange_eq_ok_iff,
        Option.map_eq_some_iff] at h
      obtain ⟨xs, hxs, ys, hys, rfl⟩ := h
      obtain ⟨list, length⟩ := Value.length_of_ints? hxs
      have same := (mapM_eq_some_iff.mp hys).length_eq
      exact ⟨list, by simp [length, same], by simp [role]⟩
  | filter test n =>
      simp only [onValue, bind_eq_ok_iff, integers_eq_ok_iff, pure, Except.pure, Except.ok.injEq] at h
      obtain ⟨xs, hxs, rfl⟩ := h
      obtain ⟨list, length⟩ := Value.length_of_ints? hxs
      exact ⟨list, by simpa [length] using List.length_filter_le _ xs, by simp [role]⟩
  | take n =>
      simp only [onValue, bind_eq_ok_iff, items_eq_ok_iff, pure, Except.pure, Except.ok.injEq] at h
      obtain ⟨items, rfl, rfl⟩ := h
      exact ⟨rfl, List.length_take_le' _ items, by simp [role, Value.isScalar]⟩
  | drop n =>
      simp only [onValue, bind_eq_ok_iff, items_eq_ok_iff, pure, Except.pure, Except.ok.injEq] at h
      obtain ⟨items, rfl, rfl⟩ := h
      exact ⟨rfl, by simp [Value.length, Value.items?], by simp [role, Value.isScalar]⟩
  | sum =>
      simp only [onValue, bind_eq_ok_iff, integers_eq_ok_iff, inRange_eq_ok_iff,
        Option.map_eq_some_iff] at h
      obtain ⟨xs, hxs, n, -, rfl⟩ := h
      exact ⟨(Value.length_of_ints? hxs).1, Nat.zero_le _, by simp [role, Value.isScalar]⟩
  | max =>
      simp only [onValue, bind_eq_ok_iff, integers_eq_ok_iff, picked_eq_ok_iff] at h
      obtain ⟨xs, hxs, n, -, rfl⟩ := h
      exact ⟨(Value.length_of_ints? hxs).1, Nat.zero_le _, by simp [role, Value.isScalar]⟩
  | min =>
      simp only [onValue, bind_eq_ok_iff, integers_eq_ok_iff, picked_eq_ok_iff] at h
      obtain ⟨xs, hxs, n, -, rfl⟩ := h
      exact ⟨(Value.length_of_ints? hxs).1, Nat.zero_le _, by simp [role, Value.isScalar]⟩
  | length =>
      simp only [onValue, bind_eq_ok_iff, items_eq_ok_iff, pure, Except.pure, Except.ok.injEq] at h
      obtain ⟨items, rfl, rfl⟩ := h
      exact ⟨rfl, Nat.zero_le _, by simp [role, Value.isScalar]⟩
  | zipWith op => cases h
  | copy => cases h

theorem onPair_ok (h : onPair op v w = .ok u) :
    v.isScalar = false ∧ w.isScalar = false ∧ u.isScalar = false ∧
      u.length ≤ v.length ∧ u.length ≤ w.length := by
  simp only [onPair, bind_eq_ok_iff, integers_eq_ok_iff, inRange_eq_ok_iff, Option.map_eq_some_iff] at h
  obtain ⟨xs, hxs, ys, hys, zs, hzs, rfl⟩ := h
  obtain ⟨left, lengthLeft⟩ := Value.length_of_ints? hxs
  obtain ⟨right, lengthRight⟩ := Value.length_of_ints? hys
  have pairs : zs.length = Nat.min xs.length ys.length := by
    rw [← (mapM_eq_some_iff.mp hzs).length_eq, List.length_zip]
  refine ⟨left, right, rfl, ?_, ?_⟩
  · rw [Value.length_ofInts, lengthLeft, pairs]
    exact Nat.min_le_left _ _
  · rw [Value.length_ofInts, lengthRight, pairs]
    exact Nat.min_le_right _ _

theorem apply_single_eq_ok_iff (single : c.arity = 1) :
    c.apply [x] = .ok y ↔ List.Forall₂ (fun v w => c.onValue v = .ok w) x.components y.components := by
  rw [← mapM_eq_ok_iff]
  cases c with
  | zipWith op => cases single
  | _ =>
      simp only [apply, bind_eq_ok_iff, pure, Except.pure, Except.ok.injEq]
      constructor
      · rintro ⟨vs, h, rfl⟩
        exact h
      · intro h
        exact ⟨y.components, h, rfl⟩

theorem apply_pair_eq_ok_iff :
    (zipWith op).apply [x, y] = .ok z ↔ x.components.length = y.components.length ∧
      List.Forall₂ (fun p u => onPair op p.1 p.2 = .ok u) (x.components.zip y.components) z.components := by
  rw [← mapM_eq_ok_iff]
  by_cases same : x.components.length = y.components.length
  · simp only [apply, if_pos same, bind_eq_ok_iff, pure, Except.pure, Except.ok.injEq]
    constructor
    · rintro ⟨vs, h, rfl⟩
      exact ⟨same, h⟩
    · intro h
      exact ⟨z.components, h.2, rfl⟩
  · simp [apply, same]

/-- A result is made of one operand or merged of two. -/
theorem apply_cases {operands : List Slot} (h : c.apply operands = .ok z) :
    (∃ x, operands = [x] ∧ c.arity = 1) ∨ ∃ op x y, operands = [x, y] ∧ c = .zipWith op := by
  cases c with
  | zipWith op =>
      match operands, h with
      | [x, y], _ => exact .inr ⟨op, x, y, rfl, rfl⟩
      | [], h | [_], h | _ :: _ :: _ :: _, h => cases h
  | _ =>
      match operands, h with
      | [x], _ => exact .inl ⟨x, rfl, rfl⟩
      | [], h | _ :: _ :: _, h => cases h

theorem length_of_apply {operands : List Slot} (h : c.apply operands = .ok z) : operands.length = c.arity := by
  rcases apply_cases h with ⟨x, rfl, single⟩ | ⟨op, x, y, rfl, rfl⟩
  · exact single.symm
  · rfl

theorem components_of_apply {n : Nat} {operands : List Slot} (h : c.apply operands = .ok z)
    (all : ∀ x ∈ operands, x.components.length = n) : z.components.length = n := by
  rcases apply_cases h with ⟨x, rfl, single⟩ | ⟨op, x, y, rfl, rfl⟩
  · rw [← ((apply_single_eq_ok_iff single).mp h).length_eq, all x (by simp)]
  · obtain ⟨-, pairs⟩ := apply_pair_eq_ok_iff.mp h
    rw [← pairs.length_eq, List.length_zip, all x (by simp), all y (by simp), Nat.min_self]

end Combinator

end ListSynth
