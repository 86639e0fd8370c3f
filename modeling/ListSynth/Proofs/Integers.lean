import Mathlib.Algebra.Ring.Int.Defs
import Mathlib.Algebra.Ring.Nat
import Mathlib.Data.List.Infix
import ListSynth.Operator
import ListSynth.Proofs.Except
/-!
The integers of 64 bits among all integers. Checked arithmetic has a result exactly when the exact one is in range, and
then that one; along a list, when all numbers are in range that are reckoned on the way.
-/

namespace ListSynth

/-- The integers that 64 bits can hold. -/
def InRange (n : Int) : Prop := Int64.minValue.toInt ≤ n ∧ n ≤ Int64.maxValue.toInt

instance (n : Int) : Decidable (InRange n) := inferInstanceAs (Decidable (_ ∧ _))

section Range

variable {n : Int} {m : Int64}

theorem inRange_toInt (m : Int64) : InRange m.toInt := ⟨m.minValue_le_toInt, m.toInt_le⟩

theorem int64?_eq_some_iff : int64? n = some m ↔ m.toInt = n := by
  unfold int64?
  split
  · rename_i range
    have below : n < 2 ^ 63 := Int.lt_of_le_of_lt range.2 (by decide)
    rw [Option.some.injEq, ← Int64.toInt_inj, Int64.toInt_ofInt_of_le range.1 below]
    exact eq_comm
  · rename_i out
    constructor
    · intro h
      cases h
    · rintro rfl
      exact absurd (inRange_toInt m) out

theorem int64?_eq_none_iff : int64? n = none ↔ ¬ InRange n := by
  unfold int64? InRange
  split <;> simp_all

theorem exists_toInt (range : InRange n) : ∃ m : Int64, m.toInt = n := by
  obtain ⟨m, here⟩ := Option.ne_none_iff_exists'.mp (mt int64?_eq_none_iff.mp (not_not_intro range))
  exact ⟨m, int64?_eq_some_iff.mp here⟩

end Range

section Lists

variable {α : Type} {f : α → Int} {as : List α} {ns ms : List Int64} {a m : Int64}

theorem mapM_int64?_eq_some_iff : (as.mapM fun a => int64? (f a)) = some ms ↔ ms.map Int64.toInt = as.map f := by
  simp only [mapM_eq_some_iff, int64?_eq_some_iff]
  rw [eq_comm, ← List.forall₂_eq_eq_eq, List.forall₂_map_left_iff, List.forall₂_map_right_iff]
  simp only [eq_comm]

theorem mapM_int64?_eq_none_iff : (as.mapM fun a => int64? (f a)) = none ↔ ∃ n ∈ as.map f, ¬ InRange n := by
  simp [mapM_eq_none_iff, int64?_eq_none_iff]

/-- Checked addition along a list has a result when the sum of every front part is in range. -/
theorem foldlM_checked_eq_some_iff : ns.foldlM ArithOp.add.checked a = some m ↔
    (∀ front, front <+: ns.map Int64.toInt → InRange (a.toInt + front.sum)) ∧
      m.toInt = a.toInt + (ns.map Int64.toInt).sum := by
  induction ns generalizing a with
  | nil =>
      have start : InRange a.toInt := inRange_toInt a
      simp [start, Int64.toInt_inj, eq_comm]
  | cons n ns ih =>
      have first : ∀ b, ArithOp.add.checked a n = some b ↔ b.toInt = a.toInt + n.toInt :=
        fun b => int64?_eq_some_iff
      simp only [List.foldlM_cons, Option.bind_eq_bind, Option.bind_eq_some_iff, first, ih, List.map_cons,
        List.sum_cons, List.prefix_cons_iff]
      constructor
      · rintro ⟨b, sum, range, total⟩
        refine ⟨?_, by omega⟩
        rintro front (rfl | ⟨rest, rfl, before⟩)
        · simpa using inRange_toInt a
        · have later := range rest before
          rwa [sum, Int.add_assoc] at later
      · rintro ⟨range, total⟩
        have here := range [n.toInt] (.inr ⟨[], rfl, List.nil_prefix⟩)
        obtain ⟨b, sum⟩ := exists_toInt here
        rw [List.sum_singleton] at sum
        refine ⟨b, sum, ?_, by omega⟩
        intro front before
        have later := range (n.toInt :: front) (.inr ⟨front, rfl, before⟩)
        rwa [List.sum_cons, ← Int.add_assoc, ← sum] at later

theorem foldlM_checked_eq_none_iff : ns.foldlM ArithOp.add.checked a = none ↔
    ∃ front, front <+: ns.map Int64.toInt ∧ ¬ InRange (a.toInt + front.sum) := by
  constructor
  · intro none
    by_contra all
    push Not at all
    obtain ⟨m, total⟩ := exists_toInt (all _ List.prefix_rfl)
    rw [foldlM_checked_eq_some_iff.mpr ⟨all, total⟩] at none
    cases none
  · rintro ⟨front, before, out⟩
    by_contra some
    obtain ⟨m, some⟩ := Option.ne_none_iff_exists'.mp some
    exact out ((foldlM_checked_eq_some_iff.mp some).1 front before)

theorem toInt_mem_map_iff : m.toInt ∈ ns.map Int64.toInt ↔ m ∈ ns :=
  List.mem_map_of_injective fun _ _ => Int64.toInt_inj.mp

instance lawfulOrderMax_int64 : Std.LawfulOrderMax Int64 where
  max_eq_or a b := by
    show (if a ≤ b then b else a) = a ∨ (if a ≤ b then b else a) = b
    split <;> simp
  max_le_iff a b c := by
    show (if a ≤ b then b else a) ≤ c ↔ a ≤ c ∧ b ≤ c
    simp only [Int64.le_iff_toInt_le]
    split <;> omega

theorem max?_eq_some_iff_toInt : ns.max? = some m ↔
    m.toInt ∈ ns.map Int64.toInt ∧ ∀ x ∈ ns.map Int64.toInt, x ≤ m.toInt := by
  rw [List.max?_eq_some_iff, List.forall_mem_map, toInt_mem_map_iff]
  simp only [Int64.le_iff_toInt_le]

theorem min?_eq_some_iff_toInt : ns.min? = some m ↔
    m.toInt ∈ ns.map Int64.toInt ∧ ∀ x ∈ ns.map Int64.toInt, m.toInt ≤ x := by
  rw [List.min?_eq_some_iff, List.forall_mem_map, toInt_mem_map_iff]
  simp only [Int64.le_iff_toInt_le]

end Lists

/-- How unbounded integers compare. -/
def Comparison.compares : Comparison → Int → Int → Bool
  | .greater, a, b => b < a
  | .less, a, b => a < b
  | .equal, a, b => a = b

theorem Comparison.holds_eq (test : Comparison) (a b : Int64) : test.holds a b = test.compares a.toInt b.toInt := by
  cases test with
  | greater => exact decide_eq_decide.mpr Int64.lt_iff_toInt_lt
  | less => exact decide_eq_decide.mpr Int64.lt_iff_toInt_lt
  | equal => exact decide_eq_decide.mpr Int64.toInt_inj.symm

end ListSynth
