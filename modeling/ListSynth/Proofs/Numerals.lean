import Mathlib.Data.List.Basic
/-!
Decimal numerals in texts. A numeral has digits only, after a minus where it is negative, so its end can be told from
whatever does not go on with a digit; and it does not begin with a zero, unless it is one.
-/

namespace ListSynth

/-- What follows in a text does not begin with a digit. -/
def Clear (rest : List Char) : Prop := ∀ c ∈ rest.head?, c.isDigit = false

namespace Numeral

variable {c : Char} {rest rest' : List Char} {m n : Nat} {z w : Int}

theorem clear_nil : Clear [] := by simp [Clear]

theorem clear_cons : Clear (c :: rest) ↔ c.isDigit = false := by simp [Clear]

theorem toList_repr (n : Nat) : n.repr.toList = Nat.toDigits 10 n := by
  rw [Nat.repr_eq_ofList_toDigits, String.toList_ofList]

theorem toList_toString (n : Nat) : (toString n).toList = Nat.toDigits 10 n := toList_repr n

/-- The numeral of an integer is that of its absolute value, with a sign where it is negative. -/
theorem toList_toString_int (z : Int) :
    (toString z).toList = (if z < 0 then ['-'] else []) ++ Nat.toDigits 10 z.natAbs := by
  cases z with
  | ofNat n =>
      rw [if_neg (show ¬ Int.ofNat n < 0 by simp)]
      exact toList_repr n
  | negSucc n =>
      rw [if_pos (Int.negSucc_lt_zero n)]
      exact String.toList_append.trans (congrArg ("-".toList ++ ·) (toList_repr n.succ))

theorem isDigit_of_mem (h : c ∈ Nat.toDigits 10 n) : c.isDigit = true :=
  Nat.isDigit_of_mem_toDigits (by decide) (by decide) h

theorem takeWhile_append (clear : Clear rest) :
    (Nat.toDigits 10 n ++ rest).takeWhile Char.isDigit = Nat.toDigits 10 n := by
  rw [List.takeWhile_append_of_pos fun c hc => isDigit_of_mem hc]
  cases rest with
  | nil => simp
  | cons c rest => simp [clear_cons.mp clear]

theorem dropWhile_append (clear : Clear rest) : (Nat.toDigits 10 n ++ rest).dropWhile Char.isDigit = rest := by
  rw [List.dropWhile_append_of_pos fun c hc => isDigit_of_mem hc]
  cases rest with
  | nil => rfl
  | cons c rest => simp [clear_cons.mp clear]

theorem eq_of_digits_append (clear : Clear rest) (clear' : Clear rest')
    (same : Nat.toDigits 10 m ++ rest = Nat.toDigits 10 n ++ rest') : m = n ∧ rest = rest' := by
  have digits := congrArg (List.takeWhile Char.isDigit) same
  have others := congrArg (List.dropWhile Char.isDigit) same
  rw [takeWhile_append clear, takeWhile_append clear'] at digits
  rw [dropWhile_append clear, dropWhile_append clear'] at others
  refine ⟨?_, others⟩
  rw [← @Nat.ofDigitChars_ten_toDigits m, digits, Nat.ofDigitChars_ten_toDigits]

theorem exists_digits (n : Nat) : ∃ c cs, Nat.toDigits 10 n = c :: cs ∧ c.isDigit = true := by
  cases digits : Nat.toDigits 10 n with
  | nil => exact absurd digits Nat.toDigits_ne_nil
  | cons c cs => exact ⟨c, cs, rfl, isDigit_of_mem (digits ▸ List.mem_cons_self)⟩

/-- A numeral begins with a minus, where it is negative, or with a digit. -/
theorem exists_toString_int (z : Int) :
    ∃ c cs, (toString z).toList = c :: cs ∧ (c = '-' ∧ z < 0 ∨ c.isDigit = true ∧ 0 ≤ z) := by
  obtain ⟨c, cs, digits, digit⟩ := exists_digits z.natAbs
  rw [toList_toString_int, digits]
  split
  · rename_i negative
    exact ⟨'-', c :: cs, rfl, .inl ⟨rfl, negative⟩⟩
  · rename_i positive
    exact ⟨c, cs, rfl, .inr ⟨digit, Int.not_lt.mp positive⟩⟩

theorem eq_of_toString_append (clear : Clear rest) (clear' : Clear rest')
    (same : (toString z).toList ++ rest = (toString w).toList ++ rest') : z = w ∧ rest = rest' := by
  obtain ⟨c, cs, first, sign⟩ := exists_toString_int z
  obtain ⟨d, ds, second, sign'⟩ := exists_toString_int w
  have heads : c = d := by
    rw [first, second] at same
    exact (List.cons.inj same).1
  have signs : z < 0 ↔ w < 0 := by
    subst heads
    rcases sign with ⟨rfl, negative⟩ | ⟨digit, positive⟩
    · rcases sign' with ⟨-, negative'⟩ | ⟨digit, -⟩
      · exact iff_of_true negative negative'
      · exact absurd digit (by decide)
    · rcases sign' with ⟨rfl, -⟩ | ⟨-, positive'⟩
      · exact absurd digit (by decide)
      · omega
  rw [toList_toString_int, toList_toString_int, List.append_assoc, List.append_assoc] at same
  simp only [signs] at same
  obtain ⟨size, rest⟩ := eq_of_digits_append clear clear' (List.append_cancel_left same)
  exact ⟨by omega, rest⟩

/-- Only the numeral of zero begins with a zero. -/
theorem head_ne_zero (pos : 0 < n) : (Nat.toDigits 10 n).head? ≠ some '0' := by
  induction n using Nat.strongRecOn with
  | ind n ih =>
      rcases Nat.lt_or_ge n 10 with small | large
      · rw [Nat.toDigits_of_lt_base small, List.head?_cons, Ne, Option.some.injEq, Nat.digitChar_eq_zero]
        omega
      · have front : 0 < n / 10 := Nat.div_pos large (by decide)
        have split := Nat.toDigits_append_toDigits (by decide : 1 < 10) front (Nat.mod_lt n (by decide : 0 < 10))
        rw [Nat.div_add_mod] at split
        rw [← split, List.head?_append_of_ne_nil _ Nat.toDigits_ne_nil]
        exact ih (n / 10) (Nat.div_lt_self pos (by decide)) front

end Numeral

end ListSynth
