import ListSynth.Search.Node
import ListSynth.Proofs.Commutation
import ListSynth.Proofs.DeadEnds
/-!
The candidate steps of a state. Not every legal step is a candidate, but whatever a step can lead to that may
still come to a single list, a candidate leads to as well.
-/

namespace ListSynth

theorem mem_pairs_iff {n : Nat} {commutative : Bool} {slots : List Nat} :
    slots ∈ pairs n commutative ↔
      ∃ a b, slots = [a, b] ∧ a < n ∧ b < n ∧ a ≠ b ∧ (commutative = true → a < b) := by
  simp only [pairs, List.mem_flatMap, List.mem_map, List.mem_filter, List.mem_range]
  constructor
  · rintro ⟨a, ha, b, ⟨hb, distinct⟩, rfl⟩
    refine ⟨a, b, rfl, ha, hb, ?_⟩
    cases commutative <;> simp at distinct ⊢ <;> omega
  · rintro ⟨a, b, rfl, ha, hb, distinct, ascending⟩
    refine ⟨a, ha, b, ⟨hb, ?_⟩, rfl⟩
    cases commutative <;> simp at ascending ⊢ <;> omega

/-- The slots that suit a combinator among `n`: a lone one to finish with, a pair for an operator, ascending where order
makes no difference, and any slot otherwise. -/
inductive Combinator.Suits (n : Nat) : Combinator → List Nat → Prop
  | single {c : Combinator} {i : Nat} (slotwise : c.family ∈ [.map, .filter, .take, .drop, .copy]) (range : i < n) :
      Suits n c [i]
  | lone {c : Combinator} (aggregate : c ∈ aggregates) (lone : n = 1) : Suits n c [0]
  | pair {op : ArithOp} {a b : Nat} (left : a < n) (right : b < n) (distinct : a ≠ b)
      (ascending : op.isCommutative = true → a < b) : Suits n (.zipWith op) [a, b]

namespace Combinator

variable {c : Combinator} {n : Nat} {slots : List Nat}

theorem Suits.single_of_arity {i : Nat} (single : c.arity = 1) (lone : c ∈ aggregates → n = 1) (range : i < n) :
    c.Suits n [i] := by
  by_cases aggregate : c ∈ aggregates
  · obtain rfl := lone aggregate
    obtain rfl : i = 0 := by omega
    exact .lone aggregate rfl
  · refine .single ?_ range
    cases c with
    | zipWith op => cases single
    | sum | max | min | length => exact absurd (by decide) aggregate
    | _ => simp [family]

/-- A combinator is tried on the slots that suit it. -/
theorem mem_slotChoices_iff : slots ∈ c.slotChoices n ↔ c.Suits n slots := by
  constructor
  · intro chosen
    cases c with
    | zipWith op =>
        obtain ⟨a, b, rfl, left, right, distinct, ascending⟩ := mem_pairs_iff.mp chosen
        exact .pair left right distinct ascending
    | sum | max | min | length =>
        dsimp only [slotChoices, role] at chosen
        split at chosen
        · obtain rfl := List.mem_singleton.mp chosen
          exact .lone (by decide) ‹_›
        · cases chosen
    | _ =>
        obtain ⟨i, range, rfl⟩ := List.mem_map.mp chosen
        exact .single (by simp [family]) (List.mem_range.mp range)
  · intro suits
    cases suits with
    | @single _ i slotwise range =>
        have chosen : [i] ∈ (List.range n).map fun i => [i] := List.mem_map_of_mem (List.mem_range.mpr range)
        cases c with
        | zipWith | sum | max | min | length => exact absurd slotwise (by simp [family])
        | _ => exact chosen
    | lone aggregate lone =>
        rw [slotChoices, role_eq_aggregate_iff.mpr aggregate]
        simp [lone]
    | pair left right distinct ascending => exact mem_pairs_iff.mpr ⟨_, _, rfl, left, right, distinct, ascending⟩

end Combinator

theorem Grammar.mem_candidates_iff {g : Grammar} {n : Nat} {step : Step} :
    step ∈ g.candidates n ↔ step.combinator ∈ g.combinators ∧ step.combinator.Suits n step.slots := by
  obtain ⟨c, slots⟩ := step
  simp only [Grammar.candidates, List.mem_flatMap, List.mem_map, Step.mk.injEq, Combinator.mem_slotChoices_iff]
  constructor
  · rintro ⟨c', registered, slots', suits, rfl, rfl⟩
    exact ⟨registered, suits⟩
  · rintro ⟨registered, suits⟩
    exact ⟨c, registered, slots, suits, rfl, rfl⟩

namespace State

variable {s s' : State} {step : Step} {op : ArithOp} {g : Grammar}

theorem Moves.reversed {a b : Nat} (comm : op.isCommutative = true) (h : s.Moves ⟨.zipWith op, [a, b]⟩ s') :
    s.Moves ⟨.zipWith op, [b, a]⟩ s' :=
  after_eq_ok_iff.mp ((after_swap_eq_ok_iff comm).mp h.after_eq)

/-- Where a registered step leads, unless it is an aggregate among several slots, a candidate leads too. -/
theorem Moves.exists_candidate_of_lone (h : s.Moves step s') (registered : step.combinator ∈ g.combinators)
    (lone : step.combinator ∈ Combinator.aggregates → s.length = 1) :
    ∃ step' ∈ g.candidates s.length, s.Moves step' s' := by
  have move := h
  cases h with
  | @copy i x here =>
      have range := (List.getElem?_eq_some_iff.mp here).1
      exact ⟨_, Grammar.mem_candidates_iff.mpr ⟨registered, .single (by simp [Combinator.family]) range⟩, move⟩
  | @single c i x y notCopy arity here result =>
      have range := (List.getElem?_eq_some_iff.mp here).1
      exact ⟨_, Grammar.mem_candidates_iff.mpr ⟨registered, .single_of_arity arity lone range⟩, move⟩
  | @merge op a b x y z distinct left right result =>
      have ha := (List.getElem?_eq_some_iff.mp left).1
      have hb := (List.getElem?_eq_some_iff.mp right).1
      by_cases descending : op.isCommutative = true ∧ b < a
      · have suits : (Combinator.zipWith op).Suits s.length [b, a] :=
          .pair hb ha distinct.symm fun _ => descending.2
        exact ⟨⟨.zipWith op, [b, a]⟩, Grammar.mem_candidates_iff.mpr ⟨registered, suits⟩, move.reversed descending.1⟩
      · have ascending : op.isCommutative = true → a < b := by
          intro comm
          have : ¬ b < a := fun lt => descending ⟨comm, lt⟩
          omega
        exact ⟨_, Grammar.mem_candidates_iff.mpr ⟨registered, .pair ha hb distinct ascending⟩, move⟩

/-- Where a registered step leads, unless it leaves a scalar beside other slots, a candidate leads too. -/
theorem Moves.exists_candidate {n : Nat} (h : s.Moves step s') (registered : step.combinator ∈ g.combinators)
    (carries : s.Carries (n + 1)) (hopeful : s'.length = 1 ∨ s'.hasScalar = false) :
    ∃ step' ∈ g.candidates s.length, s.Moves step' s' := by
  apply h.exists_candidate_of_lone registered
  intro aggregate
  obtain ⟨length, scalar | ⟨-, x, hx, empty⟩⟩ := h.of_aggregate aggregate
  · rw [← length]
    exact hopeful.resolve_right (by simp [scalar])
  · have some := carries x hx
    simp [empty] at some

end State

end ListSynth
