import Mathlib.Algebra.BigOperators.Intervals
import Mathlib.Tactic.Ring
import ListSynth.Proofs.Outcomes
import ListSynth.Proofs.Places
/-!
What expansion enumerates. The candidates of a state are the steps that suit it, each once, in the order of the registry
and of the slots; the children of a node are made by those that can be taken, in the same order. The steps that are left
out lead nowhere else.
-/

namespace ListSynth

section Order

/-- Slots are compared from the first on. -/
abbrev SlotsBefore : List Nat → List Nat → Prop := List.Lex (· < ·)

theorem ordered_pairs (n : Nat) (commutative : Bool) : (pairs n commutative).Pairwise SlotsBefore := by
  have ascending := List.pairwise_lt_range (n := n)
  refine pairwise_rows (f := fun a b => [a, b]) ascending (fun a _ => ascending.filter _) ?_ ?_
  · intro a a' b b' lt
    exact .rel lt
  · intro a b b' lt
    exact .cons (.rel lt)

theorem Combinator.ordered_slotChoices (c : Combinator) (n : Nat) : (c.slotChoices n).Pairwise SlotsBefore := by
  unfold slotChoices
  split
  · exact ordered_pairs n _
  · split
    · exact List.pairwise_singleton _ _
    · exact .nil
  · apply List.pairwise_map.mpr
    exact List.pairwise_lt_range.imp .rel

theorem pairwise_idxOf {α : Type} [DecidableEq α] {l : List α} (distinct : l.Nodup) :
    l.Pairwise fun a b => l.idxOf a < l.idxOf b := by
  apply List.pairwise_iff_getElem.mpr
  intro i j hi hj lt
  rwa [distinct.idxOf_getElem i hi, distinct.idxOf_getElem j hj]

/-- The combinator that is registered first goes first, and of the steps by one combinator that on the first slots. -/
def Step.Precedes (g : Grammar) (step other : Step) : Prop :=
  g.combinators.idxOf step.combinator < g.combinators.idxOf other.combinator ∨
    step.combinator = other.combinator ∧ SlotsBefore step.slots other.slots

variable {g : Grammar}

theorem Step.not_precedes_self (step : Step) : ¬ step.Precedes g step := by
  rintro (lt | ⟨-, before⟩)
  · exact Nat.lt_irrefl _ lt
  · exact List.lex_irrefl Nat.lt_irrefl _ before

theorem Grammar.ordered_candidates (g : Grammar) (n : Nat) : (g.candidates n).Pairwise (Step.Precedes g) := by
  -- no combinator is registered twice, so where it is first found is its place in the registry
  have registry := pairwise_idxOf g.nodup_combinators
  refine pairwise_rows (f := Step.mk) registry (fun c _ => c.ordered_slotChoices n) ?_ ?_
  · intro c c' slots slots' lt
    exact .inl lt
  · intro c slots slots' before
    exact .inr ⟨rfl, before⟩

/-- No candidate occurs twice. -/
theorem Grammar.nodup_candidates (g : Grammar) (n : Nat) : (g.candidates n).Nodup := by
  refine List.Pairwise.imp ?_ (g.ordered_candidates n)
  rintro step _ precedes rfl
  exact step.not_precedes_self precedes

end Order

section Count

theorem countP_ne_range {n a : Nat} (range : a < n) : ((List.range n).countP fun b => a ≠ b) = n - 1 := by
  have others : ((List.range n).filter fun b => a ≠ b) = (List.range n).erase a := by
    rw [List.nodup_range.erase_eq_filter]
    refine List.filter_congr ?_
    intro b _
    rw [bne_comm, bne, beq_eq_decide, decide_not]
  rw [List.countP_eq_length_filter, others, List.length_erase_of_mem (List.mem_range.mpr range), List.length_range]

theorem countP_gt_range (n a : Nat) : ((List.range n).countP fun b => a < b) = n - (a + 1) := by
  induction n with
  | zero => rw [List.range_zero, List.countP_nil, Nat.zero_sub]
  | succ n ih =>
      rw [List.range_succ, List.countP_append, ih, List.countP_singleton]
      by_cases above : a < n
      · rw [if_pos (decide_eq_true above)]
        omega
      · rw [if_neg (by simpa using above)]
        omega

theorem sum_descending (n : Nat) : ((List.range n).map fun a => n - (a + 1)).sum = n * (n - 1) / 2 :=
  calc ((List.range n).map fun a => n - (a + 1)).sum
    _ = ∑ a ∈ Finset.range n, (n - 1 - a) := by
      refine congrArg List.sum (List.map_congr_left ?_)
      intro a _
      rw [Nat.add_comm, Nat.sub_add_eq]
    _ = ∑ a ∈ Finset.range n, a := Finset.sum_range_reflect id n
    _ = n * (n - 1) / 2 := Finset.sum_range_id n

theorem length_pairs (n : Nat) (commutative : Bool) :
    (pairs n commutative).length = if commutative then n * (n - 1) / 2 else n * (n - 1) := by
  have rows : (pairs n commutative).length = ((List.range n).map fun a =>
      (List.range n).countP fun b => a ≠ b && !(commutative && b < a)).sum := by
    simp only [pairs, List.length_flatMap, List.length_map, List.countP_eq_length_filter]
  rw [rows]
  cases commutative with
  | true =>
      have row : ∀ a ∈ List.range n, ((List.range n).countP fun b => a ≠ b && !(true && b < a)) = n - (a + 1) := by
        intro a _
        rw [← countP_gt_range n a]
        apply List.countP_congr
        intro b _
        simp only [Bool.true_and, Bool.and_eq_true, decide_eq_true_eq, Bool.not_eq_true', decide_eq_false_iff_not]
        omega
      rw [List.map_congr_left row]
      exact sum_descending n
  | false =>
      have row : ∀ a ∈ List.range n, ((List.range n).countP fun b => a ≠ b && !(false && b < a)) = n - 1 := by
        intro a ha
        simpa using countP_ne_range (List.mem_range.mp ha)
      rw [List.map_congr_left row, List.map_const', List.sum_replicate, List.length_range]
      rfl

example : pairs 3 true = [[0, 1], [0, 2], [1, 2]] ∧ (pairs 3 false).length = 6 := by decide

/-- How many ways there are to try some combinators on `n` slots. -/
def ways (n : Nat) (cs : List Combinator) : Nat :=
  n * cs.countP (·.family ∈ [.map, .filter, .take, .drop, .copy]) +
    (if n = 1 then cs.countP (· ∈ Combinator.aggregates) else 0) +
      n * (n - 1) / 2 * cs.countP (· ∈ [.zipWith .add, .zipWith .mul]) + n * (n - 1) * cs.countP (· = .zipWith .sub)

theorem ways_nil (n : Nat) : ways n [] = 0 := by
  simp [ways]

theorem ways_cons (n : Nat) (c : Combinator) (cs : List Combinator) : ways n (c :: cs) = ways n [c] + ways n cs := by
  simp only [ways, List.countP_cons, List.countP_nil]
  by_cases lone : n = 1
  · simp only [if_pos lone]
    ring
  · simp only [if_neg lone]
    ring

theorem Combinator.length_slotChoices (c : Combinator) (n : Nat) : (c.slotChoices n).length = ways n [c] := by
  cases c with
  | zipWith op =>
      rw [slotChoices, role, length_pairs]
      cases op <;> simp [ways, family, aggregates, arith?, ArithOp.isCommutative]
  | sum | max | min | length =>
      rw [slotChoices, role]
      simp only [ways, family, aggregates]
      split <;> simp
  | _ =>
      rw [slotChoices, role]
      simp [ways, family, aggregates]

theorem Grammar.length_candidates (g : Grammar) (n : Nat) : (g.candidates n).length = ways n g.combinators := by
  unfold candidates
  induction g.combinators with
  | nil => exact (ways_nil n).symm
  | cons c cs ih =>
      rw [List.flatMap_cons, List.length_append, List.length_map, c.length_slotChoices, ih]
      exact (ways_cons n c cs).symm

end Count

variable {σ : Type} {guide : Guide σ} {g : Grammar} {goal : Goal} {parent child : Node} {p q : Progress σ}
  {children : List Node} {steps : List Step} {s : State}

section Children

/-- A child of a node by a step stands where the step leads from there, one deeper. -/
structure Node.IsChild (parent : Node) (step : Step) (child : Node) : Prop where
  taken : parent.state.after step = .ok child.state
  trail : child.trail = step :: parent.trail
  depth : child.depth = parent.depth + 1

theorem Node.isChild_of_child? {w : Weights} {step : Step} (h : parent.child? g w step = some child) :
    parent.IsChild step child := by
  obtain ⟨s, weight, taken, -, rfl⟩ := child?_eq_some_iff.mp h
  exact ⟨taken, rfl, rfl⟩

/-- Steps that can be taken are those that have children, where all of them have weights. -/
theorem Node.forall₂_isChild {w : Weights} (weighed : ∀ step ∈ steps, ∀ s, parent.state.after step = .ok s →
      ∃ weight, Ranking.ofStep g w step = .ok weight) :
    List.Forall₂ parent.IsChild (steps.filter fun step => (parent.state.after step).isOk)
      (steps.filterMap (parent.child? g w)) := by
  induction steps with
  | nil => exact .nil
  | cons step rest ih =>
      have others := ih fun step later => weighed step (List.mem_cons_of_mem _ later)
      cases taken : parent.state.after step with
      | error e =>
          have childless : parent.child? g w step = none := by simp only [child?, taken]
          rw [List.filter_cons_of_neg (by simp [taken, Except.isOk, Except.toBool]), List.filterMap_cons_none childless]
          exact others
      | ok s =>
          obtain ⟨weight, weighs⟩ := weighed step List.mem_cons_self s taken
          have born : parent.child? g w step = some (parent.child step s weight) := by simp only [child?, taken, weighs]
          rw [List.filter_cons_of_pos (by simp [taken, Except.isOk, Except.toBool]), List.filterMap_cons_some born]
          exact .cons (isChild_of_child? born) others

theorem Node.expand_isChild (h : parent.expand guide g goal p = (.ok children, q)) :
    List.Forall₂ parent.IsChild
      ((g.candidates parent.state.length).filter fun step => (parent.state.after step).isOk) children := by
  obtain ⟨weighed, rfl⟩ := raise_eq_ok_iff.mp (congrArg Prod.fst h)
  exact forall₂_isChild weighed

/-- Each candidate is counted, with the children or with the rejected. -/
theorem Node.expand_counts (h : parent.expand guide g goal p = (.ok children, q)) :
    q.tally.childrenGenerated = p.tally.childrenGenerated + children.length ∧
      q.tally.childrenGenerated + q.tally.candidatesRejected =
        p.tally.childrenGenerated + p.tally.candidatesRejected + (g.candidates parent.state.length).length := by
  obtain ⟨blank, grown⟩ := Node.expand_grows h
  have length := Node.length_of_expand h
  have generated : q.tally.childrenGenerated = p.tally.childrenGenerated + children.length := by
    rw [grown, length]
    simp [expansion, ListSynth.children, Tally.append_eq, Tally.merge]
  have rejected : q.tally.candidatesRejected = p.tally.candidatesRejected + parent.place.refused g := by
    rw [grown]
    simp [expansion, Tally.append_eq, Tally.merge]
  have all : children.length + parent.place.refused g = (g.candidates parent.state.length).length := by
    rw [length]
    exact parent.place.offspring_add_refused
  exact ⟨generated, by omega⟩

/-- Expansion enumerates the steps that suit a state: the candidates are all of them that are registered, in the order
of the registry and then of the slots, none twice, and as many as there are ways to try the registered combinators. Under
weights that cover the grammar there are children, and they are in the same order those by the candidates that can be
taken; each other candidate is counted as rejected. -/
theorem expansion_enumerates_candidates (guide : Guide σ) (g : Grammar) (goal : Goal) (parent : Node) (p : Progress σ)
    (covers : (guide.predict g goal parent.state p.memory).1.Covers g) :
    (∀ step, step ∈ g.candidates parent.state.length ↔
      step.combinator ∈ g.combinators ∧ step.combinator.Suits parent.state.length step.slots) ∧
    (g.candidates parent.state.length).Pairwise (Step.Precedes g) ∧
    (g.candidates parent.state.length).Nodup ∧
    (g.candidates parent.state.length).length = ways parent.state.length g.combinators ∧
    ∃ children q, parent.expand guide g goal p = (.ok children, q) ∧
      List.Forall₂ parent.IsChild
        ((g.candidates parent.state.length).filter fun step => (parent.state.after step).isOk) children ∧
      q.tally.childrenGenerated = p.tally.childrenGenerated + children.length ∧
      q.tally.childrenGenerated + q.tally.candidatesRejected =
        p.tally.childrenGenerated + p.tally.candidatesRejected + (g.candidates parent.state.length).length := by
  obtain ⟨children, q, expanded⟩ := Node.exists_expand covers
  obtain ⟨generated, all⟩ := Node.expand_counts expanded
  refine ⟨fun step => Grammar.mem_candidates_iff, g.ordered_candidates _, g.nodup_candidates _, g.length_candidates _, ?_⟩
  exact ⟨children, q, expanded, Node.expand_isChild expanded, generated, all⟩

section Overflows

def Grammar.zips : Grammar := ⟨{ families := [.zipWith, .sum], arithOps := [.add, .sub] }, by decide⟩

/-- The sum of the slots leaves the range, their differences do not. -/
def State.onEdge : State := [.single (.ofInts [1, 2]), .single (.ofInts [Int64.maxValue])]

theorem expansion_enumerates_candidates_of_overflow :
    (Grammar.zips.candidates 2).length = 5 ∧
    ∃ children q, (Node.root .onEdge).expand (Scorer.guide fun _ => false) .zips (.ofTarget (.int 1))
        ⟨{}, .ofKind 7 .random, 0⟩ = (.ok children, q) ∧
      children.length = 4 ∧ q.tally.childrenGenerated + q.tally.candidatesRejected = 5 := by
  have covers := Scorer.covers_ofKind .zips 7 .random (fun _ => false) 0
  have tried : ways 2 Grammar.zips.combinators = 5 := by decide
  have taken : ((Grammar.zips.candidates 2).filter fun step => (State.onEdge.after step).isOk).length = 4 := by decide
  obtain ⟨-, -, -, length, children, q, expanded, born, -, counted⟩ :=
    expansion_enumerates_candidates (Scorer.guide fun _ => false) .zips (.ofTarget (.int 1)) (.root .onEdge)
      ⟨{}, .ofKind 7 .random, 0⟩ (covers.now _ _)
  have five : (Grammar.zips.candidates 2).length = 5 := length.trans tried
  refine ⟨five, children, q, expanded, born.length_eq.symm.trans taken, ?_⟩
  exact counted.trans (congrArg (0 + 0 + ·) five)

end Overflows

end Children

section Omissions

namespace Combinator

variable {c : Combinator} {n : Nat} {slots : List Nat}

theorem Suits.nodup (suits : c.Suits n slots) : slots.Nodup := by
  cases suits with
  | single | lone => exact List.nodup_singleton _
  | pair _ _ distinct _ => simpa using distinct

theorem Suits.eq_one_of_aggregate (suits : c.Suits n slots) (aggregate : c ∈ aggregates) : n = 1 := by
  cases suits with
  | single slotwise _ => cases c <;> simp [family, aggregates] at slotwise aggregate
  | lone _ lone => exact lone
  | pair => simp [aggregates] at aggregate

end Combinator

/-- The children stand where registered steps on distinct slots lead, aggregates on a lone slot only. -/
theorem Node.expand_states (h : parent.expand guide g goal p = (.ok children, q)) :
    {s | ∃ child ∈ children, child.state = s} =
      {s | ∃ step, step.combinator ∈ g.combinators ∧ step.slots.Nodup ∧
        (step.combinator ∈ Combinator.aggregates → parent.state.length = 1) ∧ parent.state.after step = .ok s} := by
  ext s
  constructor
  · rintro ⟨child, born, rfl⟩
    obtain ⟨step, candidate, s, weight, taken, rfl⟩ := of_mem_expand h born
    obtain ⟨registered, suits⟩ := Grammar.mem_candidates_iff.mp candidate
    exact ⟨step, registered, suits.nodup, suits.eq_one_of_aggregate, taken⟩
  · rintro ⟨step, registered, -, lone, taken⟩
    obtain ⟨other, candidate, moves⟩ := (State.after_eq_ok_iff.mp taken).exists_candidate_of_lone registered lone
    obtain ⟨weight, born⟩ := exists_mem_expand h candidate moves.after_eq
    exact ⟨_, born, rfl⟩

/-- To leave out reversed pairs loses no state. The result of a commutative operator is the same for either order of its
slots, and so is the kind of the error where there is none. So under weights that cover the grammar the children of a
node stand at all states where registered steps lead on any distinct slots in any order, except for aggregates among
several slots. -/
theorem reversed_pairs_lose_no_state (guide : Guide σ) (g : Grammar) (goal : Goal) (parent : Node) (p : Progress σ)
    (covers : (guide.predict g goal parent.state p.memory).1.Covers g) :
    (∀ (s : State) (op : ArithOp) (a b : Nat), op.isCommutative = true →
      (∀ s', s.after ⟨.zipWith op, [a, b]⟩ = .ok s' ↔ s.after ⟨.zipWith op, [b, a]⟩ = .ok s') ∧
      ∀ e e', s.after ⟨.zipWith op, [a, b]⟩ = .error e → s.after ⟨.zipWith op, [b, a]⟩ = .error e' →
        e.kind = e'.kind) ∧
    ∃ children q, parent.expand guide g goal p = (.ok children, q) ∧
      {s | ∃ child ∈ children, child.state = s} =
        {s | ∃ step, step.combinator ∈ g.combinators ∧ step.slots.Nodup ∧
          (step.combinator ∈ Combinator.aggregates → parent.state.length = 1) ∧ parent.state.after step = .ok s} := by
  constructor
  · intro s op a b comm
    exact ⟨fun s' => State.after_swap_eq_ok_iff comm, fun e e' => State.kind_eq_of_swap comm⟩
  · obtain ⟨children, q, expanded⟩ := Node.exists_expand covers
    exact ⟨children, q, expanded, Node.expand_states expanded⟩

section Sums

def State.summands : State := [.single (.ofInts [1, 2]), .single (.ofInts [3, 4, 5])]

theorem reversed_pairs_lose_no_state_of_sum :
    ⟨.zipWith .add, [1, 0]⟩ ∉ Grammar.zips.candidates 2 ∧
    State.summands.after ⟨.zipWith .add, [1, 0]⟩ = .ok [.single (.ofInts [4, 6])] ∧
    ∃ children q, (Node.root .summands).expand (Scorer.guide fun _ => false) .zips (.ofTarget (.int 1))
        ⟨{}, .ofKind 7 .random, 0⟩ = (.ok children, q) ∧
      ∃ child ∈ children, child.state = [.single (.ofInts [4, 6])] := by
  have covers := Scorer.covers_ofKind .zips 7 .random (fun _ => false) 0
  have summed : State.summands.after ⟨.zipWith .add, [0, 1]⟩ = .ok [.single (.ofInts [4, 6])] := by cbv
  obtain ⟨swap, children, q, expanded, states⟩ :=
    reversed_pairs_lose_no_state (Scorer.guide fun _ => false) .zips (.ofTarget (.int 1)) (.root .summands)
      ⟨{}, .ofKind 7 .random, 0⟩ (covers.now _ _)
  have reversed := ((swap .summands .add 0 1 rfl).1 _).mp summed
  have member : [.single (.ofInts [4, 6])] ∈ {s | ∃ child ∈ children, child.state = s} := by
    rw [states]
    exact ⟨_, by decide, by decide, by decide, reversed⟩
  exact ⟨by decide, reversed, children, q, expanded, member⟩

end Sums

end Omissions

end ListSynth
