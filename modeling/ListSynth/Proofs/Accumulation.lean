import ListSynth.Proofs.Consultation
import ListSynth.Proofs.Course
import ListSynth.Proofs.Ranks
import ListSynth.Proofs.Reordering
/-!
The rank of a node as the rank of its program. A node keeps its steps, its state and its rank apart, and the weights of
a step are those of the state before it; a run that adds up ranks step by step says what the three have in common.
-/

namespace ListSynth

/-- From a memory on, a guide answers every goal and state with the weights of a given function. -/
def Guide.Answers {σ : Type} (guide : Guide σ) (g : Grammar) (answer : Goal → State → Weights) : σ → Prop :=
  guide.Always g fun n => ∀ goal s, (guide.predict g goal s n).1 = answer goal s

/-- The weights of a state, where those with an empty list have no other weight than zero. -/
def State.score (g : Grammar) (answer : State → Weights) (s : State) : Weights :=
  if s.hasEmptyList then .zeros g else answer s

namespace Ranking

/-- Take a step, and add the logarithm of its weight by the state before it. -/
def advance (g : Grammar) (score : State → Weights) (here : State × Number) (step : Step) :
    Option (State × Number) :=
  match here.1.after step, ofStep g (score here.1) step with
  | .ok s, .ok weight => some (s, here.2 + weight.log)
  | _, _ => none

/-- The state that a program leads to, and the sum from zero of the logarithms of its weights, in the order of its
steps. -/
def along (g : Grammar) (score : State → Weights) (start : State) (program : Program) : Option (State × Number) :=
  program.foldlM (advance g score) (start, .zero)

end Ranking

variable {σ : Type} {guide : Guide σ} {g : Grammar} {answer : Goal → State → Weights} {goal : Goal}
  {score : State → Weights} {c : Settings} {task : Task} {memory : σ} {p q r : Progress σ} {start : State}
  {parent node : Node} {children pool frontier next : List Node} {width depth k : Nat}

/-- The rank of a node is that of its program, by the weights of the states that the program comes through. -/
def Node.Accumulates (g : Grammar) (score : State → Weights) (start : State) (node : Node) : Prop :=
  Ranking.along g score start node.program = some (node.state, node.rank)

section Nodes

theorem Node.accumulates_root (g : Grammar) (score : State → Weights) (start : State) :
    (root start).Accumulates g score start := rfl

theorem Node.Accumulates.child {step : Step} (accumulates : parent.Accumulates g score start)
    (bred : parent.child? g (score parent.state) step = some node) : node.Accumulates g score start := by
  obtain ⟨s, weight, taken, weighed, rfl⟩ := child?_eq_some_iff.mp bred
  have program : (parent.child step s weight).program = parent.program ++ [step] := List.reverse_cons
  unfold Accumulates Ranking.along at accumulates ⊢
  rw [program, List.foldlM_append, accumulates]
  simp [Ranking.advance, taken, weighed, Node.child]

end Nodes

section Levels

/-- Scorers that have one answer for a grammar give it at any time. -/
theorem Scorer.answers_fixed (g : Grammar) (f : Grammar → Weights) (flag : Nat → Bool) (reads : Nat) :
    (Scorer.guide flag).Answers g (fun _ _ => f g) (.fixed f, reads) := by
  have all : (Scorer.guide flag).Always g (fun m => m.1 = .fixed f) (.fixed f, reads) := by
    refine Guide.always_of_keeps ?_ ?_ rfl
    · rintro ⟨_, reads⟩ goal s rfl
      rfl
    · rintro ⟨_, reads⟩ rfl
      rfl
  rintro ⟨_, reads⟩ reached goal s
  cases all _ reached
  rfl

theorem Guide.Answers.consult (answers : guide.Answers g answer memory) (goal : Goal) (s : State) :
    (guide.consult g goal s memory).1 = s.score g (answer goal) := by
  unfold State.score
  cases empty : s.hasEmptyList with
  | true => rw [consult_of_empty empty, if_pos rfl]
  | false => rw [consult_of_full empty, if_neg Bool.false_ne_true, answers.now goal s]

theorem Node.Accumulates.expand (answers : guide.Answers g answer p.memory)
    (accumulates : parent.Accumulates g (State.score g (answer goal)) start)
    (expanded : parent.expand guide g goal p = (.ok children, q)) :
    ∀ node ∈ children, node.Accumulates g (State.score g (answer goal)) start := by
  intro node hn
  have raised : (parent.raise g (guide.consult g goal parent.state p.memory).1
      (g.candidates parent.state.length) [] 0).2 = .ok children := congrArg Prod.fst expanded
  rw [answers.consult] at raised
  obtain ⟨-, rfl⟩ := raise_eq_ok_iff.mp raised
  rw [List.reverse_nil, List.nil_append] at hn
  obtain ⟨step, -, bred⟩ := List.mem_filterMap.mp hn
  exact accumulates.child bred

/-- Weights belong to the parent: the memory may have moved on when a node has its turn, the answers have not. -/
theorem accumulates_of_expandAll {broods : List (List Node)} (answers : guide.Answers g answer p.memory)
    (before : ∀ node ∈ broods.flatten, node.Accumulates g (State.score g (answer goal)) start)
    (accumulate : ∀ node ∈ frontier, node.Accumulates g (State.score g (answer goal)) start)
    (expanded : expandAll guide g goal frontier broods p = (.ok pool, q)) :
    ∀ node ∈ pool, node.Accumulates g (State.score g (answer goal)) start := by
  induction frontier generalizing broods p with
  | nil =>
      cases expanded
      intro node hn
      exact before node (by simpa using hn)
  | cons parent rest ih =>
      rw [expandAll] at expanded
      split at expanded
      · cases expanded
      · rename_i children m first
        obtain ⟨own, others⟩ := List.forall_mem_cons.mp accumulate
        have moved : guide.Reaches g p.memory m.memory := by
          have change : Progress.Change guide g p (parent.expand guide g goal p).2 := .expanded goal parent
          rw [first] at change
          exact change.reaches
        refine ih (answers.later moved) ?_ others expanded
        intro node hn
        rw [List.flatten_cons, List.mem_append] at hn
        exact hn.elim (own.expand answers first node) (before node)

theorem accumulates_of_found (answers : guide.Answers g answer p.memory)
    (accumulate : ∀ node ∈ frontier, node.Accumulates g (State.score g (answer goal)) start)
    (found : level guide g goal width frontier p = (.ok (.found node), q)) :
    node.Accumulates g (State.score g (answer goal)) start := by
  obtain ⟨pool, m, r, expanded, walked, -⟩ := level_eq_ok_iff.mp found
  exact accumulates_of_expandAll answers (by simp) accumulate expanded node
    (mem_sortByRank.mp (walk_found walked).1)

theorem accumulates_of_advanced (answers : guide.Answers g answer p.memory)
    (accumulate : ∀ node ∈ frontier, node.Accumulates g (State.score g (answer goal)) start)
    (advanced : level guide g goal width frontier p = (.ok (.advanced next), q)) :
    ∀ node ∈ next, node.Accumulates g (State.score g (answer goal)) start := by
  obtain ⟨pool, m, expanded, admitted, -⟩ := level_advanced advanced
  intro node hn
  exact accumulates_of_expandAll answers (by simp) accumulate expanded node (admitted node hn).1

/-- What a level goes on with is part of the sorted pool, in the same order. -/
theorem ordered_of_advanced (advanced : level guide g goal width frontier p = (.ok (.advanced next), q)) :
    next.Pairwise fun a b => ¬ b.Outranks a := by
  obtain ⟨pool, m, r, expanded, walked, -⟩ := level_eq_ok_iff.mp advanced
  obtain ⟨seen, rest, parts, rfl, -⟩ := walk_advanced walked
  have sorted := (stablySorted_sortByRank pool).ordered
  rw [parts] at sorted
  exact (List.pairwise_append.mp sorted).1.sublist List.filter_sublist

end Levels

section Searches

variable (answers : guide.Answers g answer memory)

include answers

theorem Comes.accumulate (begun : Begins guide g c task memory k p) (come : Comes guide g c task k p depth frontier q) :
    ∀ node ∈ frontier, node.Accumulates g (State.score g (answer task.goal)) task.start := by
  induction come with
  | first =>
      intro node hn
      rw [List.mem_singleton.mp hn]
      exact Node.accumulates_root g _ task.start
  | next come passes ih =>
      exact accumulates_of_advanced (answers.later (begun.reaches.trans come.reaches)) ih passes.advanced

omit answers in
theorem Comes.ordered (come : Comes guide g c task k p depth frontier q) :
    frontier.Pairwise fun a b => ¬ b.Outranks a := by
  cases come with
  | first => exact List.pairwise_singleton _ _
  | next come passes => exact ordered_of_advanced passes.advanced

/-- The rank of a solution is that of its program. Under a guide whose answers depend on nothing but the goal and the
state, the steps of a solution, taken from the inputs, add up to its rank, each by the weights of the state before it.
So do those of every node of every frontier, which lead to the state of the node as well; and no node of a frontier
outranks one before it. -/
theorem search_accumulates :
    (∀ s q, search guide g c task memory = (.ok (.solved s), q) →
      ∃ last, task.goal.isReachedBy last = true ∧
        Ranking.along g (State.score g (answer task.goal)) task.start s.program = some (last, s.rank)) ∧
    ∀ k p depth frontier q, Begins guide g c task memory k p → Comes guide g c task k p depth frontier q →
      (∀ node ∈ frontier, node.Accumulates g (State.score g (answer task.goal)) task.start) ∧
        frontier.Pairwise fun a b => ¬ b.Outranks a := by
  constructor
  · intro s q solved
    obtain ⟨-, -, ⟨unsolved, -⟩ | ⟨k, p, -, begun, ended⟩⟩ := search_ends solved
    · cases unsolved
    · obtain ⟨depth, frontier, q, come, ends⟩ := exists_ends ended
      cases ends with
      | @found _ _ _ _ node _ within nonempty found solution =>
          obtain ⟨expr, -, rfl⟩ := Node.solution_eq_ok_iff.mp solution
          have arrived := answers.later (begun.reaches.trans come.reaches)
          exact ⟨node.state, (level_found found).2,
            accumulates_of_found arrived (come.accumulate answers begun) found⟩
  · intro k p depth frontier q begun come
    exact ⟨come.accumulate answers begun, come.ordered⟩

omit answers in
theorem search_accumulates_of_sum :
    (∃ s q last, search .blind .summing {} .ofSum () = (.ok (.solved s), q) ∧
      Ranking.along .summing (State.score .summing fun s => (Guide.blind.predict .summing Task.ofSum.goal s ()).1)
        Task.ofSum.start s.program = some (last, s.rank)) ∧
    ∃ frontier q, Comes (Scorer.guide fun _ => false) .summing .brief .ofFive 0 ⟨{}, (.uniform, 0)⟩ 1 frontier q ∧
      (∀ node ∈ frontier, node.Accumulates .summing
        (State.score .summing fun _ => .ofLogits (.zeros .summing)) Task.ofFive.start) ∧
      frontier.Pairwise fun a b => ¬ b.Outranks a := by
  constructor
  · have answers : Guide.blind.Answers .summing (fun goal s => (Guide.blind.predict .summing goal s ()).1) () :=
      fun _ _ _ _ => rfl
    obtain ⟨s, q, solved⟩ := exists_solution_of_sum
    obtain ⟨last, -, along⟩ := (search_accumulates answers).1 s q solved
    exact ⟨s, q, last, solved, along⟩
  · have covers := Scorer.covers_ofKind .summing 0 .uniform (fun _ => false) 0
    have unstopped := Scorer.unstopped_of_down .summing (.uniform, 0)
    obtain ⟨-, r, unsolved⟩ := none_of_five (c := .brief) covers unstopped (Nat.le_refl _) rfl
    obtain ⟨next, m, passes⟩ := Comes.first.exists_passes (by decide) (List.cons_ne_nil _ _) unsolved
    have come := Comes.first.next passes
    have answers := Scorer.answers_fixed .summing (fun g => .ofLogits (.zeros g)) (fun _ => false) 0
    exact ⟨next, m, come, (search_accumulates answers).2 _ _ _ _ _ .first come⟩

end Searches

end ListSynth
