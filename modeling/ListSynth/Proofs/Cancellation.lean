import ListSynth.Proofs.Course
import ListSynth.Proofs.Places
import ListSynth.Proofs.Ranks
/-!
Searches that are asked to stop. The signal is read after a node has been looked at; since every level that is
expanded has a node to look at, a signal that is up when a level has been expanded stops the search there.
-/

namespace ListSynth

variable {σ : Type} {guide : Guide σ} {g : Grammar} {goal : Goal} {c : Settings} {task : Task} {memory : σ}
  {p q m r : Progress σ} {frontier pool rest : List Node} {node first : Node} {width depth k : Nat}

section Pools

theorem State.Moves.ne_nil {s s' : State} {step : Step} (move : s.Moves step s') (nonempty : s ≠ []) : s' ≠ [] := by
  obtain ⟨x, hx⟩ := List.exists_mem_of_ne_nil s nonempty
  obtain ⟨y, hy, -⟩ := move.exists_slot (P := fun _ => True) (fun _ _ => trivial) ⟨x, hx, trivial⟩
  exact List.ne_nil_of_mem hy

/-- Copying always applies, so a pool is never empty. -/
theorem exists_sorted_of_expanded (expanded : expandAll guide g goal frontier [] p = (.ok pool, q))
    (nonempty : frontier ≠ []) (states : ∀ node ∈ frontier, node.state ≠ []) :
    ∃ first rest, sortByRank pool = first :: rest := by
  obtain ⟨node, hn⟩ := List.exists_mem_of_ne_nil frontier nonempty
  have range : 0 < node.state.length := List.length_pos_iff.mpr (states node hn)
  have candidate : Step.mk .copy [0] ∈ g.candidates node.state.length :=
    Grammar.mem_candidates_iff.mpr ⟨Grammar.copy_mem_combinators, .single (by decide) range⟩
  have taken := State.after_copy (List.getElem?_eq_getElem range)
  obtain ⟨weight, child⟩ := Node.exists_mem_expandAll expanded hn candidate taken
  exact List.exists_cons_of_ne_nil (List.ne_nil_of_mem (mem_sortByRank.mpr child))

theorem Comes.states_ne_nil (come : Comes guide g c task k p depth frontier q) (inputs : task.fault? = none) :
    ∀ node ∈ frontier, node.state ≠ [] := by
  intro node hn
  have start : task.start ≠ [] := by
    have given := Task.fault?_eq_none_iff.mp inputs
    simpa [Task.start, State.ofInputs] using given
  exact State.run_keeps (P := (· ≠ [])) (fun move => move.ne_nil) (come.grounded node hn).1.run start

end Pools

section Signals

/-- The stop signal goes up while a frontier is expanded: an answer for one of its nodes leaves it up for good. -/
inductive GoesUp (guide : Guide σ) (g : Grammar) (goal : Goal) : List Node → Progress σ → Prop
  | here {node : Node} {rest : List Node} {p : Progress σ} (shown : node.state.hasEmptyList = false)
      (raised : guide.Raised g (guide.predict g goal node.state p.memory).2) : GoesUp guide g goal (node :: rest) p
  | later {node : Node} {rest children : List Node} {p q : Progress σ}
      (expanded : node.expand guide g goal p = (.ok children, q)) (up : GoesUp guide g goal rest q) :
      GoesUp guide g goal (node :: rest) p

theorem GoesUp.nonempty (up : GoesUp guide g goal frontier p) : frontier ≠ [] := by
  cases up <;> exact List.cons_ne_nil _ _

theorem GoesUp.raised {broods : List (List Node)} (up : GoesUp guide g goal frontier p)
    (expanded : expandAll guide g goal frontier broods p = (.ok pool, q)) : guide.Raised g q.memory := by
  induction up generalizing broods with
  | @here node rest p shown raised =>
      have after : (node.expand guide g goal p).2.memory = (guide.predict g goal node.state p.memory).2 := by
        simp [Node.expand, Guide.consult, shown]
      rw [expandAll] at expanded
      split at expanded
      · cases expanded
      · rename_i children m first
        rw [first] at after
        exact Guide.Always.later raised (after ▸ (expandAll_changes expanded).reaches)
  | later first up ih =>
      rw [expandAll, first] at expanded
      exact ih expanded

/-- With the signal up, a level ends at the first node of its sorted pool. -/
theorem level_of_raised (expanded : expandAll guide g goal frontier [] p = (.ok pool, m))
    (sorted : sortByRank pool = first :: rest) (raised : guide.Raised g m.memory) (width : Nat) :
    (goal.isReachedBy first.state = true ∧ level guide g goal width frontier p = (.ok (.found first), m.ranked)) ∨
      (goal.isReachedBy first.state = false ∧ level guide g goal width frontier p =
        (.ok .cancelled, m.ranked.past guide goal.minLengths first)) := by
  have up : (guide.stopped m.ranked.memory).1 = true := raised.now
  cases reached : goal.isReachedBy first.state with
  | true =>
      have walked : walk guide goal goal.minLengths (sortByRank pool) width [] m.ranked =
          (.found first, m.ranked) := by
        rw [sorted, walk_cons, reached, if_pos rfl]
      exact .inl ⟨rfl, level_of_walked expanded walked⟩
  | false =>
      have walked : walk guide goal goal.minLengths (sortByRank pool) width [] m.ranked =
          (.cancelled, m.ranked.past guide goal.minLengths first) := by
        rw [sorted, walk_cons, reached, if_neg Bool.false_ne_true, up, if_pos rfl]
      exact .inr ⟨rfl, level_of_walked expanded walked⟩

end Signals

section Stops

/-- A search that has come to a level stops there. The whole frontier is still expanded, and nothing after it; of the
sorted pool only the first node is looked at, which is the solution or else the one leaf pruned or node admitted. -/
structure StopsIn (guide : Guide σ) (g : Grammar) (task : Task) (depth : Nat) (frontier : List Node)
    (q : Progress σ) (outcome : Outcome) (r : Progress σ) : Prop where
  nodes : r.tally.nodesExpanded = q.tally.nodesExpanded + frontier.length
  levels : r.tally.levelsExpanded = q.tally.levelsExpanded + 1
  iterations : r.tally.iterationsRun = q.tally.iterationsRun
  first : ∃ pool m first rest, expandAll guide g task.goal frontier [] q = (.ok pool, m) ∧
    StablySorted pool (first :: rest) ∧
    ((task.goal.isReachedBy first.state = true ∧
        ∃ s, first.solution task.start depth = .ok s ∧ outcome = .solved s) ∨
      (task.goal.isReachedBy first.state = false ∧ outcome = .cancelled ∧
        r.tally.leavesPruned + r.tally.nodesAdmitted = q.tally.leavesPruned + q.tally.nodesAdmitted + 1))

theorem expandAll_counts (expanded : expandAll guide g goal frontier [] p = (.ok pool, m)) :
    m.tally.nodesExpanded = p.tally.nodesExpanded + frontier.length ∧
      m.tally.levelsExpanded = p.tally.levelsExpanded ∧ m.tally.iterationsRun = p.tally.iterationsRun ∧
      m.tally.leavesPruned = p.tally.leavesPruned ∧ m.tally.nodesAdmitted = p.tally.nodesAdmitted := by
  obtain ⟨blank, grown⟩ := (expandAll_places expanded).2
  rw [grown, ← card_places]
  exact ⟨rfl, rfl, rfl, rfl, rfl⟩

theorem Progress.past_counts (guide : Guide σ) (lengths : Option (List Nat)) (node : Node) (p : Progress σ) :
    let q := p.past guide lengths node
    q.tally.nodesExpanded = p.tally.nodesExpanded ∧ q.tally.levelsExpanded = p.tally.levelsExpanded ∧
      q.tally.iterationsRun = p.tally.iterationsRun ∧
      q.tally.leavesPruned + q.tally.nodesAdmitted = p.tally.leavesPruned + p.tally.nodesAdmitted + 1 := by
  unfold Progress.past
  cases node.state.deadEnd? lengths with
  | none => exact ⟨rfl, rfl, rfl, rfl⟩
  | some why => exact ⟨rfl, rfl, rfl, Nat.add_right_comm _ _ _⟩

variable (settings : c.fault? = none) (inputs : task.fault? = none) (covers : guide.Covers g memory)

include settings inputs covers

/-- A search whose signal is up once a level has been expanded stops in that level. -/
theorem stopsIn_of_raised (within : k < c.iterations.toNat) (begun : Begins guide g c task memory k p)
    (come : Comes guide g c task k p depth frontier q) (deep : depth < c.maxLength.toNat)
    (nonempty : frontier ≠ [])
    (raised : ∀ pool m, expandAll guide g task.goal frontier [] q = (.ok pool, m) → guide.Raised g m.memory) :
    ∃ outcome r, search guide g c task memory = (.ok outcome, r) ∧ outcome ≠ .exhausted ∧
      StopsIn guide g task depth frontier q outcome r := by
  have coversHere : guide.Covers g q.memory := covers.later (begun.reaches.trans come.reaches)
  obtain ⟨pool, m, expanded⟩ := exists_expandAll coversHere task.goal frontier []
  obtain ⟨first, rest, sorted⟩ := exists_sorted_of_expanded expanded nonempty (come.states_ne_nil inputs)
  obtain ⟨nodes, levels, iterations, pruned, admitted⟩ := expandAll_counts expanded
  have ordered : StablySorted pool (first :: rest) := sorted ▸ stablySorted_sortByRank pool
  rcases level_of_raised expanded sorted (raised pool m expanded) (c.width k).toNat with
    ⟨reached, found⟩ | ⟨unreached, cancelled⟩
  · obtain ⟨s, solution, -, solved⟩ := come.exists_solved deep nonempty found
    refine ⟨.solved s, m.ranked, search_of_outcome settings inputs begun within solved, by simp, ?_⟩
    exact ⟨nodes, congrArg (· + 1) levels, iterations, pool, m, first, rest, expanded, ordered,
      .inl ⟨reached, s, solution, rfl⟩⟩
  · have stopped := come.iteration_of_cancelled deep nonempty cancelled
    obtain ⟨nodes', levels', iterations', one⟩ := m.ranked.past_counts guide task.goal.minLengths first
    refine ⟨.cancelled, _, search_of_outcome settings inputs begun within stopped, by simp, ?_⟩
    refine ⟨nodes'.trans nodes, levels'.trans (congrArg (· + 1) levels), iterations'.trans iterations, pool, m, first,
      rest, expanded, ordered, .inr ⟨unreached, rfl, ?_⟩⟩
    rw [one, ← pruned, ← admitted]
    rfl

/-- A stop signal stops a search within one node of the level that it is in. Where the signal is up from the start, or
goes up while a level of some iteration is expanded, the search comes to an outcome in the first level, or in that
level; and never is the outcome that the search is exhausted. -/
theorem raised_signal_stops_in_level (levels : 0 < c.maxLength.toNat) :
    (guide.Raised g memory → ∃ outcome r, search guide g c task memory = (.ok outcome, r) ∧ outcome ≠ .exhausted ∧
      StopsIn guide g task 0 [.root task.start] (Progress.opened ⟨{}, memory⟩ (c.width 0).toNat) outcome r) ∧
    (∀ k p depth frontier q, k < c.iterations.toNat → Begins guide g c task memory k p →
      Comes guide g c task k p depth frontier q → depth < c.maxLength.toNat → GoesUp guide g task.goal frontier q →
      ∃ outcome r, search guide g c task memory = (.ok outcome, r) ∧ outcome ≠ .exhausted ∧
        StopsIn guide g task depth frontier q outcome r) := by
  constructor
  · intro raised
    have within := Settings.iterations_pos settings
    exact stopsIn_of_raised settings inputs covers within .first .first levels (List.cons_ne_nil _ _)
      fun pool m expanded => raised.later (expandAll_changes expanded).reaches
  · intro k p depth frontier q within begun come deep up
    exact stopsIn_of_raised settings inputs covers within begun come deep up.nonempty fun pool m => up.raised

end Stops

section Fives

/-- A session whose scorer has no number for any choice, and whose signal goes up with the given call. -/
def Session.blind (call : Nat) : Session :=
  { Session.ofScorer (.fixed fun g => .ofFn fun k => List.replicate (k.choices g) .undefined) with
    stopAtCall := some call }

theorem Session.covers_blind (g : Grammar) (call : Nat) : Session.guide.Covers g (.blind call) := by
  have fixed : Session.guide.Always g (fun m => m.scorer = (Session.blind call).scorer) (.blind call) := by
    refine Guide.always_of_keeps ?_ ?_ rfl
    · intro m goal s same
      simp [guide, predict, same, blind, ofScorer, Scorer.answer]
    · intro m same
      exact same
  intro m reached goal s k _
  simp [guide, predict, fixed m reached, blind, ofScorer, Scorer.answer]

/-- Once the signal of a session is up it stays up. -/
theorem Session.raised_of_stop {g : Grammar} {m : Session} (stop : m.stop = true) : Session.guide.Raised g m := by
  refine Guide.always_of_keeps ?_ ?_ stop
  · intro m goal s up
    simp only [guide, stopped] at up
    simp [guide, stopped, predict, up]
  · intro m up
    exact up

/-- The frontier that a level goes on with. -/
def LevelEnd.frontier? : LevelEnd → Option (List Node)
  | .advanced next => some next
  | _ => none

/-- The first level of a session whose signal goes up on the second. -/
def Session.firstLevel : Except RankingError LevelEnd × Progress Session :=
  level Session.guide .summing Task.ofFive.goal (Settings.brief.width 0).toNat [.root Task.ofFive.start]
    (Progress.opened ⟨{}, .blind 2⟩ (Settings.brief.width 0).toNat)

theorem exists_passes_of_five : ∃ node q,
    Passes Session.guide .summing .brief .ofFive 0 0 [.root Task.ofFive.start]
      (Progress.opened ⟨{}, .blind 2⟩ (Settings.brief.width 0).toNat) [node] q ∧
    node.state.hasEmptyList = false ∧ q.memory.stopAtCall = some (q.memory.calls + 1) ∧
      q.tally.levelsExpanded = 1 := by
  have shown : (Session.firstLevel.1.toOption.bind LevelEnd.frontier?).map
      (List.map fun node => node.state.hasEmptyList) = some [false] := by cbv
  have call : Session.firstLevel.2.memory.stopAtCall = some (Session.firstLevel.2.memory.calls + 1) := by cbv
  have one : Session.firstLevel.2.tally.levelsExpanded = 1 := by cbv
  rcases advanced : Session.firstLevel with ⟨e | (node | _ | next), q⟩
  all_goals rw [advanced] at shown call one
  all_goals simp [Except.toOption, LevelEnd.frontier?] at shown
  obtain ⟨node, rfl, shown⟩ := shown
  exact ⟨node, q, ⟨by decide, by simp, advanced⟩, shown, call, one⟩

theorem raised_signal_stops_in_level_of_five :
    (∃ outcome r, search (Scorer.guide fun _ => true) .summing .brief .ofFive (.uniform, 0) = (.ok outcome, r) ∧
      outcome ≠ .exhausted ∧ r.tally.levelsExpanded = 1) ∧
    ∃ outcome r, search Session.guide .summing .brief .ofFive (.blind 2) = (.ok outcome, r) ∧
      outcome ≠ .exhausted ∧ r.tally.levelsExpanded = 2 := by
  have settings : Settings.brief.fault? = none := rfl
  have inputs : Task.ofFive.fault? = none := rfl
  have levels : 0 < Settings.brief.maxLength.toNat := by decide
  constructor
  · have covers := Scorer.covers_ofKind .summing 0 .uniform (fun _ => true) 0
    obtain ⟨outcome, r, result, unexhausted, stops⟩ :=
      (raised_signal_stops_in_level settings inputs covers levels).1 fun _ _ => rfl
    exact ⟨outcome, r, result, unexhausted, stops.levels⟩
  · obtain ⟨node, q, passes, shown, next, one⟩ := exists_passes_of_five
    have up : GoesUp Session.guide .summing Task.ofFive.goal [node] q := by
      refine .here shown (Session.raised_of_stop ?_)
      simp [Session.guide, Session.predict, next]
    obtain ⟨outcome, r, result, unexhausted, stops⟩ :=
      (raised_signal_stops_in_level settings inputs (Session.covers_blind .summing 2) levels).2 0 _ 1 _ q (by decide)
        .first (Comes.first.next passes) (by decide) up
    exact ⟨outcome, r, result, unexhausted, stops.levels.trans (congrArg (· + 1) one)⟩

end Fives

end ListSynth
