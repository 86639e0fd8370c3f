import ListSynth.Proofs.Balance
import ListSynth.Proofs.Ranks
/-!
What a level selects from its pool. Of the sorted pool, the first solution and the last node that there is room for
decide: whichever comes first ends the level, and what comes before it has been pruned or admitted.
-/

namespace ListSynth

/-- The next readings of the stop signal find it down. -/
def Guide.Quiet {σ : Type} (guide : Guide σ) : Nat → σ → Prop
  | 0, _ => True
  | n + 1, m => (guide.stopped m).1 = false ∧ guide.Quiet n (guide.stopped m).2

theorem Guide.quiet_blind : ∀ n, blind.Quiet n ()
  | 0 => trivial
  | n + 1 => ⟨rfl, quiet_blind n⟩

namespace Node

def solves (goal : Goal) (node : Node) : Bool := goal.isReachedBy node.state

/-- Neither a solution nor a dead end. -/
def contends (goal : Goal) (node : Node) : Bool := !node.solves goal && node.isOpen goal.minLengths

theorem isOpen_of_contends {goal : Goal} {node : Node} (contends : node.contends goal = true) :
    node.isOpen goal.minLengths = true :=
  (Bool.and_eq_true_iff.mp contends).2

theorem solves_of_contends {goal : Goal} {node : Node} (contends : node.contends goal = true) :
    node.solves goal = false := by
  simpa using (Bool.and_eq_true_iff.mp contends).1

end Node

variable {σ : Type} {guide : Guide σ} {g : Grammar} {goal : Goal} {c : Settings} {task : Task} {memory : σ}
  {p q m start : Progress σ} {frontier pool sorted admitted seen : List Node} {node other : Node}
  {width depth k n : Nat}

section Walk

/-- A walk ends at the first solution, or at the last node that there is room for if that comes before it. -/
theorem walk_selects (goal : Goal) (n : Nat) (admitted : List Node) (quiet : guide.Quiet sorted.length p.memory) :
    (∀ node, sorted[sorted.findIdx (Node.solves goal)]? = some node →
      sorted.findIdx (Node.solves goal) < sorted.findIdxNth (Node.contends goal) n →
      walk guide goal goal.minLengths sorted (n + 1) admitted p = (.found node,
        (sorted.take (sorted.findIdx (Node.solves goal))).foldl
          (fun p node => p.past guide goal.minLengths node) p)) ∧
    (sorted.findIdxNth (Node.contends goal) n ≤ sorted.findIdx (Node.solves goal) →
      walk guide goal goal.minLengths sorted (n + 1) admitted p = (.advanced (admitted.reverse ++
          (sorted.take (sorted.findIdxNth (Node.contends goal) n + 1)).filter (Node.contends goal)),
        (sorted.take (sorted.findIdxNth (Node.contends goal) n + 1)).foldl
          (fun p node => p.past guide goal.minLengths node) p)) := by
  -- both positions fall by one with each node that is passed; the room falls with each that is admitted
  induction sorted generalizing n admitted p with
  | nil => exact ⟨by simp, fun _ => by simp [walk]⟩
  | cons first rest ih =>
      obtain ⟨down, quiet⟩ := quiet
      have later : guide.Quiet rest.length (p.past guide goal.minLengths first).memory := quiet
      rw [walk_cons, down, List.findIdx_cons]
      cases solves : first.solves goal with
      | true =>
          have reached : goal.isReachedBy first.state = true := solves
          have shut : first.contends goal = false := by simp [Node.contends, solves]
          rw [List.findIdxNth_cons_of_neg shut, reached]
          refine ⟨?_, fun late => absurd late (by simp)⟩
          intro node here _
          cases here
          rfl
      | false =>
          have reached : goal.isReachedBy first.state = false := solves
          have same : first.contends goal = first.isOpen goal.minLengths := by simp [Node.contends, solves]
          rw [reached, if_neg Bool.false_ne_true, if_neg Bool.false_ne_true]
          cases isOpen : first.isOpen goal.minLengths with
          | false =>
              have shut : first.contends goal = false := same.trans isOpen
              have fresh : [first].filter (Node.isOpen goal.minLengths) = [] := by simp [isOpen]
              rw [List.findIdxNth_cons_of_neg shut, fresh]
              simpa [shut] using ih n admitted later
          | true =>
              have contends : first.contends goal = true := same.trans isOpen
              have fresh : [first].filter (Node.isOpen goal.minLengths) = [first] := by simp [isOpen]
              rw [fresh]
              cases n with
              | zero =>
                  rw [List.findIdxNth_cons_zero_of_pos contends]
                  exact ⟨by simp, fun _ => by simp [contends]⟩
              | succ n =>
                  rw [List.findIdxNth_cons_succ_of_pos contends]
                  simpa [contends] using ih n (first :: admitted) later

end Walk

section Level

/-- A search comes to expand a frontier, on a level of one of its iterations. -/
structure Arrives (guide : Guide σ) (g : Grammar) (c : Settings) (task : Task) (memory : σ) (k depth : Nat)
    (frontier : List Node) (p : Progress σ) : Prop where
  settings : c.fault? = none
  inputs : task.fault? = none
  within : k < c.iterations.toNat
  deep : depth < c.maxLength.toNat
  nonempty : frontier ≠ []
  comes : ∃ start, Begins guide g c task memory k start ∧ Comes guide g c task k start depth frontier p

theorem Arrives.search_of_found (arrives : Arrives guide g c task memory k depth frontier p)
    (found : level guide g task.goal (c.width k).toNat frontier p = (.ok (.found node), q)) :
    ∃ s, node.solution task.start depth = .ok s ∧ search guide g c task memory = (.ok (.solved s), q) := by
  obtain ⟨start, begun, come⟩ := arrives.comes
  obtain ⟨s, solution, -, solved⟩ := come.exists_solved arrives.deep arrives.nonempty found
  exact ⟨s, solution, search_of_outcome arrives.settings arrives.inputs begun arrives.within solved⟩

theorem Arrives.next {next : List Node} (arrives : Arrives guide g c task memory k depth frontier p)
    (advanced : level guide g task.goal (c.width k).toNat frontier p = (.ok (.advanced next), q))
    (deep : depth + 1 < c.maxLength.toNat) (nonempty : next ≠ []) :
    Arrives guide g c task memory k (depth + 1) next q := by
  obtain ⟨start, begun, come⟩ := arrives.comes
  exact { arrives with
    deep
    nonempty
    comes := ⟨start, begun, come.next ⟨arrives.deep, arrives.nonempty, advanced⟩⟩ }

theorem map_place_of_expanded (expanded : expandAll guide g goal frontier [] p = (.ok pool, m)) :
    pool.map Node.place = frontier.flatMap fun parent => parent.place.offspring g := by
  obtain ⟨broods, rfl, all⟩ := Node.expandAll_eq_ok expanded
  rw [List.reverse_nil, List.flatten_nil, List.nil_append, List.map_flatten, List.flatMap_def]
  refine congrArg List.flatten ?_
  clear expanded
  induction all with
  | nil => rfl
  | cons first rest ih =>
      obtain ⟨p, q, first⟩ := first
      exact congrArg₂ List.cons (Node.expand_place first) ih

theorem counts_of_seen (expanded : expandAll guide g goal frontier [] p = (.ok pool, m)) (seen : List Node) :
    let r := seen.foldl (fun p node => p.past guide goal.minLengths node) m.ranked
    r.tally.leavesPruned = p.tally.leavesPruned + (seen.countP fun node => !node.isOpen goal.minLengths) ∧
      r.tally.lengthPruned = p.tally.lengthPruned +
        (seen.countP fun node => node.state.deadEnd? goal.minLengths = some .overshoot) ∧
      r.tally.nodesAdmitted = p.tally.nodesAdmitted + seen.countP (Node.isOpen goal.minLengths) := by
  obtain ⟨blank, grown⟩ := ((expandAll_places expanded).2.trans m.ranked_grows).trans (foldl_past_grows seen m.ranked)
  dsimp only
  rw [grown, passage_places]
  simp only [Tally.append_eq, Tally.merge, expansion, Nat.zero_add, and_self]

/-- No solution of a sorted list outranks the first. -/
theorem not_outranks_first (ordered : sorted.Pairwise fun a b => ¬ b.Outranks a)
    (first : sorted[sorted.findIdx (Node.solves goal)]? = some node) (member : other ∈ sorted)
    (solves : other.solves goal = true) : ¬ other.Outranks node := by
  obtain ⟨within, here⟩ := List.getElem?_eq_some_iff.mp first
  rw [← List.take_append_drop (sorted.findIdx (Node.solves goal)) sorted] at member
  rcases List.mem_append.mp member with before | after
  · rw [List.false_of_mem_take_findIdx before] at solves
    cases solves
  · have rest := ordered.drop (i := sorted.findIdx (Node.solves goal))
    rw [List.drop_eq_getElem_cons within, here] at after rest
    rcases List.mem_cons.mp after with rfl | later
    · exact other.rank.not_above_self
    · exact List.rel_of_pairwise_cons rest later

theorem filter_isOpen_of_le (late : sorted.findIdxNth (Node.contends goal) n ≤ sorted.findIdx (Node.solves goal)) :
    (sorted.take (sorted.findIdxNth (Node.contends goal) n + 1)).filter (Node.isOpen goal.minLengths) =
      (sorted.take (sorted.findIdxNth (Node.contends goal) n + 1)).filter (Node.contends goal) := by
  refine List.filter_congr ?_
  intro node hn
  have unsolved : node.solves goal = false := by
    rw [List.take_add_one] at hn
    rcases List.mem_append.mp hn with before | last
    · exact List.false_of_mem_take_findIdx (List.take_subset_take_left _ late before)
    · obtain ⟨within, rfl⟩ := List.getElem?_eq_some_iff.mp (Option.mem_toList.mp last)
      exact Node.solves_of_contends (List.pos_findIdxNth_getElem (h := within))
  simp [Node.contends, unsolved]

theorem exists_expandAll_of_map {α : Type} {f : List Node → α} {a : α}
    (h : (expandAll guide g goal frontier [] p).1.toOption.map f = some a) :
    ∃ pool m, expandAll guide g goal frontier [] p = (.ok pool, m) ∧ f pool = a := by
  rcases result : expandAll guide g goal frontier [] p with ⟨e | pool, m⟩
  · rw [result] at h
    cases h
  · rw [result] at h
    exact ⟨pool, m, rfl, Option.some.inj h⟩

/-- What a level selects, for every frontier, width and guide, if the stop signal stays down. Its pool has the children
of the frontier in order. Let the pool be stably sorted by rank, the greatest first, and take the positions of the
first solution and of the node that fills the beam, or the length of the pool where there is none. If the solution
comes first, it is found, no other solution outranks it, and it is the outcome of the search. Otherwise the level
goes on with exactly the nodes up to the second position that are no solutions and no dead ends, in that order. None
that is left out for lack of room outranks one of them, and the dead ends counted are those before the position. -/
theorem level_selects_by_rank (wide : 0 < width)
    (expanded : expandAll guide g task.goal frontier [] p = (.ok pool, m)) (stable : StablySorted pool sorted)
    (quiet : guide.Quiet pool.length m.memory) :
    let i := sorted.findIdx (Node.solves task.goal)
    let j := sorted.findIdxNth (Node.contends task.goal) (width - 1)
    let next := (sorted.take (j + 1)).filter (Node.contends task.goal)
    (pool.map Node.place = frontier.flatMap fun parent => parent.place.offspring g) ∧
    (i < sorted.length ∧ (j = sorted.length ∨ i < j) → ∃ node q, sorted[i]? = some node ∧
      level guide g task.goal width frontier p = (.ok (.found node), q) ∧
      (∀ other ∈ pool, other.solves task.goal = true → ¬ other.Outranks node) ∧
      ∀ {c memory k depth}, Arrives guide g c task memory k depth frontier p → (c.width k).toNat = width →
        ∃ s, node.solution task.start depth = .ok s ∧ search guide g c task memory = (.ok (.solved s), q)) ∧
    (¬ (i < sorted.length ∧ (j = sorted.length ∨ i < j)) → ∃ q,
      level guide g task.goal width frontier p = (.ok (.advanced next), q) ∧
      next.length = min width (sorted.countP (Node.contends task.goal)) ∧
      (∀ other ∈ sorted.drop (j + 1), ∀ node ∈ next, ¬ other.Outranks node) ∧
      q.tally.leavesPruned = p.tally.leavesPruned +
        ((sorted.take j).countP fun node => !node.isOpen task.goal.minLengths) ∧
      q.tally.lengthPruned = p.tally.lengthPruned +
        ((sorted.take j).countP fun node => node.state.deadEnd? task.goal.minLengths = some .overshoot) ∧
      q.tally.nodesAdmitted = p.tally.nodesAdmitted + next.length ∧
      ∀ {c memory k depth}, Arrives guide g c task memory k depth frontier p → (c.width k).toNat = width →
        depth + 1 < c.maxLength.toNat → next ≠ [] → Arrives guide g c task memory k (depth + 1) next q) := by
  obtain rfl := stable.eq_sortByRank
  intro i j next
  have reads : guide.Quiet (sortByRank pool).length m.ranked.memory := stable.perm.length_eq ▸ quiet
  have room : width - 1 + 1 = width := Nat.sub_add_cancel wide
  obtain ⟨found, advanced⟩ := walk_selects task.goal (width - 1) [] reads
  rw [room] at found advanced
  refine ⟨map_place_of_expanded expanded, ?_, ?_⟩
  · rintro ⟨solved, before⟩
    have before : i < j := before.elim (fun all => all ▸ solved) id
    have here := List.getElem?_eq_getElem solved
    have leveled := level_of_walked expanded (found _ here before)
    refine ⟨_, _, here, leveled, ?_, ?_⟩
    · intro other member solves
      exact not_outranks_first stable.ordered here (stable.perm.mem_iff.mpr member) solves
    · rintro c memory k depth arrives rfl
      exact arrives.search_of_found leveled
  · intro otherwise
    -- a position that is missing is the length of the pool, and so comes last
    have late : j ≤ i := by
      have : i ≤ (sortByRank pool).length := List.findIdx_le_length
      have : j ≤ (sortByRank pool).length := List.findIdxNth_le_length
      omega
    have leveled := level_of_walked expanded (advanced late)
    rw [List.reverse_nil, List.nil_append] at leveled
    obtain ⟨leaves, overshoots, admits⟩ := counts_of_seen expanded ((sortByRank pool).take (j + 1))
    have opens : ∀ node : Node, node.contends task.goal = true → (!node.isOpen task.goal.minLengths) = false := by
      intro node contends
      rw [Node.isOpen_of_contends contends]
      rfl
    have fits : ∀ node : Node, node.contends task.goal = true →
        decide (node.state.deadEnd? task.goal.minLengths = some .overshoot) = false := by
      intro node contends
      simp [Option.isNone_iff_eq_none.mp (Node.isOpen_of_contends contends)]
    refine ⟨_, leveled, ?_, ?_, ?_, ?_, ?_, ?_⟩
    · rw [← List.countP_eq_length_filter, countP_take_findIdxNth, room]
    · intro other left node admitted
      have ordered := stable.ordered
      rw [← List.take_append_drop (j + 1) (sortByRank pool)] at ordered
      exact (List.pairwise_append.mp ordered).2.2 node (List.mem_filter.mp admitted).1 other left
    · exact leaves.trans (congrArg _ (countP_take_succ_findIdxNth opens _ _))
    · exact overshoots.trans (congrArg _ (countP_take_succ_findIdxNth fits _ _))
    · refine admits.trans (congrArg _ ?_)
      rw [List.countP_eq_length_filter, filter_isOpen_of_le late]
    · rintro c memory k depth arrives rfl deep nonempty
      exact arrives.next leveled deep nonempty

theorem level_selects_by_rank_of_sum :
    (∃ node s q, Node.solution Task.ofSum.start 0 node = .ok s ∧
      search .blind .summing .brief .ofSum () = (.ok (.solved s), q)) ∧
    ∃ next q, level .blind .summing Task.ofFive.goal 1 [.root Task.ofFive.start] ⟨{}, ()⟩ = (.ok (.advanced next), q) ∧
      next.length = 1 ∧ q.tally.leavesPruned = 1 := by
  constructor
  · have arrives : Arrives .blind .summing .brief .ofSum () 0 0 [.root Task.ofSum.start]
        (Progress.opened ⟨{}, ()⟩ (Settings.brief.width 0).toNat) :=
      ⟨rfl, rfl, by decide, by decide, by decide, _, .first, .first⟩
    obtain ⟨pool, m, expanded, positions⟩ : ∃ pool m, expandAll .blind .summing Task.ofSum.goal
        [.root Task.ofSum.start] [] (Progress.opened ⟨{}, ()⟩ (Settings.brief.width 0).toNat) = (.ok pool, m) ∧
        ((sortByRank pool).findIdx (Node.solves Task.ofSum.goal), (sortByRank pool).length,
          (sortByRank pool).findIdxNth (Node.contends Task.ofSum.goal) ((Settings.brief.width 0).toNat - 1)) =
        (0, 2, 2) := exists_expandAll_of_map (by cbv)
    simp only [Prod.mk.injEq] at positions
    obtain ⟨solution, size, room⟩ := positions
    have wide : 0 < (Settings.brief.width 0).toNat := by decide
    obtain ⟨-, found, -⟩ := level_selects_by_rank wide expanded (stablySorted_sortByRank pool) (Guide.quiet_blind _)
    obtain ⟨node, q, -, -, -, outcome⟩ := found (by rw [solution, size, room]; decide)
    obtain ⟨s, solved⟩ := outcome arrives rfl
    exact ⟨node, s, q, solved⟩
  · obtain ⟨pool, m, expanded, positions⟩ : ∃ pool m, expandAll .blind .summing Task.ofFive.goal
        [.root Task.ofFive.start] [] ⟨{}, ()⟩ = (.ok pool, m) ∧
        ((sortByRank pool).findIdx (Node.solves Task.ofFive.goal), (sortByRank pool).length,
          (sortByRank pool).findIdxNth (Node.contends Task.ofFive.goal) (1 - 1),
          (sortByRank pool).countP (Node.contends Task.ofFive.goal),
          ((sortByRank pool).take 1).countP fun node => !node.isOpen Task.ofFive.goal.minLengths) =
        (2, 2, 1, 1, 1) := exists_expandAll_of_map (by cbv)
    simp only [Prod.mk.injEq] at positions
    obtain ⟨solution, size, room, contenders, leaves⟩ := positions
    obtain ⟨-, -, advanced⟩ :=
      level_selects_by_rank Nat.one_pos expanded (stablySorted_sortByRank pool) (Guide.quiet_blind _)
    obtain ⟨q, leveled, length, -, pruned, -⟩ := advanced (by rw [solution, size, room]; decide)
    refine ⟨_, q, leveled, length.trans (by rw [contenders]; rfl), pruned.trans ?_⟩
    rw [room, leaves]

end Level

end ListSynth
