import ListSynth.Proofs.Visits
/-!
What a scorer is shown in a search, and how often. A transcript is kept beside the memory of a guide; it has each
expanded state that has no empty list, once and in order.
-/

namespace ListSynth

/-- The memory of a guide, with the states that it has been asked about and the weights that it has answered. -/
structure Transcript (σ : Type) where
  memory : σ
  shown : List State
  answers : List Weights

def Transcript.start {σ : Type} (memory : σ) : Transcript σ := ⟨memory, [], []⟩

/-- A guide that answers as the given one does and keeps a transcript. -/
def Guide.recorded {σ : Type} (guide : Guide σ) : Guide (Transcript σ) where
  predict g goal s m :=
    let (w, n) := guide.predict g goal s m.memory
    (w, ⟨n, m.shown ++ [s], m.answers ++ [w]⟩)
  stopped m :=
    let (stop, n) := guide.stopped m.memory
    (stop, { m with memory := n })

variable {σ : Type} {guide : Guide σ} {g : Grammar} {goal : Goal} {s : State} {node : Node} {nodes : List Node}

theorem Guide.maps_recorded (guide : Guide σ) : guide.recorded.Maps guide Transcript.memory where
  predict _ _ _ _ := rfl
  stopped _ := rfl

theorem Weights.isBlank_zeros (g : Grammar) : (zeros g).isBlank = true := by
  have zero : ∀ n, (List.replicate n Number.zero).all Number.isZero = true := by
    intro n
    rw [List.all_replicate]
    split <;> rfl
  simp only [isBlank, zeros, vector_ofFn, zero, List.all_eq_true, implies_true]

section Consult

variable {m : σ}

theorem Guide.consult_of_empty (empty : s.hasEmptyList = true) : guide.consult g goal s m = (Weights.zeros g, m) := by
  rw [Guide.consult, if_pos empty]

theorem Guide.consult_of_full (full : s.hasEmptyList = false) :
    guide.consult g goal s m = guide.predict g goal s m := by
  rw [Guide.consult, full, if_neg Bool.false_ne_true]

end Consult

namespace Progress

section Counts

variable {p q : Progress σ}

theorem past_expansions (guide : Guide σ) (lengths : Option (List Nat)) (node : Node) (p : Progress σ) :
    (p.past guide lengths node).tally.nodesExpanded = p.tally.nodesExpanded ∧
      (p.past guide lengths node).tally.unscoreableStates = p.tally.unscoreableStates := by
  unfold past
  cases node.state.deadEnd? lengths <;> exact ⟨rfl, rfl⟩

theorem ended_expansions (p : Progress σ) (done : LevelEnd) :
    (p.ended done).tally.nodesExpanded = p.tally.nodesExpanded ∧
      (p.ended done).tally.unscoreableStates = p.tally.unscoreableStates ∧ (p.ended done).memory = p.memory := by
  cases done <;> exact ⟨rfl, rfl, rfl⟩

theorem Expands.nodesExpanded (h : Expands guide g goal p nodes q) :
    q.tally.nodesExpanded = p.tally.nodesExpanded + nodes.length := by
  induction h with
  | refl => rfl
  | expanded before node ih =>
      rw [List.length_append, ← Nat.add_assoc, ← ih]
      rfl
  | ranked before ih => exact ih
  | passed before lengths node ih => exact (past_expansions guide lengths node _).1.trans ih
  | ended before done ih => exact (ended_expansions _ done).1.trans ih
  | opened before width ih => exact ih

end Counts

section Transcripts

variable {p q : Progress (Transcript σ)}

/-- One expansion: a state with an empty list is not shown and counts as unscoreable, any other is shown once. -/
theorem expand_recorded (guide : Guide σ) (g : Grammar) (goal : Goal) (node : Node) (p : Progress (Transcript σ)) :
    let q := (node.expand guide.recorded g goal p).2
    (node.state.hasEmptyList = true ∧ q.memory = p.memory ∧
      q.tally.unscoreableStates = p.tally.unscoreableStates + 1) ∨
    (node.state.hasEmptyList = false ∧ q.memory.shown = p.memory.shown ++ [node.state] ∧ ∃ w,
      q.memory.answers = p.memory.answers ++ [w] ∧
      q.tally.unscoreableStates = p.tally.unscoreableStates + [w].countP Weights.isBlank) := by
  have memory : (node.expand guide.recorded g goal p).2.memory =
      (guide.recorded.consult g goal node.state p.memory).2 := rfl
  have blank : (node.expand guide.recorded g goal p).2.tally.unscoreableStates = p.tally.unscoreableStates +
      if (guide.recorded.consult g goal node.state p.memory).1.isBlank then 1 else 0 := rfl
  dsimp only
  rw [memory, blank]
  cases empty : node.state.hasEmptyList with
  | true =>
      rw [Guide.consult_of_empty empty, Weights.isBlank_zeros]
      exact .inl ⟨rfl, rfl, rfl⟩
  | false =>
      rw [Guide.consult_of_full empty]
      refine .inr ⟨rfl, rfl, _, rfl, ?_⟩
      rw [List.countP_singleton]
      rfl

/-- On the way past some nodes a scorer is shown those of their states that have no empty list, in order. -/
theorem Expands.shown (h : Expands guide.recorded g goal p nodes q) :
    q.memory.shown = p.memory.shown ++ (nodes.filter fun node => !node.state.hasEmptyList).map Node.state := by
  induction h with
  | refl => simp
  | @expanded nodes q before node ih =>
      rw [List.filter_append, List.map_append, ← List.append_assoc, ← ih]
      rcases expand_recorded guide g goal node q with ⟨empty, same, -⟩ | ⟨full, more, -⟩
      · simp [empty, same]
      · simp [full, more]
  | ranked before ih => exact ih
  | passed before lengths node ih => exact ih
  | @ended nodes q before done ih => rw [(q.ended_expansions done).2.2, ih]
  | opened before width ih => exact ih

/-- Each state that is shown is answered; what counts as unscoreable are the states with an empty list and the blank
answers. -/
theorem Expands.answered (h : Expands guide.recorded g goal p nodes q) :
    ∃ answers, q.memory.answers = p.memory.answers ++ answers ∧
      answers.length = nodes.countP (fun node => !node.state.hasEmptyList) ∧
      q.tally.unscoreableStates = p.tally.unscoreableStates + nodes.countP (fun node => node.state.hasEmptyList) +
        answers.countP Weights.isBlank := by
  induction h with
  | refl => exact ⟨[], by simp⟩
  | @expanded nodes q before node ih =>
      obtain ⟨answers, all, length, count⟩ := ih
      rcases expand_recorded guide g goal node q with ⟨empty, same, blank⟩ | ⟨full, -, w, more, blank⟩
      · refine ⟨answers, by rw [same, all], by simp [empty, length], ?_⟩
        rw [blank, count, List.countP_append, List.countP_singleton, empty, if_pos rfl]
        omega
      · refine ⟨answers ++ [w], by rw [more, all, List.append_assoc], by simp [full, length], ?_⟩
        rw [blank, count, List.countP_append, List.countP_append, List.countP_singleton (a := node), full,
          if_neg Bool.false_ne_true]
        omega
  | ranked before ih => exact ih
  | @passed nodes q before lengths node ih =>
      obtain ⟨answers, all, length, count⟩ := ih
      exact ⟨answers, all, length, (past_expansions _ lengths node q).2.trans count⟩
  | @ended nodes q before done ih =>
      obtain ⟨answers, all, length, count⟩ := ih
      obtain ⟨-, blank, memory⟩ := q.ended_expansions done
      exact ⟨answers, by rw [memory, all], length, blank.trans count⟩
  | opened before width ih => exact ih

end Transcripts

end Progress

/-- A node that is no dead end has lists only, and none of them is shorter than the component of the goal at its place
if the first component of the goal is a list. -/
structure Node.Hopeful (goal : Goal) (node : Node) : Prop where
  scalar : node.state.hasScalar = false
  length : ∀ items, goal.components.head? = some (.list items) → ∀ slot ∈ node.state,
    ∀ (k : Nat) (xs ys : List Value), slot.components[k]? = some (.list xs) →
      goal.components[k]? = some (.list ys) → ys.length ≤ xs.length

theorem Node.hopeful_of_isOpen (isOpen : node.isOpen goal.minLengths = true) : node.Hopeful goal := by
  obtain ⟨scalar, fits⟩ := State.deadEnd?_eq_none_iff.mp (Option.isNone_iff_eq_none.mp isOpen)
  refine ⟨scalar, ?_⟩
  intro items first slot hs k xs ys value wanted
  have least : (goal.components.map Value.length)[k]? = some ys.length := by
    rw [List.getElem?_map, wanted]
    rfl
  exact Slot.length_le_of_overshoots (fits _ (Goal.minLengths_of_list first) slot hs) value least

section Search

variable {c : Settings} {task : Task}

theorem hopeful_of_searchVisits {p : Progress σ} :
    ∀ node ∈ searchVisits guide g c task p, node = .root task.start ∨ node.Hopeful task.goal :=
  forall_searchVisits (fun _ _ isOpen => .inr (Node.hopeful_of_isOpen isOpen)) (.inl rfl)

/-- A scorer is asked once for each node that is expanded, in that order, but never about a state with an empty list,
and whatever else happens in the search. So its calls are the expanded nodes without those that have an empty list,
and what counts as unscoreable are these and the blank answers. Apart from the root, no expanded node has a scalar or
falls short of the goal. -/
theorem scorer_consulted_once_per_node (guide : Guide σ) (g : Grammar) (c : Settings) (task : Task) (t : Tally)
    (memory : σ) :
    let nodes := searchVisits guide g c task ⟨t, memory⟩
    let run := searchAgain guide.recorded g c task ⟨t, .start memory⟩
    let unseen := nodes.countP fun node => node.state.hasEmptyList
    searchAgain guide g c task ⟨t, memory⟩ = run.map id (Progress.map Transcript.memory) ∧
    run.2.memory.shown = (nodes.filter fun node => !node.state.hasEmptyList).map Node.state ∧
    run.2.memory.answers.length = run.2.memory.shown.length ∧
    run.2.tally.nodesExpanded = nodes.length ∧
    run.2.tally.nodesExpanded = run.2.memory.shown.length + unseen ∧
    run.2.tally.unscoreableStates = unseen + run.2.memory.answers.countP Weights.isBlank ∧
    ∀ node ∈ nodes, node ≠ .root task.start → node.Hopeful task.goal := by
  intro nodes run unseen
  have same : nodes = searchVisits guide.recorded g c task ⟨t, .start memory⟩ :=
    guide.maps_recorded.searchVisits ⟨t, .start memory⟩
  have expands : Progress.Expands guide.recorded g task.goal ⟨{}, .start memory⟩ nodes run.2 := by
    rw [same]
    exact search_expands guide.recorded g c task ⟨t, .start memory⟩
  have shown : run.2.memory.shown = (nodes.filter fun node => !node.state.hasEmptyList).map Node.state :=
    expands.shown
  have calls : run.2.memory.shown.length = nodes.countP fun node => !node.state.hasEmptyList := by
    rw [shown, List.length_map, List.countP_eq_length_filter]
  have expanded : run.2.tally.nodesExpanded = nodes.length := expands.nodesExpanded.trans (Nat.zero_add _)
  obtain ⟨answers, all, length, count⟩ := expands.answered
  have all : run.2.memory.answers = answers := all
  refine ⟨guide.maps_recorded.search (.start memory), shown, ?_, expanded, ?_, ?_, ?_⟩
  · rw [all, length, calls]
  · rw [expanded, calls, Nat.add_comm]
    simpa using nodes.length_eq_countP_add_countP fun node => node.state.hasEmptyList
  · rw [count, all]
    exact congrArg (· + answers.countP Weights.isBlank) (Nat.zero_add unseen)
  · intro node hn other
    exact (hopeful_of_searchVisits node hn).resolve_left other

end Search

end ListSynth
