import ListSynth.Proofs.Outcomes
/-!
The course of an iteration: the levels that it comes to, one after another, and how the end of a level is the end of
the iteration and of the search.
-/

namespace ListSynth

variable {σ : Type} {guide : Guide σ} {g : Grammar} {goal : Goal} {c : Settings} {task : Task} {memory : σ}
  {p q r : Progress σ} {frontier next : List Node} {node : Node} {s : Solution} {width remaining depth k : Nat}

section Signals

/-- From a memory on, every reading of the stop signal finds it down. -/
def Guide.Unstopped (guide : Guide σ) (g : Grammar) : σ → Prop :=
  guide.Always g fun n => (guide.stopped n).1 = false

/-- From a memory on, every reading of the stop signal finds it up. -/
def Guide.Raised (guide : Guide σ) (g : Grammar) : σ → Prop :=
  guide.Always g fun n => (guide.stopped n).1 = true

theorem Guide.covers_blind (g : Grammar) : blind.Covers g () := by
  intro m _ goal s k _
  simp [blind]

theorem Guide.unstopped_blind (g : Grammar) : blind.Unstopped g () := fun _ _ => rfl

theorem Scorer.unstopped_of_down (g : Grammar) (m : Scorer × Nat) :
    (Scorer.guide fun _ => false).Unstopped g m := fun _ _ => rfl

theorem walk_ne_cancelled {lengths : Option (List Nat)} {pool admitted : List Node} {room : Nat}
    (unstopped : guide.Unstopped g p.memory) : walk guide goal lengths pool room admitted p ≠ (.cancelled, q) := by
  intro h
  induction pool generalizing room admitted p with
  | nil => cases h
  | cons first rest ih =>
      have down : (guide.stopped p.memory).1 = false := unstopped.now
      rw [walk_cons, down, if_neg Bool.false_ne_true] at h
      split at h
      · cases h
      · dsimp only at h
        split at h
        · cases h
        · exact ih (unstopped.later (Progress.Change.passed lengths first).reaches) h

theorem level_ne_cancelled (unstopped : guide.Unstopped g p.memory) :
    level guide g goal width frontier p ≠ (.ok .cancelled, q) := by
  intro h
  obtain ⟨pool, m, r, expanded, walked, -⟩ := level_eq_ok_iff.mp h
  have still := unstopped.later (expandAll_changes expanded).reaches
  exact absurd walked (walk_ne_cancelled still)

/-- A level that has ranks for all children and is not asked to stop finds a solution or goes on. -/
theorem level_cases (covers : guide.Covers g p.memory) (unstopped : guide.Unstopped g p.memory) (goal : Goal)
    (width : Nat) (frontier : List Node) :
    (∃ node q, level guide g goal width frontier p = (.ok (.found node), q)) ∨
      ∃ next q, level guide g goal width frontier p = (.ok (.advanced next), q) := by
  obtain ⟨done, q, leveled⟩ := exists_level covers goal width frontier
  cases done with
  | found node => exact .inl ⟨node, q, leveled⟩
  | cancelled => exact absurd leveled (level_ne_cancelled unstopped)
  | advanced next => exact .inr ⟨next, q, leveled⟩

theorem levels_ne_cancelled (unstopped : guide.Unstopped g p.memory) :
    levels guide g task width remaining depth frontier p ≠ (.ok (some .cancelled), q) := by
  intro h
  induction remaining generalizing depth frontier p with
  | zero => cases h
  | succ remaining ih =>
      rw [levels] at h
      split at h
      · cases h
      · split at h
        · cases h
        · rename_i node m found
          cases solution : node.solution task.start depth <;> simp [solution, Except.map] at h
        · rename_i m cancelled
          exact level_ne_cancelled unstopped cancelled
        · rename_i next m advanced
          exact ih (unstopped.later (level_changes advanced).reaches) h

end Signals

section Levels

/-- An iteration passes a level: it has a frontier to expand there, and goes on with another. -/
structure Passes (guide : Guide σ) (g : Grammar) (c : Settings) (task : Task) (k depth : Nat)
    (frontier : List Node) (q : Progress σ) (next : List Node) (r : Progress σ) : Prop where
  within : depth < c.maxLength.toNat
  nonempty : frontier ≠ []
  advanced : level guide g task.goal (c.width k).toNat frontier q = (.ok (.advanced next), r)

/-- An iteration that begins with the given progress comes to a level: it has passed all the levels before. -/
inductive Comes (guide : Guide σ) (g : Grammar) (c : Settings) (task : Task) (k : Nat) (p : Progress σ) :
    Nat → List Node → Progress σ → Prop
  | first : Comes guide g c task k p 0 [.root task.start] (p.opened (c.width k).toNat)
  | next {depth : Nat} {frontier next : List Node} {q r : Progress σ}
      (come : Comes guide g c task k p depth frontier q)
      (passes : Passes guide g c task k depth frontier q next r) : Comes guide g c task k p (depth + 1) next r

theorem levels_of_nonempty (nonempty : frontier ≠ []) :
    levels guide g task width (remaining + 1) depth frontier p =
      match level guide g task.goal width frontier p with
      | (.error e, p) => (.error (.ranking e), p)
      | (.ok (.found node), p) => ((node.solution task.start depth).map fun s => some (.solved s), p)
      | (.ok .cancelled, p) => (.ok (some .cancelled), p)
      | (.ok (.advanced next), p) => levels guide g task width remaining (depth + 1) next p :=
  if_neg (by simpa using nonempty)

namespace Comes

variable (come : Comes guide g c task k p depth frontier q)

include come

/-- What an iteration still has to do from a level on. -/
theorem iteration_eq (limit : depth + remaining = c.maxLength.toNat) :
    iteration guide g c task k p = levels guide g task (c.width k).toNat remaining depth frontier q := by
  induction come generalizing remaining with
  | first =>
      rw [Nat.zero_add] at limit
      rw [limit]
      rfl
  | next come passes ih =>
      have before : _ = levels guide g task (c.width k).toNat (remaining + 1) _ _ _ := ih (by omega)
      rw [before, levels_of_nonempty passes.nonempty, passes.advanced]

theorem iteration_of_level (within : depth < c.maxLength.toNat) :
    ∃ remaining, iteration guide g c task k p =
      levels guide g task (c.width k).toNat (remaining + 1) depth frontier q := by
  obtain ⟨remaining, limit⟩ := Nat.exists_eq_add_of_lt within
  exact ⟨remaining, come.iteration_eq (by omega)⟩

theorem iteration_of_cancelled (within : depth < c.maxLength.toNat) (nonempty : frontier ≠ [])
    (cancelled : level guide g task.goal (c.width k).toNat frontier q = (.ok .cancelled, r)) :
    iteration guide g c task k p = (.ok (some .cancelled), r) := by
  obtain ⟨remaining, rest⟩ := come.iteration_of_level within
  rw [rest, levels_of_nonempty nonempty, cancelled]

/-- An iteration that ends without an outcome passes every level that it comes to and has a frontier for. -/
theorem exists_passes (within : depth < c.maxLength.toNat) (nonempty : frontier ≠ [])
    (ended : iteration guide g c task k p = (.ok none, r)) :
    ∃ next m, Passes guide g c task k depth frontier q next m := by
  obtain ⟨remaining, rest⟩ := come.iteration_of_level within
  rw [rest, levels_of_nonempty nonempty] at ended
  split at ended
  · cases ended
  · rename_i node m found
    cases solution : node.solution task.start depth <;> simp [solution, Except.map] at ended
  · cases ended
  · rename_i next m advanced
    exact ⟨next, m, within, nonempty, advanced⟩

theorem grounded : ∀ node ∈ frontier, node.Grounded g task.start ∧ node.depth = depth := by
  induction come with
  | first => exact Node.grounded_of_root task.start
  | next come passes ih => exact grounded_of_advanced passes.advanced ih

/-- A node that is found on a level is the solution of the iteration, of the depth of the level. -/
theorem exists_solved (within : depth < c.maxLength.toNat) (nonempty : frontier ≠ [])
    (found : level guide g task.goal (c.width k).toNat frontier q = (.ok (.found node), r)) :
    ∃ s, node.solution task.start depth = .ok s ∧ s.depth = depth ∧
      iteration guide g c task k p = (.ok (some (.solved s)), r) := by
  obtain ⟨s, solution⟩ := exists_solution_of_found found come.grounded
  obtain ⟨remaining, rest⟩ := come.iteration_of_level within
  refine ⟨s, solution, ?_, ?_⟩
  · obtain ⟨expr, -, rfl⟩ := Node.solution_eq_ok_iff.mp solution
    rfl
  · rw [rest, levels_of_nonempty nonempty, found]
    dsimp only
    rw [solution]
    rfl

theorem reaches : guide.Reaches g p.memory q.memory := by
  induction come with
  | first => exact .refl
  | next come passes ih => exact ih.trans (level_changes passes.advanced).reaches

/-- An iteration that is solved comes to the level of the solution, and finds it there. -/
theorem exists_found (limit : depth + remaining = c.maxLength.toNat)
    (solved : levels guide g task (c.width k).toNat remaining depth frontier q = (.ok (some (.solved s)), r)) :
    ∃ frontier q node, Comes guide g c task k p s.depth frontier q ∧ s.depth < c.maxLength.toNat ∧
      frontier ≠ [] ∧ level guide g task.goal (c.width k).toNat frontier q = (.ok (.found node), r) := by
  induction remaining generalizing depth frontier q with
  | zero => cases solved
  | succ remaining ih =>
      have within : depth < c.maxLength.toNat := by omega
      by_cases empty : frontier = []
      · subst empty
        cases solved
      · rw [levels_of_nonempty empty] at solved
        split at solved
        · cases solved
        · rename_i node m found
          simp only [Prod.mk.injEq, map_eq_ok_iff, Option.some.injEq, Outcome.solved.injEq] at solved
          obtain ⟨⟨s', solution, rfl⟩, rfl⟩ := solved
          obtain ⟨expr, -, rfl⟩ := Node.solution_eq_ok_iff.mp solution
          exact ⟨frontier, q, node, come, within, empty, found⟩
        · cases solved
        · rename_i next m advanced
          exact ih (come.next ⟨within, empty, advanced⟩) (by omega) solved

end Comes

theorem exists_comes_of_solved (solved : iteration guide g c task k p = (.ok (some (.solved s)), r)) :
    ∃ frontier q node, Comes guide g c task k p s.depth frontier q ∧ s.depth < c.maxLength.toNat ∧
      frontier ≠ [] ∧ level guide g task.goal (c.width k).toNat frontier q = (.ok (.found node), r) :=
  Comes.first.exists_found (Nat.zero_add _) solved

/-- An iteration ends on a level that it has come to: there are no more levels, or no nodes to expand, or the level ends
with a solution or is stopped. -/
inductive Ends (guide : Guide σ) (g : Grammar) (c : Settings) (task : Task) (k : Nat) :
    Nat → List Node → Progress σ → Option Outcome → Progress σ → Prop
  | out {frontier : List Node} {q : Progress σ} : Ends guide g c task k c.maxLength.toNat frontier q none q
  | dry {depth : Nat} {q : Progress σ} (within : depth < c.maxLength.toNat) : Ends guide g c task k depth [] q none q
  | found {depth : Nat} {frontier : List Node} {q r : Progress σ} {node : Node} {s : Solution}
      (within : depth < c.maxLength.toNat) (nonempty : frontier ≠ [])
      (found : level guide g task.goal (c.width k).toNat frontier q = (.ok (.found node), r))
      (solution : node.solution task.start depth = .ok s) :
      Ends guide g c task k depth frontier q (some (.solved s)) r
  | cancelled {depth : Nat} {frontier : List Node} {q r : Progress σ} (within : depth < c.maxLength.toNat)
      (nonempty : frontier ≠ [])
      (cancelled : level guide g task.goal (c.width k).toNat frontier q = (.ok .cancelled, r)) :
      Ends guide g c task k depth frontier q (some .cancelled) r

theorem Comes.exists_ends {outcome : Option Outcome} (come : Comes guide g c task k p depth frontier q)
    (limit : depth + remaining = c.maxLength.toNat)
    (ended : levels guide g task (c.width k).toNat remaining depth frontier q = (.ok outcome, r)) :
    ∃ depth frontier q, Comes guide g c task k p depth frontier q ∧
      Ends guide g c task k depth frontier q outcome r := by
  induction remaining generalizing depth frontier q with
  | zero =>
      cases ended
      cases limit
      exact ⟨_, frontier, _, come, .out⟩
  | succ remaining ih =>
      have within : depth < c.maxLength.toNat := by omega
      by_cases empty : frontier = []
      · subst empty
        cases ended
        exact ⟨depth, [], _, come, .dry within⟩
      · rw [levels_of_nonempty empty] at ended
        split at ended
        · cases ended
        · rename_i node m found
          simp only [Prod.mk.injEq, map_eq_ok_iff] at ended
          obtain ⟨⟨s, solution, rfl⟩, rfl⟩ := ended
          exact ⟨depth, frontier, q, come, .found within empty found solution⟩
        · rename_i m cancelled
          cases ended
          exact ⟨depth, frontier, q, come, .cancelled within empty cancelled⟩
        · rename_i next m advanced
          exact ih (come.next ⟨within, empty, advanced⟩) (by omega) ended

theorem exists_ends {outcome : Option Outcome} (ended : iteration guide g c task k p = (.ok outcome, r)) :
    ∃ depth frontier q, Comes guide g c task k p depth frontier q ∧
      Ends guide g c task k depth frontier q outcome r :=
  Comes.first.exists_ends (Nat.zero_add _) ended

end Levels

section Iterations

/-- An iteration whose guide covers the grammar and never stops it is solved or has no outcome. -/
theorem iteration_cases (covers : guide.Covers g p.memory) (unstopped : guide.Unstopped g p.memory) (c : Settings)
    (task : Task) (k : Nat) :
    (∃ s q, iteration guide g c task k p = (.ok (some (.solved s)), q)) ∨
      ∃ q, iteration guide g c task k p = (.ok none, q) := by
  obtain ⟨outcome, q, ended⟩ := exists_iteration covers c task k
  match outcome, ended with
  | some (.solved s), ended => exact .inl ⟨s, q, ended⟩
  | some .exhausted, ended => exact absurd ended levels_ne_exhausted
  | some .cancelled, ended => exact absurd ended (levels_ne_cancelled unstopped)
  | none, ended => exact .inr ⟨q, ended⟩

theorem Begins.reaches (begun : Begins guide g c task memory k p) : guide.Reaches g memory p.memory := by
  induction begun with
  | first => exact .refl
  | next begun ended ih => exact ih.trans (iteration_reaches ended)

/-- Under a guide that covers the grammar and never stops, a search comes to each iteration, unless one before it has
been solved. -/
theorem solved_or_begins (covers : guide.Covers g memory) (unstopped : guide.Unstopped g memory) (c : Settings)
    (task : Task) (n : Nat) :
    (∃ k < n, ∃ p s q, Begins guide g c task memory k p ∧
      iteration guide g c task k p = (.ok (some (.solved s)), q)) ∨
    ∃ p, Begins guide g c task memory n p := by
  induction n with
  | zero => exact .inr ⟨_, .first⟩
  | succ n ih =>
      rcases ih with ⟨k, less, solved⟩ | ⟨p, begun⟩
      · exact .inl ⟨k, Nat.lt_succ_of_lt less, solved⟩
      · rcases iteration_cases (covers.later begun.reaches) (unstopped.later begun.reaches) c task n with
          ⟨s, q, solved⟩ | ⟨q, ended⟩
        · exact .inl ⟨n, Nat.lt_succ_self n, p, s, q, begun, solved⟩
        · exact .inr ⟨q, begun.next ended⟩

/-- The outcome of an iteration that the search comes to is the outcome of the search. -/
theorem search_of_outcome {outcome : Outcome} (settings : c.fault? = none) (inputs : task.fault? = none)
    (begun : Begins guide g c task memory k p) (within : k < c.iterations.toNat)
    (ended : iteration guide g c task k p = (.ok (some outcome), q)) :
    search guide g c task memory = (.ok outcome, q) := by
  obtain ⟨rest, more⟩ := Nat.exists_eq_add_of_lt within
  have remaining : c.iterations.toNat - k = rest + 1 := by omega
  rw [search_eq_of_begins settings inputs begun (Nat.le_of_lt within), remaining, iterations_succ, ended]

theorem search_of_all (settings : c.fault? = none) (inputs : task.fault? = none)
    (begun : Begins guide g c task memory c.iterations.toNat p) :
    search guide g c task memory = (.ok .exhausted, p) := by
  rw [search_eq_of_begins settings inputs begun (Nat.le_refl _), Nat.sub_self]
  rfl

/-- A search that has an outcome has come through all of its iterations, or has the outcome from one of them. -/
theorem Begins.exists_end {outcome : Outcome} (begun : Begins guide g c task memory k p)
    (limit : k + remaining = c.iterations.toNat)
    (ended : iterations guide g c task remaining k p = (.ok outcome, q)) :
    (outcome = .exhausted ∧ Begins guide g c task memory c.iterations.toNat q) ∨
      ∃ k p, k < c.iterations.toNat ∧ Begins guide g c task memory k p ∧
        iteration guide g c task k p = (.ok (some outcome), q) := by
  induction remaining generalizing k p with
  | zero =>
      cases ended
      cases limit
      exact .inl ⟨rfl, begun⟩
  | succ remaining ih =>
      rw [iterations_succ] at ended
      split at ended
      · cases ended
      · rename_i outcome' m done
        cases ended
        exact .inr ⟨k, p, by omega, begun, done⟩
      · rename_i m none
        exact ih (begun.next none) (by omega) ended

theorem search_ends {outcome : Outcome} (ended : search guide g c task memory = (.ok outcome, q)) :
    c.fault? = none ∧ task.fault? = none ∧
      ((outcome = .exhausted ∧ Begins guide g c task memory c.iterations.toNat q) ∨
        ∃ k p, k < c.iterations.toNat ∧ Begins guide g c task memory k p ∧
          iteration guide g c task k p = (.ok (some outcome), q)) := by
  unfold search searchAgain at ended
  split at ended
  · cases ended
  · rename_i settings
    split at ended
    · cases ended
    · rename_i inputs
      exact ⟨settings, inputs, Begins.first.exists_end (Nat.zero_add _) ended⟩

end Iterations

end ListSynth
