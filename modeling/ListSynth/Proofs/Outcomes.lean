import ListSynth.Proofs.Memories
import ListSynth.Proofs.Registry
import ListSynth.Proofs.Lossless
/-!
Searches that come to an outcome. Under a guide whose weights cover the grammar every candidate has a rank, and
every node that reaches the goal has its run rebuilt; so only faulty settings and tasks without inputs are errors.
-/

namespace ListSynth

section Covering

variable {σ : Type} {guide : Guide σ} {g : Grammar} {m : σ}

/-- From a memory on, all weights that a guide answers cover the grammar. -/
def Guide.Covers (guide : Guide σ) (g : Grammar) : σ → Prop :=
  guide.Always g fun n => ∀ goal s, (guide.predict g goal s n).1.Covers g

/-- States that are never shown to the scorer have weights that cover every grammar. -/
theorem Guide.covers_consult {goal : Goal} {s : State} (covers : (guide.predict g goal s m).1.Covers g) :
    (guide.consult g goal s m).1.Covers g := by
  unfold Guide.consult
  split
  · exact Weights.covers_zeros g
  · exact covers

theorem Keystream.length_signedUnits (s : Keystream) (n : Nat) : (s.signedUnits n).1.length = n := by
  induction n generalizing s with
  | zero => rfl
  | succ n ih => exact congrArg Nat.succ (ih s.signedUnit.2)

theorem Scorer.covers_drawLogits (g : Grammar) (stream : Keystream) : (drawLogits g stream).1.Covers g := by
  intro k _
  refine Nat.le_of_eq ?_
  cases k <;> exact (Keystream.length_signedUnits _ _).symm

/-- The scorers that a kind names cover every grammar, whatever the readings of the flag. -/
theorem Scorer.covers_ofKind (g : Grammar) (seed : UInt64) (kind : ScorerKind) (flag : Nat → Bool) (reads : Nat) :
    (Scorer.guide flag).Covers g (.ofKind seed kind, reads) := by
  cases kind with
  | uniform =>
      have all : (Scorer.guide flag).Always g (fun m => m.1 = .uniform) (.uniform, reads) := by
        refine Guide.always_of_keeps ?_ ?_ rfl
        · rintro ⟨_, reads⟩ goal s rfl
          rfl
        · rintro ⟨_, reads⟩ rfl
          rfl
      rintro ⟨_, reads⟩ reached goal s
      cases all _ reached
      exact Weights.covers_ofLogits (Weights.covers_zeros g)
  | random =>
      have all : (Scorer.guide flag).Always g (fun m => ∃ stream, m.1 = .random stream)
          (.random (.ofSeed seed), reads) := by
        refine Guide.always_of_keeps ?_ ?_ ⟨_, rfl⟩
        · rintro ⟨_, reads⟩ goal s ⟨stream, rfl⟩
          exact ⟨_, rfl⟩
        · rintro ⟨_, reads⟩ ⟨stream, rfl⟩
          exact ⟨stream, rfl⟩
      rintro ⟨_, reads⟩ reached goal s
      obtain ⟨stream, rfl⟩ := all _ reached
      exact Weights.covers_ofLogits (Scorer.covers_drawLogits g stream)

end Covering

section Outcomes

variable {σ : Type} {guide : Guide σ} {g : Grammar} {goal : Goal} {c : Settings} {task : Task} {memory : σ}
  {p q : Progress σ} {frontier next : List Node} {width remaining depth k : Nat}

theorem Node.exists_expand {parent : Node} (covers : (guide.predict g goal parent.state p.memory).1.Covers g) :
    ∃ children q, parent.expand guide g goal p = (.ok children, q) := by
  have weighed : ∀ step ∈ g.candidates parent.state.length, ∀ s, parent.state.after step = .ok s →
      ∃ weight, Ranking.ofStep g (guide.consult g goal parent.state p.memory).1 step = .ok weight := by
    intro step candidate s _
    exact Ranking.exists_ofStep (Guide.covers_consult covers) (Grammar.mem_candidates_iff.mp candidate).1
  exact ⟨_, _, Prod.ext (raise_eq_ok_iff.mpr ⟨weighed, rfl⟩) rfl⟩

theorem exists_expandAll (covers : guide.Covers g p.memory) (goal : Goal) (frontier : List Node)
    (broods : List (List Node)) :
    ∃ pool q, expandAll guide g goal frontier broods p = (.ok pool, q) := by
  induction frontier generalizing broods p with
  | nil => exact ⟨_, _, rfl⟩
  | cons parent rest ih =>
      obtain ⟨children, m, expanded⟩ := Node.exists_expand (covers.now goal parent.state)
      have change : Progress.Change guide g p (parent.expand guide g goal p).2 := .expanded goal parent
      rw [expanded] at change
      rw [expandAll, expanded]
      exact ih (covers.later change.reaches) (children :: broods)

theorem exists_level (covers : guide.Covers g p.memory) (goal : Goal) (width : Nat) (frontier : List Node) :
    ∃ done q, level guide g goal width frontier p = (.ok done, q) := by
  obtain ⟨pool, m, expanded⟩ := exists_expandAll covers goal frontier []
  exact ⟨_, _, level_of_walked expanded rfl⟩

theorem Node.exists_solution {inputs : State} {node : Node} (grounded : node.Grounded g inputs)
    (deep : node.depth = depth + 1) (reached : goal.isReachedBy node.state = true) :
    ∃ s, node.solution inputs depth = .ok s := by
  obtain ⟨x, lone, -⟩ := Goal.isReachedBy_iff.mp reached
  have one := Program.countAfter?_of_run grounded.run
  rw [lone] at one
  obtain ⟨expr, built⟩ := (Program.exists_rebuild_iff one).mpr (Program.exists_names_first (program_ne_nil deep) one)
  exact ⟨_, Node.solution_eq_ok_iff.mpr ⟨expr, built, rfl⟩⟩

/-- A node that is found on a level is rebuilt as a solution. -/
theorem exists_solution_of_found {node : Node}
    (found : level guide g task.goal width frontier p = (.ok (.found node), q))
    (grounded : ∀ node ∈ frontier, node.Grounded g task.start ∧ node.depth = depth) :
    ∃ s, node.solution task.start depth = .ok s := by
  obtain ⟨⟨parent, hp, breeds⟩, reached⟩ := level_found found
  obtain ⟨sound, deep⟩ := grounded parent hp
  obtain ⟨sound, deeper⟩ := breeds.grounded sound
  exact Node.exists_solution sound (deep ▸ deeper) reached

theorem exists_levels (covers : guide.Covers g p.memory)
    (grounded : ∀ node ∈ frontier, node.Grounded g task.start ∧ node.depth = depth) :
    ∃ outcome q, levels guide g task width remaining depth frontier p = (.ok outcome, q) := by
  induction remaining generalizing depth frontier p with
  | zero => exact ⟨none, p, rfl⟩
  | succ remaining ih =>
      rw [levels]
      split
      · exact ⟨none, p, rfl⟩
      · obtain ⟨done, m, leveled⟩ := exists_level covers task.goal width frontier
        rw [leveled]
        cases done with
        | found node =>
            obtain ⟨s, solution⟩ := exists_solution_of_found leveled grounded
            refine ⟨some (.solved s), m, ?_⟩
            dsimp only
            rw [solution]
            rfl
        | cancelled => exact ⟨some .cancelled, m, rfl⟩
        | advanced next =>
            exact ih (covers.later (level_changes leveled).reaches) (grounded_of_advanced leveled grounded)

theorem exists_iteration (covers : guide.Covers g p.memory) (c : Settings) (task : Task) (k : Nat) :
    ∃ outcome q, iteration guide g c task k p = (.ok outcome, q) :=
  exists_levels covers (Node.grounded_of_root task.start)

theorem iteration_reaches {r : Except SearchError (Option Outcome)} (h : iteration guide g c task k p = (r, q)) :
    guide.Reaches g p.memory q.memory :=
  (levels_changes h).reaches

theorem exists_iterations (covers : guide.Covers g p.memory) :
    ∃ outcome q, iterations guide g c task remaining k p = (.ok outcome, q) := by
  induction remaining generalizing k p with
  | zero => exact ⟨.exhausted, p, rfl⟩
  | succ remaining ih =>
      obtain ⟨outcome, m, ended⟩ := exists_iteration covers c task k
      rw [iterations_succ, ended]
      cases outcome with
      | some outcome => exact ⟨outcome, m, rfl⟩
      | none => exact ih (covers.later (iteration_reaches ended))

theorem Settings.fault?_eq_none_iff :
    c.fault? = none ↔ ¬ (c.beamSize = 0 ∨ c.iterations = 0 ∨ c.widening < 2) := by
  unfold fault?
  split
  · simp [*]
  · split
    · simp [*]
    · split <;> simp [*]

theorem Settings.iterations_pos (settings : c.fault? = none) : 0 < c.iterations.toNat := by
  have some : c.iterations ≠ 0 := fun zero => fault?_eq_none_iff.mp settings (.inr (.inl zero))
  exact Nat.pos_of_ne_zero fun zero => some (UInt32.toNat_inj.mp zero)

theorem Task.fault?_eq_none_iff : task.fault? = none ↔ task.inputs ≠ [] := by
  simp [fault?]

theorem iterations_reaches {r : Except SearchError Outcome}
    (h : iterations guide g c task remaining k p = (r, q)) : guide.Reaches g p.memory q.memory := by
  induction remaining generalizing k p with
  | zero =>
      cases h
      exact .refl
  | succ remaining ih =>
      rw [iterations_succ] at h
      split at h
      · rename_i e m failed
        cases h
        exact iteration_reaches failed
      · rename_i outcome m done
        cases h
        exact iteration_reaches done
      · rename_i m none
        exact (iteration_reaches none).trans (ih h)

theorem search_reaches {r : Except SearchError Outcome} (h : search guide g c task memory = (r, q)) :
    guide.Reaches g memory q.memory := by
  unfold search searchAgain at h
  split at h
  · cases h
    exact .refl
  · split at h
    · cases h
      exact .refl
    · exact iterations_reaches h

/-- What earlier searches counted does not matter. -/
theorem searchAgain_eq_search (guide : Guide σ) (g : Grammar) (c : Settings) (task : Task) (p : Progress σ) :
    searchAgain guide g c task p = search guide g c task p.memory := rfl

/-- The three ways that a search can end, settings first and inputs second. -/
theorem searchAgain_cases (covers : guide.Covers g p.memory) (c : Settings) (task : Task) :
    (∃ e, c.fault? = some e ∧ searchAgain guide g c task p = (.error (.settings e), ⟨{}, p.memory⟩)) ∨
    (c.fault? = none ∧ task.inputs = [] ∧ searchAgain guide g c task p = (.error .noInputs, ⟨{}, p.memory⟩)) ∨
    (c.fault? = none ∧ task.inputs ≠ [] ∧ ∃ outcome q, searchAgain guide g c task p = (.ok outcome, q)) := by
  cases settings : c.fault? with
  | some e => exact .inl ⟨e, rfl, by simp only [searchAgain, Progress.reset, settings]⟩
  | none =>
      by_cases inputs : task.inputs = []
      · exact .inr (.inl ⟨rfl, inputs, by simp [searchAgain, Progress.reset, settings, Task.fault?, inputs]⟩)
      · refine .inr (.inr ⟨rfl, inputs, ?_⟩)
        rw [searchAgain_eq_search,
          search_eq_of_begins settings (Task.fault?_eq_none_iff.mpr inputs) .first (Nat.zero_le _)]
        exact exists_iterations covers

/-- A search is an error for faulty settings, and otherwise for a task without inputs, and otherwise it has an
outcome: no candidate is without a rank and no solution without an expression, however long copying makes the
states. Where there is an error, the guide has not been consulted and nothing is counted, whatever an earlier search
has left. -/
theorem search_fails_only_on_invalid (covers : guide.Covers g p.memory) :
    (c.beamSize = 0 ∨ c.iterations = 0 ∨ c.widening < 2 →
      ∃ e, searchAgain guide g c task p = (.error (.settings e), ⟨{}, p.memory⟩)) ∧
    (¬ (c.beamSize = 0 ∨ c.iterations = 0 ∨ c.widening < 2) →
      (task.inputs = [] → searchAgain guide g c task p = (.error .noInputs, ⟨{}, p.memory⟩)) ∧
      (task.inputs ≠ [] → ∃ outcome q, searchAgain guide g c task p = (.ok outcome, q))) ∧
    (∀ e, (searchAgain guide g c task p).1 ≠ .error (.ranking e)) ∧
    (∀ e, (searchAgain guide g c task p).1 ≠ .error (.rebuild e)) := by
  rcases searchAgain_cases covers c task with
    ⟨e, settings, result⟩ | ⟨settings, empty, result⟩ | ⟨settings, inputs, outcome, q, result⟩
  · have valid : c.fault? ≠ none := by
      rw [settings]
      exact Option.some_ne_none e
    refine ⟨fun _ => ⟨e, result⟩, fun faultless => absurd (Settings.fault?_eq_none_iff.mpr faultless) valid, ?_, ?_⟩
    · simp [result]
    · simp [result]
  · refine ⟨fun faulty => absurd faulty (Settings.fault?_eq_none_iff.mp settings), fun _ => ?_, ?_, ?_⟩
    · exact ⟨fun _ => result, fun inputs => absurd empty inputs⟩
    · simp [result]
    · simp [result]
  · refine ⟨fun faulty => absurd faulty (Settings.fault?_eq_none_iff.mp settings), fun _ => ?_, ?_, ?_⟩
    · exact ⟨fun empty => absurd empty inputs, fun _ => ⟨outcome, q, result⟩⟩
    · simp [result]
    · simp [result]

section Kinds

theorem search_fails_only_on_invalid_of_kinds :
    (∃ outcome q, searchAgain (Scorer.guide fun _ => false) .default {} .ofFive ⟨{}, .ofKind 7 .random, 0⟩ =
      (.ok outcome, q)) ∧
    (∃ outcome q, searchAgain (Scorer.guide fun _ => true) .default {} .ofFive ⟨{}, .ofKind 0 .uniform, 0⟩ =
      (.ok outcome, q)) ∧
    searchAgain (Scorer.guide fun _ => false) .default {} ⟨[], .int 1⟩
      ⟨{ nodesExpanded := 5 }, .ofKind 7 .random, 0⟩ = (.error .noInputs, ⟨{}, .ofKind 7 .random, 0⟩) := by
  have random := Scorer.covers_ofKind .default 7 .random (fun _ => false) 0
  have uniform := Scorer.covers_ofKind .default 0 .uniform (fun _ => true) 0
  exact ⟨((search_fails_only_on_invalid random).2.1 (by decide)).2 (by simp [Task.ofFive]),
    ((search_fails_only_on_invalid uniform).2.1 (by decide)).2 (by simp [Task.ofFive]),
    ((search_fails_only_on_invalid random).2.1 (by decide)).1 rfl⟩

end Kinds

end Outcomes

end ListSynth
