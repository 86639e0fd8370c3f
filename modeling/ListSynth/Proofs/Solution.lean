import Mathlib
import ListSynth.Search.Report
import ListSynth.Proofs.Level
import ListSynth.Proofs.Rebuild
/-!
What a search reports as solved is solved. Every node of every frontier stands for a run of registered steps
from the inputs, and as many of them as its level is deep; a node that is found has its run rebuilt.
-/

namespace ListSynth

namespace Value

/-- The values that count as a target: the target itself, or the item that it begins with. A target that
begins with a list is no value to be met, but for the only list in it. -/
def Solves (v : Value) : Value → Prop
  | .list (.list items :: rest) => (rest = [] ∧ v = .list items) ∨ items.head? = some v
  | .list items => v = .list items ∨ items.head? = some v
  | t => v = t

end Value

namespace Goal

theorem isReachedBy_iff {goal : Goal} {s : State} : goal.isReachedBy s = true ↔ ∃ x, s = [x] ∧
    (x.components = goal.components ∨ ∃ v, x.components.head? = some v ∧
      goal.components.head?.bind Value.head? = some v) := by
  match s with
  | [x] =>
      simp only [isReachedBy, Bool.or_eq_true, beq_iff_eq, List.cons.injEq, and_true, exists_eq_left']
      refine or_congr_right ?_
      cases x.components.head? with
      | none => simp
      | some found =>
          cases goal.components.head?.bind Value.head? with
          | none => simp
          | some wanted =>
              simp only [beq_iff_eq, Option.some.injEq, exists_eq_left']
              exact eq_comm
  | [] => simp [isReachedBy]
  | _ :: _ :: _ => simp [isReachedBy]

theorem isReachedBy_single_iff {t v : Value} :
    (ofTarget t).isReachedBy [.single v] = true ↔ v.Solves t := by
  have lone : (ofTarget t).isReachedBy [.single v] = true ↔ [v] = (ofTarget t).components ∨
      (ofTarget t).components.head?.bind Value.head? = some v := by
    rw [isReachedBy_iff]
    simp [Slot.single]
  rw [lone]
  unfold Value.Solves
  split
  · rename_i items rest
    simp [ofTarget, Value.head?, Value.items?, and_comm, eq_comm]
  · rename_i items flat
    have whole : ofTarget (.list items) = ⟨[.list items]⟩ := by
      unfold ofTarget
      split
      · rename_i xs rest same
        exact absurd (Value.list.inj same) (flat xs rest)
      · rfl
    simp [whole, Value.head?, Value.items?]
  · rename_i notFamily notList
    cases t with
    | list items => exact absurd rfl (notList items)
    | bool b => simp [ofTarget, Value.head?, Value.items?]
    | int n => simp [ofTarget, Value.head?, Value.items?]

end Goal

namespace Node

variable {g : Grammar} {start : State} {parent node : Node}

/-- A node stands for a run of registered steps. -/
structure Grounded (g : Grammar) (start : State) (node : Node) : Prop where
  run : start.run node.program = .ok node.state
  registered : ∀ step ∈ node.program, step.combinator ∈ g.combinators

theorem program_ne_nil {depth : Nat} (deep : node.depth = depth + 1) : node.program ≠ [] := by
  intro none
  have length : node.program.length = node.depth := List.length_reverse
  rw [none, deep] at length
  cases length

theorem grounded_root : (root start).Grounded g start := ⟨rfl, by simp [root, program]⟩

theorem grounded_of_root (start : State) :
    ∀ node ∈ [root start], node.Grounded g start ∧ node.depth = 0 := by
  intro node hn
  rw [List.mem_singleton.mp hn]
  exact ⟨grounded_root, rfl⟩

theorem Breeds.grounded (h : parent.Breeds g node) (grounded : parent.Grounded g start) :
    node.Grounded g start ∧ node.depth = parent.depth + 1 := by
  obtain ⟨step, candidate, s, weight, taken, rfl⟩ := h
  have program : (parent.child step s weight).program = parent.program ++ [step] := by
    simp [Node.program, child]
  refine ⟨⟨?_, ?_⟩, rfl⟩
  · rw [program]
    exact State.run_concat_eq_ok_iff.mpr ⟨parent.state, grounded.run, State.after_eq_ok_iff.mp taken⟩
  · rw [program]
    intro step' hs
    rcases List.mem_append.mp hs with earlier | last
    · exact grounded.registered step' earlier
    · rw [List.mem_singleton.mp last]
      exact (Grammar.mem_candidates_iff.mp candidate).1

end Node

section Search

variable {σ : Type} {guide : Guide σ} {g : Grammar} {c : Settings} {task : Task} {memory : σ}
  {s : Solution} {p q : Progress σ} {frontier : List Node} {width remaining depth k : Nat}

theorem Node.solution_eq_ok_iff {inputs : State} {node : Node} : node.solution inputs depth = .ok s ↔
    ∃ expr, node.program.rebuild inputs = .ok expr ∧
      s = { program := node.program, depth, expr, rank := node.rank } := by
  unfold Node.solution
  cases node.program.rebuild inputs <;> simp [eq_comm]

/-- A solution stands for a grounded node that reaches the goal, one step below its level. -/
def Solution.Stands (g : Grammar) (task : Task) (s : Solution) : Prop :=
  ∃ node : Node, node.Grounded g task.start ∧ task.goal.isReachedBy node.state = true ∧
    node.depth = s.depth + 1 ∧ node.solution task.start s.depth = .ok s

/-- What a level goes on with is grounded one step deeper than what it expanded. -/
theorem grounded_of_advanced {goal : Goal} {start : State} {next : List Node}
    (advanced : level guide g goal width frontier p = (.ok (.advanced next), q))
    (grounded : ∀ node ∈ frontier, node.Grounded g start ∧ node.depth = depth) :
    ∀ node ∈ next, node.Grounded g start ∧ node.depth = depth + 1 := by
  obtain ⟨pool, m, expanded, admitted, -⟩ := level_advanced advanced
  intro node hn
  obtain ⟨parent, hp, breeds⟩ := Node.of_mem_expandAll expanded (admitted node hn).1
  obtain ⟨sound, deep⟩ := grounded parent hp
  exact deep ▸ breeds.grounded sound

theorem levels_solved (h : levels guide g task width remaining depth frontier p = (.ok (some (.solved s)), q))
    (grounded : ∀ node ∈ frontier, node.Grounded g task.start ∧ node.depth = depth) :
    s.Stands g task ∧ s.depth < depth + remaining := by
  induction remaining generalizing depth frontier p with
  | zero => cases h
  | succ remaining ih =>
      rw [levels] at h
      split at h
      · cases h
      · split at h
        · cases h
        · rename_i node m found
          obtain ⟨⟨parent, hp, breeds⟩, reached⟩ := level_found found
          obtain ⟨sound, deep⟩ := grounded parent hp
          obtain ⟨sound, deeper⟩ := breeds.grounded sound
          simp only [Prod.mk.injEq, map_eq_ok_iff, Option.some.injEq, Outcome.solved.injEq] at h
          obtain ⟨⟨s', solution, rfl⟩, -⟩ := h
          have same : s'.depth = depth := by
            obtain ⟨expr, -, rfl⟩ := Node.solution_eq_ok_iff.mp solution
            rfl
          rw [deep, ← same] at deeper
          exact ⟨⟨node, sound, reached, deeper, same.symm ▸ solution⟩, by omega⟩
        · cases h
        · rename_i next m advanced
          obtain ⟨stands, above⟩ := ih h (grounded_of_advanced advanced grounded)
          exact ⟨stands, by omega⟩

theorem iterations_solved (h : iterations guide g c task remaining k p = (.ok (.solved s), q)) :
    s.Stands g task ∧ s.depth < c.maxLength.toNat := by
  induction remaining generalizing k p with
  | zero => cases h
  | succ remaining ih =>
      rw [iterations] at h
      split at h
      · cases h
      · rename_i outcome m done
        simp only [Prod.mk.injEq, Except.ok.injEq] at h
        obtain ⟨rfl, rfl⟩ := h
        simpa using levels_solved done (Node.grounded_of_root task.start)
      · exact ih h

theorem search_solved (h : search guide g c task memory = (.ok (.solved s), q)) :
    s.Stands g task ∧ s.depth < c.maxLength.toNat := by
  unfold search searchAgain at h
  split at h
  · cases h
  · split at h
    · cases h
    · exact iterations_solved h

/-- A solution that a search reports is sound: a program of registered steps, no longer than the settings
allow, that runs from the inputs down to one slot of one value; the expression it is rebuilt as has that value,
so there is an output to report, and the value counts as the target. -/
theorem solved_sound (h : search guide g c task memory = (.ok (.solved s), q)) :
    s.program.length = s.depth + 1 ∧ s.program.length ≤ c.maxLength.toNat ∧
      (∀ step ∈ s.program, step.combinator ∈ g.combinators) ∧
      ∃ v, task.start.run s.program = .ok [.single v] ∧ task.goal.isReachedBy [.single v] = true ∧
        s.program.rebuild task.start = .ok s.expr ∧ s.expr.eval = .ok (.single v) ∧
        s.output? = some (.single v) ∧ v.Solves task.target := by
  obtain ⟨⟨node, grounded, reached, deep, solution⟩, above⟩ := search_solved h
  obtain ⟨expr, built, same⟩ := Node.solution_eq_ok_iff.mp solution
  have program : s.program = node.program := congrArg Solution.program same
  have rebuilt : s.expr = expr := congrArg Solution.expr same
  have length : s.program.length = s.depth + 1 := by
    rw [program, ← deep]
    exact List.length_reverse
  obtain ⟨x, lone, -⟩ := Goal.isReachedBy_iff.mp reached
  have carries : State.Carries 1 node.state :=
    State.run_keeps (fun move => move.carries) grounded.run (State.carries_ofInputs task.inputs)
  obtain ⟨v, components⟩ := List.length_eq_one_iff.mp (carries x (lone ▸ List.mem_singleton_self x))
  have single : node.state = [.single v] := by
    rw [lone, Slot.single, ← components]
  have run := grounded.run
  rw [single] at run reached
  obtain ⟨y, first, value⟩ := Program.eval_of_rebuild run built
  cases first
  refine ⟨length, by omega, ?_, v, ?_, reached, ?_, ?_, ?_, Goal.isReachedBy_single_iff.mp reached⟩
  · rw [program]
    exact grounded.registered
  · rw [program]
    exact run
  · rw [program, rebuilt]
    exact built
  · rw [rebuilt]
    exact value
  · rw [Solution.output?, rebuilt, value]
    rfl

end Search

section Sums

def Grammar.summing : Grammar := ⟨{ families := [.sum] }, by decide⟩

/-- A guide that has no number for any choice, and never stops. -/
def Guide.blind : Guide Unit where
  predict g _ _ m := (.ofFn fun k => List.replicate (k.choices g) .undefined, m)
  stopped m := (false, m)

def Task.ofSum : Task := ⟨[.ofInts [1, 2]], .int 3⟩

theorem exists_solution_of_sum : ∃ s p, search .blind .summing {} .ofSum () = (.ok (.solved s), p) := by
  have label : (search .blind .summing {} .ofSum ()).1.toOption.map Outcome.label = some "solved" := by cbv
  rcases result : search .blind .summing {} .ofSum () with ⟨e | (s | _ | _), p⟩
  · rw [result] at label
    cases label
  · exact ⟨s, p, rfl⟩
  · rw [result] at label
    simp [Except.toOption, Outcome.label] at label
  · rw [result] at label
    simp [Except.toOption, Outcome.label] at label

theorem solved_sound_of_sum : ∃ s p, search .blind .summing {} .ofSum () = (.ok (.solved s), p) ∧
    s.program.length ≤ 6 ∧ s.output? = some (.single (.int 3)) := by
  obtain ⟨s, p, h⟩ := exists_solution_of_sum
  obtain ⟨-, short, -, v, -, -, -, -, output, solves⟩ := solved_sound h
  have sum : v = .int 3 := solves
  exact ⟨s, p, h, short, sum ▸ output⟩

end Sums

end ListSynth
