import ListSynth.Proofs.Visits
/-!
What a search leaves out. Beside a scalar no goal is ever reached, so states with scalars, and aggregates among several
slots, are left out at no loss. A state that is too short for a goal stays so, and is left out at the loss of no program
that makes exactly the goal.
-/

namespace ListSynth

variable {σ : Type} {guide : Guide σ} {g : Grammar} {c : Settings} {task : Task} {p q : Progress σ} {s : Solution}

theorem Task.hasScalar_start {v : Value} (input : v ∈ task.inputs) (scalar : v.isScalar = true) :
    task.start.hasScalar = true := by
  refine State.hasScalar_iff.mpr ⟨.single v, List.mem_map_of_mem input, ?_⟩
  exact Slot.hasScalar_iff.mpr ⟨v, List.mem_singleton_self v, scalar⟩

/-- A solution takes a step at least, so none starts beside a scalar. -/
theorem Solution.Stands.hasScalar_start (stands : s.Stands g task) : task.start.hasScalar = false := by
  obtain ⟨node, grounded, reached, deep, -⟩ := stands
  exact State.hasScalar_of_reached (Node.program_ne_nil deep) grounded.run reached

theorem grounded_of_searchVisits : ∀ node ∈ searchVisits guide g c task p, node.Grounded g task.start :=
  forall_searchVisits (fun grounded breeds _ => (breeds.grounded grounded).1) Node.grounded_root

section Scalars

/-- A scalar is a dead end: whatever steps are taken beside it, it stays, another slot stays with it, and no goal is
reached. So on the way to any goal steps are taken from lists only, and aggregates on a lone slot only, unless on a slot
without components, which they do not change. Of the programs that the levels of an unfilled iteration are deep enough
for, those that overshoot on their way are the only ones to be missed, and a task with a scalar among its inputs is
never solved. -/
theorem scalars_are_dead_ends (guide : Guide σ) (g : Grammar) (c : Settings) (task : Task) :
    (∀ (s s' : State) (program : Program), s.hasScalar = true → program ≠ [] → s.run program = .ok s' →
      s'.hasScalar = true ∧ 2 ≤ s'.length ∧ ∀ goal : Goal, goal.isReachedBy s' = false) ∧
    (∀ (s s' : State) (step : Step) (rest : Program) (goal : Goal), s.run (step :: rest) = .ok s' →
      goal.isReachedBy s' = true → s.hasScalar = false ∧
        (step.combinator ∈ Combinator.aggregates → s.length = 1 ∨ s.after step = .ok s)) ∧
    (∀ (width L : Nat) (p : Progress σ) (program : Program) (s : State),
      Unfilled guide g task.goal width L [.root task.start] p → program.Within g L → task.start.run program = .ok s →
        task.goal.isReachedBy s = true → task.start.OvershootsOnWay task.goal program) ∧
    ((∃ v ∈ task.inputs, v.isScalar = true) →
      ∀ (p : Progress σ) (s : Solution) (q : Progress σ), searchAgain guide g c task p ≠ (.ok (.solved s), q)) := by
  refine ⟨?_, ?_, ?_, ?_⟩
  · intro s s' program scalar nonempty run
    obtain ⟨stays, several⟩ := State.two_le_length_of_run scalar nonempty run
    exact ⟨stays, several, fun goal => Goal.isReachedBy_of_two_le several⟩
  · intro s s' step rest goal run reached
    refine ⟨State.hasScalar_of_reached (List.cons_ne_nil step rest) run reached, ?_⟩
    intro aggregate
    obtain ⟨x, rfl, -⟩ := Goal.isReachedBy_iff.mp reached
    exact State.lone_of_run run aggregate
  · intro width L p program s unfilled within run reached
    exact overshootsOnWay_of_unfilled unfilled (carries_of_root task) within (List.mem_singleton_self _) run reached
  · rintro ⟨v, input, scalar⟩ p s q solved
    rw [searchAgain_eq_search] at solved
    have lists := (search_solved solved).1.hasScalar_start
    exact Bool.false_ne_true (lists.symm.trans (Task.hasScalar_start input scalar))

section Heads

def Grammar.heading : Grammar := ⟨{ families := [.take, .sum], takeDropNumbers := [1] }, by decide⟩

/-- The first item begins the target; the list of the first item alone is too short for it. -/
def Task.ofHead : Task := ⟨[.ofInts [3, 9]], .ofInts [3, 4]⟩

def Program.head : Program := [⟨.take 1, [0]⟩, ⟨.sum, [0]⟩]

def Task.besideScalar : Task := ⟨[.ofInts [3, 9], .int 3], .int 3⟩

theorem unfilled_of_head : ∃ p, Unfilled .blind .heading Task.ofHead.goal (Settings.brief.width 0).toNat 2
    [.root Task.ofHead.start] p := by
  have exhausted := eq_exhausted_of_label (r := (search .blind .heading .brief .ofHead ()).1) (by cbv)
  have peak : (search .blind .heading .brief .ofHead ()).2.tally.peakFrontier = 2 := by cbv
  obtain ⟨p, -, unfilled⟩ := unfilled_of_exhausted (k := 0) (Prod.ext exhausted rfl) (by decide) (by rw [peak]; decide)
  exact ⟨_, unfilled⟩

theorem scalars_are_dead_ends_of_head :
    Task.besideScalar.goal.isReachedBy [.single (.int 3), .single (.int 3)] = false ∧
    State.hasScalar [.single (.ofInts [3])] = false ∧
    Task.ofHead.start.OvershootsOnWay Task.ofHead.goal .head ∧
    ∀ s q, searchAgain .blind .heading .brief .besideScalar ⟨{}, ()⟩ ≠ (.ok (.solved s), q) := by
  have copied : State.run [.single (.int 3)] [⟨.copy, [0]⟩] = .ok [.single (.int 3), .single (.int 3)] := by cbv
  have summed : State.run [.single (.ofInts [3])] [⟨.sum, [0]⟩] = .ok [.single (.int 3)] := by cbv
  have headed : Task.ofHead.start.run .head = .ok [.single (.int 3)] := by cbv
  have within : Program.Within .heading 2 .head := ⟨by simp [Program.head], by decide, by decide⟩
  obtain ⟨p, unfilled⟩ := unfilled_of_head
  obtain ⟨beside, before, missed, -⟩ := scalars_are_dead_ends .blind .heading .brief .ofHead
  obtain ⟨-, -, -, never⟩ := scalars_are_dead_ends .blind .heading .brief .besideScalar
  exact ⟨(beside _ _ _ (by decide) (by simp) copied).2.2 Task.besideScalar.goal,
    (before _ _ _ _ Task.ofHead.goal summed (by decide)).1,
    missed _ 2 p _ _ unfilled within headed (by decide),
    never ⟨.int 3, by decide, by decide⟩ ⟨{}, ()⟩⟩

end Heads

end Scalars

section Overshoots

/-- A state that is too short for a goal stays so: after any steps, or none, some component is shorter than that of the
goal at its place, so the state is pruned again and is not exactly the goal. So whatever a search prunes for its
length, no program that begins with its steps makes exactly the goal. -/
theorem overshoots_are_never_exact (guide : Guide σ) (g : Grammar) (c : Settings) (task : Task) (p : Progress σ) :
    (∀ (goal : Goal) (s s' : State) (program : Program), s.deadEnd? goal.minLengths = some .overshoot →
      s.run program = .ok s' →
        (∃ k v, goal.components[k]? = some v ∧ s'.ShortAt k v.length) ∧ s'.deadEnd? goal.minLengths ≠ none ∧
          s' ≠ [⟨goal.components⟩]) ∧
    (∀ node ∈ searchVisits guide g c task p, ∀ child, node.Breeds g child →
      child.state.deadEnd? task.goal.minLengths = some .overshoot → ∀ more,
        task.start.run (child.program ++ more) ≠ .ok [⟨task.goal.components⟩]) := by
  constructor
  · intro goal s s' program overshoot run
    obtain ⟨k, v, wanted, short⟩ := State.shortAt_of_run overshoot run
    have sets : goal.minLengths ≠ none := by
      obtain ⟨-, least, lengths, -⟩ := State.deadEnd?_eq_overshoot_iff.mp overshoot
      exact Option.ne_none_iff_exists'.mpr ⟨least, lengths⟩
    exact ⟨⟨k, v, wanted, short⟩, short.deadEnd? wanted sets, short.ne_exact wanted⟩
  · intro node hn child breeds overshoot more reached
    have grounded := (breeds.grounded (grounded_of_searchVisits node hn)).1
    obtain ⟨m, run, rest⟩ := State.run_append_eq_ok_iff.mp reached
    cases grounded.run.symm.trans run
    exact State.run_ne_of_overshoot overshoot rest

section Families

def Goal.ofFamily : Goal := .ofTarget (.list [.ofInts [3, 4], .ofInts [5]])

/-- The second component of the first slot has no item, and the sum of the slots keeps it so. -/
def State.ofFamily : State := [⟨[.ofInts [3, 4, 7], .ofInts []]⟩, ⟨[.ofInts [0, 0, 0], .ofInts [5]]⟩]

theorem overshoots_are_never_exact_of_family :
    State.ofFamily.deadEnd? Goal.ofFamily.minLengths = some .overshoot ∧
    State.deadEnd? [⟨[.ofInts [3, 4, 7], .ofInts []]⟩] Goal.ofFamily.minLengths ≠ none ∧
    ∀ more, Task.ofHead.start.run (⟨.take 1, [0]⟩ :: more) ≠ .ok [⟨Task.ofHead.goal.components⟩] := by
  have overshoot : State.ofFamily.deadEnd? Goal.ofFamily.minLengths = some .overshoot := by decide
  have merged : State.ofFamily.run [⟨.zipWith .add, [0, 1]⟩] = .ok [⟨[.ofInts [3, 4, 7], .ofInts []]⟩] := by cbv
  have taken : Task.ofHead.start.after ⟨.take 1, [0]⟩ = .ok [.single (.ofInts [3])] := by cbv
  have candidate : ⟨.take 1, [0]⟩ ∈ Grammar.heading.candidates Task.ofHead.start.length := by decide
  obtain ⟨stays, pruned⟩ := overshoots_are_never_exact .blind .heading .brief .ofHead ⟨{}, ()⟩
  refine ⟨overshoot, (stays _ _ _ _ overshoot merged).2.1, ?_⟩
  have root : Node.root Task.ofHead.start ∈ searchVisits .blind .heading .brief .ofHead ⟨{}, ()⟩ :=
    root_mem_searchVisits (by decide) (by decide) (by decide)
  exact pruned _ root _ ⟨_, candidate, _, .zero, taken, rfl⟩ (by decide)

end Families

end Overshoots

end ListSynth
