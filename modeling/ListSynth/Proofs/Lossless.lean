import ListSynth.Proofs.Memories
import ListSynth.Proofs.Solution
/-!
What an unfilled search has ruled out. Where every level leaves room in its beam, nothing has been cut off but
dead ends and steps that some candidate stands for, so a program that the levels were deep enough for would
have been found.
-/

namespace ListSynth

variable {σ : Type} {guide : Guide σ} {g : Grammar} {c : Settings} {task : Task} {goal : Goal} {memory : σ}
  {p q m : Progress σ} {frontier next : List Node} {width depth remaining k L : Nat}

section Peak

theorem Progress.Change.peak_le (h : Change guide g p q) : p.tally.peakFrontier ≤ q.tally.peakFrontier := by
  cases h with
  | ended done =>
      cases done with
      | advanced next => exact Nat.le_max_left _ _
      | _ => exact Nat.le_refl _
  | passed lengths node =>
      unfold Progress.past
      split <;> exact Nat.le_refl _
  | _ => exact Nat.le_refl _

theorem Progress.Changes.peak_le (h : Changes guide g p q) : p.tally.peakFrontier ≤ q.tally.peakFrontier := by
  induction h with
  | refl => exact Nat.le_refl _
  | tail before change ih => exact Nat.le_trans ih change.peak_le

/-- A frontier that a level goes on with is noted as a peak. -/
theorem length_le_peak (advanced : level guide g goal width frontier p = (.ok (.advanced next), q)) :
    next.length ≤ q.tally.peakFrontier := by
  obtain ⟨pool, m, r, -, -, rfl⟩ := level_eq_ok_iff.mp advanced
  exact Nat.le_max_right _ _

end Peak

section Unfilled

/-- The levels of an iteration leave room in their beam: each goes on with fewer nodes than the beam is wide,
or there is no frontier left to expand. -/
def Unfilled (guide : Guide σ) (g : Grammar) (goal : Goal) (width : Nat) :
    Nat → List Node → Progress σ → Prop
  | 0, _, _ => True
  | L + 1, frontier, p => frontier = [] ∨
      ∃ next q, level guide g goal width frontier p = (.ok (.advanced next), q) ∧ next.length < width ∧
        Unfilled guide g goal width L next q

/-- Programs of registered steps, at least one and at most `L` of them. -/
structure Program.Within (g : Grammar) (L : Nat) (program : Program) : Prop where
  nonempty : program ≠ []
  short : program.length ≤ L
  registered : ∀ step ∈ program, step.combinator ∈ g.combinators

theorem levels_of_unfilled (h : Unfilled guide g task.goal width L frontier p) :
    ∃ q, levels guide g task width L depth frontier p = (.ok none, q) := by
  induction L generalizing depth frontier p with
  | zero => exact ⟨p, rfl⟩
  | succ L ih =>
      rcases h with rfl | ⟨next, m, advanced, -, rest⟩
      · exact ⟨p, rfl⟩
      · by_cases empty : frontier = []
        · subst empty
          exact ⟨p, rfl⟩
        · obtain ⟨q, ended⟩ : ∃ q, levels guide g task width L (depth + 1) next m = (.ok none, q) := ih rest
          refine ⟨q, ?_⟩
          rw [levels, if_neg (by simpa using empty), advanced]
          exact ended

theorem unfilled_of_peak (h : levels guide g task width remaining depth frontier p = (.ok none, q))
    (peak : q.tally.peakFrontier < width) : Unfilled guide g task.goal width remaining frontier p := by
  induction remaining generalizing depth frontier p with
  | zero => trivial
  | succ remaining ih =>
      rw [levels] at h
      split at h
      · rename_i none
        exact .inl (by simpa using none)
      · split at h
        · cases h
        · rename_i node m found
          cases solution : node.solution task.start depth with
          | error e => simp [solution, Except.map] at h
          | ok s => simp [solution, Except.map] at h
        · cases h
        · rename_i next m advanced
          have room : next.length < width :=
            Nat.lt_of_le_of_lt (Nat.le_trans (length_le_peak advanced) (levels_changes h).peak_le) peak
          exact .inr ⟨next, m, advanced, room, ih h⟩

theorem Node.Breeds.carries {n : Nat} {parent node : Node} (h : parent.Breeds g node)
    (carries : State.Carries n parent.state) : State.Carries n node.state := by
  obtain ⟨step, -, s, weight, taken, rfl⟩ := h
  exact (State.after_eq_ok_iff.mp taken).carries carries

theorem Goal.isReachedBy_exact : goal.isReachedBy [⟨goal.components⟩] = true :=
  isReachedBy_iff.mpr ⟨_, rfl, .inl rfl⟩

theorem carries_of_root (task : Task) : ∀ node ∈ [Node.root task.start], State.Carries 1 node.state := by
  intro node hn
  rw [List.mem_singleton.mp hn]
  exact State.carries_ofInputs task.inputs

theorem carries_of_advanced {n : Nat} (advanced : level guide g goal width frontier p = (.ok (.advanced next), q))
    (carries : ∀ node ∈ frontier, State.Carries n node.state) : ∀ node ∈ next, State.Carries n node.state := by
  obtain ⟨pool, m, expanded, admitted, -⟩ := level_advanced advanced
  intro node hn
  obtain ⟨parent, hp, breeds⟩ := Node.of_mem_expandAll expanded (admitted node hn).1
  exact breeds.carries (carries parent hp)

/-- A level with room to spare has tried whatever step may still lead to one slot, by itself or by a candidate
that stands for it: where it leads is not the goal, and is gone on from unless it is a dead end. -/
theorem exists_mem_of_advanced {node : Node} {step : Step} {s : State} {n : Nat}
    (advanced : level guide g goal width frontier p = (.ok (.advanced next), q)) (room : next.length < width)
    (hn : node ∈ frontier) (carries : State.Carries (n + 1) node.state)
    (registered : step.combinator ∈ g.combinators) (move : node.state.Moves step s)
    (hopeful : s.length = 1 ∨ s.hasScalar = false) :
    goal.isReachedBy s = false ∧ (s.deadEnd? goal.minLengths = none → ∃ node ∈ next, node.state = s) := by
  obtain ⟨pool, m, expanded, -, all⟩ := level_advanced advanced
  obtain ⟨step', candidate, move'⟩ := move.exists_candidate registered carries hopeful
  obtain ⟨weight, child⟩ := Node.exists_mem_expandAll expanded hn candidate (State.after_eq_ok_iff.mpr move')
  obtain ⟨unsolved, admits⟩ := all room _ child
  refine ⟨unsolved, ?_⟩
  intro alive
  have isOpen : (node.child step' s weight).isOpen goal.minLengths = true := by
    simp [Node.isOpen, Node.child, alive]
  exact ⟨_, admits isOpen, rfl⟩

/-- Unfilled levels have ruled out every program that they are deep enough for, but those that overshoot on their way.
The induction is on the levels: the first step leads to a node of the next one, unless to a dead end; from a scalar the
rest of the program does not get to the goal. -/
theorem overshootsOnWay_of_unfilled {program : Program} {node : Node} {s : State} {n : Nat}
    (h : Unfilled guide g goal width L frontier p) (carries : ∀ node ∈ frontier, State.Carries (n + 1) node.state)
    (within : program.Within g L) (hn : node ∈ frontier) (run : State.run node.state program = .ok s)
    (reached : goal.isReachedBy s = true) : State.OvershootsOnWay goal node.state program := by
  induction L generalizing frontier p program node with
  | zero => exact absurd (List.length_eq_zero_iff.mp (Nat.le_zero.mp within.short)) within.nonempty
  | succ L ih =>
      rcases h with rfl | ⟨next, q, advanced, room, unfilled⟩
      · cases hn
      · obtain ⟨step, later, rfl⟩ := List.exists_cons_of_ne_nil within.nonempty
        obtain ⟨m, move, rest⟩ := State.run_cons_eq_ok_iff.mp run
        obtain ⟨x, rfl, -⟩ := Goal.isReachedBy_iff.mp reached
        obtain ⟨unsolved, goes⟩ := exists_mem_of_advanced advanced room hn (carries node hn)
          (within.registered step List.mem_cons_self) move (State.hopeful_of_run rest)
        have last : later ≠ [] := by
          rintro rfl
          cases rest
          exact Bool.false_ne_true (unsolved.symm.trans reached)
        cases dead : m.deadEnd? goal.minLengths with
        | some why =>
            cases why with
            | overshoot =>
                exact ⟨[step], later, m, rfl, by simp, last, State.run_singleton_eq_ok_iff.mpr move, dead⟩
            | scalar =>
                have lists := State.hasScalar_of_reached last rest reached
                exact absurd (lists.symm.trans (State.deadEnd?_eq_scalar_iff.mp dead)) Bool.false_ne_true
        | none =>
            obtain ⟨child, hc, rfl⟩ := goes dead
            have within' : Program.Within g L later := by
              refine ⟨last, Nat.le_of_succ_le_succ within.short, ?_⟩
              intro step' hs
              exact within.registered step' (List.mem_cons_of_mem step hs)
            exact (ih unfilled (carries_of_advanced advanced carries) within' hc rest).cons move

/-- A program that overshoots on its way does not come to exactly the goal. -/
theorem run_ne_of_unfilled {program : Program} {node : Node} {n : Nat}
    (h : Unfilled guide g goal width L frontier p) (carries : ∀ node ∈ frontier, State.Carries (n + 1) node.state)
    (within : program.Within g L) (hn : node ∈ frontier) :
    State.run node.state program ≠ .ok [⟨goal.components⟩] := by
  intro run
  exact (overshootsOnWay_of_unfilled h carries within hn run Goal.isReachedBy_exact).run_ne run

end Unfilled

section Iterations

def Progress.opened (p : Progress σ) (width : Nat) : Progress σ :=
  { p with tally := p.tally.startIteration width }

def iteration (guide : Guide σ) (g : Grammar) (c : Settings) (task : Task) (k : Nat) (p : Progress σ) :
    Except SearchError (Option Outcome) × Progress σ :=
  levels guide g task (c.width k).toNat c.maxLength.toNat 0 [.root task.start] (p.opened (c.width k).toNat)

theorem iterations_succ : iterations guide g c task (remaining + 1) k p =
    match iteration guide g c task k p with
    | (.error e, p) => (.error e, p)
    | (.ok (some outcome), p) => (.ok outcome, p)
    | (.ok none, p) => iterations guide g c task remaining (k + 1) p := rfl

/-- A search comes to iteration `k` with the given progress: the iterations before have walked their levels to
the end without an outcome. -/
inductive Begins (guide : Guide σ) (g : Grammar) (c : Settings) (task : Task) (memory : σ) :
    Nat → Progress σ → Prop
  | first : Begins guide g c task memory 0 ⟨{}, memory⟩
  | next {k : Nat} {p q : Progress σ} (begun : Begins guide g c task memory k p)
      (ended : iteration guide g c task k p = (.ok none, q)) : Begins guide g c task memory (k + 1) q

theorem search_eq_of_begins (settings : c.fault? = none) (inputs : task.fault? = none)
    (begun : Begins guide g c task memory k p) (within : k ≤ c.iterations.toNat) :
    search guide g c task memory = iterations guide g c task (c.iterations.toNat - k) k p := by
  induction begun with
  | first => simp [search, searchAgain, Progress.reset, settings, inputs]
  | @next k p q begun ended ih =>
      obtain ⟨rest, more⟩ : ∃ rest, c.iterations.toNat - k = rest + 1 :=
        ⟨c.iterations.toNat - (k + 1), by omega⟩
      have less : c.iterations.toNat - (k + 1) = rest := by omega
      rw [ih (by omega), more, less, iterations_succ, ended]

theorem levels_ne_exhausted :
    levels guide g task width remaining depth frontier p ≠ (.ok (some .exhausted), q) := by
  intro h
  induction remaining generalizing depth frontier p with
  | zero => cases h
  | succ remaining ih =>
      rw [levels] at h
      split at h
      · cases h
      · split at h
        · cases h
        · rename_i node m found
          cases solution : node.solution task.start depth <;> simp [solution, Except.map] at h
        · cases h
        · exact ih h

theorem levels_of_exhausted (begun : Begins guide g c task memory k p)
    (h : iterations guide g c task remaining k p = (.ok .exhausted, q)) :
    p.tally.peakFrontier ≤ q.tally.peakFrontier ∧ ∀ j < remaining, ∃ p m,
      Begins guide g c task memory (k + j) p ∧
      iteration guide g c task (k + j) p = (.ok none, m) ∧
      m.tally.peakFrontier ≤ q.tally.peakFrontier := by
  induction remaining generalizing k p with
  | zero =>
      cases h
      exact ⟨Nat.le_refl _, fun j less => absurd less (Nat.not_lt_zero j)⟩
  | succ remaining ih =>
      rw [iterations_succ] at h
      split at h
      · cases h
      · rename_i outcome m done
        simp only [Prod.mk.injEq, Except.ok.injEq] at h
        obtain ⟨rfl, rfl⟩ := h
        exact absurd done levels_ne_exhausted
      · rename_i m ended
        obtain ⟨above, others⟩ := ih (.next begun ended) h
        have opened : p.tally.peakFrontier ≤ m.tally.peakFrontier :=
          (levels_changes ended).peak_le
        refine ⟨Nat.le_trans opened above, ?_⟩
        intro j less
        cases j with
        | zero => exact ⟨p, m, begun, ended, above⟩
        | succ j =>
            rw [← Nat.add_assoc, Nat.add_right_comm]
            exact others j (by omega)

/-- A search that ends exhausted has come to each of its iterations, and those whose width is above the peak were
unfilled. -/
theorem unfilled_of_exhausted (h : search guide g c task memory = (.ok .exhausted, q))
    (less : k < c.iterations.toNat) (peak : q.tally.peakFrontier < (c.width k).toNat) :
    ∃ p, Begins guide g c task memory k p ∧ Unfilled guide g task.goal (c.width k).toNat c.maxLength.toNat
      [.root task.start] (p.opened (c.width k).toNat) := by
  unfold search searchAgain at h
  split at h
  · cases h
  · split at h
    · cases h
    · obtain ⟨-, all⟩ := levels_of_exhausted .first h
      obtain ⟨p, m, begun, ended, below⟩ := all k less
      rw [Nat.zero_add] at begun ended
      exact ⟨p, begun, unfilled_of_peak ended (Nat.lt_of_le_of_lt below peak)⟩

/-- An unfilled search is lossless. Where an iteration has walked some levels and each of them has left room in
its beam, no program of at most as many registered steps leads from the inputs to exactly the goal. So a search
that ends exhausted, with a peak below the width of one of its iterations, has ruled out all programs that its
settings allow. -/
theorem unfilled_search_lossless :
    (∀ k p L program, Begins guide g c task memory k p → L ≤ c.maxLength.toNat →
      Unfilled guide g task.goal (c.width k).toNat L [.root task.start] (p.opened (c.width k).toNat) →
      program.Within g L → task.start.run program ≠ .ok [⟨task.goal.components⟩]) ∧
    (∀ k q program, search guide g c task memory = (.ok .exhausted, q) → k < c.iterations.toNat →
      q.tally.peakFrontier < (c.width k).toNat →
      program.Within g c.maxLength.toNat → task.start.run program ≠ .ok [⟨task.goal.components⟩]) := by
  have carries : ∀ node ∈ [Node.root task.start], State.Carries (0 + 1) node.state := by
    intro node hn
    rw [List.mem_singleton.mp hn]
    exact State.carries_ofInputs task.inputs
  constructor
  · intro k p L program begun deep unfilled within
    exact run_ne_of_unfilled unfilled carries within (List.mem_singleton_self _)
  · intro k q program h less peak within
    obtain ⟨p, -, unfilled⟩ := unfilled_of_exhausted h less peak
    exact run_ne_of_unfilled unfilled carries within (List.mem_singleton_self _)

section Fives

def Task.ofFive : Task := ⟨[.ofInts [1, 2]], .int 5⟩

def Settings.brief : Settings := { maxLength := 2, iterations := 1 }

theorem eq_exhausted_of_label {r : Except SearchError Outcome}
    (label : r.toOption.map Outcome.label = some "exhausted") : r = .ok .exhausted := by
  rcases r with e | s | _ | _
  · cases label
  · simp [Except.toOption, Outcome.label] at label
  · rfl
  · simp [Except.toOption, Outcome.label] at label

theorem exhausted_of_five : ∃ q, search .blind .summing .brief .ofFive () = (.ok .exhausted, q) ∧
    q.tally.peakFrontier = 2 := by
  have exhausted := eq_exhausted_of_label (r := (search .blind .summing .brief .ofFive ()).1) (by cbv)
  exact ⟨_, Prod.ext exhausted rfl, by cbv⟩

theorem unfilled_of_five : ∃ p, Begins .blind .summing .brief .ofFive () 0 p ∧
    Unfilled .blind .summing Task.ofFive.goal (Settings.brief.width 0).toNat 2 [.root Task.ofFive.start]
      (p.opened (Settings.brief.width 0).toNat) := by
  obtain ⟨q, h, peak⟩ := exhausted_of_five
  exact unfilled_of_exhausted h (by decide) (by rw [peak]; decide)

theorem unfilled_search_lossless_of_five :
    Task.ofFive.start.run [⟨.copy, [0]⟩, ⟨.sum, [1]⟩] ≠ .ok [⟨Task.ofFive.goal.components⟩] ∧
      Task.ofFive.start.run [⟨.sum, [0]⟩] ≠ .ok [⟨Task.ofFive.goal.components⟩] := by
  have copied : Program.Within .summing 2 [⟨.copy, [0]⟩, ⟨.sum, [1]⟩] := ⟨by simp, by simp, by decide⟩
  have summed : Program.Within .summing 2 [⟨.sum, [0]⟩] := ⟨by simp, by simp, by decide⟩
  obtain ⟨p, begun, unfilled⟩ := unfilled_of_five
  obtain ⟨q, h, peak⟩ := exhausted_of_five
  exact ⟨unfilled_search_lossless.1 0 p 2 _ begun (by decide) unfilled copied,
    unfilled_search_lossless.2 0 q _ h (by decide) (by rw [peak]; decide) summed⟩

end Fives

end Iterations

end ListSynth
