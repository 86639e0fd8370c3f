import ListSynth.Proofs.Alike
import ListSynth.Proofs.Course
import ListSynth.Proofs.Widths
/-!
A widening search as searches of one iteration each, one after the other. Iterations share nothing but the tally, so
under a guide that answers the same whatever it has been asked before, each goes as a search of its own.
-/

namespace ListSynth

variable {σ : Type} {guide : Guide σ} {g : Grammar} {c : Settings} {task : Task} {memory : σ} {p q r : Progress σ}
  {outcome : Option Outcome} {s : Solution} {k : Nat}

section Singles

/-- Settings of a search of one iteration, as wide as the iteration of the given number. -/
def Settings.single (c : Settings) (k : Nat) : Settings := { c with iterations := 1, beamSize := c.width k }

theorem Settings.width_single (c : Settings) (k : Nat) : (c.single k).width 0 = c.width k := by
  apply UInt64.toNat_inj.mp
  have below : (c.width k).toNat ≤ greatest := by
    rw [toNat_width]
    exact Nat.min_le_right _ _
  rw [toNat_width, Nat.pow_zero, Nat.one_mul]
  exact Nat.min_eq_left below

theorem Settings.fault?_single (settings : c.fault? = none) (k : Nat) : (c.single k).fault? = none := by
  refine fault?_eq_none_iff.mpr ?_
  rintro (narrow | none | steep)
  · have wide := width_pos settings k
    rw [show c.width k = 0 from narrow] at wide
    exact Nat.lt_irrefl 0 wide
  · exact absurd (show (1 : UInt32) = 0 from none) (by decide)
  · exact fault?_eq_none_iff.mp settings (.inr (.inr steep))

theorem iteration_single (k : Nat) (p : Progress σ) :
    iteration guide g (c.single k) task 0 p = iteration guide g c task k p := by
  unfold iteration
  rw [Settings.width_single]
  rfl

variable (settings : c.fault? = none) (inputs : task.fault? = none)

include settings inputs

theorem search_single_of_solved {outcome : Outcome}
    (solved : iteration guide g c task k ⟨{}, memory⟩ = (.ok (some outcome), q)) :
    search guide g (c.single k) task memory = (.ok outcome, q) := by
  rw [← iteration_single] at solved
  exact search_of_outcome (c.fault?_single settings k) inputs .first Nat.one_pos solved

theorem search_single_of_none (ended : iteration guide g c task k ⟨{}, memory⟩ = (.ok none, q)) :
    search guide g (c.single k) task memory = (.ok .exhausted, q) := by
  rw [← iteration_single] at ended
  exact search_of_all (c.fault?_single settings k) inputs (.next .first ended)

end Singles

section Steady

/-- From a memory on, a guide answers a goal and a state always with the same weights. -/
def Guide.Steady (guide : Guide σ) (g : Grammar) (m : σ) : Prop :=
  ∃ answer : Goal → State → Weights,
    guide.Always g (fun n => ∀ goal s, (guide.predict g goal s n).1 = answer goal s) m

/-- All memories that a steady guide comes to are alike to a search that is not stopped. -/
theorem Guide.Steady.alike (steady : guide.Steady g memory) (unstopped : guide.Unstopped g memory) :
    guide.Alike guide g fun m n => guide.Reaches g memory m ∧ guide.Reaches g memory n := by
  obtain ⟨answer, always⟩ := steady
  constructor
  · intro m n goal s ⟨here, there⟩
    exact ⟨(always n there goal s).trans (always m here goal s).symm, .asked here goal s, .asked there goal s⟩
  · intro m n ⟨here, there⟩
    exact ⟨(unstopped n there).trans (unstopped m here).symm, .read here, .read there⟩

variable (steady : guide.Steady g memory) (unstopped : guide.Unstopped g memory)

include steady unstopped

/-- An iteration of a search ends as one that starts from nothing, and adds to the tally what that one counts. -/
theorem exists_fresh_iteration (begun : Begins guide g c task memory k p)
    (ended : iteration guide g c task k p = (.ok outcome, q)) :
    ∃ r, iteration guide g c task k ⟨{}, memory⟩ = (.ok outcome, r) ∧ q.tally = p.tally ++ r.tally := by
  have follows : Progress.Follows p.tally (fun m n => guide.Reaches g memory m ∧ guide.Reaches g memory n)
      (Progress.opened ⟨{}, memory⟩ (c.width k).toNat) (p.opened (c.width k).toNat) := by
    refine ⟨?_, .refl, begun.reaches⟩
    exact (congrArg (Tally.startIteration · _) Tally.append_nothing.symm).trans (Tally.append_startIteration _)
  obtain ⟨result, r, q', fresh, same, tally, -⟩ :=
    ((steady.alike unstopped).levels task (c.width k).toNat c.maxLength.toNat 0 [.root task.start] follows).exists_eq
  have both := ended.symm.trans same
  cases both
  exact ⟨r, fresh, tally⟩

variable (settings : c.fault? = none) (inputs : task.fault? = none)

include settings inputs

/-- What a search has counted when it comes to an iteration is what the single searches before have counted. -/
theorem tally_of_begins (begun : Begins guide g c task memory k p) :
    (∀ j < k, (search guide g (c.single j) task memory).1 = .ok .exhausted) ∧
      p.tally = Tally.total ((List.range k).map fun j => (search guide g (c.single j) task memory).2.tally) := by
  induction begun with
  | first => exact ⟨fun j less => absurd less (Nat.not_lt_zero j), rfl⟩
  | @next k p q begun ended ih =>
      obtain ⟨before, counted⟩ := ih
      obtain ⟨r, fresh, tally⟩ := exists_fresh_iteration steady unstopped begun ended
      have single := search_single_of_none settings inputs fresh
      constructor
      · intro j less
        rcases Nat.lt_succ_iff_lt_or_eq.mp less with earlier | rfl
        · exact before j earlier
        · rw [single]
      · rw [List.range_succ, List.map_append, List.map_singleton, Tally.total_concat, single, tally, counted]

/-- Widening is the sequence of its iterations as searches of their own. Under a guide that covers the grammar, answers
the same whatever it has been asked before and never stops, a search is solved exactly when one of the single searches
is, with the solution of the first that is; otherwise it ends exhausted. And its tally is that of the single searches up
to there, one after the other: counts added, peaks compared and all widths listed. -/
theorem search_eq_singles (covers : guide.Covers g memory) :
    (∃ k s, k < c.iterations.toNat ∧ (∀ j < k, (search guide g (c.single j) task memory).1 = .ok .exhausted) ∧
      (search guide g (c.single k) task memory).1 = .ok (.solved s) ∧
      (search guide g c task memory).1 = .ok (.solved s) ∧
      (search guide g c task memory).2.tally =
        Tally.total ((List.range (k + 1)).map fun j => (search guide g (c.single j) task memory).2.tally)) ∨
    ((∀ j < c.iterations.toNat, (search guide g (c.single j) task memory).1 = .ok .exhausted) ∧
      (search guide g c task memory).1 = .ok .exhausted ∧
      (search guide g c task memory).2.tally =
        Tally.total ((List.range c.iterations.toNat).map fun j => (search guide g (c.single j) task memory).2.tally)) := by
  rcases solved_or_begins covers unstopped c task c.iterations.toNat with
    ⟨k, less, p, s, q, begun, solved⟩ | ⟨p, begun⟩
  · obtain ⟨before, counted⟩ := tally_of_begins steady unstopped settings inputs begun
    obtain ⟨r, fresh, tally⟩ := exists_fresh_iteration steady unstopped begun solved
    have single := search_single_of_solved settings inputs fresh
    have whole := search_of_outcome settings inputs begun less solved
    refine .inl ⟨k, s, less, before, ?_, ?_, ?_⟩
    · rw [single]
    · rw [whole]
    · rw [List.range_succ, List.map_append, List.map_singleton, Tally.total_concat, single, whole, ← counted]
      exact tally
  · obtain ⟨before, counted⟩ := tally_of_begins steady unstopped settings inputs begun
    have whole := search_of_all settings inputs begun
    rw [whole]
    exact .inr ⟨before, rfl, counted⟩

end Steady

section Threes

def Grammar.taking : Grammar := ⟨{ families := [.take, .sum], takeDropNumbers := [1, 2] }, by decide⟩

def Task.ofThree : Task := ⟨[.ofInts [1, 2, 7]], .int 3⟩

def Settings.widened : Settings := { beamSize := 1, widening := 8, iterations := 2, maxLength := 2 }

theorem search_eq_singles_of_three : ∃ s,
    (search .blind .taking (Settings.widened.single 0) .ofThree ()).1 = .ok .exhausted ∧
    (search .blind .taking (Settings.widened.single 1) .ofThree ()).1 = .ok (.solved s) ∧
    (search .blind .taking .widened .ofThree ()).1 = .ok (.solved s) ∧
    (search .blind .taking .widened .ofThree ()).2.tally =
      (search .blind .taking (Settings.widened.single 0) .ofThree ()).2.tally ++
        ((search .blind .taking (Settings.widened.single 1) .ofThree ()).2.tally ++ {}) := by
  have settings : Settings.widened.fault? = none := rfl
  have inputs : Task.ofThree.fault? = none := rfl
  have steady : Guide.blind.Steady .taking () := ⟨_, fun _ _ _ _ => rfl⟩
  have unsolved : (search .blind .taking (Settings.widened.single 0) .ofThree ()).1.toOption.map Outcome.label =
      some "exhausted" := by cbv
  have solved : (search .blind .taking (Settings.widened.single 1) .ofThree ()).1.toOption.map Outcome.label =
      some "solved" := by cbv
  rcases search_eq_singles steady (Guide.unstopped_blind _) settings inputs (Guide.covers_blind _) with
    ⟨k, s, less, before, single, whole, tally⟩ | ⟨all, -⟩
  · have two : Settings.widened.iterations.toNat = 2 := rfl
    obtain rfl | rfl : k = 0 ∨ k = 1 := by omega
    · rw [single] at unsolved
      simp [Except.toOption, Outcome.label] at unsolved
    · exact ⟨s, before 0 Nat.one_pos, single, whole, tally⟩
  · rw [all 1 (by decide)] at solved
    simp [Except.toOption, Outcome.label] at solved

end Threes

end ListSynth
