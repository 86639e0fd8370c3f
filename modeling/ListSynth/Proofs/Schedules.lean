import ListSynth.Batch.Run
import ListSynth.Proofs.Guides
import ListSynth.Proofs.Readings
import ListSynth.Proofs.Reordering
/-!
Batches under any schedule. Workers, searches and the coordinator may take their turns in any order and the flag
may be raised at any time; the outcomes are complete, and where the flag stays down they are those of searches
made by themselves.
-/

namespace ListSynth

def Tally.untimed (t : Tally) : Tally := { t with elapsed := 0 }

def TaskOutcome.untimed : TaskOutcome → TaskOutcome
  | .finished outcome t => .finished outcome t.untimed
  | .failed message => .failed message

theorem TaskOutcome.untimed_withTime (o : TaskOutcome) (ns : Nat) : (o.withTime ns).untimed = o.untimed := by
  cases o <;> rfl

namespace Batch

section Counts

variable {os os' : List TaskOutcome}

end Counts

namespace Job

variable {job : Job} {index : Nat} {task : Task} {readings rest : List Bool} {outcome : TaskOutcome}

/-- What a worker may report of a task when the flag has read as given: what a trial makes of it that takes
these readings, of which there is at least the first. -/
def Reports (job : Job) (index : Nat) (readings : List Bool) (outcome : TaskOutcome) : Prop :=
  readings ≠ [] ∧ ∃ task drawn elapsed, job.tasks[index]? = some task ∧
    job.trial index task drawn elapsed (fun n => (readings[n]?).getD false) = (outcome, readings.length)

/-- Nothing is left to chance: the scorer needs no seed, or one is given. -/
def Seeded (job : Job) : Prop :=
  job.settings.scorer = .uniform ∨ job.plan.baseSeed.isSome = true ∨ job.settings.seed.isSome = true

/-- What becomes of a task when it is searched by itself and nothing stops the search. The seed of its scorer is the
base seed moved on by the position of the task, or else the seed of the search; a uniform scorer needs none. -/
def fresh (job : Job) (index : Nat) (task : Task) : TaskOutcome :=
  let seed := (job.plan.baseSeed.map fun base => base + .ofNat index).or job.settings.seed
  let scorer := Scorer.ofKind (seed.getD 0) job.settings.scorer
  match search (Scorer.guide fun _ => false) job.grammar job.settings task (scorer, 0) with
  | (.ok outcome, p) => .finished outcome p.tally
  | (.error e, _) => .failed e.message

theorem fresh_eq_ofSearch (job : Job) (index : Nat) (task : Task) :
    let r := search (Scorer.guide fun _ => false) job.grammar job.settings task (job.scorer index 0, 0)
    job.fresh index task = .ofSearch r.1 r.2.tally := by
  have scorer : Scorer.ofKind (((job.plan.baseSeed.map fun base => base + .ofNat index).or
      job.settings.seed).getD 0) job.settings.scorer = job.scorer index 0 := rfl
  dsimp only [fresh]
  rw [scorer]
  rcases search (Scorer.guide fun _ => false) job.grammar job.settings task (job.scorer index 0, 0) with
    ⟨e | outcome, p⟩
  · rfl
  · rfl

theorem scorer_eq_of_seeded (seeded : job.Seeded) (a b : UInt64) : job.scorer index a = job.scorer index b := by
  rcases seeded with uniform | given
  · simp [scorer, uniform, Scorer.ofKind]
  · have known : ∃ seed, job.seed? index = some seed := by
      rw [← Option.isSome_iff_exists]
      simpa [seed?, Plan.taskSeed, Option.isSome_or] using given
    obtain ⟨seed, known⟩ := known
    simp [scorer, known]

theorem untimed_trial (seeded : job.Seeded) (index : Nat) (task : Task) (drawn : UInt64) (elapsed : Nat) :
    (job.trial index task drawn elapsed fun _ => false).1.untimed = (job.fresh index task).untimed := by
  have alike : (search (Scorer.guide fun _ => false) job.grammar job.settings task
      (job.scorer index 0, 1)).map id Progress.tally = _ := Scorer.search_of_down (job.scorer index 0) 1 0
  rw [scorer_eq_of_seeded seeded 0 drawn] at alike
  have timed : (job.trial index task drawn elapsed fun _ => false).1 = (TaskOutcome.ofSearch _ _).withTime elapsed :=
    rfl
  rw [timed, TaskOutcome.untimed_withTime, fresh_eq_ofSearch, scorer_eq_of_seeded seeded 0 drawn]
  exact congrArg (fun r => (TaskOutcome.ofSearch r.1 r.2).untimed) alike

theorem flag_of_down (down : ∀ b ∈ readings, b = false) :
    (fun n : Nat => (readings[n]?).getD false) = fun _ => false := by
  funext n
  cases reading : readings[n]? with
  | none => rfl
  | some b => exact down b (List.mem_of_getElem? reading)

theorem untimed_of_reports (seeded : job.Seeded) (down : ∀ b ∈ readings, b = false)
    (h : job.Reports index readings outcome) :
    ∃ task, job.tasks[index]? = some task ∧ outcome.untimed = (job.fresh index task).untimed := by
  obtain ⟨-, task, drawn, elapsed, here, made⟩ := h
  rw [flag_of_down down] at made
  have trial := untimed_trial seeded index task drawn elapsed
  rw [made] at trial
  exact ⟨task, here, trial⟩

/-- A trial reads the flag at least once. -/
theorem trial_reads (job : Job) (index : Nat) (task : Task) (drawn : UInt64) (elapsed : Nat) (flag : Nat → Bool) :
    0 < (job.trial index task drawn elapsed flag).2 := by
  unfold trial
  split
  · exact Nat.one_pos
  · have counted : (Scorer.guide flag).Always job.grammar (fun m => 0 < m.2) (job.scorer index drawn, 1) :=
      Guide.always_of_keeps (fun _ _ _ some => some) (fun _ _ => Nat.succ_pos _) Nat.one_pos
    exact counted _ (search_reaches rfl)

/-- There is something to report of every task when the flag stays as it is. -/
theorem exists_reports (here : job.tasks[index]? = some task) (flag : Bool) :
    ∃ outcome n, job.Reports index (List.replicate n flag) outcome := by
  cases flag with
  | true => exact ⟨.finished .cancelled {}, 1, by simp, task, 0, 0, here, rfl⟩
  | false =>
      have reads := job.trial_reads index task 0 0 fun _ => false
      obtain ⟨outcome, n, made⟩ : ∃ outcome n, job.trial index task 0 0 (fun _ => false) = (outcome, n) := ⟨_, _, rfl⟩
      rw [made] at reads
      refine ⟨outcome, n, ?_, task, 0, 0, here, ?_⟩
      · exact List.ne_nil_of_length_pos (by simpa using reads)
      · rw [flag_of_down fun b hb => List.eq_of_mem_replicate hb, List.length_replicate, made]

/-- A schedule of a job: events in any order, by which its pool becomes another. -/
abbrev Schedule (job : Job) (p : Pool) (sent : List Message) (q : Pool) : Prop := Pool.Runs job.Reports p sent q

def withWorkers (job : Job) (workers : Nat) : Job := { job with plan := { job.plan with workers } }

variable {cancelled : Bool} {sent more : List Message} {p q : Pool}

theorem effectiveWorkers_pos (plan : Plan) (tasks : Nat) : 0 < plan.effectiveWorkers tasks :=
  Nat.le_max_right _ _

theorem Schedule.complete (run : job.Schedule (job.pool cancelled) sent p) (stopped : p.stopped = true) :
    p.Complete (job.plan.effectiveWorkers job.tasks.length) job.tasks.length sent :=
  Pool.Runs.complete (effectiveWorkers_pos _ _) run stopped

/-- A worker that has taken a task can always come to report it. -/
theorem Schedule.reports {w : Nat} (run : job.Schedule p sent q) (working : q.workers[w]? = some (.working index []))
    (here : job.tasks[index]? = some task) :
    ∃ outcome, job.Schedule p (sent ++ [.done w index outcome]) (q.report w index outcome) := by
  obtain ⟨outcome, n, reports⟩ := exists_reports here q.cancelled
  exact ⟨outcome, Pool.Runs.reports run working n reports⟩

theorem Schedule.untimed_outcomes (run : job.Schedule (job.pool cancelled) sent p) (stopped : p.stopped = true)
    (down : p.cancelled = false) (seeded : job.Seeded) :
    p.outcomes.map TaskOutcome.untimed =
      job.tasks.zipIdx.map fun (task, i) => (job.fresh i task).untimed := by
  have complete := run.complete stopped
  have fair := Pool.Runs.fair run
  refine List.ext_getElem? fun i => ?_
  by_cases range : i < job.tasks.length
  · obtain ⟨m, told, same⟩ := List.mem_filterMap.mp (complete.once.mem_iff.mpr (List.mem_range.mpr range))
    cases m with
    | idle w => cases same
    | done w i' outcome =>
        cases same
        obtain ⟨readings, reports, read⟩ := fair.told w i outcome told
        obtain ⟨task, here, alike⟩ := untimed_of_reports seeded (read down) reports
        rw [List.getElem?_map, complete.entry w i outcome told, List.getElem?_map, List.getElem?_zipIdx, here]
        simp [alike]
  · rw [List.getElem?_eq_none, List.getElem?_eq_none]
    · simpa using range
    · simpa [complete.length] using range

end Job

section Sums

end Sums

end Batch

end ListSynth
