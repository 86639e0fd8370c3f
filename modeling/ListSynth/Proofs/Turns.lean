import ListSynth.Proofs.Schedules
/-!
A batch run in turns. The schedule that takes the tasks one after another comes to its end with the outcomes
that it was given, so it is as good as any other.
-/

namespace ListSynth.Batch

namespace Pool

variable {p : Pool} {w task n : Nat} {rest : List Nat} {outcome : TaskOutcome}

theorem after_round (here : p.workers[w]? = some .ready) (queue : p.queue = task :: rest) (channel : p.channel = [])
    (going : p.stopped = false) : [.pull w, .report w outcome, .receive].foldl after p =
      { p with queue := rest, collected := p.collected.set task (some outcome) } := by
  have back : p.workers.set w .ready = p.workers := congrArg Pool.workers (place_self here)
  have pulled : p.after (.pull w) = { p with queue := rest }.place w (.working task []) := by
    simp only [after, here, pull, queue]
  have working : ({ p with queue := rest }.place w (.working task [])).workers[w]? = some (.working task []) :=
    workers_place_self here
  rw [List.foldl_cons, pulled, List.foldl_cons, after, working]
  simp [after, receive, report, collect, place, send, channel, going, back]

end Pool

namespace Job

variable {n : Nat}

/-- The pool once some tasks were dealt and the workers are ready for the others. -/
def dealt (n : Nat) (done : List TaskOutcome) (left : Nat) : Pool :=
  { Pool.start n left false with
    queue := List.range' done.length left, collected := done.map some ++ List.replicate left none }

theorem dealt_rounds (pos : 0 < n) (done outcomes : List TaskOutcome) :
    ((outcomes.zipIdx done.length).flatMap fun x => [.pull (x.2 % n), .report (x.2 % n) x.1, .receive]).foldl
      Pool.after (dealt n done outcomes.length) = dealt n (done ++ outcomes) 0 := by
  induction outcomes generalizing done with
  | nil => simp
  | cons o rest ih =>
      have here : (dealt n done (o :: rest).length).workers[done.length % n]? = some .ready := by
        simp [dealt, Pool.start, Nat.mod_lt _ pos]
      have next : { dealt n done (o :: rest).length with
          queue := List.range' (done.length + 1) rest.length
          collected := (dealt n done (o :: rest).length).collected.set done.length (some o) } =
            dealt n (done ++ [o]) rest.length := by
        simp [dealt, Pool.start, List.replicate_succ]
      rw [List.zipIdx_cons, List.flatMap_cons, List.foldl_append, Pool.after_round here rfl rfl rfl, next]
      simpa using ih (done ++ [o])

def dismissed (n : Nat) (outcomes : List TaskOutcome) (off : Nat) : Pool :=
  { dealt n outcomes 0 with
    workers := List.replicate off .idle ++ List.replicate (n - off) .ready
    idleSeen := off
    stopped := decide (n ≤ off) }

theorem dismissed_farewells (pos : 0 < n) (outcomes : List TaskOutcome) {off : Nat} (within : off ≤ n) :
    ((List.range off).flatMap fun w => [.pull w, .signOff w, .receive]).foldl Pool.after (dealt n outcomes 0) =
      dismissed n outcomes off := by
  induction off with
  | zero => simp [dismissed, dealt, Pool.start, Nat.ne_of_gt pos]
  | succ off ih =>
      obtain ⟨left, others⟩ : ∃ left, n - off = left + 1 := ⟨n - off - 1, by omega⟩
      have fewer : n - (off + 1) = left := by omega
      have size : off + (left + 1) = n := by omega
      have here : (dismissed n outcomes off).workers[off]? = some .ready := by
        simp [dismissed, others]
      have going : (dismissed n outcomes off).stopped = false := by
        simp [dismissed]
        omega
      rw [List.range_succ, List.flatMap_append, List.foldl_append, ih (Nat.le_of_succ_le within),
        List.flatMap_singleton, Pool.after_farewell here rfl rfl going]
      simp [dismissed, dealt, Pool.start, others, fewer, size, List.replicate_succ (n := left),
        List.replicate_succ' (n := off)]

theorem foldl_events (pos : 0 < n) (outcomes : List TaskOutcome) :
    (events n outcomes).foldl Pool.after (dealt n [] outcomes.length) = dismissed n outcomes n := by
  rw [events, List.foldl_append, ← dismissed_farewells pos outcomes (Nat.le_refl n)]
  have rounds := dealt_rounds pos [] outcomes
  exact congrArg (List.foldl Pool.after · _) rounds

variable {job : Job} {index : Nat} {task : Task} {cancelled : Bool} {sent : List Message} {p : Pool}

theorem collect_eq {outcomes : List TaskOutcome} (all : outcomes.length = job.tasks.length) :
    job.collect outcomes = outcomes := by
  have begun : job.pool false =
      dealt (job.plan.effectiveWorkers job.tasks.length) [] outcomes.length := by
    simp [pool, dealt, Pool.start, List.range_eq_range', all]
  have ended := foldl_events (effectiveWorkers_pos job.plan job.tasks.length) outcomes
  rw [← begun] at ended
  rw [collect]
  simp only [ended]
  simp [Pool.outcomes, dismissed, dealt, Function.comp_def]

/-- What a batch that is run in turns gives when the flag stays down is, but for times, what any schedule gives
that leaves the flag down. -/
theorem Schedule.untimed_run (run : job.Schedule (job.pool cancelled) sent p) (stopped : p.stopped = true)
    (down : p.cancelled = false) (seeded : job.Seeded) :
    p.outcomes.map TaskOutcome.untimed = (job.run false).map TaskOutcome.untimed := by
  have alike : ∀ x : Task × Nat, (job.attempt x.2 x.1 fun _ => false).untimed = (job.fresh x.2 x.1).untimed :=
    fun x => untimed_trial seeded x.2 x.1 _ 0
  rw [run.untimed_outcomes stopped down seeded, Job.run, collect_eq (by simp [attempts]), attempts, List.map_map]
  exact List.map_congr_left fun x _ => (alike x).symm

end Job

end ListSynth.Batch
