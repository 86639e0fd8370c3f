import ListSynth.Batch.Pool
/-!
Running a batch. Every task is searched by itself, with a scorer of its own, so that nothing depends on
which worker takes it or when.
-/

namespace ListSynth.Batch

structure Plan where
  workers : Nat
  /-- The seed of the first task's scorer; each further task has the next one. -/
  baseSeed : Option UInt64 := none
  /-- Seconds after which the flag is raised. -/
  timeout : Option UInt64 := none

namespace Plan

def withWorkers (n : Nat) (baseSeed timeout : Option UInt64) : Plan :=
  ⟨max n 1, baseSeed, timeout⟩

def taskSeed (c : Plan) (task : Nat) : Option UInt64 := c.baseSeed.map (· + .ofNat task)

/-- No more workers than tasks, but one at the least. -/
def effectiveWorkers (c : Plan) (tasks : Nat) : Nat := max (min c.workers tasks) 1

end Plan

structure Job where
  tasks : List Task
  grammar : Grammar
  settings : Settings
  plan : Plan
  /-- The seed that stands in where none is given. -/
  entropy : UInt64

namespace Job

def seed? (job : Job) (task : Nat) : Option UInt64 := (job.plan.taskSeed task).or job.settings.seed

def scorer (job : Job) (task : Nat) (drawn : UInt64) : Scorer :=
  .ofKind ((job.seed? task).getD drawn) job.settings.scorer

/-- What a worker makes of a task when the successive readings of the flag are as given, and how many of them
it takes. The flag is read before the search and then in its course; only a search takes time. -/
def trial (job : Job) (index : Nat) (task : Task) (drawn : UInt64) (elapsed : Nat) (flag : Nat → Bool) :
    TaskOutcome × Nat :=
  if flag 0 then (.finished .cancelled {}, 1)
  else
    let (result, p) := search (Scorer.guide flag) job.grammar job.settings task (job.scorer index drawn, 1)
    ((TaskOutcome.ofSearch result p.tally).withTime elapsed, p.memory.2)

def attempt (job : Job) (index : Nat) (task : Task) (flag : Nat → Bool) : TaskOutcome :=
  (job.trial index task (job.entropy + .ofNat index) 0 flag).1

/-- Tasks are dealt to the workers in turn, each reported and received before the next; then the workers
find the queue empty. -/
def events (workers : Nat) (outcomes : List TaskOutcome) : List Event :=
  (outcomes.zipIdx.flatMap fun (o, i) =>
    [.pull (i % workers), .report (i % workers) o, .receive]) ++
  (List.range workers).flatMap fun w => [.pull w, .signOff w, .receive]

def attempts (job : Job) (flag : Nat → Bool) : List TaskOutcome :=
  job.tasks.zipIdx.map fun (task, i) => job.attempt i task flag

def pool (job : Job) (cancelled : Bool) : Pool :=
  .start (job.plan.effectiveWorkers job.tasks.length) job.tasks.length cancelled

def collect (job : Job) (outcomes : List TaskOutcome) : List TaskOutcome :=
  let workers := job.plan.effectiveWorkers job.tasks.length
  ((events workers outcomes).foldl Pool.after (job.pool false)).outcomes

/-- Run a batch whose flag is raised from the start, or never. -/
def run (job : Job) (cancelled : Bool) : List TaskOutcome :=
  job.collect (job.attempts fun _ => cancelled)

end Job

def entry (index : Nat) : TaskOutcome → Json
  | .finished o t =>
    .record (o.fields ++ [("statistics", t.document), ("task", .ofNat index)])
  | .failed message =>
    .record [("error", .string message), ("outcome", .string "failed"), ("task", .ofNat index)]

def line (index : Nat) : TaskOutcome → String
  | .finished (.solved s) _ =>
    "task " ++ toString index ++ ": solved (depth " ++ toString s.depth ++ ") " ++ s.expr.text ++ "\n"
  | .finished o _ => "task " ++ toString index ++ ": " ++ o.label ++ "\n"
  | .failed message => "task " ++ toString index ++ ": failed: " ++ message ++ "\n"

def document (os : List TaskOutcome) : Json :=
  Json.sorted <| .record [
    ("statistics", (totals os).document),
    ("summary", (Summary.ofOutcomes os).document),
    ("tasks", .list (os.zipIdx.map fun (o, i) => entry i o))]

def text (os : List TaskOutcome) (elapsed : Nat) : String :=
  String.join (os.zipIdx.map fun (o, i) => line i o) ++ "\n" ++
  (Summary.ofOutcomes os).text ++
  "\nSearch totals:\n" ++ (totals os).text ++
  "Wall time: " ++ Duration.text elapsed ++ "\n"

end ListSynth.Batch
