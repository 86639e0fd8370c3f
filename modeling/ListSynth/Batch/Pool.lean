import ListSynth.Batch.Summary
/-!
The pool that runs a batch: workers pull tasks from one queue and report on one channel, from which a
coordinator collects; a flag that all of them share asks the workers to stop.
-/

namespace ListSynth.Batch

inductive Message where
  | done (worker task : Nat) (outcome : TaskOutcome)
  | idle (worker : Nat)

inductive Phase where
  | ready
  /-- At work on a task, with what the flag has told so far. -/
  | working (task : Nat) (readings : List Bool)
  /-- The queue was found empty, which is not reported yet. -/
  | drained
  | idle
  /-- Done with the channel as well. -/
  | gone
  deriving DecidableEq, Repr

structure Pool where
  queue : List Nat
  workers : List Phase
  /-- Messages on their way, the oldest first. -/
  channel : List Message
  cancelled : Bool
  collected : List (Option TaskOutcome)
  idleSeen : Nat
  stopped : Bool

inductive Event where
  /-- A ready worker takes the next task, or finds the queue empty. -/
  | pull (worker : Nat)
  | read (worker : Nat)
  | report (worker : Nat) (outcome : TaskOutcome)
  | signOff (worker : Nat)
  | leave (worker : Nat)
  /-- The coordinator takes the oldest message. Where there is none, it waits in vain, or finds that nobody
  is left to send one. -/
  | receive
  /-- The flag is raised, by the coordinator at a deadline or from outside. -/
  | cancel

namespace Pool

def start (workers tasks : Nat) (cancelled : Bool) : Pool where
  queue := List.range tasks
  workers := List.replicate workers .ready
  channel := []
  cancelled := cancelled
  collected := List.replicate tasks none
  idleSeen := 0
  stopped := false

def next? (p : Pool) : Option Nat := p.queue.head?

def place (p : Pool) (worker : Nat) (phase : Phase) : Pool :=
  { p with workers := p.workers.set worker phase }

def send (p : Pool) (m : Message) : Pool := { p with channel := p.channel ++ [m] }

def pull (p : Pool) (worker : Nat) : Pool :=
  match p.queue with
  | task :: rest => { p with queue := rest }.place worker (.working task [])
  | [] => p.place worker .drained

def report (p : Pool) (worker task : Nat) (outcome : TaskOutcome) : Pool :=
  (p.send (.done worker task outcome)).place worker .ready

/-- The pool after the coordinator took in a message. It stops once every worker has been seen idle. -/
def collect (p : Pool) : Message → Pool
  | .done _ task outcome => { p with collected := p.collected.set task (some outcome) }
  | .idle _ =>
    { p with idleSeen := p.idleSeen + 1, stopped := decide (p.workers.length ≤ p.idleSeen + 1) }

/-- The pool after the coordinator turned to the channel. Without a message and without a worker that could
send one, it stops. -/
def receive (p : Pool) : Pool :=
  match p.channel with
  | m :: rest => { p with channel := rest }.collect m
  | [] => { p with stopped := p.workers.all (· = .gone) }

/-- The pool after an event. One that cannot happen changes nothing. -/
def after (p : Pool) : Event → Pool
  | .pull worker =>
    match p.workers[worker]? with
    | some .ready => p.pull worker
    | _ => p
  | .read worker =>
    match p.workers[worker]? with
    | some (.working task readings) => p.place worker (.working task (readings ++ [p.cancelled]))
    | _ => p
  | .report worker outcome =>
    match p.workers[worker]? with
    | some (.working task _) => p.report worker task outcome
    | _ => p
  | .signOff worker =>
    match p.workers[worker]? with
    | some .drained => (p.send (.idle worker)).place worker .idle
    | _ => p
  | .leave worker =>
    match p.workers[worker]? with
    | some .idle => p.place worker .gone
    | _ => p
  | .receive => if p.stopped then p else p.receive
  | .cancel => { p with cancelled := true }

def outcomes (p : Pool) : List TaskOutcome :=
  p.collected.map (·.getD (.failed "worker exited before reporting"))

end Pool

end ListSynth.Batch
