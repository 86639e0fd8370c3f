import ListSynth.CommandLine.Arguments
import ListSynth.CommandLine.Job
/-!
The program: it reads files and the clock, and prints.
-/

namespace ListSynth.CommandLine

def help : String :=
  "neural-guided synthesis of list-processing programs\n\n" ++
  "Usage: synth --input <VALUE>... --target <VALUE> [SEARCH OPTIONS]\n" ++
  "       batch <TASKS> [-j <WORKERS>] [SEARCH OPTIONS]\n" ++
  "       grammar [--grammar <FILE>]\n\n" ++
  "Search options: --beam-size <N> --max-length <N> --iterations <N> --widening-factor <N>\n" ++
  "                --scorer <uniform|random> --seed <N> --timeout <SECONDS> --grammar <FILE> --json\n"

def readFiles (names : List String) : IO (String → Option String) := do
  let entries ← names.mapM fun (name : String) => do
    let text ← try pure (String.fromUTF8? (← IO.FS.readBinFile name)) catch _ => pure none
    return (name, text)
  return fun name => (entries.lookup name).join

def drawEntropy : IO UInt64 := do
  return (← IO.getRandomBytes 8).toList.foldl (fun n b => n * 256 + b.toUInt64) 0

def deadline (start : Nat) (timeout : Option UInt64) : Option Nat :=
  timeout.map fun seconds => start + seconds.toNat * 1000000000

def isPast (limit : Option Nat) : IO Bool := do
  match limit with
  | none => return false
  | some t => return decide (t ≤ (← IO.monoNanosNow))

/-- Make an attempt with ever more patience, until it ends by itself or the deadline has passed. -/
partial def persist {α : Type} (limit : Option Nat) (attempt : (Nat → Bool) → α)
    (stopped : α → Bool) (patience : Nat) : IO α := do
  match limit with
  | none => return attempt fun _ => false
  | some _ =>
    let result := attempt fun n => decide (patience ≤ n)
    if stopped result && !(← isPast limit) then persist limit attempt stopped (patience * 2)
    else return result

def timed {α : Type} (act : IO α) : IO (α × Nat) := do
  let start ← IO.monoNanosNow
  let result ← act
  return (result, (← IO.monoNanosNow) - start)

def wasStopped : Except Failure (Outcome × Tally) → Bool
  | .ok (.cancelled, _) => true
  | _ => false

def wasCancelled : TaskOutcome → Bool
  | .finished .cancelled _ => true
  | _ => false

def carryOut : Job → IO (Except Failure Output)
  | .synth job => do
    let limit := deadline (← IO.monoNanosNow) job.settings.timeout
    let (result, ns) ← timed (persist limit job.attempt wasStopped 1024)
    return result.map fun (o, t) => job.output o { t with elapsed := ns }
  | .batch job json => do
    let limit := deadline (← IO.monoNanosNow) job.plan.timeout
    let (outcomes, ns) ← timed (job.tasks.zipIdx.mapM fun (task, i) => do
      if ← isPast limit then return job.attempt i task fun _ => true
      let (o, ns) ← timed (persist limit (job.attempt i task) wasCancelled 1024)
      return o.withTime ns)
    return .ok (batchOutput json (job.collect outcomes) ns)
  | .list g => return .ok (listing g)

def perform (args : List String) : IO UInt32 := do
  match read args with
  | .error .misuse =>
    (← IO.getStderr).putStr help
    return 2
  | .error .help =>
    (← IO.getStdout).putStr help
    return 0
  | .error .version =>
    (← IO.getStdout).putStr version
    return 0
  | .ok command =>
    let files ← readFiles command.files
    let result ← match command.prepare files (← drawEntropy) with
      | .ok job => carryOut job
      | .error e => pure (.error e)
    match result with
    | .ok output =>
      (← IO.getStdout).putStr output.print
      return 0
    | .error e =>
      (← IO.getStderr).putStrLn ("Error: " ++ e.message)
      return 1

end ListSynth.CommandLine

def main (args : List String) : IO UInt32 := ListSynth.CommandLine.perform args
