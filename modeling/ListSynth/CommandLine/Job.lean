import ListSynth.Batch.Run
import ListSynth.CommandLine.Command
import ListSynth.Text.Decode
/-!
Carrying out commands: what they need from files, what they search and what they print.
-/

namespace ListSynth.CommandLine

inductive Failure where
  | unreadable (file : String)
  | notJson (context : String)
  | grammar (e : GrammarError)
  | search (e : SearchError)
  deriving DecidableEq, Repr

def Failure.message : Failure → String
  | .unreadable file => "failed to read " ++ file
  | .notJson context => "invalid JSON in " ++ context
  | .grammar e => e.message
  | .search e => e.message

inductive Output where
  | text (s : String)
  | document (d : Json)

def Output.print : Output → String
  | .text s => s
  | .document d => d.pretty 0 ++ "\n"

structure Synth where
  task : Task
  grammar : Grammar
  settings : Settings
  scorer : Scorer
  json : Bool

inductive Job where
  | synth (job : Synth)
  | batch (job : Batch.Job) (json : Bool)
  | list (grammar : Grammar)

def readValue (s : String) : Except Failure Value :=
  match Value.ofText? s with
  | some v => .ok v
  | none => .error (.notJson ("'" ++ s ++ "'"))

def readFile (files : String → Option String) (file : String) : Except Failure String :=
  match files file with
  | some text => .ok text
  | none => .error (.unreadable file)

def readGrammar (files : String → Option String) : Option String → Except Failure Grammar
  | none => .ok .default
  | some file => do
    match Alphabets.ofText? (← readFile files file) with
    | none => .error (.notJson file)
    | some a => (Grammar.ofAlphabets a).mapError .grammar

def readTasks (files : String → Option String) (file : String) : Except Failure (List Task) := do
  match Task.allOfText? (← readFile files file) with
  | none => .error (.notJson file)
  | some tasks => .ok tasks

def Command.files : Command → List String
  | .synth _ _ o => o.grammar.toList
  | .batch tasks _ o => tasks :: o.grammar.toList
  | .grammar file => file.toList

/-- Read what a command needs. A seed that is not given is made up from the entropy. -/
def Command.prepare (files : String → Option String) (entropy : UInt64) : Command → Except Failure Job
  | .synth inputs target o => do
    let inputs ← inputs.mapM readValue
    let target ← readValue target
    let grammar ← readGrammar files o.grammar
    let scorer := Scorer.ofKind (o.settings.seed.getD entropy) o.settings.scorer
    return .synth ⟨⟨inputs, target⟩, grammar, o.settings, scorer, o.json⟩
  | .batch tasks workers o => do
    let tasks ← readTasks files tasks
    let grammar ← readGrammar files o.grammar
    match o.settings.fault? with
    | some e => .error (.search (.settings e))
    | none =>
      let plan := Batch.Plan.withWorkers ((workers.map UInt64.toNat).getD 1) o.settings.seed o.settings.timeout
      return .batch ⟨tasks, grammar, o.settings, plan, entropy⟩ o.json
  | .grammar file => return .list (← readGrammar files file)

/-- Search a task when the successive readings of the stop flag are as given. -/
def Synth.attempt (job : Synth) (flag : Nat → Bool) : Except Failure (Outcome × Tally) :=
  match search (Scorer.guide flag) job.grammar job.settings job.task (job.scorer, 0) with
  | (.ok outcome, p) => .ok (outcome, p.tally)
  | (.error e, _) => .error (.search e)

def Synth.output (job : Synth) (o : Outcome) (t : Tally) : Output :=
  if job.json then .document (o.document t)
  else .text <|
    "Inputs: " ++ ", ".intercalate (job.task.inputs.map Value.text) ++ "\n" ++
    "Target: " ++ job.task.target.text ++ "\n" ++ o.text ++
    "\nStatistics:\n" ++ t.text

def batchOutput (json : Bool) (os : List TaskOutcome) (elapsed : Nat) : Output :=
  if json then .document (Batch.document os) else .text (Batch.text os elapsed)

def placed (n : Nat) : String :=
  let s := toString n
  String.ofList (List.replicate (3 - s.length) ' ') ++ s

def listing (g : Grammar) : Output :=
  .text <|
    String.join (g.combinators.zipIdx.map fun (c, i) => placed i ++ "  " ++ c.text ++ "\n") ++
    "\n" ++ toString g.combinators.length ++ " combinators\n"

/-- Carry out a job that nothing stops, and leave out the time it takes. -/
def Job.run : Job → Except Failure Output
  | .synth job => do
    let (o, t) ← job.attempt fun _ => false
    return job.output o t
  | .batch job json => return batchOutput json (job.run false) 0
  | .list g => return listing g

end ListSynth.CommandLine
