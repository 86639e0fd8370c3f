import ListSynth.Guide
import ListSynth.Search.Settings
/-!
Commands and the options they are given by.
-/

namespace ListSynth.CommandLine

inductive Mode where
  | synth
  | batch
  | grammar
  deriving DecidableEq, Repr

inductive Key where
  | input
  | target
  | workers
  | beamSize
  | maxLength
  | iterations
  | widening
  | scorer
  | seed
  | timeout
  | grammar
  | json
  | verbose
  | help
  deriving DecidableEq, Repr

structure SearchOptions where
  settings : Settings
  grammar : Option String
  json : Bool
  deriving Repr

inductive Command where
  | synth (inputs : List String) (target : String) (options : SearchOptions)
  | batch (tasks : String) (workers : Option UInt64) (options : SearchOptions)
  | grammar (file : Option String)
  deriving Repr

def version : String := "flexcoder 0.1.0\n"

/-- Why the arguments ask for no command: they are at fault, or they ask for help or the version. -/
inductive Stop where
  | misuse
  | help
  | version
  deriving DecidableEq, Repr

namespace Mode

def name : Mode → String
  | .synth => "synth"
  | .batch => "batch"
  | .grammar => "grammar"

def all : List Mode := [.synth, .batch, .grammar]

def ofName? (s : String) : Option Mode := all.find? (·.name == s)

def searchKeys : List Key :=
  [.beamSize, .maxLength, .iterations, .widening, .scorer, .seed, .timeout, .grammar, .json]

def keys : Mode → List Key
  | .synth => [.input, .target] ++ searchKeys ++ [.verbose, .help]
  | .batch => [.workers] ++ searchKeys ++ [.verbose, .help]
  | .grammar => [.grammar, .verbose, .help]

end Mode

namespace Key

def long : Key → String
  | .input => "input"
  | .target => "target"
  | .workers => "workers"
  | .beamSize => "beam-size"
  | .maxLength => "max-length"
  | .iterations => "iterations"
  | .widening => "widening-factor"
  | .scorer => "scorer"
  | .seed => "seed"
  | .timeout => "timeout"
  | .grammar => "grammar"
  | .json => "json"
  | .verbose => "verbose"
  | .help => "help"

def short? : Key → Option Char
  | .workers => some 'j'
  | .verbose => some 'v'
  | .help => some 'h'
  | _ => none

def takesValue : Key → Bool
  | .json | .verbose | .help => false
  | _ => true

def takesHyphens : Key → Bool
  | .input | .target => true
  | _ => false

end Key

structure Draft where
  /-- The inputs, the latest first. -/
  inputs : List String := []
  target : Option String := none
  tasks : Option String := none
  workers : Option UInt64 := none
  beamSize : Option UInt64 := none
  maxLength : Option UInt64 := none
  iterations : Option UInt32 := none
  widening : Option UInt64 := none
  scorer : Option ScorerKind := none
  seed : Option UInt64 := none
  timeout : Option UInt64 := none
  grammar : Option String := none
  json : Bool := false

def digits? (cs : List Char) : Option Nat :=
  if !cs.isEmpty && cs.all Char.isDigit then some (Nat.ofDigitChars 10 cs 0) else none

def natural? (s : String) : Option Nat :=
  match s.toList with
  | '+' :: cs => digits? cs
  | cs => digits? cs

def word? (s : String) : Option UInt64 :=
  (natural? s).bind fun n => if n < UInt64.size then some (.ofNat n) else none

/-- A count of 32 bits. Zero may have a minus sign. -/
def halfWord? (s : String) : Option UInt32 :=
  let n := match s.toList with
    | '-' :: cs => (digits? cs).filter (· = 0)
    | _ => natural? s
  n.bind fun n => if n < UInt32.size then some (.ofNat n) else none

def file? (s : String) : Option String := if s.isEmpty then none else some s

def scorer? (s : String) : Option ScorerKind :=
  [ScorerKind.uniform, .random].find? (·.name == s)

/-- A first value. A second one for the same option is refused. -/
def once {α : Type} (old new : Option α) : Option (Option α) :=
  match old with
  | none => new.map some
  | some _ => none

namespace Draft

def set (d : Draft) (key : Key) (s : String) : Option Draft :=
  match key with
  | .input => some { d with inputs := s :: d.inputs }
  | .target => (once d.target (some s)).map fun x => { d with target := x }
  | .workers => (once d.workers (word? s)).map fun x => { d with workers := x }
  | .beamSize => (once d.beamSize (word? s)).map fun x => { d with beamSize := x }
  | .maxLength => (once d.maxLength (word? s)).map fun x => { d with maxLength := x }
  | .iterations => (once d.iterations (halfWord? s)).map fun x => { d with iterations := x }
  | .widening => (once d.widening (word? s)).map fun x => { d with widening := x }
  | .scorer => (once d.scorer (scorer? s)).map fun x => { d with scorer := x }
  | .seed => (once d.seed (word? s)).map fun x => { d with seed := x }
  | .timeout => (once d.timeout (word? s)).map fun x => { d with timeout := x }
  | .grammar => (once d.grammar (file? s)).map fun x => { d with grammar := x }
  | .json => if d.json then none else some { d with json := true }
  | .verbose => some d
  | .help => none

def place (d : Draft) (mode : Mode) (s : String) : Option Draft :=
  match mode with
  | .batch => (once d.tasks (file? s)).map fun x => { d with tasks := x }
  | _ => none

def options (d : Draft) : SearchOptions :=
  let c : Settings := {}
  { settings := {
      beamSize := d.beamSize.getD c.beamSize
      maxLength := d.maxLength.getD c.maxLength
      iterations := d.iterations.getD c.iterations
      widening := d.widening.getD c.widening
      scorer := d.scorer.getD c.scorer
      seed := d.seed
      timeout := d.timeout }
    grammar := d.grammar
    json := d.json }

def command? (d : Draft) : Mode → Option Command
  | .synth =>
    match d.inputs, d.target with
    | [], _ | _, none => none
    | inputs, some target => some (.synth inputs.reverse target d.options)
  | .batch => d.tasks.map fun tasks => .batch tasks d.workers d.options
  | .grammar => some (.grammar d.grammar)

end Draft

end ListSynth.CommandLine
