import ListSynth.Expr.Rebuild
import ListSynth.Search.Level
import ListSynth.Search.Settings
import ListSynth.Task
/-!
The beam search. An iteration expands the frontier level by level; one that ends without a solution is
followed by a wider one, which starts again from the root.
-/

namespace ListSynth

structure Solution where
  program : Program
  /-- The level on which the program was found, counted from zero. -/
  depth : Nat
  expr : Expr
  rank : Number

inductive Outcome where
  | solved (solution : Solution)
  | exhausted
  | cancelled

def Outcome.label : Outcome → String
  | .solved _ => "solved"
  | .exhausted => "exhausted"
  | .cancelled => "cancelled"

inductive SearchError where
  | settings (e : SettingsError)
  | noInputs
  | ranking (e : RankingError)
  | rebuild (e : RebuildError)
  deriving DecidableEq, Repr

def SearchError.message : SearchError → String
  | .settings e => e.message
  | .noInputs => "invalid task: at least one input value is required"
  | .ranking e => e.message
  | .rebuild e => "failed to rebuild solution: " ++ e.message

def Task.fault? (t : Task) : Option SearchError := if t.inputs.isEmpty then some .noInputs else none

def Node.solution (inputs : State) (depth : Nat) (node : Node) : Except SearchError Solution :=
  match node.program.rebuild inputs with
  | .ok expr => .ok { program := node.program, depth, expr, rank := node.rank }
  | .error e => .error (.rebuild e)

variable {σ : Type}

/-- Search up to `remaining` levels, of which the next is the given one. No outcome means that the levels
ran out, or the frontier did. -/
def levels (guide : Guide σ) (g : Grammar) (task : Task) (width : Nat) :
    Nat → Nat → List Node → Progress σ → Except SearchError (Option Outcome) × Progress σ
  | 0, _, _, p => (.ok none, p)
  | remaining + 1, depth, frontier, p =>
    if frontier.isEmpty then (.ok none, p)
    else
      match level guide g task.goal width frontier p with
      | (.error e, p) => (.error (.ranking e), p)
      | (.ok (.found node), p) =>
        ((node.solution task.start depth).map fun s => some (.solved s), p)
      | (.ok .cancelled, p) => (.ok (some .cancelled), p)
      | (.ok (.advanced next), p) => levels guide g task width remaining (depth + 1) next p

def Tally.startIteration (t : Tally) (width : Nat) : Tally :=
  { t with iterationsRun := t.iterationsRun + 1, beamWidths := t.beamWidths ++ [width] }

def iterations (guide : Guide σ) (g : Grammar) (c : Settings) (task : Task) :
    Nat → Nat → Progress σ → Except SearchError Outcome × Progress σ
  | 0, _, p => (.ok .exhausted, p)
  | remaining + 1, k, p =>
    let width := (c.width k).toNat
    let p := { p with tally := p.tally.startIteration width }
    match levels guide g task width c.maxLength.toNat 0 [.root task.start] p with
    | (.error e, p) => (.error e, p)
    | (.ok (some outcome), p) => (.ok outcome, p)
    | (.ok none, p) => iterations guide g c task remaining (k + 1) p

/-- Search for a program that solves a task, after whatever was searched before: the guide keeps its memory, and the
tally starts from zero. Settings are checked before the task, and both before the guide is consulted. -/
def searchAgain (guide : Guide σ) (g : Grammar) (c : Settings) (task : Task) (p : Progress σ) :
    Except SearchError Outcome × Progress σ :=
  match c.fault? with
  | some e => (.error (.settings e), p.reset)
  | none =>
    match task.fault? with
    | some e => (.error e, p.reset)
    | none => iterations guide g c task c.iterations.toNat 0 p.reset

/-- The first search with a guide of the given memory. -/
def search (guide : Guide σ) (g : Grammar) (c : Settings) (task : Task) (memory : σ) :
    Except SearchError Outcome × Progress σ :=
  searchAgain guide g c task ⟨{}, memory⟩

end ListSynth
