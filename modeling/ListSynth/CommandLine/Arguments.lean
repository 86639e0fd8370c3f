import ListSynth.CommandLine.Command
/-!
Reading the arguments of the program, one after the other; the first that settles the matter does so.
-/

namespace ListSynth.CommandLine

abbrev Reading := Except Stop

structure Reader where
  draft : Draft := {}
  pending : Option Key := none
  /-- Two lone hyphens were met, after which nothing is an option. -/
  plain : Bool := false

def noted (r : Reader) (d : Option Draft) : Reading Reader :=
  match d with
  | some d => .ok { r with draft := d, pending := none }
  | none => .error .misuse

/-- Take an option that has no value, or has it attached, or waits for it. -/
def Reader.option (r : Reader) (key : Key) (attached : Option String) : Reading Reader :=
  match key.takesValue, attached with
  | true, some s => noted r (r.draft.set key s)
  | true, none => .ok { r with pending := some key }
  | false, some _ => .error .misuse
  | false, none => if key = .help then .error .help else noted r (r.draft.set key "")

def splitAssignment (cs : List Char) : String × Option String :=
  let name := String.ofList (cs.takeWhile (· ≠ '='))
  match cs.dropWhile (· ≠ '=') with
  | [] => (name, none)
  | _ :: rest => (name, some (String.ofList rest))

def Reader.long (r : Reader) (mode : Mode) (cs : List Char) : Reading Reader :=
  let (name, attached) := splitAssignment cs
  match mode.keys.find? (·.long == name) with
  | some key => r.option key attached
  | none => .error .misuse

def attachedValue : List Char → Option String
  | [] => none
  | '=' :: rest => some (String.ofList rest)
  | cs => some (String.ofList cs)

/-- Take letters after one hyphen. The first that takes a value takes what is left. -/
def Reader.short (mode : Mode) : List Char → Reader → Reading Reader
  | [], r => .ok r
  | c :: rest, r =>
    match mode.keys.find? (·.short? == some c) with
    | none => .error .misuse
    | some key =>
      if key.takesValue then r.option key (attachedValue rest)
      else do Reader.short mode rest (← r.option key none)

def looksLikeOption : List Char → Bool
  | '-' :: _ :: _ => true
  | _ => false

def Reader.take (mode : Mode) (r : Reader) (arg : String) : Reading Reader :=
  if r.plain then noted r (r.draft.place mode arg)
  else match r.pending with
    | some key =>
      if looksLikeOption arg.toList && !key.takesHyphens then .error .misuse
      else noted r (r.draft.set key arg)
    | none =>
      match arg.toList with
      | ['-', '-'] => .ok { r with plain := true }
      | '-' :: '-' :: cs => r.long mode cs
      | '-' :: c :: cs => Reader.short mode (c :: cs) r
      | _ => noted r (r.draft.place mode arg)

def readCommand (mode : Mode) (args : List String) : Reading Command := do
  let r ← args.foldlM (Reader.take mode) {}
  match r.pending, r.draft.command? mode with
  | none, some c => .ok c
  | _, _ => .error .misuse

def leadingLetters : List Char → Reading Unit
  | [] => .ok ()
  | 'v' :: rest => leadingLetters rest
  | 'h' :: _ => .error .help
  | 'V' :: _ => .error .version
  | _ => .error .misuse

/-- Help on the program, or on one command that exists; no command has commands of its own. -/
def readHelp : List String → Reading Command
  | [] => .error .help
  | [s] => if s == "help" || (Mode.ofName? s).isSome then .error .help else .error .misuse
  | _ => .error .misuse

def read : List String → Reading Command
  | [] => .error .misuse
  | arg :: rest =>
    match arg.toList with
    | '-' :: '-' :: cs =>
      if cs = "verbose".toList then read rest
      else if cs = "help".toList then .error .help
      else if cs = "version".toList then .error .version
      else .error .misuse
    | '-' :: c :: cs => do
      leadingLetters (c :: cs)
      read rest
    | _ =>
      match Mode.ofName? arg with
      | some mode => readCommand mode rest
      | none => if arg = "help" then readHelp rest else .error .misuse

end ListSynth.CommandLine
