/-!
Stop signals. A signal is a handle on a flag; several handles may share one flag, and a flag once raised
stays raised.
-/

namespace ListSynth

/-- All flags, and the flag that each handle is on. -/
structure Signals where
  flags : List Bool
  handles : List Nat

namespace Signals

def one : Signals := ⟨[false], [0]⟩

def readings (s : Signals) : List Bool := s.handles.map fun f => (s.flags[f]?).getD false

def fresh (s : Signals) : Signals := ⟨s.flags ++ [false], s.handles ++ [s.flags.length]⟩

def share (s : Signals) (handle : Nat) : Signals :=
  { s with handles := s.handles ++ s.handles[handle]?.toList }

def raise (s : Signals) (handle : Nat) : Signals :=
  match s.handles[handle]? with
  | some f => { s with flags := s.flags.set f true }
  | none => s

/-- A watchdog that is waited for raises the flag, if it was given a time; one let go before raises none. -/
def watch (s : Signals) (handle : Nat) (time : Option Nat) (awaited : Bool) : Signals :=
  if awaited && time.isSome then s.raise handle else s

end Signals

end ListSynth
