import ListSynth.Search.Beam
/-!
Tallies of parts of a search. Counting only adds to a tally, so the tally of two parts, one after the other, is made
of the tallies of each.
-/

namespace ListSynth

namespace Tally

/-- The tally of two runs, one after the other: counts are added, peaks compared and all widths listed. -/
instance : Append Tally := ⟨fun t u => { t.merge u with beamWidths := t.beamWidths ++ u.beamWidths }⟩

variable {t t' t'' u v : Tally}

theorem append_eq : t ++ u = { t.merge u with beamWidths := t.beamWidths ++ u.beamWidths } := rfl

theorem append_assoc : t ++ u ++ v = t ++ (u ++ v) := by
  simp only [append_eq, merge, Nat.add_assoc, List.append_assoc, Nat.max_assoc]

theorem nothing_append : ({} : Tally) ++ u = u := by
  simp only [append_eq, merge, Nat.zero_add, List.nil_append, Nat.zero_max]

theorem append_nothing : u ++ ({} : Tally) = u := by
  simp only [append_eq, merge, Nat.add_zero, List.append_nil, Nat.max_zero]

theorem append_startIteration (width : Nat) : (t ++ u).startIteration width = t ++ u.startIteration width := by
  simp only [append_eq, merge, startIteration, Nat.add_assoc, List.append_assoc]

theorem append_countPruned (why : DeadEnd) : (t ++ u).countPruned why = t ++ u.countPruned why := by
  simp only [append_eq, merge, countPruned, Nat.add_assoc]

theorem append_countAdmitted : (t ++ u).countAdmitted = t ++ u.countAdmitted := by
  simp only [append_eq, merge, countAdmitted, Nat.add_assoc]

/-- The tally of some runs, one after the other. -/
def total (tallies : List Tally) : Tally := tallies.foldr (· ++ ·) {}

theorem total_concat {tallies : List Tally} : total (tallies ++ [t]) = total tallies ++ t := by
  induction tallies with
  | nil => exact append_nothing.trans nothing_append.symm
  | cons first rest ih => exact (congrArg (first ++ ·) ih).trans append_assoc.symm

/-- A tally grows by another and by some number of unscoreable states, the one count that hangs on weights. -/
def Grows (t u t' : Tally) : Prop := ∃ blank, t' = t ++ { u with unscoreableStates := blank }

theorem grows_nothing (t : Tally) : t.Grows {} t := ⟨0, append_nothing.symm⟩

theorem Grows.trans (first : t.Grows u t') (second : t'.Grows v t'') : t.Grows (u ++ v) t'' := by
  obtain ⟨n, rfl⟩ := first
  obtain ⟨m, rfl⟩ := second
  exact ⟨n + m, append_assoc⟩

end Tally

end ListSynth
