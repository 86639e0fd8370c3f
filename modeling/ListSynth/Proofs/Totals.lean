import Mathlib.Algebra.Ring.Nat
import ListSynth.Batch.Summary
/-!
What a batch comes to. Each outcome is counted once by its kind, each solution once at its depth, and the counts of the
single runs are added up. None of it hangs on the order of the outcomes, and no sum on the way is greater than the last.
-/

namespace ListSynth

namespace Histogram

variable {h h' : Histogram} {key d n : Nat}

/-- Every key stands once, and keys ascend. -/
def Ascending (h : Histogram) : Prop := h.Pairwise fun a b => a.1 < b.1

theorem lookup_entry (k m d : Nat) (rest : Histogram) :
    List.lookup d ((k, m) :: rest) = if d = k then some m else rest.lookup d := by
  rw [List.lookup_cons]
  by_cases same : d = k
  · rw [if_pos same, beq_iff_eq.mpr same]
  · rw [if_neg same, beq_false_of_ne same]

theorem lookup_of_lt (below : ∀ entry ∈ h, key < entry.1) : h.lookup key = none := by
  refine List.lookup_eq_none_iff.mpr ?_
  intro entry member
  simpa using Nat.ne_of_lt (below entry member)

theorem Ascending.mem_iff (ascending : h.Ascending) : (d, n) ∈ h ↔ h.lookup d = some n := by
  induction h with
  | nil => simp
  | cons first rest ih =>
      obtain ⟨below, later⟩ := List.pairwise_cons.mp ascending
      obtain ⟨k, m⟩ := first
      rw [List.mem_cons, lookup_entry, ih later]
      by_cases same : d = k
      · subst same
        simp [lookup_of_lt below, eq_comm]
      · simp [same]

/-- A histogram is told by what it has under each key. -/
theorem Ascending.eq_of_lookup (ascending : h.Ascending) (ascending' : h'.Ascending)
    (same : ∀ d, h.lookup d = h'.lookup d) : h = h' := by
  have distinct : ∀ {h : Histogram}, h.Ascending → h.Nodup := fun ascending =>
    ascending.imp fun lt eq => Nat.ne_of_lt lt (congrArg Prod.fst eq)
  refine List.Perm.eq_of_pairwise ?_ ascending ascending' ?_
  · intro a b _ _ lt gt
    exact absurd lt (Nat.lt_asymm gt)
  · refine (List.perm_ext_iff_of_nodup (distinct ascending) (distinct ascending')).mpr ?_
    rintro ⟨d, n⟩
    rw [ascending.mem_iff, ascending'.mem_iff, same]

/-- A key that is counted stands among those that were there, so what holds of all of them and of it holds still. -/
theorem forall_mem_bump {P : Nat → Prop} (all : ∀ entry ∈ h, P entry.1) (here : P key) :
    ∀ entry ∈ h.bump key, P entry.1 := by
  induction h with
  | nil => exact List.forall_mem_singleton.mpr here
  | cons first rest ih =>
      obtain ⟨holds, later⟩ := List.forall_mem_cons.mp all
      rw [bump]
      split
      · exact List.forall_mem_cons.mpr ⟨here, all⟩
      · split
        · exact List.forall_mem_cons.mpr ⟨holds, later⟩
        · exact List.forall_mem_cons.mpr ⟨holds, ih later⟩

theorem Ascending.bump (ascending : h.Ascending) (key : Nat) : (h.bump key).Ascending := by
  induction h with
  | nil => exact List.pairwise_singleton _ _
  | cons first rest ih =>
      obtain ⟨below, later⟩ := List.pairwise_cons.mp ascending
      rw [Histogram.bump]
      split
      · rename_i lt
        refine List.pairwise_cons.mpr ⟨List.forall_mem_cons.mpr ⟨lt, ?_⟩, ascending⟩
        intro entry member
        exact Nat.lt_trans lt (below entry member)
      · split
        · exact List.pairwise_cons.mpr ⟨below, later⟩
        · exact List.pairwise_cons.mpr ⟨forall_mem_bump below (by omega), ih later⟩

/-- A key that is counted once more has one more, and the other keys have what they had. -/
theorem Ascending.lookup_bump (ascending : h.Ascending) (key d : Nat) :
    (h.bump key).lookup d = if d = key then some ((h.lookup key).getD 0 + 1) else h.lookup d := by
  induction h with
  | nil => exact lookup_entry key 1 d []
  | cons first rest ih =>
      obtain ⟨below, later⟩ := List.pairwise_cons.mp ascending
      obtain ⟨k, m⟩ := first
      rw [Histogram.bump]
      split
      · rename_i lt
        have missing : List.lookup key ((k, m) :: rest) = none :=
          lookup_of_lt (List.forall_mem_cons.mpr ⟨lt, fun entry member => Nat.lt_trans lt (below entry member)⟩)
        rw [lookup_entry, missing]
        rfl
      · split
        · rename_i same
          subst same
          rw [lookup_entry, lookup_entry, lookup_entry, if_pos rfl]
          split <;> rfl
        · rename_i other
          rw [lookup_entry, ih later, lookup_entry k m key, if_neg other, lookup_entry k m d]
          by_cases first : d = k
          · rw [if_pos first, if_pos first, if_neg (first ▸ Ne.symm other)]
          · rw [if_neg first, if_neg first]

theorem sum_bump : ((h.bump key).map Prod.snd).sum = (h.map Prod.snd).sum + 1 := by
  induction h with
  | nil => rfl
  | cons first rest ih =>
      obtain ⟨k, m⟩ := first
      rw [bump]
      split
      · simp only [List.map_cons, List.sum_cons]
        omega
      · split
        · simp only [List.map_cons, List.sum_cons]
          omega
        · simp only [List.map_cons, List.sum_cons, ih]
          omega

/-- A histogram counts some keys: it lists each that occurs, with how often it does, and no other. -/
structure Counts (h : Histogram) (keys : List Nat) : Prop where
  ascending : h.Ascending
  occurrences : ∀ key, h.lookup key = if key ∈ keys then some (keys.count key) else none
  sum : (h.map Prod.snd).sum = keys.length

section Counting

variable {keys keys' : List Nat}

theorem Counts.getD_lookup (counts : h.Counts keys) (key : Nat) : (h.lookup key).getD 0 = keys.count key := by
  rw [counts.occurrences]
  split
  · rfl
  · rename_i missing
    exact (List.count_eq_zero_of_not_mem missing).symm

theorem Counts.bump (counts : h.Counts keys) (key : Nat) : (h.bump key).Counts (keys ++ [key]) := by
  refine ⟨counts.ascending.bump key, ?_, ?_⟩
  · intro d
    rw [counts.ascending.lookup_bump, counts.getD_lookup, counts.occurrences]
    by_cases same : d = key
    · subst same
      simp
    · simp [same, Ne.symm same]
  · rw [sum_bump, counts.sum, List.length_append, List.length_singleton]

theorem Counts.positive (counts : h.Counts keys) : ∀ entry ∈ h, 0 < entry.2 := by
  rintro ⟨d, n⟩ member
  rw [counts.ascending.mem_iff, counts.occurrences] at member
  split at member
  · rename_i occurs
    cases member
    exact List.count_pos_iff.mpr occurs
  · cases member

theorem Counts.unique (counts : h.Counts keys) (counts' : h'.Counts keys') (perm : keys.Perm keys') : h = h' := by
  refine counts.ascending.eq_of_lookup counts'.ascending ?_
  intro d
  simp only [counts.occurrences, counts'.occurrences, perm.mem_iff, perm.count_eq]

end Counting

end Histogram

namespace TaskOutcome

/-- The depth of the solution, where there is one. -/
def depth? : TaskOutcome → Option Nat
  | .finished (.solved s) _ => some s.depth
  | _ => none

/-- The tally of the search, where it came to an outcome. -/
def tally? : TaskOutcome → Option Tally
  | .finished _ t => some t
  | .failed _ => none

end TaskOutcome

/-- How many of some outcomes have a label. -/
def labelled (label : String) (os : List TaskOutcome) : Nat := os.countP fun o => o.label = label

theorem labelled_append (label : String) (os os' : List TaskOutcome) :
    labelled label (os ++ os') = labelled label os + labelled label os' :=
  List.countP_append

/-- Every outcome has one of four labels. -/
theorem labelled_singleton (o : TaskOutcome) :
    labelled "solved" [o] + labelled "exhausted" [o] + labelled "cancelled" [o] + labelled "failed" [o] = 1 := by
  rcases o with ⟨_ | _ | _, t⟩ | message <;> rfl

theorem length_filterMap_depth? (os : List TaskOutcome) :
    (os.filterMap TaskOutcome.depth?).length = labelled "solved" os := by
  have same : (fun o : TaskOutcome => o.depth?.isSome) = fun o => decide (o.label = "solved") := by
    funext o
    rcases o with ⟨_ | _ | _, t⟩ | message <;> rfl
  rw [List.length_filterMap_eq_countP, same]
  rfl

namespace Tally

/-- The exact sums of the counts of some runs, with the greatest of their peaks and no widths. -/
def sums (tallies : List Tally) : Tally where
  elapsed := (tallies.map elapsed).sum
  iterationsRun := (tallies.map iterationsRun).sum
  beamWidths := []
  levelsExpanded := (tallies.map levelsExpanded).sum
  nodesExpanded := (tallies.map nodesExpanded).sum
  unscoreableStates := (tallies.map unscoreableStates).sum
  childrenGenerated := (tallies.map childrenGenerated).sum
  candidatesRejected := (tallies.map candidatesRejected).sum
  leavesPruned := (tallies.map leavesPruned).sum
  lengthPruned := (tallies.map lengthPruned).sum
  nodesAdmitted := (tallies.map nodesAdmitted).sum
  peakFrontier := (tallies.map peakFrontier).max?.getD 0

/-- The counts that merging adds, each with the least number that it has no room for. A time is less than a word of
seconds. -/
def limits : List ((Tally → Nat) × Nat) := [
  (elapsed, UInt64.size * 10 ^ 9),
  (iterationsRun, UInt32.size),
  (levelsExpanded, UInt64.size),
  (nodesExpanded, UInt64.size),
  (unscoreableStates, UInt64.size),
  (childrenGenerated, UInt64.size),
  (candidatesRejected, UInt64.size),
  (leavesPruned, UInt64.size),
  (lengthPruned, UInt64.size),
  (nodesAdmitted, UInt64.size)]

/-- Each count that merging adds has room for its sum. -/
def Fits (t : Tally) : Prop := ∀ limit ∈ limits, limit.1 t < limit.2

instance : DecidablePred Fits := fun t => inferInstanceAs (Decidable (∀ limit ∈ limits, limit.1 t < limit.2))

/-- Merging with every sum checked: there is no result where one of them does not fit. -/
def merge? (t u : Tally) : Option Tally := if (t.merge u).Fits then some (t.merge u) else none

/-- Some runs merged into nothing, one after the other, with every sum checked. -/
def mergeAll? (tallies : List Tally) : Option Tally := tallies.foldlM merge? {}

variable {t u v : Tally} {tallies others : List Tally}

section Merging

theorem merge_assoc : (t.merge u).merge v = t.merge (u.merge v) := by
  simp only [merge, Nat.add_assoc, Nat.max_assoc]

theorem merge_right_comm : (t.merge u).merge v = (t.merge v).merge u := by
  simp only [merge, Nat.add_right_comm, Nat.max_right_comm]

theorem sums_cons : t.merge (sums (u :: tallies)) = (t.merge u).merge (sums tallies) := by
  have peak : ((u :: tallies).map peakFrontier).max?.getD 0 =
      max u.peakFrontier ((tallies.map peakFrontier).max?.getD 0) := by
    rw [List.map_cons, List.max?_cons]
    cases (tallies.map peakFrontier).max? <;> simp
  simp only [merge_assoc, sums, peak]
  simp only [merge, List.map_cons, List.sum_cons]

theorem merge_sums_nil : t.merge (sums []) = t := by
  simp [merge, sums]

theorem nothing_merge_sums : ({} : Tally).merge (sums tallies) = sums tallies := by
  simp only [merge, sums, Nat.zero_add, Nat.zero_max]

theorem foldl_merge : tallies.foldl merge t = t.merge (sums tallies) := by
  induction tallies generalizing t with
  | nil => exact merge_sums_nil.symm
  | cons u rest ih => rw [List.foldl_cons, ih, sums_cons]

/-- Merging some runs into nothing gives their exact sums. -/
theorem foldl_merge_nothing : tallies.foldl merge {} = sums tallies := foldl_merge.trans nothing_merge_sums

theorem sums_append : sums (tallies ++ others) = (sums tallies).merge (sums others) := by
  rw [← foldl_merge_nothing, List.foldl_append, foldl_merge_nothing, foldl_merge]

theorem sums_perm (perm : tallies.Perm others) : sums tallies = sums others := by
  rw [← foldl_merge_nothing, ← foldl_merge_nothing]
  exact perm.foldl_eq' (fun _ _ _ _ _ => merge_right_comm) {}

end Merging

section Limits

/-- Counts are never negative, so what fits together fits apart. -/
theorem Fits.of_merge (fits : (t.merge u).Fits) : t.Fits ∧ u.Fits := by
  have added : ∀ limit ∈ limits, limit.1 (t.merge u) = limit.1 t + limit.1 u := by
    simp [limits, merge]
  constructor
  · intro limit member
    exact Nat.lt_of_le_of_lt (Nat.le_add_right _ _) (added limit member ▸ fits limit member)
  · intro limit member
    exact Nat.lt_of_le_of_lt (Nat.le_add_left _ _) (added limit member ▸ fits limit member)

/-- Sums on the way are never greater than the last, so all of them fit if that does. -/
theorem foldlM_merge? (fits : t.Fits) : tallies.foldlM merge? t =
    if (t.merge (sums tallies)).Fits then some (t.merge (sums tallies)) else none := by
  induction tallies generalizing t with
  | nil => rw [merge_sums_nil, if_pos fits, List.foldlM_nil, Option.pure_def]
  | cons u rest ih =>
      rw [List.foldlM_cons, merge?, sums_cons]
      by_cases next : (t.merge u).Fits
      · rw [if_pos next]
        exact ih next
      · rw [if_neg next, if_neg (mt (fun all => all.of_merge.1) next)]
        rfl

theorem mergeAll?_eq : mergeAll? tallies = if (sums tallies).Fits then some (sums tallies) else none := by
  have fits : Fits {} := by decide
  rw [mergeAll?, foldlM_merge? fits, nothing_merge_sums]

theorem mergeAll?_append :
    mergeAll? (tallies ++ others) = (do (← mergeAll? tallies).merge? (← mergeAll? others)) := by
  rw [mergeAll?_eq, mergeAll?_eq, mergeAll?_eq, sums_append]
  by_cases all : ((sums tallies).merge (sums others)).Fits
  · obtain ⟨front, back⟩ := all.of_merge
    rw [if_pos all, if_pos front, if_pos back]
    exact (if_pos all).symm
  · rw [if_neg all]
    by_cases front : (sums tallies).Fits
    · rw [if_pos front]
      by_cases back : (sums others).Fits
      · rw [if_pos back]
        exact (if_neg all).symm
      · rw [if_neg back]
        rfl
    · rw [if_neg front]
      rfl

end Limits

end Tally

namespace Batch

/-- A summary counts some outcomes: all of them, those of each kind, and the solutions by depth. -/
structure Summary.Counts (s : Summary) (os : List TaskOutcome) : Prop where
  total : s.total = os.length
  kinds : s.total = s.solved + s.exhausted + s.cancelled + s.failed
  solved : s.solved = labelled "solved" os
  exhausted : s.exhausted = labelled "exhausted" os
  cancelled : s.cancelled = labelled "cancelled" os
  failed : s.failed = labelled "failed" os
  depths : s.depths.Counts (os.filterMap TaskOutcome.depth?)

namespace Summary

variable {s s' : Summary} {os os' : List TaskOutcome}

theorem record_eq (s : Summary) (o : TaskOutcome) : s.record o = {
    total := s.total + 1
    solved := s.solved + labelled "solved" [o]
    exhausted := s.exhausted + labelled "exhausted" [o]
    cancelled := s.cancelled + labelled "cancelled" [o]
    failed := s.failed + labelled "failed" [o]
    depths := o.depth?.elim s.depths s.depths.bump } := by
  rcases o with ⟨_ | _ | _, t⟩ | message <;> rfl

theorem counts_nil : Counts {} [] := by
  refine ⟨rfl, rfl, rfl, rfl, rfl, rfl, .nil, ?_, rfl⟩
  intro d
  rfl

theorem Counts.record (counts : s.Counts os) (o : TaskOutcome) : (s.record o).Counts (os ++ [o]) := by
  have one := labelled_singleton o
  have before := counts.kinds
  rw [s.record_eq o]
  constructor
  case total => rw [counts.total, List.length_append, List.length_singleton]
  case kinds =>
    dsimp only
    omega
  case solved => rw [counts.solved, labelled_append]
  case exhausted => rw [counts.exhausted, labelled_append]
  case cancelled => rw [counts.cancelled, labelled_append]
  case failed => rw [counts.failed, labelled_append]
  case depths =>
    rw [List.filterMap_append]
    cases found : o.depth? with
    | none => simpa [found] using counts.depths
    | some d => simpa [found] using counts.depths.bump d

/-- Recording outcomes one by one counts them all. -/
theorem Counts.foldl (counts : s.Counts os) (later : List TaskOutcome) :
    (later.foldl Summary.record s).Counts (os ++ later) := by
  induction later generalizing s os with
  | nil => rwa [List.append_nil]
  | cons o rest ih =>
      rw [List.foldl_cons, List.append_cons]
      exact ih (counts.record o)

theorem counts_ofOutcomes (os : List TaskOutcome) : (ofOutcomes os).Counts os := counts_nil.foldl os

/-- What counts the same outcomes, in whatever order, is the same. -/
theorem Counts.unique (counts : s.Counts os) (counts' : s'.Counts os') (perm : os.Perm os') : s = s' := by
  have labels : ∀ label, labelled label os = labelled label os' := fun label => perm.countP_eq _
  have depths : s.depths = s'.depths := counts.depths.unique counts'.depths (perm.filterMap _)
  cases s
  cases s'
  simp only [Summary.mk.injEq]
  exact ⟨counts.total.trans (perm.length_eq.trans counts'.total.symm),
    counts.solved.trans ((labels _).trans counts'.solved.symm),
    counts.exhausted.trans ((labels _).trans counts'.exhausted.symm),
    counts.cancelled.trans ((labels _).trans counts'.cancelled.symm),
    counts.failed.trans ((labels _).trans counts'.failed.symm), depths⟩

theorem Counts.solutions (counts : s.Counts os) : (s.depths.map Prod.snd).sum = s.solved :=
  counts.depths.sum.trans ((length_filterMap_depth? os).trans counts.solved.symm)

end Summary

theorem totals_eq (os : List TaskOutcome) : totals os = Tally.sums (os.filterMap TaskOutcome.tally?) := by
  have including : ∀ (t : Tally) (o : TaskOutcome), t.including o = o.tally?.elim t t.merge := by
    rintro t (⟨o, u⟩ | message) <;> rfl
  rw [← Tally.foldl_merge_nothing, List.foldl_filterMap, totals]
  refine congrArg (fun f => os.foldl f ({} : Tally)) ?_
  funext t o
  rw [including]
  cases o.tally? <;> rfl

/-- The tallies of a batch are exact, and the order of its outcomes does not matter. Its summary counts the outcomes by
kind and the solutions by depth; its totals are the sums of the counts of all runs, with the greatest peak and without
widths. Merging any runs with every sum checked comes to those sums exactly if they fit; and the runs of two batches may
be merged batch by batch. -/
theorem batch_tallies_exact (os : List TaskOutcome) (tallies : List Tally) :
    ((Summary.ofOutcomes os).Counts os ∧
      (∀ entry ∈ (Summary.ofOutcomes os).depths, 0 < entry.2) ∧
      ((Summary.ofOutcomes os).depths.map Prod.snd).sum = (Summary.ofOutcomes os).solved) ∧
    totals os = Tally.sums (os.filterMap TaskOutcome.tally?) ∧
    tallies.foldl Tally.merge {} = Tally.sums tallies ∧
    Tally.mergeAll? tallies = (if (Tally.sums tallies).Fits then some (Tally.sums tallies) else none) ∧
    (∀ os', os'.Perm os → Summary.ofOutcomes os' = Summary.ofOutcomes os ∧ totals os' = totals os) ∧
    (∀ others, others.Perm tallies →
      others.foldl Tally.merge {} = tallies.foldl Tally.merge {} ∧ Tally.mergeAll? others = Tally.mergeAll? tallies) ∧
    ∀ front back, tallies = front ++ back →
      tallies.foldl Tally.merge {} = (front.foldl Tally.merge {}).merge (back.foldl Tally.merge {}) ∧
      Tally.mergeAll? tallies = (do (← Tally.mergeAll? front).merge? (← Tally.mergeAll? back)) := by
  have counts := Summary.counts_ofOutcomes os
  refine ⟨⟨counts, counts.depths.positive, counts.solutions⟩, totals_eq os, Tally.foldl_merge_nothing,
    Tally.mergeAll?_eq, ?_, ?_, ?_⟩
  · intro os' perm
    refine ⟨(Summary.counts_ofOutcomes os').unique counts perm, ?_⟩
    rw [totals_eq, totals_eq, Tally.sums_perm (perm.filterMap _)]
  · intro others perm
    rw [Tally.foldl_merge_nothing, Tally.foldl_merge_nothing, Tally.mergeAll?_eq, Tally.mergeAll?_eq,
      Tally.sums_perm perm]
    exact ⟨rfl, rfl⟩
  · rintro front back rfl
    refine ⟨?_, Tally.mergeAll?_append⟩
    rw [Tally.foldl_merge_nothing, Tally.foldl_merge_nothing, Tally.foldl_merge_nothing, Tally.sums_append]

section Mixed

def solutionAt (depth : Nat) : Solution := ⟨[], depth, .input (.single (.ofInts [])), .zero⟩

def mixed : List TaskOutcome := [
  .finished (.solved (solutionAt 2)) { iterationsRun := 1, beamWidths := [100], peakFrontier := 7 },
  .failed "failed",
  .finished .exhausted { iterationsRun := 2, beamWidths := [4, 8], peakFrontier := 8 },
  .finished (.solved (solutionAt 0)) { iterationsRun := 1, beamWidths := [100], peakFrontier := 0 },
  .finished (.solved (solutionAt 2)) { iterationsRun := 3, beamWidths := [1, 2, 4], peakFrontier := 3 }]

theorem batch_tallies_exact_of_mixed :
    (Summary.ofOutcomes mixed.reverse).depths = [(0, 1), (2, 2)] ∧ (totals mixed.reverse).iterationsRun = 7 ∧
    ∃ front back t, mixed.filterMap TaskOutcome.tally? = front ++ back ∧
      (do (← Tally.mergeAll? front).merge? (← Tally.mergeAll? back)) = some t ∧ t.peakFrontier = 8 ∧
      t.beamWidths = [] ∧ Tally.mergeAll? (mixed.filterMap TaskOutcome.tally?).reverse = some t := by
  obtain ⟨-, -, -, merged, shuffled, rearranged, halves⟩ :=
    batch_tallies_exact mixed (mixed.filterMap TaskOutcome.tally?)
  have fits : (Tally.sums (mixed.filterMap TaskOutcome.tally?)).Fits := by decide
  rw [if_pos fits] at merged
  obtain ⟨summary, totals⟩ := shuffled _ (List.reverse_perm mixed)
  refine ⟨congrArg Summary.depths summary, congrArg Tally.iterationsRun totals, ?_⟩
  refine ⟨_, _, _, (List.take_append_drop 2 _).symm, ?_, rfl, rfl,
    (rearranged _ (List.reverse_perm _)).2.trans merged⟩
  exact (halves _ _ (List.take_append_drop 2 _).symm).2.symm.trans merged

end Mixed

end Batch

end ListSynth
