import ListSynth.Proofs.Reordering
import ListSynth.Proofs.Consultation
/-!
The books of a search. Each level counts what it expands, generates, rejects, prunes and admits, and however a level or
an iteration ends, the counts of a search balance against each other.
-/

namespace ListSynth

variable {σ : Type} {guide : Guide σ} {g : Grammar} {goal : Goal} {c : Settings} {task : Task} {memory : σ}
  {p q r : Progress σ} {frontier next seen : List Node} {done : LevelEnd} {width depth remaining k : Nat}

section Counts

/-- How many candidates some nodes are offered. -/
def offered (g : Grammar) (nodes : List Node) : Nat :=
  (nodes.map fun node => (g.candidates node.state.length).length).sum

theorem offered_append (nodes more : List Node) : offered g (nodes ++ more) = offered g nodes + offered g more := by
  simp [offered]

/-- Each candidate that a frontier is offered makes a child or is rejected. -/
theorem expansion_offered (frontier : List Node) :
    (expansion g (places frontier)).childrenGenerated + (expansion g (places frontier)).candidatesRejected =
      offered g frontier := by
  induction frontier with
  | nil => rfl
  | cons node rest ih =>
      have one : (expansion g {node.place}).childrenGenerated + (expansion g {node.place}).candidatesRejected =
          (g.candidates node.state.length).length :=
        calc _ = (node.place.offspring g).length + node.place.refused g := by simp [expansion, children]
          _ = _ := node.place.offspring_add_refused
      have all : offered g (node :: rest) = (g.candidates node.state.length).length + offered g rest :=
        List.sum_cons
      rw [places_cons, expansion_cons, all, ← ih, ← one]
      simp only [Tally.append_eq, Tally.merge]
      omega

theorem passage_places (lengths : Option (List Nat)) (seen : List Node) : passage lengths (places seen) =
    { leavesPruned := seen.countP fun node => !node.isOpen lengths
      lengthPruned := seen.countP fun node => node.state.deadEnd? lengths = some .overshoot
      nodesAdmitted := seen.countP (Node.isOpen lengths) } := by
  unfold passage places
  simp only [Multiset.coe_countP, List.countP_map]
  congr 1
  · refine List.countP_congr ?_
    intro node _
    simp [Node.place, Node.isOpen]
  · refine List.countP_congr ?_
    intro node _
    exact decide_eq_true_iff

theorem overshoots_le_pruned (lengths : Option (List Nat)) (seen : List Node) :
    (seen.countP fun node => node.state.deadEnd? lengths = some .overshoot) ≤
      seen.countP fun node => !node.isOpen lengths := by
  refine List.countP_mono_left ?_
  intro node _ overshoot
  simp [Node.isOpen, of_decide_eq_true overshoot]

theorem overshoots_of_none (seen : List Node) :
    (seen.countP fun node => node.state.deadEnd? none = some .overshoot) = 0 := by
  rw [List.countP_eq_zero]
  intro node _
  unfold State.deadEnd?
  split <;> simp

end Counts

section Level

namespace LevelEnd

/-- How many nodes a level goes on with. -/
def waiting : LevelEnd → Nat
  | .advanced next => next.length
  | _ => 0

/-- How many solutions a level has found: one or none. -/
def solutions : LevelEnd → Nat
  | .found _ => 1
  | _ => 0

end LevelEnd

theorem Progress.ended_waiting (p : Progress σ) (done : LevelEnd) :
    p.tally.Grows { peakFrontier := done.waiting } (p.ended done).tally := by
  cases done with
  | advanced next => exact p.ended_grows next
  | _ => exact Tally.grows_nothing _

/-- However a level ends, it has walked past some of its pool, admitted no more of it than the beam is wide, and goes on
with no more than it admitted. A solution that is found has not been walked past. -/
theorem level_grows (h : level guide g goal width frontier p = (.ok done, q)) :
    ∃ seen : List Node, seen.length + done.solutions ≤ (children g (places frontier)).card ∧
      (0 < width → seen.countP (Node.isOpen goal.minLengths) ≤ width) ∧
      done.waiting ≤ seen.countP (Node.isOpen goal.minLengths) ∧
      p.tally.Grows (expansion g (places frontier) ++ { levelsExpanded := 1 } ++
        passage goal.minLengths (places seen) ++ { peakFrontier := done.waiting }) q.tally := by
  obtain ⟨pool, m, r, expanded, walked, rfl⟩ := level_eq_ok_iff.mp h
  obtain ⟨seen, rest, parts, rfl, -, room, goes, behind⟩ := walk_seen walked
  have size : seen.length + rest.length = (children g (places frontier)).card := by
    rw [← places_pool expanded, ← places_sortByRank, card_places, parts, List.length_append]
  have walks : m.ranked.tally.Grows (passage goal.minLengths (places seen))
      (seen.foldl (fun p node => p.past guide goal.minLengths node) m.ranked).tally := foldl_past_grows seen m.ranked
  have grows := ((expandAll_places expanded).2.trans m.ranked_grows).trans walks
  refine ⟨seen, ?_, ?_, ?_, grows.trans (Progress.ended_waiting _ done)⟩
  · rw [← size]
    cases done with
    | found node => exact Nat.add_le_add_left (List.length_pos_of_mem (behind node rfl)) _
    | _ => exact Nat.add_le_add_left (Nat.zero_le _) _
  · rw [List.countP_eq_length_filter]
    exact room
  · cases done with
    | advanced next =>
        rw [List.countP_eq_length_filter, (goes next rfl).1]
        exact Nat.le_refl _
    | _ => exact Nat.zero_le _

end Level

section Course

/-- How many solutions a search has found: one or none. -/
def Outcome.solutions : Outcome → Nat
  | .solved _ => 1
  | _ => 0

/-- How the counts of a search stand in the `k`th of its iterations, counted from one, when it has expanded a number of
levels at most, some nodes wait to be expanded, and one solution or none has been found. -/
structure Tally.OnCourse (c : Settings) (goal : Goal) (k levels waiting solutions : Nat) (t : Tally) : Prop where
  iterations : t.iterationsRun = k
  widths : t.beamWidths = (List.range k).map fun j => (c.width j).toNat
  levels : t.levelsExpanded ≤ levels
  nodes : t.nodesExpanded + waiting ≤ k + t.nodesAdmitted
  short : t.lengthPruned ≤ t.leavesPruned
  flat : goal.minLengths = none → t.lengthPruned = 0
  walked : t.leavesPruned + t.nodesAdmitted + solutions ≤ t.childrenGenerated
  peak : t.peakFrontier ≤ t.nodesAdmitted
  narrow : t.peakFrontier ≤ (c.width (k - 1)).toNat

variable {levels waiting solutions : Nat}

theorem Tally.onCourse_start (c : Settings) (goal : Goal) : OnCourse c goal 0 0 0 0 {} where
  iterations := rfl
  widths := rfl
  levels := Nat.le_refl 0
  nodes := Nat.le_refl 0
  short := Nat.le_refl 0
  flat _ := rfl
  walked := Nat.le_refl 0
  peak := Nat.le_refl 0
  narrow := Nat.zero_le _

theorem Tally.OnCourse.level (settings : c.fault? = none)
    (counts : p.tally.OnCourse c goal (k + 1) levels frontier.length 0)
    (h : ListSynth.level guide g goal (c.width k).toNat frontier p = (.ok done, q)) :
    q.tally.OnCourse c goal (k + 1) (levels + 1) done.waiting done.solutions := by
  obtain ⟨seen, size, room, goes, blank, grown⟩ := level_grows h
  have room := room (Settings.width_pos settings k)
  have parts : seen.length = seen.countP (Node.isOpen goal.minLengths) +
      seen.countP fun node => !node.isOpen goal.minLengths := by
    simpa using seen.length_eq_countP_add_countP (Node.isOpen goal.minLengths)
  have short := overshoots_le_pruned goal.minLengths seen
  rw [passage_places] at grown
  simp only [Tally.append_eq, Tally.merge, expansion, card_places, Nat.zero_add, Nat.add_zero, Nat.max_zero,
    Nat.zero_max, List.append_nil] at grown
  rw [grown]
  constructor
  case iterations => exact counts.iterations
  case widths => exact counts.widths
  case levels => exact Nat.add_le_add_right counts.levels 1
  case nodes =>
    -- the frontier has waited and is expanded now; what waits next has been admitted on this level
    have := counts.nodes
    dsimp only
    omega
  case short => exact Nat.add_le_add counts.short short
  case flat =>
    intro none
    rw [none, overshoots_of_none]
    exact counts.flat none
  case walked =>
    have := counts.walked
    dsimp only
    omega
  case peak =>
    exact Nat.max_le_of_le_of_le (Nat.le_add_right_of_le counts.peak) (Nat.le_trans goes (Nat.le_add_left _ _))
  case narrow => exact Nat.max_le_of_le_of_le counts.narrow (Nat.le_trans goes room)

theorem Tally.OnCourse.relax {t : Tally} {more : Nat} (counts : t.OnCourse c goal k levels waiting solutions)
    (within : levels ≤ more) : t.OnCourse c goal k more 0 solutions :=
  { counts with
    levels := Nat.le_trans counts.levels within
    nodes := Nat.le_trans (Nat.add_le_add_left (Nat.zero_le waiting) _) counts.nodes }

theorem Tally.OnCourse.opened (settings : c.fault? = none) (counts : p.tally.OnCourse c goal k levels 0 0) :
    (p.opened (c.width k).toNat).tally.OnCourse c goal (k + 1) levels 1 0 where
  iterations := congrArg Nat.succ counts.iterations
  widths := by
    rw [List.range_succ, List.map_append, ← counts.widths]
    rfl
  levels := counts.levels
  nodes := by
    have : p.tally.nodesExpanded + 0 ≤ k + p.tally.nodesAdmitted := counts.nodes
    have : p.tally.nodesExpanded + 1 ≤ k + 1 + p.tally.nodesAdmitted := by omega
    exact this
  short := counts.short
  flat := counts.flat
  walked := counts.walked
  peak := counts.peak
  narrow :=
    match k, counts.narrow with
    | 0, narrow => narrow
    | k + 1, narrow => Nat.le_trans narrow (c.width_le_succ settings k)

variable (settings : c.fault? = none)

include settings

theorem Comes.onCourse (come : Comes guide g c task k p depth frontier q)
    (counts : p.tally.OnCourse c task.goal k levels 0 0) :
    q.tally.OnCourse c task.goal (k + 1) (levels + depth) frontier.length 0 := by
  induction come with
  | first => exact counts.opened settings
  | next come passes ih => exact ih.level settings passes.advanced

theorem iteration_onCourse {outcome : Option Outcome} (counts : p.tally.OnCourse c task.goal k levels 0 0)
    (ended : iteration guide g c task k p = (.ok outcome, q)) :
    q.tally.OnCourse c task.goal (k + 1) (levels + c.maxLength.toNat) 0 (outcome.elim 0 Outcome.solutions) := by
  obtain ⟨depth, frontier, r, come, ends⟩ := exists_ends ended
  have here := come.onCourse settings counts
  cases ends with
  | out => exact here.relax (Nat.le_refl _)
  | dry within => exact here.relax (Nat.add_le_add_left (Nat.le_of_lt within) _)
  | found within nonempty found solution =>
      exact (here.level settings found).relax (Nat.add_le_add_left (Nat.succ_le_of_lt within) _)
  | cancelled within nonempty cancelled =>
      exact (here.level settings cancelled).relax (Nat.add_le_add_left (Nat.succ_le_of_lt within) _)

theorem Begins.onCourse (begun : Begins guide g c task memory k p) :
    p.tally.OnCourse c task.goal k (k * c.maxLength.toNat) 0 0 := by
  induction begun with
  | first =>
      rw [Nat.zero_mul]
      exact Tally.onCourse_start c task.goal
  | next begun ended ih =>
      rw [Nat.succ_mul]
      exact iteration_onCourse settings ih ended

/-- However a search ends, its counts stand as those of the last of its iterations. -/
theorem exists_onCourse {outcome : Outcome} (ended : search guide g c task memory = (.ok outcome, q)) :
    ∃ k, k < c.iterations.toNat ∧ (outcome = .exhausted → k + 1 = c.iterations.toNat) ∧
      q.tally.OnCourse c task.goal (k + 1) ((k + 1) * c.maxLength.toNat) 0 outcome.solutions := by
  obtain ⟨-, -, ⟨rfl, begun⟩ | ⟨k, p, within, begun, done⟩⟩ := search_ends ended
  · obtain ⟨k, last⟩ := Nat.exists_eq_succ_of_ne_zero (Nat.ne_zero_of_lt (c.iterations_pos settings))
    rw [last] at begun
    exact ⟨k, by omega, fun _ => last.symm, begun.onCourse settings⟩
  · refine ⟨k, within, ?_, ?_⟩
    · rintro rfl
      exact absurd done levels_ne_exhausted
    · rw [Nat.succ_mul]
      exact iteration_onCourse settings (begun.onCourse settings) done

end Course

section Offers

/-- What a level makes of what its frontier is offered: each candidate makes a child or is rejected. -/
theorem level_offered (h : level guide g goal width frontier p = (.ok done, q)) :
    q.tally.childrenGenerated + q.tally.candidatesRejected = p.tally.childrenGenerated +
      p.tally.candidatesRejected + offered g (frontierVisits guide g goal frontier p) := by
  obtain ⟨pool, m, r, expanded, -⟩ := level_eq_ok_iff.mp h
  obtain ⟨seen, -, -, -, blank, grown⟩ := level_grows h
  rw [frontierVisits_of_expanded expanded, ← expansion_offered, grown, passage_places]
  simp only [Tally.append_eq, Tally.merge]
  omega

theorem levels_offered {outcome : Option Outcome}
    (h : levels guide g task width remaining depth frontier p = (.ok outcome, q)) :
    q.tally.childrenGenerated + q.tally.candidatesRejected = p.tally.childrenGenerated +
      p.tally.candidatesRejected + offered g (levelVisits guide g task width remaining frontier p) := by
  induction remaining generalizing depth frontier p with
  | zero =>
      cases h
      rfl
  | succ remaining ih =>
      by_cases empty : frontier = []
      · subst empty
        cases h
        rw [levelVisits_of_empty]
        rfl
      · rw [levels_of_nonempty empty] at h
        rw [levelVisits, offered_append, ← Nat.add_assoc]
        rcases leveled : level guide g task.goal width frontier p with ⟨e | node | _ | next, m⟩
        all_goals rw [leveled] at h
        · cases h
        · have last : m = q := congrArg Prod.snd h
          rw [← level_offered leveled, last]
          rfl
        · cases h
          rw [← level_offered leveled]
          rfl
        · rw [← level_offered leveled]
          exact ih h

theorem iterations_offered {outcome : Outcome}
    (h : iterations guide g c task remaining k p = (.ok outcome, q)) :
    q.tally.childrenGenerated + q.tally.candidatesRejected = p.tally.childrenGenerated +
      p.tally.candidatesRejected + offered g (iterationVisits guide g c task remaining k p) := by
  induction remaining generalizing k p with
  | zero =>
      cases h
      rfl
  | succ remaining ih =>
      rw [iterations_succ] at h
      rw [iterationVisits, offered_append, ← Nat.add_assoc]
      rcases ended : iteration guide g c task k p with ⟨e | _ | outcome, m⟩
      all_goals rw [ended] at h
      · cases h
      · have first := levels_offered ended
        exact (ih h).trans (congrArg (· + _) first)
      · cases h
        exact levels_offered ended

/-- Candidates are counted whenever a search has an outcome. -/
theorem search_offered {outcome : Outcome} (h : searchAgain guide g c task p = (.ok outcome, q)) :
    q.tally.childrenGenerated + q.tally.candidatesRejected = offered g (searchVisits guide g c task p) := by
  unfold searchVisits
  unfold searchAgain at h
  cases settings : c.fault? with
  | some e =>
      rw [settings] at h
      cases h
  | none =>
      rw [settings] at h
      cases inputs : task.fault? with
      | some e =>
          rw [inputs] at h
          cases h
      | none =>
          rw [inputs] at h
          exact (iterations_offered h).trans (Nat.zero_add _)

/-- An expansion is unscoreable at most once. -/
theorem Progress.Expands.unscoreable_le {nodes : List Node} (h : Expands guide g goal p nodes q)
    (start : p.tally.unscoreableStates ≤ p.tally.nodesExpanded) :
    q.tally.unscoreableStates ≤ q.tally.nodesExpanded := by
  induction h with
  | refl => exact start
  | expanded before node ih =>
      refine Nat.add_le_add ih ?_
      split
      · exact Nat.le_refl 1
      · exact Nat.zero_le 1
  | ranked before ih => exact ih
  | @passed nodes q before lengths node ih =>
      obtain ⟨expanded, blank⟩ := q.past_expansions guide lengths node
      rw [expanded, blank]
      exact ih
  | @ended nodes q before done ih =>
      obtain ⟨expanded, blank, -⟩ := q.ended_expansions done
      rw [expanded, blank]
      exact ih
  | opened before width ih => exact ih

end Offers

section Room

/-- Every child that has been generated has been pruned or admitted. -/
def Tally.Settled (t : Tally) : Prop := t.leavesPruned + t.nodesAdmitted = t.childrenGenerated

/-- A level that leaves room in its beam looks at all of its pool. -/
theorem level_settled (advanced : level guide g goal width frontier p = (.ok (.advanced next), q))
    (room : next.length < width) (settled : p.tally.Settled) : q.tally.Settled := by
  obtain ⟨-, -, blank, grown⟩ := level_of_room advanced room
  have parts := Multiset.card_eq_countP_add_countP (fun place : Place => place.isOpen goal.minLengths = true)
    (children g (places frontier))
  have shut : (children g (places frontier)).countP (fun place => ¬ place.isOpen goal.minLengths = true) =
      (children g (places frontier)).countP fun place => (place.state.deadEnd? goal.minLengths).isSome = true := by
    refine Multiset.countP_congr rfl ?_
    intro place _
    simp [Place.isOpen, Option.isSome_iff_ne_none]
  unfold Tally.Settled at settled ⊢
  rw [grown]
  simp only [growth, expansion, passage, Tally.append_eq, Tally.merge]
  omega

theorem Comes.settled (come : Comes guide g c task k p depth frontier q) (roomy : Roomy guide g c task k p)
    (settled : p.tally.Settled) : q.tally.Settled := by
  induction come with
  | first => exact settled
  | next come passes ih => exact level_settled passes.advanced (roomy come passes) ih

theorem Begins.settled (begun : Begins guide g c task memory k p)
    (roomy : ∀ {j m}, Begins guide g c task memory j m → j < k → Roomy guide g c task j m) : p.tally.Settled := by
  induction begun with
  | first => rfl
  | next begun ended ih =>
      have before := ih fun begun' less => roomy begun' (Nat.lt_succ_of_lt less)
      obtain ⟨depth, frontier, r, come, ends⟩ := exists_ends ended
      have here := come.settled (roomy begun (Nat.lt_succ_self _)) before
      cases ends with
      | out => exact here
      | dry within => exact here

end Room

section Balance

/-- The books of a search that has come to an outcome by way of the given nodes. -/
structure Tally.Balances (g : Grammar) (c : Settings) (task : Task) (outcome : Outcome) (nodes : List Node)
    (t : Tally) : Prop where
  iterations : t.iterationsRun = t.beamWidths.length
  within : t.iterationsRun ≤ c.iterations.toNat
  all : outcome = .exhausted → t.iterationsRun = c.iterations.toNat
  widths : ∀ k < t.iterationsRun, t.beamWidths[k]? = some (c.width k).toNat
  levels : t.levelsExpanded ≤ t.iterationsRun * c.maxLength.toNat
  expanded : t.nodesExpanded = nodes.length
  frontiers : t.nodesExpanded ≤ t.iterationsRun + t.nodesAdmitted
  unscoreable : t.unscoreableStates ≤ t.nodesExpanded
  short : t.lengthPruned ≤ t.leavesPruned
  flat : (∀ items, task.goal.components.head? ≠ some (.list items)) → t.lengthPruned = 0
  children : t.leavesPruned + t.nodesAdmitted + outcome.solutions ≤ t.childrenGenerated
  peak : ∃ widest, t.beamWidths.max? = some widest ∧ t.peakFrontier ≤ widest
  admitted : t.peakFrontier ≤ t.nodesAdmitted
  candidates : t.childrenGenerated + t.candidatesRejected = offered g nodes

theorem Goal.minLengths_of_not_list (first : ∀ items, goal.components.head? ≠ some (.list items)) :
    goal.minLengths = none := by
  unfold minLengths
  split
  · rename_i items rest all
    rw [all] at first
    exact absurd rfl (first items)
  · rfl

theorem Settings.max?_widths (settings : c.fault? = none) (k : Nat) :
    ((List.range (k + 1)).map fun j => (c.width j).toNat).max? = some (c.width k).toNat := by
  have mono : Monotone fun j => (c.width j).toNat := monotone_nat_of_le_succ (c.width_le_succ settings)
  refine List.max?_eq_some_iff.mpr ⟨List.mem_map_of_mem (List.mem_range.mpr (Nat.lt_succ_self k)), ?_⟩
  intro width hw
  obtain ⟨j, hj, rfl⟩ := List.mem_map.mp hw
  exact mono (Nat.le_of_lt_succ (List.mem_range.mp hj))

/-- The books of every search that has an outcome balance, whatever the guide, and whatever was searched before. If it
is exhausted and no level has filled its beam, every child has been pruned or admitted. And a level never admits more
nodes than the beam of its iteration is wide. -/
theorem tally_balances {outcome : Outcome} (h : searchAgain guide g c task p = (.ok outcome, q)) :
    q.tally.Balances g c task outcome (searchVisits guide g c task p) ∧
    (outcome = .exhausted →
      (∀ {k m}, Begins guide g c task p.memory k m → k < c.iterations.toNat → Roomy guide g c task k m) →
      q.tally.leavesPruned + q.tally.nodesAdmitted = q.tally.childrenGenerated) ∧
    ∀ {k depth frontier m n r done}, Begins guide g c task p.memory k m → Comes guide g c task k m depth frontier n →
      level guide g task.goal (c.width k).toNat frontier n = (.ok done, r) →
      r.tally.nodesAdmitted ≤ n.tally.nodesAdmitted + (c.width k).toNat := by
  have ended : search guide g c task p.memory = (.ok outcome, q) := h
  obtain ⟨settings, -, ends⟩ := search_ends ended
  obtain ⟨k, within, all, counts⟩ := exists_onCourse settings ended
  have expands := search_expands guide g c task p
  rw [h] at expands
  refine ⟨?_, ?_, ?_⟩
  · constructor
    case iterations => rw [counts.iterations, counts.widths, List.length_map, List.length_range]
    case within => exact counts.iterations ▸ within
    case all => exact fun exhausted => counts.iterations.trans (all exhausted)
    case widths =>
      intro j hj
      rw [counts.iterations] at hj
      rw [counts.widths, List.getElem?_map, List.getElem?_range hj]
      rfl
    case levels => exact counts.iterations ▸ counts.levels
    case expanded => exact expands.nodesExpanded.trans (Nat.zero_add _)
    case frontiers => exact counts.iterations ▸ counts.nodes
    case unscoreable => exact expands.unscoreable_le (Nat.le_refl 0)
    case short => exact counts.short
    case flat => exact fun first => counts.flat (Goal.minLengths_of_not_list first)
    case children => exact counts.walked
    case peak => exact ⟨_, counts.widths ▸ c.max?_widths settings k, counts.narrow⟩
    case admitted => exact counts.peak
    case candidates => exact search_offered h
  · rintro rfl roomy
    rcases ends with ⟨-, begun⟩ | ⟨k, m, -, -, done⟩
    · exact begun.settled roomy
    · exact absurd done levels_ne_exhausted
  · intro k depth frontier m n r done begun come leveled
    obtain ⟨seen, -, room, -, blank, grown⟩ := level_grows leveled
    have room := room (Settings.width_pos settings k)
    rw [grown, passage_places]
    simp only [Tally.append_eq, Tally.merge, expansion]
    omega

theorem tally_balances_of_five :
    (∃ q, searchAgain .blind .summing .brief .ofFive ⟨{ nodesExpanded := 5 }, ()⟩ = (.ok .exhausted, q) ∧
      q.tally.Balances .summing .brief .ofFive .exhausted
        (searchVisits .blind .summing .brief .ofFive ⟨{ nodesExpanded := 5 }, ()⟩) ∧
      q.tally.leavesPruned + q.tally.nodesAdmitted = q.tally.childrenGenerated) ∧
    ∃ done r, level .blind .summing Task.ofFive.goal (Settings.brief.width 0).toNat [.root Task.ofFive.start]
        (Progress.opened ⟨{}, ()⟩ (Settings.brief.width 0).toNat) = (.ok done, r) ∧
      r.tally.nodesAdmitted ≤ 0 + (Settings.brief.width 0).toNat := by
  obtain ⟨q, h, -⟩ := exhausted_of_five
  have exhausted : searchAgain .blind .summing .brief .ofFive ⟨{ nodesExpanded := 5 }, ()⟩ = (.ok .exhausted, q) := h
  obtain ⟨balances, settled, admits⟩ := tally_balances exhausted
  obtain ⟨-, roomy⟩ : _ ∧ Roomy .blind .summing .brief .ofFive 0 ⟨{}, ()⟩ := roomy_of_five (by cbv) (by cbv)
  obtain ⟨done, r, leveled⟩ := exists_level (p := Progress.opened ⟨{}, ()⟩ (Settings.brief.width 0).toNat)
    (Guide.covers_blind .summing) Task.ofFive.goal (Settings.brief.width 0).toNat [.root Task.ofFive.start]
  refine ⟨⟨q, exhausted, balances, settled rfl ?_⟩, done, r, leveled, admits .first .first leveled⟩
  intro k m begun within
  cases begun with
  | first => exact roomy
  | @next k p q begun ended => exact absurd within (Nat.not_lt_of_le (Nat.succ_le_succ (Nat.zero_le k)))

end Balance

end ListSynth
