import ListSynth.Proofs.Course
import ListSynth.Proofs.Guides
/-!
The nodes that a search expands, in order: level after level, and iteration after iteration. What holds of the root and
is passed on to every child that is no dead end holds of all of them.
-/

namespace ListSynth

section Visits

variable {σ : Type} (guide : Guide σ) (g : Grammar) (c : Settings) (task : Task)

/-- The nodes of a frontier that are expanded: all of them, or those up to the first whose children have no ranks. -/
def frontierVisits (goal : Goal) : List Node → Progress σ → List Node
  | [], _ => []
  | node :: rest, p =>
    node :: match node.expand guide g goal p with
      | (.ok _, p) => frontierVisits goal rest p
      | (.error _, _) => []

def levelVisits (width : Nat) : Nat → List Node → Progress σ → List Node
  | 0, _, _ => []
  | remaining + 1, frontier, p =>
    frontierVisits guide g task.goal frontier p ++
      match level guide g task.goal width frontier p with
      | (.ok (.advanced next), p) => levelVisits width remaining next p
      | _ => []

def iterationVisits : Nat → Nat → Progress σ → List Node
  | 0, _, _ => []
  | remaining + 1, k, p =>
    levelVisits guide g task (c.width k).toNat c.maxLength.toNat [.root task.start] (p.opened (c.width k).toNat) ++
      match iteration guide g c task k p with
      | (.ok none, p) => iterationVisits remaining (k + 1) p
      | _ => []

/-- The nodes that a search expands, in order. Where the settings or the task are at fault there are none. -/
def searchVisits (p : Progress σ) : List Node :=
  match c.fault?, task.fault? with
  | none, none => iterationVisits guide g c task c.iterations.toNat 0 p.reset
  | _, _ => []

end Visits

variable {σ τ : Type} {guide : Guide σ} {other : Guide τ} {g : Grammar} {goal : Goal} {c : Settings} {task : Task}
  {p q r : Progress σ} {frontier pool : List Node} {node : Node} {width remaining depth k : Nat}

section Members

variable {P : Node → Prop}

theorem mem_of_mem_frontierVisits (hn : node ∈ frontierVisits guide g goal frontier p) : node ∈ frontier := by
  induction frontier generalizing p with
  | nil => cases hn
  | cons first rest ih =>
      rcases List.mem_cons.mp hn with rfl | later
      · exact List.mem_cons_self
      · split at later
        · exact List.mem_cons_of_mem first (ih later)
        · cases later

/-- What every node of a frontier has, and passes on to its children that are no dead ends, all nodes have that are
expanded from there on. -/
theorem forall_levelVisits
    (bred : ∀ {parent node}, P parent → parent.Breeds g node → node.isOpen task.goal.minLengths = true → P node)
    (start : ∀ node ∈ frontier, P node) :
    ∀ node ∈ levelVisits guide g task width remaining frontier p, P node := by
  induction remaining generalizing frontier p with
  | zero =>
      intro node hn
      cases hn
  | succ remaining ih =>
      intro node hn
      rcases List.mem_append.mp hn with here | later
      · exact start node (mem_of_mem_frontierVisits here)
      · split at later
        · rename_i next q advanced
          obtain ⟨pool, m, expanded, admitted, -⟩ := level_advanced advanced
          refine ih ?_ node later
          intro child hc
          obtain ⟨parent, hp, breeds⟩ := Node.of_mem_expandAll expanded (admitted child hc).1
          exact bred (start parent hp) breeds (admitted child hc).2
        · cases later

theorem forall_iterationVisits
    (bred : ∀ {parent node}, P parent → parent.Breeds g node → node.isOpen task.goal.minLengths = true → P node)
    (root : P (.root task.start)) : ∀ node ∈ iterationVisits guide g c task remaining k p, P node := by
  induction remaining generalizing k p with
  | zero =>
      intro node hn
      cases hn
  | succ remaining ih =>
      intro node hn
      rcases List.mem_append.mp hn with here | later
      · exact forall_levelVisits bred (by simpa using root) node here
      · split at later
        · exact ih node later
        · cases later

theorem forall_searchVisits
    (bred : ∀ {parent node}, P parent → parent.Breeds g node → node.isOpen task.goal.minLengths = true → P node)
    (root : P (.root task.start)) : ∀ node ∈ searchVisits guide g c task p, P node := by
  unfold searchVisits
  split
  · exact forall_iterationVisits bred root
  · intro node hn
    cases hn

/-- The root is expanded, unless no level is. -/
theorem root_mem_searchVisits (settings : c.fault? = none) (inputs : task.fault? = none)
    (deep : 0 < c.maxLength.toNat) : .root task.start ∈ searchVisits guide g c task p := by
  obtain ⟨n, iterations⟩ := Nat.exists_eq_add_of_lt (c.iterations_pos settings)
  obtain ⟨L, levels⟩ := Nat.exists_eq_add_of_lt deep
  simp [searchVisits, settings, inputs, iterations, levels, iterationVisits, levelVisits, frontierVisits]

end Members

section Order

/-- A frontier whose pool has all its ranks has been expanded as a whole. -/
theorem frontierVisits_of_expanded {broods : List (List Node)}
    (expanded : expandAll guide g goal frontier broods p = (.ok pool, q)) :
    frontierVisits guide g goal frontier p = frontier := by
  induction frontier generalizing broods p with
  | nil => rfl
  | cons first rest ih =>
      rw [expandAll] at expanded
      split at expanded
      · cases expanded
      · rename_i children m here
        rw [frontierVisits, here]
        exact congrArg (first :: ·) (ih expanded)

theorem levelVisits_of_empty : levelVisits guide g task width remaining [] p = [] := by
  induction remaining generalizing p with
  | zero => rfl
  | succ remaining ih =>
      rw [levelVisits, frontierVisits, List.nil_append]
      split
      · rename_i next q advanced
        obtain ⟨pool, m, expanded, admitted, -⟩ := level_advanced advanced
        cases expanded
        have none : next = [] := List.eq_nil_iff_forall_not_mem.mpr fun node hn => nomatch (admitted node hn).1
        exact none ▸ ih
      · rfl

end Order

namespace Progress

/-- A search takes its progress from one point to another, and expands the given nodes on the way, one after the
other. -/
inductive Expands (guide : Guide σ) (g : Grammar) (goal : Goal) (p : Progress σ) : List Node → Progress σ → Prop
  | refl : Expands guide g goal p [] p
  | expanded {nodes : List Node} {q : Progress σ} (before : Expands guide g goal p nodes q) (node : Node) :
      Expands guide g goal p (nodes ++ [node]) (node.expand guide g goal q).2
  | ranked {nodes : List Node} {q : Progress σ} (before : Expands guide g goal p nodes q) :
      Expands guide g goal p nodes q.ranked
  | passed {nodes : List Node} {q : Progress σ} (before : Expands guide g goal p nodes q)
      (lengths : Option (List Nat)) (node : Node) : Expands guide g goal p nodes (q.past guide lengths node)
  | ended {nodes : List Node} {q : Progress σ} (before : Expands guide g goal p nodes q) (done : LevelEnd) :
      Expands guide g goal p nodes (q.ended done)
  | opened {nodes : List Node} {q : Progress σ} (before : Expands guide g goal p nodes q) (width : Nat) :
      Expands guide g goal p nodes (q.opened width)

theorem Expands.trans {nodes more : List Node} (before : Expands guide g goal p nodes q)
    (further : Expands guide g goal q more r) : Expands guide g goal p (nodes ++ more) r := by
  induction further with
  | refl => simpa using before
  | expanded further node ih =>
      rw [← List.append_assoc]
      exact .expanded ih node
  | ranked further ih => exact .ranked ih
  | passed further lengths node ih => exact .passed ih lengths node
  | ended further done ih => exact .ended ih done
  | opened further width ih => exact .opened ih width

end Progress

section Runs

theorem expandAll_expands {broods : List (List Node)} {result : Except RankingError (List Node)}
    (h : expandAll guide g goal frontier broods p = (result, q)) :
    Progress.Expands guide g goal p (frontierVisits guide g goal frontier p) q := by
  induction frontier generalizing broods p with
  | nil =>
      cases h
      exact .refl
  | cons first rest ih =>
      have one : Progress.Expands guide g goal p [first] (first.expand guide g goal p).2 := .expanded .refl first
      rw [expandAll] at h
      rw [frontierVisits]
      split at h
      · rename_i e m failed
        cases h
        rw [failed] at one ⊢
        exact one
      · rename_i children m expanded
        rw [expanded] at one ⊢
        exact one.trans (ih h)

theorem foldl_past_expands (lengths : Option (List Nat)) (seen : List Node) (p : Progress σ) :
    Progress.Expands guide g goal p [] (seen.foldl (fun p node => p.past guide lengths node) p) := by
  induction seen generalizing p with
  | nil => exact .refl
  | cons first rest ih => exact (Progress.Expands.passed .refl lengths first).trans (ih _)

theorem level_expands {result : Except RankingError LevelEnd}
    (h : level guide g goal width frontier p = (result, q)) :
    Progress.Expands guide g goal p (frontierVisits guide g goal frontier p) q := by
  cases result with
  | ok done =>
      obtain ⟨pool, m, r, expanded, walked, rfl⟩ := level_eq_ok_iff.mp h
      obtain ⟨seen, rest, -, rfl, -⟩ := walk_seen walked
      have sorted := (expandAll_expands expanded).ranked.trans (foldl_past_expands goal.minLengths seen m.ranked)
      rw [List.append_nil] at sorted
      exact sorted.ended done
  | error e =>
      unfold level at h
      split at h
      · rename_i e' m failed
        cases h
        exact expandAll_expands failed
      · dsimp only at h
        split at h <;> cases h

theorem levels_expands {result : Except SearchError (Option Outcome)}
    (h : levels guide g task width remaining depth frontier p = (result, q)) :
    Progress.Expands guide g task.goal p (levelVisits guide g task width remaining frontier p) q := by
  induction remaining generalizing depth frontier p with
  | zero =>
      cases h
      exact .refl
  | succ remaining ih =>
      by_cases empty : frontier = []
      · subst empty
        cases h
        rw [levelVisits_of_empty]
        exact .refl
      · rw [levels_of_nonempty empty] at h
        rw [levelVisits]
        rcases leveled : level guide g task.goal width frontier p with ⟨e | node | _ | next, m⟩
        all_goals
          rw [leveled] at h
          have first := level_expands leveled
        · cases h
          simpa using first
        · cases h
          simpa using first
        · cases h
          simpa using first
        · exact first.trans (ih h)

theorem iteration_expands {result : Except SearchError (Option Outcome)}
    (h : iteration guide g c task k p = (result, q)) :
    Progress.Expands guide g task.goal p
      (levelVisits guide g task (c.width k).toNat c.maxLength.toNat [.root task.start] (p.opened (c.width k).toNat))
      q :=
  (Progress.Expands.opened .refl (c.width k).toNat).trans (levels_expands h)

theorem iterations_expands {result : Except SearchError Outcome}
    (h : iterations guide g c task remaining k p = (result, q)) :
    Progress.Expands guide g task.goal p (iterationVisits guide g c task remaining k p) q := by
  induction remaining generalizing k p with
  | zero =>
      cases h
      exact .refl
  | succ remaining ih =>
      rw [iterations_succ] at h
      rw [iterationVisits]
      rcases ended : iteration guide g c task k p with ⟨e | _ | outcome, m⟩
      all_goals
        rw [ended] at h
        have first := iteration_expands ended
      · cases h
        simpa using first
      · exact first.trans (ih h)
      · cases h
        simpa using first

/-- A search takes its progress from nothing counted to where it ends, and expands its nodes on the way. -/
theorem search_expands (guide : Guide σ) (g : Grammar) (c : Settings) (task : Task) (p : Progress σ) :
    Progress.Expands guide g task.goal p.reset (searchVisits guide g c task p) (searchAgain guide g c task p).2 := by
  unfold searchVisits searchAgain
  cases c.fault? with
  | some e => exact .refl
  | none =>
      cases task.fault? with
      | some e => exact .refl
      | none => exact iterations_expands rfl

end Runs

section Alike

variable {R : σ → τ → Prop} {t : Tally} {p' : Progress τ}

theorem Progress.Follows.opened (follows : p.Follows t R p') (width : Nat) :
    (p.opened width).Follows t R (p'.opened width) := by
  refine ⟨?_, follows.memory⟩
  exact (congrArg (Tally.startIteration · width) follows.tally).trans (Tally.append_startIteration width)

namespace Guide.Alike

variable (h : guide.Alike other g R)

include h

theorem frontierVisits (goal : Goal) (frontier : List Node) (follows : p.Follows t R p') :
    ListSynth.frontierVisits other g goal frontier p' = ListSynth.frontierVisits guide g goal frontier p := by
  induction frontier generalizing p p' with
  | nil => rfl
  | cons first rest ih =>
      obtain ⟨result, q, q', left, right, follows⟩ := (h.expand goal first follows).exists_eq
      rw [ListSynth.frontierVisits, ListSynth.frontierVisits, left, right]
      cases result with
      | error e => rfl
      | ok children => exact congrArg (first :: ·) (ih follows)

theorem levelVisits (task : Task) (width remaining : Nat) (frontier : List Node) (follows : p.Follows t R p') :
    ListSynth.levelVisits other g task width remaining frontier p' =
      ListSynth.levelVisits guide g task width remaining frontier p := by
  induction remaining generalizing frontier p p' with
  | zero => rfl
  | succ remaining ih =>
      obtain ⟨result, q, q', left, right, later⟩ := (h.level task.goal width frontier follows).exists_eq
      rw [ListSynth.levelVisits, ListSynth.levelVisits, h.frontierVisits task.goal frontier follows, left, right]
      rcases result with e | node | _ | next
      · rfl
      · rfl
      · rfl
      · exact congrArg (ListSynth.frontierVisits guide g task.goal frontier p ++ ·) (ih next later)

theorem iterationVisits (c : Settings) (task : Task) (remaining k : Nat) (follows : p.Follows t R p') :
    ListSynth.iterationVisits other g c task remaining k p' =
      ListSynth.iterationVisits guide g c task remaining k p := by
  induction remaining generalizing k p p' with
  | zero => rfl
  | succ remaining ih =>
      have opened := follows.opened (c.width k).toNat
      obtain ⟨result, q, q', left, right, later⟩ :=
        (h.levels task (c.width k).toNat c.maxLength.toNat 0 [.root task.start] opened).exists_eq
      rw [ListSynth.iterationVisits, ListSynth.iterationVisits, h.levelVisits task _ _ _ opened, iteration, iteration,
        left, right]
      rcases result with e | _ | outcome
      · rfl
      · exact congrArg _ (ih (k + 1) later)
      · rfl

end Guide.Alike

/-- Guides that answer alike have the same nodes expanded. -/
theorem Guide.Maps.searchVisits {image : Guide τ} {f : σ → τ} (h : guide.Maps image f) (p : Progress σ) :
    ListSynth.searchVisits image g c task (p.map f) = ListSynth.searchVisits guide g c task p := by
  have follows : Progress.Follows {} (fun m n => n = f m) p.reset (p.map f).reset :=
    ⟨Tally.nothing_append.symm, rfl⟩
  unfold ListSynth.searchVisits
  cases c.fault? with
  | some e => rfl
  | none =>
      cases task.fault? with
      | some e => rfl
      | none => exact (h.alike g).iterationVisits c task _ _ follows

end Alike

end ListSynth
