import ListSynth.Search.Level
import ListSynth.Proofs.Expansion
/-!
What one level of a search passes on. A walk that is not stopped admits the nodes of the pool that are no dead
ends, up to the node that fills the beam; a level that leaves room in its beam has looked at every child.
-/

namespace ListSynth

theorem mem_sortByRank {node : Node} {pool : List Node} : node ∈ sortByRank pool ↔ node ∈ pool :=
  (List.mergeSort_perm pool _).mem_iff

def Node.isOpen (lengths : Option (List Nat)) (node : Node) : Bool := (node.state.deadEnd? lengths).isNone

variable {σ : Type} {guide : Guide σ} {g : Grammar} {goal : Goal} {lengths : Option (List Nat)}
  {node : Node} {pool frontier next admitted : List Node} {room width : Nat} {p q : Progress σ}

section Walk

/-- The progress once a node that is no solution has been counted and the stop signal read. -/
def Progress.past (guide : Guide σ) (lengths : Option (List Nat)) (node : Node) (p : Progress σ) :
    Progress σ :=
  ⟨match node.state.deadEnd? lengths with
    | some why => p.tally.countPruned why
    | none => p.tally.countAdmitted, (guide.stopped p.memory).2⟩

theorem walk_cons : walk guide goal lengths (node :: pool) room admitted p =
    if goal.isReachedBy node.state then (.found node, p)
    else if (guide.stopped p.memory).1 then (.cancelled, p.past guide lengths node)
    else
      let fresh := [node].filter (Node.isOpen lengths)
      if room - fresh.length = 0 then (.advanced (fresh ++ admitted).reverse, p.past guide lengths node)
      else walk guide goal lengths pool (room - fresh.length) (fresh ++ admitted)
        (p.past guide lengths node) := by
  rw [walk]
  cases dead : node.state.deadEnd? lengths <;> simp [Node.isOpen, Progress.past, dead]

theorem walk_found (h : walk guide goal lengths pool room admitted p = (.found node, q)) :
    node ∈ pool ∧ goal.isReachedBy node.state = true := by
  induction pool generalizing room admitted p with
  | nil => cases h
  | cons first rest ih =>
      rw [walk_cons] at h
      split at h
      · rename_i reached
        cases h
        exact ⟨List.mem_cons_self, reached⟩
      · split at h
        · cases h
        · dsimp only at h
          split at h
          · cases h
          · obtain ⟨found, reached⟩ := ih h
            exact ⟨List.mem_cons_of_mem first found, reached⟩

/-- However a walk ends, it has counted a front part of the pool, without a solution in it, and admitted no more of it
than there was room for. It goes on with what it admitted, and stops short of the end only when there is no more room;
a solution that is found is behind that part. -/
theorem walk_seen {done : LevelEnd} (h : walk guide goal lengths pool room admitted p = (done, q)) :
    ∃ seen rest, pool = seen ++ rest ∧ q = seen.foldl (fun p node => p.past guide lengths node) p ∧
      (∀ node ∈ seen, goal.isReachedBy node.state = false) ∧
      (0 < room → (seen.filter (Node.isOpen lengths)).length ≤ room) ∧
      (∀ next, done = .advanced next → next = admitted.reverse ++ seen.filter (Node.isOpen lengths) ∧
        (rest = [] ∨ room ≤ (seen.filter (Node.isOpen lengths)).length)) ∧
      (∀ node, done = .found node → node ∈ rest) := by
  induction pool generalizing room admitted p with
  | nil =>
      cases h
      exact ⟨[], [], rfl, rfl, by simp, by simp, by simp, by simp⟩
  | cons first rest ih =>
      have one : ([first].filter (Node.isOpen lengths)).length ≤ 1 := List.length_filter_le _ [first]
      have fresh : ([first].filter (Node.isOpen lengths)).reverse = [first].filter (Node.isOpen lengths) := by
        by_cases isOpen : first.isOpen lengths = true <;> simp [isOpen]
      rw [walk_cons] at h
      split at h
      · cases h
        exact ⟨[], first :: rest, rfl, rfl, by simp, by simp, by simp, by simp⟩
      · rename_i reached
        have unsolved : goal.isReachedBy first.state = false := by simpa using reached
        split at h
        · cases h
          exact ⟨[first], rest, rfl, rfl, by simpa using unsolved, fun some => Nat.le_trans one some, by simp, by simp⟩
        · dsimp only at h
          split at h
          · rename_i full
            cases h
            refine ⟨[first], rest, rfl, rfl, by simpa using unsolved, fun some => Nat.le_trans one some, ?_, by simp⟩
            intro next same
            cases same
            rw [List.reverse_append, fresh]
            exact ⟨rfl, .inr (by omega)⟩
          · obtain ⟨seen, rest', rfl, rfl, others, room', goes, behind⟩ := ih h
            have split : (first :: seen).filter (Node.isOpen lengths) =
                [first].filter (Node.isOpen lengths) ++ seen.filter (Node.isOpen lengths) :=
              List.filter_append [first] seen
            refine ⟨first :: seen, rest', rfl, rfl, List.forall_mem_cons.mpr ⟨unsolved, others⟩, fun _ => ?_,
              fun next same => ?_, behind⟩
            · rw [split, List.length_append]
              omega
            · obtain ⟨same, stop⟩ := goes next same
              refine ⟨?_, stop.imp_right ?_⟩
              · rw [same, List.reverse_append, fresh, split, List.append_assoc]
              · rw [split, List.length_append]
                omega

/-- A walk that admits has seen a front part of the pool, without a solution in it, and admits its open nodes.
It stops short of the end only when there is no more room. -/
theorem walk_advanced (h : walk guide goal lengths pool room admitted p = (.advanced next, q)) :
    ∃ seen rest, pool = seen ++ rest ∧ next = admitted.reverse ++ seen.filter (Node.isOpen lengths) ∧
      q = seen.foldl (fun p node => p.past guide lengths node) p ∧
      (∀ node ∈ seen, goal.isReachedBy node.state = false) ∧
      (rest = [] ∨ room ≤ (seen.filter (Node.isOpen lengths)).length) := by
  obtain ⟨seen, rest, parts, counted, unsolved, -, goes, -⟩ := walk_seen h
  obtain ⟨same, stop⟩ := goes next rfl
  exact ⟨seen, rest, parts, same, counted, unsolved, stop⟩

end Walk

section Level

/-- The progress once a pool has been sorted. -/
def Progress.ranked (p : Progress σ) : Progress σ :=
  ⟨{ p.tally with levelsExpanded := p.tally.levelsExpanded + 1 }, p.memory⟩

/-- The progress once a level has ended; a peak is noted where the search goes on. -/
def Progress.ended (p : Progress σ) : LevelEnd → Progress σ
  | .advanced next => ⟨{ p.tally with peakFrontier := max p.tally.peakFrontier next.length }, p.memory⟩
  | _ => p

theorem level_of_walked {m r : Progress σ} {done : LevelEnd}
    (expanded : expandAll guide g goal frontier [] p = (.ok pool, m))
    (walked : walk guide goal goal.minLengths (sortByRank pool) width [] m.ranked = (done, r)) :
    level guide g goal width frontier p = (.ok done, r.ended done) := by
  unfold Progress.ranked at walked
  unfold level
  rw [expanded]
  dsimp only at walked ⊢
  rw [walked]
  cases done <;> rfl

/-- A level without an error expands its frontier, walks the sorted pool and ends as the walk does. -/
theorem level_eq_ok_iff {done : LevelEnd} : level guide g goal width frontier p = (.ok done, q) ↔
    ∃ pool m r, expandAll guide g goal frontier [] p = (.ok pool, m) ∧
      walk guide goal goal.minLengths (sortByRank pool) width [] m.ranked = (done, r) ∧ q = r.ended done := by
  constructor
  · intro h
    rcases expanded : expandAll guide g goal frontier [] p with ⟨e | pool, m⟩
    · simp [level, expanded] at h
    · rcases walked : walk guide goal goal.minLengths (sortByRank pool) width [] m.ranked with ⟨done', r⟩
      rw [level_of_walked expanded walked] at h
      cases h
      exact ⟨pool, m, r, rfl, walked, rfl⟩
  · rintro ⟨pool, m, r, expanded, walked, rfl⟩
    exact level_of_walked expanded walked

theorem level_found (h : level guide g goal width frontier p = (.ok (.found node), q)) :
    (∃ parent ∈ frontier, parent.Breeds g node) ∧ goal.isReachedBy node.state = true := by
  obtain ⟨pool, m, r, expanded, walked, -⟩ := level_eq_ok_iff.mp h
  obtain ⟨found, reached⟩ := walk_found walked
  exact ⟨Node.of_mem_expandAll expanded (mem_sortByRank.mp found), reached⟩

/-- A level that goes on admits children of its frontier. When it leaves room in its beam, no child reaches the
goal, and every child that is no dead end is admitted. -/
theorem level_advanced (h : level guide g goal width frontier p = (.ok (.advanced next), q)) :
    ∃ pool m, expandAll guide g goal frontier [] p = (.ok pool, m) ∧
      (∀ node ∈ next, node ∈ pool ∧ node.isOpen goal.minLengths = true) ∧
      (next.length < width → ∀ node ∈ pool, goal.isReachedBy node.state = false ∧
        (node.isOpen goal.minLengths = true → node ∈ next)) := by
  obtain ⟨pool, m, r, expanded, walked, -⟩ := level_eq_ok_iff.mp h
  obtain ⟨seen, rest, parts, rfl, -, unsolved, stop⟩ := walk_advanced walked
  refine ⟨pool, m, expanded, ?_, ?_⟩
  · intro node hn
    obtain ⟨hs, isOpen⟩ := List.mem_filter.mp (by simpa using hn)
    exact ⟨mem_sortByRank.mp (parts ▸ List.mem_append_left rest hs), isOpen⟩
  · intro room node hn
    have all : rest = [] := stop.resolve_right (by simpa using room)
    have hs : node ∈ seen := by
      rw [← mem_sortByRank, parts, all, List.append_nil] at hn
      exact hn
    exact ⟨unsolved node hs, fun isOpen => by simpa using ⟨hs, isOpen⟩⟩

end Level

end ListSynth
