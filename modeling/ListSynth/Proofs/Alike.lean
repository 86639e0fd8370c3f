import ListSynth.Proofs.Level
import ListSynth.Proofs.Tallies
/-!
Runs that go alike. Two guides that give the same answers, whatever memories they keep, take a search to the same
results; and what was counted before a run is only added to, never looked at. So a run can be told from the run
of another guide that starts from nothing.
-/

namespace ListSynth

section Alike

variable {σ τ : Type} {guide : Guide σ} {other : Guide τ} {g : Grammar} {R : σ → τ → Prop} {t : Tally}

/-- Two guides answer alike under a relation of their memories: from related ones they give the same weights and
read the same signal, and come to related ones again. -/
structure Guide.Alike (guide : Guide σ) (other : Guide τ) (g : Grammar) (R : σ → τ → Prop) : Prop where
  predict : ∀ {m n} goal s, R m n → (other.predict g goal s n).1 = (guide.predict g goal s m).1 ∧
    R (guide.predict g goal s m).2 (other.predict g goal s n).2
  stopped : ∀ {m n}, R m n → (other.stopped n).1 = (guide.stopped m).1 ∧ R (guide.stopped m).2 (other.stopped n).2

/-- One progress has all that another has, with related memory, and some tally from before it. -/
structure Progress.Follows (t : Tally) (R : σ → τ → Prop) (p : Progress σ) (p' : Progress τ) : Prop where
  tally : p'.tally = t ++ p.tally
  memory : R p.memory p'.memory

/-- The same result, with a progress that follows. -/
structure Agree {α : Type} (t : Tally) (R : σ → τ → Prop) (x : α × Progress σ) (y : α × Progress τ) : Prop where
  result : y.1 = x.1
  progress : x.2.Follows t R y.2

theorem Agree.exists_eq {α : Type} {x : α × Progress σ} {y : α × Progress τ} (h : Agree t R x y) :
    ∃ r q q', x = (r, q) ∧ y = (r, q') ∧ q.Follows t R q' :=
  ⟨x.1, x.2, y.2, rfl, Prod.ext h.result rfl, h.progress⟩

namespace Guide.Alike

variable (h : guide.Alike other g R) {p : Progress σ} {p' : Progress τ}

include h

theorem consult (goal : Goal) (s : State) {m : σ} {n : τ} (related : R m n) :
    (other.consult g goal s n).1 = (guide.consult g goal s m).1 ∧
      R (guide.consult g goal s m).2 (other.consult g goal s n).2 := by
  unfold Guide.consult
  split
  · exact ⟨rfl, related⟩
  · exact h.predict goal s related

theorem expand (goal : Goal) (parent : Node) (follows : p.Follows t R p') :
    Agree t R (parent.expand guide g goal p) (parent.expand other g goal p') := by
  obtain ⟨weights, memory⟩ := h.consult goal parent.state follows.memory
  refine ⟨?_, ?_, memory⟩
  · simp only [Node.expand, weights]
  · simp only [Node.expand, weights, follows.tally, Tally.append_eq, Tally.merge, Nat.add_assoc]

theorem expandAll (goal : Goal) (frontier : List Node) (broods : List (List Node)) (follows : p.Follows t R p') :
    Agree t R (ListSynth.expandAll guide g goal frontier broods p)
      (ListSynth.expandAll other g goal frontier broods p') := by
  induction frontier generalizing broods p p' with
  | nil => exact ⟨rfl, follows⟩
  | cons parent rest ih =>
      obtain ⟨r, q, q', left, right, follows⟩ := (h.expand goal parent follows).exists_eq
      rw [ListSynth.expandAll, ListSynth.expandAll, left, right]
      cases r with
      | error e => exact ⟨rfl, follows⟩
      | ok children => exact ih (children :: broods) follows

theorem past (lengths : Option (List Nat)) (node : Node) (follows : p.Follows t R p') :
    (p.past guide lengths node).Follows t R (p'.past other lengths node) := by
  refine ⟨?_, (h.stopped follows.memory).2⟩
  simp only [Progress.past, follows.tally]
  cases node.state.deadEnd? lengths with
  | none => exact Tally.append_countAdmitted
  | some why => exact Tally.append_countPruned why

theorem walk (goal : Goal) (lengths : Option (List Nat)) (pool : List Node) (room : Nat) (admitted : List Node)
    (follows : p.Follows t R p') :
    Agree t R (ListSynth.walk guide goal lengths pool room admitted p)
      (ListSynth.walk other goal lengths pool room admitted p') := by
  induction pool generalizing room admitted p p' with
  | nil => exact ⟨rfl, follows⟩
  | cons first rest ih =>
      have later := h.past lengths first follows
      rw [walk_cons, walk_cons, (h.stopped follows.memory).1]
      split
      · exact ⟨rfl, follows⟩
      · split
        · exact ⟨rfl, later⟩
        · dsimp only
          split
          · exact ⟨rfl, later⟩
          · exact ih _ _ later

theorem level (goal : Goal) (width : Nat) (frontier : List Node) (follows : p.Follows t R p') :
    Agree t R (ListSynth.level guide g goal width frontier p) (ListSynth.level other g goal width frontier p') := by
  obtain ⟨r, q, q', left, right, follows⟩ := (h.expandAll goal frontier [] follows).exists_eq
  unfold ListSynth.level
  rw [left, right]
  cases r with
  | error e => exact ⟨rfl, follows⟩
  | ok pool =>
      have ranked : Progress.Follows t R ⟨{ q.tally with levelsExpanded := q.tally.levelsExpanded + 1 }, q.memory⟩
          ⟨{ q'.tally with levelsExpanded := q'.tally.levelsExpanded + 1 }, q'.memory⟩ := by
        refine ⟨?_, follows.memory⟩
        simp only [follows.tally, Tally.append_eq, Tally.merge, Nat.add_assoc]
      obtain ⟨done, m, m', left, right, follows⟩ :=
        (h.walk goal goal.minLengths (sortByRank pool) width [] ranked).exists_eq
      dsimp only
      rw [left, right]
      cases done with
      | found node => exact ⟨rfl, follows⟩
      | cancelled => exact ⟨rfl, follows⟩
      | advanced next =>
          refine ⟨rfl, ?_, follows.memory⟩
          simp only [follows.tally, Tally.append_eq, Tally.merge, Nat.max_assoc]

theorem levels (task : Task) (width remaining depth : Nat) (frontier : List Node) (follows : p.Follows t R p') :
    Agree t R (ListSynth.levels guide g task width remaining depth frontier p)
      (ListSynth.levels other g task width remaining depth frontier p') := by
  induction remaining generalizing depth frontier p p' with
  | zero => exact ⟨rfl, follows⟩
  | succ remaining ih =>
      rw [ListSynth.levels, ListSynth.levels]
      split
      · exact ⟨rfl, follows⟩
      · obtain ⟨r, q, q', left, right, follows⟩ := (h.level task.goal width frontier follows).exists_eq
        rw [left, right]
        rcases r with e | node | _ | next
        · exact ⟨rfl, follows⟩
        · exact ⟨rfl, follows⟩
        · exact ⟨rfl, follows⟩
        · exact ih _ _ follows

theorem iterations (c : Settings) (task : Task) (remaining k : Nat) (follows : p.Follows t R p') :
    Agree t R (ListSynth.iterations guide g c task remaining k p)
      (ListSynth.iterations other g c task remaining k p') := by
  induction remaining generalizing k p p' with
  | zero => exact ⟨rfl, follows⟩
  | succ remaining ih =>
      have opened : Progress.Follows t R ⟨p.tally.startIteration (c.width k).toNat, p.memory⟩
          ⟨p'.tally.startIteration (c.width k).toNat, p'.memory⟩ := by
        refine ⟨?_, follows.memory⟩
        rw [follows.tally, Tally.append_startIteration]
      obtain ⟨r, q, q', left, right, follows⟩ :=
        (h.levels task (c.width k).toNat c.maxLength.toNat 0 [.root task.start] opened).exists_eq
      simp only [ListSynth.iterations, left, right]
      rcases r with e | _ | outcome
      · exact ⟨rfl, follows⟩
      · exact ih _ follows
      · exact ⟨rfl, follows⟩

theorem search (c : Settings) (task : Task) {m : σ} {n : τ} (related : R m n) :
    Agree {} R (ListSynth.search guide g c task m) (ListSynth.search other g c task n) := by
  have started : Progress.Follows {} R ⟨{}, m⟩ ⟨{}, n⟩ := ⟨Tally.nothing_append.symm, related⟩
  unfold ListSynth.search searchAgain
  split
  · exact ⟨rfl, started⟩
  · split
    · exact ⟨rfl, started⟩
    · exact h.iterations c task _ _ started

end Guide.Alike

end Alike

end ListSynth
