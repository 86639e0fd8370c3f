import Mathlib.Logic.Relation
import ListSynth.Proofs.Level
import ListSynth.Search.Beam
/-!
The memories that a search takes its guide through. A search asks for weights, reads the stop signal and counts,
and does nothing else with its progress; so what holds of all memories that asking and reading lead to holds at
every point of a search.
-/

namespace ListSynth

variable {σ : Type} {guide : Guide σ} {g : Grammar} {goal : Goal}

namespace Guide

variable {P : σ → Prop} {m n o : σ}

/-- The memories that a guide comes to from one of them by being asked for weights and by having its stop signal
read, in any order. -/
inductive Reaches (guide : Guide σ) (g : Grammar) (m : σ) : σ → Prop
  | refl : Reaches guide g m m
  | asked {n : σ} (before : Reaches guide g m n) (goal : Goal) (s : State) :
      Reaches guide g m (guide.predict g goal s n).2
  | read {n : σ} (before : Reaches guide g m n) : Reaches guide g m (guide.stopped n).2

theorem Reaches.trans (h : guide.Reaches g m n) (further : guide.Reaches g n o) : guide.Reaches g m o := by
  induction further with
  | refl => exact h
  | asked before goal s ih => exact .asked ih goal s
  | read before ih => exact .read ih

theorem Reaches.consult (h : guide.Reaches g m n) (s : State) :
    guide.Reaches g m (guide.consult g goal s n).2 := by
  unfold Guide.consult
  split
  · exact h
  · exact .asked h goal s

/-- A condition holds of a memory and of all that the guide can come to from it. -/
def Always (guide : Guide σ) (g : Grammar) (P : σ → Prop) (m : σ) : Prop := ∀ n, guide.Reaches g m n → P n

theorem Always.now (h : guide.Always g P m) : P m := h m .refl

theorem Always.later (h : guide.Always g P m) (reached : guide.Reaches g m n) : guide.Always g P n :=
  fun o further => h o (reached.trans further)

/-- What asking and reading keep, once it holds, always holds. -/
theorem always_of_keeps (asked : ∀ n goal s, P n → P (guide.predict g goal s n).2)
    (read : ∀ n, P n → P (guide.stopped n).2) (now : P m) : guide.Always g P m := by
  intro n reached
  induction reached with
  | refl => exact now
  | asked before goal s ih => exact asked _ goal s ih
  | read before ih => exact read _ ih

end Guide

namespace Progress

/-- What a search does to its progress, one thing at a time. -/
inductive Change (guide : Guide σ) (g : Grammar) (p : Progress σ) : Progress σ → Prop
  | expanded (goal : Goal) (node : Node) : Change guide g p (node.expand guide g goal p).2
  | ranked : Change guide g p p.ranked
  | passed (lengths : Option (List Nat)) (node : Node) : Change guide g p (p.past guide lengths node)
  | ended (done : LevelEnd) : Change guide g p (p.ended done)
  | opened (width : Nat) : Change guide g p ⟨p.tally.startIteration width, p.memory⟩

abbrev Changes (guide : Guide σ) (g : Grammar) : Progress σ → Progress σ → Prop :=
  Relation.ReflTransGen (Change guide g)

variable {p q : Progress σ}

theorem Change.reaches (h : Change guide g p q) : guide.Reaches g p.memory q.memory := by
  cases h with
  | expanded goal node => exact Guide.Reaches.refl.consult node.state
  | passed lengths node => exact .read .refl
  | ranked => exact .refl
  | ended done => cases done <;> exact .refl
  | opened width => exact .refl

theorem Changes.reaches (h : Changes guide g p q) : guide.Reaches g p.memory q.memory := by
  induction h with
  | refl => exact .refl
  | tail before change ih => exact ih.trans change.reaches

end Progress

section Runs

variable {task : Task} {p q : Progress σ} {frontier : List Node} {width depth remaining : Nat}

theorem expandAll_changes {broods : List (List Node)} {r : Except RankingError (List Node)}
    (h : expandAll guide g goal frontier broods p = (r, q)) : Progress.Changes guide g p q := by
  induction frontier generalizing broods p with
  | nil =>
      cases h
      exact .refl
  | cons parent rest ih =>
      have first : Progress.Change guide g p (parent.expand guide g goal p).2 := .expanded goal parent
      rw [expandAll] at h
      split at h
      · rename_i e m expanded
        cases h
        rw [expanded] at first
        exact .single first
      · rename_i children m expanded
        rw [expanded] at first
        exact .head first (ih h)

theorem walk_changes {lengths : Option (List Nat)} {pool admitted : List Node} {room : Nat} {r : LevelEnd}
    (h : walk guide goal lengths pool room admitted p = (r, q)) : Progress.Changes guide g p q := by
  induction pool generalizing room admitted p with
  | nil =>
      cases h
      exact .refl
  | cons first rest ih =>
      have past : Progress.Change guide g p (p.past guide lengths first) := .passed lengths first
      rw [walk_cons] at h
      split at h
      · cases h
        exact .refl
      · split at h
        · cases h
          exact .single past
        · dsimp only at h
          split at h
          · cases h
            exact .single past
          · exact .head past (ih h)

theorem level_changes {r : Except RankingError LevelEnd} (h : level guide g goal width frontier p = (r, q)) :
    Progress.Changes guide g p q := by
  cases r with
  | ok done =>
      obtain ⟨pool, m, r, expanded, walked, rfl⟩ := level_eq_ok_iff.mp h
      have ranked := (expandAll_changes expanded).tail .ranked
      exact (ranked.trans (walk_changes walked)).tail (.ended done)
  | error e =>
      unfold level at h
      split at h
      · rename_i e' m failed
        cases h
        exact expandAll_changes failed
      · dsimp only at h
        split at h <;> cases h

theorem levels_changes {r : Except SearchError (Option Outcome)}
    (h : levels guide g task width remaining depth frontier p = (r, q)) : Progress.Changes guide g p q := by
  induction remaining generalizing depth frontier p with
  | zero =>
      cases h
      exact .refl
  | succ remaining ih =>
      rw [levels] at h
      split at h
      · cases h
        exact .refl
      · split at h
        · rename_i e m failed
          cases h
          exact level_changes failed
        · rename_i node m found
          cases h
          exact level_changes found
        · rename_i m cancelled
          cases h
          exact level_changes cancelled
        · rename_i next m advanced
          exact (level_changes advanced).trans (ih h)

end Runs

end ListSynth
