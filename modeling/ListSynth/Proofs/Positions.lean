import Mathlib.Tactic.Tauto
import ListSynth.Positions
/-!
What lists of positions name, and the fusing of one place or of two. Places are removed from the back, so that none of
them is past the end when its turn comes.
-/

namespace ListSynth.Positions

theorem fault?_eq_none_iff {n : Nat} {seen positions : List Nat} :
    fault? n seen positions = none ↔
      (∀ i ∈ positions, i < n) ∧ (∀ i ∈ positions, i ∉ seen) ∧ positions.Nodup := by
  induction positions generalizing seen with
  | nil => simp [fault?]
  | cons i rest ih =>
      have split : (∀ j ∈ rest, j ∉ seen ++ [i]) ↔ (∀ j ∈ rest, j ∉ seen) ∧ i ∉ rest := by
        simp only [List.mem_append, List.mem_singleton, not_or]
        constructor
        · intro h
          exact ⟨fun j hj => (h j hj).1, fun hi => (h i hi).2 rfl⟩
        · intro h j hj
          exact ⟨h.1 j hj, fun e => h.2 (e ▸ hj)⟩
      by_cases bad : n ≤ i ∨ i ∈ seen
      · simp only [fault?, if_pos bad, List.forall_mem_cons]
        constructor
        · intro h; cases h
        · intro h
          exact (bad.elim (Nat.not_le_of_lt h.1.1) h.2.1.1).elim
      · have range : i < n := Nat.lt_of_not_le fun le => bad (.inl le)
        have fresh : i ∉ seen := fun old => bad (.inr old)
        rw [fault?, if_neg bad, ih, split]
        simp only [List.forall_mem_cons, List.nodup_cons]
        tauto

theorem fault?_nil_eq_none_iff {n : Nat} {positions : List Nat} :
    fault? n [] positions = none ↔ (∀ i ∈ positions, i < n) ∧ positions.Nodup := by
  simp [fault?_eq_none_iff]

/-- The fault is the first position that is out of range or was named before. -/
theorem fault?_eq_some_iff {n i : Nat} {seen positions : List Nat} :
    fault? n seen positions = some i ↔ ∃ front rest, positions = front ++ i :: rest ∧
      fault? n seen front = none ∧ (n ≤ i ∨ i ∈ seen ++ front) := by
  induction positions generalizing seen with
  | nil => simp [fault?]
  | cons j positions ih =>
      by_cases bad : n ≤ j ∨ j ∈ seen
      · rw [fault?, if_pos bad]
        constructor
        · intro h
          cases h
          exact ⟨[], positions, rfl, rfl, by simpa using bad⟩
        · rintro ⟨front, rest, same, sound, -⟩
          cases front with
          | nil =>
              cases same
              rfl
          | cons k front =>
              cases same
              rw [fault?, if_pos bad] at sound
              cases sound
      · rw [fault?, if_neg bad, ih]
        constructor
        · rintro ⟨front, rest, rfl, sound, faulty⟩
          refine ⟨j :: front, rest, rfl, ?_, by simpa using faulty⟩
          rwa [fault?, if_neg bad]
        · rintro ⟨front, rest, same, sound, faulty⟩
          cases front with
          | nil =>
              cases same
              exact absurd (by simpa using faulty) bad
          | cons k front =>
              cases same
              rw [fault?, if_neg bad] at sound
              exact ⟨front, rest, rfl, sound, by simpa using faulty⟩

section Descending

theorem mem_insertDescending {i j : Nat} {l : List Nat} : j ∈ insertDescending i l ↔ j = i ∨ j ∈ l := by
  induction l with
  | nil => simp [insertDescending]
  | cons k rest ih =>
      simp only [insertDescending]
      split
      · exact List.mem_cons
      · split
        · rename_i same
          simp [same]
        · rw [List.mem_cons, List.mem_cons, ih, or_left_comm]

theorem pairwise_insertDescending (i : Nat) {l : List Nat} (sorted : l.Pairwise (· > ·)) :
    (insertDescending i l).Pairwise (· > ·) := by
  induction l with
  | nil => exact List.pairwise_singleton _ _
  | cons k rest ih =>
      obtain ⟨first, later⟩ := List.pairwise_cons.mp sorted
      simp only [insertDescending]
      split
      · rename_i lt
        refine List.pairwise_cons.mpr ⟨List.forall_mem_cons.mpr ⟨lt, ?_⟩, sorted⟩
        intro j hj
        exact Nat.lt_trans (first j hj) lt
      · split
        · exact sorted
        · refine List.pairwise_cons.mpr ⟨?_, ih later⟩
          intro j hj
          rcases mem_insertDescending.mp hj with rfl | hj
          · omega
          · exact first j hj

theorem mem_descending {j : Nat} {positions : List Nat} : j ∈ descending positions ↔ j ∈ positions := by
  induction positions with
  | nil => exact Iff.rfl
  | cons i rest ih => rw [descending, List.foldr_cons, mem_insertDescending, List.mem_cons, ← ih, descending]

theorem pairwise_descending (positions : List Nat) : (descending positions).Pairwise (· > ·) := by
  induction positions with
  | nil => exact .nil
  | cons i rest ih => exact pairwise_insertDescending i ih

end Descending

variable {α : Type}

section Checked

/-- Replacing, and nothing past the end. -/
def set? (items : List α) (i : Nat) (x : α) : Option (List α) :=
  if i < items.length then some (items.set i x) else none

/-- Removing, and nothing past the end. -/
def erase? (items : List α) (i : Nat) : Option (List α) :=
  if i < items.length then some (items.eraseIdx i) else none

/-- Fusing with each access checked. -/
def fuse? (items : List α) (positions : List Nat) (result : α) : Option (List α) :=
  match positions.min? with
  | none => some items
  | some least => do (descending (positions.filter (· ≠ least))).foldlM erase? (← set? items least result)

/-- Positions before one that is removed are still in range. -/
theorem range_eraseIdx {items : List α} {positions : List Nat} {i : Nat} (here : i < items.length)
    (below : ∀ j ∈ positions, j < i) : ∀ j ∈ positions, j < (items.eraseIdx i).length := by
  intro j hj
  have := below j hj
  rw [List.length_eraseIdx_of_lt here]
  omega

theorem foldlM_erase? {items : List α} {positions : List Nat} (sorted : positions.Pairwise (· > ·))
    (range : ∀ i ∈ positions, i < items.length) :
    positions.foldlM erase? items = some (positions.foldl List.eraseIdx items) := by
  induction positions generalizing items with
  | nil => rfl
  | cons i rest ih =>
      obtain ⟨below, sorted⟩ := List.pairwise_cons.mp sorted
      have here : i < items.length := range i List.mem_cons_self
      have erased : erase? items i = some (items.eraseIdx i) := if_pos here
      rw [List.foldlM_cons, erased, Option.bind_eq_bind, Option.bind_some, List.foldl_cons]
      exact ih sorted (range_eraseIdx here below)

/-- Positions within the list are never past its end when they are removed. -/
theorem fuse?_eq_some {items : List α} {positions : List Nat} (range : ∀ i ∈ positions, i < items.length) (result : α) :
    fuse? items positions result = some (fuse items positions result) := by
  cases least : positions.min? with
  | none => simp only [fuse?, fuse, least]
  | some m =>
      have within : m < items.length := range m (List.min?_mem least)
      have written : set? items m result = some (items.set m result) := if_pos within
      simp only [fuse?, fuse, least, written, Option.bind_eq_bind, Option.bind_some]
      apply foldlM_erase? (pairwise_descending _)
      intro i hi
      rw [List.length_set]
      exact range i (List.mem_filter.mp (mem_descending.mp hi)).1

end Checked

@[simp] theorem fuse_singleton (items : List α) (i : Nat) (result : α) :
    fuse items [i] result = items.set i result := by
  simp [fuse, descending, List.min?]

/-- Of two places the first is overwritten and the second removed, in whichever order they are named. -/
theorem fuse_pair (items : List α) {a b : Nat} (distinct : a ≠ b) (result : α) :
    fuse items [a, b] result = (items.set (min a b) result).eraseIdx (max a b) := by
  have least : [a, b].min? = some (min a b) := rfl
  have others : [a, b].filter (· ≠ min a b) = [max a b] := by
    rcases Nat.lt_or_gt_of_ne distinct with lt | gt
    · rw [Nat.min_eq_left (Nat.le_of_lt lt), Nat.max_eq_right (Nat.le_of_lt lt)]
      simp [distinct.symm]
    · rw [Nat.min_eq_right (Nat.le_of_lt gt), Nat.max_eq_left (Nat.le_of_lt gt)]
      simp [distinct]
  simp only [fuse, least, others, descending, List.foldr_cons, List.foldr_nil, insertDescending,
    List.foldl_cons, List.foldl_nil]

end ListSynth.Positions
