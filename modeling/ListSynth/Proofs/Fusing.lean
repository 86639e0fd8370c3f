import Mathlib.Data.Finset.Card
import ListSynth.Proofs.Positions
/-!
The fusing of any number of places. Places that are removed from the back, one at a time, are the same as if all were
dropped at once; so what fusing leaves hangs on the set of the positions alone, however they are listed.
-/

namespace ListSynth.Positions

variable {α β : Type} {items : List α} {positions others dropped : List Nat} {least : Nat} {result : α}

section Dropping

/-- A list without the items at some positions, all dropped at once. -/
def without (items : List α) (dropped : List Nat) : List α :=
  (items.zipIdx.filter fun item => item.2 ∉ dropped).map Prod.fst

theorem without_congr (same : ∀ i, i ∈ dropped ↔ i ∈ others) : without items dropped = without items others := by
  unfold without
  simp only [same]

theorem without_nil : without items [] = items := by
  simp [without, List.zipIdx_map_fst]

/-- Positions before the first of a list drop nothing of it. -/
theorem filter_zipIdx_of_lt {n : Nat} (before : ∀ j ∈ dropped, j < n) :
    ((items.zipIdx n).filter fun item => item.2 ∉ dropped) = items.zipIdx n := by
  refine List.filter_eq_self.mpr ?_
  rintro ⟨x, i⟩ member
  have late : n ≤ i := List.le_snd_of_mem_zipIdx member
  exact decide_eq_true fun early => absurd (before i early) (Nat.not_lt_of_le late)

/-- An item may be removed first if the other positions to be dropped are before it. The items are numbered from `n`
on. -/
theorem filter_zipIdx_eraseIdx {d n : Nat} (before : ∀ j ∈ dropped, j < n + d) :
    (((items.eraseIdx d).zipIdx n).filter fun item => item.2 ∉ dropped).map Prod.fst =
      ((items.zipIdx n).filter fun item => item.2 ∉ (n + d) :: dropped).map Prod.fst := by
  induction items generalizing d n with
  | nil => rfl
  | cons x rest ih =>
      cases d with
      | zero =>
          have before : ∀ j ∈ dropped, j < n := before
          have later : ∀ j ∈ n :: dropped, j < n + 1 :=
            List.forall_mem_cons.mpr ⟨Nat.lt_succ_self n, fun j hj => Nat.lt_succ_of_lt (before j hj)⟩
          rw [List.eraseIdx_cons_zero, List.zipIdx_cons, Nat.add_zero, List.filter_cons_of_neg (by simp),
            filter_zipIdx_of_lt before, filter_zipIdx_of_lt later, List.zipIdx_map_fst, List.zipIdx_map_fst]
      | succ d =>
          have next : n + 1 + d = n + (d + 1) := by omega
          have tail := ih (d := d) (n := n + 1) (next ▸ before)
          have apart : n ≠ n + (d + 1) := by omega
          rw [next] at tail
          rw [List.eraseIdx_cons_succ, List.zipIdx_cons, List.zipIdx_cons, List.filter_cons, List.filter_cons]
          simp only [List.mem_cons, apart, false_or] at tail ⊢
          split
          · rw [List.map_cons, List.map_cons, tail]
          · exact tail

/-- Removing places one by one from the back drops them all. -/
theorem foldl_eraseIdx_eq_without (sorted : positions.Pairwise (· > ·)) :
    positions.foldl List.eraseIdx items = without items positions := by
  induction positions generalizing items with
  | nil => exact without_nil.symm
  | cons d rest ih =>
      obtain ⟨below, sorted⟩ := List.pairwise_cons.mp sorted
      have before : ∀ j ∈ rest, j < 0 + d := by
        intro j hj
        rw [Nat.zero_add]
        exact below j hj
      rw [List.foldl_cons, ih sorted, without, filter_zipIdx_eraseIdx before, Nat.zero_add]
      rfl

theorem length_foldl_eraseIdx (sorted : positions.Pairwise (· > ·)) (range : ∀ i ∈ positions, i < items.length) :
    (positions.foldl List.eraseIdx items).length + positions.length = items.length := by
  induction positions generalizing items with
  | nil => rfl
  | cons d rest ih =>
      obtain ⟨below, sorted⟩ := List.pairwise_cons.mp sorted
      have here : d < items.length := range d List.mem_cons_self
      have erased := List.length_eraseIdx_of_lt here
      have removed := ih sorted (range_eraseIdx here below)
      rw [List.foldl_cons, List.length_cons]
      omega

end Dropping

section Fusing

theorem min?_congr (same : ∀ i, i ∈ others ↔ i ∈ positions) : others.min? = positions.min? := by
  cases least : positions.min? with
  | none =>
      rw [List.min?_eq_none_iff] at least ⊢
      exact List.eq_nil_iff_forall_not_mem.mpr fun i hi => by simpa [least] using (same i).mp hi
  | some m =>
      rw [List.min?_eq_some_iff] at least ⊢
      exact ⟨(same m).mpr least.1, fun i hi => least.2 i ((same i).mp hi)⟩

theorem fuse_nil : fuse items [] result = items := rfl

theorem fuse_of_min? (first : positions.min? = some least) :
    fuse items positions result =
      (descending (positions.filter (· ≠ least))).foldl List.eraseIdx (items.set least result) := by
  simp only [fuse, first]

theorem fuse_eq_without (first : positions.min? = some least) :
    fuse items positions result = without (items.set least result) (positions.filter (· ≠ least)) := by
  rw [fuse_of_min? first, foldl_eraseIdx_eq_without (pairwise_descending _)]
  exact without_congr fun i => mem_descending

theorem fuse_congr (same : ∀ i, i ∈ others ↔ i ∈ positions) :
    fuse items others result = fuse items positions result := by
  cases first : positions.min? with
  | none =>
      have both := min?_congr same
      rw [List.min?_eq_none_iff.mp first, List.min?_eq_none_iff.mp (both.trans first)]
  | some least =>
      rw [fuse_eq_without first, fuse_eq_without ((min?_congr same).trans first)]
      exact without_congr fun i => by simp only [List.mem_filter, same]

/-- Of the distinct positions all but the least are removed. -/
theorem length_descending_filter (member : least ∈ positions) :
    (descending (positions.filter (· ≠ least))).length + 1 = positions.toFinset.card := by
  have distinct : (descending (positions.filter (· ≠ least))).Nodup :=
    (pairwise_descending _).imp fun above => Nat.ne_of_gt above
  have rest : (descending (positions.filter (· ≠ least))).toFinset = positions.toFinset.erase least := by
    ext i
    simp [mem_descending, and_comm]
  rw [← List.toFinset_card_of_nodup distinct, rest]
  exact Finset.card_erase_add_one (List.mem_toFinset.mpr member)

theorem length_fuse (range : ∀ i ∈ positions, i < items.length) (first : positions.min? = some least) :
    (fuse items positions result).length + positions.toFinset.card = items.length + 1 := by
  have within : ∀ i ∈ descending (positions.filter (· ≠ least)), i < (items.set least result).length := by
    intro i hi
    rw [List.length_set]
    exact range i (List.mem_filter.mp (mem_descending.mp hi)).1
  have removed := length_foldl_eraseIdx (pairwise_descending _) within
  rw [List.length_set] at removed
  rw [fuse_of_min? first, ← length_descending_filter (List.min?_mem first)]
  omega

theorem map_fuse (f : α → β) : (fuse items positions result).map f = fuse (items.map f) positions (f result) := by
  cases first : positions.min? with
  | none => simp only [fuse, first]
  | some least =>
      rw [fuse_of_min? first, fuse_of_min? first, ← List.map_set]
      exact (List.foldl_hom (List.map f) fun xs i => List.eraseIdx_map f xs i).symm

end Fusing

/-- Where all positions are in range, fusing never reads or writes past the end. It leaves the list as it is if no
position is named; else the result stands in place of the item at the least position, the items at the others are
dropped, and the rest keep their order. So the outcome hangs on the set of the positions alone, it is shorter by as many
items as there are distinct positions but one, and what the items are does not matter. -/
theorem fuse_keeps_other_places (items : List α) (positions : List Nat) (result : α)
    (range : ∀ i ∈ positions, i < items.length) :
    fuse? items positions result = some (fuse items positions result) ∧
    (positions = [] → fuse items positions result = items) ∧
    (∀ least ∈ positions, (∀ i ∈ positions, least ≤ i) →
      fuse items positions result = without (items.set least result) (positions.filter (· ≠ least))) ∧
    (∀ others : List Nat, (∀ i, i ∈ others ↔ i ∈ positions) →
      fuse items others result = fuse items positions result) ∧
    (positions ≠ [] → (fuse items positions result).length + positions.toFinset.card = items.length + 1) ∧
    ∀ {β : Type} (f : α → β), (fuse items positions result).map f = fuse (items.map f) positions (f result) := by
  refine ⟨fuse?_eq_some range result, ?_, ?_, fun others => fuse_congr, ?_, map_fuse⟩
  · rintro rfl
    exact fuse_nil
  · intro least member below
    exact fuse_eq_without (List.min?_eq_some_iff.mpr ⟨member, below⟩)
  · intro named
    obtain ⟨least, first⟩ := Option.ne_none_iff_exists'.mp (mt List.min?_eq_none_iff.mp named)
    exact length_fuse range first

theorem fuse_keeps_other_places_of_five :
    (∃ fused, fuse? [10, 11, 12, 13, 14] [4, 1, 3, 1] 99 = some fused ∧ fused = [10, 99, 12] ∧
      fuse [10, 11, 12, 13, 14] [1, 3, 4] 99 = fused ∧ fused.length + [4, 1, 3, 1].toFinset.card = 5 + 1 ∧
      fused.map toString = fuse ["10", "11", "12", "13", "14"] [4, 1, 3, 1] "99") ∧
    fuse [10, 11] [] 99 = [10, 11] := by
  constructor
  · obtain ⟨checked, -, kept, listed, length, mapped⟩ :=
      fuse_keeps_other_places [10, 11, 12, 13, 14] [4, 1, 3, 1] 99 (by decide)
    have same : ∀ i, i ∈ [1, 3, 4] ↔ i ∈ [4, 1, 3, 1] := by
      intro i
      simp only [List.mem_cons, List.not_mem_nil, or_false]
      omega
    refine ⟨_, checked, kept 1 (by decide) (by decide), listed _ same, length (by decide), ?_⟩
    exact mapped toString
  · exact (fuse_keeps_other_places [10, 11] [] 99 (by simp)).2.1 rfl

end ListSynth.Positions
