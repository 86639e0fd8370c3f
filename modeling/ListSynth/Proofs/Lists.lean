import Mathlib.Data.List.Forall2
import Mathlib.Data.List.Perm.Basic
/-!
Facts about lists that belong to no one part of the library.
-/

namespace ListSynth

variable {α β : Type} {R : α → β → Prop} {xs : List α} {ys : List β}

theorem two_le_length_of_mem {x y : α} (hx : x ∈ xs) (hy : y ∈ xs) (ne : x ≠ y) : 2 ≤ xs.length := by
  match xs, hx, hy with
  | [_], hx, hy => exact absurd ((List.mem_singleton.mp hx).trans (List.mem_singleton.mp hy).symm) ne
  | _ :: _ :: xs, _, _ => exact Nat.le_add_left 2 xs.length

theorem forall₂_getElem? (h : List.Forall₂ R xs ys) {k : Nat} {x : α} (hx : xs[k]? = some x) :
    ∃ y, ys[k]? = some y ∧ R x y := by
  induction h generalizing k with
  | nil => cases hx
  | cons related rest ih =>
      cases k with
      | zero =>
          cases hx
          exact ⟨_, rfl, related⟩
      | succ k => exact ih hx

theorem forall₂_set (h : List.Forall₂ R xs ys) {x : α} {y : β} (related : R x y) {i : Nat} :
    List.Forall₂ R (xs.set i x) (ys.set i y) := by
  induction h generalizing i with
  | nil => exact .nil
  | cons first rest ih =>
      cases i with
      | zero => exact .cons related rest
      | succ i => exact .cons first ih

theorem forall₂_eraseIdx (h : List.Forall₂ R xs ys) (i : Nat) :
    List.Forall₂ R (xs.eraseIdx i) (ys.eraseIdx i) := by
  induction h generalizing i with
  | nil => exact .nil
  | cons first rest ih =>
      cases i with
      | zero => exact rest
      | succ i => exact .cons first (ih i)

theorem forall₂_mem_left (h : List.Forall₂ R xs ys) {x : α} (hx : x ∈ xs) : ∃ y ∈ ys, R x y := by
  obtain ⟨k, hk⟩ := List.getElem?_of_mem hx
  obtain ⟨y, hy, related⟩ := forall₂_getElem? h hk
  exact ⟨y, List.mem_of_getElem? hy, related⟩

theorem forall₂_imp_of_mem {S : α → β → Prop} (h : List.Forall₂ R xs ys)
    (imp : ∀ x ∈ xs, ∀ y, R x y → S x y) : List.Forall₂ S xs ys := by
  induction h with
  | nil => exact .nil
  | cons first rest ih =>
      exact .cons (imp _ List.mem_cons_self _ first) (ih fun x hx => imp x (List.mem_cons_of_mem _ hx))

theorem forall₂_mem_right (h : List.Forall₂ R xs ys) {y : β} (hy : y ∈ ys) : ∃ x ∈ xs, R x y :=
  forall₂_mem_left h.flip hy

/-- An item and a later one, apart from the rest of a list. -/
theorem exists_perm_pair {i j : Nat} {x y : α} (lt : i < j) (first : xs[i]? = some x) (second : xs[j]? = some y) :
    ∃ rest, xs.Perm (y :: x :: rest) ∧ ∀ z, ((xs.set i z).eraseIdx j).Perm (z :: rest) := by
  obtain ⟨here, rfl⟩ := List.getElem?_eq_some_iff.mp second
  obtain ⟨there, before⟩ := List.getElem?_eq_some_iff.mp ((List.getElem?_eraseIdx_of_lt lt).trans first)
  refine ⟨(xs.eraseIdx j).eraseIdx i, ?_, ?_⟩
  · refine (List.getElem_cons_eraseIdx_perm here).symm.trans (.cons _ ?_)
    exact before ▸ (List.getElem_cons_eraseIdx_perm there).symm
  · intro z
    rw [List.eraseIdx_set_gt lt]
    exact List.set_perm_cons_eraseIdx there z

/-- What replacing an item changes in the count of what a list is filtered to. -/
theorem count_filterMap_set [DecidableEq β] {f : α → Option β} {i : Nat} {x y : α} (here : xs[i]? = some x)
    (b : β) : ((xs.set i y).filterMap f).count b + (f x).toList.count b =
      (xs.filterMap f).count b + (f y).toList.count b := by
  have split : ∀ (z : α) (zs : List α), ((z :: zs).filterMap f).count b =
      (f z).toList.count b + (zs.filterMap f).count b := by
    intro z zs
    rw [List.filterMap_cons]
    cases f z <;> simp [List.count_cons, Nat.add_comm]
  induction xs generalizing i with
  | nil => cases here
  | cons z zs ih =>
      cases i with
      | zero =>
          cases here
          rw [List.set_cons_zero, split, split]
          omega
      | succ i =>
          rw [List.set_cons_succ, split, split]
          have := ih here
          omega

section Positions

variable {P : α → Bool}

/-- Up to the `n`th item of a kind, counted from zero, there are `n + 1` of the kind, or all if these are fewer. -/
theorem countP_take_findIdxNth (xs : List α) (n : Nat) :
    (xs.take (xs.findIdxNth P n + 1)).countP P = min (n + 1) (xs.countP P) := by
  induction xs generalizing n with
  | nil => simp
  | cons x xs ih =>
      cases hit : P x with
      | true =>
          cases n with
          | zero => simp [List.findIdxNth_cons, hit]
          | succ n =>
              rw [List.findIdxNth_cons_succ_of_pos hit, List.take_succ_cons, List.countP_cons_of_pos hit, ih,
                List.countP_cons_of_pos hit]
              omega
      | false =>
          have miss : ¬ P x = true := Bool.eq_false_iff.mp hit
          rw [List.findIdxNth_cons_of_neg hit, List.take_succ_cons, List.countP_cons_of_neg miss, ih,
            List.countP_cons_of_neg miss]

/-- The `n`th item of a kind does not count as one of a kind apart from it. -/
theorem countP_take_succ_findIdxNth {Q : α → Bool} (apart : ∀ x, P x = true → Q x = false) (xs : List α) (n : Nat) :
    (xs.take (xs.findIdxNth P n + 1)).countP Q = (xs.take (xs.findIdxNth P n)).countP Q := by
  rw [List.take_add_one, List.countP_append]
  by_cases within : xs.findIdxNth P n < xs.length
  · rw [List.getElem?_eq_getElem within, Option.toList_some, List.countP_singleton,
      apart _ List.pos_findIdxNth_getElem]
    rfl
  · rw [List.getElem?_eq_none (Nat.le_of_not_lt within)]
    rfl

end Positions

section Rows

variable {γ : Type} {f : α → β → γ} {row : α → List β} {S : α → α → Prop} {T : β → β → Prop} {Q : γ → γ → Prop}

/-- What stands in rows is in order where the rows are in order and so is each of them. -/
theorem pairwise_rows (rows : xs.Pairwise S) (items : ∀ a ∈ xs, (row a).Pairwise T)
    (across : ∀ a a' b b', S a a' → Q (f a b) (f a' b')) (along : ∀ a b b', T b b' → Q (f a b) (f a b')) :
    (xs.flatMap fun a => (row a).map (f a)).Pairwise Q := by
  apply List.pairwise_flatMap.mpr
  constructor
  · intro a ha
    apply List.pairwise_map.mpr
    exact (items a ha).imp fun {b b'} => along a b b'
  · refine List.Pairwise.imp ?_ rows
    intro a a' apart c hc c' hc'
    obtain ⟨b, -, rfl⟩ := List.mem_map.mp hc
    obtain ⟨b', -, rfl⟩ := List.mem_map.mp hc'
    exact across a a' b b' apart

end Rows

end ListSynth
