import ListSynth.Step
import ListSynth.Proofs.Lists
/-!
Steps on tuples of any kind of item. A state and the expressions that rebuild it are reshaped alike, so what a
step moves, keeps and drops is said once for both.
-/

namespace ListSynth

variable {α β : Type}

/-- A step doubles an item at the end, replaces one, or merges two into the first of them; `make` tells what
a combinator may make of its operands. -/
inductive Reshapes (make : Combinator → List α → α → Prop) (items : List α) : Step → List α → Prop
  | copy {i x} (here : items[i]? = some x) : Reshapes make items ⟨.copy, [i]⟩ (items ++ [x])
  | single {c i x y} (notCopy : c ≠ .copy) (arity : c.arity = 1) (here : items[i]? = some x)
      (made : make c [x] y) : Reshapes make items ⟨c, [i]⟩ (items.set i y)
  | merge {op a b x y z} (distinct : a ≠ b) (left : items[a]? = some x) (right : items[b]? = some y)
      (made : make (.zipWith op) [x, y] z) :
      Reshapes make items ⟨.zipWith op, [a, b]⟩ ((items.set (min a b) z).eraseIdx (max a b))

namespace Reshapes

variable {make : Combinator → List α → α → Prop} {items items' : List α} {step : Step}

/-- But for their order, the items that a step leaves are those that it found with one of them doubled, or with what
it makes in place of its operands. -/
theorem perm (h : Reshapes make items step items') :
    (step.combinator = .copy ∧ ∃ x ∈ items, items'.Perm (x :: items)) ∨
      (step.combinator ≠ .copy ∧ ∃ xs y rest, make step.combinator xs y ∧ xs.length = step.combinator.arity ∧
        items.Perm (xs ++ rest) ∧ items'.Perm (y :: rest)) := by
  cases h with
  | copy here => exact .inl ⟨rfl, _, List.mem_of_getElem? here, List.perm_append_singleton _ _⟩
  | @single c i x y notCopy arity here made =>
      obtain ⟨range, rfl⟩ := List.getElem?_eq_some_iff.mp here
      refine .inr ⟨notCopy, _, y, items.eraseIdx i, made, arity.symm, ?_, List.set_perm_cons_eraseIdx range y⟩
      exact (List.getElem_cons_eraseIdx_perm range).symm
  | @merge op a b x y z distinct left right made =>
      -- The later place goes, whichever of the operands stands there.
      rcases Nat.lt_or_gt_of_ne distinct with lt | gt
      · obtain ⟨rest, before, after⟩ := exists_perm_pair lt left right
        rw [Nat.min_eq_left (Nat.le_of_lt lt), Nat.max_eq_right (Nat.le_of_lt lt)]
        exact .inr ⟨by simp, _, z, rest, made, rfl, before.trans (.swap x y rest), after z⟩
      · obtain ⟨rest, before, after⟩ := exists_perm_pair gt right left
        rw [Nat.min_eq_right (Nat.le_of_lt gt), Nat.max_eq_left (Nat.le_of_lt gt)]
        exact .inr ⟨by simp, _, z, rest, made, rfl, before, after z⟩

/-- Nothing is dropped: an item stays, or the result that stays was made of it. -/
theorem survives (h : Reshapes make items step items') {x : α} (hx : x ∈ items) :
    x ∈ items' ∨ ∃ xs y, make step.combinator xs y ∧ x ∈ xs ∧ y ∈ items' := by
  rcases h.perm with ⟨-, z, -, after⟩ | ⟨-, xs, y, rest, made, -, before, after⟩
  · exact .inl (after.mem_iff.mpr (List.mem_cons_of_mem z hx))
  · rcases List.mem_append.mp (before.mem_iff.mp hx) with operand | other
    · exact .inr ⟨xs, y, made, operand, after.mem_iff.mpr List.mem_cons_self⟩
    · exact .inl (after.mem_iff.mpr (List.mem_cons_of_mem y other))

/-- Nothing comes from elsewhere: an item was there, or was made of as many as the combinator takes. -/
theorem origin (h : Reshapes make items step items') {y : α} (hy : y ∈ items') :
    y ∈ items ∨ (step.combinator ≠ .copy ∧
      ∃ xs, make step.combinator xs y ∧ xs.length = step.combinator.arity ∧ ∀ x ∈ xs, x ∈ items) := by
  rcases h.perm with ⟨-, x, hx, after⟩ | ⟨notCopy, xs, z, rest, made, arity, before, after⟩
  · rcases List.mem_cons.mp (after.mem_iff.mp hy) with rfl | old
    · exact .inl hx
    · exact .inl old
  · rcases List.mem_cons.mp (after.mem_iff.mp hy) with rfl | old
    · exact .inr ⟨notCopy, xs, made, arity, fun x hx => before.mem_iff.mpr (List.mem_append_left rest hx)⟩
    · exact .inl (before.mem_iff.mpr (List.mem_append_right xs old))

theorem head (h : Reshapes make items step items') :
    (step.combinator ≠ .copy ∧ 0 ∈ step.slots ∧ ∃ xs y, make step.combinator xs y ∧ items'[0]? = some y) ∨
      (¬ (step.combinator ≠ .copy ∧ 0 ∈ step.slots) ∧ items'[0]? = items[0]?) := by
  cases h with
  | copy here =>
      have range := (List.getElem?_eq_some_iff.mp here).1
      exact .inr ⟨by simp, List.getElem?_append_left (by omega)⟩
  | @single c i x y notCopy arity here made =>
      have range := (List.getElem?_eq_some_iff.mp here).1
      by_cases first : i = 0
      · subst first
        exact .inl ⟨notCopy, by simp, [x], y, made, List.getElem?_set_self range⟩
      · refine .inr ⟨by simpa using fun _ => Ne.symm first, ?_⟩
        exact List.getElem?_set_ne first
  | @merge op a b x y z distinct left right made =>
      have ha := (List.getElem?_eq_some_iff.mp left).1
      have hb := (List.getElem?_eq_some_iff.mp right).1
      rw [List.getElem?_eraseIdx_of_lt (by omega)]
      by_cases first : min a b = 0
      · refine .inl ⟨by simp, by simp; omega, [x, y], z, made, ?_⟩
        rw [first, List.getElem?_set_self (by omega)]
      · refine .inr ⟨by simp; omega, ?_⟩
        exact List.getElem?_set_ne first

/-- Tuples that are related item by item stay so under the same step, if what is made of them does. -/
theorem related {R : α → β → Prop} {make' : Combinator → List β → β → Prop} {others others' : List β}
    (h : Reshapes make items step items') (h' : Reshapes make' others step others')
    (makes : ∀ {c xs ys x y}, c ≠ .copy → make c xs x → make' c ys y → List.Forall₂ R xs ys → R x y)
    (all : List.Forall₂ R items others) : List.Forall₂ R items' others' := by
  have there : ∀ {i : Nat} {x y}, items[i]? = some x → others[i]? = some y → R x y := by
    intro i x y hx hy
    obtain ⟨z, hz, holds⟩ := forall₂_getElem? all hx
    cases hy.symm.trans hz
    exact holds
  cases h with
  | copy here =>
      cases h' with
      | copy here' => exact List.rel_append all (.cons (there here here') .nil)
      | single notCopy' arity' here' made' => exact absurd rfl notCopy'
  | single notCopy arity here made =>
      cases h' with
      | copy here' => exact absurd rfl notCopy
      | single notCopy' arity' here' made' =>
          exact forall₂_set all (makes notCopy made made' (.cons (there here here') .nil))
  | merge distinct left right made =>
      cases h' with
      | merge distinct' left' right' made' =>
          have operands := List.Forall₂.cons (there left left') (.cons (there right right') .nil)
          exact forall₂_eraseIdx (forall₂_set all (makes (by simp) made made' operands)) _

theorem mem_merge {a b : Nat} {x y z : α} (distinct : a ≠ b) (left : items[a]? = some x)
    (right : items[b]? = some y) : z ∈ (items.set (min a b) z).eraseIdx (max a b) := by
  have ha := (List.getElem?_eq_some_iff.mp left).1
  have hb := (List.getElem?_eq_some_iff.mp right).1
  rw [List.mem_eraseIdx_iff_getElem?]
  exact ⟨min a b, by omega, List.getElem?_set_self (by omega)⟩

theorem exists_related {R : α → β → Prop} {make' : Combinator → List β → β → Prop} {others : List β}
    (h : Reshapes make items step items')
    (makes : ∀ {c xs ys x}, make c xs x → x ∈ items' → List.Forall₂ R xs ys → ∃ y, make' c ys y)
    (all : List.Forall₂ R items others) : ∃ others', Reshapes make' others step others' := by
  cases h with
  | copy here =>
      obtain ⟨y, hy, -⟩ := forall₂_getElem? all here
      exact ⟨_, .copy hy⟩
  | @single c i u v notCopy arity here made =>
      have range := (List.getElem?_eq_some_iff.mp here).1
      obtain ⟨y, hy, rel⟩ := forall₂_getElem? all here
      obtain ⟨z, made'⟩ := makes made (List.mem_set range v) (.cons rel .nil)
      exact ⟨_, .single notCopy arity hy made'⟩
  | merge distinct left right made =>
      obtain ⟨y, hy, relLeft⟩ := forall₂_getElem? all left
      obtain ⟨z, hz, relRight⟩ := forall₂_getElem? all right
      obtain ⟨w, made'⟩ := makes made (mem_merge distinct left right) (.cons relLeft (.cons relRight .nil))
      exact ⟨_, .merge distinct hy hz made'⟩

end Reshapes

/-- How many items a step leaves of `n`, if it names as many distinct ones in range as it has operands. -/
def Step.countAfter? (n : Nat) (step : Step) : Option Nat :=
  if step.slots.length = step.combinator.arity ∧ step.slots.Nodup ∧ ∀ i ∈ step.slots, i < n then
    match step.combinator.role with
    | .pairwise => some (n - 1)
    | .duplication => some (n + 1)
    | _ => some n
  else none

namespace Reshapes

variable {make : Combinator → List α → α → Prop} {items items' : List α} {step : Step}

theorem countAfter?_eq (h : Reshapes make items step items') :
    step.countAfter? items.length = some items'.length := by
  cases h with
  | copy here =>
      have range := (List.getElem?_eq_some_iff.mp here).1
      simp [Step.countAfter?, Combinator.arity, Combinator.role, range]
  | @single c i x y notCopy arity here made =>
      have range := (List.getElem?_eq_some_iff.mp here).1
      have legal : [i].length = c.arity ∧ [i].Nodup ∧ ∀ j ∈ [i], j < items.length := by
        simp [arity, range]
      rw [Step.countAfter?, if_pos legal, List.length_set]
      cases c with
      | zipWith op => cases arity
      | copy => exact absurd rfl notCopy
      | _ => rfl
  | @merge op a b x y z distinct left right made =>
      have ha := (List.getElem?_eq_some_iff.mp left).1
      have hb := (List.getElem?_eq_some_iff.mp right).1
      have range : max a b < (items.set (min a b) z).length := by
        rw [List.length_set]
        omega
      rw [List.length_eraseIdx_of_lt range, List.length_set]
      simp [Step.countAfter?, Combinator.arity, Combinator.role, distinct, ha, hb]

theorem exists_of_countAfter? (total : ∀ c xs, ∃ y, make c xs y) {n : Nat}
    (legal : step.countAfter? items.length = some n) :
    ∃ items', Reshapes make items step items' ∧ items'.length = n := by
  suffices made : ∃ items', Reshapes make items step items' by
    obtain ⟨items', h⟩ := made
    exact ⟨items', h, Option.some.inj (h.countAfter?_eq.symm.trans legal)⟩
  obtain ⟨c, slots⟩ := step
  unfold Step.countAfter? at legal
  split at legal
  · rename_i h
    obtain ⟨arity, distinct, range⟩ := h
    have there : ∀ i ∈ slots, ∃ x, items[i]? = some x :=
      fun i hi => ⟨_, List.getElem?_eq_getElem (range i hi)⟩
    by_cases pairwise : ∃ op, c = .zipWith op
    · obtain ⟨op, rfl⟩ := pairwise
      match slots, arity with
      | [a, b], _ =>
          obtain ⟨x, hx⟩ := there a (by simp)
          obtain ⟨y, hy⟩ := there b (by simp)
          obtain ⟨z, made⟩ := total (.zipWith op) [x, y]
          exact ⟨_, .merge (by simpa using distinct) hx hy made⟩
    · have one : c.arity = 1 := by
        cases c with
        | zipWith op => exact absurd ⟨op, rfl⟩ pairwise
        | _ => rfl
      match slots, arity.trans one with
      | [i], _ =>
          obtain ⟨x, hx⟩ := there i (by simp)
          by_cases copy : c = .copy
          · subst copy
            exact ⟨_, .copy hx⟩
          · obtain ⟨y, made⟩ := total c [x]
            exact ⟨_, .single copy one hx made⟩
  · cases legal

theorem names_first (h : Reshapes make items step items') (one : items'.length = 1) :
    step.combinator ≠ .copy ∧ 0 ∈ step.slots := by
  cases h with
  | copy here =>
      have range := (List.getElem?_eq_some_iff.mp here).1
      rw [List.length_append, List.length_singleton] at one
      omega
  | single notCopy arity here made =>
      have range := (List.getElem?_eq_some_iff.mp here).1
      rw [List.length_set] at one
      exact ⟨notCopy, by simp; omega⟩
  | @merge op a b x y z distinct left right made =>
      have ha := (List.getElem?_eq_some_iff.mp left).1
      have hb := (List.getElem?_eq_some_iff.mp right).1
      have range : max a b < (items.set (min a b) z).length := by
        rw [List.length_set]
        omega
      rw [List.length_eraseIdx_of_lt range, List.length_set] at one
      exact ⟨by simp, by simp; omega⟩

end Reshapes

theorem Step.names_first {n : Nat} {step : Step} (one : step.countAfter? n = some 1) :
    step.combinator ≠ .copy ∧ 0 ∈ step.slots := by
  have total : ∀ (c : Combinator) (xs : List Unit), ∃ y : Unit, (fun _ _ _ => True) c xs y :=
    fun _ _ => ⟨(), trivial⟩
  have length : (List.replicate n ()).length = n := List.length_replicate
  obtain ⟨items', h, one⟩ := Reshapes.exists_of_countAfter? total (length.symm ▸ one)
  exact h.names_first one

end ListSynth
