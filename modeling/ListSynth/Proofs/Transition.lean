import ListSynth.Proofs.Evaluation
import ListSynth.Proofs.Positions
import ListSynth.Proofs.Reshaping
/-!
What a step can do to a state: it reshapes the tuple of slots, and evaluation says what is made of them. Every
fact about steps and runs is read off that.
-/

namespace ListSynth

namespace State

/-- A step moves a state by reshaping it with what combinators make of slots. -/
abbrev Moves (s : State) (step : Step) (s' : State) : Prop :=
  Reshapes (fun c xs y => c.apply xs = .ok y) s step s'

variable {s s' : State} {step : Step}

theorem fault?_singleton {i : Nat} {x : Slot} (here : s[i]? = some x) :
    Positions.fault? s.length [] [i] = none := by
  have range := (List.getElem?_eq_some_iff.mp here).1
  exact Positions.fault?_nil_eq_none_iff.mpr ⟨by simpa using range, by simp⟩

theorem after_of_fault {i : Nat} (fault : Positions.fault? s.length [] step.slots = some i) :
    s.after step = .error (.slotOutOfRange i s.length) := by
  simp only [after, fault]

theorem after_copy {i : Nat} {x : Slot} (here : s[i]? = some x) :
    s.after ⟨.copy, [i]⟩ = .ok (s ++ [x]) := by
  simp [after, fault?_singleton here, here]

theorem after_of_ne_copy {c : Combinator} {slots : List Nat} (notCopy : c ≠ .copy)
    (valid : Positions.fault? s.length [] slots = none) :
    s.after ⟨c, slots⟩ =
      (c.apply (slots.filterMap (s[·]?))).map (Positions.fuse s slots) := by
  cases c with
  | copy => exact absurd rfl notCopy
  | _ => simp only [after, valid]; rfl

theorem operands_forall₂ {slots : List Nat} (range : ∀ i ∈ slots, i < s.length) :
    List.Forall₂ (fun i x => s[i]? = some x) slots (slots.filterMap (s[·]?)) := by
  induction slots with
  | nil => exact .nil
  | cons i rest ih =>
      have here := List.getElem?_eq_getElem (range i List.mem_cons_self)
      rw [List.filterMap_cons, here]
      exact .cons here (ih fun j hj => range j (List.mem_cons_of_mem i hj))

theorem Moves.after_eq (h : s.Moves step s') : s.after step = .ok s' := by
  cases h with
  | copy here => exact after_copy here
  | @single c i x y notCopy arity here result =>
      simp [after_of_ne_copy notCopy (fault?_singleton here), here, result, Except.map]
  | @merge op a b x y z distinct left right result =>
      have valid : Positions.fault? s.length [] [a, b] = none := by
        rw [Positions.fault?_nil_eq_none_iff]
        have ha := (List.getElem?_eq_some_iff.mp left).1
        have hb := (List.getElem?_eq_some_iff.mp right).1
        exact ⟨by simp [ha, hb], by simp [distinct]⟩
      rw [after_of_ne_copy (by simp) valid]
      simp [left, right, result, Except.map, Positions.fuse_pair s distinct]

theorem moves_of_copy {slots : List Nat} (h : s.after ⟨.copy, slots⟩ = .ok s') : s.Moves ⟨.copy, slots⟩ s' := by
  cases fault : Positions.fault? s.length [] slots with
  | some i => simp [after, fault] at h
  | none =>
      have range := (Positions.fault?_nil_eq_none_iff.mp fault).1
      match slots, range, h with
      | [i], range, h =>
          have here := List.getElem?_eq_getElem (range i List.mem_cons_self)
          rw [after_copy here] at h
          cases h
          exact .copy here
      | [], _, h => simp [after, fault] at h
      | _ :: _ :: _, _, h => simp [after, fault] at h

/-- The number of operands, which evaluation checks, tells the two kinds of moves apart. -/
theorem moves_of_apply {c : Combinator} {slots : List Nat} {y : Slot} (notCopy : c ≠ .copy)
    (valid : Positions.fault? s.length [] slots = none) (result : c.apply (slots.filterMap (s[·]?)) = .ok y) :
    s.Moves ⟨c, slots⟩ (Positions.fuse s slots y) := by
  obtain ⟨range, distinct⟩ := Positions.fault?_nil_eq_none_iff.mp valid
  have named := operands_forall₂ range
  have arity := Combinator.length_of_apply result
  generalize slots.filterMap (s[·]?) = operands at result named arity
  cases named with
  | nil => cases c <;> cases arity
  | cons left others =>
      cases others with
      | nil =>
          rw [Positions.fuse_singleton]
          exact .single notCopy arity.symm left result
      | cons right others =>
          cases c with
          | zipWith op =>
              cases others with
              | nil =>
                  have apart := by simpa using distinct
                  rw [Positions.fuse_pair s apart]
                  exact .merge apart left right result
              | cons => cases arity
          | _ => cases arity

/-- A step succeeds exactly when it makes one of the moves. -/
theorem after_eq_ok_iff : s.after step = .ok s' ↔ s.Moves step s' := by
  constructor
  · intro h
    obtain ⟨c, slots⟩ := step
    by_cases copy : c = .copy
    · subst copy
      exact moves_of_copy h
    · cases fault : Positions.fault? s.length [] slots with
      | some i => simp [after, fault] at h
      | none =>
          rw [after_of_ne_copy copy fault, map_eq_ok_iff] at h
          obtain ⟨y, result, rfl⟩ := h
          exact moves_of_apply copy fault result
  · intro h
    exact h.after_eq

section Runs

variable {program : Program} {P : State → Prop}

theorem run_cons_eq_ok_iff :
    s.run (step :: program) = .ok s' ↔ ∃ m, s.Moves step m ∧ m.run program = .ok s' := by
  simp only [run, List.foldlM_cons, bind_eq_ok_iff, after_eq_ok_iff]

theorem run_append_eq_ok_iff {more : Program} :
    s.run (program ++ more) = .ok s' ↔ ∃ m, s.run program = .ok m ∧ m.run more = .ok s' := by
  simp only [run, List.foldlM_append, bind_eq_ok_iff]

theorem run_singleton_eq_ok_iff : s.run [step] = .ok s' ↔ s.Moves step s' := by
  simp only [run, List.foldlM_cons, List.foldlM_nil, bind_eq_ok_iff, after_eq_ok_iff, pure, Except.pure,
    Except.ok.injEq, exists_eq_right]

theorem run_concat_eq_ok_iff :
    s.run (program ++ [step]) = .ok s' ↔ ∃ m, s.run program = .ok m ∧ m.Moves step s' := by
  simp only [run_append_eq_ok_iff, run_singleton_eq_ok_iff]

theorem run_keeps (keeps : ∀ {s step s'}, s.Moves step s' → P s → P s') (h : s.run program = .ok s')
    (start : P s) : P s' := by
  induction program generalizing s with
  | nil =>
      cases h
      exact start
  | cons step rest ih =>
      obtain ⟨m, move, h⟩ := run_cons_eq_ok_iff.mp h
      exact ih h (keeps move start)

/-- Every slot has the given number of components. -/
def Carries (n : Nat) (s : State) : Prop := ∀ x ∈ s, x.components.length = n

theorem Moves.forall_slots {P : Slot → Prop} (h : s.Moves step s')
    (keeps : ∀ {c : Combinator} {xs y}, c.apply xs = .ok y → (∀ x ∈ xs, P x) → P y)
    (all : ∀ x ∈ s, P x) : ∀ x ∈ s', P x := by
  intro x hx
  rcases h.origin hx with old | ⟨-, xs, made, -, from_⟩
  · exact all x old
  · exact keeps made fun y hy => all y (from_ y hy)

theorem Moves.exists_slot {P : Slot → Prop} (h : s.Moves step s')
    (passes : ∀ {c : Combinator} {xs y}, c.apply xs = .ok y → (∃ x ∈ xs, P x) → P y)
    (held : ∃ x ∈ s, P x) : ∃ x ∈ s', P x := by
  obtain ⟨x, hx, holds⟩ := held
  rcases h.survives hx with stays | ⟨xs, y, made, operand, stays⟩
  · exact ⟨x, stays, holds⟩
  · exact ⟨y, stays, passes made ⟨x, operand, holds⟩⟩

theorem Moves.carries {n : Nat} (h : s.Moves step s') (carries : s.Carries n) : s'.Carries n :=
  h.forall_slots Combinator.components_of_apply carries

theorem carries_ofInputs (inputs : List Value) : (ofInputs inputs).Carries 1 := by
  intro x hx
  obtain ⟨v, -, rfl⟩ := List.mem_map.mp hx
  rfl

end Runs

end State

end ListSynth
