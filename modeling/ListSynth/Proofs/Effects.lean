import ListSynth.Proofs.Transition
/-!
The effects of steps. A step is taken exactly when it is legal and its operands have a result, it is refused for the
first reason that there is, and what it does to a state is to the slots that it names.
-/

namespace ListSynth

theorem Combinator.apply_of_length_ne {c : Combinator} {operands : List Slot} (count : operands.length ≠ c.arity) :
    c.apply operands = .error (.arity c c.arity operands.length) := by
  cases c with
  | zipWith op =>
      match operands, count with
      | [], _ | [_], _ | _ :: _ :: _ :: _, _ => rfl
      | [_, _], count => exact absurd rfl count
  | _ =>
      match operands, count with
      | [], _ | _ :: _ :: _, _ => rfl
      | [_], count => exact absurd rfl count

namespace State

/-- The state after a step with each access to it checked; nothing is the result where one is out of bounds. -/
def checkedAfter? (s : State) (step : Step) : Option (Except EvalError State) :=
  match Positions.fault? s.length [] step.slots with
  | some i => some (.error (.slotOutOfRange i s.length))
  | none =>
    match step.combinator, step.slots with
    | .copy, [i] => s[i]?.map fun x => .ok (s ++ [x])
    | .copy, slots => some (.error (.arity .copy 1 slots.length))
    | c, slots => do
      match c.apply (← slots.mapM (s[·]?)) with
      | .ok result => (Positions.fuse? s slots result).map .ok
      | .error e => some (.error e)

/-- The slots that a step names, in the order in which it names them. -/
abbrev Operands (s : State) (step : Step) (operands : List Slot) : Prop :=
  List.Forall₂ (fun i x => s[i]? = some x) step.slots operands

/-- Why a step is refused: for the first slot that is out of range or named again, else for the number of its slots,
else for what its operands hold. -/
inductive Refuses (s : State) (step : Step) : EvalError → Prop
  | slot {front rest : List Nat} {i : Nat} (named : step.slots = front ++ i :: rest) (range : ∀ j ∈ front, j < s.length)
      (distinct : front.Nodup) (faulty : s.length ≤ i ∨ i ∈ front) : Refuses s step (.slotOutOfRange i s.length)
  | arity (range : ∀ i ∈ step.slots, i < s.length) (distinct : step.slots.Nodup)
      (count : step.slots.length ≠ step.combinator.arity) :
      Refuses s step (.arity step.combinator step.combinator.arity step.slots.length)
  | evaluation {operands : List Slot} {e : EvalError} (distinct : step.slots.Nodup)
      (count : step.slots.length = step.combinator.arity) (evaluated : step.combinator ≠ .copy)
      (named : s.Operands step operands) (failed : step.combinator.apply operands = .error e) : Refuses s step e

/-- What a step does: it copies a slot to the end, replaces a slot, or merges two into the place of the first of them in
the state, whereby those behind the other move up. All other slots are as they were. -/
inductive Effect (s : State) : Step → State → Prop
  | copied {i : Nat} {x : Slot} {s' : State} (here : s[i]? = some x) (length : s'.length = s.length + 1)
      (last : s'[s.length]? = some x) (others : ∀ k < s.length, s'[k]? = s[k]?) : Effect s ⟨.copy, [i]⟩ s'
  | replaced {c : Combinator} {i : Nat} {x y : Slot} {s' : State} (evaluated : c ≠ .copy) (single : c.arity = 1)
      (here : s[i]? = some x) (result : c.apply [x] = .ok y) (length : s'.length = s.length) (there : s'[i]? = some y)
      (others : ∀ k, k ≠ i → s'[k]? = s[k]?) : Effect s ⟨c, [i]⟩ s'
  | merged {op : ArithOp} {a b : Nat} {x y z : Slot} {s' : State} (distinct : a ≠ b) (left : s[a]? = some x)
      (right : s[b]? = some y) (result : (Combinator.zipWith op).apply [x, y] = .ok z)
      (length : s'.length + 1 = s.length) (there : s'[min a b]? = some z)
      (others : ∀ k < max a b, k ≠ min a b → s'[k]? = s[k]?) (later : ∀ k, max a b ≤ k → s'[k]? = s[k + 1]?) :
      Effect s ⟨.zipWith op, [a, b]⟩ s'

variable {s s' : State} {step : Step} {e : EvalError} {operands : List Slot}

section Checks

theorem Operands.range (named : s.Operands step operands) : ∀ i ∈ step.slots, i < s.length := by
  intro i hi
  obtain ⟨x, -, here⟩ := forall₂_mem_left named hi
  exact (List.getElem?_eq_some_iff.mp here).1

theorem Operands.filterMap (named : s.Operands step operands) : step.slots.filterMap (s[·]?) = operands := by
  have read := mapM_eq_some_iff.mpr named
  have same := mapM_eq_some_iff.mpr (operands_forall₂ named.range)
  exact Option.some.inj (same.symm.trans read)

theorem exists_operands (range : ∀ i ∈ step.slots, i < s.length) : ∃ operands, s.Operands step operands :=
  ⟨_, operands_forall₂ range⟩

theorem checkedAfter?_of_ne_copy {c : Combinator} {slots : List Nat} (notCopy : c ≠ .copy)
    (valid : Positions.fault? s.length [] slots = none) (read : slots.mapM (s[·]?) = some operands) :
    s.checkedAfter? ⟨c, slots⟩ =
      match c.apply operands with
      | .ok result => (Positions.fuse? s slots result).map .ok
      | .error e => some (.error e) := by
  cases c with
  | copy => exact absurd rfl notCopy
  | _ =>
      simp only [checkedAfter?, valid, read]
      rfl

/-- No step reads or writes out of bounds. -/
theorem checkedAfter?_eq_some (s : State) (step : Step) : s.checkedAfter? step = some (s.after step) := by
  obtain ⟨c, slots⟩ := step
  cases fault : Positions.fault? s.length [] slots with
  | some i => simp only [checkedAfter?, after, fault]
  | none =>
      obtain ⟨range, -⟩ := Positions.fault?_nil_eq_none_iff.mp fault
      by_cases copy : c = .copy
      · subst copy
        rcases slots with _ | ⟨i, _ | ⟨j, rest⟩⟩
        · simp only [checkedAfter?, after, fault]
        · have here := List.getElem?_eq_getElem (range i (List.mem_singleton_self i))
          simp only [checkedAfter?, fault, here, after_copy here, Option.map_some]
        · simp only [checkedAfter?, after, fault]
      · obtain ⟨operands, named⟩ : ∃ operands, s.Operands ⟨c, slots⟩ operands := exists_operands range
        rw [checkedAfter?_of_ne_copy copy fault (mapM_eq_some_iff.mpr named), after_of_ne_copy copy fault, named.filterMap]
        cases c.apply operands with
        | error e => rfl
        | ok y => exact congrArg (Option.map Except.ok) (Positions.fuse?_eq_some range y)

end Checks

section Results

theorem after_of_length_ne (valid : Positions.fault? s.length [] step.slots = none)
    (count : step.slots.length ≠ step.combinator.arity) :
    s.after step = .error (.arity step.combinator step.combinator.arity step.slots.length) := by
  obtain ⟨c, slots⟩ := step
  by_cases copy : c = .copy
  · subst copy
    match slots, valid, count with
    | [_], _, count => exact absurd rfl count
    | [], valid, _ | _ :: _ :: _, valid, _ =>
        simp only [after, valid]
        rfl
  · obtain ⟨range, -⟩ := Positions.fault?_nil_eq_none_iff.mp valid
    have length := (operands_forall₂ range).length_eq
    rw [after_of_ne_copy copy valid, Combinator.apply_of_length_ne (length ▸ count), ← length]
    rfl

theorem after_of_named (distinct : step.slots.Nodup) (evaluated : step.combinator ≠ .copy)
    (named : s.Operands step operands) :
    s.after step = (step.combinator.apply operands).map (Positions.fuse s step.slots) := by
  obtain ⟨c, slots⟩ := step
  have valid : Positions.fault? s.length [] slots = none := Positions.fault?_nil_eq_none_iff.mpr ⟨named.range, distinct⟩
  rw [after_of_ne_copy evaluated valid, named.filterMap]

/-- A step is taken when its slots are in range and distinct, as many as its combinator takes, and, unless it copies, its
operands have a result. -/
theorem exists_after_iff : (∃ s', s.after step = .ok s') ↔
    (∀ i ∈ step.slots, i < s.length) ∧ step.slots.Nodup ∧ step.slots.length = step.combinator.arity ∧
      (step.combinator ≠ .copy → ∃ operands y, s.Operands step operands ∧ step.combinator.apply operands = .ok y) := by
  constructor
  · rintro ⟨s', taken⟩
    cases fault : Positions.fault? s.length [] step.slots with
    | some i =>
        rw [after_of_fault fault] at taken
        cases taken
    | none =>
        obtain ⟨range, distinct⟩ := Positions.fault?_nil_eq_none_iff.mp fault
        by_cases count : step.slots.length = step.combinator.arity
        · refine ⟨range, distinct, count, ?_⟩
          intro evaluated
          obtain ⟨operands, named⟩ := exists_operands range
          rw [after_of_named distinct evaluated named, map_eq_ok_iff] at taken
          obtain ⟨y, result, -⟩ := taken
          exact ⟨operands, y, named, result⟩
        · rw [after_of_length_ne fault count] at taken
          cases taken
  · rintro ⟨range, distinct, count, result⟩
    by_cases copy : step.combinator = .copy
    · obtain ⟨c, slots⟩ := step
      cases copy
      obtain ⟨i, rfl⟩ := List.length_eq_one_iff.mp count
      exact ⟨_, after_copy (List.getElem?_eq_getElem (range i (List.mem_singleton_self i)))⟩
    · obtain ⟨operands, y, named, result⟩ := result copy
      exact ⟨_, by rw [after_of_named distinct copy named, result]; rfl⟩

theorem after_eq_error_iff : s.after step = .error e ↔ s.Refuses step e := by
  constructor
  · intro refused
    cases fault : Positions.fault? s.length [] step.slots with
    | some i =>
        rw [after_of_fault fault] at refused
        cases refused
        obtain ⟨front, rest, named, sound, faulty⟩ := Positions.fault?_eq_some_iff.mp fault
        obtain ⟨range, distinct⟩ := Positions.fault?_nil_eq_none_iff.mp sound
        exact .slot named range distinct faulty
    | none =>
        obtain ⟨range, distinct⟩ := Positions.fault?_nil_eq_none_iff.mp fault
        by_cases count : step.slots.length = step.combinator.arity
        · obtain ⟨operands, named⟩ := exists_operands range
          by_cases copy : step.combinator = .copy
          · obtain ⟨s', taken⟩ := exists_after_iff.mpr ⟨range, distinct, count, absurd copy⟩
            cases taken.symm.trans refused
          · rw [after_of_named distinct copy named, map_eq_error_iff] at refused
            exact .evaluation distinct count copy named refused
        · rw [after_of_length_ne fault count] at refused
          cases refused
          exact .arity range distinct count
  · intro refuses
    cases refuses with
    | slot named range distinct faulty =>
        have sound := Positions.fault?_nil_eq_none_iff.mpr ⟨range, distinct⟩
        exact after_of_fault (Positions.fault?_eq_some_iff.mpr ⟨_, _, named, sound, faulty⟩)
    | arity range distinct count =>
        exact after_of_length_ne (Positions.fault?_nil_eq_none_iff.mpr ⟨range, distinct⟩) count
    | evaluation distinct count evaluated named failed =>
        rw [after_of_named distinct evaluated named, failed]
        rfl

theorem Moves.effect (move : s.Moves step s') : s.Effect step s' := by
  cases move with
  | copy here =>
      refine .copied here (by simp) (by simp) ?_
      intro k range
      exact List.getElem?_append_left range
  | single notCopy arity here result =>
      have range := (List.getElem?_eq_some_iff.mp here).1
      refine .replaced notCopy arity here result List.length_set (List.getElem?_set_self range) ?_
      intro k other
      exact List.getElem?_set_ne (Ne.symm other)
  | @merge op a b x y z distinct left right result =>
      have ha := (List.getElem?_eq_some_iff.mp left).1
      have hb := (List.getElem?_eq_some_iff.mp right).1
      have range : max a b < (s.set (min a b) z).length := by
        rw [List.length_set]
        omega
      refine .merged distinct left right result ?_ ?_ ?_ ?_
      · rw [List.length_eraseIdx_of_lt range, List.length_set]
        omega
      · rw [List.getElem?_eraseIdx_of_lt (by omega), List.getElem?_set_self (by omega)]
      · intro k below other
        rw [List.getElem?_eraseIdx_of_lt below, List.getElem?_set_ne (Ne.symm other)]
      · intro k above
        rw [List.getElem?_eraseIdx_of_ge above, List.getElem?_set_ne (by omega)]

end Results

/-- A step never leaves the bounds of a state. It is taken exactly when the slots that it names are in range and
distinct, as many as its combinator takes, and, unless it copies, have a result as operands in their order; else it is
refused, for the first of these that does not hold. Where it is taken, it alters the slots that it names alone. -/
theorem steps_alter_named_slots (s : State) (step : Step) :
    s.checkedAfter? step = some (s.after step) ∧
    ((∃ s', s.after step = .ok s') ↔
      (∀ i ∈ step.slots, i < s.length) ∧ step.slots.Nodup ∧ step.slots.length = step.combinator.arity ∧
        (step.combinator ≠ .copy → ∃ operands y, s.Operands step operands ∧ step.combinator.apply operands = .ok y)) ∧
    (∀ e, s.after step = .error e ↔ s.Refuses step e) ∧
    (∀ s', s.after step = .ok s' → s.Effect step s') :=
  ⟨s.checkedAfter?_eq_some step, exists_after_iff, fun _ => after_eq_error_iff,
    fun _ taken => (after_eq_ok_iff.mp taken).effect⟩

section Four

def four : State := [.single (.ofInts [1, 2]), .single (.ofInts [9]), .single (.ofInts [3, 4]), .single (.ofInts [7])]

theorem steps_alter_named_slots_of_four :
    ∃ s', four.after ⟨.zipWith .sub, [2, 0]⟩ = .ok s' ∧
      s'.length = 3 ∧ s'[0]? = some (.single (.ofInts [2, 2])) ∧ s'[1]? = four[1]? ∧ s'[2]? = four[3]? := by
  have taken : four.after ⟨.zipWith .sub, [2, 0]⟩ =
      .ok [.single (.ofInts [2, 2]), .single (.ofInts [9]), .single (.ofInts [7])] := by rfl
  obtain ⟨-, -, -, effects⟩ := steps_alter_named_slots four ⟨.zipWith .sub, [2, 0]⟩
  cases effects _ taken with
  | merged distinct left right result length there others later =>
      exact ⟨_, taken, rfl, rfl, others 1 (by decide) (by decide), later 2 (by decide)⟩

end Four

end State

end ListSynth
