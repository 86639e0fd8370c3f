import ListSynth.Proofs.Consultation
/-!
The types of a search. A slot has one component throughout, and from flat lists of integers a search comes to nothing
but such lists and, where it ends, to integers. So candidates are rejected for what their operands hold alone.
-/

namespace ListSynth

namespace Value

/-- A flat list of integers, or an integer. -/
inductive Plain : Value → Prop
  | ints (xs : List Int64) : Plain (.ofInts xs)
  | int (n : Int64) : Plain (.int n)

end Value

namespace Slot

def IsFlat (x : Slot) : Prop := ∃ xs, x = .single (.ofInts xs)

def IsPlain (x : Slot) : Prop := ∃ v, v.Plain ∧ x = .single v

theorem IsFlat.isPlain {x : Slot} (flat : x.IsFlat) : x.IsPlain := by
  obtain ⟨xs, rfl⟩ := flat
  exact ⟨.ofInts xs, .ints xs, rfl⟩

theorem IsPlain.isFlat {x : Slot} (plain : x.IsPlain) (list : x.hasScalar = false) : x.IsFlat := by
  obtain ⟨v, plain, rfl⟩ := plain
  cases plain with
  | ints xs => exact ⟨xs, rfl⟩
  | int n => cases list

theorem exists_single {x : Slot} (one : x.components.length = 1) : ∃ v, x = .single v := by
  obtain ⟨components⟩ := x
  obtain ⟨v, rfl⟩ := List.length_eq_one_iff.mp one
  exact ⟨v, rfl⟩

end Slot

namespace Combinator

/-- What a combinator finds fault with: an operand that is no flat list of integers, an empty list whose extreme it
takes, or arithmetic that leaves the range. -/
inductive Faults (c : Combinator) (operands : List Value) : EvalError → Prop
  | mismatch {v : Value} (operand : v ∈ operands) (odd : ∀ xs, v ≠ .ofInts xs) : Faults c operands (.typeMismatch c v)
  | empty (extreme : c = .max ∨ c = .min) (none : operands = [.ofInts []]) : Faults c operands (.emptySequence c)
  | overflow (arithmetic : c.family ∈ [.map, .zipWith, .sum]) : Faults c operands (.overflow c)

variable {c : Combinator} {op : ArithOp} {v w u : Value} {x y z : Slot} {operands : List Value} {e : EvalError}

section Plain

theorem onValue_plain (plain : v.Plain) (h : c.onValue v = .ok w) : w.Plain := by
  cases plain with
  | int n => cases (onValue_ok h).1
  | ints xs =>
      cases c with
      | map op n =>
          simp only [onValue, bind_eq_ok_iff, inRange_eq_ok_iff, Option.map_eq_some_iff] at h
          obtain ⟨-, -, ys, -, rfl⟩ := h
          exact .ints ys
      | filter test n =>
          simp only [onValue, bind_eq_ok_iff, pure, Except.pure, Except.ok.injEq] at h
          obtain ⟨ys, -, rfl⟩ := h
          exact .ints _
      | take n =>
          simp only [onValue, bind_eq_ok_iff, items_eq_ok_iff, pure, Except.pure, Except.ok.injEq] at h
          obtain ⟨items, same, rfl⟩ := h
          cases same
          rw [← List.map_take]
          exact .ints _
      | drop n =>
          simp only [onValue, bind_eq_ok_iff, items_eq_ok_iff, pure, Except.pure, Except.ok.injEq] at h
          obtain ⟨items, same, rfl⟩ := h
          cases same
          rw [← List.map_drop]
          exact .ints _
      | sum =>
          simp only [onValue, bind_eq_ok_iff, inRange_eq_ok_iff, Option.map_eq_some_iff] at h
          obtain ⟨-, -, n, -, rfl⟩ := h
          exact .int n
      | max =>
          simp only [onValue, bind_eq_ok_iff, picked_eq_ok_iff] at h
          obtain ⟨-, -, n, -, rfl⟩ := h
          exact .int n
      | min =>
          simp only [onValue, bind_eq_ok_iff, picked_eq_ok_iff] at h
          obtain ⟨-, -, n, -, rfl⟩ := h
          exact .int n
      | length =>
          simp only [onValue, bind_eq_ok_iff, pure, Except.pure, Except.ok.injEq] at h
          obtain ⟨items, -, rfl⟩ := h
          exact .int _
      | zipWith op => cases h
      | copy => cases h

theorem onPair_plain (h : onPair op v w = .ok u) : u.Plain := by
  simp only [onPair, bind_eq_ok_iff, inRange_eq_ok_iff, Option.map_eq_some_iff] at h
  obtain ⟨-, -, -, -, zs, -, rfl⟩ := h
  exact .ints zs

theorem apply_lone (single : c.arity = 1) : c.apply [.single v] = (c.onValue v).map .single := by
  cases c with
  | zipWith op => cases single
  | _ =>
      simp only [apply, Slot.single, List.mapM_cons, List.mapM_nil]
      cases onValue _ v <;> rfl

theorem apply_both : (zipWith op).apply [.single v, .single w] = (onPair op v w).map .single := by
  simp only [apply, Slot.single, List.zip_cons_cons, List.zip_nil_left, List.mapM_cons, List.mapM_nil]
  cases onPair op v w <;> rfl

theorem apply_plain {xs : List Slot} (h : c.apply xs = .ok y) (plain : ∀ x ∈ xs, x.IsPlain) : y.IsPlain := by
  rcases apply_cases h with ⟨x, rfl, single⟩ | ⟨op, x, z, rfl, rfl⟩
  · obtain ⟨v, value, rfl⟩ := plain x List.mem_cons_self
    rw [apply_lone single, map_eq_ok_iff] at h
    obtain ⟨w, result, rfl⟩ := h
    exact ⟨w, onValue_plain value result, rfl⟩
  · obtain ⟨v, -, rfl⟩ := plain x List.mem_cons_self
    obtain ⟨w, -, rfl⟩ := plain z (List.mem_cons_of_mem _ List.mem_cons_self)
    rw [apply_both, map_eq_ok_iff] at h
    obtain ⟨u, result, rfl⟩ := h
    exact ⟨u, onPair_plain result, rfl⟩

end Plain

section Faults

theorem faults_of_integers {f : List Int64 → Except EvalError Value} (operand : v ∈ operands)
    (rest : ∀ xs, v = .ofInts xs → f xs = .error e → c.Faults operands e) (h : (c.integers v >>= f) = .error e) :
    c.Faults operands e := by
  unfold integers at h
  split at h
  · rename_i xs list
    exact rest xs (Value.ints?_eq_some_iff.mp list) h
  · rename_i odd
    cases h
    refine .mismatch operand ?_
    rintro xs rfl
    rw [Value.ints?_eq_some_iff.mpr rfl] at odd
    cases odd

theorem faults_of_items {f : List Value → Value} (operand : v ∈ operands)
    (h : (c.items v >>= fun items => .ok (f items)) = .error e) : c.Faults operands e := by
  unfold Combinator.items at h
  split at h
  · cases h
  · rename_i odd
    cases h
    refine .mismatch operand ?_
    rintro xs rfl
    cases odd

theorem faults_of_inRange {o : Option Value} (arithmetic : c.family ∈ [.map, .zipWith, .sum])
    (h : c.inRange o = .error e) : c.Faults operands e := by
  cases o with
  | some v => cases h
  | none =>
      cases h
      exact .overflow arithmetic

theorem faults_of_picked {o : Option Int64} (extreme : c = .max ∨ c = .min) (none : o = none → operands = [.ofInts []])
    (h : c.picked o = .error e) : c.Faults operands e := by
  cases o with
  | some n => cases h
  | none =>
      cases h
      exact .empty extreme (none rfl)

theorem onValue_faults (single : c.arity = 1) (notCopy : c ≠ .copy) (h : c.onValue v = .error e) :
    c.Faults [v] e := by
  have operand : v ∈ [v] := List.mem_singleton_self v
  cases c with
  | map op n => exact faults_of_integers operand (fun xs _ past => faults_of_inRange (by simp [family]) past) h
  | filter test n =>
      refine faults_of_integers operand (f := fun xs => .ok _) (fun xs _ none => ?_) h
      cases none
  | take n => exact faults_of_items operand h
  | drop n => exact faults_of_items operand h
  | sum => exact faults_of_integers operand (fun xs _ past => faults_of_inRange (by simp [family]) past) h
  | max =>
      refine faults_of_integers operand (fun xs list none => ?_) h
      refine faults_of_picked (.inl rfl) (fun empty => ?_) none
      rw [list, List.max?_eq_none_iff.mp empty]
  | min =>
      refine faults_of_integers operand (fun xs list none => ?_) h
      refine faults_of_picked (.inr rfl) (fun empty => ?_) none
      rw [list, List.min?_eq_none_iff.mp empty]
  | length => exact faults_of_items operand h
  | zipWith op => cases single
  | copy => exact absurd rfl notCopy

theorem onPair_faults (h : onPair op v w = .error e) : (zipWith op).Faults [v, w] e := by
  refine faults_of_integers List.mem_cons_self (fun xs _ h => ?_) h
  refine faults_of_integers (List.mem_cons_of_mem v List.mem_cons_self) (fun ys _ past => ?_) h
  exact faults_of_inRange (by simp [family]) past

end Faults

/-- The slots that suit a combinator are as many as it takes, in range and distinct. -/
theorem Suits.one_or_two {n : Nat} {slots : List Nat} (suits : c.Suits n slots) :
    (∃ i < n, slots = [i] ∧ c.arity = 1) ∨
      ∃ op a b, c = .zipWith op ∧ slots = [a, b] ∧ a < n ∧ b < n ∧ a ≠ b := by
  cases suits with
  | @single _ i slotwise range =>
      refine .inl ⟨i, range, rfl, ?_⟩
      cases c with
      | zipWith op => exact absurd slotwise (by simp [family])
      | _ => rfl
  | lone aggregate lone => exact .inl ⟨0, by omega, rfl, by rw [arity, role_eq_aggregate_iff.mpr aggregate]⟩
  | pair left right distinct _ => exact .inr ⟨_, _, _, rfl, rfl, left, right, distinct⟩

end Combinator

section States

variable {g : Grammar} {s s' : State} {step : Step} {e : EvalError}

/-- A candidate is rejected for what its operands hold: its slots are in range and distinct, and as many as it takes. -/
theorem State.faults_of_after (carries : s.Carries 1) (candidate : step ∈ g.candidates s.length)
    (rejected : s.after step = .error e) : ∃ operands,
      List.Forall₂ (fun i v => s[i]? = some (Slot.single v)) step.slots operands ∧
        step.combinator.Faults operands e := by
  obtain ⟨c, slots⟩ := step
  have slot : ∀ i < s.length, ∃ v, s[i]? = some (Slot.single v) := by
    intro i range
    obtain ⟨v, same⟩ := Slot.exists_single (carries _ (List.getElem_mem range))
    exact ⟨v, (List.getElem?_eq_getElem range).trans (congrArg some same)⟩
  rcases (Grammar.mem_candidates_iff.mp candidate).2.one_or_two with
    ⟨i, range, rfl, single⟩ | ⟨op, a, b, rfl, rfl, left, right, distinct⟩
  · obtain ⟨v, here⟩ := slot i range
    refine ⟨[v], .cons here .nil, ?_⟩
    -- copying is never evaluated, and never fails on a slot in range
    by_cases copy : c = .copy
    · subst copy
      rw [after_copy here] at rejected
      cases rejected
    · have operands : [i].filterMap (s[·]?) = [Slot.single v] := by simp [here]
      rw [after_of_ne_copy copy (fault?_singleton here), operands, Combinator.apply_lone single, map_eq_error_iff,
        map_eq_error_iff] at rejected
      exact Combinator.onValue_faults single copy rejected
  · obtain ⟨v, here⟩ := slot a left
    obtain ⟨w, there⟩ := slot b right
    refine ⟨[v, w], .cons here (.cons there .nil), ?_⟩
    have valid : Positions.fault? s.length [] [a, b] = none :=
      Positions.fault?_nil_eq_none_iff.mpr ⟨by simp [left, right], by simp [distinct]⟩
    have operands : [a, b].filterMap (s[·]?) = [Slot.single v, Slot.single w] := by simp [here, there]
    rw [after_of_ne_copy (by simp) valid, operands, Combinator.apply_both, map_eq_error_iff, map_eq_error_iff]
      at rejected
    exact Combinator.onPair_faults rejected

theorem State.ne_mismatch_of_flat (flat : ∀ x ∈ s, x.IsFlat) (candidate : step ∈ g.candidates s.length)
    (rejected : s.after step = .error e) (c : Combinator) (v : Value) : e ≠ .typeMismatch c v := by
  have carries : s.Carries 1 := by
    intro x hx
    obtain ⟨xs, rfl⟩ := flat x hx
    rfl
  obtain ⟨operands, slots, faults⟩ := faults_of_after carries candidate rejected
  rintro rfl
  cases faults with
  | mismatch operand odd =>
      obtain ⟨i, -, here⟩ := forall₂_mem_right slots operand
      obtain ⟨xs, same⟩ := flat _ (List.mem_of_getElem? here)
      cases same
      exact odd xs rfl

theorem State.Moves.plain (h : s.Moves step s') (plain : ∀ x ∈ s, x.IsPlain) : ∀ x ∈ s', x.IsPlain :=
  h.forall_slots Combinator.apply_plain plain

end States

namespace Node

variable {g : Grammar} {goal : Goal} {parent node : Node}

theorem Breeds.plain (breeds : parent.Breeds g node) (flat : ∀ x ∈ parent.state, x.IsFlat) :
    ∀ x ∈ node.state, x.IsPlain := by
  obtain ⟨step, -, s, weight, taken, rfl⟩ := breeds
  exact (State.after_eq_ok_iff.mp taken).plain fun x hx => (flat x hx).isPlain

/-- No scalar waits to be expanded, so a child that does has lists alone. -/
theorem Breeds.flat (breeds : parent.Breeds g node) (flat : ∀ x ∈ parent.state, x.IsFlat)
    (isOpen : node.isOpen goal.minLengths = true) : ∀ x ∈ node.state, x.IsFlat := by
  intro x hx
  have lists : node.state.hasScalar = false := (hopeful_of_isOpen isOpen).scalar
  have list : x.hasScalar = false := by simpa using List.any_eq_false.mp lists x hx
  exact (breeds.plain flat x hx).isFlat list

end Node

section Search

variable {σ : Type} {guide : Guide σ} {g : Grammar} {c : Settings} {task : Task} {p : Progress σ}

theorem carries_of_searchVisits : ∀ node ∈ searchVisits guide g c task p, node.state.Carries 1 :=
  forall_searchVisits (fun carries breeds _ => breeds.carries carries) (State.carries_ofInputs task.inputs)

theorem flat_of_searchVisits (inputs : ∀ v ∈ task.inputs, ∃ xs, v = .ofInts xs) :
    ∀ node ∈ searchVisits guide g c task p, ∀ x ∈ node.state, x.IsFlat := by
  refine forall_searchVisits (fun flat breeds isOpen => breeds.flat flat isOpen) ?_
  intro x hx
  obtain ⟨v, hv, rfl⟩ := List.mem_map.mp hx
  obtain ⟨xs, rfl⟩ := inputs v hv
  exact ⟨xs, rfl⟩

/-- Whatever a task starts from and whatever the guide, all slots that a search expands or makes have one component,
and a candidate is rejected for what its operands hold, never for their number, places or shapes. From flat lists of
integers alone, all slots that are expanded are flat lists of integers, children have such lists and integers, and
no candidate is rejected for a type. -/
theorem expansion_type_safe (guide : Guide σ) (g : Grammar) (c : Settings) (task : Task) (p : Progress σ) :
    (∀ node ∈ searchVisits guide g c task p, node.state.Carries 1 ∧
      (∀ child, node.Breeds g child → child.state.Carries 1) ∧
      ∀ step ∈ g.candidates node.state.length, ∀ e, node.state.after step = .error e → ∃ operands,
        List.Forall₂ (fun i v => node.state[i]? = some (Slot.single v)) step.slots operands ∧
          step.combinator.Faults operands e) ∧
    ((∀ v ∈ task.inputs, ∃ xs, v = .ofInts xs) →
      ∀ node ∈ searchVisits guide g c task p, (∀ x ∈ node.state, x.IsFlat) ∧
        (∀ child, node.Breeds g child → ∀ x ∈ child.state, x.IsPlain) ∧
        ∀ step ∈ g.candidates node.state.length, ∀ e, node.state.after step = .error e →
          ∀ c v, e ≠ .typeMismatch c v) := by
  constructor
  · intro node hn
    have carries := carries_of_searchVisits node hn
    exact ⟨carries, fun child breeds => breeds.carries carries,
      fun step candidate e rejected => State.faults_of_after carries candidate rejected⟩
  · intro inputs node hn
    have flat := flat_of_searchVisits inputs node hn
    exact ⟨flat, fun child breeds => breeds.plain flat,
      fun step candidate e rejected => State.ne_mismatch_of_flat flat candidate rejected⟩

theorem expansion_type_safe_of_five :
    (searchVisits .blind .summing .brief .ofFive ⟨{}, ()⟩).map (fun node => node.state.length) = [1, 2] ∧
    ∀ node ∈ searchVisits .blind .summing .brief .ofFive ⟨{}, ()⟩, (∀ x ∈ node.state, x.IsFlat) ∧
      ∀ step ∈ Grammar.summing.candidates node.state.length, ∀ e, node.state.after step = .error e →
        ∀ c v, e ≠ .typeMismatch c v := by
  have inputs : ∀ v ∈ Task.ofFive.inputs, ∃ xs, v = .ofInts xs := by
    intro v hv
    exact ⟨[1, 2], List.mem_singleton.mp hv⟩
  refine ⟨by cbv, ?_⟩
  intro node hn
  obtain ⟨flat, -, typed⟩ := (expansion_type_safe .blind .summing .brief .ofFive ⟨{}, ()⟩).2 inputs node hn
  exact ⟨flat, typed⟩

end Search

end ListSynth
