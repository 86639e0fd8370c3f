import ListSynth.Goal
import ListSynth.Proofs.Lists
import ListSynth.Proofs.Transition
/-!
States that no program leads out of: a scalar is never taken in again, and a list that has become too short
never grows back. What is pruned from a search is lost to no goal.
-/

namespace ListSynth

namespace Slot

variable {c : Combinator} {op : ArithOp} {x y z : Slot}

theorem hasScalar_iff : x.hasScalar = true ↔ ∃ v ∈ x.components, v.isScalar = true := by
  simp [hasScalar]

theorem hasScalar_eq_false_iff : x.hasScalar = false ↔ ∀ v ∈ x.components, v.isScalar = false := by
  simp [hasScalar]

theorem hasScalar_of_mem_operands {xs : List Slot} (h : c.apply xs = .ok y) (hx : x ∈ xs) :
    x.hasScalar = false := by
  rw [hasScalar_eq_false_iff]
  intro v hv
  rcases Combinator.apply_cases h with ⟨x', rfl, single⟩ | ⟨op, l, r, rfl, rfl⟩
  · rw [List.mem_singleton.mp hx] at hv
    obtain ⟨w, -, result⟩ := forall₂_mem_left ((Combinator.apply_single_eq_ok_iff single).mp h) hv
    exact (Combinator.onValue_ok result).1
  · obtain ⟨same, pairs⟩ := Combinator.apply_pair_eq_ok_iff.mp h
    simp only [List.mem_cons, List.not_mem_nil, or_false] at hx
    rcases hx with rfl | rfl
    · rw [← List.map_fst_zip (Nat.le_of_eq same)] at hv
      obtain ⟨p, hp, rfl⟩ := List.mem_map.mp hv
      obtain ⟨u, -, result⟩ := forall₂_mem_left pairs hp
      exact (Combinator.onPair_ok result).1
    · rw [← List.map_snd_zip (Nat.le_of_eq same.symm)] at hv
      obtain ⟨p, hp, rfl⟩ := List.mem_map.mp hv
      obtain ⟨u, -, result⟩ := forall₂_mem_left pairs hp
      exact (Combinator.onPair_ok result).2.1

theorem hasScalar_of_merge (h : (Combinator.zipWith op).apply [x, y] = .ok z) : z.hasScalar = false := by
  obtain ⟨-, pairs⟩ := Combinator.apply_pair_eq_ok_iff.mp h
  rw [hasScalar_eq_false_iff]
  intro u hu
  obtain ⟨p, -, result⟩ := forall₂_mem_right pairs hu
  exact (Combinator.onPair_ok result).2.2.1

theorem hasScalar_of_aggregate (role : c.role = .aggregate) (h : c.apply [x] = .ok y)
    (some : x.components ≠ []) : y.hasScalar = true := by
  have single : c.arity = 1 := by simp [Combinator.arity, role]
  obtain ⟨v, hv⟩ := List.exists_mem_of_ne_nil _ some
  obtain ⟨w, hw, result⟩ := forall₂_mem_left ((Combinator.apply_single_eq_ok_iff single).mp h) hv
  exact hasScalar_iff.mpr ⟨w, hw, (Combinator.onValue_ok result).2.2.mpr role⟩

/-- The component at a place is shorter than a given length. Scalars have length zero. -/
def ShortAt (k least : Nat) (x : Slot) : Prop := ∃ v, x.components[k]? = some v ∧ v.length < least

theorem shortAt_of_apply {k least : Nat} {xs : List Slot} (h : c.apply xs = .ok y)
    (short : ∃ x ∈ xs, x.ShortAt k least) : y.ShortAt k least := by
  obtain ⟨x, hx, v, hv, lt⟩ := short
  rcases Combinator.apply_cases h with ⟨x', rfl, single⟩ | ⟨op, l, r, rfl, rfl⟩
  · rw [List.mem_singleton.mp hx] at hv
    obtain ⟨w, hw, result⟩ := forall₂_getElem? ((Combinator.apply_single_eq_ok_iff single).mp h) hv
    exact ⟨w, hw, Nat.lt_of_le_of_lt (Combinator.onValue_ok result).2.1 lt⟩
  · obtain ⟨same, pairs⟩ := Combinator.apply_pair_eq_ok_iff.mp h
    simp only [List.mem_cons, List.not_mem_nil, or_false] at hx
    rcases hx with rfl | rfl
    · have range := same ▸ (List.getElem?_eq_some_iff.mp hv).1
      have paired : (x.components.zip r.components)[k]? = some (v, r.components[k]) :=
        List.getElem?_zip_eq_some.mpr ⟨hv, List.getElem?_eq_getElem range⟩
      obtain ⟨u, hu, result⟩ := forall₂_getElem? pairs paired
      exact ⟨u, hu, Nat.lt_of_le_of_lt (Combinator.onPair_ok result).2.2.2.1 lt⟩
    · have range := same.symm ▸ (List.getElem?_eq_some_iff.mp hv).1
      have paired : (l.components.zip x.components)[k]? = some (l.components[k], v) :=
        List.getElem?_zip_eq_some.mpr ⟨List.getElem?_eq_getElem range, hv⟩
      obtain ⟨u, hu, result⟩ := forall₂_getElem? pairs paired
      exact ⟨u, hu, Nat.lt_of_le_of_lt (Combinator.onPair_ok result).2.2.2.2 lt⟩

end Slot

section Lengths

variable {goal : Goal}

/-- A list is no shorter than the component of the goal at its place, where the goal sets lengths. -/
theorem Slot.length_le_of_overshoots {x : Slot} {least : List Nat} {xs : List Value} {k n : Nat}
    (fits : x.overshoots least = false) (value : x.components[k]? = some (.list xs)) (length : least[k]? = some n) :
    n ≤ xs.length := by
  have pair : (Value.list xs, n) ∈ x.components.zip least :=
    List.mem_of_getElem? (List.getElem?_zip_eq_some.mpr ⟨value, length⟩)
  simpa using List.any_eq_false.mp fits _ pair

/-- A slot overshoots where one of its components is a list and shorter than it may be. -/
theorem Slot.shortAt_of_overshoots {x : Slot} {least : List Nat} (overshot : x.overshoots least = true) :
    ∃ k n, least[k]? = some n ∧ x.ShortAt k n := by
  obtain ⟨⟨v, n⟩, pair, short⟩ := List.any_eq_true.mp overshot
  obtain ⟨k, hk⟩ := List.getElem?_of_mem pair
  obtain ⟨value, length⟩ := List.getElem?_zip_eq_some.mp hk
  refine ⟨k, n, length, v, value, ?_⟩
  cases v with
  | list items => simpa [Value.length, Value.items?] using short
  | bool b => cases short
  | int m => cases short

theorem Goal.minLengths_of_list {items : List Value} (first : goal.components.head? = some (.list items)) :
    goal.minLengths = some (goal.components.map Value.length) := by
  obtain ⟨rest, all⟩ := List.head?_eq_some_iff.mp first
  unfold minLengths
  rw [all]

theorem Goal.eq_of_minLengths {least : List Nat} (lengths : goal.minLengths = some least) :
    least = goal.components.map Value.length := by
  unfold minLengths at lengths
  split at lengths
  · exact (Option.some.inj lengths).symm
  · cases lengths

theorem Goal.isReachedBy_of_two_le {s : State} (several : 2 ≤ s.length) : goal.isReachedBy s = false := by
  match s, several with
  | _ :: _ :: _, _ => rfl

end Lengths

namespace State

variable {s s' : State} {step : Step} {program : Program} {lengths : Option (List Nat)}

theorem deadEnd?_eq_none_iff : s.deadEnd? lengths = none ↔
    s.hasScalar = false ∧ ∀ least, lengths = some least → ∀ x ∈ s, x.overshoots least = false := by
  unfold deadEnd?
  cases s.hasScalar with
  | true => simp
  | false => cases lengths <;> simp

theorem deadEnd?_eq_scalar_iff : s.deadEnd? lengths = some .scalar ↔ s.hasScalar = true := by
  unfold deadEnd?
  cases s.hasScalar with
  | true => simp
  | false => cases lengths <;> simp

theorem deadEnd?_eq_overshoot_iff : s.deadEnd? lengths = some .overshoot ↔
    s.hasScalar = false ∧ ∃ least, lengths = some least ∧ ∃ x ∈ s, x.overshoots least = true := by
  unfold deadEnd?
  cases s.hasScalar with
  | true => simp
  | false => cases lengths <;> simp

theorem hasScalar_iff : s.hasScalar = true ↔ ∃ x ∈ s, x.hasScalar = true := by
  simp [hasScalar]

theorem Moves.hasScalar (h : s.Moves step s') (scalar : s.hasScalar = true) :
    s'.hasScalar = true ∧ 2 ≤ s'.length := by
  have stays : s'.hasScalar = true := by
    rw [hasScalar_iff] at scalar ⊢
    refine h.exists_slot ?_ scalar
    intro c xs y made held
    obtain ⟨x, hx, some⟩ := held
    simp [Slot.hasScalar_of_mem_operands made hx] at some
  refine ⟨stays, ?_⟩
  have other : ∀ {t : State} {x : Slot}, t.hasScalar = true → x ∈ t → x.hasScalar = false →
      2 ≤ t.length := by
    intro t x held hx none
    obtain ⟨y, hy, some⟩ := hasScalar_iff.mp held
    refine two_le_length_of_mem hx hy ?_
    rintro rfl
    rw [none] at some
    cases some
  cases h with
  | copy here =>
      have := (List.getElem?_eq_some_iff.mp here).1
      rw [List.length_append, List.length_singleton]
      omega
  | single notCopy arity here result =>
      rw [List.length_set]
      exact other scalar (List.mem_of_getElem? here) (Slot.hasScalar_of_mem_operands result (by simp))
  | merge distinct left right result =>
      exact other stays (Reshapes.mem_merge distinct left right) (Slot.hasScalar_of_merge result)

/-- A program that starts beside a scalar and takes a step never gets down to one slot. -/
theorem two_le_length_of_run (scalar : s.hasScalar = true) (nonempty : program ≠ [])
    (h : s.run program = .ok s') : s'.hasScalar = true ∧ 2 ≤ s'.length := by
  match program, nonempty with
  | step :: rest, _ =>
      obtain ⟨m, move, h⟩ := run_cons_eq_ok_iff.mp h
      exact run_keeps (P := fun t => t.hasScalar = true ∧ 2 ≤ t.length)
        (fun move held => move.hasScalar held.1) h (move.hasScalar scalar)

/-- What takes a step or more to a goal holds no scalar. -/
theorem hasScalar_of_reached {goal : Goal} (nonempty : program ≠ []) (h : s.run program = .ok s')
    (reached : goal.isReachedBy s' = true) : s.hasScalar = false := by
  refine Bool.eq_false_iff.mpr ?_
  intro scalar
  have missed : goal.isReachedBy s' = false :=
    Goal.isReachedBy_of_two_le (two_le_length_of_run scalar nonempty h).2
  exact Bool.false_ne_true (missed.symm.trans reached)

theorem hopeful_of_run {x : Slot} (h : s.run program = .ok [x]) : s.length = 1 ∨ s.hasScalar = false := by
  by_cases done : program = []
  · subst done
    cases h
    exact .inl rfl
  · refine .inr (Bool.eq_false_iff.mpr ?_)
    intro scalar
    have long := (two_le_length_of_run scalar done h).2
    simp at long

/-- An aggregate keeps the number of slots and makes a scalar, unless it is taken on a slot without components, which
it does not change. -/
theorem Moves.of_aggregate (h : s.Moves step s') (aggregate : step.combinator ∈ Combinator.aggregates) :
    s'.length = s.length ∧ (s'.hasScalar = true ∨ s' = s ∧ ∃ x ∈ s, x.components = []) := by
  cases h with
  | copy here => simp [Combinator.aggregates] at aggregate
  | @single c i x y notCopy arity here result =>
      refine ⟨List.length_set, ?_⟩
      obtain ⟨range, rfl⟩ := List.getElem?_eq_some_iff.mp here
      by_cases empty : s[i].components = []
      · have same : y = s[i] := by
          have made := (Combinator.apply_single_eq_ok_iff arity).mp result
          rw [empty, List.forall₂_nil_left_iff] at made
          calc y = ⟨y.components⟩ := rfl
            _ = ⟨s[i].components⟩ := by rw [made, empty]
            _ = s[i] := rfl
        refine .inr ⟨?_, s[i], List.getElem_mem range, empty⟩
        rw [same, List.set_getElem_self]
      · have role := Combinator.role_eq_aggregate_iff.mpr aggregate
        exact .inl (hasScalar_iff.mpr ⟨y, List.mem_set range y, Slot.hasScalar_of_aggregate role result empty⟩)
  | merge distinct left right result => simp [Combinator.aggregates] at aggregate

/-- A run that leads to one slot and takes an aggregate takes it on a lone slot, unless that changes nothing. -/
theorem lone_of_run {x : Slot} (h : s.run (step :: program) = .ok [x])
    (aggregate : step.combinator ∈ Combinator.aggregates) : s.length = 1 ∨ s.after step = .ok s := by
  obtain ⟨m, move, rest⟩ := run_cons_eq_ok_iff.mp h
  obtain ⟨length, scalar | ⟨rfl, -⟩⟩ := move.of_aggregate aggregate
  · have lone : m.length = 1 := (hopeful_of_run rest).resolve_right (by simp [scalar])
    exact .inl (length ▸ lone)
  · exact .inr move.after_eq

def ShortAt (k least : Nat) (s : State) : Prop := ∃ x ∈ s, x.ShortAt k least

theorem Moves.shortAt {k least : Nat} (h : s.Moves step s') (short : s.ShortAt k least) :
    s'.ShortAt k least :=
  h.exists_slot Slot.shortAt_of_apply short

theorem shortAt_of_overshoot {goal : Goal} (h : s.deadEnd? goal.minLengths = some .overshoot) :
    ∃ k v, goal.components[k]? = some v ∧ s.ShortAt k v.length := by
  obtain ⟨-, least, lengths, x, hx, overshot⟩ := deadEnd?_eq_overshoot_iff.mp h
  obtain ⟨k, n, length, short⟩ := Slot.shortAt_of_overshoots overshot
  rw [Goal.eq_of_minLengths lengths, List.getElem?_map, Option.map_eq_some_iff] at length
  obtain ⟨v, hv, rfl⟩ := length
  exact ⟨k, v, hv, x, hx, short⟩

/-- A state that is too short for a goal is pruned, for a scalar if the short component is one. -/
theorem ShortAt.deadEnd? {goal : Goal} {k : Nat} {v : Value} (short : s.ShortAt k v.length)
    (wanted : goal.components[k]? = some v) (sets : goal.minLengths ≠ none) : s.deadEnd? goal.minLengths ≠ none := by
  intro alive
  obtain ⟨lists, fits⟩ := deadEnd?_eq_none_iff.mp alive
  obtain ⟨x, hx, w, found, lt⟩ := short
  obtain ⟨least, lengths⟩ := Option.ne_none_iff_exists'.mp sets
  have length : least[k]? = some v.length := by
    rw [Goal.eq_of_minLengths lengths, List.getElem?_map, wanted]
    rfl
  have list : w.isScalar = false := by
    have none : x.hasScalar = false := by simpa using List.any_eq_false.mp lists x hx
    exact Slot.hasScalar_eq_false_iff.mp none w (List.mem_of_getElem? found)
  cases w with
  | list items => exact Nat.not_lt_of_le (Slot.length_le_of_overshoots (fits least lengths x hx) found length) lt
  | bool b => cases list
  | int n => cases list

theorem ShortAt.ne_exact {goal : Goal} {k : Nat} {v : Value} (short : s.ShortAt k v.length)
    (wanted : goal.components[k]? = some v) : s ≠ [⟨goal.components⟩] := by
  rintro rfl
  obtain ⟨x, hx, w, found, lt⟩ := short
  rw [List.mem_singleton.mp hx] at found
  cases wanted.symm.trans found
  exact Nat.lt_irrefl _ lt

/-- What is too short for a goal stays so, whatever steps are taken. -/
theorem shortAt_of_run {goal : Goal} (overshoot : s.deadEnd? goal.minLengths = some .overshoot)
    (h : s.run program = .ok s') : ∃ k v, goal.components[k]? = some v ∧ s'.ShortAt k v.length := by
  obtain ⟨k, v, wanted, short⟩ := shortAt_of_overshoot overshoot
  exact ⟨k, v, wanted, run_keeps (fun move => move.shortAt) h short⟩

theorem run_ne_of_overshoot {goal : Goal} (overshoot : s.deadEnd? goal.minLengths = some .overshoot) :
    s.run program ≠ .ok [⟨goal.components⟩] := by
  intro reached
  obtain ⟨k, v, wanted, short⟩ := shortAt_of_run overshoot reached
  exact short.ne_exact wanted rfl

/-- A program overshoots a goal on its way: some of its steps, but not all, lead to a state that is too short. -/
def OvershootsOnWay (goal : Goal) (s : State) (program : Program) : Prop :=
  ∃ before rest m, program = before ++ rest ∧ before ≠ [] ∧ rest ≠ [] ∧ s.run before = .ok m ∧
    m.deadEnd? goal.minLengths = some .overshoot

theorem OvershootsOnWay.cons {goal : Goal} {m : State} (move : s.Moves step m)
    (h : m.OvershootsOnWay goal program) : s.OvershootsOnWay goal (step :: program) := by
  obtain ⟨before, rest, n, rfl, -, left, run, overshoot⟩ := h
  exact ⟨step :: before, rest, n, rfl, by simp, left, run_cons_eq_ok_iff.mpr ⟨m, move, run⟩, overshoot⟩

theorem OvershootsOnWay.run_ne {goal : Goal} (h : s.OvershootsOnWay goal program) :
    s.run program ≠ .ok [⟨goal.components⟩] := by
  obtain ⟨before, rest, m, rfl, -, -, run, overshoot⟩ := h
  intro reached
  obtain ⟨m', run', reached⟩ := run_append_eq_ok_iff.mp reached
  cases run.symm.trans run'
  exact run_ne_of_overshoot overshoot reached

end State

end ListSynth
