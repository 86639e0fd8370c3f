import ListSynth.Expr.Rebuild
import ListSynth.Proofs.Transition
/-!
The expression that a program computes, and the run of the program. The tuple of expressions is reshaped step
by step as the state is, and every expression denotes the slot at its place; neither side fails without the
other, except that copies are not evaluated.
-/

namespace ListSynth

namespace Expr

variable {e : Expr} {es : List Expr} {c : Combinator} {x y : Slot} {xs : List Slot}

/-- Each expression denotes the slot at its place. -/
abbrev Denote (es : List Expr) (xs : List Slot) : Prop := List.Forall₂ (fun e x => e.eval = .ok x) es xs

theorem evalList_eq_ok_iff : evalList es = .ok xs ↔ Denote es xs := by
  induction es generalizing xs with
  | nil => cases xs <;> simp [evalList]
  | cons e es ih =>
      simp only [evalList, bind_eq_ok_iff, pure, Except.pure, Except.ok.injEq, ih]
      constructor
      · rintro ⟨y, hy, ys, hys, rfl⟩
        exact .cons hy hys
      · rintro (_ | ⟨hy, hys⟩)
        exact ⟨_, hy, _, hys, rfl⟩

theorem eval_call_eq_ok_iff :
    (Expr.call c es).eval = .ok y ↔ c ≠ .copy ∧ ∃ xs, Denote es xs ∧ c.apply xs = .ok y := by
  by_cases copy : c = .copy
  · simp [eval, copy]
  · rw [eval, if_neg copy, bind_eq_ok_iff]
    simp only [evalList_eq_ok_iff, ne_eq, copy, not_false_iff, true_and]

theorem denote_inputs (inputs : State) : Denote (inputs.map .input) inputs := by
  unfold Denote
  rw [List.forall₂_map_left_iff]
  exact List.forall₂_same.mpr fun x _ => by rw [eval]

theorem Denote.unique {ys : List Slot} (left : Denote es xs) (right : Denote es ys) : xs = ys :=
  Except.ok.inj ((evalList_eq_ok_iff.mpr left).symm.trans (evalList_eq_ok_iff.mpr right))

end Expr

namespace Step

variable {step : Step} {es es' : List Expr}

/-- A step records itself by reshaping the tuple of expressions with calls. -/
abbrev Records (es : List Expr) (step : Step) (es' : List Expr) : Prop :=
  Reshapes (fun c args e => e = .call c args) es step es'

theorem operand_eq_ok {i : Nat} {e : Expr} (here : es[i]? = some e) : step.operand es i = .ok e := by
  simp [operand, here]

theorem record_of_ne_copy {c : Combinator} {slots : List Nat} {args : List Expr} (notCopy : c ≠ .copy)
    (named : slots.mapM (operand ⟨c, slots⟩ es) = .ok args) :
    record es ⟨c, slots⟩ = .ok (Positions.fuse es slots (.call c args)) := by
  cases c with
  | copy => exact absurd rfl notCopy
  | _ =>
      simp only [record, named]
      rfl

theorem Records.record_eq (h : Records es step es') : step.record es = .ok es' := by
  cases h with
  | copy here =>
      simp only [record, operand_eq_ok here]
      rfl
  | @single c i e e' notCopy arity here made =>
      have named : [i].mapM (operand ⟨c, [i]⟩ es) = .ok [e] :=
        mapM_eq_ok_iff.mpr (.cons (operand_eq_ok here) .nil)
      rw [record_of_ne_copy notCopy named, Positions.fuse_singleton, made]
  | @merge op a b e f e' distinct left right made =>
      have named : [a, b].mapM (operand ⟨.zipWith op, [a, b]⟩ es) = .ok [e, f] :=
        mapM_eq_ok_iff.mpr (.cons (operand_eq_ok left) (.cons (operand_eq_ok right) .nil))
      rw [record_of_ne_copy (by simp) named, Positions.fuse_pair es distinct, made]

theorem exists_records {n : Nat} (legal : step.countAfter? es.length = some n) :
    ∃ es', Records es step es' ∧ es'.length = n := by
  have total : ∀ (c : Combinator) (args : List Expr), ∃ e, e = Expr.call c args := fun _ _ => ⟨_, rfl⟩
  exact Reshapes.exists_of_countAfter? total legal

theorem Records.head_call (h : Records es step es') :
    (∃ c args, es'[0]? = some (.call c args)) ↔
      (∃ c args, es[0]? = some (.call c args)) ∨ (step.combinator ≠ .copy ∧ 0 ∈ step.slots) := by
  rcases h.head with ⟨notCopy, first, args, e, rfl, made⟩ | ⟨other, same⟩
  · exact ⟨fun _ => .inr ⟨notCopy, first⟩, fun _ => ⟨_, args, made⟩⟩
  · rw [same]
    exact ⟨.inl, fun h => h.resolve_right other⟩

theorem Records.evaluated (h : Records es step es') (all : ∀ e ∈ es', ∃ x, e.eval = .ok x) :
    ∀ e ∈ es, ∃ x, e.eval = .ok x := by
  intro e he
  rcases h.survives he with stays | ⟨args, e', rfl, operand, stays⟩
  · exact all e stays
  · obtain ⟨y, hy⟩ := all _ stays
    obtain ⟨-, xs, denote, -⟩ := Expr.eval_call_eq_ok_iff.mp hy
    obtain ⟨x, -, hx⟩ := forall₂_mem_left denote operand
    exact ⟨x, hx⟩

theorem Records.denote {s s' : State} (h : Records es step es') (move : s.Moves step s')
    (denote : Expr.Denote es s) : Expr.Denote es' s' := by
  refine h.related move ?_ denote
  rintro c args xs e x notCopy rfl result operands
  exact Expr.eval_call_eq_ok_iff.mpr ⟨notCopy, xs, operands, result⟩

theorem exists_records_of_moves {s s' : State} (move : s.Moves step s') (denote : Expr.Denote es s) :
    ∃ es', Records es step es' := by
  have legal := move.countAfter?_eq
  rw [← denote.length_eq] at legal
  obtain ⟨es', records, -⟩ := exists_records legal
  exact ⟨es', records⟩

theorem Records.exists_moves {s : State} (h : Records es step es') (denote : Expr.Denote es s)
    (all : ∀ e ∈ es', ∃ x, e.eval = .ok x) : ∃ s', s.Moves step s' := by
  refine h.exists_related ?_ denote
  rintro c args xs e rfl stays operands
  obtain ⟨y, hy⟩ := all _ stays
  obtain ⟨-, ys, denote, result⟩ := Expr.eval_call_eq_ok_iff.mp hy
  exact ⟨y, Expr.Denote.unique operands denote ▸ result⟩

end Step

namespace Program

variable {inputs s s' : State} {es es' : List Expr} {program : Program} {e : Expr}

/-- How many items a program leaves of `n`, if each of its steps is legal by the numbers alone. -/
def countAfter? (n : Nat) (program : Program) : Option Nat := program.foldlM Step.countAfter? n

theorem countAfter?_cons_eq_some_iff {n k : Nat} {step : Step} :
    countAfter? n (step :: program) = some k ↔ ∃ m, step.countAfter? n = some m ∧ program.countAfter? m = some k := by
  rw [countAfter?, List.foldlM_cons]
  exact Option.bind_eq_some_iff

theorem exists_names_first {n : Nat} (nonempty : program ≠ []) (one : program.countAfter? n = some 1) :
    ∃ step ∈ program, step.combinator ≠ .copy ∧ 0 ∈ step.slots := by
  obtain ⟨front, last, rfl⟩ := (List.eq_nil_or_concat program).resolve_left nonempty
  rw [countAfter?, List.concat_eq_append, List.foldlM_append] at one
  obtain ⟨m, -, one⟩ := Option.bind_eq_some_iff.mp one
  exact ⟨last, by simp, Step.names_first (by simpa using one)⟩

theorem countAfter?_of_run (h : s.run program = .ok s') :
    program.countAfter? s.length = some s'.length := by
  induction program generalizing s with
  | nil =>
      cases h
      rfl
  | cons step rest ih =>
      obtain ⟨m, move, h⟩ := State.run_cons_eq_ok_iff.mp h
      exact countAfter?_cons_eq_some_iff.mpr ⟨m.length, move.countAfter?_eq, ih h⟩

/-- What a program records when its numbers are legal: the first expression becomes a call when a step names
it, and only then. -/
theorem record_of_countAfter? {n : Nat} (legal : program.countAfter? es.length = some n) :
    ∃ es', program.foldlM Step.record es = .ok es' ∧ es'.length = n ∧
      ((∃ c args, es'[0]? = some (.call c args)) ↔
        (∃ c args, es[0]? = some (.call c args)) ∨
          ∃ step ∈ program, step.combinator ≠ .copy ∧ 0 ∈ step.slots) := by
  induction program generalizing es with
  | nil => exact ⟨es, rfl, Option.some.inj legal, by simp⟩
  | cons step rest ih =>
      obtain ⟨m, first, legal⟩ := countAfter?_cons_eq_some_iff.mp legal
      obtain ⟨mid, records, rfl⟩ := Step.exists_records first
      obtain ⟨es', recorded, count, head⟩ := ih legal
      refine ⟨es', ?_, count, ?_⟩
      · rw [List.foldlM_cons, records.record_eq]
        exact recorded
      · rw [head, records.head_call, or_assoc, List.exists_mem_cons_iff]

theorem denote_of_run (h : s.run program = .ok s') (denote : Expr.Denote es s)
    (recorded : program.foldlM Step.record es = .ok es') : Expr.Denote es' s' := by
  induction program generalizing s es with
  | nil =>
      cases h
      cases recorded
      exact denote
  | cons step rest ih =>
      obtain ⟨m, move, h⟩ := State.run_cons_eq_ok_iff.mp h
      obtain ⟨mid, records⟩ := Step.exists_records_of_moves move denote
      rw [List.foldlM_cons, records.record_eq] at recorded
      exact ih h (records.denote move denote) recorded

/-- If all that a legal program records has values, so has all that it started from, and the program runs. -/
theorem run_of_evaluated {n : Nat} (legal : program.countAfter? es.length = some n)
    (recorded : program.foldlM Step.record es = .ok es') (all : ∀ e ∈ es', ∃ x, e.eval = .ok x) :
    (∀ e ∈ es, ∃ x, e.eval = .ok x) ∧
      ∀ s : State, Expr.Denote es s → ∃ s', s.run program = .ok s' := by
  induction program generalizing es with
  | nil =>
      cases recorded
      exact ⟨all, fun s _ => ⟨s, rfl⟩⟩
  | cons step rest ih =>
      obtain ⟨m, first, legal⟩ := countAfter?_cons_eq_some_iff.mp legal
      obtain ⟨mid, records, rfl⟩ := Step.exists_records first
      rw [List.foldlM_cons, records.record_eq] at recorded
      obtain ⟨evaluated, runs⟩ := ih legal recorded
      refine ⟨records.evaluated evaluated, ?_⟩
      intro s denote
      obtain ⟨t, move⟩ := records.exists_moves denote evaluated
      obtain ⟨s', h⟩ := runs t (records.denote move denote)
      exact ⟨s', State.run_cons_eq_ok_iff.mpr ⟨t, move, h⟩⟩

theorem rebuild_eq_ok_iff :
    program.rebuild inputs = .ok e ↔ ∃ es, program.foldlM Step.record (inputs.map .input) = .ok es ∧
      es[0]? = some e ∧ ∃ c args, e = .call c args := by
  simp only [rebuild, bind_eq_ok_iff, List.head?_eq_getElem?]
  constructor
  · rintro ⟨es, recorded, h⟩
    split at h
    · rename_i c args here
      cases h
      exact ⟨es, recorded, here, c, args, rfl⟩
    · cases h
  · rintro ⟨es, recorded, here, c, args, rfl⟩
    refine ⟨es, recorded, ?_⟩
    rw [here]
    rfl

theorem exists_rebuild_iff {n : Nat} (legal : program.countAfter? inputs.length = some n) :
    (∃ e, program.rebuild inputs = .ok e) ↔
      ∃ step ∈ program, step.combinator ≠ .copy ∧ 0 ∈ step.slots := by
  have length : (inputs.map Expr.input).length = inputs.length := List.length_map _
  obtain ⟨es, recorded, -, head⟩ := record_of_countAfter? (length.symm ▸ legal)
  have untouched : ¬ ∃ c args, (inputs.map Expr.input)[0]? = some (.call c args) := by simp
  rw [or_iff_right untouched] at head
  rw [← head]
  constructor
  · rintro ⟨e, h⟩
    obtain ⟨es', recorded', here, c, args, rfl⟩ := rebuild_eq_ok_iff.mp h
    cases recorded.symm.trans recorded'
    exact ⟨c, args, here⟩
  · rintro ⟨c, args, here⟩
    exact ⟨_, rebuild_eq_ok_iff.mpr ⟨es, recorded, here, c, args, rfl⟩⟩

theorem eval_of_rebuild (h : inputs.run program = .ok s') (built : program.rebuild inputs = .ok e) :
    ∃ x, s'[0]? = some x ∧ e.eval = .ok x := by
  obtain ⟨es, recorded, here, -⟩ := rebuild_eq_ok_iff.mp built
  exact forall₂_getElem? (denote_of_run h (Expr.denote_inputs inputs) recorded) here

theorem run_of_eval {v : Slot} (legal : program.countAfter? inputs.length = some 1)
    (built : program.rebuild inputs = .ok e) (value : e.eval = .ok v) : inputs.run program = .ok [v] := by
  have length : (inputs.map Expr.input).length = inputs.length := List.length_map _
  obtain ⟨es, recorded, here, -⟩ := rebuild_eq_ok_iff.mp built
  obtain ⟨es', recorded', count, -⟩ := record_of_countAfter? (length.symm ▸ legal)
  cases recorded.symm.trans recorded'
  obtain ⟨f, rfl⟩ := List.length_eq_one_iff.mp count
  cases here
  have all : ∀ e' ∈ [e], ∃ x, e'.eval = .ok x := by simpa using ⟨v, value⟩
  obtain ⟨-, runs⟩ := run_of_evaluated (length.symm ▸ legal) recorded all
  obtain ⟨s', h⟩ := runs inputs (Expr.denote_inputs inputs)
  have denote := denote_of_run h (Expr.denote_inputs inputs) recorded
  rw [h, Expr.Denote.unique denote (.cons value .nil)]

/-- Rebuilding and running agree. A program that runs has an expression when a step other than copying names
the first place, and the expression denotes the slot there; a program that runs down to one slot has one. In
turn, a program whose slots are legal by the numbers and that leaves one item has an expression, and runs down
to its value when it has a value. -/
theorem rebuild_agrees_with_run (inputs : State) (program : Program) :
    (∀ s', inputs.run program = .ok s' →
      ((∃ e, program.rebuild inputs = .ok e) ↔
        ∃ step ∈ program, step.combinator ≠ .copy ∧ 0 ∈ step.slots) ∧
      (∀ e, program.rebuild inputs = .ok e → ∃ x, s'[0]? = some x ∧ e.eval = .ok x) ∧
      (program ≠ [] → s'.length = 1 → ∃ e, program.rebuild inputs = .ok e)) ∧
    (program ≠ [] → program.countAfter? inputs.length = some 1 →
      ∃ e, program.rebuild inputs = .ok e ∧ ∀ v, e.eval = .ok v → inputs.run program = .ok [v]) := by
  constructor
  · intro s' h
    have legal := countAfter?_of_run h
    refine ⟨exists_rebuild_iff legal, fun e => eval_of_rebuild h, ?_⟩
    intro nonempty one
    exact (exists_rebuild_iff legal).mpr (exists_names_first nonempty (one ▸ legal))
  · intro nonempty one
    obtain ⟨e, built⟩ := (exists_rebuild_iff one).mpr (exists_names_first nonempty one)
    exact ⟨e, built, fun v => run_of_eval one built⟩

theorem rebuild_agrees_with_run_of_copy :
    let inputs := State.ofInputs [.ofInts [2, 3]]
    let program : Program := [⟨.copy, [0]⟩, ⟨.map .add 1, [1]⟩, ⟨.zipWith .mul, [1, 0]⟩]
    program.countAfter? inputs.length = some 1 ∧ inputs.run program = .ok [.single (.ofInts [6, 12])] ∧
      ∃ e, program.rebuild inputs = .ok e ∧ e.eval = .ok (.single (.ofInts [6, 12])) := by
  intro inputs program
  have legal : program.countAfter? inputs.length = some 1 := by decide
  have ends : inputs.run program = .ok [.single (.ofInts [6, 12])] := by rfl
  obtain ⟨forward, backward⟩ := rebuild_agrees_with_run inputs program
  obtain ⟨e, built, -⟩ := backward (by simp [program]) legal
  obtain ⟨x, here, value⟩ := (forward _ ends).2.1 e built
  cases here
  exact ⟨legal, ends, e, built, value⟩

end Program

end ListSynth
