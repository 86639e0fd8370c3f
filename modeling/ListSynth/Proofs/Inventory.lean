import Mathlib.Data.List.Perm.Subperm
import ListSynth.Proofs.Rebuild
/-!
What a rebuilt expression holds of its program. Steps move items about, and what is counted over all of them goes up by
what a step makes and, with a copy, by what is doubled; nothing is ever dropped. Once a single item is left, the
expression there accounts for every input and for every step.
-/

namespace ListSynth

theorem Combinator.arity_eq (c : Combinator) : c.arity = if c.family = .zipWith then 2 else 1 := by
  cases c <;> rfl

namespace Expr

mutual

/-- The input slots that an expression reads, from the left. -/
def leaves : Expr → List Slot
  | .input slot => [slot]
  | .call _ args => leavesList args

def leavesList : List Expr → List Slot
  | [] => []
  | e :: es => e.leaves ++ leavesList es

end

mutual

/-- The combinators that an expression calls, each before those of its operands. -/
def calls : Expr → List Combinator
  | .input _ => []
  | .call c args => c :: callsList args

def callsList : List Expr → List Combinator
  | [] => []
  | e :: es => e.calls ++ callsList es

end

mutual

theorem length_calls (e : Expr) : e.calls.length = e.size := by
  cases e with
  | input slot => rfl
  | call c args => rw [calls, size, List.length_cons, length_callsList args, Nat.add_comm]

theorem length_callsList (es : List Expr) : (callsList es).length = sizeList es := by
  cases es with
  | nil => rfl
  | cons e es => rw [callsList, sizeList, List.length_append, length_calls e, length_callsList es]

end

theorem leavesList_eq_flatMap (es : List Expr) : leavesList es = es.flatMap leaves := by
  induction es with
  | nil => rfl
  | cons e es ih => rw [leavesList, List.flatMap_cons, ih]

theorem callsList_eq_flatMap (es : List Expr) : callsList es = es.flatMap calls := by
  induction es with
  | nil => rfl
  | cons e es ih => rw [callsList, List.flatMap_cons, ih]

theorem nestingList_le_iff {es : List Expr} {n : Nat} : nestingList es ≤ n ↔ ∀ e ∈ es, e.nesting ≤ n := by
  induction es with
  | nil => simp [nestingList]
  | cons e es ih => rw [nestingList, Nat.max_le, List.forall_mem_cons, ih]

/-- An expression that evaluated steps have made, `n` of them at most one within another. -/
structure Tallied (n : Nat) (e : Expr) : Prop where
  copies : .copy ∉ e.calls
  leaves : e.leaves.length = e.calls.countP (·.family = .zipWith) + 1
  nesting : e.nesting ≤ n

theorem Tallied.mono {m n : Nat} {e : Expr} (le : m ≤ n) (tallied : e.Tallied m) : e.Tallied n :=
  { tallied with nesting := Nat.le_trans tallied.nesting le }

theorem tallied_input (slot : Slot) : (Expr.input slot).Tallied 0 := ⟨by simp [calls], rfl, Nat.le_refl 0⟩

theorem length_leavesList {n : Nat} {es : List Expr} (all : ∀ e ∈ es, e.Tallied n) :
    (leavesList es).length = (callsList es).countP (·.family = .zipWith) + es.length := by
  induction es with
  | nil => rfl
  | cons e es ih =>
      obtain ⟨first, rest⟩ := List.forall_mem_cons.mp all
      rw [leavesList, callsList, List.length_append, List.countP_append, first.leaves, ih rest, List.length_cons]
      omega

theorem tallied_call {n : Nat} {c : Combinator} {args : List Expr} (evaluated : c ≠ .copy)
    (arity : args.length = c.arity) (all : ∀ e ∈ args, e.Tallied n) : (Expr.call c args).Tallied (n + 1) := by
  constructor
  · rw [calls, callsList_eq_flatMap, List.mem_cons, List.mem_flatMap, not_or]
    exact ⟨evaluated.symm, fun ⟨e, he, copy⟩ => (all e he).copies copy⟩
  · rw [Expr.leaves, calls, length_leavesList all, List.countP_cons, arity, c.arity_eq]
    simp only [decide_eq_true_eq]
    split <;> omega
  · rw [Expr.nesting, Nat.add_comm]
    exact Nat.succ_le_succ (nestingList_le_iff.mpr fun e he => (all e he).nesting)

end Expr

namespace Program

/-- The combinators that a program evaluates, in the order of its steps. -/
def evaluated (program : Program) : List Combinator := (program.map Step.combinator).filter (· ≠ .copy)

def copies (program : Program) : Nat := program.countP (·.combinator = .copy)

def merges (program : Program) : Nat := program.countP (·.combinator.family = .zipWith)

variable {step : Step} {program : Program}

theorem evaluated_cons_of_copy (copy : step.combinator = .copy) : evaluated (step :: program) = program.evaluated := by
  simp [evaluated, copy]

theorem evaluated_cons_of_ne_copy (notCopy : step.combinator ≠ .copy) :
    evaluated (step :: program) = step.combinator :: program.evaluated := by
  simp [evaluated, notCopy]

theorem copies_cons : copies (step :: program) = program.copies + if step.combinator = .copy then 1 else 0 := by
  simp only [copies, List.countP_cons, decide_eq_true_eq]

theorem merges_cons :
    merges (step :: program) = program.merges + if step.combinator.family = .zipWith then 1 else 0 := by
  simp only [merges, List.countP_cons, decide_eq_true_eq]

theorem mem_evaluated (mem : step ∈ program) (notCopy : step.combinator ≠ .copy) :
    step.combinator ∈ program.evaluated :=
  List.mem_filter.mpr ⟨List.mem_map_of_mem mem, decide_eq_true notCopy⟩

theorem length_eq (program : Program) : program.length = program.evaluated.length + program.copies := by
  rw [evaluated, ← List.countP_eq_length_filter, List.countP_map, copies, Nat.add_comm,
    List.length_eq_countP_add_countP (·.combinator = .copy)]
  simp [Function.comp_def]

end Program

section Steps

variable {α : Type} {make : Combinator → List α → α → Prop} {items items' : List α} {step : Step}

/-- Copying adds an item, merging takes one away, and some item is always left. -/
theorem Reshapes.length (h : Reshapes make items step items') :
    (items'.length + if step.combinator.family = .zipWith then 1 else 0) =
      (items.length + if step.combinator = .copy then 1 else 0) ∧ items' ≠ [] := by
  rcases h.perm with ⟨copy, x, -, after⟩ | ⟨notCopy, xs, y, rest, -, arity, before, after⟩
  · refine ⟨?_, List.ne_nil_of_mem (after.mem_iff.mpr List.mem_cons_self)⟩
    rw [after.length_eq, copy]
    rfl
  · refine ⟨?_, List.ne_nil_of_mem (after.mem_iff.mpr List.mem_cons_self)⟩
    rw [after.length_eq, before.length_eq, List.length_append, List.length_cons, arity, Combinator.arity_eq,
      if_neg notCopy]
    split <;> omega

/-- What is listed of each item is listed of those that are made as well. -/
theorem Reshapes.flatMap {γ : Type} (f : α → List γ) (own : Combinator → List γ)
    (makes : ∀ c xs y, make c xs y → f y = own c ++ xs.flatMap f) (h : Reshapes make items step items') :
    (step.combinator = .copy ∧ (items.flatMap f).Subperm (items'.flatMap f)) ∨
      (step.combinator ≠ .copy ∧ (items'.flatMap f).Perm (own step.combinator ++ items.flatMap f)) := by
  rcases h.perm with ⟨copy, x, -, after⟩ | ⟨notCopy, xs, y, rest, made, -, before, after⟩
  · refine .inl ⟨copy, (after.flatMap_right f).subperm_left.mpr ?_⟩
    exact (List.sublist_append_right (f x) (items.flatMap f)).subperm
  · refine .inr ⟨notCopy, (after.flatMap_right f).trans ?_⟩
    rw [List.flatMap_cons, makes _ _ _ made, List.append_assoc, ← List.flatMap_append]
    exact (before.flatMap_right f).symm.append_left _

end Steps

/-- The steps of a program, one after the other. -/
inductive ReshapesAll {α : Type} (make : Combinator → List α → α → Prop) : List α → Program → List α → Prop
  | nil {items} : ReshapesAll make items [] items
  | cons {items step mid program items'} (first : Reshapes make items step mid)
      (rest : ReshapesAll make mid program items') : ReshapesAll make items (step :: program) items'

namespace ReshapesAll

variable {α β : Type} {make : Combinator → List α → α → Prop} {items items' : List α} {program : Program}

theorem length (h : ReshapesAll make items program items') :
    items'.length + program.merges = items.length + program.copies ∧ (items ≠ [] → items' ≠ []) := by
  induction h with
  | nil => exact ⟨rfl, id⟩
  | @cons items step mid program items' first rest ih =>
      obtain ⟨balance, nonempty⟩ := ih
      obtain ⟨here, some⟩ := first.length
      refine ⟨?_, fun _ => nonempty some⟩
      rw [Program.merges_cons, Program.copies_cons]
      omega

theorem related {R : α → β → Prop} {make' : Combinator → List β → β → Prop} {others others' : List β}
    (h : ReshapesAll make items program items') (h' : ReshapesAll make' others program others')
    (makes : ∀ {c xs ys x y}, c ≠ .copy → make c xs x → make' c ys y → List.Forall₂ R xs ys → R x y)
    (all : List.Forall₂ R items others) : List.Forall₂ R items' others' := by
  induction h generalizing others with
  | nil =>
      cases h'
      exact all
  | cons first rest ih =>
      cases h' with
      | cons first' rest' => exact ih rest' (first.related first' makes all)

theorem exists_of_countAfter? (total : ∀ c xs, ∃ y, make c xs y) {n : Nat}
    (legal : program.countAfter? items.length = some n) : ∃ items', ReshapesAll make items program items' := by
  induction program generalizing items with
  | nil => exact ⟨items, .nil⟩
  | cons step program ih =>
      obtain ⟨m, first, legal⟩ := Program.countAfter?_cons_eq_some_iff.mp legal
      obtain ⟨mid, reshapes, rfl⟩ := Reshapes.exists_of_countAfter? total first
      obtain ⟨items', rest⟩ := ih legal
      exact ⟨items', .cons reshapes rest⟩

/-- What the steps make is listed in the end beside what was there, and nothing else is if none of them copies. -/
theorem flatMap {γ : Type} (f : α → List γ) (own : Combinator → List γ)
    (makes : ∀ c xs y, make c xs y → f y = own c ++ xs.flatMap f) (h : ReshapesAll make items program items') :
    (program.evaluated.flatMap own ++ items.flatMap f).Subperm (items'.flatMap f) ∧
      (program.copies = 0 → (items'.flatMap f).Perm (program.evaluated.flatMap own ++ items.flatMap f)) := by
  induction h with
  | nil => exact ⟨List.Subperm.refl _, fun _ => .refl _⟩
  | @cons items step mid program items' first rest ih =>
      obtain ⟨listed, exactly⟩ := ih
      rcases first.flatMap f own makes with ⟨copy, stays⟩ | ⟨notCopy, made⟩
      · rw [Program.evaluated_cons_of_copy copy]
        refine ⟨((List.subperm_append_left _).mpr stays).trans listed, fun none => ?_⟩
        rw [Program.copies_cons, if_pos copy] at none
        cases none
      · have moved : (program.evaluated.flatMap own ++ mid.flatMap f).Perm
            ((Program.evaluated (step :: program)).flatMap own ++ items.flatMap f) := by
          rw [Program.evaluated_cons_of_ne_copy notCopy, List.flatMap_cons, List.append_assoc]
          exact (made.append_left _).trans (List.perm_append_comm_assoc ..)
        refine ⟨moved.subperm_right.mp listed, fun none => ?_⟩
        rw [Program.copies_cons, if_neg notCopy] at none
        exact (exactly none).trans moved

end ReshapesAll

theorem State.reshapesAll_of_run {s s' : State} {program : Program} (h : s.run program = .ok s') :
    ReshapesAll (fun c xs y => c.apply xs = .ok y) s program s' := by
  induction program generalizing s with
  | nil =>
      cases h
      exact .nil
  | cons step program ih =>
      obtain ⟨mid, move, h⟩ := State.run_cons_eq_ok_iff.mp h
      exact .cons move (ih h)

namespace Program

/-- A program records itself step by step. -/
abbrev Records (es : List Expr) (program : Program) (es' : List Expr) : Prop :=
  ReshapesAll (fun c args e => e = .call c args) es program es'

/-- Where the leaves come from: operands are gathered in their order. -/
abbrev Gathers (sources : List (List Nat)) (program : Program) (sources' : List (List Nat)) : Prop :=
  ReshapesAll (fun _ parts whole => whole = parts.flatten) sources program sources'

/-- Whatever the inputs are, the leaves of what is rebuilt are those at the given positions. -/
def Reads (program : Program) (n : Nat) (positions : List Nat) : Prop :=
  ∀ inputs : State, inputs.length = n →
    ∃ e, program.rebuild inputs = .ok e ∧ e.leaves.map some = positions.map (inputs[·]?)

variable {program : Program} {inputs s : State} {es es' : List Expr} {e : Expr}

theorem Records.foldlM_eq (h : Records es program es') : program.foldlM Step.record es = .ok es' := by
  induction h with
  | nil => rfl
  | cons first rest ih =>
      rw [List.foldlM_cons, Step.Records.record_eq first]
      exact ih

theorem Records.tallied {n : Nat} (h : Records es program es') (all : ∀ e ∈ es, e.Tallied n) :
    ∀ e ∈ es', e.Tallied (program.evaluated.length + n) := by
  induction h generalizing n with
  | nil => simpa [evaluated] using all
  | @cons es step mid program es' first rest ih =>
      by_cases copy : step.combinator = .copy
      · rw [evaluated_cons_of_copy copy]
        refine ih fun e he => ?_
        rcases first.origin he with old | ⟨notCopy, -⟩
        · exact all e old
        · exact absurd copy notCopy
      · -- What this step makes may be one deeper than what it found, for all of the steps to come.
        rw [evaluated_cons_of_ne_copy copy, List.length_cons, Nat.add_assoc, Nat.add_comm 1 n]
        refine ih fun e he => ?_
        rcases first.origin he with old | ⟨-, args, rfl, arity, from_⟩
        · exact (all e old).mono (Nat.le_succ n)
        · exact Expr.tallied_call copy arity fun e' he' => all e' (from_ e' he')

theorem Records.calls (h : Records (inputs.map .input) program [e]) :
    program.evaluated.Subperm e.calls ∧ (program.copies = 0 → e.calls.Perm program.evaluated) := by
  have makes : ∀ (c : Combinator) (args : List Expr) (e : Expr), e = .call c args →
      e.calls = [c] ++ args.flatMap Expr.calls := by
    rintro c args e rfl
    rw [Expr.calls, Expr.callsList_eq_flatMap]
    rfl
  have start : (inputs.map Expr.input).flatMap Expr.calls = [] := by simp [Expr.calls]
  simpa only [start, List.flatMap_singleton', List.flatMap_singleton, List.append_nil] using
    h.flatMap Expr.calls ([·]) makes

theorem Gathers.sources_of_range {n : Nat} {positions : List Nat}
    (h : Gathers ((List.range n).map ([·])) program [positions]) :
    (List.range n).Subperm positions ∧ (program.copies = 0 → positions.Perm (List.range n)) := by
  have makes : ∀ (_ : Combinator) (parts : List (List Nat)) (whole : List Nat), whole = parts.flatten →
      id whole = [] ++ parts.flatMap id := by
    rintro - parts whole rfl
    rw [List.flatMap_id]
    rfl
  have start : ((List.range n).map ([·])).flatMap id = List.range n := by
    rw [List.flatMap_map]
    exact List.flatMap_singleton' _
  have none : program.evaluated.flatMap (fun _ => ([] : List Nat)) = [] := by simp
  simpa only [start, none, List.flatMap_singleton, List.nil_append, id] using h.flatMap id (fun _ => []) makes

theorem exists_records (nonempty : program ≠ []) (one : program.countAfter? inputs.length = some 1) :
    ∃ e, program.rebuild inputs = .ok e ∧ Records (inputs.map .input) program [e] := by
  have length : (inputs.map Expr.input).length = inputs.length := List.length_map _
  obtain ⟨es, recorded, count, -⟩ := record_of_countAfter? (length.symm ▸ one)
  obtain ⟨es', records⟩ : ∃ es', Records (inputs.map .input) program es' :=
    ReshapesAll.exists_of_countAfter? (fun c args => ⟨.call c args, rfl⟩) (length.symm ▸ one)
  cases recorded.symm.trans records.foldlM_eq
  obtain ⟨e, rfl⟩ := List.length_eq_one_iff.mp count
  obtain ⟨e', built⟩ := (exists_rebuild_iff one).mpr (exists_names_first nonempty one)
  obtain ⟨es', recorded', here, -⟩ := rebuild_eq_ok_iff.mp built
  cases recorded.symm.trans recorded'
  cases here
  exact ⟨e, built, records⟩

theorem leaves_of_gathers {sources : List (List Nat)} (records : Records (inputs.map .input) program es)
    (gathers : Gathers ((List.range inputs.length).map ([·])) program sources) :
    List.Forall₂ (fun e positions => e.leaves.map some = positions.map (inputs[·]?)) es sources := by
  refine records.related gathers ?_ ?_
  · rintro c args parts e whole - rfl rfl operands
    rw [Expr.leaves, Expr.leavesList_eq_flatMap]
    induction operands with
    | nil => rfl
    | cons first rest ih => rw [List.flatMap_cons, List.flatten_cons, List.map_append, List.map_append, first, ih]
  · rw [List.forall₂_map_left_iff, List.forall₂_map_right_iff, List.forall₂_iff_get]
    refine ⟨List.length_range.symm, fun i here _ => ?_⟩
    simp [Expr.leaves]

theorem exists_reads (nonempty : program ≠ []) (one : program.countAfter? inputs.length = some 1) :
    ∃ positions, program.Reads inputs.length positions ∧ (∀ i < inputs.length, i ∈ positions) ∧
      (program.copies = 0 → positions.Perm (List.range inputs.length)) := by
  have length : ((List.range inputs.length).map ([·])).length = inputs.length := by simp
  obtain ⟨sources, gathers⟩ : ∃ sources, Gathers ((List.range inputs.length).map ([·])) program sources :=
    ReshapesAll.exists_of_countAfter? (fun _ parts => ⟨parts.flatten, rfl⟩) (length.symm ▸ one)
  obtain ⟨e, -, records⟩ := exists_records nonempty one
  cases leaves_of_gathers records gathers with
  | @cons _ positions _ _ _ rest =>
      cases rest
      obtain ⟨all, exactly⟩ := gathers.sources_of_range
      refine ⟨positions, ?_, fun i hi => all.subset (List.mem_range.mpr hi), exactly⟩
      -- Gathering looks at no slot, so the places are right for other inputs as well.
      intro others same
      obtain ⟨e', built, records'⟩ : ∃ e', program.rebuild others = .ok e' ∧ Records (others.map .input) program [e'] :=
        exists_records nonempty (same.symm ▸ one)
      cases leaves_of_gathers records' (same.symm ▸ gathers) with
      | cons reads _ => exact ⟨e', built, reads⟩

/-- What an expression holds of the program that it was rebuilt from: every input and every step that is evaluated, no
copy, one leaf more than there are merges, and steps at most one within another. Without copies it holds each step and
the input at each position once. -/
structure Accounts (program : Program) (inputs : State) (e : Expr) : Prop where
  reads : ∀ x ∈ inputs, x ∈ e.leaves
  steps : ∀ step ∈ program, step.combinator ≠ .copy → step.combinator ∈ e.calls
  copies : .copy ∉ e.calls
  leaves : e.leaves.length = e.calls.countP (·.family = .zipWith) + 1
  nesting : e.nesting ≤ program.evaluated.length
  size : program.evaluated.length ≤ e.size
  calls : program.copies = 0 → e.size = program.length ∧ e.calls.Perm program.evaluated
  positions : ∃ positions, program.Reads inputs.length positions ∧ (∀ i < inputs.length, i ∈ positions) ∧
    (program.copies = 0 → positions.Perm (List.range inputs.length))

theorem exists_accounts (nonempty : program ≠ []) (one : program.countAfter? inputs.length = some 1) :
    ∃ e, program.rebuild inputs = .ok e ∧ program.Accounts inputs e := by
  obtain ⟨e, built, records⟩ := exists_records nonempty one
  obtain ⟨positions, reads, all, exactly⟩ := exists_reads nonempty one
  obtain ⟨listed, only⟩ := records.calls
  have tallied : e.Tallied program.evaluated.length :=
    records.tallied (List.forall_mem_map.mpr fun x _ => Expr.tallied_input x) e (List.mem_singleton_self e)
  refine ⟨e, built, ?_, ?_, tallied.copies, tallied.leaves, tallied.nesting, ?_, ?_, positions, reads, all, exactly⟩
  · intro x hx
    obtain ⟨i, hi⟩ := List.getElem?_of_mem hx
    obtain ⟨e', built', leaves⟩ := reads inputs rfl
    cases built.symm.trans built'
    have here : some x ∈ positions.map (inputs[·]?) :=
      List.mem_map.mpr ⟨i, all i (List.getElem?_eq_some_iff.mp hi).1, hi⟩
    rw [← leaves] at here
    simpa using here
  · intro step mem notCopy
    exact listed.subset (mem_evaluated mem notCopy)
  · rw [← e.length_calls]
    exact listed.length_le
  · intro none
    refine ⟨?_, only none⟩
    rw [← e.length_calls, (only none).length_eq, program.length_eq, none, Nat.add_zero]

/-- Slots are added by copies and taken away by merges, and one always remains. Where one alone remains of a program, the
expression that is rebuilt accounts for all inputs and steps. -/
theorem rebuilt_accounts {inputs s : State} {program : Program} (nonempty : inputs ≠ [])
    (ends : inputs.run program = .ok s) :
    s.length + program.merges = inputs.length + program.copies ∧ s ≠ [] ∧
    (program ≠ [] → s.length = 1 → program.merges = inputs.length - 1 + program.copies ∧
      ∃ e, program.rebuild inputs = .ok e ∧ program.Accounts inputs e) := by
  obtain ⟨balance, remains⟩ := (State.reshapesAll_of_run ends).length
  refine ⟨balance, remains nonempty, fun steps one => ⟨?_, ?_⟩⟩
  · have := List.length_pos_iff.mpr nonempty
    omega
  · exact exists_accounts steps (one ▸ countAfter?_of_run ends)

theorem rebuilt_accounts_of_copy :
    let inputs := State.ofInputs [.ofInts [1, 2], .ofInts [5]]
    let program : Program := [⟨.copy, [0]⟩, ⟨.map .add 1, [2]⟩, ⟨.zipWith .mul, [2, 0]⟩, ⟨.zipWith .sub, [1, 0]⟩]
    ∃ e, inputs.run program = .ok [.single (.ofInts [3])] ∧ program.merges = 2 ∧ program.rebuild inputs = .ok e ∧
      program.Accounts inputs e := by
  intro inputs program
  have ends : inputs.run program = .ok [.single (.ofInts [3])] := by rfl
  obtain ⟨-, -, one⟩ := rebuilt_accounts (by decide) ends
  obtain ⟨merges, e, built, accounts⟩ := one (by decide) rfl
  exact ⟨e, ends, merges, built, accounts⟩

end Program

end ListSynth
