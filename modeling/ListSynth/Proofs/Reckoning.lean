import ListSynth.Proofs.Evaluation
import ListSynth.Proofs.Integers
import ListSynth.Proofs.Lists
/-!
Evaluation reckoned in unbounded integers. What a combinator makes of its operands is what exact arithmetic makes of
them, as long as every number that is reckoned on the way is one of 64 bits; the first component at which one is not,
or whose operands are of the wrong kind, decides the error.
-/

namespace ListSynth

/-- A flat list of the given integers. -/
def Value.Lists (v : Value) (xs : List Int) : Prop := ∃ ns : List Int64, v = .ofInts ns ∧ ns.map Int64.toInt = xs

/-- Two lists are the front and the rest of a list that is cut as a number says: no further than the ends. -/
def Cuts (n : Int64) (items front rest : List Value) : Prop :=
  items = front ++ rest ∧ (front.length : Int) = min (max n.toInt 0) items.length

theorem cuts_iff {n : Int64} {items front rest : List Value} : Cuts n items front rest ↔
    front = items.take n.toNatClampNeg ∧ rest = items.drop n.toNatClampNeg := by
  constructor
  · rintro ⟨rfl, count⟩
    have length : (front ++ rest).length = front.length + rest.length := List.length_append
    have place : n.toNatClampNeg = front.length ∨ front.length ≤ n.toNatClampNeg ∧ rest = [] := by
      rw [← List.length_eq_zero_iff, Int64.toNatClampNeg]
      omega
    rcases place with same | ⟨past, rfl⟩
    · rw [same, List.take_left, List.drop_left]
      exact ⟨rfl, rfl⟩
    · rw [List.append_nil, List.take_of_length_le past, List.drop_of_length_le past]
      exact ⟨rfl, rfl⟩
  · rintro ⟨rfl, rfl⟩
    refine ⟨(List.take_append_drop _ items).symm, ?_⟩
    rw [List.length_take, Int64.toNatClampNeg]
    omega

namespace Combinator

/-- The operands that suit a combinator: to take, to drop and to count, any list will do; all else needs integers
throughout. -/
def Accepts (c : Combinator) (v : Value) : Prop :=
  match c with
  | .take _ | .drop _ | .length => ∃ items, v = .list items
  | .map .. | .filter .. | .zipWith _ | .sum | .max | .min | .copy => ∃ ns, v = .ofInts ns

/-- The numbers that are reckoned of the integers of the operands: one for each item or each pair of items, and for
each front part of a list that is summed. -/
def reckoned : Combinator → List (List Int) → List Int
  | .map op n, [xs] => xs.map (op.exact · n.toInt)
  | .zipWith op, [xs, ys] => List.zipWith op.exact xs ys
  | .sum, [xs] => xs.inits.map List.sum
  | _, _ => []

/-- What combinators make of one component of each operand. -/
inductive Makes : Combinator → List Value → Value → Prop
  | map {op : ArithOp} {n : Int64} {v w : Value} {xs : List Int} (list : v.Lists xs)
      (result : w.Lists (xs.map (op.exact · n.toInt))) : Makes (.map op n) [v] w
  | filter {test : Comparison} {n : Int64} {v w : Value} {xs : List Int} (list : v.Lists xs)
      (result : w.Lists (xs.filter (test.compares · n.toInt))) : Makes (.filter test n) [v] w
  | zipWith {op : ArithOp} {v w u : Value} {xs ys : List Int} (left : v.Lists xs) (right : w.Lists ys)
      (result : u.Lists (List.zipWith op.exact xs ys)) : Makes (.zipWith op) [v, w] u
  | take {n : Int64} {items front rest : List Value} (cut : Cuts n items front rest) :
      Makes (.take n) [.list items] (.list front)
  | drop {n : Int64} {items front rest : List Value} (cut : Cuts n items front rest) :
      Makes (.drop n) [.list items] (.list rest)
  | sum {v : Value} {xs : List Int} {m : Int64} (list : v.Lists xs)
      (range : ∀ front, front <+: xs → InRange front.sum) (total : m.toInt = xs.sum) : Makes .sum [v] (.int m)
  | max {v : Value} {xs : List Int} {m : Int64} (list : v.Lists xs) (member : m.toInt ∈ xs)
      (greatest : ∀ x ∈ xs, x ≤ m.toInt) : Makes .max [v] (.int m)
  | min {v : Value} {xs : List Int} {m : Int64} (list : v.Lists xs) (member : m.toInt ∈ xs)
      (least : ∀ x ∈ xs, m.toInt ≤ x) : Makes .min [v] (.int m)
  | length {items : List Value} {m : Int64} (count : items.length < 2 ^ 63 → m.toInt = items.length)
      (wraps : m.toInt = (items.length : Int).bmod (2 ^ 64)) : Makes .length [.list items] (.int m)

/-- Why combinators fail on one component of each operand: the first of them that does not suit, an empty list that has
no extreme, or a number out of range. -/
inductive Fails (c : Combinator) (operands : List Value) : EvalError → Prop
  | mismatch {front rest : List Value} {v : Value} (named : operands = front ++ v :: rest)
      (sound : ∀ u ∈ front, c.Accepts u) (odd : ¬ c.Accepts v) : Fails c operands (.typeMismatch c v)
  | empty (extreme : c = .max ∨ c = .min) (none : operands = [.list []]) : Fails c operands (.emptySequence c)
  | overflow {xss : List (List Int)} {n : Int} (lists : List.Forall₂ Value.Lists operands xss)
      (reckons : n ∈ c.reckoned xss) (out : ¬ InRange n) : Fails c operands (.overflow c)

variable {c : Combinator} {op : ArithOp} {v w u : Value} {e : EvalError}

section Made

theorem onValue_eq_ok_iff : c.onValue v = .ok w ↔ c.Makes [v] w := by
  cases c with
  | map op n =>
      simp only [onValue, bind_eq_ok_iff, integers_eq_ok_iff, Value.ints?_eq_some_iff, inRange_eq_ok_iff,
        Option.map_eq_some_iff, ArithOp.checked, mapM_int64?_eq_some_iff]
      constructor
      · rintro ⟨ns, rfl, ms, result, rfl⟩
        exact .map ⟨ns, rfl, rfl⟩ ⟨ms, rfl, by rw [result, List.map_map]; rfl⟩
      · rintro (⟨⟨ns, rfl, rfl⟩, ⟨ms, rfl, result⟩⟩)
        exact ⟨ns, rfl, ms, by rw [result, List.map_map]; rfl, rfl⟩
  | filter test n =>
      simp only [onValue, bind_eq_ok_iff, integers_eq_ok_iff, Value.ints?_eq_some_iff, pure, Except.pure,
        Except.ok.injEq]
      have same : ∀ ns : List Int64, (ns.filter (test.holds · n)).map Int64.toInt =
          (ns.map Int64.toInt).filter (test.compares · n.toInt) := by
        intro ns
        rw [List.filter_map]
        exact congrArg (List.map Int64.toInt) (List.filter_congr fun a _ => test.holds_eq a n)
      constructor
      · rintro ⟨ns, rfl, rfl⟩
        exact .filter ⟨ns, rfl, rfl⟩ ⟨_, rfl, same ns⟩
      · intro h
        cases h with
        | filter list result =>
            obtain ⟨ns, rfl, rfl⟩ := list
            obtain ⟨ms, rfl, result⟩ := result
            rw [← same] at result
            have kept := List.map_injective_iff.mpr (fun _ _ => Int64.toInt_inj.mp) result
            exact ⟨ns, rfl, congrArg Value.ofInts kept.symm⟩
  | take n =>
      simp only [onValue, bind_eq_ok_iff, items_eq_ok_iff, pure, Except.pure, Except.ok.injEq]
      constructor
      · rintro ⟨items, rfl, rfl⟩
        exact .take (cuts_iff.mpr ⟨rfl, rfl⟩)
      · intro h
        cases h with
        | take cut => exact ⟨_, rfl, congrArg Value.list (cuts_iff.mp cut).1.symm⟩
  | drop n =>
      simp only [onValue, bind_eq_ok_iff, items_eq_ok_iff, pure, Except.pure, Except.ok.injEq]
      constructor
      · rintro ⟨items, rfl, rfl⟩
        exact .drop (cuts_iff.mpr ⟨rfl, rfl⟩)
      · intro h
        cases h with
        | drop cut => exact ⟨_, rfl, congrArg Value.list (cuts_iff.mp cut).2.symm⟩
  | sum =>
      simp only [onValue, bind_eq_ok_iff, integers_eq_ok_iff, Value.ints?_eq_some_iff, inRange_eq_ok_iff,
        Option.map_eq_some_iff, foldlM_checked_eq_some_iff, Int64.toInt_zero, Int.zero_add]
      constructor
      · rintro ⟨ns, rfl, m, ⟨range, total⟩, rfl⟩
        exact .sum ⟨ns, rfl, rfl⟩ range total
      · intro h
        cases h with
        | sum list range total =>
            obtain ⟨ns, rfl, rfl⟩ := list
            exact ⟨ns, rfl, _, ⟨range, total⟩, rfl⟩
  | max =>
      simp only [onValue, bind_eq_ok_iff, integers_eq_ok_iff, Value.ints?_eq_some_iff, picked_eq_ok_iff,
        max?_eq_some_iff_toInt]
      constructor
      · rintro ⟨ns, rfl, m, ⟨member, greatest⟩, rfl⟩
        exact .max ⟨ns, rfl, rfl⟩ member greatest
      · intro h
        cases h with
        | max list member greatest =>
            obtain ⟨ns, rfl, rfl⟩ := list
            exact ⟨ns, rfl, _, ⟨member, greatest⟩, rfl⟩
  | min =>
      simp only [onValue, bind_eq_ok_iff, integers_eq_ok_iff, Value.ints?_eq_some_iff, picked_eq_ok_iff,
        min?_eq_some_iff_toInt]
      constructor
      · rintro ⟨ns, rfl, m, ⟨member, least⟩, rfl⟩
        exact .min ⟨ns, rfl, rfl⟩ member least
      · intro h
        cases h with
        | min list member least =>
            obtain ⟨ns, rfl, rfl⟩ := list
            exact ⟨ns, rfl, _, ⟨member, least⟩, rfl⟩
  | length =>
      simp only [onValue, bind_eq_ok_iff, items_eq_ok_iff, pure, Except.pure, Except.ok.injEq]
      constructor
      · rintro ⟨items, rfl, rfl⟩
        exact .length Int64.toInt_ofNat_of_lt Int64.toInt_ofNat'
      · intro h
        cases h with
        | length count wraps =>
            exact ⟨_, rfl, congrArg Value.int (Int64.toInt_inj.mp (Int64.toInt_ofNat'.trans wraps.symm))⟩
  | zipWith op | copy =>
      constructor
      · intro h
        cases h
      · intro h
        cases h

theorem map_zip_exact (op : ArithOp) (xs ys : List Int64) :
    ((xs.zip ys).map fun p => op.exact p.1.toInt p.2.toInt) =
      List.zipWith op.exact (xs.map Int64.toInt) (ys.map Int64.toInt) := by
  rw [List.zip, List.map_zipWith, List.zipWith_map]

theorem onPair_eq_ok_iff : onPair op v w = .ok u ↔ (zipWith op).Makes [v, w] u := by
  simp only [onPair, bind_eq_ok_iff, integers_eq_ok_iff, Value.ints?_eq_some_iff, inRange_eq_ok_iff,
    Option.map_eq_some_iff, ArithOp.checked, mapM_int64?_eq_some_iff, map_zip_exact]
  constructor
  · rintro ⟨xs, rfl, ys, rfl, zs, result, rfl⟩
    exact .zipWith ⟨xs, rfl, rfl⟩ ⟨ys, rfl, rfl⟩ ⟨zs, rfl, result⟩
  · intro h
    cases h with
    | zipWith left right result =>
        obtain ⟨xs, rfl, rfl⟩ := left
        obtain ⟨ys, rfl, rfl⟩ := right
        obtain ⟨zs, rfl, result⟩ := result
        exact ⟨xs, rfl, ys, rfl, zs, result, rfl⟩

end Made

section Failed

theorem integers_eq_error_iff : c.integers v = .error e ↔ (¬ ∃ ns, v = .ofInts ns) ∧ e = .typeMismatch c v := by
  simp only [← Value.ints?_eq_some_iff]
  unfold integers
  cases v.ints? <;> simp [eq_comm]

theorem items_eq_error_iff : c.items v = .error e ↔ (¬ ∃ items, v = .list items) ∧ e = .typeMismatch c v := by
  cases v <;> simp [Combinator.items, Value.items?, eq_comm]

theorem inRange_eq_error_iff {o : Option Value} : c.inRange o = .error e ↔ o = none ∧ e = .overflow c := by
  cases o <;> simp [inRange, eq_comm]

theorem picked_eq_error_iff {o : Option Int64} : c.picked o = .error e ↔ o = none ∧ e = .emptySequence c := by
  cases o <;> simp [picked, eq_comm]

theorem fails_single_iff : c.Fails [v] e ↔ (¬ c.Accepts v ∧ e = .typeMismatch c v) ∨
    ((c = .max ∨ c = .min) ∧ v = .list [] ∧ e = .emptySequence c) ∨
    ∃ ns, v = .ofInts ns ∧ (∃ n ∈ c.reckoned [ns.map Int64.toInt], ¬ InRange n) ∧ e = .overflow c := by
  constructor
  · intro h
    cases h with
    | @mismatch front rest u named sound odd =>
        cases front with
        | nil =>
            cases named
            exact .inl ⟨odd, rfl⟩
        | cons first front => simp at named
    | empty extreme none =>
        cases none
        exact .inr (.inl ⟨extreme, rfl, rfl⟩)
    | overflow lists reckons out =>
        cases lists with
        | cons list others =>
            cases others
            obtain ⟨ns, rfl, rfl⟩ := list
            exact .inr (.inr ⟨ns, rfl, ⟨_, reckons, out⟩, rfl⟩)
  · rintro (⟨odd, rfl⟩ | ⟨extreme, rfl, rfl⟩ | ⟨ns, rfl, ⟨n, reckons, out⟩, rfl⟩)
    · exact .mismatch (List.nil_append _).symm (List.forall_mem_nil _) odd
    · exact .empty extreme rfl
    · exact .overflow (.cons ⟨ns, rfl, rfl⟩ .nil) reckons out

theorem fails_pair_iff : (zipWith op).Fails [v, w] e ↔
    ((¬ ∃ xs, v = .ofInts xs) ∧ e = .typeMismatch (zipWith op) v) ∨
    ∃ xs, v = .ofInts xs ∧ (((¬ ∃ ys, w = .ofInts ys) ∧ e = .typeMismatch (zipWith op) w) ∨
      ∃ ys, w = .ofInts ys ∧
        (∃ n ∈ List.zipWith op.exact (xs.map Int64.toInt) (ys.map Int64.toInt), ¬ InRange n) ∧
        e = .overflow (zipWith op)) := by
  constructor
  · intro h
    cases h with
    | @mismatch front rest u named sound odd =>
        match front, named, sound with
        | [], named, _ =>
            cases named
            exact .inl ⟨odd, rfl⟩
        | [_], named, sound =>
            cases named
            obtain ⟨xs, list⟩ := sound v List.mem_cons_self
            exact .inr ⟨xs, list, .inl ⟨odd, rfl⟩⟩
        | _ :: _ :: _, named, _ => simp at named
    | empty extreme none => cases none
    | overflow lists reckons out =>
        cases lists with
        | cons left others =>
            cases others with
            | cons right others =>
                cases others
                obtain ⟨xs, rfl, rfl⟩ := left
                obtain ⟨ys, rfl, rfl⟩ := right
                exact .inr ⟨xs, rfl, .inr ⟨ys, rfl, ⟨_, reckons, out⟩, rfl⟩⟩
  · rintro (⟨odd, rfl⟩ | ⟨xs, rfl, ⟨odd, rfl⟩ | ⟨ys, rfl, ⟨n, reckons, out⟩, rfl⟩⟩)
    · exact .mismatch (List.nil_append _).symm (List.forall_mem_nil _) odd
    · exact .mismatch List.singleton_append.symm (List.forall_mem_singleton.mpr ⟨xs, rfl⟩) odd
    · exact .overflow (.cons ⟨xs, rfl, rfl⟩ (.cons ⟨ys, rfl, rfl⟩ .nil)) reckons out

theorem onValue_eq_error_iff (single : c.arity = 1) (evaluated : c ≠ .copy) :
    c.onValue v = .error e ↔ c.Fails [v] e := by
  rw [fails_single_iff]
  cases c with
  | map op n =>
      simp only [onValue, bind_eq_error_iff, integers_eq_error_iff, integers_eq_ok_iff, Value.ints?_eq_some_iff,
        inRange_eq_error_iff, Option.map_eq_none_iff, ArithOp.checked, mapM_int64?_eq_none_iff]
      simp [Accepts, reckoned]
  | filter test n =>
      simp only [onValue, bind_eq_error_iff, integers_eq_error_iff]
      simp [Accepts, reckoned, pure, Except.pure]
  | take n | drop n | length =>
      simp only [onValue, bind_eq_error_iff, items_eq_error_iff]
      simp [Accepts, reckoned, pure, Except.pure]
  | sum =>
      simp only [onValue, bind_eq_error_iff, integers_eq_error_iff, integers_eq_ok_iff, Value.ints?_eq_some_iff,
        inRange_eq_error_iff, Option.map_eq_none_iff, foldlM_checked_eq_none_iff]
      simp [Accepts, reckoned]
  | max | min =>
      simp only [onValue, bind_eq_error_iff, integers_eq_error_iff, integers_eq_ok_iff, Value.ints?_eq_some_iff,
        picked_eq_error_iff]
      simp [Accepts, reckoned, Value.ofInts]
  | zipWith op => cases single
  | copy => exact absurd rfl evaluated

theorem onPair_eq_error_iff : onPair op v w = .error e ↔ (zipWith op).Fails [v, w] e := by
  rw [fails_pair_iff]
  simp only [onPair, bind_eq_error_iff, integers_eq_error_iff, integers_eq_ok_iff, Value.ints?_eq_some_iff,
    inRange_eq_error_iff, Option.map_eq_none_iff, ArithOp.checked, mapM_int64?_eq_none_iff,
    map_zip_exact]

end Failed

section Slots

/-- The components of operand slots, position by position. -/
def rows : List Slot → List (List Value)
  | [x] => x.components.map fun v => [v]
  | [x, y] => (x.components.zip y.components).map fun (v, w) => [v, w]
  | _ => []

/-- What a combinator makes of the components at one position. -/
def onRow : Combinator → List Value → Except EvalError Value
  | .zipWith op, [v, w] => onPair op v w
  | c, [v] => c.onValue v
  | c, row => .error (.arity c c.arity row.length)

/-- The operand slots have as many components as each other. -/
def Aligned (operands : List Slot) : Prop := operands.Pairwise fun x y => x.components.length = y.components.length

/-- What a combinator makes of slots: components are evaluated in order, and the first that fails decides the error. -/
inductive Evaluates (c : Combinator) (operands : List Slot) : Except EvalError Slot → Prop
  | uneven {x y : Slot} (pair : operands = [x, y]) (lengths : x.components.length ≠ y.components.length) :
      Evaluates c operands (.error (.componentMismatch x.components.length y.components.length))
  | failed {front rest : List (List Value)} {row : List Value} {e : EvalError} (aligned : Aligned operands)
      (first : rows operands = front ++ row :: rest) (sound : ∀ earlier ∈ front, ∃ w, c.Makes earlier w)
      (fails : c.Fails row e) : Evaluates c operands (.error e)
  | made {ws : List Value} (aligned : Aligned operands) (each : List.Forall₂ c.Makes (rows operands) ws) :
      Evaluates c operands (.ok ⟨ws⟩)

variable {operands : List Slot} {row : List Value} {x y : Slot}

/-- A combinator has one operand, or it merges two. -/
theorem operand_cases {α : Type} {xs : List α} (count : xs.length = c.arity) :
    (∃ a, xs = [a] ∧ c.arity = 1) ∨ ∃ op a b, c = .zipWith op ∧ xs = [a, b] := by
  cases c with
  | zipWith op =>
      obtain ⟨a, b, rfl⟩ := List.length_eq_two.mp count
      exact .inr ⟨op, a, b, rfl, rfl⟩
  | _ =>
      obtain ⟨a, rfl⟩ := List.length_eq_one_iff.mp count
      exact .inl ⟨a, rfl, rfl⟩

theorem onRow_single (c : Combinator) (v : Value) : c.onRow [v] = c.onValue v := by cases c <;> rfl

theorem onRow_eq_ok_iff (count : row.length = c.arity) : c.onRow row = .ok w ↔ c.Makes row w := by
  rcases operand_cases count with ⟨v, rfl, -⟩ | ⟨op, v, u, rfl, rfl⟩
  · rw [onRow_single]
    exact onValue_eq_ok_iff
  · exact onPair_eq_ok_iff

theorem onRow_eq_error_iff (evaluated : c ≠ .copy) (count : row.length = c.arity) :
    c.onRow row = .error e ↔ c.Fails row e := by
  rcases operand_cases count with ⟨v, rfl, single⟩ | ⟨op, v, u, rfl, rfl⟩
  · rw [onRow_single]
    exact onValue_eq_error_iff single evaluated
  · exact onPair_eq_error_iff

theorem length_of_mem_rows (here : row ∈ rows operands) : row.length = operands.length := by
  match operands, here with
  | [x], here =>
      obtain ⟨v, -, rfl⟩ := List.mem_map.mp here
      rfl
  | [x, y], here =>
      obtain ⟨p, -, rfl⟩ := List.mem_map.mp here
      rfl
  | [], here | _ :: _ :: _ :: _, here => cases here

theorem aligned_pair_iff : Aligned [x, y] ↔ x.components.length = y.components.length := List.pairwise_pair

theorem apply_of_aligned (count : operands.length = c.arity) (aligned : Aligned operands) :
    c.apply operands = ((rows operands).mapM c.onRow).map Slot.mk := by
  rcases operand_cases count with ⟨x, rfl, single⟩ | ⟨op, x, y, rfl, rfl⟩
  · have rows : (rows [x]).mapM c.onRow = x.components.mapM c.onValue := by
      rw [Combinator.rows, List.mapM_map]
      exact mapM_congr fun v _ => onRow_single c v
    rw [rows]
    cases c with
    | zipWith op => cases single
    | _ => rfl
  · have same : x.components.length = y.components.length := aligned_pair_iff.mp aligned
    rw [rows, List.mapM_map, apply, if_pos same]
    rfl

theorem aligned_or_uneven (count : operands.length = c.arity) : Aligned operands ∨
    ∃ op x y, c = .zipWith op ∧ operands = [x, y] ∧ x.components.length ≠ y.components.length := by
  rcases operand_cases count with ⟨x, rfl, -⟩ | ⟨op, x, y, rfl, rfl⟩
  · exact .inl (List.pairwise_singleton _ x)
  · exact (em (Aligned [x, y])).imp_right fun uneven => ⟨op, x, y, rfl, rfl, mt aligned_pair_iff.mpr uneven⟩

/-- Evaluation agrees with unbounded integers: for every combinator but copying, and as many operand slots as it takes,
the result is the one that exact arithmetic gives, or the error of the first component that is at fault. -/
theorem apply_agrees_with_integers {r : Except EvalError Slot} (evaluated : c ≠ .copy)
    (count : operands.length = c.arity) : c.apply operands = r ↔ c.Evaluates operands r := by
  rcases aligned_or_uneven count with aligned | ⟨op, x, y, rfl, rfl, uneven⟩
  · have size : ∀ row ∈ rows operands, row.length = c.arity :=
      fun row here => (length_of_mem_rows here).trans count
    have makes : ∀ row ∈ rows operands, ∀ w, c.onRow row = .ok w ↔ c.Makes row w :=
      fun row here w => onRow_eq_ok_iff (size row here)
    rw [apply_of_aligned count aligned]
    cases r with
    | ok z =>
        rw [map_eq_ok_iff]
        simp only [mapM_eq_ok_iff]
        constructor
        · rintro ⟨ws, each, rfl⟩
          exact .made aligned (forall₂_imp_of_mem each fun row here w => (makes row here w).mp)
        · intro h
          cases h with
          | made _ each => exact ⟨_, forall₂_imp_of_mem each fun row here w => (makes row here w).mpr, rfl⟩
    | error e =>
        rw [map_eq_error_iff, mapM_eq_error_iff_of_mem (fun row here => exists_congr (makes row here))
          fun row here => onRow_eq_error_iff evaluated (size row here)]
        constructor
        · rintro ⟨front, row, rest, first, sound, fails⟩
          exact .failed aligned first sound fails
        · intro h
          cases h with
          | uneven pair lengths =>
              subst pair
              exact absurd (aligned_pair_iff.mp aligned) lengths
          | failed _ first sound fails => exact ⟨_, _, _, first, sound, fails⟩
  · have unaligned : ¬ Aligned [x, y] := mt aligned_pair_iff.mp uneven
    rw [apply, if_neg uneven]
    constructor
    · rintro rfl
      exact .uneven rfl uneven
    · intro h
      cases h with
      | uneven pair _ =>
          cases pair
          rfl
      | failed aligned _ _ _ => exact absurd aligned unaligned
      | made aligned _ => exact absurd aligned unaligned

theorem apply_agrees_with_integers_of_prefix :
    sum.apply [⟨[.ofInts [-3, 4], .ofInts [Int64.maxValue, 1, -1], .bool true]⟩] = .error (.overflow .sum) ∧
    (zipWith .mul).apply [.single (.ofInts [5, -7, 2]), .single (.ofInts [3, 4])] =
      .ok (.single (.ofInts [15, -28])) := by
  constructor
  · refine (apply_agrees_with_integers (by decide) rfl).mpr (.failed (List.pairwise_singleton _ _)
      List.singleton_append.symm (List.forall_mem_singleton.mpr ?_) ?_)
    · have range : ∀ front ∈ [-3, 4].inits, InRange front.sum := by decide
      exact ⟨.int 1, .sum ⟨_, rfl, rfl⟩ (fun front before => range front ((List.mem_inits _ _).mpr before)) rfl⟩
    · exact .overflow (.cons ⟨_, rfl, rfl⟩ .nil) (n := Int64.maxValue.toInt + 1) (by decide) (by decide)
  · refine (apply_agrees_with_integers (by decide) rfl).mpr (.made (aligned_pair_iff.mpr rfl) (.cons ?_ .nil))
    exact .zipWith ⟨_, rfl, rfl⟩ ⟨_, rfl, rfl⟩ ⟨_, rfl, rfl⟩

end Slots

end Combinator

end ListSynth
