import ListSynth.Proofs.Transition
/-!
Operands in either order. A commutative operator makes the same state of two slots whichever is named first, and where
it fails, it fails for the same kind of reason.
-/

namespace ListSynth

/-- The kinds of errors, whatever they were found at. -/
inductive EvalError.Kind where
  | typeMismatch
  | emptySequence
  | overflow
  | arity
  | slotOutOfRange
  | componentMismatch
  | notEvaluable
  deriving DecidableEq, Repr

def EvalError.kind : EvalError → EvalError.Kind
  | .typeMismatch .. => .typeMismatch
  | .emptySequence _ => .emptySequence
  | .overflow _ => .overflow
  | .arity .. => .arity
  | .slotOutOfRange .. => .slotOutOfRange
  | .componentMismatch .. => .componentMismatch
  | .notEvaluable _ => .notEvaluable

namespace Combinator

variable {c : Combinator} {op : ArithOp} {v w : Value} {e : EvalError}

theorem checked_comm (comm : op.isCommutative = true) (a b : Int64) : op.checked a b = op.checked b a := by
  cases op with
  | add => simp only [ArithOp.checked, ArithOp.exact, Int.add_comm]
  | sub => cases comm
  | mul => simp only [ArithOp.checked, ArithOp.exact, Int.mul_comm]

theorem kind_of_integers (h : c.integers v = .error e) : e.kind = .typeMismatch := by
  unfold integers at h
  split at h
  · cases h
  · cases h
    rfl

/-- Both components are read before any items are combined, so a bad one is found in either order. -/
theorem onPair_swap (comm : op.isCommutative = true) (v w : Value) :
    (onPair op w v).mapError EvalError.kind = (onPair op v w).mapError EvalError.kind := by
  unfold onPair
  cases left : (zipWith op).integers v with
  | error e =>
      cases right : (zipWith op).integers w with
      | error e' => exact congrArg Except.error ((kind_of_integers right).trans (kind_of_integers left).symm)
      | ok ys => rfl
  | ok xs =>
      cases right : (zipWith op).integers w with
      | error e => rfl
      | ok ys =>
          have swapped : (fun p : Int64 × Int64 => op.checked p.1 p.2) ∘ Prod.swap =
              fun p => op.checked p.1 p.2 := by
            funext p
            exact checked_comm comm p.2 p.1
          have pairs : (ys.zip xs).mapM (fun p => op.checked p.1 p.2) =
              (xs.zip ys).mapM fun p => op.checked p.1 p.2 := by
            rw [← List.zip_swap xs ys, List.mapM_map, swapped]
          exact congrArg (fun o => ((zipWith op).inRange (o.map .ofInts)).mapError EvalError.kind) pairs

theorem apply_swap (comm : op.isCommutative = true) (x y : Slot) :
    ((zipWith op).apply [y, x]).mapError EvalError.kind = ((zipWith op).apply [x, y]).mapError EvalError.kind := by
  by_cases same : x.components.length = y.components.length
  · simp only [apply, if_pos same, if_pos same.symm]
    rw [← List.zip_swap x.components y.components, List.mapM_map]
    apply mapError_bind_congr
    · apply mapError_mapM_congr
      intro p
      exact onPair_swap comm p.1 p.2
    · intro zs
      rfl
  · simp only [apply, if_neg same, if_neg (Ne.symm same)]
    rfl

end Combinator

namespace State

variable {s : State} {op : ArithOp}

theorem fault?_swap {n a b : Nat} :
    Positions.fault? n [] [b, a] = none ↔ Positions.fault? n [] [a, b] = none := by
  have perm : [b, a].Perm [a, b] := .swap a b []
  rw [Positions.fault?_nil_eq_none_iff, Positions.fault?_nil_eq_none_iff, perm.nodup_iff]
  simp only [perm.mem_iff]

/-- Which of two slots is named first makes no difference to a commutative operator: where it succeeds, the result
takes the place of the first in the tuple. -/
theorem after_swap (comm : op.isCommutative = true) (s : State) (a b : Nat) :
    (s.after ⟨.zipWith op, [b, a]⟩).mapError EvalError.kind =
      (s.after ⟨.zipWith op, [a, b]⟩).mapError EvalError.kind := by
  cases fault : Positions.fault? s.length [] [a, b] with
  | some i =>
      obtain ⟨j, other⟩ : ∃ j, Positions.fault? s.length [] [b, a] = some j := by
        rw [← Option.ne_none_iff_exists', ne_eq, fault?_swap, fault]
        exact Option.some_ne_none i
      rw [after_of_fault other, after_of_fault fault]
      rfl
  | none =>
      have other := fault?_swap.mpr fault
      obtain ⟨range, distinct⟩ := Positions.fault?_nil_eq_none_iff.mp fault
      have apart : a ≠ b := by simpa using distinct
      have left := List.getElem?_eq_getElem (range a (by simp))
      have right := List.getElem?_eq_getElem (range b (by simp))
      have fused : Positions.fuse s [b, a] = Positions.fuse s [a, b] := by
        funext result
        rw [Positions.fuse_pair s apart, Positions.fuse_pair s apart.symm, Nat.min_comm, Nat.max_comm]
      rw [after_of_ne_copy (by simp) fault, after_of_ne_copy (by simp) other, fused]
      apply mapError_map_congr
      simpa [left, right] using Combinator.apply_swap comm _ _

theorem after_swap_eq_ok_iff {a b : Nat} {s' : State} (comm : op.isCommutative = true) :
    s.after ⟨.zipWith op, [a, b]⟩ = .ok s' ↔ s.after ⟨.zipWith op, [b, a]⟩ = .ok s' := by
  rw [← mapError_eq_ok_iff, ← after_swap comm, mapError_eq_ok_iff]

theorem kind_eq_of_swap {a b : Nat} {e e' : EvalError} (comm : op.isCommutative = true)
    (here : s.after ⟨.zipWith op, [a, b]⟩ = .error e) (there : s.after ⟨.zipWith op, [b, a]⟩ = .error e') :
    e.kind = e'.kind := by
  have swapped := after_swap comm s a b
  rw [here, there] at swapped
  exact (Except.error.inj swapped).symm

end State

end ListSynth
