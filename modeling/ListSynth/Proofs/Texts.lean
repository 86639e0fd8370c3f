import ListSynth.Expr
import ListSynth.Step
import ListSynth.Proofs.Numerals
/-!
Texts that are of one thing only. A printed value, slot, expression or step can be told from every other, and where its
text ends can be told from whatever follows; nothing follows but what separates and closes, so no numeral is cut short.
-/

namespace ListSynth

section Telling

variable {α : Type} {text code : α → String} {gap : String} {close : Char} {x y : α} {xs ys : List α}
  {rest rest' : List Char}

/-- The text of a thing is told from every other text, and its end from what follows it. -/
def Tells (text : α → String) (x : α) : Prop :=
  ∀ y rest rest', Clear rest → Clear rest' → (text x).toList ++ rest = (text y).toList ++ rest' →
    x = y ∧ rest = rest'

theorem injective_of_tells (tells : ∀ x, Tells text x) : Function.Injective text := by
  intro x y same
  exact (tells x y [] [] Numeral.clear_nil Numeral.clear_nil (by rw [same])).1

/-- Items with a separator between them can be told apart in front of a closing character. -/
structure Separates (gap : String) (close : Char) : Prop where
  gap : ∃ g gs, gap.toList = g :: gs ∧ g.isDigit = false ∧ g ≠ close
  close : close.isDigit = false

theorem separates_items : Separates ", " ']' := ⟨⟨',', [' '], rfl, rfl, by decide⟩, rfl⟩

theorem separates_operands : Separates ", " ')' := ⟨⟨',', [' '], rfl, rfl, by decide⟩, rfl⟩

theorem separates_components : Separates "; " ')' := ⟨⟨';', [' '], rfl, rfl, by decide⟩, rfl⟩

/-- Items after the first, each with its separator. -/
def trailing (gap : String) (text : α → String) (xs : List α) : List Char :=
  xs.flatMap fun x => gap.toList ++ (text x).toList

theorem trailing_nil : trailing gap text [] = [] := rfl

theorem trailing_cons : trailing gap text (x :: xs) = gap.toList ++ (text x).toList ++ trailing gap text xs := rfl

/-- What writes a list item by item writes its items with the gap between them. -/
theorem eq_intercalate {f : List α → String} (nil : f [] = "") (one : ∀ x, f [x] = text x)
    (more : ∀ x y ys, f (x :: y :: ys) = text x ++ gap ++ f (y :: ys)) (xs : List α) :
    f xs = gap.intercalate (xs.map text) := by
  induction xs with
  | nil => exact nil
  | cons x xs ih =>
      cases xs with
      | nil => simp [one]
      | cons y ys => rw [more, ih, List.map_cons, List.map_cons, List.map_cons, String.intercalate_cons_cons]

theorem toList_intercalate_cons :
    (gap.intercalate ((x :: xs).map text)).toList = (text x).toList ++ trailing gap text xs := by
  induction xs generalizing x with
  | nil => simp [trailing_nil]
  | cons y ys ih =>
      rw [List.map_cons, List.map_cons, String.intercalate_cons_cons, ← List.map_cons, String.toList_append,
        String.toList_append, ih, trailing_cons, List.append_assoc, List.append_assoc]

theorem clear_trailing (separates : Separates gap close) : Clear (trailing gap text xs ++ close :: rest) := by
  cases xs with
  | nil => exact Numeral.clear_cons.mpr separates.close
  | cons x xs =>
      obtain ⟨g, gs, first, clear, -⟩ := separates.gap
      rw [trailing_cons, first]
      exact Numeral.clear_cons.mpr clear

theorem eq_of_trailing (separates : Separates gap close) (tells : ∀ x ∈ xs, Tells text x)
    (same : trailing gap text xs ++ close :: rest = trailing gap text ys ++ close :: rest') :
    xs = ys ∧ rest = rest' := by
  obtain ⟨g, gs, first, -, other⟩ := separates.gap
  induction xs generalizing ys with
  | nil =>
      cases ys with
      | nil => exact ⟨rfl, (List.cons.inj same).2⟩
      | cons y ys =>
          rw [trailing_cons, first] at same
          exact absurd (List.cons.inj same).1.symm other
  | cons x xs ih =>
      cases ys with
      | nil =>
          rw [trailing_cons, first] at same
          exact absurd (List.cons.inj same).1 other
      | cons y ys =>
          obtain ⟨tell, others⟩ := List.forall_mem_cons.mp tells
          simp only [trailing_cons, List.append_assoc, List.append_cancel_left_eq] at same
          obtain ⟨rfl, more⟩ := tell y _ _ (clear_trailing separates) (clear_trailing separates) same
          exact (ih others more).imp_left (congrArg _)

/-- Lists that are separated and closed are told apart if their items are and none begins with the closing character. -/
theorem eq_of_separated (separates : Separates gap close) (tells : ∀ x ∈ xs, Tells text x)
    (opens : ∀ x rest rest', (text x).toList ++ rest ≠ close :: rest')
    (same : (gap.intercalate (xs.map text)).toList ++ close :: rest =
      (gap.intercalate (ys.map text)).toList ++ close :: rest') : xs = ys ∧ rest = rest' := by
  cases xs with
  | nil =>
      cases ys with
      | nil => exact ⟨rfl, (List.cons.inj same).2⟩
      | cons y ys =>
          rw [toList_intercalate_cons, List.append_assoc] at same
          exact absurd same.symm (opens y _ _)
  | cons x xs =>
      cases ys with
      | nil =>
          rw [toList_intercalate_cons, List.append_assoc] at same
          exact absurd same (opens x _ _)
      | cons y ys =>
          obtain ⟨tell, others⟩ := List.forall_mem_cons.mp tells
          rw [toList_intercalate_cons, toList_intercalate_cons, List.append_assoc, List.append_assoc] at same
          obtain ⟨rfl, more⟩ := tell y _ _ (clear_trailing separates) (clear_trailing separates) same
          exact (eq_of_trailing separates others more).imp_left (congrArg _)

/-- No word of a code begins another. -/
def PrefixFree (code : α → String) : Prop := ∀ x y, (code x).toList <+: (code y).toList → x = y

theorem PrefixFree.eq_of_append (free : PrefixFree code)
    (same : (code x).toList ++ rest = (code y).toList ++ rest') : x = y ∧ rest = rest' := by
  have first : (code x).toList <+: (code y).toList ++ rest' := ⟨rest, same⟩
  have equal : x = y := (List.prefix_or_prefix_of_prefix first (List.prefix_append _ rest')).elim (free x y)
    fun front => (free y x front).symm
  subst equal
  exact ⟨rfl, List.append_cancel_left same⟩

/-- A number in front of a closing parenthesis. -/
theorem Numeral.eq_of_argument {m n : Int64}
    (same : (toString m.toInt).toList ++ ')' :: rest = (toString n.toInt).toList ++ ')' :: rest') :
    m = n ∧ rest = rest' := by
  have closes : ∀ rest, Clear (')' :: rest) := fun rest => clear_cons.mpr rfl
  obtain ⟨number, same⟩ := eq_of_toString_append (closes rest) (closes rest') same
  exact ⟨Int64.toInt_inj.mp number, (List.cons.inj same).2⟩

theorem PrefixFree.eq_of_operation {m n : Int64} (free : PrefixFree code)
    (same : (code x).toList ++ ' ' :: ((toString m.toInt).toList ++ ')' :: rest) =
      (code y).toList ++ ' ' :: ((toString n.toInt).toList ++ ')' :: rest')) : x = y ∧ m = n ∧ rest = rest' := by
  obtain ⟨rfl, more⟩ := free.eq_of_append same
  exact ⟨rfl, Numeral.eq_of_argument (List.cons.inj more).2⟩

end Telling

theorem Family.prefixFree_name : PrefixFree name := by
  intro f f'
  cases f <;> cases f' <;> decide

theorem Family.exists_name (f : Family) : ∃ a b cs, f.name.toList = a :: b :: cs ∧ a ∉ ['(', ')', '[', '-'] ∧
    a.isDigit = false ∧ [a, b] ≠ ['t', 'r'] ∧ [a, b] ≠ ['f', 'a'] := by
  cases f <;> exact ⟨_, _, _, String.toList_ofList, by decide, by decide, by decide, by decide⟩

theorem ArithOp.prefixFree_symbol : PrefixFree symbol := by
  intro op op'
  cases op <;> cases op' <;> decide

theorem Comparison.prefixFree_symbol : PrefixFree symbol := by
  intro test test'
  cases test <;> cases test' <;> decide

/-- To hold of every value, what holds of a list has to follow from its items. -/
@[elab_as_elim]
theorem Value.inductionOn {motive : Value → Prop} (v : Value) (bool : ∀ b, motive (.bool b))
    (int : ∀ n, motive (.int n)) (list : ∀ items, (∀ v ∈ items, motive v) → motive (.list items)) : motive v :=
  Value.rec bool int list (fun _ hv => absurd hv List.not_mem_nil)
    (fun _ _ first others => List.forall_mem_cons.mpr ⟨first, others⟩) v

/-- To hold of every expression, what holds of a call has to follow from its operands. -/
@[elab_as_elim]
theorem Expr.inductionOn {motive : Expr → Prop} (e : Expr) (input : ∀ slot, motive (.input slot))
    (call : ∀ c args, (∀ e ∈ args, motive e) → motive (.call c args)) : motive e :=
  Expr.rec input call (fun _ he => absurd he List.not_mem_nil)
    (fun _ _ first others => List.forall_mem_cons.mpr ⟨first, others⟩) e

section Values

variable {gap : String} {close c : Char} {rest rest' : List Char}

namespace Value

theorem itemsWith_eq (gap : String) (items : List Value) :
    itemsWith gap items = gap.intercalate (items.map (textWith gap)) :=
  eq_intercalate rfl (fun _ => rfl) (fun _ _ _ => rfl) items

theorem toList_textWith_list (gap : String) (items : List Value) : (textWith gap (.list items)).toList =
    '[' :: ((gap.intercalate (items.map (textWith gap))).toList ++ [']']) := by
  rw [textWith, itemsWith_eq, String.toList_append, String.toList_append]
  rfl

/-- A text of a value begins with a character by which its kind is known. -/
def Leads : Value → Char → Prop
  | .bool true, c => c = 't'
  | .bool false, c => c = 'f'
  | .int _, c => c = '-' ∨ c.isDigit = true
  | .list _, c => c = '['

variable {v w : Value}

theorem exists_leads (gap : String) (v : Value) : ∃ c cs, (v.textWith gap).toList = c :: cs ∧ v.Leads c := by
  cases v with
  | bool b => cases b <;> exact ⟨_, _, String.toList_ofList, rfl⟩
  | int n =>
      obtain ⟨c, cs, first, sign⟩ := Numeral.exists_toString_int n.toInt
      exact ⟨c, cs, first, sign.imp And.left And.left⟩
  | list items => exact ⟨_, _, toList_textWith_list gap items, rfl⟩

theorem Leads.cases (lead : v.Leads c) (lead' : w.Leads c) : (∃ b, v = .bool b ∧ w = .bool b) ∨
    (∃ m n, v = .int m ∧ w = .int n) ∨ ∃ items items', v = .list items ∧ w = .list items' := by
  rcases v with (_ | _) | n | items <;> rcases w with (_ | _) | m | items' <;> simp_all [Leads]

/-- Texts of values that go on alike are of values of one kind. -/
theorem cases_of_append (same : (v.textWith gap).toList ++ rest = (w.textWith gap).toList ++ rest') :
    (∃ b, v = .bool b ∧ w = .bool b) ∨ (∃ m n, v = .int m ∧ w = .int n) ∨
      ∃ items items', v = .list items ∧ w = .list items' := by
  obtain ⟨c, cs, first, lead⟩ := exists_leads gap v
  obtain ⟨d, ds, first', lead'⟩ := exists_leads gap w
  rw [first, first'] at same
  obtain ⟨rfl, -⟩ := List.cons.inj same
  exact lead.cases lead'

/-- No text of a value begins with a bracket or a parenthesis that closes. -/
theorem not_leads_close (closes : close = ']' ∨ close = ')') : ¬ v.Leads close := by
  rcases closes with rfl | rfl <;> rcases v with (_ | _) | n | items <;> simp [Leads]

theorem textWith_append_ne (gap : String) (v : Value) (other : ¬ v.Leads close) :
    (v.textWith gap).toList ++ rest ≠ close :: rest' := by
  obtain ⟨c, cs, first, lead⟩ := exists_leads gap v
  intro same
  rw [first] at same
  exact other ((List.cons.inj same).1 ▸ lead)

theorem tells (separates : Separates gap ']') (v : Value) : Tells (textWith gap) v := by
  induction v using Value.inductionOn with
  | bool b =>
      intro w rest rest' _ _ same
      obtain ⟨_, kind, rfl⟩ | ⟨_, _, kind, -⟩ | ⟨_, _, kind, -⟩ := cases_of_append same <;> cases kind
      exact ⟨rfl, List.append_cancel_left same⟩
  | int n =>
      intro w rest rest' clear clear' same
      obtain ⟨_, kind, -⟩ | ⟨_, m, kind, rfl⟩ | ⟨_, _, kind, -⟩ := cases_of_append same <;> cases kind
      obtain ⟨number, more⟩ := Numeral.eq_of_toString_append clear clear' same
      exact ⟨congrArg _ (Int64.toInt_inj.mp number), more⟩
  | list items ih =>
      intro w rest rest' _ _ same
      obtain ⟨_, kind, -⟩ | ⟨_, _, kind, -⟩ | ⟨_, items', kind, rfl⟩ := cases_of_append same <;> cases kind
      rw [toList_textWith_list, toList_textWith_list, List.cons_append, List.cons_append, List.append_assoc,
        List.append_assoc] at same
      exact (eq_of_separated separates ih (fun v _ _ => textWith_append_ne gap v (not_leads_close (.inl rfl)))
        (List.cons.inj same).2).imp_left (congrArg _)

theorem tells_text (v : Value) : Tells Value.text v := tells separates_items v

end Value

namespace Slot

/-- A slot is written as its one component, or in parentheses. -/
theorem cases_text (s : Slot) : (∃ v, s = .single v ∧ s.text = v.text) ∨
    s.text.toList = '(' :: (("; ".intercalate (s.components.map Value.text)).toList ++ [')']) := by
  rcases s with ⟨_ | ⟨v, _ | ⟨w, vs⟩⟩⟩
  · exact .inr rfl
  · exact .inl ⟨v, rfl, rfl⟩
  · refine .inr ?_
    rw [text, String.toList_append, String.toList_append]
    rfl

/-- A text of a slot begins as that of its one component does, or with a parenthesis. -/
theorem exists_leads (s : Slot) :
    ∃ c cs, s.text.toList = c :: cs ∧ (c = '(' ∨ ∃ v : Value, s.text = v.text ∧ v.Leads c) := by
  rcases s.cases_text with ⟨v, -, lone⟩ | tuple
  · obtain ⟨c, cs, first, lead⟩ := Value.exists_leads ", " v
    exact ⟨c, cs, (congrArg _ lone).trans first, .inr ⟨v, lone, lead⟩⟩
  · exact ⟨_, _, tuple, .inl rfl⟩

theorem tells (s : Slot) : Tells text s := by
  intro t rest rest' clear clear' same
  have apart : ∀ (v : Value) rest rest', v.text.toList ++ rest ≠ '(' :: rest' := by
    intro v rest rest'
    refine Value.textWith_append_ne ", " v ?_
    rcases v with (_ | _) | n | items <;> simp [Value.Leads]
  rcases s.cases_text with ⟨v, rfl, lone⟩ | tuple <;> rcases t.cases_text with ⟨w, rfl, lone'⟩ | tuple'
  · rw [lone, lone'] at same
    exact (v.tells_text w rest rest' clear clear' same).imp_left (congrArg _)
  · rw [lone, tuple'] at same
    exact absurd same (apart v _ _)
  · rw [tuple, lone'] at same
    exact absurd same.symm (apart w _ _)
  · rw [tuple, tuple', List.cons_append, List.cons_append, List.append_assoc, List.append_assoc] at same
    exact (eq_of_separated separates_components (fun v _ => v.tells_text)
      (fun v _ _ => Value.textWith_append_ne ", " v (Value.not_leads_close (.inr rfl)))
      (List.cons.inj same).2).imp_left (congrArg Slot.mk)

end Slot

end Values

section Programs

variable {rest rest' : List Char}

namespace Combinator

/-- What comes after the name of the family in a text of a combinator and what follows it. -/
def tail (rest : List Char) : Combinator → List Char
  | .map op n => '(' :: (op.symbol.toList ++ ' ' :: ((toString n.toInt).toList ++ ')' :: rest))
  | .filter test n => '(' :: (test.symbol.toList ++ ' ' :: ((toString n.toInt).toList ++ ')' :: rest))
  | .zipWith op => '(' :: (op.symbol.toList ++ ')' :: rest)
  | .take n | .drop n => '(' :: ((toString n.toInt).toList ++ ')' :: rest)
  | _ => rest

theorem text_append (c : Combinator) (rest : List Char) :
    c.text.toList ++ rest = c.family.name.toList ++ c.tail rest := by
  cases c <;> simp [text, tail, family, Family.name]

theorem eq_of_append {c c' : Combinator} (same : c.text.toList ++ rest = c'.text.toList ++ rest') :
    c = c' ∧ rest = rest' := by
  rw [text_append, text_append] at same
  obtain ⟨family, same⟩ := Family.prefixFree_name.eq_of_append same
  cases c with
  | map op n =>
      cases c' <;> cases family
      obtain ⟨rfl, rfl, more⟩ := ArithOp.prefixFree_symbol.eq_of_operation (List.cons.inj same).2
      exact ⟨rfl, more⟩
  | filter test n =>
      cases c' <;> cases family
      obtain ⟨rfl, rfl, more⟩ := Comparison.prefixFree_symbol.eq_of_operation (List.cons.inj same).2
      exact ⟨rfl, more⟩
  | zipWith op =>
      cases c' <;> cases family
      obtain ⟨rfl, more⟩ := ArithOp.prefixFree_symbol.eq_of_append (List.cons.inj same).2
      exact ⟨rfl, (List.cons.inj more).2⟩
  | take n =>
      cases c' <;> cases family
      exact (Numeral.eq_of_argument (List.cons.inj same).2).imp_left (congrArg _)
  | drop n =>
      cases c' <;> cases family
      exact (Numeral.eq_of_argument (List.cons.inj same).2).imp_left (congrArg _)
  | _ =>
      cases c' <;> cases family
      exact ⟨rfl, same⟩

end Combinator

theorem Step.tells (step : Step) : Tells text step := by
  intro other rest rest' _ _ same
  obtain ⟨c, positions⟩ := step
  obtain ⟨c', positions'⟩ := other
  simp only [text, Positions.text, String.toList_append, List.append_assoc] at same
  obtain ⟨rfl, more⟩ := Combinator.eq_of_append same
  have numerals : ∀ n ∈ positions, Tells (toString : Nat → String) n := by
    intro n _ m rest rest' clear clear' same
    rw [Numeral.toList_toString, Numeral.toList_toString] at same
    exact Numeral.eq_of_digits_append clear clear' same
  have opens : ∀ (n : Nat) (rest rest' : List Char), (toString n).toList ++ rest ≠ ']' :: rest' := by
    intro n rest rest' same
    obtain ⟨c, cs, digits, digit⟩ := Numeral.exists_digits n
    rw [Numeral.toList_toString, digits] at same
    obtain ⟨rfl, -⟩ := List.cons.inj same
    exact absurd digit (by decide)
  exact (eq_of_separated separates_items numerals opens
    (List.append_cancel_left (List.append_cancel_left more))).imp_left (congrArg _)

namespace Expr

theorem textList_eq (args : List Expr) : textList args = ", ".intercalate (args.map text) :=
  eq_intercalate rfl (fun _ => rfl) (fun _ _ _ => rfl) args

theorem toList_text_call (c : Combinator) (args : List Expr) : (text (.call c args)).toList =
    c.text.toList ++ '(' :: ((", ".intercalate (args.map text)).toList ++ [')']) := by
  rw [text, textList_eq]
  simp

/-- No slot is written as a call is: a family whose name begins like a truth value goes on in another way. -/
theorem slot_append_ne (slot : Slot) (c : Combinator) (rest rest' : List Char) :
    slot.text.toList ++ rest ≠ c.text.toList ++ rest' := by
  obtain ⟨a, b, name, word, marks, digits, truth, falsity⟩ := c.family.exists_name
  obtain ⟨d, cs, first, lead⟩ := slot.exists_leads
  intro same
  rw [Combinator.text_append, word] at same
  have heads : d = a := by
    rw [first] at same
    exact (List.cons.inj same).1
  subst heads
  rcases lead with rfl | ⟨v, lone, lead⟩
  · exact marks (by decide)
  · rcases v with (_ | _) | n | items
    · rw [lone] at same
      exact falsity (congrArg (List.take 2) same).symm
    · rw [lone] at same
      exact truth (congrArg (List.take 2) same).symm
    · rcases lead with rfl | digit
      · exact marks (by decide)
      · rw [digits] at digit
        cases digit
    · cases lead
      exact marks (by decide)

theorem text_append_ne (e : Expr) (rest rest' : List Char) : e.text.toList ++ rest ≠ ')' :: rest' := by
  intro same
  cases e with
  | input slot =>
      obtain ⟨c, cs, first, lead⟩ := slot.exists_leads
      rw [text, first] at same
      obtain ⟨rfl, -⟩ := List.cons.inj same
      rcases lead with other | ⟨v, -, lead⟩
      · cases other
      · exact Value.not_leads_close (.inr rfl) lead
  | call c args =>
      obtain ⟨a, b, name, word, marks, -⟩ := c.family.exists_name
      rw [toList_text_call, List.append_assoc, Combinator.text_append, word] at same
      obtain ⟨rfl, -⟩ := List.cons.inj same
      exact marks (by decide)

theorem tells (e : Expr) : Tells text e := by
  induction e using Expr.inductionOn with
  | input slot =>
      intro f rest rest' clear clear' same
      cases f with
      | input slot' => exact (slot.tells slot' rest rest' clear clear' same).imp_left (congrArg _)
      | call c args =>
          rw [toList_text_call, List.append_assoc] at same
          exact absurd same (slot_append_ne slot c _ _)
  | call c args ih =>
      intro f rest rest' clear clear' same
      cases f with
      | input slot =>
          rw [toList_text_call, List.append_assoc] at same
          exact absurd same.symm (slot_append_ne slot c _ _)
      | call c' args' =>
          rw [toList_text_call, toList_text_call, List.append_assoc, List.append_assoc, List.cons_append,
            List.cons_append, List.append_assoc, List.append_assoc] at same
          obtain ⟨rfl, more⟩ := Combinator.eq_of_append same
          exact (eq_of_separated separates_operands ih text_append_ne (List.cons.inj more).2).imp_left (congrArg _)

end Expr

/-- Printed programs are unambiguous: texts that are equal are texts of the same expression, the same step, the same
slot or the same value, with any numbers, any number of operands and components, and nested to any depth. -/
theorem texts_injective : Function.Injective Expr.text ∧ Function.Injective Step.text ∧
    Function.Injective Slot.text ∧ Function.Injective Value.text :=
  ⟨injective_of_tells Expr.tells, injective_of_tells Step.tells, injective_of_tells Slot.tells,
    injective_of_tells Value.tells_text⟩

end Programs

end ListSynth
