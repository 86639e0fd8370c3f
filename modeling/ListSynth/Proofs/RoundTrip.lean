import ListSynth.Text.Decode
import ListSynth.Proofs.Integers
import ListSynth.Proofs.Spelling
import ListSynth.Proofs.Texts
/-!
Values and tasks read back from their texts. A text is read in three passes: what it spells are the tokens of a datum,
which are put together to that datum again, and the datum is that of a value or a task, unless it is nested too deep.
-/

namespace ListSynth

section Tokens

namespace Datum

mutual

/-- The tokens that a datum is written with. -/
def tokens : Datum → List Token
  | .list [] => [.openList, .closeList]
  | .list (d :: ds) => .openList :: (d.tokens ++ itemTokens ds)
  | .record [] => [.openRecord, .closeRecord]
  | .record ((key, d) :: fields) => .openRecord :: .atom (.string key) :: .colon :: (d.tokens ++ fieldTokens fields)
  | d => [.atom d]

/-- The items of a list after the first, and its end. -/
def itemTokens : List Datum → List Token
  | [] => [.closeList]
  | d :: ds => .comma :: (d.tokens ++ itemTokens ds)

/-- The fields of a record after the first, and its end. -/
def fieldTokens : List (Option String × Datum) → List Token
  | [] => [.closeRecord]
  | (key, d) :: fields => .comma :: .atom (.string key) :: .colon :: (d.tokens ++ fieldTokens fields)

end

end Datum

namespace Assembly

variable {t : Token} {stack : List Frame}

theorem close_of_ne (list : t ≠ .closeList) (record : t ≠ .closeRecord) : close t stack = none := by
  unfold close
  split
  · exact absurd rfl list
  · exact absurd rfl record
  · rfl

/-- What begins a datum is not taken for the end of the list that it is the first item of. -/
theorem foldlM_datumOrEnd (d : Datum) (stack : List Frame) (more : List Token) :
    (d.tokens ++ more).foldlM take ⟨stack, .datumOrEnd⟩ = (d.tokens ++ more).foldlM take ⟨stack, .datum⟩ := by
  have first : ∀ {t : Token} (ts : List Token), t ≠ .closeList → t ≠ .closeRecord →
      (t :: ts).foldlM take ⟨stack, .datumOrEnd⟩ = (t :: ts).foldlM take ⟨stack, .datum⟩ := by
    intro t ts list record
    have same : take ⟨stack, .datumOrEnd⟩ t = take ⟨stack, .datum⟩ t := by
      simp [take, close_of_ne list record]
    rw [List.foldlM_cons, List.foldlM_cons, same]
  unfold Datum.tokens
  split <;> exact first _ Token.noConfusion Token.noConfusion

/-- A list may end where it has just begun, and after each of its items. -/
theorem take_closeList (items : List Datum) (stack : List Frame) :
    take ⟨.list items :: stack, .datumOrEnd⟩ .closeList = deliver (.list items.reverse) stack ∧
      take ⟨.list items :: stack, .commaOrEnd⟩ .closeList = deliver (.list items.reverse) stack := by
  simp [take, close, begin, separate]

/-- A record may end where it has just begun, and after each of its fields. -/
theorem take_closeRecord (fields : List (Option String × Datum)) (stack : List Frame) :
    take ⟨.record fields :: stack, .keyOrEnd⟩ .closeRecord = deliver (.record fields.reverse) stack ∧
      take ⟨.record fields :: stack, .commaOrEnd⟩ .closeRecord = deliver (.record fields.reverse) stack := by
  simp [take, close, name, separate]

mutual

/-- A datum that is expected is put together from its tokens and delivered. -/
theorem foldlM_tokens : ∀ (d : Datum) (stack : List Frame) (more : List Token),
    (d.tokens ++ more).foldlM take ⟨stack, .datum⟩ = (deliver d stack).bind (more.foldlM take)
  | .null, _, _ | .bool _, _, _ | .int _, _, _ | .real, _, _ | .string _, _, _ => rfl
  | .list [], stack, more => by
      have opened : ((Datum.list []).tokens ++ more).foldlM take ⟨stack, .datum⟩ =
          (.closeList :: more).foldlM take ⟨.list [] :: stack, .datumOrEnd⟩ := rfl
      rw [opened, List.foldlM_cons, (take_closeList [] stack).1]
      rfl
  | .list (d :: ds), stack, more => by
      have opened : ((Datum.list (d :: ds)).tokens ++ more).foldlM take ⟨stack, .datum⟩ =
          (d.tokens ++ (Datum.itemTokens ds ++ more)).foldlM take ⟨.list [] :: stack, .datumOrEnd⟩ := by
        rw [Datum.tokens, List.cons_append, List.append_assoc]
        rfl
      rw [opened, foldlM_datumOrEnd, foldlM_tokens d]
      exact foldlM_itemTokens ds [d] stack more
  | .record [], stack, more => by
      have opened : ((Datum.record []).tokens ++ more).foldlM take ⟨stack, .datum⟩ =
          (.closeRecord :: more).foldlM take ⟨.record [] :: stack, .keyOrEnd⟩ := by
        rw [Datum.tokens]
        rfl
      rw [opened, List.foldlM_cons, (take_closeRecord [] stack).1]
      rfl
  | .record ((key, d) :: fields), stack, more => by
      have opened : ((Datum.record ((key, d) :: fields)).tokens ++ more).foldlM take ⟨stack, .datum⟩ =
          (d.tokens ++ (Datum.fieldTokens fields ++ more)).foldlM take ⟨.entry [] key :: stack, .datum⟩ := by
        rw [Datum.tokens]
        simp only [List.cons_append, List.append_assoc]
        rfl
      rw [opened, foldlM_tokens d]
      exact foldlM_fieldTokens fields [(key, d)] stack more

theorem foldlM_itemTokens : ∀ (ds done : List Datum) (stack : List Frame) (more : List Token),
    (Datum.itemTokens ds ++ more).foldlM take ⟨.list done :: stack, .commaOrEnd⟩ =
      (deliver (.list (done.reverse ++ ds)) stack).bind (more.foldlM take)
  | [], done, stack, more => by
      rw [Datum.itemTokens, List.cons_append, List.foldlM_cons, (take_closeList done stack).2, List.append_nil]
      rfl
  | d :: ds, done, stack, more => by
      have next : (Datum.itemTokens (d :: ds) ++ more).foldlM take ⟨.list done :: stack, .commaOrEnd⟩ =
          (d.tokens ++ (Datum.itemTokens ds ++ more)).foldlM take ⟨.list done :: stack, .datum⟩ := by
        rw [Datum.itemTokens, List.cons_append, List.append_assoc]
        rfl
      rw [next, foldlM_tokens d]
      refine (foldlM_itemTokens ds (d :: done) stack more).trans ?_
      rw [List.reverse_cons, List.append_assoc, List.singleton_append]

theorem foldlM_fieldTokens : ∀ (fields done : List (Option String × Datum)) (stack : List Frame) (more : List Token),
    (Datum.fieldTokens fields ++ more).foldlM take ⟨.record done :: stack, .commaOrEnd⟩ =
      (deliver (.record (done.reverse ++ fields)) stack).bind (more.foldlM take)
  | [], done, stack, more => by
      rw [Datum.fieldTokens, List.cons_append, List.foldlM_cons, (take_closeRecord done stack).2, List.append_nil]
      rfl
  | (key, d) :: fields, done, stack, more => by
      have next : (Datum.fieldTokens ((key, d) :: fields) ++ more).foldlM take ⟨.record done :: stack, .commaOrEnd⟩ =
          (d.tokens ++ (Datum.fieldTokens fields ++ more)).foldlM take ⟨.entry done key :: stack, .datum⟩ := by
        rw [Datum.fieldTokens]
        simp only [List.cons_append, List.append_assoc]
        rfl
      rw [next, foldlM_tokens d]
      refine (foldlM_fieldTokens fields ((key, d) :: done) stack more).trans ?_
      rw [List.reverse_cons, List.append_assoc, List.singleton_append]

end

end Assembly

theorem Datum.ofTokens?_tokens (d : Datum) : ofTokens? d.tokens = some d := by
  have put := Assembly.foldlM_tokens d [] []
  rw [List.append_nil] at put
  rw [ofTokens?, put]
  rfl

end Tokens

section Values

namespace Value

mutual

/-- The datum that a value is written as. -/
def datum : Value → Datum
  | .bool b => .bool b
  | .int n => .int n.toInt
  | .list items => .list (datums items)

def datums : List Value → List Datum
  | [] => []
  | v :: vs => v.datum :: datums vs

end

theorem datums_eq_map (items : List Value) : datums items = items.map datum := by
  induction items with
  | nil => rfl
  | cons v vs ih => exact congrArg (v.datum :: ·) ih

theorem nestingList_le_iff {items : List Value} {depth : Nat} :
    nestingList items ≤ depth ↔ ∀ v ∈ items, v.nesting ≤ depth := by
  induction items with
  | nil => simp [nestingList]
  | cons v vs ih => rw [nestingList, Nat.max_le, ih, List.forall_mem_cons]

theorem ofDatumList?_datums {items : List Value} {depth : Nat}
    (each : ∀ v ∈ items, ofDatum? depth v.datum = if v.nesting ≤ depth then some v else none) :
    ofDatumList? depth (datums items) = if nestingList items ≤ depth then some items else none := by
  induction items with
  | nil => rfl
  | cons v vs ih =>
      obtain ⟨first, others⟩ := List.forall_mem_cons.mp each
      rw [datums, ofDatumList?, first, ih others, nestingList]
      simp only [Nat.max_le]
      by_cases fits : v.nesting ≤ depth <;> by_cases fit : nestingList vs ≤ depth <;> simp [fits, fit]

/-- A value is read from its datum exactly if it is not nested too deep. -/
theorem ofDatum?_datum (v : Value) (depth : Nat) :
    ofDatum? depth v.datum = if v.nesting ≤ depth then some v else none := by
  induction v using Value.inductionOn generalizing depth with
  | bool b => rfl
  | int n => exact congrArg (Option.map Value.int) (int64?_eq_some_iff.mpr rfl)
  | list items ih =>
      cases depth with
      | zero =>
          rw [if_neg (by rw [nesting]; omega)]
          rfl
      | succ depth =>
          rw [datum, ofDatum?, ofDatumList?_datums fun v hv => ih v hv depth, nesting, Nat.add_comm 1]
          by_cases fit : nestingList items ≤ depth <;> simp [fit]

end Value

end Values

section Texts

variable {α : Type} {text : α → String} {datum : α → Datum} {gap : String} {xs : List α} {cs : List Char}
  {ts : List Token}

/-- The text of a thing spells its datum, in front of whatever ends a word. -/
def Writes (text : α → String) (datum : α → Datum) (x : α) : Prop :=
  ∀ cs ts, EndsWord cs → Spells cs ts → Spells ((text x).toList ++ cs) ((datum x).tokens ++ ts)

theorem Writes.spells {x : α} (writes : Writes text datum x) : Spells (text x).toList (datum x).tokens := by
  have alone := writes [] [] (by simp [EndsWord]) .nil
  rwa [List.append_nil, List.append_nil] at alone

/-- Items are set apart by a comma, which blanks may follow. -/
def Comma (gap : String) : Prop := ∃ blanks, gap.toList = ',' :: blanks ∧ ∀ c ∈ blanks, Token.isBlank c = true

theorem endsWord_trailing (comma : Comma gap) : EndsWord (trailing gap text xs ++ ']' :: cs) := by
  cases xs with
  | nil => simp [EndsWord, trailing_nil, Lexing.endsWord, Token.ofMark?]
  | cons x xs =>
      obtain ⟨blanks, first, -⟩ := comma
      simp [EndsWord, trailing_cons, first, Lexing.endsWord, Token.ofMark?]

theorem spells_trailing (comma : Comma gap) (writes : ∀ x ∈ xs, Writes text datum x) (rest : Spells cs ts) :
    Spells (trailing gap text xs ++ ']' :: cs) (Datum.itemTokens (xs.map datum) ++ ts) := by
  induction xs with
  | nil => exact .mark rfl rest
  | cons x xs ih =>
      obtain ⟨first, others⟩ := List.forall_mem_cons.mp writes
      have ⟨blanks, separator, blank⟩ := comma
      rw [trailing_cons, List.map_cons, Datum.itemTokens, separator, List.append_assoc, List.append_assoc,
        List.cons_append, List.cons_append, List.append_assoc]
      exact .mark rfl ((first _ _ (endsWord_trailing comma) (ih others)).blanks blank)

/-- A list is written with its items, which are set apart and put in brackets. -/
theorem spells_list (comma : Comma gap) (writes : ∀ x ∈ xs, Writes text datum x) (rest : Spells cs ts) :
    Spells ('[' :: ((gap.intercalate (xs.map text)).toList ++ ']' :: cs))
      ((Datum.list (xs.map datum)).tokens ++ ts) := by
  cases xs with
  | nil => exact .mark rfl (.mark rfl rest)
  | cons x xs =>
      obtain ⟨first, others⟩ := List.forall_mem_cons.mp writes
      rw [toList_intercalate_cons, List.map_cons, Datum.tokens, List.append_assoc, List.cons_append, List.append_assoc]
      exact .mark rfl (first _ _ (endsWord_trailing comma) (spells_trailing comma others rest))

theorem Value.writes (comma : Comma gap) (v : Value) : Writes (textWith gap) Value.datum v := by
  induction v using Value.inductionOn with
  | bool b => exact fun cs ts ends rest => .bool b ends rest
  | int n => exact fun cs ts ends rest => .int n.toInt ends rest
  | list items ih =>
      intro cs ts _ rest
      rw [toList_textWith_list, List.cons_append, List.append_assoc, Value.datum, datums_eq_map]
      exact spells_list comma ih rest

theorem Value.writes_text (v : Value) : Writes Value.text Value.datum v :=
  v.writes ⟨[' '], rfl, by simp [Token.isBlank]⟩

theorem Value.writes_compact (v : Value) : Writes Value.compact Value.datum v := v.writes ⟨[], rfl, by simp⟩

theorem Datum.ofText?_of_spells {file : String} {d : Datum} (spells : Spells file.toList d.tokens) :
    ofText? file = some d := by
  rw [ofText?, Token.ofText?_of_spells spells, Option.bind_some, ofTokens?_tokens]

theorem Value.ofText?_of_spells {file : String} {v : Value} (spells : Spells file.toList v.datum.tokens) :
    ofText? file = if v.nesting ≤ maxNesting then some v else none := by
  rw [ofText?, Datum.ofText?_of_spells spells, Option.bind_some, ofDatum?_datum]

end Texts

section Tasks

namespace Task

/-- The datum that a task is written as. -/
def datum (t : Task) : Datum :=
  .record [(some "input", .list (Value.datums t.inputs)), (some "target", t.target.datum)]

/-- The text of a task without blanks. -/
def compact (t : Task) : String :=
  "\x7b\"input\":" ++ (Value.list t.inputs).compact ++ ",\"target\":" ++ t.target.compact ++ "\x7d"

def compactAll (tasks : List Task) : String := "[" ++ ",".intercalate (tasks.map compact) ++ "]"

example : compactAll [⟨[.ofInts [1, -2], .list []], .bool true⟩, ⟨[], .int 3⟩] =
    "[\x7b\"input\":[[1,-2],[]],\"target\":true\x7d,\x7b\"input\":[],\"target\":3\x7d]" := by cbv

/-- No value is nested too deep inside the list of tasks, its task and, for an input, the list of inputs. -/
def Fits (t : Task) : Prop := (∀ v ∈ t.inputs, v.nesting + 3 ≤ maxNesting) ∧ t.target.nesting + 2 ≤ maxNesting

instance (t : Task) : Decidable t.Fits := inferInstanceAs (Decidable (_ ∧ _))

theorem entries?_datum (t : Task) : t.datum.entries? ["input", "target"] =
    some [some (.list (Value.datums t.inputs)), some t.target.datum] := by
  simp [datum, Datum.entries?]

theorem fits_iff {t : Task} : t.Fits ↔ Value.nestingList t.inputs ≤ 124 ∧ t.target.nesting ≤ 125 := by
  unfold Fits maxNesting
  rw [Value.nestingList_le_iff]
  exact and_congr (forall₂_congr fun v _ => Nat.add_le_add_iff_right) Nat.add_le_add_iff_right

theorem ofDatum?_datum (t : Task) : ofDatum? (maxNesting - 1) t.datum = if t.Fits then some t else none := by
  have read : ofDatum? (maxNesting - 1) t.datum = do
      return ⟨← Value.ofDatumList? 124 (Value.datums t.inputs), ← Value.ofDatum? 125 t.target.datum⟩ := by
    unfold ofDatum?
    rw [entries?_datum]
    rfl
  rw [read, Value.ofDatumList?_datums fun v _ => v.ofDatum?_datum 124, t.target.ofDatum?_datum]
  simp only [fits_iff]
  by_cases inputs : Value.nestingList t.inputs ≤ 124 <;> by_cases target : t.target.nesting ≤ 125 <;>
    simp [inputs, target]

theorem toList_compact (t : Task) (cs : List Char) : t.compact.toList ++ cs =
    '\x7b' :: '"' :: ("input".toList ++ '"' :: ':' :: ((Value.list t.inputs).compact.toList ++
      ',' :: '"' :: ("target".toList ++ '"' :: ':' :: (t.target.compact.toList ++ '\x7d' :: cs)))) := by
  simp [compact]

theorem writes (t : Task) : Writes compact datum t := by
  intro cs ts _ rest
  have target := t.target.writes_compact _ _ (by simp [EndsWord, Lexing.endsWord, Token.ofMark?])
    (.mark (t := .closeRecord) (c := '\x7d') rfl rest)
  have inputs := (Value.list t.inputs).writes_compact _ _ (by simp [EndsWord, Lexing.endsWord, Token.ofMark?])
    (.mark (t := .comma) (c := ',') rfl (.key "target" (by simp) target))
  have whole := Spells.mark (t := .openRecord) (c := '\x7b') rfl (.key "input" (by simp) inputs)
  rw [toList_compact]
  simpa [datum, Datum.tokens, Datum.fieldTokens, Value.datum] using whole

theorem spells_compactAll (tasks : List Task) {cs : List Char} {ts : List Token} (rest : Spells cs ts) :
    Spells ((compactAll tasks).toList ++ cs) ((Datum.list (tasks.map datum)).tokens ++ ts) := by
  rw [compactAll, String.toList_append, String.toList_append, List.append_assoc, List.append_assoc]
  exact spells_list ⟨[], rfl, by simp⟩ (fun t _ => t.writes) rest

theorem mapM_ofDatum?_datum (tasks : List Task) : (tasks.map datum).mapM (ofDatum? (maxNesting - 1)) =
    if ∀ t ∈ tasks, t.Fits then some tasks else none := by
  induction tasks with
  | nil => rfl
  | cons t tasks ih =>
      rw [List.map_cons, List.mapM_cons, ofDatum?_datum, ih]
      simp only [List.forall_mem_cons]
      by_cases fits : t.Fits
      · by_cases fit : ∀ t ∈ tasks, t.Fits
        · rw [if_pos fits, if_pos fit, if_pos ⟨fits, fit⟩]
          rfl
        · rw [if_pos fits, if_neg fit, if_neg fun both : t.Fits ∧ _ => fit both.2]
          rfl
      · rw [if_neg fits, if_neg fun both : t.Fits ∧ _ => fits both.1]
        rfl

theorem allOfText?_of_spells {file : String} {tasks : List Task}
    (spells : Spells file.toList (Datum.list (tasks.map datum)).tokens) :
    allOfText? file = if ∀ t ∈ tasks, t.Fits then some tasks else none := by
  rw [allOfText?, Datum.ofText?_of_spells spells]
  exact mapM_ofDatum?_datum tasks

end Task

/-- Values and tasks survive the way through text. The text of a value, with blanks or without, is read as that value if
it is nested in no more lists than are allowed, and rejected otherwise; and whatever text spells a list of tasks, as the
one without blanks does, is read as that list if all their values fit in it, and rejected otherwise. -/
theorem texts_read_back :
    (∀ v : Value, Value.ofText? v.text = if v.nesting ≤ maxNesting then some v else none) ∧
    (∀ v : Value, Value.ofText? v.compact = if v.nesting ≤ maxNesting then some v else none) ∧
    (∀ tasks : List Task, Task.allOfText? (Task.compactAll tasks) =
      if ∀ t ∈ tasks, t.Fits then some tasks else none) ∧
    ∀ (tasks : List Task) (file : String), Spells file.toList (Datum.list (tasks.map Task.datum)).tokens →
      Task.allOfText? file = if ∀ t ∈ tasks, t.Fits then some tasks else none := by
  refine ⟨?_, ?_, ?_, ?_⟩
  · intro v
    exact Value.ofText?_of_spells v.writes_text.spells
  · intro v
    exact Value.ofText?_of_spells v.writes_compact.spells
  · intro tasks
    exact Task.allOfText?_of_spells (by simpa using Task.spells_compactAll tasks .nil)
  · intro tasks file spells
    exact Task.allOfText?_of_spells spells

def Task.two : List Task := [⟨[.ofInts [1, -2], .list []], .bool true⟩, ⟨[], .int Int64.minValue⟩]

theorem texts_read_back_of_two : Task.allOfText? (Task.compactAll Task.two ++ "\n") = some Task.two := by
  have spells := Task.spells_compactAll Task.two (.blank (c := '\n') rfl .nil)
  rw [List.append_nil] at spells
  exact (texts_read_back.2.2.2 _ _ (String.toList_append ▸ spells)).trans (if_pos (by decide))

end Tasks

end ListSynth
