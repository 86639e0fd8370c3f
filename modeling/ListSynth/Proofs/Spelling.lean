import ListSynth.Text.Token
import ListSynth.Proofs.Numerals
/-!
How tokens are spelled. A text spells some tokens when it has them one after another, each word up to what ends it, and
blanks anywhere between; reading finds the tokens that a text spells.
-/

namespace ListSynth

/-- What follows in a text ends the word before it. -/
def EndsWord (rest : List Char) : Prop := ∀ c ∈ rest.head?, Lexing.endsWord c = true

inductive Spells : List Char → List Token → Prop
  | nil : Spells [] []
  | blank {c : Char} {cs : List Char} {ts : List Token} (blank : Token.isBlank c = true) (rest : Spells cs ts) :
      Spells (c :: cs) ts
  | mark {c : Char} {cs : List Char} {t : Token} {ts : List Token} (mark : Token.ofMark? c = some t)
      (rest : Spells cs ts) : Spells (c :: cs) (t :: ts)
  | word {chars cs : List Char} {d : Datum} {ts : List Token} (word : Token.ofWord? chars = some d)
      (whole : ∀ c ∈ chars, Lexing.endsWord c = false) (ends : EndsWord cs) (rest : Spells cs ts) :
      Spells (chars ++ cs) (.atom d :: ts)
  /-- A string without escapes. -/
  | string {chars cs : List Char} {ts : List Token} (plain : ∀ c ∈ chars, c ≠ '"' ∧ c ≠ '\\' ∧ ¬ c < ' ')
      (rest : Spells cs ts) :
      Spells ('"' :: (chars ++ '"' :: cs)) (.atom (.string (some (String.ofList chars))) :: ts)

variable {c : Char} {chars cs : List Char} {t : Token} {ts tokens : List Token} {d : Datum}

namespace Lexing

theorem start_of_blank (blank : Token.isBlank c = true) : start tokens c = (tokens, .between) := if_pos blank

theorem start_of_mark (mark : Token.ofMark? c = some t) : start tokens c = (t :: tokens, .between) := by
  unfold Token.ofMark? at mark
  split at mark <;> cases mark <;> rfl

theorem start_of_whole (whole : endsWord c = false) : start tokens c = (tokens, .word [c]) := by
  simp only [endsWord, Bool.or_eq_false_iff, decide_eq_false_iff_not, Option.isSome_eq_false_iff,
    Option.isNone_iff_eq_none] at whole
  obtain ⟨⟨blank, quote⟩, mark⟩ := whole
  simp [start, blank, quote, mark]

/-- A word goes on until something ends it. -/
theorem read_whole (whole : ∀ c ∈ chars, endsWord c = false) (done : List Char) :
    chars.foldlM read (tokens, .word done) = some (tokens, .word (chars.reverse ++ done)) := by
  induction chars generalizing done with
  | nil => rfl
  | cons c chars ih =>
      obtain ⟨first, others⟩ := List.forall_mem_cons.mp whole
      have step : read (tokens, .word done) c = some (tokens, .word (c :: done)) := if_neg (by simp [first])
      rw [List.foldlM_cons, step, List.reverse_cons, List.append_assoc]
      exact ih others (c :: done)

/-- What ends a word is read as if its token had been there before. -/
theorem read_of_endsWord (word : Token.ofWord? chars = some d) (ends : EndsWord cs) :
    (cs.foldlM read (tokens, .word chars.reverse)).bind finish =
      (cs.foldlM read (.atom d :: tokens, .between)).bind finish := by
  cases cs with
  | nil => simp [finish, word]
  | cons c cs =>
      have ended : endsWord c = true := ends c rfl
      rw [List.foldlM_cons, List.foldlM_cons]
      simp [read, ended, word]

theorem read_plain (plain : ∀ c ∈ chars, c ≠ '"' ∧ c ≠ '\\' ∧ ¬ c < ' ') (done : List Char) :
    chars.foldlM read (tokens, .string { chars := done }) =
      some (tokens, .string { chars := chars.reverse ++ done }) := by
  induction chars generalizing done with
  | nil => rfl
  | cons c chars ih =>
      obtain ⟨⟨quote, escape, control⟩, others⟩ := List.forall_mem_cons.mp plain
      have step : read (tokens, .string { chars := done }) c = some (tokens, .string { chars := c :: done }) := by
        simp [read, quote, escape, control, PartialString.push]
      rw [List.foldlM_cons, step, List.reverse_cons, List.append_assoc]
      exact ih others (c :: done)

end Lexing

theorem Token.ne_nil_of_ofWord? (word : ofWord? chars = some d) : chars ≠ [] := by
  rintro rfl
  cases word

/-- Tokens are found as they are spelled, after those before. -/
theorem Spells.read (spells : Spells cs ts) (tokens : List Token) :
    (cs.foldlM Lexing.read (tokens, .between)).bind Lexing.finish = some (tokens.reverse ++ ts) := by
  induction spells generalizing tokens with
  | nil => simp [Lexing.finish]
  | blank blank rest ih =>
      rw [List.foldlM_cons, Lexing.read, Lexing.start_of_blank blank]
      exact ih tokens
  | @mark c cs t ts mark rest ih =>
      rw [List.foldlM_cons, Lexing.read, Lexing.start_of_mark mark]
      simpa using ih (t :: tokens)
  | @word chars cs d ts word whole ends rest ih =>
      obtain ⟨c, more, rfl⟩ := List.exists_cons_of_ne_nil (Token.ne_nil_of_ofWord? word)
      obtain ⟨first, others⟩ := List.forall_mem_cons.mp whole
      have front : (c :: more).foldlM Lexing.read (tokens, .between) = some (tokens, .word (c :: more).reverse) := by
        rw [List.foldlM_cons, Lexing.read, Lexing.start_of_whole first, List.reverse_cons]
        exact Lexing.read_whole others [c]
      rw [List.foldlM_append, front, Option.bind_eq_bind, Option.bind_some, Lexing.read_of_endsWord word ends]
      simpa using ih (.atom d :: tokens)
  | @string chars cs ts plain rest ih =>
      have front : Lexing.read (tokens, .between) '"' = some (tokens, .string {}) := rfl
      have last : Lexing.read (tokens, .string { chars := chars.reverse ++ [] }) '"' =
          some (.atom (.string (some (String.ofList chars))) :: tokens, .between) := by
        simp [Lexing.read, PartialString.text?]
      rw [List.foldlM_cons, front, Option.bind_eq_bind, Option.bind_some, List.foldlM_append,
        Lexing.read_plain plain [], Option.bind_eq_bind, Option.bind_some, List.foldlM_cons, last]
      simpa using ih (.atom (.string (some (String.ofList chars))) :: tokens)

theorem Spells.blanks {blanks : List Char} (blank : ∀ c ∈ blanks, Token.isBlank c = true) (rest : Spells cs ts) :
    Spells (blanks ++ cs) ts := by
  induction blanks with
  | nil => exact rest
  | cons c blanks ih =>
      obtain ⟨first, others⟩ := List.forall_mem_cons.mp blank
      exact .blank first (ih others)

/-- A name and the colon that follows it in a record. -/
theorem Spells.key (name : String) (plain : ∀ c ∈ name.toList, c ≠ '"' ∧ c ≠ '\\' ∧ ¬ c < ' ') (rest : Spells cs ts) :
    Spells ('"' :: (name.toList ++ '"' :: ':' :: cs)) (.atom (.string (some name)) :: .colon :: ts) := by
  have spelled := Spells.string plain (.mark (t := .colon) (c := ':') rfl rest)
  rwa [String.ofList_toList] at spelled

theorem Token.ofText?_of_spells (spells : Spells cs ts) : Token.ofText? cs = some ts := spells.read []

section Words

theorem Lexing.whole_of_isDigit (digit : c.isDigit = true) : endsWord c = false := by
  have other : ∀ a : Char, a.isDigit = false → c ≠ a := by
    rintro a no rfl
    rw [no] at digit
    cases digit
  have mark : Token.ofMark? c = none := by
    unfold Token.ofMark?
    split
    case h_7 => rfl
    all_goals exact absurd rfl (other _ (by decide))
  simp [endsWord, Token.isBlank, mark, other]

/-- A numeral of digits is the number that it is printed from. -/
theorem Token.ofNumeral?_toDigits (negative : Bool) (n : Nat) : ofNumeral? negative (Nat.toDigits 10 n) =
    some (if negative then (if n = 0 then .real else .int (-(n : Int))) else .int n) := by
  have digits : (Nat.toDigits 10 n).takeWhile Char.isDigit = Nat.toDigits 10 n := by
    simpa using Numeral.takeWhile_append (n := n) Numeral.clear_nil
  have others : (Nat.toDigits 10 n).dropWhile Char.isDigit = [] := by
    simpa using Numeral.dropWhile_append (n := n) Numeral.clear_nil
  have whole : isWhole (Nat.toDigits 10 n) = true := by
    have all : isDigits (Nat.toDigits 10 n) = true := by
      simp only [isDigits, Bool.and_eq_true, Bool.not_eq_true', List.isEmpty_eq_false_iff, List.all_eq_true]
      exact ⟨Nat.toDigits_ne_nil, fun c hc => Numeral.isDigit_of_mem hc⟩
    rcases Nat.eq_zero_or_pos n with rfl | pos
    · rfl
    · simp [isWhole, all, Numeral.head_ne_zero pos]
  simp only [ofNumeral?, digits, others, whole, if_true, List.isEmpty_nil, Nat.ofDigitChars_ten_toDigits]

theorem Token.ofWord?_toString (z : Int) : ofWord? (toString z).toList = some (.int z) := by
  rw [Numeral.toList_toString_int]
  split
  · rename_i negative
    have nonzero : z.natAbs ≠ 0 := by omega
    refine (ofNumeral?_toDigits true z.natAbs).trans ?_
    rw [if_pos rfl, if_neg nonzero]
    exact congrArg (fun n => some (Datum.int n)) (by omega)
  · rename_i positive
    obtain ⟨c, cs, digits, digit⟩ := Numeral.exists_digits z.natAbs
    have unsigned : ofWord? (Nat.toDigits 10 z.natAbs) = ofNumeral? false (Nat.toDigits 10 z.natAbs) := by
      rw [digits]
      unfold ofWord?
      split
      case h_5 => rfl
      all_goals
        rename_i same
        obtain ⟨rfl, -⟩ := List.cons.inj same
        exact absurd digit (by decide)
    rw [List.nil_append, unsigned, ofNumeral?_toDigits, if_neg Bool.false_ne_true]
    exact congrArg (fun n => some (Datum.int n)) (by omega)

theorem Lexing.whole_toString (z : Int) : ∀ c ∈ (toString z).toList, endsWord c = false := by
  intro c hc
  rw [Numeral.toList_toString_int, List.mem_append] at hc
  rcases hc with sign | digit
  · split at sign
    · rw [List.mem_singleton.mp sign]
      rfl
    · exact absurd sign List.not_mem_nil
  · exact whole_of_isDigit (Numeral.isDigit_of_mem digit)

theorem Spells.int (z : Int) (ends : EndsWord cs) (rest : Spells cs ts) :
    Spells ((toString z).toList ++ cs) (.atom (.int z) :: ts) :=
  .word (Token.ofWord?_toString z) (Lexing.whole_toString z) ends rest

theorem Spells.bool (b : Bool) (ends : EndsWord cs) (rest : Spells cs ts) :
    Spells ((if b then "true" else "false").toList ++ cs) (.atom (.bool b) :: ts) := by
  have whole : ∀ c ∈ ['t', 'r', 'u', 'e'] ++ ['f', 'a', 'l', 's', 'e'], Lexing.endsWord c = false := by
    simp [Lexing.endsWord, Token.isBlank, Token.ofMark?]
  obtain ⟨truth, falsity⟩ := List.forall_mem_append.mp whole
  cases b with
  | true => exact show Spells (['t', 'r', 'u', 'e'] ++ cs) _ from .word rfl truth ends rest
  | false => exact show Spells (['f', 'a', 'l', 's', 'e'] ++ cs) _ from .word rfl falsity ends rest

end Words

end ListSynth
