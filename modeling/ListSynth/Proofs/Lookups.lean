import Mathlib.Data.List.Lex
import Mathlib.Data.List.Nodup
import Mathlib.Tactic.MkIffOfInductiveProp
import ListSynth.Proofs.Registry
/-!
Look-ups and the registry. Alphabets make a grammar when nothing in them is listed twice and nothing is missing that a
listed family draws from. What the grammar registers is what it can look up, and it is registered in the order of the
places where it is found.
-/

namespace ListSynth

section Listed

variable {α : Type} [DecidableEq α] {l : List α} {a b : α}

theorem exists_idxOf?_iff : (∃ i, l.idxOf? a = some i) ↔ a ∈ l := by
  rw [← Option.isSome_iff_exists, List.isSome_idxOf?]

theorem eq_of_idxOf? {i : Nat} (left : l.idxOf? a = some i) (right : l.idxOf? b = some i) : a = b := by
  obtain ⟨_, here, -⟩ := List.idxOf?_eq_some_iff.mp left
  obtain ⟨_, there, -⟩ := List.idxOf?_eq_some_iff.mp right
  exact here.symm.trans there

/-- Both are listed, the one earlier than the other. -/
def ListedBefore (l : List α) (a b : α) : Prop := ∃ i j, l.idxOf? a = some i ∧ l.idxOf? b = some j ∧ i < j

theorem pairwise_listedBefore (distinct : l.Nodup) : l.Pairwise (ListedBefore l) := by
  have place : ∀ i (hi : i < l.length), l.idxOf? l[i] = some i := by
    intro i hi
    refine List.idxOf?_eq_some_iff.mpr ⟨hi, rfl, ?_⟩
    intro j lt same
    exact Nat.ne_of_lt lt ((List.Nodup.getElem_inj_iff distinct).mp same)
  apply List.pairwise_iff_getElem.mpr
  intro i j hi hj lt
  exact ⟨i, j, place i hi, place j hj, lt⟩

theorem ListedBefore.lex_append (before : ListedBefore l a b) (xs ys : List Nat) :
    List.Lex (· < ·) ((l.idxOf? a).toList ++ xs) ((l.idxOf? b).toList ++ ys) := by
  obtain ⟨i, j, hi, hj, lt⟩ := before
  rw [hi, hj]
  exact .rel lt

theorem ListedBefore.lex (before : ListedBefore l a b) :
    List.Lex (· < ·) (l.idxOf? a).toList (l.idxOf? b).toList := by
  simpa using before.lex_append [] []

end Listed

namespace Family

/-- The families whose members have an operator. -/
def withOperator : List Family := [.map, .filter, .zipWith]

/-- The families whose members have a number. -/
def withNumber : List Family := [.map, .filter, .take, .drop]

end Family

namespace Alphabets

variable {a : Alphabets} {f : Family}

/-- A family that is listed has members. -/
theorem Valid.exists_member (valid : a.Valid) (listed : f ∈ a.families) : ∃ c, c ∈ a.members f := by
  have some_of : ∀ {α : Type} {l : List α}, l ≠ [] → ∃ x, x ∈ l := fun ne => List.exists_mem_of_ne_nil _ ne
  cases f with
  | map =>
      obtain ⟨op, hop⟩ := some_of (valid.arithOps (.inl listed))
      obtain ⟨n, hn⟩ := some_of (valid.mapNumbers listed)
      exact ⟨.map op n, mem_members_iff.mpr ⟨rfl, hop, hn⟩⟩
  | filter =>
      obtain ⟨test, htest⟩ := some_of (valid.comparisons listed)
      obtain ⟨n, hn⟩ := some_of (valid.filterNumbers listed)
      exact ⟨.filter test n, mem_members_iff.mpr ⟨rfl, htest, hn⟩⟩
  | zipWith =>
      obtain ⟨op, hop⟩ := some_of (valid.arithOps (.inr listed))
      exact ⟨.zipWith op, mem_members_iff.mpr ⟨rfl, hop⟩⟩
  | take =>
      obtain ⟨n, hn⟩ := some_of (valid.takeDropNumbers (.inl listed))
      exact ⟨.take n, mem_members_iff.mpr ⟨rfl, hn⟩⟩
  | drop =>
      obtain ⟨n, hn⟩ := some_of (valid.takeDropNumbers (.inr listed))
      exact ⟨.drop n, mem_members_iff.mpr ⟨rfl, hn⟩⟩
  | sum | max | min | length | copy => exact ⟨_, List.mem_singleton_self _⟩

theorem Valid.permuted {families : List Family} (valid : a.Valid) (perm : families.Perm a.families) :
    Valid { a with families } := by
  have listed : ∀ {f : Family}, f ∈ families ↔ f ∈ a.families := perm.mem_iff
  exact
    { unlisted := fun h => valid.unlisted (listed.mp h)
      distinct := { valid.distinct with families := perm.nodup_iff.mpr valid.distinct.families }
      arithOps := fun h => valid.arithOps (h.imp listed.mp listed.mp)
      mapNumbers := fun h => valid.mapNumbers (listed.mp h)
      comparisons := fun h => valid.comparisons (listed.mp h)
      filterNumbers := fun h => valid.filterNumbers (listed.mp h)
      takeDropNumbers := fun h => valid.takeDropNumbers (h.imp listed.mp listed.mp)
      indexSlots := valid.indexSlots }

end Alphabets

namespace Grammar

variable {a : Alphabets} {g : Grammar} {c d : Combinator}

theorem valid (g : Grammar) : g.alphabets.Valid := Alphabets.fault?_eq_none_iff.mp g.faultless

theorem ofAlphabets_eq_ok_iff : ofAlphabets a = .ok g ↔ g.alphabets = a := by
  constructor
  · intro made
    unfold ofAlphabets at made
    split at made
    · cases made
      rfl
    · cases made
  · rintro rfl
    unfold ofAlphabets
    split
    · rfl
    · rename_i e fault
      cases g.faultless.symm.trans fault

theorem exists_ofAlphabets_iff : (∃ g, ofAlphabets a = .ok g) ↔ a.Valid := by
  simp only [ofAlphabets_eq_ok_iff]
  constructor
  · rintro ⟨g, rfl⟩
    exact g.valid
  · intro valid
    exact ⟨⟨a, Alphabets.fault?_eq_none_iff.mpr valid⟩, rfl⟩

section Places

/-- The place of a combinator's operator in its alphabet. -/
def operatorIndex? (g : Grammar) : Combinator → Option Nat
  | .map op _ | .zipWith op => g.arithIndex? op
  | .filter test _ => g.comparisonIndex? test
  | _ => none

/-- The place of a combinator's number in its alphabet. -/
def numberIndex? (g : Grammar) : Combinator → Option Nat
  | .map _ n => g.mapNumberIndex? n
  | .filter _ n => g.filterNumberIndex? n
  | .take n | .drop n => g.takeDropNumberIndex? n
  | _ => none

/-- The places of a combinator's family, operator and number. -/
def indices (g : Grammar) (c : Combinator) : Option Nat × Option Nat × Option Nat :=
  (g.familyIndex? c.family, g.operatorIndex? c, g.numberIndex? c)

/-- A combinator is found when its family has a place, and so have its operator and its number where it has them. -/
@[mk_iff]
structure Finds (g : Grammar) (c : Combinator) : Prop where
  family : ∃ i, g.familyIndex? c.family = some i
  operator : c.family ∈ Family.withOperator → ∃ i, g.operatorIndex? c = some i
  number : c.family ∈ Family.withNumber → ∃ i, g.numberIndex? c = some i

theorem finds_letters :
    ((c.family ∈ Family.withOperator → ∃ i, g.operatorIndex? c = some i) ∧
      (c.family ∈ Family.withNumber → ∃ i, g.numberIndex? c = some i)) ↔ c.Spelled g.alphabets := by
  cases c <;>
    simp [Combinator.family, Combinator.Spelled, Family.withOperator, Family.withNumber, operatorIndex?, numberIndex?,
      arithIndex?, comparisonIndex?, mapNumberIndex?, filterNumberIndex?, takeDropNumberIndex?, exists_idxOf?_iff]

/-- What is registered is what is found. -/
theorem mem_combinators_iff_finds : c ∈ g.combinators ↔ g.Finds c := by
  rw [mem_combinators_iff, finds_iff, finds_letters, familyIndex?, exists_idxOf?_iff]

end Places

section Order

/-- What a registry goes by: the families in library order with copying after them, then operators and then numbers, each
in the order of its alphabet. -/
def key (g : Grammar) (c : Combinator) : List Nat :=
  Family.library.idxOf c.family :: ((g.operatorIndex? c).toList ++ (g.numberIndex? c).toList)

/-- Keys are compared from the family on. -/
def Precedes (g : Grammar) (c d : Combinator) : Prop := List.Lex (· < ·) (g.key c) (g.key d)

theorem ordered_families (g : Grammar) :
    g.families.Pairwise fun f f' => Family.library.idxOf f < Family.library.idxOf f' := by
  have library : Family.library.Pairwise fun f f' => Family.library.idxOf f < Family.library.idxOf f' := by decide
  have last : ∀ f ∈ Family.library, Family.library.idxOf f < Family.library.idxOf .copy := by decide
  refine List.pairwise_append.mpr ⟨List.Pairwise.filter _ library, List.pairwise_singleton _ _, ?_⟩
  intro f hf f' hc
  rw [List.mem_singleton.mp hc]
  exact last f (List.mem_of_mem_filter hf)

theorem ordered_members (g : Grammar) (f : Family) : (g.alphabets.members f).Pairwise g.Precedes := by
  have distinct := g.valid.distinct
  cases f with
  | map =>
      refine pairwise_rows (f := Combinator.map) (pairwise_listedBefore distinct.arithOps)
        (fun _ _ => pairwise_listedBefore distinct.mapNumbers) ?_ ?_
      · intro op op' n n' before
        exact .cons (before.lex_append _ _)
      · intro op n n' before
        exact .cons (List.Lex.append_left _ before.lex _)
  | filter =>
      refine pairwise_rows (f := Combinator.filter) (pairwise_listedBefore distinct.comparisons)
        (fun _ _ => pairwise_listedBefore distinct.filterNumbers) ?_ ?_
      · intro test test' n n' before
        exact .cons (before.lex_append _ _)
      · intro test n n' before
        exact .cons (List.Lex.append_left _ before.lex _)
  | zipWith =>
      refine List.pairwise_map.mpr ((pairwise_listedBefore distinct.arithOps).imp ?_)
      intro op op' before
      exact .cons (before.lex_append [] [])
  | take | drop =>
      refine List.pairwise_map.mpr ((pairwise_listedBefore distinct.takeDropNumbers).imp ?_)
      intro n n' before
      exact .cons before.lex
  | sum | max | min | length | copy => exact List.pairwise_singleton _ _

theorem ordered_combinators (g : Grammar) : g.combinators.Pairwise g.Precedes := by
  apply List.pairwise_flatMap.mpr
  refine ⟨fun f _ => g.ordered_members f, g.ordered_families.imp ?_⟩
  intro f f' lt c hc d hd
  obtain ⟨rfl, -⟩ := Alphabets.mem_members_iff.mp hc
  obtain ⟨rfl, -⟩ := Alphabets.mem_members_iff.mp hd
  exact .rel lt

/-- Combinators of one key are one, for else the one would go before the other. -/
theorem eq_of_key (hc : c ∈ g.combinators) (hd : d ∈ g.combinators) (same : g.key c = g.key d) : c = d := by
  have distinct : (g.combinators.map g.key).Nodup := by
    refine List.pairwise_map.mpr (g.ordered_combinators.imp ?_)
    intro c d precedes same
    rw [Precedes, same] at precedes
    exact List.lex_irrefl Nat.lt_irrefl _ precedes
  exact List.inj_on_of_nodup_map distinct hc hd same

theorem eq_of_indices (hc : c ∈ g.combinators) (hd : d ∈ g.combinators) (same : g.indices c = g.indices d) : c = d := by
  simp only [indices, Prod.mk.injEq] at same
  obtain ⟨families, operators, numbers⟩ := same
  obtain ⟨i, found⟩ := (mem_combinators_iff_finds.mp hc).family
  have family : c.family = d.family := eq_of_idxOf? found (families.symm.trans found)
  exact eq_of_key hc hd (by rw [key, key, family, operators, numbers])

theorem last_combinator (g : Grammar) : g.combinators.getLast? = some .copy := by
  simp [combinators, families, Alphabets.members]

end Order

theorem exists_registered {f : Family} (used : f ∈ g.families) : ∃ c ∈ g.combinators, c.family = f := by
  have member : ∃ c, c ∈ g.alphabets.members f := by
    rcases List.mem_append.mp used with listed | copy
    · exact g.valid.exists_member (by simpa using List.of_mem_filter listed)
    · rw [List.mem_singleton.mp copy]
      exact ⟨.copy, List.mem_singleton_self _⟩
  obtain ⟨c, hc⟩ := member
  exact ⟨c, List.mem_flatMap.mpr ⟨f, used, hc⟩, (Alphabets.mem_members_iff.mp hc).1⟩

/-- The order in which families are listed makes no difference to what is registered. -/
theorem exists_permuted {families : List Family} (perm : families.Perm g.alphabets.families) :
    ∃ g', ofAlphabets { g.alphabets with families } = .ok g' ∧ g'.combinators = g.combinators ∧
      g'.families = g.families := by
  obtain ⟨g', made⟩ := exists_ofAlphabets_iff.mpr (g.valid.permuted perm)
  have alphabets := ofAlphabets_eq_ok_iff.mp made
  have used : g'.families = g.families := by
    simp only [Grammar.families, alphabets, perm.mem_iff]
  have members : g'.alphabets.members = g.alphabets.members := by
    funext f
    rw [alphabets]
    cases f <;> rfl
  exact ⟨g', made, by rw [combinators, used, members, combinators], used⟩

/-- Alphabets make a grammar exactly when they are valid. What the grammar registers is then what it finds: each
combinator once, no two at the same places, all families in use, in the order of the places and copying last. The order
in which the families are listed makes no difference. -/
theorem registry_agrees_with_lookups (a : Alphabets) :
    ((∃ g, ofAlphabets a = .ok g) ↔ a.Valid) ∧
    ∀ g, ofAlphabets a = .ok g →
      g.alphabets = a ∧
      (∀ c, c ∈ g.combinators ↔ g.Finds c) ∧
      g.combinators.Nodup ∧
      (∀ c ∈ g.combinators, ∀ d ∈ g.combinators, g.indices c = g.indices d → c = d) ∧
      (∀ f ∈ g.families, ∃ c ∈ g.combinators, c.family = f) ∧
      g.combinators.Pairwise g.Precedes ∧ g.combinators.getLast? = some .copy ∧
      ∀ families : List Family, families.Perm a.families → ∃ g', ofAlphabets { a with families } = .ok g' ∧
        g'.combinators = g.combinators ∧ g'.families = g.families := by
  refine ⟨exists_ofAlphabets_iff, ?_⟩
  intro g made
  obtain rfl := ofAlphabets_eq_ok_iff.mp made
  exact ⟨rfl, fun c => mem_combinators_iff_finds, g.nodup_combinators, fun c hc d hd => eq_of_indices hc hd,
    fun f used => exists_registered used, g.ordered_combinators, g.last_combinator, fun families perm => exists_permuted perm⟩

end Grammar

section Shuffled

def Alphabets.shuffled : Alphabets :=
  { families := [.take, .map], arithOps := [.sub, .add], mapNumbers := [7, -2], takeDropNumbers := [3] }

theorem Grammar.registry_agrees_with_lookups_of_shuffled :
    ∃ g, ofAlphabets .shuffled = .ok g ∧
      g.combinators = [.map .sub 7, .map .sub (-2), .map .add 7, .map .add (-2), .take 3, .copy] ∧
      .drop 3 ∉ g.combinators ∧ g.indices (.map .add 7) ≠ g.indices (.map .add (-2)) ∧
      ∃ g', ofAlphabets { Alphabets.shuffled with families := [Family.map, Family.take] } = .ok g' ∧
        g'.combinators = g.combinators := by
  have valid : Alphabets.shuffled.Valid := Alphabets.fault?_eq_none_iff.mp (by decide)
  obtain ⟨accepted, lookups⟩ := registry_agrees_with_lookups .shuffled
  obtain ⟨g, made⟩ := accepted.mpr valid
  obtain ⟨alphabets, registered, -, distinct, -, -, -, permuted⟩ := lookups g made
  have registry : g.combinators = [.map .sub 7, .map .sub (-2), .map .add 7, .map .add (-2), .take 3, .copy] := by
    rw [combinators, Grammar.families, alphabets]
    decide
  have unused : .drop 3 ∉ g.combinators := by
    rw [registered]
    rintro ⟨⟨i, found⟩, -, -⟩
    rw [familyIndex?, Grammar.families, alphabets] at found
    cases found
  obtain ⟨g', made', same, -⟩ := permuted [.map, .take] (.swap Family.take Family.map [])
  refine ⟨g, made, registry, unused, ?_, g', made', same⟩
  intro places
  have one := distinct (.map .add 7) (by simp [registry]) (.map .add (-2)) (by simp [registry]) places
  exact absurd one (by decide)

end Shuffled

end ListSynth
