import ListSynth.Ranking
import ListSynth.Proofs.Except
import ListSynth.Proofs.Lists
/-!
What a grammar registers. A combinator is registered when its family is in use and its letters are in the
alphabets, and these are what a step's choices are looked up by; so no look-up of a registered step can fail,
and weights that cover the grammar have one for each of its choices.
-/

namespace ListSynth

theorem exists_idxOf? {α : Type} [DecidableEq α] {a : α} {letters : List α} (h : a ∈ letters) :
    ∃ i, letters.idxOf? a = some i ∧ i < letters.length := by
  obtain ⟨i, hi⟩ := Option.isSome_iff_exists.mp (List.isSome_idxOf?.mpr h)
  obtain ⟨range, -⟩ := List.idxOf?_eq_some_iff.mp hi
  exact ⟨i, hi, range⟩

theorem firstRepeated?_eq_none_iff {α : Type} [DecidableEq α] {seen letters : List α} :
    firstRepeated? seen letters = none ↔ letters.Nodup ∧ ∀ a ∈ letters, a ∉ seen := by
  induction letters generalizing seen with
  | nil => simp [firstRepeated?]
  | cons a rest ih =>
      by_cases old : a ∈ seen
      · simp [firstRepeated?, old]
      · simp only [firstRepeated?, if_neg old, ih, List.nodup_cons, List.mem_cons, not_or, forall_eq_or_imp]
        constructor
        · rintro ⟨distinct, apart⟩
          exact ⟨⟨fun ha => (apart a ha).1 rfl, distinct⟩, old, fun b hb => (apart b hb).2⟩
        · rintro ⟨⟨new, distinct⟩, -, apart⟩
          exact ⟨distinct, fun b hb => ⟨fun same => new (same ▸ hb), apart b hb⟩⟩

/-- Rows of letters, one for each letter of another list, name no member twice. -/
theorem nodup_rows {α β γ : Type} {f : α → β → γ} {xs : List α} {ys : List β}
    (injective : ∀ {a b a' b'}, f a b = f a' b' → a = a' ∧ b = b') (hx : xs.Nodup) (hy : ys.Nodup) :
    (xs.flatMap fun a => ys.map (f a)).Nodup :=
  pairwise_rows hx (fun _ _ => hy) (fun _ _ _ _ ne same => ne (injective same).1)
    (fun _ _ _ ne same => ne (injective same).2)

namespace Alphabets

/-- No alphabet has a letter twice. -/
structure Distinct (a : Alphabets) : Prop where
  families : a.families.Nodup
  arithOps : a.arithOps.Nodup
  mapNumbers : a.mapNumbers.Nodup
  comparisons : a.comparisons.Nodup
  filterNumbers : a.filterNumbers.Nodup
  takeDropNumbers : a.takeDropNumbers.Nodup

/-- Alphabets that make a grammar: copying is not listed, no letter is listed twice, no alphabet is empty that a listed
family draws from, and some slot is weighed. -/
structure Valid (a : Alphabets) : Prop where
  unlisted : .copy ∉ a.families
  distinct : a.Distinct
  arithOps : .map ∈ a.families ∨ .zipWith ∈ a.families → a.arithOps ≠ []
  mapNumbers : .map ∈ a.families → a.mapNumbers ≠ []
  comparisons : .filter ∈ a.families → a.comparisons ≠ []
  filterNumbers : .filter ∈ a.families → a.filterNumbers ≠ []
  takeDropNumbers : .take ∈ a.families ∨ .drop ∈ a.families → a.takeDropNumbers ≠ []
  indexSlots : 1 ≤ a.indexSlots

variable {a : Alphabets}

theorem repeated_eq_none_iff {α : Type} [DecidableEq α] {field : Field} {label : α → String} {letters : List α} :
    repeated field label letters = none ↔ letters.Nodup := by
  rw [repeated, Option.map_eq_none_iff, firstRepeated?_eq_none_iff]
  simp only [List.not_mem_nil, not_false_iff, implies_true, and_true]

theorem missing_eq_none_iff {field : Field} {size : Nat} {needed : Bool} :
    missing field size needed = none ↔ (needed = true → 0 < size) := by
  cases needed <;> simp [missing, Nat.pos_iff_ne_zero]

theorem fault?_eq_none_iff : a.fault? = none ↔ a.Valid := by
  simp only [fault?, Option.orElse_eq_orElse, Option.orElse_eq_or, Option.or_eq_none_iff, repeated_eq_none_iff,
    missing_eq_none_iff, List.length_pos_iff, ite_eq_right_iff, reduceCtorEq, imp_false, Bool.or_eq_true,
    decide_eq_true_eq, forall_const]
  constructor
  · rintro ⟨unlisted, families, arithOps, mapNumbers, comparisons, filterNumbers, takeDropNumbers, needed⟩
    have distinct : a.Distinct := ⟨families, arithOps, mapNumbers, comparisons, filterNumbers, takeDropNumbers⟩
    obtain ⟨arithOps, mapNumbers, comparisons, filterNumbers, takeDropNumbers, indexSlots⟩ := needed
    exact ⟨unlisted, distinct, arithOps, mapNumbers, comparisons, filterNumbers, takeDropNumbers, indexSlots⟩
  · rintro ⟨unlisted, distinct, arithOps, mapNumbers, comparisons, filterNumbers, takeDropNumbers, indexSlots⟩
    exact ⟨unlisted, distinct.families, distinct.arithOps, distinct.mapNumbers, distinct.comparisons,
      distinct.filterNumbers, distinct.takeDropNumbers, arithOps, mapNumbers, comparisons, filterNumbers,
      takeDropNumbers, indexSlots⟩

theorem Distinct.members (distinct : a.Distinct) (f : Family) : (a.members f).Nodup := by
  have lone : ∀ c : Combinator, [c].Nodup := fun c => List.pairwise_singleton _ c
  cases f with
  | map => exact nodup_rows (by rintro op n op' n' ⟨⟩; exact ⟨rfl, rfl⟩) distinct.arithOps distinct.mapNumbers
  | filter => exact nodup_rows (by rintro t n t' n' ⟨⟩; exact ⟨rfl, rfl⟩) distinct.comparisons distinct.filterNumbers
  | zipWith => exact List.pairwise_map.mpr (distinct.arithOps.imp fun ne same => ne (Combinator.zipWith.inj same))
  | take => exact List.pairwise_map.mpr (distinct.takeDropNumbers.imp fun ne same => ne (Combinator.take.inj same))
  | drop => exact List.pairwise_map.mpr (distinct.takeDropNumbers.imp fun ne same => ne (Combinator.drop.inj same))
  | sum | max | min | length | copy => exact lone _

end Alphabets

/-- The letters of a combinator are in the alphabets. -/
def Combinator.Spelled (a : Alphabets) : Combinator → Prop
  | .map op n => op ∈ a.arithOps ∧ n ∈ a.mapNumbers
  | .filter test n => test ∈ a.comparisons ∧ n ∈ a.filterNumbers
  | .zipWith op => op ∈ a.arithOps
  | .take n | .drop n => n ∈ a.takeDropNumbers
  | .sum | .max | .min | .length | .copy => True

theorem Alphabets.mem_members_iff {a : Alphabets} {f : Family} {c : Combinator} :
    c ∈ a.members f ↔ c.family = f ∧ c.Spelled a := by
  cases f <;> cases c <;> simp [members, Combinator.family, Combinator.Spelled]

namespace Grammar

variable {g : Grammar} {c : Combinator}

theorem mem_combinators_iff : c ∈ g.combinators ↔ c.family ∈ g.families ∧ c.Spelled g.alphabets := by
  simp only [combinators, List.mem_flatMap, Alphabets.mem_members_iff]
  constructor
  · rintro ⟨f, used, rfl, spelled⟩
    exact ⟨used, spelled⟩
  · rintro ⟨used, spelled⟩
    exact ⟨_, used, rfl, spelled⟩

theorem copy_mem_combinators : .copy ∈ g.combinators :=
  mem_combinators_iff.mpr ⟨by simp [families, Combinator.family], trivial⟩

theorem nodup_families (g : Grammar) : g.families.Nodup := by
  have library : Family.library.Nodup := by decide
  have unlisted : ∀ f ∈ Family.library, f ≠ .copy := by decide
  refine List.nodup_append.mpr ⟨List.Pairwise.filter _ library, List.pairwise_singleton _ _, ?_⟩
  intro f hf f' hc
  rw [List.mem_singleton.mp hc]
  exact unlisted f (List.mem_of_mem_filter hf)

/-- No combinator is registered twice. -/
theorem nodup_combinators (g : Grammar) : g.combinators.Nodup := by
  apply List.pairwise_flatMap.mpr
  constructor
  · intro f _
    exact (Alphabets.fault?_eq_none_iff.mp g.faultless).distinct.members f
  · refine List.Pairwise.imp ?_ g.nodup_families
    intro f f' ne c hc c' hc' same
    rw [Alphabets.mem_members_iff] at hc hc'
    exact ne (hc.1.symm.trans ((congrArg Combinator.family same).trans hc'.1))

end Grammar

namespace Step

variable {g : Grammar} {step : Step} {w : Weights}

/-- Each choice of a registered step is among the choices that the grammar offers for its feature. Slots alone
are not offered by the grammar. -/
theorem choices_offered (registered : step.combinator ∈ g.combinators) :
    ∀ choice ∈ step.choices g, choice.1 = .index ∨ ∃ i, choice.2 = some i ∧ i < choice.1.choices g := by
  obtain ⟨used, spelled⟩ := Grammar.mem_combinators_iff.mp registered
  have definition := exists_idxOf? used
  have slots : ∀ choice ∈ (step.slots.take 2).map (fun i => (Feature.index, some i)), choice.1 = .index := by
    intro choice slot
    obtain ⟨i, -, rfl⟩ := List.mem_map.mp slot
    rfl
  intro choice chosen
  rw [choices, List.mem_append, List.mem_cons] at chosen
  rcases chosen with (rfl | slot) | letter
  · exact .inr definition
  · exact .inl (slots choice slot)
  · refine .inr ?_
    cases c : step.combinator with
    | map op n =>
        rw [c] at spelled letter
        rcases List.mem_pair.mp letter with rfl | rfl
        · exact exists_idxOf? spelled.1
        · exact exists_idxOf? spelled.2
    | filter test n =>
        rw [c] at spelled letter
        rcases List.mem_pair.mp letter with rfl | rfl
        · exact exists_idxOf? spelled.1
        · exact exists_idxOf? spelled.2
    | zipWith op =>
        rw [c] at spelled letter
        rw [List.mem_singleton.mp letter]
        exact exists_idxOf? spelled
    | take n | drop n =>
        rw [c] at spelled letter
        rw [List.mem_singleton.mp letter]
        exact exists_idxOf? spelled
    | _ =>
        rw [c] at letter
        cases letter

end Step

/-- Weights cover a grammar when every feature but the slots has one for each of the grammar's choices. -/
def Weights.Covers (w : Weights) (g : Grammar) : Prop :=
  ∀ k : Feature, k ≠ .index → k.choices g ≤ (w.vector k).length

theorem Weights.covers_zeros (g : Grammar) : (zeros g).Covers g := by
  intro k _
  simp [zeros]

theorem Weights.covers_ofLogits {g : Grammar} {logits : Weights} (h : logits.Covers g) :
    (ofLogits logits).Covers g := by
  intro k other
  have length := h k other
  cases k with
  | index => exact absurd rfl other
  | _ => simpa [ofLogits, softmax] using length

theorem Step.exists_weight {g : Grammar} {w : Weights} {step : Step} {k : Feature} {o : Option Nat}
    (covers : w.Covers g) (offered : k = .index ∨ ∃ i, o = some i ∧ i < k.choices g) :
    ∃ x, step.weight w (k, o) = .ok x := by
  by_cases slot : k = .index
  · subst slot
    exact ⟨_, rfl⟩
  · obtain ⟨i, rfl, range⟩ := offered.resolve_left slot
    obtain ⟨x, here⟩ : ∃ x, (w.vector k)[i]? = some x :=
      ⟨_, List.getElem?_eq_getElem (Nat.lt_of_lt_of_le range (covers k slot))⟩
    refine ⟨x, ?_⟩
    cases k with
    | index => exact absurd rfl slot
    | _ => simp only [weight, here]

/-- Under weights that cover the grammar every registered step has a rank, whatever slots it names. -/
theorem Ranking.exists_ofStep {g : Grammar} {w : Weights} {step : Step} (covers : w.Covers g)
    (registered : step.combinator ∈ g.combinators) : ∃ weight, Ranking.ofStep g w step = .ok weight := by
  obtain ⟨weights, all⟩ : ∃ weights, step.weights g w = .ok weights :=
    exists_mapM fun choice chosen => Step.exists_weight covers (Step.choices_offered registered choice chosen)
  exact ⟨product weights, by rw [ofStep, all]; rfl⟩

end ListSynth
