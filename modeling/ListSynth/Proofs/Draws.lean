import ListSynth.Proofs.Lookups
/-!
What is drawn for a step. The weights of a step are drawn one by one, in an order that is the same for all steps; the
first draw whose letter is not in the grammar, or whose place is past its weights, decides the error. The places tell
steps apart, and no other weight counts.
-/

namespace ListSynth

/-- What weights are drawn for, in the order in which they are. -/
inductive Draw where
  | family
  | firstSlot
  | secondSlot
  | arithOp
  | mapNumber
  | comparison
  | filterNumber
  | takeDropNumber
  deriving DecidableEq, Repr

namespace Draw

def all : List Draw :=
  [.family, .firstSlot, .secondSlot, .arithOp, .mapNumber, .comparison, .filterNumber, .takeDropNumber]

/-- The feature whose weights a draw is from. -/
def feature : Draw → Feature
  | .family => .definition
  | .firstSlot | .secondSlot => .index
  | .arithOp => .arithOp
  | .mapNumber => .mapNumber
  | .comparison => .comparison
  | .filterNumber => .filterNumber
  | .takeDropNumber => .takeDropNumber

/-- A step has a family, the slots that it names, and the letters of its family. -/
def applies (step : Step) : Draw → Bool
  | .family => true
  | .firstSlot => 1 ≤ step.slots.length
  | .secondSlot => 2 ≤ step.slots.length
  | .arithOp => step.combinator.family ∈ [.map, .zipWith]
  | .mapNumber => step.combinator.family = .map
  | .comparison | .filterNumber => step.combinator.family = .filter
  | .takeDropNumber => step.combinator.family ∈ [.take, .drop]

/-- The place of the weight that is drawn, if the grammar has one. -/
def place? (g : Grammar) (step : Step) : Draw → Option Nat
  | .family => g.familyIndex? step.combinator.family
  | .firstSlot => step.slots[0]?
  | .secondSlot => step.slots[1]?
  | .arithOp | .comparison => g.operatorIndex? step.combinator
  | .mapNumber | .filterNumber | .takeDropNumber => g.numberIndex? step.combinator

/-- What a draw yields is the weight at its place, and nothing for a slot that is not weighed. -/
inductive Yields (g : Grammar) (w : Weights) (step : Step) (d : Draw) : Number → Prop
  | slot {i : Nat} (kind : d.feature = .index) (place : d.place? g step = some i) :
      Yields g w step d (((w.vector .index)[i]?).getD .zero)
  | weight {i : Nat} {x : Number} (kind : d.feature ≠ .index) (place : d.place? g step = some i)
      (here : (w.vector d.feature)[i]? = some x) : Yields g w step d x

/-- A draw other than of a slot fails without a place, or where its place is past the weights. -/
inductive Fails (g : Grammar) (w : Weights) (step : Step) (d : Draw) : RankingError → Prop
  | unknown (kind : d.feature ≠ .index) (absent : d.place? g step = none) :
      Fails g w step d (.unknownCombinator step.combinator)
  | past {i : Nat} (kind : d.feature ≠ .index) (place : d.place? g step = some i)
      (short : (w.vector d.feature).length ≤ i) :
      Fails g w step d (.weightOutOfRange d.feature i (w.vector d.feature).length)

end Draw

namespace Step

def draws (step : Step) : List Draw := Draw.all.filter (Draw.applies step)

/-- The features and places that a step is weighed by. -/
def places (g : Grammar) (step : Step) : List (Feature × Option Nat) :=
  step.draws.map fun d => (d.feature, d.place? g step)

theorem choices_eq_places (g : Grammar) (step : Step) : step.choices g = step.places g := by
  obtain ⟨c, slots⟩ := step
  rcases slots with _ | ⟨i, _ | ⟨j, rest⟩⟩ <;> cases c <;> rfl

theorem weights_eq_mapM (g : Grammar) (w : Weights) (step : Step) :
    step.weights g w = step.draws.mapM fun d => step.weight w (d.feature, d.place? g step) := by
  rw [weights, choices_eq_places, places, List.mapM_map]
  rfl

end Step

namespace Draw

variable {g : Grammar} {w : Weights} {step : Step} {d : Draw} {x : Number} {e : RankingError}

/-- A slot that is drawn for is named. -/
theorem exists_slot (drawn : d ∈ step.draws) (kind : d.feature = .index) : ∃ i, d.place? g step = some i := by
  have applies : d.applies step = true := List.of_mem_filter drawn
  cases d with
  | firstSlot => exact ⟨_, List.getElem?_eq_getElem (of_decide_eq_true applies)⟩
  | secondSlot => exact ⟨_, List.getElem?_eq_getElem (of_decide_eq_true applies)⟩
  | _ => cases kind

theorem weight_index (o : Option Nat) :
    step.weight w (.index, o) = .ok ((o.bind fun i => (w.vector .index)[i]?).getD .zero) := rfl

theorem weight_none {k : Feature} (kind : k ≠ .index) :
    step.weight w (k, none) = .error (.unknownCombinator step.combinator) := by
  cases k with
  | index => exact absurd rfl kind
  | _ => rfl

theorem weight_some {k : Feature} {i : Nat} (kind : k ≠ .index) :
    step.weight w (k, some i) =
      match (w.vector k)[i]? with
      | some x => .ok x
      | none => .error (.weightOutOfRange k i (w.vector k).length) := by
  cases k with
  | index => exact absurd rfl kind
  | _ => rfl

theorem weight_eq_ok_iff (drawn : d ∈ step.draws) :
    step.weight w (d.feature, d.place? g step) = .ok x ↔ d.Yields g w step x := by
  constructor
  · intro h
    by_cases kind : d.feature = .index
    · obtain ⟨i, place⟩ := exists_slot (g := g) drawn kind
      rw [kind, weight_index, place] at h
      cases h
      exact .slot kind place
    · cases place : d.place? g step with
      | none =>
          rw [place, weight_none kind] at h
          cases h
      | some i =>
          rw [place, weight_some kind] at h
          split at h
          · rename_i here
            cases h
            exact .weight kind place here
          · cases h
  · rintro (⟨kind, place⟩ | ⟨kind, place, here⟩)
    · rw [kind, place, weight_index, Option.bind_some]
    · rw [place, weight_some kind, here]

theorem weight_eq_error_iff : step.weight w (d.feature, d.place? g step) = .error e ↔ d.Fails g w step e := by
  constructor
  · intro h
    by_cases kind : d.feature = .index
    · rw [kind, weight_index] at h
      cases h
    · cases place : d.place? g step with
      | none =>
          rw [place, weight_none kind] at h
          cases h
          exact .unknown kind place
      | some i =>
          rw [place, weight_some kind] at h
          split at h
          · cases h
          · rename_i past
            cases h
            exact .past kind place (List.getElem?_eq_none_iff.mp past)
  · rintro (⟨kind, absent⟩ | ⟨kind, place, short⟩)
    · rw [absent, weight_none kind]
    · rw [place, weight_some kind, List.getElem?_eq_none_iff.mpr short]

end Draw

namespace Step

variable {g : Grammar} {w w' : Weights} {step other : Step} {e : RankingError} {xs : List Number}

theorem weights_eq_ok_iff : step.weights g w = .ok xs ↔ List.Forall₂ (Draw.Yields g w step) step.draws xs := by
  rw [weights_eq_mapM, mapM_eq_ok_iff]
  constructor
  · intro all
    exact forall₂_imp_of_mem all fun d drawn x => (Draw.weight_eq_ok_iff drawn).mp
  · intro all
    exact forall₂_imp_of_mem all fun d drawn x => (Draw.weight_eq_ok_iff drawn).mpr

theorem weights_eq_error_iff : step.weights g w = .error e ↔ ∃ front d rest, step.draws = front ++ d :: rest ∧
      (∀ d' ∈ front, ∃ x, d'.Yields g w step x) ∧ d.Fails g w step e := by
  rw [weights_eq_mapM]
  exact mapM_eq_error_iff_of_mem (fun d drawn => exists_congr fun x => Draw.weight_eq_ok_iff drawn)
    fun d _ => Draw.weight_eq_error_iff

theorem unregistered_of_unknown {c : Combinator} (h : step.weights g w = .error (.unknownCombinator c)) :
    c = step.combinator ∧ step.combinator ∉ g.combinators := by
  obtain ⟨front, d, rest, draws, -, fails⟩ := weights_eq_error_iff.mp h
  cases fails with
  | unknown kind absent =>
      refine ⟨rfl, ?_⟩
      intro registered
      have member : d ∈ step.draws := by simp [draws]
      have choice : (d.feature, d.place? g step) ∈ step.choices g := by
        rw [choices_eq_places]
        exact List.mem_map_of_mem member
      rcases choices_offered registered _ choice with slot | ⟨i, place, -⟩
      · exact kind slot
      · cases absent.symm.trans place

section Places

/-- The place of the first of some features. -/
def placeOf (features : List Feature) (places : List (Feature × Option Nat)) : Option Nat :=
  (places.find? (·.1 ∈ features)).bind (·.2)

theorem indices_eq_placeOf (g : Grammar) (step : Step) :
    g.indices step.combinator =
      (placeOf [.definition] (step.places g), placeOf [.arithOp, .comparison] (step.places g),
        placeOf [.mapNumber, .filterNumber, .takeDropNumber] (step.places g)) := by
  obtain ⟨c, slots⟩ := step
  rcases slots with _ | ⟨i, _ | ⟨j, rest⟩⟩ <;> cases c <;> rfl

theorem slots_eq_filterMap (g : Grammar) (step : Step) :
    step.slots.take 2 = (step.places g).filterMap fun p => if p.1 = .index then p.2 else none := by
  obtain ⟨c, slots⟩ := step
  rcases slots with _ | ⟨i, _ | ⟨j, rest⟩⟩ <;> cases c <;> rfl

theorem eq_of_places (registered : step.combinator ∈ g.combinators) (registered' : other.combinator ∈ g.combinators)
    (few : step.slots.length ≤ 2) (few' : other.slots.length ≤ 2) (same : step.places g = other.places g) :
    step = other := by
  have combinators : step.combinator = other.combinator := by
    apply Grammar.eq_of_indices registered registered'
    rw [indices_eq_placeOf, indices_eq_placeOf, same]
  have slots : step.slots = other.slots := by
    rw [← List.take_of_length_le few, ← List.take_of_length_le few', slots_eq_filterMap g, slots_eq_filterMap g, same]
  obtain ⟨c, slots⟩ := step
  cases combinators
  cases slots
  rfl

end Places

/-- No other weight counts than those at a step's places. -/
theorem weights_congr (lengths : ∀ k, (w'.vector k).length = (w.vector k).length)
    (agree : ∀ k i, (k, some i) ∈ step.places g → (w'.vector k)[i]? = (w.vector k)[i]?) :
    step.weights g w' = step.weights g w := by
  rw [weights, weights, choices_eq_places]
  apply mapM_congr
  rintro ⟨k, place⟩ drawn
  by_cases kind : k = .index
  · subst kind
    cases place with
    | none => rfl
    | some i => rw [Draw.weight_index, Draw.weight_index, Option.bind_some, Option.bind_some, agree _ i drawn]
  · cases place with
    | none => rw [Draw.weight_none kind, Draw.weight_none kind]
    | some i => rw [Draw.weight_some kind, Draw.weight_some kind, agree k i drawn, lengths]

/-- A step's weights are those that its draws yield, in their order, unless a draw fails, and then the first to fail
decides the error. Combinators are unknown only when they are not registered. Registered steps on one slot or two are
told apart by their places, and weights at other places make no difference to a step, nor to its rank. -/
theorem weights_drawn_in_order (g : Grammar) (w : Weights) (step : Step) :
    (∀ xs, step.weights g w = .ok xs ↔ List.Forall₂ (Draw.Yields g w step) step.draws xs) ∧
    (∀ e, step.weights g w = .error e ↔ ∃ front d rest, step.draws = front ++ d :: rest ∧
      (∀ d' ∈ front, ∃ x, d'.Yields g w step x) ∧ d.Fails g w step e) ∧
    (∀ c, step.weights g w = .error (.unknownCombinator c) → c = step.combinator ∧ step.combinator ∉ g.combinators) ∧
    (∀ other : Step, step.combinator ∈ g.combinators → other.combinator ∈ g.combinators → step.slots.length ≤ 2 →
      other.slots.length ≤ 2 → step ≠ other → step.places g ≠ other.places g) ∧
    (∀ w' : Weights, (∀ k, (w'.vector k).length = (w.vector k).length) →
      (∀ k i, (k, some i) ∈ step.places g → (w'.vector k)[i]? = (w.vector k)[i]?) →
      step.weights g w' = step.weights g w ∧ Ranking.ofStep g w' step = Ranking.ofStep g w step) := by
  refine ⟨fun xs => weights_eq_ok_iff, fun e => weights_eq_error_iff, fun c => unregistered_of_unknown, ?_, ?_⟩
  · intro other registered registered' few few' distinct same
    exact distinct (eq_of_places registered registered' few few' same)
  · intro w' lengths agree
    have same := weights_congr lengths agree
    exact ⟨same, by rw [Ranking.ofStep, Ranking.ofStep, same]⟩

end Step

section Short

def Grammar.differing : Grammar :=
  ⟨{ families := [.zipWith, .take], arithOps := [.add, .sub], takeDropNumbers := [3] }, by decide⟩

/-- Weights of which one is missing: that of the second operator. -/
def Weights.short : Weights := { Weights.zeros .differing with arithOp := [.one] }

theorem Step.weights_drawn_in_order_of_short :
    weights .differing .short ⟨.zipWith .sub, [0, 1]⟩ = .error (.weightOutOfRange .arithOp 1 1) ∧
    .take 4 ∉ Grammar.differing.combinators ∧
    places .differing ⟨.zipWith .sub, [0, 1]⟩ ≠ places .differing ⟨.zipWith .sub, [1, 0]⟩ ∧
    weights .differing { Weights.short with comparison := [.one, .one, .one] } ⟨.take 3, [0]⟩ =
      weights .differing .short ⟨.take 3, [0]⟩ := by
  have registered : .zipWith .sub ∈ Grammar.differing.combinators := by decide
  obtain ⟨-, errors, -, apart, -⟩ := weights_drawn_in_order .differing .short ⟨.zipWith .sub, [0, 1]⟩
  obtain ⟨-, -, unknown, -, -⟩ := weights_drawn_in_order .differing .short ⟨.take 4, [0]⟩
  obtain ⟨-, -, -, -, elsewhere⟩ := weights_drawn_in_order .differing .short ⟨.take 3, [0]⟩
  refine ⟨?_, ?_, apart ⟨.zipWith .sub, [1, 0]⟩ registered registered (by decide) (by decide) (by decide), ?_⟩
  · refine (errors _).mpr ⟨[.family, .firstSlot, .secondSlot], .arithOp, [], rfl, ?_, .past (by decide) rfl (by decide)⟩
    simp only [List.forall_mem_cons]
    exact ⟨⟨_, .weight (by decide) rfl rfl⟩, ⟨_, .slot rfl rfl⟩, ⟨_, .slot rfl rfl⟩, List.forall_mem_nil _⟩
  · exact (unknown (.take 4) (by decide)).2
  · have other : ∀ p ∈ places .differing ⟨.take 3, [0]⟩, p.1 ≠ .comparison := by decide
    refine (elsewhere { Weights.short with comparison := [.one, .one, .one] } ?_ ?_).1
    · intro k
      cases k <;> rfl
    · intro k i drawn
      cases k with
      | comparison => exact absurd rfl (other _ drawn)
      | _ => rfl

end Short

end ListSynth
