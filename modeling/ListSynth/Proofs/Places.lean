import Mathlib.Data.Multiset.Bind
import ListSynth.Proofs.Level
import ListSynth.Proofs.Tallies
/-!
What a level makes of its frontier, whatever the weights. Weights order a pool but never fill it; so a level that leaves
room in its beam goes on with places, and adds to the tally counts, that the places of its frontier alone determine.
-/

namespace ListSynth

/-- Where a node stands: what is left of a node without its rank. -/
structure Place where
  program : Program
  state : State

def Node.place (node : Node) : Place := ⟨node.program, node.state⟩

/-- The places of some nodes, in no order. -/
def places (nodes : List Node) : Multiset Place := nodes.map Node.place

theorem places_cons {node : Node} {nodes : List Node} : places (node :: nodes) = node.place ::ₘ places nodes := rfl

theorem places_append {nodes others : List Node} : places (nodes ++ others) = places nodes + places others := by
  simp [places]

theorem card_places {nodes : List Node} : (places nodes).card = nodes.length := by
  simp [places]

namespace Place

def step? (place : Place) (step : Step) : Option Place :=
  (place.state.after step).toOption.map fun s => ⟨place.program ++ [step], s⟩

/-- The places that the candidates of a place lead to. -/
def offspring (g : Grammar) (place : Place) : List Place :=
  (g.candidates place.state.length).filterMap place.step?

/-- How many candidates lead nowhere. -/
def refused (g : Grammar) (place : Place) : Nat :=
  (g.candidates place.state.length).countP fun step => (place.step? step).isNone

/-- Each candidate leads to a place or nowhere. -/
theorem offspring_add_refused (place : Place) :
    (place.offspring g).length + place.refused g = (g.candidates place.state.length).length := by
  rw [offspring, refused, List.length_filterMap_eq_countP,
    List.length_eq_countP_add_countP fun step => (place.step? step).isSome]
  refine congrArg _ (List.countP_congr ?_)
  intro step _
  simp

def isOpen (lengths : Option (List Nat)) (place : Place) : Bool := (place.state.deadEnd? lengths).isNone

end Place

section Growth

variable (g : Grammar) (goal : Goal) (lengths : Option (List Nat))

def children (frontier : Multiset Place) : Multiset Place := frontier.bind fun place => place.offspring g

/-- The counts of an expansion. -/
def expansion (frontier : Multiset Place) : Tally where
  nodesExpanded := frontier.card
  childrenGenerated := (children g frontier).card
  candidatesRejected := (frontier.map (Place.refused g)).sum

/-- The counts of a walk past some places. -/
def passage (seen : Multiset Place) : Tally where
  leavesPruned := seen.countP fun place => (place.state.deadEnd? lengths).isSome
  lengthPruned := seen.countP fun place => place.state.deadEnd? lengths = some .overshoot
  nodesAdmitted := seen.countP fun place => place.isOpen lengths

def openChildren (frontier : Multiset Place) : Multiset Place :=
  (children g frontier).filter fun place => place.isOpen goal.minLengths

/-- The counts of a level that leaves room in its beam. -/
def growth (frontier : Multiset Place) : Tally :=
  expansion g frontier ++ { levelsExpanded := 1 } ++ passage goal.minLengths (children g frontier) ++
    { peakFrontier := (openChildren g goal frontier).card }

variable {g goal lengths} {place : Place} {frontier : Multiset Place}

theorem children_cons : children g (place ::ₘ frontier) = place.offspring g + children g frontier :=
  Multiset.cons_bind place frontier _

theorem expansion_cons : expansion g (place ::ₘ frontier) = expansion g {place} ++ expansion g frontier := by
  simp only [expansion, children, Tally.append_eq, Tally.merge, Multiset.cons_bind, Multiset.singleton_bind,
    Multiset.card_cons, Multiset.card_singleton, Multiset.card_add, Multiset.map_cons, Multiset.map_singleton,
    Multiset.sum_cons, Multiset.sum_singleton, Nat.add_comm, Nat.max_zero, Nat.add_zero, List.append_nil]

theorem passage_cons : passage lengths (place ::ₘ frontier) = passage lengths {place} ++ passage lengths frontier := by
  simp only [passage, Tally.append_eq, Tally.merge, ← Multiset.singleton_add, Multiset.countP_add, Nat.max_zero,
    Nat.add_zero, List.append_nil]

end Growth

variable {σ : Type} {guide : Guide σ} {g : Grammar} {goal : Goal} {lengths : Option (List Nat)} {w : Weights}
  {parent node : Node} {pool frontier next seen : List Node} {steps : List Step} {width : Nat} {p q : Progress σ}

section Expansion

theorem Node.place_child? {step : Step}
    (weighed : ∀ s, parent.state.after step = .ok s → ∃ weight, Ranking.ofStep g w step = .ok weight) :
    (parent.child? g w step).map Node.place = parent.place.step? step := by
  unfold Node.child? Place.step?
  cases taken : parent.state.after step with
  | error e => simp [Node.place, taken, Except.toOption]
  | ok s =>
      obtain ⟨weight, weighs⟩ := weighed s taken
      simp [Node.place, Node.child, Node.program, taken, weighs, Except.toOption]

theorem Node.raise_eq_ok {out children : List Node} {n rejected : Nat}
    (h : parent.raise g w steps children rejected = (n, .ok out)) :
    n = rejected + steps.countP fun step => (parent.place.step? step).isNone := by
  induction steps generalizing children rejected with
  | nil =>
      cases h
      rfl
  | cons step rest ih =>
      rw [Node.raise] at h
      rw [List.countP_cons]
      cases taken : parent.state.after step with
      | error e =>
          rw [taken] at h
          have := ih h
          simp [Place.step?, Node.place, taken, Except.toOption] at this ⊢
          omega
      | ok s =>
          rw [taken] at h
          dsimp only at h
          split at h
          · cases h
          · have := ih h
            simpa [Place.step?, Node.place, taken, Except.toOption] using this

/-- The children of a node stand where its candidates lead. -/
theorem Node.expand_place {children : List Node} (h : parent.expand guide g goal p = (.ok children, q)) :
    children.map Node.place = parent.place.offspring g := by
  obtain ⟨weighed, rfl⟩ := Node.raise_eq_ok_iff.mp (congrArg Prod.fst h)
  rw [List.reverse_nil, List.nil_append, List.map_filterMap]
  refine List.filterMap_congr ?_
  intro step candidate
  exact Node.place_child? (weighed step candidate)

theorem Node.length_of_expand {children : List Node} (h : parent.expand guide g goal p = (.ok children, q)) :
    children.length = (parent.place.offspring g).length := by
  rw [← Node.expand_place h, List.length_map]

theorem Node.expand_grows {children : List Node} (h : parent.expand guide g goal p = (.ok children, q)) :
    p.tally.Grows (expansion g {parent.place}) q.tally := by
  have length := Node.length_of_expand h
  rcases raised : parent.raise g (guide.consult g goal parent.state p.memory).1 (g.candidates parent.state.length)
    [] 0 with ⟨n, result⟩
  unfold Node.expand at h
  dsimp only at h
  rw [raised] at h
  cases h
  have refused := Node.raise_eq_ok raised
  refine ⟨if (guide.consult g goal parent.state p.memory).1.isBlank then 1 else 0, ?_⟩
  simp only [expansion, ListSynth.children, Multiset.singleton_bind, Multiset.coe_card, Multiset.card_singleton,
    Multiset.map_singleton, Multiset.sum_singleton, Tally.append_eq, Tally.merge, length, refused, Nat.zero_add,
    Nat.add_zero, Nat.max_zero, List.append_nil, Place.refused]
  rfl

/-- A pool stands where the candidates of its frontier lead. -/
theorem expandAll_places {broods : List (List Node)}
    (h : expandAll guide g goal frontier broods p = (.ok pool, q)) :
    places pool = places broods.reverse.flatten + children g (places frontier) ∧
      p.tally.Grows (expansion g (places frontier)) q.tally := by
  induction frontier generalizing broods p with
  | nil =>
      cases h
      exact ⟨(add_zero _).symm, Tally.grows_nothing _⟩
  | cons parent rest ih =>
      rw [expandAll] at h
      split at h
      · cases h
      · rename_i brood m expanded
        obtain ⟨stand, grows⟩ := ih h
        constructor
        · have first : places brood = parent.place.offspring g := congrArg _ (Node.expand_place expanded)
          rw [stand, List.reverse_cons, List.flatten_append, List.flatten_singleton, places_append, first, places_cons,
            children_cons, add_assoc]
        · rw [places_cons, expansion_cons]
          exact (Node.expand_grows expanded).trans grows

end Expansion

section Walk

theorem Progress.ranked_grows (p : Progress σ) : p.tally.Grows { levelsExpanded := 1 } p.ranked.tally :=
  ⟨0, by simp [ranked, Tally.append_eq, Tally.merge]⟩

theorem Progress.ended_grows (p : Progress σ) (next : List Node) :
    p.tally.Grows { peakFrontier := next.length } (p.ended (.advanced next)).tally :=
  ⟨0, by simp [ended, Tally.append_eq, Tally.merge]⟩

theorem passage_singleton {place : Place} : passage lengths {place} =
    match place.state.deadEnd? lengths with
    | some why => { leavesPruned := 1, lengthPruned := if why = .overshoot then 1 else 0 }
    | none => { nodesAdmitted := 1 } := by
  unfold passage
  rw [← Multiset.cons_zero]
  simp only [Multiset.countP_cons, Multiset.countP_zero]
  unfold Place.isOpen
  cases place.state.deadEnd? lengths <;> simp

theorem Progress.past_grows (node : Node) (p : Progress σ) :
    p.tally.Grows (passage lengths {node.place}) (p.past guide lengths node).tally := by
  refine ⟨0, ?_⟩
  rw [passage_singleton]
  unfold Progress.past Node.place
  cases node.state.deadEnd? lengths with
  | none => simp [Tally.append_eq, Tally.merge, Tally.countAdmitted]
  | some why => simp [Tally.append_eq, Tally.merge, Tally.countPruned]

theorem foldl_past_grows (seen : List Node) (p : Progress σ) : p.tally.Grows (passage lengths (places seen))
    (seen.foldl (fun p node => p.past guide lengths node) p).tally := by
  induction seen generalizing p with
  | nil => exact Tally.grows_nothing _
  | cons node rest ih =>
      rw [places_cons, passage_cons]
      exact (Progress.past_grows node p).trans (ih _)

end Walk

section Level

theorem places_sortByRank : places (sortByRank pool) = places pool :=
  Multiset.coe_eq_coe.mpr ((List.mergeSort_perm pool _).map Node.place)

theorem places_filter : places (seen.filter (Node.isOpen lengths)) =
    (places seen).filter fun place => place.isOpen lengths := by
  induction seen with
  | nil => rfl
  | cons node rest ih =>
      have same : node.place.isOpen lengths = node.isOpen lengths := rfl
      rw [places_cons, Multiset.filter_cons, List.filter_cons, same, ← ih]
      split
      · rfl
      · exact (zero_add _).symm

theorem mem_places_of_mem {nodes : List Node} (hn : node ∈ nodes) : node.place ∈ places nodes :=
  Multiset.mem_coe.mpr (List.mem_map_of_mem hn)

theorem forall_mem_places {nodes : List Node} {P : Place → Prop} :
    (∀ place ∈ places nodes, P place) ↔ ∀ node ∈ nodes, P node.place := by
  simp [places]

theorem places_pool {m : Progress σ} (expanded : expandAll guide g goal frontier [] p = (.ok pool, m)) :
    places pool = children g (places frontier) :=
  (expandAll_places expanded).1.trans (zero_add _)

theorem exists_child_of_found (found : level guide g goal width frontier p = (.ok (.found node), q)) :
    ∃ place ∈ children g (places frontier), goal.isReachedBy place.state = true := by
  obtain ⟨pool, m, r, expanded, walked, -⟩ := level_eq_ok_iff.mp found
  obtain ⟨member, reached⟩ := walk_found walked
  rw [← places_pool expanded]
  exact ⟨node.place, mem_places_of_mem (mem_sortByRank.mp member), reached⟩

/-- A level that goes on walks past some children of its frontier and goes on with those that are open. -/
theorem exists_seen_of_advanced (advanced : level guide g goal width frontier p = (.ok (.advanced next), q)) :
    ∃ seen ≤ children g (places frontier), places next = seen.filter (fun place => place.isOpen goal.minLengths) ∧
      (∀ place ∈ seen, goal.isReachedBy place.state = false) ∧
      (seen = children g (places frontier) ∨ width ≤ next.length) ∧
      p.tally.Grows (expansion g (places frontier) ++ { levelsExpanded := 1 } ++ passage goal.minLengths seen ++
        { peakFrontier := next.length }) q.tally := by
  obtain ⟨pool, m, r, expanded, walked, rfl⟩ := level_eq_ok_iff.mp advanced
  obtain ⟨seen, rest, parts, rfl, rfl, unsolved, stop⟩ := walk_advanced walked
  have sorted : places seen + places rest = children g (places frontier) := by
    rw [← places_append, ← parts, places_sortByRank, places_pool expanded]
  refine ⟨places seen, sorted ▸ Multiset.le_add_right _ _, places_filter, forall_mem_places.mpr unsolved, ?_, ?_⟩
  · rw [← sorted]
    refine stop.imp ?_ id
    rintro rfl
    exact (add_zero _).symm
  · exact (((expandAll_places expanded).2.trans m.ranked_grows).trans (foldl_past_grows seen m.ranked)).trans
      (Progress.ended_grows _ _)

/-- A level that goes on has no more nodes to go on with than its frontier has open children. -/
theorem length_le_openChildren (advanced : level guide g goal width frontier p = (.ok (.advanced next), q)) :
    next.length ≤ (openChildren g goal (places frontier)).card := by
  obtain ⟨seen, within, admitted, -⟩ := exists_seen_of_advanced advanced
  rw [← card_places, admitted]
  exact Multiset.card_le_card (Multiset.filter_le_filter _ within)

/-- A level that leaves room in its beam goes on with all open children of its frontier, of which none reaches the
goal, and grows the tally as the places of its frontier say. -/
theorem level_of_room (advanced : level guide g goal width frontier p = (.ok (.advanced next), q))
    (room : next.length < width) :
    places next = openChildren g goal (places frontier) ∧
      (∀ place ∈ children g (places frontier), goal.isReachedBy place.state = false) ∧
      p.tally.Grows (growth g goal (places frontier)) q.tally := by
  obtain ⟨seen, -, admitted, unsolved, stop, grows⟩ := exists_seen_of_advanced advanced
  obtain rfl := stop.resolve_right (Nat.not_le.mpr room)
  refine ⟨admitted, unsolved, ?_⟩
  unfold growth openChildren
  rw [← admitted, card_places]
  exact grows

end Level

end ListSynth
