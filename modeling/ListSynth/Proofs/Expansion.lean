import ListSynth.Search.Expansion
import ListSynth.Proofs.Candidates
/-!
What expansion makes of a frontier: the children of each node, in order, are its candidates that can be taken.
Weights decide the ranks of children and never which children there are.
-/

namespace ListSynth

namespace Node

variable {g : Grammar} {w : Weights} {parent node : Node} {step : Step} {steps : List Step}

def child? (g : Grammar) (w : Weights) (parent : Node) (step : Step) : Option Node :=
  match parent.state.after step, Ranking.ofStep g w step with
  | .ok s, .ok weight => some (parent.child step s weight)
  | _, _ => none

theorem child?_eq_some_iff : parent.child? g w step = some node ↔
    ∃ s weight, parent.state.after step = .ok s ∧ Ranking.ofStep g w step = .ok weight ∧
      node = parent.child step s weight := by
  unfold child?
  cases parent.state.after step with
  | error e => simp
  | ok s => cases Ranking.ofStep g w step <;> simp [eq_comm]

/-- Expansion yields children exactly when every step that can be taken has a weight, and then the children
by all of these steps. -/
theorem raise_eq_ok_iff {children out : List Node} {rejected : Nat} :
    (parent.raise g w steps children rejected).2 = .ok out ↔
      (∀ step ∈ steps, ∀ s, parent.state.after step = .ok s → ∃ weight, Ranking.ofStep g w step = .ok weight) ∧
        out = children.reverse ++ steps.filterMap (parent.child? g w) := by
  induction steps generalizing children rejected with
  | nil => simp [raise, eq_comm]
  | cons step rest ih =>
      rw [raise, List.forall_mem_cons, List.filterMap_cons]
      cases taken : parent.state.after step with
      | error e =>
          simp only [ih, child?, taken, reduceCtorEq, false_implies, implies_true, true_and]
      | ok s =>
          cases weighed : Ranking.ofStep g w step with
          | error e => simp
          | ok weight =>
              simp only [ih, child?, taken, weighed, List.reverse_cons, List.append_assoc,
                List.singleton_append, Except.ok.injEq, exists_eq', implies_true, true_and]

/-- A node has another as its child by one of its candidates. -/
def Breeds (g : Grammar) (parent node : Node) : Prop :=
  ∃ step ∈ g.candidates parent.state.length, ∃ s weight,
    parent.state.after step = .ok s ∧ node = parent.child step s weight

variable {σ : Type} {guide : Guide σ} {goal : Goal} {p q : Progress σ} {children pool frontier : List Node}

theorem of_mem_expand (h : parent.expand guide g goal p = (.ok children, q)) (hn : node ∈ children) :
    parent.Breeds g node := by
  have result := congrArg Prod.fst h
  obtain ⟨-, rfl⟩ := raise_eq_ok_iff.mp result
  simp only [List.reverse_nil, List.nil_append, List.mem_filterMap] at hn
  obtain ⟨step, candidate, hn⟩ := hn
  obtain ⟨s, weight, taken, -, rfl⟩ := child?_eq_some_iff.mp hn
  exact ⟨step, candidate, s, weight, taken, rfl⟩

theorem exists_mem_expand {s : State} (h : parent.expand guide g goal p = (.ok children, q))
    (candidate : step ∈ g.candidates parent.state.length) (taken : parent.state.after step = .ok s) :
    ∃ weight, parent.child step s weight ∈ children := by
  have result := congrArg Prod.fst h
  obtain ⟨weighed, rfl⟩ := raise_eq_ok_iff.mp result
  obtain ⟨weight, hw⟩ := weighed step candidate s taken
  refine ⟨weight, ?_⟩
  simp only [List.reverse_nil, List.nil_append, List.mem_filterMap]
  exact ⟨step, candidate, child?_eq_some_iff.mpr ⟨s, weight, taken, hw, rfl⟩⟩

theorem expandAll_eq_ok {broods : List (List Node)}
    (h : expandAll guide g goal frontier broods p = (.ok pool, q)) :
    ∃ more, pool = broods.reverse.flatten ++ more.flatten ∧
      List.Forall₂ (fun parent children => ∃ p q, parent.expand guide g goal p = (.ok children, q))
        frontier more := by
  induction frontier generalizing broods p with
  | nil =>
      cases h
      exact ⟨[], by simp, .nil⟩
  | cons parent rest ih =>
      rw [expandAll] at h
      split at h
      · cases h
      · rename_i children m expanded
        obtain ⟨more, rfl, all⟩ := ih h
        exact ⟨children :: more, by simp, .cons ⟨p, m, expanded⟩ all⟩

theorem of_mem_expandAll (h : expandAll guide g goal frontier [] p = (.ok pool, q)) (hn : node ∈ pool) :
    ∃ parent ∈ frontier, parent.Breeds g node := by
  obtain ⟨more, rfl, all⟩ := expandAll_eq_ok h
  obtain ⟨children, brood, hn⟩ := List.mem_flatten.mp (by simpa using hn)
  obtain ⟨parent, hp, _, _, expanded⟩ := forall₂_mem_right all brood
  exact ⟨parent, hp, of_mem_expand expanded hn⟩

/-- Whatever a candidate leads to from a node of the frontier, the pool has a child that stands for it. -/
theorem exists_mem_expandAll {s : State} (h : expandAll guide g goal frontier [] p = (.ok pool, q))
    (hp : parent ∈ frontier) (candidate : step ∈ g.candidates parent.state.length)
    (taken : parent.state.after step = .ok s) : ∃ weight, parent.child step s weight ∈ pool := by
  obtain ⟨more, rfl, all⟩ := expandAll_eq_ok h
  obtain ⟨children, brood, _, _, expanded⟩ := forall₂_mem_left all hp
  obtain ⟨weight, hn⟩ := exists_mem_expand expanded candidate taken
  exact ⟨weight, by simpa using ⟨children, brood, hn⟩⟩

end Node

end ListSynth
