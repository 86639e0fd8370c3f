import ListSynth.Proofs.Course
import ListSynth.Proofs.Places
import ListSynth.Proofs.Widths
/-!
Iterations that differ in ranking and in width alone. As long as beams are never full, ranks only order the nodes of a
level; so two such iterations pass the same levels between the same places, and end alike.
-/

namespace ListSynth

variable {σ τ : Type} {guide : Guide σ} {other : Guide τ} {g : Grammar} {c c' : Settings} {task : Task}
  {memory : σ} {memory' : τ} {k k' depth : Nat} {p q r : Progress σ} {p' q' r' : Progress τ}
  {frontier frontier' next next' : List Node} {s : Solution}

/-- An iteration leaves room in its beam on every level that it passes. -/
def Roomy (guide : Guide σ) (g : Grammar) (c : Settings) (task : Task) (k : Nat) (p : Progress σ) : Prop :=
  ∀ {depth frontier q next r}, Comes guide g c task k p depth frontier q →
    Passes guide g c task k depth frontier q next r → next.length < (c.width k).toNat

/-- One iteration repeats another: whenever the other passes a level, it passes one as deep, from the same places to
the same places, and the two add the same counts to their tallies. -/
def Repeats (guide : Guide σ) (other : Guide τ) (g : Grammar) (c c' : Settings) (task : Task) (k k' : Nat)
    (p : Progress σ) (p' : Progress τ) : Prop :=
  ∀ {depth frontier q next r}, Comes guide g c task k p depth frontier q →
    Passes guide g c task k depth frontier q next r →
    ∃ frontier' q' next' r', Comes other g c' task k' p' depth frontier' q' ∧
      Passes other g c' task k' depth frontier' q' next' r' ∧
      places frontier' = places frontier ∧ places next' = places next ∧
      ∃ counts, q.tally.Grows counts r.tally ∧ q'.tally.Grows counts r'.tally

section Levels

theorem nonempty_of_places (same : places frontier' = places frontier) (nonempty : frontier ≠ []) :
    frontier' ≠ [] := by
  rintro rfl
  refine nonempty (List.length_eq_zero_iff.mp ?_)
  rw [← card_places, ← same]
  rfl

/-- From the places of a level that is passed with room, no solution is found. -/
theorem Passes.not_found {node : Node} (passes : Passes guide g c task k depth frontier q next r)
    (room : next.length < (c.width k).toNat) (same : places frontier' = places frontier) :
    level other g task.goal (c'.width k').toNat frontier' q' ≠ (.ok (.found node), r') := by
  intro found
  obtain ⟨place, child, reached⟩ := exists_child_of_found found
  obtain ⟨-, unsolved, -⟩ := level_of_room passes.advanced room
  rw [same] at child
  exact absurd reached (Bool.eq_false_iff.mp (unsolved place child))

/-- Two levels passed from the same places, the first with room and the second no narrower or with room as well, come
to the same places and add the same counts. -/
theorem Passes.agree (passes : Passes guide g c task k depth frontier q next r)
    (passes' : Passes other g c' task k' depth frontier' q' next' r') (room : next.length < (c.width k).toNat)
    (same : places frontier' = places frontier)
    (room' : (c.width k).toNat ≤ (c'.width k').toNat ∨ next'.length < (c'.width k').toNat) :
    next'.length < (c'.width k').toNat ∧ places next' = places next ∧
      ∃ counts, q.tally.Grows counts r.tally ∧ q'.tally.Grows counts r'.tally := by
  obtain ⟨stand, -, grows⟩ := level_of_room passes.advanced room
  have fits : next'.length ≤ next.length :=
    calc next'.length ≤ (openChildren g task.goal (places frontier')).card :=
          length_le_openChildren passes'.advanced
      _ = (places next).card := by rw [stand, same]
      _ = next.length := card_places
  have room' : next'.length < (c'.width k').toNat :=
    room'.elim (fun wider => Nat.lt_of_le_of_lt fits (Nat.lt_of_lt_of_le room wider)) id
  obtain ⟨stand', -, grows'⟩ := level_of_room passes'.advanced room'
  rw [same] at stand' grows'
  exact ⟨room', stand'.trans stand.symm, _, grows, grows'⟩

end Levels

section Roomy

variable (covers : other.Covers g p'.memory) (unstopped : other.Unstopped g p'.memory)
  (limit : c.maxLength = c'.maxLength)

include covers unstopped limit

/-- A level that one iteration passes with room, another with room passes from the same places. -/
theorem Passes.repeated (passes : Passes guide g c task k depth frontier q next r)
    (room : next.length < (c.width k).toNat) (come' : Comes other g c' task k' p' depth frontier' q')
    (same : places frontier' = places frontier) (roomy' : Roomy other g c' task k' p') :
    ∃ next' r', Passes other g c' task k' depth frontier' q' next' r' ∧ places next' = places next ∧
      ∃ counts, q.tally.Grows counts r.tally ∧ q'.tally.Grows counts r'.tally := by
  rcases level_cases (covers.later come'.reaches) (unstopped.later come'.reaches) task.goal (c'.width k').toNat
    frontier' with ⟨node, r', found⟩ | ⟨next', r', advanced⟩
  · exact absurd found (passes.not_found room same)
  · have passes' : Passes other g c' task k' depth frontier' q' next' r' :=
      ⟨limit ▸ passes.within, nonempty_of_places same passes.nonempty, advanced⟩
    exact ⟨next', r', passes', (passes.agree passes' room same (.inr (roomy' come' passes'))).2⟩

variable (roomy : Roomy guide g c task k p) (roomy' : Roomy other g c' task k' p')

include roomy roomy'

/-- An iteration with room comes to every level that another with room comes to, with the same places. -/
theorem Comes.matched (come : Comes guide g c task k p depth frontier q) :
    ∃ frontier' q', Comes other g c' task k' p' depth frontier' q' ∧ places frontier' = places frontier := by
  induction come with
  | first => exact ⟨_, _, .first, rfl⟩
  | next come passes ih =>
      obtain ⟨frontier', q', come', same⟩ := ih
      obtain ⟨next', r', passes', stand, -⟩ :=
        passes.repeated covers unstopped limit (roomy come passes) come' same roomy'
      exact ⟨next', r', come'.next passes', stand⟩

theorem repeats_of_roomy : Repeats guide other g c c' task k k' p p' := by
  intro depth frontier q next r come passes
  obtain ⟨frontier', q', come', same⟩ := come.matched covers unstopped limit roomy roomy'
  obtain ⟨next', r', passes', stand, counts⟩ :=
    passes.repeated covers unstopped limit (roomy come passes) come' same roomy'
  exact ⟨frontier', q', next', r', come', passes', same, stand, counts⟩

/-- Where one iteration with room is solved, another is too, and on the same level. -/
theorem exists_solved_of_roomy (solved : iteration guide g c task k p = (.ok (some (.solved s)), r)) :
    ∃ s' r', iteration other g c' task k' p' = (.ok (some (.solved s')), r') ∧ s'.depth = s.depth := by
  obtain ⟨frontier, q, node, come, within, nonempty, found⟩ := exists_comes_of_solved solved
  obtain ⟨frontier', q', come', same⟩ := come.matched covers unstopped limit roomy roomy'
  have within' : s.depth < c'.maxLength.toNat := limit ▸ within
  have nonempty' := nonempty_of_places same nonempty
  rcases level_cases (covers.later come'.reaches) (unstopped.later come'.reaches) task.goal (c'.width k').toNat
    frontier' with ⟨node', r', found'⟩ | ⟨next', r', advanced⟩
  · obtain ⟨s', -, depth, solved'⟩ := come'.exists_solved within' nonempty' found'
    exact ⟨s', r', solved', depth⟩
  · have passes' : Passes other g c' task k' s.depth frontier' q' next' r' := ⟨within', nonempty', advanced⟩
    exact absurd found (passes'.not_found (roomy' come' passes') same.symm)

end Roomy

section Unsolved

variable (roomy : Roomy guide g c task k p) (ended : iteration guide g c task k p = (.ok none, r))
  (wider : (c.width k).toNat ≤ (c'.width k').toNat) (limit : c.maxLength = c'.maxLength)

include roomy ended wider limit

/-- An iteration without an outcome, and with room, passes every level that a wider one comes to. -/
theorem Comes.exists_passed (come : Comes other g c' task k' p' depth frontier' q')
    (within : depth < c'.maxLength.toNat) (nonempty : frontier' ≠ []) :
    ∃ frontier q next r, Comes guide g c task k p depth frontier q ∧
      Passes guide g c task k depth frontier q next r ∧ places frontier' = places frontier := by
  have matched : ∃ frontier q, Comes guide g c task k p depth frontier q ∧ places frontier' = places frontier := by
    induction come with
    | first => exact ⟨_, _, .first, rfl⟩
    | next come' passes' ih =>
        obtain ⟨frontier, q, come, same⟩ := ih passes'.within passes'.nonempty
        obtain ⟨next, r, passes⟩ := come.exists_passes (limit ▸ passes'.within)
          (nonempty_of_places same.symm passes'.nonempty) ended
        exact ⟨next, r, come.next passes, (passes.agree passes' (roomy come passes) same (.inl wider)).2.1⟩
  obtain ⟨frontier, q, come, same⟩ := matched
  obtain ⟨next, r, passes⟩ :=
    come.exists_passes (limit ▸ within) (nonempty_of_places same.symm nonempty) ended
  exact ⟨frontier, q, next, r, come, passes, same⟩

/-- What an iteration with room has not found, a wider one does not find either, and it has room as well. -/
theorem none_of_wider (covers : other.Covers g p'.memory) (unstopped : other.Unstopped g p'.memory) :
    Roomy other g c' task k' p' ∧ ∃ r', iteration other g c' task k' p' = (.ok none, r') := by
  constructor
  · intro depth frontier' q' next' r' come' passes'
    obtain ⟨frontier, q, next, r, come, passes, same⟩ :=
      come'.exists_passed roomy ended wider limit passes'.within passes'.nonempty
    exact (passes.agree passes' (roomy come passes) same (.inl wider)).1
  · rcases iteration_cases covers unstopped c' task k' with ⟨s, r', solved⟩ | unsolved
    · obtain ⟨frontier', q', node, come', within, nonempty, found⟩ := exists_comes_of_solved solved
      obtain ⟨frontier, q, next, r, come, passes, same⟩ :=
        come'.exists_passed roomy ended wider limit within nonempty
      exact absurd found (passes.not_found (roomy come passes) same)
    · exact unsolved

end Unsolved

/-- An iteration whose tally shows a peak below its width has room on every level. -/
theorem roomy_of_peak (ended : iteration guide g c task k p = (.ok none, r))
    (peak : r.tally.peakFrontier < (c.width k).toNat) : Roomy guide g c task k p := by
  intro depth frontier q next m come passes
  obtain ⟨remaining, limit⟩ := Nat.exists_eq_add_of_le (Nat.succ_le_of_lt passes.within)
  have rest := (come.next passes).iteration_eq limit.symm
  rw [ended] at rest
  calc next.length ≤ m.tally.peakFrontier := length_le_peak passes.advanced
    _ ≤ r.tally.peakFrontier := (levels_changes rest.symm).peak_le
    _ < (c.width k).toNat := peak

section Search

variable (covers : guide.Covers g memory) (unstopped : guide.Unstopped g memory)

include covers unstopped

/-- Once an iteration with room has had no outcome, all later ones have room and no outcome. -/
theorem none_of_later (settings : c.fault? = none) (begun : Begins guide g c task memory k p)
    (roomy : Roomy guide g c task k p) (ended : iteration guide g c task k p = (.ok none, q)) {j : Nat}
    (later : k ≤ j) :
    ∃ p q, Begins guide g c task memory j p ∧ Roomy guide g c task j p ∧
      iteration guide g c task j p = (.ok none, q) := by
  induction j, later using Nat.le_induction with
  | base => exact ⟨p, q, begun, roomy, ended⟩
  | succ j later ih =>
      obtain ⟨p, q, begun, roomy, ended⟩ := ih
      have next := begun.next ended
      obtain ⟨roomy', r, ended'⟩ := none_of_wider roomy ended (c.width_le_succ settings j) rfl
        (covers.later next.reaches) (unstopped.later next.reaches)
      exact ⟨q, r, next, roomy', ended'⟩

/-- A search ends exhausted once one of its iterations has had room and no outcome. -/
theorem exhausted_of_roomy (settings : c.fault? = none) (inputs : task.fault? = none)
    (within : k < c.iterations.toNat) (begun : Begins guide g c task memory k p)
    (roomy : Roomy guide g c task k p) (ended : iteration guide g c task k p = (.ok none, q)) :
    ∃ r, search guide g c task memory = (.ok .exhausted, r) := by
  obtain ⟨last, steps⟩ := Nat.exists_eq_succ_of_ne_zero (Nat.ne_zero_of_lt within)
  obtain ⟨p', q', begun', -, ended'⟩ :=
    none_of_later covers unstopped settings begun roomy ended (j := last) (by omega)
  exact ⟨q', search_of_all settings inputs (steps ▸ begun'.next ended')⟩

/-- Ranking changes nothing in iterations that leave room in their beams. Two of them, of searches under any guides
that cover the grammar and never stop, and with settings that agree in the number of levels, repeat each other level
by level, and are solved on the same level or both without an outcome. And once one iteration of a search has had no
outcome, every later one has room again, repeats it and has no outcome, so that the search ends exhausted. -/
theorem unfilled_independent_of_ranking (covers' : other.Covers g memory') (unstopped' : other.Unstopped g memory')
    (limit : c.maxLength = c'.maxLength) (task : Task) :
    (∀ k p k' p', Begins guide g c task memory k p → Begins other g c' task memory' k' p' →
      Roomy guide g c task k p → Roomy other g c' task k' p' →
      Repeats guide other g c c' task k k' p p' ∧ Repeats other guide g c' c task k' k p' p ∧
      ((∃ s q s' q', iteration guide g c task k p = (.ok (some (.solved s)), q) ∧
          iteration other g c' task k' p' = (.ok (some (.solved s')), q') ∧ s'.depth = s.depth) ∨
        ∃ q q', iteration guide g c task k p = (.ok none, q) ∧ iteration other g c' task k' p' = (.ok none, q'))) ∧
    (∀ k p q, c.fault? = none → task.fault? = none → k < c.iterations.toNat →
      Begins guide g c task memory k p → Roomy guide g c task k p →
      iteration guide g c task k p = (.ok none, q) →
      (∃ r, search guide g c task memory = (.ok .exhausted, r)) ∧
      ∀ j, k < j → j < c.iterations.toNat → ∃ p' q', Begins guide g c task memory j p' ∧
        Roomy guide g c task j p' ∧ iteration guide g c task j p' = (.ok none, q') ∧
        Repeats guide guide g c c task k j p p' ∧ Repeats guide guide g c c task j k p' p) := by
  constructor
  · intro k p k' p' begun begun' roomy roomy'
    have coversThere := covers'.later begun'.reaches
    have coversHere := covers.later begun.reaches
    have downThere := unstopped'.later begun'.reaches
    have downHere := unstopped.later begun.reaches
    refine ⟨repeats_of_roomy coversThere downThere limit roomy roomy',
      repeats_of_roomy coversHere downHere limit.symm roomy' roomy, ?_⟩
    rcases iteration_cases coversHere downHere c task k with ⟨s, q, solved⟩ | ⟨q, ended⟩
    · obtain ⟨s', q', solved', depth⟩ := exists_solved_of_roomy coversThere downThere limit roomy roomy' solved
      exact .inl ⟨s, q, s', q', solved, solved', depth⟩
    · rcases iteration_cases coversThere downThere c' task k' with ⟨s', q', solved'⟩ | ⟨q', ended'⟩
      · obtain ⟨s, r, solved, -⟩ := exists_solved_of_roomy coversHere downHere limit.symm roomy' roomy solved'
        rw [ended] at solved
        cases solved
      · exact .inr ⟨q, q', ended, ended'⟩
  · intro k p q settings inputs within begun roomy ended
    constructor
    · exact exhausted_of_roomy covers unstopped settings inputs within begun roomy ended
    · intro j later _
      obtain ⟨p', q', begun', roomy', ended'⟩ :=
        none_of_later covers unstopped settings begun roomy ended (Nat.le_of_lt later)
      exact ⟨p', q', begun', roomy', ended',
        repeats_of_roomy (covers.later begun'.reaches) (unstopped.later begun'.reaches) rfl roomy roomy',
        repeats_of_roomy (covers.later begun.reaches) (unstopped.later begun.reaches) rfl roomy' roomy⟩

end Search

section Fives

/-- A guide that puts what is listed first last. -/
def Guide.contrary : Guide Unit where
  predict g _ _ m :=
    (.ofFn fun k => (List.range (k.choices g)).map fun i => if i = 0 then .undefined else -.undefined, m)
  stopped m := (false, m)

def Settings.repeated : Settings := { maxLength := 2, iterations := 2 }

theorem roomy_of_five {guide : Guide Unit} {c : Settings}
    (none : (iteration guide .summing c .ofFive 0 ⟨{}, ()⟩).1.toOption.map Option.isNone = some true)
    (peak : (iteration guide .summing c .ofFive 0 ⟨{}, ()⟩).2.tally.peakFrontier < (c.width 0).toNat) :
    (∃ q, iteration guide .summing c .ofFive 0 ⟨{}, ()⟩ = (.ok .none, q)) ∧
      Roomy guide .summing c .ofFive 0 ⟨{}, ()⟩ := by
  rcases ended : iteration guide .summing c .ofFive 0 ⟨{}, ()⟩ with ⟨e | (_ | outcome), q⟩
  · rw [ended] at none
    cases none
  · rw [ended] at peak
    exact ⟨⟨q, rfl⟩, roomy_of_peak ended peak⟩
  · rw [ended] at none
    simp [Except.toOption] at none

/-- Whatever its guide, an iteration of a wide enough beam leaves room and finds no program that makes five. -/
theorem none_of_five {memory : τ} (covers : other.Covers .summing memory) (unstopped : other.Unstopped .summing memory)
    (wider : (Settings.brief.width 0).toNat ≤ (c.width 0).toNat) (limit : Settings.brief.maxLength = c.maxLength) :
    Roomy other .summing c .ofFive 0 ⟨{}, memory⟩ ∧
      ∃ r, iteration other .summing c .ofFive 0 ⟨{}, memory⟩ = (.ok none, r) := by
  obtain ⟨⟨q, ended⟩, roomy⟩ : _ ∧ Roomy .blind .summing .brief .ofFive 0 ⟨{}, ()⟩ :=
    roomy_of_five (by cbv) (by cbv)
  exact none_of_wider roomy ended wider limit covers unstopped

theorem unfilled_independent_of_ranking_of_five :
    Repeats .blind .contrary .summing .repeated .brief .ofFive 0 0 ⟨{}, ()⟩ ⟨{}, ()⟩ ∧
    (∃ r, search .blind .summing .repeated .ofFive () = (.ok .exhausted, r)) ∧
    ∃ p, Begins .blind .summing .repeated .ofFive () 1 p ∧
      Repeats .blind .blind .summing .repeated .repeated .ofFive 1 0 p ⟨{}, ()⟩ := by
  have covers' : Guide.contrary.Covers .summing () := by
    intro m _ goal s k _
    simp [Guide.contrary]
  have unstopped' : Guide.contrary.Unstopped .summing () := fun _ _ => rfl
  obtain ⟨⟨q, ended⟩, roomy⟩ : _ ∧ Roomy .blind .summing .repeated .ofFive 0 ⟨{}, ()⟩ :=
    roomy_of_five (by cbv) (by cbv)
  obtain ⟨-, roomy'⟩ : _ ∧ Roomy .contrary .summing .brief .ofFive 0 ⟨{}, ()⟩ :=
    roomy_of_five (by cbv) (by cbv)
  have limit : Settings.repeated.maxLength = Settings.brief.maxLength := rfl
  obtain ⟨pairs, later⟩ := unfilled_independent_of_ranking (Guide.covers_blind _) (Guide.unstopped_blind _)
    covers' unstopped' limit .ofFive
  obtain ⟨exhausted, all⟩ := later 0 ⟨{}, ()⟩ q rfl rfl (by decide) .first roomy ended
  obtain ⟨p, -, begun, -, -, -, repeats⟩ := all 1 Nat.one_pos (by decide)
  exact ⟨(pairs 0 _ 0 _ .first .first roomy roomy').1, exhausted, p, begun, repeats⟩

end Fives

end ListSynth
