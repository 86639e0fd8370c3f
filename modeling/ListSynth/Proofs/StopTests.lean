import ListSynth.Proofs.Widths
/-!
When a beam is full. A walk comes to its stop test after each node that it passes, and ends where as many nodes have
been admitted as the beam is wide. Since every width is positive and widths do not wrap around, a beam is full only once
a node has just been admitted, and it is never more than full.
-/

namespace ListSynth

variable {σ : Type} {guide : Guide σ} {goal : Goal} {lengths : Option (List Nat)} {pool admitted now next : List Node}
  {last : Node} {room width : Nat} {p q : Progress σ}

/-- The nodes that are admitted once one more has been passed, the latest first. -/
def passing (lengths : Option (List Nat)) (node : Node) (admitted : List Node) : List Node :=
  if node.isOpen lengths then node :: admitted else admitted

/-- A walk that counts what it has admitted, and stops where there are exactly as many nodes as the beam is wide. -/
def walkTo (guide : Guide σ) (goal : Goal) (lengths : Option (List Nat)) (width : Nat) :
    List Node → List Node → Progress σ → LevelEnd × Progress σ
  | [], admitted, p => (.advanced admitted.reverse, p)
  | node :: rest, admitted, p =>
    if goal.isReachedBy node.state then (.found node, p)
    else if (guide.stopped p.memory).1 then (.cancelled, p.past guide lengths node)
    else
      let admitted := passing lengths node admitted
      if admitted.length = width then (.advanced admitted.reverse, p.past guide lengths node)
      else walkTo guide goal lengths width rest admitted (p.past guide lengths node)

/-- A walk comes to a stop test: it has passed the node `last`, which was no solution and after which the signal was
down, and has admitted the nodes `now`, the latest first. At no test before was the beam full. -/
inductive StopTest (guide : Guide σ) (goal : Goal) (lengths : Option (List Nat)) (width : Nat) :
    List Node → List Node → Progress σ → Node → List Node → Prop
  | here {node : Node} {rest admitted : List Node} {p : Progress σ} (unreached : goal.isReachedBy node.state = false)
      (down : (guide.stopped p.memory).1 = false) :
      StopTest guide goal lengths width (node :: rest) admitted p node (passing lengths node admitted)
  | later {node last : Node} {rest admitted now : List Node} {p : Progress σ}
      (unreached : goal.isReachedBy node.state = false) (down : (guide.stopped p.memory).1 = false)
      (room : (passing lengths node admitted).length ≠ width)
      (test : StopTest guide goal lengths width rest (passing lengths node admitted) (p.past guide lengths node) last now) :
      StopTest guide goal lengths width (node :: rest) admitted p last now

section Tests

theorem filter_append_eq_passing (node : Node) (admitted : List Node) :
    [node].filter (Node.isOpen lengths) ++ admitted = passing lengths node admitted := by
  unfold passing
  cases isOpen : node.isOpen lengths <;> simp [isOpen]

/-- Where there was room in a beam, it is full at most once one more node has been passed. -/
theorem length_passing_le (node : Node) (spare : admitted.length < width) :
    (passing lengths node admitted).length ≤ width := by
  unfold passing
  split
  · exact spare
  · exact Nat.le_of_lt spare

/-- Counting up to the width comes to the same as counting down what room is left. -/
theorem walk_eq_walkTo (spare : 0 < room) (left : admitted.length + room = width) :
    walk guide goal lengths pool room admitted p = walkTo guide goal lengths width pool admitted p := by
  induction pool generalizing room admitted p with
  | nil => rfl
  | cons node rest ih =>
      have one : ([node].filter (Node.isOpen lengths)).length ≤ 1 := List.length_filter_le _ [node]
      have count : ([node].filter (Node.isOpen lengths)).length + admitted.length =
          (passing lengths node admitted).length := by
        rw [← filter_append_eq_passing, List.length_append]
      rw [walk_cons, walkTo]
      dsimp only
      rw [filter_append_eq_passing]
      by_cases full : (passing lengths node admitted).length = width
      · rw [if_pos full, if_pos (show room - _ = 0 by omega)]
      · rw [if_neg full, if_neg (show room - _ ≠ 0 by omega), ih (by omega) (by omega)]

/-- At every stop test the beam is full at most, and where it is full the node just passed has been admitted. -/
theorem StopTest.full (test : StopTest guide goal lengths width pool admitted p last now)
    (spare : admitted.length < width) :
    now.length ≤ width ∧ (now.length = width → ∃ before, now = last :: before) := by
  induction test with
  | @here node rest admitted p unreached down =>
      refine ⟨length_passing_le node spare, ?_⟩
      intro full
      unfold passing at full ⊢
      split at full
      · rename_i isOpen
        exact ⟨admitted, if_pos isOpen⟩
      · exact absurd full (Nat.ne_of_lt spare)
  | later unreached down room test ih => exact ih (Nat.lt_of_le_of_ne (length_passing_le _ spare) room)

/-- A walk that goes on has passed the whole pool, or has come to a stop test at which the beam was full. -/
theorem walkTo_advanced (h : walkTo guide goal lengths width pool admitted p = (.advanced next, q)) :
    next = admitted.reverse ++ pool.filter (Node.isOpen lengths) ∨
      ∃ last now, StopTest guide goal lengths width pool admitted p last now ∧ now.length = width ∧
        next = now.reverse := by
  induction pool generalizing admitted p with
  | nil =>
      cases h
      exact .inl (List.append_nil _).symm
  | cons node rest ih =>
      rw [walkTo] at h
      split at h
      · cases h
      · rename_i reached
        have unreached : goal.isReachedBy node.state = false := by simpa using reached
        split at h
        · cases h
        · rename_i up
          have down : (guide.stopped p.memory).1 = false := by simpa using up
          dsimp only at h
          split at h
          · rename_i full
            cases h
            exact .inr ⟨node, _, .here unreached down, full, rfl⟩
          · rename_i room
            rcases ih h with all | ⟨last, now, test, full, same⟩
            · refine .inl (all.trans ?_)
              unfold passing
              cases isOpen : node.isOpen lengths <;> simp [isOpen]
            · exact .inr ⟨last, now, .later unreached down room test, full, same⟩

end Tests

namespace Settings

/-- Widths are exact until they saturate. The width of an iteration is the beam size times the power of the widening
factor, cut off once at the greatest word. Accepted settings have a positive beam size that no width falls short of, and
every width short of the greatest word is followed by a wider one. So a walk may end by comparing the number of admitted
nodes with the width: there are never more of them, and where there are as many, the node just passed has been admitted.
It goes on with all open nodes of its pool, unless it has come to a test at which the beam is full. -/
theorem widths_exact_until_saturated (c : Settings) :
    (∀ k, (c.width k).toNat = min (2 ^ 64 - 1) (c.beamSize.toNat * c.widening.toNat ^ k)) ∧
    (c.fault? = none → 1 ≤ c.beamSize ∧ ∀ k, c.beamSize ≤ c.width k ∧
      ((c.width k).toNat < 2 ^ 64 - 1 → c.width k < c.width (k + 1)) ∧
      ∀ {σ : Type} (guide : Guide σ) (goal : Goal) (lengths : Option (List Nat)) (pool : List Node) (p : Progress σ),
        walk guide goal lengths pool (c.width k).toNat [] p =
          walkTo guide goal lengths (c.width k).toNat pool [] p ∧
        (∀ last now, StopTest guide goal lengths (c.width k).toNat pool [] p last now →
          now.length ≤ (c.width k).toNat ∧
          (now.length = (c.width k).toNat → ∃ before, now = last :: before)) ∧
        ∀ next q, walk guide goal lengths pool (c.width k).toNat [] p = (.advanced next, q) →
          next = pool.filter (Node.isOpen lengths) ∨
            ∃ last now, StopTest guide goal lengths (c.width k).toNat pool [] p last now ∧
              now.length = (c.width k).toNat ∧ next = now.reverse) := by
  constructor
  · intro k
    rw [toNat_width, Nat.mul_comm, Nat.min_comm]
    rfl
  · intro settings
    refine ⟨UInt64.le_iff_toNat_le.mpr (beamSize_pos settings), ?_⟩
    intro k
    refine ⟨UInt64.le_iff_toNat_le.mpr (beamSize_le_width settings k), ?_, ?_⟩
    · intro below
      exact UInt64.lt_iff_toNat_lt.mpr (width_lt_succ settings below)
    · intro σ guide goal lengths pool p
      have counted : walk guide goal lengths pool (c.width k).toNat [] p =
          walkTo guide goal lengths (c.width k).toNat pool [] p :=
        walk_eq_walkTo (width_pos settings k) (Nat.zero_add _)
      refine ⟨counted, ?_, ?_⟩
      · intro last now test
        exact test.full (width_pos settings k)
      · intro next q advanced
        exact walkTo_advanced (counted.symm.trans advanced)

section Narrow

def narrow : Settings := { beamSize := 1 }

theorem widths_exact_until_saturated_of_narrow :
    narrow.fault? = none ∧ (narrow.width 64).toNat = 2 ^ 64 - 1 ∧
    (narrow.width 62).toNat < 2 ^ 64 - 1 ∧ narrow.width 62 < narrow.width (62 + 1) ∧
    ∃ node now, StopTest .blind (.ofTarget (.ofInts [5])) none (narrow.width 0).toNat [node] [] ⟨{}, ()⟩ node now ∧
      now.length = (narrow.width 0).toNat ∧ ∃ before, now = node :: before := by
  have settings : narrow.fault? = none := rfl
  have below : (narrow.width 62).toNat < 2 ^ 64 - 1 := by decide
  obtain ⟨exact, accepted⟩ := widths_exact_until_saturated narrow
  obtain ⟨-, widths⟩ := accepted settings
  refine ⟨settings, (exact 64).trans (by decide), below, (widths 62).2.1 below, ?_⟩
  obtain ⟨-, -, walks⟩ := widths 0
  have test : StopTest .blind (.ofTarget (.ofInts [5])) none (narrow.width 0).toNat
      [.root [.single (.ofInts [7])]] [] ⟨{}, ()⟩ _ _ := .here (by decide) rfl
  exact ⟨_, _, test, rfl, ((walks _ _ _ _ _).2.1 _ _ test).2 rfl⟩

end Narrow

end Settings

end ListSynth
