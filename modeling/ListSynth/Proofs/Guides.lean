import ListSynth.Proofs.Alike
/-!
Searches under guides that answer alike. Where the memory of one guide is an image of the memory of another,
the search under the first is the image of the search under the second.
-/

namespace ListSynth

variable {σ τ : Type} {guide : Guide σ} {image : Guide τ} {f : σ → τ} {g : Grammar} {c : Settings}
  {task : Task}

def Progress.map (f : σ → τ) (p : Progress σ) : Progress τ := ⟨p.tally, f p.memory⟩

/-- A guide answers as the image of another, and moves its memory on as the image of the other's. -/
structure Guide.Maps (guide : Guide σ) (image : Guide τ) (f : σ → τ) : Prop where
  predict : ∀ g goal s m, image.predict g goal s (f m) = (guide.predict g goal s m).map id f
  stopped : ∀ m, image.stopped (f m) = (guide.stopped m).map id f

namespace Guide.Maps

theorem alike (h : guide.Maps image f) (g : Grammar) : guide.Alike image g fun m n => n = f m where
  predict := by
    rintro m _ goal s rfl
    rw [h.predict]
    exact ⟨rfl, rfl⟩
  stopped := by
    rintro m _ rfl
    rw [h.stopped]
    exact ⟨rfl, rfl⟩

theorem search (h : guide.Maps image f) (m : σ) : ListSynth.search image g c task (f m) =
    (ListSynth.search guide g c task m).map id (Progress.map f) := by
  obtain ⟨r, q, q', left, right, tally, memory⟩ := ((h.alike g).search c task rfl).exists_eq
  rw [Tally.nothing_append] at tally
  rw [left, right]
  cases q'
  cases tally
  cases memory
  rfl

end Guide.Maps

namespace Scorer

def unstopped : Guide Scorer where
  predict g _ _ m := m.answer g
  stopped m := (false, m)

theorem maps_unstopped : (Scorer.guide fun _ => false).Maps unstopped Prod.fst where
  predict _ _ _ _ := rfl
  stopped _ := rfl

/-- How often a flag that stays down has been read before makes no difference to a search. -/
theorem search_of_down (scorer : Scorer) (m n : Nat) :
    (search (Scorer.guide fun _ => false) g c task (scorer, m)).map id Progress.tally =
      (search (Scorer.guide fun _ => false) g c task (scorer, n)).map id Progress.tally := by
  have image : ∀ k, (search (Scorer.guide fun _ => false) g c task (scorer, k)).map id Progress.tally =
      (search unstopped g c task scorer).map id Progress.tally := by
    intro k
    have same : search unstopped g c task scorer = _ := maps_unstopped.search (scorer, k)
    rw [same]
    rfl
  rw [image m, image n]

end Scorer

end ListSynth
