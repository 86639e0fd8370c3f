import ListSynth.Search.Level
/-!
The order of ranks, and of pools sorted by it. Ranks are ordered as a whole, numbers and what is none alike, and a pool
that is sorted by rank with equal ranks in their old order can be sorted in one way only.
-/

namespace ListSynth

namespace Number

def isNegative (a : Number) : Bool := 0x8000000000000000 ≤ a.bits

/-- The bits without the sign. Infinity has more than every number, and what is no number more than infinity. -/
def magnitude (a : Number) : Nat := a.bits.toNat % 0x8000000000000000

/-- The order of all numbers, by sign first, where zeros have signs as well, and then by magnitude. -/
def Above (a b : Number) : Prop :=
  match a.isNegative, b.isNegative with
  | false, true => True
  | true, false => False
  | false, false => b.magnitude < a.magnitude
  | true, true => a.magnitude < b.magnitude

variable {a b : Number}

theorem magnitude_lt (a : Number) : a.magnitude < 0x8000000000000000 := Nat.mod_lt _ (by decide)

theorem isNegative_iff : a.isNegative = true ↔ 0x8000000000000000 ≤ a.bits.toNat :=
  decide_eq_true_iff.trans UInt64.le_iff_toNat_le

theorem toNat_bits (a : Number) : a.bits.toNat = (if a.isNegative then 0x8000000000000000 else 0) + a.magnitude := by
  have range := a.bits.toNat_lt
  unfold magnitude
  split
  · rename_i negative
    have large := isNegative_iff.mp negative
    omega
  · rename_i positive
    have small := mt isNegative_iff.mpr positive
    omega

theorem toNat_key (a : Number) : a.key.toNat =
    if a.isNegative then 0x7FFFFFFFFFFFFFFF - a.magnitude else 0x8000000000000000 + a.magnitude := by
  have bits := a.toNat_bits
  have range := a.magnitude_lt
  have sign : (0x8000000000000000 : UInt64).toNat = 0x8000000000000000 := rfl
  cases negative : a.isNegative with
  | true =>
      have large : ¬ a.bits < 0x8000000000000000 := UInt64.not_lt.mpr (of_decide_eq_true negative)
      rw [negative, if_pos rfl] at bits
      rw [key, if_neg large, if_pos rfl, UInt64.toNat_not, bits]
      simp only [UInt64.size]
      omega
  | false =>
      have small : a.bits < 0x8000000000000000 := UInt64.not_le.mp (of_decide_eq_false negative)
      rw [negative, if_neg Bool.false_ne_true] at bits
      rw [key, if_pos small, if_neg Bool.false_ne_true, UInt64.toNat_add, bits, sign]
      omega

/-- Keys are ordered as the numbers that they are of. -/
theorem above_iff : a.Above b ↔ b.key < a.key := by
  have := a.magnitude_lt
  have := b.magnitude_lt
  rw [UInt64.lt_iff_toNat_lt, toNat_key, toNat_key]
  unfold Above
  cases a.isNegative <;> cases b.isNegative <;> simp only [if_true, Bool.false_eq_true, if_false, true_iff, false_iff]
  all_goals omega

instance (a b : Number) : Decidable (a.Above b) := decidable_of_iff _ above_iff.symm

example : (-undefined).Above one ∧ zero.Above (-zero) ∧ (-zero).Above leastInfinity ∧
    leastInfinity.Above undefined := by decide

theorem eq_of_not_above (below : ¬ a.Above b) (above : ¬ b.Above a) : a = b := by
  rw [above_iff, UInt64.not_lt, UInt64.le_iff_toNat_le] at below above
  have keys : a.key.toNat = b.key.toNat := Nat.le_antisymm below above
  have := a.magnitude_lt
  have := b.magnitude_lt
  have bits : a.bits.toNat = b.bits.toNat := by
    rw [toNat_key, toNat_key] at keys
    rw [toNat_bits, toNat_bits]
    split at keys <;> split at keys <;> simp only [*, if_true, if_false, Bool.false_eq_true] at keys ⊢
    all_goals omega
  exact congrArg Number.mk (UInt64.toNat_inj.mp bits)

theorem not_above_self (a : Number) : ¬ a.Above a := fun above => UInt64.lt_irrefl _ (above_iff.mp above)

end Number

theorem Ranking.before_eq_true_iff {x y : Number} : before x y = true ↔ ¬ y.Above x := by
  rw [Number.above_iff, UInt64.not_lt]
  exact decide_eq_true_iff

def Node.Outranks (a b : Node) : Prop := a.rank.Above b.rank

variable {pool sorted others : List Node}

/-- A pool is sorted when no node comes after one that it outranks, and nodes of the same rank come as in the pool. -/
structure StablySorted (pool sorted : List Node) : Prop where
  perm : sorted.Perm pool
  ordered : sorted.Pairwise fun a b => ¬ b.Outranks a
  stable : ∀ rank, (sorted.filter fun node => node.rank = rank) = pool.filter fun node => node.rank = rank

theorem stablySorted_sortByRank (pool : List Node) : StablySorted pool (sortByRank pool) := by
  have trans : ∀ a b c : Node, Ranking.before a.rank b.rank = true → Ranking.before b.rank c.rank = true →
      Ranking.before a.rank c.rank = true := by
    intro a b c first second
    exact decide_eq_true (UInt64.le_trans (of_decide_eq_true second) (of_decide_eq_true first))
  have total : ∀ a b : Node, (Ranking.before a.rank b.rank || Ranking.before b.rank a.rank) = true := by
    intro a b
    rw [Bool.or_eq_true]
    exact (UInt64.le_total b.rank.key a.rank.key).imp decide_eq_true decide_eq_true
  refine ⟨List.mergeSort_perm pool _, ?_, ?_⟩
  · exact (List.pairwise_mergeSort trans total pool).imp fun before => Ranking.before_eq_true_iff.mp before
  · intro rank
    have level : (pool.filter fun node => node.rank = rank).Pairwise
        fun a b => Ranking.before a.rank b.rank = true := by
      refine List.pairwise_of_forall_mem_list ?_
      intro a ha b hb
      have first : a.rank = rank := of_decide_eq_true (List.mem_filter.mp ha).2
      have second : b.rank = rank := of_decide_eq_true (List.mem_filter.mp hb).2
      rw [first, second, Ranking.before_eq_true_iff]
      exact rank.not_above_self
    have kept := (List.sublist_mergeSort trans total level List.filter_sublist).filter fun node => node.rank = rank
    rw [List.filter_filter] at kept
    simp only [Bool.and_self] at kept
    have size := ((List.mergeSort_perm pool fun a b => Ranking.before a.rank b.rank).filter
      fun node => node.rank = rank).length_eq
    exact (kept.eq_of_length size.symm).symm

/-- Two lists in the order of ranks that agree in the nodes of each rank agree altogether. -/
theorem eq_of_ordered (perm : sorted.Perm others) (ordered : sorted.Pairwise fun a b => ¬ b.Outranks a)
    (ordered' : others.Pairwise fun a b => ¬ b.Outranks a)
    (same : ∀ rank, (sorted.filter fun node => node.rank = rank) = others.filter fun node => node.rank = rank) :
    sorted = others := by
  induction sorted generalizing others with
  | nil => exact perm.nil_eq
  | cons x xs ih =>
      cases others with
      | nil => exact perm.eq_nil
      | cons y ys =>
          have first : ∀ {x y : Node} {ys : List Node}, x ∈ y :: ys →
              (y :: ys).Pairwise (fun a b => ¬ b.Outranks a) → ¬ x.Outranks y := by
            intro x y ys hx ordered
            rcases List.mem_cons.mp hx with rfl | later
            · exact x.rank.not_above_self
            · exact List.rel_of_pairwise_cons ordered later
          -- neither head outranks the other, so they are the first of one rank
          have rank : x.rank = y.rank := Number.eq_of_not_above
            (first (perm.mem_iff.mp List.mem_cons_self) ordered')
            (first (perm.mem_iff.mpr List.mem_cons_self) ordered)
          have heads := same y.rank
          rw [List.filter_cons_of_pos (by simpa using rank), List.filter_cons_of_pos (by simp)] at heads
          obtain ⟨rfl, -⟩ := List.cons.inj heads
          refine congrArg (x :: ·) (ih perm.cons_inv ordered.of_cons ordered'.of_cons ?_)
          intro r
          have all := same r
          rw [List.filter_cons, List.filter_cons] at all
          split at all
          · exact (List.cons.inj all).2
          · exact all

theorem StablySorted.eq_sortByRank (h : StablySorted pool sorted) : sorted = sortByRank pool := by
  have other := stablySorted_sortByRank pool
  exact eq_of_ordered (h.perm.trans other.perm.symm) h.ordered other.ordered
    fun rank => (h.stable rank).trans (other.stable rank).symm

end ListSynth
