import Mathlib.Data.List.Forall2
/-!
Results that may be errors: when a chain of them, or a list of them, is no error.
-/

namespace ListSynth

variable {α β ε : Type}

theorem bind_eq_ok_iff {x : Except ε α} {f : α → Except ε β} {b : β} :
    (x >>= f) = .ok b ↔ ∃ a, x = .ok a ∧ f a = .ok b := by
  cases x with
  | error e => simp [bind, Except.bind]
  | ok a => simp [bind, Except.bind]

theorem bind_eq_error_iff {x : Except ε α} {f : α → Except ε β} {e : ε} :
    (x >>= f) = .error e ↔ x = .error e ∨ ∃ a, x = .ok a ∧ f a = .error e := by
  cases x with
  | error e => simp [bind, Except.bind]
  | ok a => simp [bind, Except.bind]

theorem map_eq_ok_iff {f : α → β} {x : Except ε α} {b : β} :
    x.map f = .ok b ↔ ∃ a, x = .ok a ∧ f a = b := by
  cases x with
  | error e => simp [Except.map]
  | ok a => simp [Except.map]

theorem map_eq_error_iff {f : α → β} {x : Except ε α} {e : ε} : x.map f = .error e ↔ x = .error e := by
  cases x with
  | error e => simp [Except.map]
  | ok a => simp [Except.map]

section Kinds

variable {κ : Type} {kind : ε → κ} {x y : Except ε α} {f g : α → Except ε β}

theorem mapError_eq_ok_iff {a : α} : x.mapError kind = .ok a ↔ x = .ok a := by
  cases x with
  | error e => simp [Except.mapError]
  | ok b => simp [Except.mapError]

/-- Chains whose links agree, up to the kinds of their errors, agree so as a whole. -/
theorem mapError_bind_congr (first : x.mapError kind = y.mapError kind)
    (rest : ∀ a, (f a).mapError kind = (g a).mapError kind) :
    (x >>= f).mapError kind = (y >>= g).mapError kind := by
  cases x with
  | error e =>
      cases y with
      | error e' =>
          injection first with same
          exact congrArg Except.error same
      | ok b => cases first
  | ok a =>
      cases y with
      | error e => cases first
      | ok b =>
          cases first
          exact rest a

theorem mapError_map_congr (h : α → β) (same : x.mapError kind = y.mapError kind) :
    (x.map h).mapError kind = (y.map h).mapError kind := by
  apply mapError_bind_congr (f := fun a => .ok (h a)) (g := fun a => .ok (h a)) same
  intro a
  rfl

theorem mapError_mapM_congr (each : ∀ a, (f a).mapError kind = (g a).mapError kind) (xs : List α) :
    (xs.mapM f).mapError kind = (xs.mapM g).mapError kind := by
  induction xs with
  | nil => rfl
  | cons a rest ih =>
      rw [List.mapM_cons, List.mapM_cons]
      apply mapError_bind_congr (each a)
      intro b
      apply mapError_bind_congr ih
      intro bs
      rfl

end Kinds

/-- A list of attempts has a result when each of them has one. -/
theorem mapM_eq_ok_iff {f : α → Except ε β} {xs : List α} {ys : List β} :
    xs.mapM f = .ok ys ↔ List.Forall₂ (fun x y => f x = .ok y) xs ys := by
  induction xs generalizing ys with
  | nil => simp [List.mapM_nil, pure, Except.pure, eq_comm]
  | cons x xs ih =>
      simp only [List.mapM_cons, bind_eq_ok_iff, List.forall₂_cons_left_iff, ih, pure, Except.pure,
        Except.ok.injEq]
      constructor
      · rintro ⟨y, hy, ys', hys, rfl⟩
        exact ⟨y, ys', hy, hys, rfl⟩
      · rintro ⟨y, ys', hy, hys, rfl⟩
        exact ⟨y, hy, ys', hys, rfl⟩

theorem exists_mapM {f : α → Except ε β} {xs : List α} (each : ∀ x ∈ xs, ∃ y, f x = .ok y) :
    ∃ ys, xs.mapM f = .ok ys := by
  induction xs with
  | nil => exact ⟨[], rfl⟩
  | cons x xs ih =>
      obtain ⟨y, hy⟩ := each x List.mem_cons_self
      obtain ⟨ys, hys⟩ := ih fun x' hx => each x' (List.mem_cons_of_mem x hx)
      exact ⟨y :: ys, mapM_eq_ok_iff.mpr (.cons hy (mapM_eq_ok_iff.mp hys))⟩

/-- A list of attempts fails at the first of them that fails. -/
theorem mapM_eq_error_iff {f : α → Except ε β} {xs : List α} {e : ε} :
    xs.mapM f = .error e ↔
      ∃ front x rest, xs = front ++ x :: rest ∧ (∀ y ∈ front, ∃ b, f y = .ok b) ∧ f x = .error e := by
  induction xs with
  | nil => simp [List.mapM_nil, pure, Except.pure]
  | cons x xs ih =>
      rw [List.mapM_cons]
      cases first : f x with
      | error e' =>
          constructor
          · intro h
            cases h
            exact ⟨[], x, xs, rfl, List.forall_mem_nil _, first⟩
          · rintro ⟨front, y, rest, same, sound, fails⟩
            cases front with
            | nil =>
                cases same
                cases first.symm.trans fails
                rfl
            | cons z front =>
                cases same
                obtain ⟨b, fine⟩ := sound x List.mem_cons_self
                cases first.symm.trans fine
      | ok b =>
          have later : (Except.ok b >>= fun b => xs.mapM f >>= fun bs => pure (b :: bs)) = .error e ↔
              xs.mapM f = .error e := map_eq_error_iff (f := (b :: ·))
          rw [later, ih]
          constructor
          · rintro ⟨front, y, rest, rfl, sound, fails⟩
            exact ⟨x :: front, y, rest, rfl, List.forall_mem_cons.mpr ⟨⟨b, first⟩, sound⟩, fails⟩
          · rintro ⟨front, y, rest, same, sound, fails⟩
            cases front with
            | nil =>
                cases same
                cases first.symm.trans fails
            | cons z front =>
                cases same
                exact ⟨front, y, rest, rfl, fun z hz => sound z (List.mem_cons_of_mem x hz), fails⟩

theorem mapM_eq_error_iff_of_mem {f : α → Except ε β} {xs : List α} {e : ε} {P Q : α → Prop}
    (sound : ∀ x ∈ xs, (∃ b, f x = .ok b) ↔ P x) (fails : ∀ x ∈ xs, f x = .error e ↔ Q x) :
    xs.mapM f = .error e ↔ ∃ front x rest, xs = front ++ x :: rest ∧ (∀ y ∈ front, P y) ∧ Q x := by
  rw [mapM_eq_error_iff]
  constructor
  · rintro ⟨front, x, rest, rfl, before, here⟩
    exact ⟨front, x, rest, rfl, fun y hy => (sound y (List.mem_append_left _ hy)).mp (before y hy),
      (fails x (List.mem_append_right _ List.mem_cons_self)).mp here⟩
  · rintro ⟨front, x, rest, rfl, before, here⟩
    exact ⟨front, x, rest, rfl, fun y hy => (sound y (List.mem_append_left _ hy)).mpr (before y hy),
      (fails x (List.mem_append_right _ List.mem_cons_self)).mpr here⟩

theorem mapM_congr {f g : α → Except ε β} {xs : List α} (same : ∀ x ∈ xs, f x = g x) : xs.mapM f = xs.mapM g := by
  induction xs with
  | nil => rfl
  | cons x xs ih =>
      rw [List.mapM_cons, List.mapM_cons, same x List.mem_cons_self, ih fun y hy => same y (List.mem_cons_of_mem x hy)]

theorem mapM_eq_some_iff {f : α → Option β} {xs : List α} {ys : List β} :
    xs.mapM f = some ys ↔ List.Forall₂ (fun x y => f x = some y) xs ys := by
  induction xs generalizing ys with
  | nil => simp [List.mapM_nil, eq_comm]
  | cons x xs ih =>
      simp only [List.mapM_cons, Option.bind_eq_bind, Option.bind_eq_some_iff,
        List.forall₂_cons_left_iff, ih, Option.pure_def, Option.some.injEq]
      constructor
      · rintro ⟨y, hy, ys', hys, rfl⟩
        exact ⟨y, ys', hy, hys, rfl⟩
      · rintro ⟨y, ys', hy, hys, rfl⟩
        exact ⟨y, hy, ys', hys, rfl⟩

theorem mapM_eq_none_iff {f : α → Option β} {xs : List α} : xs.mapM f = none ↔ ∃ x ∈ xs, f x = none := by
  induction xs with
  | nil => simp
  | cons x xs ih =>
      rw [List.mapM_cons, List.exists_mem_cons_iff, ← ih]
      cases f x with
      | none => simp
      | some y => cases xs.mapM f <;> simp

end ListSynth
