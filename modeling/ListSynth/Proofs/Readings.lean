import ListSynth.Proofs.Accounts
/-!
What workers read of the flag that they share. While it is down nobody has read it as up, and a task whose
worker is to read it as up at first stays so until it is reported.
-/

namespace ListSynth.Batch.Pool

variable {may : Reporting} {p q : Pool} {sent more : List Message} {n k w task : Nat} {cancelled : Bool}

/-- What is reported may be reported, and while the flag is down it has been read as down. -/
structure Fair (may : Reporting) (sent : List Message) (p : Pool) : Prop where
  told : ∀ w task outcome, .done w task outcome ∈ sent →
    ∃ readings, may task readings outcome ∧ (p.cancelled = false → ∀ b ∈ readings, b = false)
  atWork : p.cancelled = false → ∀ (w task : Nat) (readings : List Bool),
    p.workers[w]? = some (.working task readings) → ∀ b ∈ readings, b = false

theorem fair_start : Fair may [] (start n k cancelled) where
  told := by simp
  atWork := by
    intro _ w task readings here
    cases (List.mem_replicate.mp (List.mem_of_getElem? here)).2

theorem Fair.moved {a b : Phase} (fair : Fair may sent p) (here : p.workers[w]? = some a)
    (workers : q.workers = p.workers.set w b) (cancelled : q.cancelled = p.cancelled)
    (read : p.cancelled = false → ∀ task readings, b = .working task readings → ∀ x ∈ readings, x = false)
    (told : ∀ v task outcome, .done v task outcome ∈ more →
      ∃ readings, may task readings outcome ∧ (p.cancelled = false → ∀ x ∈ readings, x = false)) :
    Fair may (sent ++ more) q := by
  refine ⟨?_, ?_⟩
  · intro v task outcome message
    rw [cancelled]
    rcases List.mem_append.mp message with earlier | new
    · exact fair.told v task outcome earlier
    · exact told v task outcome new
  · intro down v task readings there
    rw [cancelled] at down
    rw [workers] at there
    rcases (workers_place_eq_some_iff here).mp there with ⟨-, same⟩ | ⟨-, old⟩
    · exact read down task readings same.symm
    · exact fair.atWork down v task readings old

theorem fair_of_change (h : Change may p more q) (fair : Fair may sent p) : Fair may (sent ++ more) q := by
  have same : Fair may (sent ++ []) p := by simpa using fair
  cases h with
  | none => exact same
  | pulled ready queue =>
      refine fair.moved ready rfl rfl ?_ (by simp)
      rintro - _ _ ⟨⟩
      simp
  | drained ready queue => exact fair.moved ready rfl rfl (by simp) (by simp)
  | @read w task readings working =>
      refine fair.moved working rfl rfl ?_ (by simp)
      rintro down _ _ ⟨⟩
      simpa [down] using fair.atWork down w task readings working
  | @reported w task readings outcome working proper =>
      refine fair.moved working rfl rfl (by simp) ?_
      intro v task' outcome' told
      cases List.mem_singleton.mp told
      exact ⟨readings, proper, fun down => fair.atWork down w task readings working⟩
  | signedOff drained => exact fair.moved drained rfl rfl (by simp) (by simp)
  | left idle => exact fair.moved idle rfl rfl (by simp) (by simp)
  | @received m rest going channel => cases m <;> exact ⟨same.told, same.atWork⟩
  | waited going channel => exact ⟨same.told, same.atWork⟩
  | raised =>
      refine ⟨?_, fun down => by cases down⟩
      intro w task outcome told
      obtain ⟨readings, proper, -⟩ := same.told w task outcome told
      exact ⟨readings, proper, fun down => by cases down⟩

/-- A task that is still to be cancelled: the flag is up and its worker, if it has one, has not read it, or its
worker has read it as up at first. -/
def Due (task : Nat) (p : Pool) : Prop :=
  (p.cancelled = true ∧ task ∈ p.queue) ∨ ∃ (w : Nat) (readings : List Bool),
    p.workers[w]? = some (.working task readings) ∧
      ((p.cancelled = true ∧ readings = []) ∨ ∃ rest, readings = true :: rest)

theorem Due.placed {a b : Phase} (due : Due task p) (here : p.workers[w]? = some a)
    (workers : q.workers = p.workers.set w b) (queue : q.queue = p.queue)
    (cancelled : q.cancelled = p.cancelled) (other : ∀ readings, a ≠ .working task readings) : Due task q := by
  rcases due with ⟨up, waiting⟩ | ⟨v, readings, working, read⟩
  · exact .inl ⟨cancelled.trans up, queue ▸ waiting⟩
  · refine .inr ⟨v, readings, ?_, cancelled ▸ read⟩
    rw [workers]
    refine (workers_place_eq_some_iff here).mpr (.inr ⟨?_, working⟩)
    rintro rfl
    exact other readings (Option.some.inj (here.symm.trans working))

/-- A due task stays due until it is reported after a first reading of the flag as up. -/
theorem due_of_change (reads : ∀ outcome, ¬ may task [] outcome) (h : Change may p more q) (due : Due task p) :
    Due task q ∨ ∃ w outcome rest, .done w task outcome ∈ more ∧ may task (true :: rest) outcome := by
  cases h with
  | none => exact .inl due
  | @pulled w next rest ready queue =>
      rcases due with ⟨up, waiting⟩ | ⟨v, readings, working, read⟩
      · rw [queue] at waiting
        rcases List.mem_cons.mp waiting with rfl | later
        · have placed := (workers_place_eq_some_iff (b := .working task []) ready).mpr (.inl ⟨rfl, rfl⟩)
          exact .inl (.inr ⟨w, [], placed, .inl ⟨up, rfl⟩⟩)
        · exact .inl (.inl ⟨up, later⟩)
      · have others : Due task ⟨rest, p.workers, p.channel, p.cancelled, p.collected, p.idleSeen, p.stopped⟩ :=
          .inr ⟨v, readings, working, read⟩
        exact .inl (others.placed ready rfl rfl rfl (by simp))
  | drained ready queue => exact .inl (due.placed ready rfl rfl rfl (by simp))
  | @read w task' readings working =>
      rcases due with waiting | ⟨v, readings', there, read⟩
      · exact .inl (.inl waiting)
      · by_cases same : v = w
        · subst same
          cases there.symm.trans working
          have placed := (workers_place_eq_some_iff (b := .working task (readings ++ [p.cancelled])) working).mpr
            (.inl ⟨rfl, rfl⟩)
          refine .inl (.inr ⟨v, _, placed, .inr ?_⟩)
          rcases read with ⟨up, rfl⟩ | ⟨rest, rfl⟩
          · exact ⟨[], by rw [up]; rfl⟩
          · exact ⟨rest ++ [p.cancelled], rfl⟩
        · exact .inl (.inr ⟨v, readings', (workers_place_eq_some_iff working).mpr (.inr ⟨same, there⟩), read⟩)
  | @reported w task' readings outcome working fair =>
      rcases due with waiting | ⟨v, readings', there, read⟩
      · exact .inl (.inl waiting)
      · by_cases same : v = w
        · subst same
          cases there.symm.trans working
          rcases read with ⟨-, rfl⟩ | ⟨rest, rfl⟩
          · exact absurd fair (reads outcome)
          · exact .inr ⟨v, outcome, rest, List.mem_singleton_self _, fair⟩
        · exact .inl (.inr ⟨v, readings', (workers_place_eq_some_iff working).mpr (.inr ⟨same, there⟩), read⟩)
  | signedOff drained => exact .inl (due.placed drained rfl rfl rfl (by simp))
  | left idle => exact .inl (due.placed idle rfl rfl rfl (by simp))
  | @received m rest going channel => cases m <;> exact .inl due
  | waited going channel => exact .inl due
  | raised =>
      rcases due with ⟨-, waiting⟩ | ⟨v, readings, working, read⟩
      · exact .inl (.inl ⟨rfl, waiting⟩)
      · exact .inl (.inr ⟨v, readings, working, read.imp_left fun unread => ⟨rfl, unread.2⟩⟩)

namespace Runs

theorem fair (run : Runs may (start n k cancelled) sent p) : Fair may sent p :=
  Runs.keeps fair_start fair_of_change run

theorem due (reads : ∀ outcome, ¬ may task [] outcome) (run : Runs may p sent q) (due : Due task p) :
    Due task q ∨ ∃ w outcome rest, .done w task outcome ∈ sent ∧ may task (true :: rest) outcome := by
  refine Runs.keeps (P := fun sent q => Due task q ∨
    ∃ w outcome rest, .done w task outcome ∈ sent ∧ may task (true :: rest) outcome) (.inl due) ?_ run
  rintro sent more p q change (still | ⟨w, outcome, rest, told, fair⟩)
  · rcases due_of_change reads change still with still | ⟨w, outcome, rest, told, fair⟩
    · exact .inl still
    · exact .inr ⟨w, outcome, rest, List.mem_append_right sent told, fair⟩
  · exact .inr ⟨w, outcome, rest, List.mem_append_left more told, fair⟩

end Runs

end ListSynth.Batch.Pool
