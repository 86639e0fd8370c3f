import ListSynth.Batch.Pool
/-!
What can happen in a pool. A run is made of events in any order; each of them makes one of a few changes, and
what every change keeps is kept by a run. A worker can always go on: it can come to report its task, and sign off
when the queue is empty.
-/

namespace ListSynth.Batch

namespace Pool

/-- What workers may report of a task after some readings of the flag. -/
abbrev Reporting := Nat → List Bool → TaskOutcome → Prop

variable {may : Reporting} {p q r : Pool} {sent more : List Message} {e : Event} {w : Nat}

def sends (p : Pool) : Event → List Message
  | .report worker outcome =>
    match p.workers[worker]? with
    | some (.working task _) => [.done worker task outcome]
    | _ => []
  | .signOff worker =>
    match p.workers[worker]? with
    | some .drained => [.idle worker]
    | _ => []
  | _ => []

/-- An event is in order when no worker reports of its task what it may not. -/
def Allows (may : Reporting) (p : Pool) : Event → Prop
  | .report worker outcome =>
    ∀ task readings, p.workers[worker]? = some (.working task readings) → may task readings outcome
  | _ => True

/-- A pool becomes another by events in any order, and the given messages are sent meanwhile. -/
inductive Runs (may : Reporting) (p : Pool) : List Message → Pool → Prop
  | refl : Runs may p [] p
  | tail {sent : List Message} {q : Pool} (run : Runs may p sent q) (e : Event) (allowed : q.Allows may e) :
      Runs may p (sent ++ q.sends e) (q.after e)

theorem Runs.trans (run : Runs may p sent q) (further : Runs may q more r) : Runs may p (sent ++ more) r := by
  induction further with
  | refl => simpa using run
  | tail further e allowed ih =>
      rw [← List.append_assoc]
      exact .tail ih e allowed

inductive Change (may : Reporting) (p : Pool) : List Message → Pool → Prop
  | none : Change may p [] p
  | pulled {w task : Nat} {rest : List Nat} (ready : p.workers[w]? = some .ready) (queue : p.queue = task :: rest) :
      Change may p [] ({ p with queue := rest }.place w (.working task []))
  | drained {w : Nat} (ready : p.workers[w]? = some .ready) (queue : p.queue = []) :
      Change may p [] (p.place w .drained)
  | read {w task : Nat} {readings : List Bool} (working : p.workers[w]? = some (.working task readings)) :
      Change may p [] (p.place w (.working task (readings ++ [p.cancelled])))
  | reported {w task : Nat} {readings : List Bool} {outcome : TaskOutcome}
      (working : p.workers[w]? = some (.working task readings)) (fair : may task readings outcome) :
      Change may p [.done w task outcome] ((p.send (.done w task outcome)).place w .ready)
  | signedOff {w : Nat} (drained : p.workers[w]? = some .drained) :
      Change may p [.idle w] ((p.send (.idle w)).place w .idle)
  | left {w : Nat} (idle : p.workers[w]? = some .idle) : Change may p [] (p.place w .gone)
  | received {m : Message} {rest : List Message} (going : p.stopped = false) (channel : p.channel = m :: rest) :
      Change may p [] ({ p with channel := rest }.collect m)
  | waited (going : p.stopped = false) (channel : p.channel = []) :
      Change may p [] { p with stopped := p.workers.all (· = .gone) }
  | raised : Change may p [] { p with cancelled := true }

theorem change_of_allows (allowed : p.Allows may e) : Change may p (p.sends e) (p.after e) := by
  cases e with
  | pull w =>
      simp only [sends, after]
      split
      · rename_i ready
        unfold pull
        split
        · rename_i queue
          exact .pulled ready queue
        · rename_i queue
          exact .drained ready queue
      · exact .none
  | read w =>
      simp only [sends, after]
      split
      · rename_i working
        exact .read working
      · exact .none
  | report w outcome =>
      unfold Allows at allowed
      simp only [sends, after]
      cases here : p.workers[w]? with
      | none => exact .none
      | some phase =>
          cases phase with
          | working task readings => exact .reported here (allowed task readings here)
          | _ => exact .none
  | signOff w =>
      simp only [sends, after]
      cases here : p.workers[w]? with
      | none => exact .none
      | some phase =>
          cases phase with
          | drained => exact .signedOff here
          | _ => exact .none
  | leave w =>
      simp only [sends, after]
      split
      · rename_i idle
        exact .left idle
      · exact .none
  | receive =>
      simp only [sends, after]
      split
      · exact .none
      · rename_i going
        have going : p.stopped = false := by simpa using going
        unfold receive
        split
        · rename_i channel
          exact .received going channel
        · rename_i channel
          exact .waited going channel
  | cancel => exact .raised

theorem Runs.keeps {P : List Message → Pool → Prop} (start : P [] p)
    (keeps : ∀ {sent more p q}, Change may p more q → P sent p → P (sent ++ more) q)
    (run : Runs may p sent q) : P sent q := by
  induction run with
  | refl => exact start
  | tail run e allowed ih => exact keeps (change_of_allows allowed) ih

section Phases

variable {a b phase : Phase} {v : Nat}

theorem workers_place_eq_some_iff (here : p.workers[w]? = some a) :
    (p.place w b).workers[v]? = some phase ↔
      (v = w ∧ phase = b) ∨ (v ≠ w ∧ p.workers[v]? = some phase) := by
  have range := (List.getElem?_eq_some_iff.mp here).1
  by_cases same : v = w
  · subst same
    simp [place, List.getElem?_set_self range, eq_comm]
  · simp [place, List.getElem?_set_ne (Ne.symm same), same]

theorem workers_place_self (here : p.workers[w]? = some a) : (p.place w b).workers[w]? = some b :=
  (workers_place_eq_some_iff here).mpr (.inl ⟨rfl, rfl⟩)

end Phases

section Turns

variable {a b : Phase} {task : Nat} {readings : List Bool} {outcome : TaskOutcome}

theorem place_self (here : p.workers[w]? = some a) : p.place w a = p := by
  obtain ⟨range, same⟩ := List.getElem?_eq_some_iff.mp here
  rw [place, ← same, List.set_getElem_self]

theorem place_place : (p.place w a).place w b = p.place w b := by
  simp [place]

/-- A worker at work on a task may read the flag as often as it likes. -/
theorem Runs.reads (run : Runs may p sent q)
    (working : q.workers[w]? = some (.working task readings)) (n : Nat) :
    Runs may p sent (q.place w (.working task (readings ++ List.replicate n q.cancelled))) := by
  induction n with
  | zero =>
      rw [List.replicate_zero, List.append_nil, place_self working]
      exact run
  | succ n ih =>
      have placed := workers_place_self (b := .working task (readings ++ List.replicate n q.cancelled)) working
      have next := ih.tail (.read w) trivial
      have silent : ∀ p : Pool, p.sends (.read w) = [] := fun _ => rfl
      simp only [after, placed, place_place, silent, List.append_nil, List.append_assoc] at next
      rw [List.replicate_succ']
      exact next

/-- A worker can go on reading the flag until it may report its task. -/
theorem Runs.reports (run : Runs may p sent q) (working : q.workers[w]? = some (.working task readings)) (n : Nat)
    (fair : may task (readings ++ List.replicate n q.cancelled) outcome) :
    Runs may p (sent ++ [.done w task outcome]) (q.report w task outcome) := by
  have placed := workers_place_self (b := .working task (readings ++ List.replicate n q.cancelled)) working
  have allowed : (q.place w (.working task (readings ++ List.replicate n q.cancelled))).Allows may
      (.report w outcome) := by
    intro task' readings' there
    cases placed.symm.trans there
    exact fair
  have told := (run.reads working n).tail (.report w outcome) allowed
  simp only [sends, after, placed] at told
  simpa [report, send, place] using told

theorem after_pull_of_empty (here : p.workers[w]? = some .ready) (queue : p.queue = []) :
    p.after (.pull w) = p.place w .drained := by
  simp only [after, here, pull, queue]

theorem after_farewell (here : p.workers[w]? = some .ready) (queue : p.queue = []) (channel : p.channel = [])
    (going : p.stopped = false) : [.pull w, .signOff w, .receive].foldl after p =
      { p with
        workers := p.workers.set w .idle, idleSeen := p.idleSeen + 1
        stopped := decide (p.workers.length ≤ p.idleSeen + 1) } := by
  have drained : (p.place w .drained).workers[w]? = some .drained := workers_place_self here
  rw [List.foldl_cons, after_pull_of_empty here queue, List.foldl_cons, after, drained]
  simp [after, receive, collect, place, send, channel, going]

end Turns

end Pool

end ListSynth.Batch
