import ListSynth.Proofs.Lists
import ListSynth.Proofs.Pool
/-!
Nothing is lost in a pool. Every task is in the queue, at work or reported, and nowhere twice; a worker sends
nothing after it has reported idle; so when the coordinator has seen every worker idle, nothing is left to
receive.
-/

namespace ListSynth.Batch

namespace Message

def task? : Message → Option Nat
  | .done _ task _ => some task
  | .idle _ => none

def worker : Message → Nat
  | .done w _ _ => w
  | .idle w => w

def isIdle : Message → Bool
  | .done .. => false
  | .idle _ => true

def record (collected : List (Option TaskOutcome)) : Message → List (Option TaskOutcome)
  | .done _ task outcome => collected.set task (some outcome)
  | .idle _ => collected

theorem eq_idle_of_isIdle {m : Message} (h : m.isIdle = true) : m = .idle m.worker := by
  cases m with
  | done w task outcome => cases h
  | idle w => rfl

end Message

namespace Phase

def task? : Phase → Option Nat
  | .working task _ => some task
  | _ => none

def isOff : Phase → Bool
  | .idle | .gone => true
  | _ => false

end Phase

namespace Pool

variable {may : Reporting} {p q : Pool} {sent more : List Message} {n k w task : Nat} {cancelled : Bool}

/-- Each task is reported, at work or in the queue, and at one of these only; a queue that was found empty
stays so. -/
structure Ledger (k : Nat) (sent : List Message) (p : Pool) : Prop where
  tasks : (sent.filterMap Message.task? ++ (p.workers.filterMap Phase.task? ++ p.queue)).Perm (List.range k)
  drained : ∀ (w : Nat) (phase : Phase), p.workers[w]? = some phase →
    phase = .drained ∨ phase.isOff = true → p.queue = []

namespace Ledger

theorem start : Ledger k [] (start n k cancelled) where
  tasks := by
    have none : (List.replicate n Phase.ready).filterMap Phase.task? = [] :=
      List.filterMap_eq_nil_iff.mpr fun phase h => by
        rw [(List.mem_replicate.mp h).2]
        rfl
    simp [Pool.start, none]
  drained := by
    intro w phase here
    have ready := (List.mem_replicate.mp (List.mem_of_getElem? here)).2
    rintro (rfl | off)
    · cases ready
    · rw [ready] at off
      cases off

theorem tasks_of_count (ledger : Ledger k sent p)
    (moved : ∀ i, ((sent ++ more).filterMap Message.task?).count i +
      ((q.workers.filterMap Phase.task?).count i + q.queue.count i) =
        (sent.filterMap Message.task?).count i + ((p.workers.filterMap Phase.task?).count i + p.queue.count i)) :
    ((sent ++ more).filterMap Message.task? ++ (q.workers.filterMap Phase.task? ++ q.queue)).Perm
      (List.range k) := by
  rw [List.perm_iff_count]
  intro i
  have counts := List.perm_iff_count.mp ledger.tasks i
  simp only [List.count_append] at counts ⊢
  have := moved i
  omega

theorem moved {a b : Phase} (ledger : Ledger k sent p) (here : p.workers[w]? = some a)
    (workers : q.workers = p.workers.set w b) (queue : q.queue = p.queue)
    (task : a.task?.toList = more.filterMap Message.task? ++ b.task?.toList)
    (found : b = .drained ∨ b.isOff = true → p.queue = []) : Ledger k (sent ++ more) q := by
  refine ⟨ledger.tasks_of_count fun i => ?_, ?_⟩
  · have counts := count_filterMap_set (f := Phase.task?) (y := b) here i
    rw [task, List.count_append] at counts
    rw [workers, queue, List.filterMap_append, List.count_append]
    omega
  · intro v phase placed off
    rw [queue]
    rw [workers] at placed
    rcases (workers_place_eq_some_iff here).mp placed with ⟨-, rfl⟩ | ⟨-, other⟩
    · exact found off
    · exact ledger.drained v phase other off

end Ledger

theorem ledger_of_change (h : Change may p more q) (ledger : Ledger k sent p) : Ledger k (sent ++ more) q := by
  cases h with
  | none => simpa using ledger
  | @pulled w task rest ready queue =>
      refine ⟨ledger.tasks_of_count fun i => ?_, ?_⟩
      · have counts := count_filterMap_set (f := Phase.task?) (y := .working task []) ready i
        simp [place, queue, Phase.task?, List.count_cons] at counts ⊢
        omega
      · intro v phase here found
        rcases (workers_place_eq_some_iff ready).mp here with ⟨-, rfl⟩ | ⟨-, here⟩
        · rcases found with found | found <;> cases found
        · have none := ledger.drained v phase here found
          rw [queue] at none
          cases none
  | drained ready queue => exact ledger.moved ready rfl rfl rfl fun _ => queue
  | read working => exact ledger.moved working rfl rfl rfl (by simp [Phase.isOff])
  | reported working fair => exact ledger.moved working rfl rfl rfl (by simp [Phase.isOff])
  | @signedOff w drained => exact ledger.moved drained rfl rfl rfl fun _ => ledger.drained w _ drained (.inl rfl)
  | @left w idle => exact ledger.moved idle rfl rfl rfl fun _ => ledger.drained w _ idle (.inr rfl)
  | @received m rest going channel => cases m <;> simpa [collect] using ⟨ledger.tasks, ledger.drained⟩
  | waited going channel => simpa using ⟨ledger.tasks, ledger.drained⟩
  | raised => simpa using ⟨ledger.tasks, ledger.drained⟩

/-- Workers report idle once, and nothing after it. -/
structure Signed (n : Nat) (sent : List Message) (p : Pool) : Prop where
  size : p.workers.length = n
  idle : sent.countP Message.isIdle = p.workers.countP Phase.isOff
  off : ∀ (w : Nat) (phase : Phase), p.workers[w]? = some phase → (.idle w ∈ sent ↔ phase.isOff = true)
  ordered : sent.Pairwise fun m m' => m.isIdle = true → m'.worker ≠ m.worker
  senders : ∀ m ∈ sent, m.worker < n

namespace Signed

theorem start : Signed n [] (start n k cancelled) where
  size := List.length_replicate
  idle := by simp [Pool.start, List.countP_replicate, Phase.isOff]
  off := by
    intro w phase here
    have ready := (List.mem_replicate.mp (List.mem_of_getElem? here)).2
    simp [ready, Phase.isOff]
  ordered := .nil
  senders := by simp

variable {a b : Phase}

theorem countP_place (here : p.workers[w]? = some a) :
    (p.workers.set w b).countP Phase.isOff + (if a.isOff then 1 else 0) =
      p.workers.countP Phase.isOff + (if b.isOff then 1 else 0) := by
  obtain ⟨range, item⟩ := List.getElem?_eq_some_iff.mp here
  have counted : a.isOff = true → 0 < p.workers.countP Phase.isOff := fun off =>
    List.countP_pos_iff.mpr ⟨a, item ▸ List.getElem_mem range, off⟩
  rw [List.countP_set range, item]
  split <;> split <;> simp_all

theorem placed (signed : Signed n sent p) (here : p.workers[w]? = some a)
    (workers : q.workers = p.workers.set w b) (same : a.isOff = b.isOff) : Signed n (sent ++ []) q := by
  rw [List.append_nil]
  refine ⟨?_, ?_, ?_, signed.ordered, signed.senders⟩
  · rw [workers, List.length_set, signed.size]
  · have counts := countP_place (b := b) here
    rw [same] at counts
    rw [workers, signed.idle]
    omega
  · intro v phase there
    rw [workers] at there
    rcases (workers_place_eq_some_iff here).mp there with ⟨rfl, rfl⟩ | ⟨-, other⟩
    · rw [← same]
      exact signed.off _ a here
    · exact signed.off v phase other

theorem sending {m : Message} (signed : Signed n sent p) (here : p.workers[w]? = some a)
    (workers : q.workers = p.workers.set w b) (sender : m.worker = w) (on : a.isOff = false)
    (off : b.isOff = m.isIdle) : Signed n (sent ++ [m]) q := by
  have silent : Message.idle w ∉ sent := fun h => by simp [(signed.off w a here).mp h] at on
  refine ⟨?_, ?_, ?_, ?_, ?_⟩
  · rw [workers, List.length_set, signed.size]
  · have counts := countP_place (b := b) here
    rw [on, off] at counts
    rw [workers, List.countP_append, signed.idle, List.countP_singleton]
    simpa using counts.symm
  · intro v phase there
    rw [workers] at there
    rw [List.mem_append, List.mem_singleton]
    rcases (workers_place_eq_some_iff here).mp there with ⟨rfl, rfl⟩ | ⟨ne, other⟩
    · rw [off]
      constructor
      · rintro (earlier | rfl)
        · exact absurd earlier silent
        · rfl
      · intro idle
        exact .inr (sender ▸ (Message.eq_idle_of_isIdle idle).symm)
    · rw [← signed.off v phase other]
      refine or_iff_left ?_
      rintro rfl
      exact ne sender
  · rw [List.pairwise_append]
    refine ⟨signed.ordered, List.pairwise_singleton _ _, ?_⟩
    intro m' hm' m'' hm'' idle same
    rw [List.mem_singleton.mp hm'', sender] at same
    rw [Message.eq_idle_of_isIdle idle, ← same] at hm'
    exact silent hm'
  · intro m' hm'
    rcases List.mem_append.mp hm' with earlier | last
    · exact signed.senders m' earlier
    · rw [List.mem_singleton.mp last, sender, ← signed.size]
      exact (List.getElem?_eq_some_iff.mp here).1

end Signed

theorem signed_of_change (h : Change may p more q) (signed : Signed n sent p) : Signed n (sent ++ more) q := by
  cases h with
  | none => simpa using signed
  | pulled ready queue => exact signed.placed ready rfl rfl
  | drained ready queue => exact signed.placed ready rfl rfl
  | read working => exact signed.placed working rfl rfl
  | reported working fair => exact signed.sending working rfl rfl rfl rfl
  | signedOff drained => exact signed.sending drained rfl rfl rfl rfl
  | left idle => exact signed.placed idle rfl rfl
  | @received m rest going channel =>
      cases m <;> simpa using ⟨signed.size, signed.idle, signed.off, signed.ordered, signed.senders⟩
  | waited going channel => simpa using ⟨signed.size, signed.idle, signed.off, signed.ordered, signed.senders⟩
  | raised => simpa using ⟨signed.size, signed.idle, signed.off, signed.ordered, signed.senders⟩

/-- The coordinator has taken in the messages from the oldest on, and stops exactly when all workers are seen
idle among them. -/
structure Received (n k : Nat) (sent : List Message) (p : Pool) : Prop where
  taken : ∃ taken, sent = taken ++ p.channel ∧
    p.collected = taken.foldl Message.record (List.replicate k none) ∧ p.idleSeen = taken.countP Message.isIdle
  stopped : p.stopped = true ↔ n ≤ p.idleSeen

namespace Received

theorem start (pos : 0 < n) : Received n k [] (start n k cancelled) where
  taken := ⟨[], rfl, rfl, rfl⟩
  stopped := by
    simp [Pool.start]
    omega

theorem sending {m : Message} (received : Received n k sent p) (channel : q.channel = p.channel ++ [m])
    (collected : q.collected = p.collected) (idleSeen : q.idleSeen = p.idleSeen) (stopped : q.stopped = p.stopped) :
    Received n k (sent ++ [m]) q := by
  obtain ⟨⟨taken, parts, same, count⟩, stop⟩ := received
  refine ⟨⟨taken, ?_, collected.trans same, idleSeen.trans count⟩, ?_⟩
  · rw [parts, channel, List.append_assoc]
  · rw [stopped, idleSeen]
    exact stop

end Received

/-- A change keeps what the coordinator knows. That it finds nobody left to send a message never happens, since
it has stopped by then. -/
theorem received_of_change (h : Change may p more q) (signed : Signed n sent p) (known : Received n k sent p) :
    Received n k (sent ++ more) q := by
  have same : Received n k (sent ++ []) p := by simpa using known
  cases h with
  | none => exact same
  | pulled ready queue => exact ⟨same.taken, same.stopped⟩
  | drained ready queue => exact ⟨same.taken, same.stopped⟩
  | read working => exact ⟨same.taken, same.stopped⟩
  | reported working fair => exact known.sending rfl rfl rfl rfl
  | signedOff drained => exact known.sending rfl rfl rfl rfl
  | left idle => exact ⟨same.taken, same.stopped⟩
  | @received m rest going channel =>
      obtain ⟨⟨taken, parts, collected, count⟩, stop⟩ := same
      have few : ¬ n ≤ p.idleSeen := fun all => by simp [stop.mpr all] at going
      cases m with
      | done w task outcome =>
          refine ⟨⟨taken ++ [.done w task outcome], ?_, ?_, ?_⟩, stop⟩
          · rw [parts, channel]
            simp [collect]
          · simp [collect, collected, Message.record]
          · simp [collect, count, Message.isIdle]
      | idle w =>
          refine ⟨⟨taken ++ [.idle w], ?_, ?_, ?_⟩, ?_⟩
          · rw [parts, channel]
            simp [collect]
          · simp [collect, collected, Message.record]
          · simp [collect, count, Message.isIdle]
          · simp [collect, signed.size]
  | waited going channel =>
      refine ⟨same.taken, ?_⟩
      have few : ¬ n ≤ p.idleSeen := fun all => by simp [same.stopped.mpr all] at going
      refine ⟨fun gone => absurd ?_ few, fun all => absurd all few⟩
      obtain ⟨taken, parts, -, count⟩ := known.taken
      rw [channel, List.append_nil] at parts
      have off : ∀ phase ∈ p.workers, phase.isOff = true := by
        intro phase here
        have left := List.all_eq_true.mp gone phase here
        rw [of_decide_eq_true left]
        rfl
      have all : p.workers.countP Phase.isOff = n := (List.countP_eq_length.mpr off).trans signed.size
      exact Nat.le_of_eq (by rw [count, ← parts, signed.idle, all])
  | raised => exact ⟨same.taken, same.stopped⟩

section Collected

variable {collected : List (Option TaskOutcome)} {outcome : TaskOutcome} {messages : List Message}

theorem length_foldl_record : (messages.foldl Message.record collected).length = collected.length := by
  induction messages generalizing collected with
  | nil => rfl
  | cons m rest ih =>
      rw [List.foldl_cons, ih]
      cases m with
      | done w task outcome => exact List.length_set
      | idle w => rfl

theorem getElem?_foldl_record_of_not_mem (other : task ∉ messages.filterMap Message.task?) :
    (messages.foldl Message.record collected)[task]? = collected[task]? := by
  induction messages generalizing collected with
  | nil => rfl
  | cons m rest ih =>
      cases m with
      | done w task' outcome =>
          have apart : task ≠ task' ∧ task ∉ rest.filterMap Message.task? := by
            simpa [Message.task?] using other
          rw [List.foldl_cons, ih apart.2, Message.record, List.getElem?_set_ne apart.1.symm]
      | idle w => exact ih (by simpa [Message.task?] using other)

theorem getElem?_foldl_record (once : (messages.filterMap Message.task?).Nodup)
    (told : .done w task outcome ∈ messages) (range : task < collected.length) :
    (messages.foldl Message.record collected)[task]? = some (some outcome) := by
  induction messages generalizing collected with
  | nil => cases told
  | cons m rest ih =>
      cases m with
      | done w' task' outcome' =>
          obtain ⟨apart, once⟩ : task' ∉ rest.filterMap Message.task? ∧
              (rest.filterMap Message.task?).Nodup := by simpa [Message.task?] using once
          rcases List.mem_cons.mp told with same | later
          · cases same
            rw [List.foldl_cons, getElem?_foldl_record_of_not_mem apart, Message.record,
              List.getElem?_set_self range]
          · exact ih once later (by simpa [Message.record] using range)
      | idle w' =>
          rcases List.mem_cons.mp told with same | later
          · cases same
          · exact ih (by simpa [List.filterMap_cons, Message.task?] using once) later range

end Collected

/-- What is left when the coordinator stops: every worker has reported idle, no message is on its way, and every
task has one message, which is its entry. -/
structure Complete (n k : Nat) (sent : List Message) (p : Pool) : Prop where
  idle : ∀ w < n, .idle w ∈ sent
  off : ∀ phase ∈ p.workers, phase.isOff = true
  queue : p.queue = []
  channel : p.channel = []
  once : (sent.filterMap Message.task?).Perm (List.range k)
  length : p.outcomes.length = k
  entry : ∀ w task outcome, .done w task outcome ∈ sent → p.outcomes[task]? = some outcome
  reported : none ∉ p.collected

section Stopped

/-- The idle messages that a coordinator has seen when it stops are those of all workers, so none is on its way. -/
theorem all_off_of_stopped (signed : Signed n sent p) (received : Received n k sent p) (stopped : p.stopped = true) :
    (∀ phase ∈ p.workers, phase.isOff = true) ∧ ∀ m ∈ p.channel, m.isIdle ≠ true := by
  obtain ⟨⟨taken, parts, -, count⟩, stop⟩ := received
  have seen := stop.mp stopped
  have idles := signed.idle
  rw [parts, List.countP_append] at idles
  have most := signed.size ▸ List.countP_le_length (p := Phase.isOff) (l := p.workers)
  have allOff : p.workers.countP Phase.isOff = p.workers.length := by
    rw [signed.size]
    omega
  have noIdle : p.channel.countP Message.isIdle = 0 := by omega
  exact ⟨List.countP_eq_length.mp allOff, List.countP_eq_zero.mp noIdle⟩

theorem idle_of_all_off (signed : Signed n sent p) (off : ∀ phase ∈ p.workers, phase.isOff = true) (less : w < n) :
    .idle w ∈ sent := by
  have here := List.getElem?_eq_getElem (signed.size.symm ▸ less : w < p.workers.length)
  exact (signed.off w _ here).mpr (off _ (List.getElem_mem _))

/-- A message on its way would come after the idle message of its own worker. -/
theorem channel_eq_nil {taken : List Message} (signed : Signed n sent p) (parts : sent = taken ++ p.channel)
    (idle : ∀ w < n, .idle w ∈ sent) (quiet : ∀ m ∈ p.channel, m.isIdle ≠ true) : p.channel = [] := by
  refine List.eq_nil_iff_forall_not_mem.mpr ?_
  intro m hm
  have sender := signed.senders m (parts ▸ List.mem_append_right taken hm)
  have before : .idle m.worker ∈ taken := by
    rcases List.mem_append.mp (parts ▸ idle m.worker sender) with earlier | waiting
    · exact earlier
    · exact absurd rfl (quiet _ waiting)
  have order := signed.ordered
  rw [parts, List.pairwise_append] at order
  exact order.2.2 _ before m hm rfl rfl

theorem queue_eq_nil (pos : 0 < n) (ledger : Ledger k sent p) (signed : Signed n sent p)
    (off : ∀ phase ∈ p.workers, phase.isOff = true) : p.queue = [] := by
  have here := List.getElem?_eq_getElem (signed.size.symm ▸ pos : 0 < p.workers.length)
  exact ledger.drained 0 _ here (.inr (off _ (List.getElem_mem _)))

theorem perm_of_all_off (ledger : Ledger k sent p) (off : ∀ phase ∈ p.workers, phase.isOff = true)
    (queue : p.queue = []) : (sent.filterMap Message.task?).Perm (List.range k) := by
  have atWork : p.workers.filterMap Phase.task? = [] := by
    rw [List.filterMap_eq_nil_iff]
    intro phase hp
    have isOff := off phase hp
    cases phase with
    | idle => rfl
    | gone => rfl
    | _ => cases isOff
  simpa [queue, atWork] using ledger.tasks

theorem getElem?_collected (once : (sent.filterMap Message.task?).Perm (List.range k))
    (collected : p.collected = sent.foldl Message.record (List.replicate k none)) {outcome : TaskOutcome}
    (told : .done w task outcome ∈ sent) : p.collected[task]? = some (some outcome) := by
  have range : task ∈ List.range k := once.mem_iff.mp (List.mem_filterMap.mpr ⟨_, told, rfl⟩)
  rw [collected]
  exact getElem?_foldl_record (once.nodup_iff.mpr List.nodup_range) told (by simpa using range)

theorem none_not_mem_collected (once : (sent.filterMap Message.task?).Perm (List.range k))
    (collected : p.collected = sent.foldl Message.record (List.replicate k none)) : none ∉ p.collected := by
  intro absent
  obtain ⟨task, here⟩ := List.getElem?_of_mem absent
  have range : task < k := by
    have := (List.getElem?_eq_some_iff.mp here).1
    simpa [collected, length_foldl_record] using this
  obtain ⟨m, told, same⟩ := List.mem_filterMap.mp (once.mem_iff.mpr (List.mem_range.mpr range))
  cases m with
  | done w task' outcome =>
      cases same
      cases here.symm.trans (getElem?_collected once collected told)
  | idle w => cases same

/-- A coordinator that has stopped has lost nothing. -/
theorem complete_of_stopped (pos : 0 < n) (ledger : Ledger k sent p) (signed : Signed n sent p)
    (received : Received n k sent p) (stopped : p.stopped = true) : Complete n k sent p := by
  obtain ⟨off, quiet⟩ := all_off_of_stopped signed received stopped
  obtain ⟨⟨taken, parts, collected, -⟩, -⟩ := received
  have idle : ∀ w < n, .idle w ∈ sent := fun w less => idle_of_all_off signed off less
  have channel := channel_eq_nil signed parts idle quiet
  have queue := queue_eq_nil pos ledger signed off
  have once := perm_of_all_off ledger off queue
  have all : sent = taken := by simpa [channel] using parts
  rw [← all] at collected
  refine ⟨idle, off, queue, channel, once, ?_, ?_, none_not_mem_collected once collected⟩
  · rw [outcomes, List.length_map, collected, length_foldl_record, List.length_replicate]
  · intro w task outcome told
    rw [outcomes, List.getElem?_map, getElem?_collected once collected told]
    rfl

end Stopped

namespace Runs

theorem accounts (pos : 0 < n) (run : Runs may (start n k cancelled) sent p) :
    Ledger k sent p ∧ Signed n sent p ∧ Received n k sent p := by
  refine Runs.keeps (P := fun sent p => Ledger k sent p ∧ Signed n sent p ∧ Received n k sent p)
    ⟨.start, .start, .start pos⟩ ?_ run
  rintro sent more p q change ⟨ledger, signed, received⟩
  exact ⟨ledger_of_change change ledger, signed_of_change change signed,
    received_of_change change signed received⟩

theorem complete (pos : 0 < n) (run : Runs may (start n k cancelled) sent p) (stopped : p.stopped = true) :
    Complete n k sent p := by
  obtain ⟨ledger, signed, received⟩ := run.accounts pos
  exact complete_of_stopped pos ledger signed received stopped

end Runs

end Pool

end ListSynth.Batch
