/-
What holds of the philosophers' table in every run. The controlling process makes forks,
processes and places one after the other, so at some of its statements there is already
one more fork or process than places, or one fork less; and it does so only while it has
all tokens, when no philosopher is between its wait and its post.

* `Inv.busy` — where a philosopher has a token the table is complete.
* `Inv.take`, `Inv.give`, `Inv.enqueue` — the moves of the system calls.
-/

import SoTp.Phylo.Moves

namespace SoTp.Phylo

/-! ### Phases of the controlling process -/

namespace Control

/-- The processes there may be. -/
def seats (n : Nat) : Control → Nat
  | .initState _ | .initTable _ | .addTable _ => n + 1
  | .remFork _ | .remTable _ | .endTable => n - 1
  | _ => n

/-- The forks there are. -/
def laid (n : Nat) : Control → Nat
  | .initProcess _ | .initState _ | .initTable _ | .addState _ | .addProcess _ | .addTable _ =>
      n + 1
  | .remTable _ | .endKill | .endTable => n - 1
  | _ => n

/-- The philosophers whose state is set. -/
def shown (n : Nat) : Control → Nat
  | .initTable _ | .addProcess _ | .addTable _ => n + 1
  | _ => n

/-- It has failed, or it has nothing left to do. -/
def ends : Control → Bool
  | .freeAll _ exits => exits
  | .exited => true
  | _ => false

/-- It posts to `change_phylos_sem`. -/
def frees : Control → Bool
  | .freeAll .. => true
  | _ => false

/-- It waits on `change_phylos_sem`. -/
def waits : Control → Bool
  | .blockAllToInitiate _ | .blockAll .. => true
  | _ => false

/-- The position is the next one, or the last one. -/
def Position (n : Nat) : Command → Prop
  | .addPhylo pos => pos = n ∧ n < PHYLO_MAX_AMOUNT
  | .remPhylo pos => pos + 1 = n ∧ PHYLO_MIN_AMOUNT ≤ pos
  | .endPhylos => True

/-- How many philosophers there are, and how many tokens the controlling process leaves to
the others. -/
def Budget (n tokens : Nat) : Control → Prop
  | .blockAllToInitiate i => tokens + i = PHYLO_AMOUNT ∧ n = 0
  | .initFork i => tokens = 0 ∧ n = i ∧ i ≤ PHYLO_AMOUNT
  | .initProcess i | .initState i | .initTable i => tokens = 0 ∧ n = i ∧ i < PHYLO_AMOUNT
  | .getKey => tokens = n ∧ PHYLO_MIN_AMOUNT ≤ n ∧ n ≤ PHYLO_MAX_AMOUNT
  | .blockAll command i =>
      tokens + i = n ∧ (PHYLO_MIN_AMOUNT ≤ n ∧ n ≤ PHYLO_MAX_AMOUNT) ∧ Position n command
  | .addFork pos | .addState pos | .addProcess pos | .addTable pos =>
      tokens = 0 ∧ pos = n ∧ PHYLO_MIN_AMOUNT ≤ n ∧ n < PHYLO_MAX_AMOUNT
  | .remKill pos | .remFork pos | .remTable pos =>
      tokens = 0 ∧ pos + 1 = n ∧ PHYLO_MIN_AMOUNT ≤ pos ∧ n ≤ PHYLO_MAX_AMOUNT
  | .endFork => tokens = 0 ∧ n ≤ PHYLO_MAX_AMOUNT
  | .endKill | .endTable => tokens = 0 ∧ 0 < n ∧ n ≤ PHYLO_MAX_AMOUNT
  | .endChange | .endPrint => tokens = 0 ∧ n = 0
  | .freeAll i exits =>
      tokens = i ∧ i ≤ n ∧ (exits = true ∨ PHYLO_MIN_AMOUNT ≤ n) ∧ n ≤ PHYLO_MAX_AMOUNT
  | .exited => n ≤ PHYLO_MAX_AMOUNT

variable {n tokens : Nat} {c : Control}

theorem Budget.seats_le (b : c.Budget n tokens) : c.seats n ≤ PHYLO_MAX_AMOUNT := by
  cases c <;> simp only [Budget, seats, PHYLO_AMOUNT, PHYLO_MAX_AMOUNT,
    PHYLO_MIN_AMOUNT] at * <;> omega

/-- While others have tokens the table is complete. -/
theorem Budget.complete (b : c.Budget n tokens) (pos : 0 < tokens) :
    c.seats n = n ∧ c.laid n = n ∧ c.shown n = n := by
  cases c <;> simp only [Budget, seats, laid, shown, and_self] at * <;> omega

/-- Another unit is waited for. -/
theorem Budget.took (b : c.Budget n tokens) (waits : c.waits = true) {tokens' : Nat}
    (less : tokens' + 1 = tokens) : c.next.Budget n tokens' := by
  cases c with
  | blockAllToInitiate i =>
      simp only [Budget, next] at b ⊢
      omega
  | blockAll command i =>
      simp only [Budget, next] at b ⊢
      exact ⟨by omega, b.2⟩
  | _ => cases waits

theorem le_shown (n : Nat) (c : Control) : n ≤ c.shown n := by
  cases c <;> first | exact le_rfl | exact Nat.le_succ n

theorem next_seats (n : Nat) (c : Control) : c.next.seats n = c.seats n := by cases c <;> rfl

theorem next_laid (n : Nat) (c : Control) : c.next.laid n = c.laid n := by cases c <;> rfl

theorem next_shown (n : Nat) (c : Control) : c.next.shown n = c.shown n := by cases c <;> rfl

theorem next_ends (c : Control) : c.next.ends = c.ends := by cases c <;> rfl

theorem next_frees (c : Control) : c.next.frees = c.frees := by cases c <;> rfl

end Control

/-! ### The invariant -/

/-- `lone` — a philosopher that would be alone at the table is not there when it could get a
token. -/
structure Inv (t : Table) : Prop where
  queues : t.Queues
  forks : t.Forks (t.controller.control.laid t.phylosOnTable) t.controller.control.ends
  seated : ∀ i p, t.process i = some p → i < t.controller.control.seats t.phylosOnTable
  eating : ∀ i < t.controller.control.shown t.phylosOnTable, t.state i = .eating →
    ∃ p, t.process i = some p ∧ p.statement.eats = true
  budget : t.controller.control.Budget t.phylosOnTable t.tokens
  waits : t.controller.blocked = true → t.controller.control.waits = true
  change : t.change.destroyed = true → t.phylosOnTable = 0 ∧
    (t.controller.control = .endPrint ∨ t.controller.control = .exited)
  printMutex : t.printMutex.destroyed = true → t.phylosOnTable = 0 ∧ t.controller.control = .exited
  lone : t.controller.control.frees = true ∨ t.tokens ≠ 0 → t.phylosOnTable = 1 → t.process 0 = none

section Moves

variable {t : Table} {i : Nat} {s : Statement} {b : Bool} {id : SemId} {pid : Pid}
    {queue : List Pid}

theorem Inv.seat_lt (inv : Inv t) {p : Process} (there : t.process i = some p) :
    i < PHYLO_MAX_AMOUNT :=
  Nat.lt_of_lt_of_le (inv.seated i p there) inv.budget.seats_le

/-- Where a philosopher has a token the table is complete. -/
theorem Inv.busy (inv : Inv t) {p : Process} (there : t.process i = some p)
    (inside : p.statement.inside = true) :
    PHYLO_MIN_AMOUNT ≤ t.phylosOnTable ∧ i < t.phylosOnTable ∧
      t.controller.control.laid t.phylosOnTable = t.phylosOnTable ∧
      t.controller.control.shown t.phylosOnTable = t.phylosOnTable := by
  have pos : 0 < t.tokens := by
    have := Table.holders_pos (inv.seat_lt there) there inside
    unfold Table.tokens
    omega
  obtain ⟨seats, laid, shown⟩ := inv.budget.complete pos
  have seat := inv.seated i p there
  rw [seats] at seat
  have pair : t.phylosOnTable ≠ 1 := by
    intro one
    obtain rfl : i = 0 := by omega
    cases there.symm.trans (inv.lone (Or.inr (by omega)) one)
  refine ⟨?_, seat, laid, shown⟩
  unfold PHYLO_MIN_AMOUNT
  omega

/-- The semaphores that a philosopher comes to are there, unless it is a fork. -/
theorem Inv.alive (inv : Inv t) (there : t.process i = some ⟨s, b⟩) (other : ∀ g, id ≠ .fork g) :
    (t.sem id).destroyed = false := by
  have seat := inv.seated i _ there
  cases id with
  | change =>
      by_contra destroyed
      obtain ⟨zero, last⟩ := inv.change (Bool.not_eq_false _ ▸ destroyed)
      rcases last with last | last <;> simp [last, Control.seats, zero] at seat
  | print =>
      by_contra destroyed
      obtain ⟨zero, last⟩ := inv.printMutex (Bool.not_eq_false _ ▸ destroyed)
      simp [last, Control.seats, zero] at seat
  | fork f => exact absurd rfl (other f)

/-- The values of the semaphores of a table in which a process has moved. -/
theorem move_change (v : Semaphore) : ((t.setSem id v).resume pid).change = if id = .change then v
    else t.change := by
  have eq : ((t.setSem id v).resume pid).change = ((t.setSem id v).resume pid).sem .change := rfl
  rw [eq, Table.resume_sem, Table.sem_setSem]
  by_cases same : id = .change
  · rw [if_pos same, same, Function.update_self]
  · rw [if_neg same, Function.update_of_ne (Ne.symm same)]
    rfl

theorem move_print (v : Semaphore) :
    ((t.setSem id v).resume pid).printMutex = if id = .print then v else t.printMutex := by
  have eq : ((t.setSem id v).resume pid).printMutex = ((t.setSem id v).resume pid).sem .print := rfl
  rw [eq, Table.resume_sem, Table.sem_setSem]
  by_cases same : id = .print
  · rw [if_pos same, same, Function.update_self]
  · rw [if_neg same, Function.update_of_ne (Ne.symm same)]
    rfl

/-- A philosopher has gone on, and one semaphore has another value and queue. -/
theorem Inv.moved (inv : Inv t) (there : t.process i = some ⟨s, b⟩) (ne : s ≠ .nothing)
    {v : Semaphore} (destroyed : v.destroyed = (t.sem id).destroyed)
    (queues : ((t.setSem id v).resume (.phylo i)).Queues)
    (forks : ∀ k lost, t.Forks k lost → ((t.setSem id v).resume (.phylo i)).Forks k lost)
    (tokens : ((t.setSem id v).resume (.phylo i)).tokens = t.tokens) :
    Inv ((t.setSem id v).resume (.phylo i)) := by
  have controller : ((t.setSem id v).resume (.phylo i)).controller = t.controller := by
    simp [Table.resume, Table.setProcess]
  have process : ((t.setSem id v).resume (.phylo i)).process =
      Function.update t.process i (some ⟨s.next, false⟩) := by
    simp [Table.resume, there]
  refine ⟨queues, ?_, fun j p at_j => ?_, fun j lt eating => ?_, ?_, ?_, ?_, ?_, ?_⟩
  · rw [controller, Table.resume_phylosOnTable, Table.setSem_phylosOnTable]
    exact forks _ _ inv.forks
  · rw [process] at at_j
    rw [controller, Table.resume_phylosOnTable, Table.setSem_phylosOnTable]
    by_cases same : j = i
    · rw [same]
      exact inv.seated i _ there
    · rw [Function.update_of_ne same] at at_j
      exact inv.seated j p at_j
  · rw [controller, Table.resume_phylosOnTable, Table.setSem_phylosOnTable] at lt
    rw [Table.resume_state, Table.setSem_state] at eating
    obtain ⟨p, at_j, eats⟩ := inv.eating j lt eating
    rw [process]
    by_cases same : j = i
    · subst same
      cases there.symm.trans at_j
      exact ⟨_, Function.update_self .., Statement.eats_next eats ne⟩
    · exact ⟨p, by rw [Function.update_of_ne same, at_j], eats⟩
  · rw [controller, Table.resume_phylosOnTable, Table.setSem_phylosOnTable, tokens]
    exact inv.budget
  · rw [controller]
    exact inv.waits
  · rw [controller, Table.resume_phylosOnTable, Table.setSem_phylosOnTable, move_change]
    split_ifs with same
    · rw [destroyed, same]
      exact inv.change
    · exact inv.change
  · rw [controller, Table.resume_phylosOnTable, Table.setSem_phylosOnTable, move_print]
    split_ifs with same
    · rw [destroyed, same]
      exact inv.printMutex
    · exact inv.printMutex
  · rw [controller, Table.resume_phylosOnTable, Table.setSem_phylosOnTable, tokens]
    intro busy one
    exact Table.resume_none (by simpa using there) (by simpa using inv.lone busy one)

/-- A philosopher takes a unit. -/
theorem Inv.take (inv : Inv t) (there : t.process i = some ⟨s, b⟩)
    (wants : s.wants t.phylosOnTable i = some id)
    (free : 0 < (t.sem id).value) (nodup : queue.Nodup)
    (rest : ∀ p, p ∈ queue ↔ p ∈ (t.sem id).queue ∧ p ≠ .phylo i) :
      Inv (t.take (.phylo i) id queue) := by
  have ne : s ≠ .nothing := by
    rintro rfl
    cases wants
  have posts : s.posts t.phylosOnTable i = none := Statement.posts_of_wants wants
  have seat := inv.seat_lt there
  have there' : ∀ v, (t.setSem id v).process i = some ⟨s, b⟩ := fun v => by simpa using there
  refine inv.moved there ne rfl (inv.queues.take ⟨s, b, there, wants⟩ nodup rest)
    (fun k lost forks => ?_) ?_
  · cases id with
    | fork g => exact forks.take there wants free queue
    | change | print =>
        refine forks.congr (fun j f _ => ?_) (fun f _ => ?_) (fun f _ => ?_) fun f _ absent => ?_
        · rw [Table.holds_same (there' _) (by simp [wants]) (by simp [posts]), Table.holds_setSem]
        · simp [Table.fork_setSem]
        · simp [Table.fork_setSem]
        · exact Table.resume_none (there' _) (by simpa using absent)
  · have holders :=
      Table.holders_resume seat (there' ⟨(t.sem id).value - 1, queue, (t.sem id).destroyed⟩)
    rw [Table.holders_congr (Table.setSem_process ..)] at holders
    unfold Table.tokens
    rw [move_change]
    cases id with
    | change =>
        obtain rfl : s = .waitChange := by cases s <;> first | rfl | cases wants
        have value : 0 < t.change.value := free
        simp only [Statement.inside, Statement.next, Bool.false_eq_true, if_false, if_true,
          Table.sem] at holders ⊢
        omega
    | print | fork _ =>
        have same : s.next.inside = s.inside :=
          Statement.inside_next (n := t.phylosOnTable) (i := i) (by simp [wants]) (by simp [posts])
        rw [same] at holders
        simp only [reduceCtorEq, if_false]
        omega

/-- A philosopher gives a unit back. -/
theorem Inv.give (inv : Inv t) (there : t.process i = some ⟨s, false⟩)
    (posts : s.posts t.phylosOnTable i = some id) : Inv (t.give (.phylo i) id) := by
  have ne : s ≠ .nothing := by
    rintro rfl
    cases posts
  have inside : s.inside = true := by cases s <;> first | rfl | cases posts
  have wants : s.wants t.phylosOnTable i = none := Statement.wants_of_posts posts
  have seat := inv.seat_lt there
  have busy := inv.busy there inside
  have there' : ∀ v, (t.setSem id v).process i = some ⟨s, false⟩ := fun v => by simpa using there
  refine inv.moved there ne rfl (inv.queues.give ⟨s, there, posts⟩) (fun k lost forks => ?_) ?_
  · cases id with
    | fork g => exact forks.give there busy.1 busy.2.1 posts
    | change | print =>
        refine forks.congr (fun j f _ => ?_) (fun f _ => ?_) (fun f _ => ?_) fun f _ absent => ?_
        · rw [Table.holds_same (there' _) (by simp [wants]) (by simp [posts]), Table.holds_setSem]
        · simp [Table.fork_setSem]
        · simp [Table.fork_setSem]
        · exact Table.resume_none (there' _) (by simpa using absent)
  · have holders := Table.holders_resume seat
      (there' ⟨(t.sem id).value + 1, (t.sem id).queue, (t.sem id).destroyed⟩)
    rw [Table.holders_congr (Table.setSem_process ..)] at holders
    unfold Table.tokens
    rw [move_change]
    cases id with
    | change =>
        obtain rfl : s = .postChange := by cases s <;> first | rfl | cases posts
        simp only [Statement.inside, Statement.next, Bool.false_eq_true, if_false, if_true,
          Table.sem] at holders ⊢
        omega
    | print | fork _ =>
        have same : s.next.inside = s.inside :=
          Statement.inside_next (n := t.phylosOnTable) (i := i) (by simp [wants]) (by simp [posts])
        rw [same] at holders
        simp only [reduceCtorEq, if_false]
        omega

/-- A philosopher goes to the end of a queue. -/
theorem Inv.enqueue (inv : Inv t) (there : t.process i = some ⟨s, false⟩)
    (wants : s.wants t.phylosOnTable i = some id) : Inv (t.enqueue (.phylo i) id) := by
  have free : ∀ id, ¬ t.Waits (.phylo i) id := by
    rintro id ⟨s', there', -⟩
    cases there.symm.trans there'
  have wait : t.AtWait (.phylo i) id := ⟨s, false, there, wants⟩
  have queues := inv.queues.enqueue wait free
  have controller : (t.enqueue (.phylo i) id).controller = t.controller := by
    simp [Table.enqueue, Table.block, Table.setProcess]
  have seats : (t.enqueue (.phylo i) id).phylosOnTable = t.phylosOnTable := by simp [Table.enqueue]
  have process : (t.enqueue (.phylo i) id).process =
      Function.update t.process i (some ⟨s, true⟩) := by
    simp [Table.enqueue, Table.block, there]
  have sems : ∀ id', ((t.enqueue (.phylo i) id).sem id').value = (t.sem id').value ∧
      ((t.enqueue (.phylo i) id).sem id').destroyed = (t.sem id').destroyed := fun id' => by
    simp only [Table.enqueue, Table.block_sem, Table.sem_setSem]
    by_cases same : id' = id
    · rw [same, Function.update_self]
      exact ⟨rfl, rfl⟩
    · rw [Function.update_of_ne same]
      exact ⟨rfl, rfl⟩
  have change := sems .change
  have print := sems .print
  have holders : (t.enqueue (.phylo i) id).holders = t.holders := by
    unfold Table.holders
    refine Finset.sum_congr rfl fun j _ => ?_
    rw [process]
    by_cases same : j = i
    · rw [same, Function.update_self, there]
      rfl
    · rw [Function.update_of_ne same]
  have tokens : (t.enqueue (.phylo i) id).tokens = t.tokens := by
    unfold Table.tokens
    rw [holders]
    exact congrArg (· + t.holders) change.1
  have absent : ∀ f, t.process f = none → (t.enqueue (.phylo i) id).process f = none := by
    intro f absent
    rw [process]
    by_cases same : f = i
    · subst same
      cases there.symm.trans absent
    · rw [Function.update_of_ne same, absent]
  refine ⟨queues, ?_, fun j p at_j => ?_, fun j lt eating => ?_, ?_, ?_, ?_, ?_, ?_⟩
  · rw [controller, seats]
    refine inv.forks.congr (fun j f _ => ?_) (fun f _ => (sems (.fork f)).1)
      (fun f _ => (sems (.fork f)).2) fun f _ => absent f
    rw [Table.enqueue, Table.holds_block, Table.holds_setSem]
  · rw [process] at at_j
    rw [controller, seats]
    by_cases same : j = i
    · rw [same]
      exact inv.seated i _ there
    · rw [Function.update_of_ne same] at at_j
      exact inv.seated j p at_j
  · rw [controller, seats] at lt
    have eating : t.state j = .eating := by simpa [Table.enqueue] using eating
    obtain ⟨p, at_j, eats⟩ := inv.eating j lt eating
    rw [process]
    by_cases same : j = i
    · subst same
      cases there.symm.trans at_j
      exact ⟨_, Function.update_self .., eats⟩
    · exact ⟨p, by rw [Function.update_of_ne same, at_j], eats⟩
  · rw [controller, seats, tokens]
    exact inv.budget
  · rw [controller]
    exact inv.waits
  · intro destroyed
    rw [controller, seats]
    exact inv.change (change.2.symm.trans destroyed)
  · intro destroyed
    rw [controller, seats]
    exact inv.printMutex (print.2.symm.trans destroyed)
  · rw [controller, seats, tokens]
    exact fun busy one => absent 0 (inv.lone busy one)

/-! ### The controlling process at `change_phylos_sem` -/

/-- The controlling process has gone on or was blocked, with another value and queue of
`change_phylos_sem`. -/
theorem Inv.controlled (inv : Inv t) {v : Semaphore} {c : Controller}
    (destroyed : v.destroyed = t.change.destroyed)
    (queues : ({ t with change := v, controller := c } : Table).Queues)
    (laid : c.control.laid t.phylosOnTable = t.controller.control.laid t.phylosOnTable)
    (ends : c.control.ends = t.controller.control.ends)
    (seats : c.control.seats t.phylosOnTable = t.controller.control.seats t.phylosOnTable)
    (shown : c.control.shown t.phylosOnTable = t.controller.control.shown t.phylosOnTable)
    (budget : c.control.Budget t.phylosOnTable (v.value + t.holders))
    (waits : c.blocked = true → c.control.waits = true)
    (alive : t.change.destroyed = false ∧ t.printMutex.destroyed = false)
    (busy : c.control.frees = true ∨ v.value + t.holders ≠ 0 → t.controller.control.frees = true ∨
      t.tokens ≠ 0) :
    Inv { t with change := v, controller := c } := by
  refine ⟨queues, ?_, fun j p at_j => ?_, fun j lt eating => ?_, budget, waits, fun gone => ?_,
    fun gone => ?_, fun more => inv.lone (busy more)⟩
  · show Table.Forks _ (c.control.laid t.phylosOnTable) c.control.ends
    rw [laid, ends]
    exact inv.forks.congr (fun _ _ _ => Iff.rfl) (fun _ _ => rfl)
      (fun _ _ => rfl) fun _ _ absent => absent
  · show j < c.control.seats t.phylosOnTable
    rw [seats]
    exact inv.seated j p at_j
  · exact inv.eating j (shown ▸ lt) eating
  · cases (destroyed.symm.trans gone).symm.trans alive.1
  · cases gone.symm.trans alive.2

/-- The semaphores are there until the table is empty. -/
theorem Inv.controller_alive (inv : Inv t) (control : t.controller.control ≠ .endPrint)
    (control' : t.controller.control ≠ .exited) : t.change.destroyed = false ∧
      t.printMutex.destroyed = false := by
  constructor
  · by_contra destroyed
    rcases (inv.change (Bool.not_eq_false _ ▸ destroyed)).2 with last | last
    · exact control last
    · exact control' last
  · by_contra destroyed
    exact control' (inv.printMutex (Bool.not_eq_false _ ▸ destroyed)).2

theorem Inv.controller_take (inv : Inv t) (waits : t.controller.control.waits = true)
    (free : 0 < t.change.value) (nodup : queue.Nodup)
    (rest : ∀ p, p ∈ queue ↔ p ∈ t.change.queue ∧ p ≠ .controller) :
      Inv (t.take .controller .change queue) := by
  have alive := inv.controller_alive (fun last => by rw [last] at waits; cases waits)
    (fun last => by rw [last] at waits; cases waits)
  have wait : t.AtWait .controller .change := rfl
  refine inv.controlled (v := ⟨t.change.value - 1, queue, t.change.destroyed⟩)
    (c := ⟨t.controller.control.next, false⟩) rfl (inv.queues.take wait nodup rest)
    (Control.next_laid ..) (Control.next_ends ..) (Control.next_seats ..) (Control.next_shown ..) ?_
    (fun blocked => by cases blocked) alive ?_
  · refine inv.budget.took waits ?_
    show t.change.value - 1 + t.holders + 1 = t.change.value + t.holders
    omega
  · refine Or.imp (fun frees => (Control.next_frees _).symm.trans frees) fun more => ?_
    unfold Table.tokens
    have more : t.change.value - 1 + t.holders ≠ 0 := more
    omega

theorem Inv.controller_enqueue (inv : Inv t) (waits : t.controller.control.waits = true)
    (going : t.controller.blocked = false) : Inv (t.enqueue .controller .change) := by
  have alive := inv.controller_alive (fun last => by rw [last] at waits; cases waits)
    (fun last => by rw [last] at waits; cases waits)
  have free : ∀ id, ¬ t.Waits .controller id := by
    rintro id ⟨blocked, -⟩
    cases going.symm.trans blocked
  have wait : t.AtWait .controller .change := rfl
  exact inv.controlled (v :=
    ⟨t.change.value, t.change.queue ++ [Pid.controller], t.change.destroyed⟩)
    (c := ⟨t.controller.control, true⟩) rfl (inv.queues.enqueue wait free) rfl rfl rfl rfl
    inv.budget (fun _ => waits) alive id

theorem Inv.controller_give (inv : Inv t) {k : Nat} {exits : Bool}
    (control : t.controller.control = .freeAll k exits) (lt : k < t.phylosOnTable)
    (going : t.controller.blocked = false) : Inv (t.give .controller .change) := by
  have alive := inv.controller_alive (by simp [control]) (by simp [control])
  have budget := inv.budget
  rw [control] at budget
  have post : t.AtPost .controller .change := ⟨going, rfl⟩
  refine inv.controlled (v := ⟨t.change.value + 1, t.change.queue, t.change.destroyed⟩)
    (c := ⟨t.controller.control.next, false⟩) rfl (inv.queues.give post)
    (Control.next_laid ..) (Control.next_ends ..) (Control.next_seats ..) (Control.next_shown ..) ?_
    (fun blocked => by cases blocked) alive fun _ => Or.inl (by rw [control]; rfl)
  rw [control]
  obtain ⟨tokens, -, bounds⟩ := budget
  refine ⟨?_, lt, bounds⟩
  show t.change.value + 1 + t.holders = k + 1
  unfold Table.tokens at tokens
  omega

/-! ### Waits and posts -/

/-- The first process of a queue takes the unit that was given. -/
theorem Inv.hand (inv : Inv t) (free : 0 < (t.sem id).value)
    (first : (t.sem id).queue = pid :: queue) : Inv (t.take pid id queue) := by
  obtain ⟨nodup, waiting⟩ := inv.queues id
  have waits := (waiting pid).mp (by rw [first]; exact List.mem_cons_self)
  rw [first] at nodup
  have rest : ∀ p, p ∈ queue ↔ p ∈ (t.sem id).queue ∧ p ≠ pid := fun p => by
    rw [first, List.mem_cons]
    constructor
    · intro mem
      refine ⟨Or.inr mem, ?_⟩
      rintro rfl
      exact (List.nodup_cons.mp nodup).1 mem
    · rintro ⟨eq | mem, ne⟩
      · exact absurd eq ne
      · exact mem
  cases pid with
  | phylo j =>
      obtain ⟨s', there, wants⟩ := waits
      exact inv.take there wants free (List.nodup_cons.mp nodup).2 rest
  | controller =>
      obtain ⟨blocked, rfl⟩ := waits
      exact inv.controller_take (inv.waits blocked) free (List.nodup_cons.mp nodup).2 rest

/-- A system call on a fork that is destroyed returns at once. -/
theorem Inv.skip (inv : Inv t) (there : t.process i = some ⟨s, false⟩)
    (destroyed : (t.sem id).destroyed = true)
    (uses : s.wants t.phylosOnTable i = some id ∨ s.posts t.phylosOnTable i = some id) :
    Inv (t.resume (.phylo i)) := by
  have eq : t.setSem id (t.sem id) = t := by cases id <;> simp [Table.setSem, Table.sem]
  cases id with
  | fork g =>
      have inside : s.inside = true := by
        rcases uses with uses | uses <;> cases s <;> first | rfl | cases uses
      have ne : s ≠ .nothing := by
        rintro rfl
        rcases uses with uses | uses <;> cases uses
      have other : s.wants t.phylosOnTable i ≠ some .change ∧
          s.posts t.phylosOnTable i ≠ some .change := by
        rcases uses with uses | uses
        · simp [uses, Statement.posts_of_wants uses]
        · simp [uses, Statement.wants_of_posts uses]
      have busy := inv.busy there inside
      have holders := Table.holders_resume (inv.seat_lt there) there
      rw [Statement.inside_next other.1 other.2] at holders
      rw [← eq]
      refine inv.moved there ne rfl ?_ (fun k lost forks => ?_) ?_
      · rw [eq]
        intro id
        rw [Table.resume_sem]
        refine ⟨(inv.queues id).1, fun pid => ?_⟩
        rw [(inv.queues id).2, Table.waits_resume]
        refine ⟨fun waits => ⟨?_, waits⟩, And.right⟩
        rintro rfl
        obtain ⟨s', there', -⟩ := waits
        cases there.symm.trans there'
      · rw [eq]
        exact forks.skip there busy.1 busy.2.1 destroyed uses
      · rw [eq]
        unfold Table.tokens
        show t.change.value + _ = _
        omega
  | change | print => cases destroyed.symm.trans (inv.alive there (by simp))

theorem Inv.phylo_wait (inv : Inv t) (there : t.process i = some ⟨s, false⟩)
    (wants : s.wants t.phylosOnTable i = some id) : Inv (t.sysWaitSem (.phylo i) id) := by
  cases gone : (t.sem id).destroyed with
  | true =>
      have skipped := inv.skip there gone (Or.inl wants)
      simpa [Table.sysWaitSem, gone] using skipped
  | false =>
      rw [Table.sysWaitSem_eq gone]
      split_ifs with free
      · refine inv.take there wants free (inv.queues id).1 fun p => ?_
        constructor
        · intro mem
          refine ⟨mem, ?_⟩
          rintro rfl
          obtain ⟨s', there', -⟩ := ((inv.queues id).2 _).mp mem
          cases there.symm.trans there'
        · exact And.left
      · exact inv.enqueue there wants

theorem Inv.phylo_post (inv : Inv t) (there : t.process i = some ⟨s, false⟩)
    (posts : s.posts t.phylosOnTable i = some id) : Inv (t.sysPostSem (.phylo i) id) := by
  cases gone : (t.sem id).destroyed with
  | true =>
      have skipped := inv.skip there gone (Or.inr posts)
      simpa [Table.sysPostSem, gone] using skipped
  | false =>
      have absent : Pid.phylo i ∉ (t.sem id).queue := fun mem => by
        obtain ⟨s', there', -⟩ := ((inv.queues id).2 _).mp mem
        cases there.symm.trans there'
      have given := inv.give there posts
      rw [Table.sysPostSem_eq gone absent]
      cases waiting : (t.sem id).queue with
      | nil => exact given
      | cons toReady queue =>
          refine given.hand ?_ ?_
          · simp [Table.give]
          · simp [Table.give, waiting]

theorem Inv.controller_wait (inv : Inv t) (waits : t.controller.control.waits = true)
    (going : t.controller.blocked = false) : Inv (t.sysWaitSem .controller .change) := by
  have alive := inv.controller_alive (fun last => by rw [last] at waits; cases waits)
    (fun last => by rw [last] at waits; cases waits)
  have there : (t.sem .change).destroyed = false := alive.1
  rw [Table.sysWaitSem_eq there]
  split_ifs with free
  · refine inv.controller_take waits free (inv.queues .change).1 fun p => ?_
    constructor
    · intro mem
      refine ⟨mem, ?_⟩
      rintro rfl
      cases going.symm.trans (((inv.queues .change).2 _).mp mem).1
    · exact And.left
  · exact inv.controller_enqueue waits going

theorem Inv.controller_post (inv : Inv t) {k : Nat} {exits : Bool}
    (control : t.controller.control = .freeAll k exits) (lt : k < t.phylosOnTable)
    (going : t.controller.blocked = false) : Inv (t.sysPostSem .controller .change) := by
  have alive := inv.controller_alive (by simp [control]) (by simp [control])
  have absent : Pid.controller ∉ (t.sem .change).queue := fun mem => by
    cases going.symm.trans (((inv.queues .change).2 _).mp mem).1
  have given := inv.controller_give control lt going
  have there : (t.sem .change).destroyed = false := alive.1
  rw [Table.sysPostSem_eq there absent]
  cases waiting : (t.sem .change).queue with
  | nil => exact given
  | cons toReady queue =>
      refine given.hand ?_ ?_
      · simp [Table.give]
      · simp [Table.give, waiting]

end Moves

end SoTp.Phylo
