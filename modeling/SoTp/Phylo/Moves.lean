/-
What the steps of the processes do to forks, queues and tokens. A unit of
`change_phylos_sem` is a token: a philosopher has one between its wait and its post, and
the controlling process takes all of them before it changes the table.

A post that hands its unit over is a post that finds nobody, and then the wait of the
process that was first: so a step takes a unit, or gives one, or puts a process into a
queue.

* `Table.sysPostSem_eq`, `Table.sysWaitSem_eq` — a system call as one or two of these.
* `Queues.take`, `Queues.give`, `Queues.enqueue` — each queue holds the blocked processes.
* `Forks.take`, `Forks.give` — a fork lies on the table, or has one holder.
-/

import SoTp.Phylo.Table
import Mathlib.Data.List.Nodup
import Mathlib.Algebra.BigOperators.Group.Finset.Basic
import Mathlib.Algebra.Order.BigOperators.Group.Finset

namespace SoTp.Phylo

/-! ### Statements -/

namespace Statement

/-- The semaphore that the statement waits on. -/
def wants (n i : Nat) : Statement → Option SemId
  | .waitChange => some .change
  | .takeFirst => some (.fork (firstFork n i))
  | .takeSecond => some (.fork (secondFork n i))
  | .waitPrint => some .print
  | _ => none

/-- The semaphore that the statement posts. -/
def posts (n i : Nat) : Statement → Option SemId
  | .postPrint => some .print
  | .leaveOwn => some (.fork i)
  | .leaveRight => some (.fork (rightFork n i))
  | .postChange => some .change
  | _ => none

/-- The forks that a philosopher holds when it comes to the statement. -/
def held (n i : Nat) : Statement → List Nat
  | .takeSecond => [firstFork n i]
  | .eat | .eatSleep | .waitPrint | .print _ | .postPrint | .leaveOwn => [i, rightFork n i]
  | .leaveRight => [rightFork n i]
  | _ => []

/-- Between the wait on and the post to `change_phylos_sem`. -/
def inside : Statement → Bool
  | .waitChange => false
  | _ => true

/-- The statements at which the state may be EATING. -/
def eats : Statement → Bool
  | .eatSleep | .waitPrint | .print _ | .postPrint | .leaveOwn | .leaveRight | .nothing => true
  | _ => false

variable {n i f g : Nat} {s : Statement} {id : SemId}

theorem inside_of_held (held : f ∈ s.held n i) : s.inside = true := by
  cases s <;> first | rfl | cases held

theorem inside_of_eats (eats : s.eats = true) : s.inside = true := by
  cases s <;> first | rfl | cases eats

theorem rightFork_ne (two : 2 ≤ n) (seat : i < n) : rightFork n i ≠ i := by
  unfold rightFork
  by_cases last : i + 1 = n
  · rw [last, Nat.mod_self]
    omega
  · rw [Nat.mod_eq_of_lt (by omega)]
    omega

theorem rightFork_lt (seat : i < n) : rightFork n i < n := Nat.mod_lt _ (by omega)

theorem mem_both : (f = firstFork n i ∨ f = secondFork n i) ↔ f = i ∨ f = rightFork n i := by
  unfold firstFork secondFork
  split_ifs
  · exact Or.comm
  · exact Iff.rfl

/-- Behind a wait on a fork the philosopher holds the fork too. -/
theorem held_taken (wants : s.wants n i = some (.fork g)) :
    f ∈ s.next.held n i ↔ f ∈ s.held n i ∨ f = g := by
  cases s <;> cases wants
  · simp [next, held]
  · simp only [next, held, List.mem_cons, List.not_mem_nil, or_false]
    exact mem_both.symm

/-- Behind a post to a fork it holds all its forks but that one. -/
theorem held_given (two : 2 ≤ n) (seat : i < n) (posts : s.posts n i = some (.fork g)) :
    g ∈ s.held n i ∧ (f ∈ s.next.held n i ↔ f ∈ s.held n i ∧ f ≠ g) := by
  have ne := rightFork_ne two seat
  cases s <;> cases posts
  · refine ⟨by simp [held], ?_⟩
    simp only [next, held, List.mem_cons, List.not_mem_nil, or_false]
    constructor
    · rintro rfl
      exact ⟨Or.inr rfl, ne⟩
    · rintro ⟨own | right, other⟩
      · exact absurd own other
      · exact right
  · simp [next, held]

/-- Behind any other statement it holds the same. -/
theorem held_same (wants : ∀ g, s.wants n i ≠ some (.fork g))
    (posts : ∀ g, s.posts n i ≠ some (.fork g)) : s.next.held n i = s.held n i := by
  cases s <;> first | rfl | exact absurd rfl (wants _) | exact absurd rfl (posts _)

/-- No statement both waits and posts. -/
theorem posts_of_wants (wants : s.wants n i = some id) : s.posts n i = none := by
  cases s <;> first | rfl | cases wants

theorem wants_of_posts (posts : s.posts n i = some id) : s.wants n i = none := by
  cases s <;> first | rfl | cases posts

theorem inside_next (wants : s.wants n i ≠ some .change) (posts : s.posts n i ≠ some .change) :
    s.next.inside = s.inside := by
  cases s <;> first | rfl | exact absurd rfl wants | exact absurd rfl posts

/-- Where the state may be EATING it may be behind the statement, unless that sets it. -/
theorem eats_next (eats : s.eats = true) (ne : s ≠ .nothing) : s.next.eats = true := by
  cases s <;> first | rfl | exact absurd rfl ne | cases eats

end Statement

namespace Table

/-! ### Fields -/

section Fields

variable (t : Table) (id : SemId) (s : Semaphore) (pid : Pid)

@[simp] theorem sem_setSem : (t.setSem id s).sem = Function.update t.sem id s := by
  funext id'
  cases id <;> cases id' <;> first | rfl | (simp [sem, setSem, Function.update])

@[simp] theorem setProcess_process (i : Nat) (p : Option Process) :
    (t.setProcess i p).process = Function.update t.process i p := rfl

@[simp] theorem setSem_process : (t.setSem id s).process = t.process := by cases id <;> rfl

@[simp] theorem setSem_controller : (t.setSem id s).controller = t.controller := by cases id <;> rfl

@[simp] theorem setSem_phylosOnTable : (t.setSem id s).phylosOnTable = t.phylosOnTable := by
  cases id <;> rfl

@[simp] theorem setSem_state : (t.setSem id s).state = t.state := by cases id <;> rfl

@[simp] theorem resume_sem : (t.resume pid).sem = t.sem := by
  cases pid <;> (funext id; cases id <;> rfl)

@[simp] theorem resume_phylosOnTable : (t.resume pid).phylosOnTable = t.phylosOnTable := by
  cases pid <;> rfl

@[simp] theorem resume_state : (t.resume pid).state = t.state := by cases pid <;> rfl

@[simp] theorem block_sem : (t.block pid).sem = t.sem := by
  cases pid <;> (funext id; cases id <;> rfl)

@[simp] theorem block_phylosOnTable : (t.block pid).phylosOnTable = t.phylosOnTable := by
  cases pid <;> rfl

@[simp] theorem block_state : (t.block pid).state = t.state := by cases pid <;> rfl

theorem setSem_resume : (t.setSem id s).resume pid = (t.resume pid).setSem id s := by
  cases id <;> cases pid <;> rfl

theorem setSem_setSem (s' : Semaphore) : (t.setSem id s).setSem id s' = t.setSem id s' := by
  cases id <;> simp [setSem]

theorem resume_comm {pid pid' : Pid} (ne : pid ≠ pid') :
    (t.resume pid).resume pid' = (t.resume pid').resume pid := by
  cases pid with
  | controller => cases pid' <;> rfl
  | phylo i =>
      cases pid' with
      | controller => rfl
      | phylo j =>
          have ne : i ≠ j := fun same => ne (same ▸ rfl)
          simp [resume, setProcess, Function.update_of_ne ne.symm, Function.update_of_ne ne,
            Function.update_comm ne]

end Fields

/-! ### Taking and giving units -/

/-- The process takes a unit, and the queue becomes what it becomes. -/
def take (t : Table) (pid : Pid) (id : SemId) (queue : List Pid) : Table :=
  (t.setSem id ⟨(t.sem id).value - 1, queue, (t.sem id).destroyed⟩).resume pid

/-- The process gives a unit back. -/
def give (t : Table) (pid : Pid) (id : SemId) : Table :=
  (t.setSem id ⟨(t.sem id).value + 1, (t.sem id).queue, (t.sem id).destroyed⟩).resume pid

def enqueue (t : Table) (pid : Pid) (id : SemId) : Table :=
  (t.setSem id ⟨(t.sem id).value, (t.sem id).queue ++ [pid], (t.sem id).destroyed⟩).block pid

theorem sysWaitSem_eq {t : Table} {id : SemId} (alive : (t.sem id).destroyed = false) (pid : Pid) :
    t.sysWaitSem pid id =
      if (t.sem id).value > 0 then t.take pid id (t.sem id).queue else t.enqueue pid id := by
  simp [sysWaitSem, alive, take, enqueue]

/-- A unit that is handed over is given, and then taken by the first in the queue. -/
theorem sysPostSem_eq {t : Table} {pid : Pid} {id : SemId} (alive : (t.sem id).destroyed = false)
    (absent : pid ∉ (t.sem id).queue) :
    t.sysPostSem pid id =
      match (t.sem id).queue with
      | [] => t.give pid id
      | toReady :: queue => (t.give pid id).take toReady id queue := by
  unfold sysPostSem
  dsimp only
  rw [if_neg (by simp [alive])]
  cases waiting : (t.sem id).queue with
  | nil =>
      simp only
      rw [give, waiting]
  | cons toReady queue =>
      have ne : toReady ≠ pid :=
        fun same => absent (by rw [waiting, same]; exact List.mem_cons_self)
      simp only [give, take, resume_sem, sem_setSem, Function.update_self, Nat.add_sub_cancel]
      rw [setSem_resume t _ _ pid, setSem_setSem, ← setSem_resume t, resume_comm _ ne.symm]

/-! ### Queues -/

/-- The process is blocked in a wait on the semaphore. -/
def Waits (t : Table) : Pid → SemId → Prop
  | .controller, id => t.controller.blocked = true ∧ id = .change
  | .phylo i, id => ∃ s, t.process i = some ⟨s, true⟩ ∧ s.wants t.phylosOnTable i = some id

/-- The queues hold the processes that are blocked, each once. -/
def Queues (t : Table) : Prop :=
  ∀ id, (t.sem id).queue.Nodup ∧ ∀ pid, pid ∈ (t.sem id).queue ↔ t.Waits pid id

/-- The process has come to a wait on the semaphore. -/
def AtWait (t : Table) : Pid → SemId → Prop
  | .controller, id => id = .change
  | .phylo i, id => ∃ s b, t.process i = some ⟨s, b⟩ ∧ s.wants t.phylosOnTable i = some id

/-- The process has come to a post to the semaphore. -/
def AtPost (t : Table) : Pid → SemId → Prop
  | .controller, id => t.controller.blocked = false ∧ id = .change
  | .phylo i, id => ∃ s, t.process i = some ⟨s, false⟩ ∧ s.posts t.phylosOnTable i = some id

section Queues

variable {t : Table} {pid pid' : Pid} {id id' : SemId} {queue : List Pid}

theorem AtWait.unique (wait : t.AtWait pid id) (waits : t.Waits pid id') : id' = id := by
  cases pid with
  | controller => exact waits.2.trans wait.symm
  | phylo i =>
      obtain ⟨s, b, there, wants⟩ := wait
      obtain ⟨s', there', wants'⟩ := waits
      cases there.symm.trans there'
      exact Option.some.inj (wants'.symm.trans wants)

theorem AtPost.not_waits (post : t.AtPost pid id) : ¬ t.Waits pid id' := by
  cases pid with
  | controller =>
      rintro ⟨blocked, -⟩
      cases post.1.symm.trans blocked
  | phylo i =>
      obtain ⟨s, there, -⟩ := post
      rintro ⟨s', there', -⟩
      cases there.symm.trans there'

theorem waits_setSem (s : Semaphore) : (t.setSem id s).Waits pid id' ↔ t.Waits pid id' := by
  cases pid <;> simp [Waits]

/-- A process that goes on does not wait; the others are as before. -/
theorem waits_resume : (t.resume pid).Waits pid' id ↔ pid' ≠ pid ∧ t.Waits pid' id := by
  cases pid with
  | controller => cases pid' <;> simp [Waits, resume]
  | phylo i =>
      cases pid' with
      | controller => simp [Waits, resume, setProcess]
      | phylo j =>
          by_cases same : j = i
          · subst same
            cases there : t.process j <;> simp [Waits, resume, setProcess, there]
          · simp [Waits, resume, setProcess, same]

theorem waits_block (wait : t.AtWait pid id) :
    (t.block pid).Waits pid' id' ↔ (pid' = pid ∧ id' = id) ∨ (pid' ≠ pid ∧ t.Waits pid' id') := by
  cases pid with
  | controller =>
      obtain rfl : id = .change := wait
      cases pid' <;> simp [Waits, block]
  | phylo i =>
      obtain ⟨s, b, there, wants⟩ := wait
      cases pid' with
      | controller => simp [Waits, block, setProcess]
      | phylo j =>
          by_cases same : j = i
          · subst same
            simp [Waits, block, setProcess, there, wants, eq_comm]
          · simp [Waits, block, setProcess, same]

/-- The process leaves the queue it was in. -/
theorem Queues.take (q : t.Queues) (wait : t.AtWait pid id) (nodup : queue.Nodup)
    (rest : ∀ p, p ∈ queue ↔ p ∈ (t.sem id).queue ∧ p ≠ pid) : (t.take pid id queue).Queues := by
  intro id'
  simp only [Table.take, resume_sem, sem_setSem, waits_resume, waits_setSem]
  by_cases same : id' = id
  · subst same
    rw [Function.update_self]
    refine ⟨nodup, fun p => ?_⟩
    rw [rest, (q id').2]
    exact and_comm
  · rw [Function.update_of_ne same]
    refine ⟨(q id').1, fun p => ?_⟩
    rw [(q id').2]
    constructor
    · intro waits
      refine ⟨?_, waits⟩
      rintro rfl
      exact same (wait.unique waits)
    · exact And.right

theorem Queues.give (q : t.Queues) (post : t.AtPost pid id) : (t.give pid id).Queues := by
  intro id'
  have queue : ((t.give pid id).sem id').queue = (t.sem id').queue := by
    simp only [Table.give, resume_sem, sem_setSem]
    by_cases same : id' = id
    · rw [same, Function.update_self]
    · rw [Function.update_of_ne same]
  rw [queue]
  refine ⟨(q id').1, fun p => ?_⟩
  rw [(q id').2, Table.give, waits_resume, waits_setSem]
  constructor
  · intro waits
    refine ⟨?_, waits⟩
    rintro rfl
    exact post.not_waits waits
  · exact And.right

theorem Queues.enqueue (q : t.Queues) (wait : t.AtWait pid id) (free : ∀ id, ¬ t.Waits pid id) :
    (t.enqueue pid id).Queues := by
  have wait' :
      (t.setSem id ⟨(t.sem id).value, (t.sem id).queue ++ [pid], (t.sem id).destroyed⟩).AtWait
        pid id := by
    cases pid <;> simpa [AtWait] using wait
  intro id'
  simp only [Table.enqueue, block_sem, sem_setSem, waits_block wait', waits_setSem]
  by_cases same : id' = id
  · subst same
    rw [Function.update_self]
    have absent : pid ∉ (t.sem id').queue := fun mem => free id' (((q id').2 pid).mp mem)
    refine ⟨?_, fun p => ?_⟩
    · exact (q id').1.append (List.nodup_singleton pid) (by simpa using absent)
    · rw [List.mem_append, List.mem_singleton, (q id').2]
      constructor
      · rintro (waits | rfl)
        · refine Or.inr ⟨?_, waits⟩
          rintro rfl
          exact free id' waits
        · exact Or.inl ⟨rfl, rfl⟩
      · rintro (⟨rfl, -⟩ | ⟨-, waits⟩)
        · exact Or.inr rfl
        · exact Or.inl waits
  · rw [Function.update_of_ne same]
    refine ⟨(q id').1, fun p => ?_⟩
    rw [(q id').2]
    constructor
    · intro waits
      refine Or.inr ⟨?_, waits⟩
      rintro rfl
      exact free id' waits
    · rintro (⟨-, eq⟩ | ⟨-, waits⟩)
      · exact absurd eq same
      · exact waits

end Queues

/-! ### Forks -/

/-- The philosopher holds the fork. -/
def Holds (t : Table) (i f : Nat) : Prop :=
  ∃ p, t.process i = some p ∧ f ∈ p.statement.held t.phylosOnTable i

/-- The fork lies on the table, or somebody holds it. -/
def Owned (t : Table) (f : Nat) (owner : Option Nat) : Prop :=
  (t.fork f).value = owner.elim 1 (fun _ => 0) ∧ ∀ i, t.Holds i f ↔ owner = some i

/-- The fork is there, and nobody takes it from its owner. -/
def Fine (t : Table) (f : Nat) : Prop := (t.fork f).destroyed = false ∧ ∃ owner, t.Owned f owner

/-- The forks before `k` are fine. Where forks may be lost, those are whose philosopher was
never created. -/
def Forks (t : Table) (k : Nat) (lost : Bool) : Prop :=
  ∀ f < k, t.Fine f ∨ (lost = true ∧ t.process f = none)

section Forks

variable {t : Table} {i j f g k : Nat} {s : Statement} {b lost : Bool} {id : SemId} {v : Semaphore}

theorem holds_setSem : (t.setSem id v).Holds j f ↔ t.Holds j f := by simp [Holds]

theorem holds_block {pid : Pid} : (t.block pid).Holds j f ↔ t.Holds j f := by
  cases pid with
  | controller => exact Iff.rfl
  | phylo i =>
      by_cases same : j = i
      · subst same
        cases there : t.process j <;> simp [Holds, block, setProcess, there]
      · simp [Holds, block, setProcess, same]

theorem holds_resume (there : t.process i = some ⟨s, b⟩) :
    (t.resume (.phylo i)).Holds j f ↔ if j = i then f ∈ s.next.held t.phylosOnTable i
      else t.Holds j f := by
  by_cases same : j = i
  · subst same
    simp [Holds, resume, setProcess, there]
  · simp [Holds, resume, setProcess, same]

theorem holds_self (there : t.process i = some ⟨s, b⟩) : t.Holds i f ↔
    f ∈ s.held t.phylosOnTable i := by
  simp [Holds, there]

theorem fork_setSem (f : Nat) : (t.setSem id v).fork f = if id = .fork f then v else t.fork f := by
  cases id with
  | change => rfl
  | print => rfl
  | fork g =>
      by_cases same : f = g
      · subst same
        simp [setSem]
      · simp [setSem, Function.update_of_ne same, Ne.symm same]

@[simp] theorem resume_fork (pid : Pid) : (t.resume pid).fork = t.fork := by cases pid <;> rfl

@[simp] theorem block_fork (pid : Pid) : (t.block pid).fork = t.fork := by cases pid <;> rfl

/-- The fork and who holds it are as before. -/
theorem Fine.congr {t' : Table} (fine : t.Fine f) (holds : ∀ i, t'.Holds i f ↔ t.Holds i f)
    (value : (t'.fork f).value = (t.fork f).value)
    (destroyed : (t'.fork f).destroyed = (t.fork f).destroyed) :
    t'.Fine f := by
  obtain ⟨alive, owner, value', holders⟩ := fine
  exact ⟨destroyed.trans alive, owner, value.trans value', fun i => (holds i).trans (holders i)⟩

theorem Forks.congr {t' : Table} (h : t.Forks k lost)
    (holds : ∀ i f, f < k → (t'.Holds i f ↔ t.Holds i f))
    (value : ∀ f < k, (t'.fork f).value = (t.fork f).value)
    (destroyed : ∀ f < k, (t'.fork f).destroyed = (t.fork f).destroyed)
    (none : ∀ f < k, t.process f = none → t'.process f = none) : t'.Forks k lost := by
  intro f lt
  rcases h f lt with fine | ⟨lost, absent⟩
  · exact Or.inl (fine.congr (fun i => holds i f lt) (value f lt) (destroyed f lt))
  · exact Or.inr ⟨lost, none f lt absent⟩

/-- A philosopher that goes on is no new one. -/
theorem resume_none (there : t.process i = some ⟨s, b⟩) (absent : t.process f = none) :
    (t.resume (.phylo i)).process f = none := by
  by_cases same : f = i
  · subst same
    cases there.symm.trans absent
  · rw [resume, setProcess_process, Function.update_of_ne same, absent]

/-- A statement that takes and gives no fork. -/
theorem holds_same (there : t.process i = some ⟨s, b⟩)
    (wants : ∀ g, s.wants t.phylosOnTable i ≠ some (.fork g))
    (posts : ∀ g, s.posts t.phylosOnTable i ≠ some (.fork g)) :
    (t.resume (.phylo i)).Holds j f ↔ t.Holds j f := by
  rw [holds_resume there, Statement.held_same wants posts]
  by_cases same : j = i
  · rw [if_pos same, same, holds_self there]
  · rw [if_neg same]

/-- A fork that lies on the table is taken. -/
theorem Forks.take (h : t.Forks k lost) (there : t.process i = some ⟨s, b⟩)
    (wants : s.wants t.phylosOnTable i = some (.fork g)) (free : 0 < (t.fork g).value)
    (queue : List Pid) : (t.take (.phylo i) (.fork g) queue).Forks k lost := by
  have there' :
      (t.setSem (.fork g) ⟨(t.sem (.fork g)).value - 1, queue,
        (t.sem (.fork g)).destroyed⟩).process i =
      some ⟨s, b⟩ := by simpa using there
  have holds : ∀ j f, (t.take (.phylo i) (.fork g) queue).Holds j f ↔
      if j = i then f ∈ s.held t.phylosOnTable i ∨ f = g else t.Holds j f := fun j f => by
    rw [Table.take, holds_resume there', holds_setSem, setSem_phylosOnTable,
      Statement.held_taken wants]
  intro f f_lt
  rcases h f f_lt with ⟨alive, owner, value, holders⟩ | ⟨lost, absent⟩
  · left
    by_cases same : f = g
    · subst same
      have none : owner = none := by
        cases owner with
        | none => rfl
        | some o => exact absurd free (by rw [value]; exact Nat.lt_irrefl 0)
      subst none
      refine ⟨by simp [Table.take, fork_setSem, sem, alive], some i, ?_, fun j => ?_⟩
      · simp [Table.take, fork_setSem, sem, value]
      · rw [holds]
        by_cases self : j = i
        · simp [self]
        · rw [if_neg self, holders]
          simp [Ne.symm self]
    · refine ⟨by simp [Table.take, fork_setSem, Ne.symm same, alive], owner, ?_, fun j => ?_⟩
      · simp [Table.take, fork_setSem, Ne.symm same, value]
      · rw [holds]
        by_cases self : j = i
        · subst self
          rw [if_pos rfl, or_iff_left same, ← holds_self there]
          exact holders j
        · rw [if_neg self]
          exact holders j
  · exact Or.inr ⟨lost, resume_none there' (by simpa using absent)⟩

/-- A fork that is held is laid down. -/
theorem Forks.give (h : t.Forks k lost) (there : t.process i = some ⟨s, b⟩)
    (two : 2 ≤ t.phylosOnTable)
    (seat : i < t.phylosOnTable) (posts : s.posts t.phylosOnTable i = some (.fork g)) :
    (t.give (.phylo i) (.fork g)).Forks k lost := by
  have there' : (t.setSem (.fork g) ⟨(t.sem (.fork g)).value + 1, (t.sem (.fork g)).queue,
      (t.sem (.fork g)).destroyed⟩).process i = some ⟨s, b⟩ := by simpa using there
  have holds : ∀ j f, (t.give (.phylo i) (.fork g)).Holds j f ↔
      if j = i then f ∈ s.held t.phylosOnTable i ∧ f ≠ g else t.Holds j f := fun j f => by
    rw [Table.give, holds_resume there', holds_setSem, setSem_phylosOnTable,
      (Statement.held_given two seat posts).2]
  intro f f_lt
  rcases h f f_lt with ⟨alive, owner, value, holders⟩ | ⟨lost, absent⟩
  · left
    by_cases same : f = g
    · subst same
      have mine : owner = some i :=
        (holders i).mp ((holds_self there).mpr (Statement.held_given (f := f) two seat posts).1)
      subst mine
      refine ⟨by simp [Table.give, fork_setSem, sem, alive], none, ?_, fun j => ?_⟩
      · simp [Table.give, fork_setSem, sem, value]
      · rw [holds]
        by_cases self : j = i
        · simp [self]
        · rw [if_neg self, holders]
          simp [Ne.symm self]
    · refine ⟨by simp [Table.give, fork_setSem, Ne.symm same, alive], owner, ?_, fun j => ?_⟩
      · simp [Table.give, fork_setSem, Ne.symm same, value]
      · rw [holds]
        by_cases self : j = i
        · subst self
          rw [if_pos rfl, and_iff_left same, ← holds_self there]
          exact holders j
        · rw [if_neg self]
          exact holders j
  · exact Or.inr ⟨lost, resume_none there' (by simpa using absent)⟩

/-- A system call on a fork that is destroyed returns at once. -/
theorem Forks.skip (h : t.Forks k lost) (there : t.process i = some ⟨s, b⟩)
    (two : 2 ≤ t.phylosOnTable)
    (seat : i < t.phylosOnTable) (destroyed : (t.fork g).destroyed = true)
    (uses : s.wants t.phylosOnTable i = some (.fork g) ∨
      s.posts t.phylosOnTable i = some (.fork g)) :
    (t.resume (.phylo i)).Forks k lost := by
  intro f f_lt
  rcases h f f_lt with fine | ⟨lost, absent⟩
  · left
    have other : f ≠ g := by
      rintro rfl
      cases destroyed.symm.trans fine.1
    refine fine.congr (fun j => ?_) (by rw [resume_fork]) (by rw [resume_fork])
    rw [holds_resume there]
    by_cases self : j = i
    · subst self
      rw [if_pos rfl, holds_self there]
      rcases uses with wants | posts
      · rw [Statement.held_taken wants, or_iff_left other]
      · rw [(Statement.held_given two seat posts).2, and_iff_left other]
    · rw [if_neg self]
  · exact Or.inr ⟨lost, resume_none there absent⟩

end Forks

/-! ### Tokens -/

def tokenOf : Option Process → Nat
  | some p => if p.statement.inside then 1 else 0
  | none => 0

/-- The philosophers that have a token. -/
def holders (t : Table) : Nat := ∑ i ∈ Finset.range PHYLO_MAX_AMOUNT, tokenOf (t.process i)

/-- The tokens that the controlling process does not have. -/
def tokens (t : Table) : Nat := t.change.value + t.holders

section Tokens

variable {t : Table} {i : Nat} {s : Statement} {b : Bool} {p : Option Process}

theorem holders_setProcess (seat : i < PHYLO_MAX_AMOUNT) (p : Option Process) :
    (t.setProcess i p).holders + tokenOf (t.process i) = t.holders + tokenOf p := by
  have mem : i ∈ Finset.range PHYLO_MAX_AMOUNT := Finset.mem_range.mpr seat
  have others : ∑ j ∈ (Finset.range PHYLO_MAX_AMOUNT).erase i,
      tokenOf ((t.setProcess i p).process j) =
      ∑ j ∈ (Finset.range PHYLO_MAX_AMOUNT).erase i, tokenOf (t.process j) := by
    refine Finset.sum_congr rfl fun j j_mem => ?_
    rw [setProcess_process, Function.update_of_ne (Finset.ne_of_mem_erase j_mem)]
  have self : tokenOf ((t.setProcess i p).process i) = tokenOf p := by
    rw [setProcess_process, Function.update_self]
  unfold holders
  rw [← Finset.add_sum_erase _ _ mem, ← Finset.add_sum_erase _ (fun j => tokenOf (t.process j)) mem,
    others, self]
  omega

theorem holders_pos (seat : i < PHYLO_MAX_AMOUNT) {p : Process} (there : t.process i = some p)
    (inside : p.statement.inside = true) : 0 < t.holders := by
  have mem : i ∈ Finset.range PHYLO_MAX_AMOUNT := Finset.mem_range.mpr seat
  have one : tokenOf (t.process i) = 1 := by simp [tokenOf, there, inside]
  have := Finset.single_le_sum (f := fun j => tokenOf (t.process j)) (fun _ _ => Nat.zero_le _) mem
  unfold holders
  omega

theorem holders_congr {t' : Table} (same : t'.process = t.process) : t'.holders = t.holders := by
  unfold holders
  rw [same]

/-- A philosopher that goes on gets a token at its first statement, and gives it back at the
last one. -/
theorem holders_resume (seat : i < PHYLO_MAX_AMOUNT) (there : t.process i = some ⟨s, b⟩) :
    (t.resume (.phylo i)).holders + (if s.inside then 1 else 0) =
      t.holders + if s.next.inside then 1 else 0 := by
  have moved := holders_setProcess (t := t) seat (some ⟨s.next, false⟩)
  rw [there] at moved
  have eq : t.resume (.phylo i) = t.setProcess i (some ⟨s.next, false⟩) := by
    rw [resume, there]; rfl
  rw [eq]
  exact moved

end Tokens

end Table

end SoTp.Phylo
