/-
The controlling process while it has all tokens. Every philosopher is then at its wait on
`change_phylos_sem`, so nobody holds a fork, and nobody waits for anything else: forks,
processes and places can be made and removed.

* `Inv.alone`, `Alone.inv` — the table is alone where no tokens are left.
* `Alone.sysSemInit`, `Alone.sysCreateProcess`, `Alone.sysKill`, `Alone.destroyFork` — what
  the controlling process does to it.
* `Inv.goes` — it goes on and leaves the table as it is.
-/

import SoTp.Phylo.Invariant

namespace SoTp.Phylo

/-- The table when the controlling process has all tokens and comes to a statement. -/
structure Alone (t : Table) (c : Control) : Prop where
  still : ∀ i p, t.process i = some p → p.statement = .waitChange
  waiting : t.change.queue.Nodup ∧
    ∀ pid, pid ∈ t.change.queue ↔ ∃ i, pid = .phylo i ∧ t.process i = some ⟨.waitChange, true⟩
  empty : ∀ id, id ≠ .change → (t.sem id).queue = []
  forks : ∀ f < c.laid t.phylosOnTable, (t.fork f).destroyed = false ∧ (t.fork f).value = 1
  seated : ∀ i p, t.process i = some p → i < c.seats t.phylosOnTable
  shown : ∀ i < c.shown t.phylosOnTable, t.state i ≠ .eating
  value : t.change.value = 0
  budget : c.Budget t.phylosOnTable 0
  change : t.change.destroyed = true → t.phylosOnTable = 0 ∧ (c = .endPrint ∨ c = .exited)
  printMutex : t.printMutex.destroyed = true → t.phylosOnTable = 0 ∧ c = .exited

section Alone

variable {t : Table} {c c' : Control} {i : Nat} {s : Statement} {id : SemId}

theorem Table.holders_zero (still : ∀ i p, t.process i = some p → p.statement = .waitChange) :
    t.holders = 0 := by
  refine Finset.sum_eq_zero fun i _ => ?_
  cases there : t.process i with
  | none => rfl
  | some p =>
      show (if p.statement.inside then 1 else 0) = 0
      rw [still i p there]
      rfl

/-- No philosopher is between its wait and its post. -/
theorem Inv.still (inv : Inv t) (none : t.tokens = 0) {p : Process} (there : t.process i = some p) :
    p.statement = .waitChange := by
  have outside : p.statement.inside = false := by
    by_contra inside
    have pos := Table.holders_pos (inv.seat_lt there) there (Bool.not_eq_false _ ▸ inside)
    unfold Table.tokens at none
    omega
  cases at_ : p.statement with
  | waitChange => rfl
  | _ => rw [at_] at outside; cases outside

theorem Inv.alone (inv : Inv t) (going : t.controller.blocked = false)
    (at_ : t.controller.control = c)
    (whole : c.ends = false) (none : t.tokens = 0) : Alone t c := by
  subst at_
  have still : ∀ i p, t.process i = some p → p.statement = .waitChange :=
    fun i p there => inv.still none there
  have waits : ∀ pid id, t.Waits pid id ↔
      id = .change ∧ ∃ i, pid = .phylo i ∧ t.process i = some ⟨.waitChange, true⟩ := by
    intro pid id
    cases pid with
    | controller => simp [Table.Waits, going]
    | phylo i =>
        constructor
        · rintro ⟨s, there, wants⟩
          obtain rfl : s = .waitChange := still i _ there
          cases wants
          exact ⟨rfl, i, rfl, there⟩
        · rintro ⟨rfl, j, eq, there⟩
          cases eq
          exact ⟨.waitChange, there, rfl⟩
  refine ⟨still, ⟨(inv.queues .change).1, fun pid => ?_⟩, fun id other => ?_,
    fun f lt => ?_, inv.seated,
    fun i lt eating => ?_, ?_, none ▸ inv.budget, inv.change, inv.printMutex⟩
  · refine ((inv.queues .change).2 pid).trans ?_
    rw [waits]
    exact and_iff_right rfl
  · refine List.eq_nil_iff_forall_not_mem.mpr fun pid mem => ?_
    exact other ((waits pid id).mp (((inv.queues id).2 pid).mp mem)).1
  · have fine : t.Fine f := (inv.forks f lt).resolve_right (by simp [whole])
    obtain ⟨alive, owner, value, holders⟩ := fine
    refine ⟨alive, ?_⟩
    cases owner with
    | none => exact value
    | some i =>
        obtain ⟨p, there, held⟩ := (holders i).mpr rfl
        rw [still i p there] at held
        cases held
  · obtain ⟨p, there, eats⟩ := inv.eating i lt eating
    rw [still i p there] at eats
    cases eats
  · unfold Table.tokens at none
    omega

theorem Alone.inv (alone : Alone t c) (whole : c.frees = true → c.ends = false) :
    Inv (t.goes c) := by
  have not_held : ∀ i f, ¬ (t.goes c).Holds i f := by
    rintro i f ⟨p, there, held⟩
    rw [alone.still i p there] at held
    cases held
  have waits : ∀ pid id, (t.goes c).Waits pid id ↔
      id = .change ∧ ∃ i, pid = .phylo i ∧ t.process i = some ⟨.waitChange, true⟩ := by
    intro pid id
    cases pid with
    | controller => simp [Table.Waits, Table.goes]
    | phylo i =>
        constructor
        · rintro ⟨s, there, wants⟩
          obtain rfl : s = .waitChange := alone.still i _ there
          cases wants
          exact ⟨rfl, i, rfl, there⟩
        · rintro ⟨rfl, j, eq, there⟩
          cases eq
          exact ⟨.waitChange, there, rfl⟩
  have tokens : (t.goes c).tokens = 0 := by
    have holders : (t.goes c).holders = 0 := Table.holders_zero alone.still
    unfold Table.tokens
    rw [holders]
    exact alone.value
  refine ⟨fun id => ?_, fun f lt => ?_, alone.seated, fun i lt eating => ?_, ?_, fun blocked => ?_,
    alone.change, alone.printMutex, fun busy one => ?_⟩
  · have sem : (t.goes c).sem id = t.sem id := by cases id <;> rfl
    rw [sem]
    by_cases same : id = .change
    · subst same
      refine ⟨alone.waiting.1, fun pid => ?_⟩
      rw [waits]
      exact (alone.waiting.2 pid).trans (and_iff_right rfl).symm
    · rw [alone.empty id same]
      refine ⟨List.nodup_nil, fun pid => ?_⟩
      rw [waits]
      simp [same]
  · obtain ⟨alive, value⟩ := alone.forks f lt
    refine Or.inl ⟨alive, none, value, fun i => ?_⟩
    simp [not_held]
  · exact absurd eating (alone.shown i lt)
  · show c.Budget t.phylosOnTable (t.goes c).tokens
    rw [tokens]
    exact alone.budget
  · cases blocked
  · have budget := alone.budget
    rw [tokens] at busy
    have frees : c.frees = true := busy.resolve_right fun ne => ne rfl
    cases c with
    | freeAll k exits =>
        have exits : exits = false := whole rfl
        subst exits
        obtain ⟨-, -, two, -⟩ := budget
        have one : t.phylosOnTable = 1 := one
        rw [one] at two
        cases two with
        | inl exits => cases exits
        | inr two => exact absurd two (by decide)
    | _ => cases frees

/-! ### What the controlling process does -/

variable (c')

/-- It goes on with another number of places. -/
theorem Alone.settle (alone : Alone t c) (n : Nat) (laid : c'.laid n ≤ c.laid t.phylosOnTable)
    (seats : c.seats t.phylosOnTable ≤ c'.seats n) (shown : c'.shown n ≤ c.shown t.phylosOnTable)
    (budget : c'.Budget n 0)
    (change : t.change.destroyed = true → n = 0 ∧ (c' = .endPrint ∨ c' = .exited))
    (printMutex : t.printMutex.destroyed = true → n = 0 ∧ c' = .exited) :
    Alone { t with phylosOnTable := n } c' := by
  refine ⟨alone.still, alone.waiting, alone.empty, fun f lt => ?_, fun i p there => ?_,
    fun i lt => ?_, alone.value, budget, change, printMutex⟩
  · exact alone.forks f (Nat.lt_of_lt_of_le lt laid)
  · exact Nat.lt_of_lt_of_le (alone.seated i p there) seats
  · exact alone.shown i (Nat.lt_of_lt_of_le lt shown)

/-- The semaphores are there until the table is empty. -/
theorem Alone.alive (alone : Alone t c) (closing : c ≠ .endPrint ∧ c ≠ .exited) :
    t.change.destroyed = false ∧ t.printMutex.destroyed = false := by
  constructor
  · by_contra destroyed
    rcases (alone.change (Bool.not_eq_false _ ▸ destroyed)).2 with last | last
    · exact closing.1 last
    · exact closing.2 last
  · by_contra destroyed
    exact closing.2 (alone.printMutex (Bool.not_eq_false _ ▸ destroyed)).2

/-- A fork is made behind the others. -/
theorem Alone.sysSemInit (alone : Alone t c) (closing : c ≠ .endPrint ∧ c ≠ .exited)
    (laid : c'.laid t.phylosOnTable = c.laid t.phylosOnTable + 1)
    (seats : c'.seats t.phylosOnTable = c.seats t.phylosOnTable)
    (shown : c'.shown t.phylosOnTable = c.shown t.phylosOnTable)
    (budget : c'.Budget t.phylosOnTable 0) :
    Alone (t.sysSemInit (c.laid t.phylosOnTable)) c' := by
  have alive := alone.alive closing
  refine ⟨alone.still, alone.waiting, fun id other => ?_, fun f lt => ?_, fun i p there => ?_,
    fun i lt => ?_, alone.value, budget, fun gone => ?_, fun gone => ?_⟩
  · rw [Table.sysSemInit, Table.sem_setSem]
    by_cases same : id = .fork (c.laid t.phylosOnTable)
    · rw [same, Function.update_self]
    · rw [Function.update_of_ne same]
      exact alone.empty id other
  · rw [Table.sysSemInit, Table.fork_setSem]
    split_ifs with same
    · exact ⟨rfl, rfl⟩
    · have lt : f < c'.laid t.phylosOnTable := lt
      rw [laid] at lt
      refine alone.forks f (Nat.lt_of_le_of_ne (Nat.lt_succ_iff.mp lt) ?_)
      rintro rfl
      exact same rfl
  · show i < c'.seats t.phylosOnTable
    rw [seats]
    exact alone.seated i p there
  · exact alone.shown i (shown ▸ lt)
  · cases alive.1.symm.trans gone
  · cases alive.2.symm.trans gone

/-- A state that is not EATING is set. -/
theorem Alone.setState (alone : Alone t c) (closing : c ≠ .endPrint ∧ c ≠ .exited) (st : PhyloState)
    (eating : st ≠ .eating) (laid : c'.laid t.phylosOnTable = c.laid t.phylosOnTable)
    (seats : c'.seats t.phylosOnTable = c.seats t.phylosOnTable)
    (shown : c'.shown t.phylosOnTable = c.shown t.phylosOnTable + 1)
    (budget : c'.Budget t.phylosOnTable 0) :
    Alone (t.setState (c.shown t.phylosOnTable) st) c' := by
  have alive := alone.alive closing
  refine ⟨alone.still, alone.waiting, alone.empty, fun f lt => ?_, fun i p there => ?_,
    fun i lt => ?_, alone.value, budget, fun gone => ?_, fun gone => ?_⟩
  · exact alone.forks f (laid ▸ lt)
  · show i < c'.seats t.phylosOnTable
    rw [seats]
    exact alone.seated i p there
  · have lt : i < c'.shown t.phylosOnTable := lt
    rw [shown] at lt
    show Function.update t.state (c.shown t.phylosOnTable) st i ≠ .eating
    by_cases same : i = c.shown t.phylosOnTable
    · rw [same, Function.update_self]
      exact eating
    · rw [Function.update_of_ne same]
      exact alone.shown i (Nat.lt_of_le_of_ne (Nat.lt_succ_iff.mp lt) same)
  · cases alive.1.symm.trans gone
  · cases alive.2.symm.trans gone

/-- A process is created at the next place, or is not. -/
theorem Alone.sysCreateProcess (alone : Alone t c) (closing : c ≠ .endPrint ∧ c ≠ .exited)
    (made : Bool) (laid : c'.laid t.phylosOnTable = c.laid t.phylosOnTable)
    (seats : c'.seats t.phylosOnTable = c.seats t.phylosOnTable + 1)
    (shown : c'.shown t.phylosOnTable = c.shown t.phylosOnTable)
    (budget : c'.Budget t.phylosOnTable 0) :
    Alone (t.sysCreateProcess (c.seats t.phylosOnTable) made) c' := by
  have alive := alone.alive closing
  cases made with
  | false =>
      have le : c.seats t.phylosOnTable ≤ c'.seats t.phylosOnTable := by omega
      refine alone.settle c' t.phylosOnTable laid.le le shown.le budget
        (fun gone => ?_) fun gone => ?_
      · cases alive.1.symm.trans gone
      · cases alive.2.symm.trans gone
  | true =>
      have absent : t.process (c.seats t.phylosOnTable) = none := by
        cases there : t.process (c.seats t.phylosOnTable) with
        | none => rfl
        | some p => exact absurd (alone.seated _ p there) (Nat.lt_irrefl _)
      refine ⟨fun i p there => ?_, ⟨alone.waiting.1, fun pid => ?_⟩, alone.empty, fun f lt => ?_,
        fun i p there => ?_, fun i lt => ?_, alone.value, budget, fun gone => ?_, fun gone => ?_⟩
      · by_cases same : i = c.seats t.phylosOnTable
        · subst same
          simp only [Table.sysCreateProcess, if_true, Table.setProcess_process,
            Function.update_self, Option.some.injEq] at there
          rw [← there]
        · simp only [Table.sysCreateProcess, if_true, Table.setProcess_process,
            Function.update_of_ne same] at there
          exact alone.still i p there
      · refine (alone.waiting.2 pid).trans (exists_congr fun i => and_congr_right fun _ => ?_)
        by_cases same : i = c.seats t.phylosOnTable
        · subst same
          simp [Table.sysCreateProcess, absent]
        · simp [Table.sysCreateProcess, Function.update_of_ne same]
      · exact alone.forks f (laid ▸ lt)
      · show i < c'.seats t.phylosOnTable
        rw [seats]
        by_cases same : i = c.seats t.phylosOnTable
        · rw [same]
          exact Nat.lt_succ_self _
        · simp only [Table.sysCreateProcess, if_true, Table.setProcess_process,
            Function.update_of_ne same] at there
          exact Nat.lt_succ_of_lt (alone.seated i p there)
      · exact alone.shown i (shown ▸ lt)
      · cases alive.1.symm.trans gone
      · cases alive.2.symm.trans gone

/-- The last process is killed, if it is there. -/
theorem Alone.sysKill (alone : Alone t c) (closing : c ≠ .endPrint ∧ c ≠ .exited) {k : Nat}
    (last : c.seats t.phylosOnTable = k + 1)
    (laid : c'.laid t.phylosOnTable = c.laid t.phylosOnTable) (seats : c'.seats t.phylosOnTable = k)
    (shown : c'.shown t.phylosOnTable = c.shown t.phylosOnTable)
    (budget : c'.Budget t.phylosOnTable 0) :
    (t.sysKill k = (t, false) ∧ t.process k = none) ∨ ∃ t', t.sysKill k = (t', true) ∧
      Alone t' c' := by
  have alive := alone.alive closing
  cases there : t.process k with
  | none => exact Or.inl ⟨by simp [Table.sysKill, there], rfl⟩
  | some p =>
      refine Or.inr ⟨_, by rw [Table.sysKill, there], ?_⟩
      have process : ∀ i p, Function.update t.process k none i = some p → i ≠ k ∧
          t.process i = some p := by
        intro i p there
        by_cases same : i = k
        · rw [same, Function.update_self] at there
          cases there
        · rw [Function.update_of_ne same] at there
          exact ⟨same, there⟩
      refine ⟨fun i p there => alone.still i p (process i p there).2,
        ⟨alone.waiting.1.filter _, fun pid => ?_⟩,
        fun id other => ?_, fun f lt => ?_, fun i p there => ?_, fun i lt => ?_,
          alone.value, budget,
        fun gone => ?_, fun gone => ?_⟩
      · simp only [Table.without, List.mem_filter, alone.waiting.2, decide_eq_true_eq]
        constructor
        · rintro ⟨⟨i, rfl, there⟩, ne⟩
          refine ⟨i, rfl, ?_⟩
          have other : i ≠ k := fun same => ne (same ▸ rfl)
          simp [Function.update_of_ne other, there]
        · rintro ⟨i, rfl, there⟩
          obtain ⟨other, there⟩ := process i _ there
          exact ⟨⟨i, rfl, there⟩, fun eq => other (Pid.phylo.inj eq)⟩
      · cases id with
        | change => exact absurd rfl other
        | print | fork _ =>
            have empty := alone.empty _ other
            simp only [Table.sem] at empty
            simp [Table.sem, Table.without, empty]
      · exact alone.forks f (laid ▸ lt)
      · obtain ⟨other, there⟩ := process i p there
        have lt := alone.seated i p there
        show i < c'.seats t.phylosOnTable
        omega
      · exact alone.shown i (shown ▸ lt)
      · cases alive.1.symm.trans gone
      · cases alive.2.symm.trans gone

/-- The last fork is destroyed. -/
theorem Alone.destroyFork (alone : Alone t c) (closing : c ≠ .endPrint ∧ c ≠ .exited) {k : Nat}
    (last : c.laid t.phylosOnTable = k + 1)
    (laid : c'.laid t.phylosOnTable = k)
    (seats : c'.seats t.phylosOnTable = c.seats t.phylosOnTable)
    (shown : c'.shown t.phylosOnTable = c.shown t.phylosOnTable)
    (budget : c'.Budget t.phylosOnTable 0) :
    ∃ t', t.sysDestroySemaphore (.fork k) = (t', true) ∧ t'.phylosOnTable = t.phylosOnTable ∧
      Alone t' c' := by
  have alive := alone.alive closing
  have there : (t.fork k).destroyed = false := (alone.forks k (by omega)).1
  have empty := alone.empty (.fork k) (by simp)
  simp only [Table.sem] at empty
  refine ⟨t.setSem (.fork k) ⟨(t.fork k).value, [], true⟩, ?_, rfl, ?_⟩
  · simp [Table.sysDestroySemaphore, Table.sem, there, empty]
  refine ⟨alone.still, alone.waiting, fun id other => ?_, fun f lt => ?_, fun i p there => ?_,
    fun i lt => ?_, alone.value, budget, fun gone => ?_, fun gone => ?_⟩
  · rw [Table.sem_setSem]
    by_cases same : id = .fork k
    · rw [same, Function.update_self]
    · rw [Function.update_of_ne same]
      exact alone.empty id other
  · have lt : f < c'.laid t.phylosOnTable := lt
    rw [Table.fork_setSem, if_neg]
    · exact alone.forks f (by omega)
    · rintro eq
      cases eq
      omega
  · show i < c'.seats t.phylosOnTable
    rw [seats]
    exact alone.seated i p there
  · exact alone.shown i (shown ▸ lt)
  · cases alive.1.symm.trans gone
  · cases alive.2.symm.trans gone

/-- A semaphore of the empty table is destroyed. -/
theorem Alone.destroyMutex (alone : Alone t c) (id : SemId) (zero : t.phylosOnTable = 0)
    (places : c.seats 0 = 0)
    (places' : c'.laid 0 = 0 ∧ c'.seats 0 = 0 ∧ c'.shown 0 = 0) (mutex : id = .change ∨ id = .print)
    (there : (t.sem id).destroyed = false) (budget : c'.Budget 0 0)
    (change : id = .change ∨ t.change.destroyed = true → c' = .endPrint ∨ c' = .exited)
    (printMutex : id = .print ∨ t.printMutex.destroyed = true → c' = .exited) :
    ∃ t', t.sysDestroySemaphore id = (t', true) ∧ Alone t' c' := by
  have nobody : ∀ i, t.process i = none := fun i => by
    cases at_i : t.process i with
    | none => rfl
    | some p =>
        have lt := alone.seated i p at_i
        rw [zero, places] at lt
        cases lt
  have empty : ∀ id, (t.sem id).queue = [] := fun id => by
    by_cases same : id = .change
    · subst same
      refine List.eq_nil_iff_forall_not_mem.mpr fun pid mem => ?_
      obtain ⟨i, -, at_i⟩ := (alone.waiting.2 pid).mp mem
      cases (nobody i).symm.trans at_i
    · exact alone.empty id same
  refine ⟨t.setSem id ⟨(t.sem id).value, [],
    true⟩, by simp [Table.sysDestroySemaphore, there, empty], ?_⟩
  have change_eq : (t.setSem id ⟨(t.sem id).value, [], true⟩).change =
      if id = .change then ⟨(t.sem id).value, [], true⟩ else t.change := by
    rcases mutex with rfl | rfl <;> rfl
  have fork_eq : (t.setSem id ⟨(t.sem id).value, [], true⟩).fork = t.fork := by
    rcases mutex with rfl | rfl <;> rfl
  have value : ((t.setSem id ⟨(t.sem id).value, [], true⟩).change).value = 0 ∧
      ((t.setSem id ⟨(t.sem id).value, [], true⟩).change).queue = [] := by
    rcases mutex with rfl | rfl
    · exact ⟨alone.value, rfl⟩
    · exact ⟨alone.value, empty .change⟩
  refine ⟨fun i p at_i => ?_, ?_, fun id' _ => ?_, fun f lt => ?_, fun i p at_i => ?_,
    fun i lt => ?_, value.1, ?_,
    fun gone => ⟨by simpa using zero, change ?_⟩, fun gone => ⟨by simpa using zero, printMutex ?_⟩⟩
  · rw [Table.setSem_process, nobody i] at at_i
    cases at_i
  · rw [value.2]
    refine ⟨List.nodup_nil, fun pid => ?_⟩
    simp [nobody]
  · rw [Table.sem_setSem]
    by_cases same : id' = id
    · rw [same, Function.update_self]
    · rw [Function.update_of_ne same]
      exact empty id'
  · rw [Table.setSem_phylosOnTable, zero, places'.1] at lt
    cases lt
  · rw [Table.setSem_process, nobody i] at at_i
    cases at_i
  · rw [Table.setSem_phylosOnTable, zero, places'.2.2] at lt
    cases lt
  · rw [Table.setSem_phylosOnTable, zero]
    exact budget
  · rcases mutex with rfl | rfl
    · exact Or.inl rfl
    · exact Or.inr gone
  · rcases mutex with rfl | rfl
    · exact Or.inr gone
    · exact Or.inl rfl

/-! ### The controlling process goes on -/

variable {c'}

/-- It goes on and leaves the table as it is. -/
theorem Inv.goes (inv : Inv t) (going : t.controller.blocked = false)
    (forks : t.Forks (c.laid t.phylosOnTable) c.ends)
    (seats : t.controller.control.seats t.phylosOnTable ≤ c.seats t.phylosOnTable)
    (shown : c.shown t.phylosOnTable ≤ t.controller.control.shown t.phylosOnTable)
    (budget : c.Budget t.phylosOnTable t.tokens)
    (lone : c.frees = true ∨ t.tokens ≠ 0 → t.phylosOnTable = 1 → t.process 0 = none)
    (alive : t.change.destroyed = false ∧ t.printMutex.destroyed = false) : Inv (t.goes c) := by
  refine ⟨fun id => ?_, fun f lt => forks f lt, fun i p there => ?_, fun i lt eating => ?_, budget,
    fun blocked => ?_, fun gone => ?_, fun gone => ?_, lone⟩
  · have sem : (t.goes c).sem id = t.sem id := by cases id <;> rfl
    rw [sem]
    refine ⟨(inv.queues id).1, fun pid => ((inv.queues id).2 pid).trans ?_⟩
    cases pid with
    | controller => simp [Table.Waits, Table.goes, going]
    | phylo i => exact Iff.rfl
  · exact Nat.lt_of_lt_of_le (inv.seated i p there) seats
  · exact inv.eating i (Nat.lt_of_lt_of_le lt shown) eating
  · cases blocked
  · cases alive.1.symm.trans gone
  · cases alive.2.symm.trans gone

/-- It goes on to a statement with the same forks. -/
theorem Inv.goes_same (inv : Inv t) (going : t.controller.blocked = false)
    (at_ : t.controller.control = c)
    (laid : c'.laid t.phylosOnTable = c.laid t.phylosOnTable)
    (ends : c.ends = true → c'.ends = true)
    (seats : c'.seats t.phylosOnTable = c.seats t.phylosOnTable)
    (shown : c'.shown t.phylosOnTable = c.shown t.phylosOnTable)
    (closing : c ≠ .endPrint ∧ c ≠ .exited) (budget : c'.Budget t.phylosOnTable t.tokens)
    (lone : c'.frees = true ∨ t.tokens ≠ 0 → t.phylosOnTable = 1 → t.process 0 = none) :
      Inv (t.goes c') := by
  subst at_
  refine inv.goes going (fun f lt => ?_) seats.ge shown.le budget lone
    (inv.controller_alive closing.1 closing.2)
  rcases inv.forks f (laid ▸ lt) with fine | ⟨lost, absent⟩
  · exact Or.inl fine
  · exact Or.inr ⟨ends lost, absent⟩

end Alone

end SoTp.Phylo
