/-
What an operation may do to the kernel between two context switches. `Mid` is the
invariant that holds all through an operation and `Inv` the one that holds
outside of it; an `Edits` step keeps the first, moves processes only in ways that
respect death, and leaves the semaphores and processes it is not about alone.

The building blocks here: a change of state (`setState_edits`), a kill of a
BLOCKED process (`markWaitingForExit_edits`), an exit (`Exits.edits`), and a step
that nobody sees (`quiet_edits`).
-/

import SoTp.Process.Records

namespace SoTp.Process

open SoTp.Lib Kernel

/-! ### The invariant -/

/-- The idle process is nobody's parent and never in the foreground. -/
structure Family (k : Kernel) : Prop where
  foreground : k.processInForeground ≠ k.idlePCB
  parents : ∀ p, (k.pcbs p).parentProc ≠ k.idlePCB

/-- The ids to be reused are those of destroyed semaphores, whose queues are empty. -/
structure Ids (k : Kernel) : Prop where
  closed : ∀ (s : Nat) (sem : Semaphore), k.semArray[s]? = some sem → sem.destroyed = true →
    sem.queue.toList = []
  freed : ∀ s ∈ k.freedPositions, ∃ sem, k.semArray[s]? = some sem ∧ sem.destroyed = true
  nodup : k.freedPositions.Nodup

/-- What holds all through an operation. -/
structure Mid (strict : Prop) (k : Kernel) : Prop where
  ring : Ring k
  sched : Schedulable k
  family : Family k
  records : Records strict k
  ids : Ids k

/-- What holds outside of operations. -/
structure Inv (strict : Prop) (k : Kernel) : Prop extends Mid strict k where
  current : Awake (k.stateOf k.currentPCB)

/-- A context switch ends an operation. -/
theorem Mid.switched {strict : Prop} {k k' : Kernel} (m : Mid strict k) (s : Switched k k') :
    Inv strict k' where
  ring := s.ring
  sched := s.scheduled.toSchedulable
  family := by
    refine ⟨?_, fun p => ?_⟩
    · rw [s.selects.foreground, s.selects.idlePCB]
      exact m.family.foreground
    · rw [s.selects.samePCB, s.selects.idlePCB]
      exact m.family.parents p
  records := s.selects.records m.records
  ids := ⟨by rw [s.selects.semArray]; exact m.ids.closed,
    by rw [s.selects.semArray, s.selects.freedPositions]; exact m.ids.freed,
    by rw [s.selects.freedPositions]; exact m.ids.nodup⟩
  current := s.scheduled.current

/-! ### Edits -/

/-- What an operation may be about: a semaphore, or a process it kills. -/
inductive Subject where
  | sem (semId : Nat)
  | proc (pcb : Nat)

/-- Neither waiting nor EXITED. -/
def Active (s : State) : Prop := ¬ Waiting s ∧ s ≠ .exited

/-- Wherever `p` is recorded, it is in the queue of a semaphore not in `touched`. -/
def Away (touched : Subject → Prop) (k : Kernel) (p : Nat) : Prop :=
  ∀ slot, p ∈ k.entries slot → ∃ s, slot = .queue s ∧ ¬ touched (.sem s)

/-- A step of an operation that is about the subjects in `touched`. -/
structure Shifts (strict : Prop) (touched : Subject → Prop) (k k' : Kernel) : Prop where
  ring : SameRing k k'
  states : ∀ p, k'.stateOf p = k.stateOf p ∨
    k.allocated p = true ∧ p ≠ k.idlePCB ∧ k'.stateOf p ≠ .running ∧ k.stateOf p ≠ .exited ∧
      (k.stateOf p = .waitingForExit → k'.stateOf p = .exited)
  waits : ∀ p, Waiting (k'.stateOf p) → Waiting (k.stateOf p) ∨ p = k.currentPCB
  sems : ∀ s, ¬ touched (.sem s) → k'.semArray[s]? = k.semArray[s]?
  /-- Only the running process gets recorded. -/
  kept : ∀ p, p ≠ k.currentPCB → ∀ slot, p ∈ k'.entries slot → p ∈ k.entries slot
  /-- Who waits elsewhere is not woken, though it may be killed. -/
  members : ∀ p, p ≠ k.currentPCB → Waiting (k.stateOf p) → Away touched k p →
    k'.stateOf p = k.stateOf p ∨ k.stateOf p = .blocked ∧ k'.stateOf p = .waitingForExit ∨
      k'.stateOf p = .exited
  /-- Who does not wait is not made to exit, unless the step is about it. -/
  spared : ∀ p, p ≠ k.currentPCB → ¬ touched (.proc p) → Active (k.stateOf p) →
    k'.stateOf p ≠ .exited
  mid : Mid strict k'

/-- A step that loses no record of a waiting process. -/
structure Edits (strict : Prop) (touched : Subject → Prop) (k k' : Kernel) : Prop
    extends Shifts strict touched k k' where
  complete : Complete k → Complete k'

/-- Only waiting processes were moved. -/
def Calm (k k' : Kernel) : Prop := ∀ p, ¬ Waiting (k.stateOf p) → k'.stateOf p = k.stateOf p

theorem Calm.refl (k : Kernel) : Calm k k := fun _ _ => rfl

theorem Calm.trans {k k' k'' : Kernel} (h : Calm k k') (h' : Calm k' k'') : Calm k k'' :=
  fun p active => by
  have e := h p active
  rw [h' p (by rwa [e]), e]

namespace Edits

variable {strict : Prop} {touched touched' : Subject → Prop} {k k' k'' : Kernel}

theorem refl (m : Mid strict k) : Edits strict touched k k :=
  ⟨⟨SameRing.refl k, fun _ => Or.inl rfl, fun _ => Or.inl, fun _ _ => rfl, fun _ _ _ h => h,
    fun _ _ _ _ => Or.inl rfl, fun _ _ _ active => active.2, m⟩, id⟩

theorem mono (e : Edits strict touched k k') (weaker : ∀ s, touched s → touched' s) :
    Edits strict touched' k k' :=
  { e with
    sems := fun s h => e.sems s fun t => h (weaker _ t)
    members := fun p ne w away => e.members p ne w fun slot hp =>
      (away slot hp).imp fun _ => And.imp id fun h t => h (weaker _ t)
    spared := fun p ne h => e.spared p ne fun t => h (weaker _ t) }

theorem trans (e : Edits strict touched k k') (e' : Edits strict touched k' k'') :
    Edits strict touched k k'' where
  ring := e.ring.trans e'.ring
  states p := by
    rcases e.states p with same | ⟨alive, ne, quiet, old, killed⟩
    · rcases e'.states p with same' | ⟨alive, ne, rest⟩
      · exact Or.inl (same'.trans same)
      · rw [same] at rest
        exact Or.inr ⟨e.ring.allocated ▸ alive, e.ring.idlePCB ▸ ne, rest⟩
    · rcases e'.states p with same' | ⟨-, -, quiet', old', -⟩
      · rw [same']
        exact Or.inr ⟨alive, ne, quiet, old, killed⟩
      · exact Or.inr ⟨alive, ne, quiet', old, fun w => absurd (killed w) old'⟩
  waits p w := by
    rcases e'.waits p w with w | here
    · exact e.waits p w
    · exact Or.inr (e.ring.currentPCB ▸ here)
  sems s h := (e'.sems s h).trans (e.sems s h)
  kept p ne slot hp := e.kept p ne slot (e'.kept p (e.ring.currentPCB ▸ ne) slot hp)
  members p ne w away := by
    have ne' : p ≠ k'.currentPCB := e.ring.currentPCB ▸ ne
    have away' : Away touched k' p := fun slot hp => away slot (e.kept p ne slot hp)
    have next : k'.stateOf p = k.stateOf p ∨ k.stateOf p = .blocked ∧
        k'.stateOf p = .waitingForExit →
        k''.stateOf p = k.stateOf p ∨ k.stateOf p = .blocked ∧ k''.stateOf p = .waitingForExit ∨
          k''.stateOf p = .exited := by
      rintro (same | ⟨b, killed⟩)
      · have h := e'.members p ne' (by rwa [same]) away'
        rwa [same] at h
      · rcases e'.members p ne' (Or.inr killed) away' with same' | ⟨b', -⟩ | dead
        · exact Or.inr (Or.inl ⟨b, same'.trans killed⟩)
        · rw [killed] at b'
          cases b'
        · exact Or.inr (Or.inr dead)
    rcases e.members p ne w away with same | killed | dead
    · exact next (Or.inl same)
    · exact next (Or.inr killed)
    · rcases e'.states p with same' | ⟨-, -, -, alive, -⟩
      · exact Or.inr (Or.inr (same'.trans dead))
      · exact absurd dead alive
  spared p ne h active := by
    have ne' : p ≠ k'.currentPCB := e.ring.currentPCB ▸ ne
    refine e'.spared p ne' h ⟨fun w => ?_, e.spared p ne h active⟩
    rcases e.waits p w with w | here
    · exact active.1 w
    · exact ne here
  mid := e'.mid
  complete := e'.complete ∘ e.complete

end Edits

section Mid

variable {strict : Prop} {k k' : Kernel}

theorem Mid.idle_allocated (m : Mid strict k) : k.allocated k.idlePCB = true := by
  obtain ⟨_, _, _, ring, _⟩ := m.ring
  exact ring.idleAllocated

theorem Mid.current_allocated (m : Mid strict k) : k.allocated k.currentPCB = true := by
  obtain ⟨before, cursor, after, ring, here | idle⟩ := m.ring
  · exact (ring.used _ (here ▸ ring.cursor_mem)).2.2.2
  · rw [currentPCB, show k.pcbList.current = k.idleProcPCBNode from idle]
    exact ring.idleAllocated

theorem Mid.current_ne_idle (m : Mid strict k) (busy : ¬ k.idle) : k.currentPCB ≠ k.idlePCB := by
  obtain ⟨before, cursor, after, ring, here⟩ := m.ring
  exact ring.pcbOf_ne_idle (here.resolve_right busy ▸ ring.cursor_mem)

theorem Mid.allocated (m : Mid strict k) {p : Nat} (alive : k.stateOf p ≠ .exited) :
    k.allocated p = true := by
  by_contra gone
  exact alive (m.sched.freed p (by simpa using gone))

theorem Mid.isCurrent (m : Mid strict k) {p : Nat} (alive : k.allocated p = true) :
    k.isCurrent p = true ↔ p = k.currentPCB := by
  constructor
  · intro e
    obtain ⟨_, _, _, ring, _⟩ := m.ring
    exact ring.allocated_inj alive m.current_allocated (by simpa [Kernel.isCurrent] using e)
  · rintro rfl
    simp [Kernel.isCurrent]

/-- Nobody is killed from under its own feet. -/
theorem Mid.bystanders (m : Mid strict k) (current : Awake (k.stateOf k.currentPCB)) :
    Bystanders k := fun q hq => by
  by_contra here
  have alive := m.allocated (p := q) (by rw [hq]; simp)
  rw [(m.isCurrent alive).mp (by simpa using here)] at hq
  rw [hq] at current
  simp [Awake] at current

/-- The parts of `Mid` that follow from the changes of state. -/
theorem Mid.of_states (m : Mid strict k) (ring : SameRing k k')
    (states : ∀ p, k'.stateOf p = k.stateOf p ∨ k.allocated p = true ∧ p ≠ k.idlePCB ∧
      k'.stateOf p ≠ .running)
    (family : Family k') (records : Records strict k') (ids : Ids k') : Mid strict k' where
  ring := m.ring.congr ring
  sched := by
    refine ⟨?_, fun p gone => ?_, fun p run => ?_⟩
    · rw [ring.idlePCB]
      rcases states k.idlePCB with e | ⟨-, ne, -⟩
      · rw [e]
        exact m.sched.idle
      · exact absurd rfl ne
    · rw [ring.allocated] at gone
      rcases states p with e | ⟨alive, -⟩
      · rw [e]
        exact m.sched.freed p gone
      · rw [gone] at alive
        cases alive
    · rw [ring.currentPCB]
      rcases states p with e | ⟨-, -, quiet⟩
      · exact m.sched.running p (e ▸ run)
      · exact absurd run quiet
  family := family
  records := records
  ids := ids

theorem Mid.family_congr (m : Mid strict k) (ring : SameRing k k')
    (foreground : k'.processInForeground = k.processInForeground)
    (parents : ∀ p, (k'.pcbs p).parentProc = (k.pcbs p).parentProc) : Family k' :=
  ⟨by rw [foreground, ring.idlePCB]; exact m.family.foreground,
    fun p => by rw [parents, ring.idlePCB]; exact m.family.parents p⟩

theorem Ids.congr (i : Ids k) (semArray : k'.semArray = k.semArray)
    (freedPositions : k'.freedPositions = k.freedPositions) : Ids k' :=
  ⟨by rw [semArray]; exact i.closed, by rw [semArray, freedPositions]; exact i.freed,
    by rw [freedPositions]; exact i.nodup⟩

theorem ExitFrame.family (h : ExitFrame k k') (f : Family k) : Family k' := by
  refine ⟨?_, fun p => ?_⟩
  · rw [h.ring.idlePCB]
    rcases h.foreground with e | ⟨p, e⟩
    · rw [e]
      exact f.foreground
    · rw [e]
      exact f.parents p
  · rw [h.ring.idlePCB, h.parentProc]
    exact f.parents p

end Mid

/-! ### Exits -/

section Exits

variable {strict : Prop} {k k' : Kernel} {p : Nat}

/-- A process that waits is not the idle one. -/
theorem Mid.waiting_ne_idle (m : Mid strict k) {q : Nat} (w : Waiting (k.stateOf q)) :
    q ≠ k.idlePCB := by
  rintro rfl
  rw [m.sched.idle] at w
  simp [Waiting] at w

theorem Exits.calm (h : Exits p k k') (root : Waiting (k.stateOf p)) : Calm k k' :=
  fun q active => by
  by_cases e : q = p
  · exact absurd (e ▸ root) active
  · exact (h.changes q e).resolve_right fun ⟨_, s, _⟩ => active s.waiting

/-- The exit of a process that is recorded nowhere, or of one that dies twice. -/
theorem Exits.edits (h : Exits p k k') (m : Mid strict k) (alive : k.stateOf p ≠ .exited)
    (ne : p ≠ k.idlePCB)
    (root : ¬ Waiting (k.stateOf p) ∨ ¬ strict ∧ k.stateOf p = .waitingForExit) :
    Edits strict (· = .proc p) k k' := by
  have records : Records strict k' := h.records m.records <|
    root.imp (fun active => m.records.unrecorded active alive) And.left
  have states : ∀ q, k'.stateOf q = k.stateOf q ∨ k.allocated q = true ∧ q ≠ k.idlePCB ∧
      k'.stateOf q ≠ .running ∧ k.stateOf q ≠ .exited ∧
        (k.stateOf q = .waitingForExit → k'.stateOf q = .exited) := fun q => by
    by_cases e : q = p
    · subst e
      rw [h.root]
      exact Or.inr ⟨h.alive, ne, by simp, alive, fun _ => rfl⟩
    · rcases h.changes q e with same | ⟨-, s, a⟩
      · exact Or.inl same
      · refine Or.inr ⟨a, m.waiting_ne_idle s.waiting, s.ne_running, s.ne_exited, fun w => ?_⟩
        rcases s with ⟨b, -⟩ | ⟨-, dead⟩
        · rw [w] at b
          cases b
        · exact dead
  refine ⟨⟨h.ring, states, fun q w => Or.inl ?_, fun s _ => by rw [h.semArray],
    fun q _ slot hq => h.mem_entries hq, fun q _ _ away => ?_, fun q _ other active => ?_,
    m.of_states h.ring (fun q => (states q).imp id fun moved => ⟨moved.1, moved.2.1, moved.2.2.1⟩)
      (h.family m.family) records (m.ids.congr h.semArray h.freedPositions)⟩, fun c => ?_⟩
  · by_cases e : q = p
    · subst e
      rw [h.root] at w
      simp [Waiting] at w
    · rcases h.changes q e with same | ⟨-, s, -⟩
      · rwa [← same]
      · exact s.waiting
  · by_cases e : q = p
    · exact Or.inr (Or.inr (e ▸ h.root))
    · -- Nobody is woken but from the table of a process that exits.
      refine Or.inl ((h.changes q e).resolve_right fun moved => ?_)
      obtain ⟨⟨r, mem, alive, -⟩, -⟩ := moved
      obtain ⟨s, table, -⟩ := away (.table r) (mem_table.mpr ⟨alive, mem⟩)
      cases table
  · have e : q ≠ p := fun e => other (by rw [e])
    rw [(h.changes q e).resolve_right fun moved => active.1 moved.2.1.waiting]
    exact active.2
  · exact h.complete fun q _ w => c q not_false w

/-- With strict records, no record refers to a PCB that was freed. -/
theorem Mid.recorded_allocated (m : Mid True k) {slot : Slot} {q : Nat} (hq : q ∈ k.entries slot) :
    k.allocated q = true := by
  refine m.allocated fun dead => ?_
  rcases m.records.waits slot q hq with w | ⟨weak, -⟩
  · rw [dead] at w
    simp [Waiting] at w
  · exact weak trivial

/-- With strict records, a killed process can be finished off. -/
theorem Mid.exit_returns (m : Mid True k) (p : Nat) (exitCode : Int)
    (awake : Awake (k.stateOf k.currentPCB)) {bound fuel : Nat}
    (below : ∀ q, k.allocated q = true → q < bound) (enough : bound < fuel)
    (alive : k.allocated p = true) : ∃ out, exitProcessByPCB fuel p exitCode k = .ok out := by
  refine exitProcessByPCB_total (Finset.range bound) (m.bystanders awake)
    (fun r ne q hq => m.recorded_allocated (mem_table.mpr ⟨ne, hq⟩ : q ∈ k.entries (.table r)))
    (fun q _ hq => ?_) alive ?_
  · exact Finset.mem_range.mpr (below q (m.allocated (by rw [hq]; simp)))
  · rwa [Finset.card_range]

end Exits

/-! ### Changes of one state -/

section Change

variable {strict : Prop} {k : Kernel} {p : Nat}

/-- The records after a change of state that does not make anybody exit. -/
theorem entries_of_states {k' : Kernel} (semArray : k'.semArray = k.semArray)
    (sleepNodes : k'.sleepNodes = k.sleepNodes) (first : k'.first = k.first)
    (unused : k'.unused = k.unused) (waiters : ∀ r, k'.waitersOf r = k.waitersOf r)
    (exited : ∀ r, k'.stateOf r = .exited ↔ k.stateOf r = .exited) : k'.entries = k.entries := by
  funext slot
  cases slot with
  | queue s => exact queueOf_congr (by rw [semArray])
  | sleep => exact sleepers_congr sleepNodes unused first
  | table r => simp only [entries_table, exited, waiters]

/-- A step that touches nothing the invariant looks at. -/
theorem quiet_edits (k' : Kernel) (m : Mid strict k) (ring : SameRing k k')
    (states : k'.stateOf = k.stateOf) (waiters : k'.waitersOf = k.waitersOf)
    (parents : ∀ q, (k'.pcbs q).parentProc = (k.pcbs q).parentProc)
    (foreground : k'.processInForeground = k.processInForeground)
    (semArray : k'.semArray = k.semArray) (freedPositions : k'.freedPositions = k.freedPositions)
    (sleepers : k'.sleepers = k.sleepers) (sleepList : ∃ cells, SleepList k' cells) :
    Edits strict (fun _ => False) k k' ∧ Calm k k' := by
  have entries : k'.entries = k.entries := by
    funext slot
    cases slot with
    | queue s => exact queueOf_congr (by rw [semArray])
    | sleep => exact sleepers
    | table r => rw [entries_table, entries_table, states, waiters]
  have records : Records strict k' := by
    refine m.records.shrink ring.unused (fun slot => by rw [entries])
      (fun slot q hq => ?_) sleepList
    rw [states]
    exact m.records.waits slot q (entries ▸ hq)
  refine ⟨⟨⟨ring, fun q => Or.inl (by rw [states]), fun q w => Or.inl (states ▸ w),
    fun s _ => by rw [semArray], fun q _ slot hq => entries ▸ hq, fun q _ _ _ =>
      Or.inl (by rw [states]),
    fun q _ _ active => states ▸ active.2,
    m.of_states ring (fun q => Or.inl (by rw [states]))
      (m.family_congr ring foreground parents) records
      (m.ids.congr semArray freedPositions)⟩, fun c q _ w => ?_⟩, fun q _ => by rw [states]⟩
  rw [entries]
  exact c q not_false (states ▸ w)

/-- A PCB whose state changes, and nothing else that is looked at. -/
theorem setPCB_edits {f : PCB → PCB} (m : Mid strict k) (alive : k.stateOf p ≠ .exited)
    (ne : p ≠ k.idlePCB) (pid : (f (k.pcbs p)).pid = (k.pcbs p).pid)
    (waiters : (f (k.pcbs p)).waitingForMe = (k.pcbs p).waitingForMe)
    (parent : (f (k.pcbs p)).parentProc = (k.pcbs p).parentProc)
    (move : ¬ Waiting (k.stateOf p) ∧ ((f (k.pcbs p)).state = .ready ∨
        (f (k.pcbs p)).state = .blockedByUser) ∨
      k.stateOf p = .blocked ∧ (f (k.pcbs p)).state = .waitingForExit) :
    Edits strict (fun _ => False) k (k.setPCB p f) := by
  have ring : SameRing k (k.setPCB p f) := setPCB_sameRing pid
  have state : ∀ q, (k.setPCB p f).stateOf q = if q = p then (f (k.pcbs p)).state
      else k.stateOf q :=
    fun q => by
      rw [stateOf, setPCB_pcbs]
      split_ifs <;> rfl
  have waiting : ∀ q, Waiting ((k.setPCB p f).stateOf q) ↔ Waiting (k.stateOf q) := fun q => by
    rw [state]
    split_ifs with e
    · subst e
      rcases move with ⟨active, s | s⟩ | ⟨b, s⟩ <;> rw [s]
      · simpa [Waiting] using active
      · simpa [Waiting] using active
      · simp [Waiting, b]
    · rfl
  have exited : ∀ q, (k.setPCB p f).stateOf q = .exited ↔ k.stateOf q = .exited := fun q => by
    rw [state]
    split_ifs with e
    · subst e
      rcases move with ⟨-, s | s⟩ | ⟨-, s⟩ <;> simp [s, alive]
    · rfl
  have entries : (k.setPCB p f).entries = k.entries := by
    refine entries_of_states rfl rfl rfl rfl (fun r => ?_) exited
    rw [waitersOf, setPCB_pcbs, waitersOf]
    split_ifs with e
    · rw [waiters, e]
    · rfl
  have records : Records strict (k.setPCB p f) := by
    refine m.records.shrink (Nat.le_refl _) (fun slot => by rw [entries]) (fun slot q hq => ?_) ?_
    · rw [waiting, exited]
      exact m.records.waits slot q (entries ▸ hq)
    · obtain ⟨cells, l⟩ := m.records.sleepList
      exact ⟨cells, l.congr rfl (Nat.le_refl _) rfl⟩
  have quiet : (f (k.pcbs p)).state ≠ .running := by
    rcases move with ⟨-, s | s⟩ | ⟨-, s⟩ <;> simp [s]
  have states : ∀ q, (k.setPCB p f).stateOf q = k.stateOf q ∨ k.allocated q = true ∧
      q ≠ k.idlePCB ∧ (k.setPCB p f).stateOf q ≠ .running ∧ k.stateOf q ≠ .exited ∧
        (k.stateOf q = .waitingForExit → (k.setPCB p f).stateOf q = .exited) := fun q => by
    rw [state]
    split_ifs with e
    · subst e
      refine Or.inr ⟨m.allocated alive, ne, quiet, alive, fun w => ?_⟩
      rcases move with ⟨active, -⟩ | ⟨b, -⟩
      · exact absurd (Or.inr w) active
      · rw [w] at b
        cases b
    · exact Or.inl rfl
  refine ⟨⟨ring, states, fun q w => Or.inl ((waiting q).mp w), fun _ _ => rfl,
    fun q _ slot hq => entries ▸ hq, fun q _ w _ => ?_,
      fun q _ _ active => mt (exited q).mp active.2,
    m.of_states ring (fun q => (states q).imp id fun moved =>
      ⟨moved.1, moved.2.1, moved.2.2.1⟩) ?_ records (m.ids.congr rfl rfl)⟩, fun c q _ w => ?_⟩
  · rw [state]
    split_ifs with e
    · subst e
      rcases move with ⟨active, -⟩ | ⟨b, s⟩
      · exact absurd w active
      · exact Or.inr (Or.inl ⟨b, s⟩)
    · exact Or.inl rfl
  · refine m.family_congr ring rfl fun q => ?_
    rw [setPCB_pcbs]
    split_ifs with e
    · rw [parent, e]
    · rfl
  · rw [entries]
    exact c q not_false ((waiting q).mp w)

/-- A process that is not waiting becomes READY or BLOCKED_BY_USER. -/
theorem setState_edits {s : State} (m : Mid strict k) (active : ¬ Waiting (k.stateOf p))
    (alive : k.stateOf p ≠ .exited) (ne : p ≠ k.idlePCB) (new : s = .ready ∨ s = .blockedByUser) :
    Edits strict (fun _ => False) k (k.setState p s) :=
  setPCB_edits m alive ne rfl rfl rfl (Or.inl ⟨active, new⟩)

/-- A BLOCKED process is killed. -/
theorem markWaitingForExit_edits (m : Mid strict k) (blocked : k.stateOf p = .blocked) :
    Edits strict (fun _ => False) k (k.markWaitingForExit p) :=
  setPCB_edits m (by rw [blocked]; simp) (m.waiting_ne_idle (Or.inl blocked)) rfl rfl rfl
    (Or.inr ⟨blocked, rfl⟩)

end Change

end SoTp.Process
