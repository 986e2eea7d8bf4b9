/-
How an operation changes control blocks: one block at a time, and each time for a reason
that the code checks. What is to hold of one process along a run of the kernel can be read
off these changes.

* `PCBChange` — the changes besides those of the scheduler, with their guards.
* `exitProcessByPCB_edited`, `incTicks_edited` — the pieces of an operation.
* `shape_of_exec` — an operation makes changes, and calls `schedule` at most once.
-/

import SoTp.Process.Rounds

namespace SoTp.Process

open SoTp.Lib Kernel

/-- The running process may be BLOCKED by the operation. -/
def Op.Blocks : Op → Prop
  | .waitPid _ | .sleep .. | .waitSemaphore .. => True
  | _ => False

/-- The operation is to end the process `p`. -/
def Kernel.Ends (k : Kernel) (op : Op) (p : Nat) : Prop := k.Touches op (.proc p) ∧ p ≠ k.idlePCB

/-- One change that an operation `op`, which begins in `k₀`, makes to the process `p`,
besides what the scheduler does to it. -/
inductive PCBChange (k₀ : Kernel) (op : Op) (p : Nat) (b : PCB) : PCB → Prop
  /-- A wait ends, for one of the reasons there are. -/
  | wakes (exitCode : Int) (blocked : b.state = .blocked) :
      PCBChange k₀ op p b { b with state := .ready, waitedProcessExitCode := exitCode }
  | kills (blocked : b.state = .blocked) (cause : k₀.Ends op p) :
      PCBChange k₀ op p b { b with state := .waitingForExit, heapFreed := true }
  | exits (cause : k₀.Ends op p ∨ b.state = .waitingForExit) :
      PCBChange k₀ op p b { b with state := .exited }
  | blocks (here : p = k₀.currentPCB) (user : p ≠ k₀.idlePCB) (named : op.Blocks) :
      PCBChange k₀ op p b { b with state := .blocked }
  | yields (here : p = k₀.currentPCB) (named : op = .yield) :
      PCBChange k₀ op p b { b with state := .ready }
  | records (waitingForMe : List Nat) (parentProc : Nat) :
      PCBChange k₀ op p b { b with waitingForMe, parentProc }
  | blocksByUser (named : op = .blockByUser b.pid) (user : p ≠ k₀.idlePCB) (awake : Awake b.state) :
      PCBChange k₀ op p b { b with state := .blockedByUser }
  | unblocks (named : op = .unblock b.pid) (blocked : b.state = .blockedByUser) :
      PCBChange k₀ op p b { b with state := .ready }
  | prioritises (newPriority : Nat) (named : op = .changePriority b.pid newPriority)
      (range : 1 ≤ newPriority ∧ newPriority ≤ 9) :
        PCBChange k₀ op p b { b with priority := newPriority }

/-- Changes of one process, one after the other, for every process. -/
def Changes (k₀ : Kernel) (op : Op) (f g : Nat → PCB) : Prop :=
  ∀ p, Relation.ReflTransGen (PCBChange k₀ op p) (f p) (g p)

/-- Changes during which the running process keeps the processor and the list is as it was. -/
structure Edited (k₀ : Kernel) (op : Op) (k k' : Kernel) : Prop where
  changes : Changes k₀ op k.pcbs k'.pcbs
  ring : SameRing k k'
  rsp : k'.rsp = k.rsp
  quantumsLeft : k'.quantumsLeft = k.quantumsLeft

/-- What an operation is made of, with the decisions that it records. -/
inductive Shape (k : Kernel) (op : Op) (log : List Event) : Kernel → Prop
  | edits {k' : Kernel} (edited : Edited k op k k') (quiet : decisions log = []) : Shape k op log k'
  | moves (rsp : Nat) (junk : Nat → Nat) (named : op = .userCode rsp junk)
      (quiet : decisions log = []) : Shape k op log { k with rsp := rsp, junk := junk }
  | switches {fuel : Nat} {j k' : Kernel} (before : Edited k op k j)
      (run : j.contextSwitch fuel = .ok k')
      (turn : decisions log = decisions (j.contextSwitchLog fuel)) : Shape k op log k'
  | ticks {fuel : Nat} {m k' : Kernel} (named : op = .timerTick)
      (run : k.contextSwitch fuel = .ok m)
      (after : Edited k op m k') (turn : decisions log = decisions (k.contextSwitchLog fuel)) :
      Shape k op log k'
  | creates (mem : ProcessMemory) (rsp : Nat) (garbage : Int)
      (named : op = .createProcess mem rsp garbage)
      (bound : k.pid < IDLE_PID) (quiet : decisions log = []) : Shape k op log (added k rsp garbage)
  | fails (bound : k.pid < IDLE_PID) (quiet : decisions log = []) :
      Shape k op log { k with pid := k.pid + 1 }

section Pieces

variable {k₀ k j k' : Kernel} {op : Op} {fuel p : Nat}

theorem Changes.refl (f : Nat → PCB) : Changes k₀ op f f := fun _ => .refl

theorem Changes.one {f : Nat → PCB} {b : PCB} (change : PCBChange k₀ op p (f p) b) :
    Changes k₀ op f (Function.update f p b) := by
  intro q
  rw [Function.update_apply]
  split_ifs with e
  · rw [e]
    exact .single change
  · exact .refl

theorem Changes.trans {f g h : Nat → PCB} (first : Changes k₀ op f g) (rest : Changes k₀ op g h) :
    Changes k₀ op f h := fun q => (first q).trans (rest q)

theorem Edited.refl (k : Kernel) : Edited k₀ op k k := ⟨.refl _, SameRing.refl k, rfl, rfl⟩

theorem Edited.trans (first : Edited k₀ op k j) (rest : Edited k₀ op j k') : Edited k₀ op k k' :=
  ⟨first.changes.trans rest.changes, first.ring.trans rest.ring, rest.rsp.trans first.rsp,
    rest.quantumsLeft.trans first.quantumsLeft⟩

theorem Edited.one {f : PCB → PCB} (change : PCBChange k₀ op p (k.pcbs p) (f (k.pcbs p)))
    (pid : (f (k.pcbs p)).pid = (k.pcbs p).pid) : Edited k₀ op k (k.setPCB p f) :=
  ⟨.one change, setPCB_sameRing pid, rfl, rfl⟩

/-- The rest of the kernel is of no concern here. -/
theorem Edited.aside {unused fg first ticks : Nat} {sems : List Semaphore} {freed : List Nat}
    {sleepNodes : Nat → SleptProcess} (more : k.unused ≤ unused) :
    Edited k₀ op k { k with
      unused := unused, processInForeground := fg, semArray := sems, freedPositions := freed
      sleepNodes := sleepNodes, first := first, ticks := ticks } :=
  ⟨.refl _, ⟨rfl, rfl, rfl, rfl, rfl, more, fun _ => rfl⟩, rfl, rfl⟩

/-! ### Exits -/

theorem markExited_edited (cause : k₀.Ends op p ∨ k.stateOf p = .waitingForExit) :
    Edited k₀ op k (k.markExited p) := by
  have exited : Edited k₀ op k (k.setState p .exited) := .one (.exits cause) rfl
  refine exited.trans ?_
  unfold markExited
  simp only []
  split_ifs <;> exact .aside (Nat.le_refl _)

theorem exitWaiters_edited {exitPCB : Nat → Kernel → Exec Outcome} {exitCode : Int}
    (nested : ∀ q k out, k.stateOf q = .waitingForExit → exitPCB q k = .ok out →
      Edited k₀ op k out.kernel)
    {ws : List Nat} {out : Outcome} (run : exitWaiters exitPCB exitCode ws k = .ok out) :
    Edited k₀ op k out.kernel := by
  induction ws generalizing k with
  | nil =>
      cases run
      exact .refl k
  | cons q ws ih =>
      unfold exitWaiters at run
      split_ifs at run
      generalize state : k.stateOf q = s at run
      cases s with
      | blocked =>
          have woken : Edited k₀ op k
              (k.setPCB q fun p => { p with state := .ready, waitedProcessExitCode := exitCode }) :=
            .one (.wakes exitCode state) rfl
          exact woken.trans (ih run)
      | waitingForExit =>
          obtain ⟨mid, exited, rest⟩ := bind_ok_iff.mp run
          refine (nested q k mid state exited).trans ?_
          split_ifs at rest
          · cases rest
            exact .refl _
          · exact ih rest
      | _ => exact ih run

/-- An exit that somebody asks for, or of a process that was killed before. -/
theorem exitProcessByPCB_edited {exitCode : Int} {out : Outcome}
    (cause : k₀.Ends op p ∨ k.stateOf p = .waitingForExit)
    (run : exitProcessByPCB fuel p exitCode k = .ok out) : Edited k₀ op k out.kernel := by
  induction fuel generalizing k p exitCode out with
  | zero => cases run
  | succ fuel ih =>
      have nested : ∀ q k out, k.stateOf q = .waitingForExit →
          exitProcessByPCB fuel q KILL_EXIT_CODE k = .ok out →
          Edited k₀ op k out.kernel := fun q k out killed run => ih (Or.inr killed) run
      unfold exitProcessByPCB at run
      split_ifs at run
      split at run
      · cases run
        exact .refl k
      · rename_i blocked
        cases run
        have named : k₀.Ends op p := by
          refine cause.resolve_right ?_
          intro killed
          rw [blocked] at killed
          cases killed
        exact Edited.one (f := fun p => { p with state := .waitingForExit, heapFreed := true })
          (.kills blocked named) rfl
      · obtain ⟨mid, waiters, rest⟩ := bind_ok_iff.mp run
        have marked := (markExited_edited cause).trans (exitWaiters_edited nested waiters)
        split_ifs at rest <;> cases rest <;> exact marked

/-! ### Queues and the sleep list -/

theorem fifoUnqueue_edited {semId : Nat} (taken : k.fifoUnqueue semId = some (p, j)) :
    Edited k₀ op k j := by
  unfold fifoUnqueue at taken
  split at taken
  · cases taken
  · split at taken
    · cases taken
    · cases taken
      exact .aside (Nat.le_refl _)

theorem wake_edited (blocked : k.stateOf p = .blocked) : Edited k₀ op k (k.setState p .ready) :=
  .one (.wakes (k.pcbs p).waitedProcessExitCode blocked) rfl

/-- A process that was killed leaves the queue by its exit, and another one because it is woken. -/
theorem unqueued_quiet {semId toReady : Nat} (taken : k.fifoUnqueue semId = some (toReady, j))
    (exits : j.stateOf toReady = .waitingForExit →
      ∃ out, exitProcessByPCB fuel toReady KILL_EXIT_CODE j = .ok out) :
    decisions (k.unqueueRoundLog fuel semId) = [] := by
  unfold unqueueRoundLog
  rw [taken]
  simp only []
  split_ifs with killed
  · obtain ⟨out, exited⟩ := exits killed
    exact exit_decisions exited
  · rfl

/-- The kernel that a round hands on. -/
def passed : Pass Kernel Outcome → Kernel
  | .again j => j
  | .leave out => out.kernel

theorem postRound_edited {semId : Nat} {pass : Pass Kernel Outcome}
    (round : postRound fuel semId k = .ok pass) :
    Edited k₀ op k (passed pass) ∧ decisions (k.unqueueRoundLog fuel semId) = [] := by
  unfold postRound at round
  split at round
  · rename_i empty
    cases round
    refine ⟨.aside (Nat.le_refl _), ?_⟩
    rw [unqueueRoundLog, empty]
    rfl
  · rename_i toReady k₁ taken
    split_ifs at round
    generalize state : k₁.stateOf toReady = s at round
    have awake : s ≠ .waitingForExit → decisions (k.unqueueRoundLog fuel semId) = [] := fun ne =>
      unqueued_quiet taken fun killed => absurd (state.symm.trans killed) ne
    cases s with
    | blocked =>
        cases round
        exact ⟨(fifoUnqueue_edited taken).trans (wake_edited state), awake (by simp)⟩
    | waitingForExit =>
        obtain ⟨out, exited, rest⟩ := bind_ok_iff.mp round
        have edited : Edited k₀ op _ out.kernel := exitProcessByPCB_edited (Or.inr state) exited
        refine ⟨(fifoUnqueue_edited taken).trans ?_, unqueued_quiet taken fun _ => ⟨out, exited⟩⟩
        split_ifs at rest <;> cases rest <;> exact edited
    | _ =>
        cases round
        exact ⟨fifoUnqueue_edited taken, awake (by simp)⟩

theorem destroyRound_edited {semId : Nat} {pass : Pass Kernel Outcome}
    (round : destroyRound fuel semId k = .ok pass) :
    Edited k₀ op k (passed pass) ∧ decisions (k.unqueueRoundLog fuel semId) = [] := by
  unfold destroyRound at round
  split at round
  · rename_i empty
    cases round
    refine ⟨.refl k, ?_⟩
    rw [unqueueRoundLog, empty]
    rfl
  · rename_i toReady k₁ taken
    split_ifs at round
    generalize state : k₁.stateOf toReady = s at round
    have awake : s ≠ .waitingForExit → decisions (k.unqueueRoundLog fuel semId) = [] := fun ne =>
      unqueued_quiet taken fun killed => absurd (state.symm.trans killed) ne
    cases s with
    | blocked =>
        cases round
        exact ⟨(fifoUnqueue_edited taken).trans (wake_edited state), awake (by simp)⟩
    | waitingForExit =>
        obtain ⟨out, exited, rest⟩ := bind_ok_iff.mp round
        have edited : Edited k₀ op _ out.kernel := exitProcessByPCB_edited (Or.inr state) exited
        refine ⟨(fifoUnqueue_edited taken).trans ?_, unqueued_quiet taken fun _ => ⟨out, exited⟩⟩
        split_ifs at rest <;> cases rest <;> exact edited
    | _ =>
        cases round
        exact ⟨fifoUnqueue_edited taken, awake (by simp)⟩

theorem queue_loop_edited {round : Kernel → Exec (Pass Kernel Outcome)} {log : Kernel → List Event}
    {out : Outcome} (each : ∀ {j : Kernel} {pass : Pass Kernel Outcome}, round j = .ok pass →
      Edited k₀ op j (passed pass) ∧ decisions (log j) = [])
    (run : loop round fuel k = .ok out) :
    Edited k₀ op k out.kernel ∧ decisions (loopLog round log fuel k) = [] := by
  refine loop_log log (fun j done => Edited k₀ op k j ∧ decisions done = [])
    (fun out done => Edited k₀ op k out.kernel ∧ decisions done = []) ?_ ?_
      ⟨.refl k, List.filter_nil⟩ run
  · intro j j' done so_far again
    obtain ⟨edited, quiet⟩ := each again
    refine ⟨so_far.1.trans edited, ?_⟩
    rw [decisions_append, so_far.2, quiet, List.append_nil]
  · intro j out done so_far leave
    obtain ⟨edited, quiet⟩ := each leave
    refine ⟨so_far.1.trans edited, ?_⟩
    rw [decisions_append, so_far.2, quiet, List.append_nil]

theorem removeFromSleepList_edited (k : Kernel) (prev current : Nat) :
    Edited k₀ op k (k.removeFromSleepList prev current).1 := by
  unfold removeFromSleepList
  split_ifs <;> exact .aside (Nat.le_refl _)

def passedTick : Pass (Kernel × Nat × Nat) Outcome → Kernel
  | .again s => s.1
  | .leave out => out.kernel

theorem incTicksRound_edited {prev current : Nat} {pass : Pass (Kernel × Nat × Nat) Outcome}
    (round : incTicksRound fuel (k, prev, current) = .ok pass) :
    Edited k₀ op k (passedTick pass) ∧
      decisions (incTicksRoundLog fuel (k, prev, current)) = [] := by
  unfold incTicksRound at round
  simp only [] at round
  by_cases done : current = NULL
  · rw [if_pos done] at round
    cases round
    refine ⟨.refl k, ?_⟩
    rw [incTicksRoundLog, if_pos done]
    rfl
  · rw [if_neg done] at round
    by_cases freed : k.allocated (k.sleepNodes current).pcb = false
    · rw [if_pos freed] at round
      cases round
    · rw [if_neg freed] at round
      generalize state : k.stateOf (k.sleepNodes current).pcb = s at round
      have spared : s ≠ .waitingForExit →
          decisions (incTicksRoundLog fuel (k, prev, current)) = [] := by
        intro ne
        rw [incTicksRoundLog_quiet fun killed => ne (state.symm.trans killed)]
        rfl
      cases s with
      | blocked =>
          refine ⟨?_, spared (by simp)⟩
          simp only [] at round
          split_ifs at round
          · cases round
            refine Edited.trans ?_ (removeFromSleepList_edited _ prev current)
            exact Edited.trans (.aside (Nat.le_refl _))
              (wake_edited (k := k.setSleepNode current _) state)
          · cases round
            exact .aside (Nat.le_refl _)
      | waitingForExit =>
          obtain ⟨mid, exited, rest⟩ := bind_ok_iff.mp round
          have edited : Edited k₀ op k mid.kernel := exitProcessByPCB_edited (Or.inr state) exited
          constructor
          · split_ifs at rest
            · cases rest
              exact edited
            · cases rest
              exact edited.trans (removeFromSleepList_edited _ prev current)
          · rw [incTicksRoundLog, if_neg done]
            exact (congrArg decisions (if_pos state)).trans (exit_decisions exited)
      | _ =>
          cases round
          exact ⟨.refl k, spared (by simp)⟩

theorem incTicks_edited {out : Outcome} (run : k.incTicks fuel = .ok out) :
    Edited k₀ op k out.kernel ∧ decisions (k.incTicksLog fuel) = [] := by
  refine loop_log (incTicksRoundLog fuel) (fun s done => Edited k₀ op k s.1 ∧ decisions done = [])
    (fun out done => Edited k₀ op k out.kernel ∧ decisions done = []) ?_ ?_
    ⟨.aside (Nat.le_refl _), List.filter_nil⟩ run
  · rintro ⟨j, prev, current⟩ s done so_far round
    obtain ⟨edited, quiet⟩ := incTicksRound_edited round
    refine ⟨so_far.1.trans edited, ?_⟩
    rw [decisions_append, so_far.2, quiet, List.append_nil]
  · rintro ⟨j, prev, current⟩ out done so_far round
    obtain ⟨edited, quiet⟩ := incTicksRound_edited round
    refine ⟨so_far.1.trans edited, ?_⟩
    rw [decisions_append, so_far.2, quiet, List.append_nil]

end Pieces

/-! ### Processes that cannot run -/

section Kept

variable {k j k' : Kernel} {op : Op} {p : Nat} {f g : Nat → PCB}

/-- What every change keeps, all of them keep. -/
theorem Changes.kept {k₀ : Kernel} {P : PCB → Prop} (changes : Changes k₀ op f g) (start : P (f p))
    (step : ∀ b c, P b → PCBChange k₀ op p b c → P c) : P (g p) := by
  have path := changes p
  generalize g p = b at path
  induction path with
  | refl => exact start
  | tail before change ih => exact step _ _ ih change

/-- The scheduler alone makes a process RUNNING. -/
theorem Changes.not_running {k₀ : Kernel} (changes : Changes k₀ op f g)
    (other : (f p).state ≠ .running) : (g p).state ≠ .running := by
  refine changes.kept (P := fun b => b.state ≠ .running) other ?_
  intro b c other change
  cases change <;> first | exact other | exact State.noConfusion

/-- An EXITED process stays EXITED. -/
theorem Changes.exited {k₀ : Kernel} (changes : Changes k₀ op f g) (other : p ≠ k₀.currentPCB)
    (exited : (f p).state = .exited) : (g p).state = .exited := by
  refine changes.kept (P := fun b => b.state = .exited) exited ?_
  intro b c dead change
  cases change with
  | wakes _ wait => exact absurd (dead.symm.trans wait) (by decide)
  | kills wait => exact absurd (dead.symm.trans wait) (by decide)
  | exits => rfl
  | blocks here => exact absurd here other
  | yields here => exact absurd here other
  | records => exact dead
  | blocksByUser _ _ awake => exact absurd dead (by rcases awake with e | e <;> rw [e] <;> decide)
  | unblocks _ wait => exact absurd (dead.symm.trans wait) (by decide)
  | prioritises => exact dead

/-- Nothing stops the idle process. -/
theorem Changes.idle {k₀ : Kernel} (changes : Changes k₀ op f g)
    (ready : (f k₀.idlePCB).state = .ready) : (g k₀.idlePCB).state = .ready := by
  refine changes.kept (P := fun b => b.state = .ready) ready ?_
  intro b c ready change
  cases change with
  | wakes => rfl
  | kills wait => exact absurd (ready.symm.trans wait) (by decide)
  | exits cause =>
      rcases cause with named | killed
      · exact absurd rfl named.2
      · exact absurd (ready.symm.trans killed) (by decide)
  | blocks _ user => exact absurd rfl user
  | yields => rfl
  | records => exact ready
  | blocksByUser _ user => exact absurd rfl user
  | unblocks => rfl
  | prioritises => exact ready

/-- After any edits the scheduler can be called. -/
theorem Edited.schedulable (edited : Edited k op k j) (i : Inv False k) : Schedulable j where
  idle := by
    rw [edited.ring.idlePCB]
    exact edited.changes.idle i.sched.idle
  freed p gone := by
    have dead := i.sched.freed p (edited.ring.allocated ▸ gone)
    exact edited.changes.exited (fun here => i.current.active.2 (here ▸ dead)) dead
  running p running := by
    rw [edited.ring.currentPCB]
    by_contra other
    exact edited.changes.not_running (fun e => other (i.sched.running p e)) running

theorem Edited.switched {fuel : Nat} (edited : Edited k op k j) (i : Inv False k)
    (run : j.contextSwitch fuel = .ok k') : Switched j k' :=
  contextSwitch_of_ok (i.ring.congr edited.ring) (edited.schedulable i) run

end Kept

/-! ### Operations -/

section Operations

variable {k k' : Kernel} {fuel : Nat} {op : Op}

theorem recordWaiter_edited {k₀ : Kernel} {p w : Nat} (run : k.recordWaiter p w = .ok k') :
    Edited k₀ op k k' := by
  unfold recordWaiter at run
  simp only [] at run
  split_ifs at run
  · cases run
    exact .one (.records ((k.pcbs p).waitingForMe ++ [w]) (k.pcbs p).parentProc) rfl
  · cases run
    exact .one (.records ((k.pcbs p).waitingForMe ++ [w]) w) rfl

/-- The running process is blocked. -/
theorem Edited.blocks {k₀ : Kernel} (edited : Edited k₀ op k₀ k) (user : k₀.currentPCB ≠ k₀.idlePCB)
    (named : op.Blocks) : Edited k₀ op k₀ (k.setState k.currentPCB .blocked) := by
  refine edited.trans ?_
  rw [edited.ring.currentPCB]
  exact .one (.blocks rfl user named) rfl

/-- An operation that does nothing. -/
theorem Shape.nothing (k : Kernel) : Shape k op [] k := .edits (.refl k) rfl

theorem Shape.switched {j : Kernel} (before : Edited k op k j)
    (run : j.contextSwitch fuel = .ok k') :
    Shape k op (j.contextSwitchLog fuel) k' := .switches before run rfl

/-- The events of an edit come before those of the switch. -/
theorem Shape.edited_switched {j : Kernel} {log : List Event} (before : Edited k op k j)
    (quiet : decisions log = [])
    (run : j.contextSwitch fuel = .ok k') : Shape k op (log ++ j.contextSwitchLog fuel) k' := by
  refine .switches before run ?_
  rw [decisions_append, quiet, List.nil_append]

theorem Shape.finished {out : Outcome} {log : List Event} (before : Edited k op k out.kernel)
    (quiet : decisions log = []) (run : finish fuel out = .ok k') :
      Shape k op (log ++ finishLog fuel out) k' := by
  unfold finish at run
  unfold finishLog
  split_ifs at run ⊢
  · exact .edited_switched before quiet run
  · cases run
    rw [List.append_nil]
    exact .edits before quiet

theorem exit_shape {exitCode : Int} (user : k.currentPCB ≠ k.idlePCB)
    (run : k.exitCurrentProcess fuel exitCode = .ok k') :
    Shape k (.exit exitCode) (k.exitCurrentProcessLog fuel exitCode) k' := by
  obtain ⟨out, exited, switch⟩ := bind_ok_iff.mp run
  have named : k.Ends (.exit exitCode) k.currentPCB := ⟨rfl, user⟩
  rw [exitCurrentProcessLog, exited, after_ok]
  exact .edited_switched (exitProcessByPCB_edited (Or.inl named) exited)
    (exit_decisions exited) switch

theorem kill_shape {pid : Nat} {r : Kernel × Bool} (i : Inv False k)
    (run : k.kill fuel pid = .ok r) : Shape k (.kill pid) (k.killLog fuel pid) r.1 := by
  unfold kill at run
  unfold killLog
  split_ifs at run ⊢ with init
  · cases run
    exact .nothing k
  · obtain ⟨pcb, search, run⟩ := bind_ok_iff.mp run
    rw [search, after_ok]
    split_ifs at run ⊢ with dead
    · cases run
      exact .nothing k
    · obtain ⟨out, exited, run⟩ := bind_ok_iff.mp run
      obtain ⟨k₁, finished, run⟩ := bind_ok_iff.mp run
      cases run
      obtain ⟨-, user, found⟩ := getPCBByPid_found i.toMid search fun null => dead (Or.inl null)
      have named : k.Ends (.kill pid) pcb := ⟨⟨init, found⟩, user⟩
      rw [exited, after_ok]
      exact .finished (exitProcessByPCB_edited (Or.inl named) exited)
        (exit_decisions exited) finished

theorem waitPid_shape {pid : Nat} (user : k.currentPCB ≠ k.idlePCB)
    (run : k.waitPid fuel pid = .ok k') :
    Shape k (.waitPid pid) (k.waitPidLog fuel pid) k' := by
  unfold waitPid at run
  unfold waitPidLog
  split_ifs at run ⊢
  · cases run
    exact .nothing k
  · obtain ⟨pcb, search, run⟩ := bind_ok_iff.mp run
    rw [search, after_ok]
    split_ifs at run ⊢
    · cases run
      exact .nothing k
    · obtain ⟨k₁, recorded, run⟩ := bind_ok_iff.mp run
      rw [recorded, after_ok]
      have recorded' : Edited k (.waitPid pid) k k₁ := recordWaiter_edited recorded
      have blocked := recorded'.blocks user trivial
      refine .switched (blocked.trans ?_) run
      split_ifs <;> exact .aside (Nat.le_refl _)

theorem sleep_shape {initialTicks : Nat} {node : Bool} (user : k.currentPCB ≠ k.idlePCB)
    (run : k.sleep fuel initialTicks node = .ok k') :
    Shape k (.sleep initialTicks node) (k.sleepLog fuel initialTicks node) k' := by
  unfold Kernel.sleep at run
  unfold sleepLog
  split_ifs at run ⊢
  · refine .switched (Edited.blocks ?_ user trivial) run
    exact .aside (Nat.le_succ _)
  · cases run
    exact .nothing k

theorem waitSemaphore_shape {semId : Nat} {node : Bool} {r : Kernel × Bool}
    (user : k.currentPCB ≠ k.idlePCB)
    (run : k.waitSemaphore fuel semId node = .ok r) :
    Shape k (.waitSemaphore semId node) (k.waitSemaphoreLog fuel semId node) r.1 := by
  unfold waitSemaphore at run
  unfold waitSemaphoreLog
  rcases Option.eq_none_or_eq_some (k.semArray[semId]?) with none | ⟨sem, found⟩
  · simp only [none] at run ⊢
    cases run
    exact .nothing k
  · simp only [found] at run ⊢
    split_ifs at run ⊢
    · cases run
      exact .nothing k
    · cases run
      exact .edits (.aside (Nat.le_refl _)) rfl
    · obtain ⟨k₁, switch, run⟩ := bind_ok_iff.mp run
      cases run
      refine .switched (Edited.blocks ?_ user trivial) switch
      unfold fifoQueue
      split_ifs <;> exact .aside (Nat.le_refl _)

theorem postSemaphore_shape {semId : Nat} {r : Kernel × Bool}
    (run : k.postSemaphore fuel semId = .ok r) :
    Shape k (.postSemaphore semId) (k.postSemaphoreLog fuel semId) r.1 := by
  unfold postSemaphore at run
  unfold postSemaphoreLog
  rcases Option.eq_none_or_eq_some (k.semArray[semId]?) with none | ⟨sem, found⟩
  · simp only [none] at run ⊢
    cases run
    exact .nothing k
  · simp only [found] at run ⊢
    split_ifs at run ⊢
    · cases run
      exact .nothing k
    · obtain ⟨out, posted, run⟩ := bind_ok_iff.mp run
      obtain ⟨k₁, finished, run⟩ := bind_ok_iff.mp run
      cases run
      obtain ⟨edited, quiet⟩ := queue_loop_edited postRound_edited posted
      rw [posted, after_ok]
      exact .finished edited quiet finished

theorem destroySemaphore_shape {semId : Nat} {r : Kernel × Bool}
    (run : k.destroySemaphore fuel semId = .ok r) :
    Shape k (.destroySemaphore semId) (k.destroySemaphoreLog fuel semId) r.1 := by
  unfold destroySemaphore at run
  unfold destroySemaphoreLog
  rcases Option.eq_none_or_eq_some (k.semArray[semId]?) with none | ⟨sem, found⟩
  · simp only [none] at run ⊢
    cases run
    exact .nothing k
  · simp only [found] at run ⊢
    split_ifs at run ⊢
    · cases run
      exact .nothing k
    · obtain ⟨out, emptied, run⟩ := bind_ok_iff.mp run
      obtain ⟨edited, quiet⟩ := queue_loop_edited destroyRound_edited emptied
      rw [emptied, after_ok]
      unfold finishLog
      split_ifs at run ⊢
      · obtain ⟨k₁, switch, run⟩ := bind_ok_iff.mp run
        cases run
        exact .edited_switched edited quiet switch
      · cases run
        rw [List.append_nil]
        exact .edits (edited.trans (.aside (Nat.le_refl _))) quiet

theorem blockByUser_shape {pid : Nat} {r : Kernel × Bool} (i : Inv False k)
    (run : k.blockByUser fuel pid = .ok r) :
    Shape k (.blockByUser pid) (k.blockByUserLog fuel pid) r.1 := by
  obtain ⟨pcb, search, run⟩ := bind_ok_iff.mp run
  rw [blockByUserLog, search, after_ok]
  split_ifs at run ⊢ with can
  · obtain ⟨k₁, finished, run⟩ := bind_ok_iff.mp run
    cases run
    obtain ⟨-, user, found⟩ := getPCBByPid_found i.toMid search can.1
    have named : Op.blockByUser pid = .blockByUser (k.pidOf pcb) := by rw [found]
    have blocked : Edited k (.blockByUser pid) k (k.setState pcb .blockedByUser) :=
      .one (.blocksByUser named user can.2) rfl
    have quiet : decisions [] = [] := List.filter_nil
    exact .finished blocked quiet finished
  · cases run
    exact .nothing k

theorem unblock_shape {pid : Nat} {r : Kernel × Bool} (i : Inv False k)
    (run : k.unblock fuel pid = .ok r) : Shape k (.unblock pid) [] r.1 := by
  obtain ⟨pcb, search, run⟩ := bind_ok_iff.mp run
  split_ifs at run with can
  · cases run
    have named : Op.unblock pid = .unblock (k.pidOf pcb) := by
      rw [(getPCBByPid_found i.toMid search can.1).2.2]
    have unblocked : Edited k (.unblock pid) k (k.setState pcb .ready) :=
      .one (.unblocks named can.2) rfl
    exact .edits unblocked rfl
  · cases run
    exact .nothing k

theorem changePriority_shape {pid newPriority : Nat} {r : Kernel × Bool} (i : Inv False k)
    (run : k.changePriority fuel pid newPriority = .ok r) :
    Shape k (.changePriority pid newPriority) [] r.1 := by
  unfold changePriority at run
  split_ifs at run with bad
  · cases run
    exact .nothing k
  · obtain ⟨pcb, search, run⟩ := bind_ok_iff.mp run
    split_ifs at run
    · cases run
      exact .nothing k
    · rename_i some
      cases run
      push Not at bad
      have named : Op.changePriority pid newPriority =
          .changePriority (k.pidOf pcb) newPriority := by
        rw [(getPCBByPid_found i.toMid search some).2.2]
      have changed : Edited k (.changePriority pid newPriority) k
          (k.setPCB pcb fun p => { p with priority := newPriority }) :=
        .one (.prioritises newPriority named ⟨Nat.pos_of_ne_zero bad.1, bad.2⟩) rfl
      exact .edits changed rfl

theorem timerTick_shape (i : Inv False k) (run : k.timerTick fuel = .ok k') :
    Shape k .timerTick (k.timerTickLog fuel) k' := by
  obtain ⟨j, switch, run⟩ := bind_ok_iff.mp run
  obtain ⟨out, ticked, finished⟩ := bind_ok_iff.mp run
  -- The invariant says that nothing is left to do after `incTicks`.
  have switched := i.toMid.switched (contextSwitch_of_ok i.ring i.sched switch)
  have left := (incTicks_spec switched ticked).1
  obtain ⟨edited, quiet⟩ : Edited k .timerTick _ out.kernel ∧ _ := incTicks_edited ticked
  rw [finish, left] at finished
  cases finished
  rw [timerTickLog, switch, after_ok, ticked, after_ok, finishLog, left]
  refine .ticks rfl switch edited ?_
  rw [decisions_append, decisions_append, quiet]
  exact List.append_nil _

theorem ctrlC_shape (i : Inv False k) (run : k.killCurrentProcessInForeground fuel = .ok k') :
    Shape k .ctrlC (k.killCurrentProcessInForegroundLog fuel) k' := by
  unfold killCurrentProcessInForeground at run
  unfold killCurrentProcessInForegroundLog
  split_ifs at run ⊢ with init
  · cases run
    exact .nothing k
  · obtain ⟨out, exited, switch⟩ := bind_ok_iff.mp run
    have named : k.Ends .ctrlC k.processInForeground := ⟨⟨init, rfl⟩, i.family.foreground⟩
    rw [exited, after_ok]
    exact .edited_switched (exitProcessByPCB_edited (Or.inl named) exited)
      (exit_decisions exited) switch

/-- An operation makes changes that it has a reason for, and calls `schedule` at most once. -/
theorem shape_of_exec {log : List Event} (i : Inv False k) (logged : Logged k op log k') :
    Shape k op log k' := by
  obtain ⟨enabled, fuel, run, rfl⟩ := logged
  cases op with
  | createProcess mem rsp garbage =>
      obtain ⟨r, ran, rfl⟩ := map_ok_iff.mp run
      have bound := enabled.2
      rcases createProcess_eq mem rsp garbage ran with e | e
      · rw [e]
        exact .creates mem rsp garbage rfl bound rfl
      · rw [e, Nat.mod_eq_of_lt (by unfold IDLE_PID at bound; omega)]
        exact .fails bound rfl
  | exit exitCode => exact exit_shape (i.current_ne_idle enabled) run
  | kill pid =>
      obtain ⟨r, ran, rfl⟩ := map_ok_iff.mp run
      exact kill_shape i ran
  | waitPid pid => exact waitPid_shape (i.current_ne_idle enabled) run
  | sleep initialTicks node => exact sleep_shape (i.current_ne_idle enabled) run
  | semInit initialValue =>
      cases run
      refine .edits ?_ rfl
      unfold semInit
      split <;> exact .aside (Nat.le_refl _)
  | waitSemaphore semId node =>
      obtain ⟨r, ran, rfl⟩ := map_ok_iff.mp run
      exact waitSemaphore_shape (i.current_ne_idle enabled) ran
  | postSemaphore semId =>
      obtain ⟨r, ran, rfl⟩ := map_ok_iff.mp run
      exact postSemaphore_shape ran
  | destroySemaphore semId =>
      obtain ⟨r, ran, rfl⟩ := map_ok_iff.mp run
      exact destroySemaphore_shape ran
  | blockByUser pid =>
      obtain ⟨r, ran, rfl⟩ := map_ok_iff.mp run
      exact blockByUser_shape i ran
  | unblock pid =>
      obtain ⟨r, ran, rfl⟩ := map_ok_iff.mp run
      exact unblock_shape i ran
  | changePriority pid newPriority =>
      obtain ⟨r, ran, rfl⟩ := map_ok_iff.mp run
      exact changePriority_shape i ran
  | yield => exact .switched (.one (.yields rfl rfl) rfl) run
  | timerTick => exact timerTick_shape i run
  | reschedule => exact .switched (.refl k) run
  | ctrlC => exact ctrlC_shape i run
  | userCode rsp junk =>
      cases run
      exact .moves rsp junk rfl rfl

end Operations

end SoTp.Process
