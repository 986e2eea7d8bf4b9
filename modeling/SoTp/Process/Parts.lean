/-
An operation is made of parts. It may open with what is its own: it creates a
process, blocks the running one or makes a process exit. The rest is the same for
all operations: calls of `schedule`, exits of processes that were killed before, and
changes of state that concern neither the process list nor the tables of waiters.

* `exit_log_induct` — an exit, with its events, through all that depends on it.
* `parts_of_exec` — every operation is made of parts, and so is its log.
* `Logged.stages`, `Reach.stages` — runs as runs of openings and parts.
-/

import SoTp.Process.Log
import SoTp.Process.Runs

namespace SoTp.Process

open SoTp.Lib Kernel

/-! ### Exits -/

section Exit

variable {R : Kernel → List Event → Kernel → Prop}

theorem exitWaiters_log_induct {exitPCB : Nat → Kernel → Exec Outcome}
    {exitLog : Nat → Kernel → List Event} {exitCode : Int} (refl : ∀ k, R k [] k)
    (trans : ∀ k l j l' k', R k l j → R j l' k' → R k (l ++ l') k')
    (wakes : ∀ k q (exitCode : Int), k.allocated q = true → k.stateOf q = .blocked →
      R k [] (k.setPCB q fun p => { p with state := .ready, waitedProcessExitCode := exitCode }))
    (nested : ∀ q k out, k.stateOf q = .waitingForExit → exitPCB q k = .ok out →
      R k (exitLog q k) out.kernel)
    {ws : List Nat} {k : Kernel} {out : Outcome}
    (run : exitWaiters exitPCB exitCode ws k = .ok out) :
    R k (exitWaitersLog exitPCB exitLog exitCode ws k) out.kernel := by
  induction ws generalizing k with
  | nil =>
      cases run
      exact refl k
  | cons q ws ih =>
      unfold exitWaiters at run
      unfold exitWaitersLog
      split_ifs at run with gone
      have alive : k.allocated q = true := by simpa using gone
      generalize state : k.stateOf q = s at run ⊢
      cases s with
      | blocked => exact trans _ [] _ _ _ (wakes k q exitCode alive state) (ih run)
      | waitingForExit =>
          obtain ⟨mid, exited, rest⟩ := bind_ok_iff.mp run
          simp only [exited, after_ok]
          refine trans _ _ _ _ _ (nested q k mid state exited) ?_
          split_ifs at rest with left
          · cases rest
            rw [if_pos left]
            exact refl _
          · rw [if_neg left]
            exact ih rest
      | _ => exact ih run

/-- What holds of marking a process EXITED and of waking a BLOCKED one, and can be
chained, holds of every exit of a process that is not BLOCKED. -/
theorem exit_log_induct (refl : ∀ k, R k [] k)
    (trans : ∀ k l j l' k', R k l j → R j l' k' → R k (l ++ l') k')
    (marks : ∀ k p, k.allocated p = true → k.stateOf p ≠ .exited → k.stateOf p ≠ .blocked →
      R k (k.markExitedLog p) (k.markExited p))
    (wakes : ∀ k q (exitCode : Int), k.allocated q = true → k.stateOf q = .blocked →
      R k [] (k.setPCB q fun p => { p with state := .ready, waitedProcessExitCode := exitCode }))
    {fuel p : Nat} {exitCode : Int} {k : Kernel} {out : Outcome} (active : k.stateOf p ≠ .blocked)
    (run : exitProcessByPCB fuel p exitCode k = .ok out) :
    R k (exitProcessByPCBLog fuel p exitCode k) out.kernel := by
  induction fuel generalizing k p exitCode out with
  | zero => cases run
  | succ fuel ih =>
      unfold exitProcessByPCB at run
      unfold exitProcessByPCBLog
      split_ifs at run with gone
      have alive : k.allocated p = true := by simpa using gone
      by_cases exited : k.stateOf p = .exited
      · simp only [exited] at run ⊢
        cases run
        exact refl k
      · have waiters :
            ∃ mid, exitWaiters (fun pcb2 => exitProcessByPCB fuel pcb2 KILL_EXIT_CODE) exitCode
            (k.waitersOf p) (k.markExited p) = .ok mid ∧ out.kernel = mid.kernel := by
          split at run
          · exact absurd ‹_› exited
          · exact absurd ‹_› active
          · obtain ⟨mid, waiters, rest⟩ := bind_ok_iff.mp run
            refine ⟨mid, waiters, ?_⟩
            split_ifs at rest <;> cases rest <;> rfl
        obtain ⟨mid, waiters, kernel⟩ := waiters
        have nested : ∀ q k out, k.stateOf q = .waitingForExit →
            exitProcessByPCB fuel q KILL_EXIT_CODE k = .ok out →
            R k (exitProcessByPCBLog fuel q KILL_EXIT_CODE k) out.kernel :=
          fun q k out killed run => ih (by rw [killed]; simp) run
        rw [kernel]
        split
        · exact absurd ‹_› exited
        · exact absurd ‹_› active
        · exact trans _ _ _ _ _ (marks k p alive exited active)
            (exitWaiters_log_induct refl trans wakes nested waiters)

/-- The exit of a BLOCKED process. -/
theorem exit_blocked {fuel p : Nat} {exitCode : Int} {k : Kernel} {out : Outcome}
    (blocked : k.stateOf p = .blocked) (run : exitProcessByPCB fuel p exitCode k = .ok out) :
    out.kernel = k.markWaitingForExit p ∧
      exitProcessByPCBLog fuel p exitCode k = k.markWaitingForExitLog p := by
  cases fuel with
  | zero => cases run
  | succ fuel =>
      rw [exitProcessByPCB, blocked] at run
      rw [exitProcessByPCBLog, blocked]
      split_ifs at run
      cases run
      exact ⟨rfl, rfl⟩

/-- The quantums of the running process are left to it. -/
theorem exit_quantumsLeft {fuel p : Nat} {exitCode : Int} {k : Kernel} {out : Outcome}
    (run : exitProcessByPCB fuel p exitCode k = .ok out) :
    out.kernel.quantumsLeft = k.quantumsLeft := by
  by_cases blocked : k.stateOf p = .blocked
  · rw [(exit_blocked blocked run).1]
    rfl
  · refine exit_log_induct (R := fun k _ k' => k'.quantumsLeft = k.quantumsLeft) (fun _ => rfl)
      (fun _ _ _ _ _ h h' => h'.trans h) (fun k p _ _ _ => ?_) (fun _ _ _ _ _ => rfl) blocked run
    unfold markExited
    simp only []
    split_ifs <;> rfl

end Exit

/-! ### Parts -/

/-- Processes that have not been killed become READY, or get another priority. A
BLOCKED one among them is in no table of waiters. -/
structure Stirs (k k' : Kernel) : Prop where
  ring : SameRing k k'
  foreground : k'.processInForeground = k.processInForeground
  quantumsLeft : k'.quantumsLeft = k.quantumsLeft
  samePCB : ∀ p, k'.pcbs p =
    { k.pcbs p with state := (k'.pcbs p).state, priority := (k'.pcbs p).priority }
  states : ∀ p, k'.stateOf p = k.stateOf p ∨
    k.stateOf p ≠ .exited ∧ k.stateOf p ≠ .waitingForExit ∧ k'.stateOf p = .ready ∧
      (k.stateOf p = .blocked → ∀ r, p ∉ k.entries (.table r))

/-- A part of an operation, with its events. -/
inductive Part (k : Kernel) : List Event → Kernel → Prop
  | switch {fuel : Nat} {k' : Kernel} (run : k.contextSwitch fuel = .ok k') :
      Part k (k.contextSwitchLog fuel) k'
  | exits {fuel p : Nat} {out : Outcome} (killed : k.stateOf p = .waitingForExit)
      (current : Awake (k.stateOf k.currentPCB))
      (run : exitProcessByPCB fuel p KILL_EXIT_CODE k = .ok out) :
      Part k (exitProcessByPCBLog fuel p KILL_EXIT_CODE k) out.kernel
  | stirs {k' : Kernel} (stirs : Stirs k k') : Part k [] k'

/-- Parts, one after the other. -/
inductive Parts (k : Kernel) : List Event → Kernel → Prop
  | none : Parts k [] k
  | more {j k' : Kernel} {log log' : List Event} (before : Parts k log j) (mid : Mid False j)
      (part : Part j log' k') : Parts k (log ++ log') k'

/-- What an operation makes exit, and with which code. -/
def Exiting (k : Kernel) (pcb : Nat) (exitCode : Int) : Op → Prop
  | .exit code => pcb = k.currentPCB ∧ exitCode = code
  | .kill _ | .ctrlC => exitCode = KILL_EXIT_CODE
  | _ => False

/-- What an operation opens with. -/
inductive Opening (k : Kernel) (op : Op) : List Event → Kernel → Prop
  | none : Opening k op [] k
  | exits {fuel p : Nat} {exitCode : Int} {out : Outcome} (exiting : Exiting k p exitCode op)
      (alive : k.stateOf p ≠ .exited) (run : exitProcessByPCB fuel p exitCode k = .ok out) :
      Opening k op (exitProcessByPCBLog fuel p exitCode k) out.kernel
  /-- `waitPid` records the running process in the table of another one. -/
  | records {fuel pid pcb : Nat} {k₁ : Kernel} (named : op = .waitPid pid)
      (other : pid ≠ k.pidOf k.currentPCB) (found : k.getPCBByPid fuel pid = .ok pcb)
      (some : pcb ≠ NULL) (alive : k.stateOf pcb ≠ .exited)
      (recorded : k.recordWaiter pcb k.currentPCB = .ok k₁) :
      Opening k op [] { k₁.setState k.currentPCB .blocked with
        processInForeground :=
          if k.pidOf k.currentPCB = k.foregroundPid then pcb else k.processInForeground }
  /-- The running process is blocked outside of any table. -/
  | blocks {k₁ : Kernel} (ring : SameRing k k₁)
      (foreground : k₁.processInForeground = k.processInForeground)
      (quantumsLeft : k₁.quantumsLeft = k.quantumsLeft) (pcbs : k₁.pcbs = k.pcbs) :
      Opening k op [] (k₁.setState k.currentPCB .blocked)
  | blocksByUser {p : Nat} (awake : Awake (k.stateOf p)) : Opening k op []
      (k.setState p .blockedByUser)
  | creates {mem : ProcessMemory} (busy : ¬ k.idle) (bound : k.pid < IDLE_PID) (rsp : Nat)
      (garbage : Int) (made : op = .createProcess mem rsp garbage) :
      Opening k op [] (added k rsp garbage)
  | fails (bound : k.pid < IDLE_PID) : Opening k op [] { k with pid := k.pid + 1 }

/-- A stage of a run: the opening of an operation, or one of its parts. -/
inductive Stage (k : Kernel) : List Event → Kernel → Prop
  | opens {op : Op} {log : List Event} {j : Kernel} (inv : Inv False k) (enabled : k.Enabled op)
      (opening : Opening k op log j) : Stage k log j
  | part {log : List Event} {j : Kernel} (mid : Mid False k) (part : Part k log j) : Stage k log j

/-- A run, stage by stage, with its log. -/
inductive Stages (k : Kernel) : List Event → Kernel → Prop
  | none : Stages k [] k
  | more {j k' : Kernel} {log log' : List Event} (before : Stages k log j)
      (stage : Stage j log' k') : Stages k (log ++ log') k'

section Parts

variable {k j k' : Kernel} {log log' : List Event}

theorem Part.parts (part : Part k log k') (mid : Mid False k) : Parts k log k' :=
  .more .none mid part

theorem Parts.trans (first : Parts k log j) (rest : Parts j log' k') :
    Parts k (log ++ log') k' := by
  induction rest with
  | none =>
      rw [List.append_nil]
      exact first
  | more before mid part ih =>
      rw [← List.append_assoc]
      exact .more ih mid part

theorem switch_parts {fuel : Nat} (mid : Mid False k) (run : k.contextSwitch fuel = .ok k') :
    Parts k (k.contextSwitchLog fuel) k' := (Part.switch run).parts mid

theorem finish_parts {fuel : Nat} {out : Outcome} (mid : Mid False out.kernel)
    (run : finish fuel out = .ok k') : Parts out.kernel (finishLog fuel out) k' := by
  unfold finish at run
  unfold finishLog
  split_ifs at run ⊢
  · exact switch_parts mid run
  · cases run
    exact .none

end Parts

/-! ### Changes of state -/

section Stirs

variable {k k₁ : Kernel} {slot : Slot} {p : Nat}

theorem stirs_of_pcbs {k' : Kernel} (ring : SameRing k k') (pcbs : k'.pcbs = k.pcbs)
    (foreground : k'.processInForeground = k.processInForeground)
    (quantumsLeft : k'.quantumsLeft = k.quantumsLeft) : Stirs k k' where
  ring := ring
  foreground := foreground
  quantumsLeft := quantumsLeft
  samePCB q := by rw [pcbs]
  states q := Or.inl (by rw [stateOf, pcbs, stateOf])

/-- A PCB that gets another state or priority. -/
theorem setPCB_stirs {f : PCB → PCB} (same : f (k.pcbs p) =
      { k.pcbs p with state := (f (k.pcbs p)).state, priority := (f (k.pcbs p)).priority })
    (state : (f (k.pcbs p)).state = k.stateOf p ∨
      k.stateOf p ≠ .exited ∧ k.stateOf p ≠ .waitingForExit ∧ k.stateOf p ≠ .blocked ∧
        (f (k.pcbs p)).state = .ready) :
    Stirs k (k.setPCB p f) := by
  refine ⟨setPCB_sameRing (by rw [same]), rfl, rfl, fun q => ?_, fun q => ?_⟩
  · rw [setPCB_pcbs]
    split_ifs with e
    · rw [e]
      exact same
    · rfl
  · rw [stateOf, setPCB_pcbs]
    split_ifs with e
    · subst e
      rcases state with same | ⟨alive, spared, awake, new⟩
      · exact Or.inl same
      · exact Or.inr ⟨alive, spared, new, fun blocked => absurd blocked awake⟩
    · exact Or.inl rfl

theorem Removed.stirs (r : Removed slot p k k₁) (quantumsLeft : k₁.quantumsLeft = k.quantumsLeft) :
    Stirs k k₁ := stirs_of_pcbs r.ring r.pcbs r.foreground quantumsLeft

/-- Who is woken from a queue or from the sleep list is in no table. -/
theorem Removed.ready_stirs (r : Removed slot p k k₁) (m : Mid False k)
    (quantumsLeft : k₁.quantumsLeft = k.quantumsLeft) (blocked : k.stateOf p = .blocked)
    (outside : ∀ pcb, slot ≠ .table pcb) : Stirs k (k₁.setState p .ready) := by
  refine ⟨r.ring.trans (setPCB_sameRing rfl), r.foreground, quantumsLeft, fun q => ?_, fun q => ?_⟩
  · rw [setState, setPCB_pcbs, r.pcbs]
    split_ifs with e
    · rw [e]
    · rfl
  · rw [stateOf_setState, r.stateOf]
    split_ifs with e
    · subst e
      refine Or.inr ⟨by simp [blocked], by simp [blocked], rfl, fun _ pcb mem => ?_⟩
      exact outside pcb (m.records.once slot (.table pcb) q r.mem mem)
    · exact Or.inl rfl

end Stirs

/-! ### The loops -/

section Unqueue

variable {k k₁ : Kernel} {semId p fuel : Nat}

theorem fifoUnqueue_quantumsLeft (taken : k.fifoUnqueue semId = some (p, k₁)) :
    k₁.quantumsLeft = k.quantumsLeft := by
  obtain ⟨_, _, -, -, rfl⟩ := fifoUnqueue_some taken
  rfl

theorem unqueue_drop_parts (m : Mid False k) (taken : k.fifoUnqueue semId = some (p, k₁)) :
    Parts k [] k₁ :=
  (Part.stirs ((fifoUnqueue_removed m taken).stirs (fifoUnqueue_quantumsLeft taken))).parts m

theorem unqueue_ready_parts (m : Mid False k) (taken : k.fifoUnqueue semId = some (p, k₁))
    (blocked : k.stateOf p = .blocked) : Parts k [] (k₁.setState p .ready) :=
  (Part.stirs ((fifoUnqueue_removed m taken).ready_stirs m (fifoUnqueue_quantumsLeft taken) blocked
    fun _ e => by cases e)).parts m

theorem unqueue_exits_parts {out : Outcome} (m : Mid False k)
    (current : Awake (k.stateOf k.currentPCB)) (taken : k.fifoUnqueue semId = some (p, k₁))
    (killed : k₁.stateOf p = .waitingForExit)
    (run : exitProcessByPCB fuel p KILL_EXIT_CODE k₁ = .ok out) :
    Parts k (exitProcessByPCBLog fuel p KILL_EXIT_CODE k₁) out.kernel := by
  have r := fifoUnqueue_removed m taken
  have awake : Awake (k₁.stateOf k₁.currentPCB) := by rwa [r.stateOf, r.ring.currentPCB]
  exact (unqueue_drop_parts m taken).trans ((Part.exits killed awake run).parts (r.mid m))

/-- A round of `postSemaphore` that goes on, or leaves. -/
theorem postRound_parts {pass : Pass Kernel Outcome} (m : Mid False k)
    (current : Awake (k.stateOf k.currentPCB)) (run : postRound fuel semId k = .ok pass) :
    ∃ j left, (pass = .again j ∨ pass = .leave ⟨j, left⟩) ∧
      Parts k (unqueueRoundLog fuel semId k) j := by
  unfold postRound at run
  unfold unqueueRoundLog
  rcases Option.eq_none_or_eq_some (k.fifoUnqueue semId) with none | ⟨⟨p, k₁⟩, taken⟩
  · simp only [none] at run ⊢
    cases run
    exact ⟨_, _, Or.inr rfl, (Part.stirs (stirs_of_pcbs sems_sameRing rfl rfl rfl)).parts m⟩
  · have states := (fifoUnqueue_removed m taken).stateOf
    simp only [taken] at run ⊢
    split_ifs at run with gone
    split at run
    · rename_i blocked
      cases run
      rw [blocked, if_neg (by simp)]
      exact ⟨_, _, Or.inr rfl, unqueue_ready_parts m taken (states ▸ blocked)⟩
    · rename_i killed
      obtain ⟨out, exited, rest⟩ := bind_ok_iff.mp run
      rw [if_pos killed]
      refine ⟨out.kernel, out.left, ?_, unqueue_exits_parts m current taken killed exited⟩
      split_ifs at rest <;> cases rest
      · exact Or.inr rfl
      · exact Or.inl rfl
    · rename_i active killed
      cases run
      rw [if_neg killed]
      exact ⟨_, false, Or.inl rfl, unqueue_drop_parts m taken⟩

/-- A round of `destroySemaphore` that goes on, or leaves. -/
theorem destroyRound_parts {pass : Pass Kernel Outcome} (m : Mid False k)
    (current : Awake (k.stateOf k.currentPCB)) (run : destroyRound fuel semId k = .ok pass) :
    ∃ j left, (pass = .again j ∨ pass = .leave ⟨j, left⟩) ∧
      Parts k (unqueueRoundLog fuel semId k) j := by
  unfold destroyRound at run
  unfold unqueueRoundLog
  rcases Option.eq_none_or_eq_some (k.fifoUnqueue semId) with none | ⟨⟨p, k₁⟩, taken⟩
  · simp only [none] at run ⊢
    cases run
    exact ⟨_, _, Or.inr rfl, .none⟩
  · have states := (fifoUnqueue_removed m taken).stateOf
    simp only [taken] at run ⊢
    split_ifs at run with gone
    split at run
    · rename_i blocked
      cases run
      rw [blocked, if_neg (by simp)]
      exact ⟨_, false, Or.inl rfl, unqueue_ready_parts m taken (states ▸ blocked)⟩
    · rename_i killed
      obtain ⟨out, exited, rest⟩ := bind_ok_iff.mp run
      rw [if_pos killed]
      refine ⟨out.kernel, out.left, ?_, unqueue_exits_parts m current taken killed exited⟩
      split_ifs at rest <;> cases rest
      · exact Or.inr rfl
      · exact Or.inl rfl
    · rename_i active killed
      cases run
      rw [if_neg killed]
      exact ⟨_, false, Or.inl rfl, unqueue_drop_parts m taken⟩

/-- A loop whose rounds take one process after the other out of the queue. -/
theorem unqueueLoop_parts {round : Kernel → Exec (Pass Kernel Outcome)} {out : Outcome}
    (i : Inv False k)
    (parts : ∀ j pass, Mid False j → Awake (j.stateOf j.currentPCB) → round j = .ok pass →
      ∃ j' left, (pass = .again j' ∨ pass = .leave ⟨j', left⟩) ∧
        Parts j (unqueueRoundLog fuel semId j) j')
    (releases : ∀ j j', Mid False j → Awake (j.stateOf j.currentPCB) → round j = .ok (.again j') →
      ∃ p, Released False semId p j j')
    (run : loop round fuel k = .ok out) :
    Parts k (loopLog round (unqueueRoundLog fuel semId) fuel k) out.kernel := by
  have all := loop_log (unqueueRoundLog fuel semId)
    (fun j done => Parts k done j ∧ ∃ passed, Passed False semId k passed j)
    (fun out done => Parts k done out.kernel) ?_ ?_ ⟨.none, [], Passed.refl i.toMid⟩ run
  · simpa using all
  · rintro j j' done ⟨before, passed, h⟩ round
    obtain ⟨_, _, e, part⟩ := parts j _ h.edits.mid (h.current i.current) round
    obtain ⟨p, released⟩ := releases j j' h.edits.mid (h.current i.current) round
    refine ⟨?_, _, h.next released⟩
    rcases e with e | e <;> cases e
    exact before.trans part
  · rintro j out done ⟨before, passed, h⟩ round
    obtain ⟨_, _, e, part⟩ := parts j _ h.edits.mid (h.current i.current) round
    rcases e with e | e <;> cases e
    exact before.trans part

theorem postLoop_parts {out : Outcome} (i : Inv False k)
    (run : loop (postRound fuel semId) fuel k = .ok out) :
    Parts k (loopLog (postRound fuel semId) (unqueueRoundLog fuel semId) fuel k) out.kernel := by
  refine unqueueLoop_parts i (fun _ _ => postRound_parts) (fun j j' m current round => ?_) run
  rcases postRound_spec m current round with ⟨p, _, e, released, -⟩ | ⟨_, _, e, -⟩ | ⟨-,
    e⟩ <;> cases e
  exact ⟨p, released⟩

theorem destroyLoop_parts {out : Outcome} (i : Inv False k)
    (run : loop (destroyRound fuel semId) fuel k = .ok out) :
    Parts k (loopLog (destroyRound fuel semId) (unqueueRoundLog fuel semId) fuel k) out.kernel := by
  refine unqueueLoop_parts i (fun _ _ => destroyRound_parts) (fun j j' m current round => ?_) run
  rcases destroyRound_spec m current round with ⟨p, _, e, released⟩ | ⟨-, e⟩ <;> cases e
  exact ⟨p, released⟩

end Unqueue

section Ticking

variable {k : Kernel} {fuel : Nat}

theorem removeFromSleepList_stirs (k : Kernel) (prev current : Nat) :
    Stirs k (k.removeFromSleepList prev current).1 := by
  unfold removeFromSleepList
  split_ifs <;> exact stirs_of_pcbs ⟨rfl, rfl, rfl, rfl, rfl, Nat.le_refl _, fun _ =>
    rfl⟩ rfl rfl rfl

/-- A round finishes off nobody but the killed. -/
theorem incTicksRoundLog_quiet {prev current : Nat}
    (spared : k.stateOf (k.sleepPCB current) ≠ .waitingForExit) :
    incTicksRoundLog fuel (k, prev, current) = [] := by
  by_cases finished : current = NULL
  · rw [incTicksRoundLog, if_pos finished]
  · rw [incTicksRoundLog, if_neg finished]
    exact if_neg spared

/-- A round of `incTicks`, at a node. -/
theorem incTicksRound_parts {start : Kernel} {prev current : Nat} {rest : List Nat}
    {pass : Pass (Kernel × Nat × Nat) Outcome}
    (w : Walking False start k prev current (current :: rest))
    (awake : Awake (start.stateOf start.currentPCB))
    (run : incTicksRound fuel (k, prev, current) = .ok pass) :
    ∀ k' prev' current', pass = .again (k', prev', current') →
      Parts k (incTicksRoundLog fuel (k, prev, current)) k' := by
  obtain ⟨passed, at_⟩ := w.place
  have m := w.edits.mid
  have here := w.awake awake
  have some : current ≠ NULL := by
    have := (at_.list.used current (by simp)).1
    unfold NULL
    omega
  rintro k' prev' current' rfl
  obtain ⟨edits, -⟩ := counted_edits m current
  have ticked : Parts k [] (counted k current) :=
    (Part.stirs (stirs_of_pcbs edits.ring rfl rfl rfl)).parts m
  rcases incTicksRound_cases m here some run with
    ⟨blocked, -, e⟩ | ⟨blocked, -, e⟩ | ⟨killed, out, exited, left, exits, e⟩ | ⟨still,
      e⟩ <;> cases e
  · rw [incTicksRoundLog_quiet (by rw [blocked]; simp)]
    exact ticked
  · obtain ⟨removed, -⟩ := at_.wakes m blocked
    have stirs := removed.ready_stirs edits.mid
      (removeFromSleepList_stirs (counted k current) prev current).quantumsLeft blocked
        fun _ e => by cases e
    rw [incTicksRoundLog_quiet (by rw [blocked]; simp)]
    exact ticked.trans ((Part.stirs stirs).parts edits.mid)
  · have inv : Inv False k := ⟨m, here⟩
    obtain ⟨edits, -, -⟩ := exit_edits inv (by rw [killed]; simp)
      (m.waiting_ne_idle (Or.inr killed)) (fun s => s.elim) exited
    have log : incTicksRoundLog fuel (k, prev, current) =
        exitProcessByPCBLog fuel (k.sleepPCB current) KILL_EXIT_CODE k := by
      rw [incTicksRoundLog, if_neg some]
      exact if_pos killed
    have both := ((Part.exits killed here exited).parts m).trans
      ((Part.stirs (removeFromSleepList_stirs out.kernel prev current)).parts edits.mid)
    rw [List.append_nil] at both
    rw [log]
    exact both
  · rw [incTicksRoundLog_quiet fun killed => still (Or.inr killed)]
    exact .none

theorem incTicks_parts {out : Outcome} (i : Inv False k) (run : k.incTicks fuel = .ok out) :
    Parts k (k.incTicksLog fuel) out.kernel := by
  obtain ⟨rest, start⟩ := walking_start i.toMid
  have quiet : Stirs k { k with ticks := k.ticks + 1 } :=
    stirs_of_pcbs ⟨rfl, rfl, rfl, rfl, rfl, Nat.le_refl _, fun _ => rfl⟩ rfl rfl rfl
  have begins : Parts k [] { k with ticks := k.ticks + 1 } := (Part.stirs quiet).parts i.toMid
  have all := loop_log (incTicksRoundLog fuel)
    (fun s done => Parts k done s.1 ∧ ∃ rest, Walking False k s.1 s.2.1 s.2.2 rest)
    (fun out done => Parts k done out.kernel) ?_ ?_ ⟨begins, rest, start⟩ run
  · simpa [incTicksLog] using all
  all_goals
    rintro ⟨j, prev, current⟩ after done ⟨parts, rest, w⟩ round
    obtain ⟨passed, at_⟩ := w.place
    by_cases finished : current = NULL
    · have log : incTicksRoundLog fuel (j, prev, current) = [] := by
        rw [incTicksRoundLog, if_pos finished]
      rw [incTicksRound, if_pos finished] at round
      cases round
      try
        rw [log, List.append_nil]
        exact parts
    · obtain ⟨rest, rfl⟩ := at_.at_node finished
      obtain ⟨k₁, prev', current', e, next⟩ := w.round i.current round
      cases e
      try
        refine ⟨parts.trans (incTicksRound_parts w i.current round _ _ _ rfl), ?_⟩
        rcases next with next | ⟨same, -⟩
        · exact ⟨_, next⟩
        · cases same
          exact ⟨_, w⟩

end Ticking

/-! ### The operations -/

/-- What is shown of an operation: its opening, and the parts that follow. -/
def MadeOfParts (k : Kernel) (op : Op) (log : List Event) (k' : Kernel) : Prop :=
  ∃ j opening rest, Opening k op opening j ∧ Mid False j ∧ Parts j rest k' ∧ log = opening ++ rest

section Operations

variable {k k' : Kernel} {fuel : Nat} {op : Op} {log : List Event}

theorem Opening.then_parts {j : Kernel} {opening : List Event} (o : Opening k op opening j)
    (m : Mid False j) (parts : Parts j log k') : MadeOfParts k op (opening ++ log) k' :=
  ⟨j, opening, log, o, m, parts, rfl⟩

theorem Parts.alone (parts : Parts k log k') (m : Mid False k) : MadeOfParts k op log k' :=
  Opening.none.then_parts m parts

theorem Stirs.alone (s : Stirs k k') (m : Mid False k) : MadeOfParts k op [] k' :=
  ((Part.stirs s).parts m).alone m

theorem nothing_alone (m : Mid False k) : MadeOfParts k op [] k := Parts.none.alone m

theorem exit_parts {exitCode : Int} (i : Inv False k) (busy : ¬ k.idle)
    (run : k.exitCurrentProcess fuel exitCode = .ok k') :
    MadeOfParts k (.exit exitCode) (k.exitCurrentProcessLog fuel exitCode) k' := by
  obtain ⟨out, exited, switch⟩ := bind_ok_iff.mp run
  obtain ⟨edits, -⟩ := exit_edits i i.current.active.2 (i.current_ne_idle busy)
    (fun s => s.elim) exited
  have exiting : Exiting k k.currentPCB exitCode (.exit exitCode) := ⟨rfl, rfl⟩
  rw [exitCurrentProcessLog, exited, after_ok]
  exact (Opening.exits exiting i.current.active.2 exited).then_parts edits.mid
    (switch_parts edits.mid switch)

theorem kill_parts {pid : Nat} {r : Kernel × Bool} (i : Inv False k)
    (run : k.kill fuel pid = .ok r) : MadeOfParts k (.kill pid) (k.killLog fuel pid) r.1 := by
  unfold kill at run
  unfold killLog
  split_ifs at run ⊢ with init
  · cases run
    exact nothing_alone i.toMid
  · obtain ⟨pcb, search, run⟩ := bind_ok_iff.mp run
    rw [search, after_ok]
    split_ifs at run ⊢ with dead
    · cases run
      exact nothing_alone i.toMid
    · push Not at dead
      obtain ⟨out, exited, run⟩ := bind_ok_iff.mp run
      obtain ⟨k₁, finished, run⟩ := bind_ok_iff.mp run
      cases run
      obtain ⟨-, ne, -⟩ := getPCBByPid_found i.toMid search dead.1
      obtain ⟨edits, -⟩ := exit_edits i dead.2.1 ne (fun s => s.elim) exited
      have exiting : Exiting k pcb KILL_EXIT_CODE (.kill pid) := rfl
      rw [exited, after_ok]
      exact (Opening.exits exiting dead.2.1 exited).then_parts edits.mid
        (finish_parts edits.mid finished)

theorem ctrlC_parts (i : Inv False k) (run : k.killCurrentProcessInForeground fuel = .ok k') :
    MadeOfParts k .ctrlC (k.killCurrentProcessInForegroundLog fuel) k' := by
  unfold killCurrentProcessInForeground at run
  unfold killCurrentProcessInForegroundLog
  split_ifs at run ⊢ with init
  · cases run
    exact nothing_alone i.toMid
  · obtain ⟨out, exited, switch⟩ := bind_ok_iff.mp run
    rw [exited, after_ok]
    by_cases dead : k.stateOf k.processInForeground = .exited
    · -- The exit of a process that is EXITED does nothing.
      have nothing : out = ⟨k, false⟩ ∧
          exitProcessByPCBLog fuel k.processInForeground KILL_EXIT_CODE k = [] := by
        cases fuel with
        | zero => cases exited
        | succ fuel =>
            rw [exitProcessByPCB, dead] at exited
            rw [exitProcessByPCBLog, dead]
            split_ifs at exited
            cases exited
            exact ⟨rfl, rfl⟩
      rw [nothing.1] at switch
      rw [nothing.1, nothing.2, List.nil_append]
      exact (switch_parts i.toMid switch).alone i.toMid
    · obtain ⟨edits, -⟩ := exit_edits i dead i.family.foreground (fun s => s.elim) exited
      have exiting : Exiting k k.processInForeground KILL_EXIT_CODE .ctrlC := rfl
      exact (Opening.exits exiting dead exited).then_parts edits.mid (switch_parts edits.mid switch)

theorem Blocked.mid {slot : Slot} (b : Blocked slot k k') (i : Inv False k) (busy : ¬ k.idle) :
    Mid False k' := by
  have edits : Edits False (fun _ => True) k k' :=
    b.edits i.toMid i.current busy fun _ _ => trivial
  exact edits.mid

theorem recorded_sameRing {pcb fg : Nat} {k₁ : Kernel}
    (recorded : k.recordWaiter pcb k.currentPCB = .ok k₁) :
    SameRing k { k₁.setState k.currentPCB .blocked with processInForeground := fg } := by
  obtain ⟨f, rfl, spec⟩ := recordWaiter_ok recorded
  have ring : SameRing k ((k.setPCB pcb f).setState k.currentPCB .blocked) :=
    SameRing.trans (setPCB_sameRing (spec _).1) (setPCB_sameRing rfl)
  exact ring.trans ⟨rfl, rfl, rfl, rfl, rfl, Nat.le_refl _, fun _ => rfl⟩

/-- The caller of `waitPid`, recorded and blocked, keeps what holds all through an
operation. -/
theorem recorded_mid {pcb fg : Nat} {k₁ : Kernel} (i : Inv False k) (busy : ¬ k.idle)
    (alive : k.stateOf pcb ≠ .exited) (other : pcb ≠ k.currentPCB) (foreground : fg ≠ k.idlePCB)
    (recorded : k.recordWaiter pcb k.currentPCB = .ok k₁) :
    Mid False { k₁.setState k.currentPCB .blocked with processInForeground := fg } :=
  (table_blocked i.toMid i.current busy alive other foreground recorded).mid i busy

theorem waitPid_parts {pid : Nat} (i : Inv False k) (busy : ¬ k.idle)
    (run : k.waitPid fuel pid = .ok k') :
    MadeOfParts k (.waitPid pid) (k.waitPidLog fuel pid) k' := by
  unfold waitPid at run
  unfold waitPidLog
  split_ifs at run ⊢ with self
  · cases run
    exact nothing_alone i.toMid
  · obtain ⟨pcb, search, run⟩ := bind_ok_iff.mp run
    rw [search, after_ok]
    split_ifs at run ⊢ with dead
    · cases run
      exact nothing_alone i.toMid
    · push Not at dead
      obtain ⟨k₁, recorded, run⟩ := bind_ok_iff.mp run
      obtain ⟨-, ne, found⟩ := getPCBByPid_found i.toMid search dead.1
      have other : pcb ≠ k.currentPCB := fun e => self (by rw [← found, e])
      rw [recorded, after_ok]
      -- The pids that are compared are those from before.
      have e : (if (k₁.setState k₁.currentPCB .blocked).pidOf
              (k₁.setState k₁.currentPCB .blocked).currentPCB =
              (k₁.setState k₁.currentPCB .blocked).foregroundPid then
            { k₁.setState k₁.currentPCB .blocked with processInForeground := pcb }
          else k₁.setState k₁.currentPCB .blocked) =
          { k₁.setState k.currentPCB .blocked with
            processInForeground :=
              if k.pidOf k.currentPCB = k.foregroundPid then pcb else k.processInForeground } := by
        obtain ⟨f, rfl, spec⟩ := recordWaiter_ok recorded
        have ring : SameRing k ((k.setPCB pcb f).setState k.currentPCB .blocked) :=
          SameRing.trans (setPCB_sameRing (spec _).1) (setPCB_sameRing rfl)
        have foreground : ((k.setPCB pcb f).setState k.currentPCB .blocked).foregroundPid =
            k.foregroundPid := by
          unfold foregroundPid
          rw [ring.allocated, ring.pids]
          rfl
        have here : (k.setPCB pcb f).currentPCB = k.currentPCB := rfl
        rw [here, ring.currentPCB, ring.pids, foreground]
        split_ifs <;> rfl
      simp only [e] at run ⊢
      have foreground : (if k.pidOf k.currentPCB = k.foregroundPid then pcb
          else k.processInForeground) ≠ k.idlePCB := by
        split_ifs
        · exact ne
        · exact i.family.foreground
      have mid := recorded_mid i busy dead.2 other foreground recorded
      exact (Opening.records rfl self search dead.1 dead.2 recorded).then_parts mid
        (switch_parts mid run)

theorem sleep_parts {ticks : Nat} {node : Bool} (i : Inv False k) (busy : ¬ k.idle)
    (run : k.sleep fuel ticks node = .ok k') :
    MadeOfParts k (.sleep ticks node) (k.sleepLog fuel ticks node) k' := by
  unfold Kernel.sleep at run
  unfold sleepLog
  split_ifs at run ⊢ with pos
  · have mid := (sleep_blocked i.toMid i.current ticks).mid i busy
    have quiet : SameRing k (withSleeper k ticks) :=
      ⟨rfl, rfl, rfl, rfl, rfl, Nat.le_succ _, fun _ => rfl⟩
    exact (Opening.blocks quiet rfl rfl rfl).then_parts mid (switch_parts mid run)
  · cases run
    exact nothing_alone i.toMid

theorem waitSemaphore_parts {semId : Nat} {node : Bool} {r : Kernel × Bool} (i : Inv False k)
    (busy : ¬ k.idle) (run : k.waitSemaphore fuel semId node = .ok r) :
    MadeOfParts k (.waitSemaphore semId node) (k.waitSemaphoreLog fuel semId node) r.1 := by
  unfold waitSemaphore at run
  unfold waitSemaphoreLog
  rcases Option.eq_none_or_eq_some (k.semArray[semId]?) with none | ⟨sem, found⟩
  · simp only [none] at run ⊢
    cases run
    exact nothing_alone i.toMid
  · simp only [found] at run ⊢
    split_ifs at run ⊢ with dead value
    · cases run
      exact nothing_alone i.toMid
    · cases run
      exact (stirs_of_pcbs sems_sameRing rfl rfl rfl).alone i.toMid
    · obtain ⟨k₁, switch, run⟩ := bind_ok_iff.mp run
      cases run
      cases node with
      | true =>
          have blocked := queue_blocked i.toMid i.current found (by simpa using dead)
          have mid := blocked.mid i busy
          have quiet : SameRing k (k.fifoQueue semId k.currentPCB true) := sems_sameRing
          exact (Opening.blocks quiet rfl rfl rfl).then_parts mid (switch_parts mid switch)
      | false =>
          have mid := (setState_blocked i.toMid i.current busy fun _ => False).mid
          exact (Opening.blocks (SameRing.refl k) rfl rfl rfl).then_parts mid
            (switch_parts mid switch)

theorem postSemaphore_parts {semId : Nat} {r : Kernel × Bool} (i : Inv False k)
    (run : k.postSemaphore fuel semId = .ok r) :
    MadeOfParts k (.postSemaphore semId) (k.postSemaphoreLog fuel semId) r.1 := by
  unfold postSemaphore at run
  unfold postSemaphoreLog
  rcases Option.eq_none_or_eq_some (k.semArray[semId]?) with none | ⟨sem, found⟩
  · simp only [none] at run ⊢
    cases run
    exact nothing_alone i.toMid
  · simp only [found] at run ⊢
    split_ifs at run ⊢ with dead
    · cases run
      exact nothing_alone i.toMid
    · have live : k.Live semId := by simpa [Live, found] using dead
      obtain ⟨out, looped, rest⟩ := bind_ok_iff.mp run
      obtain ⟨k₁, finished, rest⟩ := bind_ok_iff.mp rest
      cases rest
      obtain ⟨-, posted⟩ := postLoop_spec i.toMid i.current live looped
      rw [looped, after_ok]
      exact ((postLoop_parts i looped).trans (finish_parts posted.edits.mid finished)).alone i.toMid

theorem destroySemaphore_parts {semId : Nat} {r : Kernel × Bool} (i : Inv False k)
    (run : k.destroySemaphore fuel semId = .ok r) :
    MadeOfParts k (.destroySemaphore semId) (k.destroySemaphoreLog fuel semId) r.1 := by
  unfold destroySemaphore at run
  unfold destroySemaphoreLog
  rcases Option.eq_none_or_eq_some (k.semArray[semId]?) with none | ⟨sem, found⟩
  · simp only [none] at run ⊢
    cases run
    exact nothing_alone i.toMid
  · simp only [found] at run ⊢
    split_ifs at run ⊢ with dead
    · cases run
      exact nothing_alone i.toMid
    · obtain ⟨out, looped, rest⟩ := bind_ok_iff.mp run
      obtain ⟨left, ⟨passed, h⟩, -⟩ := destroyLoop_spec i.toMid i.current looped
      rw [left] at rest
      cases rest
      rw [looped, after_ok, finishLog, left]
      have closed : Stirs out.kernel
          { out.kernel.updateSem semId fun sem => { sem with destroyed := true } with
            freedPositions := out.kernel.freedPositions ++ [semId] } :=
        stirs_of_pcbs ⟨rfl, rfl, rfl, rfl, rfl, Nat.le_refl _, fun _ => rfl⟩ rfl rfl rfl
      exact ((destroyLoop_parts i looped).trans
        ((Part.stirs closed).parts h.edits.mid)).alone i.toMid

theorem blockByUser_parts {pid : Nat} {r : Kernel × Bool} (i : Inv False k)
    (run : k.blockByUser fuel pid = .ok r) :
    MadeOfParts k (.blockByUser pid) (k.blockByUserLog fuel pid) r.1 := by
  unfold blockByUser at run
  unfold blockByUserLog
  obtain ⟨pcb, search, run⟩ := bind_ok_iff.mp run
  rw [search, after_ok]
  split_ifs at run ⊢ with can
  · obtain ⟨k₁, finished, run⟩ := bind_ok_iff.mp run
    cases run
    obtain ⟨-, ne, -⟩ := getPCBByPid_found i.toMid search can.1
    have awake : Awake (k.stateOf pcb) := can.2
    have mid := (setState_edits (s := .blockedByUser) i.toMid awake.active.1 awake.active.2 ne
      (Or.inr rfl)).mid
    exact (Opening.blocksByUser awake).then_parts mid (finish_parts mid finished)
  · cases run
    exact nothing_alone i.toMid

theorem unblock_parts {pid : Nat} {r : Kernel × Bool} (i : Inv False k)
    (run : k.unblock fuel pid = .ok r) : MadeOfParts k (.unblock pid) [] r.1 := by
  obtain ⟨pcb, search, run⟩ := bind_ok_iff.mp run
  split_ifs at run with can
  · cases run
    have stirs : Stirs k (k.setState pcb .ready) :=
      setPCB_stirs rfl (Or.inr ⟨by simp [can.2], by simp [can.2], by simp [can.2], rfl⟩)
    exact stirs.alone i.toMid
  · cases run
    exact nothing_alone i.toMid

theorem changePriority_parts {pid priority : Nat} {r : Kernel × Bool} (i : Inv False k)
    (run : k.changePriority fuel pid priority = .ok r) :
    MadeOfParts k (.changePriority pid priority) [] r.1 := by
  unfold changePriority at run
  split_ifs at run
  · cases run
    exact nothing_alone i.toMid
  · obtain ⟨pcb, search, run⟩ := bind_ok_iff.mp run
    split_ifs at run
    · cases run
      exact nothing_alone i.toMid
    · cases run
      have stirs : Stirs k (k.setPCB pcb fun p => { p with priority }) :=
        setPCB_stirs rfl (Or.inl rfl)
      exact stirs.alone i.toMid

theorem yield_parts (i : Inv False k) (busy : ¬ k.idle) (run : k.yield fuel = .ok k') :
    MadeOfParts k .yield (k.yieldLog fuel) k' := by
  have active := i.current.active
  have mid := (setState_edits (s := .ready) i.toMid active.1 active.2 (i.current_ne_idle busy)
    (Or.inl rfl)).mid
  have stirs : Stirs k (k.setState k.currentPCB .ready) := setPCB_stirs rfl <|
    Or.inr ⟨active.2, fun w => active.1 (Or.inr w), fun b => active.1 (Or.inl b), rfl⟩
  exact (((Part.stirs stirs).parts i.toMid).trans (switch_parts mid run)).alone i.toMid

theorem timerTick_parts (i : Inv False k) (run : k.timerTick fuel = .ok k') :
    MadeOfParts k .timerTick (k.timerTickLog fuel) k' := by
  obtain ⟨j, switch, run⟩ := bind_ok_iff.mp run
  obtain ⟨out, ticked, run⟩ := bind_ok_iff.mp run
  have switched := i.toMid.switched (contextSwitch_of_ok i.ring i.sched switch)
  obtain ⟨-, edits, -⟩ := incTicks_spec switched ticked
  rw [timerTickLog, switch, after_ok, ticked, after_ok]
  exact ((switch_parts i.toMid switch).trans
    ((incTicks_parts switched ticked).trans (finish_parts edits.mid run))).alone i.toMid

/-- Every operation is made of parts, and so is its log. -/
theorem parts_of_exec (i : Inv False k) (logged : Logged k op log k') :
    MadeOfParts k op log k' := by
  obtain ⟨enabled, fuel, run, rfl⟩ := logged
  cases op with
  | createProcess mem rsp garbage =>
      obtain ⟨r, ran, rfl⟩ := map_ok_iff.mp run
      have bound := enabled.2
      rcases createProcess_eq mem rsp garbage ran with e | e
      · rw [e]
        exact (Opening.creates enabled.1 bound rsp garbage rfl).then_parts
          (added_inv i enabled.1 bound).toMid .none
      · rw [e, Nat.mod_eq_of_lt (by unfold IDLE_PID at bound; omega)]
        exact (Opening.fails bound).then_parts (counter_inv i bound).toMid .none
  | exit exitCode => exact exit_parts i enabled run
  | kill pid =>
      obtain ⟨r, ran, rfl⟩ := map_ok_iff.mp run
      exact kill_parts i ran
  | waitPid pid => exact waitPid_parts i enabled run
  | sleep ticks node => exact sleep_parts i enabled run
  | semInit initialValue =>
      cases run
      refine Stirs.alone ?_ i.toMid
      unfold semInit
      split <;> exact stirs_of_pcbs ⟨rfl, rfl, rfl, rfl, rfl, Nat.le_refl _, fun _ =>
        rfl⟩ rfl rfl rfl
  | waitSemaphore semId node =>
      obtain ⟨r, ran, rfl⟩ := map_ok_iff.mp run
      exact waitSemaphore_parts i enabled ran
  | postSemaphore semId =>
      obtain ⟨r, ran, rfl⟩ := map_ok_iff.mp run
      exact postSemaphore_parts i ran
  | destroySemaphore semId =>
      obtain ⟨r, ran, rfl⟩ := map_ok_iff.mp run
      exact destroySemaphore_parts i ran
  | blockByUser pid =>
      obtain ⟨r, ran, rfl⟩ := map_ok_iff.mp run
      exact blockByUser_parts i ran
  | unblock pid =>
      obtain ⟨r, ran, rfl⟩ := map_ok_iff.mp run
      exact unblock_parts i ran
  | changePriority pid newPriority =>
      obtain ⟨r, ran, rfl⟩ := map_ok_iff.mp run
      exact changePriority_parts i ran
  | yield => exact yield_parts i enabled run
  | timerTick => exact timerTick_parts i run
  | reschedule => exact (switch_parts i.toMid run).alone i.toMid
  | ctrlC => exact ctrlC_parts i run
  | userCode rsp junk =>
      cases run
      have stirs : Stirs k { k with rsp := rsp, junk := junk } :=
        stirs_of_pcbs ⟨rfl, rfl, rfl, rfl, rfl, Nat.le_refl _, fun _ => rfl⟩ rfl rfl rfl
      exact stirs.alone i.toMid

end Operations

/-! ### Runs -/

section Stages

variable {k j k' : Kernel} {log log' : List Event}

theorem Stage.mid (stage : Stage k log j) : Mid False k := by
  cases stage with
  | opens inv => exact inv.toMid
  | part mid => exact mid

theorem Stages.trans (first : Stages k log j) (rest : Stages j log' k') :
    Stages k (log ++ log') k' := by
  induction rest with
  | none =>
      rw [List.append_nil]
      exact first
  | more before stage ih =>
      rw [← List.append_assoc]
      exact .more ih stage

theorem Stage.stages (stage : Stage k log k') : Stages k log k' := .more .none stage

theorem Parts.stages (parts : Parts k log k') : Stages k log k' := by
  induction parts with
  | none => exact .none
  | more before mid part ih => exact .more ih (.part mid part)

/-- An operation is a run of its stages. -/
theorem Logged.stages {op : Op} (i : Inv False k) (logged : Logged k op log k') :
    Stages k log k' := by
  have enabled := logged.1
  obtain ⟨j, opening, rest, opens, -, parts, rfl⟩ := parts_of_exec i logged
  exact (Stage.opens i enabled opens).stages.trans parts.stages

/-- So is every run of operations. -/
theorem Reach.stages {admits : Kernel → Op → Prop} (reach : Reach admits k) :
    ∃ idleRsp initRsp garbage log, Stages (boot idleRsp initRsp garbage) log k := by
  have both : Inv False k ∧ ∃ idleRsp initRsp garbage log,
      Stages (boot idleRsp initRsp garbage) log k := by
    refine reach.induct (P := fun k => Inv False k ∧ ∃ idleRsp initRsp garbage log,
      Stages (boot idleRsp initRsp garbage) log k)
      (fun r₁ r₂ g => ⟨boot_inv _ _ _ _, r₁, r₂, g, [], .none⟩) fun k op k' _ ih _ trans => ?_
    obtain ⟨i, r₁, r₂, g, log, stages⟩ := ih
    obtain ⟨log', logged⟩ := trans.logged
    exact ⟨(trans.effect i).inv i, r₁, r₂, g, _,
      stages.trans (logged.stages i)⟩
  exact both.2

end Stages

end SoTp.Process
