/-
The process in the foreground. `waitPid` passes the foreground on to the process that
is waited for, and the exit of that process gives it to its parent, which need not be
the process it came from, nor alive.

* `Held.stage` — what one stage of a run does to the foreground.
* `foreground_alive` — as long as every exit finds a living parent, a living process
  of the list is in the foreground.
-/

import SoTp.Process.Structure
import SoTp.Process.Waiters

namespace SoTp.Process

open SoTp.Lib Kernel

/-- Wherever an exit gives the foreground to the parent, the parent is in memory and not
EXITED; the exit of pid 0, which has no parent, apart. -/
def HandedOn (log : List Event) : Prop :=
  ∀ pid living, .handOver pid living ∈ log → living = true ∨ pid = 0

/-- The process in the foreground is not EXITED, or pid 0 is. -/
def Held (k : Kernel) : Prop :=
  k.stateOf k.processInForeground ≠ .exited ∨ ∀ p, k.pidOf p = 0 → k.stateOf p = .exited

theorem HandedOn.append {log log' : List Event} (h : HandedOn (log ++ log')) :
    HandedOn log ∧ HandedOn log' :=
  ⟨fun pid living mem => h pid living (List.mem_append_left _ mem),
    fun pid living mem => h pid living (List.mem_append_right _ mem)⟩

/-- A piece of an exit. What is freed is EXITED, before and after. -/
structure Passes (k : Kernel) (log : List Event) (k' : Kernel) : Prop where
  ring : SameRing k k'
  follows : Ring k → (∀ p, k.allocated p = false → k.stateOf p = .exited) →
    (∀ p, k'.allocated p = false → k'.stateOf p = .exited) ∧ (HandedOn log → Held k → Held k')

section Steps

variable {k j k' : Kernel} {log : List Event} {op : Op}

/-- A step after which the same processes are EXITED. -/
theorem Held.frame (h : Held k) (exited : ∀ p, j.stateOf p = .exited ↔ k.stateOf p = .exited)
    (pids : ∀ p, j.pidOf p = k.pidOf p)
    (foreground : j.processInForeground = k.processInForeground ∨
      k.stateOf j.processInForeground ≠ .exited) : Held j := by
  rcases h with alive | dead
  · refine Or.inl fun dead => ?_
    rcases foreground with same | living
    · exact alive ((exited _).mp (same ▸ dead))
    · exact living ((exited _).mp dead)
  · exact Or.inr fun p init => (exited p).mpr (dead p ((pids p).symm.trans init))

/-- The exit of one process. -/
theorem Held.marked {p : Nat} (h : Held k) (ring : Ring k)
    (freed : ∀ q, k.allocated q = false → k.stateOf q = .exited) (held : k.allocated p = true)
    (handed : HandedOn (k.markExitedLog p)) : Held (k.markExited p) := by
  obtain ⟨_, _, _, ring, _⟩ := ring
  obtain ⟨frame, states⟩ := markExited_frame (k := k) p
  rcases h with living | dead
  · by_cases same : (k.setState p .exited).pidOf p = (k.setState p .exited).foregroundPid
    · -- The foreground goes to the parent.
      have foreground : (k.markExited p).processInForeground =
          ((k.setState p .exited).pcbs p).parentProc := by
        rw [markExited, if_pos same]
      have marked : ∀ q, (k.markExited p).stateOf q = (k.setState p .exited).stateOf q :=
          fun q => by
        rw [states, stateOf_setState]
      rw [markExitedLog, if_pos same] at handed
      rcases handed _ _ (List.mem_singleton_self _) with parent | init
      · rw [Bool.and_eq_true, bne_iff_ne] at parent
        refine Or.inl ?_
        rw [marked, foreground]
        exact parent.2
      · -- It was pid 0 that exited.
        refine Or.inr fun q pid => ?_
        by_contra alive
        rw [states] at alive
        split_ifs at alive with e
        · exact alive rfl
        · refine e (ring.allocated_inj ?_ held ?_)
          · by_contra gone
            exact alive (freed q (by simpa using gone))
          · have here : k.pidOf p = 0 :=
              (setPCB_sameRing rfl : SameRing k (k.setState p .exited)).pids p ▸ init
            rw [here, ← pid, frame.ring.pids]
    · have foreground : (k.markExited p).processInForeground = k.processInForeground := by
        rw [markExited, if_neg same]
        rfl
      have other : k.processInForeground ≠ p := fun e => same <| by
        have there :
            (k.setState p .exited).allocated (k.setState p .exited).processInForeground = true :=
          (congrArg k.allocated e).trans held
        rw [foregroundPid, if_pos there]
        exact congrArg _ e.symm
      refine Or.inl ?_
      rw [foreground, states, if_neg other]
      exact living
  · refine Or.inr fun q init => ?_
    rw [states]
    split_ifs
    · rfl
    · exact dead q ((frame.ring.pids q).symm.trans init)

theorem Passes.trans {log' : List Event} (first : Passes k log j) (rest : Passes j log' k') :
    Passes k (log ++ log') k' := by
  refine ⟨first.ring.trans rest.ring, fun ring freed => ?_⟩
  obtain ⟨freed, step⟩ := first.follows ring freed
  obtain ⟨freed, step'⟩ := rest.follows (ring.congr first.ring) freed
  exact ⟨freed, fun handed h => step' handed.append.2 (step handed.append.1 h)⟩

theorem marked_passes {p : Nat} (held : k.allocated p = true) :
    Passes k (k.markExitedLog p) (k.markExited p) := by
  obtain ⟨frame, states⟩ := markExited_frame (k := k) p
  refine ⟨frame.ring, fun ring freed => ⟨fun q gone => ?_, fun handed h =>
    h.marked ring freed held handed⟩⟩
  rw [states]
  split_ifs
  · rfl
  · exact freed q (frame.ring.allocated ▸ gone)

theorem wake_passes {q : Nat} {exitCode : Int} (blocked : k.stateOf q = .blocked) :
    Passes k []
      (k.setPCB q fun p => { p with state := .ready, waitedProcessExitCode := exitCode }) := by
  generalize woken : (k.setPCB q fun p => { p with
    state := .ready, waitedProcessExitCode := exitCode }) = k'
  have exited : ∀ s, k'.stateOf s = .exited ↔ k.stateOf s = .exited := fun s => by
    rw [← woken, stateOf, setPCB_pcbs]
    split_ifs with e
    · simp [e, blocked]
    · rfl
  have ring : SameRing k k' := woken ▸ setPCB_sameRing rfl
  refine ⟨ring, fun _ freed => ⟨fun s gone => ?_, fun _ h => ?_⟩⟩
  · exact (exited s).mpr (freed s (ring.allocated ▸ gone))
  · exact h.frame exited ring.pids (Or.inl (by rw [← woken]; rfl))

/-- An exit, with all that depends on it. -/
theorem Held.exits {fuel p : Nat} {exitCode : Int} {out : Outcome} (h : Held k) (m : Mid False k)
    (run : exitProcessByPCB fuel p exitCode k = .ok out)
    (handed : HandedOn (exitProcessByPCBLog fuel p exitCode k)) : Held out.kernel := by
  by_cases blocked : k.stateOf p = .blocked
  · rw [(exit_blocked blocked run).1]
    refine h.frame (fun q => ?_) (fun q => ?_) (Or.inl rfl)
    · rw [markWaitingForExit, stateOf, setPCB_pcbs]
      split_ifs with e
      · simp [e, blocked]
      · rfl
    · rw [markWaitingForExit, pidOf, setPCB_pcbs, pidOf]
      split_ifs with e
      · rw [e]
      · rfl
  · have passes : Passes k (exitProcessByPCBLog fuel p exitCode k) out.kernel := by
      refine exit_log_induct (R := Passes) (fun k => ?_)
        (fun k l j l' k' first rest => first.trans rest)
        (fun k p held _ _ => marked_passes held)
        (fun k q exitCode _ isBlocked => wake_passes isBlocked)
        blocked run
      exact ⟨SameRing.refl k, fun _ freed => ⟨freed, fun _ h => h⟩⟩
    exact (passes.follows m.ring m.sched.freed).2 handed h

theorem Held.part (h : Held k) (m : Mid False k) (part : Part k log j) (handed : HandedOn log) :
    Held j := by
  cases part with
  | switch run =>
      have selects := (contextSwitch_of_ok m.ring m.sched run).selects
      exact h.frame selects.exited_iff selects.pidOf (Or.inl selects.foreground)
  | exits _ _ run => exact h.exits m run handed
  | stirs stirs =>
      refine h.frame (fun p => ?_) stirs.ring.pids (Or.inl stirs.foreground)
      rcases stirs.states p with same | ⟨alive, -, ready, -⟩
      · rw [same]
      · simp [alive, ready]

theorem Held.opening (h : Held k) (i : Inv False k) (opening : Opening k op log j)
    (handed : HandedOn log) : Held j := by
  -- Whoever is blocked was not EXITED.
  have blocks : ∀ (k₁ : Kernel) p s, (∀ q, k₁.pcbs q = k.pcbs q) → k.stateOf p ≠ .exited →
      s ≠ .exited → ∀ q, (k₁.setState p s).stateOf q = .exited ↔ k.stateOf q = .exited := by
    intro k₁ p s same alive new q
    rw [stateOf_setState]
    split_ifs with e
    · simp [e, alive, new]
    · rw [stateOf, same, stateOf]
  cases opening with
  | none => exact h
  | exits _ _ run => exact h.exits i.toMid run handed
  | @records _ _ pcb _ _ _ _ _ alive recorded =>
      obtain ⟨f, rfl, spec⟩ := recordWaiter_ok recorded
      have pcbs := recorded_pcbs (k := k) pcb f
        (if k.pidOf k.currentPCB = k.foregroundPid then pcb else k.processInForeground)
        (fun p => (spec p).2.1)
      refine h.frame (fun p => ?_) (fun p => ?_) ?_
      · rw [stateOf, pcbs]
        simp only []
        split_ifs with e
        · simp [e, i.current.active.2]
        · rfl
      · rw [pidOf, pcbs]
        simp only []
        split_ifs with e
        · rw [(spec _).1, e]
          rfl
        · rfl
      · simp only []
        split_ifs
        · exact Or.inr alive
        · exact Or.inl rfl
  | blocks ring foreground _ pcbs =>
      have pids :=
        (ring.trans (setPCB_sameRing rfl : SameRing _ (setState _ k.currentPCB .blocked))).pids
      exact h.frame (blocks _ _ _ (congrFun pcbs) i.current.active.2 (by simp)) pids
        (Or.inl foreground)
  | blocksByUser awake =>
      exact h.frame (blocks _ _ _ (fun _ => rfl) awake.active.2 (by simp))
        (setPCB_sameRing rfl : SameRing k _).pids (Or.inl rfl)
  | creates _ _ rsp garbage =>
      have foreground : (added k rsp garbage).processInForeground = k.processInForeground := by
        rw [added_rest]
      rcases h with alive | dead
      · have lt : k.processInForeground < k.unused := by
          by_contra ge
          exact alive (i.fresh (by omega)).2
        refine Or.inl ?_
        rw [foreground, added_stateOf_old lt]
        exact alive
      · -- The new process is not pid 0.
        obtain ⟨_, _, _, ring, _⟩ := i.ring
        have := (ring.used _ ring.cursor_mem).2.2.1
        refine Or.inr fun p init => ?_
        rw [pidOf, added_pcbs] at init
        rw [added_stateOf]
        split_ifs at init ⊢
        · change k.pid = 0 at init
          omega
        · exact dead p init
  | fails => exact h

theorem Held.parts (h : Held k) (parts : Parts k log k') (handed : HandedOn log) : Held k' := by
  induction parts with
  | none => exact h
  | more before mid part ih => exact (ih handed.append.1).part mid part handed.append.2

theorem Held.operation (h : Held k) (i : Inv False k) (logged : Logged k op log k')
    (handed : HandedOn log) : Held k' := by
  obtain ⟨j, _, _, opening, -, parts, rfl⟩ := parts_of_exec i logged
  exact (h.opening i opening handed.append.1).parts parts handed.append.2

theorem boot_held (idleRsp initRsp : Nat) (garbage : Int) :
    Held (boot idleRsp initRsp garbage) := by
  have foreground : (boot idleRsp initRsp garbage).processInForeground = 4 := rfl
  refine Or.inl ?_
  rw [foreground, boot_stateOf]
  decide

/-- Every exit of the operation that gives the foreground away gives it to a living
parent. -/
def HandsOn (k : Kernel) (op : Op) : Prop := ∀ log k', Logged k op log k' → HandedOn log

theorem Reach.held (reach : Reach HandsOn k) : Inv False k ∧ Held k := by
  refine reach.induct (P := fun k => Inv False k ∧ Held k)
    (fun r₁ r₂ g => ⟨boot_inv _ _ _ _, boot_held r₁ r₂ g⟩)
    fun k op k' _ ih hands trans => ?_
  obtain ⟨log, logged⟩ := trans.logged
  exact ⟨(trans.effect ih.1).inv ih.1,
    ih.2.operation ih.1 logged (hands log k' logged)⟩

end Steps

/-! ### Who gives the foreground away -/

section Switch

variable {σ ρ τ : Type} {k : Kernel} {fuel : Nat}

theorem mem_loopLog {body : σ → Exec (Pass σ ρ)} {log : σ → List τ} {s : σ} {e : τ}
    (mem : e ∈ loopLog body log fuel s) : ∃ s', e ∈ log s' := by
  induction fuel generalizing s with
  | zero => cases mem
  | succ fuel ih =>
      rcases List.mem_append.mp mem with here | later
      · exact ⟨s, here⟩
      · split at later
        · exact ih later
        · cases later

/-- `schedule` leaves the foreground alone. -/
theorem contextSwitchLog_handedOn : HandedOn (k.contextSwitchLog fuel) := by
  intro pid living mem
  unfold contextSwitchLog scheduleLog selectLog at mem
  simp only [] at mem
  split_ifs at mem
  · cases List.mem_singleton.mp mem
  all_goals
    obtain ⟨j, mem⟩ := mem_loopLog mem
    unfold selectRoundLog freeCurrentProcessLog reapLog at mem
    simp only [] at mem
    split_ifs at mem <;> simp at mem

end Switch

/-- In every run in which the exits that give the foreground away find a living parent:
as long as pid 0 is not EXITED, a process of the list that is not EXITED either is in the
foreground. -/
theorem foreground_alive {k : Kernel} (reach : Reach HandsOn k)
    (init : ∃ p, k.pidOf p = 0 ∧ k.stateOf p ≠ .exited) :
    k.processInForeground ≠ NULL ∧ k.stateOf k.processInForeground ≠ .exited ∧
      ∃ nodes, SingleRing k nodes ∧ ∃ n ∈ nodes, k.pcbOf n = k.processInForeground := by
  obtain ⟨i, held⟩ := reach.held
  have alive : k.stateOf k.processInForeground ≠ .exited := by
    obtain ⟨p, pid, living⟩ := init
    exact held.resolve_right fun dead => living (dead p pid)
  obtain ⟨before, cursor, after, ring, here⟩ := i.ring
  obtain ⟨-, ne, member⟩ := ring.members _ (i.toMid.allocated alive)
  exact ⟨ne, alive, _, ring.singleRing here, member.resolve_left i.family.foreground⟩

theorem createProcess_handsOn (k : Kernel) (mem : ProcessMemory) (rsp : Nat) (garbage : Int) :
    HandsOn k (.createProcess mem rsp garbage) := by
  rintro log k' ⟨-, fuel, -, rfl⟩ pid living mem
  cases mem

theorem waitPid_handsOn (k : Kernel) (pid : Nat) : HandsOn k (.waitPid pid) := by
  rintro log k' ⟨-, fuel, -, rfl⟩ exiting living mem
  change _ ∈ k.waitPidLog fuel pid at mem
  unfold waitPidLog at mem
  split_ifs at mem
  · cases mem
  · obtain ⟨pcb, -, mem⟩ := mem_after mem
    split_ifs at mem
    · cases mem
    · obtain ⟨k₁, -, mem⟩ := mem_after mem
      exact contextSwitchLog_handedOn _ _ mem

/-- `init` waits for the process it has created, which is in the foreground then. -/
theorem foreground_alive_waited : ∃ k : Kernel, k.processInForeground = 6 ∧
    k.stateOf 6 ≠ .exited := by
  let create : Op := .createProcess ⟨true, true, true, true, true⟩ 0 0
  have ran :
      ((boot 0 0 0).exec 40 create).toOption.map (fun j => decide ((boot 0 0 0).Enabled create ∧
      j.Enabled (.waitPid 1) ∧ (j.exec 40 (.waitPid 1)).toOption.map (fun k => decide (
        k.processInForeground = 6 ∧ k.pidOf 4 = 0 ∧ k.stateOf 4 ≠ .exited)) = some true)) =
      some true := by decide +kernel
  obtain ⟨j, created, state⟩ := Option.map_eq_some_iff.mp ran
  obtain ⟨can, can', waits⟩ := of_decide_eq_true state
  obtain ⟨k, waited, state⟩ := Option.map_eq_some_iff.mp waits
  obtain ⟨foreground, pid, alive⟩ := of_decide_eq_true state
  have start : Reach HandsOn (boot 0 0 0) := ⟨0, 0, 0, .refl⟩
  have reach := (start.step (createProcess_handsOn _ _ _ _) ⟨can, 40, ok_of_toOption created⟩).step
    (waitPid_handsOn _ _) ⟨can', 40, ok_of_toOption waited⟩
  exact ⟨k, foreground, foreground ▸ (foreground_alive reach ⟨4, pid, alive⟩).2.1⟩

/-- A process exits after its parent was freed, while `init` waits for it: the freed
process is in the foreground, and `init` is alive. -/
theorem orphan_leaves_dangling_foreground : ∃ k : Kernel, Reach (fun _ _ => True) k ∧
    k.pidOf 4 = 0 ∧ k.stateOf 4 ≠ .exited ∧ k.processInForeground = 6 ∧ k.allocated 6 = false ∧
    k.stateOf 6 = .exited := by
  have ran :
      (perform (fun _ _ => True) 40 [.createProcess ⟨true, true, true, true, true⟩ 0 0, .yield,
      .createProcess ⟨true, true, true, true, true⟩ 0 0, .exit 0, .yield, .waitPid 2, .exit 0]
      (boot 0 0 0)).map (fun k => decide (k.pidOf 4 = 0 ∧ k.stateOf 4 ≠ .exited ∧
        k.processInForeground = 6 ∧ k.allocated 6 = false ∧ k.stateOf 6 = .exited)) =
      some true := by decide +kernel
  obtain ⟨k, run, state⟩ := Option.map_eq_some_iff.mp ran
  exact ⟨k, ⟨0, 0, 0, perform_run run⟩, of_decide_eq_true state⟩

end SoTp.Process
