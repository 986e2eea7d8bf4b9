/-
The table of the processes that wait for a process.

* `waitFor_iff` — `waitPid` records its caller and changes nothing else exactly as
  long as there is room in the table, which has ten entries; the next caller is
  written over `parentProc`, and the one after that over `wfmLen`.
* `Stage.attends` — a waiter stays BLOCKED, or is killed, until the process it waits
  for is EXITED, and becomes READY then.
-/

import SoTp.Process.Parts

namespace SoTp.Process

open SoTp.Lib Kernel

namespace Kernel

/-- `waitPid` from the recording of its caller up to its context switch. -/
def waitFor (pcb : Nat) (k : Kernel) : Exec Kernel := do
  let k ← k.recordWaiter pcb k.currentPCB
  let k := k.setState k.currentPCB .blocked
  return if k.pidOf k.currentPCB = k.foregroundPid then { k with processInForeground := pcb } else k

/-- There is an entry left in the table of `pcb`, or what lies behind it is `parentProc`
and holds the caller already. -/
def Room (k : Kernel) (pcb : Nat) : Prop :=
  (k.waitersOf pcb).length < 10 ∨
    (k.waitersOf pcb).length = 10 ∧ (k.pcbs pcb).parentProc = k.currentPCB

end Kernel

/-- The running process is BLOCKED and recorded in the table of `pcb`; no other field
of a PCB has changed, and outside of PCBs only `processInForeground`. -/
structure OnlyRecords (k : Kernel) (pcb : Nat) (j : Kernel) : Prop where
  pcbs : ∀ q, j.pcbs q = { k.pcbs q with
    waitingForMe := if q = pcb then k.waitersOf pcb ++ [k.currentPCB] else k.waitersOf q
    state := if q = k.currentPCB then .blocked else k.stateOf q }
  rest : j = { k with pcbs := j.pcbs, processInForeground := j.processInForeground }

section Recording

variable {k : Kernel} {pcb : Nat}

theorem waitPid_waitFor (fuel pid : Nat) (k : Kernel) : k.waitPid fuel pid =
    if pid = k.pidOf k.currentPCB then .ok k
    else k.getPCBByPid fuel pid >>= fun pcb =>
      if pcb = NULL ∨ k.stateOf pcb = .exited then .ok k
      else k.waitFor pcb >>= fun j => j.contextSwitch fuel := by
  unfold waitPid waitFor
  simp only [bind_assoc, pure_bind]
  rfl

theorem waitFor_ok {k₁ : Kernel} (run : k.recordWaiter pcb k.currentPCB = .ok k₁) :
    ∃ fg, (fg = pcb ∨ fg = k₁.processInForeground) ∧ k.waitFor pcb =
      .ok { k₁.setState k₁.currentPCB .blocked with processInForeground := fg } := by
  unfold waitFor
  rw [run, ok_bind]
  simp only []
  split_ifs
  · exact ⟨pcb, Or.inl rfl, rfl⟩
  · exact ⟨_, Or.inr rfl, rfl⟩

/-- The PCBs after the caller was recorded and blocked. -/
theorem recorded_pcbs (pcb : Nat) (f : PCB → PCB) (fg : Nat) (state : ∀ p, (f p).state = p.state)
    (q : Nat) :
    ({ (k.setPCB pcb f).setState k.currentPCB .blocked with processInForeground := fg } :
      Kernel).pcbs q =
      { (if q = pcb then f (k.pcbs pcb) else k.pcbs q) with
        state := if q = k.currentPCB then .blocked else k.stateOf q } := by
  change ((k.setPCB pcb f).setState k.currentPCB .blocked).pcbs q = _
  have recorded : (k.setPCB pcb f).pcbs q = if q = pcb then f (k.pcbs pcb) else k.pcbs q :=
    setPCB_pcbs
  have same : (k.setPCB pcb f).stateOf q = k.stateOf q := by
    rw [stateOf, recorded, stateOf]
    split_ifs with e
    · rw [state, e]
    · rfl
  rw [setState, setPCB_pcbs, ← recorded]
  split_ifs with here
  · rw [here]
  · rw [← same]
    rfl

/-- The caller is recorded, and nothing else changes, exactly when there is room. -/
theorem waitFor_iff : (∃ j, k.waitFor pcb = .ok j ∧ OnlyRecords k pcb j) ↔ k.Room pcb := by
  constructor
  · rintro ⟨j, run, only⟩
    by_contra full
    obtain ⟨long, parent⟩ : (k.waitersOf pcb).length ≥ 10 ∧
        ((k.waitersOf pcb).length = 10 → (k.pcbs pcb).parentProc ≠ k.currentPCB) := by
      simpa only [Room, not_or, not_and, not_lt] using full
    by_cases ten : (k.waitersOf pcb).length = 10
    · -- The caller is now the parent.
      obtain ⟨f, recorded, state, adopted⟩ : ∃ f : PCB → PCB,
          k.recordWaiter pcb k.currentPCB = .ok (k.setPCB pcb f) ∧ (∀ p, (f p).state = p.state) ∧
          ∀ p, (f p).parentProc = k.currentPCB :=
        ⟨_, (if_neg (by omega)).trans (if_pos ten), fun _ => rfl, fun _ => rfl⟩
      obtain ⟨fg, -, e⟩ := waitFor_ok recorded
      obtain rfl := Except.ok.inj (e.symm.trans run)
      have overwritten := congrArg PCB.parentProc
        ((recorded_pcbs _ f fg state pcb).symm.trans (only.pcbs pcb))
      simp only [if_true, adopted] at overwritten
      exact parent ten overwritten.symm
    · have fault : k.recordWaiter pcb k.currentPCB = .error .fault := by
        rw [recordWaiter, if_neg (by omega), if_neg ten]
      rw [waitFor, fault] at run
      cases run
  · intro room
    obtain ⟨f, recorded, state, same⟩ : ∃ f : PCB → PCB,
        k.recordWaiter pcb k.currentPCB = .ok (k.setPCB pcb f) ∧ (∀ p, (f p).state = p.state) ∧
        f (k.pcbs pcb) = { k.pcbs pcb with waitingForMe := k.waitersOf pcb ++ [k.currentPCB] } := by
      unfold recordWaiter
      rcases room with short | ⟨ten, parent⟩
      · exact ⟨_, if_pos short, fun _ => rfl, rfl⟩
      · exact ⟨_, (if_neg (by omega)).trans (if_pos ten), fun _ => rfl, by rw [← parent]; rfl⟩
    obtain ⟨fg, -, e⟩ := waitFor_ok recorded
    refine ⟨_, e, fun q => (recorded_pcbs _ f fg state q).trans ?_, rfl⟩
    split_ifs with here there there
    all_goals simp only [here, same] <;> rfl

end Recording

/-! ### Waiting -/

section Waiting

variable {k j k' : Kernel} {p q : Nat} {log : List Event} {op : Op}

/-- What becomes of `q`, BLOCKED in the table of `p`. -/
def Attends (p q : Nat) (j : Kernel) : Prop :=
  (j.stateOf p = .exited → j.stateOf q = .ready) ∧
    (j.stateOf p ≠ .exited → q ∈ j.waitersOf p ∧ Waiting (j.stateOf q))

theorem attends_of_same (alive : k.stateOf p ≠ .exited) (mem : q ∈ k.waitersOf p)
    (blocked : k.stateOf q = .blocked) (exited : j.stateOf p = .exited → k.stateOf p = .exited)
    (waiter : j.stateOf q = k.stateOf q) (table : q ∈ k.waitersOf p → q ∈ j.waitersOf p) :
    Attends p q j :=
  ⟨fun dead => absurd (exited dead) alive, fun _ => ⟨table mem, Or.inl (waiter.trans blocked)⟩⟩

/-- An exit wakes the waiters of those who become EXITED, and no others. -/
theorem exit_attends {fuel r : Nat} {exitCode : Int} {out : Outcome} (m : Mid False k)
    (current : Awake (k.stateOf k.currentPCB)) (root : k.stateOf r ≠ .exited)
    (run : exitProcessByPCB fuel r exitCode k = .ok out) (alive : k.stateOf p ≠ .exited)
    (mem : q ∈ k.waitersOf p) (blocked : k.stateOf q = .blocked) : Attends p q out.kernel := by
  by_cases rootBlocked : k.stateOf r = .blocked
  · have killed : ∀ s, (k.markWaitingForExit r).stateOf s =
        if s = r then .waitingForExit else k.stateOf s := fun s => by
      rw [markWaitingForExit, stateOf, setPCB_pcbs]
      split_ifs <;> rfl
    rw [(exit_blocked rootBlocked run).1]
    refine ⟨fun dead => ?_, fun _ => ⟨?_, ?_⟩⟩
    · rw [killed] at dead
      split_ifs at dead
      exact absurd dead alive
    · rw [waitersOf, markWaitingForExit, setPCB_pcbs]
      split_ifs with e
      · exact e ▸ mem
      · exact mem
    · rw [killed]
      split_ifs
      · exact Or.inr rfl
      · exact Or.inl blocked
  · obtain ⟨-, exits⟩ := exitProcessByPCB_spec (m.bystanders current) rootBlocked root run
    have ne : q ≠ r := fun e => rootBlocked (e ▸ blocked)
    refine ⟨fun dead => ?_, fun living => ⟨by rwa [exits.waitersOf], ?_⟩⟩
    · -- `q` does not wait any more, and waiters become READY.
      have settled := exits.settled p alive dead q mem
      rcases exits.changes q ne with same | ⟨-, ⟨-, ready⟩ | ⟨w, -⟩, -⟩
      · exact absurd (Or.inl (same.trans blocked)) settled
      · exact ready
      · rw [blocked] at w
        cases w
    · -- Only the exit of `p` could have woken it.
      refine Or.inl (((exits.changes q ne).resolve_right fun moved => ?_).trans blocked)
      obtain ⟨⟨s, mem', alive', dead⟩, -⟩ := moved
      have one := m.records.once (.table s) (.table p) q (mem_table.mpr ⟨alive', mem'⟩)
        (mem_table.mpr ⟨alive, mem⟩)
      cases one
      exact living dead

theorem switch_attends {fuel : Nat} (m : Mid False k) (run : k.contextSwitch fuel = .ok j)
    (alive : k.stateOf p ≠ .exited) (mem : q ∈ k.waitersOf p) (blocked : k.stateOf q = .blocked) :
    Attends p q j := by
  have selects := (contextSwitch_of_ok m.ring m.sched run).selects
  refine attends_of_same alive mem blocked (selects.exited_iff p).mp
    (selects.waiting_eq (Or.inl blocked)) fun mem => ?_
  rwa [selects.waitersOf]

theorem Stirs.attends (s : Stirs k j) (alive : k.stateOf p ≠ .exited) (mem : q ∈ k.waitersOf p)
    (blocked : k.stateOf q = .blocked) : Attends p q j := by
  refine attends_of_same alive mem blocked (fun dead => ?_) ?_ fun mem => ?_
  · rcases s.states p with same | ⟨-, -, ready, -⟩
    · exact same ▸ dead
    · rw [ready] at dead
      cases dead
  · exact (s.states q).resolve_right fun ⟨_, _, _, outside⟩ =>
      outside blocked p (mem_table.mpr ⟨alive, mem⟩)
  · rwa [waitersOf, s.samePCB]

/-- Blocking another process than `q` does not concern it. -/
theorem setState_attends {r : Nat} {s : State} (new : s ≠ .exited) (ne : q ≠ r)
    (alive : k.stateOf p ≠ .exited) (mem : q ∈ k.waitersOf p) (blocked : k.stateOf q = .blocked) :
    Attends p q (k.setState r s) := by
  refine attends_of_same alive mem blocked (fun dead => ?_) (stateOf_setState_ne ne) fun mem => ?_
  · rw [stateOf_setState] at dead
    split_ifs at dead
    · exact absurd dead new
    · exact dead
  · rwa [setState_waitersOf]

theorem Opening.attends (i : Inv False k) (o : Opening k op log j)
    (alive : k.stateOf p ≠ .exited) (mem : q ∈ k.waitersOf p) (blocked : k.stateOf q = .blocked) :
    Attends p q j := by
  have ne : q ≠ k.currentPCB := fun e => i.current.active.1 (Or.inl (e ▸ blocked))
  cases o with
  | none => exact attends_of_same alive mem blocked id rfl id
  | exits _ root run => exact exit_attends i.toMid i.current root run alive mem blocked
  | records _ _ _ _ _ recorded =>
      obtain ⟨f, rfl, spec⟩ := recordWaiter_ok recorded
      refine attends_of_same alive mem blocked (fun dead => ?_) ?_ fun mem => ?_
      · rw [stateOf, recorded_pcbs _ f _ fun p => (spec p).2.1] at dead
        simp only [] at dead
        split_ifs at dead
        exact dead
      · rw [stateOf, recorded_pcbs _ f _ fun p => (spec p).2.1]
        exact if_neg ne
      · rw [waitersOf, recorded_pcbs _ f _ fun p => (spec p).2.1]
        simp only []
        split_ifs with e
        · rw [(spec _).2.2.1, ← e]
          exact List.mem_append_left _ mem
        · exact mem
  | @blocks k₁ _ _ _ pcbs =>
      have same : ∀ s, k₁.stateOf s = k.stateOf s := fun s => by rw [stateOf, pcbs, stateOf]
      have table : k₁.waitersOf p = k.waitersOf p := by rw [waitersOf, pcbs, waitersOf]
      exact setState_attends (by simp) ne (same p ▸ alive) (table ▸ mem) (same q ▸ blocked)
  | blocksByUser awake =>
      exact setState_attends (by simp)
        (fun e => awake.active.1 (Or.inl (e ▸ blocked))) alive mem blocked
  | creates _ _ rsp garbage =>
      have old : ∀ s, k.stateOf s ≠ .exited → s < k.unused := fun s living => by
        by_contra ge
        exact living (i.fresh (n := s) (by omega)).2
      refine attends_of_same alive mem blocked (fun dead => ?_)
        (added_stateOf_old (old q (by simp [blocked]))) fun mem => ?_
      · exact (added_stateOf_old (old p alive)).symm.trans dead
      · have := old p alive
        rwa [waitersOf, added_pcbs, if_neg (by omega)]
  | fails => exact attends_of_same alive mem blocked id rfl id

/-- A waiter waits until the process it waits for is EXITED, and is READY then. -/
theorem Stage.attends (stage : Stage k log j) (alive : k.stateOf p ≠ .exited)
    (mem : q ∈ k.waitersOf p) (blocked : k.stateOf q = .blocked) : Attends p q j := by
  cases stage with
  | opens inv _ opening => exact opening.attends inv alive mem blocked
  | part mid part =>
      cases part with
      | switch run => exact switch_attends mid run alive mem blocked
      | exits killed current run =>
          exact exit_attends mid current (by rw [killed]; simp) run alive mem blocked
      | stirs stirs => exact stirs.attends alive mem blocked

theorem Stages.reach {admits : Kernel → Op → Prop} (reach : Reach admits k)
    (trans : Trans k op k') : ∃ log, Stages k log k' := by
  obtain ⟨log, logged⟩ := trans.logged
  exact ⟨log, logged.stages (reach.sound)⟩

end Waiting

/-- In every run: a caller of `waitPid` is recorded, and nothing else happens to a PCB,
exactly when there is room for it; an operation is a run of stages; and in every stage
of a run, a waiter that is BLOCKED becomes READY if the process it waits for becomes
EXITED, and else goes on waiting or is killed. -/
theorem no_waiter_lost {k : Kernel} (reach : Reach (fun _ _ => True) k) :
    (∀ fuel pid pcb, pid ≠ k.pidOf k.currentPCB → k.getPCBByPid fuel pid = .ok pcb → pcb ≠ NULL →
      k.stateOf pcb ≠ .exited →
      k.waitPid fuel pid = (k.waitFor pcb >>= fun j => j.contextSwitch fuel) ∧
        ((∃ j, k.waitFor pcb = .ok j ∧ OnlyRecords k pcb j) ↔ k.Room pcb)) ∧
    (∀ op k', Trans k op k' → ∃ log, Stages k log k') ∧
    ∀ log j, Stages k log j → ∀ log' j', Stage j log' j' → ∀ p q, j.stateOf p ≠ .exited →
      q ∈ j.waitersOf p → j.stateOf q = .blocked → Attends p q j' := by
  refine ⟨fun fuel pid pcb other found some alive => ⟨?_, waitFor_iff⟩,
    fun _ _ trans => Stages.reach reach trans,
    fun _ _ _ _ _ stage _ _ alive mem blocked => stage.attends alive mem blocked⟩
  rw [waitPid_waitFor, if_neg other, found, ok_bind, if_neg (by simp [some, alive])]

/-- `init` waits for a process, which exits. -/
theorem no_waiter_lost_exit : ∃ (k j : Kernel) (log : List Event) (j' : Kernel),
    (∃ j, k.waitFor 6 = .ok j ∧ OnlyRecords k 6 j) ∧ Stage j log j' ∧ j'.stateOf 6 = .exited ∧
      j.stateOf 4 = .blocked ∧ j'.stateOf 4 = .ready := by
  have ran : (perform (fun _ _ => True) 40 [.createProcess ⟨true, true, true, true, true⟩ 0 0]
      (boot 0 0 0)).map (fun k => decide ((k.getPCBByPid 40 1).toOption = some 6 ∧
        k.pidOf k.currentPCB = 0 ∧ k.stateOf 6 = .ready ∧ (k.waitersOf 6).length = 0 ∧
        (perform (fun _ _ => True) 40 [.waitPid 1] k).map (fun k => decide (¬ k.idle ∧
          k.currentPCB = 6 ∧ k.stateOf 6 = .running ∧ k.waitersOf 6 = [4] ∧ k.stateOf 4 = .blocked ∧
          (exitProcessByPCB 40 6 7 k).toOption.map (fun out => out.kernel.stateOf 6) =
            some .exited)) = some true)) = some true := by decide +kernel
  obtain ⟨k, run, state⟩ := Option.map_eq_some_iff.mp ran
  obtain ⟨search, own, alive, room, waits⟩ := of_decide_eq_true state
  obtain ⟨j, waited, state⟩ := Option.map_eq_some_iff.mp waits
  obtain ⟨busy, here, running, table, blocked, exits⟩ := of_decide_eq_true state
  obtain ⟨out, exited, dead⟩ := Option.map_eq_some_iff.mp exits
  have reach : Reach (fun _ _ => True) k := ⟨0, 0, 0, perform_run run⟩
  have reach' : Reach (fun _ _ => True) j := ⟨0, 0, 0, (perform_run run).trans (perform_run waited)⟩
  obtain ⟨recording, -, -⟩ := no_waiter_lost reach
  obtain ⟨-, -, waiting⟩ := no_waiter_lost reach'
  have exiting : Exiting j 6 7 (.exit 7) := ⟨here.symm, rfl⟩
  have enabled : j.Enabled (.exit 7) := busy
  have stage := Stage.opens (reach'.sound) enabled
    (Opening.exits exiting (by simp [running]) (ok_of_toOption exited))
  refine ⟨k, j, _, out.kernel, ?_, stage, dead, blocked, ?_⟩
  · exact (recording 40 1 6 (by simp [own]) (ok_of_toOption search) (by decide)
      (by simp [alive])).2.mpr (Or.inl (by omega))
  · exact (waiting [] j .none _ _ stage 6 4 (by simp [running]) (by simp [table]) blocked).1 dead

/-- Eleven processes wait for the first one that `init` has created. -/
def elevenWaiters : List Op :=
  List.replicate 11 (.createProcess ⟨true, true, true, true, true⟩ 0 0) ++ [.waitPid 1, .yield] ++
    List.replicate 10 (.waitPid 1)

/-- The eleventh waiter becomes the parent. -/
theorem eleventh_waiter_overwrites : ∃ k k' : Kernel, Reach (fun _ _ => True) k ∧
    k.getPCBByPid 60 1 = .ok 6 ∧ k.stateOf 6 ≠ .exited ∧ k.currentPCB = 26 ∧
    (¬ ∃ j, k.waitFor 6 = .ok j ∧ OnlyRecords k 6 j) ∧ Trans k (.waitPid 1) k' ∧
    (k.pcbs 6).parentProc = 4 ∧ (k'.pcbs 6).parentProc = 26 := by
  have ran : (perform (fun _ _ => True) 60 (elevenWaiters.take 22) (boot 0 0 0)).map
      (fun k => decide ((k.getPCBByPid 60 1).toOption = some 6 ∧ k.stateOf 6 = .ready ∧
        k.currentPCB = 26 ∧ (k.waitersOf 6).length = 10 ∧ (k.pcbs 6).parentProc = 4 ∧ ¬ k.idle ∧
        (k.waitPid 60 1).toOption.map (fun k => (k.pcbs 6).parentProc) = some 26)) =
      some true := by decide +kernel
  obtain ⟨k, run, state⟩ := Option.map_eq_some_iff.mp ran
  obtain ⟨search, ready, here, ten, parent, busy, waits⟩ := of_decide_eq_true state
  obtain ⟨k', waited, overwritten⟩ := Option.map_eq_some_iff.mp waits
  refine ⟨k, k', ⟨0, 0, 0, perform_run run⟩, ok_of_toOption search, by simp [ready], here, ?_,
    ⟨busy, 60, ok_of_toOption waited⟩, parent, overwritten⟩
  rw [waitFor_iff]
  rintro (short | ⟨-, adopted⟩) <;> omega

end SoTp.Process
