/-
Waiting processes and their records, in every state that a run reaches.

A process that is killed while BLOCKED stays in its queue or list until it is met
there. `kill` refuses to kill it once more, but Ctrl+C does not: a second press
makes it EXITED while it is still recorded, so that the scheduler frees a PCB that
a queue or the sleep list still refers to. Ctrl+C does not ask either whether the PCB
in the foreground is still there.

* `waits_recorded` — while every operation is `Orderly`, waiting processes and records
  agree.
* `waits_unrecorded` — with it, the sleep list comes to hold a freed PCB.
* `incTicks_terminates`, `incTicks_hangs` — the timer interrupt in the two cases.
-/

import SoTp.Process.Structure

namespace SoTp.Process

open SoTp.Lib Kernel

/-- `p` is recorded in a structure that is in use: the queue of a live semaphore,
the sleep list, or the table of a process that is not EXITED. -/
def Kernel.RecordedIn (k : Kernel) (p : Nat) : Slot → Prop
  | .queue semId => k.Live semId ∧ p ∈ k.queueOf semId
  | .sleep => p ∈ k.sleepers
  | .table pcb => k.stateOf pcb ≠ .exited ∧ p ∈ k.waitersOf pcb

/-- The processes that wait are the recorded ones, each recorded once, and no
record refers to a PCB that was freed. -/
structure WaitsRecorded (k : Kernel) : Prop where
  agree : ∃ nodes, SingleRing k nodes ∧ ∀ n ∈ nodes,
    (Waiting (k.stateOf (k.pcbOf n)) ↔ ∃! slot, k.RecordedIn (k.pcbOf n) slot)
  once : ∀ slot, (k.entries slot).Nodup
  held : ∀ slot, ∀ q ∈ k.entries slot, k.allocated q = true

section Records

variable {strict : Prop} {k : Kernel} {p : Nat}

theorem Mid.recordedIn_iff (m : Mid strict k) (slot : Slot) :
    k.RecordedIn p slot ↔ p ∈ k.entries slot := by
  cases slot with
  | queue semId =>
      refine ⟨And.right, fun queued => ⟨?_, queued⟩⟩
      -- A queue that is not empty belongs to a live semaphore.
      obtain ⟨sem, found⟩ : ∃ sem, k.semArray[semId]? = some sem := by
        cases found : k.semArray[semId]? with
        | none =>
            rw [entries_queue, queueOf, found] at queued
            cases queued
        | some sem => exact ⟨sem, rfl⟩
      rw [entries_queue, queueOf_some found] at queued
      by_contra dead
      rw [m.ids.closed semId sem found (by simpa [Live, found] using dead)] at queued
      cases queued
  | sleep => exact Iff.rfl
  | table pcb => exact mem_table.symm

theorem Inv.waitsRecorded (i : Inv True k) (c : Complete k) : WaitsRecorded k := by
  have m := i.toMid
  obtain ⟨nodes, single⟩ := i.ring.singleRing
  refine ⟨⟨nodes, single, fun n _ => ?_⟩, i.records.nodup, fun slot q hq => m.recorded_allocated hq⟩
  simp only [m.recordedIn_iff]
  constructor
  · intro waiting
    obtain ⟨slot, mem⟩ := c _ not_false waiting
    exact ⟨slot, mem, fun other mem' => i.records.once other slot _ mem' mem⟩
  · rintro ⟨slot, mem, -⟩
    exact (i.records.waits slot _ mem).resolve_right fun ⟨weak, _⟩ => weak trivial

end Records

/-- In every run in which Ctrl+C finds a PCB that is in memory and was not killed before, and
in which there is memory for the records. -/
theorem waits_recorded {k : Kernel} (reach : Reach (fun k op => k.Orderly op ∧ op.Recorded) k) :
    WaitsRecorded k :=
  (reach.inv fun _ _ _ ok => ok.1.firstKill).waitsRecorded (reach.complete fun _ _ ok => ok.2)

/-- `init` waits for a new process, which goes to sleep; Ctrl+C twice. -/
def doublePress : List Op :=
  [.createProcess ⟨true, true, true, true, true⟩ 0 0, .waitPid 1, .sleep 5 true, .ctrlC, .ctrlC]

/-- After the first press. -/
theorem waits_recorded_asleep : ∃ k, WaitsRecorded k ∧ k.sleepers = [6] ∧
    k.stateOf 6 = .waitingForExit ∧ k.waitersOf 6 = [4] := by
  have ran : (perform (fun k op => k.Orderly op ∧ op.Recorded) 40 (doublePress.take 4)
      (boot 0 0 0)).map (fun k => (k.sleepers, k.stateOf 6, k.waitersOf 6)) =
      some ([6], .waitingForExit, [4]) := by decide +kernel
  obtain ⟨k, run, state⟩ := Option.map_eq_some_iff.mp ran
  simp only [Prod.mk.injEq] at state
  exact ⟨k, waits_recorded ⟨0, 0, 0, perform_run run⟩, state⟩

/-- The second press makes the sleeper EXITED, and the next selection frees it. -/
theorem waits_unrecorded : ∃ k, Reach (fun _ op => op.Recorded) k ∧ ¬ WaitsRecorded k := by
  have ran : (perform (fun _ op => op.Recorded) 40 (doublePress ++ [.yield]) (boot 0 0 0)).map
      (fun k => (k.sleepers, k.allocated 6)) = some ([6], false) := by decide +kernel
  obtain ⟨k, run, state⟩ := Option.map_eq_some_iff.mp ran
  simp only [Prod.mk.injEq] at state
  refine ⟨k, ⟨0, 0, 0, perform_run run⟩, fun w => ?_⟩
  have held := w.held .sleep 6 (by rw [entries_sleep, state.1]; simp)
  rw [state.2] at held
  cases held

/-! ### The timer interrupt -/

/-- In every run in which Ctrl+C finds a PCB that is in memory and was not killed before. -/
theorem incTicks_terminates {k : Kernel} (reach : Reach Kernel.Orderly k) :
    ∃ n, ∀ fuel, n < fuel → ∃ out, k.incTicks fuel = .ok out :=
  incTicks_total (reach.inv fun _ _ _ ok => ok.firstKill)

/-- After the first press. -/
theorem incTicks_terminates_asleep : ∃ (k : Kernel) (out : Outcome),
    k.sleepers = [6] ∧ k.stateOf 6 = .waitingForExit ∧ ∃ fuel, k.incTicks fuel = .ok out := by
  have ran : (perform Kernel.Orderly 40 (doublePress.take 4) (boot 0 0 0)).map
      (fun k => (k.sleepers, k.stateOf 6)) = some ([6], .waitingForExit) := by decide +kernel
  obtain ⟨k, run, state⟩ := Option.map_eq_some_iff.mp ran
  simp only [Prod.mk.injEq] at state
  obtain ⟨n, returns⟩ := incTicks_terminates ⟨0, 0, 0, perform_run run⟩
  obtain ⟨out, returned⟩ := returns (n + 1) (Nat.lt_succ_self n)
  exact ⟨k, out, state.1, state.2, n + 1, returned⟩

/-- After the second press the sleeper is EXITED, and `incTicks` never returns. -/
theorem incTicks_hangs : ∃ k, Reach (fun _ _ => True) k ∧
    ∀ fuel, k.incTicks fuel = .error .fuel := by
  have ran : (perform (fun _ _ => True) 40 doublePress (boot 0 0 0)).map
      (fun k => (k.first, k.sleepPCB k.first, k.allocated 6, k.stateOf 6)) =
      some (7, 6, true, .exited) := by decide +kernel
  obtain ⟨k, run, state⟩ := Option.map_eq_some_iff.mp ran
  simp only [Prod.mk.injEq] at state
  obtain ⟨first, pcb, held, dead⟩ := state
  refine ⟨k, ⟨0, 0, 0, perform_run run⟩, incTicks_stuck ?_ ?_ ?_⟩
  · rw [first]
    decide
  · rw [pcb, held]
  · rw [pcb, dead]

end SoTp.Process
