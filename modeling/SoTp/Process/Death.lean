/-
Death is final. A process that was killed or has exited is not woken by any of the
ways to wake one up, its pid is not given to another process, and `schedule` does
not pick it.

* `Moves.dead_mono` — one operation.
* `no_process_runs_after_death` — a run.
-/

import SoTp.Process.Runs

namespace SoTp.Process

open SoTp.Lib Kernel

def Dead (s : State) : Prop := s = .waitingForExit ∨ s = .exited

/-- `p` has the pid `pid`, and no other process in memory has it. -/
structure Named (pid p : Nat) (k : Kernel) : Prop where
  lt : p < k.unused
  named : k.pidOf p = pid
  counter : pid < k.pid
  unique : ∀ q, k.allocated q = true → k.pidOf q = pid → q = p

/-- `p` is dead, and `pid` is the pid of no other process in memory. -/
structure Buried (pid p : Nat) (k : Kernel) : Prop where
  dead : Dead (k.stateOf p)
  lt : p < k.unused
  named : k.pidOf p = pid
  counter : pid < k.pid
  unique : ∀ q, k.allocated q = true → k.pidOf q = pid → q = p

section Death

variable {touched : Subject → Prop} {k k' : Kernel} {pid p : Nat}

theorem Moves.dead_mono (h : Moves touched k k') (lt : p < k.unused) (dead : Dead (k.stateOf p)) :
    Dead (k'.stateOf p) := by
  rcases dead with killed | exited
  · exact h.killed p lt killed
  · exact Or.inr (h.dead p lt exited)

theorem Buried.current_ne (b : Buried pid p k) (current : Awake (k.stateOf k.currentPCB)) :
    k.currentPCB ≠ p := by
  rintro rfl
  rcases b.dead with e | e <;> rw [e] at current <;> simp [Awake] at current

theorem Inv.named {strict : Prop} (i : Inv strict k) (held : k.allocated p = true)
    (ne : p ≠ k.idlePCB) : Named (k.pidOf p) p k := by
  obtain ⟨_, _, _, ring, _⟩ := i.ring
  obtain ⟨lt, -, member⟩ := ring.members p held
  obtain ⟨n, hn, rfl⟩ := member.resolve_left ne
  exact ⟨lt, rfl, (ring.used n hn).2.2.1, fun q hq e => ring.allocated_inj hq held e⟩

theorem Named.moves (n : Named pid p k) (h : Moves touched k k') (ring : Ring k) :
    Named pid p k' where
  lt := Nat.lt_of_lt_of_le n.lt h.unused
  named := (h.pids p n.lt).trans n.named
  counter := Nat.lt_of_lt_of_le n.counter h.counter
  unique q held e := by
    obtain ⟨_, _, _, ring, _⟩ := ring
    rcases h.born q held with old | ⟨-, fresh⟩
    · exact n.unique q old (by rw [← h.pids q (ring.members q old).1, e])
    · have := n.counter
      omega

/-- A dead process in memory is buried. -/
theorem Inv.buried {strict : Prop} (i : Inv strict k) (held : k.allocated p = true)
    (dead : Dead (k.stateOf p)) : Buried (k.pidOf p) p k := by
  have ne : p ≠ k.idlePCB := by
    rintro rfl
    rcases dead with e | e <;> rw [i.sched.idle] at e <;> cases e
  have n := i.named held ne
  exact ⟨dead, n.lt, n.named, n.counter, n.unique⟩

theorem Buried.moves (b : Buried pid p k) (h : Moves touched k k') (ring : Ring k) :
    Buried pid p k' := by
  have n := Named.moves ⟨b.lt, b.named, b.counter, b.unique⟩ h ring
  exact ⟨h.dead_mono b.lt b.dead, n.lt, n.named, n.counter, n.unique⟩

/-- What is dead stays dead, in memory or not. -/
theorem Inv.dead_forever {admits : Kernel → Op → Prop} (i : Inv False k) (lt : p < k.unused)
    (dead : Dead (k.stateOf p)) (run : Relation.ReflTransGen (Step admits) k k') :
    Dead (k'.stateOf p) := by
  have both : Inv False k' ∧ p < k'.unused ∧ Dead (k'.stateOf p) := by
    induction run with
    | refl => exact ⟨i, lt, dead⟩
    | tail _ step ih =>
        obtain ⟨op, -, trans⟩ := step
        obtain ⟨i, lt, dead⟩ := ih
        have effect := trans.effect i
        exact ⟨effect.inv i, Nat.lt_of_lt_of_le lt effect.moves.unused,
          effect.moves.dead_mono lt dead⟩
  exact both.2.2

end Death

/-- Once a process is WAITING_FOR_EXIT or EXITED it is one of these for ever, no
other process gets its pid, and no selection ends with it. -/
theorem no_process_runs_after_death {k k' : Kernel} {p : Nat} (reach : Reach (fun _ _ => True) k)
    (held : k.allocated p = true) (dead : Dead (k.stateOf p))
    (run : Relation.ReflTransGen (Step fun _ _ => True) k k') :
    Dead (k'.stateOf p) ∧ k'.pidOf p = k.pidOf p ∧
      (∀ q, k'.allocated q = true → k'.pidOf q = k.pidOf p → q = p) ∧ k'.currentPCB ≠ p ∧
      ∀ fuel rsp j rsp', k'.schedule fuel rsp = .ok (j, rsp') →
        Dead (j.stateOf p) ∧ j.currentPCB ≠ p ∧ rsp' = (j.pcbs j.currentPCB).rsp := by
  have both : Inv False k' ∧ Buried (k.pidOf p) p k' := by
    induction run with
    | refl =>
        have i : Inv False k := reach.sound
        exact ⟨i, i.buried held dead⟩
    | tail _ step ih =>
        obtain ⟨op, -, trans⟩ := step
        have effect := trans.effect ih.1
        exact ⟨effect.inv ih.1, ih.2.moves (effect.moves) ih.1.ring⟩
  obtain ⟨i, b⟩ := both
  refine ⟨b.dead, b.named, b.unique, b.current_ne i.current, fun fuel rsp j rsp' ran => ?_⟩
  obtain ⟨n, returns⟩ := schedule_spec i.ring i.sched rsp
  obtain ⟨r, ran', picked⟩ := returns (max fuel (n + 1)) (by omega)
  have same := (schedule_mono (Nat.le_max_left fuel (n + 1)) ran).symm.trans ran'
  cases same
  have buried : Buried (k.pidOf p) p { j with rsp := rsp' } :=
    b.moves (picked.switched.moves : Moves (fun _ => False) _ _) i.ring
  exact ⟨buried.dead, buried.current_ne (picked.selected.current picked.idle), picked.rsp⟩

/-- A sleeper is killed by Ctrl+C, finished off by the timer and freed. -/
theorem no_process_runs_after_death_asleep : ∃ k k' : Kernel, k.stateOf 6 = .waitingForExit ∧
    k'.allocated 6 = false ∧ Dead (k'.stateOf 6) ∧ k'.currentPCB ≠ 6 := by
  have killed : (perform (fun _ _ => True) 40 [.createProcess ⟨true, true, true, true, true⟩ 0 0,
      .waitPid 1, .sleep 5 true, .ctrlC] (boot 0 0 0)).map
      (fun k => (k.stateOf 6, k.allocated 6,
        (perform (fun _ _ => True) 40 [.timerTick, .reschedule, .yield] k).map (·.allocated 6))) =
      some (.waitingForExit, true, some false) := by decide +kernel
  obtain ⟨k, run, state⟩ := Option.map_eq_some_iff.mp killed
  simp only [Prod.mk.injEq] at state
  obtain ⟨k', run', freed⟩ := Option.map_eq_some_iff.mp state.2.2
  obtain ⟨dead, -, -, current, -⟩ :=
    no_process_runs_after_death ⟨0, 0, 0, perform_run run⟩ state.2.1
    (Or.inl state.1) (perform_run run')
  exact ⟨k, k', state.1, freed, dead, current⟩

end SoTp.Process
