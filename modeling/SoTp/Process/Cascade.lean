/-
The whole effect of an exit. `exitProcessByPCB` recurs along the tables `waitingForMe`,
from a process to the killed ones in its table: those become EXITED with it, and whoever
is BLOCKED in one of their tables is woken and given an exit code.

* `exitWith_reaches` — who becomes EXITED was reached along the tables.
* `Exits.reached` — whoever is reached becomes EXITED.
* `exit_cascade` — the effect on all states and exit codes.
-/

import SoTp.Process.Delivery

namespace SoTp.Process

open SoTp.Lib Kernel

/-- `q` was killed and is in the table of `r`. -/
def Falls (k : Kernel) (r q : Nat) : Prop := q ∈ k.waitersOf r ∧ k.stateOf q = .waitingForExit

/-- The processes that depend on `p` through killed ones. -/
def Reaches (k : Kernel) : Nat → Nat → Prop := Relation.ReflTransGen (Falls k)

/-- `q` is BLOCKED in a table of a process that depends on `p`. -/
def Freed (k : Kernel) (p q : Nat) : Prop :=
  ∃ r, Reaches k p r ∧ q ∈ k.waitersOf r ∧ k.stateOf q = .blocked

/-- The effect of an exit of `p` with `exitCode`. -/
structure Cascades (k : Kernel) (p : Nat) (exitCode : Int) (k' : Kernel) : Prop where
  exited : ∀ q, Reaches k p q → k'.stateOf q = .exited
  woken : ∀ r q, Reaches k p r → q ∈ k.waitersOf r → k.stateOf q = .blocked →
    k'.stateOf q = .ready ∧ k'.codeOf q = if r = p then exitCode else KILL_EXIT_CODE
  states : ∀ q, ¬ Reaches k p q → ¬ Freed k p q → k'.stateOf q = k.stateOf q
  codes : ∀ q, ¬ Freed k p q → k'.codeOf q = k.codeOf q

/-- The tables of living processes list living PCBs, each in one table. -/
structure Tables (k : Kernel) : Prop where
  finite : {p | k.allocated p = true}.Finite
  living : ∀ r, k.allocated r = true → k.stateOf r ≠ .exited → ∀ q ∈ k.waitersOf r,
    k.allocated q = true ∧ k.stateOf q ≠ .exited
  once : ∀ r s q, k.allocated r = true → k.stateOf r ≠ .exited → k.allocated s = true →
    k.stateOf s ≠ .exited → q ∈ k.waitersOf r → q ∈ k.waitersOf s → r = s

section Reach

variable {k k' : Kernel} {isCurrent : Kernel → Nat → Bool}

/-- With fewer killed processes, less is reached. -/
theorem Reaches.mono {p q : Nat} (h : Reaches k' p q) (tables : k'.waitersOf = k.waitersOf)
    (fewer : ∀ r, k'.stateOf r = .waitingForExit → k.stateOf r = .waitingForExit) : Reaches k p q :=
  Relation.ReflTransGen.mono (fun _ r fall => ⟨tables ▸ fall.1, fewer r fall.2⟩) p q h

theorem Settles.fewer {owed : Nat → Prop} (h : Settles owed k k') {r : Nat}
    (killed : k'.stateOf r = .waitingForExit) : k.stateOf r = .waitingForExit := by
  rcases h.changes r with same | ⟨-, moved, -⟩
  · exact same ▸ killed
  · exact absurd (Or.inr killed) moved.not_waiting

theorem Settles.reaches {owed : Nat → Prop} {p q : Nat} (h : Settles owed k k')
    (reach : Reaches k' p q) : Reaches k p q :=
  reach.mono (funext h.waitersOf) fun _ => h.fewer

theorem exitWaiters_reaches {exitPCB : Nat → Kernel → Exec Outcome} {exitCode : Int}
    (steady : Steady isCurrent)
    (nested : ∀ q k out, Aside isCurrent k → k.stateOf q = .waitingForExit → exitPCB q k = .ok out →
      out.left = false ∧ Exits q k out.kernel ∧
        ∀ r, k.stateOf r ≠ .exited → out.kernel.stateOf r = .exited → Reaches k q r)
    {ws : List Nat} {out : Outcome} (a : Aside isCurrent k)
    (run : exitWaiters exitPCB exitCode ws k = .ok out) :
    ∀ r, k.stateOf r ≠ .exited → out.kernel.stateOf r = .exited →
      ∃ q ∈ ws, k.stateOf q = .waitingForExit ∧ Reaches k q r := by
  induction ws generalizing k with
  | nil =>
      cases run
      exact fun r alive dead => absurd dead alive
  | cons q ws ih =>
      -- Who exits does so with `q` or in the rest of the loop.
      have both : ∀ k₁, Settles (· = q) k k₁ →
          (∀ r, k.stateOf r ≠ .exited → k₁.stateOf r = .exited →
            k.stateOf q = .waitingForExit ∧ Reaches k q r) →
          exitWaiters exitPCB exitCode ws k₁ = .ok out → ∀ r, k.stateOf r ≠ .exited →
            out.kernel.stateOf r = .exited → ∃ s ∈ q :: ws, k.stateOf s = .waitingForExit ∧
              Reaches k s r := by
        intro k₁ first here rest r alive dead
        by_cases now : k₁.stateOf r = .exited
        · exact ⟨q, List.mem_cons_self, here r alive now⟩
        · obtain ⟨s, hs, killed, reach⟩ := ih (first.aside steady a) rest r now dead
          exact ⟨s, List.mem_cons_of_mem q hs, first.fewer killed, first.reaches reach⟩
      unfold exitWaiters at run
      split_ifs at run with gone
      have held : k.allocated q = true := by simpa using gone
      cases state : k.stateOf q with
      | blocked =>
          rw [state] at run
          refine both _ (wake_settles state held) (fun r alive dead => ?_) run
          rw [stateOf, setPCB_pcbs] at dead
          split_ifs at dead
          exact absurd dead alive
      | waitingForExit =>
          rw [state] at run
          obtain ⟨mid, exited, rest⟩ := bind_ok_iff.mp run
          obtain ⟨left, exits, reaches⟩ := nested q k mid a state exited
          rw [left] at rest
          exact both mid.kernel (exits.settles state)
            (fun r alive dead => ⟨state, reaches r alive dead⟩) rest
      | ready | running | exited | blockedByUser =>
          rw [state] at run
          exact both k (Settles.refl _ k) (fun r alive dead => absurd dead alive) run

/-- Who becomes EXITED was reached. -/
theorem exitWith_reaches {fuel p : Nat} {exitCode : Int} {out : Outcome} (steady : Steady isCurrent)
    (a : Aside isCurrent k) (active : k.stateOf p ≠ .blocked) (alive : k.stateOf p ≠ .exited)
    (run : exitWith isCurrent fuel p exitCode k = .ok out) :
    ∀ r, k.stateOf r ≠ .exited → out.kernel.stateOf r = .exited → Reaches k p r := by
  induction fuel generalizing k p exitCode out with
  | zero => cases run
  | succ fuel ih =>
      unfold exitWith at run
      split_ifs at run with gone
      split at run
      · exact absurd ‹_› alive
      · exact absurd ‹_› active
      · obtain ⟨mid, waiters, rest⟩ := bind_ok_iff.mp run
        obtain ⟨frame, states⟩ := markExited_frame (k := k) p
        have fewer : ∀ r, (k.markExited p).stateOf r = .waitingForExit →
            k.stateOf r = .waitingForExit := fun r killed => by
          rw [states] at killed
          split_ifs at killed
          exact killed
        have a₁ : Aside isCurrent (k.markExited p) := fun q hq => by
          rw [steady k _ q frame.ring]
          exact a q (fewer q hq)
        have nested : ∀ q k out, Aside isCurrent k → k.stateOf q = .waitingForExit →
            exitWith isCurrent fuel q KILL_EXIT_CODE k = .ok out → out.left = false ∧
              Exits q k out.kernel ∧
              ∀ r, k.stateOf r ≠ .exited → out.kernel.stateOf r = .exited → Reaches k q r := by
          intro q k out a killed run
          have awake : k.stateOf q ≠ .blocked := by simp [killed]
          have living : k.stateOf q ≠ .exited := by simp [killed]
          obtain ⟨left, exits⟩ := exitWith_spec steady a awake living run
          exact ⟨left.trans (a q killed), exits, ih a awake living run⟩
        have kernel : out.kernel = mid.kernel := by
          split_ifs at rest <;> cases rest <;> rfl
        intro r living dead
        by_cases e : r = p
        · subst e
          exact .refl
        · rw [kernel] at dead
          obtain ⟨q, mem, killed, reach⟩ := exitWaiters_reaches steady nested a₁ waiters r
            (by rwa [states, if_neg e]) dead
          exact .head ⟨mem, fewer q killed⟩ (reach.mono (funext frame.waitersOf) fewer)

end Reach

/-! ### The effect -/

section Effect

variable {k k' : Kernel} {isCurrent : Kernel → Nat → Bool} {p : Nat} {exitCode : Int}

/-- Whoever is reached is in memory and living, and becomes EXITED. -/
theorem Exits.reached (t : Tables k) (exits : Exits p k k') (alive : k.stateOf p ≠ .exited)
    {q : Nat}
    (reach : Reaches k p q) : k.allocated q = true ∧ k.stateOf q ≠ .exited ∧
      k'.stateOf q = .exited := by
  induction reach with
  | refl => exact ⟨exits.alive, alive, exits.root⟩
  | @tail r q _ fall ih =>
      obtain ⟨held, living, dead⟩ := ih
      obtain ⟨mem, killed⟩ := fall
      refine ⟨(t.living r held living q mem).1, (t.living r held living q mem).2, ?_⟩
      have settled := exits.settled r living dead q mem
      by_cases e : q = p
      · rw [e]
        exact exits.root
      · rcases exits.changes q e with same | ⟨-, ⟨blocked, -⟩ | ⟨-, exited⟩, -⟩
        · exact absurd (Or.inr (same.trans killed)) settled
        · rw [killed] at blocked
          cases blocked
        · exact exited

/-- A waiter of who is reached is woken. -/
theorem Exits.woken (t : Tables k) (exits : Exits p k k') (alive : k.stateOf p ≠ .exited)
    (active : k.stateOf p ≠ .blocked) {r q : Nat} (reach : Reaches k p r) (mem : q ∈ k.waitersOf r)
    (blocked : k.stateOf q = .blocked) : k'.stateOf q = .ready := by
  obtain ⟨-, living, dead⟩ := exits.reached t alive reach
  have settled := exits.settled r living dead q mem
  have e : q ≠ p := fun e => active (e ▸ blocked)
  rcases exits.changes q e with same | ⟨-, ⟨-, ready⟩ | ⟨killed, -⟩, -⟩
  · exact absurd (Or.inl (same.trans blocked)) settled
  · exact ready
  · rw [blocked] at killed
    cases killed

theorem exitWith_cascades {fuel : Nat} {out : Outcome} (t : Tables k) (steady : Steady isCurrent)
    (a : Aside isCurrent k) (active : k.stateOf p ≠ .blocked) (alive : k.stateOf p ≠ .exited)
    (run : exitWith isCurrent fuel p exitCode k = .ok out) : Cascades k p exitCode out.kernel := by
  obtain ⟨-, exits⟩ := exitWith_spec steady a active alive run
  have reaches := exitWith_reaches steady a active alive run
  have given := exitWith_delivers steady a active alive run
  obtain ⟨frame, states⟩ := markExited_frame (k := k) p
  have marked : ∀ r, (k.markExited p).stateOf r ≠ .exited → r ≠ p ∧ k.stateOf r ≠ .exited :=
      fun r h => by
    rw [states] at h
    split_ifs at h with e
    · exact absurd rfl h
    · exact ⟨e, h⟩
  -- Who was owed something waited for a process that was reached.
  have owed : ∀ q, Owed (k.markExited p) out.kernel q → ∃ r, r ≠ p ∧ Reaches k p r ∧
      q ∈ k.waitersOf r := by
    rintro q ⟨r, mem, living, dead⟩
    obtain ⟨ne, living⟩ := marked r living
    exact ⟨r, ne, reaches r living dead, by rwa [← frame.waitersOf]⟩
  refine ⟨fun q reach => (exits.reached t alive reach).2.2, fun r q reach mem blocked => ?_,
    fun q unreached unfreed => ?_, fun q unfreed => ?_⟩
  · have ready := exits.woken t alive active reach mem blocked
    refine ⟨ready, ?_⟩
    obtain ⟨held, living, -⟩ := exits.reached t alive reach
    have one : ∀ s, Reaches k p s → q ∈ k.waitersOf s → s = r := fun s reach' mem' =>
      have there := exits.reached t alive reach'
      t.once s r q there.1 there.2.1 held living mem' mem
    rcases given q with ⟨-, stays⟩ | ⟨-, -, ⟨direct, code⟩ | ⟨other, code⟩⟩
    · have e : q ≠ p := fun e => active (e ▸ blocked)
      rw [stays (by rw [states, if_neg e, blocked])] at ready
      cases ready
    · rw [code, if_pos (one p .refl direct).symm]
    · obtain ⟨s, ne, reach', mem'⟩ := owed q other
      rw [code, if_neg (one s reach' mem' ▸ ne)]
  · have e : q ≠ p := fun e => unreached (e ▸ .refl)
    rcases exits.changes q e with same | ⟨⟨r, mem, living, dead⟩, moved, -⟩
    · exact same
    · have reach := reaches r living dead
      rcases moved with ⟨blocked, -⟩ | ⟨killed, -⟩
      · exact absurd ⟨r, reach, mem, blocked⟩ unfreed
      · exact absurd (reach.tail ⟨mem, killed⟩) unreached
  · rcases given q with ⟨code, -⟩ | ⟨blocked, -, one⟩
    · exact code.trans (markExited_codeOf k p q)
    · rw [states] at blocked
      split_ifs at blocked with e
      rcases one with ⟨direct, -⟩ | ⟨other, -⟩
      · exact absurd ⟨p, .refl, direct, blocked⟩ unfreed
      · obtain ⟨s, -, reach, mem⟩ := owed q other
        exact absurd ⟨s, reach, mem, blocked⟩ unfreed

end Effect

/-! ### The result -/

/-- `exitProcessByPCB` with its context switches put off until it has returned. -/
def exitDeferred (fuel pcb : Nat) (exitCode : Int) (k : Kernel) : Exec Outcome :=
  exitWith (fun _ _ => false) fuel pcb exitCode k

/-- As long as no Ctrl+C finds a process that was killed before, the kernel's own tables are so. -/
theorem Mid.tables {k : Kernel} (m : Mid True k) : Tables k where
  finite := by
    obtain ⟨_, _, _, ring, -⟩ := m.ring
    exact (Set.finite_Iio k.unused).subset fun p held => (ring.members p held).1
  living r _ living q mem := by
    have recorded : q ∈ k.entries (.table r) := mem_table.mpr ⟨living, mem⟩
    refine ⟨m.recorded_allocated recorded, fun dead => ?_⟩
    rcases m.records.waits (.table r) q recorded with waiting | ⟨weak, -⟩
    · rw [dead] at waiting
      simp [Waiting] at waiting
    · exact weak trivial
  once r s q _ living _ living' mem mem' := by
    have same := m.records.once (.table r) (.table s) q (mem_table.mpr ⟨living, mem⟩)
      (mem_table.mpr ⟨living', mem'⟩)
    cases same
    rfl

/-- An exit of a process that is neither EXITED nor BLOCKED returns, and has this effect on
all states and exit codes, whichever process is running. When no process that was killed
is running, so it is in the kernel, the same holds with the context switches where they
are, and there is one if and only if the process itself is the running one. -/
theorem exit_cascade {k : Kernel} {p : Nat} (t : Tables k) (held : k.allocated p = true)
    (alive : k.stateOf p ≠ .exited) (active : k.stateOf p ≠ .blocked) (exitCode : Int) :
    ∃ n, ∀ fuel, n < fuel →
      (∃ k', exitDeferred fuel p exitCode k = .ok ⟨k', false⟩ ∧ Cascades k p exitCode k') ∧
        (Bystanders k → ∃ k', exitProcessByPCB fuel p exitCode k = .ok ⟨k', k.isCurrent p⟩ ∧
          Cascades k p exitCode k') := by
  have both (fuel : Nat) (enough : t.finite.toFinset.card < fuel) (isCurrent : Kernel → Nat → Bool)
      (steady : Steady isCurrent) (a : Aside isCurrent k) : ∃ k',
        exitWith isCurrent fuel p exitCode k = .ok ⟨k', isCurrent k p⟩ ∧
          Cascades k p exitCode k' := by
    have total : ∃ out, exitWith isCurrent fuel p exitCode k = .ok out :=
      exitWith_total t.finite.toFinset steady a
        (fun r held living q mem => (t.living r held living q mem).1)
        (fun q _ held _ => t.finite.mem_toFinset.mpr held) held enough
    obtain ⟨out, run⟩ := total
    obtain ⟨left, -⟩ := exitWith_spec steady a active alive run
    refine ⟨out.kernel, ?_, exitWith_cascades t steady a active alive run⟩
    rw [run, ← left]
  refine ⟨t.finite.toFinset.card, fun fuel enough => ⟨?_, fun b => ?_⟩⟩
  · exact both fuel enough _ (fun _ _ _ _ => rfl) fun _ _ => rfl
  · rw [exitProcessByPCB_eq]
    exact both fuel enough _ steady_isCurrent b

/-- `init` waits for a process that exits with 7. -/
theorem exit_cascade_waiter : ∃ k k' : Kernel, k.stateOf 4 = .blocked ∧ k'.stateOf 4 = .ready ∧
    k'.codeOf 4 = 7 ∧ ∃ fuel, exitDeferred fuel 6 7 k = .ok ⟨k', false⟩ := by
  have ran :
      (perform Kernel.FirstKill 40 [.createProcess ⟨true, true, true, true, true⟩ 0 0, .waitPid 1]
      (boot 0 0 0)).map (fun k => (k.stateOf 4, k.stateOf 6, k.waitersOf 6, k.allocated 6)) =
      some (.blocked, .running, [4], true) := by decide +kernel
  obtain ⟨k, run, state⟩ := Option.map_eq_some_iff.mp ran
  simp only [Prod.mk.injEq] at state
  obtain ⟨blocked, running, waiters, held⟩ := state
  have reach : Reach Kernel.FirstKill k := ⟨0, 0, 0, perform_run run⟩
  have i : Inv True k := reach.inv fun _ _ _ ok => ok
  obtain ⟨n, returns⟩ := exit_cascade i.toMid.tables held (by simp [running]) (by simp [running]) 7
  obtain ⟨⟨k', exited, cascades⟩, -⟩ := returns (n + 1) (Nat.lt_succ_self n)
  obtain ⟨ready, code⟩ := cascades.woken 6 4 .refl (by simp [waiters]) blocked
  exact ⟨k, k', blocked, ready, code, n + 1, exited⟩

end SoTp.Process
