/-
The exit code on its way to the processes that wait for it. It travels through one
field of the waiter, which the exit writes when it wakes the waiter.

* `exitProcessByPCB_delivers` — what an exit writes, and to whom.
* `waitPid_delivers` — a call gets the code of the process it names when it is made
  before that process is EXITED; after that it gets what was in the field before.
-/

import SoTp.Process.Death
import SoTp.Process.Structure
import SoTp.Process.Waiters

namespace SoTp.Process

open SoTp.Lib Kernel

namespace Kernel

/-- The exit code a waiter is given. -/
def codeOf (k : Kernel) (pcb : Nat) : Int := (k.pcbs pcb).waitedProcessExitCode

end Kernel

/-! ### What an exit delivers -/

/-- `q` was woken and given a code: `exitCode` if it is one of `direct`, and
KILL_EXIT_CODE if it waited for one of the others that became EXITED. -/
def Given (direct : Nat → Prop) (exitCode : Int) (k k' : Kernel) (q : Nat) : Prop :=
  k.stateOf q = .blocked ∧ ¬ Waiting (k'.stateOf q) ∧
    (direct q ∧ k'.codeOf q = exitCode ∨ Owed k k' q ∧ k'.codeOf q = KILL_EXIT_CODE)

/-- Nobody gets a code but those who are woken. -/
def Delivers (direct : Nat → Prop) (exitCode : Int) (k k' : Kernel) : Prop :=
  ∀ q, k'.codeOf q = k.codeOf q ∧ (k.stateOf q = .blocked → k'.stateOf q = .blocked) ∨
    Given direct exitCode k k' q

section Exit

variable {k k' k'' : Kernel} {direct direct' : Nat → Prop} {exitCode : Int}
  {isCurrent : Kernel → Nat → Bool}

theorem delivers_refl : Delivers direct exitCode k k := fun _ => Or.inl ⟨rfl, id⟩

theorem Delivers.mono (h : Delivers direct exitCode k k') (weaker : ∀ q, direct q → direct' q) :
    Delivers direct' exitCode k k' := fun q =>
  (h q).imp id fun ⟨blocked, woken, given⟩ =>
    ⟨blocked, woken, given.imp (fun ⟨d, code⟩ => ⟨weaker q d, code⟩) id⟩

/-- Two deliveries in a row: what the first has settled, the second leaves alone. -/
theorem Delivers.trans {owed owed' : Nat → Prop} (first : Delivers direct exitCode k k')
    (settles : Settles owed k k') (rest : Delivers direct exitCode k' k'')
    (settles' : Settles owed' k' k'') : Delivers direct exitCode k k'' := by
  intro q
  rcases first q with ⟨code, stays⟩ | ⟨blocked, woken, given⟩
  · rcases rest q with ⟨code', stays'⟩ | ⟨blocked', woken', given'⟩
    · exact Or.inl ⟨code'.trans code, stays' ∘ stays⟩
    · have blocked : k.stateOf q = .blocked := by
        rcases settles.changes q with same | ⟨-, moved, -⟩
        · exact same ▸ blocked'
        · exact absurd (Or.inl blocked') moved.not_waiting
      refine Or.inr ⟨blocked, woken', given'.imp id fun ⟨⟨s, mem, alive, dead⟩, code'⟩ =>
        ⟨?_, code'⟩⟩
      exact ⟨s, by rwa [← settles.waitersOf], fun gone => alive (settles.exited gone), dead⟩
  · -- What was given stays given.
    have same := settles'.not_waiting woken
    have code : k''.codeOf q = k'.codeOf q := by
      rcases rest q with ⟨code', -⟩ | ⟨blocked', -⟩
      · exact code'
      · exact absurd (Or.inl blocked') woken
    refine Or.inr ⟨blocked, same ▸ woken, ?_⟩
    rw [code]
    exact given.imp id fun ⟨⟨s, mem, alive, dead⟩, c⟩ => ⟨⟨s, mem, alive, settles'.exited dead⟩, c⟩

theorem wake_delivers {q : Nat} (blocked : k.stateOf q = .blocked) :
    Delivers (· = q) exitCode k
      (k.setPCB q fun p => { p with state := .ready, waitedProcessExitCode := exitCode }) := by
  intro r
  by_cases e : r = q
  · subst e
    refine Or.inr ⟨blocked, ?_, Or.inl ⟨rfl, ?_⟩⟩
    · rw [stateOf, setPCB_pcbs, if_pos rfl]
      simp [Waiting]
    · rw [codeOf, setPCB_pcbs, if_pos rfl]
  · refine Or.inl ⟨?_, fun blocked => ?_⟩
    · rw [codeOf, setPCB_pcbs, if_neg e, codeOf]
    · rwa [stateOf, setPCB_pcbs, if_neg e]

/-- The exit of a killed process, seen from the loop that calls for it. -/
theorem Delivers.nested {q : Nat} (exits : Exits q k k')
    (h : Delivers (· ∈ k.waitersOf q) KILL_EXIT_CODE k k') (killed : k.stateOf q = .waitingForExit)
    (direct : Nat → Prop) (exitCode : Int) : Delivers direct exitCode k k' := fun r =>
  (h r).imp id fun ⟨blocked, woken, given⟩ => by
    refine ⟨blocked, woken, Or.inr ?_⟩
    rcases given with ⟨mem, code⟩ | given
    · exact ⟨⟨q, mem, by simp [killed], exits.root⟩, code⟩
    · exact given

theorem exitWaiters_delivers {exitPCB : Nat → Kernel → Exec Outcome}
    (steady : Steady isCurrent)
    (nested : ∀ q k out, Aside isCurrent k → k.stateOf q = .waitingForExit → exitPCB q k = .ok out →
      out.left = false ∧ Exits q k out.kernel ∧
        Delivers (· ∈ k.waitersOf q) KILL_EXIT_CODE k out.kernel)
    {ws : List Nat} {out : Outcome} (a : Aside isCurrent k)
    (run : exitWaiters exitPCB exitCode ws k = .ok out) :
    Delivers (· ∈ ws) exitCode k out.kernel := by
  have settles : ∀ {ws k out}, Aside isCurrent k → exitWaiters exitPCB exitCode ws k = .ok out →
      Settles (· ∈ ws) k out.kernel := fun a run =>
    (exitWaiters_spec steady (fun q k out a killed run =>
      let ⟨left, exits, _⟩ := nested q k out a killed run
      ⟨left, exits⟩) a run).2.1
  induction ws generalizing k with
  | nil =>
      cases run
      exact delivers_refl
  | cons q ws ih =>
      have both : ∀ k₁, Settles (· = q) k k₁ → Delivers (· ∈ q :: ws) exitCode k k₁ →
          exitWaiters exitPCB exitCode ws k₁ = .ok out →
          Delivers (· ∈ q :: ws) exitCode k out.kernel := by
        intro k₁ first given rest
        have a₁ := first.aside steady a
        exact given.trans first ((ih a₁ rest).mono fun r hr => List.mem_cons_of_mem q hr)
          (settles a₁ rest)
      unfold exitWaiters at run
      split_ifs at run with gone
      have alive : k.allocated q = true := by simpa using gone
      split at run
      · rename_i blocked
        refine both _ (wake_settles blocked alive) ((wake_delivers blocked).mono fun r e => ?_) run
        exact e ▸ List.mem_cons_self
      · rename_i killed
        obtain ⟨mid, exited, rest⟩ := bind_ok_iff.mp run
        obtain ⟨left, exits, given⟩ := nested q k mid a killed exited
        rw [left] at rest
        exact both mid.kernel (exits.settles killed) (Delivers.nested exits given killed _ _) rest
      · exact both k (Settles.refl _ k) delivers_refl run

theorem markExited_codeOf (k : Kernel) (p q : Nat) : (k.markExited p).codeOf q = k.codeOf q := by
  have same : (k.setState p .exited).codeOf q = k.codeOf q := by
    rw [codeOf, setState, setPCB_pcbs, codeOf]
    split_ifs with e
    · rw [e]
    · rfl
  unfold markExited
  simp only []
  split_ifs <;> exact same

/-- Marking a process that was not BLOCKED gives nobody a code. -/
theorem Delivers.marked {p : Nat} (h : Delivers direct exitCode (k.markExited p) k')
    (active : k.stateOf p ≠ .blocked) : Delivers direct exitCode k k' := by
  obtain ⟨frame, states⟩ := markExited_frame (k := k) p
  intro q
  rcases h q with ⟨code, stays⟩ | ⟨blocked, woken, given⟩
  · refine Or.inl ⟨code.trans (markExited_codeOf k p q), fun blocked => stays ?_⟩
    rw [states, if_neg]
    · exact blocked
    · rintro rfl
      exact active blocked
  · rw [states] at blocked
    split_ifs at blocked
    refine Or.inr ⟨blocked, woken, given.imp id fun ⟨⟨s, mem, alive, dead⟩, code⟩ => ⟨?_, code⟩⟩
    rw [states] at alive
    split_ifs at alive
    · exact absurd rfl alive
    · exact ⟨s, by rwa [← frame.waitersOf], alive, dead⟩

/-- The exit of a process that is neither BLOCKED nor EXITED, after it was marked: its
own waiters get the code, and those of the killed processes that exit with it get
KILL_EXIT_CODE. -/
theorem exitWith_delivers {fuel p : Nat} {out : Outcome} (steady : Steady isCurrent)
    (a : Aside isCurrent k) (active : k.stateOf p ≠ .blocked) (alive : k.stateOf p ≠ .exited)
    (run : exitWith isCurrent fuel p exitCode k = .ok out) :
    Delivers (· ∈ k.waitersOf p) exitCode (k.markExited p) out.kernel := by
  induction fuel generalizing k p exitCode out with
  | zero => cases run
  | succ fuel ih =>
      unfold exitWith at run
      split_ifs at run with gone
      split at run
      · exact absurd ‹_› alive
      · exact absurd ‹_› active
      · obtain ⟨mid, waiters, rest⟩ := bind_ok_iff.mp run
        obtain ⟨frame, states⟩ := markExited_frame (k := k) p
        have a₁ : Aside isCurrent (k.markExited p) := fun q hq => by
          rw [states] at hq
          split_ifs at hq
          rw [steady k _ q frame.ring]
          exact a q hq
        have nested : ∀ q k out, Aside isCurrent k → k.stateOf q = .waitingForExit →
            exitWith isCurrent fuel q KILL_EXIT_CODE k = .ok out →
            out.left = false ∧ Exits q k out.kernel ∧
              Delivers (· ∈ k.waitersOf q) KILL_EXIT_CODE k out.kernel := by
          intro q k out a killed run
          have awake : k.stateOf q ≠ .blocked := by simp [killed]
          have living : k.stateOf q ≠ .exited := by simp [killed]
          obtain ⟨left, exits⟩ := exitWith_spec steady a awake living run
          exact ⟨left.trans (a q killed), exits, (ih a awake living run).marked awake⟩
        have kernel : out.kernel = mid.kernel := by
          split_ifs at rest <;> cases rest <;> rfl
        rw [kernel]
        exact exitWaiters_delivers steady nested a₁ waiters

theorem exitProcessByPCB_delivers {fuel p : Nat} {out : Outcome} (b : Bystanders k)
    (active : k.stateOf p ≠ .blocked) (alive : k.stateOf p ≠ .exited)
    (run : exitProcessByPCB fuel p exitCode k = .ok out) :
    Delivers (· ∈ k.waitersOf p) exitCode (k.markExited p) out.kernel := by
  rw [exitProcessByPCB_eq] at run
  exact exitWith_delivers steady_isCurrent b active alive run

end Exit

/-! ### Who gets which code -/

section Codes

variable {k : Kernel} {p q r fuel : Nat} {exitCode : Int} {out : Outcome}

/-- A waiter of `p` gets the code with which `p` exits. -/
theorem exit_code (m : Mid False k) (current : Awake (k.stateOf k.currentPCB))
    (root : k.stateOf r ≠ .exited) (run : exitProcessByPCB fuel r exitCode k = .ok out)
    (alive : k.stateOf p ≠ .exited) (mem : q ∈ k.waitersOf p) (blocked : k.stateOf q = .blocked)
    (dead : out.kernel.stateOf p = .exited) :
    out.kernel.codeOf q = if p = r then exitCode else KILL_EXIT_CODE := by
  have rootActive : k.stateOf r ≠ .blocked := fun rootBlocked => by
    rw [(exit_blocked rootBlocked run).1, markWaitingForExit, stateOf, setPCB_pcbs] at dead
    split_ifs at dead
    exact alive dead
  have b := m.bystanders current
  have ready := (exit_attends m current root run alive mem blocked).1 dead
  obtain ⟨frame, states⟩ := markExited_frame (k := k) r
  -- `q` is in the table of `p` alone.
  have one : ∀ s, q ∈ k.waitersOf s → k.stateOf s ≠ .exited → s = p := fun s mem' alive' => by
    have same := m.records.once (.table s) (.table p) q (mem_table.mpr ⟨alive', mem'⟩)
      (mem_table.mpr ⟨alive, mem⟩)
    cases same
    rfl
  rcases exitProcessByPCB_delivers b rootActive root run q with ⟨-, stays⟩ | ⟨-, -, given⟩
  · have ne : q ≠ r := fun e => rootActive (e ▸ blocked)
    rw [stays (by rw [states, if_neg ne, blocked])] at ready
    cases ready
  · rcases given with ⟨direct, code⟩ | ⟨⟨s, mem', alive', -⟩, code⟩
    · rw [code, if_pos (one r direct root).symm]
    · rw [states] at alive'
      split_ifs at alive' with e
      · exact absurd rfl alive'
      · have same := one s (by rwa [← frame.waitersOf]) alive'
        rw [code, if_neg (same ▸ e)]

/-- Who is not BLOCKED keeps the code it has. -/
theorem exit_code_kept (m : Mid False k) (current : Awake (k.stateOf k.currentPCB))
    (root : k.stateOf r ≠ .exited) (run : exitProcessByPCB fuel r exitCode k = .ok out)
    (active : k.stateOf q ≠ .blocked) : out.kernel.codeOf q = k.codeOf q := by
  by_cases rootBlocked : k.stateOf r = .blocked
  · rw [(exit_blocked rootBlocked run).1, codeOf, markWaitingForExit, setPCB_pcbs, codeOf]
    split_ifs with e
    · rw [e]
    · rfl
  · have given := exitProcessByPCB_delivers (m.bystanders current) rootBlocked root run
    rcases given.marked rootBlocked q with ⟨code, -⟩ | ⟨blocked, -⟩
    · exact code
    · exact absurd blocked active

end Codes

/-! ### Waiting for a code -/

/-- What becomes of `q`, recorded in the table of `p`: it is BLOCKED there as long as
`p` is not EXITED, and has `code` after that, unless it was killed. `terminal` is the
code with which `p` terminates, if it does now. -/
def Due (p q : Nat) (terminal code : Int) (k : Kernel) : Prop :=
  (k.stateOf p ≠ .exited ∧ q ∈ k.waitersOf p ∧ k.stateOf q = .blocked ∧ code = terminal) ∨
    (k.stateOf p = .exited ∧ ¬ Waiting (k.stateOf q) ∧ k.codeOf q = code) ∨ Dead (k.stateOf q)

section Due

variable {k j k' : Kernel} {p q r fuel : Nat} {terminal code : Int} {op : Op} {log : List Event}

/-- A step that is not an exit. -/
theorem Due.frame (due : Due p q terminal code k)
    (exited : j.stateOf p = .exited ↔ k.stateOf p = .exited)
    (table : q ∈ k.waitersOf p → q ∈ j.waitersOf p) (same : j.codeOf q = k.codeOf q)
    (state : j.stateOf q = k.stateOf q ∨
      ¬ Waiting (k.stateOf q) ∧ k.stateOf q ≠ .exited ∧ ¬ Waiting (j.stateOf q)) :
    Due p q terminal code j := by
  rcases due with ⟨alive, mem, blocked, what⟩ | ⟨dead, active, given⟩ | dead
  · rcases state with e | ⟨active, -⟩
    · exact Or.inl ⟨fun d => alive (exited.mp d), table mem, e.trans blocked, what⟩
    · exact absurd (Or.inl blocked) active
  · refine Or.inr (Or.inl ⟨exited.mpr dead, ?_, same.trans given⟩)
    rcases state with e | ⟨-, -, active'⟩
    · rwa [e]
    · exact active'
  · rcases state with e | ⟨active, alive, -⟩
    · exact Or.inr (Or.inr (e ▸ dead))
    · exact dead.elim (fun w => absurd (Or.inr w) active) fun d => absurd d alive

theorem exit_due {exitCode : Int} {out : Outcome} (m : Mid False k)
    (current : Awake (k.stateOf k.currentPCB)) (root : k.stateOf r ≠ .exited)
    (run : exitProcessByPCB fuel r exitCode k = .ok out)
    (what : terminal = if p = r then exitCode else KILL_EXIT_CODE) (due : Due p q terminal code k) :
    Due p q terminal code out.kernel := by
  rcases due with ⟨alive, mem, blocked, e⟩ | ⟨dead, active, given⟩ | dead
  · obtain ⟨gone, living⟩ := exit_attends m current root run alive mem blocked
    by_cases dies : out.kernel.stateOf p = .exited
    · have code := exit_code m current root run alive mem blocked dies
      exact Or.inr
        (Or.inl ⟨dies, by simp [gone dies, Waiting], code.trans (what.symm.trans e.symm)⟩)
    · obtain ⟨mem, w | w⟩ := living dies
      · exact Or.inl ⟨dies, mem, w, e⟩
      · exact Or.inr (Or.inr (Or.inl w))
  all_goals
    have changes : ∀ s, out.kernel.stateOf s = k.stateOf s ∨
        s = r ∧ Dead (out.kernel.stateOf s) ∧
          (k.stateOf s ≠ .blocked → out.kernel.stateOf s = .exited) ∨
        Settling (k.stateOf s) (out.kernel.stateOf s) := fun s => by
      by_cases rootBlocked : k.stateOf r = .blocked
      · rw [(exit_blocked rootBlocked run).1, markWaitingForExit, stateOf, setPCB_pcbs]
        split_ifs with e
        · exact Or.inr (Or.inl ⟨e, Or.inl rfl, fun awake => absurd (e ▸ rootBlocked) awake⟩)
        · exact Or.inl rfl
      · obtain ⟨-, exits⟩ := exitProcessByPCB_spec (m.bystanders current) rootBlocked root run
        by_cases e : s = r
        · subst e
          exact Or.inr (Or.inl ⟨rfl, Or.inr exits.root, fun _ => exits.root⟩)
        · rcases exits.changes s e with same | ⟨_, settling, _⟩
          · exact Or.inl same
          · exact Or.inr (Or.inr settling)
  · refine Or.inr (Or.inl ⟨?_, ?_, ?_⟩)
    · rcases changes p with e | ⟨e, -⟩ | settling
      · exact e.trans dead
      · exact absurd dead (e ▸ root)
      · exact absurd dead settling.ne_exited
    · rcases changes q with e | ⟨-, -, exits⟩ | settling
      · rwa [e]
      · rw [exits fun blocked => active (Or.inl blocked)]
        simp [Waiting]
      · exact settling.not_waiting
    · exact (exit_code_kept m current root run fun blocked => active (Or.inl blocked)).trans given
  · refine Or.inr (Or.inr ?_)
    rcases changes q with e | ⟨-, dead, -⟩ | ⟨blocked, -⟩ | ⟨-, exited⟩
    · exact e ▸ dead
    · exact dead
    · rcases dead with d | d <;> rw [d] at blocked <;> cases blocked
    · exact Or.inr exited

theorem switch_due (m : Mid False k) (run : k.contextSwitch fuel = .ok j)
    (due : Due p q terminal code k) : Due p q terminal code j := by
  have selects := (contextSwitch_of_ok m.ring m.sched run).selects
  refine due.frame (selects.exited_iff p) (fun mem => ?_) ?_ ?_
  · rwa [selects.waitersOf]
  · rw [codeOf, selects.samePCB, codeOf]
  · exact (selects.states q).imp id fun ⟨a, b⟩ => ⟨a.active.1, a.active.2, b.active.1⟩

theorem Stirs.due (s : Stirs k j) (due : Due p q terminal code k) : Due p q terminal code j := by
  refine due.frame ⟨fun dead => ?_, fun dead => ?_⟩ (fun mem => ?_) ?_ ?_
  · rcases s.states p with same | ⟨-, -, ready, -⟩
    · exact same ▸ dead
    · rw [ready] at dead
      cases dead
  · rcases s.states p with same | ⟨alive, -⟩
    · exact same.trans dead
    · exact absurd dead alive
  · rwa [waitersOf, s.samePCB]
  · rw [codeOf, s.samePCB, codeOf]
  · rcases s.states q with same | ⟨alive, spared, ready, outside⟩
    · exact Or.inl same
    · -- Who is BLOCKED in a table is not woken.
      refine Or.inr ⟨?_, alive, by simp [ready, Waiting]⟩
      rintro (blocked | killed)
      · rcases due with ⟨living, mem, -⟩ | ⟨-, active, -⟩ | d | d
        · exact outside blocked p (mem_table.mpr ⟨living, mem⟩)
        · exact active (Or.inl blocked)
        · exact spared d
        · exact alive d
      · exact spared killed

/-- The parts of an operation make nobody exit but those killed before. -/
theorem Parts.due (parts : Parts k log k') (due : Due p q KILL_EXIT_CODE code k) :
    Due p q KILL_EXIT_CODE code k' := by
  induction parts with
  | none => exact due
  | more before mid part ih =>
      cases part with
      | switch run => exact switch_due mid run ih
      | exits killed current run =>
          exact exit_due mid current (by simp [killed]) run (by split_ifs <;> rfl) ih
      | stirs stirs => exact stirs.due ih

end Due

/-! ### The call -/

section Call

variable {k k' : Kernel} {p fuel : Nat}

/-- The call on a process that is EXITED returns at once. -/
theorem waitPid_dead (i : Inv False k) (named : Named (k.pidOf p) p k)
    (dead : k.stateOf p = .exited) (run : k.waitPid fuel (k.pidOf p) = .ok k') : k' = k := by
  rw [waitPid_waitFor] at run
  split_ifs at run with own
  · cases run
    rfl
  · obtain ⟨pcb, search, run⟩ := bind_ok_iff.mp run
    split_ifs at run with gone
    · cases run
      rfl
    · push Not at gone
      obtain ⟨held, -, found⟩ := getPCBByPid_found i.toMid search gone.1
      exact absurd (named.unique pcb held found ▸ dead) gone.2

/-- The call on a process that is not EXITED records its caller. -/
theorem waitPid_records (i : Inv False k) (busy : ¬ k.idle) (alive : k.stateOf p ≠ .exited)
    (ne : p ≠ k.idlePCB) (other : k.pidOf p ≠ k.pidOf k.currentPCB)
    (call : k.waitPid fuel (k.pidOf p) = .ok k') :
    k'.stateOf p ≠ .exited ∧ k.currentPCB ∈ k'.waitersOf p ∧
      k'.stateOf k.currentPCB = .blocked := by
  have held := i.toMid.allocated alive
  rw [waitPid_waitFor, if_neg other] at call
  obtain ⟨pcb, search, run⟩ := bind_ok_iff.mp call
  obtain rfl := getPCBByPid_finds i.toMid held ne search
  have some : pcb ≠ NULL := by
    obtain ⟨_, _, _, ring, _⟩ := i.ring
    exact (ring.members pcb held).2.1
  rw [if_neg (not_or.mpr ⟨some, alive⟩)] at run
  obtain ⟨j, recorded, switch⟩ := bind_ok_iff.mp run
  obtain ⟨k₁, record, -⟩ := bind_ok_iff.mp recorded
  obtain ⟨fg, foreground, e⟩ := waitFor_ok record
  obtain rfl := Except.ok.inj (e.symm.trans recorded)
  obtain ⟨f, rfl, spec⟩ := recordWaiter_ok record
  have here : pcb ≠ k.currentPCB := fun e => other (by rw [e])
  have foreground : fg ≠ k.idlePCB := by
    rcases foreground with rfl | rfl
    · exact ne
    · exact i.family.foreground
  have mid := recorded_mid i busy alive here foreground record
  have selects := (contextSwitch_of_ok mid.ring mid.sched switch).selects
  have pcbs := recorded_pcbs (k := k) pcb f fg fun p => (spec p).2.1
  refine ⟨fun dead => ?_, ?_, ?_⟩
  · have dead := (selects.exited_iff pcb).mp dead
    rw [stateOf, pcbs] at dead
    simp only [if_neg here] at dead
    exact alive dead
  · rw [selects.waitersOf, waitersOf, pcbs]
    simp only [if_true, (spec _).2.2.1]
    exact List.mem_append_right _ (List.mem_singleton_self _)
  · have blocked := (congrArg PCB.state (pcbs k.currentPCB)).trans (if_pos rfl)
    exact (selects.waiting_eq (Or.inl blocked)).trans blocked

end Call

/-! ### Histories -/

/-- The code of a process that becomes EXITED in an operation. -/
def Kernel.exitCodeIn (k : Kernel) (p : Nat) : Op → Int
  | .exit exitCode => if p = k.currentPCB then exitCode else KILL_EXIT_CODE
  | _ => KILL_EXIT_CODE

section Operations

variable {k j k' : Kernel} {p q : Nat} {terminal code : Int} {op : Op} {log : List Event}

/-- Somebody else is blocked. -/
theorem Due.setState {r : Nat} {s : State} (due : Due p q terminal code k)
    (awake : Awake (k.stateOf r))
    (new : s = .blocked ∧ q ≠ r ∨ s = .blockedByUser) : Due p q terminal code (k.setState r s) := by
  refine due.frame ?_ (fun mem => by rwa [setState_waitersOf]) ?_ ?_
  · rw [stateOf_setState]
    split_ifs with e
    · subst e
      rcases new with ⟨rfl, -⟩ | rfl <;> simp [awake.active.2]
    · rfl
  · rw [codeOf, Kernel.setState, setPCB_pcbs, codeOf]
    split_ifs with e
    · rw [e]
    · rfl
  · rw [stateOf_setState]
    split_ifs with e
    · rcases new with ⟨-, ne⟩ | rfl
      · exact absurd e ne
      · exact Or.inr ⟨e ▸ awake.active.1, e ▸ awake.active.2, by simp [Waiting]⟩
    · exact Or.inl rfl

theorem Opening.due (i : Inv False k) (o : Opening k op log j) (lt : p < k.unused)
    (lt' : q < k.unused) (other : q ≠ k.currentPCB) (notExit : ∀ exitCode, op ≠ .exit exitCode)
    (due : Due p q KILL_EXIT_CODE code k) : Due p q KILL_EXIT_CODE code j := by
  cases o with
  | none => exact due
  | @exits _ _ exitCode _ exiting root run =>
      have killed : exitCode = KILL_EXIT_CODE := by
        cases op with
        | exit exitCode => exact absurd rfl (notExit exitCode)
        | kill _ => exact exiting
        | ctrlC => exact exiting
        | _ => exact exiting.elim
      exact exit_due i.toMid i.current root run (by rw [killed, ite_self]) due
  | @records _ _ pcb _ _ _ _ _ _ recorded =>
      have same := recordWaiter_pcbs recorded
      obtain ⟨f, rfl, spec⟩ := recordWaiter_ok recorded
      have states : ∀ s, (k.setPCB pcb f).stateOf s = k.stateOf s := fun s => by
        rw [stateOf, same, stateOf]
      have codes : (k.setPCB pcb f).codeOf q = k.codeOf q := by rw [codeOf, same, codeOf]
      have due₁ : Due p q KILL_EXIT_CODE code (k.setPCB pcb f) := by
        refine due.frame (by rw [states]) (fun mem => ?_) codes (Or.inl (states q))
        rw [waitersOf, setPCB_pcbs]
        split_ifs with e
        · rw [(spec _).2.2.1, ← e]
          exact List.mem_append_left _ mem
        · exact mem
      exact due₁.setState (by rw [states]; exact i.current) (Or.inl ⟨rfl, other⟩)
  | @blocks k₁ ring _ _ pcbs =>
      have states : ∀ s, k₁.stateOf s = k.stateOf s := fun s => by rw [stateOf, pcbs, stateOf]
      have due₁ : Due p q KILL_EXIT_CODE code k₁ := by
        refine due.frame (by rw [states]) (fun mem => ?_) ?_ (Or.inl (states q))
        · rwa [waitersOf, pcbs]
        · rw [codeOf, pcbs, codeOf]
      exact due₁.setState (by rw [states]; exact i.current) (Or.inl ⟨rfl, other⟩)
  | blocksByUser awake => exact due.setState awake (Or.inr rfl)
  | creates _ _ rsp garbage =>
      have old : ∀ s, s < k.unused → (added k rsp garbage).pcbs s = k.pcbs s := fun s lt => by
        rw [added_pcbs, if_neg (by omega)]
      refine due.frame ?_ (fun mem => ?_) ?_ (Or.inl (added_stateOf_old lt'))
      · rw [added_stateOf_old lt]
      · rwa [waitersOf, old p lt]
      · rw [codeOf, old q lt', codeOf]
  | fails => exact due

/-- One operation, at a time when `q` is not the running process. -/
theorem Trans.due (i : Inv False k) (trans : Trans k op k') (lt : p < k.unused)
    (lt' : q < k.unused) (other : q ≠ k.currentPCB) (due : Due p q (k.exitCodeIn p op) code k) :
    Due p q (k.exitCodeIn p op) code k' := by
  by_cases own : ∃ exitCode, op = .exit exitCode
  · obtain ⟨exitCode, rfl⟩ := own
    obtain ⟨busy, fuel, run⟩ := trans
    obtain ⟨out, exited, switch⟩ := bind_ok_iff.mp run
    obtain ⟨edits, -⟩ := exit_edits i i.current.active.2 (i.current_ne_idle busy)
      (fun s => s.elim) exited
    exact switch_due edits.mid switch
      (exit_due i.toMid i.current i.current.active.2 exited rfl due)
  · push Not at own
    have killed : k.exitCodeIn p op = KILL_EXIT_CODE := by
      cases op with
      | exit exitCode => exact absurd rfl (own exitCode)
      | _ => rfl
    rw [killed] at due ⊢
    obtain ⟨log, logged⟩ := trans.logged
    obtain ⟨j, _, _, opening, -, parts, -⟩ := parts_of_exec i logged
    exact parts.due (opening.due i lt lt' other own due)

end Operations

/-- A kernel, and for every process that was EXITED so far the code with which it
terminated. -/
structure History where
  kernel : Kernel
  codes : Nat → Option Int

namespace History

/-- The history after an operation. -/
def next (h : History) (op : Op) (k' : Kernel) : History where
  kernel := k'
  codes p := if h.kernel.stateOf p ≠ .exited ∧ k'.stateOf p = .exited then
    some (h.kernel.exitCodeIn p op) else h.codes p

def start (idleRsp initRsp : Nat) (garbage : Int) : History where
  kernel := boot idleRsp initRsp garbage
  codes _ := none

def Step (h h' : History) : Prop := ∃ op, Trans h.kernel op h'.kernel ∧ h' = h.next op h'.kernel

/-- The history of a run. -/
def Reached (h : History) : Prop :=
  ∃ idleRsp initRsp garbage, Relation.ReflTransGen Step (start idleRsp initRsp garbage) h

/-- A step that does not begin at a moment when `pcb` is running. -/
def StepWithout (pcb : Nat) (h h' : History) : Prop := h.kernel.currentPCB ≠ pcb ∧ h.Step h'

/-- `p` was created earlier, by `createProcess`. -/
def Created (h : History) (p : Nat) : Prop :=
  h.kernel.allocated p = true ∧ p ≠ h.kernel.idlePCB ∨ (h.codes p).isSome

section Histories

variable {h h' h₁ h₂ : History} {p q : Nat}

/-- The processes whose codes are known have terminated, and keep their pids. -/
def Recorded (h : History) : Prop :=
  ∀ p, (h.codes p).isSome → h.kernel.stateOf p = .exited ∧ Named (h.kernel.pidOf p) p h.kernel

theorem Step.recorded (i : Inv False h.kernel) (r : Recorded h) (step : h.Step h') :
    Inv False h'.kernel ∧ Recorded h' := by
  obtain ⟨op, trans, e⟩ := step
  have effect := trans.effect i
  have next := effect.inv i
  refine ⟨next, fun p known => ?_⟩
  have named : Named (h.kernel.pidOf p) p h.kernel ∧ h'.kernel.stateOf p = .exited := by
    rw [e] at known
    simp only [History.next] at known
    split_ifs at known with dies
    · -- It was alive before, and is not the idle process, which does not exit.
      refine ⟨i.named (i.toMid.allocated dies.1) fun idle => ?_, dies.2⟩
      have ready := next.sched.idle
      rw [effect.idlePCB i, ← idle, dies.2] at ready
      cases ready
    · obtain ⟨dead, named⟩ := r p known
      exact ⟨named, effect.moves.dead p named.lt dead⟩
  refine ⟨named.2, ?_⟩
  rw [effect.moves.pids p named.1.lt]
  exact named.1.moves effect.moves i.ring

theorem Reached.recorded (reached : h.Reached) : Inv False h.kernel ∧ Recorded h := by
  obtain ⟨idleRsp, initRsp, garbage, run⟩ := reached
  induction run with
  | refl => exact ⟨boot_inv _ _ _ _, fun p known => by cases known⟩
  | tail _ step ih => exact Step.recorded ih.1 ih.2 step

/-- `q` waits for `p`, or has the code with which `p` terminated, or was killed. -/
def Owes (p q : Nat) (h : History) : Prop :=
  (h.kernel.stateOf p ≠ .exited ∧ q ∈ h.kernel.waitersOf p ∧ h.kernel.stateOf q = .blocked) ∨
    (h.kernel.stateOf p = .exited ∧ ¬ Waiting (h.kernel.stateOf q) ∧
      h.codes p = some (h.kernel.codeOf q)) ∨ Dead (h.kernel.stateOf q)

theorem Owes.step (i : Inv False h.kernel) (lt : p < h.kernel.unused) (lt' : q < h.kernel.unused)
    (owes : Owes p q h) (step : h.StepWithout q h') : Owes p q h' := by
  obtain ⟨ne, op, trans, e⟩ := step
  have effect := trans.effect i
  have codes : ∀ code, (if h.kernel.stateOf p ≠ .exited ∧ h'.kernel.stateOf p = .exited then
      some (h.kernel.exitCodeIn p op) else h.codes p) = some code → h'.codes p = some code :=
    fun code known => (congrArg (fun h => h.codes p) e).trans known
  rcases owes with ⟨alive, mem, blocked⟩ | ⟨dead, active, known⟩ | dead
  · rcases trans.due i lt lt' ne.symm (Or.inl ⟨alive, mem, blocked, rfl⟩) with
      ⟨alive, mem, blocked, -⟩ | ⟨dies, active, given⟩ | dead
    · exact Or.inl ⟨alive, mem, blocked⟩
    · exact Or.inr (Or.inl ⟨dies, active, codes _ (by rw [if_pos ⟨alive, dies⟩, given])⟩)
    · exact Or.inr (Or.inr dead)
  · -- What was given stays.
    have still := effect.moves.dead p lt dead
    rcases trans.due i lt lt' ne.symm (Or.inr (Or.inl ⟨dead, active, rfl⟩)) with
      ⟨alive, -⟩ | ⟨dies, active, given⟩ | dead'
    · exact absurd still alive
    · refine Or.inr (Or.inl ⟨dies, active, codes _ ?_⟩)
      rw [if_neg fun both => both.1 dead, given, known]
    · exact Or.inr (Or.inr dead')
  · exact Or.inr (Or.inr (effect.moves.dead_mono lt' dead))

theorem Owes.run (i : Inv False h.kernel) (lt : p < h.kernel.unused) (lt' : q < h.kernel.unused)
    (owes : Owes p q h) (run : Relation.ReflTransGen (StepWithout q) h h') :
    Inv False h'.kernel ∧ Owes p q h' := by
  have all : Inv False h'.kernel ∧ p < h'.kernel.unused ∧ q < h'.kernel.unused ∧ Owes p q h' := by
    induction run with
    | refl => exact ⟨i, lt, lt', owes⟩
    | tail _ step ih =>
        obtain ⟨i, lt, lt', owes⟩ := ih
        have effect := step.2.choose_spec.1.effect i
        have unused := effect.moves.unused
        exact ⟨effect.inv i, by omega, by omega, owes.step i lt lt' step⟩
  exact ⟨all.1, all.2.2.2⟩

end Histories

/-- A list of operations, one after the other. -/
def perform (fuel : Nat) : List Op → History → Option History
  | [], h => some h
  | op :: ops, h =>
      if h.kernel.Enabled op then
        match h.kernel.exec fuel op with
        | .ok k' => perform fuel ops (h.next op k')
        | .error _ => none
      else none

theorem perform_run {fuel : Nat} {ops : List Op} {h h' : History}
    (run : perform fuel ops h = some h') : Relation.ReflTransGen Step h h' := by
  induction ops generalizing h with
  | nil =>
      cases run
      exact .refl
  | cons op ops ih =>
      unfold perform at run
      split_ifs at run with can
      split at run
      · rename_i next ran
        exact .head ⟨op, ⟨can, fuel, ran⟩, rfl⟩ (ih run)
      · cases run

end History

/-- In every history: the running process calls `waitPid` with the pid of another
process `p` that was created, and runs again for the first time, which is when the call
returns. What it returns is the code with which `p` terminated exactly when `p` was not
EXITED yet at the time of the call, or the field the code is read from held that code
already. -/
theorem waitPid_delivers {h h' : History} {p : Nat} {k : Kernel} (reached : h.Reached)
    (created : h.Created p) (other : h.kernel.pidOf p ≠ h.kernel.pidOf h.kernel.currentPCB)
    (call : Trans h.kernel (.waitPid (h.kernel.pidOf p)) k)
    (waits : Relation.ReflTransGen (History.StepWithout h.kernel.currentPCB)
      (h.next (.waitPid (h.kernel.pidOf p)) k) h')
    (returns : h'.kernel.currentPCB = h.kernel.currentPCB) :
    h'.codes p = some (h'.kernel.codeOf h.kernel.currentPCB) ↔
      h.kernel.stateOf p ≠ .exited ∨ h.codes p = some (h.kernel.codeOf h.kernel.currentPCB) := by
  obtain ⟨i, recorded⟩ := History.Reached.recorded reached
  have named : Named (h.kernel.pidOf p) p h.kernel := by
    rcases created with ⟨held, ne⟩ | known
    · exact i.named held ne
    · exact (recorded p known).2
  have next := (call.effect i).inv i
  have moves := (call.effect i).moves
  obtain ⟨busy, fuel, run⟩ := call
  by_cases dead : h.kernel.stateOf p = .exited
  · -- The call returned at once.
    obtain rfl := waitPid_dead i named dead run
    have stays : h' = h.next (.waitPid (h.kernel.pidOf p)) h.kernel := by
      rcases waits.cases_head with e | ⟨_, ⟨ne, -⟩, -⟩
      · exact e.symm
      · exact absurd rfl ne
    have codes : h'.codes p = h.codes p := by
      rw [stays]
      exact if_neg fun both => both.1 dead
    have kernel : h'.kernel = h.kernel := by rw [stays]; rfl
    rw [codes, kernel]
    exact ⟨Or.inr, fun either => either.resolve_left (not_not.mpr dead)⟩
  · refine iff_of_true ?_ (Or.inl dead)
    have ne : p ≠ h.kernel.idlePCB := by
      rcases created with ⟨-, ne⟩ | known
      · exact ne
      · exact absurd (recorded p known).1 dead
    have waiting := waitPid_records i busy dead ne other run
    have current := i.toMid.current_lt
    obtain ⟨i', owes⟩ := History.Owes.run (h := h.next (.waitPid (h.kernel.pidOf p)) k) next
      (Nat.lt_of_lt_of_le named.lt moves.unused) (Nat.lt_of_lt_of_le current moves.unused)
      (Or.inl waiting) waits
    -- It runs, so it does not wait and was not killed.
    have awake := i'.current
    rw [returns] at awake
    rcases owes with ⟨-, -, blocked⟩ | ⟨-, -, given⟩ | killed | exited
    · exact absurd (Or.inl blocked) awake.active.1
    · exact given
    · exact absurd (Or.inr killed) awake.active.1
    · exact absurd exited awake.active.2

/-- A child that exits with 7 while `init` waits for it. -/
theorem waitPid_delivers_later : ∃ h' : History, h'.codes 6 = some 7 ∧ h'.kernel.codeOf 4 = 7 := by
  have ran : (History.perform 40 [.createProcess ⟨true, true, true, true, true⟩ 0 0]
      (History.start 0 0 0)).map (fun h => decide (¬ h.kernel.idle ∧ h.kernel.currentPCB = 4 ∧
        h.kernel.pidOf 6 = 1 ∧ h.kernel.pidOf 4 = 0 ∧ h.kernel.allocated 6 = true ∧
        6 ≠ h.kernel.idlePCB ∧ h.kernel.stateOf 6 = .ready ∧
        (h.kernel.waitPid 40 1).toOption.map (fun k => decide (k.currentPCB = 6 ∧ ¬ k.idle ∧
          (k.exitCurrentProcess 40 7).toOption.map (fun k' => decide (k'.currentPCB = 4 ∧
            k.stateOf 6 ≠ .exited ∧ k'.stateOf 6 = .exited)) = some true)) = some true)) =
      some true := by decide +kernel
  obtain ⟨h, run, state⟩ := Option.map_eq_some_iff.mp ran
  obtain ⟨busy, here, pid, pid', held, ne, ready, waited⟩ := of_decide_eq_true state
  obtain ⟨k, called, state⟩ := Option.map_eq_some_iff.mp waited
  obtain ⟨there, busy', exited⟩ := of_decide_eq_true state
  obtain ⟨k', exits, state⟩ := Option.map_eq_some_iff.mp exited
  obtain ⟨back, alive, dead⟩ := of_decide_eq_true state
  let waiting := h.next (.waitPid 1) k
  have step : History.StepWithout 4 waiting (waiting.next (.exit 7) k') :=
    ⟨by simp [waiting, History.next, there],
      .exit 7, ⟨busy', 40, ok_of_toOption exits⟩, rfl⟩
  have code : (waiting.next (.exit 7) k').codes 6 = some 7 := by
    have := (if_pos ⟨alive, dead⟩ : (if k.stateOf 6 ≠ .exited ∧ k'.stateOf 6 = .exited then
      some (k.exitCodeIn 6 (.exit 7)) else waiting.codes 6) = _)
    refine this.trans ?_
    rw [Kernel.exitCodeIn, if_pos there.symm]
  have waits : Relation.ReflTransGen (History.StepWithout h.kernel.currentPCB)
      (h.next (.waitPid (h.kernel.pidOf 6)) k) (waiting.next (.exit 7) k') := by
    rw [pid, here]
    exact .single step
  have delivered := (waitPid_delivers ⟨0, 0, 0, History.perform_run run⟩ (Or.inl ⟨held, ne⟩)
    (by rw [here, pid, pid']; decide) (by rw [pid]; exact ⟨busy, 40, ok_of_toOption called⟩) waits
    (by rw [here]; exact back)).mpr (Or.inl (by simp [ready]))
  refine ⟨_, code, ?_⟩
  rw [here, code] at delivered
  exact (Option.some.inj delivered).symm

/-- A child that exits with 7 before `init` waits for it: the call returns what the field
held when `init` was created. -/
theorem early_exit_code_lost : ∃ (h : History) (k : Kernel), h.Reached ∧ h.Created 6 ∧
    h.kernel.pidOf 6 ≠ h.kernel.pidOf h.kernel.currentPCB ∧
    Trans h.kernel (.waitPid (h.kernel.pidOf 6)) k ∧ k.currentPCB = h.kernel.currentPCB ∧
    (h.next (.waitPid (h.kernel.pidOf 6)) k).codes 6 = some 7 ∧ k.codeOf k.currentPCB = 0 := by
  have ran :
      (History.perform 40 [.createProcess ⟨true, true, true, true, true⟩ 0 0, .yield, .exit 7]
      (History.start 0 0 0)).map (fun h => decide (¬ h.kernel.idle ∧
        h.kernel.pidOf h.kernel.currentPCB = 0 ∧ h.kernel.pidOf 6 = 1 ∧ h.codes 6 = some 7 ∧
        h.kernel.stateOf 6 = .exited ∧
        (h.kernel.waitPid 40 1).toOption.map (fun k => decide (
          k.currentPCB = h.kernel.currentPCB ∧ k.codeOf k.currentPCB = 0)) = some true)) =
      some true := by decide +kernel
  obtain ⟨h, run, state⟩ := Option.map_eq_some_iff.mp ran
  obtain ⟨busy, own, pid, code, dead, waited⟩ := of_decide_eq_true state
  obtain ⟨k, called, state⟩ := Option.map_eq_some_iff.mp waited
  obtain ⟨back, stale⟩ := of_decide_eq_true state
  refine ⟨h, k, ⟨0, 0, 0, History.perform_run run⟩,
    Or.inr (by rw [code]; rfl), by rw [pid, own]; decide,
    by rw [pid]; exact ⟨busy, 40, ok_of_toOption called⟩, back, ?_, stale⟩
  exact (if_neg fun both => both.1 dead).trans code

end SoTp.Process
