/-
Operations that return. A run goes on at every operation that is `Orderly`: each of its loops
ends, and it makes no access the language gives no meaning to.

* `exit_mono` — what `exitProcessByPCB` does with some fuel it does with more.
* `exec_returns` — in a state with strict records every orderly operation has a result.
* `orderly_returns` — so it has in every state that orderly operations lead to.
-/

import SoTp.Process.Exhaustion
import SoTp.Process.Waiters

namespace SoTp.Process

open SoTp.Lib Kernel

/-! ### The pieces of an operation -/

theorem exitWaiters_mono {f g : Nat → Kernel → Exec Outcome} {exitCode : Int} {ps : List Nat}
    {k : Kernel}
    {out : Outcome} (more : ∀ q k out, f q k = .ok out → g q k = .ok out)
    (run : exitWaiters f exitCode ps k = .ok out) : exitWaiters g exitCode ps k = .ok out := by
  induction ps generalizing k with
  | nil => exact run
  | cons q rest ih =>
      unfold exitWaiters at run ⊢
      split_ifs at run ⊢
      cases state : k.stateOf q <;> simp only [state] at run ⊢
      case waitingForExit =>
        obtain ⟨mid, ran, run⟩ := bind_ok_iff.mp run
        refine bind_ok_iff.mpr ⟨mid, more _ _ _ ran, ?_⟩
        split_ifs at run ⊢
        · exact run
        · exact ih run
      all_goals exact ih run

theorem exit_mono {fuel more p : Nat} {exitCode : Int} {k : Kernel} {out : Outcome}
    (le : fuel ≤ more)
    (run : exitProcessByPCB fuel p exitCode k = .ok out) : exitProcessByPCB more p exitCode k =
      .ok out := by
  induction fuel generalizing more p exitCode k out with
  | zero => cases run
  | succ fuel ih =>
      obtain ⟨more, rfl⟩ : ∃ n, more = n + 1 := ⟨more - 1, by omega⟩
      unfold exitProcessByPCB at run ⊢
      split_ifs at run ⊢
      cases state : k.stateOf p <;> simp only [state] at run ⊢
      case exited | blocked => exact run
      all_goals
        obtain ⟨mid, ran, run⟩ := bind_ok_iff.mp run
        exact bind_ok_iff.mpr ⟨mid, exitWaiters_mono (fun _ _ _ => ih (by omega)) ran, run⟩

/-- A process that is EXITED already stays as it is. -/
theorem exit_exited {fuel p : Nat} {exitCode : Int} {k : Kernel} {out : Outcome}
    (dead : k.stateOf p = .exited)
    (run : exitProcessByPCB fuel p exitCode k = .ok out) : out = ⟨k, false⟩ := by
  cases fuel with
  | zero => cases run
  | succ fuel =>
      rw [exitProcessByPCB, dead] at run
      split_ifs at run
      cases run
      rfl

section Pieces

variable {strict : Prop} {k : Kernel} {p pid : Nat} {exitCode : Int}

theorem Mid.search_yields (m : Mid strict k) (pid : Nat) :
    ∃ pcb, Yields (fun fuel => k.getPCBByPid fuel pid) pcb := by
  obtain ⟨before, cursor, after, ring, -⟩ := m.ring
  exact ⟨_, _, fun fuel enough => ring.pidRing.search pid (Nat.le_of_lt enough)⟩

theorem Mid.switch_yields (m : Mid strict k) :
    ∃ k', Yields (fun fuel => k.contextSwitch fuel) k' := by
  obtain ⟨n, total⟩ := contextSwitch_total m.ring m.sched
  obtain ⟨k', run, -⟩ := total (n + 1) (Nat.lt_succ_self n)
  exact ⟨k', .of_run (fun _ le run => contextSwitch_mono le run) run⟩

theorem Mid.finish_yields (m : Mid strict k) (left : Bool) :
    ∃ k', Yields (fun fuel => finish fuel ⟨k, left⟩) k' := by
  cases left with
  | true => exact m.switch_yields
  | false => exact ⟨_, .ok k⟩

theorem Inv.exit_yields (i : Inv True k) (held : k.allocated p = true) (exitCode : Int) :
    ∃ out, Yields (fun fuel => exitProcessByPCB fuel p exitCode k) out := by
  obtain ⟨_, _, _, ring, _⟩ := i.ring
  obtain ⟨out, run⟩ := i.toMid.exit_returns p exitCode i.current (fun q hq => (ring.members q hq).1)
    (Nat.lt_succ_self k.unused) held
  exact ⟨out, .of_run (fun _ le run => exit_mono le run) run⟩

theorem Inv.exit_mid {fuel : Nat} {out : Outcome} (i : Inv strict k) (ne : p ≠ k.idlePCB)
    (first : k.stateOf p ≠ .waitingForExit) (run : exitProcessByPCB fuel p exitCode k = .ok out) :
    Mid strict out.kernel := by
  by_cases dead : k.stateOf p = .exited
  · rw [exit_exited dead run]
    exact i.toMid
  · exact (exit_edits i dead ne (fun _ => first) run).1.mid

/-- `exitProcessByPCB`, and then a context switch in any case. -/
theorem Inv.exit_switch_yields (i : Inv True k) (held : k.allocated p = true) (ne : p ≠ k.idlePCB)
    (first : k.stateOf p ≠ .waitingForExit) (exitCode : Int) : ∃ k', Yields (fun fuel =>
      exitProcessByPCB fuel p exitCode k >>= fun out => out.kernel.contextSwitch fuel) k' := by
  obtain ⟨out, exits⟩ := i.exit_yields held exitCode
  obtain ⟨fuel, run⟩ := exits.run
  obtain ⟨k', switch⟩ := (i.exit_mid ne first run).switch_yields
  exact ⟨k', exits.bind (g := fun out fuel => out.kernel.contextSwitch fuel) switch⟩

end Pieces

/-! ### The operations -/

section Operations

variable {k : Kernel} {pid : Nat}

theorem Inv.kill_yields (i : Inv True k) (pid : Nat) :
    ∃ r, Yields (fun fuel => k.kill fuel pid) r := by
  unfold kill
  split_ifs
  · exact ⟨_, .ok _⟩
  · obtain ⟨pcb, search⟩ := i.toMid.search_yields pid
    obtain ⟨n, found⟩ := search.run
    by_cases dead : pcb = NULL ∨ k.stateOf pcb = .exited ∨ k.stateOf pcb = .waitingForExit
    · refine ⟨(k, false), search.bind (b := (k, false)) ?_⟩
      simp only [if_pos dead]
      exact .ok _
    · have alive := dead
      push Not at alive
      obtain ⟨held, ne, -⟩ := getPCBByPid_found i.toMid found alive.1
      obtain ⟨out, exits⟩ := i.exit_yields held KILL_EXIT_CODE
      obtain ⟨n, run⟩ := exits.run
      obtain ⟨k', finished⟩ := (i.exit_mid ne alive.2.2 run).finish_yields out.left
      refine ⟨(k', true), search.bind (b := (k', true)) ?_⟩
      simp only [if_neg dead]
      exact exits.bind (finished.bind (.ok _))

theorem recordWaiter_room {pcb : Nat} (room : (k.waitersOf pcb).length ≤ 10) (waiter : Nat) :
    ∃ k₁, k.recordWaiter pcb waiter = .ok k₁ := by
  unfold recordWaiter
  simp only []
  split_ifs
  · exact ⟨_, rfl⟩
  · exact ⟨_, rfl⟩
  · omega

theorem Inv.waitFor_mid {pcb : Nat} (i : Inv True k) (busy : ¬ k.idle)
    (alive : k.stateOf pcb ≠ .exited)
    (ne : pcb ≠ k.idlePCB) (other : pcb ≠ k.currentPCB) (room : (k.waitersOf pcb).length ≤ 10) :
    ∃ j, k.waitFor pcb = .ok j ∧ Mid True j := by
  obtain ⟨k₁, recorded⟩ := recordWaiter_room room k.currentPCB
  obtain ⟨fg, foreground, waits⟩ := waitFor_ok recorded
  obtain ⟨f, rfl, -⟩ := recordWaiter_ok recorded
  have foreground : fg ≠ k.idlePCB := by
    rcases foreground with rfl | rfl
    · exact ne
    · exact i.family.foreground
  have edits : Edits True (fun _ => True) k _ :=
    (table_blocked i.toMid i.current busy alive other foreground recorded).edits i.toMid
      i.current busy fun _ _ => trivial
  exact ⟨_, waits, edits.mid⟩

theorem Inv.waitPid_yields (i : Inv True k) (busy : ¬ k.idle) (room : k.Orderly (.waitPid pid)) :
    ∃ k', Yields (fun fuel => k.waitPid fuel pid) k' := by
  simp only [waitPid_waitFor]
  split_ifs with self
  · exact ⟨_, .ok k⟩
  · obtain ⟨pcb, search⟩ := i.toMid.search_yields pid
    obtain ⟨n, found⟩ := search.run
    by_cases dead : pcb = NULL ∨ k.stateOf pcb = .exited
    · refine ⟨k, search.bind (b := k) ?_⟩
      simp only [if_pos dead]
      exact .ok _
    · have alive := dead
      push Not at alive
      obtain ⟨held, ne, named⟩ := getPCBByPid_found i.toMid found alive.1
      have lt : pcb < k.unused := by
        obtain ⟨_, _, _, ring, _⟩ := i.ring
        exact (ring.members pcb held).1
      have fits : (k.waitersOf pcb).length ≤ 10 := by
        by_contra full
        exact room self pcb lt named ⟨held, alive.2, Nat.lt_of_not_le full⟩
      obtain ⟨j, waits, mid⟩ :=
        i.waitFor_mid busy alive.2 ne (fun e => self (by rw [← named, e])) fits
      obtain ⟨k', switch⟩ := mid.switch_yields
      refine ⟨k', search.bind (b := k') ?_⟩
      simp only [if_neg dead, waits, ok_bind]
      exact switch

theorem Inv.sleep_yields {ticks : Nat} {node : Bool} (i : Inv True k) (busy : ¬ k.idle)
    (ok : 0 < ticks → node = true) : ∃ k', Yields (fun fuel => k.sleep fuel ticks node) k' := by
  unfold Kernel.sleep
  split_ifs with pos some
  · have edits : Edits True (fun _ => True) k _ :=
      (sleep_blocked i.toMid i.current ticks).edits i.toMid i.current busy fun _ _ => trivial
    exact edits.mid.switch_yields
  · exact absurd (ok pos) some
  · exact ⟨_, .ok k⟩

theorem Inv.blockByUser_yields (i : Inv True k) (pid : Nat) :
    ∃ r, Yields (fun fuel => k.blockByUser fuel pid) r := by
  obtain ⟨pcb, search⟩ := i.toMid.search_yields pid
  obtain ⟨n, found⟩ := search.run
  by_cases can : pcb ≠ NULL ∧ (k.stateOf pcb = .ready ∨ k.stateOf pcb = .running)
  · obtain ⟨-, ne, -⟩ := getPCBByPid_found i.toMid found can.1
    have awake : Awake (k.stateOf pcb) := can.2
    have edits :=
      setState_edits (s := .blockedByUser) i.toMid awake.active.1 awake.active.2 ne (Or.inr rfl)
    obtain ⟨k', finished⟩ := edits.mid.finish_yields ((k.setState pcb .blockedByUser).isCurrent pcb)
    refine ⟨(k', true), search.bind (b := (k', true)) ?_⟩
    simp only [if_pos can]
    exact finished.bind (.ok _)
  · refine ⟨(k, false), search.bind (b := (k, false)) ?_⟩
    simp only [if_neg can]
    exact .ok _

theorem Inv.timerTick_returns (i : Inv True k) : ∃ fuel k', k.timerTick fuel = .ok k' := by
  obtain ⟨n, switches⟩ := contextSwitch_total i.ring i.sched
  obtain ⟨j, switch, switched⟩ := switches (n + 1) (Nat.lt_succ_self n)
  have i' := i.toMid.switched switched
  obtain ⟨m, ticks⟩ := incTicks_total i'
  obtain ⟨out, ticked⟩ := ticks (max n m + 1) (by omega)
  refine ⟨max n m + 1, out.kernel, bind_ok_iff.mpr ⟨j, contextSwitch_mono (by omega) switch,
    bind_ok_iff.mpr ⟨out, ticked, ?_⟩⟩⟩
  rw [finish, (incTicks_spec i' ticked).1]
  rfl

/-- With strict records every orderly operation that can be made has a result. -/
theorem exec_returns {op : Op} (i : Inv True k) (can : k.Enabled op) (ok : k.Orderly op) :
    ∃ k', Trans k op k' := by
  suffices returns : ∃ fuel k', k.exec fuel op = .ok k' by
    obtain ⟨fuel, k', run⟩ := returns
    exact ⟨k', can, fuel, run⟩
  have mapped : ∀ {α : Type} {f : Nat → Exec (Kernel × α)} {r : Kernel × α}, Yields f r →
      ∃ fuel k', (f fuel).map Prod.fst = .ok k' := fun {α f r} yields => by
    obtain ⟨fuel, run⟩ := yields.run
    exact ⟨fuel, r.1, map_ok_iff.mpr ⟨r, run, rfl⟩⟩
  have plain : ∀ {f : Nat → Exec Kernel}, (∃ k', Yields f k') → ∃ fuel k', f fuel = .ok k' :=
    fun ⟨k', yields⟩ => yields.run.imp fun _ run => ⟨k', run⟩
  cases op with
  | createProcess mem rsp garbage =>
      exact ⟨0, _, map_ok_iff.mpr ⟨_, if_pos ok, rfl⟩⟩
  | exit exitCode =>
      exact plain (i.exit_switch_yields (i.toMid.allocated i.current.active.2)
        (i.current_ne_idle can) (fun killed => i.current.active.1 (Or.inr killed)) exitCode)
  | kill pid =>
      obtain ⟨r, yields⟩ := i.kill_yields pid
      exact mapped yields
  | waitPid pid => exact plain (i.waitPid_yields can ok)
  | sleep ticks node => exact plain (i.sleep_yields can ok)
  | semInit initialValue => exact ⟨0, _, rfl⟩
  | waitSemaphore semId node =>
      obtain ⟨n, r, returns⟩ := waitSemaphore_total i can semId node
      exact mapped ⟨n, returns⟩
  | postSemaphore semId =>
      obtain ⟨n, returns⟩ := postSemaphore_total i semId
      obtain ⟨r, run⟩ := returns (n + 1) (Nat.lt_succ_self n)
      exact ⟨n + 1, r.1, map_ok_iff.mpr ⟨r, run, rfl⟩⟩
  | destroySemaphore semId =>
      obtain ⟨n, returns⟩ := destroySemaphore_total i semId
      obtain ⟨r, run⟩ := returns (n + 1) (Nat.lt_succ_self n)
      exact ⟨n + 1, r.1, map_ok_iff.mpr ⟨r, run, rfl⟩⟩
  | blockByUser pid =>
      obtain ⟨r, yields⟩ := i.blockByUser_yields pid
      exact mapped yields
  | unblock pid =>
      obtain ⟨pcb, search⟩ := i.toMid.search_yields pid
      obtain ⟨fuel, found⟩ := search.run
      refine ⟨fuel, ?_⟩
      show ∃ k', (k.getPCBByPid fuel pid >>= _).map Prod.fst = .ok k'
      rw [found, ok_bind]
      split_ifs <;> exact ⟨_, rfl⟩
  | changePriority pid newPriority =>
      obtain ⟨pcb, search⟩ := i.toMid.search_yields pid
      obtain ⟨fuel, found⟩ := search.run
      refine ⟨fuel, ?_⟩
      show ∃ k', (k.changePriority fuel pid newPriority).map Prod.fst = .ok k'
      unfold changePriority
      rw [found, ok_bind]
      split_ifs <;> exact ⟨_, rfl⟩
  | yield =>
      have edits := setState_edits (s := .ready) i.toMid i.current.active.1 i.current.active.2
        (i.current_ne_idle can) (Or.inl rfl)
      exact plain edits.mid.switch_yields
  | timerTick => exact i.timerTick_returns
  | reschedule => exact plain i.toMid.switch_yields
  | ctrlC =>
      show ∃ fuel k', k.killCurrentProcessInForeground fuel = .ok k'
      unfold killCurrentProcessInForeground
      split_ifs with init
      · exact ⟨0, k, rfl⟩
      · exact plain (i.exit_switch_yields ok.1 i.family.foreground (ok.2 init) KILL_EXIT_CODE)
  | userCode rsp junk => exact ⟨0, _, rfl⟩

end Operations

/-- No run of orderly operations is cut off. -/
theorem orderly_returns {k : Kernel} {op : Op} (reach : Reach Kernel.Orderly k) (can : k.Enabled op)
    (ok : k.Orderly op) : ∃ k', Trans k op k' :=
  exec_returns (reach.inv fun _ _ _ ok => ok.firstKill) can ok

end SoTp.Process
