/-
The exit cascade. `exitProcessByPCB` of a process that is neither BLOCKED nor
EXITED marks it EXITED, wakes the BLOCKED processes of its table and finishes off
the WAITING_FOR_EXIT ones, whose tables are treated the same.

* `exitProcessByPCB_spec` — what has happened when it returns: `Exits`.
* `exitProcessByPCB_total` — it returns, when no table of a living process holds
  a PCB that was freed.
-/

import Mathlib.Data.Finset.Card
import SoTp.Process.Select

namespace SoTp.Process

open SoTp.Lib Kernel

/-- BLOCKED, or killed while BLOCKED. -/
def Waiting (s : State) : Prop := s = .blocked ∨ s = .waitingForExit

/-- How an exit moves the processes that waited for it. -/
def Settling (s s' : State) : Prop :=
  s = .blocked ∧ s' = .ready ∨ s = .waitingForExit ∧ s' = .exited

theorem Settling.waiting {s s' : State} (h : Settling s s') : Waiting s :=
  h.imp And.left And.left

theorem Settling.not_waiting {s s' : State} (h : Settling s s') : ¬ Waiting s' := by
  rcases h with ⟨-, rfl⟩ | ⟨-, rfl⟩ <;> simp [Waiting]

theorem Settling.ne_exited {s s' : State} (h : Settling s s') : s ≠ .exited := by
  rcases h with ⟨rfl, -⟩ | ⟨rfl, -⟩ <;> simp

theorem Settling.ne_running {s s' : State} (h : Settling s s') : s' ≠ .running := by
  rcases h with ⟨-, rfl⟩ | ⟨-, rfl⟩ <;> simp

/-! ### What an exit leaves alone -/

/-- Only states, exit codes and the foreground process change. -/
structure ExitFrame (k k' : Kernel) : Prop where
  ring : SameRing k k'
  unused : k'.unused = k.unused
  semArray : k'.semArray = k.semArray
  freedPositions : k'.freedPositions = k.freedPositions
  sleepNodes : k'.sleepNodes = k.sleepNodes
  first : k'.first = k.first
  samePCB : ∀ p, k'.pcbs p = { k.pcbs p with
    state := (k'.pcbs p).state, waitedProcessExitCode := (k'.pcbs p).waitedProcessExitCode }
  foreground : k'.processInForeground = k.processInForeground ∨
    ∃ p, k'.processInForeground = (k.pcbs p).parentProc

namespace ExitFrame

variable {k k' k'' : Kernel}

theorem refl (k : Kernel) : ExitFrame k k :=
  ⟨SameRing.refl k, rfl, rfl, rfl, rfl, rfl, fun _ => rfl, Or.inl rfl⟩

theorem trans (h : ExitFrame k k') (h' : ExitFrame k' k'') : ExitFrame k k'' where
  ring := h.ring.trans h'.ring
  unused := h'.unused.trans h.unused
  semArray := h'.semArray.trans h.semArray
  freedPositions := h'.freedPositions.trans h.freedPositions
  sleepNodes := h'.sleepNodes.trans h.sleepNodes
  first := h'.first.trans h.first
  samePCB p := by rw [h'.samePCB p, h.samePCB p]
  foreground := by
    rcases h'.foreground with e | ⟨p, e⟩
    · rw [e]
      exact h.foreground
    · exact Or.inr ⟨p, by rw [e, h.samePCB p]⟩

theorem waitersOf (h : ExitFrame k k') (p : Nat) : k'.waitersOf p = k.waitersOf p := by
  rw [Kernel.waitersOf, h.samePCB, Kernel.waitersOf]

theorem parentProc (h : ExitFrame k k') (p : Nat) :
    (k'.pcbs p).parentProc = (k.pcbs p).parentProc := by
  rw [h.samePCB]

theorem setPCB {p : Nat} {f : PCB → PCB} (same : f (k.pcbs p) = { k.pcbs p with
    state := (f (k.pcbs p)).state, waitedProcessExitCode :=
      (f (k.pcbs p)).waitedProcessExitCode }) :
    ExitFrame k (k.setPCB p f) := by
  refine ⟨setPCB_sameRing (by rw [same]), rfl, rfl, rfl, rfl, rfl, fun q => ?_, Or.inl rfl⟩
  rw [setPCB_pcbs]
  split_ifs with e
  · rw [e]
    exact same
  · rfl

end ExitFrame

/-! ### What an exit does -/

/-- `q` is in the table of a process that has become EXITED between `k` and `k'`. -/
def Owed (k k' : Kernel) (q : Nat) : Prop :=
  ∃ r, q ∈ k.waitersOf r ∧ k.stateOf r ≠ .exited ∧ k'.stateOf r = .exited

/-- The processes of `owed`, and the waiters of those that became EXITED, are
settled; nobody else moves. -/
structure Settles (owed : Nat → Prop) (k k' : Kernel) : Prop extends ExitFrame k k' where
  changes : ∀ q, k'.stateOf q = k.stateOf q ∨
    (owed q ∨ Owed k k' q) ∧ Settling (k.stateOf q) (k'.stateOf q) ∧ k.allocated q = true
  settled : ∀ r, k.stateOf r ≠ .exited → k'.stateOf r = .exited → ∀ q ∈ k.waitersOf r,
    ¬ Waiting (k'.stateOf q)

/-- `p` has exited, and with it everything that depended on it. -/
structure Exits (p : Nat) (k k' : Kernel) : Prop extends ExitFrame k k' where
  alive : k.allocated p = true
  root : k'.stateOf p = .exited
  changes : ∀ q, q ≠ p → k'.stateOf q = k.stateOf q ∨
    Owed k k' q ∧ Settling (k.stateOf q) (k'.stateOf q) ∧ k.allocated q = true
  settled : ∀ r, k.stateOf r ≠ .exited → k'.stateOf r = .exited → ∀ q ∈ k.waitersOf r,
    ¬ Waiting (k'.stateOf q)

namespace Settles

variable {k k' k'' : Kernel} {owed owed' : Nat → Prop}

theorem refl (owed : Nat → Prop) (k : Kernel) : Settles owed k k :=
  ⟨ExitFrame.refl k, fun _ => Or.inl rfl, fun _ ne e => absurd e ne⟩

theorem mono (h : Settles owed k k') (weaker : ∀ q, owed q → owed' q) : Settles owed' k k' :=
  { h with changes := fun q => (h.changes q).imp id fun ⟨o, s, a⟩ => ⟨o.imp (weaker q) id, s, a⟩ }

theorem exited (h : Settles owed k k') {q : Nat} (dead : k.stateOf q = .exited) :
    k'.stateOf q = .exited := by
  rcases h.changes q with e | ⟨-, s, -⟩
  · rw [e, dead]
  · exact absurd dead s.ne_exited

/-- Who is not waiting is left alone. -/
theorem not_waiting (h : Settles owed k k') {q : Nat} (active : ¬ Waiting (k.stateOf q)) :
    k'.stateOf q = k.stateOf q :=
  (h.changes q).resolve_right fun ⟨_, s, _⟩ => active s.waiting

theorem trans (h : Settles owed k k') (h' : Settles owed k' k'') : Settles owed k k'' where
  toExitFrame := h.toExitFrame.trans h'.toExitFrame
  changes q := by
    rcases h.changes q with e | ⟨o, s, a⟩
    · refine (h'.changes q).imp (fun e' => e'.trans e) fun ⟨o, s, a⟩ => ⟨o.imp id ?_, e ▸ s, ?_⟩
      · rintro ⟨r, mem, ne, dead⟩
        exact ⟨r, by rwa [← h.waitersOf], fun d => ne (h.exited d), dead⟩
      · rwa [← h.ring.allocated]
    · rw [h'.not_waiting s.not_waiting]
      refine Or.inr ⟨o.imp id ?_, s, a⟩
      rintro ⟨r, mem, ne, dead⟩
      exact ⟨r, mem, ne, h'.exited dead⟩
  settled r ne dead q hq := by
    by_cases first : k'.stateOf r = .exited
    · have done := h.settled r ne first q hq
      rwa [h'.not_waiting done]
    · exact h'.settled r first dead q (by rwa [h.waitersOf])

end Settles

/-- The exit of a killed process settles it. -/
theorem Exits.settles {p : Nat} {k k' : Kernel} (h : Exits p k k')
    (killed : k.stateOf p = .waitingForExit) : Settles (· = p) k k' where
  toExitFrame := h.toExitFrame
  changes q := by
    by_cases e : q = p
    · subst e
      exact Or.inr ⟨Or.inl rfl, Or.inr ⟨killed, h.root⟩, h.alive⟩
    · exact (h.changes q e).imp id fun ⟨o, s, a⟩ => ⟨Or.inr o, s, a⟩
  settled := h.settled

/-! ### The code -/

/-- `exitProcessByPCB` with `isCurrent` to say when it ends in a context switch. -/
def exitWith (isCurrent : Kernel → Nat → Bool) : Nat → Nat → Int → Kernel → Exec Outcome
  | 0, _, _, _ => .error .fuel
  | fuel + 1, pcb, exitCode, k =>
      if k.allocated pcb = false then .error .fault
      else match k.stateOf pcb with
        | .exited => .ok ⟨k, false⟩
        | .blocked => .ok ⟨k.markWaitingForExit pcb, isCurrent k pcb⟩
        | _ => do
            let out ← exitWaiters (fun pcb2 => exitWith isCurrent fuel pcb2 KILL_EXIT_CODE) exitCode
              (k.waitersOf pcb) (k.markExited pcb)
            if out.left then return out
            else return ⟨out.kernel, isCurrent out.kernel pcb⟩

theorem exitProcessByPCB_eq (fuel : Nat) :
    exitProcessByPCB fuel = exitWith Kernel.isCurrent fuel := by
  induction fuel with
  | zero => rfl
  | succ fuel ih =>
      funext pcb exitCode k
      unfold exitProcessByPCB exitWith
      generalize exitProcessByPCB fuel = nested at ih ⊢
      subst ih
      rfl

/-- Who is current depends on the process list alone. -/
def Steady (isCurrent : Kernel → Nat → Bool) : Prop :=
  ∀ k k' q, SameRing k k' → isCurrent k' q = isCurrent k q

theorem steady_isCurrent : Steady Kernel.isCurrent := fun _ _ q same => same.isCurrent q

/-- No process that is about to exit is the running one. -/
def Aside (isCurrent : Kernel → Nat → Bool) (k : Kernel) : Prop :=
  ∀ q, k.stateOf q = .waitingForExit → isCurrent k q = false

/-- No process that is about to exit is the running one. -/
def Bystanders (k : Kernel) : Prop := ∀ q, k.stateOf q = .waitingForExit → k.isCurrent q = false

section Spec

variable {k k' : Kernel} {isCurrent : Kernel → Nat → Bool}

theorem Settles.aside {owed : Nat → Prop} (h : Settles owed k k') (steady : Steady isCurrent)
    (a : Aside isCurrent k) : Aside isCurrent k' := fun q hq => by
  rw [steady k k' q h.ring]
  rcases h.changes q with e | ⟨-, s, -⟩
  · exact a q (e ▸ hq)
  · rw [hq] at s
    exact absurd (Or.inr rfl) s.not_waiting

theorem wake_settles {q : Nat} {exitCode : Int} (blocked : k.stateOf q = .blocked)
    (alive : k.allocated q = true) :
    Settles (· = q) k
      (k.setPCB q fun p => { p with state := .ready, waitedProcessExitCode := exitCode }) := by
  have states :
      ∀ r, (k.setPCB q fun p => { p with state := .ready, waitedProcessExitCode := exitCode
      }).stateOf r = if r = q then .ready else k.stateOf r := fun r => by
    rw [stateOf, setPCB_pcbs]
    split_ifs <;> rfl
  refine ⟨ExitFrame.setPCB rfl, fun r => ?_, fun r ne dead => ?_⟩
  · rw [states]
    split_ifs with e
    · subst e
      exact Or.inr ⟨Or.inl rfl, Or.inl ⟨blocked, rfl⟩, alive⟩
    · exact Or.inl rfl
  · rw [states] at dead
    split_ifs at dead
    exact absurd dead ne

/-- The loop over a table, if the exit of a killed process is as it should be. -/
theorem exitWaiters_spec {exitPCB : Nat → Kernel → Exec Outcome} {exitCode : Int}
    (steady : Steady isCurrent)
    (nested : ∀ q k out, Aside isCurrent k → k.stateOf q = .waitingForExit → exitPCB q k = .ok out →
      out.left = false ∧ Exits q k out.kernel)
    {ws : List Nat} {out : Outcome} (a : Aside isCurrent k)
    (run : exitWaiters exitPCB exitCode ws k = .ok out) :
    out.left = false ∧ Settles (· ∈ ws) k out.kernel ∧
      ∀ q ∈ ws, ¬ Waiting (out.kernel.stateOf q) := by
  induction ws generalizing k with
  | nil =>
      cases run
      exact ⟨rfl, Settles.refl _ k, by simp⟩
  | cons q ws ih =>
      -- Settling `q` first and the rest afterwards.
      have both : ∀ k₁, Settles (· = q) k k₁ → ¬ Waiting (k₁.stateOf q) →
          exitWaiters exitPCB exitCode ws k₁ = .ok out →
          out.left = false ∧ Settles (· ∈ q :: ws) k out.kernel ∧
            ∀ r ∈ q :: ws, ¬ Waiting (out.kernel.stateOf r) := by
        intro k₁ first done rest
        obtain ⟨left, settles, all⟩ := ih (first.aside steady a) rest
        refine ⟨left, (first.mono fun r e => e ▸ List.mem_cons_self).trans
          (settles.mono fun r hr => List.mem_cons_of_mem q hr), ?_⟩
        intro r hr
        rcases List.mem_cons.mp hr with rfl | hr
        · rwa [settles.not_waiting done]
        · exact all r hr
      unfold exitWaiters at run
      split_ifs at run with gone
      have alive : k.allocated q = true := by simpa using gone
      split at run
      · rename_i blocked
        refine both _ (wake_settles blocked alive) ?_ run
        rw [stateOf, setPCB_pcbs, if_pos rfl]
        simp [Waiting]
      · rename_i killed
        obtain ⟨mid, exited, rest⟩ := bind_ok_iff.mp run
        obtain ⟨left, exits⟩ := nested q k mid a killed exited
        rw [left] at rest
        refine both mid.kernel (exits.settles killed) ?_ rest
        rw [exits.root]
        simp [Waiting]
      · rename_i active killed
        have active : ¬ Waiting (k.stateOf q) := by
          rintro (h | h)
          · exact active h
          · exact killed h
        exact both k (Settles.refl _ k) active run

theorem markExited_frame (p : Nat) : ExitFrame k (k.markExited p) ∧
    ∀ q, (k.markExited p).stateOf q = if q = p then .exited else k.stateOf q := by
  have frame : ExitFrame k (k.setState p .exited) := ExitFrame.setPCB rfl
  unfold markExited
  simp only []
  split_ifs
  · refine ⟨frame.trans ?_, fun q => stateOf_setState⟩
    exact ⟨⟨rfl, rfl, rfl, rfl, rfl, Nat.le_refl _, fun _ => rfl⟩, rfl, rfl, rfl, rfl, rfl,
      fun _ => rfl, Or.inr ⟨p, rfl⟩⟩
  · exact ⟨frame, fun q => stateOf_setState⟩

/-- The exit of a process that is neither BLOCKED nor EXITED. -/
theorem exitWith_spec {fuel p : Nat} {exitCode : Int} {out : Outcome} (steady : Steady isCurrent)
    (a : Aside isCurrent k) (active : k.stateOf p ≠ .blocked) (alive : k.stateOf p ≠ .exited)
    (run : exitWith isCurrent fuel p exitCode k = .ok out) :
    out.left = isCurrent k p ∧ Exits p k out.kernel := by
  induction fuel generalizing k p exitCode out with
  | zero => cases run
  | succ fuel ih =>
      unfold exitWith at run
      split_ifs at run with gone
      have allocated : k.allocated p = true := by simpa using gone
      split at run
      · rename_i exited
        exact absurd exited alive
      · rename_i blocked
        exact absurd blocked active
      · obtain ⟨mid, waiters, rest⟩ := bind_ok_iff.mp run
        obtain ⟨frame, states⟩ := markExited_frame (k := k) p
        have a₁ : Aside isCurrent (k.markExited p) := fun q hq => by
          rw [states] at hq
          split_ifs at hq
          rw [steady k _ q frame.ring]
          exact a q hq
        have nested : ∀ q k out, Aside isCurrent k → k.stateOf q = .waitingForExit →
            exitWith isCurrent fuel q KILL_EXIT_CODE k = .ok out →
            out.left = false ∧ Exits q k out.kernel := fun q k out a killed run => by
          obtain ⟨left, exits⟩ := ih a (by rw [killed]; simp) (by rw [killed]; simp) run
          exact ⟨left.trans (a q killed), exits⟩
        obtain ⟨left, settles, all⟩ := exitWaiters_spec steady nested a₁ waiters
        rw [left] at rest
        cases rest
        have root : mid.kernel.stateOf p = .exited := settles.exited (by rw [states, if_pos rfl])
        refine ⟨?_, frame.trans settles.toExitFrame, allocated, root, fun q ne => ?_,
          fun r ne dead q hq => ?_⟩
        · exact steady k mid.kernel p (frame.ring.trans settles.ring)
        · have same : (k.markExited p).stateOf q = k.stateOf q := by rw [states, if_neg ne]
          rcases settles.changes q with e | ⟨o, s, a⟩
          · exact Or.inl (e.trans same)
          · refine Or.inr ⟨?_, same ▸ s, by rwa [← frame.ring.allocated]⟩
            rcases o with mem | ⟨r, mem, ne', dead⟩
            · exact ⟨p, mem, alive, root⟩
            · rw [states] at ne'
              split_ifs at ne' with e
              · exact absurd rfl ne'
              · exact ⟨r, by rwa [← frame.waitersOf], ne', dead⟩
        · by_cases e : r = p
          · subst e
            exact all q hq
          · exact settles.settled r (by rwa [states, if_neg e]) dead q (by rwa [frame.waitersOf])

theorem exitProcessByPCB_spec {fuel p : Nat} {exitCode : Int} {out : Outcome} (b : Bystanders k)
    (active : k.stateOf p ≠ .blocked) (alive : k.stateOf p ≠ .exited)
    (run : exitProcessByPCB fuel p exitCode k = .ok out) :
    out.left = k.isCurrent p ∧ Exits p k out.kernel := by
  rw [exitProcessByPCB_eq] at run
  exact exitWith_spec steady_isCurrent b active alive run

end Spec

/-! ### It returns -/

/-- The tables of living processes hold PCBs in memory, and every process in memory that
is about to exit is in `killed`. -/
structure Exitable (isCurrent : Kernel → Nat → Bool) (killed : Finset Nat) (k : Kernel) : Prop where
  aside : Aside isCurrent k
  tables : ∀ r, k.allocated r = true → k.stateOf r ≠ .exited →
    ∀ q ∈ k.waitersOf r, k.allocated q = true
  killed : ∀ q, k.allocated q = true → k.stateOf q = .waitingForExit → q ∈ killed

section Total

variable {k : Kernel} {killed : Finset Nat} {isCurrent : Kernel → Nat → Bool}

theorem Exitable.settles {k' : Kernel} {owed : Nat → Prop} (steady : Steady isCurrent)
    (e : Exitable isCurrent killed k) (h : Settles owed k k') : Exitable isCurrent killed k' where
  aside := h.aside steady e.aside
  tables r held ne q hq := by
    rw [h.ring.allocated] at held ⊢
    exact e.tables r held (fun dead => ne (h.exited dead)) q (by rwa [← h.waitersOf])
  killed q held hq := by
    rw [h.ring.allocated] at held
    rcases h.changes q with same | ⟨-, s, -⟩
    · exact e.killed q held (same ▸ hq)
    · rw [hq] at s
      exact absurd (Or.inr rfl) s.not_waiting

theorem exitWaiters_total {exitPCB : Nat → Kernel → Exec Outcome} (exitCode : Int)
    (steady : Steady isCurrent)
    (nested : ∀ q k out, Aside isCurrent k → k.stateOf q = .waitingForExit → exitPCB q k = .ok out →
      out.left = false ∧ Exits q k out.kernel)
    (returns : ∀ q k, Exitable isCurrent killed k → k.stateOf q = .waitingForExit →
      k.allocated q = true → ∃ out, exitPCB q k = .ok out)
    {ws : List Nat} (e : Exitable isCurrent killed k) (alive : ∀ q ∈ ws, k.allocated q = true) :
    ∃ out, exitWaiters exitPCB exitCode ws k = .ok out := by
  induction ws generalizing k with
  | nil => exact ⟨_, rfl⟩
  | cons q ws ih =>
      have allocated := alive q List.mem_cons_self
      have rest : ∀ k₁, Settles (· = q) k k₁ →
          ∃ out, exitWaiters exitPCB exitCode ws k₁ = .ok out :=
        fun k₁ first => ih (Exitable.settles steady e first) fun r hr => by
          rw [first.ring.allocated]
          exact alive r (List.mem_cons_of_mem q hr)
      unfold exitWaiters
      rw [if_neg (by simp [allocated])]
      split
      · rename_i blocked
        exact rest _ (wake_settles blocked allocated)
      · rename_i killed
        obtain ⟨mid, exited⟩ := returns q k e killed allocated
        obtain ⟨left, exits⟩ := nested q k mid e.aside killed exited
        obtain ⟨out, run⟩ := rest mid.kernel (exits.settles killed)
        refine ⟨out, bind_ok_iff.mpr ⟨mid, exited, ?_⟩⟩
        rw [left]
        exact run
      · exact rest k (Settles.refl _ k)

/-- One more round than there are killed processes is enough. -/
theorem exitWith_total (killed : Finset Nat) {fuel p : Nat} {exitCode : Int}
    (steady : Steady isCurrent) (a : Aside isCurrent k)
    (tables : ∀ r, k.allocated r = true → k.stateOf r ≠ .exited →
      ∀ q ∈ k.waitersOf r, k.allocated q = true)
    (others : ∀ q, q ≠ p → k.allocated q = true → k.stateOf q = .waitingForExit → q ∈ killed)
    (alive : k.allocated p = true) (enough : killed.card < fuel) :
    ∃ out, exitWith isCurrent fuel p exitCode k = .ok out := by
  induction fuel generalizing k p exitCode killed with
  | zero => omega
  | succ fuel ih =>
      unfold exitWith
      rw [if_neg (by simp [alive])]
      split
      · exact ⟨_, rfl⟩
      · exact ⟨_, rfl⟩
      · rename_i exited _
        obtain ⟨frame, states⟩ := markExited_frame (k := k) p
        have marked : Exitable isCurrent killed (k.markExited p) := by
          refine ⟨fun q hq => ?_, fun r held ne q hq => ?_, fun q held hq => ?_⟩
          · rw [states] at hq
            split_ifs at hq
            rw [steady k _ q frame.ring]
            exact a q hq
          · rw [states] at ne
            split_ifs at ne
            · exact absurd rfl ne
            · rw [frame.ring.allocated] at held ⊢
              exact tables r held ne q (by rwa [← frame.waitersOf])
          · rw [states] at hq
            rw [frame.ring.allocated] at held
            split_ifs at hq with e
            exact others q e held hq
        have nested : ∀ q k out, Aside isCurrent k → k.stateOf q = .waitingForExit →
            exitWith isCurrent fuel q KILL_EXIT_CODE k = .ok out →
            out.left = false ∧ Exits q k out.kernel := fun q k out a killed run => by
          obtain ⟨left, exits⟩ :=
            exitWith_spec steady a (by rw [killed]; simp) (by rw [killed]; simp) run
          exact ⟨left.trans (a q killed), exits⟩
        -- Inside, `q` is marked before its own table is read.
        have returns : ∀ q k, Exitable isCurrent killed k → k.stateOf q = .waitingForExit →
            k.allocated q = true → ∃ out, exitWith isCurrent fuel q KILL_EXIT_CODE k = .ok out := by
          intro q k e hq alive
          have fewer := Finset.card_erase_lt_of_mem (e.killed q alive hq)
          refine ih (killed.erase q) e.aside e.tables (fun r ne held hr => ?_) alive
            (by omega)
          exact Finset.mem_erase.mpr ⟨ne, e.killed r held hr⟩
        have waiters : ∀ q ∈ k.waitersOf p, (k.markExited p).allocated q = true := fun q hq => by
          rw [frame.ring.allocated]
          exact tables p alive exited q hq
        obtain ⟨mid, run⟩ := exitWaiters_total exitCode steady nested returns marked waiters
        obtain ⟨left, -, -⟩ := exitWaiters_spec steady nested marked.aside run
        refine ⟨⟨mid.kernel, isCurrent mid.kernel p⟩, bind_ok_iff.mpr ⟨mid, run, ?_⟩⟩
        rw [left]
        rfl

theorem exitProcessByPCB_total (killed : Finset Nat) {fuel p : Nat} {exitCode : Int}
    (b : Bystanders k)
    (tables : ∀ r, k.stateOf r ≠ .exited → ∀ q ∈ k.waitersOf r, k.allocated q = true)
    (others : ∀ q, q ≠ p → k.stateOf q = .waitingForExit → q ∈ killed)
    (alive : k.allocated p = true) (enough : killed.card < fuel) :
    ∃ out, exitProcessByPCB fuel p exitCode k = .ok out := by
  rw [exitProcessByPCB_eq]
  exact exitWith_total killed steady_isCurrent b (fun r _ => tables r)
    (fun q ne _ => others q ne) alive enough

end Total

end SoTp.Process
