/-
The life of one process, whatever the others do: what it holds on to from one operation to
the next, and who can take it away.

* `contextSwitch_pcb` — what a context switch does to a control block.
* `context_restored` — a process gets back the stack pointer that it left with.
* `user_block_lasts` — a process blocked by the user waits for the user.
* `init_survives` — nobody but pid 0 itself ends pid 0.
-/

import SoTp.Process.Changes

namespace SoTp.Process

open SoTp.Lib Kernel

/-! ### Changes of one process -/

section Rules

variable {k₀ : Kernel} {op : Op} {p : Nat} {f g : Nat → PCB} {b c : PCB}

theorem PCBChange.identity (change : PCBChange k₀ op p b c) : c.pid = b.pid ∧ c.rsp = b.rsp := by
  cases change <;> exact ⟨rfl, rfl⟩

theorem Changes.identity (changes : Changes k₀ op f g) (p : Nat) :
    (g p).pid = (f p).pid ∧ (g p).rsp = (f p).rsp := by
  refine changes.kept (P := fun b => b.pid = (f p).pid ∧ b.rsp = (f p).rsp) ⟨rfl, rfl⟩ ?_
  intro b c same change
  exact ⟨change.identity.1.trans same.1, change.identity.2.trans same.2⟩

end Rules

/-! ### Stack pointers -/

section Contexts

variable {k j k' : Kernel} {fuel p : Nat} {op : Op} {log : List Event}

/-- What `schedule` does to a control block, besides saving a stack pointer. -/
def Rescheduled (b c : PCB) : Prop :=
  ∃ s, c = { b with state := s } ∧ (s = b.state ∨ Awake b.state ∧ Awake s)

theorem Rescheduled.refl (b : PCB) : Rescheduled b b := ⟨b.state, rfl, Or.inl rfl⟩

theorem Rescheduled.trans {b c d : PCB} (first : Rescheduled b c) (rest : Rescheduled c d) :
    Rescheduled b d := by
  obtain ⟨s, rfl, here⟩ := first
  obtain ⟨t, rfl, there⟩ := rest
  refine ⟨t, rfl, ?_⟩
  rcases here with rfl | ⟨awake, ready⟩
  · exact there
  · rcases there with rfl | ⟨-, ready'⟩
    · exact Or.inr ⟨awake, ready⟩
    · exact Or.inr ⟨awake, ready'⟩

theorem setState_rescheduled {s : State} (awake : Awake (k.stateOf p)) (next : Awake s) (q : Nat) :
    Rescheduled (k.pcbs q) ((k.setState p s).pcbs q) := by
  unfold setState
  rw [setPCB_pcbs]
  split_ifs with here
  · exact ⟨s, by rw [here], Or.inr ⟨here ▸ awake, next⟩⟩
  · exact .refl _

theorem search_rescheduled {ogCurrent : Nat} {r : Kernel × Nat}
    (run : loop (selectRound ogCurrent) fuel k = .ok r)
    (q : Nat) : Rescheduled (k.pcbs q) (r.1.pcbs q) := by
  refine loop_inv (fun j => j.pcbs = k.pcbs)
    (fun r => Rescheduled (k.pcbs q) (r.1.pcbs q)) ?_ ?_ rfl run
  · intro j j' same round
    unfold selectRound at round
    simp only [] at round
    split_ifs at round
    all_goals cases round
    · exact (freeCurrentProcess_pcbs j).1.trans same
    · exact (nextPCB_same j).1.trans same
  · intro j r same round
    unfold selectRound at round
    simp only [] at round
    rw [← same]
    split_ifs at round with ready
    all_goals cases round
    · exact setState_rescheduled (Or.inl ready) (Or.inr rfl) q
    · exact .refl _

theorem preempted_rescheduled (k : Kernel) (q : Nat) : Rescheduled (k.pcbs q)
    ((preempted k).pcbs q) := by
  unfold preempted
  split_ifs with running
  · exact setState_rescheduled (Or.inr running) (Or.inl rfl) q
  · exact .refl _

/-- The running process leaves its stack pointer behind, and nobody else's changes. -/
theorem contextSwitch_pcb (run : k.contextSwitch fuel = .ok k') (q : Nat) :
    Rescheduled { k.pcbs q with rsp := if q = k.currentPCB then k.rsp else (k.pcbs q).rsp }
      (k'.pcbs q) := by
  obtain ⟨⟨j, rsp⟩, scheduled, rest⟩ := bind_ok_iff.mp run
  cases rest
  have saved : (k.saveRsp k.rsp).pcbs q =
      { k.pcbs q with rsp := if q = k.currentPCB then k.rsp else (k.pcbs q).rsp } := by
    unfold saveRsp
    rw [setPCB_pcbs]
    split_ifs with here
    · rw [here]
    · rfl
  unfold schedule at scheduled
  simp only [] at scheduled
  split_ifs at scheduled
  · cases scheduled
    rw [← saved]
    exact .refl _
  · rw [← saved]
    refine (preempted_rescheduled (k.saveRsp k.rsp) q).trans ?_
    unfold select at scheduled
    have searched := search_rescheduled scheduled q
    rw [(nextPCB_same _).1] at searched
    unfold preempted
    split_ifs at searched ⊢ <;> simpa only [(nextPCB_same _).1] using searched

theorem contextSwitch_rsp (run : k.contextSwitch fuel = .ok k') (q : Nat) :
    (k'.pcbs q).rsp = if q = k.currentPCB then k.rsp else (k.pcbs q).rsp := by
  obtain ⟨s, e, -⟩ := contextSwitch_pcb run q
  rw [e]

theorem contextSwitch_states (run : k.contextSwitch fuel = .ok k') (q : Nat) :
    k'.stateOf q = k.stateOf q ∨ Awake (k.stateOf q) ∧ Awake (k'.stateOf q) := by
  obtain ⟨s, e, state⟩ := contextSwitch_pcb run q
  rw [stateOf, e]
  exact state

/-- The stack pointer that `schedule` answers is that of the process it leaves in `current`. -/
theorem contextSwitch_lands (run : k.contextSwitch fuel = .ok k') :
    k'.rsp = (k'.pcbs k'.currentPCB).rsp := by
  obtain ⟨⟨j, rsp⟩, scheduled, rest⟩ := bind_ok_iff.mp run
  cases rest
  unfold schedule at scheduled
  simp only [] at scheduled
  split_ifs at scheduled
  · cases scheduled
    have saved : ((k.saveRsp k.rsp).pcbs k.currentPCB).rsp = k.rsp := by
      unfold saveRsp
      rw [setPCB_pcbs, if_pos rfl]
    exact saved.symm
  · unfold select at scheduled
    refine loop_inv (fun _ => True) (fun r => r.2 = (r.1.pcbs r.1.currentPCB).rsp)
      (fun _ _ _ _ => trivial) ?_ trivial scheduled
    intro j r _ round
    unfold selectRound at round
    simp only [] at round
    split_ifs at round <;> cases round <;> rfl

theorem Edited.saved (edited : Edited k op j k') (q : Nat) : (k'.pcbs q).rsp = (j.pcbs q).rsp :=
  (edited.changes.identity q).2

/-- What an operation does to the stack pointer of a process: it keeps that of one that is
not running, and saves that of one that loses the processor. -/
theorem Shape.saved (m : Mid False k) (shape : Shape k op log k') (old : p < k.unused)
    (leaves : p = k.currentPCB → k'.currentPCB ≠ p) :
    (k'.pcbs p).rsp = if p = k.currentPCB then k.rsp else (k.pcbs p).rsp := by
  cases shape with
  | edits edited =>
      rw [if_neg fun here => leaves here (edited.ring.currentPCB.trans here.symm)]
      exact edited.saved p
  | moves rsp junk =>
      rw [if_neg fun here => leaves here here.symm]
  | switches before run =>
      rw [contextSwitch_rsp run, before.ring.currentPCB, before.rsp, before.saved]
  | ticks named run after =>
      rw [after.saved, contextSwitch_rsp run]
  | creates mem rsp garbage =>
      have same : (added k rsp garbage).currentPCB = k.currentPCB := (added_views rsp garbage m).2.1
      rw [if_neg fun here => leaves here (same.trans here.symm), added_rest]
      exact congrArg PCB.rsp (Function.update_of_ne (by omega) _ _)
  | fails =>
      rw [if_neg fun here => leaves here here.symm]

/-- Whoever gets the processor goes on from the stack pointer in its control block. -/
theorem Shape.resumed (m : Mid False k) (shape : Shape k op log k')
    (gains : k'.currentPCB ≠ k.currentPCB) : k'.rsp = (k'.pcbs k'.currentPCB).rsp := by
  cases shape with
  | edits edited => exact absurd edited.ring.currentPCB gains
  | moves => exact absurd rfl gains
  | switches before run => exact contextSwitch_lands run
  | ticks named run after =>
      rw [after.rsp, after.ring.currentPCB, after.saved]
      exact contextSwitch_lands run
  | creates mem rsp garbage => exact absurd (added_views rsp garbage m).2.1 gains
  | fails => exact absurd rfl gains

theorem Trans.shape (trans : Trans k op k') (i : Inv False k) : ∃ log, Shape k op log k' := by
  obtain ⟨log, logged⟩ := trans.logged
  exact ⟨log, shape_of_exec i logged⟩

/-- A step after which a process does not have the processor. -/
def StepAway (p : Nat) (k k' : Kernel) : Prop := Step (fun _ _ => True) k k' ∧ k'.currentPCB ≠ p

/-- While a process is away from the processor its stack pointer stays where it was saved. -/
theorem away_saved {rsp : Nat} (i : Inv False k) (old : p < k.unused) (away : k.currentPCB ≠ p)
    (saved : (k.pcbs p).rsp = rsp) (run : Relation.ReflTransGen (StepAway p) k k') :
    Inv False k' ∧ p < k'.unused ∧ k'.currentPCB ≠ p ∧ (k'.pcbs p).rsp = rsp := by
  induction run with
  | refl => exact ⟨i, old, away, saved⟩
  | tail _ step ih =>
      obtain ⟨i, old, away, saved⟩ := ih
      obtain ⟨⟨op, -, trans⟩, elsewhere⟩ := step
      obtain ⟨log, shape⟩ := trans.shape i
      have effect := trans.effect i
      refine ⟨effect.inv i, Nat.lt_of_lt_of_le old effect.moves.unused, elsewhere, ?_⟩
      rw [shape.saved i.toMid old fun here => absurd here.symm away, if_neg (Ne.symm away)]
      exact saved

/-- A process, the idle one included, that loses the processor and gets it back later goes on with
the stack pointer it had when it lost it. A new process begins with the one it was created with.
-/
theorem context_restored {k₂ : Kernel} {op' : Op} (reach : Reach (fun _ _ => True) k)
    (run : Relation.ReflTransGen (StepAway p) j k₂) (back : Trans k₂ op' k')
    (returns : k'.currentPCB = p) (leaves : Trans k op j) (left : j.currentPCB ≠ p) :
    (k.currentPCB = p → k'.rsp = k.rsp) ∧
      ∀ mem rsp garbage, op = .createProcess mem rsp garbage → p = k.unused + 1 →
        j.allocated p = true → k'.rsp = rsp := by
  have i : Inv False k := reach.sound
  have effect := leaves.effect i
  have next : Inv False j := effect.inv i
  obtain ⟨log, shape⟩ := leaves.shape i
  -- What is saved when the process goes away is what it finds when it comes back.
  have found : ∀ rsp, p < j.unused → (j.pcbs p).rsp = rsp → k'.rsp = rsp := by
    intro rsp old saved
    obtain ⟨i₂, old₂, away, kept⟩ := away_saved next old left saved run
    obtain ⟨log', shape'⟩ := back.shape i₂
    have lands := shape'.resumed i₂.toMid fun same => away (same.symm.trans returns)
    rw [returns] at lands
    rw [lands, shape'.saved i₂.toMid old₂ fun here => absurd here.symm away, if_neg (Ne.symm away)]
    exact kept
  constructor
  · intro here
    obtain ⟨_, _, _, ring, -⟩ := i.ring
    have old : p < k.unused := (ring.members p (i.toMid.allocated (here ▸ i.current.active.2))).1
    refine found k.rsp (Nat.lt_of_lt_of_le old effect.moves.unused) ?_
    rw [shape.saved i.toMid old fun _ => left, if_pos here.symm]
  · rintro mem rsp garbage rfl rfl held
    refine found rsp ?_ ?_
    · obtain ⟨_, _, _, ring, -⟩ := next.ring
      exact (ring.members _ held).1
    · obtain ⟨-, fuel, ran⟩ := leaves
      obtain ⟨r, created, rfl⟩ := map_ok_iff.mp ran
      obtain ⟨_, _, _, ring, -⟩ := i.ring
      rcases createProcess_eq mem rsp garbage created with e | e
      · rw [e, added_pcbs, if_pos rfl]
        rfl
      · rw [e] at held
        have := (ring.members _ held).1
        omega

/-- `init` comes back to the stack pointer it had, after a process that used another one. -/
theorem context_restored_init : ∃ k j k₂ k' : Kernel, Trans k .timerTick j ∧ j.currentPCB = 6 ∧
    k₂.rsp = 77 ∧ Trans k₂ .timerTick k' ∧ k'.currentPCB = 4 ∧ k'.rsp = k.rsp ∧ k.rsp = 1000 := by
  have ran : (perform (fun _ _ => True) 40 [.createProcess ⟨true, true, true, true, true⟩ 500 0,
      .userCode 1000 fun _ => 0]
        (boot 0 0 0)).map (fun k => decide (k.currentPCB = 4 ∧ k.rsp = 1000 ∧
        (k.exec 40 .timerTick).toOption.map (fun j => decide (j.currentPCB = 6 ∧
          (({ j with rsp := 77, junk := fun _ => 0 } : Kernel).exec 40 .timerTick).toOption.map
            (fun k' => decide (k'.currentPCB = 4)) = some true)) = some true)) = some true := by
    decide +kernel
  obtain ⟨k, run, state⟩ := Option.map_eq_some_iff.mp ran
  obtain ⟨here, top, next⟩ := of_decide_eq_true state
  obtain ⟨j, leave, state⟩ := Option.map_eq_some_iff.mp next
  obtain ⟨gone, next⟩ := of_decide_eq_true state
  obtain ⟨k', back, state⟩ := Option.map_eq_some_iff.mp next
  have returns := of_decide_eq_true state
  have leaves : Trans k .timerTick j := ⟨trivial, 40, ok_of_toOption leave⟩
  have goes_on : Trans j (.userCode 77 fun _ => 0) { j with rsp := 77, junk := fun _ => 0 } :=
    ⟨trivial, 0, rfl⟩
  have elsewhere : j.currentPCB ≠ 4 := by rw [gone]; decide
  have away : Relation.ReflTransGen (StepAway 4) j { j with rsp := 77, junk := fun _ => 0 } :=
    .single ⟨⟨_, trivial, goes_on⟩, elsewhere⟩
  have comes_back : Trans { j with rsp := 77, junk := fun _ => 0 } .timerTick k' :=
    ⟨trivial, 40, ok_of_toOption back⟩
  have restored :=
    (context_restored ⟨0, 0, 0, perform_run run⟩ away comes_back returns leaves elsewhere).1 here
  exact ⟨k, j, _, k', leaves, gone, rfl, comes_back, returns, restored, top⟩

end Contexts

/-! ### One process through an operation -/

section One

variable {k k' : Kernel} {p : Nat} {op : Op} {log : List Event}

/-- What the changes of an operation and the scheduler keep of a process, the operation keeps. -/
theorem Shape.kept {P : PCB → Prop} (shape : Shape k op log k') (old : p < k.unused)
    (start : P (k.pcbs p)) (edits : ∀ b c, P b → PCBChange k op p b c → P c)
    (schedules : ∀ b c rsp, P b → Rescheduled { b with rsp } c → P c) : P (k'.pcbs p) := by
  cases shape with
  | edits edited => exact edited.changes.kept start edits
  | moves => exact start
  | switches before run =>
      exact schedules _ _ _ (before.changes.kept start edits) (contextSwitch_pcb run p)
  | ticks named run after =>
      exact after.changes.kept (schedules _ _ _ start (contextSwitch_pcb run p)) edits
  | creates mem rsp garbage =>
      rw [added_pcbs, if_neg (by omega)]
      exact start
  | fails => exact start

theorem Mid.old (m : Mid False k) (alive : k.stateOf p ≠ .exited) : p < k.unused := by
  obtain ⟨_, _, _, ring, -⟩ := m.ring
  exact (ring.members p (m.allocated alive)).1

/-- The operation neither unblocks `p` nor ends it. -/
def Kernel.LeavesBlocked (k : Kernel) (p : Nat) : Op → Prop
  | .unblock pid => pid ≠ k.pidOf p
  | op => ¬ k.Touches op (.proc p)

instance (k : Kernel) (p : Nat) (op : Op) : Decidable (k.LeavesBlocked p op) :=
  match op with
  | .unblock _ => inferInstanceAs (Decidable (_ ≠ _))
  | .exit _ => inferInstanceAs (Decidable (¬ p = k.currentPCB))
  | .kill pid => inferInstanceAs (Decidable (¬ (pid ≠ 0 ∧ k.pidOf p = pid)))
  | .ctrlC => inferInstanceAs (Decidable (¬ (k.foregroundPid ≠ 0 ∧ p = k.processInForeground)))
  | .createProcess .. | .waitPid _ | .sleep .. | .semInit _ | .waitSemaphore .. | .postSemaphore _
  | .destroySemaphore _ | .blockByUser _ | .changePriority .. | .yield | .timerTick | .reschedule
  | .userCode .. => .isTrue id

theorem Kernel.LeavesBlocked.spares (leaves : k.LeavesBlocked p op) : ¬ k.Touches op (.proc p) := by
  cases op with
  | unblock pid => exact id
  | _ => exact leaves

/-- An operation that is not about a process blocked by the user leaves it so. -/
theorem Shape.blockedByUser (i : Inv False k) (shape : Shape k op log k')
    (blocked : k.stateOf p = .blockedByUser) (leaves : k.LeavesBlocked p op) :
    k'.stateOf p = .blockedByUser ∧ k'.pidOf p = k.pidOf p := by
  have elsewhere : p ≠ k.currentPCB := by
    intro here
    have awake := i.current
    rw [← here, blocked] at awake
    rcases awake with e | e <;> cases e
  have old : p < k.unused := i.toMid.old (by rw [blocked]; decide)
  refine shape.kept (P := fun b => b.state = .blockedByUser ∧ b.pid = k.pidOf p) old
    ⟨blocked, rfl⟩ ?_ ?_
  · rintro b c ⟨state, pid⟩ change
    cases change with
    | wakes _ wait => exact absurd (state.symm.trans wait) (by decide)
    | kills wait _ => exact absurd (state.symm.trans wait) (by decide)
    | exits cause =>
        rcases cause with named | killed
        · exact absurd named.1 leaves.spares
        · exact absurd (state.symm.trans killed) (by decide)
    | blocks here => exact absurd here elsewhere
    | yields here => exact absurd here elsewhere
    | records => exact ⟨state, pid⟩
    | blocksByUser => exact ⟨rfl, pid⟩
    | unblocks named _ =>
        rw [named] at leaves
        exact absurd pid leaves
    | prioritises => exact ⟨state, pid⟩
  · rintro b c rsp ⟨state, pid⟩ ⟨s, rfl, same | awake⟩
    · exact ⟨same.trans state, pid⟩
    · have ready : Awake b.state := awake.1
      rw [state] at ready
      rcases ready with e | e <;> cases e

/-- `unblock` makes the process READY that it names. -/
theorem unblock_readies (i : Inv False k) (blocked : k.stateOf p = .blockedByUser)
    (trans : Trans k (.unblock (k.pidOf p)) k') : k'.stateOf p = .ready := by
  obtain ⟨-, fuel, run⟩ := trans
  obtain ⟨r, unblocked, rfl⟩ := map_ok_iff.mp run
  obtain ⟨pcb, search, ran⟩ := bind_ok_iff.mp unblocked
  have held := i.toMid.allocated (p := p) (by rw [blocked]; decide)
  have other : p ≠ k.idlePCB := by
    intro e
    have ready := i.sched.idle
    rw [← e, blocked] at ready
    cases ready
  obtain rfl : pcb = p := getPCBByPid_finds i.toMid held other search
  obtain ⟨_, _, _, ring, -⟩ := i.ring
  rw [if_pos ⟨(ring.members pcb held).2.1, blocked⟩] at ran
  cases ran
  exact stateOf_setState_self

/-- A process blocked by the user stays so, whatever happens, until it is unblocked or killed by
name or by Ctrl+C; it does not get the processor meanwhile, and `unblock` makes it READY. -/
theorem user_block_lasts (reach : Reach (fun _ _ => True) k)
    (blocked : k.stateOf p = .blockedByUser)
    (run : Relation.ReflTransGen (Step fun k op => k.LeavesBlocked p op) k k') :
    k'.stateOf p = .blockedByUser ∧ k'.allocated p = true ∧ k'.currentPCB ≠ p ∧
      k'.pidOf p = k.pidOf p ∧
      ∀ k'', Trans k' (.unblock (k.pidOf p)) k'' → k''.stateOf p = .ready := by
  have all : Inv False k' ∧ k'.stateOf p = .blockedByUser ∧ k'.pidOf p = k.pidOf p := by
    induction run with
    | refl => exact ⟨reach.sound, blocked, rfl⟩
    | tail _ step ih =>
        obtain ⟨i, state, pid⟩ := ih
        obtain ⟨op, leaves, trans⟩ := step
        obtain ⟨log, shape⟩ := trans.shape i
        obtain ⟨state', pid'⟩ := shape.blockedByUser i state leaves
        exact ⟨(trans.effect i).inv i, state', pid'.trans pid⟩
  obtain ⟨i, state, pid⟩ := all
  refine ⟨state, i.toMid.allocated (by rw [state]; decide), fun here => ?_, pid,
    fun k'' trans => ?_⟩
  · have awake := i.current
    rw [here, state] at awake
    rcases awake with e | e <;> cases e
  · rw [← pid] at trans
    exact unblock_readies i state trans

/-- Blocked by `init`, a process sits out ticks and Ctrl+C, until it is unblocked. -/
theorem user_block_lasts_ticks : ∃ k k' k'' : Kernel, k.stateOf 6 = .blockedByUser ∧
    Relation.ReflTransGen (Step fun k op => k.LeavesBlocked 6 op) k k' ∧ k.ticks + 2 = k'.ticks ∧
    k'.stateOf 6 = .blockedByUser ∧ Trans k' (.unblock 1) k'' ∧ k''.stateOf 6 = .ready := by
  have ran :
      (perform (fun _ _ => True) 40 [.createProcess ⟨true, true, true, true, true⟩ 500 0,
        .blockByUser 1]
      (boot 0 0 0)).map (fun k => decide (k.stateOf 6 = .blockedByUser ∧ k.pidOf 6 = 1 ∧
        (perform (fun k op => k.LeavesBlocked 6 op) 40 [.timerTick, .ctrlC, .kill 0,
          .timerTick] k).map
          (fun k' => decide ((k'.exec 40 (.unblock 1)).toOption.isSome ∧ ¬ k'.idle ∧
            k.ticks + 2 = k'.ticks)) = some true)) = some true := by
    decide +kernel
  obtain ⟨k, run, state⟩ := Option.map_eq_some_iff.mp ran
  obtain ⟨blocked, pid, next⟩ := of_decide_eq_true state
  obtain ⟨k', ticks, state⟩ := Option.map_eq_some_iff.mp next
  obtain ⟨some, busy, counted⟩ := of_decide_eq_true state
  obtain ⟨k'', unblocked⟩ := Option.isSome_iff_exists.mp some
  have trans : Trans k' (.unblock 1) k'' := ⟨busy, 40, ok_of_toOption unblocked⟩
  have lasts := user_block_lasts ⟨0, 0, 0, perform_run run⟩ blocked (perform_run ticks)
  exact ⟨k, k', k'', blocked, perform_run ticks, counted, lasts.1, trans,
    lasts.2.2.2.2 k'' (pid ▸ trans)⟩

/-! ### init -/

/-- It is not pid 0 that exits. -/
def Kernel.InitStays (k : Kernel) : Op → Prop
  | .exit _ => k.pidOf k.currentPCB ≠ 0
  | _ => True

instance (k : Kernel) (op : Op) : Decidable (k.InitStays op) :=
  match op with
  | .exit _ => inferInstanceAs (Decidable (_ ≠ 0))
  | .createProcess .. | .kill _ | .waitPid _ | .sleep .. | .semInit _ | .waitSemaphore
      .. | .postSemaphore _
  | .destroySemaphore _ | .blockByUser _ | .unblock _ | .changePriority
      .. | .yield | .timerTick | .reschedule
  | .ctrlC | .userCode .. => .isTrue trivial

/-- The process that boot creates is alive. -/
def InitLives (k : Kernel) : Prop := k.stateOf 4 ≠ .exited ∧ k.stateOf 4 ≠ .waitingForExit ∧
    k.pidOf 4 = 0

/-- Killing spares pid 0, and nobody waits for it to be killed. -/
theorem InitLives.step (lives : InitLives k) (i : Inv False k) (shape : Shape k op log k')
    (stays : k.InitStays op) : InitLives k' := by
  obtain ⟨alive, spared, pid⟩ := lives
  have untouched : ¬ k.Touches op (.proc 4) := by
    intro touched
    cases op with
    | exit code =>
        have here : 4 = k.currentPCB := touched
        have other : k.pidOf k.currentPCB ≠ 0 := stays
        exact other (here ▸ pid)
    | kill target => exact touched.1 (touched.2.symm.trans pid)
    | ctrlC =>
        obtain ⟨foreground, here⟩ := touched
        rw [foregroundPid, ← here, if_pos (i.toMid.allocated alive)] at foreground
        exact foreground pid
    | _ => exact touched
  have kept := shape.kept (P := fun b => b.state ≠ .exited ∧ b.state ≠ .waitingForExit ∧ b.pid = 0)
    (i.toMid.old alive) ⟨alive, spared, pid⟩ ?_ ?_
  · exact kept
  · rintro b c ⟨alive, spared, pid⟩ change
    cases change with
    | kills _ cause => exact absurd cause.1 untouched
    | exits cause => exact absurd (cause.resolve_left fun named => untouched named.1) spared
    | records => exact ⟨alive, spared, pid⟩
    | prioritises => exact ⟨alive, spared, pid⟩
    | _ => exact ⟨State.noConfusion, State.noConfusion, pid⟩
  · rintro b c rsp ⟨alive, spared, pid⟩ ⟨s, rfl, same | awake⟩
    · exact ⟨fun e => alive (same.symm.trans e), fun e => spared (same.symm.trans e), pid⟩
    · refine ⟨fun e => ?_, fun e => ?_, pid⟩
      all_goals
        have next : Awake s := awake.2
        change s = _ at e
        rw [e] at next
        rcases next with e | e <;> cases e

/-- As long as the process with pid 0 does not exit by itself, no kill, no Ctrl+C and no exit of
another process ends it: it stays at the head of the process list, in memory and alive. -/
theorem init_survives (reach : Reach InitStays k) :
    k.pidOf (k.pcbOf k.pcbList.head) = 0 ∧ k.allocated (k.pcbOf k.pcbList.head) = true ∧
      k.stateOf (k.pcbOf k.pcbList.head) ≠ .exited ∧
        k.stateOf (k.pcbOf k.pcbList.head) ≠ .waitingForExit := by
  have both : Inv False k ∧ InitLives k := by
    refine reach.induct (P := fun k => Inv False k ∧ InitLives k) ?_ ?_
    · intro r₁ r₂ g
      refine ⟨boot_inv _ _ _ _, ?_, ?_, ?_⟩
      · rw [boot_stateOf]
        decide
      · rw [boot_stateOf]
        decide
      · rw [pidOf, boot_pcbs]
        rfl
    · intro k op k' _ ih stays trans
      obtain ⟨log, shape⟩ := trans.shape ih.1
      exact ⟨(trans.effect ih.1).inv ih.1, ih.2.step ih.1 shape stays⟩
  obtain ⟨i, alive, spared, pid⟩ := both
  have held := i.toMid.allocated alive
  obtain ⟨before, cursor, after, ring, -⟩ := i.ring
  -- The list is ordered by pid, and 0 is the least one.
  obtain ⟨node, mem, at_⟩ := (ring.members 4 held).2.2.resolve_left fun e => by
    have idlePid := ring.idlePid
    rw [← e, pid] at idlePid
    exact absurd idlePid (by decide)
  have head : k.pcbList.head = node := by
    obtain ⟨rest, list⟩ := List.head?_eq_some_iff.mp ring.head
    rw [list] at mem
    rcases List.mem_cons.mp mem with first | later
    · exact first.symm
    · have lt := (List.pairwise_cons.mp (list ▸ ring.pids)).1 node later
      rw [at_, pid] at lt
      exact absurd lt (Nat.not_lt_zero _)
  rw [head, at_]
  exact ⟨pid, held, alive, spared⟩

/-- Two attempts on `init`, by name and by Ctrl+C, and an exit of the other process. -/
theorem init_survives_attempts : ∃ k : Kernel, Reach InitStays k ∧ k.stateOf 6 = .exited ∧
    k.pidOf (k.pcbOf k.pcbList.head) = 0 ∧ k.stateOf (k.pcbOf k.pcbList.head) ≠ .exited := by
  have ran :
      (perform InitStays 40 [.createProcess ⟨true, true, true, true, true⟩ 5 0, .kill 0, .ctrlC,
      .timerTick, .exit 3] (boot 0 0 0)).map (fun k => decide (k.stateOf 6 = .exited)) =
        some true := by
    decide +kernel
  obtain ⟨k, run, state⟩ := Option.map_eq_some_iff.mp ran
  have reach : Reach InitStays k := ⟨0, 0, 0, perform_run run⟩
  have survives := init_survives reach
  exact ⟨k, reach, of_decide_eq_true state, survives.1, survives.2.2.1⟩

end One

end SoTp.Process
