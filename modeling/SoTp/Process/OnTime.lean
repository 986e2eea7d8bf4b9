/-
Sleeping processes over whole runs. A clock is the kernel together with the nodes of the
sleep list that were freed so far.

* `exec_frame` — operations other than `sleep` and the timer interrupt leave the sleep
  list alone.
* `Clock.treated` — what each operation does to the entries, and what it frees.
* `sleepers_on_time` — a sleeper wakes at its tick, a killed one exits at the next, and
  each node is freed once.
-/

import SoTp.Process.Parts
import SoTp.Process.Sleepers

namespace SoTp.Process

open SoTp.Lib Kernel

/-! ### What leaves the sleep list alone -/

structure SleepFrame (k k' : Kernel) : Prop where
  sleepNodes : k'.sleepNodes = k.sleepNodes
  first : k'.first = k.first
  unused : k.unused ≤ k'.unused

namespace SleepFrame

variable {k k' k'' : Kernel}

theorem refl (k : Kernel) : SleepFrame k k := ⟨rfl, rfl, Nat.le_refl _⟩

theorem trans (h : SleepFrame k k') (h' : SleepFrame k' k'') : SleepFrame k k'' :=
  ⟨h'.sleepNodes.trans h.sleepNodes, h'.first.trans h.first, h.unused.trans h'.unused⟩

theorem entries {cells : List Nat} (h : SleepFrame k k') (l : SleepList k cells) :
    k'.sleepEntries = k.sleepEntries := by
  rw [(l.congr h.sleepNodes h.unused h.first).entries, l.entries, sleeperAt_congr h.sleepNodes]

end SleepFrame

section Frames

variable {k k' : Kernel} {fuel : Nat}

theorem freeCurrentProcess_frame (k : Kernel) : SleepFrame k k.freeCurrentProcess := by
  unfold freeCurrentProcess
  split_ifs <;> exact ⟨rfl, rfl, Nat.le_refl _⟩

theorem nextPCB_frame (k : Kernel) : SleepFrame k k.nextPCB := by
  unfold nextPCB
  split_ifs <;> exact ⟨rfl, rfl, Nat.le_refl _⟩

theorem selectRound_again {ogCurrent : Nat} (round : selectRound ogCurrent k = .ok (.again k')) :
    SleepFrame k k' := by
  unfold selectRound at round
  simp only [] at round
  split_ifs at round <;> cases round
  · exact freeCurrentProcess_frame k
  · exact nextPCB_frame k

theorem selectRound_leave {ogCurrent : Nat} {r : Kernel × Nat}
    (round : selectRound ogCurrent k = .ok (.leave r)) : SleepFrame k r.1 := by
  unfold selectRound at round
  simp only [] at round
  split_ifs at round <;> cases round <;> exact ⟨rfl, rfl, Nat.le_refl _⟩

theorem select_frame {r : Kernel × Nat} (run : k.select fuel = .ok r) : SleepFrame k r.1 := by
  unfold select at run
  have ready : SleepFrame k
      (if k.stateOf k.currentPCB = .running then k.setState k.currentPCB .ready else k) := by
    split_ifs <;> exact ⟨rfl, rfl, Nat.le_refl _⟩
  generalize (if k.stateOf k.currentPCB = .running then k.setState k.currentPCB .ready else k) =
    k₁ at run ready
  have moved : SleepFrame k₁ (if k₁.idle then k₁.nextPCB else k₁) := by
    split_ifs
    · exact nextPCB_frame k₁
    · exact SleepFrame.refl k₁
  exact loop_inv (SleepFrame k) (fun r => SleepFrame k r.1)
    (fun _ _ frame round => frame.trans (selectRound_again round))
    (fun _ _ frame round => frame.trans (selectRound_leave round))
    (ready.trans (moved.trans (nextPCB_frame _))) run

theorem contextSwitch_frame (run : k.contextSwitch fuel = .ok k') : SleepFrame k k' := by
  obtain ⟨r, scheduled, run⟩ := bind_ok_iff.mp run
  cases run
  unfold schedule at scheduled
  simp only [] at scheduled
  split_ifs at scheduled
  · cases scheduled
    exact ⟨rfl, rfl, Nat.le_refl _⟩
  · have saved : SleepFrame k (k.saveRsp k.rsp) := ⟨rfl, rfl, Nat.le_refl _⟩
    exact saved.trans ((select_frame scheduled).trans ⟨rfl, rfl, Nat.le_refl _⟩)

theorem exit_frame {p : Nat} {exitCode : Int} {out : Outcome}
    (run : exitProcessByPCB fuel p exitCode k = .ok out) : SleepFrame k out.kernel := by
  by_cases blocked : k.stateOf p = .blocked
  · rw [(exit_blocked blocked run).1]
    exact ⟨rfl, rfl, Nat.le_refl _⟩
  · refine exit_log_induct (R := fun k _ k' => SleepFrame k k') SleepFrame.refl
      (fun _ _ _ _ _ h h' => h.trans h') (fun k p _ _ _ => ?_)
      (fun _ _ _ _ _ => ⟨rfl, rfl, Nat.le_refl _⟩) blocked run
    unfold markExited
    simp only []
    split_ifs <;> exact ⟨rfl, rfl, Nat.le_refl _⟩

theorem finish_frame {out : Outcome} (run : finish fuel out = .ok k') :
    SleepFrame out.kernel k' := by
  unfold finish at run
  split_ifs at run
  · exact contextSwitch_frame run
  · cases run
    exact SleepFrame.refl _

theorem setState_frame (k : Kernel) (p : Nat) (s : State) : SleepFrame k (k.setState p s) :=
  ⟨rfl, rfl, Nat.le_refl _⟩

theorem blockCurrentProcess_frame (run : k.blockCurrentProcess fuel = .ok k') : SleepFrame k k' :=
  (setState_frame k _ _).trans (contextSwitch_frame run)

theorem fifoUnqueue_frame {semId p : Nat} (taken : k.fifoUnqueue semId = some (p, k')) :
    SleepFrame k k' := by
  obtain ⟨sem, queue, -, -, rfl⟩ := fifoUnqueue_some taken
  exact ⟨rfl, rfl, Nat.le_refl _⟩

/-- The rounds of `postSemaphore` and `destroySemaphore` once a process is taken out. -/
theorem unqueued_frame {toReady : Nat} {pass : Pass Kernel Outcome}
    {ready : Pass Kernel Outcome} (isReady : ready = .again (k.setState toReady .ready) ∨
      ready = .leave ⟨k.setState toReady .ready, false⟩)
    (round : (if k.allocated toReady = false then .error .fault
      else match k.stateOf toReady with
        | .blocked => .ok ready
        | .waitingForExit => do
            let out ← exitProcessByPCB fuel toReady KILL_EXIT_CODE k
            if out.left then return .leave out else return .again out.kernel
        | _ => .ok (.again k) : Exec (Pass Kernel Outcome)) = .ok pass) :
    (∃ j, pass = .again j ∧ SleepFrame k j) ∨ ∃ out, pass = .leave out ∧
      SleepFrame k out.kernel := by
  split_ifs at round
  split at round
  · cases round
    rcases isReady with rfl | rfl
    · exact Or.inl ⟨_, rfl, rfl, rfl, Nat.le_refl _⟩
    · exact Or.inr ⟨_, rfl, rfl, rfl, Nat.le_refl _⟩
  · obtain ⟨out, exited, round⟩ := bind_ok_iff.mp round
    split_ifs at round <;> cases round
    · exact Or.inr ⟨_, rfl, exit_frame exited⟩
    · exact Or.inl ⟨_, rfl, exit_frame exited⟩
  · cases round
    exact Or.inl ⟨_, rfl, SleepFrame.refl k⟩

theorem postRound_frame {semId : Nat} {pass : Pass Kernel Outcome}
    (round : postRound fuel semId k = .ok pass) :
    (∃ j, pass = .again j ∧ SleepFrame k j) ∨ ∃ out, pass = .leave out ∧
      SleepFrame k out.kernel := by
  unfold postRound at round
  cases taken : k.fifoUnqueue semId with
  | none =>
      rw [taken] at round
      cases round
      exact Or.inr ⟨_, rfl, rfl, rfl, Nat.le_refl _⟩
  | some r =>
      rw [taken] at round
      have frame := fifoUnqueue_frame taken
      exact (unqueued_frame (Or.inr rfl) round).imp (fun ⟨j, e, h⟩ => ⟨j, e, frame.trans h⟩)
        (fun ⟨out, e, h⟩ => ⟨out, e, frame.trans h⟩)

theorem destroyRound_frame {semId : Nat} {pass : Pass Kernel Outcome}
    (round : destroyRound fuel semId k = .ok pass) :
    (∃ j, pass = .again j ∧ SleepFrame k j) ∨ ∃ out, pass = .leave out ∧
      SleepFrame k out.kernel := by
  unfold destroyRound at round
  cases taken : k.fifoUnqueue semId with
  | none =>
      rw [taken] at round
      cases round
      exact Or.inr ⟨_, rfl, SleepFrame.refl k⟩
  | some r =>
      rw [taken] at round
      have frame := fifoUnqueue_frame taken
      exact (unqueued_frame (Or.inl rfl) round).imp (fun ⟨j, e, h⟩ => ⟨j, e, frame.trans h⟩)
        (fun ⟨out, e, h⟩ => ⟨out, e, frame.trans h⟩)

/-- A loop whose rounds leave the sleep list alone. -/
theorem loop_frame {body : Kernel → Exec (Pass Kernel Outcome)}
    (rounds : ∀ j pass, body j = .ok pass →
      (∃ j', pass = .again j' ∧ SleepFrame j j') ∨ ∃ out, pass = .leave out ∧
        SleepFrame j out.kernel)
    {out : Outcome} (run : loop body fuel k = .ok out) : SleepFrame k out.kernel := by
  refine loop_inv (SleepFrame k) (fun out => SleepFrame k out.kernel) (fun j j' frame round => ?_)
    (fun j out frame round => ?_) (SleepFrame.refl k) run
  · rcases rounds j _ round with ⟨_, e, h⟩ | ⟨_, e, -⟩ <;> cases e
    exact frame.trans h
  · rcases rounds j _ round with ⟨_, e, -⟩ | ⟨_, e, h⟩ <;> cases e
    exact frame.trans h

theorem recordWaiter_frame {pcb waiter : Nat} (run : k.recordWaiter pcb waiter = .ok k') :
    SleepFrame k k' := by
  obtain ⟨f, rfl, -⟩ := recordWaiter_ok run
  exact ⟨rfl, rfl, Nat.le_refl _⟩

/-- Neither `sleep` nor the timer interrupt. -/
def Op.OffTimer : Op → Prop
  | .sleep .. | .timerTick => False
  | _ => True

theorem kill_frame {pid : Nat} {r : Kernel × Bool} (run : k.kill fuel pid = .ok r) :
    SleepFrame k r.1 := by
  unfold kill at run
  split_ifs at run
  · cases run
    exact SleepFrame.refl k
  · obtain ⟨pcb, -, run⟩ := bind_ok_iff.mp run
    split_ifs at run
    · cases run
      exact SleepFrame.refl k
    · obtain ⟨out, exited, run⟩ := bind_ok_iff.mp run
      obtain ⟨k₁, finished, run⟩ := bind_ok_iff.mp run
      cases run
      exact (exit_frame exited).trans (finish_frame finished)

theorem waitPid_frame {pid : Nat} (run : k.waitPid fuel pid = .ok k') : SleepFrame k k' := by
  unfold waitPid at run
  split_ifs at run
  · cases run
    exact SleepFrame.refl k
  · obtain ⟨pcb, -, run⟩ := bind_ok_iff.mp run
    split_ifs at run
    · cases run
      exact SleepFrame.refl k
    · obtain ⟨k₁, recorded, run⟩ := bind_ok_iff.mp run
      refine (recordWaiter_frame recorded).trans (SleepFrame.trans ?_ (contextSwitch_frame run))
      split_ifs <;> exact ⟨rfl, rfl, Nat.le_refl _⟩

theorem waitSemaphore_frame {semId : Nat} {node : Bool} {r : Kernel × Bool}
    (run : k.waitSemaphore fuel semId node = .ok r) : SleepFrame k r.1 := by
  unfold waitSemaphore at run
  split at run
  · cases run
    exact SleepFrame.refl k
  · split_ifs at run
    · cases run
      exact SleepFrame.refl k
    · cases run
      exact ⟨rfl, rfl, Nat.le_refl _⟩
    · obtain ⟨k₁, blocked, run⟩ := bind_ok_iff.mp run
      cases run
      refine SleepFrame.trans ?_ (blockCurrentProcess_frame blocked)
      unfold fifoQueue
      split_ifs <;> exact ⟨rfl, rfl, Nat.le_refl _⟩

theorem postSemaphore_frame {semId : Nat} {r : Kernel × Bool}
    (run : k.postSemaphore fuel semId = .ok r) : SleepFrame k r.1 := by
  unfold postSemaphore at run
  split at run
  · cases run
    exact SleepFrame.refl k
  · split_ifs at run
    · cases run
      exact SleepFrame.refl k
    · obtain ⟨out, looped, run⟩ := bind_ok_iff.mp run
      obtain ⟨k₁, finished, run⟩ := bind_ok_iff.mp run
      cases run
      exact (loop_frame (fun _ _ => postRound_frame) looped).trans (finish_frame finished)

theorem destroySemaphore_frame {semId : Nat} {r : Kernel × Bool}
    (run : k.destroySemaphore fuel semId = .ok r) : SleepFrame k r.1 := by
  unfold destroySemaphore at run
  split at run
  · cases run
    exact SleepFrame.refl k
  · split_ifs at run
    · cases run
      exact SleepFrame.refl k
    · obtain ⟨out, looped, run⟩ := bind_ok_iff.mp run
      have frame := loop_frame (fun _ _ => destroyRound_frame) looped
      split_ifs at run
      · obtain ⟨k₁, switched, run⟩ := bind_ok_iff.mp run
        cases run
        exact frame.trans (contextSwitch_frame switched)
      · cases run
        exact frame.trans ⟨rfl, rfl, Nat.le_refl _⟩

theorem blockByUser_frame {pid : Nat} {r : Kernel × Bool} (run : k.blockByUser fuel pid = .ok r) :
    SleepFrame k r.1 := by
  obtain ⟨pcb, -, run⟩ := bind_ok_iff.mp run
  split_ifs at run
  · obtain ⟨k₁, finished, run⟩ := bind_ok_iff.mp run
    cases run
    exact (setState_frame k _ _).trans (finish_frame finished)
  · cases run
    exact SleepFrame.refl k

theorem unblock_frame {pid : Nat} {r : Kernel × Bool} (run : k.unblock fuel pid = .ok r) :
    SleepFrame k r.1 := by
  obtain ⟨pcb, -, run⟩ := bind_ok_iff.mp run
  split_ifs at run <;> cases run <;> exact ⟨rfl, rfl, Nat.le_refl _⟩

theorem changePriority_frame {pid priority : Nat} {r : Kernel × Bool}
    (run : k.changePriority fuel pid priority = .ok r) : SleepFrame k r.1 := by
  unfold changePriority at run
  split_ifs at run
  · cases run
    exact SleepFrame.refl k
  · obtain ⟨pcb, -, run⟩ := bind_ok_iff.mp run
    split_ifs at run <;> cases run <;> exact ⟨rfl, rfl, Nat.le_refl _⟩

theorem ctrlC_frame (run : k.killCurrentProcessInForeground fuel = .ok k') : SleepFrame k k' := by
  unfold killCurrentProcessInForeground at run
  split_ifs at run
  · cases run
    exact SleepFrame.refl k
  · obtain ⟨out, exited, switch⟩ := bind_ok_iff.mp run
    exact (exit_frame exited).trans (contextSwitch_frame switch)

theorem createProcess_frame {mem : ProcessMemory} {rsp : Nat} {garbage : Int} {r : Kernel × Bool}
    (run : k.createProcess mem rsp garbage = .ok r) : SleepFrame k r.1 := by
  rcases createProcess_eq mem rsp garbage run with e | e
  · rw [e, added_rest]
    exact ⟨rfl, rfl, Nat.le_add_right _ _⟩
  · rw [e]
    exact ⟨rfl, rfl, Nat.le_refl _⟩

/-- Operations off the timer leave the sleep list alone. -/
theorem exec_frame {op : Op} (off : op.OffTimer) (run : k.exec fuel op = .ok k') :
    SleepFrame k k' := by
  cases op with
  | createProcess mem rsp garbage =>
      obtain ⟨r, ran, rfl⟩ := map_ok_iff.mp run
      exact createProcess_frame ran
  | exit exitCode =>
      obtain ⟨out, exited, switch⟩ := bind_ok_iff.mp run
      exact (exit_frame exited).trans (contextSwitch_frame switch)
  | kill pid =>
      obtain ⟨r, ran, rfl⟩ := map_ok_iff.mp run
      exact kill_frame ran
  | waitPid pid => exact waitPid_frame run
  | sleep ticks node => exact off.elim
  | semInit initialValue =>
      cases run
      unfold semInit
      split <;> exact ⟨rfl, rfl, Nat.le_refl _⟩
  | waitSemaphore semId node =>
      obtain ⟨r, ran, rfl⟩ := map_ok_iff.mp run
      exact waitSemaphore_frame ran
  | postSemaphore semId =>
      obtain ⟨r, ran, rfl⟩ := map_ok_iff.mp run
      exact postSemaphore_frame ran
  | destroySemaphore semId =>
      obtain ⟨r, ran, rfl⟩ := map_ok_iff.mp run
      exact destroySemaphore_frame ran
  | blockByUser pid =>
      obtain ⟨r, ran, rfl⟩ := map_ok_iff.mp run
      exact blockByUser_frame ran
  | unblock pid =>
      obtain ⟨r, ran, rfl⟩ := map_ok_iff.mp run
      exact unblock_frame ran
  | changePriority pid newPriority =>
      obtain ⟨r, ran, rfl⟩ := map_ok_iff.mp run
      exact changePriority_frame ran
  | yield =>
      exact (setState_frame k _ _).trans (contextSwitch_frame run)
  | timerTick => exact off.elim
  | reschedule => exact contextSwitch_frame run
  | ctrlC => exact ctrlC_frame run
  | userCode rsp junk =>
      cases run
      exact ⟨rfl, rfl, Nat.le_refl _⟩

end Frames

/-! ### The clock -/

/-- The kernel, and the nodes of the sleep list that were freed, in their order. -/
structure Clock where
  kernel : Kernel
  freed : List Nat

namespace Kernel

/-- The nodes of the sleep list that an operation frees. -/
def execFrees (fuel : Nat) (k : Kernel) : Op → List Nat
  | .timerTick =>
      match k.contextSwitch fuel with
      | .ok k => k.incTicksFrees fuel
      | .error _ => []
  | _ => []

/-- The entries that an operation makes. -/
def newEntries (k : Kernel) : Op → List Sleeper
  | .sleep initialTicks _ =>
      if 0 < initialTicks then [⟨k.unused, k.currentPCB, initialTicks⟩] else []
  | _ => []

/-- The nodes of the sleep list. -/
def sleepCells (k : Kernel) : List Nat := k.sleepEntries.map Sleeper.node

end Kernel

/-- `initialTicks` is a `uint64_t`. -/
def Op.Fits : Op → Prop
  | .sleep initialTicks _ => initialTicks < word
  | _ => True

instance (op : Op) : Decidable op.Fits :=
  match op with
  | .sleep initialTicks _ => inferInstanceAs (Decidable (initialTicks < word))
  | .createProcess .. | .exit _ | .kill _ | .waitPid _ | .semInit _ | .waitSemaphore
      .. | .postSemaphore _
  | .destroySemaphore _ | .blockByUser _ | .unblock _ | .changePriority .. | .yield | .timerTick
  | .reschedule | .ctrlC | .userCode .. => .isTrue trivial

namespace Clock

def Trans (c : Clock) (op : Op) (c' : Clock) : Prop :=
  c.kernel.Enabled op ∧ ∃ fuel, c.kernel.exec fuel op = .ok c'.kernel ∧
    c'.freed = c.freed ++ c.kernel.execFrees fuel op

/-- A run of operations, through kernels with the property `P` only. -/
inductive Runs (P : Kernel → Prop) : Clock → List Op → Clock → Prop
  | none {c : Clock} (holds : P c.kernel) : Runs P c [] c
  | more {c c' c'' : Clock} {ops : List Op} {op : Op} (run : Runs P c ops c') (fits : op.Fits)
      (trans : c'.Trans op c'') (holds : P c''.kernel) : Runs P c (ops ++ [op]) c''

/-- Reached from boot, with the process of each entry of the sleep list BLOCKED or
WAITING_FOR_EXIT all along. -/
def Reached (c : Clock) : Prop :=
  ∃ idleRsp initRsp garbage ops, Runs Kernel.Sleeping ⟨boot idleRsp initRsp garbage, []⟩ ops c

/-- What an operation does to the sleep list: the timer interrupt treats each entry, and
the others only add the entries that are theirs. -/
def Treated (c : Clock) (op : Op) (c' : Clock) : Prop :=
  match op with
  | .timerTick => ∃ frees, Ticked c.kernel c'.kernel frees ∧ c'.freed = c.freed ++ frees
  | _ =>
      c'.kernel.sleepEntries = c.kernel.newEntries op ++ c.kernel.sleepEntries ∧ c'.freed = c.freed

/-- No node is freed twice, or while it is in the list. -/
def FreedOnce (c : Clock) : Prop := (c.freed ++ c.kernel.sleepCells).Nodup

/-- What holds in every clock that is reached. -/
structure Good (c : Clock) : Prop where
  inv : Inv False c.kernel
  due : ∀ e ∈ c.kernel.sleepEntries, e.Due
  used : ∀ node ∈ c.freed, node < c.kernel.unused
  once : c.FreedOnce

end Clock

/-! ### One operation -/

section Step

variable {k k' : Kernel} {c c' : Clock} {op : Op} {fuel n : Nat}

theorem Clock.Trans.trans (t : c.Trans op c') : Process.Trans c.kernel op c'.kernel := by
  obtain ⟨enabled, fuel, run, -⟩ := t
  exact ⟨enabled, fuel, run⟩

/-- The entries after `sleep`. -/
theorem slept_entries (i : Inv False k) (pos : 0 < n) (run : k.sleep fuel n true = .ok k') :
    k'.sleepEntries = ⟨k.unused, k.currentPCB, n⟩ :: k.sleepEntries := by
  rw [Kernel.sleep, if_pos pos, if_pos rfl] at run
  obtain ⟨cells, l⟩ := i.records.sleepList
  have fresh : k.unused ∉ cells := fun mem => Nat.lt_irrefl _ (l.used _ mem).2
  have list := l.slept (Nat.lt_of_le_of_lt (Nat.zero_le _) i.toMid.current_lt) n
  have frame : SleepFrame (withSleeper k n) k' := blockCurrentProcess_frame run
  have nodes : ∀ a, (withSleeper k n).sleeperAt a =
      if a = k.unused then ⟨k.unused, k.currentPCB, n⟩ else k.sleeperAt a := by
    intro a
    simp only [sleeperAt, sleepPCB, withSleeper, Function.update_apply]
    split_ifs with same
    · rw [same]
    · rfl
  rw [frame.entries list, list.entries, l.entries, List.map_cons, nodes, if_pos rfl]
  congr 1
  exact List.map_congr_left fun c mem => by rw [nodes, if_neg (ne_of_mem_of_not_mem mem fresh)]

/-- What the timer interrupt does, from where the switch before it leaves off. -/
theorem timerTick_ticked (i : Inv False k) (sleeping : k.Sleeping)
    (due : ∀ e ∈ k.sleepEntries, e.Due)
    (run : k.timerTick fuel = .ok k') : Ticked k k' (k.execFrees fuel .timerTick) := by
  obtain ⟨j, switch, run⟩ := bind_ok_iff.mp run
  obtain ⟨out, ticked, run⟩ := bind_ok_iff.mp run
  have switched := contextSwitch_of_ok i.ring i.sched switch
  obtain ⟨cells, l⟩ := i.records.sleepList
  have entries : j.sleepEntries = k.sleepEntries := (contextSwitch_frame switch).entries l
  have states : ∀ e ∈ k.sleepEntries, j.stateOf e.pcb = k.stateOf e.pcb :=
    fun e mem => switched.selects.waiting_eq (sleeping e mem)
  have sleeping' : j.Sleeping := by
    intro e mem
    rw [entries] at mem
    rw [states e mem]
    exact sleeping e mem
  obtain ⟨left, effect⟩ :=
    incTicks_ticked (i.toMid.switched switched) sleeping' (by rwa [entries]) ticked
  rw [finish, left] at run
  cases run
  have frees : k.execFrees fuel .timerTick = j.incTicksFrees fuel := by
    rw [execFrees, switch]
  rw [frees]
  constructor
  · rw [effect.entries, entries]
    exact List.filterMap_congr fun e mem => by rw [states e mem]
  · intro e mem
    rw [effect.states e (entries ▸ mem), states e mem]
  · rw [effect.frees, entries]
    exact congrArg _ (List.filter_congr fun e mem => by rw [states e mem])

theorem Clock.treated (i : Inv False c.kernel) (sleeping : c.kernel.Sleeping)
    (due : ∀ e ∈ c.kernel.sleepEntries, e.Due) (t : c.Trans op c') : c.Treated op c' := by
  obtain ⟨enabled, fuel, run, freed⟩ := t
  obtain ⟨cells, l⟩ := i.records.sleepList
  have other : op.OffTimer → c.kernel.execFrees fuel op = [] → c.kernel.newEntries op = [] →
      c'.kernel.sleepEntries = c.kernel.newEntries op ++ c.kernel.sleepEntries ∧
        c'.freed = c.freed := by
    intro off none new
    rw [none, List.append_nil] at freed
    rw [new, List.nil_append]
    exact ⟨(exec_frame off run).entries l, freed⟩
  cases op with
  | timerTick => exact ⟨_, timerTick_ticked i sleeping due run, freed⟩
  | sleep ticks node =>
      have none : c.kernel.execFrees fuel (.sleep ticks node) = [] := rfl
      rw [none, List.append_nil] at freed
      refine ⟨?_, freed⟩
      rw [newEntries]
      split_ifs with pos
      · cases node with
        | true => exact slept_entries i pos run
        | false =>
            rw [exec, Kernel.sleep, if_pos pos] at run
            cases run
      · rw [exec, Kernel.sleep, if_neg pos] at run
        rw [← Except.ok.inj run]
        rfl
  | createProcess | exit | kill | waitPid | semInit | waitSemaphore | postSemaphore | destroySemaphore
  | blockByUser | unblock | changePriority | yield | reschedule | ctrlC | userCode =>
      exact other trivial rfl rfl

theorem Sleeper.tick_some {e e' : Sleeper} {state : State} (ticks : e.tick state = some e') :
    state = .blocked ∧ e.ticksRemaining ≠ 1 ∧
      e' = { e with ticksRemaining := e.ticksRemaining - 1 } := by
  unfold Sleeper.tick at ticks
  split_ifs at ticks with more
  cases ticks
  exact ⟨more.1, more.2, rfl⟩

theorem filterMap_keys {α β : Type} {f : α → Option α} {key : α → β}
    (same : ∀ a b, f a = some b → key b = key a) (l : List α) :
      (l.filterMap f).map key = (l.filter fun a => ! (f a).isNone).map key := by
  induction l with
  | nil => rfl
  | cons a l ih =>
      cases found : f a with
      | none => rw [List.filterMap_cons_none found, List.filter_cons_of_neg (by simp [found]), ih]
      | some b =>
          rw [List.filterMap_cons_some found, List.filter_cons_of_pos (by simp [found]),
            List.map_cons, List.map_cons, ih, same a b found]

/-- The nodes that a tick frees and those that it keeps are all nodes of the list. -/
theorem Ticked.cells {frees : List Nat} (t : Ticked k k' frees) :
    (frees ++ k'.sleepCells).Perm k.sleepCells := by
  have same : ∀ e e' : Sleeper, e.tick (k.stateOf e.pcb) = some e' → e'.node = e.node :=
      fun e e' ticks => by
    rw [(Sleeper.tick_some ticks).2.2]
  rw [sleepCells, t.entries, filterMap_keys same, t.frees, ← List.map_append]
  exact (List.filter_append_perm _ _).map _

theorem mem_sleepCells (i : Inv False k) {node : Nat} (mem : node ∈ k.sleepCells) :
    node < k.unused := by
  obtain ⟨cells, l⟩ := i.records.sleepList
  have same : Sleeper.node ∘ k.sleeperAt = id := rfl
  rw [sleepCells, l.entries, List.map_map, same, List.map_id] at mem
  exact (l.used node mem).2

/-- The node of a new entry was not used before. -/
theorem newEntries_spec {e : Sleeper} (mem : e ∈ k.newEntries op) :
    ∃ n node, op = .sleep n node ∧ 0 < n ∧ k.newEntries op = [e] ∧
      e = ⟨k.unused, k.currentPCB, n⟩ := by
  cases op with
  | sleep n node =>
      rw [newEntries] at mem ⊢
      split_ifs at mem ⊢ with pos
      · rw [List.mem_singleton] at mem
        exact ⟨n, node, rfl, pos, by rw [mem], mem⟩
      · cases mem
  | createProcess | exit | kill | waitPid | semInit | waitSemaphore | postSemaphore | destroySemaphore
  | blockByUser | unblock | changePriority | yield | timerTick | reschedule | ctrlC | userCode =>
      cases mem

theorem Clock.Good.step (g : c.Good) (sleeping : c.kernel.Sleeping) (fits : op.Fits)
    (t : c.Trans op c') : c'.Good := by
  have effect := t.trans.effect g.inv
  have treated := c.treated g.inv sleeping g.due t
  have grows := effect.moves.unused
  by_cases tick : op = .timerTick
  · subst tick
    obtain ⟨frees, ticked, freed⟩ := treated
    constructor
    · exact effect.inv g.inv
    · intro e mem
      rw [ticked.entries] at mem
      obtain ⟨e₀, listed, ticks⟩ := List.mem_filterMap.mp mem
      obtain ⟨-, more, rfl⟩ := Sleeper.tick_some ticks
      obtain ⟨pos, small⟩ := g.due e₀ listed
      exact ⟨by dsimp only; omega, by dsimp only; omega⟩
    · intro node mem
      rw [freed] at mem
      rcases List.mem_append.mp mem with old | new
      · exact Nat.lt_of_lt_of_le (g.used node old) grows
      · have listed := ticked.cells.subset (List.mem_append_left _ new)
        exact Nat.lt_of_lt_of_le (mem_sleepCells g.inv listed) grows
    · have once : (c.freed ++ c.kernel.sleepCells).Nodup := g.once
      rw [FreedOnce, freed, List.append_assoc]
      exact (ticked.cells.append_left c.freed).nodup_iff.mpr once
  · have added : c'.kernel.sleepEntries = c.kernel.newEntries op ++ c.kernel.sleepEntries ∧
        c'.freed = c.freed := by
      cases op <;> first | exact treated | exact absurd rfl tick
    obtain ⟨entries, freed⟩ := added
    constructor
    · exact effect.inv g.inv
    · intro e mem
      rw [entries] at mem
      rcases List.mem_append.mp mem with new | old
      · obtain ⟨n, node, rfl, pos, -, rfl⟩ := newEntries_spec new
        exact ⟨pos, fits⟩
      · exact g.due e old
    · intro node mem
      rw [freed] at mem
      exact Nat.lt_of_lt_of_le (g.used node mem) grows
    · rw [FreedOnce, freed, sleepCells, entries, List.map_append]
      rcases List.eq_nil_or_concat' (c.kernel.newEntries op) with none | ⟨_, e, some⟩
      · rw [none]
        exact g.once
      · have new : e ∈ c.kernel.newEntries op := by rw [some]; simp
        obtain ⟨n, node, -, -, only, same⟩ := newEntries_spec new
        have fresh : e.node ∉ c.freed ++ c.kernel.sleepCells := by
          rw [same]
          intro mem
          rcases List.mem_append.mp mem with freed | listed
          · exact Nat.lt_irrefl _ (g.used _ freed)
          · exact Nat.lt_irrefl _ (mem_sleepCells g.inv listed)
        rw [only]
        exact List.perm_middle.nodup_iff.mpr (List.nodup_cons.mpr ⟨fresh, g.once⟩)

end Step

/-! ### Runs -/

def Op.isTick : Op → Bool
  | .timerTick => true
  | _ => false

/-- The calls of `incTicks` among the operations. -/
def ticksOf (ops : List Op) : Nat := ops.countP Op.isTick

/-- The proviso, with `p` not killed. -/
def Spared (p : Nat) (k : Kernel) : Prop := k.Sleeping ∧ k.stateOf p ≠ .waitingForExit

/-- The node is out of the list, and was freed, once. -/
def Clock.Gone (c : Clock) (node : Nat) : Prop := node ∉ c.kernel.sleepCells ∧
    c.freed.count node = 1

section Runs

variable {P : Kernel → Prop} {c c' c₁ c₂ : Clock} {op : Op} {ops : List Op} {e : Sleeper}

theorem ticksOf_concat (ops : List Op) (op : Op) :
    ticksOf (ops ++ [op]) = ticksOf ops + op.isTick.toNat := by
  rw [ticksOf, List.countP_append, ticksOf, List.countP_singleton]
  cases op.isTick <;> rfl

theorem Clock.Runs.start (run : Clock.Runs P c ops c') : P c.kernel := by
  induction run with
  | none holds => exact holds
  | more _ _ _ _ ih => exact ih

theorem Clock.Runs.last (run : Clock.Runs P c ops c') : P c'.kernel := by
  cases run with
  | none holds => exact holds
  | more _ _ _ holds => exact holds

theorem Clock.Runs.good (run : Clock.Runs P c ops c') (waits : ∀ k, P k → k.Sleeping) (g : c.Good) :
    c'.Good := by
  induction run with
  | none => exact g
  | more run fits trans _ ih => exact ih.step (waits _ run.last) fits trans

theorem boot_good (idleRsp initRsp : Nat) (garbage : Int) :
    Clock.Good ⟨boot idleRsp initRsp garbage, []⟩ where
  inv := boot_inv _ _ _ False
  due := fun e mem => by cases mem
  used := fun node mem => by cases mem
  once := List.nodup_nil

theorem Clock.Reached.good (reached : c.Reached) : c.Good ∧ c.kernel.Sleeping := by
  obtain ⟨r₁, r₂, g, ops, run⟩ := reached
  exact ⟨run.good (fun _ waits => waits) (boot_good r₁ r₂ g), run.last⟩

/-- An entry that a tick takes out. -/
theorem Clock.Good.taken (g : c.Good) (sleeping : c.kernel.Sleeping) (t : c.Trans .timerTick c')
    (listed : e ∈ c.kernel.sleepEntries) (spent : e.tick (c.kernel.stateOf e.pcb) = none) :
    c'.kernel.stateOf e.pcb = e.after (c.kernel.stateOf e.pcb) ∧ c'.Gone e.node := by
  obtain ⟨frees, ticked, freed⟩ := c.treated g.inv sleeping g.due t
  have fits : Op.timerTick.Fits := trivial
  have once : (c'.freed ++ c'.kernel.sleepCells).Nodup := (g.step sleeping fits t).once
  have out : e.node ∈ c'.freed := by
    rw [freed, ticked.frees]
    refine List.mem_append_right _ (List.mem_map_of_mem (List.mem_filter.mpr ⟨listed, ?_⟩))
    rw [spent]
    rfl
  rw [List.nodup_append] at once
  refine ⟨ticked.states e listed, fun still => once.2.2 _ out _ still rfl, ?_⟩
  exact List.count_eq_one_of_mem once.1 out

/-- An entry that an operation leaves in the list. -/
theorem Clock.Good.stays (g : c.Good) (sleeping : c.kernel.Sleeping) (t : c.Trans op c')
    (listed : e ∈ c.kernel.sleepEntries) (other : op.isTick = false) :
      e ∈ c'.kernel.sleepEntries := by
  have treated := c.treated g.inv sleeping g.due t
  have entries : c'.kernel.sleepEntries = c.kernel.newEntries op ++ c.kernel.sleepEntries := by
    cases op <;> first | exact treated.1 | cases other
  rw [entries]
  exact List.mem_append_right _ listed

theorem Spared.blocked {k : Kernel} (spared : Spared e.pcb k) (listed : e ∈ k.sleepEntries) :
    k.stateOf e.pcb = .blocked := (spared.1 e listed).resolve_right spared.2

end Runs

/-! ### On time -/

/-- What becomes of the process that calls `sleep` for `n` ticks in `c` and is asleep in `c₁`. -/
structure Clock.OnTime (c c₁ : Clock) (n : Nat) : Prop where
  /-- Until the `n`-th tick it is BLOCKED, and its entry counts down. -/
  waits : ∀ ops c₂, Clock.Runs (Spared c.kernel.currentPCB) c₁ ops c₂ → ticksOf ops < n →
    ⟨c.kernel.unused, c.kernel.currentPCB, n - ticksOf ops⟩ ∈ c₂.kernel.sleepEntries ∧
      c₂.kernel.stateOf c.kernel.currentPCB = .blocked
  /-- At the `n`-th tick it becomes READY. -/
  wakes : ∀ ops c₂ c₃, Clock.Runs (Spared c.kernel.currentPCB) c₁ ops c₂ → ticksOf ops + 1 = n →
    c₂.Trans .timerTick c₃ → c₃.kernel.stateOf c.kernel.currentPCB = .ready ∧
      c₃.Gone c.kernel.unused
  /-- Killed before, its entry stays up to the next tick, which makes it EXITED. -/
  dies : ∀ ops c₂ kill c₃ ops' c₄, Clock.Runs (Spared c.kernel.currentPCB) c₁ ops c₂ →
    ticksOf ops < n →
    kill.Fits → c₂.Trans kill c₃ → c₃.kernel.stateOf c.kernel.currentPCB = .waitingForExit →
    Clock.Runs Kernel.Sleeping c₃ ops' c₄ → ticksOf ops' = 0 →
    (⟨c.kernel.unused, c.kernel.currentPCB, n - ticksOf ops⟩ ∈ c₄.kernel.sleepEntries ∧
        c₄.kernel.stateOf c.kernel.currentPCB = .waitingForExit) ∧
      ∀ c₅, c₄.Trans .timerTick c₅ →
        c₅.kernel.stateOf c.kernel.currentPCB = .exited ∧ c₅.Gone c.kernel.unused

section Life

variable {c c₁ c₂ c₃ : Clock} {ops : List Op} {e : Sleeper} {n : Nat}

/-- An entry that is not due yet, and whose process is not killed, counts down. -/
theorem counts_down (g : c₁.Good) (listed : e ∈ c₁.kernel.sleepEntries)
    (run : Clock.Runs (Spared e.pcb) c₁ ops c₂) (before : ticksOf ops < e.ticksRemaining) :
    { e with ticksRemaining := e.ticksRemaining - ticksOf ops } ∈ c₂.kernel.sleepEntries := by
  induction run with
  | none => exact listed
  | @more j j' ops op run fits trans holds ih =>
      have g' : j.Good := run.good (fun _ spared => spared.1) g
      have sleeping := run.last.1
      rw [ticksOf_concat] at before ⊢
      have there := ih (by omega)
      cases tick : op.isTick with
      | false => exact g'.stays sleeping trans there tick
      | true =>
          obtain rfl : op = .timerTick := by
            cases op <;> first | rfl | cases tick
          rw [tick] at before
          obtain ⟨frees, ticked, -⟩ := j.treated g'.inv sleeping g'.due trans
          have blocked : j.kernel.stateOf e.pcb = .blocked :=
            (sleeping _ there).resolve_right run.last.2
          rw [ticked.entries, List.mem_filterMap]
          refine ⟨_, there, ?_⟩
          have several : e.ticksRemaining - ticksOf ops ≠ 1 := by
            have : true.toNat = 1 := rfl
            omega
          rw [Sleeper.tick, if_pos ⟨blocked, several⟩, Nat.sub_sub]
          rfl

/-- A killed sleeper keeps its entry while no tick comes. -/
theorem stays_killed (g : c₁.Good) (listed : e ∈ c₁.kernel.sleepEntries)
    (killed : c₁.kernel.stateOf e.pcb = .waitingForExit)
    (run : Clock.Runs Kernel.Sleeping c₁ ops c₂) (quiet : ticksOf ops = 0) :
    e ∈ c₂.kernel.sleepEntries ∧ c₂.kernel.stateOf e.pcb = .waitingForExit := by
  induction run with
  | none => exact ⟨listed, killed⟩
  | @more j j' ops op run fits trans holds ih =>
      have g' : j.Good := run.good (fun _ waits => waits) g
      rw [ticksOf_concat] at quiet
      obtain ⟨there, waits⟩ := ih (by omega)
      have off : op.isTick = false := by
        cases tick : op.isTick with
        | false => rfl
        | true =>
            rw [tick] at quiet
            have : true.toNat = 1 := rfl
            omega
      have still := g'.stays run.last trans there off
      refine ⟨still, ?_⟩
      have known : e.pcb < j.kernel.unused := by
        refine g'.inv.records.used .sleep e.pcb ?_
        obtain ⟨cells, l⟩ := g'.inv.records.sleepList
        rw [l.entries] at there
        obtain ⟨cell, mem, rfl⟩ := List.mem_map.mp there
        rw [entries_sleep, l.sleepers]
        exact List.mem_map_of_mem mem
      have moves := (trans.trans.effect g'.inv).moves
      rcases moves.killed e.pcb known waits with same | dead
      · exact same
      · have waits := holds e still
        rw [dead] at waits
        simp [Waiting] at waits

theorem Clock.Good.onTime (g : c.Good) (sleeping : c.kernel.Sleeping) (pos : 0 < n)
    (small : n < word) (slept : c.Trans (.sleep n true) c₁) : Clock.OnTime c c₁ n := by
  have fits : (Op.sleep n true).Fits := small
  have g₁ : c₁.Good := g.step sleeping fits slept
  have listed : ⟨c.kernel.unused, c.kernel.currentPCB, n⟩ ∈ c₁.kernel.sleepEntries := by
    have treated : c₁.kernel.sleepEntries = _ := (c.treated g.inv sleeping g.due slept).1
    rw [treated, newEntries, if_pos pos]
    exact List.mem_cons_self
  have waits : ∀ ops c₂, Clock.Runs (Spared c.kernel.currentPCB) c₁ ops c₂ → ticksOf ops < n →
      ⟨c.kernel.unused, c.kernel.currentPCB, n - ticksOf ops⟩ ∈ c₂.kernel.sleepEntries ∧
        c₂.kernel.stateOf c.kernel.currentPCB = .blocked := by
    intro ops c₂ run before
    have there := counts_down g₁ listed run before
    exact ⟨there, Spared.blocked run.last there⟩
  constructor
  · exact waits
  · intro ops c₂ c₃ run last tick
    obtain ⟨there, blocked⟩ := waits ops c₂ run (by omega)
    rw [show n - ticksOf ops = 1 by omega] at there
    have g₂ : c₂.Good := run.good (fun _ spared => spared.1) g₁
    obtain ⟨state, gone⟩ :=
      g₂.taken run.last.1 tick there (by rw [Sleeper.tick, if_neg fun more => more.2 rfl])
    exact ⟨by rw [state, Sleeper.after, if_pos blocked, if_pos rfl], gone⟩
  · intro ops c₂ kill c₃ ops' c₄ run before fits killing killed run' quiet
    obtain ⟨there, blocked⟩ := waits ops c₂ run before
    have g₂ : c₂.Good := run.good (fun _ spared => spared.1) g₁
    have g₃ : c₃.Good := g₂.step run.last.1 fits killing
    have off : kill.isTick = false := by
      cases tick : kill.isTick with
      | false => rfl
      | true =>
          -- A tick wakes the process, or leaves it BLOCKED.
          obtain rfl : kill = .timerTick := by
            cases kill <;> first | rfl | cases tick
          obtain ⟨frees, ticked, -⟩ := c₂.treated g₂.inv run.last.1 g₂.due killing
          have state := ticked.states _ there
          rw [Sleeper.after, if_pos blocked, killed] at state
          split_ifs at state
    obtain ⟨still, dying⟩ :=
      stays_killed g₃ (g₂.stays run.last.1 killing there off) killed run' quiet
    refine ⟨⟨still, dying⟩, fun c₅ tick => ?_⟩
    have g₄ : c₄.Good := run'.good (fun _ waits => waits) g₃
    have other : ¬ c₄.kernel.stateOf c.kernel.currentPCB = .blocked := by rw [dying]; simp
    obtain ⟨state, gone⟩ := g₄.taken run'.last tick still
      (by rw [Sleeper.tick, if_neg fun more => other more.1])
    exact ⟨by rw [state, Sleeper.after, if_neg other], gone⟩

/-- Without a second kill the timer interrupt returns. -/
theorem timerTick_returns {k : Kernel} (i : Inv True k) :
    ∃ m, ∀ fuel, m < fuel → ∃ k', k.exec fuel .timerTick = .ok k' := by
  obtain ⟨m₁, switches⟩ := contextSwitch_total i.ring i.sched
  obtain ⟨j, switch, switched⟩ := switches (m₁ + 1) (Nat.lt_succ_self _)
  have i' := i.toMid.switched switched
  obtain ⟨m₂, ticks⟩ := incTicks_total i'
  refine ⟨max (m₁ + 1) m₂, fun fuel enough => ?_⟩
  obtain ⟨out, ticked⟩ := ticks fuel (by omega)
  have again := contextSwitch_mono (show m₁ + 1 ≤ fuel by omega) switch
  obtain ⟨left, -⟩ := incTicks_spec i' ticked
  refine ⟨out.kernel, ?_⟩
  rw [exec, timerTick, again, ok_bind, ticked, ok_bind, finish, left]
  rfl

end Life

/-- In every run in which the processes of the sleep list stay BLOCKED or
WAITING_FOR_EXIT: each sleeper is woken or finished off on time; each operation treats
every entry of the list; and no node is freed twice. Where no Ctrl+C finds a process
that was killed before, the timer interrupt returns. -/
theorem sleepers_on_time {c : Clock} (reached : c.Reached) :
    (∀ n c₁, 0 < n → n < word → c.Trans (.sleep n true) c₁ → c.OnTime c₁ n) ∧
      (∀ op c', c.Trans op c' → c.Treated op c') ∧ c.FreedOnce ∧
      (Reach Kernel.FirstKill c.kernel →
        ∃ m, ∀ fuel, m < fuel → ∃ k', c.kernel.exec fuel .timerTick = .ok k') := by
  obtain ⟨g, sleeping⟩ := reached.good
  refine ⟨?_, ?_, g.once, ?_⟩
  · intro n c₁ pos small slept
    exact g.onTime sleeping pos small slept
  · intro op c' t
    exact c.treated g.inv sleeping g.due t
  · intro reach
    exact timerTick_returns (reach.inv fun _ _ _ ok => ok)

instance (k : Kernel) : Decidable k.Sleeping := by
  unfold Kernel.Sleeping Waiting
  infer_instance

/-- One operation, when it can run. -/
def Clock.perform (fuel : Nat) (c : Clock) (op : Op) : Option Clock :=
  if c.kernel.Enabled op ∧ op.Fits then
    match c.kernel.exec fuel op with
    | .ok k' => if k'.Sleeping then some ⟨k', c.freed ++ c.kernel.execFrees fuel op⟩ else none
    | .error _ => none
  else none

theorem Clock.perform_trans {fuel : Nat} {c c' : Clock} {op : Op}
    (run : c.perform fuel op = some c') : op.Fits ∧ c.Trans op c' ∧ c'.kernel.Sleeping := by
  unfold Clock.perform at run
  split_ifs at run with can
  cases ran : c.kernel.exec fuel op with
  | error _ =>
      rw [ran] at run
      cases run
  | ok next =>
      rw [ran] at run
      dsimp only at run
      split_ifs at run with sleeping
      cases run
      exact ⟨can.2, ⟨can.1, fuel, ran, rfl⟩, sleeping⟩

theorem Clock.foldlM_runs {fuel : Nat} {ops done : List Op} {c₀ c c' : Clock}
    (before : Clock.Runs Kernel.Sleeping c₀ done c)
    (run : ops.foldlM (Clock.perform fuel) c = some c') :
    Clock.Runs Kernel.Sleeping c₀ (done ++ ops) c' := by
  induction ops generalizing c done with
  | nil =>
      cases run
      rwa [List.append_nil]
  | cons op ops ih =>
      rw [List.foldlM_cons] at run
      obtain ⟨next, first, run⟩ := Option.bind_eq_some_iff.mp run
      obtain ⟨fits, trans, sleeping⟩ := perform_trans first
      have more := ih (before.more fits trans sleeping) run
      rwa [List.append_assoc] at more

/-- `init` sleeps for two ticks, the next process for one and the third one for five; the
fourth one kills the third. -/
def threeSleep : List Op :=
  [.createProcess ⟨true, true, true, true, true⟩ 0 0,
    .createProcess ⟨true, true, true, true, true⟩ 0 0,
    .createProcess ⟨true, true, true, true, true⟩ 0 0, .sleep 2 true, .sleep 1 true,
      .sleep 5 true, .kill 2]

/-- The next tick takes the entries of the killed process and of the one that is due out of
the list, and counts the entry of `init` down. -/
theorem sleepers_on_time_three : ∃ c c' : Clock,
    c.kernel.sleepEntries = [⟨13, 8, 5⟩, ⟨12, 6, 1⟩, ⟨11, 4, 2⟩] ∧ c.Treated .timerTick c' ∧
      c'.kernel.sleepEntries = [⟨11, 4, 1⟩] ∧ c'.freed = [13, 12] ∧ c'.FreedOnce := by
  have ran : (threeSleep.foldlM (Clock.perform 40) ⟨boot 0 0 0, []⟩ : Option Clock).bind
      (fun c => (c.perform 40 .timerTick).map fun c' =>
        (c.kernel.sleepEntries, c'.kernel.sleepEntries, c'.freed)) =
      some ([⟨13, 8, 5⟩, ⟨12, 6, 1⟩, ⟨11, 4, 2⟩], [⟨11, 4, 1⟩], [13, 12]) := by decide +kernel
  obtain ⟨c, run, tick⟩ := Option.bind_eq_some_iff.mp ran
  obtain ⟨c', ticked, lists⟩ := Option.map_eq_some_iff.mp tick
  simp only [Prod.mk.injEq] at lists
  obtain ⟨before, after, freed⟩ := lists
  have runs := Clock.foldlM_runs (.none fun e mem => by cases mem) run
  obtain ⟨fits, trans, sleeping⟩ := Clock.perform_trans ticked
  have treated := (sleepers_on_time ⟨0, 0, 0, _, runs⟩).2.1 .timerTick c' trans
  have once := (sleepers_on_time ⟨0, 0, 0, _, runs.more fits trans sleeping⟩).2.2.1
  exact ⟨c, c', before, treated, after, freed, once⟩

end SoTp.Process
