/-
What one operation can do, said once: it edits the kernel and the running process
goes on, or it edits the kernel and switches, or it switches and then counts the
timer down, or it creates a process.

* `effect_of_trans` — every operation has one of these effects.
* `Effect.inv` — every effect keeps the invariant.
-/

import SoTp.Process.Blocking
import SoTp.Process.Search
import SoTp.Process.Ticks
import SoTp.Process.Wakeups

namespace SoTp.Process

open SoTp.Lib Kernel

/-- The operation has memory for the record of the process it blocks. -/
def Op.Recorded : Op → Prop
  | .waitSemaphore _ node => node = true
  | _ => True

instance (op : Op) : Decidable op.Recorded :=
  match op with
  | .waitSemaphore _ node => inferInstanceAs (Decidable (node = true))
  | .createProcess .. | .exit _ | .kill _ | .waitPid _ | .sleep .. | .semInit _ | .postSemaphore _
  | .destroySemaphore _ | .blockByUser _ | .unblock _ | .changePriority .. | .yield | .timerTick
  | .reschedule | .ctrlC | .userCode .. => .isTrue trivial

namespace Kernel

/-- What an operation is about: its semaphore, or the process it is to kill. -/
def Touches (k : Kernel) : Op → Subject → Prop
  | .semInit _, .sem s => ¬ k.Live s
  | .waitSemaphore semId _, .sem s => s = semId
  | .postSemaphore semId, .sem s => s = semId
  | .destroySemaphore semId, .sem s => s = semId
  | .exit _, .proc p => p = k.currentPCB
  | .kill pid, .proc p => pid ≠ 0 ∧ k.pidOf p = pid
  | .ctrlC, .proc p => k.foregroundPid ≠ 0 ∧ p = k.processInForeground
  | _, _ => False

/-- Ctrl+C does not find a process that was killed before. -/
def FirstKill (k : Kernel) : Op → Prop
  | .ctrlC => k.foregroundPid ≠ 0 → k.stateOf k.processInForeground ≠ .waitingForExit
  | _ => True

instance (k : Kernel) (op : Op) : Decidable (k.FirstKill op) :=
  match op with
  | .ctrlC => inferInstanceAs (Decidable (k.foregroundPid ≠ 0 → _ ≠ State.waitingForExit))
  | .createProcess .. | .exit _ | .kill _ | .waitPid _ | .sleep .. | .semInit _ | .waitSemaphore ..
  | .postSemaphore _ | .destroySemaphore _ | .blockByUser _ | .unblock _ | .changePriority ..
  | .yield | .timerTick | .reschedule | .userCode .. => .isTrue trivial

/-- The table of a living process is full, and so is `parentProc` behind it. -/
def Overfull (k : Kernel) (pcb : Nat) : Prop :=
  k.allocated pcb = true ∧ k.stateOf pcb ≠ .exited ∧ 10 < (k.waitersOf pcb).length

instance (k : Kernel) (pcb : Nat) : Decidable (k.Overfull pcb) :=
  inferInstanceAs (Decidable (_ ∧ _ ∧ _))

/-- The operation has a defined result, and Ctrl+C does not find a process that was killed
before: a new process gets its stack and a sleeper its node, the table that `waitPid`
writes to has an entry left or `parentProc` behind it, and what Ctrl+C finds in the
foreground is a PCB in memory. -/
def Orderly (k : Kernel) : Op → Prop
  | .createProcess mem _ _ => mem.stack = true
  | .sleep initialTicks node => 0 < initialTicks → node = true
  | .waitPid pid =>
      pid ≠ k.pidOf k.currentPCB → ∀ pcb < k.unused, k.pidOf pcb = pid → ¬ k.Overfull pcb
  | .ctrlC => k.allocated k.processInForeground = true ∧ k.FirstKill .ctrlC
  | _ => True

instance (k : Kernel) (op : Op) : Decidable (k.Orderly op) :=
  match op with
  | .createProcess mem _ _ => inferInstanceAs (Decidable (mem.stack = true))
  | .sleep initialTicks node => inferInstanceAs (Decidable (0 < initialTicks → node = true))
  | .waitPid pid => inferInstanceAs (Decidable (pid ≠ k.pidOf k.currentPCB →
      ∀ pcb < k.unused, k.pidOf pcb = pid → ¬ k.Overfull pcb))
  | .ctrlC => inferInstanceAs (Decidable (_ = true ∧ k.FirstKill .ctrlC))
  | .exit _ | .kill _ | .semInit _ | .waitSemaphore .. | .postSemaphore _ | .destroySemaphore _
  | .blockByUser _ | .unblock _ | .changePriority .. | .yield | .timerTick | .reschedule
  | .userCode .. => .isTrue trivial

theorem Orderly.firstKill {k : Kernel} {op : Op} (ok : k.Orderly op) : k.FirstKill op := by
  cases op with
  | ctrlC => exact ok.2
  | _ => trivial

/-- The operation calls `contextSwitch`, whatever process it is about. The others
call it when the running process has just been killed or blocked. -/
def Switches (k : Kernel) : Op → Prop
  | .exit _ | .yield | .timerTick | .reschedule => True
  | .ctrlC => k.foregroundPid ≠ 0
  | .sleep initialTicks _ => 0 < initialTicks
  | .waitSemaphore semId _ => k.Live semId ∧ k.valueOf semId = 0
  | _ => False

end Kernel

/-- What an operation does. -/
inductive Effect (strict : Prop) (k : Kernel) (op : Op) : Kernel → Prop
  | stays {k' : Kernel} (quiet : ¬ k.Switches op) (edits : Edits strict (k.Touches op) k k')
      (here : k'.stateOf k.currentPCB = k.stateOf k.currentPCB) : Effect strict k op k'
  | switches {j k' : Kernel} (shifts : Shifts strict (k.Touches op) k j)
      (complete : op.Recorded → Complete k → Complete j) (switched : Switched j k') :
      Effect strict k op k'
  | ticks {j k' : Kernel} (switched : Switched k j) (edits : Edits strict (k.Touches op) j k')
      (calm : Calm j k') : Effect strict k op k'
  | creates (quiet : ¬ k.Switches op) (busy : ¬ k.idle) (bound : k.pid < IDLE_PID) (rsp : Nat)
      (garbage : Int) : Effect strict k op (added k rsp garbage)
  | fails (quiet : ¬ k.Switches op) (bound : k.pid < IDLE_PID) :
      Effect strict k op { k with pid := k.pid + 1 }

/-! ### Ends of operations -/

section Ends

variable {strict : Prop} {k k' j : Kernel} {op : Op}

/-- Steps that are about nothing fit every operation. -/
theorem Edits.anywhere (e : Edits strict (fun _ => False) k k') (touched : Subject → Prop) :
    Edits strict touched k k' := e.mono fun _ h => h.elim

theorem Edits.at_sem {semId : Nat} {touched : Subject → Prop}
    (e : Edits strict (· = .sem semId) k k')
    (about : touched (.sem semId)) : Edits strict touched k k' := e.mono fun _ h => h ▸ about

theorem Edits.at_proc {p : Nat} {touched : Subject → Prop} (e : Edits strict (· = .proc p) k k')
    (about : touched (.proc p)) : Edits strict touched k k' := e.mono fun _ h => h ▸ about

theorem Effect.of_switch {fuel : Nat} (e : Edits strict (k.Touches op) k j)
    (run : j.contextSwitch fuel = .ok k') : Effect strict k op k' :=
  .switches e.toShifts (fun _ => e.complete) (contextSwitch_of_ok e.mid.ring e.mid.sched run)

theorem Effect.of_finish {fuel : Nat} {out : Outcome} (quiet : ¬ k.Switches op)
    (e : Edits strict (k.Touches op) k out.kernel)
    (here : out.left = false → out.kernel.stateOf k.currentPCB = k.stateOf k.currentPCB)
    (run : finish fuel out = .ok k') : Effect strict k op k' := by
  unfold finish at run
  split_ifs at run with left
  · exact .of_switch e run
  · cases run
    exact .stays quiet e (here (by simpa using left))

theorem Effect.of_refl (quiet : ¬ k.Switches op) (m : Mid strict k) : Effect strict k op k :=
  .stays quiet (Edits.refl m) rfl

/-- The current process is not waiting, so whoever is calm leaves it alone. -/
theorem Calm.here (calm : Calm k k') (current : Awake (k.stateOf k.currentPCB)) :
    k'.stateOf k.currentPCB = k.stateOf k.currentPCB := calm _ current.active.1

end Ends

/-! ### Finding a process -/

section Search

variable {strict : Prop} {k : Kernel}

/-- A process that `getPCBByPid` finds is the one of that pid in the list. -/
theorem getPCBByPid_found {fuel pid pcb : Nat} (m : Mid strict k)
    (run : k.getPCBByPid fuel pid = .ok pcb) (some : pcb ≠ NULL) :
    k.allocated pcb = true ∧ pcb ≠ k.idlePCB ∧ k.pidOf pcb = pid := by
  obtain ⟨before, cursor, after, ring, -⟩ := m.ring
  obtain ⟨n, hn, rfl, e⟩ := ring.pidRing.mem_of_search run some
  exact ⟨(ring.used n hn).2.2.2, ring.pcbOf_ne_idle hn, e⟩

/-- The search finds every process of the list. -/
theorem getPCBByPid_finds {fuel p r : Nat} (m : Mid strict k) (held : k.allocated p = true)
    (ne : p ≠ k.idlePCB) (run : k.getPCBByPid fuel (k.pidOf p) = .ok r) : r = p := by
  obtain ⟨before, cursor, after, ring, -⟩ := m.ring
  obtain ⟨node, hnode, rfl⟩ := ((ring.members p held).2.2).resolve_left ne
  exact ring.pidRing.search_mem hnode run

end Search

/-! ### Exits and kills -/

section Kills

variable {strict : Prop} {k : Kernel} {p : Nat}

/-- The exit of any process that is not dead for good, as `exit`, `kill` and
Ctrl+C call for it. -/
theorem exit_edits {fuel : Nat} {exitCode : Int} {out : Outcome} (i : Inv strict k)
    (alive : k.stateOf p ≠ .exited) (ne : p ≠ k.idlePCB)
    (first : strict → k.stateOf p ≠ .waitingForExit)
    (run : exitProcessByPCB fuel p exitCode k = .ok out) :
    Edits strict (· = .proc p) k out.kernel ∧ (out.left = true ↔ p = k.currentPCB) ∧
      (p ≠ k.currentPCB → out.kernel.stateOf k.currentPCB = k.stateOf k.currentPCB) := by
  have m := i.toMid
  have allocated := m.allocated alive
  by_cases blocked : k.stateOf p = .blocked
  · have other : p ≠ k.currentPCB := fun e => i.current.active.1 (Or.inl (e ▸ blocked))
    obtain rfl : out = ⟨k.markWaitingForExit p, k.isCurrent p⟩ := by
      cases fuel with
      | zero => cases run
      | succ fuel =>
          rw [exitProcessByPCB, if_neg (by simp [allocated]), blocked] at run
          cases run
          rfl
    refine ⟨(markWaitingForExit_edits m blocked).anywhere _, m.isCurrent allocated, fun _ => ?_⟩
    rw [markWaitingForExit, stateOf, setPCB_pcbs, if_neg (Ne.symm other), stateOf]
  · obtain ⟨left, exits⟩ := exitProcessByPCB_spec (m.bystanders i.current) blocked alive run
    refine ⟨exits.edits m alive ne ?_, by rw [left, m.isCurrent allocated], fun other => ?_⟩
    · by_cases killed : k.stateOf p = .waitingForExit
      · exact Or.inr ⟨fun s => first s killed, killed⟩
      · exact Or.inl fun w => w.elim blocked killed
    · exact (exits.changes _ (Ne.symm other)).resolve_right fun moved =>
        i.current.active.1 moved.2.1.waiting

end Kills

/-! ### The operations -/

section Operations

variable {strict : Prop} {k k' : Kernel} {fuel : Nat}

theorem exit_effect {exitCode : Int} (i : Inv strict k) (busy : ¬ k.idle)
    (run : k.exitCurrentProcess fuel exitCode = .ok k') : Effect strict k (.exit exitCode) k' := by
  obtain ⟨out, exited, switch⟩ := bind_ok_iff.mp run
  obtain ⟨edits, -⟩ := exit_edits i i.current.active.2 (i.current_ne_idle busy)
    (fun _ w => i.current.active.1 (Or.inr w)) exited
  exact .of_switch (edits.at_proc rfl) switch

theorem kill_effect {pid : Nat} {r : Kernel × Bool} (i : Inv strict k)
    (run : k.kill fuel pid = .ok r) : Effect strict k (.kill pid) r.1 := by
  unfold kill at run
  split_ifs at run with init
  · cases run
    exact .of_refl id i.toMid
  · obtain ⟨pcb, search, run⟩ := bind_ok_iff.mp run
    split_ifs at run with dead
    · cases run
      exact .of_refl id i.toMid
    · push Not at dead
      obtain ⟨out, exited, run⟩ := bind_ok_iff.mp run
      obtain ⟨k₁, finished, run⟩ := bind_ok_iff.mp run
      cases run
      obtain ⟨-, ne, found⟩ := getPCBByPid_found i.toMid search dead.1
      obtain ⟨edits, left, here⟩ := exit_edits i dead.2.1 ne (fun _ => dead.2.2) exited
      refine .of_finish id (edits.at_proc ⟨init, found⟩) (fun stays => here fun e => ?_) finished
      rw [left.mpr e] at stays
      cases stays

theorem ctrlC_effect (i : Inv strict k)
    (first : strict → k.foregroundPid ≠ 0 → k.stateOf k.processInForeground ≠ .waitingForExit)
    (run : k.killCurrentProcessInForeground fuel = .ok k') : Effect strict k .ctrlC k' := by
  unfold killCurrentProcessInForeground at run
  split_ifs at run with init
  · cases run
    exact .of_refl (fun switches => switches init) i.toMid
  · obtain ⟨out, exited, switch⟩ := bind_ok_iff.mp run
    by_cases dead : k.stateOf k.processInForeground = .exited
    · obtain rfl : out = ⟨k, false⟩ := by
        cases fuel with
        | zero => cases exited
        | succ fuel =>
            rw [exitProcessByPCB, dead] at exited
            split_ifs at exited
            cases exited
            rfl
      exact .of_switch (Edits.refl i.toMid) switch
    · obtain ⟨edits, -⟩ := exit_edits i dead i.family.foreground (fun s => first s init) exited
      exact .of_switch (edits.at_proc ⟨init, rfl⟩) switch

theorem waitPid_effect {pid : Nat} (i : Inv strict k) (busy : ¬ k.idle)
    (run : k.waitPid fuel pid = .ok k') : Effect strict k (.waitPid pid) k' := by
  unfold waitPid at run
  split_ifs at run with self
  · cases run
    exact .of_refl id i.toMid
  · obtain ⟨pcb, search, run⟩ := bind_ok_iff.mp run
    split_ifs at run with dead
    · cases run
      exact .of_refl id i.toMid
    · push Not at dead
      obtain ⟨k₁, recorded, run⟩ := bind_ok_iff.mp run
      obtain ⟨-, ne, found⟩ := getPCBByPid_found i.toMid search dead.1
      have other : pcb ≠ k.currentPCB := fun e => self (by rw [← found, e])
      obtain ⟨fg, foreground, e⟩ : ∃ fg, fg ≠ k.idlePCB ∧
          (if (k₁.setState k₁.currentPCB .blocked).pidOf
              (k₁.setState k₁.currentPCB .blocked).currentPCB =
              (k₁.setState k₁.currentPCB .blocked).foregroundPid then
            { k₁.setState k₁.currentPCB .blocked with processInForeground := pcb }
          else k₁.setState k₁.currentPCB .blocked) =
            { k₁.setState k.currentPCB .blocked with processInForeground := fg } := by
        obtain ⟨f, rfl, -⟩ := recordWaiter_ok recorded
        split_ifs
        · exact ⟨pcb, ne, rfl⟩
        · exact ⟨_, i.family.foreground, rfl⟩
      simp only [e] at run
      have blocked := table_blocked i.toMid i.current busy dead.2 other foreground recorded
      exact .of_switch (blocked.edits i.toMid i.current busy fun _ e => by cases e) run

theorem sleep_effect {ticks : Nat} {node : Bool} (i : Inv strict k) (busy : ¬ k.idle)
    (run : k.sleep fuel ticks node = .ok k') : Effect strict k (.sleep ticks node) k' := by
  unfold Kernel.sleep at run
  split_ifs at run with pos
  · exact .of_switch ((sleep_blocked i.toMid i.current ticks).edits i.toMid i.current busy
      fun _ e => by cases e) run
  · cases run
    exact .of_refl pos i.toMid

theorem waitSemaphore_effect {semId : Nat} {node : Bool} {r : Kernel × Bool} (i : Inv strict k)
    (busy : ¬ k.idle) (run : k.waitSemaphore fuel semId node = .ok r) :
    Effect strict k (.waitSemaphore semId node) r.1 := by
  unfold waitSemaphore at run
  split at run
  · rename_i none
    cases run
    exact .of_refl (fun switches => by simp [Kernel.Switches, Live, none] at switches) i.toMid
  · rename_i sem found
    split_ifs at run with dead value
    · cases run
      exact .of_refl
        (fun switches => by simp [Kernel.Switches, Live, found, dead] at switches) i.toMid
    · cases run
      have quiet : ¬ k.Switches (.waitSemaphore semId node) := fun switches => by
        have zero := switches.2
        simp only [valueOf, found, Option.map_some, Option.getD_some] at zero
        omega
      exact .stays quiet
        ((setValue_edits semId (f := fun sem => { sem with value := sem.value - 1 }) i.toMid
        (fun _ => rfl) fun _ => rfl).1.at_sem rfl) rfl
    · obtain ⟨k₁, switch, run⟩ := bind_ok_iff.mp run
      cases run
      cases node with
      | true =>
          exact .of_switch
            ((queue_blocked i.toMid i.current found (by simpa using dead)).edits i.toMid
            i.current busy fun _ e => by cases e; rfl) switch
      | false =>
          have shifts :=
            setState_blocked i.toMid i.current busy (k.Touches (.waitSemaphore semId false))
          exact .switches shifts (fun recorded => by cases recorded)
            (contextSwitch_of_ok shifts.mid.ring shifts.mid.sched switch)

theorem postSemaphore_effect {semId : Nat} {r : Kernel × Bool} (i : Inv strict k)
    (run : k.postSemaphore fuel semId = .ok r) : Effect strict k (.postSemaphore semId) r.1 := by
  rcases postSemaphore_spec i run with ⟨-, e⟩ | ⟨-, posted⟩
  · rw [e]
    exact .of_refl id i.toMid
  · exact .stays id (posted.edits.at_sem rfl) (posted.calm.here i.current)

/-- The id that `semInit` gives is that of the new semaphore. -/
theorem semInit_found (i : Ids k) (initialValue : Nat) :
    (k.semInit initialValue).1.semArray[(k.semInit initialValue).2]? =
      some ⟨initialValue, false, Fifo.empty⟩ := by
  unfold semInit
  cases last : k.freedPositions.getLast? with
  | some semId =>
      obtain ⟨sem, found, -⟩ := i.freed semId (List.mem_of_getLast? last)
      exact List.getElem?_set_self (List.getElem?_eq_some_iff.mp found).1
  | none => simp

theorem semInit_fresh (i : Ids k) (initialValue : Nat) : ¬ k.Live (k.semInit initialValue).2 := by
  unfold semInit
  cases last : k.freedPositions.getLast? with
  | some semId =>
      obtain ⟨sem, found, gone⟩ := i.freed semId (List.mem_of_getLast? last)
      simp [Live, found, gone]
  | none => simp [Live]

/-- A new semaphore takes the place of a dead one or of none. -/
theorem semInit_edits (m : Mid strict k) (initialValue : Nat) :
    Edits strict (k.Touches (.semInit initialValue)) k (k.semInit initialValue).1 := by
  obtain ⟨semId, freed, sems, e, fresh, others, here, keep, nodup, away⟩ :
      ∃ semId freed sems,
        (k.semInit initialValue).1 = { k with freedPositions := freed, semArray := sems } ∧
        k.queueOf semId = [] ∧ (∀ s, s ≠ semId → sems[s]? = k.semArray[s]?) ∧
        sems[semId]? = some ⟨initialValue, false, Fifo.empty⟩ ∧
        (∀ s ∈ freed, s ∈ k.freedPositions ∧ s ≠ semId) ∧ freed.Nodup ∧ ¬ k.Live semId := by
    have new := semInit_found m.ids initialValue
    unfold semInit at new ⊢
    cases last : k.freedPositions.getLast? with
    | some semId =>
        obtain ⟨front, e⟩ := List.getLast?_eq_some_iff.mp last
        have nodup := m.ids.nodup
        rw [e, List.nodup_append] at nodup
        obtain ⟨sem, found, gone⟩ := m.ids.freed semId (by rw [e]; simp)
        rw [last] at new
        refine ⟨semId, _, _, rfl, ?_, fun s ne => List.getElem?_set_ne ne.symm, new, ?_, ?_,
          by simp [Live, found, gone]⟩
        · rw [queueOf_some found]
          exact m.ids.closed semId sem found gone
        · rw [e, List.dropLast_concat]
          exact fun s hs => ⟨List.mem_append_left _ hs, nodup.2.2 s hs semId (by simp)⟩
        · rw [e, List.dropLast_concat]
          exact nodup.1
    | none =>
        have beyond : k.semArray[k.semArray.length]? = none := List.getElem?_eq_none (Nat.le_refl _)
        rw [last] at new
        refine ⟨k.semArray.length, _, _, rfl, by rw [queueOf, beyond], fun s ne => ?_, new,
          fun s hs => ?_, m.ids.nodup, by simp [Live]⟩
        · rw [List.getElem?_append]
          split_ifs with lt
          · rfl
          · rw [List.getElem?_eq_none (l := k.semArray) (by omega)]
            exact List.getElem?_eq_none (by simp; omega)
        · rw [List.getLast?_eq_none_iff.mp last] at hs
          cases hs
  rw [e]
  have queues : ∀ s, { k with freedPositions := freed, semArray := sems }.queueOf s =
      k.queueOf s := by
    intro s
    by_cases same : s = semId
    · subst same
      rw [fresh, queueOf]
      simp only [here]
      rfl
    · exact queueOf_congr (others s same)
  have entries : { k with freedPositions := freed, semArray := sems }.entries = k.entries := by
    funext slot
    cases slot with
    | queue s => exact queues s
    | sleep => exact sleepers_congr rfl rfl rfl
    | table r => rfl
  have ring : SameRing k { k with freedPositions := freed, semArray := sems } :=
    ⟨rfl, rfl, rfl, rfl, rfl, Nat.le_refl _, fun _ => rfl⟩
  refine ⟨⟨ring, fun _ => Or.inl rfl, fun _ => Or.inl, fun s live => others s ?_,
    fun q _ slot hq => entries ▸ hq, fun _ _ _ _ => Or.inl rfl, fun _ _ _ active => active.2,
    m.of_states ring (fun _ => Or.inl rfl) (m.family_congr ring rfl fun _ => rfl)
      (m.records.shrink (Nat.le_refl _) (fun s => by rw [entries]) (fun s q hq => ?_) ?_)
      ⟨fun s sem hs gone => ?_, fun s hs => ?_, nodup⟩⟩, fun c q _ w => ?_⟩
  · rintro rfl
    exact live away
  · exact m.records.waits s q (entries ▸ hq)
  · obtain ⟨cells, l⟩ := m.records.sleepList
    exact ⟨cells, l.congr rfl (Nat.le_refl _) rfl⟩
  · by_cases same : s = semId
    · subst same
      rw [here] at hs
      cases hs
      cases gone
    · exact m.ids.closed s sem ((others s same).symm.trans hs) gone
  · obtain ⟨mem, ne⟩ := keep s hs
    obtain ⟨sem, found, gone⟩ := m.ids.freed s mem
    exact ⟨sem, (others s ne).trans found, gone⟩
  · rw [entries]
    exact c q not_false w

theorem blockByUser_effect {pid : Nat} {r : Kernel × Bool} (i : Inv strict k)
    (run : k.blockByUser fuel pid = .ok r) : Effect strict k (.blockByUser pid) r.1 := by
  obtain ⟨pcb, search, run⟩ := bind_ok_iff.mp run
  split_ifs at run with can
  · obtain ⟨k₁, finished, run⟩ := bind_ok_iff.mp run
    cases run
    obtain ⟨allocated, ne, -⟩ := getPCBByPid_found i.toMid search can.1
    have awake : Awake (k.stateOf pcb) := can.2
    have edits := setState_edits (s := .blockedByUser) i.toMid awake.active.1 awake.active.2 ne
      (Or.inr rfl)
    refine .of_finish id (edits.anywhere _) (fun stays => stateOf_setState_ne fun e => ?_) finished
    have left := (edits.mid.isCurrent (p := pcb) (edits.ring.allocated ▸ allocated)).mpr
      (edits.ring.currentPCB.trans e).symm
    rw [left] at stays
    cases stays
  · cases run
    exact .of_refl id i.toMid

theorem unblock_effect {pid : Nat} {r : Kernel × Bool} (i : Inv strict k)
    (run : k.unblock fuel pid = .ok r) : Effect strict k (.unblock pid) r.1 := by
  obtain ⟨pcb, search, run⟩ := bind_ok_iff.mp run
  split_ifs at run with can
  · cases run
    obtain ⟨-, ne, -⟩ := getPCBByPid_found i.toMid search can.1
    refine .stays id ((setState_edits i.toMid (by simp [can.2, Waiting]) (by simp [can.2]) ne
      (Or.inl rfl)).anywhere _) (stateOf_setState_ne fun e => ?_)
    have awake := i.current
    rw [e, can.2] at awake
    simp [Awake] at awake
  · cases run
    exact .of_refl id i.toMid

theorem changePriority_effect {pid priority : Nat} {r : Kernel × Bool} (i : Inv strict k)
    (run : k.changePriority fuel pid priority = .ok r) :
    Effect strict k (.changePriority pid priority) r.1 := by
  unfold changePriority at run
  split_ifs at run
  · cases run
    exact .of_refl id i.toMid
  · obtain ⟨pcb, search, run⟩ := bind_ok_iff.mp run
    split_ifs at run
    · cases run
      exact .of_refl id i.toMid
    · cases run
      have same : ∀ q, (k.setPCB pcb fun p => { p with priority }).pcbs q =
          { k.pcbs q with priority := ((k.setPCB pcb fun p => { p with priority }).pcbs q).priority } :=
        fun q => by
          rw [setPCB_pcbs]
          split_ifs with e
          · rw [e]
          · rfl
      have states : (k.setPCB pcb fun p => { p with priority }).stateOf = k.stateOf := by
        funext q
        rw [stateOf, same, stateOf]
      refine .stays id
        ((quiet_edits _ i.toMid (setPCB_sameRing rfl) states ?_ (fun q => by rw [same]) rfl rfl
        rfl rfl ?_).1.anywhere _) (by rw [states])
      · funext q
        rw [waitersOf, same, waitersOf]
      · obtain ⟨cells, l⟩ := i.records.sleepList
        exact ⟨cells, l.congr rfl (Nat.le_refl _) rfl⟩

theorem yield_effect (i : Inv strict k) (busy : ¬ k.idle) (run : k.yield fuel = .ok k') :
    Effect strict k .yield k' :=
  .of_switch ((setState_edits i.toMid i.current.active.1 i.current.active.2
    (i.current_ne_idle busy) (Or.inl rfl)).anywhere _) run

theorem timerTick_effect (i : Inv strict k) (run : k.timerTick fuel = .ok k') :
    Effect strict k .timerTick k' := by
  obtain ⟨j, switch, run⟩ := bind_ok_iff.mp run
  obtain ⟨out, ticked, run⟩ := bind_ok_iff.mp run
  have switched := contextSwitch_of_ok i.ring i.sched switch
  obtain ⟨left, edits, calm⟩ := incTicks_spec (i.toMid.switched switched) ticked
  rw [finish, left] at run
  cases run
  exact .ticks switched (edits.anywhere _) calm

theorem userCode_effect {rsp : Nat} {junk : Nat → Nat} (i : Inv strict k) :
    Effect strict k (.userCode rsp junk) { k with rsp := rsp, junk := junk } := by
  obtain ⟨cells, l⟩ := i.records.sleepList
  refine .stays id ((quiet_edits { k with rsp := rsp, junk := junk } i.toMid
    ⟨rfl, rfl, rfl, rfl, rfl, Nat.le_refl _, fun _ => rfl⟩ rfl rfl (fun _ => rfl) rfl rfl rfl rfl
    ⟨cells, l.congr rfl (Nat.le_refl _) rfl⟩).1.anywhere _) rfl

/-- Every operation has one of the effects. -/
theorem effect_of_trans {op : Op} (i : Inv strict k) (first : strict → k.FirstKill op)
    (trans : Trans k op k') : Effect strict k op k' := by
  obtain ⟨enabled, fuel, run⟩ := trans
  cases op with
  | createProcess mem rsp garbage =>
      obtain ⟨r, ran, rfl⟩ := map_ok_iff.mp run
      rcases createProcess_eq mem rsp garbage ran with e | e
      · rw [e]
        exact .creates id enabled.1 enabled.2 rsp garbage
      · have bound := enabled.2
        rw [e, Nat.mod_eq_of_lt (by unfold IDLE_PID at bound; omega)]
        exact .fails id bound
  | exit exitCode => exact exit_effect i enabled run
  | kill pid =>
      obtain ⟨r, ran, rfl⟩ := map_ok_iff.mp run
      exact kill_effect i ran
  | waitPid pid => exact waitPid_effect i enabled run
  | sleep ticks node => exact sleep_effect i enabled run
  | semInit initialValue =>
      cases run
      exact .stays id (semInit_edits i.toMid initialValue) (by unfold semInit; split <;> rfl)
  | waitSemaphore semId node =>
      obtain ⟨r, ran, rfl⟩ := map_ok_iff.mp run
      exact waitSemaphore_effect i enabled ran
  | postSemaphore semId =>
      obtain ⟨r, ran, rfl⟩ := map_ok_iff.mp run
      exact postSemaphore_effect i ran
  | destroySemaphore semId =>
      obtain ⟨r, ran, rfl⟩ := map_ok_iff.mp run
      obtain ⟨edits, calm⟩ := destroySemaphore_spec i ran
      exact .stays id (edits.at_sem rfl) (calm.here i.current)
  | blockByUser pid =>
      obtain ⟨r, ran, rfl⟩ := map_ok_iff.mp run
      exact blockByUser_effect i ran
  | unblock pid =>
      obtain ⟨r, ran, rfl⟩ := map_ok_iff.mp run
      exact unblock_effect i ran
  | changePriority pid newPriority =>
      obtain ⟨r, ran, rfl⟩ := map_ok_iff.mp run
      exact changePriority_effect i ran
  | yield => exact yield_effect i enabled run
  | timerTick => exact timerTick_effect i run
  | reschedule => exact .of_switch (Edits.refl i.toMid) run
  | ctrlC => exact ctrlC_effect i first run
  | userCode rsp junk =>
      cases run
      exact userCode_effect i

/-- What an operation does when nothing is known of Ctrl+C. -/
theorem Trans.effect {op : Op} (trans : Trans k op k') (i : Inv False k) : Effect False k op k' :=
  effect_of_trans i (fun f => f.elim) trans

end Operations

end SoTp.Process
