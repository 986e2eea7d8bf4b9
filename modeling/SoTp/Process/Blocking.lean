/-
The ways in which the running process blocks itself: on a semaphore, in the sleep
list, or in the table of a process it waits for. Each records it in one slot, where
it was not recorded before since it was running.

* `Blocked.edits` — what the three have in common.
* `queue_blocked`, `sleep_blocked`, `table_blocked` — the three of them.
* `setState_blocked` — a failing allocation leaves a process blocked and recorded
  nowhere; nothing else is lost.
-/

import SoTp.Process.Release

namespace SoTp.Process

open SoTp.Lib Kernel

/-- `k'` is `k` with the running process blocked and recorded in `slot`. -/
structure Blocked (slot : Slot) (k k' : Kernel) : Prop where
  ring : SameRing k k'
  states : ∀ q, k'.stateOf q = if q = k.currentPCB then .blocked else k.stateOf q
  added : (k'.entries slot).Perm (k.currentPCB :: k.entries slot)
  others : ∀ s, s ≠ slot → k'.entries s = k.entries s
  sems : ∀ s, slot ≠ .queue s → k'.semArray[s]? = k.semArray[s]?
  family : Family k'
  ids : Ids k'
  sleepList : ∃ cells, SleepList k' cells

section Block

variable {strict : Prop} {slot : Slot} {k k' : Kernel} {touched : Subject → Prop}

/-- A process that can run does not wait and is not dead. -/
theorem Awake.active {s : State} (h : Awake s) : ¬ Waiting s ∧ s ≠ .exited := by
  rcases h with rfl | rfl <;> simp [Waiting]

/-- The running process was recorded nowhere. -/
theorem Mid.current_unrecorded (m : Mid strict k) (current : Awake (k.stateOf k.currentPCB))
    (s : Slot) : k.currentPCB ∉ k.entries s :=
  m.records.unrecorded current.active.1 current.active.2 s

theorem Mid.current_lt (m : Mid strict k) : k.currentPCB < k.unused := by
  obtain ⟨_, _, _, ring, _⟩ := m.ring
  exact (ring.members _ m.current_allocated).1

/-- Blocking the running process, recorded or not. -/
theorem blocking_shifts (m : Mid strict k) (current : Awake (k.stateOf k.currentPCB))
    (busy : ¬ k.idle) (ring : SameRing k k')
    (states : ∀ q, k'.stateOf q = if q = k.currentPCB then .blocked else k.stateOf q)
    (sems : ∀ s, ¬ touched (.sem s) → k'.semArray[s]? = k.semArray[s]?)
    (kept : ∀ q, q ≠ k.currentPCB → ∀ slot, q ∈ k'.entries slot → q ∈ k.entries slot)
    (family : Family k') (records : Records strict k') (ids : Ids k') :
      Shifts strict touched k k' := by
  have moves : ∀ q, k'.stateOf q = k.stateOf q ∨ k.allocated q = true ∧ q ≠ k.idlePCB ∧
      k'.stateOf q ≠ .running ∧ k.stateOf q ≠ .exited ∧
        (k.stateOf q = .waitingForExit → k'.stateOf q = .exited) := fun q => by
    rw [states]
    split_ifs with e
    · subst e
      exact Or.inr ⟨m.current_allocated, m.current_ne_idle busy, by simp, current.active.2,
        fun w => absurd (Or.inr w) current.active.1⟩
    · exact Or.inl rfl
  refine ⟨ring, moves, fun q w => ?_, sems, kept, fun q ne _ _ =>
    Or.inl (by rw [states, if_neg ne]),
    fun q ne _ active => by rw [states, if_neg ne]; exact active.2,
    m.of_states ring (fun q => (moves q).imp id fun ⟨a, n, r, _⟩ => ⟨a, n, r⟩) family records ids⟩
  · by_cases e : q = k.currentPCB
    · exact Or.inr e
    · rw [states, if_neg e] at w
      exact Or.inl w

theorem Blocked.edits (b : Blocked slot k k') (m : Mid strict k)
    (current : Awake (k.stateOf k.currentPCB)) (busy : ¬ k.idle)
    (away : ∀ s, slot = .queue s → touched (.sem s)) : Edits strict touched k k' := by
  have other : ∀ q, q ≠ k.currentPCB → k'.stateOf q = k.stateOf q := fun q ne => by
    rw [b.states, if_neg ne]
  have records : Records strict k' := m.records.push (m.current_unrecorded current)
    (Nat.lt_of_lt_of_le m.current_lt b.ring.unused) b.ring.unused b.added b.others
    (by rw [b.states, if_pos rfl]) other b.sleepList
  have kept : ∀ q, q ≠ k.currentPCB → ∀ s, q ∈ k'.entries s → q ∈ k.entries s := by
    intro q ne s hq
    by_cases e : s = slot
    · subst e
      exact (List.mem_cons.mp (b.added.mem_iff.mp hq)).resolve_left ne
    · exact b.others s e ▸ hq
  exact ⟨blocking_shifts m current busy b.ring b.states (fun s h => b.sems s fun e => h (away s e))
    kept b.family records b.ids, fun c => c.push b.added b.others other⟩

end Block

/-! ### The three ways -/

section Ways

variable {strict : Prop} {k : Kernel}

theorem setState_waitersOf {p q : Nat} {s : State} :
    (k.setState p s).waitersOf q = k.waitersOf q := by
  rw [waitersOf, setState, setPCB_pcbs, waitersOf]
  split_ifs with e
  · rw [e]
  · rfl

theorem setState_parentProc {p q : Nat} {s : State} :
    ((k.setState p s).pcbs q).parentProc = (k.pcbs q).parentProc := by
  rw [setState, setPCB_pcbs]
  split_ifs with e
  · rw [e]
  · rfl

/-- A table is dropped when its owner exits; blocking the running process drops none. -/
theorem setState_blocked_entries (current : k.stateOf k.currentPCB ≠ .exited) (slot : Slot) :
    (k.setState k.currentPCB .blocked).entries slot = k.entries slot := by
  cases slot with
  | queue s => rfl
  | sleep => rfl
  | table r =>
      rw [entries_table, entries_table, setState_waitersOf, stateOf_setState]
      by_cases e : r = k.currentPCB
      · subst e
        simp [current]
      · rw [if_neg e]

/-- Blocked without a record, when the memory for one is not there. -/
theorem setState_blocked (m : Mid strict k) (current : Awake (k.stateOf k.currentPCB))
    (busy : ¬ k.idle) (touched : Subject → Prop) :
    Shifts strict touched k (k.setState k.currentPCB .blocked) := by
  have ring : SameRing k (k.setState k.currentPCB .blocked) := setPCB_sameRing rfl
  have entries := setState_blocked_entries current.active.2
  refine blocking_shifts m current busy ring (fun q => stateOf_setState) (fun _ _ => rfl)
    (fun q _ slot hq => entries slot ▸ hq)
    (m.family_congr ring rfl fun q => setState_parentProc) ?_ (m.ids.congr rfl rfl)
  refine m.records.shrink (Nat.le_refl _) (fun slot => by rw [entries]) (fun slot q hq => ?_) ?_
  · rw [entries] at hq
    have ne : q ≠ k.currentPCB := fun e => m.current_unrecorded current slot (e ▸ hq)
    rw [stateOf_setState_ne ne]
    exact m.records.waits slot q hq
  · obtain ⟨cells, l⟩ := m.records.sleepList
    exact ⟨cells, l.congr rfl (Nat.le_refl _) rfl⟩

theorem updateSem_queue {semId s p : Nat} {sem : Semaphore}
    (found : k.semArray[semId]? = some sem) :
    (k.updateSem semId fun sem => { sem with queue := sem.queue.push p }).queueOf s =
      if s = semId then k.queueOf s ++ [p] else k.queueOf s := by
  unfold queueOf
  rw [updateSem_getElem?]
  split_ifs with e
  · rw [e, found]
    simp
  · rfl

/-- Queued on a semaphore. -/
theorem queue_blocked {semId : Nat} (m : Mid strict k) (current : Awake (k.stateOf k.currentPCB))
    {sem : Semaphore} (found : k.semArray[semId]? = some sem) (live : sem.destroyed = false) :
    Blocked (.queue semId) k
      ((k.fifoQueue semId k.currentPCB true).setState k.currentPCB .blocked) := by
  have queue : ∀ s, (k.fifoQueue semId k.currentPCB true).queueOf s =
      if s = semId then k.queueOf s ++ [k.currentPCB] else k.queueOf s :=
    fun s => updateSem_queue found
  have sems : ∀ s, s ≠ semId →
      (k.fifoQueue semId k.currentPCB true).semArray[s]? = k.semArray[s]? := fun s ne => by
    rw [fifoQueue, if_pos rfl, updateSem_getElem?, if_neg ne]
  have here : (k.fifoQueue semId k.currentPCB true).semArray[semId]? =
      some { sem with queue := sem.queue.push k.currentPCB } := by
    rw [fifoQueue, if_pos rfl, updateSem_getElem?, if_pos rfl, found]
    rfl
  have entries : ∀ slot, ((k.fifoQueue semId k.currentPCB true).setState k.currentPCB
      .blocked).entries slot = (k.fifoQueue semId k.currentPCB true).entries slot :=
    setState_blocked_entries (k := k.fifoQueue semId k.currentPCB true) current.active.2
  have ring : SameRing k ((k.fifoQueue semId k.currentPCB true).setState k.currentPCB .blocked) :=
    SameRing.trans sems_sameRing (setPCB_sameRing rfl)
  refine ⟨ring, fun q => stateOf_setState, ?_, fun slot ne => ?_, fun s ne =>
    sems s fun e => ne (by rw [e]),
    m.family_congr ring rfl fun q => setState_parentProc, ⟨fun s sem' hs gone => ?_, fun s hs => ?_,
      m.ids.nodup⟩, ?_⟩
  · rw [entries, entries_queue, queue, if_pos rfl]
    exact List.perm_append_singleton _ _
  · rw [entries]
    cases slot with
    | queue s => exact (queue s).trans (if_neg fun e => ne (by rw [e]))
    | sleep => exact sleepers_congr rfl rfl rfl
    | table r => rfl
  · by_cases e : s = semId
    · subst e
      replace hs := here.symm.trans hs
      cases hs
      rw [live] at gone
      cases gone
    · exact m.ids.closed s sem' ((sems s e).symm.trans hs) gone
  · obtain ⟨sem', hs', gone⟩ := m.ids.freed s hs
    have ne : s ≠ semId := by
      rintro rfl
      rw [found] at hs'
      cases hs'
      rw [live] at gone
      cases gone
    exact ⟨sem', (sems s ne).trans hs', gone⟩
  · obtain ⟨cells, l⟩ := m.records.sleepList
    exact ⟨cells, l.congr rfl (Nat.le_refl _) rfl⟩

/-- The kernel with a new first node in the sleep list. -/
def withSleeper (k : Kernel) (ticks : Nat) : Kernel :=
  { k with
    unused := k.unused + 1
    sleepNodes := Function.update k.sleepNodes k.unused ⟨ticks, k.currentPCB, k.first⟩
    first := k.unused }

/-- The new node is the first of the list. -/
theorem SleepList.slept {cells : List Nat} (l : SleepList k cells) (pos : 0 < k.unused)
    (ticks : Nat) : SleepList (withSleeper k ticks) (k.unused :: cells) := by
  have fresh : k.unused ∉ cells := fun mem => Nat.lt_irrefl _ (l.used _ mem).2
  have next : (withSleeper k ticks).sleepNext = Function.update k.sleepNext k.unused k.first := by
    funext a
    simp only [sleepNext, withSleeper, Function.update_apply]
    split_ifs <;> rfl
  refine ⟨⟨rfl, ?_⟩, List.nodup_cons.mpr ⟨fresh, l.nodup⟩, fun c hc => ?_⟩
  · rw [next, Function.update_self]
    exact (segment_update fresh).mpr l.segment
  · rcases List.mem_cons.mp hc with rfl | hc
    · exact ⟨pos, Nat.lt_succ_self _⟩
    · exact ⟨(l.used c hc).1, Nat.lt_succ_of_lt (l.used c hc).2⟩

/-- In the sleep list. -/
theorem sleep_blocked (m : Mid strict k) (current : Awake (k.stateOf k.currentPCB)) (ticks : Nat) :
    Blocked .sleep k ((withSleeper k ticks).setState k.currentPCB .blocked) := by
  obtain ⟨cells, l⟩ := m.records.sleepList
  have fresh : k.unused ∉ cells := fun mem => Nat.lt_irrefl _ (l.used _ mem).2
  have pcb : (withSleeper k ticks).sleepPCB = Function.update k.sleepPCB k.unused k.currentPCB := by
    funext a
    simp only [sleepPCB, withSleeper, Function.update_apply]
    split_ifs <;> rfl
  have list := l.slept (Nat.lt_of_le_of_lt (Nat.zero_le _) m.current_lt) ticks
  have sleepers : (withSleeper k ticks).sleepers = k.currentPCB :: k.sleepers := by
    rw [list.sleepers, l.sleepers, List.map_cons, pcb, Function.update_self]
    congr 1
    exact List.map_congr_left fun c hc => Function.update_of_ne (ne_of_mem_of_not_mem hc fresh) _ _
  have entries : ∀ slot, ((withSleeper k ticks).setState k.currentPCB .blocked).entries slot =
      (withSleeper k ticks).entries slot :=
    setState_blocked_entries (k := withSleeper k ticks) current.active.2
  have ring : SameRing k ((withSleeper k ticks).setState k.currentPCB .blocked) :=
    SameRing.trans (show SameRing k (withSleeper k ticks) from
        ⟨rfl, rfl, rfl, rfl, rfl, Nat.le_succ _, fun _ => rfl⟩)
      (setPCB_sameRing rfl)
  refine ⟨ring, fun q => stateOf_setState, ?_, fun slot ne => ?_, fun _ _ => rfl,
    m.family_congr ring rfl fun q => setState_parentProc, m.ids.congr rfl rfl,
    ⟨_, list.congr rfl (Nat.le_refl _) rfl⟩⟩
  · rw [entries, entries_sleep, sleepers]
    exact List.Perm.refl _
  · rw [entries]
    cases slot with
    | queue s => rfl
    | sleep => exact absurd rfl ne
    | table r => rfl

/-- What `recordWaiter` does, when it does not run into the rest of the PCB. -/
theorem recordWaiter_ok {pcb waiter : Nat} {k' : Kernel}
    (run : k.recordWaiter pcb waiter = .ok k') :
    ∃ f : PCB → PCB, k' = k.setPCB pcb f ∧ ∀ p, (f p).pid = p.pid ∧ (f p).state = p.state ∧
      (f p).waitingForMe = p.waitingForMe ++ [waiter] ∧
      ((f p).parentProc = p.parentProc ∨ (f p).parentProc = waiter) := by
  unfold recordWaiter at run
  simp only [] at run
  split_ifs at run
  · cases run
    exact ⟨_, rfl, fun _ => ⟨rfl, rfl, rfl, Or.inl rfl⟩⟩
  · cases run
    exact ⟨_, rfl, fun _ => ⟨rfl, rfl, rfl, Or.inr rfl⟩⟩

/-- The fields of a PCB that `recordWaiter` does not write to. -/
theorem recordWaiter_pcbs {pcb waiter : Nat} {k' : Kernel}
    (run : k.recordWaiter pcb waiter = .ok k') (q : Nat) : k'.pcbs q = { k.pcbs q with
      waitingForMe := (k'.pcbs q).waitingForMe, parentProc := (k'.pcbs q).parentProc } := by
  unfold recordWaiter at run
  simp only [] at run
  split_ifs at run <;> cases run
  all_goals
    rw [setPCB_pcbs]
    split_ifs with e
    · rw [e]
    · rfl

/-- In the table of another process. -/
theorem table_blocked {pcb fg : Nat} {k₁ : Kernel} (m : Mid strict k)
    (current : Awake (k.stateOf k.currentPCB)) (busy : ¬ k.idle) (alive : k.stateOf pcb ≠ .exited)
    (other : pcb ≠ k.currentPCB) (foreground : fg ≠ k.idlePCB)
    (run : k.recordWaiter pcb k.currentPCB = .ok k₁) :
    Blocked (.table pcb) k
      { k₁.setState k.currentPCB .blocked with processInForeground := fg } := by
  obtain ⟨f, rfl, f_spec⟩ := recordWaiter_ok run
  have pcbs : ∀ q, (k.setPCB pcb f).pcbs q = if q = pcb then f (k.pcbs pcb) else k.pcbs q :=
    fun q => setPCB_pcbs
  have state : (k.setPCB pcb f).stateOf = k.stateOf := by
    funext q
    rw [stateOf, pcbs, stateOf]
    split_ifs with e
    · rw [(f_spec _).2.1, e]
    · rfl
  have ring : SameRing k { (k.setPCB pcb f).setState k.currentPCB .blocked with
      processInForeground := fg } :=
    SameRing.trans (show SameRing k ((k.setPCB pcb f).setState k.currentPCB .blocked) from
        SameRing.trans (setPCB_sameRing (f_spec _).1) (setPCB_sameRing rfl))
      ⟨rfl, rfl, rfl, rfl, rfl, Nat.le_refl _, fun _ => rfl⟩
  have states : ∀ q, ((k.setPCB pcb f).setState k.currentPCB .blocked).stateOf q =
      if q = k.currentPCB then .blocked else k.stateOf q := fun q => by
    rw [stateOf_setState, state]
  have waiters : ∀ r, ((k.setPCB pcb f).setState k.currentPCB .blocked).waitersOf r =
      if r = pcb then k.waitersOf r ++ [k.currentPCB] else k.waitersOf r := fun r => by
    rw [setState_waitersOf, waitersOf, pcbs]
    split_ifs with e
    · rw [(f_spec _).2.2.1, e]
      rfl
    · rfl
  have table : ∀ r, ((k.setPCB pcb f).setState k.currentPCB .blocked).entries (.table r) =
      if r = pcb then k.entries (.table r) ++ [k.currentPCB] else k.entries (.table r) :=
        fun r => by
    rw [entries_table, entries_table, states, waiters]
    by_cases e : r = pcb
    · subst e
      simp [other, alive]
    · by_cases e' : r = k.currentPCB
      · subst e'
        simp [e, current.active.2]
      · simp [e, e']
  refine ⟨ring, states, ?_, fun slot ne => ?_, fun _ _ => rfl, ⟨?_, fun q => ?_⟩,
    m.ids.congr rfl rfl, ?_⟩
  · refine List.Perm.trans (List.Perm.of_eq ((table pcb).trans (if_pos rfl))) ?_
    exact List.perm_append_singleton _ _
  · cases slot with
    | queue s => rfl
    | sleep => rfl
    | table r => exact (table r).trans (if_neg fun e => ne (by rw [e]))
  · rw [ring.idlePCB]
    exact foreground
  · rw [ring.idlePCB]
    refine ne_of_eq_of_ne (setState_parentProc (k := k.setPCB pcb f)) ?_
    rw [pcbs]
    split_ifs
    · rcases (f_spec (k.pcbs pcb)).2.2.2 with e | e <;> rw [e]
      · exact m.family.parents pcb
      · exact m.current_ne_idle busy
    · exact m.family.parents q
  · obtain ⟨cells, l⟩ := m.records.sleepList
    exact ⟨cells, l.congr rfl (Nat.le_refl _) rfl⟩

end Ways

end SoTp.Process
