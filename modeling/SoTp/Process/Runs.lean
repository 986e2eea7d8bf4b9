/-
Runs of the kernel. The effects of an operation keep the invariant, boot sets it
up, and so it holds in every state that is reached.

* `boot_inv`, `Effect.inv`, `Reach.inv` — the invariant.
* `Effect.complete`, `Reach.complete` — no waiting process is lost, as long as there
  is memory for the records.
* `Effect.moves`, `Effect.waits`, `Effect.members`, `Effect.kept`, `Effect.spared` —
  what an operation does to the processes and semaphores it is not about.
* `Effect.selected` — an operation ends as a selection does, or selects nobody.
-/

import SoTp.Process.Operations

namespace SoTp.Process

open SoTp.Lib Kernel

/-! ### A new process -/

section Create

variable {strict : Prop} {k : Kernel} {rsp : Nat} {garbage : Int}

theorem added_pcbs {q : Nat} : (added k rsp garbage).pcbs q =
    if q = k.unused + 1 then newPCB k rsp garbage else k.pcbs q := by
  rw [added_rest]
  exact Function.update_apply _ _ _ _

theorem added_stateOf {q : Nat} : (added k rsp garbage).stateOf q =
    if q = k.unused + 1 then .ready else k.stateOf q := by
  rw [stateOf, added_pcbs]
  split_ifs <;> rfl

theorem added_allocated {q : Nat} : (added k rsp garbage).allocated q =
    if q = k.unused + 1 then true else k.allocated q := by
  rw [added_rest]
  exact Function.update_apply _ _ _ _

/-- The memory of the new process was nobody's. -/
theorem Mid.fresh (m : Mid strict k) {n : Nat} (ge : k.unused ≤ n) :
    k.allocated n = false ∧ k.stateOf n = .exited := by
  obtain ⟨_, _, _, ring, _⟩ := m.ring
  have free : k.allocated n = false := by
    by_contra held
    have := (ring.members n (by simpa using held)).1
    omega
  exact ⟨free, m.sched.freed n free⟩

theorem Mid.ne_fresh (m : Mid strict k) {p n : Nat} (held : k.allocated p = true)
    (ge : k.unused ≤ n) : p ≠ n := by
  rintro rfl
  rw [(m.fresh ge).1] at held
  cases held

theorem added_views (rsp : Nat) (garbage : Int) (m : Mid strict k) :
    (added k rsp garbage).idlePCB = k.idlePCB ∧ (added k rsp garbage).currentPCB = k.currentPCB ∧
      ((added k rsp garbage).idle ↔ k.idle) := by
  obtain ⟨_, cursor, _, ring, here⟩ := m.ring
  obtain ⟨-, pcbOf, list⟩ := added_eq ring.head_ne rsp garbage
  have idleNode : (added k rsp garbage).idleProcPCBNode = k.idleProcPCBNode := by rw [added_rest]
  have current : (added k rsp garbage).pcbList.current = k.pcbList.current := by rw [list]
  have known : k.pcbList.current ≠ k.unused := by
    rcases here with e | e
    · have := (ring.used _ ring.cursor_mem).2.1
      omega
    · have := ring.idleNode.2
      rw [show k.pcbList.current = k.idleProcPCBNode from e]
      omega
  refine ⟨?_, ?_, ?_⟩
  · rw [idlePCB, idleNode, pcbOf, Function.update_of_ne ring.idleNode.2.ne]
    rfl
  · rw [currentPCB, current, pcbOf, Function.update_of_ne known]
    rfl
  · rw [Kernel.idle, current, idleNode, Kernel.idle]

theorem added_entries (rsp : Nat) (garbage : Int) (m : Mid strict k) :
    (added k rsp garbage).entries = k.entries := by
  obtain ⟨cells, l⟩ := m.records.sleepList
  have nodes : (added k rsp garbage).sleepNodes = k.sleepNodes := by rw [added_rest]
  have first : (added k rsp garbage).first = k.first := by rw [added_rest]
  have unused : (added k rsp garbage).unused = k.unused + 2 := by rw [added_rest]
  funext slot
  cases slot with
  | queue s => exact queueOf_congr (by rw [added_rest])
  | sleep =>
      have pcb : (added k rsp garbage).sleepPCB = k.sleepPCB := by
        funext a
        rw [sleepPCB, nodes, sleepPCB]
      rw [entries_sleep, entries_sleep, (l.congr nodes (by omega) first).sleepers, l.sleepers, pcb]
  | table r =>
      rw [entries_table, entries_table, added_stateOf, waitersOf, added_pcbs]
      by_cases e : r = k.unused + 1
      · -- The table of the new process is empty, and what was there before has no owner.
        have dead : k.stateOf r = .exited := (m.fresh (by omega)).2
        simp [e ▸ dead, e, newPCB]
      · rw [if_neg e, if_neg e]
        rfl

theorem added_inv (i : Inv strict k) (busy : ¬ k.idle) (bound : k.pid < IDLE_PID) :
    Inv strict (added k rsp garbage) := by
  have m := i.toMid
  obtain ⟨idle, current, asleep⟩ := added_views rsp garbage m
  have entries := added_entries rsp garbage m
  have old : ∀ p, k.allocated p = true → (added k rsp garbage).stateOf p = k.stateOf p :=
    fun p held => by rw [added_stateOf, if_neg (m.ne_fresh held (by omega))]
  refine ⟨⟨?_, ⟨?_, fun p free => ?_, fun p run => ?_⟩, ⟨?_, fun p => ?_⟩, ?_, ?_⟩, ?_⟩
  · obtain ⟨before, cursor, after, ring, here⟩ := m.ring
    refine ⟨_, _, _, ring.added bound rsp garbage, here.imp (fun e => ?_) asleep.mpr⟩
    rw [(added_eq ring.head_ne rsp garbage).2.2]
    exact e
  · rw [idle, old _ m.idle_allocated]
    exact m.sched.idle
  · rw [added_allocated] at free
    split_ifs at free with e
    rw [added_stateOf, if_neg e]
    exact m.sched.freed p free
  · rw [added_stateOf] at run
    split_ifs at run
    rw [current]
    exact m.sched.running p run
  · rw [idle, added_rest]
    exact m.family.foreground
  · rw [idle, added_pcbs]
    split_ifs
    · exact m.current_ne_idle busy
    · exact m.family.parents p
  · refine m.records.shrink ?_ (fun slot => by rw [entries]) (fun slot p hp => ?_) ?_
    · rw [added_rest]
      exact Nat.le_add_right _ _
    · rw [entries] at hp
      rw [added_stateOf, if_neg (by have := m.records.used slot p hp; omega)]
      exact m.records.waits slot p hp
    · obtain ⟨cells, l⟩ := m.records.sleepList
      refine ⟨cells, l.congr ?_ ?_ ?_⟩ <;> rw [added_rest]
      exact Nat.le_add_right _ _
  · rw [added_rest]
    exact m.ids.congr rfl rfl
  · rw [current, old _ m.current_allocated]
    exact i.current

/-- A pid that was used up by a creation that failed. -/
theorem RingAt.counter_succ {before after : List Nat} {cursor : Nat}
    (r : RingAt k before cursor after)
    (bound : k.pid < IDLE_PID) : RingAt { k with pid := k.pid + 1 } before cursor after :=
  { r with
    used := fun n hn => by
      obtain ⟨pos, lt, pid, held⟩ := r.used n hn
      exact ⟨pos, lt, Nat.lt_succ_of_lt pid, held⟩
    counter := bound }

theorem counter_inv (i : Inv strict k) (bound : k.pid < IDLE_PID) :
    Inv strict { k with pid := k.pid + 1 } := by
  have m := i.toMid
  obtain ⟨before, cursor, after, ring, here⟩ := m.ring
  obtain ⟨cells, l⟩ := m.records.sleepList
  refine ⟨⟨⟨before, cursor, after, ring.counter_succ bound, here⟩,
    ⟨m.sched.idle, m.sched.freed, m.sched.running⟩, ⟨m.family.foreground, m.family.parents⟩, ?_,
    m.ids.congr rfl rfl⟩, i.current⟩
  · exact m.records.shrink (Nat.le_refl _) (fun slot => List.Sublist.refl _)
      (fun slot p hp => m.records.waits slot p hp) ⟨cells, l.congr rfl (Nat.le_refl _) rfl⟩

end Create

/-! ### The invariant -/

section Invariant

variable {strict : Prop} {k k' : Kernel} {op : Op}

theorem Effect.inv (i : Inv strict k) (e : Effect strict k op k') : Inv strict k' := by
  cases e with
  | stays _ edits here => exact ⟨edits.mid, by rw [edits.ring.currentPCB, here]; exact i.current⟩
  | switches shifts _ switched => exact shifts.mid.switched switched
  | ticks switched edits calm =>
      have j := i.toMid.switched switched
      exact ⟨edits.mid, by rw [edits.ring.currentPCB, calm.here j.current]; exact j.current⟩
  | creates _ busy bound rsp garbage => exact added_inv i busy bound
  | fails _ bound => exact counter_inv i bound

theorem Effect.complete (i : Inv strict k) (e : Effect strict k op k') (recorded : op.Recorded)
    (c : Complete k) : Complete k' := by
  cases e with
  | stays _ edits _ => exact edits.complete c
  | switches _ complete switched => exact switched.selects.complete (complete recorded c)
  | ticks switched edits _ => exact edits.complete (switched.selects.complete c)
  | creates _ busy bound rsp garbage =>
      intro q _ waiting
      rw [added_entries _ _ i.toMid]
      rw [added_stateOf] at waiting
      split_ifs at waiting
      · simp [Waiting] at waiting
      · exact c q not_false waiting
  | fails _ bound => exact fun q _ waiting => c q not_false waiting

end Invariant

/-! ### Processes and semaphores -/

/-- What an operation does to processes, and to semaphores not in `touched`. -/
structure Moves (touched : Subject → Prop) (k k' : Kernel) : Prop where
  unused : k.unused ≤ k'.unused
  counter : k.pid ≤ k'.pid
  pids : ∀ p, p < k.unused → k'.pidOf p = k.pidOf p
  born : ∀ p, k'.allocated p = true →
    k.allocated p = true ∨ (k.unused ≤ p ∧ p < k'.unused) ∧ k.pid ≤ k'.pidOf p
  dead : ∀ p, p < k.unused → k.stateOf p = .exited → k'.stateOf p = .exited
  killed : ∀ p, p < k.unused → k.stateOf p = .waitingForExit →
    k'.stateOf p = .waitingForExit ∨ k'.stateOf p = .exited
  sems : ∀ s, ¬ touched (.sem s) → k'.semArray[s]? = k.semArray[s]?

section Moves

variable {strict : Prop} {touched : Subject → Prop} {k j k' : Kernel} {op : Op}

theorem Moves.trans (h : Moves touched k j) (h' : Moves touched j k') : Moves touched k k' where
  unused := h.unused.trans h'.unused
  counter := h.counter.trans h'.counter
  pids p lt := (h'.pids p (Nat.lt_of_lt_of_le lt h.unused)).trans (h.pids p lt)
  born p held := by
    rcases h'.born p held with held | ⟨⟨ge, lt⟩, pid⟩
    · refine (h.born p held).imp id fun ⟨⟨ge, lt⟩, pid⟩ =>
        ⟨⟨ge, Nat.lt_of_lt_of_le lt h'.unused⟩, ?_⟩
      rwa [h'.pids p lt]
    · exact Or.inr ⟨⟨h.unused.trans ge, lt⟩, h.counter.trans pid⟩
  dead p lt e := h'.dead p (Nat.lt_of_lt_of_le lt h.unused) (h.dead p lt e)
  killed p lt e := by
    have lt' := Nat.lt_of_lt_of_le lt h.unused
    rcases h.killed p lt e with e | e
    · exact h'.killed p lt' e
    · exact Or.inr (h'.dead p lt' e)
  sems s t := (h'.sems s t).trans (h.sems s t)

theorem Switched.moves (s : Switched k k') : Moves touched k k' where
  unused := s.selects.unused.ge
  counter := s.selects.pid.ge
  pids p _ := s.selects.pidOf p
  born p held := by
    rcases s.selects.allocated p with e | ⟨free, -⟩
    · exact Or.inl (e ▸ held)
    · rw [free] at held
      cases held
  dead p _ e := (s.selects.exited_iff p).mpr e
  killed p _ e := Or.inl ((s.selects.waiting_eq (Or.inr e)).trans e)
  sems t _ := by rw [s.selects.semArray]

theorem Shifts.moves (s : Shifts strict touched k k') : Moves touched k k' where
  unused := s.ring.unused
  counter := s.ring.pid.ge
  pids p _ := s.ring.pids p
  born p held := Or.inl (s.ring.allocated ▸ held)
  dead p _ e := by
    rcases s.states p with same | ⟨-, -, -, alive, -⟩
    · exact same.trans e
    · exact absurd e alive
  killed p _ e := (s.states p).imp (fun same => same.trans e) fun ⟨_, _, _, _, dies⟩ => dies e
  sems := s.sems

/-- A new process leaves the others as they were. -/
theorem added_stateOf_old {rsp : Nat} {garbage : Int} {p : Nat} (lt : p < k.unused) :
    (added k rsp garbage).stateOf p = k.stateOf p := by
  rw [added_stateOf, if_neg (by omega)]

theorem Effect.moves (e : Effect strict k op k') : Moves (k.Touches op) k k' := by
  cases e with
  | stays _ edits _ => exact edits.moves
  | switches shifts _ switched => exact shifts.moves.trans switched.moves
  | ticks switched edits _ => exact switched.moves.trans edits.moves
  | creates _ busy bound rsp garbage =>
      have unused : (added k rsp garbage).unused = k.unused + 2 := by rw [added_rest]
      refine ⟨by omega, ?_, fun p lt => ?_, fun p held => ?_, fun p lt e =>
        (added_stateOf_old lt).trans e,
        fun p lt e => Or.inl ((added_stateOf_old lt).trans e), fun s _ => by rw [added_rest]⟩
      · rw [added_rest]
        change k.pid ≤ (k.pid + 1) % 2 ^ 32
        rw [Nat.mod_eq_of_lt (by unfold IDLE_PID at bound; omega)]
        omega
      · rw [pidOf, added_pcbs, if_neg (by omega), pidOf]
      · rw [added_allocated] at held
        split_ifs at held with e
        · refine Or.inr ⟨⟨by omega, by omega⟩, ?_⟩
          rw [pidOf, added_pcbs, if_pos e]
          exact Nat.le_refl _
        · exact Or.inl held
  | fails _ bound =>
      exact ⟨Nat.le_refl _, Nat.le_succ _, fun _ _ => rfl, fun _ held =>
        Or.inl held, fun _ _ e => e, fun _ _ e => Or.inl e, fun _ _ => rfl⟩

theorem Effect.idlePCB (i : Inv strict k) (e : Effect strict k op k') :
    k'.idlePCB = k.idlePCB := by
  cases e with
  | stays _ edits _ => exact edits.ring.idlePCB
  | switches shifts _ switched => rw [switched.selects.idlePCB, shifts.ring.idlePCB]
  | ticks switched edits _ => rw [edits.ring.idlePCB, switched.selects.idlePCB]
  | creates _ _ _ rsp garbage => exact (added_views rsp garbage i.toMid).1
  | fails _ _ => rfl

/-- Only the running process can begin to wait. -/
theorem Effect.waits (e : Effect strict k op k') {p : Nat}
    (w : Waiting (k'.stateOf p)) : Waiting (k.stateOf p) ∨ p = k.currentPCB := by
  cases e with
  | stays _ edits _ => exact edits.waits p w
  | switches shifts _ switched => exact shifts.waits p ((switched.selects.waiting_iff p).mp w)
  | ticks switched edits calm =>
      refine Or.inl ((switched.selects.waiting_iff p).mp ?_)
      by_contra active
      rw [calm p active] at w
      exact active w
  | creates _ busy bound rsp garbage =>
      rw [added_stateOf] at w
      split_ifs at w
      · simp [Waiting] at w
      · exact Or.inl w
  | fails _ bound => exact Or.inl w

/-- Who waits away from what the operation is about still waits, was killed, or has
exited. -/
theorem Effect.members (i : Inv strict k) (e : Effect strict k op k') {p : Nat}
    (w : Waiting (k.stateOf p)) (away : Away (k.Touches op) k p) :
    k'.stateOf p = k.stateOf p ∨ k.stateOf p = .blocked ∧ k'.stateOf p = .waitingForExit ∨
      k'.stateOf p = .exited := by
  have other : p ≠ k.currentPCB := fun e => i.current.active.1 (e ▸ w)
  cases e with
  | stays _ edits _ => exact edits.members p other w away
  | switches shifts _ switched =>
      rcases shifts.members p other w away with same | ⟨b, killed⟩ | dead
      · exact Or.inl ((switched.selects.waiting_eq (same ▸ w)).trans same)
      · exact Or.inr (Or.inl ⟨b, (switched.selects.waiting_eq (Or.inr killed)).trans killed⟩)
      · exact Or.inr (Or.inr ((switched.selects.exited_iff p).mpr dead))
  | ticks switched edits _ =>
      have same := switched.selects.waiting_eq w
      have j := i.toMid.switched switched
      have h := edits.members p (fun e => j.current.active.1 (e ▸ same ▸ w)) (same ▸ w)
        fun slot hp => away slot (switched.selects.entries ▸ hp)
      rwa [same] at h
  | creates _ busy bound rsp garbage =>
      refine Or.inl (added_stateOf_old ?_)
      by_contra ge
      rw [(i.fresh (n := p) (by omega)).2] at w
      simp [Waiting] at w
  | fails _ bound => exact Or.inl rfl

/-- Only the running process gets recorded. -/
theorem Effect.kept (i : Inv strict k) (e : Effect strict k op k') {p : Nat}
    (other : p ≠ k.currentPCB) {slot : Slot} (hp : p ∈ k'.entries slot) : p ∈ k.entries slot := by
  cases e with
  | stays _ edits _ => exact edits.kept p other slot hp
  | switches shifts _ switched => exact shifts.kept p other slot (switched.selects.entries ▸ hp)
  | ticks switched edits calm =>
      have j := i.toMid.switched switched
      have here : Awake (k'.stateOf k'.currentPCB) := by
        rw [edits.ring.currentPCB, calm.here j.current]
        exact j.current
      have ne : p ≠ k'.currentPCB := fun e => edits.mid.current_unrecorded here slot (e ▸ hp)
      exact switched.selects.entries ▸ edits.kept p (edits.ring.currentPCB ▸ ne) slot hp
  | creates _ busy bound rsp garbage => exact added_entries _ _ i.toMid ▸ hp
  | fails _ bound => exact hp

/-- Who does not wait and is not the target of a kill does not exit. -/
theorem Effect.spared (e : Effect strict k op k') {p : Nat}
    (other : p ≠ k.currentPCB) (about : ¬ k.Touches op (.proc p)) (active : Active (k.stateOf p)) :
    Active (k'.stateOf p) := by
  refine ⟨fun w => (e.waits w).elim active.1 other, fun dead => ?_⟩
  cases e with
  | stays _ edits _ => exact edits.spared p other about active dead
  | switches shifts _ switched =>
      exact shifts.spared p other about active ((switched.selects.exited_iff p).mp dead)
  | ticks switched edits calm =>
      have alive := mt (switched.selects.exited_iff p).mp active.2
      have quiet := mt (switched.selects.waiting_iff p).mp active.1
      exact alive ((calm p quiet).symm.trans dead)
  | creates _ busy bound rsp garbage =>
      rw [added_stateOf] at dead
      split_ifs at dead
      exact active.2 dead
  | fails _ bound => exact active.2 dead

/-- The same process goes on, and nobody else runs who did not. -/
structure Stays (k k' : Kernel) : Prop where
  current : k'.currentPCB = k.currentPCB
  idle : k'.idle ↔ k.idle
  running : ∀ p, k'.stateOf p = .running ↔ k.stateOf p = .running

theorem Stays.selected (h : Stays k k') (s : Selected k) : Selected k' := by
  simpa only [Selected, h.current, h.idle, h.running, ne_eq] using s

theorem Edits.stays (e : Edits strict touched k k') (running : ∀ p, k.stateOf p = .running →
    p = k.currentPCB) (here : k'.stateOf k.currentPCB = k.stateOf k.currentPCB) : Stays k k' where
  current := e.ring.currentPCB
  idle := e.ring.idle
  running p := by
    constructor
    · intro run
      rcases e.states p with same | ⟨-, -, quiet, -⟩
      · exact same ▸ run
      · exact absurd run quiet
    · intro run
      obtain rfl := running p run
      exact here.trans run

/-- An operation ends as a selection does, or nobody was selected. -/
theorem Effect.selected (i : Inv strict k) (e : Effect strict k op k') :
    Selected k' ∨ ¬ k.Switches op ∧ Stays k k' := by
  cases e with
  | stays quiet edits here => exact Or.inr ⟨quiet, edits.stays i.sched.running here⟩
  | switches _ _ switched => exact Or.inl switched.selected
  | ticks switched edits calm =>
      have j := i.toMid.switched switched
      exact Or.inl ((edits.stays j.sched.running (calm.here j.current)).selected switched.selected)
  | creates quiet busy bound rsp garbage =>
      obtain ⟨-, current, asleep⟩ := added_views rsp garbage i.toMid
      refine Or.inr ⟨quiet, current, asleep, fun p => ?_⟩
      rw [added_stateOf]
      split_ifs with e
      · simp [e, (i.fresh (n := k.unused + 1) (by omega)).2]
      · rfl
  | fails quiet bound => exact Or.inr ⟨quiet, rfl, Iff.rfl, fun _ => Iff.rfl⟩

end Moves

/-! ### Boot -/

section Boot

variable (idleRsp initRsp : Nat) (garbage : Int)

theorem boot_pcbs (p : Nat) : (boot idleRsp initRsp garbage).pcbs p =
    if p = 4 then ⟨0, 1, .ready, initRsp, garbage, [], NULL, false⟩
    else if p = 2 then ⟨IDLE_PID, 1, .ready, idleRsp, 0, [], blank.currentPCB, false⟩
    else blank.pcbs p := by
  change Function.update (Function.update (Function.update blank.pcbs 2 _) 4 _) 4 _ p = _
  simp only [Function.update_apply]
  split_ifs <;> rfl

theorem boot_allocated (p : Nat) : (boot idleRsp initRsp garbage).allocated p =
    if p = 4 then true else if p = 2 then true else false := by
  change Function.update (Function.update (fun _ => false) 2 true) 4 true p = _
  simp only [Function.update_apply]

theorem boot_stateOf (p : Nat) : (boot idleRsp initRsp garbage).stateOf p =
    if p = 4 ∨ p = 2 then .ready else .exited := by
  rw [stateOf, boot_pcbs]
  split_ifs <;> first | rfl | omega

/-- After boot, the ring is `init` alone. -/
theorem boot_ring : RingAt (boot idleRsp initRsp garbage) [] 3 [] where
  cycle := ⟨rfl, rfl⟩
  head := rfl
  tail := rfl
  prev := rfl
  len := rfl
  pids := List.pairwise_singleton _ _
  used n hn := by
    obtain rfl := List.mem_singleton.mp hn
    exact ⟨Nat.succ_pos _, (by decide : 3 < 5), (by decide : 0 < 1), rfl⟩
  members p held := by
    rw [boot_allocated] at held
    split_ifs at held with e e'
    · exact e ▸ ⟨(by decide : 4 < 5), by decide, Or.inr ⟨3, by simp, rfl⟩⟩
    · exact e' ▸ ⟨(by decide : 2 < 5), by decide, Or.inl rfl⟩
  counter := (by decide : 1 ≤ IDLE_PID)
  idlePid := rfl
  idleNode := (by decide : 0 < 1 ∧ 1 < 5)
  idleAllocated := rfl

theorem boot_inv (strict : Prop) : Inv strict (boot idleRsp initRsp garbage) := by
  have entries : ∀ slot, (boot idleRsp initRsp garbage).entries slot = [] := fun slot => by
    cases slot with
    | queue s => rfl
    | sleep => rfl
    | table r =>
        rw [entries_table, waitersOf, boot_pcbs]
        split_ifs <;> rfl
  refine ⟨⟨⟨[], 3, [], boot_ring _ _ _, Or.inl rfl⟩, ⟨?_, fun p free => ?_, fun p run => ?_⟩,
    ⟨(by decide : 4 ≠ 2), fun p => ?_⟩, ⟨fun slot p hp => ?_, fun slot => ?_, fun a b p hp => ?_,
      fun slot p hp => ?_,
      ⟨[], rfl, List.nodup_nil, by simp⟩⟩,
        ⟨fun s sem hs => ?_, fun s hs => ?_, List.nodup_nil⟩⟩, ?_⟩
  · exact boot_stateOf _ _ _ 2
  · rw [boot_allocated] at free
    rw [boot_stateOf]
    split_ifs at free ⊢ <;> first | rfl | omega
  · rw [boot_stateOf] at run
    split_ifs at run
  · have null : ((boot idleRsp initRsp garbage).pcbs p).parentProc = NULL := by
      rw [boot_pcbs]
      split_ifs <;> rfl
    rw [null]
    exact (by decide : NULL ≠ 2)
  · rw [entries] at hp
    cases hp
  · rw [entries]
    exact List.nodup_nil
  · rw [entries] at hp
    cases hp
  · rw [entries] at hp
    cases hp
  · cases hs
  · cases hs
  · exact Or.inl (boot_stateOf _ _ _ 4)

theorem boot_complete : Complete (boot idleRsp initRsp garbage) := fun q _ w => by
  rw [boot_stateOf] at w
  split_ifs at w <;> simp [Waiting] at w

end Boot

/-! ### Every state that is reached -/

section Reached

variable {strict : Prop} {admits : Kernel → Op → Prop} {k k' : Kernel} {op : Op}

theorem Reach.inv (reach : Reach admits k) (first : strict → ∀ k op, admits k op → k.FirstKill op) :
    Inv strict k :=
  reach.induct (fun _ _ _ => boot_inv _ _ _ strict) fun _ _ _ _ i ok trans =>
    (effect_of_trans i (fun s => first s _ _ ok) trans).inv i

theorem Reach.sound (reach : Reach admits k) : Inv False k := reach.inv fun f => f.elim

theorem Reach.complete (reach : Reach admits k) (recorded : ∀ k op, admits k op → op.Recorded) :
    Complete k := by
  have both : Inv False k ∧ Complete k :=
    reach.induct (P := fun k => Inv False k ∧ Complete k)
      (fun _ _ _ => ⟨boot_inv _ _ _ False, boot_complete _ _ _⟩) fun _ _ _ _ ih ok trans => by
      have e := trans.effect ih.1
      exact ⟨e.inv ih.1, e.complete ih.1 (recorded _ _ ok) ih.2⟩
  exact both.2

end Reached

end SoTp.Process
