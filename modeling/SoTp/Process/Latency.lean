/-
How long a process waits for the scheduler. The processes ahead of one that is READY, or
EXITED and still to be reaped, are looked at before it; each of them is selected at most once
before its turn, for at most nine calls of `schedule`.

* `InLine.next` — what an operation does to those ahead of a process.
* `ready_selected_in_time` — a bound on the calls of `schedule` that pass over a READY process.
* `exited_reaped_in_time` — a bound on the selections before an EXITED process is reaped.
-/

import SoTp.Process.Lifecycle

namespace SoTp.Process

open SoTp.Lib Kernel

/-! ### Runs with their logs -/

/-- A run, operation by operation, with its log, that never leaves the states of `good`. -/
inductive RunWithin (good : Kernel → Prop) (k : Kernel) : List Event → Kernel → Prop
  | none (start : good k) : RunWithin good k [] k
  | more {j k' : Kernel} {op : Op} {log log' : List Event} (before : RunWithin good k log j)
      (logged : Logged j op log' k') (stays : good k') : RunWithin good k (log ++ log') k'

/-! ### Priorities -/

/-- Priorities and quantums are as `changePriority` and `schedule` set them. -/
structure Weighed (k : Kernel) : Prop where
  priorities : ∀ p, k.allocated p = true → 1 ≤ (k.pcbs p).priority ∧ (k.pcbs p).priority ≤ 9
  quantums : k.quantumsLeft ≤ 8

section Weights

variable {k j k' : Kernel} {fuel p : Nat} {op : Op} {log : List Event}

theorem Changes.priority {k₀ : Kernel} {f g : Nat → PCB} (changes : Changes k₀ op f g)
    (bounds : 1 ≤ (f p).priority ∧ (f p).priority ≤ 9) : 1 ≤ (g p).priority ∧
      (g p).priority ≤ 9 := by
  refine changes.kept (P := fun b => 1 ≤ b.priority ∧ b.priority ≤ 9) bounds ?_
  intro b c bounds change
  cases change <;> assumption

theorem Edited.weighed (edited : Edited k op j k') (weighed : Weighed j) : Weighed k' where
  priorities p held := edited.changes.priority (weighed.priorities p (edited.ring.allocated ▸ held))
  quantums := by
    rw [edited.quantumsLeft]
    exact weighed.quantums

theorem search_quantums {ogCurrent : Nat} {r : Kernel × Nat}
    (run : loop (selectRound ogCurrent) fuel k = .ok r) :
    r.1.quantumsLeft = k.quantumsLeft ∨
      r.1.quantumsLeft = (r.1.pcbs r.1.currentPCB).priority - 1 := by
  refine loop_inv (fun j => j.quantumsLeft = k.quantumsLeft)
    (fun r => r.1.quantumsLeft = k.quantumsLeft ∨
      r.1.quantumsLeft = ((r.1.pcbs r.1.currentPCB).priority : Int) - 1)
    ?_ ?_ rfl run
  · intro j j' same round
    unfold selectRound at round
    simp only [] at round
    split_ifs at round
    all_goals cases round
    · unfold freeCurrentProcess
      split_ifs <;> exact same
    · unfold nextPCB
      split_ifs <;> exact same
  · intro j r same round
    unfold selectRound at round
    simp only [] at round
    split_ifs at round
    all_goals cases round
    · exact Or.inr rfl
    · exact Or.inl same

/-- The quantums after a context switch are no more than before, or go by a priority. -/
theorem contextSwitch_quantums (run : k.contextSwitch fuel = .ok k') :
    k'.quantumsLeft ≤ k.quantumsLeft ∨ k'.quantumsLeft = (k'.pcbs k'.currentPCB).priority - 1 := by
  obtain ⟨⟨j, rsp⟩, scheduled, rest⟩ := bind_ok_iff.mp run
  cases rest
  unfold schedule at scheduled
  simp only [] at scheduled
  split_ifs at scheduled
  · cases scheduled
    exact Or.inl (Int.sub_le_self _ (by decide))
  · unfold select at scheduled
    refine (search_quantums scheduled).imp (fun same => le_of_eq (same.trans ?_)) id
    have next : ∀ j : Kernel, j.nextPCB.quantumsLeft = j.quantumsLeft := by
      intro j
      unfold nextPCB
      split_ifs <;> rfl
    simp only [next]
    split_ifs <;> first | rfl | rw [next]; rfl

theorem Switched.weighed (switched : Switched k k') (weighed : Weighed k)
    (run : k.contextSwitch fuel = .ok k') : Weighed k' := by
  have priorities : ∀ p, k'.allocated p = true → 1 ≤ (k'.pcbs p).priority ∧
      (k'.pcbs p).priority ≤ 9 := by
    intro p held
    rw [switched.selects.samePCB]
    refine weighed.priorities p ?_
    rcases switched.selects.allocated p with same | ⟨gone, -⟩
    · exact same ▸ held
    · rw [gone] at held
      cases held
  refine ⟨priorities, ?_⟩
  rcases contextSwitch_quantums run with less | weight
  · exact less.trans weighed.quantums
  · have held : k'.allocated k'.currentPCB = true := by
      by_contra gone
      exact switched.scheduled.current.active.2 (switched.scheduled.freed _ (by simpa using gone))
    have := priorities _ held
    omega

theorem Shape.weighed (shape : Shape k op log k') (i : Inv False k) (weighed : Weighed k) :
    Weighed k' := by
  cases shape with
  | edits edited => exact edited.weighed weighed
  | moves => exact ⟨weighed.priorities, weighed.quantums⟩
  | switches before run => exact (before.switched i run).weighed (before.weighed weighed) run
  | ticks named run after =>
      exact after.weighed ((contextSwitch_of_ok i.ring i.sched run).weighed weighed run)
  | creates mem rsp garbage =>
      refine ⟨fun p held => ?_, by rw [added_rest]; exact weighed.quantums⟩
      rw [added_allocated] at held
      rw [added_pcbs]
      split_ifs at held ⊢
      · exact ⟨Nat.le_refl 1, (by decide : 1 ≤ 9)⟩
      · exact weighed.priorities p held
  | fails => exact ⟨weighed.priorities, weighed.quantums⟩

theorem Reach.weighed {admits : Kernel → Op → Prop} (reach : Reach admits k) : Weighed k := by
  have both : Inv False k ∧ Weighed k := by
    refine reach.induct (P := fun k => Inv False k ∧ Weighed k) ?_ ?_
    · intro r₁ r₂ g
      refine ⟨boot_inv _ _ _ _, fun p held => ?_, (by decide : (0 : Int) ≤ 8)⟩
      rw [boot_allocated] at held
      rw [boot_pcbs]
      split_ifs at held ⊢ <;> exact ⟨Nat.le_refl 1, (by decide : 1 ≤ 9)⟩
    · intro k op k' _ ih _ trans
      obtain ⟨log, shape⟩ := trans.shape ih.1
      exact ⟨(trans.effect ih.1).inv ih.1, shape.weighed ih.1 ih.2⟩
  exact both.2

end Weights

/-! ### Those ahead -/

/-- The process is READY, or EXITED and still to be reaped. -/
def InWait (pcb : Nat) (k : Kernel) : Prop :=
  k.stateOf pcb = .ready ∨ k.stateOf pcb = .exited ∧ k.allocated pcb = true

/-- `front` is what `schedule` would look at before `pcb`. -/
def InLine (pcb : Nat) (front : List Nat) (k : Kernel) : Prop :=
  ∃ before cursor after node back, RingAt k before cursor after ∧
    (k.pcbList.current = cursor ∨ k.idle) ∧
    after ++ before ++ [cursor] = front ++ node :: back ∧ k.pcbOf node = pcb

/-- What a call of `schedule` does to those ahead of a process, with what it decides. -/
inductive Turned (pcb : Nat) (k : Kernel) (front : List Nat) (k' : Kernel) : List Event →
  List Nat → Prop
  | resumes {p : Nat} (some : 0 < k.quantumsLeft)
      (quantums : k'.quantumsLeft = k.quantumsLeft - 1) : Turned pcb k front k' [.resumes p] front
  | selects {n priority : Nat} {passed rest : List Nat} (order : front = passed ++ n :: rest)
      (quantums : k'.quantumsLeft = priority - 1) :
        Turned pcb k front k' [.selects (k.pcbOf n) priority] rest
  /-- Nobody is READY, and the search did not get past the process itself. -/
  | idles {front' : List Nat} (exited : k'.stateOf pcb = .exited) (kept : front'.Sublist front) :
      Turned pcb k front k' [.idles] front'

/-- What an operation does to those ahead of a process. -/
inductive Advances (pcb : Nat) (k : Kernel) (front : List Nat) (log : List Event) (k' : Kernel) :
    List Nat → Prop
  | stays (quiet : decisions log = []) (quantums : k'.quantumsLeft = k.quantumsLeft)
      (pid : k'.pid = k.pid) : Advances pcb k front log k' front
  | turns {front' : List Nat} (turned : Turned pcb k front k' (decisions log) front')
      (pid : k'.pid = k.pid) : Advances pcb k front log k' front'
  /-- A new process may come before this one. -/
  | joins {front' : List Nat} (quiet : decisions log = [])
      (quantums : k'.quantumsLeft = k.quantumsLeft)
      (pid : k'.pid = k.pid + 1) (kept : front' = front ∨ k.unused < k'.pcbOf k.unused ∧
        ∃ passed rest, front = passed ++ rest ∧ front' = passed ++ k.unused :: rest) :
          Advances pcb k front log k' front'

section Line

variable {k j k' : Kernel} {pcb fuel : Nat} {front : List Nat} {op : Op} {log : List Event}

theorem InLine.congr (line : InLine pcb front k) (same : SameRing k k') : InLine pcb front k' := by
  obtain ⟨before, cursor, after, node, back, ring, here, order, at_⟩ := line
  refine ⟨before, cursor, after, node, back, ring.congr same,
    here.imp (fun e => ?_) same.idle.mpr, order, (same.pcbOf node).trans at_⟩
  rw [same.pcbList]
  exact e

theorem InWait.ring (m : Mid False k) (waits : InWait pcb k) (user : pcb ≠ k.idlePCB) :
    ∃ front, InLine pcb front k ∧ front.length < k.pcbList.len := by
  obtain ⟨before, cursor, after, ring, here⟩ := m.ring
  have held : k.allocated pcb = true :=
    waits.elim (fun ready => m.allocated (by rw [ready]; decide)) fun e => e.2
  obtain ⟨node, mem, at_⟩ := (ring.members pcb held).2.2.resolve_left user
  have mem : node ∈ after ++ before ++ [cursor] := by
    simp only [List.mem_append, List.mem_cons] at mem ⊢
    tauto
  obtain ⟨front, back, e⟩ := List.append_of_mem mem
  refine ⟨front, ⟨before, cursor, after, node, back, ring, here, e, at_⟩, ?_⟩
  have lengths := congrArg List.length e
  simp only [List.length_append, List.length_cons] at lengths
  rw [ring.len]
  simp only [List.length_append, List.length_cons]
  simp only [List.length_nil] at lengths
  omega

theorem InWait.held (waits : InWait pcb k) (s : Schedulable k) : k.allocated pcb = true := by
  rcases waits with ready | ⟨-, held⟩
  · by_contra gone
    have dead := s.freed pcb (by simpa using gone)
    rw [ready] at dead
    cases dead
  · exact held

theorem preempted_exited (exited : k.stateOf pcb = .exited) :
    (preempted k).stateOf pcb = .exited := by
  obtain ⟨s, e, state⟩ := preempted_rescheduled k pcb
  rw [stateOf, e]
  refine (state.resolve_right fun awake => ?_).trans exited
  exact absurd exited awake.1.active.2

/-- The search reaps the EXITED processes it passes, and passes no READY one. -/
theorem Chooses.not_passed {start : Kernel} {scanned rest : List Nat} {n node : Nat}
    {decision : Event}
    (chooses : Chooses (preempted start) scanned n rest decision k')
    (waits : InWait (start.pcbOf node) start)
    (held : k'.allocated (start.pcbOf node) = true) : node ∉ scanned := by
  have same := preempted_sameRing start
  intro mem
  rcases waits with ready | ⟨exited, -⟩
  · refine chooses.quiet node mem ?_
    rw [same.pcbOf]
    exact preempted_ready ready
  · have reaped := ((chooses.allocated _).mp held).2
    refine reaped (List.mem_map.mpr ⟨node, List.mem_filter.mpr ⟨mem, ?_⟩, same.pcbOf node⟩)
    unfold exitedAt
    rw [same.pcbOf, preempted_exited exited]
    rfl

theorem decisions_searched {running : Nat} {nodes : List Nat} {decision : Event}
    (decides : decision.decides = true) :
    decisions (reaps running k nodes ++ [decision]) = [decision] := by
  rw [decisions_append, reaps_decisions, List.nil_append, decisions,
    List.filter_cons_of_pos decides, List.filter_nil]

/-- A context switch after which the process still waits. -/
theorem InLine.switch (line : InLine pcb front k) (switched : Switched k k')
    (run : k.contextSwitch fuel = .ok k') (waits : InWait pcb k) (still : InWait pcb k') :
    ∃ front', InLine pcb front' k' ∧
      Turned pcb k front k' (decisions (k.contextSwitchLog fuel)) front' := by
  obtain ⟨before, cursor, after, node, back, ring, here, order, at_⟩ := line
  have turn := contextSwitch_turn ring here run
  generalize k.contextSwitchLog fuel = log at turn ⊢
  cases turn with
  | resumes some running same quantums =>
      have line : InLine pcb front k := ⟨before, cursor, after, node, back, ring, here, order, at_⟩
      exact ⟨front, line.congr same, .resumes some quantums⟩
  | @searches scanned rest n decision spent view chooses =>
      have same := preempted_sameRing k
      have notPassed : node ∉ scanned :=
        chooses.not_passed (at_ ▸ waits) (at_ ▸ still.held switched.scheduled.toSchedulable)
      obtain ⟨before', cursor', after', ring', here', view'⟩ := chooses.ring
      have pcbOf : k'.pcbOf = k.pcbOf := switched.selects.pcbOf
      rcases chooses.decision with ⟨ready, current, quantums, rfl⟩ | ⟨asleep, rfl, idle, rfl⟩
      · have running : k'.stateOf (k.pcbOf n) = .running := by
          have mem : n ∈ before' ++ cursor' :: after' := by
            have mem : n ∈ after' ++ before' ++ [cursor'] := by
              rw [view']
              simp
            simp only [List.mem_append, List.mem_cons, List.not_mem_nil, or_false] at mem ⊢
            tauto
          have busy : ¬ k'.idle := fun idle => ring'.ne_idle mem (current.symm.trans idle)
          have running := (switched.selected.resolve_right fun idle => busy idle.1).2.1
          rwa [currentPCB, current, pcbOf] at running
        have other : node ≠ n := by
          rintro rfl
          rw [at_] at running
          rcases still with ready | ⟨exited, -⟩
          · rw [ready] at running
            cases running
          · rw [exited] at running
            cases running
        obtain ⟨between, rfl, rfl⟩ := split_behind (view.symm.trans order) notPassed other
        refine ⟨between, ⟨before', cursor', after', node, back ++ (preempted k).kept scanned ++ [n],
          ring', here', ?_, ?_⟩, ?_⟩
        · rw [view']
          simp
        · rw [pcbOf]
          exact at_
        · rw [decisions_searched rfl, same.pcbOf]
          rw [same.pcbOf] at quantums
          exact .selects rfl quantums
      · -- The last one the search looked at is the process itself.
        have last : node = n := by
          have mem : node ∈ scanned ++ [n] := by
            rw [← view, order]
            simp
          simpa [notPassed] using mem
        subst last
        have nodup : (after ++ before ++ [cursor]).Nodup :=
          (List.perm_append_singleton _ _).nodup_iff.mpr ring.view_nodup
        have split : front = scanned := by
          rw [view] at order nodup
          obtain rfl := (nodup_last nodup order).mp rfl
          exact (List.append_inj' order rfl).1.symm
        refine ⟨(preempted k).kept scanned,
          ⟨before', cursor', after', node, [], ring', here', ?_, ?_⟩, ?_⟩
        · rw [view']
          simp
        · rw [pcbOf]
          exact at_
        · rw [decisions_searched rfl]
          refine .idles (still.resolve_left fun ready => ?_).1
            (by rw [split]; exact List.filter_sublist)
          rcases waits with was | ⟨exited, -⟩
          · rw [same.pcbOf, at_] at asleep
            exact asleep (preempted_ready was)
          · have dead := (contextSwitch_states run pcb).resolve_right fun awake =>
              awake.1.active.2 exited
            rw [exited, ready] at dead
            cases dead

/-- A new process comes last in the list, wherever that is in the order. -/
theorem InLine.added (line : InLine pcb front k) (bound : k.pid < IDLE_PID) (rsp : Nat)
    (garbage : Int) : ∃ front', InLine pcb front' (added k rsp garbage) ∧
      (front' = front ∨ k.unused < (SoTp.Process.added k rsp garbage).pcbOf k.unused ∧
        ∃ passed rest, front = passed ++ rest ∧ front' = passed ++ k.unused :: rest) := by
  obtain ⟨before, cursor, after, node, back, ring, here, order, at_⟩ := line
  obtain ⟨-, pcbOf, list⟩ := added_eq ring.head_ne rsp garbage
  have idleNode : (SoTp.Process.added k rsp garbage).idleProcPCBNode = k.idleProcPCBNode := by
    rw [added_rest]
  have here' : (SoTp.Process.added k rsp garbage).pcbList.current = cursor ∨
      (SoTp.Process.added k rsp garbage).idle := by
    rw [Kernel.idle, idleNode, list]
    exact here
  have at' : (SoTp.Process.added k rsp garbage).pcbOf node = pcb := by
    have mem : node ∈ before ++ cursor :: after := by
      have mem : node ∈ after ++ before ++ [cursor] := by
        rw [order]
        simp
      simp only [List.mem_append, List.mem_cons, List.not_mem_nil, or_false] at mem ⊢
      tauto
    rw [pcbOf, Function.update_of_ne (ring.used node mem).2.1.ne]
    exact at_
  have placed : ∃ front' back', after ++ [k.unused] ++ before ++ [cursor] =
      front' ++ node :: back' ∧
      (front' = front ∨ ∃ passed rest, front = passed ++ rest ∧
        front' = passed ++ k.unused :: rest) := by
    rw [List.append_assoc] at order
    rcases List.append_eq_append_iff.mp order with ⟨more, rfl, e⟩ | ⟨more, rfl, e⟩
    · refine ⟨after ++ k.unused :: more, back, ?_, Or.inr ⟨after, more, rfl, rfl⟩⟩
      simp only [List.append_assoc, e, List.cons_append, List.nil_append]
    · cases more with
      | nil =>
          refine ⟨front ++ [k.unused], back, ?_, Or.inr ⟨front, [], (List.append_nil _).symm, rfl⟩⟩
          rw [List.nil_append] at e
          rw [List.append_nil, List.append_assoc, ← e]
      | cons n more =>
          obtain ⟨rfl, rfl⟩ := List.cons.inj e
          exact ⟨front, more ++ [k.unused] ++ before ++ [cursor], by simp, Or.inl rfl⟩
  obtain ⟨front', back', order', joined⟩ := placed
  refine ⟨front', ⟨before, cursor, after ++ [k.unused], node, back', ring.added bound rsp garbage,
    here', order', at'⟩, joined.imp id fun places => ⟨?_, places⟩⟩
  rw [pcbOf, Function.update_self]
  exact Nat.lt_succ_self _

/-- After the switch of a timer tick a process goes on as the switch left it. -/
theorem Edited.tick_running (edited : Edited k .timerTick j k')
    (running : j.stateOf pcb = .running) : k'.stateOf pcb = .running := by
  refine edited.changes.kept (P := fun b => b.state = .running) running ?_
  intro b c running change
  cases change with
  | wakes _ wait => exact absurd (running.symm.trans wait) (by decide)
  | kills wait => exact absurd (running.symm.trans wait) (by decide)
  | exits cause =>
      rcases cause with named | killed
      · exact named.1.elim
      · exact absurd (running.symm.trans killed) (by decide)
  | blocks _ _ named => exact named.elim
  | yields _ named => cases named
  | records => exact running
  | blocksByUser named => cases named
  | unblocks named => cases named
  | prioritises => exact running

/-- What comes before the call of `schedule` and after it in an operation is of no concern. -/
theorem Turned.frame {m : Kernel} {front' : List Nat} {decided : List Event}
    (turned : Turned pcb j front m decided front')
    (pcbOf : ∀ n, j.pcbOf n = k.pcbOf n) (same : j.quantumsLeft = k.quantumsLeft)
    (quantums : k'.quantumsLeft = m.quantumsLeft)
    (dead : m.stateOf pcb = .exited → k'.stateOf pcb = .exited) :
    Turned pcb k front k' decided front' := by
  cases turned with
  | resumes some less =>
      rw [same] at some less
      exact .resumes some (quantums.trans less)
  | selects order weight =>
      rw [pcbOf]
      exact .selects order (quantums.trans weight)
  | idles exited kept => exact .idles (dead exited) kept

/-- One operation, at both ends of which the process waits. -/
theorem InLine.next (line : InLine pcb front k) (i : Inv False k) (shape : Shape k op log k')
    (waits : InWait pcb k) (still : InWait pcb k') : ∃ front', InLine pcb front' k' ∧
      Advances pcb k front log k' front' := by
  have dead_elsewhere : k.stateOf pcb = .exited → pcb ≠ k.currentPCB := fun dead here =>
    i.current.active.2 (here ▸ dead)
  cases shape with
  | edits edited quiet =>
      exact ⟨front, line.congr edited.ring, .stays quiet edited.quantumsLeft edited.ring.pid⟩
  | moves _ _ _ quiet =>
      exact ⟨front, line.congr ⟨rfl, rfl, rfl, rfl, rfl, Nat.le_refl _, fun _ => rfl⟩,
        .stays quiet rfl rfl⟩
  | @switches fuel j _ before run turn =>
      have switched := before.switched i run
      have between : InWait pcb j := by
        rcases waits with ready | ⟨dead, held⟩
        · rcases contextSwitch_states run pcb with same | ⟨awake, awake'⟩
          · rcases still with ready' | ⟨dead', held'⟩
            · exact Or.inl (same.symm.trans ready')
            · refine Or.inr ⟨same.symm.trans dead', ?_⟩
              rcases switched.selects.allocated pcb with same | ⟨gone, -⟩
              · exact same ▸ held'
              · rw [gone] at held'
                cases held'
          · have other : (j.pcbs pcb).state ≠ .running := before.changes.not_running (by
              rw [show (k.pcbs pcb).state = .ready from ready]
              decide)
            exact Or.inl (awake.resolve_right other)
        · exact Or.inr ⟨before.changes.exited (dead_elsewhere dead) dead,
            before.ring.allocated ▸ held⟩
      obtain ⟨front', line', turned⟩ := (line.congr before.ring).switch switched run between still
      refine ⟨front', line', .turns ?_ (switched.selects.pid.trans before.ring.pid)⟩
      rw [turn]
      exact turned.frame before.ring.pcbOf before.quantumsLeft rfl fun dead => dead
  | @ticks fuel m _ named run after turn =>
      subst named
      have switched := contextSwitch_of_ok i.ring i.sched run
      have between : InWait pcb m := by
        rcases waits with ready | ⟨dead, -⟩
        · rcases contextSwitch_states run pcb with same | ⟨-, ready' | running⟩
          · exact Or.inl (same.trans ready)
          · exact Or.inl ready'
          · have goes_on := after.tick_running running
            rcases still with e | ⟨e, -⟩
            · rw [e] at goes_on
              cases goes_on
            · rw [e] at goes_on
              cases goes_on
        · have dead' := (contextSwitch_states run pcb).resolve_right fun awake =>
            awake.1.active.2 dead
          have gone := after.changes.exited (dead_elsewhere dead) (dead'.trans dead)
          have held := (still.resolve_left fun ready => by
            rw [stateOf, gone] at ready
            cases ready).2
          exact Or.inr ⟨dead'.trans dead, after.ring.allocated ▸ held⟩
      obtain ⟨front', line', turned⟩ := line.switch switched run waits between
      refine ⟨front', line'.congr after.ring, .turns ?_ (after.ring.pid.trans switched.selects.pid)⟩
      rw [turn]
      refine turned.frame (fun _ => rfl) rfl after.quantumsLeft fun dead => ?_
      have was : k.stateOf pcb = .exited := by
        refine ((contextSwitch_states run pcb).resolve_right fun awake => ?_).symm.trans dead
        exact awake.2.active.2 dead
      exact after.changes.exited (dead_elsewhere was) dead
  | creates mem rsp garbage named bound quiet =>
      obtain ⟨front', line', joined⟩ := line.added bound rsp garbage
      refine ⟨front', line', .joins quiet (by rw [added_rest]) ?_ joined⟩
      rw [added_rest]
      exact Nat.mod_eq_of_lt (by unfold IDLE_PID at bound; omega)
  | fails bound quiet =>
      obtain ⟨before, cursor, after, node, back, ring, here, order, at_⟩ := line
      exact ⟨front, ⟨before, cursor, after, node, back, ring.counter_succ bound, here, order, at_⟩,
        .joins quiet rfl rfl (Or.inl rfl)⟩

/-- A node of the list belongs to the same process afterwards. -/
theorem Shape.pcbOf (i : Inv False k) (shape : Shape k op log k') {n : Nat} (old : n < k.unused) :
    k'.pcbOf n = k.pcbOf n := by
  cases shape with
  | edits edited => exact edited.ring.pcbOf n
  | moves => rfl
  | switches before run =>
      rw [(before.switched i run).selects.pcbOf]
      exact before.ring.pcbOf n
  | ticks named run after =>
      rw [after.ring.pcbOf, (contextSwitch_of_ok i.ring i.sched run).selects.pcbOf]
  | creates mem rsp garbage =>
      obtain ⟨_, _, _, ring, -⟩ := i.ring
      obtain ⟨-, pcbOf, -⟩ := added_eq ring.head_ne rsp garbage
      rw [pcbOf, Function.update_of_ne old.ne]
  | fails => rfl

/-- Those ahead are different processes, and none of them is the one that waits. -/
theorem InLine.ahead (line : InLine pcb front k) : front.Nodup ∧
    (∀ m ∈ front, ∀ n ∈ front, k.pcbOf m = k.pcbOf n → m = n) ∧
    ∀ m ∈ front, m < k.unused ∧ k.pcbOf m < k.unused ∧ k.pcbOf m ≠ pcb := by
  obtain ⟨before, cursor, after, node, back, ring, -, order, at_⟩ := line
  have nodup : (front ++ node :: back).Nodup := by
    rw [← order]
    exact (List.perm_append_singleton _ _).nodup_iff.mpr ring.view_nodup
  have in_ring : ∀ m ∈ front ++ node :: back, m ∈ before ++ cursor :: after := by
    intro m mem
    rw [← order] at mem
    simp only [List.mem_append, List.mem_cons, List.not_mem_nil, or_false] at mem ⊢
    tauto
  have ahead : ∀ m ∈ front, m ∈ before ++ cursor :: after := fun m mem =>
    in_ring m (List.mem_append_left _ mem)
  refine ⟨(List.nodup_append.mp nodup).1, fun m hm n hn same => ?_, fun m mem => ⟨?_, ?_, ?_⟩⟩
  · exact ring.pid_inj (ahead m hm) (ahead n hn) (by rw [same])
  · exact (ring.used m (ahead m mem)).2.1
  · exact (ring.members _ (ring.used m (ahead m mem)).2.2.2).1
  · intro same
    have e : m = node := ring.pid_inj (ahead m mem) (in_ring node (by simp)) (by rw [same, at_])
    exact (List.nodup_append.mp nodup).2.2 m mem node List.mem_cons_self e

end Line

/-! ### Waiting -/

theorem selections_eq (log : List Event) :
    selections log = (decisions log).filterMap Event.selected := by
  unfold selections decisions
  rw [List.filterMap_filter]
  congr 1
  funext e
  cases e <;> rfl

/-- What is known of the selections since a process began to wait: none twice, and not of those
ahead. -/
structure Overtaken (pcb : Nat) (k₀ : Kernel) (log : List Event) (k : Kernel) : Prop where
  line : ∃ front, InLine pcb front k ∧ (∀ m ∈ front, k.pcbOf m ∉ selections log) ∧
    (selections log).length + front.length + k₀.pid < k₀.pcbList.len + k.pid
  known : ∀ q ∈ selections log, q < k.unused
  nodup : (selections log).Nodup
  other : pcb ∉ selections log

section Waiting

variable {k₀ k k' : Kernel} {pcb : Nat} {op : Op} {log log' : List Event}

theorem Overtaken.start (m : Mid False k) (waits : InWait pcb k) (user : pcb ≠ k.idlePCB) :
    Overtaken pcb k [] k := by
  obtain ⟨front, line, few⟩ := waits.ring m user
  have none : selections [] = [] := rfl
  refine ⟨⟨front, line, ?_, ?_⟩, ?_, ?_, ?_⟩
  all_goals
    rw [none]
    simp
  omega

/-- An operation during which nobody is selected. -/
theorem Overtaken.unselected {front front' : List Nat} (waited : Overtaken pcb k₀ log k)
    (line : InLine pcb front' k') (ahead : ∀ m ∈ front, k.pcbOf m ∉ selections log)
    (few : (selections log).length + front.length + k₀.pid < k₀.pcbList.len + k.pid)
    (none : selections log' = []) (unused : k.unused ≤ k'.unused) (sub : ∀ m ∈ front', m ∈ front)
    (length : front'.length ≤ front.length) (pid : k.pid ≤ k'.pid)
    (pcbOf : ∀ m ∈ front, k'.pcbOf m = k.pcbOf m) :
    Overtaken pcb k₀ (log ++ log') k' := by
  have same : selections (log ++ log') = selections log := by
    rw [selections_append, none, List.append_nil]
  refine ⟨⟨front', line, fun m mem => ?_, ?_⟩, fun q mem => ?_, same ▸ waited.nodup, same ▸
    waited.other⟩
  · rw [same, pcbOf m (sub m mem)]
    exact ahead m (sub m mem)
  · rw [same]
    omega
  · rw [same] at mem
    exact Nat.lt_of_lt_of_le (waited.known q mem) unused

theorem Overtaken.next (waited : Overtaken pcb k₀ log k) (i : Inv False k)
    (logged : Logged k op log' k')
    (waits : InWait pcb k) (still : InWait pcb k') : Overtaken pcb k₀ (log ++ log') k' := by
  obtain ⟨front, line, ahead, few⟩ := waited.line
  have shape := shape_of_exec i logged
  have unused := (logged.trans.effect i).moves.unused
  obtain ⟨nodup, inj, old⟩ := line.ahead
  have pcbOf : ∀ m ∈ front, k'.pcbOf m = k.pcbOf m := fun m mem => shape.pcbOf i (old m mem).1
  obtain ⟨front', line', advances⟩ := line.next i shape waits still
  cases advances with
  | stays quiet _ pid =>
      exact waited.unselected line' ahead few (by rw [selections_eq, quiet]; rfl) unused
        (fun m mem => mem) (Nat.le_refl _) pid.ge pcbOf
  | turns turned pid =>
      have chosen := selections_eq log'
      generalize decisions log' = decided at turned chosen
      cases turned with
      | resumes =>
          exact waited.unselected line' ahead few chosen unused (fun m mem => mem)
            (Nat.le_refl _) pid.ge pcbOf
      | idles _ kept =>
          exact waited.unselected line' ahead few chosen unused (fun m mem =>
            kept.subset mem) kept.length_le pid.ge pcbOf
      | @selects n priority passed _ order _ =>
          subst order
          have here : n ∈ passed ++ n :: front' := by simp
          have selected : selections (log ++ log') = selections log ++ [k.pcbOf n] := by
            rw [selections_append, chosen]
            rfl
          have fresh : k.pcbOf n ∉ selections log := ahead n here
          refine ⟨⟨front', line', fun m mem => ?_, ?_⟩, fun q mem => ?_, ?_, ?_⟩
          · have later : m ∈ passed ++ n :: front' := by simp [mem]
            rw [selected, pcbOf m later, List.mem_append, List.mem_singleton, not_or]
            refine ⟨ahead m later, fun twin => ?_⟩
            rw [inj m later n here twin] at mem
            have once := (List.nodup_append.mp nodup).2.1
            exact (List.nodup_cons.mp once).1 mem
          · rw [selected]
            simp only [List.length_append, List.length_cons, List.length_nil] at few ⊢
            omega
          · rw [selected, List.mem_append, List.mem_singleton] at mem
            rcases mem with mem | rfl
            · exact Nat.lt_of_lt_of_le (waited.known q mem) unused
            · exact Nat.lt_of_lt_of_le (old n here).2.1 unused
          · rw [selected]
            refine List.nodup_append.mpr ⟨waited.nodup, List.nodup_singleton _, ?_⟩
            intro q mem q' mem' twin
            exact fresh (List.mem_singleton.mp mem' ▸ twin ▸ mem)
          · rw [selected, List.mem_append, List.mem_singleton, not_or]
            exact ⟨waited.other, (old n here).2.2.symm⟩
  | joins quiet _ pid kept =>
      have none : selections log' = [] := by
        rw [selections_eq, quiet]
        rfl
      rcases kept with rfl | ⟨new, passed, rest, rfl, rfl⟩
      · exact waited.unselected line' ahead few none unused (fun m mem => mem) (Nat.le_refl _)
          (by omega) pcbOf
      · have same : selections (log ++ log') = selections log := by
          rw [selections_append, none, List.append_nil]
        refine ⟨⟨_, line', fun m mem => ?_, ?_⟩, fun q mem => ?_, same ▸ waited.nodup, same ▸
          waited.other⟩
        · rw [same]
          by_cases last : m = k.unused
          · intro selected
            have := waited.known _ (last ▸ selected)
            omega
          · have before : m ∈ passed ++ rest := by
              simp only [List.mem_append, List.mem_cons] at mem ⊢
              tauto
            rw [pcbOf m before]
            exact ahead m before
        · rw [same]
          simp only [List.length_append, List.length_cons] at few ⊢
          omega
        · rw [same] at mem
          exact Nat.lt_of_lt_of_le (waited.known q mem) unused

/-- The calls of `schedule` since then, and those that the running process may have left. -/
def Called (log : List Event) (k : Kernel) : Prop :=
  .idles ∉ log → (decisions log).length + k.quantumsLeft.toNat ≤ 8 + 9 * (selections log).length

theorem Called.next (called : Called log k) (waited : Overtaken pcb k₀ log k) (i : Inv False k)
    (weighed : Weighed k) (logged : Logged k op log' k') (waits : InWait pcb k)
    (still : InWait pcb k') :
    Called (log ++ log') k' := by
  obtain ⟨front, line, -, -⟩ := waited.line
  have shape := shape_of_exec i logged
  have weighed' := shape.weighed i weighed
  obtain ⟨front', -, advances⟩ := line.next i shape waits still
  intro busy
  rw [List.mem_append, not_or] at busy
  have before := called busy.1
  have idle : .idles ∉ decisions log' := fun mem => busy.2 (List.mem_of_mem_filter mem)
  have chosen := selections_eq log'
  rw [decisions_append, selections_append, List.length_append, List.length_append, chosen]
  cases advances with
  | stays quiet quantums _ =>
      rw [quiet, quantums]
      simpa using before
  | joins quiet quantums _ _ =>
      rw [quiet, quantums]
      simpa using before
  | turns turned _ =>
      have most := weighed'.quantums
      generalize decisions log' = decided at turned idle
      cases turned with
      | resumes some less =>
          simp only [List.length_singleton, List.filterMap_cons, Event.selected, List.filterMap_nil,
            List.length_nil]
          omega
      | selects order weight =>
          simp only [List.length_singleton, List.filterMap_cons, Event.selected, List.filterMap_nil]
          omega
      | idles => exact absurd List.mem_cons_self idle

/-- A run all through which the process waits. -/
theorem RunWithin.overtaken {good : Kernel → Prop} (run : RunWithin good k log k')
    (reach : Reach (fun _ _ => True) k)
    (waits : ∀ j, good j → InWait pcb j) (user : pcb ≠ k.idlePCB) :
    good k' ∧ Reach (fun _ _ => True) k' ∧ k.pid ≤ k'.pid ∧ Overtaken pcb k log k' ∧
      Called log k' := by
  induction run with
  | none start =>
      refine ⟨start, reach, Nat.le_refl _, .start reach.sound.toMid (waits _ start) user,
        fun _ => ?_⟩
      have most := reach.weighed.quantums
      rw [show decisions [] = [] from rfl, show selections [] = [] from rfl]
      simp only [List.length_nil]
      omega
  | more before logged stays ih =>
      obtain ⟨good, reached, pid, waited, called⟩ := ih
      have i := reached.sound
      exact ⟨stays, reached.step trivial logged.trans,
        pid.trans (logged.trans.effect i).moves.counter,
        waited.next i logged (waits _ good) (waits _ stays),
        called.next waited i reached.weighed logged (waits _ good) (waits _ stays)⟩

/-- No process starves. While a process is READY the processor is never idle, and at most nine
calls of `schedule` for each other process of the list, and each one created meanwhile, pass it
over; eight more are left to the one that runs when it becomes READY. -/
theorem ready_selected_in_time (reach : Reach (fun _ _ => True) k) (user : pcb ≠ k.idlePCB)
    (run : RunWithin (fun j => j.stateOf pcb = .ready) k log k') :
    .idles ∉ log ∧ (decisions log).length ≤ 8 + 9 * (k.pcbList.len - 1 + (k'.pid - k.pid)) := by
  have busy : .idles ∉ log := by
    induction run with
    | none => exact List.not_mem_nil
    | more before logged stays ih =>
        obtain ⟨ready, reached, -, waited, -⟩ :=
          before.overtaken reach (fun _ ready => Or.inl ready) user
        obtain ⟨front, line, -, -⟩ := waited.line
        have i := reached.sound
        obtain ⟨front', -, advances⟩ := line.next i (shape_of_exec i logged) (Or.inl ready)
          (Or.inl stays)
        rw [List.mem_append, not_or]
        refine ⟨ih, fun mem => ?_⟩
        have decided : Event.idles ∈ decisions _ := List.mem_filter.mpr ⟨mem, rfl⟩
        cases advances with
        | stays quiet =>
            rw [quiet] at decided
            cases decided
        | joins quiet =>
            rw [quiet] at decided
            cases decided
        | turns turned =>
            generalize decisions _ = d at turned decided
            cases turned with
            | resumes => simp at decided
            | selects => simp at decided
            | idles exited =>
                rw [stays] at exited
                cases exited
  obtain ⟨-, -, pid, waited, called⟩ := run.overtaken reach (fun _ ready => Or.inl ready) user
  obtain ⟨front, -, -, few⟩ := waited.line
  have calls := called busy
  refine ⟨busy, ?_⟩
  omega

/-- A process of priority 3 is passed over for another one, which then goes on. -/
theorem ready_selected_in_time_two :
    ∃ k log k', RunWithin (fun j => j.stateOf 8 = .ready) k log k' ∧
    decisions log = [.selects 6 3, .resumes 6] ∧ .idles ∉ log ∧
    (decisions log).length ≤ 8 + 9 * (k.pcbList.len - 1 + (k'.pid - k.pid)) := by
  have ran : (perform (fun _ _ => True) 40 [.createProcess ⟨true, true, true, true, true⟩ 0 0,
      .createProcess ⟨true, true, true, true, true⟩ 0 0, .changePriority 1 3] (boot 0 0 0)).map
      (fun k => decide (k.stateOf 8 = .ready ∧ 8 ≠ k.idlePCB ∧
        (k.exec 40 .timerTick).toOption.map (fun j => decide (j.stateOf 8 = .ready ∧
          (j.exec 40 .timerTick).toOption.map (fun k' => decide (k'.stateOf 8 = .ready ∧
            decisions ([] ++ k.execLog 40 .timerTick ++ j.execLog 40 .timerTick) =
              [.selects 6 3, .resumes 6])) =
              some true)) = some true)) = some true := by decide +kernel
  obtain ⟨k, run, state⟩ := Option.map_eq_some_iff.mp ran
  obtain ⟨ready, user, next⟩ := of_decide_eq_true state
  obtain ⟨j, first, state⟩ := Option.map_eq_some_iff.mp next
  obtain ⟨ready', next⟩ := of_decide_eq_true state
  obtain ⟨k', second, state⟩ := Option.map_eq_some_iff.mp next
  obtain ⟨ready'', decided⟩ := of_decide_eq_true state
  have tick : Logged k .timerTick (k.execLog 40 .timerTick) j :=
    ⟨trivial, 40, ok_of_toOption first, rfl⟩
  have tick' : Logged j .timerTick (j.execLog 40 .timerTick) k' :=
    ⟨trivial, 40, ok_of_toOption second, rfl⟩
  have one : RunWithin (fun j => j.stateOf 8 = .ready) k ([] ++ k.execLog 40 .timerTick) j :=
    .more (.none ready) tick ready'
  have ticks : RunWithin (fun j => j.stateOf 8 = .ready) k
      ([] ++ k.execLog 40 .timerTick ++ j.execLog 40 .timerTick) k' := .more one tick' ready''
  have bounds := ready_selected_in_time ⟨0, 0, 0, perform_run run⟩ user ticks
  exact ⟨k, _, k', ticks, decided, bounds.1, bounds.2⟩

/-- An EXITED process is reaped before any other one is selected twice; the selections are no more
than the other processes of the list and those created meanwhile, and the calls of `schedule` no
more than nine for each of them, as long as the processor is not idle. -/
theorem exited_reaped_in_time (reach : Reach (fun _ _ => True) k) (user : pcb ≠ k.idlePCB)
    (run : RunWithin (fun j => j.stateOf pcb = .exited ∧ j.allocated pcb = true) k log k') :
    pcb ∉ selections log ∧ (selections log).Nodup ∧
      (selections log).length ≤ k.pcbList.len - 1 + (k'.pid - k.pid) ∧
      (.idles ∉ log → (decisions log).length ≤ 8 + 9 * (k.pcbList.len - 1 + (k'.pid - k.pid))) := by
  obtain ⟨-, -, pid, waited, called⟩ := run.overtaken reach (fun _ dead => Or.inr dead) user
  obtain ⟨front, -, -, few⟩ := waited.line
  refine ⟨waited.other, waited.nodup, by omega, fun busy => ?_⟩
  have calls := called busy
  omega

/-- The second process exits, and `init` is selected before it is reaped. -/
theorem exited_reaped_in_time_one : ∃ k log k',
    RunWithin (fun j => j.stateOf 6 = .exited ∧ j.allocated 6 = true) k log k' ∧
      selections log = [4] ∧
    6 ∉ selections log ∧ (selections log).length ≤ k.pcbList.len - 1 + (k'.pid - k.pid) := by
  have ran : (perform (fun _ _ => True) 40 [.createProcess ⟨true, true, true, true, true⟩ 0 0,
      .createProcess ⟨true, true, true, true, true⟩ 0 0, .timerTick, .exit 5] (boot 0 0 0)).map
      (fun k => decide ((k.stateOf 6 = .exited ∧ k.allocated 6 = true) ∧ 6 ≠ k.idlePCB ∧
        (k.exec 40 .timerTick).toOption.map (fun k' =>
          decide ((k'.stateOf 6 = .exited ∧ k'.allocated 6 = true) ∧
          selections ([] ++ k.execLog 40 .timerTick) = [4])) = some true)) =
            some true := by decide +kernel
  obtain ⟨k, run, state⟩ := Option.map_eq_some_iff.mp ran
  obtain ⟨dead, user, next⟩ := of_decide_eq_true state
  obtain ⟨k', tick, state⟩ := Option.map_eq_some_iff.mp next
  obtain ⟨dead', selected⟩ := of_decide_eq_true state
  have logged : Logged k .timerTick (k.execLog 40 .timerTick) k' :=
    ⟨trivial, 40, ok_of_toOption tick, rfl⟩
  have ticks : RunWithin (fun j => j.stateOf 6 = .exited ∧ j.allocated 6 = true) k
      ([] ++ k.execLog 40 .timerTick) k' := .more (.none dead) logged dead'
  have bounds := exited_reaped_in_time ⟨0, 0, 0, perform_run run⟩ user ticks
  exact ⟨k, _, k', ticks, selected, bounds.1, bounds.2.2.1⟩

end Waiting

end SoTp.Process
