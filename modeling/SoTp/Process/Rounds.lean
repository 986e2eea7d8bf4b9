/-
Whose turn it is. A process that is READY moves towards the front of the order in which
`schedule` looks at the processes, and whoever is selected goes to its end; the selected
process keeps the processor for as many calls of `schedule` as its priority says.

* `Stage.kinds` — a stage calls `schedule`, creates a process, or leaves the list alone.
* `Ahead.stage` — nobody ahead of a READY process has had a turn since it is READY.
* `Stage.running` — what a call of `schedule` does to a RUNNING process.
* `bounded_overtaking` — both, over whole runs.
-/

import SoTp.Process.Parts
import SoTp.Process.Scan

namespace SoTp.Process

open SoTp.Lib Kernel

/-! ### What schedule decides -/

/-- A decision of `schedule`. -/
def Event.decides : Event → Bool
  | .resumes _ | .selects .. | .idles => true
  | _ => false

/-- The process that a decision selects. -/
def Event.selected : Event → Option Nat
  | .selects pcb _ => some pcb
  | _ => none

def decisions (log : List Event) : List Event := log.filter Event.decides

def selections (log : List Event) : List Nat := log.filterMap Event.selected

/-- A run, stage by stage, with its log, that never leaves the states of `good`. -/
inductive StagesWithin (good : Kernel → Prop) (k : Kernel) : List Event → Kernel → Prop
  | none (start : good k) : StagesWithin good k [] k
  | more {j k' : Kernel} {log log' : List Event} (before : StagesWithin good k log j)
      (stage : Stage j log' k') (stays : good k') : StagesWithin good k (log ++ log') k'

section Decisions

variable {k j k' : Kernel} {log log' : List Event}

theorem decisions_append : decisions (log ++ log') = decisions log ++ decisions log' :=
  List.filter_append _ _

theorem selections_append : selections (log ++ log') = selections log ++ selections log' :=
  List.filterMap_append

theorem selections_of_decisions (none : decisions log = []) : selections log = [] := by
  rw [selections, List.filterMap_eq_nil_iff]
  intro e mem
  have not : ¬ e.decides = true := fun d => by
    have mem : e ∈ decisions log := List.mem_filter.mpr ⟨mem, d⟩
    rw [none] at mem
    cases mem
  cases e <;> first | rfl | exact absurd rfl not

/-- Reaping decides nothing. -/
theorem reaps_decisions (running : Nat) (nodes : List Nat) :
    decisions (reaps running k nodes) = [] := by
  rw [decisions, List.filter_eq_nil_iff]
  intro e mem
  obtain ⟨p, -, mem⟩ := List.mem_flatMap.mp mem
  unfold reapLog at mem
  split_ifs at mem <;> simp at mem
  all_goals
    rcases mem with rfl | rfl | rfl | rfl | rfl <;> simp [Event.decides]

theorem exit_decisions {fuel p : Nat} {exitCode : Int} {out : Outcome}
    (run : exitProcessByPCB fuel p exitCode k = .ok out) :
    decisions (exitProcessByPCBLog fuel p exitCode k) = [] := by
  by_cases blocked : k.stateOf p = .blocked
  · rw [(exit_blocked blocked run).2]
    rfl
  · refine exit_log_induct (R := fun _ log _ => decisions log = []) (fun _ => rfl)
      (fun _ _ _ _ _ first rest => ?_) (fun k p _ _ _ => ?_) (fun _ _ _ _ _ => rfl) blocked run
    · rw [decisions_append, first, rest, List.append_nil]
    · unfold markExitedLog
      simp only []
      split_ifs <;> rfl

end Decisions

/-- A stage that leaves the list and the quantums of the running process alone. -/
structure Still (k : Kernel) (log : List Event) (j : Kernel) : Prop where
  decisions : decisions log = []
  ring : SameRing k j
  quantumsLeft : j.quantumsLeft = k.quantumsLeft

/-- What a stage may be. -/
inductive Kind (k : Kernel) : List Event → Kernel → Prop
  | switch {fuel : Nat} {j : Kernel} (run : k.contextSwitch fuel = .ok j) :
      Kind k (k.contextSwitchLog fuel) j
  | still {log : List Event} {j : Kernel} (still : Still k log j) : Kind k log j
  | creates (bound : k.pid < IDLE_PID) (rsp : Nat) (garbage : Int) : Kind k [] (added k rsp garbage)
  | fails (bound : k.pid < IDLE_PID) : Kind k [] { k with pid := k.pid + 1 }

section Kinds

variable {k j : Kernel} {log : List Event} {op : Op}

theorem exit_still {fuel p : Nat} {exitCode : Int} {out : Outcome} (m : Mid False k)
    (current : Awake (k.stateOf k.currentPCB)) (alive : k.stateOf p ≠ .exited)
    (run : exitProcessByPCB fuel p exitCode k = .ok out) :
    Still k (exitProcessByPCBLog fuel p exitCode k) out.kernel := by
  refine ⟨exit_decisions run, ?_, exit_quantumsLeft run⟩
  by_cases blocked : k.stateOf p = .blocked
  · rw [(exit_blocked blocked run).1]
    exact setPCB_sameRing rfl
  · exact (exitProcessByPCB_spec (m.bystanders current) blocked alive run).2.ring

theorem Opening.kind (i : Inv False k) (o : Opening k op log j) : Kind k log j := by
  cases o with
  | none => exact .still ⟨rfl, SameRing.refl k, rfl⟩
  | exits _ alive run => exact .still (exit_still i.toMid i.current alive run)
  | records _ _ _ _ _ recorded =>
      refine .still ⟨rfl, recorded_sameRing recorded, ?_⟩
      obtain ⟨f, rfl, -⟩ := recordWaiter_ok recorded
      rfl
  | blocks ring _ quantumsLeft _ =>
      exact .still ⟨rfl, ring.trans (setPCB_sameRing rfl), quantumsLeft⟩
  | blocksByUser _ => exact .still ⟨rfl, setPCB_sameRing rfl, rfl⟩
  | creates _ bound rsp garbage _ => exact .creates bound rsp garbage
  | fails bound => exact .fails bound

/-- A stage calls `schedule`, creates a process, or leaves the list alone. -/
theorem Stage.kinds (stage : Stage k log j) : Kind k log j := by
  cases stage with
  | opens inv _ opening => exact opening.kind inv
  | part mid part =>
      cases part with
      | switch run => exact .switch run
      | exits killed current run => exact .still (exit_still mid current (by simp [killed]) run)
      | stirs stirs => exact .still ⟨rfl, stirs.ring, stirs.quantumsLeft⟩

end Kinds

/-! ### Overtaking -/

/-- The processes ahead of `pcb` in the order of the search have not been selected in the
course of `log`, and nobody twice. -/
structure Ahead (pcb : Nat) (log : List Event) (k : Kernel) : Prop where
  order : ∃ before cursor after, RingAt k before cursor after ∧
    (k.pcbList.current = cursor ∨ k.idle) ∧
    ∃ front node back, after ++ before ++ [cursor] = front ++ node :: back ∧ k.pcbOf node = pcb ∧
      ∀ m ∈ front, k.pcbOf m ∉ selections log
  known : ∀ q ∈ selections log, q < k.unused
  nodup : (selections log).Nodup
  other : pcb ∉ selections log

/-- The node comes after the ones that were passed. -/
theorem split_behind {α : Type} {passed rest front back : List α} {n node : α}
    (e : passed ++ n :: rest = front ++ node :: back) (notPassed : node ∉ passed)
    (other : node ≠ n) :
    ∃ between, front = passed ++ n :: between ∧ rest = between ++ node :: back := by
  induction passed generalizing front with
  | nil =>
      cases front with
      | nil => exact absurd (List.cons.inj e).1.symm other
      | cons m between =>
          obtain ⟨rfl, rest⟩ := List.cons.inj e
          exact ⟨between, rfl, rest⟩
  | cons m passed ih =>
      cases front with
      | nil => exact absurd ((List.cons.inj e).1 ▸ List.mem_cons_self) notPassed
      | cons m' front =>
          obtain ⟨rfl, e'⟩ := List.cons.inj e
          obtain ⟨between, rfl, rest⟩ := ih e' fun mem => notPassed (List.mem_cons_of_mem _ mem)
          exact ⟨between, rfl, rest⟩

section Overtaking

variable {k j : Kernel} {pcb : Nat} {log log' : List Event}

theorem Ahead.start (m : Mid False k) (ready : k.stateOf pcb = .ready) (ne : pcb ≠ k.idlePCB) :
    Ahead pcb [] k := by
  obtain ⟨before, cursor, after, ring, here⟩ := m.ring
  obtain ⟨node, mem, at_⟩ :=
    (ring.members pcb (m.allocated (by simp [ready]))).2.2.resolve_left ne
  have mem : node ∈ after ++ before ++ [cursor] := by
    simp only [List.mem_append, List.mem_cons] at mem ⊢
    tauto
  obtain ⟨front, back, e⟩ := List.append_of_mem mem
  exact ⟨⟨before, cursor, after, ring, here, front, node, back, e, at_,
    fun _ _ mem => by cases mem⟩,
    fun _ mem => (by cases mem), List.nodup_nil, fun mem => by cases mem⟩

/-- The list is as before, and nobody was selected. -/
theorem Ahead.still (a : Ahead pcb log k) (none : selections log' = []) (same : SameRing k j) :
    Ahead pcb (log ++ log') j := by
  obtain ⟨before, cursor, after, ring, here, front, node, back, e, at_, ahead⟩ := a.order
  have selected : selections (log ++ log') = selections log := by
    rw [selections_append, none, List.append_nil]
  refine ⟨⟨before, cursor, after, ring.congr same, here.imp (fun e => ?_) same.idle.mpr,
    front, node, back, e, (same.pcbOf node).trans at_, fun m mem => ?_⟩, fun q mem => ?_, ?_, ?_⟩
  · rw [same.pcbList]
    exact e
  · rw [same.pcbOf, selected]
    exact ahead m mem
  · rw [selected] at mem
    exact Nat.lt_of_lt_of_le (a.known q mem) same.unused
  · rw [selected]
    exact a.nodup
  · rw [selected]
    exact a.other

/-- A new process comes last in the list, wherever that is in the order. -/
theorem Ahead.created (a : Ahead pcb log k) (bound : k.pid < IDLE_PID) (rsp : Nat) (garbage : Int) :
    Ahead pcb log (added k rsp garbage) := by
  obtain ⟨before, cursor, after, ring, here, front, node, back, e, at_, ahead⟩ := a.order
  obtain ⟨-, pcbOf, list⟩ := added_eq ring.head_ne rsp garbage
  have unused : (added k rsp garbage).unused = k.unused + 2 := by rw [added_rest]
  have idleNode : (added k rsp garbage).idleProcPCBNode = k.idleProcPCBNode := by rw [added_rest]
  have old : ∀ n ∈ after ++ before ++ [cursor], (added k rsp garbage).pcbOf n = k.pcbOf n :=
      fun n mem => by
    have mem : n ∈ before ++ cursor :: after := by
      simp only [List.mem_append, List.mem_cons] at mem ⊢
      tauto
    rw [pcbOf, Function.update_of_ne (ring.used n mem).2.1.ne]
  have new : (added k rsp garbage).pcbOf k.unused ∉ selections log := fun mem => by
    rw [pcbOf, Function.update_self] at mem
    have := a.known _ mem
    omega
  have placed : ∃ front' back', after ++ [k.unused] ++ before ++ [cursor] =
      front' ++ node :: back' ∧ ∀ m ∈ front', m = k.unused ∨ m ∈ front := by
    rw [List.append_assoc] at e
    rcases List.append_eq_append_iff.mp e with ⟨more, rfl, e₁⟩ | ⟨more, rfl, e₁⟩
    · refine ⟨after ++ [k.unused] ++ more, back, ?_, fun m mem => ?_⟩
      · simp only [List.append_assoc]
        rw [e₁]
      · simp only [List.mem_append, List.mem_singleton] at mem ⊢
        tauto
    · cases more with
      | nil =>
          refine ⟨front ++ [k.unused], back, ?_, fun m mem => ?_⟩
          · rw [List.nil_append] at e₁
            rw [List.append_nil, List.append_assoc, ← e₁]
          · simp only [List.mem_append, List.mem_singleton] at mem
            tauto
      | cons n more =>
          obtain ⟨rfl, rfl⟩ := List.cons.inj e₁
          exact ⟨front, more ++ [k.unused] ++ before ++ [cursor], by simp, fun m mem => Or.inr mem⟩
  obtain ⟨front', back', e', from_⟩ := placed
  refine ⟨⟨before, cursor, after ++ [k.unused], ring.added bound rsp garbage, here.imp (fun e => ?_)
    (fun e => ?_), front', node, back', e', ?_, fun m mem => ?_⟩, fun q mem => ?_, a.nodup, a.other⟩
  · rw [list]
    exact e
  · rw [Kernel.idle, list, idleNode]
    exact e
  · rw [old node (by rw [e]; simp)]
    exact at_
  · rcases from_ m mem with rfl | mem
    · exact new
    · rw [old m (by rw [e]; simp [mem])]
      exact ahead m mem
  · have := a.known q mem
    omega

theorem preempted_ready (ready : k.stateOf pcb = .ready) : (preempted k).stateOf pcb = .ready := by
  unfold preempted
  split_ifs
  · rw [stateOf_setState]
    split_ifs
    · rfl
    · exact ready
  · exact ready

/-- Whom `schedule` selects was ahead, and comes last now. -/
theorem Ahead.selects {before after scanned rest front back : List Nat} {cursor n node : Nat}
    {decision : Event} (a : Ahead pcb log k) (ring : RingAt k before cursor after)
    (switched : Switched k j) (ready : k.stateOf pcb = .ready) (stays : j.stateOf pcb = .ready)
    (e : after ++ before ++ [cursor] = front ++ node :: back) (at_ : k.pcbOf node = pcb)
    (ahead : ∀ m ∈ front, k.pcbOf m ∉ selections log)
    (order : after ++ before ++ [cursor] = scanned ++ n :: rest)
    (chooses : Chooses (preempted k) scanned n rest decision j) :
    Ahead pcb (log ++ (reaps k.currentPCB (preempted k) scanned ++ [decision])) j := by
  have same := preempted_sameRing k
  have in_ring : ∀ m ∈ after ++ before ++ [cursor], m ∈ before ++ cursor :: after := fun m mem => by
    simp only [List.mem_append, List.mem_cons, List.not_mem_nil, or_false] at mem ⊢
    tauto
  have n_mem : n ∈ after ++ before ++ [cursor] := by
    rw [order]
    simp
  have node_mem : node ∈ after ++ before ++ [cursor] := by
    rw [e]
    simp
  have notPassed : node ∉ scanned := fun mem =>
    chooses.quiet node mem (by rw [same.pcbOf, at_]; exact preempted_ready ready)
  rcases chooses.decision with ⟨-, here, -, rfl⟩ | ⟨asleep, rfl, -, -⟩
  · have pcbOf : j.pcbOf = k.pcbOf := switched.selects.pcbOf
    have running : j.stateOf (k.pcbOf n) = .running := by
      have busy : ¬ j.idle := fun idle => by
        have idleNode : n = k.idleProcPCBNode := by
          rw [← here, ← switched.selects.idleNode]
          exact idle
        exact ring.ne_idle (in_ring n n_mem) idleNode
      have running := (switched.selected.resolve_right fun idle => busy idle.1).2.1
      rwa [currentPCB, here, pcbOf] at running
    have other : node ≠ n := fun same => by
      rw [← same, at_, stays] at running
      cases running
    obtain ⟨between, rfl, rfl⟩ := split_behind (order.symm.trans e) notPassed other
    obtain ⟨before', cursor', after', ring', current, view⟩ := chooses.ring
    have selected : selections (log ++ (reaps k.currentPCB (preempted k) scanned ++
        [.selects ((preempted k).pcbOf n) ((preempted k).pcbs ((preempted k).pcbOf n)).priority])) =
        selections log ++ [k.pcbOf n] := by
      rw [selections_append, selections_append, selections_of_decisions (reaps_decisions _ _),
        same.pcbOf]
      rfl
    have fresh : k.pcbOf n ∉ selections log := ahead n (by simp)
    refine ⟨⟨before', cursor', after', ring', current, between, node,
      back ++ (preempted k).kept scanned ++ [n], ?_, ?_, fun m mem => ?_⟩, fun q mem => ?_, ?_, ?_⟩
    · rw [view]
      simp
    · rw [pcbOf]
      exact at_
    · rw [selected, pcbOf, List.mem_append, List.mem_singleton, not_or]
      refine ⟨ahead m (by simp [mem]), fun twin => ?_⟩
      have m_mem : m ∈ after ++ before ++ [cursor] := by
        rw [e]
        simp [mem]
      have same : m = n := ring.pid_inj (in_ring m m_mem) (in_ring n n_mem) (by rw [twin])
      have nodup : (after ++ before ++ [cursor]).Nodup :=
        (List.perm_append_singleton _ _).nodup_iff.mpr ring.view_nodup
      rw [e, same.symm] at nodup
      simp [List.nodup_append, mem] at nodup
    · rw [selected, List.mem_append, List.mem_singleton] at mem
      rw [switched.selects.unused]
      rcases mem with mem | rfl
      · exact a.known q mem
      · exact (ring.members _ (ring.used n (in_ring n n_mem)).2.2.2).1
    · rw [selected]
      exact List.nodup_append.mpr ⟨a.nodup, List.nodup_singleton _, fun q mem q' mem' twin =>
        fresh (List.mem_singleton.mp mem' ▸ twin ▸ mem)⟩
    · rw [selected, List.mem_append, List.mem_singleton, not_or]
      refine ⟨a.other, fun twin => ?_⟩
      rw [← twin, stays] at running
      cases running
  · -- The last node would be that of `pcb` itself.
    rw [order] at node_mem
    have last : node = n := by simpa [notPassed] using node_mem
    rw [same.pcbOf, ← last, at_] at asleep
    exact absurd (preempted_ready ready) asleep

theorem Ahead.switch {fuel : Nat} (a : Ahead pcb log k) (m : Mid False k)
    (ready : k.stateOf pcb = .ready) (stays : j.stateOf pcb = .ready)
    (run : k.contextSwitch fuel = .ok j) : Ahead pcb (log ++ k.contextSwitchLog fuel) j := by
  obtain ⟨before, cursor, after, ring, here, front, node, back, e, at_, ahead⟩ := a.order
  have switched := contextSwitch_of_ok m.ring m.sched run
  have turn := contextSwitch_turn ring here run
  generalize k.contextSwitchLog fuel = log' at turn ⊢
  cases turn with
  | resumes _ _ same _ => exact a.still rfl same
  | searches _ order chooses =>
      exact a.selects ring switched ready stays e at_ ahead order chooses

theorem Ahead.stage (a : Ahead pcb log k) (stage : Stage k log' j) (ready : k.stateOf pcb = .ready)
    (stays : j.stateOf pcb = .ready) : Ahead pcb (log ++ log') j := by
  cases stage.kinds with
  | switch run => exact a.switch stage.mid ready stays run
  | still still => exact a.still (selections_of_decisions still.decisions) still.ring
  | creates bound rsp garbage =>
      rw [List.append_nil]
      exact a.created bound rsp garbage
  | fails bound =>
      obtain ⟨before, cursor, after, ring, rest⟩ := a.order
      rw [List.append_nil]
      exact ⟨⟨before, cursor, after, ring.counter_succ bound, rest⟩, a.known, a.nodup, a.other⟩

/-- Nobody overtakes a READY process twice. -/
theorem StagesWithin.ahead (run : StagesWithin (fun j => j.stateOf pcb = .ready) k log j)
    (m : Mid False k) (ne : pcb ≠ k.idlePCB) : j.stateOf pcb = .ready ∧ Ahead pcb log j := by
  induction run with
  | none ready => exact ⟨ready, .start m ready ne⟩
  | more before stage stays ih => exact ⟨stays, ih.2.stage stage ih.1 stays⟩

end Overtaking

/-! ### Quantums -/

section Quantums

variable {k j k' : Kernel} {pcb priority : Nat} {log log' : List Event}

theorem not_mem_of_decisions {e : Event} (none : decisions log = []) (d : e.decides = true) :
    e ∉ log :=
  fun mem => by
    have mem : e ∈ decisions log := List.mem_filter.mpr ⟨mem, d⟩
    rw [none] at mem
    cases mem

/-- The stage that selects a process: it is none of the idle kind, and gets its quantums. -/
theorem Stage.selects (stage : Stage k log j) (mem : .selects pcb priority ∈ log) :
    j.quantumsLeft = priority - 1 ∧ pcb ≠ k.idlePCB := by
  have m := stage.mid
  cases stage.kinds with
  | switch run =>
      obtain ⟨before, cursor, after, ring, here⟩ := m.ring
      have turn := contextSwitch_turn ring here run
      generalize k.contextSwitchLog _ = log at turn mem
      cases turn with
      | resumes _ _ _ _ => simp at mem
      | @searches scanned rest n decision _ order chooses =>
          rcases List.mem_append.mp mem with passed | decided
          · exact absurd passed (not_mem_of_decisions (reaps_decisions _ _) rfl)
          · obtain rfl := (List.mem_singleton.mp decided).symm
            rcases chooses.decision with ⟨-, -, quantums, e⟩ | ⟨-, -, -, e⟩
            · cases e
              have n_mem : n ∈ before ++ cursor :: after := by
                have mem : n ∈ after ++ before ++ [cursor] := by
                  rw [order]
                  simp
                simp only [List.mem_append, List.mem_cons, List.not_mem_nil, or_false] at mem ⊢
                tauto
              refine ⟨quantums, ?_⟩
              rw [(preempted_sameRing k).pcbOf]
              exact ring.pcbOf_ne_idle n_mem
            · cases e
  | still still => exact absurd mem (not_mem_of_decisions still.decisions rfl)
  | creates => cases mem
  | fails => cases mem

/-- A stage of a RUNNING process: a call of `schedule` lets it go on as long as it has
quantums left, and selects a process when it has none. -/
theorem Stage.running (stage : Stage k log j) (running : k.stateOf pcb = .running) :
    (decisions log = [] ∧ j.quantumsLeft = k.quantumsLeft) ∨
      (0 < k.quantumsLeft ∧ decisions log = [.resumes pcb] ∧ j.quantumsLeft = k.quantumsLeft - 1) ∨
      (k.quantumsLeft ≤ 0 ∧ ∃ p n, decisions log = [.selects p n]) := by
  have m := stage.mid
  have current : pcb = k.currentPCB := m.sched.running pcb running
  cases stage.kinds with
  | switch run =>
      obtain ⟨before, cursor, after, ring, here⟩ := m.ring
      have turn := contextSwitch_turn ring here run
      generalize k.contextSwitchLog _ = log at turn
      cases turn with
      | resumes quantums _ _ quantumsLeft =>
          refine Or.inr (Or.inl ⟨quantums, ?_, quantumsLeft⟩)
          rw [current]
          rfl
      | @searches scanned rest n decision spent order chooses =>
          rw [← current] at spent
          have none : k.quantumsLeft ≤ 0 := not_lt.mp fun more => spent ⟨more, running⟩
          have decided : decisions (reaps k.currentPCB (preempted k) scanned ++ [decision]) =
              decisions [decision] := by
            rw [decisions_append, reaps_decisions, List.nil_append]
          rw [decided]
          rcases chooses.decision with ⟨-, -, -, rfl⟩ | ⟨asleep, rfl, -, -⟩
          · exact Or.inr (Or.inr ⟨none, _, _, rfl⟩)
          · -- The search passed the running process itself, which waits for its next turn.
            obtain ⟨-, last⟩ := List.append_inj' order rfl
            obtain rfl := (List.singleton_inj.mp last).symm
            have at_cursor : k.pcbList.current = n := here.resolve_right fun idle => by
              have ready := m.sched.idle
              rw [current, currentPCB, show k.pcbList.current =
                k.idleProcPCBNode from idle] at running
              rw [idlePCB, running] at ready
              cases ready
            have e : k.pcbOf n = pcb := by rw [current, currentPCB, at_cursor]
            rw [(preempted_sameRing k).pcbOf, e, preempted, if_pos (current ▸ running),
              stateOf_setState, if_pos current] at asleep
            exact absurd rfl asleep
  | still still => exact Or.inl ⟨still.decisions, still.quantumsLeft⟩
  | creates bound rsp garbage => exact Or.inl ⟨rfl, by rw [added_rest]⟩
  | fails => exact Or.inl ⟨rfl, rfl⟩

/-- The calls of `schedule` that a selected process has left. -/
theorem StagesWithin.quantums (run : StagesWithin (fun j => j.stateOf pcb = .running) k log j)
    (quantums : k.quantumsLeft = priority - 1) (few : (decisions log).length ≤ priority - 1) :
    j.stateOf pcb = .running ∧ j.quantumsLeft = priority - 1 - (decisions log).length := by
  induction run with
  | none running => exact ⟨running, by simp [quantums, decisions]⟩
  | more before stage stays ih =>
      rw [decisions_append, List.length_append] at few ⊢
      obtain ⟨running, left⟩ := ih (by omega)
      refine ⟨stays, ?_⟩
      rcases stage.running running with ⟨none, same⟩ | ⟨-, one, less⟩ | ⟨spent, p, n, selects⟩
      · rw [same, left, none]
        simp
      · rw [less, left, one]
        simp only [List.length_singleton]
        omega
      · rw [selects, List.length_singleton] at few
        omega

theorem Stage.idlePCB (stage : Stage k log j) : j.idlePCB = k.idlePCB := by
  have m := stage.mid
  cases stage.kinds with
  | switch run => exact (contextSwitch_of_ok m.ring m.sched run).selects.idlePCB
  | still still => exact still.ring.idlePCB
  | creates bound rsp garbage => exact (added_views rsp garbage m).1
  | fails => rfl

theorem StagesWithin.idlePCB {good : Kernel → Prop} (run : StagesWithin good k log j) :
    j.idlePCB = k.idlePCB := by
  induction run with
  | none => rfl
  | more before stage _ ih => exact stage.idlePCB.trans ih

/-- A run of no stages, or one from a state that keeps what holds all through an operation. -/
theorem StagesWithin.first {good : Kernel → Prop} (run : StagesWithin good k log j) :
    (log = [] ∧ j = k) ∨ Mid False k := by
  induction run with
  | none => exact Or.inl ⟨rfl, rfl⟩
  | more before stage _ ih =>
      refine Or.inr ?_
      rcases ih with ⟨-, rfl⟩ | m
      · exact stage.mid
      · exact m

end Quantums

/-! ### Runs -/

/-- The process is no longer READY in the end because `schedule` has selected it. -/
def SelectedNext (pcb : Nat) (k : Kernel) : Prop :=
  ∃ priority log k', Stage k log k' ∧ .selects pcb priority ∈ log

/-- Bounded overtaking: from any moment on, while a process is READY, each other one is
selected at most once. Weighted round robin: a process selected with priority `n` is
resumed by the next `n - 1` calls of `schedule` while it is RUNNING, and the `n`-th
selects anew. -/
theorem bounded_overtaking {k : Kernel} (reach : Reach (fun _ _ => True) k) :
    (∀ op log k', Logged k op log k' → Stages k log k') ∧
    ∀ {past : List Event} {j : Kernel}, Stages k past j →
      (∀ {pcb : Nat} {log : List Event} {k' : Kernel},
        StagesWithin (fun j => j.stateOf pcb = .ready) j log k' →
        pcb ≠ j.idlePCB ∨ SelectedNext pcb k' →
        pcb ∉ selections log ∧ (selections log).Nodup) ∧
      ∀ {pcb n : Nat} {turn log call : List Event} {k₁ k₂ k₃ : Kernel},
        Stage j turn k₁ → .selects pcb n ∈ turn →
        StagesWithin (fun j => j.stateOf pcb = .running) k₁ log k₂ →
        Stage k₂ call k₃ → decisions call ≠ [] →
        ((decisions log).length < n - 1 → decisions call = [.resumes pcb]) ∧
        ((decisions log).length = n - 1 → ∃ p m, decisions call = [.selects p m]) := by
  have i : Inv False k := reach.sound
  refine ⟨fun op log k' logged => logged.stages i, fun {past j} _ =>
      ⟨fun {pcb log k'} within other => ?_,
      fun {pcb n turn log call k₁ k₂ k₃} selects mem within next calls => ?_⟩⟩
  · rcases within.first with ⟨rfl, -⟩ | m
    · exact ⟨List.not_mem_nil, List.nodup_nil⟩
    · have ne : pcb ≠ j.idlePCB := by
        rcases other with ne | ⟨_, _, _, stage, mem⟩
        · exact ne
        · rw [← within.idlePCB]
          exact (stage.selects mem).2
      have a := (within.ahead m ne).2
      exact ⟨a.other, a.nodup⟩
  · have quantums := (selects.selects mem).1
    constructor
    · intro few
      obtain ⟨running, left⟩ := within.quantums quantums (Nat.le_of_lt few)
      rcases next.running running with ⟨none, -⟩ | ⟨-, one, -⟩ | ⟨spent, -⟩
      · exact absurd none calls
      · exact one
      · rw [left] at spent
        omega
    · intro all
      obtain ⟨running, left⟩ := within.quantums quantums (Nat.le_of_eq all)
      rcases next.running running with ⟨none, -⟩ | ⟨more, -⟩ | ⟨-, selects⟩
      · exact absurd none calls
      · rw [left] at more
        omega
      · exact selects

/-- A process of priority 3 is selected while another one waits, and resumed. -/
theorem bounded_overtaking_resumes : ∃ (k k₁ k₂ : Kernel) (turn call : List Event),
    Stage k turn k₁ ∧
    .selects 6 3 ∈ turn ∧ Stage k₁ call k₂ ∧ 8 ∉ selections turn ∧
      decisions call = [.resumes 6] := by
  have ran : (perform (fun _ _ => True) 40 [.createProcess ⟨true, true, true, true, true⟩ 0 0,
      .createProcess ⟨true, true, true, true, true⟩ 0 0, .changePriority 1 3] (boot 0 0 0)).map
      (fun k => decide (k.stateOf 8 = .ready ∧ 8 ≠ k.idlePCB ∧
        .selects 6 3 ∈ k.contextSwitchLog 40 ∧
        (k.contextSwitch 40).toOption.map (fun k₁ => decide (k₁.stateOf 8 = .ready ∧
          k₁.stateOf 6 = .running ∧ decisions (k₁.contextSwitchLog 40) ≠ [] ∧
          (k₁.contextSwitch 40).toOption.isSome)) = some true)) = some true := by decide +kernel
  obtain ⟨k, run, state⟩ := Option.map_eq_some_iff.mp ran
  obtain ⟨ready, ne, selects, next⟩ := of_decide_eq_true state
  obtain ⟨k₁, turn, state⟩ := Option.map_eq_some_iff.mp next
  obtain ⟨stays, running, calls, returns⟩ := of_decide_eq_true state
  obtain ⟨k₂, call⟩ := Option.isSome_iff_exists.mp returns
  have reach : Reach (fun _ _ => True) k := ⟨0, 0, 0, perform_run run⟩
  have i : Inv False k := reach.sound
  have i₁ : Inv False k₁ :=
    i.toMid.switched (contextSwitch_of_ok i.ring i.sched (ok_of_toOption turn))
  have first : Stage k (k.contextSwitchLog 40) k₁ := .part i.toMid (.switch (ok_of_toOption turn))
  have second : Stage k₁ (k₁.contextSwitchLog 40) k₂ :=
    .part i₁.toMid (.switch (ok_of_toOption call))
  obtain ⟨waits, turns⟩ := (bounded_overtaking reach).2 .none
  have waited := waits (.more (.none ready) first stays) (Or.inl ne)
  have resumed := turns first selects (.none running) second calls
  exact ⟨k, k₁, k₂, _, _, first, selects, second, waited.1, resumed.1 (by decide)⟩

end SoTp.Process
