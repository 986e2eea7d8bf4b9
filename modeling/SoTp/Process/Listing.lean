/-
The list of processes that `ps` prints (`getPCBList`): a walk of `pcbList.len` nodes from the
head, that copies what it finds.

* `getPCBList_walk` — the walk copies the control blocks of the ring.
* `process_list_exact` — what the list of a reachable state says.
-/

import SoTp.Process.Lifecycle
import SoTp.Process.Search

namespace SoTp.Process

open SoTp.Lib Kernel

/-- `StateStrings`. -/
def stateString : State → String
  | .ready => "READY"
  | .running => "RUNNING"
  | .blocked => "BLOCKED"
  | .exited => "EXITED"
  | .waitingForExit => "W-EXIT"
  | .blockedByUser => "BLK_USER"

/-- The fields of a control block that nothing else here reads. -/
structure PCBLabels where
  name : Nat → List UInt8
  rbp : Nat → Nat

structure PCBForUserland where
  pid : Nat
  priority : Nat
  state : String
  rsp : Nat
  rbp : Nat
  name : List UInt8
  location : String
deriving DecidableEq

namespace Kernel

def copyPCBToPCBForUserland (k : Kernel) (labels : PCBLabels) (pcb : Nat) : PCBForUserland where
  name := labels.name pcb
  pid := k.pidOf pcb
  rsp := (k.pcbs pcb).rsp
  rbp := labels.rbp pcb
  state := stateString (k.stateOf pcb)
  priority := (k.pcbs pcb).priority
  location := if k.pidOf pcb = k.foregroundPid then "Fg" else "Bg"

/-- The loop of `getPCBList`, for as many nodes as are left. -/
def copyPCBs (k : Kernel) (labels : PCBLabels) : Nat → Nat → Exec (List PCBForUserland)
  | 0, _ => .ok []
  | left + 1, node =>
      if k.allocated (k.pcbOf node) = false then .error .fault
      else do
        let rest ← copyPCBs k labels left (k.next node)
        return k.copyPCBToPCBForUserland labels (k.pcbOf node) :: rest

/-- `getPCBList`, with `*len`; `memory` says whether its allocation succeeds. -/
def getPCBList (k : Kernel) (labels : PCBLabels) (memory : Bool) :
    Exec (Option (List PCBForUserland) × Nat) :=
  if k.pcbList.head = NULL then .ok (none, k.pcbList.len)
  else if memory then do
    let pcbArray ← k.copyPCBs labels k.pcbList.len k.pcbList.head
    return (some pcbArray, k.pcbList.len)
  else .ok (none, k.pcbList.len)

end Kernel

section Listing

variable {k : Kernel} {labels : PCBLabels} {nodes : List Nat}

/-- A walk over nodes whose control blocks are in memory copies them all, in order. -/
theorem getPCBList_walk {a b : Nat} (walk : Segment k.next a nodes b)
    (held : ∀ n ∈ nodes, k.allocated (k.pcbOf n) = true) :
    k.copyPCBs labels nodes.length a =
      .ok ((nodes.map k.pcbOf).map (k.copyPCBToPCBForUserland labels)) := by
  induction nodes generalizing a with
  | nil => rfl
  | cons n nodes ih =>
      obtain ⟨rfl, walk⟩ := walk
      have here : ¬ k.allocated (k.pcbOf a) = false := by
        rw [held a List.mem_cons_self]
        decide
      rw [List.length_cons, copyPCBs, if_neg here, ih walk fun m mem =>
        held m (List.mem_cons_of_mem _ mem)]
      rfl

theorem stateString_running {s : State} (shown : stateString s = "RUNNING") : s = .running := by
  cases s <;> first | rfl | exact absurd shown (by decide)

/-- With memory for it, `ps` gets every process but the idle one exactly once, in the order of
their pids and with its own data. Of them at most the one that asks is RUNNING, and the foreground
process alone, if it is in memory, is marked "Fg". -/
theorem process_list_exact (reach : Reach (fun _ _ => True) k) (labels : PCBLabels) :
    ∃ pcbs : List Nat,
      k.getPCBList labels true = .ok (some (pcbs.map (k.copyPCBToPCBForUserland labels)),
        pcbs.length) ∧
      (∀ p, p ∈ pcbs ↔ k.allocated p = true ∧ p ≠ k.idlePCB) ∧
      (pcbs.map (k.copyPCBToPCBForUserland labels)).Pairwise (fun a b => a.pid < b.pid) ∧
      (∀ p ∈ pcbs, (k.copyPCBToPCBForUserland labels p).state = "RUNNING" → p = k.currentPCB) ∧
      (k.allocated k.processInForeground = true → ∀ p ∈ pcbs,
        (k.copyPCBToPCBForUserland labels p).location = "Fg" ↔ p = k.processInForeground) := by
  have i : Inv False k := reach.sound
  obtain ⟨before, cursor, after, ring, -⟩ := i.ring
  have held : ∀ n ∈ before ++ cursor :: after, k.allocated (k.pcbOf n) = true :=
    fun n mem => (ring.used n mem).2.2.2
  refine ⟨(before ++ cursor :: after).map k.pcbOf, ?_, fun p => ?_, ?_, fun p _ shown => ?_,
    fun fg p mem => ?_⟩
  · rw [getPCBList, if_neg ring.head_ne, if_pos rfl, ring.len,
      getPCBList_walk ring.pidRing.walk held, List.length_map]
    rfl
  · rw [List.mem_map]
    constructor
    · rintro ⟨n, mem, rfl⟩
      exact ⟨held n mem, ring.pcbOf_ne_idle mem⟩
    · rintro ⟨alive, user⟩
      exact (ring.members p alive).2.2.resolve_left user
  · rw [List.pairwise_map, List.pairwise_map]
    exact ring.pids
  · exact i.sched.running p (stateString_running shown)
  · obtain ⟨n, in_ring, rfl⟩ := List.mem_map.mp mem
    have same : k.foregroundPid = k.pidOf k.processInForeground := by
      rw [foregroundPid, if_pos fg]
    simp only [copyPCBToPCBForUserland, same]
    constructor
    · intro shown
      split_ifs at shown with pid
      · exact ring.allocated_inj (held n in_ring) fg pid
      · exact absurd shown (by decide)
    · intro e
      rw [if_pos (by rw [e])]

/-- The list after a second process was created and got the processor. -/
theorem process_list_exact_two : ∃ k, Reach (fun _ _ => True) k ∧
    (k.getPCBList ⟨fun _ => [], fun _ => 0⟩ true).map (fun r => r.1.map fun l => l.map fun e =>
      (e.pid, e.state, e.location)) = .ok (some [(0, "READY", "Fg"), (1, "RUNNING", "Bg")]) ∧
    ∃ pcbs : List Nat, k.getPCBList ⟨fun _ => [], fun _ => 0⟩ true =
      .ok (some (pcbs.map (k.copyPCBToPCBForUserland ⟨fun _ => [], fun _ => 0⟩)), pcbs.length) := by
  have ran :
      (perform (fun _ _ => True) 40 [.createProcess ⟨true, true, true, true, true⟩ 5 0, .timerTick]
      (boot 0 0 0)).map (fun k => ((k.getPCBList ⟨fun _ => [], fun _ => 0⟩ true).map
        (fun r => r.1.map fun l => l.map fun e => (e.pid, e.state, e.location))).toOption) =
      some (some (some [(0, "READY", "Fg"), (1, "RUNNING", "Bg")])) := by decide +kernel
  obtain ⟨k, run, state⟩ := Option.map_eq_some_iff.mp ran
  have reach : Reach (fun _ _ => True) k := ⟨0, 0, 0, perform_run run⟩
  obtain ⟨pcbs, listed, -⟩ := process_list_exact reach ⟨fun _ => [], fun _ => 0⟩
  exact ⟨k, reach, ok_of_toOption state, pcbs, listed⟩

end Listing

end SoTp.Process
