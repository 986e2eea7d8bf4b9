/-
The scheduler's list in the source's own terms: what one sees by following `next`
from `head`.

* `RingAt.singleRing` — the ring around the cursor, read from the head.
* `scheduler_structure` — in every run the list is a single ring, and every
  selection ends with one process RUNNING or with the idle one.
-/

import SoTp.Process.Runs

namespace SoTp.Process

open SoTp.Lib Kernel

/-- `pcbList` is the single ring `nodes`, from `head` through `next`. -/
structure SingleRing (k : Kernel) (nodes : List Nat) : Prop where
  walk : Segment k.next k.pcbList.head nodes k.pcbList.head
  distinct : nodes.Nodup
  len : nodes.length = k.pcbList.len
  last : nodes.getLast? = some k.pcbList.tail
  tail_next : k.next k.pcbList.tail = k.pcbList.head
  pids : nodes.Pairwise fun m n => k.pidOf (k.pcbOf m) < k.pidOf (k.pcbOf n)
  prev : k.pcbList.prev ∈ nodes
  prev_next : ¬ k.idle → k.next k.pcbList.prev = k.pcbList.current
  current : ¬ k.idle → k.pcbList.current ∈ nodes

/-- What `schedule` has chosen among `nodes`. -/
def Chosen (k : Kernel) (nodes : List Nat) : Prop :=
  (k.pcbList.current ∈ nodes ∧ k.stateOf k.currentPCB = .running ∧
      ∀ p, k.stateOf p = .running → p = k.currentPCB) ∨
    (k.pcbList.current = k.idleProcPCBNode ∧ ∀ p, k.stateOf p ≠ .running)

section Structure

variable {k : Kernel} {before after : List Nat} {cursor : Nat}

theorem RingAt.singleRing (r : RingAt k before cursor after)
    (here : k.pcbList.current = cursor ∨ k.idle) : SingleRing k (before ++ cursor :: after) := by
  have walk := r.walk
  refine ⟨walk, r.nodup, r.len.symm, r.tail, ?_, r.pids, r.prev_mem, fun busy => ?_, fun busy => ?_⟩
  · obtain ⟨front, e⟩ := List.getLast?_eq_some_iff.mp r.tail
    rw [e] at walk
    exact (segment_concat.mp walk).2
  · rw [r.next_prev]
    exact (here.resolve_right busy).symm
  · exact here.resolve_right busy ▸ r.cursor_mem

theorem Ring.singleRing (r : Ring k) : ∃ nodes, SingleRing k nodes := by
  obtain ⟨before, cursor, after, ring, here⟩ := r
  exact ⟨_, ring.singleRing here⟩

theorem Selected.chosen (s : Selected k) {nodes : List Nat} (r : SingleRing k nodes) :
    Chosen k nodes :=
  s.imp (fun ⟨busy, run, only⟩ => ⟨r.current busy, run, only⟩) id

end Structure

/-- In every run the list is a single ring and the current process can run;
`schedule` returns from every state with one process RUNNING or the idle one, and so
does every operation that calls it. -/
theorem scheduler_structure {k : Kernel} (reach : Reach (fun _ _ => True) k) :
    (∃ nodes, SingleRing k nodes) ∧ Awake (k.stateOf k.currentPCB) ∧
      (∀ rsp, ∃ n, ∀ fuel, n < fuel → ∃ k' rsp', k.schedule fuel rsp = .ok (k', rsp') ∧
        ∃ nodes, SingleRing k' nodes ∧ Chosen k' nodes) ∧
      ∀ op k', Trans k op k' → ∃ nodes, SingleRing k' nodes ∧
        (Chosen k' nodes ∨ ¬ k.Switches op ∧ Stays k k') := by
  have i : Inv False k := reach.sound
  refine ⟨i.ring.singleRing, i.current, fun rsp => ?_, fun op k' trans => ?_⟩
  · obtain ⟨n, returns⟩ := schedule_spec i.ring i.sched rsp
    refine ⟨n, fun fuel enough => ?_⟩
    obtain ⟨⟨k', rsp'⟩, run, picked⟩ := returns fuel enough
    obtain ⟨nodes, single⟩ := picked.ring.singleRing
    exact ⟨k', rsp', run, nodes, single, picked.selected.chosen single⟩
  · have effect := trans.effect i
    obtain ⟨nodes, single⟩ := (effect.inv i).ring.singleRing
    exact ⟨nodes, single, (effect.selected i).imp (fun s => s.chosen single) id⟩

/-- `init` creates a process and yields to it. -/
theorem scheduler_structure_two : ∃ (k : Kernel) (nodes : List Nat),
    SingleRing k nodes ∧ k.pcbList.len = 2 ∧ k.currentPCB = 6 ∧ Awake (k.stateOf 6) := by
  have ran : (perform (fun _ _ => True) 40
      [.createProcess ⟨true, true, true, true, true⟩ 0 0, .yield] (boot 0 0 0)).map
      (fun k => (k.pcbList.len, k.currentPCB)) = some (2, 6) := by decide +kernel
  obtain ⟨k, run, list⟩ := Option.map_eq_some_iff.mp ran
  simp only [Prod.mk.injEq] at list
  obtain ⟨⟨nodes, single⟩, awake, -⟩ := scheduler_structure ⟨0, 0, 0, perform_run run⟩
  exact ⟨k, nodes, single, list.1, list.2, list.2 ▸ awake⟩

end SoTp.Process
