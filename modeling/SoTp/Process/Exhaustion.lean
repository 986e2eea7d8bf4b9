/-
Waiting on a semaphore when there is no memory for the queue node.

`fifoQueue` says whether it had memory, but `waitSemaphore` does not ask: it blocks its
caller in either case.

* `waitSemaphore_total` — a wait ends.
* `unrecorded_asleep` — who is BLOCKED and recorded nowhere is never woken.
* `wait_sound_iff` — when a wait acquires a unit, queues its caller or refuses.
-/

import SoTp.Process.Units

namespace SoTp.Process

open SoTp.Lib Kernel

/-- The caller goes on as it was. -/
structure GoesOn (k k' : Kernel) : Prop where
  current : k'.currentPCB = k.currentPCB
  states : k'.stateOf = k.stateOf

/-- What a wait may end in: a unit, a place in the queue, or a refusal. -/
def WaitsSoundly (semId : Nat) (k k' : Kernel) (acquired : Bool) : Prop :=
  (acquired = true ∧ k'.valueOf semId + 1 = k.valueOf semId ∧ GoesOn k k') ∨
    (k'.stateOf k.currentPCB = .blocked ∧ k.currentPCB ∈ k'.queueOf semId) ∨
    (acquired = false ∧ k'.semArray[semId]? = k.semArray[semId]? ∧ GoesOn k k')

/-- If it is BLOCKED, destroying the semaphore wakes it. -/
def Wakeable (semId p : Nat) (k : Kernel) : Prop :=
  k.stateOf p = .blocked → ∀ fuel r, k.destroySemaphore fuel semId = .ok r → r.1.stateOf p = .ready

section Exhaustion

variable {strict : Prop} {k k' : Kernel} {semId p : Nat} {node : Bool}

theorem waitSemaphore_total (i : Inv strict k) (busy : ¬ k.idle) (semId : Nat) (node : Bool) :
    ∃ n r, ∀ fuel, n < fuel → k.waitSemaphore fuel semId node = .ok r := by
  unfold waitSemaphore
  cases found : k.semArray[semId]? with
  | none => exact ⟨0, (k, false), fun _ _ => rfl⟩
  | some sem =>
      simp only
      split_ifs with gone unit
      · exact ⟨0, (k, false), fun _ _ => rfl⟩
      · exact ⟨0, _, fun _ _ => rfl⟩
      · have alive : sem.destroyed = false := by simpa using gone
        have mid :
            Mid strict ((k.fifoQueue semId k.currentPCB node).setState k.currentPCB .blocked) := by
          cases node with
          | true =>
              have edits : Edits strict (fun _ => True) k _ :=
                (queue_blocked i.toMid i.current found
                alive).edits i.toMid i.current busy fun _ _ => trivial
              exact edits.mid
          | false => exact (setState_blocked i.toMid i.current busy fun _ => True).mid
        obtain ⟨n, returns⟩ := contextSwitch_total mid.ring mid.sched
        obtain ⟨k', switch, -⟩ := returns (n + 1) (Nat.lt_succ_self n)
        refine ⟨n, (k', true), fun fuel enough => ?_⟩
        have current : (k.fifoQueue semId k.currentPCB node).currentPCB = k.currentPCB := by
          cases node <;> rfl
        rw [blockCurrentProcess, current, contextSwitch_mono (by omega) switch]
        rfl

theorem Mid.lt_unused (m : Mid strict k) (alive : k.stateOf p ≠ .exited) : p < k.unused := by
  obtain ⟨_, _, _, ring, _⟩ := m.ring
  exact (ring.members p (m.allocated alive)).1

theorem Waiting.not_exited {s : State} (w : Waiting s) : s ≠ .exited := by
  rcases w with rfl | rfl <;> simp

/-- Only the running process gets recorded, so who sleeps without a record is not woken by
anything that happens later. -/
theorem unrecorded_asleep {admits : Kernel → Op → Prop} (i : Inv False k)
    (asleep : Waiting (k.stateOf p))
    (nowhere : ∀ slot, p ∉ k.entries slot) (run : Relation.ReflTransGen (Step admits) k k') :
    ¬ Active (k'.stateOf p) := by
  have all : Inv False k' ∧ p < k'.unused ∧ (∀ slot, p ∉ k'.entries slot) ∧
      (Waiting (k'.stateOf p) ∨ k'.stateOf p = .exited) := by
    induction run with
    | refl => exact ⟨i, i.lt_unused asleep.not_exited, nowhere, Or.inl asleep⟩
    | @tail b _ _ step ih =>
        obtain ⟨op, -, trans⟩ := step
        obtain ⟨i, lt, nowhere, spent⟩ := ih
        have effect := trans.effect i
        have other : p ≠ b.currentPCB := by
          rintro rfl
          exact spent.elim i.current.active.1 i.current.active.2
        refine ⟨effect.inv i, Nat.lt_of_lt_of_le lt effect.moves.unused,
          fun slot mem => nowhere slot (effect.kept i other mem), ?_⟩
        rcases spent with waiting | exited
        · have away : Away (b.Touches op) b p := fun slot mem => absurd mem (nowhere slot)
          rcases effect.members i waiting away with same | ⟨-, killed⟩ | dead
          · exact Or.inl (same ▸ waiting)
          · exact Or.inl (Or.inr killed)
          · exact Or.inr dead
        · exact Or.inr (effect.moves.dead p lt exited)
  rintro ⟨awake, alive⟩
  exact all.2.2.2.elim awake alive

/-- A wait acquires a unit, queues its caller or refuses, unless it finds no unit and no
memory for the queue node; then its caller is BLOCKED and recorded nowhere. -/
theorem Inv.wait_sound_or_lost {r : Kernel × Bool} {fuel : Nat} (i : Inv False k) (busy : ¬ k.idle)
    (run : k.waitSemaphore fuel semId node = .ok r) :
    (WaitsSoundly semId k r.1 r.2 ↔ ¬ k.Live semId ∨ 0 < k.valueOf semId ∨ node = true) ∧
      (¬ WaitsSoundly semId k r.1 r.2 → r.1.stateOf k.currentPCB = .blocked ∧
        ∀ slot, k.currentPCB ∉ r.1.entries slot) := by
  by_cases live : k.Live semId
  · have acquired : r.2 = true := by
      obtain ⟨sem, found, alive⟩ := live.getElem?
      unfold waitSemaphore at run
      rw [found] at run
      simp only [alive, Bool.false_eq_true, if_false] at run
      split_ifs at run
      · cases run
        rfl
      · obtain ⟨k', -, rest⟩ := bind_ok_iff.mp run
        cases rest
        rfl
    cases waitSemaphore_spec i busy live run with
    | taken unit value _ _ states current =>
        have sound : WaitsSoundly semId k r.1 r.2 :=
          Or.inl ⟨acquired, by omega, current, states⟩
        exact ⟨iff_of_true sound (Or.inr (Or.inl unit)), fun unsound => absurd sound unsound⟩
    | queued none value queue _ blocked recorded _ =>
        have unqueued : k.currentPCB ∉ k.queueOf semId :=
          i.current_unrecorded i.current (.queue semId)
        cases node with
        | true =>
            have sound : WaitsSoundly semId k r.1 r.2 :=
              Or.inr (Or.inl ⟨blocked, by rw [queue]; simp⟩)
            exact ⟨iff_of_true sound (Or.inr (Or.inr rfl)), fun unsound => absurd sound unsound⟩
        | false =>
            have absent : k.currentPCB ∉ r.1.queueOf semId := by
              rw [queue]
              simpa using unqueued
            have awake : k.stateOf k.currentPCB ≠ .blocked := fun e => i.current.active.1 (Or.inl e)
            have unsound : ¬ WaitsSoundly semId k r.1 r.2 := by
              rintro (⟨-, less, -⟩ | ⟨-, mem⟩ | ⟨-, -, goes⟩)
              · omega
              · exact absent mem
              · rw [goes.states] at blocked
                exact awake blocked
            refine ⟨iff_of_false unsound ?_, fun _ => ⟨blocked, fun slot mem => ?_⟩⟩
            · rintro (dead | unit | memory)
              · exact dead live
              · omega
              · cases memory
            · obtain rfl := recorded slot mem
              exact absent mem
  · have refused : r = (k, false) := by
      unfold waitSemaphore at run
      cases found : k.semArray[semId]? with
      | none =>
          rw [found] at run
          cases run
          rfl
      | some sem =>
          have gone : sem.destroyed = true := by simpa [Live, found] using live
          rw [found] at run
          simp only [gone, if_true] at run
          cases run
          rfl
    subst refused
    have sound : WaitsSoundly semId k k false := Or.inr (Or.inr ⟨rfl, rfl, rfl, rfl⟩)
    exact ⟨iff_of_true sound (Or.inl live), fun unsound => absurd sound unsound⟩

/-- The kernel invariant holds after a wait. -/
theorem Inv.waited {r : Kernel × Bool} {fuel : Nat} (i : Inv False k) (busy : ¬ k.idle)
    (run : k.waitSemaphore fuel semId node = .ok r) : Inv False r.1 := by
  have trans : Trans k (.waitSemaphore semId node) r.1 := ⟨busy, fuel, by rw [exec, run]; rfl⟩
  exact (trans.effect i).inv i

end Exhaustion

/-- A wait ends. It acquires a unit, leaves its caller BLOCKED in the queue or refuses,
and a caller that it blocks can be woken, if and only if there is no such semaphore, it
has a unit, or there is memory for the queue node. If not, the caller is never woken,
whatever the kernel does later. -/
theorem wait_sound_iff {k : Kernel} (reach : Reach (fun _ _ => True) k) (busy : ¬ k.idle)
    (semId : Nat) (node : Bool) : ∃ n k' acquired,
    (∀ fuel, n < fuel → k.waitSemaphore fuel semId node = .ok (k', acquired)) ∧
      (WaitsSoundly semId k k' acquired ∧ Wakeable semId k.currentPCB k' ↔
        ¬ k.Live semId ∨ 0 < k.valueOf semId ∨ node = true) ∧
      (¬ WaitsSoundly semId k k' acquired →
        ∀ k'', Relation.ReflTransGen (Step fun _ _ => True) k' k'' →
        ¬ Active (k''.stateOf k.currentPCB)) := by
  have i : Inv False k := reach.sound
  obtain ⟨n, ⟨k', acquired⟩, returns⟩ := waitSemaphore_total i busy semId node
  have run := returns (n + 1) (Nat.lt_succ_self n)
  have after : Inv False k' := i.waited busy run
  obtain ⟨sound, lost⟩ := i.wait_sound_or_lost busy run
  refine ⟨n, k', acquired, returns, ⟨fun h => sound.mp h.1, fun holds => ⟨sound.mpr holds, ?_⟩⟩, ?_⟩
  · intro blocked fuel r destroyed
    have queued : k.currentPCB ∈ k'.queueOf semId := by
      rcases sound.mpr holds with ⟨-, -, goes⟩ | ⟨-, queued⟩ | ⟨-, -, goes⟩
      · rw [goes.states] at blocked
        exact absurd (Or.inl blocked) i.current.active.1
      · exact queued
      · rw [goes.states] at blocked
        exact absurd (Or.inl blocked) i.current.active.1
    exact destroySemaphore_wakes after destroyed queued blocked
  · intro unsound k'' later
    obtain ⟨blocked, nowhere⟩ := lost unsound
    exact unrecorded_asleep after (Or.inl blocked) nowhere later

/-- `init` has made a semaphore that has no units. -/
def emptySemaphore : Kernel := ((boot 0 0 0).semInit 0).1

theorem emptySemaphore_reach : Reach (fun _ _ => True) emptySemaphore :=
  have made : Trans (boot 0 0 0) (.semInit 0) emptySemaphore := ⟨by decide, 0, rfl⟩
  Reach.step ⟨0, 0, 0, .refl⟩ trivial made

theorem wait_sound_queued : ∃ k' acquired, emptySemaphore.valueOf 0 = 0 ∧
    WaitsSoundly 0 emptySemaphore k' acquired := by
  obtain ⟨-, k', acquired, -, sound, -⟩ := wait_sound_iff emptySemaphore_reach (by decide) 0 true
  exact ⟨k', acquired, by decide, (sound.mpr (Or.inr (Or.inr rfl))).1⟩

/-- Without memory for the queue node `init` is told that it holds a unit, and never
gets to know. -/
theorem wait_asleep_for_ever : ∃ k k' : Kernel, Reach (fun _ _ => True) k ∧ ¬ k.idle ∧
    k.waitSemaphore 40 0 false = .ok (k', true) ∧ ¬ WaitsSoundly 0 k k' true ∧
      ∀ k'', Relation.ReflTransGen (Step fun _ _ => True) k' k'' →
        ¬ Active (k''.stateOf k.currentPCB) := by
  have i : Inv False emptySemaphore := emptySemaphore_reach.sound
  have returned : (emptySemaphore.waitSemaphore 40 0 false).toOption.map Prod.snd = some true := by
    decide +kernel
  obtain ⟨⟨k', acquired⟩, ran, told⟩ := Option.map_eq_some_iff.mp returned
  obtain rfl : acquired = true := told
  have run : emptySemaphore.waitSemaphore 40 0 false = .ok (k', true) := by
    cases e : emptySemaphore.waitSemaphore 40 0 false with
    | error x =>
        rw [e] at ran
        cases ran
    | ok r =>
        rw [e] at ran
        cases ran
        rfl
  have busy : ¬ emptySemaphore.idle := by decide
  obtain ⟨sound, lost⟩ := i.wait_sound_or_lost busy run
  have unsound : ¬ WaitsSoundly 0 emptySemaphore k' true := fun h => by
    rcases sound.mp h with dead | unit | memory
    · exact dead rfl
    · exact absurd unit (by decide)
    · cases memory
  obtain ⟨blocked, nowhere⟩ := lost unsound
  exact ⟨_, k', emptySemaphore_reach, busy, run, unsound,
    fun k'' later => unrecorded_asleep (i.waited busy run) (Or.inl blocked) nowhere later⟩

end SoTp.Process
