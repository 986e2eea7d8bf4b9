/-
How often a wait reports a unit, from the creation of a semaphore to the next use of its id.

A wait that finds a unit returns true at once, and one that blocks returns true when its
caller runs again, whoever woke it: a post hands over a unit, `destroySemaphore` has none
to hand over.

* `Life` — the states of a semaphore's life, with what was posted and reported.
* `reported_bounded` — no more units are reported than there were, as long as nobody
  waits when the semaphore is destroyed.
-/

import SoTp.Process.Units

namespace SoTp.Process

open SoTp.Lib Kernel

instance (k : Kernel) (semId : Nat) : Decidable (k.Live semId) := by
  unfold Live
  infer_instance

/-! ### The reports -/

/-- The posts, also those to a destroyed semaphore, who was woken from the queue and has
not run since, and the waits that returned true. -/
structure Ledger where
  posted : Nat
  ready : List Nat
  returned : Nat

/-- A wait that returns true without blocking. -/
def reportsAtOnce (semId : Nat) (k : Kernel) : Op → Nat
  | .waitSemaphore s _ => if s = semId ∧ k.Live semId ∧ 0 < k.valueOf semId then 1 else 0
  | _ => 0

/-- Whoever runs again returns from its wait, with true. -/
def Ledger.next (semId : Nat) (k : Kernel) (op : Op) (k' : Kernel) (l : Ledger) : Ledger :=
  let ready := l.ready ++ woken semId k k'
  { posted := l.posted + unitsPosted semId op
    ready := ready.filter fun p => k'.stateOf p ≠ .running
    returned := l.returned + reportsAtOnce semId k op +
      (ready.filter fun p => k'.stateOf p = .running).length }

/-- The operation makes a new semaphore under the id. -/
def Reuses (semId : Nat) (k : Kernel) : Op → Prop
  | .semInit v => (k.semInit v).2 = semId
  | _ => False

instance (semId : Nat) (k : Kernel) (op : Op) : Decidable (Reuses semId k op) :=
  match op with
  | .semInit v => Nat.decEq (k.semInit v).2 semId
  | .createProcess .. | .exit _ | .kill _ | .waitPid _ | .sleep .. | .waitSemaphore ..
  | .postSemaphore _ | .destroySemaphore _ | .blockByUser _ | .unblock _ | .changePriority ..
  | .yield | .timerTick | .reschedule | .ctrlC | .userCode .. => .isFalse id

/-- The states since `semInit` has made the semaphore, up to the `semInit` that uses its
id again. -/
inductive Life (admits : Kernel → Op → Prop) (semId initialValue : Nat) : Kernel → Ledger → Prop
  | created {k : Kernel} (reach : Reach (fun _ _ => True) k) (busy : ¬ k.idle)
      (id : (k.semInit initialValue).2 = semId) :
      Life admits semId initialValue (k.semInit initialValue).1 ⟨0, [], 0⟩
  | step {k k' : Kernel} {op : Op} {l : Ledger} (before : Life admits semId initialValue k l)
      (ok : admits k op) (same : ¬ Reuses semId k op) (trans : Trans k op k') :
        Life admits semId initialValue k' (l.next semId k op k')

/-- Nobody waits when the semaphore is destroyed. -/
def Unwaited (semId : Nat) (k : Kernel) (op : Op) : Prop :=
  op = .destroySemaphore semId → ∀ p ∈ k.queueOf semId, k.stateOf p ≠ .blocked

section Life

variable {admits : Kernel → Op → Prop} {semId initialValue posted acquired : Nat} {k k' : Kernel}
  {op : Op} {l : Ledger}

theorem Life.reach (life : Life admits semId initialValue k l) : Reach (fun _ _ => True) k := by
  induction life with
  | created reach busy _ =>
      have trans : Trans _ (.semInit initialValue) _ := ⟨busy, 0, rfl⟩
      exact reach.step trivial trans
  | step _ _ _ trans ih => exact ih.step trivial trans

/-- The reports made and still to be made, after one operation. -/
theorem Ledger.next_total : (l.next semId k op k').returned + (l.next semId k op k').ready.length =
    l.returned + l.ready.length + (reportsAtOnce semId k op + (woken semId k k').length) := by
  have split := List.length_eq_length_filter_add (l := l.ready ++ woken semId k k')
    fun p => decide (k'.stateOf p = .running)
  rw [List.length_append] at split
  have rest : (l.ready ++ woken semId k k').filter (fun p => !decide (k'.stateOf p = .running)) =
      (l.ready ++ woken semId k k').filter fun p => k'.stateOf p ≠ .running := by
    simp
  rw [rest] at split
  simp only [Ledger.next]
  omega

/-! ### A destroyed semaphore -/

theorem semInit_other (other : (k.semInit initialValue).2 ≠ semId) :
    (k.semInit initialValue).1.semArray[semId]? = k.semArray[semId]? := by
  unfold semInit at other ⊢
  cases last : k.freedPositions.getLast? with
  | some freeToUseSem =>
      rw [last] at other
      exact List.getElem?_set_ne other
  | none =>
      rw [last] at other
      change (k.semArray ++ [_])[semId]? = _
      change k.semArray.length ≠ semId at other
      rcases Nat.lt_or_gt_of_ne other with beyond | within
      · rw [List.getElem?_eq_none (l := k.semArray) (by omega), List.getElem?_eq_none]
        rw [List.length_append, List.length_singleton]
        omega
      · rw [List.getElem?_append_left within]

theorem destroySemaphore_dead {fuel : Nat} {r : Kernel × Bool} (i : Inv False k)
    (run : k.destroySemaphore fuel semId = .ok r) : ¬ r.1.Live semId := by
  unfold destroySemaphore at run
  cases found : k.semArray[semId]? with
  | none =>
      rw [found] at run
      cases run
      simp [Live, found]
  | some sem =>
      rw [found] at run
      simp only at run
      split_ifs at run with gone
      · cases run
        simp [Live, found, gone]
      · obtain ⟨out, looped, rest⟩ := bind_ok_iff.mp run
        rw [(destroyLoop_spec i.toMid i.current looped).1] at rest
        cases rest
        change ¬ (out.kernel.updateSem semId _).semArray[semId]?.map Semaphore.destroyed =
          some false
        rw [updateSem_getElem?, if_pos rfl]
        cases out.kernel.semArray[semId]? <;> simp

/-- What is said to a destroyed semaphore changes nothing. -/
theorem dead_refuses (dead : ¬ k.Live semId) (fuel : Nat) (node : Bool) :
    k.waitSemaphore fuel semId node = .ok (k, false) ∧ k.postSemaphore fuel semId = .ok (k, false) ∧
      k.destroySemaphore fuel semId = .ok (k, false) := by
  unfold waitSemaphore postSemaphore destroySemaphore
  cases found : k.semArray[semId]? with
  | none => exact ⟨rfl, rfl, rfl⟩
  | some sem =>
      have gone : sem.destroyed = true := by simpa [Live, found] using dead
      simp [gone]

/-- A destroyed semaphore stays so until its id is used again. -/
theorem stays_dead (i : Inv False k) (dead : ¬ k.Live semId)
    (same : ¬ Reuses semId k op) (trans : Trans k op k') : ¬ k'.Live semId := by
  by_cases about : k.Touches op (.sem semId)
  · obtain ⟨-, fuel, run⟩ := trans
    cases op with
    | semInit v =>
        cases run
        rw [(sem_congr (semInit_other same)).2]
        exact dead
    | waitSemaphore s node =>
        obtain rfl : semId = s := about
        rw [exec, (dead_refuses dead fuel node).1] at run
        cases run
        exact dead
    | postSemaphore s =>
        obtain rfl : semId = s := about
        rw [exec, (dead_refuses dead fuel false).2.1] at run
        cases run
        exact dead
    | destroySemaphore s =>
        obtain rfl : semId = s := about
        rw [exec, (dead_refuses dead fuel false).2.2] at run
        cases run
        exact dead
    | _ => exact absurd about id
  · rw [((trans.effect i).quiet_sem i about).1.live]
    exact dead

/-- Nobody gets a unit of a destroyed semaphore. -/
theorem dead_reports (i : Inv False k) (dead : ¬ k.Live semId) :
    reportsAtOnce semId k op = 0 ∧ woken semId k k' = [] := by
  have empty : k.queueOf semId = [] := by
    cases found : k.semArray[semId]? with
    | none => simp [queueOf, found]
    | some sem =>
        rw [queueOf_some found]
        exact i.ids.closed semId sem found (by simpa [Live, found] using dead)
  refine ⟨?_, by simp [woken, empty]⟩
  cases op with
  | waitSemaphore s node => exact if_neg fun h => dead h.2.1
  | _ => rfl

/-! ### The bound -/

/-- The units of a semaphore that may have lost some to an overflow of its value. -/
structure Bounded (semId initialValue posted acquired : Nat) (k : Kernel) : Prop where
  bound : acquired ≤ initialValue + posted
  units : k.Live semId → ∃ lost, Counted semId initialValue posted (acquired + lost) k

theorem Bounded.of_counted {lost : Nat}
    (c : Counted semId initialValue posted (acquired + lost) k) :
    Bounded semId initialValue posted acquired k := by
  have units := c.units
  exact ⟨by omega, fun _ => ⟨lost, c⟩⟩

/-- A post to a value that is as large as it can be loses units. -/
theorem Counted.overflow (c : Counted semId initialValue posted acquired k)
    (p : Posted False semId k k') (full : ¬ k.valueOf semId + 1 < 2 ^ 32) :
    woken semId k k' = [] ∧ ∃ lost, Counted semId initialValue (posted + 1)
      (acquired + lost) k' := by
  have empty := c.empty (by omega)
  have asleep : woken semId k k' = [] := by simp [woken, empty]
  rcases p.unit with ⟨killed, q, rest, queue, -⟩ | ⟨-, left, value⟩
  · rw [empty] at queue
    simp at queue
  · have units := c.units
    have less := Nat.mod_le (k.valueOf semId + 1) (2 ^ 32)
    rw [← value] at less
    exact ⟨asleep, k.valueOf semId + 1 - k'.valueOf semId, p.live.mpr c.live, by omega,
      fun _ => left⟩

theorem Bounded.post {told : Nat} (i : Inv False k)
    (b : Bounded semId initialValue posted acquired k) (live : k.Live semId)
    (trans : Trans k (.postSemaphore semId) k')
    (count : told = (woken semId k k').length) :
    Bounded semId initialValue (posted + 1) (acquired + told) k' := by
  obtain ⟨lost, c⟩ := b.units live
  have p := posted_of_trans i live trans
  by_cases bound : k.valueOf semId + 1 < 2 ^ 32
  · have counted := c.post (p.live.mpr live) (p.handsOver bound)
    rw [unitsTaken, show unitsAtOnce semId k (.postSemaphore semId) = 0 from rfl,
      Nat.zero_add, ← count, Nat.add_right_comm] at counted
    exact .of_counted counted
  · obtain ⟨asleep, more, counted⟩ := c.overflow p bound
    rw [count, asleep]
    rw [Nat.add_assoc] at counted
    exact .of_counted counted

/-- Destroying a semaphore for which nobody waits. -/
theorem Bounded.destroy (i : Inv False k) (b : Bounded semId initialValue posted acquired k)
    (unwaited : ∀ p ∈ k.queueOf semId, k.stateOf p ≠ .blocked)
    (trans : Trans k (.destroySemaphore semId) k') :
    woken semId k k' = [] ∧ Bounded semId initialValue posted acquired k' := by
  obtain ⟨-, fuel, run⟩ := trans
  obtain ⟨r, ran, rfl⟩ := map_ok_iff.mp run
  exact ⟨woken_none fun p hp blocked => absurd blocked (unwaited p hp), b.bound,
    fun live => absurd live (destroySemaphore_dead i ran)⟩

theorem Bounded.step (i : Inv False k) (b : Bounded semId initialValue posted acquired k)
    (unwaited : Unwaited semId k op) (same : ¬ Reuses semId k op)
    (trans : Trans k op k') : Bounded semId initialValue (posted + unitsPosted semId op)
      (acquired + (reportsAtOnce semId k op + (woken semId k k').length)) k' := by
  by_cases live : k.Live semId
  · have atOnce : reportsAtOnce semId k op = unitsAtOnce semId k op := by
      cases op with
      | waitSemaphore s node => simp [reportsAtOnce, unitsAtOnce, live]
      | _ => rfl
    rw [atOnce]
    by_cases destroys : op = .destroySemaphore semId
    · subst destroys
      obtain ⟨asleep, bounded⟩ := b.destroy i (unwaited rfl) trans
      rw [asleep]
      exact bounded
    · by_cases about : k.Touches op (.sem semId)
      · rcases touches_sem live destroys about with ⟨node, rfl⟩ | rfl
        · obtain ⟨lost, c⟩ := b.units live
          have counted := c.wait i (waited_of_trans i live trans)
          rw [Nat.add_right_comm] at counted
          exact .of_counted counted
        · rw [show unitsPosted semId (.postSemaphore semId) = 1 from if_pos rfl]
          exact b.post i live trans (Nat.zero_add _)
      · obtain ⟨lost, c⟩ := b.units live
        have counted := c.other i (trans.effect i) about
        rw [Nat.add_right_comm] at counted
        exact .of_counted counted
  · have none : reportsAtOnce semId k op = 0 ∧ woken semId k k' = [] := dead_reports i live
    obtain ⟨atOnce, asleep⟩ := none
    have bound := b.bound
    rw [atOnce, asleep]
    exact ⟨by simp only [List.length_nil]; omega,
      fun live' => absurd live' (stays_dead i live same trans)⟩

theorem Life.bounded (life : Life (Unwaited semId) semId initialValue k l) :
    Bounded semId initialValue l.posted (l.returned + l.ready.length) k := by
  induction life with
  | @created k reach busy id =>
      have i : Inv False k := reach.sound
      have found := semInit_found i.ids initialValue
      rw [id] at found
      have counted : Counted semId initialValue 0 (0 + 0) (k.semInit initialValue).1 :=
        ⟨by rw [Live, found]; rfl, by rw [valueOf, found]; rfl, fun _ => queueOf_some found⟩
      exact .of_counted counted
  | step before ok same trans ih =>
      rw [Ledger.next_total]
      exact ih.step (before.reach.sound) ok same trans

end Life

/-! ### The result -/

/-- The waits on a semaphore that return true are at most as many as its units and the
posts, in every run in which nobody waits when it is destroyed. -/
theorem reported_bounded {semId initialValue : Nat} {k : Kernel} {l : Ledger}
    (life : Life (Unwaited semId) semId initialValue k l) :
      l.returned ≤ initialValue + l.posted := by
  have bound := life.bounded.bound
  omega

section Reports

variable (admits : Kernel → Op → Prop) [∀ k op, Decidable (admits k op)]

/-- A list of operations, with their reports. -/
def report (semId fuel : Nat) : List Op → Kernel → Ledger → Option (Kernel × Ledger)
  | [], k, l => some (k, l)
  | op :: ops, k, l =>
      if admits k op ∧ k.Enabled op ∧ ¬ Reuses semId k op then
        match k.exec fuel op with
        | .ok k' => report semId fuel ops k' (l.next semId k op k')
        | .error _ => none
      else none

theorem report_life {semId initialValue fuel : Nat} {ops : List Op} {k k' : Kernel} {l l' : Ledger}
    (life : Life admits semId initialValue k l)
    (run : report admits semId fuel ops k l = some (k', l')) :
    Life admits semId initialValue k' l' := by
  induction ops generalizing k l with
  | nil =>
      cases run
      exact life
  | cons op ops ih =>
      unfold report at run
      split_ifs at run with can
      cases ran : k.exec fuel op with
      | error _ =>
          rw [ran] at run
          cases run
      | ok next =>
          rw [ran] at run
          exact ih (life.step can.1 can.2.2 ⟨can.2.1, fuel, ran⟩) run

end Reports

instance (semId : Nat) (k : Kernel) (op : Op) : Decidable (Unwaited semId k op) :=
  match op with
  | .destroySemaphore s =>
      decidable_of_iff (s = semId → ∀ p ∈ k.queueOf semId, k.stateOf p ≠ .blocked)
        (by simp only [Unwaited, Op.destroySemaphore.injEq])
  | .createProcess .. | .exit _ | .kill _ | .waitPid _ | .sleep .. | .semInit _ | .waitSemaphore ..
  | .postSemaphore _ | .blockByUser _ | .unblock _ | .changePriority .. | .yield | .timerTick
  | .reschedule | .ctrlC | .userCode .. => .isTrue (by simp [Unwaited])

/-- `init` takes the only unit, a second process waits for it, gets it from a post and
posts it again; then nobody waits, and the semaphore is destroyed. -/
theorem reported_bounded_passed : ∃ l : Ledger, l.returned = 2 ∧ l.returned ≤ 1 + l.posted := by
  have created : Life (Unwaited 0) 0 1 ((boot 0 0 0).semInit 1).1 ⟨0, [], 0⟩ :=
    .created ⟨0, 0, 0, .refl⟩ (by decide) rfl
  have ran : (report (Unwaited 0) 0 40 [.createProcess ⟨true, true, true, true, true⟩ 0 0,
      .waitSemaphore 0 true, .yield, .waitSemaphore 0 true, .postSemaphore 0, .yield,
      .postSemaphore 0, .destroySemaphore 0] ((boot 0 0 0).semInit 1).1 ⟨0, [], 0⟩).map
      (fun s => s.2.returned) = some 2 := by decide +kernel
  obtain ⟨⟨k, l⟩, run, returned⟩ := Option.map_eq_some_iff.mp ran
  exact ⟨l, returned, reported_bounded (report_life _ created run)⟩

/-- `init` holds the only unit and destroys the semaphore while a process waits for it. -/
def destroyedWaiter : List Op :=
  [.createProcess ⟨true, true, true, true, true⟩ 0 0, .waitSemaphore 0 true, .yield,
    .waitSemaphore 0 true, .destroySemaphore 0, .yield]

/-- Both waits on a binary semaphore return true. -/
theorem both_hold_it : ∃ k l, Life (fun _ _ => True) 0 1 k l ∧ ¬ l.returned ≤ 1 + l.posted := by
  have created : Life (fun _ _ => True) 0 1 ((boot 0 0 0).semInit 1).1 ⟨0, [], 0⟩ :=
    .created ⟨0, 0, 0, .refl⟩ (by decide) rfl
  have ran :
      (report (fun _ _ => True) 0 40 destroyedWaiter ((boot 0 0 0).semInit 1).1 ⟨0, [], 0⟩).map
      (fun s => (s.2.returned, s.2.posted)) = some (2, 0) := by decide +kernel
  obtain ⟨⟨k, l⟩, run, counts⟩ := Option.map_eq_some_iff.mp ran
  simp only [Prod.mk.injEq] at counts
  exact ⟨k, l, report_life _ created run, by omega⟩

end SoTp.Process
