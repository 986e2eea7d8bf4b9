/-
A semaphore counts units. A post hands its unit to a waiter or adds it to the
value; a wait takes one from the value or queues up for one. Nothing else moves
units, whatever else the kernel does, and a waiter that is killed gets none.

* `waitSemaphore_spec` — what a wait does to its semaphore.
* `Effect.quiet_sem` — other operations leave a semaphore and its queue alone.
* `units_conserved` — the law of the units along a run.
-/

import SoTp.Process.Death

namespace SoTp.Process

open SoTp.Lib Kernel

instance : DecidablePred Waiting := fun s => by unfold Waiting; infer_instance

instance : DecidablePred Active := fun s => by unfold Active; infer_instance

/-! ### A semaphore over one operation -/

section Semaphore

variable {strict : Prop} {k k' : Kernel} {semId : Nat} {op : Op}

/-- The view of one semaphore. -/
structure SameSem (semId : Nat) (k k' : Kernel) : Prop where
  value : k'.valueOf semId = k.valueOf semId
  queue : k'.queueOf semId = k.queueOf semId
  live : k'.Live semId ↔ k.Live semId

theorem SameSem.of_eq (same : k'.semArray[semId]? = k.semArray[semId]?) : SameSem semId k k' :=
  ⟨(sem_congr same).1, queueOf_congr same, (sem_congr same).2⟩

theorem Switched.sameSem (s : Switched k k') (semId : Nat) : SameSem semId k k' :=
  .of_eq (by rw [s.selects.semArray])

/-- A process in a queue is recorded nowhere else. -/
theorem Inv.queued_away (i : Inv strict k) {p : Nat} (hp : p ∈ k.queueOf semId)
    {touched : Subject → Prop} (about : ¬ touched (.sem semId)) : Away touched k p :=
      fun slot mem =>
  ⟨semId, i.records.once slot (.queue semId) p mem hp, about⟩

/-- A BLOCKED process becomes neither READY nor RUNNING while it is away from what an
operation is about. -/
theorem Effect.not_woken (i : Inv strict k) (e : Effect strict k op k') {p : Nat}
    (w : Waiting (k.stateOf p)) (away : Away (k.Touches op) k p) : ¬ Active (k'.stateOf p) := by
  rintro ⟨active, alive⟩
  rcases e.members i w away with same | ⟨-, killed⟩ | dead
  · exact active (same ▸ w)
  · exact active (Or.inr killed)
  · exact alive dead

/-- What an operation that is not about a semaphore does to it. -/
theorem Effect.quiet_sem (i : Inv strict k) (e : Effect strict k op k')
    (about : ¬ k.Touches op (.sem semId)) : SameSem semId k k' ∧
      ∀ p ∈ k.queueOf semId, k.stateOf p = .blocked → ¬ Active (k'.stateOf p) :=
  ⟨.of_eq (e.moves.sems semId about), fun _ hp blocked =>
    e.not_woken i (Or.inl blocked) (i.queued_away hp about)⟩

/-- What a wait does: it takes a unit, or the running process joins the queue. -/
inductive Waited (semId : Nat) (node : Bool) (k : Kernel) : Kernel → Prop
  | taken {k' : Kernel} (unit : 0 < k.valueOf semId)
      (value : k'.valueOf semId = k.valueOf semId - 1)
      (queue : k'.queueOf semId = k.queueOf semId) (live : k'.Live semId)
      (states : k'.stateOf = k.stateOf) (current : k'.currentPCB = k.currentPCB) :
      Waited semId node k k'
  | queued {k' : Kernel} (none : k.valueOf semId = 0) (value : k'.valueOf semId = 0)
      (queue : k'.queueOf semId = k.queueOf semId ++ if node then [k.currentPCB] else [])
      (live : k'.Live semId) (blocked : k'.stateOf k.currentPCB = .blocked)
      (recorded : ∀ slot, k.currentPCB ∈ k'.entries slot → slot = .queue semId)
      (others : ∀ p, p ≠ k.currentPCB → k'.stateOf p = k.stateOf p ∨
        Awake (k.stateOf p) ∧ Awake (k'.stateOf p)) : Waited semId node k k'

theorem waitSemaphore_spec {fuel : Nat} {node : Bool} {r : Kernel × Bool} (i : Inv strict k)
    (busy : ¬ k.idle) (live : k.Live semId)
    (run : k.waitSemaphore fuel semId node = .ok r) : Waited semId node k r.1 := by
  obtain ⟨sem, found, alive⟩ := live.getElem?
  have value : k.valueOf semId = sem.value := by rw [valueOf, found]; rfl
  unfold waitSemaphore at run
  rw [found] at run
  simp only [alive, Bool.false_eq_true, if_false] at run
  split_ifs at run with unit
  · cases run
    have here :
        (k.updateSem semId fun sem => { sem with value := sem.value - 1 }).semArray[semId]? =
        some { sem with value := sem.value - 1 } := by
      rw [updateSem_getElem?, if_pos rfl, found]
      rfl
    refine .taken (by omega) ?_ ?_ ?_ rfl rfl
    · rw [valueOf, here, value]
      rfl
    · rw [queueOf_some here, queueOf_some found]
    · rw [Live, here]
      exact congrArg some alive
  · obtain ⟨k', switch, rest⟩ := bind_ok_iff.mp run
    cases rest
    generalize queued : k.fifoQueue semId k.currentPCB node = k₁ at switch
    have same : k₁.stateOf = k.stateOf ∧ k₁.currentPCB = k.currentPCB := by
      rw [← queued]
      unfold fifoQueue
      split_ifs <;> exact ⟨rfl, rfl⟩
    have mid : Mid strict (k₁.setState k.currentPCB .blocked) := by
      cases node with
      | true =>
          have edits : Edits strict (fun _ => True) k _ := (queue_blocked i.toMid i.current found
            alive).edits i.toMid i.current busy fun _ _ => trivial
          exact queued ▸ edits.mid
      | false => exact queued ▸ (setState_blocked i.toMid i.current busy fun _ => True).mid
    rw [blockCurrentProcess, same.2] at switch
    have switched := contextSwitch_of_ok mid.ring mid.sched switch
    have view := switched.sameSem semId
    obtain ⟨sem', found', value', alive', queue'⟩ : ∃ sem', k₁.semArray[semId]? = some sem' ∧
        sem'.value = sem.value ∧ sem'.destroyed = false ∧
        sem'.queue.toList = sem.queue.toList ++ if node then [k.currentPCB] else [] := by
      rw [← queued]
      cases node with
      | true =>
          refine ⟨{ sem with queue := sem.queue.push k.currentPCB }, ?_, rfl, alive,
            Fifo.toList_push _ _⟩
          rw [fifoQueue, if_pos rfl, updateSem_getElem?, if_pos rfl, found]
          rfl
      | false => exact ⟨sem, found, rfl, alive, (List.append_nil _).symm⟩
    refine .queued (by omega) ?_ ?_ ?_ ?_ (fun slot hp => ?_) fun p ne => ?_
    · rw [view.value, valueOf]
      change (k₁.semArray[semId]?.map Semaphore.value).getD 0 = 0
      rw [found']
      exact value'.trans (by omega)
    · rw [view.queue, queueOf_some (k := k₁.setState k.currentPCB .blocked) found',
        queueOf_some found]
      exact queue'
    · rw [view.live, Live]
      change k₁.semArray[semId]?.map Semaphore.destroyed = some false
      rw [found']
      exact congrArg some alive'
    · rw [switched.selects.waiting_eq (by rw [stateOf_setState_self]; exact Or.inl rfl),
        stateOf_setState_self]
    · rw [switched.selects.entries, ← queued] at hp
      have unrecorded := i.current_unrecorded i.current slot
      cases node with
      | true =>
          by_contra ne
          rw [(queue_blocked i.toMid i.current found alive).others slot ne] at hp
          exact unrecorded hp
      | false => exact absurd (setState_blocked_entries i.current.active.2 slot ▸ hp) unrecorded
    · have states := switched.selects.states p
      rwa [stateOf_setState_ne ne, same.1] at states

end Semaphore

/-! ### The units of a semaphore -/

/-- The unit a wait takes at once. -/
def unitsAtOnce (semId : Nat) (k : Kernel) : Op → Nat
  | .waitSemaphore s _ => if s = semId ∧ 0 < k.valueOf semId then 1 else 0
  | _ => 0

/-- The waiters that get a unit handed to them: they were BLOCKED and are woken. -/
def woken (semId : Nat) (k k' : Kernel) : List Nat :=
  (k.queueOf semId).filter fun p => k.stateOf p = .blocked ∧ Active (k'.stateOf p)

/-- The units that processes acquire in one operation. -/
def unitsTaken (semId : Nat) (k : Kernel) (op : Op) (k' : Kernel) : Nat :=
  unitsAtOnce semId k op + (woken semId k k').length

def unitsPosted (semId : Nat) : Op → Nat
  | .postSemaphore s => if s = semId then 1 else 0
  | _ => 0

/-- A post hands its unit to the first waiter that is still BLOCKED; when there is
none, the unit is added to the value. -/
def HandsOver (semId : Nat) (k k' : Kernel) : Prop :=
  (∃ killed p rest, k.queueOf semId = killed ++ p :: rest ∧ (∀ q ∈ killed, k.stateOf q ≠ .blocked) ∧
      k.stateOf p = .blocked ∧ k'.stateOf p = .ready ∧ woken semId k k' = [p] ∧
      k'.queueOf semId = rest ∧ k'.valueOf semId = k.valueOf semId) ∨
    (∀ q ∈ k.queueOf semId, k.stateOf q ≠ .blocked) ∧ woken semId k k' = [] ∧
      k'.queueOf semId = [] ∧ k'.valueOf semId = k.valueOf semId + 1

/-- The states reached since `semInit` has made the semaphore, which nobody has
destroyed and whose value did not overflow, with the units posted and acquired. -/
inductive Since (admits : Kernel → Op → Prop) (semId initialValue : Nat) : Kernel → Nat → Nat → Prop
  | created {k : Kernel} (reach : Reach admits k) (busy : ¬ k.idle)
      (ok : admits k (.semInit initialValue)) (id : (k.semInit initialValue).2 = semId) :
      Since admits semId initialValue (k.semInit initialValue).1 0 0
  | step {k k' : Kernel} {op : Op} {posted acquired : Nat}
      (before : Since admits semId initialValue k posted acquired) (ok : admits k op)
      (kept : op ≠ .destroySemaphore semId)
      (bound : op = .postSemaphore semId → k.valueOf semId + 1 < 2 ^ 32) (trans : Trans k op k') :
      Since admits semId initialValue k' (posted + unitsPosted semId op)
        (acquired + unitsTaken semId k op k')

/-- The units of a live semaphore are all accounted for. -/
structure Counted (semId initialValue posted acquired : Nat) (k : Kernel) : Prop where
  live : k.Live semId
  units : k.valueOf semId + acquired = initialValue + posted
  empty : 0 < k.valueOf semId → k.queueOf semId = []

section Units

variable {admits : Kernel → Op → Prop} {semId initialValue posted acquired : Nat} {k k' : Kernel}
  {op : Op}

theorem Since.reach (s : Since admits semId initialValue k posted acquired) : Reach admits k := by
  induction s with
  | created reach busy ok _ => exact reach.step ok ⟨busy, 0, rfl⟩
  | step _ ok _ _ trans ih => exact ih.step ok trans

theorem woken_none (asleep : ∀ p ∈ k.queueOf semId, k.stateOf p = .blocked →
    ¬ Active (k'.stateOf p)) : woken semId k k' = [] := by
  simp only [woken, List.filter_eq_nil_iff, decide_eq_true_eq, not_and]
  exact asleep

/-- A wait on the semaphore. -/
theorem Counted.wait {node : Bool} (i : Inv False k)
    (c : Counted semId initialValue posted acquired k) (w : Waited semId node k k') :
    Counted semId initialValue posted (acquired + unitsTaken semId k (.waitSemaphore semId node) k')
      k' := by
  cases w with
  | taken unit value queue live states current =>
      have taken : unitsTaken semId k (.waitSemaphore semId node) k' = 1 := by
        simp [unitsTaken, unitsAtOnce, unit, woken, c.empty unit]
      have units := c.units
      exact ⟨live, by omega, fun _ => queue.trans (c.empty unit)⟩
  | queued none value queue live blocked _ others =>
      have asleep : woken semId k k' = [] := woken_none fun p hp asleep active => by
        have other : p ≠ k.currentPCB := fun e => i.current_unrecorded i.current (.queue semId)
          (e ▸ hp)
        rcases others p other with same | ⟨awake, -⟩
        · exact active.1 (same ▸ Or.inl asleep)
        · rw [asleep] at awake
          simp [Awake] at awake
      have taken : unitsTaken semId k (.waitSemaphore semId node) k' = 0 := by
        simp [unitsTaken, unitsAtOnce, asleep, none]
      have units := c.units
      exact ⟨live, by omega, fun unit => by omega⟩

theorem Posted.handsOver (bound : k.valueOf semId + 1 < 2 ^ 32) (p : Posted False semId k k') :
    HandsOver semId k k' := by
  rcases p.unit with ⟨killed, q, rest, queue, spent, blocked, ready, left, value⟩ | ⟨spent,
    left, value⟩
  · refine Or.inl ⟨killed, q, rest, queue, spent, blocked, ready, ?_, left, value⟩
    have active : Active (k'.stateOf q) := by rw [ready]; simp [Active, Waiting]
    have first : killed.filter (fun r => k.stateOf r = .blocked ∧ Active (k'.stateOf r)) = [] := by
      simp only [List.filter_eq_nil_iff, decide_eq_true_eq]
      exact fun r hr h => spent r hr h.1
    -- Who is still in the queue was not touched.
    have last : rest.filter (fun r => k.stateOf r = .blocked ∧ Active (k'.stateOf r)) = [] := by
      simp only [List.filter_eq_nil_iff, decide_eq_true_eq]
      rintro r hr ⟨b, active⟩
      rw [p.kept r (left ▸ hr)] at active
      exact active.1 (Or.inl b)
    rw [woken, queue, List.filter_append, first,
      List.filter_cons_of_pos (by simp [blocked, active]), last]
    rfl
  · refine Or.inr ⟨spent, woken_none fun r hr b => absurd b (spent r hr), left, ?_⟩
    rw [value, Nat.mod_eq_of_lt bound]

/-- A post to the semaphore. -/
theorem Counted.post (c : Counted semId initialValue posted acquired k) (live : k'.Live semId)
    (h : HandsOver semId k k') : Counted semId initialValue (posted + 1)
      (acquired + unitsTaken semId k (.postSemaphore semId) k') k' := by
  have units := c.units
  rcases h with ⟨killed, q, rest, queue, -, -, -, one, left, value⟩ | ⟨-, none, left, value⟩
  · have taken : unitsTaken semId k (.postSemaphore semId) k' = 1 := by
      simp [unitsTaken, unitsAtOnce, one]
    refine ⟨live, by omega, fun unit => ?_⟩
    rw [c.empty (by omega)] at queue
    simp at queue
  · have taken : unitsTaken semId k (.postSemaphore semId) k' = 0 := by
      simp [unitsTaken, unitsAtOnce, none]
    exact ⟨live, by omega, fun _ => left⟩

/-- Any other operation, as long as it does not destroy the semaphore. -/
theorem Counted.other (c : Counted semId initialValue posted acquired k) (i : Inv False k)
    (e : Effect False k op k') (about : ¬ k.Touches op (.sem semId)) :
    Counted semId initialValue (posted + unitsPosted semId op) (acquired + unitsTaken semId k op k')
      k' := by
  obtain ⟨same, asleep⟩ := e.quiet_sem i about
  have taken : unitsTaken semId k op k' = 0 := by
    rw [unitsTaken, woken_none asleep]
    cases op with
    | waitSemaphore s node => exact if_neg fun ⟨h, _⟩ => about h.symm
    | _ => rfl
  have posts : unitsPosted semId op = 0 := by
    cases op with
    | postSemaphore s => exact if_neg fun h => about h.symm
    | _ => rfl
  rw [taken, posts]
  refine ⟨same.live.mpr c.live, ?_, ?_⟩
  · rw [same.value]
    exact c.units
  · rw [same.value, same.queue]
    exact c.empty

theorem touches_sem (live : k.Live semId) (kept : op ≠ .destroySemaphore semId)
    (about : k.Touches op (.sem semId)) :
    (∃ node, op = .waitSemaphore semId node) ∨ op = .postSemaphore semId := by
  cases op with
  | semInit v => exact absurd live about
  | waitSemaphore s node => exact Or.inl ⟨node, by rw [show semId = s from about]⟩
  | postSemaphore s => exact Or.inr (by rw [show semId = s from about])
  | destroySemaphore s => exact absurd (by rw [show semId = s from about]) kept
  | _ => exact absurd about id

theorem posted_of_trans (i : Inv False k) (live : k.Live semId)
    (trans : Trans k (.postSemaphore semId) k') : Posted False semId k k' := by
  obtain ⟨-, fuel, run⟩ := trans
  obtain ⟨r, ran, rfl⟩ := map_ok_iff.mp run
  rcases postSemaphore_spec i ran with ⟨dead, -⟩ | ⟨-, posted⟩
  · exact absurd live dead
  · exact posted

theorem waited_of_trans {node : Bool} (i : Inv False k) (live : k.Live semId)
    (trans : Trans k (.waitSemaphore semId node) k') : Waited semId node k k' := by
  obtain ⟨busy, fuel, run⟩ := trans
  obtain ⟨r, ran, rfl⟩ := map_ok_iff.mp run
  exact waitSemaphore_spec i busy live ran

/-- A semaphore lives until it is destroyed. -/
theorem live_of_trans (i : Inv False k) (live : k.Live semId) (kept : op ≠ .destroySemaphore semId)
    (trans : Trans k op k') : k'.Live semId := by
  by_cases about : k.Touches op (.sem semId)
  · rcases touches_sem live kept about with ⟨node, rfl⟩ | rfl
    · cases waited_of_trans i live trans <;> assumption
    · exact (posted_of_trans i live trans).live.mpr live
  · exact ((trans.effect i).quiet_sem i about).1.live.mpr live

theorem Since.counted (s : Since admits semId initialValue k posted acquired) :
    Counted semId initialValue posted acquired k := by
  induction s with
  | created reach busy ok id =>
      have i : Inv False _ := reach.sound
      have found := semInit_found i.ids initialValue
      rw [id] at found
      exact ⟨by rw [Live, found]; rfl, by rw [valueOf, found]; rfl, fun _ => queueOf_some found⟩
  | @step k k' op posted acquired before ok kept bound trans c =>
      have i : Inv False k := before.reach.sound
      by_cases about : k.Touches op (.sem semId)
      · rcases touches_sem c.live kept about with ⟨node, rfl⟩ | rfl
        · exact c.wait i (waited_of_trans i c.live trans)
        · have posts : unitsPosted semId (.postSemaphore semId) = 1 := if_pos rfl
          rw [posts]
          have p := posted_of_trans i c.live trans
          exact c.post (p.live.mpr c.live) (p.handsOver (bound rfl))
      · exact c.other i (trans.effect i) about

end Units

/-! ### The law -/

/-- The running process joins the queue. -/
def joins (semId : Nat) (k : Kernel) : Op → List Nat
  | .waitSemaphore s node => if s = semId ∧ k.valueOf semId = 0 ∧ node then [k.currentPCB] else []
  | _ => []

section Law

variable {admits : Kernel → Op → Prop} {semId initialValue posted acquired : Nat} {k k' : Kernel}
  {op : Op}

/-- Who leaves the queue leaves at its head, and who joins it joins at its end. -/
theorem Counted.queue_order (c : Counted semId initialValue posted acquired k) (i : Inv False k)
    (kept : op ≠ .destroySemaphore semId) (trans : Trans k op k') :
    ∃ n, k'.queueOf semId = (k.queueOf semId).drop n ++ joins semId k op := by
  by_cases about : k.Touches op (.sem semId)
  · rcases touches_sem c.live kept about with ⟨node, rfl⟩ | rfl
    · cases waited_of_trans i c.live trans with
      | taken unit value queue live states current =>
          refine ⟨0, ?_⟩
          rw [queue, joins, if_neg (by omega), List.append_nil]
          rfl
      | queued none value queue live blocked _ others =>
          refine ⟨0, ?_⟩
          rw [queue, joins]
          simp [none]
    · have none : joins semId k (.postSemaphore semId) = [] := rfl
      rcases (posted_of_trans i c.live trans).unit with
        ⟨killed, q, rest, queue, -, -, -, left, -⟩ | ⟨-, left, -⟩
      · refine ⟨killed.length + 1, ?_⟩
        rw [left, queue, none, List.append_nil, ← List.drop_drop]
        simp
      · refine ⟨(k.queueOf semId).length, ?_⟩
        rw [left, none, List.drop_length, List.append_nil]
  · have joined : joins semId k op = [] := by
      cases op with
      | waitSemaphore s node => exact if_neg fun ⟨h, _⟩ => about h.symm
      | _ => rfl
    refine ⟨0, ?_⟩
    rw [((trans.effect i).quiet_sem i about).1.queue, joined, List.append_nil]
    rfl

end Law

/-- Units are conserved, units that are left mean that nobody is queued, a post wakes
the longest-waiting process that is still BLOCKED, and who was killed in the queue
never gets a unit. If no Ctrl+C finds a process that was killed before, every post
returns. -/
theorem units_conserved {admits : Kernel → Op → Prop} {semId initialValue posted acquired : Nat}
    {k : Kernel} (since : Since admits semId initialValue k posted acquired) :
    k.valueOf semId + acquired = initialValue + posted ∧
      (0 < k.valueOf semId → k.queueOf semId = []) ∧
      (∀ op k', op ≠ .destroySemaphore semId → Trans k op k' →
        ∃ n, k'.queueOf semId = (k.queueOf semId).drop n ++ joins semId k op) ∧
      (∀ k', k.valueOf semId + 1 < 2 ^ 32 → Trans k (.postSemaphore semId) k' →
        HandsOver semId k k') ∧
      (∀ p ∈ k.queueOf semId, k.stateOf p ≠ .blocked → ∀ k',
        Relation.ReflTransGen (Step admits) k k' → ¬ Active (k'.stateOf p)) ∧
      ((∀ k op, admits k op → k.FirstKill op) →
        ∃ n, ∀ fuel, n < fuel → ∃ r, k.postSemaphore fuel semId = .ok r) := by
  have i : Inv False k := since.reach.sound
  have c := since.counted
  refine ⟨c.units, c.empty, fun op k' kept trans => c.queue_order i kept trans,
    fun k' bound trans => (posted_of_trans i c.live trans).handsOver bound,
      fun p hp spent k' run => ?_,
    fun first => postSemaphore_total (since.reach.inv fun _ => first) semId⟩
  have dead : Dead (k.stateOf p) := by
    rcases i.records.waits (.queue semId) p hp with (b | killed) | ⟨-, exited⟩
    · exact absurd b spent
    · exact Or.inl killed
    · exact Or.inr exited
  rcases i.dead_forever (i.records.used (.queue semId) p hp) dead run with e | e <;> rw [e] <;>
    simp [Active, Waiting]

/-- The semaphore is not destroyed, and the posts do not overflow it. -/
def Keeps (semId : Nat) (k : Kernel) : Op → Prop
  | .destroySemaphore s => s ≠ semId
  | .postSemaphore s => s = semId → k.valueOf semId + 1 < 2 ^ 32
  | _ => True

instance (semId : Nat) (k : Kernel) (op : Op) : Decidable (Keeps semId k op) :=
  match op with
  | .destroySemaphore s => inferInstanceAs (Decidable (s ≠ semId))
  | .postSemaphore s => inferInstanceAs (Decidable (s = semId → k.valueOf semId + 1 < 2 ^ 32))
  | .createProcess .. | .exit _ | .kill _ | .waitPid _ | .sleep .. | .semInit _ | .waitSemaphore ..
  | .blockByUser _ | .unblock _ | .changePriority .. | .yield | .timerTick | .reschedule | .ctrlC
  | .userCode .. => .isTrue trivial

/-- A list of operations, with the units posted and acquired. -/
def tally (semId fuel : Nat) : List Op → Kernel × Nat × Nat → Option (Kernel × Nat × Nat)
  | [], s => some s
  | op :: ops, (k, posted, acquired) =>
      if k.FirstKill op ∧ k.Enabled op ∧ Keeps semId k op then
        match k.exec fuel op with
        | .ok k' => tally semId fuel ops
            (k', posted + unitsPosted semId op, acquired + unitsTaken semId k op k')
        | .error _ => none
      else none

theorem tally_since {semId initialValue fuel : Nat} {ops : List Op} {s s' : Kernel × Nat × Nat}
    (since : Since Kernel.FirstKill semId initialValue s.1 s.2.1 s.2.2)
    (run : tally semId fuel ops s = some s') :
    Since Kernel.FirstKill semId initialValue s'.1 s'.2.1 s'.2.2 := by
  induction ops generalizing s with
  | nil =>
      cases run
      exact since
  | cons op ops ih =>
      obtain ⟨k, posted, acquired⟩ := s
      unfold tally at run
      split_ifs at run with can
      obtain ⟨first, enabled, keeps⟩ := can
      cases ran : k.exec fuel op with
      | error _ =>
          rw [ran] at run
          cases run
      | ok next =>
          rw [ran] at run
          have kept : op ≠ .destroySemaphore semId := by
            rintro rfl
            exact keeps rfl
          have bound : op = .postSemaphore semId → k.valueOf semId + 1 < 2 ^ 32 := by
            rintro rfl
            exact keeps rfl
          exact ih (since.step first kept bound ⟨enabled, fuel, ran⟩) run

/-- `init` takes the only unit and two processes wait. The first of them is killed, so the
post hands its unit to the second one, and the next post adds its unit to the value. -/
theorem units_conserved_passed : ∃ (k : Kernel) (posted acquired : Nat),
    acquired = 2 ∧ posted = 2 ∧ k.valueOf 0 + acquired = 1 + posted ∧
      ∃ n, ∀ fuel, n < fuel → ∃ r, k.postSemaphore fuel 0 = .ok r := by
  have created : Since Kernel.FirstKill 0 1 ((boot 0 0 0).semInit 1).1 0 0 :=
    .created ⟨0, 0, 0, .refl⟩ (by decide) (by decide) rfl
  have ran : (tally 0 40 [.createProcess ⟨true, true, true, true, true⟩ 0 0,
      .createProcess ⟨true, true, true, true, true⟩ 0 0, .waitSemaphore 0 true, .yield,
      .waitSemaphore 0 true, .waitSemaphore 0 true, .kill 1, .postSemaphore 0, .postSemaphore 0]
      (((boot 0 0 0).semInit 1).1, 0, 0)).map (fun s => (s.2.2, s.2.1)) = some (2, 2) := by
    decide +kernel
  obtain ⟨⟨k, posted, acquired⟩, run, counts⟩ := Option.map_eq_some_iff.mp ran
  obtain ⟨taken, given⟩ := Prod.mk.inj counts
  have conserved := units_conserved (tally_since (s := (_, 0, 0)) created run)
  exact ⟨k, posted, acquired, taken, given, conserved.1, conserved.2.2.2.2.2 fun _ _ first => first⟩

end SoTp.Process
