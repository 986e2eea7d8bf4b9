/-
`waitSemaphore` with interrupts on, as `speakerProcess` calls it
(`Kernel/c/semaphores.c`, `Kernel/c/scheduler.c`). The call and those of `postSemaphore`
are taken apart into the single updates of the lock, the value, the queue and the state
of a process, which may come in any order.

Nobody else waits for the semaphore, and nobody is killed.

* `Inv.wait`, `Inv.post` — one update of either side.
* `no_lost_wakeup` — when a process that is BLOCKED in `waitSemaphore` is in the queue.
-/

import SoTp.Process.State

namespace SoTp.Speaker

open SoTp.Process (State)

/-- The statement of `waitSemaphore` that comes next. -/
inductive WaitAt where
  | outside
  | enters
  | tests
  | takes
  | returns
  | queues
  | leaves
  /-- The lock is free again, and the state is still to be set. -/
  | blocks
  /-- In `contextSwitch`, or back from there. -/
  | switches
deriving DecidableEq

/-- The statement of `postSemaphore` that comes next. -/
inductive PostAt where
  | outside
  | enters
  | unqueues
  | tests (toReady : Nat)
  | readies (toReady : Nat)
  | adds
  | leaves
deriving DecidableEq

/-- Between `_enter_region` and `_leave_region`. -/
def WaitAt.Inside : WaitAt → Prop
  | .tests | .takes | .returns | .queues | .leaves => True
  | _ => False

def PostAt.Inside : PostAt → Prop
  | .outside | .enters => False
  | _ => True

/-- The semaphore, the states of the processes, the waiting process and the others. -/
structure System where
  value : Nat
  lock : Nat
  queue : List Nat
  stateOf : Nat → State
  waiter : WaitAt
  poster : Nat → PostAt

/-- `semInit`, with nobody inside a call. -/
def semInit (initialValue : Nat) : System where
  value := initialValue
  lock := 0
  queue := []
  stateOf _ := .running
  waiter := .outside
  poster _ := .outside

namespace System

def setState (s : System) (pcb : Nat) (state : State) : System :=
  { s with stateOf := Function.update s.stateOf pcb state }

def setPoster (s : System) (j : Nat) (at_ : PostAt) : System :=
  { s with poster := Function.update s.poster j at_ }

/-- The next statement of `waitSemaphore` in the process `pcb`. `node` says whether
`fifoQueue` gets its node. -/
def waitSemaphore (pcb : Nat) (node : Bool) (s : System) : System :=
  match s.waiter with
  | .outside => { s with waiter := .enters }
  | .enters => if s.lock = 0 then { s with lock := 1, waiter := .tests } else s
  | .tests => if s.value > 0 then { s with waiter := .takes } else { s with waiter := .queues }
  | .takes => { s with value := s.value - 1, waiter := .returns }
  | .returns => { s with lock := 0, waiter := .outside }
  | .queues => { s with queue := if node then s.queue ++ [pcb] else s.queue, waiter := .leaves }
  | .leaves => { s with lock := 0, waiter := .blocks }
  | .blocks => { s.setState pcb .blocked with waiter := .switches }
  | .switches => { s with waiter := .outside }

/-- The next statement of `postSemaphore` in the process `j`. -/
def postSemaphore (j : Nat) (s : System) : System :=
  match s.poster j with
  | .outside => s.setPoster j .enters
  | .enters => if s.lock = 0 then { s.setPoster j .unqueues with lock := 1 } else s
  | .unqueues =>
      match s.queue with
      | [] => s.setPoster j .adds
      | toReady :: queue => { s.setPoster j (.tests toReady) with queue }
  | .tests toReady =>
      if s.stateOf toReady = .blocked then s.setPoster j (.readies toReady)
      else s.setPoster j .unqueues
  | .readies toReady => (s.setState toReady .ready).setPoster j .leaves
  | .adds => { s.setPoster j .leaves with value := (s.value + 1) % 2 ^ 32 }
  | .leaves => { s.setPoster j .outside with lock := 0 }

end System

/-- An update. `preempt` and `resume` are what `schedule` does to the waiting process. -/
inductive Update where
  | wait (node : Bool)
  | preempt
  | resume
  | post (j : Nat)

def Update.step (pcb : Nat) (s : System) : Update → System
  | .wait node => if s.stateOf pcb = .running then s.waitSemaphore pcb node else s
  | .preempt => if s.stateOf pcb = .running then s.setState pcb .ready else s
  | .resume => if s.stateOf pcb = .ready then s.setState pcb .running else s
  | .post j => s.postSemaphore j

/-- The states of a run, from `semInit` on, with every update admitted. -/
inductive Interleaved (admits : System → Update → Prop) (pcb : Nat) : System → Prop
  | start (initialValue : Nat) : Interleaved admits pcb (semInit initialValue)
  | update {s : System} (before : Interleaved admits pcb s) (u : Update) (admitted : admits s u) :
      Interleaved admits pcb (u.step pcb s)

/-- `fifoQueue` gets its node, and no post takes the process out of the queue before it
has marked itself BLOCKED. -/
def InTime (s : System) : Update → Prop
  | .wait node => s.waiter = .queues → node = true
  | .post j => s.poster j = .unqueues → s.waiter ≠ .blocks
  | _ => True

/-- BLOCKED in `waitSemaphore`, after its blocking step. -/
def System.BlockedThere (pcb : Nat) (s : System) : Prop :=
  s.waiter = .switches ∧ s.stateOf pcb = .blocked

/-- A post has taken the process out of the queue and is about to make it READY. -/
def System.Waking (pcb : Nat) (s : System) : Prop :=
  ∃ j, s.poster j = .tests pcb ∨ s.poster j = .readies pcb

/-! ### The lock -/

/-- One process at a time is between `_enter_region` and `_leave_region`. -/
structure System.Exclusive (s : System) : Prop where
  free : s.lock = 0 → ¬ s.waiter.Inside ∧ ∀ j, ¬ (s.poster j).Inside
  alone : s.waiter.Inside → ∀ j, ¬ (s.poster j).Inside
  one : ∀ i j, (s.poster i).Inside → (s.poster j).Inside → i = j

section Exclusive

variable {pcb j : Nat} {node : Bool} {s : System}

@[simp] theorem setPoster_poster (at_ : PostAt) (i : Nat) :
    (s.setPoster j at_).poster i = if i = j then at_ else s.poster i :=
  Function.update_apply _ _ _ _

@[simp] theorem setState_stateOf (state : State) (p : Nat) :
    (s.setState pcb state).stateOf p = if p = pcb then state else s.stateOf p :=
  Function.update_apply _ _ _ _

/-- A poster that goes on inside or stays outside. -/
theorem System.Exclusive.setPoster (e : s.Exclusive) (at_ : PostAt)
    (same : at_.Inside → (s.poster j).Inside) : (s.setPoster j at_).Exclusive := by
  have inside : ∀ i, ((s.setPoster j at_).poster i).Inside → (s.poster i).Inside := fun i => by
    rw [setPoster_poster]
    split_ifs with here
    · rw [here]
      exact same
    · exact id
  refine ⟨fun free => ⟨(e.free free).1, fun i h => (e.free free).2 i (inside i h)⟩,
    fun waits i h => e.alone waits i (inside i h), fun i i' h h' => e.one i i' (inside i h)
      (inside i' h')⟩

theorem System.Exclusive.wait (e : s.Exclusive) : (s.waitSemaphore pcb node).Exclusive := by
  obtain ⟨free, alone, one⟩ := e
  unfold System.waitSemaphore
  cases at_ : s.waiter <;> simp only [at_] at free alone ⊢
  case enters =>
    split_ifs with open_
    · exact ⟨fun h => (by cases h), fun _ => (free open_).2, one⟩
    · exact ⟨fun h => absurd h open_, fun h => by rw [at_] at h; exact h.elim, one⟩
  case tests =>
    split_ifs <;> exact ⟨fun h => absurd trivial (free h).1, fun _ => alone trivial, one⟩
  case outside => exact ⟨fun h => ⟨id, (free h).2⟩, fun h => h.elim, one⟩
  case takes => exact ⟨fun h => absurd trivial (free h).1, fun _ => alone trivial, one⟩
  case returns => exact ⟨fun _ => ⟨id, alone trivial⟩, fun h => h.elim, one⟩
  case queues => exact ⟨fun h => absurd trivial (free h).1, fun _ => alone trivial, one⟩
  case leaves => exact ⟨fun _ => ⟨id, alone trivial⟩, fun h => h.elim, one⟩
  case blocks => exact ⟨fun h => ⟨id, (free h).2⟩, fun h => h.elim, one⟩
  case switches => exact ⟨fun h => ⟨id, (free h).2⟩, fun h => h.elim, one⟩

theorem System.Exclusive.post (e : s.Exclusive) : (s.postSemaphore j).Exclusive := by
  unfold System.postSemaphore
  cases at_ : s.poster j <;> simp only
  case outside => exact e.setPoster _ fun h => h.elim
  case enters =>
    split_ifs with open_
    · obtain ⟨waits, none⟩ := e.free open_
      have only : ∀ i, ((s.setPoster j .unqueues).poster i).Inside → i = j := fun i h => by
        rw [setPoster_poster] at h
        by_contra other
        rw [if_neg other] at h
        exact none i h
      exact ⟨fun h => (by cases h), fun h => absurd h waits, fun i i' h h' =>
        (only i h).trans (only i' h').symm⟩
    · exact e
  case unqueues =>
    split
    · exact e.setPoster _ fun _ => by rw [at_]; trivial
    · obtain ⟨free, alone, one⟩ := e.setPoster (.tests _) fun _ => by rw [at_]; trivial
      exact ⟨free, alone, one⟩
  case tests p =>
    split_ifs <;> exact e.setPoster _ fun _ => by rw [at_]; trivial
  case readies p =>
    have set : (s.setState p .ready).Exclusive := ⟨e.free, e.alone, e.one⟩
    exact set.setPoster _ fun _ => by
      show (s.poster j).Inside
      rw [at_]
      trivial
  case adds =>
    obtain ⟨free, alone, one⟩ := e.setPoster .leaves fun _ => by rw [at_]; trivial
    exact ⟨free, alone, one⟩
  case leaves =>
    have here : (s.poster j).Inside := by rw [at_]; trivial
    have none : ∀ i, ¬ ((s.setPoster j .outside).poster i).Inside := fun i h => by
      rw [setPoster_poster] at h
      split_ifs at h with same
      · exact h
      · exact same (e.one i j h here)
    exact ⟨fun _ => ⟨fun h => e.alone h j here, none⟩, fun _ => none, fun i _ h =>
      absurd h (none i)⟩

end Exclusive

/-! ### The queue -/

/-- No post has taken a process out of the queue. -/
def System.NoneTaken (s : System) : Prop := ∀ j p, s.poster j ≠ .tests p ∧ s.poster j ≠ .readies p

/-- Posts inside the region have not yet looked at the queue. -/
def System.NotLooked (s : System) : Prop := ∀ j, (s.poster j).Inside → s.poster j = .unqueues

/-- Where the process is, in or out of the queue. -/
def System.Placed (pcb : Nat) (s : System) : Prop :=
  match s.waiter with
  | .queues => s.queue = [] ∧ s.value = 0 ∧ s.stateOf pcb ≠ .blocked
  | .leaves => s.queue = [pcb] ∧ s.value = 0 ∧ s.stateOf pcb ≠ .blocked
  | .blocks => s.queue = [pcb] ∧ s.value = 0 ∧ s.stateOf pcb ≠ .blocked ∧ s.NotLooked
  | .switches =>
      (s.stateOf pcb = .blocked ∧ s.queue = [pcb] ∧ s.value = 0 ∧ s.NotLooked) ∨
        (s.stateOf pcb = .blocked ∧ s.queue = [] ∧ s.Waking pcb) ∨
        (s.stateOf pcb ≠ .blocked ∧ s.queue = [] ∧ s.NoneTaken)
  | _ => s.stateOf pcb ≠ .blocked ∧ s.queue = [] ∧ s.NoneTaken

structure System.Inv (pcb : Nat) (s : System) : Prop extends s.Exclusive where
  placed : s.Placed pcb

section Placed

variable {pcb j : Nat} {node : Bool} {s : System}

theorem start_inv (initialValue : Nat) : (semInit initialValue).Inv pcb where
  free _ := ⟨id, fun _ => id⟩
  alone h := h.elim
  one _ _ h := h.elim
  placed := ⟨by simp [semInit], rfl, fun _ _ => by simp [semInit]⟩

theorem noneTaken_of_none (none : ∀ j, ¬ (s.poster j).Inside) : s.NoneTaken := fun j p =>
  ⟨fun h => none j (by rw [h]; trivial), fun h => none j (by rw [h]; trivial)⟩

/-- The running process does the next statement of its call. -/
theorem System.Inv.wait (v : s.Inv pcb) (running : s.stateOf pcb = .running)
    (inTime : InTime s (.wait node)) : (s.waitSemaphore pcb node).Inv pcb := by
  refine ⟨v.toExclusive.wait, ?_⟩
  have alone := v.alone
  have placed := v.placed
  unfold System.Placed at placed
  unfold InTime at inTime
  unfold System.waitSemaphore
  cases at_ : s.waiter <;> simp only [at_] at placed alone inTime ⊢
  case outside => exact placed
  case enters =>
    split_ifs
    · exact placed
    · unfold System.Placed
      rw [at_]
      exact placed
  case tests =>
    obtain ⟨awake, empty, -⟩ := placed
    split_ifs with more
    · exact ⟨awake, empty, noneTaken_of_none (alone trivial)⟩
    · exact ⟨empty, by simp only; omega, awake⟩
  case takes => exact placed
  case returns => exact placed
  case queues =>
    obtain ⟨empty, value, awake⟩ := placed
    exact ⟨by simp [inTime trivial, empty], value, awake⟩
  case leaves =>
    obtain ⟨queue, value, awake⟩ := placed
    exact ⟨queue, value, awake, fun j h => absurd h (alone trivial j)⟩
  case blocks =>
    obtain ⟨queue, value, -, notLooked⟩ := placed
    exact Or.inl ⟨by simp, queue, value, notLooked⟩
  case switches =>
    rcases placed with ⟨blocked, -⟩ | ⟨blocked, -⟩ | awake
    · rw [running] at blocked
      cases blocked
    · rw [running] at blocked
      cases blocked
    · exact awake

/-- A statement of a post that looks at neither queue nor state. -/
theorem System.Placed.setPoster (placed : s.Placed pcb) (at_ : PostAt)
    (blind : ∀ p, s.poster j ≠ .tests p ∧ s.poster j ≠ .readies p)
    (blind' : ∀ p, at_ ≠ .tests p ∧ at_ ≠ .readies p)
    (looks : at_.Inside → at_ = .unqueues ∨ s.queue = []) : (s.setPoster j at_).Placed pcb := by
  have noneTaken : s.NoneTaken → (s.setPoster j at_).NoneTaken := fun none i p => by
    rw [setPoster_poster]
    split_ifs
    · exact blind' p
    · exact none i p
  have notLooked : s.queue = [pcb] → s.NotLooked → (s.setPoster j at_).NotLooked :=
      fun queue none i h => by
    rw [setPoster_poster] at h ⊢
    split_ifs at h ⊢ with here
    · exact (looks h).resolve_right (by rw [queue]; simp)
    · exact none i h
  have waking : s.Waking pcb → (s.setPoster j at_).Waking pcb := fun ⟨i, h⟩ => by
    refine ⟨i, ?_⟩
    rw [setPoster_poster]
    split_ifs with here
    · rw [here] at h
      exact absurd h (not_or.mpr (blind pcb))
    · exact h
  unfold System.Placed at placed ⊢
  have same : (s.setPoster j at_).waiter = s.waiter := rfl
  rw [same]
  cases waiter : s.waiter <;> simp only [waiter] at placed ⊢
  case queues => exact placed
  case leaves => exact placed
  case blocks =>
    obtain ⟨queue, value, awake, none⟩ := placed
    exact ⟨queue, value, awake, notLooked queue none⟩
  case switches =>
    rcases placed with ⟨blocked, queue, value, none⟩ | ⟨blocked, empty, wakes⟩ | ⟨awake,
      empty, none⟩
    · exact Or.inl ⟨blocked, queue, value, notLooked queue none⟩
    · exact Or.inr (Or.inl ⟨blocked, empty, waking wakes⟩)
    · exact Or.inr (Or.inr ⟨awake, empty, noneTaken none⟩)
  all_goals
    obtain ⟨awake, empty, none⟩ := placed
    exact ⟨awake, empty, noneTaken none⟩

/-- Neither in the queue nor taken out of it. -/
def System.Apart (pcb : Nat) (s : System) : Prop := s.stateOf pcb ≠ .blocked ∧
    s.queue = [] ∧ s.NoneTaken

/-- In `contextSwitch`, and a post is about to make the process READY. -/
def System.Woken (pcb : Nat) (s : System) : Prop :=
  s.waiter = .switches ∧ s.stateOf pcb = .blocked ∧ s.queue = [] ∧ s.Waking pcb

/-- Not between the test of the value and the blocking step. -/
def WaitAt.Free (at_ : WaitAt) : Prop := at_ ≠ .queues ∧ at_ ≠ .leaves ∧ at_ ≠ .blocks

theorem System.Apart.placed (apart : s.Apart pcb) (free : s.waiter.Free) : s.Placed pcb := by
  obtain ⟨queues, leaves, blocks⟩ := free
  unfold System.Placed
  cases waiter : s.waiter
  case queues => exact absurd waiter queues
  case leaves => exact absurd waiter leaves
  case blocks => exact absurd waiter blocks
  case switches => exact Or.inr (Or.inr apart)
  all_goals exact apart

/-- A post that has looked at the queue meets the process outside of it. -/
theorem System.Inv.looked (v : s.Inv pcb) (inside : (s.poster j).Inside)
    (looked : s.poster j ≠ .unqueues) : s.Woken pcb ∨ (s.Apart pcb ∧ s.waiter.Free) := by
  have alone : ¬ s.waiter.Inside := fun h => v.alone h j inside
  have placed := v.placed
  unfold System.Placed at placed
  unfold WaitAt.Free
  cases waiter : s.waiter <;> simp only [waiter] at placed alone ⊢
  case queues => exact absurd trivial alone
  case leaves => exact absurd trivial alone
  case blocks => exact absurd (placed.2.2.2 j inside) looked
  case switches =>
    rcases placed with ⟨-, -, -, none⟩ | woken | apart
    · exact absurd (none j inside) looked
    · exact Or.inl ⟨waiter, woken⟩
    · exact Or.inr ⟨apart, by simp⟩
  all_goals exact Or.inr ⟨placed, by simp⟩

/-- The post that has taken the process out is the one inside. -/
theorem System.Inv.taken (v : s.Inv pcb) {p : Nat}
    (taken : s.poster j = .tests p ∨ s.poster j = .readies p) : s.Woken pcb ∧ p = pcb := by
  have inside : (s.poster j).Inside := by
    rcases taken with h | h <;> rw [h] <;> trivial
  have looked : s.poster j ≠ .unqueues := by
    rcases taken with h | h <;> rw [h] <;> simp
  rcases v.looked inside looked with woken | ⟨⟨-, -, none⟩, -⟩
  · refine ⟨woken, ?_⟩
    obtain ⟨-, -, -, i, h⟩ := woken
    have inside' : (s.poster i).Inside := by
      rcases h with h | h <;> rw [h] <;> trivial
    rw [v.one i j inside' inside] at h
    rcases taken with e | e <;> rcases h with e' | e' <;> rw [e] at e' <;> cases e' <;> rfl
  · rcases taken with e | e
    · exact absurd e (none j p).1
    · exact absurd e (none j p).2

/-- A post does its next statement. -/
theorem System.Inv.post (v : s.Inv pcb) (inTime : InTime s (.post j)) :
    (s.postSemaphore j).Inv pcb := by
  refine ⟨v.toExclusive.post, ?_⟩
  have placed := v.placed
  have alone := v.alone
  have one := v.one
  have looked := v.looked (j := j)
  have taken := fun p => v.taken (j := j) (p := p)
  unfold InTime at inTime
  unfold System.postSemaphore
  cases at_ : s.poster j <;> simp only [at_] at inTime looked taken ⊢
  case outside => exact placed.setPoster _ (by simp [at_]) (by simp) fun h => h.elim
  case enters =>
    split_ifs
    · exact placed.setPoster .unqueues (by simp [at_]) (by simp) fun _ => Or.inl rfl
    · exact placed
  case unqueues =>
    have here : (s.poster j).Inside := by rw [at_]; trivial
    have outside : ¬ s.waiter.Inside := fun h => alone h j here
    have open_ := inTime trivial
    cases queue : s.queue with
    | nil => exact placed.setPoster _ (by simp [at_]) (by simp) fun _ => Or.inr queue
    | cons toReady rest =>
        -- Only a BLOCKED process is in the queue and can be taken out.
        unfold System.Placed at placed
        cases waiter : s.waiter <;> simp only [waiter] at placed outside open_
        case queues => exact absurd trivial outside
        case leaves => exact absurd trivial outside
        case blocks => exact absurd rfl open_
        case switches =>
          rcases placed with ⟨blocked, alone, -⟩ | ⟨-, empty, -⟩ | ⟨-, empty, -⟩
          · rw [queue] at alone
            cases alone
            have taken : System.Waking pcb { s.setPoster j (.tests pcb) with queue := [] } :=
              ⟨j, Or.inl (by simp)⟩
            unfold System.Placed
            simp only [System.setPoster, waiter]
            exact Or.inr (Or.inl ⟨blocked, trivial, taken⟩)
          · rw [queue] at empty
            cases empty
          · rw [queue] at empty
            cases empty
        all_goals
          rw [queue] at placed
          cases placed.2.1
  case tests p =>
    obtain ⟨⟨waiter, blocked, empty, -⟩, rfl⟩ := taken p (Or.inl rfl)
    rw [if_pos blocked]
    unfold System.Placed
    have same : (s.setPoster j (.readies p)).waiter = .switches := waiter
    rw [same]
    exact Or.inr (Or.inl ⟨blocked, empty, j, Or.inr (by simp)⟩)
  case readies p =>
    obtain ⟨⟨waiter, blocked, empty, -⟩, rfl⟩ := taken p (Or.inr rfl)
    have here : (s.poster j).Inside := by rw [at_]; trivial
    have none : ((s.setState p .ready).setPoster j .leaves).NoneTaken := fun i q => by
      rw [setPoster_poster]
      split_ifs with same
      · simp
      · refine ⟨fun h => same ?_, fun h => same ?_⟩
        · exact one i j (by show (s.poster i).Inside; rw [show s.poster i = _ from h]; trivial) here
        · exact one i j (by show (s.poster i).Inside; rw [show s.poster i = _ from h]; trivial) here
    unfold System.Placed
    have same : ((s.setState p .ready).setPoster j .leaves).waiter = .switches := waiter
    rw [same]
    refine Or.inr (Or.inr ⟨?_, empty, none⟩)
    show (s.setState p .ready).stateOf p ≠ .blocked
    simp
  case adds =>
    rcases looked trivial (by simp) with ⟨-, -, -, i, h⟩ | ⟨⟨awake, empty, none⟩, free⟩
    · have here : (s.poster j).Inside := by rw [at_]; trivial
      have inside : (s.poster i).Inside := by rcases h with h | h <;> rw [h] <;> trivial
      rw [one i j inside here, at_] at h
      rcases h with h | h <;> cases h
    · refine System.Apart.placed ⟨awake, empty, fun i p => ?_⟩ free
      rw [setPoster_poster]
      split_ifs
      · simp
      · exact none i p
  case leaves => exact placed.setPoster .outside (by simp [at_]) (by simp) fun h => h.elim

/-- `schedule` moves a process between READY and RUNNING. -/
theorem System.Inv.setState (v : s.Inv pcb) {state : State} (awake : s.stateOf pcb ≠ .blocked)
    (awake' : state ≠ .blocked) : (s.setState pcb state).Inv pcb := by
  refine ⟨⟨v.free, v.alone, v.one⟩, ?_⟩
  have now : (s.setState pcb state).stateOf pcb ≠ .blocked := by simpa using awake'
  have placed := v.placed
  unfold System.Placed at placed ⊢
  have same : (s.setState pcb state).waiter = s.waiter := rfl
  rw [same]
  cases waiter : s.waiter <;> simp only [waiter] at placed ⊢
  case queues => exact ⟨placed.1, placed.2.1, now⟩
  case leaves => exact ⟨placed.1, placed.2.1, now⟩
  case blocks => exact ⟨placed.1, placed.2.1, now, placed.2.2.2⟩
  case switches =>
    rcases placed with ⟨blocked, -⟩ | ⟨blocked, -⟩ | ⟨-, empty, none⟩
    · exact absurd blocked awake
    · exact absurd blocked awake
    · exact Or.inr (Or.inr ⟨now, empty, none⟩)
  all_goals exact ⟨now, placed.2.1, placed.2.2⟩

end Placed

/-- A run in which everybody is in time keeps the queue. -/
theorem Interleaved.inv {pcb : Nat} {s : System} (run : Interleaved InTime pcb s) : s.Inv pcb := by
  induction run with
  | start initialValue => exact start_inv initialValue
  | update before u inTime ih =>
      cases u with
      | wait node =>
          simp only [Update.step]
          split_ifs with running
          · exact ih.wait running inTime
          · exact ih
      | preempt =>
          simp only [Update.step]
          split_ifs with running
          · exact ih.setState (by simp [running]) (by simp)
          · exact ih
      | resume =>
          simp only [Update.step]
          split_ifs with ready
          · exact ih.setState (by simp [ready]) (by simp)
          · exact ih
      | post j => exact ih.post inTime

theorem waitSemaphore_poster (pcb : Nat) (node : Bool) (s : System) :
    (s.waitSemaphore pcb node).poster = s.poster := by
  unfold System.waitSemaphore
  cases s.waiter <;> simp only
  case enters => split_ifs <;> rfl
  case tests => split_ifs <;> rfl
  all_goals rfl

theorem wait_poster (pcb : Nat) (node : Bool) (s : System) :
    ((Update.wait node).step pcb s).poster = s.poster := by
  simp only [Update.step]
  by_cases running : s.stateOf pcb = .running
  · rw [if_pos running]
    exact waitSemaphore_poster pcb node s
  · rw [if_neg running]

theorem post_other {pcb i j : Nat} (other : i ≠ j) (s : System) :
    ((Update.post j).step pcb s).poster i = s.poster i := by
  simp only [Update.step, System.postSemaphore]
  cases s.poster j <;> simp only
  case unqueues => cases s.queue <;> exact Function.update_of_ne other _ _
  all_goals
    first
      | exact Function.update_of_ne other _ _
      | (split_ifs <;> first | rfl | exact Function.update_of_ne other _ _)

theorem turn_poster (pcb : Nat) (s : System) : (Update.preempt.step pcb s).poster = s.poster ∧
    (Update.resume.step pcb s).poster = s.poster := by
  constructor
  · simp only [Update.step]
    split_ifs <;> rfl
  · simp only [Update.step]
    split_ifs <;> rfl

/-- In every run in which no post takes the process out of the queue before it has marked
itself BLOCKED, and `fifoQueue` gets its node, the process is in the queue of a semaphore
of value 0 whenever it is BLOCKED in `waitSemaphore`, until a post wakes it. -/
theorem no_lost_wakeup {pcb : Nat} {s : System} (run : Interleaved InTime pcb s)
    (blocked : s.BlockedThere pcb) (settled : ¬ s.Waking pcb) : pcb ∈ s.queue ∧ s.value = 0 := by
  obtain ⟨waiter, state⟩ := blocked
  have placed := run.inv.placed
  unfold System.Placed at placed
  rw [waiter] at placed
  rcases placed with ⟨-, queue, value, -⟩ | ⟨-, -, waking⟩ | ⟨awake, -⟩
  · exact ⟨by rw [queue]; exact List.mem_singleton_self pcb, value⟩
  · exact absurd waking settled
  · exact absurd state awake

/-- A process waits, a post wakes it, and it waits once more. -/
theorem no_lost_wakeup_twice : ∃ s : System, s.BlockedThere 7 ∧ 7 ∈ s.queue ∧ s.value = 0 := by
  have wait : ∀ {s}, Interleaved InTime 7 s → Interleaved InTime 7 ((Update.wait true).step 7 s) :=
    fun run => .update run _ fun _ => rfl
  have post : ∀ {s}, Interleaved InTime 7 s → s.waiter ≠ .blocks →
      Interleaved InTime 7 ((Update.post 0).step 7 s) :=
        fun run apart => .update run _ fun _ => apart
  have asleep := wait (wait (wait (wait (wait (wait (.start 0))))))
  have enters := post (post (post asleep (by decide)) (by decide)) (by decide)
  have posted := post (post (post enters (by decide)) (by decide)) (by decide)
  have awake := wait (.update posted .resume trivial)
  refine ⟨_, ⟨rfl, rfl⟩, no_lost_wakeup (wait (wait (wait (wait (wait (wait awake))))))
    ⟨rfl, rfl⟩ ?_⟩
  have outside : ∀ {s : System} {j}, s.poster j = .outside →
      ¬ (s.poster j = .tests 7 ∨ s.poster j = .readies 7) :=
    fun none => by simp [none]
  rintro ⟨j, taken⟩
  refine outside ?_ taken
  by_cases here : j = 0
  · rw [here]
    rfl
  · simp only [wait_poster, turn_poster, post_other here]
    rfl

/-- The process is preempted between the release of the lock and the blocking step. A post
takes it out of the queue, finds it READY, and drops it; then the process goes on. -/
theorem wakeup_lost : ∃ s : System, Interleaved (fun _ _ => True) 7 s ∧ s.BlockedThere 7 ∧
    (∀ j, s.poster j = .outside) ∧ ¬ (7 ∈ s.queue ∧ s.value = 0) := by
  have wait : ∀ {s}, Interleaved (fun _ _ => True) 7 s →
      Interleaved (fun _ _ => True) 7 ((Update.wait true).step 7 s) :=
        fun run => .update run _ trivial
  have post : ∀ {s}, Interleaved (fun _ _ => True) 7 s →
      Interleaved (fun _ _ => True) 7 ((Update.post 0).step 7 s) := fun run => .update run _ trivial
  have queued := wait (wait (wait (wait (wait (.start 0)))))
  have posted := post (post (post (post (post (post (post (.update queued .preempt trivial)))))))
  refine ⟨_, wait (.update posted .resume trivial), ⟨rfl, rfl⟩, fun j => ?_, by decide⟩
  by_cases here : j = 0
  · rw [here]
    rfl
  · simp only [wait_poster, turn_poster, post_other here]
    rfl

end SoTp.Speaker
