/-
What holds of a pipe in every state that is reached. Every byte that was not read yet
is a unit of one of the semaphores, and so is every free place: the unit is in the
value, or a process got it and has not been at the buffer, or the running process has
been there and is about to post it.

* `PipeTrans.stepped` — what one step does.
* `PipeStart.inv`, `PipeInv.step`, `PipeReach.inv` — the invariant.
-/

import SoTp.Lib.RingBuffer
import SoTp.Pipes.Frames

namespace SoTp.Pipes

open SoTp.Lib SoTp.Process Kernel

/-! ### Steps -/

/-- What one step does. -/
inductive Stepped (std : Bool) (s : PipeSys) : Event → PipeSys → Prop
  | other {op : Op} {k : Kernel} (outside : s.current = none) (apart : ¬ s.pipe.Names op)
      (trans : Trans s.kernel op k) : Stepped std s (.other op) { s with kernel := k }
  | enter {call : Call} (outside : s.current = none) (on : call.On std) (starts : call.Starts) :
      Stepped std s (.enter call) (s.setCurrent (some ⟨call, .waitCount⟩))
  | operation {f : Frame} {node : Bool} {op : Op} {k : Kernel} (here : s.current = some f)
      (next : f.op s.pipe node = some op) (trans : Trans s.kernel op k) :
      Stepped std s (.statement node) { s.proceed f with kernel := k }
  | transfer {call : Call} {node : Bool} (here : s.current = some ⟨call, .transfer⟩) :
      Stepped std s (.statement node) (s.transfer call)
  | key {c : UInt8} {k : Kernel} (isStd : std = true) (outside : s.current = none)
      (trans : Trans s.kernel (.postSemaphore s.pipe.writtenCountSem) k) :
      Stepped std s (.key c) { s.store c with kernel := k }

theorem PipeSys.run_some {s s' : PipeSys} {fuel : Nat} {op : Op} (run : s.run fuel op = some s') :
    ∃ k, Trans s.kernel op k ∧ s' = { s with kernel := k } := by
  unfold PipeSys.run at run
  split_ifs at run with enabled
  split at run
  · rename_i k ran
    cases run
    exact ⟨k, ⟨enabled, fuel, ran⟩, rfl⟩
  · cases run

theorem PipeTrans.stepped {std : Bool} {s s' : PipeSys} {event : Event}
    (trans : PipeTrans std s event s') : Stepped std s event s' := by
  obtain ⟨fuel, run⟩ := trans
  unfold PipeSys.exec at run
  cases event with
  | other op =>
      simp only [Option.isNone_iff_eq_none] at run
      split_ifs at run with can
      obtain ⟨k, trans, rfl⟩ := PipeSys.run_some run
      exact .other can.1 can.2 trans
  | enter call =>
      simp only [Option.isNone_iff_eq_none] at run
      split_ifs at run with can
      cases run
      exact .enter can.1 can.2.2.1 can.2.2.2
  | statement node =>
      simp only [] at run
      split at run
      · cases run
      · rename_i f here
        split at run
        · rename_i op next
          obtain ⟨k, trans, rfl⟩ := PipeSys.run_some run
          exact .operation here next trans
        · rename_i done
          cases run
          obtain ⟨call, phase⟩ := f
          cases phase with
          | transfer => exact .transfer here
          | _ => cases done
  | key c =>
      simp only [Option.isNone_iff_eq_none] at run
      split_ifs at run with can
      obtain ⟨k, trans, rfl⟩ := PipeSys.run_some run
      exact .key can.2 can.1 trans

/-! ### The invariant -/

/-- The running process has been at the buffer and is to post a unit for it. -/
def owed (w : Bool) : Option Frame → Nat
  | some f => if f.call.writes = w ∧ (f.phase = .postMutex ∨ f.phase = .postCount) then 1 else 0
  | none => 0

/-- The running process has the mutex. -/
def critical : Option Frame → Nat
  | some f => if f.phase = .transfer ∨ f.phase = .postMutex then 1 else 0
  | none => 0

/-- The bytes to read, or the free places. -/
def units (w : Bool) (stored taken : Nat) : Nat :=
  if w then BUFFER_SIZE + taken - stored else stored - taken

/-- The semaphores of a pipe are three live ones. -/
structure Sems (p : Pipe) (k : Kernel) : Prop where
  apart : ∀ w, p.countSem w ≠ p.mutex
  distinct : p.countSem true ≠ p.countSem false
  live : ∀ semId, p.Has semId → k.Live semId

/-- Nobody counts the free places of the standard input pipe. -/
structure Counts (std : Bool) (p : Pipe) (k : Kernel) (current : Option Frame)
    (U : Bool → Finset Nat) (stored taken : Nat) : Prop where
  mutex : k.valueOf p.mutex + critical current = 1
  free : k.queueOf p.mutex = []
  count : ∀ w, (std = true → w = false) →
    k.valueOf (p.countSem w) + (U w).card + owed (!w) current = units w stored taken

structure PipeInv (std : Bool) (exact : Prop) (s : PipeSys) (U : Bool → Finset Nat) : Prop where
  reach : Reach (fun _ _ => True) s.kernel
  sems : Sems s.pipe s.kernel
  frames : Frames std exact s.pipe.countSem s.kernel s.inside U
  posts : ∀ p f, s.inside p = some f → f.phase = .postCount → std = false
  counts : Counts std s.pipe s.kernel s.current U s.stored.length s.taken.length
  buffer : Buffered BUFFER_SIZE s.pipe.buffer s.pipe.readIdx s.pipe.writeIdx s.stored s.taken

section Lemmas

variable {std : Bool} {exact : Prop} {p : Pipe} {k k' : Kernel} {op : Op} {s : PipeSys}
  {U U' : Bool → Finset Nat} {current : Option Frame} {stored taken : Nat}

theorem Pipe.has_mutex : p.Has p.mutex := Or.inl rfl

theorem Pipe.has_count (w : Bool) : p.Has (p.countSem w) := by
  cases w
  · exact Or.inr (Or.inl rfl)
  · exact Or.inr (Or.inr rfl)

theorem owed_settled (settled : ∀ f, current = some f → f.phase = .waitCount ∨ f.phase = .waitMutex)
    (w : Bool) : owed w current = 0 ∧ critical current = 0 := by
  cases current with
  | none => exact ⟨rfl, rfl⟩
  | some f => rcases settled f rfl with phase | phase <;> simp [owed, critical, phase]

theorem Sems.step (h : Sems p k) (i : Inv False k)
    (kept : ∀ semId, p.Has semId → op ≠ .destroySemaphore semId)
    (trans : Trans k op k') : Sems p k' :=
  ⟨h.apart, h.distinct, fun semId has => live_of_trans i (h.live semId has) (kept semId has) trans⟩

/-- An operation that does not name the pipe's semaphores is not about them. -/
theorem Sems.untouched (h : Sems p k) (apart : ¬ p.Names op) {semId : Nat} (has : p.Has semId) :
    ¬ k.Touches op (.sem semId) := fun about => by
  rcases touches_sem (h.live semId has)
    (fun e => apart (by subst e; exact has)) about with ⟨node, rfl⟩ | rfl
  · exact apart has
  · exact apart has

/-- The buffer and the indices are no part of these. -/
def Pipe.SameSems (p p' : Pipe) : Prop :=
  p'.mutex = p.mutex ∧ p'.writtenCountSem = p.writtenCountSem ∧ p'.emptyCountSem = p.emptyCountSem

theorem Pipe.SameSems.countSem {p' : Pipe} (same : p.SameSems p') : p'.countSem = p.countSem := by
  funext w
  cases w
  · exact same.2.1
  · exact same.2.2

theorem Sems.congr {p' : Pipe} (same : p.SameSems p') (h : Sems p k) : Sems p' k := by
  obtain ⟨buffer, mutex, written, empty, readIdx, writeIdx⟩ := p'
  obtain ⟨rfl, rfl, rfl⟩ := same
  exact ⟨h.apart, h.distinct, h.live⟩

theorem Counts.congr {p' : Pipe} (same : p.SameSems p')
    (c : Counts std p k current U stored taken) : Counts std p' k current U stored taken := by
  obtain ⟨buffer, mutex, written, empty, readIdx, writeIdx⟩ := p'
  obtain ⟨rfl, rfl, rfl⟩ := same
  exact ⟨c.mutex, c.free, c.count⟩

theorem Pipe.store_same (c : UInt8) : p.SameSems (p.store c) := ⟨rfl, rfl, rfl⟩

theorem Pipe.advance_same : p.SameSems p.advance := ⟨rfl, rfl, rfl⟩

theorem units_le {b : Nat → UInt8} {r w : Nat} {stored taken : List UInt8}
    (h : Buffered BUFFER_SIZE b r w stored taken) (v : Bool) :
    units v stored.length taken.length ≤ BUFFER_SIZE := by
  have := h.bound
  have := h.length_le
  cases v <;> simp only [units, Bool.false_eq_true, if_false, if_true] <;> omega

theorem PipeInv.inv (v : PipeInv std exact s U) : Inv False s.kernel := v.reach.sound

theorem PipeInv.posts_set (v : PipeInv std exact s U) {g : Option Frame}
    (new : ∀ f, g = some f → f.phase = .postCount → std = false) (p : Nat) (f : Frame)
    (h : (s.setCurrent g).inside p = some f) : f.phase = .postCount → std = false := by
  rcases update_some.mp h with ⟨-, e⟩ | ⟨-, h⟩
  · exact new f e
  · exact v.posts p f h

/-- The counts where only the running process's frame changed, and what it owes did not. -/
theorem Counts.keep (c : Counts std p k current U stored taken) {current' : Option Frame}
    (quiet : ∀ w, SameSem (p.countSem w) k k') (mutex : k'.valueOf p.mutex + critical current' = 1)
    (free : k'.queueOf p.mutex = [])
    (owes : ∀ w, (std = true → w = false) → owed (!w) current' = owed (!w) current) :
    Counts std p k' current' U stored taken :=
  ⟨mutex, free, fun w h => by rw [(quiet w).value, owes w h, c.count w h]⟩

end Lemmas

/-! ### What the steps keep -/

section Cases

variable {std : Bool} {exact : Prop} {s : PipeSys} {k : Kernel} {op : Op} {U : Bool → Finset Nat}
  {call : Call} {node : Bool}

theorem PipeInv.other (v : PipeInv std exact s U) (outside : s.current = none)
    (apart : ¬ s.pipe.Names op)
    (spares : exact → ∀ p f, s.inside p = some f → Active (s.kernel.stateOf p) →
      ¬ s.kernel.Touches op (.proc p))
    (trans : Trans s.kernel op k) : PipeInv std exact { s with kernel := k } U := by
  have e := trans.effect v.inv
  have quiet : ∀ semId, s.pipe.Has semId → SameSem semId s.kernel k := fun semId has =>
    (e.quiet_sem v.inv (v.sems.untouched apart has)).1
  have mutex := quiet _ Pipe.has_mutex
  have before : ∀ w, owed w s.current = 0 ∧ critical s.current = 0 := by
    rw [outside]
    exact owed_settled (fun f h => by cases h)
  -- Whoever runs now was left at its first wait.
  have after : ∀ w, owed w (s.inside k.currentPCB) = 0 ∧ critical (s.inside k.currentPCB) = 0 := by
    refine owed_settled fun f h => Or.inr (v.frames.away h fun e => ?_)
    rw [e, show s.inside _ = none from outside] at h
    cases h
  refine ⟨v.reach.step trivial trans, v.sems.step v.inv (fun semId has e => apart ?_) trans,
    v.frames.other v.inv e (fun w => v.sems.untouched apart (Pipe.has_count w))
      (fun f h => ?_) spares,
    v.posts, v.counts.keep (fun w => quiet _ (Pipe.has_count w)) ?_
      (mutex.queue.trans v.counts.free)
      fun w _ => (after (!w)).1.trans (before (!w)).1.symm, v.buffer⟩
  · subst e
    exact has
  · rw [show s.inside _ = none from outside] at h
    cases h
  · have old := v.counts.mutex
    rw [(before true).2, ← mutex.value] at old
    exact (congrArg _ (after true).2).trans old

theorem PipeInv.enter (v : PipeInv std exact s U) (outside : s.current = none) (on : call.On std) :
    PipeInv std exact (s.setCurrent (some ⟨call, .waitCount⟩)) U := by
  have here : (s.setCurrent (some ⟨call, .waitCount⟩)).current = some ⟨call, .waitCount⟩ :=
    Function.update_self _ _ _
  have idle : ∀ f, s.inside s.kernel.currentPCB = some f → ¬ f.Pending := fun f h => by
    rw [show s.inside _ = none from outside] at h
    cases h
  refine ⟨v.reach, v.sems, v.frames.move v.inv idle fun f h => ?_,
    v.posts_set fun f h => by cases h; simp,
    v.counts.keep (fun _ => ⟨rfl, rfl, Iff.rfl⟩) ?_ v.counts.free fun w _ => ?_, v.buffer⟩
  · cases h
    exact ⟨on, by simp [Frame.Pending]⟩
  · have old := v.counts.mutex
    rw [outside] at old
    rw [here]
    exact old
  · rw [here, outside]
    simp [owed]

theorem PipeInv.waitCount (v : PipeInv std exact s U) (here : s.current = some ⟨call, .waitCount⟩)
    (trans : Trans s.kernel (.waitSemaphore (s.pipe.countSem call.writes) node) k) :
    ∃ U', PipeInv std exact { s.proceed ⟨call, .waitCount⟩ with kernel := k } U' := by
  have e := trans.effect v.inv
  have waited := waited_of_trans v.inv (v.sems.live _ (Pipe.has_count _)) trans
  obtain ⟨U', frames, count, same⟩ := v.frames.wait v.inv v.sems.distinct here rfl e waited
  have before : ∀ w, owed w s.current = 0 ∧ critical s.current = 0 := by
    rw [here]
    exact owed_settled fun f h => by cases h; exact Or.inl rfl
  generalize after : Function.update s.inside s.kernel.currentPCB (some ⟨call, .waitMutex⟩)
    k.currentPCB = current
  have settled : ∀ w, owed w current = 0 ∧ critical current = 0 := owed_settled fun f h => by
    rcases update_some.mp (after.trans h) with ⟨-, e⟩ | ⟨own, h⟩
    · cases e
      exact Or.inr rfl
    · exact Or.inr (v.frames.away h own)
  have quiet : ∀ semId, semId ≠ s.pipe.countSem call.writes → SameSem semId s.kernel k :=
      fun _ ne =>
    (e.quiet_sem v.inv ne).1
  have mutex := quiet _ (v.sems.apart _).symm
  have counts : Counts std s.pipe k current U' s.stored.length s.taken.length := by
    refine ⟨?_, mutex.queue.trans v.counts.free, fun w std => ?_⟩
    · rw [mutex.value, (settled true).2, ← (before true).2]
      exact v.counts.mutex
    · rw [(settled _).1, ← (before (!w)).1, ← v.counts.count w std]
      by_cases own : w = call.writes
      · subst own
        rw [count]
      · obtain rfl : w = !call.writes := by
          revert own
          cases w <;> cases call.writes <;> simp
        rw [same, (quiet _ fun h => own (sem_inj v.sems.distinct h)).value]
  subst after
  exact ⟨U', v.reach.step trivial trans, v.sems.step v.inv (fun _ _ => by simp) trans, frames,
    v.posts_set fun f h => by cases h; simp, counts, v.buffer⟩

theorem PipeSys.proceed_current {f : Frame} (current : k.currentPCB = s.kernel.currentPCB) :
    PipeSys.current { s.proceed f with kernel := k } = f.next := by
  change Function.update s.inside s.kernel.currentPCB f.next k.currentPCB = f.next
  rw [current, Function.update_self]

/-- Nobody has the mutex, so the wait for it takes it at once. -/
theorem PipeInv.waitMutex (v : PipeInv std exact s U) (here : s.current = some ⟨call, .waitMutex⟩)
    (trans : Trans s.kernel (.waitSemaphore s.pipe.mutex node) k) :
    PipeInv std exact { s.proceed ⟨call, .waitMutex⟩ with kernel := k } U := by
  have e := trans.effect v.inv
  have mutex := v.counts.mutex
  rw [here, show critical (some ⟨call, .waitMutex⟩) = 0 from rfl] at mutex
  cases waited_of_trans v.inv (v.sems.live _ Pipe.has_mutex) trans with
  | queued none => omega
  | taken unit value queue live states current =>
      have frames := v.frames.other v.inv e v.sems.apart
        (fun _ _ => ⟨current, congrFun states _⟩) fun _ _ _ _ _ => id
      have after := PipeSys.proceed_current (f := ⟨call, .waitMutex⟩) current
      have counts : Counts std s.pipe k (some ⟨call, .transfer⟩) U s.stored.length s.taken.length :=
        v.counts.keep (fun w => (e.quiet_sem v.inv (v.sems.apart w)).1)
          (by change k.valueOf s.pipe.mutex + 1 = 1; omega) (queue.trans v.counts.free)
          (fun w _ => by rw [here]; simp [owed])
      refine ⟨v.reach.step trivial trans, v.sems.step v.inv (fun _ _ => by simp) trans, ?_,
        v.posts_set fun f h => by cases h; simp, by rw [after]; exact counts, v.buffer⟩
      have moved := frames.proceed (e.inv v.inv) (by rw [current]; exact here) rfl
      rwa [current] at moved

/-- Where a frame goes that has given the mutex back. -/
theorem next_postMutex (on : call.On std) {next : Option Frame}
    (h : Frame.next ⟨call, .postMutex⟩ = next) :
    (∀ g, next = some g → g.call.On std ∧ ¬ g.Pending ∧ (g.phase = .postCount → std = false)) ∧
      critical next = 0 ∧
      ∀ w, (std = true → w = false) → owed (!w) next = owed (!w) (some ⟨call, .postMutex⟩) := by
  subst h
  cases call with
  | readStdin len buf reachedEnd =>
      obtain rfl : std = true := on
      refine ⟨fun g h => ?_, ?_, fun w std => ?_⟩
      · simp only [Frame.next, Frame.loop] at h
        split_ifs at h
        cases h
        exact ⟨rfl, by simp [Frame.Pending], by simp⟩
      · simp only [Frame.next, Frame.loop]
        split_ifs <;> rfl
      · rw [std rfl]
        simp only [Frame.next, Frame.loop]
        split_ifs <;> rfl
  | readPipe len buf reachedEnd =>
      exact ⟨fun g h => by cases h; exact ⟨on, by simp [Frame.Pending], fun _ => on⟩, rfl,
          fun _ _ => by
        simp [owed, Frame.next]⟩
  | writePipe buf pos =>
      exact ⟨fun g h => by cases h; exact ⟨on, by simp [Frame.Pending], fun _ => on⟩, rfl,
          fun _ _ => by
        simp [owed, Frame.next]⟩

/-- Nobody waits for the mutex, so the post of it sets its value. -/
theorem PipeInv.postMutex (v : PipeInv std exact s U) (here : s.current = some ⟨call, .postMutex⟩)
    (trans : Trans s.kernel (.postSemaphore s.pipe.mutex) k) :
    PipeInv std exact { s.proceed ⟨call, .postMutex⟩ with kernel := k } U := by
  have e := trans.effect v.inv
  have p := posted_of_trans v.inv (v.sems.live _ Pipe.has_mutex) trans
  have current : k.currentPCB = s.kernel.currentPCB := p.edits.ring.currentPCB
  have mutex := v.counts.mutex
  rw [here, show critical (some ⟨call, .postMutex⟩) = 1 from rfl] at mutex
  obtain ⟨queue, value⟩ : k.queueOf s.pipe.mutex = [] ∧ k.valueOf s.pipe.mutex = 1 := by
    rcases p.unit with ⟨_, _, _, queue, -⟩ | ⟨-, queue, value⟩
    · rw [v.counts.free] at queue
      simp at queue
    · refine ⟨queue, ?_⟩
      rw [value, show s.kernel.valueOf s.pipe.mutex = 0 by omega]
      rfl
  have frames := v.frames.other v.inv e v.sems.apart
    (fun _ _ => ⟨current, p.calm.here v.inv.current⟩) fun _ _ _ _ _ => id
  have after := PipeSys.proceed_current (f := ⟨call, .postMutex⟩) current
  obtain ⟨goes, outside, owes⟩ := next_postMutex (v.frames.on _ _ here) rfl
  have counts := v.counts.keep (fun w => (e.quiet_sem v.inv (v.sems.apart w)).1)
    (by rw [outside]; exact value) queue fun w std => by rw [here]; exact owes w std
  refine ⟨v.reach.step trivial trans, v.sems.step v.inv (fun _ _ => by simp) trans, ?_,
    v.posts_set fun f h => (goes f h).2.2, by rw [after]; exact counts, v.buffer⟩
  have moved := frames.move (e.inv v.inv) (fun f h => ?_) fun f h => ⟨(goes f h).1, (goes f h).2.1⟩
  · rwa [current] at moved
  · rw [current, show s.inside _ = _ from here] at h
    cases h
    simp [Frame.Pending]

theorem loop_some {next : Option Frame} (h : Frame.loop call = next) (w : Bool) :
    (∀ g, next = some g → g = ⟨call, .waitCount⟩) ∧ owed w next = 0 ∧ critical next = 0 := by
  subst h
  unfold Frame.loop
  split_ifs <;> simp [owed, critical]

/-- The unit that is posted after the access to the buffer. -/
theorem PipeInv.postCount (v : PipeInv std exact s U) (here : s.current = some ⟨call, .postCount⟩)
    (trans : Trans s.kernel (.postSemaphore (s.pipe.countSem !call.writes)) k) :
    ∃ U', PipeInv std exact { s.proceed ⟨call, .postCount⟩ with kernel := k } U' := by
  have isOther : std = false := v.posts _ _ here rfl
  have on : call.On std := v.frames.on _ _ here
  have e := trans.effect v.inv
  have p := posted_of_trans v.inv (v.sems.live _ (Pipe.has_count _)) trans
  have current : k.currentPCB = s.kernel.currentPCB := p.edits.ring.currentPCB
  have count := v.counts.count
  rw [here] at count
  have bound : s.kernel.valueOf (s.pipe.countSem !call.writes) + 1 < 2 ^ 32 := by
    have old := count (!call.writes) fun h => by rw [isOther] at h; cases h
    have := units_le v.buffer (!call.writes)
    simp only [BUFFER_SIZE] at this
    omega
  obtain ⟨U', frames, moved, same⟩ := v.frames.post v.inv e p bound
  have after := PipeSys.proceed_current (f := ⟨call, .postCount⟩) current
  have loops := fun w => loop_some (rfl : Frame.loop call = _) w
  have mutex := (e.quiet_sem v.inv (v.sems.apart (!call.writes)).symm).1
  have counts : Counts std s.pipe k (Frame.loop call) U' s.stored.length s.taken.length := by
    refine ⟨?_, mutex.queue.trans v.counts.free, fun w std => ?_⟩
    · rw [mutex.value, (loops true).2.2, ← v.counts.mutex, here]
      rfl
    · rw [← count w std, (loops _).2.1]
      by_cases own : w = !call.writes
      · subst own
        rw [moved]
        simp [owed]
      · obtain rfl : w = call.writes := by
          revert own
          cases w <;> cases call.writes <;> simp
        rw [Bool.not_not] at same
        have ne : s.pipe.countSem call.writes ≠ s.pipe.countSem !call.writes := fun h =>
          own (sem_inj v.sems.distinct h)
        rw [same, (e.quiet_sem v.inv ne).1.value]
        simp [owed]
  refine ⟨U', v.reach.step trivial trans, v.sems.step v.inv (fun _ _ => by simp) trans, ?_,
    v.posts_set fun f h => ?_, by rw [after]; exact counts, v.buffer⟩
  · have looped := frames.move (e.inv v.inv) (fun f h => ?_) (g := Frame.loop call) fun f h => ?_
    · rwa [current] at looped
    · rw [current, show s.inside _ = _ from here] at h
      cases h
      simp [Frame.Pending]
    · rw [(loops true).1 f h]
      exact ⟨on, by simp [Frame.Pending]⟩
  · rw [(loops true).1 f h]
    simp

/-- The standard input pipe gets a byte while nobody inside it runs. -/
theorem PipeInv.key (v : PipeInv true exact s U) (outside : s.current = none)
    (room : s.stored.length < s.taken.length + BUFFER_SIZE) {c : UInt8}
    (trans : Trans s.kernel (.postSemaphore s.pipe.writtenCountSem) k) :
    ∃ U', PipeInv true exact { s.store c with kernel := k } U' := by
  have e := trans.effect v.inv
  have p := posted_of_trans v.inv (v.sems.live _ (Pipe.has_count false)) trans
  have current : k.currentPCB = s.kernel.currentPCB := p.edits.ring.currentPCB
  have count := v.counts.count false fun _ => rfl
  have bound : s.kernel.valueOf s.pipe.writtenCountSem + 1 < 2 ^ 32 := by
    have := units_le v.buffer false
    simp only [BUFFER_SIZE] at this
    change s.kernel.valueOf s.pipe.writtenCountSem + _ + _ = _ at count
    omega
  obtain ⟨U', frames, moved, -⟩ := v.frames.post (w := false) v.inv e p bound
  have mutex := (e.quiet_sem v.inv (v.sems.apart false).symm).1
  have after : PipeSys.current { s.store c with kernel := k } = none := by
    change s.inside k.currentPCB = none
    rw [current]
    exact outside
  have counts : Counts true s.pipe k none U' (s.stored ++ [c]).length s.taken.length := by
    refine ⟨?_, mutex.queue.trans v.counts.free, fun w std => ?_⟩
    · rw [mutex.value, ← v.counts.mutex, outside]
    · obtain rfl := std rfl
      rw [outside] at count
      rw [moved]
      simp only [units, Bool.false_eq_true, if_false, List.length_append,
        List.length_singleton] at count ⊢
      have := v.buffer.length_le
      omega
  refine ⟨U', v.reach.step trivial trans, ?_, frames, v.posts, ?_, v.buffer.store room c⟩
  · exact (v.sems.step v.inv (fun _ _ => by simp) trans).congr (Pipe.store_same c)
  · rw [after]
    exact counts.congr (Pipe.store_same c)

/-- The running process has been at the buffer, where `call` was `old`. -/
theorem PipeInv.used {old : Call} {p : Pipe} {stored taken : List UInt8} (v : PipeInv std exact s U)
    (here : s.current = some ⟨old, .transfer⟩) (on : call.On std)
    (writes : call.writes = old.writes) (same : s.pipe.SameSems p)
    (buffer : Buffered BUFFER_SIZE p.buffer p.readIdx p.writeIdx stored taken)
    (less : units old.writes stored.length taken.length + 1 =
      units old.writes s.stored.length s.taken.length)
    (more : units (!old.writes) stored.length taken.length =
      units (!old.writes) s.stored.length s.taken.length + 1) :
    PipeInv std exact
      (PipeSys.setCurrent { s with pipe := p, stored := stored, taken := taken }
        (some ⟨call, .postMutex⟩))
      fun w => (U w).erase s.kernel.currentPCB := by
  have unit : s.kernel.currentPCB ∈ U old.writes := v.frames.holders _ _ here (Or.inr rfl)
  have unheld : s.kernel.currentPCB ∉ U (!old.writes) := fun mem => by
    obtain ⟨f, h, e, -⟩ := v.frames.units _ _ mem
    rw [show s.inside _ = _ from here] at h
    cases h
    simp at e
  have after :
      PipeSys.current (PipeSys.setCurrent { s with pipe := p, stored := stored, taken := taken }
      (some ⟨call, .postMutex⟩)) = some ⟨call, .postMutex⟩ := Function.update_self _ _ _
  have counts : Counts std s.pipe s.kernel (some ⟨call, .postMutex⟩)
      (fun w => (U w).erase s.kernel.currentPCB) stored.length taken.length := by
    have mutex := v.counts.mutex
    have count := v.counts.count
    rw [here] at mutex count
    refine ⟨mutex, v.counts.free, fun w std => ?_⟩
    have before := count w std
    by_cases own : w = old.writes
    · subst own
      have card := Finset.card_erase_add_one unit
      simp only [owed, writes] at before ⊢
      simp at before ⊢
      omega
    · obtain rfl : w = !old.writes := by
        revert own
        cases w <;> cases old.writes <;> simp
      rw [Finset.erase_eq_of_notMem unheld, more, ← before]
      simp [owed, writes]
  refine ⟨v.reach, v.sems.congr same, ?_, v.posts_set fun f h => by cases h; simp, ?_, buffer⟩
  · have moved := v.frames.leave v.inv (g := some ⟨call, .postMutex⟩) fun f h => by
      cases h
      exact ⟨on, by simp [Frame.Pending]⟩
    change Frames std exact p.countSem _ _ _
    rw [same.countSem]
    exact moved
  · rw [after]
    exact counts.congr same

/-- A byte is read that was stored, or stored where there is room. -/
theorem PipeInv.transfer (v : PipeInv std exact s U) (here : s.current = some ⟨call, .transfer⟩) :
    ∃ U', PipeInv std exact (s.transfer call) U' := by
  have on : call.On std := v.frames.on _ _ here
  have unit : 0 < units call.writes s.stored.length s.taken.length := by
    have counted : std = true → call.writes = false := fun std => by
      cases call with
      | writePipe buf pos => exact absurd (std.symm.trans on) (by simp)
      | _ => rfl
    have held : 0 < (U call.writes).card :=
      Finset.card_pos.mpr ⟨_, v.frames.holders _ _ here (Or.inr rfl)⟩
    have := v.counts.count call.writes counted
    omega
  have := v.buffer.bound
  have := v.buffer.length_le
  cases call with
  | writePipe buf pos =>
      simp only [units, Call.writes, if_true] at unit
      refine ⟨_, v.used here on rfl (Pipe.store_same (buf.getD pos 0))
        (v.buffer.store (by omega) (buf.getD pos 0)) ?_ ?_⟩
      all_goals
        simp [units, Call.writes]
        omega
  | readPipe len buf reachedEnd =>
      simp only [units, Call.writes, Bool.false_eq_true, if_false] at unit
      refine ⟨_, v.used here on rfl Pipe.advance_same (v.buffer.take (by omega)) ?_ ?_⟩
      all_goals
        simp [units, Call.writes]
        omega
  | readStdin len buf reachedEnd =>
      simp only [units, Call.writes, Bool.false_eq_true, if_false] at unit
      refine ⟨_, v.used here on rfl Pipe.advance_same (v.buffer.take (by omega)) ?_ ?_⟩
      all_goals
        simp [units, Call.writes]
        omega

end Cases

/-! ### Every state that is reached -/

/-- A key press finds a free place. -/
def PipeSys.KeyRoom (s : PipeSys) : Event → Prop
  | .key _ => s.stored.length < s.taken.length + BUFFER_SIZE
  | _ => True

/-- Who is killed inside the pipe was BLOCKED, or dead already. -/
def PipeSys.Spares (s : PipeSys) : Event → Prop
  | .other op => ∀ p f, s.inside p = some f → s.kernel.Touches op (.proc p) →
      ¬ Active (s.kernel.stateOf p)
  | _ => True

/-- A new semaphore beside those there are. -/
structure NewSem (initialValue semId : Nat) (k k' : Kernel) : Prop where
  reach : Reach (fun _ _ => True) k'
  busy : ¬ k'.idle
  fresh : ¬ k.Live semId
  found : k'.semArray[semId]? = some ⟨initialValue, false, Fifo.empty⟩
  others : ∀ s, k.Live s → k'.semArray[s]? = k.semArray[s]?

section Start

variable {k k' : Kernel} {initialValue semId : Nat}

theorem NewSem.live (n : NewSem initialValue semId k k') : k'.Live semId := by
  rw [Live, n.found]
  rfl

theorem NewSem.old (n : NewSem initialValue semId k k') {s : Nat} (live : k.Live s) :
    k'.Live s ∧ semId ≠ s := by
  refine ⟨?_, fun e => n.fresh (e ▸ live)⟩
  rw [Live, n.others s live]
  exact live

theorem semInit_new (reach : Reach (fun _ _ => True) k) (busy : ¬ k.idle) (initialValue : Nat) :
    NewSem initialValue (k.semInit initialValue).2 k (k.semInit initialValue).1 := by
  have i : Inv False k := reach.sound
  have edits := semInit_edits i.toMid initialValue
  have trans : SoTp.Process.Trans k (.semInit initialValue) (k.semInit initialValue).1 :=
    ⟨busy, 0, rfl⟩
  exact ⟨reach.step trivial trans, fun h => busy (edits.ring.idle.mp h), semInit_fresh i.ids _,
    semInit_found i.ids _, fun s live => edits.sems s (not_not.mpr live)⟩

/-- The semaphores of a new pipe. -/
theorem pipeInit_sems (reach : Reach (fun _ _ => True) k) (busy : ¬ k.idle) {garbage : Nat → UInt8}
    {p : Pipe} (init : pipeInit k garbage = (k', p)) :
    Reach (fun _ _ => True) k' ∧ Sems p k' ∧ k'.semArray[p.mutex]? = some ⟨1, false, Fifo.empty⟩ ∧
      ∀ w, k'.semArray[p.countSem w]? = some ⟨units w 0 0, false, Fifo.empty⟩ := by
  have mutex := semInit_new reach busy 1
  have written := semInit_new mutex.reach mutex.busy 0
  have empty := semInit_new written.reach written.busy BUFFER_SIZE
  cases init
  obtain ⟨mutexLive, mutexNe⟩ := written.old mutex.live
  obtain ⟨mutexLive', mutexNe'⟩ := empty.old mutexLive
  obtain ⟨writtenLive, writtenNe⟩ := empty.old written.live
  refine ⟨empty.reach, ⟨fun w => ?_, writtenNe, fun semId has => ?_⟩, ?_, fun w => ?_⟩
  · cases w
    · exact mutexNe
    · exact mutexNe'
  · rcases has with rfl | rfl | rfl
    · exact mutexLive'
    · exact writtenLive
    · exact empty.live
  · exact (empty.others _ mutexLive).trans ((written.others _ mutex.live).trans mutex.found)
  · cases w
    · exact (empty.others _ written.live).trans written.found
    · exact empty.found

end Start

section Reached

variable {std : Bool} {exact : Prop} {s s' : PipeSys} {U : Bool → Finset Nat} {event : Event}
  {admits : PipeSys → Event → Prop}

theorem PipeStart.inv (start : PipeStart s) : PipeInv std exact s fun _ => ∅ := by
  obtain ⟨k, garbage, reach, busy, rfl⟩ := start
  rcases init : pipeInit k garbage with ⟨k', p⟩
  obtain ⟨reach, sems, mutex, count⟩ := pipeInit_sems reach busy init
  have buffer : Buffered BUFFER_SIZE p.buffer p.readIdx p.writeIdx [] [] := by
    cases init
    exact Buffered.empty garbage
  have value : ∀ {semId initialValue}, k'.semArray[semId]? =
      some ⟨initialValue, false, Fifo.empty⟩ →
      k'.valueOf semId = initialValue := fun found => by rw [valueOf, found]; rfl
  have outside : ∀ f : Frame, none = some f → False := fun _ h => by cases h
  have frames : Frames std exact p.countSem k' (fun _ => none) fun _ => ∅ := by
    refine ⟨fun _ f h => (outside f h).elim, fun _ f h => (outside f h).elim,
      fun _ f h => (outside f h).elim, fun _ f h => (outside f h).elim, fun w q hq => ?_,
      fun _ f h => (outside f h).elim, fun _ q hq => absurd hq (Finset.notMem_empty q),
      fun _ _ q hq => absurd hq (Finset.notMem_empty q)⟩
    rw [queueOf_some (count w)] at hq
    cases hq
  refine ⟨reach, sems, frames, fun _ f h => (outside f h).elim,
    ⟨?_, queueOf_some mutex, fun w _ => ?_⟩, buffer⟩
  · exact value mutex
  · exact value (count w)

theorem PipeInv.step (v : PipeInv std exact s U) (room : std = true → s.KeyRoom event)
    (spares : exact → s.Spares event) (trans : PipeTrans std s event s') :
    ∃ U', PipeInv std exact s' U' := by
  cases trans.stepped with
  | other outside apart ran =>
      exact ⟨U, v.other outside apart (fun ex p f h active about =>
        spares ex p f h about active) ran⟩
  | enter outside on _ => exact ⟨U, v.enter outside on⟩
  | @operation f _ _ _ here next ran =>
      obtain ⟨call, phase⟩ := f
      cases phase <;> cases next
      · exact v.waitCount here ran
      · exact ⟨U, v.waitMutex here ran⟩
      · exact ⟨U, v.postMutex here ran⟩
      · exact v.postCount here ran
  | transfer here => exact v.transfer here
  | key isStd outside ran =>
      subst isStd
      exact v.key outside (room rfl) ran

theorem PipeReach.inv (reach : PipeReach std admits s)
    (room : std = true → ∀ s event, admits s event → s.KeyRoom event)
    (spares : exact → ∀ s event, admits s event → s.Spares event) : ∃ U, PipeInv std exact s U := by
  induction reach with
  | start start => exact ⟨_, start.inv⟩
  | step _ ok trans ih =>
      obtain ⟨U, v⟩ := ih
      exact v.step (fun std => room std _ _ ok) (fun ex => spares ex _ _ ok) trans

/-- A pipe other than standard input, whatever the run. -/
theorem PipeReach.sound (reach : PipeReach false admits s) : ∃ U, PipeInv false False s U :=
  reach.inv (fun h => by cases h) fun h => h.elim

end Reached

end SoTp.Pipes
