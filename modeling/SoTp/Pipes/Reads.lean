/-
How a call of `readPipe` ends. With a byte taken it is to return with what is there.
Its loop goes on while the indices differ, but the bytes between them may all be for
readers that were woken and have not run yet; then it blocks, with its byte.

* `read_returns` — in a run without kills, a call that has taken a byte runs on until
  it returns, as long as no transfer leaves just the bytes of such readers.
* `read_blocks_midway` — otherwise it may block.
-/

import SoTp.Pipes.Streams
import SoTp.Process.Exhaustion

namespace SoTp.Pipes

open SoTp.Lib SoTp.Process Kernel

def Kills : Op → Prop
  | .kill _ | .ctrlC => True
  | _ => False

def Event.Kills : Event → Prop
  | .other op => SoTp.Pipes.Kills op
  | _ => False

instance (op : Op) : Decidable (Kills op) :=
  match op with
  | .kill _ | .ctrlC => .isTrue trivial
  | .createProcess .. | .exit _ | .waitPid _ | .sleep .. | .semInit _ | .waitSemaphore ..
  | .postSemaphore _ | .destroySemaphore _ | .blockByUser _ | .unblock
      _ | .changePriority .. | .yield
  | .timerTick | .reschedule | .userCode .. => .isFalse id

instance (event : Event) : Decidable event.Kills :=
  match event with
  | .other op => inferInstanceAs (Decidable (SoTp.Pipes.Kills op))
  | .enter _ | .statement _ | .key _ => .isFalse id

/-- A call of `readPipe` that takes one of the `bytes` there and wants another one leaves
none, or more than there are woken readers. -/
def Frame.Leaves (bytes woken : Nat) : Frame → Prop
  | ⟨.readPipe len buf _, .transfer⟩ => buf.length + 1 < len → 1 < bytes → woken + 1 < bytes
  | _ => True

instance (bytes woken : Nat) (f : Frame) : Decidable (f.Leaves bytes woken) :=
  match f with
  | ⟨.readPipe len buf _, .transfer⟩ =>
      inferInstanceAs (Decidable (buf.length + 1 < len → 1 < bytes → woken + 1 < bytes))
  | ⟨.readPipe .., .waitCount⟩ | ⟨.readPipe .., .waitMutex⟩ | ⟨.readPipe .., .postMutex⟩
  | ⟨.readPipe .., .postCount⟩ | ⟨.writePipe .., _⟩ | ⟨.readStdin .., _⟩ => .isTrue trivial

namespace PipeSys

/-- The readers, apart from the running one, that could go on to take a byte. -/
def wokenReaders (s : PipeSys) : Finset Nat :=
  (Finset.range s.kernel.unused).filter fun p => p ≠ s.kernel.currentPCB ∧
    ((s.inside p).any fun f => !f.call.writes) = true ∧ Active (s.kernel.stateOf p)

/-- No transfer leaves just the bytes of the woken readers. -/
def ByteLeft (s : PipeSys) : Event → Prop
  | .statement _ => ∀ f ∈ s.current, f.Leaves (s.stored.length - s.taken.length) s.wokenReaders.card
  | _ => True

instance (s : PipeSys) (event : Event) : Decidable (s.ByteLeft event) :=
  match event with
  | .statement _ => inferInstanceAs (Decidable (∀ f ∈ s.current, f.Leaves _ _))
  | .other _ | .enter _ | .key _ => .isTrue trivial

end PipeSys

/-- From here on `p` runs, and never waits, until its call has returned, with `bytes`
and maybe more. -/
inductive RunsToReturn (admits : PipeSys → Event → Prop) (p : Nat) (bytes : List UInt8) :
  PipeSys → Prop
  | returned {s : PipeSys} (running : s.kernel.currentPCB = p) (out : s.inside p = none)
      (read : bytes <+: s.returned) : RunsToReturn admits p bytes s
  | goesOn {s : PipeSys} (running : s.kernel.currentPCB = p) (awake : Awake (s.kernel.stateOf p))
      (can : ∃ event s', PipeTrans false s event s')
      (next : ∀ event s', admits s event → PipeTrans false s event s' →
        RunsToReturn admits p bytes s') :
      RunsToReturn admits p bytes s

/-! ### What a reader finds -/

/-- A reader with a byte runs, and where its loop is to go on there is a unit for it. -/
structure Fed (s : PipeSys) : Prop where
  busy : ∀ p f, s.inside p = some f → p ≠ s.kernel.idlePCB
  again : ∀ p f, s.inside p = some f → f.phase = .waitCount ∨ f.Pending → f.call.again = true
  runs : ∀ p f, s.inside p = some f → f.call.read ≠ [] → p = s.kernel.currentPCB
  unit : ∀ f, s.current = some f → f.call.read ≠ [] → ¬ f.Pending → f.call.again = true →
    0 < s.kernel.valueOf s.pipe.writtenCountSem

section Reads

variable {s s' : PipeSys} {k : Kernel} {U : Bool → Finset Nat} {f : Frame} {op : Op} {node : Bool}
  {event : Event}

/-- The running process goes on to `g`; if it has a byte, it stays the running one. -/
theorem Fed.set {g : Option Frame} {pipe : Pipe} {stored taken returned : List UInt8} (h : Fed s)
    (idle : k.idlePCB = s.kernel.idlePCB) (busy : s.kernel.currentPCB ≠ s.kernel.idlePCB)
    (again : ∀ f, g = some f → f.phase = .waitCount ∨ f.Pending → f.call.again = true)
    (stays : ∀ f, g = some f → f.call.read ≠ [] → k.currentPCB = s.kernel.currentPCB)
    (unit : ∀ f, g = some f → f.call.read ≠ [] → ¬ f.Pending → f.call.again = true →
      0 < k.valueOf pipe.writtenCountSem) :
    Fed ⟨k, pipe, Function.update s.inside s.kernel.currentPCB g, stored, taken, returned⟩ where
  busy p f here := by
    rw [show PipeSys.kernel _ = k from rfl, idle]
    rcases update_some.mp here with ⟨rfl, -⟩ | ⟨-, here⟩
    · exact busy
    · exact h.busy p f here
  again p f here := by
    rcases update_some.mp here with ⟨-, e⟩ | ⟨-, here⟩
    · exact again f e
    · exact h.again p f here
  runs p f here read := by
    rcases update_some.mp here with ⟨rfl, e⟩ | ⟨other, here⟩
    · exact (stays f e read).symm
    · exact absurd (h.runs p f here read) other
  unit f here read := by
    rcases update_some.mp here with ⟨-, e⟩ | ⟨other, here⟩
    · exact unit f e read
    · exact absurd (h.runs _ f here read) other

theorem Fed.not_idle (h : Fed s) (here : s.current = some f) : ¬ s.kernel.idle := fun idle => by
  refine h.busy _ f here ?_
  rw [currentPCB, show s.kernel.pcbList.current = s.kernel.idleProcPCBNode from idle]
  rfl

/-- A reader with a byte finds a unit at each wait, so it is not blocked. -/
theorem PipeInv.stays {exact : Prop} (v : PipeInv false exact s U) (h : Fed s)
    (here : s.current = some f)
    (read : f.call.read ≠ []) (next : f.op s.pipe node = some op) (trans : Trans s.kernel op k) :
    k.currentPCB = s.kernel.currentPCB := by
  have writes : f.call.writes = false := by
    obtain ⟨call, phase⟩ := f
    cases call with
    | writePipe buf pos => exact absurd rfl read
    | _ => rfl
  obtain ⟨call, phase⟩ := f
  cases phase with
  | waitCount =>
      cases next
      have unit := h.unit _ here read (by simp [Frame.Pending]) (h.again _ _ here (Or.inl rfl))
      cases waited_of_trans v.inv (v.sems.live _ (Pipe.has_count _)) trans with
      | taken _ _ _ _ _ current => exact current
      | queued none =>
          rw [show call.writes = false from writes] at none
          exact absurd none unit.ne'
  | waitMutex =>
      cases next
      have mutex := v.counts.mutex
      rw [here, show critical (some ⟨call, .waitMutex⟩) = 0 from rfl] at mutex
      cases waited_of_trans v.inv (v.sems.live _ Pipe.has_mutex) trans with
      | taken _ _ _ _ _ current => exact current
      | queued none => omega
  | transfer => cases next
  | postMutex =>
      cases next
      exact (posted_of_trans v.inv (v.sems.live _ Pipe.has_mutex) trans).edits.ring.currentPCB
  | postCount =>
      cases next
      exact (posted_of_trans v.inv (v.sems.live _ (Pipe.has_count _)) trans).edits.ring.currentPCB

/-- The readers with a unit are the woken ones, and the running one. -/
theorem PipeInv.holders_le (v : PipeInv false True s U) :
    (U false).card ≤ s.wokenReaders.card + 1 := by
  refine le_trans (Finset.card_le_card fun p hp => ?_) (Finset.card_insert_le s.kernel.currentPCB _)
  obtain ⟨f, h, writes, -, quiet⟩ := v.frames.units false p hp
  by_cases own : p = s.kernel.currentPCB
  · exact own ▸ Finset.mem_insert_self _ _
  · refine Finset.mem_insert_of_mem (Finset.mem_filter.mpr
      ⟨Finset.mem_range.mpr (v.frames.known p f h), own, ?_, quiet,
        v.frames.alive trivial false p hp⟩)
    rw [h, Option.any_some, writes]
    rfl

/-- A transfer after which the loop is to go on leaves a unit. -/
theorem PipeInv.unit_left {len : Nat} {buf : List UInt8} {reachedEnd : Bool}
    (v : PipeInv false True s U) (here : s.current = some ⟨.readPipe len buf reachedEnd, .transfer⟩)
    (left : s.ByteLeft (.statement node)) (more : buf.length + 1 < len)
    (apart : (s.pipe.readIdx + 1) % BUFFER_SIZE ≠ s.pipe.writeIdx) :
    0 < s.kernel.valueOf s.pipe.writtenCountSem := by
  have count := v.counts.count false fun h => by cases h
  rw [here] at count
  change s.kernel.valueOf s.pipe.writtenCountSem + (U false).card + 0 =
    s.stored.length - s.taken.length at count
  have held : 0 < (U false).card := Finset.card_pos.mpr ⟨_, v.frames.holders _ _ here (Or.inr rfl)⟩
  -- The indices differ, so this is not the last byte.
  have bytes : s.taken.length + 1 ≠ s.stored.length := fun last => apart (by
    rw [v.buffer.readIdx, v.buffer.writeIdx, ← last, Nat.mod_add_mod])
  have := left _ here more (by omega)
  have := v.holders_le
  omega

theorem Call.again_readPipe {len : Nat} {buf : List UInt8} {reachedEnd : Bool} :
    (Call.readPipe len buf reachedEnd).again = true ↔ buf.length < len ∧ reachedEnd = false := by
  simp [Call.again]

/-- The statements before the access to the buffer, and those after it. -/
theorem Frame.next_cases {g : Frame} (h : f.next = some g) (here : f.phase ≠ .transfer) :
    (f.phase = .waitCount ∨ f.Pending) ∧ g.Pending ∨
      (f.phase = .postMutex ∨ f.phase = .postCount) ∧
        (g.phase = .postCount ∨ g.phase = .waitCount ∧ g.call.again = true) := by
  obtain ⟨call, phase⟩ := f
  have loop : Frame.loop call = some g → g.phase = .waitCount ∧ g.call.again = true := fun h => by
    unfold Frame.loop at h
    split_ifs at h with again
    cases h
    exact ⟨rfl, again⟩
  cases phase with
  | waitCount =>
      cases h
      exact Or.inl ⟨Or.inl rfl, Or.inl rfl⟩
  | waitMutex =>
      cases h
      exact Or.inl ⟨Or.inr (Or.inl rfl), Or.inr rfl⟩
  | transfer => exact absurd rfl here
  | postMutex =>
      refine Or.inr ⟨Or.inl rfl, ?_⟩
      cases call with
      | readStdin => exact Or.inr (loop h)
      | _ => cases h; exact Or.inl rfl
  | postCount => exact Or.inr ⟨Or.inr rfl, Or.inr (loop h)⟩

/-- The posts of a reader leave the bytes' semaphore alone. -/
theorem PipeInv.keeps_unit {exact : Prop} (v : PipeInv false exact s U)
    (reads : f.call.writes = false)
    (after : f.phase = .postMutex ∨ f.phase = .postCount) (next : f.op s.pipe node = some op)
    (trans : Trans s.kernel op k) :
    k.valueOf s.pipe.writtenCountSem = s.kernel.valueOf s.pipe.writtenCountSem := by
  have e := trans.effect v.inv
  refine (e.quiet_sem v.inv ?_).1.value
  obtain ⟨call, phase⟩ := f
  rcases after with rfl | rfl
  · cases next
    exact v.sems.apart false
  · cases next
    rw [show call.writes = false from reads]
    exact v.sems.distinct.symm

theorem Fed.step (v : PipeInv false True s U) (h : Fed s) (left : s.ByteLeft event)
    (trans : PipeTrans false s event s') : Fed s' := by
  cases trans.stepped with
  | @other op k outside apart ran =>
      have idle := (ran.effect v.inv).idlePCB v.inv
      have empty : ∀ p f, s.inside p = some f → f.call.read = [] := fun p f here => by
        by_contra read
        rw [h.runs p f here read, show s.inside _ = none from outside] at here
        cases here
      exact ⟨fun p f here => (h.busy p f here).trans_eq idle.symm, h.again,
        fun p f here read => absurd (empty p f here) read, fun f here read =>
          absurd (empty _ f here) read⟩
  | @enter call outside on starts =>
      have running : ¬ s.kernel.idle := by
        obtain ⟨fuel, run⟩ := trans
        unfold PipeSys.exec at run
        simp only at run
        split_ifs at run with can
        exact can.2.1
      refine h.set rfl (v.inv.current_ne_idle running) (fun f e _ => ?_)
        (fun _ _ _ => rfl) fun f e read => ?_
      · cases e
        cases call with
        | writePipe buf pos => simpa [Call.again, starts.2] using starts.1
        | readPipe | readStdin => simpa [Call.again, starts.2.1, starts.2.2] using starts.1
      · cases e
        cases call with
        | writePipe buf pos => exact absurd rfl read
        | readPipe | readStdin => exact absurd starts.2.1 read
  | @operation f node op k here next ran =>
      have idle := (ran.effect v.inv).idlePCB v.inv
      have busy := h.busy _ f here
      have notTransfer : f.phase ≠ .transfer := fun e => by
        unfold Frame.op at next
        rw [e] at next
        cases next
      refine h.set idle busy (fun g e first => ?_)
        (fun g e read => ?_) fun g e read pending again => ?_
      · rcases Frame.next_cases e notTransfer with ⟨before, -⟩ | ⟨-, far | ⟨-, again⟩⟩
        · exact Frame.next_call e ▸ h.again _ f here before
        · rcases first with near | near | near <;> rw [far] at near <;> cases near
        · exact again
      · exact v.stays h here (Frame.next_call e ▸ read) next ran
      · rw [Frame.next_call e] at read again
        rcases Frame.next_cases e notTransfer with ⟨-, far⟩ | ⟨after, -⟩
        · exact absurd far pending
        · have reads : f.call.writes = false := by
            cases call : f.call with
            | writePipe => rw [call] at read; exact absurd rfl read
            | _ => rfl
          change 0 < k.valueOf s.pipe.writtenCountSem
          rw [v.keeps_unit reads after next ran]
          refine h.unit f here read (fun far => ?_) again
          rcases after with near | near <;> rcases far with far | far <;>
            rw [near] at far <;> cases far
  | @transfer call node here =>
      have busy := h.busy _ _ here
      cases call with
      | writePipe buf pos =>
          refine h.set rfl busy (fun f e first => ?_) (fun _ _ _ => rfl) fun f e read => ?_
          · cases e
            simp [Frame.Pending] at first
          · cases e
            exact absurd rfl read
      | readPipe len buf reachedEnd =>
          refine h.set rfl busy (fun f e first => ?_) (fun _ _ _ => rfl) fun f e _ _ again => ?_
          · cases e
            simp [Frame.Pending] at first
          · cases e
            rw [Call.again_readPipe, Bool.or_eq_false_iff, List.length_append] at again
            exact v.unit_left here left again.1 fun same => by
              rw [show s.pipe.advance.readIdx = _ from same] at again
              simp [Pipe.advance] at again
      | readStdin len buf reachedEnd => exact absurd (v.frames.on _ _ here) (by simp [Call.On])
  | key isStd _ _ => cases isStd

/-- Nobody inside the pipe is killed. -/
theorem spares_of_not_kills {std : Bool} (calm : ¬ event.Kills) (trans : PipeTrans std s event s') :
    s.Spares event := by
  cases trans.stepped with
  | @other op k outside apart ran =>
      intro p f here about
      cases op with
      | exit exitCode =>
          obtain rfl : p = s.kernel.currentPCB := about
          rw [show s.inside _ = none from outside] at here
          cases here
      | kill pid => exact absurd trivial calm
      | ctrlC => exact absurd trivial calm
      | _ => exact about.elim
  | _ => trivial

theorem PipeReach.fed (reach : PipeReach false (fun s event => ¬ event.Kills ∧
    s.ByteLeft event) s) : ∃ U, PipeInv false True s U ∧ Fed s := by
  induction reach with
  | start start =>
      refine ⟨_, start.inv, ?_⟩
      obtain ⟨k, garbage, -, -, rfl⟩ := start
      exact ⟨fun _ _ h => (by cases h), fun _ _ h => (by cases h),
        fun _ _ h => (by cases h), fun _ h => (by cases h)⟩
  | step _ ok trans ih =>
      obtain ⟨U, v, h⟩ := ih
      obtain ⟨U', v'⟩ := v.step (fun std => by cases std)
        (fun _ => spares_of_not_kills ok.1 trans) trans
      exact ⟨U', v', h.step v ok.2 trans⟩

/-! ### The way to the return -/

/-- No process was killed so far, so a statement of a call that is inside ends. -/
theorem Fed.goes_on (h : Fed s) (history : Reach (fun _ op => ¬ Kills op) s.kernel)
    (here : s.current = some f) : ∃ event s', PipeTrans false s event s' := by
  have i : Inv True s.kernel := history.inv fun _ k op calm => by
    cases op with
    | ctrlC => exact absurd trivial calm
    | _ => trivial
  have busy := h.not_idle here
  cases next : f.op s.pipe true with
  | none =>
      refine ⟨.statement true, s.transfer f.call, 0, ?_⟩
      simp only [PipeSys.exec, here, next]
  | some op =>
      obtain ⟨fuel, k, run⟩ : ∃ fuel k, s.kernel.exec fuel op = .ok k ∧ s.kernel.Enabled op := by
        obtain ⟨call, phase⟩ := f
        cases phase <;> cases next
        · obtain ⟨n, r, run⟩ := waitSemaphore_total i busy (s.pipe.countSem call.writes) true
          exact ⟨n + 1, r.1, by rw [exec, run (n + 1) n.lt_succ_self]; rfl, busy⟩
        · obtain ⟨n, r, run⟩ := waitSemaphore_total i busy s.pipe.mutex true
          exact ⟨n + 1, r.1, by rw [exec, run (n + 1) n.lt_succ_self]; rfl, busy⟩
        · obtain ⟨n, total⟩ := postSemaphore_total i s.pipe.mutex
          obtain ⟨r, run⟩ := total (n + 1) n.lt_succ_self
          exact ⟨n + 1, r.1, by rw [exec, run]; rfl, trivial⟩
        · obtain ⟨n, total⟩ := postSemaphore_total i (s.pipe.countSem !call.writes)
          obtain ⟨r, run⟩ := total (n + 1) n.lt_succ_self
          exact ⟨n + 1, r.1, by rw [exec, run]; rfl, trivial⟩
      refine ⟨.statement true, { s.proceed f with kernel := k }, fuel, ?_⟩
      simp only [PipeSys.exec, here, next, PipeSys.run]
      rw [if_pos (show (s.proceed f).kernel.Enabled op from run.2),
        show (s.proceed f).kernel.exec fuel op = .ok k from run.1]

/-- The statements a call of `readPipe` has left, at most. -/
def Frame.left : Frame → Nat
  | ⟨.readPipe len buf _, phase⟩ =>
      5 * (len - buf.length) +
        match phase with
        | .waitCount => 2
        | .waitMutex => 1
        | .transfer => 0
        | .postMutex => 4
        | .postCount => 3
  | _ => 0

theorem Frame.next_left {len : Nat} {buf : List UInt8} {reachedEnd : Bool}
    {phase : Phase} {g : Frame}
    (h : Frame.next ⟨.readPipe len buf reachedEnd, phase⟩ = some g) (here : phase ≠ .transfer) :
    ∃ phase', g = ⟨.readPipe len buf reachedEnd, phase'⟩ ∧
      g.left < Frame.left ⟨.readPipe len buf reachedEnd, phase⟩ := by
  cases phase with
  | transfer => exact absurd rfl here
  | postCount =>
      simp only [Frame.next, Frame.loop] at h
      split_ifs at h
      cases h
      exact ⟨_, rfl, by simp [Frame.left]⟩
  | _ =>
      cases h
      exact ⟨_, rfl, by simp [Frame.left]⟩

/-- The kernel's run goes on without kills. -/
theorem PipeTrans.history {std : Bool} (calm : ¬ event.Kills) (trans : PipeTrans std s event s')
    (history : Reach (fun _ op => ¬ Kills op) s.kernel) :
      Reach (fun _ op => ¬ Kills op) s'.kernel := by
  cases trans.stepped with
  | other _ _ ran => exact history.step calm ran
  | enter _ _ _ => exact history
  | @operation f node op k here next ran =>
      refine history.step ?_ ran
      obtain ⟨call, phase⟩ := f
      cases phase <;> cases next <;> exact id
  | @transfer call _ _ => cases call <;> exact history
  | key _ _ ran => exact history.step id ran

theorem Fed.returns {p len : Nat} {bytes : List UInt8} (n : Nat) {buf : List UInt8}
    {reachedEnd : Bool}
    {phase : Phase} (v : PipeInv false True s U) (h : Fed s)
    (history : Reach (fun _ op => ¬ Kills op) s.kernel)
    (inside : s.inside p = some ⟨.readPipe len buf reachedEnd, phase⟩) (begun : buf ≠ [])
    (read : bytes <+: s.returned ++ buf)
    (left : Frame.left ⟨.readPipe len buf reachedEnd, phase⟩ < n) :
    RunsToReturn (fun s event => ¬ event.Kills ∧ s.ByteLeft event) p bytes s := by
  induction n generalizing s U buf reachedEnd phase with
  | zero => cases left
  | succ n ih =>
      obtain rfl : p = s.kernel.currentPCB := h.runs p _ inside begun
      refine .goesOn rfl v.inv.current (h.goes_on history inside) fun event s' ok trans => ?_
      obtain ⟨U', v'⟩ := v.step (fun std => by cases std)
        (fun _ => spares_of_not_kills ok.1 trans) trans
      have h' := h.step v ok.2 trans
      have history' := trans.history ok.1 history
      cases trans.stepped with
      | other outside _ _ | enter outside _ _ =>
          rw [show s.inside _ = none from outside] at inside
          cases inside
      | key isStd _ _ => cases isStd
      | @operation f node op k here next ran =>
          obtain rfl : ⟨.readPipe len buf reachedEnd, phase⟩ = f :=
            Option.some.inj (inside.symm.trans here)
          have current := v.stays h here begun next ran
          have notTransfer : phase ≠ .transfer := fun e => by
            subst e
            cases next
          cases goes : Frame.next ⟨.readPipe len buf reachedEnd, phase⟩ with
          | none =>
              refine .returned current ((Function.update_self _ _ _).trans goes) ?_
              change _ <+: s.returned ++ _
              rw [goes]
              exact read
          | some g =>
              obtain ⟨phase', rfl, less⟩ := Frame.next_left goes notTransfer
              refine ih v' h' history' ((Function.update_self _ _ _).trans goes) begun ?_ (by omega)
              change _ <+: (s.returned ++ _) ++ buf
              rw [goes]
              simpa using read
      | @transfer call node here =>
          obtain ⟨rfl, rfl⟩ : .readPipe len buf reachedEnd = call ∧ phase = .transfer := by
            have e := inside.symm.trans here
            cases e
            exact ⟨rfl, rfl⟩
          have wanted := (Call.again_readPipe.mp (h.again _ _ here (Or.inr (Or.inr rfl)))).1
          refine ih v' h' history' (Function.update_self _ _ _) (by simp) ?_ ?_
          · rw [← List.append_assoc]
            exact read.trans (List.prefix_append _ _)
          · simp only [Frame.left, List.length_append, List.length_singleton] at left ⊢
            omega

end Reads

/-! ### Readers that block and readers that return -/

/-- In a run without kills in which each transfer that is not the last leaves a byte
for its own call, if any: a call that has taken a byte is running, and goes on until it
returns with it. -/
theorem read_returns {s : PipeSys} {p len : Nat} {buf : List UInt8} {reachedEnd : Bool}
    {phase : Phase} (reach : PipeReach false (fun s event => ¬ event.Kills ∧ s.ByteLeft event) s)
    (history : Reach (fun _ op => ¬ Kills op) s.kernel)
    (inside : s.inside p = some ⟨.readPipe len buf reachedEnd, phase⟩) (begun : buf ≠ []) :
    RunsToReturn (fun s event => ¬ event.Kills ∧ s.ByteLeft event) p (s.returned ++ buf) s := by
  obtain ⟨U, v, h⟩ := reach.fed
  exact h.returns _ v history inside begun List.prefix_rfl (Nat.lt_succ_self _)

theorem semInit_history {k : Kernel} (history : Reach (fun _ op => ¬ Kills op) k) (busy : ¬ k.idle)
    (initialValue : Nat) : Reach (fun _ op => ¬ Kills op) (k.semInit initialValue).1 := by
  have trans : Process.Trans k (.semInit initialValue) (k.semInit initialValue).1 := ⟨busy, 0, rfl⟩
  exact history.step id trans

theorem newPipe_history : Reach (fun _ op => ¬ Kills op) newPipe.kernel := by
  have boots : Reach (fun _ op => ¬ Kills op) (boot 0 0 0) := ⟨0, 0, 0, .refl⟩
  have mutex := semInit_history boots (by decide) 1
  have written := semInit_history mutex (by decide) 0
  exact semInit_history written (by decide) BUFFER_SIZE

deriving instance DecidableEq for Call, Frame

/-- `init` waits on the empty pipe, a second process writes the two bytes, and `init` is
inside its call with the first one. -/
def readsBetween : List Event :=
  [.other (.createProcess ⟨true, true, true, true, true⟩ 0 0), .enter (.readPipe 2 [] false),
    .statement true, .enter (.writePipe [7, 8] 0)] ++ List.replicate 10 (.statement true) ++
    .other .reschedule :: List.replicate 2 (.statement true)

theorem read_returns_between :
    ∃ s : PipeSys, s.inside 4 = some ⟨.readPipe 2 [7] false, .postMutex⟩ ∧
      RunsToReturn (fun s event => ¬ event.Kills ∧ s.ByteLeft event) 4 [7] s := by
  have ran : (newPipe.perform false (fun s event => s.ByteLeft event) 10 readsBetween).map
      (fun s => (s.inside 4, s.returned)) =
        some (some ⟨.readPipe 2 [7] false, .postMutex⟩, []) := by
    decide +kernel
  have calm : ∀ event ∈ readsBetween, ¬ event.Kills := by decide
  obtain ⟨s, run, state⟩ := Option.map_eq_some_iff.mp ran
  obtain ⟨inside, returned⟩ := Prod.mk.inj state
  have reach : PipeReach false (fun s event => ¬ event.Kills ∧ s.ByteLeft event) s :=
    (PipeReach.start newPipe_start).perform (fun event he _ left => ⟨calm event he, left⟩) run
  have history := PipeSys.perform_induct newPipe_history
    (fun event he _ _ _ trans history => trans.history (calm event he) history) run
  have returns := read_returns reach history inside (by simp)
  rw [returned] at returns
  exact ⟨s, inside, returns⟩

/-- `init` writes two bytes, and reads. -/
def writesThenReads (statements : Nat) : List Event :=
  .enter (.writePipe [7, 8] 0) :: List.replicate 10 (.statement true) ++
    .enter (.readPipe 2 [] false) :: List.replicate statements (.statement true)

/-- The first of the two bytes wakes a reader. `init` takes that byte, goes on for the
second one, and blocks. -/
theorem read_blocks_midway : ∃ s, PipeReach false (fun _ event => ¬ event.Kills) s ∧
    s.taken.length < s.stored.length ∧
      ∃ p f, s.inside p = some f ∧ f.call.read ≠ [] ∧ s.kernel.stateOf p = .blocked := by
  have ran : (newPipe.perform false (fun _ _ => True) 40 (readerWaits ++ writesThenReads 6)).map
      (fun s => (s.stored, s.taken, s.kernel.stateOf 4, (s.inside 4).map fun f => f.call.read)) =
      some ([7, 8], [7], .blocked, some [7]) := by decide +kernel
  have calm : ∀ event ∈ readerWaits ++ writesThenReads 6, ¬ event.Kills := by decide
  obtain ⟨s, run, state⟩ := Option.map_eq_some_iff.mp ran
  simp only [Prod.mk.injEq] at state
  obtain ⟨stored, taken, blocked, read⟩ := state
  obtain ⟨f, inside, read⟩ := Option.map_eq_some_iff.mp read
  exact ⟨s, (PipeReach.start newPipe_start).perform (fun event he _ _ => calm event he) run,
    by simp [stored, taken], 4, f, inside, by simp [read], blocked⟩

end SoTp.Pipes
