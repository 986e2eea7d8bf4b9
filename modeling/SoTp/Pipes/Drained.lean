/-
What becomes of the processes inside a destroyed pipe.

* `destroyed_in_use` — in runs of careful steps a destroyed pipe delivers what was
  written to it, in order and once, and nobody inside works on a pipe that is created
  later; a reader that finds a byte when it runs again returns.
* `destroyed_reader_returns` — in any run, a reader that was BLOCKED returns with a byte
  that nobody wrote.
-/

import SoTp.Pipes.Abandoned
import SoTp.Pipes.Reads

namespace SoTp.Pipes

open SoTp.Lib SoTp.Process Kernel

namespace World

/-- From here on `p` runs, with careful steps, until its call on the pipe has returned,
with `bytes` and maybe more. -/
inductive Returns (p a : Nat) (bytes : List UInt8) : World → Prop
  | returned {w : World} (running : w.kernel.currentPCB = p) (out : w.inside p = none)
      (read : bytes <+: (w.memory a).returned) : Returns p a bytes w
  | goesOn {w : World} (running : w.kernel.currentPCB = p)
      (can : ∃ action w', w.Careful action ∧ WorldTrans w action w')
      (next : ∀ action w', WorldTrans w action w' → Returns p a bytes w') : Returns p a bytes w

/-- The running process reads what is left in a destroyed pipe. -/
structure Draining (w : World) (a len : Nat) (buf : List UInt8) (reachedEnd : Bool)
    (phase : Phase) : Prop where
  here : w.current = some (a, ⟨.readPipe len buf reachedEnd, phase⟩)
  busy : ¬ w.kernel.idle
  down : w.destroyed a = true
  there : w.freed a = false
  dead : ∀ semId, (w.pipeAt a).Has semId → ¬ w.kernel.Live semId
  buffered : Buffered BUFFER_SIZE (w.pipeAt a).buffer (w.pipeAt a).readIdx (w.pipeAt a).writeIdx
    (w.memory a).stored (w.memory a).taken
  supply : (w.memory a).taken.length < (w.memory a).stored.length ∨
    (phase = .postMutex ∨ phase = .postCount) ∧ reachedEnd = true

end World

/-- The statements up to the next access to the buffer. -/
def Phase.left : Phase → Nat
  | .waitCount => 2
  | .waitMutex => 1
  | .transfer => 0
  | .postMutex => 4
  | .postCount => 3

/-- The statements left, at most. -/
def World.statementsLeft (w : World) (a : Nat) (phase : Phase) : Nat :=
  5 * ((w.memory a).stored.length - (w.memory a).taken.length) + phase.left

section Draining

variable {w w' : World} {a len : Nat} {buf : List UInt8} {reachedEnd : Bool} {phase : Phase}
    {k k' : Kernel}
  {op : Op} {action : Action} {f : Frame}

/-- Nobody is blocked by a destroyed semaphore. -/
theorem dead_statement {p : Pipe} {node : Bool} (dead : ∀ semId, p.Has semId → ¬ k.Live semId)
    (busy : ¬ k.idle) (next : f.op p node = some op) : k.Enabled op ∧
      ∀ fuel, k.exec fuel op = .ok k := by
  obtain ⟨call, phase⟩ := f
  cases phase <;> cases next
  · exact ⟨busy,
      fun fuel => by rw [exec, (dead_refuses (dead _ (Pipe.has_count _)) fuel node).1]; rfl⟩
  · exact ⟨busy, fun fuel => by rw [exec, (dead_refuses (dead _ Pipe.has_mutex) fuel node).1]; rfl⟩
  · exact ⟨trivial,
      fun fuel => by rw [exec, (dead_refuses (dead _ Pipe.has_mutex) fuel node).2.1]; rfl⟩
  · exact ⟨trivial,
      fun fuel => by rw [exec, (dead_refuses (dead _ (Pipe.has_count _)) fuel node).2.1]; rfl⟩

/-! ### Who was blocked -/

/-- Only the running process is blocked by an operation. -/
theorem stays_unblocked {p : Nat} (i : Inv False k) (trans : Trans k op k')
    (other : p ≠ k.currentPCB)
    (lt : p < k.unused) (awake : k.stateOf p ≠ .blocked) : k'.stateOf p ≠ .blocked :=
      fun blocked => by
  have e := trans.effect i
  rcases e.waits (Or.inl blocked) with (w | killed) | own
  · exact awake w
  · rcases e.moves.killed p lt killed with e | e <;> rw [blocked] at e <;> cases e
  · exact other own

/-- The end of a semaphore wakes who is in its queue, and leaves the other queues alone. -/
theorem Destroyed.unblocks {p s semId : Nat} (d : Destroyed s k k') (other : p ≠ k.currentPCB)
    (lt : p < k.unused) (queued : p ∈ k.queueOf semId ∨ k.stateOf p ≠ .blocked) :
    s ≠ semId ∧ p ∈ k'.queueOf semId ∨ k'.stateOf p ≠ .blocked := by
  have stays := stays_unblocked d.inv d.trans other lt
  rcases queued with queued | awake
  · by_cases e : s = semId
    · subst e
      by_cases blocked : k.stateOf p = .blocked
      · exact Or.inr (by rw [d.wakes p queued blocked]; simp)
      · exact Or.inr (stays blocked)
    · have quiet := (d.trans.effect d.inv).quiet_sem d.inv (Ne.symm e)
      exact Or.inl ⟨e, quiet.1.queue ▸ queued⟩
  · exact Or.inr (stays awake)

theorem destroySemaphores_unblock {pipe : Pipe} {p semId fuel : Nat}
    (reach : Reach (fun _ _ => True) k)
    (busy : ¬ k.idle) (run : World.destroySemaphores fuel pipe k = .ok k') (has : pipe.Has semId)
    (queued : p ∈ k.queueOf semId) (blocked : k.stateOf p = .blocked) :
      k'.stateOf p ≠ .blocked := by
  obtain ⟨k₁, k₂, first, second, third⟩ := destroySemaphores_cases reach busy run
  have other : p ≠ k.currentPCB := fun e =>
    first.inv.current_unrecorded first.inv.current (.queue semId) (e ▸ queued)
  have lt : p < k.unused := first.inv.lt_unused (by rw [blocked]; simp)
  have lt₁ := lt.trans_le (Ages.of_trans first.inv first.trans).unused
  have lt₂ := lt₁.trans_le (Ages.of_trans second.inv second.trans).unused
  have other₁ : p ≠ k₁.currentPCB := first.current ▸ other
  have other₂ : p ≠ k₂.currentPCB := second.current ▸ other₁
  have after₁ := first.unblocks other lt (Or.inl queued)
  have after₂ := second.unblocks other₁ lt₁ (after₁.imp_left And.right)
  have after₃ := third.unblocks other₂ lt₂ (after₂.imp_left And.right)
  have stays₂ := stays_unblocked second.inv second.trans other₁ lt₁
  have stays₃ := stays_unblocked third.inv third.trans other₂ lt₂
  rcases has with rfl | rfl | rfl
  · exact stays₃ (stays₂ (after₁.resolve_left fun h => h.1 rfl))
  · exact stays₃ (after₂.resolve_left fun h => h.1 rfl)
  · exact after₃.resolve_left fun h => h.1 rfl

/-- Only `destroyPipe` marks a pipe. -/
theorem WorldTrans.marks (trans : WorldTrans w action w') (up : w.destroyed a = false)
    (down : w'.destroyed a = true) :
    ¬ w.kernel.idle ∧ ∃ fuel, World.destroySemaphores fuel (w.pipeAt a) w.kernel =
      .ok w'.kernel := by
  cases trans.stepped with
  | other | refuses | enter => cases up.symm.trans down
  | pipeInit =>
      by_cases e : a = w.unused
      · rw [World.destroyed, e, w.pipeInit_new] at down
        cases down
      · rw [World.destroyed, World.pipeInit_old _ e] at down
        cases up.symm.trans down
  | @destroyPipe pipeId b fuel _ _ busy _ _ run =>
      by_cases e : a = b
      · exact ⟨busy, fuel, e ▸ run⟩
      · have same := w.close_old pipeId e
        replace down : ((w.close pipeId b).memory a).destroyed = true := down
        rw [same] at down
        cases up.symm.trans down
  | statement _ _ ran =>
      cases up.symm.trans ((World.put_same (statement_kernel ran).1 a).2.1.symm.trans down)

namespace World.Draining

theorem goes_on (d : w.Draining a len buf reachedEnd phase) :
    ∃ action w', w.Careful action ∧ WorldTrans w action w' := by
  have here := World.view_here d.here
  have careful : w.Careful (.statement true) :=
      fun there mem _ (transfers : there.2.phase = .transfer) => by
    cases d.here.symm.trans mem
    rcases d.supply with some | ⟨after, -⟩
    · exact some
    · rw [show phase = .transfer from transfers] at after
      rcases after with e | e <;> cases e
  obtain ⟨s, ran⟩ : ∃ s, (w.view a).exec false 0 (.statement true) = some s := by
    cases next : Frame.op ⟨.readPipe len buf reachedEnd, phase⟩ (w.view a).pipe true with
    | none =>
        exact ⟨(w.view a).transfer
          (.readPipe len buf reachedEnd), by simp only [PipeSys.exec, here, next]⟩
    | some op =>
        obtain ⟨enabled, run⟩ := dead_statement d.dead d.busy next
        refine ⟨{ (w.view a).proceed ⟨.readPipe len buf reachedEnd, phase⟩ with kernel := w.kernel }, ?_⟩
        simp only [PipeSys.exec, here, next, PipeSys.run]
        rw [if_pos (show ((w.view a).proceed _).kernel.Enabled op from enabled),
          show ((w.view a).proceed _).kernel.exec 0 op = .ok w.kernel from run 0]
  refine ⟨.statement true, w.put a s, careful, 0, ?_⟩
  change w.current.bind _ = _
  rw [d.here]
  change (if w.freed a = true then none else _) = _
  rw [d.there, if_neg Bool.false_ne_true, ran]
  rfl

/-- The reader has gone on to another statement. -/
theorem put (d : w.Draining a len buf reachedEnd phase) {s : PipeSys} {buf' : List UInt8}
    {reachedEnd' : Bool}
    {phase' : Phase} (kernel : s.kernel = w.kernel) (same : (w.pipeAt a).SameSems s.pipe)
    (goes : s.inside w.kernel.currentPCB = some ⟨.readPipe len buf' reachedEnd', phase'⟩)
    (buffered : Buffered BUFFER_SIZE s.pipe.buffer s.pipe.readIdx s.pipe.writeIdx s.stored s.taken)
    (supply : s.taken.length < s.stored.length ∨
      (phase' = .postMutex ∨ phase' = .postCount) ∧ reachedEnd' = true) :
    (w.put a s).Draining a len buf' reachedEnd' phase' := by
  obtain ⟨sems, up, -⟩ := World.put_same same a
  have new := w.put_new a s
  refine ⟨?_, ?_, up.trans d.down, d.there, fun semId has => ?_, ?_, ?_⟩
  · change Function.update w.inside w.kernel.currentPCB _ s.kernel.currentPCB = _
    rw [kernel, Function.update_self, goes]
    rfl
  · change ¬ s.kernel.idle
    rw [kernel]
    exact d.busy
  · change ¬ s.kernel.Live semId
    rw [kernel]
    exact d.dead semId ((sems semId).mp has)
  · rw [World.pipeAt, new]
    exact buffered
  · rw [new]
    exact supply

/-- What comes after a statement that is not at the buffer. -/
theorem next (d : w.Draining a len buf reachedEnd phase) (far : phase ≠ .transfer) {g : Frame}
    (next : Frame.next ⟨.readPipe len buf reachedEnd, phase⟩ = some g) :
    ∃ phase', g = ⟨.readPipe len buf reachedEnd, phase'⟩ ∧ phase'.left < phase.left ∧
      ((w.memory a).taken.length < (w.memory a).stored.length ∨
        (phase' = .postMutex ∨ phase' = .postCount) ∧ reachedEnd = true) := by
  cases phase with
  | transfer => exact absurd rfl far
  | postMutex =>
      cases next
      exact ⟨_, rfl, by decide, d.supply.imp_right fun done => ⟨Or.inr rfl, done.2⟩⟩
  | postCount =>
      simp only [Frame.next, Frame.loop] at next
      split_ifs at next with again
      cases next
      refine ⟨_, rfl, by decide, Or.inl (d.supply.resolve_right fun done => ?_)⟩
      rw [Call.again_readPipe, done.2] at again
      cases again.2
  | _ =>
      cases next
      refine ⟨_, rfl, by decide, Or.inl (d.supply.resolve_right fun done => ?_)⟩
      rcases done.1 with e | e <;> cases e

/-- One more statement: the call has returned, or it has less left to do. -/
theorem step (d : w.Draining a len buf reachedEnd phase) (trans : WorldTrans w action w') :
    w'.kernel.currentPCB = w.kernel.currentPCB ∧
      (w'.inside w.kernel.currentPCB = none ∧
        (w'.memory a).returned = (w.memory a).returned ++ buf ∨
        ∃ more reachedEnd' phase', w'.Draining a len (buf ++ more) reachedEnd' phase' ∧
          (w'.memory a).returned = (w.memory a).returned ∧
          w'.statementsLeft a phase' < w.statementsLeft a phase) := by
  have inside : w.current ≠ none := fun outside => by
    rw [d.here] at outside
    cases outside
  cases trans.stepped with
  | other outside _ _ | pipeInit outside _ | refuses outside | destroyPipe outside _ _ _ _
  | enter outside _ _ _ _ _ => exact absurd outside inside
  | @statement node b f s here there ran =>
      cases d.here.symm.trans here
      have inView := World.view_here here
      cases ran.stepped with
      | @operation _ _ op k inView' next moved =>
          cases inView.symm.trans inView'
          obtain ⟨-, fuel, run⟩ := moved
          obtain rfl : w.kernel = k := by
            have e := ((dead_statement d.dead d.busy next).2 fuel).symm.trans run
            cases e
            rfl
          have far : phase ≠ .transfer := fun e => by
            subst e
            cases next
          refine ⟨rfl, ?_⟩
          cases goes : Frame.next ⟨.readPipe len buf reachedEnd, phase⟩ with
          | none =>
              refine Or.inl ⟨?_, ?_⟩
              · refine (Function.update_self _ _ w.inside).trans (Option.map_eq_none_iff.mpr ?_)
                exact (Function.update_self _ _ (w.view a).inside).trans goes
              · rw [w.put_new]
                change (w.memory a).returned ++ (if (Frame.next _).isNone then _ else []) = _
                rw [goes]
                rfl
          | some g =>
              obtain ⟨phase', rfl, less, supply⟩ := d.next far goes
              refine Or.inr ⟨[], reachedEnd, phase', ?_, ?_, ?_⟩
              · rw [List.append_nil]
                exact d.put rfl ⟨rfl, rfl, rfl⟩ ((Function.update_self _ _ _).trans goes)
                  d.buffered supply
              · rw [w.put_new]
                change (w.memory a).returned ++ (if (Frame.next _).isNone then _ else []) = _
                rw [goes]
                exact List.append_nil _
              · rw [World.statementsLeft, w.put_new]
                exact Nat.add_lt_add_left less _
      | transfer inView' =>
          cases inView.symm.trans inView'
          have some := d.supply.resolve_right fun done => by
            rcases done.1 with e | e <;> cases e
          have taken := d.buffered.take some
          refine ⟨rfl, Or.inr ⟨[(w.pipeAt a).buffer (w.pipeAt a).readIdx], _, .postMutex,
            d.put rfl Pipe.advance_same (Function.update_self _ _ _) taken ?_, ?_, ?_⟩⟩
          · rcases Nat.lt_or_eq_of_le taken.length_le with left | last
            · exact Or.inl left
            -- The buffer is empty now, and the reader sees it.
            · refine Or.inr ⟨Or.inl rfl, ?_⟩
              have same : (w.pipeAt a).advance.readIdx = (w.pipeAt a).advance.writeIdx := by
                have read := taken.readIdx
                rw [last, ← taken.writeIdx] at read
                exact read
              rw [show (w.view a).pipe.advance.readIdx = _ from same]
              simp [World.view]
          · rw [w.put_new]
            rfl
          · rw [World.statementsLeft, World.statementsLeft, w.put_new]
            change 5 * ((w.memory a).stored.length - ((w.memory a).taken ++ [_]).length) + 4 < _
            rw [List.length_append, List.length_singleton]
            change _ < 5 * _ + 0
            omega

theorem returns {bytes : List UInt8} (n : Nat) (d : w.Draining a len buf reachedEnd phase)
    (read : bytes <+: (w.memory a).returned ++ buf) (left : w.statementsLeft a phase < n) :
    w.Returns w.kernel.currentPCB a bytes := by
  induction n generalizing w buf reachedEnd phase with
  | zero => cases left
  | succ n ih =>
      refine .goesOn rfl d.goes_on fun action w' trans => ?_
      obtain ⟨running, ⟨out, returned⟩ | ⟨more, reachedEnd', phase', d', returned, less⟩⟩ :=
        d.step trans
      · exact .returned running out (returned ▸ read)
      · rw [← running]
        refine ih d' ?_ (by omega)
        rw [returned, ← List.append_assoc]
        exact read.trans (List.prefix_append _ _)

end World.Draining

/-! ### Pipes that are destroyed in use -/

/-- What a destroyed pipe delivers, where those who run inside it work, and where a
reader gets that has come back to it. -/
structure World.Unharmed (w : World) : Prop where
  delivered : ∀ a, w.destroyed a = true → (w.memory a).taken <+: (w.memory a).stored
  apart : ∀ a f, w.current = some (a, f) → w.destroyed a = true →
    w.freed a = false ∧ ∀ b, (w.memory a).later ≤ b → b < w.unused →
      b ≠ a ∧ ∀ semId, (w.pipeAt a).Has semId → ¬ (w.pipeAt b).Has semId
  woken : ∀ a action w', w.destroyed a = false → WorldTrans w action w' → w'.destroyed a = true →
    ∀ semId p, (w.pipeAt a).Has semId → p ∈ w.kernel.queueOf semId → w.kernel.stateOf p = .blocked →
      w'.kernel.stateOf p ≠ .blocked
  returns : ∀ a len buf reachedEnd, w.current =
    some (a, ⟨.readPipe len buf reachedEnd, .waitMutex⟩) →
    w.destroyed a = true → w.Supplies a false →
    w.Returns w.kernel.currentPCB a ((w.memory a).returned ++ buf)

/-- In every run of careful steps, whoever was inside when the pipe was destroyed. -/
theorem destroyed_in_use (reach : WorldReach World.Careful w) : w.Unharmed := by
  obtain ⟨placed, v, h⟩ := reach.ends
  have abandoned : ∀ {a f}, w.current = some (a, f) → w.destroyed a = true → w.Abandoned a :=
    fun here down => h.occupied _ down (World.occupied_here v.inv here)
  refine ⟨fun a down => (h.buffered a down).front, fun a f here down => ?_,
    fun a action w' up trans down semId p has queued blocked => ?_,
      fun a len buf reachedEnd here down some => ?_⟩
  · have ab := abandoned here down
    exact ⟨ab.there, fun b ge lt => ⟨fun e => by
      have := ab.later
      omega, ab.apart b ge lt⟩⟩
  · obtain ⟨busy, fuel, run⟩ := trans.marks up down
    exact destroySemaphores_unblock v.reach busy run has queued blocked
  · have ab := abandoned here down
    exact World.Draining.returns _
      ⟨here, placed.not_idle here, down, ab.there, ab.dead, h.buffered a down, Or.inl some⟩
      List.prefix_rfl (Nat.lt_succ_self _)

/-! ### Runs -/

instance (w : World) (a : Nat) : Decidable (w.Occupied a) := by
  unfold World.Occupied; infer_instance

instance (w : World) (semId : Nat) : Decidable (w.Kept semId) := by
  unfold World.Kept; infer_instance

instance (w : World) (a : Nat) (writes : Bool) : Decidable (w.Supplies a writes) := by
  unfold World.Supplies; infer_instance

instance (p : Pipe) (good : Nat → Prop) [DecidablePred good] :
    Decidable (∀ semId, p.Has semId → good semId) :=
  decidable_of_iff (good p.mutex ∧ good p.writtenCountSem ∧ good p.emptyCountSem)
    ⟨fun ⟨mutex, written, empty⟩ _ has => by rcases has with rfl | rfl | rfl <;> assumption,
      fun all => ⟨all _ (Or.inl rfl), all _ (Or.inr (Or.inl rfl)), all _ (Or.inr (Or.inr rfl))⟩⟩

instance (w : World) (action : Action) : Decidable (w.Careful action) :=
  match action with
  | .other (.semInit _) => inferInstanceAs (Decidable (¬ w.Kept _))
  | .pipeInit garbage =>
      inferInstanceAs
        (Decidable ((∀ semId, (pipeInit w.kernel garbage).2.Has semId → ¬ w.Kept semId) ∧
        ∀ old ∈ w.table.get (w.table.alloc w.unused).2, ¬ w.Occupied old))
  | .statement _ =>
      inferInstanceAs (Decidable (∀ here ∈ w.current, w.destroyed here.1 = true →
        here.2.phase = .transfer → w.Supplies here.1 here.2.call.writes))
  | .other (.createProcess ..) | .other (.exit _) | .other (.kill _) | .other (.waitPid _)
  | .other (.sleep ..) | .other (.waitSemaphore ..) | .other (.postSemaphore _)
  | .other (.destroySemaphore _) | .other (.blockByUser _) | .other (.unblock _)
  | .other (.changePriority ..) | .other .yield | .other .timerTick | .other
      .reschedule | .other .ctrlC
  | .other (.userCode ..) | .destroyPipe _ | .enter .. => .isTrue trivial

/-- The actions of a list, one after the other, as long as `check` holds. -/
def World.perform (check : World → Action → Prop) [∀ w a, Decidable (check w a)]
    (fuel : Nat) (w : World) (actions : List Action) : Option World :=
  actions.foldlM (fun w action => if check w action then w.exec fuel action else none) w

theorem WorldReach.perform {admits : World → Action → Prop} [∀ w a, Decidable (admits w a)]
    {fuel : Nat}
    {actions : List Action} (reach : WorldReach admits w)
    (run : w.perform admits fuel actions = some w') :
    WorldReach admits w' := by
  induction actions generalizing w with
  | nil =>
      cases run
      exact reach
  | cons action actions ih =>
      obtain ⟨next, ran, rest⟩ := Option.bind_eq_some_iff.mp run
      simp only [] at ran
      split_ifs at ran with holds
      exact ih (reach.step holds ⟨fuel, ran⟩) rest

/-- What `init` finds. -/
def newPipes : World := initializePipes (boot 0 0 0) fun _ _ => 0

/-- `init` creates a pipe and a process, which waits in the pipe for a byte. -/
def readerBlocks : List Action :=
  [.pipeInit fun _ => 9, .other (.createProcess ⟨true, true, true, true, true⟩ 0 0), .other .yield,
    .enter 3 (.readPipe 1 [] false), .statement true]

/-- A byte is written, which wakes the reader. The pipe is destroyed before it runs. -/
def writesAndDestroys : List Action :=
  .enter 3 (.writePipe [7] 0) :: List.replicate 5 (.statement true) ++
    [.destroyPipe 3, .other .yield]

/-- The reader gets the byte all the same. -/
theorem destroyed_in_use_byte : ∃ w :
    World, w.current = some (3, ⟨.readPipe 1 [] false, .waitMutex⟩) ∧
    w.destroyed 3 = true ∧ (w.memory 3).stored = [7] ∧ w.Returns w.kernel.currentPCB 3 [] := by
  have ran : (newPipes.perform World.Careful 40 (readerBlocks ++ writesAndDestroys)).map
      (fun w => (w.current, w.destroyed 3, (w.memory 3).stored, (w.memory 3).taken,
        (w.memory 3).returned)) =
      some (some (3, ⟨.readPipe 1 [] false, .waitMutex⟩), true, [7], [], []) := by decide +kernel
  obtain ⟨w, run, state⟩ := Option.map_eq_some_iff.mp ran
  simp only [Prod.mk.injEq] at state
  obtain ⟨here, down, stored, taken, returned⟩ := state
  have start : WorldReach World.Careful newPipes := .start ⟨0, 0, 0, .refl⟩ (by decide)
  have unharmed := destroyed_in_use (start.perform run)
  have returns := unharmed.returns 3 1 [] false here down (by simp [World.Supplies, stored, taken])
  rw [returned] at returns
  exact ⟨w, here, down, stored, returns⟩

/-- The reader is BLOCKED when the pipe is destroyed. It returns with a byte, and
nothing was written. -/
theorem destroyed_reader_returns : ∃ w w' : World, WorldReach (fun _ _ => True) w ∧
    w.inside 6 = some (3, ⟨.readPipe 1 [] false, .waitMutex⟩) ∧ w.kernel.stateOf 6 = .blocked ∧
    w.perform (fun _ _ => True) 40 ([.destroyPipe 3, .other .yield] ++
      List.replicate 4 (.statement true)) =
      some w' ∧ w'.inside 6 = none ∧ (w'.memory 3).returned = [9] ∧ (w'.memory 3).stored = [] ∧
    ¬ w'.Unharmed := by
  have before : (newPipes.perform (fun _ _ => True) 40 readerBlocks).map
      (fun w => (w.inside 6, decide (w.kernel.stateOf 6 = .blocked))) =
      some (some (3, ⟨.readPipe 1 [] false, .waitMutex⟩), true) := by decide +kernel
  have after : ((newPipes.perform (fun _ _ => True) 40 readerBlocks).bind fun w =>
      w.perform (fun _ _ => True) 40 ([.destroyPipe 3, .other .yield] ++
        List.replicate 4 (.statement true))).map
      (fun w => (w.inside 6, w.destroyed 3, (w.memory 3).stored, (w.memory 3).taken,
        (w.memory 3).returned)) =
      some (none, true, [], [9], [9]) := by decide +kernel
  obtain ⟨w, run, state⟩ := Option.map_eq_some_iff.mp before
  simp only [Prod.mk.injEq, decide_eq_true_eq] at state
  rw [run] at after
  obtain ⟨w', run', state'⟩ := Option.map_eq_some_iff.mp after
  simp only [Prod.mk.injEq] at state'
  obtain ⟨out, down, stored, taken, returned⟩ := state'
  have start : WorldReach (fun _ _ => True) newPipes := .start ⟨0, 0, 0, .refl⟩ (by decide)
  refine ⟨w, w', start.perform run, state.1, state.2, run', out, returned, stored,
    fun unharmed => ?_⟩
  have delivered := unharmed.delivered 3 down
  rw [stored, taken] at delivered
  exact absurd delivered (by decide)

end Draining

end SoTp.Pipes
