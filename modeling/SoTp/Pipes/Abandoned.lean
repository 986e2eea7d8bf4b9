/-
A pipe that is destroyed while processes are inside. They keep its address and the ids
of its semaphores, and `waitSemaphore` on a destroyed semaphore returns false at once,
which nobody looks at.

* `World.Careful` — no id and no memory that is still kept is used again, and who comes
  to the buffer of a destroyed pipe finds a byte, or a free place.
* `Ends` — then the ids that are kept are dead and nobody else's, the memory is there,
  and the buffer holds what is left; `WorldReach.ends`, after every run of careful steps.
-/

import SoTp.Pipes.Views

namespace SoTp.Pipes

open SoTp.Lib SoTp.Process Kernel

namespace World

/-- A live process is inside the pipe. -/
def Occupied (w : World) (a : Nat) : Prop :=
  ∃ p < w.kernel.unused, ¬ Dead (w.kernel.stateOf p) ∧ ∃ here ∈ w.inside p, here.1 = a

/-- A live process inside a destroyed pipe keeps the id. -/
def Kept (w : World) (semId : Nat) : Prop :=
  ∃ p < w.kernel.unused, ¬ Dead (w.kernel.stateOf p) ∧
    ∃ here ∈ w.inside p, w.destroyed here.1 = true ∧ (w.pipeAt here.1).Has semId

/-- There is a byte to read, or a place to write to. -/
def Supplies (w : World) (a : Nat) (writes : Bool) : Prop :=
  if writes then (w.memory a).stored.length < (w.memory a).taken.length + BUFFER_SIZE
  else (w.memory a).taken.length < (w.memory a).stored.length

/-- No id and no memory that is kept is used again, and the buffer of a destroyed pipe
has what the process at it is to take, or room for what it is to store. -/
def Careful (w : World) : Action → Prop
  | .other (.semInit initialValue) => ¬ w.Kept (w.kernel.semInit initialValue).2
  | .pipeInit garbage =>
      (∀ semId, (Pipes.pipeInit w.kernel garbage).2.Has semId → ¬ w.Kept semId) ∧
        ∀ old ∈ w.table.get (w.table.alloc w.unused).2, ¬ w.Occupied old
  | .statement _ => ∀ here ∈ w.current, w.destroyed here.1 = true → here.2.phase = .transfer →
      w.Supplies here.1 here.2.call.writes
  | _ => True

/-- A destroyed pipe that somebody is inside. -/
structure Abandoned (w : World) (a : Nat) : Prop where
  there : w.freed a = false
  later : a < (w.memory a).later
  dead : ∀ semId, (w.pipeAt a).Has semId → ¬ w.kernel.Live semId
  apart : ∀ b, (w.memory a).later ≤ b → b < w.unused →
    ∀ semId, (w.pipeAt a).Has semId → ¬ (w.pipeAt b).Has semId

end World

/-- What holds of the destroyed pipes. -/
structure Ends (w : World) : Prop where
  occupied : ∀ a, w.destroyed a = true → w.Occupied a → w.Abandoned a
  buffered : ∀ a, w.destroyed a = true →
    Buffered BUFFER_SIZE (w.pipeAt a).buffer (w.pipeAt a).readIdx (w.pipeAt a).writeIdx
      (w.memory a).stored (w.memory a).taken

section Ends

variable {w w' : World} {a b : Nat} {k : Kernel} {op : Op} {action : Action} {f : Frame}

/-- Who runs inside a pipe occupies it. -/
theorem World.occupied_here (i : Inv False w.kernel) (here : w.current = some (a, f)) :
    w.Occupied a :=
  ⟨_, i.current_lt, fun dead =>
    dead.elim (fun killed => i.current.active.1 (Or.inr killed)) i.current.active.2,
    (a, f), here, rfl⟩

theorem Ends.harmless (h : Ends w) (i : Inv False w.kernel) : w.Harmless := fun a _ here down =>
  (h.occupied a down (World.occupied_here i here)).dead

theorem World.Occupied.kept (occupied : w.Occupied a) (down : w.destroyed a = true) {semId : Nat}
    (has : (w.pipeAt a).Has semId) : w.Kept semId := by
  obtain ⟨p, lt, alive, here, inside, rfl⟩ := occupied
  exact ⟨p, lt, alive, here, inside, down, has⟩

/-- A pipe that is occupied after operations of the kernel was so before. -/
theorem World.Occupied.before (placed : w.Placed) (ages : Ages w.kernel k)
    (occupied : { w with kernel := k }.Occupied a) : w.Occupied a := by
  obtain ⟨p, -, alive, here, inside, e⟩ := occupied
  have lt := (placed.known p here.1 here.2 inside).1
  exact ⟨p, lt, fun dead => alive (ages.dead p lt dead), here, inside, e⟩

/-- Operations that make no semaphore under an id that is kept. -/
theorem Ends.kernel (h : Ends w) (placed : w.Placed) (ages : Ages w.kernel k)
    (dead : ∀ semId, w.Kept semId → ¬ w.kernel.Live semId → ¬ k.Live semId) :
      Ends { w with kernel := k } where
  occupied a down occupied := by
    have before := World.Occupied.before placed ages occupied
    have ab := h.occupied a down before
    exact ⟨ab.there, ab.later, fun semId has =>
      dead semId (before.kept down has) (ab.dead semId has), ab.apart⟩
  buffered := h.buffered

theorem Ends.pipeInit (h : Ends w) (placed : w.Placed) (reach : Reach (fun _ _ => True) w.kernel)
    (busy : ¬ w.kernel.idle) {garbage : Nat → UInt8} (careful : w.Careful (.pipeInit garbage)) :
    Ends (w.pipeInit garbage).1 := by
  have run := pipeInit_beside reach busy garbage
  have ages := Beside.ages run reach
  have kernel := h.kernel placed ages fun semId kept dead => by
    refine Beside.stays_dead run reach dead ?_
    rintro j op ⟨v, rfl, has⟩ (rfl : (j.semInit v).2 = semId)
    exact careful.1 _ has kept
  have old : ∀ {a}, (w.pipeInit garbage).1.destroyed a = true →
      w.destroyed a = true ∧ (w.pipeInit garbage).1.memory a = w.memory a := fun {a} down => by
    by_cases e : a = w.unused
    · rw [World.destroyed, e, w.pipeInit_new] at down
      cases down
    · have same := World.pipeInit_old garbage e
      exact ⟨by rwa [World.destroyed, same] at down, same⟩
  refine ⟨fun a down occupied => ?_, fun a down => ?_⟩
  · obtain ⟨down', same⟩ := old down
    have before := World.Occupied.before placed ages occupied
    have ab := kernel.occupied a down' occupied
    have pipe : (w.pipeInit garbage).1.pipeAt a = w.pipeAt a := congrArg PipeData.pipe same
    refine ⟨?_, by rw [same]; exact ab.later, pipe ▸ ab.dead, fun b ge lt semId has has' => ?_⟩
    · by_contra gone
      rcases World.pipeInit_freed (by simpa using gone) with gone | held
      · exact Bool.false_ne_true (ab.there.symm.trans gone)
      · exact careful.2 a held before
    · rw [pipe] at has
      rw [same] at ge
      by_cases e : b = w.unused
      · rw [World.pipeAt, e, w.pipeInit_new] at has'
        exact careful.1 semId has' (before.kept down' has)
      · have lt' : b < w.unused := lt_of_le_of_ne (Nat.lt_succ_iff.mp lt) e
        rw [World.pipeAt, World.pipeInit_old _ e] at has'
        exact ab.apart b ge lt' semId has has'
  · obtain ⟨down', same⟩ := old down
    have buffered := h.buffered a down'
    rw [World.pipeAt] at buffered ⊢
    rw [same]
    exact buffered

theorem destroySemaphores_dead {p : Pipe} {fuel : Nat} (reach : Reach (fun _ _ => True) w.kernel)
    (busy : ¬ w.kernel.idle) (run : World.destroySemaphores fuel p w.kernel = .ok k) {semId : Nat}
    (has : p.Has semId) : ¬ k.Live semId := by
  obtain ⟨k₁, k₂, first, second, third⟩ := destroySemaphores_cases reach busy run
  have later₂ : ∀ {s}, ¬ k₁.Live s → ¬ k₂.Live s :=
    fun dead => stays_dead second.inv dead id second.trans
  have later₃ : ∀ {s}, ¬ k₂.Live s → ¬ k.Live s :=
    fun dead => stays_dead third.inv dead id third.trans
  rcases has with rfl | rfl | rfl
  · exact later₃ (later₂ first.dead)
  · exact later₃ second.dead
  · exact third.dead

theorem Ends.destroyPipe {pipeId : Int} {fuel : Nat} (h : Ends w) (v : Views w) (placed : w.Placed)
    (busy : ¬ w.kernel.idle) (o : w.Open a)
    (run : World.destroySemaphores fuel (w.pipeAt a) w.kernel = .ok k) :
    Ends { w.close pipeId a with kernel := k } := by
  have chain := destroySemaphores_beside v.reach busy run
  have ages := Beside.ages chain v.reach
  have kernel := h.kernel placed ages fun semId _ dead => by
    refine Beside.stays_dead chain v.reach dead ?_
    rintro j op ⟨_, -, rfl⟩
    exact id
  have others : ∀ {b}, b ≠ a → (w.close pipeId a).memory b = w.memory b := w.close_old pipeId
  have new := w.close_new pipeId a
  have pipe : ∀ b, (w.close pipeId a).pipeAt b = w.pipeAt b := fun b => by
    by_cases e : b = a
    · rw [World.pipeAt, e, new]
      rfl
    · rw [World.pipeAt, others e]
      rfl
  refine ⟨fun b down occupied => ?_, fun b down => ?_⟩
  · by_cases e : b = a
    · subst e
      refine ⟨?_, ?_, fun semId has => ?_, fun c ge lt => ?_⟩
      · by_contra gone
        have down := (placed.back b (Bool.eq_true_of_not_eq_false gone)).2
        rw [o.up] at down
        cases down
      · show b < ((w.close pipeId b).memory b).later
        rw [new]
        exact o.made
      · exact destroySemaphores_dead v.reach busy run ((pipe b) ▸ has)
      · replace ge : ((w.close pipeId b).memory b).later ≤ c := ge
        rw [new] at ge
        exact absurd lt (Nat.not_lt.mpr ge)
    · replace down : w.destroyed b = true := by
        rw [World.destroyed, ← others e]
        exact down
      have ab := kernel.occupied b down occupied
      refine ⟨ab.there, ?_, fun semId has => ab.dead semId ((pipe b) ▸ has),
        fun c ge lt semId has has' => ?_⟩
      · show b < ((w.close pipeId a).memory b).later
        rw [others e]
        exact ab.later
      · replace ge : ((w.close pipeId a).memory b).later ≤ c := ge
        rw [others e] at ge
        exact ab.apart c ge lt semId ((pipe b) ▸ has) ((pipe c) ▸ has')
  · change Buffered _ ((w.close pipeId a).pipeAt b).buffer ((w.close pipeId a).pipeAt b).readIdx
      ((w.close pipeId a).pipeAt b).writeIdx ((w.close pipeId a).memory b).stored
        ((w.close pipeId a).memory b).taken
    rw [pipe]
    by_cases e : b = a
    · rw [e, new]
      exact v.buffered o
    · replace down : w.destroyed b = true := by
        rw [World.destroyed, ← others e]
        exact down
      rw [others e]
      exact h.buffered b down

theorem Ends.enter {call : Call} (h : Ends w) (up : w.destroyed a = false) :
    Ends
      { w with inside := Function.update w.inside w.kernel.currentPCB (some (a, ⟨call, .waitCount⟩)) } where
  occupied b down occupied := by
    obtain ⟨p, lt, alive, here, inside, e⟩ := occupied
    have before : w.Occupied b := by
      refine ⟨p, lt, alive, here, ?_, e⟩
      replace inside : Function.update w.inside w.kernel.currentPCB _ p = some here := inside
      rw [Function.update_apply] at inside
      split_ifs at inside with own
      · cases inside
        cases e
        cases up.symm.trans down
      · exact inside
    have ab := h.occupied b down before
    exact ⟨ab.there, ab.later, ab.dead, ab.apart⟩
  buffered := h.buffered

/-- What a statement does to the buffer of a destroyed pipe. -/
theorem statement_buffered {s : PipeSys} {node : Bool}
    (buffered : Buffered BUFFER_SIZE (w.pipeAt a).buffer (w.pipeAt a).readIdx (w.pipeAt a).writeIdx
      (w.memory a).stored (w.memory a).taken)
    (here : w.current = some (a, f)) (supplies : f.phase = .transfer → w.Supplies a f.call.writes)
    (trans : PipeTrans false (w.view a) (.statement node) s) :
    Buffered BUFFER_SIZE s.pipe.buffer s.pipe.readIdx s.pipe.writeIdx s.stored s.taken := by
  have inside := World.view_here here
  cases trans.stepped with
  | operation _ _ _ => exact buffered
  | @transfer call _ here' =>
      cases inside.symm.trans here'
      have supplies := supplies rfl
      cases call with
      | writePipe buf pos => exact buffered.store supplies _
      | readPipe | readStdin => exact buffered.take supplies

theorem World.Occupied.before_put {s : PipeSys} (i : Inv False w.kernel) (placed : w.Placed)
    (here : w.current = some (a, f)) (ages : Ages w.kernel s.kernel)
    (occupied : (w.put a s).Occupied b) :
    w.Occupied b := by
  obtain ⟨p, -, alive, there, inside, e⟩ := occupied
  replace inside : Function.update w.inside w.kernel.currentPCB _ p = some there := inside
  rw [Function.update_apply] at inside
  split_ifs at inside with own
  · obtain ⟨f', -, rfl⟩ := Option.map_eq_some_iff.mp inside
    exact e ▸ World.occupied_here i here
  · have lt := (placed.known p there.1 there.2 inside).1
    exact ⟨p, lt, fun dead => alive (ages.dead p lt dead), there, inside, e⟩

theorem Ends.statement {s : PipeSys} {node : Bool} (h : Ends w) (v : Views w) (placed : w.Placed)
    (here : w.current = some (a, f)) (careful : w.Careful (.statement node))
    (trans : PipeTrans false (w.view a) (.statement node) s) : Ends (w.put a s) := by
  obtain ⟨same, kernel⟩ := statement_kernel trans
  obtain ⟨ages, dead⟩ : Ages w.kernel s.kernel ∧
      ∀ semId, ¬ w.kernel.Live semId → ¬ s.kernel.Live semId := by
    rcases kernel with e | ⟨op, ran, new, -⟩
    · rw [e]
      exact ⟨Ages.refl _, fun _ => id⟩
    · exact ⟨Ages.of_trans v.inv ran, fun semId dead => stays_dead v.inv dead (new semId) ran⟩
  refine ⟨fun b down occupied => ?_, fun b down => ?_⟩
  · obtain ⟨sems, up, later⟩ := World.put_same same b
    have ab := h.occupied b (up.symm.trans down)
      (World.Occupied.before_put v.inv placed here ages occupied)
    refine ⟨ab.there, later ▸ ab.later, fun semId has =>
      dead semId (ab.dead semId ((sems semId).mp has)), ?_⟩
    intro c ge lt semId has has'
    exact ab.apart c (later ▸ ge) lt semId ((sems semId).mp has)
      (((World.put_same same c).1 semId).mp has')
  · replace down := (World.put_same same b).2.1.symm.trans down
    by_cases e : b = a
    · subst e
      rw [World.pipeAt, w.put_new]
      exact statement_buffered (h.buffered b down) here (careful (b, f) here down) trans
    · rw [World.pipeAt, World.put_old e]
      exact h.buffered b down

/-! ### Every step -/

theorem initializePipes_ends (k : Kernel) (garbage : Nat → Nat → UInt8) :
    Ends (initializePipes k garbage) := by
  have up : ∀ {a}, ¬ (initializePipes k garbage).destroyed a = true := fun {a} down => by
    rw [initializePipes_up] at down
    cases down
  exact ⟨fun _ down => absurd down up, fun _ down => absurd down up⟩

theorem Ends.other (h : Ends w) (v : Views w) (placed : w.Placed) (careful : w.Careful (.other op))
    (trans : Trans w.kernel op k) : Ends { w with kernel := k } := by
  refine h.kernel placed (Ages.of_trans v.inv trans) fun semId kept dead =>
    stays_dead v.inv dead ?_ trans
  intro new
  cases op with
  | semInit initialValue =>
      obtain rfl : (w.kernel.semInit initialValue).2 = semId := new
      exact careful kept
  | _ => exact new

theorem Ends.step (h : Ends w) (v : Views w) (placed : w.Placed) (careful : w.Careful action)
    (trans : WorldTrans w action w') : Ends w' := by
  cases trans.stepped with
  | other _ _ ran => exact h.other v placed careful ran
  | pipeInit _ busy => exact h.pipeInit placed v.reach busy careful
  | refuses _ => exact h
  | destroyPipe _ busy other found run =>
      obtain ⟨-, lt, up, std⟩ := placed.found found
      refine h.destroyPipe v placed busy ⟨lt, fun e => other ?_, up⟩ run
      rw [std e]
      decide
  | enter _ _ _ _ _ found => exact h.enter (placed.found found).2.2.1
  | statement here _ ran => exact h.statement v placed here careful ran

theorem WorldReach.ends (reach : WorldReach World.Careful w) : w.Placed ∧ Views w ∧ Ends w := by
  induction reach with
  | start reach busy =>
      exact ⟨initializePipes_placed _ _, initializePipes_views reach busy, initializePipes_ends _ _⟩
  | step _ careful trans ih =>
      obtain ⟨placed, v, h⟩ := ih
      exact ⟨placed.step v trans, v.step placed (h.harmless v.inv) trans,
        h.step v placed careful trans⟩

end Ends

end SoTp.Pipes
