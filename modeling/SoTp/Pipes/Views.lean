/-
A pipe among the others. The pipes that are not destroyed have semaphores of their own,
so what happens in one of them is an operation of the kernel for the others.

* `Views` — each of these pipes is in a state that a single pipe reaches.
* `Views.step` — every step keeps this, as long as who is inside a destroyed pipe
  holds no semaphore of another one.
-/

import SoTp.Pipes.Places

namespace SoTp.Pipes

open SoTp.Lib SoTp.Process Kernel

namespace World

/-- There is a pipe at the address, and it is not standard input nor destroyed. -/
structure Open (w : World) (a : Nat) : Prop where
  made : a < w.unused
  other : a ≠ stdinAddress
  up : w.destroyed a = false

end World

/-- Each pipe that is not destroyed, as a pipe on its own. -/
structure Views (w : World) : Prop where
  reach : Reach (fun _ _ => True) w.kernel
  alone : ∀ a, w.Open a → PipeReach false (fun _ _ => True) (w.view a)
  apart : ∀ a b, w.Open a → w.Open b → a ≠ b → ∀ semId, (w.pipeAt a).Has semId →
    ¬ (w.pipeAt b).Has semId

/-- Who runs inside a destroyed pipe holds no live semaphore. -/
def World.Harmless (w : World) : Prop :=
  ∀ a f, w.current = some (a, f) → w.destroyed a = true →
    ∀ semId, (w.pipeAt a).Has semId → ¬ w.kernel.Live semId

section Views

variable {w w' : World} {a b : Nat} {k k' : Kernel} {op : Op} {action : Action} {f : Frame}

theorem Views.inv (v : Views w) : Inv False w.kernel := v.reach.sound

theorem Views.sems (v : Views w) (o : w.Open a) : Sems (w.pipeAt a) w.kernel := by
  obtain ⟨U, inv⟩ := (v.alone a o).sound
  exact inv.sems

theorem Views.buffered (v : Views w) (o : w.Open a) :
    Buffered BUFFER_SIZE (w.pipeAt a).buffer (w.pipeAt a).readIdx (w.pipeAt a).writeIdx
      (w.memory a).stored (w.memory a).taken := by
  obtain ⟨U, inv⟩ := (v.alone a o).sound
  exact inv.buffer

/-! ### What a pipe sees -/

theorem World.view_outside (outside : w.current = none) (a : Nat) : (w.view a).current = none := by
  change (w.inside w.kernel.currentPCB).bind _ = none
  rw [show w.inside _ = none from outside]
  rfl

theorem World.view_elsewhere (here : w.current = some (b, f)) (ne : b ≠ a) :
    (w.view a).current = none := by
  change (w.inside w.kernel.currentPCB).bind _ = none
  rw [show w.inside _ = some (b, f) from here]
  exact if_neg ne

theorem World.view_here (here : w.current = some (a, f)) : (w.view a).current = some f := by
  change (w.inside w.kernel.currentPCB).bind _ = some f
  rw [show w.inside _ = some (a, f) from here]
  exact if_pos rfl

theorem World.unseen {x : Option (Nat × Frame)} (away : ∀ b f, x = some (b, f) → b ≠ a) :
    (x.bind fun here => if here.1 = a then some here.2 else none) = none := by
  cases x with
  | none => rfl
  | some here => exact if_neg (away here.1 here.2 rfl)

/-- A pipe does not see where a process goes that comes from elsewhere. -/
theorem World.view_move {g : Option (Nat × Frame)} (before : ∀ b f, w.current = some (b, f) → b ≠ a)
    (after : ∀ b f, g = some (b, f) → b ≠ a) :
    { w with inside := Function.update w.inside w.kernel.currentPCB g }.view a = w.view a := by
  have inside : (fun q => (Function.update w.inside w.kernel.currentPCB g q).bind fun here =>
      if here.1 = a then some here.2 else none) = (w.view a).inside := by
    funext q
    by_cases own : q = w.kernel.currentPCB
    · subst own
      rw [Function.update_self, unseen after]
      exact (unseen before).symm
    · rw [Function.update_of_ne own]
      rfl
  exact congrArg (fun inside => { w.view a with inside }) inside

/-- A pipe sees where a process goes inside it. -/
theorem World.inside_here (w : World) (a p : Nat) (g : Option Frame) :
    (fun q => (Function.update w.inside p (g.map fun f => (a, f)) q).bind fun here =>
      if here.1 = a then some here.2 else none) = Function.update (w.view a).inside p g := by
  funext q
  by_cases own : q = p
  · subst own
    rw [Function.update_self, Function.update_self]
    cases g with
    | none => rfl
    | some f => exact if_pos rfl
  · rw [Function.update_of_ne own, Function.update_of_ne own]
    rfl

theorem other_trans {s : PipeSys} (outside : s.current = none) (apart : ¬ s.pipe.Names op)
    (trans : Trans s.kernel op k) : PipeTrans false s (.other op) { s with kernel := k } := by
  obtain ⟨enabled, fuel, run⟩ := trans
  refine ⟨fuel, ?_⟩
  simp only [PipeSys.exec, outside, apart, PipeSys.run, enabled, run]
  rfl

/-- An operation of the kernel, as one pipe sees it. -/
theorem Views.operation (v : Views w) (trans : Trans w.kernel op k) (o : w.Open a)
    (outside : (w.view a).current = none) (apart : ¬ (w.pipeAt a).Names op) :
    PipeReach false (fun _ _ => True) { w.view a with kernel := k } :=
  (v.alone a o).step trivial (other_trans outside apart trans)

/-! ### Operations between the calls -/

/-- Operations about none of the semaphores of these pipes. -/
theorem Views.beside {good : Kernel → Op → Prop} (v : Views w) (outside : w.current = none)
    (run : Relation.ReflTransGen (Beside good) w.kernel k)
    (apart : ∀ a k op, w.Open a → good k op → ¬ (w.pipeAt a).Names op) :
      Views { w with kernel := k } where
  reach := Beside.reach run v.reach
  alone a o := by
    replace o : w.Open a := ⟨o.made, o.other, o.up⟩
    change PipeReach false (fun _ _ => True) { w.view a with kernel := k }
    induction run with
    | refl => exact v.alone a o
    | tail before step ih =>
        obtain ⟨op, ok, trans, -⟩ := step
        have out : ({ w.view a with kernel := _ } : PipeSys).current = none :=
          (congrArg (w.view a).inside (Beside.currentPCB before)).trans
            (World.view_outside outside a)
        exact ih.step trivial (other_trans out (apart a _ op o ok) trans)
  apart a b oa ob := v.apart a b ⟨oa.made, oa.other, oa.up⟩ ⟨ob.made, ob.other, ob.up⟩

/-! ### Creation and destruction -/

/-- The semaphores of a new pipe were not there before. -/
theorem pipeInit_fresh (reach : Reach (fun _ _ => True) k) (busy : ¬ k.idle) {garbage : Nat → UInt8}
    {semId : Nat} (has : (pipeInit k garbage).2.Has semId) : ¬ k.Live semId := by
  have mutex := semInit_new reach busy 1
  have written := semInit_new mutex.reach mutex.busy 0
  have empty := semInit_new written.reach written.busy BUFFER_SIZE
  intro live
  have live₁ := (mutex.old live).1
  rcases has with rfl | rfl | rfl
  · exact mutex.fresh live
  · exact written.fresh live₁
  · exact empty.fresh (written.old live₁).1

theorem Views.pipeInit (v : Views w) (known : ∀ p b f, w.inside p = some (b, f) → b < w.unused)
    (outside : w.current = none) (busy : ¬ w.kernel.idle) (garbage : Nat → UInt8) :
    Views (w.pipeInit garbage).1 := by
  have run := pipeInit_beside v.reach busy garbage
  have aside := v.beside outside run fun a _ op _ good named => by
    obtain ⟨_, rfl, -⟩ := good
    exact named
  have old : ∀ {a}, (w.pipeInit garbage).1.Open a → a ≠ w.unused →
      w.Open a ∧ (w.pipeInit garbage).1.memory a = w.memory a := fun {a} o ne => by
    have same := World.pipeInit_old garbage ne
    refine ⟨⟨lt_of_le_of_ne (Nat.lt_succ_iff.mp o.made) ne, o.other, ?_⟩, same⟩
    rw [World.destroyed, ← same]
    exact o.up
  have fresh : ∀ {a}, w.Open a → ∀ semId, (w.pipeAt a).Has semId →
      ¬ ((w.pipeInit garbage).1.pipeAt w.unused).Has semId := fun {a} o semId has has' => by
    rw [World.pipeAt, w.pipeInit_new] at has'
    exact pipeInit_fresh v.reach busy has' ((v.sems o).live semId has)
  refine ⟨aside.reach, fun a o => ?_, fun a b oa ob ne semId has has' => ?_⟩
  · by_cases e : a = w.unused
    · subst e
      refine .start ⟨w.kernel, garbage, v.reach, busy, ?_⟩
      have empty : (fun p => (w.inside p).bind fun here => if here.1 = w.unused then some here.2
          else none) = fun _ => none := by
        funext p
        exact World.unseen fun b f here => (known p b f here).ne
      have view : (w.pipeInit garbage).1.view w.unused = ⟨(Pipes.pipeInit w.kernel garbage).1,
          ((w.pipeInit garbage).1.memory w.unused).pipe,
          fun p => (w.inside p).bind fun here => if here.1 = w.unused then some here.2 else none,
          ((w.pipeInit garbage).1.memory w.unused).stored,
            ((w.pipeInit garbage).1.memory w.unused).taken,
          ((w.pipeInit garbage).1.memory w.unused).returned⟩ := rfl
      rw [view, empty, w.pipeInit_new]
    · obtain ⟨o', same⟩ := old o e
      have view := aside.alone a ⟨o'.made, o'.other, o'.up⟩
      rw [World.view, World.pipeAt] at view ⊢
      rw [same]
      exact view
  · by_cases e : a = w.unused
    · subst e
      obtain ⟨o', same⟩ := old ob ne.symm
      rw [World.pipeAt, same] at has'
      exact fresh o' semId has' has
    · obtain ⟨o', same⟩ := old oa e
      rw [World.pipeAt, same] at has
      by_cases e' : b = w.unused
      · subst e'
        exact fresh o' semId has has'
      · obtain ⟨o'', same'⟩ := old ob e'
        rw [World.pipeAt, same'] at has'
        exact v.apart a b o' o'' ne semId has has'

/-- A pipe that is open when another one was closed was open before. -/
theorem World.open_close {pipeId : Int} (o : (w.close pipeId a).Open b) :
    w.Open b ∧ b ≠ a ∧ (w.close pipeId a).memory b = w.memory b := by
  have ne : b ≠ a := fun e => by
    have up := o.up
    rw [e, World.destroyed, World.close_new] at up
    cases up
  have same := w.close_old pipeId ne
  refine ⟨⟨o.made, o.other, ?_⟩, ne, same⟩
  rw [World.destroyed, ← same]
  exact o.up

theorem Views.close (v : Views w) (pipeId : Int) (a : Nat) : Views (w.close pipeId a) where
  reach := v.reach
  alone b o := by
    obtain ⟨o', -, same⟩ := World.open_close o
    have view := v.alone b o'
    rw [World.view, World.pipeAt] at view ⊢
    rw [same]
    exact view
  apart b c ob oc ne semId := by
    obtain ⟨ob', -, sameb⟩ := World.open_close ob
    obtain ⟨oc', -, samec⟩ := World.open_close oc
    rw [World.pipeAt, World.pipeAt, sameb, samec]
    exact v.apart b c ob' oc' ne semId

theorem Views.destroyPipe {pipeId : Int} {fuel : Nat} (v : Views w) (outside : w.current = none)
    (busy : ¬ w.kernel.idle) (o : w.Open a)
    (run : World.destroySemaphores fuel (w.pipeAt a) w.kernel = .ok k) :
    Views { w.close pipeId a with kernel := k } := by
  refine (v.close pipeId a).beside outside (destroySemaphores_beside v.reach busy run) ?_
  rintro b _ op ob ⟨semId, has, rfl⟩ (named : ((w.close pipeId a).pipeAt b).Has semId)
  obtain ⟨ob', ne, same⟩ := World.open_close ob
  rw [World.pipeAt, same] at named
  exact v.apart b a ob' o ne semId named has

/-! ### Calls -/

theorem Views.enter {call : Call} (v : Views w) (outside : w.current = none)
    (busy : ¬ w.kernel.idle) (on : call.On false) (starts : call.Starts) (a : Nat) :
    Views
      { w with inside := Function.update w.inside w.kernel.currentPCB (some (a, ⟨call, .waitCount⟩)) } where
  reach := v.reach
  alone b o := by
    have here := v.alone b ⟨o.made, o.other, o.up⟩
    by_cases e : a = b
    · subst e
      have step : PipeTrans false (w.view a) (.enter call)
          ((w.view a).setCurrent (some ⟨call, .waitCount⟩)) :=
        ⟨0, if_pos ⟨Option.isNone_iff_eq_none.mpr (World.view_outside outside a), busy, on, starts⟩⟩
      have view := here.step trivial step
      rw [PipeSys.setCurrent, ← World.inside_here] at view
      exact view
    · rw [World.view_move (fun c f h => ?_) fun c f h => ?_]
      · exact here
      · rw [outside] at h
        cases h
      · cases h
        exact e
  apart b c ob oc := v.apart b c ⟨ob.made, ob.other, ob.up⟩ ⟨oc.made, oc.other, oc.up⟩

theorem World.put_view {s : PipeSys}
    (moved : s.inside = Function.update (w.view a).inside w.kernel.currentPCB
      (s.inside w.kernel.currentPCB)) :
    (w.put a s).view a = s := by
  have inside := w.inside_here a w.kernel.currentPCB (s.inside w.kernel.currentPCB)
  rw [← moved] at inside
  rw [World.view, World.pipeAt, w.put_new]
  change (⟨s.kernel, s.pipe, fun q => _, s.stored, s.taken, s.returned⟩ : PipeSys) = s
  rw [show (fun q => ((w.put a s).inside q).bind _) = _ from inside]

theorem Views.statement {s : PipeSys} {node : Bool} (v : Views w) (harmless : w.Harmless)
    (here : w.current = some (a, f)) (known : a < w.unused ∧ a ≠ stdinAddress)
    (trans : PipeTrans false (w.view a) (.statement node) s) : Views (w.put a s) := by
  obtain ⟨same, kernel⟩ := statement_kernel trans
  have opens : ∀ {b}, (w.put a s).Open b → w.Open b := fun {b} o =>
    ⟨o.made, o.other, (World.put_same same b).2.1.symm.trans o.up⟩
  refine ⟨?_, fun b o => ?_, fun b c ob oc ne semId hb hc =>
    v.apart b c (opens ob) (opens oc) ne semId
    (((World.put_same same b).1 semId).mp hb) (((World.put_same same c).1 semId).mp hc)⟩
  · change Reach (fun _ _ => True) s.kernel
    rcases kernel with e | ⟨op, ran, -⟩
    · rw [e]
      exact v.reach
    · exact v.reach.step trivial ran
  · by_cases e : b = a
    · subst e
      rw [World.put_view (statement_inside trans)]
      exact (v.alone b (opens o)).step trivial trans
    · have view : (w.put a s).view b = { w.view b with kernel := s.kernel } := by
        have unseen := World.view_move (w := w) (a := b)
          (g := (s.inside w.kernel.currentPCB).map fun f => (a, f))
          (fun c g h => by
            cases here.symm.trans h
            exact Ne.symm e)
          fun c g h => by
            obtain ⟨f, -, h⟩ := Option.map_eq_some_iff.mp h
            cases h
            exact Ne.symm e
        have inside := congrArg PipeSys.inside unseen
        rw [World.view, World.pipeAt, World.put_old e]
        exact congrArg (fun inside => { w.view b with kernel := s.kernel, inside }) inside
      rw [view]
      rcases kernel with same | ⟨op, ran, -, named⟩
      · rw [same]
        exact v.alone b (opens o)
      · refine v.operation ran (opens o) (World.view_elsewhere here (Ne.symm e)) fun names => ?_
        obtain ⟨semId, has, has'⟩ := named _ names
        cases up : w.destroyed a with
        | false => exact v.apart a b ⟨known.1, known.2, up⟩ (opens o) (Ne.symm e) semId has has'
        | true => exact harmless a f here up semId has ((v.sems (opens o)).live semId has')

/-! ### Every step -/

theorem initializePipes_views {garbage : Nat → Nat → UInt8} (reach : Reach (fun _ _ => True) k)
    (busy : ¬ k.idle) : Views (initializePipes k garbage) := by
  have none : Views (noPipes k) :=
    ⟨reach, fun a o => absurd o.made (Nat.not_lt_zero a), fun a b o =>
      absurd o.made (Nat.not_lt_zero a)⟩
  have one : ∀ {w : World} (garbage : Nat → UInt8), (∀ p, w.inside p = .none) →
      ¬ w.kernel.idle → Views w →
      Views (w.pipeInit garbage).1 ∧ ¬ (w.pipeInit garbage).1.kernel.idle :=
        fun {w} garbage out busy v => by
    refine ⟨v.pipeInit (fun p b f here => ?_) (out _) busy garbage, ?_⟩
    · rw [out p] at here
      cases here
    · have mutex := semInit_new v.reach busy 1
      have written := semInit_new mutex.reach mutex.busy 0
      exact (semInit_new written.reach written.busy BUFFER_SIZE).busy
  obtain ⟨v₁, busy₁⟩ := one (garbage 0) (fun _ => rfl) busy none
  obtain ⟨v₂, busy₂⟩ := one (garbage 1) (fun _ => rfl) busy₁ v₁
  exact (one (garbage 2) (fun _ => rfl) busy₂ v₂).1

theorem World.Placed.step (placed : w.Placed) (v : Views w) (trans : WorldTrans w action w') :
    w'.Placed := by
  cases trans.stepped with
  | other _ _ ran => exact placed.kernel (Ages.of_trans v.inv ran)
  | pipeInit _ busy =>
      exact placed.pipeInit _ (Beside.ages (pipeInit_beside v.reach busy _) v.reach)
  | refuses _ => exact placed
  | destroyPipe _ busy _ found run =>
      exact (placed.close found).kernel
        (Beside.ages (destroySemaphores_beside v.reach busy run) v.reach)
  | @enter pipeId call a _ busy _ _ other found =>
      refine placed.move fun b f e => ?_
      cases e
      obtain ⟨-, lt, -, std⟩ := placed.found found
      exact ⟨⟨lt, fun e => other (std e)⟩, v.inv.current_lt, v.inv.current_ne_idle busy⟩
  | statement here _ ran =>
      refine placed.put here ?_
      rcases (statement_kernel ran).2 with e | ⟨op, ran, -, -⟩
      · rw [e]
        exact Ages.refl _
      · exact Ages.of_trans v.inv ran

theorem Views.step (v : Views w) (placed : w.Placed) (harmless : w.Harmless)
    (trans : WorldTrans w action w') : Views w' := by
  cases trans.stepped with
  | other outside apart ran =>
      refine ⟨v.reach.step trivial ran, fun a o => ?_, fun a b oa ob =>
        v.apart a b ⟨oa.made, oa.other, oa.up⟩ ⟨ob.made, ob.other, ob.up⟩⟩
      exact v.operation ran ⟨o.made, o.other, o.up⟩ (World.view_outside outside a)
        (apart a o.made o.other o.up)
  | pipeInit outside busy =>
      exact v.pipeInit (fun p b f here => (placed.inside p b f here).1) outside busy _
  | refuses _ => exact v
  | @destroyPipe pipeId a _ _ outside busy other found run =>
      obtain ⟨-, lt, up, std⟩ := placed.found found
      refine v.destroyPipe outside busy ⟨lt, fun e => other ?_, up⟩ run
      rw [std e]
      decide
  | enter outside busy on starts _ _ => exact v.enter outside busy on starts _
  | statement here _ ran => exact v.statement harmless here (placed.inside _ _ _ here) ran

end Views

end SoTp.Pipes
