/-
Where the pipes and the processes are. A pipe is in one slot of the table, the memory
of a pipe is given back after it was destroyed, and who is inside is inside some pipe.

* `Beside` — operations one after the other that leave the running process running, as
  `pipeInit` and `destroyPipe` say them to the kernel.
* `World.Placed` — where everything is; `Placed.step`, every step keeps it.
-/

import SoTp.Pipes.Table

namespace SoTp.Pipes

open SoTp.Lib SoTp.Process Kernel

section Kernels

variable {k k' : Kernel} {op : Op}

/-! ### Operations between the calls -/

/-- An operation among `good` that leaves the running process running. -/
def Beside (good : Kernel → Op → Prop) (k k' : Kernel) : Prop :=
  ∃ op, good k op ∧ Trans k op k' ∧ k'.currentPCB = k.currentPCB

theorem Beside.currentPCB {good : Kernel → Op → Prop}
    (run : Relation.ReflTransGen (Beside good) k k') : k'.currentPCB = k.currentPCB := by
  induction run with
  | refl => rfl
  | tail _ step ih =>
      obtain ⟨op, -, -, same⟩ := step
      exact same.trans ih

theorem Beside.reach {good : Kernel → Op → Prop} (run : Relation.ReflTransGen (Beside good) k k')
    (reach : Reach (fun _ _ => True) k) : Reach (fun _ _ => True) k' := by
  induction run with
  | refl => exact reach
  | tail _ step ih =>
      obtain ⟨op, -, trans, -⟩ := step
      exact ih.step trivial trans

/-- The new semaphores of `pipeInit`. -/
theorem pipeInit_beside (reach : Reach (fun _ _ => True) k) (busy : ¬ k.idle)
    (garbage : Nat → UInt8) :
    Relation.ReflTransGen (Beside fun j op => ∃ v, op = .semInit v ∧
      (pipeInit k garbage).2.Has (j.semInit v).2) k (pipeInit k garbage).1 := by
  have created : ∀ {j : Kernel} (v : Nat), Reach (fun _ _ => True) j → ¬ j.idle →
      (pipeInit k garbage).2.Has (j.semInit v).2 →
      Beside (fun j op => ∃ v, op = .semInit v ∧ (pipeInit k garbage).2.Has (j.semInit v).2) j
        (j.semInit v).1 :=
    fun {j} v reach busy has => by
      have i : Inv False j := reach.sound
      exact ⟨.semInit v, ⟨v, rfl, has⟩, ⟨busy, 0, rfl⟩, (semInit_edits i.toMid v).ring.currentPCB⟩
  have mutex := semInit_new reach busy 1
  have written := semInit_new mutex.reach mutex.busy 0
  exact ((Relation.ReflTransGen.single (created 1 reach busy (Or.inl rfl))).tail
    (created 0 mutex.reach mutex.busy (Or.inr (Or.inl rfl)))).tail
    (created BUFFER_SIZE written.reach written.busy (Or.inr (Or.inr rfl)))

/-- What `destroySemaphore` does. -/
structure Destroyed (semId : Nat) (k k' : Kernel) : Prop where
  reach : Reach (fun _ _ => True) k
  trans : Trans k (.destroySemaphore semId) k'
  current : k'.currentPCB = k.currentPCB
  dead : ¬ k'.Live semId
  wakes : ∀ p ∈ k.queueOf semId, k.stateOf p = .blocked → k'.stateOf p = .ready

theorem Destroyed.inv {semId : Nat} (d : Destroyed semId k k') : Inv False k := d.reach.sound

theorem destroyed_of_exec {semId fuel : Nat} (reach : Reach (fun _ _ => True) k) (busy : ¬ k.idle)
    (run : k.exec fuel (.destroySemaphore semId) = .ok k') :
    Destroyed semId k k' ∧ Reach (fun _ _ => True) k' ∧ ¬ k'.idle := by
  have i : Inv False k := reach.sound
  have trans : Trans k (.destroySemaphore semId) k' := ⟨busy, fuel, run⟩
  obtain ⟨r, ran, rfl⟩ := map_ok_iff.mp run
  have edits := (destroySemaphore_spec i ran).1
  exact ⟨⟨reach, trans, edits.ring.currentPCB, destroySemaphore_dead i ran,
    fun p queued blocked => destroySemaphore_wakes i ran queued blocked⟩,
    reach.step trivial trans, fun idle => busy (edits.ring.idle.mp idle)⟩

/-- The semaphores that `destroyPipe` destroys. -/
theorem destroySemaphores_cases {p : Pipe} {fuel : Nat} (reach : Reach (fun _ _ => True) k)
    (busy : ¬ k.idle) (run : World.destroySemaphores fuel p k = .ok k') :
    ∃ k₁ k₂, Destroyed p.mutex k k₁ ∧ Destroyed p.writtenCountSem k₁ k₂ ∧
      Destroyed p.emptyCountSem k₂ k' := by
  obtain ⟨k₁, run₁, run⟩ := bind_ok_iff.mp run
  obtain ⟨k₂, run₂, run₃⟩ := bind_ok_iff.mp run
  obtain ⟨first, reach₁, busy₁⟩ := destroyed_of_exec reach busy run₁
  obtain ⟨second, reach₂, busy₂⟩ := destroyed_of_exec reach₁ busy₁ run₂
  exact ⟨k₁, k₂, first, second, (destroyed_of_exec reach₂ busy₂ run₃).1⟩

theorem destroySemaphores_beside {p : Pipe} {fuel : Nat} (reach : Reach (fun _ _ => True) k)
    (busy : ¬ k.idle) (run : World.destroySemaphores fuel p k = .ok k') :
    Relation.ReflTransGen (Beside fun _ op => ∃ semId, p.Has semId ∧
      op = .destroySemaphore semId) k k' := by
  obtain ⟨k₁, k₂, first, second, third⟩ := destroySemaphores_cases reach busy run
  exact ((Relation.ReflTransGen.single ⟨_, ⟨_, Or.inl rfl, rfl⟩, first.trans, first.current⟩).tail
    ⟨_, ⟨_, Or.inr (Or.inl rfl), rfl⟩, second.trans, second.current⟩).tail
    ⟨_, ⟨_, Or.inr (Or.inr rfl), rfl⟩, third.trans, third.current⟩

/-! ### What grows old -/

/-- What every operation of the kernel keeps of a process. -/
structure Ages (k k' : Kernel) : Prop where
  unused : k.unused ≤ k'.unused
  dead : ∀ p < k.unused, Dead (k.stateOf p) → Dead (k'.stateOf p)
  idle : k'.idlePCB = k.idlePCB

theorem Ages.refl (k : Kernel) : Ages k k := ⟨Nat.le_refl _, fun _ _ => id, rfl⟩

theorem Ages.trans {j : Kernel} (h : Ages k j) (h' : Ages j k') : Ages k k' :=
  ⟨h.unused.trans h'.unused, fun p lt dead => h'.dead p (lt.trans_le h.unused) (h.dead p lt dead),
    h'.idle.trans h.idle⟩

theorem Ages.of_trans (i : Inv False k) (trans : Trans k op k') : Ages k k' := by
  have e := trans.effect i
  exact ⟨e.moves.unused, fun p lt dead => dead.elim (e.moves.killed p lt) fun dead =>
    Or.inr (e.moves.dead p lt dead), e.idlePCB i⟩

theorem Beside.ages {good : Kernel → Op → Prop} (run : Relation.ReflTransGen (Beside good) k k')
    (reach : Reach (fun _ _ => True) k) : Ages k k' := by
  induction run with
  | refl => exact Ages.refl k
  | tail before step ih =>
      obtain ⟨op, -, trans, -⟩ := step
      exact ih.trans (Ages.of_trans ((Beside.reach before reach).sound) trans)

/-- A semaphore stays dead. -/
theorem Beside.stays_dead {good : Kernel → Op → Prop} {semId : Nat}
    (run : Relation.ReflTransGen (Beside good) k k') (reach : Reach (fun _ _ => True) k)
    (dead : ¬ k.Live semId) (same : ∀ j op, good j op → ¬ Reuses semId j op) : ¬ k'.Live semId := by
  induction run with
  | refl => exact dead
  | tail before step ih =>
      obtain ⟨op, ok, trans, -⟩ := step
      exact Process.stays_dead ((Beside.reach before reach).sound) ih (same _ op ok) trans

end Kernels

/-! ### Statements -/

/-- Only the running process moves. -/
theorem statement_inside {s s' : PipeSys} {node : Bool}
    (trans : PipeTrans false s (.statement node) s') :
    s'.inside = Function.update s.inside s.kernel.currentPCB (s'.inside s.kernel.currentPCB) := by
  have moved : ∀ g, Function.update s.inside s.kernel.currentPCB g =
      Function.update s.inside s.kernel.currentPCB
        (Function.update s.inside s.kernel.currentPCB g s.kernel.currentPCB) :=
    fun g => by rw [Function.update_self]
  cases trans.stepped with
  | operation _ _ _ => exact moved _
  | @transfer call _ _ => cases call <;> exact moved _

/-- What a statement says to the kernel, if anything. -/
theorem statement_kernel {s s' : PipeSys} {node : Bool}
    (trans : PipeTrans false s (.statement node) s') : s.pipe.SameSems s'.pipe ∧
      (s'.kernel = s.kernel ∨ ∃ op, Trans s.kernel op s'.kernel ∧
        (∀ semId, ¬ Reuses semId s.kernel op) ∧
        ∀ p : Pipe, p.Names op → ∃ semId, s.pipe.Has semId ∧ p.Has semId) := by
  cases trans.stepped with
  | @operation f _ op _ here next ran =>
      refine ⟨⟨rfl, rfl, rfl⟩, Or.inr ⟨op, ran, ?_⟩⟩
      obtain ⟨call, phase⟩ := f
      cases phase <;> cases next
      · exact ⟨fun _ => id, fun p named => ⟨_, Pipe.has_count _, named⟩⟩
      · exact ⟨fun _ => id, fun p named => ⟨_, Pipe.has_mutex, named⟩⟩
      · exact ⟨fun _ => id, fun p named => ⟨_, Pipe.has_mutex, named⟩⟩
      · exact ⟨fun _ => id, fun p named => ⟨_, Pipe.has_count _, named⟩⟩
  | @transfer call _ _ => cases call <;> exact ⟨⟨rfl, rfl, rfl⟩, Or.inl rfl⟩


/-! ### Where everything is -/

namespace World

/-- The pipes in the table, and the processes inside. -/
structure Placed (w : World) : Prop where
  standard : stdinAddress < w.unused
  sound : w.table.Sound w.destroyed
  slots : ∀ pipeId a, w.table.get pipeId = some a → a < w.unused ∧
    (a = stdinAddress → pipeId = stdin)
  once : ∀ pipeId pipeId' a, w.table.get pipeId = some a → w.table.get pipeId' = some a →
    pipeId = pipeId'
  back : ∀ a, w.freed a = true → a < w.unused ∧ w.destroyed a = true
  inside : ∀ p a f, w.inside p = some (a, f) → a < w.unused ∧ a ≠ stdinAddress
  known : ∀ p a f, w.inside p = some (a, f) → p < w.kernel.unused ∧ p ≠ w.kernel.idlePCB

end World

section Placed

variable {w w' : World} {a b : Nat} {k : Kernel} {op : Op} {action : Action} {f : Frame}

theorem World.pipeInit_new (w : World) (garbage : Nat → UInt8) :
    (w.pipeInit garbage).1.memory w.unused =
      ⟨(Pipes.pipeInit w.kernel garbage).2, false, [], [], [], 0⟩ :=
  Function.update_self w.unused _ w.memory

theorem World.pipeInit_old (garbage : Nat → UInt8) (ne : a ≠ w.unused) :
    (w.pipeInit garbage).1.memory a = w.memory a := Function.update_of_ne ne _ _

/-- The memory that `pipeInit` gives back is that of the pipe that was in the slot. -/
theorem World.pipeInit_freed {garbage : Nat → UInt8}
    (gone : (w.pipeInit garbage).1.freed a = true) :
    w.freed a = true ∨ w.table.get (w.table.alloc w.unused).2 = some a := by
  cases held : w.table.get (w.table.alloc w.unused).2 with
  | none =>
      simp only [World.pipeInit, held] at gone
      exact Or.inl gone
  | some old =>
      simp only [World.pipeInit, held, Function.update_apply] at gone
      split_ifs at gone with e
      · exact Or.inr (by rw [e])
      · exact Or.inl gone

theorem World.close_new (w : World) (pipeId : Int) (a : Nat) :
    (w.close pipeId a).memory a = { w.memory a with destroyed := true, later := w.unused } :=
  Function.update_self a _ w.memory

theorem World.close_old (w : World) (pipeId : Int) (ne : b ≠ a) :
    (w.close pipeId a).memory b = w.memory b :=
  Function.update_of_ne ne _ _

namespace World.Placed

theorem kernel (h : w.Placed) (ages : Ages w.kernel k) : { w with kernel := k }.Placed where
  standard := h.standard
  sound := h.sound
  slots := h.slots
  once := h.once
  back := h.back
  inside := h.inside
  known p a f here := by
    obtain ⟨lt, ne⟩ := h.known p a f here
    exact ⟨lt.trans_le ages.unused, fun e => ne (e.trans ages.idle)⟩

/-- The idle process is inside no pipe. -/
theorem not_idle (h : w.Placed) (here : w.current = some (a, f)) : ¬ w.kernel.idle := fun idle => by
  refine (h.known _ a f here).2 ?_
  rw [currentPCB, show w.kernel.pcbList.current = w.kernel.idleProcPCBNode from idle]
  rfl

/-- A pipe that `getPipe` finds. -/
theorem found (h : w.Placed) {pipeId : Int} (found : w.getPipe pipeId = some a) :
    w.table.get pipeId = some a ∧ a < w.unused ∧ w.destroyed a = false ∧
      (a = stdinAddress → pipeId = stdin) := by
  obtain ⟨held, up⟩ := Slots.live_some.mp found
  exact ⟨held, (h.slots pipeId a held).1, up, (h.slots pipeId a held).2⟩

theorem pipeInit (h : w.Placed) (garbage : Nat → UInt8)
    (ages : Ages w.kernel (Pipes.pipeInit w.kernel garbage).1) : (w.pipeInit garbage).1.Placed := by
  have same : ∀ {a}, a < w.unused → (w.pipeInit garbage).1.destroyed a = w.destroyed a := fun lt =>
    congrArg PipeData.destroyed (World.pipeInit_old garbage lt.ne)
  have new : (w.pipeInit garbage).1.destroyed w.unused = false := by
    rw [World.destroyed, w.pipeInit_new]
  have sound : w.table.Sound (w.pipeInit garbage).1.destroyed :=
    h.sound.congr fun pipeId a held => same (h.slots pipeId a held).1
  have get : (w.pipeInit garbage).1.table.get =
      Function.update w.table.get (w.table.alloc w.unused).2 (some w.unused) :=
        Slots.alloc_get sound w.unused
  have slot : ∀ {pipeId a}, (w.pipeInit garbage).1.table.get pipeId = some a →
      pipeId = (w.table.alloc w.unused).2 ∧ a = w.unused ∨
        pipeId ≠ (w.table.alloc w.unused).2 ∧ w.table.get pipeId = some a :=
          fun {pipeId a} held => by
    rw [get, Function.update_apply] at held
    split_ifs at held with e
    · cases held
      exact Or.inl ⟨e, rfl⟩
    · exact Or.inr ⟨e, held⟩
  refine ⟨h.standard.trans (Nat.lt_succ_self _), sound.alloc new, fun pipeId a held => ?_,
    fun pipeId pipeId' a held held' => ?_, fun a gone => ?_, fun p a f here => ?_,
    (h.kernel ages).known⟩
  · rcases slot held with ⟨rfl, rfl⟩ | ⟨-, held⟩
    · exact ⟨Nat.lt_succ_self _, fun e => absurd (e ▸ h.standard) (Nat.lt_irrefl _)⟩
    · exact ⟨(h.slots pipeId a held).1.trans (Nat.lt_succ_self _), (h.slots pipeId a held).2⟩
  · rcases slot held with ⟨rfl, rfl⟩ | ⟨-, held⟩ <;> rcases slot held' with ⟨rfl, e⟩ | ⟨-, held'⟩
    · rfl
    · exact absurd (h.slots pipeId' _ held').1 (Nat.lt_irrefl _)
    · exact absurd (h.slots pipeId _ held).1 (e ▸ Nat.lt_irrefl _)
    · exact h.once pipeId pipeId' a held held'
  · rcases World.pipeInit_freed gone with gone | held
    · obtain ⟨lt, down⟩ := h.back a gone
      exact ⟨lt.trans (Nat.lt_succ_self _), (same lt).trans down⟩
    · obtain ⟨lt, -⟩ := h.slots _ a held
      refine ⟨lt.trans (Nat.lt_succ_self _), (same lt).trans ?_⟩
      cases down : w.destroyed a with
      | true => rfl
      | false =>
          have found := Slots.live_some.mpr ⟨held, down⟩
          rw [Slots.alloc_unused h.sound] at found
          cases found
  · obtain ⟨lt, ne⟩ := h.inside p a f here
    exact ⟨lt.trans (Nat.lt_succ_self _), ne⟩

theorem close (h : w.Placed) {pipeId : Int} (found : w.getPipe pipeId = some a) :
    (w.close pipeId a).Placed := by
  obtain ⟨held, lt, -, -⟩ := h.found found
  have get : (w.close pipeId a).table.get = w.table.get := by
    change (w.table.release pipeId a).get = _
    rw [Slots.release_get held, ← held, Function.update_eq_self]
  have died : (w.close pipeId a).destroyed a = true := by
    rw [World.destroyed, w.close_new]
  have others : ∀ b, b ≠ a → (w.close pipeId a).destroyed b = w.destroyed b := fun b ne =>
    congrArg PipeData.destroyed (w.close_old pipeId ne)
  refine ⟨h.standard,
    h.sound.die found (fun id' held' => h.once id' pipeId a held' held) died others,
    get ▸ h.slots, get ▸ h.once, fun b gone => ?_, h.inside, h.known⟩
  obtain ⟨lt', down⟩ := h.back b gone
  refine ⟨lt', ?_⟩
  by_cases e : b = a
  · rw [e]
    exact died
  · exact (others b e).trans down

/-- The running process goes on. -/
theorem move (h : w.Placed) {g : Option (Nat × Frame)}
    (known : ∀ a f, g = some (a, f) → (a < w.unused ∧ a ≠ stdinAddress) ∧
      w.kernel.currentPCB < w.kernel.unused ∧ w.kernel.currentPCB ≠ w.kernel.idlePCB) :
    { w with inside := Function.update w.inside w.kernel.currentPCB g }.Placed := by
  have place : ∀ p a f, Function.update w.inside w.kernel.currentPCB g p = some (a, f) →
      (a < w.unused ∧ a ≠ stdinAddress) ∧ p < w.kernel.unused ∧ p ≠ w.kernel.idlePCB :=
        fun p a f here => by
    rw [Function.update_apply] at here
    split_ifs at here with own
    · rw [own]
      exact known a f here
    · exact ⟨h.inside p a f here, h.known p a f here⟩
  exact ⟨h.standard, h.sound, h.slots, h.once, h.back, fun p a f here => (place p a f here).1,
    fun p a f here => (place p a f here).2⟩

theorem write (h : w.Placed) {data : PipeData} (same : data.destroyed = w.destroyed a) :
    { w with memory := Function.update w.memory a data }.Placed := by
  have destroyed : World.destroyed { w with memory := Function.update w.memory a data } =
      w.destroyed := by
    funext b
    change (Function.update w.memory a data b).destroyed = _
    rw [Function.update_apply]
    split_ifs with e
    · rw [e]
      exact same
    · rfl
  exact ⟨h.standard, destroyed ▸ h.sound, h.slots, h.once, fun b gone => destroyed ▸ h.back b gone,
    h.inside, h.known⟩

/-- The running process goes on inside its pipe. -/
theorem put (h : w.Placed) {s : PipeSys} (here : w.current = some (a, f))
    (ages : Ages w.kernel s.kernel) : (w.put a s).Placed := by
  have moved := h.move (g := (s.inside w.kernel.currentPCB).map fun f => (a, f)) fun b g goes => by
    obtain ⟨f', -, e⟩ := Option.map_eq_some_iff.mp goes
    cases e
    exact ⟨h.inside _ a f here, h.known _ a f here⟩
  let data : PipeData :=
    { w.memory a with pipe := s.pipe, stored := s.stored, taken := s.taken, returned := s.returned }
  have written := moved.write (show data.destroyed = w.destroyed a from rfl)
  exact written.kernel ages

end World.Placed

theorem World.put_new (w : World) (a : Nat) (s : PipeSys) : (w.put a s).memory a = { w.memory a with
    pipe := s.pipe, stored := s.stored, taken := s.taken, returned := s.returned } :=
  Function.update_self a _ w.memory

theorem World.put_old {s : PipeSys} (ne : b ≠ a) : (w.put a s).memory b = w.memory b :=
  Function.update_of_ne ne _ _

theorem Pipe.SameSems.has {p p' : Pipe} (same : p.SameSems p') {semId : Nat} : p'.Has semId ↔
    p.Has semId := by
  obtain ⟨mutex, written, empty⟩ := same
  rw [Pipe.Has, Pipe.Has, mutex, written, empty]

/-- A statement changes neither the ids nor the marks. -/
theorem World.put_same {s : PipeSys} (same : (w.pipeAt a).SameSems s.pipe) (b : Nat) :
    (∀ semId, ((w.put a s).pipeAt b).Has semId ↔ (w.pipeAt b).Has semId) ∧
      (w.put a s).destroyed b = w.destroyed b ∧ ((w.put a s).memory b).later =
        (w.memory b).later := by
  by_cases e : b = a
  · subst e
    rw [World.destroyed, World.pipeAt, w.put_new]
    exact ⟨fun _ => same.has, rfl, rfl⟩
  · rw [World.destroyed, World.pipeAt, World.put_old e]
    exact ⟨fun _ => Iff.rfl, rfl, rfl⟩

theorem initializePipes_up (k : Kernel) (garbage : Nat → Nat → UInt8) (a : Nat) :
    (initializePipes k garbage).destroyed a = false := by
  simp only [initializePipes, World.pipeInit, World.destroyed, Function.update_apply]
  split_ifs <;> rfl

theorem initializePipes_placed (k : Kernel) (garbage : Nat → Nat → UInt8) :
    (initializePipes k garbage).Placed := by
  have table : (initializePipes k garbage).table = ⟨List.range 3, []⟩ := rfl
  have slot : ∀ pipeId a, (initializePipes k garbage).table.get pipeId = some a →
      pipeId = a ∧ a < 3 :=
    fun pipeId a held => by
      rw [table, Slots.get] at held
      split_ifs at held with neg
      obtain ⟨lt, e⟩ := List.getElem?_eq_some_iff.mp held
      rw [List.getElem_range] at e
      rw [List.length_range] at lt
      omega
  have up := initializePipes_up k garbage
  refine ⟨show 1 < 3 by decide, ⟨List.nodup_nil, fun id => ?_⟩, fun pipeId a held => ?_,
    fun pipeId pipeId' a held held' => ?_, fun a gone => ?_, fun p a f here => ?_,
      fun p a f here => ?_⟩
  · simp [table, up]
  · obtain ⟨e, lt⟩ := slot pipeId a held
    exact ⟨lt, fun std => e.trans (congrArg _ std)⟩
  · exact (slot pipeId a held).1.trans (slot pipeId' a held').1.symm
  · cases gone
  · cases here
  · cases here

end Placed

end SoTp.Pipes
