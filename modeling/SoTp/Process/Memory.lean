/-
The global blocks of a process: its node, its PCB, its stack, its heap and the sentinel
of its free list.

* `Turn.releases`, `Part.releases`, `Opening.releases` — what each stage gives back.
* `Ran.accounted` — a run, with all that was given back so far.
* `memory_accounted` — every block is given back at most once: the heap when the process
  is dead, the rest when the process leaves the list.
-/

import SoTp.Process.Death
import SoTp.Process.Scan
import SoTp.Process.Structure
import SoTp.Process.Waiters

namespace SoTp.Process

open SoTp.Lib Kernel

/-! ### What is given back -/

/-- The block that an event gives back. -/
def Event.freed : Event → Option Block
  | .globalFree block _ _ => some block
  | _ => none

def frees (log : List Event) : List Block := log.filterMap Event.freed

/-- The process a block belongs to. -/
def Block.owner : Block → Nat
  | .node p | .pcb p | .stack p | .heap p | .freeListStart p => p

/-- One of the blocks that a process has as long as it is in the list. -/
def Block.Listed (pcb : Nat) (block : Block) : Prop := block.owner = pcb ∧ block ≠ .heap pcb

/-- Heaps are given back of dead processes, and no stack under the process that runs. -/
def Timely (log : List Event) : Prop :=
  (∀ pcb state running, .globalFree (.heap pcb) state running ∈ log → Dead state) ∧
    ∀ pcb state running, .globalFree (.stack pcb) state running ∈ log → running ≠ pcb

namespace Kernel

/-- `pcb` is in memory with its heap. -/
def HoldsHeap (k : Kernel) (pcb : Nat) : Prop :=
  k.allocated pcb = true ∧ (k.pcbs pcb).heapFreed = false

/-- Only dead processes have lost their heap. -/
def HeapsHeld (k : Kernel) : Prop := ∀ p, (k.pcbs p).heapFreed = true → Dead (k.stateOf p)

end Kernel

/-- A stage that creates no process, with the blocks it gives back. -/
structure Releases (k : Kernel) (log : List Event) (k' : Kernel) : Prop where
  allocated : ∀ p, k'.allocated p = true → k.allocated p = true
  heaps : ∀ p, k'.HoldsHeap p → k.HoldsHeap p
  listed : ∀ p b, b.Listed p → (b ∈ frees log ↔ k.allocated p = true ∧ k'.allocated p = false)
  heap : ∀ p, .heap p ∈ frees log ↔ k.HoldsHeap p ∧ ¬ k'.HoldsHeap p
  nodup : (frees log).Nodup
  timely : Timely log
  held : k.HeapsHeld → k'.HeapsHeld

section Releases

variable {k j k' : Kernel} {log log' : List Event} {p : Nat} {b : Block}

theorem frees_append : frees (log ++ log') = frees log ++ frees log' := List.filterMap_append

theorem Block.listed_or_heap (b : Block) : b.Listed b.owner ∨ b = .heap b.owner := by
  by_cases e : b = .heap b.owner
  · exact Or.inr e
  · exact Or.inl ⟨rfl, e⟩

theorem Timely.append (first : Timely log) (rest : Timely log') : Timely (log ++ log') :=
  ⟨fun p s r mem => (List.mem_append.mp mem).elim (first.1 p s r) (rest.1 p s r),
    fun p s r mem => (List.mem_append.mp mem).elim (first.2 p s r) (rest.2 p s r)⟩

theorem timely_of_frees (none : frees log = []) : Timely log := by
  have no : ∀ b s r, .globalFree b s r ∉ log := fun b s r mem => by
    have mem : b ∈ frees log := List.mem_filterMap.mpr ⟨_, mem, rfl⟩
    rw [none] at mem
    cases mem
  exact ⟨fun p s r mem => absurd mem (no _ s r), fun p s r mem => absurd mem (no _ s r)⟩

/-- A stage that gives nothing back. -/
theorem releases_nothing (none : frees log = []) (allocated : k'.allocated = k.allocated)
    (heapFreed : ∀ p, (k'.pcbs p).heapFreed = (k.pcbs p).heapFreed)
    (held : k.HeapsHeld → k'.HeapsHeld) : Releases k log k' := by
  have holds : ∀ p, k'.HoldsHeap p ↔ k.HoldsHeap p := fun p => by
    rw [HoldsHeap, allocated, heapFreed, HoldsHeap]
  refine ⟨fun p h => allocated ▸ h, fun p h => (holds p).mp h, fun p b _ => ?_, fun p => ?_, ?_,
    timely_of_frees none, held⟩
  · rw [none, allocated]
    simp
  · rw [none, holds]
    simp
  · rw [none]
    exact List.nodup_nil

theorem Releases.trans (first : Releases k log j) (rest : Releases j log' k') :
    Releases k (log ++ log') k' := by
  have listed : ∀ p b, b.Listed p →
      (b ∈ frees (log ++ log') ↔ k.allocated p = true ∧ k'.allocated p = false) := by
    intro p b l
    rw [frees_append, List.mem_append, first.listed p b l, rest.listed p b l]
    constructor
    · rintro (⟨here, gone⟩ | ⟨here, gone⟩)
      · refine ⟨here, ?_⟩
        by_contra back
        rw [rest.allocated p (by simpa using back)] at gone
        cases gone
      · exact ⟨first.allocated p here, gone⟩
    · rintro ⟨here, gone⟩
      by_cases mid : j.allocated p = true
      · exact Or.inr ⟨mid, gone⟩
      · exact Or.inl ⟨here, by simpa using mid⟩
  have heap : ∀ p, .heap p ∈ frees (log ++ log') ↔ k.HoldsHeap p ∧ ¬ k'.HoldsHeap p := by
    intro p
    rw [frees_append, List.mem_append, first.heap, rest.heap]
    have := first.heaps p
    have := rest.heaps p
    tauto
  refine ⟨fun p h => first.allocated p (rest.allocated p h), fun p h =>
    first.heaps p (rest.heaps p h),
    listed, heap, ?_, first.timely.append rest.timely, rest.held ∘ first.held⟩
  rw [frees_append, List.nodup_append]
  refine ⟨first.nodup, rest.nodup, ?_⟩
  -- What the first has given back is not there any more.
  rintro b mem _ mem' rfl
  rcases b.listed_or_heap with l | e
  · have gone := ((first.listed _ b l).mp mem).2
    rw [((rest.listed _ b l).mp mem').1] at gone
    cases gone
  · rw [e] at mem mem'
    exact ((first.heap _).mp mem).2 ((rest.heap _).mp mem').1

end Releases

/-! ### Reaping -/

namespace Kernel

/-- What a process still has when it is reaped. -/
def blocksOf (k : Kernel) (pcb : Nat) : List Block :=
  (if (k.pcbs pcb).heapFreed then [] else [.heap pcb]) ++
    [.freeListStart pcb, .stack pcb, .pcb pcb, .node pcb]

end Kernel

section Reaping

variable {k k' : Kernel} {p q running : Nat} {nodes before after : List Nat} {cursor : Nat}
  {log : List Event} {b : Block}

theorem frees_reapLog : frees (reapLog running k p) = k.blocksOf p := by
  unfold reapLog blocksOf frees
  split_ifs <;> rfl

theorem frees_reaps : frees (reaps running k nodes) = (k.reaped nodes).flatMap k.blocksOf := by
  unfold reaps
  induction k.reaped nodes with
  | nil => rfl
  | cons q gone ih =>
      rw [List.flatMap_cons, frees_append, frees_reapLog, ih, List.flatMap_cons]

theorem owner_of_mem_blocksOf (mem : b ∈ k.blocksOf q) : b.owner = q := by
  unfold blocksOf at mem
  split_ifs at mem <;> simp at mem <;> rcases mem with rfl | rfl | rfl | rfl | rfl <;> rfl

theorem listed_mem_blocksOf (l : b.Listed p) : b ∈ k.blocksOf q ↔ q = p := by
  constructor
  · exact fun mem => (owner_of_mem_blocksOf mem).symm.trans l.1
  · rintro rfl
    obtain ⟨rfl, other⟩ := l
    unfold blocksOf
    cases b <;> simp [Block.owner] at other ⊢

theorem heap_mem_blocksOf : .heap p ∈ k.blocksOf q ↔ q = p ∧ (k.pcbs p).heapFreed = false := by
  unfold blocksOf
  by_cases e : (k.pcbs q).heapFreed = true
  · simp only [e, if_true, List.nil_append, List.mem_cons, reduceCtorEq, List.not_mem_nil, or_false,
      false_iff, not_and]
    rintro rfl
    simp [e]
  · simp only [e, Bool.false_eq_true, if_false, List.mem_append, Block.heap.injEq,
      List.mem_cons, reduceCtorEq, List.not_mem_nil, or_false]
    constructor
    · rintro rfl
      exact ⟨rfl, by simpa using e⟩
    · exact fun ⟨e, _⟩ => e.symm

theorem blocksOf_nodup : (k.blocksOf p).Nodup := by
  unfold blocksOf
  split_ifs <;> simp

theorem mem_reaped : p ∈ k.reaped nodes ↔ ∃ n ∈ nodes, k.stateOf p = .exited ∧ k.pcbOf n = p := by
  unfold reaped exitedAt
  simp only [List.mem_map, List.mem_filter, decide_eq_true_eq]
  constructor
  · rintro ⟨n, ⟨mem, dead⟩, rfl⟩
    exact ⟨n, mem, dead, rfl⟩
  · rintro ⟨n, mem, dead, rfl⟩
    exact ⟨n, ⟨mem, dead⟩, rfl⟩

/-- Nothing is reaped twice. -/
theorem RingAt.reaped_nodup (ring : RingAt k before cursor after)
    (sub : ∀ n ∈ nodes, n ∈ before ++ cursor :: after) (once : nodes.Nodup) :
      (k.reaped nodes).Nodup := by
  refine List.Nodup.map_on (fun m hm n hn e => ?_) (once.filter _)
  exact ring.pid_inj (sub m (List.mem_filter.mp hm).1) (sub n (List.mem_filter.mp hn).1) (by rw [e])

theorem reaps_frees_nodup (once : (k.reaped nodes).Nodup) :
    (frees (reaps running k nodes)).Nodup := by
  rw [frees_reaps, List.nodup_flatMap]
  refine ⟨fun p _ => blocksOf_nodup, once.imp fun {p q} ne => ?_⟩
  intro b mem mem'
  exact ne ((owner_of_mem_blocksOf mem).symm.trans (owner_of_mem_blocksOf mem'))

theorem Selects.heapFreed (s : Selects k k') (p : Nat) :
    (k'.pcbs p).heapFreed = (k.pcbs p).heapFreed := by rw [s.samePCB p]

theorem Selects.heapsHeld (s : Selects k k') (h : k.HeapsHeld) : k'.HeapsHeld := fun p early => by
  have dead := h p (s.heapFreed p ▸ early)
  rcases s.states p with same | ⟨awake, -⟩
  · exact same ▸ dead
  · exact absurd dead fun d => d.elim (fun w => awake.active.1 (Or.inr w)) awake.active.2

theorem mem_reaps {state : State} {who : Nat}
    (mem : .globalFree b state who ∈ reaps running k nodes) :
    who = running ∧ state = .exited ∧ b.owner ∈ k.reaped nodes := by
  obtain ⟨q, gone, mem⟩ := List.mem_flatMap.mp mem
  have log : reapLog running k q = (k.blocksOf q).map fun b =>
      .globalFree b (k.stateOf q) running := by
    unfold reapLog blocksOf
    split_ifs <;> rfl
  rw [log] at mem
  obtain ⟨_, mem', e⟩ := List.mem_map.mp mem
  cases e
  obtain ⟨_, _, dead, _⟩ := mem_reaped.mp gone
  exact ⟨rfl, dead, owner_of_mem_blocksOf mem' ▸ gone⟩

theorem preempted_heapFreed (k : Kernel) (p : Nat) :
    ((preempted k).pcbs p).heapFreed = (k.pcbs p).heapFreed := by
  unfold preempted
  split_ifs
  · rw [setState, setPCB_pcbs]
    split_ifs with e
    · rw [e]
    · rfl
  · rfl

/-- The process on whose stack `schedule` runs is not among those it passes. -/
theorem RingAt.running_not_scanned {scanned rest : List Nat} {n m : Nat}
    (ring : RingAt k before cursor after) (here : k.pcbList.current = cursor ∨ k.idle)
    (order : after ++ before ++ [cursor] = scanned ++ n :: rest) (mem : m ∈ scanned) :
    m ∈ before ++ cursor :: after ∧ k.pcbOf m ≠ k.currentPCB := by
  have all : (after ++ before ++ [cursor]).Perm (before ++ cursor :: after) :=
    (List.perm_append_singleton _ _).trans
      ((List.perm_append_comm.cons cursor).trans List.perm_middle.symm)
  have in_ring : m ∈ before ++ cursor :: after := by
    rw [← all.mem_iff, order]
    exact List.mem_append_left _ mem
  refine ⟨in_ring, fun e => ?_⟩
  rcases here with at_cursor | asleep
  · have same : m = cursor :=
      ring.pid_inj in_ring ring.cursor_mem (by rw [e, currentPCB, at_cursor])
    -- The cursor is the last node of the order.
    have nodup := all.nodup_iff.mpr ring.nodup
    have last : cursor ∈ n :: rest := by
      have := congrArg List.getLast? order
      rw [List.getLast?_concat, List.getLast?_append_cons] at this
      exact List.mem_of_getLast? this.symm
    rw [order, List.nodup_append] at nodup
    exact nodup.2.2 m mem cursor last same
  · rw [currentPCB, show k.pcbList.current = k.idleProcPCBNode from asleep] at e
    exact ring.pcbOf_ne_idle in_ring e

/-- A context switch gives back what the reaped processes have. -/
theorem Turn.releases (turn : Turn k (after ++ before ++ [cursor]) k' log)
    (ring : RingAt k before cursor after) (here : k.pcbList.current = cursor ∨ k.idle)
    (selects : Selects k k') : Releases k log k' := by
  cases turn with
  | resumes _ _ same _ =>
      exact releases_nothing rfl same.allocated selects.heapFreed selects.heapsHeld
  | @searches scanned rest n decision _ order chooses =>
      have same := preempted_sameRing k
      have passed := fun m (mem : m ∈ scanned) => ring.running_not_scanned here order mem
      have once : ((preempted k).reaped scanned).Nodup := by
        refine (ring.congr same).reaped_nodup (fun m mem => (passed m mem).1) ?_
        have nodup := (List.perm_append_singleton _ _).nodup_iff.mpr ring.view_nodup
        rw [order] at nodup
        exact (List.nodup_append.mp nodup).1
      have decided : ∀ b state running, Event.globalFree b state running ≠ decision := by
        rcases chooses.decision with ⟨-, -, -, rfl⟩ | ⟨-, -, -, rfl⟩ <;> simp
      have none : frees [decision] = [] := by
        rcases chooses.decision with ⟨-, -, -, rfl⟩ | ⟨-, -, -, rfl⟩ <;> rfl
      have gives : frees (reaps k.currentPCB (preempted k) scanned ++ [decision]) =
          frees (reaps k.currentPCB (preempted k) scanned) := by
        rw [frees_append, none, List.append_nil]
      have freed : ∀ p, k'.allocated p = true ↔ k.allocated p = true ∧
          p ∉ (preempted k).reaped scanned :=
        fun p => same.allocated ▸ chooses.allocated p
      have old : ∀ p ∈ (preempted k).reaped scanned, k.allocated p = true ∧ p ≠ k.currentPCB := by
        intro p gone
        obtain ⟨m, mem, -, rfl⟩ := mem_reaped.mp gone
        rw [same.pcbOf]
        exact ⟨(ring.used m (passed m mem).1).2.2.2, (passed m mem).2⟩
      have lost : ∀ p, k.allocated p = true ∧ k'.allocated p = false ↔
          p ∈ (preempted k).reaped scanned := by
        intro p
        constructor
        · rintro ⟨held, gone⟩
          by_contra stays
          rw [(freed p).mpr ⟨held, stays⟩] at gone
          cases gone
        · exact fun gone =>
            ⟨(old p gone).1, Bool.eq_false_iff.mpr fun held => ((freed p).mp held).2 gone⟩
      refine ⟨fun p held => ((freed p).mp held).1, fun p ⟨held, heap⟩ => ?_, fun p b l => ?_,
        fun p => ?_, ?_, ⟨fun p state who mem => ?_, fun p state who mem => ?_⟩, selects.heapsHeld⟩
      · exact ⟨((freed p).mp held).1, selects.heapFreed p ▸ heap⟩
      · rw [gives, frees_reaps, List.mem_flatMap, lost]
        simp only [listed_mem_blocksOf l, exists_eq_right]
      · rw [gives, frees_reaps, List.mem_flatMap]
        simp only [heap_mem_blocksOf, preempted_heapFreed]
        constructor
        · rintro ⟨q, gone, rfl, heap⟩
          exact ⟨⟨(old q gone).1, heap⟩, fun ⟨held, _⟩ => ((freed q).mp held).2 gone⟩
        · rintro ⟨⟨held, heap⟩, lacks⟩
          refine ⟨p, ?_, rfl, heap⟩
          by_contra stays
          exact lacks ⟨(freed p).mpr ⟨held, stays⟩, (selects.heapFreed p).trans heap⟩
      · rw [gives]
        exact reaps_frees_nodup once
      · rcases List.mem_append.mp mem with mem | mem
        · exact Or.inr (mem_reaps mem).2.1
        · exact absurd (List.mem_singleton.mp mem) (decided _ _ _)
      · rcases List.mem_append.mp mem with mem | mem
        · obtain ⟨rfl, -, gone⟩ := mem_reaps mem
          exact (old _ gone).2.symm
        · exact absurd (List.mem_singleton.mp mem) (decided _ _ _)

end Reaping

/-! ### Exits -/

section Exits

variable {k j k' : Kernel} {p fuel : Nat} {log : List Event} {op : Op}

theorem setPCB_heapFreed {f : PCB → PCB} (same : (f (k.pcbs p)).heapFreed = (k.pcbs p).heapFreed)
    (q : Nat) : ((k.setPCB p f).pcbs q).heapFreed = (k.pcbs q).heapFreed := by
  rw [setPCB_pcbs]
  split_ifs with e
  · rw [same, e]
  · rfl

theorem setState_heapFreed {s : State} (q : Nat) :
    ((k.setState p s).pcbs q).heapFreed = (k.pcbs q).heapFreed := setPCB_heapFreed rfl q

/-- Heaps are held when nobody leaves death and nobody else loses a heap. -/
theorem Kernel.HeapsHeld.mono (h : k.HeapsHeld)
    (heapFreed : ∀ p, (k'.pcbs p).heapFreed = (k.pcbs p).heapFreed)
    (dead : ∀ p, Dead (k.stateOf p) → Dead (k'.stateOf p)) : k'.HeapsHeld := fun p early =>
  dead p (h p (heapFreed p ▸ early))

theorem marked_releases : Releases k (k.markExitedLog p) (k.markExited p) := by
  obtain ⟨frame, states⟩ := markExited_frame (k := k) p
  have heapFreed : ∀ q, ((k.markExited p).pcbs q).heapFreed = (k.pcbs q).heapFreed := by
    unfold markExited
    simp only []
    split_ifs <;> exact setState_heapFreed
  have none : frees (k.markExitedLog p) = [] := by
    unfold markExitedLog
    simp only []
    split_ifs <;> rfl
  refine releases_nothing none frame.ring.allocated heapFreed fun h =>
    h.mono heapFreed fun q dead => ?_
  rw [states]
  split_ifs
  · exact Or.inr rfl
  · exact dead

theorem wake_releases {q : Nat} {exitCode : Int} (blocked : k.stateOf q = .blocked) :
    Releases k []
      (k.setPCB q fun p => { p with state := .ready, waitedProcessExitCode := exitCode }) := by
  refine releases_nothing rfl rfl (setPCB_heapFreed rfl) fun h =>
    h.mono (setPCB_heapFreed rfl) fun s dead => ?_
  rw [stateOf, setPCB_pcbs]
  split_ifs with e
  · -- Who is BLOCKED is not dead.
    rw [e, blocked] at dead
    rcases dead with d | d <;> cases d
  · exact dead

theorem exit_releases {exitCode : Int} {out : Outcome} (active : k.stateOf p ≠ .blocked)
    (run : exitProcessByPCB fuel p exitCode k = .ok out) :
    Releases k (exitProcessByPCBLog fuel p exitCode k) out.kernel :=
  exit_log_induct (R := Releases) (fun _ => releases_nothing rfl rfl (fun _ => rfl) id)
    (fun _ _ _ _ _ first rest => first.trans rest) (fun _ _ _ _ _ => marked_releases)
    (fun _ _ _ _ blocked => wake_releases blocked) active run

/-- A process that is killed while it is BLOCKED loses its heap at once. -/
theorem killed_releases (held : k.allocated p = true) (blocked : k.stateOf p = .blocked)
    (heaps : k.HeapsHeld) : Releases k (k.markWaitingForExitLog p) (k.markWaitingForExit p) := by
  have keeps : (k.pcbs p).heapFreed = false := by
    by_contra early
    rcases heaps p (by simpa using early) with d | d <;> rw [blocked] at d <;> cases d
  have pcbs : ∀ q, (k.markWaitingForExit p).pcbs q =
      if q = p then { k.pcbs p with state := .waitingForExit, heapFreed := true } else k.pcbs q :=
    fun q => setPCB_pcbs
  have holds : ∀ q, (k.markWaitingForExit p).HoldsHeap q ↔ k.HoldsHeap q ∧ q ≠ p := fun q => by
    rw [HoldsHeap, pcbs, HoldsHeap]
    change k.allocated q = true ∧ _ ↔ _
    split_ifs with e <;> simp [e]
  refine ⟨fun q h => h, fun q h => ((holds q).mp h).1, fun q b l => ?_, fun q => ?_,
    List.nodup_singleton (Block.heap p), ⟨fun q state who mem => ?_, fun q state who mem => ?_⟩,
      fun h q early => ?_⟩
  · change b ∈ [Block.heap p] ↔ k.allocated q = true ∧ k.allocated q = false
    refine ⟨fun mem => ?_, fun ⟨h, g⟩ => by rw [h] at g; cases g⟩
    rw [List.mem_singleton.mp mem] at l
    exact absurd (congrArg Block.heap l.1) l.2
  · change Block.heap q ∈ [Block.heap p] ↔ _
    rw [List.mem_singleton, Block.heap.injEq, holds]
    constructor
    · rintro rfl
      exact ⟨⟨held, keeps⟩, fun h => h.2 rfl⟩
    · rintro ⟨holds, lacks⟩
      by_contra ne
      exact lacks ⟨holds, ne⟩
  · cases List.mem_singleton.mp mem
    rw [stateOf_setState_self]
    exact Or.inl rfl
  · cases List.mem_singleton.mp mem
  · rw [stateOf, pcbs]
    rw [pcbs] at early
    split_ifs at early ⊢
    · exact Or.inl rfl
    · exact h q early

/-! ### Parts and openings -/

theorem Stirs.releases (s : Stirs k j) : Releases k [] j := by
  have heapFreed : ∀ p, (j.pcbs p).heapFreed = (k.pcbs p).heapFreed := fun p => by rw [s.samePCB]
  refine releases_nothing rfl s.ring.allocated heapFreed fun h => h.mono heapFreed fun p dead => ?_
  rcases s.states p with same | ⟨alive, spared, -⟩
  · exact same ▸ dead
  · exact absurd dead fun d => d.elim spared alive

theorem switch_releases (m : Mid False k) (run : k.contextSwitch fuel = .ok j) :
    Releases k (k.contextSwitchLog fuel) j := by
  obtain ⟨_, _, _, ring, here⟩ := m.ring
  exact (contextSwitch_turn ring here run).releases ring here
    (contextSwitch_of_ok m.ring m.sched run).selects

theorem Part.releases (m : Mid False k) (part : Part k log j) : Releases k log j := by
  cases part with
  | switch run => exact switch_releases m run
  | exits killed _ run => exact exit_releases (by simp [killed]) run
  | stirs stirs => exact stirs.releases

theorem Parts.releases (parts : Parts k log k') : Releases k log k' := by
  induction parts with
  | none => exact releases_nothing rfl rfl (fun _ => rfl) id
  | more before mid part ih => exact ih.trans (part.releases mid)

/-- Whoever is awake is not dead, whatever becomes of it. -/
theorem Kernel.HeapsHeld.setState {k₁ : Kernel} {s : State} (h : k.HeapsHeld)
    (heapFreed : ∀ q, (k₁.pcbs q).heapFreed = (k.pcbs q).heapFreed)
    (states : ∀ q, k₁.stateOf q = k.stateOf q) (awake : Awake (k.stateOf p)) :
    (k₁.setState p s).HeapsHeld := by
  refine h.mono (fun q => (setState_heapFreed q).trans (heapFreed q)) fun q dead => ?_
  rw [stateOf_setState]
  split_ifs with e
  · rw [e] at dead
    exact absurd dead fun d => d.elim (fun w => awake.active.1 (Or.inr w)) awake.active.2
  · exact (states q).symm ▸ dead

theorem Opening.releases (i : Inv False k) (heaps : k.HeapsHeld) (o : Opening k op log j)
    (old : ∀ mem rsp garbage, op ≠ .createProcess mem rsp garbage) : Releases k log j := by
  cases o with
  | none => exact releases_nothing rfl rfl (fun _ => rfl) id
  | @exits _ p _ _ _ alive run =>
      by_cases blocked : k.stateOf p = .blocked
      · obtain ⟨kernel, log⟩ := exit_blocked blocked run
        rw [kernel, log]
        exact killed_releases (i.toMid.allocated alive) blocked heaps
      · exact exit_releases blocked run
  | records _ _ _ _ _ recorded =>
      have same := recordWaiter_pcbs recorded
      obtain ⟨f, rfl, -⟩ := recordWaiter_ok recorded
      have heapFreed : ∀ q, ((k.setPCB _ f).pcbs q).heapFreed = (k.pcbs q).heapFreed := fun q => by
        rw [same]
      refine releases_nothing rfl rfl (fun q =>
        (setState_heapFreed q).trans (heapFreed q)) fun h => ?_
      exact h.setState heapFreed (fun q => by rw [stateOf, same, stateOf]) i.current
  | blocks ring _ _ pcbs =>
      have heapFreed := fun q => congrArg PCB.heapFreed (congrFun pcbs q)
      refine releases_nothing rfl ring.allocated (fun q =>
        (setState_heapFreed q).trans (heapFreed q)) fun h => ?_
      exact h.setState heapFreed (fun q => by rw [stateOf, pcbs, stateOf]) i.current
  | blocksByUser awake =>
      exact releases_nothing rfl rfl setState_heapFreed fun h =>
        h.setState (fun _ => rfl) (fun _ => rfl) awake
  | creates _ _ _ _ made => exact absurd made (old _ _ _)
  | fails => exact releases_nothing rfl rfl (fun _ => rfl) id

/-- An operation that creates no process. -/
theorem Logged.releases (i : Inv False k) (heaps : k.HeapsHeld) (logged : Logged k op log k')
    (old : ∀ mem rsp garbage, op ≠ .createProcess mem rsp garbage) : Releases k log k' := by
  obtain ⟨j, _, _, opening, -, parts, rfl⟩ := parts_of_exec i logged
  exact (opening.releases i heaps old).trans parts.releases

end Exits

/-! ### Runs -/

/-- A run from boot, with its log. -/
inductive Ran : List Event → Kernel → Prop
  | boot (idleRsp initRsp : Nat) (garbage : Int) : Ran [] (boot idleRsp initRsp garbage)
  | step {k k' : Kernel} {op : Op} {log log' : List Event} (before : Ran log k)
      (logged : Logged k op log' k') : Ran (log ++ log') k'

/-- `pcb` belongs to a node of `pcbList`. -/
def InList (k : Kernel) (pcb : Nat) : Prop :=
  ∃ nodes, SingleRing k nodes ∧ ∃ n ∈ nodes, k.pcbOf n = pcb

/-- What was given back is not there any more, and what is not there was given back. -/
structure Accounted (log : List Event) (k : Kernel) : Prop where
  inv : Inv False k
  held : k.HeapsHeld
  nodup : (frees log).Nodup
  used : ∀ b ∈ frees log, b.owner < k.unused
  listed : ∀ p b, b.Listed p → b ∈ frees log → k.allocated p = false
  heap : ∀ p, .heap p ∈ frees log → ¬ k.HoldsHeap p
  early : ∀ p, k.allocated p = true → (k.pcbs p).heapFreed = true → .heap p ∈ frees log

section Runs

variable {k k' : Kernel} {op : Op} {log log' : List Event}

theorem boot_accounted (idleRsp initRsp : Nat) (garbage : Int) :
    Accounted [] (boot idleRsp initRsp garbage) := by
  have heapFreed : ∀ p, ((boot idleRsp initRsp garbage).pcbs p).heapFreed = false := fun p => by
    rw [boot_pcbs]
    split_ifs <;> rfl
  have none : ∀ p, ((boot idleRsp initRsp garbage).pcbs p).heapFreed ≠ true := fun p => by
    rw [heapFreed]
    simp
  refine ⟨boot_inv _ _ _ _, fun p early => absurd early (none p), List.nodup_nil, ?_, ?_, ?_,
    fun p _ early => absurd early (none p)⟩
  all_goals simp [frees]

/-- The list, seen from the PCBs in memory. -/
theorem Mid.inList_iff (m : Mid False k) (p : Nat) : InList k p ↔ k.allocated p = true ∧
    p ≠ k.idlePCB := by
  obtain ⟨before, cursor, after, ring, here⟩ := m.ring
  have single := ring.singleRing here
  constructor
  · rintro ⟨nodes, other, n, mem, rfl⟩
    have same : nodes = before ++ cursor :: after :=
      segment_length_unique other.walk single.walk (other.len.trans single.len.symm)
    rw [same] at mem
    exact ⟨(ring.used n mem).2.2.2, ring.pcbOf_ne_idle mem⟩
  · rintro ⟨held, ne⟩
    exact ⟨_, single, (ring.members p held).2.2.resolve_left ne⟩

theorem createProcess_log {mem : ProcessMemory} {rsp : Nat} {garbage : Int}
    (logged : Logged k (.createProcess mem rsp garbage) log k') :
    log = [] ∧ ¬ k.idle ∧ k.pid < IDLE_PID ∧
      (k' = added k rsp garbage ∨ k' = { k with pid := k.pid + 1 }) := by
  obtain ⟨⟨busy, bound⟩, fuel, run, rfl⟩ := logged
  obtain ⟨r, ran, rfl⟩ := map_ok_iff.mp run
  refine ⟨rfl, busy, bound, (createProcess_eq mem rsp garbage ran).imp id fun e => ?_⟩
  rw [e, Nat.mod_eq_of_lt (by unfold IDLE_PID at bound; omega)]

theorem Accounted.created {mem : ProcessMemory} {rsp : Nat} {garbage : Int} (a : Accounted log k)
    (logged : Logged k (.createProcess mem rsp garbage) log' k') : Accounted log k' := by
  obtain ⟨-, busy, bound, rfl | rfl⟩ := createProcess_log logged
  · have fresh := a.inv.toMid.fresh (Nat.le_succ k.unused)
    have inv : Inv False (added k rsp garbage) := added_inv a.inv busy bound
    have pcbs : ∀ p, p ≠ k.unused + 1 → (added k rsp garbage).pcbs p = k.pcbs p := fun p ne => by
      rw [added_pcbs, if_neg ne]
    have new : ((added k rsp garbage).pcbs (k.unused + 1)).heapFreed = false := by
      rw [added_pcbs, if_pos rfl]
      rfl
    have allocated : ∀ p, p ≠ k.unused + 1 → (added k rsp garbage).allocated p = k.allocated p :=
      fun p ne => by rw [added_allocated, if_neg ne]
    have old : ∀ b ∈ frees log, b.owner ≠ k.unused + 1 := fun b mem => by
      have := a.used b mem
      omega
    refine ⟨inv, fun p early => ?_, a.nodup, fun b mem => ?_, fun p b l mem => ?_,
      fun p mem holds => ?_, fun p held early => ?_⟩
    · by_cases e : p = k.unused + 1
      · rw [e, new] at early
        cases early
      · rw [added_stateOf, if_neg e]
        exact a.held p (pcbs p e ▸ early)
    · have := a.used b mem
      rw [added_rest]
      change b.owner < k.unused + 2
      omega
    · rw [allocated p fun e => old b mem (l.1.trans e)]
      exact a.listed p b l mem
    · have ne : p ≠ k.unused + 1 := old _ mem
      exact a.heap p mem ⟨allocated p ne ▸ holds.1, pcbs p ne ▸ holds.2⟩
    · by_cases e : p = k.unused + 1
      · rw [e, new] at early
        cases early
      · exact a.early p (allocated p e ▸ held) (pcbs p e ▸ early)
  · exact ⟨counter_inv a.inv bound, a.held, a.nodup, a.used, a.listed, a.heap, a.early⟩

theorem Accounted.next (a : Accounted log k) (next : Inv False k') (unused : k.unused ≤ k'.unused)
    (r : Releases k log' k') : Accounted (log ++ log') k' := by
  have owned : ∀ b ∈ frees log', k.allocated b.owner = true := fun b mem => by
    rcases b.listed_or_heap with l | e
    · exact ((r.listed _ b l).mp mem).1
    · rw [e] at mem
      exact ((r.heap _).mp mem).1.1
  have gone : ∀ p, k.allocated p = false → k'.allocated p = false := fun p free => by
    by_contra held
    rw [r.allocated p (by simpa using held)] at free
    cases free
  refine ⟨next, r.held a.held, ?_, fun b mem => ?_, fun p b l mem => ?_, fun p mem holds => ?_,
    fun p held early => ?_⟩
  · rw [frees_append, List.nodup_append]
    refine ⟨a.nodup, r.nodup, ?_⟩
    rintro b mem _ mem' rfl
    rcases b.listed_or_heap with l | e
    · have free := a.listed _ b l mem
      rw [owned b mem'] at free
      cases free
    · rw [e] at mem mem'
      exact a.heap _ mem ((r.heap _).mp mem').1
  · rw [frees_append, List.mem_append] at mem
    rcases mem with mem | mem
    · exact Nat.lt_of_lt_of_le (a.used b mem) unused
    · obtain ⟨_, _, _, ring, _⟩ := a.inv.ring
      exact Nat.lt_of_lt_of_le (ring.members _ (owned b mem)).1 unused
  · rw [frees_append, List.mem_append] at mem
    rcases mem with mem | mem
    · exact gone p (a.listed p b l mem)
    · exact ((r.listed p b l).mp mem).2
  · rw [frees_append, List.mem_append] at mem
    rcases mem with mem | mem
    · exact a.heap p mem (r.heaps p holds)
    · exact ((r.heap p).mp mem).2 holds
  · have before := r.allocated p held
    rw [frees_append, List.mem_append]
    by_cases e : (k.pcbs p).heapFreed = true
    · exact Or.inl (a.early p before e)
    · refine Or.inr ((r.heap p).mpr ⟨⟨before, by simpa using e⟩, fun holds => ?_⟩)
      rw [holds.2] at early
      cases early

theorem Accounted.step (a : Accounted log k) (logged : Logged k op log' k') :
    Accounted (log ++ log') k' := by
  have effect := logged.trans.effect a.inv
  by_cases creates : ∃ mem rsp garbage, op = .createProcess mem rsp garbage
  · obtain ⟨mem, rsp, garbage, rfl⟩ := creates
    rw [(createProcess_log logged).1, List.append_nil]
    exact a.created logged
  · push Not at creates
    exact a.next (effect.inv a.inv) effect.moves.unused (logged.releases a.inv a.held creates)

theorem Ran.accounted (ran : Ran log k) : Accounted log k := by
  induction ran with
  | boot r₁ r₂ g => exact boot_accounted r₁ r₂ g
  | step _ logged ih => exact ih.step logged

theorem Reach.ran {admits : Kernel → Op → Prop} (reach : Reach admits k) : ∃ log, Ran log k :=
  reach.induct (P := fun k => ∃ log, Ran log k) (fun r₁ r₂ g => ⟨[], .boot r₁ r₂ g⟩)
    fun _ _ _ _ ⟨_, ran⟩ _ trans =>
      let ⟨_, logged⟩ := trans.logged
      ⟨_, ran.step logged⟩

/-- What an operation gives back, by what it takes out of memory. -/
theorem Accounted.gives (a : Accounted log k) (logged : Logged k op log' k') :
    (∀ p b, b.Listed p → (b ∈ frees log' ↔ k.allocated p = true ∧ k'.allocated p = false)) ∧
      (∀ p, k.allocated p = true → k'.allocated p = false → .heap p ∈ frees (log ++ log')) ∧
      Timely log' := by
  by_cases creates : ∃ mem rsp garbage, op = .createProcess mem rsp garbage
  · obtain ⟨mem, rsp, garbage, rfl⟩ := creates
    obtain ⟨rfl, -, -, e⟩ := createProcess_log logged
    have stays : ∀ p, k.allocated p = true → k'.allocated p = true := fun p held => by
      rcases e with rfl | rfl
      · rw [added_allocated, held, ite_self]
      · exact held
    refine ⟨fun p b _ => ?_, fun p held gone => ?_, timely_of_frees rfl⟩
    · simp only [frees, List.filterMap_nil, List.not_mem_nil, false_iff, not_and, Bool.not_eq_false]
      exact stays p
    · rw [stays p held] at gone
      cases gone
  · push Not at creates
    have r := logged.releases a.inv a.held creates
    refine ⟨r.listed, fun p held gone => ?_, r.timely⟩
    rw [frees_append, List.mem_append]
    by_cases early : (k.pcbs p).heapFreed = true
    · exact Or.inl (a.early p held early)
    · refine Or.inr ((r.heap p).mpr ⟨⟨held, by simpa using early⟩, fun holds => ?_⟩)
      rw [holds.1] at gone
      cases gone

end Runs

/-- In every run, no block of a process is given back twice. Every operation gives back
the node, the PCB, the stack and the sentinel of exactly those processes that it takes
out of the list, and the heap of these has been given back then; a heap is given back
when its owner is WAITING_FOR_EXIT or EXITED, and no stack while `schedule` runs on it. -/
theorem memory_accounted {log : List Event} {k : Kernel} (ran : Ran log k) :
    (frees log).Nodup ∧ ∀ op log' k', Logged k op log' k' →
      (∀ p b, b.Listed p → (b ∈ frees log' ↔ InList k p ∧ ¬ InList k' p)) ∧
      (∀ p, InList k p → ¬ InList k' p → .heap p ∈ frees (log ++ log')) ∧
      (∀ p state running, .globalFree (.heap p) state running ∈ log' → Dead state) ∧
      ∀ p state running, .globalFree (.stack p) state running ∈ log' → running ≠ p := by
  have a := ran.accounted
  refine ⟨a.nodup, fun op log' k' logged => ?_⟩
  have a' := a.step logged
  obtain ⟨listed, heap, timely⟩ := a.gives logged
  have idle := (logged.trans.effect a.inv).idlePCB a.inv
  have leaves : ∀ p, InList k p ∧ ¬ InList k' p ↔ k.allocated p = true ∧
      k'.allocated p = false := by
    intro p
    rw [a.inv.toMid.inList_iff, a'.inv.toMid.inList_iff, idle]
    constructor
    · rintro ⟨⟨held, ne⟩, out⟩
      exact ⟨held, by simpa [ne] using out⟩
    · rintro ⟨held, gone⟩
      refine ⟨⟨held, ?_⟩, by simp [gone]⟩
      rintro rfl
      rw [← idle, a'.inv.toMid.idle_allocated] at gone
      cases gone
  refine ⟨fun p b l => (listed p b l).trans (leaves p).symm, fun p inside outside => ?_,
    timely.1, timely.2⟩
  obtain ⟨held, gone⟩ := (leaves p).mp ⟨inside, outside⟩
  exact heap p held gone

/-- A process that has exited is reaped while `init` yields. -/
theorem memory_accounted_reaped : ∃ (k k' : Kernel) (log : List Event), Logged k .yield log k' ∧
    .stack 6 ∈ frees log ∧ InList k 6 ∧ ¬ InList k' 6 := by
  have ran :
      (perform (fun _ _ => True) 40 [.createProcess ⟨true, true, true, true, true⟩ 0 0, .yield,
      .exit 0] (boot 0 0 0)).map (fun k => decide (¬ k.idle ∧ (k.exec 40 .yield).toOption.isSome ∧
        .stack 6 ∈ frees (k.execLog 40 .yield))) = some true := by decide +kernel
  obtain ⟨k, run, state⟩ := Option.map_eq_some_iff.mp ran
  obtain ⟨busy, returns, freed⟩ := of_decide_eq_true state
  obtain ⟨k', yields⟩ := Option.isSome_iff_exists.mp returns
  have reach : Reach (fun _ _ => True) k := ⟨0, 0, 0, perform_run run⟩
  obtain ⟨log, ran⟩ := reach.ran
  have logged : Logged k .yield (k.execLog 40 .yield) k' := ⟨busy, 40, ok_of_toOption yields, rfl⟩
  have listed : (Block.stack 6).Listed 6 := ⟨rfl, by simp⟩
  exact ⟨k, k', _, logged, freed, (((memory_accounted ran).2 _ _ _ logged).1 6 _ listed).mp freed⟩

end SoTp.Process
