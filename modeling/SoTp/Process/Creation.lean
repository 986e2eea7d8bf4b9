/-
Creating a process, with its memory (`createProcess`, `addPCB`, `createPCBNode` and
`stackAlloc`). The global heap is seen through what `globalMalloc` answers: memory that
is not live, or NULL.

* `createProcess_kernel` — with the memory forgotten, it is the `createProcess` of the
  scheduler.
* `null_stack_written`, `createProcess_staged` — without a stack it is written through
  NULL; without anything else, memory is kept.
* `createProcess_atomic_iff` — a creation is atomic exactly when each call of
  `globalMalloc` that it makes returns memory.
-/

import SoTp.Process.Structure
import Mathlib.Data.Finset.Insert

namespace SoTp.Process

open SoTp.Lib

def MAX_NAME_LENGTH : Nat := 60

def stackSize : Nat := 2 ^ 12

/-- What the calls of `globalMalloc` answer, in their order. -/
structure Answers where
  stack : Nat
  node : Nat
  pcb : Nat
  heap : Nat
  freeListStart : Nat

/-- A write to `offset` from `base`, or one that fills in the structure at `base`. -/
structure Write where
  base : Nat
  offset : Nat
deriving DecidableEq

/-- The kernel, the live blocks of the global heap, and what was written so far. -/
structure Machine where
  kernel : Kernel
  live : Finset Nat
  written : List Write

/-- The strings, one behind the other, and a pointer to each. -/
def argWrites (stackEnd : Nat) : Nat → Nat → List (List UInt8) → List Write
  | _, _, [] => []
  | i, arg, s :: argv =>
      let j := min s.length MAX_NAME_LENGTH
      ⟨stackEnd, 8 * i⟩ :: (List.range (j + 1)).map (fun n => ⟨stackEnd, arg + n⟩) ++
        argWrites stackEnd (i + 1) (arg + j + 1) argv

/-- The registers `initializeProcessStack` pushes. -/
def pushes : Nat := 20

/-- `stackStart` in `stackAlloc`. -/
def stackStart (stackEnd : Nat) : Nat := (stackEnd + stackSize - 1 - 8) / 8 * 8

namespace Machine

def globalMalloc (m : Machine) (ptr : Nat) : Machine :=
  if ptr = NULL then m else { m with live := insert ptr m.live }

def globalFree (m : Machine) (ptr : Nat) : Machine := { m with live := m.live.erase ptr }

def write (m : Machine) (writes : List Write) : Machine := { m with written := m.written ++ writes }

/-- The heap of a new process, in `createPCBNode`. `stale` is what `pcb->heap` reads
after `globalFree(pcb)`. -/
def createHeap (m : Machine) (buddy : Bool) (a : Answers) (stale : Nat) : Machine × Bool :=
  let m := m.globalMalloc a.heap
  if a.heap = NULL then ((m.globalFree a.node).globalFree a.pcb, false)
  else if buddy then (m.write [⟨a.heap, 0⟩], true)
  else
    let m := m.globalMalloc a.freeListStart
    if a.freeListStart =
      NULL then (((m.globalFree a.node).globalFree a.pcb).globalFree stale, false)
    else (m.write [⟨a.heap, 0⟩, ⟨a.freeListStart, 0⟩], true)

/-- `createPCBNode`; the new node, `none` for NULL. -/
def createPCBNode (m : Machine) (buddy : Bool) (a : Answers) (stale pid priority : Nat)
    (state : State) (rsp : Nat) (garbage : Int) : Machine × Option Nat :=
  let m := m.globalMalloc a.node
  if a.node = NULL then (m, none)
  else
    let m := (m.write [⟨a.node, 0⟩]).globalMalloc a.pcb
    if a.pcb = NULL then (m.globalFree a.node, none)
    else
      let m := m.write [⟨a.pcb, 0⟩]
      let (m, served) := if pid = IDLE_PID then (m, true) else m.createHeap buddy a stale
      if served then
        let (kernel, node) := m.kernel.createPCBNode pid priority state rsp garbage
        ({ m with kernel }, some node)
      else (m, none)

def addPCB (m : Machine) (buddy : Bool) (a : Answers) (stale pid rsp : Nat) (garbage : Int) :
    Machine × Bool :=
  match m.createPCBNode buddy a stale pid 1 .ready rsp garbage with
  | (m, none) => (m, false)
  | (m, some node) => ({ m with kernel := m.kernel.appendNode node }, true)

/-- `initializeProcessStack`; the stack pointer of the new process. -/
def initializeProcessStack (m : Machine) (stackEnd : Nat) : Machine × Nat :=
  (m.write ((List.range pushes).map fun i =>
    ⟨stackEnd, stackStart stackEnd - 8 * (i + 1) - stackEnd⟩), stackStart stackEnd - 8 * pushes)

/-- `createProcess`: the stack pointer of the new process, or NULL. -/
def createProcess (m : Machine) (buddy : Bool) (a : Answers) (stale : Nat)
    (argv : List (List UInt8)) (garbage : Int) : Machine × Nat :=
  let stackEnd := a.stack
  let m := m.globalMalloc stackEnd
  let m := m.write (argWrites stackEnd 0 (8 * argv.length) argv)
  let (m, rsp) := m.initializeProcessStack stackEnd
  let pid := m.kernel.pid
  let m := { m with kernel := { m.kernel with pid := (pid + 1) % 2 ^ 32 } }
  let (m, added) := m.addPCB buddy a stale pid rsp garbage
  (m, if added then rsp else NULL)

end Machine

/-! ### What is to hold -/

/-- The calls of `globalMalloc` in `createPCBNode` return memory. -/
structure Answers.NodeServed (a : Answers) (buddy : Bool) (pid : Nat) : Prop where
  node : a.node ≠ NULL
  pcb : a.pcb ≠ NULL
  heap : pid ≠ IDLE_PID → a.heap ≠ NULL
  freeListStart : pid ≠ IDLE_PID → buddy = false → a.freeListStart ≠ NULL

/-- All calls of `globalMalloc` that are made return memory. -/
structure Answers.Served (a : Answers) (buddy : Bool) (pid : Nat) : Prop
    extends a.NodeServed buddy pid where
  stack : a.stack ≠ NULL

/-- Memory that is returned was not live, and is returned once. -/
structure Answers.Fresh (a : Answers) (live : Finset Nat) : Prop where
  unused : ∀ p ∈ [a.stack, a.node, a.pcb, a.heap, a.freeListStart], p ≠ NULL → p ∉ live
  distinct : [a.stack, a.node, a.pcb, a.heap, a.freeListStart].Pairwise fun p q => p = q → p = NULL

/-- `nodes` are those of `pcbList`, from `head` to `tail`. -/
structure ListOf (k : Kernel) (nodes : List Nat) : Prop where
  walk : Segment k.next k.pcbList.head nodes k.pcbList.head
  last : nodes.getLast? = some k.pcbList.tail
  len : nodes.length = k.pcbList.len

/-- `pcbList` has got one more process, READY, at its tail. -/
def Appends (k k' : Kernel) : Prop :=
  ∃ nodes node, ListOf k nodes ∧ ListOf k' (nodes ++ [node]) ∧ node ∉ nodes ∧
    k'.stateOf (k'.pcbOf node) = .ready ∧
    ∀ n ∈ nodes, k'.pcbOf n = k.pcbOf n ∧ k'.pcbs (k.pcbOf n) = k.pcbs (k.pcbOf n)

/-- Nothing is written through NULL, and a process is added, or all is as it was. -/
structure Atomic (m : Machine) (r : Machine × Nat) : Prop where
  nonNull : ∀ w ∈ r.1.written, w ∈ m.written ∨ w.base ≠ NULL
  outcome : r.2 ≠ NULL ∧ Appends m.kernel r.1.kernel ∨
    r.2 = NULL ∧ (r.1.kernel.pcbList = m.kernel.pcbList ∧ r.1.kernel.nodes = m.kernel.nodes ∧
      r.1.kernel.pcbs = m.kernel.pcbs) ∧ r.1.live = m.live

/-! ### The list -/

section List

variable {k : Kernel} {nodes : List Nat}

/-- A new node behind the tail. -/
theorem ListOf.concat {k' : Kernel} {node : Nat} (l : ListOf k nodes) (distinct : nodes.Nodup)
    (new : node ∉ nodes) (head : k'.pcbList.head = k.pcbList.head) (tail : k'.pcbList.tail = node)
    (len : k'.pcbList.len = k.pcbList.len + 1) (next : ∃ next, (∀ n ∈ nodes, next n = k.next n) ∧
      next node = k.pcbList.head ∧ k'.next = Function.update next k.pcbList.tail node) :
    ListOf k' (nodes ++ [node]) := by
  obtain ⟨next, old, last, links⟩ := next
  obtain ⟨front, rfl⟩ := List.getLast?_eq_some_iff.mp l.last
  have walk : Segment next k.pcbList.head (front ++ [k.pcbList.tail]) k.pcbList.head :=
    (segment_congr old).mpr l.walk
  have once : k.pcbList.tail ∉ front := fun mem => by
    rw [List.nodup_append] at distinct
    exact distinct.2.2 _ mem _ (List.mem_singleton_self _) rfl
  constructor
  · rw [head, segment_concat, links]
    constructor
    · exact segment_relink walk once
    · rw [Function.update_of_ne fun e => new (by rw [e]; simp)]
      exact last
  · rw [List.getLast?_concat, tail]
  · rw [len, ← l.len]
    simp

theorem SingleRing.listOf (r : SingleRing k nodes) : ListOf k nodes := ⟨r.walk, r.last, r.len⟩

/-- What `createProcess` adds in every state that is reached. -/
theorem added_appends {strict : Prop} (i : Inv strict k) (rsp : Nat) (garbage : Int) :
    Appends k (added k rsp garbage) := by
  obtain ⟨before, cursor, after, ring, here⟩ := i.ring
  have single := ring.singleRing here
  obtain ⟨next, pcbOf, list⟩ := added_eq ring.head_ne rsp garbage
  have rest := added_rest k rsp garbage
  have pcbs : (added k rsp garbage).pcbs = Function.update k.pcbs (k.unused + 1)
      (newPCB k rsp garbage) := by
    rw [rest]
  have old : ∀ n ∈ before ++ cursor :: after, n ≠ k.unused := fun n hn => (ring.used n hn).2.1.ne
  refine ⟨_, k.unused, single.listOf, ?_, fun mem => old _ mem rfl, ?_, fun n hn => ?_⟩
  · refine single.listOf.concat single.distinct (fun mem => old _ mem rfl) ?_ ?_ ?_
      ⟨_, fun n hn => ?_, ?_, next⟩
    · rw [list]
    · rw [list]
    · rw [list]
    · rw [Function.update_of_ne (old n hn), Function.update_of_ne (old n hn)]
    · exact Function.update_self _ _ _
  · rw [Kernel.stateOf, pcbs, pcbOf, Function.update_self, Function.update_self]
    rfl
  · have held := (ring.members _ (ring.used n hn).2.2.2).1
    rw [pcbs, pcbOf, Function.update_of_ne (old n hn), Function.update_of_ne (by omega)]
    exact ⟨rfl, rfl⟩

end List

/-! ### The memory -/

section Memory

variable {m : Machine} {buddy : Bool} {a : Answers} {stale pid priority rsp : Nat} {state : State}
  {garbage : Int} {live : Finset Nat}

/-- Only memory that was returned is written to. -/
def Wrote (m m' : Machine) : Prop := ∃ ws, m'.written = m.written ++ ws ∧ ∀ w ∈ ws, w.base ≠ NULL

/-- The stack is still live, or the heap is. -/
def Leaks (a : Answers) (m : Machine) : Prop := a.stack ∈ m.live ∨ a.heap ≠ NULL ∧ a.heap ∈ m.live

theorem Wrote.refl (m : Machine) : Wrote m m :=
  ⟨[], (List.append_nil _).symm, fun _ h => by cases h⟩

theorem Wrote.write {m' : Machine} {ws : List Write} (h : Wrote m m')
    (nonNull : ∀ w ∈ ws, w.base ≠ NULL) : Wrote m (m'.write ws) := by
  obtain ⟨before, e, ok⟩ := h
  refine ⟨before ++ ws, ?_, fun w hw => ?_⟩
  · rw [Machine.write, e, List.append_assoc]
  · exact (List.mem_append.mp hw).elim (ok w) (nonNull w)

@[simp] theorem globalMalloc_kernel {ptr : Nat} : (m.globalMalloc ptr).kernel = m.kernel := by
  unfold Machine.globalMalloc
  split_ifs <;> rfl

@[simp] theorem globalMalloc_written {ptr : Nat} : (m.globalMalloc ptr).written = m.written := by
  unfold Machine.globalMalloc
  split_ifs <;> rfl

theorem globalMalloc_live {ptr : Nat} (served : ptr ≠ NULL) :
    (m.globalMalloc ptr).live = insert ptr m.live := by
  rw [Machine.globalMalloc, if_neg served]

theorem mem_globalMalloc {ptr p : Nat} (mem : p ∈ m.live) : p ∈ (m.globalMalloc ptr).live := by
  unfold Machine.globalMalloc
  split_ifs
  · exact mem
  · exact Finset.mem_insert_of_mem mem

theorem Answers.Fresh.stack_ne (fresh : a.Fresh live) (stack : a.stack ≠ NULL) :
    a.stack ≠ a.node ∧ a.stack ≠ a.pcb ∧ a.stack ≠ a.heap := by
  have distinct := fresh.distinct
  simp only [List.pairwise_cons, List.mem_cons, forall_eq_or_imp] at distinct
  exact ⟨fun e => stack (distinct.1.1 e), fun e => stack (distinct.1.2.1 e),
    fun e => stack (distinct.1.2.2.1 e)⟩

theorem Answers.Fresh.heap_ne (fresh : a.Fresh live) (heap : a.heap ≠ NULL) :
    a.heap ≠ a.node ∧ a.heap ≠ a.pcb := by
  have distinct := fresh.distinct
  simp only [List.pairwise_cons, List.mem_cons, forall_eq_or_imp] at distinct
  constructor
  · intro e
    exact heap (e.trans (distinct.2.1.2.1 e.symm))
  · intro e
    exact heap (e.trans (distinct.2.2.1.1 e.symm))

/-- A stage of the creation: it succeeds, or keeps memory that it should not. -/
structure Staged (a : Answers) (served : Prop) (m' : Machine) (ok : Bool) : Prop where
  succeeds : ok = true ↔ served
  leaks : ok = false → Leaks a m'

theorem createHeap_kernel : (m.createHeap buddy a stale).1.kernel = m.kernel := by
  unfold Machine.createHeap
  split_ifs <;> simp [Machine.globalFree, Machine.write]

theorem createHeap_wrote : Wrote m (m.createHeap buddy a stale).1 := by
  unfold Machine.createHeap
  split_ifs with heap _ start
  · exact ⟨[], by simp [Machine.globalFree], by simp⟩
  · exact ⟨[⟨a.heap, 0⟩], by simp [Machine.write], by simpa using heap⟩
  · exact ⟨[], by simp [Machine.globalFree], by simp⟩
  · exact ⟨[⟨a.heap, 0⟩,
      ⟨a.freeListStart, 0⟩], by simp [Machine.write], by simpa using ⟨heap, start⟩⟩

theorem createHeap_staged (buddy : Bool) (stale : Nat) (fresh : a.Fresh live)
    (stack : a.stack ≠ NULL) (held : a.stack ∈ m.live) :
    Staged a (a.heap ≠ NULL ∧ (buddy = false → a.freeListStart ≠ NULL))
      (m.createHeap buddy a stale).1 (m.createHeap buddy a stale).2 := by
  obtain ⟨neNode, nePcb, neHeap⟩ := fresh.stack_ne stack
  unfold Machine.createHeap
  split_ifs with heap isBuddy start
  · refine ⟨by simp [heap], fun _ => Or.inl ?_⟩
    exact Finset.mem_erase.mpr ⟨nePcb, Finset.mem_erase.mpr ⟨neNode, mem_globalMalloc held⟩⟩
  · exact ⟨by simp [heap, isBuddy], by simp⟩
  · refine ⟨by simp [start, isBuddy], fun _ => ?_⟩
    have stackLive : a.stack ∈ ((m.globalMalloc a.heap).globalMalloc a.freeListStart).live :=
      mem_globalMalloc (mem_globalMalloc held)
    have heapLive : a.heap ∈ ((m.globalMalloc a.heap).globalMalloc a.freeListStart).live :=
      mem_globalMalloc (by rw [globalMalloc_live heap]; exact Finset.mem_insert_self _ _)
    obtain ⟨heapNode, heapPcb⟩ := fresh.heap_ne heap
    -- What `stale` is nobody knows, but it is not both.
    by_cases same : a.stack = stale
    · right
      constructor
      · exact heap
      · exact Finset.mem_erase.mpr ⟨fun e => neHeap (same.trans e.symm),
          Finset.mem_erase.mpr ⟨heapPcb, Finset.mem_erase.mpr ⟨heapNode, heapLive⟩⟩⟩
    · left
      exact Finset.mem_erase.mpr ⟨same,
        Finset.mem_erase.mpr ⟨nePcb, Finset.mem_erase.mpr ⟨neNode, stackLive⟩⟩⟩
  · exact ⟨by simp [heap, start], by simp⟩

theorem Wrote.trans {m' m'' : Machine} (h : Wrote m m') (h' : Wrote m' m'') : Wrote m m'' := by
  obtain ⟨ws, e, ok⟩ := h'
  have joined := h.write ok
  rwa [Machine.write, ← e] at joined

/-- The machine when the node and the PCB are there. -/
def Machine.filled (m : Machine) (a : Answers) : Machine :=
  (((m.globalMalloc a.node).write [⟨a.node, 0⟩]).globalMalloc a.pcb).write [⟨a.pcb, 0⟩]

theorem filled_kernel : (m.filled a).kernel = m.kernel := by
  simp [Machine.filled, Machine.write]

theorem filled_wrote (node : a.node ≠ NULL) (pcb : a.pcb ≠ NULL) : Wrote m (m.filled a) := by
  refine ⟨[⟨a.node, 0⟩, ⟨a.pcb, 0⟩], by simp [Machine.filled, Machine.write], ?_⟩
  simpa using ⟨node, pcb⟩

/-- The heap of the new process, if it gets one. -/
def Machine.heapStage (m : Machine) (buddy : Bool) (a : Answers) (stale pid : Nat) :
    Machine × Bool :=
  if pid = IDLE_PID then (m.filled a, true) else (m.filled a).createHeap buddy a stale

theorem heapStage_wrote (node : a.node ≠ NULL) (pcb : a.pcb ≠ NULL) :
    Wrote m (m.heapStage buddy a stale pid).1 := by
  unfold Machine.heapStage
  split_ifs
  · exact filled_wrote node pcb
  · exact (filled_wrote node pcb).trans createHeap_wrote

theorem heapStage_staged (buddy : Bool) (stale pid : Nat) (fresh : a.Fresh live)
    (stack : a.stack ≠ NULL) (held : a.stack ∈ m.live)
    (node : a.node ≠ NULL) (pcb : a.pcb ≠ NULL) :
    Staged a (a.NodeServed buddy pid)
      (m.heapStage buddy a stale pid).1 (m.heapStage buddy a stale pid).2 := by
  unfold Machine.heapStage
  split_ifs with idle
  · refine ⟨iff_of_true rfl ?_, fun h => by cases h⟩
    exact ⟨node, pcb, fun h => absurd idle h, fun h => absurd idle h⟩
  · have staged := createHeap_staged buddy stale fresh stack
      (show a.stack ∈ (m.filled a).live from mem_globalMalloc (mem_globalMalloc held))
    refine ⟨staged.succeeds.trans ?_, staged.leaks⟩
    constructor
    · rintro ⟨heap, start⟩
      exact ⟨node, pcb, fun _ => heap, fun _ => start⟩
    · intro served
      exact ⟨served.heap idle, served.freeListStart idle⟩

theorem heapStage_kernel : (m.heapStage buddy a stale pid).1.kernel = m.kernel := by
  unfold Machine.heapStage
  split_ifs
  · exact filled_kernel
  · exact createHeap_kernel.trans filled_kernel

theorem addPCB_eq (node : a.node ≠ NULL) (pcb : a.pcb ≠ NULL) :
    m.addPCB buddy a stale pid rsp garbage =
      if (m.heapStage buddy a stale pid).2 then
        ({ (m.heapStage buddy a stale pid).1 with
            kernel :=
              (m.kernel.createPCBNode pid 1 .ready rsp garbage).1.appendNode m.kernel.unused },
                true)
      else ((m.heapStage buddy a stale pid).1, false) := by
  have kernel : (m.heapStage buddy a stale pid).1.kernel = m.kernel := heapStage_kernel
  rcases stage : m.heapStage buddy a stale pid with ⟨m', served⟩
  rw [stage] at kernel
  change m'.kernel = m.kernel at kernel
  unfold Machine.heapStage Machine.filled at stage
  unfold Machine.addPCB Machine.createPCBNode
  simp only [if_neg node, if_neg pcb, stage]
  cases served with
  | true =>
      rw [← kernel]
      rfl
  | false => rfl

theorem addPCB_noNode (node : a.node = NULL) :
    m.addPCB buddy a stale pid rsp garbage = (m.globalMalloc a.node, false) := by
  simp only [Machine.addPCB, Machine.createPCBNode, if_pos node]

theorem addPCB_noPcb (node : a.node ≠ NULL) (pcb : a.pcb = NULL) :
    m.addPCB buddy a stale pid rsp garbage =
      ((((m.globalMalloc a.node).write [⟨a.node, 0⟩]).globalMalloc a.pcb).globalFree a.node,
        false) := by
  simp only [Machine.addPCB, Machine.createPCBNode, if_neg node, if_pos pcb]

theorem addPCB_wrote (m : Machine) (buddy : Bool) (a : Answers) (stale pid rsp : Nat)
    (garbage : Int) : Wrote m (m.addPCB buddy a stale pid rsp garbage).1 := by
  by_cases node : a.node = NULL
  · rw [addPCB_noNode node]
    exact ⟨[], by simp, by simp⟩
  · by_cases pcb : a.pcb = NULL
    · rw [addPCB_noPcb node pcb]
      exact ⟨[⟨a.node, 0⟩], by simp [Machine.globalFree, Machine.write], by simpa using node⟩
    · rw [addPCB_eq node pcb]
      split_ifs
      · exact heapStage_wrote node pcb
      · exact heapStage_wrote node pcb

/-- The kernel gets a process, or stays as it was. -/
theorem addPCB_kernel (m : Machine) (buddy : Bool) (a : Answers) (stale pid rsp : Nat)
    (garbage : Int) : (m.addPCB buddy a stale pid rsp garbage).1.kernel =
      if (m.addPCB buddy a stale pid rsp garbage).2 then
        (m.kernel.createPCBNode pid 1 .ready rsp garbage).1.appendNode m.kernel.unused
      else m.kernel := by
  by_cases node : a.node = NULL
  · simp [addPCB_noNode node]
  · by_cases pcb : a.pcb = NULL
    · simp [addPCB_noPcb node pcb, Machine.globalFree, Machine.write]
    · rw [addPCB_eq node pcb]
      cases served : (m.heapStage buddy a stale pid).2 with
      | true => rfl
      | false => exact heapStage_kernel

theorem addPCB_staged (buddy : Bool) (stale pid rsp : Nat) (garbage : Int) (fresh : a.Fresh live)
    (stack : a.stack ≠ NULL) (held : a.stack ∈ m.live) :
    Staged a (a.NodeServed buddy pid) (m.addPCB buddy a stale pid rsp garbage).1
      (m.addPCB buddy a stale pid rsp garbage).2 := by
  obtain ⟨neNode, nePcb, -⟩ := fresh.stack_ne stack
  by_cases node : a.node = NULL
  · rw [addPCB_noNode node]
    exact ⟨iff_of_false (by simp) fun served => served.node node, fun _ =>
      Or.inl (mem_globalMalloc held)⟩
  · by_cases pcb : a.pcb = NULL
    · rw [addPCB_noPcb node pcb]
      refine ⟨iff_of_false (by simp) fun served => served.pcb pcb, fun _ => Or.inl ?_⟩
      exact Finset.mem_erase.mpr ⟨neNode, mem_globalMalloc (mem_globalMalloc held)⟩
    · obtain ⟨succeeds, leaks⟩ := heapStage_staged buddy stale pid fresh stack held node pcb
      rw [addPCB_eq node pcb]
      cases served : (m.heapStage buddy a stale pid).2 with
      | true =>
          rw [served] at succeeds
          exact ⟨succeeds, fun h => by cases h⟩
      | false =>
          have leaked := leaks served
          rw [served] at succeeds
          exact ⟨succeeds, fun _ => leaked⟩

/-! ### The whole creation -/

/-- The machine when the stack is written and the pid is taken. -/
def Machine.started (m : Machine) (stackEnd : Nat) (argv : List (List UInt8)) : Machine :=
  let m := (m.globalMalloc stackEnd).write (argWrites stackEnd 0 (8 * argv.length) argv)
  let m := (m.initializeProcessStack stackEnd).1
  { m with kernel := { m.kernel with pid := (m.kernel.pid + 1) % 2 ^ 32 } }

theorem argWrites_base {stackEnd i arg : Nat} {argv : List (List UInt8)} {w : Write}
    (mem : w ∈ argWrites stackEnd i arg argv) : w.base = stackEnd := by
  induction argv generalizing i arg with
  | nil => cases mem
  | cons s argv ih =>
      simp only [argWrites, List.cons_append, List.mem_cons, List.mem_append, List.mem_map] at mem
      rcases mem with rfl | ⟨n, -, rfl⟩ | mem
      · rfl
      · rfl
      · exact ih mem

variable {argv : List (List UInt8)}

theorem started_kernel :
    (m.started a.stack argv).kernel = { m.kernel with pid := (m.kernel.pid + 1) % 2 ^ 32 } := by
  simp [Machine.started, Machine.initializeProcessStack, Machine.write]

theorem createProcess_eq_addPCB : m.createProcess buddy a stale argv garbage =
    let r := (m.started a.stack argv).addPCB buddy a stale m.kernel.pid
      (stackStart a.stack - 8 * pushes) garbage
    (r.1, if r.2 then stackStart a.stack - 8 * pushes else NULL) := by
  simp [Machine.createProcess, Machine.started, Machine.initializeProcessStack, Machine.write]

theorem started_written (stackEnd : Nat) : (m.started stackEnd argv).written =
    m.written ++ (argWrites stackEnd 0 (8 * argv.length) argv ++
      (List.range pushes).map fun i =>
        ⟨stackEnd, stackStart stackEnd - 8 * (i + 1) - stackEnd⟩) := by
  simp only [Machine.started, Machine.initializeProcessStack, Machine.write, globalMalloc_written,
    List.append_assoc]

theorem started_wrote (m : Machine) (argv : List (List UInt8)) (stack : a.stack ≠ NULL) :
    Wrote m (m.started a.stack argv) := by
  refine ⟨_, started_written a.stack, fun w mem => ?_⟩
  rcases List.mem_append.mp mem with mem | mem
  · rw [argWrites_base mem]
    exact stack
  · obtain ⟨i, -, rfl⟩ := List.mem_map.mp mem
    exact stack

/-- Without a stack, at least the registers are written through NULL. -/
theorem null_stack_written (m : Machine) (buddy : Bool) (stale : Nat) (argv : List (List UInt8))
    (garbage : Int) (stack : a.stack = NULL) :
    ∃ w ∈ (m.createProcess buddy a stale argv garbage).1.written, w.base = NULL := by
  rw [createProcess_eq_addPCB]
  obtain ⟨ws, e, -⟩ := addPCB_wrote (m.started a.stack argv) buddy a stale m.kernel.pid
    (stackStart a.stack - 8 * pushes) garbage
  refine ⟨⟨a.stack, stackStart a.stack - 8 * (0 + 1) - a.stack⟩, ?_, stack⟩
  simp only [e, started_written, List.mem_append]
  left
  right
  right
  exact List.mem_map.mpr ⟨0, by simp [pushes], rfl⟩

theorem stackPointer_ne (stackEnd : Nat) : stackStart stackEnd - 8 * pushes ≠ NULL := by
  unfold stackStart stackSize pushes NULL
  omega

theorem started_held (m : Machine) (argv : List (List UInt8)) (stack : a.stack ≠ NULL) :
    a.stack ∈ (m.started a.stack argv).live := by
  change a.stack ∈ (m.globalMalloc a.stack).live
  rw [globalMalloc_live stack]
  exact Finset.mem_insert_self _ _

/-- A creation that has its stack: it succeeds, or keeps memory. -/
theorem createProcess_staged (m : Machine) (buddy : Bool) (stale : Nat) (argv : List (List UInt8))
    (garbage : Int) (fresh : a.Fresh live) (stack : a.stack ≠ NULL) :
    ((m.createProcess buddy a stale argv garbage).2 ≠ NULL ↔ a.NodeServed buddy m.kernel.pid) ∧
      ((m.createProcess buddy a stale argv garbage).2 = NULL →
        Leaks a (m.createProcess buddy a stale argv garbage).1) := by
  have staged :=
    addPCB_staged buddy stale m.kernel.pid (stackStart a.stack - 8 * pushes) garbage fresh
    stack (started_held m argv stack)
  rw [createProcess_eq_addPCB]
  dsimp only
  cases added : ((m.started a.stack argv).addPCB buddy a stale m.kernel.pid
      (stackStart a.stack - 8 * pushes) garbage).2 with
  | true =>
      refine ⟨iff_of_true (stackPointer_ne _) (staged.succeeds.mp added), fun null => ?_⟩
      exact absurd null (stackPointer_ne _)
  | false =>
      refine ⟨iff_of_false (fun ne => ne rfl) fun served => ?_, fun _ => staged.leaks added⟩
      rw [staged.succeeds.mpr served] at added
      cases added

/-- The kernel after a creation. -/
theorem createProcess_machine_kernel : (m.createProcess buddy a stale argv garbage).1.kernel =
    if (m.createProcess buddy a stale argv garbage).2 ≠ NULL then
      added m.kernel (stackStart a.stack - 8 * pushes) garbage
    else { m.kernel with pid := (m.kernel.pid + 1) % 2 ^ 32 } := by
  have kernel := addPCB_kernel (m.started a.stack argv) buddy a stale m.kernel.pid
    (stackStart a.stack - 8 * pushes) garbage
  rw [started_kernel] at kernel
  rw [createProcess_eq_addPCB]
  rcases call : (m.started a.stack argv).addPCB buddy a stale m.kernel.pid
      (stackStart a.stack - 8 * pushes) garbage with ⟨m', made⟩
  rw [call] at kernel
  cases made with
  | true => exact kernel.trans (if_pos (stackPointer_ne _)).symm
  | false => exact kernel

/-- Which calls return memory. -/
def Answers.memory (a : Answers) (buddy : Bool) : Kernel.ProcessMemory where
  stack := a.stack ≠ NULL
  node := a.node ≠ NULL
  pcb := a.pcb ≠ NULL
  heap := a.heap ≠ NULL
  freeListStart := buddy || a.freeListStart ≠ NULL

/-- The scheduler's `createProcess` is this one. -/
theorem createProcess_kernel (fresh : a.Fresh live) (stack : a.stack ≠ NULL)
    (real : m.kernel.pid ≠ IDLE_PID) :
    m.kernel.createProcess (a.memory buddy) (stackStart a.stack - 8 * pushes) garbage =
      .ok ((m.createProcess buddy a stale argv garbage).1.kernel,
        (m.createProcess buddy a stale argv garbage).2 ≠ NULL) := by
  have served : ((a.memory buddy).node && (a.memory buddy).pcb && (a.memory buddy).heap &&
      (a.memory buddy).freeListStart) = true ↔ a.NodeServed buddy m.kernel.pid := by
    simp only [Answers.memory, Bool.and_eq_true, Bool.or_eq_true, decide_eq_true_eq]
    constructor
    · rintro ⟨⟨⟨node, pcb⟩, heap⟩, start⟩
      refine ⟨node, pcb, fun _ => heap, fun _ isList => start.resolve_left ?_⟩
      rw [isList]
      simp
    · intro h
      refine ⟨⟨⟨h.node, h.pcb⟩, h.heap real⟩, ?_⟩
      cases buddy with
      | true => exact Or.inl rfl
      | false => exact Or.inr (h.freeListStart real rfl)
  rw [← (createProcess_staged m buddy stale argv garbage fresh stack).1] at served
  rw [createProcess_machine_kernel, Kernel.createProcess,
    if_pos (by simpa [Answers.memory] using stack), Kernel.addPCB]
  by_cases made : (m.createProcess buddy a stale argv garbage).2 ≠ NULL
  · rw [if_pos (served.mpr made), if_pos made, decide_eq_true made]
    rfl
  · rw [if_neg (mt served.mp made), if_neg made, decide_eq_false made]

end Memory

/-- In every state that is reached, for every argument vector, and whatever the calls of
`globalMalloc` answer. -/
theorem createProcess_atomic_iff {k : Kernel} (reach : Reach (fun _ _ => True) k)
    {live : Finset Nat}
    {a : Answers} (fresh : a.Fresh live) (buddy : Bool) (stale : Nat) (argv : List (List UInt8))
    (garbage : Int) :
    Atomic ⟨k, live, []⟩ (Machine.createProcess ⟨k, live, []⟩ buddy a stale argv garbage) ↔
      a.Served buddy k.pid := by
  have i : Inv False k := reach.sound
  constructor
  · intro atomic
    have stack : a.stack ≠ NULL := fun null => by
      obtain ⟨w, mem, base⟩ := null_stack_written ⟨k, live, []⟩ buddy stale argv garbage null
      rcases atomic.nonNull w mem with old | nonNull
      · cases old
      · exact nonNull base
    obtain ⟨served, leaks⟩ := createProcess_staged ⟨k, live, []⟩ buddy stale argv garbage fresh
      stack
    rcases atomic.outcome with ⟨made, -⟩ | ⟨null, -, same⟩
    · exact ⟨served.mp made, stack⟩
    · rcases leaks null with mem | ⟨heap, mem⟩
      · rw [same] at mem
        exact absurd mem (fresh.unused _ (by simp) stack)
      · rw [same] at mem
        exact absurd mem (fresh.unused _ (by simp) heap)
  · intro served
    have made :=
      (createProcess_staged ⟨k, live, []⟩ buddy stale argv garbage fresh served.stack).1.mpr
        served.toNodeServed
    constructor
    · rw [createProcess_eq_addPCB]
      intro w mem
      obtain ⟨ws, e, nonNull⟩ := (started_wrote ⟨k, live, []⟩ argv served.stack).trans
        (addPCB_wrote _ buddy a stale k.pid (stackStart a.stack - 8 * pushes) garbage)
      rw [e] at mem
      exact Or.inr (nonNull w mem)
    · left
      rw [createProcess_machine_kernel, if_pos made]
      exact ⟨made, added_appends i _ _⟩

theorem createProcess_atomic_first : Atomic ⟨boot 0 0 0, ∅, []⟩
    (Machine.createProcess ⟨boot 0 0 0, ∅, []⟩ false ⟨16, 32, 48, 64, 80⟩ 0 [[103, 32, 50]] 0) := by
  have fresh : Answers.Fresh ⟨16, 32, 48, 64, 80⟩ ∅ := ⟨by decide, by decide⟩
  have served : Answers.Served ⟨16, 32, 48, 64, 80⟩ false (boot 0 0 0).pid :=
    ⟨⟨by decide, by decide, by decide, by decide⟩, by decide⟩
  exact (createProcess_atomic_iff ⟨0, 0, 0, .refl⟩ fresh false 0 _ 0).mpr served

/-- `init` creates a process. If there is no memory for its stack, the stack is written
at NULL; if there is none for its node, the stack is not given back. -/
theorem creation_not_atomic :
    ¬ Atomic ⟨boot 0 0 0, ∅, []⟩
        (Machine.createProcess ⟨boot 0 0 0, ∅, []⟩ false ⟨NULL, 32, 48, 64, 80⟩ 0
          [[103, 32, 50]] 0) ∧
      ¬ Atomic ⟨boot 0 0 0, ∅, []⟩
        (Machine.createProcess ⟨boot 0 0 0, ∅, []⟩ false ⟨16, NULL, NULL, NULL, NULL⟩ 0
          [[103, 32, 50]] 0) := by
  constructor
  · intro atomic
    rcases atomic.nonNull ⟨NULL, 0⟩ (by decide +kernel) with old | nonNull
    · cases old
    · exact nonNull rfl
  · intro atomic
    rcases atomic.outcome with ⟨made, -⟩ | ⟨-, -, same⟩
    · exact made rfl
    · have kept : (16 : Nat) ∈ (∅ : Finset Nat) := by
        rw [← show _ = (∅ : Finset Nat) from same]
        decide +kernel
      exact absurd kept (Finset.notMem_empty 16)

end SoTp.Process
