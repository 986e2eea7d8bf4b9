/-
The process list is a ring. `RingAt k before cursor after` says that the nodes
`before ++ cursor :: after`, from head to tail, are linked in a circle, with
`prev` right behind the cursor and pids that increase from head to tail.

* `nextPCB_ring`, `freeCurrentProcess_ring`, `RingAt.added` — stepping,
  removing and adding a node keep the ring, wherever the cursor stands.
-/

import SoTp.Process.Circle
import SoTp.Process.System

namespace SoTp.Process

open SoTp.Lib Kernel

/-- The PCB of the idle process. -/
def Kernel.idlePCB (k : Kernel) : Nat := k.pcbOf k.idleProcPCBNode

/-- The process list is the ring `before ++ cursor :: after` of live processes. -/
structure RingAt (k : Kernel) (before : List Nat) (cursor : Nat) (after : List Nat) : Prop where
  cycle : Segment k.next cursor (cursor :: (after ++ before)) cursor
  head : (before ++ cursor :: after).head? = some k.pcbList.head
  tail : (before ++ cursor :: after).getLast? = some k.pcbList.tail
  prev : (cursor :: (after ++ before)).getLast? = some k.pcbList.prev
  len : k.pcbList.len = (before ++ cursor :: after).length
  pids : (before ++ cursor :: after).Pairwise fun m n => k.pidOf (k.pcbOf m) < k.pidOf (k.pcbOf n)
  used : ∀ n ∈ before ++ cursor :: after, 0 < n ∧ n < k.unused ∧ k.pidOf (k.pcbOf n) < k.pid ∧
    k.allocated (k.pcbOf n) = true
  /-- Every PCB in memory belongs to the ring or is the idle one. -/
  members : ∀ p, k.allocated p = true →
    p < k.unused ∧ p ≠ NULL ∧ (p = k.idlePCB ∨ ∃ n ∈ before ++ cursor :: after, k.pcbOf n = p)
  counter : k.pid ≤ IDLE_PID
  idlePid : k.pidOf k.idlePCB = IDLE_PID
  idleNode : 0 < k.idleProcPCBNode ∧ k.idleProcPCBNode < k.unused
  idleAllocated : k.allocated k.idlePCB = true

section Views

variable {k : Kernel} {before after : List Nat} {cursor : Nat}

theorem RingAt.nodup (r : RingAt k before cursor after) : (before ++ cursor :: after).Nodup :=
  r.pids.imp fun {m n} lt => by
    rintro rfl
    exact Nat.lt_irrefl _ lt

theorem RingAt.head_ne (r : RingAt k before cursor after) : k.pcbList.head ≠ NULL := by
  have := (r.used _ (List.mem_of_mem_head? r.head)).1
  unfold NULL
  omega

theorem RingAt.cursor_mem (_ : RingAt k before cursor after) :
    cursor ∈ before ++ cursor :: after := by
  simp

theorem RingAt.cursor_ne (r : RingAt k before cursor after) : cursor ≠ NULL := by
  have := (r.used _ r.cursor_mem).1
  unfold NULL
  omega

theorem RingAt.prev_mem (r : RingAt k before cursor after) :
    k.pcbList.prev ∈ before ++ cursor :: after :=
  mem_view.mp (List.mem_of_getLast? r.prev)

/-- The idle process is outside of the ring. -/
theorem RingAt.pid_lt (r : RingAt k before cursor after) {n : Nat}
    (hn : n ∈ before ++ cursor :: after) : k.pidOf (k.pcbOf n) < IDLE_PID :=
  Nat.lt_of_lt_of_le (r.used n hn).2.2.1 r.counter

theorem RingAt.pcbOf_ne_idle (r : RingAt k before cursor after) {n : Nat}
    (hn : n ∈ before ++ cursor :: after) : k.pcbOf n ≠ k.idlePCB := fun e => by
  have lt := r.pid_lt hn
  rw [e, r.idlePid] at lt
  exact Nat.lt_irrefl _ lt

theorem RingAt.ne_idle (r : RingAt k before cursor after) {n : Nat}
    (hn : n ∈ before ++ cursor :: after) : n ≠ k.idleProcPCBNode := fun e =>
  r.pcbOf_ne_idle hn (by rw [e]; rfl)

/-- Two processes of the ring with one pid are one. -/
theorem RingAt.pid_inj (r : RingAt k before cursor after) {m n : Nat}
    (hm : m ∈ before ++ cursor :: after) (hn : n ∈ before ++ cursor :: after)
    (e : k.pidOf (k.pcbOf m) = k.pidOf (k.pcbOf n)) : m = n := by
  have trichotomy := List.pairwise_iff_getElem.mp r.pids
  obtain ⟨i, hi, rfl⟩ := List.getElem_of_mem hm
  obtain ⟨j, hj, rfl⟩ := List.getElem_of_mem hn
  rcases Nat.lt_trichotomy i j with lt | rfl | lt
  · have := trichotomy i j hi hj lt
    omega
  · rfl
  · have := trichotomy j i hj hi lt
    omega

/-- Two PCBs in memory with one pid are one. -/
theorem RingAt.allocated_inj (r : RingAt k before cursor after) {p q : Nat}
    (hp : k.allocated p = true) (hq : k.allocated q = true) (e : k.pidOf p = k.pidOf q) :
      p = q := by
  obtain ⟨-, -, hp⟩ := r.members p hp
  obtain ⟨-, -, hq⟩ := r.members q hq
  rcases hp with rfl | ⟨m, hm, rfl⟩ <;> rcases hq with rfl | ⟨n, hn, rfl⟩
  · rfl
  · have := r.pid_lt hn
    rw [← e, r.idlePid] at this
    omega
  · have := r.pid_lt hm
    rw [e, r.idlePid] at this
    omega
  · rw [r.pid_inj hm hn e]

/-- The list part of a kernel: what `RingAt` looks at. -/
structure SameRing (k k' : Kernel) : Prop where
  nodes : k'.nodes = k.nodes
  pcbList : k'.pcbList = k.pcbList
  idleNode : k'.idleProcPCBNode = k.idleProcPCBNode
  allocated : k'.allocated = k.allocated
  pid : k'.pid = k.pid
  unused : k.unused ≤ k'.unused
  pids : ∀ p, k'.pidOf p = k.pidOf p

namespace SameRing

variable {k' k'' : Kernel}

theorem refl (k : Kernel) : SameRing k k := ⟨rfl, rfl, rfl, rfl, rfl, Nat.le_refl _, fun _ => rfl⟩

theorem trans (h : SameRing k k') (h' : SameRing k' k'') : SameRing k k'' where
  nodes := h'.nodes.trans h.nodes
  pcbList := h'.pcbList.trans h.pcbList
  idleNode := h'.idleNode.trans h.idleNode
  allocated := h'.allocated.trans h.allocated
  pid := h'.pid.trans h.pid
  unused := h.unused.trans h'.unused
  pids p := (h'.pids p).trans (h.pids p)

theorem pcbOf (h : SameRing k k') (n : Nat) : k'.pcbOf n = k.pcbOf n := by
  rw [Kernel.pcbOf, h.nodes, Kernel.pcbOf]

theorem next (h : SameRing k k') : k'.next = k.next := by
  funext n
  rw [Kernel.next, h.nodes, Kernel.next]

theorem currentPCB (h : SameRing k k') : k'.currentPCB = k.currentPCB := by
  rw [Kernel.currentPCB, h.pcbOf, h.pcbList, Kernel.currentPCB]

theorem idlePCB (h : SameRing k k') : k'.idlePCB = k.idlePCB := by
  rw [Kernel.idlePCB, h.pcbOf, h.idleNode, Kernel.idlePCB]

theorem idle (h : SameRing k k') : k'.idle ↔ k.idle := by
  rw [Kernel.idle, h.pcbList, h.idleNode, Kernel.idle]

theorem isCurrent (h : SameRing k k') (p : Nat) : k'.isCurrent p = k.isCurrent p := by
  rw [Kernel.isCurrent, h.currentPCB, h.pids, h.pids, Kernel.isCurrent]

end SameRing

theorem RingAt.congr {k' : Kernel} (r : RingAt k before cursor after) (same : SameRing k k') :
    RingAt k' before cursor after where
  cycle := same.next ▸ r.cycle
  head := same.pcbList ▸ r.head
  tail := same.pcbList ▸ r.tail
  prev := same.pcbList ▸ r.prev
  len := same.pcbList ▸ r.len
  pids := r.pids.imp fun {m n} lt => by rwa [same.pcbOf, same.pcbOf, same.pids, same.pids]
  used n hn := by
    obtain ⟨pos, lt, pid, alloc⟩ := r.used n hn
    rw [same.pcbOf, same.pids, same.pid, same.allocated]
    exact ⟨pos, Nat.lt_of_lt_of_le lt same.unused, pid, alloc⟩
  members p hp := by
    obtain ⟨lt, ne, mem⟩ := r.members p (same.allocated ▸ hp)
    refine ⟨Nat.lt_of_lt_of_le lt same.unused, ne, ?_⟩
    rw [same.idlePCB]
    simpa only [same.pcbOf] using mem
  counter := same.pid ▸ r.counter
  idlePid := by rw [same.idlePCB, same.pids]; exact r.idlePid
  idleNode := by
    rw [same.idleNode]
    exact ⟨r.idleNode.1, Nat.lt_of_lt_of_le r.idleNode.2 same.unused⟩
  idleAllocated := by rw [same.idlePCB, same.allocated]; exact r.idleAllocated

end Views

/-! ### Stepping -/

section Stepping

variable {k : Kernel} {before after : List Nat} {cursor : Nat}

/-- The nodes of a ring, whatever their processes are. -/
theorem RingAt.circle (r : RingAt k before cursor after) : Circle k before cursor after where
  cycle := r.cycle
  head := r.head
  tail := r.tail
  prev := r.prev
  nodup := r.nodup
  nonNull n hn e := Nat.ne_of_gt (r.used n hn).1 e
  idleOutside hn := r.ne_idle hn rfl
  idleNonNull e := Nat.ne_of_gt r.idleNode.1 e

theorem RingAt.view_nodup (r : RingAt k before cursor after) :
    (cursor :: (after ++ before)).Nodup :=
  r.circle.view_nodup

theorem RingAt.next_prev (r : RingAt k before cursor after) : k.next k.pcbList.prev = cursor :=
  r.circle.next_prev

theorem nextPCB_ring (r : RingAt k before cursor after) (here : k.pcbList.current = cursor) :
    ∃ before' cursor' after', RingAt k.nextPCB before' cursor' after' ∧
      k.nextPCB.pcbList.current = cursor' ∧
      before' ++ cursor' :: after' = before ++ cursor :: after ∧
      cursor' :: (after' ++ before') = after ++ before ++ [cursor] := by
  obtain ⟨before', cursor', after', circle, next, nodes, view⟩ := r.circle.advance
  refine ⟨before', cursor', after', ?_, ?_, nodes, view⟩
  · rw [r.circle.nextPCB_eq here]
    exact { r with
      cycle := circle.cycle
      head := circle.head
      tail := circle.tail
      prev := circle.prev
      len := by rw [nodes]; exact r.len
      pids := by rw [nodes]; exact r.pids
      used := by rw [nodes]; exact r.used
      members := by rw [nodes]; exact r.members }
  · rw [r.circle.nextPCB_eq here]
    exact next

/-- Back from the idle process, the cursor is where the search had stopped. -/
theorem nextPCB_idle (r : RingAt k before cursor after) (asleep : k.idle) :
    RingAt k.nextPCB before cursor after ∧ k.nextPCB.pcbList.current = cursor := by
  rw [r.circle.nextPCB_idle asleep r.next_prev]
  exact ⟨{ r with }, rfl⟩

/-! ### Reaping -/

theorem RingAt.head_eq_tail (r : RingAt k before cursor after) :
    k.pcbList.head = k.pcbList.tail ↔ after ++ before = [] :=
  r.circle.head_eq_tail

theorem freeCurrentProcess_eq (r : RingAt k before cursor after) (here : k.pcbList.current = cursor)
    (more : after ++ before ≠ []) : k.freeCurrentProcess = unlinked k (k.next cursor) :=
  r.circle.freeCurrentProcess_eq here more

/-- Taking the current node out leaves the rest of the ring. -/
theorem RingAt.unlink (r : RingAt k before cursor after) (here : k.pcbList.current = cursor)
    {before' after' : List Nat} {x : Nat} (nodes : before' ++ x :: after' = before ++ after)
    (circle : Circle (unlinked k x) before' x after') : RingAt (unlinked k x) before' x after' := by
  subst here
  have nodup := r.nodup
  have old : ∀ n ∈ before' ++ x :: after', n ∈ before ++ k.pcbList.current :: after :=
      fun n hn => by
    rw [nodes, List.mem_append] at hn
    simp only [List.mem_append, List.mem_cons]
    tauto
  have other : ∀ n ∈ before' ++ x :: after', k.pcbOf n ≠ k.currentPCB := by
    intro n hn e
    have same := r.pid_inj (old n hn) r.cursor_mem (by rw [e, currentPCB])
    rw [nodes, same] at hn
    exact r.circle.cursor_once hn
  have idle : (unlinked k x).idlePCB = k.idlePCB := unlinked_pcbOf
  have kept : ∀ p, p ≠ k.currentPCB → (unlinked k x).allocated p = k.allocated p := fun p ne =>
    Function.update_of_ne ne _ _
  refine { cycle := circle.cycle, head := circle.head, tail := circle.tail, prev := circle.prev
           len := ?_, pids := ?_, used := ?_, members := ?_, counter := r.counter, idlePid := ?_
           idleNode := r.idleNode, idleAllocated := ?_ }
  · have := r.len
    rw [nodes]
    simp only [List.length_append, List.length_cons] at this ⊢
    change k.pcbList.len - 1 = _
    omega
  · rw [nodes]
    refine (r.pids.sublist (List.Sublist.append_left (List.sublist_cons_self _ _) _)).imp ?_
    intro m n lt
    rwa [unlinked_pcbOf, unlinked_pcbOf]
  · intro n hn
    rw [unlinked_pcbOf, kept _ (other n hn)]
    exact r.used n (old n hn)
  · intro p hp
    have ne : p ≠ k.currentPCB := by
      rintro rfl
      have gone : (unlinked k x).allocated k.currentPCB = false := Function.update_self _ _ _
      rw [gone] at hp
      cases hp
    rw [kept p ne] at hp
    obtain ⟨lt, pos, mem⟩ := r.members p hp
    refine ⟨lt, pos, ?_⟩
    rw [idle]
    refine mem.imp id fun inside => ?_
    obtain ⟨n, hn, e⟩ := inside
    refine ⟨n, ?_, unlinked_pcbOf.trans e⟩
    rw [nodes, List.mem_append]
    simp only [List.mem_append, List.mem_cons] at hn
    rcases hn with hn | rfl | hn
    · exact Or.inl hn
    · exact absurd e.symm ne
    · exact Or.inr hn
  · rw [idle]
    exact r.idlePid
  · rw [idle, kept _ fun e => r.pcbOf_ne_idle r.cursor_mem e.symm]
    exact r.idleAllocated

theorem freeCurrentProcess_ring (r : RingAt k before cursor after)
    (here : k.pcbList.current = cursor) (more : after ++ before ≠ []) :
    ∃ before' cursor' after', RingAt k.freeCurrentProcess before' cursor' after' ∧
      k.freeCurrentProcess.pcbList.current = cursor' ∧
      before' ++ cursor' :: after' = before ++ after ∧
      cursor' :: (after' ++ before') = after ++ before := by
  obtain ⟨before', cursor', after', circle, at_cursor, nodes, view⟩ :=
    r.circle.freeCurrentProcess here more
  have e := freeCurrentProcess_eq r here more
  have next : k.next cursor = cursor' := by
    rw [← at_cursor, e]
    rfl
  rw [e, next] at circle at_cursor ⊢
  exact ⟨before', cursor', after', r.unlink here nodes circle, at_cursor, nodes, view⟩

end Stepping

/-! ### Adding a process -/

section Adding

variable {k : Kernel} {before after : List Nat} {cursor : Nat}

/-- The kernel after a successful `createProcess`. -/
def added (k : Kernel) (rsp : Nat) (garbage : Int) : Kernel :=
  (({ k with pid := (k.pid + 1) % 2 ^ 32 }.createPCBNode k.pid 1 .ready rsp garbage).1).appendNode
    k.unused

theorem createProcess_eq (mem : ProcessMemory) (rsp : Nat) (garbage : Int) {r : Kernel × Bool}
    (run : k.createProcess mem rsp garbage = .ok r) :
    r.1 = added k rsp garbage ∨ r.1 = { k with pid := (k.pid + 1) % 2 ^ 32 } := by
  unfold createProcess at run
  split_ifs at run
  cases run
  unfold addPCB
  split_ifs
  · exact Or.inl rfl
  · exact Or.inr rfl

/-- What `createProcess` does to the list, field by field. -/
theorem added_eq (some : k.pcbList.head ≠ NULL) (rsp : Nat) (garbage : Int) :
    (added k rsp garbage).next = Function.update
        (Function.update (Function.update k.next k.unused NULL) k.unused k.pcbList.head)
        k.pcbList.tail k.unused ∧
      (added k rsp garbage).pcbOf = Function.update k.pcbOf k.unused (k.unused + 1) ∧
      (added k rsp garbage).pcbList =
        ⟨k.pcbList.head, k.unused, k.pcbList.current,
          if k.pcbList.prev = k.pcbList.tail then k.unused else k.pcbList.prev,
          k.pcbList.len + 1⟩ := by
  unfold added appendNode createPCBNode
  simp only [some, if_false]
  refine ⟨?_, ?_, ?_⟩
  · funext n
    split_ifs <;> simp only [Kernel.next, setNext, Function.update_apply] <;> split_ifs <;> rfl
  · funext n
    split_ifs <;> simp only [Kernel.pcbOf, setNext, Function.update_apply] <;>
      split_ifs <;> simp_all
  · split_ifs <;> rfl

/-- The PCB of a new process. -/
def newPCB (k : Kernel) (rsp : Nat) (garbage : Int) : PCB :=
  { pid := k.pid, priority := 1, state := .ready, rsp, waitedProcessExitCode := garbage
    waitingForMe := [], parentProc := k.currentPCB, heapFreed := false }

theorem added_rest (k : Kernel) (rsp : Nat) (garbage : Int) :
    added k rsp garbage = { k with
      pid := (k.pid + 1) % 2 ^ 32
      unused := k.unused + 2
      nodes := (added k rsp garbage).nodes
      pcbs := Function.update k.pcbs (k.unused + 1) (newPCB k rsp garbage)
      allocated := Function.update k.allocated (k.unused + 1) true
      pcbList := (added k rsp garbage).pcbList } := by
  unfold added appendNode createPCBNode
  dsimp only
  split_ifs <;> rfl

theorem RingAt.last_after (r : RingAt k before cursor after) :
    (cursor :: after).getLast? = some k.pcbList.tail := by
  have tail := r.tail
  rw [List.getLast?_append] at tail
  simpa [List.getLast?_cons] using tail

theorem RingAt.first_before (r : RingAt k before cursor after) :
    (before ++ [cursor]).head? = some k.pcbList.head := by
  have head := r.head
  cases before <;> simpa using head

/-- Up to the old tail the walk is the old one; from there it takes the new node. -/
theorem RingAt.cycle_added (r : RingAt k before cursor after) :
    Segment
      (Function.update
        (Function.update (Function.update k.next k.unused NULL) k.unused k.pcbList.head)
      k.pcbList.tail k.unused) cursor (cursor :: (after ++ [k.unused] ++ before)) cursor := by
  obtain ⟨front, split⟩ := List.getLast?_eq_some_iff.mp r.last_after
  have firstEq := r.first_before
  have cycle := r.cycle
  rw [← List.cons_append, split, segment_append] at cycle
  obtain ⟨h, walk, back⟩ := cycle
  have hhead : h = k.pcbList.head := by
    cases before with
    | nil =>
        rw [List.nil_append, List.head?_cons, Option.some.injEq] at firstEq
        exact (segment_nil.mp back).trans firstEq
    | cons b before =>
        rw [List.cons_append, List.head?_cons, Option.some.injEq] at firstEq
        exact back.1.trans firstEq
  have nodup := r.view_nodup
  rw [← List.cons_append, split] at nodup
  have view : cursor :: (after ++ [k.unused] ++ before) =
      front ++ [k.pcbList.tail] ++ k.unused :: before := by
    rw [← split]
    simp
  have fresh : ∀ n ∈ front ++ [k.pcbList.tail] ++ before, n ≠ k.unused := by
    intro n hn
    rw [← split, List.cons_append] at hn
    exact (r.used n (mem_view.mp hn)).2.1.ne
  have once : k.pcbList.tail ∉ front ∧ k.pcbList.tail ∉ before := by
    simp only [List.nodup_append, List.mem_append, List.mem_singleton] at nodup
    exact ⟨fun m => nodup.1.2.2 _ m _ rfl rfl, fun m => nodup.2.2 _ (Or.inr rfl) _ m rfl⟩
  have unusedNe : k.unused ≠ k.pcbList.tail := fun e =>
    fresh k.pcbList.tail (by simp) e.symm
  rw [view, segment_middle]
  refine ⟨?_, ?_⟩
  · refine segment_relink (b := h) ?_ once.1
    refine (segment_congr fun n hn => ?_).mpr walk
    have ne := fresh n (List.mem_append_left _ hn)
    rw [Function.update_of_ne ne, Function.update_of_ne ne]
  · rw [Function.update_of_ne unusedNe, Function.update_self, ← hhead]
    refine (segment_congr fun n hn => ?_).mpr back
    have ne := fresh n (List.mem_append_right _ hn)
    rw [Function.update_of_ne (ne_of_mem_of_not_mem hn once.2), Function.update_of_ne ne,
      Function.update_of_ne ne]

/-- The node before the cursor is the new one exactly when it was the tail. -/
theorem RingAt.prev_added (r : RingAt k before cursor after) (node : Nat) :
    (cursor :: (after ++ [node] ++ before)).getLast? =
      some (if k.pcbList.prev = k.pcbList.tail then node else k.pcbList.prev) := by
  have prev := r.prev
  have nodup := r.view_nodup
  cases before with
  | nil =>
      rw [List.append_nil, r.last_after, Option.some.injEq] at prev
      rw [if_pos prev.symm]
      simp [List.getLast?_cons]
  | cons b before =>
      have same : (cursor :: (after ++ [node] ++ b :: before)).getLast? =
          (cursor :: (after ++ b :: before)).getLast? := by
        simp [List.getLast?_append, List.getLast?_cons]
      rw [same, prev, if_neg]
      intro e
      rw [← List.cons_append, List.nodup_append] at nodup
      refine nodup.2.2 _ (List.mem_of_getLast? r.last_after) _ ?_ e.symm
      rw [← List.cons_append, List.getLast?_append] at prev
      simp only [List.getLast?_cons, Option.some_or, Option.some.injEq] at prev
      rw [← prev]
      exact List.mem_of_getLast? (by rw [List.getLast?_cons])

theorem RingAt.added (r : RingAt k before cursor after) (bound : k.pid < IDLE_PID) (rsp : Nat)
    (garbage : Int) : RingAt (added k rsp garbage) before cursor (after ++ [k.unused]) := by
  obtain ⟨next, pcbOf, list⟩ := added_eq r.head_ne rsp garbage
  have rest := added_rest k rsp garbage
  have small : (k.pid + 1) % 2 ^ 32 = k.pid + 1 := by
    unfold IDLE_PID at bound
    exact Nat.mod_eq_of_lt (by omega)
  have pcbs : (Process.added k rsp garbage).pcbs =
      Function.update k.pcbs (k.unused + 1) (newPCB k rsp garbage) := by rw [rest]
  have allocated : (Process.added k rsp garbage).allocated =
      Function.update k.allocated (k.unused + 1) true := by rw [rest]
  have pid : (Process.added k rsp garbage).pid = k.pid + 1 := by rw [rest]; exact small
  have unused : (Process.added k rsp garbage).unused = k.unused + 2 := by rw [rest]
  have idleNode : (Process.added k rsp garbage).idleProcPCBNode = k.idleProcPCBNode := by rw [rest]
  have idle : (Process.added k rsp garbage).idlePCB = k.idlePCB := by
    rw [idlePCB, pcbOf, idleNode, Function.update_of_ne r.idleNode.2.ne, idlePCB]
  have oldNode : ∀ n ∈ before ++ cursor :: after, (Process.added k rsp garbage).pcbOf n =
      k.pcbOf n :=
    fun n hn => by rw [pcbOf, Function.update_of_ne (r.used n hn).2.1.ne]
  have oldPCB : ∀ p, k.allocated p = true → (Process.added k rsp garbage).pcbs p = k.pcbs p ∧
      (Process.added k rsp garbage).allocated p = true := fun p hp => by
    have ne : p ≠ k.unused + 1 := by
      have := (r.members p hp).1
      omega
    rw [pcbs, allocated, Function.update_of_ne ne, Function.update_of_ne ne]
    exact ⟨rfl, hp⟩
  have newNode : (Process.added k rsp garbage).pcbOf k.unused = k.unused + 1 := by
    rw [pcbOf, Function.update_self]
  have newPid : (Process.added k rsp garbage).pidOf (k.unused + 1) = k.pid := by
    rw [pidOf, pcbs, Function.update_self]
    rfl
  have oldPid : ∀ n ∈ before ++ cursor :: after,
      (Process.added k rsp garbage).pidOf ((Process.added k rsp garbage).pcbOf n) =
        k.pidOf (k.pcbOf n) := fun n hn => by
    rw [oldNode n hn, pidOf, (oldPCB _ (r.used n hn).2.2.2).1, pidOf]
  have nodes : before ++ cursor :: (after ++ [k.unused]) = before ++ cursor :: after ++
      [k.unused] := by
    simp
  have split : ∀ n, n ∈ before ++ cursor :: (after ++ [k.unused]) ↔
      n ∈ before ++ cursor :: after ∨ n = k.unused := fun n => by
    rw [nodes, List.mem_append, List.mem_singleton]
  refine { cycle := ?_, head := ?_, tail := ?_, prev := ?_, len := ?_, pids := ?_, used := ?_,
           members := ?_, counter := ?_, idlePid := ?_, idleNode := ?_, idleAllocated := ?_ }
  · rw [next]
    exact r.cycle_added
  · rw [list, nodes]
    have head := r.head
    cases before <;> simpa using head
  · rw [list, nodes, List.getLast?_concat]
  · rw [list]
    exact r.prev_added k.unused
  · rw [list, nodes, List.length_append, ← r.len]
    rfl
  · rw [nodes, List.pairwise_append]
    refine ⟨r.pids.imp_of_mem fun {m n} hm hn lt => ?_, List.pairwise_singleton _ _, ?_⟩
    · rwa [oldPid m hm, oldPid n hn]
    · intro m hm n hn
      rw [List.mem_singleton.mp hn, oldPid m hm, newNode, newPid]
      exact (r.used m hm).2.2.1
  · intro n hn
    rw [unused, pid]
    rcases (split n).mp hn with hn | rfl
    · obtain ⟨pos, lt, pidLt, alloc⟩ := r.used n hn
      rw [oldPid n hn, oldNode n hn]
      exact ⟨pos, by omega, by omega, (oldPCB _ alloc).2⟩
    · rw [newNode, newPid, allocated, Function.update_self]
      have := r.idleNode
      exact ⟨by omega, by omega, by omega, rfl⟩
  · intro p hp
    rw [unused, idle]
    by_cases new : p = k.unused + 1
    · refine ⟨by omega, by unfold NULL; omega, Or.inr ⟨k.unused, (split _).mpr (Or.inr rfl), ?_⟩⟩
      rw [newNode, new]
    · rw [allocated, Function.update_of_ne new] at hp
      obtain ⟨lt, pos, mem⟩ := r.members p hp
      refine ⟨by omega, pos, mem.imp id fun ⟨n, hn, e⟩ => ⟨n, (split n).mpr (Or.inl hn), ?_⟩⟩
      rw [oldNode n hn, e]
  · rw [pid]
    omega
  · rw [idle, pidOf, (oldPCB _ r.idleAllocated).1]
    exact r.idlePid
  · rw [idleNode, unused]
    have := r.idleNode
    omega
  · rw [idle]
    exact (oldPCB _ r.idleAllocated).2

end Adding

end SoTp.Process
