/-
Isolation of the process heaps.

* `Keeps.apart`, `Keeps.live_pairwise` — the payloads of one heap are disjoint.
* `Housed` — the heap of a process, seen through its PCB, and what its
  operations write (`Housed.malloc`, `Housed.free`).
* `Sound` — the invariant of a machine: the global heap is well formed, every
  running process is housed in blocks of its own.
* `process_heaps_isolated` — payloads are disjoint over the whole machine, and
  process-level calls write nothing outside the blocks of their process.
-/

import Mathlib.Data.List.Flatten
import Mathlib.Data.List.Lattice
import Mathlib.Data.List.Nodup
import SoTp.FreeList.Nested

namespace SoTp.FreeList

open SoTp.Lib

/-! ### The payloads of one heap -/

/-- Two payloads, as pointer and size, do not overlap. -/
def Clear (x y : Nat × Nat) : Prop := x.1 + x.2 ≤ y.1 ∨ y.1 + y.2 ≤ x.1

section Payloads

variable {area : Area} {c : Client} {ts : List Block} {p q n m : Nat}

/-- A header lies between two payloads. -/
theorem Keeps.apart (k : Keeps area c ts) (hp : (p, n) ∈ c.live) (hq : (q, m) ∈ c.live)
    (ne : p ≠ q) : p + n + structSize ≤ q ∨ q + m + structSize ≤ p := by
  obtain ⟨b, hb, bn, rfl⟩ := mem_lives.mp (k.holds.mem_iff.mpr hp)
  obtain ⟨d, hd, dm, rfl⟩ := mem_lives.mp (k.holds.mem_iff.mpr hq)
  have room := (k.layout.stamped b hb n bn).room
  have room' := (k.layout.stamped d hd m dm).room
  have apart := tiled_apart k.layout.tiled hb hd fun e => ne (e ▸ rfl)
  unfold payload structSize Tile.stop at *
  omega

theorem Keeps.size_eq (k : Keeps area c ts) (hp : (p, n) ∈ c.live) (hq : (p, m) ∈ c.live) :
    n = m := by
  obtain ⟨b, hb, bn, rfl⟩ := mem_lives.mp (k.holds.mem_iff.mpr hp)
  obtain ⟨d, hd, dm, e⟩ := mem_lives.mp (k.holds.mem_iff.mpr hq)
  have same : b = d := k.layout.block_eq hb hd (by unfold payload at e; omega)
  rw [same, dm] at bn
  exact (Option.some.inj bn).symm

theorem Keeps.live_pairwise (k : Keeps area c ts) : c.live.Pairwise Clear := by
  have symm : ∀ {x y : Nat × Nat}, Clear x y → Clear y x := fun h => h.symm
  refine (k.holds.pairwise_iff symm).mp ?_
  refine List.pairwise_filterMap.mpr ((tiled_pairwise k.layout.tiled).imp_of_mem ?_)
  intro b d hb _ le x hx y hy
  obtain ⟨n, bn, rfl⟩ := Option.map_eq_some_iff.mp hx
  obtain ⟨m, -, rfl⟩ := Option.map_eq_some_iff.mp hy
  have room := (k.layout.stamped b hb n bn).room
  left
  unfold payload structSize Tile.stop at *
  simp only
  omega

/-- A payload lies between its header and the end marker, at an aligned address. -/
theorem Keeps.bounds (k : Keeps area c ts) (hp : (p, n) ∈ c.live) :
    area.alinedHeapStart + structSize ≤ p ∧
      p + n + structSize ≤ area.alinedHeapStart + area.heapSize ∧ 8 ∣ p := by
  obtain ⟨b, hb, bn, rfl⟩ := mem_lives.mp (k.holds.mem_iff.mpr hp)
  have room := (k.layout.stamped b hb n bn).room
  have bounds := tiled_bounds k.layout.tiled hb
  have aligned := tiled_aligned k.layout.tiled (fun d hd => (k.layout.sizes d hd).2) b hb
  have start : 8 ∣ area.alinedHeapStart := alignUp_dvd
  have stop := k.listEnd
  have large := area.large
  unfold payload structSize Tile.stop at *
  omega

/-- The free space of a heap is no part of a payload. -/
theorem Keeps.freeSpace_clear (k : Keeps area c ts) {x : Nat} (hx : FreeSpace c.heap ts x)
    (hp : (p, n) ∈ c.live) : x + structSize ≤ p ∨ p + n ≤ x := by
  obtain ⟨b, hb, bn, rfl⟩ := mem_lives.mp (k.holds.mem_iff.mpr hp)
  have room := (k.layout.stamped b hb n bn).room
  have bounds := tiled_bounds k.layout.tiled hb
  rcases hx with rfl | ⟨d, hd, free, lo, hi⟩
  · have out := k.layout.outside
    unfold payload structSize Tile.stop at *
    omega
  · have apart := tiled_apart k.layout.tiled hb hd fun e => by
      rw [e, free] at bn
      cases bn
    unfold payload structSize Tile.stop at *
    omega

/-- The free space of a heap lies in its area. -/
theorem Keeps.freeSpace_inside (k : Keeps area c ts) {x : Nat} (hx : FreeSpace c.heap ts x) :
    x = c.heap.freeListStart ∨
      area.alinedHeapStart ≤ x ∧ x + structSize ≤ area.alinedHeapStart + area.heapSize := by
  refine hx.imp id fun ⟨d, hd, free, lo, hi⟩ => ?_
  have bounds := tiled_bounds k.layout.tiled hd
  have stop := k.listEnd
  have large := area.large
  unfold structSize Tile.stop at *
  omega

theorem Keeps.congr (k : Keeps area c ts) {mem : Nat → Nat}
    (agree : ∀ a, (c.heap.freeListStart ≤ a ∧ a < c.heap.freeListStart + structSize) ∨
      (area.alinedHeapStart ≤ a ∧ a < area.alinedHeapStart + area.heapSize) →
        mem a = c.heap.mem a) :
    Keeps area ⟨{ c.heap with mem := mem }, c.live⟩ ts where
  layout := k.layout.congr fun x hx => by
    have stop := k.listEnd
    have le := tiled_le k.layout.tiled
    have large := area.large
    unfold structSize at *
    rcases hx with rfl | rfl | ⟨b, hb, rfl⟩
    · exact ⟨agree _ (by omega), agree _ (by omega)⟩
    · exact ⟨agree _ (by omega), agree _ (by omega)⟩
    · have size := (k.layout.sizes b hb).1
      have bounds := tiled_bounds k.layout.tiled hb
      unfold Tile.stop at bounds
      exact ⟨agree _ (by omega), agree _ (by omega)⟩
  listEnd := k.listEnd
  holds := k.holds

/-- `internalMalloc` does not write into payloads, -/
theorem Keeps.malloc_clear (k : Keeps area c ts) {fuel size r a : Nat} {h' : Heap}
    (fits : size + 23 < word) (run : internalMalloc fuel size c.heap = .ok (h', r))
    (hp : (p, n) ∈ c.live) (lo : p ≤ a) (hi : a < p + n) : h'.mem a = c.heap.mem a := by
  refine (malloc_framed k.layout fits run).outside a fun x hx => ?_
  have clear := k.freeSpace_clear hx hp
  unfold structSize at clear
  omega

/-- and `internalFree` only into the one that is returned. -/
theorem Keeps.free_clear (k : Keeps area c ts) {fuel a : Nat} {h' : Heap}
    (hq : (q, m) ∈ c.live) (run : internalFree fuel q c.heap = .ok h')
    (hp : (p, n) ∈ c.live) (ne : p ≠ q) (lo : p ≤ a) (hi : a < p + n) :
    h'.mem a = c.heap.mem a := by
  have live := k.holds.mem_iff.mpr hq
  refine (free_framed k.layout live run).outside a fun x hx => ?_
  rcases hx with hx | hx
  · have clear := k.freeSpace_clear hx hp
    unfold structSize at clear
    omega
  · have apart := k.apart hp hq ne
    unfold structSize at *
    omega

end Payloads

/-! ### The heap of one process -/

/-- The words a process-level `malloc` or `free` may write: inside the heap
block, inside the sentinel, and the counter in the PCB. -/
def Process.Writes (P : Process) (a : Nat) : Prop :=
  (P.heap ≤ a ∧ a + 8 ≤ P.heap + PROCESS_HEAP_SIZE) ∨
    (P.freeListStart ≤ a ∧ a + 8 ≤ P.freeListStart + structSize) ∨
    a = P.pcb + bytesAvailableField

/-- The blocks of a process do not overlap. -/
structure Process.Apart (P : Process) : Prop where
  pcb_heap : Clear (P.pcb, sizeofPCB) (P.heap, PROCESS_HEAP_SIZE)
  pcb_sentinel : Clear (P.pcb, sizeofPCB) (P.freeListStart, structSize)
  heap_sentinel : Clear (P.heap, PROCESS_HEAP_SIZE) (P.freeListStart, structSize)

theorem Process.Writes.owns {P : Process} {a : Nat} (w : P.Writes a) : P.Owns a := by
  unfold Process.Writes at w
  unfold Process.Owns bytesAvailableField freeListStartField sizeofPCB heapField at *
  omega

/-- A process whose PCB describes a well-formed heap in its heap block. -/
structure Housed (mem : Nat → Nat) (P : Process) (area : Area) (ts : List Block) : Prop where
  start : area.alinedHeapStart = P.heap
  size : area.heapSize = PROCESS_HEAP_SIZE
  heap : mem (P.pcb + heapField) = P.heap
  sentinel : mem (P.pcb + freeListStartField) = P.freeListStart
  keeps : Keeps area ⟨processHeap mem P.pcb, P.live⟩ ts

section Housed

variable {mem mem' : Nat → Nat} {P : Process} {area : Area} {ts : List Block}

theorem Housed.congr (h : Housed mem P area ts) (agree : ∀ a, P.Owns a → mem' a = mem a) :
    Housed mem' P area ts := by
  have field : ∀ o, o = heapField ∨ (freeListStartField ≤ o ∧ o < sizeofPCB) →
      mem' (P.pcb + o) = mem (P.pcb + o) := fun o ho => by
    refine agree _ ?_
    unfold Process.Owns heapField freeListStartField sizeofPCB at *
    omega
  have same : processHeap mem' P.pcb = { processHeap mem P.pcb with mem := mem' } := by
    unfold processHeap
    rw [field freeListStartField (by decide), field freeListEndField (by decide),
      field bytesAvailableField (by decide)]
  refine ⟨h.start, h.size, (field _ (by decide)).trans h.heap,
    (field _ (by decide)).trans h.sentinel, ?_⟩
  rw [same]
  refine h.keeps.congr fun a ha => agree a ?_
  have sentinel : (processHeap mem P.pcb).freeListStart = P.freeListStart := h.sentinel
  rw [sentinel, h.start, h.size] at ha
  unfold Process.Owns
  omega

/-- What an operation on the list of the process leaves behind, once its counter
is stored in the PCB. -/
theorem Housed.store (h : Housed mem P area ts) (apart : P.Apart) {S : Nat → Prop} {g : Heap}
    {live : List (Nat × Nat)} {ts' : List Block} (framed : Framed S (processHeap mem P.pcb) g)
    (inside : ∀ x, S x → x = P.freeListStart ∨
      (P.heap ≤ x ∧ x + structSize ≤ P.heap + PROCESS_HEAP_SIZE))
    (keeps : Keeps area ⟨g, live⟩ ts') :
    (∀ a, ¬ P.Writes a →
      Function.update g.mem (P.pcb + bytesAvailableField) g.bytesAvailable a = mem a) ∧
    Housed (Function.update g.mem (P.pcb + bytesAvailableField) g.bytesAvailable)
      { P with live := live } area ts' := by
  obtain ⟨hs, ss, sh⟩ := apart
  have unchanged : ∀ a, ¬ P.Writes a →
      Function.update g.mem (P.pcb + bytesAvailableField) g.bytesAvailable a = mem a := by
    intro a out
    unfold Process.Writes at out
    rw [Function.update_of_ne (by omega)]
    refine framed.outside a fun x hx => ?_
    have := inside x hx
    unfold structSize at *
    omega
  -- The counter's word is the only one of the PCB that changes.
  have field : ∀ o, o = heapField ∨ o = freeListStartField ∨ o = freeListEndField →
      Function.update g.mem (P.pcb + bytesAvailableField) g.bytesAvailable (P.pcb + o) =
        mem (P.pcb + o) := fun o ho => by
    refine unchanged _ ?_
    unfold Clear at hs ss
    unfold Process.Writes heapField freeListStartField freeListEndField bytesAvailableField at *
    unfold sizeofPCB structSize at *
    omega
  have same : processHeap (Function.update g.mem (P.pcb + bytesAvailableField) g.bytesAvailable)
      P.pcb = { g with
        mem := Function.update g.mem (P.pcb + bytesAvailableField) g.bytesAvailable } := by
    unfold processHeap
    rw [field freeListStartField (by decide), field freeListEndField (by decide),
      Function.update_self]
    have start := framed.start
    have stop := framed.stop
    unfold processHeap at start stop
    rw [start, stop]
  refine ⟨unchanged, h.start, h.size, (field _ (by decide)).trans h.heap,
    (field _ (by decide)).trans h.sentinel, ?_⟩
  rw [same]
  refine keeps.congr fun a ha => Function.update_of_ne ?_ _ _
  have sentinel : (processHeap mem P.pcb).freeListStart = P.freeListStart := h.sentinel
  rw [framed.start, sentinel, h.start, h.size] at ha
  unfold Clear at hs ss
  unfold bytesAvailableField
  unfold sizeofPCB structSize at *
  simp only at ha hs ss
  omega

theorem Housed.inside (h : Housed mem P area ts) {x : Nat}
    (hx : FreeSpace (processHeap mem P.pcb) ts x) :
    x = P.freeListStart ∨ (P.heap ≤ x ∧ x + structSize ≤ P.heap + PROCESS_HEAP_SIZE) := by
  have inside := h.keeps.freeSpace_inside hx
  rw [h.start, h.size] at inside
  exact inside.imp_left fun e => e.trans h.sentinel

theorem Housed.malloc (h : Housed mem P area ts) (apart : P.Apart) {fuel size p : Nat}
    (fits : size + 23 ≤ 2 ^ 64 - 1) (run : malloc fuel P.pcb size mem = .ok (mem', p)) :
    (∀ a, ¬ P.Writes a → mem' a = mem a) ∧
      ∃ ts', Housed mem' { P with live := if p = NULL then P.live else (p, size) :: P.live } area
        ts' := by
  obtain ⟨⟨g, q⟩, called, rest⟩ := bind_ok_iff.mp run
  cases rest
  have small : size + 23 < word := by
    unfold word
    omega
  have served : Served ⟨processHeap mem P.pcb, P.live⟩ size := Or.inl (by
    unfold word structSize
    omega)
  obtain ⟨ts', keeps⟩ := h.keeps.step (.malloc (by omega) served called)
  obtain ⟨unchanged, housed⟩ := h.store apart (malloc_framed h.keeps.layout small called)
    (fun x hx => h.inside hx) keeps
  exact ⟨unchanged, ts', housed⟩

theorem Housed.free (h : Housed mem P area ts) (apart : P.Apart) {fuel p n : Nat}
    (live : (p, n) ∈ P.live) (run : free fuel P.pcb p mem = .ok mem') :
    (∀ a, ¬ P.Writes a → mem' a = mem a) ∧
      ∃ ts', Housed mem' { P with live := P.live.erase (p, n) } area ts' := by
  have bounds := h.keeps.bounds live
  rw [h.start, h.size] at bounds
  have ne : p ≠ NULL := by
    unfold NULL structSize at *
    omega
  have ranged : ¬ (p < mem (P.pcb + heapField) ∨
      p ≥ mem (P.pcb + heapField) + PROCESS_HEAP_SIZE) := by
    rw [h.heap]
    unfold structSize at bounds
    omega
  rw [SoTp.FreeList.free, if_neg ne, if_neg ranged] at run
  obtain ⟨g, called, rest⟩ := bind_ok_iff.mp run
  cases rest
  obtain ⟨ts', keeps⟩ := h.keeps.step (.free live called)
  have live' := h.keeps.holds.mem_iff.mpr live
  obtain ⟨unchanged, housed⟩ := h.store apart (free_framed h.keeps.layout live' called)
    (fun x hx => by
      rcases hx with hx | hx
      · exact h.inside hx
      · unfold structSize at *
        omega) keeps
  exact ⟨unchanged, ts', housed⟩

/-- `internalFreeListInit` writes the sentinel and two headers of the area. -/
theorem Area.init_framed (area : Area) (mem : Nat → Nat) :
    Framed (fun x => x = area.freeListStart ∨ x = area.alinedHeapStart ∨
        x = area.alinedHeapStart + area.heapSize - structSize)
      ⟨mem, area.freeListStart, area.alinedHeapStart + area.heapSize - structSize, 0⟩
      (area.init mem) := by
  unfold Area.init internalFreeListInit
  refine .trans ?_ .setBytesAvailable
  refine .trans ?_ (.setNextFreeBlock (Or.inr (Or.inl rfl)))
  refine .trans ?_ (.setBlockSize (Or.inr (Or.inl rfl)))
  refine .trans ?_ (.setNextFreeBlock (Or.inr (Or.inr rfl)))
  refine .trans ?_ (.setBlockSize (Or.inr (Or.inr rfl)))
  exact (Framed.setNextFreeBlock (Or.inl rfl)).trans (.setBlockSize (Or.inl rfl))

/-- A fresh process is housed in its blocks. -/
theorem initProcessHeap_housed (mem : Nat → Nat) (apart : P.Apart)
    (aligned : alignUp P.heap = P.heap) (fresh : P.live = []) :
    (∀ a, ¬ P.Owns a → initProcessHeap P.pcb P.heap P.freeListStart mem a = mem a) ∧
      ∃ area ts, Housed (initProcessHeap P.pcb P.heap P.freeListStart mem) P area ts := by
  obtain ⟨hs, ss, sh⟩ := apart
  unfold Clear at hs ss sh
  have sizes : PROCESS_HEAP_SIZE = 65536 ∧ sizeofPCB = 208 ∧ structSize = 16 := by decide
  obtain ⟨heapSize, pcbSize, blockSize⟩ := sizes
  rw [heapSize, pcbSize] at hs
  rw [pcbSize, blockSize] at ss
  rw [heapSize, blockSize] at sh
  simp only at hs ss sh
  let area : Area :=
    { heapStart := P.heap
      heapSize := PROCESS_HEAP_SIZE
      freeListStart := P.freeListStart
      multiple := by decide
      large := by decide
      uint32 := by decide
      outside := by
        rw [aligned, heapSize, blockSize]
        omega }
  have start : area.alinedHeapStart = P.heap := aligned
  let named := Function.update (Function.update mem (P.pcb + heapField) P.heap)
    (P.pcb + freeListStartField) P.freeListStart
  let h := area.init named
  have framed := area.init_framed named
  rw [start] at framed
  have offsets : heapField = 168 ∧ freeListStartField = 184 ∧ freeListEndField = 192 ∧
      bytesAvailableField = 200 := by decide
  obtain ⟨o₁, o₂, o₃, o₄⟩ := offsets
  have written : initProcessHeap P.pcb P.heap P.freeListStart mem =
      Function.update (Function.update h.mem (P.pcb + freeListEndField) h.freeListEnd)
        (P.pcb + bytesAvailableField) h.bytesAvailable := rfl
  have outside : ∀ a, (a < P.heap ∨ P.heap + 65536 ≤ a) →
      (a < P.freeListStart ∨ P.freeListStart + 16 ≤ a) → h.mem a = named a := by
    intro a hheap hsentinel
    refine framed.outside a fun x hx => ?_
    change x = P.freeListStart ∨ x = P.heap ∨ x = P.heap + PROCESS_HEAP_SIZE - structSize at hx
    rw [heapSize, blockSize] at hx
    omega
  rw [written]
  constructor
  · intro a out
    unfold Process.Owns at out
    rw [heapSize, blockSize, pcbSize, o₁, o₂] at out
    rw [o₃, o₄, Function.update_of_ne (by omega), Function.update_of_ne (by omega),
      outside a (by omega) (by omega)]
    exact (Function.update_of_ne (by omega) _ _).trans (Function.update_of_ne (by omega) _ _)
  · have keeps : Keeps area ⟨h, P.live⟩ [area.whole] :=
      ⟨area.init_layout named, rfl, by simp [lives, Area.whole, fresh]⟩
    have same : processHeap (Function.update (Function.update h.mem (P.pcb + freeListEndField)
        h.freeListEnd) (P.pcb + bytesAvailableField) h.bytesAvailable) P.pcb =
          { h with mem := Function.update (Function.update h.mem (P.pcb + freeListEndField)
              h.freeListEnd) (P.pcb + bytesAvailableField) h.bytesAvailable } := by
      unfold processHeap
      rw [Function.update_self, o₂, o₃, o₄, Function.update_of_ne (by omega),
        Function.update_of_ne (by omega), Function.update_of_ne (by omega), Function.update_self,
        outside _ (by omega) (by omega)]
      congr 1
      exact (congrArg _ (by rw [o₂])).trans (Function.update_self _ _ _)
    refine ⟨area, [area.whole], start, rfl, ?_, ?_, ?_⟩
    · rw [o₁, o₃, o₄, Function.update_of_ne (by omega), Function.update_of_ne (by omega),
        outside _ (by omega) (by omega)]
      refine (Function.update_of_ne (by rw [o₂]; omega) _ _).trans ?_
      exact (congrArg _ (by rw [o₁])).trans (Function.update_self _ _ _)
    · rw [o₂, o₃, o₄, Function.update_of_ne (by omega), Function.update_of_ne (by omega),
        outside _ (by omega) (by omega)]
      exact (congrArg _ (by rw [o₂])).trans (Function.update_self _ _ _)
    · rw [same]
      refine keeps.congr fun a ha => ?_
      have sentinel : h.freeListStart = P.freeListStart := rfl
      have size : area.heapSize = 65536 := heapSize
      rw [sentinel, start, size, blockSize] at ha
      rw [o₃, o₄, Function.update_of_ne (by omega), Function.update_of_ne (by omega)]

end Housed

/-! ### The invariant of a machine -/

/-- The global heap is well formed, and the three blocks of a running process
are payloads of it that no other process uses. -/
structure Placed (boot : Boot) (s : Machine) : Prop where
  global : ∃ ts, Keeps boot.area s.client ts
  allocated : ∀ P ∈ s.processes, (P.pcb, sizeofPCB) ∈ s.kernel ∧
    (P.heap, PROCESS_HEAP_SIZE) ∈ s.kernel ∧ (P.freeListStart, structSize) ∈ s.kernel
  distinct : (s.processes.flatMap Process.blocks).Nodup

/-- And every process is housed in its blocks. -/
structure Sound (boot : Boot) (s : Machine) : Prop extends Placed boot s where
  housed : ∀ P ∈ s.processes, ∃ area ts, Housed s.mem P area ts

section Sound

variable {boot : Boot} {s : Machine} {P Q : Process}

theorem Placed.same_process (k : Placed boot s) (hP : P ∈ s.processes) (hQ : Q ∈ s.processes)
    {p : Nat} (pP : p ∈ P.blocks) (pQ : p ∈ Q.blocks) : P = Q := by
  by_contra ne
  have apart := (List.nodup_flatMap.mp k.distinct).2
  have symm : Std.Symm (Function.onFun List.Disjoint Process.blocks) :=
    ⟨fun _ _ h => List.Disjoint.symm h⟩
  exact apart.forall hP hQ ne pP pQ

/-- Two payloads of the kernel that share an address start at the same one. -/
theorem Placed.same_payload (k : Placed boot s) {p q n m a : Nat} (hp : (p, n) ∈ s.kernel)
    (hq : (q, m) ∈ s.kernel) (inp : p ≤ a ∧ a < p + n) (inq : q ≤ a ∧ a < q + m) : p = q := by
  by_contra ne
  obtain ⟨ts, keeps⟩ := k.global
  have apart := keeps.apart hp hq ne
  omega

theorem Placed.apart (k : Placed boot s) (hP : P ∈ s.processes) : P.Apart := by
  obtain ⟨ts, keeps⟩ := k.global
  obtain ⟨pcb, heap, sentinel⟩ := k.allocated P hP
  have nodup := (List.nodup_flatMap.mp k.distinct).1 P hP
  simp only [Process.blocks, List.nodup_cons, List.mem_cons, List.not_mem_nil, or_false, not_or]
    at nodup
  have hs := keeps.apart pcb heap nodup.1.1
  have ss := keeps.apart pcb sentinel nodup.1.2
  have sh := keeps.apart heap sentinel nodup.2.1
  exact ⟨by unfold Clear; omega, by unfold Clear; omega, by unfold Clear; omega⟩

/-- What a process owns is part of its blocks. -/
theorem Placed.owned (k : Placed boot s) (hP : P ∈ s.processes) {a : Nat} (owns : P.Owns a) :
    ∃ p n, (p, n) ∈ s.kernel ∧ p ∈ P.blocks ∧ p ≤ a ∧ a < p + n := by
  obtain ⟨pcb, heap, sentinel⟩ := k.allocated P hP
  unfold Process.Owns at owns
  have offsets : heapField = 168 ∧ freeListStartField = 184 ∧ sizeofPCB = 208 := by decide
  rcases owns with owns | owns | owns
  · exact ⟨_, _, heap, by simp [Process.blocks], owns⟩
  · exact ⟨_, _, sentinel, by simp [Process.blocks], owns⟩
  · exact ⟨_, _, pcb, by simp [Process.blocks], by omega⟩

theorem Placed.owner (k : Placed boot s) (hP : P ∈ s.processes) (hQ : Q ∈ s.processes) {a : Nat}
    (ownsP : P.Owns a) (ownsQ : Q.Owns a) : P = Q := by
  obtain ⟨p, n, hp, pP, inp⟩ := k.owned hP ownsP
  obtain ⟨q, m, hq, qQ, inq⟩ := k.owned hQ ownsQ
  obtain rfl := k.same_payload hp hq inp inq
  exact k.same_process hP hQ pP qQ

/-- Writes into payloads of the kernel keep the global heap. -/
theorem Placed.write (k : Placed boot s) {mem : Nat → Nat}
    (inside : ∀ a, mem a ≠ s.mem a → ∃ p n, (p, n) ∈ s.kernel ∧ p ≤ a ∧ a < p + n) :
    ∃ ts, Keeps boot.area ⟨{ s.globalHeap with mem := mem }, s.kernel⟩ ts := by
  obtain ⟨ts, keeps⟩ := k.global
  refine ⟨ts, keeps.write fun a outside => ?_⟩
  by_contra changed
  obtain ⟨p, n, hp, inp⟩ := inside a changed
  exact outside p n hp inp

/-- A call on the global list that leaves the payloads of the processes alone. -/
theorem Sound.call (k : Sound boot s) {h : Heap} {S : Nat → Prop} {kernel : List (Nat × Nat)}
    {ts : List Block} (framed : Framed S s.globalHeap h) (keeps : Keeps boot.area ⟨h, kernel⟩ ts)
    (kept : ∀ P ∈ s.processes, ∀ p n, p ∈ P.blocks → (p, n) ∈ s.kernel →
      (p, n) ∈ kernel ∧ ∀ a, p ≤ a → a < p + n → h.mem a = s.mem a) :
    Sound boot { s.setGlobalHeap h with kernel := kernel } where
  global := by
    have same : (Machine.client { s.setGlobalHeap h with kernel := kernel }).heap = h := by
      have start : h.freeListStart = s.listStart := framed.start
      have stop : h.freeListEnd = s.listEnd := framed.stop
      cases h
      cases start
      cases stop
      rfl
    exact ⟨ts, show Keeps boot.area ⟨_, kernel⟩ ts from same ▸ keeps⟩
  allocated P hP := by
    obtain ⟨pcb, heap, sentinel⟩ := k.allocated P hP
    exact ⟨(kept P hP _ _ (by simp [Process.blocks]) pcb).1,
      (kept P hP _ _ (by simp [Process.blocks]) heap).1,
      (kept P hP _ _ (by simp [Process.blocks]) sentinel).1⟩
  distinct := k.distinct
  housed P hP := by
    obtain ⟨area, ts, housed⟩ := k.housed P hP
    refine ⟨area, ts, housed.congr fun a owns => ?_⟩
    obtain ⟨p, n, hp, pP, lo, hi⟩ := k.owned hP owns
    exact (kept P hP p n pP hp).2 a lo hi

theorem Sound.globalMalloc (k : Sound boot s) {fuel size p : Nat} {h : Heap}
    (fits : size + 23 ≤ 2 ^ 64 - 1) (run : internalMalloc fuel size s.globalHeap = .ok (h, p)) :
    Sound boot { s.setGlobalHeap h with
      kernel := if p = NULL then s.kernel else (p, size) :: s.kernel } := by
  obtain ⟨ts, keeps⟩ := k.global
  have small : size + 23 < word := by
    unfold word
    omega
  have served : Served s.client size := Or.inl (by
    unfold word structSize
    omega)
  obtain ⟨ts', keeps'⟩ := keeps.step (.malloc (by omega) served run)
  refine k.call (internalMalloc_ends run) keeps' fun P _ q n _ hq => ⟨?_, fun a lo hi => ?_⟩
  · split_ifs
    · exact hq
    · exact List.mem_cons_of_mem _ hq
  · exact keeps.malloc_clear small run hq lo hi

theorem Sound.globalFree (k : Sound boot s) {fuel p n : Nat} {h : Heap} (live : (p, n) ∈ s.kernel)
    (unused : p ∉ s.processes.flatMap Process.blocks)
    (run : internalFree fuel p s.globalHeap = .ok h) :
    Sound boot { s.setGlobalHeap h with kernel := s.kernel.erase (p, n) } := by
  obtain ⟨ts, keeps⟩ := k.global
  obtain ⟨ts', keeps'⟩ := keeps.step (.free live run)
  refine k.call (internalFree_ends run) keeps' fun P hP q m qP hq => ?_
  have ne : q ≠ p := fun e => unused (List.mem_flatMap.mpr ⟨P, hP, e ▸ qP⟩)
  refine ⟨(List.mem_erase_of_ne fun e => ne (Prod.ext_iff.mp e).1).mpr hq, fun a lo hi => ?_⟩
  exact keeps.free_clear live run hq ne lo hi

theorem mem_setLive {live : List (Nat × Nat)} {pcb : Nat} :
    Q ∈ (s.setLive pcb live).processes ↔
      ∃ R ∈ s.processes, (if R.pcb = pcb then { R with live := live } else R) = Q :=
  List.mem_map

/-- A call on the list of one process. -/
theorem Sound.processCall (k : Sound boot s) (hP : P ∈ s.processes) {mem : Nat → Nat}
    {live : List (Nat × Nat)} (unchanged : ∀ a, ¬ P.Writes a → mem a = s.mem a)
    (housed : ∃ ts area, Housed mem { P with live := live } area ts) :
    Sound boot (Machine.setLive { s with mem := mem } P.pcb live) where
  global := by
    refine k.write fun a changed => ?_
    have owns : P.Owns a := Process.Writes.owns (not_not.mp fun out => changed (unchanged a out))
    obtain ⟨p, n, hp, -, inp⟩ := k.owned hP owns
    exact ⟨p, n, hp, inp⟩
  allocated Q hQ := by
    obtain ⟨R, hR, rfl⟩ := mem_setLive.mp hQ
    have allocated := k.allocated R hR
    split_ifs
    · exact allocated
    · exact allocated
  distinct := by
    have same : ((Machine.setLive { s with mem := mem } P.pcb live).processes).flatMap
        Process.blocks = s.processes.flatMap Process.blocks := by
      unfold Machine.setLive
      rw [List.flatMap_map]
      refine List.flatMap_congr fun R _ => ?_
      split_ifs
      · rfl
      · rfl
    rw [same]
    exact k.distinct
  housed Q hQ := by
    obtain ⟨R, hR, rfl⟩ := mem_setLive.mp hQ
    split_ifs with self
    · obtain rfl := k.same_process hR hP (p := P.pcb) (by simp [Process.blocks, ← self])
        (by simp [Process.blocks])
      obtain ⟨ts, area, h⟩ := housed
      exact ⟨area, ts, h⟩
    · obtain ⟨area, ts, h⟩ := k.housed R hR
      refine ⟨area, ts, h.congr fun a owns => unchanged a fun writes => ?_⟩
      exact self (congrArg Process.pcb (k.owner hR hP owns writes.owns))

theorem Placed.aligned (k : Placed boot s) {p n : Nat} (hp : (p, n) ∈ s.kernel) :
    alignUp p = p := by
  obtain ⟨ts, keeps⟩ := k.global
  obtain ⟨lo, hi, dvd⟩ := keeps.bounds hp
  have room := boot.room
  have start : boot.area.alinedHeapStart ≤ boot.endOfModules + 7 := by
    change alignUp boot.endOfModules ≤ _
    rw [alignUp_eq]
    have := Nat.mod_le (boot.endOfModules + 7) word
    omega
  have size : boot.area.heapSize = MAX_MEMORY_AVAILABLE := rfl
  have small : p + 7 < word := by
    unfold structSize at hi
    omega
  rw [alignUp_eq, Nat.mod_eq_of_lt small]
  omega

theorem Sound.start (k : Sound boot s) (allowed : Allowed s (.start P)) :
    Sound boot { s with
      mem := initProcessHeap P.pcb P.heap P.freeListStart s.mem
      processes := P :: s.processes } := by
  obtain ⟨pcb, heap, sentinel, fresh, distinct⟩ := allowed
  -- The machine with the process, before its heap is set up.
  have placed : Placed boot { s with processes := P :: s.processes } :=
    ⟨k.global, List.forall_mem_cons.mpr ⟨⟨pcb, heap, sentinel⟩, k.allocated⟩, distinct⟩
  obtain ⟨unchanged, housed⟩ := initProcessHeap_housed s.mem (placed.apart List.mem_cons_self)
    (k.aligned heap) fresh
  refine { toPlaced := ⟨placed.write fun a changed => ?_, placed.allocated, distinct⟩, housed := ?_ }
  · have owns : P.Owns a := not_not.mp fun out => changed (unchanged a out)
    obtain ⟨p, n, hp, -, inp⟩ := placed.owned List.mem_cons_self owns
    exact ⟨p, n, hp, inp⟩
  · refine List.forall_mem_cons.mpr ⟨housed, fun Q hQ => ?_⟩
    obtain ⟨area, ts, h⟩ := k.housed Q hQ
    refine ⟨area, ts, h.congr fun a owns => unchanged a fun ownsP => ?_⟩
    have same := placed.owner (List.mem_cons_of_mem P hQ) List.mem_cons_self owns ownsP
    have fresh := (List.nodup_append.mp distinct).2.2 Q.pcb
    exact fresh (by simp [same, Process.blocks]) Q.pcb
      (List.mem_flatMap.mpr ⟨Q, hQ, by simp [Process.blocks]⟩) rfl

theorem Sound.stop (k : Sound boot s) :
    Sound boot { s with processes := s.processes.filter fun Q => Q.pcb ≠ P.pcb } where
  global := k.global
  allocated Q hQ := k.allocated Q (List.mem_filter.mp hQ).1
  distinct := k.distinct.sublist (List.filter_sublist.flatMap Process.blocks)
  housed Q hQ := k.housed Q (List.mem_filter.mp hQ).1

/-- Writes of the kernel and the processes into their payloads. -/
theorem Sound.clientWrite (k : Sound boot s) {mem : Nat → Nat} (allowed : Allowed s (.write mem)) :
    Sound boot { s with mem := mem } where
  global := by
    refine k.toPlaced.write fun a changed => ?_
    rcases allowed a changed with ⟨P, hP, p, n, live, lo, hi⟩ | ⟨inside, -⟩
    · obtain ⟨area, ts, h⟩ := k.housed P hP
      have bounds := h.keeps.bounds live
      rw [h.start, h.size] at bounds
      exact ⟨P.heap, PROCESS_HEAP_SIZE, (k.allocated P hP).2.1, by omega, by omega⟩
    · exact inside
  allocated := k.allocated
  distinct := k.distinct
  housed P hP := by
    obtain ⟨area, ts, h⟩ := k.housed P hP
    -- First the writes into the payloads of this process alone.
    classical
    let own : Nat → Nat := fun a =>
      if ∃ p n, (p, n) ∈ P.live ∧ p ≤ a ∧ a < p + n then mem a else s.mem a
    have kept : Housed own P area ts := by
      have outside : ∀ a, (∀ p n, (p, n) ∈ P.live → ¬ (p ≤ a ∧ a < p + n)) → own a = s.mem a :=
        fun a out => if_neg fun ⟨p, n, live, inp⟩ => out p n live inp
      have clear : ∀ a, P.pcb ≤ a → a < P.pcb + sizeofPCB → own a = s.mem a := by
        intro a lo hi
        refine outside a fun p n live inp => ?_
        have bounds := h.keeps.bounds live
        rw [h.start, h.size] at bounds
        have apart := (k.apart hP).pcb_heap
        unfold Clear at apart
        simp only at apart
        omega
      have field : ∀ o, o < sizeofPCB → own (P.pcb + o) = s.mem (P.pcb + o) :=
        fun o lt => clear _ (Nat.le_add_right _ _) (by omega)
      refine ⟨h.start, h.size, (field _ (by decide)).trans h.heap,
        (field _ (by decide)).trans h.sentinel, ?_⟩
      have same : processHeap own P.pcb = { processHeap s.mem P.pcb with mem := own } := by
        unfold processHeap
        rw [field freeListStartField (by decide), field freeListEndField (by decide),
          field bytesAvailableField (by decide)]
      rw [same]
      exact h.keeps.write outside
    refine ⟨area, ts, kept.congr fun a owns => ?_⟩
    by_cases mine : ∃ p n, (p, n) ∈ P.live ∧ p ≤ a ∧ a < p + n
    · exact (if_pos mine).symm
    · refine Eq.trans ?_ (if_neg mine).symm
      by_contra changed
      rcases allowed a changed with ⟨Q, hQ, q, n, live, lo, hi⟩ | ⟨-, unowned⟩
      · obtain ⟨areaQ, tsQ, hq⟩ := k.housed Q hQ
        have bounds := hq.keeps.bounds live
        rw [hq.start, hq.size] at bounds
        have ownsQ : Q.Owns a := Or.inl (by omega)
        obtain rfl := k.owner hP hQ owns ownsQ
        exact mine ⟨q, n, live, lo, hi⟩
      · exact unowned P hP owns

theorem Sound.step {s' : Machine} (k : Sound boot s) (step : s.Step s') : Sound boot s' := by
  obtain ⟨op, fuel, allowed, run⟩ := step
  cases op with
  | globalMalloc size =>
      obtain ⟨⟨h, p⟩, called, rest⟩ := bind_ok_iff.mp run
      cases rest
      exact k.globalMalloc allowed called
  | globalFree p n =>
      obtain ⟨h, called, rest⟩ := bind_ok_iff.mp run
      cases rest
      exact k.globalFree allowed.1 allowed.2 called
  | start P =>
      cases run
      exact k.start allowed
  | stop P =>
      cases run
      exact k.stop
  | malloc P size =>
      obtain ⟨⟨mem, p⟩, called, rest⟩ := bind_ok_iff.mp run
      cases rest
      obtain ⟨area, ts, h⟩ := k.housed P allowed.1
      obtain ⟨unchanged, ts', housed⟩ := h.malloc (k.apart allowed.1) allowed.2 called
      exact k.processCall allowed.1 unchanged ⟨ts', area, housed⟩
  | free P p n =>
      obtain ⟨mem, called, rest⟩ := bind_ok_iff.mp run
      cases rest
      obtain ⟨area, ts, h⟩ := k.housed P allowed.1
      obtain ⟨unchanged, ts', housed⟩ := h.free (k.apart allowed.1) allowed.2 called
      exact k.processCall allowed.1 unchanged ⟨ts', area, housed⟩
  | write mem =>
      cases run
      exact k.clientWrite allowed

/-- The statics after `internalFreeListInit` are those of the heap it returns. -/
theorem internalFreeListInit_eta {mem : Nat → Nat} {heapStart heapSize freeListStart : Nat} :
    (⟨(internalFreeListInit mem heapStart heapSize freeListStart).mem, freeListStart,
      (internalFreeListInit mem heapStart heapSize freeListStart).freeListEnd,
      (internalFreeListInit mem heapStart heapSize freeListStart).bytesAvailable⟩ : Heap) =
        internalFreeListInit mem heapStart heapSize freeListStart := rfl

theorem memoryInit_client {mem : Nat → Nat} :
    (Machine.memoryInit boot mem).client = ⟨boot.area.init mem, []⟩ :=
  congrArg (Client.mk · []) internalFreeListInit_eta

theorem Machine.Reach.sound (reach : s.Reach boot) : Sound boot s := by
  obtain ⟨mem, run⟩ := reach
  induction run with
  | refl =>
      exact { global := ⟨[boot.area.whole], memoryInit_client ▸ boot.area.init_keeps mem⟩
              allocated := fun P hP => absurd hP List.not_mem_nil
              distinct := List.nodup_nil
              housed := fun P hP => absurd hP List.not_mem_nil }
  | tail _ step ih => exact ih.step step

/-- The payloads of a machine: those of the kernel are disjoint, a process heap
being one of them, and those of a process lie in its heap. -/
structure Isolated (s : Machine) : Prop where
  kernel : s.kernel.Pairwise Clear
  blocks : ∀ P ∈ s.processes, (P.pcb, sizeofPCB) ∈ s.kernel ∧
    (P.heap, PROCESS_HEAP_SIZE) ∈ s.kernel ∧ (P.freeListStart, structSize) ∈ s.kernel
  inside : ∀ P ∈ s.processes, ∀ p n, (p, n) ∈ P.live →
    P.heap ≤ p ∧ p + n ≤ P.heap + PROCESS_HEAP_SIZE
  /-- Over all processes. -/
  processes : (s.processes.flatMap Process.live).Pairwise Clear
  /-- Between a process and the kernel. -/
  between : ∀ P ∈ s.processes, ∀ x ∈ P.live, ∀ y ∈ s.kernel,
    y ≠ (P.heap, PROCESS_HEAP_SIZE) → Clear x y

theorem Sound.inside (k : Sound boot s) (hP : P ∈ s.processes) {p n : Nat}
    (live : (p, n) ∈ P.live) : P.heap ≤ p ∧ p + n ≤ P.heap + PROCESS_HEAP_SIZE := by
  obtain ⟨area, ts, h⟩ := k.housed P hP
  have bounds := h.keeps.bounds live
  rw [h.start, h.size] at bounds
  omega

theorem Sound.isolated (k : Sound boot s) : Isolated s where
  kernel := by
    obtain ⟨ts, keeps⟩ := k.global
    exact keeps.live_pairwise
  blocks := k.allocated
  inside P hP p n live := k.inside hP live
  processes := by
    refine List.pairwise_flatMap.mpr ⟨fun P hP => ?_, ?_⟩
    · obtain ⟨area, ts, h⟩ := k.housed P hP
      exact h.keeps.live_pairwise
    · refine ((List.nodup_flatMap.mp k.distinct).2).imp_of_mem fun {P Q} hP hQ apart => ?_
      rintro ⟨p, n⟩ hp ⟨q, m⟩ hq
      have inP := k.inside hP hp
      have inQ := k.inside hQ hq
      obtain ⟨ts, keeps⟩ := k.global
      have ne : P.heap ≠ Q.heap := fun e =>
        apart (a := P.heap) (by simp [Process.blocks]) (by simp [Process.blocks, e])
      have heaps := keeps.apart (k.allocated P hP).2.1 (k.allocated Q hQ).2.1 ne
      unfold Clear
      simp only
      omega
  between P hP x hx y hy ne := by
    obtain ⟨p, n⟩ := x
    obtain ⟨q, m⟩ := y
    have inP := k.inside hP hx
    obtain ⟨ts, keeps⟩ := k.global
    have heap := (k.allocated P hP).2.1
    have other : q ≠ P.heap := fun e => by
      subst e
      exact ne (by rw [keeps.size_eq hy heap])
    have apart := keeps.apart hy heap other
    unfold Clear
    simp only
    omega

/-- In every machine an interleaving can reach, all payloads are disjoint, and a
call of `malloc` or `free` by a process changes nothing outside of its heap
block, its sentinel and the counter in its PCB. -/
theorem process_heaps_isolated (reach : s.Reach boot) :
    Isolated s ∧
      (∀ P ∈ s.processes, ∀ fuel size mem p, size + 23 ≤ 2 ^ 64 - 1 →
        malloc fuel P.pcb size s.mem = .ok (mem, p) → ∀ a, mem a ≠ s.mem a → P.Writes a) ∧
      ∀ P ∈ s.processes, ∀ fuel p n mem, (p, n) ∈ P.live →
        free fuel P.pcb p s.mem = .ok mem → ∀ a, mem a ≠ s.mem a → P.Writes a := by
  have k := reach.sound
  refine ⟨k.isolated, fun P hP fuel size mem p fits run a changed => ?_,
    fun P hP fuel p n mem live run a changed => ?_⟩
  · obtain ⟨area, ts, h⟩ := k.housed P hP
    have unchanged := (h.malloc (k.apart hP) fits run).1
    exact not_not.mp fun out => changed (unchanged a out)
  · obtain ⟨area, ts, h⟩ := k.housed P hP
    have unchanged := (h.free (k.apart hP) live run).1
    exact not_not.mp fun out => changed (unchanged a out)

end Sound

/-! ### A machine with one process -/

def smallBoot : Boot where
  endOfModules := 0x600000
  listStart := 0x1000
  room := by decide
  outside := by decide

/-- The process made of the first three blocks of the global heap. -/
def firstProcess : Process := ⟨0x600010, 0x6000f0, 0x610100, []⟩

/-- The allocations of its three blocks. -/
def firstBlocks : Exec Machine := do
  let s ← exec 3 (Machine.memoryInit smallBoot fun _ => 0) (.globalMalloc sizeofPCB)
  let s ← exec 3 s (.globalMalloc PROCESS_HEAP_SIZE)
  exec 3 s (.globalMalloc structSize)

/-- The memory once the process runs. -/
def firstMem (s : Machine) : Nat → Nat :=
  initProcessHeap firstProcess.pcb firstProcess.heap firstProcess.freeListStart s.mem

theorem firstBlocks_kernel :
    firstBlocks.map (fun s => (s.kernel, s.processes.length,
      (malloc 3 firstProcess.pcb 8 (firstMem s)).toOption.map fun r =>
        (firstMem s (firstProcess.pcb + bytesAvailableField),
          r.1 (firstProcess.pcb + bytesAvailableField)))) =
      .ok ([(0x610100, structSize), (0x6000f0, PROCESS_HEAP_SIZE), (0x600010, sizeofPCB)], 0,
        some (65520, 65496)) := by
  decide +kernel

theorem reach_firstProcess :
    ∃ s : Machine, s.Reach smallBoot ∧ s.processes = [firstProcess] ∧
      ∃ mem p, malloc 3 firstProcess.pcb 8 s.mem = .ok (mem, p) ∧
        s.mem (firstProcess.pcb + bytesAvailableField) = 65520 ∧
        mem (firstProcess.pcb + bytesAvailableField) = 65496 := by
  obtain ⟨s, run, computed⟩ := map_ok_iff.mp firstBlocks_kernel
  simp only [Prod.mk.injEq] at computed
  obtain ⟨kernel, idle, called⟩ := computed
  have idle : s.processes = [] := List.length_eq_zero_iff.mp idle
  obtain ⟨s₁, first, run⟩ := bind_ok_iff.mp run
  obtain ⟨s₂, second, third⟩ := bind_ok_iff.mp run
  have allowed : Allowed s (.start firstProcess) := by
    refine ⟨?_, ?_, ?_, rfl, ?_⟩
    · rw [kernel]
      decide
    · rw [kernel]
      decide
    · rw [kernel]
      decide
    · rw [idle]
      decide
  refine ⟨{ s with mem := firstMem s, processes := firstProcess :: s.processes },
    ⟨fun _ => 0, ?_⟩, by rw [idle], ?_⟩
  · have reach := Relation.ReflTransGen.single (r := Machine.Step)
      ⟨.globalMalloc sizeofPCB, 3, show sizeofPCB + 23 ≤ 2 ^ 64 - 1 by decide, first⟩
    have reach := reach.tail
      ⟨.globalMalloc PROCESS_HEAP_SIZE, 3, show PROCESS_HEAP_SIZE + 23 ≤ 2 ^ 64 -
        1 by decide, second⟩
    have reach := reach.tail
      ⟨.globalMalloc structSize, 3, show structSize + 23 ≤ 2 ^ 64 - 1 by decide, third⟩
    exact reach.tail ⟨.start firstProcess, 3, allowed, rfl⟩
  · cases result : malloc 3 firstProcess.pcb 8 (firstMem s) with
    | error e =>
        rw [result] at called
        cases called
    | ok r =>
        rw [result] at called
        simp only [Except.toOption, Option.map_some, Option.some.injEq, Prod.mk.injEq] at called
        exact ⟨r.1, r.2, rfl, called⟩

/-- The counter is written as well, and it is in neither of the two blocks. -/
theorem malloc_writes_counter :
    ∃ s : Machine, s.Reach smallBoot ∧ firstProcess ∈ s.processes ∧
      ∃ mem p, malloc 3 firstProcess.pcb 8 s.mem = .ok (mem, p) ∧
        ∃ a, mem a ≠ s.mem a ∧
          ¬ (firstProcess.heap ≤ a ∧ a < firstProcess.heap + PROCESS_HEAP_SIZE) ∧
          ¬ (firstProcess.freeListStart ≤ a ∧ a < firstProcess.freeListStart + structSize) := by
  obtain ⟨s, reach, processes, mem, p, run, before, after⟩ := reach_firstProcess
  refine ⟨s, reach, by simp [processes], mem, p, run,
    firstProcess.pcb + bytesAvailableField, ?_, by decide, by decide⟩
  rw [before, after]
  decide

/-! ### A machine with two processes -/

deriving instance DecidableEq for Process

/-- What the callers promise, checked; writes into payloads are not. -/
def called (s : Machine) : Op → Bool
  | .globalMalloc size => size + 23 ≤ 2 ^ 64 - 1
  | .globalFree p n =>
      s.kernel.contains (p, n) && !(s.processes.flatMap Process.blocks).contains p
  | .start P => s.kernel.contains (P.pcb, sizeofPCB) &&
      s.kernel.contains (P.heap, PROCESS_HEAP_SIZE) &&
      s.kernel.contains (P.freeListStart, structSize) && P.live == [] &&
      decide ((P :: s.processes).flatMap Process.blocks).Nodup
  | .stop P => s.processes.contains P
  | .malloc P size => s.processes.contains P && decide (size + 23 ≤ 2 ^ 64 - 1)
  | .free P p n => s.processes.contains P && P.live.contains (p, n)
  | .write _ => false

theorem allowed_of_called {s : Machine} {op : Op} (promised : called s op = true) : Allowed s op := by
  cases op <;> simp only [called, Bool.and_eq_true, decide_eq_true_eq, List.contains_iff_mem,
    Bool.not_eq_true', beq_iff_eq, Bool.false_eq_true] at promised
  case start => simpa only [Allowed, and_assoc] using promised
  case globalFree => exact ⟨promised.1, fun mem => by simp [mem] at promised⟩
  all_goals exact promised

def Machine.perform (fuel : Nat) (s : Machine) (op : Op) : Option Machine :=
  if called s op then (exec fuel s op).toOption else none

theorem Machine.perform_step {fuel : Nat} {s s' : Machine} {op : Op}
    (run : s.perform fuel op = some s') : s.Step s' := by
  unfold Machine.perform at run
  split_ifs at run with promised
  exact ⟨op, fuel, allowed_of_called promised, ok_of_toOption run⟩

theorem Machine.foldlM_steps {fuel : Nat} {ops : List Op} {s s' : Machine}
    (run : ops.foldlM (Machine.perform fuel) s = some s') :
    Relation.ReflTransGen Machine.Step s s' := by
  induction ops generalizing s with
  | nil =>
      cases run
      exact .refl
  | cons op ops ih =>
      rw [List.foldlM_cons] at run
      obtain ⟨next, first, run⟩ := Option.bind_eq_some_iff.mp run
      exact .head (perform_step first) (ih run)

def secondProcess : Process := ⟨0x610120, 0x610200, 0x620210, []⟩

/-- Two processes are made, and each allocates in its own heap. -/
def twoProcesses : List Op :=
  [.globalMalloc sizeofPCB, .globalMalloc PROCESS_HEAP_SIZE, .globalMalloc structSize,
    .start firstProcess,
    .malloc firstProcess 8, .globalMalloc sizeofPCB, .globalMalloc PROCESS_HEAP_SIZE,
    .globalMalloc structSize, .start secondProcess, .malloc secondProcess 100]

/-- Then the first one allocates again, or the second one frees. -/
theorem process_heaps_isolated_two : ∃ s : Machine, ∃ P ∈ s.processes, ∃ Q ∈ s.processes,
    P.live = [(0x600100, 8)] ∧ Q.live = [(0x610210, 100)] ∧ Isolated s ∧
      (∃ mem, malloc 4 P.pcb 24 s.mem = .ok (mem, 0x600118) ∧ ∀ a, mem a ≠ s.mem a → P.Writes a) ∧
      ∃ mem, free 4 Q.pcb 0x610210 s.mem = .ok mem ∧ ∀ a, mem a ≠ s.mem a → Q.Writes a := by
  have ran : (twoProcesses.foldlM (Machine.perform 8) (Machine.memoryInit smallBoot fun _ => 0)).map
      (fun s => (s.processes, (malloc 4 firstProcess.pcb 24 s.mem).toOption.map Prod.snd,
        (free 4 secondProcess.pcb 0x610210 s.mem).toOption.isSome)) =
      some ([{ secondProcess with live := [(0x610210, 100)] },
        { firstProcess with live := [(0x600100, 8)] }], some 0x600118, true) := by decide +kernel
  obtain ⟨s, run, computed⟩ := Option.map_eq_some_iff.mp ran
  simp only [Prod.mk.injEq] at computed
  obtain ⟨processes, served, freed⟩ := computed
  obtain ⟨⟨mem, p⟩, served, rfl⟩ := Option.map_eq_some_iff.mp served
  obtain ⟨mem', freed⟩ := Option.isSome_iff_exists.mp freed
  obtain ⟨isolated, mallocs, frees⟩ := process_heaps_isolated ⟨fun _ => 0, Machine.foldlM_steps run⟩
  refine ⟨s, { firstProcess with live := [(0x600100, 8)] }, by simp [processes],
    { secondProcess with live := [(0x610210, 100)] }, by simp [processes], rfl, rfl, isolated,
    ⟨mem, ok_of_toOption served, ?_⟩, mem', ok_of_toOption freed, ?_⟩
  · exact mallocs _ (by simp [processes]) 4 24 mem _ (by decide) (ok_of_toOption served)
  · exact frees _ (by simp [processes]) 4 0x610210 100 mem' (by simp) (ok_of_toOption freed)

end SoTp.FreeList
