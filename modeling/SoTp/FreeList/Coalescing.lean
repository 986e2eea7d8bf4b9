/-
Coalescing over whole histories. A heap never holds two free blocks side by
side, so a heap without live blocks is one free block: returning every pointer,
in whatever order, brings the initial heap back.

* `Keeps.separate` — free blocks do not touch.
* `Keeps.initial` — with nothing live, the allocator's state is the initial one.
* `coalescing_complete` — both, for every reachable heap and every order.
-/

import SoTp.FreeList.Reachable

namespace SoTp.FreeList

open SoTp.Lib

/-- Returns the pointers one after the other. -/
def freeAll (fuel : Nat) : List Nat → Heap → Exec Heap
  | [], h => .ok h
  | p :: ps, h => internalFree fuel p h >>= freeAll fuel ps

theorem freeAll_mono {ps : List Nat} {h h' : Heap} {fuel more : Nat} (le : fuel ≤ more)
    (run : freeAll fuel ps h = .ok h') : freeAll more ps h = .ok h' := by
  induction ps generalizing h with
  | nil => exact run
  | cons p ps ih =>
      obtain ⟨g, first, rest⟩ := bind_ok_iff.mp run
      exact bind_ok_iff.mpr ⟨g, internalFree_mono le first, ih rest⟩

/-- The state `internalFreeListInit` leaves: the sentinel points at one free
block from the aligned start to the end marker, and the counter is its size. -/
structure Initial (area : Area) (h : Heap) : Prop where
  freeListStart : h.freeListStart = area.freeListStart
  freeListEnd : h.freeListEnd = area.alinedHeapStart + area.heapSize - structSize
  sentinel : h.nextFreeBlock h.freeListStart = area.alinedHeapStart ∧
    h.blockSize h.freeListStart = 0
  whole : h.nextFreeBlock area.alinedHeapStart = h.freeListEnd ∧
    h.blockSize area.alinedHeapStart = h.freeListEnd - area.alinedHeapStart
  marker : h.nextFreeBlock h.freeListEnd = NULL ∧ h.blockSize h.freeListEnd = 0
  bytesAvailable : h.bytesAvailable = h.freeListEnd - area.alinedHeapStart

section Coalescing

variable {area : Area} {c : Client} {ts : List Block}

/-- The sentinel of a reachable heap is the one it was initialised with. -/
theorem Reach.freeListStart {admits : Client → Nat → Prop} (reach : Reach area admits c) :
    c.heap.freeListStart = area.freeListStart := by
  obtain ⟨mem, run⟩ := reach
  induction run with
  | refl => rfl
  | tail _ step ih =>
      cases step with
      | malloc _ _ run => exact (internalMalloc_ends run).start.trans ih
      | free _ run => exact (internalFree_ends run).start.trans ih
      | write _ => exact ih

/-- Of two neighbours in a tiling at most one is free. -/
theorem coalesced_apart {a e : Nat} (tiled : Tiled a ts e) (coalesced : Coalesced ts)
    (sizes : ∀ b ∈ ts, 0 < b.size) {b d : Block} (hb : b ∈ ts) (hd : d ∈ ts)
    (bfree : b.label = none) (dfree : d.label = none) : b.stop ≠ d.addr := by
  intro touch
  obtain ⟨pre, post, rfl⟩ := List.append_of_mem hb
  have tail := (tiled_middle.mp tiled).2
  have front := (tiled_middle.mp tiled).1
  have size := sizes d hd
  have bsize := sizes b hb
  have chain := (List.isChain_append.mp coalesced).2.1
  unfold Tile.stop at *
  cases post with
  | nil =>
      -- Nothing lies after `b`, and `d` would.
      rcases List.mem_append.mp hd with mem | mem
      · have := (tiled_bounds front mem).2
        unfold Tile.stop at this
        omega
      · obtain rfl : d = b := by simpa using mem
        omega
  | cons t post =>
      have next : t.addr = b.addr + b.size := tail.1
      have same : d = t := by
        have ht : t ∈ pre ++ b :: t :: post := by simp
        by_contra ne
        have tsize := sizes t ht
        have := tiled_apart tiled hd ht ne
        unfold Tile.stop at this
        omega
      exact (List.isChain_cons.mp chain).1 t (by simp) ⟨bfree, same ▸ dfree⟩

theorem Keeps.separate (k : Keeps area c ts) :
    ∀ b ∈ ts, ∀ d ∈ ts, b.label = none → d.label = none → b.stop ≠ d.addr := by
  intro b hb d hd bfree dfree
  refine coalesced_apart k.layout.tiled k.layout.coalesced (fun t ht => ?_) hb hd bfree dfree
  have := (k.layout.sizes t ht).1
  omega

/-- A heap without live blocks is one free block. -/
theorem Keeps.single (k : Keeps area c ts) (idle : c.live = []) : ts = [area.whole] := by
  have free : ∀ b ∈ ts, b.label = none := by
    intro b hb
    cases label : b.label with
    | none => rfl
    | some n =>
        have live := k.holds.mem_iff.mp (mem_lives.mpr ⟨b, hb, label, rfl⟩)
        rw [idle] at live
        cases live
  have tiled := k.layout.tiled
  have stop := k.listEnd
  have large := area.large
  match ts, k, free, tiled with
  | [], _, _, tiled =>
      rw [tiled_nil] at tiled
      unfold structSize at stop
      omega
  | [b], _, free, tiled =>
      obtain ⟨start, e⟩ := tiled
      have label := free b List.mem_cons_self
      rw [tiled_nil] at e
      unfold Tile.stop at e
      have size : b.size = area.heapSize - structSize := by
        unfold structSize at *
        omega
      rw [Area.whole, ← start, ← size, ← label]
  | b :: d :: rest, k, free, tiled =>
      exact absurd tiled.2.1.symm (k.separate b (by simp) d (by simp) (free b (by simp))
        (free d (by simp)))

theorem Keeps.initial (k : Keeps area c ts) (start : c.heap.freeListStart = area.freeListStart)
    (idle : c.live = []) : Initial area c.heap := by
  obtain rfl := k.single idle
  have free : area.whole.label = none := rfl
  have listed := k.layout.listed
  rw [Listed, frees_cons_free free] at listed
  obtain ⟨-, first, last⟩ := listed
  have headed := k.layout.headed area.whole List.mem_cons_self free
  have size : area.whole.size = c.heap.freeListEnd - area.alinedHeapStart := by
    rw [k.listEnd]
    have := area.large
    change area.heapSize - structSize = _
    unfold structSize
    omega
  refine ⟨start, k.listEnd, ⟨first, k.layout.sentinel⟩, ⟨last, headed.trans size⟩,
    k.layout.marker.symm, ?_⟩
  rw [k.layout.bytes, freeBytes_cons_free free, freeBytes_nil]
  exact size

/-- Returning every live pointer, in any order, ends with nothing live. -/
theorem Keeps.freeAll (k : Keeps area c ts) {ps : List Nat}
    (every : ps.Perm (c.live.map Prod.fst)) (start : c.heap.freeListStart = area.freeListStart) :
    ∃ fuel h', freeAll fuel ps c.heap = .ok h' ∧ Initial area h' := by
  induction ps generalizing c ts with
  | nil =>
      have idle : c.live = [] := List.map_eq_nil_iff.mp (List.nil_perm.mp every)
      exact ⟨0, c.heap, rfl, k.initial start idle⟩
  | cons p ps ih =>
      obtain ⟨⟨q, n⟩, live, rfl⟩ := List.mem_map.mp (every.mem_iff.mp List.mem_cons_self)
      obtain ⟨h', run, ts', k', -⟩ := k.free live (Nat.lt_succ_self _)
      have rest : ps.Perm ((c.live.erase (q, n)).map Prod.fst) := by
        refine (List.perm_cons q).mp (every.trans ?_)
        exact (List.perm_cons_erase live).map Prod.fst
      obtain ⟨fuel, h'', runs, initial⟩ := ih k' rest ((internalFree_ends run).start.trans start)
      refine ⟨max (ts.length + 1) fuel, h'', bind_ok_iff.mpr ⟨h', ?_, ?_⟩, initial⟩
      · exact internalFree_mono (Nat.le_max_left _ _) run
      · exact freeAll_mono (Nat.le_max_right _ _) runs

/-- In every state a client can reach with sizes that do not wrap, no free block
touches another one, and returning all the live pointers, in any order, ends in
the initial state. -/
theorem coalescing_complete (reach : Reach area (fun _ size => size + 23 ≤ 2 ^ 64 - 1) c) :
    ∃ ts, WellFormed area c ts ∧
      (∀ b ∈ ts, ∀ d ∈ ts, b.label = none → d.label = none → b.stop ≠ d.addr) ∧
      ∀ ps : List Nat, ps.Perm (c.live.map Prod.fst) →
        ∃ fuel h', freeAll fuel ps c.heap = .ok h' ∧ Initial area h' := by
  have start := reach.freeListStart
  have served : Reach area Served c :=
    reach.mono fun _ _ _ le => Or.inl (by unfold word structSize; omega)
  obtain ⟨ts, k⟩ := served.keeps
  exact ⟨ts, k.wellFormed, k.separate, fun ps every => k.freeAll every start⟩

end Coalescing

theorem coalescing_complete_fiveBytes :
    ∃ h ts, WellFormed smallArea ⟨h, [(0x1010, 5)]⟩ ts ∧
      (∀ b ∈ ts, ∀ d ∈ ts, b.label = none → d.label = none → b.stop ≠ d.addr) ∧
      ∀ ps : List Nat, ps.Perm [0x1010] →
        ∃ fuel h', freeAll fuel ps h = .ok h' ∧ Initial smallArea h' := by
  obtain ⟨h, reach, -⟩ := reach_fiveBytes (fun _ size => size + 23 ≤ 2 ^ 64 - 1) (by decide)
  exact ⟨h, coalescing_complete reach⟩

/-- The initial state is the one of a fresh heap. -/
theorem Area.init_initial (area : Area) (mem : Nat → Nat) : Initial area (area.init mem) := by
  have fresh : Reach area Served ⟨area.init mem, []⟩ := ⟨mem, .refl⟩
  obtain ⟨ts, k⟩ := fresh.keeps
  exact k.initial rfl rfl

end SoTp.FreeList
