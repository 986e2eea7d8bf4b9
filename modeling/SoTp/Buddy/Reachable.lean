/-
The buddy allocator over whole histories.

A `Client` holds the heap and the list of payload pointers it was given and has
not returned, each with the size it asked for. A step is a call to
`internalMalloc`, a call to `globalFree` or to `free` on a pointer it holds, or
an arbitrary write into its payloads.

`free` ignores pointers outside of its heap, and takes the pointer to a block
that is nothing but a header, at the very end of the heap, for one of them. So
the steps are relative to the pointers that `free` `accepts`.

* `Keeps.malloc`, `Keeps.free`, `Keeps.write` — what one step preserves.
* `buddy_invariant` — the invariant over histories in which `free` is called on
  pointers below the end of the heap.
* `free_drops_last` — the block it loses otherwise.
-/

import Mathlib.Logic.Relation
import SoTp.Buddy.Release

namespace SoTp.Buddy

open SoTp.Lib Dyadic
open SoTp.FreeList (NULL structSize Block payload lives mem_lives)

/-! ### Clients -/

/-- The user of a heap: the heap and the pointers it holds, with the sizes it
asked for. -/
structure Client where
  heap : Heap
  live : List (Nat × Nat)

/-- The two functions that take a pointer back. -/
inductive Entry where
  | globalFree
  | free
deriving DecidableEq, Repr

def Entry.call (fuel : Nat) (area : Area) (ptr : Nat) (h : Heap) : Entry → Exec Heap
  | .globalFree => freeIn fuel area.heapStart area.heapSize ptr h
  | .free => freeInside fuel area.heapStart area.heapSize ptr h

/-- One action of the client. -/
inductive Step (area : Area) (accepts : Nat → Prop) : Client → Client → Prop where
  | malloc {c : Client} {size fuel p : Nat} {h' : Heap} : size + structSize ≤ 2 ^ 31 →
      internalMalloc fuel size area.orderCount c.heap = .ok (h', p) →
      Step area accepts c ⟨h', if p = NULL then c.live else (p, size) :: c.live⟩
  | free {c : Client} {entry : Entry} {p n fuel : Nat} {h' : Heap} : (p, n) ∈ c.live →
      (entry = .free → accepts p) → entry.call fuel area p c.heap = .ok h' →
      Step area accepts c ⟨h', c.live.erase (p, n)⟩
  | write {c : Client} {mem : Nat → Nat} :
      (∀ a, (∀ p n, (p, n) ∈ c.live → ¬ (p ≤ a ∧ a < p + n)) → mem a = c.heap.mem a) →
      Step area accepts c ⟨{ c.heap with mem := mem }, c.live⟩

/-- The states of a client that starts with a fresh heap. -/
def Reach (area : Area) (accepts : Nat → Prop) (c : Client) : Prop :=
  ∃ mem freeList, Relation.ReflTransGen (Step area accepts) ⟨area.init mem freeList, []⟩ c

/-- The pointers below the end of the heap. -/
def Below (area : Area) (p : Nat) : Prop := p < area.heapStart + area.heapSize

/-! ### Well-formed heaps -/

/-- The heap of a client, block by block. -/
structure WellFormed (area : Area) (c : Client) (ts : List Block) : Prop where
  /-- The blocks tile the heap. -/
  tiled : Tiled area.start ts (area.start + area.heapSize)
  /-- Sizes are powers of two, offsets from the initial block multiples of them. -/
  power : ∀ b ∈ ts, ∃ k < area.orderCount, b.size = 2 ^ k ∧ 2 ^ k ∣ b.addr - area.start
  headers : ∀ b ∈ ts, c.heap.size b.addr = b.size ∧ (c.heap.isFree b.addr ↔ b.label = none)
  /-- The list of an order visits exactly the free blocks of its size, once each. -/
  listed : ∀ k < area.orderCount, ∃ cells,
    Segment c.heap.next (c.heap.freeList k) cells NULL ∧ cells.Nodup ∧
      (∀ a, a ∈ cells ↔ ∃ b ∈ ts, b.label = none ∧ b.size = 2 ^ k ∧ b.addr = a) ∧
      ∀ a ∈ cells, c.heap.isFree a
  /-- The live blocks are the ones the client holds. -/
  holds : (lives ts).Perm c.live
  /-- A payload is as long as requested. -/
  room : ∀ b ∈ ts, ∀ n, b.label = some n → payload b + n ≤ b.stop
  /-- A payload is disjoint from the other ones and from every header. -/
  disjoint : ∀ b ∈ ts, ∀ d ∈ ts, b ≠ d → b.stop ≤ payload d ∨ d.stop ≤ payload b
  clear : ∀ b ∈ ts, ∀ d ∈ ts, d.addr + structSize ≤ payload b ∨ b.stop ≤ d.addr
  /-- The sizes of the free and the live blocks add up. -/
  sum : (ts.map Tile.size).sum = area.heapSize

/-- What is preserved from step to step. -/
structure Keeps (area : Area) (c : Client) (t : Tree) : Prop where
  layout : Layout area c.heap t
  holds : (lives (tiles area.top area.start t)).Perm c.live

section Invariant

variable {area : Area} {c : Client} {t : Tree}

theorem Layout.nodup {h : Heap} (l : Layout area h t) (order : Nat) :
    (freesAt order (tiles area.top area.start t)).Nodup := by
  have increasing : (tiles area.top area.start t).Pairwise fun b d => b.addr ≠ d.addr :=
    (tiled_pairwise l.tiled).imp_of_mem fun {b d} hb _ le => by
      have pos := tiles_pos l.fits hb
      unfold Tile.stop at le
      omega
  exact List.pairwise_map.mpr (increasing.filter _)

theorem Keeps.wellFormed (k : Keeps area c t) :
    WellFormed area c (tiles area.top area.start t) where
  tiled := k.layout.tiled
  power b hb := by
    obtain ⟨j, le, size, m, addr⟩ := tiles_aligned k.layout.fits hb
    refine ⟨j, Nat.lt_of_le_of_lt le area.top_lt, size, m, ?_⟩
    rw [addr, Nat.add_sub_cancel_left, Nat.mul_comm]
  headers b hb := k.layout.headed b hb
  listed order lt := by
    obtain ⟨cells, listed, perm⟩ := k.layout.listed order lt
    refine ⟨cells, listed, perm.nodup_iff.mpr (k.layout.nodup order),
      fun a => perm.mem_iff.trans mem_freesAt, fun a ha => ?_⟩
    obtain ⟨b, hb, free, -, rfl⟩ := mem_freesAt.mp (perm.mem_iff.mp ha)
    exact (k.layout.headed b hb).2.mpr free
  holds := k.holds
  room b hb n label := by
    have room := k.layout.room b hb n label
    unfold payload Tile.stop
    omega
  disjoint b hb d hd ne := by
    have apart := tiled_apart k.layout.tiled hb hd ne
    unfold payload
    omega
  clear b hb d hd := by
    by_cases same : d = b
    · exact Or.inl (by rw [same, payload])
    · have apart := tiled_apart k.layout.tiled hd hb same
      have headers := k.layout.apart hd hb same
      unfold Apart at headers
      unfold payload Tile.stop at *
      have pos := tiles_pos k.layout.fits hb
      omega
  sum := by
    have sum := tiled_sum k.layout.tiled
    omega

/-! ### More fuel changes nothing -/

theorem internalMalloc_mono {h : Heap} {fuel more size orderCount : Nat} {r : Heap × Nat}
    (le : fuel ≤ more) (run : internalMalloc fuel size orderCount h = .ok r) :
    internalMalloc more size orderCount h = .ok r := by
  obtain ⟨order, found, rest⟩ := bind_ok_iff.mp run
  exact bind_ok_iff.mpr ⟨order, loop_mono le found, rest⟩

theorem removeFromFreeList_mono {h h' : Heap} {fuel more x order : Nat} (le : fuel ≤ more)
    (run : removeFromFreeList fuel x order h = .ok h') :
    removeFromFreeList more x order h = .ok h' := by
  unfold removeFromFreeList at run ⊢
  simp only [] at run ⊢
  split_ifs at run ⊢
  · exact run
  · obtain ⟨cur, found, rest⟩ := bind_ok_iff.mp run
    exact bind_ok_iff.mpr ⟨cur, loop_mono le found, rest⟩

theorem mergeBlock_mono {heapStart maxMem walk walk' fuel more : Nat} (walks : walk ≤ walk')
    (le : fuel ≤ more) {h h' : Heap} {block order : Nat}
    (run : mergeBlock walk heapStart maxMem fuel block order h = .ok h') :
    mergeBlock walk' heapStart maxMem more block order h = .ok h' := by
  induction fuel generalizing more h block order with
  | zero => cases run
  | succ fuel ih =>
      obtain ⟨more, rfl⟩ : ∃ n, more = n + 1 := ⟨more - 1, by omega⟩
      unfold mergeBlock at run ⊢
      by_cases whole : h.size block = maxMem
      · rwa [if_pos whole] at run ⊢
      · rw [if_neg whole] at run ⊢
        obtain ⟨alignment, aligned, run⟩ := bind_ok_iff.mp run
        refine bind_ok_iff.mpr ⟨alignment, aligned, ?_⟩
        simp only [] at run ⊢
        split_ifs at run ⊢
        all_goals first
          | exact run
          | obtain ⟨h₁, first, run⟩ := bind_ok_iff.mp run
            obtain ⟨h₂, second, run⟩ := bind_ok_iff.mp run
            refine bind_ok_iff.mpr ⟨h₁, removeFromFreeList_mono walks first, ?_⟩
            exact bind_ok_iff.mpr ⟨h₂, removeFromFreeList_mono walks second, ih (by omega) run⟩

theorem release_mono {heapStart maxMem fuel more p : Nat} (le : fuel ≤ more) {h h' : Heap}
    (run : release fuel heapStart maxMem p h = .ok h') :
    release more heapStart maxMem p h = .ok h' := by
  obtain ⟨order, found, rest⟩ := bind_ok_iff.mp run
  exact bind_ok_iff.mpr ⟨order, loop_mono le found, mergeBlock_mono le le rest⟩

/-! ### One step -/

theorem Keeps.malloc (k : Keeps area c t) {size fuel : Nat} (fits : size + structSize ≤ 2 ^ 31)
    (enough : 31 < fuel) :
    ∃ h' p, internalMalloc fuel size area.orderCount c.heap = .ok (h', p) ∧
      ∃ t', Keeps area ⟨h', if p = NULL then c.live else (p, size) :: c.live⟩ t' := by
  rcases malloc_layout k.layout fits enough with run | ⟨h', p, t', run, some, layout, live⟩
  · exact ⟨c.heap, NULL, run, t, by rw [if_pos rfl]; exact k⟩
  · refine ⟨h', p, run, t', layout, ?_⟩
    rw [if_neg some]
    exact live.trans (k.holds.cons _)

/-- A pointer that is live is not NULL and not below the heap. -/
theorem Keeps.pointer (k : Keeps area c t) {p n : Nat} (live : (p, n) ∈ c.live) :
    p ≠ NULL ∧ area.heapStart ≤ p := by
  obtain ⟨b, hb, -, rfl⟩ := mem_lives.mp (k.holds.mem_iff.mpr live)
  have bounds := (tiled_bounds k.layout.tiled hb).1
  have start := area.start_bounds.1
  unfold payload structSize NULL
  omega

/-- What releasing a live pointer does. -/
theorem Keeps.release (k : Keeps area c t) {p n fuel : Nat} (live : (p, n) ∈ c.live)
    (enough : (tiles area.top area.start t).length < fuel) (orders : 32 < fuel) :
    ∃ h', SoTp.Buddy.release fuel area.heapStart area.heapSize p c.heap = .ok h' ∧
      ∃ t', Keeps area ⟨h', c.live.erase (p, n)⟩ t' := by
  obtain ⟨h', t', run, layout, same⟩ :=
    release_layout k.layout (k.holds.mem_iff.mpr live) enough orders
  refine ⟨h', run, t', layout, ?_⟩
  have erased := (same.trans k.holds).erase (p, n)
  rwa [List.erase_cons_head] at erased

/-- `globalFree` releases every pointer, `free` those inside the heap. -/
theorem Entry.call_eq {entry : Entry} {p : Nat} (notNull : p ≠ NULL) (ge : area.heapStart ≤ p)
    (below : entry = .free → Below area p) (fuel : Nat) (h : Heap) :
    entry.call fuel area p h = SoTp.Buddy.release fuel area.heapStart area.heapSize p h := by
  cases entry with
  | globalFree =>
      unfold Entry.call freeIn
      exact if_neg notNull
  | free =>
      have inside := below rfl
      unfold Below at inside
      unfold Entry.call freeInside
      simp only []
      rw [if_neg notNull, if_neg (by omega)]

theorem Keeps.call_eq (k : Keeps area c t) {p n : Nat} (live : (p, n) ∈ c.live) {entry : Entry}
    (below : entry = .free → Below area p) (fuel : Nat) :
    entry.call fuel area p c.heap =
      SoTp.Buddy.release fuel area.heapStart area.heapSize p c.heap := by
  obtain ⟨notNull, ge⟩ := k.pointer live
  exact Entry.call_eq notNull ge below fuel c.heap

/-- `free` ignores pointers at the end of the heap. -/
theorem Entry.call_ignored {p : Nat} (past : ¬ Below area p) (fuel : Nat) (h : Heap) :
    Entry.free.call fuel area p h = .ok h := by
  unfold Below at past
  simp only [Entry.call, freeInside]
  split_ifs with null outside
  · rfl
  · rfl
  · exact absurd (Or.inr (Nat.not_lt.mp past)) outside

theorem Keeps.write (k : Keeps area c t) {mem : Nat → Nat}
    (inside : ∀ a, (∀ p n, (p, n) ∈ c.live → ¬ (p ≤ a ∧ a < p + n)) → mem a = c.heap.mem a) :
    Keeps area ⟨{ c.heap with mem := mem }, c.live⟩ t := by
  have w := k.wellFormed
  have same : ∀ b ∈ tiles area.top area.start t,
      SameHeader c.heap { c.heap with mem := mem } b.addr := fun b hb => by
    have clear : ∀ o < structSize, mem (b.addr + o) = c.heap.mem (b.addr + o) := fun o ho => by
      refine inside _ fun p n live => ?_
      obtain ⟨d, hd, label, rfl⟩ := mem_lives.mp (k.holds.mem_iff.mpr live)
      have room := w.room d hd n label
      have apart := w.clear d hd b hb
      omega
    exact ⟨clear 0 (by decide), clear 8 (by decide), clear 12 (by decide)⟩
  have l := k.layout
  refine ⟨?_, k.holds⟩
  refine { headed := fun b hb => (l.headed b hb).congr (same b hb), room := l.room
           listed := fun order lt => ?_, fits := l.fits, roomy := l.roomy, merged := l.merged
           last := fun n whole => ?_ }
  · obtain ⟨cells, listed, perm⟩ := l.listed order lt
    refine ⟨cells, listed.congr rfl fun x hx => ?_, perm⟩
    obtain ⟨b, hb, -, -, rfl⟩ := mem_freesAt.mp (perm.mem_iff.mp hx)
    exact (same b hb).1
  · subst whole
    exact (same ⟨area.start, 2 ^ area.top, some n⟩ (by simp)).1.trans (l.last n rfl)

theorem Keeps.step {c' : Client} (k : Keeps area c t) (step : Step area (Below area) c c') :
    ∃ t', Keeps area c' t' := by
  cases step with
  | @malloc size fuel p h' fits run =>
      obtain ⟨g, q, run', keeps⟩ := k.malloc fits (show 31 < max fuel 32 by omega)
      cases (internalMalloc_mono (Nat.le_max_left fuel 32) run).symm.trans run'
      exact keeps
  | @free entry p n fuel h' live below run =>
      rw [k.call_eq live below] at run
      let more := max fuel ((tiles area.top area.start t).length + 33)
      obtain ⟨g, run', keeps⟩ := k.release live (show _ < more by omega) (show 32 < more by omega)
      cases (release_mono (Nat.le_max_left fuel _) run).symm.trans run'
      exact keeps
  | write inside => exact ⟨t, k.write inside⟩

theorem Reach.keeps (reach : Reach area (Below area) c) : ∃ t, Keeps area c t := by
  obtain ⟨mem, freeList, run⟩ := reach
  induction run with
  | refl => exact ⟨leaf none, init_layout area mem freeList, by simp [lives]⟩
  | tail _ step ih =>
      obtain ⟨t, k⟩ := ih
      exact k.step step

/-- In every state a client can reach without calling `free` on a pointer at the
end of the heap, the heap is well formed, and a further call returns. -/
theorem buddy_invariant (reach : Reach area (Below area) c) :
    ∃ ts, WellFormed area c ts ∧
      (∀ size, size + structSize ≤ 2 ^ 31 →
        ∃ fuel h' p, internalMalloc fuel size area.orderCount c.heap = .ok (h', p)) ∧
      ∀ p n, (p, n) ∈ c.live → ∀ entry : Entry, (entry = .free → Below area p) →
        ∃ fuel h', entry.call fuel area p c.heap = .ok h' := by
  obtain ⟨t, k⟩ := reach.keeps
  refine ⟨_, k.wellFormed, fun size fits => ?_, fun p n live entry below => ?_⟩
  · obtain ⟨h', p, run, -⟩ := k.malloc fits (Nat.lt_succ_self 31)
    exact ⟨_, h', p, run⟩
  · let more := (tiles area.top area.start t).length + 33
    obtain ⟨h', run, -⟩ := k.release live (show _ < more by omega) (show 32 < more by omega)
    exact ⟨more, h', (k.call_eq live below more).trans run⟩

end Invariant

/-! ### A process heap -/

/-- The heap of a process, in a block of the global heap. -/
def processArea : Area where
  heapStart := 0x600010
  orderCount := PROCESS_HEAP_ORDER_COUNT
  some := by decide
  uint32 := by decide
  notNull := by decide
  room := by decide

/-- A fresh heap of a process. -/
def freshClient : Client := ⟨processArea.init (fun _ => 0) (fun _ => 0), []⟩

/-- Calls `malloc` with one size after the other. -/
def mallocs (area : Area) : List Nat → Client → Exec Client
  | [], c => .ok c
  | size :: sizes, c => do
      let (h, p) ← internalMalloc 32 size area.orderCount c.heap
      mallocs area sizes ⟨h, if p = NULL then c.live else (p, size) :: c.live⟩

theorem mallocs_reach {area : Area} {accepts : Nat → Prop} {sizes : List Nat} {c c' : Client}
    (fits : ∀ size ∈ sizes, size + structSize ≤ 2 ^ 31) (reach : Reach area accepts c)
    (run : mallocs area sizes c = .ok c') : Reach area accepts c' := by
  induction sizes generalizing c with
  | nil =>
      cases run
      exact reach
  | cons size sizes ih =>
      obtain ⟨⟨h, p⟩, called, rest⟩ := bind_ok_iff.mp run
      obtain ⟨mem, freeList, steps⟩ := reach
      refine ih (fun s hs => fits s (List.mem_cons_of_mem _ hs)) ⟨mem, freeList, ?_⟩ rest
      exact steps.tail (.malloc (fits size List.mem_cons_self) called)

theorem freshClient_reach {accepts : Nat → Prop} {sizes : List Nat} {c : Client}
    (fits : ∀ size ∈ sizes, size + structSize ≤ 2 ^ 31)
    (run : mallocs processArea sizes freshClient = .ok c) : Reach processArea accepts c :=
  mallocs_reach fits ⟨fun _ => 0, fun _ => 0, .refl⟩ run

theorem buddy_invariant_fiveBytes :
    ∃ h ts, WellFormed processArea ⟨h, [(0x600020, 5)]⟩ ts := by
  have computed : (mallocs processArea [5] freshClient).map (fun c => c.live) =
      .ok [(0x600020, 5)] := by decide +kernel
  obtain ⟨c, run, computed⟩ := map_ok_iff.mp computed
  have reach : Reach processArea (Below processArea) c := freshClient_reach (by decide) run
  obtain ⟨ts, w, -⟩ := buddy_invariant reach
  exact ⟨c.heap, ts, computed ▸ w⟩

/-- Sizes that fill the heap, down to two blocks that are nothing but headers. -/
def fillingSizes : List Nat :=
  [32752, 16368, 8176, 4080, 2032, 1008, 496, 240, 112, 48, 16, 0, 0]

/-- The pointers they are served with, the last one first. -/
def filledLive : List (Nat × Nat) :=
  [(0x610010, 0), (0x610000, 0), (0x60ffe0, 16), (0x60ffa0, 48), (0x60ff20, 112), (0x60fe20, 240),
    (0x60fc20, 496), (0x60f820, 1008), (0x60f020, 2032), (0x60e020, 4080), (0x60c020, 8176),
    (0x608020, 16368), (0x600020, 32752)]

theorem filled_eq :
    (mallocs processArea fillingSizes freshClient).map (fun c =>
      (c.live, (List.range 17).map c.heap.freeList,
        (filledLive.tail.map fun x => c.heap.size (x.1 - structSize)).sum)) =
      .ok (filledLive, List.replicate 17 NULL, 65520) := by
  decide +kernel

/-- Without free blocks, the headers before the live pointers account for the
whole heap. -/
theorem WellFormed.sum_live {area : Area} {c : Client} {ts : List Block} (w : WellFormed area c ts)
    (empty : ∀ k < area.orderCount, c.heap.freeList k = NULL) :
    (c.live.map fun x => c.heap.size (x.1 - structSize)).sum = area.heapSize := by
  have busy : ∀ b ∈ ts, b.label ≠ none := fun b hb free => by
    obtain ⟨k, lt, size, -⟩ := w.power b hb
    obtain ⟨cells, seg, -, mem, -⟩ := w.listed k lt
    have cell := (mem b.addr).mpr ⟨b, hb, free, size, rfl⟩
    rw [empty k lt] at seg
    cases cells with
    | nil => cases cell
    | cons y cells =>
        -- The list would start at a block at NULL.
        obtain ⟨d, hd, -, -, e⟩ := (mem y).mp List.mem_cons_self
        have bounds := (tiled_bounds w.tiled hd).1
        have pos := area.start_pos
        have null : NULL = y := seg.1
        unfold NULL at null
        omega
  have sizes : (lives ts).map (fun x => c.heap.size (x.1 - structSize)) = ts.map Tile.size := by
    unfold lives
    rw [List.map_filterMap]
    have headers := w.headers
    clear w
    induction ts with
    | nil => rfl
    | cons b ts ih =>
        obtain ⟨n, label⟩ := Option.ne_none_iff_exists'.mp (busy b List.mem_cons_self)
        have tail := ih (fun d hd => busy d (List.mem_cons_of_mem _ hd))
          (fun d hd => headers d (List.mem_cons_of_mem _ hd))
        have header := (headers b List.mem_cons_self).1
        rw [List.filterMap_cons_some (b := b.size), tail, List.map_cons]
        rw [label]
        simp only [Option.map_some, payload, Nat.add_sub_cancel, header]
  rw [← w.sum, ← sizes]
  exact (w.holds.symm.map _).sum_eq

/-- `free` ignores the pointer to the last block when that is only a header: the
block is neither free nor live then. -/
theorem free_drops_last :
    ∃ c : Client, Reach processArea (fun _ => True) c ∧
      (∃ h, Reach processArea (fun _ => True) ⟨h, (0x610010, 0) :: c.live⟩ ∧
        SoTp.Buddy.free 32 processArea.heapStart 0x610010 h = .ok c.heap) ∧
      ¬ ∃ ts, WellFormed processArea c ts := by
  obtain ⟨c, run, computed⟩ := map_ok_iff.mp filled_eq
  simp only [Prod.mk.injEq] at computed
  obtain ⟨live, lists, sum⟩ := computed
  have filled : Reach processArea (fun _ => True) c := freshClient_reach (by decide) run
  have ignored : SoTp.Buddy.free 32 processArea.heapStart 0x610010 c.heap = .ok c.heap := rfl
  have rest : c.live.erase (0x610010, 0) = filledLive.tail := by
    rw [live]
    decide
  obtain ⟨mem, freeList, steps⟩ := id filled
  refine ⟨⟨c.heap, filledLive.tail⟩, ⟨mem, freeList, steps.tail ?_⟩, ⟨c.heap, ?_, ignored⟩, ?_⟩
  · rw [← rest]
    have held : (0x610010, 0) ∈ c.live := by
      rw [live]
      decide
    have called : Entry.free.call 32 processArea 0x610010 c.heap = .ok c.heap := ignored
    exact .free held (fun _ => trivial) called
  · have all : (0x610010, 0) :: filledLive.tail = c.live := live.symm
    rw [all]
    exact filled
  · rintro ⟨ts, w⟩
    have total := w.sum_live fun k lt => by
      have empty : (List.range 17).map c.heap.freeList =
          List.replicate (List.range 17).length NULL := lists
      exact List.map_eq_replicate_iff.mp empty k (List.mem_range.mpr lt)
    rw [sum] at total
    exact absurd total (by decide)

end SoTp.Buddy
