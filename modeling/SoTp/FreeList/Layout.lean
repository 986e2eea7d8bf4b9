/-
What a well-formed free-list heap is. `Layout h start ts` says that the tiles
`ts` cover the heap from `start` to the end marker, that every header tells the
truth about its tile, and that the free list visits exactly the free tiles in
address order. The label of a tile is `none` for a free block and the requested
number of bytes for a live one.

* `Layout.apart` — two headers never overlap, so a write to one field of one
  header is read back there and nowhere else (`setNextFreeBlock_nextFreeBlock`
  and its three companions).
* `init_layout` — `internalFreeListInit` builds a layout with one free tile.
* `alinedRequiredSize_eq`, `alinedRequiredSize_wraps` — the rounded size, for
  sizes that do not wrap and for those that do.
-/

import Mathlib.Tactic.Ring
import SoTp.FreeList.Basic
import SoTp.Lib.Segment
import SoTp.Lib.Tiling

namespace SoTp.FreeList

open SoTp.Lib

/-- A block of the heap, free (`none`) or live with the size it was requested
with. -/
abbrev Block := Tile (Option Nat)

/-- Start of a block's useful memory. -/
def payload (b : Block) : Nat := b.addr + structSize

/-- Addresses of the free blocks, in order. -/
def frees (ts : List Block) : List Nat := (ts.filter fun b => b.label.isNone).map Tile.addr

/-- Total size of the free blocks. -/
def freeBytes (ts : List Block) : Nat := ((ts.filter fun b => b.label.isNone).map Tile.size).sum

/-- The live blocks as the client knows them: payload pointer and requested size. -/
def lives (ts : List Block) : List (Nat × Nat) :=
  ts.filterMap fun b => b.label.map fun n => (payload b, n)

section Views

variable {ss ts : List Block} {b : Block}

@[simp] theorem frees_nil : frees [] = [] := rfl

@[simp] theorem frees_append : frees (ss ++ ts) = frees ss ++ frees ts := by simp [frees]

theorem frees_cons_free (free : b.label = none) : frees (b :: ts) = b.addr :: frees ts := by
  simp [frees, free]

theorem frees_cons_live {n : Nat} (live : b.label = some n) : frees (b :: ts) = frees ts := by
  simp [frees, live]

@[simp] theorem freeBytes_nil : freeBytes [] = 0 := rfl

@[simp] theorem freeBytes_append : freeBytes (ss ++ ts) = freeBytes ss + freeBytes ts := by
  simp [freeBytes]

theorem freeBytes_cons_free (free : b.label = none) :
    freeBytes (b :: ts) = b.size + freeBytes ts := by
  simp [freeBytes, free]

theorem freeBytes_cons_live {n : Nat} (live : b.label = some n) :
    freeBytes (b :: ts) = freeBytes ts := by
  simp [freeBytes, live]

@[simp] theorem lives_nil : lives [] = [] := rfl

@[simp] theorem lives_append : lives (ss ++ ts) = lives ss ++ lives ts := by simp [lives]

theorem lives_cons_free (free : b.label = none) : lives (b :: ts) = lives ts := by
  simp [lives, free]

theorem lives_cons_live {n : Nat} (live : b.label = some n) :
    lives (b :: ts) = (payload b, n) :: lives ts := by
  simp [lives, live]

theorem mem_frees {a : Nat} : a ∈ frees ts ↔ ∃ b ∈ ts, b.label = none ∧ b.addr = a := by
  simp [frees, and_assoc]

theorem mem_lives {p n : Nat} :
    (p, n) ∈ lives ts ↔ ∃ b ∈ ts, b.label = some n ∧ payload b = p := by
  simp only [lives, List.mem_filterMap, Option.map_eq_some_iff, Prod.mk.injEq]
  constructor
  · rintro ⟨b, hb, m, hm, rfl, rfl⟩
    exact ⟨b, hb, hm, rfl⟩
  · rintro ⟨b, hb, hm, rfl⟩
    exact ⟨b, hb, n, hm, rfl, rfl⟩

/-- The first free block of a list, with the live blocks before it. -/
theorem exists_first_free {a : Nat} {as : List Nat} (h : frees ts = a :: as) :
    ∃ pre b post, ts = pre ++ b :: post ∧ frees pre = [] ∧ b.label = none ∧ b.addr = a ∧
      frees post = as := by
  induction ts with
  | nil => cases h
  | cons t ts ih =>
      cases ht : t.label with
      | none =>
          rw [frees_cons_free ht] at h
          cases h
          exact ⟨[], t, ts, rfl, rfl, ht, rfl, rfl⟩
      | some n =>
          rw [frees_cons_live ht] at h
          obtain ⟨pre, b, post, rfl, hpre, hb, ha, hpost⟩ := ih h
          exact ⟨t :: pre, b, post, rfl, by rw [frees_cons_live ht, hpre], hb, ha, hpost⟩

/-- The last free block of a list, with the live blocks after it. -/
theorem exists_last_free {a : Nat} {as : List Nat} (h : frees ts = as ++ [a]) :
    ∃ pre b post, ts = pre ++ b :: post ∧ frees pre = as ∧ b.label = none ∧ b.addr = a ∧
      frees post = [] := by
  induction ts generalizing as with
  | nil => simp at h
  | cons t ts ih =>
      cases ht : t.label with
      | some n =>
          rw [frees_cons_live ht] at h
          obtain ⟨pre, b, post, rfl, hpre, hb, ha, hpost⟩ := ih h
          exact ⟨t :: pre, b, post, rfl, by rw [frees_cons_live ht, hpre], hb, ha, hpost⟩
      | none =>
          rw [frees_cons_free ht] at h
          cases as with
          | nil =>
              simp only [List.nil_append, List.cons.injEq] at h
              exact ⟨[], t, ts, rfl, rfl, ht, h.1, h.2⟩
          | cons x as =>
              simp only [List.cons_append, List.cons.injEq] at h
              obtain ⟨pre, b, post, rfl, hpre, hb, ha, hpost⟩ := ih h.2
              exact ⟨t :: pre, b, post, rfl, by rw [frees_cons_free ht, hpre, h.1], hb, ha, hpost⟩

end Views

/-! ### The invariant -/

/-- No free block touches the next one. -/
def Coalesced (ts : List Block) : Prop :=
  ts.IsChain fun s t => ¬ (s.label = none ∧ t.label = none)

/-- The header of a live block: its size under the allocated bit and a NULL
link, with a payload as long as requested. -/
structure Stamped (h : Heap) (b : Block) (requested : Nat) : Prop where
  size : h.blockSize b.addr = b.size + topBit
  link : h.nextFreeBlock b.addr = NULL
  room : requested + structSize ≤ b.size

/-- The tiles cover the heap and the headers of the free ones give their size. -/
structure Shaped (h : Heap) (start : Nat) (ts : List Block) : Prop where
  tiled : Tiled start ts h.freeListEnd
  sizes : ∀ b ∈ ts, 24 ≤ b.size ∧ 8 ∣ b.size
  headed : ∀ b ∈ ts, b.label = none → h.blockSize b.addr = b.size
  marker : h.blockSize h.freeListEnd = 0 ∧ h.nextFreeBlock h.freeListEnd = NULL
  sentinel : h.blockSize h.freeListStart = 0
  outside : h.freeListStart + structSize ≤ start ∨ h.freeListEnd + structSize ≤ h.freeListStart
  bounded : h.freeListEnd < start + 2 ^ 32

/-- The free list from the sentinel visits the cells and stops at the end marker. -/
def Listed (h : Heap) (cells : List Nat) : Prop :=
  Segment h.nextFreeBlock h.freeListStart (h.freeListStart :: cells) h.freeListEnd

/-- A well-formed heap. -/
structure Layout (h : Heap) (start : Nat) (ts : List Block) : Prop extends Shaped h start ts where
  listed : Listed h (frees ts)
  bytes : h.bytesAvailable = freeBytes ts
  coalesced : Coalesced ts
  stamped : ∀ b ∈ ts, ∀ n, b.label = some n → Stamped h b n

/-! ### Fields of distinct headers -/

/-- Two headers are the same or do not overlap. -/
def Apart (x y : Nat) : Prop := x = y ∨ x + structSize ≤ y ∨ y + structSize ≤ x

section Fields

variable {h : Heap} {x y v : Nat}

theorem setNextFreeBlock_nextFreeBlock :
    (h.setNextFreeBlock x v).nextFreeBlock y = if y = x then v else h.nextFreeBlock y := by
  simp [Heap.setNextFreeBlock, Heap.nextFreeBlock, Function.update_apply]

theorem setBlockSize_blockSize :
    (h.setBlockSize x v).blockSize y = if y = x then v else h.blockSize y := by
  simp [Heap.setBlockSize, Heap.blockSize, Function.update_apply]

theorem setNextFreeBlock_blockSize (apart : Apart x y) :
    (h.setNextFreeBlock x v).blockSize y = h.blockSize y := by
  unfold Apart structSize at apart
  have ne : y + 8 ≠ x := by omega
  exact Function.update_of_ne ne v h.mem

theorem setBlockSize_nextFreeBlock (apart : Apart x y) :
    (h.setBlockSize x v).nextFreeBlock y = h.nextFreeBlock y := by
  unfold Apart structSize at apart
  have ne : y ≠ x + 8 := by omega
  exact Function.update_of_ne ne v h.mem

end Fields

/-- Where the headers of a heap are. -/
def IsHeader (h : Heap) (ts : List Block) (x : Nat) : Prop :=
  x = h.freeListStart ∨ x = h.freeListEnd ∨ ∃ b ∈ ts, b.addr = x

theorem Shaped.block_eq {h : Heap} {start : Nat} {ts : List Block} (s : Shaped h start ts)
    {b c : Block} (hb : b ∈ ts) (hc : c ∈ ts) (e : b.addr = c.addr) : b = c := by
  by_contra ne
  have := (s.sizes b hb).1
  have := (s.sizes c hc).1
  rcases tiled_apart s.tiled hb hc ne with le | le <;> unfold Tile.stop at le <;> omega

theorem Shaped.apart {h : Heap} {start : Nat} {ts : List Block} (s : Shaped h start ts) {x y : Nat}
    (hx : IsHeader h ts x) (hy : IsHeader h ts y) : Apart x y := by
  have out := s.outside
  have le := tiled_le s.tiled
  have inside : ∀ b ∈ ts, start ≤ b.addr ∧ b.addr + 24 ≤ h.freeListEnd := fun b hb => by
    have := (s.sizes b hb).1
    have bounds := tiled_bounds s.tiled hb
    unfold Tile.stop at bounds
    omega
  have blocks : ∀ b ∈ ts, ∀ c ∈ ts, Apart b.addr c.addr := fun b hb c hc => by
    by_cases same : b = c
    · exact Or.inl (congrArg _ same)
    · have := (s.sizes b hb).1
      have := (s.sizes c hc).1
      have disj := tiled_apart s.tiled hb hc same
      unfold Tile.stop at disj
      unfold Apart structSize
      omega
  unfold Apart structSize at *
  rcases hx with rfl | rfl | ⟨b, hb, rfl⟩ <;> rcases hy with rfl | rfl | ⟨c, hc, rfl⟩
  · omega
  · omega
  · have := inside c hc
    omega
  · omega
  · omega
  · have := inside c hc
    omega
  · have := inside b hb
    omega
  · have := inside b hb
    omega
  · exact blocks b hb c hc

/-! ### Rounding a request -/

theorem alignUp_eq {n : Nat} : alignUp n = (n + 7) % word / 8 * 8 := by
  have e := and_not64_low (n := add64 n 7) (k := 3) (Nat.mod_lt _ (by decide)) (by decide)
  simpa [alignUp, addressByteSize, add64] using e

theorem alignUp_dvd {n : Nat} : 8 ∣ alignUp n := by
  rw [alignUp_eq]
  exact Dvd.intro_left _ rfl

/-- A size that does not wrap is rounded to the next multiple of eight. -/
theorem alinedRequiredSize_eq {size : Nat} (pos : 0 < size) (fits : size + 23 < word) :
    alinedRequiredSize size = (size + 23) / 8 * 8 := by
  unfold alinedRequiredSize structSize
  rw [if_pos pos, alignUp_eq, add64_of_lt (by omega), Nat.mod_eq_of_lt (by omega)]

/-- A size that wraps is rounded to less than one header and a word. -/
theorem alinedRequiredSize_wraps {size : Nat} (u64 : size < word) (wraps : word ≤ size + 23) :
    alinedRequiredSize size = (size + 23 - word) / 8 * 8 := by
  unfold alinedRequiredSize structSize add64
  have pos : size > 0 := by
    unfold word at wraps
    omega
  rw [if_pos pos, alignUp_eq]
  unfold word at *
  omega

/-! ### The initial heap -/

/-- A piece of memory given to the allocator: `heapSize` bytes, a multiple of
eight and at least 64, and a sentinel `Block` that lies outside of them. -/
structure Area where
  heapStart : Nat
  heapSize : Nat
  freeListStart : Nat
  multiple : 8 ∣ heapSize
  large : 64 ≤ heapSize
  uint32 : heapSize < 2 ^ 32
  outside : freeListStart + structSize ≤ alignUp heapStart ∨
    alignUp heapStart + heapSize ≤ freeListStart

namespace Area

variable (area : Area)

def alinedHeapStart : Nat := alignUp area.heapStart

def init (mem : Nat → Nat) : Heap :=
  internalFreeListInit mem area.heapStart area.heapSize area.freeListStart

/-- The block of a fresh heap. -/
def whole : Block := ⟨area.alinedHeapStart, area.heapSize - structSize, none⟩

theorem init_layout (mem : Nat → Nat) :
    Layout (area.init mem) area.alinedHeapStart [area.whole] := by
  have large := area.large
  have uint32 := area.uint32
  have outside := area.outside
  have mult := area.multiple
  unfold structSize at outside
  have nexts : (area.init mem).nextFreeBlock area.freeListStart = area.alinedHeapStart ∧
      (area.init mem).nextFreeBlock area.alinedHeapStart = (area.init mem).freeListEnd ∧
      (area.init mem).nextFreeBlock (area.init mem).freeListEnd = NULL := by
    simp only [init, alinedHeapStart, internalFreeListInit, Heap.setNextFreeBlock,
      Heap.setBlockSize, Heap.setBytesAvailable, Heap.nextFreeBlock, Function.update_apply,
      structSize]
    refine ⟨?_, ?_, ?_⟩ <;> split_ifs <;> omega
  have sizes : (area.init mem).blockSize area.freeListStart = 0 ∧
      (area.init mem).blockSize area.alinedHeapStart = area.heapSize - structSize ∧
      (area.init mem).blockSize (area.init mem).freeListEnd = 0 := by
    simp only [init, alinedHeapStart, internalFreeListInit, Heap.setNextFreeBlock,
      Heap.setBlockSize, Heap.setBytesAvailable, Heap.blockSize, Function.update_apply,
      structSize]
    refine ⟨?_, ?_, ?_⟩ <;> split_ifs <;> omega
  have stop : (area.init mem).freeListEnd = area.alinedHeapStart + area.heapSize - structSize := rfl
  have sent : (area.init mem).freeListStart = area.freeListStart := rfl
  have bytes : (area.init mem).bytesAvailable = area.heapSize - structSize := by
    rw [← sizes.2.1]
    rfl
  refine { tiled := ?_, sizes := ?_, headed := ?_, marker := ⟨sizes.2.2, nexts.2.2⟩, sentinel := ?_,
           outside := ?_, bounded := ?_, listed := ?_, bytes := ?_, coalesced := ?_, stamped := ?_ }
  · refine ⟨rfl, ?_⟩
    simp only [tiled_nil, Tile.stop, whole, stop, structSize]
    omega
  · simp only [List.mem_singleton, forall_eq, whole, structSize]
    omega
  · simp only [List.mem_singleton, forall_eq, whole]
    exact fun _ => sizes.2.1
  · exact sizes.1
  · rw [stop, sent]
    unfold structSize
    unfold alinedHeapStart
    omega
  · rw [stop]
    unfold structSize
    omega
  · rw [Listed, frees_cons_free rfl, sent]
    simp only [segment_cons, frees_nil, segment_nil, true_and]
    exact ⟨nexts.1, nexts.2.1⟩
  · rw [bytes, freeBytes_cons_free rfl]
    rfl
  · exact List.IsChain.singleton _
  · simp [whole]

end Area

end SoTp.FreeList
