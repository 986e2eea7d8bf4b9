/-
Allocation and release on a well-formed heap.

* `search_fit` — the first-fit search ends, at the first free block that is
  large enough or at the end marker.
* `malloc_layout` — `internalMalloc` with a size that does not wrap hands out the
  lowest block with enough room, or returns NULL without touching the heap when
  there is none.
* `free_layout` — `internalFree` of a live pointer takes exactly that block back.
* `Layout.write` — the client may write whatever it likes into live payloads.
-/

import Mathlib.Algebra.Order.BigOperators.Group.List
import Mathlib.Data.List.Perm.Basic
import SoTp.FreeList.Insert

namespace SoTp.FreeList

open SoTp.Lib

section Transport

variable {h h' : Heap} {start : Nat} {ts : List Block}

/-- A heap that agrees on every header is shaped the same. -/
theorem Shaped.congr (s : Shaped h start ts) (start_eq : h'.freeListStart = h.freeListStart)
    (end_eq : h'.freeListEnd = h.freeListEnd)
    (sizes : ∀ b ∈ ts, b.label = none → h'.blockSize b.addr = h.blockSize b.addr)
    (marker : h'.blockSize h.freeListEnd = h.blockSize h.freeListEnd ∧
      h'.nextFreeBlock h.freeListEnd = h.nextFreeBlock h.freeListEnd)
    (sentinel : h'.blockSize h.freeListStart = h.blockSize h.freeListStart) :
    Shaped h' start ts where
  tiled := end_eq ▸ s.tiled
  sizes := s.sizes
  headed b hb free := (sizes b hb free).trans (s.headed b hb free)
  marker := by rw [end_eq, marker.1, marker.2]; exact s.marker
  sentinel := by rw [start_eq, sentinel]; exact s.sentinel
  outside := by rw [start_eq, end_eq]; exact s.outside
  bounded := by rw [end_eq]; exact s.bounded

theorem Listed.congr {cells : List Nat} (l : Listed h cells)
    (start_eq : h'.freeListStart = h.freeListStart) (end_eq : h'.freeListEnd = h.freeListEnd)
    (agree : ∀ x ∈ h.freeListStart :: cells, h'.nextFreeBlock x = h.nextFreeBlock x) :
    Listed h' cells := by
  rw [Listed, start_eq, end_eq]
  exact (segment_congr agree).mpr l

theorem Stamped.congr {b : Block} {n : Nat} (s : Stamped h b n)
    (next : h'.nextFreeBlock b.addr = h.nextFreeBlock b.addr)
    (size : h'.blockSize b.addr = h.blockSize b.addr) : Stamped h' b n :=
  ⟨size.trans s.size, next.trans s.link, s.room⟩

/-- A heap is well formed as long as its headers are. -/
theorem Layout.congr (l : Layout h start ts) {mem : Nat → Nat}
    (agree : ∀ x, IsHeader h ts x → mem x = h.mem x ∧ mem (x + 8) = h.mem (x + 8)) :
    Layout { h with mem := mem } start ts := by
  have hs := agree h.freeListStart (Or.inl rfl)
  have he := agree h.freeListEnd (Or.inr (Or.inl rfl))
  exact { toShaped := l.toShaped.congr rfl rfl (fun b hb _ => (agree b.addr (isHeader_of_mem hb)).2)
            ⟨he.2, he.1⟩ hs.2
          listed := l.listed.congr rfl rfl fun x hx => (agree x (Shaped.isHeader_of_cell hx)).1
          bytes := l.bytes
          coalesced := l.coalesced
          stamped := fun b hb n label =>
            have hb' := agree b.addr (isHeader_of_mem hb)
            (l.stamped b hb n label).congr hb'.1 hb'.2 }

/-- Bytes written inside live payloads leave every header alone. -/
theorem Layout.write (l : Layout h start ts) {mem : Nat → Nat}
    (inside : ∀ a, (∀ p n, (p, n) ∈ lives ts → ¬ (p ≤ a ∧ a < p + n)) → mem a = h.mem a) :
    Layout { h with mem := mem } start ts := by
  refine l.congr fun x hx => ?_
  have clear : ∀ a, x ≤ a → a < x + structSize → mem a = h.mem a := fun a lo hi => by
    refine inside a fun p n live => ?_
    obtain ⟨b, hb, label, rfl⟩ := mem_lives.mp live
    have room := (l.stamped b hb n label).room
    have bounds := tiled_bounds l.tiled hb
    have out := l.outside
    unfold payload structSize Tile.stop at *
    rcases hx with rfl | rfl | ⟨c, hc, rfl⟩
    · omega
    · omega
    · by_cases same : c = b
      · subst same
        omega
      · have size := (l.sizes c hc).1
        have disjoint := tiled_apart l.tiled hc hb same
        unfold Tile.stop at disjoint
        omega
  exact ⟨clear x (by omega) (by unfold structSize; omega),
    clear (x + 8) (by omega) (by unfold structSize; omega)⟩

end Transport

section Search

variable {h : Heap} {start : Nat} {ts : List Block}

/-- First fit: the block found is the first free one that is large enough; the
cell before it is the last free cell below. The end marker is found exactly when
no free block is large enough. -/
theorem search_fit (required : Nat) (s : Shaped h start ts) (listed : Listed h (frees ts))
    {fuel : Nat} (enough : (frees ts).length < fuel) :
    ∃ prev block, loop (advanceSearch h required) fuel
        (h.freeListStart, h.nextFreeBlock h.freeListStart) = .ok (prev, block) ∧
      ((block = h.freeListEnd ∧ ∀ c ∈ ts, c.label = none → c.size < required) ∨
        ∃ pre b post as, ts = pre ++ b :: post ∧ b.label = none ∧ b.addr = block ∧
          required ≤ b.size ∧ (∀ c ∈ pre, c.label = none → c.size < required) ∧
          h.freeListStart :: frees pre = as ++ [prev]) := by
  -- `front` is what the search has passed; `prev` is its last free cell.
  let Passed (n : Nat) (st : Nat × Nat) : Prop := ∃ front back as, ts = front ++ back ∧
    (frees back).length = n ∧ (∀ c ∈ front, c.label = none → c.size < required) ∧
      h.freeListStart :: frees front = as ++ [st.1] ∧
      Segment h.nextFreeBlock st.2 (frees back) h.freeListEnd
  let Found (st : Nat × Nat) : Prop :=
    (st.2 = h.freeListEnd ∧ ∀ c ∈ ts, c.label = none → c.size < required) ∨
      ∃ pre b post as, ts = pre ++ b :: post ∧ b.label = none ∧ b.addr = st.2 ∧
        required ≤ b.size ∧ (∀ c ∈ pre, c.label = none → c.size < required) ∧
        h.freeListStart :: frees pre = as ++ [st.1]
  have begins : Passed (frees ts).length (h.freeListStart, h.nextFreeBlock h.freeListStart) :=
    ⟨[], ts, [], rfl, rfl, by simp, rfl, listed.2⟩
  suffices round : ∀ n st, Passed n st →
      (∃ r, advanceSearch h required st = .ok (.leave r) ∧ Found r) ∨
      ∃ m st', m < n ∧ advanceSearch h required st = .ok (.again st') ∧ Passed m st' by
    obtain ⟨⟨prev, block⟩, found, post⟩ := loop_total Passed Found round begins enough
    exact ⟨prev, block, found, post⟩
  rintro n ⟨prev, block⟩ ⟨front, back, as, rfl, rfl, small, cells, seg⟩
  cases hf : frees back with
  | nil =>
      -- Only live blocks remain: the search is at the end marker.
      rw [hf, segment_nil] at seg
      subst seg
      refine Or.inl ⟨(prev, h.freeListEnd), ?_, Or.inl ⟨rfl, ?_⟩⟩
      · rw [advanceSearch, if_neg]
        exact fun both => both.2 s.marker.2
      · intro c hc free
        rcases List.mem_append.mp hc with hc | hc
        · exact small c hc free
        · have : c.addr ∈ frees back := mem_frees.mpr ⟨c, hc, free, rfl⟩
          rw [hf] at this
          cases this
  | cons x xs =>
      obtain ⟨pre, b, post, rfl, hpre, bfree, rfl, hpost⟩ := exists_first_free hf
      rw [hf, segment_cons] at seg
      obtain ⟨rfl, seg⟩ := seg
      have hb : b ∈ front ++ (pre ++ b :: post) := by simp
      have size := s.headed b hb bfree
      have passed : h.freeListStart :: frees (front ++ pre) = as ++ [prev] := by
        rw [frees_append, hpre, List.append_nil, cells]
      have smallPre : ∀ c ∈ front ++ pre, c.label = none → c.size < required := by
        intro c hc free
        rcases List.mem_append.mp hc with hc | hc
        · exact small c hc free
        · have : c.addr ∈ frees pre := mem_frees.mpr ⟨c, hc, free, rfl⟩
          rw [hpre] at this
          cases this
      by_cases fits : required ≤ b.size
      · refine Or.inl ⟨(prev, b.addr), ?_, Or.inr ⟨front ++ pre, b, post, as, by simp, bfree, rfl,
          fits, smallPre, passed⟩⟩
        rw [advanceSearch, if_neg]
        exact fun both => absurd both.1 (by rw [size]; omega)
      · have above : h.nextFreeBlock b.addr ≠ NULL := by
          have bounds := tiled_bounds s.tiled hb
          have := (s.sizes b hb).1
          unfold NULL
          unfold Tile.stop at bounds
          cases xs with
          | nil =>
              rw [segment_nil] at seg
              omega
          | cons y ys =>
              obtain ⟨d, hd, -, dy⟩ := mem_frees.mp (hpost ▸ List.mem_cons_self : y ∈ frees post)
              have tiles := (tiled_middle.mp (by simpa using s.tiled :
                Tiled start ((front ++ pre) ++ b :: post) h.freeListEnd)).2
              have := (tiled_bounds tiles hd).1
              have := seg.1
              unfold Tile.stop at *
              omega
        refine Or.inr ⟨xs.length, (b.addr, h.nextFreeBlock b.addr), ?_, ?_,
          front ++ pre ++ [b], post,
            h.freeListStart :: frees (front ++ pre), by simp, by rw [hpost],
          ?_, ?_, ?_⟩
        · rw [List.length_cons]
          omega
        · rw [advanceSearch, if_pos]
          exact ⟨by rw [size]; omega, above⟩
        · intro c hc free
          rcases List.mem_append.mp hc with hc | hc
          · exact smallPre c hc free
          · rw [List.mem_singleton.mp hc]
            omega
        · rw [frees_append, frees_cons_free bfree]
          rfl
        · rw [hpost]
          exact seg

end Search

/-! ### internalMalloc -/

section Malloc

variable {h : Heap} {start : Nat} {pre post : List Block} {b : Block}

/-- Unlinking a listed free block puts it in limbo. -/
theorem unlink_limbo (s : Shaped h start (pre ++ b :: post))
    (listed : Listed h (frees (pre ++ b :: post))) (free : b.label = none) {as : List Nat}
    {prev : Nat} (last : h.freeListStart :: frees pre = as ++ [prev]) :
    Limbo (h.setNextFreeBlock prev (h.nextFreeBlock b.addr)) start pre b post ∧
      h.nextFreeBlock prev = b.addr := by
  have hb : b ∈ pre ++ b :: post := by simp
  have cell : prev ∈ h.freeListStart :: frees (pre ++ b :: post) := by
    rw [frees_append, ← List.cons_append, last]
    simp
  have header : IsHeader h (pre ++ b :: post) prev := Shaped.isHeader_of_cell cell
  have sizes : ∀ x, IsHeader h (pre ++ b :: post) x →
      (h.setNextFreeBlock prev (h.nextFreeBlock b.addr)).blockSize x = h.blockSize x := fun x hx =>
    setNextFreeBlock_blockSize (s.apart header hx)
  have nodup := s.cells_nodup
  simp only [Listed, frees_append, frees_cons_free free, ← List.cons_append, last,
    List.append_assoc] at listed nodup
  obtain ⟨segPre, prevNext, segPost⟩ := segment_middle.mp listed
  simp only [List.nodup_append, List.cons_append, List.nil_append, List.nodup_cons, List.mem_cons,
    not_or] at nodup
  obtain ⟨-, ⟨⟨-, prevPost⟩, -, -⟩, disjoint⟩ := nodup
  refine ⟨{ toShaped := s.congr rfl rfl (fun c hc _ => sizes c.addr (isHeader_of_mem hc))
              ⟨sizes _ (Or.inr (Or.inl rfl)), ?_⟩ (sizes _ (Or.inl rfl))
            free := free
            listed := ?_ }, prevNext⟩
  · -- The end marker is not a cell of the list.
    rw [setNextFreeBlock_nextFreeBlock, if_neg]
    rintro rfl
    rcases List.mem_cons.mp cell with e | e
    · have out := s.outside
      have bounds := s.mem_frees_bounds (mem_frees.mpr ⟨b, hb, free, rfl⟩)
      unfold structSize at out
      omega
    · have := s.mem_frees_bounds e
      omega
  · change Segment _ h.freeListStart (h.freeListStart :: (frees pre ++ frees post)) _
    rw [← List.cons_append, last, List.append_assoc]
    refine segment_middle.mpr ⟨(segment_congr fun x hx => ?_).mpr segPre, ?_⟩
    · rw [setNextFreeBlock_nextFreeBlock, if_neg]
      exact disjoint x hx prev (Or.inl rfl)
    · rw [setNextFreeBlock_nextFreeBlock, if_pos rfl]
      refine (segment_congr fun x hx => ?_).mpr segPost
      rw [setNextFreeBlock_nextFreeBlock, if_neg]
      rintro rfl
      exact prevPost hx

/-- The two halves of a split block. -/
def lower (b : Block) (required requested : Nat) : Block := ⟨b.addr, required, some requested⟩

def upper (b : Block) (required : Nat) : Block := ⟨b.addr + required, b.size - required, none⟩

/-- The blocks on both sides of a block start elsewhere. -/
theorem Shaped.side_ne (s : Shaped h start (pre ++ b :: post)) {c : Block}
    (side : c ∈ pre ∨ c ∈ post) : c.addr ≠ b.addr := by
  intro e
  have tiles := tiled_middle.mp s.tiled
  have := (s.sizes b (by simp)).1
  unfold Tile.stop at tiles
  rcases side with hc | hc
  · have := (s.sizes c (by simp [hc])).1
    have := tiled_bounds tiles.1 hc
    unfold Tile.stop at this
    omega
  · have := tiled_bounds tiles.2 hc
    omega

/-- The two header writes of a split. -/
def split (h : Heap) (b : Block) (required : Nat) : Heap :=
  (h.setBlockSize (b.addr + required) (b.size - required)).setBlockSize b.addr required

/-- A split writes inside the block, away from every other header. -/
theorem split_others (s : Shaped h start (pre ++ b :: post)) {required : Nat}
    (large : 24 ≤ required) (rest : required + 32 < b.size) {x : Nat}
    (hx : IsHeader h (pre ++ b :: post) x) (ne : x ≠ b.addr) :
    (split h b required).nextFreeBlock x = h.nextFreeBlock x ∧
      (split h b required).blockSize x = h.blockSize x := by
  have hb : b ∈ pre ++ b :: post := by simp
  have clear : Apart (b.addr + required) x ∧ x ≠ b.addr + required := by
    have bounds := tiled_bounds s.tiled hb
    have out := s.outside
    unfold structSize at out
    unfold Tile.stop at bounds
    unfold Apart structSize
    rcases hx with rfl | rfl | ⟨c, hc, rfl⟩
    · omega
    · omega
    · have size := (s.sizes c hc).1
      have disjoint := tiled_apart s.tiled hc hb fun e => ne (congrArg _ e)
      unfold Tile.stop at disjoint
      omega
  have apart := s.apart (isHeader_of_mem hb) hx
  constructor
  · rw [split, setBlockSize_nextFreeBlock apart, setBlockSize_nextFreeBlock clear.1]
  · rw [split, setBlockSize_blockSize, if_neg ne, setBlockSize_blockSize, if_neg clear.2]

/-- Writing the two headers of a split puts the upper half in limbo. -/
theorem split_limbo (requested : Nat) (l : Limbo h start pre b post) {required : Nat}
    (large : 24 ≤ required) (dvd : 8 ∣ required) (rest : required + 32 < b.size) :
    Limbo (split h b required) start (pre ++ [lower b required requested]) (upper b required)
      post := by
  have hb := l.mem
  have bounds := tiled_bounds l.tiled hb
  have mult := (l.sizes b hb).2
  have out := l.outside
  have tiles := tiled_middle.mp l.tiled
  unfold structSize at out
  unfold Tile.stop at bounds
  have others := fun {x} => split_others (x := x) l.toShaped large rest
  have sub : ∀ c ∈ pre ++ [lower b required requested] ++ upper b required :: post,
      c = lower b required requested ∨ c = upper b required ∨ c ∈ pre ∨ c ∈ post := by
    intro c hc
    simp only [List.mem_append, List.mem_cons, List.not_mem_nil, or_false] at hc
    tauto
  have side : ∀ c, c ∈ pre ∨ c ∈ post → c ∈ pre ++ b :: post := fun c hc => by
    simp only [List.mem_append, List.mem_cons]
    tauto
  refine { tiled := ?_, sizes := ?_, headed := ?_, marker := ?_, sentinel := ?_,
           outside := l.outside, bounded := l.bounded, free := rfl, listed := ?_ }
  · rw [List.append_assoc]
    refine tiled_middle.mpr ⟨tiles.1, rfl, ?_⟩
    have e : (upper b required).stop = b.stop := by
      simp only [Tile.stop, upper]
      omega
    rw [e]
    exact tiles.2
  · intro c hc
    rcases sub c hc with rfl | rfl | hc
    · exact ⟨large, dvd⟩
    · exact ⟨by simp only [upper]; omega, Nat.dvd_sub mult dvd⟩
    · exact l.sizes c (side c hc)
  · intro c hc cfree
    rcases sub c hc with rfl | rfl | hc
    · cases cfree
    · change _ = b.size - required
      have ne : (upper b required).addr ≠ b.addr := by
        change b.addr + required ≠ b.addr
        omega
      rw [split, setBlockSize_blockSize, if_neg ne, setBlockSize_blockSize]
      exact if_pos rfl
    · rw [(others (isHeader_of_mem (side c hc)) (l.side_ne hc)).2]
      exact l.headed c (side c hc) cfree
  · have same := others (Or.inr (Or.inl rfl)) (by omega)
    exact ⟨same.2.trans l.marker.1, same.1.trans l.marker.2⟩
  · exact (others (Or.inl rfl) (by omega)).2.trans l.sentinel
  · have e : frees (pre ++ [lower b required requested]) = frees pre := by
      rw [frees_append, frees_cons_live (n := requested) rfl]
      simp
    rw [e]
    refine l.listed.congr rfl rfl fun x hx => (others (Shaped.isHeader_of_cell ?_) ?_).1
    · simp only [frees_append, frees_cons_free l.free, List.mem_cons, List.mem_append] at hx ⊢
      tauto
    · rintro rfl
      have nodup := l.nodup
      simp only [List.cons_append, List.nodup_cons, List.mem_append, List.mem_cons,
        List.nodup_append] at hx nodup
      grind

/-- The last writes of an allocation: the counter, the allocated bit, the link. -/
def stamp (h : Heap) (block : Nat) : Heap :=
  (ALLOCATE_BLOCK (h.setBytesAvailable (sub64 h.bytesAvailable (h.blockSize block)))
    block).setNextFreeBlock block NULL

/-- Stamping the block to hand out completes the layout. -/
theorem stamp_layout {ts : List Block} {requested : Nat} (s : Shaped h start ts)
    (listed : Listed h (frees ts)) (hb : b ∈ ts) (live : b.label = some requested)
    (size : h.blockSize b.addr = b.size) (room : requested + structSize ≤ b.size)
    (bytes : h.bytesAvailable = freeBytes ts + b.size) (coalesced : Coalesced ts)
    (others : ∀ c ∈ ts, c ≠ b → ∀ n, c.label = some n → Stamped h c n) :
    Layout (stamp h b.addr) start ts := by
  have bounds := tiled_bounds s.tiled hb
  have bsize := (s.sizes b hb).1
  have small := s.bounded
  have out := s.outside
  have total : freeBytes ts + b.size < word := by
    have free : freeBytes ts ≤ (ts.map Tile.size).sum :=
      (List.Sublist.map Tile.size List.filter_sublist).sum_le_sum (by simp)
    have := tiled_sum s.tiled
    unfold Tile.stop at bounds
    unfold word
    omega
  have bit : b.size ||| BLOCK_ALLOCATED_BITMASK = b.size + topBit := by
    refine or_topBit ?_
    unfold Tile.stop at bounds
    unfold topBit
    omega
  have cell := isHeader_of_mem (h := h) hb
  have away : ∀ x, IsHeader h ts x → x ≠ b.addr →
      (stamp h b.addr).blockSize x = h.blockSize x ∧
        (stamp h b.addr).nextFreeBlock x = h.nextFreeBlock x := fun x hx ne => by
    constructor
    · rw [stamp, setNextFreeBlock_blockSize (s.apart cell hx), ALLOCATE_BLOCK,
        setBlockSize_blockSize, if_neg ne]
      rfl
    · rw [stamp, setNextFreeBlock_nextFreeBlock, if_neg ne, ALLOCATE_BLOCK,
        setBlockSize_nextFreeBlock (s.apart cell hx)]
      rfl
  have freeNe : ∀ c ∈ ts, c.label = none → c.addr ≠ b.addr := fun c hc free e => by
    rw [s.block_eq hc hb e, live] at free
    cases free
  unfold structSize at out
  unfold Tile.stop at bounds
  have endNe : h.freeListEnd ≠ b.addr := by omega
  have startNe : h.freeListStart ≠ b.addr := by omega
  refine { toShaped := s.congr rfl rfl (fun c hc free => ?_) ?_ ?_, listed := ?_, bytes := ?_,
           coalesced := coalesced, stamped := ?_ }
  · exact (away c.addr (isHeader_of_mem hc) (freeNe c hc free)).1
  · exact away h.freeListEnd (Or.inr (Or.inl rfl)) endNe
  · exact (away h.freeListStart (Or.inl rfl) startNe).1
  · refine listed.congr rfl rfl fun x hx => (away x (Shaped.isHeader_of_cell hx) ?_).2
    rcases List.mem_cons.mp hx with rfl | hx
    · exact startNe
    · obtain ⟨c, hc, free, rfl⟩ := mem_frees.mp hx
      exact freeNe c hc free
  · change sub64 h.bytesAvailable (h.blockSize b.addr) = _
    rw [size, bytes, sub64_of_le (by omega) total]
    omega
  · intro c hc n label
    by_cases same : c = b
    · subst same
      rw [live] at label
      cases label
      refine ⟨?_, ?_, room⟩
      · rw [stamp, setNextFreeBlock_blockSize (Or.inl rfl), ALLOCATE_BLOCK, setBlockSize_blockSize,
          if_pos rfl]
        change h.blockSize c.addr ||| BLOCK_ALLOCATED_BITMASK = _
        rw [size, bit]
      · rw [stamp, setNextFreeBlock_nextFreeBlock, if_pos rfl]
    · have keep := away c.addr (isHeader_of_mem hc) fun e => same (s.block_eq hc hb e)
      exact (others c hc same n label).congr keep.2 keep.1

/-- What `internalMalloc` computes once its search has found a block. -/
theorem internalMalloc_found {size fuel prev block : Nat}
    (valid : BLOCK_SIZE_IS_VALID (alinedRequiredSize size)) (pos : alinedRequiredSize size > 0)
    (le : alinedRequiredSize size ≤ h.bytesAvailable)
    (found : loop (advanceSearch h (alinedRequiredSize size)) fuel
      (h.freeListStart, h.nextFreeBlock h.freeListStart) = .ok (prev, block))
    (ne : block ≠ h.freeListEnd) :
    internalMalloc fuel size h =
      (splitBlock fuel (h.setNextFreeBlock prev (h.nextFreeBlock block)) block
        (alinedRequiredSize size)).map fun h' =>
          (stamp h' block, h.nextFreeBlock prev + structSize) := by
  rw [internalMalloc]
  simp only [if_pos (And.intro valid (And.intro pos le)), found, ok_bind, if_pos ne]
  cases splitBlock fuel (h.setNextFreeBlock prev (h.nextFreeBlock block)) block
    (alinedRequiredSize size) <;> rfl

/-- A live block between coalesced sides. -/
theorem coalesced_live {n : Nat} (hpre : Coalesced pre) (hpost : Coalesced post)
    (live : b.label = some n) : Coalesced (pre ++ b :: post) := by
  refine List.isChain_append.mpr ⟨hpre, List.isChain_cons.mpr ⟨?_, hpost⟩, ?_⟩
  · intro y _ both
    rw [live] at both
    cases both.1
  · intro x _ y hy both
    cases hy
    rw [live] at both
    cases both.2

/-- Unlinking a free block keeps the headers of the live ones. -/
theorem unlink_stamped (l : Layout h start (pre ++ b :: post)) {as : List Nat} {prev v : Nat}
    (last : h.freeListStart :: frees pre = as ++ [prev]) {c : Block} {n : Nat}
    (hc : c ∈ pre ++ b :: post) (label : c.label = some n) :
    Stamped (h.setNextFreeBlock prev v) c n := by
  have cell : prev ∈ h.freeListStart :: frees (pre ++ b :: post) := by
    rw [frees_append, ← List.cons_append, last]
    simp
  have apart := l.apart (Shaped.isHeader_of_cell cell) (isHeader_of_mem hc)
  refine (l.stamped c hc n label).congr ?_ (setNextFreeBlock_blockSize apart)
  rw [setNextFreeBlock_nextFreeBlock, if_neg]
  rintro rfl
  rcases List.mem_cons.mp cell with e | e
  · have out := l.outside
    have bounds := tiled_bounds l.tiled hc
    have := (l.sizes c hc).1
    unfold structSize at out
    unfold Tile.stop at bounds
    omega
  · obtain ⟨d, hd, free, e⟩ := mem_frees.mp e
    rw [l.block_eq hd hc e, label] at free
    cases free

section Take

variable {size required fuel : Nat}

/-- The block is large enough to be split: its lower part is handed out and the
rest goes back to the free list. -/
theorem takePart_layout (l : Limbo h start pre b post) (cpre : Coalesced pre)
    (cpost : Coalesced post) (bytes : h.bytesAvailable = freeBytes pre + b.size + freeBytes post)
    (stamped : ∀ c ∈ pre ++ b :: post, ∀ n, c.label = some n → Stamped h c n)
    (large : 24 ≤ required) (dvd : 8 ∣ required) (room : size + structSize ≤ required)
    (rest : required + 32 < b.size) (enough : (pre ++ b :: post).length < fuel) :
    ∃ h' ts, insertBlockIntoFreeList fuel (split h b required) (upper b required).addr = .ok h' ∧
      Layout (stamp h' b.addr) start ts ∧
        lives ts = lives pre ++ (payload b, size) :: lives post := by
  have limbo := split_limbo size l large dvd rest
  have cfront : Coalesced (pre ++ [lower b required size]) := coalesced_live cpre .nil rfl
  have count : (frees (pre ++ [lower b required size])).length < fuel := by
    have e : (frees (pre ++ [lower b required size])).length ≤
        (pre ++ [lower b required size]).length := by
      rw [frees, List.length_map]
      exact List.length_filter_le _ _
    simp only [List.length_append, List.length_cons] at enough e
    simp only [List.length_nil] at e
    omega
  obtain ⟨h', ts, run, relaid, chain⟩ := insert_relaid limbo cfront cpost count
  have hlow : lower b required size ∈
      liveBlocks (pre ++ [lower b required size] ++ upper b required :: post) :=
    mem_liveBlocks.mpr ⟨by simp, by simp [lower]⟩
  refine ⟨h', ts, run, ?_, ?_⟩
  · have mem := (mem_liveBlocks.mp (relaid.live_eq ▸ hlow : _ ∈ liveBlocks ts)).1
    refine stamp_layout (b := lower b required size) relaid.shaped relaid.listed mem rfl ?_ room
      ?_ chain ?_
    · rw [(relaid.kept _ hlow).2]
      exact setBlockSize_blockSize.trans (if_pos rfl)
    · rw [relaid.bytes_eq, relaid.free_eq, freeBytes_append, freeBytes_append,
        freeBytes_cons_live (b := lower b required size) rfl,
        freeBytes_cons_free (b := upper b required) rfl]
      refine bytes.trans ?_
      simp only [lower, upper, freeBytes_nil]
      omega
    · intro c hc ne n label
      have hc : c ∈ liveBlocks (pre ++ [lower b required size] ++ upper b required :: post) :=
        relaid.live_eq ▸ mem_liveBlocks.mpr ⟨hc, by simp [label]⟩
      have side : c ∈ pre ∨ c ∈ post := by
        have mem := (mem_liveBlocks.mp hc).1
        simp only [List.mem_append, List.mem_cons, List.not_mem_nil, or_false] at mem
        rcases mem with (mem | mem) | mem | mem
        · exact Or.inl mem
        · exact absurd mem ne
        · rw [mem] at label
          cases label
        · exact Or.inr mem
      have old : c ∈ pre ++ b :: post := by
        simp only [List.mem_append, List.mem_cons]
        tauto
      have keep := relaid.kept c hc
      have same := split_others l.toShaped large rest (isHeader_of_mem old) (l.side_ne side)
      exact (stamped c old n label).congr (keep.1.trans same.1) (keep.2.trans same.2)
  · rw [lives_eq_liveBlocks, relaid.live_eq, ← lives_eq_liveBlocks, lives_append, lives_append,
      lives_cons_live (b := lower b required size) rfl, lives_cons_free (b := upper b required) rfl]
    simp [payload, lower]

/-- The block is handed out whole. -/
theorem takeWhole_layout (l : Limbo h start pre b post) (cpre : Coalesced pre)
    (cpost : Coalesced post) (bytes : h.bytesAvailable = freeBytes pre + b.size + freeBytes post)
    (stamped : ∀ c ∈ pre ++ b :: post, ∀ n, c.label = some n → Stamped h c n)
    (room : size + structSize ≤ b.size) :
    Layout (stamp h b.addr) start (pre ++ ⟨b.addr, b.size, some size⟩ :: post) := by
  have sub : ∀ c ∈ pre ++ (⟨b.addr, b.size, some size⟩ : Block) :: post,
      c = ⟨b.addr, b.size, some size⟩ ∨ c ∈ pre ++ b :: post := fun c hc => by
    simp only [List.mem_append, List.mem_cons] at hc ⊢
    tauto
  have tiles := tiled_middle.mp l.tiled
  refine stamp_layout (b := ⟨b.addr, b.size, some size⟩)
    { tiled := ?_, sizes := ?_, headed := ?_, marker := l.marker, sentinel := l.sentinel,
      outside := l.outside, bounded := l.bounded } ?_ (by simp) rfl ?_ room ?_
    (coalesced_live cpre cpost rfl) ?_
  · exact tiled_middle.mpr ⟨tiles.1, tiles.2⟩
  · intro c hc
    rcases sub c hc with rfl | hc
    · exact l.sizes b l.mem
    · exact l.sizes c hc
  · intro c hc free
    rcases sub c hc with rfl | hc
    · cases free
    · exact l.headed c hc free
  · rw [frees_append, frees_cons_live (n := size) rfl]
    exact l.listed
  · exact l.headed b l.mem l.free
  · rw [bytes, freeBytes_append, freeBytes_cons_live (n := size) rfl]
    simp only []
    omega
  · intro c hc ne n label
    rcases sub c hc with rfl | hc
    · exact absurd rfl ne
    · exact stamped c hc n label

/-- Handing out a free block of a well-formed heap that has enough room. -/
theorem takeBlock_layout {prev : Nat} {as : List Nat} (l : Layout h start (pre ++ b :: post))
    (free : b.label = none) (last : h.freeListStart :: frees pre = as ++ [prev])
    (fits : required ≤ b.size) (large : 24 ≤ required) (dvd : 8 ∣ required)
    (room : size + structSize ≤ required) (enough : (pre ++ b :: post).length < fuel) :
    ∃ h' ts, splitBlock fuel (h.setNextFreeBlock prev (h.nextFreeBlock b.addr)) b.addr required
        = .ok h' ∧ Layout (stamp h' b.addr) start ts ∧
      lives ts = lives pre ++ (payload b, size) :: lives post := by
  obtain ⟨limbo, -⟩ := unlink_limbo l.toShaped l.listed free last
  have bsize := limbo.headed b limbo.mem free
  have stamped := fun c hc n => unlink_stamped (v := h.nextFreeBlock b.addr) l last (c := c)
    (n := n) hc
  have bytes : h.bytesAvailable = freeBytes pre + b.size + freeBytes post := by
    rw [l.bytes, freeBytes_append, freeBytes_cons_free free]
    omega
  have below : b.size < word := by
    have bounds := tiled_bounds l.tiled limbo.mem
    have := l.bounded
    unfold Tile.stop at bounds
    unfold word
    omega
  obtain ⟨cpre, cpost, -⟩ := List.isChain_append.mp l.coalesced
  have cpost := (List.isChain_cons.mp cpost).2
  rw [splitBlock, bsize, sub64_of_le fits below]
  by_cases rest : b.size - required > MINIMUM_BLOCK_SIZE_FOR_SPLIT
  · rw [if_pos rest]
    have rest : required + 32 < b.size := by
      unfold MINIMUM_BLOCK_SIZE_FOR_SPLIT structSize at rest
      omega
    exact takePart_layout limbo cpre cpost bytes stamped large dvd room rest enough
  · rw [if_neg rest]
    refine ⟨_, _, rfl, takeWhole_layout limbo cpre cpost bytes stamped (room.trans fits), ?_⟩
    rw [lives_append, lives_cons_live (n := size) rfl]
    rfl

end Take

/-- A request that some free block has room for passes the three tests on its size. -/
theorem Layout.admitted {ts : List Block} (l : Layout h start ts) {size : Nat} (pos : 0 < size)
    (fits : size + 23 < word) {c : Block} (hc : c ∈ ts) (free : c.label = none)
    (large : alinedRequiredSize size ≤ c.size) :
    BLOCK_SIZE_IS_VALID (alinedRequiredSize size) ∧ alinedRequiredSize size > 0 ∧
      alinedRequiredSize size ≤ h.bytesAvailable := by
  have aligned := alinedRequiredSize_eq pos fits
  have bounds := tiled_bounds l.tiled hc
  have small := l.bounded
  unfold Tile.stop at bounds
  refine ⟨(and_topBit_eq_zero ?_).mpr ?_, by omega, ?_⟩
  · unfold word at *
    omega
  · unfold topBit
    omega
  · obtain ⟨pre, post, rfl⟩ := List.append_of_mem hc
    rw [l.bytes, freeBytes_append, freeBytes_cons_free free]
    omega

/-- `internalMalloc` with a rounded size that does not wrap: it ends, and either nothing
has changed and no free block has enough room, or the lowest one that has was handed out. -/
theorem malloc_layout {ts : List Block} (l : Layout h start ts) {size fuel : Nat}
    (fits : size + 23 < word) (enough : ts.length < fuel) :
    (internalMalloc fuel size h = .ok (h, NULL) ∧
      (0 < size → ∀ c ∈ ts, c.label = none → c.size < alinedRequiredSize size)) ∨
      ∃ h' ts' pre b post, internalMalloc fuel size h = .ok (h', payload b) ∧
        ts = pre ++ b :: post ∧ b.label = none ∧ alinedRequiredSize size ≤ b.size ∧
        (∀ c ∈ pre, c.label = none → c.size < alinedRequiredSize size) ∧ Layout h' start ts' ∧
        lives ts = lives pre ++ lives post ∧
        lives ts' = lives pre ++ (payload b, size) :: lives post := by
  by_cases ok : BLOCK_SIZE_IS_VALID (alinedRequiredSize size) ∧ alinedRequiredSize size > 0 ∧
      alinedRequiredSize size ≤ h.bytesAvailable
  · obtain ⟨valid, pos, le⟩ := ok
    have sizePos : 0 < size := by
      by_contra zero
      rw [alinedRequiredSize, if_neg zero] at pos
      omega
    have aligned := alinedRequiredSize_eq sizePos fits
    have few : (frees ts).length < fuel := by
      refine Nat.lt_of_le_of_lt ?_ enough
      rw [frees, List.length_map]
      exact List.length_filter_le _ _
    obtain ⟨prev, block, found, outcome⟩ :=
      search_fit (alinedRequiredSize size) l.toShaped l.listed few
    rcases outcome with ⟨rfl, none⟩ | ⟨pre, b, post, as, rfl, free, rfl, large, first, last⟩
    · refine Or.inl ⟨?_, fun _ => none⟩
      rw [internalMalloc]
      simp only [if_pos (And.intro valid (And.intro pos le)), found, ok_bind, ne_eq,
        not_true_eq_false, if_false, pure_eq_ok]
    · right
      obtain ⟨h', ts', run, layout, live⟩ := takeBlock_layout l free last large
        (by omega) (by omega) (show size + structSize ≤ _ by unfold structSize; omega) enough
      have bounds := l.mem_frees_bounds (mem_frees.mpr ⟨b, by simp, free, rfl⟩)
      refine ⟨stamp h' b.addr, ts', pre, b, post, ?_, rfl, free, large, first, layout, ?_, live⟩
      · rw [internalMalloc_found valid pos le found (by omega), run,
          (unlink_limbo l.toShaped l.listed free last).2]
        rfl
      · rw [lives_append, lives_cons_free free]
  · refine Or.inl ⟨?_, fun pos c hc free => ?_⟩
    · rw [internalMalloc]
      simp only [if_neg ok, pure_eq_ok]
    · by_contra large
      refine ok (l.admitted pos fits hc free (Nat.not_lt.mp large))

end Malloc

/-! ### internalFree -/

section Free

variable {h : Heap} {start : Nat} {pre post : List Block} {b : Block}

/-- Clearing the allocated bit of a live block puts it in limbo. -/
theorem unstamp_limbo {n : Nat} (l : Layout h start (pre ++ b :: post)) (live : b.label = some n) :
    Limbo ((FREE_BLOCK h b.addr).setBytesAvailable (add64 h.bytesAvailable b.size)) start pre
        ⟨b.addr, b.size, none⟩ post ∧
      (FREE_BLOCK h b.addr).blockSize b.addr = b.size := by
  have hb : b ∈ pre ++ b :: post := by simp
  have cell := isHeader_of_mem (h := h) hb
  have bounds := tiled_bounds l.tiled hb
  have small := l.bounded
  have tiles := tiled_middle.mp l.tiled
  unfold Tile.stop at bounds
  have cleared : (FREE_BLOCK h b.addr).blockSize b.addr = b.size := by
    rw [FREE_BLOCK, setBlockSize_blockSize, if_pos rfl, (l.stamped b hb n live).size]
    exact and_not64_topBit (by unfold topBit; omega)
  have sizes : ∀ x, x ≠ b.addr → (FREE_BLOCK h b.addr).blockSize x = h.blockSize x := fun x ne => by
    rw [FREE_BLOCK, setBlockSize_blockSize, if_neg ne]
  have nexts : ∀ x, IsHeader h (pre ++ b :: post) x →
      (FREE_BLOCK h b.addr).nextFreeBlock x = h.nextFreeBlock x := fun x hx =>
    setBlockSize_nextFreeBlock (l.apart cell hx)
  have sub : ∀ c ∈ pre ++ (⟨b.addr, b.size, none⟩ : Block) :: post,
      c = ⟨b.addr, b.size, none⟩ ∨ (c ∈ pre ∨ c ∈ post) := fun c hc => by
    simp only [List.mem_append, List.mem_cons] at hc
    tauto
  have side : ∀ c, c ∈ pre ∨ c ∈ post → c ∈ pre ++ b :: post := fun c hc => by
    simp only [List.mem_append, List.mem_cons]
    tauto
  have out := l.outside
  have bsize := (l.sizes b hb).1
  unfold structSize at out
  refine ⟨{ tiled := tiled_middle.mpr ⟨tiles.1, tiles.2⟩, sizes := ?_, headed := ?_, marker := ?_,
            sentinel := ?_, outside := l.outside, bounded := l.bounded, free := rfl, listed := ?_ },
    cleared⟩
  · intro c hc
    rcases sub c hc with rfl | hc
    · exact l.sizes b hb
    · exact l.sizes c (side c hc)
  · intro c hc free
    rcases sub c hc with rfl | hc
    · exact cleared
    · exact (sizes c.addr (l.side_ne hc)).trans (l.headed c (side c hc) free)
  · exact ⟨(sizes h.freeListEnd (by omega)).trans l.marker.1,
      (nexts h.freeListEnd (Or.inr (Or.inl rfl))).trans l.marker.2⟩
  · exact (sizes h.freeListStart (by omega)).trans l.sentinel
  · have cells : frees (pre ++ b :: post) = frees pre ++ frees post := by
      rw [frees_append, frees_cons_live live]
    exact (cells ▸ l.listed).congr rfl rfl fun x hx =>
      nexts x (Shaped.isHeader_of_cell (cells ▸ hx))

/-- `internalFree` of a live pointer ends and takes exactly that block back. -/
theorem free_layout {n fuel : Nat} (l : Layout h start (pre ++ b :: post))
    (live : b.label = some n) (enough : (pre ++ b :: post).length < fuel) :
    ∃ h' ts, internalFree fuel (payload b) h = .ok h' ∧ Layout h' start ts ∧
      liveBlocks ts = liveBlocks pre ++ liveBlocks post := by
  have hb : b ∈ pre ++ b :: post := by simp
  have stamped := l.stamped b hb n live
  obtain ⟨limbo, cleared⟩ := unstamp_limbo l live
  have below : b.size < topBit := by
    have bounds := tiled_bounds l.tiled hb
    have := l.bounded
    unfold Tile.stop at bounds
    unfold topBit
    omega
  have allocated : BLOCK_IS_ALLOCATED h b.addr := by
    rw [BLOCK_IS_ALLOCATED, stamped.size]
    intro zero
    have := (and_topBit_eq_zero (n := b.size + topBit) (by unfold word topBit at *; omega)).mp zero
    omega
  obtain ⟨cpre, cpost, -⟩ := List.isChain_append.mp l.coalesced
  have cpost := (List.isChain_cons.mp cpost).2
  have count : (frees pre).length < fuel := by
    have : (frees pre).length ≤ pre.length := by
      rw [frees, List.length_map]
      exact List.length_filter_le _ _
    rw [List.length_append] at enough
    omega
  have total : freeBytes (pre ++ b :: post) + b.size < word := by
    have free : freeBytes (pre ++ b :: post) ≤ ((pre ++ b :: post).map Tile.size).sum :=
      (List.Sublist.map Tile.size List.filter_sublist).sum_le_sum (by simp)
    have := tiled_sum l.tiled
    have := l.bounded
    have bounds := tiled_bounds l.tiled hb
    unfold Tile.stop at bounds
    unfold word
    omega
  obtain ⟨h', ts, run, relaid, chain⟩ := insert_relaid limbo cpre cpost count
  have sameLive : liveBlocks ts = liveBlocks pre ++ liveBlocks post := by
    rw [relaid.live_eq, liveBlocks_append, liveBlocks_cons_free rfl]
  refine ⟨h', ts, ?_, ?_, sameLive⟩
  · have ptr : payload b ≠ NULL := by
      unfold payload structSize NULL
      omega
    have back : payload b - structSize = b.addr := Nat.add_sub_cancel _ _
    rw [internalFree, if_neg ptr]
    simp only [back, if_pos (And.intro allocated stamped.link), cleared]
    exact run
  · refine { toShaped := relaid.shaped, listed := relaid.listed, bytes := ?_, coalesced := chain,
             stamped := ?_ }
    · rw [relaid.bytes_eq, relaid.free_eq]
      change add64 h.bytesAvailable b.size = _
      rw [l.bytes, add64_of_lt total]
      rw [freeBytes_append, freeBytes_append, freeBytes_cons_live live, freeBytes_cons_free rfl]
      simp only []
      omega
    · intro c hc m label
      have hc : c ∈ liveBlocks (pre ++ ⟨b.addr, b.size, none⟩ :: post) :=
        relaid.live_eq ▸ mem_liveBlocks.mpr ⟨hc, by simp [label]⟩
      have side : c ∈ pre ∨ c ∈ post := by
        have mem := (mem_liveBlocks.mp hc).1
        simp only [List.mem_append, List.mem_cons] at mem
        rcases mem with mem | mem | mem
        · exact Or.inl mem
        · rw [mem] at label
          cases label
        · exact Or.inr mem
      have old : c ∈ pre ++ b :: post := by
        simp only [List.mem_append, List.mem_cons]
        tauto
      have keep := relaid.kept c hc
      refine (l.stamped c old m label).congr (keep.1.trans ?_) (keep.2.trans ?_)
      · exact setBlockSize_nextFreeBlock (l.apart (isHeader_of_mem hb) (isHeader_of_mem old))
      · exact setBlockSize_blockSize.trans (if_neg (l.side_ne side))

end Free

end SoTp.FreeList
