/-
Insertion of a block into the free list, with its four coalescing cases.

A block on its way back is in `Limbo`: its header gives its size, but the free
list does not visit it yet. `linkAfter` is proved equal to a composition of two
smaller edits, and each edit is shown to lay the heap out again (`Relaid`):

* `grow_relaid` — the free block right before it takes the block over;
* `link_relaid` — the block is linked between two free blocks;
* `absorb_relaid` — a listed free block takes over the free block right after it.

`insert_relaid` puts them together behind the search for the insertion point:
`insertBlockIntoFreeList` ends, keeps every live block and its header, keeps the
total of free bytes, and leaves no two free blocks touching.
-/

import Mathlib.Data.List.Chain
import SoTp.FreeList.Layout

namespace SoTp.FreeList

open SoTp.Lib

/-! ### Edits of a layout -/

/-- The blocks in the hands of the client. -/
def liveBlocks (ts : List Block) : List Block := ts.filter fun b => b.label.isSome

@[simp] theorem liveBlocks_append {ss ts : List Block} :
    liveBlocks (ss ++ ts) = liveBlocks ss ++ liveBlocks ts := by simp [liveBlocks]

theorem liveBlocks_cons_free {b : Block} {ts : List Block} (free : b.label = none) :
    liveBlocks (b :: ts) = liveBlocks ts := by simp [liveBlocks, free]

theorem mem_liveBlocks {b : Block} {ts : List Block} :
    b ∈ liveBlocks ts ↔ b ∈ ts ∧ b.label ≠ none := by
  simp [liveBlocks, Option.isSome_iff_ne_none]

theorem lives_eq_liveBlocks (ts : List Block) : lives ts = lives (liveBlocks ts) := by
  induction ts with
  | nil => rfl
  | cons t ts ih =>
      cases ht : t.label with
      | none => rw [lives_cons_free ht, liveBlocks_cons_free ht, ih]
      | some n =>
          have e : liveBlocks (t :: ts) = t :: liveBlocks ts := by simp [liveBlocks, ht]
          rw [lives_cons_live ht, e, lives_cons_live ht, ih]

/-- A block out of the free list whose header already gives its size. -/
structure Limbo (h : Heap) (start : Nat) (pre : List Block) (b : Block) (post : List Block) : Prop
    extends Shaped h start (pre ++ b :: post) where
  free : b.label = none
  listed : Listed h (frees pre ++ frees post)

/-- `h'` lays the blocks `ts` out as `ts'`: the free list is complete again, the
live blocks are the same and their headers are untouched. -/
structure Relaid (h h' : Heap) (start : Nat) (ts ts' : List Block) : Prop where
  shaped : Shaped h' start ts'
  listed : Listed h' (frees ts')
  start_eq : h'.freeListStart = h.freeListStart
  end_eq : h'.freeListEnd = h.freeListEnd
  bytes_eq : h'.bytesAvailable = h.bytesAvailable
  free_eq : freeBytes ts' = freeBytes ts
  live_eq : liveBlocks ts' = liveBlocks ts
  kept : ∀ c ∈ liveBlocks ts, h'.nextFreeBlock c.addr = h.nextFreeBlock c.addr ∧
    h'.blockSize c.addr = h.blockSize c.addr

theorem Relaid.trans {h₁ h₂ h₃ : Heap} {start : Nat} {ts₁ ts₂ ts₃ : List Block}
    (a : Relaid h₁ h₂ start ts₁ ts₂) (b : Relaid h₂ h₃ start ts₂ ts₃) :
    Relaid h₁ h₃ start ts₁ ts₃ where
  shaped := b.shaped
  listed := b.listed
  start_eq := b.start_eq.trans a.start_eq
  end_eq := b.end_eq.trans a.end_eq
  bytes_eq := b.bytes_eq.trans a.bytes_eq
  free_eq := b.free_eq.trans a.free_eq
  live_eq := b.live_eq.trans a.live_eq
  kept c hc := by
    have hb := b.kept c (a.live_eq ▸ hc)
    have ha := a.kept c hc
    exact ⟨hb.1.trans ha.1, hb.2.trans ha.2⟩

section Cells

variable {h : Heap} {start : Nat} {ts : List Block}

/-- Free blocks come in strictly increasing address order. -/
theorem Shaped.frees_pairwise (s : Shaped h start ts) : (frees ts).Pairwise (· < ·) := by
  have order : ts.Pairwise fun b c => b.addr < c.addr :=
    (tiled_pairwise s.tiled).imp_of_mem fun {b c} hb _ le => by
      have := (s.sizes b hb).1
      unfold Tile.stop at le
      omega
  exact List.pairwise_map.mpr (order.filter _)

/-- A free block is a header other than the sentinel and the end marker. -/
theorem Shaped.mem_frees_bounds (s : Shaped h start ts) {x : Nat} (hx : x ∈ frees ts) :
    start ≤ x ∧ x + 24 ≤ h.freeListEnd := by
  obtain ⟨b, hb, -, rfl⟩ := mem_frees.mp hx
  have := (s.sizes b hb).1
  have bounds := tiled_bounds s.tiled hb
  unfold Tile.stop at bounds
  omega

theorem Shaped.sentinel_not_mem (s : Shaped h start ts) : h.freeListStart ∉ frees ts :=
  fun mem => by
  have := s.mem_frees_bounds mem
  have := s.outside
  unfold structSize at this
  omega

theorem Shaped.cells_nodup (s : Shaped h start ts) : (h.freeListStart :: frees ts).Nodup :=
  List.nodup_cons.mpr ⟨s.sentinel_not_mem, s.frees_pairwise.imp Nat.ne_of_lt⟩

theorem Shaped.isHeader_of_cell {x : Nat} (hx : x ∈ h.freeListStart :: frees ts) :
    IsHeader h ts x := by
  rcases List.mem_cons.mp hx with rfl | hx
  · exact Or.inl rfl
  · obtain ⟨b, hb, -, e⟩ := mem_frees.mp hx
    exact Or.inr (Or.inr ⟨b, hb, e⟩)

end Cells

theorem isHeader_of_mem {h : Heap} {ts : List Block} {b : Block} (hb : b ∈ ts) :
    IsHeader h ts b.addr := Or.inr (Or.inr ⟨b, hb, rfl⟩)

/-! ### The three edits -/

/-- Link `b` after `it`. -/
def link (h : Heap) (it b : Nat) : Heap :=
  (h.setNextFreeBlock b (h.nextFreeBlock it)).setNextFreeBlock it b

theorem link_nextFreeBlock {h : Heap} {it b x : Nat} :
    (link h it b).nextFreeBlock x =
      if x = it then b else if x = b then h.nextFreeBlock it else h.nextFreeBlock x := by
  simp only [link, setNextFreeBlock_nextFreeBlock]

theorem link_blockSize {h : Heap} {it b x : Nat} (hit : Apart it x) (hb : Apart b x) :
    (link h it b).blockSize x = h.blockSize x := by
  rw [link, setNextFreeBlock_blockSize hit, setNextFreeBlock_blockSize hb]

section Edits

variable {h : Heap} {start : Nat} {pre post : List Block} {b : Block}

theorem Limbo.mem (_ : Limbo h start pre b post) : b ∈ pre ++ b :: post := by simp

/-- The cells around a block in limbo and the block itself are distinct. -/
theorem Limbo.nodup (l : Limbo h start pre b post) :
    (h.freeListStart :: frees pre ++ b.addr :: frees post).Nodup := by
  have nodup := l.cells_nodup
  rwa [frees_append, frees_cons_free l.free] at nodup

/-- The insertion point of a block in limbo: the last free cell below it. -/
theorem Limbo.last (l : Limbo h start pre b post) {as : List Nat} {it : Nat}
    (last : h.freeListStart :: frees pre = as ++ [it]) :
    IsHeader h (pre ++ b :: post) it ∧ it ≠ b.addr ∧ it ∉ as ∧ b.addr ∉ as ∧
      it ∉ frees post ∧ b.addr ∉ frees post := by
  have cell : it ∈ h.freeListStart :: frees pre :=
    last ▸ List.mem_append_right as List.mem_cons_self
  have header : IsHeader h (pre ++ b :: post) it := by
    refine Shaped.isHeader_of_cell (List.mem_cons.mpr ?_)
    rcases List.mem_cons.mp cell with e | e
    · exact Or.inl e
    · exact Or.inr (by simp [e])
  have nodup := l.nodup
  rw [last] at nodup
  simp only [List.append_assoc, List.cons_append, List.nil_append, List.nodup_append,
    List.nodup_cons, List.mem_cons, not_or] at nodup
  obtain ⟨-, ⟨⟨ne, post₁⟩, post₂, -⟩, disjoint⟩ := nodup
  refine ⟨header, ne, fun m => disjoint it m it (Or.inl rfl) rfl,
    fun m => disjoint b.addr m b.addr (Or.inr (Or.inl rfl)) rfl, post₁, post₂⟩

/-- What the insertion point links to: the first free block above, or the end. -/
theorem Limbo.list_split (l : Limbo h start pre b post) {as : List Nat} {it : Nat}
    (last : h.freeListStart :: frees pre = as ++ [it]) :
    Segment h.nextFreeBlock h.freeListStart as it ∧
      Segment h.nextFreeBlock (h.nextFreeBlock it) (frees post) h.freeListEnd := by
  have seg := l.listed
  rw [Listed, ← List.cons_append, last, List.append_assoc] at seg
  exact segment_middle.mp seg

theorem link_relaid (l : Limbo h start pre b post) {as : List Nat} {it : Nat}
    (last : h.freeListStart :: frees pre = as ++ [it]) :
    Relaid h (link h it b.addr) start (pre ++ b :: post) (pre ++ b :: post) := by
  obtain ⟨header, ne, asIt, asB, postIt, postB⟩ := l.last last
  obtain ⟨segPre, segPost⟩ := l.list_split last
  have cell := isHeader_of_mem (h := h) l.mem
  have sizes : ∀ x, IsHeader h (pre ++ b :: post) x →
      (link h it b.addr).blockSize x = h.blockSize x := fun x hx =>
    link_blockSize (l.apart header hx) (l.apart cell hx)
  have others : ∀ x, x ≠ it → x ≠ b.addr → (link h it b.addr).nextFreeBlock x = h.nextFreeBlock x :=
    fun x h₁ h₂ => by rw [link_nextFreeBlock, if_neg h₁, if_neg h₂]
  have bounds := tiled_bounds l.tiled l.mem
  have size := (l.sizes b l.mem).1
  unfold Tile.stop at bounds
  have endIt : h.freeListEnd ≠ it := fun e => by
    have := l.apart header cell
    have fr : it ∈ h.freeListStart :: frees pre :=
      last ▸ List.mem_append_right as List.mem_cons_self
    rcases List.mem_cons.mp fr with e' | m
    · have := l.outside
      unfold structSize at this
      omega
    · have := l.mem_frees_bounds (x := it) (by simp [m])
      omega
  refine { shaped := { l.toShaped with headed := ?_, marker := ⟨?_, ?_⟩, sentinel := ?_ },
           listed := ?_, start_eq := rfl, end_eq := rfl, bytes_eq := rfl, free_eq := rfl,
           live_eq := rfl, kept := ?_ }
  · intro c hc free
    rw [sizes c.addr (isHeader_of_mem hc)]
    exact l.headed c hc free
  · exact (sizes h.freeListEnd (Or.inr (Or.inl rfl))).trans l.marker.1
  · exact (others h.freeListEnd endIt (by omega)).trans l.marker.2
  · exact (sizes h.freeListStart (Or.inl rfl)).trans l.sentinel
  · rw [Listed, frees_append, frees_cons_free l.free, ← List.cons_append]
    change Segment _ h.freeListStart (h.freeListStart :: frees pre ++ b.addr :: frees post) _
    rw [last, List.append_assoc]
    refine segment_middle.mpr ⟨(segment_congr fun x hx => ?_).mpr segPre, ?_, ?_⟩
    · exact others x (ne_of_mem_of_not_mem hx asIt) (ne_of_mem_of_not_mem hx asB)
    · rw [link_nextFreeBlock, if_pos rfl]
    · rw [link_nextFreeBlock, if_neg (Ne.symm ne), if_pos rfl]
      refine (segment_congr fun x hx => ?_).mpr segPost
      exact others x (ne_of_mem_of_not_mem hx postIt) (ne_of_mem_of_not_mem hx postB)
  · intro c hc
    obtain ⟨hc, live⟩ := mem_liveBlocks.mp hc
    refine ⟨others c.addr (fun e => ?_) (fun e => live (l.block_eq hc l.mem e ▸ l.free)),
      sizes c.addr (isHeader_of_mem hc)⟩
    have fr : it ∈ h.freeListStart :: frees pre :=
      last ▸ List.mem_append_right as List.mem_cons_self
    rcases List.mem_cons.mp fr with e' | m
    · have := l.outside
      have := tiled_bounds l.tiled hc
      have := (l.sizes c hc).1
      unfold structSize Tile.stop at *
      omega
    · obtain ⟨d, hd, dfree, de⟩ := mem_frees.mp m
      exact live (l.block_eq hc (List.mem_append_left _ hd) (e.trans de.symm) ▸ dfree)

/-- Two neighbours made into one block. -/
def fuse (b c : Block) : Block := ⟨b.addr, b.size + c.size, none⟩

theorem tiled_fuse {a e : Nat} {pre post : List Block} {b c : Block} :
    Tiled a (pre ++ b :: c :: post) e → Tiled a (pre ++ fuse b c :: post) e := by
  simp only [tiled_middle, tiled_cons]
  rintro ⟨hpre, hc, hpost⟩
  refine ⟨hpre, ?_⟩
  unfold Tile.stop fuse at *
  rwa [← Nat.add_assoc, ← hc]

@[simp] theorem fuse_addr {b c : Block} : (fuse b c).addr = b.addr := rfl

@[simp] theorem fuse_size {b c : Block} : (fuse b c).size = b.size + c.size := rfl

@[simp] theorem fuse_label {b c : Block} : (fuse b c).label = none := rfl

/-- Fusing two neighbours, whatever becomes of the link of the first one. -/
theorem fuse_relaid {h' : Heap} {c : Block} (s : Shaped h start (pre ++ b :: c :: post))
    (bfree : b.label = none) (cfree : c.label = none)
    (start_eq : h'.freeListStart = h.freeListStart)
    (end_eq : h'.freeListEnd = h.freeListEnd) (bytes_eq : h'.bytesAvailable = h.bytesAvailable)
    (size : h'.blockSize b.addr = b.size + c.size)
    (others : ∀ x, IsHeader h (pre ++ b :: c :: post) x → x ≠ b.addr →
      h'.nextFreeBlock x = h.nextFreeBlock x ∧ h'.blockSize x = h.blockSize x)
    (listed : Listed h' (frees pre ++ b.addr :: frees post)) :
    Relaid h h' start (pre ++ b :: c :: post) (pre ++ fuse b c :: post) := by
  have hb : b ∈ pre ++ b :: c :: post := by simp
  have hc : c ∈ pre ++ b :: c :: post := by simp
  have bounds := s.mem_frees_bounds (x := b.addr) (by simp [frees_cons_free bfree])
  have out := s.outside
  unfold structSize at out
  have sub : ∀ d ∈ pre ++ fuse b c :: post,
      d = fuse b c ∨ d ∈ pre ++ b :: c :: post ∧ d ≠ b := by
    intro d hd
    by_cases e : d = fuse b c
    · exact Or.inl e
    · refine Or.inr ⟨?_, ?_⟩
      · simp only [List.mem_append, List.mem_cons, e, false_or] at hd ⊢
        tauto
      · rintro rfl
        -- A block of the old tiling that starts where the fused one does would overlap it.
        have overlap := tiled_apart (tiled_fuse s.tiled) hd (t := fuse d c) (by simp) e
        have := (s.sizes d hb).1
        simp only [Tile.stop, fuse_addr, fuse_size] at overlap
        omega
  refine { shaped := { tiled := ?_, sizes := ?_, headed := ?_, marker := ?_, sentinel := ?_,
                       outside := ?_, bounded := ?_ },
           listed := ?_, start_eq := start_eq, end_eq := end_eq, bytes_eq := bytes_eq,
           free_eq := ?_, live_eq := ?_, kept := ?_ }
  · rw [end_eq]
    exact tiled_fuse s.tiled
  · intro d hd
    rcases sub d hd with rfl | ⟨hd, -⟩
    · have h₁ := s.sizes b hb
      have h₂ := s.sizes c hc
      rw [fuse_size]
      omega
    · exact s.sizes d hd
  · intro d hd dfree
    rcases sub d hd with rfl | ⟨hd, ne⟩
    · exact size
    · rw [(others d.addr (isHeader_of_mem hd) fun e => ne (s.block_eq hd hb e)).2]
      exact s.headed d hd dfree
  · rw [end_eq]
    have same := others h.freeListEnd (Or.inr (Or.inl rfl)) (by omega)
    rw [same.1, same.2]
    exact s.marker
  · rw [start_eq, (others h.freeListStart (Or.inl rfl) (by omega)).2]
    exact s.sentinel
  · rw [start_eq, end_eq]
    exact s.outside
  · rw [end_eq]
    exact s.bounded
  · rwa [frees_append, frees_cons_free fuse_label, fuse_addr]
  · rw [freeBytes_append, freeBytes_append, freeBytes_cons_free fuse_label,
      freeBytes_cons_free bfree, freeBytes_cons_free cfree, fuse_size]
    omega
  · simp only [liveBlocks_append, liveBlocks_cons_free bfree, liveBlocks_cons_free cfree,
      liveBlocks_cons_free fuse_label]
  · intro d hd
    obtain ⟨hd, live⟩ := mem_liveBlocks.mp hd
    exact others d.addr (isHeader_of_mem hd) fun e => live (s.block_eq hd hb e ▸ bfree)

/-- The listed free block `q` takes over the block in limbo right after it. -/
theorem grow_relaid {q : Block} (l : Limbo h start (pre ++ [q]) b post) (free : q.label = none) :
    Relaid h (h.setBlockSize q.addr (q.size + b.size)) start (pre ++ q :: b :: post)
      (pre ++ fuse q b :: post) := by
  have s : Shaped h start (pre ++ q :: b :: post) := by simpa using l.toShaped
  have cell : IsHeader h (pre ++ q :: b :: post) q.addr := isHeader_of_mem (by simp)
  have nexts : ∀ x, IsHeader h (pre ++ q :: b :: post) x →
      (h.setBlockSize q.addr (q.size + b.size)).nextFreeBlock x = h.nextFreeBlock x := fun x hx =>
    setBlockSize_nextFreeBlock (s.apart cell hx)
  refine fuse_relaid s free l.free rfl rfl rfl ?_ ?_ ?_
  · rw [setBlockSize_blockSize, if_pos rfl]
  · intro x hx ne
    refine ⟨nexts x hx, ?_⟩
    rw [setBlockSize_blockSize, if_neg ne]
  · have seg := l.listed
    simp only [frees_append, frees_cons_free free, frees_nil, List.append_assoc,
      List.cons_append, List.nil_append] at seg
    refine (segment_congr fun x hx => nexts x (Shaped.isHeader_of_cell ?_)).mpr seg
    simp only [frees_append, frees_cons_free free, frees_cons_free l.free, List.mem_cons,
      List.mem_append] at hx ⊢
    tauto

/-- The free block `b` takes over the free block `r` right after it. -/
def absorb (h : Heap) (b r : Block) : Heap :=
  (h.setBlockSize b.addr (b.size + r.size)).setNextFreeBlock b.addr (h.nextFreeBlock r.addr)

theorem absorb_relaid {r : Block} (s : Shaped h start (pre ++ b :: r :: post))
    (listed : Listed h (frees (pre ++ b :: r :: post))) (bfree : b.label = none)
    (rfree : r.label = none) :
    Relaid h (absorb h b r) start (pre ++ b :: r :: post) (pre ++ fuse b r :: post) := by
  have cell : IsHeader h (pre ++ b :: r :: post) b.addr := isHeader_of_mem (by simp)
  have others : ∀ x, IsHeader h (pre ++ b :: r :: post) x → x ≠ b.addr →
      (absorb h b r).nextFreeBlock x = h.nextFreeBlock x ∧
        (absorb h b r).blockSize x = h.blockSize x := fun x hx ne => by
    constructor
    · rw [absorb, setNextFreeBlock_nextFreeBlock, if_neg ne,
        setBlockSize_nextFreeBlock (s.apart cell hx)]
    · rw [absorb, setNextFreeBlock_blockSize (s.apart cell hx), setBlockSize_blockSize, if_neg ne]
  refine fuse_relaid s bfree rfree rfl rfl rfl ?_ others ?_
  · rw [absorb, setNextFreeBlock_blockSize (Or.inl rfl), setBlockSize_blockSize, if_pos rfl]
  · have nodup := s.cells_nodup
    have header : ∀ x ∈ h.freeListStart :: frees (pre ++ b :: r :: post),
        IsHeader h (pre ++ b :: r :: post) x := fun x hx => Shaped.isHeader_of_cell hx
    simp only [Listed, frees_append, frees_cons_free bfree, frees_cons_free rfree,
      ← List.cons_append] at listed nodup header ⊢
    obtain ⟨segPre, -, segPost⟩ := segment_middle.mp listed
    rw [List.nodup_append] at nodup
    obtain ⟨-, tail, disjoint⟩ := nodup
    have skip : (absorb h b r).nextFreeBlock b.addr = h.nextFreeBlock r.addr := by
      rw [absorb, setNextFreeBlock_nextFreeBlock, if_pos rfl]
    refine segment_middle.mpr ⟨(segment_congr fun x hx => ?_).mpr segPre, ?_⟩
    · exact (others x (header x (List.mem_append_left _ hx))
        (disjoint x hx b.addr List.mem_cons_self)).1
    · rw [skip]
      refine (segment_congr fun x hx => (others x (header x ?_) ?_).1).mpr segPost
      · exact List.mem_append_right _ (List.mem_cons_of_mem _ (List.mem_cons_of_mem _ hx))
      · rintro rfl
        exact (List.nodup_cons.mp tail).1 (List.mem_cons_of_mem _ hx)

/-! ### The code as a composition of the edits -/

theorem Relaid.refl (s : Shaped h start pre) (listed : Listed h (frees pre)) :
    Relaid h h start pre pre :=
  ⟨s, listed, rfl, rfl, rfl, rfl, rfl, fun _ _ => ⟨rfl, rfl⟩⟩

/-- The first block of a list, if there is one, is live. -/
def HeadLive (ts : List Block) : Prop := ∀ t ∈ ts.head?, t.label ≠ none

/-- The last block of a list, if there is one, is live. -/
def LastLive (ts : List Block) : Prop := ∀ t ∈ ts.getLast?, t.label ≠ none

/-- A free block between live neighbours keeps a coalesced heap coalesced. -/
theorem coalesced_middle (hpre : Coalesced pre) (hpost : Coalesced post) (last : LastLive pre)
    (head : HeadLive post) : Coalesced (pre ++ b :: post) := by
  refine List.isChain_append.mpr ⟨hpre, List.isChain_cons.mpr ⟨?_, hpost⟩, ?_⟩
  · exact fun y hy both => head y hy both.2
  · exact fun x hx y _ both => last x hx both.1

/-- Writing the link a block already has changes nothing. -/
theorem setNextFreeBlock_self {x : Nat} : h.setNextFreeBlock x (h.nextFreeBlock x) = h := by
  obtain ⟨mem, s, e, n⟩ := h
  simp only [Heap.setNextFreeBlock, Heap.nextFreeBlock, Function.update_eq_self]

/-- What follows a listed free block in the list. -/
theorem list_tail (listed : Listed h (frees (pre ++ b :: post))) (bfree : b.label = none) :
    Segment h.nextFreeBlock (h.nextFreeBlock b.addr) (frees post) h.freeListEnd := by
  simp only [Listed, frees_append, frees_cons_free bfree, ← List.cons_append] at listed
  exact (segment_middle.mp listed).2

theorem mergeWithNext_adjacent {r : Block} (s : Shaped h start (pre ++ b :: r :: post))
    (listed : Listed h (frees (pre ++ b :: r :: post))) (bfree : b.label = none)
    (rfree : r.label = none) : mergeWithNext h b.addr b.addr = absorb h b r := by
  have hb : b ∈ pre ++ b :: r :: post := by simp
  have hr : r ∈ pre ++ b :: r :: post := by simp
  have next : h.nextFreeBlock b.addr = r.addr := by
    have seg := list_tail listed bfree
    rw [frees_cons_free rfree] at seg
    exact seg.1
  have touch : b.addr + b.size = r.addr := (tiled_middle.mp s.tiled).2.1.symm
  have rbounds := s.mem_frees_bounds (mem_frees.mpr ⟨r, hr, rfree, rfl⟩)
  have fits : b.size + r.size < word := by
    have b₁ := tiled_bounds s.tiled hb
    have b₂ := tiled_bounds s.tiled hr
    have := s.bounded
    unfold word Tile.stop at *
    omega
  have apart := s.apart (isHeader_of_mem hb) (isHeader_of_mem hr)
  rw [mergeWithNext, s.headed b hb bfree, next, if_pos touch, if_pos (by omega),
    s.headed r hr rfree, add64_of_lt fits, absorb]
  simp only [setBlockSize_nextFreeBlock (Or.inl rfl : Apart b.addr b.addr), next,
    setBlockSize_nextFreeBlock apart]

theorem mergeWithNext_separate (s : Shaped h start (pre ++ b :: post))
    (listed : Listed h (frees (pre ++ b :: post))) (bfree : b.label = none) (head : HeadLive post) :
    mergeWithNext h b.addr b.addr = h := by
  have hb : b ∈ pre ++ b :: post := by simp
  rw [mergeWithNext]
  split_ifs with touch marker
  · -- The next free block would start where the live block after `b` does.
    exfalso
    have seg := list_tail listed bfree
    cases hf : frees post with
    | nil =>
        rw [hf] at seg
        exact marker seg
    | cons c cs =>
        rw [hf, segment_cons] at seg
        obtain ⟨d, hd, dfree, dc⟩ := mem_frees.mp (hf ▸ List.mem_cons_self : c ∈ frees post)
        obtain ⟨r, rest, rfl⟩ := List.exists_cons_of_ne_nil (List.ne_nil_of_mem hd)
        have rlive : r.label ≠ none := head r rfl
        have tiles := (tiled_middle.mp s.tiled).2
        have rsize := (s.sizes r (by simp)).1
        rcases List.mem_cons.mp hd with rfl | hd
        · exact rlive dfree
        · have bounds := tiled_bounds tiles.2 hd
          have := tiles.1
          rw [s.headed b hb bfree] at touch
          unfold Tile.stop at *
          omega
  · rw [← not_not.mp marker]
    exact setNextFreeBlock_self
  · exact setNextFreeBlock_self

/-- `mergeWithNext` on a listed block: it ends up before a live block or the end. -/
theorem mergeWithNext_relaid (s : Shaped h start (pre ++ b :: post))
    (listed : Listed h (frees (pre ++ b :: post))) (bfree : b.label = none)
    (coalesced : Coalesced post) :
    ∃ b' post', Relaid h (mergeWithNext h b.addr b.addr) start (pre ++ b :: post)
      (pre ++ b' :: post') ∧ b'.label = none ∧ HeadLive post' ∧ Coalesced post' := by
  by_cases head : HeadLive post
  · rw [mergeWithNext_separate s listed bfree head]
    exact ⟨b, post, Relaid.refl s listed, bfree, head, coalesced⟩
  · obtain ⟨r, rest, rfl, rfree⟩ : ∃ r rest, post = r :: rest ∧ r.label = none := by
      cases post with
      | nil => exact absurd (fun t ht => nomatch ht) head
      | cons r rest => exact ⟨r, rest, rfl, by simpa [HeadLive] using head⟩
    rw [mergeWithNext_adjacent s listed bfree rfree]
    obtain ⟨after, chain⟩ := List.isChain_cons.mp coalesced
    exact ⟨fuse b r, rest, absorb_relaid s listed bfree rfree, rfl,
      fun t ht tfree => after t ht ⟨rfree, tfree⟩, chain⟩

/-- The insertion point does not touch the block: link first, merge afterwards. -/
theorem linkAfter_separate (l : Limbo h start pre b post) {as : List Nat} {it : Nat}
    (last : h.freeListStart :: frees pre = as ++ [it])
    (separate : it + h.blockSize it ≠ b.addr) :
    linkAfter h it b.addr = mergeWithNext (link h it b.addr) b.addr b.addr := by
  obtain ⟨header, ne, -, -, postIt, postB⟩ := l.last last
  have cell := isHeader_of_mem (h := h) l.mem
  have size : (link h it b.addr).blockSize b.addr = h.blockSize b.addr :=
    link_blockSize (l.apart header cell) (Or.inl rfl)
  have next : (link h it b.addr).nextFreeBlock b.addr = h.nextFreeBlock it := by
    rw [link_nextFreeBlock, if_neg (Ne.symm ne), if_pos rfl]
  have ends : (link h it b.addr).freeListEnd = h.freeListEnd := rfl
  have apart := l.apart header cell
  unfold Apart structSize at apart
  rw [linkAfter, mergeWithPrevious, if_neg separate]
  simp only [if_pos ne]
  rw [mergeWithNext, mergeWithNext, size, next, ends]
  split_ifs with touch marker
  · -- The next free block is a third header, untouched by the linking.
    have third : IsHeader h (pre ++ b :: post) (h.nextFreeBlock it) ∧
        h.nextFreeBlock it ≠ it ∧ h.nextFreeBlock it ≠ b.addr := by
      have seg := (l.list_split last).2
      cases hf : frees post with
      | nil =>
          rw [hf] at seg
          exact absurd seg marker
      | cons c cs =>
          rw [hf] at seg
          have hc : c ∈ frees post := hf ▸ List.mem_cons_self
          rw [seg.1]
          refine ⟨?_, ne_of_mem_of_not_mem hc postIt, ne_of_mem_of_not_mem hc postB⟩
          obtain ⟨d, hd, -, rfl⟩ := mem_frees.mp hc
          exact isHeader_of_mem (by simp [hd])
    have apart₁ := l.apart cell third.1
    have apart₂ := l.apart header third.1
    rw [link_blockSize apart₂ apart₁]
    simp only [setBlockSize_nextFreeBlock (Or.inl rfl : Apart b.addr b.addr), next,
      setBlockSize_nextFreeBlock apart₁,
      setBlockSize_nextFreeBlock (l.apart cell header), link_nextFreeBlock, if_neg third.2.1,
      if_neg third.2.2]
    simp only [link, Heap.setNextFreeBlock, Heap.setBlockSize, Heap.mk.injEq, and_true]
    funext x
    simp only [Function.update_apply]
    split_ifs <;> omega
  · simp only [link, Heap.setNextFreeBlock, Heap.mk.injEq, and_true]
    funext x
    simp only [Function.update_apply, Heap.nextFreeBlock] at marker ⊢
    split_ifs <;> simp_all
  · simp only [link, Heap.setNextFreeBlock, Heap.mk.injEq, and_true]
    funext x
    simp only [Function.update_apply]
    split_ifs <;> simp_all

/-- The insertion point touches the block: it takes the block over first. -/
theorem linkAfter_touching {it b : Nat} (touching : it + h.blockSize it = b) :
    linkAfter h it b = mergeWithNext
      (h.setBlockSize it (add64 (h.blockSize it) (h.blockSize b))) it it := by
  rw [linkAfter, mergeWithPrevious, if_pos touching]
  simp

/-! ### The whole insertion -/

/-- The search stops at the last free cell below the block. -/
theorem search_last (l : Limbo h start pre b post) {fuel : Nat}
    (enough : (frees pre).length < fuel) :
    ∃ it, loop (advanceIterator h b.addr) fuel h.freeListStart = .ok it ∧
      ∃ as, h.freeListStart :: frees pre = as ++ [it] := by
  have below : ∀ x ∈ frees pre, x < b.addr := fun x hx => by
    obtain ⟨c, hc, -, rfl⟩ := mem_frees.mp hx
    have tiles := (tiled_middle.mp l.tiled).1
    have := (tiled_bounds tiles hc).2
    have := (l.sizes c (by simp [hc])).1
    unfold Tile.stop at *
    omega
  have above : ∀ x, Segment h.nextFreeBlock x (frees post) h.freeListEnd → ¬ x < b.addr := by
    intro x seg
    have tiles := (tiled_middle.mp l.tiled).2
    have le := tiled_le tiles
    cases hf : frees post with
    | nil =>
        rw [hf, segment_nil] at seg
        unfold Tile.stop at le
        omega
    | cons c cs =>
        rw [hf] at seg
        obtain ⟨d, hd, -, dc⟩ := mem_frees.mp (hf ▸ List.mem_cons_self : c ∈ frees post)
        have := (tiled_bounds tiles hd).1
        have := seg.1
        unfold Tile.stop at *
        omega
  -- The cells the iterator has passed, and the `n` cells it still has to pass.
  refine loop_total
    (fun n it => ∃ as rest, h.freeListStart :: frees pre = as ++ it :: rest ∧ rest.length = n)
    (fun it => ∃ as, h.freeListStart :: frees pre = as ++ [it]) ?_
    ⟨[], frees pre, rfl, rfl⟩ enough
  rintro n it ⟨as, rest, cells, rfl⟩
  have seg := l.listed
  rw [Listed, ← List.cons_append, cells, List.append_assoc] at seg
  have seg := (segment_middle.mp seg).2
  cases rest with
  | nil =>
      refine Or.inl ⟨it, ?_, as, cells⟩
      rw [advanceIterator, if_neg (above _ seg)]
  | cons x rest =>
      have next : h.nextFreeBlock it = x := seg.1
      have mem : x ∈ frees pre := by
        cases as with
        | nil =>
            rw [List.nil_append, List.cons.injEq] at cells
            simp [cells.2]
        | cons a as =>
            rw [List.cons_append, List.cons.injEq] at cells
            simp [cells.2]
      refine Or.inr ⟨rest.length, x, Nat.lt_succ_self _, ?_, as ++ [it], rest, ?_, rfl⟩
      · rw [advanceIterator, next, if_pos (below x mem)]
      · rw [cells, List.append_assoc]
        rfl

/-- The block before the insertion point's successor, when the two touch. -/
theorem Limbo.touching (l : Limbo h start pre b post) {as : List Nat} {it : Nat}
    (last : h.freeListStart :: frees pre = as ++ [it]) (touch : it + h.blockSize it = b.addr) :
    ∃ front q, pre = front ++ [q] ∧ q.label = none ∧ q.addr = it := by
  rcases List.eq_nil_or_concat as with rfl | ⟨cs, c, rfl⟩
  · -- The sentinel has size 0 and lies outside of the heap.
    rw [List.nil_append, List.cons.injEq] at last
    obtain ⟨rfl, -⟩ := last
    rw [l.sentinel] at touch
    exact absurd (List.mem_map.mpr ⟨b, List.mem_filter.mpr ⟨l.mem, by simp [l.free]⟩, touch.symm⟩)
      l.sentinel_not_mem
  · obtain ⟨as', e⟩ : ∃ as', frees pre = as' ++ [it] := by
      cases cs with
      | nil => exact ⟨[], by simpa using (List.cons.inj last).2⟩
      | cons d ds => exact ⟨ds ++ [c], by simpa using (List.cons.inj last).2⟩
    obtain ⟨front, q, back, rfl, -, qfree, rfl, -⟩ := exists_last_free e
    have hq : q ∈ front ++ q :: back ++ b :: post := by simp
    rw [l.headed q hq qfree] at touch
    have tiles := (tiled_middle.mp (tiled_middle.mp l.tiled).1).2
    rw [Tile.stop, touch] at tiles
    have empty := tiled_eq_nil tiles fun t ht => by
      have := (l.sizes t (by simp [ht])).1
      omega
    exact ⟨front, q, by rw [empty], qfree, rfl⟩

/-- The insertion point does not touch the block: no free block is right before it. -/
theorem Limbo.separate (l : Limbo h start pre b post) {as : List Nat} {it : Nat}
    (last : h.freeListStart :: frees pre = as ++ [it]) (separate : it + h.blockSize it ≠ b.addr) :
    LastLive pre := by
  intro q hq qfree
  obtain ⟨front, rfl⟩ := List.getLast?_eq_some_iff.mp hq
  have cells : h.freeListStart :: frees front ++ [q.addr] = as ++ [it] := by
    rw [← last, frees_append, frees_cons_free qfree]
    rfl
  obtain ⟨-, e⟩ := List.append_inj' cells rfl
  have mem : q ∈ front ++ [q] ++ b :: post := by simp
  have tiles := (tiled_middle.mp (tiled_middle.mp l.tiled).1).2
  apply separate
  rw [← (List.cons.inj e).1, l.headed q mem qfree]
  exact tiles

/-- `insertBlockIntoFreeList` ends and lays the heap out with the block listed and
merged with its free neighbours. -/
theorem insert_relaid (l : Limbo h start pre b post) (hpre : Coalesced pre)
    (hpost : Coalesced post) {fuel : Nat} (enough : (frees pre).length < fuel) :
    ∃ h' ts, insertBlockIntoFreeList fuel h b.addr = .ok h' ∧
      Relaid h h' start (pre ++ b :: post) ts ∧ Coalesced ts := by
  obtain ⟨it, found, as, last⟩ := search_last l enough
  have run : insertBlockIntoFreeList fuel h b.addr = .ok (linkAfter h it b.addr) := by
    rw [insertBlockIntoFreeList, found]
    rfl
  by_cases touch : it + h.blockSize it = b.addr
  · obtain ⟨front, q, rfl, qfree, rfl⟩ := l.touching last touch
    have hq : q ∈ front ++ [q] ++ b :: post := by simp
    have fits : q.size + b.size < word := by
      have b₁ := tiled_bounds l.tiled hq
      have b₂ := tiled_bounds l.tiled l.mem
      have := (l.headed q hq qfree) ▸ touch
      have := l.bounded
      unfold word Tile.stop at *
      omega
    have grown := grow_relaid l qfree
    obtain ⟨b', post', merged, free, head, chain⟩ :=
      mergeWithNext_relaid grown.shaped grown.listed fuse_label hpost
    obtain ⟨hfront, -, lastq⟩ := List.isChain_append.mp hpre
    refine ⟨_, front ++ b' :: post', run, ?_,
      coalesced_middle hfront chain (fun t ht tfree => ?_) head⟩
    · rw [linkAfter_touching touch, l.headed q hq qfree, l.headed b l.mem l.free,
        add64_of_lt fits]
      simpa using grown.trans merged
    · exact lastq t ht q rfl ⟨tfree, qfree⟩
  · have linked := link_relaid l last
    obtain ⟨b', post', merged, free, head, chain⟩ :=
      mergeWithNext_relaid linked.shaped linked.listed l.free hpost
    refine ⟨_, pre ++ b' :: post', run, ?_,
      coalesced_middle hpre chain (l.separate last touch) head⟩
    rw [linkAfter_separate l last touch]
    exact linked.trans merged

end Edits

end SoTp.FreeList
