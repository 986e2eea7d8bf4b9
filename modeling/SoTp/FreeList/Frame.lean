/-
What a call to the free-list allocator leaves alone. The allocator writes
nothing but headers, and only the headers of its sentinel, of its free blocks
and of the block it hands out or takes back.

* `internalMalloc_ends`, `internalFree_ends` — the sentinel and the end marker
  stay where they are.
* `malloc_framed` — `internalMalloc` writes inside the sentinel and the blocks
  that were free before the call.
* `free_framed` — `internalFree` writes there and in the header it is given.
-/

import SoTp.FreeList.Alloc

namespace SoTp.FreeList

open SoTp.Lib

/-- From `h` to `h'` only headers at the addresses in `S` have changed. -/
structure Framed (S : Nat → Prop) (h h' : Heap) : Prop where
  start : h'.freeListStart = h.freeListStart
  stop : h'.freeListEnd = h.freeListEnd
  outside : ∀ a, (∀ x, S x → a ≠ x ∧ a ≠ x + 8) → h'.mem a = h.mem a

namespace Framed

variable {S T : Nat → Prop} {h h' h'' : Heap} {x v : Nat}

theorem refl : Framed S h h := ⟨rfl, rfl, fun _ _ => rfl⟩

theorem trans (f : Framed S h h') (g : Framed S h' h'') : Framed S h h'' :=
  ⟨g.start.trans f.start, g.stop.trans f.stop,
    fun a out => (g.outside a out).trans (f.outside a out)⟩

theorem mono (f : Framed S h h') (sub : ∀ x, S x → T x) : Framed T h h' :=
  ⟨f.start, f.stop, fun a out => f.outside a fun x hx => out x (sub x hx)⟩

theorem setNextFreeBlock (hx : S x) : Framed S h (h.setNextFreeBlock x v) := by
  refine ⟨rfl, rfl, fun a out => ?_⟩
  exact Function.update_of_ne (out x hx).1 v h.mem

theorem setBlockSize (hx : S x) : Framed S h (h.setBlockSize x v) := by
  refine ⟨rfl, rfl, fun a out => ?_⟩
  exact Function.update_of_ne (out x hx).2 v h.mem

theorem setBytesAvailable : Framed S h (h.setBytesAvailable v) := ⟨rfl, rfl, fun _ _ => rfl⟩

end Framed

/-! ### Function by function -/

section Functions

variable {S : Nat → Prop} {h h' : Heap} {it b required fuel : Nat}

theorem mergeWithPrevious_framed (hit : S it) (hb : S b) :
    Framed S h (mergeWithPrevious h it b).1 ∧ S (mergeWithPrevious h it b).2 := by
  unfold mergeWithPrevious
  split_ifs
  · exact ⟨.setBlockSize hit, hit⟩
  · exact ⟨.refl, hb⟩

theorem mergeWithNext_framed (hb : S b) : Framed S h (mergeWithNext h it b) := by
  unfold mergeWithNext
  split_ifs
  · exact (Framed.setBlockSize hb).trans (.setNextFreeBlock hb)
  · exact .setNextFreeBlock hb
  · exact .setNextFreeBlock hb

theorem linkAfter_framed (hit : S it) (hb : S b) : Framed S h (linkAfter h it b) := by
  obtain ⟨previous, block⟩ := mergeWithPrevious_framed (h := h) hit hb
  have next : Framed S (mergeWithPrevious h it b).1
      (mergeWithNext (mergeWithPrevious h it b).1 it (mergeWithPrevious h it b).2) :=
    mergeWithNext_framed block
  have merged := previous.trans next
  simp only [linkAfter]
  split_ifs
  · exact merged.trans (.setNextFreeBlock hit)
  · exact merged

theorem insertBlockIntoFreeList_framed (hb : S b)
    (iterator : ∀ it, loop (advanceIterator h b) fuel h.freeListStart = .ok it → S it)
    (run : insertBlockIntoFreeList fuel h b = .ok h') : Framed S h h' := by
  obtain ⟨it, found, rest⟩ := bind_ok_iff.mp run
  cases rest
  exact linkAfter_framed (iterator it found) hb

theorem splitBlock_framed (hb : S b)
    (inserted : sub64 (h.blockSize b) required > MINIMUM_BLOCK_SIZE_FOR_SPLIT →
      S (b + required) ∧ ∀ it, loop (advanceIterator
        ((h.setBlockSize (b + required) (sub64 (h.blockSize b) required)).setBlockSize b required)
        (b + required)) fuel h.freeListStart = .ok it → S it)
    (run : splitBlock fuel h b required = .ok h') : Framed S h h' := by
  unfold splitBlock at run
  split_ifs at run with rest
  · obtain ⟨link, iterator⟩ := inserted rest
    have upper : Framed S h (h.setBlockSize (b + required) (sub64 (h.blockSize b) required)) :=
      .setBlockSize link
    exact (upper.trans (.setBlockSize hb)).trans (insertBlockIntoFreeList_framed link iterator run)
  · cases run
    exact .refl

theorem stamp_framed (hb : S b) : Framed S h (stamp h b) :=
  (Framed.setBytesAvailable.trans (.setBlockSize hb)).trans (.setNextFreeBlock hb)

/-- `internalMalloc` moves neither the sentinel nor the end marker. -/
theorem internalMalloc_ends {size p : Nat} (run : internalMalloc fuel size h = .ok (h', p)) :
    Framed (fun _ => True) h h' := by
  unfold internalMalloc at run
  simp only [] at run
  split_ifs at run
  · obtain ⟨found, -, rest⟩ := bind_ok_iff.mp run
    split_ifs at rest
    · obtain ⟨g, split, rest⟩ := bind_ok_iff.mp rest
      cases rest
      have unlinked := Framed.setNextFreeBlock (S := fun _ => True) (h := h) (x := found.1)
        (v := h.nextFreeBlock found.2) trivial
      exact (unlinked.trans (splitBlock_framed trivial
        (fun _ => ⟨trivial, fun _ _ => trivial⟩) split)).trans (stamp_framed trivial)
    · cases rest
      exact .refl
  · cases run
    exact .refl

/-- `internalFree` moves neither the sentinel nor the end marker. -/
theorem internalFree_ends {p : Nat} (run : internalFree fuel p h = .ok h') :
    Framed (fun _ => True) h h' := by
  unfold internalFree at run
  simp only [] at run
  split_ifs at run
  · cases run
    exact .refl
  · have freed : Framed (fun _ => True) h (FREE_BLOCK h (p - structSize)) :=
      .setBlockSize trivial
    exact (freed.trans .setBytesAvailable).trans
      (insertBlockIntoFreeList_framed trivial (fun _ _ => trivial) run)
  · cases run
    exact .refl

end Functions

/-! ### Well-formed heaps -/

/-- A header inside the sentinel or a free block. -/
def FreeSpace (h : Heap) (ts : List Block) (x : Nat) : Prop :=
  x = h.freeListStart ∨ ∃ b ∈ ts, b.label = none ∧ b.addr ≤ x ∧ x + structSize ≤ b.stop

section Layouts

variable {h h' : Heap} {start fuel : Nat} {ts pre post : List Block} {b : Block}

theorem Shaped.freeSpace_of_free (s : Shaped h start ts) (hb : b ∈ ts) (free : b.label = none) :
    FreeSpace h ts b.addr := by
  refine Or.inr ⟨b, hb, free, Nat.le_refl _, ?_⟩
  have size := (s.sizes b hb).1
  unfold Tile.stop structSize
  omega

theorem Shaped.freeSpace_of_cell (s : Shaped h start ts) {x : Nat}
    (cell : x ∈ h.freeListStart :: frees ts) : FreeSpace h ts x := by
  rcases List.mem_cons.mp cell with rfl | mem
  · exact Or.inl rfl
  · obtain ⟨b, hb, free, rfl⟩ := mem_frees.mp mem
    exact s.freeSpace_of_free hb free

/-- The iterator of an insertion stops at the last free cell below the block. -/
theorem Limbo.iterator_last (l : Limbo h start pre b post) {it : Nat}
    (found : loop (advanceIterator h b.addr) fuel h.freeListStart = .ok it) :
    ∃ as, h.freeListStart :: frees pre = as ++ [it] := by
  obtain ⟨it', found', as, cells⟩ :=
    search_last l (show (frees pre).length < max fuel ((frees pre).length + 1) by omega)
  cases (loop_mono (Nat.le_max_left fuel _) found).symm.trans found'
  exact ⟨as, cells⟩

theorem Limbo.iterator_cell (l : Limbo h start pre b post) {it : Nat}
    (found : loop (advanceIterator h b.addr) fuel h.freeListStart = .ok it) :
    it ∈ h.freeListStart :: frees pre := by
  obtain ⟨as, cells⟩ := l.iterator_last found
  rw [cells]
  simp

/-- `internalMalloc` writes inside the sentinel and the free blocks. -/
theorem malloc_framed {size p : Nat} (l : Layout h start ts) (fits : size + 23 < word)
    (run : internalMalloc fuel size h = .ok (h', p)) : Framed (FreeSpace h ts) h h' := by
  unfold internalMalloc at run
  simp only [] at run
  split_ifs at run with ok
  · obtain ⟨found, search, rest⟩ := bind_ok_iff.mp run
    split_ifs at rest with block
    · obtain ⟨prev', block', search', outcome⟩ := search_fit (alinedRequiredSize size) l.toShaped
        l.listed (show (frees ts).length < max fuel ((frees ts).length + 1) by omega)
      cases (loop_mono (Nat.le_max_left fuel _) search).symm.trans search'
      rcases outcome with ⟨stop, -⟩ | ⟨pre, b, post, as, rfl, free, rfl, large, -, last⟩
      · exact absurd stop block
      obtain ⟨g, split, rest⟩ := bind_ok_iff.mp rest
      cases rest
      have hb : b ∈ pre ++ b :: post := by simp
      obtain ⟨limbo, -⟩ := unlink_limbo l.toShaped l.listed free last
      have cell : ∀ x ∈ h.freeListStart :: frees pre, FreeSpace h (pre ++ b :: post) x :=
        fun x hx => l.freeSpace_of_cell (by
          rw [frees_append, ← List.cons_append]
          exact List.mem_append_left _ hx)
      have target := l.freeSpace_of_free hb free
      have unlinked : Framed (FreeSpace h (pre ++ b :: post)) h
          (h.setNextFreeBlock prev' (h.nextFreeBlock b.addr)) :=
        .setNextFreeBlock (cell prev' (last ▸ by simp))
      refine (unlinked.trans (splitBlock_framed target (fun rest => ?_) split)).trans
        (stamp_framed target)
      -- The upper part of the block is still inside of it.
      have aligned : 24 ≤ alinedRequiredSize size ∧ 8 ∣ alinedRequiredSize size := by
        have sizePos : 0 < size := by
          by_contra zero
          rw [alinedRequiredSize, if_neg zero] at ok
          omega
        rw [alinedRequiredSize_eq sizePos fits]
        omega
      have bsize := limbo.headed b limbo.mem free
      have below : b.size < word := by
        have bounds := tiled_bounds l.tiled hb
        have := l.bounded
        unfold Tile.stop at bounds
        unfold word
        omega
      rw [bsize, sub64_of_le large below] at rest ⊢
      unfold MINIMUM_BLOCK_SIZE_FOR_SPLIT structSize at rest
      have limbo' := split_limbo size limbo aligned.1 aligned.2 (by omega)
      refine ⟨Or.inr ⟨b, hb, free, Nat.le_add_right _ _, ?_⟩, fun it found => ?_⟩
      · unfold Tile.stop structSize
        omega
      · have stopped := limbo'.iterator_cell found
        rw [frees_append, frees_cons_live (n := size) rfl, frees_nil, List.append_nil] at stopped
        exact cell it stopped
    · cases rest
      exact .refl
  · cases run
    exact .refl

/-- `internalFree` of a live pointer writes there too, and in the header before
the pointer. -/
theorem free_framed {p n : Nat} (l : Layout h start ts) (live : (p, n) ∈ lives ts)
    (run : internalFree fuel p h = .ok h') :
    Framed (fun x => FreeSpace h ts x ∨ x + structSize = p) h h' := by
  obtain ⟨b, hb, label, rfl⟩ := mem_lives.mp live
  obtain ⟨pre, post, rfl⟩ := List.append_of_mem hb
  obtain ⟨limbo, cleared⟩ := unstamp_limbo l label
  have back : payload b - structSize = b.addr := Nat.add_sub_cancel _ _
  have target : FreeSpace h (pre ++ b :: post) b.addr ∨ b.addr + structSize = payload b :=
    Or.inr rfl
  unfold internalFree at run
  simp only [back] at run
  split_ifs at run
  · cases run
    exact .refl
  · rw [cleared] at run
    have freed : Framed (fun x => FreeSpace h (pre ++ b :: post) x ∨ x + structSize = payload b) h
        (FREE_BLOCK h b.addr) := .setBlockSize target
    refine (freed.trans .setBytesAvailable).trans
      (insertBlockIntoFreeList_framed target (fun it found => ?_) run)
    have stopped := limbo.iterator_cell found
    refine Or.inl (l.freeSpace_of_cell ?_)
    rw [frees_append, ← List.cons_append]
    exact List.mem_append_left _ stopped
  · cases run
    exact .refl

end Layouts

end SoTp.FreeList
