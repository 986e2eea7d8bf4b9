/-
The free-list allocator over whole histories.

A `Client` holds the heap and the list of payload pointers it was given and has
not returned, each with the size it asked for. A step is a call to
`internalMalloc` with a size that `admits` lets through, a call to
`internalFree` on a pointer it holds, or an arbitrary write into its payloads.

* `reach_wellFormed` — every reachable heap is well formed, as long as no
  admitted size is rounded to one that wraps.
* `freeList_invariant` — the invariant over histories of sizes that do not wrap.
* `malloc_sound_iff` — for which sizes `internalMalloc` keeps its promise.
-/

import Mathlib.Logic.Relation
import SoTp.FreeList.Frame

namespace SoTp.FreeList

open SoTp.Lib

/-! ### Clients -/

/-- The user of a heap: the heap and the pointers it holds, with the sizes it
asked for. -/
structure Client where
  heap : Heap
  live : List (Nat × Nat)

/-- One action of the client. -/
inductive Step (admits : Client → Nat → Prop) : Client → Client → Prop where
  | malloc {c : Client} {size fuel p : Nat} {h' : Heap} : size < word → admits c size →
      internalMalloc fuel size c.heap = .ok (h', p) →
      Step admits c ⟨h', if p = NULL then c.live else (p, size) :: c.live⟩
  | free {c : Client} {p n fuel : Nat} {h' : Heap} : (p, n) ∈ c.live →
      internalFree fuel p c.heap = .ok h' → Step admits c ⟨h', c.live.erase (p, n)⟩
  | write {c : Client} {mem : Nat → Nat} :
      (∀ a, (∀ p n, (p, n) ∈ c.live → ¬ (p ≤ a ∧ a < p + n)) → mem a = c.heap.mem a) →
      Step admits c ⟨{ c.heap with mem := mem }, c.live⟩

/-- The states of a client that starts with a fresh heap. -/
def Reach (area : Area) (admits : Client → Nat → Prop) (c : Client) : Prop :=
  ∃ mem, Relation.ReflTransGen (Step admits) ⟨area.init mem, []⟩ c

/-! ### Well-formed heaps -/

/-- The heap of a client, block by block. -/
structure WellFormed (area : Area) (c : Client) (ts : List Block) : Prop where
  /-- The blocks tile the region from the aligned start to the end marker. -/
  tiled : Tiled area.alinedHeapStart ts c.heap.freeListEnd
  listEnd : c.heap.freeListEnd = area.alinedHeapStart + area.heapSize - structSize
  /-- Headers give the sizes, and mark the live blocks. -/
  headers : ∀ b ∈ ts, c.heap.blockSize b.addr = b.size + if b.label = none then 0 else topBit
  /-- The free list visits exactly the free blocks and ends at the end marker. -/
  listed : Segment c.heap.nextFreeBlock (c.heap.nextFreeBlock c.heap.freeListStart) (frees ts)
    c.heap.freeListEnd
  increasing : (frees ts).Pairwise (· < ·)
  /-- The live blocks are the ones the client holds. -/
  holds : (lives ts).Perm c.live
  /-- A payload is as long as requested. -/
  room : ∀ b ∈ ts, ∀ n, b.label = some n → payload b + n ≤ b.stop
  aligned : ∀ b ∈ ts, 8 ∣ payload b - area.alinedHeapStart
  /-- A payload is disjoint from the other ones and from every header. -/
  disjoint : ∀ b ∈ ts, ∀ d ∈ ts, b ≠ d → b.stop ≤ payload d ∨ d.stop ≤ payload b
  clear : ∀ b ∈ ts, ∀ x, IsHeader c.heap ts x → x + structSize ≤ payload b ∨ b.stop ≤ x
  /-- The counter is the sum of the sizes of the free blocks. -/
  bytes : c.heap.bytesAvailable = freeBytes ts

section Invariant

variable {area : Area} {c : Client} {ts : List Block}

/-- What is preserved from step to step. -/
structure Keeps (area : Area) (c : Client) (ts : List Block) : Prop where
  layout : Layout c.heap area.alinedHeapStart ts
  listEnd : c.heap.freeListEnd = area.alinedHeapStart + area.heapSize - structSize
  holds : (lives ts).Perm c.live

theorem tiled_aligned {a e : Nat} (h : Tiled a ts e) (sizes : ∀ b ∈ ts, 8 ∣ b.size) :
    ∀ b ∈ ts, 8 ∣ b.addr - a := by
  induction ts generalizing a with
  | nil => simp
  | cons t ts ih =>
      obtain ⟨rfl, h⟩ := h
      intro b hb
      rcases List.mem_cons.mp hb with rfl | hb
      · simp
      · have later := ih h (fun d hd => sizes d (List.mem_cons_of_mem t hd)) b hb
        have size := sizes t List.mem_cons_self
        have bounds := (tiled_bounds h hb).1
        unfold Tile.stop at later bounds
        omega

theorem Keeps.wellFormed (k : Keeps area c ts) : WellFormed area c ts where
  tiled := k.layout.tiled
  listEnd := k.listEnd
  headers b hb := by
    cases label : b.label with
    | none => exact k.layout.headed b hb label
    | some n => exact (k.layout.stamped b hb n label).size
  listed := k.layout.listed.2
  increasing := k.layout.frees_pairwise
  holds := k.holds
  room b hb n label := by
    have := (k.layout.stamped b hb n label).room
    unfold payload Tile.stop
    omega
  aligned b hb := by
    have aligned := tiled_aligned k.layout.tiled (fun d hd => (k.layout.sizes d hd).2) b hb
    have := (tiled_bounds k.layout.tiled hb).1
    unfold payload structSize
    omega
  disjoint b hb d hd ne := by
    have := tiled_apart k.layout.tiled hb hd ne
    unfold payload
    omega
  clear b hb x hx := by
    have bounds := tiled_bounds k.layout.tiled hb
    have out := k.layout.outside
    unfold payload structSize Tile.stop at *
    rcases hx with rfl | rfl | ⟨d, hd, rfl⟩
    · omega
    · omega
    · by_cases same : d = b
      · subst same
        omega
      · have size := (k.layout.sizes d hd).1
        have disjoint := tiled_apart k.layout.tiled hd hb same
        unfold Tile.stop at disjoint
        omega
  bytes := k.layout.bytes

/-! ### More fuel changes nothing -/

theorem insertBlockIntoFreeList_mono {h h' : Heap} {fuel more b : Nat} (le : fuel ≤ more)
    (run : insertBlockIntoFreeList fuel h b = .ok h') :
    insertBlockIntoFreeList more h b = .ok h' := by
  obtain ⟨it, found, rest⟩ := bind_ok_iff.mp run
  exact bind_ok_iff.mpr ⟨it, loop_mono le found, rest⟩

theorem splitBlock_mono {h h' : Heap} {fuel more b required : Nat} (le : fuel ≤ more)
    (run : splitBlock fuel h b required = .ok h') : splitBlock more h b required = .ok h' := by
  unfold splitBlock at run ⊢
  split_ifs at run ⊢
  · exact insertBlockIntoFreeList_mono le run
  · exact run

theorem internalMalloc_mono {h : Heap} {fuel more size : Nat} {r : Heap × Nat} (le : fuel ≤ more)
    (run : internalMalloc fuel size h = .ok r) : internalMalloc more size h = .ok r := by
  unfold internalMalloc at run ⊢
  simp only [] at run ⊢
  split_ifs at run ⊢
  · obtain ⟨found, search, rest⟩ := bind_ok_iff.mp run
    refine bind_ok_iff.mpr ⟨found, loop_mono le search, ?_⟩
    split_ifs at rest ⊢
    · obtain ⟨h', split, rest⟩ := bind_ok_iff.mp rest
      exact bind_ok_iff.mpr ⟨h', splitBlock_mono le split, rest⟩
    · exact rest
  · exact run

theorem internalFree_mono {h h' : Heap} {fuel more p : Nat} (le : fuel ≤ more)
    (run : internalFree fuel p h = .ok h') : internalFree more p h = .ok h' := by
  unfold internalFree at run ⊢
  simp only [] at run ⊢
  split_ifs at run ⊢
  · exact run
  · exact insertBlockIntoFreeList_mono le run
  · exact run

/-! ### One step -/

/-- A request that is served honestly: its rounded size does not wrap to a small
one, or there is nothing to hand out. -/
def Served (c : Client) (size : Nat) : Prop :=
  size ≤ word - structSize ∨ c.heap.bytesAvailable = 0

theorem Keeps.malloc (k : Keeps area c ts) {size fuel : Nat} (u64 : size < word)
    (served : Served c size) (enough : ts.length < fuel) :
    ∃ h' p, internalMalloc fuel size c.heap = .ok (h', p) ∧
      (p = NULL ∧ h' = c.heap ∨
        p ≠ NULL ∧ ∃ ts', Keeps area ⟨h', (p, size) :: c.live⟩ ts') := by
  by_cases fits : size + 23 < word
  · rcases malloc_layout k.layout fits enough with ⟨run, -⟩ | ⟨h', ts', pre, b, post,
      run, -, -, -, -, layout, live, live'⟩
    · exact ⟨c.heap, NULL, run, Or.inl ⟨rfl, rfl⟩⟩
    · refine ⟨h', payload b, run, Or.inr ⟨?_, ts', layout, ?_, ?_⟩⟩
      · unfold payload structSize NULL
        omega
      · exact (internalMalloc_ends run).stop.trans k.listEnd
      · rw [live']
        exact List.perm_middle.trans ((live ▸ k.holds).cons _)
  · -- The size is rounded to 0, or no byte is available.
    have refused : ¬ (BLOCK_SIZE_IS_VALID (alinedRequiredSize size) ∧ alinedRequiredSize size > 0 ∧
        alinedRequiredSize size ≤ c.heap.bytesAvailable) := by
      rintro ⟨-, pos, le⟩
      rcases served with small | empty
      · rw [alinedRequiredSize_wraps u64 (by omega)] at pos
        unfold word structSize at *
        omega
      · omega
    refine ⟨c.heap, NULL, ?_, Or.inl ⟨rfl, rfl⟩⟩
    rw [internalMalloc]
    simp only [if_neg refused, pure_eq_ok]

/-- The live blocks after a call of `internalFree` are the other ones of before. -/
theorem Keeps.free (k : Keeps area c ts) {p n fuel : Nat} (live : (p, n) ∈ c.live)
    (enough : ts.length < fuel) :
    ∃ h', internalFree fuel p c.heap = .ok h' ∧
      ∃ ts', Keeps area ⟨h', c.live.erase (p, n)⟩ ts' ∧
        ∀ d ∈ ts', d.label ≠ none → d ∈ ts ∧ payload d ≠ p := by
  obtain ⟨b, hb, label, rfl⟩ := mem_lives.mp (k.holds.mem_iff.mpr live)
  obtain ⟨pre, post, rfl⟩ := List.append_of_mem hb
  obtain ⟨h', ts', run, layout, live'⟩ := free_layout k.layout label enough
  refine ⟨h', run, ts', ⟨layout, (internalFree_ends run).stop.trans k.listEnd, ?_⟩, ?_⟩
  · have holds := k.holds
    rw [lives_append, lives_cons_live label] at holds
    have same : lives ts' = lives pre ++ lives post := by
      rw [lives_eq_liveBlocks, live', ← liveBlocks_append, ← lives_eq_liveBlocks, lives_append]
    rw [same]
    have erased := (List.perm_middle.symm.trans holds).erase (payload b, n)
    rwa [List.erase_cons_head] at erased
  · intro d hd used
    have hd : d ∈ liveBlocks (pre ++ post) := by
      rw [liveBlocks_append, ← live']
      exact mem_liveBlocks.mpr ⟨hd, used⟩
    have side := List.mem_append.mp (mem_liveBlocks.mp hd).1
    refine ⟨?_, fun same => k.layout.side_ne side (Nat.add_right_cancel same)⟩
    rcases side with before | after
    · simp [before]
    · simp [after]

theorem Keeps.write (k : Keeps area c ts) {mem : Nat → Nat}
    (inside : ∀ a, (∀ p n, (p, n) ∈ c.live → ¬ (p ≤ a ∧ a < p + n)) → mem a = c.heap.mem a) :
    Keeps area ⟨{ c.heap with mem := mem }, c.live⟩ ts where
  layout := k.layout.write fun a outside =>
    inside a fun p n live => outside p n (k.holds.mem_iff.mpr live)
  listEnd := k.listEnd
  holds := k.holds

theorem Keeps.step {c' : Client} (k : Keeps area c ts) (step : Step Served c c') :
    ∃ ts', Keeps area c' ts' := by
  cases step with
  | @malloc size fuel p h' u64 served run =>
      obtain ⟨g, q, run', outcome⟩ :=
        k.malloc u64 served (show ts.length < max fuel (ts.length + 1) by omega)
      have same := (internalMalloc_mono (Nat.le_max_left fuel (ts.length + 1)) run).symm.trans run'
      cases same
      rcases outcome with ⟨rfl, rfl⟩ | ⟨ne, keeps⟩
      · rw [if_pos rfl]
        exact ⟨ts, k⟩
      · rwa [if_neg ne]
  | @free p n fuel h' live run =>
      obtain ⟨g, run', keeps⟩ := k.free live (show ts.length < max fuel (ts.length + 1) by omega)
      have same := (internalFree_mono (Nat.le_max_left fuel (ts.length + 1)) run).symm.trans run'
      cases same
      obtain ⟨ts', k', -⟩ := keeps
      exact ⟨ts', k'⟩
  | write inside => exact ⟨ts, k.write inside⟩

/-! ### Whole histories -/

theorem Area.init_keeps (area : Area) (mem : Nat → Nat) :
    Keeps area ⟨area.init mem, []⟩ [area.whole] :=
  ⟨area.init_layout mem, rfl, by simp [lives, Area.whole]⟩

theorem Reach.keeps (reach : Reach area Served c) : ∃ ts, Keeps area c ts := by
  obtain ⟨mem, run⟩ := reach
  induction run with
  | refl => exact ⟨[area.whole], area.init_keeps mem⟩
  | tail _ step ih =>
      obtain ⟨ts, k⟩ := ih
      exact k.step step

theorem Step.mono {admits admits' : Client → Nat → Prop} {c' : Client}
    (weaker : ∀ c size, size < word → admits c size → admits' c size) (step : Step admits c c') :
    Step admits' c c' := by
  cases step with
  | malloc u64 ok run => exact .malloc u64 (weaker c _ u64 ok) run
  | free live run => exact .free live run
  | write inside => exact .write inside

theorem Reach.mono {admits admits' : Client → Nat → Prop}
    (weaker : ∀ c size, size < word → admits c size → admits' c size)
    (reach : Reach area admits c) : Reach area admits' c :=
  reach.imp fun _ run => Relation.ReflTransGen.mono (fun _ _ => Step.mono weaker) _ _ run

/-- In every state a client can reach with sizes that do not wrap, the heap is
well formed, and a further call returns. -/
theorem freeList_invariant
    (reach : Reach area (fun _ size => size + 23 ≤ 2 ^ 64 - 1) c) :
    ∃ ts, WellFormed area c ts ∧
      (∀ size, size + 23 ≤ 2 ^ 64 - 1 →
        ∃ fuel h' p, internalMalloc fuel size c.heap = .ok (h', p)) ∧
      ∀ p n, (p, n) ∈ c.live → ∃ fuel h', internalFree fuel p c.heap = .ok h' := by
  have small : ∀ (c : Client) (size : Nat), size + 23 ≤ 2 ^ 64 - 1 → Served c size :=
    fun _ size le => Or.inl (by unfold word structSize; omega)
  obtain ⟨ts, k⟩ := (reach.mono fun c size _ => small c size).keeps
  refine ⟨ts, k.wellFormed, fun size le => ?_, fun p n live => ?_⟩
  · obtain ⟨h', p, run, -⟩ :=
      k.malloc (show size < word by unfold word; omega) (small c size le) (Nat.lt_succ_self _)
    exact ⟨_, h', p, run⟩
  · obtain ⟨h', run, -⟩ := k.free live (Nat.lt_succ_self _)
    exact ⟨_, h', run⟩

end Invariant

/-- 128 bytes from an aligned address on, with the sentinel below them. -/
def smallArea : Area where
  heapStart := 0x1000
  heapSize := 128
  freeListStart := 0x100
  multiple := by decide
  large := by decide
  uint32 := by decide
  outside := by decide

/-- A fresh heap in the small area. -/
def freshClient : Client := ⟨smallArea.init fun _ => 0, []⟩

theorem freshClient_malloc :
    (internalMalloc 3 5 freshClient.heap).map (fun r => (r.2, r.1.bytesAvailable)) =
      .ok (0x1010, 88) := by
  decide +kernel

theorem reach_fiveBytes (admits : Client → Nat → Prop) (ok : admits freshClient 5) :
    ∃ h, Reach smallArea admits ⟨h, [(0x1010, 5)]⟩ ∧ h.bytesAvailable = 88 := by
  obtain ⟨⟨h, p⟩, run, computed⟩ := map_ok_iff.mp freshClient_malloc
  simp only [Prod.mk.injEq] at computed
  obtain ⟨rfl, bytes⟩ := computed
  exact ⟨h, ⟨fun _ => 0, .single (.malloc (by decide) ok run)⟩, bytes⟩

theorem freeList_invariant_fiveBytes :
    ∃ h ts, WellFormed smallArea ⟨h, [(0x1010, 5)]⟩ ts ∧
      (∀ size, size + 23 ≤ 2 ^ 64 - 1 → ∃ fuel h' p, internalMalloc fuel size h = .ok (h', p)) ∧
      ∀ p n, (p, n) ∈ [(0x1010, 5)] → ∃ fuel h', internalFree fuel p h = .ok h' := by
  obtain ⟨h, reach, -⟩ := reach_fiveBytes (fun _ size => size + 23 ≤ 2 ^ 64 - 1) (by decide)
  exact ⟨h, freeList_invariant reach⟩

/-! ### Every 64-bit size -/

section Sizes

variable {area : Area} {c : Client} {ts : List Block}

/-- The promise of `internalMalloc`: NULL and nothing has changed, or a block of
a well-formed heap with room for the request. -/
def MallocHolds (area : Area) (c : Client) (size : Nat) : Prop :=
  ∃ fuel h' p, internalMalloc fuel size c.heap = .ok (h', p) ∧
    (p = NULL ∧ h' = c.heap ∨
      p ≠ NULL ∧ ∃ ts, WellFormed area ⟨h', (p, size) :: c.live⟩ ts)

/-- A live block is not larger than the heap. -/
theorem WellFormed.live_le (w : WellFormed area c ts) {p n : Nat} (live : (p, n) ∈ c.live) :
    n < area.heapSize := by
  obtain ⟨b, hb, label, rfl⟩ := mem_lives.mp (w.holds.mem_iff.mpr live)
  have room := w.room b hb n label
  have bounds := tiled_bounds w.tiled hb
  have stop := w.listEnd
  have large := area.large
  unfold payload structSize at *
  omega

/-- A size that wraps to a small one takes the first free block, whatever its
size. -/
theorem Keeps.malloc_wrapped (k : Keeps area c ts) {size fuel p : Nat} {h' : Heap}
    (u64 : size < word) (not_served : ¬ Served c size)
    (run : internalMalloc fuel size c.heap = .ok (h', p)) : p ≠ NULL := by
  obtain ⟨large, some_free⟩ := not_or.mp not_served
  have required : alinedRequiredSize size = 8 ∨ alinedRequiredSize size = 16 := by
    rw [alinedRequiredSize_wraps u64 (by unfold word structSize at *; omega)]
    unfold word structSize at *
    omega
  have valid : BLOCK_SIZE_IS_VALID (alinedRequiredSize size) := by
    rcases required with e | e <;> rw [e] <;> decide
  obtain ⟨a, as, cells⟩ : ∃ a as, frees ts = a :: as := by
    cases cells : frees ts with
    | cons a as => exact ⟨a, as, rfl⟩
    | nil =>
        refine absurd ?_ some_free
        rw [k.layout.bytes, freeBytes]
        rw [frees, List.map_eq_nil_iff] at cells
        rw [cells]
        rfl
  obtain ⟨pre, b, post, rfl, -, free, rfl, -⟩ := exists_first_free cells
  have hb : b ∈ pre ++ b :: post := by simp
  have first : c.heap.nextFreeBlock c.heap.freeListStart = b.addr := by
    have listed := k.layout.listed
    rw [Listed, cells] at listed
    exact listed.2.1
  have bsize := (k.layout.sizes b hb).1
  have headed := k.layout.headed b hb free
  have available : b.size ≤ c.heap.bytesAvailable := by
    rw [k.layout.bytes, freeBytes_append, freeBytes_cons_free free]
    omega
  have inside := k.layout.mem_frees_bounds (mem_frees.mpr ⟨b, hb, free, rfl⟩)
  -- The first round of the search already leaves.
  have found : ∀ fuel, loop (advanceSearch c.heap (alinedRequiredSize size)) (fuel + 1)
      (c.heap.freeListStart, c.heap.nextFreeBlock c.heap.freeListStart) =
        .ok (c.heap.freeListStart, b.addr) := fun fuel => by
    rw [first]
    refine loop_succ_leave ?_
    rw [advanceSearch, if_neg]
    rintro ⟨small, -⟩
    rw [headed] at small
    omega
  cases fuel with
  | zero =>
      rw [internalMalloc] at run
      simp only [if_pos (And.intro valid (And.intro (by omega : alinedRequiredSize size > 0)
        (by omega : alinedRequiredSize size ≤ c.heap.bytesAvailable)))] at run
      cases run
  | succ fuel =>
      rw [internalMalloc_found valid (by omega) (by omega) (found fuel) (by omega), first] at run
      cases split : splitBlock (fuel + 1)
          (c.heap.setNextFreeBlock c.heap.freeListStart (c.heap.nextFreeBlock b.addr)) b.addr
          (alinedRequiredSize size) with
      | error e =>
          rw [split] at run
          cases run
      | ok g =>
          rw [split] at run
          cases run
          unfold structSize NULL
          omega

theorem Keeps.not_mallocHolds (k : Keeps area c ts) {size : Nat} (u64 : size < word)
    (not_served : ¬ Served c size) : ¬ MallocHolds area c size := by
  rintro ⟨fuel, h', p, run, outcome⟩
  have ne := k.malloc_wrapped u64 not_served run
  rcases outcome with ⟨null, -⟩ | ⟨-, ts', w⟩
  · exact ne null
  · have := w.live_le List.mem_cons_self
    have := area.uint32
    have := (not_or.mp not_served).1
    unfold word structSize at *
    omega

/-- `internalMalloc` keeps its promise exactly for the sizes that are served
honestly. -/
theorem malloc_sound_iff (reach : Reach area Served c) {size : Nat} (u64 : size < 2 ^ 64) :
    MallocHolds area c size ↔ size ≤ 2 ^ 64 - 16 ∨ c.heap.bytesAvailable = 0 := by
  obtain ⟨ts, k⟩ := reach.keeps
  constructor
  · intro holds
    by_contra not_served
    exact k.not_mallocHolds u64 not_served holds
  · intro served
    obtain ⟨h', p, run, outcome⟩ := k.malloc u64 served (Nat.lt_succ_self _)
    exact ⟨_, h', p, run, outcome.imp id fun ⟨ne, ts', k'⟩ => ⟨ne, ts', k'.wellFormed⟩⟩

end Sizes

/-- With five bytes handed out, the request that leaves no room for its header
before the wrap is refused and the next larger one is not. -/
theorem malloc_sound_iff_fiveBytes :
    ∃ h, MallocHolds smallArea ⟨h, [(0x1010, 5)]⟩ (2 ^ 64 - 16) ∧
      ¬ MallocHolds smallArea ⟨h, [(0x1010, 5)]⟩ (2 ^ 64 - 15) := by
  obtain ⟨h, reach, bytes⟩ :=
    reach_fiveBytes Served (Or.inl (by unfold word structSize; decide))
  refine ⟨h, (malloc_sound_iff reach (by decide)).mpr (Or.inl (by decide)), fun holds => ?_⟩
  have served := (malloc_sound_iff reach (by decide)).mp holds
  simp only [bytes] at served
  omega

/-- The largest size there is: the whole heap is free, and the request gets a
block that is nothing but its header. -/
theorem malloc_wraps :
    Reach smallArea (fun _ _ => True) freshClient ∧
      (internalMalloc 3 (2 ^ 64 - 1) freshClient.heap).map
        (fun r => (r.2, r.1.blockSize 0x1000)) = .ok (0x1010, 16 + topBit) ∧
      ¬ MallocHolds smallArea freshClient (2 ^ 64 - 1) := by
  refine ⟨⟨fun _ => 0, .refl⟩, by decide +kernel, ?_⟩
  have fresh : Reach smallArea Served freshClient := ⟨fun _ => 0, .refl⟩
  obtain ⟨ts, k⟩ := fresh.keeps
  refine k.not_mallocHolds (by decide) ?_
  have bytes : freshClient.heap.bytesAvailable = 112 := by decide +kernel
  unfold Served word structSize
  omega

end SoTp.FreeList
