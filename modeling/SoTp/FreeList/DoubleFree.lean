/-
Pointers that are freed again.

`internalFree` tells a block that was freed before by its header: the allocated bit is
clear. The header may lie anywhere inside a free block by then, and the calls that
follow write headers around it.

* `Limbo.insert_small` — an insertion sets no allocated bit.
* `Stale` — a header the allocator has taken back, inside free space.
* `Keeps.free_stale` — freeing a pointer leaves a stale header and keeps the other ones.
* `double_free_harmless` — a second call changes nothing, whatever was freed in between.
* `wrapped_double_free` — what a size that wraps makes of it.
-/

import SoTp.FreeList.Coalescing

namespace SoTp.FreeList

open SoTp.Lib

/-! ### What an insertion writes -/

section Small

variable {S : Nat → Prop} {h : Heap} {it b x v bound : Nat}

theorem setNextFreeBlock_small (apart : ∀ x y, S x → S y → Apart x y)
    (small : ∀ y, S y → h.blockSize y < bound) (hx : S x) :
    ∀ y, S y → (h.setNextFreeBlock x v).blockSize y < bound := fun y hy => by
  rw [setNextFreeBlock_blockSize (apart x y hx hy)]
  exact small y hy

theorem setBlockSize_small (small : ∀ y, S y → h.blockSize y < bound) (less : v < bound) :
    ∀ y, S y → (h.setBlockSize x v).blockSize y < bound := fun y hy => by
  rw [setBlockSize_blockSize]
  split_ifs
  · exact less
  · exact small y hy

theorem mergeWithPrevious_small (small : ∀ y, S y → h.blockSize y < bound) (hit : S it) (hb : S b) :
    ∀ y, S y → (mergeWithPrevious h it b).1.blockSize y < 2 * bound := by
  have twice : ∀ y, S y → h.blockSize y < 2 * bound := fun y hy => by
    have := small y hy
    omega
  unfold mergeWithPrevious
  split_ifs
  · refine setBlockSize_small twice (Nat.lt_of_le_of_lt (Nat.mod_le _ _) ?_)
    have := small it hit
    have := small b hb
    omega
  · exact twice

theorem mergeWithNext_small (apart : ∀ x y, S x → S y → Apart x y)
    (small : ∀ y, S y → h.blockSize y < bound) (hb : S b) (next : S (h.nextFreeBlock it)) :
    ∀ y, S y → (mergeWithNext h it b).blockSize y < 2 * bound := by
  have twice : ∀ y, S y → h.blockSize y < 2 * bound := fun y hy => by
    have := small y hy
    omega
  unfold mergeWithNext
  split_ifs
  · refine setNextFreeBlock_small apart (setBlockSize_small twice ?_) hb
    refine Nat.lt_of_le_of_lt (Nat.mod_le _ _) ?_
    have := small b hb
    have := small _ next
    omega
  · exact setNextFreeBlock_small apart twice hb
  · exact setNextFreeBlock_small apart twice hb

/-- An insertion adds up at most three sizes. -/
theorem linkAfter_small (apart : ∀ x y, S x → S y → Apart x y)
    (small : ∀ y, S y → h.blockSize y < bound) (hit : S it) (hb : S b)
    (next : S (h.nextFreeBlock it)) :
    ∀ y, S y → (linkAfter h it b).blockSize y < 4 * bound := by
  have grown := mergeWithPrevious_small small hit hb
  have block : S (mergeWithPrevious h it b).2 := (mergeWithPrevious_framed hit hb).2
  have link : (mergeWithPrevious h it b).1.nextFreeBlock it = h.nextFreeBlock it := by
    unfold mergeWithPrevious
    split_ifs
    · exact setBlockSize_nextFreeBlock (Or.inl rfl)
    · rfl
  have merged := mergeWithNext_small apart grown block (link ▸ next)
  rw [← Nat.mul_assoc] at merged
  simp only [linkAfter]
  split_ifs
  · exact setNextFreeBlock_small apart merged hit
  · exact merged

end Small

/-- The headers an insertion may touch: the ends of the list and the free blocks. -/
def FreeHeader (h : Heap) (ts : List Block) (x : Nat) : Prop :=
  x = h.freeListStart ∨ x = h.freeListEnd ∨ ∃ b ∈ ts, b.label = none ∧ b.addr = x

section Insertion

variable {h h' : Heap} {start fuel : Nat} {ts pre post : List Block} {b : Block}

theorem FreeHeader.isHeader {x : Nat} (hx : FreeHeader h ts x) : IsHeader h ts x := by
  rcases hx with e | e | ⟨b, hb, -, e⟩
  · exact Or.inl e
  · exact Or.inr (Or.inl e)
  · exact Or.inr (Or.inr ⟨b, hb, e⟩)

theorem Shaped.freeHeader_small (s : Shaped h start ts) :
    ∀ x, FreeHeader h ts x → h.blockSize x < 2 ^ 32 := by
  rintro x (rfl | rfl | ⟨b, hb, free, rfl⟩)
  · rw [s.sentinel]
    decide
  · rw [s.marker.1]
    decide
  · rw [s.headed b hb free]
    have bounds := tiled_bounds s.tiled hb
    have := s.bounded
    unfold Tile.stop at bounds
    omega

/-- An insertion writes to free headers only, and sets no allocated bit there. -/
theorem Limbo.insert_small (l : Limbo h start pre b post)
    (run : insertBlockIntoFreeList fuel h b.addr = .ok h') :
    Framed (FreeHeader h (pre ++ b :: post)) h h' ∧
      ∀ x, FreeHeader h (pre ++ b :: post) x → h'.blockSize x < topBit := by
  have cells : ∀ ss, (∀ c ∈ ss, c ∈ pre ++ b :: post) → ∀ x ∈ frees ss,
      FreeHeader h (pre ++ b :: post) x := fun ss sub x hx => by
    obtain ⟨c, hc, free, rfl⟩ := mem_frees.mp hx
    exact Or.inr (Or.inr ⟨c, sub c hc, free, rfl⟩)
  have block : FreeHeader h (pre ++ b :: post) b.addr := Or.inr (Or.inr ⟨b, l.mem, l.free, rfl⟩)
  have iterator : ∀ {it as}, h.freeListStart :: frees pre = as ++ [it] →
      FreeHeader h (pre ++ b :: post) it := fun {it as} last => by
    have cell : it ∈ h.freeListStart :: frees pre := last ▸ by simp
    rcases List.mem_cons.mp cell with e | mem
    · exact Or.inl e
    · exact cells pre (fun c hc => by simp [hc]) it mem
  constructor
  · refine insertBlockIntoFreeList_framed block (fun it found => ?_) run
    obtain ⟨as, last⟩ := l.iterator_last found
    exact iterator last
  · obtain ⟨it, found, rest⟩ := bind_ok_iff.mp run
    cases rest
    obtain ⟨as, last⟩ := l.iterator_last found
    have next : FreeHeader h (pre ++ b :: post) (h.nextFreeBlock it) := by
      have tail := (l.list_split last).2
      cases cs : frees post with
      | nil =>
          rw [cs] at tail
          exact Or.inr (Or.inl tail)
      | cons c rest =>
          rw [cs] at tail
          exact cells post (fun c hc => by simp [hc]) _ (by rw [cs, tail.1]; simp)
    intro x hx
    refine Nat.lt_trans (linkAfter_small (fun x y hx hy => l.apart hx.isHeader hy.isHeader)
      l.freeHeader_small (iterator last) block next x hx) ?_
    decide

/-- So does `internalFree`, and clears the bit of the block it is given. -/
theorem free_small {n : Nat} (l : Layout h start (pre ++ b :: post)) (live : b.label = some n)
    (run : internalFree fuel (payload b) h = .ok h') :
    Framed (FreeHeader h (pre ++ ⟨b.addr, b.size, none⟩ :: post)) h h' ∧
      ∀ x, FreeHeader h (pre ++ ⟨b.addr, b.size, none⟩ :: post) x → h'.blockSize x < topBit := by
  obtain ⟨limbo, cleared⟩ := unstamp_limbo l live
  have stamped := l.stamped b (by simp) n live
  have back : payload b - structSize = b.addr := Nat.add_sub_cancel _ _
  have block : FreeHeader h (pre ++ ⟨b.addr, b.size, none⟩ :: post) b.addr :=
    Or.inr (Or.inr ⟨_, limbo.mem, rfl, rfl⟩)
  unfold internalFree at run
  simp only [back, cleared] at run
  split_ifs at run with null allocated
  · unfold payload structSize NULL at null
    omega
  · obtain ⟨framed, small⟩ := limbo.insert_small run
    have freed : Framed (FreeHeader h (pre ++ ⟨b.addr, b.size, none⟩ :: post)) h
        ((FREE_BLOCK h b.addr).setBytesAvailable (add64 h.bytesAvailable b.size)) :=
      .trans (.setBlockSize block) .setBytesAvailable
    exact ⟨freed.trans framed, small⟩
  · -- The header of a live block has the bit and no link.
    refine absurd ⟨fun zero => ?_, stamped.link⟩ allocated
    have bounds := tiled_bounds l.tiled (show b ∈ pre ++ b :: post by simp)
    have := l.bounded
    rw [stamped.size] at zero
    unfold Tile.stop at bounds
    have := (and_topBit_eq_zero (n := b.size + topBit) (by unfold word topBit at *; omega)).mp zero
    omega

end Insertion

/-! ### Stale headers -/

/-- The header of a block that was taken back: its size lies in free space, where no
header is written over it, and has the allocated bit clear. -/
structure Stale (h : Heap) (start : Nat) (ts : List Block) (x : Nat) : Prop where
  inside : start ≤ x ∧ x + structSize ≤ h.freeListEnd
  bare : ∀ b ∈ ts, b.label ≠ none → x + 8 < b.addr ∨ b.stop ≤ x + 8
  apart : ∀ b ∈ ts, b.addr ≠ x + 8
  cleared : h.blockSize x < topBit

/-- `internalFree` ignores the pointer behind a stale header. -/
theorem Stale.ignored {h : Heap} {start x : Nat} {ts : List Block} (s : Stale h start ts x)
    (fuel : Nat) : internalFree fuel (x + structSize) h = .ok h := by
  have cleared := s.cleared
  have notAllocated : ¬ BLOCK_IS_ALLOCATED h x := by
    rw [BLOCK_IS_ALLOCATED, not_not]
    exact (and_topBit_eq_zero (by unfold word topBit at *; omega)).mpr cleared
  unfold internalFree
  simp only [Nat.add_sub_cancel]
  rw [if_neg (fun both : BLOCK_IS_ALLOCATED h x ∧ h.nextFreeBlock x = NULL => notAllocated both.1),
    ite_self]

/-- Merging free tiles moves no start: when the live tiles are old ones and free ones do
not touch, every tile starts where an old one did. -/
theorem starts_subset {a e : Nat} {ts ts' : List Block} (old : Tiled a ts e) (new : Tiled a ts' e)
    (pos : ∀ d ∈ ts', 0 < d.size) (kept : ∀ d ∈ ts', d.label ≠ none → d ∈ ts)
    (separate : ∀ b ∈ ts', ∀ d ∈ ts', b.label = none → d.label = none → b.stop ≠ d.addr) :
    ∀ d ∈ ts', ∃ b ∈ ts, b.addr = d.addr := by
  intro d hd
  by_cases free : d.label = none
  · have bounds := tiled_bounds new hd
    have size := pos d hd
    have stop : d.stop = d.addr + d.size := rfl
    rcases tiled_before new hd with first | ⟨s, hs, touch⟩
    · obtain ⟨b, hb, low, -⟩ := tiled_cover old (Nat.le_refl a) (by omega)
      have := (tiled_bounds old hb).1
      exact ⟨b, hb, by omega⟩
    · have used : s.label ≠ none := fun other => separate s hs d hd other free touch
      obtain ⟨b, hb, next⟩ := (tiled_after old (kept s hs used)).resolve_left (by omega)
      exact ⟨b, hb, next.trans touch⟩
  · exact ⟨d, kept d hd free, rfl⟩

section Client

variable {area : Area} {c : Client} {ts : List Block}

/-- Freeing a pointer makes its header stale and keeps the stale ones. -/
theorem Keeps.free_stale (k : Keeps area c ts) {p n fuel : Nat} {h' : Heap} (live : (p, n) ∈ c.live)
    (run : internalFree fuel p c.heap = .ok h') :
    ∃ ts', Keeps area ⟨h', c.live.erase (p, n)⟩ ts' ∧
      (∃ x, x + structSize = p ∧ Stale h' area.alinedHeapStart ts' x) ∧
      ∀ x, Stale c.heap area.alinedHeapStart ts x → Stale h' area.alinedHeapStart ts' x := by
  obtain ⟨g, run', ts', k', kept⟩ :=
    k.free live (show ts.length < max fuel (ts.length + 1) by omega)
  cases (internalFree_mono (Nat.le_max_left fuel (ts.length + 1)) run).symm.trans run'
  obtain ⟨b, hb, label, rfl⟩ := mem_lives.mp (k.holds.mem_iff.mpr live)
  have stop : h'.freeListEnd = c.heap.freeListEnd := k'.listEnd.trans k.listEnd.symm
  have starts : ∀ d ∈ ts', ∃ t ∈ ts, t.addr = d.addr := by
    refine starts_subset k.layout.tiled (stop ▸ k'.layout.tiled) (fun d hd => ?_)
      (fun d hd used => (kept d hd used).1) k'.separate
    have := (k'.layout.sizes d hd).1
    omega
  have apart : ∀ t ∈ ts, t ≠ b → t.stop ≤ b.addr ∨ b.addr + 24 ≤ t.addr := fun t ht ne => by
    have size := (k.layout.sizes b hb).1
    have apart := tiled_apart k.layout.tiled ht hb ne
    unfold Tile.stop at *
    omega
  obtain ⟨pre, post, rfl⟩ := List.append_of_mem hb
  obtain ⟨framed, small⟩ := free_small k.layout label run
  refine ⟨ts', k', ⟨b.addr, rfl, ?_, ?_, ?_, ?_⟩, fun x stale => ⟨?_, ?_, ?_, ?_⟩⟩
  · have bounds := tiled_bounds k.layout.tiled hb
    have size := (k.layout.sizes b hb).1
    unfold Tile.stop at bounds
    unfold structSize
    omega
  · intro d hd used
    obtain ⟨old, other⟩ := kept d hd used
    have := apart d old fun same => other (same ▸ rfl)
    omega
  · intro d hd same
    obtain ⟨t, ht, start⟩ := starts d hd
    have size := (k.layout.sizes t ht).1
    have := apart t ht fun e => by
      rw [e] at start
      omega
    unfold Tile.stop at this
    omega
  · exact small b.addr (Or.inr (Or.inr ⟨⟨b.addr, b.size, none⟩, by simp, rfl, rfl⟩))
  · rw [stop]
    exact stale.inside
  · exact fun d hd used => stale.bare d (kept d hd used).1 used
  · intro d hd
    obtain ⟨t, ht, start⟩ := starts d hd
    exact start ▸ stale.apart t ht
  · by_cases header : FreeHeader c.heap (pre ++ ⟨b.addr, b.size, none⟩ :: post) x
    · exact small x header
    · have same : h'.mem (x + 8) = c.heap.mem (x + 8) := by
        refine framed.outside (x + 8) fun y hy => ⟨?_, fun e => header ?_⟩
        · have inside := stale.inside
          have out := k.layout.outside
          unfold structSize at *
          rcases hy with rfl | rfl | ⟨t, ht, -, rfl⟩
          · omega
          · omega
          · obtain ⟨d, hd, e⟩ : ∃ d ∈ pre ++ b :: post, d.addr = t.addr := by
              simp only [List.mem_append, List.mem_cons] at ht
              rcases ht with ht | rfl | ht
              · exact ⟨t, by simp [ht], rfl⟩
              · exact ⟨b, hb, rfl⟩
              · exact ⟨t, by simp [ht], rfl⟩
            exact e ▸ (stale.apart d hd).symm
        · rwa [Nat.add_right_cancel e]
      unfold Heap.blockSize
      rw [same]
      exact stale.cleared

theorem Stale.write (k : Keeps area c ts) {x : Nat} (s : Stale c.heap area.alinedHeapStart ts x)
    {mem : Nat → Nat}
    (inside : ∀ a, (∀ p n, (p, n) ∈ c.live → ¬ (p ≤ a ∧ a < p + n)) → mem a = c.heap.mem a) :
    Stale { c.heap with mem := mem } area.alinedHeapStart ts x := by
  refine ⟨s.inside, s.bare, s.apart, ?_⟩
  have same : mem (x + 8) = c.heap.mem (x + 8) := by
    refine inside _ fun p n live within => ?_
    obtain ⟨b, hb, label, rfl⟩ := mem_lives.mp (k.holds.mem_iff.mpr live)
    have room := (k.layout.stamped b hb n label).room
    have bare := s.bare b hb (by simp [label])
    unfold payload Tile.stop structSize at *
    omega
  change mem (x + 8) < topBit
  rw [same]
  exact s.cleared

end Client

/-! ### Freeing again -/

/-- What happens between two calls on one pointer: the client frees pointers it held in
`c₀`, for the first time or again, and writes into the payloads it still holds. -/
inductive Release (c₀ : Client) : Client → Client → Prop where
  | free {c : Client} {p n fuel : Nat} {h' : Heap} : (p, n) ∈ c.live →
      internalFree fuel p c.heap = .ok h' → Release c₀ c ⟨h', c.live.erase (p, n)⟩
  | again {c : Client} {p n fuel : Nat} {h' : Heap} : (p, n) ∈ c₀.live → (p, n) ∉ c.live →
      internalFree fuel p c.heap = .ok h' → Release c₀ c ⟨h', c.live⟩
  | write {c : Client} {mem : Nat → Nat} :
      (∀ a, (∀ p n, (p, n) ∈ c.live → ¬ (p ≤ a ∧ a < p + n)) → mem a = c.heap.mem a) →
      Release c₀ c ⟨{ c.heap with mem := mem }, c.live⟩

/-- The pointers of `c₀` are held or have stale headers. -/
def Accounted (area : Area) (c₀ c : Client) : Prop :=
  ∃ ts, Keeps area c ts ∧ ∀ p n, (p, n) ∈ c₀.live → (p, n) ∈ c.live ∨
    ∃ x, x + structSize = p ∧ Stale c.heap area.alinedHeapStart ts x

section Releases

variable {area : Area} {c₀ c c' : Client} {p n : Nat}

theorem Accounted.ignored (a : Accounted area c₀ c) (held : (p, n) ∈ c₀.live)
    (freed : (p, n) ∉ c.live) (fuel : Nat) : internalFree fuel p c.heap = .ok c.heap := by
  obtain ⟨ts, -, stale⟩ := a
  obtain ⟨x, rfl, s⟩ := (stale p n held).resolve_left freed
  exact s.ignored fuel

theorem Accounted.step (a : Accounted area c₀ c) (step : Release c₀ c c') :
    Accounted area c₀ c' := by
  cases step with
  | @free q m fuel h' live run =>
      obtain ⟨ts, k, accounted⟩ := a
      obtain ⟨ts', k', own, kept⟩ := k.free_stale live run
      refine ⟨ts', k', fun p n held => ?_⟩
      rcases accounted p n held with here | ⟨x, e, stale⟩
      · by_cases same : (p, n) = (q, m)
        · cases same
          exact Or.inr own
        · exact Or.inl ((List.mem_erase_of_ne same).mpr here)
      · exact Or.inr ⟨x, e, kept x stale⟩
  | again held freed run =>
      cases (a.ignored held freed _).symm.trans run
      exact a
  | write inside =>
      obtain ⟨ts, k, accounted⟩ := a
      exact ⟨ts, k.write inside, fun p n held =>
        (accounted p n held).imp id fun ⟨x, e, stale⟩ => ⟨x, e, stale.write k inside⟩⟩

theorem Accounted.run (a : Accounted area c₀ c₀) (run : Relation.ReflTransGen (Release c₀) c₀ c) :
    Accounted area c₀ c := by
  induction run with
  | refl => exact a
  | tail _ step ih => exact ih.step step

/-- Whatever a client that was served honestly frees, for the first time or again, a
further call on a pointer it has freed changes nothing. -/
theorem double_free_harmless (reach : Reach area Served c₀)
    (run : Relation.ReflTransGen (Release c₀) c₀ c) (held : (p, n) ∈ c₀.live)
    (freed : (p, n) ∉ c.live) : ∀ fuel, internalFree fuel p c.heap = .ok c.heap := by
  obtain ⟨ts, k⟩ := reach.keeps
  have start : Accounted area c₀ c₀ := ⟨ts, k, fun _ _ here => Or.inl here⟩
  exact (start.run run).ignored held freed

end Releases

theorem double_free_harmless_fiveBytes : ∃ h h' n, Reach smallArea Served ⟨h, [(0x1010, 5)]⟩ ∧
    internalFree n 0x1010 h = .ok h' ∧ ∀ fuel, internalFree fuel 0x1010 h' = .ok h' := by
  obtain ⟨h, reach, -⟩ := reach_fiveBytes Served (Or.inl (by unfold word structSize; decide))
  obtain ⟨ts, k⟩ := reach.keeps
  obtain ⟨h', run, -⟩ := k.free List.mem_cons_self (Nat.lt_succ_self _)
  refine ⟨h, h', ts.length + 1, reach, run, ?_⟩
  have steps : Relation.ReflTransGen (Release ⟨h, [(0x1010, 5)]⟩) ⟨h, [(0x1010, 5)]⟩ ⟨h', []⟩ :=
    .single (.free List.mem_cons_self run)
  exact double_free_harmless reach steps List.mem_cons_self List.not_mem_nil

/-- A request for `2 ^ 64 - 15` bytes is served with a block smaller than its header, and
one for five with a block on that header. Freeing the first pointer does nothing, and
after the second one was freed it does: the header reads as allocated again. -/
theorem wrapped_double_free : ∃ c₀ c : Client, Reach smallArea (fun _ _ => True) c₀ ∧
    (0x1010, 2 ^ 64 - 15) ∈ c₀.live ∧ Relation.ReflTransGen (Release c₀) c₀ c ∧
    (0x1010, 2 ^ 64 - 15) ∉ c.live ∧ ∃ h', internalFree 3 0x1010 c.heap = .ok h' ∧
      h'.bytesAvailable ≠ c.heap.bytesAvailable := by
  have computed : (internalMalloc 3 (2 ^ 64 - 15) freshClient.heap >>= fun r =>
      internalMalloc 3 5 r.1 >>= fun s => internalFree 3 0x1010 s.1 >>= fun g =>
        internalFree 3 0x1018 g >>= fun h => (internalFree 3 0x1010 h).map fun h' =>
          (r.2, s.2, h.bytesAvailable, h'.bytesAvailable)) =
      .ok (0x1010, 0x1018, 2 ^ 64 - 4096, 112) := by decide +kernel
  obtain ⟨⟨h₁, p⟩, first, rest⟩ := bind_ok_iff.mp computed
  obtain ⟨⟨h₂, q⟩, second, rest⟩ := bind_ok_iff.mp rest
  obtain ⟨g, freed, rest⟩ := bind_ok_iff.mp rest
  obtain ⟨h, freed', rest⟩ := bind_ok_iff.mp rest
  cases again : internalFree 3 0x1010 h with
  | error e =>
      rw [again] at rest
      cases rest
  | ok h' =>
      simp only [again, Except.map, Except.ok.injEq, Prod.mk.injEq] at rest
      obtain ⟨rfl, rfl, before, after⟩ := rest
      have one : Step (fun _ _ => True) freshClient ⟨h₁, [(0x1010, 2 ^ 64 - 15)]⟩ :=
        .malloc (by decide) trivial first
      have two : Step (fun _ _ => True) ⟨h₁, [(0x1010, 2 ^ 64 - 15)]⟩ ⟨h₂, if 0x1018 = NULL then
          [(0x1010, 2 ^ 64 - 15)] else [(0x1018, 5), (0x1010, 2 ^ 64 - 15)]⟩ :=
        .malloc (by decide) trivial second
      let c₀ : Client := ⟨h₂, [(0x1018, 5), (0x1010, 2 ^ 64 - 15)]⟩
      have held : (0x1010, 2 ^ 64 - 15) ∈ c₀.live := List.mem_cons_of_mem _ List.mem_cons_self
      have three : Release c₀ c₀ ⟨g, [(0x1018, 5)]⟩ := .free held freed
      have last : (0x1018, 5) ∈ (Client.mk g [(0x1018, 5)]).live := List.mem_cons_self
      have four : Release c₀ ⟨g, [(0x1018, 5)]⟩ ⟨h, []⟩ := .free last freed'
      refine ⟨c₀, ⟨h, []⟩, ⟨fun _ => 0, .tail (.single one) two⟩, held, .tail (.single three) four,
        List.not_mem_nil, h', again, ?_⟩
      rw [before, after]
      decide

end SoTp.FreeList
