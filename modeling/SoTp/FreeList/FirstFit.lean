/-
When `internalMalloc` fails.

What a client sees of a heap are its live blocks. A `Run` is a maximal run of bytes
between the aligned start and the end marker that none of them covers.

* `Keeps.run_iff` — the runs are the free blocks.
* `malloc_fails_iff` — a request is refused exactly when every run is too short, and
  served from the lowest run that is not.
* `wrapped_malloc_overlaps` — what a size that wraps leaves behind.
-/

import SoTp.FreeList.Coalescing

namespace SoTp.FreeList

open SoTp.Lib

/-- A live block, header included, covers the address. Its header gives its size. -/
def Covered (c : Client) (a : Nat) : Prop :=
  ∃ p n, (p, n) ∈ c.live ∧ p - structSize ≤ a ∧
    a < p - structSize + (c.heap.blockSize (p - structSize) &&& not64 BLOCK_ALLOCATED_BITMASK)

/-- A maximal run of bytes that no live block covers. -/
structure Run (area : Area) (c : Client) (lo hi : Nat) : Prop where
  nonempty : lo < hi
  inside : area.alinedHeapStart ≤ lo ∧ hi ≤ c.heap.freeListEnd
  bare : ∀ a, lo ≤ a → a < hi → ¬ Covered c a
  left : lo = area.alinedHeapStart ∨ Covered c (lo - 1)
  right : hi = c.heap.freeListEnd ∨ Covered c hi

section Runs

variable {area : Area} {c : Client} {ts : List Block} {lo hi : Nat}

/-- The live tiles are what the client's blocks cover. -/
theorem Keeps.covered_iff (k : Keeps area c ts) {a : Nat} :
    Covered c a ↔ ∃ b ∈ ts, b.label ≠ none ∧ b.addr ≤ a ∧ a < b.stop := by
  have size : ∀ b ∈ ts, ∀ n, b.label = some n →
      c.heap.blockSize b.addr &&& not64 BLOCK_ALLOCATED_BITMASK = b.size := fun b hb n label => by
    have bounds := tiled_bounds k.layout.tiled hb
    have small := k.layout.bounded
    unfold Tile.stop at bounds
    rw [(k.layout.stamped b hb n label).size]
    exact and_not64_topBit (by unfold topBit; omega)
  constructor
  · rintro ⟨p, n, live, low, high⟩
    obtain ⟨b, hb, label, rfl⟩ := mem_lives.mp (k.holds.mem_iff.mpr live)
    rw [payload, Nat.add_sub_cancel] at low high
    rw [size b hb n label] at high
    exact ⟨b, hb, by simp [label], low, high⟩
  · rintro ⟨b, hb, used, low, high⟩
    obtain ⟨n, label⟩ := Option.ne_none_iff_exists'.mp used
    refine ⟨payload b, n, k.holds.mem_iff.mp (mem_lives.mpr ⟨b, hb, label, rfl⟩), ?_⟩
    rw [payload, Nat.add_sub_cancel, size b hb n label]
    exact ⟨low, high⟩

/-- A free block is bare. -/
theorem Keeps.bare (k : Keeps area c ts) {b : Block} (hb : b ∈ ts) (free : b.label = none) {a : Nat}
    (low : b.addr ≤ a) (high : a < b.stop) : ¬ Covered c a := fun covered => by
  obtain ⟨d, hd, used, dlow, dhigh⟩ := k.covered_iff.mp covered
  have apart := tiled_apart k.layout.tiled hb hd fun e => used (e ▸ free)
  omega

/-- Of two blocks that touch, a free one lies beside a covered byte. -/
theorem Keeps.beside (k : Keeps area c ts) {b d : Block} (hb : b ∈ ts) (hd : d ∈ ts)
    (touch : b.stop = d.addr) :
    (d.label = none → Covered c (d.addr - 1)) ∧ (b.label = none → Covered c b.stop) := by
  have bsize := (k.layout.sizes b hb).1
  have dsize := (k.layout.sizes d hd).1
  have bstop : b.stop = b.addr + b.size := rfl
  have dstop : d.stop = d.addr + d.size := rfl
  have separate := k.separate b hb d hd
  constructor
  · intro free
    exact k.covered_iff.mpr ⟨b, hb, fun other => separate other free touch, by omega, by omega⟩
  · intro free
    exact k.covered_iff.mpr ⟨d, hd, fun other => separate free other touch, by omega, by omega⟩

/-- The runs are the free blocks. -/
theorem Keeps.run_iff (k : Keeps area c ts) :
    Run area c lo hi ↔ ∃ b ∈ ts, b.label = none ∧ b.addr = lo ∧ b.stop = hi := by
  have tiled := k.layout.tiled
  constructor
  · intro run
    have inside := run.inside
    have nonempty := run.nonempty
    obtain ⟨b, hb, low, high⟩ := tiled_cover tiled inside.1 (by omega)
    have free : b.label = none := by
      by_contra used
      exact run.bare lo (Nat.le_refl _) nonempty (k.covered_iff.mpr ⟨b, hb, used, low, high⟩)
    have start : b.addr = lo := by
      by_contra ne
      have bounds := (tiled_bounds tiled hb).1
      have covered := run.left.resolve_left (by omega)
      exact k.bare hb free (by omega) (by omega) covered
    refine ⟨b, hb, free, start, ?_⟩
    rcases Nat.lt_trichotomy b.stop hi with short | stop | long
    · obtain ⟨d, hd, touch⟩ := (tiled_after tiled hb).resolve_left (by omega)
      exact absurd ((k.beside hb hd touch.symm).2 free) (run.bare _ (by omega) short)
    · exact stop
    · have bounds := (tiled_bounds tiled hb).2
      exact absurd (run.right.resolve_left (by omega)) (k.bare hb free (by omega) long)
  · rintro ⟨b, hb, free, rfl, rfl⟩
    have size := (k.layout.sizes b hb).1
    have stop : b.stop = b.addr + b.size := rfl
    refine ⟨by omega, tiled_bounds tiled hb, fun a => k.bare hb free, ?_, ?_⟩
    · refine (tiled_before tiled hb).imp id ?_
      rintro ⟨d, hd, touch⟩
      exact (k.beside hd hb touch).1 free
    · refine (tiled_after tiled hb).imp id ?_
      rintro ⟨d, hd, touch⟩
      exact (k.beside hb hd touch.symm).2 free

end Runs

/-- In every state a client can reach with requests that are served honestly, a request
that does not wrap is refused if and only if every run is too short for it, and is served
from the start of the lowest run that is long enough. -/
theorem malloc_fails_iff {area : Area} {c : Client} (reach : Reach area Served c) {size : Nat}
    (pos : 0 < size) (fits : size + 23 < 2 ^ 64) : ∃ n h' p,
    (∀ fuel, n < fuel → internalMalloc fuel size c.heap = .ok (h', p)) ∧
      (p = NULL ↔ ∀ lo hi, Run area c lo hi → hi - lo < (size + 16 + 7) / 8 * 8) ∧
      (p ≠ NULL → ∃ lo hi, Run area c lo hi ∧ (size + 16 + 7) / 8 * 8 ≤ hi - lo ∧
        p = lo + structSize ∧
        ∀ lo' hi', Run area c lo' hi' → (size + 16 + 7) / 8 * 8 ≤ hi' - lo' → lo ≤ lo') := by
  obtain ⟨ts, k⟩ := reach.keeps
  have required : alinedRequiredSize size = (size + 16 + 7) / 8 * 8 :=
    alinedRequiredSize_eq pos fits
  rw [← required]
  have length : ∀ b : Block, b.stop - b.addr = b.size := fun b => by
    unfold Tile.stop
    omega
  rcases malloc_layout k.layout fits (Nat.lt_succ_self ts.length) with
    ⟨run, small⟩ | ⟨h', -, pre, b, post, run, rfl, free, large, first, -⟩
  · refine ⟨ts.length, c.heap, NULL, fun fuel more => internalMalloc_mono more run, ?_,
      fun some => absurd rfl some⟩
    refine iff_of_true rfl fun lo hi here => ?_
    obtain ⟨b, hb, free, rfl, rfl⟩ := k.run_iff.mp here
    rw [length]
    exact small pos b hb free
  · have block : Run area c b.addr b.stop := k.run_iff.mpr ⟨b, by simp, free, rfl, rfl⟩
    have some : payload b ≠ NULL := by
      unfold payload structSize NULL
      omega
    refine ⟨_, h', payload b, fun fuel more => internalMalloc_mono more run, ?_, fun _ => ?_⟩
    · refine iff_of_false some fun short => ?_
      have less := short _ _ block
      rw [length] at less
      omega
    · refine ⟨b.addr, b.stop, block, by rw [length]; exact large, rfl, fun lo hi here enough => ?_⟩
      obtain ⟨d, hd, dfree, rfl, rfl⟩ := k.run_iff.mp here
      rw [length] at enough
      have later := (tiled_middle.mp k.layout.tiled).2
      rcases List.mem_append.mp hd with before | after
      · exact absurd (first d before dfree) (Nat.not_lt.mpr enough)
      · rcases List.mem_cons.mp after with rfl | after
        · exact Nat.le_refl _
        · have := (tiled_bounds later after).1
          unfold Tile.stop at this
          omega

/-- With five bytes handed out, the next request for five is not refused. -/
theorem malloc_fails_iff_fiveBytes : ∃ h n h' p, Reach smallArea Served ⟨h, [(0x1010, 5)]⟩ ∧
    (∀ fuel, n < fuel → internalMalloc fuel 5 h = .ok (h', p)) ∧
    (p = NULL ↔ ∀ lo hi, Run smallArea ⟨h, [(0x1010, 5)]⟩ lo hi →
      hi - lo < (5 + 16 + 7) / 8 * 8) := by
  obtain ⟨h, reach, -⟩ := reach_fiveBytes Served (Or.inl (by unfold word structSize; decide))
  obtain ⟨n, h', p, run, fails, -⟩ := malloc_fails_iff reach (show 0 < 5 by decide) (by decide)
  exact ⟨h, n, h', p, reach, run, fails⟩

/-- The request for `2 ^ 64 - 15` bytes is rounded to 8 and served with a block that is
smaller than its header. That header then claims the whole heap, and a request for five
bytes is still served, eight bytes into the block. -/
theorem wrapped_malloc_overlaps : ∃ c : Client, Reach smallArea (fun _ _ => True) c ∧
    c.live = [(0x1010, 2 ^ 64 - 15)] ∧ (∀ lo hi, ¬ Run smallArea c lo hi) ∧
      ∃ h', internalMalloc 3 5 c.heap = .ok (h', 0x1018) := by
  have computed : (internalMalloc 3 (2 ^ 64 - 15) freshClient.heap >>= fun r =>
      (internalMalloc 3 5 r.1).map fun s => (r.2, r.1.freeListEnd,
        r.1.blockSize 0x1000 &&& not64 BLOCK_ALLOCATED_BITMASK, s.2)) =
      .ok (0x1010, 0x1070, 0x1070, 0x1018) := by decide +kernel
  obtain ⟨⟨h, p⟩, first, rest⟩ := bind_ok_iff.mp computed
  cases second : internalMalloc 3 5 h with
  | error e =>
      simp only [second] at rest
      cases rest
  | ok s =>
      obtain ⟨h', q⟩ := s
      simp only [second, Except.map, Except.ok.injEq, Prod.mk.injEq] at rest
      obtain ⟨rfl, stop, size, rfl⟩ := rest
      refine ⟨⟨h, [(0x1010, 2 ^ 64 - 15)]⟩, ⟨fun _ => 0, .single ?_⟩, rfl,
        fun lo hi run => ?_, h', second⟩
      · exact .malloc (by decide) trivial first
      · have start : smallArea.alinedHeapStart = 0x1000 := by decide
        have inside := run.inside
        have nonempty := run.nonempty
        rw [start, stop] at inside
        refine run.bare lo (Nat.le_refl _) nonempty ⟨0x1010, 2 ^ 64 - 15, List.mem_cons_self, ?_⟩
        change 0x1000 ≤ lo ∧ lo < 0x1000 + (h.blockSize 0x1000 &&& not64 BLOCK_ALLOCATED_BITMASK)
        rw [size]
        omega

end SoTp.FreeList
