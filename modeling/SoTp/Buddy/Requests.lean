/-
Which requests `internalMalloc` serves.

The size of a request is truncated to a `uint32_t` on its way to `getOrder`, and the order
is the number of doublings of a `uint32_t` that reach it.

* `getOrder_hangs` — above 2^31 they never do.
* `findOrder_none` — a request fails when no free block is large enough.
* `Reach.loses` — what `free` ignores stays in the tree as a block nobody holds.
* `request_served_iff` — which sizes are served, or refused with nothing changed.
* `request_fails_iff` — a request is refused exactly when no aligned region is free.
-/

import SoTp.Buddy.Coalescing

namespace SoTp.Buddy

open SoTp.Lib Dyadic
open SoTp.FreeList (NULL structSize Block payload lives mem_lives)

/-! ### The search for a block -/

/-- The `uint32_t` that `getOrder` is called with. -/
def requiredSize (size : Nat) : Nat := add64 size structSize % word32

/-- Doubling 2^31 gives 0, which stays 0. -/
theorem getOrder_hangs {size : Nat} (large : 2 ^ 31 < size) (fuel : Nat) :
    getOrder fuel size = .error .fuel := by
  refine loop_never (fun s => s.2 = 2 ^ s.1 ∧ s.1 ≤ 31 ∨ s.2 = 0) (fun s inv => ?_)
    (Or.inl ⟨rfl, Nat.zero_le 31⟩) fuel
  obtain ⟨order, iniBlockSize⟩ := s
  simp only at inv
  have small : iniBlockSize < size := by
    rcases inv with ⟨power, le⟩ | zero
    · have := Nat.pow_le_pow_right (n := 2) (by decide) le
      omega
    · omega
  refine ⟨_, if_pos small, ?_⟩
  rcases inv with ⟨rfl, le⟩ | rfl
  · rcases Nat.lt_or_ge order 31 with less | full
    · have fits : 2 ^ order * 2 < word32 := by
        rw [← Nat.pow_succ]
        exact Nat.pow_lt_pow_right (by decide) (by omega)
      exact Or.inl ⟨by rw [Nat.mod_eq_of_lt fits, Nat.pow_succ], less⟩
    · obtain rfl : order = 31 := by omega
      exact Or.inr rfl
  · exact Or.inr rfl

section Search

variable {area : Area} {h : Heap} {t : Tree} {k order size fuel : Nat}

theorem findOrder_eq_none {remaining : Nat} : findOrder h remaining order = none ↔
    ∀ k, order ≤ k → k < order + remaining → ¬ (h.freeList k ≠ NULL ∧ h.isFree (h.freeList k)) := by
  induction remaining generalizing order with
  | zero =>
      simp only [findOrder, true_iff]
      intro k le lt
      omega
  | succ remaining ih =>
      unfold findOrder
      split_ifs with here
      · simp only [false_iff]
        exact fun none => none order (Nat.le_refl _) (by omega) here
      · rw [ih]
        constructor
        · intro none k le lt
          rcases Nat.eq_or_lt_of_le le with rfl | less
          · exact here
          · exact none k less (by omega)
        · exact fun none k le lt => none k (by omega) (by omega)

/-- A list is usable exactly when the tree has a free block of its order. -/
theorem Layout.usable (l : Layout area h t) (lt : k < area.orderCount) :
    h.freeList k ≠ NULL ∧ h.isFree (h.freeList k) ↔
      ∃ b ∈ tiles area.top area.start t, b.label = none ∧ b.size = 2 ^ k := by
  obtain ⟨cells, listed, perm⟩ := l.listed k lt
  constructor
  · rintro ⟨some, -⟩
    cases cells with
    | nil => exact absurd listed some
    | cons a rest =>
        obtain ⟨b, hb, free, size, -⟩ := mem_freesAt.mp (perm.mem_iff.mp List.mem_cons_self)
        exact ⟨b, hb, free, size⟩
  · rintro ⟨b, hb, free, size⟩
    have cell := perm.mem_iff.mpr (mem_freesAt.mpr ⟨b, hb, free, size, rfl⟩)
    cases cells with
    | nil => cases cell
    | cons a rest =>
        obtain ⟨d, hd, free', -, rfl⟩ := mem_freesAt.mp (perm.mem_iff.mp List.mem_cons_self)
        have head : h.freeList k = d.addr := listed.1
        have bounds := (tiled_bounds l.tiled hd).1
        have pos := area.start_pos
        rw [head]
        refine ⟨by unfold NULL; omega, (l.headed d hd).2.mpr free'⟩

/-- The search fails when no free block is large enough. -/
theorem Layout.findOrder_none (l : Layout area h t) :
    findOrder h (area.orderCount - order) order = none ↔
      ∀ b ∈ tiles area.top area.start t, b.label = none → b.size < 2 ^ order := by
  rw [findOrder_eq_none]
  constructor
  · intro none b hb free
    obtain ⟨k, le, size, -⟩ := tiles_aligned l.fits hb
    have lt : k < area.orderCount := Nat.lt_of_le_of_lt le area.top_lt
    rw [size]
    refine Nat.pow_lt_pow_right (by decide) (Nat.lt_of_not_le fun ge => ?_)
    exact none k ge (by omega) ((l.usable lt).mpr ⟨b, hb, free, size⟩)
  · intro small k le lt usable
    obtain ⟨b, hb, free, size⟩ := (l.usable (by omega)).mp usable
    have less := small b hb free
    rw [size] at less
    have := Nat.pow_le_pow_right (n := 2) (by decide) le
    omega

variable (area h) in
/-- What `internalMalloc` returns once it knows the order. -/
theorem internalMalloc_of_order (found : getOrder fuel (requiredSize size) = .ok order) :
    (findOrder h (area.orderCount - order) order = none →
      internalMalloc fuel size area.orderCount h = .ok (h, NULL)) ∧
    (findOrder h (area.orderCount - order) order ≠ none →
      ∃ h' p, internalMalloc fuel size area.orderCount h = .ok (h', p) ∧ p ≠ NULL) := by
  unfold requiredSize at found
  unfold internalMalloc
  rw [found]
  simp only [ok_bind]
  cases search : findOrder h (area.orderCount - order) order with
  | none => exact ⟨fun _ => rfl, fun some => absurd rfl some⟩
  | some currentOrder =>
      refine ⟨fun none => absurd none (Option.some_ne_none _), fun _ => ⟨_, _, rfl, ?_⟩⟩
      unfold structSize NULL
      omega

/-- A size that needs no more than 2^31 bytes is not truncated. -/
theorem requiredSize_eq (fits : size + structSize ≤ 2 ^ 31) :
    requiredSize size = size + structSize := by
  have small : size + structSize < word32 := by
    unfold word32
    omega
  rw [requiredSize, add64_of_lt (by unfold word; omega), Nat.mod_eq_of_lt small]

end Search

/-! ### Blocks nobody holds -/

section Lost

variable {area : Area} {accepts : Nat → Prop} {c c' : Client} {t : Tree} {lost : List (Nat × Nat)}

/-- The heap of a client is laid out as if it still held what `free` has ignored. -/
def Loses (area : Area) (c : Client) (lost : List (Nat × Nat)) (t : Tree) : Prop :=
  Keeps area ⟨c.heap, c.live ++ lost⟩ t

theorem Loses.malloc (k : Loses area c lost t) {size fuel p : Nat} {h' : Heap}
    (fits : size + structSize ≤ 2 ^ 31)
    (run : internalMalloc fuel size area.orderCount c.heap = .ok (h', p)) :
    ∃ t', Loses area ⟨h', if p = NULL then c.live else (p, size) :: c.live⟩ lost t' := by
  obtain ⟨g, q, run', t', keeps⟩ := Keeps.malloc k fits (show 31 < max fuel 32 by omega)
  cases (internalMalloc_mono (Nat.le_max_left fuel 32) run).symm.trans run'
  refine ⟨t', ?_⟩
  unfold Loses
  split_ifs at keeps ⊢ <;> exact keeps

/-- A call that is ignored loses a block. -/
theorem Loses.free (k : Loses area c lost t) {entry : Entry} {p n fuel : Nat} {h' : Heap}
    (live : (p, n) ∈ c.live) (run : entry.call fuel area p c.heap = .ok h') :
    ∃ lost' t', Loses area ⟨h', c.live.erase (p, n)⟩ lost' t' := by
  have held : (p, n) ∈ c.live ++ lost := List.mem_append_left _ live
  by_cases below : entry = .free → Below area p
  · rw [Keeps.call_eq k held below] at run
    let more := max fuel ((tiles area.top area.start t).length + 33)
    obtain ⟨g, run', t', keeps⟩ :=
      Keeps.release k held (show _ < more by omega) (show 32 < more by omega)
    cases (release_mono (Nat.le_max_left fuel _) run).symm.trans run'
    refine ⟨lost, t', ?_⟩
    unfold Loses
    rwa [List.erase_append_left _ live] at keeps
  · obtain ⟨rfl, past⟩ := Classical.not_imp.mp below
    cases (Entry.call_ignored past fuel c.heap).symm.trans run
    refine ⟨(p, n) :: lost, t, k.layout, ?_⟩
    refine k.holds.trans ?_
    have split := List.perm_cons_erase live
    exact (split.append_right lost).trans List.perm_middle.symm

theorem Loses.write (k : Loses area c lost t) {mem : Nat → Nat}
    (inside : ∀ a, (∀ p n, (p, n) ∈ c.live → ¬ (p ≤ a ∧ a < p + n)) → mem a = c.heap.mem a) :
    Loses area ⟨{ c.heap with mem := mem }, c.live⟩ lost t :=
  Keeps.write k fun a outside => inside a fun p n live => outside p n (List.mem_append_left _ live)

theorem Reach.loses (reach : Reach area accepts c) : ∃ lost t, Loses area c lost t := by
  obtain ⟨mem, freeList, run⟩ := reach
  induction run with
  | refl => exact ⟨[], leaf none, init_layout area mem freeList, by simp [lives]⟩
  | tail _ step ih =>
      obtain ⟨lost, t, k⟩ := ih
      cases step with
      | malloc fits run => exact ⟨lost, k.malloc fits run⟩
      | free live _ run => exact k.free live run
      | write inside => exact ⟨lost, t, k.write inside⟩

end Lost

/-! ### Which sizes are served -/

/-- What a request is to end in: NULL with nothing changed, or a block with `size` bytes
behind its header; and NULL when the heap is too small. -/
def Served (area : Area) (h : Heap) (size : Nat) : Prop :=
  ∃ n h' p, (∀ fuel, n < fuel → internalMalloc fuel size area.orderCount h = .ok (h', p)) ∧
    (p = NULL ∧ h' = h ∨ p ≠ NULL ∧ size + structSize ≤ h'.size (p - structSize)) ∧
    (area.heapSize < size + structSize → p = NULL)

section Served

variable {area : Area} {h : Heap} {t : Tree} {size : Nat}

/-- A request of at most 2^31 bytes, header included. -/
theorem Layout.served (l : Layout area h t) (fits : size + structSize ≤ 2 ^ 31) :
    Served area h size := by
  have mono : ∀ {r}, internalMalloc 32 size area.orderCount h = .ok r → ∀ fuel, 31 < fuel →
      internalMalloc fuel size area.orderCount h = .ok r := fun run fuel enough =>
    internalMalloc_mono enough run
  rcases malloc_layout l fits (Nat.lt_succ_self 31) with run | ⟨h', p, t', run, some, layout, live⟩
  · exact ⟨31, h, NULL, mono run, Or.inl ⟨rfl, rfl⟩, fun _ => rfl⟩
  · obtain ⟨b, hb, label, e⟩ := mem_lives.mp (live.mem_iff.mpr List.mem_cons_self)
    have block : p - structSize = b.addr := by
      have payload_eq : p = b.addr + structSize := e.symm
      omega
    have room := layout.room b hb size label
    have bounds := tiled_bounds layout.tiled hb
    unfold Tile.stop at bounds
    refine ⟨31, h', p, mono run, Or.inr ⟨some, ?_⟩, fun large => by omega⟩
    rw [block, (layout.headed b hb).1]
    exact room

/-- A larger one is served right only when its truncation finds no block. -/
theorem Layout.served_large (l : Layout area h t) (large : 2 ^ 31 < size + structSize) :
    Served area h size ↔ requiredSize size ≤ 2 ^ 31 ∧
      ∀ k < area.orderCount, requiredSize size ≤ 2 ^ k → h.freeList k = NULL := by
  have tooLarge : area.heapSize < size + structSize := Nat.lt_of_le_of_lt area.heapSize_le large
  constructor
  · rintro ⟨n, h', p, run, -, none⟩
    have returned := run (max n 31 + 1) (by omega)
    rcases Nat.lt_or_ge (2 ^ 31) (requiredSize size) with hangs | small
    · unfold internalMalloc at returned
      rw [show add64 size structSize % word32 = requiredSize size from rfl,
        getOrder_hangs hangs] at returned
      cases returned
    · refine ⟨small, fun k lt le => by_contra fun some => ?_⟩
      obtain ⟨order, found, -, least⟩ := getOrder_spec small (show 31 < max n 31 + 1 by omega)
      have ge : order ≤ k := Nat.le_of_not_lt fun less =>
        Nat.lt_irrefl _ (Nat.lt_of_lt_of_le (least k less) le)
      have usable : h.freeList k ≠ NULL ∧ h.isFree (h.freeList k) := by
        obtain ⟨cells, listed, perm⟩ := l.listed k lt
        cases cells with
        | nil => exact absurd listed some
        | cons a rest =>
            obtain ⟨d, hd, free, -, rfl⟩ := mem_freesAt.mp (perm.mem_iff.mp List.mem_cons_self)
            exact ⟨some, listed.1 ▸ (l.headed d hd).2.mpr free⟩
      have hit : findOrder h (area.orderCount - order) order ≠ Option.none := fun miss =>
        findOrder_eq_none.mp miss k ge (by omega) usable
      obtain ⟨g, q, run', nonNull⟩ := (internalMalloc_of_order area _ found).2 hit
      cases returned.symm.trans run'
      exact nonNull (none tooLarge)
  · rintro ⟨small, empty⟩
    obtain ⟨order, found, room, -⟩ := getOrder_spec small (Nat.lt_succ_self 31)
    have miss : findOrder h (area.orderCount - order) order = none :=
      findOrder_eq_none.mpr fun k le lt usable => usable.1 (empty k (by omega)
        (Nat.le_trans room (Nat.pow_le_pow_right (by decide) le)))
    have run := (internalMalloc_of_order area _ found).1 miss
    exact ⟨31, h, NULL, fun fuel enough => internalMalloc_mono enough run, Or.inl ⟨rfl, rfl⟩,
      fun _ => rfl⟩

end Served

/-- In every reachable state and for every 64-bit size, the request is served as it should
be if and only if it needs at most 2^31 bytes with its header, or what is left of that
number in 32 bits is at most 2^31 and there is no free block of so many bytes. -/
theorem request_served_iff {area : Area} {accepts : Nat → Prop} {c : Client}
    (reach : Reach area accepts c) (size : Nat) : Served area c.heap size ↔
      size + structSize ≤ 2 ^ 31 ∨ requiredSize size ≤ 2 ^ 31 ∧
        ∀ k < area.orderCount, requiredSize size ≤ 2 ^ k → c.heap.freeList k = NULL := by
  obtain ⟨lost, t, k⟩ := reach.loses
  have l : Layout area c.heap t := k.layout
  rcases Nat.lt_or_ge (2 ^ 31) (size + structSize) with large | fits
  · rw [l.served_large large]
    exact ⟨Or.inr, fun h => h.resolve_left (Nat.not_le.mpr large)⟩
  · exact iff_of_true (l.served fits) (Or.inl fits)

/-- A block of 32 bytes is live at the start of the heap, and one of half its size behind it. -/
def halfTaken : Exec Client := mallocs processArea [5, 32752] freshClient

/-- No free block is left for the second request, whose 32 low bits ask for half the heap. -/
theorem request_served_halfTaken : ∃ c : Client, c.live = [(0x608020, 32752), (0x600020, 5)] ∧
    Served processArea c.heap 100 ∧ Served processArea c.heap (2 ^ 32 + 32752) := by
  have computed : halfTaken.map (fun c => (c.live, decide (∀ k < processArea.orderCount,
      requiredSize (2 ^ 32 + 32752) ≤ 2 ^ k → c.heap.freeList k = NULL))) =
      .ok ([(0x608020, 32752), (0x600020, 5)], true) := by decide +kernel
  obtain ⟨c, run, computed⟩ := map_ok_iff.mp computed
  simp only [Prod.mk.injEq, decide_eq_true_eq] at computed
  obtain ⟨live, none⟩ := computed
  have reach : Reach processArea (Below processArea) c := freshClient_reach (by decide) run
  exact ⟨c, live, (request_served_iff reach 100).mpr (Or.inl (by decide)),
    (request_served_iff reach _).mpr (Or.inr ⟨by decide, none⟩)⟩

/-- A fresh heap of 65536 bytes never answers a request for 2^31 bytes, and serves one for
2^32 bytes with a block of 16. -/
theorem request_truncated : Reach processArea (fun _ => True) freshClient ∧
    (∀ fuel, internalMalloc fuel (2 ^ 31) processArea.orderCount freshClient.heap = .error .fuel) ∧
    (internalMalloc 32 (2 ^ 32) processArea.orderCount freshClient.heap).map
      (fun r => (r.2, r.1.size (r.2 - structSize))) = .ok (0x600020, 16) ∧
    ¬ Served processArea freshClient.heap (2 ^ 31) ∧
      ¬ Served processArea freshClient.heap (2 ^ 32) := by
  have fresh : Layout processArea freshClient.heap (leaf none) :=
    init_layout processArea (fun _ => 0) fun _ => 0
  refine ⟨⟨fun _ => 0, fun _ => 0, .refl⟩, fun fuel => ?_, by decide +kernel, fun served => ?_,
    fun served => ?_⟩
  · have hangs : 2 ^ 31 < requiredSize (2 ^ 31) := by decide
    unfold internalMalloc
    rw [show add64 (2 ^ 31) structSize % word32 = requiredSize (2 ^ 31) from rfl,
      getOrder_hangs hangs]
    rfl
  · exact absurd ((fresh.served_large (by decide)).mp served).1 (by decide)
  · exact absurd (((fresh.served_large (by decide)).mp served).2 16 (by decide) (by decide))
      (by decide)

/-! ### When a request fails -/

/-- A live block meets the region of `2 ^ k` bytes with number `m`. -/
def Occupied (area : Area) (c : Client) (k m : Nat) : Prop :=
  ∃ p n, (p, n) ∈ c.live ∧ p - structSize < area.start + (m + 1) * 2 ^ k ∧
    area.start + m * 2 ^ k < p - structSize + c.heap.size (p - structSize)

section Fails

variable {area : Area} {c : Client} {t : Tree} {k m : Nat}

/-- A block the client holds occupies the regions it meets. -/
theorem Keeps.occupied (s : Keeps area c t) {b : Block} (hb : b ∈ tiles area.top area.start t)
    (used : b.label ≠ none) (low : b.addr < area.start + (m + 1) * 2 ^ k)
    (high : area.start + m * 2 ^ k < b.stop) : Occupied area c k m := by
  obtain ⟨n, label⟩ := Option.ne_none_iff_exists'.mp used
  have live := s.holds.mem_iff.mp (mem_lives.mpr ⟨b, hb, label, rfl⟩)
  refine ⟨payload b, n, live, ?_, ?_⟩
  · unfold payload
    omega
  · unfold payload
    rw [Nat.add_sub_cancel, (s.layout.headed b hb).1]
    exact high

/-- There is a large free block exactly when some region is free. -/
theorem Keeps.small_iff (s : Keeps area c t) :
    (∀ b ∈ tiles area.top area.start t, b.label = none → b.size < 2 ^ k) ↔
      ∀ m, (m + 1) * 2 ^ k ≤ area.heapSize → Occupied area c k m := by
  constructor
  · intro small m inside
    by_contra free
    obtain ⟨b, hb, unused, large⟩ := exists_large (P := Unused) s.layout.fits s.layout.merged inside
      fun b hb low high => by_contra fun used => free (s.occupied hb used low high)
    exact absurd (small b hb unused) (Nat.not_lt.mpr large)
  · intro occupied b hb free
    by_contra large
    obtain ⟨j, le, size, i, addr⟩ := tiles_aligned s.layout.fits hb
    have ge : k ≤ j := by
      rw [size, Nat.not_lt] at large
      exact (Nat.pow_le_pow_iff_right (by decide)).mp large
    -- The first region of the block.
    have first : i * 2 ^ j = i * 2 ^ (j - k) * 2 ^ k := by
      rw [Nat.mul_assoc, ← Nat.pow_add, Nat.sub_add_cancel ge]
    have width := Nat.succ_mul (i * 2 ^ (j - k)) (2 ^ k)
    rw [Nat.succ_eq_add_one] at width
    have bounds := tiled_bounds s.layout.tiled hb
    unfold Tile.stop at bounds
    obtain ⟨p, n, live, low, high⟩ := occupied (i * 2 ^ (j - k)) (by omega)
    obtain ⟨d, hd, label, rfl⟩ := mem_lives.mp (s.holds.mem_iff.mpr live)
    have other : d ≠ b := fun e => by
      rw [e, free] at label
      cases label
    have apart := tiled_apart s.layout.tiled hd hb other
    have header := (s.layout.headed d hd).1
    unfold payload at low high
    unfold Tile.stop at apart
    rw [Nat.add_sub_cancel, header] at high
    omega

end Fails

/-- In every state a client can reach without calling `free` on a pointer at the end of the
heap, a request that the heap has room for is refused if and only if every aligned region
of the size it needs meets a live block. -/
theorem request_fails_iff {area : Area} {c : Client} (reach : Reach area (Below area) c)
    {size k : Nat} (fits : size + structSize ≤ area.heapSize) (room : size + structSize ≤ 2 ^ k)
    (least : ∀ j < k, 2 ^ j < size + structSize) : ∃ n h' p,
    (∀ fuel, n < fuel → internalMalloc fuel size area.orderCount c.heap = .ok (h', p)) ∧
      (p = NULL ↔ ∀ m, (m + 1) * 2 ^ k ≤ area.heapSize → Occupied area c k m) := by
  obtain ⟨t, s⟩ := reach.keeps
  have small : size + structSize ≤ 2 ^ 31 := Nat.le_trans fits area.heapSize_le
  obtain ⟨order, found, enough, below⟩ := getOrder_spec small (Nat.lt_succ_self 31)
  have same : order = k := by
    rcases Nat.lt_trichotomy order k with less | same | more
    · exact absurd (least order less) (Nat.not_lt.mpr enough)
    · exact same
    · exact absurd (below k more) (Nat.not_lt.mpr room)
  subst same
  rw [← requiredSize_eq small] at found
  obtain ⟨fails, serves⟩ := internalMalloc_of_order area c.heap found
  rw [← s.small_iff, ← s.layout.findOrder_none]
  by_cases miss : findOrder c.heap (area.orderCount - order) order = none
  · exact ⟨31, c.heap, NULL, fun fuel more => internalMalloc_mono more (fails miss),
      iff_of_true rfl miss⟩
  · obtain ⟨h', p, run, some⟩ := serves miss
    exact ⟨31, h', p, fun fuel more => internalMalloc_mono more run, iff_of_false some miss⟩

/-- Each half of the heap holds a live block, so a request for a half is refused. -/
theorem request_fails_halfTaken : ∃ (c : Client) (n : Nat)
    (h' : Heap), c.live = [(0x608020, 32752), (0x600020, 5)] ∧
    ∀ fuel, n < fuel → internalMalloc fuel 32752 processArea.orderCount c.heap =
      .ok (h', NULL) := by
  have computed : halfTaken.map (fun c => (c.live, c.heap.size 0x600010, c.heap.size 0x608010)) =
      .ok ([(0x608020, 32752), (0x600020, 5)], 32, 32768) := by decide +kernel
  obtain ⟨c, run, computed⟩ := map_ok_iff.mp computed
  simp only [Prod.mk.injEq] at computed
  obtain ⟨live, low, high⟩ := computed
  have reach : Reach processArea (Below processArea) c := freshClient_reach (by decide) run
  have fits : 32752 + structSize ≤ processArea.heapSize := by decide
  have room : 32752 + structSize ≤ 2 ^ 15 := by decide
  obtain ⟨n, h', p, served, fails⟩ := request_fails_iff reach fits room (by decide)
  have refused : p = NULL := by
    refine fails.mpr fun m half => ?_
    have two : m = 0 ∨ m = 1 := by
      have size : processArea.heapSize = 2 * 2 ^ 15 := rfl
      omega
    rcases two with rfl | rfl
    · exact ⟨0x600020, 5, by simp [live], by decide,
        show _ < 0x600010 + c.heap.size 0x600010 by rw [low]; decide⟩
    · exact ⟨0x608020, 32752, by simp [live], by decide,
        show _ < 0x608010 + c.heap.size 0x608010 by rw [high]; decide⟩
  exact ⟨c, n, h', live, refused ▸ served⟩

/-- Calls of `free` on all the pointers of a client, the last one first. -/
theorem freeAll_reach {area : Area} {fuel : Nat} {live : List (Nat × Nat)} {h h' : Heap}
    (reach : Reach area (fun _ => True) ⟨h, live⟩)
    (run : freeAll fuel area (live.map fun x => (.free, x.1)) h = .ok h') :
    Reach area (fun _ => True) ⟨h', []⟩ := by
  induction live generalizing h with
  | nil =>
      cases run
      exact reach
  | cons x live ih =>
      obtain ⟨g, called, rest⟩ := bind_ok_iff.mp run
      obtain ⟨mem, freeList, steps⟩ := reach
      refine ih ⟨mem, freeList, steps.tail ?_⟩ rest
      have freed : Step area (fun _ => True) ⟨h, x :: live⟩ ⟨g, (x :: live).erase x⟩ :=
        Step.free List.mem_cons_self (fun _ => trivial) called
      rwa [List.erase_cons_head] at freed

/-- When a full heap was freed with `free`, nothing is live and a request for all of it
fails. -/
theorem empty_heap_refuses : ∃ c : Client, Reach processArea (fun _ => True) c ∧ c.live = [] ∧
    ¬ Occupied processArea c 16 0 ∧
      ∃ h', internalMalloc 32 65520 processArea.orderCount c.heap = .ok (h', NULL) := by
  have computed : (mallocs processArea fillingSizes freshClient >>= fun c =>
      freeAll 32 processArea (c.live.map fun x => (.free, x.1)) c.heap >>= fun h =>
        (internalMalloc 32 65520 processArea.orderCount h).map Prod.snd) =
          .ok NULL := by decide +kernel
  obtain ⟨c, filled, rest⟩ := bind_ok_iff.mp computed
  obtain ⟨h, freed, refused⟩ := bind_ok_iff.mp rest
  have reach : Reach processArea (fun _ => True) c := freshClient_reach (by decide) filled
  refine ⟨⟨h, []⟩, freeAll_reach reach freed, rfl, ?_, ?_⟩
  · rintro ⟨p, n, live, -⟩
    cases live
  · obtain ⟨⟨h', p⟩, run, refused⟩ := map_ok_iff.mp refused
    obtain rfl : p = NULL := refused
    exact ⟨h', run⟩

end SoTp.Buddy
