/-
Allocation on a well-formed buddy heap.

* `Layout.limbo`, `Limbo.layout` — a block leaves the tree and comes back.
* `getOrder_spec` — the least order with room for a size.
* `pop_limbo`, `splitDown_limbo` — the head of a free list is taken and halved.
* `malloc_layout` — `internalMalloc` hands out a block with enough room, or
  returns NULL without touching the heap.
-/

import SoTp.Buddy.Layout

namespace SoTp.Buddy

open SoTp.Lib Dyadic
open SoTp.FreeList
    (NULL structSize Block payload lives lives_append lives_cons_free lives_cons_live)

/-! ### In and out of the tree -/

section Passage

variable {area : Area} {h h' : Heap} {c : List (Level (Option Nat))} {k a : Nat} {x : Option Nat}

theorem tiles_hole (hole : Hole area.start area.top c k a) :
    tiles area.top area.start (plug c (leaf x)) =
      before c k a ++ (⟨a, 2 ^ k, x⟩ : Block) :: after c k a := by
  rw [tiles_plug hole, tiles_leaf]
  rfl

theorem mem_tiles_hole (hole : Hole area.start area.top c k a) {b : Block} :
    b ∈ tiles area.top area.start (plug c (leaf x)) ↔ b = ⟨a, 2 ^ k, x⟩ ∨ b ∈ around c k a := by
  rw [tiles_hole hole, mem_around]
  simp only [List.mem_append, List.mem_cons]
  tauto

/-- The free blocks with the one in the hole. -/
theorem freesAt_hole (order : Nat) (c : List (Level (Option Nat))) (k a : Nat) :
    (freesAt order (before c k a ++ (⟨a, 2 ^ k, none⟩ : Block) :: after c k a)).Perm
      (if order = k then a :: freesAt order (around c k a) else freesAt order (around c k a)) := by
  unfold around
  rw [freesAt_append, freesAt_append]
  split_ifs with same
  · rw [freesAt_cons_free rfl (by rw [same])]
    exact List.perm_middle
  · rw [freesAt_cons_other fun _ size => same (Nat.pow_right_injective (Nat.le_refl 2) size).symm]

theorem freesAt_hole_live {order n : Nat} :
    freesAt order (before c k a ++ (⟨a, 2 ^ k, some n⟩ : Block) :: after c k a) =
      freesAt order (around c k a) := by
  unfold around
  rw [freesAt_append, freesAt_append, freesAt_cons_other fun free => by cases free]

/-- The block in the hole leaves the tree. -/
theorem Layout.limbo (l : Layout area h (plug c (leaf x))) (hole : Hole area.start area.top c k a)
    (same : ∀ b ∈ around c k a, SameHeader h h' b.addr) (size : h'.size a = 2 ^ k)
    (isFree : h'.isFree a)
    (listed : ∀ order < area.orderCount,
      ∃ cells, Listed h' order cells ∧ cells.Perm (freesAt order (around c k a)))
    (last : c = [] → h'.next a = NULL) : Limbo area h' c k a := by
  have sub : ∀ b ∈ around c k a, b ∈ tiles area.top area.start (plug c (leaf x)) :=
    fun b hb => (mem_tiles_hole hole).mpr (Or.inr hb)
  have inner : c ≠ [] → ∀ b ∈ tiles area.top area.start (plug c (leaf x)), structSize ≤ b.size :=
    fun ne => l.roomy.resolve_left fun ⟨_, whole⟩ => plug_ne_leaf ne whole
  refine { headed := fun b hb => (l.headed b (sub b hb)).congr (same b hb)
           room := fun b hb => l.room b (sub b hb)
           listed := listed, hole := hole, fits := ((fits_plug hole).mp l.fits).2
           size := size, isFree := isFree
           roomy := fun b hb => ?_, large := fun ne => ?_
           merged := (merged_of_plug l.merged).2, last := last }
  · refine inner (fun nil => ?_) b (sub b hb)
    subst nil
    cases hb
  · have big : 2 ^ 4 ≤ 2 ^ k := inner ne _ ((mem_tiles_hole hole).mpr (Or.inl rfl))
    exact (Nat.pow_le_pow_iff_right (by decide)).mp big

/-- A block is put into the hole. -/
theorem Limbo.layout (l : Limbo area h c k a) (same : ∀ b ∈ around c k a, SameHeader h h' b.addr)
    (headed : Headed h' ⟨a, 2 ^ k, x⟩) (room : ∀ n, x = some n → n + structSize ≤ 2 ^ k)
    (listed : ∀ order < area.orderCount, ∃ cells, Listed h' order cells ∧
      cells.Perm (freesAt order (before c k a ++ (⟨a, 2 ^ k, x⟩ : Block) :: after c k a)))
    (apart : x = none → ∀ s ∈ c.head?, ¬ WholeLeaf Unused s.sibling)
    (last : ∀ n, plug c (leaf x) = leaf (some n) → h'.next area.start = NULL) :
    Layout area h' (plug c (leaf x)) := by
  refine { headed := fun b hb => ?_, room := fun b hb n label => ?_
           listed := fun order lt => ?_, fits := (fits_plug l.hole).mpr ⟨fits_leaf, l.fits⟩
           roomy := ?_, merged := merged_plug merged_leaf l.merged ?_, last := last }
  · rcases (mem_tiles_hole l.hole).mp hb with rfl | hb
    · exact headed
    · exact (l.headed b hb).congr (same b hb)
  · rcases (mem_tiles_hole l.hole).mp hb with rfl | hb
    · exact room n label
    · exact l.room b hb n label
  · rw [tiles_hole l.hole]
    exact listed order lt
  · by_cases nil : c = []
    · subst nil
      exact Or.inl ⟨x, rfl⟩
    · refine Or.inr fun b hb => ?_
      rcases (mem_tiles_hole l.hole).mp hb with rfl | hb
      · have big : 2 ^ 4 ≤ 2 ^ k := Nat.pow_le_pow_right (by decide) (l.large nil)
        exact big
      · exact l.roomy b hb
  · rintro ⟨y, e, unused⟩
    cases e
    exact apart unused

/-- The cells of a list around a hole are blocks around the hole. -/
theorem cell_around {order : Nat} {cells : List Nat}
    (perm : cells.Perm (freesAt order (around c k a)))
    {y : Nat} (hy : y ∈ cells) : ∃ b ∈ around c k a, b.label = none ∧ b.size = 2 ^ order ∧
      b.addr = y :=
  mem_freesAt.mp (perm.mem_iff.mp hy)

end Passage

/-! ### The order of a request -/

/-- `getOrder` ends, at the least order whose blocks have room for the size. -/
theorem getOrder_spec {size fuel : Nat} (le : size ≤ 2 ^ 31) (enough : 31 < fuel) :
    ∃ k, getOrder fuel size = .ok k ∧ size ≤ 2 ^ k ∧ ∀ j < k, 2 ^ j < size := by
  refine loop_total
    (fun n s => s.2 = 2 ^ s.1 ∧ s.1 + n = 31 ∧ ∀ j < s.1, 2 ^ j < size)
    (fun k => size ≤ 2 ^ k ∧ ∀ j < k, 2 ^ j < size) ?_
    (n := 31) ⟨rfl, rfl, fun j hj => absurd hj (Nat.not_lt_zero j)⟩ enough
  rintro n ⟨order, iniBlockSize⟩ ⟨power, count, below⟩
  simp only at power count below
  subst power
  by_cases small : 2 ^ order < size
  · have less : order < 31 :=
      (Nat.pow_lt_pow_iff_right (by decide)).mp (Nat.lt_of_lt_of_le small le)
    have fits : 2 ^ order * 2 < word32 := by
      rw [← Nat.pow_succ]
      exact Nat.pow_lt_pow_right (by decide) (by omega)
    refine Or.inr ⟨n - 1, (order + 1, 2 ^ (order + 1)), by omega, ?_, rfl, by simp only; omega,
      fun j hj => ?_⟩
    · rw [advanceOrder, if_pos small, Nat.mod_eq_of_lt fits, Nat.pow_succ]
    · rcases Nat.lt_succ_iff_lt_or_eq.mp hj with lt | rfl
      · exact below j lt
      · exact small
  · exact Or.inl ⟨order, by rw [advanceOrder, if_neg small], Nat.le_of_not_lt small, below⟩

/-- The order of a block's own size. -/
theorem getOrder_two_pow {k fuel : Nat} (le : k ≤ 31) (enough : 31 < fuel) :
    getOrder fuel (2 ^ k) = .ok k := by
  obtain ⟨j, found, room, least⟩ := getOrder_spec (Nat.pow_le_pow_right (by decide) le) enough
  have ge : k ≤ j := (Nat.pow_le_pow_iff_right (by decide)).mp room
  have same : j = k := by
    by_contra ne
    exact Nat.lt_irrefl _ (least k (by omega))
  rw [found, same]

theorem findOrder_some {h : Heap} {remaining order k : Nat}
    (found : findOrder h remaining order = some k) :
    order ≤ k ∧ k < order + remaining ∧ h.freeList k ≠ NULL := by
  induction remaining generalizing order with
  | zero => cases found
  | succ remaining ih =>
      unfold findOrder at found
      split_ifs at found with here
      · cases found
        exact ⟨Nat.le_refl _, by omega, here.1⟩
      · obtain ⟨lo, hi, head⟩ := ih found
        exact ⟨by omega, by omega, head⟩

/-! ### Taking a block -/

section Take

variable {area : Area} {h : Heap} {c : List (Level (Option Nat))} {k a j : Nat} {t : Tree}

/-- The head of a free list leaves the tree. -/
theorem pop_limbo (l : Layout area h t) (lt : k < area.orderCount) (some : h.freeList k ≠ NULL) :
    ∃ c, t = plug c (leaf none) ∧
      Limbo area (h.setFreeList k (h.next (h.freeList k))) c k (h.freeList k) := by
  obtain ⟨cells, listed, perm⟩ := l.listed k lt
  obtain ⟨a, rest, rfl⟩ : ∃ a rest, cells = a :: rest := by
    cases cells with
    | nil => exact absurd listed some
    | cons a rest => exact ⟨a, rest, rfl⟩
  obtain ⟨head, tail⟩ := listed
  rw [head]
  obtain ⟨b, hb, free, size, rfl⟩ := mem_freesAt.mp (perm.mem_iff.mp List.mem_cons_self)
  obtain ⟨c, j, filled, hole, size'⟩ := exists_hole (c := []) (t := t) ⟨rfl, rfl⟩ hb
  obtain rfl := Nat.pow_right_injective (Nat.le_refl 2) (size.symm.trans size')
  rw [free] at filled
  change plug c (leaf none) = t at filled
  subst filled
  have headed := l.headed b hb
  rw [tiles_hole hole] at perm
  have rest_perm : rest.Perm (freesAt k (around c k b.addr)) := by
    have all := perm.trans (freesAt_hole _ _ _ _)
    rw [if_pos rfl] at all
    exact (List.perm_cons b.addr).mp all
  refine ⟨c, rfl, l.limbo hole (fun _ _ => setFreeList_same) (headed.1.trans size) ?_ ?_ ?_⟩
  · exact headed.2.mpr free
  · intro order lt
    by_cases same : order = k
    · subst same
      exact ⟨rest, by rw [Listed, setFreeList_freeList, if_pos rfl]; exact tail, rest_perm⟩
    · obtain ⟨cells, listed, perm⟩ := l.listed order lt
      rw [tiles_hole hole] at perm
      have all := perm.trans (freesAt_hole _ _ _ _)
      rw [if_neg same] at all
      exact ⟨cells, listed.congr (by rw [setFreeList_freeList, if_neg same]) fun _ _ => rfl, all⟩
  · -- The list of the whole heap has no second cell.
    rintro rfl
    rw [around, before, after, List.append_nil, freesAt_nil] at rest_perm
    rw [List.perm_nil.mp rest_perm] at tail
    exact tail

/-- Halving the block in the hole: its upper half is listed. -/
theorem split_limbo (l : Limbo area h c (j + 1) a) (large : 4 ≤ j) (lt : j < area.orderCount) :
    (splitBlock h a).2 = a + 2 ^ j ∧
      Limbo area
        (((splitBlock h a).1.setNext (a + 2 ^ j) ((splitBlock h a).1.freeList j)).setFreeList j
        (a + 2 ^ j)) (.inLeft (leaf none) :: c) j a := by
  have half : h.size a / 2 = 2 ^ j := by
    rw [l.size, Nat.pow_succ]
    omega
  have big : 2 ^ 4 ≤ 2 ^ j := Nat.pow_le_pow_right (by decide) large
  have double : 2 ^ (j + 1) = 2 ^ j + 2 ^ j := by ring
  have halves : Apart (a + 2 ^ j) a := by
    unfold Apart structSize
    omega
  have upper : ∀ b ∈ around c (j + 1) a, Apart (a + 2 ^ j) b.addr := fun b hb => by
    have clear := l.clear hb
    have size := l.roomy b hb
    unfold Tile.stop at clear
    unfold Apart structSize at *
    omega
  unfold splitBlock
  simp only [half]
  -- Away from the two halves nothing changes.
  have same : ∀ x, Apart a x → Apart (a + 2 ^ j) x → SameHeader h
      (((((h.setSize a (2 ^ j)).setSize (a + 2 ^ j) (2 ^ j)).setIsFree (a + 2 ^ j) true).setNext
        (a + 2 ^ j) (h.freeList j)).setFreeList j (a + 2 ^ j)) x := fun x low up =>
    (((setSize_same low).trans (setSize_same up)).trans (setIsFree_same up)).trans
      ((setNext_same up).trans setFreeList_same)
  have keep : SameHeader (h.setSize a (2 ^ j))
      (((((h.setSize a (2 ^ j)).setSize (a + 2 ^ j) (2 ^ j)).setIsFree (a + 2 ^ j) true).setNext
        (a + 2 ^ j) (h.freeList j)).setFreeList j (a + 2 ^ j)) a :=
    ((setSize_same halves).trans (setIsFree_same halves)).trans
      ((setNext_same halves).trans setFreeList_same)
  have blocks : around (.inLeft (leaf none) :: c) j a =
      before c (j + 1) a ++ (⟨a + 2 ^ j, 2 ^ j, none⟩ : Block) :: after c (j + 1) a := by
    simp [around, before, after]
  have member : ∀ b ∈ around (.inLeft (leaf none) :: c) j a,
      b = ⟨a + 2 ^ j, 2 ^ j, none⟩ ∨ b ∈ around c (j + 1) a := fun b hb => by
    rw [blocks] at hb
    rw [mem_around]
    simp only [List.mem_append, List.mem_cons] at hb
    tauto
  refine ⟨trivial, { headed := fun b hb => ?_, room := fun b hb n label => ?_
                     listed := fun order lt => ?_, hole := l.hole, fits := ⟨fits_leaf, l.fits⟩
                     size := ?_, isFree := ?_, roomy := fun b hb => ?_, large := fun _ => large
                     merged := List.forall_mem_cons.mpr ⟨merged_leaf, l.merged⟩
                     last := fun nil => absurd nil (List.cons_ne_nil _ _) }⟩
  · rcases member b hb with rfl | hb
    · exact ⟨by simp, by simp⟩
    · exact (l.headed b hb).congr (same b.addr (l.apart hb) (upper b hb))
  · rcases member b hb with rfl | hb
    · cases label
    · exact l.room b hb n label
  · obtain ⟨cells, listed, perm⟩ := l.listed order lt
    have nexts : ∀ x ∈ cells, (((((h.setSize a (2 ^ j)).setSize (a + 2 ^ j) (2 ^ j)).setIsFree
        (a + 2 ^ j) true).setNext (a + 2 ^ j) (h.freeList j)).setFreeList j (a + 2 ^ j)).next x =
          h.next x := fun x hx => by
      obtain ⟨b, hb, -, -, rfl⟩ := cell_around perm hx
      exact (same b.addr (l.apart hb) (upper b hb)).1
    rw [blocks]
    by_cases here : order = j
    · subst here
      refine ⟨(a + 2 ^ order) :: cells, ⟨?_, ?_⟩, ?_⟩
      · rw [setFreeList_freeList, if_pos rfl]
      · rw [setFreeList_next, setNext_next]
        exact (segment_congr nexts).mpr listed
      · rw [freesAt_append, freesAt_cons_free rfl rfl]
        refine List.Perm.trans ?_ List.perm_middle.symm
        rw [← freesAt_append]
        exact perm.cons _
    · refine ⟨cells, listed.congr ?_ nexts, ?_⟩
      · rw [setFreeList_freeList, if_neg here]
        rfl
      · rw [freesAt_append, freesAt_cons_other fun _ size =>
          here (Nat.pow_right_injective (Nat.le_refl 2) size).symm, ← freesAt_append]
        exact perm
  · exact keep.size.trans setSize_size
  · exact keep.isFree.mpr (setSize_isFree.mpr l.isFree)
  · rcases member b hb with rfl | hb
    · exact big
    · exact l.roomy b hb

theorem lives_upper : lives (around (.inLeft (leaf none) :: c) j a) =
    lives (around c (j + 1) a) := by
  simp only [around, before, after, lives_append, tiles_leaf]
  rw [lives_cons_free rfl]
  rfl

/-- Halving down to an order. -/
theorem splitDown_limbo {order : Nat} (large : 4 ≤ order) (l : Limbo area h c (order + j) a)
    (lt : order + j < area.orderCount) :
    ∃ d, Limbo area (splitDown a order j h) d order a ∧
      lives (around d order a) = lives (around c (order + j) a) := by
  induction j generalizing h c with
  | zero => exact ⟨c, l, rfl⟩
  | succ j ih =>
      have less : order + j < area.orderCount := Nat.lt_of_succ_lt lt
      obtain ⟨buddy, halved⟩ := split_limbo l (by omega : 4 ≤ order + j) less
      obtain ⟨d, limbo, live⟩ := ih halved less
      refine ⟨d, ?_, live.trans lives_upper⟩
      rw [splitDown]
      simp only [buddy]
      exact limbo

/-- The block in the hole is handed out. -/
theorem hand_out {n : Nat} (l : Limbo area h c k a) (room : n + structSize ≤ 2 ^ k) :
    Layout area (h.setIsFree a false) (plug c (leaf (some n))) := by
  refine l.layout (fun b hb => setIsFree_same (l.apart hb)) ⟨?_, by simp⟩
    (fun m e => by cases e; exact room) (fun order lt => ?_) (fun e => by cases e) ?_
  · exact setIsFree_size.trans l.size
  · obtain ⟨cells, listed, perm⟩ := l.listed order lt
    refine ⟨cells, listed.congr rfl fun x hx => ?_, by rwa [freesAt_hole_live]⟩
    obtain ⟨b, hb, -, -, rfl⟩ := cell_around perm hx
    exact (setIsFree_same (l.apart hb)).1
  · intro m whole
    have nil : c = [] := not_not.mp fun inner => plug_ne_leaf inner whole
    subst nil
    obtain ⟨-, rfl⟩ := l.hole
    exact setIsFree_next.trans (l.last rfl)

theorem lives_hole {n : Nat} :
    (lives (before c k a ++ (⟨a, 2 ^ k, some n⟩ : Block) :: after c k a)).Perm
      ((a + structSize, n) :: lives (around c k a)) := by
  unfold around
  rw [lives_append, lives_append, lives_cons_live rfl]
  exact List.perm_middle

theorem lives_hole_free :
    lives (before c k a ++ (⟨a, 2 ^ k, none⟩ : Block) :: after c k a) = lives (around c k a) := by
  unfold around
  rw [lives_append, lives_append, lives_cons_free rfl]

end Take

/-- `internalMalloc` ends, and either nothing has changed or a block with room
for the request has been handed out. -/
theorem malloc_layout {area : Area} {h : Heap} {t : Tree} (l : Layout area h t) {size fuel : Nat}
    (fits : size + structSize ≤ 2 ^ 31) (enough : 31 < fuel) :
    internalMalloc fuel size area.orderCount h = .ok (h, NULL) ∨
      ∃ h' p t', internalMalloc fuel size area.orderCount h = .ok (h', p) ∧ p ≠ NULL ∧
        Layout area h' t' ∧ (lives (tiles area.top area.start t')).Perm
          ((p, size) :: lives (tiles area.top area.start t)) := by
  have small : size + structSize < word32 := by
    unfold word32
    omega
  have exact64 : add64 size structSize % word32 = size + structSize := by
    rw [add64_of_lt (by unfold word; omega), Nat.mod_eq_of_lt small]
  obtain ⟨order, found, room, least⟩ := getOrder_spec fits enough
  have large : 4 ≤ order := by
    have big : 2 ^ 4 ≤ 2 ^ order := Nat.le_trans (by unfold structSize; omega) room
    exact (Nat.pow_le_pow_iff_right (by decide)).mp big
  unfold internalMalloc
  rw [exact64, found]
  simp only [ok_bind]
  cases search : findOrder h (area.orderCount - order) order with
  | none => exact Or.inl rfl
  | some currentOrder =>
      right
      obtain ⟨lo, hi, nonempty⟩ := findOrder_some search
      have lt : currentOrder < area.orderCount := by omega
      obtain ⟨c, rfl, popped⟩ := pop_limbo l lt nonempty
      obtain ⟨j, rfl⟩ := Nat.exists_eq_add_of_le lo
      obtain ⟨d, limbo, live⟩ := splitDown_limbo large popped lt
      have done := hand_out limbo room
      refine ⟨_, h.freeList (order + j) + structSize, _, ?_, ?_, done, ?_⟩
      · simp only [Nat.add_sub_cancel_left]
        rfl
      · unfold structSize NULL
        omega
      · rw [tiles_hole limbo.hole, tiles_hole popped.hole, lives_hole_free, ← live]
        exact lives_hole

end SoTp.Buddy
