/-
Release on a well-formed buddy heap.

* `removeFromFreeList_spec` — what removing a block from a list does, whether
  the block is its head, somewhere in it, or not in it at all.
* `merge_limbo` — one level of `mergeBlock`: the block and its free buddy become
  the block of the next order.
* `mergeBlock_layout` — the whole cascade ends in a well-formed heap.
* `release_layout` — releasing a live block takes exactly that block back.
-/

import SoTp.Buddy.Alloc

namespace SoTp.Buddy

open SoTp.Lib Dyadic
open SoTp.FreeList (NULL structSize Block payload lives lives_append lives_cons_free mem_lives)

/-! ### Removing a block from a list -/

/-- From `h` to `h'` the block `x` has left the list of the order. -/
structure Removed (h h' : Heap) (x order : Nat) (cells : List Nat) : Prop where
  lists : ∀ j, j ≠ order → h'.freeList j = h.freeList j
  listed : Listed h' order (cells.erase x)
  size : h'.size x = h.size x
  /-- The link of the block is stale only when it was the head of a longer list. -/
  next : x ∉ cells ∨ cells = [x] → h'.next x = NULL
  kept : ∀ y, Apart x y → (∀ z ∈ cells, z = y ∨ Apart z y) →
    h'.size y = h.size y ∧ (h'.isFree y ↔ h.isFree y)
  links : ∀ y, Apart x y → (∀ z ∈ cells, Apart z y) → h'.next y = h.next y

section Remove

variable {h : Heap} {x order fuel : Nat} {cells : List Nat}

theorem not_apart_self {y : Nat} : ¬ Apart y y := fun apart => apart.ne rfl

/-- The walk stops before the block, or at the end of a list without it. -/
theorem walk_spec (listed : Listed h order cells) (notNull : NULL ∉ cells) (some : x ≠ NULL)
    (head : h.freeList order ≠ x) (enough : cells.length < fuel) :
    ∃ cur, loop (advanceCurrent h x) fuel (h.freeList order) = .ok cur ∧
      (cur = NULL ∧ x ∉ cells ∨ ∃ pre post, cells = pre ++ cur :: x :: post ∧ x ∉ pre) := by
  refine loop_total
    (fun n cur => ∃ pre rest, cells = pre ++ rest ∧ rest.length = n ∧ x ∉ pre ∧ cur ≠ x ∧
      Segment h.next cur rest NULL)
    _ ?_ ⟨[], cells, rfl, rfl, by simp, head, listed⟩ enough
  rintro n cur ⟨pre, rest, rfl, rfl, passed, ne, seg⟩
  cases rest with
  | nil =>
      obtain rfl : cur = NULL := seg
      exact Or.inl ⟨NULL, by rw [advanceCurrent, if_neg (by simp)],
        Or.inl ⟨rfl, by simpa using passed⟩⟩
  | cons y rest =>
      obtain ⟨rfl, seg⟩ := seg
      have here : cur ≠ NULL := fun e => notNull (by simp [e])
      by_cases found : h.next cur = x
      · refine Or.inl ⟨cur, by rw [advanceCurrent, if_neg (fun both => both.2 found)], Or.inr ?_⟩
        rw [found] at seg
        cases rest with
        | nil => exact absurd seg some
        | cons z rest =>
            obtain ⟨rfl, -⟩ := seg
            exact ⟨pre, rest, rfl, passed⟩
      · refine Or.inr ⟨rest.length, h.next cur, by simp, ?_, pre ++ [cur], rest, by simp, rfl, ?_,
          found, seg⟩
        · rw [advanceCurrent, if_pos ⟨here, found⟩]
        · simp only [List.mem_append, List.mem_singleton, not_or]
          exact ⟨passed, fun e => ne e.symm⟩

theorem removeFromFreeList_spec (listed : Listed h order cells) (separate : cells.Pairwise Apart)
    (away : ∀ y ∈ cells, y = x ∨ Apart x y) (notNull : NULL ∉ cells) (some : x ≠ NULL)
    (enough : cells.length < fuel) :
    ∃ h', removeFromFreeList fuel x order h = .ok h' ∧ Removed h h' x order cells := by
  have marked : ∀ y, Apart x y → SameHeader h (h.setIsFree x false) y := fun y => setIsFree_same
  have nexts : ∀ y, y = x ∨ Apart x y → (h.setIsFree x false).next y = h.next y := fun y hy => by
    rcases hy with rfl | apart
    · exact setIsFree_next
    · exact (marked y apart).1
  have listed : Listed (h.setIsFree x false) order cells :=
    listed.congr rfl fun y hy => nexts y (away y hy)
  unfold removeFromFreeList
  simp only []
  by_cases head : (h.setIsFree x false).freeList order = x
  · -- The block is the head of the list.
    rw [if_pos head]
    cases cells with
    | nil => exact absurd (head.symm.trans listed) some
    | cons y rest =>
        obtain ⟨front, tail⟩ := listed
        obtain rfl : y = x := front.symm.trans head
        refine ⟨_, rfl, ?_, ?_, ?_, ?_, ?_, ?_⟩
        · intro j ne
          rw [setFreeList_freeList, if_neg ne]
          rfl
        · rw [List.erase_cons_head, Listed, setFreeList_freeList, if_pos rfl]
          exact tail
        · exact setIsFree_size
        · rintro (out | single)
          · exact absurd List.mem_cons_self out
          · cases single
            exact tail
        · intro y apart _
          exact ⟨(marked y apart).size, (marked y apart).isFree⟩
        · intro y apart _
          exact (marked y apart).1
  · rw [if_neg head]
    obtain ⟨cur, found, outcome⟩ := walk_spec listed notNull some head enough
    rw [found]
    simp only [ok_bind]
    rcases outcome with ⟨rfl, out⟩ | ⟨pre, post, rfl, out⟩
    · -- It is in no list: only its own header is written.
      rw [if_neg (by simp)]
      have apart : ∀ y ∈ cells, Apart x y := fun y hy =>
        (away y hy).resolve_left fun e => out (e ▸ hy)
      refine ⟨_, rfl, fun _ _ => rfl, ?_, ?_, ?_, ?_, ?_⟩
      · rw [List.erase_of_not_mem out]
        exact listed.congr rfl fun y hy => (setNext_same (apart y hy)).1
      · exact setNext_size.trans setIsFree_size
      · exact fun _ => setNext_next
      · intro y apart _
        have same : SameHeader h ((h.setIsFree x false).setNext x NULL) y :=
          (marked y apart).trans (setNext_same apart)
        exact ⟨same.size, same.isFree⟩
      · intro y apart _
        exact ((marked y apart).trans (setNext_same apart)).1
    · -- The cell before it is linked to the one after it.
      have here : cur ≠ NULL := fun e => notNull (by simp [e])
      rw [if_pos here]
      obtain ⟨-, inner, cross⟩ := List.pairwise_append.mp separate
      obtain ⟨after, tail, -⟩ := List.pairwise_cons.mp inner |>.imp_right List.pairwise_cons.mp
      have cur_x : Apart cur x := after x List.mem_cons_self
      have relinked : ∀ y, Apart cur y → Apart x y →
          SameHeader h (((h.setIsFree x false).setNext cur ((h.setIsFree x false).next x)).setNext x
            NULL) y := fun y hc hx =>
        ((marked y hx).trans (setNext_same hc)).trans (setNext_same hx)
      have erased : (pre ++ cur :: x :: post).erase x = pre ++ cur :: post := by
        rw [List.erase_append_right _ out, List.erase_cons_tail (by simpa using cur_x.ne),
          List.erase_cons_head]
      refine ⟨_, rfl, fun _ _ => rfl, ?_, ?_, ?_, ?_, ?_⟩
      · obtain ⟨front, step, rest⟩ := segment_middle.mp listed
        rw [erased]
        refine segment_middle.mpr ⟨(segment_congr fun y hy => ?_).mpr front, ?_⟩
        · have hc : Apart cur y := (cross y hy cur List.mem_cons_self).symm
          have hx : Apart x y := (cross y hy x (by simp)).symm
          exact ((setNext_same hc).trans (setNext_same hx)).1
        · have link : (((h.setIsFree x false).setNext cur ((h.setIsFree x false).next x)).setNext x
              NULL).next cur = (h.setIsFree x false).next x :=
            (setNext_same cur_x.symm).1.trans setNext_next
          rw [link]
          refine (segment_congr fun y hy => ?_).mpr rest
          have hc : Apart cur y := after y (List.mem_cons_of_mem x hy)
          exact ((setNext_same hc).trans (setNext_same (tail y hy))).1
      · refine setNext_size.trans ?_
        exact (setNext_same cur_x).size.trans setIsFree_size
      · exact fun _ => setNext_next
      · intro y hx hy
        rcases hy cur (by simp) with rfl | hc
        · exact ⟨(setNext_same hx).size.trans (setNext_size.trans (marked cur hx).size),
            (setNext_same hx).isFree.trans (setNext_isFree.trans (marked cur hx).isFree)⟩
        · exact ⟨(relinked y hc hx).size, (relinked y hc hx).isFree⟩
      · intro y hx hy
        exact (relinked y (hy cur (by simp)) hx).1

end Remove

/-! ### Merging -/

section Merge

variable {area : Area} {h : Heap} {s : Level (Option Nat)} {c : List (Level (Option Nat))}
  {k a walk : Nat}

/-- What merging the block of order `k` at `a` with its buddy leaves of the sizes: those
away from both headers, and the one of the block when the buddy takes it over. -/
structure Merges (s : Level (Option Nat)) (c : List (Level (Option Nat))) (k a : Nat) (h g : Heap) :
    Prop where
  size : ∀ x, Apart a x → Apart (s.buddy k a) x →
    (∀ d ∈ around c (k + 1) (s.low k a), Apart d.addr x) → g.size x = h.size x
  stale : s.low k a ≠ a → g.size a = 2 ^ k
  marked : g.mem (s.low k a + 12) = 1

/-- A free buddy is one more of the blocks around. -/
theorem around_buddy (free : s.sibling = leaf none) :
    (around (s :: c) k a).Perm (⟨s.buddy k a, 2 ^ k, none⟩ :: around c (k + 1) (s.low k a)) := by
  have up := around_up (s := s) (c := c) (k := k) (a := a)
  rw [free, tiles_leaf] at up
  exact up

/-- The parent starts where the block does, or where its buddy does. -/
theorem low_cases : s.low k a = a ∨ s.low k a = s.buddy k a := by
  cases s with
  | inLeft r => exact Or.inl rfl
  | inRight r => exact Or.inr rfl

/-- From `h` to `h'` the block at `a` and its buddy are out of the list of the order `k`. -/
structure Unlinked (s : Level (Option Nat)) (c : List (Level (Option Nat))) (k a : Nat)
    (h h' : Heap) : Prop where
  lists : ∀ j, j ≠ k → h'.freeList j = h.freeList j
  listed : ∃ cells, Listed h' k cells ∧ cells.Perm (freesAt k (around c (k + 1) (s.low k a)))
  size : h'.size a = 2 ^ k
  buddy : h'.size (s.buddy k a) = 2 ^ k
  /-- At the top nothing but the two halves is left, so no link is stale. -/
  next : c = [] → h'.next (s.low k a) = NULL
  headed : ∀ d ∈ around c (k + 1) (s.low k a),
    h'.size d.addr = h.size d.addr ∧ (h'.isFree d.addr ↔ h.isFree d.addr)
  links : ∀ d ∈ around c (k + 1) (s.low k a), d.size ≠ 2 ^ k → h'.next d.addr = h.next d.addr
  kept : ∀ x, Apart a x → Apart (s.buddy k a) x →
    (∀ d ∈ around c (k + 1) (s.low k a), Apart d.addr x) → h'.size x = h.size x

theorem unlink_both (l : Limbo area h (s :: c) k a) (free : s.sibling = leaf none)
    (lt : k < area.orderCount) (enough : (around (s :: c) k a).length < walk) :
    ∃ h₁ h₂, removeFromFreeList walk a k h = .ok h₁ ∧
      removeFromFreeList walk (s.buddy k a) k h₁ = .ok h₂ ∧ Unlinked s c k a h h₂ := by
  have blocks := around_buddy (c := c) (k := k) (a := a) free
  have hb : (⟨s.buddy k a, 2 ^ k, none⟩ : Block) ∈ around (s :: c) k a :=
    blocks.mem_iff.mpr List.mem_cons_self
  have sub : ∀ d ∈ around c (k + 1) (s.low k a), d ∈ around (s :: c) k a := fun d hd =>
    blocks.mem_iff.mpr (List.mem_cons_of_mem _ hd)
  have symm : ∀ {b d : Block}, Apart b.addr d.addr → Apart d.addr b.addr := Apart.symm
  obtain ⟨from_buddy, -⟩ := List.pairwise_cons.mp ((blocks.pairwise_iff symm).mp l.pairwise)
  -- The list of this order, with the buddy somewhere in it.
  obtain ⟨cells, listed, perm⟩ := l.listed k lt
  have length : cells.length < walk := by
    have count : (freesAt k (around (s :: c) k a)).length ≤ (around (s :: c) k a).length := by
      rw [freesAt, List.length_map]
      exact List.length_filter_le _ _
    rw [← perm.length_eq] at count
    omega
  have separate : cells.Pairwise Apart := (perm.pairwise_iff Apart.symm).mpr (l.cells_apart k)
  have notNull : NULL ∉ cells := fun mem => by
    obtain ⟨b, hb, -, -, e⟩ := cell_around perm mem
    exact l.addr_ne_null hb e
  have away : ∀ y ∈ cells, Apart a y := fun y hy => by
    obtain ⟨b, hb, -, -, rfl⟩ := cell_around perm hy
    exact l.apart hb
  have split : cells.Perm (s.buddy k a :: freesAt k (around c (k + 1) (s.low k a))) := by
    refine perm.trans ?_
    rw [← freesAt_cons_free (b := ⟨s.buddy k a, 2 ^ k, none⟩) rfl rfl]
    exact (blocks.filter _).map _
  have away_buddy : ∀ y ∈ cells, y = s.buddy k a ∨ Apart (s.buddy k a) y := fun y hy => by
    rcases List.mem_cons.mp (split.mem_iff.mp hy) with e | mem
    · exact Or.inl e
    · obtain ⟨d, hd, -, -, rfl⟩ := mem_freesAt.mp mem
      exact Or.inr (from_buddy d hd)
  have out : a ∉ cells := fun mem => not_apart_self (away a mem)
  obtain ⟨h₁, run₁, first⟩ := removeFromFreeList_spec listed separate
    (fun y hy => Or.inr (away y hy)) notNull l.addr_ne length
  have listed₁ : Listed h₁ k cells := List.erase_of_not_mem out ▸ first.listed
  obtain ⟨h₂, run₂, second⟩ := removeFromFreeList_spec listed₁ separate away_buddy notNull
    (l.addr_ne_null hb) length
  have apart : Apart a (s.buddy k a) := l.apart hb
  have cells_clear : ∀ d ∈ around (s :: c) k a, ∀ z ∈ cells, z = d.addr ∨ Apart z d.addr :=
    fun d hd z hz => by
      obtain ⟨b, hb, -, -, rfl⟩ := cell_around perm hz
      by_cases same : b = d
      · exact Or.inl (congrArg _ same)
      · exact Or.inr (l.apart_around hb hd same)
  refine ⟨h₁, h₂, run₁, run₂,
    { lists := fun j ne => (second.lists j ne).trans (first.lists j ne)
      listed := ⟨cells.erase (s.buddy k a), second.listed, ?_⟩
      size := ?_, buddy := ?_, next := ?_, headed := fun d hd => ?_
      links := fun d hd other => ?_, kept := fun x ha hb around => ?_ }⟩
  · have erased := split.erase (s.buddy k a)
    rwa [List.erase_cons_head] at erased
  · have kept := second.kept a apart.symm fun z hz => Or.inr (away z hz).symm
    exact kept.1.trans (first.size.trans l.size)
  · have kept := first.kept _ apart (cells_clear _ hb)
    exact second.size.trans (kept.1.trans (l.headed _ hb).1)
  · rintro rfl
    have alone : cells = [s.buddy k a] := by
      rw [around, before, after, List.append_nil, freesAt_nil] at split
      exact List.perm_singleton.mp split
    rcases low_cases (s := s) (k := k) (a := a) with e | e
    · rw [e]
      exact (second.links a apart.symm fun z hz => (away z hz).symm).trans (first.next (Or.inl out))
    · rw [e]
      exact second.next (Or.inr alone)
  · have kept₁ := first.kept d.addr (l.apart (sub d hd)) (cells_clear d (sub d hd))
    have kept₂ := second.kept d.addr (from_buddy d hd) (cells_clear d (sub d hd))
    exact ⟨kept₂.1.trans kept₁.1, kept₂.2.trans kept₁.2⟩
  · -- Blocks of another size are in no way touched by the walks.
    have strange : ∀ z ∈ cells, Apart z d.addr := fun z hz => by
      obtain ⟨b, hb, -, bsize, rfl⟩ := cell_around perm hz
      refine l.apart_around hb (sub d hd) fun same => other ?_
      rw [← same]
      exact bsize
    exact (second.links d.addr (from_buddy d hd) strange).trans
      (first.links d.addr (l.apart (sub d hd)) strange)
  · have clear : ∀ z ∈ cells, Apart z x := fun z hz => by
      rcases List.mem_cons.mp (split.mem_iff.mp hz) with e | mem
      · exact e ▸ hb
      · obtain ⟨d, hd, -, -, rfl⟩ := mem_freesAt.mp mem
        exact around d hd
    exact (second.kept x hb fun z hz => Or.inr (clear z hz)).1.trans
      (first.kept x ha fun z hz => Or.inr (clear z hz)).1

/-- The block of order `k` at `a` and its free buddy become one block. -/
theorem merge_limbo (l : Limbo area h (s :: c) k a) (free : s.sibling = leaf none)
    (lt : k < area.orderCount) (enough : (around (s :: c) k a).length < walk) :
    ∃ h₁ h₂ g, removeFromFreeList walk a k h = .ok h₁ ∧
      removeFromFreeList walk (s.buddy k a) k h₁ = .ok h₂ ∧
      g = (h₂.setSize (s.low k a) (h₂.size (s.low k a) * 2 % word32)).setIsFree (s.low k a) true ∧
      Limbo area g c (k + 1) (s.low k a) ∧ Merges s c k a h g := by
  obtain ⟨h₁, h₂, run₁, run₂, u⟩ := unlink_both l free lt enough
  refine ⟨h₁, h₂, _, run₁, run₂, rfl, ?_⟩
  have blocks := around_buddy (c := c) (k := k) (a := a) free
  have hb : (⟨s.buddy k a, 2 ^ k, none⟩ : Block) ∈ around (s :: c) k a :=
    blocks.mem_iff.mpr List.mem_cons_self
  have sub : ∀ d ∈ around c (k + 1) (s.low k a), d ∈ around (s :: c) k a := fun d hd =>
    blocks.mem_iff.mpr (List.mem_cons_of_mem _ hd)
  have symm : ∀ {b d : Block}, Apart b.addr d.addr → Apart d.addr b.addr := Apart.symm
  obtain ⟨from_buddy, -⟩ := List.pairwise_cons.mp ((blocks.pairwise_iff symm).mp l.pairwise)
  have low := low_cases (s := s) (k := k) (a := a)
  have size₂ : h₂.size (s.low k a) = 2 ^ k := by
    rcases low with e | e
    · rw [e, u.size]
    · rw [e, u.buddy]
  have low_apart : ∀ d ∈ around c (k + 1) (s.low k a), Apart (s.low k a) d.addr := fun d hd => by
    rcases low with e | e
    · rw [e]
      exact l.apart (sub d hd)
    · rw [e]
      exact from_buddy d hd
  have touched : ∀ y v, Apart (s.low k a) y → SameHeader h₂
      ((h₂.setSize (s.low k a) v).setIsFree (s.low k a) true) y := fun y v hy =>
    (setSize_same hy).trans (setIsFree_same hy)
  have order : k + 1 < 32 := by
    have top := l.hole.order
    have few := area.uint32
    have some := area.some
    unfold Area.top at top
    rw [List.length_cons] at top
    omega
  refine ⟨{ headed := fun d hd => ?_, room := fun d hd => l.room d (sub d hd)
            listed := fun order lt => ?_, hole := l.hole.up, fits := l.fits.2
            size := ?_, isFree := by simp, roomy := fun d hd => l.roomy d (sub d hd)
            large := fun _ => Nat.le_succ_of_le (l.large (List.cons_ne_nil s c))
            merged := fun s hs => l.merged s (List.mem_cons_of_mem _ hs), last := fun top => ?_ },
    { size := fun x ha hb around => ?_, stale := fun other => ?_, marked := Function.update_self _ _ _ }⟩
  · have headed := l.headed d (sub d hd)
    have kept := u.headed d hd
    have last := touched d.addr (h₂.size (s.low k a) * 2 % word32) (low_apart d hd)
    exact ⟨last.size.trans (kept.1.trans headed.1), last.isFree.trans (kept.2.trans headed.2)⟩
  · by_cases here : order = k
    · subst here
      obtain ⟨cells, listed, perm⟩ := u.listed
      refine ⟨cells, listed.congr rfl fun y hy => ?_, perm⟩
      obtain ⟨d, hd, -, -, rfl⟩ := cell_around perm hy
      exact (touched d.addr _ (low_apart d hd)).1
    · have different : 2 ^ k ≠ 2 ^ order := fun size =>
        here (Nat.pow_right_injective (Nat.le_refl 2) size).symm
      obtain ⟨others, listed', perm'⟩ := l.listed order lt
      have other_perm : others.Perm (freesAt order (around c (k + 1) (s.low k a))) := by
        have all : (freesAt order (around (s :: c) k a)).Perm
            (freesAt order (⟨s.buddy k a, 2 ^ k, none⟩ :: around c (k + 1) (s.low k a))) :=
          (blocks.filter _).map _
        rw [freesAt_cons_other fun _ size => different size] at all
        exact perm'.trans all
      refine ⟨others, listed'.congr (u.lists order here) fun y hy => ?_, other_perm⟩
      obtain ⟨d, hd, -, dsize, rfl⟩ := cell_around other_perm hy
      have same := u.links d hd fun size => different (size.symm.trans dsize)
      exact (touched d.addr _ (low_apart d hd)).1.trans same
  · rw [setIsFree_size, setSize_size, size₂, ← Nat.pow_succ, Nat.mod_eq_of_lt]
    exact Nat.pow_lt_pow_right (by decide) order
  · rw [setIsFree_next, setSize_next]
    exact u.next top
  · have apart_low : Apart (s.low k a) x := by
      rcases low with e | e
      · rwa [e]
      · rwa [e]
    exact (touched x _ apart_low).size.trans (u.kept x ha hb around)
  · have apart_low : Apart (s.low k a) a := (low.resolve_left other) ▸ (l.apart hb).symm
    exact (touched a _ apart_low).size.trans u.size

/-- The half of its parent that a block is. -/
def half : Level (Option Nat) → Alignment
  | .inLeft _ => .LEFT
  | .inRight _ => .RIGHT

/-- `getAlignment` computes it from the address. -/
theorem getAlignment_spec (l : Limbo area h (s :: c) k a) :
    getAlignment h a area.heapStart = .ok (half s) := by
  have big : 2 ^ 4 ≤ 2 ^ k :=
    Nat.pow_le_pow_right (by decide) (l.large (List.cons_ne_nil s c))
  have start := area.start_bounds
  have inside := (tiled_bounds (l.tiled none) (List.mem_append_right _ List.mem_cons_self)).2
  have small := area.heapSize_le
  have room := area.room
  have heap : area.heapSize = 2 ^ (area.orderCount - 1) := rfl
  unfold Tile.stop at inside
  simp only at inside
  -- The number of blocks of this size before this one.
  have quotient : ∀ q, a = area.start + q * 2 ^ k →
      sub64 a area.heapStart % word32 / h.size a = q := fun q addr => by
    have offset : a - area.heapStart = q * 2 ^ k + (area.start - area.heapStart) := by omega
    rw [sub64_of_le (by omega) (by omega), l.size, Nat.mod_eq_of_lt (by unfold word32; omega),
      offset, Nat.mul_comm, Nat.mul_add_div (by omega), Nat.div_eq_of_lt (by omega), Nat.add_zero]
  have size : h.size a ≠ 0 := by
    rw [l.size]
    omega
  unfold getAlignment
  rw [if_neg size]
  cases s with
  | inLeft r =>
      obtain ⟨m, addr⟩ := Hole.aligned (c := c) (k := k + 1) (a := a) l.hole
      rw [quotient (2 * m) (by rw [addr]; ring), if_pos (by omega), half]
  | inRight r =>
      obtain ⟨le, hole⟩ := l.hole
      obtain ⟨m, addr⟩ := hole.aligned
      have here : a = area.start + (2 * m + 1) * 2 ^ k := by
        have twice : m * 2 ^ (k + 1) = 2 * m * 2 ^ k := by ring
        rw [Nat.add_mul, Nat.one_mul]
        omega
      rw [quotient (2 * m + 1) here, if_neg (by omega), half]

/-- The header where a tree starts tells whether the tree is one free block. -/
theorem free_leaf_iff {t : Tree} (fits : Fits k t) (headed : ∀ b ∈ tiles k a t, Headed h b) :
    t = leaf none ↔ h.isFree a ∧ h.size a = 2 ^ k := by
  obtain ⟨b, hb, rfl, outcome⟩ := exists_first (a := a) fits
  rw [(headed b hb).1, (headed b hb).2]
  rcases outcome with ⟨whole, size⟩ | ⟨⟨left, right, node⟩, size⟩
  · rw [whole]
    simp [size]
  · rw [node]
    constructor
    · intro e
      cases e
    · rintro ⟨-, e⟩
      omega

/-- The header at the buddy's address tells whether the buddy is a free block of
the same order. -/
theorem buddy_header (l : Limbo area h (s :: c) k a) :
    s.buddy k a ≠ NULL ∧ (s.sibling = leaf none ↔
      h.isFree (s.buddy k a) ∧ h.size (s.buddy k a) = h.size a) := by
  have sub : ∀ b ∈ tiles k (s.buddy k a) s.sibling, b ∈ around (s :: c) k a := fun b hb =>
    around_up.mem_iff.mpr (List.mem_append_left _ hb)
  rw [l.size]
  refine ⟨?_, free_leaf_iff l.fits.1 fun b hb => l.headed b (sub b hb)⟩
  obtain ⟨b, hb, addr, -⟩ := exists_first (a := s.buddy k a) l.fits.1
  exact addr ▸ l.addr_ne_null (sub b hb)

/-- The block is put into the list of its order. -/
theorem push_layout (l : Limbo area h (s :: c) k a) (busy : s.sibling ≠ leaf none) :
    Layout area ((h.setNext a (h.freeList k)).setFreeList k a) (plug (s :: c) (leaf none)) := by
  have nexts : ∀ b ∈ around (s :: c) k a,
      SameHeader h ((h.setNext a (h.freeList k)).setFreeList k a) b.addr := fun b hb =>
    (setNext_same (l.apart hb)).trans setFreeList_same
  refine l.layout nexts ⟨?_, ?_⟩ (fun _ e => by cases e) (fun order lt => ?_) ?_ fun n whole => ?_
  · rw [setFreeList_size, setNext_size, l.size]
  · simp [l.isFree]
  · obtain ⟨cells, listed, perm⟩ := l.listed order lt
    have same : ∀ x ∈ cells, ((h.setNext a (h.freeList k)).setFreeList k a).next x = h.next x :=
      fun x hx => by
        obtain ⟨b, hb, -, -, rfl⟩ := cell_around perm hx
        exact (nexts b hb).1
    have blocks := freesAt_hole order (s :: c) k a
    by_cases here : order = k
    · subst here
      rw [if_pos rfl] at blocks
      refine ⟨a :: cells, ⟨?_, ?_⟩, (perm.cons a).trans blocks.symm⟩
      · rw [setFreeList_freeList, if_pos rfl]
      · rw [setFreeList_next, setNext_next]
        exact (segment_congr same).mpr listed
    · rw [if_neg here] at blocks
      refine ⟨cells, listed.congr ?_ same, perm.trans blocks.symm⟩
      rw [setFreeList_freeList, if_neg here]
      rfl
  · rintro - t ht ⟨y, whole, rfl⟩
    obtain rfl : s = t := by simpa using ht
    exact busy whole
  · exact absurd whole (plug_ne_leaf (List.cons_ne_nil s c))

/-- The block is the whole heap. -/
theorem whole_layout (l : Limbo area h [] k a) :
    Layout area (h.setFreeList k a) (plug [] (leaf none)) := by
  refine l.layout (fun b hb => by cases hb) ⟨l.size, by simp [l.isFree]⟩ (fun _ e => by cases e)
    (fun order lt => ?_) (fun _ t ht => by cases ht) fun n whole => by cases whole
  obtain ⟨cells, listed, perm⟩ := l.listed order lt
  have blocks := freesAt_hole order [] k a
  have none : cells = [] := by
    rw [around, before, after, List.append_nil, freesAt_nil] at perm
    exact List.perm_nil.mp perm
  subst none
  by_cases here : order = k
  · subst here
    rw [if_pos rfl] at blocks
    refine ⟨[a], ⟨?_, ?_⟩, (perm.cons a).trans blocks.symm⟩
    · rw [setFreeList_freeList, if_pos rfl]
    · exact l.last rfl
  · rw [if_neg here] at blocks
    refine ⟨[], listed.congr ?_ (by simp), perm.trans blocks.symm⟩
    rw [setFreeList_freeList, if_neg here]

theorem lives_up (free : s.sibling = leaf none) :
    (lives (around (s :: c) k a)).Perm (lives (around c (k + 1) (s.low k a))) := by
  have up := around_up (s := s) (c := c) (k := k) (a := a)
  rw [free, tiles_leaf] at up
  have live := up.filterMap fun b : Block => b.label.map fun n => (payload b, n)
  exact live

/-! ### The rounds of mergeBlock -/

theorem mergeBlock_whole {fuel : Nat} (l : Limbo area h [] k a) :
    mergeBlock walk area.heapStart area.heapSize (fuel + 1) a k h = .ok (h.setFreeList k a) := by
  have whole : h.size a = area.heapSize := by
    rw [l.size, l.hole.1]
    rfl
  rw [mergeBlock, if_pos whole]

theorem Limbo.size_ne (l : Limbo area h (s :: c) k a) : h.size a ≠ area.heapSize := by
  have order := l.hole.order
  rw [List.length_cons] at order
  rw [l.size]
  intro e
  have := Nat.pow_right_injective (Nat.le_refl 2) e
  omega

/-- The address the code computes for the buddy. -/
theorem Limbo.buddy_eq (l : Limbo area h (s :: c) k a) :
    (if half s = .LEFT then a + h.size a else a - h.size a) = s.buddy k a := by
  rw [l.size]
  cases s <;> rfl

/-- The buddy is in use, or in pieces. -/
theorem mergeBlock_push {fuel : Nat} (l : Limbo area h (s :: c) k a)
    (busy : s.sibling ≠ leaf none) : mergeBlock walk area.heapStart area.heapSize (fuel + 1) a k h =
      .ok ((h.setNext a (h.freeList k)).setFreeList k a) := by
  obtain ⟨notNull, header⟩ := buddy_header l
  rw [mergeBlock, if_neg l.size_ne, getAlignment_spec l]
  simp only [ok_bind, l.buddy_eq]
  rw [if_pos (by tauto)]
  rfl

/-- The buddy is free. -/
theorem mergeBlock_merge (l : Limbo area h (s :: c) k a) (free : s.sibling = leaf none)
    (enough : (around (s :: c) k a).length < walk) : ∃ g, Limbo area g c (k + 1) (s.low k a) ∧
      Merges s c k a h g ∧ (around c (k + 1) (s.low k a)).length < walk ∧
      ∀ fuel, mergeBlock walk area.heapStart area.heapSize (fuel + 1) a k h =
        mergeBlock walk area.heapStart area.heapSize fuel (s.low k a) (k + 1) g := by
  obtain ⟨notNull, header⟩ := buddy_header l
  obtain ⟨isFree, size⟩ := header.mp free
  have lt : k < area.orderCount := by
    have order := l.hole.order
    have := area.top_lt
    omega
  have lower : (if half s = .RIGHT then s.buddy k a else a) = s.low k a := by
    cases s <;> rfl
  obtain ⟨h₁, h₂, g, run₁, run₂, rfl, limbo, merges⟩ := merge_limbo l free lt enough
  have up := around_up (s := s) (c := c) (k := k) (a := a)
  rw [free, tiles_leaf] at up
  have fewer : (around c (k + 1) (s.low k a)).length < walk := by
    have count := up.length_eq
    simp only [List.length_append, List.length_cons, List.length_nil] at count
    simp only [around, List.length_append] at enough ⊢
    omega
  refine ⟨_, limbo, merges, fewer, fun fuel => ?_⟩
  rw [mergeBlock, if_neg l.size_ne, getAlignment_spec l]
  simp only [ok_bind, l.buddy_eq]
  rw [if_neg (by tauto)]
  simp only [run₁, run₂, ok_bind, lower]

/-- `mergeBlock` ends in a well-formed heap with the same live blocks. -/
theorem mergeBlock_layout {fuel : Nat} (l : Limbo area h c k a)
    (enough : (around c k a).length < walk) (levels : c.length < fuel) :
    ∃ h' t, mergeBlock walk area.heapStart area.heapSize fuel a k h = .ok h' ∧
      Layout area h' t ∧ (lives (tiles area.top area.start t)).Perm (lives (around c k a)) := by
  induction c generalizing h k a fuel with
  | nil =>
      obtain ⟨fuel, rfl⟩ : ∃ n, fuel = n + 1 := ⟨fuel - 1, by omega⟩
      refine ⟨_, _, mergeBlock_whole l, whole_layout l, ?_⟩
      rw [tiles_hole l.hole, lives_hole_free]
  | cons s c ih =>
      obtain ⟨fuel, rfl⟩ : ∃ n, fuel = n + 1 := ⟨fuel - 1, by omega⟩
      rw [List.length_cons] at levels
      by_cases free : s.sibling = leaf none
      · obtain ⟨g, limbo, -, fewer, round⟩ := mergeBlock_merge l free enough
        obtain ⟨h', t, run, layout, live⟩ := ih limbo fewer (by omega : c.length < fuel)
        exact ⟨h', t, (round fuel).trans run, layout, live.trans (lives_up free).symm⟩
      · refine ⟨_, _, mergeBlock_push l free, push_layout l free, ?_⟩
        rw [tiles_hole l.hole, lives_hole_free]

end Merge

/-- Releasing a live block marks it free and goes on with `mergeBlock`. -/
theorem release_limbo {area : Area} {h : Heap} {t : Tree} (l : Layout area h t) {p n : Nat}
    (live : (p, n) ∈ lives (tiles area.top area.start t)) : ∃ c k a, p = a + structSize ∧
      Limbo area (h.setIsFree a true) c k a ∧ h.size a = 2 ^ k ∧
      tiles area.top area.start t = before c k a ++ ⟨a, 2 ^ k, some n⟩ :: after c k a ∧
      ∀ fuel, 32 < fuel → release fuel area.heapStart area.heapSize p h =
        mergeBlock fuel area.heapStart area.heapSize fuel a k (h.setIsFree a true) := by
  obtain ⟨b, hb, label, rfl⟩ := mem_lives.mp live
  obtain ⟨c, k, filled, hole, size⟩ := exists_hole (c := []) (t := t) ⟨rfl, rfl⟩ hb
  rw [label] at filled
  change plug c (leaf (some n)) = t at filled
  subst filled
  have order := hole.order
  have few := area.uint32
  have headed := l.headed b hb
  have apart : ∀ d ∈ around c k b.addr, Apart b.addr d.addr := fun d hd => by
    rcases l.roomy with ⟨y, whole⟩ | roomy
    · have nil : c = [] := not_not.mp fun inner => plug_ne_leaf inner whole
      subst nil
      cases hd
    · have big := roomy b hb
      have big' := roomy d ((mem_tiles_hole hole).mpr (Or.inr hd))
      have tiled := l.tiled
      rw [tiles_hole hole, tiled_middle] at tiled
      unfold Apart
      rcases mem_around.mp hd with hd | hd
      · have bounds := (tiled_bounds tiled.1 hd).2
        unfold Tile.stop at bounds
        simp only at bounds
        omega
      · have bounds := (tiled_bounds tiled.2 hd).1
        unfold Tile.stop at bounds
        simp only at bounds
        omega
  have limbo : Limbo area (h.setIsFree b.addr true) c k b.addr := by
    refine l.limbo hole (fun d hd => setIsFree_same (apart d hd))
      (setIsFree_size.trans (headed.1.trans size)) (by simp) (fun order lt => ?_) fun nil => ?_
    · obtain ⟨cells, listed, perm⟩ := l.listed order lt
      rw [tiles_hole hole, freesAt_hole_live] at perm
      refine ⟨cells, listed.congr rfl fun x hx => ?_, perm⟩
      obtain ⟨d, hd, -, -, rfl⟩ := cell_around perm hx
      exact (setIsFree_same (apart d hd)).1
    · subst nil
      rw [hole.2]
      exact setIsFree_next.trans (l.last n rfl)
  refine ⟨c, k, b.addr, rfl, limbo, headed.1.trans size, tiles_hole hole, fun fuel orders => ?_⟩
  have back : payload b - structSize = b.addr := Nat.add_sub_cancel _ _
  have own : getOrder fuel ((h.setIsFree b.addr true).size b.addr) = .ok k := by
    rw [limbo.size]
    exact getOrder_two_pow (by unfold Area.top at order; omega) (by omega)
  unfold release
  simp only [back, own, ok_bind]

/-- Releasing a live block takes exactly that block back. -/
theorem release_layout {area : Area} {h : Heap} {t : Tree} (l : Layout area h t) {p n fuel : Nat}
    (live : (p, n) ∈ lives (tiles area.top area.start t))
    (enough : (tiles area.top area.start t).length < fuel) (orders : 32 < fuel) :
    ∃ h' t', release fuel area.heapStart area.heapSize p h = .ok h' ∧ Layout area h' t' ∧
      ((p, n) :: lives (tiles area.top area.start t')).Perm
        (lives (tiles area.top area.start t)) := by
  obtain ⟨c, k, a, rfl, limbo, -, blocks, run⟩ := release_limbo l live
  have order := limbo.hole.order
  have few := area.uint32
  have fewer : (around c k a).length < fuel := by
    rw [blocks] at enough
    simp only [around, List.length_append, List.length_cons] at enough ⊢
    omega
  have levels : c.length < fuel := by
    unfold Area.top at order
    omega
  obtain ⟨h', t', merged, layout, same⟩ := mergeBlock_layout limbo fewer levels
  refine ⟨h', t', (run fuel orders).trans merged, layout, ?_⟩
  rw [blocks]
  exact (same.cons _).trans lives_hole.symm

end SoTp.Buddy
