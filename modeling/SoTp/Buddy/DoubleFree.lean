/-
Pointers that are freed again.

A second call finds the header the first one left. When the block has become the whole
heap that header sends it into the same branch once more. Otherwise the block is pushed
into the list of the size its header gives, where it lies already, or inside a block that
took it over.

* `mergeBlock_sizes` — the sizes `mergeBlock` keeps inside the block it builds.
* `mergeBlock_again` — what its result holds for a second call.
* `pushes_differ` — the second call spoils the list.
* `double_free_iff` — when a second call changes nothing.
* `double_free_overlaps` — a heap that hands out one piece of memory twice afterwards.
-/

import SoTp.Buddy.Requests

namespace SoTp.Buddy

open SoTp.Lib Dyadic
open SoTp.FreeList (NULL structSize Block payload lives mem_lives)

section Sizes

variable {area : Area} {h h' : Heap} {s : Level (Option Nat)} {c : List (Level (Option Nat))}
  {k a walk fuel : Nat}

theorem Limbo.halves (l : Limbo area h (s :: c) k a) : structSize ≤ 2 ^ k ∧
    (s.low k a = a ∧ s.buddy k a = a + 2 ^ k ∨ s.low k a + 2 ^ k = a ∧
      s.buddy k a = s.low k a) := by
  have big : 2 ^ 4 ≤ 2 ^ k := Nat.pow_le_pow_right (by decide) (l.large (List.cons_ne_nil s c))
  refine ⟨big, ?_⟩
  cases s with
  | inLeft r => exact Or.inl ⟨rfl, rfl⟩
  | inRight r => exact Or.inr ⟨Nat.sub_add_cancel l.hole.1, rfl⟩

/-- The block at the hole ends up at least as large, and sizes inside of it stay what they
are, its own header apart. -/
theorem mergeBlock_sizes (l : Limbo area h c k a) (enough : (around c k a).length < walk)
    (run : mergeBlock walk area.heapStart area.heapSize fuel a k h = .ok h') :
    2 ^ k ≤ h'.size a ∧
      ∀ x, a + structSize ≤ x → x + structSize ≤ a + 2 ^ k → h'.size x = h.size x := by
  induction c generalizing h k a fuel with
  | nil =>
      cases fuel with
      | zero => cases run
      | succ fuel =>
          rw [mergeBlock_whole l] at run
          cases run
          exact ⟨Nat.le_of_eq l.size.symm, fun _ _ _ => rfl⟩
  | cons s c ih =>
      cases fuel with
      | zero => cases run
      | succ fuel =>
          by_cases free : s.sibling = leaf none
          · obtain ⟨g, limbo, merges, fewer, round⟩ := mergeBlock_merge l free enough
            rw [round] at run
            obtain ⟨size, kept⟩ := ih limbo fewer run
            obtain ⟨big, halves⟩ := l.halves
            have header : structSize = 16 := rfl
            have double : 2 ^ (k + 1) = 2 ^ k + 2 ^ k := by ring
            have half : 2 ^ k ≤ 2 ^ (k + 1) := by omega
            constructor
            · rcases halves with ⟨low, -⟩ | ⟨low, -⟩
              · exact Nat.le_trans half (low ▸ size)
              · rw [kept a (by omega) (by omega), merges.stale (by omega)]
            · intro x lo hi
              have inside : g.size x = h.size x := by
                refine merges.size x (Or.inl lo) ?_ fun d hd => ?_
                · unfold Apart
                  omega
                · have clear := limbo.clear hd
                  have room := limbo.roomy d hd
                  unfold Tile.stop at clear
                  unfold Apart
                  omega
              rw [← inside]
              exact kept x (by omega) (by omega)
          · rw [mergeBlock_push l free] at run
            cases run
            refine ⟨?_, fun x lo _ => ?_⟩
            · rw [setFreeList_size, setNext_size, l.size]
            · exact (setNext_same (Or.inl lo)).size

end Sizes

/-! ### The second call -/

/-- The header at `a` gives the order `j`, and `mergeBlock` finds no buddy to merge it with. -/
def Pushes (area : Area) (h : Heap) (a j : Nat) : Prop :=
  j < area.top ∧ h.size a = 2 ^ j ∧ ∃ s : Level (Option Nat),
    getAlignment h a area.heapStart = .ok (half s) ∧ Apart a (s.buddy j a) ∧
      ¬ (h.isFree (s.buddy j a) ∧ h.size (s.buddy j a) = 2 ^ j)

/-- The block at `a` is the whole heap. -/
structure Whole (area : Area) (h : Heap) (a : Nat) : Prop where
  size : h.size a = area.heapSize
  listed : h.freeList area.top = a
  marked : h.mem (a + 12) = 1

section Again

variable {area : Area} {h h' : Heap} {c : List (Level (Option Nat))} {t : Tree}
    {k a walk fuel : Nat}

/-- Every buddy on the way up lies to the right and is free. -/
def Rising (c : List (Level (Option Nat))) : Prop := ∀ s ∈ c, s = .inLeft (leaf none)

theorem Limbo.alignment {s : Level (Option Nat)} (l : Limbo area h (s :: c) k a)
    (size : h'.size a = 2 ^ k) : getAlignment h' a area.heapStart = .ok (half s) := by
  rw [← getAlignment_spec l]
  unfold getAlignment
  rw [size, l.size]

/-- What the result of `mergeBlock` holds for a second call on its block: the whole heap,
or a header for which there is nothing to merge. -/
theorem mergeBlock_again (l : Limbo area h c k a) (marked : h.mem (a + 12) = 1)
    (enough : (around c k a).length < walk)
    (run : mergeBlock walk area.heapStart area.heapSize fuel a k h = .ok h') :
    (Rising c → Whole area h' a) ∧ (¬ Rising c → ∃ j, Pushes area h' a j) := by
  induction c generalizing h k fuel with
  | nil =>
      refine ⟨fun _ => ?_, fun sunk => absurd (fun s hs => by cases hs) sunk⟩
      cases fuel with
      | zero => cases run
      | succ fuel =>
          rw [mergeBlock_whole l] at run
          cases run
          obtain ⟨rfl, rfl⟩ := l.hole
          refine ⟨l.size, ?_, marked⟩
          rw [setFreeList_freeList, if_pos rfl]
  | cons s c ih =>
      have order := l.hole.order
      rw [List.length_cons] at order
      obtain ⟨big, halves⟩ := l.halves
      have apart : Apart a (s.buddy k a) := by
        unfold Apart
        omega
      cases fuel with
      | zero => cases run
      | succ fuel =>
          by_cases free : s.sibling = leaf none
          · obtain ⟨g, limbo, merges, fewer, round⟩ := mergeBlock_merge l free enough
            rw [round] at run
            cases s with
            | inLeft r =>
                obtain rfl : r = leaf none := free
                obtain ⟨whole, part⟩ := ih limbo merges.marked fewer run
                have rising : Rising (.inLeft (leaf none) :: c) ↔ Rising c :=
                  List.forall_mem_cons.trans (and_iff_right rfl)
                rw [rising]
                exact ⟨whole, part⟩
            | inRight r =>
                -- The buddy takes the block over, and its size is too large from then on.
                obtain ⟨grown, kept⟩ := mergeBlock_sizes limbo fewer run
                have low : (Level.inRight r).low k a + 2 ^ k = a := Nat.sub_add_cancel l.hole.1
                have header : structSize = 16 := rfl
                have double : 2 ^ (k + 1) = 2 ^ k + 2 ^ k := by ring
                have size : h'.size a = 2 ^ k := by
                  rw [kept a (by omega) (by omega), merges.stale (by omega)]
                refine ⟨fun rising => ?_, fun _ =>
                  ⟨k, by omega, size, _, l.alignment size, apart, fun both => ?_⟩⟩
                · cases rising _ List.mem_cons_self
                have same : h'.size ((Level.inRight r).low k a) = 2 ^ k := both.2
                omega
          · rw [mergeBlock_push l free] at run
            cases run
            have size : ((h.setNext a (h.freeList k)).setFreeList k a).size a = 2 ^ k := by
              rw [setFreeList_size, setNext_size, l.size]
            refine ⟨fun rising => ?_, fun _ => ⟨k, by omega, size, s, l.alignment size, apart,
              fun both => ?_⟩⟩
            · have first := rising s List.mem_cons_self
              subst first
              exact absurd rfl free
            · have same : SameHeader h ((h.setNext a (h.freeList k)).setFreeList k a)
                  (s.buddy k a) :=
                setNext_same apart
              refine free ((buddy_header l).2.mpr ⟨same.isFree.mp both.1, ?_⟩)
              rw [← same.size, both.2, l.size]

/-- A second call on the whole heap does what the first one did. -/
theorem Whole.release (w : Whole area h a) (orders : 32 < fuel) :
    SoTp.Buddy.release fuel area.heapStart area.heapSize (a + structSize) h = .ok h := by
  have few := area.uint32
  have top : area.top < 32 := Nat.lt_of_lt_of_le area.top_lt few
  have marked : h.setIsFree a true = h := by
    unfold Heap.setIsFree
    rw [Bool.toNat_true, ← w.marked, Function.update_eq_self]
  have listed : h.setFreeList area.top a = h := by
    unfold Heap.setFreeList
    rw [← w.listed, Function.update_eq_self]
  have order : getOrder fuel (h.size a) = .ok area.top := by
    rw [w.size]
    exact getOrder_two_pow (by omega) (by omega)
  obtain ⟨fuel, rfl⟩ : ∃ n, fuel = n + 1 := ⟨fuel - 1, by omega⟩
  unfold SoTp.Buddy.release
  simp only [Nat.add_sub_cancel, marked, order, ok_bind]
  rw [mergeBlock, if_pos w.size, listed]

/-- The heap with the block at `a` put into the list of order `j`. -/
def pushed (h : Heap) (a j : Nat) : Heap :=
  ((h.setIsFree a true).setNext a (h.freeList j)).setFreeList j a

theorem Pushes.release {j : Nat} (p : Pushes area h a j) (orders : 32 < fuel) :
    SoTp.Buddy.release fuel area.heapStart area.heapSize (a + structSize) h =
      .ok (pushed h a j) := by
  obtain ⟨lt, size, s, alignment, apart, alone⟩ := p
  have few := area.uint32
  have top := area.top_lt
  have marked : (h.setIsFree a true).size a = 2 ^ j := setIsFree_size.trans size
  have part : 2 ^ j ≠ area.heapSize := fun e => by
    have := Nat.pow_right_injective (Nat.le_refl 2) e
    omega
  have aligned : getAlignment (h.setIsFree a true) a area.heapStart = .ok (half s) := by
    rw [← alignment]
    unfold getAlignment
    rw [setIsFree_size]
  have address : (if half s = .LEFT then a + 2 ^ j else a - 2 ^ j) = s.buddy j a := by
    cases s <;> rfl
  have same : SameHeader h (h.setIsFree a true) (s.buddy j a) := setIsFree_same apart
  obtain ⟨fuel, rfl⟩ : ∃ n, fuel = n + 1 := ⟨fuel - 1, by omega⟩
  unfold SoTp.Buddy.release
  simp only [Nat.add_sub_cancel, marked,
    getOrder_two_pow (show j ≤ 31 by omega) (show 31 < fuel + 1 by omega), ok_bind]
  rw [mergeBlock, marked, if_neg part, aligned]
  simp only [ok_bind, address]
  rw [if_pos]
  · rfl
  · rw [same.isFree, same.size]
    tauto

/-- Every list of `h` is the same in `h'`. -/
def SameLists (area : Area) (h h' : Heap) : Prop :=
  ∀ order < area.orderCount, ∀ cells, Listed h order cells → Listed h' order cells

/-- A well-formed list with a block put into it that is its head, or that no list holds, is
another list. -/
theorem pushes_differ {j : Nat} (l : Layout area h t) (lt : j < area.orderCount) (some : a ≠ NULL) :
    ¬ SameLists area h (pushed h a j) := fun same => by
  obtain ⟨cells, listed, perm⟩ := l.listed j lt
  have nodup := perm.nodup_iff.mpr (l.nodup j)
  have again : Segment (pushed h a j).next ((pushed h a j).freeList j) cells NULL :=
    same j lt cells listed
  have head : (pushed h a j).freeList j = a := by
    rw [pushed, setFreeList_freeList, if_pos rfl]
  have link : (pushed h a j).next a = h.freeList j := by
    rw [pushed, setFreeList_next, setNext_next]
  rw [head] at again
  cases cells with
  | nil => exact some again
  | cons x rest =>
      obtain ⟨rfl, tail⟩ := again
      -- The block was the head already, and now comes after itself.
      have front : h.freeList j = a := listed.1
      rw [link, front] at tail
      cases rest with
      | nil => exact some tail
      | cons y rest =>
          obtain ⟨rfl, -⟩ := tail
          simp at nodup

/-- In a heap with a hole at its start every level above is free exactly when the headers
at the powers of two say so. -/
theorem rising_iff (hole : Hole area.start area.top c k a) (fits : FitsAround c k)
    (headed : ∀ b ∈ around c k a, Headed h b) : Rising c ↔ a = area.start ∧ ∀ j, k ≤ j →
      j < area.top → h.isFree (area.start + 2 ^ j) ∧ h.size (area.start + 2 ^ j) = 2 ^ j := by
  induction c generalizing k a with
  | nil =>
      obtain ⟨rfl, rfl⟩ := hole
      refine iff_of_true (fun s hs => by cases hs) ⟨rfl, fun j ge lt => ?_⟩
      omega
  | cons s c ih =>
      have order := hole.order
      rw [List.length_cons] at order
      have sub : ∀ b ∈ around c (k + 1) (s.low k a), Headed h b := fun b hb =>
        headed b (around_up.mem_iff.mpr (List.mem_append_right _ hb))
      have own : s.sibling = leaf none ↔ h.isFree (s.buddy k a) ∧ h.size (s.buddy k a) = 2 ^ k :=
        free_leaf_iff fits.1 fun b hb =>
          headed b (around_up.mem_iff.mpr (List.mem_append_left _ hb))
      have above := ih hole.up fits.2 sub
      cases s with
      | inLeft r =>
          have rising : Rising (.inLeft r :: c) ↔ r = leaf none ∧ Rising c := by
            refine List.forall_mem_cons.trans (and_congr_left' ?_)
            simp only [Level.inLeft.injEq]
          rw [rising, above]
          constructor
          · rintro ⟨free, start, rest⟩
            refine ⟨start, fun j ge lt => ?_⟩
            rcases Nat.eq_or_lt_of_le ge with rfl | more
            · exact start ▸ own.mp free
            · exact rest j more lt
          · rintro ⟨start, rest⟩
            refine ⟨own.mpr ?_, start, fun j ge lt => rest j (by omega) lt⟩
            exact start ▸ rest k (Nat.le_refl k) (by omega)
      | inRight r =>
          -- A right half does not start where the heap does.
          obtain ⟨le, outer⟩ := hole
          obtain ⟨m, addr⟩ := outer.aligned
          have pos := Nat.two_pow_pos k
          refine iff_of_false (fun rising => ?_) fun both => ?_
          · cases rising _ List.mem_cons_self
          · have := both.1
            omega

end Again

/-! ### When a second call is harmless -/

/-- The call does not take the pointer for one of the heap. -/
def Ignores (area : Area) (entry : Entry) (p : Nat) : Prop :=
  entry = .free ∧ area.heapStart + area.heapSize ≤ p

/-- The block of the pointer is the first one of the heap, and what follows it is free, in
blocks that merge with it one after the other. -/
def Alone (area : Area) (h : Heap) (p : Nat) : Prop :=
  p = area.start + structSize ∧ ∀ j < area.top, h.size area.start ≤ 2 ^ j →
    h.isFree (area.start + 2 ^ j) ∧ h.size (area.start + 2 ^ j) = 2 ^ j

section DoubleFree

variable {area : Area} {c : Client} {t : Tree} {p n : Nat}

/-- Two releases of a live pointer: the result of the first is the whole heap, or the
second spoils a list. -/
theorem release_twice (k : Keeps area c t) (live : (p, n) ∈ c.live) : ∃ fuel h' h'',
    (∀ more, fuel ≤ more → release more area.heapStart area.heapSize p c.heap = .ok h') ∧
    (∀ more, fuel ≤ more → release more area.heapStart area.heapSize p h' = .ok h'') ∧
    (Alone area c.heap p → h'' = h') ∧ (¬ Alone area c.heap p → ¬ SameLists area h' h'') := by
  let most := (tiles area.top area.start t).length + 33
  obtain ⟨h', run, t', k'⟩ := k.release live (show _ < most by omega) (show 32 < most by omega)
  have live' := k.holds.mem_iff.mpr live
  obtain ⟨d, j, a, rfl, limbo, size, blocks, start⟩ := release_limbo k.layout live'
  have fewer : (around d j a).length < most := by
    have count := congrArg List.length blocks
    simp only [List.length_append, List.length_cons] at count
    simp only [around, List.length_append]
    omega
  have marked : (c.heap.setIsFree a true).mem (a + 12) = 1 := Function.update_self _ _ _
  obtain ⟨whole, part⟩ :=
    mergeBlock_again limbo marked fewer ((start most (by omega)).symm.trans run)
  have alone : Rising d ↔ Alone area c.heap (a + structSize) := by
    have headed : ∀ b ∈ around d j a, Headed c.heap b := fun b hb => by
      refine k.layout.headed b ?_
      rw [blocks, List.mem_append, List.mem_cons]
      rcases mem_around.mp hb with before | after
      · exact Or.inl before
      · exact Or.inr (Or.inr after)
    rw [rising_iff limbo.hole limbo.fits headed]
    unfold Alone
    constructor
    · rintro ⟨rfl, free⟩
      refine ⟨rfl, fun i lt le => free i ?_ lt⟩
      rw [size] at le
      exact (Nat.pow_le_pow_iff_right (by decide)).mp le
    · rintro ⟨same, free⟩
      obtain rfl : a = area.start := Nat.add_right_cancel same
      refine ⟨rfl, fun i le lt => free i lt ?_⟩
      rw [size]
      exact Nat.pow_le_pow_right (by decide) le
  have first : ∀ more, most ≤ more →
      release more area.heapStart area.heapSize (a + structSize) c.heap = .ok h' :=
    fun more le => release_mono le run
  by_cases rising : Rising d
  · refine ⟨most, h', h', first, fun more le => (whole rising).release (by omega), fun _ => rfl,
      fun other => absurd (alone.mp rising) other⟩
  · obtain ⟨i, pushes⟩ := part rising
    have lt : i < area.orderCount := Nat.lt_trans pushes.1 area.top_lt
    exact ⟨most, h', pushed h' a i, first, fun more le => pushes.release (by omega),
      fun other => absurd (alone.mpr other) rising, fun _ =>
        pushes_differ k'.layout lt limbo.addr_ne⟩

/-- In every reachable state a second call on a live pointer leaves the lists as the first
one left them if and only if both calls ignore it, or its block is the first one of the
heap and everything else is free; the heap is the same as a whole then. -/
theorem double_free_iff {accepts : Nat → Prop} (reach : Reach area accepts c)
    (live : (p, n) ∈ c.live)
    (entry : Entry) :
      ∃ fuel h' h'', (∀ more, fuel ≤ more → entry.call more area p c.heap = .ok h') ∧
      (∀ more, fuel ≤ more → entry.call more area p h' = .ok h'') ∧
      (SameLists area h' h'' ↔ Ignores area entry p ∨ Alone area c.heap p) ∧
      (Ignores area entry p ∨ Alone area c.heap p → h'' = h') := by
  obtain ⟨lost, t, k⟩ := reach.loses
  have held : (p, n) ∈ c.live ++ lost := List.mem_append_left _ live
  obtain ⟨notNull, ge⟩ := Keeps.pointer k held
  have same : SameLists area c.heap c.heap := fun _ _ _ listed => listed
  by_cases below : entry = .free → Below area p
  · have counted : ¬ Ignores area entry p := fun ignores => by
      have := below ignores.1
      have := ignores.2
      unfold Below at *
      omega
    obtain ⟨fuel, h', h'', first, second, alone, other⟩ := release_twice k held
    refine ⟨fuel, h', h'', fun more le => ?_, fun more le => ?_, ?_, ?_⟩
    · rw [Entry.call_eq notNull ge below]
      exact first more le
    · rw [Entry.call_eq notNull ge below]
      exact second more le
    · rw [or_iff_right counted]
      refine ⟨fun lists => not_not.mp fun not => other not lists, fun here => ?_⟩
      rw [alone here]
      exact fun _ _ _ listed => listed
    · exact fun here => alone (here.resolve_left counted)
  · obtain ⟨rfl, past⟩ := Classical.not_imp.mp below
    have ignores : Ignores area .free p := ⟨rfl, Nat.not_lt.mp past⟩
    exact ⟨0, c.heap, c.heap, fun more _ => Entry.call_ignored past more _,
      fun more _ => Entry.call_ignored past more _, iff_of_true same (Or.inl ignores), fun _ => rfl⟩

end DoubleFree

/-- Five bytes are all that is live: freeing them twice is harmless. -/
theorem double_free_iff_fiveBytes : ∃ c : Client, c.live = [(0x600020, 5)] ∧ ∃ fuel h',
    Entry.free.call fuel processArea 0x600020 c.heap = .ok h' ∧
      Entry.free.call fuel processArea 0x600020 h' = .ok h' := by
  have computed : (mallocs processArea [5] freshClient).map (fun c => (c.live, c.heap.size 0x600010,
      (List.range 16).map fun j => decide (32 ≤ 2 ^ j → c.heap.isFree (0x600010 + 2 ^ j) ∧
        c.heap.size (0x600010 + 2 ^ j) = 2 ^ j))) =
          .ok ([(0x600020, 5)], 32, List.replicate 16 true) := by
    decide +kernel
  obtain ⟨c, run, computed⟩ := map_ok_iff.mp computed
  simp only [Prod.mk.injEq] at computed
  obtain ⟨live, size, free⟩ := computed
  have reach : Reach processArea (fun _ => True) c := freshClient_reach (by decide) run
  have held : (0x600020, 5) ∈ c.live := by rw [live]; exact List.mem_cons_self
  obtain ⟨fuel, h', h'', first, second, -, same⟩ := double_free_iff reach held .free
  have start : processArea.start = 0x600010 := by decide
  have alone : Alone processArea c.heap 0x600020 := by
    refine ⟨by rw [start]; rfl, fun j lt le => ?_⟩
    rw [start] at le ⊢
    rw [size] at le
    have here : decide (32 ≤ 2 ^ j → c.heap.isFree (0x600010 + 2 ^ j) ∧
        c.heap.size (0x600010 + 2 ^ j) = 2 ^ j) ∈ List.replicate 16 true :=
      free ▸ List.mem_map.mpr ⟨j, List.mem_range.mpr lt, rfl⟩
    exact of_decide_eq_true (List.eq_of_mem_replicate here) le
  obtain rfl := same (Or.inr alone)
  exact ⟨c, live, fuel, h'', first fuel (Nat.le_refl _), second fuel (Nat.le_refl _)⟩

/-- Two blocks of five bytes are freed, the second one twice. It has become part of the
whole heap by then, and is put into a list on its own: the next two requests are served
with the whole heap and with a piece of it. -/
theorem double_free_overlaps : ∃ (c : Client) (h' h'' : Heap), Reach processArea (fun _ => True) c ∧
    (0x600040, 5) ∈ c.live ∧ Entry.free.call 40 processArea 0x600040 c.heap = .ok h' ∧
    Entry.free.call 40 processArea 0x600040 h' = .ok h'' ∧ ¬ SameLists processArea h' h'' ∧
    (mallocs processArea [65520, 5] ⟨h'', []⟩).map (fun d => d.live) =
      .ok [(0x600040, 5), (0x600020, 65520)] := by
  have computed : (mallocs processArea [5, 5] freshClient >>= fun c =>
      Entry.free.call 40 processArea 0x600020 c.heap >>= fun g =>
        Entry.free.call 40 processArea 0x600040 g >>= fun h' =>
          Entry.free.call 40 processArea 0x600040 h' >>= fun h'' =>
            (mallocs processArea [65520, 5] ⟨h'', []⟩).map fun d =>
              (c.live, h'.freeList 5, h''.freeList 5, d.live)) =
      .ok ([(0x600040, 5), (0x600020, 5)], NULL, 0x600030, [(0x600040, 5), (0x600020, 65520)]) := by
    decide +kernel
  obtain ⟨c, run, rest⟩ := bind_ok_iff.mp computed
  obtain ⟨g, freed, rest⟩ := bind_ok_iff.mp rest
  obtain ⟨h', first, rest⟩ := bind_ok_iff.mp rest
  obtain ⟨h'', second, rest⟩ := bind_ok_iff.mp rest
  obtain ⟨d, last, rest⟩ := map_ok_iff.mp rest
  simp only [Prod.mk.injEq] at rest
  obtain ⟨live, before, after, overlap⟩ := rest
  have held : (0x600020, 5) ∈ c.live := by rw [live]; decide
  have reach : Reach processArea (fun _ => True) c := freshClient_reach (by decide) run
  obtain ⟨mem, freeList, steps⟩ := reach
  have released : Step processArea (fun _ => True) c ⟨g, c.live.erase (0x600020, 5)⟩ :=
    .free held (fun _ => trivial) freed
  refine ⟨⟨g, c.live.erase (0x600020, 5)⟩, h', h'', ⟨mem, freeList, steps.tail released⟩,
    ?_, first, second, fun same => ?_, ?_⟩
  · change (0x600040, 5) ∈ c.live.erase (0x600020, 5)
    rw [live]
    decide
  · have lists : Listed h'' 5 [] := same 5 (by decide) [] before
    exact absurd (after.symm.trans lists) (by decide)
  · rw [last, ← overlap]
    rfl

end SoTp.Buddy
