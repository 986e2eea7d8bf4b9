/-
Coalescing of the buddy allocator over whole histories. Two free blocks of one
size are never the two halves of a block, so a heap without live blocks is the
initial block: releasing every pointer, in whatever order, brings the initial
lists back.

* `Keeps.not_buddies` — no two free blocks are buddies.
* `Keeps.initial` — with nothing live, the lists are the initial ones.
* `freeAll_initial_iff` — releasing everything ends there exactly when no call
  is one that `free` ignores.
-/

import SoTp.Buddy.Reachable

namespace SoTp.Buddy

open SoTp.Lib Dyadic
open SoTp.FreeList (NULL structSize Block payload lives mem_lives)

/-- Two blocks of one size, the lower one first, that halve an aligned block. -/
def Buddies (area : Area) (b d : Block) : Prop :=
  d.size = b.size ∧ d.addr = b.addr + b.size ∧ 2 * b.size ∣ b.addr - area.start

/-- The state `internalFreeListInit` leaves: the list of the highest order holds
the whole heap, and every other list is empty. -/
structure Initial (area : Area) (h : Heap) : Prop where
  whole : h.freeList (area.orderCount - 1) = area.start ∧ h.next area.start = NULL
  others : ∀ k < area.orderCount - 1, h.freeList k = NULL
  header : h.size area.start = area.heapSize ∧ h.isFree area.start

/-- Makes the calls one after the other. -/
def freeAll (fuel : Nat) (area : Area) : List (Entry × Nat) → Heap → Exec Heap
  | [], h => .ok h
  | (entry, p) :: calls, h => entry.call fuel area p h >>= freeAll fuel area calls

section Coalescing

variable {area : Area} {c : Client} {t : Tree}

theorem Keeps.not_buddies (k : Keeps area c t) {b d : Block}
    (hb : b ∈ tiles area.top area.start t) (hd : d ∈ tiles area.top area.start t)
    (bfree : b.label = none) (dfree : d.label = none) : ¬ Buddies area b d := by
  rintro ⟨size, next, m, even⟩
  have bounds := (tiled_bounds k.layout.tiled hb).1
  refine Dyadic.not_buddies k.layout.fits k.layout.merged hb hd bfree dfree size next (m := m) ?_
  rw [Nat.mul_comm m]
  omega

theorem Keeps.initial (k : Keeps area c t) (idle : c.live = []) : Initial area c.heap := by
  have unused : ∀ b ∈ tiles area.top area.start t, Unused b.label := fun b hb => by
    cases label : b.label with
    | none => rfl
    | some n =>
        have live := k.holds.mem_iff.mp (mem_lives.mpr ⟨b, hb, label, rfl⟩)
        rw [idle] at live
        cases live
  obtain ⟨x, rfl, rfl⟩ := wholeLeaf_of_merged k.layout.fits k.layout.merged unused
  have headed := k.layout.headed ⟨area.start, 2 ^ area.top, none⟩ (by simp)
  have lists : ∀ order < area.orderCount, ∃ cells, Listed c.heap order cells ∧
      cells.Perm (if order = area.top then [area.start] else []) := fun order lt => by
    obtain ⟨cells, listed, perm⟩ := k.layout.listed order lt
    refine ⟨cells, listed, ?_⟩
    rw [tiles_leaf] at perm
    split_ifs with top
    · rwa [freesAt_cons_free rfl (by rw [top]), freesAt_nil] at perm
    · rwa [freesAt_cons_other fun _ size => top (Nat.pow_right_injective (Nat.le_refl 2) size).symm,
        freesAt_nil] at perm
  refine ⟨?_, fun order lt => ?_, headed.1, headed.2.mpr rfl⟩
  · obtain ⟨cells, listed, perm⟩ := lists area.top area.top_lt
    rw [if_pos rfl, List.perm_singleton] at perm
    rw [perm] at listed
    exact listed
  · obtain ⟨cells, listed, perm⟩ := lists order (by omega)
    have below : order ≠ area.top := Nat.ne_of_lt lt
    rw [if_neg below, List.perm_nil] at perm
    rw [perm] at listed
    exact listed

/-- In the initial state nothing is live. -/
theorem Keeps.idle (k : Keeps area c t) (initial : Initial area c.heap) : c.live = [] := by
  obtain ⟨cells, listed, perm⟩ := k.layout.listed area.top area.top_lt
  have top : c.heap.freeList area.top = area.start := initial.whole.1
  have cells_eq : cells = [area.start] := by
    have pos := area.start_pos
    have null : NULL = 0 := rfl
    cases cells with
    | nil =>
        have e : c.heap.freeList area.top = NULL := listed
        omega
    | cons y rest =>
        obtain ⟨front, tail⟩ := listed
        obtain rfl : area.start = y := top.symm.trans front
        rw [initial.whole.2] at tail
        cases rest with
        | nil => rfl
        | cons z rest =>
            -- No block is at NULL.
            obtain rfl : NULL = z := tail.1
            obtain ⟨d, hd, -, -, e⟩ := mem_freesAt.mp (perm.mem_iff.mp (by simp : NULL ∈ _))
            have bounds := (tiled_bounds k.layout.tiled hd).1
            omega
  rw [cells_eq] at perm
  obtain ⟨b, hb, free, size, -⟩ := mem_freesAt.mp (perm.mem_iff.mp (List.mem_singleton_self _))
  have whole := eq_leaf_of_full k.layout.fits hb size
  have holds := k.holds
  rw [whole, free, tiles_leaf, SoTp.FreeList.lives_cons_free rfl] at holds
  exact List.nil_perm.mp holds

/-! ### Releasing everything -/

theorem Entry.call_mono {entry : Entry} {fuel more p : Nat} {h h' : Heap} (le : fuel ≤ more)
    (run : entry.call fuel area p h = .ok h') : entry.call more area p h = .ok h' := by
  cases entry with
  | globalFree =>
      simp only [Entry.call, freeIn] at run ⊢
      split_ifs at run ⊢
      · exact run
      · exact release_mono le run
  | free =>
      simp only [Entry.call, freeInside] at run ⊢
      split_ifs at run ⊢
      · exact run
      · exact run
      · exact release_mono le run

theorem freeAll_mono {calls : List (Entry × Nat)} {h h' : Heap} {fuel more : Nat} (le : fuel ≤ more)
    (run : freeAll fuel area calls h = .ok h') : freeAll more area calls h = .ok h' := by
  induction calls generalizing h with
  | nil => exact run
  | cons e calls ih =>
      obtain ⟨g, first, rest⟩ := bind_ok_iff.mp run
      exact bind_ok_iff.mpr ⟨g, Entry.call_mono le first, ih rest⟩

/-- Releasing some of the live pointers: what was not to be released stays live,
and what `free` ignored. -/
theorem Keeps.freeAll (k : Keeps area c t) {calls : List (Entry × Nat)} {rest : List Nat}
    (every : (calls.map Prod.snd ++ rest).Perm (c.live.map Prod.fst)) :
    ∃ fuel h' live t', freeAll fuel area calls c.heap = .ok h' ∧ Keeps area ⟨h', live⟩ t' ∧
      (live = [] ↔ rest = [] ∧ ∀ e ∈ calls, e.1 = .free → Below area e.2) := by
  induction calls generalizing c t rest with
  | nil =>
      refine ⟨0, c.heap, c.live, t, rfl, k, ?_⟩
      rw [List.map_nil, List.nil_append] at every
      constructor
      · intro idle
        rw [idle] at every
        exact ⟨List.perm_nil.mp every, by simp⟩
      · rintro ⟨rfl, -⟩
        exact List.map_eq_nil_iff.mp (List.nil_perm.mp every)
  | cons e calls ih =>
      obtain ⟨entry, p⟩ := e
      rw [List.map_cons, List.cons_append] at every
      obtain ⟨⟨q, n⟩, live, rfl⟩ := List.mem_map.mp (every.mem_iff.mp List.mem_cons_self)
      by_cases below : entry = .free → Below area q
      · -- The call releases the block.
        let more := (tiles area.top area.start t).length + 33
        obtain ⟨h', run, t', k'⟩ := k.release live (show _ < more by omega)
          (show 32 < more by omega)
        rw [← k.call_eq live below more] at run
        have fewer : (calls.map Prod.snd ++ rest).Perm ((c.live.erase (q, n)).map Prod.fst) :=
          (List.perm_cons q).mp (every.trans ((List.perm_cons_erase live).map Prod.fst))
        obtain ⟨fuel, h'', live', t'', runs, k'', outcome⟩ := ih k' fewer
        refine ⟨max more fuel, h'', live', t'', bind_ok_iff.mpr ⟨h', ?_, ?_⟩, k'', ?_⟩
        · exact Entry.call_mono (Nat.le_max_left _ _) run
        · exact freeAll_mono (Nat.le_max_right _ _) runs
        · rw [outcome, List.forall_mem_cons]
          tauto
      · -- The call is ignored.
        obtain ⟨rfl, past⟩ := Classical.not_imp.mp below
        obtain ⟨fuel, h'', live', t'', runs, k'', outcome⟩ :=
          ih k (show (calls.map Prod.snd ++ q :: rest).Perm _ from List.perm_middle.trans every)
        refine ⟨fuel, h'', live', t'', bind_ok_iff.mpr ⟨c.heap, Entry.call_ignored past fuel c.heap,
          runs⟩, k'', ?_⟩
        rw [outcome, List.forall_mem_cons]
        constructor
        · rintro ⟨absurd, -⟩
          cases absurd
        · rintro ⟨-, here, -⟩
          exact absurd (here rfl) past

/-- In every state a client can reach without calling `free` on a pointer at the
end of the heap, no two free blocks are buddies; and releasing all the live
pointers, in any order, ends in the initial state exactly when it does without
such a call. -/
theorem buddy_coalescing (reach : Reach area (Below area) c) :
    ∃ ts, WellFormed area c ts ∧
      (∀ b ∈ ts, ∀ d ∈ ts, b.label = none → d.label = none → ¬ Buddies area b d) ∧
      ∀ calls : List (Entry × Nat), (calls.map Prod.snd).Perm (c.live.map Prod.fst) →
        ∃ fuel h', SoTp.Buddy.freeAll fuel area calls c.heap = .ok h' ∧
          (Initial area h' ↔ ∀ e ∈ calls, e.1 = .free → Below area e.2) := by
  obtain ⟨t, k⟩ := reach.keeps
  refine ⟨_, k.wellFormed, fun b hb d hd bfree dfree => k.not_buddies hb hd bfree dfree,
    fun calls every => ?_⟩
  have whole : (calls.map Prod.snd ++ []).Perm (c.live.map Prod.fst) := by simpa using every
  obtain ⟨fuel, h', live, t', run, k', outcome⟩ := k.freeAll whole
  refine ⟨fuel, h', run, ?_⟩
  constructor
  · intro initial
    exact (outcome.mp (k'.idle initial)).2
  · intro below
    have idle := outcome.mpr ⟨rfl, below⟩
    subst idle
    exact k'.initial rfl

end Coalescing

theorem buddy_coalescing_fiveBytes :
    ∃ c : Client, c.live = [(0x600020, 5)] ∧
      ∃ fuel h', freeAll fuel processArea [(.free, 0x600020)] c.heap = .ok h' ∧
        Initial processArea h' := by
  have computed : (mallocs processArea [5] freshClient).map (fun c => c.live) =
      .ok [(0x600020, 5)] := by decide +kernel
  obtain ⟨c, run, computed⟩ := map_ok_iff.mp computed
  have reach : Reach processArea (Below processArea) c := freshClient_reach (by decide) run
  obtain ⟨ts, -, -, all⟩ := buddy_coalescing reach
  obtain ⟨fuel, h', released, initial⟩ := all [(.free, 0x600020)] (by rw [computed]; decide)
  refine ⟨c, computed, fuel, h', released, initial.mpr fun e he _ => ?_⟩
  obtain rfl := List.mem_singleton.mp he
  unfold Below
  decide

/-- Calls of `free` for all blocks of a full heap leave its last block behind. -/
theorem free_all_incomplete :
    ∃ (c : Client) (ps : List Nat), Reach processArea (fun _ => True) c ∧
      ps.Perm (c.live.map Prod.fst) ∧
      ∃ fuel h', freeAll fuel processArea (ps.map fun p => (.free, p)) c.heap = .ok h' ∧
        ¬ Initial processArea h' := by
  obtain ⟨c, run, computed⟩ := map_ok_iff.mp filled_eq
  simp only [Prod.mk.injEq] at computed
  have all : Reach processArea (fun _ => True) c := freshClient_reach (by decide) run
  have some : Reach processArea (Below processArea) c := freshClient_reach (by decide) run
  obtain ⟨t, k⟩ := some.keeps
  have every : (((c.live.map Prod.fst).map fun p => (Entry.free, p)).map Prod.snd ++ []).Perm
      (c.live.map Prod.fst) := by simp [Function.comp_def]
  obtain ⟨fuel, h', live, t', freed, k', outcome⟩ := k.freeAll every
  refine ⟨c, c.live.map Prod.fst, all, .refl _, fuel, h', freed, fun initial => ?_⟩
  have below := (outcome.mp (k'.idle initial)).2 (.free, 0x610010)
    (by rw [computed.1]; decide) rfl
  exact absurd below (by unfold Below; decide)

end SoTp.Buddy
