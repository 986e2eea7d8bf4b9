/-
`Array_equals`. The loop runs through the first array only.

* `compareEles_true`, `compareEles_passed` — what the loop returns, and what it compares.
* `equals_iff` — for which arrays that is whether they are equal.
-/

import SoTp.Arrays.Refinement

namespace SoTp.Arrays

open SoTp.Lib Heap
open SoTp.Modules (Apart)

/-- The lists are equal as far as `cmp` can tell. -/
def Alike (cmp : CompareEleFn) (xs ys : List Ele) : Prop :=
  xs.length = ys.length ∧ ∀ (i : Nat) x y, xs[i]? = some x → ys[i]? = some y → cmp (some x)
    (some y) = 0

/-- At a position before `n` the elements differ. -/
def DifferBefore (n : Nat) (cmp : CompareEleFn) (xs ys : List Ele) : Prop :=
  ∃ i < n, ∃ x y, xs[i]? = some x ∧ ys[i]? = some y ∧ cmp (some x) (some y) ≠ 0

/-- The result says whether the arrays are equal, and no NULL is compared. -/
def EqualsRight (h : Heap) (cmp : CompareEleFn) (a1 a2 : Nat) (c1 c2 : ArrayCDT) : Prop :=
  ∃ equal compared, Userland.Array_equals h a1 a2 = some (equal, compared) ∧
    (equal = true ↔ Alike cmp (h.toList c1) (h.toList c2)) ∧
    ∀ pair ∈ compared, pair.1 ≠ none ∧ pair.2 ≠ none

section Loop

variable {h : Heap} {c c1 c2 : ArrayCDT} {cmp : CompareEleFn}

theorem eleAt_nat (stored : c.Stored) (i : Nat) : h.eleAt c (c.Array_get i) = (h.toList c)[i]? := by
  rw [eleAt_get stored]
  by_cases lt : i < c.length
  · rw [realIdx_natCast lt]
    rfl
  · have none : Lists.realIdx c.length i = none := by
      rw [Lists.realIdx, if_pos (Int.natCast_nonneg i), if_neg (by omega)]
    rw [none, Option.bind_none, List.getElem?_eq_none (by rw [toList_length]; omega)]

/-- The loop returns true when no pair it compares differs. -/
theorem compareEles_true (stored1 : c1.Stored) (stored2 : c2.Stored) (start n : Nat) :
    (Userland.compareEles h c1 c2 cmp (List.range' start n)).1 = true ↔
      ∀ i, start ≤ i → i < start + n → cmp (h.toList c1)[i]? (h.toList c2)[i]? = 0 := by
  induction n generalizing start with
  | zero => exact iff_of_true rfl fun i ge lt => absurd lt (Nat.not_lt.mpr ge)
  | succ n ih =>
      rw [List.range'_succ, Userland.compareEles, eleAt_nat stored1, eleAt_nat stored2]
      by_cases differ : cmp (h.toList c1)[start]? (h.toList c2)[start]? ≠ 0
      · simp only [if_pos differ]
        constructor
        · intro impossible
          cases impossible
        · intro same
          exact absurd (same start (Nat.le_refl _) (by omega)) differ
      · simp only [if_neg differ]
        rw [ih]
        constructor
        · intro same i ge lt
          by_cases first : i = start
          · rw [first]
            exact not_not.mp differ
          · exact same i (by omega) (by omega)
        · intro same i ge lt
          exact same i (by omega) (by omega)

/-- A position is compared when all positions before were equal. -/
theorem compareEles_passed (stored1 : c1.Stored) (stored2 : c2.Stored) (start n : Nat)
    (pair : Option Ele × Option Ele) :
    pair ∈ (Userland.compareEles h c1 c2 cmp (List.range' start n)).2 ↔
      ∃ i, start ≤ i ∧ i < start + n ∧
        (∀ j, start ≤ j → j < i → cmp (h.toList c1)[j]? (h.toList c2)[j]? = 0) ∧
        pair = ((h.toList c1)[i]?, (h.toList c2)[i]?) := by
  induction n generalizing start with
  | zero =>
      constructor
      · intro impossible
        cases impossible
      · rintro ⟨i, ge, lt, -⟩
        exact absurd lt (Nat.not_lt.mpr ge)
  | succ n ih =>
      rw [List.range'_succ, Userland.compareEles, eleAt_nat stored1, eleAt_nat stored2]
      have here : ∀ i, i = start → ∀ j, start ≤ j → j < i →
          cmp (h.toList c1)[j]? (h.toList c2)[j]? = 0 := by
        intro i first j ge lt
        omega
      by_cases differ : cmp (h.toList c1)[start]? (h.toList c2)[start]? ≠ 0
      · simp only [if_pos differ, List.mem_singleton]
        constructor
        · intro first
          exact ⟨start, Nat.le_refl _, by omega, here start rfl, first⟩
        · rintro ⟨i, ge, lt, before, rfl⟩
          by_cases first : i = start
          · rw [first]
          · exact absurd (before start (Nat.le_refl _) (by omega)) differ
      · simp only [if_neg differ, List.mem_cons, ih]
        constructor
        · rintro (first | ⟨i, ge, lt, before, rfl⟩)
          · exact ⟨start, Nat.le_refl _, by omega, here start rfl, first⟩
          · refine ⟨i, by omega, by omega, fun j ge_j lt_j => ?_, rfl⟩
            by_cases first : j = start
            · rw [first]
              exact not_not.mp differ
            · exact before j (by omega) lt_j
        · rintro ⟨i, ge, lt, before, rfl⟩
          by_cases first : i = start
          · exact Or.inl (by rw [first])
          · exact Or.inr ⟨i, by omega, by omega, fun j ge_j lt_j => before j (by omega) lt_j, rfl⟩

end Loop

section Equality

variable {h : Heap} {a1 a2 : Nat} {c1 c2 : ArrayCDT} {cmp : CompareEleFn}

/-- `Array_equals` compares up to the shorter length, counted in an `int`. -/
theorem Array_equals_eq (there1 : h.arrays a1 = some c1) (there2 : h.arrays a2 = some c2)
    (sizes : c1.elementSize = c2.elementSize) (given : (c1.cmpEleFn <|> c2.cmpEleFn) = some cmp) :
    Userland.Array_equals h a1 a2 =
      some (Userland.compareEles h c1 c2 cmp (List.range' 0 (min c1.length (2 ^ 31)))) := by
  have equal : ¬ c1.elementSize ≠ c2.elementSize := not_not_intro sizes
  simp only [Userland.Array_equals, there1, there2, if_neg equal, given, Option.bind_eq_bind,
    Option.bind_some, indices, List.range_eq_range']
  rfl

/-- When comparing one list with another up to `2^31` is right, and stays within both. -/
theorem compare_right_iff (cmp : CompareEleFn) (xs ys : List Ele) :
    ((∀ i < min xs.length (2 ^ 31), cmp xs[i]? ys[i]? = 0) ↔ Alike cmp xs ys) ∧
      (∀ i < min xs.length (2 ^ 31), (∀ j < i, cmp xs[j]? ys[j]? = 0) → xs[i]? ≠ none ∧
        ys[i]? ≠ none) ↔
    DifferBefore (2 ^ 31) cmp xs ys ∨
      (xs.length = ys.length ∧ ∀ i x y, 2 ^ 31 ≤ i → xs[i]? = some x → ys[i]? = some y →
        cmp (some x) (some y) = 0) := by
  have within : ∀ {zs : List Ele} {i : Nat}, i < zs.length ↔ zs[i]? ≠ none := by
    intro zs i
    rw [Ne, List.getElem?_eq_none_iff, Nat.not_le]
  have held : ∀ (zs : List Ele) (i : Nat), i < zs.length → ∃ z, zs[i]? = some z := by
    intro zs i lt
    exact ⟨_, List.getElem?_eq_getElem lt⟩
  constructor
  · rintro ⟨right, inside⟩
    by_contra bad
    obtain ⟨same, bad⟩ := not_or.mp bad
    have zero : ∀ i < 2 ^ 31, i < xs.length → i < ys.length → cmp xs[i]? ys[i]? = 0 := by
      intro i lt lt_xs lt_ys
      obtain ⟨x, is_x⟩ := held xs i lt_xs
      obtain ⟨y, is_y⟩ := held ys i lt_ys
      by_contra differ
      rw [is_x, is_y] at differ
      exact same ⟨i, lt, x, y, is_x, is_y, differ⟩
    by_cases reached : min xs.length (2 ^ 31) ≤ ys.length
    · have alike := right.mp fun i lt => zero i (by omega) (by omega) (by omega)
      exact bad ⟨alike.1, fun i x y _ => alike.2 i x y⟩
    · -- The first position that only the first list has is compared with NULL.
      have null := inside ys.length (by omega) fun j lt => zero j (by omega) (by omega) lt
      exact absurd (within.mpr null.2) (Nat.lt_irrefl _)
  · rintro (⟨i, lt, x, y, is_x, is_y, differ⟩ | ⟨length, rest⟩)
    · have lt_xs : i < xs.length := within.mpr (by rw [is_x]; exact Option.some_ne_none x)
      have lt_ys : i < ys.length := within.mpr (by rw [is_y]; exact Option.some_ne_none y)
      constructor
      · constructor
        · intro zero
          have := zero i (by omega)
          rw [is_x, is_y] at this
          exact absurd this differ
        · intro alike
          exact absurd (alike.2 i x y is_x is_y) differ
      · intro k lt_k before
        have le : k ≤ i := by
          by_contra behind
          have := before i (by omega)
          rw [is_x, is_y] at this
          exact differ this
        exact ⟨within.mp (by omega), within.mp (by omega)⟩
    · constructor
      · constructor
        · intro zero
          refine ⟨length, fun i x y is_x is_y => ?_⟩
          have lt_xs : i < xs.length := within.mpr (by rw [is_x]; exact Option.some_ne_none x)
          by_cases far : 2 ^ 31 ≤ i
          · exact rest i x y far is_x is_y
          · rw [← is_x, ← is_y]
            exact zero i (by omega)
        · intro alike i lt
          obtain ⟨x, is_x⟩ := held xs i (by omega)
          obtain ⟨y, is_y⟩ := held ys i (by omega)
          rw [is_x, is_y]
          exact alike.2 i x y is_x is_y
      · intro i lt _
        exact ⟨within.mp (by omega), within.mp (by omega)⟩

/-- `Array_equals` is right exactly when it meets a difference, or the arrays are of one
length and there is none behind the positions that an `int32_t` reaches. -/
theorem equalsRight_iff (sound : h.Sound) (there1 : h.arrays a1 = some c1)
    (there2 : h.arrays a2 = some c2)
    (sizes : c1.elementSize = c2.elementSize) (given : (c1.cmpEleFn <|> c2.cmpEleFn) = some cmp) :
    EqualsRight h cmp a1 a2 c1 c2 ↔
      DifferBefore (2 ^ 31) cmp (h.toList c1) (h.toList c2) ∨
      (c1.length = c2.length ∧ ∀ i x y, 2 ^ 31 ≤ i → (h.toList c1)[i]? = some x →
        (h.toList c2)[i]? = some y → cmp (some x) (some y) = 0) := by
  have stored1 := sound.stored a1 c1 there1
  have stored2 := sound.stored a2 c2 there2
  have right := compare_right_iff cmp (h.toList c1) (h.toList c2)
  rw [toList_length, toList_length] at right
  rw [← right, EqualsRight, Array_equals_eq there1 there2 sizes given]
  have true_iff := @compareEles_true h c1 c2 cmp stored1 stored2 0 (min c1.length (2 ^ 31))
  have passed_iff := @compareEles_passed h c1 c2 cmp stored1 stored2 0 (min c1.length (2 ^ 31))
  simp only [Nat.zero_le, Nat.zero_add, true_and, forall_const] at true_iff passed_iff
  rw [← true_iff]
  constructor
  · rintro ⟨equal, compared, eq, is_equal, no_null⟩
    rw [Option.some.inj eq]
    rw [Option.some.inj eq] at passed_iff
    exact ⟨is_equal, fun i lt before => no_null _ ((passed_iff _).mpr ⟨i, lt, before, rfl⟩)⟩
  · rintro ⟨is_equal, no_null⟩
    refine ⟨_, _, rfl, is_equal, fun pair inside => ?_⟩
    obtain ⟨i, lt, before, rfl⟩ := (passed_iff pair).mp inside
    exact no_null i lt before

/-- Which of the two comes first does not matter, -/
theorem Alike.symm (same : Equivalence fun x y => cmp (some x) (some y) = 0) {xs ys : List Ele}
    (alike : Alike cmp xs ys) : Alike cmp ys xs := by
  constructor
  · exact alike.1.symm
  · intro i y x is_y is_x
    exact same.symm (alike.2 i x y is_x is_y)

/-- here neither. -/
theorem DifferBefore.symm (same : Equivalence fun x y => cmp (some x) (some y) = 0) {n : Nat}
    {xs ys : List Ele} (differ : DifferBefore n cmp xs ys) : DifferBefore n cmp ys xs := by
  obtain ⟨i, lt, x, y, is_x, is_y, ne⟩ := differ
  exact ⟨i, lt, y, x, is_y, is_x, fun zero => ne (same.symm zero)⟩

/-- It is right exactly when the two lists differ where both have an element, or are of one
length. The other order of the arguments then returns the same. -/
theorem equals_iff (sound : h.Sound) (there1 : h.arrays a1 = some c1)
    (there2 : h.arrays a2 = some c2)
    (sizes : c1.elementSize = c2.elementSize) (given : (c1.cmpEleFn <|> c2.cmpEleFn) = some cmp)
    (given' : (c2.cmpEleFn <|> c1.cmpEleFn) = some cmp)
    (same : Equivalence fun x y => cmp (some x) (some y) = 0) :
    EqualsRight h cmp a1 a2 c1 c2 ∧
        (Userland.Array_equals h a1 a2).map Prod.fst =
          (Userland.Array_equals h a2 a1).map Prod.fst ↔
      DifferBefore (2 ^ 31) cmp (h.toList c1) (h.toList c2) ∨
      (c1.length = c2.length ∧ ∀ i x y, 2 ^ 31 ≤ i → (h.toList c1)[i]? = some x →
        (h.toList c2)[i]? = some y → cmp (some x) (some y) = 0) := by
  have one_order := equalsRight_iff sound there1 there2 sizes given
  constructor
  · rintro ⟨right, -⟩
    exact one_order.mp right
  · intro when
    have right := one_order.mpr when
    have right' : EqualsRight h cmp a2 a1 c2 c1 := by
      apply (equalsRight_iff sound there2 there1 sizes.symm given').mpr
      rcases when with differ | ⟨length, rest⟩
      · exact Or.inl (differ.symm same)
      · exact Or.inr ⟨length.symm, fun i y x far is_y is_x => same.symm (rest i x y far is_x is_y)⟩
    refine ⟨right, ?_⟩
    obtain ⟨equal, compared, eq, is_equal, -⟩ := right
    obtain ⟨equal', compared', eq', is_equal', -⟩ := right'
    have agree : equal = true ↔ equal' = true := by
      rw [is_equal, is_equal']
      exact ⟨Alike.symm same, Alike.symm same⟩
    rw [eq, eq', Option.map_some, Option.map_some]
    exact congrArg some (Bool.eq_iff_iff.mpr agree)

end Equality

/-- Equal elements compare as zero. -/
def compareBytes : CompareEleFn := fun x y => if x = y then 0 else 1

theorem compareBytes_equivalence : Equivalence fun x y => compareBytes (some x) (some y) = 0 := by
  have zero : ∀ x y, compareBytes (some x) (some y) = 0 ↔ x = y := by
    intro x y
    rw [compareBytes, ite_eq_left_iff, Option.some_inj]
    exact ⟨fun only => not_not.mp fun ne => absurd (only ne) (by decide), fun eq ne => absurd eq ne⟩
  simp only [zero]
  exact eq_equivalence

/-- Storages in the order of their arrays, at 8 and 16. -/
theorem two_sound {mem : Bytes} {c c' : ArrayCDT} (stored : c.Stored) (stored' : c'.Stored)
    (order : c.array + c.bytes ≤ c'.array) :
    (Heap.set (Heap.set ⟨fun _ => none, mem, [], []⟩ 8 c) 16 c').Sound := by
  refine ((empty_lone mem).sound stored).update stored' fun b d _ there => ?_
  rw [(empty_lone mem b d there).2]
  exact apart_of_le (Or.inr order)

/-- Three bytes, and two of which the second one is another. -/
def threeAndTwo : Heap :=
  Heap.set (Heap.set ⟨fun _ => none, fun x => if x = 201 then 9 else UInt8.ofNat (x % 100), [], []⟩
    8 ⟨100, 1, 3, 3, false, some compareBytes⟩) 16 ⟨200, 1, 2, 2, false, some compareBytes⟩

theorem equals_iff_threeAndTwo : ∃ c1 c2, threeAndTwo.arrays 8 = some c1 ∧
    threeAndTwo.arrays 16 = some c2 ∧
    threeAndTwo.toList c1 = [[0], [1], [2]] ∧ threeAndTwo.toList c2 = [[0], [9]] ∧
      EqualsRight threeAndTwo compareBytes 8 16 c1 c2 ∧
        (Userland.Array_equals threeAndTwo 8 16).map Prod.fst =
          (Userland.Array_equals threeAndTwo 16 8).map Prod.fst := by
  have sound : threeAndTwo.Sound :=
    two_sound ⟨by decide, by decide, by decide, by decide, by decide⟩
    ⟨by decide, by decide, by decide, by decide, by decide⟩ (by decide)
  have right :=
    @equals_iff threeAndTwo 8 16 _ _ compareBytes sound rfl rfl rfl rfl rfl compareBytes_equivalence
  exact ⟨_, _, rfl, rfl, rfl, rfl, right.mpr (Or.inl ⟨1, by decide, [1], [9], rfl, rfl, by decide⟩)⟩

/-- An empty array at 8, and one with a byte at 16. -/
def emptyAndByte : Heap :=
  Heap.set
    (Heap.set ⟨fun _ => none, fun _ => 7, [], []⟩ 8 ⟨100, 1, 1, 0, false, some compareBytes⟩) 16
    ⟨200, 1, 1, 1, false, some compareBytes⟩

theorem emptyAndByte_sound : emptyAndByte.Sound :=
  two_sound ⟨by decide, by decide, by decide, by decide, by decide⟩
    ⟨by decide, by decide, by decide, by decide, by decide⟩ (by decide)

/-- The empty array equals every array. In the other order, NULL is compared. -/
theorem equals_prefix : emptyAndByte.Sound ∧
    Userland.Array_equals emptyAndByte 8 16 = some (true, []) ∧
    Userland.Array_equals emptyAndByte 16 8 = some (false, [(some [7], none)]) ∧
    ¬ EqualsRight emptyAndByte compareBytes 8 16
      ⟨100, 1, 1, 0, false, some compareBytes⟩ ⟨200, 1, 1, 1, false, some compareBytes⟩ := by
  refine ⟨emptyAndByte_sound, rfl, rfl, ?_⟩
  rintro ⟨equal, compared, eq, is_equal, -⟩
  have equal_true : equal = true := (congrArg Prod.fst (Option.some.inj eq)).symm
  exact absurd (is_equal.mp equal_true).1 (by decide)

end SoTp.Arrays
