/-
The operations on arrays do what the operations on lists do.

* `perform_square` — one operation.
* `array_is_list` — every run.
-/

import SoTp.Arrays.Lists
import Mathlib.Data.List.Find

namespace SoTp.Arrays

open SoTp.Lib Heap
open SoTp.Modules (Apart moved memcpy_spec)

section Effects

variable {h h' : Heap} {a block p : Nat} {c c' : ArrayCDT} {list dropped : List Ele}

/-! ### Growing -/

/-- Growing copies the storage into the new block, -/
theorem Kernel.growTo_served (served : block ≠ NULL) (n : Nat) :
    Kernel.growTo h block a c n =
      ((h.memcpy block c.array c.bytes).set a { c with capacity := n, array := block },
        { c with capacity := n, array := block }, true) := by
  simp [Kernel.growTo, Heap.shittyRealloc, served, ArrayCDT.bytes]

/-- in both versions. -/
theorem Userland.growTo_served (served : block ≠ NULL) (n : Nat) :
    Userland.growTo h block a c n =
      some ((h.memcpy block c.array c.bytes).set a { c with capacity := n, array := block },
        { c with capacity := n, array := block }) := by
  simp [Userland.growTo, Heap.shittyRealloc, served, ArrayCDT.bytes]

/-- There is room for more elements, in a new block of a size or where there was. -/
structure Ready (h h' : Heap) (block size a : Nat) (c c' : ArrayCDT) : Prop where
  became : h.Became h' a c c' (h.toList c) []
  length : c'.length = c.length
  apart : ∀ q m, Apart c.array c.bytes q m → Apart block size q m → Apart c'.array c'.bytes q m
  same : ∀ q m, Apart block size q m → ∀ x, InRegion q m x → h'.mem x = h.mem x

/-- An array that is `full` grows. -/
theorem ready (block : Nat) (full : Prop) [Decidable full] (n : Nat) (sound : h.Sound)
    (there : h.arrays a = some c)
    (more : full → c.capacity ≤ n ∧ n * c.elementSize < word ∧
      h.Granted block (n * c.elementSize)) :
    ∃ h' c' done, (if full then Kernel.growTo h block a c n else (h, c, true)) = (h', c', done) ∧
      (if full then Userland.growTo h block a c n else some (h, c)) = some (h', c') ∧
      c'.capacity = (if full then n else c.capacity) ∧
      Ready h h' block (if full then n * c.elementSize else 0) a c c' := by
  by_cases grows : full
  · obtain ⟨le, fits, granted⟩ := more grows
    simp only [if_pos grows, Kernel.growTo_served granted.1, Userland.growTo_served granted.1]
    have larger : c.bytes ≤ n * c.elementSize := Nat.mul_le_mul_right _ le
    have apart : Apart block c.bytes c.array c.bytes := by
      intro x inside
      exact granted.2 a c there x ⟨inside.1, by have := inside.2; omega⟩
    refine ⟨_, _, _, rfl, rfl, rfl, sound.grown there granted le fits, rfl, fun q m _ fresh =>
      fresh, ?_⟩
    intro q m fresh x inside
    show Modules.memcpy h.mem block c.array c.bytes x = h.mem x
    rw [memcpy_spec (Or.inr apart)]
    apply if_neg
    intro written
    exact fresh x ⟨written.1, by have := written.2; omega⟩ inside
  · simp only [if_neg grows]
    refine ⟨_, _, _, rfl, rfl, rfl, ?_, rfl, fun q m outside _ => outside, fun q m _ x _ => rfl⟩
    have kept : h.Became h a c c ((h.toList c).take c.length) [] :=
      sound.shrunk there (Nat.le_refl c.length) (Function.update_eq_self_iff.mpr there.symm).symm
        (fun _ _ _ _ _ => rfl) (List.append_nil _).symm
    exact kept.as (List.take_of_length_le (by simp))

/-! ### Adding elements -/

/-- A push appends to the list. -/
theorem Array_push_became {x : Ele} (sound : h.Sound) (there : h.arrays a = some c)
    (served : (Op.push x).Served h block c) (given : (Op.push x).Given h block p c) :
    ∃ h' c', Kernel.Array_push h block a p = (h', (c.length : Int)) ∧
      Userland.Array_push h block a p = some h' ∧ h.Became h' a c c' (h.toList c ++ [x]) [] := by
  have stored := sound.stored a c there
  have room := stored.room
  obtain ⟨some_p, read, outside, fresh⟩ := given
  have grows : c.length ≥ c.capacity → (Op.push x).grows h c = add64 c.capacity c.capacity ∧
      c.capacity < add64 c.capacity c.capacity := by
    intro full
    have twice : (Op.push x).grows h c = c.capacity + c.capacity := if_pos full
    have some_capacity := stored.nonempty
    have fits := (served (by omega)).1
    rw [twice] at fits
    rw [add64_of_lt (Nat.lt_of_le_of_lt (Nat.le_mul_of_pos_right _ stored.size) fits)]
    exact ⟨twice, by omega⟩
  obtain ⟨h₁, c₁, done, kernel, userland, capacity, grown⟩ :=
    ready block (c.length ≥ c.capacity) (add64 c.capacity c.capacity) sound there (by
      intro full
      obtain ⟨size, more⟩ := grows full
      have served' := served (by omega)
      rw [size] at served'
      exact ⟨Nat.le_of_lt more, served'⟩)
  have apart :
      Apart block (if c.length ≥ c.capacity then add64 c.capacity c.capacity * c.elementSize else 0)
      p c.elementSize := by
    split_ifs with full
    · rwa [(grows full).1] at fresh
    · intro x inside
      exact absurd inside.2 (Nat.not_lt.mpr inside.1)
  have same : elements h₁.mem c₁.elementSize p 1 = [x] := by
    rw [elements_one, grown.became.elementSize, ← read]
    congr 1
    apply readBytes_carried
    intro k lt
    exact grown.same p c.elementSize apart _ ⟨by omega, by omega⟩
  have appended := grown.became.sound.appended (p := p) (n := 1) grown.became.there
    (by
      rw [grown.length, capacity]
      split_ifs with full
      · have := (grows full).2
        omega
      · omega)
    (Or.inl (by
      rw [grown.became.elementSize, Nat.mul_one]
      exact grown.apart p c.elementSize outside apart))
  have both := grown.became.trans appended
  rw [grown.became.list, same] at both
  simp only [Kernel.Array_push, Userland.Array_push, Kernel.growBy, Userland.growBy, there,
    if_neg some_p, kernel, userland, Option.bind_eq_bind, Option.bind_some]
  exact ⟨_, _, congrArg _ (congrArg _ grown.length), rfl, both⟩

/-- The other array may be the same one. -/
theorem Array_concat_became {src : Nat} {s : ArrayCDT} (sound : h.Sound)
    (there : h.arrays a = some c)
    (source : h.arrays src = some s) (sizes : c.elementSize = s.elementSize)
    (small : c.length + s.length < word) (served : (Op.concat src).Served h block c) :
    ∃ h' c', Kernel.Array_concat h block a src = (h', true) ∧
      Userland.Array_concat h block a src = some h' ∧
      h.Became h' a c c' (h.toList c ++ h.toList s) [] := by
  have stored_s := sound.stored src s source
  have sum : add64 c.length s.length = c.length + s.length := add64_of_lt small
  obtain ⟨h₁, c₁, done, kernel, userland, capacity, grown⟩ :=
    ready block (c.capacity < c.length + s.length) (c.length + s.length) sound there (by
      intro full
      have grows : (Op.concat src).grows h c = c.length + s.length := by
        simp only [Op.grows, source, sizes, full, and_self, if_true]
      have served' := served (by omega)
      rw [grows] at served'
      exact ⟨Nat.le_of_lt full, served'⟩)
  have length : (if src = a then c₁ else s).length = s.length := by
    split_ifs with one
    · rw [grown.length]
      cases there.symm.trans (one ▸ source)
      rfl
    · rfl
  have new : elements h₁.mem c₁.elementSize (if src = a then c₁ else s).array s.length =
      h.toList s := by
    split_ifs with one
    · cases there.symm.trans (one ▸ source)
      rw [← grown.became.list, ← grown.length]
      rfl
    · rw [grown.became.elementSize, sizes]
      apply elements_same
      intro x inside
      exact grown.became.elsewhere src s one source x (list_inside stored_s.room inside)
  have apart :
      Apart c₁.array c₁.bytes (if src = a then c₁ else s).array (c₁.elementSize * s.length) ∨
      c₁.array = (if src = a then c₁ else s).array ∧ s.length = c₁.length := by
    split_ifs with one
    · cases there.symm.trans (one ▸ source)
      exact Or.inr ⟨rfl, grown.length.symm⟩
    · apply Or.inl
      rw [grown.became.elementSize, sizes]
      have there_s : h₁.arrays src = some s := by
        rw [grown.became.arrays, Function.update_of_ne one, source]
      intro x inside other
      exact grown.became.sound.apart a src c₁ s (Ne.symm one) grown.became.there there_s x inside
        (list_inside stored_s.room other)
  have appended := grown.became.sound.appended grown.became.there
    (by
      rw [grown.length, capacity]
      split_ifs with full
      · exact Nat.le_refl _
      · omega) apart
  have both := grown.became.trans appended
  rw [grown.became.list, new] at both
  simp only [Kernel.Array_concat, Userland.Array_concat, there, source, ne_eq, sizes, not_true,
    if_false, sum, kernel, userland, Option.bind_eq_bind, Option.bind_some, length]
  have end_eq : add64 c₁.length s.length = c₁.length + s.length := by rw [grown.length, sum]
  rw [end_eq]
  exact ⟨_, _, rfl, rfl, both⟩

/-! ### Dropping elements -/

/-- What `freeEleFn` gets of the elements that are dropped. -/
def passed (c : ArrayCDT) (xs : List Ele) : List (Option Ele) :=
  if c.freeEleFn then xs.map some else []

theorem passed_nil : passed c [] = [] := by simp [passed]

theorem freeEles_eq (is : List Int) : h.freeEles c is =
    { h with
      freed := h.freed ++ if c.freeEleFn then is.map fun i => h.eleAt c (c.Array_get i) else [] } := by
  unfold Heap.freeEles
  split_ifs
  · rfl
  · rw [List.append_nil]

/-- Elements go to `freeEleFn`, and the array keeps them for now. -/
theorem freeEles_became (is : List Int) (xs : List Ele) (sound : h.Sound)
    (there : h.arrays a = some c)
    (eles : (is.map fun i => h.eleAt c (c.Array_get i)) = xs.map some) :
    h.Became (h.freeEles c is) a c c (h.toList c) (passed c xs) := by
  rw [freeEles_eq, eles]
  have kept : h.Became { h with freed := h.freed ++ passed c xs } a c c ((h.toList c).take c.length)
      (passed c xs) :=
    sound.shrunk there (Nat.le_refl c.length) (Function.update_eq_self_iff.mpr there.symm).symm
      (fun _ _ _ _ _ => rfl) rfl
  exact kept.as (List.take_of_length_le (by simp))

/-- The last element. -/
theorem eleAt_last (stored : c.Stored) (pos : 0 < c.length) : ∃ x, (h.toList c).getLast? = some x ∧
    h.eleAt c (c.Array_get (-1)) = some x := by
  have lt : c.length - 1 < (h.toList c).length := by
    rw [toList_length]
    omega
  refine ⟨(h.toList c)[c.length - 1], ?_, ?_⟩
  · rw [List.getLast?_eq_getElem?, toList_length, List.getElem?_eq_getElem lt]
  · rw [eleAt_get stored, realIdx_last pos, Option.bind_some, List.getElem?_eq_getElem lt]

theorem take_dropLast : (h.toList c).take (c.length - 1) = (h.toList c).dropLast := by
  rw [List.dropLast_eq_take, toList_length]

/-- A pop takes the last element off. -/
theorem Array_pop_became (sound : h.Sound) (there : h.arrays a = some c) (pos : 0 < c.length) :
    ∃ x h' c', (h.toList c).getLast? = some x ∧ Kernel.Array_pop h a = (h', true) ∧
      Userland.Array_pop h a = some h' ∧
        h.Became h' a c c' (h.toList c).dropLast (passed c [x]) := by
  obtain ⟨x, last, ele⟩ := eleAt_last (h := h) (sound.stored a c there) pos
  have freed := freeEles_became [-1] [x] sound there (by rw [List.map_singleton, ele]; rfl)
  have shrunk :
      (h.freeEles c [-1]).Became ((h.freeEles c [-1]).set a { c with length := c.length - 1 }) a c
      { c with length := c.length - 1 } _ [] :=
    freed.sound.shrunk freed.there (Nat.sub_le _ _) rfl (fun _ _ _ _ _ => rfl)
      (List.append_nil _).symm
  have both := freed.trans shrunk
  rw [freed.list, take_dropLast, List.append_nil] at both
  have nonempty : c.length ≠ 0 := by omega
  refine ⟨x, _, _, last, ?_, ?_, both⟩
  · simp only [Kernel.Array_pop, there, if_neg nonempty]
  · simp [Userland.Array_pop, there, nonempty]

/-- The last element goes to the caller instead. -/
theorem Array_popGetEle_became (sound : h.Sound) (there : h.arrays a = some c) (pos : 0 < c.length)
    (given : Op.popGetEle.Given h block p c) :
    ∃ x h' c', (h.toList c).getLast? = some x ∧ Kernel.Array_popGetEle h a p = (h', true) ∧
      Userland.Array_popGetEle h a p = some (h', true) ∧
        h.Became h' a c c' (h.toList c).dropLast [] ∧
      h'.pointee a p = some x := by
  have stored := sound.stored a c there
  obtain ⟨some_p, outside⟩ := given
  obtain ⟨x, last, ele⟩ := eleAt_last (h := h) stored pos
  have address : c.Array_get (-1) = c.eleAddr (c.length - 1) := by
    rw [ArrayCDT.Array_get, toRealIdx_eq, realIdx_last pos]
  have room := stored.room
  have apart : Apart p c.elementSize (c.eleAddr (c.length - 1)) c.elementSize := by
    intro y inside other
    refine outside a c there y ?_ inside
    exact inside_storage (n := 1) (c.length - 1) (by omega) (by rwa [Nat.mul_one])
  have copied : (h.memcpy p (c.Array_get (-1)) c.elementSize).mem =
      moved h.mem p (c.eleAddr (c.length - 1)) c.elementSize := by
    rw [address]
    exact memcpy_spec (Or.inr apart)
  have shrunk :
      h.Became ((h.memcpy p (c.Array_get (-1)) c.elementSize).set a
        { c with length := c.length - 1 })
      a c { c with length := c.length - 1 } _ [] :=
    sound.shrunk there (Nat.sub_le _ _) rfl
      (fun b d there' y inside => by
        show (h.memcpy p (c.Array_get (-1)) c.elementSize).mem y = h.mem y
        rw [copied]
        exact if_neg (outside b d there' y inside))
      (List.append_nil _).symm
  have nonempty : c.length ≠ 0 := by omega
  refine ⟨x, _, _, last, ?_, ?_, shrunk.as take_dropLast, ?_⟩
  · simp only [Kernel.Array_popGetEle, there, if_neg nonempty]
  · simp [Userland.Array_popGetEle, there, nonempty]
  · rw [Heap.pointee, shrunk.there, Option.bind_some, Heap.eleAt, if_neg some_p, ← ele,
      address, Heap.eleAt,
      if_neg (by rw [← address]; intro null; rw [Heap.eleAt, if_pos null] at ele; cases ele)]
    congr 1
    apply readBytes_carried
    intro k (lt : k < c.elementSize)
    rw [address] at copied
    show (h.memcpy p (c.eleAddr (c.length - 1)) c.elementSize).mem (p + k) = _
    rw [copied, moved, if_pos ⟨by omega, by omega⟩, Nat.add_sub_cancel_left]

/-- Clearing empties the list and frees every element. -/
theorem Array_clear_became (sound : h.Sound) (there : h.arrays a = some c)
    (small : c.length < 2 ^ 31) :
    ∃ h' c', Kernel.Array_clear h a = (h', true) ∧ Userland.Array_clear h a = some h' ∧
      h.Became h' a c c' [] (passed c (h.toList c)) := by
  have eles := eles_range (h := h) (sound.stored a c there) small 0 (n := c.length) (by omega)
  rw [Nat.zero_add, List.drop_zero, List.drop_zero, List.take_of_length_le (by simp)] at eles
  have freed := freeEles_became _ _ sound there eles
  have shrunk : (h.freeEles c _).Became ((h.freeEles c _).set a { c with length := 0 }) a c
      { c with length := 0 } _ [] :=
    freed.sound.shrunk freed.there (Nat.zero_le _) rfl (fun _ _ _ _ _ => rfl)
      (List.append_nil _).symm
  have both := freed.trans shrunk
  rw [List.take_zero, List.append_nil] at both
  refine ⟨_, _, ?_, ?_, both⟩
  · simp only [Kernel.Array_clear, there]
  · simp [Userland.Array_clear, there]

/-! ### Replacing and removing elements -/

/-- What `Array_setn` does within the length. -/
theorem copynEleAt_became {i : Nat} {xs : List Ele} (sound : h.Sound) (there : h.arrays a = some c)
    (le : i + xs.length ≤ c.length) (eles : elements h.mem c.elementSize p xs.length = xs)
    (forward : c.eleAddr i ≤ p ∨
      Apart (c.eleAddr i) (c.elementSize * xs.length) p (c.elementSize * xs.length)) :
    h.Became (h.copynEleAt c i p xs.length) a c c
      ((h.toList c).take i ++ xs ++ (h.toList c).drop (i + xs.length)) [] := by
  have room := (sound.stored a c there).room
  have wrote := sound.wrote (p := p) there i c.length (by omega) (by omega)
    (Or.inr ⟨le, Nat.le_refl _⟩) forward
  have same : (h.copynEleAt c i p xs.length).set a { c with length := c.length } =
      h.copynEleAt c i p xs.length := by
    show Heap.mk _ _ _ _ = Heap.mk _ _ _ _
    congr 1
    exact Function.update_eq_self_iff.mpr there.symm
  have whole : (h.toList c).take c.length = h.toList c := List.take_of_length_le (by simp)
  rw [same, eles, whole] at wrote
  exact wrote

/-- Within the length, the elements take the places of those they replace. -/
theorem Array_setn_became {idx : Int} {i : Nat} {xs : List Ele} {free : Bool} (sound : h.Sound)
    (there : h.arrays a = some c) (small : c.length < 2 ^ 31)
    (real : Lists.realIdx c.length idx = some i) (given : (Op.setn idx xs free).Given h block p c) :
    (∃ h', Kernel.Array_setn h block a idx p xs.length = (h', true) ∧
      h.Became h' a c c ((h.toList c).take i ++ xs ++ (h.toList c).drop (i + xs.length))
        (passed c (((h.toList c).drop i).take xs.length))) ∧
    ∃ h', Userland.Array_setn h block a idx p xs.length free = some h' ∧
      h.Became h' a c c ((h.toList c).take i ++ xs ++ (h.toList c).drop (i + xs.length))
        (passed c (if free then ((h.toList c).drop i).take xs.length else [])) := by
  obtain ⟨eles, outside, within⟩ := given
  have le := within i real
  have fits : ¬ xs.length > c.length - i := by omega
  have room := (sound.stored a c there).room
  have apart : Apart (c.eleAddr i) (c.elementSize * xs.length) p (c.elementSize * xs.length) :=
    fun x inside other => outside x (inside_storage i (by omega) inside) other
  have freed :=
    freeEles_became _ _ sound there (eles_range (h := h) (sound.stored a c there) small i le)
  have same :
      elements (h.freeEles c (((indices (i + xs.length)).drop i).map fun i : Nat => (i : Int))).mem
      c.elementSize p xs.length = xs := by
    rw [freeEles_eq]
    exact eles
  have wrote := freed.trans (copynEleAt_became freed.sound freed.there le same (Or.inr apart))
  rw [freed.list, List.append_nil] at wrote
  constructor
  · refine ⟨_, ?_, wrote⟩
    simp only [Kernel.Array_setn, there, toRealIdx_eq, real, if_neg fits]
  · by_cases none : xs.length ≤ 0
    · obtain rfl : xs = [] := List.length_eq_zero_iff.mp (Nat.le_zero.mp none)
      have kept := freeEles_became [] [] sound there rfl
      refine ⟨h, ?_, ?_⟩
      · simp [Userland.Array_setn, there, toRealIdx_eq, real]
      · have unchanged : h.freeEles c [] = h := by
          rw [freeEles_eq]
          simp
        rw [unchanged] at kept
        simpa using kept
    · cases free with
      | true =>
          refine ⟨_, ?_, wrote⟩
          simp only [Userland.Array_setn, there, toRealIdx_eq, real, if_neg none,
            if_neg fits, if_true, Option.bind_eq_bind, Option.bind_some]
          rfl
      | false =>
          rw [if_neg Bool.false_ne_true, passed_nil]
          refine ⟨_, ?_, copynEleAt_became sound there le eles (Or.inr apart)⟩
          simp only [Userland.Array_setn, there, toRealIdx_eq, real, if_neg none, if_neg fits,
            Option.bind_eq_bind, Option.bind_some]
          rfl

/-- The elements behind the removed one move down by one. -/
theorem Array_remove_became (block : Nat) {idx : Int} {i : Nat} (sound : h.Sound)
    (there : h.arrays a = some c)
    (small : c.length < 2 ^ 31) (real : Lists.realIdx c.length idx = some i) :
    ∃ h' c', Userland.Array_remove h block a idx = some h' ∧
      h.Became h' a c c' ((h.toList c).eraseIdx i) (passed c ((h.toList c)[i]?).toList) := by
  have stored := sound.stored a c there
  have room := stored.room
  have lt := realIdx_lt real
  by_cases last : i = c.length - 1
  · obtain ⟨x, h', c', is_last, -, popped, became⟩ := Array_pop_became sound there (by omega)
    rw [List.getLast?_eq_getElem?, toList_length, ← last] at is_last
    refine ⟨h', c', ?_, ?_⟩
    · simp only [Userland.Array_remove, there, toRealIdx_eq, real, if_pos last, popped,
        Option.bind_eq_bind, Option.bind_some]
    · rw [is_last]
      apply became.as
      rw [List.eraseIdx_eq_take_drop_succ, List.drop_eq_nil_of_le (by rw [toList_length]; omega),
        List.append_nil, ← take_dropLast, last]
  · obtain ⟨n, more⟩ : ∃ n, c.length = i + 1 + n := Nat.exists_eq_add_of_le lt
    have ele : h.eleAt c (c.Array_get i) = (h.toList c)[i]? := by
      rw [eleAt_get stored, realIdx_natCast lt]
      rfl
    obtain ⟨x, is_x⟩ : ∃ x, (h.toList c)[i]? = some x :=
      ⟨_, List.getElem?_eq_getElem (by simpa using lt)⟩
    have freed := freeEles_became [(i : Int)] [x] sound there
      (by rw [List.map_singleton, ele, is_x]; rfl)
    have wrote := freed.sound.wrote (p := c.eleAddr (i + 1)) (n := n) freed.there i (c.length - 1)
      (by omega) (by omega) (Or.inl (by omega))
      (Or.inl (Nat.add_le_add_left (Nat.mul_le_mul_left _ (Nat.le_succ i)) _))
    have both := freed.trans wrote
    have moved_down : elements (h.freeEles c [(i : Int)]).mem c.elementSize (c.eleAddr (i + 1)) n =
        (h.toList c).drop (i + 1) := by
      rw [freeEles_eq, Heap.toList, elements_drop (by omega), ArrayCDT.eleAddr]
      congr 1
      omega
    have end_eq : i + n = c.length - 1 := by omega
    have nothing : ((h.toList c).take (c.length - 1)).drop (c.length - 1) = [] :=
      List.drop_eq_nil_of_le (by rw [List.length_take]; omega)
    rw [freed.list, moved_down, end_eq, nothing, List.append_nil, List.append_nil,
      ← List.eraseIdx_eq_take_drop_succ] at both
    have count : int32 (c.length - (i + 1)) = n := by
      rw [int32, if_pos (by omega)]
      omega
    have some_n : ¬ n ≤ 0 := by omega
    have fits : ¬ n > c.length - i := by omega
    have real' : c.toRealIdx i = some i := by rw [toRealIdx_eq, realIdx_natCast lt]
    have set :
        Userland.Array_setn (h.freeEles c [(i : Int)]) block a i (c.eleAddr (i + 1)) n false =
        some ((h.freeEles c [(i : Int)]).copynEleAt c i (c.eleAddr (i + 1)) n) := by
      simp only [Userland.Array_setn, freed.there, real', if_neg some_n, if_neg fits,
        Option.bind_eq_bind, Option.bind_some]
      rfl
    have there' : ((h.freeEles c [(i : Int)]).copynEleAt c i (c.eleAddr (i + 1)) n).arrays a =
      some c := freed.there
    rw [is_x]
    refine ⟨_, _, ?_, both⟩
    simp only [Userland.Array_remove, there, toRealIdx_eq, real, if_neg last, count, set, there',
      Option.bind_eq_bind, Option.bind_some]
    rfl

/-! ### Searching -/

theorem find?_range {α : Type} (xs : List α) (P : Option α → Bool) :
    ((List.range xs.length).find? fun i => P xs[i]?) = xs.findIdx? fun x => P (some x) := by
  cases result : xs.findIdx? fun x => P (some x) with
  | none =>
      rw [List.find?_range_eq_none]
      intro i lt
      rw [List.getElem?_eq_getElem lt]
      simpa using List.findIdx?_eq_none_iff.mp result xs[i] (List.getElem_mem lt)
  | some i =>
      obtain ⟨lt, here, before⟩ := List.findIdx?_eq_some_iff_getElem.mp result
      rw [List.find?_range_eq_some]
      refine ⟨by rwa [List.getElem?_eq_getElem lt], List.mem_range.mpr lt, fun j less => ?_⟩
      rw [List.getElem?_eq_getElem (Nat.lt_trans less lt)]
      simpa using before j less

/-- `Array_find` finds the first element that compares as zero. -/
theorem Array_find_eq {x : Ele} (sound : h.Sound) (there : h.arrays a = some c)
    (small : c.length < 2 ^ 31)
    (given : (Op.find x).Given h block p c) : Userland.Array_find h a p =
      c.cmpEleFn.map fun cmp =>
        found ((h.toList c).findIdx? fun y => cmp (some x) (some y) = 0) := by
  obtain ⟨some_p, read⟩ := given
  have ele : h.eleAt c p = some x := by rw [Heap.eleAt, if_neg some_p, read]
  have all : indices c.length = List.range (h.toList c).length := by
    rw [toList_length, indices, Nat.min_eq_left (by omega)]
  have each : ∀ i ∈ indices c.length, h.eleAt c (c.Array_get i) = (h.toList c)[i]? := by
    intro i inside
    have lt : i < c.length := by
      have := List.mem_range.mp inside
      omega
    rw [eleAt_get (sound.stored a c there), realIdx_natCast lt]
    rfl
  simp only [Userland.Array_find, there, Option.bind_eq_bind, Option.bind_some, ele]
  cases c.cmpEleFn with
  | none => rfl
  | some cmp =>
      show some (found _) = some (found _)
      congr 2
      rw [← find?_range (h.toList c) fun y => decide (cmp (some x) y = 0), ← all]
      apply List.find?_congr
      intro i inside
      rw [each i inside]

/-! ### One operation -/

/-- On lists, this is one array replaced and its elements freed, -/
theorem Heap.Became.lists_put (sound : h.Sound)
    (became : h.Became h' a c c' list (passed c dropped)) :
    h'.lists = h.lists.put a (h.toListArray c) list dropped := by
  have arrays : h'.lists.arrays = (h.lists.put a (h.toListArray c) list dropped).arrays := by
    funext b
    show (h'.arrays b).map h'.toListArray = Function.update h.lists.arrays a _ b
    rw [became.arrays]
    by_cases same : b = a
    · rw [same, Function.update_self, Function.update_self, Option.map_some, Heap.toListArray,
        became.list, became.elementSize, became.freeEleFn, became.cmpEleFn]
      rfl
    · rw [Function.update_of_ne same, Function.update_of_ne same]
      show _ = (h.arrays b).map h.toListArray
      cases other : h.arrays b with
      | none => rfl
      | some d =>
          have kept : h'.toList d = h.toList d := by
            apply elements_same
            intro x inside
            exact became.elsewhere b d same other x
              (list_inside (sound.stored b d other).room inside)
          rw [Option.map_some, Option.map_some, Heap.toListArray, Heap.toListArray, kept]
  have freed : h'.lists.freed = (h.lists.put a (h.toListArray c) list dropped).freed := by
    show h'.freed = if c.freeEleFn then h.freed ++ dropped.map some else h.freed
    rw [became.freed, passed]
    split_ifs
    · rfl
    · exact List.append_nil _
  show Lists.mk _ _ = Lists.mk _ _
  exact congr (congrArg Lists.mk arrays) freed

/-- Arrays do what lists do. -/
def Simulates (arrays : Option (Heap × Result)) (lists : Option (Lists × Result)) : Prop :=
  arrays.map (fun out => (out.1.lists, out.2)) = lists ∧ ∀ h' result, arrays = some (h', result) →
    h'.Sound

/-- so such an operation simulates the one on lists. -/
theorem Heap.Became.simulates (sound : h.Sound)
    (became : h.Became h' a c c' list (passed c dropped)) (result : Result) :
    Simulates (some (h', result))
      (some (h.lists.put a (h.toListArray c) list dropped, result)) := by
  constructor
  · rw [Option.map_some, became.lists_put sound]
  · rintro _ _ ⟨⟩
    exact became.sound

/-- So does one that only reads, -/
theorem simulates_same (sound : h.Sound) (result : Result) :
    Simulates (some (h, result)) (some (h.lists, result)) := by
  constructor
  · rfl
  · rintro _ _ ⟨⟩
    exact sound

/-- or one that ends the program on both sides. -/
theorem simulates_exit : Simulates none none := ⟨rfl, fun _ _ h => by cases h⟩

/-- Each operation simulates its own on lists. -/
theorem setn_simulates {v : Version} {idx : Int} {xs : List Ele} {free : Bool} (sound : h.Sound)
    (there : h.arrays a = some c) (small : c.length < 2 ^ 31)
    (given : (Op.setn idx xs free).Given h block p c) :
    Simulates (h.perform v block p a (.setn idx xs free))
      (h.lists.perform v a (h.toListArray c) (.setn idx xs free)) := by
  have length : (h.toListArray c).list.length = c.length := toList_length
  cases real : Lists.realIdx c.length idx with
  | none =>
      simp only [Lists.perform, Lists.setn, length, real]
      cases v with
      | kernel =>
          have rejected : Kernel.Array_setn h block a idx p xs.length = (h, false) := by
            simp only [Kernel.Array_setn, there, toRealIdx_eq, real]
          simp only [Heap.perform, rejected]
          exact simulates_same sound _
      | userland =>
          have rejected : Userland.Array_setn h block a idx p xs.length free = none := by
            simp only [Userland.Array_setn, there, toRealIdx_eq, real, Option.bind_eq_bind,
              Option.bind_some, Option.bind_none]
          simp only [Heap.perform, rejected]
          exact simulates_exit
  | some i =>
      obtain ⟨⟨k, kernel, became⟩, u, userland, became'⟩ :=
        Array_setn_became sound there small real given
      simp only [Lists.perform, Lists.setn, length, real]
      cases v with
      | kernel =>
          simp only [Heap.perform, kernel]
          exact became.simulates sound _
      | userland =>
          simp only [Heap.perform, userland]
          exact became'.simulates sound _

theorem toListArray_empty (none : c.length = 0) : (h.toListArray c).list.getLast? = .none := by
  rw [List.getLast?_eq_none_iff, ← List.length_eq_zero_iff]
  exact toList_length.trans none

theorem push_simulates {v : Version} {x : Ele} (sound : h.Sound) (there : h.arrays a = some c)
    (served : (Op.push x).Served h block c) (given : (Op.push x).Given h block p c) :
    Simulates (h.perform v block p a (.push x))
      (h.lists.perform v a (h.toListArray c) (.push x)) := by
  have length : (h.toListArray c).list.length = c.length := toList_length
  obtain ⟨h', c', kernel, userland, became⟩ := Array_push_became sound there served given
  have put := became.as rfl
  rw [← passed_nil (c := c)] at put
  cases v with
  | kernel =>
      simp only [Heap.perform, kernel, Lists.perform, length]
      exact put.simulates sound _
  | userland =>
      simp only [Heap.perform, userland, Lists.perform]
      exact put.simulates sound _

theorem popGetEle_simulates {v : Version} (sound : h.Sound) (there : h.arrays a = some c)
    (given : Op.popGetEle.Given h block p c) :
    Simulates (h.perform v block p a .popGetEle)
      (h.lists.perform v a (h.toListArray c) .popGetEle) := by
  by_cases none : c.length = 0
  · have kernel : Kernel.Array_popGetEle h a p = (h, false) := by
      simp only [Kernel.Array_popGetEle, there, if_pos none]
    have userland : Userland.Array_popGetEle h a p = some (h, false) := by
      simp [Userland.Array_popGetEle, there, none]
    simp only [Lists.perform, toListArray_empty none]
    cases v with
    | kernel =>
        simp only [Heap.perform, kernel]
        exact simulates_same sound _
    | userland =>
        simp only [Heap.perform, userland]
        exact simulates_same sound _
  · obtain ⟨x, h', c', last, kernel, userland, became, got⟩ :=
      Array_popGetEle_became sound there (Nat.pos_of_ne_zero none) given
    have last' : (h.toListArray c).list.getLast? = some x := last
    rw [← passed_nil (c := c)] at became
    simp only [Lists.perform, last']
    cases v with
    | kernel =>
        simp only [Heap.perform, kernel, got, if_true]
        exact became.simulates sound _
    | userland =>
        simp only [Heap.perform, userland, got, if_true, Option.map_some]
        exact became.simulates sound _

theorem pop_simulates {v : Version} (sound : h.Sound) (there : h.arrays a = some c) :
    Simulates (h.perform v block p a .pop) (h.lists.perform v a (h.toListArray c) .pop) := by
  by_cases none : c.length = 0
  · have kernel : Kernel.Array_pop h a = (h, false) := by
      simp only [Kernel.Array_pop, there, if_pos none]
    have userland : Userland.Array_pop h a = some h := by
      simp [Userland.Array_pop, there, none]
    simp only [Lists.perform, toListArray_empty none]
    cases v with
    | kernel =>
        simp only [Heap.perform, kernel]
        exact simulates_same sound _
    | userland =>
        simp only [Heap.perform, userland]
        exact simulates_same sound _
  · obtain ⟨x, h', c', last, kernel, userland, became⟩ :=
      Array_pop_became sound there (Nat.pos_of_ne_zero none)
    have last' : (h.toListArray c).list.getLast? = some x := last
    simp only [Lists.perform, last']
    cases v with
    | kernel =>
        simp only [Heap.perform, kernel]
        exact became.simulates sound _
    | userland =>
        simp only [Heap.perform, userland]
        exact became.simulates sound _

theorem get_simulates {v : Version} {idx : Int} (sound : h.Sound) (there : h.arrays a = some c) :
    Simulates (h.perform v block p a (.get idx))
      (h.lists.perform v a (h.toListArray c) (.get idx)) := by
  have stored := sound.stored a c there
  have length : (h.toListArray c).list.length = c.length := toList_length
  have got : h.pointee a (c.Array_get idx) =
      (Lists.realIdx c.length idx).bind fun i => (h.toListArray c).list[i]? := by
    rw [Heap.pointee, there, Option.bind_some, eleAt_get stored]
    rfl
  simp only [Lists.perform, length, ← got]
  cases v with
  | kernel =>
      simp only [Heap.perform, Kernel.Array_get, there]
      exact simulates_same sound _
  | userland =>
      simp only [Heap.perform, Userland.Array_get, there]
      exact simulates_same sound _

theorem set_simulates {v : Version} {idx : Int} {x : Ele} (sound : h.Sound)
    (there : h.arrays a = some c) (small_c : c.length < 2 ^ 31)
    (given : (Op.set idx x).Given h block p c) :
    Simulates (h.perform v block p a (.set idx x))
      (h.lists.perform v a (h.toListArray c) (.set idx x)) := by
  obtain ⟨read, outside⟩ := given
  have one : (Op.setn idx [x] true).Given h block p c := by
    refine ⟨?_, ?_, fun i real => realIdx_lt real⟩
    · rw [List.length_singleton, elements_one, read]
    · rwa [List.length_singleton, Nat.mul_one]
  have simulates := setn_simulates (v := v) sound there small_c one
  cases v with
  | kernel => exact simulates
  | userland => exact simulates

theorem clear_simulates {v : Version} (sound : h.Sound) (there : h.arrays a = some c)
    (small_c : c.length < 2 ^ 31) :
    Simulates (h.perform v block p a .clear) (h.lists.perform v a (h.toListArray c) .clear) := by
  obtain ⟨h', c', kernel, userland, became⟩ := Array_clear_became sound there small_c
  cases v with
  | kernel =>
      simp only [Heap.perform, kernel, Lists.perform]
      exact became.simulates sound _
  | userland =>
      simp only [Heap.perform, userland, Lists.perform]
      exact became.simulates sound _

theorem concat_simulates {v : Version} {src : Nat} (sound : h.Sound) (there : h.arrays a = some c)
    (small : ∀ b d, h.arrays b = some d → d.length < 2 ^ 31)
    (served : (Op.concat src).Served h block c) :
    Simulates (h.perform v block p a (.concat src))
      (h.lists.perform v a (h.toListArray c) (.concat src)) := by
  have small_c := small a c there
  have listed : h.lists.arrays src = (h.arrays src).map h.toListArray := rfl
  cases source : h.arrays src with
  | none =>
      have kernel : Kernel.Array_concat h block a src = (h, false) := by
        simp only [Kernel.Array_concat, there, source]
      have userland : Userland.Array_concat h block a src = none := by
        simp only [Userland.Array_concat, there, source, Option.bind_eq_bind, Option.bind_some,
          Option.bind_none]
      simp only [Lists.perform, listed, source, Option.map_none]
      cases v with
      | kernel =>
          simp only [Heap.perform, kernel]
          exact simulates_same sound _
      | userland =>
          simp only [Heap.perform, userland]
          exact simulates_exit
  | some s =>
      have elementSize : (h.toListArray c).elementSize ≠ (h.toListArray s).elementSize ↔
          c.elementSize ≠ s.elementSize := Iff.rfl
      simp only [Lists.perform, listed, source, Option.map_some, elementSize]
      by_cases sizes : c.elementSize = s.elementSize
      · have small_s := small src s source
        obtain ⟨h', c', kernel, userland, became⟩ :=
          Array_concat_became sound there source sizes (by unfold word; omega) served
        rw [← passed_nil (c := c)] at became
        rw [if_neg (not_not_intro sizes)]
        cases v with
        | kernel =>
            simp only [Heap.perform, kernel]
            exact became.simulates sound _
        | userland =>
            simp only [Heap.perform, userland]
            exact became.simulates sound _
      · have kernel : Kernel.Array_concat h block a src = (h, false) := by
          simp only [Kernel.Array_concat, there, source, if_pos sizes]
        have userland : Userland.Array_concat h block a src = none := by
          simp [Userland.Array_concat, there, source, sizes]
        rw [if_pos sizes]
        cases v with
        | kernel =>
            simp only [Heap.perform, kernel]
            exact simulates_same sound _
        | userland =>
            simp only [Heap.perform, userland]
            exact simulates_exit

theorem remove_simulates {v : Version} {idx : Int} (sound : h.Sound) (there : h.arrays a = some c)
    (small_c : c.length < 2 ^ 31) (offered : (Op.remove idx).Offered v) :
    Simulates (h.perform v block p a (.remove idx))
      (h.lists.perform v a (h.toListArray c) (.remove idx)) := by
  have length : (h.toListArray c).list.length = c.length := toList_length
  cases v with
  | kernel => exact offered.elim
  | userland =>
      cases real : Lists.realIdx c.length idx with
      | none =>
          have exits : Userland.Array_remove h block a idx = none := by
            simp only [Userland.Array_remove, there, toRealIdx_eq, real, Option.bind_eq_bind,
              Option.bind_some, Option.bind_none]
          simp only [Heap.perform, exits, Lists.perform, length, real]
          exact simulates_exit
      | some i =>
          obtain ⟨h', c', userland, became⟩ := Array_remove_became block sound there small_c real
          simp only [Heap.perform, userland, Lists.perform, length, real]
          exact became.simulates sound _

theorem find_simulates {v : Version} {x : Ele} (sound : h.Sound) (there : h.arrays a = some c)
    (small_c : c.length < 2 ^ 31)
    (offered : (Op.find x).Offered v) (given : (Op.find x).Given h block p c) :
    Simulates (h.perform v block p a (.find x))
      (h.lists.perform v a (h.toListArray c) (.find x)) := by
  cases v with
  | kernel => exact offered.elim
  | userland =>
      simp only [Heap.perform, Array_find_eq sound there small_c given, Lists.perform]
      show Simulates _ (c.cmpEleFn.map _)
      cases c.cmpEleFn with
      | none => exact simulates_exit
      | some cmp => exact simulates_same sound _

/-- The list of an array becomes what the operation makes of it. -/
theorem perform_square {v : Version} {op : Op} (sound : h.Sound) (there : h.arrays a = some c)
    (small : ∀ b d, h.arrays b = some d → d.length < 2 ^ 31) (offered : op.Offered v)
    (served : op.Served h block c) (given : op.Given h block p c) :
    Simulates (h.perform v block p a op) (h.lists.perform v a (h.toListArray c) op) := by
  have small_c := small a c there
  cases op with
  | push x => exact push_simulates sound there served given
  | popGetEle => exact popGetEle_simulates sound there given
  | pop => exact pop_simulates sound there
  | get idx => exact get_simulates sound there
  | set idx x => exact set_simulates sound there small_c given
  | setn idx xs free => exact setn_simulates sound there small_c given
  | clear => exact clear_simulates sound there small_c
  | concat src => exact concat_simulates sound there small served
  | remove idx => exact remove_simulates sound there small_c offered
  | find x => exact find_simulates sound there small_c offered given

end Effects

/-! ### Runs -/

/-- What is done to the arrays, and what comes out of it. -/
inductive Event where
  | initialized (a elementSize : Nat) (freeEleFn : Bool) (cmpEleFn : Option CompareEleFn)
  | performed (a : Nat) (op : Op) (result : Result)

/-- The kernel's arrays have no compare function. -/
def Version.cmpEleFn (cmpEleFn : Option CompareEleFn) : Version → Option CompareEleFn
  | .kernel => none
  | .userland => cmpEleFn

def Heap.newArray (h : Heap) (v : Version) (handle block elementSize initialCapacity : Nat)
    (freeEleFn : Bool) (cmpEleFn : Option CompareEleFn) : Option (Heap × Nat) :=
  match v with
  | .kernel => some (Kernel.Array_initialize h handle block elementSize initialCapacity freeEleFn)
  | .userland =>
      Userland.Array_initialize h handle block elementSize initialCapacity freeEleFn cmpEleFn

/-- The size of the first storage. -/
def initialBytes (elementSize initialCapacity : Nat) : Nat :=
  (if initialCapacity = 0 then 1 else initialCapacity) * elementSize

/-- An operation the array is made for, on arrays shorter than `2^31`, with its argument in
place and memory to be had. -/
structure Admitted (v : Version) (h : Heap) (block p a : Nat) (c : ArrayCDT) (op : Op) : Prop where
  there : h.arrays a = some c
  small : ∀ b d, h.arrays b = some d → d.length < 2 ^ 31
  offered : op.Offered v
  served : op.Served h block c
  given : op.Given h block p c

inductive Run (v : Version) : Heap → List Event → Prop
  | start (mem : Bytes) : Run v ⟨fun _ => none, mem, [], []⟩ []
  | newArray {h h' : Heap} {t : List Event} {handle block elementSize initialCapacity : Nat}
      {freeEleFn : Bool}
      {cmpEleFn : Option CompareEleFn} (before : Run v h t) (new : h.arrays handle = none)
      (granted : h.Granted block (initialBytes elementSize initialCapacity))
      (fits : initialBytes elementSize initialCapacity < word)
      (made : handle ≠ NULL ∧ elementSize ≠ 0)
      (eq : h.newArray v handle block elementSize initialCapacity freeEleFn cmpEleFn =
        some (h', handle)) :
      Run v h' (t ++ [.initialized handle elementSize freeEleFn (v.cmpEleFn cmpEleFn)])
  /-- Memory changes outside the arrays. -/
  | elsewhere {h : Heap} {t : List Event} {mem : Bytes} (before : Run v h t)
      (same : ∀ a c, h.arrays a = some c → ∀ x, InRegion c.array c.bytes x → mem x = h.mem x) :
      Run v { h with mem } t
  | perform {h h' : Heap} {t : List Event} {block p a : Nat} {c : ArrayCDT} {op : Op}
      {result : Result} (before : Run v h t) (admitted : Admitted v h block p a c op)
      (eq : h.perform v block p a op = some (h', result)) : Run v h' (t ++ [.performed a op result])

/-- The same on lists. -/
inductive Lists.Run (v : Version) : Lists → List Event → Prop
  | start : Lists.Run v ⟨fun _ => none, []⟩ []
  | newArray {ls : Lists} {t : List Event} {a elementSize : Nat} {freeEleFn : Bool}
      {cmpEleFn : Option CompareEleFn} (before : Lists.Run v ls t) (new : ls.arrays a = none) :
      Lists.Run v
        { ls with arrays := Function.update ls.arrays a (some ⟨elementSize, freeEleFn, cmpEleFn, []⟩) }
        (t ++ [.initialized a elementSize freeEleFn cmpEleFn])
  | perform {ls ls' : Lists} {t : List Event} {a : Nat} {l : ListArray} {op : Op} {result : Result}
      (before : Lists.Run v ls t) (there : ls.arrays a = some l)
      (eq : ls.perform v a l op = some (ls', result)) :
      Lists.Run v ls' (t ++ [.performed a op result])

section Runs

variable {v : Version} {h : Heap} {t : List Event}

/-- So does every operation a caller may make, -/
theorem Admitted.simulates {block p a : Nat} {c : ArrayCDT} {op : Op}
    (admitted : Admitted v h block p a c op) (sound : h.Sound) :
    Simulates (h.perform v block p a op) (h.lists.perform v a (h.toListArray c) op) :=
  perform_square sound admitted.there admitted.small admitted.offered admitted.served admitted.given

/-- A new array is an empty list. -/
theorem initialized {h' : Heap} {handle block elementSize initialCapacity : Nat} {freeEleFn : Bool}
    {cmpEleFn : Option CompareEleFn} (sound : h.Sound)
    (granted : h.Granted block (initialBytes elementSize initialCapacity))
    (fits : initialBytes elementSize initialCapacity < word)
    (made : handle ≠ NULL ∧ elementSize ≠ 0)
    (eq : h.newArray v handle block elementSize initialCapacity freeEleFn cmpEleFn =
      some (h', handle)) :
    h'.Sound ∧ h'.lists = { h.lists with
      arrays :=
        Function.update h.lists.arrays handle
          (some ⟨elementSize, freeEleFn, v.cmpEleFn cmpEleFn, []⟩) } := by
  obtain ⟨some_handle, some_size⟩ := made
  have set :
      h' = h.set handle ⟨block, elementSize, if initialCapacity = 0 then 1 else initialCapacity, 0,
      freeEleFn, v.cmpEleFn cmpEleFn⟩ := by
    cases v with
    | kernel =>
        simp only [Heap.newArray, Kernel.Array_initialize, if_neg some_size, if_neg some_handle,
          if_neg granted.1, Option.some.injEq, Prod.mk.injEq, and_true] at eq
        exact eq.symm
    | userland =>
        simp only [Heap.newArray, Userland.Array_initialize, if_neg some_size, if_neg some_handle,
          if_neg granted.1, Option.some.injEq, Prod.mk.injEq, and_true] at eq
        exact eq.symm
  subst set
  constructor
  · refine sound.update ⟨granted.1, Nat.pos_of_ne_zero some_size, ?_, Nat.zero_le _,
      fits⟩ fun b d _ there => ?_
    · show 0 < if initialCapacity = 0 then 1 else initialCapacity
      split_ifs with zero
      · exact Nat.one_pos
      · exact Nat.pos_of_ne_zero zero
    · exact granted.2 b d there
  · show Lists.mk (fun a => (Function.update h.arrays handle _ a).map _) _ = Lists.mk _ _
    congr 1
    funext a
    by_cases same : a = handle
    · rw [same, Function.update_self, Function.update_self]
      rfl
    · rw [Function.update_of_ne same, Function.update_of_ne same]
      rfl

/-- `c` at 8 is the only array. -/
def Lone (h : Heap) (c : ArrayCDT) : Prop := ∀ b d, h.arrays b = some d → b = 8 ∧ d = c

theorem Lone.update {c' : ArrayCDT} {mem : Bytes} {written : List (Nat × Nat)}
    {freed : List (Option Ele)}
    (lone : Lone h c) : Lone ⟨Function.update h.arrays 8 (some c'), mem, written, freed⟩ c' := by
  intro b d there
  by_cases same : b = 8
  · rw [same] at there
    have here : some c' = some d := (Function.update_self 8 _ h.arrays).symm.trans there
    exact ⟨same, (Option.some.inj here).symm⟩
  · exact absurd (lone b d ((Function.update_of_ne same _ _).symm.trans there)).1 same

theorem Lone.small (lone : Lone h c) (short : c.length < 2 ^ 31) :
    ∀ b d, h.arrays b = some d → d.length < 2 ^ 31 := by
  intro b d there
  rw [(lone b d there).2]
  exact short

theorem Lone.sound (lone : Lone h c) (stored : c.Stored) : h.Sound := by
  constructor
  · intro b d there
    rw [(lone b d there).2]
    exact stored
  · intro b b' d d' ne there there'
    exact absurd ((lone b d there).1.trans (lone b' d' there').1.symm) ne

theorem empty_lone (mem : Bytes) : Lone (Heap.set ⟨fun _ => none, mem, [], []⟩ 8 c) c := by
  have nothing : Lone ⟨fun _ => none, mem, [], []⟩ c := fun _ _ there => nomatch there
  exact nothing.update

theorem apart_of_le {p n q m : Nat} (le : p + n ≤ q ∨ q + m ≤ p) : Apart p n q m := by
  rintro x ⟨_, _⟩ ⟨_, _⟩
  omega

end Runs

end SoTp.Arrays
