/-
The storage of arrays. An array's elements lie in a block of its own, which growing moves.

* `Sound.grown`, `Sound.wrote`, `Sound.shrunk` — what moving the elements, writing some, and
  forgetting the last ones do to the list in memory. The other arrays stay as they are.
-/

import SoTp.Arrays.Basic

namespace SoTp.Arrays

open SoTp.Lib Heap
open SoTp.Modules (Apart moved memcpy_spec)

namespace ArrayCDT

/-- The size of the storage. -/
def bytes (c : ArrayCDT) : Nat := c.capacity * c.elementSize

/-- The array is as `Array_initialize` leaves it, or an operation. -/
structure Stored (c : ArrayCDT) : Prop where
  placed : c.array ≠ NULL
  size : 0 < c.elementSize
  nonempty : 0 < c.capacity
  room : c.length ≤ c.capacity
  fits : c.bytes < word

end ArrayCDT

namespace Heap

/-- The storages do not overlap. -/
structure Sound (h : Heap) : Prop where
  stored : ∀ a c, h.arrays a = some c → c.Stored
  apart : ∀ a b c d, a ≠ b → h.arrays a = some c → h.arrays b = some d →
    Apart c.array c.bytes d.array d.bytes

/-- What `globalMalloc` and `sysMalloc` promise: the block is nobody's. -/
def Granted (h : Heap) (block size : Nat) : Prop :=
  block ≠ NULL ∧ ∀ a c, h.arrays a = some c → Apart block size c.array c.bytes

def toList (h : Heap) (c : ArrayCDT) : List Ele := elements h.mem c.elementSize c.array c.length

/-- Memory is the same in the other arrays' storages. -/
def Elsewhere (h : Heap) (mem : Bytes) (a : Nat) : Prop :=
  ∀ b d, b ≠ a → h.arrays b = some d → ∀ x, InRegion d.array d.bytes x → mem x = h.mem x

/-- The array at `a` has become another one with a list, and elements were passed to
`freeEleFn`. -/
structure Became (h h' : Heap) (a : Nat) (c c' : ArrayCDT) (list : List Ele)
    (dropped : List (Option Ele)) : Prop where
  arrays : h'.arrays = Function.update h.arrays a (some c')
  elementSize : c'.elementSize = c.elementSize
  freeEleFn : c'.freeEleFn = c.freeEleFn
  cmpEleFn : c'.cmpEleFn = c.cmpEleFn
  elsewhere : h.Elsewhere h'.mem a
  list : h'.toList c' = list
  freed : h'.freed = h.freed ++ dropped
  sound : h'.Sound

section Storage

variable {h h' : Heap} {a block p n : Nat} {c c' c'' : ArrayCDT} {list list' : List Ele}
  {dropped dropped' : List (Option Ele)}

@[simp] theorem toList_length : (h.toList c).length = c.length := elements_length

/-- The array is in the heap that became, -/
theorem Became.there (became : h.Became h' a c c' list dropped) : h'.arrays a = some c' := by
  rw [became.arrays, Function.update_self]

theorem Became.as (became : h.Became h' a c c' list dropped) (eq : list = list') :
    h.Became h' a c c' list' dropped := eq ▸ became

/-- and what becomes of that one has become of the first. -/
theorem Became.trans {h'' : Heap} (first : h.Became h' a c c' list dropped)
    (second : h'.Became h'' a c' c'' list' dropped') :
      h.Became h'' a c c'' list' (dropped ++ dropped') where
  arrays := by rw [second.arrays, first.arrays, Function.update_idem]
  elementSize := second.elementSize.trans first.elementSize
  freeEleFn := second.freeEleFn.trans first.freeEleFn
  cmpEleFn := second.cmpEleFn.trans first.cmpEleFn
  elsewhere := by
    intro b d ne there x inside
    have there' : h'.arrays b = some d := by rw [first.arrays, Function.update_of_ne ne, there]
    rw [second.elsewhere b d ne there' x inside, first.elsewhere b d ne there x inside]
  list := second.list
  freed := by rw [second.freed, first.freed, List.append_assoc]
  sound := second.sound

/-- The storages are apart when the one of the changed array is apart from the others. -/
theorem Sound.update (sound : h.Sound) {mem : Bytes} {written : List (Nat × Nat)}
    {freed : List (Option Ele)}
    (stored : c'.Stored)
    (apart : ∀ b d, b ≠ a → h.arrays b = some d → Apart c'.array c'.bytes d.array d.bytes) :
    Heap.Sound ⟨Function.update h.arrays a (some c'), mem, written, freed⟩ := by
  have cases_at : ∀ b d, Function.update h.arrays a (some c') b = some d →
      (b = a ∧ d = c') ∨ (b ≠ a ∧ h.arrays b = some d) := by
    intro b d there
    by_cases same : b = a
    · rw [same, Function.update_self] at there
      exact Or.inl ⟨same, (Option.some.inj there).symm⟩
    · rw [Function.update_of_ne same] at there
      exact Or.inr ⟨same, there⟩
  constructor
  · intro b d there
    rcases cases_at b d there with ⟨-, rfl⟩ | ⟨-, there⟩
    · exact stored
    · exact sound.stored b d there
  · intro b b' d d' ne there there'
    rcases cases_at b d there with ⟨rfl, rfl⟩ | ⟨ne₁, old⟩
    · rcases cases_at b' d' there' with ⟨rfl, rfl⟩ | ⟨ne₂, old'⟩
      · exact absurd rfl ne
      · exact apart b' d' ne₂ old'
    · rcases cases_at b' d' there' with ⟨rfl, rfl⟩ | ⟨-, old'⟩
      · intro x inside other
        exact apart b d ne₁ old x other inside
      · exact sound.apart b b' d d' ne old old'

/-- Positions up to the capacity lie in the storage. -/
theorem inside_storage (idx : Nat) (le : idx + n ≤ c.capacity) {x : Nat}
    (inside : InRegion (c.eleAddr idx) (c.elementSize * n) x) : InRegion c.array c.bytes x := by
  have room : c.elementSize * idx + c.elementSize * n ≤ c.bytes := by
    rw [← Nat.mul_add, ArrayCDT.bytes, Nat.mul_comm c.capacity]
    exact Nat.mul_le_mul_left _ le
  obtain ⟨ge, lt⟩ := inside
  unfold ArrayCDT.eleAddr at ge lt
  exact ⟨by omega, by omega⟩

theorem list_inside {m : Nat} (le : m ≤ c.capacity) {x : Nat}
    (inside : InRegion c.array (c.elementSize * m) x) : InRegion c.array c.bytes x :=
  inside_storage (n := m) 0 (by omega) inside

/-- The storage is moved to a larger block. -/
theorem Sound.grown (sound : h.Sound) (there : h.arrays a = some c)
    (granted : h.Granted block (n * c.elementSize))
    (more : c.capacity ≤ n) (fits : n * c.elementSize < word) :
    h.Became ((h.memcpy block c.array c.bytes).set a { c with capacity := n, array := block }) a c
      { c with capacity := n, array := block } (h.toList c) [] := by
  have stored := sound.stored a c there
  have le : c.bytes ≤ n * c.elementSize := Nat.mul_le_mul_right _ more
  have apart : Apart block c.bytes c.array c.bytes := by
    intro x inside
    exact granted.2 a c there x ⟨inside.1, by have := inside.2; omega⟩
  have copied : Modules.memcpy h.mem block c.array c.bytes = moved h.mem block c.array c.bytes :=
    memcpy_spec (Or.inr apart)
  constructor
  · rfl
  · rfl
  · rfl
  · rfl
  · intro b d ne there' x inside
    show Modules.memcpy h.mem block c.array c.bytes x = h.mem x
    rw [copied]
    apply if_neg
    intro written
    exact granted.2 b d there' x ⟨written.1, by have := written.2; omega⟩ inside
  · show elements (Modules.memcpy h.mem block c.array c.bytes) c.elementSize block c.length = _
    rw [copied]
    apply elements_carried
    intro k lt
    have room : c.elementSize * c.length ≤ c.bytes := by
      rw [ArrayCDT.bytes, Nat.mul_comm c.capacity]
      exact Nat.mul_le_mul_left _ stored.room
    rw [moved, if_pos ⟨by omega, by omega⟩, Nat.add_sub_cancel_left]
  · exact (List.append_nil _).symm
  · refine sound.update ⟨granted.1, stored.size, ?_, ?_, fits⟩ ?_
    · exact Nat.lt_of_lt_of_le stored.nonempty more
    · exact Nat.le_trans stored.room more
    · intro b d _ there'
      exact granted.2 b d there'

/-- Elements are written from a position on, and the list ends behind them, or where it did
or earlier. -/
theorem Sound.wrote (sound : h.Sound) (there : h.arrays a = some c) (idx m : Nat)
    (le : idx ≤ c.length)
    (room : idx + n ≤ c.capacity) (ends : idx + n = m ∨ (idx + n ≤ m ∧ m ≤ c.length))
    (forward : c.eleAddr idx ≤ p ∨
      Apart (c.eleAddr idx) (c.elementSize * n) p (c.elementSize * n)) :
    h.Became ((h.copynEleAt c idx p n).set a { c with length := m }) a c { c with length := m }
      ((h.toList c).take idx ++ elements h.mem c.elementSize p n ++ ((h.toList c).take m).drop
        (idx + n)) [] := by
  have stored := sound.stored a c there
  have copied : (h.copynEleAt c idx p n).mem = moved h.mem (c.eleAddr idx) p (c.elementSize * n) :=
    memcpy_spec forward
  constructor
  · rfl
  · rfl
  · rfl
  · rfl
  · intro b d ne there' x inside
    show (h.copynEleAt c idx p n).mem x = h.mem x
    rw [copied]
    apply if_neg
    intro written
    exact sound.apart a b c d (Ne.symm ne) there there' x (inside_storage idx room written) inside
  · show elements (h.copynEleAt c idx p n).mem c.elementSize c.array m = _
    have before : elements (h.copynEleAt c idx p n).mem c.elementSize c.array idx =
        (h.toList c).take idx := by
      rw [toList, elements_take le, copied]
      apply elements_same
      intro x inside
      apply if_neg
      intro written
      have := inside.2
      have := written.1
      unfold ArrayCDT.eleAddr at this
      omega
    have new : elements (h.copynEleAt c idx p n).mem c.elementSize (c.eleAddr idx) n =
        elements h.mem c.elementSize p n := by
      rw [copied]
      apply elements_carried
      intro k lt
      rw [moved, if_pos ⟨by omega, by omega⟩, Nat.add_sub_cancel_left]
    obtain ⟨rest, rfl⟩ : ∃ rest, m = idx + n + rest := Nat.exists_eq_add_of_le (by omega)
    have after : elements (h.copynEleAt c idx p n).mem c.elementSize
        (c.array + c.elementSize * (idx + n)) rest =
        ((h.toList c).take (idx + n + rest)).drop (idx + n) := by
      rcases ends with same | ⟨-, shorter⟩
      · obtain rfl : rest = 0 := by omega
        exact (List.drop_eq_nil_of_le (by rw [List.length_take]; omega)).symm
      · rw [toList, elements_take shorter, elements_drop (Nat.le_add_right _ _),
          Nat.add_sub_cancel_left, copied]
        apply elements_same
        intro x inside
        apply if_neg
        intro written
        have := inside.1
        have := written.2
        rw [Nat.mul_add] at *
        unfold ArrayCDT.eleAddr at this
        omega
    rw [elements_add, elements_add, before, after]
    congr 2
  · exact (List.append_nil _).symm
  · refine sound.update ⟨stored.placed, stored.size, stored.nonempty, ?_, stored.fits⟩ ?_
    · show m ≤ c.capacity
      have := stored.room
      omega
    · intro b d ne there'
      exact sound.apart a b c d (Ne.symm ne) there there'

/-- Elements copied behind the last one are appended to the list. -/
theorem Sound.appended (sound : h.Sound) (there : h.arrays a = some c)
    (room : c.length + n ≤ c.capacity)
    (apart : Apart c.array c.bytes p (c.elementSize * n) ∨ c.array = p ∧ n = c.length) :
    h.Became ((h.copynEleAt c c.length p n).set a { c with length := c.length + n }) a c
      { c with length := c.length + n } (h.toList c ++ elements h.mem c.elementSize p n) [] := by
  have wrote := sound.wrote (p := p) there c.length (c.length + n) (Nat.le_refl _) room (Or.inl rfl)
    (Or.inr ?_)
  · rw [List.take_of_length_le (by simp), List.drop_eq_nil_of_le (by simp),
      List.append_nil] at wrote
    exact wrote
  · intro x inside other
    rcases apart with apart | ⟨rfl, rfl⟩
    · exact apart x (inside_storage c.length room inside) other
    · have behind := inside.1
      have before := other.2
      unfold ArrayCDT.eleAddr at behind
      omega

/-- Elements at the end are forgotten; memory may change outside the storages. -/
theorem Sound.shrunk (sound : h.Sound) (there : h.arrays a = some c) {m : Nat} (le : m ≤ c.length)
    (arrays : h'.arrays = Function.update h.arrays a (some { c with length := m }))
    (same : ∀ b d, h.arrays b = some d → ∀ x, InRegion d.array d.bytes x → h'.mem x = h.mem x)
    (freed : h'.freed = h.freed ++ dropped) :
    h.Became h' a c { c with length := m } ((h.toList c).take m) dropped := by
  have stored := sound.stored a c there
  constructor
  · exact arrays
  · rfl
  · rfl
  · rfl
  · intro b d _ there'
    exact same b d there'
  · show elements h'.mem c.elementSize c.array m = _
    rw [toList, elements_take le]
    apply elements_same
    intro x inside
    exact same a c there x (list_inside (Nat.le_trans le stored.room) inside)
  · exact freed
  · obtain ⟨arrays', mem, written, freed'⟩ := h'
    obtain rfl : arrays' = _ := arrays
    refine sound.update ⟨stored.placed, stored.size, stored.nonempty, ?_, stored.fits⟩ ?_
    · exact Nat.le_trans le stored.room
    · intro b d ne there'
      exact sound.apart a b c d (Ne.symm ne) there there'

end Storage

end Heap

end SoTp.Arrays
