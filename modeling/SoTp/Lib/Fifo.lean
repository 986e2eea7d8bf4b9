/-
A first-in first-out queue as a linked list of cells with a head and a tail
pointer. Popping the last cell sets the head to NULL and leaves the tail where it
was, so the tail means something only while the queue is not empty. A `Fifo`
carries the proof that its cells are linked properly; `toList` reads it off, and
`push` and `pop` are the list operations one expects:

* `toList_empty`, `toList_push`;
* `pop_eq_none_iff`, `toList_of_pop`.
-/

import Mathlib.Data.List.Nodup
import Mathlib.Data.List.Range
import Mathlib.Data.Finset.Card
import Mathlib.Order.Interval.Finset.Nat
import SoTp.Lib.Segment

namespace SoTp.Lib

variable {α : Type}

/-- The cells of a queue in memory; address 0 is NULL. `fresh` is an address above
all cells in use. -/
structure Cells (α : Type) where
  value : Nat → α
  next : Nat → Nat
  head : Nat
  tail : Nat
  fresh : Nat

namespace Cells

/-- Following `next` from the head visits `cells` and ends at NULL. -/
structure Linked (q : Cells α) (cells : List Nat) : Prop where
  segment : Segment q.next q.head cells 0
  nodup : cells.Nodup
  used : ∀ c ∈ cells, 0 < c ∧ c < q.fresh
  tail : ∀ c ∈ cells.getLast?, c = q.tail
  fresh : 0 < q.fresh

/-- Values met on a walk to NULL. -/
def walk (next : Nat → Nat) (value : Nat → α) : Nat → Nat → List α
  | 0, _ => []
  | fuel + 1, a => if a = 0 then [] else value a :: walk next value fuel (next a)

/-- Walking along the cells reads their values. -/
theorem walk_segment {next : Nat → Nat} {value : Nat → α} {cells : List Nat} {fuel a : Nat}
    (segment : Segment next a cells 0) (used : ∀ c ∈ cells, c ≠ 0)
    (enough : cells.length ≤ fuel) : walk next value fuel a = cells.map value := by
  induction cells generalizing fuel a with
  | nil =>
      cases fuel with
      | zero => rfl
      | succ fuel => rw [segment_nil.mp segment]; rfl
  | cons c cs ih =>
      obtain ⟨rfl, segment⟩ := segment
      cases fuel with
      | zero => simp at enough
      | succ fuel =>
          have rest := ih segment (fun d hd => used d (List.mem_cons_of_mem a hd))
            (Nat.le_of_succ_le_succ enough)
          rw [walk, if_neg (used a List.mem_cons_self), rest, List.map_cons]

/-- A new cell at the end. -/
def push (q : Cells α) (x : α) : Cells α :=
  let node := q.fresh
  let q := { q with
    value := Function.update q.value node x
    next := Function.update q.next node 0
    fresh := node + 1 }
  if q.head = 0 then { q with head := node, tail := node }
  else { q with next := Function.update q.next q.tail node, tail := node }

/-- The first cell is taken out. -/
def pop (q : Cells α) : Option (α × Cells α) :=
  if q.head = 0 then none else some (q.value q.head, { q with head := q.next q.head })

/-- There are fewer cells than addresses. -/
theorem Linked.length_le {q : Cells α} {cells : List Nat} (h : q.Linked cells) :
    cells.length ≤ q.fresh := by
  have sub : cells.toFinset ⊆ Finset.range q.fresh := fun c hc =>
    Finset.mem_range.mpr (h.used c (List.mem_toFinset.mp hc)).2
  have card := Finset.card_le_card sub
  rwa [List.toFinset_card_of_nodup h.nodup, Finset.card_range] at card

/-- The head is NULL exactly when there are none. -/
theorem Linked.head_eq_zero {q : Cells α} {cells : List Nat} (h : q.Linked cells) :
    q.head = 0 ↔ cells = [] := by
  cases cells with
  | nil => simpa using h.segment
  | cons c cs =>
      have := (h.used c List.mem_cons_self).1
      have := h.segment.1
      simp only [reduceCtorEq, iff_false]
      omega

/-- A push links a fresh cell behind the others, -/
theorem Linked.push {q : Cells α} {cells : List Nat} (h : q.Linked cells) (x : α) :
    (q.push x).Linked (cells ++ [q.fresh]) := by
  have fresh : q.fresh ∉ cells := fun mem => Nat.lt_irrefl _ (h.used _ mem).2
  have nodup : (cells ++ [q.fresh]).Nodup := by
    rw [List.nodup_append]
    refine ⟨h.nodup, List.nodup_singleton _, fun a ha b hb e => fresh ?_⟩
    rwa [← List.mem_singleton.mp hb, ← e]
  have used : ∀ c ∈ cells ++ [q.fresh], 0 < c ∧ c < q.fresh + 1 := fun c hc => by
    rcases List.mem_append.mp hc with hc | hc
    · have := h.used c hc
      omega
    · have := h.fresh
      rw [List.mem_singleton] at hc
      omega
  unfold Cells.push
  by_cases empty : q.head = 0
  · obtain rfl := h.head_eq_zero.mp empty
    simp only [empty, if_true]
    exact ⟨by simp, nodup, used, by simp, Nat.succ_pos _⟩
  · simp only [empty, if_false]
    refine ⟨?_, nodup, used, by simp, Nat.succ_pos _⟩
    rcases List.eq_nil_or_concat cells with rfl | ⟨front, last, rfl⟩
    · exact absurd (h.head_eq_zero.mpr rfl) empty
    · have tail : last = q.tail := h.tail last (by simp)
      subst tail
      have ne : q.fresh ≠ q.tail := fun e => fresh (by simp [e])
      have once : q.tail ∉ front := by
        have := h.nodup
        rw [List.concat_eq_append, List.nodup_append] at this
        exact fun mem => this.2.2 _ mem _ (List.mem_singleton_self _) rfl
      rw [List.concat_eq_append, segment_concat]
      have walked := List.concat_eq_append ▸ h.segment
      refine ⟨segment_relink ((segment_update (by simpa using fresh)).mpr walked) once, ?_⟩
      · change Function.update (Function.update q.next q.fresh 0) q.tail q.fresh q.fresh = 0
        rw [Function.update_of_ne ne, Function.update_self]

/-- and a pop takes the first one out. -/
theorem Linked.pop {q q' : Cells α} {x : α} {cells : List Nat} (h : q.Linked cells)
    (taken : q.pop = some (x, q')) :
    ∃ c cs, cells = c :: cs ∧ x = q.value c ∧ q'.value = q.value ∧ q'.Linked cs := by
  unfold Cells.pop at taken
  split_ifs at taken with empty
  cases taken
  cases cells with
  | nil => exact absurd (h.head_eq_zero.mpr rfl) empty
  | cons c cs =>
      obtain ⟨rfl, segment⟩ := h.segment
      refine ⟨q.head, cs, rfl, rfl, rfl, segment, (List.nodup_cons.mp h.nodup).2,
        fun d hd => h.used d (List.mem_cons_of_mem _ hd), fun d hd => h.tail d ?_, h.fresh⟩
      cases cs with
      | nil => cases hd
      | cons e es => simpa [List.getLast?_cons_cons] using hd

end Cells

/-- A queue whose cells are linked properly. -/
structure Fifo (α : Type) extends Cells α where
  linked : ∃ cells, toCells.Linked cells

namespace Fifo

/-- The values in the queue, the next one to leave first. -/
def toList (q : Fifo α) : List α := Cells.walk q.next q.value q.fresh q.head

def empty [Inhabited α] : Fifo α where
  value := fun _ => default
  next := fun _ => 0
  head := 0
  tail := 0
  fresh := 1
  linked := ⟨[], ⟨rfl, List.nodup_nil, by simp, by simp, Nat.one_pos⟩⟩

def push (q : Fifo α) (x : α) : Fifo α where
  toCells := q.toCells.push x
  linked := q.linked.elim fun _ h => ⟨_, h.push x⟩

def pop (q : Fifo α) : Option (α × Fifo α) :=
  match taken : q.toCells.pop with
  | none => none
  | some (x, q') => some (x, ⟨q', q.linked.elim fun _ h =>
      let ⟨_, cs, _, _, _, h'⟩ := h.pop taken
      ⟨cs, h'⟩⟩)

/-- The list is that of the values of the cells. -/
theorem toList_eq (q : Fifo α) {cells : List Nat} (h : q.toCells.Linked cells) :
    q.toList = cells.map q.value :=
  Cells.walk_segment h.segment (fun c hc => (h.used c hc).1.ne') h.length_le

@[simp] theorem toList_empty [Inhabited α] : (empty : Fifo α).toList = [] := rfl

@[simp] theorem toList_push (q : Fifo α) (x : α) : (q.push x).toList = q.toList ++ [x] := by
  obtain ⟨cells, h⟩ := q.linked
  have fresh : ∀ c ∈ cells, c ≠ q.fresh := fun c hc => (h.used c hc).2.ne
  have value : (q.push x).value = Function.update q.value q.fresh x := by
    change (q.toCells.push x).value = _
    simp only [Cells.push]
    split_ifs <;> rfl
  rw [(q.push x).toList_eq (h.push x), q.toList_eq h, List.map_append, value]
  congr 1
  · exact List.map_congr_left fun c hc => Function.update_of_ne (fresh c hc) _ _
  · simp

/-- Nothing is popped exactly when the list is empty, -/
theorem pop_eq_none_iff {q : Fifo α} : q.pop = none ↔ q.toList = [] := by
  obtain ⟨cells, h⟩ := q.linked
  rw [q.toList_eq h, List.map_eq_nil_iff, ← h.head_eq_zero]
  unfold pop
  split
  · rename_i taken
    unfold Cells.pop at taken
    split_ifs at taken with e
    simp [e]
  · rename_i taken
    unfold Cells.pop at taken
    split_ifs at taken with e
    simp [e]

/-- and otherwise its first element is. -/
theorem toList_of_pop {q q' : Fifo α} {x : α} (taken : q.pop = some (x, q')) :
    q.toList = x :: q'.toList := by
  obtain ⟨cells, h⟩ := q.linked
  unfold pop at taken
  split at taken
  · cases taken
  · rename_i taken'
    cases taken
    obtain ⟨c, cs, rfl, rfl, value, h'⟩ := h.pop taken'
    rw [q.toList_eq h, toList_eq ⟨_, _, h'⟩ h', value, List.map_cons]

end Fifo

end SoTp.Lib
