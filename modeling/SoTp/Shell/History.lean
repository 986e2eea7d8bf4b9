/-
The command history (`Userland/UserModule/c2/circularHistoryBuffer.c`, with what it uses of
`array.c`). The elements lie in an array; `writeIdx` is where the next one goes, and once
the array is full that is the oldest element. `freed` is what was passed to `freeEleFn`
so far; the code does not have it.

A failed check ends the process (`exitWithError`) and is no result here. The array was
allocated for `size` elements, so it does not grow.

* `Represents.record`, `Represents.readPrev`, `Represents.readNext` — one operation on the buffer
  is that
  operation on the list.
* `history_most_recently_used` — so is every sequence of operations.
-/

import SoTp.Lib.Recent

namespace SoTp.Shell

open SoTp.Lib

variable {α : Type}

/-! ### Arrays -/

/-- `Array_setn` from memory outside of the array. The length of the array stays. -/
def Array_setn (a : List α) (idx : Nat) (eleArray : List α) : Option (List α) :=
  if idx ≥ a.length then none
  else some ((a.take idx ++ eleArray ++ a.drop (idx + eleArray.length)).take a.length)

/-- The copy of `n` elements to `idx` from one place further on, element by element. -/
def copyDown : Nat → Nat → List α → Option (List α)
  | 0, _, a => some a
  | n + 1, idx, a => do
      let ele ← a[idx + 1]?
      copyDown n (idx + 1) (a.set idx ele)

/-- `Array_setn(a, idx, eleArr + idx + 1, n, false)`, where `eleArr` is the array itself. -/
def Array_setnFromNext (a : List α) (idx n : Nat) : Option (List α) :=
  if idx ≥ a.length then none else copyDown n idx a

def Array_getnCopy (a : List α) (idx n : Nat) : Option (List α) :=
  if idx ≥ a.length ∨ idx + n > a.length then none else some ((a.drop idx).take n)

/-- `Array_find`: the first element that compares equal. -/
def Array_find (cmp : α → α → Bool) (a : List α) (ele : α) : Option Nat :=
  a.findIdx? fun ele1 => cmp ele ele1

/-! ### The buffer -/

structure CircularHistoryBuffer (α : Type) where
  size : Nat
  readIdx : Nat
  writeIdx : Nat
  toReadBackwards : Nat
  array : List α
  freed : List α

def CHB_initialize (α : Type) (size : Nat) : CircularHistoryBuffer α := ⟨size, 0, 0, 0, [], []⟩

namespace CircularHistoryBuffer

def getIncreasedIdxBy (cb : CircularHistoryBuffer α) (idx val : Nat) : Nat := (idx + val) % cb.size

def getDecreasedIdxBy (cb : CircularHistoryBuffer α) (idx val : Nat) : Nat :=
  let val := val % (cb.array.length + 1)
  if idx < val then idx + (cb.array.length - val) else idx - val

def increaseWriteIdx (cb : CircularHistoryBuffer α) : CircularHistoryBuffer α :=
  { cb with writeIdx := cb.getIncreasedIdxBy cb.writeIdx 1 }

def increaseReadIdx (cb : CircularHistoryBuffer α) : CircularHistoryBuffer α :=
  { cb with readIdx := cb.getIncreasedIdxBy cb.readIdx 1 }

def decreaseReadIdx (cb : CircularHistoryBuffer α) : CircularHistoryBuffer α :=
  { cb with readIdx := cb.getDecreasedIdxBy cb.readIdx 1 }

def CHB_readRest (cb : CircularHistoryBuffer α) : CircularHistoryBuffer α :=
  { cb with readIdx := cb.writeIdx, toReadBackwards := cb.array.length }

/-- `freeEleFn(Array_get(array, idx))`. -/
def free (cb : CircularHistoryBuffer α) (idx : Nat) : CircularHistoryBuffer α :=
  { cb with freed := cb.freed ++ cb.array[idx]?.toList }

def CHB_push (cb : CircularHistoryBuffer α) (ele : α) : Option (CircularHistoryBuffer α) :=
  if cb.array.length < cb.size then
    some (CHB_readRest (increaseWriteIdx { cb with array := cb.array ++ [ele] }))
  else do
    -- `Array_set` frees what it replaces.
    let cb := cb.free cb.writeIdx
    let array ← Array_setn cb.array cb.writeIdx [ele]
    some (CHB_readRest (increaseWriteIdx { cb with array }))

def CHB_readNext (cb : CircularHistoryBuffer α) : Option α × CircularHistoryBuffer α :=
  if cb.toReadBackwards + 1 ≥ cb.array.length then (none, cb)
  else
    let cb := { cb.increaseReadIdx with toReadBackwards := cb.toReadBackwards + 1 }
    (cb.array[cb.readIdx]?, cb)

def CHB_readPrev (cb : CircularHistoryBuffer α) : Option α × CircularHistoryBuffer α :=
  if cb.toReadBackwards = 0 then (none, cb)
  else
    let cb := { cb.decreaseReadIdx with toReadBackwards := cb.toReadBackwards - 1 }
    (cb.array[cb.readIdx]?, cb)

def CHB_moveToFrontOrPush (cmp : α → α → Bool) (cb : CircularHistoryBuffer α) (ele : α) :
    Option (CircularHistoryBuffer α) :=
  match Array_find cmp cb.array ele with
  | none => cb.CHB_push ele
  | some idx =>
      if idx = cb.writeIdx then cb.CHB_push ele
      else do
        let cb := cb.free idx
        if idx < cb.writeIdx then
          let array ← Array_setnFromNext cb.array idx (cb.writeIdx - (idx + 1))
          let array ← Array_setn array (cb.writeIdx - 1) [ele]
          some (CHB_readRest { cb with array })
        else
          let eleArr ← Array_getnCopy cb.array cb.writeIdx (idx - cb.writeIdx)
          let array ← Array_setn cb.array (cb.writeIdx + 1) eleArr
          let array ← Array_setn array cb.writeIdx [ele]
          some (CHB_readRest (increaseWriteIdx { cb with array }))

end CircularHistoryBuffer

/-! ### Segments -/

section Segments

/-- The elements behind the first one move up to it, and the last one stays behind. -/
theorem copyDown_segment (p q r : List α) (x : α) :
    copyDown q.length p.length (p ++ x :: q ++ r) =
      some (p ++ q ++ (x :: q).getLast (List.cons_ne_nil x q) :: r) := by
  induction q generalizing p x with
  | nil => simp [copyDown]
  | cons y q ih =>
      have next : (p ++ x :: y :: q ++ r)[p.length + 1]? = some y := by
        simp
      have moved : (p ++ x :: y :: q ++ r).set p.length y = (p ++ [y]) ++ y :: q ++ r := by
        simp
      rw [List.length_cons, copyDown, next]
      simp only [Option.bind_eq_bind, Option.bind_some]
      rw [moved, show p.length + 1 = (p ++ [y]).length by simp, ih (p ++ [y]) y]
      simp

theorem setn_segment (p old new r : List α) (same : old.length = new.length)
    (some' : old ++ r ≠ []) : Array_setn (p ++ old ++ r) p.length new = some (p ++ new ++ r) := by
  have inside : ¬ p.length ≥ (p ++ old ++ r).length := by
    have := List.length_pos_iff.mpr some'
    simp only [List.length_append] at this ⊢
    omega
  have whole : (p ++ new ++ r).length = (p ++ old ++ r).length := by simp [same]
  have placed :
      (p ++ old ++ r).take p.length ++ new ++ (p ++ old ++ r).drop (p.length + new.length) =
      p ++ new ++ r := by
    rw [← same]
    simp [List.append_assoc]
  rw [Array_setn, if_neg inside, placed, ← whole, List.take_length]

end Segments

/-! ### The buffer and the list -/

/-- The buffer holds the list `r`, and its read index is where the cursor is. -/
structure Represents (cmp : α → α → Bool) (cb : CircularHistoryBuffer α) (r : Recent α) : Prop where
  pos : 0 < cb.size
  fits : cb.array.length ≤ cb.size
  filling : cb.array.length < cb.size → cb.writeIdx = cb.array.length
  wrapped : cb.array.length = cb.size → cb.writeIdx < cb.size
  entries : r.entries = (cb.array.drop cb.writeIdx ++ cb.array.take cb.writeIdx).reverse
  distinct : Recent.Distinct cmp r.entries
  cursor : r.cursor + cb.toReadBackwards = cb.array.length
  readIdx : cb.readIdx =
    if r.cursor ≤ cb.writeIdx then cb.writeIdx - r.cursor
    else cb.writeIdx + cb.array.length - r.cursor

section Represents

variable {cmp : α → α → Bool} {cb : CircularHistoryBuffer α} {r : Recent α} {e : α}

theorem Represents.writeIdx_le (h : Represents cmp cb r) : cb.writeIdx ≤ cb.array.length := by
  rcases Nat.lt_or_eq_of_le h.fits with lt | full
  · exact Nat.le_of_eq (h.filling lt)
  · rw [full]
    exact Nat.le_of_lt (h.wrapped full)

theorem Represents.length (h : Represents cmp cb r) : r.entries.length = cb.array.length := by
  have le := h.writeIdx_le
  rw [h.entries, List.length_reverse, List.length_append, List.length_drop, List.length_take]
  omega

/-- The element behind entry `i`. -/
theorem Represents.entry (h : Represents cmp cb r) {i : Nat} (lt : i < cb.array.length) :
    r.entries[i]? = cb.array[if i + 1 ≤ cb.writeIdx then cb.writeIdx - (i + 1)
      else cb.writeIdx + cb.array.length - (i + 1)]? := by
  have le := h.writeIdx_le
  have took : (cb.array.take cb.writeIdx).length = cb.writeIdx := by
    rw [List.length_take, Nat.min_eq_left le]
  rw [h.entries, List.reverse_append]
  split_ifs with young
  · rw [List.getElem?_append_left (by rw [List.length_reverse, took]; omega),
      List.getElem?_reverse (by rw [took]; omega), took, List.getElem?_take_of_lt (by omega)]
    congr 1
    omega
  · rw [List.getElem?_append_right (by rw [List.length_reverse, took]; omega),
      List.length_reverse, took,
      List.getElem?_reverse (by rw [List.length_drop]; omega), List.length_drop, List.getElem?_drop]
    congr 1
    omega

/-- Reading back. -/
theorem Represents.readPrev (h : Represents cmp cb r) :
    (cb.CHB_readPrev).1 = r.prev.1 ∧ Represents cmp (cb.CHB_readPrev).2 r.prev.2 := by
  have cursor := h.cursor
  have le := h.writeIdx_le
  have length := h.length
  unfold CircularHistoryBuffer.CHB_readPrev Recent.prev
  by_cases none : cb.toReadBackwards = 0
  · rw [if_pos none, if_neg (by omega)]
    exact ⟨rfl, h⟩
  · rw [if_neg none, if_pos (by omega)]
    have one : 1 % (cb.array.length + 1) = 1 := Nat.mod_eq_of_lt (by omega)
    have idx : cb.getDecreasedIdxBy cb.readIdx 1 =
        if r.cursor + 1 ≤ cb.writeIdx then cb.writeIdx - (r.cursor + 1)
        else cb.writeIdx + cb.array.length - (r.cursor + 1) := by
      simp only [CircularHistoryBuffer.getDecreasedIdxBy, one, h.readIdx]
      split_ifs <;> omega
    refine ⟨?_, h.pos, h.fits, h.filling, h.wrapped, h.entries, h.distinct, ?_, idx⟩
    · simp only [CircularHistoryBuffer.decreaseReadIdx, idx]
      exact (h.entry (by omega)).symm
    · simp only [CircularHistoryBuffer.decreaseReadIdx]
      omega

/-- Reading towards the newest entry. -/
theorem Represents.readNext (h : Represents cmp cb r) :
    (cb.CHB_readNext).1 = r.next.1 ∧ Represents cmp (cb.CHB_readNext).2 r.next.2 := by
  have cursor := h.cursor
  have le := h.writeIdx_le
  have fits := h.fits
  have filling := h.filling
  unfold CircularHistoryBuffer.CHB_readNext Recent.next
  by_cases newest : cb.toReadBackwards + 1 ≥ cb.array.length
  · rw [if_pos newest, if_pos (by omega)]
    exact ⟨rfl, h⟩
  · rw [if_neg newest, if_neg (by omega)]
    have idx : cb.getIncreasedIdxBy cb.readIdx 1 =
        if r.cursor - 1 ≤ cb.writeIdx then cb.writeIdx - (r.cursor - 1)
        else cb.writeIdx + cb.array.length - (r.cursor - 1) := by
      rw [CircularHistoryBuffer.getIncreasedIdxBy, h.readIdx]
      by_cases turn : r.cursor = cb.writeIdx + 1
      · -- The read index goes round, which it does only when the array is full.
        have full : cb.array.length = cb.size := by omega
        rw [if_neg (by omega), if_pos (by omega)]
        have e : cb.writeIdx + cb.array.length - r.cursor + 1 = cb.size := by omega
        rw [e, Nat.mod_self]
        omega
      · split_ifs <;> first | omega | (rw [Nat.mod_eq_of_lt (by omega)]; omega)
    have entry := h.entry (i := r.cursor - 2) (by omega)
    rw [show r.cursor - 2 + 1 = r.cursor - 1 by omega] at entry
    refine ⟨?_, h.pos, h.fits, h.filling, h.wrapped, h.entries, h.distinct, ?_, idx⟩
    · simp only [CircularHistoryBuffer.increaseReadIdx, idx]
      exact entry.symm
    · simp only [CircularHistoryBuffer.increaseReadIdx]
      omega

theorem Represents.readRest (h : Represents cmp cb r) : Represents cmp cb.CHB_readRest r.rest where
  pos := h.pos
  fits := h.fits
  filling := h.filling
  wrapped := h.wrapped
  entries := h.entries
  distinct := h.distinct
  cursor := Nat.zero_add _
  readIdx := (if_pos (Nat.zero_le _)).symm

/-- The buffer with another array, and nothing read yet. -/
theorem Represents.stored (h : Represents cmp cb r) (e : α) {cb' : CircularHistoryBuffer α}
    (size : cb'.size = cb.size) (fits : cb'.array.length ≤ cb.size)
    (filling : cb'.array.length < cb.size → cb'.writeIdx = cb'.array.length)
    (wrapped : cb'.array.length = cb.size → cb'.writeIdx < cb.size)
    (entries : (cb'.array.drop cb'.writeIdx ++ cb'.array.take cb'.writeIdx).reverse =
      Recent.recorded cmp cb.size e r.entries) :
    Represents cmp cb'.CHB_readRest (r.record cmp cb.size e) where
  pos := size ▸ h.pos
  fits := size ▸ fits
  filling := size ▸ filling
  wrapped := size ▸ wrapped
  entries := entries.symm
  distinct := h.distinct.record
  cursor := Nat.zero_add _
  readIdx := (if_pos (Nat.zero_le _)).symm

theorem freed_perm {f p t new : List α} {x : α} (moved : new.Perm (p ++ t ++ [e])) :
    (f ++ [x] ++ new).Perm (f ++ (p ++ x :: t) ++ [e]) := by
  classical
  rw [List.perm_iff_count] at moved ⊢
  intro y
  have := moved y
  simp only [List.count_append, List.count_cons, List.count_nil] at this ⊢
  omega

theorem free_at {idx : Nat} {p t : List α} {x : α} (array : cb.array = p ++ x :: t)
    (here : idx = p.length) : (cb.free idx).freed = cb.freed ++ [x] := by
  subst here
  rw [CircularHistoryBuffer.free, array]
  simp

/-- An element before the write index is taken out, and those behind it move up. -/
theorem Represents.moved_before (h : Represents cmp cb r) (e : α) {p q t : List α} {x : α}
    (array : cb.array = p ++ x :: q ++ t) (here : cb.writeIdx = p.length + 1 + q.length)
    (found : cmp e x = true) (equiv : Equivalence fun x y => cmp x y = true) :
    ∃ array, Array_setnFromNext cb.array p.length q.length >>=
        (Array_setn · (cb.writeIdx - 1) [e]) = some array ∧
      Represents cmp (CircularHistoryBuffer.CHB_readRest { cb.free p.length with array })
        (r.record cmp cb.size e) ∧
      ((cb.free p.length).freed ++ array).Perm (cb.freed ++ cb.array ++ [e]) := by
  have inside : ¬ p.length ≥ (p ++ x :: q ++ t).length := by
    simp only [List.length_append, List.length_cons]
    omega
  have length : (p ++ q ++ [e] ++ t).length = cb.array.length := by
    rw [array]
    simp only [List.length_append, List.length_cons, List.length_nil]
    omega
  have last : cb.writeIdx - 1 = (p ++ q).length := by
    rw [List.length_append]
    omega
  have write : cb.writeIdx = (p ++ q ++ [e]).length := by
    simp only [List.length_append, List.length_cons, List.length_nil]
    omega
  refine ⟨p ++ q ++ [e] ++ t, ?_, ?_, ?_⟩
  · rw [Array_setnFromNext, array, if_neg inside, copyDown_segment, last]
    have set := setn_segment (p ++ q) [(x :: q).getLast (List.cons_ne_nil x q)] [e] t rfl (by simp)
    rw [List.append_assoc (p ++ q), List.singleton_append] at set
    exact set
  · refine h.stored e rfl (length ▸ h.fits) (fun lt => ?_) (fun full => ?_) ?_
    · rw [length] at lt ⊢
      exact h.filling lt
    · rw [length] at full
      exact h.wrapped full
    · have old : r.entries = q.reverse ++ x :: (p.reverse ++ t.reverse) := by
        rw [h.entries, array, here]
        have took : p.length + 1 + q.length = (p ++ x :: q).length := by
          simp only [List.length_append, List.length_cons]
          omega
        rw [took, List.drop_left, List.take_left]
        simp
      have distinct := h.distinct
      rw [old] at distinct
      have fits : (e :: (q.reverse ++ (p.reverse ++ t.reverse))).length ≤ cb.size := by
        have := h.fits
        rw [array] at this
        simp only [List.length_append, List.length_cons, List.length_reverse] at this ⊢
        omega
      rw [Recent.recorded, old, distinct.filter_found equiv found, List.take_of_length_le fits]
      show ((p ++ q ++ [e] ++ t).drop cb.writeIdx ++
        (p ++ q ++ [e] ++ t).take cb.writeIdx).reverse = _
      rw [write, List.drop_left, List.take_left]
      simp
  · have around : cb.array = p ++ x :: (q ++ t) := by simp [array]
    rw [free_at around rfl, around]
    refine freed_perm ?_
    rw [List.append_assoc, ← List.append_assoc p, List.append_assoc _ t]
    exact List.perm_append_comm.append_left (p ++ q)

/-- In a full array the new element stands where the oldest one was. -/
theorem Represents.replaced (h : Represents cmp cb r) (e : α) {p t : List α}
    (here : cb.writeIdx = p.length) (full : (p ++ e :: t).length = cb.size)
    (kept : Recent.recorded cmp cb.size e r.entries = e :: (p.reverse ++ t.reverse))
    (freed : List α) :
    Represents cmp (CircularHistoryBuffer.CHB_readRest (CircularHistoryBuffer.increaseWriteIdx
      { cb with array := p ++ e :: t, freed })) (r.record cmp cb.size e) := by
  refine h.stored e rfl (Nat.le_of_eq full) (fun lt => ?_) (fun _ => Nat.mod_lt _ h.pos) ?_
  · exact absurd full (Nat.ne_of_lt lt)
  · rw [kept]
    show ((p ++ e :: t).drop ((cb.writeIdx + 1) % cb.size) ++
      (p ++ e :: t).take ((cb.writeIdx + 1) % cb.size)).reverse = _
    rw [here]
    simp only [List.length_append, List.length_cons] at full
    cases t with
    | nil =>
        simp only [List.length_nil] at full
        rw [← full, Nat.zero_add, Nat.mod_self]
        simp
    | cons y t =>
        simp only [List.length_cons] at full
        rw [Nat.mod_eq_of_lt (by omega), List.append_cons]
        have took : p.length + 1 = (p ++ [e]).length := by simp
        rw [took, List.drop_left, List.take_left]
        simp

/-- An element behind the write index is taken out, and those up to it move on. -/
theorem Represents.moved_behind (h : Represents cmp cb r) (e : α) {p q t : List α} {x : α}
    (array : cb.array = p ++ q ++ x :: t) (here : cb.writeIdx = p.length) (some : q ≠ [])
    (found : cmp e x = true) (equiv : Equivalence fun x y => cmp x y = true) :
    ∃ array, Array_getnCopy cb.array p.length q.length >>= (fun eleArr =>
        Array_setn cb.array (p.length + 1) eleArr >>= (Array_setn · p.length [e])) = .some array ∧
      Represents cmp (CircularHistoryBuffer.CHB_readRest
        (CircularHistoryBuffer.increaseWriteIdx { cb.free (p.length + q.length) with array }))
        (r.record cmp cb.size e) ∧
      ((cb.free (p.length + q.length)).freed ++ array).Perm (cb.freed ++ cb.array ++ [e]) := by
  have full : (p ++ q ++ x :: t).length = cb.size := by
    rw [← array]
    by_contra other
    have := h.filling (Nat.lt_of_le_of_ne h.fits other)
    rw [array, here] at this
    simp only [List.length_append, List.length_cons] at this
    omega
  have copied : Array_getnCopy (p ++ q ++ x :: t) p.length q.length = .some q := by
    rw [Array_getnCopy, if_neg]
    · rw [List.append_assoc, List.drop_left, List.take_left]
    · simp only [List.length_append, List.length_cons]
      omega
  obtain ⟨y, q, rfl⟩ := List.exists_cons_of_ne_nil some
  have shifted : Array_setn (p ++ y :: q ++ x :: t) (p.length + 1) (y :: q) =
      .some (p ++ [y] ++ (y :: q) ++ t) := by
    have set := setn_segment (p ++ [y]) (q ++ [x]) (y :: q) t (by simp) (by simp)
    rw [List.length_append, List.length_singleton] at set
    rw [← set]
    simp
  have placed : Array_setn (p ++ [y] ++ (y :: q) ++ t) p.length [e] =
      .some (p ++ e :: (y :: q ++ t)) := by
    rw [List.append_assoc _ (y :: q)]
    exact (setn_segment p [y] [e] (y :: q ++ t) rfl (by simp)).trans (by simp)
  refine ⟨p ++ e :: (y :: q ++ t), ?_, ?_, ?_⟩
  · rw [array, copied, Option.bind_eq_bind, Option.bind_some, shifted]
    exact placed
  · have old : r.entries = p.reverse ++ t.reverse ++ x :: (y :: q).reverse := by
      rw [h.entries, array, here, List.append_assoc, List.drop_left, List.take_left]
      simp
    have distinct := h.distinct
    rw [old] at distinct
    refine h.replaced e here ?_ ?_ _
    · rw [← full]
      simp only [List.length_append, List.length_cons]
      omega
    · have fits : (e :: (p.reverse ++ t.reverse ++ (y :: q).reverse)).length ≤ cb.size := by
        rw [← full]
        simp only [List.length_append, List.length_cons, List.length_reverse]
        omega
      rw [Recent.recorded, old, distinct.filter_found equiv found, List.take_of_length_le fits]
      simp
  · rw [free_at array (by simp), array]
    refine freed_perm ?_
    have moved : (e :: (y :: q ++ t)).Perm (y :: q ++ t ++ [e]) :=
      (List.perm_append_singleton e (y :: q ++ t)).symm
    simpa using moved.append_left p

/-- The new element is the last one of the array, or stands where the oldest one was. -/
theorem Represents.pushed (h : Represents cmp cb r) (e : α)
    (equiv : Equivalence fun x y => cmp x y = true)
    (new : (∀ x ∈ cb.array, cmp e x = false) ∨
      ∃ x, cb.array[cb.writeIdx]? = some x ∧ cmp e x = true) :
    ∃ cb', cb.CHB_push e = some cb' ∧ Represents cmp cb' (r.record cmp cb.size e) ∧
      cb'.size = cb.size ∧ (cb'.freed ++ cb'.array).Perm (cb.freed ++ cb.array ++ [e]) := by
  unfold CircularHistoryBuffer.CHB_push
  by_cases filling : cb.array.length < cb.size
  · have write := h.filling filling
    have none : ∀ x ∈ cb.array, cmp e x = false := new.resolve_right fun ⟨x, at_, _⟩ => by
      rw [write, List.getElem?_eq_none (Nat.le_refl _)] at at_
      cases at_
    rw [if_pos filling]
    refine ⟨_, rfl, ?_, rfl, ?_⟩
    · have old : r.entries = cb.array.reverse := by
        rw [h.entries, write]
        simp
      have fits : (e :: cb.array.reverse).length ≤ cb.size := by
        rw [List.length_cons, List.length_reverse]
        exact filling
      have kept : Recent.recorded cmp cb.size e r.entries = e :: cb.array.reverse := by
        rw [Recent.recorded, old, Recent.filter_new fun x mem => none x (List.mem_reverse.mp mem),
          List.take_of_length_le fits]
      have length : (cb.array ++ [e]).length = cb.array.length + 1 := List.length_append
      refine h.stored e rfl (length ▸ filling) (fun more => ?_) (fun _ => Nat.mod_lt _ h.pos) ?_
      · show (cb.writeIdx + 1) % cb.size = (cb.array ++ [e]).length
        change (cb.array ++ [e]).length < cb.size at more
        rw [length] at more ⊢
        rw [write, Nat.mod_eq_of_lt more]
      · show ((cb.array ++ [e]).drop ((cb.writeIdx + 1) % cb.size) ++
          (cb.array ++ [e]).take ((cb.writeIdx + 1) % cb.size)).reverse = _
        rw [kept, write]
        rcases Nat.lt_or_eq_of_le filling with more | full
        · rw [Nat.succ_eq_add_one] at more
          rw [Nat.mod_eq_of_lt more, ← length, List.drop_length, List.take_length]
          simp
        · rw [← full, Nat.succ_eq_add_one, Nat.mod_self]
          simp
    · show (cb.freed ++ (cb.array ++ [e])).Perm _
      rw [List.append_assoc]
  · rw [if_neg filling]
    have full : cb.array.length = cb.size := Nat.le_antisymm h.fits (Nat.le_of_not_lt filling)
    have inside : cb.writeIdx < cb.array.length := full ▸ h.wrapped full
    -- The array around the oldest element.
    obtain ⟨p, y, t, array, here⟩ : ∃ p y t, cb.array = p ++ y :: t ∧ cb.writeIdx = p.length := by
      refine ⟨cb.array.take cb.writeIdx, cb.array[cb.writeIdx],
        cb.array.drop (cb.writeIdx + 1), ?_, ?_⟩
      · rw [← List.drop_eq_getElem_cons inside, List.take_append_drop]
      · rw [List.length_take, Nat.min_eq_left (Nat.le_of_lt inside)]
    have set : Array_setn (cb.free cb.writeIdx).array (cb.free cb.writeIdx).writeIdx [e] =
        some (p ++ e :: t) := by
      show Array_setn cb.array cb.writeIdx [e] = _
      rw [array, here]
      exact (by simpa using setn_segment p [y] [e] t rfl (by simp))
    simp only [set, Option.bind_eq_bind, Option.bind_some]
    refine ⟨_, rfl, ?_, rfl, ?_⟩
    · have length : (p ++ e :: t).length = cb.size := by
        rw [← full, array]
        simp only [List.length_append, List.length_cons]
      refine h.replaced e here length ?_ _
      have old : r.entries = p.reverse ++ t.reverse ++ y :: [] := by
        rw [h.entries, array, here, List.drop_left, List.take_left]
        simp
      have whole : (e :: (p.reverse ++ t.reverse)).length = cb.size := by
        rw [← length]
        simp only [List.length_append, List.length_cons, List.length_reverse]
        omega
      by_cases found : cmp e y = true
      · have distinct := h.distinct
        rw [old] at distinct
        rw [Recent.recorded, old, distinct.filter_found equiv found, List.append_nil,
          List.take_of_length_le (Nat.le_of_eq whole)]
      · have none : ∀ x ∈ cb.array, cmp e x = false := new.resolve_right fun ⟨x, at_, eq⟩ => by
          rw [array, here] at at_
          simp only [List.getElem?_append_right (Nat.le_refl _), Nat.sub_self,
            List.getElem?_cons_zero, Option.some.injEq] at at_
          exact found (at_ ▸ eq)
        have new : ∀ x ∈ r.entries, cmp e x = false := fun x mem => by
          refine none x ?_
          rw [old] at mem
          rw [array]
          simp only [List.mem_append, List.mem_reverse, List.mem_cons, List.not_mem_nil,
            or_false] at mem ⊢
          tauto
        rw [Recent.recorded, Recent.filter_new new, old, ← List.cons_append, ← whole,
          List.take_left]
    · show ((cb.free cb.writeIdx).freed ++ (p ++ e :: t)).Perm _
      rw [free_at array here, array]
      refine freed_perm ?_
      rw [List.append_assoc]
      exact (List.perm_append_singleton e t).symm.append_left p

/-- Recording an element. -/
theorem Represents.record (h : Represents cmp cb r) (e : α)
    (equiv : Equivalence fun x y => cmp x y = true) :
    ∃ cb', cb.CHB_moveToFrontOrPush cmp e = some cb' ∧ Represents cmp cb' (r.record cmp cb.size e) ∧
      cb'.size = cb.size ∧ (cb'.freed ++ cb'.array).Perm (cb.freed ++ cb.array ++ [e]) := by
  unfold CircularHistoryBuffer.CHB_moveToFrontOrPush
  rcases Option.eq_none_or_eq_some (Array_find cmp cb.array e) with none | ⟨idx, found⟩
  · simp only [none]
    exact h.pushed e equiv (Or.inl fun x mem => List.findIdx?_eq_none_iff.mp none x mem)
  · simp only [found]
    obtain ⟨lt, eq, -⟩ := List.findIdx?_eq_some_iff_getElem.mp found
    split_ifs with here before
    · exact h.pushed e equiv (Or.inr ⟨_, here ▸ List.getElem?_eq_getElem lt, eq⟩)
    · have before : idx < cb.writeIdx := before
      have le := h.writeIdx_le
      -- What lies between the element and the write index, and behind that.
      have rest : (cb.array.drop (idx + 1)).length = cb.array.length - (idx + 1) := List.length_drop
      have p_len : (cb.array.take idx).length = idx := by
        rw [List.length_take, Nat.min_eq_left (Nat.le_of_lt lt)]
      have q_len : ((cb.array.drop (idx + 1)).take (cb.writeIdx - (idx + 1))).length =
          cb.writeIdx - (idx + 1) := by
        rw [List.length_take, rest]
        omega
      have array : cb.array = cb.array.take idx ++
          cb.array[idx] :: (cb.array.drop (idx + 1)).take (cb.writeIdx - (idx + 1)) ++
          (cb.array.drop (idx + 1)).drop (cb.writeIdx - (idx + 1)) := by
        rw [List.append_assoc, List.cons_append, List.take_append_drop,
          ← List.drop_eq_getElem_cons lt, List.take_append_drop]
      obtain ⟨new, set, represents, perm⟩ :=
        h.moved_before e array (by rw [p_len, q_len]; omega) eq equiv
      rw [p_len, q_len] at set
      rw [p_len] at represents perm
      obtain ⟨mid, first, second⟩ := Option.bind_eq_some_iff.mp set
      refine ⟨_, ?_, represents, rfl, perm⟩
      show (Array_setnFromNext cb.array idx (cb.writeIdx - (idx + 1)) >>= _) = _
      rw [first]
      show (Array_setn mid (cb.writeIdx - 1) [e] >>= _) = _
      rw [second]
      rfl
    · have not_before : ¬ idx < cb.writeIdx := before
      have after : cb.writeIdx < idx := by omega
      have p_len : (cb.array.take cb.writeIdx).length = cb.writeIdx := by
        rw [List.length_take, Nat.min_eq_left (by omega)]
      have q_len : ((cb.array.drop cb.writeIdx).take (idx - cb.writeIdx)).length =
          idx - cb.writeIdx := by
        rw [List.length_take, List.length_drop]
        omega
      have some : (cb.array.drop cb.writeIdx).take (idx - cb.writeIdx) ≠ [] := by
        rw [← List.length_pos_iff, q_len]
        omega
      have array : cb.array = cb.array.take cb.writeIdx ++
          (cb.array.drop cb.writeIdx).take (idx - cb.writeIdx) ++ cb.array[idx] ::
            cb.array.drop (idx + 1) := by
        have behind : (cb.array.drop cb.writeIdx).drop (idx - cb.writeIdx) = cb.array.drop idx := by
          rw [List.drop_drop]
          congr 1
          omega
        rw [← List.drop_eq_getElem_cons lt, ← behind, List.append_assoc, List.take_append_drop,
          List.take_append_drop]
      obtain ⟨new, set, represents, perm⟩ := h.moved_behind e array p_len.symm some eq equiv
      have at_idx : cb.writeIdx + (idx - cb.writeIdx) = idx := by omega
      rw [p_len, q_len] at set
      rw [p_len, q_len, at_idx] at represents perm
      obtain ⟨eleArr, copied, set⟩ := Option.bind_eq_some_iff.mp set
      obtain ⟨mid, first, second⟩ := Option.bind_eq_some_iff.mp set
      refine ⟨_, ?_, represents, rfl, perm⟩
      show (Array_getnCopy cb.array cb.writeIdx (idx - cb.writeIdx) >>= _) = _
      rw [copied]
      show (Array_setn cb.array (cb.writeIdx + 1) eleArr >>= _) = _
      rw [first]
      show (Array_setn mid cb.writeIdx [e] >>= _) = _
      rw [second]
      rfl

end Represents

/-! ### Sequences of operations -/

inductive HistoryOp (α : Type) where
  | moveToFrontOrPush (ele : α)
  | readPrev
  | readNext
  | readRest

/-- The buffer after an operation, and what it has read. -/
def HistoryOp.perform (cmp : α → α → Bool) (cb : CircularHistoryBuffer α) :
    HistoryOp α → Option (List (Option α) × CircularHistoryBuffer α)
  | .moveToFrontOrPush ele => (cb.CHB_moveToFrontOrPush cmp ele).map fun cb => ([], cb)
  | .readPrev => some ([cb.CHB_readPrev.1], cb.CHB_readPrev.2)
  | .readNext => some ([cb.CHB_readNext.1], cb.CHB_readNext.2)
  | .readRest => some ([], cb.CHB_readRest)

/-- The same on the list. -/
def HistoryOp.spec (cmp : α → α → Bool) (size : Nat) (r : Recent α) :
    HistoryOp α → List (Option α) × Recent α
  | .moveToFrontOrPush ele => ([], r.record cmp size ele)
  | .readPrev => ([r.prev.1], r.prev.2)
  | .readNext => ([r.next.1], r.next.2)
  | .readRest => ([], r.rest)

def performAll (cmp : α → α → Bool) : List (HistoryOp α) → CircularHistoryBuffer α →
    Option (List (Option α) × CircularHistoryBuffer α)
  | [], cb => some ([], cb)
  | op :: ops, cb => do
      let (read, cb) ← op.perform cmp cb
      let (read', cb) ← performAll cmp ops cb
      some (read ++ read', cb)

def specAll (cmp : α → α → Bool) (size : Nat) : List (HistoryOp α) → Recent α →
    List (Option α) × Recent α
  | [], r => ([], r)
  | op :: ops, r =>
      let (read, r) := op.spec cmp size r
      let (read', r) := specAll cmp size ops r
      (read ++ read', r)

/-- The elements that were recorded. -/
def recordings : List (HistoryOp α) → List α
  | [] => []
  | .moveToFrontOrPush ele :: ops => ele :: recordings ops
  | _ :: ops => recordings ops

section Sequences

variable {cmp : α → α → Bool} {cb : CircularHistoryBuffer α} {r : Recent α}

theorem initialize_represents {size : Nat} (pos : 0 < size) :
    let cb := CHB_initialize α size
    Represents cmp cb ⟨[], 0⟩ :=
  { pos := pos
    fits := Nat.zero_le _
    filling _ := rfl
    wrapped _ := pos
    entries := rfl
    distinct := List.Pairwise.nil
    cursor := rfl
    readIdx := rfl }

/-- One operation on the buffer is that operation on the list. -/
theorem Represents.perform (h : Represents cmp cb r) (equiv : Equivalence fun x y => cmp x y = true)
    (op : HistoryOp α) : ∃ cb', op.perform cmp cb = some ((op.spec cmp cb.size r).1, cb') ∧
      Represents cmp cb' (op.spec cmp cb.size r).2 ∧ cb'.size = cb.size ∧
      (cb'.freed ++ cb'.array).Perm (cb.freed ++ cb.array ++ recordings [op]) := by
  cases op with
  | moveToFrontOrPush ele =>
      obtain ⟨cb', record, represents, size, perm⟩ := h.record ele equiv
      exact ⟨cb', by rw [HistoryOp.perform, record]; rfl, represents, size, perm⟩
  | readPrev =>
      obtain ⟨read, represents⟩ := h.readPrev
      refine ⟨_, by rw [HistoryOp.perform, read]; rfl, represents, ?_, ?_⟩
      all_goals
        unfold CircularHistoryBuffer.CHB_readPrev
        split_ifs <;> simp [CircularHistoryBuffer.decreaseReadIdx, recordings]
  | readNext =>
      obtain ⟨read, represents⟩ := h.readNext
      refine ⟨_, by rw [HistoryOp.perform, read]; rfl, represents, ?_, ?_⟩
      all_goals
        unfold CircularHistoryBuffer.CHB_readNext
        split_ifs <;> simp [CircularHistoryBuffer.increaseReadIdx, recordings]
  | readRest =>
      exact ⟨_, rfl, h.readRest, rfl, by simp [CircularHistoryBuffer.CHB_readRest, recordings]⟩

theorem recordings_cons (op : HistoryOp α) (ops : List (HistoryOp α)) :
    recordings (op :: ops) = recordings [op] ++ recordings ops := by
  cases op <;> rfl

/-- So is every sequence of operations. -/
theorem Represents.performAll (h : Represents cmp cb r)
    (equiv : Equivalence fun x y => cmp x y = true) (ops : List (HistoryOp α)) :
    ∃ cb', performAll cmp ops cb = some ((specAll cmp cb.size ops r).1, cb') ∧
      Represents cmp cb' (specAll cmp cb.size ops r).2 ∧
      (cb'.freed ++ cb'.array).Perm (cb.freed ++ cb.array ++ recordings ops) := by
  induction ops generalizing cb r with
  | nil => exact ⟨cb, rfl, h, by simp [recordings]⟩
  | cons op ops ih =>
      obtain ⟨mid, first, represents, size, perm⟩ := h.perform equiv op
      obtain ⟨cb', rest, represents', perm'⟩ := ih represents
      rw [size] at rest represents'
      refine ⟨cb', ?_, represents', ?_⟩
      · show (op.perform cmp cb >>= _) = _
        rw [first]
        show (Shell.performAll cmp ops mid >>= _) = _
        rw [rest]
        rfl
      · rw [recordings_cons, ← List.append_assoc]
        exact perm'.trans (perm.append_right _)

theorem specAll_readPrev (size n : Nat) (r : Recent α) :
    (specAll cmp size (List.replicate n .readPrev) r).1 = Recent.prevs n r := by
  induction n generalizing r with
  | zero => rfl
  | succ n ih =>
      rw [List.replicate_succ, specAll]
      simp only [HistoryOp.spec, ih]
      rfl

end Sequences

/-- The history is the list of the most recent commands: whatever the sequence of
operations, what is read is read from that list, and every element that was recorded is
in the array or was freed, once. From a rest on, reading back gives the list from newest
to oldest and then NULL, and reading forward NULL. -/
theorem history_most_recently_used {cmp : α → α → Bool}
    (equiv : Equivalence fun x y => cmp x y = true) {size : Nat} (pos : 0 < size)
    (ops : List (HistoryOp α)) :
    ∃ cb, (performAll cmp ops <| CHB_initialize α size) =
      some ((specAll cmp size ops ⟨[], 0⟩).1, cb) ∧
      (cb.array.drop cb.writeIdx ++ cb.array.take cb.writeIdx).reverse =
        (specAll cmp size ops ⟨[], 0⟩).2.entries ∧
      (cb.freed ++ cb.array).Perm (recordings ops) ∧ cb.CHB_readRest.CHB_readNext.1 = none ∧
      ∀ n, ∃ cb', performAll cmp (List.replicate n .readPrev) cb.CHB_readRest = some
        ((List.range n).map fun i => (specAll cmp size ops ⟨[], 0⟩).2.entries[i]?, cb') := by
  obtain ⟨cb, performed, represents, perm⟩ := (initialize_represents pos).performAll equiv ops
  refine ⟨cb, performed, represents.entries.symm, perm, ?_, fun n => ?_⟩
  · exact represents.readRest.readNext.1
  · obtain ⟨cb', reads, -⟩ := represents.readRest.performAll equiv (List.replicate n .readPrev)
    rw [specAll_readPrev, Recent.prevs_rest] at reads
    exact ⟨cb', reads⟩

theorem history_most_recently_used_two :
    ∃ cb, (performAll (fun x y : Nat => decide (x % 10 = y % 10))
        [.moveToFrontOrPush 1, .moveToFrontOrPush 2, .moveToFrontOrPush 3, .readPrev,
          .moveToFrontOrPush 12] <|
        CHB_initialize Nat 2) = some ([some 3], cb) ∧
      (cb.array.drop cb.writeIdx ++ cb.array.take cb.writeIdx).reverse = [12, 3] ∧
      (cb.freed ++ cb.array).Perm [1, 2, 3, 12] := by
  have equiv : Equivalence fun x y : Nat => decide (x % 10 = y % 10) = true := by
    simp only [decide_eq_true_eq]
    exact ⟨fun _ => rfl, Eq.symm, Eq.trans⟩
  obtain ⟨cb, performed, entries, perm, -⟩ := history_most_recently_used equiv (by decide : 0 < 2)
    [.moveToFrontOrPush 1, .moveToFrontOrPush 2, .moveToFrontOrPush 3, .readPrev,
      .moveToFrontOrPush 12]
  exact ⟨cb, performed.trans rfl, entries.trans (by decide), perm⟩

end SoTp.Shell
