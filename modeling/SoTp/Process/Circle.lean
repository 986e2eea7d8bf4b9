/-
The process list as the scheduler reads it: nodes linked in a circle, whatever the
processes in them are. `Circle k before cursor after` says that the nodes from head to
tail are `before ++ cursor :: after`, and that `prev` is right behind the cursor.

* `Circle.nextPCB`, `Circle.freeCurrentProcess` — stepping, and taking the current node
  out, keep the circle, wherever the cursor stands.
-/

import Mathlib.Data.List.Nodup
import SoTp.Lib.Segment
import SoTp.Process.Scheduler

namespace SoTp.Process

open SoTp.Lib Kernel

/-- The nodes of the list from head to tail; the idle node is not among them. -/
structure RingList (k : Kernel) (before : List Nat) (cursor : Nat) (after : List Nat) : Prop where
  cycle : Segment k.next cursor (cursor :: (after ++ before)) cursor
  head : (before ++ cursor :: after).head? = some k.pcbList.head
  tail : (before ++ cursor :: after).getLast? = some k.pcbList.tail
  nodup : (before ++ cursor :: after).Nodup
  nonNull : ∀ n ∈ before ++ cursor :: after, n ≠ NULL
  idleOutside : k.idleProcPCBNode ∉ before ++ cursor :: after
  idleNonNull : k.idleProcPCBNode ≠ NULL

/-- The list with `prev` right behind the cursor. -/
structure Circle (k : Kernel) (before : List Nat) (cursor : Nat) (after : List Nat) : Prop
    extends RingList k before cursor after where
  prev : (cursor :: (after ++ before)).getLast? = some k.pcbList.prev

/-- The same nodes in the order of the walk from the cursor. -/
theorem mem_view {before after : List Nat} {cursor n : Nat} :
    n ∈ cursor :: (after ++ before) ↔ n ∈ before ++ cursor :: after := by
  simp only [List.mem_cons, List.mem_append]
  tauto

section Circle

variable {k : Kernel} {before after : List Nat} {cursor : Nat}

theorem RingList.view_nodup (r : RingList k before cursor after) :
    (cursor :: (after ++ before)).Nodup := by
  have perm : (before ++ cursor :: after).Perm (cursor :: (after ++ before)) :=
    List.perm_middle.trans (List.perm_append_comm.cons _)
  exact perm.nodup_iff.mp r.nodup

theorem RingList.cursor_mem (_ : RingList k before cursor after) :
    cursor ∈ before ++ cursor :: after := by
  simp

theorem RingList.cursor_ne (r : RingList k before cursor after) : cursor ≠ NULL :=
  r.nonNull _ r.cursor_mem

theorem RingList.head_ne (r : RingList k before cursor after) : k.pcbList.head ≠ NULL :=
  r.nonNull _ (List.mem_of_mem_head? r.head)

theorem RingList.ne_idle (r : RingList k before cursor after) {n : Nat}
    (hn : n ∈ before ++ cursor :: after) : n ≠ k.idleProcPCBNode := fun e => r.idleOutside (e ▸ hn)

/-- The nodes without the cursor do not contain it. -/
theorem RingList.cursor_once (r : RingList k before cursor after) : cursor ∉ before ++ after := by
  have nodup := List.perm_middle.nodup_iff.mp r.nodup
  exact (List.nodup_cons.mp nodup).1

/-- The node behind the cursor links to it. -/
theorem Circle.next_prev (r : Circle k before cursor after) : k.next k.pcbList.prev = cursor := by
  obtain ⟨front, e⟩ := List.getLast?_eq_some_iff.mp r.prev
  have cycle := r.cycle
  rw [e] at cycle
  exact (segment_concat.mp cycle).2

/-! ### Stepping -/

/-- Moving the cursor to the next node. -/
theorem RingList.advance (r : RingList k before cursor after) :
    ∃ before' cursor' after',
      Circle { k with pcbList := { k.pcbList with prev := cursor, current := k.next cursor } }
        before' cursor' after' ∧
      k.next cursor = cursor' ∧
      before' ++ cursor' :: after' = before ++ cursor :: after ∧
      cursor' :: (after' ++ before') = after ++ before ++ [cursor] := by
  have cycle := r.cycle
  have rotate : ∀ x xs, after ++ before = x :: xs →
      Segment k.next x (x :: xs ++ [cursor]) x ∧ k.next cursor = x := by
    intro x xs e
    rw [e] at cycle
    exact ⟨segment_concat.mpr ⟨cycle.2.1 ▸ cycle.2, cycle.2.1⟩, cycle.2.1⟩
  cases after with
  | cons x after =>
      obtain ⟨walk, next⟩ := rotate x (after ++ before) rfl
      have nodes : before ++ [cursor] ++ x :: after = before ++ cursor :: x :: after := by simp
      have view : x :: (after ++ (before ++ [cursor])) = x :: (after ++ before) ++ [cursor] := by
        simp
      refine ⟨before ++ [cursor], x, after, ?_, next, nodes, by simp⟩
      exact {
        cycle := by rw [view]; exact walk
        head := by rw [nodes]; exact r.head
        tail := by rw [nodes]; exact r.tail
        prev := by rw [view]; exact List.getLast?_concat
        nodup := by rw [nodes]; exact r.nodup
        nonNull := by rw [nodes]; exact r.nonNull
        idleOutside := by rw [nodes]; exact r.idleOutside
        idleNonNull := r.idleNonNull }
  | nil =>
      cases before with
      | nil =>
          refine ⟨[], cursor, [], ?_, cycle.2, rfl, rfl⟩
          exact { r with prev := rfl }
      | cons x before =>
          obtain ⟨walk, next⟩ := rotate x before rfl
          have view : x :: (before ++ [cursor] ++ []) = x :: before ++ [cursor] := by simp
          refine ⟨[], x, before ++ [cursor], ?_, next, rfl, by simp⟩
          exact { r with
            cycle := by rw [view]; exact walk
            prev := by rw [view]; exact List.getLast?_concat }

theorem RingList.nextPCB_eq (r : RingList k before cursor after)
    (here : k.pcbList.current = cursor) :
    k.nextPCB =
      { k with pcbList := { k.pcbList with prev := cursor, current := k.next cursor } } := by
  subst here
  rw [Kernel.nextPCB, if_neg r.head_ne, if_neg r.cursor_ne, if_neg (r.ne_idle r.cursor_mem)]

/-- Back from the idle process, the cursor is at `prev->next`. -/
theorem RingList.nextPCB_idle (r : RingList k before cursor after) (asleep : k.idle)
    (next : k.next k.pcbList.prev = cursor) :
    k.nextPCB = { k with pcbList := { k.pcbList with current := cursor } } := by
  have pos : k.pcbList.current ≠ NULL := fun e => r.idleNonNull (asleep.symm.trans e)
  unfold idle at asleep
  rw [Kernel.nextPCB, if_neg r.head_ne, if_neg pos, if_pos asleep, next]

/-! ### Reaping -/

theorem RingList.head_eq_tail (r : RingList k before cursor after) :
    k.pcbList.head = k.pcbList.tail ↔ after ++ before = [] := by
  have nodup := r.nodup
  have head := r.head
  have tail := r.tail
  constructor
  · intro e
    rcases List.eq_nil_or_concat after with rfl | ⟨after, last, rfl⟩
    · cases before with
      | nil => rfl
      | cons x before =>
          simp only [List.cons_append, List.head?_cons, Option.some.injEq] at head
          rw [List.getLast?_concat, Option.some.injEq] at tail
          rw [head, e, ← tail] at nodup
          simp at nodup
    · exfalso
      rw [List.concat_eq_append, ← List.cons_append, ← List.append_assoc, List.getLast?_concat,
        Option.some.injEq] at tail
      rw [List.concat_eq_append, ← List.cons_append, ← List.append_assoc] at nodup head
      cases before with
      | nil =>
          simp only [List.nil_append, List.cons_append, List.head?_cons, Option.some.injEq] at head
          rw [List.nil_append, List.cons_append, List.nodup_cons] at nodup
          exact nodup.1 (by rw [head, e, ← tail]; simp)
      | cons x before =>
          simp only [List.cons_append, List.head?_cons, Option.some.injEq] at head
          rw [List.cons_append, List.cons_append, List.nodup_cons] at nodup
          exact nodup.1 (by rw [head, e, ← tail]; simp)
  · intro empty
    obtain ⟨rfl, rfl⟩ := List.append_eq_nil_iff.mp empty
    simp only [List.nil_append, List.head?_cons, List.getLast?_singleton,
      Option.some.injEq] at head tail
    rw [← head, tail]

/-- `prev->next` skips the cursor. -/
theorem Circle.skip (r : Circle k before cursor after) {x : Nat} {xs : List Nat}
    (view : after ++ before = x :: xs) :
    Segment (k.setNext k.pcbList.prev x).next x (x :: xs) x ∧ k.next cursor = x ∧
      (x :: xs).getLast? = some k.pcbList.prev := by
  have cycle := r.cycle
  have prev := r.prev
  have nodup := r.view_nodup
  rw [view] at cycle prev nodup
  rw [List.getLast?_cons_cons] at prev
  obtain ⟨front, e⟩ := List.getLast?_eq_some_iff.mp prev
  have next : (k.setNext k.pcbList.prev x).next = Function.update k.next k.pcbList.prev x := by
    funext n
    rw [setNext_next, Function.update_apply]
  have once : k.pcbList.prev ∉ front := fun mem => by
    have := (List.nodup_cons.mp nodup).2
    rw [e, List.nodup_append] at this
    exact this.2.2 _ mem _ (List.mem_singleton_self _) rfl
  have walk : Segment k.next x (front ++ [k.pcbList.prev]) cursor := by
    have tail := cycle.2
    rwa [cycle.2.1, e] at tail
  refine ⟨?_, cycle.2.1, prev⟩
  rw [next, e]
  exact segment_relink walk once

/-- The kernel after `freeCurrentProcess`, when `x` comes after the current node. -/
def unlinked (k : Kernel) (x : Nat) : Kernel :=
  { k.setNext k.pcbList.prev x with
    allocated := Function.update k.allocated k.currentPCB false
    pcbList := { k.pcbList with
      current := x
      head := if k.pcbList.head = k.pcbList.current then x else k.pcbList.head
      tail := if k.pcbList.head = k.pcbList.current then k.pcbList.tail
        else if k.pcbList.tail = k.pcbList.current then k.pcbList.prev else k.pcbList.tail
      len := k.pcbList.len - 1 } }

theorem Circle.freeCurrentProcess_eq (r : Circle k before cursor after)
    (here : k.pcbList.current = cursor)
    (more : after ++ before ≠ []) : k.freeCurrentProcess = unlinked k (k.next cursor) := by
  subst here
  have two := mt r.head_eq_tail.mp more
  rw [freeCurrentProcess, if_neg (by simp [r.cursor_ne, r.head_ne]), if_neg two]
  simp only [unlinked, currentPCB, setNext_pcbOf]
  rfl

theorem unlinked_pcbOf {x n : Nat} : (unlinked k x).pcbOf n = k.pcbOf n :=
  setNext_pcbOf (k := k) (n := k.pcbList.prev) (m := x) (q := n)

/-- Taking the current node out leaves a circle with the cursor at the next node. -/
theorem Circle.unlink (r : Circle k before cursor after) (here : k.pcbList.current = cursor)
    {before' after' : List Nat} {x : Nat} (nodes : before' ++ x :: after' = before ++ after)
    (view : after ++ before = x :: (after' ++ before'))
    (head : (before' ++ x :: after').head? = some (unlinked k x).pcbList.head)
    (tail : (before' ++ x :: after').getLast? = some (unlinked k x).pcbList.tail) :
    Circle (unlinked k x) before' x after' := by
  subst here
  obtain ⟨walk, -, prev⟩ := r.skip view
  have fewer : List.Sublist (before ++ after) (before ++ k.pcbList.current :: after) :=
    List.Sublist.append_left (List.sublist_cons_self _ _) _
  rw [← nodes] at fewer
  exact {
    cycle := walk, head := head, tail := tail, prev := prev
    nodup := r.nodup.sublist fewer
    nonNull := fun n hn => r.nonNull n (fewer.subset hn)
    idleOutside := fun hn => r.idleOutside (fewer.subset hn)
    idleNonNull := r.idleNonNull }

theorem Circle.freeCurrentProcess (r : Circle k before cursor after)
    (here : k.pcbList.current = cursor) (more : after ++ before ≠ []) :
    ∃ before' cursor' after', Circle k.freeCurrentProcess before' cursor' after' ∧
      k.freeCurrentProcess.pcbList.current = cursor' ∧
      before' ++ cursor' :: after' = before ++ after ∧
      cursor' :: (after' ++ before') = after ++ before := by
  have once := r.cursor_once
  have head := r.head
  have tail := r.tail
  have prev := r.prev
  rw [r.freeCurrentProcess_eq here more]
  cases after with
  | cons x after =>
      have last : (before ++ x :: after).getLast? = some k.pcbList.tail := by
        rw [← tail]
        simp [List.getLast?_append, List.getLast?_cons]
      have ne : k.pcbList.tail ≠ k.pcbList.current := fun e =>
        once (here ▸ e ▸ List.mem_of_getLast? last)
      rw [(r.skip rfl).2.1]
      refine ⟨before, x, after, r.unlink here rfl rfl ?_ ?_, rfl, rfl, rfl⟩
      · change _ = some (if _ then _ else _)
        cases before with
        | nil =>
            rw [List.nil_append, List.head?_cons, Option.some.injEq] at head
            rw [if_pos (by rw [here, head])]
            rfl
        | cons b before =>
            rw [List.cons_append, List.head?_cons, Option.some.injEq] at head
            rw [if_neg, ← head]
            · rfl
            · rintro e
              exact once (by rw [← here, ← e, ← head]; simp)
      · change _ = some (if _ then _ else if _ then _ else _)
        rw [last, if_neg ne, ite_self]
  | nil =>
      cases before with
      | nil => exact absurd rfl more
      | cons x before =>
          rw [(r.skip rfl).2.1]
          refine ⟨[], x, before, r.unlink here (by simp) (by simp) ?_ ?_, rfl, by simp, by simp⟩
          · change _ = some (if _ then _ else _)
            rw [List.cons_append, List.head?_cons, Option.some.injEq] at head
            rw [ite_eq_right_iff.mpr fun _ => head, ← head]
            rfl
          · change _ = some (if _ then _ else if _ then _ else _)
            rw [List.getLast?_concat, Option.some.injEq] at tail
            rw [List.cons_append, List.head?_cons, Option.some.injEq] at head
            have ne : k.pcbList.head ≠ k.pcbList.current := fun e =>
              once (by rw [← here, ← e, ← head]; simp)
            rw [if_neg ne, if_pos (tail ▸ here.symm)]
            rw [List.nil_append, List.getLast?_cons_cons] at prev
            exact prev

end Circle

end SoTp.Process
