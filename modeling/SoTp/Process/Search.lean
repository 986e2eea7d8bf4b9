/-
Finding a process by its pid. `getPCBByPid` goes round the list from the head and leaves at
the first larger pid, or back at the head.

* `PidRing.search` — on a ring whose pids increase, it finds what a scan of all nodes finds.
* `RingAt.pidRing` — the list of the scheduler is such a ring.
-/

import SoTp.Lib.Sorted
import SoTp.Process.Ring

namespace SoTp.Process

open SoTp.Lib Kernel

/-- The list from `head` to `tail` is linked in a ring, and its pids increase. -/
structure PidRing (k : Kernel) (nodes : List Nat) : Prop where
  ne_nil : nodes ≠ []
  walk : Segment k.next k.pcbList.head nodes k.pcbList.head
  last : nodes.getLast? = some k.pcbList.tail
  pids : nodes.Pairwise fun m n => k.pidOf (k.pcbOf m) < k.pidOf (k.pcbOf n)

section Search

variable {k : Kernel} {nodes : List Nat} {pid fuel : Nat}

theorem PidRing.head_eq (r : PidRing k nodes) : nodes.head? = some k.pcbList.head := by
  obtain ⟨n, rest, rfl⟩ := List.exists_cons_of_ne_nil r.ne_nil
  rw [List.head?_cons, r.walk.1]

/-- Behind a node, the head does not come again. -/
theorem PidRing.ne_head (r : PidRing k nodes) {front back : List Nat} {n m : Nat}
    (split : nodes = front ++ n :: m :: back) : m ≠ k.pcbList.head := by
  rintro rfl
  have head := r.head_eq
  have pids := r.pids
  have again : nodes = (front ++ [n]) ++ k.pcbList.head :: back := by simp [split]
  rw [again, List.pairwise_append] at pids
  have first : k.pcbList.head ∈ front ++ [n] := by
    rw [again, List.head?_append_of_ne_nil _ (by simp)] at head
    exact List.mem_of_mem_head? head
  exact Nat.lt_irrefl _ (pids.2.2 _ first _ List.mem_cons_self)

theorem searchRound_found {n : Nat} (found : k.pidOf (k.pcbOf n) = pid) :
    k.searchRound pid n = .ok (.leave (k.pcbOf n)) := by
  rw [searchRound, if_pos found]

theorem searchRound_again {n : Nat} (other : k.pidOf (k.pcbOf n) ≠ pid)
    (goes : k.pidOf (k.pcbOf (k.next n)) ≤ pid ∧ k.next n ≠ k.pcbList.head) :
    k.searchRound pid n = .ok (.again (k.next n)) := by
  rw [searchRound, if_neg other]
  exact if_pos goes

theorem searchRound_missed {n : Nat} (other : k.pidOf (k.pcbOf n) ≠ pid)
    (stops : ¬ (k.pidOf (k.pcbOf (k.next n)) ≤ pid ∧ k.next n ≠ k.pcbList.head)) :
    k.searchRound pid n = .ok (.leave NULL) := by
  rw [searchRound, if_neg other]
  exact if_neg stops

/-- From a node on, the search is the one in the rest of the list. -/
theorem PidRing.seek_from (r : PidRing k nodes) {front back : List Nat} {n : Nat}
    (split : nodes = front ++ n :: back)
    (enough : (n :: back).length ≤ fuel) : loop (k.searchRound pid) fuel n =
      .ok (((seek (fun n => k.pidOf (k.pcbOf n)) pid (n :: back)).map k.pcbOf).getD NULL) := by
  induction back generalizing n front fuel with
  | nil =>
      obtain ⟨fuel, rfl⟩ : ∃ f, fuel = f + 1 := ⟨fuel - 1, by simp at enough; omega⟩
      have walk := r.walk
      rw [split] at walk
      have home : k.next n = k.pcbList.head := (segment_concat.mp walk).2
      by_cases found : k.pidOf (k.pcbOf n) = pid
      · rw [loop_succ_leave (searchRound_found found), seek, if_pos found]
        rfl
      · rw [loop_succ_leave (searchRound_missed found fun both => both.2 home), seek, if_neg found]
        rfl
  | cons m back ih =>
      obtain ⟨fuel, rfl⟩ : ∃ f, fuel = f + 1 := ⟨fuel - 1, by simp at enough; omega⟩
      have walk := r.walk
      rw [split] at walk
      have next : k.next n = m := (segment_middle.mp walk).2.1
      have inside : m ≠ k.pcbList.head := r.ne_head split
      by_cases found : k.pidOf (k.pcbOf n) = pid
      · rw [loop_succ_leave (searchRound_found found), seek, if_pos found]
        rfl
      · subst next
        by_cases le : k.pidOf (k.pcbOf (k.next n)) ≤ pid
        · rw [loop_succ_again (searchRound_again found ⟨le, inside⟩), seek, if_neg found, if_pos le]
          rw [List.length_cons] at enough
          have rest : nodes = (front ++ [n]) ++ k.next n :: back := by simp [split]
          exact ih rest (by omega)
        · rw [loop_succ_leave (searchRound_missed found fun both => le both.1), seek,
            if_neg found, if_neg le]
          rfl

/-- The search returns, with what a scan of all nodes finds. -/
theorem PidRing.search (r : PidRing k nodes) (pid : Nat) (enough : nodes.length ≤ fuel) :
    k.getPCBByPid fuel pid =
      .ok (((nodes.find? fun n => decide (k.pidOf (k.pcbOf n) = pid)).map k.pcbOf).getD NULL) := by
  obtain ⟨n, rest, rfl⟩ := List.exists_cons_of_ne_nil r.ne_nil
  have head : k.pcbList.head = n := r.walk.1
  have split : n :: rest = [] ++ n :: rest := rfl
  rw [getPCBByPid, head, r.seek_from split enough, seek_eq_find r.pids]

/-- What the search returns, with any number of rounds. -/
theorem PidRing.searched (r : PidRing k nodes) {pcb : Nat}
    (run : k.getPCBByPid fuel pid = .ok pcb) :
    pcb = ((nodes.find? fun n => decide (k.pidOf (k.pcbOf n) = pid)).map k.pcbOf).getD NULL := by
  have longer := loop_mono (Nat.le_max_left fuel nodes.length) run
  have scan := r.search pid (Nat.le_max_right fuel nodes.length)
  rw [getPCBByPid, longer] at scan
  exact Except.ok.inj scan

/-- A process of the list is found by its pid. -/
theorem PidRing.search_mem (r : PidRing k nodes) {n pcb : Nat} (mem : n ∈ nodes)
    (run : k.getPCBByPid fuel (k.pidOf (k.pcbOf n)) = .ok pcb) : pcb = k.pcbOf n := by
  rw [r.searched run, (find_sorted_iff r.pids).mpr ⟨mem, rfl⟩]
  rfl

/-- What is found is in the list, and has the pid. -/
theorem PidRing.mem_of_search (r : PidRing k nodes) {pcb : Nat}
    (run : k.getPCBByPid fuel pid = .ok pcb)
    (some : pcb ≠ NULL) : ∃ n ∈ nodes, k.pcbOf n = pcb ∧ k.pidOf pcb = pid := by
  have scan := r.searched run
  cases found : nodes.find? fun n => decide (k.pidOf (k.pcbOf n) = pid) with
  | none =>
      rw [found] at scan
      exact absurd scan some
  | some n =>
      rw [found] at scan
      obtain ⟨mem, same⟩ := (find_sorted_iff r.pids).mp found
      obtain rfl : pcb = k.pcbOf n := scan
      exact ⟨n, mem, rfl, same⟩

end Search

/-! ### The scheduler's list -/

section Ring

variable {k : Kernel} {before after : List Nat} {cursor : Nat}

/-- The ring around the cursor, walked from the head. -/
theorem RingAt.walk (r : RingAt k before cursor after) :
    Segment k.next k.pcbList.head (before ++ cursor :: after) k.pcbList.head := by
  obtain ⟨c, back, front⟩ := segment_append.mp (show Segment k.next cursor
    ((cursor :: after) ++ before) cursor from r.cycle)
  have walk : Segment k.next c (before ++ cursor :: after) c :=
    segment_append.mpr ⟨cursor, front, back⟩
  have head : k.pcbList.head = c := by
    have head := r.head
    cases before with
    | nil =>
        simp only [List.nil_append, List.head?_cons, Option.some.injEq] at head
        rw [← head]
        exact (show c = cursor from front).symm
    | cons x before =>
        simp only [List.cons_append, List.head?_cons, Option.some.injEq] at head
        rw [← head]
        exact front.1.symm
  rw [head]
  exact walk

theorem RingAt.pidRing (r : RingAt k before cursor after) : PidRing k (before ++ cursor :: after) :=
  ⟨by simp, r.walk, r.tail, r.pids⟩

end Ring

end SoTp.Process
