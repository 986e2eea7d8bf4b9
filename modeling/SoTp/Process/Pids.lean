/-
The order of the pids in the scheduler's list. Each call of `createProcess` takes the next
pid, also one that fails, so the order lasts as long as the calls do not use up the pids.

* `ListRun.ring` — adding and taking out processes, in any order, keeps the ring.
* `getPCBByPid_scan` — so the search by pid finds what a scan of the list finds.
* `pids_wrap` — creations that fail count too: with ten of them, fewer processes are enough
  for a pid to come again.
-/

import SoTp.Process.Runs

namespace SoTp.Process

open SoTp.Lib Kernel

/-- The states that `addPCB` and `freeCurrentProcess` reach after so many calls of
`createProcess`, with so many processes created. In between, the cursor goes on or to the
idle process, and everything else may change. -/
inductive ListRun : Nat → Nat → Kernel → Prop
  | boot (idleRsp initRsp : Nat) (garbage : Int) : ListRun 1 1 (boot idleRsp initRsp garbage)
  | createProcess {calls created : Nat} {k k' : Kernel} {mem : ProcessMemory} {rsp : Nat}
      {garbage : Int} {ok : Bool}
      (before : ListRun calls created k) (run : k.createProcess mem rsp garbage = .ok (k', ok)) :
      ListRun (calls + 1) (if ok then created + 1 else created) k'
  | freeCurrentProcess {calls created : Nat} {k : Kernel} (before : ListRun calls created k)
      (busy : ¬ k.idle) : ListRun calls created k.freeCurrentProcess
  | nextPCB {calls created : Nat} {k : Kernel} (before : ListRun calls created k) :
      ListRun calls created k.nextPCB
  | idle {calls created : Nat} {k : Kernel} (before : ListRun calls created k) :
      ListRun calls created { k with pcbList := { k.pcbList with current := k.idleProcPCBNode } }
  | other {calls created : Nat} {k k' : Kernel} (before : ListRun calls created k)
      (same : SameRing k k') : ListRun calls created k'

/-! ### The order is kept -/

section Kept

variable {k : Kernel} {calls created : Nat}

theorem nextPCB_keeps (k : Kernel) : k.nextPCB.pid = k.pid ∧ k.nextPCB.pcbs = k.pcbs ∧
    k.nextPCB.pcbOf = k.pcbOf := by
  unfold Kernel.nextPCB
  split_ifs <;> exact ⟨rfl, rfl, rfl⟩

theorem freeCurrentProcess_keeps (k : Kernel) : k.freeCurrentProcess.pid = k.pid ∧
    k.freeCurrentProcess.pcbs = k.pcbs ∧ k.freeCurrentProcess.pcbOf = k.pcbOf := by
  unfold Kernel.freeCurrentProcess
  split_ifs
  · exact ⟨rfl, rfl, rfl⟩
  · exact ⟨rfl, rfl, rfl⟩
  · refine ⟨rfl, rfl, ?_⟩
    funext n
    exact setNext_pcbOf (k := k) (n := k.pcbList.prev) (m := k.next k.pcbList.current) (q := n)

theorem Ring.nextPCB (r : Ring k) : Ring k.nextPCB := by
  obtain ⟨before, cursor, after, ring, here | asleep⟩ := r
  · obtain ⟨before', cursor', after', ring', here', -⟩ := nextPCB_ring ring here
    exact ⟨before', cursor', after', ring', Or.inl here'⟩
  · obtain ⟨ring', here'⟩ := nextPCB_idle ring asleep
    exact ⟨before, cursor, after, ring', Or.inl here'⟩

theorem Ring.freeCurrentProcess (r : Ring k) (busy : ¬ k.idle) : Ring k.freeCurrentProcess := by
  obtain ⟨before, cursor, after, ring, at_⟩ := r
  have here := at_.resolve_right busy
  by_cases alone : after ++ before = []
  · have same : k.freeCurrentProcess = k := by
      rw [Kernel.freeCurrentProcess, if_pos (ring.head_eq_tail.mpr alone), ite_self]
    rw [same]
    exact ⟨before, cursor, after, ring, at_⟩
  · obtain ⟨before', cursor', after', ring', here', -⟩ := freeCurrentProcess_ring ring here alone
    exact ⟨before', cursor', after', ring', Or.inl here'⟩

/-- A call of `createProcess`, whether it fails or not. -/
theorem Ring.createProcess (r : Ring k) (bound : k.pid < IDLE_PID) {mem : ProcessMemory} {rsp : Nat}
    {garbage : Int} {out : Kernel × Bool} (run : k.createProcess mem rsp garbage = .ok out) :
    Ring out.1 ∧ out.1.pid = k.pid + 1 := by
  have small : (k.pid + 1) % 2 ^ 32 = k.pid + 1 :=
    Nat.mod_eq_of_lt (by unfold IDLE_PID at bound; omega)
  obtain ⟨before, cursor, after, ring, at_⟩ := r
  rcases createProcess_eq mem rsp garbage run with added | failed
  · rw [added]
    refine ⟨⟨before, cursor, _, ring.added bound rsp garbage, ?_⟩, by rw [added_rest]; exact small⟩
    rw [Kernel.idle, (added_eq ring.head_ne rsp garbage).2.2, added_rest]
    exact at_
  · rw [failed, small]
    exact ⟨⟨before, cursor, after, ring.counter_succ bound, at_⟩, rfl⟩

/-- As long as the calls do not use up the pids, the list is a ring in the order of the
pids, and the next pid is the number of calls. -/
theorem ListRun.ring (run : ListRun calls created k) (few : calls ≤ IDLE_PID) : Ring k ∧
    k.pid = calls := by
  induction run with
  | boot idleRsp initRsp garbage =>
      exact ⟨⟨[], 3, [], boot_ring idleRsp initRsp garbage, Or.inl rfl⟩, rfl⟩
  | createProcess before run ih =>
      obtain ⟨ring, pid⟩ := ih (by omega)
      obtain ⟨ring', pid'⟩ := ring.createProcess (by omega) run
      exact ⟨ring', by rw [pid', pid]⟩
  | @freeCurrentProcess calls created k before busy ih =>
      obtain ⟨ring, pid⟩ := ih few
      exact ⟨ring.freeCurrentProcess busy, (freeCurrentProcess_keeps k).1.trans pid⟩
  | @nextPCB calls created k before ih =>
      obtain ⟨ring, pid⟩ := ih few
      exact ⟨ring.nextPCB, (nextPCB_keeps k).1.trans pid⟩
  | idle before ih =>
      obtain ⟨⟨before, cursor, after, ring, -⟩, pid⟩ := ih few
      exact ⟨⟨before, cursor, after, { ring with }, Or.inr rfl⟩, pid⟩
  | other before same ih =>
      obtain ⟨ring, pid⟩ := ih few
      exact ⟨ring.congr same, same.pid.trans pid⟩

end Kept

/-- On every ring whose pids increase, the search returns, with the process of the pid if
there is one, and NULL otherwise. The list is such a ring as long as there were fewer than
`2^32 - 1` calls of `createProcess`. -/
theorem getPCBByPid_scan :
    (∀ k nodes, PidRing k nodes → ∀ pid fuel, nodes.length ≤ fuel →
      (∀ n ∈ nodes, k.pidOf (k.pcbOf n) = pid → k.getPCBByPid fuel pid = .ok (k.pcbOf n)) ∧
        ((∀ n ∈ nodes, k.pidOf (k.pcbOf n) ≠ pid) → k.getPCBByPid fuel pid = .ok NULL)) ∧
      ∀ calls created k, ListRun calls created k → calls < 2 ^ 32 - 1 →
        ∃ nodes, PidRing k nodes := by
  constructor
  · intro k nodes ring pid fuel enough
    have search := ring.search pid enough
    constructor
    · intro n mem same
      rw [search, (find_sorted_iff ring.pids).mpr ⟨mem, same⟩]
      rfl
    · intro none
      have missed : (nodes.find? fun n => decide (k.pidOf (k.pcbOf n) = pid)) = Option.none :=
        List.find?_eq_none.mpr fun n mem same => none n mem (of_decide_eq_true same)
      rw [search, missed]
      rfl
  · intro calls created k run few
    obtain ⟨⟨before, cursor, after, ring, -⟩, -⟩ := run.ring (by unfold IDLE_PID; omega)
    exact ⟨_, ring.pidRing⟩

/-- A process is created with all the memory it asks for. -/
def withProcess (k : Kernel) : Kernel :=
  ((k.createProcess ⟨true, true, true, true, true⟩ 0 0).toOption.map Prod.fst).getD k

theorem withProcess_run (k : Kernel) :
    k.createProcess ⟨true, true, true, true, true⟩ 0 0 = .ok (withProcess k, true) := rfl

/-- `init` created three processes, and the first of them is out of the list again. -/
def family : Kernel :=
  (withProcess (withProcess (withProcess (boot 0 0 0)))).nextPCB.freeCurrentProcess

/-- The pids 0, 2 and 3 are in the list. -/
theorem getPCBByPid_scan_family : family.getPCBByPid 3 2 = .ok 8 ∧
    family.getPCBByPid 3 1 = .ok NULL ∧ ∃ nodes, PidRing family nodes := by
  have ring : PidRing family [3, 7, 9] :=
    { ne_nil := by decide
      walk := ⟨by decide +kernel, by decide +kernel, by decide +kernel,
        (by decide +kernel : family.next 9 = family.pcbList.head)⟩
      last := by decide +kernel
      pids := by decide +kernel }
  have created : ListRun 4 4 (withProcess (withProcess (withProcess (boot 0 0 0)))) :=
    .createProcess (.createProcess (.createProcess (.boot 0 0 0) (withProcess_run _))
      (withProcess_run _)) (withProcess_run _)
  have listed : ListRun 4 4 family := .freeCurrentProcess (.nextPCB created) (by decide +kernel)
  exact ⟨(getPCBByPid_scan.1 _ _ ring 2 3 (Nat.le_refl 3)).1 7 (by decide) (by decide +kernel),
    (getPCBByPid_scan.1 _ _ ring 1 3 (Nat.le_refl 3)).2 (by decide +kernel),
    getPCBByPid_scan.2 4 4 _ listed (by decide)⟩

/-- In every run of the kernel the list is such a ring. -/
theorem Reach.pidRing {k : Kernel} (reach : Reach (fun _ _ => True) k) :
    ∃ nodes, PidRing k nodes := by
  have i : Inv False k := reach.sound
  obtain ⟨before, cursor, after, ring, -⟩ := i.ring
  exact ⟨_, ring.pidRing⟩

/-! ### The pids are used up -/

section Wrapping

variable {k : Kernel} {calls created c : Nat}

/-- `c` is the only process of the list, with the pid 0. -/
structure Lone (k : Kernel) (c : Nat) : Prop where
  ring : RingAt k [] c []
  here : k.pcbList.current = c
  zero : k.pidOf (k.pcbOf c) = 0

theorem pidOf_congr {k' : Kernel} {n : Nat} (pcbs : k'.pcbs = k.pcbs) (pcbOf : k'.pcbOf = k.pcbOf) :
    k'.pidOf (k'.pcbOf n) = k.pidOf (k.pcbOf n) := by
  rw [pidOf, pcbs, pcbOf, pidOf]

/-- A process is created, and taken out when it is the current one. -/
theorem Lone.cycle (lone : Lone k c) (run : ListRun calls created k) (bound : k.pid < IDLE_PID) :
    ∃ k', ListRun (calls + 1) (created + 1) k' ∧ Lone k' c ∧ k'.pid = k.pid + 1 := by
  have ring := lone.ring
  have create : k.createProcess ⟨true, true, true, true, true⟩ 0 0 = .ok (added k 0 0, true) := rfl
  obtain ⟨-, pcbOf, list⟩ := added_eq ring.head_ne 0 0
  have two := ring.added bound 0 0
  have here₁ : (added k 0 0).pcbList.current = c := by rw [list]; exact lone.here
  obtain ⟨before, cursor, after, ring₂, here₂, -, view⟩ := nextPCB_ring two here₁
  obtain ⟨first, rest⟩ : cursor = k.unused ∧ after ++ before = [c] := by simpa using view
  have busy : ¬ (added k 0 0).nextPCB.idle := fun asleep =>
    ring₂.ne_idle ring₂.cursor_mem (here₂.symm.trans asleep)
  obtain ⟨before', cursor', after', ring₃, here₃, -, view'⟩ :=
    freeCurrentProcess_ring ring₂ here₂ (by rw [rest]; simp)
  obtain ⟨last, none⟩ : cursor' = c ∧ after' ++ before' = [] := by simpa [rest] using view'
  obtain ⟨rfl, rfl⟩ := List.append_eq_nil_iff.mp none
  rw [last] at ring₃ here₃
  refine ⟨_, .freeCurrentProcess (.nextPCB (.createProcess run create)) busy,
    ⟨ring₃, here₃, ?_⟩, ?_⟩
  · obtain ⟨-, pcbs₂, pcbOf₂⟩ := nextPCB_keeps (added k 0 0)
    obtain ⟨-, pcbs₃, pcbOf₃⟩ := freeCurrentProcess_keeps (added k 0 0).nextPCB
    have used := ring.used c ring.cursor_mem
    have known := (ring.members _ used.2.2.2).1
    rw [pidOf_congr pcbs₃ pcbOf₃, pidOf_congr pcbs₂ pcbOf₂, pcbOf,
      Function.update_of_ne used.2.1.ne, pidOf, added_pcbs, if_neg (by omega)]
    exact lone.zero
  · rw [(freeCurrentProcess_keeps _).1, (nextPCB_keeps _).1, added_rest]
    exact Nat.mod_eq_of_lt (by unfold IDLE_PID at bound; omega)

/-- Processes come and go until as many pids are used up. -/
theorem lone_after (n : Nat) (fits : n < IDLE_PID) :
    ∃ k, ListRun (n + 1) (n + 1) k ∧ Lone k 3 ∧ k.pid = n + 1 := by
  induction n with
  | zero => exact ⟨boot 0 0 0, .boot 0 0 0, ⟨boot_ring 0 0 0, rfl, rfl⟩, rfl⟩
  | succ n ih =>
      obtain ⟨k, run, lone, pid⟩ := ih (by omega)
      obtain ⟨k', run', lone', pid'⟩ := lone.cycle run (by omega)
      exact ⟨k', run', lone', by rw [pid', pid]⟩

/-- Creations that fail take pids. -/
theorem ListRun.failures (run : ListRun calls created k) (n : Nat) :
    ListRun (calls + (n + 1)) created { k with pid := (k.pid + (n + 1)) % 2 ^ 32 } := by
  have fails : ∀ j : Kernel, j.createProcess ⟨true, false, false, false, false⟩ 0 0 =
      .ok ({ j with pid := (j.pid + 1) % 2 ^ 32 }, false) := fun _ => rfl
  induction n with
  | zero => exact run.createProcess (fails k)
  | succ n ih =>
      have next : (k.pid + (n + 1 + 1)) % 2 ^ 32 = ((k.pid + (n + 1)) % 2 ^ 32 + 1) % 2 ^ 32 := by
        omega
      rw [next]
      exact ih.createProcess (fails _)

/-- A new process with the pid of the only one. -/
theorem Lone.twice (lone : Lone k c) :
    ¬ ∃ nodes, PidRing (added { k with pid := 0 } 0 0) nodes := by
  have ring := lone.ring
  have head : k.pcbList.head = c := (Option.some.inj ring.head).symm
  have tail : k.pcbList.tail = c := (Option.some.inj ring.tail).symm
  obtain ⟨next, pcbOf, list⟩ := added_eq (k := { k with pid := 0 }) ring.head_ne 0 0
  have pcbs : (added { k with pid := 0 } 0 0).pcbs =
      Function.update k.pcbs (k.unused + 1) (newPCB { k with pid := 0 } 0 0) := by rw [added_rest]
  have used := ring.used c ring.cursor_mem
  have known := (ring.members _ used.2.2.2).1
  have behind : (added { k with pid := 0 } 0 0).next c = k.unused := by
    rw [next]
    exact tail ▸ Function.update_self _ _ _
  rintro ⟨nodes, r⟩
  have start : (added { k with pid := 0 } 0 0).pcbList.head = c := by rw [list]; exact head
  have walk := r.walk
  have pids := r.pids
  rw [start] at walk
  cases nodes with
  | nil => exact r.ne_nil rfl
  | cons n rest =>
      obtain ⟨rfl, walk⟩ := walk
      rw [behind] at walk
      cases rest with
      | nil => exact used.2.1.ne walk.symm
      | cons m rest =>
          obtain ⟨rfl, -⟩ := walk
          have lt := (List.pairwise_cons.mp pids).1 _ List.mem_cons_self
          have node : (added { k with pid := 0 } 0 0).pcbOf k.unused = k.unused + 1 := by
            rw [pcbOf]
            exact Function.update_self _ _ _
          have again : (added { k with pid := 0 } 0 0).pidOf (k.unused + 1) = 0 := by
            rw [pidOf, pcbs, Function.update_self]
            rfl
          rw [node, again] at lt
          exact Nat.not_lt_zero _ lt

end Wrapping

/-- `init` creates one process after the other, each gone before the next, and ten more
creations fail for want of memory. Then the next process gets the pid 0 as well: the order
is lost with fewer than `2^32 - 1` processes created. -/
theorem pids_wrap : ∃ calls created k, ListRun calls created k ∧ created < 2 ^ 32 - 1 ∧
    ¬ ∃ nodes, PidRing k nodes := by
  obtain ⟨k, run, lone, pid⟩ := lone_after (2 ^ 32 - 11) (by decide)
  have failed := run.failures 9
  have zero : (k.pid + (9 + 1)) % 2 ^ 32 = 0 := by omega
  rw [zero] at failed
  have create : ({ k with pid := 0 } : Kernel).createProcess ⟨true, true, true, true, true⟩ 0 0 =
      .ok (added { k with pid := 0 } 0 0, true) := rfl
  exact ⟨_, _, _, failed.createProcess create, by decide, lone.twice⟩

end SoTp.Process
