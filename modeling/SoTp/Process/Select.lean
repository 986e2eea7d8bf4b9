/-
What `schedule` does. From a ring it always ends, and it leaves a ring: it picks
the next READY process or, when there is none, the idle one, and reaps EXITED
processes it passes (never the one it came from).

* `select_spec`, `schedule_spec` — `schedule` ends, with one process RUNNING or
  with the idle one.
* `contextSwitch_total`, `contextSwitch_of_ok` — the same for `contextSwitch`, with
  enough rounds, and whenever it returns.
-/

import SoTp.Process.Ring

namespace SoTp.Process

open SoTp.Lib Kernel

/-! ### Frame of a context switch -/

def Awake (s : State) : Prop := s = .ready ∨ s = .running

/-- What a context switch leaves alone: it moves processes between READY and
RUNNING and frees EXITED ones. -/
structure Selects (k k' : Kernel) : Prop where
  pcbOf : k'.pcbOf = k.pcbOf
  idleNode : k'.idleProcPCBNode = k.idleProcPCBNode
  pid : k'.pid = k.pid
  unused : k'.unused = k.unused
  foreground : k'.processInForeground = k.processInForeground
  semArray : k'.semArray = k.semArray
  freedPositions : k'.freedPositions = k.freedPositions
  sleepNodes : k'.sleepNodes = k.sleepNodes
  first : k'.first = k.first
  samePCB : ∀ p, k'.pcbs p =
    { k.pcbs p with state := (k'.pcbs p).state, rsp := (k'.pcbs p).rsp }
  states : ∀ p, k'.stateOf p = k.stateOf p ∨ Awake (k.stateOf p) ∧ Awake (k'.stateOf p)
  allocated : ∀ p, k'.allocated p = k.allocated p ∨ k'.allocated p = false ∧ k.stateOf p = .exited

namespace Selects

variable {k k' k'' : Kernel}

theorem refl (k : Kernel) : Selects k k :=
  ⟨rfl, rfl, rfl, rfl, rfl, rfl, rfl, rfl, rfl, fun _ => rfl, fun _ =>
    Or.inl rfl, fun _ => Or.inl rfl⟩

/-- EXITED is for ever, whatever is selected. -/
theorem exited_iff (h : Selects k k') (p : Nat) : k'.stateOf p = .exited ↔
    k.stateOf p = .exited := by
  rcases h.states p with e | ⟨a | a, b | b⟩
  · rw [e]
  all_goals simp [a, b]

theorem trans (h : Selects k k') (h' : Selects k' k'') : Selects k k'' where
  pcbOf := h'.pcbOf.trans h.pcbOf
  idleNode := h'.idleNode.trans h.idleNode
  pid := h'.pid.trans h.pid
  unused := h'.unused.trans h.unused
  foreground := h'.foreground.trans h.foreground
  semArray := h'.semArray.trans h.semArray
  freedPositions := h'.freedPositions.trans h.freedPositions
  sleepNodes := h'.sleepNodes.trans h.sleepNodes
  first := h'.first.trans h.first
  samePCB p := by rw [h'.samePCB p, h.samePCB p]
  states p := by
    rcases h.states p with e | ⟨a, b⟩
    · rw [← e]
      exact h'.states p
    · rcases h'.states p with e | ⟨-, c⟩
      · exact Or.inr ⟨a, e ▸ b⟩
      · exact Or.inr ⟨a, c⟩
  allocated p := by
    rcases h'.allocated p with e | ⟨gone, state⟩
    · rw [e]
      exact h.allocated p
    · exact Or.inr ⟨gone, (h.exited_iff p).mp state⟩

theorem pidOf (h : Selects k k') (p : Nat) : k'.pidOf p = k.pidOf p := by
  rw [Kernel.pidOf, h.samePCB, Kernel.pidOf]

theorem waitersOf (h : Selects k k') (p : Nat) : k'.waitersOf p = k.waitersOf p := by
  rw [Kernel.waitersOf, h.samePCB, Kernel.waitersOf]

theorem idlePCB (h : Selects k k') : k'.idlePCB = k.idlePCB := by
  rw [Kernel.idlePCB, h.pcbOf, h.idleNode, Kernel.idlePCB]

end Selects

/-! ### What a selection starts from -/

/-- The states of the processes, as far as the scheduler relies on them. -/
structure Schedulable (k : Kernel) : Prop where
  idle : k.stateOf k.idlePCB = .ready
  freed : ∀ p, k.allocated p = false → k.stateOf p = .exited
  running : ∀ p, k.stateOf p = .running → p = k.currentPCB

/-- Outside of a kernel operation the current process can run. -/
structure Scheduled (k : Kernel) : Prop extends Schedulable k where
  current : Awake (k.stateOf k.currentPCB)

/-- The ring, with the cursor at the current process unless that is the idle one. -/
def Ring (k : Kernel) : Prop :=
  ∃ before cursor after, RingAt k before cursor after ∧ (k.pcbList.current = cursor ∨ k.idle)

theorem Ring.congr {k k' : Kernel} (r : Ring k) (same : SameRing k k') : Ring k' := by
  obtain ⟨before, cursor, after, ring, here⟩ := r
  refine ⟨before, cursor, after, ring.congr same, here.imp ?_ same.idle.mpr⟩
  rw [same.pcbList]
  exact id

/-- What a selection ends with: a single process RUNNING, or the idle one. -/
def Selected (k : Kernel) : Prop :=
  (¬ k.idle ∧ k.stateOf k.currentPCB = .running ∧ ∀ p, k.stateOf p = .running → p = k.currentPCB) ∨
    (k.idle ∧ ∀ p, k.stateOf p ≠ .running)

theorem Selected.running {k : Kernel} (s : Selected k) {p : Nat} (hp : k.stateOf p = .running) :
    p = k.currentPCB := by
  rcases s with ⟨-, -, only⟩ | ⟨-, none⟩
  · exact only p hp
  · exact absurd hp (none p)

theorem Selected.current {k : Kernel} (s : Selected k) (idle : k.stateOf k.idlePCB = .ready) :
    Awake (k.stateOf k.currentPCB) := by
  rcases s with ⟨-, run, -⟩ | ⟨here, -⟩
  · exact Or.inr run
  · refine Or.inl ?_
    rwa [currentPCB, here]

/-! ### The search -/

section Search

variable {k : Kernel}

theorem nextPCB_selects : Selects k k.nextPCB := by
  unfold nextPCB
  split_ifs <;> exact ⟨rfl, rfl, rfl, rfl, rfl, rfl, rfl, rfl, rfl, fun _ =>
    rfl, fun _ => Or.inl rfl, fun _ => Or.inl rfl⟩

theorem unlinked_selects {x : Nat} (exited : k.stateOf k.currentPCB = .exited) :
    Selects k (unlinked k x) := by
  refine ⟨funext fun n => unlinked_pcbOf, rfl, rfl, rfl, rfl, rfl, rfl, rfl, rfl, fun _ => rfl,
    fun _ => Or.inl rfl, fun p => ?_⟩
  by_cases e : p = k.currentPCB
  · subst e
    exact Or.inr ⟨Function.update_self _ _ _, exited⟩
  · exact Or.inl (Function.update_of_ne e _ _)

/-- A change of the state and `rsp` of PCBs keeps the list as it is. -/
theorem setPCB_sameRing {p : Nat} {f : PCB → PCB} (pid : (f (k.pcbs p)).pid = (k.pcbs p).pid) :
    SameRing k (k.setPCB p f) where
  nodes := rfl
  pcbList := rfl
  idleNode := rfl
  allocated := rfl
  pid := rfl
  unused := Nat.le_refl _
  pids q := by
    rw [pidOf, setPCB_pcbs, pidOf]
    split_ifs with e
    · rw [e, pid]
    · rfl

theorem quantums_selects {n : Int} : Selects k { k with quantumsLeft := n } :=
  ⟨rfl, rfl, rfl, rfl, rfl, rfl, rfl, rfl, rfl, fun _ => rfl, fun _ =>
    Or.inl rfl, fun _ => Or.inl rfl⟩

theorem quantums_sameRing {n : Int} : SameRing k { k with quantumsLeft := n } :=
  ⟨rfl, rfl, rfl, rfl, rfl, Nat.le_refl _, fun _ => rfl⟩

theorem setState_selects {p : Nat} {s : State} (before : Awake (k.stateOf p)) (after : Awake s) :
    Selects k (k.setState p s) := by
  refine ⟨rfl, rfl, rfl, rfl, rfl, rfl, rfl, rfl, rfl, fun q => ?_, fun q => ?_,
    fun _ => Or.inl rfl⟩
  · rw [setState, setPCB_pcbs]
    split_ifs with e
    · rw [e]
    · rfl
  · rw [stateOf_setState]
    split_ifs with e
    · exact Or.inr ⟨e ▸ before, after⟩
    · exact Or.inl rfl

/-- The search for the next process, from a ring in which nobody is RUNNING. -/
structure Searching (start k : Kernel) (ogCurrent n : Nat) (before : List Nat) (cursor : Nat)
    (after : List Nat) : Prop where
  ring : RingAt k before cursor after
  here : k.pcbList.current = cursor
  /-- `n` nodes are left before the search is back where it began. -/
  distance : ∃ passed, ∃ rest, cursor :: (after ++ before) = passed ++ ogCurrent :: rest ∧
    passed.length = n
  selects : Selects start k
  idle : k.stateOf k.idlePCB = .ready
  freed : ∀ p, k.allocated p = false → k.stateOf p = .exited
  none : ∀ p, k.stateOf p ≠ .running

/-- What `schedule` returns. -/
structure Picked (start : Kernel) (r : Kernel × Nat) : Prop where
  ring : Ring r.1
  selects : Selects start r.1
  idle : r.1.stateOf r.1.idlePCB = .ready
  freed : ∀ p, r.1.allocated p = false → r.1.stateOf p = .exited
  selected : Selected r.1
  rsp : r.2 = (r.1.pcbs r.1.currentPCB).rsp

theorem searching_round {start : Kernel} {ogCurrent n : Nat}
    (h : ∃ before cursor after, Searching start k ogCurrent n before cursor after) :
    (∃ r, selectRound ogCurrent k = .ok (.leave r) ∧ Picked start r) ∨
      ∃ m k', m < n ∧ selectRound ogCurrent k = .ok (.again k') ∧
        ∃ before cursor after, Searching start k' ogCurrent m before cursor after := by
  obtain ⟨before, cursor, after, s⟩ := h
  have ring := s.ring
  have here := s.here
  obtain ⟨passed, rest, view, length⟩ := s.distance
  by_cases ready : k.stateOf k.currentPCB = .ready
  · -- The process at hand can run.
    left
    refine ⟨_, by rw [selectRound, if_pos ready], ?_⟩
    have same : SameRing k (k.setState k.currentPCB .running) := setPCB_sameRing rfl
    have running : ∀ p, (k.setState k.currentPCB .running).stateOf p = .running →
        p = k.currentPCB := fun p hp => by
      by_contra ne
      rw [stateOf_setState_ne ne] at hp
      exact s.none p hp
    have ne : k.currentPCB ≠ k.idlePCB := ring.pcbOf_ne_idle (here ▸ ring.cursor_mem)
    refine ⟨⟨before, cursor, after, ring.congr (same.trans quantums_sameRing), Or.inl here⟩, ?_, ?_,
      ?_, Or.inl ⟨?_, ?_, ?_⟩, ?_⟩
    · have woken := setState_selects (Or.inl ready) (s := .running) (Or.inr rfl)
      exact s.selects.trans (woken.trans quantums_selects)
    · exact (stateOf_setState_ne ne.symm).trans s.idle
    · intro p hp
      have alive : p ≠ k.currentPCB := by
        rintro rfl
        rw [s.freed _ hp] at ready
        cases ready
      exact (stateOf_setState_ne alive).trans (s.freed p hp)
    · intro idle
      exact ring.ne_idle ring.cursor_mem (here ▸ idle)
    · exact stateOf_setState_self
    · exact running
    · rfl
  by_cases back : k.pcbList.current = ogCurrent
  · -- The search has come back: the idle process runs.
    left
    refine ⟨_, by rw [selectRound, if_neg ready, if_pos back], ?_⟩
    exact ⟨⟨before, cursor, after, { ring with }, Or.inr rfl⟩, s.selects.trans
      ⟨rfl, rfl, rfl, rfl, rfl, rfl, rfl, rfl, rfl, fun _ => rfl, fun _ => Or.inl rfl, fun _ =>
        Or.inl rfl⟩,
      s.idle, s.freed, Or.inr ⟨rfl, s.none⟩, rfl⟩
  · right
    obtain ⟨passed, rfl⟩ : ∃ passed', passed = cursor :: passed' := by
      cases passed with
      | nil => exact absurd (here.trans (List.cons.inj view).1) back
      | cons x passed => exact ⟨passed, by rw [(List.cons.inj view).1]⟩
    have rest_view : after ++ before = passed ++ ogCurrent :: rest := (List.cons.inj view).2
    have more : after ++ before ≠ [] := by rw [rest_view]; simp
    by_cases exited : k.stateOf k.currentPCB = .exited
    · obtain ⟨before', cursor', after', ring', here', -, view'⟩ :=
        freeCurrentProcess_ring ring here more
      have e := freeCurrentProcess_eq ring here more
      have selects : Selects k k.freeCurrentProcess := e ▸ unlinked_selects exited
      refine ⟨passed.length, k.freeCurrentProcess, by rw [← length]; exact Nat.lt_succ_self _, ?_,
        before', cursor', after', ring', here', ⟨passed, rest, view'.trans rest_view, rfl⟩,
        s.selects.trans selects, ?_, ?_, ?_⟩
      · rw [selectRound, if_neg ready, if_neg back, if_pos exited]
      · have states : k.freeCurrentProcess.stateOf = k.stateOf := by rw [e]; rfl
        rw [selects.idlePCB, states]
        exact s.idle
      · intro p hp
        rcases selects.allocated p with same | ⟨-, dead⟩
        · exact (selects.exited_iff p).mpr (s.freed p (same ▸ hp))
        · exact (selects.exited_iff p).mpr dead
      · have states : k.freeCurrentProcess.stateOf = k.stateOf := by rw [e]; rfl
        rw [states]
        exact s.none
    · obtain ⟨before', cursor', after', ring', here', -, view'⟩ := nextPCB_ring ring here
      have selects : Selects k k.nextPCB := nextPCB_selects
      have states : k.nextPCB.stateOf = k.stateOf := by
        unfold nextPCB
        split_ifs <;> rfl
      have allocated : k.nextPCB.allocated = k.allocated := by
        unfold nextPCB
        split_ifs <;> rfl
      refine ⟨passed.length, k.nextPCB, by rw [← length]; exact Nat.lt_succ_self _, ?_,
        before', cursor', after', ring', here', ⟨passed, rest ++ [cursor], ?_, rfl⟩,
        s.selects.trans selects, ?_, ?_, ?_⟩
      · rw [selectRound, if_neg ready, if_neg back, if_neg exited]
      · rw [view', rest_view, List.append_assoc, List.cons_append]
      · rw [selects.idlePCB, states]
        exact s.idle
      · rw [states, allocated]
        exact s.freed
      · rw [states]
        exact s.none

/-- The preempted process waits for its next turn. -/
def preempted (k : Kernel) : Kernel :=
  if k.stateOf k.currentPCB = .running then k.setState k.currentPCB .ready else k

theorem preempted_spec (r : Ring k) (s : Schedulable k) :
    Ring (preempted k) ∧ Selects k (preempted k) ∧ (preempted k).pcbList = k.pcbList ∧
      (preempted k).stateOf k.idlePCB = .ready ∧
      (∀ p, (preempted k).allocated p = false → (preempted k).stateOf p = .exited) ∧
      ∀ p, (preempted k).stateOf p ≠ .running := by
  unfold preempted
  split_ifs with running
  · have ne : k.currentPCB ≠ k.idlePCB := fun e => by
      rw [e, s.idle] at running
      cases running
    refine ⟨r.congr (setPCB_sameRing rfl), setState_selects (Or.inr running) (Or.inl rfl), rfl,
      (stateOf_setState_ne ne.symm).trans s.idle, fun p hp => ?_, fun p hp => ?_⟩
    · have alive : p ≠ k.currentPCB := by
        rintro rfl
        rw [s.freed _ hp] at running
        cases running
      exact (stateOf_setState_ne alive).trans (s.freed p hp)
    · rw [stateOf_setState] at hp
      split_ifs at hp with e
      exact e (s.running p hp)
  · refine ⟨r, Selects.refl k, rfl, s.idle, s.freed, fun p hp => running ?_⟩
    rwa [← s.running p hp]

theorem select_eq (fuel : Nat) : k.select fuel =
    let k := if (preempted k).idle then (preempted k).nextPCB else preempted k
    loop (selectRound k.pcbList.current) fuel k.nextPCB := rfl

/-- The selection ends. -/
theorem select_spec (r : Ring k) (s : Schedulable k) :
    ∃ n, ∀ fuel, n < fuel → ∃ r, k.select fuel = .ok r ∧ Picked k r := by
  obtain ⟨⟨before, cursor, after, ring, here⟩, selects, -, idle, freed, none⟩ := preempted_spec r s
  rw [← selects.idlePCB] at idle
  -- After leaving the idle process, the cursor is at a process of the ring.
  obtain ⟨k₁, e, ring₁, here₁, selects₁, states₁, allocated₁⟩ : ∃ k₁ : Kernel,
      (if (preempted k).idle then (preempted k).nextPCB else preempted k) = k₁ ∧
      RingAt k₁ before cursor after ∧ k₁.pcbList.current = cursor ∧ Selects k k₁ ∧
      k₁.stateOf = (preempted k).stateOf ∧ k₁.allocated = (preempted k).allocated := by
    by_cases asleep : (preempted k).idle
    · obtain ⟨ring', here'⟩ := nextPCB_idle ring asleep
      refine ⟨(preempted k).nextPCB, if_pos asleep, ring', here', selects.trans nextPCB_selects,
        ?_, ?_⟩
      all_goals
        unfold nextPCB
        split_ifs <;> rfl
    · exact ⟨preempted k, if_neg asleep, ring, here.resolve_right asleep, selects, rfl, rfl⟩
  obtain ⟨before', cursor', after', ring', here', -, view'⟩ := nextPCB_ring ring₁ here₁
  have states : k₁.nextPCB.stateOf = (preempted k).stateOf := by
    rw [← states₁]
    unfold nextPCB
    split_ifs <;> rfl
  have allocated : k₁.nextPCB.allocated = (preempted k).allocated := by
    rw [← allocated₁]
    unfold nextPCB
    split_ifs <;> rfl
  have selects' := selects₁.trans nextPCB_selects
  refine ⟨(after ++ before).length, fun fuel enough => ?_⟩
  rw [select_eq, e]
  refine loop_total (fun n k' => ∃ before cursor after,
    Searching k k' k₁.pcbList.current n before cursor after) (Picked k)
    (fun n k' h => searching_round h) ⟨before', cursor', after', ring', here', ?_,
      selects', ?_, ?_, ?_⟩
    enough
  · exact ⟨after ++ before, [], by rw [view', here₁], rfl⟩
  · rw [selects'.idlePCB, ← selects.idlePCB, states]
    exact idle
  · rw [states, allocated]
    exact freed
  · rw [states]
    exact none

end Search

/-! ### schedule and contextSwitch -/

section ContextSwitch

variable {k k' : Kernel}

theorem saveRsp_selects {rsp : Nat} : Selects k (k.saveRsp rsp) := by
  refine ⟨rfl, rfl, rfl, rfl, rfl, rfl, rfl, rfl, rfl, fun q => ?_, fun q =>
    Or.inl ?_, fun _ => Or.inl rfl⟩
  · rw [saveRsp, setPCB_pcbs]
    split_ifs with e
    · rw [e]
    · rfl
  · rw [saveRsp, stateOf, setPCB_pcbs, stateOf]
    split_ifs with e
    · rw [e]
    · rfl

theorem saveRsp_stateOf {rsp : Nat} : (k.saveRsp rsp).stateOf = k.stateOf := by
  funext q
  rw [saveRsp, stateOf, setPCB_pcbs, stateOf]
  split_ifs with e
  · rw [e]
  · rfl

theorem Schedulable.saveRsp (s : Schedulable k) (rsp : Nat) : Schedulable (k.saveRsp rsp) := by
  refine ⟨?_, ?_, ?_⟩
  · rw [saveRsp_selects.idlePCB, saveRsp_stateOf]
    exact s.idle
  · rw [saveRsp_stateOf]
    exact s.freed
  · rw [saveRsp_stateOf]
    exact s.running

/-- `schedule` ends, and gives the stack pointer of the process it picked. -/
theorem schedule_spec (r : Ring k) (s : Schedulable k) (rsp : Nat) :
    ∃ n, ∀ fuel, n < fuel → ∃ r, k.schedule fuel rsp = .ok r ∧ Picked k r := by
  have ring : Ring (k.saveRsp rsp) := r.congr (setPCB_sameRing rfl)
  have sched := s.saveRsp rsp
  have here : (k.saveRsp rsp).currentPCB = k.currentPCB := rfl
  by_cases quantum : k.quantumsLeft > 0 ∧ k.stateOf k.currentPCB = .running
  · -- The running process has quantums left and goes on.
    refine ⟨0, fun fuel _ =>
      ⟨({ k.saveRsp rsp with quantumsLeft := (k.saveRsp rsp).quantumsLeft - 1 }, rsp), ?_, ?_⟩⟩
    · unfold schedule
      exact if_pos (by rw [saveRsp_stateOf, here]; exact quantum)
    · have running : (k.saveRsp rsp).stateOf k.currentPCB = .running := by
        rw [saveRsp_stateOf]
        exact quantum.2
      refine ⟨ring.congr quantums_sameRing, saveRsp_selects.trans quantums_selects, sched.idle,
        sched.freed, Or.inl ⟨fun idle => ?_, running, sched.running⟩, ?_⟩
      · have e : k.currentPCB = k.idlePCB := by
          rw [currentPCB, show k.pcbList.current = k.idleProcPCBNode from idle, idlePCB]
        have clash := quantum.2
        rw [e, s.idle] at clash
        cases clash
      · change rsp = ((k.saveRsp rsp).pcbs k.currentPCB).rsp
        rw [saveRsp, setPCB_pcbs, if_pos rfl]
  · obtain ⟨n, total⟩ := select_spec ring sched
    refine ⟨n, fun fuel enough => ?_⟩
    obtain ⟨r, run, picked⟩ := total fuel enough
    refine ⟨r, ?_, { picked with selects := saveRsp_selects.trans picked.selects }⟩
    unfold schedule
    rw [if_neg (by rw [saveRsp_stateOf, here]; exact quantum)]
    exact run

theorem schedule_mono {fuel more rsp : Nat} {r : Kernel × Nat} (le : fuel ≤ more)
    (run : k.schedule fuel rsp = .ok r) : k.schedule more rsp = .ok r := by
  unfold schedule select at run ⊢
  simp only [] at run ⊢
  split_ifs at run ⊢
  all_goals first | exact run | exact loop_mono le run

/-- The kernel after a context switch. -/
structure Switched (k k' : Kernel) : Prop where
  ring : Ring k'
  selects : Selects k k'
  scheduled : Scheduled k'
  selected : Selected k'
  rsp : k'.rsp = (k'.pcbs k'.currentPCB).rsp

theorem Picked.switched {r : Kernel × Nat} (p : Picked k r) :
    Switched k { r.1 with rsp := r.2 } where
  ring := p.ring.congr ⟨rfl, rfl, rfl, rfl, rfl, Nat.le_refl _, fun _ => rfl⟩
  selects := p.selects.trans
    ⟨rfl, rfl, rfl, rfl, rfl, rfl, rfl, rfl, rfl, fun _ => rfl, fun _ =>
      Or.inl rfl, fun _ => Or.inl rfl⟩
  scheduled := ⟨⟨p.idle, p.freed, fun _ hp => p.selected.running hp⟩, p.selected.current p.idle⟩
  selected := p.selected
  rsp := p.rsp

/-- A context switch ends. -/
theorem contextSwitch_total (r : Ring k) (s : Schedulable k) :
    ∃ n, ∀ fuel, n < fuel → ∃ k', k.contextSwitch fuel = .ok k' ∧ Switched k k' := by
  obtain ⟨n, total⟩ := schedule_spec r s k.rsp
  refine ⟨n, fun fuel enough => ?_⟩
  obtain ⟨r, run, picked⟩ := total fuel enough
  exact ⟨{ r.1 with rsp := r.2 }, by rw [contextSwitch, run]; rfl, picked.switched⟩

theorem contextSwitch_mono {fuel more : Nat} (le : fuel ≤ more)
    (run : k.contextSwitch fuel = .ok k') : k.contextSwitch more = .ok k' := by
  obtain ⟨r, scheduled, rest⟩ := bind_ok_iff.mp run
  exact bind_ok_iff.mpr ⟨r, schedule_mono le scheduled, rest⟩

theorem contextSwitch_of_ok {fuel : Nat} (r : Ring k) (s : Schedulable k)
    (run : k.contextSwitch fuel = .ok k') : Switched k k' := by
  obtain ⟨n, total⟩ := contextSwitch_total r s
  obtain ⟨k'', run', switched⟩ := total (max fuel (n + 1)) (by omega)
  have same := (contextSwitch_mono (Nat.le_max_left fuel (n + 1)) run).symm.trans run'
  cases same
  exact switched

end ContextSwitch

end SoTp.Process
