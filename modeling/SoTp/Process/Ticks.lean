/-
`incTicks` walks the sleep list, counts every BLOCKED sleeper down, wakes those
whose time is up and finishes off the killed ones.

* `incTicksRound_cases` — what one round does.
* `incTicks_spec` — when it returns it has kept the invariant.
* `incTicks_total` — from strict records it returns: no sleeper is EXITED, so
  every round takes the walk one node further.
* `incTicks_stuck` — at an EXITED sleeper it goes round for ever.
-/

import SoTp.Process.Release

namespace SoTp.Process

open SoTp.Lib Kernel

/-! ### Small steps -/

section Steps

variable {strict : Prop} {k k' : Kernel} {prev current p fuel : Nat} {passed rest : List Nat}

/-- The node `current`, counted down. -/
def counted (k : Kernel) (current : Nat) : Kernel :=
  k.setSleepNode current fun n =>
    { n with ticksRemaining := sub64 (k.sleepNodes current).ticksRemaining 1 }

theorem counted_sleepNext : (counted k current).sleepNext = k.sleepNext := by
  funext b
  rw [counted, setSleepNode_sleepNext]
  split_ifs with e
  · rw [e, sleepNext]
  · rfl

theorem counted_sleepPCB : (counted k current).sleepPCB = k.sleepPCB := setSleepNode_sleepPCB rfl

theorem counted_edits (m : Mid strict k) (current : Nat) :
    Edits strict (fun _ => False) k (counted k current) ∧ Calm k (counted k current) := by
  refine quiet_edits _ m ⟨rfl, rfl, rfl, rfl, rfl, Nat.le_refl _, fun _ => rfl⟩ rfl rfl
    (fun _ => rfl) rfl rfl rfl ?_ ?_
  · rw [sleepers, counted_sleepNext, counted_sleepPCB]
    rfl
  · obtain ⟨cells, l⟩ := m.records.sleepList
    exact ⟨cells, by rw [counted_sleepNext]; exact l.segment, l.nodup, l.used⟩

theorem SleepAt.congr (s : SleepAt k prev current passed rest) (next : k'.sleepNext = k.sleepNext)
    (unused : k'.unused = k.unused) (first : k'.first = k.first) :
    SleepAt k' prev current passed rest :=
  ⟨⟨by rw [next, first]; exact s.list.segment, s.list.nodup, by rw [unused]; exact s.list.used⟩,
    s.prev, by rw [next]; exact s.here⟩

/-- What `removeFromSleepList` changes. -/
theorem removeFromSleepList_eq : k.removeFromSleepList prev current =
    ({ k with
        first := if prev = NULL then (k.sleepNodes current).next else k.first
        sleepNodes := if prev = NULL then k.sleepNodes else
          Function.update k.sleepNodes prev
            { k.sleepNodes prev with next := (k.sleepNodes current).next } },
      (k.sleepNodes current).next) := by
  unfold removeFromSleepList setSleepNode
  split_ifs <;> rfl

/-- Making a process READY and taking its node out can be done in either order. -/
theorem ready_removed : (k.setState p .ready).removeFromSleepList prev current =
    ((k.removeFromSleepList prev current).1.setState p .ready,
      (k.removeFromSleepList prev current).2) := by
  rw [removeFromSleepList_eq, removeFromSleepList_eq]
  rfl

/-- So can an exit and taking a node out. -/
theorem Exits.removed (h : Exits p k k') :
    Exits p (k.removeFromSleepList prev current).1 (k'.removeFromSleepList prev current).1 := by
  have frame := h.toExitFrame
  rw [removeFromSleepList_eq, removeFromSleepList_eq, frame.sleepNodes, frame.first]
  exact ⟨⟨⟨h.ring.nodes, h.ring.pcbList, h.ring.idleNode, h.ring.allocated, h.ring.pid,
    h.ring.unused,
    h.ring.pids⟩, h.unused, h.semArray, h.freedPositions, rfl, rfl, h.samePCB,
      h.foreground⟩, h.alive,
    h.root, h.changes, h.settled⟩

theorem SleepAt.counted (at_ : SleepAt k prev current passed (current :: rest)) :
    SleepAt (counted k current) prev current passed (current :: rest) :=
  at_.congr counted_sleepNext rfl rfl

/-- Waking the process of the node `current`, with its node taken out. -/
theorem SleepAt.wakes (at_ : SleepAt k prev current passed (current :: rest)) (m : Mid strict k)
    (blocked : k.stateOf (k.sleepPCB current) = .blocked) :
    let k₁ := (Process.counted k current).removeFromSleepList prev current
    Removed .sleep (k.sleepPCB current) (Process.counted k current) k₁.1 ∧
      (Edits strict (fun _ => False) k (k₁.1.setState (k.sleepPCB current) .ready) ∧
        Calm k (k₁.1.setState (k.sleepPCB current) .ready)) ∧
      SleepAt (k₁.1.setState (k.sleepPCB current) .ready) prev k₁.2 passed rest := by
  intro k₁
  obtain ⟨ticked, calm⟩ := counted_edits m current
  obtain ⟨removed, beyond⟩ := at_.counted.removed ticked.mid
  rw [counted_sleepPCB] at removed
  obtain ⟨woken, calm'⟩ := removed.ready (fun _ => False) ticked.mid blocked (fun _ e => by cases e)
  exact ⟨removed, ⟨ticked.trans woken, calm.trans calm'⟩, beyond.congr rfl rfl rfl⟩

/-- Finishing off the process of the node `current`, and then taking its node out. -/
theorem SleepAt.finishes (at_ : SleepAt k prev current passed (current :: rest)) (m : Mid strict k)
    (killed : k.stateOf (k.sleepPCB current) = .waitingForExit)
    (exits : Exits (k.sleepPCB current) k k') :
    let k₁ := k'.removeFromSleepList prev current
    (Edits strict (fun _ => False) k k₁.1 ∧ Calm k k₁.1) ∧ SleepAt k₁.1 prev k₁.2 passed rest := by
  intro k₁
  obtain ⟨removed, beyond⟩ := at_.removed m
  refine ⟨removed.exits (fun _ => False) m exits.removed killed (fun _ e => by cases e), ?_⟩
  rw [removeFromSleepList_eq] at beyond
  rw [show k₁ = k'.removeFromSleepList prev current from rfl, removeFromSleepList_eq]
  simp only [exits.sleepNodes, exits.first]
  exact beyond.congr rfl exits.unused rfl

/-- What a round of `incTicks` does at a node: it counts on, wakes, finishes off, or stays
where it is. -/
theorem incTicksRound_cases {pass : Pass (Kernel × Nat × Nat) Outcome} (m : Mid strict k)
    (awake : Awake (k.stateOf k.currentPCB)) (some : current ≠ NULL)
    (run : incTicksRound fuel (k, prev, current) = .ok pass) :
    (k.stateOf (k.sleepPCB current) = .blocked ∧ sub64 (k.sleepNodes current).ticksRemaining 1 ≠ 0 ∧
      pass = .again (counted k current, current, (counted k current).sleepNext current)) ∨
    (k.stateOf (k.sleepPCB current) = .blocked ∧ sub64 (k.sleepNodes current).ticksRemaining 1 = 0 ∧
      pass = .again (((counted k current).removeFromSleepList prev current).1.setState
        (k.sleepPCB current) .ready,
        prev, ((counted k current).removeFromSleepList prev current).2)) ∨
    (k.stateOf (k.sleepPCB current) = .waitingForExit ∧
      ∃ out, exitProcessByPCB fuel (k.sleepPCB current) KILL_EXIT_CODE k = .ok out ∧
        out.left = false ∧ Exits (k.sleepPCB current) k out.kernel ∧
        pass = .again ((out.kernel.removeFromSleepList prev current).1, prev,
          (out.kernel.removeFromSleepList prev current).2)) ∨
    (¬ Waiting (k.stateOf (k.sleepPCB current)) ∧ pass = .again (k, prev, current)) := by
  unfold incTicksRound at run
  simp only [if_neg some] at run
  by_cases gone : k.allocated (k.sleepNodes current).pcb = false
  · rw [if_pos gone] at run
    cases run
  rw [if_neg gone] at run
  split at run
  · rename_i blocked
    split_ifs at run with spent
    · rw [ready_removed] at run
      cases run
      exact Or.inr (Or.inl ⟨blocked, spent, rfl⟩)
    · cases run
      exact Or.inl ⟨blocked, spent, rfl⟩
  · -- It was killed in its sleep.
    rename_i killed
    obtain ⟨out, exited, finish⟩ := bind_ok_iff.mp run
    have b := m.bystanders awake
    obtain ⟨left, exits⟩ := exitProcessByPCB_spec b (by rw [killed]; simp)
      (by rw [killed]; simp) exited
    have stays : out.left = false := left.trans (b _ killed)
    rw [stays] at finish
    cases finish
    exact Or.inr (Or.inr (Or.inl ⟨killed, out, exited, stays, exits, rfl⟩))
  · rename_i active killed
    cases run
    refine Or.inr (Or.inr (Or.inr ⟨?_, rfl⟩))
    rintro (blocked | waiting)
    · exact active blocked
    · exact killed waiting

end Steps

/-! ### The walk -/

/-- `incTicks` on its way: it stands behind `passed` and has `rest` before it. -/
structure Walking (strict : Prop) (start k : Kernel) (prev current : Nat) (rest : List Nat) :
    Prop where
  edits : Edits strict (fun _ => False) start k
  calm : Calm start k
  place : ∃ passed, SleepAt k prev current passed rest

section Walk

variable {strict : Prop} {start k : Kernel} {prev current fuel : Nat} {rest : List Nat}

theorem Walking.awake (w : Walking strict start k prev current rest)
    (awake : Awake (start.stateOf start.currentPCB)) : Awake (k.stateOf k.currentPCB) := by
  rw [w.edits.ring.currentPCB, w.calm]
  · exact awake
  · rintro (h | h) <;> simp [h, Awake] at awake

/-- One round, at a node. -/
theorem Walking.round (w : Walking strict start k prev current (current :: rest))
    (awake : Awake (start.stateOf start.currentPCB)) {pass : Pass (Kernel × Nat × Nat) Outcome}
    (run : incTicksRound fuel (k, prev, current) = .ok pass) :
    ∃ k' prev' current', pass = .again (k', prev', current') ∧
      (Walking strict start k' prev' current' rest ∨
        (k', prev', current') = (k, prev, current) ∧ k.stateOf (k.sleepPCB current) = .exited) := by
  obtain ⟨passed, at_⟩ := w.place
  have m := w.edits.mid
  have some : current ≠ NULL := by
    have := (at_.list.used current (by simp)).1
    unfold NULL
    omega
  rcases incTicksRound_cases m (w.awake awake) some run with
    ⟨-, -, rfl⟩ | ⟨blocked, -, rfl⟩ | ⟨killed, out, -, -, exits, rfl⟩ | ⟨still, rfl⟩
  · obtain ⟨edits, calm⟩ := counted_edits m current
    exact ⟨_, _, _, rfl, Or.inl ⟨w.edits.trans edits, w.calm.trans calm, _, at_.counted.advance⟩⟩
  · obtain ⟨-, ⟨edits, calm⟩, beyond⟩ := at_.wakes m blocked
    exact ⟨_, _, _, rfl, Or.inl ⟨w.edits.trans edits, w.calm.trans calm, passed, beyond⟩⟩
  · obtain ⟨⟨edits, calm⟩, beyond⟩ := at_.finishes m killed exits
    exact ⟨_, _, _, rfl, Or.inl ⟨w.edits.trans edits, w.calm.trans calm, passed, beyond⟩⟩
  · refine ⟨_, _, _, rfl, Or.inr ⟨rfl, ?_⟩⟩
    rcases m.records.waits .sleep _ at_.entry with waits | ⟨-, dead⟩
    · exact absurd waits still
    · exact dead

/-- The start of the walk. -/
theorem walking_start (m : Mid strict k) : ∃ rest,
    Walking strict k { k with ticks := k.ticks + 1 } NULL k.first rest := by
  obtain ⟨cells, l⟩ := m.records.sleepList
  obtain ⟨edits, calm⟩ := quiet_edits { k with ticks := k.ticks + 1 } m
    ⟨rfl, rfl, rfl, rfl, rfl, Nat.le_refl _, fun _ => rfl⟩ rfl rfl (fun _ => rfl) rfl rfl rfl rfl
    ⟨cells, l.congr rfl (Nat.le_refl _) rfl⟩
  exact ⟨cells, edits, calm, [], l.at_start.congr rfl rfl rfl⟩

/-- What `incTicks` has done when it returns. -/
theorem incTicks_spec {out : Outcome} (i : Inv strict k) (run : k.incTicks fuel = .ok out) :
    out.left = false ∧ Edits strict (fun _ => False) k out.kernel ∧ Calm k out.kernel := by
  refine loop_inv (fun s => ∃ rest, Walking strict k s.1 s.2.1 s.2.2 rest)
    (fun out => out.left = false ∧ Edits strict (fun _ => False) k out.kernel ∧ Calm k out.kernel)
    ?_ ?_ (walking_start i.toMid) run
  all_goals
    rintro ⟨k', prev, current⟩ after ⟨rest, w⟩ round
    obtain ⟨passed, at_⟩ := w.place
    by_cases finished : current = NULL
    · rw [incTicksRound, if_pos finished] at round
      cases round
      try exact ⟨rfl, w.edits, w.calm⟩
    · obtain ⟨rest, rfl⟩ := at_.at_node finished
      obtain ⟨k₁, prev', current', e, next⟩ := w.round i.current round
      cases e
      try
        rcases next with next | ⟨same, -⟩
        · exact ⟨_, next⟩
        · cases same
          exact ⟨_, w⟩

end Walk

/-! ### It returns -/

section Total

variable {k : Kernel}

/-- The walk ends. -/
theorem incTicks_total (i : Inv True k) :
    ∃ n, ∀ fuel, n < fuel → ∃ out, k.incTicks fuel = .ok out := by
  obtain ⟨start, w⟩ := walking_start i.toMid
  obtain ⟨_, _, _, ring, _⟩ := i.ring
  have below : ∀ q, k.allocated q = true → q < k.unused := fun q hq => (ring.members q hq).1
  refine ⟨max k.unused start.length, fun fuel enough => ?_⟩
  have round : ∀ n s, (∃ rest, rest.length = n ∧ Walking True k s.1 s.2.1 s.2.2 rest) →
      (∃ r, incTicksRound fuel s = .ok (.leave r) ∧ True) ∨ ∃ m s', m < n ∧
        incTicksRound fuel s = .ok (.again s') ∧
        ∃ rest, rest.length = m ∧ Walking True k s'.1 s'.2.1 s'.2.2 rest := by
    rintro n ⟨k', prev, current⟩ ⟨rest, rfl, w⟩
    obtain ⟨passed, at_⟩ := w.place
    by_cases finished : current = NULL
    · exact Or.inl ⟨_, by rw [incTicksRound, if_pos finished], trivial⟩
    · obtain ⟨rest, rfl⟩ := at_.at_node finished
      have m := w.edits.mid
      have waits : Waiting (k'.stateOf (k'.sleepPCB current)) :=
        (m.records.waits .sleep _ at_.entry).resolve_right fun ⟨weak, _⟩ => weak trivial
      have alive : k'.allocated (k'.sleepPCB current) = true := m.recorded_allocated at_.entry
      obtain ⟨pass, run⟩ : ∃ pass, incTicksRound fuel (k', prev, current) = .ok pass := by
        have alive' : k'.allocated (k'.sleepNodes current).pcb = true := alive
        unfold incTicksRound
        simp only [if_neg finished, alive', Bool.true_eq_false, if_false]
        split
        · split_ifs <;> exact ⟨_, rfl⟩
        · obtain ⟨out, exits⟩ := m.exit_returns _ KILL_EXIT_CODE (w.awake i.current)
            (fun q hq => below q (w.edits.ring.allocated ▸ hq))
            (show k.unused < fuel by omega) alive'
          rw [exits, ok_bind]
          split_ifs <;> exact ⟨_, rfl⟩
        · exact ⟨_, rfl⟩
      obtain ⟨k₁, prev', current', rfl, next | ⟨-, dead⟩⟩ := w.round i.current run
      · exact Or.inr ⟨rest.length, _, by simp, run, rest, rfl, next⟩
      · rw [dead] at waits
        simp [Waiting] at waits
  obtain ⟨out, run, -⟩ := loop_total _ (fun _ => True) round (n := start.length)
    (s := ({ k with ticks := k.ticks + 1 }, NULL, k.first)) ⟨start, rfl, w⟩ (show _ < fuel by omega)
  exact ⟨out, run⟩

/-- At a sleeper that is EXITED, the walk never gets any further. -/
theorem incTicks_stuck (some : k.first ≠ NULL) (held : k.allocated (k.sleepPCB k.first) = true)
    (dead : k.stateOf (k.sleepPCB k.first) = .exited) (fuel : Nat) :
    k.incTicks fuel = .error .fuel := by
  refine loop_stuck ?_ fuel
  have state : Kernel.stateOf { k with ticks := k.ticks + 1 } (k.sleepNodes k.first).pcb =
    .exited := dead
  have kept : k.allocated (k.sleepNodes k.first).pcb = true := held
  simp only [incTicksRound, if_neg some, kept, Bool.true_eq_false, if_false, state]

end Total

end SoTp.Process
