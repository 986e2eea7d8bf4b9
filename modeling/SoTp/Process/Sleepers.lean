/-
The sleep list as a list of entries, and what one call of `incTicks` does to it: each
entry is counted down, or taken out with its process woken or finished off. The nodes
that `removeFromSleepList` gives back are recorded in their order.

* `incTicksRound_at` — what one round does.
* `incTicks_ticked` — what the whole walk does, entry by entry.
-/

import SoTp.Process.Ticks

namespace SoTp.Process

open SoTp.Lib Kernel

/-! ### Entries -/

/-- An entry of the sleep list. -/
structure Sleeper where
  node : Nat
  pcb : Nat
  ticksRemaining : Nat
deriving DecidableEq

namespace Sleeper

/-- What a tick makes of an entry whose process is in `state`; `none` takes it out. -/
def tick (e : Sleeper) (state : State) : Option Sleeper :=
  if state = .blocked ∧
    e.ticksRemaining ≠ 1 then some { e with ticksRemaining := e.ticksRemaining - 1 }
  else none

/-- What a tick makes of the process. -/
def after (e : Sleeper) (state : State) : State :=
  if state = .blocked then if e.ticksRemaining = 1 then .ready else .blocked else .exited

/-- Ticks are to come, as many as a `uint64_t` counts. -/
def Due (e : Sleeper) : Prop := 0 < e.ticksRemaining ∧ e.ticksRemaining < word

end Sleeper

namespace Kernel

def sleeperAt (k : Kernel) (node : Nat) : Sleeper :=
  ⟨node, k.sleepPCB node, (k.sleepNodes node).ticksRemaining⟩

/-- The sleep list, from `first` on. -/
def sleepEntries (k : Kernel) : List Sleeper := Cells.walk k.sleepNext k.sleeperAt k.unused k.first

/-- The process of each entry is BLOCKED or WAITING_FOR_EXIT. -/
def Sleeping (k : Kernel) : Prop := ∀ e ∈ k.sleepEntries, Waiting (k.stateOf e.pcb)

/-! ### What is freed -/

/-- The node that a round of `incTicks` frees. -/
def incTicksRoundFrees (fuel : Nat) (s : Kernel × Nat × Nat) : List Nat :=
  let (k, _, current) := s
  if current = NULL then []
  else
    let pcb := (k.sleepNodes current).pcb
    match k.stateOf pcb with
    | .blocked => if sub64 (k.sleepNodes current).ticksRemaining 1 = 0 then [current] else []
    | .waitingForExit =>
        match exitProcessByPCB fuel pcb KILL_EXIT_CODE k with
        | .ok out => if out.left then [] else [current]
        | .error _ => []
    | _ => []

/-- The nodes that `incTicks` frees, in their order. -/
def incTicksFrees (fuel : Nat) (k : Kernel) : List Nat :=
  loopLog (incTicksRound fuel)
    (incTicksRoundFrees fuel) fuel ({ k with ticks := k.ticks + 1 }, NULL, k.first)

end Kernel

section Entries

variable {k k' : Kernel} {cells : List Nat} {prev current : Nat}

theorem SleepList.entries (l : SleepList k cells) : k.sleepEntries = cells.map k.sleeperAt :=
  l.walk _

theorem sleeperAt_congr (nodes : k'.sleepNodes = k.sleepNodes) : k'.sleeperAt = k.sleeperAt := by
  funext a
  rw [sleeperAt, sleepPCB, nodes, sleeperAt, sleepPCB]

theorem removeFromSleepList_sleeperAt : (k.removeFromSleepList prev current).1.sleeperAt =
    k.sleeperAt := by
  funext a
  rw [removeFromSleepList_eq]
  by_cases none : prev = NULL
  · simp only [if_pos none]
    rfl
  · simp only [if_neg none, sleeperAt, sleepPCB, Function.update_apply]
    split_ifs with same
    · rw [same]
    · rfl

theorem setTicks_sleeperAt {node ticks a : Nat} :
    (k.setSleepNode node fun n => { n with ticksRemaining := ticks }).sleeperAt a =
      if a = node then { k.sleeperAt node with ticksRemaining := ticks } else k.sleeperAt a := by
  simp only [sleeperAt, sleepPCB, setSleepNode, Function.update_apply]
  split_ifs with same
  · rw [same]
  · rfl

end Entries

/-! ### One round -/

/-- What a round does at a process that waits, and what it frees: it counts on, wakes, or
finishes off. -/
inductive RoundAt (k : Kernel) (prev current : Nat) : Kernel × Nat × Nat → List Nat → Prop
  | counts (blocked : k.stateOf (k.sleepPCB current) = .blocked)
      (more : sub64 (k.sleepNodes current).ticksRemaining 1 ≠ 0) :
      RoundAt k prev current (counted k current, current, (counted k current).sleepNext current) []
  | wakes (blocked : k.stateOf (k.sleepPCB current) = .blocked)
      (spent : sub64 (k.sleepNodes current).ticksRemaining 1 = 0) :
      RoundAt k prev current
        ((((counted k current).removeFromSleepList prev current).1.setState
          (k.sleepPCB current) .ready), prev,
          ((counted k current).removeFromSleepList prev current).2) [current]
  | exits {j : Kernel} (killed : k.stateOf (k.sleepPCB current) = .waitingForExit)
      (exits : Exits (k.sleepPCB current) k j) :
      RoundAt k prev current
        ((j.removeFromSleepList prev current).1, prev, (j.removeFromSleepList prev current).2)
        [current]

theorem incTicksRound_at {strict : Prop} {k : Kernel} {prev current fuel : Nat}
    {pass : Pass (Kernel × Nat × Nat) Outcome} (m : Mid strict k)
    (awake : Awake (k.stateOf k.currentPCB))
    (some : current ≠ NULL) (waits : Waiting (k.stateOf (k.sleepPCB current)))
    (run : incTicksRound fuel (k, prev, current) = .ok pass) :
    ∃ s, pass = .again s ∧
      RoundAt k prev current s (incTicksRoundFrees fuel (k, prev, current)) := by
  unfold incTicksRoundFrees
  simp only [if_neg some]
  rcases incTicksRound_cases m awake some run with
    ⟨blocked, more, rfl⟩ | ⟨blocked, spent, rfl⟩ | ⟨killed, out, exited, stays, exits,
      rfl⟩ | ⟨still, -⟩
  · have state : k.stateOf (k.sleepNodes current).pcb = .blocked := blocked
    simp only [state, if_neg more]
    exact ⟨_, rfl, .counts blocked more⟩
  · have state : k.stateOf (k.sleepNodes current).pcb = .blocked := blocked
    simp only [state, if_pos spent]
    exact ⟨_, rfl, .wakes blocked spent⟩
  · have state : k.stateOf (k.sleepNodes current).pcb = .waitingForExit := killed
    have run : exitProcessByPCB fuel (k.sleepNodes current).pcb KILL_EXIT_CODE k = .ok out := exited
    simp only [state, run, stays, Bool.false_eq_true, if_false]
    exact ⟨_, rfl, .exits killed exits⟩
  · exact absurd waits still

/-! ### The whole walk -/

/-- What a tick makes of the entry at a node, in the state that the tick starts from. -/
def ticked (k₀ : Kernel) (node : Nat) : Option Sleeper :=
  (k₀.sleeperAt node).tick (k₀.stateOf (k₀.sleepPCB node))

/-- What a tick makes of its process. -/
def settled (k₀ : Kernel) (node : Nat) : State :=
  (k₀.sleeperAt node).after (k₀.stateOf (k₀.sleepPCB node))

/-- `incTicks` has treated the nodes `done` of those of `k₀`, left `passed` of them in the
list, and has `rest` before it. -/
structure Walked (k₀ k : Kernel) (prev current : Nat) (passed done rest frees : List Nat) :
    Prop where
  edits : Edits False (fun _ => False) k₀ k
  calm : Calm k₀ k
  place : SleepAt k prev current passed rest
  kept : passed.map k.sleeperAt = done.filterMap (ticked k₀)
  ahead : ∀ c ∈ rest, k.sleeperAt c = k₀.sleeperAt c ∧
    k.stateOf (k₀.sleepPCB c) = k₀.stateOf (k₀.sleepPCB c)
  behind : ∀ c ∈ done, k.stateOf (k₀.sleepPCB c) = settled k₀ c
  freed : frees = done.filter fun c => (ticked k₀ c).isNone

/-- The sleepers that a tick starts from. -/
structure Asleep (k₀ : Kernel) (cells : List Nat) : Prop where
  distinct : (cells.map k₀.sleepPCB).Nodup
  waits : ∀ c ∈ cells, Waiting (k₀.stateOf (k₀.sleepPCB c))
  due : ∀ c ∈ cells, (k₀.sleeperAt c).Due

section Walk

variable {k₀ k k' : Kernel} {prev current fuel : Nat} {passed done rest frees : List Nat}

theorem sub64_one {n : Nat} (pos : 0 < n) (lt : n < word) : sub64 n 1 = n - 1 := sub64_of_le pos lt

/-- Who still waits is still in the list. -/
theorem Walked.listed (w : Walked k₀ k prev current passed done rest frees) {c : Nat}
    (mem : c ∈ done ++ rest) (waits : Waiting (k.stateOf (k₀.sleepPCB c))) :
    k₀.sleepPCB c ∈ k.entries .sleep := by
  rw [entries_sleep, w.place.list.sleepers, List.map_append, List.mem_append]
  rcases List.mem_append.mp mem with behind | ahead
  · left
    rw [w.behind c behind, settled, Sleeper.after] at waits
    have kept : ticked k₀ c =
        some { k₀.sleeperAt c with ticksRemaining := (k₀.sleeperAt c).ticksRemaining - 1 } := by
      rw [ticked, Sleeper.tick, if_pos]
      split_ifs at waits with blocked spent
      · simp [Waiting] at waits
      · exact ⟨blocked, spent⟩
      · simp [Waiting] at waits
    have here := List.mem_filterMap.mpr ⟨c, behind, kept⟩
    rw [← w.kept] at here
    obtain ⟨d, passed, same⟩ := List.mem_map.mp here
    exact List.mem_map.mpr ⟨d, passed, congrArg Sleeper.pcb same⟩
  · right
    exact List.mem_map.mpr ⟨c, ahead, congrArg Sleeper.pcb (w.ahead c ahead).1⟩

/-- The exit of one sleeper moves no other. -/
theorem Walked.bystander (w : Walked k₀ k prev current passed done rest frees) {p c : Nat}
    (exits : Exits p k k')
    (killed : k.stateOf p = .waitingForExit) (mem : c ∈ done ++ rest) (ne : k₀.sleepPCB c ≠ p) :
    k'.stateOf (k₀.sleepPCB c) = k.stateOf (k₀.sleepPCB c) := by
  by_cases waits : Waiting (k.stateOf (k₀.sleepPCB c))
  · have listed : k₀.sleepPCB c ∈ k'.entries .sleep := by
      rw [entries_sleep, exits.sleepers]
      exact w.listed mem waits
    exact exits.recorded w.edits.mid.records listed ne
  · exact exits.calm (Or.inr killed) _ waits

theorem Asleep.other_pcb (asleep : Asleep k₀ (done ++ current :: rest)) {c : Nat}
    (mem : c ∈ done ++ rest) : k₀.sleepPCB c ≠ k₀.sleepPCB current := by
  have distinct := asleep.distinct
  rw [List.map_append, List.map_cons, List.nodup_append, List.nodup_cons] at distinct
  obtain ⟨-, ⟨fresh, -⟩, apart⟩ := distinct
  intro same
  rcases List.mem_append.mp mem with behind | ahead
  · exact apart _ (List.mem_map_of_mem behind) _ List.mem_cons_self same
  · exact fresh (same ▸ List.mem_map_of_mem ahead)

theorem SleepAt.other_node (place : SleepAt k prev current passed (current :: rest)) {c : Nat}
    (mem : c ∈ passed ++ rest) : c ≠ current := by
  have distinct := place.list.nodup
  rw [List.nodup_append, List.nodup_cons] at distinct
  obtain ⟨-, ⟨fresh, -⟩, apart⟩ := distinct
  rintro rfl
  rcases List.mem_append.mp mem with behind | ahead
  · exact apart _ behind _ List.mem_cons_self rfl
  · exact fresh ahead

/-- An entry is taken out. -/
theorem Walked.taken (w : Walked k₀ k prev current passed done (current :: rest) frees)
    {current' : Nat}
    (edits : Edits False (fun _ => False) k k') (calm : Calm k k')
    (place : SleepAt k' prev current' passed rest)
    (spent : ticked k₀ current = none)
    (nodes : ∀ c ∈ passed ++ rest, k'.sleeperAt c = k.sleeperAt c)
    (others : ∀ c ∈ done ++ rest, k'.stateOf (k₀.sleepPCB c) = k.stateOf (k₀.sleepPCB c))
    (here : k'.stateOf (k₀.sleepPCB current) = settled k₀ current) :
    Walked k₀ k' prev current' passed (done ++ [current]) rest (frees ++ [current]) := by
  constructor
  · exact w.edits.trans edits
  · exact w.calm.trans calm
  · exact place
  · rw [List.filterMap_append, List.filterMap_cons_none spent, List.filterMap_nil,
      List.append_nil, ← w.kept]
    exact List.map_congr_left fun c mem => nodes c (List.mem_append_left _ mem)
  · intro c mem
    have before := w.ahead c (List.mem_cons_of_mem _ mem)
    exact ⟨(nodes c (List.mem_append_right _ mem)).trans before.1,
      (others c (List.mem_append_right _ mem)).trans before.2⟩
  · intro c mem
    rcases List.mem_append.mp mem with behind | last
    · exact (others c (List.mem_append_left _ behind)).trans (w.behind c behind)
    · rw [List.mem_singleton.mp last]
      exact here
  · have out : (ticked k₀ current).isNone = true := by rw [spent]; rfl
    rw [List.filter_append, List.filter_cons_of_pos (p := fun c => (ticked k₀ c).isNone) out,
      List.filter_nil, ← w.freed]

/-- One round takes the walk one entry further. -/
theorem Walked.round (w : Walked k₀ k prev current passed done (current :: rest) frees)
    (asleep : Asleep k₀ (done ++ current :: rest)) {s : Kernel × Nat × Nat} {new : List Nat}
    (round : RoundAt k prev current s new) :
    ∃ passed', Walked k₀ s.1 s.2.1 s.2.2 passed' (done ++ [current]) rest (frees ++ new) := by
  have m := w.edits.mid
  obtain ⟨entry, state⟩ := w.ahead current List.mem_cons_self
  have pcb : k.sleepPCB current = k₀.sleepPCB current := congrArg Sleeper.pcb entry
  have ticks : (k.sleepNodes current).ticksRemaining = (k₀.sleeperAt current).ticksRemaining :=
    congrArg Sleeper.ticksRemaining entry
  obtain ⟨pos, small⟩ := asleep.due current (by simp)
  have minus : sub64 (k.sleepNodes current).ticksRemaining 1 =
      (k₀.sleeperAt current).ticksRemaining - 1 := by
    rw [ticks]
    exact sub64_one pos small
  have nodes : ∀ c ∈ passed ++ rest, (counted k current).sleeperAt c = k.sleeperAt c :=
      fun c mem => by
    rw [counted, setTicks_sleeperAt, if_neg (w.place.other_node mem)]
  cases round with
  | counts blocked more =>
      rw [pcb, state] at blocked
      have several : (k₀.sleeperAt current).ticksRemaining ≠ 1 := by omega
      have kept : ticked k₀ current = some ((counted k current).sleeperAt current) := by
        have now : (counted k current).sleeperAt current =
            { k.sleeperAt current with ticksRemaining := sub64 (k.sleepNodes current).ticksRemaining 1 } := by
          rw [counted, setTicks_sleeperAt, if_pos rfl]
        rw [ticked, Sleeper.tick, if_pos ⟨blocked, several⟩, now, minus, entry]
      obtain ⟨edits, calm⟩ := counted_edits m current
      refine ⟨passed ++ [current], w.edits.trans edits, w.calm.trans calm, w.place.counted.advance,
        ?_, ?_, ?_, ?_⟩
      · have behind : passed.map (counted k current).sleeperAt = passed.map k.sleeperAt :=
          List.map_congr_left fun c mem => nodes c (List.mem_append_left _ mem)
        rw [List.filterMap_append, List.filterMap_cons_some kept, List.filterMap_nil,
          ← w.kept, ← behind]
        exact List.map_append
      · intro c mem
        have before := w.ahead c (List.mem_cons_of_mem _ mem)
        exact ⟨(nodes c (List.mem_append_right _ mem)).trans before.1, before.2⟩
      · intro c mem
        rcases List.mem_append.mp mem with behind | last
        · exact w.behind c behind
        · rw [List.mem_singleton.mp last, settled, Sleeper.after, if_pos blocked, if_neg several]
          exact state.trans blocked
      · have out : ¬ (ticked k₀ current).isNone = true := by rw [kept]; simp
        rw [List.filter_append, List.filter_cons_of_neg (p := fun c => (ticked k₀ c).isNone) out,
          List.filter_nil, ← w.freed]
  | wakes blocked spent =>
      obtain ⟨removed, ⟨edits, calm⟩, beyond⟩ := w.place.wakes m blocked
      have states : ∀ q, ((((counted k current).removeFromSleepList prev current).1.setState
          (k.sleepPCB current) .ready)).stateOf q = if q = k.sleepPCB current then .ready
            else k.stateOf q :=
        fun q => by
          rw [stateOf_setState, removed.stateOf]
          rfl
      have one : (k₀.sleeperAt current).ticksRemaining = 1 := by omega
      rw [pcb, state] at blocked
      refine ⟨passed, w.taken edits calm beyond ?_ ?_ ?_ ?_⟩
      · rw [ticked, Sleeper.tick, if_neg fun more => more.2 one]
      · intro c mem
        have kept : ((counted k current).removeFromSleepList prev current).1.sleeperAt c =
            k.sleeperAt c := by
          rw [removeFromSleepList_sleeperAt]
          exact nodes c mem
        exact kept
      · intro c mem
        rw [states, if_neg (pcb ▸ asleep.other_pcb mem)]
      · rw [states, if_pos pcb.symm, settled, Sleeper.after, if_pos blocked, if_pos one]
  | @exits j killed exits =>
      obtain ⟨⟨edits, calm⟩, beyond⟩ := w.place.finishes m killed exits
      have states : ∀ q, (j.removeFromSleepList prev current).1.stateOf q = j.stateOf q :=
          fun q => by
        rw [removeFromSleepList_eq]
        rfl
      have dies : k₀.stateOf (k₀.sleepPCB current) = .waitingForExit := by
        rw [← state, ← pcb, killed]
      refine ⟨passed, w.taken edits calm beyond ?_ ?_ ?_ ?_⟩
      · rw [ticked, Sleeper.tick, if_neg]
        intro more
        have blocked : k₀.stateOf (k₀.sleepPCB current) = .blocked := more.1
        rw [dies] at blocked
        cases blocked
      · intro c _
        rw [removeFromSleepList_sleeperAt, sleeperAt_congr exits.sleepNodes]
      · intro c mem
        have listed : c ∈ done ++ current :: rest := by
          rcases List.mem_append.mp mem with behind | ahead
          · exact List.mem_append_left _ behind
          · exact List.mem_append_right _ (List.mem_cons_of_mem _ ahead)
        rw [states, w.bystander exits killed listed (pcb ▸ asleep.other_pcb mem)]
      · rw [states, ← pcb, exits.root, settled, Sleeper.after, dies, if_neg (by simp)]

/-- What `incTicks` does to the sleep list and its processes, and what it frees. -/
structure Ticked (k k' : Kernel) (frees : List Nat) : Prop where
  entries : k'.sleepEntries = k.sleepEntries.filterMap fun e => e.tick (k.stateOf e.pcb)
  states : ∀ e ∈ k.sleepEntries, k'.stateOf e.pcb = e.after (k.stateOf e.pcb)
  frees :
    frees = (k.sleepEntries.filter fun e => (e.tick (k.stateOf e.pcb)).isNone).map Sleeper.node

theorem walked_start (m : Mid False k₀) {cells : List Nat} (l : SleepList k₀ cells) :
    Walked k₀ { k₀ with ticks := k₀.ticks + 1 } NULL k₀.first [] [] cells [] := by
  obtain ⟨edits, calm⟩ := quiet_edits { k₀ with ticks := k₀.ticks + 1 } m
    ⟨rfl, rfl, rfl, rfl, rfl, Nat.le_refl _, fun _ => rfl⟩ rfl rfl (fun _ => rfl) rfl rfl rfl rfl
    ⟨cells, l.congr rfl (Nat.le_refl _) rfl⟩
  exact ⟨edits, calm, l.at_start.congr rfl rfl rfl, rfl, fun _ _ => ⟨rfl, rfl⟩,
    fun _ mem => absurd mem List.not_mem_nil, rfl⟩

theorem Walked.finished (w : Walked k₀ k prev NULL passed done rest frees)
    (l : SleepList k₀ (done ++ rest)) : Ticked k₀ k frees := by
  obtain rfl := w.place.finished
  have list := w.place.list
  rw [List.append_nil] at l list
  constructor
  · rw [list.entries, w.kept, l.entries, List.filterMap_map]
    rfl
  · intro e mem
    rw [l.entries] at mem
    obtain ⟨c, treated, rfl⟩ := List.mem_map.mp mem
    exact w.behind c treated
  · have same : Sleeper.node ∘ k₀.sleeperAt = id := rfl
    rw [w.freed, l.entries, List.filter_map, List.map_map, same, List.map_id]
    rfl

theorem Walked.awake (w : Walked k₀ k prev current passed done rest frees)
    (awake : Awake (k₀.stateOf k₀.currentPCB)) : Awake (k.stateOf k.currentPCB) := by
  rw [w.edits.ring.currentPCB, w.calm]
  · exact awake
  · rintro (h | h) <;> simp [h, Awake] at awake

/-- `incTicks`, where every sleeper waits and is due. -/
theorem incTicks_ticked {out : Outcome} (i : Inv False k) (sleeping : k.Sleeping)
    (due : ∀ e ∈ k.sleepEntries, e.Due) (run : k.incTicks fuel = .ok out) :
    out.left = false ∧ Ticked k out.kernel (k.incTicksFrees fuel) := by
  obtain ⟨cells, l⟩ := i.records.sleepList
  have asleep : Asleep k cells := by
    have distinct := i.records.nodup .sleep
    rw [entries_sleep, l.sleepers] at distinct
    exact ⟨distinct, fun c mem => sleeping _ (l.entries ▸ List.mem_map_of_mem mem),
      fun c mem => due _ (l.entries ▸ List.mem_map_of_mem mem)⟩
  have ended := loop_log (incTicksRoundFrees fuel)
    (fun s frees => ∃ passed done rest, done ++ rest = cells ∧
      Walked k s.1 s.2.1 s.2.2 passed done rest frees)
    (fun out frees => out.left = false ∧ Ticked k out.kernel frees)
    ?_ ?_ ⟨[], [], cells, rfl, walked_start i.toMid l⟩ run
  · rw [List.nil_append] at ended
    exact ended
  all_goals
    rintro ⟨k', prev, current⟩ after frees ⟨passed, done, rest, rfl, w⟩ round
    by_cases finished : current = NULL
    · subst finished
      rw [incTicksRound, if_pos rfl] at round
      cases round
      try exact ⟨rfl, by rw [incTicksRoundFrees, if_pos rfl, List.append_nil]; exact w.finished l⟩
    · obtain ⟨rest, rfl⟩ := w.place.at_node finished
      have waits : Waiting (k'.stateOf (k'.sleepPCB current)) := by
        obtain ⟨entry, state⟩ := w.ahead current List.mem_cons_self
        rw [show k'.sleepPCB current = k.sleepPCB current from congrArg Sleeper.pcb entry, state]
        exact asleep.waits current (by simp)
      obtain ⟨s, e, at_⟩ := incTicksRound_at w.edits.mid (w.awake i.current) finished waits round
      cases e
      try
        obtain ⟨passed', next⟩ := w.round asleep at_
        exact ⟨passed', _, _, by simp, next⟩

end Walk

end SoTp.Process
