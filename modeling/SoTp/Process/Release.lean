/-
Wake-ups: one recorded process at a time is taken out of its queue or list and
made READY, finished off, or dropped.

* `fifoUnqueue_removed`, `removeFromSleepList_removed` — taking a process out.
* `Removed.ready`, `Removed.exits`, `Removed.drop` — what is done with it.
-/

import SoTp.Process.Edits

namespace SoTp.Process

open SoTp.Lib Kernel

/-- `k₁` is `k` without the entry of `p` in `slot`. -/
structure Removed (slot : Slot) (p : Nat) (k k₁ : Kernel) : Prop where
  ring : SameRing k k₁
  unused : k₁.unused = k.unused
  pcbs : k₁.pcbs = k.pcbs
  foreground : k₁.processInForeground = k.processInForeground
  mem : p ∈ k.entries slot
  gone : p ∉ k₁.entries slot
  sub : (k₁.entries slot).Sublist (k.entries slot)
  rest : ∀ q, q ≠ p → q ∈ k.entries slot → q ∈ k₁.entries slot
  others : ∀ s, s ≠ slot → k₁.entries s = k.entries s
  sems : ∀ s, slot ≠ .queue s → k₁.semArray[s]? = k.semArray[s]?
  ids : Ids k₁
  sleepList : ∃ cells, SleepList k₁ cells

section Removed

variable {strict : Prop} {slot : Slot} {p : Nat} {k k₁ k' : Kernel} {touched : Subject → Prop}

theorem Removed.stateOf (r : Removed slot p k k₁) : k₁.stateOf = k.stateOf := by
  funext q
  rw [Kernel.stateOf, r.pcbs, Kernel.stateOf]

theorem Removed.entries_sub (r : Removed slot p k k₁) (s : Slot) :
    (k₁.entries s).Sublist (k.entries s) := by
  by_cases e : s = slot
  · exact e ▸ r.sub
  · rw [r.others s e]

/-- The process taken out is recorded nowhere any more. -/
theorem Removed.unrecorded (r : Removed slot p k k₁) (m : Mid strict k) (s : Slot) :
    p ∉ k₁.entries s := fun mem => by
  have here := m.records.once s slot p ((r.entries_sub s).subset mem) r.mem
  subst here
  exact r.gone mem

theorem Removed.mid (r : Removed slot p k k₁) (m : Mid strict k) : Mid strict k₁ := by
  refine m.of_states r.ring (fun q => Or.inl (by rw [r.stateOf])) ?_ ?_ r.ids
  · exact m.family_congr r.ring r.foreground fun q => by rw [r.pcbs]
  · refine m.records.shrink r.unused.ge r.entries_sub (fun s q hq => ?_) r.sleepList
    rw [r.stateOf]
    exact m.records.waits s q ((r.entries_sub s).subset hq)

theorem Removed.complete (r : Removed slot p k k₁) (c : Complete k) : CompleteBut (· = p) k₁ := by
  intro q ne w
  obtain ⟨s, hs⟩ := c q not_false (r.stateOf ▸ w)
  by_cases e : s = slot
  · subst e
    exact ⟨s, r.rest q ne hs⟩
  · exact ⟨s, r.others s e ▸ hs⟩

/-- Who waits away from what the step is about is another process. -/
theorem Removed.other_ne (r : Removed slot p k k₁) (about : ∀ s, slot = .queue s → touched (.sem s))
    {q : Nat} (away : Away touched k q) : q ≠ p := by
  rintro rfl
  obtain ⟨s, e, other⟩ := away slot r.mem
  exact other (about s e)

variable (touched) in
/-- A BLOCKED process is made READY. -/
theorem Removed.ready (r : Removed slot p k k₁) (m : Mid strict k)
    (blocked : k.stateOf p = .blocked) (away : ∀ s, slot = .queue s → touched (.sem s)) :
    Edits strict touched k (k₁.setState p .ready) ∧ Calm k (k₁.setState p .ready) := by
  have ring : SameRing k (k₁.setState p .ready) := r.ring.trans (setPCB_sameRing rfl)
  have state : ∀ q, (k₁.setState p .ready).stateOf q = if q = p then .ready else k.stateOf q :=
    fun q => by rw [stateOf_setState, r.stateOf]
  have other : ∀ s, ¬ touched (.sem s) → slot ≠ .queue s := fun s h e => h (away s e)
  have exited : ∀ q, (k₁.setState p .ready).stateOf q = .exited ↔ k₁.stateOf q = .exited :=
      fun q => by
    rw [state, r.stateOf]
    split_ifs with e
    · simp [e, blocked]
    · rfl
  have waiters : ∀ q, (k₁.setState p .ready).waitersOf q = k₁.waitersOf q := fun q => by
    rw [waitersOf, setState, setPCB_pcbs, waitersOf]
    split_ifs with e
    · rw [e]
    · rfl
  have entries : (k₁.setState p .ready).entries = k₁.entries :=
    entries_of_states rfl rfl rfl rfl waiters exited
  have waiting : ∀ q, Waiting ((k₁.setState p .ready).stateOf q) → q ≠ p ∧
      Waiting (k.stateOf q) := by
    intro q w
    rw [state] at w
    split_ifs at w with e
    · simp [Waiting] at w
    · exact ⟨e, w⟩
  have alive := m.allocated (p := p) (by rw [blocked]; simp)
  have ne := m.waiting_ne_idle (q := p) (Or.inl blocked)
  have records : Records strict (k₁.setState p .ready) := by
    refine (r.mid m).records.shrink (Nat.le_refl _) (fun s => by rw [entries]) (fun s q hq => ?_) ?_
    · rw [entries] at hq
      have ne : q ≠ p := fun e => r.unrecorded m s (e ▸ hq)
      rw [state, if_neg ne]
      exact m.records.waits s q ((r.entries_sub s).subset hq)
    · obtain ⟨cells, l⟩ := r.sleepList
      exact ⟨cells, l.congr rfl (Nat.le_refl _) rfl⟩
  refine ⟨⟨⟨ring, fun q => ?_, fun q w => Or.inl (waiting q w).2, fun s h => r.sems s (other s h),
    fun q _ slot hq => (r.entries_sub slot).subset (entries ▸ hq), fun q _ _ h => Or.inl ?_,
    fun q _ _ active => ?_, (r.mid m).of_states (setPCB_sameRing rfl) (fun q => ?_) ?_ records
      (r.ids.congr rfl rfl)⟩, fun c q _ w => ?_⟩, fun q active => ?_⟩
  · rw [state]
    split_ifs with e
    · subst e
      exact Or.inr ⟨alive, ne, by simp, by simp [blocked], fun w => by rw [blocked] at w; cases w⟩
    · exact Or.inl rfl
  · rw [state, if_neg (r.other_ne away h)]
  · rw [state]
    split_ifs
    · simp
    · exact active.2
  · rw [state, r.stateOf, r.ring.allocated, r.ring.idlePCB]
    split_ifs with e
    · subst e
      exact Or.inr ⟨alive, ne, by simp⟩
    · exact Or.inl rfl
  · refine (r.mid m).family_congr (setPCB_sameRing rfl) rfl fun q => ?_
    rw [setState, setPCB_pcbs]
    split_ifs with e
    · rw [e]
    · rfl
  · rw [entries]
    exact r.complete c q (waiting q w).1 (r.stateOf ▸ (waiting q w).2)
  · rw [state, if_neg]
    rintro rfl
    exact active (Or.inl blocked)

variable (touched) in
/-- A killed process is finished off. -/
theorem Removed.exits (r : Removed slot p k k₁) (m : Mid strict k) (h : Exits p k₁ k')
    (killed : k.stateOf p = .waitingForExit) (away : ∀ s, slot = .queue s → touched (.sem s)) :
    Edits strict touched k k' ∧ Calm k k' := by
  have m₁ := r.mid m
  have killed₁ : k₁.stateOf p = .waitingForExit := by rw [r.stateOf, killed]
  have other : ∀ s, ¬ touched (.sem s) → slot ≠ .queue s := fun s h e => h (away s e)
  have states : ∀ q, k'.stateOf q = k.stateOf q ∨ k.allocated q = true ∧ q ≠ k.idlePCB ∧
      k'.stateOf q ≠ .running ∧ k.stateOf q ≠ .exited ∧
        (k.stateOf q = .waitingForExit → k'.stateOf q = .exited) := fun q => by
    by_cases e : q = p
    · subst e
      rw [h.root, killed]
      exact Or.inr ⟨r.ring.allocated ▸ h.alive, m.waiting_ne_idle (Or.inr killed), by simp, by simp,
        fun _ => rfl⟩
    · rw [← r.stateOf, ← r.ring.allocated, ← r.ring.idlePCB]
      refine (h.changes q e).imp id fun ⟨_, s, a⟩ => ⟨a, m₁.waiting_ne_idle s.waiting, s.ne_running,
        s.ne_exited, fun w => ?_⟩
      rcases s with ⟨b, -⟩ | ⟨-, dead⟩
      · rw [w] at b
        cases b
      · exact dead
  have waiting : ∀ q, Waiting (k'.stateOf q) → Waiting (k.stateOf q) := fun q w => by
    by_cases e : q = p
    · subst e
      exact Or.inr killed
    · rcases h.changes q e with same | ⟨-, s, -⟩
      · rwa [← r.stateOf, ← same]
      · exact absurd w s.not_waiting
  have records := h.records m₁.records (Or.inl (r.unrecorded m))
  refine ⟨⟨⟨r.ring.trans h.ring, states, fun q w => Or.inl (waiting q w), fun s t => ?_,
    fun q _ slot hq => (r.entries_sub slot).subset (h.mem_entries hq), fun q _ _ t => Or.inl ?_,
    fun q _ _ active => ?_, m₁.of_states h.ring (fun q => ?_) (h.family m₁.family) records
      (r.ids.congr h.semArray h.freedPositions)⟩, fun c => h.complete (r.complete c)⟩,
        fun q active => ?_⟩
  · rw [h.semArray, r.sems s (other s t)]
  · refine Eq.trans ((h.changes q (r.other_ne away t)).resolve_right fun ⟨⟨o, mem, alive, _⟩,
      _, _⟩ => ?_) (by rw [r.stateOf])
    obtain ⟨s, table, -⟩ := t (.table o) ((r.entries_sub _).subset (mem_table.mpr ⟨alive, mem⟩))
    cases table
  · rw [h.calm (Or.inr killed₁) q (by rw [r.stateOf]; exact active.1), r.stateOf]
    exact active.2
  · rw [r.stateOf, r.ring.allocated, r.ring.idlePCB]
    exact (states q).imp id fun ⟨a, n, x, _⟩ => ⟨a, n, x⟩
  · rw [h.calm (Or.inr killed₁) q (by rwa [r.stateOf]), r.stateOf]

variable (touched) in
/-- A process that is EXITED already is just taken out. -/
theorem Removed.drop (r : Removed slot p k k₁) (m : Mid strict k) (spent : ¬ Waiting (k.stateOf p))
    (away : ∀ s, slot = .queue s → touched (.sem s)) : Edits strict touched k k₁ ∧ Calm k k₁ := by
  refine ⟨⟨⟨r.ring, fun q => Or.inl (by rw [r.stateOf]), fun q w => Or.inl (r.stateOf ▸ w),
    fun s h => r.sems s fun e => h (away s e), fun q _ slot hq => (r.entries_sub slot).subset hq,
    fun q _ _ _ => Or.inl (by rw [r.stateOf]), fun q _ _ active => r.stateOf ▸ active.2, r.mid m⟩,
    fun c q _ w => ?_⟩, fun q _ => by rw [r.stateOf]⟩
  rw [r.stateOf] at w
  exact r.complete c q (fun e => spent (e ▸ w)) (r.stateOf ▸ w)

end Removed

/-! ### Semaphore queues -/

section Queues

variable {strict : Prop} {k k₁ : Kernel} {semId p : Nat}

theorem updateSem_getElem? {f : Semaphore → Semaphore} {s : Nat} :
    (k.updateSem semId f).semArray[s]? =
      if s = semId then k.semArray[s]?.map f else k.semArray[s]? := by
  rw [updateSem, List.getElem?_modify]
  by_cases e : semId = s
  · subst e
    simp
  · rw [if_neg (Ne.symm e)]
    simp [e]

/-- An edit of semaphores is no edit of the list. -/
theorem sems_sameRing {sems : List Semaphore} : SameRing k { k with semArray := sems } :=
  ⟨rfl, rfl, rfl, rfl, rfl, Nat.le_refl _, fun _ => rfl⟩

theorem fifoUnqueue_some (taken : k.fifoUnqueue semId = some (p, k₁)) :
    ∃ sem queue, k.semArray[semId]? = some sem ∧ sem.queue.toList = p :: queue.toList ∧
      k₁ = k.updateSem semId fun sem => { sem with queue := queue } := by
  unfold fifoUnqueue at taken
  cases found : k.semArray[semId]? with
  | none =>
      rw [found] at taken
      cases taken
  | some sem =>
      rw [found] at taken
      cases popped : sem.queue.pop with
      | none =>
          simp only [popped] at taken
          cases taken
      | some r =>
          obtain ⟨q, queue⟩ := r
          simp only [popped, Option.some.injEq, Prod.mk.injEq] at taken
          obtain ⟨rfl, rfl⟩ := taken
          exact ⟨sem, queue, rfl, Fifo.toList_of_pop popped, rfl⟩

theorem fifoUnqueue_none : k.fifoUnqueue semId = none ↔ k.queueOf semId = [] := by
  unfold fifoUnqueue queueOf
  cases found : k.semArray[semId]? with
  | none => simp
  | some sem =>
      simp only [← Fifo.pop_eq_none_iff]
      cases popped : sem.queue.pop <;> simp

theorem fifoUnqueue_queueOf (taken : k.fifoUnqueue semId = some (p, k₁)) :
    k.queueOf semId = p :: k₁.queueOf semId := by
  obtain ⟨sem, queue, found, list, rfl⟩ := fifoUnqueue_some taken
  rw [queueOf, queueOf, updateSem_getElem?, if_pos rfl, found]
  exact list

/-- Taking the first process out of a queue. -/
theorem fifoUnqueue_removed (m : Mid strict k) (taken : k.fifoUnqueue semId = some (p, k₁)) :
    Removed (.queue semId) p k k₁ := by
  have list := fifoUnqueue_queueOf taken
  obtain ⟨sem, queue, found, popped, rfl⟩ := fifoUnqueue_some taken
  have nodup := m.records.nodup (.queue semId)
  rw [entries_queue, list, List.nodup_cons] at nodup
  have sems : ∀ s, s ≠ semId →
      (k.updateSem semId fun sem => { sem with queue := queue }).semArray[s]? = k.semArray[s]? :=
    fun s ne => by rw [updateSem_getElem?, if_neg ne]
  have here : (k.updateSem semId fun sem => { sem with queue := queue }).semArray[semId]? =
      some { sem with queue := queue } := by
    rw [updateSem_getElem?, if_pos rfl, found]
    rfl
  refine ⟨sems_sameRing, rfl, rfl, rfl, ?_, nodup.1, ?_, fun q ne hq => ?_, fun s ne => ?_,
    fun s ne => sems s fun e => ne (e ▸ rfl),
      ⟨fun s sem' hs gone => ?_, fun s hs => ?_, m.ids.nodup⟩, ?_⟩
  · rw [entries_queue, list]
    exact List.mem_cons_self
  · rw [entries_queue, entries_queue, list]
    exact List.sublist_cons_self _ _
  · rw [entries_queue, list] at hq
    exact (List.mem_cons.mp hq).resolve_left ne
  · cases s with
    | queue s => exact queueOf_congr (sems s fun e => ne (e ▸ rfl))
    | sleep => exact sleepers_congr rfl rfl rfl
    | table r => rfl
  · by_cases e : s = semId
    · subst e
      rw [here] at hs
      cases hs
      have empty := m.ids.closed s sem found gone
      rw [popped] at empty
      cases empty
    · rw [sems s e] at hs
      exact m.ids.closed s sem' hs gone
  · obtain ⟨sem', hs', gone⟩ := m.ids.freed s hs
    by_cases e : s = semId
    · subst e
      rw [found] at hs'
      cases hs'
      exact ⟨_, here, gone⟩
    · exact ⟨sem', by rw [sems s e, hs'], gone⟩
  · obtain ⟨cells, l⟩ := m.records.sleepList
    exact ⟨cells, l.congr rfl (Nat.le_refl _) rfl⟩

end Queues

/-! ### The sleep list -/

section Sleepers

variable {strict : Prop} {k : Kernel} {prev current : Nat} {passed rest : List Nat}

/-- A walk over the sleep list: the nodes it has passed and the ones to come. -/
structure SleepAt (k : Kernel) (prev current : Nat) (passed rest : List Nat) : Prop where
  list : SleepList k (passed ++ rest)
  prev : prev = NULL ∧ passed = [] ∨ passed.getLast? = some prev
  here : Segment k.sleepNext current rest NULL

theorem SleepList.at_start {cells : List Nat} (l : SleepList k cells) :
    SleepAt k NULL k.first [] cells := ⟨l, Or.inl ⟨rfl, rfl⟩, l.segment⟩

theorem SleepAt.at_node (s : SleepAt k prev current passed rest) (more : current ≠ NULL) :
    ∃ rest', rest = current :: rest' := by
  cases rest with
  | nil => exact absurd s.here more
  | cons c rest => exact ⟨rest, by rw [s.here.1]⟩

theorem SleepAt.finished (s : SleepAt k prev NULL passed rest) : rest = [] := by
  cases rest with
  | nil => rfl
  | cons c rest =>
      have := (s.list.used c (by simp)).1
      have := s.here.1
      unfold NULL at this
      omega

/-- One node further. -/
theorem SleepAt.advance (s : SleepAt k prev current passed (current :: rest)) :
    SleepAt k current (k.sleepNext current) (passed ++ [current]) rest where
  list := by simpa using s.list
  prev := Or.inr (by simp)
  here := s.here.2

theorem setSleepNode_sleepNext {f : SleptProcess → SleptProcess} {a b : Nat} :
    (k.setSleepNode a f).sleepNext b =
      if b = a then (f (k.sleepNodes a)).next else k.sleepNext b := by
  simp only [sleepNext, setSleepNode, Function.update_apply]
  split_ifs <;> rfl

theorem setSleepNode_sleepPCB {f : SleptProcess → SleptProcess} {a : Nat}
    (same : (f (k.sleepNodes a)).pcb = (k.sleepNodes a).pcb) :
    (k.setSleepNode a f).sleepPCB = k.sleepPCB := by
  funext b
  simp only [sleepPCB, setSleepNode, Function.update_apply]
  split_ifs with e
  · rw [same, e]
  · rfl

theorem SleepAt.entry (s : SleepAt k prev current passed (current :: rest)) :
    k.sleepPCB current ∈ k.entries .sleep := by
  rw [entries_sleep, s.list.sleepers]
  exact List.mem_map_of_mem (by simp)

/-- Taking the current node out. -/
theorem SleepAt.removed (s : SleepAt k prev current passed (current :: rest)) (m : Mid strict k) :
    Removed .sleep (k.sleepPCB current) k (k.removeFromSleepList prev current).1 ∧
      SleepAt (k.removeFromSleepList prev current).1 prev
        (k.removeFromSleepList prev current).2 passed rest := by
  have nodup := m.records.nodup .sleep
  rw [entries_sleep, s.list.sleepers, List.map_append, List.map_cons] at nodup
  have cells := s.list.nodup
  -- The walk of the new list, and the processes on it.
  obtain ⟨list, here, pcb⟩ :
      SleepList (k.removeFromSleepList prev current).1 (passed ++ rest) ∧
      Segment (k.removeFromSleepList prev current).1.sleepNext (k.sleepNext current) rest NULL ∧
      (k.removeFromSleepList prev current).1.sleepPCB = k.sleepPCB := by
    have used : ∀ c ∈ passed ++ rest, 0 < c ∧ c < k.unused := fun c hc => by
      refine s.list.used c ?_
      simp only [List.mem_append, List.mem_cons] at hc ⊢
      tauto
    have distinct : (passed ++ rest).Nodup :=
      cells.sublist (List.Sublist.append_left (List.sublist_cons_self _ _) _)
    unfold removeFromSleepList
    rcases s.prev with ⟨rfl, rfl⟩ | last
    · rw [if_pos rfl]
      exact ⟨⟨s.here.2, distinct, used⟩, s.here.2, rfl⟩
    · obtain ⟨front, rfl⟩ := List.getLast?_eq_some_iff.mp last
      have pos : prev ≠ NULL := by
        have := (s.list.used prev (by simp)).1
        unfold NULL
        omega
      rw [if_neg pos]
      have next : (k.setSleepNode prev fun node =>
          { node with next := (k.sleepNodes current).next }).sleepNext =
          Function.update k.sleepNext prev (k.sleepNext current) := by
        funext b
        rw [setSleepNode_sleepNext, Function.update_apply]
        rfl
      simp only [List.append_assoc, List.nodup_append, List.nodup_cons, List.mem_cons,
        List.cons_append, List.nil_append] at cells
      have once : prev ∉ front ∧ prev ∉ rest :=
        ⟨fun mem => cells.2.2 prev mem prev (Or.inl rfl) rfl, fun mem => cells.2.1.1 (Or.inr mem)⟩
      have walk := s.list.segment
      rw [segment_append] at walk
      obtain ⟨c, walk, back⟩ := walk
      have tail : Segment (Function.update k.sleepNext prev (k.sleepNext current))
          (k.sleepNext current) rest NULL := (segment_update once.2).mpr s.here.2
      refine ⟨⟨?_, distinct, used⟩, next ▸ tail, ?_⟩
      · rw [next, segment_append]
        exact ⟨k.sleepNext current, segment_relink walk once.1, tail⟩
      · exact setSleepNode_sleepPCB (a := prev)
          (f := fun node => { node with next := (k.sleepNodes current).next }) rfl
  have ring : SameRing k (k.removeFromSleepList prev current).1 := by
    unfold removeFromSleepList
    split_ifs <;> exact ⟨rfl, rfl, rfl, rfl, rfl, Nat.le_refl _, fun _ => rfl⟩
  have frame : (k.removeFromSleepList prev current).1.unused = k.unused ∧
      (k.removeFromSleepList prev current).1.pcbs = k.pcbs ∧
      (k.removeFromSleepList prev current).1.processInForeground = k.processInForeground ∧
      (k.removeFromSleepList prev current).1.semArray = k.semArray ∧
      (k.removeFromSleepList prev current).1.freedPositions = k.freedPositions := by
    unfold removeFromSleepList
    split_ifs <;> exact ⟨rfl, rfl, rfl, rfl, rfl⟩
  have next : (k.removeFromSleepList prev current).2 = k.sleepNext current := by
    unfold removeFromSleepList
    split_ifs <;> rfl
  have sleepers : (k.removeFromSleepList prev current).1.sleepers =
      passed.map k.sleepPCB ++ rest.map k.sleepPCB := by
    rw [list.sleepers, pcb, List.map_append]
  have old : k.sleepers = passed.map k.sleepPCB ++ k.sleepPCB current :: rest.map k.sleepPCB := by
    rw [s.list.sleepers, List.map_append, List.map_cons]
  refine ⟨⟨ring, frame.1, frame.2.1, frame.2.2.1, s.entry, ?_, ?_, fun q ne hq => ?_,
    fun slot ne => ?_,
    fun t _ => by rw [frame.2.2.2.1], m.ids.congr frame.2.2.2.1 frame.2.2.2.2, _, list⟩,
    list, s.prev, next ▸ here⟩
  · rw [entries_sleep, sleepers]
    simp only [List.nodup_append, List.nodup_cons] at nodup
    rw [List.mem_append]
    rintro (mem | mem)
    · exact nodup.2.2 _ mem _ List.mem_cons_self rfl
    · exact nodup.2.1.1 mem
  · rw [entries_sleep, entries_sleep, sleepers, old]
    exact List.Sublist.append_left (List.sublist_cons_self _ _) _
  · rw [entries_sleep, old] at hq
    rw [entries_sleep, sleepers, List.mem_append]
    rcases List.mem_append.mp hq with hq | hq
    · exact Or.inl hq
    · exact Or.inr ((List.mem_cons.mp hq).resolve_left ne)
  · cases slot with
    | queue t => exact queueOf_congr (by rw [frame.2.2.2.1])
    | sleep => exact absurd rfl ne
    | table r =>
        have pcb : (k.removeFromSleepList prev current).1.pcbs r = k.pcbs r := by rw [frame.2.1]
        rw [entries_table, entries_table, Kernel.stateOf, Kernel.waitersOf, pcb]
        rfl

end Sleepers

end SoTp.Process
