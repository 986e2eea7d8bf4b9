/-
What a context switch does, node by node. The order in which `schedule` looks at the
nodes is that of the ring, from the node after the current one to the current one
itself; on its way it reaps the EXITED processes, and those it passes come last the next
time.

* `Scan.again` — one round of the search.
* `select_scan` — the search as a whole, with its events.
* `contextSwitch_turn` — a context switch lets the running process go on, or searches.
-/

import SoTp.Process.Log
import SoTp.Process.Select

namespace SoTp.Process

open SoTp.Lib Kernel

namespace Kernel

/-- The node of an EXITED process. -/
def exitedAt (k : Kernel) (node : Nat) : Bool := k.stateOf (k.pcbOf node) = .exited

/-- The nodes that a search over `nodes` leaves in the list. -/
def kept (k : Kernel) (nodes : List Nat) : List Nat := nodes.filter fun n => !k.exitedAt n

/-- The processes that a search over `nodes` reaps. -/
def reaped (k : Kernel) (nodes : List Nat) : List Nat := (nodes.filter k.exitedAt).map k.pcbOf

/-- The events of such a search. -/
def reaps (running : Nat) (k : Kernel) (nodes : List Nat) : List Event :=
  (k.reaped nodes).flatMap (reapLog running k)

end Kernel

/-- The search has passed the nodes of `scanned`, and those of `todo` are still to come. -/
structure Scan (start k : Kernel) (scanned todo : List Nat) : Prop where
  ring : ∃ before cursor after, RingAt k before cursor after ∧ k.pcbList.current = cursor ∧
    cursor :: (after ++ before) = todo ++ start.kept scanned
  pcbs : k.pcbs = start.pcbs
  pcbOf : k.pcbOf = start.pcbOf
  allocated : ∀ p, k.allocated p = true ↔ start.allocated p = true ∧ p ∉ start.reaped scanned
  quiet : ∀ n ∈ scanned, start.stateOf (start.pcbOf n) ≠ .ready

/-- What `schedule` decides after it has passed the nodes of `scanned`, at `n`, with those
of `rest` not looked at. -/
structure Chooses (start : Kernel) (scanned : List Nat) (n : Nat) (rest : List Nat)
    (decision : Event) (k' : Kernel) : Prop where
  quiet : ∀ m ∈ scanned, start.stateOf (start.pcbOf m) ≠ .ready
  ring : ∃ before cursor after, RingAt k' before cursor after ∧
    (k'.pcbList.current = cursor ∨ k'.idle) ∧
    after ++ before ++ [cursor] = rest ++ start.kept scanned ++ [n]
  allocated : ∀ p, k'.allocated p = true ↔ start.allocated p = true ∧ p ∉ start.reaped scanned
  decision : (start.stateOf (start.pcbOf n) = .ready ∧ k'.pcbList.current = n ∧
      k'.quantumsLeft = (start.pcbs (start.pcbOf n)).priority - 1 ∧
      decision = .selects (start.pcbOf n) (start.pcbs (start.pcbOf n)).priority) ∨
    (start.stateOf (start.pcbOf n) ≠ .ready ∧ rest = [] ∧ k'.idle ∧ decision = .idles)

/-- The search through `order`, with the events so far. -/
def Passing (start : Kernel) (order : List Nat) (running : Nat) (k : Kernel)
    (done : List Event) : Prop :=
  ∃ scanned n todo, order = scanned ++ n :: todo ∧ Scan start k scanned (n :: todo) ∧
    done = reaps running start scanned

section Search

variable {start k k' : Kernel} {ogCurrent : Nat} {scanned todo : List Nat}

theorem kept_concat (k : Kernel) (nodes : List Nat) (n : Nat) : k.kept (nodes ++ [n]) =
    k.kept nodes ++ if k.exitedAt n then [] else [n] := by
  rw [kept, List.filter_append, kept]
  by_cases e : k.exitedAt n <;> simp [e]

theorem reaped_concat (k : Kernel) (nodes : List Nat) (n : Nat) : k.reaped (nodes ++ [n]) =
    k.reaped nodes ++ if k.exitedAt n then [k.pcbOf n] else [] := by
  rw [reaped, List.filter_append, List.map_append, reaped]
  by_cases e : k.exitedAt n <;> simp [e]

theorem reaps_concat (running : Nat) (k : Kernel) (nodes : List Nat) (n : Nat) :
    reaps running k (nodes ++ [n]) =
      reaps running k nodes ++ if k.exitedAt n then reapLog running k (k.pcbOf n) else [] := by
  rw [reaps, reaped_concat, List.flatMap_append, reaps]
  split_ifs <;> simp

theorem freeCurrentProcess_pcbs (k : Kernel) : k.freeCurrentProcess.pcbs = k.pcbs ∧
    k.freeCurrentProcess.pcbOf = k.pcbOf := by
  unfold freeCurrentProcess
  split_ifs
  · exact ⟨rfl, rfl⟩
  · exact ⟨rfl, rfl⟩
  · exact ⟨rfl, funext fun n => setNext_pcbOf (k := k) (n := k.pcbList.prev) (q := n)⟩

theorem nextPCB_same (k : Kernel) : k.nextPCB.pcbs = k.pcbs ∧ k.nextPCB.pcbOf = k.pcbOf ∧
    k.nextPCB.allocated = k.allocated := by
  unfold nextPCB
  split_ifs <;> exact ⟨rfl, rfl, rfl⟩

/-- The node the search is at. -/
theorem Scan.current {n : Nat} (s : Scan start k scanned (n :: todo)) :
    k.pcbList.current = n ∧ k.currentPCB = start.pcbOf n ∧
      k.stateOf k.currentPCB = start.stateOf (start.pcbOf n) := by
  obtain ⟨_, cursor, _, -, here, view⟩ := s.ring
  have e : k.pcbList.current = n := here.trans (List.cons.inj view).1
  have e' : k.currentPCB = start.pcbOf n := by rw [currentPCB, e, s.pcbOf]
  exact ⟨e, e', by rw [e', stateOf, s.pcbs, stateOf]⟩

/-- One round of the search that goes on, and its events. -/
theorem Scan.again (running : Nat) {n : Nat} (s : Scan start k scanned (n :: todo))
    (more : todo ≠ []) (other : n ≠ ogCurrent) (run : selectRound ogCurrent k = .ok (.again k')) :
    Scan start k' (scanned ++ [n]) todo ∧ selectRoundLog running ogCurrent k =
      if start.exitedAt n then reapLog running start (start.pcbOf n) else [] := by
  obtain ⟨here, pcb, state⟩ := s.current
  obtain ⟨before, cursor, after, ring, at_cursor, view⟩ := s.ring
  obtain ⟨rfl, around⟩ : cursor = n ∧ after ++ before = todo ++ start.kept scanned :=
    List.cons.inj view
  have two : after ++ before ≠ [] := by
    rw [around]
    exact List.append_ne_nil_of_left_ne_nil more _
  unfold selectRound at run
  unfold selectRoundLog
  simp only [state, here, if_neg other] at run ⊢
  have ready : start.stateOf (start.pcbOf cursor) ≠ .ready := fun ready => by
    rw [if_pos ready] at run
    cases run
  have quiet : ∀ m ∈ scanned ++ [cursor], start.stateOf (start.pcbOf m) ≠ .ready := fun m mem => by
    rcases List.mem_append.mp mem with earlier | here
    · exact s.quiet m earlier
    · exact List.mem_singleton.mp here ▸ ready
  rw [if_neg ready] at run ⊢
  by_cases exited : start.stateOf (start.pcbOf cursor) = .exited
  · -- The node is taken out.
    rw [if_pos exited] at run ⊢
    cases run
    have gone : start.exitedAt cursor = true := by simpa [exitedAt] using exited
    obtain ⟨before', cursor', after', ring', here', -, view'⟩ :=
      freeCurrentProcess_ring ring at_cursor two
    obtain ⟨pcbs, pcbOf⟩ := freeCurrentProcess_pcbs k
    refine ⟨⟨⟨before', cursor', after', ring', here', ?_⟩, pcbs.trans s.pcbs, pcbOf.trans s.pcbOf,
      fun p => ?_, quiet⟩, ?_⟩
    · rw [view', around, kept_concat, if_pos gone, List.append_nil]
    · rw [freeCurrentProcess_eq ring at_cursor two, reaped_concat, if_pos gone]
      have e : (unlinked k (k.next cursor)).allocated p =
          if p = start.pcbOf cursor then false else k.allocated p := by
        rw [← pcb]
        exact Function.update_apply _ _ _ _
      rw [e]
      split_ifs with same
      · simp [same]
      · rw [s.allocated]
        simp [same]
    · rw [if_pos gone, freeCurrentProcessLog, if_neg, if_neg (mt ring.head_eq_tail.mp two), pcb]
      · rw [reapLog, reapLog, stateOf, s.pcbs, stateOf]
      · rw [not_or, at_cursor]
        exact ⟨ring.cursor_ne, ring.head_ne⟩
  · rw [if_neg exited] at run ⊢
    cases run
    have stays : start.exitedAt cursor = false := by simpa [exitedAt] using exited
    obtain ⟨before', cursor', after', ring', here', -, view'⟩ := nextPCB_ring ring at_cursor
    obtain ⟨pcbs, pcbOf, allocated⟩ := nextPCB_same k
    refine ⟨⟨⟨before', cursor', after', ring', here', ?_⟩, pcbs.trans s.pcbs, pcbOf.trans s.pcbOf,
      fun p => ?_, quiet⟩, ?_⟩
    · rw [view', around, kept_concat, stays]
      simp
    · rw [allocated, s.allocated, reaped_concat, stays]
      simp
    · rw [stays]
      simp

/-- The round that leaves the search, and its event. -/
theorem Scan.leave (running : Nat) {n : Nat} {r : Kernel × Nat}
    (s : Scan start k scanned (n :: todo))
    (last : n = ogCurrent → todo = []) (run : selectRound ogCurrent k = .ok (.leave r)) :
    ∃ decision, selectRoundLog running ogCurrent k = [decision] ∧
      Chooses start scanned n todo decision r.1 := by
  obtain ⟨here, pcb, state⟩ := s.current
  obtain ⟨before, cursor, after, ring, at_cursor, view⟩ := s.ring
  obtain ⟨rfl, around⟩ : cursor = n ∧ after ++ before = todo ++ start.kept scanned :=
    List.cons.inj view
  unfold selectRound at run
  unfold selectRoundLog
  simp only [state, here] at run ⊢
  by_cases ready : start.stateOf (start.pcbOf cursor) = .ready
  · rw [if_pos ready] at run ⊢
    cases run
    have same : SameRing k (k.setState k.currentPCB .running) := setPCB_sameRing rfl
    have priority : ((k.setState k.currentPCB .running).pcbs k.currentPCB).priority =
        (start.pcbs (start.pcbOf cursor)).priority := by
      rw [setState, setPCB_pcbs, if_pos rfl, pcb, s.pcbs]
    have priority' :
        (k.pcbs k.currentPCB).priority = (start.pcbs (start.pcbOf cursor)).priority := by
      rw [pcb, s.pcbs]
    refine ⟨_, rfl, s.quiet, ⟨before, cursor, after, ring.congr (same.trans quantums_sameRing),
      Or.inl at_cursor, by rw [around]⟩, s.allocated, Or.inl ⟨ready, here, ?_, ?_⟩⟩
    · simp only [priority]
    · rw [priority', pcb]
  · rw [if_neg ready] at run ⊢
    have back : cursor = ogCurrent := by
      by_contra other
      rw [if_neg other] at run
      split_ifs at run <;> cases run
    rw [if_pos back] at run ⊢
    cases run
    exact ⟨_, rfl, s.quiet, ⟨before, cursor, after, { ring with }, Or.inr rfl, by rw [around]⟩,
      s.allocated, Or.inr ⟨ready, last back, rfl, rfl⟩⟩

/-- Only the last place of an order without repetitions holds its last entry. -/
theorem nodup_last {order : List Nat} {last n : Nat} (nodup : (order ++ [last]).Nodup)
    (e : order ++ [last] = scanned ++ n :: todo) : n = last ↔ todo = [] := by
  rcases List.eq_nil_or_concat todo with rfl | ⟨todo, m, rfl⟩
  · have same := congrArg List.getLast? e
    simp only [List.getLast?_concat, Option.some.injEq] at same
    simp [same]
  · rw [List.concat_eq_append, ← List.cons_append, ← List.append_assoc] at e
    obtain ⟨e, e'⟩ := List.append_inj' e rfl
    rw [e] at nodup
    cases e'
    simp only [List.concat_eq_append, List.append_eq_nil_iff, List.cons_ne_self,
      and_false, iff_false]
    rintro rfl
    simp [List.nodup_append] at nodup

/-- The search from a ring of processes that all wait for their turn or do not want one. -/
theorem search_scan (running : Nat) {before after : List Nat} {fuel : Nat} {r : Kernel × Nat}
    (ring : RingAt start before ogCurrent after) (here : start.pcbList.current = ogCurrent)
    (run : loop (selectRound ogCurrent) fuel start.nextPCB = .ok r) :
    ∃ scanned n rest decision, after ++ before ++ [ogCurrent] = scanned ++ n :: rest ∧
      Chooses start scanned n rest decision r.1 ∧
      loopLog (selectRound ogCurrent) (selectRoundLog running ogCurrent) fuel start.nextPCB =
        reaps running start scanned ++ [decision] := by
  obtain ⟨before', cursor', after', ring', here', -, view'⟩ := nextPCB_ring ring here
  obtain ⟨pcbs, pcbOf, allocated⟩ := nextPCB_same start
  have nodup : (after ++ before ++ [ogCurrent]).Nodup :=
    (List.perm_append_singleton _ _).nodup_iff.mpr ring.view_nodup
  -- The node the search began at comes last.
  have last : ∀ scanned n todo, after ++ before ++ [ogCurrent] = scanned ++ n :: todo →
      (n = ogCurrent ↔ todo = []) := fun _ _ _ => nodup_last nodup
  have first : Passing start (after ++ before ++ [ogCurrent]) running start.nextPCB [] := by
    obtain ⟨n, todo, e⟩ : ∃ n todo, after ++ before ++ [ogCurrent] = n :: todo := by
      cases after ++ before with
      | nil => exact ⟨_, _, rfl⟩
      | cons n todo => exact ⟨n, todo ++ [ogCurrent], rfl⟩
    refine ⟨[], n, todo, e, ⟨⟨before', cursor', after', ring', here', ?_⟩, pcbs, pcbOf, fun p => ?_,
      fun m mem => by cases mem⟩, rfl⟩
    · rw [view', e]
      simp [kept]
    · rw [allocated]
      simp [reaped]
  have all := loop_log (selectRoundLog running ogCurrent)
    (Passing start (after ++ before ++ [ogCurrent]) running)
    (fun r done => ∃ scanned n rest decision, after ++ before ++ [ogCurrent] =
      scanned ++ n :: rest ∧
      Chooses start scanned n rest decision r.1 ∧ done = reaps running start scanned ++ [decision])
    ?_ ?_ first run
  · simpa using all
  · rintro k k' done ⟨scanned, n, todo, order, s, rfl⟩ round
    have other : n ≠ ogCurrent := fun back => by
      obtain ⟨here, pcb, state⟩ := s.current
      unfold selectRound at round
      simp only [here, if_pos back] at round
      split_ifs at round <;> cases round
    have more := mt (last _ _ _ order).mpr other
    obtain ⟨m, todo, rfl⟩ := List.exists_cons_of_ne_nil more
    obtain ⟨s', log⟩ := s.again running more other round
    refine ⟨scanned ++ [n], m, todo, by rw [order]; simp, s', ?_⟩
    rw [log, reaps_concat]
  · rintro k r done ⟨scanned, n, todo, order, s, rfl⟩ round
    obtain ⟨decision, log, chooses⟩ := s.leave running (last _ _ _ order).mp round
    exact ⟨scanned, n, todo, decision, order, chooses, by rw [log]⟩

end Search

/-! ### Context switches -/

/-- A context switch, with its events: the running process has quantums left and goes on,
or `schedule` looks for the next one through the nodes of `order`. -/
inductive Turn (k : Kernel) (order : List Nat) (k' : Kernel) : List Event → Prop
  | resumes (quantums : 0 < k.quantumsLeft) (running : k.stateOf k.currentPCB = .running)
      (ring : SameRing k k') (quantumsLeft : k'.quantumsLeft = k.quantumsLeft - 1) :
      Turn k order k' [.resumes k.currentPCB]
  | searches {scanned rest : List Nat} {n : Nat} {decision : Event}
      (spent : ¬ (0 < k.quantumsLeft ∧ k.stateOf k.currentPCB = .running))
      (order_eq : order = scanned ++ n :: rest)
      (chooses : Chooses (preempted k) scanned n rest decision k') :
      Turn k order k' (reaps k.currentPCB (preempted k) scanned ++ [decision])

/-- Two kernels between which a search makes no difference. -/
structure LooksLike (start start' : Kernel) : Prop where
  pcbOf : start'.pcbOf = start.pcbOf
  allocated : start'.allocated = start.allocated
  pcbs : ∀ p, start'.pcbs p = { start.pcbs p with rsp := (start'.pcbs p).rsp }

section Turn

variable {k k' start start' : Kernel}

theorem LooksLike.stateOf (l : LooksLike start start') : start'.stateOf = start.stateOf := by
  funext p
  rw [Kernel.stateOf, l.pcbs, Kernel.stateOf]

theorem LooksLike.reaped (l : LooksLike start start') : start'.reaped = start.reaped := by
  funext nodes
  have at_ : start'.exitedAt = start.exitedAt := by
    funext n
    rw [exitedAt, l.stateOf, l.pcbOf, exitedAt]
  rw [Kernel.reaped, at_, l.pcbOf, Kernel.reaped]

theorem LooksLike.reaps (l : LooksLike start start') (running : Nat) (nodes : List Nat) :
    reaps running start' nodes = reaps running start nodes := by
  have log : reapLog running start' = reapLog running start := by
    funext p
    rw [reapLog, reapLog, l.stateOf, l.pcbs]
  rw [Kernel.reaps, log, l.reaped, Kernel.reaps]

theorem LooksLike.chooses (l : LooksLike start start') {scanned rest : List Nat} {n : Nat}
    {decision : Event} (c : Chooses start' scanned n rest decision k') :
    Chooses start scanned n rest decision k' := by
  have priority : ∀ p, (start'.pcbs p).priority = (start.pcbs p).priority := fun p => by rw [l.pcbs]
  have kept : start'.kept scanned = start.kept scanned := by
    unfold Kernel.kept exitedAt
    rw [l.stateOf, l.pcbOf]
  refine ⟨fun m mem => ?_, ?_, fun p => ?_, ?_⟩
  · rw [← l.stateOf, ← l.pcbOf]
    exact c.quiet m mem
  · rw [← kept]
    exact c.ring
  · rw [← l.allocated, ← l.reaped]
    exact c.allocated p
  · rw [← l.stateOf, ← l.pcbOf, ← priority]
    exact c.decision

/-- A search may begin before or after the idle process is left. -/
theorem nextPCB_looksLike (k : Kernel) : LooksLike k k.nextPCB := by
  obtain ⟨pcbs, pcbOf, allocated⟩ := nextPCB_same k
  exact ⟨pcbOf, allocated, fun p => by rw [pcbs]⟩

theorem preempted_saveRsp_looksLike (k : Kernel) (rsp : Nat) :
    LooksLike (preempted k) (preempted (k.saveRsp rsp)) := by
  have here : (k.saveRsp rsp).currentPCB = k.currentPCB := rfl
  have saved :
      ∀ p, (k.saveRsp rsp).pcbs p = { k.pcbs p with rsp := ((k.saveRsp rsp).pcbs p).rsp } :=
    fun p => by
      rw [saveRsp, setPCB_pcbs]
      split_ifs with e
      · rw [e]
      · rfl
  unfold preempted
  rw [here, saveRsp_stateOf]
  split_ifs
  · refine ⟨rfl, rfl, fun p => ?_⟩
    rw [setState, setPCB_pcbs, setState, setPCB_pcbs]
    split_ifs
    · rw [saved]
    · exact saved p
  · exact ⟨rfl, rfl, saved⟩

theorem LooksLike.trans {start'' : Kernel} (l : LooksLike start start')
    (l' : LooksLike start' start'') : LooksLike start start'' where
  pcbOf := l'.pcbOf.trans l.pcbOf
  allocated := l'.allocated.trans l.allocated
  pcbs p := by rw [l'.pcbs p, l.pcbs p]

theorem preempted_sameRing (k : Kernel) : SameRing k (preempted k) := by
  unfold preempted
  split_ifs
  · exact setPCB_sameRing rfl
  · exact SameRing.refl k

theorem selectLog_eq (fuel running : Nat) (k : Kernel) : k.selectLog fuel running =
    let k := if (preempted k).idle then (preempted k).nextPCB else preempted k
    loopLog (selectRound k.pcbList.current)
      (selectRoundLog running k.pcbList.current) fuel k.nextPCB :=
  rfl

/-- A context switch lets the running process go on, or searches. -/
theorem contextSwitch_turn {before after : List Nat} {cursor fuel : Nat}
    (ring : RingAt k before cursor after) (here : k.pcbList.current = cursor ∨ k.idle)
    (run : k.contextSwitch fuel = .ok k') :
    Turn k (after ++ before ++ [cursor]) k' (k.contextSwitchLog fuel) := by
  obtain ⟨⟨k₁, rsp⟩, scheduled, rest⟩ := bind_ok_iff.mp run
  cases rest
  unfold schedule at scheduled
  unfold contextSwitchLog scheduleLog
  have saved : (k.saveRsp k.rsp).quantumsLeft = k.quantumsLeft ∧
      (k.saveRsp k.rsp).stateOf (k.saveRsp k.rsp).currentPCB = k.stateOf k.currentPCB :=
    ⟨rfl, congrFun saveRsp_stateOf _⟩
  simp only [saved.1, saved.2] at scheduled ⊢
  by_cases quantum : k.quantumsLeft > 0 ∧ k.stateOf k.currentPCB = .running
  · rw [if_pos quantum] at scheduled ⊢
    cases scheduled
    have same : SameRing k (k.saveRsp k.rsp) := setPCB_sameRing rfl
    exact .resumes quantum.1 quantum.2
      (same.trans ⟨rfl, rfl, rfl, rfl, rfl, Nat.le_refl _, fun _ => rfl⟩) rfl
  · rw [if_neg quantum] at scheduled ⊢
    -- The search begins at the cursor, with the preempted process READY.
    obtain ⟨start, e, ring', here', like⟩ : ∃ start : Kernel,
        (if (preempted (k.saveRsp k.rsp)).idle then (preempted (k.saveRsp k.rsp)).nextPCB
          else preempted (k.saveRsp k.rsp)) = start ∧ RingAt start before cursor after ∧
        start.pcbList.current = cursor ∧ LooksLike (preempted k) start := by
      have same : SameRing k (preempted (k.saveRsp k.rsp)) :=
        (setPCB_sameRing rfl : SameRing k (k.saveRsp k.rsp)).trans (preempted_sameRing _)
      have like := preempted_saveRsp_looksLike k k.rsp
      by_cases asleep : (preempted (k.saveRsp k.rsp)).idle
      · obtain ⟨ring', here'⟩ := nextPCB_idle (ring.congr same) asleep
        exact ⟨_, if_pos asleep, ring', here', like.trans (nextPCB_looksLike _)⟩
      · refine ⟨_, if_neg asleep, ring.congr same, ?_, like⟩
        rw [same.pcbList]
        exact here.resolve_right (mt same.idle.mpr asleep)
    rw [select_eq, e] at scheduled
    simp only [here'] at scheduled
    obtain ⟨scanned, n, rest, decision, order, chooses, log⟩ :=
      search_scan k.currentPCB ring' here' scheduled
    have events : (k.saveRsp k.rsp).selectLog fuel k.currentPCB =
        reaps k.currentPCB (preempted k) scanned ++ [decision] := by
      rw [selectLog_eq, e]
      simp only [here']
      rw [log, like.reaps]
    obtain ⟨quiet, ⟨before', cursor', after', ring₁, at_cursor, view⟩, allocated, decided⟩ :=
      like.chooses chooses
    have same : SameRing k₁ { k₁ with rsp := rsp } :=
      ⟨rfl, rfl, rfl, rfl, rfl, Nat.le_refl _, fun _ => rfl⟩
    have running : (k.saveRsp k.rsp).currentPCB = k.currentPCB := rfl
    rw [running, events]
    exact .searches quantum order
      ⟨quiet, ⟨before', cursor', after', ring₁.congr same, at_cursor, view⟩, allocated, decided⟩

end Turn

end SoTp.Process
