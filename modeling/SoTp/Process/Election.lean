/-
Which process `schedule` elects, from any process list whose nodes form a circle.

A running process with quantums left goes on. Otherwise the nodes are looked at in the
order of the circle, from the one after the interrupted process to that process itself:
the first READY one is elected, and the EXITED ones before it are taken out.

* `passed` — the nodes that a search looks at and leaves behind.
* `Walk.round` — one round of the search.
* `schedule_elects` — the whole of `schedule`.
-/

import Mathlib.Data.List.TakeWhile
import SoTp.Process.Scan

namespace SoTp.Process

open SoTp.Lib Kernel

namespace Kernel

def readyAt (k : Kernel) (node : Nat) : Bool := k.stateOf (k.pcbOf node) = .ready

/-- What a search through `order` passes before it finds a READY process. The last node is
the one it began at, which it does not pass. -/
def passed (k : Kernel) (order : List Nat) : List Nat := order.dropLast.takeWhile fun n =>
    !k.readyAt n

end Kernel

/-- The state a selection starts from: the interrupted process is at the cursor, or the
idle process is left and `prev->next` is. -/
structure Interrupted (k : Kernel) (before : List Nat) (cursor : Nat) (after : List Nat) : Prop
    extends RingList k before cursor after where
  here : k.pcbList.current = cursor ∨ k.idle ∧ k.next k.pcbList.prev = cursor

/-- The outcome of a search through `order`, the nodes of the list from behind the
interrupted process on. -/
structure Elects (start : Kernel) (nodes order : List Nat) (r : Kernel × Nat) : Prop where
  picks : ∀ n, order.find? start.readyAt = some n → r.1.pcbList.current = n ∧
    r.1.stateOf = Function.update start.stateOf (start.pcbOf n) .running ∧
    r.1.quantumsLeft = (start.pcbs (start.pcbOf n)).priority - 1
  idles : order.find? start.readyAt = none → r.1.idle ∧ r.1.stateOf = start.stateOf ∧
    r.1.quantumsLeft = start.quantumsLeft
  /-- Only states were changed. -/
  pcbs : ∀ p, r.1.pcbs p = { start.pcbs p with state := r.1.stateOf p }
  rsp : r.2 = (start.pcbs r.1.currentPCB).rsp
  idleNode : r.1.idleProcPCBNode = start.idleProcPCBNode
  list : ∃ before cursor after, Interrupted r.1 before cursor after ∧
    before ++ cursor :: after = nodes.filter fun n => !(start.passed order).contains n ||
      !start.exitedAt n
  freed : ∀ p, r.1.allocated p = true ↔
    start.allocated p = true ∧ p ∉ start.reaped (start.passed order)

/-- The search has looked at the nodes of `scanned`, none of them READY. -/
structure Walk (start k : Kernel) (nodes scanned todo : List Nat) : Prop where
  circle : ∃ before cursor after, Circle k before cursor after ∧ k.pcbList.current = cursor ∧
    cursor :: (after ++ before) = todo ++ start.kept scanned ∧
    before ++ cursor :: after = nodes.filter fun n => !scanned.contains n || !start.exitedAt n
  pcbs : k.pcbs = start.pcbs
  pcbOf : k.pcbOf = start.pcbOf
  idleNode : k.idleProcPCBNode = start.idleProcPCBNode
  quantumsLeft : k.quantumsLeft = start.quantumsLeft
  allocated : ∀ p, k.allocated p = true ↔ start.allocated p = true ∧ p ∉ start.reaped scanned
  quiet : ∀ n ∈ scanned, start.readyAt n = false

section Order

variable {k : Kernel} {scanned : List Nat} {n : Nat}

/-- The search stops at the first READY process. -/
theorem passed_ready (rest : List Nat) (quiet : ∀ m ∈ scanned, k.readyAt m = false)
    (ready : k.readyAt n = true) :
    (scanned ++ n :: rest).find? k.readyAt = some n ∧ k.passed (scanned ++ n :: rest) =
      scanned := by
  have none : scanned.find? k.readyAt = none := by simpa using quiet
  refine ⟨by rw [List.find?_append, none]; simp [ready], ?_⟩
  rw [passed, List.dropLast_append_of_ne_nil (List.cons_ne_nil _ _),
    List.takeWhile_append_of_pos fun m hm => by rw [quiet m hm]; rfl]
  cases rest with
  | nil => simp
  | cons m rest => simp [List.dropLast_cons_of_ne_nil, ready]

/-- It passes all but the last node when there is none. -/
theorem passed_none (quiet : ∀ m ∈ scanned, k.readyAt m = false) (asleep : k.readyAt n = false) :
    (scanned ++ [n]).find? k.readyAt = none ∧ k.passed (scanned ++ [n]) = scanned := by
  constructor
  · simpa [asleep] using quiet
  · rw [passed, List.dropLast_concat, List.takeWhile_eq_self_iff]
    exact fun m hm => by rw [quiet m hm]; rfl

end Order

section Walk

variable {start k : Kernel} {nodes scanned todo : List Nat} {ogCurrent n : Nat}

/-- The node the search is at. -/
theorem Walk.current (w : Walk start k nodes scanned (n :: todo)) : k.pcbList.current = n ∧
    k.currentPCB = start.pcbOf n ∧ k.stateOf k.currentPCB = start.stateOf (start.pcbOf n) := by
  obtain ⟨_, cursor, _, -, here, view, -⟩ := w.circle
  have e : k.pcbList.current = n := here.trans (List.cons.inj view).1
  have e' : k.currentPCB = start.pcbOf n := by rw [currentPCB, e, w.pcbOf]
  exact ⟨e, e', by rw [e', stateOf, w.pcbs, stateOf]⟩

theorem RingList.congr {k' : Kernel} {before after : List Nat} {cursor : Nat}
    (r : RingList k before cursor after) (next : k'.next = k.next)
    (head : k'.pcbList.head = k.pcbList.head) (tail : k'.pcbList.tail = k.pcbList.tail)
    (idle : k'.idleProcPCBNode = k.idleProcPCBNode) : RingList k' before cursor after where
  cycle := next ▸ r.cycle
  head := head ▸ r.head
  tail := tail ▸ r.tail
  nodup := r.nodup
  nonNull := r.nonNull
  idleOutside := idle ▸ r.idleOutside
  idleNonNull := idle ▸ r.idleNonNull

/-- A READY process is elected. -/
theorem Walk.elects (w : Walk start k nodes scanned (n :: todo)) (ready : start.readyAt n = true) :
    ∃ r, selectRound ogCurrent k = .ok (.leave r) ∧
      Elects start nodes (scanned ++ n :: todo) r := by
  obtain ⟨here, pcb, state⟩ := w.current
  obtain ⟨before, cursor, after, circle, at_cursor, -, list⟩ := w.circle
  obtain ⟨found, passed⟩ := passed_ready todo w.quiet ready
  have awake : k.stateOf k.currentPCB = .ready := by
    rw [state]
    simpa [readyAt] using ready
  have states : (k.setState k.currentPCB .running).stateOf =
      Function.update start.stateOf (start.pcbOf n) .running := by
    funext p
    rw [stateOf_setState, Function.update_apply, pcb, stateOf, stateOf, w.pcbs]
  have pcbs : ∀ p, (k.setState k.currentPCB .running).pcbs p =
      { start.pcbs p with state := (k.setState k.currentPCB .running).stateOf p } := fun p => by
    rw [stateOf_setState, setState, setPCB_pcbs, w.pcbs]
    split_ifs with e
    · rw [e]
    · rw [stateOf, w.pcbs]
  refine ⟨_, by rw [selectRound, if_pos awake], ?_⟩
  have elected : ∀ m, (scanned ++ n :: todo).find? start.readyAt = some m → m = n := fun m e => by
    rw [found] at e
    exact (Option.some.inj e).symm
  exact {
    picks := fun m e => by
      obtain rfl := elected m e
      refine ⟨here, states, ?_⟩
      have priority := congrArg PCB.priority (pcbs k.currentPCB)
      simp only [pcb] at priority ⊢
      rw [priority]
    idles := fun e => by rw [found] at e; cases e
    pcbs := pcbs
    rsp := by
      change ((k.setState k.currentPCB .running).pcbs k.currentPCB).rsp =
        (start.pcbs k.currentPCB).rsp
      rw [pcbs]
    idleNode := w.idleNode
    list := by
      rw [passed]
      have ring : RingList (k.setState k.currentPCB .running) before cursor after :=
        circle.toRingList.congr rfl rfl rfl rfl
      exact ⟨before, cursor, after, { ring with here := Or.inl at_cursor }, list⟩
    freed := by
      rw [passed]
      exact w.allocated }

/-- Back where it began, the search leaves the processor to the idle process. -/
theorem Walk.idles (w : Walk start k nodes scanned [ogCurrent])
    (asleep : start.readyAt ogCurrent = false) :
    ∃ r, selectRound ogCurrent k = .ok (.leave r) ∧
      Elects start nodes (scanned ++ [ogCurrent]) r := by
  obtain ⟨here, pcb, state⟩ := w.current
  obtain ⟨before, cursor, after, circle, -, -, list⟩ := w.circle
  obtain ⟨none, passed⟩ := passed_none w.quiet asleep
  have quiet : k.stateOf k.currentPCB ≠ .ready := by
    rw [state]
    simpa [readyAt] using asleep
  have states : k.stateOf = start.stateOf := by
    funext p
    rw [stateOf, w.pcbs, stateOf]
  refine ⟨_, by rw [selectRound, if_neg quiet, if_pos here], ?_⟩
  exact {
    picks := fun m e => by rw [none] at e; cases e
    idles := fun _ => ⟨rfl, states, w.quantumsLeft⟩
    pcbs := fun p => by
      change k.pcbs p = { start.pcbs p with state := k.stateOf p }
      rw [stateOf, w.pcbs]
    rsp := by
      change (k.pcbs _).rsp = (start.pcbs _).rsp
      rw [w.pcbs]
    idleNode := w.idleNode
    list := by
      rw [passed]
      exact ⟨before, cursor, after,
        { circle.toRingList with here := Or.inr ⟨rfl, circle.next_prev⟩ }, list⟩
    freed := by
      rw [passed]
      exact w.allocated }

/-- A process that is neither READY nor where the search began is passed. -/
theorem Walk.again (w : Walk start k nodes scanned (n :: todo)) (asleep : start.readyAt n = false)
    (other : n ≠ ogCurrent) (more : todo ≠ []) :
    ∃ k', selectRound ogCurrent k = .ok (.again k') ∧
      Walk start k' nodes (scanned ++ [n]) todo := by
  obtain ⟨here, pcb, state⟩ := w.current
  obtain ⟨before, cursor, after, circle, at_cursor, view, list⟩ := w.circle
  obtain ⟨rfl, around⟩ : cursor = n ∧ after ++ before = todo ++ start.kept scanned :=
    List.cons.inj view
  have two : after ++ before ≠ [] := by
    rw [around]
    exact List.append_ne_nil_of_left_ne_nil more _
  have quiet : k.stateOf k.currentPCB ≠ .ready := by
    rw [state]
    simpa [readyAt] using asleep
  have quiets : ∀ m ∈ scanned ++ [cursor], start.readyAt m = false := fun m mem => by
    rcases List.mem_append.mp mem with earlier | here
    · exact w.quiet m earlier
    · exact List.mem_singleton.mp here ▸ asleep
  by_cases exited : start.exitedAt cursor = true
  · -- The node is taken out.
    have dead : k.stateOf k.currentPCB = .exited := by
      rw [state]
      simpa [exitedAt] using exited
    obtain ⟨before', cursor', after', circle', here', nodes', view'⟩ :=
      circle.freeCurrentProcess at_cursor two
    obtain ⟨pcbs, pcbOf⟩ := freeCurrentProcess_pcbs k
    have e := circle.freeCurrentProcess_eq at_cursor two
    refine ⟨k.freeCurrentProcess, ?_, ⟨before', cursor', after', circle', here', ?_, ?_⟩,
      pcbs.trans w.pcbs, pcbOf.trans w.pcbOf, ?_, ?_, fun p => ?_, quiets⟩
    · rw [selectRound, if_neg quiet, if_neg (here ▸ other), if_pos dead]
    · rw [view', around, kept_concat, if_pos exited, List.append_nil]
    · have others : (before ++ cursor :: after).filter (fun m => decide (m ≠ cursor)) =
          before ++ after := by
        have once := circle.cursor_once
        rw [List.mem_append, not_or] at once
        rw [List.filter_append, List.filter_cons_of_neg (by simp),
          List.filter_eq_self.mpr fun m hm => ?_, List.filter_eq_self.mpr fun m hm => ?_]
        · exact decide_eq_true fun e => once.2 (e ▸ hm)
        · exact decide_eq_true fun e => once.1 (e ▸ hm)
      rw [nodes', ← others, list, List.filter_filter]
      refine List.filter_congr fun m _ => ?_
      by_cases same : m = cursor
      · subst same
        simp [exited]
      · simp [same]
    · rw [e]
      exact w.idleNode
    · rw [e]
      exact w.quantumsLeft
    · have freed : (unlinked k (k.next cursor)).allocated p =
          if p = start.pcbOf cursor then false else k.allocated p := by
        rw [← pcb]
        exact Function.update_apply _ _ _ _
      rw [e, reaped_concat, if_pos exited, freed]
      split_ifs with same
      · simp [same]
      · rw [w.allocated]
        simp [same]
  · have alive : k.stateOf k.currentPCB ≠ .exited := by
      rw [state]
      simpa [exitedAt] using exited
    obtain ⟨before', cursor', after', circle', next, nodes', view'⟩ := circle.advance
    have e := circle.nextPCB_eq at_cursor
    rw [← e] at circle'
    obtain ⟨pcbs, pcbOf, allocated⟩ := nextPCB_same k
    refine ⟨k.nextPCB, ?_, ⟨before', cursor', after', circle', ?_, ?_, ?_⟩,
      pcbs.trans w.pcbs, pcbOf.trans w.pcbOf, ?_, ?_, fun p => ?_, quiets⟩
    · rw [selectRound, if_neg quiet, if_neg (here ▸ other), if_neg alive]
    · rw [e]
      exact next
    · rw [view', around, kept_concat, if_neg exited, List.append_assoc]
    · rw [nodes', list]
      refine List.filter_congr fun m _ => ?_
      by_cases same : m = cursor
      · subst same
        simp [exited]
      · simp [same]
    · rw [e]
      exact w.idleNode
    · rw [e]
      exact w.quantumsLeft
    · rw [allocated, w.allocated, reaped_concat, if_neg exited, List.append_nil]

/-- One round of a search through `order`, which ends with the node it began at. -/
theorem Walk.round {order : List Nat} {m : Nat}
    (last : ∀ scanned n todo, order = scanned ++ n :: todo → (n = ogCurrent ↔ todo = []))
    (h : ∃ scanned n todo, order = scanned ++ n :: todo ∧ todo.length = m ∧
      Walk start k nodes scanned (n :: todo)) :
    (∃ r, selectRound ogCurrent k = .ok (.leave r) ∧ Elects start nodes order r) ∨
      ∃ m' k', m' < m ∧ selectRound ogCurrent k = .ok (.again k') ∧
        ∃ scanned n todo, order = scanned ++ n :: todo ∧ todo.length = m' ∧
          Walk start k' nodes scanned (n :: todo) := by
  obtain ⟨scanned, n, todo, rfl, rfl, w⟩ := h
  cases ready : start.readyAt n with
  | true => exact Or.inl (w.elects ready)
  | false =>
      cases todo with
      | nil =>
          obtain rfl := (last scanned n [] rfl).mpr rfl
          exact Or.inl (w.idles ready)
      | cons x todo =>
          have other : n ≠ ogCurrent := fun e => List.cons_ne_nil _ _ ((last _ _ _ rfl).mp e)
          obtain ⟨k', round, w'⟩ := w.again ready other (List.cons_ne_nil _ _)
          exact Or.inr ⟨todo.length, k', Nat.lt_succ_self _, round, scanned ++ [n], x,
            todo, by simp, rfl, w'⟩

end Walk

/-! ### The whole of schedule -/

section Schedule

variable {k : Kernel} {before after : List Nat} {cursor : Nat}

/-- The search from an interrupted process. -/
theorem search_elects (r : RingList k before cursor after) (here : k.pcbList.current = cursor) :
    ∃ n out, (∀ fuel, n < fuel → loop (selectRound cursor) fuel k.nextPCB = .ok out) ∧
      Elects k (before ++ cursor :: after) (after ++ before ++ [cursor]) out := by
  obtain ⟨before', cursor', after', circle, next, nodes, view⟩ := r.advance
  have e := r.nextPCB_eq here
  rw [← e] at circle
  obtain ⟨pcbs, pcbOf, allocated⟩ := nextPCB_same k
  have nodup : (after ++ before ++ [cursor]).Nodup :=
    (List.perm_append_singleton _ _).nodup_iff.mpr r.view_nodup
  obtain ⟨n, todo, order⟩ : ∃ n todo, after ++ before ++ [cursor] = n :: todo :=
    List.exists_cons_of_ne_nil (by simp)
  have start : Walk k k.nextPCB (before ++ cursor :: after) [] (n :: todo) := by
    refine ⟨⟨before', cursor', after', circle, ?_, ?_, ?_⟩, pcbs, pcbOf, ?_, ?_, fun p => ?_,
      fun m mem => by cases mem⟩
    · rw [e]
      exact next
    · rw [view, order]
      simp [kept]
    · rw [nodes]
      simp
    · rw [e]
    · rw [e]
    · rw [allocated]
      simp [reaped]
  have walks (fuel : Nat) (enough : todo.length < fuel) := loop_total
    (fun m k' => ∃ scanned n todo, after ++ before ++ [cursor] = scanned ++ n :: todo ∧
      todo.length = m ∧ Walk k k' (before ++ cursor :: after) scanned (n :: todo))
    (Elects k (before ++ cursor :: after) (after ++ before ++ [cursor]))
    (fun _ _ => Walk.round fun _ _ _ => nodup_last nodup) ⟨[], n, todo, order, rfl, start⟩ enough
  obtain ⟨out, run, elects⟩ := walks (todo.length + 1) (Nat.lt_succ_self _)
  exact ⟨todo.length, out, fun fuel enough => loop_mono enough run, elects⟩

theorem Elects.of_pcbList {nodes order : List Nat} {out : Kernel × Nat} {list : PCBList}
    (e : Elects { k with pcbList := list } nodes order out) : Elects k nodes order out := { e with }

/-- The selection, after the interrupted process has lost the processor. -/
theorem select_elects (start : Interrupted k before cursor after) :
    ∃ n out, (∀ fuel, n < fuel → k.select fuel = .ok out) ∧
      Elects (preempted k) (before ++ cursor :: after) (after ++ before ++ [cursor]) out := by
  have same : (preempted k).next = k.next ∧ (preempted k).pcbList = k.pcbList ∧
      (preempted k).idleProcPCBNode = k.idleProcPCBNode := by
    unfold preempted
    split_ifs <;> exact ⟨rfl, rfl, rfl⟩
  obtain ⟨next, list, idleNode⟩ := same
  have ring : RingList (preempted k) before cursor after :=
    start.toRingList.congr next (by rw [list]) (by rw [list]) idleNode
  by_cases asleep : (preempted k).idle
  · have at_idle : k.idle := by
      unfold Kernel.idle at asleep ⊢
      rwa [list, idleNode] at asleep
    have behind : (preempted k).next (preempted k).pcbList.prev = cursor := by
      rw [next, list]
      refine (start.here.resolve_left fun here => ?_).2
      exact start.idleOutside (at_idle ▸ here ▸ start.cursor_mem)
    have e := ring.nextPCB_idle asleep behind
    have ring' : RingList (preempted k).nextPCB before cursor after := by
      rw [e]
      exact ring.congr rfl rfl rfl rfl
    obtain ⟨n, out, run, elects⟩ := search_elects ring' (by rw [e])
    refine ⟨n, out, fun fuel enough => ?_, ?_⟩
    · have here : (preempted k).nextPCB.pcbList.current = cursor := by rw [e]
      rw [select_eq, if_pos asleep]
      change loop (selectRound (preempted k).nextPCB.pcbList.current) fuel
        (preempted k).nextPCB.nextPCB = _
      rw [here]
      exact run fuel enough
    · rw [e] at elects
      exact elects.of_pcbList
  · have here : (preempted k).pcbList.current = cursor := by
      rw [list]
      refine start.here.resolve_right fun idle => asleep ?_
      have at_idle : k.pcbList.current = k.idleProcPCBNode := idle.1
      unfold Kernel.idle
      rw [list, idleNode, at_idle]
    obtain ⟨n, out, run, elects⟩ := search_elects ring here
    refine ⟨n, out, fun fuel enough => ?_, elects⟩
    rw [select_eq, if_neg asleep]
    change loop (selectRound (preempted k).pcbList.current) fuel (preempted k).nextPCB = _
    rw [here]
    exact run fuel enough

end Schedule

/-- `schedule` ends. A running process with quantums left goes on as it was; otherwise, when
a process that runs has become READY, the first READY process in the order of the list is
elected, from the one after the interrupted process (`prev->next` when the idle process
was running) to that process itself, or the idle process when there is none. The EXITED
processes passed before it, and no others, are out of the list. -/
theorem schedule_elects {k : Kernel} {before after : List Nat} {cursor : Nat}
    (start : Interrupted k before cursor after) (rsp : Nat) :
    ∃ n r, (∀ fuel, n < fuel → k.schedule fuel rsp = .ok r) ∧
      (0 < k.quantumsLeft ∧ k.stateOf k.currentPCB = .running →
        r = ({ k.saveRsp rsp with quantumsLeft := k.quantumsLeft - 1 }, rsp)) ∧
      (¬ (0 < k.quantumsLeft ∧ k.stateOf k.currentPCB = .running) →
        Elects (preempted (k.saveRsp rsp)) (before ++ cursor :: after)
          (after ++ before ++ [cursor]) r) := by
  have here : (k.saveRsp rsp).currentPCB = k.currentPCB := rfl
  by_cases quantum : 0 < k.quantumsLeft ∧ k.stateOf k.currentPCB = .running
  · refine ⟨0, _, fun fuel _ => ?_, fun _ => rfl, fun spent => absurd quantum spent⟩
    unfold schedule
    exact if_pos (by rw [saveRsp_stateOf, here]; exact quantum)
  · have ring : RingList (k.saveRsp rsp) before cursor after :=
      start.toRingList.congr rfl rfl rfl rfl
    obtain ⟨n, out, run, elects⟩ := select_elects { ring with here := start.here }
    refine ⟨n, out, fun fuel enough => ?_, fun left => absurd left quantum, fun _ => elects⟩
    unfold schedule
    rw [if_neg (by rw [saveRsp_stateOf, here]; exact quantum)]
    exact run fuel enough

/-- `init` and three processes it created, the first of which is killed. -/
def crowd : Kernel :=
  Except.toOption (do
    let out ← (boot 0 0 0).createProcess ⟨true, true, true, true, true⟩ 0 0
    let out ← out.1.createProcess ⟨true, true, true, true, true⟩ 0 0
    let out ← out.1.createProcess ⟨true, true, true, true, true⟩ 0 0
    let out ← out.1.kill 4 1
    return out.1) |>.getD (boot 0 0 0)

/-- When `init` is interrupted, the killed process is passed and freed, and the one behind
it is elected. -/
theorem schedule_elects_crowd : ∃ fuel r, crowd.schedule fuel 7 = .ok r ∧
    r.1.pcbList.current = 7 ∧ r.1.stateOf 8 = .running ∧ r.1.allocated 6 = false := by
  have list : Interrupted crowd [] 3 [5, 7, 9] :=
    { cycle := ⟨rfl, by decide +kernel, by decide +kernel, by decide +kernel,
        (by decide +kernel : crowd.next 9 = 3)⟩
      head := by decide +kernel
      tail := by decide +kernel
      nodup := by decide
      nonNull := by decide
      idleOutside := by decide +kernel
      idleNonNull := by decide +kernel
      here := Or.inl (by decide +kernel) }
  obtain ⟨n, r, run, -, elects⟩ := schedule_elects list 7
  have found := elects (by decide +kernel)
  obtain ⟨here, states, -⟩ := found.picks 7 (by decide +kernel)
  have runs : r.1.stateOf 8 = .running := by
    rw [states]
    decide +kernel
  have freed : ¬ r.1.allocated 6 = true := fun held =>
    ((found.freed 6).mp held).2 (by decide +kernel)
  exact ⟨n + 1, r, run _ (Nat.lt_succ_self n), here, runs, Bool.eq_false_of_not_eq_true freed⟩

end SoTp.Process
