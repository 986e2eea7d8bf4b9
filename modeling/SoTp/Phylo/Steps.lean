/-
Every step keeps the invariant: those of the philosophers, and those of the controlling
process, most of which it takes alone.

* `Inv.phyloStep`, `Inv.controlStep` — the steps; `Inv.perform` — every step.
* `Run.inv` — every run.
-/

import SoTp.Phylo.Alone

namespace SoTp.Phylo

section Steps

variable {t t' : Table} {i : Nat} {s s' : Statement}

/-! ### Philosophers -/

/-- A philosopher goes on within its meal, and sets its state. -/
theorem Inv.goto (inv : Inv t) (there : t.process i = some ⟨s, false⟩) (inside : s.inside = true)
    (inside' : s'.inside = true) (held : s'.held t.phylosOnTable i = s.held t.phylosOnTable i)
    {st : PhyloState} (eats : st = .eating → s'.eats = true) :
      Inv ((t.setState i st).goto i s') := by
  have process : ((t.setState i st).goto i s').process =
    Function.update t.process i (some ⟨s', false⟩) := rfl
  have others : ∀ j p, Function.update t.process i (some ⟨s', false⟩) j = some p →
      (j = i ∧ p = ⟨s', false⟩) ∨ (j ≠ i ∧ t.process j = some p) := by
    intro j p at_j
    by_cases same : j = i
    · rw [same, Function.update_self] at at_j
      exact Or.inl ⟨same, (Option.some.inj at_j).symm⟩
    · rw [Function.update_of_ne same] at at_j
      exact Or.inr ⟨same, at_j⟩
  have absent : ∀ f, t.process f = none → ((t.setState i st).goto i s').process f = none := by
    intro f absent
    rw [process]
    by_cases same : f = i
    · subst same
      cases there.symm.trans absent
    · rw [Function.update_of_ne same, absent]
  have tokens : ((t.setState i st).goto i s').tokens = t.tokens := by
    have holders := Table.holders_setProcess (t := t) (inv.seat_lt there) (some ⟨s', false⟩)
    unfold Table.tokens
    show t.change.value + (t.setProcess i (some ⟨s', false⟩)).holders = _
    simp only [there, Table.tokenOf, inside, inside', if_true] at holders
    omega
  refine ⟨fun id => ⟨(inv.queues id).1, fun pid => ((inv.queues id).2 pid).trans ?_⟩, ?_,
    fun j p at_j => ?_,
    fun j lt eating => ?_, ?_, inv.waits, inv.change, inv.printMutex, fun busy one => ?_⟩
  · cases pid with
    | controller => exact Iff.rfl
    | phylo j =>
        by_cases same : j = i
        · subst same
          simp [Table.Waits, there, Table.goto, Table.setProcess, Table.setState]
        · simp [Table.Waits, Table.goto, Table.setProcess, Table.setState,
            Function.update_of_ne same]
  · refine inv.forks.congr (fun j f _ => ?_) (fun _ _ => rfl) (fun _ _ => rfl) fun f _ none => ?_
    · by_cases same : j = i
      · subst same
        simp [Table.Holds, there, held, Table.goto, Table.setProcess, Table.setState]
      · simp [Table.Holds, Table.goto, Table.setProcess, Table.setState, Function.update_of_ne same]
    · exact absent f none
  · rcases others j p at_j with ⟨rfl, -⟩ | ⟨-, at_j⟩
    · exact inv.seated j _ there
    · exact inv.seated j p at_j
  · rw [process]
    by_cases same : j = i
    · subst same
      have eating : Function.update t.state j st j = .eating := eating
      rw [Function.update_self] at eating
      exact ⟨_, Function.update_self .., eats eating⟩
    · have eating : Function.update t.state i st j = .eating := eating
      rw [Function.update_of_ne same] at eating
      obtain ⟨p, at_j, eats⟩ := inv.eating j lt eating
      exact ⟨p, by rw [Function.update_of_ne same, at_j], eats⟩
  · show t.controller.control.Budget t.phylosOnTable ((t.setState i st).goto i s').tokens
    rw [tokens]
    exact inv.budget
  · rw [tokens] at busy
    exact absent 0 (inv.lone busy one)

/-- A philosopher goes on within its meal, and leaves its state as it is. -/
theorem Inv.goto_same (inv : Inv t) (there : t.process i = some ⟨s, false⟩)
    (inside : s.inside = true)
    (inside' : s'.inside = true) (held : s'.held t.phylosOnTable i = s.held t.phylosOnTable i)
    (eats : s.eats = true → s'.eats = true) : Inv (t.goto i s') := by
  have same : t.setState i (t.state i) = t := by simp [Table.setState]
  rw [← same]
  refine inv.goto there inside inside' held fun eating => eats ?_
  obtain ⟨-, seat, -, shown⟩ := inv.busy there inside
  obtain ⟨p, at_i, eats⟩ := inv.eating i (by rw [shown]; exact seat) eating
  cases there.symm.trans at_i
  exact eats

theorem Table.resume_eq_goto (there : t.process i = some ⟨s, false⟩) :
    t.resume (.phylo i) = t.goto i s.next := by
  rw [Table.resume, Table.goto, there]
  rfl

/-- A philosopher goes on to the next statement, and sets its state. -/
theorem Inv.show_ (inv : Inv t) (there : t.process i = some ⟨s, false⟩) (inside : s.inside = true)
    (inside' : s.next.inside = true)
    (held : s.next.held t.phylosOnTable i = s.held t.phylosOnTable i)
    {st : PhyloState} (eats : st = .eating → s.next.eats = true) :
      Inv ((t.setState i st).resume (.phylo i)) := by
  have there' : (t.setState i st).process i = some ⟨s, false⟩ := there
  rw [Table.resume_eq_goto there']
  exact inv.goto there inside inside' held eats

theorem Inv.phyloStep (inv : Inv t) (there : t.process i = some ⟨s, false⟩) :
    Inv (t.phyloStep i s) := by
  cases s with
  | waitChange | takeFirst | takeSecond | waitPrint => exact inv.phylo_wait there rfl
  | postPrint | leaveOwn | leaveRight | postChange => exact inv.phylo_post there rfl
  | think | hungry | nothing => exact inv.show_ there rfl rfl rfl (fun eating => by cases eating)
  | eat => exact inv.show_ there rfl rfl rfl fun _ => rfl
  | thinkSleep | eatSleep =>
      show Inv (t.resume (.phylo i))
      rw [Table.resume_eq_goto there]
      exact inv.goto_same there rfl rfl rfl id
  | print k =>
      show Inv (if k < t.phylosOnTable then t.goto i (.print (k + 1)) else t.resume (.phylo i))
      split_ifs
      · exact inv.goto_same there rfl rfl rfl id
      · rw [Table.resume_eq_goto there]
        exact inv.goto_same there rfl rfl rfl id

/-! ### The controlling process -/

/-- A key leads to commands with the positions they need. -/
theorem pressed_budget (key : Table.Key) (two : PHYLO_MIN_AMOUNT ≤ t.phylosOnTable)
    (max : t.phylosOnTable ≤ PHYLO_MAX_AMOUNT) :
    (t.pressed key).Budget t.phylosOnTable t.phylosOnTable := by
  have getKey : Control.Budget t.phylosOnTable t.phylosOnTable .getKey := ⟨rfl, two, max⟩
  cases key with
  | a =>
      show Control.Budget _ _ (if _ then _ else _)
      split_ifs with refused
      · exact getKey
      · exact ⟨rfl, ⟨two, max⟩, rfl, by omega⟩
  | r =>
      show Control.Budget _ _ (if _ then _ else _)
      split_ifs with refused
      · exact getKey
      · refine ⟨rfl, ⟨two, max⟩, ?_, ?_⟩ <;> simp only [PHYLO_MIN_AMOUNT] at two refused ⊢ <;> omega
  | e => exact ⟨rfl, ⟨two, max⟩, trivial⟩
  | other => exact getKey
  | eof => exact max

theorem pressed_same (key : Table.Key) (n : Nat) :
    (t.pressed key).laid n = n ∧ (t.pressed key).seats n = n ∧ (t.pressed key).shown n = n := by
  cases key with
  | a | r =>
      simp only [Table.pressed]
      split_ifs <;> exact ⟨rfl, rfl, rfl⟩
  | e | other | eof => exact ⟨rfl, rfl, rfl⟩

theorem Inv.budget_at {c : Control} (inv : Inv t) (at_ : t.controller.control = c) :
    c.Budget t.phylosOnTable t.tokens := at_ ▸ inv.budget

/-- The controlling process has all tokens and makes the first philosophers. -/
theorem Inv.initiate (inv : Inv t) (going : t.controller.blocked = false) {i : Nat}
    (at_ : t.controller.control = .initFork i) (key : Table.Key) (made : Bool) :
    Inv (t.controlStep key made (.initFork i)) := by
  obtain ⟨tokens, seats, le⟩ := inv.budget_at at_
  show Inv (if i < PHYLO_AMOUNT then if made then _ else _ else _)
  split_ifs with more
  · have alone := inv.alone going at_ rfl tokens
    subst seats
    exact (alone.sysSemInit (.initProcess t.phylosOnTable) (by simp) rfl rfl rfl
      ⟨rfl, rfl, more⟩).inv fun frees => by cases frees
  · refine inv.goes_same going at_ rfl (by simp [Control.ends]) rfl rfl (by simp) ?_
      (by simp [Control.frees, tokens])
    simp only [Control.Budget, PHYLO_AMOUNT, PHYLO_MAX_AMOUNT] at le ⊢
    omega
  · have five : t.phylosOnTable = 5 := by
      simp only [PHYLO_AMOUNT] at le more
      omega
    refine inv.goes_same going at_ rfl (fun h => h) rfl rfl (by simp) ⟨tokens, Nat.zero_le _,
      Or.inr ?_, ?_⟩ fun _ one => by omega
    · simp only [PHYLO_MIN_AMOUNT]
      omega
    · simp only [PHYLO_MAX_AMOUNT]
      omega

/-- It has all tokens and removes the last philosopher. -/
theorem Inv.remove (inv : Inv t) (going : t.controller.blocked = false) {pos : Nat}
    (at_ : t.controller.control = .remKill pos) (key : Table.Key) (made : Bool) :
    Inv (t.controlStep key made (.remKill pos)) := by
  obtain ⟨tokens, seats, two, max⟩ := inv.budget_at at_
  have alone := inv.alone going at_ rfl tokens
  have last : Control.seats t.phylosOnTable (.remFork pos) = pos := by
    simp only [Control.seats]
    omega
  rcases alone.sysKill (.remFork pos) (by simp) seats.symm rfl last rfl ⟨rfl, seats, two, max⟩ with
    ⟨kept, -⟩ | ⟨t', killed, alone'⟩
  · simp only [Table.controlStep, kept, Bool.false_eq_true, if_false]
    refine inv.goes_same going at_ rfl (by simp [Control.ends]) rfl rfl (by simp)
      ⟨tokens, Nat.zero_le _, Or.inl rfl, max⟩ fun _ one => ?_
    simp only [PHYLO_MIN_AMOUNT] at two
    omega
  · simp only [Table.controlStep, killed, if_true]
    exact alone'.inv fun frees => by cases frees

/-- It has all tokens, and destroys the fork of the last philosopher, or finds that there is
none. -/
theorem Inv.endFork (inv : Inv t) (going : t.controller.blocked = false)
    (at_ : t.controller.control = .endFork) (key : Table.Key) (made : Bool) :
    Inv (t.controlStep key made .endFork) := by
  obtain ⟨tokens, max⟩ := inv.budget_at at_
  by_cases more : t.phylosOnTable > 0
  · have alone := inv.alone going at_ rfl tokens
    have last : Control.laid t.phylosOnTable .endFork = t.phylosOnTable - 1 + 1 := by
      simp only [Control.laid]
      omega
    obtain ⟨t', destroyed, -, alone'⟩ :=
      alone.destroyFork .endKill (by simp) last rfl rfl rfl ⟨rfl, more, max⟩
    simp only [Table.controlStep, more, destroyed, if_true]
    exact alone'.inv fun frees => by cases frees
  · simp only [Table.controlStep, more, if_false]
    exact inv.goes_same going at_ rfl (fun h => h) rfl rfl (by simp)
      ⟨tokens, by omega⟩ fun _ one => by omega

/-- It has destroyed the fork of the last philosopher. Where that one was never created it
gives up, with the fork lost. -/
theorem Inv.endKill (inv : Inv t) (going : t.controller.blocked = false)
    (at_ : t.controller.control = .endKill) (key : Table.Key) (made : Bool) :
    Inv (t.controlStep key made .endKill) := by
  obtain ⟨tokens, pos, max⟩ := inv.budget_at at_
  have alone := inv.alone going at_ rfl tokens
  have last : Control.seats t.phylosOnTable .endKill = t.phylosOnTable - 1 + 1 := by
    simp only [Control.seats]
    omega
  rcases alone.sysKill .endTable (by simp) last rfl rfl rfl ⟨rfl, pos, max⟩ with
    ⟨kept, absent⟩ | ⟨t', killed, alone'⟩
  · simp only [Table.controlStep, kept, Bool.false_eq_true, if_false]
    refine inv.goes going (fun f lt => ?_) ?_ ?_ ⟨tokens, Nat.zero_le _, Or.inl rfl, max⟩
      (fun _ one => ?_) (alone.alive (by simp))
    · by_cases lost : f = t.phylosOnTable - 1
      · exact Or.inr ⟨rfl, lost ▸ absent⟩
      · have lt : f < t.phylosOnTable := lt
        have laid : f < t.controller.control.laid t.phylosOnTable := by
          rw [at_]
          show f < t.phylosOnTable - 1
          omega
        exact Or.inl ((inv.forks f laid).resolve_right (by simp [at_, Control.ends]))
    · rw [at_]
      exact le_rfl
    · rw [at_]
      exact le_rfl
    · rw [one] at absent
      exact absent
  · simp only [Table.controlStep, killed, if_true]
    exact alone'.inv fun frees => by cases frees

/-- The table is empty, and the two mutexes are destroyed. -/
theorem Inv.endMutexes (inv : Inv t) (going : t.controller.blocked = false) {c : Control}
    (at_ : t.controller.control = c) (last : c = .endChange ∨ c = .endPrint) (key : Table.Key)
    (made : Bool) :
    Inv (t.controlStep key made c) := by
  rcases last with rfl | rfl
  · obtain ⟨tokens, zero⟩ := inv.budget_at at_
    have alone := inv.alone going at_ rfl tokens
    have alive := alone.alive (by simp)
    obtain ⟨t', destroyed, alone'⟩ := alone.destroyMutex .endPrint .change zero rfl ⟨rfl, rfl, rfl⟩
      (Or.inl rfl) alive.1 ⟨rfl, rfl⟩ (fun _ => Or.inl rfl) (by simp [alive])
    simp only [Table.controlStep, destroyed, if_true]
    exact alone'.inv fun frees => by cases frees
  · obtain ⟨tokens, zero⟩ := inv.budget_at at_
    have alone := inv.alone going at_ rfl tokens
    have there : t.printMutex.destroyed = false := by
      by_contra destroyed
      cases (alone.printMutex (Bool.not_eq_false _ ▸ destroyed)).2
    obtain ⟨t', destroyed, alone'⟩ := alone.destroyMutex .exited .print zero rfl ⟨rfl, rfl, rfl⟩
      (Or.inr rfl) there (Nat.zero_le _) (fun _ => Or.inr rfl) (fun _ => rfl)
    simp only [Table.controlStep, destroyed]
    exact alone'.inv fun frees => by cases frees

theorem Inv.controlStep (inv : Inv t) (going : t.controller.blocked = false) (key : Table.Key)
    (made : Bool) : Inv (t.controlStep key made t.controller.control) := by
  cases at_ : t.controller.control with
  | blockAllToInitiate i =>
      obtain ⟨tokens, zero⟩ := inv.budget_at at_
      show Inv (if i < PHYLO_AMOUNT then _ else _)
      split_ifs with more
      · exact inv.controller_wait (by rw [at_]; rfl) going
      · exact inv.goes_same going at_ rfl (fun h => h) rfl rfl (by simp) ⟨by omega, zero,
          Nat.zero_le _⟩ fun _ one => by omega
  | initFork i => exact inv.initiate going at_ key made
  | initProcess i =>
      obtain ⟨tokens, seats, lt⟩ := inv.budget_at at_
      have alone := inv.alone going at_ rfl tokens
      subst seats
      exact (alone.sysCreateProcess (.initState t.phylosOnTable) (by simp) made rfl rfl rfl
        ⟨rfl, rfl, lt⟩).inv fun frees => by cases frees
  | initState i =>
      obtain ⟨tokens, seats, lt⟩ := inv.budget_at at_
      have alone := inv.alone going at_ rfl tokens
      subst seats
      exact (alone.setState (.initTable t.phylosOnTable) (by simp) .thinking (by simp) rfl rfl rfl
        ⟨rfl, rfl, lt⟩).inv fun frees => by cases frees
  | initTable i =>
      obtain ⟨tokens, seats, lt⟩ := inv.budget_at at_
      have alone := inv.alone going at_ rfl tokens
      have alive := alone.alive (by simp)
      exact (alone.settle (.initFork (i + 1)) (t.phylosOnTable + 1) le_rfl le_rfl le_rfl
        ⟨rfl, by omega, lt⟩ (by simp [alive]) (by simp [alive])).inv fun frees => by cases frees
  | getKey =>
      obtain ⟨tokens, two, max⟩ := inv.budget_at at_
      obtain ⟨laid, seats, shown⟩ := pressed_same (t := t) key t.phylosOnTable
      refine inv.goes_same going at_ laid (by simp [Control.ends]) seats shown
        (by simp) ?_ fun _ one => ?_
      · rw [tokens]
        exact pressed_budget key two max
      · simp only [PHYLO_MIN_AMOUNT] at two
        omega
  | blockAll command i =>
      obtain ⟨tokens, ⟨two, max⟩, position⟩ := inv.budget_at at_
      show Inv (if i < t.phylosOnTable then _ else _)
      split_ifs with more
      · exact inv.controller_wait (by rw [at_]; rfl) going
      · have none : t.tokens = 0 := by omega
        have pair : t.phylosOnTable ≠ 1 := by
          simp only [PHYLO_MIN_AMOUNT] at two
          omega
        cases command with
        | addPhylo pos =>
            exact inv.goes_same going at_ rfl (fun h => h) rfl rfl (by simp) ⟨none, position.1,
              two, position.2⟩ fun _ one => absurd one pair
        | remPhylo pos =>
            exact inv.goes_same going at_ rfl (fun h => h) rfl rfl (by simp) ⟨none, position.1,
              position.2, max⟩ fun _ one => absurd one pair
        | endPhylos =>
            exact inv.goes_same going at_ rfl (fun h => h) rfl rfl (by simp) ⟨none, max⟩
              fun _ one => absurd one pair
  | addFork pos =>
      obtain ⟨tokens, seats, two, lt⟩ := inv.budget_at at_
      show Inv (if made then _ else _)
      split_ifs
      · have alone := inv.alone going at_ rfl tokens
        subst seats
        exact (alone.sysSemInit (.addState t.phylosOnTable) (by simp) rfl rfl rfl
          ⟨rfl, rfl, two, lt⟩).inv fun frees => by cases frees
      · refine inv.goes_same going at_ rfl (by simp [Control.ends]) rfl rfl (by simp)
          ⟨tokens, Nat.zero_le _, Or.inl rfl, lt.le⟩ fun _ one => ?_
        simp only [PHYLO_MIN_AMOUNT] at two
        omega
  | addState pos =>
      obtain ⟨tokens, seats, two, lt⟩ := inv.budget_at at_
      have alone := inv.alone going at_ rfl tokens
      subst seats
      exact (alone.setState (.addProcess t.phylosOnTable) (by simp) .thinking (by simp) rfl rfl rfl
        ⟨rfl, rfl, two, lt⟩).inv fun frees => by cases frees
  | addProcess pos =>
      obtain ⟨tokens, seats, two, lt⟩ := inv.budget_at at_
      have alone := inv.alone going at_ rfl tokens
      subst seats
      exact (alone.sysCreateProcess (.addTable t.phylosOnTable) (by simp) made rfl rfl rfl
        ⟨rfl, rfl, two, lt⟩).inv fun frees => by cases frees
  | addTable pos =>
      obtain ⟨tokens, seats, two, lt⟩ := inv.budget_at at_
      have alone := inv.alone going at_ rfl tokens
      have alive := alone.alive (by simp)
      exact (alone.settle (.freeAll 0 false) (t.phylosOnTable + 1) le_rfl le_rfl le_rfl
        ⟨rfl, Nat.zero_le _, Or.inr (by omega), lt⟩ (by simp [alive])
          (by simp [alive])).inv fun _ => rfl
  | remKill pos => exact inv.remove going at_ key made
  | remFork pos =>
      obtain ⟨tokens, seats, two, max⟩ := inv.budget_at at_
      have alone := inv.alone going at_ rfl tokens
      have last : Control.laid t.phylosOnTable (.remTable pos) = pos := by
        simp only [Control.laid]
        omega
      obtain ⟨t', destroyed, -, alone'⟩ := alone.destroyFork (.remTable pos)
        (by simp) seats.symm last rfl rfl ⟨rfl, seats, two, max⟩
      simp only [Table.controlStep, destroyed, if_true]
      exact alone'.inv fun frees => by cases frees
  | remTable pos =>
      obtain ⟨tokens, seats, two, max⟩ := inv.budget_at at_
      have alone := inv.alone going at_ rfl tokens
      have alive := alone.alive (by simp)
      have last : t.phylosOnTable - 1 = pos := by omega
      refine (alone.settle (.freeAll 0 false) pos last.ge last.le ?_ ⟨rfl, Nat.zero_le _,
        Or.inr two, by omega⟩ (by simp [alive]) (by simp [alive])).inv fun _ => rfl
      show pos ≤ t.phylosOnTable
      omega
  | endFork => exact inv.endFork going at_ key made
  | endKill => exact inv.endKill going at_ key made
  | endTable =>
      obtain ⟨tokens, pos, max⟩ := inv.budget_at at_
      have alone := inv.alone going at_ rfl tokens
      have alive := alone.alive (by simp)
      exact (alone.settle .endFork (t.phylosOnTable - 1) le_rfl le_rfl (Nat.sub_le _ _)
        ⟨rfl, by omega⟩ (by simp [alive]) (by simp [alive])).inv fun frees => by cases frees
  | endChange => exact inv.endMutexes going at_ (Or.inl rfl) key made
  | endPrint => exact inv.endMutexes going at_ (Or.inr rfl) key made
  | freeAll i exits =>
      obtain ⟨tokens, le, two, max⟩ := inv.budget_at at_
      have lone := inv.lone (Or.inl (by rw [at_]; rfl))
      show Inv (if i < t.phylosOnTable then _ else if exits then _ else _)
      split_ifs with more ends
      · exact inv.controller_post at_ more going
      · exact inv.goes_same going at_ rfl (fun _ => rfl) rfl rfl (by simp) max fun _ => lone
      · refine inv.goes_same going at_ rfl (fun exits => absurd exits ends) rfl rfl
          (by simp) ?_ fun _ => lone
        exact ⟨by omega, two.resolve_left ends, max⟩
  | exited => exact inv

end Steps

/-! ### Runs -/

theorem initial_inv (state : Nat → PhyloState) (fork : Nat → Semaphore) :
    Inv (initial state fork) := by
  have holders : (initial state fork).holders = 0 := Table.holders_zero fun i p there => by
    cases there
  refine ⟨fun id => ?_, fun f lt => ?_, fun i p there => ?_, fun i lt => ?_, ?_, fun blocked => ?_,
    fun gone => ?_, fun gone => ?_, fun _ one => ?_⟩
  · have empty : ((initial state fork).sem id).queue = [] := by cases id <;> rfl
    rw [empty]
    refine ⟨List.nodup_nil, fun pid => ?_⟩
    cases pid with
    | controller => simp [Table.Waits, initial]
    | phylo i => simp [Table.Waits, initial]
  · cases lt
  · cases there
  · cases lt
  · refine ⟨?_, rfl⟩
    unfold Table.tokens
    rw [holders]
    rfl
  · cases blocked
  · cases gone
  · cases gone
  · cases one

theorem Inv.perform {t t' : Table} (inv : Inv t) (act : Act) (perform : act.perform t = some t') :
    Inv t' := by
  cases act with
  | phylo i =>
      rcases there : t.process i with _ | ⟨s, b⟩
      · simp [Act.perform, there] at perform
      · cases b with
        | false =>
            simp only [Act.perform, there, Option.some.injEq] at perform
            exact perform ▸ inv.phyloStep there
        | true => simp [Act.perform, there] at perform
  | controller key made =>
      cases going : t.controller.blocked with
      | true => simp [Act.perform, going] at perform
      | false =>
          simp only [Act.perform, going, Bool.false_eq_true, if_false, Option.some.injEq] at perform
          exact perform ▸ inv.controlStep going key made

theorem Run.inv {Ok : Table → Act → Prop} {t : Table} (run : Run Ok t) : Inv t := by
  induction run with
  | initial state fork => exact initial_inv state fork
  | step _ act _ perform ih => exact ih.perform act perform

end SoTp.Phylo
