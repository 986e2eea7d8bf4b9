/-
The philosophers in every run.

* `philosophers_never_deadlock` — no philosophers wait for each other in a cycle, and the
  number of places does not change while one of them is inside.
* `philosophers_exclude` — no neighbours are EATING as long as no philosopher starts to eat
  while a neighbour is in the middle of `leaveForks`.
-/

import SoTp.Phylo.Steps
import Mathlib.Logic.Relation

namespace SoTp.Phylo

/-! ### Runs step by step -/

/-- The table behind some steps that all meet a condition. -/
def Table.performs (Ok : Table → Act → Prop) [∀ t act, Decidable (Ok t act)] (t : Table) :
    List Act → Option Table
  | [] => some t
  | act :: acts => if Ok t act then (act.perform t).bind fun t' => performs Ok t' acts else none

theorem Run.performs {Ok : Table → Act → Prop} [∀ t act, Decidable (Ok t act)] {acts : List Act}
    {t t' : Table} (run : Run Ok t) (performs : t.performs Ok acts = some t') : Run Ok t' := by
  induction acts generalizing t with
  | nil => exact Option.some.inj performs ▸ run
  | cons act acts ih =>
      unfold Table.performs at performs
      split_ifs at performs with ok
      obtain ⟨next, perform, rest⟩ := Option.bind_eq_some_iff.mp performs
      exact ih (run.step act ok perform) rest

/-- `phylo` is zero, and EATING is its first state. -/
def started : Table := initial (fun _ => .eating) fun _ => ⟨0, [], true⟩

/-- Five philosophers come to the table, the first one eats and comes to `leaveForks`, and the
second one waits for the fork between them. -/
def firstEats : List Act :=
  List.replicate 33 (.controller .other true) ++ List.replicate 16 (.phylo 0) ++
    List.replicate 6 (.phylo 1)

/-! ### Waiting for each other -/

/-- Philosopher `i` is blocked in `takeForks` on a fork that philosopher `k` holds. -/
def Table.WaitsFor (t : Table) (i k : Nat) : Prop := ∃ f, t.Waits (.phylo i) (.fork f) ∧ t.Holds k f

/-- An order in which every philosopher takes its forks: an odd fork is taken last, and the
last fork of an odd table first. -/
def forkRank (n f : Nat) : Nat := if f % 2 = 1 then 2 else if n % 2 = 1 ∧ f + 1 = n then 0 else 1

theorem forkRank_lt_three (n f : Nat) : forkRank n f < 3 := by
  unfold forkRank
  split_ifs <;> decide

theorem forkRank_odd {f : Nat} (n : Nat) (odd : f % 2 = 1) : forkRank n f = 2 := if_pos odd

theorem forkRank_even {f : Nat} (n : Nat) (even : f % 2 = 0) : forkRank n f < 2 := by
  rw [forkRank, if_neg (by omega)]
  split_ifs <;> decide

/-- Also over the edge of the table. -/
theorem forkRank_first {n i : Nat} (two : 2 ≤ n) (seat : i < n) :
    forkRank n (firstFork n i) < forkRank n (secondFork n i) := by
  have right : (i + 1 = n ∧ rightFork n i = 0) ∨ rightFork n i = i + 1 := by
    by_cases last : i + 1 = n
    · exact Or.inl ⟨last, by rw [rightFork, last, Nat.mod_self]⟩
    · exact Or.inr (Nat.mod_eq_of_lt (by omega))
  by_cases odd : i % 2 = 1
  · rw [firstFork, secondFork, if_pos odd, if_pos odd, forkRank_odd n odd]
    refine forkRank_even n ?_
    rcases right with ⟨-, zero⟩ | next
    · rw [zero]
    · rw [next]
      omega
  · rw [firstFork, secondFork, if_neg odd, if_neg odd]
    rcases right with ⟨last, zero⟩ | next
    · have first : forkRank n i = 0 := by
        have edge : n % 2 = 1 ∧ i + 1 = n := ⟨by omega, last⟩
        rw [forkRank, if_neg odd, if_pos edge]
      have second : forkRank n 0 = 1 := by
        have other : ¬ (n % 2 = 1 ∧ 0 + 1 = n) := by omega
        rw [forkRank, if_neg (by decide), if_neg other]
      rw [zero, first, second]
      decide
    · have second : forkRank n (i + 1) = 2 := forkRank_odd n (by omega)
      rw [next, second]
      exact forkRank_even n (by omega)

/-- The rank of the fork that a philosopher waits for. -/
def Table.rank (t : Table) (i : Nat) : Nat :=
  match t.process i with
  | some ⟨.takeFirst, true⟩ => forkRank t.phylosOnTable (firstFork t.phylosOnTable i)
  | some ⟨.takeSecond, true⟩ => forkRank t.phylosOnTable (secondFork t.phylosOnTable i)
  | _ => 3

section Ranks

variable {t : Table} {i k f : Nat}

theorem Table.rank_waits (waits : t.Waits (.phylo i) (.fork f)) :
    t.rank i = forkRank t.phylosOnTable f := by
  obtain ⟨s, there, wants⟩ := waits
  unfold rank
  rw [there]
  cases s <;> cases wants <;> rfl

/-- Who holds a fork waits for a fork of higher rank, if at all. -/
theorem Inv.rank_holds (inv : Inv t) (holds : t.Holds k f) :
    forkRank t.phylosOnTable f < t.rank k := by
  obtain ⟨⟨s, b⟩, there, held⟩ := holds
  obtain ⟨two, seat, -⟩ := inv.busy there (Statement.inside_of_held held)
  have top := forkRank_lt_three t.phylosOnTable f
  unfold Table.rank
  rw [there]
  cases b with
  | false => cases s <;> exact top
  | true =>
      cases s with
      | takeFirst => cases held
      | takeSecond =>
          obtain rfl : f = firstFork t.phylosOnTable k := List.mem_singleton.mp held
          exact forkRank_first two seat
      | _ => exact top

theorem Inv.rank_waitsFor (inv : Inv t) (waitsFor : t.WaitsFor i k) : t.rank i < t.rank k := by
  obtain ⟨f, waits, holds⟩ := waitsFor
  rw [Table.rank_waits waits]
  exact inv.rank_holds holds

theorem Inv.acyclic (inv : Inv t) (i : Nat) : ¬ Relation.TransGen t.WaitsFor i i := by
  intro cycle
  have rises : ∀ {k}, Relation.TransGen t.WaitsFor i k → t.rank i < t.rank k := by
    intro k chain
    induction chain with
    | single waitsFor => exact inv.rank_waitsFor waitsFor
    | tail _ waitsFor ih => exact ih.trans (inv.rank_waitsFor waitsFor)
  exact Nat.lt_irrefl _ (rises cycle)

end Ranks

/-! ### Places -/

section Places

variable {t t' : Table} {i : Nat} {id : SemId} {pid : Pid}

theorem sysWaitSem_phylosOnTable : (t.sysWaitSem pid id).phylosOnTable = t.phylosOnTable := by
  unfold Table.sysWaitSem
  dsimp only
  split_ifs <;> simp

theorem sysPostSem_phylosOnTable : (t.sysPostSem pid id).phylosOnTable = t.phylosOnTable := by
  unfold Table.sysPostSem
  dsimp only
  split_ifs
  · simp
  · cases (t.sem id).queue <;> simp

theorem sysDestroySemaphore_phylosOnTable : (t.sysDestroySemaphore id).1.phylosOnTable =
    t.phylosOnTable := by
  have readied : ∀ (queue : List Pid) (t : Table), (queue.foldl Table.resume t).phylosOnTable =
      t.phylosOnTable := by
    intro queue
    induction queue with
    | nil => exact fun _ => rfl
    | cons pid queue ih =>
        exact fun t => (ih (t.resume pid)).trans (Table.resume_phylosOnTable t pid)
  unfold Table.sysDestroySemaphore
  dsimp only
  split_ifs
  · rfl
  · rw [readied, Table.setSem_phylosOnTable]

theorem sysKill_phylosOnTable : (t.sysKill i).1.phylosOnTable = t.phylosOnTable := by
  unfold Table.sysKill
  cases t.process i <;> rfl

theorem phyloStep_phylosOnTable (s : Statement) :
    (t.phyloStep i s).phylosOnTable = t.phylosOnTable := by
  cases s with
  | waitChange | takeFirst | takeSecond | waitPrint => exact sysWaitSem_phylosOnTable
  | postPrint | leaveOwn | leaveRight | postChange => exact sysPostSem_phylosOnTable
  | print k =>
      simp only [Table.phyloStep]
      split_ifs
      · rfl
      · exact Table.resume_phylosOnTable t _
  | _ => exact Table.resume_phylosOnTable _ _

/-- The places change only while the controlling process has all tokens. -/
theorem Inv.controlStep_places (inv : Inv t) {key : Table.Key} {made : Bool}
    (changed : (t.controlStep key made t.controller.control).phylosOnTable ≠ t.phylosOnTable) :
      t.tokens = 0 := by
  cases at_ : t.controller.control with
  | initTable i | addTable pos | remTable pos | endTable => exact (inv.budget_at at_).1
  | blockAll command i =>
      refine absurd ?_ changed
      rw [at_]
      cases command <;> simp only [Table.controlStep] <;> split_ifs <;>
        simp [Table.goes, sysWaitSem_phylosOnTable]
  | initProcess i | addProcess pos =>
      refine absurd ?_ changed
      rw [at_]
      cases made <;> rfl
  | remKill pos | remFork pos | endFork | endKill | endChange =>
      refine absurd ?_ changed
      rw [at_]
      simp only [Table.controlStep]
      split_ifs <;> simp [Table.goes, sysKill_phylosOnTable, sysDestroySemaphore_phylosOnTable]
  | endPrint =>
      refine absurd ?_ changed
      rw [at_]
      exact sysDestroySemaphore_phylosOnTable
  | _ =>
      refine absurd ?_ changed
      rw [at_]
      simp only [Table.controlStep]
      try split_ifs
      all_goals simp [Table.goes, sysWaitSem_phylosOnTable, sysPostSem_phylosOnTable,
        Table.sysSemInit, Table.setState]

/-- No philosopher is inside when the number of places changes. -/
theorem Inv.perform_places (inv : Inv t) {act : Act} (perform : act.perform t = some t')
    (changed : t'.phylosOnTable ≠ t.phylosOnTable) {p : Process} (there : t.process i = some p) :
    p.statement.inside = false := by
  cases act with
  | phylo j =>
      rcases at_j : t.process j with _ | ⟨s, b⟩
      · simp [Act.perform, at_j] at perform
      · cases b with
        | false =>
            simp only [Act.perform, at_j, Option.some.injEq] at perform
            rw [← perform] at changed
            exact absurd (phyloStep_phylosOnTable s) changed
        | true => simp [Act.perform, at_j] at perform
  | controller key made =>
      cases going : t.controller.blocked with
      | true => simp [Act.perform, going] at perform
      | false =>
          simp only [Act.perform, going, Bool.false_eq_true, if_false, Option.some.injEq] at perform
          rw [← perform] at changed
          rw [inv.still (inv.controlStep_places changed) there]
          rfl

end Places

/-- In every reachable state no philosophers wait for each other in a cycle, and no step
changes `phylos_on_table` while a philosopher is between its wait on and its post to
`change_phylos_sem`. -/
theorem philosophers_never_deadlock {Ok : Table → Act → Prop} {t : Table} (run : Run Ok t) :
    (∀ i, ¬ Relation.TransGen t.WaitsFor i i) ∧
      ∀ (act : Act) (t' : Table), act.perform t = some t' → t'.phylosOnTable ≠ t.phylosOnTable →
        ∀ i p, t.process i = some p → p.statement.inside = false :=
  ⟨run.inv.acyclic, fun _ _ perform changed _ _ there =>
    run.inv.perform_places perform changed there⟩

theorem philosophers_never_deadlock_firstEats : ∃ t : Table, Run (fun _ _ => True) t ∧
    t.WaitsFor 1 0 ∧ (∀ i, ¬ Relation.TransGen t.WaitsFor i i) ∧
      ∀ (act : Act) (t' : Table), act.perform t = some t' → t'.phylosOnTable ≠ t.phylosOnTable →
        ∀ i p, t.process i = some p → p.statement.inside = false := by
  have there : (started.performs (fun _ _ => True) firstEats).any fun t =>
      t.phylosOnTable = 5 ∧ t.process 0 = some ⟨.leaveOwn, false⟩ ∧
        t.process 1 = some ⟨.takeSecond, true⟩ := by
    decide +kernel
  obtain ⟨t, performs, at_⟩ := (Option.any_eq_true ..).mp there
  obtain ⟨five, zero, one⟩ := of_decide_eq_true at_
  have run : Run (fun _ _ => True) t := (Run.initial _ _).performs performs
  refine ⟨t, run, ⟨1, ⟨.takeSecond, one, ?_⟩, _, zero, ?_⟩, philosophers_never_deadlock run⟩
  · rw [five]
    rfl
  · rw [five]
    decide

/-! ### Eating -/

/-- The philosopher is at a statement where its state may be EATING. -/
def Table.Eats (t : Table) (i : Nat) : Prop := ∃ p, t.process i = some p ∧ p.statement.eats = true

section Eating

variable {t t' : Table} {i j : Nat} {s : Statement} {id : SemId} {pid : Pid} {v : Semaphore}

theorem Statement.eats_of_next (ne : s ≠ .eat) (eats : s.next.eats = true) : s.eats = true := by
  cases s <;> first | rfl | exact absurd rfl ne | cases eats

theorem Table.eats_setSem : (t.setSem id v).Eats i ↔ t.Eats i := by simp [Eats]

theorem Table.Eats.unblock (eats : (t.block pid).Eats i) : t.Eats i := by
  obtain ⟨p, there, eats⟩ := eats
  cases pid with
  | controller => exact ⟨p, there, eats⟩
  | phylo j =>
      rw [block, setProcess_process] at there
      by_cases same : i = j
      · subst same
        rw [Function.update_self] at there
        obtain ⟨q, at_i, rfl⟩ := Option.map_eq_some_iff.mp there
        exact ⟨q, at_i, eats⟩
      · rw [Function.update_of_ne same] at there
        exact ⟨p, there, eats⟩

/-- A process that goes on comes to eat from `.eat` only. -/
theorem Table.Eats.unresume (eats : (t.resume pid).Eats i)
    (other : ∀ j p, pid = .phylo j → t.process j = some p → p.statement ≠ .eat) : t.Eats i := by
  obtain ⟨p, there, eats⟩ := eats
  cases pid with
  | controller => exact ⟨p, there, eats⟩
  | phylo j =>
      rw [resume, setProcess_process] at there
      by_cases same : i = j
      · subst same
        rw [Function.update_self] at there
        obtain ⟨q, at_i, rfl⟩ := Option.map_eq_some_iff.mp there
        exact ⟨q, at_i, Statement.eats_of_next (other i q rfl at_i) eats⟩
      · rw [Function.update_of_ne same] at there
        exact ⟨p, there, eats⟩

/-- A process that waits is not about to eat. -/
theorem Table.Waits.not_eat (waits : t.Waits pid id) :
    ∀ j p, pid = .phylo j → t.process j = some p → p.statement ≠ .eat := by
  rintro j p rfl there
  obtain ⟨s, there', wants⟩ := waits
  cases there.symm.trans there'
  rintro rfl
  cases wants

theorem Table.Eats.unwait (eats : (t.sysWaitSem pid id).Eats i)
    (other : ∀ j p, pid = .phylo j → t.process j = some p → p.statement ≠ .eat) : t.Eats i := by
  unfold sysWaitSem at eats
  dsimp only at eats
  split_ifs at eats
  · exact eats.unresume other
  · exact eats_setSem.mp (eats.unresume (by simpa using other))
  · exact eats_setSem.mp eats.unblock

theorem Table.resume_process_of_ne (ne : pid ≠ .phylo j) :
    (t.resume pid).process j = t.process j := by
  cases pid with
  | controller => rfl
  | phylo i =>
      have ne : j ≠ i := fun same => ne (same ▸ rfl)
      rw [resume, setProcess_process, Function.update_of_ne ne]

theorem Inv.unpost (inv : Inv t) (eats : (t.sysPostSem pid id).Eats i) (free : ¬ t.Waits pid id)
    (other : ∀ j p, pid = .phylo j → t.process j = some p → p.statement ≠ .eat) : t.Eats i := by
  unfold Table.sysPostSem at eats
  dsimp only at eats
  split_ifs at eats
  · exact eats.unresume other
  · cases waiting : (t.sem id).queue with
    | nil =>
        rw [waiting] at eats
        exact Table.eats_setSem.mp (eats.unresume (by simpa using other))
    | cons toReady queue =>
        rw [waiting] at eats
        have waits : t.Waits toReady id :=
          ((inv.queues id).2 toReady).mp (by rw [waiting]; exact List.mem_cons_self)
        have handed := eats.unresume fun j p eq there => by
          have ne : toReady ≠ .phylo j := by
            rintro rfl
            exact free (eq ▸ waits)
          rw [Table.resume_process_of_ne ne, Table.setSem_process] at there
          exact other j p eq there
        exact Table.eats_setSem.mp (handed.unresume (by simpa using waits.not_eat))

/-- A philosopher comes to eat by its own step at `.eat` only. -/
theorem Inv.phyloStep_eats (inv : Inv t) (there : t.process j = some ⟨s, false⟩) (ne : s ≠ .eat)
    (eats : (t.phyloStep j s).Eats i) : t.Eats i := by
  have other : ∀ k p, Pid.phylo j = .phylo k → t.process k = some p → p.statement ≠ .eat := by
    rintro k p eq at_k
    cases eq
    cases there.symm.trans at_k
    exact ne
  have free : ∀ id, ¬ t.Waits (.phylo j) id := by
    rintro id ⟨s', there', -⟩
    cases there.symm.trans there'
  cases s with
  | waitChange | takeFirst | takeSecond | waitPrint => exact Table.Eats.unwait eats other
  | postPrint | leaveOwn | leaveRight | postChange => exact inv.unpost eats (free _) other
  | eat => exact absurd rfl ne
  | print k =>
      simp only [Table.phyloStep] at eats
      split_ifs at eats
      · obtain ⟨p, at_i, eats⟩ := eats
        rw [Table.goto, Table.setProcess_process] at at_i
        by_cases same : i = j
        · exact ⟨_, same ▸ there, rfl⟩
        · rw [Function.update_of_ne same] at at_i
          exact ⟨p, at_i, eats⟩
      · exact Table.Eats.unresume eats other
  | think =>
      have eats : ((t.setState j .thinking).resume (.phylo j)).Eats i := eats
      exact eats.unresume other
  | hungry =>
      have eats : ((t.setState j .hungry).resume (.phylo j)).Eats i := eats
      exact eats.unresume other
  | nothing =>
      have eats : ((t.setState j .nothing).resume (.phylo j)).Eats i := eats
      exact eats.unresume other
  | thinkSleep | eatSleep =>
      have eats : (t.resume (.phylo j)).Eats i := eats
      exact eats.unresume other

theorem Table.Eats.unready {queue : List Pid} (eats : (queue.foldl resume t).Eats i)
    (nodup : queue.Nodup)
    (other : ∀ pid ∈ queue, ∀ j p, pid = .phylo j → t.process j = some p → p.statement ≠ .eat) :
      t.Eats i := by
  induction queue generalizing t with
  | nil => exact eats
  | cons pid queue ih =>
      obtain ⟨absent, nodup⟩ := List.nodup_cons.mp nodup
      have resumed : (t.resume pid).Eats i := ih eats nodup fun pid' mem j p eq there => by
        have ne : pid ≠ .phylo j := by
          rintro rfl
          exact absent (eq ▸ mem)
        rw [resume_process_of_ne ne] at there
        exact other pid' (List.mem_cons_of_mem _ mem) j p eq there
      exact resumed.unresume (other pid List.mem_cons_self)

theorem Inv.undestroy (inv : Inv t) (eats : (t.sysDestroySemaphore id).1.Eats i) : t.Eats i := by
  unfold Table.sysDestroySemaphore at eats
  dsimp only at eats
  split_ifs at eats
  · exact eats
  · refine Table.eats_setSem.mp (eats.unready (inv.queues id).1 fun pid mem j p eq there => ?_)
    rw [Table.setSem_process] at there
    exact (((inv.queues id).2 pid).mp mem).not_eat j p eq there

theorem Table.Eats.unkill {k : Nat} (eats : (t.sysKill k).1.Eats i) : t.Eats i := by
  unfold sysKill at eats
  cases there : t.process k with
  | none =>
      rw [there] at eats
      exact eats
  | some p =>
      rw [there] at eats
      obtain ⟨p, at_i, eats⟩ := eats
      have at_i : Function.update t.process k none i = some p := at_i
      by_cases same : i = k
      · rw [same, Function.update_self] at at_i
        cases at_i
      · rw [Function.update_of_ne same] at at_i
        exact ⟨p, at_i, eats⟩

theorem Table.Eats.uncreate {k : Nat} {made : Bool} (eats : (t.sysCreateProcess k made).Eats i) :
    t.Eats i := by
  cases made with
  | false => exact eats
  | true =>
      obtain ⟨p, at_i, eats⟩ := eats
      have at_i : Function.update t.process k (some ⟨.waitChange, false⟩) i = some p := at_i
      by_cases same : i = k
      · rw [same, Function.update_self] at at_i
        cases at_i
        cases eats
      · rw [Function.update_of_ne same] at at_i
        exact ⟨p, at_i, eats⟩

/-- No philosopher comes to eat by a step of the controlling process. -/
theorem Inv.controlStep_eats (inv : Inv t) (going : t.controller.blocked = false) {key : Table.Key}
    {made : Bool} (eats : (t.controlStep key made t.controller.control).Eats i) : t.Eats i := by
  have other : ∀ j p, Pid.controller = .phylo j → t.process j = some p → p.statement ≠ .eat := by
    rintro j p eq
    cases eq
  cases at_ : t.controller.control with
  | blockAllToInitiate k | blockAll command k =>
      rw [at_] at eats
      simp only [Table.controlStep] at eats
      split_ifs at eats
      · exact eats.unwait other
      · first | exact eats | (cases command <;> exact eats)
  | freeAll k exits =>
      rw [at_] at eats
      simp only [Table.controlStep] at eats
      split_ifs at eats
      · refine inv.unpost eats ?_ other
        rintro ⟨blocked, -⟩
        cases going.symm.trans blocked
      · exact eats
      · exact eats
  | initFork k | addFork k =>
      rw [at_] at eats
      simp only [Table.controlStep] at eats
      split_ifs at eats <;> exact eats
  | initProcess k | addProcess k =>
      rw [at_] at eats
      exact Table.Eats.uncreate eats
  | remKill k | endKill =>
      rw [at_] at eats
      simp only [Table.controlStep] at eats
      split_ifs at eats <;> exact Table.Eats.unkill eats
  | remFork k | endChange =>
      rw [at_] at eats
      simp only [Table.controlStep] at eats
      split_ifs at eats <;> exact inv.undestroy eats
  | endFork =>
      rw [at_] at eats
      simp only [Table.controlStep] at eats
      split_ifs at eats
      · exact inv.undestroy eats
      · exact inv.undestroy eats
      · exact eats
  | endPrint =>
      rw [at_] at eats
      exact inv.undestroy eats
  | _ =>
      rw [at_] at eats
      exact eats

end Eating

/-! ### Neighbours -/

def Neighbours (n i k : Nat) : Prop := i ≠ k ∧ (k = rightFork n i ∨ i = rightFork n k)

instance (n i k : Nat) : Decidable (Neighbours n i k) := inferInstanceAs (Decidable (_ ∧ _))

/-- The philosopher has posted to its own fork and its state is not yet NOTHING. -/
def Table.leaving (t : Table) (i : Nat) : Bool :=
  match t.process i with
  | some p => p.statement = .leaveRight ∨ p.statement = .nothing
  | none => false

/-- No philosopher sets its state to EATING while a neighbour is leaving its forks. -/
def Table.Orderly (t : Table) : Act → Prop
  | .phylo j => (t.process j).map Process.statement = some .eat →
      ∀ k < t.phylosOnTable, Neighbours t.phylosOnTable j k → t.leaving k = false
  | .controller .. => True

instance (t : Table) : (act : Act) → Decidable (t.Orderly act)
  | .phylo _ => inferInstanceAs (Decidable (_ → _))
  | .controller .. => isTrue trivial

/-- No two neighbours are where their states may be EATING. -/
def Table.Exclusive (t : Table) : Prop :=
  ∀ i k, Neighbours t.phylosOnTable i k → ¬ (t.Eats i ∧ t.Eats k)

section Neighbours

variable {t t' : Table} {i j k f : Nat} {s : Statement}

theorem Neighbours.symm {n : Nat} (next : Neighbours n i k) : Neighbours n k i :=
  ⟨next.1.symm, next.2.symm⟩

/-- The philosopher of a fork that is in use has it alone. -/
theorem Inv.holds_unique (inv : Inv t) {p : Process} (there : t.process f = some p)
    (holds : t.Holds i f) (holds' : t.Holds k f) : i = k := by
  obtain ⟨q, at_i, held⟩ := holds
  obtain ⟨two, seat, laid, -⟩ := inv.busy at_i (Statement.inside_of_held held)
  have seated : f < t.controller.control.laid t.phylosOnTable := by
    have lt := inv.seated f p there
    have pos : 0 < t.tokens := by
      have := Table.holders_pos (inv.seat_lt at_i) at_i (Statement.inside_of_held held)
      unfold Table.tokens
      omega
    rw [(inv.budget.complete pos).1] at lt
    rw [laid]
    exact lt
  rcases inv.forks f seated with ⟨-, owner, -, holders⟩ | ⟨-, absent⟩
  · have mine := (holders i).mp ⟨q, at_i, held⟩
    have yours := (holders k).mp holds'
    exact Option.some.inj (mine.symm.trans yours)
  · cases there.symm.trans absent

/-- A neighbour that eats and is not leaving has the fork between the two. -/
theorem Inv.not_at_eat (inv : Inv t) (there : t.process j = some ⟨.eat, false⟩)
    (next : Neighbours t.phylosOnTable j k) (eats : t.Eats k) : t.leaving k = true := by
  obtain ⟨⟨s, b⟩, at_k, eats⟩ := eats
  by_contra staying
  have held : s.held t.phylosOnTable k = [k, rightFork t.phylosOnTable k] := by
    have leaving : t.leaving k = decide (s = .leaveRight ∨ s = .nothing) := by
      unfold Table.leaving
      rw [at_k]
    rw [leaving] at staying
    cases s <;> first | rfl | exact absurd (by decide) staying | cases eats
  have mine : ∀ f, f = j ∨ f = rightFork t.phylosOnTable j → t.Holds j f := fun f own =>
    ⟨_, there, by rcases own with rfl | rfl <;> simp [Statement.held]⟩
  have yours : ∀ f, f = k ∨ f = rightFork t.phylosOnTable k → t.Holds k f := fun f own =>
    ⟨_, at_k, by rw [held]; rcases own with rfl | rfl <;> simp⟩
  rcases next with ⟨ne, right | right⟩
  · exact ne (inv.holds_unique at_k (mine k (Or.inr right)) (yours k (Or.inl rfl)))
  · exact ne (inv.holds_unique there (mine j (Or.inl rfl)) (yours j (Or.inr right)))

/-- A philosopher starts to eat while no neighbour is leaving. -/
theorem Inv.eat_exclusive (inv : Inv t) (there : t.process j = some ⟨.eat, false⟩)
    (ok : t.Orderly (.phylo j)) (exclusive : t.Exclusive) : (t.phyloStep j .eat).Exclusive := by
  have alone : ∀ k, Neighbours t.phylosOnTable j k → ¬ t.Eats k := by
    intro k next eats
    have leaving := inv.not_at_eat there next eats
    obtain ⟨p, at_k, eats⟩ := eats
    have seat := (inv.busy at_k (Statement.inside_of_eats eats)).2.1
    have staying := ok (by rw [there]; rfl) k seat next
    cases leaving.symm.trans staying
  have others : ∀ i, i ≠ j → (t.phyloStep j .eat).Eats i → t.Eats i := by
    rintro i ne ⟨p, at_i, eats⟩
    have at_i : ((t.setState j .eating).resume (.phylo j)).process i = some p := at_i
    rw [Table.resume_process_of_ne (fun eq => ne (Pid.phylo.inj eq).symm)] at at_i
    exact ⟨p, at_i, eats⟩
  rintro i k next ⟨eats, eats'⟩
  rw [phyloStep_phylosOnTable] at next
  by_cases mine : i = j
  · subst mine
    exact alone k next (others k next.1.symm eats')
  · by_cases yours : k = j
    · subst yours
      exact alone i next.symm (others i mine eats)
    · exact exclusive i k next ⟨others i mine eats, others k yours eats'⟩

theorem Run.exclusive (run : Run Table.Orderly t) : t.Exclusive := by
  induction run with
  | initial state fork =>
      rintro i k - ⟨⟨p, there, -⟩, -⟩
      cases there
  | @step t t' before act ok perform ih =>
      have inv := before.inv
      cases act with
      | phylo j =>
          rcases there : t.process j with _ | ⟨s, b⟩
          · simp [Act.perform, there] at perform
          cases b with
          | true => simp [Act.perform, there] at perform
          | false =>
              simp only [Act.perform, there, Option.some.injEq] at perform
              subst perform
              by_cases eat : s = .eat
              · subst eat
                exact inv.eat_exclusive there ok ih
              · rintro i k next ⟨eats, eats'⟩
                rw [phyloStep_phylosOnTable] at next
                exact ih i k next ⟨inv.phyloStep_eats there eat eats,
                  inv.phyloStep_eats there eat eats'⟩
      | controller key made =>
          cases going : t.controller.blocked with
          | true => simp [Act.perform, going] at perform
          | false =>
              have stepped := perform
              simp only [Act.perform, going, Bool.false_eq_true, if_false,
                Option.some.injEq] at perform
              subst perform
              rintro i k next ⟨eats, eats'⟩
              have eats := inv.controlStep_eats going eats
              have eats' := inv.controlStep_eats going eats'
              by_cases same : (t.controlStep key made t.controller.control).phylosOnTable =
                t.phylosOnTable
              · rw [same] at next
                exact ih i k next ⟨eats, eats'⟩
              · -- the table changes: nobody is inside
                obtain ⟨p, there, eats⟩ := eats
                have outside := inv.perform_places stepped same there
                cases (Statement.inside_of_eats eats).symm.trans outside

end Neighbours

/-- In every run in which no philosopher sets its state to EATING while a neighbour is leaving
its forks, no two neighbours have the state EATING. -/
theorem philosophers_exclude {t : Table} (run : Run Table.Orderly t) {i : Nat}
    (seat : i < t.phylosOnTable) (distinct : i ≠ (i + 1) % t.phylosOnTable) :
    ¬ (t.state i = .eating ∧ t.state ((i + 1) % t.phylosOnTable) = .eating) := by
  rintro ⟨mine, yours⟩
  have inv := run.inv
  have shown := Control.le_shown t.phylosOnTable t.controller.control
  have right : (i + 1) % t.phylosOnTable < t.phylosOnTable := Statement.rightFork_lt seat
  refine run.exclusive i ((i + 1) % t.phylosOnTable) ⟨distinct, Or.inl rfl⟩ ⟨?_, ?_⟩
  · exact inv.eating i (Nat.lt_of_lt_of_le seat shown) mine
  · exact inv.eating _ (Nat.lt_of_lt_of_le right shown) yours

theorem philosophers_exclude_firstEats : ∃ t : Table, Run Table.Orderly t ∧ t.phylosOnTable = 5 ∧
    t.state 1 = .eating ∧ ¬ (t.state 0 = .eating ∧ t.state 1 = .eating) := by
  have there :
    (started.performs Table.Orderly (firstEats ++ [.phylo 0, .phylo 0, .phylo 0, .phylo 1])).any
        fun t =>
      t.phylosOnTable = 5 ∧ t.state 1 = .eating := by decide +kernel
  obtain ⟨t, performs, at_⟩ := (Option.any_eq_true ..).mp there
  obtain ⟨five, eating⟩ := of_decide_eq_true at_
  have run : Run Table.Orderly t := (Run.initial _ _).performs performs
  have excluded := philosophers_exclude run (i := 0) (by rw [five]; decide) (by rw [five]; decide)
  rw [five] at excluded
  exact ⟨t, run, five, eating, excluded⟩

/-- The first philosopher hands its fork to the second one, which sets its state to EATING
before the first one has set its own to NOTHING. -/
theorem neighbours_eat_firstEats : ¬ ∀ t : Table, Run (fun _ _ => True) t → ∀ i < t.phylosOnTable,
    i ≠ (i + 1) % t.phylosOnTable →
      ¬ (t.state i = .eating ∧ t.state ((i + 1) % t.phylosOnTable) = .eating) := by
  intro excluded
  have there :
    (started.performs (fun _ _ => True) (firstEats ++ [.phylo 0, .phylo 0, .phylo 1])).any fun t =>
      t.phylosOnTable = 5 ∧ t.state 0 = .eating ∧ t.state 1 = .eating := by decide +kernel
  obtain ⟨t, performs, at_⟩ := (Option.any_eq_true ..).mp there
  obtain ⟨five, both⟩ := of_decide_eq_true at_
  have run : Run (fun _ _ => True) t := (Run.initial _ _).performs performs
  have none := excluded t run 0 (by rw [five]; decide) (by rw [five]; decide)
  rw [five] at none
  exact none both

end SoTp.Phylo
