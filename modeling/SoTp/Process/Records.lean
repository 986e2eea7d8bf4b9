/-
Where a waiting process is recorded: the queue of a semaphore, the sleep list, or
the `waitingForMe` table of a process that has not exited.

`Records strict k` says that every recorded process is waiting and is recorded
only once. Not `strict`, a recorded process may also be EXITED already, which
happens when a process that was killed while BLOCKED is killed again.

* `Records.shrink`, `Records.push` — how the records may change.
* `Exits.records`, `Exits.complete` — an exit keeps them.
* `Selects.records` — so does a context switch.
-/

import SoTp.Process.Exit

namespace SoTp.Process

open SoTp.Lib Kernel

/-- A structure that records waiting processes. -/
inductive Slot where
  | queue (semId : Nat)
  | sleep
  | table (pcb : Nat)
deriving DecidableEq

namespace Kernel

/-- The queue of a semaphore. -/
def queueOf (k : Kernel) (semId : Nat) : List Nat :=
  match k.semArray[semId]? with
  | none => []
  | some sem => sem.queue.toList

def sleepNext (k : Kernel) (node : Nat) : Nat := (k.sleepNodes node).next

def sleepPCB (k : Kernel) (node : Nat) : Nat := (k.sleepNodes node).pcb

/-- The processes in the sleep list. -/
def sleepers (k : Kernel) : List Nat := Cells.walk k.sleepNext k.sleepPCB k.unused k.first

/-- The processes recorded in a slot. -/
def entries (k : Kernel) : Slot → List Nat
  | .queue semId => k.queueOf semId
  | .sleep => k.sleepers
  | .table pcb => if k.stateOf pcb = .exited then [] else k.waitersOf pcb

section Lemmas

variable {k : Kernel}

@[simp] theorem entries_queue {s : Nat} : k.entries (.queue s) = k.queueOf s := rfl

@[simp] theorem entries_sleep : k.entries .sleep = k.sleepers := rfl

theorem entries_table {r : Nat} :
    k.entries (.table r) = if k.stateOf r = .exited then [] else k.waitersOf r := rfl

theorem queueOf_congr {k' : Kernel} {s : Nat} (same : k'.semArray[s]? = k.semArray[s]?) :
    k'.queueOf s = k.queueOf s := by
  rw [queueOf, same, queueOf]

theorem queueOf_some {s : Nat} {sem : Semaphore} (found : k.semArray[s]? = some sem) :
    k.queueOf s = sem.queue.toList := by
  rw [queueOf, found]

theorem sleepers_congr {k' : Kernel} (nodes : k'.sleepNodes = k.sleepNodes)
    (unused : k'.unused = k.unused) (first : k'.first = k.first) : k'.sleepers = k.sleepers := by
  have next : k'.sleepNext = k.sleepNext := by
    funext a
    rw [sleepNext, nodes, sleepNext]
  have pcb : k'.sleepPCB = k.sleepPCB := by
    funext a
    rw [sleepPCB, nodes, sleepPCB]
  rw [sleepers, next, pcb, unused, first, sleepers]

end Lemmas

end Kernel

/-- The nodes of the sleep list, in order. -/
structure SleepList (k : Kernel) (cells : List Nat) : Prop where
  segment : Segment k.sleepNext k.first cells NULL
  nodup : cells.Nodup
  used : ∀ c ∈ cells, 0 < c ∧ c < k.unused

theorem SleepList.length_le {k : Kernel} {cells : List Nat} (l : SleepList k cells) :
    cells.length ≤ k.unused := by
  have sub : cells.toFinset ⊆ Finset.range k.unused := fun c hc =>
    Finset.mem_range.mpr (l.used c (List.mem_toFinset.mp hc)).2
  have card := Finset.card_le_card sub
  rwa [List.toFinset_card_of_nodup l.nodup, Finset.card_range] at card

/-- What a walk over the list meets. -/
theorem SleepList.walk {α : Type} {k : Kernel} {cells : List Nat} (l : SleepList k cells)
    (value : Nat → α) : Cells.walk k.sleepNext value k.unused k.first = cells.map value :=
  Cells.walk_segment l.segment (fun c hc => (l.used c hc).1.ne') l.length_le

theorem SleepList.sleepers {k : Kernel} {cells : List Nat} (l : SleepList k cells) :
    k.sleepers = cells.map k.sleepPCB := l.walk _

theorem SleepList.congr {k k' : Kernel} {cells : List Nat} (l : SleepList k cells)
    (nodes : k'.sleepNodes = k.sleepNodes) (unused : k.unused ≤ k'.unused)
    (first : k'.first = k.first) : SleepList k' cells := by
  have next : k'.sleepNext = k.sleepNext := by
    funext a
    rw [Kernel.sleepNext, nodes, Kernel.sleepNext]
  refine ⟨by rw [next, first]; exact l.segment, l.nodup, fun c hc => ?_⟩
  have := l.used c hc
  omega

/-- Recorded processes wait, each in one place. -/
structure Records (strict : Prop) (k : Kernel) : Prop where
  waits : ∀ slot, ∀ p ∈ k.entries slot,
    Waiting (k.stateOf p) ∨ ¬ strict ∧ k.stateOf p = .exited
  nodup : ∀ slot, (k.entries slot).Nodup
  once : ∀ a b p, p ∈ k.entries a → p ∈ k.entries b → a = b
  used : ∀ slot, ∀ p ∈ k.entries slot, p < k.unused
  sleepList : ∃ cells, SleepList k cells

/-- Every waiting process, `p` apart, is recorded. -/
def CompleteBut (except : Nat → Prop) (k : Kernel) : Prop :=
  ∀ q, ¬ except q → Waiting (k.stateOf q) → ∃ slot, q ∈ k.entries slot

/-- Every waiting process is recorded. -/
def Complete (k : Kernel) : Prop := CompleteBut (fun _ => False) k

section Records

variable {strict : Prop} {k k' : Kernel}

theorem mem_table {q r : Nat} :
    q ∈ k.entries (.table r) ↔ k.stateOf r ≠ .exited ∧ q ∈ k.waitersOf r := by
  rw [entries_table]
  split_ifs with e <;> simp [e]

/-- A process that can run, or is blocked by the user, is recorded nowhere. -/
theorem Records.unrecorded (r : Records strict k) {p : Nat} (active : ¬ Waiting (k.stateOf p))
    (alive : k.stateOf p ≠ .exited) : ∀ slot, p ∉ k.entries slot := fun slot mem => by
  rcases r.waits slot p mem with w | ⟨-, dead⟩
  · exact active w
  · exact alive dead

/-- Records that are a part of good ones, with processes that still wait. -/
theorem Records.shrink (r : Records strict k) (unused : k.unused ≤ k'.unused)
    (sub : ∀ slot, (k'.entries slot).Sublist (k.entries slot))
    (waits : ∀ slot, ∀ p ∈ k'.entries slot,
      Waiting (k'.stateOf p) ∨ ¬ strict ∧ k'.stateOf p = .exited)
    (sleepList : ∃ cells, SleepList k' cells) : Records strict k' where
  waits := waits
  nodup slot := (r.nodup slot).sublist (sub slot)
  once a b p ha hb := r.once a b p ((sub a).subset ha) ((sub b).subset hb)
  used slot p hp := Nat.lt_of_lt_of_le (r.used slot p ((sub slot).subset hp)) unused
  sleepList := sleepList

/-- One more process waits, recorded in `slot`. -/
theorem Records.push (r : Records strict k) {slot : Slot} {p : Nat}
    (unrecorded : ∀ s, p ∉ k.entries s) (lt : p < k'.unused) (unused : k.unused ≤ k'.unused)
    (added : (k'.entries slot).Perm (p :: k.entries slot))
    (others : ∀ s, s ≠ slot → k'.entries s = k.entries s) (blocked : k'.stateOf p = .blocked)
    (states : ∀ q, q ≠ p → k'.stateOf q = k.stateOf q)
    (sleepList : ∃ cells, SleepList k' cells) : Records strict k' := by
  have old : ∀ s q, q ∈ k'.entries s → q ≠ p → q ∈ k.entries s := by
    intro s q hq ne
    by_cases e : s = slot
    · subst e
      exact (List.mem_cons.mp (added.mem_iff.mp hq)).resolve_left ne
    · exact others s e ▸ hq
  have only : ∀ s, p ∈ k'.entries s → s = slot := fun s hs => by
    by_contra ne
    exact unrecorded s (others s ne ▸ hs)
  refine ⟨fun s q hq => ?_, fun s => ?_, fun a b q ha hb => ?_, fun s q hq => ?_, sleepList⟩
  · by_cases e : q = p
    · subst e
      exact Or.inl (Or.inl blocked)
    · rw [states q e]
      exact r.waits s q (old s q hq e)
  · by_cases e : s = slot
    · subst e
      exact added.nodup_iff.mpr (List.nodup_cons.mpr ⟨unrecorded s, r.nodup s⟩)
    · exact others s e ▸ r.nodup s
  · by_cases e : q = p
    · subst e
      rw [only a ha, only b hb]
    · exact r.once a b q (old a q ha e) (old b q hb e)
  · by_cases e : q = p
    · exact e ▸ lt
    · exact Nat.lt_of_lt_of_le (r.used s q (old s q hq e)) unused

theorem Complete.push (c : Complete k) {slot : Slot} {p : Nat}
    (added : (k'.entries slot).Perm (p :: k.entries slot))
    (others : ∀ s, s ≠ slot → k'.entries s = k.entries s)
    (states : ∀ q, q ≠ p → k'.stateOf q = k.stateOf q) : Complete k' := by
  intro q _ waiting
  by_cases e : q = p
  · exact ⟨slot, added.mem_iff.mpr (by simp [e])⟩
  · obtain ⟨s, hs⟩ := c q not_false (states q e ▸ waiting)
    by_cases e' : s = slot
    · subst e'
      exact ⟨s, added.mem_iff.mpr (List.mem_cons_of_mem _ hs)⟩
    · exact ⟨s, others s e' ▸ hs⟩

end Records

/-! ### Exits -/

section Exits

variable {strict : Prop} {k k' : Kernel} {p : Nat}

theorem ExitFrame.queueOf (h : ExitFrame k k') (s : Nat) : k'.queueOf s = k.queueOf s := by
  rw [Kernel.queueOf, h.semArray, Kernel.queueOf]

theorem ExitFrame.sleepers (h : ExitFrame k k') : k'.sleepers = k.sleepers :=
  sleepers_congr h.sleepNodes h.unused h.first

theorem ExitFrame.sleepList (h : ExitFrame k k') {cells : List Nat} (l : SleepList k cells) :
    SleepList k' cells :=
  l.congr h.sleepNodes h.unused.ge h.first

theorem Exits.exited (h : Exits p k k') {q : Nat} (dead : k.stateOf q = .exited) :
    k'.stateOf q = .exited := by
  by_cases e : q = p
  · exact e ▸ h.root
  · rcases h.changes q e with same | ⟨-, s, -⟩
    · rw [same, dead]
    · exact absurd dead s.ne_exited

/-- An exit drops the tables of those who exit, and nothing else. -/
theorem Exits.entries (h : Exits p k k') (slot : Slot) :
    k'.entries slot = k.entries slot ∨
      k'.entries slot = [] ∧ ∃ r, slot = .table r ∧ k.stateOf r ≠ .exited ∧
        k'.stateOf r = .exited := by
  cases slot with
  | queue s => exact Or.inl (h.queueOf s)
  | sleep => exact Or.inl h.sleepers
  | table r =>
      rw [entries_table, entries_table]
      by_cases dead : k.stateOf r = .exited
      · rw [if_pos dead, if_pos (h.exited dead)]
        exact Or.inl rfl
      · by_cases dies : k'.stateOf r = .exited
        · rw [if_pos dies]
          exact Or.inr ⟨rfl, r, rfl, dead, dies⟩
        · rw [if_neg dead, if_neg dies, h.waitersOf]
          exact Or.inl rfl

theorem Exits.mem_entries (h : Exits p k k') {slot : Slot} {q : Nat} (hq : q ∈ k'.entries slot) :
    q ∈ k.entries slot := by
  rcases h.entries slot with e | ⟨e, -⟩
  · rwa [← e]
  · rw [e] at hq
    cases hq

/-- Whoever is still recorded was not moved by the exit. -/
theorem Exits.recorded (h : Exits p k k') (r : Records strict k) {slot : Slot} {q : Nat}
    (hq : q ∈ k'.entries slot) (ne : q ≠ p) : k'.stateOf q = k.stateOf q := by
  rcases h.changes q ne with same | ⟨⟨s, mem, alive, dead⟩, -, -⟩
  · exact same
  · have here := r.once slot (.table s) q (h.mem_entries hq) (mem_table.mpr ⟨alive, mem⟩)
    subst here
    exact absurd dead (mem_table.mp hq).1

theorem Exits.records (h : Exits p k k') (r : Records strict k)
    (root : (∀ slot, p ∉ k.entries slot) ∨ ¬ strict) : Records strict k' := by
  refine r.shrink h.unused.ge (fun slot => ?_) (fun slot q hq => ?_) ?_
  · rcases h.entries slot with e | ⟨e, -⟩
    · rw [e]
    · rw [e]
      exact List.nil_sublist _
  · by_cases e : q = p
    · subst e
      rcases root with un | weak
      · exact absurd (h.mem_entries hq) (un slot)
      · exact Or.inr ⟨weak, h.root⟩
    · rw [h.recorded r hq e]
      exact r.waits slot q (h.mem_entries hq)
  · obtain ⟨cells, l⟩ := r.sleepList
    exact ⟨cells, h.sleepList l⟩

theorem Exits.complete (h : Exits p k k') (c : CompleteBut (· = p) k) : Complete k' := by
  intro q _ waiting
  have ne : q ≠ p := by
    rintro rfl
    rw [h.root] at waiting
    simp [Waiting] at waiting
  rcases h.changes q ne with same | ⟨-, s, -⟩
  · obtain ⟨slot, hs⟩ := c q ne (same ▸ waiting)
    rcases h.entries slot with e | ⟨-, r, rfl, alive, dead⟩
    · exact ⟨slot, e ▸ hs⟩
    · exact absurd waiting (h.settled r alive dead q (mem_table.mp hs).2)
  · exact absurd waiting s.not_waiting

end Exits

/-! ### Context switches -/

section Switch

variable {strict : Prop} {k k' : Kernel}

theorem Selects.waiting_iff (h : Selects k k') (p : Nat) :
    Waiting (k'.stateOf p) ↔ Waiting (k.stateOf p) := by
  rcases h.states p with e | ⟨a | a, b | b⟩
  · rw [e]
  all_goals simp [a, b, Waiting]

theorem Selects.waiting_eq (h : Selects k k') {p : Nat} (w : Waiting (k.stateOf p)) :
    k'.stateOf p = k.stateOf p := by
  rcases h.states p with e | ⟨a | a, -⟩
  · exact e
  all_goals simp [a, Waiting] at w

theorem Selects.entries (h : Selects k k') : k'.entries = k.entries := by
  funext slot
  cases slot with
  | queue s => exact queueOf_congr (by rw [h.semArray])
  | sleep => exact sleepers_congr h.sleepNodes h.unused h.first
  | table r => simp only [entries_table, h.exited_iff, h.waitersOf]

theorem Selects.sleepList (h : Selects k k') {cells : List Nat} (l : SleepList k cells) :
    SleepList k' cells :=
  l.congr h.sleepNodes h.unused.ge h.first

theorem Selects.records (h : Selects k k') (r : Records strict k) : Records strict k' := by
  refine r.shrink h.unused.ge (fun slot => by rw [h.entries]) (fun slot p hp => ?_) ?_
  · rw [h.entries] at hp
    rcases r.waits slot p hp with w | ⟨weak, dead⟩
    · exact Or.inl ((h.waiting_iff p).mpr w)
    · exact Or.inr ⟨weak, (h.exited_iff p).mpr dead⟩
  · obtain ⟨cells, l⟩ := r.sleepList
    exact ⟨cells, h.sleepList l⟩

theorem Selects.complete (h : Selects k k') (c : Complete k) : Complete k' := by
  intro q _ waiting
  rw [h.entries]
  exact c q not_false ((h.waiting_iff q).mp waiting)

end Switch

end SoTp.Process
