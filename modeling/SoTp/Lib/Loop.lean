/-
Loops with fuel. A C loop whose termination depends on an invariant is modelled
as a body iterated a given number of rounds: each round either goes round again
or leaves with a result. Running out of rounds is its own outcome, so "the loop
terminates" is the statement that some number of rounds is enough, and a loop
that never leaves answers `Stop.fuel` for every number of rounds.

* `Yields.bind` — executions that settle on a result, one after the other.
* `loop_inv` — partial correctness: an invariant of the body reaches the exit.
* `loop_total` — total correctness: with an invariant that bounds the rounds to
  come, the loop leaves, and with the postcondition.
* `loop_mono` — a result found with some fuel is found with more.
* `loop_never`, `loop_stuck` — a body that always goes round again never leaves.
* `loop_log` — partial correctness of a loop together with what its rounds record.
-/

import Mathlib.Tactic.Common
import Mathlib.Logic.Basic

namespace SoTp.Lib

/-- Why an execution gives no result: an access the language gives no meaning
to, or no rounds left. -/
inductive Stop where
  | fault
  | fuel
deriving DecidableEq, Repr

/-- Executions that may stop without a result. -/
abbrev Exec (α : Type) := Except Stop α

/-- What one round of a loop decides. -/
inductive Pass (σ ρ : Type) where
  | again (s : σ)
  | leave (r : ρ)

/-- `while (true)` with at most the given number of rounds. -/
def loop {σ ρ : Type} (body : σ → Exec (Pass σ ρ)) : Nat → σ → Exec ρ
  | 0, _ => .error .fuel
  | fuel + 1, s =>
      match body s with
      | .error e => .error e
      | .ok (.again s') => loop body fuel s'
      | .ok (.leave r) => .ok r

/-- What the rounds of a loop record, given what one round records. -/
def loopLog {σ ρ τ : Type} (body : σ → Exec (Pass σ ρ)) (log : σ → List τ) : Nat → σ → List τ
  | 0, _ => []
  | fuel + 1, s =>
      log s ++ match body s with
        | .ok (.again s') => loopLog body log fuel s'
        | _ => []

section Exec

variable {α β : Type}

/-- A sequenced execution has a result exactly when both halves have one. -/
theorem bind_ok_iff {m : Exec α} {rest : α → Exec β} {r : β} :
    m >>= rest = .ok r ↔ ∃ mid, m = .ok mid ∧ rest mid = .ok r := by
  cases m <;> simp [bind, Except.bind]

theorem map_ok_iff {m : Exec α} {f : α → β} {r : β} : m.map f = .ok r ↔ ∃ a, m = .ok a ∧
    f a = r := by
  cases m <;> simp [Except.map]

theorem ok_of_toOption {m : Exec α} {r : α} (h : m.toOption = some r) : m = .ok r := by
  cases m with
  | ok _ =>
      cases h
      rfl
  | error _ => cases h

@[simp] theorem ok_bind (mid : α) (rest : α → Exec β) : Except.ok mid >>= rest = rest mid := rfl

@[simp] theorem error_bind (e : Stop) (rest : α → Exec β) :
    (Except.error e : Exec α) >>= rest = .error e := rfl

@[simp] theorem pure_eq_ok (r : α) : (pure r : Exec α) = .ok r := rfl

/-- With enough fuel the result is this one. -/
def Yields (f : Nat → Exec α) (r : α) : Prop := ∃ n, ∀ fuel, n < fuel → f fuel = .ok r

/-- A result that needs no fuel. -/
theorem Yields.ok (r : α) : Yields (fun _ => .ok r) r := ⟨0, fun _ _ => rfl⟩

/-- One run is enough where more fuel changes nothing. -/
theorem Yields.of_run {f : Nat → Exec α} {r : α} {n : Nat}
    (mono : ∀ fuel, n ≤ fuel → f n = .ok r → f fuel = .ok r)
    (run : f n = .ok r) : Yields f r := ⟨n, fun fuel enough => mono fuel (Nat.le_of_lt enough) run⟩

/-- There is fuel for it. -/
theorem Yields.run {f : Nat → Exec α} {r : α} (h : Yields f r) : ∃ fuel, f fuel = .ok r :=
  h.imp' Nat.succ fun n results => results (n + 1) (Nat.lt_succ_self n)

/-- Results in sequence. -/
theorem Yields.bind {f : Nat → Exec α} {g : α → Nat → Exec β} {a : α} {b : β} (h : Yields f a)
    (h' : Yields (g a) b) : Yields (fun fuel => f fuel >>= fun x => g x fuel) b := by
  obtain ⟨n, first⟩ := h
  obtain ⟨m, second⟩ := h'
  refine ⟨max n m, fun fuel enough => bind_ok_iff.mpr ⟨a, first fuel ?_, second fuel ?_⟩⟩ <;> omega

end Exec

section Rules

variable {σ ρ : Type} {body : σ → Exec (Pass σ ρ)}

/-- A round that leaves ends the loop, -/
theorem loop_succ_leave {fuel : Nat} {s : σ} {r : ρ} (h : body s = .ok (.leave r)) :
    loop body (fuel + 1) s = .ok r := by
  simp [loop, h]

/-- and one that goes on takes one unit of fuel. -/
theorem loop_succ_again {fuel : Nat} {s s' : σ} (h : body s = .ok (.again s')) :
    loop body (fuel + 1) s = loop body fuel s' := by
  simp [loop, h]

/-- Partial correctness: what the body preserves holds at the exit. -/
theorem loop_inv (Inv : σ → Prop) (Post : ρ → Prop)
    (again : ∀ s s', Inv s → body s = .ok (.again s') → Inv s')
    (leave : ∀ s r, Inv s → body s = .ok (.leave r) → Post r)
    {fuel : Nat} {s : σ} {r : ρ} (start : Inv s) (run : loop body fuel s = .ok r) : Post r := by
  induction fuel generalizing s with
  | zero => simp [loop] at run
  | succ fuel ih =>
      simp only [loop] at run
      split at run
      · cases run
      · rename_i s' round
        exact ih (again s s' start round) run
      · rename_i r' round
        cases run
        exact leave s _ start round

/-- Partial correctness with a log: the invariant knows what was recorded so far. -/
theorem loop_log {τ : Type} (log : σ → List τ) (Inv : σ → List τ → Prop) (Post : ρ → List τ → Prop)
    (again : ∀ s s' done, Inv s done → body s = .ok (.again s') → Inv s' (done ++ log s))
    (leave : ∀ s r done, Inv s done → body s = .ok (.leave r) → Post r (done ++ log s))
    {fuel : Nat} {s : σ} {r : ρ} {done : List τ} (start : Inv s done)
    (run : loop body fuel s = .ok r) : Post r (done ++ loopLog body log fuel s) := by
  induction fuel generalizing s done with
  | zero => simp [loop] at run
  | succ fuel ih =>
      simp only [loop] at run
      simp only [loopLog]
      split at run
      · cases run
      · rename_i s' round
        rw [round, ← List.append_assoc]
        exact ih (again s s' done start round) run
      · rename_i r' round
        cases run
        rw [round, List.append_nil]
        exact leave s _ done start round

/-- Total correctness: the invariant carries a bound on the rounds still to
come, which drops on every round. -/
theorem loop_total (Inv : Nat → σ → Prop) (Post : ρ → Prop)
    (round : ∀ n s, Inv n s → (∃ r, body s = .ok (.leave r) ∧ Post r) ∨
      ∃ m s', m < n ∧ body s = .ok (.again s') ∧ Inv m s')
    {n fuel : Nat} {s : σ} (start : Inv n s) (enough : n < fuel) :
    ∃ r, loop body fuel s = .ok r ∧ Post r := by
  induction fuel generalizing n s with
  | zero => omega
  | succ fuel ih =>
      rcases round n s start with ⟨r, leaves, post⟩ | ⟨m, s', drops, goes, inv⟩
      · exact ⟨r, loop_succ_leave leaves, post⟩
      · rw [loop_succ_again goes]
        exact ih inv (by omega)

/-- A result found with some fuel is found with more. -/
theorem loop_mono {fuel more : Nat} {s : σ} {r : ρ} (le : fuel ≤ more)
    (run : loop body fuel s = .ok r) : loop body more s = .ok r := by
  induction fuel generalizing more s with
  | zero => simp [loop] at run
  | succ fuel ih =>
      obtain ⟨more, rfl⟩ : ∃ n, more = n + 1 := ⟨more - 1, by omega⟩
      simp only [loop] at run ⊢
      split at run
      · cases run
      · exact ih (by omega) run
      · exact run

/-- A body that goes round again from every state of an invariant never leaves. -/
theorem loop_never (Inv : σ → Prop) (again : ∀ s, Inv s → ∃ s', body s = .ok (.again s') ∧ Inv s')
    {s : σ} (start : Inv s) (fuel : Nat) : loop body fuel s = .error .fuel := by
  induction fuel generalizing s with
  | zero => rfl
  | succ fuel ih =>
      obtain ⟨s', round, inv⟩ := again s start
      rw [loop_succ_again round, ih inv]

/-- A body that reproduces its own state never leaves. -/
theorem loop_stuck {s : σ} (h : body s = .ok (.again s)) (fuel : Nat) :
    loop body fuel s = .error .fuel :=
  loop_never (· = s) (fun _ e => ⟨s, e ▸ h, rfl⟩) rfl fuel

end Rules

end SoTp.Lib
