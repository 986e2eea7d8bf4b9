/-
The keyboard and standard input together. A key goes through the driver, and what the driver writes
is what the pipe of standard input gets; Ctrl+C is an operation of the kernel. Layouts are set by a
system call.

* `typed` — the bytes of a history, each from what was held when its key was pressed.
* `stored_typed` — in every run, standard input got the bytes of the history.
* `typed_stream` — a reader gets them in order, each once, as long as each key finds a free place.
-/

import SoTp.Keyboard.Driver
import SoTp.Pipes.Streams

namespace SoTp.Keyboard

open SoTp.Pipes

def Output.byte : Output → Option UInt8
  | .writeStdin c => some c
  | .killCurrentProcessInForeground => none

/-- The byte of a key behind a history. -/
def byteOf (history : List Input) : Input → Option UInt8
  | .scan code =>
      (meaning (layoutOf history) (shifted history) (held CTRL history) code).bind Output.byte
  | .setLayout _ => none

/-- The bytes of a history, in order. -/
def typed (history : List Input) : List UInt8 :=
  (List.range history.length).filterMap fun n => history[n]?.bind (byteOf (history.take n))

/-- One input adds the byte it stands for. -/
theorem typed_append (history : List Input) (i : Input) :
    typed (history ++ [i]) = typed history ++ (byteOf history i).toList := by
  unfold typed
  rw [List.length_append, List.length_singleton, List.range_succ, List.filterMap_append]
  have last :
      (history ++ [i])[history.length]?.bind (byteOf ((history ++ [i]).take history.length)) =
      byteOf history i := by simp
  congr 1
  · refine List.filterMap_congr fun n mem => ?_
    have lt : n < history.length := List.mem_range.mp mem
    rw [List.getElem?_append_left lt, List.take_append_of_le_length (Nat.le_of_lt lt)]
  · simp only [List.filterMap_cons, List.filterMap_nil, last]
    cases byteOf history i <;> rfl

/-- Whatever is typed is text or the end of file. -/
theorem typed_text {history : List Input} {b : UInt8} (mem : b ∈ typed history) : b = EOF ∨
    Text b := by
  obtain ⟨n, -, here⟩ := List.mem_filterMap.mp mem
  obtain ⟨i, -, byte⟩ := Option.bind_eq_some_iff.mp here
  cases i with
  | setLayout => cases byte
  | scan code =>
      obtain ⟨output, means, eq⟩ := Option.bind_eq_some_iff.mp byte
      cases output with
      | killCurrentProcessInForeground => cases eq
      | writeStdin c =>
          cases eq
          exact meaning_text means

section Pipe

variable {std : Bool} {admits : PipeSys → Event → Prop} {s s' : PipeSys} {event : Event}

/-- Whoever is in a call, it is a call of this kind of pipe. -/
theorem on_kind (reach : PipeReach std admits s) : ∀ p f, s.inside p = some f → f.call.On std := by
  induction reach with
  | start start =>
      obtain ⟨k, garbage, -, -, rfl⟩ := start
      exact fun _ _ none => nomatch none
  | @step s _ event _ _ trans ih =>
      have updated : ∀ g : Option Frame, (∀ f, g = some f → f.call.On std) → ∀ p f,
          Function.update s.inside s.kernel.currentPCB g p = some f → f.call.On std := by
        intro g on p f here
        rcases update_some.mp here with ⟨-, eq⟩ | ⟨-, eq⟩
        · exact on f eq
        · exact ih p f eq
      cases trans.stepped with
      | other _ _ _ => exact ih
      | enter _ on _ => exact updated _ fun f eq => (Option.some.inj eq) ▸ on
      | @operation f _ _ _ here _ _ =>
          refine updated _ fun g next => ?_
          rw [Frame.next_call next]
          exact ih _ f here
      | @transfer call _ here =>
          have on := ih _ _ here
          cases call with
          | readPipe | writePipe | readStdin =>
              exact updated _ fun g eq => (Option.some.inj eq) ▸ on
      | key _ _ _ => exact ih

/-- Nothing but the keys goes to standard input. -/
theorem stored_kept (reach : PipeReach true admits s) (trans : PipeTrans true s event s')
    (apart : ∀ c, event ≠ .key c) : s'.stored = s.stored := by
  cases trans.stepped with
  | other _ _ _ => rfl
  | enter _ _ _ => rfl
  | operation _ _ _ => rfl
  | @transfer call _ here =>
      have on := on_kind reach _ _ here
      cases call with
      | readPipe => cases on
      | writePipe => cases on
      | readStdin => rfl
  | @key c _ _ _ _ => exact absurd rfl (apart c)

/-- A key is stored behind what was stored before. -/
theorem stored_key {c : UInt8} (trans : PipeTrans true s (.key c) s') :
    s'.stored = s.stored ++ [c] := by
  cases trans.stepped with
  | key _ _ _ => rfl

end Pipe

/-- The keyboard driver, the history that it has seen, and the pipe of standard input. -/
structure Terminal where
  driver : Driver
  history : List Input
  stdin : PipeSys

namespace Terminal

/-- The states that admitted steps lead to. -/
inductive Reach (admits : PipeSys → Event → Prop) : Terminal → Prop
  | start {s : PipeSys} (start : PipeStart s) : Reach admits ⟨.initial, [], s⟩
  /-- A key that has no output. -/
  | silent {t : Terminal} (before : Reach admits t) (code : UInt8)
      (none : (t.driver.readKeyToBuffer code).2 = none) :
      Reach admits
        { t with driver := t.driver.step (.scan code), history := t.history ++ [.scan code] }
  | written {t : Terminal} {s : PipeSys} (before : Reach admits t) (code c : UInt8)
      (output : (t.driver.readKeyToBuffer code).2 = some (.writeStdin c))
      (ok : admits t.stdin (.key c))
      (trans : PipeTrans true t.stdin (.key c) s) :
      Reach admits ⟨t.driver.step (.scan code), t.history ++ [.scan code], s⟩
  | killed {t : Terminal} {s : PipeSys} (before : Reach admits t) (code : UInt8)
      (output : (t.driver.readKeyToBuffer code).2 = some .killCurrentProcessInForeground)
      (ok : admits t.stdin (.other .ctrlC)) (trans : PipeTrans true t.stdin (.other .ctrlC) s) :
      Reach admits ⟨t.driver.step (.scan code), t.history ++ [.scan code], s⟩
  | layout {t : Terminal} (before : Reach admits t) (kbLayout : KbLayout) :
      Reach admits { t with
        driver := t.driver.step (.setLayout kbLayout), history :=
          t.history ++ [.setLayout kbLayout] }
  /-- What the kernel and the processes do without the keyboard. -/
  | other {t : Terminal} {s : PipeSys} {event : Event} (before : Reach admits t)
      (apart : ∀ c, event ≠ .key c) (ctrlC : event ≠ .other .ctrlC) (ok : admits t.stdin event)
      (trans : PipeTrans true t.stdin event s) : Reach admits { t with stdin := s }

section Reach

variable {admits : PipeSys → Event → Prop} {t : Terminal} {s s' : PipeSys} {event : Event}
    {std : Bool}

/-- The pipe makes a run of its own. -/
theorem Reach.pipe (reach : Reach admits t) : PipeReach true admits t.stdin := by
  induction reach with
  | start start => exact .start start
  | silent _ _ _ ih => exact ih
  | written _ _ _ _ ok trans ih => exact ih.step ok trans
  | killed _ _ _ ok trans ih => exact ih.step ok trans
  | layout _ _ ih => exact ih
  | other _ _ _ ok trans ih => exact ih.step ok trans

/-- The driver is in the state that the history decides. -/
theorem Reach.driver (reach : Reach admits t) : t.driver = .after t.history := by
  induction reach with
  | start => rfl
  | silent _ code _ ih => rw [after_append, ← ih]
  | written _ code _ _ _ _ ih => rw [after_append, ← ih]
  | killed _ code _ _ _ ih => rw [after_append, ← ih]
  | layout _ kbLayout ih => rw [after_append, ← ih]
  | other _ _ _ _ _ ih => exact ih

/-- Standard input got the bytes of the history, whatever was done in between. -/
theorem Reach.stored (reach : Reach admits t) : t.stdin.stored = typed t.history := by
  -- What the driver has for a key is what the key means.
  have means : ∀ {t : Terminal} (_ : Reach admits t) (code : UInt8), byteOf t.history (.scan code) =
      (t.driver.readKeyToBuffer code).2.bind Output.byte := by
    intro t reach code
    rw [reach.driver, key_means]
    rfl
  induction reach with
  | start start =>
      obtain ⟨k, garbage, -, -, rfl⟩ := start
      rfl
  | silent before code none ih =>
      rw [typed_append, means before, none, ← ih]
      exact (List.append_nil _).symm
  | written before code c output ok trans ih =>
      rw [typed_append, means before, output, ← ih]
      exact stored_key trans
  | killed before code output ok trans ih =>
      rw [typed_append, means before, output, ← ih, stored_kept before.pipe trans fun _ eq =>
        nomatch eq]
      exact (List.append_nil _).symm
  | layout before kbLayout ih =>
      rw [typed_append, ← ih]
      exact (List.append_nil _).symm
  | other before apart ctrlC ok trans ih =>
      rw [stored_kept before.pipe trans apart]
      exact ih

theorem Reach.perform {check : PipeSys → Event → Prop} [∀ s e, Decidable (check s e)] {fuel : Nat}
    {events : List Event}
    (reach : Reach check t) (quiet : ∀ event ∈ events, (∀ c, event ≠ .key c) ∧
      event ≠ .other .ctrlC)
    (run : t.stdin.perform true check fuel events = some s) :
      Reach check { t with stdin := s } := by
  refine PipeSys.perform_induct (P := fun s => Reach check { t with stdin := s }) reach ?_ run
  intro event mem s s' ok trans before
  exact before.other (quiet event mem).1 (quiet event mem).2 ok trans

end Reach

end Terminal

/-- Shift is held for one key, and released before a reader comes. -/
theorem shift_read : ∃ t :
    Terminal, Terminal.Reach (fun s event => s.KeyRoom event ∧ s.OneReader 4 event) t ∧
    t.history = [.scan LEFT_SHIFT, .scan 0x1E, .scan (LEFT_SHIFT + 0x80)] ∧
      t.stdin.returned = [0x41] := by
  have ran : (newPipe.perform true (fun s event => s.KeyRoom event ∧ s.OneReader 4 event) 2
      (.key 0x41 :: reads 1 1)).map PipeSys.returned = some [0x41] := by decide +kernel
  obtain ⟨s, run, returned⟩ := Option.map_eq_some_iff.mp ran
  rw [PipeSys.perform, List.foldlM_cons] at run
  obtain ⟨written, ran, rest⟩ := Option.bind_eq_some_iff.mp run
  split_ifs at ran with ok
  have shift : Terminal.Reach (fun s event => s.KeyRoom event ∧ s.OneReader 4 event) _ :=
    (Terminal.Reach.start newPipe_start).silent LEFT_SHIFT rfl
  have key := (shift.written 0x1E 0x41 rfl ok ⟨2, ran⟩).silent (LEFT_SHIFT + 0x80) rfl
  have quiet : ∀ event ∈ reads 1 1, (∀ c, event ≠ .key c) ∧ event ≠ .other .ctrlC := by
    simp [reads]
  exact ⟨_, key.perform quiet rest, rfl, returned⟩

/-- In every run, standard input holds text and ends of file: no key writes the byte that ends a
string. -/
theorem stored_text {admits : PipeSys → Event → Prop} {t : Terminal}
    (reach : Terminal.Reach admits t) : ∀ b ∈ t.stdin.stored, b ≠ 0 ∧ (b = EOF ∨ Text b) := by
  intro b mem
  rw [reach.stored] at mem
  have text := typed_text mem
  refine ⟨fun zero => ?_, text⟩
  rw [zero] at text
  exact absurd text (by decide)

theorem stored_text_shift : ∃ t : Terminal, t.stdin.returned = [0x41] ∧
    ∀ b ∈ t.stdin.stored, b ≠ 0 ∧ (b = EOF ∨ Text b) := by
  obtain ⟨t, reach, -, returned⟩ := shift_read
  exact ⟨t, returned, stored_text reach⟩

/-- In every run in which each key finds a free place, a reader gets the bytes of the keys in order,
each once: what they mean depends on what was held when they were pressed, not on when they are
read. -/
theorem typed_stream {reader : Nat} {t : Terminal}
    (reach : Terminal.Reach (fun s event => s.KeyRoom event ∧ s.OneReader reader event) t) :
    t.stdin.returned <+: typed t.history := by
  obtain ⟨U, v⟩ : ∃ U, PipeInv true False t.stdin U :=
    reach.pipe.inv (fun _ _ _ ok => ok.1) fun h => h.elim
  have reading := reach.pipe.reading fun _ _ ok => ok.2
  rw [← reach.stored]
  refine List.IsPrefix.trans ?_ v.buffer.front
  rw [reading.taken]
  exact List.prefix_append _ _

theorem typed_stream_shift : ∃ t :
    Terminal, t.history = [.scan LEFT_SHIFT, .scan 0x1E, .scan (LEFT_SHIFT + 0x80)] ∧
    t.stdin.returned = [0x41] ∧ t.stdin.returned <+: typed t.history := by
  obtain ⟨t, reach, history, returned⟩ := shift_read
  exact ⟨t, history, returned, typed_stream reach⟩

end SoTp.Keyboard
