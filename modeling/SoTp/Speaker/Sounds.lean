/-
The PC speaker (`Kernel/c/pcSpeaker.c`). `playSoundForCertainMs` is a syscall: it pushes
a sound to an array and posts a semaphore, all at once. `speakerProcess` is preempted at
any point; between two of its calls anything may be played.

The sounds are in a block of the global heap, which is replaced when the array is full.
What lies outside of the present block is not the array's: a read there gives whatever
that memory holds.

* `Player.run_inv` — one statement of `speakerProcess`.
* `Player.play_inv` — a sound that is played at the right moment.
* `queued_sounds_played` — when the sounds that are started are those that were pushed.
-/

import Mathlib.Algebra.Ring.Nat
import Mathlib.Data.List.Basic
import Mathlib.Tactic.Common

namespace SoTp.Speaker

def MAX_MEMORY_AVAILABLE : Nat := 2 ^ 20 * 64

structure Sound where
  freq : Nat
  ms : Nat
deriving DecidableEq

/-- `sizeof(Sound)`. -/
def Sound.size : Nat := 8

/-- An address in the array: the block, counted by how often it was replaced, and an index. -/
structure Pointer where
  block : Nat
  index : Nat
deriving DecidableEq

/-- The statement `speakerProcess` has come to. `sound` is what `Array_get` returned. -/
inductive At where
  | waits
  /-- In the queue of the semaphore. -/
  | blocked
  | gets
  | starts (sound : Option Pointer)
  | sleeps (sound : Option Pointer) (freq : Nat)
  | tests
  | clears
  | resets
deriving DecidableEq

/-- The semaphore, the array and the variables of `speakerProcess`. `pushed` and
`started` are the sounds that were pushed and started so far; the code does not have
them. -/
structure Player where
  value : Nat
  sounds : List Sound
  capacity : Nat
  block : Nat
  i : Nat
  at_ : At
  pushed : List Sound
  started : List Sound

/-- `initializeSpeaker`. -/
def initializeSpeaker : Player where
  value := 0
  sounds := []
  capacity := 500
  block := 0
  i := 0
  at_ := .waits
  pushed := []
  started := []

namespace Player

/-! ### The array -/

/-- Whether `growBy(a, a->capacity)` gets a new block. `room` is what the heap says. -/
def Grows (s : Player) (room : Bool) : Prop :=
  room = true ∧ (s.capacity + s.capacity) * Sound.size < MAX_MEMORY_AVAILABLE

instance (s : Player) (room : Bool) : Decidable (s.Grows room) := by unfold Grows; infer_instance

def growBy (s : Player) (room : Bool) : Player :=
  if s.Grows room then { s with capacity := s.capacity + s.capacity, block := s.block + 1 } else s

/-- `Array_push`, which does not look at what `growBy` answers. -/
def push (s : Player) (sound : Sound) (room : Bool) : Player :=
  let s := if s.sounds.length ≥ s.capacity then s.growBy room else s
  { s with sounds := s.sounds ++ [sound], pushed := s.pushed ++ [sound] }

/-- `Array_get`. -/
def get (s : Player) (idx : Nat) : Option Pointer :=
  if idx ≥ s.sounds.length then none else some ⟨s.block, idx⟩

/-- What a pointer points to, where `junk` is what memory holds outside of the array. -/
def read (s : Player) (junk : Sound) : Option Pointer → Sound
  | some p => if p.block = s.block ∧ p.index < s.capacity then s.sounds.getD p.index junk else junk
  | none => junk

/-! ### The two sides -/

def postSemaphore (s : Player) : Player :=
  if s.at_ = .blocked then { s with at_ := .gets } else { s with value := (s.value + 1) % 2 ^ 32 }

def playSoundForCertainMs (s : Player) (nFrequence ms : Nat) (room : Bool) : Player :=
  if ms ≤ 0 ∨ nFrequence = 0 then s else (s.push ⟨nFrequence, ms⟩ room).postSemaphore

/-- The next statement of `speakerProcess`. -/
def speakerProcess (s : Player) (junk : Sound) : Player :=
  match s.at_ with
  | .waits =>
      if s.value > 0 then { s with value := s.value - 1, at_ := .gets }
        else { s with at_ := .blocked }
  | .blocked => s
  | .gets => { s with at_ := .starts (s.get s.i), i := (s.i + 1) % 2 ^ 32 }
  | .starts sound => { s with at_ := .sleeps sound (s.read junk sound).freq }
  | .sleeps sound freq =>
      { s with at_ := .tests, started := s.started ++ [⟨freq, (s.read junk sound).ms⟩] }
  | .tests => if s.i = s.sounds.length then { s with at_ := .clears } else { s with at_ := .waits }
  | .clears => { s with sounds := [], at_ := .resets }
  | .resets => { s with i := 0, at_ := .waits }

end Player

/-- A sound is played, or `speakerProcess` goes on by one statement. -/
inductive Act where
  | play (nFrequence ms : Nat) (room : Bool)
  | run (junk : Sound)

def Act.step (s : Player) : Act → Player
  | .play nFrequence ms room => s.playSoundForCertainMs nFrequence ms room
  | .run junk => s.speakerProcess junk

/-- The players of a run, from `initializeSpeaker` on, with every act admitted. -/
inductive Played (admits : Player → Act → Prop) : Player → Prop
  | start : Played admits initializeSpeaker
  | act {s : Player} (before : Played admits s) (act : Act) (admitted : admits s act) :
      Played admits (act.step s)

/-- `Array_get` has returned NULL. -/
def Player.GotNull (s : Player) : Prop :=
  s.at_ = .starts none ∨ ∃ freq, s.at_ = .sleeps none freq

/-- `speakerProcess` holds a pointer into the array that it still reads. -/
def Player.Holds (s : Player) : Prop :=
  (∃ sound, s.at_ = .starts sound) ∨ ∃ sound freq, s.at_ = .sleeps sound freq

/-- A sound is not pushed between the test that all have been played and the clearing of
the array, and when the array is full it grows, under no pointer that is still read. -/
def Timely (s : Player) : Act → Prop
  | .run _ => True
  | .play nFrequence ms room => 0 < nFrequence → 0 < ms →
      s.at_ ≠ .clears ∧ (s.sounds.length ≥ s.capacity → s.Grows room ∧ ¬ s.Holds)

/-! ### The queue -/

/-- How far `speakerProcess` has come in `sounds`, of which `n` have been waited for and
`started` have been started. -/
def Player.Placed (s : Player) (started : List Sound) : Prop :=
  match s.at_ with
  | .waits => s.value + s.i = s.sounds.length ∧ started = s.sounds.take s.i
  | .blocked => s.value = 0 ∧ s.i = s.sounds.length ∧ started = s.sounds.take s.i
  | .gets => s.value + s.i + 1 = s.sounds.length ∧ started = s.sounds.take s.i
  | .starts sound => ∃ idx, s.i = idx + 1 ∧ sound = some ⟨s.block, idx⟩ ∧
      s.value + s.i = s.sounds.length ∧ started = s.sounds.take idx
  | .sleeps sound freq => ∃ idx, s.i = idx + 1 ∧ sound = some ⟨s.block, idx⟩ ∧
      s.value + s.i = s.sounds.length ∧ started = s.sounds.take idx ∧
      ∃ h : idx < s.sounds.length, freq = s.sounds[idx].freq
  | .tests => s.value + s.i = s.sounds.length ∧ started = s.sounds.take s.i
  | .clears => s.value = 0 ∧ s.i = s.sounds.length ∧ started = s.sounds
  | .resets => s.value = s.sounds.length ∧ started = []

/-- The sounds of `cleared` have been played and taken out of the array. -/
structure Player.Inv (s : Player) : Prop where
  queue : ∃ cleared started, s.pushed = cleared ++ s.sounds ∧ s.started = cleared ++ started ∧
    s.Placed started
  fits : s.sounds.length ≤ s.capacity
  roomy : 0 < s.capacity
  bound : s.capacity * Sound.size < MAX_MEMORY_AVAILABLE

namespace Player

section Inv

variable {s : Player}

theorem start_inv : initializeSpeaker.Inv where
  queue := ⟨[], [], rfl, rfl, rfl, rfl⟩
  fits := Nat.zero_le _
  roomy := by decide
  bound := by decide

theorem Inv.length_lt (v : s.Inv) : s.sounds.length + 1 < 2 ^ 32 := by
  have fits := v.fits
  have bound := v.bound
  unfold Sound.size MAX_MEMORY_AVAILABLE at bound
  omega

/-- A pointer into the present block reads the sound it was made for. -/
theorem Inv.read (v : s.Inv) (junk : Sound) {idx : Nat} (h : idx < s.sounds.length) :
    s.read junk (some ⟨s.block, idx⟩) = s.sounds[idx] := by
  have fits := v.fits
  have inside : idx < s.capacity := by omega
  simp [Player.read, inside, h]

/-- One statement of `speakerProcess`. -/
theorem run_inv (junk : Sound) (v : s.Inv) : (s.speakerProcess junk).Inv := by
  have small := v.length_lt
  have read : ∀ {idx} (h : idx < s.sounds.length), s.read junk (some ⟨s.block, idx⟩) =
      s.sounds[idx] :=
    v.read junk
  obtain ⟨⟨cleared, started, pushed, started_eq, placed⟩, fits, roomy, bound⟩ := v
  unfold Placed at placed
  unfold speakerProcess
  cases at_ : s.at_ <;> simp only [at_] at placed ⊢
  case waits =>
    obtain ⟨count, rfl⟩ := placed
    split_ifs with more
    · exact ⟨⟨cleared, _, pushed, started_eq, by simp only; omega, rfl⟩, fits, roomy, bound⟩
    · exact ⟨⟨cleared, _, pushed, started_eq, by simp only; omega, by simp only; omega, rfl⟩, fits,
        roomy, bound⟩
  case blocked =>
    refine ⟨⟨cleared, started, pushed, started_eq, ?_⟩, fits, roomy, bound⟩
    unfold Placed
    rw [at_]
    exact placed
  case gets =>
    obtain ⟨count, rfl⟩ := placed
    have wrap : (s.i + 1) % 2 ^ 32 = s.i + 1 := Nat.mod_eq_of_lt (by omega)
    rw [wrap, get, if_neg (by omega)]
    exact ⟨⟨cleared, _, pushed, started_eq, s.i, rfl, rfl, by simp only; omega, rfl⟩, fits,
      roomy, bound⟩
  case starts sound =>
    obtain ⟨idx, i, rfl, count, rfl⟩ := placed
    have h : idx < s.sounds.length := by omega
    rw [read h]
    exact ⟨⟨cleared, _, pushed, started_eq, idx, i, rfl, count, rfl, h, rfl⟩, fits, roomy, bound⟩
  case sleeps sound freq =>
    obtain ⟨idx, i, rfl, count, rfl, h, rfl⟩ := placed
    rw [read h]
    refine ⟨⟨cleared, s.sounds.take (idx + 1), pushed, ?_, count, by rw [i]⟩, fits, roomy, bound⟩
    rw [List.take_succ_eq_append_getElem h, ← List.append_assoc, ← started_eq]
  case tests =>
    obtain ⟨count, rfl⟩ := placed
    split_ifs with all
    · refine ⟨⟨cleared, _, pushed, started_eq, by simp only; omega, all, ?_⟩, fits, roomy, bound⟩
      simp only [all, List.take_length]
    · exact ⟨⟨cleared, _, pushed, started_eq, count, rfl⟩, fits, roomy, bound⟩
  case clears =>
    obtain ⟨none, all, rfl⟩ := placed
    refine ⟨⟨cleared ++ s.sounds, [], ?_, ?_, none, rfl⟩, Nat.zero_le _, roomy, bound⟩
    · simpa using pushed
    · simpa using started_eq
  case resets =>
    obtain ⟨count, rfl⟩ := placed
    exact ⟨⟨cleared, [], pushed, started_eq, by simpa using count, rfl⟩, fits, roomy, bound⟩

/-- The array is replaced when nobody reads the old one. -/
theorem growBy_inv {room : Bool} (v : s.Inv) (grows : s.Grows room) (free : ¬ s.Holds) :
    (s.growBy room).Inv := by
  obtain ⟨⟨cleared, started, pushed, started_eq, placed⟩, fits, roomy, bound⟩ := v
  rw [growBy, if_pos grows]
  refine ⟨⟨cleared, started, pushed, started_eq, ?_⟩, by simp only; omega, by simp only; omega,
    grows.2⟩
  unfold Placed at placed ⊢
  cases at_ : s.at_ <;> simp only [at_] at placed ⊢
  case starts sound => exact absurd (Or.inl ⟨sound, at_⟩) free
  case sleeps sound freq => exact absurd (Or.inr ⟨sound, freq, at_⟩) free
  all_goals exact placed

/-- A sound that there is space for is pushed and posted. -/
theorem pushed_inv (v : s.Inv) (space : s.sounds.length < s.capacity) (open_ : s.at_ ≠ .clears)
    (sound : Sound) :
    Inv
      (postSemaphore { s with sounds := s.sounds ++ [sound], pushed := s.pushed ++ [sound] }) := by
  have small := v.length_lt
  obtain ⟨⟨cleared, started, pushed, started_eq, placed⟩, fits, roomy, bound⟩ := v
  have take : ∀ {i}, i ≤ s.sounds.length → (s.sounds ++ [sound]).take i = s.sounds.take i :=
    fun le => List.take_append_of_le_length le
  have more : s.pushed ++ [sound] = cleared ++ (s.sounds ++ [sound]) := by
    rw [pushed, List.append_assoc]
  have length : (s.sounds ++ [sound]).length = s.sounds.length + 1 := List.length_append
  have fits' : (s.sounds ++ [sound]).length ≤ s.capacity := by
    rw [length]
    exact space
  unfold Placed at placed
  unfold postSemaphore
  cases at_ : s.at_ <;> simp only [at_, if_true, if_false, reduceCtorEq] at placed ⊢
  case blocked =>
    obtain ⟨none, all, rfl⟩ := placed
    exact ⟨⟨cleared, _, more, started_eq, by simp only; omega, (take (by omega)).symm⟩, fits',
      roomy, bound⟩
  all_goals
    have wrap : (s.value + 1) % 2 ^ 32 = s.value + 1 := Nat.mod_eq_of_lt (by omega)
    refine ⟨⟨cleared, started, more, started_eq, ?_⟩, fits', roomy, bound⟩
    simp only [Placed, wrap]
  case waits =>
    obtain ⟨count, rfl⟩ := placed
    exact ⟨by omega, (take (by omega)).symm⟩
  case gets =>
    obtain ⟨count, rfl⟩ := placed
    exact ⟨by omega, (take (by omega)).symm⟩
  case starts p =>
    obtain ⟨idx, i, rfl, count, rfl⟩ := placed
    exact ⟨idx, i, rfl, by omega, (take (by omega)).symm⟩
  case sleeps p freq =>
    obtain ⟨idx, i, rfl, count, rfl, h, rfl⟩ := placed
    exact ⟨idx, i, rfl, by omega,
      (take (by omega)).symm, by omega, by rw [List.getElem_append_left h]⟩
  case tests =>
    obtain ⟨count, rfl⟩ := placed
    exact ⟨by omega, (take (by omega)).symm⟩
  case clears => exact absurd at_ open_
  case resets =>
    obtain ⟨count, rfl⟩ := placed
    exact ⟨by omega, rfl⟩

/-- A sound that is played in time. -/
theorem play_inv {nFrequence ms : Nat} {room : Bool} (v : s.Inv)
    (timely : Timely s (.play nFrequence ms room)) :
      (s.playSoundForCertainMs nFrequence ms room).Inv := by
  unfold playSoundForCertainMs
  split_ifs with silent
  · exact v
  · obtain ⟨open_, grow⟩ := timely (by omega) (by omega)
    unfold push
    split_ifs with full
    · obtain ⟨grows, free⟩ := grow full
      have grown := growBy_inv v grows free
      refine pushed_inv grown ?_ ?_ _
      · have roomy := v.roomy
        have fits := v.fits
        rw [growBy, if_pos grows]
        simp only
        omega
      · rw [growBy, if_pos grows]
        exact open_
    · exact pushed_inv v (by omega) open_ _

/-- Runs of timely acts keep the queue. -/
theorem Played.inv (run : Played Timely s) : s.Inv := by
  induction run with
  | start => exact start_inv
  | act before act timely ih =>
      cases act with
      | play nFrequence ms room => exact play_inv ih timely
      | run junk => exact run_inv junk ih

end Inv

end Player

/-- Every run in which no sound is pushed between the test and the clearing, and the full
array can grow and does so under no pointer, plays what was pushed: the sounds that are
started are a prefix of those that were pushed, and `Array_get` never returns NULL. -/
theorem queued_sounds_played {s : Player} (run : Played Timely s) : s.started <+: s.pushed ∧
    ¬ s.GotNull := by
  obtain ⟨⟨cleared, started, pushed, started_eq, placed⟩, -⟩ := Player.Played.inv run
  unfold Player.Placed at placed
  refine ⟨?_, ?_⟩
  · rw [pushed, started_eq, List.prefix_append_right_inj]
    cases at_ : s.at_ <;> simp only [at_] at placed
    case clears => exact placed.2.2 ▸ List.prefix_rfl
    case resets => rw [placed.2]; exact List.nil_prefix
    case starts => obtain ⟨_, -, -, -, rfl⟩ := placed; exact List.take_prefix _ _
    case sleeps => obtain ⟨_, -, -, -, rfl, -⟩ := placed; exact List.take_prefix _ _
    case blocked => rw [placed.2.2]; exact List.take_prefix _ _
    all_goals rw [placed.2]; exact List.take_prefix _ _
  · rintro (at_ | ⟨freq, at_⟩) <;> simp only [at_] at placed
    · obtain ⟨_, -, null, -⟩ := placed
      cases null
    · obtain ⟨_, -, null, -⟩ := placed
      cases null

/-- Two sounds are queued, and a third one while the first is about to start. -/
theorem queued_sounds_played_two : ∃ s : Player, s.started = [⟨440, 10⟩, ⟨220, 5⟩] ∧
    s.pushed = [⟨440, 10⟩, ⟨220, 5⟩, ⟨880, 1⟩] ∧ s.started <+: s.pushed := by
  have play : ∀ {s : Player} (freq ms : Nat), Played Timely s → s.at_ ≠ .clears →
      s.sounds.length < s.capacity →
      Played Timely (s.playSoundForCertainMs freq ms true) := fun freq ms run apart room =>
    .act run (.play freq ms true) fun _ _ =>
      ⟨apart, fun full => absurd full (Nat.not_le_of_lt room)⟩
  have goesOn : ∀ {s : Player}, Played Timely s → Played Timely (s.speakerProcess ⟨0, 0⟩) :=
    fun run => .act run (.run ⟨0, 0⟩) trivial
  have queued := play 220 5 (play 440 10 .start (by decide) (by decide)) (by decide) (by decide)
  have begun := play 880 1 (goesOn (goesOn (goesOn queued))) (by decide) (by decide)
  have played := goesOn (goesOn (goesOn (goesOn (goesOn (goesOn begun)))))
  exact ⟨_, by decide, by decide, (queued_sounds_played played).1⟩

/-- A sound that is pushed between the test and the clearing is lost, and what is started
in its place is what lies at NULL. -/
theorem late_push_lost : ¬ ∀ s, Played (fun _ _ => True) s → s.started <+: s.pushed ∧
    ¬ s.GotNull := by
  intro all
  have play : ∀ {s : Player}, Played (fun _ _ => True) s →
      Played (fun _ _ => True) (s.playSoundForCertainMs 440 10 true) :=
    fun run => .act run (.play 440 10 true) trivial
  have goesOn : ∀ {s : Player}, Played (fun _ _ => True) s →
      Played (fun _ _ => True) (s.speakerProcess ⟨0, 0⟩) :=
        fun run => .act run (.run ⟨0, 0⟩) trivial
  have tested := goesOn (goesOn (goesOn (goesOn (goesOn (play .start)))))
  have lost := goesOn (goesOn (goesOn (goesOn (goesOn (goesOn (play tested))))))
  exact absurd (all _ lost).1 (by decide)

end SoTp.Speaker
