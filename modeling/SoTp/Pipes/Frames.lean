/-
The processes inside a pipe. A unit of one of the two counting semaphores is worth a
byte, or a free place, to the process that got it; `U` says which processes have got
a unit and not used it yet, dead or alive.

`Frames` is what holds of the frames, the states and the queues, and each theorem
here is about one kind of kernel step:

* `Frames.other` — a step that is about neither counting semaphore.
* `Frames.wait` — the running process waits for a unit.
* `Frames.post` — a unit is posted.
* `Frames.leave`, `Frames.move`, `Frames.proceed` — the running process goes on, the
  kernel does not.
-/

import SoTp.Pipes.Basic
import SoTp.Process.Units

namespace SoTp.Pipes

open SoTp.Lib SoTp.Process Kernel

/-- A frame that is past its first wait and has not touched the buffer. -/
def Frame.Pending (f : Frame) : Prop := f.phase = .waitMutex ∨ f.phase = .transfer

structure Frames (std : Bool) (exact : Prop) (sem : Bool → Nat) (k : Kernel)
    (inside : Nat → Option Frame) (U : Bool → Finset Nat) : Prop where
  known : ∀ p f, inside p = some f → p < k.unused
  on : ∀ p f, inside p = some f → f.call.On std
  /-- Who is not running was left at its first wait. -/
  running : ∀ p f, inside p = some f → f.phase ≠ .waitMutex → p = k.currentPCB
  asleep : ∀ p f, inside p = some f → Waiting (k.stateOf p) → ∀ slot, p ∈ k.entries slot →
    slot = .queue (sem f.call.writes)
  queued : ∀ w, ∀ p ∈ k.queueOf (sem w), ∃ f, inside p = some f ∧ f.call.writes = w ∧
    f.phase = .waitMutex
  /-- Whoever can go on to the buffer has a unit. -/
  holders : ∀ p f, inside p = some f →
    f.phase = .waitMutex ∧ Active (k.stateOf p) ∨ f.phase = .transfer → p ∈ U f.call.writes
  units : ∀ w, ∀ p ∈ U w, ∃ f, inside p = some f ∧ f.call.writes = w ∧ f.Pending ∧
    ¬ Waiting (k.stateOf p)
  /-- In runs that kill nobody who has a unit, no unit is lost. -/
  alive : exact → ∀ w, ∀ p ∈ U w, k.stateOf p ≠ .exited

section Frames

variable {std : Bool} {exact : Prop} {sem : Bool → Nat} {k k' : Kernel}
  {inside : Nat → Option Frame} {U : Bool → Finset Nat} {op : Op}

/-- A process that an operation wakes inside the pipe was in a queue it is about. -/
theorem Frames.was_active (fr : Frames std exact sem k inside U) (i : Inv False k)
    (e : Effect False k op k') {p : Nat} {f : Frame} (here : inside p = some f)
    (away : p ∈ k.queueOf (sem f.call.writes) → ¬ k.Touches op (.sem (sem f.call.writes)))
    (active : Active (k'.stateOf p)) : Active (k.stateOf p) := by
  refine ⟨fun w => e.not_woken i w (fun slot hp => ?_) active, fun dead => ?_⟩
  · obtain rfl := fr.asleep p f here w slot hp
    exact ⟨_, rfl, away hp⟩
  · exact active.2 (e.moves.dead p (fr.known p f here) dead)

/-- Who begins to wait is the running process, and nobody else gets recorded. -/
theorem Frames.still_asleep (fr : Frames std exact sem k inside U) (i : Inv False k)
    (e : Effect False k op k') {p : Nat} {f : Frame} (here : inside p = some f)
    (other : p ≠ k.currentPCB) (w : Waiting (k'.stateOf p)) {slot : Slot}
    (hp : p ∈ k'.entries slot) : slot = .queue (sem f.call.writes) :=
  fr.asleep p f here ((e.waits w).resolve_right other) slot (e.kept i other hp)

/-- An operation that is about neither counting semaphore and does not move the running
process, if that is inside. -/
theorem Frames.other (fr : Frames std exact sem k inside U) (i : Inv False k)
    (e : Effect False k op k') (apart : ∀ w, ¬ k.Touches op (.sem (sem w)))
    (here : ∀ f, inside k.currentPCB = some f →
      k'.currentPCB = k.currentPCB ∧ k'.stateOf k.currentPCB = k.stateOf k.currentPCB)
    (spares : exact → ∀ p f, inside p = some f → Active (k.stateOf p) → ¬ k.Touches op (.proc p)) :
    Frames std exact sem k' inside U where
  known p f h := Nat.lt_of_lt_of_le (fr.known p f h) e.moves.unused
  on := fr.on
  running p f h phase := by
    obtain rfl := fr.running p f h phase
    exact (here f h).1.symm
  asleep p f h w slot hp := by
    by_cases own : p = k.currentPCB
    · subst own
      rw [(here f h).2] at w
      exact absurd w i.current.active.1
    · exact fr.still_asleep i e h own w hp
  queued w p hp := fr.queued w p ((e.quiet_sem i (apart w)).1.queue ▸ hp)
  holders p f h can := by
    refine fr.holders p f h (can.imp (fun ⟨phase, active⟩ => ⟨phase, ?_⟩) id)
    exact fr.was_active i e h (fun _ => apart _) active
  units w p hp := by
    obtain ⟨f, h, writes, pending, active⟩ := fr.units w p hp
    refine ⟨f, h, writes, pending, fun waits => ?_⟩
    by_cases own : p = k.currentPCB
    · subst own
      rw [(here f h).2] at waits
      exact active waits
    · exact active ((e.waits waits).resolve_right own)
  alive ex w p hp := by
    obtain ⟨f, h, -, -, active⟩ := fr.units w p hp
    have alive := fr.alive ex w p hp
    by_cases own : p = k.currentPCB
    · subst own
      rwa [(here f h).2]
    · exact (e.spared own (spares ex p f h ⟨active, alive⟩) ⟨active, alive⟩).2

theorem Frames.away (fr : Frames std exact sem k inside U) {p : Nat} {f : Frame}
    (h : inside p = some f) (other : p ≠ k.currentPCB) : f.phase = .waitMutex := by
  by_contra far
  exact other (fr.running p f h far)

theorem sem_inj (distinct : sem true ≠ sem false) {v w : Bool} (e : sem v = sem w) : v = w := by
  cases v <;> cases w <;> first | rfl | exact absurd e distinct | exact absurd e.symm distinct

theorem update_some {c q : Nat} {g : Option Frame} {f : Frame} :
    Function.update inside c g q = some f ↔ q = c ∧ g = some f ∨ q ≠ c ∧ inside q = some f := by
  rw [Function.update_apply]
  split_ifs with own <;> simp [own]

/-- A process among the holders of one more unit. -/
theorem mem_update_insert {w v : Bool} {p q : Nat} :
    q ∈ Function.update U w (insert p (U w)) v ↔ q ∈ U v ∨ v = w ∧ q = p := by
  rw [Function.update_apply]
  split_ifs with e
  · subst e
    simp only [Finset.mem_insert, true_and]
    tauto
  · simp [e]

theorem Frames.unheld (fr : Frames std exact sem k inside U) {p : Nat}
    (idle : ∀ f, inside p = some f → ¬ f.Pending) (v : Bool) : p ∉ U v := fun mem => by
  obtain ⟨f, h, -, pending, -⟩ := fr.units v p mem
  exact idle f h pending

/-- The running process waits for a unit: it gets one, or falls asleep. -/
theorem Frames.wait {f : Frame} {node : Bool} (fr : Frames std exact sem k inside U)
    (i : Inv False k)
    (distinct : sem true ≠ sem false) (h : inside k.currentPCB = some f)
    (phase : f.phase = .waitCount) (e : Effect False k (.waitSemaphore (sem f.call.writes) node) k')
    (w : Waited (sem f.call.writes) node k k') :
    ∃ U', Frames std exact sem k'
        (Function.update inside k.currentPCB (some ⟨f.call, .waitMutex⟩)) U' ∧
      k'.valueOf (sem f.call.writes) + (U' f.call.writes).card =
        k.valueOf (sem f.call.writes) + (U f.call.writes).card ∧
      U' (!f.call.writes) = U (!f.call.writes) := by
  have frame : ∀ q g, Function.update inside k.currentPCB (some ⟨f.call, .waitMutex⟩) q = some g →
      q = k.currentPCB ∧ g = ⟨f.call, .waitMutex⟩ ∨ q ≠ k.currentPCB ∧ inside q = some g :=
    fun q g hq => (update_some.mp hq).imp_left fun ⟨own, e⟩ => ⟨own, (Option.some.inj e).symm⟩
  have unheld : ∀ v, k.currentPCB ∉ U v := fr.unheld fun g hg pending => by
    rw [h] at hg
    cases hg
    rcases pending with far | far <;> rw [phase] at far <;> cases far
  have queue_other : ∀ v, v ≠ f.call.writes → k'.queueOf (sem v) = k.queueOf (sem v) := fun v ne =>
    (e.quiet_sem i fun about => ne (sem_inj distinct about)).1.queue
  have known : ∀ q g, Function.update inside k.currentPCB (some ⟨f.call, .waitMutex⟩) q = some g →
      q < k'.unused := fun q g hq => by
    refine Nat.lt_of_lt_of_le ?_ e.moves.unused
    rcases frame q g hq with ⟨rfl, -⟩ | ⟨-, hq⟩
    · exact fr.known _ f h
    · exact fr.known q g hq
  have on : ∀ q g, Function.update inside k.currentPCB (some ⟨f.call, .waitMutex⟩) q = some g →
      g.call.On std := fun q g hq => by
    rcases frame q g hq with ⟨-, rfl⟩ | ⟨-, hq⟩
    · exact fr.on _ f h
    · exact fr.on q g hq
  have running : ∀ q g, Function.update inside k.currentPCB (some ⟨f.call, .waitMutex⟩) q = some g →
      g.phase ≠ .waitMutex → q = k'.currentPCB := fun q g hq far => by
    rcases frame q g hq with ⟨-, rfl⟩ | ⟨other, hq⟩
    · exact absurd rfl far
    · exact absurd (fr.away hq other) far
  have self : Function.update inside k.currentPCB (some ⟨f.call, .waitMutex⟩) k.currentPCB =
      some ⟨f.call, .waitMutex⟩ := Function.update_self _ _ _
  cases w with
  | taken unit value queue live states current =>
      refine ⟨Function.update U f.call.writes (insert k.currentPCB (U f.call.writes)),
        ⟨known, on, running, fun q g hq waits slot mem => ?_, fun v q hq => ?_,
          fun q g hq can => ?_, fun v q hq => ?_, fun ex v q hq => ?_⟩, ?_, ?_⟩
      · rcases frame q g hq with ⟨rfl, -⟩ | ⟨other, hq⟩
        · rw [states] at waits
          exact absurd waits i.current.active.1
        · exact fr.still_asleep i e hq other waits mem
      · have same : k'.queueOf (sem v) = k.queueOf (sem v) := by
          by_cases own : v = f.call.writes
          · exact own ▸ queue
          · exact queue_other v own
        obtain ⟨g, hg, writes, far⟩ := fr.queued v q (same ▸ hq)
        have other : q ≠ k.currentPCB := fun e => by
          rw [e, h] at hg
          cases hg
          rw [phase] at far
          cases far
        exact ⟨g, by rw [Function.update_of_ne other, hg], writes, far⟩
      · rw [mem_update_insert]
        rcases frame q g hq with ⟨rfl, rfl⟩ | ⟨-, hq⟩
        · exact Or.inr ⟨rfl, rfl⟩
        · rw [states] at can
          exact Or.inl (fr.holders q g hq can)
      · rw [states]
        rcases mem_update_insert.mp hq with old | ⟨rfl, rfl⟩
        · obtain ⟨g, hg, rest⟩ := fr.units v q old
          have other : q ≠ k.currentPCB := fun e => unheld v (e ▸ old)
          exact ⟨g, by rw [Function.update_of_ne other, hg], rest⟩
        · exact ⟨_, self, rfl, Or.inl rfl, i.current.active.1⟩
      · rw [states]
        rcases mem_update_insert.mp hq with old | ⟨-, rfl⟩
        · exact fr.alive ex v q old
        · exact i.current.active.2
      · rw [Function.update_self, Finset.card_insert_of_notMem (unheld _), value]
        omega
      · exact Function.update_of_ne (by simp) _ _
  | queued none value queue live blocked recorded others =>
      have active : ∀ q, q ≠ k.currentPCB → (Active (k'.stateOf q) ↔ Active (k.stateOf q)) := by
        intro q other
        rcases others q other with same | ⟨before, after⟩
        · rw [same]
        · exact ⟨fun _ => before.active, fun _ => after.active⟩
      refine ⟨U, ⟨known, on, running, fun q g hq waits slot mem => ?_, fun v q hq => ?_,
          fun q g hq can => ?_, fun v q hq => ?_, fun ex v q hq => ?_⟩, by rw [value, none], rfl⟩
      · rcases frame q g hq with ⟨rfl, rfl⟩ | ⟨other, hq⟩
        · exact recorded slot mem
        · exact fr.still_asleep i e hq other waits mem
      · by_cases own : q = k.currentPCB
        · subst own
          refine ⟨_, self, ?_, rfl⟩
          by_contra ne
          rw [queue_other v (Ne.symm ne)] at hq
          exact i.current_unrecorded i.current (.queue (sem v)) hq
        · have old : q ∈ k.queueOf (sem v) :=
            e.kept i own (show q ∈ k'.entries (.queue (sem v)) from hq)
          obtain ⟨g, hg, rest⟩ := fr.queued v q old
          exact ⟨g, by rw [Function.update_of_ne own, hg], rest⟩
      · rcases frame q g hq with ⟨rfl, rfl⟩ | ⟨other, hq⟩
        · rcases can with ⟨-, active⟩ | far
          · rw [blocked] at active
            exact absurd (Or.inl rfl) active.1
          · cases far
        · rw [active q other] at can
          exact fr.holders q g hq can
      · obtain ⟨g, hg, writes, pending, quiet⟩ := fr.units v q hq
        have other : q ≠ k.currentPCB := fun e => unheld v (e ▸ hq)
        refine ⟨g, by rw [Function.update_of_ne other, hg], writes, pending, fun waits => ?_⟩
        exact quiet ((e.waits waits).resolve_right other)
      · have other : q ≠ k.currentPCB := fun e => unheld v (e ▸ hq)
        obtain ⟨-, -, -, -, quiet⟩ := fr.units v q hq
        exact ((active q other).mpr ⟨quiet, fr.alive ex v q hq⟩).2

/-- A unit is posted: it goes to a waiter, or to the value. -/
theorem Frames.post {w : Bool} (fr : Frames std exact sem k inside U) (i : Inv False k)
    (e : Effect False k (.postSemaphore (sem w)) k')
    (p : Posted False (sem w) k k') (bound : k.valueOf (sem w) + 1 < 2 ^ 32) :
    ∃ U', Frames std exact sem k' inside U' ∧
      k'.valueOf (sem w) + (U' w).card = k.valueOf (sem w) + (U w).card + 1 ∧ U' (!w) = U (!w) := by
  have current : k'.currentPCB = k.currentPCB := p.edits.ring.currentPCB
  have here := p.calm.here i.current
  have sub : ∀ v q, q ∈ k'.queueOf (sem v) → q ∈ k.queueOf (sem v) := fun v q hq => by
    by_cases own : q = k.currentPCB
    · have awake : Awake (k'.stateOf k'.currentPCB) := by rw [current, here]; exact i.current
      exact absurd (own ▸ hq) (current ▸ p.edits.mid.current_unrecorded awake (.queue (sem v)))
    · exact e.kept i own (show q ∈ k'.entries (.queue (sem v)) from hq)
  have running : ∀ q f, inside q = some f → f.phase ≠ .waitMutex → q = k'.currentPCB :=
    fun q f h far => (fr.running q f h far).trans current.symm
  have asleep : ∀ q f, inside q = some f → Waiting (k'.stateOf q) → ∀ slot, q ∈ k'.entries slot →
      slot = .queue (sem f.call.writes) := fun q f h waits slot mem => by
    by_cases own : q = k.currentPCB
    · subst own
      rw [here] at waits
      exact absurd waits i.current.active.1
    · exact fr.still_asleep i e h own waits mem
  have units : ∀ v, ∀ q ∈ U v, ∃ f, inside q = some f ∧ f.call.writes = v ∧ f.Pending ∧
      ¬ Waiting (k'.stateOf q) := fun v q hq => by
    obtain ⟨f, h, writes, pending, quiet⟩ := fr.units v q hq
    refine ⟨f, h, writes, pending, ?_⟩
    rwa [p.calm q quiet]
  have alive : exact → ∀ v, ∀ q ∈ U v, k'.stateOf q ≠ .exited := fun ex v q hq => by
    obtain ⟨-, -, -, -, quiet⟩ := fr.units v q hq
    rw [p.calm q quiet]
    exact fr.alive ex v q hq
  have known : ∀ q f, inside q = some f → q < k'.unused := fun q f h =>
    Nat.lt_of_lt_of_le (fr.known q f h) e.moves.unused
  have queued : ∀ v, ∀ q ∈ k'.queueOf (sem v), ∃ f, inside q = some f ∧ f.call.writes = v ∧
      f.phase = .waitMutex := fun v q hq => fr.queued v q (sub v q hq)
  -- Who was in the queue and is active now was woken by the post.
  have woken : ∀ q f, inside q = some f → f.phase = .waitMutex → Active (k'.stateOf q) →
      Active (k.stateOf q) ∨ q ∈ k.queueOf (sem w) ∧ k.stateOf q = .blocked ∧
        f.call.writes = w := by
    intro q f h _ active
    by_cases member : q ∈ k.queueOf (sem w)
    · obtain ⟨g, hg, writes, -⟩ := fr.queued w q member
      rw [h] at hg
      cases hg
      rcases i.records.waits (.queue (sem w)) q member with (b | killed) | ⟨-, dead⟩
      · exact Or.inr ⟨member, b, writes⟩
      · rcases e.moves.killed q (fr.known q f h) killed with same | dead
        · exact absurd (Or.inr same) active.1
        · exact absurd dead active.2
      · exact absurd (e.moves.dead q (fr.known q f h) dead) active.2
    · refine Or.inl (fr.was_active i e h (fun mem about => member ?_) active)
      rwa [show sem f.call.writes = sem w from about] at mem
  rcases p.unit with ⟨killed, r, rest, queue, spent, blocked, ready, left, value⟩ | ⟨spent,
    left, value⟩
  · obtain ⟨g, hg, writes, far⟩ := fr.queued w r (by rw [queue]; simp)
    have fresh : r ∉ U w := fun mem => by
      obtain ⟨-, -, -, -, quiet⟩ := fr.units w r mem
      exact quiet (Or.inl blocked)
    have awake : Active (k'.stateOf r) := by rw [ready]; simp [Active, Waiting]
    refine ⟨Function.update U w (insert r (U w)), ⟨known, fr.on, running, asleep, queued,
      fun q f h can => ?_, fun v q hq => ?_, fun ex v q hq => ?_⟩, ?_, ?_⟩
    · rw [mem_update_insert]
      rcases can with ⟨phase, active⟩ | far
      · rcases woken q f h phase active with old | ⟨member, b, writes⟩
        · exact Or.inl (fr.holders q f h (Or.inl ⟨phase, old⟩))
        · rw [queue, List.mem_append, List.mem_cons] at member
          rcases member with member | rfl | member
          · exact absurd b (spent q member)
          · exact Or.inr ⟨writes, rfl⟩
          · rw [p.kept q (left ▸ member)] at active
            exact absurd (Or.inl b) active.1
      · exact Or.inl (fr.holders q f h (Or.inr far))
    · rcases mem_update_insert.mp hq with old | ⟨rfl, rfl⟩
      · exact units v q old
      · exact ⟨g, hg, writes, Or.inl far, awake.1⟩
    · rcases mem_update_insert.mp hq with old | ⟨-, rfl⟩
      · exact alive ex v q old
      · exact awake.2
    · rw [Function.update_self, Finset.card_insert_of_notMem fresh, value]
      omega
    · exact Function.update_of_ne (by simp) _ _
  · refine ⟨U, ⟨known, fr.on, running, asleep, queued, fun q f h can => ?_, units, alive⟩, ?_, rfl⟩
    · rcases can with ⟨phase, active⟩ | far
      · rcases woken q f h phase active with old | ⟨member, b, -⟩
        · exact fr.holders q f h (Or.inl ⟨phase, old⟩)
        · exact absurd b (spent q member)
      · exact fr.holders q f h (Or.inr far)
    · rw [value, Nat.mod_eq_of_lt bound]
      omega

/-- The running process goes on to a statement where it has no unit. -/
theorem Frames.leave {g : Option Frame} (fr : Frames std exact sem k inside U) (i : Inv False k)
    (next : ∀ f, g = some f → f.call.On std ∧ ¬ f.Pending) :
    Frames std exact sem k (Function.update inside k.currentPCB g)
      fun v => (U v).erase k.currentPCB := by
  have frame : ∀ q f, Function.update inside k.currentPCB g q = some f →
      q = k.currentPCB ∧ f.call.On std ∧ ¬ f.Pending ∨ q ≠ k.currentPCB ∧ inside q = some f :=
    fun q f hq => (update_some.mp hq).imp_left fun ⟨own, e⟩ => ⟨own, next f e⟩
  refine ⟨fun q f hq => ?_, fun q f hq => ?_, fun q f hq far => ?_, fun q f hq waits slot mem => ?_,
    fun v q hq => ?_, fun q f hq can => ?_, fun v q hq => ?_,
    fun ex v q hq => fr.alive ex v q (Finset.mem_of_mem_erase hq)⟩
  · rcases frame q f hq with ⟨rfl, -⟩ | ⟨-, hq⟩
    · exact i.current_lt
    · exact fr.known q f hq
  · rcases frame q f hq with ⟨-, on, -⟩ | ⟨-, hq⟩
    · exact on
    · exact fr.on q f hq
  · rcases frame q f hq with ⟨own, -⟩ | ⟨-, hq⟩
    · exact own
    · exact fr.running q f hq far
  · rcases frame q f hq with ⟨rfl, -⟩ | ⟨-, hq⟩
    · exact absurd waits i.current.active.1
    · exact fr.asleep q f hq waits slot mem
  · have other : q ≠ k.currentPCB := fun e =>
      i.current_unrecorded i.current (.queue (sem v)) (e ▸ hq)
    rw [Function.update_of_ne other]
    exact fr.queued v q hq
  · rcases frame q f hq with ⟨-, -, done⟩ | ⟨other, hq⟩
    · exact absurd (can.imp And.left id) done
    · exact Finset.mem_erase.mpr ⟨other, fr.holders q f hq can⟩
  · obtain ⟨other, hq⟩ := Finset.mem_erase.mp hq
    rw [Function.update_of_ne other]
    exact fr.units v q hq

/-- The running process goes on from one statement where it has no unit to another. -/
theorem Frames.move {g : Option Frame} (fr : Frames std exact sem k inside U) (i : Inv False k)
    (idle : ∀ f, inside k.currentPCB = some f → ¬ f.Pending)
    (next : ∀ f, g = some f → f.call.On std ∧ ¬ f.Pending) :
    Frames std exact sem k (Function.update inside k.currentPCB g) U := by
  have same : (fun v => (U v).erase k.currentPCB) = U :=
    funext fun v => Finset.erase_eq_of_notMem (fr.unheld idle v)
  exact same ▸ fr.leave i next

/-- The running process has its unit and gets the mutex. -/
theorem Frames.proceed {f : Frame} (fr : Frames std exact sem k inside U) (i : Inv False k)
    (h : inside k.currentPCB = some f) (phase : f.phase = .waitMutex) :
    Frames std exact sem k
      (Function.update inside k.currentPCB (some ⟨f.call, .transfer⟩)) U := by
  have frame : ∀ q g, Function.update inside k.currentPCB (some ⟨f.call, .transfer⟩) q = some g →
      q = k.currentPCB ∧ g = ⟨f.call, .transfer⟩ ∨ q ≠ k.currentPCB ∧ inside q = some g :=
    fun q g hq => (update_some.mp hq).imp_left fun ⟨own, e⟩ => ⟨own, (Option.some.inj e).symm⟩
  refine ⟨fun q g hq => ?_, fun q g hq => ?_, fun q g hq far => ?_, fun q g hq waits slot mem => ?_,
    fun v q hq => ?_, fun q g hq can => ?_, fun v q hq => ?_, fr.alive⟩
  · rcases frame q g hq with ⟨rfl, -⟩ | ⟨-, hq⟩
    · exact fr.known _ f h
    · exact fr.known q g hq
  · rcases frame q g hq with ⟨-, rfl⟩ | ⟨-, hq⟩
    · exact fr.on _ f h
    · exact fr.on q g hq
  · rcases frame q g hq with ⟨own, -⟩ | ⟨-, hq⟩
    · exact own
    · exact fr.running q g hq far
  · rcases frame q g hq with ⟨rfl, -⟩ | ⟨-, hq⟩
    · exact absurd waits i.current.active.1
    · exact fr.asleep q g hq waits slot mem
  · have other : q ≠ k.currentPCB := fun e =>
      i.current_unrecorded i.current (.queue (sem v)) (e ▸ hq)
    rw [Function.update_of_ne other]
    exact fr.queued v q hq
  · rcases frame q g hq with ⟨rfl, rfl⟩ | ⟨-, hq⟩
    · exact fr.holders _ f h (Or.inl ⟨phase, i.current.active⟩)
    · exact fr.holders q g hq can
  · obtain ⟨g, hg, writes, pending, quiet⟩ := fr.units v q hq
    by_cases own : q = k.currentPCB
    · subst own
      rw [h] at hg
      cases hg
      exact ⟨_, Function.update_self _ _ _, writes, Or.inr rfl, quiet⟩
    · exact ⟨g, by rw [Function.update_of_ne own, hg], writes, pending, quiet⟩

end Frames

end SoTp.Pipes
