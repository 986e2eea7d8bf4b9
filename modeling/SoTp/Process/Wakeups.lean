/-
The loops that take processes out of the queue of a semaphore: `postSemaphore` and
`destroySemaphore`.

* `postSemaphore_spec` — a post wakes the first process of the queue that is
  still BLOCKED, and counts itself when there is none.
* `destroySemaphore_spec` — the end of a semaphore keeps the invariant.
* `postSemaphore_total` — with strict records every post returns.
-/

import SoTp.Process.Release

namespace SoTp.Process

open SoTp.Lib Kernel

namespace Kernel

def valueOf (k : Kernel) (semId : Nat) : Nat := (k.semArray[semId]?.map Semaphore.value).getD 0

/-- The semaphore exists and was not destroyed. -/
def Live (k : Kernel) (semId : Nat) : Prop :=
  k.semArray[semId]?.map Semaphore.destroyed = some false

theorem Live.getElem? {k : Kernel} {semId : Nat} (live : k.Live semId) :
    ∃ sem, k.semArray[semId]? = some sem ∧ sem.destroyed = false :=
  Option.map_eq_some_iff.mp live

end Kernel

/-! ### One wake-up -/

/-- `p` was at the head of the queue and is out of it now. -/
structure Released (strict : Prop) (semId p : Nat) (k k' : Kernel) : Prop where
  edits : Edits strict (· = .sem semId) k k'
  calm : Calm k k'
  queue : k.queueOf semId = p :: k'.queueOf semId
  value : k'.valueOf semId = k.valueOf semId
  live : k'.Live semId ↔ k.Live semId
  /-- Who is still in the queue was not touched. -/
  kept : ∀ q ∈ k'.queueOf semId, k'.stateOf q = k.stateOf q

section Release

variable {strict : Prop} {k k₁ : Kernel} {semId p : Nat}

theorem fifoUnqueue_sem (taken : k.fifoUnqueue semId = some (p, k₁)) :
    k₁.valueOf semId = k.valueOf semId ∧ (k₁.Live semId ↔ k.Live semId) := by
  obtain ⟨sem, queue, found, -, rfl⟩ := fifoUnqueue_some taken
  unfold valueOf Live
  rw [updateSem_getElem?, if_pos rfl, found]
  exact ⟨rfl, Iff.rfl⟩

theorem sem_congr {k' : Kernel} (same : k'.semArray[semId]? = k.semArray[semId]?) :
    k'.valueOf semId = k.valueOf semId ∧ (k'.Live semId ↔ k.Live semId) := by
  unfold valueOf Live
  rw [same]
  exact ⟨rfl, Iff.rfl⟩

theorem release_ready (m : Mid strict k) (taken : k.fifoUnqueue semId = some (p, k₁))
    (blocked : k.stateOf p = .blocked) : Released strict semId p k (k₁.setState p .ready) := by
  have r := fifoUnqueue_removed m taken
  obtain ⟨value, live⟩ := fifoUnqueue_sem taken
  obtain ⟨edits, calm⟩ := r.ready (· = .sem semId) m blocked fun s e => by
    cases e
    rfl
  refine ⟨edits, calm, (fifoUnqueue_queueOf taken).trans rfl, value, live, fun q hq => ?_⟩
  have ne : q ≠ p := fun e => r.unrecorded m (.queue semId) (e ▸ hq)
  rw [stateOf_setState_ne ne, r.stateOf]

theorem release_exits {fuel : Nat} {out : Outcome} (m : Mid strict k)
    (current : Awake (k.stateOf k.currentPCB)) (taken : k.fifoUnqueue semId = some (p, k₁))
    (killed : k.stateOf p = .waitingForExit)
    (run : exitProcessByPCB fuel p KILL_EXIT_CODE k₁ = .ok out) :
    out.left = false ∧ Released strict semId p k out.kernel := by
  have r := fifoUnqueue_removed m taken
  have b : Bystanders k₁ := (r.mid m).bystanders (by rwa [r.stateOf, r.ring.currentPCB])
  have killed₁ : k₁.stateOf p = .waitingForExit := by rw [r.stateOf, killed]
  obtain ⟨left, exits⟩ := exitProcessByPCB_spec b (by rw [killed₁]; simp)
    (by rw [killed₁]; simp) run
  obtain ⟨edits, calm⟩ := r.exits (· = .sem semId) m exits killed fun s e => by
    cases e
    rfl
  obtain ⟨value, live⟩ := fifoUnqueue_sem taken
  have same : out.kernel.semArray[semId]? = k₁.semArray[semId]? := by rw [exits.semArray]
  obtain ⟨value', live'⟩ := sem_congr same
  refine ⟨left.trans (b p killed₁), edits, calm, ?_, value'.trans value, live'.trans live,
    fun q hq => ?_⟩
  · rw [fifoUnqueue_queueOf taken, exits.queueOf]
  · have hq₁ : q ∈ k₁.queueOf semId := exits.queueOf semId ▸ hq
    have ne : q ≠ p := fun e => r.unrecorded m (.queue semId) (e ▸ hq₁)
    rw [exits.recorded (r.mid m).records (show q ∈ out.kernel.entries (.queue semId) from hq) ne,
      r.stateOf]

theorem release_drop (m : Mid strict k) (taken : k.fifoUnqueue semId = some (p, k₁))
    (spent : ¬ Waiting (k.stateOf p)) : Released strict semId p k k₁ := by
  have r := fifoUnqueue_removed m taken
  obtain ⟨value, live⟩ := fifoUnqueue_sem taken
  obtain ⟨edits, calm⟩ := r.drop (· = .sem semId) m spent fun s e => by
    cases e
    rfl
  exact ⟨edits, calm, fifoUnqueue_queueOf taken, value, live, fun q _ => by rw [r.stateOf]⟩

/-- The queue after the processes of `passed` were released. -/
structure Passed (strict : Prop) (semId : Nat) (start : Kernel) (passed : List Nat) (k : Kernel) :
    Prop where
  edits : Edits strict (· = .sem semId) start k
  calm : Calm start k
  queue : start.queueOf semId = passed ++ k.queueOf semId
  value : k.valueOf semId = start.valueOf semId
  live : k.Live semId ↔ start.Live semId
  kept : ∀ q ∈ k.queueOf semId, k.stateOf q = start.stateOf q

theorem Passed.refl (m : Mid strict k) : Passed strict semId k [] k :=
  ⟨Edits.refl m, Calm.refl k, rfl, rfl, Iff.rfl, fun _ _ => rfl⟩

theorem Passed.next {start : Kernel} {passed : List Nat} {k' : Kernel}
    (h : Passed strict semId start passed k) (r : Released strict semId p k k') :
    Passed strict semId start (passed ++ [p]) k' where
  edits := h.edits.trans r.edits
  calm := h.calm.trans r.calm
  queue := by
    rw [h.queue, r.queue, List.append_assoc]
    rfl
  value := r.value.trans h.value
  live := r.live.trans h.live
  kept q hq := (r.kept q hq).trans (h.kept q (by rw [r.queue]; exact List.mem_cons_of_mem p hq))

/-- The current process keeps running. -/
theorem Passed.current {start : Kernel} {passed : List Nat} (h : Passed strict semId start passed k)
    (current : Awake (start.stateOf start.currentPCB)) : Awake (k.stateOf k.currentPCB) := by
  rw [h.edits.ring.currentPCB, h.calm]
  · exact current
  · rintro (w | w) <;> simp [w, Awake] at current

end Release

/-! ### postSemaphore -/

section Post

variable {strict : Prop} {k k' : Kernel} {semId : Nat}

/-- A change of a semaphore's value, or the end of one whose queue is empty. -/
theorem updateSem_edits {f : Semaphore → Semaphore} {freed : List Nat} (m : Mid strict k)
    (queue : ∀ sem, (f sem).queue = sem.queue)
    (ids : Ids { k.updateSem semId f with freedPositions := freed }) :
    Edits strict (· = .sem semId) k { k.updateSem semId f with freedPositions := freed } ∧
      ∀ s, { k.updateSem semId f with freedPositions := freed }.queueOf s = k.queueOf s := by
  have queues : ∀ s, (k.updateSem semId f).queueOf s = k.queueOf s := fun s => by
    unfold queueOf
    rw [updateSem_getElem?]
    split_ifs
    · cases k.semArray[s]? with
      | none => rfl
      | some sem => simp [queue]
    · rfl
  have entries : { k.updateSem semId f with freedPositions := freed }.entries = k.entries := by
    funext slot
    cases slot with
    | queue s => exact queues s
    | sleep => exact sleepers_congr rfl rfl rfl
    | table r => rfl
  have ring : SameRing k { k.updateSem semId f with freedPositions := freed } :=
    ⟨rfl, rfl, rfl, rfl, rfl, Nat.le_refl _, fun _ => rfl⟩
  refine ⟨⟨⟨ring, fun _ => Or.inl rfl, fun _ => Or.inl, fun s ne => ?_, fun q _ slot hq =>
    entries ▸ hq,
    fun _ _ _ _ => Or.inl rfl, fun _ _ _ active => active.2, ?_⟩, fun c q _ w => ?_⟩, queues⟩
  · exact (updateSem_getElem? (f := f)).trans (if_neg fun e => ne (by rw [e]))
  · refine m.of_states ring (fun _ => Or.inl rfl) (m.family_congr ring rfl fun _ => rfl)
      (m.records.shrink (Nat.le_refl _) (fun s => by rw [entries]) (fun s q hq => ?_) ?_) ids
    · exact m.records.waits s q (entries ▸ hq)
    · obtain ⟨cells, l⟩ := m.records.sleepList
      exact ⟨cells, l.congr rfl (Nat.le_refl _) rfl⟩
  · rw [entries]
    exact c q not_false w

theorem Ids.updateSem {f : Semaphore → Semaphore} (i : Ids k)
    (queue : ∀ sem, (f sem).queue = sem.queue)
    (destroyed : ∀ sem, (f sem).destroyed = sem.destroyed) : Ids (k.updateSem semId f) := by
  refine ⟨fun s sem hs gone => ?_, fun s hs => ?_, i.nodup⟩
  · rw [updateSem_getElem?] at hs
    split_ifs at hs
    · obtain ⟨sem', hs', rfl⟩ := Option.map_eq_some_iff.mp hs
      rw [queue]
      exact i.closed s sem' hs' (destroyed sem' ▸ gone)
    · exact i.closed s sem hs gone
  · obtain ⟨sem, hs', gone⟩ := i.freed s hs
    rw [updateSem_getElem?, hs']
    split_ifs
    · exact ⟨f sem, rfl, by rw [destroyed, gone]⟩
    · exact ⟨sem, rfl, gone⟩

/-- A change of a semaphore's value. -/
theorem setValue_edits (semId : Nat) {f : Semaphore → Semaphore} (m : Mid strict k)
    (queue : ∀ sem, (f sem).queue = sem.queue)
    (destroyed : ∀ sem, (f sem).destroyed = sem.destroyed) :
    Edits strict (· = .sem semId) k (k.updateSem semId f) ∧
      ∀ s, (k.updateSem semId f).queueOf s = k.queueOf s :=
  have ids : Ids { k.updateSem semId f with freedPositions := k.freedPositions } :=
    m.ids.updateSem queue destroyed
  updateSem_edits m queue ids

/-- What a post has done. -/
structure Posted (strict : Prop) (semId : Nat) (k k' : Kernel) : Prop where
  edits : Edits strict (· = .sem semId) k k'
  calm : Calm k k'
  live : k'.Live semId ↔ k.Live semId
  kept : ∀ q ∈ k'.queueOf semId, k'.stateOf q = k.stateOf q
  unit :
      (∃ dead p rest, k.queueOf semId = dead ++ p :: rest ∧ (∀ d ∈ dead, k.stateOf d ≠ .blocked) ∧
      k.stateOf p = .blocked ∧ k'.stateOf p = .ready ∧ k'.queueOf semId = rest ∧
      k'.valueOf semId = k.valueOf semId) ∨
    (∀ d ∈ k.queueOf semId, k.stateOf d ≠ .blocked) ∧ k'.queueOf semId = [] ∧
      k'.valueOf semId = (k.valueOf semId + 1) % 2 ^ 32

theorem posted_value {passed : List Nat} {start : Kernel} (h : Passed strict semId start passed k)
    (live : start.Live semId) (spent : ∀ d ∈ passed, start.stateOf d ≠ .blocked)
    (empty : k.queueOf semId = []) : Posted strict semId start
      (k.updateSem semId fun sem => { sem with value := (sem.value + 1) % 2 ^ 32 }) := by
  obtain ⟨edits, queues⟩ :=
    setValue_edits semId (f :=
      fun sem => { sem with value := (sem.value + 1) % 2 ^ 32 }) h.edits.mid (fun _ => rfl)
    fun _ => rfl
  obtain ⟨sem, found, alive⟩ := (h.live.mpr live).getElem?
  have here : (k.updateSem semId fun sem => { sem with value := (sem.value + 1) % 2 ^ 32
      }).semArray[semId]? = some { sem with value := (sem.value + 1) % 2 ^ 32 } := by
    rw [updateSem_getElem?, if_pos rfl, found]
    rfl
  refine ⟨h.edits.trans edits, h.calm, ?_, fun q hq => ?_, Or.inr ⟨?_, ?_, ?_⟩⟩
  · rw [← h.live]
    unfold Live
    rw [here, found]
    rfl
  · rw [queues, empty] at hq
    cases hq
  · rw [h.queue, empty, List.append_nil]
    exact spent
  · rw [queues, empty]
  · rw [← h.value]
    unfold valueOf
    rw [here, found]
    rfl

/-- One round of `postSemaphore`. -/
theorem postRound_spec {fuel : Nat} {pass : Pass Kernel Outcome} (m : Mid strict k)
    (current : Awake (k.stateOf k.currentPCB)) (run : postRound fuel semId k = .ok pass) :
    (∃ p k', pass = .again k' ∧ Released strict semId p k k' ∧ k.stateOf p ≠ .blocked) ∨
      (∃ p k', pass = .leave ⟨k', false⟩ ∧ Released strict semId p k k' ∧ k.stateOf p = .blocked ∧
        k'.stateOf p = .ready) ∨
      k.queueOf semId = [] ∧ pass = .leave ⟨k.updateSem semId fun sem =>
        { sem with value := (sem.value + 1) % 2 ^ 32 }, false⟩ := by
  unfold postRound at run
  split at run
  · rename_i none
    cases run
    exact Or.inr (Or.inr ⟨fifoUnqueue_none.mp none, rfl⟩)
  · rename_i p k₁ taken
    have states := (fifoUnqueue_removed m taken).stateOf
    split_ifs at run with gone
    split at run
    · rename_i blocked
      rw [states] at blocked
      cases run
      exact Or.inr
        (Or.inl ⟨p, _, rfl, release_ready m taken blocked, blocked, stateOf_setState_self⟩)
    · rename_i killed
      rw [states] at killed
      obtain ⟨out, exited, rest⟩ := bind_ok_iff.mp run
      obtain ⟨left, r⟩ := release_exits m current taken killed exited
      rw [left] at rest
      cases rest
      exact Or.inl ⟨p, _, rfl, r, by rw [killed]; simp⟩
    · rename_i active killed
      rw [states] at active killed
      cases run
      refine Or.inl ⟨p, _, rfl, release_drop m taken ?_, active⟩
      rintro (w | w)
      · exact active w
      · exact killed w

/-- The loop of `postSemaphore`. -/
theorem postLoop_spec {fuel rounds : Nat} {out : Outcome} (m : Mid strict k)
    (current : Awake (k.stateOf k.currentPCB)) (live : k.Live semId)
    (run : loop (postRound fuel semId) rounds k = .ok out) :
    out.left = false ∧ Posted strict semId k out.kernel := by
  refine loop_inv (fun k' => ∃ passed, Passed strict semId k passed k' ∧
    ∀ d ∈ passed, k.stateOf d ≠ .blocked)
    (fun out => out.left = false ∧ Posted strict semId k out.kernel) ?_ ?_
    ⟨[], Passed.refl m, by simp⟩ run
  · rintro k₀ k' ⟨passed, h, spent⟩ round
    rcases postRound_spec h.edits.mid (h.current current) round with
      ⟨p, k₁, e, r, dead⟩ | ⟨p, k₁, e, -⟩ | ⟨-, e⟩ <;> cases e
    refine ⟨passed ++ [p], h.next r, fun d hd => ?_⟩
    rcases List.mem_append.mp hd with hd | hd
    · exact spent d hd
    · rw [List.mem_singleton.mp hd, ← h.kept p (by rw [r.queue]; simp)]
      exact dead
  · rintro k₀ out ⟨passed, h, spent⟩ round
    rcases postRound_spec h.edits.mid (h.current current) round with
      ⟨p, k₁, e, -⟩ | ⟨p, k₁, e, r, blocked, ready⟩ | ⟨empty, e⟩ <;> cases e
    · have h' := h.next r
      refine ⟨rfl, h'.edits, h'.calm, h'.live, h'.kept,
        Or.inl ⟨passed, p, _, ?_, spent, ?_, ready, rfl, h'.value⟩⟩
      · rw [h.queue, r.queue]
      · rw [← h.kept p (by rw [r.queue]; simp)]
        exact blocked
    · exact ⟨rfl, posted_value h live spent empty⟩

/-- A post, when it returns: the semaphore was dead and nothing has happened, or
it has handed out or counted one unit. -/
theorem postSemaphore_spec {fuel : Nat} {r : Kernel × Bool} (i : Inv strict k)
    (run : k.postSemaphore fuel semId = .ok r) :
    ¬ k.Live semId ∧ r.1 = k ∨ k.Live semId ∧ Posted strict semId k r.1 := by
  unfold postSemaphore at run
  split at run
  · rename_i none
    cases run
    exact Or.inl ⟨by simp [Live, none], rfl⟩
  · rename_i sem found
    split_ifs at run with dead
    · cases run
      exact Or.inl ⟨by simp [Live, found, dead], rfl⟩
    · have live : k.Live semId := by simpa [Live, found] using dead
      obtain ⟨out, looped, rest⟩ := bind_ok_iff.mp run
      obtain ⟨left, posted⟩ := postLoop_spec i.toMid i.current live looped
      unfold finish at rest
      rw [left] at rest
      cases rest
      exact Or.inr ⟨live, posted⟩

/-- With strict records, a process that is taken out of the queue can be finished off. -/
theorem Passed.exit_returns {fuel p : Nat} {passed : List Nat} {k' k₁ : Kernel} (i : Inv True k)
    (h : Passed True semId k passed k') (taken : k'.fifoUnqueue semId = some (p, k₁))
    (enough : k.unused < fuel) :
    k₁.allocated p = true ∧ ∃ out, exitProcessByPCB fuel p KILL_EXIT_CODE k₁ = .ok out := by
  obtain ⟨_, _, _, ring, _⟩ := i.ring
  have m := h.edits.mid
  have r := fifoUnqueue_removed m taken
  have alive : k₁.allocated p = true := r.ring.allocated ▸ m.recorded_allocated r.mem
  have awake : Awake (k₁.stateOf k₁.currentPCB) := by
    rw [r.stateOf, r.ring.currentPCB]
    exact h.current i.current
  exact ⟨alive, (r.mid m).exit_returns p KILL_EXIT_CODE awake
    (fun q hq => (ring.members q (h.edits.ring.allocated ▸ r.ring.allocated ▸ hq)).1) enough alive⟩

/-- With strict records every post returns. -/
theorem postSemaphore_total (i : Inv True k) (semId : Nat) :
    ∃ n, ∀ fuel, n < fuel → ∃ r, k.postSemaphore fuel semId = .ok r := by
  refine ⟨max k.unused (k.queueOf semId).length, fun fuel enough => ?_⟩
  unfold postSemaphore
  split
  · exact ⟨_, rfl⟩
  · split_ifs
    · exact ⟨_, rfl⟩
    · have round : ∀ n k', (k'.queueOf semId).length = n ∧
          (∃ passed, Passed True semId k passed k') →
          (∃ r, postRound fuel semId k' = .ok (.leave r) ∧ r.left = false) ∨ ∃ m s, m < n ∧
            postRound fuel semId k' = .ok (.again s) ∧ (s.queueOf semId).length = m ∧
              ∃ passed, Passed True semId k passed s := by
        rintro n k' ⟨rfl, passed, h⟩
        have m := h.edits.mid
        obtain ⟨pass, run⟩ : ∃ pass, postRound fuel semId k' = .ok pass := by
          unfold postRound
          split
          · exact ⟨_, rfl⟩
          · rename_i p k₁ taken
            obtain ⟨alive, out, exits⟩ := h.exit_returns i taken (show k.unused < fuel by omega)
            rw [if_neg (by simp [alive])]
            split
            · exact ⟨_, rfl⟩
            · rw [exits, ok_bind]
              split_ifs <;> exact ⟨_, rfl⟩
            · exact ⟨_, rfl⟩
        rcases postRound_spec m (h.current i.current) run with
          ⟨p, k₁, rfl, r, -⟩ | ⟨p, k₁, rfl, -⟩ | ⟨-, rfl⟩
        · exact Or.inr ⟨_, _, by rw [r.queue]; simp, run, rfl, _, h.next r⟩
        · exact Or.inl ⟨_, run, rfl⟩
        · exact Or.inl ⟨_, run, rfl⟩
      obtain ⟨out, looped, left⟩ := loop_total _ (fun out : Outcome => out.left = false) round
        (s := k) ⟨rfl, [], Passed.refl i.toMid⟩ (show _ < fuel by omega)
      refine ⟨(out.kernel, true), bind_ok_iff.mpr ⟨out, looped, ?_⟩⟩
      rw [finish, left]
      rfl

end Post

/-! ### destroySemaphore -/

section Destroy

variable {strict : Prop} {k k' : Kernel} {semId : Nat}

/-- One round of `destroySemaphore`. -/
theorem destroyRound_spec {fuel : Nat} {pass : Pass Kernel Outcome} (m : Mid strict k)
    (current : Awake (k.stateOf k.currentPCB)) (run : destroyRound fuel semId k = .ok pass) :
    (∃ p k', pass = .again k' ∧ Released strict semId p k k') ∨
      k.queueOf semId = [] ∧ pass = .leave ⟨k, false⟩ := by
  unfold destroyRound at run
  split at run
  · rename_i none
    cases run
    exact Or.inr ⟨fifoUnqueue_none.mp none, rfl⟩
  · rename_i p k₁ taken
    have states := (fifoUnqueue_removed m taken).stateOf
    split_ifs at run with gone
    split at run
    · rename_i blocked
      rw [states] at blocked
      cases run
      exact Or.inl ⟨p, _, rfl, release_ready m taken blocked⟩
    · rename_i killed
      rw [states] at killed
      obtain ⟨out, exited, rest⟩ := bind_ok_iff.mp run
      obtain ⟨left, r⟩ := release_exits m current taken killed exited
      rw [left] at rest
      cases rest
      exact Or.inl ⟨p, _, rfl, r⟩
    · rename_i active killed
      rw [states] at active killed
      cases run
      refine Or.inl ⟨p, _, rfl, release_drop m taken ?_⟩
      rintro (w | w)
      · exact active w
      · exact killed w

/-- The loop of `destroySemaphore` empties the queue. -/
theorem destroyLoop_spec {fuel rounds : Nat} {out : Outcome} (m : Mid strict k)
    (current : Awake (k.stateOf k.currentPCB))
    (run : loop (destroyRound fuel semId) rounds k = .ok out) :
    out.left = false ∧ (∃ passed, Passed strict semId k passed out.kernel) ∧
      out.kernel.queueOf semId = [] := by
  refine loop_inv (fun k' => ∃ passed, Passed strict semId k passed k')
    (fun out => out.left = false ∧ (∃ passed, Passed strict semId k passed out.kernel) ∧
      out.kernel.queueOf semId = []) ?_ ?_ ⟨[], Passed.refl m⟩ run
  · rintro k₀ k' ⟨passed, h⟩ round
    rcases destroyRound_spec h.edits.mid (h.current current) round with ⟨p, k₁, e, r⟩ | ⟨-,
      e⟩ <;> cases e
    exact ⟨_, h.next r⟩
  · rintro k₀ out ⟨passed, h⟩ round
    rcases destroyRound_spec h.edits.mid (h.current current) round with
      ⟨p, k₁, e, -⟩ | ⟨empty, e⟩ <;> cases e
    exact ⟨rfl, ⟨passed, h⟩, empty⟩

/-- With strict records every destruction returns. -/
theorem destroySemaphore_total (i : Inv True k) (semId : Nat) :
    ∃ n, ∀ fuel, n < fuel → ∃ r, k.destroySemaphore fuel semId = .ok r := by
  refine ⟨max k.unused (k.queueOf semId).length, fun fuel enough => ?_⟩
  unfold destroySemaphore
  split
  · exact ⟨_, rfl⟩
  · split_ifs
    · exact ⟨_, rfl⟩
    · have round : ∀ n k', (k'.queueOf semId).length = n ∧
          (∃ passed, Passed True semId k passed k') →
          (∃ r, destroyRound fuel semId k' = .ok (.leave r) ∧ True) ∨ ∃ m s, m < n ∧
            destroyRound fuel semId k' = .ok (.again s) ∧ (s.queueOf semId).length = m ∧
              ∃ passed, Passed True semId k passed s := by
        rintro n k' ⟨rfl, passed, h⟩
        obtain ⟨pass, run⟩ : ∃ pass, destroyRound fuel semId k' = .ok pass := by
          unfold destroyRound
          split
          · exact ⟨_, rfl⟩
          · rename_i p k₁ taken
            obtain ⟨alive, out, exits⟩ := h.exit_returns i taken (show k.unused < fuel by omega)
            rw [if_neg (by simp [alive])]
            split
            · exact ⟨_, rfl⟩
            · rw [exits, ok_bind]
              split_ifs <;> exact ⟨_, rfl⟩
            · exact ⟨_, rfl⟩
        rcases destroyRound_spec h.edits.mid (h.current i.current) run with ⟨p, k₁, rfl,
          r⟩ | ⟨-, rfl⟩
        · exact Or.inr ⟨_, _, by rw [r.queue]; simp, run, rfl, _, h.next r⟩
        · exact Or.inl ⟨_, run, trivial⟩
      obtain ⟨out, looped, -⟩ := loop_total _ (fun _ => True) round
        (s := k) ⟨rfl, [], Passed.refl i.toMid⟩ (show _ < fuel by omega)
      obtain ⟨left, -⟩ := destroyLoop_spec i.toMid i.current looped
      rw [looped, ok_bind, left]
      exact ⟨_, rfl⟩

/-- A round wakes the process it takes out of the queue, if that one is BLOCKED. -/
theorem destroyRound_wakes {fuel p : Nat} {rest : List Nat} (m : Mid strict k)
    (queue : k.queueOf semId = p :: rest) (blocked : k.stateOf p = .blocked)
    (run : destroyRound fuel semId k = .ok (.again k')) : k'.stateOf p = .ready := by
  unfold destroyRound at run
  cases taken : k.fifoUnqueue semId with
  | none =>
      rw [fifoUnqueue_none.mp taken] at queue
      cases queue
  | some head =>
      obtain ⟨q, k₁⟩ := head
      obtain ⟨rfl, -⟩ : q = p ∧ _ :=
        List.cons_eq_cons.mp ((fifoUnqueue_queueOf taken).symm.trans queue)
      have states := (fifoUnqueue_removed m taken).stateOf
      rw [taken] at run
      simp only [states, blocked] at run
      split_ifs at run
      cases run
      exact stateOf_setState_self

/-- All who are BLOCKED in the queue are READY when the loop ends. -/
theorem destroyLoop_wakes {fuel rounds : Nat} {out : Outcome} (m : Mid strict k)
    (current : Awake (k.stateOf k.currentPCB))
    (run : loop (destroyRound fuel semId) rounds k = .ok out) :
    ∀ p ∈ k.queueOf semId, k.stateOf p = .blocked → out.kernel.stateOf p = .ready := by
  let Woken (passed : List Nat) (k' : Kernel) : Prop :=
    Passed strict semId k passed k' ∧ ∀ p ∈ passed, k.stateOf p = .blocked → k'.stateOf p = .ready
  have all : ∃ passed, Woken passed out.kernel ∧ out.kernel.queueOf semId = [] := by
    refine loop_inv (fun k' => ∃ passed, Woken passed k')
      (fun out => ∃ passed, Woken passed out.kernel ∧ out.kernel.queueOf semId = []) ?_ ?_
      ⟨[], Passed.refl m, by simp⟩ run
    · rintro k₀ k' ⟨passed, h, woken⟩ round
      rcases destroyRound_spec h.edits.mid (h.current current) round with
        ⟨p, k₁, e, r⟩ | ⟨-, e⟩ <;> cases e
      refine ⟨passed ++ [p], h.next r, fun q hq blocked => ?_⟩
      rcases List.mem_append.mp hq with before | last
      · have ready := woken q before blocked
        exact (r.calm q (by rw [ready]; simp [Waiting])).trans ready
      · obtain rfl := List.mem_singleton.mp last
        have here : q ∈ k₀.queueOf semId := by simp [r.queue]
        exact destroyRound_wakes h.edits.mid r.queue ((h.kept q here).trans blocked) round
    · rintro k₀ out ⟨passed, h⟩ round
      rcases destroyRound_spec h.1.edits.mid (h.1.current current) round with
        ⟨p, k₁, e, -⟩ | ⟨empty, e⟩ <;> cases e
      exact ⟨passed, h, empty⟩
  obtain ⟨passed, ⟨h, woken⟩, empty⟩ := all
  intro p hp
  rw [h.queue, empty, List.append_nil] at hp
  exact woken p hp

/-- A semaphore whose queue is empty ends, and its id can be reused. -/
theorem closeSem_edits (m : Mid strict k) (live : k.Live semId) (empty : k.queueOf semId = []) :
    Edits strict (· = .sem semId) k
        { k.updateSem semId fun sem => { sem with destroyed := true } with
      freedPositions := k.freedPositions ++ [semId] } := by
  obtain ⟨sem, found, alive⟩ := live.getElem?
  have fresh : semId ∉ k.freedPositions := fun mem => by
    obtain ⟨sem', found', gone⟩ := m.ids.freed semId mem
    rw [found] at found'
    cases found'
    rw [alive] at gone
    cases gone
  have here : ∀ s, (k.updateSem semId fun sem => { sem with destroyed := true }).semArray[s]? =
      if s = semId then some { sem with destroyed := true } else k.semArray[s]? := fun s => by
    rw [updateSem_getElem?]
    split_ifs with e
    · rw [e, found]
      rfl
    · rfl
  refine (updateSem_edits (f := fun sem => { sem with destroyed := true }) m (fun _ => rfl)
    ⟨fun s sem' hs gone => ?_, fun s hs => ?_, ?_⟩).1
  · replace hs := (here s).symm.trans hs
    split_ifs at hs with e
    · cases hs
      simpa [queueOf, found] using empty
    · exact m.ids.closed s sem' hs gone
  · rcases List.mem_append.mp hs with hs | hs
    · obtain ⟨sem', found', gone⟩ := m.ids.freed s hs
      have ne : s ≠ semId := fun e => fresh (e ▸ hs)
      exact ⟨sem', (here s).trans ((if_neg ne).trans found'), gone⟩
    · exact ⟨_, (here s).trans (if_pos (List.mem_singleton.mp hs)), rfl⟩
  · rw [List.nodup_append]
    refine ⟨m.ids.nodup, List.nodup_singleton _, fun a ha b hb e => fresh ?_⟩
    rwa [← List.mem_singleton.mp hb, ← e]

theorem destroySemaphore_spec {fuel : Nat} {r : Kernel × Bool} (i : Inv strict k)
    (run : k.destroySemaphore fuel semId = .ok r) :
    Edits strict (· = .sem semId) k r.1 ∧ Calm k r.1 := by
  unfold destroySemaphore at run
  split at run
  · cases run
    exact ⟨Edits.refl i.toMid, Calm.refl k⟩
  · rename_i sem found
    split_ifs at run with dead
    · cases run
      exact ⟨Edits.refl i.toMid, Calm.refl k⟩
    · have live : k.Live semId := by simpa [Live, found] using dead
      obtain ⟨out, looped, rest⟩ := bind_ok_iff.mp run
      obtain ⟨left, ⟨passed, h⟩, empty⟩ := destroyLoop_spec i.toMid i.current looped
      rw [left] at rest
      cases rest
      exact ⟨h.edits.trans (closeSem_edits h.edits.mid (h.live.mpr live) empty), h.calm⟩

theorem destroySemaphore_wakes {fuel p : Nat} {r : Kernel × Bool} (i : Inv strict k)
    (run : k.destroySemaphore fuel semId = .ok r) (queued : p ∈ k.queueOf semId)
    (blocked : k.stateOf p = .blocked) : r.1.stateOf p = .ready := by
  unfold destroySemaphore at run
  cases found : k.semArray[semId]? with
  | none => simp [queueOf, found] at queued
  | some sem =>
      have alive : sem.destroyed = false := by
        by_contra gone
        rw [queueOf_some found, i.ids.closed semId sem found (by simpa using gone)] at queued
        cases queued
      rw [found] at run
      simp only [alive, Bool.false_eq_true, if_false] at run
      obtain ⟨out, looped, rest⟩ := bind_ok_iff.mp run
      rw [(destroyLoop_spec i.toMid i.current looped).1] at rest
      cases rest
      exact destroyLoop_wakes i.toMid i.current looped p queued blocked

end Destroy

end SoTp.Process
