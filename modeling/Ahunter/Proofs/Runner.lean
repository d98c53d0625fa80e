import Ahunter.Mx.Runner
import Mathlib.Logic.Relation

/-!
# No frame is lost and none is repeated

A frame that was handed over is in one place: passed to the collector, in a task that is
about to pass it, in the queue, or counted. Before a shutdown a frame waits only while
every slot is taken, so a frame that finds a free slot finds nothing waiting and may start
at once. That is what keeps the order, and it is why an overflow is only counted when
everything is full.
-/

namespace Ahunter.Mx.Runner

variable {F : Type}

/-- Where every frame is, and what the limits leave room for. -/
structure Accounted (options : Options) (loop : Loop F) : Prop where
  once : loop.handed.Perm
    (loop.passed ++ loop.launching ++ loop.queued ++ loop.overflowed.map Overflow.frame)
  ordered : (loop.passed ++ loop.launching ++ loop.queued).Sublist loop.handed
  overflow : ∀ overflow ∈ loop.overflowed, overflow.inProgress = options.maxConcurrentFrames ∧
    overflow.waiting = options.maxQueuedFrames
  concurrent : loop.shutdownStarted = false → loop.pending ≤ options.maxConcurrentFrames
  waiting : 0 < options.maxConcurrentFrames → loop.queued ≠ [] → 0 < loop.pending
  drains : 0 < options.maxConcurrentFrames → ∃ next, Relation.ReflTransGen (Step options) loop next ∧
    next.handed = loop.handed ∧
      loop.handed.Perm (next.passed ++ next.overflowed.map Overflow.frame)
  finished : loop.phase = .finished → loop.pending = 0 ∧ loop.queued = [] ∧
    loop.handed.Perm (loop.passed ++ loop.overflowed.map Overflow.frame)

structure Placed (options : Options) (loop : Loop F) : Prop where
  once : loop.handed.Perm
    (loop.passed ++ loop.launching ++ loop.queued ++ loop.overflowed.map Overflow.frame)
  ordered : (loop.passed ++ loop.launching ++ loop.queued).Sublist loop.handed
  overflow : ∀ overflow ∈ loop.overflowed, overflow.inProgress = options.maxConcurrentFrames ∧
    overflow.waiting = options.maxQueuedFrames
  concurrent : loop.shutdownStarted = false → loop.pending ≤ options.maxConcurrentFrames
  full : loop.shutdownStarted = false → loop.queued ≠ [] →
    loop.pending = options.maxConcurrentFrames
  room : loop.queued.length ≤ options.maxQueuedFrames
  waiting : 0 < options.maxConcurrentFrames → loop.queued ≠ [] → 0 < loop.pending

structure Timed (loop : Loop F) : Prop where
  shutdown : loop.shutdownStarted = true →
    loop.aborted = true ∨ loop.phase = .draining ∨ loop.phase = .finished
  ended : loop.phase = .draining ∨ loop.phase = .finished → loop.shutdownStarted = true
  idle : loop.idle = true → loop.pending = 0 ∧ loop.queued = [] ∧
    (loop.phase = .draining ∨ loop.phase = .finished)
  waiter : loop.idleWaiter = true → loop.phase = .draining ∨ loop.phase = .finished
  finished : loop.phase = .finished → loop.idle = true

section Kept

variable {options : Options} {loop : Loop F}

theorem Placed.start : Placed options (Loop.start : Loop F) where
  once := .refl _
  ordered := .slnil
  overflow := nofun
  concurrent _ := Nat.zero_le _
  full _ h := absurd rfl h
  room := Nat.zero_le _
  waiting _ h := absurd rfl h

theorem Timed.start : Timed (Loop.start : Loop F) := ⟨nofun, nofun, nofun, nofun, nofun⟩

/-! ## A shutdown -/

theorem foldl_startFrame (frames : List F) (loop : Loop F) :
    frames.foldl Loop.startFrame loop = { loop with launching := loop.launching ++ frames } := by
  induction frames generalizing loop with
  | nil => rw [List.foldl_nil, List.append_nil]
  | cons frame rest ih =>
      rw [List.foldl_cons, ih, Loop.startFrame, List.append_assoc, List.singleton_append]

variable (loop) in
theorem beginShutdown_new (h : loop.shutdownStarted = false) :
    loop.beginShutdown =
      { loop with
        shutdownStarted := true, launching := loop.launching ++ loop.queued, queued := [] } := by
  rw [Loop.beginShutdown, if_neg (Bool.eq_false_iff.mp h), foldl_startFrame]

variable (loop) in
theorem beginShutdown_again (h : loop.shutdownStarted = true) : loop.beginShutdown = loop := by
  rw [Loop.beginShutdown, if_pos h]

variable (loop) in
theorem Placed.beginShutdown (h : Placed options loop) : Placed options loop.beginShutdown := by
  by_cases hstarted : loop.shutdownStarted = true
  · rw [beginShutdown_again loop hstarted]
    exact h
  · rw [beginShutdown_new loop (Bool.eq_false_iff.mpr hstarted)]
    exact
      { once := by simpa [List.append_assoc] using h.once
        ordered := by simpa [List.append_assoc] using h.ordered
        overflow := h.overflow
        concurrent := nofun
        full := nofun
        room := Nat.zero_le _
        waiting := fun _ hne => absurd rfl hne }

theorem Placed.abort (h : Placed options loop) : Placed options loop.abort := by
  unfold Loop.abort
  split
  · exact h
  · exact Placed.beginShutdown { loop with aborted := true } { h with }

theorem beginShutdown_started (loop : Loop F) : loop.beginShutdown.shutdownStarted = true := by
  cases hstarted : loop.shutdownStarted with
  | true => rw [beginShutdown_again loop hstarted, hstarted]
  | false => rw [beginShutdown_new loop hstarted]

theorem beginShutdown_phase (loop : Loop F) : loop.beginShutdown.phase = loop.phase := by
  cases hstarted : loop.shutdownStarted with
  | true => rw [beginShutdown_again loop hstarted]
  | false => rw [beginShutdown_new loop hstarted]

theorem beginShutdown_idle (loop : Loop F) : loop.beginShutdown.idle = loop.idle := by
  cases hstarted : loop.shutdownStarted with
  | true => rw [beginShutdown_again loop hstarted]
  | false => rw [beginShutdown_new loop hstarted]

theorem abort_phase (loop : Loop F) : loop.abort.phase = loop.phase := by
  unfold Loop.abort
  split
  · rfl
  · exact beginShutdown_phase _

theorem Timed.abort (h : Timed loop) : Timed loop.abort := by
  unfold Loop.abort
  split
  · exact h
  · by_cases hstarted : loop.shutdownStarted = true
    · have hagain := beginShutdown_again { loop with aborted := true } hstarted
      rw [hagain]
      exact { h with shutdown := fun _ => .inl rfl }
    · have hnew := beginShutdown_new { loop with aborted := true }
        (Bool.eq_false_iff.mpr hstarted)
      -- Nothing was idle before the shutdown.
      have hrunning : ¬ (loop.phase = .draining ∨ loop.phase = .finished) :=
        fun hphase => hstarted (h.ended hphase)
      rw [hnew]
      exact
        { shutdown := fun _ => .inl rfl
          ended := fun _ => rfl
          idle := fun hidle => absurd (h.idle hidle).2.2 hrunning
          waiter := h.waiter
          finished := h.finished }

/-! ## A frame -/

theorem Placed.place (h : Placed options loop) (frame : F)
    (hfree : loop.pending < options.maxConcurrentFrames → loop.queued = [])
    (hfull : options.maxConcurrentFrames ≤ loop.pending →
      options.maxQueuedFrames ≤ loop.queued.length → loop.pending = options.maxConcurrentFrames ∧
        loop.queued.length = options.maxQueuedFrames) :
    Placed options (if loop.pending < options.maxConcurrentFrames then
        { loop with
          handed := loop.handed ++ [frame], launching := loop.launching ++ [frame] }
      else if loop.queued.length < options.maxQueuedFrames then
        { loop with handed := loop.handed ++ [frame], queued := loop.queued ++ [frame] }
      else
        { loop with
          handed := loop.handed ++ [frame]
          overflowed := loop.overflowed ++ [⟨frame, loop.pending, loop.queued.length⟩] }) := by
  split
  · next hslot =>
      have hnone := hfree hslot
      have hone := h.once.append_right [frame]
      have hsub := h.ordered.append_right [frame]
      rw [hnone, List.append_nil] at hone hsub
      exact
      { once := by
          rw [hnone]
          refine hone.trans ?_
          simp only [List.append_nil, List.append_assoc]
          exact (List.perm_append_comm.append_left _).append_left _
        ordered := by simpa [hnone, List.append_assoc] using hsub
        overflow := h.overflow
        concurrent := fun _ => by
          simp only [Loop.pending, List.length_append, List.length_singleton] at hslot ⊢
          omega
        full := fun _ hne => absurd hnone hne
        room := h.room
        waiting := fun _ hne => absurd hnone hne }
  · next hbusy =>
      split
      · next hroom =>
          exact
          { once := by
              refine (h.once.append_right [frame]).trans ?_
              simp only [List.append_assoc]
              exact ((List.perm_append_comm.append_left _).append_left _).append_left _
            ordered := by simpa [List.append_assoc] using h.ordered.append_right [frame]
            overflow := h.overflow
            concurrent := h.concurrent
            full := fun hrunning _ =>
              Nat.le_antisymm (h.concurrent hrunning) (Nat.not_lt.mp hbusy)
            room := by
              rw [List.length_append]
              exact hroom
            waiting := fun hpos _ => Nat.lt_of_lt_of_le hpos (Nat.not_lt.mp hbusy) }
      · next hover =>
          exact
          { once := by
              rw [List.map_append, ← List.append_assoc]
              exact h.once.append_right [frame]
            ordered := h.ordered.trans (List.sublist_append_left _ _)
            overflow := by
              intro overflow hmem
              rcases List.mem_append.mp hmem with hmem | hmem
              · exact h.overflow overflow hmem
              · rw [List.mem_singleton] at hmem
                subst hmem
                exact hfull (Nat.not_lt.mp hbusy) (Nat.not_lt.mp hover)
            concurrent := h.concurrent
            full := h.full
            room := h.room
            waiting := h.waiting }

theorem abort_handed (handed : List F) :
    { loop with handed }.abort = { loop.abort with handed } := by
  unfold Loop.abort
  split
  · rfl
  · by_cases hstarted : loop.shutdownStarted = true
    · have hagain := beginShutdown_again { loop with aborted := true } hstarted
      rw [hagain]
      exact beginShutdown_again { loop with aborted := true, handed } hstarted
    · have hnew := beginShutdown_new { loop with aborted := true }
        (Bool.eq_false_iff.mpr hstarted)
      rw [hnew]
      exact beginShutdown_new { loop with aborted := true, handed }
        (Bool.eq_false_iff.mpr hstarted)

theorem Placed.enqueueFrame (h : Placed options loop) (htimed : Timed loop)
    (hphase : loop.phase = .listening) (frame : F) (aborting : Bool) :
    Placed options (loop.enqueueFrame options frame aborting) := by
  unfold Loop.enqueueFrame
  split
  · exact h
  · next hactive =>
      have hrunning : loop.shutdownStarted = false := by
        refine Bool.eq_false_iff.mpr fun hstarted => ?_
        rcases htimed.shutdown hstarted with haborted | hphase' | hphase'
        · exact hactive haborted
        · rw [hphase] at hphase'
          cases hphase'
        · rw [hphase] at hphase'
          cases hphase'
      have hfree : loop.pending < options.maxConcurrentFrames → loop.queued = [] := by
        intro hslot
        by_contra hne
        exact Nat.ne_of_lt hslot (h.full hrunning hne)
      cases aborting with
      | false =>
          refine h.place frame hfree ?_
          intro hbusy hover
          exact ⟨Nat.le_antisymm (h.concurrent hrunning) hbusy, Nat.le_antisymm h.room hover⟩
      | true =>
          have habort : loop.abort =
              { loop with
                aborted := true, shutdownStarted := true
                launching := loop.launching ++ loop.queued, queued := [] } := by
            rw [Loop.abort, if_neg hactive]
            exact beginShutdown_new { loop with aborted := true } hrunning
          have hhanded : loop.abort.handed = loop.handed := by rw [habort]
          simp only [if_true, abort_handed]
          rw [← hhanded]
          refine h.abort.place frame ?_ ?_
          · intro _
            rw [habort]
          · rw [habort]
            intro hbusy hover
            -- Nothing waited, or there would be room for the frame now.
            have hnone : loop.queued = [] :=
              List.length_eq_zero_iff.mp (Nat.le_zero.mp (Nat.le_trans h.room hover))
            simp only [Loop.pending, hnone, List.append_nil] at hbusy ⊢
            exact ⟨Nat.le_antisymm (h.concurrent hrunning) hbusy,
              Nat.le_antisymm (Nat.zero_le _) hover⟩

theorem Timed.enqueueFrame (h : Timed loop) (hphase : loop.phase = .listening) (frame : F)
    (aborting : Bool) : Timed (loop.enqueueFrame options frame aborting) := by
  have hother : ∀ {loop : Loop F}, Timed loop → loop.phase = .listening →
      ∀ launching queued handed overflowed,
        Timed { loop with launching, queued, handed, overflowed } := by
    intro loop h hphase launching queued handed overflowed
    have hout : ¬ (loop.phase = .draining ∨ loop.phase = .finished) := by
      rw [hphase]
      simp only [reduceCtorEq, or_self, not_false_eq_true]
    exact
      { shutdown := h.shutdown
        ended := h.ended
        idle := fun hidle => absurd (h.idle hidle).2.2 hout
        waiter := h.waiter
        finished := h.finished }
  unfold Loop.enqueueFrame
  split
  · exact h
  · have hplaced : ∀ {loop : Loop F}, Timed loop → loop.phase = .listening →
        Timed (if loop.pending < options.maxConcurrentFrames then loop.startFrame frame
          else if loop.queued.length < options.maxQueuedFrames then
            { loop with queued := loop.queued ++ [frame] }
          else
            { loop with
              overflowed := loop.overflowed ++ [⟨frame, loop.pending, loop.queued.length⟩] }) := by
      intro loop h hphase
      split
      · exact hother h hphase _ _ _ _
      · split
        · exact hother h hphase _ _ _ _
        · exact hother h hphase _ _ _ _
    have hhanded : Timed { loop with handed := loop.handed ++ [frame] } := hother h hphase _ _ _ _
    cases aborting with
    | false => exact hplaced hhanded hphase
    | true =>
        refine hplaced hhanded.abort ?_
        exact (abort_phase _).trans hphase

/-! ## Tasks -/

theorem Placed.acceptFrame (h : Placed options loop) : Placed options loop.acceptFrame := by
  unfold Loop.acceptFrame
  split
  · exact h
  · next frame launching hlaunching =>
      have hpending : ({ loop with
          launching, running := loop.running ++ [frame]
          passed := loop.passed ++ [frame] } : Loop F).pending = loop.pending := by
        simp only [Loop.pending, hlaunching, List.length_append, List.length_cons,
          List.length_nil]
        omega
      exact
        { once := by simpa [hlaunching] using h.once
          ordered := by simpa [hlaunching] using h.ordered
          overflow := h.overflow
          concurrent := fun hrunning => hpending ▸ h.concurrent hrunning
          full := fun hrunning hne => hpending ▸ h.full hrunning hne
          room := h.room
          waiting := fun hpos hne => hpending ▸ h.waiting hpos hne }

theorem Placed.settleFrame (h : Placed options loop) {index : ℕ}
    (hindex : index < loop.running.length) : Placed options (loop.settleFrame index) := by
  have hlength := List.length_eraseIdx_add_one hindex
  unfold Loop.settleFrame
  dsimp only
  split
  · next hnone =>
      have hsettled : Placed options
          { loop with running := loop.running.eraseIdx index } :=
        { h with
          concurrent := by
            intro hrunning
            have hle := h.concurrent hrunning
            simp only [Loop.pending] at hle ⊢
            omega
          full := fun _ hne => absurd hnone hne
          waiting := fun _ hne => absurd hnone hne }
      unfold Loop.notifyIdle
      split
      · exact hsettled
      · split
        · exact { hsettled with }
        · exact hsettled
  · next next queued hqueued =>
      have hpending : ({ loop with
          running := loop.running.eraseIdx index, queued
          launching := loop.launching ++ [next] } : Loop F).pending = loop.pending := by
        simp only [Loop.pending, List.length_append, List.length_singleton]
        omega
      have hne : loop.queued ≠ [] := by
        rw [hqueued]
        exact List.cons_ne_nil _ _
      exact
        { once := by simpa [hqueued, Loop.startFrame] using h.once
          ordered := by simpa [hqueued, Loop.startFrame] using h.ordered
          overflow := h.overflow
          concurrent := fun hrunning => hpending ▸ h.concurrent hrunning
          full := fun hrunning _ => hpending ▸ h.full hrunning hne
          room := by
            have hle := h.room
            rw [hqueued] at hle
            exact Nat.le_of_succ_le hle
          waiting := fun hpos _ => hpending ▸ h.waiting hpos hne }

theorem Timed.acceptFrame (h : Timed loop) : Timed loop.acceptFrame := by
  unfold Loop.acceptFrame
  split
  · exact h
  · next frame launching hlaunching =>
      exact
        { h with
          idle := by
            intro hidle
            have hpending := (h.idle hidle).1
            simp only [Loop.pending, hlaunching, List.length_cons] at hpending
            omega }

theorem Timed.settleFrame (h : Timed loop) {index : ℕ} (hindex : index < loop.running.length) :
    Timed (loop.settleFrame index) := by
  have hbusy : loop.pending ≠ 0 := by
    simp only [Loop.pending]
    omega
  have hidle : loop.idle = false :=
    Bool.eq_false_iff.mpr fun hidle => hbusy (h.idle hidle).1
  unfold Loop.settleFrame
  dsimp only
  split
  · next hnone =>
      have hsettled : Timed { loop with running := loop.running.eraseIdx index } :=
        { h with idle := fun hidle' => absurd hidle' (Bool.eq_false_iff.mp hidle) }
      unfold Loop.notifyIdle
      split
      · exact hsettled
      · next hempty =>
          split
          · next hwaiter =>
              rw [not_or, not_not, not_not] at hempty
              exact
                { hsettled with
                  idle := fun _ => ⟨hempty.1, hempty.2, h.waiter hwaiter⟩
                  waiter := nofun
                  finished := fun _ => rfl }
          · exact hsettled
  · exact { h with idle := fun hidle' => absurd hidle' (Bool.eq_false_iff.mp hidle) }

/-! ## The end -/

theorem Placed.leave (h : Placed options loop) : Placed options loop.leave := by
  have hshut := Placed.beginShutdown { loop with phase := .draining } { h with }
  unfold Loop.leave Loop.waitForIdle
  split
  · exact { hshut with }
  · exact { hshut with }

theorem Timed.leave (h : Timed loop) (hphase : loop.phase ≠ .draining ∧ loop.phase ≠ .finished) :
    Timed loop.leave := by
  have hidle : loop.idle = false :=
    Bool.eq_false_iff.mpr fun hidle => (h.idle hidle).2.2.elim hphase.1 hphase.2
  have hphase' := beginShutdown_phase { loop with phase := .draining }
  have hstarted := beginShutdown_started { loop with phase := .draining }
  unfold Loop.leave Loop.waitForIdle
  split
  · next hempty =>
      exact
        { shutdown := fun _ => .inr (.inl hphase')
          ended := fun _ => hstarted
          idle := fun _ => ⟨hempty.1, hempty.2, .inl hphase'⟩
          waiter := fun _ => .inl hphase'
          finished := fun _ => rfl }
  · next hbusy =>
      exact
        { shutdown := fun _ => .inr (.inl hphase')
          ended := fun _ => hstarted
          idle := fun hidle' =>
            absurd ((beginShutdown_idle _).symm.trans hidle') (Bool.eq_false_iff.mp hidle)
          waiter := fun _ => .inl hphase'
          finished := fun hfinished => by
            rw [show _ = Phase.draining from hphase'] at hfinished
            cases hfinished }

/-! ## Runs -/

theorem Timed.move (h : Timed loop) (hfrom : loop.phase ≠ .draining ∧ loop.phase ≠ .finished)
    (hactive : loop.aborted = false) {phase : Phase} (hto : phase ≠ .draining ∧ phase ≠ .finished) :
    Timed { loop with phase } := by
  have hout : ¬ (loop.phase = .draining ∨ loop.phase = .finished) :=
    fun hphase => hphase.elim hfrom.1 hfrom.2
  exact
    { shutdown := by
        intro hstarted
        rcases h.shutdown hstarted with haborted | hphase
        · exact absurd haborted (Bool.eq_false_iff.mp hactive)
        · exact absurd hphase hout
      ended := fun hphase => absurd hphase (fun hphase => hphase.elim hto.1 hto.2)
      idle := fun hidle => absurd (h.idle hidle).2.2 hout
      waiter := fun hwaiter => absurd (h.waiter hwaiter) hout
      finished := fun hphase => absurd hphase hto.2 }

theorem Step.kept {next : Loop F} (hstep : Step options loop next)
    (h : Placed options loop ∧ Timed loop) : Placed options next ∧ Timed next := by
  obtain ⟨hplaced, htimed⟩ := h
  cases hstep with
  | connect hphase hactive =>
      exact ⟨{ hplaced with }, htimed.move (by rw [hphase]; decide) hactive (by decide)⟩
  | lose hphase hactive =>
      have hout : loop.phase ≠ .draining ∧ loop.phase ≠ .finished := by
        rcases hphase with hphase | hphase <;> rw [hphase] <;> decide
      exact ⟨{ hplaced with }, htimed.move hout hactive (by decide)⟩
  | retry hphase hactive =>
      exact ⟨{ hplaced with }, htimed.move (by rw [hphase]; decide) hactive (by decide)⟩
  | leave hphase => exact ⟨hplaced.leave, htimed.leave hphase⟩
  | finish hphase hidle =>
      refine ⟨{ hplaced with }, ?_⟩
      exact
        { shutdown := fun _ => .inr (.inr rfl)
          ended := fun _ => htimed.ended (.inl hphase)
          idle := fun _ => ⟨(htimed.idle hidle).1, (htimed.idle hidle).2.1, .inr rfl⟩
          waiter := fun _ => .inr rfl
          finished := fun _ => hidle }
  | frame frame aborting hphase =>
      exact ⟨hplaced.enqueueFrame htimed hphase frame aborting,
        htimed.enqueueFrame hphase frame aborting⟩
  | accept => exact ⟨hplaced.acceptFrame, htimed.acceptFrame⟩
  | settle index hindex => exact ⟨hplaced.settleFrame hindex, htimed.settleFrame hindex⟩
  | abort => exact ⟨hplaced.abort, htimed.abort⟩

theorem run_kept (hrun : Relation.ReflTransGen (Step options) Loop.start loop) :
    Placed options loop ∧ Timed loop := by
  induction hrun with
  | refl => exact ⟨Placed.start, Timed.start⟩
  | tail _ hstep ih => exact hstep.kept ih

theorem Placed.all_out (h : Placed options loop) (hpending : loop.pending = 0)
    (hqueued : loop.queued = []) :
    loop.handed.Perm (loop.passed ++ loop.overflowed.map Overflow.frame) := by
  have hlaunching : loop.launching = [] := by
    refine List.length_eq_zero_iff.mp ?_
    simp only [Loop.pending] at hpending
    omega
  have hone := h.once
  rw [hlaunching, hqueued, List.append_nil, List.append_nil] at hone
  exact hone

/-- How many turns the tasks still need. -/
def work (loop : Loop F) : ℕ :=
  loop.running.length + 2 * loop.launching.length + 3 * loop.queued.length

theorem acceptFrame_work (hlaunching : loop.launching ≠ []) :
    work loop.acceptFrame < work loop ∧ loop.acceptFrame.handed = loop.handed := by
  unfold Loop.acceptFrame
  split
  · next hnone => exact absurd hnone hlaunching
  · next frame launching hcons =>
      refine ⟨?_, rfl⟩
      simp only [work, hcons, List.length_append, List.length_cons, List.length_nil]
      omega

theorem settleFrame_work {index : ℕ} (hindex : index < loop.running.length) :
    work (loop.settleFrame index) < work loop ∧ (loop.settleFrame index).handed = loop.handed := by
  have hlength := List.length_eraseIdx_add_one hindex
  unfold Loop.settleFrame
  dsimp only
  split
  · next hnone =>
      have hless : work { loop with running := loop.running.eraseIdx index } < work loop := by
        simp only [work]
        omega
      unfold Loop.notifyIdle
      split
      · exact ⟨hless, rfl⟩
      · split
        · exact ⟨hless, rfl⟩
        · exact ⟨hless, rfl⟩
  · next next queued hqueued =>
      refine ⟨?_, rfl⟩
      simp only [work, Loop.startFrame, hqueued, List.length_append, List.length_cons,
        List.length_nil]
      omega

theorem Placed.drain (hmax : 0 < options.maxConcurrentFrames) (hplaced : Placed options loop)
    (htimed : Timed loop) : ∃ next, Relation.ReflTransGen (Step options) loop next ∧
      next.handed = loop.handed ∧ Placed options next ∧ next.pending = 0 ∧ next.queued = [] := by
  induction hwork : work loop using Nat.strongRecOn generalizing loop with
  | _ n ih =>
      subst hwork
      by_cases hlaunching : loop.launching = []
      · by_cases hrunning : loop.running = []
        · have hpending : loop.pending = 0 := by
            rw [Loop.pending, hlaunching, hrunning]
            rfl
          refine ⟨loop, .refl, rfl, hplaced, hpending, ?_⟩
          by_contra hne
          exact Nat.ne_of_gt (hplaced.waiting hmax hne) hpending
        · have hindex := List.length_pos_of_ne_nil hrunning
          obtain ⟨hless, hhanded⟩ := settleFrame_work hindex
          obtain ⟨next, hrun, hsame, hrest⟩ := ih _ hless (hplaced.settleFrame hindex)
            (htimed.settleFrame hindex) rfl
          exact ⟨next, .head (.settle 0 hindex) hrun, hsame.trans hhanded, hrest⟩
      · obtain ⟨hless, hhanded⟩ := acceptFrame_work hlaunching
        obtain ⟨next, hrun, hsame, hrest⟩ := ih _ hless hplaced.acceptFrame htimed.acceptFrame rfl
        exact ⟨next, .head .accept hrun, hsame.trans hhanded, hrest⟩

/-- In every run, each frame that was handed over is in one place, in order, and the loop ends
only with all of them passed or counted. -/
theorem collector_loop_accounts (options : Options) (loop : Loop F)
    (hrun : Relation.ReflTransGen (Step options) Loop.start loop) : Accounted options loop := by
  obtain ⟨hplaced, htimed⟩ := run_kept hrun
  refine ⟨hplaced.once, hplaced.ordered, hplaced.overflow, hplaced.concurrent,
    hplaced.waiting, ?_, ?_⟩
  · intro hmax
    obtain ⟨next, hnext, hhanded, hplaced', hpending, hqueued⟩ := hplaced.drain hmax htimed
    exact ⟨next, hnext, hhanded, hhanded ▸ hplaced'.all_out hpending hqueued⟩
  · intro hfinished
    obtain ⟨hpending, hqueued, -⟩ := htimed.idle (htimed.finished hfinished)
    exact ⟨hpending, hqueued, hplaced.all_out hpending hqueued⟩

/-! ## A run -/

def endedLoop : Loop ℕ :=
  ⟨.finished, false, true, [], [], [], false, true, [1, 2], [1], [⟨2, 1, 0⟩]⟩

theorem endedLoop_run : Relation.ReflTransGen (Step ⟨1, 0⟩) Loop.start endedLoop := by
  have hconnect : Step ⟨1, 0⟩ (Loop.start : Loop ℕ)
      ⟨.listening, false, false, [], [], [], false, false, [], [], []⟩ := .connect rfl rfl
  have hfirst : Step ⟨1, 0⟩ (⟨.listening, false, false, [], [], [], false, false, [], [], []⟩ : Loop ℕ)
      ⟨.listening, false, false, [1], [], [], false, false, [1], [], []⟩ := .frame 1 false rfl
  have hsecond : Step ⟨1, 0⟩
      (⟨.listening, false, false, [1], [], [], false, false, [1], [], []⟩ : Loop ℕ)
      ⟨.listening, false, false, [1], [], [], false, false, [1, 2], [], [⟨2, 1, 0⟩]⟩ :=
    .frame 2 false rfl
  have haccept : Step ⟨1, 0⟩
      (⟨.listening, false, false, [1], [], [], false, false, [1, 2], [], [⟨2, 1, 0⟩]⟩ : Loop ℕ)
      ⟨.listening, false, false, [], [1], [], false, false, [1, 2], [1], [⟨2, 1, 0⟩]⟩ := .accept
  have hleave : Step ⟨1, 0⟩
      (⟨.listening, false, false, [], [1], [], false, false, [1, 2], [1], [⟨2, 1, 0⟩]⟩ : Loop ℕ)
      ⟨.draining, false, true, [], [1], [], true, false, [1, 2], [1], [⟨2, 1, 0⟩]⟩ :=
    .leave (by decide)
  have hsettle : Step ⟨1, 0⟩
      (⟨.draining, false, true, [], [1], [], true, false, [1, 2], [1], [⟨2, 1, 0⟩]⟩ : Loop ℕ)
      ⟨.draining, false, true, [], [], [], false, true, [1, 2], [1], [⟨2, 1, 0⟩]⟩ :=
    .settle 0 (by decide)
  exact .head hconnect <| .head hfirst <| .head hsecond <| .head haccept <| .head hleave <|
    .head hsettle <| .single (.finish rfl rfl)

theorem endedLoop_accounts : Accounted ⟨1, 0⟩ endedLoop ∧ endedLoop.phase = .finished :=
  ⟨collector_loop_accounts ⟨1, 0⟩ endedLoop endedLoop_run, rfl⟩

end Kept

end Ahunter.Mx.Runner
