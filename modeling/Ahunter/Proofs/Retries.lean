import Ahunter.Lib.Retry
import Ahunter.Proofs.Observation

/-!
# Commands sent again

A host that has not seen the answer to a command sends the command again. The
account knows its commands by the identities they are sent under: under an
identity it has committed it answers the same request with what it has, and
refuses every other one. A plan is known by its own identity as well. As long
as a host asks one thing under one identity, a run with commands sent again
anywhere ends in the world that the run without them ends in.
-/

namespace Ahunter.Sim

open Ahunter.Lib

variable {spec : AccountSpec} {w w' : World} {aid : String} {r : Request} {c d : Command}

def Command.actionId : Command → String
  | .opening actionId _ => actionId
  | .account actionId _ => actionId
  | .acceptBatch actionId _ _ _ => actionId
  | .advanceMinute actionId _ => actionId
  | .queueAdvance actionId _ _ _ => actionId
  | .submit actionId _ _ _ => actionId
  | .advance actionId _ _ => actionId
  | .expireDay actionId _ _ _ _ => actionId

def Command.request (spec : AccountSpec) : Command → Attempt Request
  | .opening _ _ => pure .opening
  | .account _ r => do
      r.check
      pure (.account r)
  | .acceptBatch _ orders proofs at_ => pure (.executionAccept orders proofs at_)
  | .advanceMinute _ e => pure (.executionMinute e)
  | .queueAdvance _ e throughAt throughSequence => do
      let _ ← validateCapture spec e.toQueueMarket
      pure (.executionQueue e (throughAt.getD e.capture.endAt)
        (throughSequence.getD e.capture.endSequence))
  | .submit _ session plan proofs => do
      authorize spec session false
      let (phase, _) ← submissionPhase spec session
      pure (.planSubmit phase.phaseId plan proofs session.actorId)
  | .advance _ at_ proofs => pure (.planAdvance at_ proofs)
  | .expireDay _ day cursors at_ rules => pure (.planDayExpiry day at_ cursors rules)

/-! ## What the log answers -/

def World.Answered (w : World) (actionId : String) (r : Request) : Prop :=
  ∃ e, w.events.find? (fun e => e.actionId = actionId) = some e ∧ e.request = r

def World.Planned (w : World) (planId : String) (r : Request) : Prop :=
  ∃ p, w.plans.plans.get? planId = some p ∧ p.request = r

def PlansAnswered (w : World) : Prop :=
  ∀ planId p, w.plans.plans.get? planId = some p →
    w.Answered p.submissionActionId p.request

variable {message : String}

theorem World.prior_answered (h : w.Answered aid r) : w.prior aid r message = .ok true := by
  obtain ⟨e, he, rfl⟩ := h
  simp only [World.prior, he, refuse, ne_eq, not_true_eq_false, if_false]
  rfl

theorem World.prior_unused (h : w.Unused aid) : w.prior aid r message = .ok false := by
  rw [World.prior, List.find?_eq_none.mpr fun e he => by simpa using h e he]
  rfl

theorem World.prior_cases {b : Bool} (h : w.prior aid r message = .ok b) :
    b = true ∧ w.Answered aid r ∨ b = false ∧ w.Unused aid := by
  rcases World.prior_ok h with ⟨rfl, -⟩ | h
  · refine .inl ⟨rfl, ?_⟩
    unfold World.prior at h
    split at h
    · cases h
    · next e he =>
        simp only [bind_ok, refuse_ok, not_not] at h
        obtain ⟨-, hrequest, -⟩ := h
        exact ⟨e, he, hrequest⟩
  · exact .inr h

theorem World.Answered.used (h : w.Answered aid r) : ¬ w.Unused aid := by
  obtain ⟨e, he, -⟩ := h
  exact fun hfree => hfree e (List.mem_of_find?_eq_some he) (by simpa using List.find?_some he)

theorem World.Answered.append {es : List AccountEvent} (h : w.Answered aid r)
    (hevents : w'.events = w.events ++ es) : w'.Answered aid r := by
  obtain ⟨e, he, hrequest⟩ := h
  exact ⟨e, by rw [hevents, List.find?_append, he]; rfl, hrequest⟩

theorem World.Unused.append {e : AccountEvent} (h : w.Unused aid)
    (hevents : w'.events = w.events ++ [e]) (hne : e.actionId ≠ aid) : w'.Unused aid := by
  intro f hf
  rw [hevents, List.mem_append, List.mem_singleton] at hf
  rcases hf with hf | rfl
  · exact h f hf
  · exact hne

/-! ## What a step does with an identity -/

structure Recorded (w w' : World) (c : Command) (r : Request) : Prop where
  unused : w.Unused c.actionId
  event : ∃ e, w'.events = w.events ++ [e] ∧ e.actionId = c.actionId ∧ e.request = r
  plans : w'.plans.plans = w.plans.plans ∨ ∃ planId p, w.plans.plans.get? planId = none ∧
    w'.plans.plans = w.plans.plans.set planId p ∧ p.request = r ∧
    p.submissionActionId = c.actionId

inductive Known (w : World) (c : Command) (r : Request) : Prop
  | logged (h : w.Answered c.actionId r)
  | planned {actionId : String} {session : Session} {plan : StagePlan}
      {proofs : List AcceptanceEvidence} (hc : c = .submit actionId session plan proofs)
      (hunused : w.Unused c.actionId) (h : w.Planned plan.planId r)

theorem World.commit_event {operation : Operation} {effects : List Effect} {o : Outcome}
    (h : w.commit spec aid r operation effects o = .ok w') :
    (∃ e, w'.events = w.events ++ [e] ∧ e.actionId = aid ∧ e.request = r) ∧ w'.plans = w.plans := by
  obtain ⟨o', -, rfl⟩ := World.commit_ok h
  exact ⟨⟨_, rfl, rfl, rfl⟩, rfl⟩

theorem World.publish_event {st : Staged} {x : ExecutionState} {p : PlansState} {at_ : Instant}
    (h : w.publish spec aid r st x p at_ = .ok w') :
    (∃ e, w'.events = w.events ++ [e] ∧ e.actionId = aid ∧ e.request = r) ∧ w'.plans = p := by
  obtain ⟨o', -, rfl⟩ := World.publish_ok h
  exact ⟨⟨_, rfl, rfl, rfl⟩, rfl⟩

theorem Recorded.of_commit {operation : Operation} {effects : List Effect} {o : Outcome}
    (hunused : w.Unused c.actionId) (h : w.commit spec c.actionId r operation effects o = .ok w') :
    Recorded w w' c r :=
  ⟨hunused, (World.commit_event h).1, .inl (by rw [(World.commit_event h).2])⟩

theorem Recorded.of_publish {st : Staged} {x : ExecutionState} {p : PlansState} {at_ : Instant}
    (hunused : w.Unused c.actionId) (h : w.publish spec c.actionId r st x p at_ = .ok w')
    (hplans : p.plans = w.plans.plans) : Recorded w w' c r :=
  ⟨hunused, (World.publish_event h).1, .inl (by rw [(World.publish_event h).2, hplans])⟩

theorem once_answer {body : Attempt World}
    (h : (do if ← w.prior c.actionId r message then pure w else body) = .ok w')
    (hbody : w.Unused c.actionId → body = .ok w' → w' = w ∧ Known w c r ∨ Recorded w w' c r) :
    w' = w ∧ Known w c r ∨ Recorded w w' c r := by
  obtain ⟨prior, hprior, h⟩ := bind_ok.mp h
  rcases World.prior_cases hprior with ⟨rfl, hknown⟩ | ⟨rfl, hunused⟩
  · exact .inl ⟨(pure_ok.mp h).symm, .logged hknown⟩
  · exact hbody hunused h

variable {proofs : List AcceptanceEvidence}

theorem submit_answer {session : Session} {plan : StagePlan}
    (h : submit spec w aid session plan proofs = .ok w') :
    ∃ r, (Command.submit aid session plan proofs).request spec = .ok r ∧
      (w' = w ∧ Known w (.submit aid session plan proofs) r ∨
        Recorded w w' (.submit aid session plan proofs) r) := by
  obtain ⟨_, hallowed, h⟩ := bind_ok.mp h
  obtain ⟨⟨phase, at_⟩, hphase, h⟩ := bind_ok.mp h
  refine ⟨_, bind_ok.mpr ⟨_, hallowed, bind_ok.mpr ⟨_, hphase, rfl⟩⟩,
    once_answer h fun hunused hbody => ?_⟩
  split at hbody
  · next p hp =>
      simp only [bind_ok, refuse_ok, not_not, pure_ok] at hbody
      obtain ⟨-, hrequest, -, -, rfl⟩ := hbody
      exact .inl ⟨rfl, .planned rfl hunused ⟨p, hp, hrequest⟩⟩
  · next hnew =>
      simp only [bind_ok] at hbody
      obtain ⟨_, -, ⟨st, x, plans⟩, hstage, hpublish⟩ := hbody
      obtain ⟨_, _, _, _, _, _, -, -, -, -, -, -, -, -, rfl⟩ := submitStage_ok hstage
      obtain ⟨hevent, hplans⟩ := World.publish_event hpublish
      exact .inr ⟨hunused, hevent,
        .inr ⟨plan.planId, _, hnew, congrArg PlansState.plans hplans, rfl, rfl⟩⟩

theorem step_answer (h : step spec w c = .ok w') :
    ∃ r, c.request spec = .ok r ∧ (w' = w ∧ Known w c r ∨ Recorded w w' c r) := by
  cases c with
  | opening aid running =>
      refine ⟨_, rfl, once_answer h fun hunused hbody => ?_⟩
      simp only [bind_ok] at hbody
      obtain ⟨_, _, _, _, o, _, hcommit⟩ := hbody
      exact .inr (.of_commit hunused hcommit)
  | account aid r =>
      obtain ⟨_, hcheck, h⟩ := bind_ok.mp h
      refine ⟨_, bind_ok.mpr ⟨_, hcheck, rfl⟩, once_answer h fun hunused hbody => ?_⟩
      simp only [bind_ok] at hbody
      obtain ⟨_, _, o, _, hcommit⟩ := hbody
      exact .inr (.of_commit hunused hcommit)
  | acceptBatch aid orders proofs at_ =>
      refine ⟨_, rfl, once_answer h fun hunused hbody => ?_⟩
      simp only [bind_ok] at hbody
      obtain ⟨_, _, _, _, _, _, _, _, _, _, hpublish⟩ := hbody
      exact .inr (.of_publish hunused hpublish rfl)
  | advanceMinute aid e =>
      refine ⟨_, rfl, once_answer h fun hunused hbody => ?_⟩
      simp only [bind_ok] at hbody
      obtain ⟨_, _, _, _, _, _, _, _, _, _, _, _, _, _, hpublish⟩ := hbody
      exact .inr (.of_publish hunused hpublish rfl)
  | queueAdvance aid e throughAt throughSequence =>
      obtain ⟨volumes, hvolumes, h⟩ := bind_ok.mp h
      refine ⟨_, bind_ok.mpr ⟨_, hvolumes, rfl⟩, once_answer h fun hunused hbody => ?_⟩
      simp only [bind_ok] at hbody
      obtain ⟨_, _, _, _, _, _, _, _, _, _, _, _, _, _, _, _, _, _, hpublish⟩ := hbody
      exact .inr (.of_publish hunused hpublish rfl)
  | submit aid session plan proofs => exact submit_answer h
  | advance aid at_ proofs =>
      refine ⟨_, rfl, once_answer h fun hunused hbody => ?_⟩
      simp only [bind_ok] at hbody
      obtain ⟨_, _, _, _, _, _, run, _, hpublish⟩ := hbody
      exact .inr (.of_publish hunused hpublish rfl)
  | expireDay aid day cursors at_ rules =>
      refine ⟨_, rfl, once_answer h fun hunused hbody => ?_⟩
      simp only [bind_ok] at hbody
      obtain ⟨_, _, _, _, _, _, _, _, st, _, hpublish⟩ := hbody
      exact .inr (.of_publish hunused hpublish rfl)

theorem step_known (hr : c.request spec = .ok r) (h : w.Answered c.actionId r) :
    step spec w c = .ok w := by
  cases c with
  | account aid q =>
      obtain ⟨_, hcheck, hq⟩ := bind_ok.mp hr
      cases hq
      exact bind_ok.mpr ⟨_, hcheck, bind_ok.mpr ⟨_, World.prior_answered h, rfl⟩⟩
  | queueAdvance aid e throughAt throughSequence =>
      obtain ⟨volumes, hvolumes, hq⟩ := bind_ok.mp hr
      cases hq
      exact bind_ok.mpr ⟨_, hvolumes, bind_ok.mpr ⟨_, World.prior_answered h, rfl⟩⟩
  | submit aid session plan proofs =>
      obtain ⟨_, hallowed, hq⟩ := bind_ok.mp hr
      obtain ⟨⟨phase, at_⟩, hphase, hq⟩ := bind_ok.mp hq
      cases hq
      exact bind_ok.mpr ⟨_, hallowed, bind_ok.mpr ⟨_, hphase,
        bind_ok.mpr ⟨_, World.prior_answered h, rfl⟩⟩⟩
  | _ =>
      cases hr
      exact bind_ok.mpr ⟨_, World.prior_answered h, rfl⟩

theorem submit_planned {session : Session} {plan : StagePlan}
    (hr : (Command.submit aid session plan proofs).request spec = .ok r) (hunused : w.Unused aid)
    (hw : PlansAnswered w) (h : w.Planned plan.planId r) :
    submit spec w aid session plan proofs = .ok w := by
  obtain ⟨p, hp, rfl⟩ := h
  obtain ⟨_, hallowed, hq⟩ := bind_ok.mp hr
  obtain ⟨⟨phase, at_⟩, hphase, hq⟩ := bind_ok.mp hq
  have hrequest : Request.planSubmit phase.phaseId plan proofs session.actorId = p.request :=
    pure_ok.mp hq
  simp only [submit, World.enginePrior]
  refine bind_ok.mpr ⟨_, hallowed, bind_ok.mpr ⟨_, hphase,
    bind_ok.mpr ⟨false, World.prior_unused hunused, ?_⟩⟩⟩
  simp only [Bool.false_eq_true, if_false, hp, hrequest]
  exact bind_ok.mpr ⟨(), refuse_ok.mpr (by simp),
    bind_ok.mpr ⟨_, World.prior_answered (hw _ p hp), rfl⟩⟩

/-! ## Runs -/

theorem Recorded.logged (h : Recorded w w' c r) : w'.Answered c.actionId r := by
  obtain ⟨e, hevents, hid, hrequest⟩ := h.event
  have hnone : w.events.find? (fun e => e.actionId = c.actionId) = none :=
    List.find?_eq_none.mpr fun e he => by simpa using h.unused e he
  exact ⟨e, by simp [hevents, hnone, hid], hrequest⟩

theorem Recorded.planned {q : Request} {planId : String} (h : Recorded w w' c r)
    (hold : w.Planned planId q) : w'.Planned planId q := by
  obtain ⟨p, hp, hrequest⟩ := hold
  rcases h.plans with hsame | ⟨id, p', hnew, hset, -, -⟩
  · exact ⟨p, hsame ▸ hp, hrequest⟩
  · refine ⟨p, ?_, hrequest⟩
    rw [hset, Dict.get?_set_of_ne fun heq => by
      rw [heq, hnew] at hp
      cases hp]
    exact hp

theorem PlansAnswered.recorded (hw : PlansAnswered w) (h : Recorded w w' c r) :
    PlansAnswered w' := by
  obtain ⟨e, hevents, -⟩ := h.event
  intro planId p hp
  rcases h.plans with hsame | ⟨id, p', hnew, hset, rfl, hid⟩
  · rw [hsame] at hp
    exact (hw planId p hp).append hevents
  · rw [hset, Dict.get?_set] at hp
    split at hp
    · cases hp
      rw [hid]
      exact h.logged
    · exact (hw planId p hp).append hevents

theorem step_answersOnce (spec : AccountSpec) :
    AnswersOnce (step spec) PlansAnswered (fun c w => ∃ r, c.request spec = .ok r ∧ Known w c r)
      fun c d => c.actionId = d.actionId → c.request spec = d.request spec where
  keeps w c w' hw h := by
    obtain ⟨r, -, ⟨rfl, -⟩ | hrecorded⟩ := step_answer h
    · exact hw
    · exact hw.recorded hrecorded
  answered w c w' _ h := by
    obtain ⟨r, hr, ⟨rfl, hknown⟩ | hrecorded⟩ := step_answer h
    · exact ⟨r, hr, hknown⟩
    · exact ⟨r, hr, .logged hrecorded.logged⟩
  remembered w c d w' _ hc hone h := by
    obtain ⟨r, hr, hknown⟩ := hc
    obtain ⟨q, hq, ⟨rfl, -⟩ | hrecorded⟩ := step_answer h
    · exact ⟨r, hr, hknown⟩
    refine ⟨r, hr, ?_⟩
    obtain ⟨e, hevents, hid, -⟩ := hrecorded.event
    cases hknown with
    | logged hlogged => exact .logged (hlogged.append hevents)
    | planned hc hunused hplanned =>
        by_cases hsame : c.actionId = d.actionId
        · -- The submission has been answered for its plan, and is now sent under its own identity.
          obtain rfl : r = q := Except.ok.inj (hr.symm.trans ((hone hsame).trans hq))
          exact .logged (hsame ▸ hrecorded.logged)
        · exact .planned hc (hunused.append hevents fun heq => hsame (heq.symm.trans hid))
            (hrecorded.planned hplanned)
  repeated w c hw hc := by
    obtain ⟨r, hr, hknown⟩ := hc
    cases hknown with
    | logged hlogged => exact step_known hr hlogged
    | planned hc hunused hplanned =>
        subst hc
        exact submit_planned hr hunused hw hplanned

/-- Commands sent again change nothing, as long as one thing is asked under one
identity: the run ends in the same world, and fails only where the run without
them fails. -/
theorem resent_commands_change_nothing {cs ds : List Command}
    (hone : ∀ c ∈ cs, ∀ d ∈ cs, c.actionId = d.actionId → c.request spec = d.request spec)
    (h : Resent cs ds) :
    walk (step spec) World.start ds = .ok w ↔ walk (step spec) World.start cs = .ok w :=
  (step_answersOnce spec).resent (fun _ _ hp => by cases hp) hone h

/-- The whole of a run can be sent again. -/
theorem resent_commands_change_nothing_sample : ∃ w, w.events.length = 6 ∧
    walk (step sampleSpec) World.start (sampleTrades ++ sampleTrades) = .ok w := by
  have hrun : ((walk (step sampleSpec) World.start sampleTrades).toOption.any
      fun w => w.events.length = 6) = true := by
    decide +kernel
  obtain ⟨w, hw, hlength⟩ := (Option.any_eq_true _ _).mp hrun
  refine ⟨w, of_decide_eq_true hlength, (resent_commands_change_nothing (by decide +kernel)
    (.append (.refl _) fun _ hc => hc)).mpr ?_⟩
  cases h : walk (step sampleSpec) World.start sampleTrades with
  | error _ =>
      rw [h] at hw
      cases hw
  | ok v =>
      rw [h] at hw
      cases hw
      rfl

/-! ## Identities -/

theorem reachable_identities (h : Reachable spec w) :
    w.events.Pairwise fun e f => e.actionId ≠ f.actionId := by
  refine h.invariant (P := fun w => w.events.Pairwise fun e f => e.actionId ≠ f.actionId)
    List.Pairwise.nil fun w c w' _ hw hstep _ => ?_
  obtain ⟨r, -, ⟨rfl, -⟩ | hrecorded⟩ := step_answer hstep
  · exact hw
  · obtain ⟨e, hevents, hid, -⟩ := hrecorded.event
    rw [hevents, List.pairwise_append]
    refine ⟨hw, List.pairwise_singleton .., fun f hf g hg => ?_⟩
    rw [List.mem_singleton.mp hg, hid]
    exact hrecorded.unused f hf

end Ahunter.Sim
