import Ahunter.Lib.Attempt
import Mathlib.Data.List.Induction

/-!
# Commands sent again

A sender that is not told whether a command was answered sends it again. If a
machine answers a command that it has answered before without doing anything,
and no other command takes that back, then a run with commands sent again ends
where the run without them ends, and it fails only if that one does.
-/

namespace Ahunter.Lib

variable {σ κ ε : Type} {step : σ → κ → Except ε σ} {Inv : σ → Prop} {Done : κ → σ → Prop}
  {Apart : κ → κ → Prop} {cs ds : List κ} {s s' : σ}

inductive Resent {κ : Type} : List κ → List κ → Prop
  | nil : Resent [] []
  | send (c : κ) {cs ds : List κ} (h : Resent cs ds) : Resent (cs ++ [c]) (ds ++ [c])
  | again {c : κ} {cs ds : List κ} (h : Resent cs ds) (hc : c ∈ cs) : Resent cs (ds ++ [c])

theorem Resent.refl (cs : List κ) : Resent cs cs := by
  induction cs using List.reverseRecOn with
  | nil => exact .nil
  | append_singleton cs c ih => exact .send c ih

/-- Any of the commands may be sent again at the end. -/
theorem Resent.append {es : List κ} (h : Resent cs ds) (hes : ∀ c ∈ es, c ∈ cs) :
    Resent cs (ds ++ es) := by
  induction es generalizing ds with
  | nil => rwa [List.append_nil]
  | cons c es ih =>
      rw [List.append_cons]
      exact ih (.again h (hes c List.mem_cons_self)) fun d hd => hes d (List.mem_cons_of_mem _ hd)

structure AnswersOnce (step : σ → κ → Except ε σ) (Inv : σ → Prop) (Done : κ → σ → Prop)
    (Apart : κ → κ → Prop) : Prop where
  keeps : ∀ s c s', Inv s → step s c = .ok s' → Inv s'
  answered : ∀ s c s', Inv s → step s c = .ok s' → Done c s'
  remembered : ∀ s c d s', Inv s → Done c s → Apart c d → step s d = .ok s' → Done c s'
  repeated : ∀ s c, Inv s → Done c s → step s c = .ok s

theorem AnswersOnce.run (hm : AnswersOnce step Inv Done Apart) (hs : Inv s)
    (hapart : ∀ c ∈ cs, ∀ d ∈ cs, Apart c d) (h : walk step s cs = .ok s') :
    Inv s' ∧ ∀ c ∈ cs, Done c s' := by
  induction cs using List.reverseRecOn generalizing s' with
  | nil =>
      cases h
      exact ⟨hs, by simp⟩
  | append_singleton cs d ih =>
      rw [walk_append, bind_ok] at h
      obtain ⟨t, hbefore, h⟩ := h
      obtain ⟨t', hstep, hend⟩ := walk_cons_ok.mp h
      cases hend
      have hsub : ∀ c ∈ cs, c ∈ cs ++ [d] := fun c hc => List.mem_append_left _ hc
      obtain ⟨ht, hdone⟩ :=
        ih (fun c hc e he => hapart c (hsub c hc) e (hsub e he)) hbefore
      refine ⟨hm.keeps _ _ _ ht hstep, fun c hc => ?_⟩
      rcases List.mem_append.mp hc with hc | hc
      · exact hm.remembered _ _ _ _ ht (hdone c hc) (hapart c (hsub c hc) d (by simp)) hstep
      · rw [List.mem_singleton.mp hc]
        exact hm.answered _ _ _ ht hstep

/-- Sending commands again changes nothing, of the outcome or of what fails. -/
theorem AnswersOnce.resent (hm : AnswersOnce step Inv Done Apart) (hs : Inv s)
    (hapart : ∀ c ∈ cs, ∀ d ∈ cs, Apart c d) (h : Resent cs ds) :
    walk step s ds = .ok s' ↔ walk step s cs = .ok s' := by
  induction h generalizing s' with
  | nil => exact Iff.rfl
  | @send c cs ds _ ih =>
      have hsame : ∀ t, walk step s ds = .ok t ↔ walk step s cs = .ok t := fun t =>
        ih fun a ha b hb => hapart a (List.mem_append_left _ ha) b (List.mem_append_left _ hb)
      simp only [walk_append, bind_ok, hsame]
  | @again c cs ds _ hc ih =>
      rw [walk_append, bind_ok]
      constructor
      · rintro ⟨t, hbefore, hstep⟩
        have hrun := (ih hapart).mp hbefore
        obtain ⟨t', hone, hend⟩ := walk_cons_ok.mp hstep
        cases hend
        obtain ⟨ht, hdone⟩ := hm.run hs hapart hrun
        rw [hm.repeated t c ht (hdone c hc)] at hone
        exact Except.ok.inj hone ▸ hrun
      · intro hrun
        obtain ⟨ht, hdone⟩ := hm.run hs hapart hrun
        exact ⟨s', (ih hapart).mpr hrun,
          walk_cons_ok.mpr ⟨s', hm.repeated s' c ht (hdone c hc), rfl⟩⟩

end Ahunter.Lib
