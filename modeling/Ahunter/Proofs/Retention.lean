import Ahunter.Proofs.RecordReads
import Ahunter.Records.Sources

/-!
# What retention spares

Nobody takes a permanent reference back: links are only added, and the class of
a row stays as it is or becomes permanent, except where the research repository
records an artifact again, which overwrites the class. Bytes are deleted only
where all links are of expired sources and the class is that of a source. So
as long as no artifact is recorded anew under the policy of a source, what has
been referred to permanently stays.
-/

namespace Ahunter.Records

open Ahunter.Lib
open Ahunter.Sim (Instant)

variable {X P V A : Type} {g : Digest A} {w w' : Archive X P V A} {now : Instant}
  {faults : FaultPoint → Bool} {h : String}

/-! ## References -/

def Protected (rows : Dict String ArtifactRow) (h : String) : Prop :=
  ∃ row, rows.get? h = some row ∧ row.retentionClass ≠ sourcePolicy

def Archive.Permanent (w : Archive X P V A) (h : String) : Prop :=
  (∃ r ∈ w.db.records, h ∈ r.artifactHashes) ∨ Protected w.artifacts h

def Archive.ExpiredSource (w : Archive X P V A) (now : Instant)
    (record : Record (SourceValue X)) : Prop :=
  ∃ document, record.kind = .sourceDocument ∧ Archive.documentOf record = .ok document ∧
    w.expired now record document

section Rows

variable {rows : Dict String ArtifactRow} {retention : String} {l : List (String × String)}

theorem refer_protects {k : String} (hk : Protected rows k) :
    Protected (Archive.refer rows h retention) k := by
  obtain ⟨row, hrow, hclass⟩ := hk
  unfold Archive.refer
  split
  · next hnone =>
      refine ⟨row, ?_, hclass⟩
      rw [Dict.get?_set_of_ne, hrow]
      rintro rfl
      rw [hnone] at hrow
      cases hrow
  · next old hold =>
      by_cases hkh : k = h
      · subst hkh
        rw [hold] at hrow
        cases hrow
        refine ⟨_, Dict.get?_set_self _ _ _, ?_⟩
        dsimp only
        split
        · next hpermanent =>
            rw [hpermanent]
            decide
        · exact hclass
      · exact ⟨row, by rw [Dict.get?_set_of_ne hkh, hrow], hclass⟩

theorem refer_back {k : String} (hk : Protected (Archive.refer rows h retention) k) :
    (k = h ∧ retention ≠ sourcePolicy) ∨ Protected rows k := by
  obtain ⟨row, hrow, hclass⟩ := hk
  unfold Archive.refer at hrow
  split at hrow
  · rw [Dict.get?_set] at hrow
    split at hrow
    · next hkh =>
        cases hrow
        exact Or.inl ⟨hkh, hclass⟩
    · exact Or.inr ⟨row, hrow, hclass⟩
  · next old hold =>
      rw [Dict.get?_set] at hrow
      split at hrow
      · next hkh =>
          cases hrow
          dsimp only at hclass
          split at hclass
          · exact Or.inl ⟨hkh, hclass⟩
          · exact Or.inr ⟨old, hkh ▸ hold, hclass⟩
      · exact Or.inr ⟨row, hrow, hclass⟩

theorem referAll_protects {k : String} (hk : Protected rows k) :
    Protected (l.foldl (fun rows e => Archive.refer rows e.1 e.2) rows) k := by
  induction l generalizing rows with
  | nil => exact hk
  | cons e l ih => exact ih (refer_protects hk)

theorem referAll_back {k : String}
    (hk : Protected (l.foldl (fun rows e => Archive.refer rows e.1 e.2) rows) k) :
    (∃ e ∈ l, e.1 = k ∧ e.2 ≠ sourcePolicy) ∨ Protected rows k := by
  induction l generalizing rows with
  | nil => exact Or.inr hk
  | cons e l ih =>
      rcases ih hk with ⟨e', he', hsame⟩ | hprotected
      · exact Or.inl ⟨e', List.mem_cons_of_mem _ he', hsame⟩
      · rcases refer_back hprotected with ⟨rfl, hclass⟩ | hold
        · exact Or.inl ⟨e, List.mem_cons_self, rfl, hclass⟩
        · exact Or.inr hold

theorem references_permanent {R : Type} {r : Record R} {e : String × String}
    (he : e ∈ Archive.references r) (hclass : e.2 ≠ sourcePolicy) : e.1 ∈ r.artifactHashes := by
  rcases List.mem_append.mp he with hmem | hmem
  · obtain ⟨k, hk, rfl⟩ := List.mem_map.mp hmem
    exact hk
  · obtain ⟨k, _, rfl⟩ := List.mem_map.mp hmem
    exact absurd rfl hclass

end Rows

/-! ## Insertions -/

theorem prepare_reads {R : Type} {host : Host A} {request p : Prepared R}
    (hprepare : prepare host request = .ok p) :
    ∀ k ∈ p.artifactHashes ++ p.sourcePolicyHashes, (host.artifacts k).isSome = true := by
  simp only [prepare, bind_ok, refuse_ok, pure_ok] at hprepare
  obtain ⟨_, _, _, _, u, hwalk, rfl⟩ := hprepare
  intro k hk
  obtain ⟨a, hread, _⟩ := bind_ok.mp (walk_unit.mp hwalk k hk)
  rw [Host.readJson, need_ok] at hread
  rw [hread]
  rfl

theorem Archive.put_cases [DecidableEq X] (g : Digest A) (now : Instant) (faults : FaultPoint → Bool)
    (request : Prepared (SourceValue X)) (w : Archive X P V A) :
    (w.put g now faults request).2 = w ∨
      ∃ r, (w.put g now faults request).2 = { w with
          db := { w.db with records := w.db.records ++ [r] }
          artifacts := (references r).foldl (fun rows e => refer rows e.1 e.2) w.artifacts } ∧
        ∀ k ∈ r.artifactHashes ++ r.sourcePolicyHashes, (w.bytes g k).isSome = true := by
  have hput : (w.put g now faults request).2 = { w with
      db := (w.db.put (w.host g now faults) request).2
      artifacts := (((w.db.put (w.host g now faults) request).2.records.drop
        w.db.records.length).flatMap references).foldl (fun rows e => refer rows e.1 e.2)
          w.artifacts } := rfl
  rw [hput]
  rcases Db.put_cases (w.host g now faults) request w.db with
    hsame | ⟨p, r, hprepare, hr, _, _, hleft⟩
  · rw [hsame, List.drop_length]
    exact Or.inl rfl
  · refine Or.inr ⟨r, ?_, ?_⟩
    · rw [hleft, List.drop_left, List.flatMap_singleton]
    · have hreads := prepare_reads hprepare
      rw [← hr] at hreads
      exact hreads

/-! ## What nobody takes back -/

/-- Records stay, and so does what is permanent. -/
structure Archive.Grows (w w' : Archive X P V A) : Prop where
  records : ∃ new, w'.db.records = w.db.records ++ new
  permanent : ∀ h, w.Permanent h → w'.Permanent h

theorem Archive.Grows.refl (w : Archive X P V A) : w.Grows w :=
  ⟨⟨[], (List.append_nil _).symm⟩, fun _ h => h⟩

theorem Archive.Grows.trans {u : Archive X P V A} (huw : u.Grows w) (hww : w.Grows w') :
    u.Grows w' where
  records := by
    obtain ⟨new, hnew⟩ := huw.records
    obtain ⟨new', hnew'⟩ := hww.records
    exact ⟨new ++ new', by rw [hnew', hnew, List.append_assoc]⟩
  permanent h hh := hww.permanent h (huw.permanent h hh)

/-- Files lie under their hashes, and what is permanent is there. -/
structure Archive.Shelved (g : Digest A) (w : Archive X P V A) : Prop where
  intact : ∀ h a, w.files.get? h = some a → g.hash a = h
  present : ∀ h, w.Permanent h → ∃ a, w.files.get? h = some a

theorem Archive.Shelved.start (g : Digest A) (experiments : List String) :
    (Archive.start (X := X) (P := P) (V := V) experiments).Shelved g where
  intact h a hget := by cases hget
  present h hh := by
    rcases hh with ⟨r, hr, _⟩ | ⟨row, hrow, _⟩
    · cases hr
    · cases hrow

theorem Archive.bytes_some {a : A} (hbytes : w.bytes g h = some a) :
    w.files.get? h = some a := (Option.filter_eq_some_iff.mp hbytes).1

theorem Archive.put_spares [DecidableEq X] (request : Prepared (SourceValue X)) (hw : w.Shelved g) :
    w.Grows (w.put g now faults request).2 ∧ (w.put g now faults request).2.Shelved g ∧
      (w.put g now faults request).2.files = w.files := by
  rcases Archive.put_cases g now faults request w with hsame | ⟨r, hput, hthere⟩
  · rw [hsame]
    exact ⟨Archive.Grows.refl w, hw, rfl⟩
  rw [hput]
  refine ⟨⟨⟨[r], rfl⟩, fun h hh => ?_⟩, ⟨hw.intact, fun h hh => ?_⟩, rfl⟩
  · rcases hh with ⟨s, hs, hmem⟩ | hrow
    · exact Or.inl ⟨s, List.mem_append_left _ hs, hmem⟩
    · exact Or.inr (referAll_protects hrow)
  · have hnew : h ∈ r.artifactHashes → ∃ a, w.files.get? h = some a := by
      intro hmem
      obtain ⟨a, ha⟩ := Option.isSome_iff_exists.mp (hthere h (List.mem_append_left _ hmem))
      exact ⟨a, Archive.bytes_some ha⟩
    rcases hh with ⟨s, hs, hmem⟩ | hrow
    · rcases List.mem_append.mp hs with hold | hs
      · exact hw.present h (Or.inl ⟨s, hold, hmem⟩)
      · rw [List.mem_singleton.mp hs] at hmem
        exact hnew hmem
    · rcases referAll_back hrow with ⟨e, he, rfl, hclass⟩ | hold
      · exact hnew (references_permanent he hclass)
      · exact hw.present h (Or.inr hold)

theorem Archive.store_spares {a : A} (hstore : w.store g a = .ok w') (hw : w.Shelved g) :
    w.Grows w' ∧ w'.Shelved g ∧ w'.artifacts = w.artifacts ∧
      (∃ b, w'.files.get? (g.hash a) = some b) ∧
        ∀ h b, w.files.get? h = some b → ∃ b', w'.files.get? h = some b' := by
  unfold Archive.store at hstore
  split at hstore
  · next hnone =>
      cases pure_ok.mp hstore
      have hthere : ∀ h b, w.files.get? h = some b →
          (w.files.set (g.hash a) a).get? h = some b := by
        intro h b hget
        rw [Dict.get?_set_of_ne, hget]
        rintro rfl
        rw [hnone] at hget
        cases hget
      refine ⟨⟨⟨[], (List.append_nil _).symm⟩, fun _ h => h⟩, ⟨fun h b hget => ?_, fun h hh => ?_⟩,
        rfl, ⟨a, Dict.get?_set_self _ _ _⟩, fun h b hget => ⟨b, hthere h b hget⟩⟩
      · rw [Dict.get?_set] at hget
        split at hget
        · next hh =>
            cases hget
            exact hh.symm
        · exact hw.intact h b hget
      · obtain ⟨b, hb⟩ := hw.present h hh
        exact ⟨b, hthere h b hb⟩
  · next b hb =>
      simp only [bind_ok, pure_ok] at hstore
      obtain ⟨_, _, rfl⟩ := hstore
      exact ⟨Archive.Grows.refl w, hw, rfl, ⟨b, hb⟩, fun h b hget => ⟨b, hget⟩⟩

def Archive.Allows (w : Archive X P V A) (contentHash retentionClass : String) : Prop :=
  retentionClass = sourcePolicy →
    ∀ row ∈ w.artifacts.get? contentHash, row.retentionClass = sourcePolicy

theorem Archive.recordArtifact_spares {contentHash retentionClass : String}
    (hallows : w.Allows contentHash retentionClass) (hw : w.Shelved g)
    (hthere : ∃ a, w.files.get? contentHash = some a) :
    w.Grows (w.recordArtifact contentHash retentionClass) ∧
      (w.recordArtifact contentHash retentionClass).Shelved g := by
  refine ⟨⟨⟨[], (List.append_nil _).symm⟩, fun h hh => ?_⟩, ⟨hw.intact, fun h hh => ?_⟩⟩
  · rcases hh with hlink | ⟨row, hrow, hclass⟩
    · exact Or.inl hlink
    · by_cases hk : h = contentHash
      · subst hk
        refine Or.inr ⟨_, Dict.get?_set_self _ _ _, fun hpolicy => ?_⟩
        exact hclass (hallows hpolicy row hrow)
      · exact Or.inr ⟨row, by rw [← hrow]; exact Dict.get?_set_of_ne hk, hclass⟩
  · rcases hh with hlink | ⟨row, hrow, hclass⟩
    · exact hw.present h (Or.inl hlink)
    · replace hrow : (w.artifacts.set contentHash ⟨retentionClass, "available"⟩).get? h
          = some row := hrow
      rw [Dict.get?_set] at hrow
      split at hrow
      · next hk => exact hk ▸ hthere
      · exact hw.present h (Or.inr ⟨row, hrow, hclass⟩)

/-! ## Sweeping -/

theorem Archive.soleExpired_ok {refs : List (Record (SourceValue X) × String)}
    (hsole : w.soleExpired now refs = .ok true) :
    ∀ e ∈ refs, e.2 = sourcePolicy ∧ w.ExpiredSource now e.1 := by
  induction refs with
  | nil => exact fun e he => by cases he
  | cons e refs ih =>
      obtain ⟨record, retention⟩ := e
      rw [Archive.soleExpired] at hsole
      split at hsole
      · cases hsole
      · next hretention =>
          split at hsole
          · cases hsole
          · next hkind =>
              simp only [bind_ok] at hsole
              obtain ⟨other, hother, hsole⟩ := hsole
              split at hsole
              · cases hsole
              · next hexpired =>
                  intro e he
                  rcases List.mem_cons.mp he with rfl | he
                  · exact ⟨not_not.mp hretention, other, not_not.mp hkind, hother,
                      not_not.mp hexpired⟩
                  · exact ih hsole e he

theorem Archive.deletable_ok (hdeletable : w.deletable now h = .ok true) :
    ¬ w.Permanent h ∧ ∀ r ∈ w.db.records, h ∈ r.sourcePolicyHashes → w.ExpiredSource now r := by
  simp only [Archive.deletable, bind_ok, pure_ok, Bool.and_eq_true, decide_eq_true_eq]
    at hdeletable
  obtain ⟨free, hsole, ⟨row, hrow, hpolicy⟩, rfl⟩ := hdeletable
  have hrefs := Archive.soleExpired_ok hsole
  refine ⟨?_, fun r hr hmem => ?_⟩
  · rintro (⟨r, hr, hmem⟩ | ⟨row', hrow', hclass⟩)
    · have hlink : (r, "permanent") ∈ w.refs h := by
        refine List.mem_flatMap.mpr ⟨r, hr, List.mem_append_left _ ?_⟩
        rw [if_pos hmem]
        exact List.mem_singleton_self _
      have hpolicy : "permanent" = sourcePolicy := (hrefs _ hlink).1
      exact absurd hpolicy (by decide)
    · rw [Option.mem_def.mp hrow] at hrow'
      cases hrow'
      exact hclass hpolicy
  · have hlink : (r, sourcePolicy) ∈ w.refs h := by
      refine List.mem_flatMap.mpr ⟨r, hr, List.mem_append_right _ ?_⟩
      rw [if_pos hmem]
      exact List.mem_singleton_self _
    exact (hrefs _ hlink).2

theorem Archive.sweep_cases (crash : SweepFault → Bool) (contentHash : String) :
    (w.sweep now crash contentHash).2 = w ∨ (w.deletable now contentHash = .ok true ∧
        (w.sweep now crash contentHash).2.db = w.db ∧
        (w.sweep now crash contentHash).2.files = w.files.erase contentHash ∧
        ∀ k, Protected (w.sweep now crash contentHash).2.artifacts k ↔ Protected w.artifacts k) := by
  unfold Archive.sweep
  dsimp only
  split
  · exact Or.inl rfl
  · split
    · exact Or.inl rfl
    · exact Or.inl rfl
  · next hdeletable =>
      have hrows : ∀ k, Protected (w.artifacts.map fun k row =>
          if k = contentHash then { row with availability := "expired" } else row) k ↔
            Protected w.artifacts k := by
        intro k
        constructor
        · rintro ⟨row, hrow, hclass⟩
          rw [Dict.get?_map] at hrow
          obtain ⟨old, hold, rfl⟩ := Option.map_eq_some_iff.mp hrow
          refine ⟨old, hold, fun hpolicy => hclass ?_⟩
          split
          · exact hpolicy
          · exact hpolicy
        · rintro ⟨row, hrow, hclass⟩
          refine ⟨_, by rw [Dict.get?_map, hrow, Option.map_some], fun hpolicy => hclass ?_⟩
          split at hpolicy
          · exact hpolicy
          · exact hpolicy
      split
      · exact Or.inl rfl
      · split
        · exact Or.inr ⟨hdeletable, rfl, rfl, fun _ => Iff.rfl⟩
        · split
          · exact Or.inr ⟨hdeletable, rfl, rfl, hrows⟩
          · exact Or.inr ⟨hdeletable, rfl, rfl, hrows⟩

/-! ## Turns -/

def Turn.Allowed (g : Digest A) (turn : Turn X A) (w : Archive X P V A) : Prop :=
  match turn.act with
  | .artifact a retentionClass true => w.Allows (g.hash a) retentionClass
  | _ => True

section Turns

variable [DecidableEq X]

theorem Archive.register_cases (experimentId testId submissionIdentity : String)
    (document : SourceDocument) :
    (w.register g now faults experimentId testId submissionIdentity document).2 = w ∨
      ∃ request, (w.register g now faults experimentId testId submissionIdentity document).2
        = (w.put g now faults request).2 := by
  unfold Archive.register
  dsimp only
  split
  · exact Or.inl rfl
  · exact Or.inl rfl
  · exact Or.inr ⟨_, rfl⟩

theorem Archive.expire_cases (crash : SweepFault → Bool) (recordId submissionIdentity : String) :
    (w.expire g now faults crash recordId submissionIdentity).2 = w ∨
      ∃ request, (w.expire g now faults crash recordId submissionIdentity).2
          = (w.put g now faults request).2 ∨
        ∃ contentHash, (w.expire g now faults crash recordId submissionIdentity).2
          = ((w.put g now faults request).2.sweep now crash contentHash).2 := by
  unfold Archive.expire
  split
  · exact Or.inl rfl
  · next record document _ =>
      split
      · exact Or.inl rfl
      · refine Or.inr ⟨expirationRequest g record document submissionIdentity, ?_⟩
        split
        · next e w' hput =>
            rw [hput]
            exact Or.inl rfl
        · next expiration w' hput =>
            rw [hput]
            refine Or.inr ⟨document.contentHash, ?_⟩
            split
            · next hsweep => rw [hsweep]
            · next hsweep => rw [hsweep]

/-- What a turn leaves: records and permanent references stay, what is permanent
is there, and only bytes that may be deleted are gone. -/
structure Spares (g : Digest A) (now : Instant) (w w' : Archive X P V A) : Prop where
  grows : w.Grows w'
  shelved : w'.Shelved g
  deleted : ∀ h a, w.files.get? h = some a → w'.files.get? h = none →
    ¬ w'.Permanent h ∧ ∀ r ∈ w'.db.records, h ∈ r.sourcePolicyHashes → w'.ExpiredSource now r

omit [DecidableEq X] in
theorem Spares.of_kept (hgrows : w.Grows w') (hshelved : w'.Shelved g)
    (hfiles : ∀ h a, w.files.get? h = some a → ∃ b, w'.files.get? h = some b) :
    Spares g now w w' where
  grows := hgrows
  shelved := hshelved
  deleted h a hget hgone := by
    obtain ⟨b, hb⟩ := hfiles h a hget
    rw [hgone] at hb
    cases hb

omit [DecidableEq X] in
theorem Spares.refl (hw : w.Shelved g) : Spares g now w w :=
  .of_kept (Archive.Grows.refl w) hw fun _ a hget => ⟨a, hget⟩

theorem Archive.insertion_spares (request : Prepared (SourceValue X)) (hw : w.Shelved g) :
    Spares g now w (w.put g now faults request).2 := by
  have hput : w.Grows (w.put g now faults request).2 ∧ _ := Archive.put_spares request hw
  obtain ⟨hgrows, hshelved, hfiles⟩ := hput
  exact .of_kept hgrows hshelved fun h a hget => ⟨a, by rw [hfiles, hget]⟩

omit [DecidableEq X] in
theorem Archive.sweep_spares (crash : SweepFault → Bool) (contentHash : String)
    (hw : w.Shelved g) : Spares g now w (w.sweep now crash contentHash).2 := by
  have hcases : (w.sweep now crash contentHash).2 = w ∨ _ :=
    Archive.sweep_cases crash contentHash
  rcases hcases with hsame | ⟨hdeletable, hdb, hfiles, hrows⟩
  · rw [hsame]
    exact .refl hw
  obtain ⟨hfree, hlinks⟩ := Archive.deletable_ok hdeletable
  have hpermanent : ∀ k, (w.sweep now crash contentHash).2.Permanent k ↔ w.Permanent k := by
    intro k
    rw [Archive.Permanent, Archive.Permanent, hdb, hrows]
  refine ⟨⟨⟨[], by rw [hdb, List.append_nil]⟩, fun k hk => (hpermanent k).mpr hk⟩,
    ⟨fun k a hget => ?_, fun k hk => ?_⟩, fun k a hget hgone => ?_⟩
  · rw [hfiles, Dict.get?_erase] at hget
    split at hget
    · cases hget
    · exact hw.intact k a hget
  · obtain ⟨a, ha⟩ := hw.present k ((hpermanent k).mp hk)
    refine ⟨a, ?_⟩
    rw [hfiles, Dict.get?_erase, if_neg, ha]
    rintro rfl
    exact hfree ((hpermanent k).mp hk)
  · obtain rfl : k = contentHash := by
      by_contra hne
      rw [hfiles, Dict.get?_erase, if_neg hne, hget] at hgone
      cases hgone
    refine ⟨fun hk => hfree ((hpermanent k).mp hk), fun r hr hmem => ?_⟩
    rw [hdb] at hr
    obtain ⟨document, hkind, hdocument, hexpired⟩ := hlinks r hr hmem
    refine ⟨document, hkind, hdocument, ?_⟩
    rw [Archive.expired, Archive.marked, hdb]
    exact hexpired

omit [DecidableEq X] in
theorem Spares.after {u : Archive X P V A} (huw : Spares g now u w)
    (hfiles : w.files = u.files) (hww : Spares g now w w') : Spares g now u w' where
  grows := huw.grows.trans hww.grows
  shelved := hww.shelved
  deleted h a hget := hww.deleted h a (hfiles ▸ hget)

theorem Turn.spares (turn : Turn X A) (hw : w.Shelved g) (hallowed : turn.Allowed g w) :
    Spares g turn.now w (turn.after g w) := by
  obtain ⟨act, now, faults⟩ := turn
  cases act with
  | put request => exact Archive.insertion_spares request hw
  | store a =>
      dsimp only [Turn.after]
      split
      · next hstore =>
          obtain ⟨hgrows, hshelved, _, _, hfiles⟩ := Archive.store_spares hstore hw
          exact .of_kept hgrows hshelved hfiles
      · exact .refl hw
  | artifact a retentionClass recorded =>
      dsimp only [Turn.after]
      split
      · next w' hstore =>
          obtain ⟨hgrows, hshelved, hrows, hthere, hfiles⟩ := Archive.store_spares hstore hw
          cases recorded with
          | false => exact .of_kept hgrows hshelved hfiles
          | true =>
              have hallows : w'.Allows (g.hash a) retentionClass := by
                rw [Archive.Allows, hrows]
                exact hallowed
              obtain ⟨hgrows', hshelved'⟩ :=
                Archive.recordArtifact_spares hallows hshelved hthere
              exact .of_kept (hgrows.trans hgrows') hshelved' hfiles
      · exact .refl hw
  | register experimentId testId submissionIdentity document =>
      show Spares g now w (w.register g now faults experimentId testId submissionIdentity
        document).2
      have hcases : (w.register g now faults experimentId testId submissionIdentity
          document).2 = w ∨ _ :=
        Archive.register_cases experimentId testId submissionIdentity document
      rcases hcases with hsame | ⟨request, hput⟩
      · rw [hsame]
        exact .refl hw
      · rw [hput]
        exact Archive.insertion_spares request hw
  | expire recordId submissionIdentity crash =>
      show Spares g now w (w.expire g now faults crash recordId submissionIdentity).2
      have hcases : (w.expire g now faults crash recordId submissionIdentity).2 = w ∨ _ :=
        Archive.expire_cases crash recordId submissionIdentity
      rcases hcases with hsame | ⟨request, hput | ⟨contentHash, hsweep⟩⟩
      · rw [hsame]
        exact .refl hw
      · rw [hput]
        exact Archive.insertion_spares request hw
      · rw [hsweep]
        have hput : Spares g now w (w.put g now faults request).2 := Archive.insertion_spares request hw
        exact hput.after (Archive.put_spares request hw).2.2
          (Archive.sweep_spares crash contentHash hput.shelved)

/-! ## Runs -/

/-- What allowed turns lead to. -/
inductive Archive.Later (g : Digest A) (u : Archive X P V A) : Archive X P V A → Prop
  | here : Archive.Later g u u
  | next {w : Archive X P V A} (h : Archive.Later g u w) (turn : Turn X A)
      (hallowed : turn.Allowed g w) : Archive.Later g u (turn.after g w)

theorem Archive.Later.grows {u : Archive X P V A} (hu : u.Shelved g) (hlater : u.Later g w) :
    u.Grows w ∧ w.Shelved g := by
  induction hlater with
  | here => exact ⟨Archive.Grows.refl u, hu⟩
  | next _ turn hallowed ih =>
      have hspares := turn.spares ih.2 hallowed
      exact ⟨ih.1.trans hspares.grows, hspares.shelved⟩

/-! ## Expired sources -/

omit [DecidableEq X] in
theorem Archive.readBytes_expired {recordId : String} {record : Record (SourceValue X)}
    {document : SourceDocument} (hdocument : w.document recordId = .ok (record, document))
    (hexpired : w.expired now record document) : ∃ e, w.readBytes g now recordId = .error e := by
  have hview : w.describe g now recordId
      = .ok ⟨recordId, document, false, some "source_policy_expired"⟩ := by
    simp only [Archive.describe, bind_ok, pure_ok]
    refine ⟨_, hdocument, ?_⟩
    simp [hexpired]
  refine ⟨⟨.missing, "source original is unavailable; metadata and hash remain"⟩, ?_⟩
  simp only [Archive.readBytes, bind_error]
  exact Or.inr ⟨_, hview, Or.inl (by simp)⟩

omit [DecidableEq X] in
theorem Archive.Grows.document {recordId : String} {r : Record (SourceValue X) × SourceDocument}
    (hgrows : w.Grows w') (hdocument : w.document recordId = .ok r) :
    w'.document recordId = .ok r := by
  obtain ⟨new, hnew⟩ := hgrows.records
  simp only [Archive.document, bind_ok] at hdocument ⊢
  obtain ⟨record, hread, hrest⟩ := hdocument
  exact ⟨record, Db.read_append hnew hread, hrest⟩

omit [DecidableEq X] in
theorem Archive.Grows.expired {record : Record (SourceValue X)} {document : SourceDocument}
    (hgrows : w.Grows w') (hexpired : w.expired now record document) {now' : Instant}
    (hnow : now ≤ now') : w'.expired now' record document := by
  obtain ⟨new, hnew⟩ := hgrows.records
  rcases hexpired with ⟨r, hr, hmark⟩ | hdeadline
  · exact Or.inl ⟨r, by rw [hnew]; exact List.mem_append_left _ hr, hmark⟩
  · exact Or.inr (hdeadline.trans hnow)

end Turns

/-! ## Shared bytes -/

/-- Source expiry spares what is shared. In every run in which no artifact is
recorded anew under the policy of a source: bytes that a turn deletes have never
been referred to permanently, and all that links to them is expired sources; an
expired source is not read again; and what has been referred to permanently is
there, under its hash. -/
theorem shared_bytes_spared [DecidableEq X] {experiments : List String} {u w : Archive X P V A}
    (hu : (Archive.start experiments).Later g u) (hw : u.Later g w) :
    (∀ turn : Turn X A, turn.Allowed g w → ∀ h a, w.files.get? h = some a →
        (turn.after g w).files.get? h = none →
          ¬ u.Permanent h ∧ ∀ r ∈ (turn.after g w).db.records,
            (h ∈ r.artifactHashes ∨ h ∈ r.sourcePolicyHashes) →
              (turn.after g w).ExpiredSource turn.now r) ∧
      (∀ recordId record document now now', u.document recordId = .ok (record, document) →
        u.expired now record document → now ≤ now' →
          ∃ e, w.readBytes g now' recordId = .error e) ∧
        ∀ h, u.Permanent h → ∃ a, w.files.get? h = some a ∧ g.hash a = h := by
  obtain ⟨_, hshelved⟩ := hu.grows (Archive.Shelved.start g experiments)
  obtain ⟨hgrows, hshelved'⟩ := hw.grows hshelved
  refine ⟨fun turn hallowed h a hget hgone => ?_, fun recordId record document now now' hdocument
    hexpired hnow => ?_, fun h hh => ?_⟩
  · have hspares := turn.spares hshelved' hallowed
    obtain ⟨hfree, hlinks⟩ := hspares.deleted h a hget hgone
    refine ⟨fun hh => hfree (hspares.grows.permanent h (hgrows.permanent h hh)), fun r hr hmem => ?_⟩
    rcases hmem with hpermanent | hpolicy
    · exact absurd (Or.inl ⟨r, hr, hpermanent⟩) hfree
    · exact hlinks r hr hpolicy
  · exact Archive.readBytes_expired (hgrows.document hdocument) (hgrows.expired hexpired hnow)
  · obtain ⟨a, ha⟩ := hshelved'.present h (hgrows.permanent h hh)
    exact ⟨a, ha, hshelved'.intact h a ha⟩

/-! ## A document that is shared -/

def plainDigest : Digest String := ⟨id, fun experimentId kind name => experimentId ++ kind ++ name⟩

def sharedDocument : SourceDocument := ⟨"d", "x", "ref", "title", none, 0, 2, "policy", by decide⟩

def quietly (now : Instant) (act : Act Unit String) : Turn Unit String := ⟨act, now, fun _ => false⟩

def testRequest : Prepared (SourceValue Unit) :=
  ⟨"e", .test, "t", "s", .data (.other ()), [], [], []⟩

abbrev PlainArchive := Archive Unit Unit Unit String

def sharedArchive : PlainArchive :=
  (quietly 1 (.artifact "x" "standard" true)).after plainDigest
    ((quietly 0 (.put testRequest)).after plainDigest (Archive.start ["e"]))

def sourcedArchive : PlainArchive :=
  (quietly 1 (.register "e" "t" "r" sharedDocument)).after plainDigest sharedArchive

def expiredArchive (w : PlainArchive) : PlainArchive :=
  (quietly 2 (.expire "esourced" "x" fun _ => false)).after plainDigest w

theorem sharedArchive_later : (Archive.start ["e"]).Later plainDigest sharedArchive := by
  refine ((Archive.Later.here).next (quietly 0 (.put testRequest)) trivial).next
    (quietly 1 (.artifact "x" "standard" true)) ?_
  intro hpolicy
  exact absurd hpolicy (by decide)

theorem expiredArchive_later : sharedArchive.Later plainDigest (expiredArchive sourcedArchive) :=
  ((Archive.Later.here).next (quietly 1 (.register "e" "t" "r" sharedDocument)) trivial).next
    (quietly 2 (.expire "esourced" "x" fun _ => false)) trivial

theorem sharedArchive_permanent : sharedArchive.Permanent "x" :=
  Or.inr ⟨⟨"standard", "available"⟩, by decide +kernel, by decide⟩

/-- The source has expired, and the bytes are still there. -/
theorem shared_bytes_spared_sample :
    ∃ a, (expiredArchive sourcedArchive).files.get? "x" = some a ∧ plainDigest.hash a = "x" :=
  (shared_bytes_spared sharedArchive_later expiredArchive_later).2.2 "x" sharedArchive_permanent

/-- The research repository records the artifact again, now under the policy of a
source. When the source expires, its bytes go, though they were recorded before
under another class. -/
theorem shared_bytes_deleted :
    ∃ w : PlainArchive,
      w = (quietly 1 (.artifact "x" sourcePolicy true)).after plainDigest sourcedArchive ∧
        sharedArchive.Permanent "x" ∧ w.files.get? "x" = some "x" ∧
          (expiredArchive w).files.get? "x" = none :=
  ⟨_, rfl, sharedArchive_permanent, by decide +kernel, by decide +kernel⟩

end Ahunter.Records
