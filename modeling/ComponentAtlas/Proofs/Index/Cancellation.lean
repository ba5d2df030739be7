import ComponentAtlas.Proofs.Index.Stages

/-!
# Builds that are cancelled

Where a build ends that is cancelled does not matter for its result: it is the one that it would
have had, or the error of the cancellation.  A build that was cancelled before it began has none but
an error, whatever files there are or are not: its first look may come late, but it comes before
the snapshot does.
-/

namespace ComponentAtlas.Snapshot

open Stage

/-- A token that is cancelled at some look changes nothing in the result, or makes it the error of
the cancellation. -/
theorem buildInStages_cancelled_or_same (settings : Settings) (tree : SourceTree)
    (report : SourceReport) (n : Nat) :
    buildInStages settings tree report (.after n) = .error .cancelled ∨
      (buildInStages settings tree report (.after n)).map Prod.fst =
        (buildInStages settings tree report .never).map Prod.fst := by
  unfold buildInStages
  cases report.answer with
  | failed reason =>
      cases n with
      | zero => exact Or.inl rfl
      | succ n => exact Or.inr rfl
  | answered isAvailable =>
      simp only
      split
      · cases report.found with
        | error e => exact Or.inr rfl
        | ok files =>
            have hgives := ofFilesInStages_gives settings tree files
            refine (hgives.after n).imp_right fun hsame => ?_
            obtain ⟨m, -, hsame⟩ := hsame
            show (ofFilesInStages settings tree files (.after n)).map Prod.fst =
              (ofFilesInStages settings tree files .never).map Prod.fst
            rw [hsame, hgives.never]
            rfl
      · exact Or.inr rfl

/-- A build whose token was cancelled before it began ends in an error.  It says that the tree is
not there when the provider answers so, or when it is not there after all; that it was cancelled
when the provider fails, and when the tree is there and its files are found, whatever these are and
whether or not there are any; and otherwise why the files are not found. -/
theorem cancelled_build_fails (settings : Settings) (tree : SourceTree) (report : SourceReport) :
    let built := buildInStages settings tree report (.after 0)
    (∃ e, built = .error e) ∧
      (∀ reason, report.answer = .failed reason → built = .error .cancelled) ∧
      (∀ isAvailable, report.answer = .answered isAvailable →
        isAvailable = false ∨ report.isThere = false →
          built = .error (.sourceUnavailable tree.root "source tree not found")) ∧
      (report.answer = .answered true → report.isThere = true →
        (∀ files, report.found = .ok files → built = .error .cancelled) ∧
        ∀ e, report.found = .error e → built = .error e) ∧
      ∀ answer, report = tree.report settings.layout answer →
        build settings tree answer true = built.map Prod.fst := by
  intro built
  have hfailed (reason : String) (hanswer : report.answer = .failed reason) :
      built = .error .cancelled := by
    simp only [built, buildInStages, hanswer]
    rfl
  have hgone (isAvailable : Bool) (hanswer : report.answer = .answered isAvailable)
      (hnot : isAvailable = false ∨ report.isThere = false) :
      built = .error (.sourceUnavailable tree.root "source tree not found") := by
    have hneither : ¬ (isAvailable && report.isThere) = true := by
      rcases hnot with h | h <;> simp [h]
    simp only [built, buildInStages, hanswer, if_neg hneither]
    rfl
  have hthere (hanswer : report.answer = .answered true) (hisThere : report.isThere = true) :
      (∀ files, report.found = .ok files → built = .error .cancelled) ∧
        ∀ e, report.found = .error e → built = .error e := by
    refine ⟨fun files hfound => ?_, fun e hfound => ?_⟩
    · simp only [built, buildInStages, hanswer, hisThere, hfound, Bool.and_self, if_true]
      exact ofFilesInStages_cancelled settings tree files
    · simp only [built, buildInStages, hanswer, hisThere, hfound, Bool.and_self, if_true]
      rfl
  refine ⟨?_, hfailed, hgone, hthere, ?_⟩
  · cases hanswer : report.answer with
    | failed reason => exact ⟨_, hfailed reason hanswer⟩
    | answered isAvailable =>
        cases isAvailable with
        | false => exact ⟨_, hgone false hanswer (Or.inl rfl)⟩
        | true =>
            cases hisThere : report.isThere with
            | false => exact ⟨_, hgone true hanswer (Or.inr hisThere)⟩
            | true =>
                obtain ⟨hfound, hnotFound⟩ := hthere hanswer hisThere
                cases hfiles : report.found with
                | error e => exact ⟨e, hnotFound e hfiles⟩
                | ok files => exact ⟨_, hfound files hfiles⟩
  · rintro answer rfl
    rfl

/-- Not one file is found, and still the build is cancelled; but a tree that is not there is
reported. -/
theorem cancelled_build_fails_empty :
    let nothing : SourceFiles := ⟨[], [], [], []⟩
    let tree : SourceTree := ⟨⟨[]⟩, "library"⟩
    buildInStages .standard tree ⟨.answered true, true, .ok nothing⟩ (.after 0) =
        .error .cancelled ∧
      buildInStages .standard tree ⟨.answered true, false, .ok nothing⟩ (.after 0) =
        .error (.sourceUnavailable "library" "source tree not found") ∧
      buildInStages .standard tree ⟨.failed "no network", false, .ok nothing⟩ (.after 0) =
        .error .cancelled ∧
      build .standard tree (.answered true) true =
        .error (.sourceUnavailable "library" "source tree not found") := by
  intro nothing tree
  obtain ⟨-, -, -, hthere, -⟩ :=
    cancelled_build_fails .standard tree ⟨.answered true, true, .ok nothing⟩
  obtain ⟨-, -, hgone, -⟩ :=
    cancelled_build_fails .standard tree ⟨.answered true, false, .ok nothing⟩
  obtain ⟨-, hfailed, -⟩ :=
    cancelled_build_fails .standard tree ⟨.failed "no network", false, .ok nothing⟩
  obtain ⟨-, -, hmissing, -, hbuild⟩ :=
    cancelled_build_fails .standard tree
      (tree.report (Settings.standard).layout (.answered true))
  refine ⟨(hthere rfl rfl).1 nothing rfl, hgone true rfl (Or.inr rfl), hfailed _ rfl, ?_⟩
  rw [hbuild (.answered true) rfl, hmissing true rfl (Or.inr (by decide))]
  rfl

end ComponentAtlas.Snapshot
