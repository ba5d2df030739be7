import ComponentAtlas.Index.Stages

/-!
# What stages come to

A stage that is not hindered gives its value, and one that is cancelled on the way ends in the error
of that or gives the same value: `Gives`.  This holds of a single look and goes through sequences
and loops, so it holds of every stage but one.  While files are parsed a cancelled token only thins
out what is found; but then the look behind the loop ends the build, and that look is always
reached.  So the whole build gives its value as well, and with a token that was cancelled before it
gives none.
-/

namespace ComponentAtlas

namespace Stage

variable {α β δ : Type} {s : Stage α} {a : α}

/-- A stage gives a value unless it is cancelled, and a token is not restored by it. -/
structure Gives (s : Stage α) (a : α) : Prop where
  never : s .never = .ok (a, .never)
  after : ∀ n, s (.after n) = .error .cancelled ∨ ∃ m ≤ n, s (.after n) = .ok (a, .after m)

theorem bind_of_ok {f : α → Stage β} {token left : CancelToken} (h : s token = .ok (a, left)) :
    (s >>= f) token = f a left := by
  show (s token >>= fun p => f p.1 p.2) = f a left
  rw [h]
  rfl

theorem bind_of_error {f : α → Stage β} {token : CancelToken} {e : IndexError}
    (h : s token = .error e) : (s >>= f) token = .error e := by
  show (s token >>= fun p => f p.1 p.2) = .error e
  rw [h]
  rfl

theorem Gives.pure (a : α) : Gives (Pure.pure a) a :=
  ⟨rfl, fun n => Or.inr ⟨n, Nat.le_refl n, rfl⟩⟩

theorem Gives.bind {f : α → Stage β} {b : β} (hs : Gives s a) (hf : Gives (f a) b) :
    Gives (s >>= f) b where
  never := (bind_of_ok hs.never).trans hf.never
  after n := by
    rcases hs.after n with hs | ⟨m, hm, hs⟩
    · exact Or.inl (bind_of_error hs)
    · rw [bind_of_ok hs]
      refine (hf.after m).imp_right fun h => ?_
      obtain ⟨l, hl, hf⟩ := h
      exact ⟨l, Nat.le_trans hl hm, hf⟩

theorem Gives.checkpoint : Gives Stage.checkpoint () where
  never := rfl
  after n := by
    cases n with
    | zero => exact Or.inl rfl
    | succ n => exact Or.inr ⟨n, Nat.le_succ n, rfl⟩

/-- What is done under a cancelled token may differ, if it then ends the build. -/
theorem Gives.isCancelled {f : Bool → Stage β} {b : β} (h : Gives (f false) b)
    (hends : f true (.after 0) = .error .cancelled) :
    Gives (Stage.isCancelled >>= f) b where
  never := h.never
  after n := by
    cases n with
    | zero => exact Or.inl hends
    | succ n =>
        refine (h.after n).imp_right fun hf => ?_
        obtain ⟨m, hm, hf⟩ := hf
        exact ⟨m, Nat.le_succ_of_le hm, hf⟩

theorem Gives.foldlM {step : δ → α → Stage δ} {next : δ → α → δ}
    (h : ∀ d x, Gives (step d x) (next d x)) (xs : List α) (d : δ) :
    Gives (xs.foldlM step d) (xs.foldl next d) := by
  induction xs generalizing d with
  | nil => exact .pure d
  | cons x xs ih =>
      rw [List.foldlM_cons, List.foldl_cons]
      exact (h d x).bind (ih (next d x))

theorem filterMap_cons_toList (found? : α → Option β) (x : α) (xs : List α) :
    (x :: xs).filterMap found? = (found? x).toList ++ xs.filterMap found? := by
  cases hx : found? x with
  | none => rw [List.filterMap_cons_none hx]; rfl
  | some b => rw [List.filterMap_cons_some hx]; rfl

theorem Gives.gather {find : α → Stage (Option β)} {found? : α → Option β}
    (h : ∀ x, Gives (find x) (found? x)) (xs : List α) :
    Gives (Stage.gather find xs) (xs.filterMap found?) := by
  induction xs with
  | nil => exact .pure []
  | cons x xs ih =>
      rw [Stage.gather, filterMap_cons_toList]
      exact (h x).bind (ih.bind (.pure _))

/-- Of things that are passed over under a cancelled token all are found, unless the token is
cancelled in the end. -/
theorem gather_unlessCancelled (found? : α → Option β) (xs : List α) :
    let found := gather (fun x => unlessCancelled (found? x)) xs
    found .never = .ok (xs.filterMap found?, .never) ∧
      ∀ n, ∃ ys m, m ≤ n ∧ found (.after n) = .ok (ys, .after m) ∧
        (0 < m → ys = xs.filterMap found?) := by
  induction xs with
  | nil => exact ⟨rfl, fun n => ⟨[], n, Nat.le_refl n, rfl, fun _ => rfl⟩⟩
  | cons x xs ih =>
      intro found
      obtain ⟨hnever, hafter⟩ := ih
      have hstep {token left : CancelToken} {y? : Option β} {ys : List β} {last : CancelToken}
          (hlook : unlessCancelled (found? x) token = .ok (y?, left))
          (hrest : gather (fun x => unlessCancelled (found? x)) xs left = .ok (ys, last)) :
          found token = .ok (y?.toList ++ ys, last) := by
        show (unlessCancelled (found? x) >>= fun y? =>
          gather (fun x => unlessCancelled (found? x)) xs >>= fun ys =>
            pure (y?.toList ++ ys)) token = _
        rw [bind_of_ok hlook, bind_of_ok hrest]
        rfl
      rw [filterMap_cons_toList]
      refine ⟨hstep rfl hnever, fun n => ?_⟩
      cases n with
      | zero =>
          obtain ⟨ys, m, hm, hrest, -⟩ := hafter 0
          obtain rfl := Nat.le_zero.mp hm
          exact ⟨_, 0, Nat.le_refl 0, hstep rfl hrest, fun h => absurd h (Nat.lt_irrefl 0)⟩
      | succ n =>
          obtain ⟨ys, m, hm, hrest, hall⟩ := hafter n
          exact ⟨_, m, Nat.le_succ_of_le hm, hstep rfl hrest, fun h => by rw [hall h]⟩

end Stage

open Stage

/-! ## The stages -/

/-- What some texts declare. -/
def declaredBy (settings : IndexSettings) (texts : List SourceText) : List (Bool × Declaration) :=
  texts.filterMap fun t =>
    (Declaration.ofFile? settings.includeInternal t.relative t.text).map (t.mayBeComponent, ·)

theorem readTexts_gives (tree : SourceTree) (files : List (Bool × SourceFile)) :
    Gives (tree.readTexts files) (files.filterMap fun file =>
      (tree.read? file.2).map (SourceText.mk file.1 file.2.relative)) := by
  refine Gives.gather (fun file => ?_) files
  exact Gives.checkpoint.bind (.pure _)

/-- Parsing ends the build when the token is cancelled behind it. -/
theorem parseTexts_gives (settings : IndexSettings) (texts : List SourceText) :
    Gives (parseTexts settings texts) (declaredBy settings texts) ∧
      parseTexts settings texts (.after 0) = .error .cancelled := by
  obtain ⟨hnever, hafter⟩ := gather_unlessCancelled (fun t : SourceText =>
    (Declaration.ofFile? settings.includeInternal t.relative t.text).map (t.mayBeComponent, ·)) texts
  have hlast : ∀ n ys m, gather (fun t : SourceText => Stage.unlessCancelled
      ((Declaration.ofFile? settings.includeInternal t.relative t.text).map
        (t.mayBeComponent, ·))) texts (.after n) = .ok (ys, .after m) →
      parseTexts settings texts (.after n) =
        if m = 0 then .error .cancelled else .ok (ys, .after (m - 1)) := by
    intro n ys m hfound
    unfold parseTexts
    rw [bind_of_ok hfound]
    cases m <;> rfl
  refine ⟨⟨?_, fun n => ?_⟩, ?_⟩
  · unfold parseTexts
    rw [bind_of_ok hnever]
    rfl
  · obtain ⟨ys, m, hm, hfound, hall⟩ := hafter n
    rw [hlast n ys m hfound]
    by_cases hzero : m = 0
    · exact Or.inl (if_pos hzero)
    · refine Or.inr ⟨m - 1, Nat.le_trans (Nat.sub_le m 1) hm, ?_⟩
      rw [if_neg hzero, hall (Nat.pos_of_ne_zero hzero)]
      rfl
  · obtain ⟨ys, m, hm, hfound, -⟩ := hafter 0
    rw [hlast 0 ys m hfound, if_pos (Nat.le_zero.mp hm)]

namespace Documented

theorem addPages_gives (settings : IndexSettings) (tree : SourceTree) (files : List SourceFile)
    (d : Documented) :
    Gives (d.addPages settings tree files) (files.foldl (fun d file =>
      match tree.read? file with
      | some text => d.addPage settings file.path text
      | none => d) d) := by
  refine Gives.foldlM (fun d file => ?_) files d
  exact Gives.checkpoint.bind (.pure _)

theorem addExamples_gives (settings : IndexSettings) (layout : LayoutSettings) (tree : SourceTree)
    (files : List SourceFile) (d : Documented) :
    Gives (d.addExamples settings layout tree files) (files.foldl (fun d file =>
      match tree.example? false file with
      | some found => d.addExample settings layout file found
      | none => d) d) := by
  refine Gives.foldlM (fun d file => ?_) files d
  refine Gives.checkpoint.bind ?_
  cases howner : d.ownerOf? settings layout file.path with
  | none =>
      have hsame : (match tree.example? false file with
          | some found => d.addExample settings layout file found
          | none => d) = d := by
        cases tree.example? false file with
        | none => rfl
        | some found => simp only [addExample, howner]
      rw [hsame]
      exact .pure d
  | some owner =>
      refine Gives.isCancelled ?_ rfl
      cases tree.example? false file with
      | none => exact Gives.checkpoint.bind (.pure d)
      | some found => exact .pure _

end Documented

namespace Snapshot

variable (settings : Settings) (tree : SourceTree)

/-- The texts of all files of declarations declare what the files do. -/
theorem declaredBy_texts (files : SourceFiles) :
    declaredBy settings.index
        ((files.declarations.map (true, ·) ++ files.types.map (false, ·)).filterMap fun file =>
          (tree.read? file.2).map (SourceText.mk file.1 file.2.relative)) =
      (declarationsIn settings.index tree files.declarations).map (true, ·) ++
        (declarationsIn settings.index tree files.types).map (false, ·) := by
  have hkind (mayBeComponent : Bool) (fs : List SourceFile) :
      declaredBy settings.index ((fs.map (mayBeComponent, ·)).filterMap fun file =>
          (tree.read? file.2).map (SourceText.mk file.1 file.2.relative)) =
        (declarationsIn settings.index tree fs).map (mayBeComponent, ·) := by
    rw [declaredBy, declarationsIn, List.filterMap_map, List.filterMap_filterMap,
      List.map_filterMap]
    refine congrArg (List.filterMap · fs) (funext fun file => ?_)
    cases hread : tree.read? file <;> simp [hread]
  rw [List.filterMap_append, ← hkind, ← hkind, declaredBy, declaredBy, declaredBy,
    List.filterMap_append]

theorem ofFilesInStages_gives (files : SourceFiles) :
    Gives (ofFilesInStages settings tree files) (ofFiles settings tree files) := by
  refine (readTexts_gives tree _).bind ?_
  refine (parseTexts_gives settings.index _).1.bind ?_
  rw [declaredBy_texts]
  refine (Documented.addPages_gives settings.index tree files.pages _).bind ?_
  exact (Documented.addExamples_gives settings.index settings.layout tree files.examples _).bind
    (.pure _)

/-- The texts are read or not; the look behind the parsing is reached. -/
theorem ofFilesInStages_cancelled (files : SourceFiles) :
    ofFilesInStages settings tree files (.after 0) = .error .cancelled := by
  unfold ofFilesInStages
  rcases (readTexts_gives tree _).after 0 with hread | ⟨m, hm, hread⟩
  · exact bind_of_error hread
  · obtain rfl := Nat.le_zero.mp hm
    rw [bind_of_ok hread]
    exact bind_of_error (parseTexts_gives settings.index _).2

/-- A build of which it is known at the beginning whether it is cancelled. -/
theorem build_eq (availability : Availability) (cancelled : Bool) :
    build settings tree availability cancelled =
      match availability with
      | .failed reason =>
        .error (if cancelled then .cancelled else .sourceUnavailable tree.root reason)
      | .answered isAvailable =>
        if isAvailable && tree.isPresent then
          match tree.sourceFiles settings.layout with
          | .error e => .error e
          | .ok files =>
            if cancelled then .error .cancelled else .ok (ofFiles settings tree files)
        else .error (.sourceUnavailable tree.root "source tree not found") := by
  unfold build buildInStages SourceTree.report
  cases availability with
  | failed reason => cases cancelled <;> rfl
  | answered isAvailable =>
      simp only
      split
      · cases tree.sourceFiles settings.layout with
        | error e => rfl
        | ok files =>
            cases cancelled with
            | true =>
                exact congrArg (Except.map Prod.fst) (ofFilesInStages_cancelled settings tree files)
            | false =>
                have hgives := ofFilesInStages_gives settings tree files
                exact congrArg (Except.map Prod.fst) hgives.never
      · rfl

end Snapshot
end ComponentAtlas
