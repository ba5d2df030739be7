import ComponentAtlas.Proofs.Index.Stages

/-!
# When a build succeeds

A build succeeds when the source tree is there, the pattern of examples can be read and nobody
cancelled the request.  The snapshot is then the one that the files of the tree make.
-/

namespace ComponentAtlas

theorem exists_ok_of_map {ε α β : Type} {r : Except ε α} {f : α → β} {b : β}
    (h : r.toOption.map f = some b) : ∃ a, r = .ok a ∧ f a = b := by
  cases r with
  | error e => cases h
  | ok a => exact ⟨a, rfl, Option.some.inj h⟩

/-- Files that are found in the order of their paths stay in it. -/
theorem FileTree.filesBelow_of_ordered {t : FileTree} {directory : List String}
    {found : List (List String)}
    (hfound : (t.entries.filterMap fun (path, entry) =>
      if entry == .directory then none
      else (below? directory path).filter fun rest =>
        !rest.isEmpty && t.isReached directory rest) = found)
    (hordered : found.Pairwise fun a b => pathLe a b = true) :
    t.filesBelow directory = found := by
  subst hfound
  exact List.mergeSort_of_pairwise hordered

namespace Snapshot

variable {settings : Settings} {tree : SourceTree} {availability : Availability}
  {cancelled : Bool} {s : Snapshot}

theorem ofFiles_of_build (h : build settings tree availability cancelled = .ok s) :
    ∃ files, tree.sourceFiles settings.layout = .ok files ∧ s = ofFiles settings tree files := by
  rw [build_eq] at h
  cases availability with
  | failed reason => cases h
  | answered isAvailable =>
      simp only at h
      split at h
      · cases hfiles : tree.sourceFiles settings.layout with
        | error err =>
            rw [hfiles] at h
            cases h
        | ok files =>
            simp only [hfiles] at h
            cases cancelled with
            | true => cases h
            | false => exact ⟨files, rfl, (Except.ok.inj h).symm⟩
      · cases h

end Snapshot
end ComponentAtlas
