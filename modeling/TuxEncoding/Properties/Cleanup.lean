import TuxEncoding.Fs.Session

/-!
# Temporary files are cleaned up

* `life_leaves_no_temp`: whatever else fails, a writer that is gone has left no temporary file when
  neither a rename nor a removal has failed.
* `failed_rename_leaves_temp`: a rename that fails leaves the temporary file behind, since the
  writer has given up its path by then and the destructor no longer knows it.
-/

namespace TuxEncoding

open Interaction Program

/-- Every file that is new since `w` has an entry at `path` only. -/
def NoTempLeft (path : Path) (w w' : World) : Prop :=
  ∀ p i, w.next ≤ i → w'.dir p = some i → p = path

section

variable [Platform] [Codecs]

/-- In every run in which no rename and no removal fails, every temporary file that a writer has
created is renamed to the final path or removed by the time the writer is gone. -/
theorem life_leaves_no_temp {mayFail : FsCall → Prop}
    (hrename : ∀ src dst, ¬ mayFail (.rename src dst)) (hremove : ∀ p, ¬ mayFail (.removeFile p))
    (flavor : Flavor) (path : Path) (options : CreateOptions) (ops : List Op) (ending : Ending)
    {w w' : World} {result : Except ObjectFileError Outcome}
    (hrun : Ends (FsStep mayFail) (life flavor path options ops ending).run w result w') :
    NoTempLeft path w w' := by
  have htidy : Tidy mayFail := ⟨hrename, hremove⟩
  have hend := (life_safe w).ends hrun
  intro p i hi hentry
  by_contra hne
  rcases result with e | ⟨results, e | _ | object⟩
  · exact hend.clean htidy hne hi hentry
  · obtain ⟨draft, _, hfailed⟩ := hend
    exact hfailed.clean htidy hne hi hentry
  · obtain ⟨draft, _, hfailed⟩ := hend
    exact hfailed.clean htidy hne hi hentry
  · obtain ⟨draft, _, hpublished⟩ := hend
    exact hpublished.clean htidy hne hi hentry

end

attribute [local instance] fullPlatform pairCodecs

/-- Where flushing fails, a writer fails to finish and cleans up. -/
theorem life_leaves_no_temp_unflushed :
    NoTempLeft World.somePath World.empty (exec (performExcept fun c => c matches .flush _)
      (life .blocking World.somePath .default [.write [1, 2, 3]] .finish).run World.empty).2 :=
  life_leaves_no_temp (by simp) (by simp) .blocking World.somePath .default [.write [1, 2, 3]]
    .finish (exec_ends (fsStep_performExcept _) _ _)

/-- The renames. -/
def FsCall.isRename : FsCall → Bool
  | .rename _ _ => true
  | _ => false

/-- A rename that fails leaves the temporary file behind, also when nothing else fails. -/
theorem failed_rename_leaves_temp :
    ¬ ∀ (mayFail : FsCall → Prop), (∀ p, ¬ mayFail (.removeFile p)) →
      ∀ flavor path options ops ending w w' result,
        Ends (FsStep mayFail) (life flavor path options ops ending).run w result w' →
        NoTempLeft path w w' := by
  intro h
  have hrun := exec_ends (fsStep_performExcept FsCall.isRename)
    (life .blocking World.somePath .default [.write [1, 2, 3]] .finish).run World.empty
  have hleft := h _ (by simp [FsCall.isRename]) _ _ _ _ _ _ _ _ hrun
    (tempPathOf World.somePath 1 0) 0 (Nat.le_refl 0) (by decide +kernel)
  exact tempPathOf_ne _ _ _ hleft

end TuxEncoding
