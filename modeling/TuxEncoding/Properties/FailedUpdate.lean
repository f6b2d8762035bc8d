import TuxEncoding.Fs.Session
import TuxEncoding.Fs.Update

/-!
# Updates that fail

An atomic update commits with the rename; all that comes after it is the clone of the handle for the
object it returns.

* `failed_update_changes_nothing`: an update that returns `Err` has changed nothing, whatever else
  fails, when no clone does.
* `failed_clone_replaces_object`: when the clone fails the update returns `Err` with the new object
  in place and the handle on the file that it replaced.
-/

namespace TuxEncoding

open Interaction Program

set_option linter.unusedSectionVars false

section

variable [Platform] [Codecs]

/-- The file that a path leads to. -/
def World.fileAt (w : World) (path : Path) : Option (List UInt8) := (w.dir path).map w.data

/-- The path leads to the same file with the same bytes, and the handle is still open on the file it
was open on. -/
structure Unchanged (w : World) (object : TuxObject) (i : ℕ) (w' : World) (object' : TuxObject) :
    Prop where
  entry_eq : w'.dir object.path = w.dir object.path
  fileAt_eq : w'.fileAt object.path = w.fileAt object.path
  handle_eq : object' = object
  openOn : OpenOn w' object' i
  data_eq : w'.data i = w.data i

/-- Where no clone of a handle fails, an update that returns `Err` has changed nothing. -/
theorem failed_update_changes_nothing {mayFail : FsCall → Prop}
    (hclone : ∀ fd, ¬ mayFail (.tryClone fd)) {update : Update} {w w' : World}
    {object object' : TuxObject} {i : ℕ} {e : ObjectFileError} (hopen : OpenOn w object i)
    (hrun : Ends (FsStep mayFail) (update.run.on object) w (.error e, object') w') :
    Unchanged w object i w' object' := by
  obtain ⟨rfl, hspared, _⟩ := (Update.run_safe hopen update).ends hrun
  have hentry : w'.dir object'.path = w.dir object'.path := by
    rcases hspared.entry_eq with hentry | ⟨fd, hfail⟩
    · exact hentry
    · exact absurd hfail (hclone fd)
  have hdata : ∀ {j}, j < w.next → w'.data j = w.data j := fun hj =>
    congrArg Inode.data (hspared.above.inodes hj)
  constructor
  · exact hentry
  · unfold World.fileAt
    rw [hentry]
    cases hdir : w.dir object'.path with
    | none => rfl
    | some j => exact congrArg some (hdata (w.dir_lt hdir))
  · rfl
  · exact hopen.of_above hspared.above (Nat.le_refl _)
  · exact hdata hopen.lt_next

end

attribute [local instance] fullPlatform pairCodecs

/-- A file system with an object of three bytes at `d/o`. -/
abbrev threeBytes : Except ObjectFileError Outcome × World :=
  exec perform (life .blocking World.somePath .default [.write [1, 2, 3]] .finish).run World.empty

/-- The handle that its writer has returned. -/
abbrev threeBytesHandle : TuxObject := (publishedBy threeBytes.1).get (by decide +kernel)

/-- Where syncing fails, so does an update, and it changes nothing. -/
theorem failed_update_changes_nothing_unsynced :
    ∃ e object' w', Ends (FsStep fun c => (c matches .syncAll _) = true)
      ((Update.setTags Tags.new).run.on threeBytesHandle) threeBytes.2 (.error e, object') w' ∧
      Unchanged threeBytes.2 threeBytesHandle 0 w' object' := by
  obtain ⟨e, object', _, hrun⟩ := Method.exec_ends_error
    (fsStep_performExcept fun c => c matches .syncAll _) (Update.setTags Tags.new).run
    threeBytesHandle threeBytes.2 (by decide +kernel)
  exact ⟨e, object', _, hrun, failed_update_changes_nothing (by simp) ⟨608, by decide +kernel⟩ hrun⟩

/-- When the clone fails after the rename, the update returns `Err` with the new object in place and
the handle on the old one. -/
theorem failed_clone_replaces_object :
    ¬ ∀ (mayFail : FsCall → Prop) (update : Update) (w w' : World) (object object' : TuxObject)
      (i : ℕ) (e : ObjectFileError), OpenOn w object i →
      Ends (FsStep mayFail) (update.run.on object) w (.error e, object') w' →
      Unchanged w object i w' object' := by
  intro h
  obtain ⟨e, object', _, hrun⟩ := Method.exec_ends_error
    (fsStep_performExcept fun c => c matches .tryClone _)
    (Update.setTags (Tags.new.insert "k" (.bool true))).run threeBytesHandle threeBytes.2
    (by decide +kernel)
  have hsame := (h _ _ _ _ _ _ 0 _ ⟨608, by decide +kernel⟩ hrun).entry_eq
  have hpath : threeBytesHandle.path = World.somePath := by decide +kernel
  rw [hpath] at hsame
  have hentry : (exec (performExcept fun c => c matches .tryClone _)
      ((Update.setTags (Tags.new.insert "k" (.bool true))).run.on threeBytesHandle)
      threeBytes.2).2.dir World.somePath ≠ threeBytes.2.dir World.somePath := by
    decide +kernel
  exact hentry hsame

end TuxEncoding
