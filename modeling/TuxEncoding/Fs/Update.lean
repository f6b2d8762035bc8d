import TuxEncoding.Fs.ObjectSafety

/-!
# Atomic updates

The four updates of a handle that go through `rewrite`, and what they have in common.

* `Update` is such an update and `Update.sections` what it hands to `rewrite`.
* `Update.run_safe`: it replaces the object by one with these sections, or fails and leaves the
  published object alone, unless the clone of the new handle fails. Nothing is asked of the file
  under the handle.
* `Update.run_within`: it does so within the contract of any writer that may publish such objects.
-/

namespace TuxEncoding

open Interaction Program

set_option linter.unusedSectionVars false

variable [Platform] [Codecs]

/-- An update of a handle that publishes a new object. -/
inductive Update
  | setMetadata (metadata : MetadataMap)
  | setTags (tags : Tags String)
  | setSections (metadata : MetadataMap) (tags : Tags String)
  | modifyMetadata (modify : MetadataMap → MetadataMap)

namespace Update

/-- Carry out an update. -/
def run : Update → FsMethod TuxObject Unit
  | setMetadata metadata => TuxObject.setMetadata metadata
  | setTags tags => TuxObject.setTags tags
  | setSections metadata tags => TuxObject.setSections metadata tags
  | modifyMetadata modify => TuxObject.modifyMetadata modify

/-- Whether an update takes the tags from the file. -/
def keepsTags : Update → Bool
  | setMetadata _ | modifyMetadata _ => true
  | setTags _ | setSections _ _ => false

/-- The sections of the new object, when `metadata` is what the handle knows and `tags` what is
stored. -/
def sections : Update → MetadataMap → Tags String → MetadataMap × Tags String
  | setMetadata metadata, _, tags => (metadata, tags)
  | setTags tags, metadata, _ => (metadata, tags)
  | setSections metadata tags, _, _ => (metadata, tags)
  | modifyMetadata modify, metadata, tags => (modify metadata, tags)

end Update

variable {mayFail : FsCall → Prop} {w w₁ w' : World} {object : TuxObject} {i : ℕ} {record : Record}

/-- What a failed update leaves alone: all files, and all entries that are not new but perhaps that
of the object. -/
structure Spared (mayFail : FsCall → Prop) (w : World) (object : TuxObject) (w' : World) :
    Prop where
  above : Above w.next object.path w w'
  entry_eq : w'.dir object.path = w.dir object.path ∨ CloneMayFail mayFail
  tidy : Tidy mayFail → ∀ {path}, path ≠ object.path → w'.dir path = w.dir path

lemma Spared.of_undisturbed (h : Undisturbed w w') : Spared mayFail w object w' :=
  ⟨h.above _ _, .inl (congrFun h.dir_eq _), fun _ _ _ => congrFun h.dir_eq _⟩

lemma Spared.after (hsame : Undisturbed w w₁) (h : Spared mayFail w₁ object w') :
    Spared mayFail w object w' where
  above := (hsame.above _ _).trans (h.above.mono hsame.next_le)
  entry_eq := congrFun hsame.dir_eq object.path ▸ h.entry_eq
  tidy htidy _ hne := (h.tidy htidy hne).trans (congrFun hsame.dir_eq _)

/-- The object that an update has published in place of `object`. -/
structure Updated (w : World) (object : TuxObject) (record : Record) (new : TuxObject)
    (w' : World) : Prop where
  above : Above w.next object.path w w'
  entry : w'.dir object.path = some new.file
  others : ∀ {path}, path ≠ object.path → w'.dir path = w.dir path
  path_eq : new.path = object.path
  writable_eq : object.writable = true ∧ new.writable = true
  handleOf : HandleOf w' new new.file record
  fits : record.metadata.Fits ∧ record.tags.Fits
  computed : ∃ layout, (object.rewriteOptions record.metadata record.tags).layout.compute
    (size record.metadata) (size record.tags) = .ok layout ∧
    new.header.contentStart = layout.contentStart
  uncompressed : record.content ≠ [] → record.compression = .none

lemma Updated.after {new : TuxObject} (hsame : Undisturbed w w₁)
    (h : Updated w₁ object record new w') : Updated w object record new w' :=
  ⟨(hsame.above _ _).trans (h.above.mono hsame.next_le), h.entry,
    fun hne => (h.others hne).trans (congrFun hsame.dir_eq _), h.path_eq, h.writable_eq,
    h.handleOf, h.fits, h.computed, h.uncompressed⟩

/-- The contract of a writer that takes the place of the handle's object, and may publish what an
update with these sections makes of it. -/
structure Job.Covers (job : Job) (w : World) (object : TuxObject) (i : ℕ) (metadata : MetadataMap)
    (tags : Tags String) : Prop where
  floor_le : job.floor ≤ w.next
  final_eq : job.final = object.path
  publishes : ∀ inode, (object.updated (w.data i) metadata tags).Publishes inode →
    job.publishes inode

/-- `rewrite` publishes an object with the new sections, or leaves the handle as it was, and keeps
to such a contract. -/
lemma rewrite_within {job : Job} (h : OpenOn w object i) {metadata : MetadataMap}
    {tags : Tags String} (hjob : job.Covers w object i metadata tags) :
    Method.Safe (FsStep mayFail) job.Allows (TuxObject.rewrite metadata tags) object
      (fun _ new w' => Updated w object (object.updated (w.data i) metadata tags) new w')
      (fun _ object' w' => object' = object ∧ Spared mayFail w object w' ∧
        (object.writable = true → UpdateRefused mayFail object metadata tags
          (object.storedContent (w.data i)) w)) w := by
  unfold TuxObject.rewrite
  refine Method.Safe.bind (Method.Safe.get (Method.Safe.bind (Method.Safe.lift ?_)))
  by_cases hwritable : object.writable = true
  · have hallows : ∀ c v, (Job.startedIn w object.path job.publishes).Allows c v →
        job.Allows c v := by
      intro c v hc
      refine Job.Allows.mono ?_ ?_ ?_ hc
      · exact hjob.floor_le
      · exact hjob.final_eq.symm
      · exact fun _ hn => hn
    apply Fallible.Safe.mono (Fallible.Safe.allow hallows
      (replacement_safe h hwritable job.publishes hjob.publishes))
    · intro new w' hreplaced
      obtain ⟨layout, hpublished⟩ := hreplaced.published
      exact Method.Safe.set ⟨hreplaced.above, hpublished.entry,
        Clean.dir_eq hreplaced.clean hreplaced.above (Nat.le_refl _), hpublished.path_eq,
        ⟨hwritable, hpublished.writable_eq⟩, hpublished.handleOf,
        ⟨hpublished.image.metadata_fits, hpublished.image.tags_fits⟩, hreplaced.computed,
        hreplaced.uncompressed⟩
    · rintro e w' ⟨hfailed, hreason⟩
      exact ⟨rfl, ⟨hfailed.above, hfailed.final_eq, fun htidy =>
        Clean.dir_eq (hfailed.clean htidy) hfailed.above (Nat.le_refl _)⟩, fun _ => hreason⟩
  · -- a handle for reading fails before it does anything
    unfold TuxObject.replacement
    rw [TuxObject.ensureWritable, if_neg hwritable]
    apply Fallible.Safe.bind
    apply Fallible.Safe.ofExcept
    exact ⟨rfl, Spared.of_undisturbed (Undisturbed.refl w), fun h => absurd h hwritable⟩

/-- Why an update may fail on a writable handle. -/
def Update.Refused (mayFail : FsCall → Prop) (update : Update) (w : World) (object : TuxObject)
    (data : List UInt8) : Prop :=
  (∃ c, mayFail c) ∨
  (update.keepsTags = true ∧ ∀ tags, object.storedTags data ≠ .ok tags) ∨
  ∃ tags w₁, (update.keepsTags = true → object.storedTags data = .ok tags) ∧ Undisturbed w w₁ ∧
    UpdateRefused mayFail object (update.sections object.metadata tags).1
      (update.sections object.metadata tags).2 (object.storedContent data) w₁

/-- `set_metadata` reads the tags and rewrites the object with them. -/
lemma setMetadata_within {job : Job} (h : OpenOn w object i) {metadata : MetadataMap}
    (hjob : ∀ tags, object.storedTags (w.data i) = .ok tags →
      job.Covers w object i metadata tags) :
    Method.Safe (FsStep mayFail) job.Allows (TuxObject.setMetadata metadata) object
      (fun _ new w' => ∃ tags, object.storedTags (w.data i) = .ok tags ∧
        Updated w object (object.updated (w.data i) metadata tags) new w')
      (fun _ object' w' => object' = object ∧ Spared mayFail w object w' ∧
        (object.writable = true →
          (Update.setMetadata metadata).Refused mayFail w object (w.data i))) w := by
  unfold TuxObject.setMetadata
  refine Method.Safe.bind (Method.Safe.get (Method.Safe.bind (Method.Safe.lift
    (Fallible.Safe.mono (Fallible.Safe.allow (fun _ _ => Reads.allows) h.readTags_returns) ?_ ?_))))
  · rintro tags w₁ ⟨htags, hsame⟩
    have hdata : w₁.data i = w.data i := hsame.data_eq i
    have hjob₁ : job.Covers w₁ object i metadata tags :=
      ⟨Nat.le_trans (hjob tags htags).floor_le hsame.next_le, (hjob tags htags).final_eq,
        hdata ▸ (hjob tags htags).publishes⟩
    apply Method.Safe.mono (rewrite_within (h.of_undisturbed hsame) hjob₁)
    · intro _ new w' hupdated
      rw [hdata] at hupdated
      exact ⟨tags, htags, hupdated.after hsame⟩
    · rintro e object' w' ⟨rfl, hspared, hreason⟩
      rw [hdata] at hreason
      exact ⟨rfl, hspared.after hsame, fun hwritable =>
        .inr (.inr ⟨tags, w₁, fun _ => htags, hsame, hreason hwritable⟩)⟩
  · rintro e w' ⟨hsame, hfail | hno⟩
    · exact ⟨rfl, Spared.of_undisturbed hsame, fun _ => .inl hfail.exists⟩
    · exact ⟨rfl, Spared.of_undisturbed hsame, fun _ => .inr (.inl ⟨rfl, by rw [hno]; exact nofun⟩)⟩

/-- Every update publishes an object with its sections, or leaves the handle as it was, and keeps to
a contract that covers it. -/
lemma Update.run_within {job : Job} (h : OpenOn w object i) (update : Update)
    (hjob : ∀ tags, (update.keepsTags = true → object.storedTags (w.data i) = .ok tags) →
      job.Covers w object i (update.sections object.metadata tags).1
        (update.sections object.metadata tags).2) :
    Method.Safe (FsStep mayFail) job.Allows update.run object
      (fun _ new w' => ∃ tags, (update.keepsTags = true → object.storedTags (w.data i) = .ok tags) ∧
        Updated w object (object.updated (w.data i) (update.sections object.metadata tags).1
          (update.sections object.metadata tags).2) new w')
      (fun _ object' w' => object' = object ∧ Spared mayFail w object w' ∧
        (object.writable = true → update.Refused mayFail w object (w.data i))) w := by
  have hset : ∀ metadata, (∀ tags, object.storedTags (w.data i) = .ok tags →
      job.Covers w object i metadata tags) →
      Method.Safe (FsStep mayFail) job.Allows (TuxObject.setMetadata metadata) object
        (fun _ new w' => ∃ tags, (true = true → object.storedTags (w.data i) = .ok tags) ∧
          Updated w object (object.updated (w.data i) metadata tags) new w')
        (fun _ object' w' => object' = object ∧ Spared mayFail w object w' ∧
          (object.writable = true →
            (Update.setMetadata metadata).Refused mayFail w object (w.data i))) w := by
    intro metadata hcovers
    apply Method.Safe.mono (setMetadata_within h hcovers)
    · rintro _ new w' ⟨tags, htags, hupdated⟩
      exact ⟨tags, fun _ => htags, hupdated⟩
    · exact fun _ _ _ h => h
  cases update with
  | setMetadata metadata => exact hset metadata fun tags htags => hjob tags fun _ => htags
  | modifyMetadata modify =>
      exact Method.Safe.bind (Method.Safe.get (hset _ fun tags htags => hjob tags fun _ => htags))
  | setTags tags =>
      refine Method.Safe.bind (Method.Safe.get (Method.Safe.mono
        (rewrite_within h (hjob tags nofun)) ?_ ?_))
      · intro _ new w' hupdated
        exact ⟨tags, nofun, hupdated⟩
      · rintro e object' w' ⟨rfl, hspared, hreason⟩
        exact ⟨rfl, hspared, fun hwritable =>
          .inr (.inr ⟨tags, w, nofun, Undisturbed.refl w, hreason hwritable⟩)⟩
  | setSections metadata tags =>
      apply Method.Safe.mono (rewrite_within h (hjob tags nofun))
      · intro _ new w' hupdated
        exact ⟨tags, nofun, hupdated⟩
      · rintro e object' w' ⟨rfl, hspared, hreason⟩
        exact ⟨rfl, hspared, fun hwritable =>
          .inr (.inr ⟨tags, w, nofun, Undisturbed.refl w, hreason hwritable⟩)⟩

lemma Update.run_safe (h : OpenOn w object i) (update : Update) :
    Method.Safe (FsStep mayFail) (fun _ _ => True) update.run object
      (fun _ new w' => ∃ tags, (update.keepsTags = true → object.storedTags (w.data i) = .ok tags) ∧
        Updated w object (object.updated (w.data i) (update.sections object.metadata tags).1
          (update.sections object.metadata tags).2) new w')
      (fun _ object' w' => object' = object ∧ Spared mayFail w object w' ∧
        (object.writable = true → update.Refused mayFail w object (w.data i))) w := by
  have hcovers : ∀ metadata tags,
      (Job.startedIn w object.path fun _ => True).Covers w object i metadata tags :=
    fun _ _ => ⟨Nat.le_refl _, rfl, fun _ _ => trivial⟩
  exact Method.Safe.allow (fun _ _ _ => trivial) (run_within h update fun _ _ => hcovers _ _)

end TuxEncoding
