import TuxEncoding.Fs.Session
import TuxEncoding.Fs.Update

/-!
# Updating compressed objects

An atomic update copies the stored content through a new writer. The writer of a compressed object
rejects raw writes, and the copy is one.

* `compressed_update_iff`: an update of a compressed object succeeds, and keeps its content, exactly
  when there is no content and the sections are within the limits of the format.
* `compressed_update_fails`: an update of an object with content is rejected.
-/

namespace TuxEncoding

open Interaction Program

set_option linter.unusedSectionVars false

section

variable [Platform] [Codecs]

/-- An update that does not take the tags from the file does not depend on them. -/
lemma Update.sections_eq {update : Update} {metadata : MetadataMap} {tags tags' : Tags String}
    (h : update.keepsTags = true → tags = tags') :
    update.sections metadata tags = update.sections metadata tags' := by
  cases update with
  | setMetadata _ | modifyMetadata _ => rw [h rfl]
  | setTags _ | setSections _ _ => rfl

/-- The update has published the sections with the compression and the stored content of `object`.
-/
structure Republished (w : World) (object : TuxObject) (i : ℕ)
    (sections : MetadataMap × Tags String) (new : TuxObject) (w' : World) : Prop where
  entry : w'.dir object.path = some new.file
  handleOf : HandleOf w' new new.file (object.updated (w.data i) sections.1 sections.2)
  compressionType_eq : new.header.compressionType = object.header.compressionType
  contentLength_eq : new.header.contentLength = object.header.contentLength

/-- An update of a compressed object returns `Ok` and republishes what is stored exactly when the
object has no content and its sections are within the limits of the format. -/
theorem compressed_update_iff {update : Update} {w : World} {object : TuxObject} {i : ℕ}
    {tags : Tags String} (hopen : OpenOn w object i) (hwritable : object.writable = true)
    (hcompressed : object.header.compressionType ≠ .none)
    (hsupported : isSupported object.header.compressionType = true)
    (htags : object.storedTags (w.data i) = .ok tags)
    (hcompute : ∃ layout, (object.rewriteOptions (update.sections object.metadata tags).1
      (update.sections object.metadata tags).2).layout.compute
      (size (update.sections object.metadata tags).1)
      (size (update.sections object.metadata tags).2) = .ok layout)
    (hnames : ∀ counter, w.dir (tempPathOf object.path w.pid counter) = none) :
    Method.Delivers (FsStep NoFaults) update.run object
        (fun _ new w' => Republished w object i (update.sections object.metadata tags) new w') w ↔
      object.header.contentLength = 0 ∧ (update.sections object.metadata tags).1.Fits ∧
        (update.sections object.metadata tags).2.Fits := by
  have hsections : ∀ {tags'}, (update.keepsTags = true →
      object.storedTags (w.data i) = .ok tags') →
      update.sections object.metadata tags' = update.sections object.metadata tags := by
    intro tags' htags'
    exact Update.sections_eq fun hkeeps => Except.ok.inj ((htags' hkeeps).symm.trans htags)
  constructor
  · intro hdelivers
    have hrun := exec_ends (fsStep_perform NoFaults) (update.run.on object) w
    rcases hresult : (exec perform (update.run.on object) w).1 with ⟨e | _, new⟩
    · rw [hresult] at hrun
      exact (hdelivers.ends hrun).elim
    · rw [hresult] at hrun
      obtain ⟨tags', htags', hupdated⟩ := (Update.run_safe hopen update).ends hrun
      rw [hsections htags'] at hupdated
      have hrepublished : Republished w object i _ new _ := hdelivers.ends hrun
      have hcontent : object.storedContent (w.data i) = [] := by
        by_contra hne
        exact hcompressed (hupdated.uncompressed hne)
      obtain ⟨layout, metadata, tags, _, _, _, hheader⟩ := hrepublished.handleOf.stored
      have hlength := hrepublished.contentLength_eq
      rw [hheader, TuxObject.updated_content, hcontent] at hlength
      exact ⟨hlength.symm, hupdated.fits⟩
  · rintro ⟨hlength, hfits⟩
    have hcontent : object.storedContent (w.data i) = [] := by
      rw [TuxObject.storedContent, hlength]
      exact List.take_zero
    apply Method.Safe.mono (Method.Safe.allow (fun _ _ _ => trivial)
      (Update.run_safe hopen update))
    · rintro _ new w' ⟨tags', htags', hupdated⟩
      rw [hsections htags'] at hupdated
      obtain ⟨layout, metadata, tags, _, _, _, hheader⟩ := hupdated.handleOf.stored
      refine ⟨hupdated.entry, hupdated.handleOf, by rw [hheader]; rfl, ?_⟩
      rw [hheader, TuxObject.updated_content, hcontent, hlength]
      rfl
    · -- each reason for which it could fail is excluded
      rintro e object' w' ⟨_, _, hrefused⟩
      rcases hrefused hwritable with ⟨c, hc⟩ | ⟨_, hno⟩ | ⟨tags', w₁, htags', hsame, hrefused⟩
      · exact hc
      · exact hno tags htags
      · rw [hsections htags'] at hrefused
        rcases hrefused with hcreate | hne | hfinish
        · rcases hcreate with hunsupported | ⟨htokio, _⟩ | ⟨e, hlarge⟩ | ⟨c, hc⟩ | ⟨counter, hname⟩
          · rw [TuxObject.rewriteOptions, hsupported] at hunsupported
            cases hunsupported
          · cases htokio
          · obtain ⟨layout, hlayout⟩ := hcompute
            have hdefault : defaultAlignment < 2 ^ 32 := by decide
            cases hlarge.symm.trans (LayoutOptions.checkedCompute_of_compute hdefault hlayout)
          · exact hc
          · rw [hsame.dir_eq, hsame.pid_eq] at hname
            exact hname (hnames counter)
        · exact hne hcontent
        · rcases hfinish with ⟨c, hc⟩ | hnot
          · exact hc
          · exact hnot hfits

end

attribute [local instance] fullPlatform pairCodecs

/-- In a file system that was empty, a published object is the only entry. -/
lemma PublishedAs.sole_entry {object : TuxObject} {draft : Draft} {w : World}
    (h : PublishedAs (Job.startedIn World.empty World.somePath fun _ => True) NoFaults World.empty w
      object draft) (counter : ℕ) : w.dir (tempPathOf object.path w.pid counter) = none := by
  obtain ⟨layout, counted, _, hpublished⟩ := h.published
  have hpath : object.path = World.somePath := hpublished.path_eq
  rw [hpath]
  cases hdir : w.dir (tempPathOf World.somePath w.pid counter) with
  | none => rfl
  | some i =>
      have htidy : Tidy NoFaults := ⟨fun _ _ => id, fun _ => id⟩
      exact absurd hdir (h.clean htidy (tempPathOf_ne _ _ _) (Nat.zero_le i))

/-- A compressed object without content can be updated. -/
theorem compressed_update_iff_empty :
    ∃ outcome object w, Ends (FsStep NoFaults) (life .blocking World.somePath
      { CreateOptions.default with compression := .zstd 3 } [] .finish).run World.empty
      (.ok outcome) w ∧ outcome.2 = .ok (some object) ∧
      Method.Delivers (FsStep NoFaults) (Update.setSections Tags.new Tags.new).run object
        (fun _ new w' => Republished w object object.file (Tags.new, Tags.new) new w') w := by
  obtain ⟨⟨results, _ | _ | object⟩, w, hresults, hrun⟩ := exec_ends_map (fsStep_perform NoFaults)
    (p := (life .blocking World.somePath { CreateOptions.default with compression := .zstd 3 } []
      .finish).run) (s := World.empty)
    (f := fun outcome => outcome.2.toOption.join.map TuxObject.header)
    (b := some (headerOf (.zstd 3) ⟨64, 608⟩ 0)) (by decide +kernel)
  · cases hresults
  · cases hresults
  · have hheader : object.header = headerOf (.zstd 3) ⟨64, 608⟩ 0 := Option.some.inj hresults
    refine ⟨_, object, _, hrun, rfl, ?_⟩
    obtain ⟨draft, layout, _, _, hdraft, hobject⟩ :=
      life_publishes hrun rfl (unreported_blocking _)
    obtain ⟨tags, htags, _⟩ := hobject.handleOf.storedTags_eq
    refine (compressed_update_iff hobject.handleOf.file hobject.writable_eq ?_ ?_ htags ?_
      hdraft.sole_entry).mpr ⟨?_, ?_⟩
    · rw [hheader]
      nofun
    · rw [hheader]
      rfl
    · refine ⟨⟨64, 608⟩, ?_⟩
      show LayoutOptions.compute { LayoutOptions.default with
        minContentStart := object.header.contentStart } (size (Tags.new : MetadataMap))
        (size (Tags.new : Tags String)) = _
      rw [hheader]
      decide +kernel
    · rw [hheader]
      rfl
    · exact ⟨Tags.fits_new, Tags.fits_new⟩

/-- An update of a compressed object with content is rejected by the writer it goes through. -/
theorem compressed_update_fails :
    ¬ ∀ (update : Update) (w : World) (object : TuxObject) (i : ℕ) (tags : Tags String),
      OpenOn w object i → object.writable = true → object.header.compressionType ≠ .none →
      isSupported object.header.compressionType = true →
      object.storedTags (w.data i) = .ok tags →
      (∃ layout, (object.rewriteOptions (update.sections object.metadata tags).1
        (update.sections object.metadata tags).2).layout.compute
        (size (update.sections object.metadata tags).1)
        (size (update.sections object.metadata tags).2) = .ok layout) →
      (∀ counter, w.dir (tempPathOf object.path w.pid counter) = none) →
      Method.Delivers (FsStep NoFaults) update.run object (fun _ new w' =>
        Republished w object i (update.sections object.metadata tags) new w') w := by
  intro h
  obtain ⟨⟨results, _ | _ | object⟩, w, hresults, hrun⟩ := exec_ends_map (fsStep_perform NoFaults)
    (p := (life .blocking World.somePath { CreateOptions.default with compression := .zstd 3 }
      [.encode [.write [1, 1, 2]] true] .finish).run) (s := World.empty)
    (f := fun outcome => outcome.2.toOption.join.map TuxObject.header)
    (b := some (headerOf (.zstd 3) ⟨96, 608⟩ 4)) (by decide +kernel)
  · cases hresults
  · cases hresults
  · have hheader : object.header = headerOf (.zstd 3) ⟨96, 608⟩ 4 := Option.some.inj hresults
    obtain ⟨draft, layout, _, _, hdraft, hobject⟩ :=
      life_publishes hrun rfl (unreported_blocking _)
    obtain ⟨tags, htags, _⟩ := hobject.handleOf.storedTags_eq
    have hdelivers := h (.setSections Tags.new Tags.new) _ object object.file tags
      hobject.handleOf.file hobject.writable_eq (by rw [hheader]; nofun) (by rw [hheader]; rfl)
      htags
      ⟨⟨64, 608⟩, by
        show LayoutOptions.compute { LayoutOptions.default with
          minContentStart := object.header.contentStart } (size (Tags.new : MetadataMap))
          (size (Tags.new : Tags String)) = _
        rw [hheader]
        decide +kernel⟩
      hdraft.sole_entry
    have hupdate := exec_ends (fsStep_perform NoFaults)
      ((Update.setSections Tags.new Tags.new).run.on object) w
    rcases hresult : (exec perform ((Update.setSections Tags.new Tags.new).run.on object) w).1 with
      ⟨e | _, new⟩
    · rw [hresult] at hupdate
      exact hdelivers.ends hupdate
    · rw [hresult] at hupdate
      obtain ⟨_, _, hupdated⟩ := (Update.run_safe hobject.handleOf.file _).ends hupdate
      refine absurd (hupdated.uncompressed ?_)
        (by rw [TuxObject.updated_compression, hheader]; nofun)
      rw [TuxObject.updated_content, hobject.handleOf.storedContent_eq]
      intro hempty
      have hlength := congrArg ObjectHeader.contentLength (hobject.header_eq.symm.trans hheader)
      simp only at hempty
      rw [hempty] at hlength
      cases hlength

end TuxEncoding
