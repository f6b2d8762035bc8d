import TuxEncoding.Fs.Finishing

/-!
# Finishing compressed objects

A session records the length of the content in the metadata when it ends. Where that or an edit
makes the sections outgrow the prefix, `finish` copies the content through a new writer, which
rejects it when the object is compressed.

* `Effects.session` is the draft that edits and one session make up.
* `compressed_finish_iff`: `finish` of a compressed object succeeds exactly when its sections are
  within the limits of the format and still fit in front of the content, or there is no content.
* `recorded_length_outgrows_packed`: without reserves the recorded length alone makes `finish` fail.
-/

namespace TuxEncoding

open Interaction Program

set_option linter.unusedSectionVars false

section

variable [Platform] [Codecs]

/-! ## Edits and one session -/

/-- A change through `metadata_mut` and `tags_mut`. -/
abbrev Edit := MetadataMap × Tags String → MetadataMap × Tags String

namespace Draft

/-- The draft after some edits. -/
def editedBy (edits : List Edit) (draft : Draft) : Draft :=
  edits.foldl (fun draft f => draft.edit f) draft

/-- The draft after a session that was finished. -/
def through (encoder : ContentEncoder) (feeds : List Feed) (draft : Draft) : Draft :=
  (draft.openRawWrites.append (encoder.output feeds)).record (UInt64.ofNat (encoder.plain feeds))

variable {draft : Draft}

@[simp] lemma editedBy_nil : draft.editedBy [] = draft := rfl

@[simp] lemma editedBy_cons (f : Edit) (edits : List Edit) :
    draft.editedBy (f :: edits) = (draft.edit f).editedBy edits := rfl

@[simp] lemma editedBy_compression (edits : List Edit) :
    (draft.editedBy edits).compression = draft.compression := by
  induction edits generalizing draft with
  | nil => rfl
  | cons f edits ih => exact ih

@[simp] lemma editedBy_content (edits : List Edit) :
    (draft.editedBy edits).content = draft.content := by
  induction edits generalizing draft with
  | nil => rfl
  | cons f edits ih => exact ih

@[simp] lemma through_compression (encoder : ContentEncoder) (feeds : List Feed) :
    (draft.through encoder feeds).compression = draft.compression := by
  simp [through]

@[simp] lemma through_content (encoder : ContentEncoder) (feeds : List Feed) :
    (draft.through encoder feeds).content = draft.content ++ encoder.output feeds := by
  simp [through]

end Draft

/-- Edits, one finished session, and edits again. -/
def sessionOps (before after : List Edit) (feeds : List Feed) : List Op :=
  before.map .edit ++ .encode feeds true :: after.map .edit

/-- The draft that they lead to. -/
def sessionDraft (options : CreateOptions) (before after : List Edit) (encoder : ContentEncoder)
    (feeds : List Feed) : Draft :=
  (((Draft.new .blocking options).editedBy before).through encoder feeds).editedBy after

variable {mayFail : FsCall → Prop} {draft draft' : Draft} {results : List OpResult}

/-- Operations one after the other are those of the first part and then those of the second. -/
lemma Effects.of_append {ops ops' : List Op}
    (h : Effects mayFail (ops ++ ops') draft results draft') :
    ∃ results₁ results₂ draft₁, results = results₁ ++ results₂ ∧
      Effects mayFail ops draft results₁ draft₁ ∧ Effects mayFail ops' draft₁ results₂ draft' := by
  induction ops generalizing draft results with
  | nil => exact ⟨[], results, draft, rfl, ⟨rfl, rfl⟩, h⟩
  | cons op ops ih =>
      obtain ⟨r, rs, draft₁, rfl, hop, hrest⟩ := h
      obtain ⟨results₁, results₂, draft₂, rfl, hops, hops'⟩ := ih hrest
      exact ⟨r :: results₁, results₂, draft₂, rfl, ⟨r, results₁, draft₁, rfl, hop, hops⟩, hops'⟩

lemma Effects.edits {edits : List Edit}
    (h : Effects mayFail (edits.map .edit) draft results draft') :
    draft' = draft.editedBy edits := by
  induction edits generalizing draft results with
  | nil => exact h.2
  | cons f edits ih =>
      obtain ⟨_, _, _, _, ⟨_, rfl⟩, hrest⟩ := h
      exact ih hrest

/-- Without faults a finished session stores the output of its encoder. -/
lemma Op.Effect.finished {feeds : List Feed} {r : OpResult} {encoder : ContentEncoder}
    (h : (Op.encode feeds true).Effect NoFaults draft r draft')
    (hencoder : ContentEncoder.new draft.compression = .ok encoder) (hok : ∃ n, r = .ok n) :
    draft' = draft.through encoder feeds := by
  obtain ⟨n, rfl⟩ := hok
  simp only [Op.Effect] at h
  rw [hencoder] at h
  obtain ⟨bs, _, rfl, hbs⟩ := h
  obtain ⟨rfl, rfl⟩ := hbs not_exists_noFaults
  rw [(ContentEncoder.new_eq_ok hencoder).1, UInt64.zero_add]
  rfl

lemma Effects.session {options : CreateOptions} {before after : List Edit} {feeds : List Feed}
    {encoder : ContentEncoder}
    (h : Effects NoFaults (sessionOps before after feeds) (Draft.new .blocking options) results
      draft')
    (hencoder : ContentEncoder.new options.compression = .ok encoder)
    (hok : ∀ r ∈ results, ∃ n, r = .ok n) :
    draft' = sessionDraft options before after encoder feeds := by
  obtain ⟨results₁, _, draft₁, rfl, hbefore, r, results₂, draft₂, rfl, hsession, hafter⟩ :=
    h.of_append
  obtain rfl := hbefore.edits
  have hfinished := hsession.finished (by rw [Draft.editedBy_compression]; exact hencoder)
    (hok r (by simp))
  rw [hafter.edits, hfinished]
  rfl

/-! ## Finishing -/

/-- The object is published with exactly these bytes as its content. -/
def PublishesContent (w : World) (path : Path) (object : TuxObject) (bytes : List UInt8) : Prop :=
  w.dir path = some object.file ∧
    (w.data object.file).drop object.header.contentStart.toNat = bytes

/-- A rewrite finds a layout for the sections of the draft. -/
def RoomInRewrite (options : CreateOptions) (draft : Draft) : Prop :=
  ∃ layout,
    options.layout.raised.checkedCompute (size draft.metadata) (size draft.tags) = .ok layout

/-- A rewrite of a compressed object has room for the sections, but takes over only content that is
not there. -/
lemma canFinish_of_compressed {options : CreateOptions} {created : SectionLayout}
    (h : options.layout.checkedCompute (size options.metadata) (size options.tags) = .ok created)
    (hcompressed : draft.compression ≠ .none) (hroom : RoomInRewrite options draft) :
    CanFinish options.layout created.contentStart draft ↔ draft.metadata.Fits ∧ draft.tags.Fits ∧
      (RoomInPlace options draft.metadata draft.tags ∨ draft.content = []) := by
  rw [roomInPlace_iff h]
  constructor
  · rintro ⟨hmetadata, htags, hinPlace | ⟨_, _, huncompressed, _⟩⟩
    · exact ⟨hmetadata, htags, .inl hinPlace⟩
    · refine ⟨hmetadata, htags, .inr ?_⟩
      by_contra hcontent
      exact hcompressed (huncompressed hcontent)
  · rintro ⟨hmetadata, htags, hinPlace | hcontent⟩
    · exact ⟨hmetadata, htags, .inl hinPlace⟩
    · obtain ⟨layout, hlayout⟩ := hroom
      refine ⟨hmetadata, htags, .inr ⟨layout, hlayout, fun hne => absurd hcontent hne, ?_⟩⟩
      rw [hcontent]
      exact toNat_uint32_le _

/-- The content of a compressed object is fed through one session, and its sections are edited
before and after it. Where a layout with both reserves raised has room for the final sections,
`finish` publishes what the encoder has put out exactly when these sections are within the limits of
the format and still fit in front of the content, or the encoder has put out nothing. -/
theorem compressed_finish_iff {path : Path} {options : CreateOptions} {before after : List Edit}
    {feeds : List Feed} {encoder : ContentEncoder} {outcome : Outcome} {w w' : World}
    (hcompressed : options.compression ≠ .none)
    (hencoder : ContentEncoder.new options.compression = .ok encoder)
    (hnames : FreshNames path w)
    (hrun : Ends Counting
      (life .blocking path options (sessionOps before after feeds) .finish).run w (.ok outcome) w')
    (hok : ∀ r ∈ outcome.1, ∃ n, r = .ok n)
    (hroom : RoomInRewrite options (sessionDraft options before after encoder feeds)) :
    (∃ object, outcome.2 = .ok (some object) ∧
        PublishesContent w' path object (encoder.output feeds)) ↔
      (sessionDraft options before after encoder feeds).metadata.Fits ∧
      (sessionDraft options before after encoder feeds).tags.Fits ∧
      (RoomInPlace options (sessionDraft options before after encoder feeds).metadata
          (sessionDraft options before after encoder feeds).tags ∨
        encoder.output feeds = []) := by
  obtain ⟨created, draft, hcreated, heffects, hfinishes, hpublished⟩ :=
    life_finishes hnames hrun fun htokio => by cases htokio
  obtain rfl := heffects.session hencoder hok
  set final := sessionDraft options before after encoder feeds with hfinal
  have hcompression : final.compression = options.compression := by
    simp [hfinal, sessionDraft, Draft.new]
  have hcontent : final.content = encoder.output feeds := by
    simp [hfinal, sessionDraft, Draft.new]
  have hcan := canFinish_of_compressed hcreated (hcompression ▸ hcompressed) hroom
  rw [hcontent] at hcan
  rw [← hcan, ← hfinishes]
  constructor
  · rintro ⟨object, hobject, _⟩
    exact ⟨object, hobject⟩
  · rintro ⟨object, hobject⟩
    have hdraft := hpublished object hobject
    obtain ⟨layout, counted, _, hentry⟩ := hdraft.published
    exact ⟨object, hobject, hentry.entry, hdraft.content_eq.trans hcontent⟩

end

attribute [local instance] fullPlatform pairCodecs

/-- Two bytes that the encoder keeps as they are need no record of their length. -/
theorem compressed_finish_iff_two_bytes : ∃ outcome w' object,
    Ends Counting (life .blocking World.somePath
      { CreateOptions.default with compression := .zstd 3 }
      (sessionOps [] [] [.write [1, 1]]) .finish).run World.empty (.ok outcome) w' ∧
    outcome.2 = .ok (some object) ∧ PublishesContent w' World.somePath object [1, 1] := by
  obtain ⟨⟨results, result⟩, w, hresults, hrun⟩ := exec_ends_map counting_perform
    (p := (life .blocking World.somePath { CreateOptions.default with compression := .zstd 3 }
      (sessionOps [] [] [.write [1, 1]]) .finish).run) (s := World.empty)
    (f := Prod.fst) (b := [.ok 2]) (by decide +kernel)
  obtain rfl : results = [.ok 2] := hresults
  have hencoder : ContentEncoder.new (.zstd 3) = .ok (.coded [] 0) := rfl
  have hiff := compressed_finish_iff (by decide) hencoder (freshNames_empty _) hrun (by simp)
    ⟨⟨320, 608⟩, by decide +kernel⟩
  obtain ⟨object, hobject, hpublishes⟩ := hiff.mpr ⟨Tags.fits_new, Tags.fits_new,
    .inl ⟨⟨320, 608⟩, ⟨64, 608⟩, by decide +kernel, by decide +kernel⟩⟩
  exact ⟨_, w, object, hrun, hobject, hpublishes⟩

/-- Without reserves there is no room for the recorded length, and the writer that the content is
copied into rejects it. -/
theorem recorded_length_outgrows_packed :
    ¬ ∀ (path : Path) (options : CreateOptions) (before after : List Edit) (feeds : List Feed)
      (encoder : ContentEncoder) (outcome : Outcome) (w w' : World),
      options.compression ≠ .none → ContentEncoder.new options.compression = .ok encoder →
      FreshNames path w →
      Ends Counting (life .blocking path options (sessionOps before after feeds) .finish).run w
        (.ok outcome) w' →
      (∀ r ∈ outcome.1, ∃ n, r = .ok n) →
      RoomInRewrite options (sessionDraft options before after encoder feeds) →
      ∃ object, outcome.2 = .ok (some object) ∧
        PublishesContent w' path object (encoder.output feeds) := by
  intro h
  obtain ⟨⟨results, result⟩, w, hresults, hrun⟩ := exec_ends_map counting_perform
    (p := (life .blocking World.somePath
      { CreateOptions.default with compression := .zstd 3, layout := .packed }
      (sessionOps [] [] [.write [1, 1, 2]]) .finish).run) (s := World.empty)
    (f := fun outcome => (outcome.1, outcome.2.isOk)) (b := ([.ok 3], false)) (by decide +kernel)
  obtain ⟨rfl, hfails⟩ := Prod.mk.inj hresults
  have hencoder : ContentEncoder.new (.zstd 3) = .ok (.coded [] 0) := rfl
  obtain ⟨object, hobject, _⟩ := h _ _ [] [] [.write [1, 1, 2]] _ _ _ _ (by decide) hencoder
    (freshNames_empty _) hrun (by simp) ⟨⟨328, 586⟩, by decide +kernel⟩
  rw [hobject] at hfails
  cases hfails

end TuxEncoding
