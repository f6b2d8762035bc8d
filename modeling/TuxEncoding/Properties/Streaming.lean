import TuxEncoding.Fs.Finishing
import TuxEncoding.Properties.RoundTrip

/-!
# Sections supplied up front or while streaming

The same object can be written in two ways: its sections are given to `create`, or they are set
while its content is written.

* `streaming_direct_agree`: when each way succeeds, and that both ways publish the same object. The
  two conditions differ: sections set late may use up the reserves, and where they outgrow the
  prefix both reserves are raised.
* `streaming_succeeds_alone`: sections set late are accepted where `create` refuses them.
-/

namespace TuxEncoding

open Interaction Program

set_option linter.unusedSectionVars false

section

variable [Platform] [Codecs]

/-! ## Writes alone -/

/-- A raw write or a flush. -/
def Op.WritesOnly : Op → Prop
  | .write _ | .flush => True
  | _ => False

lemma Op.WritesOnly.isPlain {op : Op} (h : op.WritesOnly) : op.IsPlain := by
  cases op with
  | encode _ _ => exact h.elim
  | _ => trivial

/-- Writes leave the sections alone. -/
lemma editAll_of_writesOnly {ops : List Op} (h : ∀ op ∈ ops, op.WritesOnly)
    (sections : MetadataMap × Tags String) : editAll ops sections = sections := by
  induction ops with
  | nil => rfl
  | cons op ops ih =>
      obtain ⟨hop, hops⟩ := List.forall_mem_cons.mp h
      cases op with
      | edit _ => exact hop.elim
      | _ => exact ih hops

/-- The options with other sections. -/
def CreateOptions.supplying (sections : MetadataMap × Tags String) (options : CreateOptions) :
    CreateOptions :=
  { options with
    metadata := sections.1
    tags := sections.2 }

/-! ## Both ways to write an object -/

/-- A handle that is opened at the path returns what the record holds, as long as nothing is
written. -/
def OpensAs (w : World) (path : Path) (record : Record) : Prop :=
  Fallible.Delivers (FsStep NoFaults) (TuxObject.open path)
    (fun opened w₁ => ∀ w₂, Undisturbed w₁ w₂ → Shows w₂ opened record) w

lemma PublishedAs.opensAs {w w' : World} {path : Path} {publishes : Inode → Prop}
    {object : TuxObject} {draft : Draft}
    (h : PublishedAs (Job.startedIn w path publishes) NoFaults w w' object draft)
    (hnone : draft.compression = .none) (hwhole : draft.IsWhole) :
    OpensAs w' path ⟨.none, draft.metadata, draft.tags, draft.content⟩ := by
  obtain ⟨layout, hpublished⟩ := h.whole hwhole
  have hstored := hpublished.handleOf.stored
  rw [hnone] at hstored
  have hentry : w'.dir path = some object.file := hpublished.entry
  apply Fallible.Safe.mono (Fallible.Safe.delivers (openAs_safe hentry hstored) ?_) ?_
    (fun _ _ h => h)
  · rintro e w₁ ⟨_, hfault⟩
    exact not_isFault_noFaults hfault
  · rintro opened w₁ ⟨_, _, hhandle, _⟩ w₂ hsame
    exact (hhandle.of_undisturbed hsame).shows rfl

/-- A rewrite finds a layout for the sections, with room for `n` bytes of content behind it. -/
def RoomToRewrite (options : CreateOptions) (metadata : MetadataMap) (tags : Tags String)
    (n : ℕ) : Prop :=
  ∃ layout, options.layout.raised.checkedCompute (size metadata) (size tags) = .ok layout ∧
    layout.contentStart.toNat + n ≤ maxFileLength

variable {flavor : Flavor} {path : Path} {options : CreateOptions} {ops : List Op}

/-- What a life of plain operations without a codec comes to. -/
lemma plain_life {w w' : World} {outcome : Outcome} {content : List UInt8}
    (hnone : options.compression = .none) (hplain : ∀ op ∈ ops, op.IsPlain)
    (hnames : FreshNames path w)
    (hrun : Ends Counting (life flavor path options ops .finish).run w (.ok outcome) w')
    (haccepted : accepted ops outcome.1 = content)
    (hwritten : flavor = .tokio → Outcome.NoneTooLarge outcome) :
    (∃ created, options.layout.checkedCompute (size options.metadata) (size options.tags) =
      .ok created) ∧
    ((∃ object, outcome.2 = .ok (some object)) ↔
      (editAll ops (options.metadata, options.tags)).1.Fits ∧
      (editAll ops (options.metadata, options.tags)).2.Fits ∧
      (RoomInPlace options (editAll ops (options.metadata, options.tags)).1
          (editAll ops (options.metadata, options.tags)).2 ∨
        RoomToRewrite options (editAll ops (options.metadata, options.tags)).1
          (editAll ops (options.metadata, options.tags)).2 content.length)) ∧
    ∀ object, outcome.2 = .ok (some object) →
      OpensAs w' path ⟨.none, (editAll ops (options.metadata, options.tags)).1,
        (editAll ops (options.metadata, options.tags)).2, content⟩ := by
  obtain ⟨created, draft, hcreated, heffects, hfinishes, hpublished⟩ :=
    life_finishes hnames hrun hwritten
  have hraw : (Draft.new flavor options).allowRawWrites = true :=
    CompressionTypes.isNone_iff.mpr hnone
  have hops : flavor = .tokio → NoneTooLarge outcome.1 := fun htokio => (hwritten htokio).1
  obtain ⟨hcompression, hsections, hlength, hcontent, _⟩ :=
    heffects.plain hplain hraw (Draft.keeps_new flavor options) hops
  replace hcompression : draft.compression = .none := hcompression.trans hnone
  replace hlength : draft.content.length ≤ content.length :=
    haccepted ▸ Nat.le_trans hlength (Nat.le_of_eq (Nat.zero_add _))
  -- what is published has been flushed, so nothing of it is lost
  have hkept : ∀ object, outcome.2 = .ok (some object) →
      draft.IsWhole ∧ draft.content = content := by
    intro object hobject
    have hflushed := (hpublished object hobject).flushed
    exact ⟨heffects.isWhole hflushed (NoneTooLarge.unreported hops),
      (hcontent hflushed).trans ((List.nil_append _).trans haccepted)⟩
  replace hsections : editAll ops (options.metadata, options.tags) = (draft.metadata, draft.tags) :=
    hsections.symm
  have hcan : CanFinish options.layout created.contentStart draft ↔ draft.metadata.Fits ∧
      draft.tags.Fits ∧ (RoomInPlace options draft.metadata draft.tags ∨
        RoomToRewrite options draft.metadata draft.tags draft.content.length) := by
    rw [roomInPlace_iff hcreated]
    constructor
    · rintro ⟨hmetadata, htags, hroom⟩
      exact ⟨hmetadata, htags, hroom.imp_right fun ⟨layout, hlayout, _, hend⟩ =>
        ⟨layout, hlayout, hend⟩⟩
    · rintro ⟨hmetadata, htags, hroom⟩
      exact ⟨hmetadata, htags, hroom.imp_right fun ⟨layout, hlayout, hend⟩ =>
        ⟨layout, hlayout, fun _ => hcompression, hend⟩⟩
  rw [hsections]
  refine ⟨⟨created, hcreated⟩, ⟨?_, ?_⟩, fun object hobject => ?_⟩
  · rintro ⟨object, hobject⟩
    have hroom := hcan.mp (hfinishes.mp ⟨object, hobject⟩)
    rwa [(hkept object hobject).2] at hroom
  · rintro ⟨hmetadata, htags, hroom⟩
    refine hfinishes.mpr (hcan.mpr ⟨hmetadata, htags, hroom.imp_right ?_⟩)
    rintro ⟨layout, hlayout, hend⟩
    exact ⟨layout, hlayout, by omega⟩
  · rw [← (hkept object hobject).2]
    exact (hpublished object hobject).opensAs hcompression (hkept object hobject).1

/-- Sections that `create` was given never outgrow the prefix. -/
lemma roomInPlace_supplied {layout : SectionLayout}
    (h : options.layout.checkedCompute (size options.metadata) (size options.tags) = .ok layout) :
    RoomInPlace options options.metadata options.tags := by
  obtain ⟨layout', hrep⟩ := LayoutOptions.checkedRepartition_of_checkedCompute h
  exact ⟨layout, layout', h, hrep⟩

/-- An uncompressed object is written twice, with its sections set late and with the same sections
supplied to `create`. Set late they are accepted when they fit in front of the content, or when they
can be laid out again with both reserves raised; supplied up front they are accepted when they can
be laid out with the reserves as they are. Objects that are published both ways open with the same
metadata, tags and content. Where the writer is the tokio one, a file that would become too large
may be reported as late as by `finish`. -/
theorem streaming_direct_agree {flavor : Flavor} {path : Path} {options : CreateOptions}
    {ops ops' : List Op} {sections : MetadataMap × Tags String} {content : List UInt8}
    {outcome : Outcome} {result : Except ObjectFileError Outcome} {w w' v v' : World}
    (hnone : options.compression = .none)
    (hplain : ∀ op ∈ ops, op.IsPlain) (hwrites : ∀ op ∈ ops', op.WritesOnly)
    (hsections : editAll ops (options.metadata, options.tags) = sections)
    (hnames : FreshNames path w) (hnames' : FreshNames path v)
    (hstreaming : Ends Counting (life flavor path options ops .finish).run w (.ok outcome) w')
    (hdirect : Ends Counting (life flavor path (options.supplying sections) ops' .finish).run v
      result v')
    (hcontent : accepted ops outcome.1 = content)
    (hcontent' : ∀ outcome', result = .ok outcome' → accepted ops' outcome'.1 = content)
    (hwritten : flavor = .tokio → Outcome.NoneTooLarge outcome)
    (hwritten' : flavor = .tokio → ∀ outcome', result = .ok outcome' →
      Outcome.NoneTooLarge outcome') :
    ((∃ object, publishedBy (.ok outcome) = some object) ↔
      sections.1.Fits ∧ sections.2.Fits ∧ (RoomInPlace options sections.1 sections.2 ∨
        RoomToRewrite options sections.1 sections.2 content.length)) ∧
    ((∃ object, publishedBy result = some object) ↔
      sections.1.Fits ∧ sections.2.Fits ∧
        ∃ layout, options.layout.checkedCompute (size sections.1) (size sections.2) = .ok layout) ∧
    ∀ object object', publishedBy (.ok outcome) = some object → publishedBy result = some object' →
      OpensAs w' path ⟨.none, sections.1, sections.2, content⟩ ∧
      OpensAs v' path ⟨.none, sections.1, sections.2, content⟩ := by
  obtain ⟨_, hfinishes, hopens⟩ := plain_life hnone hplain hnames hstreaming hcontent hwritten
  rw [hsections] at hfinishes hopens
  simp only [publishedBy_ok_iff]
  refine ⟨hfinishes, ?_⟩
  have hnone' : (options.supplying sections).compression = .none := hnone
  rcases result with e | outcome'
  · -- `create` has refused the sections
    have hnolayout : ¬ ∃ layout,
        options.layout.checkedCompute (size sections.1) (size sections.2) = .ok layout := by
      rintro ⟨layout, hlayout⟩
      rcases (life_counting hnames').ends hdirect with
        hunsupported | ⟨_, hcompressed⟩ | ⟨e, hlarge⟩
      · rw [hnone'] at hunsupported
        cases hunsupported
      · exact hcompressed hnone'
      · cases hlarge.symm.trans hlayout
    simp [publishedBy, hnolayout]
  · obtain ⟨⟨layout, hlayout⟩, hfinishes', hopens'⟩ := plain_life hnone'
      (fun op hop => (hwrites op hop).isPlain) hnames' hdirect (hcontent' outcome' rfl)
      fun htokio => hwritten' htokio outcome' rfl
    have hedited : editAll ops' ((options.supplying sections).metadata,
        (options.supplying sections).tags) = sections := editAll_of_writesOnly hwrites sections
    rw [hedited] at hfinishes' hopens'
    have hroom : RoomInPlace (options.supplying sections) sections.1 sections.2 :=
      roomInPlace_supplied hlayout
    have hcomputed : ∃ layout,
        options.layout.checkedCompute (size sections.1) (size sections.2) = .ok layout :=
      ⟨layout, hlayout⟩
    simp only [publishedBy_ok_iff, hfinishes', hroom, hcomputed, true_or, and_true, true_and]
    exact fun object object' hobject hobject' => ⟨hopens object hobject, hopens' object' hobject'⟩

end

attribute [local instance] fullPlatform pairCodecs

/-- Give the object a tag. -/
abbrev giveTag (sections : MetadataMap × Tags String) : MetadataMap × Tags String :=
  (sections.1, sections.2.insert "k" (.bool true))

/-- Three bytes and a tag, which is set after they are written or before. -/
theorem streaming_direct_agree_one_tag : ∃ w v,
    OpensAs w World.somePath ⟨.none, Tags.new, Tags.new.insert "k" (.bool true), [1, 2, 3]⟩ ∧
    OpensAs v World.somePath ⟨.none, Tags.new, Tags.new.insert "k" (.bool true), [1, 2, 3]⟩ := by
  obtain ⟨⟨results, _ | _ | object⟩, w, hresults, hstreaming⟩ := exec_ends_map counting_perform
    (p := (life .blocking World.somePath .default [.write [1, 2, 3], .edit giveTag] .finish).run)
    (s := World.empty) (f := fun outcome => (outcome.1, outcome.2.toOption.join.isSome))
    (b := ([.ok 3, .ok 0], true)) (by decide +kernel)
  · cases hresults
  · cases hresults
  obtain ⟨⟨results', _ | _ | object'⟩, v, hresults', hdirect⟩ := exec_ends_map counting_perform
    (p := (life .blocking World.somePath
      (CreateOptions.default.supplying (giveTag (Tags.new, Tags.new))) [.write [1, 2, 3]]
      .finish).run) (s := World.empty)
    (f := fun outcome => (outcome.1, outcome.2.toOption.join.isSome)) (b := ([.ok 3], true))
    (by decide +kernel)
  · cases hresults'
  · cases hresults'
  obtain rfl : results = [.ok 3, .ok 0] := congrArg Prod.fst hresults
  obtain rfl : results' = [.ok 3] := congrArg Prod.fst hresults'
  have hplain : ∀ op ∈ [Op.write [1, 2, 3], .edit giveTag], op.IsPlain := by simp [Op.IsPlain]
  have hwrites : ∀ op ∈ [Op.write [1, 2, 3]], op.WritesOnly := by simp [Op.WritesOnly]
  have hsections : editAll [Op.write [1, 2, 3], .edit giveTag] (Tags.new, Tags.new) =
      giveTag (Tags.new, Tags.new) := rfl
  have hagree := streaming_direct_agree rfl hplain hwrites hsections (freshNames_empty _)
    (freshNames_empty _) hstreaming hdirect rfl
    (fun outcome' houtcome => (Except.ok.inj houtcome) ▸ rfl)
    (fun htokio => by cases htokio) (fun htokio => by cases htokio)
  exact ⟨w, v, hagree.2.2 object object' rfl rfl⟩

/-- Reserves that leave the tags no room to grow. -/
abbrev tightReserves : LayoutOptions where
  metadataReserve := 0
  tagReserve := 4294967259
  alignment := 1
  minContentStart := 0

/-- An object without content, whose tag is set late. -/
abbrev lateTag : Fs Outcome :=
  life .blocking World.somePath { CreateOptions.default with layout := tightReserves }
    [.edit giveTag] .finish

/-- The same object, whose tag is supplied to `create`. -/
abbrev earlyTag : Fs Outcome :=
  life .blocking World.somePath (CreateOptions.supplying (giveTag (Tags.new, Tags.new))
    { CreateOptions.default with layout := tightReserves }) [] .finish

/-- `create` has no room for the tag and the whole reserve. -/
lemma earlyTag_refused : ∃ e w, Ends Counting earlyTag.run World.empty (.error e) w := by
  have hrun := exec_ends counting_perform earlyTag.run World.empty
  have hrefused : tightReserves.checkedCompute 2 7 =
      .error (.sectionOffsetTooLarge 4294967300 4294967295) := by
    decide +kernel
  rcases hresult : (exec perform earlyTag.run World.empty).1 with e | outcome
  · rw [hresult] at hrun
    exact ⟨e, _, hrun⟩
  · rw [hresult] at hrun
    obtain ⟨layout, _, hlayout, _⟩ :=
      life_finishes (freshNames_empty _) hrun fun htokio => by cases htokio
    cases hrefused.symm.trans hlayout

/-- Set late, the tag uses up some of its reserve. -/
lemma lateTag_published : ∃ outcome w object,
    Ends Counting lateTag.run World.empty (.ok outcome) w ∧ outcome.1 = [.ok 0] ∧
      outcome.2 = .ok (some object) := by
  have hrun := exec_ends counting_perform lateTag.run World.empty
  have hcreated : tightReserves.checkedCompute 2 2 = .ok ⟨34, 4294967295⟩ := by decide +kernel
  have hroom : LayoutOptions.checkedRepartition 4294967295 2 7 1 =
    .ok (some ⟨34, 4294967295⟩) := by
    decide +kernel
  have hkey : Codec.Fits "k" := show (asBytes "k").length ≤ maxPrefixedLength by decide +kernel
  have htag : (Tags.new.insert "k" (.bool true) : Tags String).Fits :=
    Tags.fits_insert Tags.fits_new hkey trivial (by decide +kernel)
  rcases hresult : (exec perform lateTag.run World.empty).1 with e | outcome
  · rw [hresult] at hrun
    rcases (life_counting (freshNames_empty _)).ends hrun with
      hunsupported | ⟨htokio, _⟩ | ⟨e, hlarge⟩
    · cases hunsupported
    · cases htokio
    · cases hcreated.symm.trans hlarge
  · rw [hresult] at hrun
    obtain ⟨created, draft, hcompute, ⟨_, _, _, hresults, ⟨rfl, rfl⟩, rfl, rfl⟩, hfinishes, _⟩ :=
      life_finishes (freshNames_empty _) hrun fun htokio => by cases htokio
    obtain rfl := Except.ok.inj (hcreated.symm.trans hcompute)
    obtain ⟨object, hobject⟩ := hfinishes.mpr ⟨Tags.fits_new, htag, .inl ⟨_, hroom⟩⟩
    exact ⟨outcome, _, object, hrun, hresults, hobject⟩

/-- A tag that is set late is accepted where `create` refuses it. -/
theorem streaming_succeeds_alone :
    ¬ ∀ (path : Path) (options : CreateOptions) (ops ops' : List Op)
      (sections : MetadataMap × Tags String) (content : List UInt8) (outcome : Outcome)
      (result : Except ObjectFileError Outcome) (w w' v v' : World),
      options.compression = .none → (∀ op ∈ ops, op.IsPlain) → (∀ op ∈ ops', op.WritesOnly) →
      editAll ops (options.metadata, options.tags) = sections →
      FreshNames path w → FreshNames path v →
      Ends Counting (life .blocking path options ops .finish).run w (.ok outcome) w' →
      Ends Counting (life .blocking path (options.supplying sections) ops' .finish).run v
        result v' →
      accepted ops outcome.1 = content →
      (∀ outcome', result = .ok outcome' → accepted ops' outcome'.1 = content) →
      ((∃ object, publishedBy (.ok outcome) = some object) ↔
        ∃ object, publishedBy result = some object) := by
  intro h
  obtain ⟨outcome, w, object, hlate, hresults, hobject⟩ := lateTag_published
  obtain ⟨e, v, hearly⟩ := earlyTag_refused
  have hplain : ∀ op ∈ [Op.edit giveTag], op.IsPlain := by simp [Op.IsPlain]
  have hwrites : ∀ op ∈ ([] : List Op), op.WritesOnly := by simp
  have haccepted : accepted [.edit giveTag] outcome.1 = [] := by
    rw [hresults]
    rfl
  have hiff := h _ _ _ _ _ _ _ _ _ _ _ _ rfl hplain hwrites rfl (freshNames_empty _)
    (freshNames_empty _) hlate hearly haccepted (by simp)
  obtain ⟨_, hpublished⟩ := hiff.mp ⟨object, publishedBy_ok_iff.mpr hobject⟩
  cases hpublished

end TuxEncoding
