import TuxEncoding.Fs.Session
import TuxEncoding.Properties.Layouts

/-!
# The layout of a published object

`create` computes a layout with the reserves it is asked for, and `finish` partitions the prefix
again without them.

* `LayoutOptions.repartition_eq_iff`: when the second layout is the first.
* `published_layout_iff`: a published object has the layout its options asked for exactly when the
  prefix was a given one, or rounding hides the reserve of the metadata.
* `published_layout_without_reserve`: by default it does not.
-/

namespace TuxEncoding

open Interaction Program

set_option linter.unusedSectionVars false

/-! ## Two layouts of the same sections -/

namespace LayoutOptions

variable {o : LayoutOptions} {m t : ℕ} {layout layout' : SectionLayout}

/-- A fresh layout puts the tags behind the reserve. -/
lemma computeFresh_tagsStart (h : o.computeFresh m t = .ok layout) :
    layout.tagsStart.toNat = alignUp (headerSize + m + o.metadataReserve) o.alignment := by
  unfold computeFresh at h
  simp only [alignUp_max_one] at h
  split_ifs at h with htags hcontent
  cases h
  exact toNat_ofNat_uint16 (Nat.not_lt.mp htags)

/-- Without the reserve the tags of a fresh layout have room right behind the metadata. -/
lemma repartition_fresh_tagsStart (h : o.computeFresh m t = .ok layout)
    (hrep : repartition layout.contentStart m t o.alignment = some layout') :
    layout'.tagsStart.toNat = alignUp (headerSize + m) o.alignment := by
  have hmono : alignUp (headerSize + m) o.alignment ≤
      alignUp (headerSize + m + o.metadataReserve) o.alignment := alignUp_mono (by omega) _
  have htags := (computeFresh_spec h).1.tags_le
  rw [computeFresh_tagsStart h] at htags
  exact repartition_aligned hrep (by omega)

/-- Partitioning the prefix again gives the layout that was computed, if that one was a partition of
a given prefix, or the metadata ends in the same place with its reserve. -/
theorem repartition_eq_iff (h : o.compute m t = .ok layout)
    (hrep : repartition layout.contentStart m t o.alignment = some layout') :
    layout' = layout ↔ o.Reuses m t ∨
      alignUp (headerSize + m + o.metadataReserve) o.alignment =
        alignUp (headerSize + m) o.alignment := by
  by_cases hreuses : o.Reuses m t
  · obtain ⟨_, hfloor, hok⟩ := compute_of_reuses hreuses
    obtain rfl := Except.ok.inj (hok.symm.trans h)
    rw [(repartition_holds hfloor).1, hfloor] at hrep
    exact ⟨fun _ => .inl hreuses, fun _ => (Option.some.inj hrep).symm⟩
  · rw [compute_of_not_reuses hreuses] at h
    have hstart := (repartition_holds hrep).1
    rw [or_iff_right hreuses, ← computeFresh_tagsStart h, ← repartition_fresh_tagsStart h hrep]
    constructor
    · rintro rfl
      rfl
    · intro htags
      calc layout' = ⟨layout'.tagsStart, layout'.contentStart⟩ := rfl
        _ = ⟨layout.tagsStart, layout.contentStart⟩ := by
          rw [hstart, UInt16.toNat_inj.mp htags]

end LayoutOptions

/-! ## What `finish` writes -/

section

variable [Platform] [Codecs] {mayFail : FsCall → Prop} {w w₁ w₂ w₃ : World} {flavor : Flavor}
  {path : Path} {options : CreateOptions} {ops : List Op} {results : List OpResult}
  {writer writer' : ObjectWriter} {object : TuxObject} {layout : SectionLayout}

/-- The file at the path begins with a header that says where its sections are. -/
def HasLayout (w : World) (path : Path) (layout : SectionLayout) : Prop :=
  ∃ i header, w.dir path = some i ∧
    ObjectHeader.readFromBytes ((w.data i).take headerSize) = .ok header ∧
    (header.tagsStart, header.contentStart) = (layout.tagsStart, layout.contentStart)

lemma Published.hasLayout_iff {job : Job} {compression : CompressionTypes}
    {metadata : MetadataMap} {tags : Tags String} {counted : ℕ} {content : List UInt8}
    {layout' : SectionLayout}
    (h : Published job w object compression layout' metadata tags counted content) :
    HasLayout w job.final layout ↔ layout' = layout := by
  have hheader := h.image.readHeader
  constructor
  · rintro ⟨i, header, hentry, hread, hlayout⟩
    obtain rfl := Option.some.inj (h.entry.symm.trans hentry)
    obtain rfl := Except.ok.inj (hheader.symm.trans hread)
    obtain ⟨htags, hcontent⟩ := Prod.mk.inj hlayout
    calc layout' = ⟨layout'.tagsStart, layout'.contentStart⟩ := rfl
      _ = ⟨layout.tagsStart, layout.contentStart⟩ := congrArg₂ SectionLayout.mk htags hcontent
  · rintro rfl
    exact ⟨object.file, _, h.entry, hheader, rfl⟩

/-- Whatever is done to a writer between `create` and `finish`, as long as its sections come out
unchanged: the published object has the layout that was computed for them exactly when the prefix
was a given one with room for them, or the tags start in the same place without the reserve. -/
theorem published_layout_iff
    (hcreate : Ends (FsStep mayFail) (ObjectWriter.createAs flavor path options).run w
      (.ok writer) w₁)
    (hops : Ends (FsStep mayFail) ((runOps flavor ops).on writer) w₁ (.ok results, writer') w₂)
    (hmetadata : writer'.metadata = options.metadata) (htags : writer'.tags = options.tags)
    (hfinish : Ends (FsStep mayFail) (ObjectWriter.finishAs flavor writer').run w₂
      (.ok object) w₃)
    (hcompute : options.layout.compute (size options.metadata) (size options.tags) = .ok layout) :
    HasLayout w₃ path layout ↔
      options.layout.Reuses (size options.metadata) (size options.tags) ∨
        alignUp (headerSize + size options.metadata + options.layout.metadataReserve)
          options.layout.alignment =
        alignUp (headerSize + size options.metadata) options.layout.alignment := by
  have hcreates : Fallible.Safe (FsStep mayFail) (Job.startedIn w path fun _ => True).Allows
      (ObjectWriter.createAs flavor path options) _ _ w :=
    createAs_safe rfl (Nat.le_refl _) (Clean.of_next_le (Nat.le_refl _))
  obtain ⟨hcreated, ⟨temp, hlive⟩, _⟩ := hcreates.ends hcreate
  have hrun : Method.Safe (FsStep mayFail) (Job.startedIn w path fun _ => True).Allows
      (runOps flavor ops) writer _ (fun _ _ _ => False) w₁ :=
    runOps_safe (hcreated.represents flavor hlive) ops
  obtain ⟨draft, _, hbecomes⟩ := Program.Safe.ends hrun hops
  have hcomputed := LayoutOptions.compute_of_checked hcreated.layout_eq
  obtain rfl := Except.ok.inj (hcomputed.symm.trans hcompute)
  -- the sections have room where they were given it, so the prefix is partitioned in place
  obtain ⟨layout', hrep⟩ := LayoutOptions.checkedRepartition_of_checkedCompute hcreated.layout_eq
  have hrep' : LayoutOptions.checkedRepartition writer'.layout.contentStart (size writer'.metadata)
      (size writer'.tags) writer'.layoutOptions.alignment = .ok (some layout') := by
    rw [hbecomes.layout_eq, hbecomes.layoutOptions_eq, hcreated.layoutOptions_eq, hmetadata, htags]
    exact hrep
  obtain ⟨_, _, _, hpublished⟩ := (finishFast_safe 1 hbecomes.represents.writing hrep'
    fun _ _ _ _ _ _ _ => trivial).ends hfinish
  exact hpublished.hasLayout_iff.trans
    (LayoutOptions.repartition_eq_iff hcompute (LayoutOptions.repartition_of_checked hrep))

end

attribute [local instance] fullPlatform pairCodecs

/-- An object without content, in a layout of the caller's choice. -/
abbrev emptyObject (layout : LayoutOptions) : Fs TuxObject :=
  ObjectWriter.createAs .blocking World.somePath { CreateOptions.default with layout := layout } >>=
    ObjectWriter.finishAs .blocking

/-- The file system it is published in. -/
abbrev publishedIn (layout : LayoutOptions) : World :=
  (exec perform (emptyObject layout).run World.empty).2

/-- Between `create` and `finish` of the object nothing happens. -/
lemma emptyObject_stages (layout : LayoutOptions)
    (hok : (exec perform (emptyObject layout).run World.empty).1.isOk = true) :
    ∃ writer object w₁,
      Ends (FsStep NoFaults) (ObjectWriter.createAs .blocking World.somePath
        { CreateOptions.default with layout := layout }).run World.empty (.ok writer) w₁ ∧
      writer.metadata = Tags.new ∧ writer.tags = Tags.new ∧
      Ends (FsStep NoFaults) (ObjectWriter.finishAs .blocking writer).run w₁ (.ok object)
        (publishedIn layout) := by
  obtain ⟨object, _, hrun⟩ := exec_ends_ok (fsStep_perform NoFaults) hok
  obtain ⟨writer, w₁, hcreate, hfinish⟩ := Fallible.ends_of_bind hrun
  have hcreates : Fallible.Safe (FsStep NoFaults)
      (Job.startedIn World.empty World.somePath fun _ => True).Allows
      (ObjectWriter.createAs .blocking World.somePath
        { CreateOptions.default with layout := layout }) _ _ World.empty :=
    createAs_safe rfl (Nat.le_refl _) (Clean.of_next_le (Nat.le_refl _))
  obtain ⟨hcreated, _⟩ := hcreates.ends hcreate
  exact ⟨writer, object, w₁, hcreate, hcreated.metadata_eq, hcreated.tags_eq, hfinish⟩

/-- Without reserves an object has the layout it asked for. -/
theorem published_layout_iff_packed : ∃ writer object w₁,
    Ends (FsStep NoFaults) (ObjectWriter.createAs .blocking World.somePath
      { CreateOptions.default with layout := .packed }).run World.empty (.ok writer) w₁ ∧
    Ends (FsStep NoFaults) (ObjectWriter.finishAs .blocking writer).run w₁ (.ok object)
      (publishedIn .packed) ∧
    HasLayout (publishedIn .packed) World.somePath ⟨34, 36⟩ := by
  obtain ⟨writer, object, w₁, hcreate, hmetadata, htags, hfinish⟩ :=
    emptyObject_stages .packed (by decide +kernel)
  have hops : Ends (FsStep NoFaults) ((runOps .blocking []).on writer) w₁ (.ok [], writer) w₁ :=
    .refl _ _
  exact ⟨writer, object, w₁, hcreate, hfinish,
    (published_layout_iff hcreate hops hmetadata htags hfinish (by decide +kernel)).mpr
      (.inr (by decide +kernel))⟩

/-- By default the tags are to start at offset 320, and they start at 64. -/
theorem published_layout_without_reserve :
    ¬ ∀ (w w₁ w₂ w₃ : World) (path : Path) (options : CreateOptions) (ops : List Op)
      (results : List OpResult) (writer writer' : ObjectWriter) (object : TuxObject)
      (layout : SectionLayout),
      Ends (FsStep NoFaults) (ObjectWriter.createAs .blocking path options).run w (.ok writer) w₁ →
      Ends (FsStep NoFaults) ((runOps .blocking ops).on writer) w₁ (.ok results, writer') w₂ →
      writer'.metadata = options.metadata → writer'.tags = options.tags →
      Ends (FsStep NoFaults) (ObjectWriter.finishAs .blocking writer').run w₂ (.ok object) w₃ →
      options.layout.compute (size options.metadata) (size options.tags) = .ok layout →
      HasLayout w₃ path layout := by
  intro h
  obtain ⟨writer, object, w₁, hcreate, hmetadata, htags, hfinish⟩ :=
    emptyObject_stages .default (by decide +kernel)
  have hops : Ends (FsStep NoFaults) ((runOps .blocking []).on writer) w₁ (.ok [], writer) w₁ :=
    .refl _ _
  obtain ⟨i, header, hentry, hread, hlayout⟩ := h _ _ _ _ _ _ _ _ _ _ _ ⟨320, 608⟩ hcreate hops
    hmetadata htags hfinish (by decide +kernel)
  have hstored : ((publishedIn .default).dir World.somePath).map (fun i =>
      (ObjectHeader.readFromBytes (((publishedIn .default).data i).take headerSize)).toOption.map
        fun header => (header.tagsStart, header.contentStart)) = some (some (64, 608)) := by
    decide +kernel
  rw [hentry, Option.map_some, hread] at hstored
  cases hlayout.symm.trans (Option.some.inj (Option.some.inj hstored))

end TuxEncoding
