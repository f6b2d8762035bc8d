import TuxEncoding.Properties.FailedUpdate

/-!
# Where updates put the content

An atomic update lays the object out again, with the prefix it has as a floor.

* `nextStart` is where an update with sections of given sizes puts the content, and
  `compute_contentStart` reads it off `LayoutOptions::compute`.
* `updates_do_not_creep`: a run of updates of any length moves the content where `nextStart` says,
  never back, and never behind the largest prefix that one of the updates asks for.
-/

namespace TuxEncoding

open Interaction Program

set_option linter.unusedSectionVars false

/-! ## One layout -/

/-- The prefix that sections of these sizes get with the default reserves and alignment. -/
def freshStart (sizes : ℕ × ℕ) : ℕ :=
  alignUp (alignUp (headerSize + sizes.1 + 256) 32 + sizes.2 + 256) 32

/-- Where an update with sections of these sizes puts content that was at `start`. -/
def nextStart (start : ℕ) (sizes : ℕ × ℕ) : ℕ :=
  if headerSize + sizes.1 + sizes.2 ≤ start then start else freshStart sizes

lemma le_freshStart (sizes : ℕ × ℕ) : headerSize + sizes.1 + sizes.2 + 512 ≤ freshStart sizes := by
  have hinner := le_alignUp (headerSize + sizes.1 + 256) 32
  have houter := le_alignUp (alignUp (headerSize + sizes.1 + 256) 32 + sizes.2 + 256) 32
  unfold freshStart
  omega

lemma nextStart_of_fits {start : ℕ} {sizes : ℕ × ℕ} (h : headerSize + sizes.1 + sizes.2 ≤ start) :
    nextStart start sizes = start := if_pos h

lemma le_nextStart (start : ℕ) (sizes : ℕ × ℕ) : start ≤ nextStart start sizes := by
  have hfresh := le_freshStart sizes
  unfold nextStart
  split_ifs with hfits
  · exact Nat.le_refl start
  · omega

lemma nextStart_le (start : ℕ) (sizes : ℕ × ℕ) :
    nextStart start sizes ≤ max start (freshStart sizes) := by
  unfold nextStart
  split_ifs
  · exact Nat.le_max_left _ _
  · exact Nat.le_max_right _ _

/-- A fresh layout leaves the reserves, and the floor does not matter where the sections do not fit
below it. -/
lemma computeFresh_contentStart {start : UInt32} {m t : ℕ} {layout : SectionLayout}
    (hfits : start.toNat < headerSize + m + t)
    (h : ({ LayoutOptions.default with minContentStart := start } : LayoutOptions).computeFresh m
      t = .ok layout) : layout.contentStart.toNat = freshStart (m, t) := by
  have hfloor : alignUp start.toNat 32 ≤ freshStart (m, t) := by
    have hinner := le_alignUp (headerSize + m + 256) 32
    refine alignUp_mono ?_ 32
    show start.toNat ≤ alignUp (headerSize + m + 256) 32 + t + 256
    omega
  unfold LayoutOptions.computeFresh at h
  simp only [LayoutOptions.default, defaultMetadataReserve, defaultTagReserve, defaultAlignment,
    alignUp_max_one] at h
  split_ifs at h with htags hcontent
  cases h
  rw [LayoutOptions.toNat_ofNat_uint32 (Nat.not_lt.mp hcontent)]
  exact Nat.max_eq_left hfloor

/-- A prefix with room is kept: where it cannot be, no fresh layout is possible either. -/
lemma compute_of_fits {start : UInt32} {m t : ℕ} {layout : SectionLayout}
    (hfits : headerSize + m + t ≤ start.toNat)
    (h : ({ LayoutOptions.default with minContentStart := start } : LayoutOptions).compute m t =
      .ok layout) : LayoutOptions.repartition start m t 32 = some layout := by
  rcases LayoutOptions.compute_cases h with hrep | hfresh
  · exact hrep
  · obtain ⟨layout', hrep⟩ : ∃ layout', LayoutOptions.repartition start m t 32 = some layout' :=
      LayoutOptions.repartition_isSome hfits (LayoutOptions.computeFresh_spec hfresh).2
    have hpos : start.toNat > 0 := by
      have hsize : headerSize = 32 := rfl
      omega
    cases h.symm.trans (LayoutOptions.compute_of_repartition hpos hrep)
    exact hrep

/-- Where `LayoutOptions::compute` puts the content of an update. -/
lemma compute_contentStart {start : UInt32} {m t : ℕ} {layout : SectionLayout}
    (h : ({ LayoutOptions.default with minContentStart := start } : LayoutOptions).compute m t =
      .ok layout) : layout.contentStart.toNat = nextStart start.toNat (m, t) := by
  unfold nextStart
  split_ifs with hfits
  · rw [(LayoutOptions.repartition_holds (compute_of_fits hfits h)).1]
  · rcases LayoutOptions.compute_cases h with hrep | hfresh
    · obtain ⟨hstart, hholds⟩ := LayoutOptions.repartition_holds hrep
      have hmetadata := hholds.metadata_le
      have htags := hholds.tags_le
      rw [hstart] at htags
      refine absurd ?_ hfits
      show headerSize + m + t ≤ start.toNat
      exact le_trans (by omega) htags
    · exact computeFresh_contentStart (Nat.not_le.mp hfits) hfresh

/-! ## Runs of updates -/

section

variable [Platform] [Codecs] {mayFail : FsCall → Prop} {w w' : World} {object new : TuxObject}
  {i : ℕ}

/-- An update that has returned `Ok`: the handle before and after it, and the sizes of the sections
it has encoded. -/
structure UpdateStep where
  before : TuxObject
  sizes : ℕ × ℕ
  after : TuxObject

/-- The sizes of the sections that an update encodes, when `tags` is what is stored. -/
def Update.sizes (update : Update) (object : TuxObject) (tags : Tags String) : ℕ × ℕ :=
  (size (update.sections object.metadata tags).1, size (update.sections object.metadata tags).2)

/-- A run of updates that all return `Ok`, whichever calls fail. Between two of them anything may
happen to the file system that leaves the handle open. -/
inductive UpdateRun (mayFail : FsCall → Prop) (object : TuxObject) :
    List UpdateStep → TuxObject → Prop
  | refl : UpdateRun mayFail object [] object
  | tail {steps : List UpdateStep} {last new : TuxObject} {update : Update} {tags : Tags String}
      {w w' : World} {i : ℕ} (hrun : UpdateRun mayFail object steps last) (hopen : OpenOn w last i)
      (htags : update.keepsTags = true → last.storedTags (w.data i) = .ok tags)
      (hupdate : Ends (FsStep mayFail) (update.run.on last) w (.ok (), new) w') :
      UpdateRun mayFail object (steps ++ [⟨last, update.sizes last tags, new⟩]) new

/-- One update that returns `Ok`. -/
lemma OpenOn.contentStart_of_update {update : Update} {tags : Tags String} (h : OpenOn w object i)
    (htags : update.keepsTags = true → object.storedTags (w.data i) = .ok tags)
    (hupdate : Ends (FsStep mayFail) (update.run.on object) w (.ok (), new) w') :
    new.header.contentStart.toNat =
      nextStart object.header.contentStart.toNat (update.sizes object tags) := by
  obtain ⟨tags', htags', hupdated⟩ := (Update.run_safe h update).ends hupdate
  have hsections : update.sections object.metadata tags' =
      update.sections object.metadata tags := by
    cases update with
    | setMetadata | modifyMetadata =>
        rw [Except.ok.inj ((htags' rfl).symm.trans (htags rfl))]
    | setTags | setSections => rfl
  obtain ⟨layout, hcompute, hstart⟩ := hupdated.computed
  rw [hsections] at hcompute
  rw [hstart]
  exact compute_contentStart hcompute

/-- In every run of updates each one keeps the content where it is, or puts it behind a fresh prefix
when its sections do not fit in front of it. So it never moves back, and never behind the largest of
these prefixes. -/
theorem updates_do_not_creep {steps : List UpdateStep} (h : UpdateRun mayFail object steps new) :
    (∀ step ∈ steps, step.after.header.contentStart.toNat =
      nextStart step.before.header.contentStart.toNat step.sizes) ∧
    object.header.contentStart.toNat ≤ new.header.contentStart.toNat ∧
    new.header.contentStart.toNat ≤
      (steps.map fun step => freshStart step.sizes).foldl max object.header.contentStart.toNat := by
  induction h with
  | refl =>
      refine ⟨fun _ hstep => absurd hstep List.not_mem_nil, Nat.le_refl _, ?_⟩
      rw [List.map_nil, List.foldl_nil]
  | tail hrun hopen htags hupdate ih =>
      obtain ⟨hsteps, hlow, hhigh⟩ := ih
      have hnext := hopen.contentStart_of_update htags hupdate
      refine ⟨?_, ?_, ?_⟩
      · intro step hstep
        rcases List.mem_append.mp hstep with hold | hnew
        · exact hsteps step hold
        · obtain rfl := List.mem_singleton.mp hnew
          exact hnext
      · rw [hnext]
        exact Nat.le_trans hlow (le_nextStart _ _)
      · rw [hnext, List.map_append, List.foldl_append]
        refine Nat.le_trans (nextStart_le _ _) (Nat.max_le.mpr ⟨?_, Nat.le_max_right _ _⟩)
        exact Nat.le_trans hhigh (Nat.le_max_left _ _)

end

attribute [local instance] fullPlatform pairCodecs

/-- A file system with an object of three bytes behind a prefix without reserves. -/
def packedBytes : Except ObjectFileError Outcome × World :=
  exec perform (life .blocking World.somePath { CreateOptions.default with layout := .packed }
    [.write [1, 2, 3]] .finish).run World.empty

/-- The handle that its writer has returned. -/
def packedHandle : TuxObject := (publishedBy packedBytes.1).get (by decide +kernel)

/-- The handle and the file system after an update with no tags. -/
def packedUpdate : (Except ObjectFileError Unit × TuxObject) × World :=
  exec perform ((Update.setTags Tags.new).run.on packedHandle) packedBytes.2

/-- The update with no tags returns `Ok`. -/
lemma packedUpdate_ends : Ends (FsStep NoFaults) ((Update.setTags Tags.new).run.on packedHandle)
    packedBytes.2 (.ok (), packedUpdate.1.2) packedUpdate.2 := by
  obtain ⟨⟨⟩, same, hresult, hends⟩ := Method.exec_ends_ok (fsStep_perform NoFaults)
    (Update.setTags Tags.new).run packedHandle packedBytes.2 (by decide +kernel)
  unfold packedUpdate
  rw [hresult]
  exact hends

/-- An update that has room in the prefix, and one whose tag has none. -/
theorem updates_do_not_creep_outgrown : ∃ new, UpdateRun NoFaults packedHandle
      [⟨packedHandle, (2, 2), packedUpdate.1.2⟩, ⟨packedUpdate.1.2, (2, 7), new⟩] new ∧
    packedUpdate.1.2.header.contentStart.toNat = 36 ∧ new.header.contentStart.toNat = 608 := by
  obtain ⟨_, new, _, hsecond⟩ := Method.exec_ends_ok (fsStep_perform NoFaults)
    (Update.setTags (Tags.new.insert "k" (.bool true))).run packedUpdate.1.2 packedUpdate.2
    (by decide +kernel)
  have hopen : OpenOn packedBytes.2 packedHandle 0 := ⟨36, by decide +kernel⟩
  have hopen' : OpenOn packedUpdate.2 packedUpdate.1.2 1 := ⟨36, by decide +kernel⟩
  have hsizes : (Update.setTags Tags.new).sizes packedHandle Tags.new = (2, 2) := by
    decide +kernel
  have hsizes' : (Update.setTags (Tags.new.insert "k" (.bool true))).sizes packedUpdate.1.2
      Tags.new = (2, 7) := by
    decide +kernel
  have hrun : UpdateRun NoFaults packedHandle
      [⟨packedHandle, (2, 2), packedUpdate.1.2⟩, ⟨packedUpdate.1.2, (2, 7), new⟩] new := by
    rw [← hsizes', ← hsizes]
    refine .tail (.tail .refl hopen ?_ packedUpdate_ends) hopen' ?_ hsecond
    · intro hkeeps
      cases hkeeps
    · intro hkeeps
      cases hkeeps
  have hnext := (updates_do_not_creep hrun).1
  have hstart : packedHandle.header.contentStart.toNat = 36 := by decide +kernel
  have hsame : packedUpdate.1.2.header.contentStart.toNat = 36 := by
    rw [hnext _ List.mem_cons_self, hstart]
    exact nextStart_of_fits (by decide)
  refine ⟨new, hrun, hsame, ?_⟩
  rw [hnext _ (List.mem_cons_of_mem _ List.mem_cons_self), hsame]
  show nextStart 36 (2, 7) = 608
  decide

end TuxEncoding
