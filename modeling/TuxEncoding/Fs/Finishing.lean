import TuxEncoding.Fs.Session

/-!
# When `finish` succeeds

What becomes of a writer where no call fails.

* `Counting` is that environment; its temporary-name counter only counts up, so that no name is
  given out twice (`FreshNames`).
* `createAs_counting`: a writer is created unless the options are at fault.
-/

namespace TuxEncoding

open Interaction Program

set_option linter.unusedSectionVars false

/-! ## Names that are given out once -/

/-- The counter tells temporary paths apart. -/
lemma tempPathOf_injective {path : Path} {pid a b : ℕ} (h : tempPathOf path pid a =
    tempPathOf path pid b) : a = b := by
  have hname := Option.some.inj (congrArg Path.fileName h)
  simp only [tempName, List.append_assoc, List.cons_append, List.append_cancel_left_eq,
    List.cons.injEq, true_and] at hname
  have hdigits := List.append_cancel_right hname
  rw [← Nat.ofDigitChars_ten_toDigits (n := a), hdigits, Nat.ofDigitChars_ten_toDigits]

/-- The counter is not turned back. -/
def CountsUp : (c : FsCall) → World → c.Reply → Prop
  | .nextTempCounter, w, counter => w.counter ≤ counter
  | _, _, _ => True

/-- An environment in which no call fails and the counter only counts up. -/
def Counting (c : FsCall) (w : World) (r : c.Reply) (w' : World) : Prop :=
  FsStep NoFaults c w r w' ∧ CountsUp c w r

/-- A process that is alone counts up. -/
lemma counting_perform (c : FsCall) (w : World) :
    Counting c w (perform c w).1 (perform c w).2 := by
  refine ⟨fsStep_perform NoFaults c w, ?_⟩
  cases c with
  | nextTempCounter => exact Nat.le_refl _
  | _ => trivial

/-- Later in the same process. -/
structure Later (w w' : World) : Prop where
  pid_eq : w'.pid = w.pid
  counter_le : w.counter ≤ w'.counter

variable {w w' w₁ : World} {path : Path}

lemma Later.refl (w : World) : Later w w := ⟨rfl, Nat.le_refl _⟩

lemma Later.trans (h₁ : Later w w₁) (h₂ : Later w₁ w') : Later w w' :=
  ⟨h₂.pid_eq.trans h₁.pid_eq, Nat.le_trans h₁.counter_le h₂.counter_le⟩

lemma Counting.later {c : FsCall} {r : c.Reply} (h : Counting c w r w') : Later w w' := by
  obtain ⟨⟨k, hk⟩ | ⟨hfault, _⟩, hcounts⟩ := h
  swap
  · exact hfault.elim
  have hw' : w' = (succeed k c w).2 := congrArg Prod.snd hk
  have hr : r = (succeed k c w).1 := congrArg Prod.fst hk
  subst hw'
  subst hr
  cases c with
  | nextTempCounter => exact ⟨rfl, Nat.le_succ_of_le hcounts⟩
  | _ =>
      simp only [succeed]
      repeat' split
      all_goals exact ⟨rfl, Nat.le_refl _⟩

/-- So is whatever a program does. -/
lemma Counting.safe_later {α : Type} (p : Program FsCall.Reply α) (w : World) :
    Program.Safe Counting (fun _ _ => True) p (fun _ w' => Later w w') w :=
  Program.Safe.of_invariant (fun _ _ _ _ hstep hlater => hlater.trans hstep.later) p (Later.refl w)

lemma Counting.fallible_later {α : Type} {may : FsCall → World → Prop} {m : Fs α}
    {Q : α → World → Prop} {E : ObjectFileError → World → Prop}
    (h : Fallible.Safe Counting may m Q E w) :
    Fallible.Safe Counting may m (fun a w' => Q a w' ∧ Later w w') E w := by
  refine Program.Safe.mono ?_ (Program.Safe.and h (Counting.safe_later m.run w))
  rintro (_ | _) w' ⟨hr, hlater⟩
  · exact hr
  · exact ⟨hr, hlater⟩

lemma Counting.method_later {α σ : Type} {may : FsCall → World → Prop} {m : FsMethod σ α} {self : σ}
    {Q : α → σ → World → Prop} {E : ObjectFileError → σ → World → Prop}
    (h : Method.Safe Counting may m self Q E w) :
    Method.Safe Counting may m self (fun a self' w' => Q a self' w' ∧ Later w w') E w := by
  refine Program.Safe.mono ?_ (Program.Safe.and h (Counting.safe_later (m.on self) w))
  rintro ⟨_ | _, self'⟩ w' ⟨hr, hlater⟩
  · exact hr
  · exact ⟨hr, hlater⟩

/-- What is safe where calls may fail is safe where none does. -/
lemma Counting.safe {α : Type} {may : FsCall → World → Prop} {p : Program FsCall.Reply α}
    {Q : α → World → Prop} (h : Program.Safe (FsStep NoFaults) may p Q w) :
    Program.Safe Counting (fun _ _ => True) p Q w :=
  Program.Safe.along id (fun _ _ _ _ hstep => hstep.1) (fun _ _ _ => trivial) h

/-- No temporary path that is still to come is taken. -/
def FreshNames (path : Path) (w : World) : Prop :=
  ∀ counter, w.counter ≤ counter → w.dir (tempPathOf path w.pid counter) = none

/-- No temporary file is left in an empty file system. -/
lemma freshNames_empty (path : Path) : FreshNames path World.empty := fun _ _ => rfl

/-- `create_temp_file` finds a name at once. -/
lemma createTempFile_counting (h : FreshNames path w) :
    Fallible.Safe Counting (fun _ _ => True) (createTempFile path)
      (fun p w' => (∃ f, w'.files p.1 = some f) ∧
        ∃ counter < w'.counter, p.2 = tempPathOf path w.pid counter)
      (fun _ _ => False) w := by
  unfold createTempFile
  refine Fallible.Safe.bind (Fallible.Safe.lift (Program.Safe.request trivial ?_))
  rintro pid w₁ ⟨hpid, _⟩
  obtain ⟨rfl, rfl⟩ := hpid.processId_inv
  show Fallible.Safe _ _ (tryNames _ _ _ (31 + 1)) _ _ _
  unfold tryNames
  refine Fallible.Safe.bind (Fallible.Safe.lift (Program.Safe.request trivial ?_))
  rintro counter w₂ ⟨hcounter, hcounts⟩
  obtain rfl := hcounter.nextTempCounter_inv
  refine Fallible.Safe.bind (Fallible.Safe.lift (Program.Safe.request trivial ?_))
  rintro r w₃ ⟨hcreate, _⟩
  obtain ⟨k, hk, _, rfl, rfl⟩ | ⟨htaken | hfault, _⟩ := hcreate.createNew_inv
  · exact Fallible.Safe.pure ⟨⟨_, World.create_files_self (h := hk)⟩, counter,
      Nat.lt_succ_self _, rfl⟩
  · exact absurd (h counter hcounts) htaken
  · exact hfault.elim

section

variable [Platform] {flavor : Flavor} {options : CreateOptions}

/-- A writer is created unless the options are at fault. -/
lemma createAs_counting (h : FreshNames path w) :
    Fallible.Safe Counting (fun _ _ => True) (ObjectWriter.createAs flavor path options)
      (fun self w' => isSupported options.compression = true ∧
        (flavor = .tokio → options.compression = .none) ∧
        ∃ counter < w'.counter, self.tempPath = some (tempPathOf path w.pid counter))
      (fun _ _ => isSupported options.compression = false ∨
        (flavor = .tokio ∧ options.compression ≠ .none) ∨
        ∃ e, options.layout.checkedCompute (size options.metadata) (size options.tags) =
          .error e) w := by
  unfold ObjectWriter.createAs
  refine Fallible.Safe.bind (Fallible.Safe.ofExcept ?_)
  by_cases hsupported : isSupported options.compression
  swap
  · rw [ensureSupported, if_neg hsupported]
    exact .inl (by simpa using hsupported)
  rw [ensureSupported, if_pos hsupported]
  dsimp only
  by_cases hflavor : flavor = .tokio ∧ ¬ options.compression.isNone
  · rw [if_pos hflavor]
    refine Fallible.Safe.bind (Fallible.Safe.throw (.inr (.inl ⟨hflavor.1, ?_⟩)))
    exact fun h => hflavor.2 (CompressionTypes.isNone_iff.mpr h)
  rw [if_neg hflavor]
  refine Fallible.Safe.bind (Fallible.Safe.ofExcept ?_)
  rcases hlayout : options.layout.checkedCompute (size options.metadata) (size options.tags) with
    e | layout
  · exact .inr (.inr ⟨e, rfl⟩)
  refine Fallible.Safe.bind (Fallible.Safe.mono (createTempFile_counting h) ?_
    (fun _ _ => False.elim))
  rintro ⟨file, temp⟩ w₁ ⟨⟨f, hfile⟩, counter, hcounter, rfl⟩
  have hseek : Fallible.Safe (FsStep NoFaults) (fun _ _ => True)
      (attemptIo (sys (.seek file layout.contentStart.toNat)))
      (fun _ w' => w'.counter = w₁.counter) (fun _ _ => False) w₁ :=
    seek_safe (toNat_uint32_le _) hfile trivial rfl fun hfault => hfault.elim
  refine Fallible.Safe.bind (Fallible.Safe.holding (Method.Safe.lift
    (Fallible.Safe.mono (Counting.safe hseek) ?_ fun _ _ => False.elim)))
  intro _ w₂ hcounter₂
  refine Fallible.Safe.pure ⟨hsupported, fun htokio => ?_, counter, hcounter₂ ▸ hcounter, rfl⟩
  by_contra hcompressed
  exact hflavor ⟨htokio, fun hnone => hcompressed (CompressionTypes.isNone_iff.mp hnone)⟩

/-! ## Finishing -/

/-- The sections are within the limits of the format, and have room in front of the content where it
is or where a rewrite can put it. -/
structure CanFinish (o : LayoutOptions) (contentStart : UInt32) (draft : Draft) : Prop where
  metadata_fits : draft.metadata.Fits
  tags_fits : draft.tags.Fits
  room : (∃ layout, LayoutOptions.checkedRepartition contentStart (size draft.metadata)
      (size draft.tags) o.alignment = .ok (some layout)) ∨
    ∃ layout, o.raised.checkedCompute (size draft.metadata) (size draft.tags) = .ok layout ∧
      (draft.content ≠ [] → draft.compression = .none) ∧
      layout.contentStart.toNat + draft.content.length ≤ maxFileLength

/-- There is room for the sections in front of the content, where `create` puts it. -/
def RoomInPlace (options : CreateOptions) (metadata : MetadataMap) (tags : Tags String) : Prop :=
  ∃ created layout,
    options.layout.checkedCompute (size options.metadata) (size options.tags) = .ok created ∧
    LayoutOptions.checkedRepartition created.contentStart (size metadata) (size tags)
      options.layout.alignment = .ok (some layout)

variable [Codecs] {job : Job} {self : ObjectWriter} {temp : Path} {draft : Draft}

lemma roomInPlace_iff {created : SectionLayout}
    (h : options.layout.checkedCompute (size options.metadata) (size options.tags) = .ok created) :
    RoomInPlace options draft.metadata draft.tags ↔
      ∃ layout, LayoutOptions.checkedRepartition created.contentStart (size draft.metadata)
        (size draft.tags) options.layout.alignment = .ok (some layout) := by
  constructor
  · rintro ⟨created', layout, hcreated', hlayout⟩
    obtain rfl := Except.ok.inj (hcreated'.symm.trans h)
    exact ⟨layout, hlayout⟩
  · rintro ⟨layout, hlayout⟩
    exact ⟨created, layout, h, hlayout⟩

/-- The error that is returned is the one that the draft has yet to report. -/
def Draft.HandsOut (draft : Draft) (e : ObjectFileError) : Prop :=
  draft.flavor = .tokio ∧ ∃ err, draft.deferred = some err ∧ e = .io err

lemma Represents.handsOut (h : Represents job w self temp draft) {e : ObjectFileError}
    (hhands : self.HandsOut draft.flavor e) : draft.HandsOut e := by
  obtain ⟨htokio, err, hdeferred, rfl⟩ := hhands
  exact ⟨htokio, err, h.deferred_eq ▸ hdeferred, rfl⟩

/-- `finish_by_rewriting` succeeds exactly when the draft can be finished and no error is left to
report. -/
lemma finishByRewriting_counting (n : ℕ) (h : Represents job w self temp draft)
    (hpub : MayPublish job draft.flavor self draft.content) (hnames : FreshNames job.final w)
    (hsupported : isSupported draft.compression = true)
    (hflavor : draft.flavor = .tokio → draft.compression = .none)
    (hrep : LayoutOptions.checkedRepartition self.layout.contentStart (size self.metadata)
      (size self.tags) self.layoutOptions.alignment = .ok none) :
    Method.Safe Counting (fun _ _ => True)
      (ObjectWriter.finishByRewriting draft.flavor (ObjectWriter.finishWithin draft.flavor n)) self
      (fun _ _ _ => CanFinish self.layoutOptions self.layout.contentStart draft)
      (fun e _ _ => CanFinish self.layoutOptions self.layout.contentStart draft →
        draft.HandsOut e) w := by
  rw [h.metadata_eq, h.tags_eq] at hrep
  -- only a rewrite can make room
  have hroom : CanFinish self.layoutOptions self.layout.contentStart draft →
      ∃ layout, self.layoutOptions.raised.checkedCompute (size draft.metadata) (size draft.tags) =
        .ok layout ∧ (draft.content ≠ [] → draft.compression = .none) ∧
        layout.contentStart.toNat + draft.content.length ≤ maxFileLength := by
    intro hcan
    refine hcan.room.resolve_left ?_
    rintro ⟨layout, hlayout⟩
    rw [hrep] at hlayout
    cases hlayout
  unfold ObjectWriter.finishByRewriting
  refine Method.Safe.bind (Method.Safe.get (Method.Safe.bind (Method.Safe.modify ?_)))
  have hsafe : Fallible.Safe (FsStep NoFaults) (job.replacing w).Allows
      (ObjectWriter.createAs draft.flavor self.finalPath self.replacementOptions) _ _ w :=
    createAs_safe h.writing.finalPath_eq (Nat.le_refl _) (Clean.of_next_le (Nat.le_refl _))
  have hcreate := Fallible.Safe.and (createAs_counting (h.writing.finalPath_eq ▸ hnames))
    (Counting.safe hsafe)
  refine Method.Safe.bind (Method.Safe.lift (Fallible.Safe.mono hcreate ?_ ?_))
  swap
  · rintro e w₁ ⟨hunsupported | ⟨htokio, hcompressed⟩ | ⟨e, hlarge⟩, _⟩ hcan
    · rw [ObjectWriter.replacementOptions, h.compression_eq, hsupported] at hunsupported
      cases hunsupported
    · refine absurd ?_ hcompressed
      rw [ObjectWriter.replacementOptions, h.compression_eq]
      exact hflavor htokio
    · obtain ⟨layout, hcompute, _⟩ := hroom hcan
      rw [ObjectWriter.replacementOptions, h.metadata_eq, h.tags_eq] at hlarge
      cases hlarge.symm.trans hcompute
  rintro replacement w₁ ⟨_, hcreated, ⟨temp', hlive⟩, habove₁, hfinal₁, hfile, _⟩
  have hcompute := hcreated.layout_eq
  rw [ObjectWriter.replacementOptions, h.metadata_eq, h.tags_eq] at hcompute
  refine Method.Safe.mono (Counting.safe
    (replace_safe n h.writing hpub hcreated hlive habove₁ hfinal₁ hfile)) ?_ ?_
  · rintro object _ w₂ ⟨rfl, hfinished, huncompressed, hend⟩
    obtain ⟨layout, _, _, hpublished⟩ := hfinished.published
    have himage := hpublished.image
    rw [h.metadata_eq, h.tags_eq] at himage
    refine ⟨himage.metadata_fits, himage.tags_fits, .inr ⟨replacement.layout, hcompute, ?_, hend⟩⟩
    intro hcontent
    cases hwriter : draft.flavor with
    | blocking => exact h.compression_eq ▸ huncompressed hwriter hcontent
    | tokio => exact hflavor hwriter
  · rintro e _ w₂ ⟨_, ⟨hcontent, hrefused⟩ | hrefused | hhands⟩ hcan
    · obtain ⟨layout, hlayout, huncompressed, hend⟩ := hroom hcan
      obtain rfl := Except.ok.inj (hcompute.symm.trans hlayout)
      rcases hrefused with ⟨_, hfault⟩ | hraw | hlong
      · exact hfault.elim
      · rw [hcreated.allowRawWrites_eq, ObjectWriter.replacementOptions, h.compression_eq,
          huncompressed hcontent] at hraw
        cases hraw
      · rw [List.length_nil, Nat.add_zero] at hlong
        exact absurd hend (Nat.not_le.mpr hlong)
    · rw [h.metadata_eq, h.tags_eq] at hrefused
      rcases hrefused with ⟨_, hfault⟩ | hnot
      · exact hfault.elim
      · exact absurd ⟨hcan.metadata_fits, hcan.tags_fits⟩ hnot
    · exact h.handsOut hhands

/-- Where no call fails, `finish` succeeds exactly when the draft can be finished and no error is
left to report. -/
lemma finishAs_counting (h : Represents job w self temp draft)
    (hpub : MayPublish job draft.flavor self draft.content) (hnames : FreshNames job.final w)
    (hsupported : isSupported draft.compression = true)
    (hflavor : draft.flavor = .tokio → draft.compression = .none) :
    Fallible.Safe Counting (fun _ _ => True) (ObjectWriter.finishAs draft.flavor self)
      (fun _ _ => CanFinish self.layoutOptions self.layout.contentStart draft)
      (fun e _ => CanFinish self.layoutOptions self.layout.contentStart draft →
        draft.HandsOut e) w := by
  rcases hrep : LayoutOptions.checkedRepartition self.layout.contentStart (size self.metadata)
      (size self.tags) self.layoutOptions.alignment with panic | _ | layout
  · unfold ObjectWriter.finishAs ObjectWriter.finishWithin
    rw [hrep]
    rw [h.metadata_eq, h.tags_eq] at hrep
    refine Fallible.Safe.consume (Method.Safe.throw (Program.Safe.mono (fun _ _ _ hcan => ?_)
      (Counting.safe_later _ w)))
    -- a rewrite would have asked for a layout with the same sums
    rcases hcan.room with ⟨layout, hlayout⟩ | ⟨layout, hlayout, _⟩
    · cases hrep.symm.trans hlayout
    · have hsums := LayoutOptions.sumsInRange_of_checkedCompute hlayout self.layout.contentStart
      cases hrep.symm.trans (LayoutOptions.checkedRepartition_eq_ok_iff.mpr ⟨hsums, rfl⟩)
  · unfold ObjectWriter.finishAs ObjectWriter.finishWithin
    rw [hrep]
    refine Fallible.Safe.consume (Method.Safe.mono
      (finishByRewriting_counting 0 h hpub hnames hsupported hflavor hrep) ?_ ?_)
    · intro _ _ w₁ hcan
      exact Program.Safe.mono (fun _ _ _ => hcan) (Counting.safe_later _ w₁)
    · intro _ _ w₁ hreason
      exact Program.Safe.mono (fun _ _ _ => hreason) (Counting.safe_later _ w₁)
  · refine Fallible.Safe.mono (Counting.safe (finishFast_safe 1 h.writing hrep hpub)) ?_ ?_
    · rintro object w₁ ⟨_, _, _, hpublished⟩
      have himage := hpublished.image
      rw [h.metadata_eq, h.tags_eq] at himage hrep
      exact ⟨himage.metadata_fits, himage.tags_fits, .inl ⟨layout, hrep⟩⟩
    · rintro e w₁ ⟨_, (⟨_, hfault⟩ | hnot) | hhands⟩ hcan
      · exact hfault.elim
      · rw [h.metadata_eq, h.tags_eq] at hnot
        exact absurd ⟨hcan.metadata_fits, hcan.tags_fits⟩ hnot
      · exact h.handsOut hhands

/-! ## A whole life -/

/-- While the only new temporary file has a name that was given out, those to come are free. -/
lemma FreshNames.later {publishes : Inode → Prop} {i counter : ℕ} (h : FreshNames path w)
    (habove : Above w.next path w w') (hlater : Later w w')
    (honly : OnlyTemp (Job.startedIn w path publishes) w' temp i)
    (htemp : temp = tempPathOf path w.pid counter) (hcounter : counter < w'.counter) :
    FreshNames path w' := by
  intro counter' hle
  rw [hlater.pid_eq]
  by_contra hentry
  obtain ⟨j, hj⟩ := Option.ne_none_iff_exists'.mp hentry
  have hne : tempPathOf path w.pid counter' ≠ path := tempPathOf_ne _ _ _
  rcases Nat.lt_or_ge j w.next with hold | hnew
  · -- the entry has been there from the start
    have hentry₀ := (habove.dir hne hold).mp hj
    rw [h counter' (Nat.le_trans hlater.counter_le hle)] at hentry₀
    cases hentry₀
  · have hsame := honly.sole hne hnew hj
    rw [htemp] at hsame
    have := tempPathOf_injective hsame
    omega

/-- Where no call fails, a life creates its writer unless the options are at fault, and its `finish`
succeeds exactly when the draft can be finished and no error is left to report. -/
lemma life_counting {ops : List Op} (hnames : FreshNames path w) :
    Fallible.Safe Counting (fun _ _ => True) (life flavor path options ops .finish)
      (fun p w' => ∃ layout draft,
        options.layout.checkedCompute (size options.metadata) (size options.tags) = .ok layout ∧
        Effects NoFaults ops (Draft.new flavor options) p.1 draft ∧
        match p.2 with
        | .ok (some object) => CanFinish options.layout layout.contentStart draft ∧
            PublishedAs (Job.startedIn w path fun _ => True) NoFaults w w' object draft
        | .ok none => False
        | .error e => CanFinish options.layout layout.contentStart draft → draft.HandsOut e)
      (fun _ _ => isSupported options.compression = false ∨
        (flavor = .tokio ∧ options.compression ≠ .none) ∨
        ∃ e, options.layout.checkedCompute (size options.metadata) (size options.tags) =
          .error e) w := by
  unfold life
  have hsafe : Fallible.Safe (FsStep NoFaults) (Job.startedIn w path fun _ => True).Allows
      (ObjectWriter.createAs flavor path options) _ _ w :=
    createAs_safe rfl (Nat.le_refl _) (Clean.of_next_le (Nat.le_refl _))
  refine Fallible.Safe.bind (Fallible.Safe.mono (Counting.fallible_later
    (Fallible.Safe.and (createAs_counting hnames) (Counting.safe hsafe))) ?_ ?_)
  swap
  · exact fun e w₁ hrefused => hrefused.1
  rintro writer w₁ ⟨⟨⟨hsupported, hflavor, counter, hcounter, htempPath⟩, hcreated,
    ⟨temp, hlive⟩, habove₁, _, _⟩, hlater₁⟩
  have htemp : temp = tempPathOf path w.pid counter :=
    Option.some.inj (hlive.tempPath_eq.symm.trans htempPath)
  have hops : Method.Safe (FsStep NoFaults) (Job.startedIn w path fun _ => True).Allows
      (runOps flavor ops) writer _ (fun _ _ _ => False) w₁ :=
    runOps_safe (hcreated.represents flavor hlive) ops
  refine Fallible.Safe.bind (Fallible.Safe.holding (Method.Safe.mono (Counting.method_later
    (Counting.safe hops)) ?_ fun _ _ _ => False.elim))
  rintro results writer' w₂ ⟨⟨draft, heffects, hbecomes⟩, hlater₂⟩
  have hrepresents := hbecomes.represents
  have habove₂ := habove₁.trans (hbecomes.only.above hlive.onlyTemp.floor_le path)
  have hcompression : draft.compression = options.compression := heffects.settings_eq.2
  obtain rfl : draft.flavor = flavor := heffects.settings_eq.1
  have hfresh : FreshNames path w₂ :=
    hnames.later habove₂ (hlater₁.trans hlater₂) hrepresents.writing.onlyTemp htemp
      (Nat.lt_of_lt_of_le hcounter hlater₂.counter_le)
  have hfinish : Fallible.Safe (FsStep NoFaults) (Job.startedIn w path fun _ => True).Allows
      (ObjectWriter.finishAs draft.flavor writer') _ _ w₂ :=
    finish_represents hrepresents fun _ _ => trivial
  have hcounting : Fallible.Safe Counting (fun _ _ => True)
      (ObjectWriter.finishAs draft.flavor writer') _ _ w₂ :=
    finishAs_counting hrepresents (fun _ _ _ _ _ _ _ => trivial) hfresh (hcompression ▸ hsupported)
      (hcompression ▸ hflavor)
  rw [hbecomes.layout_eq, hbecomes.layoutOptions_eq, hcreated.layoutOptions_eq] at hcounting
  refine Fallible.Safe.bind (Fallible.Safe.result (Fallible.Safe.bind (Fallible.Safe.mono
    (Fallible.Safe.and hcounting (Counting.safe hfinish)) ?_ ?_)))
  · rintro object w₃ ⟨hcan, hpublished⟩
    exact Fallible.Safe.pure (Fallible.Safe.pure ⟨writer.layout, draft, hcreated.layout_eq,
      heffects, hcan, habove₂.trans hpublished.above, hpublished.clean, hpublished.flushed,
      hpublished.published⟩)
  · rintro e w₃ ⟨hreason, _⟩
    exact Fallible.Safe.pure ⟨writer.layout, draft, hcreated.layout_eq, heffects, hreason⟩

/-- Neither an operation nor the end has reported that the file would become too large. -/
def Outcome.NoneTooLarge (outcome : Outcome) : Prop :=
  TuxEncoding.NoneTooLarge outcome.1 ∧ outcome.2 ≠ .error (.io fileTooLarge)

/-- A life that is over has published its draft exactly when the draft could be finished. -/
lemma life_finishes {ops : List Op} {outcome : Outcome} (hnames : FreshNames path w)
    (hrun : Ends Counting (life flavor path options ops .finish).run w (.ok outcome) w')
    (hwritten : flavor = .tokio → Outcome.NoneTooLarge outcome) :
    ∃ created draft,
      options.layout.checkedCompute (size options.metadata) (size options.tags) = .ok created ∧
      Effects NoFaults ops (Draft.new flavor options) outcome.1 draft ∧
      ((∃ object, outcome.2 = .ok (some object)) ↔
        CanFinish options.layout created.contentStart draft) ∧
      ∀ object, outcome.2 = .ok (some object) →
        PublishedAs (Job.startedIn w path fun _ => True) NoFaults w w' object draft := by
  obtain ⟨created, draft, hcreated, heffects, hend⟩ := (life_counting hnames).ends hrun
  refine ⟨created, draft, hcreated, heffects, ?_⟩
  rcases hresult : outcome.2 with e | _ | object
  · rw [hresult] at hend
    have hcannot : ¬ CanFinish options.layout created.contentStart draft := by
      intro hcan
      obtain ⟨htokio, err, hdeferred, rfl⟩ := hend hcan
      obtain ⟨hops, hlast⟩ := hwritten (heffects.settings_eq.1.symm.trans htokio)
      have hkeeps := heffects.keeps (Draft.keeps_new flavor options)
        (NoneTooLarge.unreported fun _ => hops)
      obtain rfl := (hkeeps.pending hdeferred).2.resolve_left not_exists_noFaults
      exact hlast hresult
    simp [hcannot]
  · rw [hresult] at hend
    exact hend.elim
  · rw [hresult] at hend
    refine ⟨⟨fun _ => hend.1, fun _ => ⟨object, rfl⟩⟩, ?_⟩
    rintro _ ⟨⟩
    exact hend.2

end

end TuxEncoding
