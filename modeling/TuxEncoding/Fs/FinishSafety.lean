import TuxEncoding.Fs.WriterSafety

/-!
# Finishing keeps the contract

* `finishInPlace_safe`: what is published is the whole image, in front of the content as it stands.
* `finishWithin_safe`: the same through `finish_by_rewriting`, whose replacement is a writer in its
  own right and keeps a narrower contract, in which the file it replaces is not its own.
* `finish` that returns an error has not published anything, unless it was the clone of the handle
  that failed; and it leaves no temporary file, unless a rename or a removal may fail.
-/

namespace TuxEncoding

open Bytes Interaction Program

set_option linter.unusedSectionVars false

variable [Platform]

variable {mayFail : FsCall → Prop} {job : Job} {w w₀ : World} {self : ObjectWriter} {temp : Path}
  {content : List UInt8}

/-! ## Finishing in place -/

/-- The prefix goes in front of the content, and onto stable storage when the writer syncs. -/
lemma storePrefix_safe {flavor : Flavor} (h : Writing job w self temp content) {bytes : List UInt8}
    (hlen : bytes.length = self.layout.contentStart.toNat) (hpos : 0 < bytes.length) :
    Method.Safe (FsStep mayFail) job.Allows (ObjectWriter.storePrefix flavor bytes) self
      (fun _ self' w' => self' = self ∧ w'.data self.file = bytes ++ content ∧
        (self.sync = true → (w'.inodes self.file).synced = true) ∧
        (∃ pos, w'.files self.file = some ⟨self.file, pos, true⟩) ∧ OnlyFile self.file w w' ∧
        ¬ self.Withholds flavor)
      (fun e self' w' => self'.tempPath = some temp ∧ OnlyFile self.file w w' ∧
        ((∃ c, mayFail c) ∨ self.HandsOut flavor e)) w := by
  have hshort : bytes.length ≤ maxFileLength := by
    have := self.layout.contentStart.toNat_lt
    unfold maxFileLength
    omega
  have hseek : (w.seekTo self.file 0).files self.file = some ⟨self.file, 0, true⟩ :=
    World.seekTo_files_self h.file
  have honly := OnlyFile.seekTo (w := w) self.file 0
  set w₁ := w.seekTo self.file 0 with hw₁
  have hput := World.put_files_self hseek bytes
  have honly₂ := honly.trans (OnlyFile.put (w := w₁) self.file 0 true bytes)
  set w₂ := w₁.put self.file ⟨self.file, 0, true⟩ bytes with hw₂
  have hdata : w₂.data self.file = bytes ++ content := by
    refine (World.put_data_self self.file _ bytes).trans ?_
    show overwrite 0 (w.data self.file) 0 bytes = _
    rw [h.data_eq, ← hlen]
    by_cases hcontent : content = []
    · rw [hcontent, overwrite_nil, overwrite_empty 0 0 (List.length_pos_iff.mp hpos),
        List.replicate_zero, List.nil_append, List.append_nil]
    · rw [overwrite_empty 0 _ hcontent]
      exact overwrite_zero_append 0 content (by rw [List.length_replicate])
  unfold ObjectWriter.storePrefix
  have htemp := h.tempPath_eq
  refine Method.Safe.bind (Method.Safe.adapt (Method.Safe.mono (flushAs_safe h) ?_ ?_))
  swap
  · rintro e self' w' ⟨hlive, rfl, hreason⟩
    exact ⟨hlive.tempPath_eq, OnlyFile.refl _ _, hreason⟩
  rintro _ self' w' ⟨rfl, rfl, hflushed⟩
  refine Method.Safe.bind (Method.Safe.get (Method.Safe.bind (Method.Safe.lift
    (seek_safe (Nat.zero_le _) h.file h.allows ?_
      fun hfail e => ⟨htemp, OnlyFile.refl _ _, .inl ⟨_, hfail⟩⟩))))
  refine Method.Safe.bind (Method.Safe.lift (writeAll_safe hseek rfl
    ⟨_, temp, hseek, h.onlyTemp.temp_ne, h.onlyTemp.entry, h.onlyTemp.floor_le⟩ (fun _ => ?_)
    (fun hfail e => ⟨htemp, honly, .inl ⟨_, hfail.resolve_right (by dsimp only; omega)⟩⟩)
    (fun hfail e m _ => ⟨htemp, honly.trans (OnlyFile.put _ _ _ _),
      .inl ⟨_, hfail.resolve_right (by dsimp only; omega)⟩⟩)))
  refine Method.Safe.bind (Method.Safe.lift
    (flush_safe ⟨_, hput⟩ ?_ fun hfail e => ⟨htemp, honly₂, .inl ⟨_, hfail⟩⟩))
  cases hsync : self'.sync with
  | false => exact Method.Safe.pure ⟨rfl, hdata, nofun, ⟨_, hput⟩, honly₂, hflushed⟩
  | true =>
      refine Method.Safe.lift
        (syncAll_safe hput ⟨_, hput⟩ ?_ fun hfail e => ⟨htemp, honly₂, .inl ⟨_, hfail⟩⟩)
      refine ⟨rfl, ?_, fun _ => ?_, ⟨_, hput⟩, honly₂.trans (OnlyFile.setInode _ _), hflushed⟩
      · exact (congrArg Inode.data (World.setInode_inodes_self _ _)).trans hdata
      · exact congrArg Inode.synced (World.setInode_inodes_self _ _)

/-- `publish` renames the file over the final path, or leaves it behind. -/
lemma publish_safe (htemp : self.tempPath = some temp) (hfinal : self.finalPath = job.final)
    (ho : OnlyTemp job w temp self.file) (hpub : job.publishes (w.inodes self.file)) :
    Method.Safe (FsStep mayFail) job.Allows ObjectWriter.publish self
      (fun _ self' w' => self' = self.takeTempPath ∧ w' = w.move temp job.final)
      (fun _ self' w' => self' = self.takeTempPath ∧ w' = w ∧
        ∃ src dst, mayFail (.rename src dst)) w := by
  unfold ObjectWriter.publish
  refine Method.Safe.bind (Method.Safe.get ?_)
  rw [htemp]
  refine Method.Safe.bind (Method.Safe.modify (Method.Safe.bind (Method.Safe.lift
    (rename_safe ho.entry ⟨hfinal, ho.temp_ne, _, ho.entry, ho.floor_le, hpub⟩ ?_ ?_))))
  swap
  · exact fun hfail e => ⟨rfl, rfl, _, _, hfail⟩
  rw [hfinal]
  -- syncing the directory has no effect here and its failure is ignored
  split
  · refine Method.Safe.bind (Method.Safe.liftProgram (Program.Safe.request trivial ?_))
    intro r w₁ hopen
    obtain rfl := hopen.openDir_inv
    cases r with
    | error e => exact Method.Safe.pure ⟨rfl, rfl⟩
    | ok _ =>
        refine Method.Safe.bind (Method.Safe.liftProgram (Program.Safe.request trivial ?_))
        intro r w₂ hsync
        obtain rfl := hsync.syncDir_inv
        exact Method.Safe.pure ⟨rfl, rfl⟩
  · exact Method.Safe.pure ⟨rfl, rfl⟩

/-- A published object: the file at the final path is the prefix and the content, and it is open on
it. -/
structure Published (job : Job) (w : World) (object : TuxObject) (compression : CompressionTypes)
    (layout : SectionLayout) (metadata : MetadataMap) (tags : Tags String) (counted : ℕ)
    (content : List UInt8) : Prop where
  path_eq : object.path = job.final
  header_eq : object.header = headerOf compression layout counted
  metadata_eq : object.metadata = metadata
  writable_eq : object.writable = true
  floor_le : job.floor ≤ object.file
  entry : w.dir job.final = some object.file
  file : ∃ pos, w.files object.file = some ⟨object.file, pos, true⟩
  image : IsPrefixed compression layout metadata tags counted content (w.data object.file)

/-- What a job has to allow its writer to publish when no error is withheld: the content that was
stored, which is as long as the header says if that is all the writer has counted. -/
def MayPublish (job : Job) (flavor : Flavor) (writer : ObjectWriter) (content : List UInt8) :
    Prop :=
  ¬ writer.Withholds flavor → ∀ layout counted inode,
    (writer.contentLength = content.length → counted = content.length) →
    IsPrefixed writer.compression layout writer.metadata writer.tags counted content inode.data →
    (writer.sync = true → inode.synced = true) → job.publishes inode

/-- Why finishing a writer may fail once its sections have room. -/
def FinishRefused (mayFail : FsCall → Prop) (metadata : MetadataMap) (tags : Tags String) : Prop :=
  (∃ c, mayFail c) ∨ ¬ (metadata.Fits ∧ tags.Fits)

/-- What a writer leaves that has finished: no error was withheld, and the content is published. -/
structure Finished (job : Job) (mayFail : FsCall → Prop) (flavor : Flavor) (w₀ : World)
    (writer : ObjectWriter) (content : List UInt8) (object : TuxObject) (w : World) : Prop where
  above : Above job.floor job.final w₀ w
  clean : Tidy mayFail → Clean job w
  flushed : ¬ writer.Withholds flavor
  published : ∃ layout counted, (writer.contentLength = content.length → counted = content.length) ∧
    Published job w object writer.compression layout writer.metadata writer.tags counted content

/-- `finish`, when the sections have room in front of the content. -/
lemma finishInPlace_safe {flavor : Flavor} {layout : SectionLayout}
    (h : Writing job w self temp content)
    (hrep : LayoutOptions.checkedRepartition self.layout.contentStart (size self.metadata)
      (size self.tags) self.layoutOptions.alignment = .ok (some layout))
    (hpub : MayPublish job flavor self content) :
    Method.Safe (FsStep mayFail) job.Allows (ObjectWriter.finishInPlace flavor layout) self
      (fun object self' w' => self'.tempPath = none ∧ ¬ self.Withholds flavor ∧
        Above job.floor job.final w w' ∧ layout.contentStart = self.layout.contentStart ∧
        Clean job w' ∧ Published job w' object self.compression layout self.metadata self.tags
          self.contentLength content)
      (fun e self' w' => Unfinished job mayFail w self' w' ∧
        (FinishRefused mayFail self.metadata self.tags ∨ self.HandsOut flavor e)) w := by
  obtain ⟨hstart, hholds⟩ := LayoutOptions.checkedRepartition_holds hrep
  have hheader := hholds.headerSize_le
  have htags := hholds.tagsStart_le
  have hle : 0 < layout.contentStart.toNat := by
    have : headerSize = 32 := rfl
    omega
  -- the new layout keeps the content where it is, so the writer goes on as it was
  have hlive : Writing job w (self.setLayout layout) temp content :=
    ⟨h.tempPath_eq, h.finalPath_eq, h.onlyTemp,
      by rw [ObjectWriter.setLayout_layout, hstart]; exact h.file,
      by rw [ObjectWriter.setLayout_layout, hstart]; exact h.data_eq, h.length_le,
      by rw [ObjectWriter.setLayout_layout, hstart]; exact h.end_le⟩
  have hbuild : (self.setLayout layout).buildHeader =
      headerOf self.compression layout self.contentLength := rfl
  unfold ObjectWriter.finishInPlace
  refine Method.Safe.bind (Method.Safe.modify (Method.Safe.bind (Method.Safe.get ?_)))
  rw [hbuild, ObjectWriter.setLayout_metadata, ObjectWriter.setLayout_tags,
    ObjectWriter.setLayout_file, ObjectWriter.setLayout_finalPath]
  refine Method.Safe.bind (Method.Safe.lift (Fallible.Safe.ofExcept ?_))
  cases hencode : encodePrefix (headerOf self.compression layout self.contentLength) self.metadata
      self.tags layout with
  | error e =>
      refine ⟨hlive.unfinished (Above.refl _ _ _) rfl, .inl (.inr fun hfits => ?_)⟩
      rw [(encodePrefix_eq_ok_iff hheader htags _).mpr ⟨hfits.1, hfits.2, hholds, rfl⟩] at hencode
      cases hencode
  | ok bytes =>
      obtain ⟨hm, ht, _, rfl⟩ := (encodePrefix_eq_ok_iff hheader htags bytes).mp hencode
      have hlength := length_prefixBytes (headerOf self.compression layout self.contentLength)
        hm ht hholds
      refine Method.Safe.bind (Method.Safe.mono (storePrefix_safe hlive hlength (by omega)) ?_ ?_)
      swap
      · rintro e self' w₁ ⟨htemp, honly, hreason⟩
        have ho := h.onlyTemp.of_dir_eq honly.dir_eq
        exact ⟨⟨honly.above h.onlyTemp.floor_le _, .inl (congrFun honly.dir_eq _),
          .inl ⟨temp, _, htemp, ho.toHasTemp, fun _ => ho⟩⟩, hreason.imp_left .inl⟩
      rintro _ self' w₁ ⟨rfl, hdata, hsync, ⟨pos, hfile⟩, honly, hflushed⟩
      have ho₁ := h.onlyTemp.of_dir_eq honly.dir_eq
      have habove₁ := honly.above h.onlyTemp.floor_le job.final
      have himage : IsPrefixed self.compression layout self.metadata self.tags self.contentLength
          content (w₁.data self.file) := by
        refine ⟨hm, ht, hholds, ?_, hdata⟩
        have := h.length_le_max
        unfold maxFileLength at this
        omega
      refine Method.Safe.bind (Method.Safe.mono (publish_safe hlive.tempPath_eq hlive.finalPath_eq
        ho₁ (hpub hflushed layout _ _ id himage hsync)) ?_ ?_)
      swap
      · rintro e self' w₂ ⟨rfl, rfl, src, dst, hfail⟩
        refine ⟨⟨habove₁, .inl (congrFun honly.dir_eq _), .inr ⟨rfl, fun htidy => ?_⟩⟩,
          .inl (.inl ⟨_, hfail⟩)⟩
        exact absurd hfail (htidy.1 src dst)
      rintro _ self' w₂ ⟨rfl, rfl⟩
      have habove₂ := habove₁.trans (Above.move ho₁.entry ho₁.floor_le ho₁.temp_ne)
      refine Method.Safe.bind (Method.Safe.lift (tryClone_safe hfile
        ⟨_, hfile, (World.move_dir_dst _ _).trans ho₁.entry, ho₁.floor_le⟩ ?_ ?_))
      · refine Method.Safe.pure ⟨rfl, hflushed, habove₂, hstart, ho₁.clean_move, ?_⟩
        exact ⟨h.finalPath_eq, rfl, rfl, rfl, ho₁.floor_le,
          (World.move_dir_dst _ _).trans ho₁.entry, ⟨pos, hfile⟩, himage⟩
      · intro hfail e
        exact ⟨⟨habove₂, .inr ⟨_, hfail⟩, .inr ⟨rfl, fun _ => ho₁.clean_move⟩⟩,
          .inl (.inl ⟨_, hfail⟩)⟩

/-- `finish` on its fast path. -/
lemma finishFast_safe {flavor : Flavor} {layout : SectionLayout} (n : ℕ)
    (h : Writing job w self temp content)
    (hrep : LayoutOptions.checkedRepartition self.layout.contentStart (size self.metadata)
      (size self.tags) self.layoutOptions.alignment = .ok (some layout))
    (hpub : MayPublish job flavor self content) :
    Fallible.Safe (FsStep mayFail) job.Allows (ObjectWriter.finishWithin flavor n self)
      (fun object w' => ¬ self.Withholds flavor ∧ Above job.floor job.final w w' ∧ Clean job w' ∧
        Published job w' object self.compression layout self.metadata self.tags self.contentLength
          content)
      (fun e w' => Failed job mayFail w w' ∧
        (FinishRefused mayFail self.metadata self.tags ∨ self.HandsOut flavor e)) w := by
  unfold ObjectWriter.finishWithin
  rw [hrep]
  refine Fallible.Safe.consume (Method.Safe.mono (finishInPlace_safe h hrep hpub) ?_ ?_)
  · rintro object self' w' ⟨htemp, hflushed, habove, _, hclean, hpublished⟩
    -- nothing is left to remove
    unfold ObjectWriter.drop
    rw [htemp]
    exact ⟨hflushed, habove, hclean, hpublished⟩
  · rintro e self' w' ⟨hunfinished, hreason⟩
    exact Program.Safe.mono (fun _ _ hfailed => ⟨hfailed, hreason⟩) hunfinished.drop

/-! ## Finishing by rewriting -/

/-- The contract of the writer that `finish_by_rewriting` creates in `w`: what is there by then is
not its own. -/
def Job.replacing (job : Job) (w : World) : Job := { job with floor := w.next }

/-- What the replacement may do, its creator may do. -/
lemma Job.replacing_allows (hfloor : job.floor ≤ w.next) (c : FsCall) (w' : World)
    (h : (job.replacing w).Allows c w') : job.Allows c w' := by
  refine Job.Allows.mono ?_ ?_ ?_ h
  · exact hfloor
  · rfl
  · exact fun _ hpub => hpub

lemma Writing.floor_le_next (h : Writing job w self temp content) : job.floor ≤ w.next := by
  have := h.onlyTemp.floor_le
  have := w.dir_lt h.onlyTemp.entry
  omega

/-- The temporary file outlives a replacement, and is the only one left once the replacement's is
gone. -/
lemma HasTemp.outlives {i : ℕ} {w' : World} (h : HasTemp job w temp i)
    (habove : Above w.next job.final w w') : HasTemp job w' temp i :=
  ⟨h.temp_ne, h.floor_le, (habove.dir h.temp_ne (w.dir_lt h.entry)).mpr h.entry⟩

lemma OnlyTemp.outlives {i : ℕ} {w' : World} (h : OnlyTemp job w temp i)
    (habove : Above w.next job.final w w') (hclean : Clean (job.replacing w) w') :
    OnlyTemp job w' temp i := by
  refine ⟨h.toHasTemp.outlives habove, fun {path j} hpath hj hentry => ?_⟩
  rcases Nat.lt_or_ge j w.next with hlt | hge
  · exact h.sole hpath hj ((habove.dir hpath hlt).mp hentry)
  · exact absurd hentry (hclean hpath hge)

/-- A replacement that failed leaves its creator with the temporary file it had. -/
lemma Writing.unfinished_of_failed {w' : World} (h : Writing job w self temp content)
    (hfailed : Failed (job.replacing w) mayFail w w') :
    Unfinished job mayFail w self.takeSections w' :=
  ⟨hfailed.above.mono h.floor_le_next, hfailed.final_eq,
    .inl ⟨temp, self.file, h.tempPath_eq, h.onlyTemp.toHasTemp.outlives hfailed.above,
      fun htidy => h.onlyTemp.outlives hfailed.above (hfailed.clean htidy)⟩⟩

/-- The content of a live writer can be read back from where the layout puts it. -/
lemma Writing.content_eq (h : Writing job w self temp content) :
    ((w.data self.file).drop self.layout.contentStart.toNat).take self.contentLength = content := by
  rw [h.data_eq]
  by_cases hcontent : content = []
  · rw [hcontent, overwrite_nil, List.drop_nil, List.take_nil]
  · rw [overwrite_empty 0 _ hcontent, List.drop_left' List.length_replicate,
      List.take_of_length_le h.length_le]

/-- The source of the copy withholds no error behind its `flush`. -/
lemma flushSource_safe {flavor : Flavor} {source : ObjectWriter}
    (hsource : ∃ f, w.files source.file = some f) :
    Fallible.Safe (FsStep mayFail) job.Allows (ObjectWriter.flushSource flavor source)
      (fun _ w' => w' = w ∧ ¬ source.Withholds flavor)
      (fun e w' => w' = w ∧ ((∃ c, mayFail c) ∨ source.HandsOut flavor e)) w := by
  cases flavor with
  | blocking =>
      exact flush_safe hsource ⟨rfl, source.not_withholds_blocking⟩ fun hfail _ =>
        ⟨rfl, .inl ⟨_, hfail⟩⟩
  | tokio =>
      unfold ObjectWriter.flushSource
      cases hdeferred : source.deferred with
      | some err => exact Fallible.Safe.throw ⟨rfl, .inr ⟨rfl, err, hdeferred, rfl⟩⟩
      | none =>
          exact flush_safe hsource ⟨rfl, fun hwithholds => hwithholds.2 hdeferred⟩
            fun hfail _ => ⟨rfl, .inl ⟨_, hfail⟩⟩

/-- The replacement takes over the content, whatever handle the source is read through. -/
lemma copyContent_safe {flavor : Flavor} {source : ObjectWriter} {pos : ℕ}
    (h : Writing job w self temp []) (hdeferred : ¬ self.Withholds flavor)
    (hfile : w.files source.file = some ⟨source.file, pos, true⟩) (hne : self.file ≠ source.file)
    (hcontent : ((w.data source.file).drop source.layout.contentStart.toNat).take
      source.contentLength = content) :
    Method.Safe (FsStep mayFail) job.Allows (ObjectWriter.copyContent flavor source) self
      (fun _ self' w' => ¬ source.Withholds flavor ∧
        (flavor = .blocking → content ≠ [] → self.allowRawWrites = true) ∧
        self' = self.addLength content.length ∧
        Writing job w' self' temp content ∧ Above job.floor job.final w w' ∧ w'.dir = w.dir)
      (fun e self' w' => Unfinished job mayFail w self' w' ∧
        ((∃ c, mayFail c) ∨ source.HandsOut flavor e ∨
          content ≠ [] ∧ BytesRefused mayFail self [] content)) w := by
  have hsame : Unfinished job mayFail w self w := h.unfinished (Above.refl _ _ _) rfl
  unfold ObjectWriter.copyContent
  refine Method.Safe.bind (Method.Safe.lift (Fallible.Safe.mono (flushSource_safe ⟨_, hfile⟩) ?_
    ?_))
  swap
  · rintro e w' ⟨rfl, hreason⟩
    exact ⟨hsame, hreason.imp_right .inl⟩
  rintro _ w' ⟨rfl, hflushed⟩
  refine Method.Safe.bind (Method.Safe.lift (seek_safe (toNat_uint32_le _) hfile ⟨_, hfile⟩ ?_
    fun hfail _ => ⟨hsame, .inl ⟨_, hfail⟩⟩))
  have habove : Above job.floor job.final w' (w'.seekTo source.file _) :=
    Above.seekTo _ source.layout.contentStart.toNat
  refine Method.Safe.adapt (Method.Safe.mono (copyAs_safe (World.seekTo_files_self hfile)
    (Ne.symm hne) (h.seekTo hne _) hdeferred hcontent.symm) ?_ ?_)
  · rintro _ self' w' ⟨hraw, rfl, h', hbeside⟩
    exact ⟨hflushed, hraw, rfl, h', habove.trans (hbeside.above h.onlyTemp.floor_le _),
      hbeside.dir_eq⟩
  · rintro e self' w' ⟨⟨stored, h'⟩, hbeside, hreason⟩
    exact ⟨h'.unfinished (habove.trans (hbeside.above h.onlyTemp.floor_le _))
      (congrFun hbeside.dir_eq _), hreason.imp_right .inr⟩

/-- The layout that a rewrite asks for: both reserves are raised. -/
def LayoutOptions.raised (o : LayoutOptions) : LayoutOptions :=
  { o with
    metadataReserve := max o.metadataReserve defaultRewriteReserve
    tagReserve := max o.tagReserve defaultRewriteReserve }

/-- The options of the replacement that `finish_by_rewriting` creates. -/
def ObjectWriter.replacementOptions (self : ObjectWriter) : CreateOptions where
  metadata := self.metadata
  tags := self.tags
  layout := self.layoutOptions.raised
  compression := self.compression
  sync := self.sync

/-- The part of `finish_by_rewriting` behind the creation of the replacement. It finishes on its
fast path, since its layout was computed for the sections it has. -/
lemma replace_safe {flavor : Flavor} (n : ℕ) {replacement : ObjectWriter} {temp' : Path}
    {w₁ : World} (h : Writing job w self temp content) (hpub : MayPublish job flavor self content)
    (hcreated : Created self.replacementOptions replacement)
    (hlive : Writing (job.replacing w) w₁ replacement temp' [])
    (habove₁ : Above w.next job.final w w₁) (hfinal₁ : w₁.dir job.final = w.dir job.final)
    (hfile : w.next ≤ replacement.file) :
    Method.Safe (FsStep mayFail) (job.replacing w).Allows
      (do
        let ((), replacement) ←
          holding ObjectWriter.drop (ObjectWriter.copyContent flavor self) replacement
        ObjectWriter.finishWithin flavor n replacement : FsMethod ObjectWriter TuxObject)
      self.takeSections
      (fun object self' w' => self' = self.takeSections ∧
        Finished (job.replacing w) mayFail flavor w self content object w' ∧
        (flavor = .blocking → content ≠ [] → self.compression = .none) ∧
        replacement.layout.contentStart.toNat + content.length ≤ maxFileLength)
      (fun e self' w' => Unfinished job mayFail w self' w' ∧
        (content ≠ [] ∧ BytesRefused mayFail replacement [] content ∨
          FinishRefused mayFail self.metadata self.tags ∨ self.HandsOut flavor e)) w₁ := by
  have hlt : self.file < w.next := (w.files_lt h.file).1
  have hne : replacement.file ≠ self.file := Nat.ne_of_gt (Nat.lt_of_lt_of_le hlt hfile)
  obtain ⟨pos, hsource⟩ := habove₁.files hlt h.file
  have hcontent : ((w₁.data self.file).drop self.layout.contentStart.toNat).take
      self.contentLength = content := by
    rw [World.data, habove₁.inodes hlt]
    exact h.content_eq
  have hempty : ∀ writer : ObjectWriter, writer.deferred = replacement.deferred →
      ¬ writer.Withholds flavor :=
    fun _ heq hwithholds => hwithholds.2 (heq.trans hcreated.deferred_eq)
  refine Method.Safe.bind (Method.Safe.lift (Fallible.Safe.holding (Method.Safe.mono
    (copyContent_safe hlive (hempty _ rfl) hsource hne hcontent) ?_ ?_)))
  swap
  · rintro e replacement' w₂ ⟨hunfinished, hreason⟩
    refine Program.Safe.mono ?_ hunfinished.drop
    intro _ w₃ hfailed
    refine ⟨h.unfinished_of_failed ⟨habove₁.trans hfailed.above, ?_, hfailed.clean⟩, ?_⟩
    · exact hfinal₁ ▸ hfailed.final_eq
    · rcases hreason with hfail | hhands | hrefused
      · exact .inr (.inl (.inl hfail))
      · exact .inr (.inr hhands)
      · exact .inl hrefused
  rintro ⟨⟩ replacement' w₂ ⟨hflushed, hraw, rfl, hlive₂, habove₂, hdir₂⟩
  obtain ⟨layout, hrep⟩ := LayoutOptions.checkedRepartition_of_checkedCompute hcreated.layout_eq
  replace hrep : LayoutOptions.checkedRepartition replacement.layout.contentStart
      (size replacement.metadata) (size replacement.tags) replacement.layoutOptions.alignment =
      .ok (some layout) := by
    rw [hcreated.metadata_eq, hcreated.tags_eq, hcreated.layoutOptions_eq]
    exact hrep
  have hpub' : MayPublish (job.replacing w) flavor (replacement.addLength content.length)
      content := by
    intro _ layout counted inode hcounted himage hsync
    refine hpub hflushed layout counted inode (fun _ => hcounted ?_) ?_ ?_
    · rw [ObjectWriter.addLength_contentLength, hcreated.contentLength_eq, Nat.zero_add]
    · simpa [hcreated.compression_eq, hcreated.metadata_eq, hcreated.tags_eq,
        ObjectWriter.replacementOptions] using himage
    · simpa [hcreated.sync_eq, ObjectWriter.replacementOptions] using hsync
  show Method.Safe _ _ (liftM (ObjectWriter.finishWithin flavor n _)) _ _ _ _
  refine Method.Safe.lift (Fallible.Safe.mono (finishFast_safe n hlive₂ hrep hpub') ?_ ?_)
  · rintro object w₃ ⟨_, habove₃, hclean, hpublished⟩
    refine ⟨rfl, ⟨habove₁.trans (habove₂.trans habove₃), fun _ => hclean, hflushed, layout,
      content.length, fun _ => rfl, ?_⟩, ?_, hlive₂.end_le⟩
    · simpa [hcreated.compression_eq, hcreated.metadata_eq, hcreated.tags_eq,
        hcreated.contentLength_eq, ObjectWriter.replacementOptions] using hpublished
    · intro hblocking hne
      have := hraw hblocking hne
      rwa [hcreated.allowRawWrites_eq, CompressionTypes.isNone_iff] at this
  · rintro e w₃ ⟨hfailed, hreason⟩
    refine ⟨h.unfinished_of_failed ⟨habove₁.trans (habove₂.trans hfailed.above), ?_,
      hfailed.clean⟩, .inr (.inl ?_)⟩
    · have hfinal₂ : w₂.dir job.final = w.dir job.final := (congrFun hdir₂ _).trans hfinal₁
      exact hfinal₂ ▸ hfailed.final_eq
    · replace hreason := hreason.resolve_right fun hhands => hempty _ rfl hhands.withholds
      simpa [hcreated.metadata_eq, hcreated.tags_eq, ObjectWriter.replacementOptions] using hreason

/-- `finish_by_rewriting` publishes the content behind a new prefix. -/
lemma finishByRewriting_safe {flavor : Flavor} (n : ℕ) (h : Writing job w self temp content)
    (hpub : MayPublish job flavor self content) :
    Method.Safe (FsStep mayFail) job.Allows
      (ObjectWriter.finishByRewriting flavor (ObjectWriter.finishWithin flavor n)) self
      (fun object self' w' => self' = self.takeSections ∧
        Finished (job.replacing w) mayFail flavor w self content object w')
      (fun _ self' w' => Unfinished job mayFail w self' w') w := by
  unfold ObjectWriter.finishByRewriting
  refine Method.Safe.bind (Method.Safe.get (Method.Safe.bind (Method.Safe.modify ?_)))
  refine Method.Safe.allow (Job.replacing_allows h.floor_le_next) ?_
  refine Method.Safe.bind (Method.Safe.lift (Fallible.Safe.mono
    (createAs_safe h.finalPath_eq (Nat.le_refl _) (Clean.of_next_le (Nat.le_refl _))) ?_ ?_))
  swap
  · exact fun e w₁ hfailed => h.unfinished_of_failed hfailed.1
  rintro replacement w₁ ⟨hcreated, ⟨temp', hlive⟩, habove₁, hfinal₁, hfile, _⟩
  refine Method.Safe.mono (replace_safe n h hpub hcreated hlive habove₁ hfinal₁ hfile) ?_ ?_
  · exact fun _ _ _ hfinished => ⟨hfinished.1, hfinished.2.1⟩
  · exact fun _ _ _ hunfinished => hunfinished.1

/-- A published object stays published when the destructor runs on what is left. -/
lemma Published.of_dropped {w' : World} {object : TuxObject} {compression : CompressionTypes}
    {layout : SectionLayout} {metadata : MetadataMap} {tags : Tags String} {counted : ℕ}
    (h : Published (job.replacing w₀) w object compression layout metadata tags counted content)
    (hfloor : job.floor ≤ w₀.next) (hdrop : Dropped job mayFail w w') :
    Published job w' object compression layout metadata tags counted content where
  path_eq := h.path_eq
  header_eq := h.header_eq
  metadata_eq := h.metadata_eq
  writable_eq := h.writable_eq
  floor_le := Nat.le_trans hfloor h.floor_le
  entry := hdrop.final_eq.trans h.entry
  file := hdrop.files_eq ▸ h.file
  image := by
    rw [World.data, hdrop.inodes_eq]
    exact h.image

/-- `finish`, on either path. -/
lemma finishWithin_safe {flavor : Flavor} (n : ℕ) (h : Writing job w self temp content)
    (hpub : MayPublish job flavor self content) :
    Fallible.Safe (FsStep mayFail) job.Allows (ObjectWriter.finishWithin flavor (n + 1) self)
      (fun object w' => Finished job mayFail flavor w self content object w')
      (fun _ w' => Failed job mayFail w w') w := by
  rcases hrep : LayoutOptions.checkedRepartition self.layout.contentStart (size self.metadata)
      (size self.tags) self.layoutOptions.alignment with panic | _ | layout
  · unfold ObjectWriter.finishWithin
    rw [hrep]
    exact Fallible.Safe.consume
      (Method.Safe.throw (h.unfinished (Above.refl _ _ _) rfl).drop)
  · unfold ObjectWriter.finishWithin
    rw [hrep]
    refine Fallible.Safe.consume (Method.Safe.mono (finishByRewriting_safe n h hpub) ?_ ?_)
    · -- the file that was replaced still has its temporary path
      rintro object self' w' ⟨rfl, hfinished⟩
      refine Program.Safe.mono ?_ (drop_safe h.tempPath_eq
        (h.onlyTemp.toHasTemp.outlives hfinished.above)
        fun htidy => h.onlyTemp.outlives hfinished.above (hfinished.clean htidy))
      intro _ w'' hdrop
      obtain ⟨layout, counted, hcounted, hpublished⟩ := hfinished.published
      exact ⟨(hfinished.above.mono h.floor_le_next).trans hdrop.above, hdrop.clean,
        hfinished.flushed, layout, counted, hcounted,
        hpublished.of_dropped h.floor_le_next hdrop⟩
    · exact fun e self' w' hunfinished => hunfinished.drop
  · apply Fallible.Safe.mono (finishFast_safe (n + 1) h hrep hpub)
    · rintro object w' ⟨hflushed, habove, hclean, hpublished⟩
      exact ⟨habove, fun _ => hclean, hflushed, layout, _, id, hpublished⟩
    · exact fun _ _ h => h.1

lemma finishAs_safe {flavor : Flavor} (h : Writing job w self temp content)
    (hpub : MayPublish job flavor self content) :
    Fallible.Safe (FsStep mayFail) job.Allows (ObjectWriter.finishAs flavor self)
      (fun object w' => Finished job mayFail flavor w self content object w')
      (fun _ w' => Failed job mayFail w w') w := finishWithin_safe 0 h hpub

/-! ## Aborting -/

/-- `abort` removes the temporary file and touches nothing else. -/
lemma abort_safe (h : Writing job w self temp content) :
    Fallible.Safe (FsStep mayFail) job.Allows self.abort (fun _ w' => Failed job mayFail w w')
      (fun _ w' => Failed job mayFail w w') w := by
  have hhas := h.onlyTemp.toHasTemp
  have hleft : ∀ w', Failed job mayFail w w' →
      Program.Safe (FsStep mayFail) job.Allows self.takeTempPath.drop
        (fun _ w'' => Failed job mayFail w w'') w' := fun _ hfailed => hfailed
  have hgone : Failed job mayFail w (w.unlink temp) :=
    ⟨Above.unlink hhas.entry hhas.floor_le, .inl (World.unlink_dir_of_ne (Ne.symm hhas.temp_ne)),
      fun _ => h.onlyTemp.clean_unlink⟩
  have hkept : mayFail (.removeFile temp) → Failed job mayFail w w := fun hfail =>
    ⟨Above.refl _ _ _, .inl rfl, fun htidy => absurd hfail (htidy.2 temp)⟩
  refine Fallible.Safe.consume ?_
  unfold ObjectWriter.removeTemp
  refine Method.Safe.bind (Method.Safe.get ?_)
  rw [h.tempPath_eq]
  refine Method.Safe.bind (Method.Safe.modify (Method.Safe.bind (Method.Safe.liftProgram
    (removeFile_safe hhas (Method.Safe.pure (hleft _ hgone)) fun hfail e => ?_))))
  dsimp only
  split_ifs
  · exact Method.Safe.pure (hleft _ (hkept hfail))
  · exact Method.Safe.throw (hleft _ (hkept hfail))

end TuxEncoding
