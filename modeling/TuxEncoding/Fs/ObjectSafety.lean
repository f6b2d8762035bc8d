import TuxEncoding.Fs.FinishSafety
import TuxEncoding.Fs.Reading

/-!
# What handles know, and what updates do

* `Record` is the abstract object: two maps and a content. `HandleOf` says that a handle is open on
  a file that stores a record and knows its header and its metadata.
* `openAs_safe`, `readTags_safe`, `findTag_safe`, …: what a handle returns is what the record holds,
  and `Shows` says so in one statement.
* `replacement_safe`: a rewrite publishes the new sections with the old content, under the contract
  of a writer; a failed one leaves the published file alone unless the clone of the new handle
  fails.
* `setSectionsInPlace_rule`: an update in place is refused before it makes a call, or writes a
  prefix. `setSectionsInPlace_safe`: it changes the sections of the file under the handle.
-/

namespace TuxEncoding

open Bytes Interaction Program

set_option linter.unusedSectionVars false

variable [Platform] [Codecs]

/-! ## Records -/

/-- What an object holds. -/
structure Record where
  compression : CompressionTypes
  metadata : MetadataMap
  tags : Tags String
  content : List UInt8

/-- The file `data` is an object with this header that holds the record; how its maps are arranged
does not matter. -/
def Record.StoredIn (record : Record) (header : ObjectHeader) (data : List UInt8) : Prop :=
  ∃ layout metadata tags, IsImage record.compression layout metadata tags record.content data ∧
    metadata.Equal record.metadata ∧ tags.Equal record.tags ∧
    header = headerOf record.compression layout record.content.length

/-- The handle is open on the file `i`, which holds the record, and knows its header and its
metadata. -/
structure HandleOf (w : World) (object : TuxObject) (i : ℕ) (record : Record) : Prop where
  file : OpenOn w object i
  stored : record.StoredIn object.header (w.data i)
  metadata_equal : object.metadata.Equal record.metadata

variable {mayFail : FsCall → Prop} {w w' : World} {object : TuxObject} {i : ℕ} {record : Record}

/-- A handle goes on being one while nothing is written. -/
lemma HandleOf.of_undisturbed (h : HandleOf w object i record) (hsame : Undisturbed w w') :
    HandleOf w' object i record := by
  refine ⟨h.file.of_undisturbed hsame, ?_, h.metadata_equal⟩
  rw [World.data, hsame.inodes_eq]
  exact h.stored

/-- A published object is a handle of what was published. -/
lemma Published.handleOf {job : Job} {compression : CompressionTypes} {layout : SectionLayout}
    {metadata : MetadataMap} {tags : Tags String} {content : List UInt8}
    (h : Published job w object compression layout metadata tags content.length content) :
    HandleOf w object object.file ⟨compression, metadata, tags, content⟩ where
  file := by
    obtain ⟨pos, hfile⟩ := h.file
    exact ⟨pos, h.writable_eq ▸ hfile⟩
  stored := ⟨layout, metadata, tags, h.image, Tags.Equal.refl _, Tags.Equal.refl _, h.header_eq⟩
  metadata_equal := h.metadata_eq ▸ Tags.Equal.refl _

/-! ## Sections -/

/-- Whatever a decoder yields from the encoding it yields from the padded section. -/
lemma decodeSection_padded {α : Type} {dec : Decoder α} {bs : List UInt8} {a : α}
    (h : Yields dec bs a) (space : ℕ) : decodeSection dec (padded bs space) = .ok a := by
  obtain ⟨pos, hdec⟩ := h [] (List.replicate (space - bs.length) 0)
  have hread : dec ⟨padded bs space, 0⟩ = .ok (a, ⟨padded bs space, pos⟩) := hdec
  rw [decodeSection, hread]

namespace IsImage

variable {compression : CompressionTypes} {layout : SectionLayout} {metadata : MetadataMap}
  {tags : Tags String} {content data : List UInt8}

/-- Both sections have room for at least an empty map. -/
lemma spaces_pos (h : IsImage compression layout metadata tags content data) :
    layout.metadataSpace ≠ 0 ∧ 2 ≤ layout.tagsSpace := by
  have hspace := (SectionLayout.holds_iff h.headerSize_le h.tagsStart_le).mp h.holds
  have hm : 2 ≤ size metadata := Nat.le_add_left _ _
  have ht : 2 ≤ size tags := Nat.le_add_left _ _
  omega

/-- The sections lie within the file. -/
lemma sections_le (h : IsImage compression layout metadata tags content data) :
    headerSize + layout.metadataSpace ≤ data.length ∧
      layout.tagsStart.toNat + layout.tagsSpace ≤ data.length := by
  have := h.length_eq
  have := h.headerSize_le
  have := h.tagsStart_le
  unfold SectionLayout.metadataSpace SectionLayout.tagsSpace
  omega

end IsImage

/-! ## Opening -/

section prefixes

variable {header : ObjectHeader} {layout : SectionLayout} {metadata : MetadataMap}
  {tags : Tags String}

/-- A file opens with the header and the metadata of its prefix. -/
lemma readPrefix_prefixBytes (hversion : header.version = currentVersion)
    (hstart : header.tagsStart = layout.tagsStart) (hm : metadata.Fits) (ht : tags.Fits)
    (hholds : layout.Holds (size metadata) (size tags)) (rest : List UInt8) :
    readPrefix (prefixBytes header metadata tags layout ++ rest) =
      .ok (header, metadata.decoded) := by
  have hlength := length_prefixBytes header hm ht hholds
  obtain ⟨hmeta, htags⟩ := id hholds
  have hsize : 2 ≤ size metadata := Nat.le_add_left _ _
  have hspace : header.tagsStart.toNat - headerSize = layout.metadataSpace := by rw [hstart]; rfl
  have hpos : layout.metadataSpace ≠ 0 := by
    unfold SectionLayout.metadataSpace
    omega
  have hheader : ObjectHeader.readFromBytes header.wire = .ok header := by
    rw [← List.append_nil header.wire]
    exact ObjectHeader.readFromBytes_wire header hversion []
  have hdecode := decodeSection_padded (Tags.readsAs_wire hm).yields layout.metadataSpace
  have hfile : headerSize + layout.metadataSpace ≤
      (prefixBytes header metadata tags layout ++ rest).length := by
    rw [List.length_append, hlength]
    unfold SectionLayout.metadataSpace
    omega
  unfold readPrefix
  rw [readSlice_of_le (by omega), List.drop_zero, ok_bind, take_headerSize_prefixBytes, hheader]
  simp only [Except.mapError, ok_bind, hspace, if_neg hpos, readSlice_of_le hfile,
    metadataSection_prefixBytes header hm ht hholds rest, hdecode]
  rfl

/-- A handle finds the tags of the prefix. -/
lemma storedTags_prefixBytes {object : TuxObject} (hlayout : object.layout = layout)
    (hm : metadata.Fits) (ht : tags.Fits) (hholds : layout.Holds (size metadata) (size tags))
    (rest : List UInt8) :
    object.storedTags (prefixBytes header metadata tags layout ++ rest) = .ok tags.decoded := by
  have hlength := length_prefixBytes header hm ht hholds
  obtain ⟨hmeta, htags⟩ := id hholds
  have hsize : 2 ≤ size tags := Nat.le_add_left _ _
  have hle : layout.tagsStart.toNat ≤ layout.contentStart.toNat := by omega
  have hpos : layout.tagsSpace ≠ 0 := by
    unfold SectionLayout.tagsSpace
    omega
  have hfile : layout.tagsStart.toNat + layout.tagsSpace ≤
      (prefixBytes header metadata tags layout ++ rest).length := by
    rw [List.length_append, hlength]
    unfold SectionLayout.tagsSpace
    omega
  have hstart : object.header.tagsStart = layout.tagsStart :=
    congrArg SectionLayout.tagsStart hlayout
  unfold TuxObject.storedTags
  rw [hlayout, SectionLayout.checkedTagsSpace_of_le hle, ok_bind, if_neg hpos, hstart,
    readSlice_of_le hfile, tagSection_prefixBytes header hm ht hholds rest, ok_bind,
    decodeSection_padded (Tags.readsAs_wire ht).yields]

end prefixes

/-- An object opens with its header and its metadata. -/
lemma Record.StoredIn.readPrefix_eq {header : ObjectHeader} {data : List UInt8}
    (h : record.StoredIn header data) :
    ∃ metadata, readPrefix data = .ok (header, metadata) ∧ metadata.Equal record.metadata := by
  obtain ⟨layout, metadata, tags, himage, hmetadata, _, rfl⟩ := h
  refine ⟨metadata.decoded, ?_, (Tags.decoded_equal _).trans hmetadata⟩
  rw [himage.data_eq]
  exact readPrefix_prefixBytes rfl rfl himage.metadata_fits himage.tags_fits himage.holds _

/-- A handle that knows the header finds the tags of the object. -/
lemma Record.StoredIn.storedTags_eq {data : List UInt8} (h : record.StoredIn object.header data) :
    ∃ tags, object.storedTags data = .ok tags ∧ tags.Equal record.tags := by
  obtain ⟨layout, metadata, tags, himage, _, htags, hheader⟩ := h
  have hlayout : object.layout = layout := by rw [TuxObject.layout, hheader]; rfl
  refine ⟨tags.decoded, ?_, (Tags.decoded_equal _).trans htags⟩
  rw [himage.data_eq]
  exact storedTags_prefixBytes hlayout himage.metadata_fits himage.tags_fits himage.holds _

/-- Opening a path that leads to an object. -/
lemma openAs_safe {path : Path} {writable : Bool} {header : ObjectHeader}
    (hdir : w.dir path = some i) (hstored : record.StoredIn header (w.data i)) :
    Fallible.Safe (FsStep mayFail) (fun _ _ => True)
      (attemptIo (sys (.openFile path writable)) >>= fun fd => TuxObject.fromFile fd path writable)
      (fun object w' => object.path = path ∧ object.writable = writable ∧
        HandleOf w' object i record ∧ Undisturbed w w')
      (fun e w' => Undisturbed w w' ∧ IsFault mayFail e) w := by
  obtain ⟨metadata, hsections, hequal⟩ := hstored.readPrefix_eq
  apply Fallible.Safe.mono openAs_returns
  · rintro object w' ⟨hpath, hwritable, j, hj, hopen, hread, hsame⟩
    obtain rfl := Option.some.inj (hdir.symm.trans hj)
    obtain ⟨rfl, rfl⟩ := Prod.mk.inj (Except.ok.inj (hsections.symm.trans hread))
    exact ⟨hpath, hwritable, ⟨hopen, (hsame.data_eq i).symm ▸ hstored, hequal⟩, hsame⟩
  · rintro e w' ⟨hsame, hfail | hread⟩
    · exact ⟨hsame, hfail⟩
    · nomatch hsections.symm.trans (hread i hdir)

/-! ## Reading -/

/-- The tag section as a handle finds it in its file. -/
structure TagSection (object : TuxObject) (data : List UInt8) (tags : Tags String) : Prop where
  fits : tags.Fits
  checked : object.layout.checkedTagsSpace = .ok object.layout.tagsSpace
  space : 2 ≤ object.layout.tagsSpace
  le : object.header.tagsStart.toNat + object.layout.tagsSpace ≤ data.length
  section_eq : (data.drop object.header.tagsStart.toNat).take object.layout.tagsSpace =
    padded tags.wire object.layout.tagsSpace

namespace HandleOf

lemma tagSection (h : HandleOf w object i record) :
    ∃ tags, TagSection object (w.data i) tags ∧ tags.Equal record.tags := by
  obtain ⟨layout, metadata, tags, himage, _, htags, hheader⟩ := h.stored
  have hlayout : object.layout = layout := by rw [TuxObject.layout, hheader]; rfl
  have htagsStart : object.header.tagsStart = layout.tagsStart := by rw [hheader]; rfl
  refine ⟨tags, ⟨himage.tags_fits, ?_, ?_, ?_, ?_⟩, htags⟩
  · rw [hlayout]
    exact SectionLayout.checkedTagsSpace_of_le himage.tagsStart_le
  · rw [hlayout]
    exact himage.spaces_pos.2
  · rw [hlayout, htagsStart]
    exact himage.sections_le.2
  · rw [hlayout, htagsStart]
    exact himage.tagSection

/-- The stored tags are those of the record. -/
lemma storedTags_eq (h : HandleOf w object i record) :
    ∃ tags, object.storedTags (w.data i) = .ok tags ∧ tags.Equal record.tags :=
  h.stored.storedTags_eq

/-- The value that is stored under a key is the one of the record. -/
lemma storedTag_eq (h : HandleOf w object i record) (key : String) :
    object.storedTag key (w.data i) = .ok (record.tags.get key) := by
  obtain ⟨tags, hsection, htags⟩ := h.tagSection
  have hspace := hsection.space
  unfold TuxObject.storedTag
  rw [hsection.checked, ok_bind, if_neg (by omega), readSlice_of_le hsection.le,
    hsection.section_eq, ok_bind,
    decodeSection_padded (Tags.yields_findFromReader hsection.fits key), htags key]

/-- The stored number of tags is that of the record. -/
lemma storedTagCount_eq (h : HandleOf w object i record) :
    ∃ n, object.storedTagCount (w.data i) = .ok n ∧ n.toNat = record.tags.numberOfTags := by
  obtain ⟨tags, hsection, htags⟩ := h.tagSection
  have hspace := hsection.space
  have hle := hsection.le
  have htwo : ((w.data i).drop object.header.tagsStart.toNat).take 2 =
      leBytes 2 tags.numberOfTags := by
    have htake := congrArg (List.take 2) hsection.section_eq
    rw [List.take_take, Nat.min_eq_left hspace] at htake
    rw [htake, padded, Tags.wire, List.append_assoc]
    exact List.take_left' (length_leBytes _ _)
  refine ⟨UInt16.ofNat (ofLeBytes (leBytes 2 tags.numberOfTags)), ?_, ?_⟩
  · unfold TuxObject.storedTagCount
    rw [hsection.checked, ok_bind, if_neg (by omega), readSlice_of_le (by omega), htwo]
    rfl
  · have hlt : tags.numberOfTags < 2 ^ 16 := Nat.lt_succ_of_le hsection.fits.1
    rw [ofLeBytes_leBytes_of_lt hlt, UInt16.toNat_ofNat', Nat.mod_eq_of_lt hlt, htags.numberOfTags]

/-- The stored content is that of the record. -/
lemma storedContent_eq (h : HandleOf w object i record) :
    object.storedContent (w.data i) = record.content := by
  obtain ⟨layout, metadata, tags, himage, _, _, hheader⟩ := h.stored
  have hstart : object.header.contentStart = layout.contentStart := by rw [hheader]; rfl
  have hlength : object.header.contentLength.toNat = record.content.length := by
    rw [hheader]
    exact himage.contentLength_toNat
  rw [TuxObject.storedContent, hstart, hlength, himage.drop_contentStart, List.take_length]

lemma compressionType_eq (h : HandleOf w object i record) :
    object.header.compressionType = record.compression := by
  obtain ⟨_, _, _, _, _, _, hheader⟩ := h.stored
  rw [hheader]
  rfl

/-- The content of an uncompressed record is read as it is stored. -/
lemma storedVec_eq (h : HandleOf w object i record) (hnone : record.compression = .none) :
    object.storedVec (w.data i) = .ok record.content := by
  obtain ⟨_, _, _, himage, _, _, hheader⟩ := h.stored
  have hlength : object.header.contentLength.toNat ≤ isizeMax := by
    rw [hheader, himage.contentLength_toNat]
    exact Nat.le_pred_of_lt himage.length_lt
  unfold TuxObject.storedVec TuxObject.storedVecWith
  rw [withCapacity_of_le hlength hlength, h.compressionType_eq, hnone, ok_bind, h.storedContent_eq]
  rfl

/-- `read_tags` returns the tags of the record. -/
lemma readTags_safe (h : HandleOf w object i record) :
    Fallible.Safe (FsStep mayFail) Reads object.readTags
      (fun tags w' => tags.Equal record.tags ∧ Undisturbed w w')
      (fun e w' => Undisturbed w w' ∧ IsFault mayFail e) w := by
  obtain ⟨tags, hstored, hequal⟩ := h.storedTags_eq
  apply Fallible.Safe.mono (h.file.readTags_returns.reads hstored)
  · rintro _ w' ⟨rfl, hsame⟩
    exact ⟨hequal, hsame⟩
  · exact fun _ _ hfail => hfail

/-- `find_tag` returns what the tags of the record hold under the key. -/
lemma findTag_safe (h : HandleOf w object i record) (key : String) :
    Fallible.Safe (FsStep mayFail) Reads (object.findTag key)
      (fun value w' => value = record.tags.get key ∧ Undisturbed w w')
      (fun e w' => Undisturbed w w' ∧ IsFault mayFail e) w :=
  (h.file.findTag_returns key).reads (h.storedTag_eq key)

/-- `tag_count` returns the number of tags of the record. -/
lemma tagCount_safe (h : HandleOf w object i record) :
    Fallible.Safe (FsStep mayFail) Reads object.tagCount
      (fun n w' => n.toNat = record.tags.numberOfTags ∧ Undisturbed w w')
      (fun e w' => Undisturbed w w' ∧ IsFault mayFail e) w := by
  obtain ⟨n, hstored, hn⟩ := h.storedTagCount_eq
  apply Fallible.Safe.mono (h.file.tagCount_returns.reads hstored)
  · rintro _ w' ⟨rfl, hsame⟩
    exact ⟨hn, hsame⟩
  · exact fun _ _ hfail => hfail

/-- `read_content_to_vec` returns the content of an uncompressed record. -/
lemma readContentToVec_safe (h : HandleOf w object i record) (hnone : record.compression = .none) :
    Fallible.Safe (FsStep mayFail) Reads object.readContentToVec
      (fun bs w' => bs = record.content ∧ Undisturbed w w')
      (fun e w' => Undisturbed w w' ∧ IsFault mayFail e) w :=
  h.file.readContentToVec_returns.reads (h.storedVec_eq hnone)

end HandleOf

/-- The handle returns exactly what the record holds, and goes on doing so. -/
structure Shows (w : World) (object : TuxObject) (record : Record) : Prop where
  metadata : object.metadata.Equal record.metadata
  readTags : Fallible.Delivers (FsStep NoFaults) object.readTags
    (fun tags w' => tags.Equal record.tags ∧ Undisturbed w w') w
  findTag : ∀ key, Fallible.Delivers (FsStep NoFaults) (object.findTag key)
    (fun value w' => value = record.tags.get key ∧ Undisturbed w w') w
  tagCount : Fallible.Delivers (FsStep NoFaults) object.tagCount
    (fun n w' => n.toNat = record.tags.numberOfTags ∧ Undisturbed w w') w
  readContentToVec : Fallible.Delivers (FsStep NoFaults) object.readContentToVec
    (fun bs w' => bs = record.content ∧ Undisturbed w w') w

/-- A handle of an uncompressed record shows it. -/
lemma HandleOf.shows (h : HandleOf w object i record) (hnone : record.compression = .none) :
    Shows w object record := by
  have hno : ∀ (e : ObjectFileError) w', ¬ (Undisturbed w w' ∧ IsFault NoFaults e) :=
    fun _ _ h => not_isFault_noFaults h.2
  constructor
  · exact h.metadata_equal
  · exact h.readTags_safe.delivers hno
  · intro key
    exact (h.findTag_safe key).delivers hno
  · exact h.tagCount_safe.delivers hno
  · exact (h.readContentToVec_safe hnone).delivers hno

/-! ## Rewriting -/

/-- A handle that is not new goes on being one while a writer works. -/
lemma HandleOf.of_above {n : ℕ} {final : Path} (h : HandleOf w object i record)
    (habove : Above n final w w') (hn : w.next ≤ n) : HandleOf w' object i record := by
  refine ⟨h.file.of_above habove hn, ?_, h.metadata_equal⟩
  rw [World.data, habove.inodes (Nat.lt_of_lt_of_le h.file.lt_next hn)]
  exact h.stored

/-- What an update makes of an object: new sections with the content that is stored. -/
@[simps] def TuxObject.updated (self : TuxObject) (data : List UInt8) (metadata : MetadataMap)
    (tags : Tags String) : Record where
  compression := self.header.compressionType
  metadata := metadata
  tags := tags
  content := self.storedContent data

/-- What an update publishes: an object that holds the record, synced. -/
def Record.Publishes (record : Record) (inode : Inode) : Prop :=
  (∃ layout, IsImage record.compression layout record.metadata record.tags record.content
    inode.data) ∧ inode.synced = true

/-- Why an update may fail. -/
def UpdateRefused (mayFail : FsCall → Prop) (object : TuxObject) (metadata : MetadataMap)
    (tags : Tags String) (content : List UInt8) (w : World) : Prop :=
  CreateRefused mayFail .blocking object.path (object.rewriteOptions metadata tags) w ∨
    content ≠ [] ∨ FinishRefused mayFail metadata tags

/-- What a rewrite of `old` leaves: the record is published, where the layout computed for it puts
its content. -/
structure Replaced (job : Job) (w₀ : World) (old : TuxObject) (record : Record)
    (object : TuxObject) (w : World) : Prop where
  above : Above job.floor job.final w₀ w
  clean : Clean job w
  published : ∃ layout, Published job w object record.compression layout record.metadata
    record.tags record.content.length record.content
  computed : ∃ layout, (old.rewriteOptions record.metadata record.tags).layout.compute
    (size record.metadata) (size record.tags) = .ok layout ∧
    object.header.contentStart = layout.contentStart
  uncompressed : record.content ≠ [] → record.compression = .none

/-- The copy of `rewrite` takes over the stored content, unless the writer rejects it. -/
lemma copyStored_safe {job : Job} {writer : ObjectWriter} {temp : Path} {content : List UInt8}
    (h : OpenOn w object i) (hinode : i ≠ writer.file)
    (hcontent : object.storedContent (w.data i) = content) (hlive : Writing job w writer temp []) :
    Method.Safe (FsStep mayFail) job.Allows object.copyStored writer
      (fun _ writer' w' => (content ≠ [] → writer.allowRawWrites = true) ∧
        writer' = writer.addLength content.length ∧
        Writing job w' writer' temp content ∧ Above job.floor job.final w w' ∧
        w'.dir = w.dir)
      (fun _ writer' w' => Unfinished job mayFail w writer' w' ∧
        ((∃ c, mayFail c) ∨ content ≠ [])) w := by
  unfold TuxObject.copyStored
  refine Method.Safe.bind (Method.Safe.lift (Fallible.Safe.mono (Fallible.Safe.allow
    (fun _ _ => Reads.allows) h.storedContentReader_safe) ?_ ?_))
  swap
  · rintro e w' ⟨rfl, hfail⟩
    exact ⟨hlive.unfinished (Above.refl _ _ _) rfl, .inl hfail.exists⟩
  rintro reader _ ⟨hreader, f, rfl, rfl, hfile, hslice⟩
  rw [hcontent] at hslice
  have hseek : Above job.floor job.final w (w.seekTo object.file f.pos) := Above.seekTo _ _
  have hne : writer.file ≠ object.file := by
    intro heq
    obtain ⟨pos, hfile'⟩ := h
    have hwriter := hlive.file
    rw [heq, hfile'] at hwriter
    exact hinode ((congrArg OpenFile.inode (Option.some.inj hwriter)).trans heq.symm)
  have hfile' : (w.seekTo object.file f.pos).files reader.file = some f := by
    rw [hreader]
    exact hfile
  refine Method.Safe.adapt (Method.Safe.mono
    (copyAs_safe hfile' hinode (hlive.seekTo hne _) writer.not_withholds_blocking hslice) ?_ ?_)
  · rintro _ writer' w' ⟨hraw, rfl, hlive', hbeside⟩
    exact ⟨hraw rfl, rfl, hlive', hseek.trans (hbeside.above hlive.onlyTemp.floor_le _),
      hbeside.dir_eq⟩
  · rintro e writer' w' ⟨⟨stored, hlive'⟩, hbeside, hreason⟩
    exact ⟨hlive'.unfinished (hseek.trans (hbeside.above hlive.onlyTemp.floor_le _))
      (congrFun hbeside.dir_eq _), hreason.imp_right And.left⟩

/-- A rewrite publishes the new sections with the old content, or fails and keeps its contract. -/
lemma replacement_safe {metadata : MetadataMap} {tags : Tags String} (h : OpenOn w object i)
    (hwritable : object.writable = true) (publishes : Inode → Prop)
    (hpub : ∀ inode, (object.updated (w.data i) metadata tags).Publishes inode →
      publishes inode) :
    Fallible.Safe (FsStep mayFail) (Job.startedIn w object.path publishes).Allows
      (object.replacement metadata tags)
      (fun new w' => Replaced (Job.startedIn w object.path publishes) w object
        (object.updated (w.data i) metadata tags) new w')
      (fun _ w' => Failed (Job.startedIn w object.path publishes) mayFail w w' ∧
        UpdateRefused mayFail object metadata tags (object.storedContent (w.data i)) w) w := by
  unfold TuxObject.replacement
  rw [TuxObject.ensureWritable, if_pos hwritable]
  refine Fallible.Safe.bind (Fallible.Safe.ofExcept ?_)
  refine Fallible.Safe.bind (Fallible.Safe.mono
    (createAs_safe rfl (Nat.le_refl _) (Clean.of_next_le (Nat.le_refl _))) ?_ ?_)
  swap
  · exact fun e w₁ hfailed => ⟨hfailed.1, .inl hfailed.2⟩
  rintro writer w₁ ⟨hcreated, ⟨temp, hlive⟩, habove₁, hfinal₁, hfile, _⟩
  have hinode : i ≠ writer.file := Nat.ne_of_lt (Nat.lt_of_lt_of_le h.lt_next hfile)
  have hdata : w₁.data i = w.data i := congrArg Inode.data (habove₁.inodes h.lt_next)
  have hfailed : ∀ w', Failed (Job.startedIn w object.path publishes) mayFail w₁ w' →
      Failed (Job.startedIn w object.path publishes) mayFail w w' := fun w' hf =>
    ⟨habove₁.trans hf.above, hfinal₁ ▸ hf.final_eq, hf.clean⟩
  refine Fallible.Safe.bind (Fallible.Safe.holding (Method.Safe.mono
    (copyStored_safe (h.of_above habove₁ (Nat.le_refl _)) hinode
      (congrArg object.storedContent hdata) hlive) ?_ ?_))
  swap
  · rintro e writer' w₂ ⟨hunfinished, hreason⟩
    refine Program.Safe.mono ?_ hunfinished.drop
    exact fun _ w₃ hf => ⟨hfailed w₃ hf, .inr (hreason.symm.imp_right .inl)⟩
  rintro ⟨⟩ writer' w₂ ⟨hraw, rfl, hlive₂, habove₂, hdir₂⟩
  obtain ⟨layout, hrep⟩ := LayoutOptions.checkedRepartition_of_checkedCompute hcreated.layout_eq
  have hstart := (LayoutOptions.checkedRepartition_holds hrep).1
  replace hrep : LayoutOptions.checkedRepartition writer.layout.contentStart (size writer.metadata)
      (size writer.tags) writer.layoutOptions.alignment = .ok (some layout) := by
    rw [hcreated.metadata_eq, hcreated.tags_eq, hcreated.layoutOptions_eq]
    exact hrep
  have hcount : (writer.addLength (object.storedContent (w.data i)).length).contentLength =
      (object.storedContent (w.data i)).length := by
    rw [ObjectWriter.addLength_contentLength, hcreated.contentLength_eq, Nat.zero_add]
  have hpub' : MayPublish (Job.startedIn w object.path publishes) .blocking
      (writer.addLength (object.storedContent (w.data i)).length)
      (object.storedContent (w.data i)) := by
    intro _ layout counted inode hcounted himage hsync
    obtain rfl := hcounted hcount
    refine hpub inode ⟨⟨layout, ?_⟩, hsync hcreated.sync_eq⟩
    simpa [hcreated.compression_eq, hcreated.metadata_eq, hcreated.tags_eq,
      TuxObject.rewriteOptions] using himage
  show Fallible.Safe _ _ (ObjectWriter.finishWithin .blocking 1 _) _ _ _
  refine Fallible.Safe.mono (finishFast_safe 1 hlive₂ hrep hpub') ?_ ?_
  · rintro new w₃ ⟨_, habove₃, hclean, hpublished⟩
    rw [hcount] at hpublished
    refine ⟨habove₁.trans (habove₂.trans habove₃), hclean, ?_, ?_, ?_⟩
    · refine ⟨layout, ?_⟩
      simpa [hcreated.compression_eq, hcreated.metadata_eq, hcreated.tags_eq,
        TuxObject.rewriteOptions] using hpublished
    · refine ⟨writer.layout, LayoutOptions.compute_of_checked hcreated.layout_eq, ?_⟩
      rw [hpublished.header_eq]
      exact hstart
    · intro hcontent
      have := hraw hcontent
      rwa [hcreated.allowRawWrites_eq, CompressionTypes.isNone_iff] at this
  · rintro e w₃ ⟨hf, hreason⟩
    refine ⟨hfailed w₃ ⟨habove₂.trans hf.above, ?_, hf.clean⟩, .inr (.inr ?_)⟩
    · rw [← congrFun hdir₂ (Job.startedIn w object.path publishes).final]
      exact hf.final_eq
    · replace hreason := hreason.resolve_right fun hhands =>
        ObjectWriter.not_withholds_blocking _ hhands.withholds
      simpa [FinishRefused, hcreated.metadata_eq, hcreated.tags_eq,
        TuxObject.rewriteOptions] using hreason

/-! ## Updating in place -/

/-- Writing a prefix of the right length over a file leaves its content. -/
lemma IsImage.overwrite {compression : CompressionTypes} {layout layout' : SectionLayout}
    {metadata metadata' : MetadataMap} {tags tags' : Tags String} {content data : List UInt8}
    (h : IsImage compression layout metadata tags content data) (hm : metadata'.Fits)
    (ht : tags'.Fits) (hholds : layout'.Holds (size metadata') (size tags'))
    (hstart : layout'.contentStart = layout.contentStart) :
    IsImage compression layout' metadata' tags' content (overwrite 0 data 0
      (prefixBytes (headerOf compression layout' content.length) metadata' tags' layout')) := by
  refine ⟨hm, ht, hholds, h.length_lt, ?_⟩
  rw [h.data_eq]
  refine overwrite_zero_append 0 content ?_
  rw [length_prefixBytes _ hm ht hholds,
    length_prefixBytes _ h.metadata_fits h.tags_fits h.holds, hstart]

/-- The header that an update in place writes. -/
def TuxObject.relaid (self : TuxObject) (layout : SectionLayout) : ObjectHeader :=
  { self.header with tagsStart := layout.tagsStart, contentStart := layout.contentStart }

/-- Why an update in place is refused before it makes a call. -/
inductive TuxObject.RefusedInPlace (object : TuxObject) (metadata : MetadataMap)
    (tags : Tags String) : ObjectFileError → Prop
  | readOnly (h : object.writable ≠ true) :
      RefusedInPlace object metadata tags (.readOnly object.path)
  | overflow {panic : ObjectFileError}
      (h : LayoutOptions.checkedRepartition object.header.contentStart (size metadata) (size tags)
        defaultAlignment = .error panic) : RefusedInPlace object metadata tags panic
  | noSpace
      (h : LayoutOptions.checkedRepartition object.header.contentStart (size metadata) (size tags)
        defaultAlignment = .ok none) :
      RefusedInPlace object metadata tags (.reservedSpaceExceeded
        (headerSize + size metadata + size tags) object.header.contentStart.toNat)
  | limits {layout : SectionLayout} {e : ObjectFileError}
      (hholds : layout.Holds (size metadata) (size tags))
      (h : encodePrefix (object.relaid layout) metadata tags layout = .error e) :
      RefusedInPlace object metadata tags e

lemma TuxObject.RefusedInPlace.ne_io {metadata : MetadataMap} {tags : Tags String}
    {e : ObjectFileError} (h : object.RefusedInPlace metadata tags e) (error : IoError) :
    e ≠ .io error := by
  cases h with
  | readOnly _ => exact nofun
  | overflow hrep =>
      rw [LayoutOptions.checkedRepartition_eq_error hrep]
      exact nofun
  | noSpace _ => exact nofun
  | limits _ hencode => exact encodePrefix_ne_io error hencode

/-- An update in place is refused, or overwrites the prefix by three calls, in any environment. -/
lemma setSectionsInPlace_rule {S : Type} {step : (c : FsCall) → S → c.Reply → S → Prop}
    {may : FsCall → S → Prop} {Q : Unit → TuxObject → S → Prop}
    {E : ObjectFileError → TuxObject → S → Prop} {s : S} {metadata : MetadataMap}
    {tags : Tags String}
    (hrefused : ∀ e, object.RefusedInPlace metadata tags e → E e object s)
    (hcalls : ∀ layout, object.writable = true → metadata.Fits → tags.Fits →
      LayoutOptions.repartition object.header.contentStart (size metadata) (size tags)
        defaultAlignment = some layout →
      Fallible.Safe step may (attemptIo (sys (.seek object.file 0)))
        (fun _ => Fallible.Safe step may (attemptIo (sys (.writeAll object.file
            (prefixBytes (object.relaid layout) metadata tags layout))))
          (fun _ => Fallible.Safe step may (attemptIo (sys (.flush object.file)))
            (fun _ => Q () { object with header := object.relaid layout, metadata := metadata })
            (fun e => E e object))
          (fun e => E e object))
        (fun e => E e object) s) :
    Method.Safe step may (TuxObject.setSectionsInPlace metadata tags) object Q E s := by
  unfold TuxObject.setSectionsInPlace
  refine Method.Safe.bind (Method.Safe.get (Method.Safe.bind (Method.Safe.lift ?_)))
  refine Fallible.Safe.ofExcept ?_
  by_cases hwritable : object.writable = true
  swap
  · rw [TuxObject.ensureWritable, if_neg hwritable]
    exact hrefused _ (.readOnly hwritable)
  rw [TuxObject.ensureWritable, if_pos hwritable]
  refine Method.Safe.bind (Method.Safe.lift (Fallible.Safe.ofExcept ?_))
  rcases hrep : LayoutOptions.checkedRepartition object.header.contentStart (size metadata)
      (size tags) defaultAlignment with panic | _ | layout
  · exact hrefused _ (.overflow hrep)
  · exact hrefused _ (.noSpace hrep)
  obtain ⟨_, hholds⟩ := LayoutOptions.checkedRepartition_holds hrep
  dsimp only
  show Method.Safe _ _
    (liftM (orReturn (encodePrefix (object.relaid layout) metadata tags layout)) >>=
    _) _ _ _ _
  refine Method.Safe.bind (Method.Safe.lift (Fallible.Safe.ofExcept ?_))
  rcases hencode : encodePrefix (object.relaid layout) metadata tags layout with e | bytes
  · exact hrefused _ (.limits hholds hencode)
  obtain ⟨hm, ht, _, rfl⟩ :=
    (encodePrefix_eq_ok_iff hholds.headerSize_le hholds.tagsStart_le bytes).mp hencode
  refine Method.Safe.bind (Method.Safe.lift (Fallible.Safe.mono
    (hcalls layout hwritable hm ht (LayoutOptions.checkedRepartition_eq_ok_iff.mp hrep).2)
    (fun _ _ hwrite => ?_) fun _ _ he => he))
  refine Method.Safe.bind (Method.Safe.lift (Fallible.Safe.mono hwrite
    (fun _ _ hflush => ?_) fun _ _ he => he))
  exact Method.Safe.bind (Method.Safe.lift (Fallible.Safe.mono hflush
    (fun _ _ hdone => Method.Safe.set hdone) fun _ _ he => he))

/-- What an update in place has done to the file `i` under the handle: a prefix with the new
sections is written over it. -/
structure Overwritten (w : World) (object : TuxObject) (i : ℕ) (metadata : MetadataMap)
    (tags : Tags String) (layout : SectionLayout) (object' : TuxObject) (w' : World) : Prop where
  writable_eq : object.writable = true
  metadata_fits : metadata.Fits
  tags_fits : tags.Fits
  holds : layout.Holds (size metadata) (size tags)
  contentStart_eq : layout.contentStart = object.header.contentStart
  object_eq : object' = { object with header := object.relaid layout, metadata := metadata }
  openOn : OpenOn w' object' i
  dir_eq : w'.dir = w.dir
  data_eq : w'.data i =
    overwrite 0 (w.data i) 0 (prefixBytes (object.relaid layout) metadata tags layout)

/-- An update in place writes the new prefix, or leaves everything as it was unless a call fails.
Nothing is asked of the file under the handle. -/
lemma setSectionsInPlace_overwrites {metadata : MetadataMap} {tags : Tags String}
    (h : OpenOn w object i) :
    Method.Safe (FsStep mayFail) (fun _ _ => True) (TuxObject.setSectionsInPlace metadata tags)
      object
      (fun _ object' w' => ∃ layout, Overwritten w object i metadata tags layout object' w')
      (fun e object' w' => object' = object ∧
        ((∀ io, e ≠ .io io) ∧ w' = w ∨ (∃ io, e = .io io) ∧ ∃ c, mayFail c)) w := by
  obtain ⟨pos, hfile⟩ := h
  refine setSectionsInPlace_rule (fun e hrefused => ⟨rfl, .inl ⟨hrefused.ne_io, rfl⟩⟩) ?_
  intro layout hwritable hm ht hrep
  obtain ⟨hstart, hholds⟩ := LayoutOptions.repartition_holds hrep
  rw [hwritable] at hfile
  have hlen := length_prefixBytes (object.relaid layout) hm ht hholds
  have hshort := toNat_uint32_le layout.contentStart
  have hseek : (w.seekTo object.file 0).files object.file = some ⟨i, 0, true⟩ :=
    World.seekTo_files_self hfile
  have hput := World.put_files_self hseek (prefixBytes (object.relaid layout) metadata tags layout)
  have hdata := World.put_data_self (w := w.seekTo object.file 0) object.file ⟨i, 0, true⟩
    (prefixBytes (object.relaid layout) metadata tags layout)
  refine seek_safe (Nat.zero_le _) hfile trivial ?_ fun hfail e => ⟨rfl, .inr ⟨⟨e, rfl⟩, _, hfail⟩⟩
  refine writeAll_safe hseek rfl trivial (fun _ => ?_)
    (fun hfail e => ⟨rfl, .inr ⟨⟨e, rfl⟩, _, hfail.resolve_right (by dsimp only; omega)⟩⟩)
    (fun hfail e m _ => ⟨rfl, .inr ⟨⟨e, rfl⟩, _, hfail.resolve_right (by dsimp only; omega)⟩⟩)
  refine flush_safe trivial ?_ fun hfail e => ⟨rfl, .inr ⟨⟨e, rfl⟩, _, hfail⟩⟩
  exact ⟨layout, hwritable, hm, ht, hholds, hstart, rfl, ⟨_, hwritable ▸ hput⟩, rfl, hdata⟩

/-- An update in place replaces both sections of the record under the handle, or changes nothing. -/
lemma setSectionsInPlace_safe {metadata : MetadataMap} {tags : Tags String}
    (h : HandleOf w object i record) :
    Method.Safe (FsStep mayFail) (fun _ _ => True) (TuxObject.setSectionsInPlace metadata tags)
      object
      (fun _ object' w' => object'.path = object.path ∧ w'.dir = w.dir ∧
        HandleOf w' object' i { record with metadata := metadata, tags := tags })
      (fun _ object' w' => object' = object ∧ (Undisturbed w w' ∨ ∃ c, mayFail c)) w := by
  obtain ⟨layout, oldMetadata, oldTags, himage, _, _, hheader⟩ := h.stored
  apply Method.Safe.mono (setSectionsInPlace_overwrites h.file)
  · rintro _ object' w' ⟨layout', hover⟩
    have hnew : object.relaid layout' =
        headerOf record.compression layout' record.content.length := by
      rw [TuxObject.relaid, hheader]
      rfl
    have hstart : layout'.contentStart = layout.contentStart := by
      rw [hover.contentStart_eq, hheader]
      rfl
    have hdata := hover.data_eq
    rw [hnew] at hdata
    obtain rfl := hover.object_eq
    refine ⟨rfl, hover.dir_eq, hover.openOn, ?_, Tags.Equal.refl _⟩
    refine ⟨layout', metadata, tags, ?_, Tags.Equal.refl _, Tags.Equal.refl _, hnew⟩
    rw [hdata]
    exact himage.overwrite hover.metadata_fits hover.tags_fits hover.holds hstart
  · rintro e object' w' ⟨rfl, ⟨_, rfl⟩ | ⟨_, hfail⟩⟩
    · exact ⟨rfl, .inl (Undisturbed.refl _)⟩
    · exact ⟨rfl, .inr hfail⟩

end TuxEncoding
