import TuxEncoding.Fs.ObjectSafety

/-!
# Updates in place

`set_sections_in_place` writes the new prefix over the old one.

* `Overwritten.prefixReplaced`: on any file that opens and reaches to where its content starts, that
  changes nothing from there on, and the file opens with the new sections.
* `in_place_update_frame`: an update that returns `Ok` has done exactly that, and one that returns
  an error of its own has done nothing at all.
-/

namespace TuxEncoding

open Bytes Interaction Program

set_option linter.unusedSectionVars false

section

variable [Platform] [Codecs]

variable {mayFail : FsCall → Prop} {w w' : World} {object object' : TuxObject} {i : ℕ}
  {metadata : MetadataMap} {tags : Tags String} {layout : SectionLayout}

/-- Whatever path leads to the file, it opens with this header and these sections. -/
def OpensWith (w : World) (i : ℕ) (header : ObjectHeader) (metadata : MetadataMap)
    (tags : Tags String) : Prop :=
  ∀ path writable, w.dir path = some i →
    Fallible.Delivers (FsStep NoFaults) (TuxObject.openAs path writable)
      (fun opened w' => opened.header = header ∧ opened.metadata.Equal metadata ∧
        Fallible.Delivers (FsStep NoFaults) opened.readTags
          (fun read w'' => read.Equal tags ∧ Undisturbed w' w'') w') w

/-- The prefix of the file has been replaced by one with the new sections, and nothing else of it.
-/
structure PrefixReplaced (w : World) (object : TuxObject) (i : ℕ) (metadata : MetadataMap)
    (tags : Tags String) (object' : TuxObject) (w' : World) : Prop where
  behind_eq : (w'.data i).drop object.header.contentStart.toNat =
    (w.data i).drop object.header.contentStart.toNat
  length_eq : (w'.data i).length = (w.data i).length
  contentStart_eq : object'.header.contentStart = object.header.contentStart
  contentLength_eq : object'.header.contentLength = object.header.contentLength
  compressionType_eq : object'.header.compressionType = object.header.compressionType
  bitFlags_eq : object'.header.bitFlags = object.header.bitFlags
  metadata_eq : object'.metadata = metadata
  opens : OpensWith w' i object'.header metadata tags

/-- A file with this prefix opens with the sections of the prefix. -/
lemma opensWith_of_prefix {header : ObjectHeader} {rest : List UInt8}
    (hversion : header.version = currentVersion)
    (hlayout : (⟨header.tagsStart, header.contentStart⟩ : SectionLayout) = layout)
    (hm : metadata.Fits) (ht : tags.Fits) (hholds : layout.Holds (size metadata) (size tags))
    (hdata : w.data i = prefixBytes header metadata tags layout ++ rest) :
    OpensWith w i header metadata tags := by
  intro path writable hdir
  have hstart : header.tagsStart = layout.tagsStart := congrArg SectionLayout.tagsStart hlayout
  have hread : readPrefix (w.data i) = .ok (header, metadata.decoded) := by
    rw [hdata]
    exact readPrefix_prefixBytes hversion hstart hm ht hholds rest
  refine Fallible.Safe.mono (openAs_delivers writable hdir hread) ?_ (fun _ _ h => h)
  rintro opened w₁ ⟨hheader, hmetadata, hopen, hsame⟩
  have hstored : opened.storedTags (w₁.data i) = .ok tags.decoded := by
    rw [hsame.data_eq, hdata]
    refine storedTags_prefixBytes ?_ hm ht hholds rest
    rw [TuxObject.layout, hheader]
    exact hlayout
  refine ⟨hheader, hmetadata ▸ Tags.decoded_equal metadata, ?_⟩
  refine Fallible.Safe.mono (hopen.readTags_returns.delivers hstored) ?_ (fun _ _ h => h)
  rintro read w₂ ⟨rfl, hsame'⟩
  exact ⟨Tags.decoded_equal tags, hsame'⟩

/-- Only headers of the current version open. -/
lemma version_of_readPrefix {data : List UInt8} {header : ObjectHeader}
    (h : readPrefix data = .ok (header, metadata)) : header.version = currentVersion := by
  unfold readPrefix at h
  rcases hslice : readSlice data 0 headerSize with e | headerBytes
  · rw [hslice] at h
    cases h
  rw [hslice, ok_bind] at h
  rcases hheader : ObjectHeader.readFromBytes headerBytes with e | header'
  · rw [hheader] at h
    cases h
  have hversion := ObjectHeader.version_of_readFromBytes hheader
  rw [hheader] at h
  simp only [Except.mapError, ok_bind] at h
  split_ifs at h with hspace
  · cases h
    exact hversion
  · rcases hslice' : readSlice data headerSize (header'.tagsStart.toNat - headerSize) with
      e | buffer
    · rw [hslice'] at h
      cases h
    rw [hslice', ok_bind] at h
    rcases hdecode : decodeSection (readFromReader : Decoder MetadataMap) buffer with e | decoded
    · rw [hdecode] at h
      cases h
    · rw [hdecode] at h
      cases h
      exact hversion

/-- Writing a prefix over a file that reaches to where its content starts replaces its prefix. -/
lemma Overwritten.prefixReplaced (h : Overwritten w object i metadata tags layout object' w')
    (hversion : object.header.version = currentVersion)
    (hlength : object.header.contentStart.toNat ≤ (w.data i).length) :
    PrefixReplaced w object i metadata tags object' w' := by
  have hbytes := length_prefixBytes (object.relaid layout) h.metadata_fits h.tags_fits h.holds
  rw [h.contentStart_eq] at hbytes
  have hsplit : w'.data i = prefixBytes (object.relaid layout) metadata tags layout ++
      (w.data i).drop object.header.contentStart.toNat := by
    rw [h.data_eq]
    conv_lhs => rw [← List.take_append_drop object.header.contentStart.toNat (w.data i)]
    refine overwrite_zero_append 0 _ ?_
    rw [hbytes, List.length_take]
    omega
  have hdrop : (w'.data i).drop object.header.contentStart.toNat =
      (w.data i).drop object.header.contentStart.toNat := by
    rw [hsplit, ← hbytes, List.drop_left]
  obtain rfl := h.object_eq
  refine ⟨hdrop, ?_, h.contentStart_eq, rfl, rfl, rfl, rfl, ?_⟩
  · rw [hsplit, List.length_append, hbytes, List.length_drop]
    omega
  · exact opensWith_of_prefix hversion rfl h.metadata_fits h.tags_fits h.holds hsplit

/-- An update in place of an object whose file opens and reaches to where its content starts: when
it returns `Ok`, it has replaced the prefix of the file and nothing else; when it returns an error
that is not an I/O error, nothing has changed. -/
theorem in_place_update_frame {oldMetadata : MetadataMap} {r : Except ObjectFileError Unit}
    (hopen : OpenOn w object i)
    (hread : readPrefix (w.data i) = .ok (object.header, oldMetadata))
    (hlength : object.header.contentStart.toNat ≤ (w.data i).length)
    (hrun : Ends (FsStep mayFail) ((TuxObject.setSectionsInPlace metadata tags).on object) w
      (r, object') w') :
    (r = .ok () → PrefixReplaced w object i metadata tags object' w') ∧
      ∀ e, r = .error e → (∀ error, e ≠ .io error) → w' = w ∧ object' = object := by
  have hend := (setSectionsInPlace_overwrites hopen).ends hrun
  constructor
  · rintro rfl
    obtain ⟨layout, hover⟩ := hend
    exact hover.prefixReplaced (version_of_readPrefix hread) hlength
  · rintro e rfl hown
    obtain ⟨rfl, ⟨_, rfl⟩ | ⟨⟨error, rfl⟩, _⟩⟩ := hend
    · exact ⟨rfl, rfl⟩
    · exact absurd rfl (hown error)

end

attribute [local instance] fullPlatform pairCodecs

/-- The header of a compressed object with a flag set. -/
def flaggedHeader : ObjectHeader := ⟨0, .zstd 3, 64, 608, 2, 5⟩

/-- A file system with that object, open for writing. -/
def flaggedWorld : World :=
  (World.single (prefixBytes flaggedHeader Tags.new Tags.new ⟨64, 608⟩ ++ [7, 9])).openAt
    World.somePath true 1 (Nat.le_refl _)

def flaggedObject : TuxObject := ⟨1, World.somePath, flaggedHeader, Tags.new, true⟩

/-- The object is given a tag in place. -/
theorem in_place_update_frame_flagged : ∃ object' w',
    Ends (FsStep NoFaults) ((TuxObject.setSectionsInPlace Tags.new
      (Tags.new.insert "a" (.u8 1))).on flaggedObject) flaggedWorld (.ok (), object') w' ∧
    PrefixReplaced flaggedWorld flaggedObject 0 Tags.new (Tags.new.insert "a" (.u8 1)) object'
      w' := by
  have hread : readPrefix (flaggedWorld.data 0) =
      .ok (flaggedHeader, (Tags.new : MetadataMap).decoded) :=
    readPrefix_prefixBytes rfl rfl Tags.fits_new Tags.fits_new
      ⟨by decide, by decide⟩ [7, 9]
  obtain ⟨_, object', _, hrun⟩ := Method.exec_ends_ok (fsStep_perform NoFaults)
    (TuxObject.setSectionsInPlace Tags.new (Tags.new.insert "a" (.u8 1))) flaggedObject flaggedWorld
    (by decide +kernel)
  refine ⟨object', _, hrun, (in_place_update_frame ⟨0, rfl⟩ hread ?_ hrun).1 rfl⟩
  decide +kernel

end TuxEncoding
