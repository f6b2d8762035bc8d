import TuxEncoding.Fs.Layout

/-!
# The image of an object file

`encode_prefix` of `src/fs/writer.rs` and what it leaves in the file. `Platform` gathers what the
file layer runs on: the `http` crate, the iteration orders of its maps and the features of the
build.

* `prefixBytes` is the prefix of an object byte for byte, and `encodePrefix_eq_ok_iff` says when
  `encode_prefix` gives exactly that.
* `IsImage` says that a file holds a complete object with given sections and content;
  `IsImage.readHeader` reads its header back, and `IsImage.tagSection` finds its tags.
-/

namespace TuxEncoding

open Bytes

set_option linter.unusedSectionVars false

/-- What the file layer runs on. -/
class Platform extends Http where
  metadataOrder : HashOrder MetaKey
  tagOrder : HashOrder String
  /-- `cfg!(feature = "zstd")` -/
  zstd : Bool
  /-- `cfg!(feature = "gzip")` -/
  gzip : Bool

attribute [reducible, instance] Platform.metadataOrder Platform.tagOrder

/-- A build with all features, whose maps are iterated in the order of their entries. -/
@[reducible] def fullPlatform : Platform where
  toHttp := tokenHttp
  metadataOrder := @HashOrder.mk (@MetaKey tokenHttp) (fun map => map.entries) fun _ =>
    List.Perm.refl _
  tagOrder := ⟨fun map => map.entries, fun _ => List.Perm.refl _⟩
  zstd := true
  gzip := true

variable [Platform]

/-- `std::io::Cursor::set_position`. -/
def setPosition (pos : ℕ) : Encoder SliceCursor Unit := modify fun w => { w with pos := pos }

/-- The writes of `encode_prefix`. -/
def writePrefix (header : ObjectHeader) (metadata : MetadataMap) (tags : Tags String)
    (layout : SectionLayout) : Encoder SliceCursor Unit := do
  writeToWriter header
  setPosition headerSize
  writeToWriter metadata
  setPosition layout.tagsStart.toNat
  writeToWriter tags

/-- `encode_prefix`: the header, metadata and tag sections in one zero-filled buffer. -/
def encodePrefix (header : ObjectHeader) (metadata : MetadataMap) (tags : Tags String)
    (layout : SectionLayout) : Except ObjectFileError (List UInt8) := do
  let metadataSize := size metadata
  let tagsSize := size tags
  let metadataSpace ← layout.checkedMetadataSpace
  if metadataSize > metadataSpace then
    throw (.reservedSpaceExceeded metadataSize metadataSpace)
  let tagsSpace ← layout.checkedTagsSpace
  if tagsSize > tagsSpace then
    throw (.reservedSpaceExceeded tagsSize tagsSpace)
  match writePrefix header metadata tags layout ⟨List.replicate layout.prefixSize 0, 0⟩ with
  | .ok (_, cursor) => return cursor.buffer
  | .error e => throw (.encoding e)

/-! ## The bytes of the prefix -/

/-- A section: its encoding, padded with zeros to the space it has. -/
def padded (bs : List UInt8) (space : ℕ) : List UInt8 := bs ++ List.replicate (space - bs.length) 0

lemma length_padded {bs : List UInt8} {space : ℕ} (h : bs.length ≤ space) :
    (padded bs space).length = space := by
  simp only [padded, List.length_append, List.length_replicate]
  omega

/-- The header, the metadata section and the tag section. -/
def prefixBytes (header : ObjectHeader) (metadata : MetadataMap) (tags : Tags String)
    (layout : SectionLayout) : List UInt8 :=
  header.wire ++ (padded metadata.wire layout.metadataSpace ++ padded tags.wire layout.tagsSpace)

/-- Writing into the zeros behind `a` leaves what was written behind `a`. -/
lemma overwrite_zeros (a bs : List UInt8) {k : ℕ} (h : bs.length ≤ k) :
    overwrite 0 (a ++ List.replicate k 0) a.length bs =
      a ++ bs ++ List.replicate (k - bs.length) 0 := by
  cases bs with
  | nil => simp
  | cons b bs =>
      have hdrop : (a ++ List.replicate k (0 : UInt8)).drop (a.length + (b :: bs).length) =
          List.replicate (k - (b :: bs).length) 0 := by
        rw [List.drop_append, List.drop_of_length_le (by omega), List.nil_append,
          List.drop_replicate]
        congr 1
        omega
      have hgap : a.length - (a ++ List.replicate k (0 : UInt8)).length = 0 := by
        rw [List.length_append]
        omega
      rw [overwrite_of_ne_nil 0 _ _ (List.cons_ne_nil b bs), List.take_left, hgap, hdrop]
      simp

/-- `emit` on a slice cursor that has `a` in front of it and `k` zeros behind. -/
lemma emit_zeros (a bs : List UInt8) {k : ℕ} (h : bs.length ≤ k) :
    (emit bs : Encoder SliceCursor Unit) ⟨a ++ List.replicate k 0, a.length⟩ =
      .ok ((), ⟨a ++ bs ++ List.replicate (k - bs.length) 0, a.length + bs.length⟩) := by
  have hroom : bs.length ≤ (a ++ List.replicate k (0 : UInt8)).length - a.length := by
    rw [List.length_append, List.length_replicate]
    omega
  unfold emit
  rw [SliceCursor.writeAll_of_le hroom, overwrite_zeros a bs h]

/-- Room for the sections, in the terms of `encode_prefix`. -/
lemma SectionLayout.holds_iff {layout : SectionLayout} {m t : ℕ}
    (hheader : headerSize ≤ layout.tagsStart.toNat)
    (htags : layout.tagsStart.toNat ≤ layout.contentStart.toNat) :
    layout.Holds m t ↔ m ≤ layout.metadataSpace ∧ t ≤ layout.tagsSpace := by
  unfold metadataSpace tagsSpace
  exact ⟨fun h => ⟨by have := h.metadata_le; omega, by have := h.tags_le; omega⟩,
    fun h => ⟨by omega, by omega⟩⟩

variable {header : ObjectHeader} {metadata : MetadataMap} {tags : Tags String}
  {layout : SectionLayout}

/-- The writes of `encode_prefix` on sections that have room give the prefix. -/
lemma writePrefix_of_fits (hm : metadata.Fits) (ht : tags.Fits)
    (hholds : layout.Holds (size metadata) (size tags)) :
    writePrefix header metadata tags layout ⟨List.replicate layout.prefixSize 0, 0⟩ =
      .ok ((), ⟨prefixBytes header metadata tags layout,
        layout.tagsStart.toNat + tags.wire.length⟩) := by
  obtain ⟨hmeta, htags⟩ := hholds
  rw [← Tags.length_wire hm] at hmeta
  rw [← Tags.length_wire ht] at htags
  have hsize : headerSize = 32 := rfl
  set cs := layout.contentStart.toNat with hcs
  set ts := layout.tagsStart.toNat with hts
  -- the buffer after each of the three writes, with what is still zero split off behind it
  have h₁ := emit_zeros [] header.wire (k := cs) (by rw [ObjectHeader.length_wire]; omega)
  have h₂ := emit_zeros header.wire metadata.wire (k := cs - 32) (by omega)
  have h₃ := emit_zeros (header.wire ++ padded metadata.wire (ts - 32)) tags.wire
    (k := cs - ts) (by omega)
  have hlen : (header.wire ++ padded metadata.wire (ts - 32)).length = ts := by
    rw [List.length_append, ObjectHeader.length_wire, length_padded (by omega)]
    omega
  have hsplit : header.wire ++ metadata.wire ++
      List.replicate (cs - 32 - metadata.wire.length) (0 : UInt8) =
      header.wire ++ padded metadata.wire (ts - 32) ++ List.replicate (cs - ts) 0 := by
    rw [padded, List.append_assoc, List.append_assoc, List.append_assoc, ← List.replicate_add]
    congr 3
    omega
  rw [List.nil_append, List.length_nil] at h₁
  rw [ObjectHeader.length_wire] at h₁ h₂
  rw [hlen] at h₃
  unfold writePrefix
  rw [ObjectHeader.writeToWriter_eq_emit, Tags.write_of_fits hm, Tags.write_of_fits ht]
  show (emit header.wire _ >>= _) = _
  rw [show layout.prefixSize = cs from rfl, h₁]
  show (emit metadata.wire _ >>= _) = _
  rw [show headerSize = 32 from rfl, List.nil_append, h₂]
  show emit tags.wire _ = _
  rw [hsplit, h₃, prefixBytes, padded, padded]
  simp only [SectionLayout.metadataSpace, SectionLayout.tagsSpace, ← hcs, ← hts, hsize,
    List.append_assoc, padded]

/-- Sections outside the limits of the format are never written. -/
lemma writePrefix_of_not_fits (header : ObjectHeader) (layout : SectionLayout)
    (h : ¬ (metadata.Fits ∧ tags.Fits)) :
    Fails (writePrefix header metadata tags layout) := by
  by_cases hm : metadata.Fits
  · have ht : ¬ tags.Fits := fun ht => h ⟨hm, ht⟩
    exact Fails.bind_right _ fun _ => Fails.bind_right _ fun _ => Fails.bind_right _ fun _ =>
      Fails.bind_right _ fun _ => Tags.write_of_not_fits ht
  · exact Fails.bind_right _ fun _ => Fails.bind_right _ fun _ =>
      (Tags.write_of_not_fits hm).bind_left _

/-- What `encode_prefix` returns is the prefix, and it returns one exactly when the sections are
within the limits of the format and have room. -/
theorem encodePrefix_eq_ok_iff (hheader : headerSize ≤ layout.tagsStart.toNat)
    (htags : layout.tagsStart.toNat ≤ layout.contentStart.toNat) (bytes : List UInt8) :
    encodePrefix header metadata tags layout = .ok bytes ↔
      metadata.Fits ∧ tags.Fits ∧ layout.Holds (size metadata) (size tags) ∧
        bytes = prefixBytes header metadata tags layout := by
  unfold encodePrefix
  rw [SectionLayout.checkedMetadataSpace_of_le hheader, SectionLayout.checkedTagsSpace_of_le htags,
    SectionLayout.holds_iff hheader htags]
  simp only [bind, Except.bind]
  by_cases hm : size metadata ≤ layout.metadataSpace
  · rw [if_neg (Nat.not_lt.mpr hm)]
    by_cases ht : size tags ≤ layout.tagsSpace
    · rw [if_neg (Nat.not_lt.mpr ht)]
      have hholds := (SectionLayout.holds_iff hheader htags).mpr ⟨hm, ht⟩
      by_cases hfit : metadata.Fits ∧ tags.Fits
      · rw [writePrefix_of_fits hfit.1 hfit.2 hholds]
        show Except.ok (prefixBytes header metadata tags layout) = .ok bytes ↔ _
        simp only [Except.ok.injEq, hfit, hm, ht, true_and]
        exact eq_comm
      · obtain ⟨e, he⟩ := writePrefix_of_not_fits header layout hfit
          ⟨List.replicate layout.prefixSize 0, 0⟩
        rw [he]
        refine ⟨nofun, fun h => absurd ⟨h.1, h.2.1⟩ hfit⟩
    · rw [if_pos (Nat.not_le.mp ht)]
      exact ⟨nofun, fun h => absurd h.2.2.1.2 ht⟩
  · rw [if_pos (Nat.not_le.mp hm)]
    exact ⟨nofun, fun h => absurd h.2.2.1.1 hm⟩

/-- `encode_prefix` makes no call that could fail. -/
lemma encodePrefix_ne_io {e : ObjectFileError} (error : IoError)
    (h : encodePrefix header metadata tags layout = .error e) : e ≠ .io error := by
  rintro rfl
  unfold encodePrefix SectionLayout.checkedMetadataSpace SectionLayout.checkedTagsSpace
    checkedSub at h
  by_cases hheader : headerSize ≤ layout.tagsStart.toNat
  · rw [if_pos hheader, ok_bind] at h
    by_cases hm : size metadata > layout.tagsStart.toNat - headerSize
    · rw [if_pos hm] at h
      cases h
    · rw [if_neg hm] at h
      by_cases htags : layout.tagsStart.toNat ≤ layout.contentStart.toNat
      · rw [if_pos htags, ok_bind] at h
        by_cases ht : size tags > layout.contentStart.toNat - layout.tagsStart.toNat
        · rw [if_pos ht] at h
          cases h
        · rw [if_neg ht] at h
          split at h
          · cases h
          · cases h
      · rw [if_neg htags] at h
        cases h
  · rw [if_neg hheader] at h
    cases h

/-- The prefix reaches exactly to where the content starts. -/
lemma length_prefixBytes (header : ObjectHeader) (hm : metadata.Fits) (ht : tags.Fits)
    (hholds : layout.Holds (size metadata) (size tags)) :
    (prefixBytes header metadata tags layout).length = layout.contentStart.toNat := by
  obtain ⟨hmeta, htags⟩ := hholds
  have hsize : headerSize = 32 := rfl
  rw [← Tags.length_wire hm] at hmeta
  rw [← Tags.length_wire ht] at htags
  rw [prefixBytes, List.length_append, List.length_append, ObjectHeader.length_wire,
    length_padded (by unfold SectionLayout.metadataSpace; omega),
    length_padded (by unfold SectionLayout.tagsSpace; omega)]
  unfold SectionLayout.metadataSpace SectionLayout.tagsSpace
  omega

/-! ### The sections of the prefix -/

section sections

variable (header) (hm : metadata.Fits) (ht : tags.Fits)
  (hholds : layout.Holds (size metadata) (size tags)) (rest : List UInt8)

/-- The header is where a file begins. -/
lemma take_headerSize_prefixBytes :
    (prefixBytes header metadata tags layout ++ rest).take headerSize = header.wire := by
  rw [prefixBytes, List.append_assoc]
  exact List.take_left' (ObjectHeader.length_wire header)

include hm ht hholds

lemma length_sections :
    (padded metadata.wire layout.metadataSpace).length = layout.metadataSpace ∧
      (padded tags.wire layout.tagsSpace).length = layout.tagsSpace := by
  obtain ⟨hmeta, htags⟩ := hholds
  constructor
  · refine length_padded ?_
    rw [Tags.length_wire hm]
    unfold SectionLayout.metadataSpace
    omega
  · refine length_padded ?_
    rw [Tags.length_wire ht]
    unfold SectionLayout.tagsSpace
    omega

/-- The metadata section is the encoded metadata, padded to its space. -/
lemma metadataSection_prefixBytes :
    ((prefixBytes header metadata tags layout ++ rest).drop headerSize).take layout.metadataSpace =
      padded metadata.wire layout.metadataSpace := by
  have hheader : header.wire.length = headerSize := ObjectHeader.length_wire header
  rw [prefixBytes, List.append_assoc, List.append_assoc, List.drop_left' hheader]
  exact List.take_left' (length_sections hm ht hholds).1

/-- The tag section is the encoded tags, padded to their space. -/
lemma tagSection_prefixBytes :
    ((prefixBytes header metadata tags layout ++ rest).drop layout.tagsStart.toNat).take
      layout.tagsSpace = padded tags.wire layout.tagsSpace := by
  obtain ⟨hmeta, htags⟩ := length_sections hm ht hholds
  have hfront : (header.wire ++ padded metadata.wire layout.metadataSpace).length =
      layout.tagsStart.toNat := by
    rw [List.length_append, ObjectHeader.length_wire, hmeta]
    have := hholds.metadata_le
    have hsize : headerSize = 32 := rfl
    unfold SectionLayout.metadataSpace
    omega
  rw [prefixBytes, ← List.append_assoc, List.append_assoc, List.drop_left' hfront]
  exact List.take_left' htags

end sections

/-! ## Complete objects -/

/-- The header of a new object. -/
def headerOf (compression : CompressionTypes) (layout : SectionLayout) (contentLength : ℕ) :
    ObjectHeader where
  version := 0
  compressionType := compression
  tagsStart := layout.tagsStart
  contentStart := layout.contentStart
  contentLength := UInt64.ofNat contentLength
  bitFlags := 0

/-- The file `data` is the prefix of these sections in this layout, whose header counts so many
bytes of content, and behind it the content that was stored. -/
structure IsPrefixed (compression : CompressionTypes) (layout : SectionLayout)
    (metadata : MetadataMap) (tags : Tags String) (counted : ℕ) (content data : List UInt8) :
    Prop where
  metadata_fits : metadata.Fits
  tags_fits : tags.Fits
  holds : layout.Holds (size metadata) (size tags)
  length_lt : content.length < 2 ^ 63
  data_eq : data = prefixBytes (headerOf compression layout counted) metadata tags layout ++ content

/-- The file `data` is a complete object: the whole content is stored behind the prefix. -/
abbrev IsImage (compression : CompressionTypes) (layout : SectionLayout) (metadata : MetadataMap)
    (tags : Tags String) (content data : List UInt8) : Prop :=
  IsPrefixed compression layout metadata tags content.length content data

namespace IsPrefixed

variable {compression : CompressionTypes} {counted : ℕ} {content data : List UInt8}

lemma length_eq (h : IsPrefixed compression layout metadata tags counted content data) :
    data.length = layout.contentStart.toNat + content.length := by
  rw [h.data_eq, List.length_append, length_prefixBytes _ h.metadata_fits h.tags_fits h.holds]

/-- The content section holds the content. -/
lemma drop_contentStart (h : IsPrefixed compression layout metadata tags counted content data) :
    data.drop layout.contentStart.toNat = content := by
  rw [h.data_eq, ← length_prefixBytes (headerOf compression layout counted) h.metadata_fits
    h.tags_fits h.holds, List.drop_left]

/-- The first 32 bytes decode to the header. -/
lemma readHeader (h : IsPrefixed compression layout metadata tags counted content data) :
    ObjectHeader.readFromBytes (data.take headerSize) =
      .ok (headerOf compression layout counted) := by
  rw [h.data_eq, take_headerSize_prefixBytes, ← List.append_nil (ObjectHeader.wire _)]
  exact ObjectHeader.readFromBytes_wire _ rfl []

lemma headerSize_le (h : IsPrefixed compression layout metadata tags counted content data) :
    headerSize ≤ layout.tagsStart.toNat := h.holds.headerSize_le

lemma tagsStart_le (h : IsPrefixed compression layout metadata tags counted content data) :
    layout.tagsStart.toNat ≤ layout.contentStart.toNat := h.holds.tagsStart_le

/-- The tag section is the encoded tags, padded to their space. -/
lemma tagSection (h : IsPrefixed compression layout metadata tags counted content data) :
    (data.drop layout.tagsStart.toNat).take layout.tagsSpace =
      padded tags.wire layout.tagsSpace := by
  rw [h.data_eq]
  exact tagSection_prefixBytes _ h.metadata_fits h.tags_fits h.holds content

end IsPrefixed

lemma IsPrefixed.contentLength_toNat {compression : CompressionTypes} {content data : List UInt8}
    (h : IsImage compression layout metadata tags content data) :
    (headerOf compression layout content.length).contentLength.toNat = content.length := by
  show (UInt64.ofNat content.length).toNat = _
  have hlt := h.length_lt
  rw [UInt64.toNat_ofNat']
  exact Nat.mod_eq_of_lt (by omega)

end TuxEncoding
