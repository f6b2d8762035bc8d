import TuxEncoding.Codec.Room
import TuxEncoding.Fs.Image

/-!
# The prefix that is written

`encode_prefix` writes the header and two blocks through one cursor over a zero-filled buffer, and
moves the cursor between them. Nothing in it compares the blocks with each other: that they do not
overlap follows from the two comparisons with the spaces and from `size` being what each block
needs.

* `encodePrefix_error_not_isIo`: in a layout in order, the buffer is never too short.
* `IsPrefixImage`: where the three parts are found in the prefix, and the zeros around them.
* `encode_prefix_image`: when there is a prefix, and that it is such an image.
-/

namespace TuxEncoding

open Bytes

set_option linter.unusedSectionVars false

section

variable [Platform]

/-! ## The buffer is long enough -/

/-- An I/O error, of a call or of the buffer that is written to. -/
def ObjectFileError.IsIo : ObjectFileError → Prop
  | .io _ => True
  | .encoding (.ioError _) => True
  | _ => False

/-- A result of writing to a buffer of `length` bytes that did not run out of room. -/
def KeepsLength {α : Type} (length : ℕ) : Except EncodingError (α × SliceCursor) → Prop
  | .ok (_, w) => w.buffer.length = length
  | .error e => ∀ io, e ≠ .ioError io

/-- An encoder that has what it needs, from `pos` on, does not run out of room. -/
lemma Needs.keepsLength {α : Type} {n length pos : ℕ} {enc : Encoder SliceCursor α}
    {buffer : List UInt8} (h : Needs n enc) (hlength : buffer.length = length)
    (hroom : pos + n ≤ length) : KeepsLength length (enc ⟨buffer, pos⟩) := by
  subst hlength
  have hstays := h ⟨buffer, pos⟩ hroom
  cases hw : enc ⟨buffer, pos⟩ with
  | error e =>
      rw [hw] at hstays
      exact hstays
  | ok p =>
      rw [hw] at hstays
      exact hstays.1

lemma KeepsLength.bind {α β : Type} {length : ℕ} {enc : Encoder SliceCursor α}
    {f : α → Encoder SliceCursor β} {w : SliceCursor} (h : KeepsLength length (enc w))
    (hf : ∀ a w', w'.buffer.length = length → KeepsLength length (f a w')) :
    KeepsLength length ((enc >>= f) w) := by
  show KeepsLength length (enc w >>= fun p => f p.1 p.2)
  cases hw : enc w with
  | error e =>
      rw [hw] at h
      exact h
  | ok p =>
      rw [hw] at h
      exact hf p.1 p.2 h

variable {header : ObjectHeader} {metadata : MetadataMap} {tags : Tags String}
  {layout : SectionLayout}

/-- Sections that have room by their sizes are written within the buffer, or break a limit. -/
lemma writePrefix_keepsLength (hholds : layout.Holds (size metadata) (size tags)) :
    KeepsLength layout.prefixSize
      (writePrefix header metadata tags layout ⟨List.replicate layout.prefixSize 0, 0⟩) := by
  obtain ⟨hmeta, htags⟩ := hholds
  have hprefix : layout.prefixSize = layout.contentStart.toNat := rfl
  have hsize : headerSize = 32 := rfl
  have hheader : Needs 32 (writeToWriter header : Encoder SliceCursor Unit) := by
    rw [ObjectHeader.writeToWriter_eq_emit, ← ObjectHeader.length_wire header]
    exact needs_emit _
  have hmetadataNeeds : Needs (size metadata) (writeToWriter metadata) :=
    Tags.needs_write (fun key => needs_writePrefixed "MetaKey" _) metadata
  have htagsNeeds : Needs (size tags) (writeToWriter tags) :=
    Tags.needs_write (fun key => needs_writePrefixed "String" _) tags
  -- each block is written from where the cursor is moved to, whatever was written before
  refine KeepsLength.bind (hheader.keepsLength List.length_replicate (by omega)) fun _ w₁ hw₁ => ?_
  show KeepsLength _ ((do
    writeToWriter metadata
    setPosition layout.tagsStart.toNat
    writeToWriter tags : Encoder SliceCursor Unit) ⟨w₁.buffer, headerSize⟩)
  refine KeepsLength.bind (hmetadataNeeds.keepsLength hw₁ (by omega)) fun _ w₂ hw₂ => ?_
  exact htagsNeeds.keepsLength hw₂ (by omega)

/-- In a layout in order, `encode_prefix` fails only on sections without room or beyond a limit. -/
lemma encodePrefix_error_not_isIo (hheader : headerSize ≤ layout.tagsStart.toNat)
    (htags : layout.tagsStart.toNat ≤ layout.contentStart.toNat) {e : ObjectFileError}
    (h : encodePrefix header metadata tags layout = .error e) : ¬ e.IsIo := by
  unfold encodePrefix at h
  rw [SectionLayout.checkedMetadataSpace_of_le hheader, SectionLayout.checkedTagsSpace_of_le htags,
    ok_bind, ok_bind] at h
  by_cases hm : size metadata > layout.metadataSpace
  · rw [if_pos hm] at h
    cases h
    exact id
  · rw [if_neg hm] at h
    by_cases ht : size tags > layout.tagsSpace
    · rw [if_pos ht] at h
      cases h
      exact id
    · rw [if_neg ht] at h
      have hholds : layout.Holds (size metadata) (size tags) :=
        (SectionLayout.holds_iff hheader htags).mpr ⟨Nat.not_lt.mp hm, Nat.not_lt.mp ht⟩
      have hkeeps : KeepsLength layout.prefixSize (writePrefix header metadata tags layout
          ⟨List.replicate layout.prefixSize 0, 0⟩) := writePrefix_keepsLength hholds
      cases hwrite : writePrefix header metadata tags layout
          ⟨List.replicate layout.prefixSize 0, 0⟩ with
      | ok p =>
          rw [hwrite] at h
          cases h
      | error e' =>
          rw [hwrite] at h hkeeps
          cases h
          cases e' with
          | ioError io => exact absurd rfl (hkeeps io)
          | _ => exact id

/-! ## The image -/

/-- `bytes` is the documented prefix of a file: the header in front, the metadata behind it, the
tags where the layout puts them, and zeros in between. -/
structure IsPrefixImage (header : ObjectHeader) (metadata : MetadataMap) (tags : Tags String)
    (layout : SectionLayout) (bytes : List UInt8) : Prop where
  length_eq : bytes.length = layout.contentStart.toNat
  header_eq : ObjectHeader.readFromBytes (bytes.take headerSize) = .ok header
  metadata_eq : ∃ metadata' : MetadataMap, metadata'.Equal metadata ∧
    readFromReader ⟨bytes, headerSize⟩ = .ok (metadata', ⟨bytes, headerSize + size metadata⟩)
  tags_eq : ∃ tags' : Tags String, tags'.Equal tags ∧
    readFromReader ⟨bytes, layout.tagsStart.toNat⟩ =
      .ok (tags', ⟨bytes, layout.tagsStart.toNat + size tags⟩)
  padding_eq : ∀ p, headerSize ≤ p → p < layout.contentStart.toNat →
    ¬ p < headerSize + size metadata →
    ¬ (layout.tagsStart.toNat ≤ p ∧ p < layout.tagsStart.toNat + size tags) →
    bytes[p]? = some 0

/-- Behind the encoding a section is zero. -/
lemma getElem?_padded {bs : List UInt8} {space p : ℕ} (h : bs.length ≤ p) (hp : p < space) :
    (padded bs space)[p]? = some 0 := by
  rw [padded, List.getElem?_append_right h, List.getElem?_replicate_of_lt (by omega)]

/-- A block decodes where it stands in the prefix, whatever is in front of it and behind it. -/
lemma Tags.reads_within {Key : Type} [DecidableEq Key] [HashOrder Key] [TuxIOType Key]
    [WritableObjectType Key] [ReadableObjectType Key] [Codec Key] {t : Tags Key} (h : t.Fits)
    {bytes pre suf : List UInt8} {p : ℕ} (hbytes : bytes = pre ++ t.wire ++ suf)
    (hp : pre.length = p) :
    ∃ t' : Tags Key, t'.Equal t ∧ readFromReader ⟨bytes, p⟩ = .ok (t', ⟨bytes, p + size t⟩) := by
  subst hbytes hp
  have hread := Tags.readsAs_wire h pre suf
  rw [Tags.length_wire h] at hread
  exact ⟨t.decoded, t.decoded_equal, hread⟩

/-- What `encode_prefix` has written is the documented prefix. -/
lemma prefixBytes_isPrefixImage (hversion : header.version = currentVersion)
    (hm : metadata.Fits) (ht : tags.Fits) (hholds : layout.Holds (size metadata) (size tags)) :
    IsPrefixImage header metadata tags layout (prefixBytes header metadata tags layout) := by
  obtain ⟨hmetaSection, htagSection⟩ := length_sections hm ht hholds
  have hheader : header.wire.length = headerSize := ObjectHeader.length_wire header
  have hlength : (prefixBytes header metadata tags layout).length = layout.contentStart.toNat :=
    length_prefixBytes header hm ht hholds
  have hspaces : headerSize + layout.metadataSpace = layout.tagsStart.toNat := by
    have hle := hholds.metadata_le
    unfold SectionLayout.metadataSpace
    omega
  constructor
  case length_eq => exact hlength
  case header_eq =>
    have htake : (prefixBytes header metadata tags layout).take headerSize = header.wire := by
      rw [← List.append_nil (prefixBytes header metadata tags layout)]
      exact take_headerSize_prefixBytes header []
    rw [htake, ← List.append_nil header.wire]
    exact ObjectHeader.readFromBytes_wire header hversion []
  case metadata_eq =>
    have hbytes : prefixBytes header metadata tags layout = header.wire ++ metadata.wire ++
        (List.replicate (layout.metadataSpace - metadata.wire.length) 0 ++
          padded tags.wire layout.tagsSpace) := by
      simp only [prefixBytes, padded, List.append_assoc]
    exact Tags.reads_within hm hbytes hheader
  case tags_eq =>
    have hbytes : prefixBytes header metadata tags layout =
        (header.wire ++ padded metadata.wire layout.metadataSpace) ++ tags.wire ++
          List.replicate (layout.tagsSpace - tags.wire.length) 0 := by
      simp only [prefixBytes, padded, List.append_assoc]
    refine Tags.reads_within ht hbytes ?_
    rw [List.length_append, hheader, hmetaSection, hspaces]
  case padding_eq =>
    intro p hfront hend hmetadata htags
    rw [prefixBytes, List.getElem?_append_right (by omega), hheader]
    by_cases hsection : p < layout.tagsStart.toNat
    · rw [List.getElem?_append_left (by omega)]
      exact getElem?_padded (by rw [Tags.length_wire hm]; omega) (by omega)
    · rw [List.getElem?_append_right (by omega), hmetaSection]
      refine getElem?_padded (by rw [Tags.length_wire ht]; omega) ?_
      unfold SectionLayout.tagsSpace
      omega

/-- In a layout in order `encode_prefix` returns a prefix exactly when both sections have room and
are within the limits of the format. It never fails for want of room in its buffer, and what it
returns is the documented prefix. -/
theorem encode_prefix_image (hversion : header.version = currentVersion)
    (hheader : headerSize ≤ layout.tagsStart.toNat)
    (htags : layout.tagsStart.toNat ≤ layout.contentStart.toNat) (metadata : MetadataMap)
    (tags : Tags String) :
    ((∃ bytes, encodePrefix header metadata tags layout = .ok bytes) ↔
      size metadata ≤ layout.metadataSpace ∧ size tags ≤ layout.tagsSpace ∧
      (metadata.WithinLimits fun key => (Http.asStr key.name).length) ∧
      tags.WithinLimits fun key => (asBytes key).length) ∧
    (∀ e, encodePrefix header metadata tags layout = .error e → ¬ e.IsIo) ∧
    ∀ bytes, encodePrefix header metadata tags layout = .ok bytes →
      IsPrefixImage header metadata tags layout bytes := by
  refine ⟨?_, fun e => encodePrefix_error_not_isIo hheader htags, fun bytes hencode => ?_⟩
  · have hmfits : metadata.Fits ↔ metadata.WithinLimits fun key => (Http.asStr key.name).length :=
      Tags.fits_iff_withinLimits (fun _ => Iff.rfl) metadata
    have htfits : tags.Fits ↔ tags.WithinLimits fun key => (asBytes key).length :=
      Tags.fits_iff_withinLimits (fun _ => Iff.rfl) tags
    simp only [encodePrefix_eq_ok_iff hheader htags, SectionLayout.holds_iff hheader htags,
      ← hmfits, ← htfits]
    constructor
    · rintro ⟨_, hm, ht, ⟨hmroom, htroom⟩, _⟩
      exact ⟨hmroom, htroom, hm, ht⟩
    · rintro ⟨hmroom, htroom, hm, ht⟩
      exact ⟨_, hm, ht, ⟨hmroom, htroom⟩, rfl⟩
  · obtain ⟨hm, ht, hholds, rfl⟩ := (encodePrefix_eq_ok_iff hheader htags bytes).mp hencode
    exact prefixBytes_isPrefixImage hversion hm ht hholds

end

attribute [local instance] fullPlatform

/-- A flag behind an empty metadata section that has six bytes to spare. -/
theorem encode_prefix_image_oneFlag :
    ∃ bytes, encodePrefix (headerOf .none ⟨40, 64⟩ 0) Tags.new (Tags.new.insert "a" (.bool true))
        ⟨40, 64⟩ = .ok bytes ∧
      IsPrefixImage (headerOf .none ⟨40, 64⟩ 0) Tags.new (Tags.new.insert "a" (.bool true))
        ⟨40, 64⟩ bytes := by
  have hok : (encodePrefix (headerOf .none ⟨40, 64⟩ 0) Tags.new
      (Tags.new.insert "a" (.bool true)) ⟨40, 64⟩).isOk = true := by decide +kernel
  cases hencode : encodePrefix (headerOf .none ⟨40, 64⟩ 0) Tags.new
      (Tags.new.insert "a" (.bool true)) ⟨40, 64⟩ with
  | error e =>
      rw [hencode] at hok
      cases hok
  | ok bytes =>
      have hversion : (headerOf .none ⟨40, 64⟩ 0).version = currentVersion := rfl
      have hheader : headerSize ≤ (SectionLayout.mk 40 64).tagsStart.toNat := by decide
      have htags : (SectionLayout.mk 40 64).tagsStart.toNat ≤
          (SectionLayout.mk 40 64).contentStart.toNat := by decide
      exact ⟨bytes, rfl, (encode_prefix_image hversion hheader htags _ _).2.2 bytes hencode⟩

end TuxEncoding
