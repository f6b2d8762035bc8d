import TuxEncoding.Codec.Chrono
import TuxEncoding.Codec.Containers
import TuxEncoding.Codec.FromBytes
import TuxEncoding.Codec.Measure

/-!
# Skipping

`ReadableObjectType::skip` against `read_from_reader`, for every type that implements the trait:
whether skipping a value leaves the reader where reading it does.

* `skipLands_of_default`: the default reads the value and drops it, so it does.
* `String.skipLands`, `Uuid.skipLands`: these two seek on from where they are.
* `ObjectHeader.skipLands_iff`: a header seeks to byte 32 of the file, which is behind it only where
  it stands at the start.
-/

namespace TuxEncoding

open Bytes Chrono

set_option linter.unusedSectionVars false

/-! ## What is asked -/

section

variable (α : Type) [TuxIOType α] [ReadableObjectType α]

/-- If a value is read at the cursor, skipping there succeeds, and stops where reading stops. -/
def SkipLands (c : Cursor) : Prop :=
  ∀ (a : α) c', readFromReader c = .ok (a, c') → ReadableObjectType.skip α c = .ok ((), c')

variable {α}

/-- The default of the trait. -/
lemma skipLands_of_default
    (h : ReadableObjectType.skip α = (do let _ ← (readFromReader : Decoder α))) (c : Cursor) :
    SkipLands α c := by
  intro a c' hread
  rw [h, bind_of_ok hread]
  rfl

/-- A type of one width that seeks by its width. -/
lemma skipLands_of_seek {n : ℕ} (htakes : TakesExactly n (readFromReader : Decoder α))
    (h : ReadableObjectType.skip α = modify fun c => { c with pos := c.pos + n }) (c : Cursor) :
    SkipLands α c := by
  intro a c' hread
  obtain ⟨_, rfl, rfl⟩ := htakes c a c' hread
  rw [h]
  rfl

end

/-! ## The types that seek -/

lemma Uuid.skipLands (c : Cursor) : SkipLands Uuid c := skipLands_of_seek takes_uuid rfl c

/-- The length prefix says how far the text reaches. -/
lemma String.skipLands (c : Cursor) : SkipLands String c := by
  intro s c' hread
  obtain ⟨length, c₁, hlength, hread⟩ := bind_eq_ok hread
  obtain ⟨buffer, c₂, hbuffer, htext⟩ := bind_eq_ok hread
  obtain ⟨n, rfl, rfl⟩ := takes_readExact _ _ _ _ hbuffer
  have hend : c' = ⟨c₁.bytes, c₁.pos + n⟩ := by
    cases hs : fromUtf8 buffer with
    | none =>
        rw [hs] at htext
        cases htext
    | some s' =>
        rw [hs] at htext
        cases htext
        rfl
  rw [hend]
  exact bind_of_ok hlength

/-- A header seeks to the same byte wherever it stands. -/
lemma ObjectHeader.skipLands_iff (c : Cursor) :
    SkipLands ObjectHeader c ↔ (Decodes ObjectHeader c → c.pos = 0) := by
  constructor
  · rintro hskip ⟨header, c', hread⟩
    obtain ⟨_, rfl, rfl⟩ := takes_header c header c' hread
    have hpos := congrArg (fun p => p.2.pos) (Except.ok.inj (hskip header _ hread))
    have heq : 32 = c.pos + 32 := hpos
    omega
  · intro hstart header c' hread
    have hzero := hstart ⟨header, c', hread⟩
    obtain ⟨_, rfl, rfl⟩ := takes_header c header c' hread
    rw [hzero]
    rfl

/-! ## The types that can be read -/

section readable

variable [Http] [HashOrder String] [HashOrder MetaKey] [Chrono]

/-- The types that implement `ReadableObjectType`: the containers over whatever they can contain. -/
inductive ReadableType : Type 1
  | number (α : Type) [Number α]
  | bool
  | byteArray (n : ℕ)
  | vec (α : Type) [TuxIOType α] [ReadableObjectType α]
  | bytes
  | string
  | hashSet (α : Type) [DecidableEq α] [TuxIOType α] [ReadableObjectType α]
  | option (α : Type) [TuxIOType α] [ReadableObjectType α]
  | hashMap (K V : Type) [DecidableEq K] [TuxIOType K] [TypedObjectType K] [ReadableObjectType K]
      [TuxIOType V] [TypedObjectType V] [ReadableObjectType V]
  | rawDate
  | rawTime
  | rawTimeZone
  | rawDateTime
  | naiveDate
  | naiveTime
  | fixedOffset
  | dateTimeFixed
  | uuid
  | metaKey
  | value
  | tags
  | metadata
  | noCompression
  | zstd
  | gzip
  | compressionTypes
  | header

namespace ReadableType

/-- A type with the two traits of reading. -/
structure Reader where
  Carrier : Type
  tuxIO : TuxIOType Carrier
  readable : ReadableObjectType Carrier

def Reader.of (α : Type) [TuxIOType α] [ReadableObjectType α] : Reader := ⟨α, _, inferInstance⟩

def reader : ReadableType → Reader
  | number α => .of α
  | bool => .of Bool
  | byteArray n => .of (FixedBytes n)
  | vec α => .of (List α)
  | bytes => .of CrateBytes
  | string => .of String
  | hashSet α => .of (HashSet α)
  | option α => .of (Option α)
  | hashMap K V => .of (TypedMap K V)
  | rawDate => .of RawDate
  | rawTime => .of RawTime
  | rawTimeZone => .of RawTimeZone
  | rawDateTime => .of RawDateTime
  | naiveDate => .of NaiveDate
  | naiveTime => .of NaiveTime
  | fixedOffset => .of FixedOffset
  | dateTimeFixed => .of DateTimeFixed
  | uuid => .of Uuid
  | metaKey => .of MetaKey
  | value => .of ValueType
  | tags => .of (Tags String)
  | metadata => .of MetadataMap
  | noCompression => .of NoCompression
  | zstd => .of ZStdCompressionType
  | gzip => .of GzipCompressionType
  | compressionTypes => .of CompressionTypes
  | header => .of ObjectHeader

instance (r : Reader) : TuxIOType r.Carrier := r.tuxIO
instance (r : Reader) : ReadableObjectType r.Carrier := r.readable

/-- Whatever starts at the cursor, skipping it stops where reading it does. -/
def Lands (t : ReadableType) (c : Cursor) : Prop := SkipLands t.reader.Carrier c

/-- A value of the type is read at the cursor. -/
def Reads (t : ReadableType) (c : Cursor) : Prop := Decodes t.reader.Carrier c

end ReadableType

/-- Skipping stops where reading does, except for a header that does not stand at the start. -/
theorem skip_lands_iff (t : ReadableType) (c : Cursor) :
    t.Lands c ↔ (t.Reads c → t ≠ .header ∨ c.pos = 0) := by
  have hdefault : ∀ {t : ReadableType}, t ≠ .header →
      ReadableObjectType.skip t.reader.Carrier = (do
        let _ ← (readFromReader : Decoder t.reader.Carrier)) →
      (t.Lands c ↔ (t.Reads c → t ≠ .header ∨ c.pos = 0)) := fun ht h =>
    iff_of_true (skipLands_of_default h c) fun _ => Or.inl ht
  cases t with
  | header =>
      show SkipLands ObjectHeader c ↔ (Decodes ObjectHeader c → _)
      rw [ObjectHeader.skipLands_iff]
      simp
  | string => exact iff_of_true (String.skipLands c) fun _ => Or.inl (by simp)
  | uuid => exact iff_of_true (Uuid.skipLands c) fun _ => Or.inl (by simp)
  | _ => exact hdefault (by simp) rfl

end readable

/-- A header of an empty object that stands behind one other byte. -/
def headerAtOne : Cursor :=
  ⟨0 :: ObjectHeader.wire ⟨currentVersion, .none, 0, 0, 0, 0⟩, 1⟩

/-- Skipping a header that stands at 1 stops at 32, one byte before its end. -/
theorem not_skipLands_headerAtOne : ¬ ∀ c, SkipLands ObjectHeader c := by
  intro h
  have hread : (readFromReader : Decoder ObjectHeader) headerAtOne =
      .ok (⟨currentVersion, .none, 0, 0, 0, 0⟩, ⟨headerAtOne.bytes, 33⟩) := by
    decide +kernel
  have hpos := congrArg (fun p => p.2.pos) (Except.ok.inj (h headerAtOne _ _ hread))
  have heq : 32 = 33 := hpos
  omega

end TuxEncoding
