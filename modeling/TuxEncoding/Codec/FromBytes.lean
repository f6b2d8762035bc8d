import TuxEncoding.Codec.Async
import TuxEncoding.Codec.Header
import TuxEncoding.Codec.Tags

/-!
# Decoding from a byte slice

`ReadableObjectType::read_from_bytes` of the types that do not take the default, which cut their
fields out of a slice by index, and the payloads of `CompressionTypes`, which are read in no other
way.

* A `Sliced` computation returns, fails or panics: an index out of bounds is a panic and not an
  error.
* `OverridesReadFromBytes` is the trait method where it is overridden.
-/

namespace TuxEncoding

open Bytes

/-! ## Slices -/

/-- What code that indexes into a slice can do: `none` is a panic. -/
abbrev Sliced (α : Type) := ExceptT EncodingError Option α

/-- A panic. -/
def outOfBounds {α : Type} : Sliced α := (none : Option (Except EncodingError α))

/-- `bytes[lo..hi]` -/
def sliced (bytes : List UInt8) (lo hi : ℕ) : Sliced (List UInt8) :=
  if lo ≤ hi ∧ hi ≤ bytes.length then pure ((bytes.take hi).drop lo) else outOfBounds

/-- `bytes[i]` -/
def indexed (bytes : List UInt8) (i : ℕ) : Sliced UInt8 :=
  match bytes[i]? with
  | some b => pure b
  | none => outOfBounds

/-- `.try_into().map_err(|_| EncodingError::UnexpectedEof)?` into an array of `n` bytes. -/
def tryIntoArray (n : ℕ) (bytes : List UInt8) : Sliced (List UInt8) :=
  if bytes.length = n then pure bytes else throw .unexpectedEof

/-- An `Option` or a `Result` of code that does not index. -/
def ofExcept {α : Type} (r : Except EncodingError α) : Sliced α := some r

/-- `read_from_bytes`, where it is not the default. -/
class OverridesReadFromBytes (α : Type) where
  readFromBytes : List UInt8 → Sliced α

/-! ## Numbers and strings -/

instance {α : Type} [Number α] : OverridesReadFromBytes α where
  readFromBytes bytes := do
    let slice ← sliced bytes 0 (Number.width α)
    let bytes ← tryIntoArray (Number.width α) slice
    return Number.fromLeBytes bytes

/-- `Ok(String::from_utf8(buffer)?)` -/
def textOf (buffer : List UInt8) : Except EncodingError String :=
  match fromUtf8 buffer with
  | some s => .ok s
  | none => .error .invalidUtf8

instance : OverridesReadFromBytes String where
  readFromBytes bytes := do
    let lengthBytes ← sliced bytes 0 2
    let length : UInt16 ← OverridesReadFromBytes.readFromBytes lengthBytes
    if bytes.length < length.toNat + 2 then throw .unexpectedEof
    let buffer ← sliced bytes 2 (length.toNat + 2)
    ofExcept (textOf buffer)

/-- `HeaderName::from_bytes(&content).map(MetaKey::from).map_err(EncodingError::other)` -/
def metaKeyOf [Http] (content : List UInt8) : Except EncodingError MetaKey :=
  match Http.fromBytes content with
  | some name => .ok ⟨name⟩
  | none => .error .otherDecodingError

/-- `Vec::<u8>::read_from_bytes` is the default. -/
instance [Http] : OverridesReadFromBytes MetaKey where
  readFromBytes bytes := do
    let content ← ofExcept (readFromBytes bytes : Except EncodingError (List UInt8))
    ofExcept (metaKeyOf content)

/-! ## Compression types -/

/-- `ZStdCompressionType`, with its level. -/
structure ZStdCompressionType where
  level : Int32
  deriving DecidableEq

/-- `GzipCompressionType`, with its level. -/
structure GzipCompressionType where
  level : UInt32
  deriving DecidableEq

/-- `NoCompression` -/
structure NoCompression where
  deriving DecidableEq

/-- What `read_from_bytes` of the three payloads has in common: five bytes are left, and the first
is the discriminator. -/
def checkDiscriminator (discriminator : UInt8) (bytes : List UInt8) : Sliced Unit := do
  if bytes.length < 5 then throw .unexpectedEof
  let found ← indexed bytes 0
  if found ≠ discriminator then throw (.invalidCompressionType found)

/-- The level behind the discriminator. -/
def readLevel {α : Type} [Number α] (bytes : List UInt8) : Sliced α := do
  let slice ← sliced bytes 1 5
  let array ← tryIntoArray 4 slice
  return Number.fromLeBytes array

instance : OverridesReadFromBytes ZStdCompressionType where
  readFromBytes bytes := do
    checkDiscriminator 1 bytes
    let level ← readLevel bytes
    return ⟨level⟩

instance : OverridesReadFromBytes GzipCompressionType where
  readFromBytes bytes := do
    checkDiscriminator 2 bytes
    let level ← readLevel bytes
    return ⟨level⟩

instance : OverridesReadFromBytes NoCompression where
  readFromBytes bytes := do
    checkDiscriminator 0 bytes
    return {}

/-- `CompressionTypes::try_from` on an array of five bytes. -/
def CompressionTypes.tryFromArray (value : List UInt8) : Sliced CompressionTypes := do
  match ← indexed value 0 with
  | 0 => return .none
  | 1 =>
      let payload : ZStdCompressionType ← OverridesReadFromBytes.readFromBytes value
      return .zstd payload.level
  | 2 =>
      let payload : GzipCompressionType ← OverridesReadFromBytes.readFromBytes value
      return .gzip payload.level
  | other => throw (.invalidCompressionType other)

/-- `CompressionTypes::try_from` on a slice. -/
def CompressionTypes.tryFromSlice (value : List UInt8) : Sliced CompressionTypes := do
  if value.length < 5 then throw .unexpectedEof
  let slice ← sliced value 0 5
  let array ← tryIntoArray 5 slice
  tryFromArray array

/-- `read_from_bytes` has the body of `try_from` on a slice. -/
instance : OverridesReadFromBytes CompressionTypes where
  readFromBytes bytes := do
    if bytes.length < 5 then throw .unexpectedEof
    let slice ← sliced bytes 0 5
    let buffer ← tryIntoArray 5 slice
    CompressionTypes.tryFromArray buffer

/-! ## The header -/

/-- `header_entry` -/
def ObjectHeader.entryOfSlice (entry : List UInt8) : Sliced UInt8 := do
  let magic ← sliced entry 0 3
  if magic ≠ magicValue then throw .invalidMagic
  indexed entry 3

instance : OverridesReadFromBytes ObjectHeader where
  readFromBytes content := do
    if content.length < 32 then throw .unexpectedEof
    let entry ← sliced content 0 4
    let version ← ObjectHeader.entryOfSlice entry
    if version ≠ currentVersion then throw (.unsupportedVersion version)
    let compressionTypeBytes ← sliced content 4 9
    let compressionType ← CompressionTypes.tryFromSlice compressionTypeBytes
    let tagsStart ← sliced content 9 11
    let tagsStart ← tryIntoArray 2 tagsStart
    let contentStart ← sliced content 11 15
    let contentStart ← tryIntoArray 4 contentStart
    let contentLength ← sliced content 15 23
    let contentLength ← tryIntoArray 8 contentLength
    let bitFlags ← indexed content 23
    return {
      version := version
      compressionType := compressionType
      tagsStart := Number.fromLeBytes tagsStart
      contentStart := Number.fromLeBytes contentStart
      contentLength := Number.fromLeBytes contentLength
      bitFlags := bitFlags
    }

/-! ## Reading the compression types -/

/-- A payload is read off a reader as it is decoded from the five bytes. -/
def readPayload {α : Type} (discriminator : UInt8) (payload : List UInt8 → α) : Decoder α := do
  let buffer ← readExact 5
  if buffer.headD 0 ≠ discriminator then throw (.invalidCompressionType (buffer.headD 0))
  return payload buffer

instance : TuxIOType ZStdCompressionType where
  constSize _ := some 5
  size _ := 5

instance : ReadableObjectType ZStdCompressionType where
  readSize := pure 5
  readFromReader := readPayload 1 fun buffer =>
    ⟨Number.fromLeBytes ((buffer.drop 1).take 4)⟩

instance : TuxIOType GzipCompressionType where
  constSize _ := some 5
  size _ := 5

instance : ReadableObjectType GzipCompressionType where
  readSize := pure 5
  readFromReader := readPayload 2 fun buffer =>
    ⟨Number.fromLeBytes ((buffer.drop 1).take 4)⟩

instance : TuxIOType NoCompression where
  constSize _ := some 5
  size _ := 5

instance : ReadableObjectType NoCompression where
  readSize := pure 5
  readFromReader := readPayload 0 fun _ => {}

instance : ReadableObjectType CompressionTypes where
  readSize := pure 5
  readFromReader := do
    let buffer ← readExact 5
    liftM (CompressionTypes.tryFrom buffer)

end TuxEncoding
