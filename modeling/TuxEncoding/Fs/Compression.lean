import TuxEncoding.Fs.Writer

/-!
# `ContentEncoder`

`src/fs/compression.rs`: the encoder that compresses content on its way into a writer, and
`ObjectWriter::content_encoder` that hands it out.

The codec crates are a parameter. `Codecs` says which bytes a streaming encoder hands down at each
of its calls and how many it takes from the buffer it is given; which bytes these are is arbitrary.
The encoder hands bytes down with `write_all`, and a call that fails leaves the encoder as it was,
for its destructor.
-/

namespace TuxEncoding

open Interaction Program

/-- The streaming encoders of the codec crates. -/
class Codecs where
  /-- What an encoder keeps between two calls. -/
  Encoder : Type
  /-- `Encoder::new(writer, level)` and `GzEncoder::new(writer, level)` -/
  new : CompressionTypes → Except IoError Encoder
  /-- `Write::write`: the bytes handed down, the number of bytes taken and the encoder after it -/
  write : Encoder → List UInt8 → List UInt8 × ℕ × Encoder
  /-- `Write::flush` -/
  flush : Encoder → List UInt8 × Encoder
  finish : Encoder → List UInt8
  /-- The bytes that the destructor of an encoder still hands down. -/
  drop : Encoder → List UInt8
  /-- What a decoder makes of the whole stored content. -/
  decode : CompressionTypes → List UInt8 → Except IoError (List UInt8)

/-- A codec that packs pairs of equal bytes into one: enough of a codec to store fewer bytes than it
takes. It keeps back what it is fed until it is finished. -/
@[reducible] def pairCodecs : Codecs where
  Encoder := List UInt8
  new _ := .ok []
  write held buf := ([], buf.length, held ++ buf)
  flush held := ([], held)
  finish := pack
  drop _ := []
  decode _ bs := .ok (unpack bs)
where
  pack : List UInt8 → List UInt8
    | a :: b :: rest => if a = b then 1 :: a :: pack rest else 0 :: a :: pack (b :: rest)
    | [a] => [0, a]
    | [] => []
  unpack : List UInt8 → List UInt8
    | 1 :: a :: rest => a :: a :: unpack rest
    | _ :: a :: rest => a :: unpack rest
    | _ => []

variable [Platform] [Codecs]

/-- `uncompressed_length_key` -/
def uncompressedLengthKey : MetaKey := ⟨Http.uncompressedLength⟩

/-- `ContentEncoder`, less the writer it borrows; `ZSTD` and `Gzip` differ in their codec only. -/
inductive ContentEncoder
  | stored (uncompressedLength : UInt64)
  | coded (encoder : Codecs.Encoder) (uncompressedLength : UInt64)

namespace ObjectWriter

/-- `self.allow_raw_writes = true` -/
@[simps] def openRawWrites (self : ObjectWriter) : ObjectWriter :=
  { self with allowRawWrites := true }

/-- `self.metadata_mut().insert(uncompressed_length_key(), length.into())` -/
@[simps] def recordLength (length : UInt64) (self : ObjectWriter) : ObjectWriter :=
  { self with metadata := self.metadata.insert uncompressedLengthKey (.u64 length) }

end ObjectWriter

namespace ContentEncoder

/-- `ContentEncoder::new` -/
def new (compression : CompressionTypes) : Except ObjectFileError ContentEncoder := do
  ensureSupported compression
  match compression with
  | .none => return .stored 0
  | compression =>
      match Codecs.new compression with
      | .ok encoder => return .coded encoder 0
      | .error err => throw (.io err)

/-- Content bytes fed in so far, before compression. -/
def uncompressedLength : ContentEncoder → UInt64
  | stored length | coded _ length => length

def record (written : ℕ) : ContentEncoder → ContentEncoder
  | stored length => stored (length + UInt64.ofNat written)
  | coded encoder length => coded encoder (length + UInt64.ofNat written)

/-- `Write::write for ContentEncoder` -/
def write (self : ContentEncoder) (buf : List UInt8) : IoMethod ObjectWriter (ℕ × ContentEncoder) :=
  match self with
  | stored length => do
      let written ← ObjectWriter.write buf
      return (written, (stored length).record written)
  | coded encoder length => do
      let (bytes, written, encoder) := Codecs.write encoder buf
      ObjectWriter.writeAll bytes
      return (written, (coded encoder length).record written)

/-- `Write::flush for ContentEncoder` -/
def flush (self : ContentEncoder) : IoMethod ObjectWriter ContentEncoder :=
  match self with
  | stored length => do
      ObjectWriter.flush
      return stored length
  | coded encoder length => do
      let (bytes, encoder) := Codecs.flush encoder
      ObjectWriter.writeAll bytes
      ObjectWriter.flush
      return coded encoder length

/-- What the destructor does: whatever the codec still hands down, its failure being ignored. -/
def drop {ε : Type} (self : ContentEncoder) : Method FsCall.Reply ε ObjectWriter Unit :=
  match self with
  | stored _ => pure ()
  | coded encoder _ => do
      let _ ← Method.result (ObjectWriter.writeAll (Codecs.drop encoder))

/-- `encoder.finish().map_err(ObjectFileError::IO)?` -/
def finishCodec (self : ContentEncoder) : FsMethod ObjectWriter Unit :=
  match self with
  | stored _ => pure ()
  | coded encoder length => do
      match ← Method.result (ObjectWriter.writeAll (Codecs.finish encoder)) with
      | .ok () => pure ()
      | .error err => do
          (coded encoder length).drop
          throw (.io err)

/-- `ContentEncoder::finish`: flushes the codec and records the uncompressed length in the object's
metadata. -/
def finish (self : ContentEncoder) : FsMethod ObjectWriter UInt64 := do
  finishCodec self
  Method.adapt .io ObjectWriter.flush
  let writer ← get
  if UInt64.ofNat writer.contentLength ≠ self.uncompressedLength then
    modify (ObjectWriter.recordLength self.uncompressedLength)
  return self.uncompressedLength

end ContentEncoder

/-- `ObjectWriter::content_encoder` -/
def ObjectWriter.contentEncoder : FsMethod ObjectWriter ContentEncoder := do
  let self ← get
  modify openRawWrites
  orReturn (ContentEncoder.new self.compression)

/-! ## Sessions -/

/-- What a caller does with an encoder before it finishes or drops it. -/
inductive Feed
  | write (buf : List UInt8)
  | flush
  deriving DecidableEq

namespace ContentEncoder

/-- Do one thing with an encoder. -/
def feed (self : ContentEncoder) : Feed → IoMethod ObjectWriter ContentEncoder
  | .write buf => do
      let (_, encoder) ← self.write buf
      return encoder
  | .flush => self.flush

/-- Feed an encoder and then finish or drop it; it is dropped at the first error. -/
def session (finished : Bool) : List Feed → ContentEncoder → FsMethod ObjectWriter UInt64
  | [], self =>
      if finished then self.finish
      else do
        self.drop
        return self.uncompressedLength
  | feed :: feeds, self => do
      match ← Method.result (self.feed feed) with
      | .ok encoder => session finished feeds encoder
      | .error err => do
          self.drop
          throw (.io err)

end ContentEncoder

/-- A whole session of `content_encoder`. -/
def ObjectWriter.encode (feeds : List Feed) (finished : Bool) : FsMethod ObjectWriter UInt64 := do
  let encoder ← contentEncoder
  encoder.session finished feeds

end TuxEncoding
