import TuxEncoding.Fs.World
import TuxEncoding.Fs.Image
import Mathlib.Tactic.Simps.Basic

/-!
# `ObjectWriter` and `AsyncObjectWriter`

`src/fs/writer.rs` and the writer of `src/fs/async_io.rs`, as programs that call the file system.
The two writers differ in the places that take a `Flavor`: the tokio writer accepts uncompressed
objects only, it has no guard against raw writes, its `copy` flushes at the end, and its content
goes through a `tokio::fs::File`. Everything else is written once.

`File::write` of tokio takes a part of the buffer, returns, and writes it in the background; an
error that comes of it is kept and returned by the next `write` or `flush` (`bufferedWrite`,
`bufferedFlush`). Every other method of the file waits for the write, and the writer calls them only
behind a flush, so it makes no difference when in between the bytes reach the file, and the model
writes them at once.

A writer that is consumed runs its destructor on whatever is left of it, which `consume` and
`holding` do at the places where the source drops a value. A future that is dropped while it waits
for a call runs the same destructors on what it holds by then, which may be less than a call that
fails there leaves behind: the call itself still takes effect.
-/

namespace TuxEncoding

open Bytes Interaction Program

variable [Platform]

/-- A function of the file layer. -/
abbrev Fs := Fallible FsCall.Reply ObjectFileError

/-- A method of the file layer. -/
abbrev FsMethod (σ : Type) := Method FsCall.Reply ObjectFileError σ

/-- A method of an implementation of `std::io::Read` or `std::io::Write`. -/
abbrev IoMethod (σ : Type) := Method FsCall.Reply IoError σ

/-- One call to the environment. -/
abbrev sys (c : FsCall) : Program FsCall.Reply c.Reply := request c

/-- `call?` in a function that returns an `ObjectFileError`. -/
def attemptIo {α : Type} (call : Program FsCall.Reply (Except IoError α)) : Fs α :=
  attempt .io call

/-- `result?` of a computation that makes no call. -/
abbrev orReturn {α : Type} (result : Except ObjectFileError α) : Fs α := Fallible.ofExcept result

/-- The blocking writer or the tokio one. -/
inductive Flavor
  | blocking
  | tokio
  deriving DecidableEq

/-! ## Options and state -/

structure CreateOptions where
  metadata : MetadataMap
  tags : Tags String
  layout : LayoutOptions
  compression : CompressionTypes
  sync : Bool

/-- `CreateOptions::default` -/
def CreateOptions.default : CreateOptions where
  metadata := Tags.new
  tags := Tags.new
  layout := LayoutOptions.default
  compression := .none
  sync := false

structure ObjectWriter where
  file : Fd
  tempPath : Option Path
  finalPath : Path
  layout : SectionLayout
  layoutOptions : LayoutOptions
  compression : CompressionTypes
  metadata : MetadataMap
  tags : Tags String
  contentLength : ℕ
  sync : Bool
  allowRawWrites : Bool
  /-- the error that the file of a tokio writer keeps for the next call -/
  deferred : Option IoError

/-- A complete object on the file system. -/
structure TuxObject where
  file : Fd
  path : Path
  header : ObjectHeader
  metadata : MetadataMap
  writable : Bool

/-- `DEFAULT_REWRITE_RESERVE` -/
def defaultRewriteReserve : ℕ := 256

/-- `is_supported`: whether this build can read and write the compression type. -/
def isSupported : CompressionTypes → Bool
  | .none => true
  | .zstd _ => Platform.zstd
  | .gzip _ => Platform.gzip

def ensureSupported (compression : CompressionTypes) : Except ObjectFileError Unit :=
  if isSupported compression then .ok () else .error (.unsupportedCompression compression)

/-! ## Temporary files -/

/-- `format!(".{stem}.{pid}.{counter}.tuxtmp")` -/
def tempName (stem : List Char) (pid counter : ℕ) : List Char :=
  '.' :: stem ++ '.' :: Nat.toDigits 10 pid ++ '.' :: Nat.toDigits 10 counter ++ ".tuxtmp".toList

/-- The loop of `create_temp_file`, with `n` tries to go. -/
def tryNames (parent stem : List Char) (pid : ℕ) : ℕ → Fs (Fd × Path)
  | 0 => throw (.io ⟨.alreadyExists, "could not find an unused temporary file name"⟩)
  | n + 1 => do
      let counter ← sys .nextTempCounter
      let candidate : Path := ⟨some parent, some (tempName stem pid counter)⟩
      match ← sys (.createNew candidate) with
      | .ok file => return (file, candidate)
      | .error err =>
          if err.kind = .alreadyExists then tryNames parent stem pid n else throw (.io err)

/-- `create_temp_file`: a uniquely named temp file next to `finalPath`. -/
def createTempFile (finalPath : Path) : Fs (Fd × Path) := do
  let parent := finalPath.parent.getD ['.']
  let stem := finalPath.fileName.getD "object".toList
  let pid ← sys .processId
  tryNames parent stem pid 32

/-! ## Writing to a file -/

/-- How many bytes a `tokio::fs::File` takes at once. -/
def maxBufSize : ℕ := 2 * 1024 * 1024

/-- The error of a call, if it has failed. -/
def errorOf {ε α : Type} : Except ε α → Option ε
  | .ok _ => none
  | .error err => some err

/-- The error of `write_all` when `write` takes nothing. -/
def writeZero : Flavor → IoError
  | .blocking => ⟨.writeZero, "failed to write whole buffer"⟩
  | .tokio => ⟨.writeZero, "write zero"⟩

namespace ObjectWriter

/-! ### What the methods change in the writer -/

/-- `self.layout = layout` -/
@[simps] def setLayout (layout : SectionLayout) (self : ObjectWriter) : ObjectWriter :=
  { self with layout := layout }

/-- `self.content_length += written as u64` -/
@[simps] def addLength (written : ℕ) (self : ObjectWriter) : ObjectWriter :=
  { self with contentLength := self.contentLength + written }

/-- `self.temp_path.take()` -/
@[simps] def takeTempPath (self : ObjectWriter) : ObjectWriter := { self with tempPath := none }

/-- `std::mem::take(&mut self.metadata)` and `std::mem::take(&mut self.tags)` -/
@[simps] def takeSections (self : ObjectWriter) : ObjectWriter :=
  { self with metadata := Tags.new, tags := Tags.new }

/-- The file of a tokio writer keeps an error, or has handed it out. -/
@[simps] def setDeferred (deferred : Option IoError) (self : ObjectWriter) : ObjectWriter :=
  { self with deferred := deferred }

/-! ## Creating and dropping -/

/-- `Drop for ObjectWriter` -/
def drop (self : ObjectWriter) : Program FsCall.Reply Unit :=
  match self.tempPath with
  | some tempPath => do let _ ← sys (.removeFile tempPath)
  | none => pure ()

/-- `ObjectWriter::create` and `AsyncObjectWriter::create`. -/
def createAs (flavor : Flavor) (path : Path) (options : CreateOptions) : Fs ObjectWriter := do
  orReturn (ensureSupported options.compression)
  if flavor = .tokio ∧ ¬ options.compression.isNone then
    throw (.unsupportedCompression options.compression)
  let layout ← orReturn (options.layout.checkedCompute (size options.metadata) (size options.tags))
  let (file, tempPath) ← createTempFile path
  let writer : ObjectWriter := {
    file := file
    tempPath := some tempPath
    finalPath := path
    layout := layout
    layoutOptions := options.layout
    compression := options.compression
    metadata := options.metadata
    tags := options.tags
    contentLength := 0
    sync := options.sync
    allowRawWrites := options.compression.isNone
    deferred := none
  }
  let ((), writer) ← holding drop
    (liftM (attemptIo (sys (.seek file layout.contentStart.toNat))) : FsMethod _ Unit) writer
  return writer

/-! ## Writing content -/

def rawWriteRejected : IoError :=
  ⟨.other, "this object declares a compression codec; write its content through " ++
    "ObjectWriter::content_encoder"⟩

/-- `Write::write for ObjectWriter` -/
def write (buf : List UInt8) : IoMethod ObjectWriter ℕ := do
  let self ← get
  if ¬ self.allowRawWrites then throw rawWriteRejected
  let written ← (attempt id (sys (.write self.file buf)) : Fallible FsCall.Reply IoError ℕ)
  modify (addLength written)
  return written

/-- `Write::flush for ObjectWriter` -/
def flush : IoMethod ObjectWriter Unit := do
  let self ← get
  (attempt id (sys (.flush self.file)) : Fallible FsCall.Reply IoError Unit)

/-- `AsyncWrite::poll_write for AsyncObjectWriter`: the file returns the error of the write before,
or takes a part of the buffer. -/
def bufferedWrite (buf : List UInt8) : IoMethod ObjectWriter ℕ := do
  let self ← get
  match self.deferred with
  | some err => do
      modify (setDeferred none)
      throw err
  | none => do
      let chunk := buf.take maxBufSize
      let stored ← sys (.writeAll self.file chunk)
      modify (setDeferred (errorOf stored))
      modify (addLength chunk.length)
      return chunk.length

/-- `AsyncWrite::poll_flush for AsyncObjectWriter`, which waits for the write before. -/
def bufferedFlush : IoMethod ObjectWriter Unit := do
  let self ← get
  match self.deferred with
  | some err => do
      modify (setDeferred none)
      throw err
  | none => (attempt id (sys (.flush self.file)) : Fallible FsCall.Reply IoError Unit)

/-- `write` of either writer. -/
def writeAs : Flavor → List UInt8 → IoMethod ObjectWriter ℕ
  | .blocking => write
  | .tokio => bufferedWrite

/-- `flush` of either writer. -/
def flushAs : Flavor → IoMethod ObjectWriter Unit
  | .blocking => flush
  | .tokio => bufferedFlush

/-- The loop of `write_all`, with at most `n` calls of `write` to go. -/
def writeAllLoop (flavor : Flavor) : ℕ → List UInt8 → IoMethod ObjectWriter Unit
  | 0, _ => pure ()
  | n + 1, buf =>
      if buf.isEmpty then pure ()
      else do
        let written ← writeAs flavor buf
        if written = 0 then throw (writeZero flavor)
        writeAllLoop flavor n (buf.drop written)

/-- The provided `Write::write_all` or `AsyncWriteExt::write_all`: every call of `write` takes at
least one byte. -/
def writeAllAs (flavor : Flavor) (buf : List UInt8) : IoMethod ObjectWriter Unit :=
  writeAllLoop flavor buf.length buf

/-- The provided `Write::write_all`. -/
abbrev writeAll (buf : List UInt8) : IoMethod ObjectWriter Unit := writeAllAs .blocking buf

end ObjectWriter

/-! ## Reading and copying content -/

/-- `ContentReader` of `src/fs/reader.rs`, over the handle it borrows. -/
structure ContentReader where
  file : Fd
  remaining : ℕ

/-- `Read::read for ContentReader` -/
def ContentReader.read (self : ContentReader) (length : ℕ) :
    Fallible FsCall.Reply IoError (List UInt8 × ContentReader) := do
  if self.remaining = 0 ∨ length = 0 then return ([], self)
  let limit := min self.remaining length
  let bs ← (attempt id (sys (.read self.file limit)) : Fallible FsCall.Reply IoError _)
  return (bs, { self with remaining := self.remaining - bs.length })

/-- The size of the buffer that reading to the end, `std::io::copy` and `tokio::io::copy` go
through. -/
def copyBufferSize : ℕ := 8192

/-- `Read::read_to_end`, with at most `n` reads to go. Every read but the last takes at least one
byte. -/
def ContentReader.readToEnd : ℕ → ContentReader → Fallible FsCall.Reply IoError (List UInt8)
  | 0, _ => pure []
  | n + 1, self => do
      let (chunk, self) ← self.read copyBufferSize
      if chunk.isEmpty then pure []
      else do
        let rest ← readToEnd n self
        return chunk ++ rest

namespace ObjectWriter

/-- The loop of `copy`, with at most `n` reads to go. -/
def copyLoop (flavor : Flavor) : ℕ → ContentReader → IoMethod ObjectWriter Unit
  | 0, _ => pure ()
  | n + 1, reader => do
      let (chunk, reader) ← reader.read copyBufferSize
      if chunk.isEmpty then pure ()
      else do
        writeAllAs flavor chunk
        copyLoop flavor n reader

/-- `std::io::copy(&mut source, &mut writer)` and its tokio counterpart, which flushes the writer
when the source is at its end. Every read but the last takes at least one byte. -/
def copyAs (flavor : Flavor) (source : ContentReader) : IoMethod ObjectWriter Unit := do
  copyLoop flavor (source.remaining + 1) source
  match flavor with
  | .blocking => pure ()
  | .tokio => bufferedFlush

/-! ## Finishing -/

def buildHeader (self : ObjectWriter) : ObjectHeader where
  version := 0
  compressionType := self.compression
  tagsStart := self.layout.tagsStart
  contentStart := self.layout.contentStart
  contentLength := UInt64.ofNat self.contentLength
  bitFlags := 0

/-- `publish`: renames the temporary file over the destination. -/
def publish : FsMethod ObjectWriter Unit := do
  let self ← get
  match self.tempPath with
  | none => pure ()
  | some tempPath => do
      modify takeTempPath
      attemptIo (sys (.rename tempPath self.finalPath))
      match self.sync, self.finalPath.parent with
      | true, some parent => do
          match ← sys (.openDir parent) with
          | .ok () => do let _ ← sys (.syncDir parent)
          | .error _ => pure ()
      | _, _ => pure ()

/-- The part of `finish` that writes the prefix in front of the content. -/
def storePrefix (flavor : Flavor) (bytes : List UInt8) : FsMethod ObjectWriter Unit := do
  Method.adapt .io (flushAs flavor)
  let self ← get
  attemptIo (sys (.seek self.file 0))
  attemptIo (sys (.writeAll self.file bytes))
  attemptIo (sys (.flush self.file))
  if self.sync then attemptIo (sys (.syncAll self.file)) else pure ()

/-- `finish`, once the sections are known to fit in front of the content. -/
def finishInPlace (flavor : Flavor) (layout : SectionLayout) : FsMethod ObjectWriter TuxObject := do
  modify (setLayout layout)
  let self ← get
  let header := self.buildHeader
  let bytes ← orReturn (encodePrefix header self.metadata self.tags layout)
  storePrefix flavor bytes
  publish
  let file ← attemptIo (sys (.tryClone self.file))
  return {
    file := file
    path := self.finalPath
    header := header
    metadata := self.metadata
    writable := true
  }

/-- `self.file.flush()` of a writer that is copied from. -/
def flushSource (flavor : Flavor) (source : ObjectWriter) : Fs Unit :=
  match flavor, source.deferred with
  | .tokio, some err => throw (.io err)
  | _, _ => attemptIo (sys (.flush source.file))

/-- The copy of `finish_by_rewriting`: the content of `source` into the replacement. -/
def copyContent (flavor : Flavor) (source : ObjectWriter) : FsMethod ObjectWriter Unit := do
  flushSource flavor source
  attemptIo (sys (.seek source.file source.layout.contentStart.toNat))
  Method.adapt .io (copyAs flavor ⟨source.file, source.contentLength⟩)

/-- `finish_by_rewriting`, given the `finish` of the replacement. -/
def finishByRewriting (flavor : Flavor) (finish : ObjectWriter → Fs TuxObject) :
    FsMethod ObjectWriter TuxObject := do
  let self ← get
  modify takeSections
  let options : CreateOptions := {
    metadata := self.metadata
    tags := self.tags
    layout := { self.layoutOptions with
      metadataReserve := max self.layoutOptions.metadataReserve defaultRewriteReserve
      tagReserve := max self.layoutOptions.tagReserve defaultRewriteReserve }
    compression := self.compression
    sync := self.sync
  }
  let replacement ← createAs flavor self.finalPath options
  let ((), replacement) ← holding drop (copyContent flavor self) replacement
  finish replacement

/-- `finish`, rewriting at most `n` times. The replacement of a rewrite has room for its sections,
so it never gets to rewrite again. -/
def finishWithin (flavor : Flavor) : ℕ → ObjectWriter → Fs TuxObject
  | n, self =>
      match LayoutOptions.checkedRepartition self.layout.contentStart (size self.metadata)
          (size self.tags) self.layoutOptions.alignment with
      | .error panic => consume drop (throw panic) self
      | .ok (some layout) => consume drop (finishInPlace flavor layout) self
      | .ok none =>
          match n with
          | 0 => throw (.io ⟨.other, "the object was rewritten too often"⟩)
          | n + 1 => consume drop (finishByRewriting flavor (finishWithin flavor n)) self

/-- `finish`: writes the prefix, publishes the object, and reopens it for reading. -/
def finishAs (flavor : Flavor) (self : ObjectWriter) : Fs TuxObject := finishWithin flavor 1 self

/-- `abort`, while the writer is still there. -/
def removeTemp : FsMethod ObjectWriter Unit := do
  let self ← get
  match self.tempPath with
  | none => pure ()
  | some tempPath => do
      modify takeTempPath
      match ← sys (.removeFile tempPath) with
      | .ok () => pure ()
      | .error err => if err.kind = .notFound then pure () else throw (.io err)

/-- `abort`: abandons the write, removing the temporary file. -/
def abort (self : ObjectWriter) : Fs Unit := consume drop removeTemp self

/-- `ObjectWriter::create` -/
def create (path : Path) (options : CreateOptions) : Fs ObjectWriter :=
  createAs .blocking path options

/-- `ObjectWriter::finish` -/
def finish (self : ObjectWriter) : Fs TuxObject := finishAs .blocking self

end ObjectWriter

end TuxEncoding
