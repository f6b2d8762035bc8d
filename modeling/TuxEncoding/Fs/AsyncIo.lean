import TuxEncoding.Fs.Reading

/-!
# `AsyncObjectWriter` and `AsyncTuxObject`

`src/fs/async_io.rs`. The file layer is written a second time there, over tokio's files; only the
layouts, the encoding of the prefix and the codecs are shared with the blocking one. Awaiting a call
is making it, but for the writing of content: a `tokio::fs::File` takes the bytes into a buffer of
2 MiB, counts them and stores them in the background, and it is the next call that waits for this
and reports its error. tokio reports an early end of a file and a write of nothing in words of its
own.
-/

namespace TuxEncoding

open Interaction Program

variable [Platform]

/-- `AsyncObjectWriter` -/
structure AsyncObjectWriter where
  file : Fd
  tempPath : Option Path
  finalPath : Path
  layout : SectionLayout
  layoutOptions : LayoutOptions
  compression : CompressionTypes
  metadata : MetadataMap
  tags : Tags String
  contentLength : ℕ
  sync : Bool
  /-- the error of the last write, which the file has not reported yet -/
  deferred : Option IoError

/-- `AsyncTuxObject` -/
structure AsyncTuxObject where
  file : Fd
  path : Path
  header : ObjectHeader
  metadata : MetadataMap
  writable : Bool

namespace AsyncIo

/-- The error of tokio's `read_exact` at the end of a file. -/
def earlyEof (err : IoError) : IoError :=
  if err.kind = .unexpectedEof then ⟨.unexpectedEof, "early eof"⟩ else err

/-- `AsyncReadExt::read_exact` -/
def readExact (file : Fd) (n : ℕ) : Fs (List UInt8) :=
  attempt (fun err => .io (earlyEof err)) (sys (.readExact file n))

/-- `create_temp_file` -/
def createTempFile (finalPath : Path) : Fs (Fd × Path) := do
  let parent := finalPath.parent.getD ['.']
  let stem := finalPath.fileName.getD "object".toList
  let pid ← sys .processId
  tryNames parent stem pid 32

end AsyncIo

/-- `ContentSection`, over a handle it borrows or owns. -/
structure ContentSection where
  file : Fd
  remaining : ℕ

namespace ContentSection

/-- `AsyncRead::poll_read for ContentSection` -/
def read (self : ContentSection) (length : ℕ) :
    Fallible FsCall.Reply IoError (List UInt8 × ContentSection) := do
  if self.remaining = 0 then return ([], self)
  let limit := min self.remaining length
  let bs ← (attempt id (sys (.read self.file limit)) : Fallible FsCall.Reply IoError _)
  return (bs, { self with remaining := self.remaining - bs.length })

/-- `AsyncReadExt::read_to_end`, with at most `n` reads to go. -/
def readToEnd : ℕ → ContentSection → Fallible FsCall.Reply IoError (List UInt8)
  | 0, _ => pure []
  | n + 1, self => do
      let (chunk, self) ← self.read copyBufferSize
      if chunk.isEmpty then pure []
      else do
        let rest ← readToEnd n self
        return chunk ++ rest

end ContentSection

/-! ## The writer -/

namespace AsyncObjectWriter

/-! ### What the methods change in the writer -/

/-- `self.layout = layout` -/
def setLayout (layout : SectionLayout) (self : AsyncObjectWriter) : AsyncObjectWriter :=
  { self with layout := layout }

/-- `self.content_length += written as u64` -/
def addLength (written : ℕ) (self : AsyncObjectWriter) : AsyncObjectWriter :=
  { self with contentLength := self.contentLength + written }

/-- `self.temp_path.take()` -/
def takeTempPath (self : AsyncObjectWriter) : AsyncObjectWriter := { self with tempPath := none }

/-- `std::mem::take(&mut self.metadata)` and `std::mem::take(&mut self.tags)` -/
def takeSections (self : AsyncObjectWriter) : AsyncObjectWriter :=
  { self with metadata := Tags.new, tags := Tags.new }

/-- The file keeps an error, or has handed it out. -/
def setDeferred (deferred : Option IoError) (self : AsyncObjectWriter) : AsyncObjectWriter :=
  { self with deferred := deferred }

/-! ### Methods -/

/-- `Drop for AsyncObjectWriter` -/
def drop (self : AsyncObjectWriter) : Program FsCall.Reply Unit :=
  match self.tempPath with
  | some tempPath => do let _ ← sys (.removeFile tempPath)
  | none => pure ()

/-- `AsyncObjectWriter::create` -/
def create (path : Path) (options : CreateOptions) : Fs AsyncObjectWriter := do
  orReturn (ensureSupported options.compression)
  if ¬ options.compression.isNone then throw (.unsupportedCompression options.compression)
  let layout ← orReturn (options.layout.checkedCompute (size options.metadata) (size options.tags))
  let (file, tempPath) ← AsyncIo.createTempFile path
  let writer : AsyncObjectWriter := {
    file := file
    tempPath := some tempPath
    finalPath := path
    layout := layout
    layoutOptions := options.layout
    compression := options.compression
    metadata := options.metadata
    tags := options.tags
    contentLength := 0
    sync := options.sync
    deferred := none
  }
  let ((), writer) ← holding drop
    (liftM (attemptIo (sys (.seek file layout.contentStart.toNat))) : FsMethod _ Unit) writer
  return writer

/-- `AsyncWrite::poll_write for AsyncObjectWriter` -/
def write (buf : List UInt8) : IoMethod AsyncObjectWriter ℕ := do
  let self ← get
  match self.deferred with
  | some err => do
      modify (setDeferred none)
      throw err
  | none => do
      let chunk := buf.take maxBufSize
      let stored ← sys (.writeAll self.file chunk)
      modify (setDeferred (errorOf stored))
      modify (addLength chunk.length)
      return chunk.length

/-- `AsyncWrite::poll_flush for AsyncObjectWriter` -/
def flush : IoMethod AsyncObjectWriter Unit := do
  let self ← get
  match self.deferred with
  | some err => do
      modify (setDeferred none)
      throw err
  | none => (attempt id (sys (.flush self.file)) : Fallible FsCall.Reply IoError Unit)

/-- The loop of `AsyncWriteExt::write_all`, with at most `n` calls of `write` to go. -/
def writeAllLoop : ℕ → List UInt8 → IoMethod AsyncObjectWriter Unit
  | 0, _ => pure ()
  | n + 1, buf =>
      if buf.isEmpty then pure ()
      else do
        let written ← write buf
        if written = 0 then throw ⟨.writeZero, "write zero"⟩
        writeAllLoop n (buf.drop written)

/-- `AsyncWriteExt::write_all` -/
def writeAll (buf : List UInt8) : IoMethod AsyncObjectWriter Unit := writeAllLoop buf.length buf

/-- The loop of `tokio::io::copy`, with at most `n` reads to go. -/
def copyLoop : ℕ → ContentSection → IoMethod AsyncObjectWriter Unit
  | 0, _ => pure ()
  | n + 1, reader => do
      let (chunk, reader) ← reader.read copyBufferSize
      if chunk.isEmpty then pure ()
      else do
        writeAll chunk
        copyLoop n reader

/-- `tokio::io::copy(&mut source, &mut writer)`: it flushes the writer at the end. -/
def copy (source : ContentSection) : IoMethod AsyncObjectWriter Unit := do
  copyLoop (source.remaining + 1) source
  flush

/-- `publish` -/
def publish : FsMethod AsyncObjectWriter Unit := do
  let self ← get
  match self.tempPath with
  | none => pure ()
  | some tempPath => do
      modify takeTempPath
      attemptIo (sys (.rename tempPath self.finalPath))
      match self.sync, self.finalPath.parent with
      | true, some parent => do
          match ← sys (.openDir parent) with
          | .ok () => do let _ ← sys (.syncDir parent)
          | .error _ => pure ()
      | _, _ => pure ()

/-- The part of `finish` that writes the prefix in front of the content. -/
def storePrefix (bytes : List UInt8) : FsMethod AsyncObjectWriter Unit := do
  Method.adapt .io flush
  let self ← get
  attemptIo (sys (.seek self.file 0))
  attemptIo (sys (.writeAll self.file bytes))
  attemptIo (sys (.flush self.file))
  if self.sync then attemptIo (sys (.syncAll self.file)) else pure ()

/-- `finish`, once the sections are known to fit in front of the content. -/
def finishInPlace (layout : SectionLayout) : FsMethod AsyncObjectWriter AsyncTuxObject := do
  modify (setLayout layout)
  let self ← get
  let header : ObjectHeader := {
    version := 0
    compressionType := self.compression
    tagsStart := layout.tagsStart
    contentStart := layout.contentStart
    contentLength := UInt64.ofNat self.contentLength
    bitFlags := 0
  }
  let bytes ← orReturn (encodePrefix header self.metadata self.tags layout)
  storePrefix bytes
  publish
  let file ← attemptIo (sys (.tryClone self.file))
  return {
    file := file
    path := self.finalPath
    header := header
    metadata := self.metadata
    writable := true
  }

/-- `abort`, while the writer is still there. -/
def removeTemp : FsMethod AsyncObjectWriter Unit := do
  let self ← get
  match self.tempPath with
  | none => pure ()
  | some tempPath => do
      modify takeTempPath
      match ← sys (.removeFile tempPath) with
      | .ok () => pure ()
      | .error err => if err.kind = .notFound then pure () else throw (.io err)

/-- `self.file.flush()` of a writer that is copied from. -/
def flushSource (source : AsyncObjectWriter) : Fs Unit :=
  match source.deferred with
  | some err => throw (.io err)
  | none => attemptIo (sys (.flush source.file))

/-- The copy of `finish_by_rewriting`: the content of `source` into the replacement. -/
def copyContent (source : AsyncObjectWriter) : FsMethod AsyncObjectWriter Unit := do
  flushSource source
  attemptIo (sys (.seek source.file source.layout.contentStart.toNat))
  Method.adapt .io (copy ⟨source.file, source.contentLength⟩)

/-- The part of `finish_by_rewriting` that finishes the replacement. -/
def finishReplacement (finish : AsyncObjectWriter → Fs AsyncTuxObject) :
    FsMethod AsyncObjectWriter AsyncTuxObject := do
  let self ← get
  modify takeSections
  let options : CreateOptions := {
    metadata := self.metadata
    tags := self.tags
    layout := { self.layoutOptions with
      metadataReserve := max self.layoutOptions.metadataReserve 256
      tagReserve := max self.layoutOptions.tagReserve 256 }
    compression := self.compression
    sync := self.sync
  }
  let replacement ← create self.finalPath options
  let ((), replacement) ← holding drop (copyContent self) replacement
  finish replacement

/-- `finish_by_rewriting`, given the `finish` of the replacement. The writer is consumed by `abort`
in the end. -/
def finishByRewriting (finish : AsyncObjectWriter → Fs AsyncTuxObject) :
    FsMethod AsyncObjectWriter AsyncTuxObject := do
  let object ← finishReplacement finish
  let _ ← (Method.result removeTemp : FsMethod AsyncObjectWriter (Except ObjectFileError Unit))
  return object

/-- `finish`, rewriting at most `n` times. -/
def finishWithin : ℕ → AsyncObjectWriter → Fs AsyncTuxObject
  | n, self =>
      match LayoutOptions.checkedRepartition self.layout.contentStart (size self.metadata)
          (size self.tags) self.layoutOptions.alignment with
      | .error panic => consume drop (throw panic) self
      | .ok (some layout) => consume drop (finishInPlace layout) self
      | .ok none =>
          match n with
          | 0 => throw (.io ⟨.other, "the object was rewritten too often"⟩)
          | n + 1 => consume drop (finishByRewriting (finishWithin n)) self

/-- `finish` -/
def finish (self : AsyncObjectWriter) : Fs AsyncTuxObject := finishWithin 1 self

end AsyncObjectWriter

/-! ## The object -/

variable [Codecs]

namespace AsyncTuxObject

/-- `from_file` -/
def fromFile (file : Fd) (path : Path) (writable : Bool) : Fs AsyncTuxObject := do
  attemptIo (sys (.seek file 0))
  let headerBytes ← AsyncIo.readExact file headerSize
  let header ← orReturn ((ObjectHeader.readFromBytes headerBytes).mapError .encoding)
  let metadataSpace := header.tagsStart.toNat - headerSize
  let metadata ←
    if metadataSpace = 0 then pure Tags.new
    else do
      let buffer ← AsyncIo.readExact file metadataSpace
      orReturn (decodeSection (readFromReader : Decoder MetadataMap) buffer)
  return {
    file := file
    path := path
    header := header
    metadata := metadata
    writable := writable
  }

/-- `open` -/
def «open» (path : Path) : Fs AsyncTuxObject := do
  let file ← attemptIo (sys (.openFile path false))
  fromFile file path false

/-- `open_writable` -/
def openWritable (path : Path) : Fs AsyncTuxObject := do
  let file ← attemptIo (sys (.openFile path true))
  fromFile file path true

/-- Either of the two. -/
def openAs (path : Path) (writable : Bool) : Fs AsyncTuxObject :=
  if writable then openWritable path else «open» path

/-- `open_optional` -/
def openOptional (path : Path) : Fs (Option AsyncTuxObject) := do
  match ← Fallible.result («open» path) with
  | .ok object => return some object
  | .error err => if err.isNotFound then return none else throw err

def layout (self : AsyncTuxObject) : SectionLayout :=
  ⟨self.header.tagsStart, self.header.contentStart⟩

/-- `read_tag_section` -/
def readTagSection (self : AsyncTuxObject) : Fs (Option (List UInt8)) := do
  let space ← orReturn self.layout.checkedTagsSpace
  if space = 0 then return none
  attemptIo (sys (.seek self.file self.header.tagsStart.toNat))
  let buffer ← AsyncIo.readExact self.file space
  return some buffer

/-- `read_tags` -/
def readTags (self : AsyncTuxObject) : Fs (Tags String) := do
  match ← self.readTagSection with
  | none => return Tags.new
  | some buffer => orReturn (decodeSection (readFromReader : Decoder (Tags String)) buffer)

/-- `tag_count` -/
def tagCount (self : AsyncTuxObject) : Fs UInt16 := do
  let space ← orReturn self.layout.checkedTagsSpace
  if space = 0 then return 0
  attemptIo (sys (.seek self.file self.header.tagsStart.toNat))
  let buffer ← AsyncIo.readExact self.file 2
  return Number.fromLeBytes buffer

/-- `find_tag` -/
def findTag (self : AsyncTuxObject) (key : String) : Fs (Option ValueType) := do
  match ← self.readTagSection with
  | none => return none
  | some buffer => orReturn (decodeSection (Tags.findFromReader key) buffer)

/-- `seek_to_content_start` -/
def seekToContentStart (self : AsyncTuxObject) : Fs ℕ := do
  attemptIo (sys (.seek self.file self.header.contentStart.toNat))
  return self.header.contentLength.toNat

/-- `stored_content_reader` -/
def storedContentReader (self : AsyncTuxObject) : Fs ContentSection := do
  let remaining ← self.seekToContentStart
  return ⟨self.file, remaining⟩

/-- `seek_within_content` -/
def seekWithinContent (self : AsyncTuxObject) (offset : UInt64) (length : Option UInt64) :
    Fs ℕ := do
  if ¬ self.header.compressionType.isNone then throw .rangedReadOnCompressed
  let contentLength := self.header.contentLength
  if contentLength < offset then
    throw (.rangeOutOfBounds offset.toNat offset.toNat contentLength.toNat)
  let available := contentLength - offset
  let length := length.getD available
  if length > available then
    throw (.rangeOutOfBounds offset.toNat (min (offset.toNat + length.toNat) (2 ^ 64 - 1))
      contentLength.toNat)
  let start ← orReturn (checkedAdd self.header.contentStart.toNat offset.toNat)
  attemptIo (sys (.seek self.file start))
  return length.toNat

/-- `content_range_reader` -/
def contentRangeReader (self : AsyncTuxObject) (offset : UInt64) (length : Option UInt64) :
    Fs ContentSection := do
  let remaining ← self.seekWithinContent offset length
  return ⟨self.file, remaining⟩

/-- `into_content_range_reader`: the reader owns the handle of the object, which is gone. -/
def intoContentRangeReader (self : AsyncTuxObject) (offset : UInt64) (length : Option UInt64) :
    Fs ContentSection := do
  let remaining ← self.seekWithinContent offset length
  return ⟨self.file, remaining⟩

/-- `decode_blocking` -/
def decodeBlocking (stored : List UInt8) (compression : CompressionTypes) :
    Except ObjectFileError (List UInt8) := do
  ensureSupported compression
  match compression with
  | .none => return stored
  | compression => (Codecs.decode compression stored).mapError .io

/-- `read_content_to_vec`, where memory is not short. -/
def readContentToVec (self : AsyncTuxObject) : Fs (List UInt8) := do
  orReturn (withCapacity isizeMax self.header.contentLength.toNat)
  let reader ← self.storedContentReader
  let stored ← attempt .io (reader.readToEnd (reader.remaining + 1)).run
  match self.header.compressionType with
  | .none => return stored
  | other => orReturn (decodeBlocking stored other)

/-- Open the stored content and read it to its end. -/
def readStored (self : AsyncTuxObject) : Fs (List UInt8) := do
  let reader ← self.storedContentReader
  attempt .io (reader.readToEnd (reader.remaining + 1)).run

/-- Open a range of the content and read it to its end. -/
def readRange (self : AsyncTuxObject) (offset : UInt64) (length : Option UInt64) :
    Fs (List UInt8) := do
  let reader ← self.contentRangeReader offset length
  attempt .io (reader.readToEnd (reader.remaining + 1)).run

def ensureWritable (self : AsyncTuxObject) : Except ObjectFileError Unit :=
  if self.writable then .ok () else .error (.readOnly self.path)

/-- The options of the writer that `rewrite` creates. -/
def rewriteOptions (self : AsyncTuxObject) (metadata : MetadataMap) (tags : Tags String) :
    CreateOptions where
  metadata := metadata
  tags := tags
  layout := { LayoutOptions.default with minContentStart := self.header.contentStart }
  compression := self.header.compressionType
  sync := true

/-- The copy of `rewrite`: the stored content into the new writer. -/
def copyStored (self : AsyncTuxObject) : FsMethod AsyncObjectWriter Unit := do
  let reader ← self.storedContentReader
  Method.adapt .io (AsyncObjectWriter.copy reader)

/-- The part of `rewrite` that leaves the handle alone. -/
def replacement (self : AsyncTuxObject) (metadata : MetadataMap) (tags : Tags String) :
    Fs AsyncTuxObject := do
  orReturn self.ensureWritable
  let writer ← AsyncObjectWriter.create self.path (self.rewriteOptions metadata tags)
  let ((), writer) ← holding AsyncObjectWriter.drop self.copyStored writer
  writer.finish

/-- `rewrite` -/
def rewrite (metadata : MetadataMap) (tags : Tags String) : FsMethod AsyncTuxObject Unit := do
  let self ← get
  let replacement ← self.replacement metadata tags
  set replacement

/-- `set_metadata` -/
def setMetadata (metadata : MetadataMap) : FsMethod AsyncTuxObject Unit := do
  let self ← get
  let tags ← self.readTags
  rewrite metadata tags

/-- `set_tags` -/
def setTags (tags : Tags String) : FsMethod AsyncTuxObject Unit := do
  let self ← get
  rewrite self.metadata tags

/-- `set_sections` -/
def setSections (metadata : MetadataMap) (tags : Tags String) : FsMethod AsyncTuxObject Unit :=
  rewrite metadata tags

/-- `set_sections_in_place` -/
def setSectionsInPlace (metadata : MetadataMap) (tags : Tags String) :
    FsMethod AsyncTuxObject Unit := do
  let self ← get
  orReturn self.ensureWritable
  let layout ← orReturn do
    match ← LayoutOptions.checkedRepartition self.header.contentStart (size metadata) (size tags)
        defaultAlignment with
    | some layout => return layout
    | none => throw (.reservedSpaceExceeded (headerSize + size metadata + size tags)
        self.header.contentStart.toNat)
  let header := { self.header with
    tagsStart := layout.tagsStart
    contentStart := layout.contentStart }
  let bytes ← orReturn (encodePrefix header metadata tags layout)
  attemptIo (sys (.seek self.file 0))
  attemptIo (sys (.writeAll self.file bytes))
  attemptIo (sys (.flush self.file))
  set { self with header := header, metadata := metadata }

end AsyncTuxObject

end TuxEncoding
