import TuxEncoding.Fs.Compression

/-!
# `TuxObject`

`src/fs/object.rs`: opening an object, reading its sections and its content, and updating them.
A handle is closed when it goes out of scope, which is no event here.
-/

namespace TuxEncoding

open Interaction Program

variable [Platform] [Codecs]

/-- Decode a section from a buffer that holds it and its padding. -/
def decodeSection {α : Type} (dec : Decoder α) (buffer : List UInt8) : Except ObjectFileError α :=
  match dec ⟨buffer, 0⟩ with
  | .ok (a, _) => .ok a
  | .error err => .error (.encoding err)

namespace TuxObject

/-! ## Opening -/

/-- `from_file` -/
def fromFile (file : Fd) (path : Path) (writable : Bool) : Fs TuxObject := do
  attemptIo (sys (.seek file 0))
  let headerBytes ← attemptIo (sys (.readExact file headerSize))
  let header ← orReturn ((ObjectHeader.readFromBytes headerBytes).mapError .encoding)
  let metadataSpace := header.tagsStart.toNat - headerSize
  let metadata ←
    if metadataSpace = 0 then pure Tags.new
    else do
      let buffer ← attemptIo (sys (.readExact file metadataSpace))
      orReturn (decodeSection (readFromReader : Decoder MetadataMap) buffer)
  return {
    file := file
    path := path
    header := header
    metadata := metadata
    writable := writable
  }

/-- `open`: opens an object for reading. -/
def «open» (path : Path) : Fs TuxObject := do
  let file ← attemptIo (sys (.openFile path false))
  fromFile file path false

/-- `open_writable`: opens an object for reading and writing. -/
def openWritable (path : Path) : Fs TuxObject := do
  let file ← attemptIo (sys (.openFile path true))
  fromFile file path true

/-- Either of the two. -/
def openAs (path : Path) (writable : Bool) : Fs TuxObject :=
  if writable then openWritable path else «open» path

/-- `open_optional`: opens an object, returning `none` when the file does not exist. -/
def openOptional (path : Path) : Fs (Option TuxObject) := do
  match ← Fallible.result («open» path) with
  | .ok object => return some object
  | .error err => if err.isNotFound then return none else throw err

def layout (self : TuxObject) : SectionLayout := ⟨self.header.tagsStart, self.header.contentStart⟩

/-! ## Tags -/

/-- `read_tags`: reads the whole tag section. -/
def readTags (self : TuxObject) : Fs (Tags String) := do
  let space ← orReturn self.layout.checkedTagsSpace
  if space = 0 then return Tags.new
  attemptIo (sys (.seek self.file self.header.tagsStart.toNat))
  let buffer ← attemptIo (sys (.readExact self.file space))
  orReturn (decodeSection (readFromReader : Decoder (Tags String)) buffer)

/-- `tag_count`: number of tags without decoding their values. -/
def tagCount (self : TuxObject) : Fs UInt16 := do
  let space ← orReturn self.layout.checkedTagsSpace
  if space = 0 then return 0
  attemptIo (sys (.seek self.file self.header.tagsStart.toNat))
  let buffer ← attemptIo (sys (.readExact self.file 2))
  return Number.fromLeBytes buffer

/-- `find_tag`: looks up a single tag. -/
def findTag (self : TuxObject) (key : String) : Fs (Option ValueType) := do
  let space ← orReturn self.layout.checkedTagsSpace
  if space = 0 then return none
  attemptIo (sys (.seek self.file self.header.tagsStart.toNat))
  let buffer ← attemptIo (sys (.readExact self.file space))
  orReturn (decodeSection (Tags.findFromReader key) buffer)

/-! ## Content -/

/-- `stored_content_reader`: reads the content exactly as stored. -/
def storedContentReader (self : TuxObject) : Fs ContentReader := do
  attemptIo (sys (.seek self.file self.header.contentStart.toNat))
  return ⟨self.file, self.header.contentLength.toNat⟩

/-- `content_range_reader`: reads a byte range of the stored content. -/
def contentRangeReader (self : TuxObject) (offset : UInt64) (length : Option UInt64) :
    Fs ContentReader := do
  if ¬ self.header.compressionType.isNone then throw .rangedReadOnCompressed
  let contentLength := self.header.contentLength
  if contentLength < offset then
    throw (.rangeOutOfBounds offset.toNat offset.toNat contentLength.toNat)
  let available := contentLength - offset
  let length := length.getD available
  if length > available then
    throw (.rangeOutOfBounds offset.toNat (min (offset.toNat + length.toNat) (2 ^ 64 - 1))
      contentLength.toNat)
  let start ← orReturn (checkedAdd self.header.contentStart.toNat offset.toNat)
  attemptIo (sys (.seek self.file start))
  return ⟨self.file, length.toNat⟩

/-- `read_content_to_vec`: reads the whole content into memory, decompressing when needed. The
allocator grants buffers of up to `granted` bytes. -/
def readContentToVecWith (granted : ℕ) (self : TuxObject) : Fs (List UInt8) := do
  orReturn (withCapacity granted self.header.contentLength.toNat)
  let compression := self.header.compressionType
  let reader ← self.storedContentReader
  match compression with
  | .none => attempt .io (reader.readToEnd (reader.remaining + 1)).run
  | compression => do
      orReturn (ensureSupported compression)
      let stored ← attempt .io (reader.readToEnd (reader.remaining + 1)).run
      orReturn ((Codecs.decode compression stored).mapError .io)

/-- `read_content_to_vec`, where memory is not short. -/
abbrev readContentToVec (self : TuxObject) : Fs (List UInt8) := self.readContentToVecWith isizeMax

/-! ## Section updates -/

def ensureWritable (self : TuxObject) : Except ObjectFileError Unit :=
  if self.writable then .ok () else .error (.readOnly self.path)

/-- The options of the writer that `rewrite` creates. -/
def rewriteOptions (self : TuxObject) (metadata : MetadataMap) (tags : Tags String) :
    CreateOptions where
  metadata := metadata
  tags := tags
  layout := { LayoutOptions.default with minContentStart := self.header.contentStart }
  compression := self.header.compressionType
  sync := true

/-- The copy of `rewrite`: the stored content into the new writer. -/
def copyStored (self : TuxObject) : FsMethod ObjectWriter Unit := do
  let reader ← self.storedContentReader
  Method.adapt .io (ObjectWriter.copyAs .blocking reader)

/-- The part of `rewrite` that leaves the handle alone. -/
def replacement (self : TuxObject) (metadata : MetadataMap) (tags : Tags String) :
    Fs TuxObject := do
  orReturn self.ensureWritable
  let writer ← ObjectWriter.create self.path (self.rewriteOptions metadata tags)
  let ((), writer) ← holding ObjectWriter.drop self.copyStored writer
  writer.finish

/-- `rewrite`: rewrites the object with fresh section sizes, copying the content across. -/
def rewrite (metadata : MetadataMap) (tags : Tags String) : FsMethod TuxObject Unit := do
  let self ← get
  let replacement ← self.replacement metadata tags
  set replacement

/-- `set_metadata`: replaces the metadata section, keeping the tags as they are. -/
def setMetadata (metadata : MetadataMap) : FsMethod TuxObject Unit := do
  let self ← get
  let tags ← self.readTags
  rewrite metadata tags

/-- `set_tags`: replaces the tag section, keeping the metadata as it is. -/
def setTags (tags : Tags String) : FsMethod TuxObject Unit := do
  let self ← get
  rewrite self.metadata tags

/-- `set_sections`: replaces both sections at once. -/
def setSections (metadata : MetadataMap) (tags : Tags String) : FsMethod TuxObject Unit :=
  rewrite metadata tags

/-- `modify_metadata`: applies a change to the metadata. -/
def modifyMetadata (modify : MetadataMap → MetadataMap) : FsMethod TuxObject Unit := do
  let self ← get
  setMetadata (modify self.metadata)

/-- `set_sections_in_place`: overwrites both sections without touching the content. -/
def setSectionsInPlace (metadata : MetadataMap) (tags : Tags String) :
    FsMethod TuxObject Unit := do
  let self ← get
  orReturn self.ensureWritable
  let layout ← orReturn do
    match ← LayoutOptions.checkedRepartition self.header.contentStart (size metadata) (size tags)
        defaultAlignment with
    | some layout => return layout
    | none => throw (.reservedSpaceExceeded (headerSize + size metadata + size tags)
        self.header.contentStart.toNat)
  let header := { self.header with
    tagsStart := layout.tagsStart
    contentStart := layout.contentStart }
  let bytes ← orReturn (encodePrefix header metadata tags layout)
  attemptIo (sys (.seek self.file 0))
  attemptIo (sys (.writeAll self.file bytes))
  attemptIo (sys (.flush self.file))
  set { self with header := header, metadata := metadata }

end TuxObject

end TuxEncoding
