import TuxEncoding.Codec.Types

/-!
# `CompressionTypes` and `ObjectHeader`

The fixed 32 bytes at the start of every object file.

* `ObjectHeader.writeToWriter_eq_emit`: the header is written as `ObjectHeader.wire`, which is 32
  bytes long.
* `ObjectHeader.readFromBytes_wire`: a header of the current version is read back from the first
  32 bytes of any input.
-/

namespace TuxEncoding

open Bytes

/-! ## Compression types -/

/-- `CompressionTypes`, with the level of `ZStdCompressionType` and `GzipCompressionType`. -/
inductive CompressionTypes
  | none
  | zstd (level : Int32)
  | gzip (level : UInt32)
  deriving DecidableEq

/-- `matches!(compression, CompressionTypes::None(_))`. -/
def CompressionTypes.isNone : CompressionTypes → Bool
  | .none => true
  | _ => false

lemma CompressionTypes.isNone_iff {c : CompressionTypes} : c.isNone = true ↔ c = .none := by
  cases c <;> simp [isNone]

instance : TuxIOType CompressionTypes where
  constSize _ := some 5
  size _ := 5

instance : WritableObjectType CompressionTypes where
  writeToWriter
    | .none => emit [0, 0, 0, 0, 0]
    | .zstd level => do
        emit [1]
        emit (Number.toLeBytes level)
    | .gzip level => do
        emit [2]
        emit (Number.toLeBytes level)

/-- `CompressionTypes::try_from` on a byte slice. -/
def CompressionTypes.tryFrom (value : List UInt8) : Except EncodingError CompressionTypes :=
  if value.length < 5 then .error .unexpectedEof
  else
    match value.headD 0 with
    | 0 => .ok .none
    | 1 => .ok (.zstd (Number.fromLeBytes ((value.drop 1).take 4)))
    | 2 => .ok (.gzip (Number.fromLeBytes ((value.drop 1).take 4)))
    | other => .error (.invalidCompressionType other)

/-- The five bytes of a compression type. -/
def CompressionTypes.wire : CompressionTypes → List UInt8
  | .none => [0, 0, 0, 0, 0]
  | .zstd level => 1 :: Number.toLeBytes level
  | .gzip level => 2 :: Number.toLeBytes level

lemma CompressionTypes.write_eq_emit {W : Type} [Write W] [LawfulWrite W] (c : CompressionTypes) :
    (writeToWriter c : Encoder W Unit) = emit c.wire := by
  cases c with
  | none => rfl
  | zstd level => exact emit_bind_emit [1] (Number.toLeBytes level)
  | gzip level => exact emit_bind_emit [2] (Number.toLeBytes level)

@[simp] lemma CompressionTypes.length_wire (c : CompressionTypes) : c.wire.length = 5 := by
  cases c with
  | none => rfl
  | zstd level => exact congrArg (· + 1) (Number.length_toLeBytes level)
  | gzip level => exact congrArg (· + 1) (Number.length_toLeBytes level)

lemma CompressionTypes.tryFrom_wire (c : CompressionTypes) : tryFrom c.wire = .ok c := by
  unfold tryFrom
  rw [if_neg (by rw [length_wire]; omega)]
  cases c with
  | none => rfl
  | zstd level =>
      have hlen : (Number.toLeBytes level).length ≤ 4 :=
        Nat.le_of_eq (Number.length_toLeBytes level)
      simp only [wire, List.headD_cons, List.drop_succ_cons, List.drop_zero,
        List.take_of_length_le hlen, Number.fromLeBytes_toLeBytes]
  | gzip level =>
      have hlen : (Number.toLeBytes level).length ≤ 4 :=
        Nat.le_of_eq (Number.length_toLeBytes level)
      simp only [wire, List.headD_cons, List.drop_succ_cons, List.drop_zero,
        List.take_of_length_le hlen, Number.fromLeBytes_toLeBytes]

/-! ## The header -/

/-- `MAGIC_VALUE`: "TUX". -/
def magicValue : List UInt8 := [0x54, 0x55, 0x58]

def currentVersion : UInt8 := 0

/-- `ObjectHeader` of `src/header.rs`. -/
structure ObjectHeader where
  version : UInt8
  compressionType : CompressionTypes
  tagsStart : UInt16
  contentStart : UInt32
  contentLength : UInt64
  bitFlags : UInt8
  deriving DecidableEq

namespace ObjectHeader

instance : TuxIOType ObjectHeader where
  constSize _ := some 32
  size _ := 32

instance : WritableObjectType ObjectHeader where
  writeToWriter h := do
    emit magicValue
    emit [h.version]
    writeToWriter h.compressionType
    writeToWriter h.tagsStart
    writeToWriter h.contentStart
    writeToWriter h.contentLength
    emit [h.bitFlags]
    emit (List.replicate (32 - (magicValue.length + 1 + 5 + 2 + 4 + 8 + 1)) 0)

/-- `content[lo..hi]`. -/
def slice (content : List UInt8) (lo hi : ℕ) : List UInt8 := (content.take hi).drop lo

/-- `header_entry`: the version byte behind the magic value. -/
def headerEntry (entry : List UInt8) : Except EncodingError UInt8 :=
  if slice entry 0 3 ≠ magicValue then .error .invalidMagic else .ok (entry.getD 3 0)

/-- `ObjectHeader::read_from_bytes`. -/
def readFromBytes (content : List UInt8) : Except EncodingError ObjectHeader := do
  if content.length < 32 then throw .unexpectedEof
  let version ← headerEntry (slice content 0 4)
  if version ≠ currentVersion then throw (.unsupportedVersion version)
  let compressionType ← CompressionTypes.tryFrom (slice content 4 9)
  return {
    version := version
    compressionType := compressionType
    tagsStart := Number.fromLeBytes (slice content 9 11)
    contentStart := Number.fromLeBytes (slice content 11 15)
    contentLength := Number.fromLeBytes (slice content 15 23)
    bitFlags := content.getD 23 0
  }

instance : ReadableObjectType ObjectHeader where
  readSize := pure 32
  readFromReader := do
    let content ← readExact 32
    liftM (readFromBytes content)
  skip := seekStart 32

/-- The fields of a header as they stand one after the other. -/
def pieces (h : ObjectHeader) : List (List UInt8) :=
  [magicValue, [h.version], h.compressionType.wire, Number.toLeBytes h.tagsStart,
    Number.toLeBytes h.contentStart, Number.toLeBytes h.contentLength, [h.bitFlags],
    List.replicate 8 0]

/-- The 32 bytes of a header. -/
def wire (h : ObjectHeader) : List UInt8 := h.pieces.flatten

lemma writeToWriter_eq_emit {W : Type} [Write W] [LawfulWrite W] (h : ObjectHeader) :
    (writeToWriter h : Encoder W Unit) = emit h.wire := by
  show (do
    emit magicValue
    emit [h.version]
    writeToWriter h.compressionType
    emit (Number.toLeBytes h.tagsStart)
    emit (Number.toLeBytes h.contentStart)
    emit (Number.toLeBytes h.contentLength)
    emit [h.bitFlags]
    emit (List.replicate 8 0)) = _
  rw [CompressionTypes.write_eq_emit]
  simp only [emit_bind_emit]
  rfl

lemma writeToBytes_eq (h : ObjectHeader) : writeToBytes h = .ok h.wire := by
  unfold writeToBytes
  rw [writeToWriter_eq_emit]
  rfl

@[simp] lemma length_wire (h : ObjectHeader) : h.wire.length = 32 := by
  simp only [wire, pieces, List.flatten_cons, List.flatten_nil, List.length_append,
    CompressionTypes.length_wire, Number.length_toLeBytes]
  rfl

/-- Cutting out a middle piece of a byte string. -/
lemma slice_append (a b c : List UInt8) {lo hi : ℕ} (hlo : a.length = lo)
    (hhi : lo + b.length = hi) : slice (a ++ (b ++ c)) lo hi = b := by
  subst hlo hhi
  rw [slice, ← List.append_assoc, List.take_append_of_le_length (by simp),
    List.take_of_length_le (by simp), List.drop_left]

/-- Cutting out the field of a header that starts at `lo` and ends at `hi`. -/
lemma slice_wire (h : ObjectHeader) (rest : List UInt8) (before : List (List UInt8))
    {piece : List UInt8} {after : List (List UInt8)} (hpieces : h.pieces = before ++ piece :: after)
    {lo hi : ℕ} (hlo : before.flatten.length = lo) (hhi : lo + piece.length = hi) :
    slice (h.wire ++ rest) lo hi = piece := by
  have hwire : h.wire ++ rest = before.flatten ++ (piece ++ (after.flatten ++ rest)) := by
    rw [wire, hpieces, List.flatten_append, List.flatten_cons]
    simp only [List.append_assoc]
  rw [hwire]
  exact slice_append before.flatten piece _ hlo hhi

lemma getD_of_slice {content : List UInt8} {n : ℕ} {b : UInt8}
    (h : slice content n (n + 1) = [b]) : content.getD n 0 = b := by
  have hget : (slice content n (n + 1))[0]? = some b := by rw [h]; rfl
  rw [slice, List.getElem?_drop, List.getElem?_take_of_lt (by omega)] at hget
  rw [List.getD_eq_getElem?_getD, show n = n + 0 from rfl, hget]
  rfl

/-- A header of the current version is read back from the start of any input. -/
lemma readFromBytes_wire (h : ObjectHeader) (hversion : h.version = currentVersion)
    (rest : List UInt8) : readFromBytes (h.wire ++ rest) = .ok h := by
  have hlength : ¬ (h.wire ++ rest).length < 32 := by
    rw [List.length_append, length_wire]
    omega
  have hentry : slice (h.wire ++ rest) 0 4 = magicValue ++ [h.version] := by
    have hwire : h.wire ++ rest = [] ++ ((magicValue ++ [h.version]) ++
        ((h.pieces.drop 2).flatten ++ rest)) := by
      simp only [wire, pieces, List.flatten_cons, List.flatten_nil, List.drop_succ_cons,
        List.drop_zero, List.nil_append, List.append_assoc]
    rw [hwire]
    exact slice_append [] _ _ rfl rfl
  have hcompression : slice (h.wire ++ rest) 4 9 = h.compressionType.wire :=
    slice_wire h rest [magicValue, [h.version]] rfl rfl (by rw [CompressionTypes.length_wire])
  have htags : slice (h.wire ++ rest) 9 11 = Number.toLeBytes h.tagsStart :=
    slice_wire h rest (h.pieces.take 3) rfl (by simp [pieces, magicValue])
      (by rw [Number.length_toLeBytes]; rfl)
  have hstart : slice (h.wire ++ rest) 11 15 = Number.toLeBytes h.contentStart :=
    slice_wire h rest (h.pieces.take 4) rfl
      (by simp [pieces, magicValue, Number.length_toLeBytes, Number.width])
      (by rw [Number.length_toLeBytes]; rfl)
  have hcontent : slice (h.wire ++ rest) 15 23 = Number.toLeBytes h.contentLength :=
    slice_wire h rest (h.pieces.take 5) rfl
      (by simp [pieces, magicValue, Number.length_toLeBytes, Number.width])
      (by rw [Number.length_toLeBytes]; rfl)
  have hflags : slice (h.wire ++ rest) 23 24 = [h.bitFlags] :=
    slice_wire h rest (h.pieces.take 6) rfl
      (by simp [pieces, magicValue, Number.length_toLeBytes, Number.width]) rfl
  have hversionByte : headerEntry (slice (h.wire ++ rest) 0 4) = .ok h.version := by
    rw [hentry]
    rfl
  unfold readFromBytes
  rw [if_neg hlength, hversionByte, getD_of_slice hflags, hcompression,
    CompressionTypes.tryFrom_wire, htags, hstart, hcontent]
  simp only [Number.fromLeBytes_toLeBytes]
  show (do if h.version ≠ currentVersion then throw (.unsupportedVersion h.version)
           return h : Except EncodingError ObjectHeader) = .ok h
  rw [if_neg (not_not_intro hversion)]
  rfl

/-- Only headers of the current version are read. -/
lemma version_of_readFromBytes {content : List UInt8} {h : ObjectHeader}
    (hread : readFromBytes content = .ok h) : h.version = currentVersion := by
  unfold readFromBytes at hread
  simp only [bind, Except.bind] at hread
  split at hread
  · cases hread
  · split at hread
    · cases hread
    · rename_i version _
      by_cases hversion : version = currentVersion
      · rw [if_neg (not_not_intro hversion)] at hread
        split at hread
        · cases hread
        · cases hread
          exact hversion
      · rw [if_pos hversion] at hread
        cases hread

end ObjectHeader

end TuxEncoding
