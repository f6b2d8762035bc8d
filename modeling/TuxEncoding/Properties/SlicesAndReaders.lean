import TuxEncoding.Codec.FromBytes
import TuxEncoding.Codec.Measure

/-!
# Slices and readers

`read_from_bytes` against `read_from_reader`, for the types that override it: the same value from
the same bytes, and an error where the reader has one.

* `number_agrees_iff`, `String.agrees_iff`: a number or a string panics on a slice that is shorter
  than its fixed part and agrees on every other.
* `ObjectHeader.agrees`, `CompressionTypes.agrees` and their siblings check the length first and
  agree on every slice.
-/

namespace TuxEncoding

open Bytes OverridesReadFromBytes

set_option linter.unusedSectionVars false

/-! ## What is asked -/

/-- `read_from_bytes` returns without panicking, a value exactly when `read_from_reader` on a cursor
over the slice returns that value. -/
def FromBytesAgrees (α : Type) [TuxIOType α] [ReadableObjectType α] [OverridesReadFromBytes α]
    (bytes : List UInt8) : Prop :=
  ∃ r : Except EncodingError α, OverridesReadFromBytes.readFromBytes bytes = ofExcept r ∧
    ∀ v, r = .ok v ↔ ∃ c, readFromReader ⟨bytes, 0⟩ = .ok (v, c)

section agrees

variable {α β : Type} [TuxIOType α] [ReadableObjectType α] [OverridesReadFromBytes α]
  {bytes : List UInt8}

/-- Both sides end in one `Result`. -/
lemma fromBytesAgrees_of_except {r : Except EncodingError α} {c : Cursor}
    (hslice : OverridesReadFromBytes.readFromBytes bytes = ofExcept r)
    (hread : (readFromReader : Decoder α) ⟨bytes, 0⟩ = (liftM r : Decoder α) c) :
    FromBytesAgrees α bytes := by
  refine ⟨r, hslice, fun v => ?_⟩
  rw [hread]
  cases r with
  | error e => exact iff_of_false (by simp) (by rintro ⟨c, ⟨⟩⟩)
  | ok w =>
      constructor
      · rintro ⟨⟩
        exact ⟨_, rfl⟩
      · rintro ⟨c, ⟨⟩⟩
        rfl

lemma fromBytesAgrees_of_error {e e' : EncodingError}
    (hslice : OverridesReadFromBytes.readFromBytes bytes = (throw e : Sliced α))
    (hread : (readFromReader : Decoder α) ⟨bytes, 0⟩ = .error e') : FromBytesAgrees α bytes := by
  refine ⟨.error e, hslice, fun w => ?_⟩
  rw [hread]
  simp

lemma not_fromBytesAgrees_of_panic
    (h : OverridesReadFromBytes.readFromBytes bytes = (outOfBounds : Sliced α)) :
    ¬ FromBytesAgrees α bytes := by
  rintro ⟨r, hr, -⟩
  rw [h] at hr
  cases hr

/-- A decoder that reads `n` bytes first and then computes. -/
lemma fromBytesAgrees_of_buffer {n : ℕ} (f : List UInt8 → Except EncodingError α)
    (hread : (readFromReader : Decoder α) = (do let buffer ← readExact n; liftM (f buffer)))
    (hshort : bytes.length < n →
      ∃ e, OverridesReadFromBytes.readFromBytes bytes = (throw e : Sliced α))
    (hlong : n ≤ bytes.length →
      OverridesReadFromBytes.readFromBytes bytes = ofExcept (f (bytes.take n))) :
    FromBytesAgrees α bytes := by
  by_cases hlen : n ≤ bytes.length
  · have hbuffer : readExact n ⟨bytes, 0⟩ = .ok (bytes.take n, ⟨bytes, 0 + n⟩) := if_pos hlen
    have hreader : (readFromReader : Decoder α) ⟨bytes, 0⟩ =
        (liftM (f (bytes.take n)) : Decoder α) ⟨bytes, 0 + n⟩ := by
      rw [hread, bind_of_ok hbuffer]
    exact fromBytesAgrees_of_except (hlong hlen) hreader
  · obtain ⟨e, he⟩ := hshort (Nat.not_le.mp hlen)
    have hbuffer : readExact n ⟨bytes, 0⟩ = .error (.ioError shortRead) := if_neg hlen
    have hreader : (readFromReader : Decoder α) ⟨bytes, 0⟩ = .error (.ioError shortRead) := by
      rw [hread]
      show (readExact n ⟨bytes, 0⟩ >>= fun p => _) = _
      rw [hbuffer]
      rfl
    exact fromBytesAgrees_of_error he hreader

end agrees

/-! ## Slices within their bounds -/

section slices

variable {bytes : List UInt8}

lemma sliced_of_le {lo hi : ℕ} (hlo : lo ≤ hi) (hhi : hi ≤ bytes.length) :
    sliced bytes lo hi = pure ((bytes.take hi).drop lo) := if_pos ⟨hlo, hhi⟩

/-- A slice that ends behind the bytes panics, whatever is to be done with it. -/
lemma sliced_bind_of_gt {α : Type} {lo hi : ℕ} (h : bytes.length < hi) (f : List UInt8 → Sliced α) :
    (sliced bytes lo hi >>= f) = outOfBounds := by
  have hout : sliced bytes lo hi = outOfBounds := if_neg fun hin => Nat.not_le.mpr h hin.2
  rw [hout]
  rfl

lemma indexed_of_lt {i : ℕ} (h : i < bytes.length) : indexed bytes i = pure (bytes.getD i 0) := by
  rw [indexed, List.getD_eq_getElem?_getD, List.getElem?_eq_getElem h]
  rfl

lemma tryIntoArray_of_length {n : ℕ} (h : bytes.length = n) : tryIntoArray n bytes = pure bytes :=
  if_pos h

/-- A slice within the bounds has its length and so becomes an array of it. -/
lemma sliced_bind_tryIntoArray {α : Type} {lo hi n : ℕ} (hn : lo + n = hi)
    (hhi : hi ≤ bytes.length) (f : List UInt8 → Sliced α) :
    (sliced bytes lo hi >>= fun slice => tryIntoArray n slice >>= f) =
      f ((bytes.take hi).drop lo) := by
  have hlen : ((bytes.take hi).drop lo).length = n := by
    rw [List.length_drop, List.length_take]
    omega
  rw [sliced_of_le (by omega) hhi, pure_bind, tryIntoArray_of_length hlen, pure_bind]

end slices

/-! ## Numbers and strings -/

section number

variable {α : Type} [Number α] {bytes : List UInt8}

lemma number_readFromBytes (h : Number.width α ≤ bytes.length) :
    (OverridesReadFromBytes.readFromBytes bytes : Sliced α) =
      pure (Number.fromLeBytes (bytes.take (Number.width α))) :=
  sliced_bind_tryIntoArray (Nat.zero_add _) h _

lemma number_readFromReader (h : Number.width α ≤ bytes.length) :
    (readFromReader : Decoder α) ⟨bytes, 0⟩ =
      .ok (Number.fromLeBytes (bytes.take (Number.width α)), ⟨bytes, 0 + Number.width α⟩) := by
  have hread : readExact (Number.width α) ⟨bytes, 0⟩ =
      .ok (bytes.take (Number.width α), ⟨bytes, 0 + Number.width α⟩) := if_pos h
  exact bind_of_ok hread

/-- A number agrees with its reader exactly on the slices that are long enough. -/
lemma number_agrees_iff (bytes : List UInt8) :
    FromBytesAgrees α bytes ↔ Number.width α ≤ bytes.length := by
  by_cases h : Number.width α ≤ bytes.length
  · refine iff_of_true ?_ h
    exact fromBytesAgrees_of_except (r := .ok _) (number_readFromBytes h) (number_readFromReader h)
  · refine iff_of_false (not_fromBytesAgrees_of_panic ?_) h
    exact sliced_bind_of_gt (Nat.not_le.mp h) _

end number

/-- A string agrees with its reader exactly on the slices that hold a length prefix. -/
lemma String.agrees_iff (bytes : List UInt8) : FromBytesAgrees String bytes ↔ 2 ≤ bytes.length := by
  by_cases h : 2 ≤ bytes.length
  · refine iff_of_true ?_ h
    have hnumber : (OverridesReadFromBytes.readFromBytes (bytes.take 2) : Sliced UInt16) =
        pure (Number.fromLeBytes (bytes.take 2)) := by
      rw [number_readFromBytes (by rw [List.length_take]; exact Nat.le_min.mpr ⟨Nat.le_refl 2, h⟩)]
      exact congrArg (fun bs => pure (Number.fromLeBytes bs))
        (List.take_of_length_le (by rw [List.length_take]; exact Nat.min_le_left _ _))
    have hprefix : readLength ⟨bytes, 0⟩ =
        .ok ((Number.fromLeBytes (bytes.take 2) : UInt16).toNat, ⟨bytes, 2⟩) :=
      bind_of_ok (number_readFromReader (α := UInt16) h)
    set n := (Number.fromLeBytes (bytes.take 2) : UInt16).toNat with hn
    have hslice : (OverridesReadFromBytes.readFromBytes bytes : Sliced String) =
        if bytes.length < n + 2 then throw .unexpectedEof
        else sliced bytes 2 (n + 2) >>= fun buffer => ofExcept (textOf buffer) := by
      show (sliced bytes 0 2 >>= fun lengthBytes =>
        (OverridesReadFromBytes.readFromBytes lengthBytes : Sliced UInt16) >>= _) = _
      rw [sliced_of_le (Nat.zero_le 2) h, pure_bind, List.drop_zero, hnumber, pure_bind, ← hn]
      split_ifs <;> rfl
    by_cases hlen : n + 2 ≤ bytes.length
    · have hread : readExact n ⟨bytes, 2⟩ = .ok ((bytes.drop 2).take n, ⟨bytes, 2 + n⟩) :=
        if_pos (by show n ≤ bytes.length - 2; omega)
      have hcut : (bytes.take (n + 2)).drop 2 = (bytes.drop 2).take n := List.drop_take ..
      rw [if_neg (Nat.not_lt.mpr hlen), sliced_of_le (by omega) hlen, pure_bind, hcut] at hslice
      have hreader : (readFromReader : Decoder String) ⟨bytes, 0⟩ =
          (liftM (textOf ((bytes.drop 2).take n)) : Decoder String) ⟨bytes, 2 + n⟩ := by
        show (readLength >>= fun length => readExact length >>= fun buffer => _) _ = _
        rw [bind_of_ok hprefix, bind_of_ok hread, textOf]
        cases fromUtf8 ((bytes.drop 2).take n) <;> rfl
      exact fromBytesAgrees_of_except hslice hreader
    · have hread : readExact n ⟨bytes, 2⟩ = .error (.ioError shortRead) :=
        if_neg (by show ¬ n ≤ bytes.length - 2; omega)
      have hreader :
          (readFromReader : Decoder String) ⟨bytes, 0⟩ = .error (.ioError shortRead) := by
        show (readLength >>= fun length => readExact length >>= fun buffer => _) _ = _
        rw [bind_of_ok hprefix]
        show (readExact n ⟨bytes, 2⟩ >>= _) = _
        rw [hread]
        rfl
      rw [if_pos (Nat.not_le.mp hlen)] at hslice
      exact fromBytesAgrees_of_error hslice hreader
  · refine iff_of_false (not_fromBytesAgrees_of_panic ?_) h
    exact sliced_bind_of_gt (Nat.not_le.mp h) _

/-! ## Compression types -/

lemma checkDiscriminator_of_lt {discriminator : UInt8} {bytes : List UInt8}
    (h : bytes.length < 5) : checkDiscriminator discriminator bytes = throw .unexpectedEof := by
  unfold checkDiscriminator
  rw [if_pos h]
  rfl

/-- Five bytes are decoded by their first. -/
lemma checkDiscriminator_of_le {discriminator : UInt8} {bytes : List UInt8}
    (h : 5 ≤ bytes.length) : checkDiscriminator discriminator bytes =
      if (bytes.take 5).headD 0 ≠ discriminator then
        throw (.invalidCompressionType ((bytes.take 5).headD 0))
      else pure () := by
  unfold checkDiscriminator
  rw [if_neg (Nat.not_lt.mpr h)]
  show (indexed bytes 0 >>= _) = _
  rw [indexed_of_lt (by omega), pure_bind]
  cases bytes with
  | nil => cases h
  | cons b bytes => rfl

lemma readLevel_of_le {α : Type} [Number α] {bytes : List UInt8} (h : 5 ≤ bytes.length) :
    (readLevel bytes : Sliced α) = pure (Number.fromLeBytes (((bytes.take 5).drop 1).take 4)) := by
  have hslice : ((bytes.take 5).drop 1).take 4 = (bytes.take 5).drop 1 :=
    List.take_of_length_le (by rw [List.length_drop, List.length_take]; omega)
  rw [hslice]
  show (sliced bytes 1 5 >>= fun slice => tryIntoArray 4 slice >>= fun array =>
    pure (Number.fromLeBytes array)) = _
  rw [sliced_bind_tryIntoArray (show 1 + 4 = 5 from rfl) h]

section payload

variable {α : Type} [TuxIOType α] [ReadableObjectType α] [OverridesReadFromBytes α]
  {discriminator : UInt8} {rest : Sliced α} {bytes : List UInt8}

/-- A payload is checked and then decoded. -/
lemma payload_readFromBytes {a : α} (h : 5 ≤ bytes.length)
    (hslice : OverridesReadFromBytes.readFromBytes bytes =
      (do checkDiscriminator discriminator bytes; rest))
    (hrest : rest = pure a) :
    OverridesReadFromBytes.readFromBytes bytes =
      ofExcept (if (bytes.take 5).headD 0 ≠ discriminator then
        .error (.invalidCompressionType ((bytes.take 5).headD 0))
      else .ok a) := by
  rw [hslice, checkDiscriminator_of_le h, hrest]
  split_ifs <;> rfl

/-- A payload agrees with its reader on every slice. -/
lemma payload_agrees {payload : List UInt8 → α}
    (hread : (readFromReader : Decoder α) = readPayload discriminator payload)
    (hslice : OverridesReadFromBytes.readFromBytes bytes =
      (do checkDiscriminator discriminator bytes; rest))
    (hrest : 5 ≤ bytes.length → rest = pure (payload (bytes.take 5))) :
    FromBytesAgrees α bytes := by
  refine fromBytesAgrees_of_buffer (n := 5) (fun buffer =>
    if buffer.headD 0 ≠ discriminator then .error (.invalidCompressionType (buffer.headD 0))
    else .ok (payload buffer)) ?_ ?_ ?_
  · rw [hread]
    refine bind_congr fun buffer => ?_
    split_ifs <;> rfl
  · intro h
    refine ⟨.unexpectedEof, ?_⟩
    rw [hslice, checkDiscriminator_of_lt h]
    rfl
  · exact fun h => payload_readFromBytes h hslice (hrest h)

end payload

lemma ZStdCompressionType.agrees (bytes : List UInt8) : FromBytesAgrees ZStdCompressionType bytes :=
  payload_agrees rfl rfl fun h => by rw [readLevel_of_le h, pure_bind]

lemma GzipCompressionType.agrees (bytes : List UInt8) : FromBytesAgrees GzipCompressionType bytes :=
  payload_agrees rfl rfl fun h => by rw [readLevel_of_le h, pure_bind]

lemma NoCompression.agrees (bytes : List UInt8) : FromBytesAgrees NoCompression bytes :=
  payload_agrees rfl rfl fun _ => rfl

/-- `try_from` on an array is `try_from` on the slice of its bytes. -/
lemma CompressionTypes.tryFromArray_eq {value : List UInt8} (h : value.length = 5) :
    tryFromArray value = ofExcept (tryFrom value) := by
  have htake : value.take 5 = value := List.take_of_length_le (Nat.le_of_eq h)
  have hlong : ¬ value.length < 5 := by omega
  have hle : 5 ≤ value.length := Nat.le_of_eq h.symm
  have hzstd := payload_readFromBytes (α := ZStdCompressionType) hle rfl
    (by rw [readLevel_of_le hle, pure_bind])
  have hgzip := payload_readFromBytes (α := GzipCompressionType) hle rfl
    (by rw [readLevel_of_le hle, pure_bind])
  rw [htake] at hzstd hgzip
  rw [tryFromArray, tryFrom, if_neg hlong, indexed_of_lt (by omega), pure_bind, hzstd, hgzip]
  obtain ⟨b, rest, rfl⟩ : ∃ b rest, value = b :: rest := by
    cases value with
    | nil => cases h
    | cons b rest => exact ⟨b, rest, rfl⟩
  rcases eq_or_ne b 0 with rfl | hnone
  · rfl
  rcases eq_or_ne b 1 with rfl | hone
  · rfl
  rcases eq_or_ne b 2 with rfl | htwo
  · rfl
  simp only [List.getD_cons_zero, List.headD_cons]
  rfl

lemma CompressionTypes.agrees (bytes : List UInt8) : FromBytesAgrees CompressionTypes bytes := by
  refine fromBytesAgrees_of_buffer (n := 5) tryFrom rfl ?_ ?_
  · intro h
    exact ⟨.unexpectedEof, if_pos h⟩
  · intro h
    have hlen : (bytes.take 5).length = 5 := List.length_take_of_le h
    rw [← tryFromArray_eq hlen]
    show (if bytes.length < 5 then _ else _) = _
    rw [if_neg (Nat.not_lt.mpr h)]
    exact sliced_bind_tryIntoArray (Nat.zero_add 5) h _

/-! ## The header -/

namespace ObjectHeader

lemma length_slice {content : List UInt8} {lo hi : ℕ} (h : hi ≤ content.length) :
    (slice content lo hi).length = hi - lo := by
  rw [slice, List.length_drop, List.length_take]
  omega

lemma entryOfSlice_eq {entry : List UInt8} (h : entry.length = 4) :
    entryOfSlice entry = ofExcept (headerEntry entry) := by
  unfold entryOfSlice headerEntry slice
  rw [sliced_of_le (by omega) (by omega), pure_bind, indexed_of_lt (by omega)]
  split_ifs <;> rfl

lemma tryFromSlice_eq {value : List UInt8} (h : value.length = 5) :
    CompressionTypes.tryFromSlice value = ofExcept (CompressionTypes.tryFrom value) := by
  have htake : value.take 5 = value := List.take_of_length_le (Nat.le_of_eq h)
  rw [← CompressionTypes.tryFromArray_eq h]
  unfold CompressionTypes.tryFromSlice
  rw [if_neg (by omega)]
  refine (sliced_bind_tryIntoArray (Nat.zero_add 5) (Nat.le_of_eq h.symm) _).trans ?_
  rw [htake]
  rfl

/-- On a slice that is long enough no index is out of bounds. -/
lemma fromSlice_eq {content : List UInt8} (h : 32 ≤ content.length) :
    (OverridesReadFromBytes.readFromBytes content : Sliced ObjectHeader) =
      ofExcept (ObjectHeader.readFromBytes content) := by
  show (if content.length < 32 then _ else _) = _
  unfold ObjectHeader.readFromBytes
  rw [if_neg (Nat.not_lt.mpr h), if_neg (Nat.not_lt.mpr h)]
  show (sliced content 0 4 >>= _) = ofExcept (headerEntry (slice content 0 4) >>= _)
  have hentry :
      entryOfSlice ((content.take 4).drop 0) = ofExcept (headerEntry (slice content 0 4)) :=
    entryOfSlice_eq (length_slice (by omega))
  have hcompression : CompressionTypes.tryFromSlice ((content.take 9).drop 4) =
      ofExcept (CompressionTypes.tryFrom (slice content 4 9)) :=
    tryFromSlice_eq (length_slice (by omega))
  rw [sliced_of_le (by omega) (by omega), pure_bind, hentry]
  cases headerEntry (slice content 0 4) with
  | error e => rfl
  | ok version =>
      show (if version ≠ currentVersion then _ else _) =
        ofExcept (if version ≠ currentVersion then _ else _)
      split_ifs
      · rfl
      · show (sliced content 4 9 >>= _) =
          ofExcept (CompressionTypes.tryFrom (slice content 4 9) >>= _)
        rw [sliced_of_le (by omega) (by omega), pure_bind, hcompression]
        cases CompressionTypes.tryFrom (slice content 4 9) with
        | error e => rfl
        | ok compressionType =>
            show (sliced content 9 11 >>= fun slice => tryIntoArray 2 slice >>= fun tagsStart =>
              sliced content 11 15 >>= fun slice => tryIntoArray 4 slice >>= fun contentStart =>
              sliced content 15 23 >>= fun slice => tryIntoArray 8 slice >>= fun contentLength =>
              indexed content 23 >>= _) = _
            rw [sliced_bind_tryIntoArray (show 9 + 2 = 11 from rfl) (by omega),
              sliced_bind_tryIntoArray (show 11 + 4 = 15 from rfl) (by omega),
              sliced_bind_tryIntoArray (show 15 + 8 = 23 from rfl) (by omega),
              indexed_of_lt (by omega)]
            rfl

/-- Only the first 32 bytes are looked at. -/
lemma readFromBytes_take {content : List UInt8} (h : 32 ≤ content.length) :
    ObjectHeader.readFromBytes (content.take 32) = ObjectHeader.readFromBytes content := by
  have hlen : (content.take 32).length = 32 := List.length_take_of_le h
  have hslice : ∀ lo hi, hi ≤ 32 → slice (content.take 32) lo hi = slice content lo hi := by
    intro lo hi hhi
    rw [slice, List.take_take, Nat.min_eq_left hhi]
    rfl
  have hflags : (content.take 32).getD 23 0 = content.getD 23 0 := by
    rw [List.getD_eq_getElem?_getD, List.getD_eq_getElem?_getD,
      List.getElem?_take_of_lt (by omega)]
  unfold ObjectHeader.readFromBytes
  rw [if_neg (by omega), if_neg (by omega), hflags, hslice 0 4 (by omega), hslice 4 9 (by omega),
    hslice 9 11 (by omega), hslice 11 15 (by omega), hslice 15 23 (by omega)]

end ObjectHeader

lemma ObjectHeader.agrees (bytes : List UInt8) : FromBytesAgrees ObjectHeader bytes := by
  refine fromBytesAgrees_of_buffer (n := 32) ObjectHeader.readFromBytes rfl ?_ ?_
  · intro h
    exact ⟨.unexpectedEof, if_pos h⟩
  · intro h
    rw [fromSlice_eq h, readFromBytes_take h]

/-! ## Header names -/

/-- A header name is decoded from what the default decodes a byte vector to. -/
lemma MetaKey.agrees [Http] (bytes : List UInt8) : FromBytesAgrees MetaKey bytes := by
  cases hcontent : (readFromReader : Decoder (List UInt8)) ⟨bytes, 0⟩ with
  | error e =>
      have hdefault : (readFromBytes bytes : Except EncodingError (List UInt8)) = .error e := by
        unfold readFromBytes
        rw [hcontent]
        rfl
      have hslice : (OverridesReadFromBytes.readFromBytes bytes : Sliced MetaKey) = throw e := by
        show (ofExcept (readFromBytes bytes) >>= _) = _
        rw [hdefault]
        rfl
      have hread : (readFromReader : Decoder MetaKey) ⟨bytes, 0⟩ = .error e := by
        show ((readFromReader : Decoder (List UInt8)) ⟨bytes, 0⟩ >>= _) = _
        rw [hcontent]
        rfl
      exact fromBytesAgrees_of_error hslice hread
  | ok p =>
      have hdefault : (readFromBytes bytes : Except EncodingError (List UInt8)) = .ok p.1 := by
        unfold readFromBytes
        rw [hcontent]
        rfl
      have hslice : (OverridesReadFromBytes.readFromBytes bytes : Sliced MetaKey) =
          ofExcept (metaKeyOf p.1) := by
        show (ofExcept (readFromBytes bytes) >>= _) = _
        rw [hdefault]
        rfl
      have hread : (readFromReader : Decoder MetaKey) ⟨bytes, 0⟩ =
          (liftM (metaKeyOf p.1) : Decoder MetaKey) p.2 := by
        show ((readFromReader : Decoder (List UInt8)) >>= _) _ = _
        rw [bind_of_ok hcontent, metaKeyOf]
        cases Http.fromBytes p.1 <;> rfl
      exact fromBytesAgrees_of_except hslice hread

/-! ## The types that override `read_from_bytes` -/

inductive OverridingType
  | u8 | u16 | u32 | u64
  | i8 | i16 | i32 | i64
  | f32 | f64
  | string
  | header
  | compressionTypes
  | zstd
  | gzip
  | noCompression
  | metaKey

namespace OverridingType

/-- `read_from_bytes` of the type agrees with its reader on a slice. -/
def Agrees [Http] : OverridingType → List UInt8 → Prop
  | u8 => FromBytesAgrees UInt8
  | u16 => FromBytesAgrees UInt16
  | u32 => FromBytesAgrees UInt32
  | u64 => FromBytesAgrees UInt64
  | i8 => FromBytesAgrees Int8
  | i16 => FromBytesAgrees Int16
  | i32 => FromBytesAgrees Int32
  | i64 => FromBytesAgrees Int64
  | f32 => FromBytesAgrees F32
  | f64 => FromBytesAgrees F64
  | string => FromBytesAgrees String
  | header => FromBytesAgrees ObjectHeader
  | compressionTypes => FromBytesAgrees CompressionTypes
  | zstd => FromBytesAgrees ZStdCompressionType
  | gzip => FromBytesAgrees GzipCompressionType
  | noCompression => FromBytesAgrees NoCompression
  | metaKey => FromBytesAgrees MetaKey

/-- How many bytes are taken without looking whether they are there: the width of a number, the
length prefix of a string. -/
def unchecked : OverridingType → ℕ
  | u8 => 1
  | u16 => 2
  | u32 => 4
  | u64 => 8
  | i8 => 1
  | i16 => 2
  | i32 => 4
  | i64 => 8
  | f32 => 4
  | f64 => 8
  | string => 2
  | _ => 0

end OverridingType

/-- `read_from_bytes` agrees with `read_from_reader` exactly on the slices that hold what it takes
unchecked, and it panics on the others. -/
theorem fromBytes_agrees_iff [Http] (t : OverridingType) (bytes : List UInt8) :
    t.Agrees bytes ↔ t.unchecked ≤ bytes.length := by
  cases t with
  | u8 => exact number_agrees_iff (α := UInt8) bytes
  | u16 => exact number_agrees_iff (α := UInt16) bytes
  | u32 => exact number_agrees_iff (α := UInt32) bytes
  | u64 => exact number_agrees_iff (α := UInt64) bytes
  | i8 => exact number_agrees_iff (α := Int8) bytes
  | i16 => exact number_agrees_iff (α := Int16) bytes
  | i32 => exact number_agrees_iff (α := Int32) bytes
  | i64 => exact number_agrees_iff (α := Int64) bytes
  | f32 => exact number_agrees_iff (α := F32) bytes
  | f64 => exact number_agrees_iff (α := F64) bytes
  | string => exact String.agrees_iff bytes
  | header => exact iff_of_true (ObjectHeader.agrees bytes) (Nat.zero_le _)
  | compressionTypes => exact iff_of_true (CompressionTypes.agrees bytes) (Nat.zero_le _)
  | zstd => exact iff_of_true (ZStdCompressionType.agrees bytes) (Nat.zero_le _)
  | gzip => exact iff_of_true (GzipCompressionType.agrees bytes) (Nat.zero_le _)
  | noCompression => exact iff_of_true (NoCompression.agrees bytes) (Nat.zero_le _)
  | metaKey => exact iff_of_true (MetaKey.agrees bytes) (Nat.zero_le _)

/-- One byte is no `u16` and no string, and both panic on it. -/
theorem not_fromBytesAgrees_short :
    (¬ ∀ bytes, FromBytesAgrees UInt16 bytes) ∧ ¬ ∀ bytes, FromBytesAgrees String bytes :=
  ⟨fun h => absurd ((number_agrees_iff [7]).mp (h [7])) (by decide),
    fun h => absurd ((String.agrees_iff [7]).mp (h [7])) (by decide)⟩

end TuxEncoding
