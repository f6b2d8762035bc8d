import TuxEncoding.Codec.Header
import TuxEncoding.Codec.Tags

/-!
# The async codec

`read_from_async_reader` of `src/tokio_io.rs` and of the types that implement it, which read in
other pieces than `read_from_reader` does and dispatch on type keys by hand.

* `Agrees` relates an async decoder to a sync one: the same value after the same bytes, or an error
  of the same variant. It is kept by sequencing (`Agrees.bind`) and by the hand-written dispatch
  (`agrees_dispatch`).
* `Fixed` is a decoder that reads a number of bytes and then only computes, so that it does not
  matter whether the bytes come in one piece (`agrees_readFixedSize`).
* `async_codec_agrees`: the two codecs agree on every byte string, accepted or not.
-/

namespace TuxEncoding

open Bytes

set_option linter.unusedSectionVars false

variable {α β : Type}

/-! ## Reading -/

/-- `read_exact` on tokio's side: `n` bytes, or an error of the kind `UnexpectedEof`. -/
def readAsync (message : String) (n : ℕ) : Decoder (List UInt8) := fun c =>
  if n ≤ c.bytes.length - c.pos then
    .ok ((c.bytes.drop c.pos).take n, { c with pos := c.pos + n })
  else
    .error (.ioError ⟨.unexpectedEof, message⟩)

/-- `reader.read_exact(&mut buffer).await.map_err(EncodingError::IOError)?` -/
def readExactAsync (n : ℕ) : Decoder (List UInt8) := readAsync "early eof" n

/-- `reader.read_u8().await.map_err(EncodingError::IOError)?` -/
def readU8 : Decoder UInt8 := do
  let buffer ← readAsync "unexpected end of file" 1
  return Number.fromLeBytes buffer

/-- `reader.read_u16_le().await.map_err(EncodingError::IOError)?` -/
def readU16Le : Decoder UInt16 := do
  let buffer ← readAsync "unexpected end of file" 2
  return Number.fromLeBytes buffer

/-- `AsyncReadableObjectType` -/
class AsyncReadableObjectType (α : Type) where
  readFromAsyncReader : Decoder α

export AsyncReadableObjectType (readFromAsyncReader)

/-- `ReadableObjectType::read_from_bytes`, which drops what is left over. -/
def readFromBytes [TuxIOType α] [ReadableObjectType α] (bytes : List UInt8) :
    Except EncodingError α := do
  let (a, _) ← (readFromReader : Decoder α) ⟨bytes, 0⟩
  return a

/-- `read_length_prefixed` -/
def readLengthPrefixed : Decoder (List UInt8) := do
  let length ← readU16Le
  readExactAsync length.toNat

/-- The body that the `async_fixed_size!` macro gives a type of `n` bytes. -/
def readFixedSize [TuxIOType α] [ReadableObjectType α] (n : ℕ) : Decoder α := do
  let buffer ← readExactAsync n
  liftM (readFromBytes buffer : Except EncodingError α)

instance [Number α] : AsyncReadableObjectType α where
  readFromAsyncReader := do
    let buffer ← readExactAsync (Number.width α)
    return Number.fromLeBytes buffer

instance : AsyncReadableObjectType String where
  readFromAsyncReader := do
    let buffer ← readLengthPrefixed
    match fromUtf8 buffer with
    | some s => return s
    | none => throw .invalidUtf8

instance : AsyncReadableObjectType (List UInt8) where
  readFromAsyncReader := readLengthPrefixed

instance : AsyncReadableObjectType RawDate := ⟨readFixedSize 4⟩
instance : AsyncReadableObjectType RawTime := ⟨readFixedSize 8⟩
instance : AsyncReadableObjectType RawTimeZone := ⟨readFixedSize 4⟩
instance : AsyncReadableObjectType RawDateTime := ⟨readFixedSize 16⟩

instance : AsyncReadableObjectType Uuid where
  readFromAsyncReader := do
    let buf ← readExactAsync 16
    return Uuid.fromBytes buf

instance : AsyncReadableObjectType ObjectHeader where
  readFromAsyncReader := do
    let buf ← readExactAsync 32
    liftM (ObjectHeader.readFromBytes buf)

/-- The arm of `bool`, which has no async reader of its own. -/
def readBoolAsync : Decoder Bool := do
  let byte ← readU8
  match byte with
  | 0 => return false
  | 1 => return true
  | byte => throw (.invalidValue "bool" byte)

instance : AsyncReadableObjectType ValueType where
  readFromAsyncReader := do
    let key ← readU8
    if key = typeKey String then ValueType.string <$> readFromAsyncReader
    else if key = typeKey (List UInt8) then ValueType.bytes <$> readFromAsyncReader
    else if key = typeKey Bool then ValueType.bool <$> readBoolAsync
    else if key = typeKey UInt8 then ValueType.u8 <$> readFromAsyncReader
    else if key = typeKey UInt16 then ValueType.u16 <$> readFromAsyncReader
    else if key = typeKey UInt32 then ValueType.u32 <$> readFromAsyncReader
    else if key = typeKey UInt64 then ValueType.u64 <$> readFromAsyncReader
    else if key = typeKey Int8 then ValueType.i8 <$> readFromAsyncReader
    else if key = typeKey Int16 then ValueType.i16 <$> readFromAsyncReader
    else if key = typeKey Int32 then ValueType.i32 <$> readFromAsyncReader
    else if key = typeKey Int64 then ValueType.i64 <$> readFromAsyncReader
    else if key = typeKey F32 then ValueType.f32 <$> readFromAsyncReader
    else if key = typeKey F64 then ValueType.f64 <$> readFromAsyncReader
    else if key = typeKey RawDate then ValueType.date <$> readFromAsyncReader
    else if key = typeKey RawTime then ValueType.time <$> readFromAsyncReader
    else if key = typeKey RawDateTime then ValueType.rawDateTime <$> readFromAsyncReader
    else if key = typeKey Uuid then ValueType.uuid <$> readFromAsyncReader
    else throw (.unknownTypeKey key)

/-- The loop of the async reader of a block, with `n` entries to go. -/
def Tags.readEntriesAsync {Key : Type} [DecidableEq Key] [AsyncReadableObjectType Key] :
    ℕ → Tags Key → Decoder (Tags Key)
  | 0, tags => pure tags
  | n + 1, tags => do
      let key ← readFromAsyncReader
      let value ← readFromAsyncReader
      readEntriesAsync n (tags.insert key value)

instance {Key : Type} [DecidableEq Key] [AsyncReadableObjectType Key] :
    AsyncReadableObjectType (Tags Key) where
  readFromAsyncReader := do
    let count ← readU16Le
    Tags.readEntriesAsync count.toNat Tags.new

/-! ## Agreement -/

/-- Errors of one variant; I/O errors are of one kind, and the others say the same. -/
def EncodingError.SameVariant : EncodingError → EncodingError → Prop
  | .ioError a, .ioError b => a.kind = b.kind
  | a, b => a = b

lemma EncodingError.SameVariant.refl (e : EncodingError) : e.SameVariant e := by
  cases e <;> rfl

/-- The same value after the same bytes, or an error of the same variant. -/
def Agrees (async sync : Decoder α) : Prop :=
  ∀ c, match async c, sync c with
    | .ok r, .ok r' => r = r'
    | .error e, .error e' => e.SameVariant e'
    | _, _ => False

lemma Agrees.refl (dec : Decoder α) : Agrees dec dec := by
  intro c
  cases dec c with
  | ok r => rfl
  | error e => exact EncodingError.SameVariant.refl e

lemma Agrees.bind {a s : Decoder α} {f g : α → Decoder β} (h : Agrees a s)
    (hf : ∀ x, Agrees (f x) (g x)) : Agrees (a >>= f) (s >>= g) := by
  intro c
  show match (a c >>= fun p => f p.1 p.2), (s c >>= fun p => g p.1 p.2) with
    | .ok r, .ok r' => r = r'
    | .error e, .error e' => e.SameVariant e'
    | _, _ => False
  have hc := h c
  cases ha : a c with
  | ok r =>
      cases hs : s c with
      | ok r' =>
          rw [ha, hs] at hc
          obtain rfl : r = r' := hc
          exact hf r.1 r.2
      | error e' =>
          rw [ha, hs] at hc
          exact hc.elim
  | error e =>
      cases hs : s c with
      | ok r' =>
          rw [ha, hs] at hc
          exact hc.elim
      | error e' =>
          rw [ha, hs] at hc
          exact hc

/-- The same steps after decoders that agree. -/
lemma Agrees.then {a s : Decoder α} (h : Agrees a s) (f : α → Decoder β) :
    Agrees (a >>= f) (s >>= f) := h.bind fun x => Agrees.refl (f x)

lemma Agrees.map {a s : Decoder α} (h : Agrees a s) (f : α → β) : Agrees (f <$> a) (f <$> s) := by
  rw [map_eq_pure_bind, map_eq_pure_bind]
  exact h.then _

lemma agrees_readAsync (message : String) (n : ℕ) : Agrees (readAsync message n) (readExact n) := by
  intro c
  unfold readAsync readExact
  split_ifs
  · rfl
  · rfl

lemma agrees_number [Number α] :
    Agrees (readFromAsyncReader : Decoder α) (readFromReader : Decoder α) :=
  (agrees_readAsync _ _).then _

lemma agrees_readU8 : Agrees readU8 (readFromReader : Decoder UInt8) :=
  (agrees_readAsync _ _).then _

lemma agrees_readU16Le : Agrees readU16Le (readFromReader : Decoder UInt16) :=
  (agrees_readAsync _ _).then _

/-! ## Decoders of a fixed size -/

/-- The decoder reads `n` bytes and computes `f` of them. -/
def Fixed (n : ℕ) (dec : Decoder α) (f : List UInt8 → α) : Prop :=
  ∀ c, dec c = if n ≤ c.bytes.length - c.pos then
      .ok (f ((c.bytes.drop c.pos).take n), ⟨c.bytes, c.pos + n⟩)
    else .error (.ioError shortRead)

lemma fixed_readExact (n : ℕ) : Fixed n (readExact n) id := fun _ => rfl

lemma Fixed.congr {n : ℕ} {dec : Decoder α} {f g : List UInt8 → α} (h : Fixed n dec f)
    (hfg : ∀ bs, bs.length = n → f bs = g bs) : Fixed n dec g := by
  intro c
  rw [h c]
  split_ifs with hn
  · rw [hfg]
    rw [List.length_take, List.length_drop]
    omega
  · rfl

lemma Fixed.pure (a : α) : Fixed 0 (pure a : Decoder α) fun _ => a := fun _ => rfl

/-- Two decoders of a fixed size, one after the other. -/
lemma Fixed.bind {n m : ℕ} {dec : Decoder α} {f : List UInt8 → α} {g : α → Decoder β}
    {h : α → List UInt8 → β} (hdec : Fixed n dec f) (hg : ∀ a, Fixed m (g a) (h a)) :
    Fixed (n + m) (dec >>= g) fun bs => h (f (bs.take n)) (bs.drop n) := by
  intro c
  show (dec c >>= fun p => g p.1 p.2) = _
  rw [hdec c]
  by_cases hn : n ≤ c.bytes.length - c.pos
  · rw [if_pos hn]
    show g _ ⟨c.bytes, c.pos + n⟩ = _
    rw [hg]
    dsimp only
    rw [Nat.add_assoc, List.take_take, Nat.min_eq_left (Nat.le_add_right n m), List.drop_take,
      Nat.add_sub_cancel_left, List.drop_drop]
    by_cases hm : m ≤ c.bytes.length - (c.pos + n)
    · rw [if_pos hm, if_pos (by omega)]
    · rw [if_neg hm, if_neg (by omega)]
  · rw [if_neg hn, if_neg (by omega)]
    rfl

lemma Fixed.map {n : ℕ} {dec : Decoder α} {f : List UInt8 → α} (h : Fixed n dec f) (g : α → β) :
    Fixed n (do let a ← dec; return g a) fun bs => g (f bs) := by
  refine (h.bind fun a => Fixed.pure (g a)).congr fun bs hbs => ?_
  have hall : bs.take n = bs := List.take_of_length_le (Nat.le_of_eq hbs)
  rw [hall]

lemma fixed_number [Number α] :
    Fixed (Number.width α) (readFromReader : Decoder α) Number.fromLeBytes :=
  (fixed_readExact _).map Number.fromLeBytes

/-- Bytes that are read one by one are read in one piece. -/
lemma fixed_readTimes (n : ℕ) : Fixed n (readTimes (readFromReader : Decoder UInt8) n) id := by
  induction n with
  | zero => exact Fixed.pure []
  | succ n ih =>
      have hread := Fixed.bind (fixed_number (α := UInt8)) fun b => ih.map (b :: ·)
      rw [show Number.width UInt8 = 1 from rfl, Nat.add_comm 1 n] at hread
      refine hread.congr ?_
      rintro (_ | ⟨b, bs⟩) hbs
      · simp at hbs
      · have hbyte : (Number.fromLeBytes [b] : UInt8) = b := by
          show UInt8.ofNat (b.toNat + 256 * 0) = b
          rw [Nat.mul_zero, Nat.add_zero, UInt8.ofNat_toNat]
        show Number.fromLeBytes [b] :: bs = b :: bs
        rw [hbyte]

/-- Reading the bytes first and decoding them then is decoding them on the way. -/
lemma agrees_readFixedSize [TuxIOType α] [ReadableObjectType α] {n : ℕ}
    (hfixed : ∃ f, Fixed n (readFromReader : Decoder α) f) :
    Agrees (readFixedSize n : Decoder α) (readFromReader : Decoder α) := by
  obtain ⟨f, h⟩ := hfixed
  have hsync : (readFromReader : Decoder α) = (do
      let buffer ← readExact n
      liftM (readFromBytes buffer : Except EncodingError α)) := by
    funext c
    show _ = (readExact n c >>= fun p => _)
    rw [h c, fixed_readExact n c]
    split_ifs with hn
    · have hlen : ((c.bytes.drop c.pos).take n).length = n := by
        rw [List.length_take, List.length_drop]
        omega
      have hbytes : (readFromBytes ((c.bytes.drop c.pos).take n) : Except EncodingError α) =
          .ok (f ((c.bytes.drop c.pos).take n)) := by
        unfold readFromBytes
        rw [h, if_pos (by dsimp only; omega), List.drop_zero,
          List.take_of_length_le (Nat.le_of_eq hlen)]
        rfl
      show _ = (liftM (readFromBytes ((c.bytes.drop c.pos).take n) : Except EncodingError α) :
        Decoder α) _
      rw [hbytes]
      rfl
    · rfl
  rw [hsync]
  exact (agrees_readAsync _ _).then _

lemma fixed_rawDate : ∃ f, Fixed 4 (readFromReader : Decoder RawDate) f :=
  ⟨_, Fixed.bind (fixed_number (α := UInt16)) fun _ =>
    Fixed.bind (fixed_number (α := UInt8)) fun _ => (fixed_number (α := UInt8)).map _⟩

lemma fixed_rawTime : ∃ f, Fixed 8 (readFromReader : Decoder RawTime) f :=
  ⟨_, Fixed.bind (fixed_number (α := UInt32)) fun _ => (fixed_number (α := UInt32)).map _⟩

lemma fixed_rawTimeZone : ∃ f, Fixed 4 (readFromReader : Decoder RawTimeZone) f :=
  ⟨_, (fixed_number (α := Int32)).map _⟩

lemma fixed_rawDateTime : ∃ f, Fixed 16 (readFromReader : Decoder RawDateTime) f := by
  obtain ⟨f, hdate⟩ := fixed_rawDate
  obtain ⟨g, htime⟩ := fixed_rawTime
  obtain ⟨h, htimezone⟩ := fixed_rawTimeZone
  exact ⟨_, hdate.bind fun _ => htime.bind fun _ => htimezone.map _⟩

/-! ## Strings, vectors and values -/

/-- A byte vector is read in one piece on one side and byte by byte on the other. -/
lemma agrees_bytes :
    Agrees (readFromAsyncReader : Decoder (List UInt8))
      (readFromReader : Decoder (List UInt8)) := by
  have hsync : (readFromReader : Decoder (List UInt8)) = (do
      let length ← (readFromReader : Decoder UInt16)
      readExact length.toNat) := by
    show (do
      let length ← readLength
      readTimes (readFromReader : Decoder UInt8) length) = _
    unfold readLength
    rw [bind_assoc]
    congr 1
    funext length c
    exact (fixed_readTimes length.toNat c).trans (fixed_readExact length.toNat c).symm
  rw [hsync]
  exact agrees_readU16Le.bind fun length => agrees_readAsync _ _

lemma agrees_string :
    Agrees (readFromAsyncReader : Decoder String) (readFromReader : Decoder String) := by
  show Agrees (do
      let buffer ← readLengthPrefixed
      match fromUtf8 buffer with
      | some s => return s
      | none => throw .invalidUtf8) (do
      let length ← (do let n ← (readFromReader : Decoder UInt16); return n.toNat)
      let buffer ← readExact length
      match fromUtf8 buffer with
      | some s => return s
      | none => throw .invalidUtf8)
  unfold readLengthPrefixed
  simp only [bind_assoc, pure_bind]
  exact agrees_readU16Le.bind fun length => (agrees_readAsync _ _).then _

lemma agrees_uuid : Agrees (readFromAsyncReader : Decoder Uuid) (readFromReader : Decoder Uuid) :=
  (agrees_readAsync _ _).then _

lemma agrees_header :
    Agrees (readFromAsyncReader : Decoder ObjectHeader) (readFromReader : Decoder ObjectHeader) :=
  (agrees_readAsync _ _).then _

lemma agrees_bool : Agrees readBoolAsync (readFromReader : Decoder Bool) := by
  have hbyte : ∀ bs : List UInt8, bs.length = 1 →
      (Number.fromLeBytes bs : UInt8) = bs.headD 0 := by
    intro bs hbs
    obtain ⟨b, rfl⟩ := List.length_eq_one_iff.mp hbs
    show UInt8.ofNat (b.toNat + 256 * 0) = b
    rw [Nat.mul_zero, Nat.add_zero, UInt8.ofNat_toNat]
  have hsync : (readFromReader : Decoder Bool) = (do
      let byte ← (readFromReader : Decoder UInt8)
      match byte with
      | 0 => return false
      | 1 => return true
      | byte => throw (.invalidValue "bool" byte)) := by
    funext c
    show (readExact 1 c >>= fun p => _) = ((readFromReader : Decoder UInt8) c >>= fun p => _)
    rw [fixed_readExact 1 c, (fixed_number (α := UInt8)).congr hbyte c]
    rw [show Number.width UInt8 = 1 from rfl]
    split_ifs <;> rfl
  rw [hsync]
  exact agrees_readU8.then _

namespace ValueType

/-- What the generated reader does with a key, once its arm has been looked up. -/
def dispatch (arm : Option Arm) (key : UInt8) : Decoder ValueType :=
  match arm with
  | some arm => arm.readFromReader
  | none => throw (.unknownTypeKey key)

/-- A branch of the hand-written dispatch against the next arm of the generated one. -/
lemma agrees_dispatch {α : Type} [TuxIOType α] [TypedObjectType α] [ReadableObjectType α]
    (mk : α → ValueType) {key : UInt8} {rest : List Arm} {a : Decoder α} {b : Decoder ValueType}
    (ha : Agrees a (readFromReader : Decoder α))
    (hb : Agrees b (dispatch (rest.find? fun arm => arm.key == key) key)) :
    Agrees (if key = typeKey α then mk <$> a else b)
      (dispatch ((Arm.of mk :: rest).find? fun arm => arm.key == key) key) := by
  have hkey : (Arm.of mk).key = typeKey α := rfl
  by_cases h : key = typeKey α
  · rw [if_pos h, List.find?_cons_of_pos (by rw [hkey, h, beq_self_eq_true])]
    exact ha.map mk
  · rw [if_neg h, List.find?_cons_of_neg (by rw [hkey, beq_iff_eq]; exact Ne.symm h)]
    exact hb

lemma agrees : Agrees (readFromAsyncReader : Decoder ValueType)
    (readFromReader : Decoder ValueType) := by
  refine agrees_readU8.bind fun key => ?_
  show Agrees _ (dispatch (arms.find? fun arm => arm.key == key) key)
  unfold arms
  apply agrees_dispatch _ agrees_string
  apply agrees_dispatch _ agrees_bytes
  apply agrees_dispatch _ agrees_bool
  iterate 10 apply agrees_dispatch _ agrees_number
  apply agrees_dispatch _ (agrees_readFixedSize fixed_rawDate)
  apply agrees_dispatch _ (agrees_readFixedSize fixed_rawTime)
  apply agrees_dispatch _ (agrees_readFixedSize fixed_rawDateTime)
  apply agrees_dispatch _ agrees_uuid
  exact Agrees.refl _

end ValueType

/-! ## Blocks -/

namespace Tags

variable {Key : Type} [DecidableEq Key] [HashOrder Key] [TuxIOType Key] [ReadableObjectType Key]
  [AsyncReadableObjectType Key]

lemma agrees_readEntries
    (hkey : Agrees (readFromAsyncReader : Decoder Key) (readFromReader : Decoder Key)) (n : ℕ)
    (tags : Tags Key) : Agrees (readEntriesAsync n tags) (readEntries n tags) := by
  induction n generalizing tags with
  | zero => exact Agrees.refl _
  | succ n ih => exact hkey.bind fun key => ValueType.agrees.bind fun value => ih _

lemma agrees (hkey : Agrees (readFromAsyncReader : Decoder Key) (readFromReader : Decoder Key)) :
    Agrees (readFromAsyncReader : Decoder (Tags Key)) (readFromReader : Decoder (Tags Key)) := by
  show Agrees (do
      let count ← readU16Le
      readEntriesAsync count.toNat new) (do
      let count ← (do let n ← (readFromReader : Decoder UInt16); return n.toNat)
      readEntries count new)
  simp only [bind_assoc, pure_bind]
  exact agrees_readU16Le.bind fun count => agrees_readEntries hkey count.toNat new

end Tags

/-- The async reader of a type agrees with the sync one. -/
abbrev AsyncAgrees (α : Type) [TuxIOType α] [ReadableObjectType α] [AsyncReadableObjectType α] :
    Prop := Agrees (readFromAsyncReader : Decoder α) (readFromReader : Decoder α)

/-- On every byte string the two codecs give the same value after the same number of bytes, or an
error of the same variant. -/
theorem async_codec_agrees [HashOrder String] :
    AsyncAgrees ValueType ∧ AsyncAgrees (Tags String) ∧ AsyncAgrees ObjectHeader ∧
      AsyncAgrees String ∧ AsyncAgrees (List UInt8) ∧ AsyncAgrees RawDate ∧ AsyncAgrees RawTime ∧
      AsyncAgrees RawTimeZone ∧ AsyncAgrees RawDateTime :=
  ⟨ValueType.agrees, Tags.agrees agrees_string, agrees_header, agrees_string, agrees_bytes,
    agrees_readFixedSize fixed_rawDate, agrees_readFixedSize fixed_rawTime,
    agrees_readFixedSize fixed_rawTimeZone, agrees_readFixedSize fixed_rawDateTime⟩

end TuxEncoding
