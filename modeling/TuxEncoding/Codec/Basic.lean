import TuxEncoding.Lib.Bytes

/-!
# Readers, writers and the traits of the encoding

The bottom layer of the codec: the errors, the two ends of the wire and the traits of `src/lib.rs`.

* A `Decoder` reads from a `Cursor` over a byte string; `readExact` is `Read::read_exact`.
* An `Encoder W` writes to anything that implements `Write`; the two writers the crate uses are a
  growable `Buffer` (`Vec<u8>`) and a `SliceCursor` (`Cursor<&mut [u8]>`), which runs out of room.
* `TuxIOType`, `WritableObjectType`, `ReadableObjectType` and `TypedObjectType` are the traits.

Over it, `ReadsAs` says that a decoder takes exactly a given byte string off the cursor, wherever
the string stands and whatever follows it, and `Codec` packages what a type's three traits owe
each other: a wire format, the limits on it, and the laws that tie `size`, the writer and the
reader to it.
-/

namespace TuxEncoding

open Bytes

/-! ## Errors -/

/-- The kinds of `std::io::ErrorKind` that occur in this crate. -/
inductive ErrorKind
  | notFound
  | alreadyExists
  | unexpectedEof
  | writeZero
  | other
  deriving DecidableEq, Repr

/-- A `std::io::Error`. -/
structure IoError where
  kind : ErrorKind
  message : String
  deriving DecidableEq, Repr

/-- `EncodingError` of `src/lib.rs`. -/
inductive EncodingError
  | ioError (error : IoError)
  | invalidMagic
  | unsupportedVersion (version : UInt8)
  | invalidCompressionType (found : UInt8)
  | unexpectedEof
  | unknownTypeKey (key : UInt8)
  | invalidUtf8
  | invalidValue (typeName : String) (byte : UInt8)
  | typeTooLarge (typeName : String) (size limit : ℕ)
  | tooManyEntries (typeName : String) (count limit : ℕ)
  | lengthMismatch (typeName : String) (expected found : ℕ)
  | otherDecodingError
  | mismatchedObjectType (expected found : UInt8)
  deriving DecidableEq, Repr

/-! ## Reading -/

/-- A `std::io::Cursor` over a byte string. -/
structure Cursor where
  bytes : List UInt8
  pos : ℕ
  deriving DecidableEq, Repr

/-- A function that reads a value off a cursor. -/
abbrev Decoder (α : Type) := StateT Cursor (Except EncodingError) α

/-- The error of `Read::read_exact` on input that is too short. -/
def shortRead : IoError := ⟨.unexpectedEof, "failed to fill whole buffer"⟩

/-- `Read::read_exact` into a buffer of `n` bytes. -/
def readExact (n : ℕ) : Decoder (List UInt8) := fun c =>
  if n ≤ c.bytes.length - c.pos then
    .ok ((c.bytes.drop c.pos).take n, { c with pos := c.pos + n })
  else
    .error (.ioError shortRead)

/-- `reader.stream_position()`. -/
def streamPosition : Decoder ℕ := Cursor.pos <$> get

/-- `reader.seek(SeekFrom::Start(pos))`. -/
def seekStart (pos : ℕ) : Decoder Unit := modify fun c => { c with pos := pos }

/-! ## Writing -/

/-- `std::io::Write`, as far as the encoders use it. -/
class Write (W : Type) where
  writeAll : List UInt8 → W → Except IoError W

/-- A function that writes to a writer. -/
abbrev Encoder (W : Type) := StateT W (Except EncodingError)

/-- `writer.write_all(bs)?`. -/
def emit {W : Type} [Write W] (bs : List UInt8) : Encoder W Unit := fun w =>
  match Write.writeAll bs w with
  | .ok w' => .ok ((), w')
  | .error e => .error (.ioError e)

/-- A `Vec<u8>`, which grows as it is written. -/
structure Buffer where
  bytes : List UInt8
  deriving DecidableEq, Repr

instance : Write Buffer where
  writeAll bs w := .ok ⟨w.bytes ++ bs⟩

/-- A `Cursor<&mut [u8]>`, which never writes past the end of its slice. -/
structure SliceCursor where
  buffer : List UInt8
  pos : ℕ
  deriving DecidableEq, Repr

instance : Write SliceCursor where
  writeAll bs w :=
    if bs.length ≤ w.buffer.length - w.pos then
      .ok ⟨overwrite 0 w.buffer w.pos bs, w.pos + bs.length⟩
    else
      .error ⟨.writeZero, "failed to write whole buffer"⟩

/-! ## The traits -/

/-- `TuxIOType`: how large the encoding is. -/
class TuxIOType (α : Type) where
  /-- The encoded size, when it is the same for every value. -/
  constSize : α → Option ℕ := fun _ => none
  /-- The encoded size of this value. -/
  size : α → ℕ

/-- `WritableObjectType`: encoding a value. -/
class WritableObjectType (α : Type) [TuxIOType α] where
  writeToWriter {W : Type} [Write W] : α → Encoder W Unit

/-- `ReadableObjectType`: decoding a value, or measuring one without decoding it. -/
class ReadableObjectType (α : Type) [TuxIOType α] where
  readSize : Decoder ℕ
  readFromReader : Decoder α
  skip : Decoder Unit := do let _ ← readFromReader

/-- `TypedObjectType` and `ConstTypedObjectType`: the type key of a value in a map. -/
class TypedObjectType (α : Type) where
  typeKey : UInt8

export TuxIOType (size)
export WritableObjectType (writeToWriter)
export ReadableObjectType (readFromReader)
export TypedObjectType (typeKey)

/-- `WritableObjectType::write_to_bytes`. -/
def writeToBytes {α : Type} [TuxIOType α] [WritableObjectType α] (a : α) :
    Except EncodingError (List UInt8) := do
  let ((), w) ← (writeToWriter a : Encoder Buffer Unit) ⟨[]⟩
  return w.bytes

/-- `MAX_PREFIXED_LENGTH`: the largest value a `u16` length prefix or entry count can address. -/
def maxPrefixedLength : ℕ := 65535

/-- `length_is_allowed`: a byte length against what its `u16` prefix can hold. -/
def lengthIsAllowed {W : Type} (typeName : String) (size : ℕ) : Encoder W Unit :=
  if size > maxPrefixedLength then throw (.typeTooLarge typeName size maxPrefixedLength)
  else pure ()

/-- `count_is_allowed`: an entry count against what its `u16` can address. -/
def countIsAllowed {W : Type} (typeName : String) (count : ℕ) : Encoder W Unit :=
  if count > maxPrefixedLength then throw (.tooManyEntries typeName count maxPrefixedLength)
  else pure ()

/-! ## Laws of the writers -/

/-- A writer on which writing in pieces is the same as writing at once. -/
class LawfulWrite (W : Type) [Write W] : Prop where
  writeAll_nil : ∀ w : W, Write.writeAll [] w = .ok w
  writeAll_append : ∀ (a b : List UInt8) (w : W),
    Write.writeAll (a ++ b) w = Write.writeAll a w >>= Write.writeAll b

instance : LawfulWrite Buffer where
  writeAll_nil w := by simp [Write.writeAll]
  writeAll_append a b w := by simp [Write.writeAll, bind, Except.bind]

lemma SliceCursor.writeAll_of_le {bs : List UInt8} {w : SliceCursor}
    (h : bs.length ≤ w.buffer.length - w.pos) :
    Write.writeAll bs w = .ok ⟨overwrite 0 w.buffer w.pos bs, w.pos + bs.length⟩ := if_pos h

lemma SliceCursor.writeAll_of_gt {bs : List UInt8} {w : SliceCursor}
    (h : ¬ bs.length ≤ w.buffer.length - w.pos) :
    Write.writeAll bs w = .error ⟨.writeZero, "failed to write whole buffer"⟩ := if_neg h

/-- Writing inside a slice does not change its length. -/
lemma length_overwrite_of_le {d bs : List UInt8} {p : ℕ} (h : bs.length ≤ d.length - p) :
    (overwrite 0 d p bs).length = d.length := by
  by_cases hbs : bs = []
  · subst hbs; simp
  · rw [length_overwrite 0 d p hbs]
    have := List.length_pos_iff.mpr hbs
    omega

instance : LawfulWrite SliceCursor where
  writeAll_nil w := by
    rw [SliceCursor.writeAll_of_le (by simp)]
    simp
  writeAll_append a b w := by
    by_cases ha : a.length ≤ w.buffer.length - w.pos
    · have hlen := length_overwrite_of_le ha
      by_cases hb : (a ++ b).length ≤ w.buffer.length - w.pos
      · have hb' : b.length ≤ (overwrite 0 w.buffer w.pos a).length - (w.pos + a.length) := by
          rw [hlen]
          simp only [List.length_append] at hb
          omega
        rw [SliceCursor.writeAll_of_le hb, SliceCursor.writeAll_of_le ha]
        show _ = Write.writeAll b _
        rw [SliceCursor.writeAll_of_le hb', overwrite_overwrite_append, List.length_append,
          Nat.add_assoc]
      · have hb' : ¬ b.length ≤ (overwrite 0 w.buffer w.pos a).length - (w.pos + a.length) := by
          rw [hlen]
          simp only [List.length_append] at hb
          omega
        rw [SliceCursor.writeAll_of_gt hb, SliceCursor.writeAll_of_le ha]
        show _ = Write.writeAll b _
        rw [SliceCursor.writeAll_of_gt hb']
    · have hab : ¬ (a ++ b).length ≤ w.buffer.length - w.pos := by
        simp only [List.length_append]
        omega
      rw [SliceCursor.writeAll_of_gt hab, SliceCursor.writeAll_of_gt ha]
      rfl

section emit

variable {W : Type} [Write W] [LawfulWrite W]

@[simp] lemma emit_nil : (emit [] : Encoder W Unit) = pure () := by
  funext w
  simp [emit, LawfulWrite.writeAll_nil]
  rfl

/-- Writing two byte strings one after the other is writing their concatenation. -/
lemma emit_bind_emit (a b : List UInt8) :
    (do emit a; emit b : Encoder W Unit) = emit (a ++ b) := by
  funext w
  show (emit a w >>= fun p => emit b p.2) = emit (a ++ b) w
  simp only [emit, LawfulWrite.writeAll_append]
  cases Write.writeAll a w <;> rfl

end emit

@[simp] lemma lengthIsAllowed_of_le {W : Type} {typeName : String} {n : ℕ}
    (h : n ≤ maxPrefixedLength) : (lengthIsAllowed typeName n : Encoder W Unit) = pure () :=
  if_neg (Nat.not_lt.mpr h)

@[simp] lemma countIsAllowed_of_le {W : Type} {typeName : String} {n : ℕ}
    (h : n ≤ maxPrefixedLength) : (countIsAllowed typeName n : Encoder W Unit) = pure () :=
  if_neg (Nat.not_lt.mpr h)

/-! ## Encoders that cannot succeed -/

/-- An encoder that fails on every writer state. -/
def Fails {W α : Type} (enc : Encoder W α) : Prop := ∀ w, ∃ e, enc w = .error e

lemma Fails.of_throw {W α : Type} (e : EncodingError) : Fails (throw e : Encoder W α) :=
  fun _ => ⟨e, rfl⟩

lemma Fails.bind_left {W α β : Type} {enc : Encoder W α} (h : Fails enc) (f : α → Encoder W β) :
    Fails (enc >>= f) := by
  intro w
  obtain ⟨e, he⟩ := h w
  exact ⟨e, by show (enc w >>= _) = _; rw [he]; rfl⟩

lemma Fails.bind_right {W α β : Type} (enc : Encoder W α) {f : α → Encoder W β}
    (h : ∀ a, Fails (f a)) : Fails (enc >>= f) := by
  intro w
  show ∃ e, (enc w >>= fun p => f p.1 p.2) = .error e
  cases hw : enc w with
  | error e => exact ⟨e, rfl⟩
  | ok p => exact h p.1 p.2

lemma lengthIsAllowed_fails {W : Type} {typeName : String} {n : ℕ} (h : ¬ n ≤ maxPrefixedLength) :
    Fails (lengthIsAllowed typeName n : Encoder W Unit) := by
  unfold lengthIsAllowed
  rw [if_pos (Nat.not_le.mp h)]
  exact Fails.of_throw _

lemma countIsAllowed_fails {W : Type} {typeName : String} {n : ℕ} (h : ¬ n ≤ maxPrefixedLength) :
    Fails (countIsAllowed typeName n : Encoder W Unit) := by
  unfold countIsAllowed
  rw [if_pos (Nat.not_le.mp h)]
  exact Fails.of_throw _

/-! ## Decoders that take an exact byte string -/

/-- The decoder takes exactly `bs` off the cursor and returns `a`, wherever `bs` stands in the
input and whatever follows it. -/
def ReadsAs {α : Type} (dec : Decoder α) (bs : List UInt8) (a : α) : Prop :=
  ∀ pre suf, dec ⟨pre ++ bs ++ suf, pre.length⟩ =
    .ok (a, ⟨pre ++ bs ++ suf, pre.length + bs.length⟩)

lemma ReadsAs.pure {α : Type} (a : α) : ReadsAs (pure a) [] a := fun _ _ => rfl

/-- Decoders run one after the other take one byte string after the other. -/
lemma ReadsAs.bind {α β : Type} {dec : Decoder α} {f : α → Decoder β} {bs cs : List UInt8} {a : α}
    {b : β} (h : ReadsAs dec bs a) (hf : ReadsAs (f a) cs b) :
    ReadsAs (dec >>= f) (bs ++ cs) b := by
  intro pre suf
  have h₁ := h pre (cs ++ suf)
  have h₂ := hf (pre ++ bs) suf
  simp only [List.append_assoc, List.length_append] at h₁ h₂ ⊢
  show (dec _ >>= fun p => f p.1 p.2) = _
  rw [h₁]
  show f a _ = _
  rw [h₂, Nat.add_assoc]

/-- The last step of a decoder may compute and check without reading on. -/
lemma ReadsAs.bind_nil {α β : Type} {dec : Decoder α} {f : α → Decoder β} {bs : List UInt8} {a : α}
    {b : β} (h : ReadsAs dec bs a) (hf : ReadsAs (f a) [] b) : ReadsAs (dec >>= f) bs b := by
  have := h.bind hf
  rwa [List.append_nil] at this

lemma ReadsAs.map {α β : Type} {dec : Decoder α} {bs : List UInt8} {a : α} (g : α → β)
    (h : ReadsAs dec bs a) : ReadsAs (g <$> dec) bs (g a) := by
  rw [map_eq_pure_bind]
  exact h.bind_nil (ReadsAs.pure (g a))

/-- `read_exact` takes the next bytes as they stand. -/
lemma readsAs_readExact {n : ℕ} {bs : List UInt8} (h : bs.length = n) :
    ReadsAs (readExact n) bs bs := by
  intro pre suf
  subst h
  unfold readExact
  rw [if_pos (by simp only [List.length_append]; omega)]
  simp

/-- The decoder returns `a` from a byte string that starts with `bs`, and stops anywhere. -/
def Yields {α : Type} (dec : Decoder α) (bs : List UInt8) (a : α) : Prop :=
  ∀ pre suf, ∃ pos, dec ⟨pre ++ bs ++ suf, pre.length⟩ = .ok (a, ⟨pre ++ bs ++ suf, pos⟩)

lemma ReadsAs.yields {α : Type} {dec : Decoder α} {bs : List UInt8} {a : α}
    (h : ReadsAs dec bs a) : Yields dec bs a := fun pre suf => ⟨_, h pre suf⟩

/-- What follows the bytes a decoder looks at does not matter. -/
lemma Yields.append {α : Type} {dec : Decoder α} {bs : List UInt8} {a : α} (h : Yields dec bs a)
    (cs : List UInt8) : Yields dec (bs ++ cs) a := by
  intro pre suf
  have := h pre (cs ++ suf)
  simpa only [List.append_assoc] using this

lemma ReadsAs.bind_yields {α β : Type} {dec : Decoder α} {f : α → Decoder β} {bs cs : List UInt8}
    {a : α} {b : β} (h : ReadsAs dec bs a) (hf : Yields (f a) cs b) :
    Yields (dec >>= f) (bs ++ cs) b := by
  intro pre suf
  have h₁ := h pre (cs ++ suf)
  obtain ⟨pos, h₂⟩ := hf (pre ++ bs) suf
  refine ⟨pos, ?_⟩
  simp only [List.append_assoc, List.length_append] at h₁ h₂ ⊢
  show (dec _ >>= fun p => f p.1 p.2) = _
  rw [h₁]
  exact h₂

/-! ## What the traits of one type owe each other -/

/-- The wire format of a type and the laws that tie the three traits to it. -/
class Codec (α : Type) [TuxIOType α] [WritableObjectType α] [ReadableObjectType α] where
  /-- The values within the limits of the format. -/
  Fits : α → Prop
  /-- The bytes such a value is encoded to. -/
  wire : α → List UInt8
  write_of_fits : ∀ {W : Type} [Write W] [LawfulWrite W] {a : α}, Fits a →
    (writeToWriter a : Encoder W Unit) = emit (wire a)
  write_of_not_fits : ∀ {W : Type} [Write W] [LawfulWrite W] {a : α}, ¬ Fits a →
    Fails (writeToWriter a : Encoder W Unit)
  length_wire : ∀ {a : α}, Fits a → (wire a).length = size a
  readsAs_wire : ∀ {a : α}, Fits a → ReadsAs (readFromReader : Decoder α) (wire a) a

/-- A type whose encoder has no limits. -/
@[reducible] def Codec.ofTotal {α : Type} [TuxIOType α] [WritableObjectType α]
    [ReadableObjectType α] (wire : α → List UInt8)
    (write : ∀ {W : Type} [Write W] [LawfulWrite W] (a : α),
      (writeToWriter a : Encoder W Unit) = emit (wire a))
    (length : ∀ a : α, (wire a).length = size a)
    (reads : ∀ a : α, ReadsAs (readFromReader : Decoder α) (wire a) a) : Codec α where
  Fits _ := True
  wire := wire
  write_of_fits _ := write _
  write_of_not_fits h := absurd trivial h
  length_wire _ := length _
  readsAs_wire _ := reads _

section codec

variable {α : Type} [TuxIOType α] [WritableObjectType α] [ReadableObjectType α] [Codec α]

/-- Encoding into a growable buffer appends the wire format. -/
lemma writeToWriter_buffer {a : α} (h : Codec.Fits a) (w : Buffer) :
    writeToWriter a w = .ok ((), ⟨w.bytes ++ Codec.wire a⟩) := by
  rw [Codec.write_of_fits h]
  rfl

lemma writeToBytes_of_fits {a : α} (h : Codec.Fits a) : writeToBytes a = .ok (Codec.wire a) := by
  unfold writeToBytes
  rw [writeToWriter_buffer h]
  rfl

/-- Encoding succeeds exactly on the values within the limits. -/
lemma writeToBytes_isOk_iff (a : α) : (∃ bs, writeToBytes a = .ok bs) ↔ Codec.Fits a := by
  constructor
  · rintro ⟨bs, hbs⟩
    by_contra hfit
    obtain ⟨e, he⟩ := Codec.write_of_not_fits (W := Buffer) hfit ⟨[]⟩
    unfold writeToBytes at hbs
    rw [he] at hbs
    cases hbs
  · exact fun h => ⟨_, writeToBytes_of_fits h⟩

end codec

end TuxEncoding
