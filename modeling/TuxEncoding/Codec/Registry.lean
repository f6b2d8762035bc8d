import TuxEncoding.Codec.Containers
import TuxEncoding.Codec.Measure

/-!
# The registry of types

The table of type keys in the documentation of `src/lib.rs`, as a universe: `RegisteredType` has one
constructor for each type of the table, and every one of them is registered with its traits.

* `Shape` says how a registered type is measured. There are two ways: by a width that is the same
  for every value, or by the `u16` in front of the value that counts its bytes.
* `Registered` is what a registered type owes its containers: its measurer has its shape, and so
  does every encoding.
-/

namespace TuxEncoding

open Bytes

/-! ## Shapes -/

/-- How a type is measured: by its width, which is never zero, or by the `u16` that counts the bytes
behind it. -/
inductive Shape
  | fixed (width : ℕ) (pos : 0 < width)
  | counted

namespace Shape

/-- `read_size` of the types of this shape. -/
def readSize : Shape → Decoder ℕ
  | fixed width _ => pure width
  | counted => do
      let length ← readLength
      return length + 2

/-- The bytes can be the encoding of a value of this shape. -/
def Describes : Shape → List UInt8 → Prop
  | fixed width _, bs => bs.length = width
  | counted, bs => ∃ content, content.length ≤ maxPrefixedLength ∧
      bs = leBytes 2 content.length ++ content

/-- How many length prefixes a measurer of this shape reads. -/
def prefixes : Shape → ℕ
  | fixed _ _ => 0
  | counted => 1

/-- What it counts without looking: the width, or the prefix itself. -/
def base : Shape → ℕ
  | fixed width _ => width
  | counted => 2

lemma base_pos (s : Shape) : 0 < s.base := by
  cases s with
  | fixed width pos => exact pos
  | counted => exact Nat.two_pos

end Shape

/-- The sum of the first `n` `u16`s of a byte string, read one behind the other. -/
def sumOfLengths : ℕ → List UInt8 → ℕ
  | 0, _ => 0
  | n + 1, bs => ofLeBytes (bs.take 2) + sumOfLengths n (bs.drop 2)

lemma sumOfLengths_add (m n : ℕ) (bs : List UInt8) :
    sumOfLengths (m + n) bs = sumOfLengths m bs + sumOfLengths n (bs.drop (2 * m)) := by
  induction m generalizing bs with
  | zero => simp [sumOfLengths]
  | succ m ih =>
      rw [Nat.succ_add]
      simp only [sumOfLengths, ih, List.drop_drop]
      rw [Nat.add_assoc, show 2 + 2 * m = 2 * (m + 1) by omega]

/-- Only the bytes that are read count. -/
lemma sumOfLengths_append {n : ℕ} {bs : List UInt8} (suf : List UInt8) (h : 2 * n ≤ bs.length) :
    sumOfLengths n (bs ++ suf) = sumOfLengths n bs := by
  induction n generalizing bs with
  | zero => rfl
  | succ n ih =>
      simp only [sumOfLengths]
      rw [List.take_append_of_le_length (by omega), List.drop_append_of_le_length (by omega),
        ih (by rw [List.length_drop]; omega)]

section measure

variable {bytes : List UInt8} {pos : ℕ}

/-- What a measurer answers where its prefix is there to be read, and where it stops: behind the
prefix, not behind the value. -/
lemma Shape.readSize_of_le (s : Shape) (h : 2 * s.prefixes ≤ bytes.length - pos) :
    s.readSize ⟨bytes, pos⟩ = .ok (s.base + sumOfLengths s.prefixes (bytes.drop pos),
      ⟨bytes, pos + 2 * s.prefixes⟩) := by
  cases s with
  | fixed width hpos => rfl
  | counted =>
      show (readLength >>= fun length => pure (length + 2)) _ = _
      rw [bind_of_ok (readLength_of_le h)]
      show Except.ok (_ + 2, _) = _
      rw [Nat.add_comm]
      rfl

/-- No measurer answers less than the width or the prefix. -/
lemma Shape.base_le_readSize {s : Shape} {c c' : Cursor} {size : ℕ}
    (h : s.readSize c = .ok (size, c')) : s.base ≤ size := by
  cases s with
  | fixed width pos =>
      cases h
      exact Nat.le_refl _
  | counted =>
      obtain ⟨length, c₁, -, h⟩ := bind_eq_ok h
      cases h
      exact Nat.le_add_left 2 length

end measure

/-! ## What a registered type owes -/

/-- What a registered type owes the types that contain it. -/
class Registered (α : Type) [TuxIOType α] [WritableObjectType α] [ReadableObjectType α]
    [Codec α] where
  shape : Shape
  readSize_eq : ReadableObjectType.readSize α = shape.readSize
  describes_wire : ∀ {a : α}, Codec.Fits a → shape.Describes (Codec.wire a)
  measures : MeasuresType α

section registered

variable {α : Type} [TuxIOType α] [WritableObjectType α] [ReadableObjectType α] [Codec α]

/-- A type whose values all have one size. -/
@[reducible] def Registered.ofWidth {width : ℕ} (pos : 0 < width)
    (hread : ReadableObjectType.readSize α = pure width)
    (hsize : ∀ a : α, size a = width)
    (htakes : TakesExactly width (readFromReader : Decoder α)) : Registered α where
  shape := .fixed width pos
  readSize_eq := hread
  describes_wire {a} h := (Codec.length_wire h).trans (hsize a)
  measures := by
    have hconst := Measures.const (k := 0) htakes
    rw [Nat.zero_add, ← hread] at hconst
    exact hconst

/-- A type whose values are byte strings behind their length. -/
@[reducible] def Registered.ofContent (content : α → List UInt8)
    (hread : ReadableObjectType.readSize α = Shape.counted.readSize)
    (hfits : ∀ {a : α}, Codec.Fits a → (content a).length ≤ maxPrefixedLength)
    (hwire : ∀ a : α, Codec.wire a = leBytes 2 (content a).length ++ content a)
    (hmeasures : MeasuresType α) : Registered α where
  shape := .counted
  readSize_eq := hread
  describes_wire {a} h := ⟨content a, hfits h, hwire a⟩
  measures := hmeasures

/-- Of an encoding, everything but the width or the prefix is content. -/
lemma Registered.length_wire [Registered α] {a : α} (h : Codec.Fits a) :
    (Registered.shape α).base ≤ size a ∧
      2 * (Registered.shape α).prefixes ≤ (Codec.wire a).length := by
  have hwire := Registered.describes_wire h
  rw [← Codec.length_wire h]
  cases hshape : Registered.shape α with
  | fixed width pos =>
      rw [hshape] at hwire
      exact ⟨Nat.le_of_eq hwire.symm, Nat.zero_le _⟩
  | counted =>
      rw [hshape] at hwire
      obtain ⟨content, -, hwire⟩ := hwire
      rw [hwire, List.length_append, length_leBytes]
      exact ⟨Nat.le_add_right 2 _, Nat.le_add_right 2 _⟩

/-- A value that is measured by its prefix is its length and its content. -/
lemma Registered.wire_of_counted [Registered α] (hshape : Registered.shape α = .counted) {a : α}
    (h : Codec.Fits a) :
    ∃ content, content.length ≤ maxPrefixedLength ∧
      Codec.wire a = leBytes 2 content.length ++ content ∧ size a = content.length + 2 := by
  have hdescribes := Registered.describes_wire h
  rw [hshape] at hdescribes
  obtain ⟨content, hle, hwire⟩ := hdescribes
  refine ⟨content, hle, hwire, ?_⟩
  rw [← Codec.length_wire h, hwire, List.length_append, length_leBytes, Nat.add_comm]

end registered

/-! ## The registered types -/

@[reducible] def Registered.ofNumber {α : Type} [Number α] (pos : 0 < Number.width α) :
    Registered α :=
  .ofWidth pos rfl (fun _ => rfl) takes_number

instance : Registered UInt8 := .ofNumber (by decide)
instance : Registered UInt16 := .ofNumber (by decide)
instance : Registered UInt32 := .ofNumber (by decide)
instance : Registered UInt64 := .ofNumber (by decide)
instance : Registered Int8 := .ofNumber (by decide)
instance : Registered Int16 := .ofNumber (by decide)
instance : Registered Int32 := .ofNumber (by decide)
instance : Registered Int64 := .ofNumber (by decide)
instance : Registered F32 := .ofNumber (by decide)
instance : Registered F64 := .ofNumber (by decide)

lemma takes_bool : TakesExactly 1 (readFromReader : Decoder Bool) := by
  refine TakesExactly.bind_nil (takes_readExact 1) fun buffer => ?_
  split
  · exact Takes.pure rfl
  · exact Takes.pure rfl
  · exact Takes.throw

lemma takes_fixedBytes (n : ℕ) :
    TakesExactly (n + 2) (readFromReader : Decoder (FixedBytes n)) := by
  rw [Nat.add_comm]
  refine TakesExactly.bind takes_readLength fun length => ?_
  by_cases h : length = n
  · rw [if_neg (not_not_intro h)]
    exact TakesExactly.bind_nil (takes_readExact n) fun _ => Takes.pure rfl
  · rw [if_pos h]
    exact Takes.throw

lemma measures_crateBytes : MeasuresType CrateBytes :=
  measures_prefixed fun n => TakesExactly.bind_nil (takes_readExact n) fun _ => Takes.pure rfl

instance : Registered Bool := .ofWidth Nat.one_pos rfl (fun _ => rfl) takes_bool

instance (n : ℕ) : Registered (FixedBytes n) :=
  .ofWidth (Nat.succ_pos (n + 1)) rfl (fun _ => rfl) (takes_fixedBytes n)

instance : Registered (List UInt8) :=
  .ofContent id rfl (fun h => h.1) wire_bytes measures_bytes

instance : Registered CrateBytes :=
  .ofContent CrateBytes.bytes rfl (fun h => h) (fun _ => rfl) measures_crateBytes

instance : Registered String :=
  .ofContent asBytes rfl (fun h => h) (fun _ => rfl) measures_string

instance [Http] : Registered MetaKey :=
  .ofContent (fun key => Http.asStr key.name) rfl (fun h => h) (fun _ => rfl) measures_metaKey

instance : Registered RawDate := .ofWidth (by decide) rfl (fun _ => rfl) takes_rawDate
instance : Registered RawTime := .ofWidth (by decide) rfl (fun _ => rfl) takes_rawTime
instance : Registered RawTimeZone := .ofWidth (by decide) rfl (fun _ => rfl) takes_rawTimeZone
instance : Registered RawDateTime := .ofWidth (by decide) rfl (fun _ => rfl) takes_rawDateTime
instance : Registered Uuid := .ofWidth (by decide) rfl (fun _ => rfl) takes_uuid

/-- The rows of the table of type keys. -/
inductive RegisteredType
  | u8 | u16 | u32 | u64
  | i8 | i16 | i32 | i64
  | f32 | f64
  | bool
  | byteArray (n : ℕ)
  | vec
  | bytes
  | string
  | metaKey
  | rawDate
  | rawTime
  | rawTimeZone
  | rawDateTime
  | uuid
  deriving DecidableEq

/-- A type together with the traits it is registered with. -/
structure Registration where
  Carrier : Type
  decEq : DecidableEq Carrier
  tuxIO : TuxIOType Carrier
  typed : TypedObjectType Carrier
  writable : WritableObjectType Carrier
  readable : ReadableObjectType Carrier
  codec : Codec Carrier
  registered : Registered Carrier

/-- The registration of a type that has the traits. -/
def Registration.of (α : Type) [DecidableEq α] [TuxIOType α] [TypedObjectType α]
    [WritableObjectType α] [ReadableObjectType α] [Codec α] [Registered α] : Registration where
  Carrier := α
  decEq := inferInstance
  tuxIO := inferInstance
  typed := inferInstance
  writable := inferInstance
  readable := inferInstance
  codec := inferInstance
  registered := inferInstance

namespace RegisteredType

variable [Http]

def registration : RegisteredType → Registration
  | u8 => .of UInt8
  | u16 => .of UInt16
  | u32 => .of UInt32
  | u64 => .of UInt64
  | i8 => .of Int8
  | i16 => .of Int16
  | i32 => .of Int32
  | i64 => .of Int64
  | f32 => .of F32
  | f64 => .of F64
  | bool => .of Bool
  | byteArray n => .of (FixedBytes n)
  | vec => .of (List UInt8)
  | bytes => .of CrateBytes
  | string => .of String
  | metaKey => .of MetaKey
  | rawDate => .of RawDate
  | rawTime => .of RawTime
  | rawTimeZone => .of RawTimeZone
  | rawDateTime => .of RawDateTime
  | uuid => .of Uuid

/-- The values of a registered type. -/
def Carrier (t : RegisteredType) : Type := t.registration.Carrier

variable {t : RegisteredType}

instance : DecidableEq t.Carrier := t.registration.decEq
instance : TuxIOType t.Carrier := t.registration.tuxIO
instance : TypedObjectType t.Carrier := t.registration.typed
instance : WritableObjectType t.Carrier := t.registration.writable
instance : ReadableObjectType t.Carrier := t.registration.readable
instance : Codec t.Carrier := t.registration.codec
instance : Registered t.Carrier := t.registration.registered

end RegisteredType

end TuxEncoding
