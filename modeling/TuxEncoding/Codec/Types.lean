import TuxEncoding.Codec.Basic

/-!
# The value types

The codecs of `src/types`: the numbers of the `number!` macro, `bool`, vectors, strings, the raw
date and time types and `Uuid`. Each type has its traits as the source writes them and, next to
them, its `Codec`: the bytes it is written to, the limits on it and the laws.

Numbers share one macro in the source and one class here: `Number` carries the parameters of an
entry of `number!` and the fact that its two conversions are inverse. Floats are their bit
patterns. A `String` is Lean's, whose bytes are valid UTF-8 by construction.
-/

namespace TuxEncoding

open Bytes

/-! ## Numbers -/

/-- One entry of the `number!` macro: the width, the type key and the two byte conversions. -/
class Number (α : Type) where
  width : ℕ
  key : UInt8
  toLeBytes : α → List UInt8
  fromLeBytes : List UInt8 → α
  length_toLeBytes : ∀ a, (toLeBytes a).length = width
  fromLeBytes_toLeBytes : ∀ a, fromLeBytes (toLeBytes a) = a

/-- An `f32`, as its bits. -/
structure F32 where
  bits : UInt32
  deriving DecidableEq, Repr

/-- An `f64`, as its bits. -/
structure F64 where
  bits : UInt64
  deriving DecidableEq, Repr

instance : Number UInt8 where
  width := 1
  key := 0
  toLeBytes a := leBytes 1 a.toNat
  fromLeBytes bs := UInt8.ofNat (ofLeBytes bs)
  length_toLeBytes _ := length_leBytes _ _
  fromLeBytes_toLeBytes a := by
    rw [ofLeBytes_leBytes_of_lt a.toNat_lt, UInt8.ofNat_toNat]

instance : Number UInt16 where
  width := 2
  key := 1
  toLeBytes a := leBytes 2 a.toNat
  fromLeBytes bs := UInt16.ofNat (ofLeBytes bs)
  length_toLeBytes _ := length_leBytes _ _
  fromLeBytes_toLeBytes a := by
    rw [ofLeBytes_leBytes_of_lt a.toNat_lt, UInt16.ofNat_toNat]

instance : Number UInt32 where
  width := 4
  key := 2
  toLeBytes a := leBytes 4 a.toNat
  fromLeBytes bs := UInt32.ofNat (ofLeBytes bs)
  length_toLeBytes _ := length_leBytes _ _
  fromLeBytes_toLeBytes a := by
    rw [ofLeBytes_leBytes_of_lt a.toNat_lt, UInt32.ofNat_toNat]

instance : Number UInt64 where
  width := 8
  key := 3
  toLeBytes a := leBytes 8 a.toNat
  fromLeBytes bs := UInt64.ofNat (ofLeBytes bs)
  length_toLeBytes _ := length_leBytes _ _
  fromLeBytes_toLeBytes a := by
    rw [ofLeBytes_leBytes_of_lt a.toNat_lt, UInt64.ofNat_toNat]

/-- A number that is stored as another one of the same width. -/
@[reducible] def Number.via {α β : Type} [Number β] (key : UInt8) (store : α → β) (load : β → α)
    (h : ∀ a, load (store a) = a) : Number α where
  width := Number.width β
  key := key
  toLeBytes a := Number.toLeBytes (store a)
  fromLeBytes bs := load (Number.fromLeBytes bs)
  length_toLeBytes a := Number.length_toLeBytes (store a)
  fromLeBytes_toLeBytes a := by rw [Number.fromLeBytes_toLeBytes, h]

instance : Number Int8 := Number.via 4 Int8.toUInt8 UInt8.toInt8 Int8.toInt8_toUInt8
instance : Number Int16 := Number.via 5 Int16.toUInt16 UInt16.toInt16 Int16.toInt16_toUInt16
instance : Number Int32 := Number.via 6 Int32.toUInt32 UInt32.toInt32 Int32.toInt32_toUInt32
instance : Number Int64 := Number.via 7 Int64.toUInt64 UInt64.toInt64 Int64.toInt64_toUInt64
instance : Number F32 := Number.via 8 F32.bits F32.mk fun _ => rfl
instance : Number F64 := Number.via 9 F64.bits F64.mk fun _ => rfl

section number

variable {α : Type} [Number α]

instance : TuxIOType α where
  constSize _ := some (Number.width α)
  size _ := Number.width α

instance : TypedObjectType α where
  typeKey := Number.key α

instance : WritableObjectType α where
  writeToWriter a := emit (Number.toLeBytes a)

instance : ReadableObjectType α where
  readSize := pure (Number.width α)
  readFromReader := do
    let buffer ← readExact (Number.width α)
    return Number.fromLeBytes buffer

instance : Codec α :=
  Codec.ofTotal Number.toLeBytes (fun _ => rfl) Number.length_toLeBytes fun a => by
    have h := (readsAs_readExact (Number.length_toLeBytes a)).map
      (Number.fromLeBytes : List UInt8 → α)
    rw [Number.fromLeBytes_toLeBytes] at h
    exact h

end number

/-! ## Length prefixes and repetition -/

/-- `(n as u16).write_to_writer(writer)?`. -/
def writeLength {W : Type} [Write W] (n : ℕ) : Encoder W Unit := writeToWriter (UInt16.ofNat n)

/-- `u16::read_from_reader(reader)? as usize`. -/
def readLength : Decoder ℕ := do
  let n ← (readFromReader : Decoder UInt16)
  return n.toNat

/-- Write every item of a list in turn. -/
def writeEach {W α : Type} (write : α → Encoder W Unit) : List α → Encoder W Unit
  | [] => pure ()
  | a :: as => do
      write a
      writeEach write as

/-- Read `n` items in turn. -/
def readTimes {α : Type} (read : Decoder α) : ℕ → Decoder (List α)
  | 0 => pure []
  | n + 1 => do
      let a ← read
      let as ← readTimes read n
      return a :: as

lemma writeLength_eq_emit {W : Type} [Write W] {n : ℕ} (h : n ≤ maxPrefixedLength) :
    (writeLength n : Encoder W Unit) = emit (leBytes 2 n) := by
  have hn : (UInt16.ofNat n).toNat = n := by
    rw [UInt16.toNat_ofNat']
    unfold maxPrefixedLength at h
    omega
  show emit (leBytes 2 (UInt16.ofNat n).toNat) = _
  rw [hn]

lemma readsAs_readLength {n : ℕ} (h : n ≤ maxPrefixedLength) :
    ReadsAs readLength (leBytes 2 n) n := by
  have hn : (UInt16.ofNat n).toNat = n := by
    rw [UInt16.toNat_ofNat']
    unfold maxPrefixedLength at h
    omega
  have hread := (Codec.readsAs_wire (a := UInt16.ofNat n) trivial).map UInt16.toNat
  rw [hn, show Codec.wire (UInt16.ofNat n) = leBytes 2 (UInt16.ofNat n).toNat from rfl, hn] at hread
  exact hread

/-- Writing items that each come out as a byte string writes the strings in order. -/
lemma writeEach_eq_emit {W α : Type} [Write W] [LawfulWrite W] {write : α → Encoder W Unit}
    {g : α → List UInt8} {as : List α} (h : ∀ a ∈ as, write a = emit (g a)) :
    writeEach write as = emit (as.flatMap g) := by
  induction as with
  | nil => simp [writeEach]
  | cons a as ih =>
      rw [List.flatMap_cons, ← emit_bind_emit, writeEach, h a List.mem_cons_self,
        ih fun b hb => h b (List.mem_cons_of_mem a hb)]

/-- One item that cannot be written makes the whole list fail. -/
lemma writeEach_fails {W α : Type} {write : α → Encoder W Unit} {as : List α} {a : α}
    (ha : a ∈ as) (h : Fails (write a)) : Fails (writeEach write as) := by
  induction as with
  | nil => cases ha
  | cons b as ih =>
      rcases List.mem_cons.mp ha with rfl | ha
      · exact h.bind_left _
      · exact Fails.bind_right _ fun _ => ih ha

lemma ReadsAs.readTimes {α : Type} {read : Decoder α} {g : α → List UInt8} {as : List α}
    (h : ∀ a ∈ as, ReadsAs read (g a) a) :
    ReadsAs (readTimes read as.length) (as.flatMap g) as := by
  induction as with
  | nil => exact ReadsAs.pure []
  | cons a as ih =>
      have htail := (ih fun b hb => h b (List.mem_cons_of_mem a hb)).map (List.cons a)
      rw [map_eq_pure_bind] at htail
      exact (h a List.mem_cons_self).bind htail

/-! ## `bool` -/

instance : TuxIOType Bool where
  constSize _ := some 1
  size _ := 1

instance : TypedObjectType Bool where
  typeKey := 10

instance : WritableObjectType Bool where
  writeToWriter b := emit [b.toUInt8]

instance : ReadableObjectType Bool where
  readSize := pure 1
  readFromReader := do
    let buffer ← readExact 1
    match buffer.headD 0 with
    | 0 => return false
    | 1 => return true
    | byte => throw (.invalidValue "bool" byte)

instance : Codec Bool :=
  Codec.ofTotal (fun b => [b.toUInt8]) (fun _ => rfl) (fun _ => rfl) fun b => by
    have hread : ReadsAs (readExact 1) [b.toUInt8] [b.toUInt8] := readsAs_readExact rfl
    refine ReadsAs.bind_nil hread ?_
    cases b <;> exact ReadsAs.pure _

/-! ## Vectors -/

section vec

variable {α : Type} [TuxIOType α]

instance : TuxIOType (List α) where
  size as := (as.map size).sum + 2

instance : TypedObjectType (List UInt8) where
  typeKey := 11

instance [WritableObjectType α] : WritableObjectType (List α) where
  writeToWriter as := do
    countIsAllowed "Vec" as.length
    writeLength as.length
    writeEach writeToWriter as

instance [ReadableObjectType α] : ReadableObjectType (List α) where
  readSize := do
    let length ← readLength
    return length + 2
  readFromReader := do
    let length ← readLength
    readTimes readFromReader length

instance [WritableObjectType α] [ReadableObjectType α] [Codec α] : Codec (List α) where
  Fits as := as.length ≤ maxPrefixedLength ∧ ∀ a ∈ as, Codec.Fits a
  wire as := leBytes 2 as.length ++ as.flatMap Codec.wire
  write_of_fits {W _ _ as} h := by
    have hitems := writeEach_eq_emit (W := W) fun a ha => Codec.write_of_fits (h.2 a ha)
    show (do countIsAllowed "Vec" as.length; writeLength as.length; writeEach writeToWriter as) = _
    rw [countIsAllowed_of_le h.1, writeLength_eq_emit h.1, hitems, pure_bind, emit_bind_emit]
  write_of_not_fits {W _ _ as} h := by
    by_cases hlen : as.length ≤ maxPrefixedLength
    · obtain ⟨a, ha, hfit⟩ : ∃ a ∈ as, ¬ Codec.Fits a := by
        by_contra hall
        exact h ⟨hlen, fun a ha => by_contra fun hfit => hall ⟨a, ha, hfit⟩⟩
      exact Fails.bind_right _ fun _ => Fails.bind_right _ fun _ =>
        writeEach_fails ha (Codec.write_of_not_fits hfit)
    · exact (countIsAllowed_fails hlen).bind_left _
  length_wire {as} h := by
    have hmap : as.map (fun a => (Codec.wire a).length) = as.map size :=
      List.map_congr_left fun a ha => Codec.length_wire (h.2 a ha)
    simp only [List.length_append, length_leBytes, List.length_flatMap, hmap]
    exact Nat.add_comm _ _
  readsAs_wire h := (readsAs_readLength h.1).bind
    (ReadsAs.readTimes fun a ha => Codec.readsAs_wire (h.2 a ha))

end vec

/-- A byte vector is its length prefix and its bytes. -/
lemma wire_bytes (bs : List UInt8) : Codec.wire bs = leBytes 2 bs.length ++ bs := by
  have hbyte : ∀ b : UInt8, Codec.wire b = [b] := fun b => by
    show leBytes 1 b.toNat = [b]
    simp [leBytes]
  show leBytes 2 bs.length ++ bs.flatMap Codec.wire = _
  rw [show (Codec.wire : UInt8 → List UInt8) = fun b => [b] from funext hbyte,
    List.flatMap_singleton']

/-- A byte vector fits when its length does. -/
lemma fits_bytes (bs : List UInt8) : Codec.Fits bs ↔ bs.length ≤ maxPrefixedLength :=
  ⟨fun h => h.1, fun h => ⟨h, fun _ _ => trivial⟩⟩

/-! ## Strings -/

/-- `str::as_bytes`. -/
def asBytes (s : String) : List UInt8 := s.toByteArray.data.toList

/-- `String::from_utf8`. -/
def fromUtf8 (bs : List UInt8) : Option String := String.fromUTF8? ⟨bs.toArray⟩

@[simp] lemma fromUtf8_asBytes (s : String) : fromUtf8 (asBytes s) = some s :=
  dif_pos s.isValidUTF8

instance : TuxIOType String where
  size s := (asBytes s).length + 2

instance : TypedObjectType String where
  typeKey := 12

/-- The body of the writers that store a byte string behind a checked `u16` length. -/
def writePrefixed {W : Type} [Write W] (typeName : String) (bytes : List UInt8) :
    Encoder W Unit := do
  lengthIsAllowed typeName bytes.length
  writeLength bytes.length
  emit bytes

instance : WritableObjectType String where
  writeToWriter s := writePrefixed "String" (asBytes s)

instance : ReadableObjectType String where
  readSize := do
    let length ← readLength
    return length + 2
  readFromReader := do
    let length ← readLength
    let buffer ← readExact length
    match fromUtf8 buffer with
    | some s => return s
    | none => throw .invalidUtf8
  skip := do
    let length ← readLength
    modify fun c => { c with pos := c.pos + length }

lemma writePrefixed_eq_emit {W : Type} [Write W] [LawfulWrite W] (typeName : String)
    {bytes : List UInt8} (h : bytes.length ≤ maxPrefixedLength) :
    (writePrefixed typeName bytes : Encoder W Unit) = emit (leBytes 2 bytes.length ++ bytes) := by
  unfold writePrefixed
  rw [lengthIsAllowed_of_le h, writeLength_eq_emit h, pure_bind, emit_bind_emit]

lemma writePrefixed_fails {W : Type} [Write W] (typeName : String) {bytes : List UInt8}
    (h : ¬ bytes.length ≤ maxPrefixedLength) :
    Fails (writePrefixed typeName bytes : Encoder W Unit) :=
  (lengthIsAllowed_fails h).bind_left _

instance : Codec String where
  Fits s := (asBytes s).length ≤ maxPrefixedLength
  wire s := leBytes 2 (asBytes s).length ++ asBytes s
  write_of_fits h := writePrefixed_eq_emit "String" h
  write_of_not_fits h := writePrefixed_fails "String" h
  length_wire {s} _ := by
    simp only [List.length_append, length_leBytes]
    exact Nat.add_comm _ _
  readsAs_wire {s} h := by
    refine ReadsAs.bind (readsAs_readLength h) (ReadsAs.bind_nil (readsAs_readExact rfl) ?_)
    rw [fromUtf8_asBytes]
    exact ReadsAs.pure s

/-! ## Dates and times -/

structure RawDate where
  year : UInt16
  month : UInt8
  day : UInt8
  deriving DecidableEq, Repr

structure RawTime where
  secondsFromMidnight : UInt32
  nanoseconds : UInt32
  deriving DecidableEq, Repr

structure RawTimeZone where
  offset : Int32
  deriving DecidableEq

structure RawDateTime where
  date : RawDate
  time : RawTime
  timezone : RawTimeZone
  deriving DecidableEq

instance : TuxIOType RawDate where
  constSize _ := some 4
  size _ := 4

instance : TypedObjectType RawDate where
  typeKey := 13

instance : WritableObjectType RawDate where
  writeToWriter d := do
    writeToWriter d.year
    writeToWriter d.month
    writeToWriter d.day

instance : ReadableObjectType RawDate where
  readSize := pure 4
  readFromReader := do
    let year ← readFromReader
    let month ← readFromReader
    let day ← readFromReader
    return ⟨year, month, day⟩

instance : TuxIOType RawTime where
  constSize _ := some 8
  size _ := 8

instance : TypedObjectType RawTime where
  typeKey := 14

instance : WritableObjectType RawTime where
  writeToWriter t := do
    writeToWriter t.secondsFromMidnight
    writeToWriter t.nanoseconds

instance : ReadableObjectType RawTime where
  readSize := pure 8
  readFromReader := do
    let secondsFromMidnight ← readFromReader
    let nanoseconds ← readFromReader
    return ⟨secondsFromMidnight, nanoseconds⟩

instance : TuxIOType RawTimeZone where
  constSize _ := some 4
  size _ := 4

instance : TypedObjectType RawTimeZone where
  typeKey := 15

instance : WritableObjectType RawTimeZone where
  writeToWriter z := writeToWriter z.offset

instance : ReadableObjectType RawTimeZone where
  readSize := pure 4
  readFromReader := do
    let offset ← readFromReader
    return ⟨offset⟩

instance : TuxIOType RawDateTime where
  constSize _ := some 16
  size _ := 16

instance : TypedObjectType RawDateTime where
  typeKey := 16

instance : WritableObjectType RawDateTime where
  writeToWriter t := do
    writeToWriter t.date
    writeToWriter t.time
    writeToWriter t.timezone

instance : ReadableObjectType RawDateTime where
  readSize := pure 16
  readFromReader := do
    let date ← readFromReader
    let time ← readFromReader
    let timezone ← readFromReader
    return ⟨date, time, timezone⟩

/-- The wire format of a number is its little-endian bytes, as long as the number is wide. -/
lemma length_wire_number {α : Type} [Number α] (a : α) :
    (Codec.wire a).length = Number.width α := Number.length_toLeBytes a

lemma readsAs_number {α : Type} [Number α] (a : α) : ReadsAs readFromReader (Codec.wire a) a :=
  Codec.readsAs_wire (a := a) trivial

instance : Codec RawDate :=
  Codec.ofTotal (fun d => Codec.wire d.year ++ (Codec.wire d.month ++ Codec.wire d.day))
    (fun d => by
      show (do emit (Codec.wire d.year); emit (Codec.wire d.month); emit (Codec.wire d.day)) = _
      rw [emit_bind_emit, emit_bind_emit])
    (fun d => by simp only [List.length_append, length_wire_number]; rfl)
    (fun d => by
      have hday := (readsAs_number d.day).map (RawDate.mk d.year d.month)
      have hmonth : ReadsAs (do
          let month ← readFromReader
          let day ← readFromReader
          return RawDate.mk d.year month day) (Codec.wire d.month ++ Codec.wire d.day) d :=
        (readsAs_number d.month).bind hday
      exact (readsAs_number d.year).bind hmonth)

instance : Codec RawTime :=
  Codec.ofTotal (fun t => Codec.wire t.secondsFromMidnight ++ Codec.wire t.nanoseconds)
    (fun t => emit_bind_emit _ _)
    (fun t => by simp only [List.length_append, length_wire_number]; rfl)
    (fun t => (readsAs_number t.secondsFromMidnight).bind
      ((readsAs_number t.nanoseconds).map fun n => RawTime.mk t.secondsFromMidnight n))

instance : Codec RawTimeZone :=
  Codec.ofTotal (fun z => Codec.wire z.offset) (fun _ => rfl)
    (fun z => by rw [length_wire_number]; rfl)
    (fun z => (readsAs_number z.offset).map RawTimeZone.mk)

instance : Codec RawDateTime :=
  Codec.ofTotal (fun t => Codec.wire t.date ++ (Codec.wire t.time ++ Codec.wire t.timezone))
    (fun t => by
      show (do writeToWriter t.date; writeToWriter t.time; writeToWriter t.timezone) = _
      rw [Codec.write_of_fits (a := t.date) trivial, Codec.write_of_fits (a := t.time) trivial,
        Codec.write_of_fits (a := t.timezone) trivial, emit_bind_emit, emit_bind_emit])
    (fun t => by
      simp only [List.length_append, Codec.length_wire (a := t.date) trivial,
        Codec.length_wire (a := t.time) trivial, Codec.length_wire (a := t.timezone) trivial]
      rfl)
    (fun t => (Codec.readsAs_wire (a := t.date) trivial).bind
      ((Codec.readsAs_wire (a := t.time) trivial).bind
        ((Codec.readsAs_wire (a := t.timezone) trivial).map fun z =>
          RawDateTime.mk t.date t.time z)))

/-! ## `Uuid` -/

/-- A `uuid::Uuid`: sixteen bytes. -/
structure Uuid where
  bytes : List UInt8
  length_bytes : bytes.length = 16
  deriving DecidableEq

instance : TuxIOType Uuid where
  constSize _ := some 16
  size _ := 16

instance : TypedObjectType Uuid where
  typeKey := 17

instance : WritableObjectType Uuid where
  writeToWriter u := emit u.bytes

/-- `Uuid::from_bytes`, on a buffer `read_exact` has filled. -/
def Uuid.fromBytes (bs : List UInt8) : Uuid :=
  ⟨bs.take 16 ++ List.replicate (16 - bs.length) 0, by
    simp only [List.length_append, List.length_take, List.length_replicate]; omega⟩

lemma Uuid.fromBytes_bytes (u : Uuid) : Uuid.fromBytes u.bytes = u := by
  obtain ⟨bs, h⟩ := u
  simp only [Uuid.fromBytes, Uuid.mk.injEq, h, Nat.sub_self, List.replicate_zero, List.append_nil]
  exact List.take_of_length_le (Nat.le_of_eq h)

instance : ReadableObjectType Uuid where
  readSize := pure 16
  readFromReader := do
    let buf ← readExact 16
    return Uuid.fromBytes buf
  skip := modify fun c => { c with pos := c.pos + 16 }

instance : Codec Uuid :=
  Codec.ofTotal Uuid.bytes (fun _ => rfl) Uuid.length_bytes fun u => by
    have h := (readsAs_readExact u.length_bytes).map Uuid.fromBytes
    rw [Uuid.fromBytes_bytes] at h
    exact h

end TuxEncoding
