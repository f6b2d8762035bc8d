import Mathlib.Data.List.Nodup
import TuxEncoding.Codec.Types

/-!
# Byte blocks, sets, options and maps

The remaining codecs of `src/types`: `[u8; N]`, `bytes::Bytes`, `HashSet<T>`, `Option<T>` and the
map `HashMap<K, V, S>` whose keys and values have one type each. A set and a map are their elements
in the order in which they are iterated, so that what holds of every list holds of every order.
-/

namespace TuxEncoding

open Bytes

set_option linter.unusedSectionVars false

/-! ## `[u8; N]` -/

/-- A `[u8; N]`. -/
structure FixedBytes (n : ℕ) where
  bytes : List UInt8
  length_bytes : bytes.length = n
  deriving DecidableEq

namespace FixedBytes

variable {n : ℕ}

instance : TuxIOType (FixedBytes n) where
  constSize _ := some (n + 2)
  size _ := n + 2

instance : TypedObjectType (FixedBytes n) where
  typeKey := 11

instance : WritableObjectType (FixedBytes n) where
  writeToWriter b := writePrefixed "[u8; N]" b.bytes

/-- The array that `read_exact` has filled. -/
def fromBuffer (n : ℕ) (bs : List UInt8) : FixedBytes n :=
  ⟨bs.take n ++ List.replicate (n - bs.length) 0, by
    simp only [List.length_append, List.length_take, List.length_replicate]; omega⟩

lemma fromBuffer_bytes (b : FixedBytes n) : fromBuffer n b.bytes = b := by
  obtain ⟨bs, h⟩ := b
  simp only [fromBuffer, mk.injEq, h, Nat.sub_self, List.replicate_zero, List.append_nil]
  exact List.take_of_length_le (Nat.le_of_eq h)

instance : ReadableObjectType (FixedBytes n) where
  readSize := pure (n + 2)
  readFromReader := do
    let length ← readLength
    if length ≠ n then throw (.lengthMismatch "[u8; N]" n length)
    let buffer ← readExact n
    return fromBuffer n buffer

instance : Codec (FixedBytes n) where
  Fits _ := n ≤ maxPrefixedLength
  wire b := leBytes 2 b.bytes.length ++ b.bytes
  write_of_fits {W _ _ b} h := by
    rw [← b.length_bytes] at h
    exact writePrefixed_eq_emit "[u8; N]" h
  write_of_not_fits {W _ _ b} h := by
    rw [← b.length_bytes] at h
    exact writePrefixed_fails "[u8; N]" h
  length_wire {b} _ := by
    rw [List.length_append, length_leBytes, b.length_bytes]
    exact Nat.add_comm _ _
  readsAs_wire {b} h := by
    rw [b.length_bytes]
    refine (readsAs_readLength h).bind ?_
    rw [if_neg (not_not_intro rfl)]
    have hread := (readsAs_readExact b.length_bytes).map (fromBuffer n)
    rw [fromBuffer_bytes] at hread
    exact hread

end FixedBytes

/-! ## `bytes::Bytes` -/

/-- A `Bytes` of the `bytes` crate. -/
structure CrateBytes where
  bytes : List UInt8
  deriving DecidableEq

namespace CrateBytes

instance : TuxIOType CrateBytes where
  size b := b.bytes.length + 2

instance : TypedObjectType CrateBytes where
  typeKey := 11

instance : WritableObjectType CrateBytes where
  writeToWriter b := writePrefixed "Bytes" b.bytes

instance : ReadableObjectType CrateBytes where
  readSize := do
    let length ← readLength
    return length + 2
  readFromReader := do
    let length ← readLength
    let writer ← readExact length
    return ⟨writer⟩

instance : Codec CrateBytes where
  Fits b := b.bytes.length ≤ maxPrefixedLength
  wire b := leBytes 2 b.bytes.length ++ b.bytes
  write_of_fits h := writePrefixed_eq_emit "Bytes" h
  write_of_not_fits h := writePrefixed_fails "Bytes" h
  length_wire {b} _ := by
    rw [List.length_append, length_leBytes]
    exact Nat.add_comm _ _
  readsAs_wire h := (readsAs_readLength h).bind ((readsAs_readExact rfl).map CrateBytes.mk)

end CrateBytes

/-! ## `Option<T>` -/

section option

variable {α : Type} [TuxIOType α]

instance : TuxIOType (Option α) where
  size
    | some inner => 1 + size inner
    | none => 1

instance [WritableObjectType α] : WritableObjectType (Option α) where
  writeToWriter
    | none => emit [0]
    | some inner => do
        emit [1]
        writeToWriter inner

instance [ReadableObjectType α] : ReadableObjectType (Option α) where
  readSize := do
    let size ← ReadableObjectType.readSize α
    return 1 + size
  readFromReader := do
    let presence ← (readFromReader : Decoder UInt8)
    if presence ≠ 0 then
      let inner ← readFromReader
      return some inner
    else
      return none

/-- One byte is read as it was written. -/
lemma readsAs_byte (b : UInt8) : ReadsAs (readFromReader : Decoder UInt8) [b] b := by
  have hread := readsAs_number b
  rwa [show Codec.wire b = [b] by show leBytes 1 b.toNat = _; simp [leBytes]] at hread

instance [WritableObjectType α] [ReadableObjectType α] [Codec α] : Codec (Option α) where
  Fits a := ∀ inner, a = some inner → Codec.Fits inner
  wire
    | some inner => 1 :: Codec.wire inner
    | none => [0]
  write_of_fits {W _ _ a} h := by
    cases a with
    | none => rfl
    | some inner =>
        show (do emit [1]; writeToWriter inner : Encoder W Unit) = _
        rw [Codec.write_of_fits (h inner rfl), emit_bind_emit]
        rfl
  write_of_not_fits {W _ _ a} h := by
    cases a with
    | none => exact absurd (by simp) h
    | some inner =>
        refine Fails.bind_right _ fun _ => Codec.write_of_not_fits fun hfit => h ?_
        rintro _ ⟨⟩
        exact hfit
  length_wire {a} h := by
    cases a with
    | none => rfl
    | some inner =>
        show (1 :: Codec.wire inner).length = 1 + size inner
        rw [List.length_cons, Codec.length_wire (h inner rfl), Nat.add_comm]
  readsAs_wire {a} h := by
    cases a with
    | none => exact (readsAs_byte 0).bind_nil (ReadsAs.pure none)
    | some inner => exact (readsAs_byte 1).bind ((Codec.readsAs_wire (h inner rfl)).map some)

end option

/-! ## `HashSet<T>` -/

/-- A `HashSet<T>`: its elements in the order in which it is iterated. -/
structure HashSet (α : Type) where
  elements : List α
  nodup : elements.Nodup
  deriving DecidableEq

namespace HashSet

variable {α : Type}

def empty : HashSet α := ⟨[], List.nodup_nil⟩

variable [DecidableEq α]

def insert (s : HashSet α) (a : α) : HashSet α :=
  if h : a ∈ s.elements then s
  else ⟨s.elements ++ [a], List.nodup_append.mpr ⟨s.nodup, List.nodup_singleton a, by
    rintro b hb _ hmem rfl
    rw [List.mem_singleton] at hmem
    exact h (hmem ▸ hb)⟩⟩

lemma insert_of_notMem {s : HashSet α} {a : α} (h : a ∉ s.elements) :
    (s.insert a).elements = s.elements ++ [a] := by
  unfold insert
  rw [dif_neg h]

variable [TuxIOType α]

instance : TuxIOType (HashSet α) where
  size s := (s.elements.map size).sum + 2

instance [WritableObjectType α] : WritableObjectType (HashSet α) where
  writeToWriter s := do
    countIsAllowed "HashSet" s.elements.length
    writeLength s.elements.length
    writeEach writeToWriter s.elements

/-- The loop of `read_from_reader`, with `n` elements to go. -/
def readElements [ReadableObjectType α] : ℕ → HashSet α → Decoder (HashSet α)
  | 0, items => pure items
  | n + 1, items => do
      let item ← readFromReader
      readElements n (items.insert item)

instance [ReadableObjectType α] : ReadableObjectType (HashSet α) where
  readSize := do
    let length ← readLength
    return length + 2
  readFromReader := do
    let length ← readLength
    readElements length empty

variable [WritableObjectType α] [ReadableObjectType α] [Codec α]

/-- Elements that are new and distinct are added one after the other. -/
lemma readsAs_readElements {as : List α} {s t : HashSet α}
    (ht : t.elements = s.elements ++ as) (hfits : ∀ a ∈ as, Codec.Fits a) :
    ReadsAs (readElements as.length s) (as.flatMap Codec.wire) t := by
  induction as generalizing s with
  | nil =>
      obtain rfl : t = s := by
        obtain ⟨_, _⟩ := s
        obtain ⟨_, _⟩ := t
        simpa using ht
      exact ReadsAs.pure t
  | cons a as ih =>
      have hnew : a ∉ s.elements := by
        have hnodup := t.nodup
        rw [ht, List.nodup_append] at hnodup
        exact fun hmem => hnodup.2.2 a hmem a List.mem_cons_self rfl
      refine (Codec.readsAs_wire (hfits a List.mem_cons_self)).bind (ih ?_ ?_)
      · rw [insert_of_notMem hnew, ht, List.append_assoc]
        rfl
      · exact fun b hb => hfits b (List.mem_cons_of_mem a hb)

instance : Codec (HashSet α) where
  Fits s := s.elements.length ≤ maxPrefixedLength ∧ ∀ a ∈ s.elements, Codec.Fits a
  wire s := leBytes 2 s.elements.length ++ s.elements.flatMap Codec.wire
  write_of_fits {W _ _ s} h := by
    have hitems := writeEach_eq_emit (W := W) fun a ha => Codec.write_of_fits (h.2 a ha)
    show (do
      countIsAllowed "HashSet" s.elements.length
      writeLength s.elements.length
      writeEach writeToWriter s.elements) = _
    rw [countIsAllowed_of_le h.1, writeLength_eq_emit h.1, hitems, pure_bind, emit_bind_emit]
  write_of_not_fits {W _ _ s} h := by
    by_cases hlen : s.elements.length ≤ maxPrefixedLength
    · obtain ⟨a, ha, hfit⟩ : ∃ a ∈ s.elements, ¬ Codec.Fits a := by
        by_contra hall
        exact h ⟨hlen, fun a ha => by_contra fun hfit => hall ⟨a, ha, hfit⟩⟩
      exact Fails.bind_right _ fun _ => Fails.bind_right _ fun _ =>
        writeEach_fails ha (Codec.write_of_not_fits hfit)
    · exact (countIsAllowed_fails hlen).bind_left _
  length_wire {s} h := by
    have hmap : s.elements.map (fun a => (Codec.wire a).length) = s.elements.map size :=
      List.map_congr_left fun a ha => Codec.length_wire (h.2 a ha)
    rw [List.length_append, length_leBytes, List.length_flatMap, hmap]
    exact Nat.add_comm _ _
  readsAs_wire h := (readsAs_readLength h.1).bind (readsAs_readElements rfl h.2)

end HashSet

/-! ## `HashMap<K, V, S>` -/

/-- A `HashMap<K, V, S>`: its entries in the order in which it is iterated. -/
structure TypedMap (K V : Type) where
  entries : List (K × V)
  nodup : (entries.map Prod.fst).Nodup
  deriving DecidableEq

namespace TypedMap

variable {K V : Type}

def empty : TypedMap K V := ⟨[], List.nodup_nil⟩

variable [DecidableEq K]

def get (m : TypedMap K V) (key : K) : Option V :=
  (m.entries.find? fun entry => entry.1 = key).map Prod.snd

/-- Equality of maps: the same value, or none, under every key. -/
def Equal (m m' : TypedMap K V) : Prop := ∀ key, m.get key = m'.get key

/-- The entries with the value under the key replaced. -/
def replace (key : K) (value : V) (entries : List (K × V)) : List (K × V) :=
  entries.map fun entry => if entry.1 = key then (entry.1, value) else entry

lemma map_fst_replace (key : K) (value : V) (entries : List (K × V)) :
    (replace key value entries).map Prod.fst = entries.map Prod.fst := by
  rw [replace, List.map_map]
  refine List.map_congr_left fun entry _ => ?_
  show (if entry.1 = key then (entry.1, value) else entry).1 = entry.1
  split_ifs <;> rfl

def insert (m : TypedMap K V) (key : K) (value : V) : TypedMap K V :=
  if h : key ∈ m.entries.map Prod.fst then
    ⟨replace key value m.entries, by rw [map_fst_replace]; exact m.nodup⟩
  else
    ⟨m.entries ++ [(key, value)], by
      rw [List.map_append, List.nodup_append]
      refine ⟨m.nodup, List.nodup_singleton key, ?_⟩
      rintro b hb _ hmem rfl
      have hkey : b = key := List.mem_singleton.mp hmem
      exact h (hkey ▸ hb)⟩

lemma insert_of_notMem {m : TypedMap K V} {key : K} (value : V)
    (h : key ∉ m.entries.map Prod.fst) :
    (m.insert key value).entries = m.entries ++ [(key, value)] := by
  unfold insert
  rw [dif_neg h]

variable [TuxIOType K] [TuxIOType V]

instance : TuxIOType (TypedMap K V) where
  size m := 2 + 1 + 1 + (m.entries.map fun entry => size entry.1 + size entry.2).sum

variable [TypedObjectType K] [TypedObjectType V]

/-- One key and its value. -/
def writeEntry {W : Type} [Write W] [WritableObjectType K] [WritableObjectType V]
    (entry : K × V) : Encoder W Unit := do
  writeToWriter entry.1
  writeToWriter entry.2

instance [WritableObjectType K] [WritableObjectType V] : WritableObjectType (TypedMap K V) where
  writeToWriter m := do
    countIsAllowed "HashMap" m.entries.length
    writeLength m.entries.length
    writeToWriter (typeKey K)
    writeToWriter (typeKey V)
    writeEach writeEntry m.entries

section read

variable [ReadableObjectType K] [ReadableObjectType V]

/-- The loop of `read_size`, with `n` entries to go and `baseSize` bytes counted. -/
def measureEntries (K V : Type) [TuxIOType K] [TuxIOType V] [ReadableObjectType K]
    [ReadableObjectType V] : ℕ → ℕ → Decoder ℕ
  | 0, baseSize => pure baseSize
  | n + 1, baseSize => do
      let keySize ← ReadableObjectType.readSize K
      let valueSize ← ReadableObjectType.readSize V
      measureEntries K V n (baseSize + (keySize + valueSize))

/-- The loop of `read_from_reader`, with `n` entries to go. -/
def readEntries : ℕ → TypedMap K V → Decoder (TypedMap K V)
  | 0, map => pure map
  | n + 1, map => do
      let key ← readFromReader
      let value ← readFromReader
      readEntries n (map.insert key value)

instance : ReadableObjectType (TypedMap K V) where
  readSize := do
    let length ← readLength
    modify fun c => { c with pos := c.pos + 2 }
    measureEntries K V length (2 + 1 + 1)
  readFromReader := do
    let length ← readLength
    let keyType ← (readFromReader : Decoder UInt8)
    let valueType ← (readFromReader : Decoder UInt8)
    if keyType ≠ typeKey K then throw (.mismatchedObjectType (typeKey K) keyType)
    if valueType ≠ typeKey V then throw (.mismatchedObjectType (typeKey V) valueType)
    readEntries length empty

end read

variable [WritableObjectType K] [WritableObjectType V] [ReadableObjectType K]
  [ReadableObjectType V] [Codec K] [Codec V]

/-- One key and its value, encoded. -/
def entryWire (entry : K × V) : List UInt8 := Codec.wire entry.1 ++ Codec.wire entry.2

lemma writeEntry_eq_emit {W : Type} [Write W] [LawfulWrite W] {entry : K × V}
    (h : Codec.Fits entry.1 ∧ Codec.Fits entry.2) :
    (writeEntry entry : Encoder W Unit) = emit (entryWire entry) := by
  rw [writeEntry, Codec.write_of_fits h.1, Codec.write_of_fits h.2, emit_bind_emit]
  rfl

lemma writeEntry_fails {W : Type} [Write W] [LawfulWrite W] {entry : K × V}
    (h : ¬ (Codec.Fits entry.1 ∧ Codec.Fits entry.2)) :
    Fails (writeEntry entry : Encoder W Unit) := by
  by_cases hkey : Codec.Fits entry.1
  · exact Fails.bind_right _ fun _ => Codec.write_of_not_fits fun hval => h ⟨hkey, hval⟩
  · exact (Codec.write_of_not_fits hkey).bind_left _

/-- Entries with new and distinct keys are added one after the other. -/
lemma readsAs_readEntries {entries : List (K × V)} {m m' : TypedMap K V}
    (hm' : m'.entries = m.entries ++ entries)
    (hfits : ∀ entry ∈ entries, Codec.Fits entry.1 ∧ Codec.Fits entry.2) :
    ReadsAs (readEntries entries.length m) (entries.flatMap entryWire) m' := by
  induction entries generalizing m with
  | nil =>
      obtain rfl : m' = m := by
        obtain ⟨_, _⟩ := m
        obtain ⟨_, _⟩ := m'
        simpa using hm'
      exact ReadsAs.pure m'
  | cons entry entries ih =>
      obtain ⟨hkey, hvalue⟩ := hfits entry List.mem_cons_self
      have hnew : entry.1 ∉ m.entries.map Prod.fst := by
        have hnodup := m'.nodup
        rw [hm', List.map_append, List.nodup_append] at hnodup
        exact fun hmem => hnodup.2.2 entry.1 hmem entry.1 List.mem_cons_self rfl
      rw [List.flatMap_cons, entryWire, List.append_assoc]
      refine (Codec.readsAs_wire hkey).bind ((Codec.readsAs_wire hvalue).bind (ih ?_ ?_))
      · rw [insert_of_notMem entry.2 hnew, hm', List.append_assoc]
        rfl
      · exact fun e he => hfits e (List.mem_cons_of_mem entry he)

instance : Codec (TypedMap K V) where
  Fits m := m.entries.length ≤ maxPrefixedLength ∧
    ∀ entry ∈ m.entries, Codec.Fits entry.1 ∧ Codec.Fits entry.2
  wire m := leBytes 2 m.entries.length ++ ([typeKey K, typeKey V] ++ m.entries.flatMap entryWire)
  write_of_fits {W _ _ m} h := by
    have hentries := writeEach_eq_emit (W := W) fun entry he => writeEntry_eq_emit (h.2 entry he)
    have hbyte : ∀ b : UInt8, (writeToWriter b : Encoder W Unit) = emit [b] := fun b => by
      show emit (leBytes 1 b.toNat) = _
      simp [leBytes]
    show (do
      countIsAllowed "HashMap" m.entries.length
      writeLength m.entries.length
      writeToWriter (typeKey K)
      writeToWriter (typeKey V)
      writeEach writeEntry m.entries) = _
    rw [countIsAllowed_of_le h.1, writeLength_eq_emit h.1, hentries, pure_bind, hbyte, hbyte,
      emit_bind_emit, emit_bind_emit, emit_bind_emit]
    rfl
  write_of_not_fits {W _ _ m} h := by
    by_cases hlen : m.entries.length ≤ maxPrefixedLength
    · obtain ⟨entry, he, hfit⟩ :
          ∃ entry ∈ m.entries, ¬ (Codec.Fits entry.1 ∧ Codec.Fits entry.2) := by
        by_contra hall
        exact h ⟨hlen, fun entry he => by_contra fun hfit => hall ⟨entry, he, hfit⟩⟩
      exact Fails.bind_right _ fun _ => Fails.bind_right _ fun _ => Fails.bind_right _ fun _ =>
        Fails.bind_right _ fun _ => writeEach_fails he (writeEntry_fails hfit)
    · exact (countIsAllowed_fails hlen).bind_left _
  length_wire {m} h := by
    have hmap : m.entries.map (fun entry => (entryWire entry).length) =
        m.entries.map fun entry => size entry.1 + size entry.2 :=
      List.map_congr_left fun entry he => by
        rw [entryWire, List.length_append, Codec.length_wire (h.2 entry he).1,
          Codec.length_wire (h.2 entry he).2]
    rw [List.length_append, List.length_append, length_leBytes, List.length_flatMap, hmap]
    exact (Nat.add_assoc 2 2 _).symm
  readsAs_wire {m} h := by
    have hentries : ReadsAs (readEntries m.entries.length empty) (m.entries.flatMap entryWire) m :=
      readsAs_readEntries rfl h.2
    refine (readsAs_readLength h.1).bind ?_
    refine (readsAs_byte (typeKey K)).bind ?_
    refine (readsAs_byte (typeKey V)).bind ?_
    rw [if_neg (not_not_intro rfl)]
    show ReadsAs (do
      if typeKey V ≠ typeKey V then throw (.mismatchedObjectType (typeKey V) (typeKey V))
      readEntries m.entries.length empty) _ _
    rw [if_neg (not_not_intro rfl)]
    exact hentries

end TypedMap

end TuxEncoding
