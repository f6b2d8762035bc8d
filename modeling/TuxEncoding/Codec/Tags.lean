import TuxEncoding.Codec.Value
import Mathlib.Data.List.AList

/-!
# `Tags` and `MetadataMap`

The map of typed values behind both the tag and the metadata section. A `HashMap` is an association
list without duplicate keys, compared by its lookups; the order it is iterated in is whatever
`HashOrder` says, so that what is proved here holds of every iteration order. The `http` crate's
`HeaderName` is the parameter `Http`.

* A block within the limits is its count and its entries (`Tags.write_of_fits`), as long as
  `size` says (`Tags.length_wire`), and reads back as an equal map (`Tags.readsAs_wire`,
  `Tags.decoded_equal`).
* `findFromReader` returns the value of the key in the map that was written
  (`Tags.yields_findFromReader`).
* `tags_codec`: for both key types, encoding succeeds exactly on the maps within the format's
  limits, and decoding takes exactly the encoding.
-/

namespace TuxEncoding

open Bytes

set_option linter.unusedSectionVars false

/-! ## The map -/

/-- A map from keys to values: no key occurs twice. -/
abbrev HashMap (Key : Type) := AList fun _ : Key => ValueType

/-- The order in which a `HashMap` is iterated: any arrangement of its entries. -/
class HashOrder (Key : Type) where
  iter : HashMap Key → List (Σ _ : Key, ValueType)
  iter_perm : ∀ map, (iter map).Perm map.entries

/-- `Tags` of `src/tags.rs`. -/
structure Tags (Key : Type) where
  map : HashMap Key

namespace Tags

variable {Key : Type} [DecidableEq Key]

def new : Tags Key := ⟨∅⟩

def insert (t : Tags Key) (key : Key) (value : ValueType) : Tags Key := ⟨t.map.insert key value⟩

def get (t : Tags Key) (key : Key) : Option ValueType := t.map.lookup key

def remove (t : Tags Key) (key : Key) : Tags Key := ⟨t.map.erase key⟩

/-- `number_of_tags`, the length of the map. -/
def numberOfTags (t : Tags Key) : ℕ := t.map.entries.length

lemma get_insert_self (t : Tags Key) (key : Key) (value : ValueType) :
    (t.insert key value).get key = some value := AList.lookup_insert t.map

lemma get_insert_of_ne (t : Tags Key) {key key' : Key} (value : ValueType) (h : key' ≠ key) :
    (t.insert key value).get key' = t.get key' := AList.lookup_insert_ne h

/-- `PartialEq` of maps: the same value, or none, under every key. -/
def Equal (a b : Tags Key) : Prop := ∀ key, a.get key = b.get key

@[refl] lemma Equal.refl (t : Tags Key) : t.Equal t := fun _ => rfl

lemma Equal.symm {a b : Tags Key} (h : a.Equal b) : b.Equal a := fun key => (h key).symm

lemma Equal.trans {a b c : Tags Key} (hab : a.Equal b) (hbc : b.Equal c) : a.Equal c :=
  fun key => (hab key).trans (hbc key)

/-- Equal maps hold the same entries. -/
lemma Equal.perm {a b : Tags Key} (h : a.Equal b) : a.map.entries.Perm b.map.entries :=
  List.lookup_ext a.map.nodupKeys b.map.nodupKeys fun key value => by
    rw [show a.map.entries.dlookup key = b.map.entries.dlookup key from h key]

lemma equal_of_perm {a b : Tags Key} (h : a.map.entries.Perm b.map.entries) : a.Equal b :=
  fun _ => AList.perm_lookup h

lemma Equal.numberOfTags {a b : Tags Key} (h : a.Equal b) : a.numberOfTags = b.numberOfTags :=
  h.perm.length_eq

/-! ## Encoding and decoding -/

variable [HashOrder Key]

/-- The pairs in iteration order. -/
def iter (t : Tags Key) : List (Key × ValueType) := (HashOrder.iter t.map).map fun e => (e.1, e.2)

/-- One key and its value. -/
def writeEntry {W : Type} [Write W] [TuxIOType Key] [WritableObjectType Key]
    (entry : Key × ValueType) : Encoder W Unit := do
  writeToWriter entry.1
  writeToWriter entry.2

instance [TuxIOType Key] : TuxIOType (Tags Key) where
  size t := (t.iter.map fun entry => size entry.1 + size entry.2).sum + 2

/-- A map without entries takes up the two bytes of its count. -/
lemma size_new [TuxIOType Key] : size (new : Tags Key) = 2 := by
  have hiter : HashOrder.iter (new : Tags Key).map = [] :=
    List.Perm.eq_nil (HashOrder.iter_perm (new : Tags Key).map)
  show (((HashOrder.iter (new : Tags Key).map).map _).map _).sum + 2 = 2
  rw [hiter]
  rfl

instance [TuxIOType Key] [WritableObjectType Key] : WritableObjectType (Tags Key) where
  writeToWriter t := do
    countIsAllowed "Tags" t.numberOfTags
    writeLength t.numberOfTags
    writeEach writeEntry t.iter

section read

variable [TuxIOType Key] [ReadableObjectType Key]

/-- The loop of `read_size`, with `n` entries to go and `total` bytes measured. -/
def measureEntries (Key : Type) [TuxIOType Key] [ReadableObjectType Key] (blockStart : ℕ) :
    ℕ → ℕ → Decoder ℕ
  | 0, total => pure total
  | n + 1, total => do
      let keySize ← ReadableObjectType.readSize Key
      seekStart (blockStart + (total + keySize))
      let valueSize ← ReadableObjectType.readSize ValueType
      seekStart (blockStart + (total + keySize + valueSize))
      measureEntries Key blockStart n (total + keySize + valueSize)

/-- The loop of `read_from_reader`, with `n` entries to go. -/
def readEntries : ℕ → Tags Key → Decoder (Tags Key)
  | 0, tags => pure tags
  | n + 1, tags => do
      let key ← readFromReader
      let value ← readFromReader
      readEntries n (tags.insert key value)

instance : ReadableObjectType (Tags Key) where
  readSize := do
    let blockStart ← streamPosition
    let count ← readLength
    measureEntries Key blockStart count 2
  readFromReader := do
    let count ← readLength
    readEntries count new

/-- The loop of `find_from_reader`, with `n` entries to go. -/
def findEntry (key : Key) : ℕ → Decoder (Option ValueType)
  | 0 => pure none
  | n + 1 => do
      let tagKey ← readFromReader
      if tagKey = key then
        let value ← readFromReader
        return some value
      else
        ReadableObjectType.skip ValueType
        findEntry key n

/-- `Tags::find_from_reader`. -/
def findFromReader (key : Key) : Decoder (Option ValueType) := do
  let count ← readLength
  findEntry key count

end read

/-- `Tags::read_tag_count`. -/
def readTagCount : Decoder ℕ := readLength

/-! ## The format of a block -/

section codec

variable [TuxIOType Key] [WritableObjectType Key] [ReadableObjectType Key] [Codec Key]

/-- The maps within the limits of the format. -/
def Fits (t : Tags Key) : Prop :=
  t.numberOfTags ≤ maxPrefixedLength ∧ ∀ entry ∈ t.iter, Codec.Fits entry.1 ∧ Codec.Fits entry.2

/-- One key and its value, encoded. -/
def entryWire (entry : Key × ValueType) : List UInt8 := Codec.wire entry.1 ++ Codec.wire entry.2

/-- The bytes of a block: the count, then the entries in iteration order. -/
def wire (t : Tags Key) : List UInt8 := leBytes 2 t.numberOfTags ++ t.iter.flatMap entryWire

lemma length_iter (t : Tags Key) : t.iter.length = t.numberOfTags := by
  rw [iter, List.length_map, numberOfTags]
  exact (HashOrder.iter_perm t.map).length_eq

lemma writeEntry_eq_emit {W : Type} [Write W] [LawfulWrite W] {entry : Key × ValueType}
    (h : Codec.Fits entry.1 ∧ Codec.Fits entry.2) :
    (writeEntry entry : Encoder W Unit) = emit (entryWire entry) := by
  rw [writeEntry, Codec.write_of_fits h.1, Codec.write_of_fits h.2, emit_bind_emit]
  rfl

/-- A block within the limits is written as its format says. -/
lemma write_of_fits {W : Type} [Write W] [LawfulWrite W] {t : Tags Key} (h : t.Fits) :
    (writeToWriter t : Encoder W Unit) = emit t.wire := by
  have hentries := writeEach_eq_emit (W := W) fun entry he => writeEntry_eq_emit (h.2 entry he)
  show (do countIsAllowed "Tags" t.numberOfTags; writeLength t.numberOfTags
           writeEach writeEntry t.iter) = _
  rw [countIsAllowed_of_le h.1, writeLength_eq_emit h.1, hentries, pure_bind, emit_bind_emit]
  rfl

/-- A block outside the limits is rejected, whatever it is written to. -/
lemma write_of_not_fits {W : Type} [Write W] [LawfulWrite W] {t : Tags Key} (h : ¬ t.Fits) :
    Fails (writeToWriter t : Encoder W Unit) := by
  by_cases hcount : t.numberOfTags ≤ maxPrefixedLength
  · obtain ⟨entry, he, hfit⟩ : ∃ entry ∈ t.iter, ¬ (Codec.Fits entry.1 ∧ Codec.Fits entry.2) := by
      by_contra hall
      exact h ⟨hcount, fun entry he => by_contra fun hfit => hall ⟨entry, he, hfit⟩⟩
    have hentry : Fails (writeEntry entry : Encoder W Unit) := by
      by_cases hkey : Codec.Fits entry.1
      · exact Fails.bind_right _ fun _ => Codec.write_of_not_fits fun hval => hfit ⟨hkey, hval⟩
      · exact (Codec.write_of_not_fits hkey).bind_left _
    exact Fails.bind_right _ fun _ => Fails.bind_right _ fun _ => writeEach_fails he hentry
  · exact (countIsAllowed_fails hcount).bind_left _

/-- A block is as long as `size` says. -/
lemma length_wire {t : Tags Key} (h : t.Fits) : t.wire.length = size t := by
  have hmap : t.iter.map (fun entry => (entryWire entry).length) =
      t.iter.map fun entry => size entry.1 + size entry.2 :=
    List.map_congr_left fun entry he => by
      rw [entryWire, List.length_append, Codec.length_wire (h.2 entry he).1,
        Codec.length_wire (h.2 entry he).2]
  rw [wire, List.length_append, length_leBytes, List.length_flatMap, hmap]
  exact Nat.add_comm _ _

/-! ## Reading a block back -/

/-- Insert pairs one after the other. -/
def insertAll (t : Tags Key) (entries : List (Key × ValueType)) : Tags Key :=
  entries.foldl (fun t entry => t.insert entry.1 entry.2) t

/-- The map that reading the encoding of `t` builds. -/
def decoded (t : Tags Key) : Tags Key := new.insertAll t.iter

lemma readsAs_readEntries (t : Tags Key) {entries : List (Key × ValueType)}
    (h : ∀ entry ∈ entries, Codec.Fits entry.1 ∧ Codec.Fits entry.2) :
    ReadsAs (readEntries entries.length t) (entries.flatMap entryWire) (t.insertAll entries) := by
  induction entries generalizing t with
  | nil => exact ReadsAs.pure t
  | cons entry entries ih =>
      obtain ⟨hkey, hvalue⟩ := h entry List.mem_cons_self
      have hrest := ih (t.insert entry.1 entry.2) fun e he => h e (List.mem_cons_of_mem entry he)
      rw [List.flatMap_cons, entryWire, List.append_assoc]
      exact (Codec.readsAs_wire hkey).bind ((Codec.readsAs_wire hvalue).bind hrest)

/-- Reading takes exactly the encoding off the input. -/
lemma readsAs_wire {t : Tags Key} (h : t.Fits) :
    ReadsAs (readFromReader : Decoder (Tags Key)) t.wire t.decoded := by
  have hentries := readsAs_readEntries new h.2
  rw [length_iter] at hentries
  exact (readsAs_readLength h.1).bind hentries

/-- Inserting pairs with new and distinct keys adds exactly those pairs. -/
lemma perm_insertAll (t : Tags Key) (entries : List (Key × ValueType))
    (hnodup : (entries.map Prod.fst).Nodup) (hnew : ∀ entry ∈ entries, entry.1 ∉ t.map) :
    (t.insertAll entries).map.entries.Perm
      (entries.map (fun entry => ⟨entry.1, entry.2⟩) ++ t.map.entries) := by
  induction entries generalizing t with
  | nil => exact List.Perm.refl _
  | cons entry entries ih =>
      rw [List.map_cons, List.nodup_cons] at hnodup
      have hnew' : ∀ e ∈ entries, e.1 ∉ (t.insert entry.1 entry.2).map := by
        intro e he
        rw [insert, AList.mem_insert]
        rintro (heq | hmem)
        · exact hnodup.1 (List.mem_map.mpr ⟨e, he, heq⟩)
        · exact hnew e (List.mem_cons_of_mem entry he) hmem
      refine (ih (t.insert entry.1 entry.2) hnodup.2 hnew').trans ?_
      rw [insert, AList.entries_insert_of_notMem (hnew entry List.mem_cons_self)]
      exact List.perm_middle

lemma nodup_iter (t : Tags Key) : (t.iter.map Prod.fst).Nodup := by
  rw [iter, List.map_map]
  have hperm : ((HashOrder.iter t.map).map Sigma.fst).Perm t.map.keys :=
    (HashOrder.iter_perm t.map).map Sigma.fst
  exact hperm.nodup_iff.mpr t.map.keys_nodup

/-- The map read back is equal to the one written. -/
theorem decoded_equal (t : Tags Key) : t.decoded.Equal t := by
  refine equal_of_perm ((perm_insertAll new t.iter t.nodup_iter ?_).trans ?_)
  · exact fun entry _ => AList.notMem_empty entry.1
  · have hmap : t.iter.map (fun entry => (⟨entry.1, entry.2⟩ : Σ _ : Key, ValueType)) =
        HashOrder.iter t.map := by
      rw [iter, List.map_map]
      exact List.map_id _
    rw [hmap, show (new : Tags Key).map.entries = [] from rfl, List.append_nil]
    exact HashOrder.iter_perm t.map

lemma mem_iter {t : Tags Key} {key : Key} {value : ValueType} :
    (key, value) ∈ t.iter ↔ t.get key = some value := by
  rw [iter, List.mem_map]
  constructor
  · rintro ⟨e, he, heq⟩
    cases heq
    exact AList.mem_lookup_iff.mpr ((HashOrder.iter_perm t.map).mem_iff.mp he)
  · intro h
    exact ⟨⟨key, value⟩, (HashOrder.iter_perm t.map).mem_iff.mpr (AList.mem_lookup_iff.mp h), rfl⟩

/-- A map fits when its count does and every entry does. -/
lemma fits_iff {t : Tags Key} : t.Fits ↔ t.numberOfTags ≤ maxPrefixedLength ∧
    ∀ key value, t.get key = some value → Codec.Fits key ∧ Codec.Fits value := by
  refine and_congr_right fun _ => ?_
  exact ⟨fun h key value hget => h _ (mem_iter.mpr hget), fun h e he => h e.1 e.2 (mem_iter.mp he)⟩

/-- An empty map is within the limits. -/
lemma fits_new : (Tags.new : Tags Key).Fits :=
  fits_iff.mpr ⟨Nat.zero_le _, fun _ _ h => nomatch h⟩

/-- One more entry within the limits. -/
lemma fits_insert {t : Tags Key} {key : Key} {value : ValueType} (h : t.Fits)
    (hkey : Codec.Fits key) (hvalue : Codec.Fits value)
    (hcount : (t.insert key value).numberOfTags ≤ maxPrefixedLength) :
    (t.insert key value).Fits := by
  refine fits_iff.mpr ⟨hcount, fun key' value' hget => ?_⟩
  by_cases hsame : key' = key
  · subst hsame
    rw [get_insert_self] at hget
    obtain rfl := Option.some.inj hget
    exact ⟨hkey, hvalue⟩
  · rw [get_insert_of_ne t value hsame] at hget
    exact (fits_iff.mp h).2 key' value' hget

/-! ## Finding one key -/

lemma yields_findEntry (key : Key) {entries : List (Key × ValueType)}
    (h : ∀ entry ∈ entries, Codec.Fits entry.1 ∧ Codec.Fits entry.2) :
    Yields (findEntry key entries.length) (entries.flatMap entryWire)
      ((entries.find? fun entry => entry.1 = key).map Prod.snd) := by
  induction entries with
  | nil => exact (ReadsAs.pure none).yields
  | cons entry entries ih =>
      obtain ⟨hkey, hvalue⟩ := h entry List.mem_cons_self
      have hrest := ih fun e he => h e (List.mem_cons_of_mem entry he)
      rw [List.flatMap_cons, entryWire, List.append_assoc]
      refine (Codec.readsAs_wire hkey).bind_yields ?_
      by_cases heq : entry.1 = key
      · rw [if_pos heq, List.find?_cons_of_pos (by simpa using heq)]
        exact ((Codec.readsAs_wire hvalue).map some).yields.append _
      · rw [if_neg heq, List.find?_cons_of_neg (by simpa using heq)]
        exact ((Codec.readsAs_wire hvalue).map fun _ => ()).bind_yields hrest

/-- Looking a key up in an encoded block gives what the map that was written holds under it. -/
theorem yields_findFromReader {t : Tags Key} (h : t.Fits) (key : Key) :
    Yields (findFromReader key) t.wire (t.get key) := by
  have hfind : ((t.iter.find? fun entry => entry.1 = key).map Prod.snd) = t.get key := by
    cases hget : t.iter.find? fun entry => entry.1 = key with
    | none =>
        rw [List.find?_eq_none] at hget
        cases hval : t.get key with
        | none => rfl
        | some value => exact absurd (decide_eq_true rfl) (hget (key, value) (mem_iter.mpr hval))
    | some entry =>
        have hkey : entry.1 = key := by simpa using List.find?_some hget
        have hmem : (key, entry.2) ∈ t.iter := hkey ▸ List.mem_of_find?_eq_some hget
        exact (mem_iter.mp hmem).symm
  have hentries := yields_findEntry key h.2
  rw [hfind, length_iter] at hentries
  exact (readsAs_readLength h.1).bind_yields hentries

end codec

end Tags

/-! ## `MetaKey` -/

/-- What the crate uses of the `http` crate: header names and their two conversions. -/
class Http where
  HeaderName : Type
  decEq : DecidableEq HeaderName
  /-- `name.as_str().as_bytes()` -/
  asStr : HeaderName → List UInt8
  /-- `HeaderName::from_bytes` -/
  fromBytes : List UInt8 → Option HeaderName
  fromBytes_asStr : ∀ name, fromBytes (asStr name) = some name
  /-- `HeaderName::from_static("x-tuxio-uncompressed-length")` -/
  uncompressedLength : HeaderName
  asStr_uncompressedLength : asStr uncompressedLength = asBytes "x-tuxio-uncompressed-length"

attribute [reducible, instance] Http.decEq

/-- The bytes a header name may be made of: lower-case letters, digits and some marks. -/
def isTokenByte (b : UInt8) : Bool :=
  (97 ≤ b && b ≤ 122) || (48 ≤ b && b ≤ 57) ||
    [33, 35, 36, 37, 38, 39, 42, 43, 45, 46, 94, 95, 96, 124, 126].contains b

def toLowerByte (b : UInt8) : UInt8 := if 65 ≤ b && b ≤ 90 then b + 32 else b

/-- A header name. -/
structure Token where
  bytes : List UInt8
  isToken : bytes ≠ [] ∧ bytes.length ≤ 65535 ∧ bytes.all isTokenByte = true
  deriving DecidableEq

lemma toLowerByte_of_isTokenByte (b : UInt8) (h : isTokenByte b = true) : toLowerByte b = b := by
  have hall : ∀ n : Fin 256, isTokenByte (UInt8.ofNat n) = true →
      toLowerByte (UInt8.ofNat n) = UInt8.ofNat n := by decide +kernel
  have hb := hall ⟨b.toNat, b.toNat_lt⟩
  rw [UInt8.ofNat_toNat] at hb
  exact hb h

/-- The `http` crate: a header name is a token in lower case, and reading one turns the letters of
its input into lower case. -/
@[reducible] def tokenHttp : Http where
  HeaderName := Token
  decEq := inferInstance
  asStr := Token.bytes
  fromBytes bs :=
    if h : bs.map toLowerByte ≠ [] ∧ (bs.map toLowerByte).length ≤ 65535 ∧
        (bs.map toLowerByte).all isTokenByte = true then
      some ⟨bs.map toLowerByte, h⟩
    else none
  fromBytes_asStr name := by
    have hlower : name.bytes.map toLowerByte = name.bytes := by
      refine (List.map_congr_left fun b hb => ?_).trans (List.map_id _)
      exact toLowerByte_of_isTokenByte b (List.all_eq_true.mp name.isToken.2.2 b hb)
    simp only [hlower]
    rw [dif_pos name.isToken]
  uncompressedLength := ⟨asBytes "x-tuxio-uncompressed-length", by decide +kernel⟩
  asStr_uncompressedLength := rfl

section metaKey

variable [Http]

structure MetaKey where
  name : Http.HeaderName
  deriving DecidableEq

instance : TuxIOType MetaKey where
  size key := (Http.asStr key.name).length + 2

instance : TypedObjectType MetaKey where
  typeKey := 12

instance : WritableObjectType MetaKey where
  writeToWriter key := writePrefixed "MetaKey" (Http.asStr key.name)

instance : ReadableObjectType MetaKey where
  readSize := ReadableObjectType.readSize (List UInt8)
  readFromReader := do
    let content ← (readFromReader : Decoder (List UInt8))
    match Http.fromBytes content with
    | some name => return ⟨name⟩
    | none => throw .otherDecodingError

instance : Codec MetaKey where
  Fits key := (Http.asStr key.name).length ≤ maxPrefixedLength
  wire key := leBytes 2 (Http.asStr key.name).length ++ Http.asStr key.name
  write_of_fits h := writePrefixed_eq_emit "MetaKey" h
  write_of_not_fits h := writePrefixed_fails "MetaKey" h
  length_wire {key} _ := by
    simp only [List.length_append, length_leBytes]
    exact Nat.add_comm _ _
  readsAs_wire {key} h := by
    have hcontent := Codec.readsAs_wire ((fits_bytes _).mpr h)
    rw [wire_bytes] at hcontent
    refine hcontent.bind_nil ?_
    rw [Http.fromBytes_asStr]
    exact ReadsAs.pure key

abbrev MetadataMap := Tags MetaKey

end metaKey

/-! ## The block codec -/

/-- The limits the format puts on a map whose keys encode to `keyLength` bytes: at most 65535
entries, and at most 65535 bytes in every key and every string or byte value. -/
def Tags.WithinLimits {Key : Type} [DecidableEq Key] (keyLength : Key → ℕ) (t : Tags Key) : Prop :=
  t.numberOfTags ≤ 65535 ∧ ∀ key value, t.get key = some value → keyLength key ≤ 65535 ∧
    (∀ s, value = .string s → (asBytes s).length ≤ 65535) ∧
    (∀ bs, value = .bytes bs → bs.length ≤ 65535)

/-- What a block owes its readers: writing it into a growable buffer succeeds exactly on the maps
within the limits and appends an encoding that, whatever follows it, reads back as an equal map. -/
def Tags.BlockCodec {Key : Type} [DecidableEq Key] [HashOrder Key] [TuxIOType Key]
    [WritableObjectType Key] [ReadableObjectType Key] (keyLength : Key → ℕ) (t : Tags Key) : Prop :=
  ∀ w : Buffer,
    ((∃ w', writeToWriter t w = .ok ((), w')) ↔ t.WithinLimits keyLength) ∧
    ∀ w', writeToWriter t w = .ok ((), w') → ∃ encoding, ∃ t' : Tags Key,
      w'.bytes = w.bytes ++ encoding ∧ t'.Equal t ∧
      ∀ pre suf, readFromReader ⟨pre ++ encoding ++ suf, pre.length⟩ =
        .ok (t', ⟨pre ++ encoding ++ suf, pre.length + encoding.length⟩)

/-- Only strings and byte vectors have limits of their own. -/
lemma ValueType.fits_iff (value : ValueType) : Codec.Fits value ↔
    (∀ s, value = .string s → (asBytes s).length ≤ 65535) ∧
    (∀ bs, value = .bytes bs → bs.length ≤ 65535) := by
  cases value with
  | string s =>
      refine ⟨fun h => ⟨?_, nofun⟩, fun h => h.1 s rfl⟩
      rintro _ ⟨⟩
      exact h
  | bytes bs =>
      refine ⟨fun h => ⟨nofun, ?_⟩, fun h => (fits_bytes bs).mpr (h.2 bs rfl)⟩
      rintro _ ⟨⟩
      exact h.1
  | _ => exact ⟨fun _ => ⟨nofun, nofun⟩, fun _ => trivial⟩

/-- The limits of the format, where a key fits when its bytes do. -/
lemma Tags.fits_iff_withinLimits {Key : Type} [DecidableEq Key] [HashOrder Key] [TuxIOType Key]
    [WritableObjectType Key] [ReadableObjectType Key] [Codec Key] {keyLength : Key → ℕ}
    (hkey : ∀ key : Key, Codec.Fits key ↔ keyLength key ≤ 65535) (t : Tags Key) :
    t.Fits ↔ t.WithinLimits keyLength := by
  rw [Tags.fits_iff, WithinLimits]
  simp only [hkey, ValueType.fits_iff]
  rfl

lemma Tags.blockCodec {Key : Type} [DecidableEq Key] [HashOrder Key] [TuxIOType Key]
    [WritableObjectType Key] [ReadableObjectType Key] [Codec Key] {keyLength : Key → ℕ}
    (hkey : ∀ key : Key, Codec.Fits key ↔ keyLength key ≤ 65535) (t : Tags Key) :
    t.BlockCodec keyLength := by
  intro w
  rw [← Tags.fits_iff_withinLimits hkey]
  by_cases hfit : t.Fits
  · have hwrite : writeToWriter t w = .ok ((), (⟨w.bytes ++ t.wire⟩ : Buffer)) := by
      rw [write_of_fits hfit]
      rfl
    refine ⟨⟨fun _ => hfit, fun _ => ⟨_, hwrite⟩⟩, ?_⟩
    intro w' hw'
    rw [hwrite] at hw'
    cases hw'
    exact ⟨t.wire, t.decoded, rfl, t.decoded_equal, readsAs_wire hfit⟩
  · obtain ⟨e, he⟩ := write_of_not_fits hfit w
    refine ⟨⟨?_, fun h => absurd h hfit⟩, ?_⟩
    · rintro ⟨w', hw'⟩
      rw [he] at hw'
      cases hw'
    · intro w' hw'
      rw [he] at hw'
      cases hw'

/-- The tag and the metadata block: encoding succeeds exactly on the maps within the limits of the
format, and decoding takes exactly the encoding and gives an equal map, in every iteration order
of the maps. -/
theorem tags_codec [Http] [HashOrder String] [HashOrder MetaKey] :
    (∀ tags : Tags String, tags.BlockCodec fun key => (asBytes key).length) ∧
    (∀ metadata : MetadataMap, metadata.BlockCodec fun key => (Http.asStr key.name).length) :=
  ⟨Tags.blockCodec fun _ => Iff.rfl, Tags.blockCodec fun _ => Iff.rfl⟩

end TuxEncoding
