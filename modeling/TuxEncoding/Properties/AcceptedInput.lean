import TuxEncoding.Codec.Acceptance
import TuxEncoding.Properties.TagViews
import Mathlib.Algebra.Order.BigOperators.Group.List
import Mathlib.Algebra.Order.Group.Nat
import Mathlib.Data.List.Induction

/-!
# What is accepted can be written again

The decoders of this crate see input that it has not written. What they accept of it is well formed.

* `values_have_one_encoding`: a value type decodes exactly where an encoding of its value stands, so
  that no value has two encodings and none of them begins another one.
* `accepted_blocks_rewrite`: a map that was decoded is within the limits and encodes again, in no
  more bytes than were read, and in as many exactly when the block has no key twice.
-/

namespace TuxEncoding

open Bytes

set_option linter.unusedSectionVars false

/-! ## Value types -/

/-- The encodings of a type are what its decoder accepts, and no two of them begin alike. -/
structure OneEncoding (α : Type) [TuxIOType α] [WritableObjectType α] [ReadableObjectType α] :
    Prop where
  decodes_iff : ∀ (c c' : Cursor) (a : α), readFromReader c = .ok (a, c') ↔
    ∃ bs, writeToBytes a = .ok bs ∧ bs <+: c.bytes.drop c.pos ∧
      c' = ⟨c.bytes, c.pos + bs.length⟩
  prefix_free : ∀ (a b : α) (bs cs : List UInt8), writeToBytes a = .ok bs →
    writeToBytes b = .ok cs → bs <+: cs → a = b

lemma Strict.oneEncoding {α : Type} [TuxIOType α] [WritableObjectType α] [ReadableObjectType α]
    [Codec α] (h : Strict α) (hsize : ∀ a : α, 0 < size a) : OneEncoding α where
  decodes_iff _ _ _ := h.decodes_iff hsize
  prefix_free _ _ _ _ ha hb := eq_of_wire_prefix ha hb

/-- Every value type has one encoding for each of its values. -/
theorem values_have_one_encoding :
    OneEncoding ValueType ∧ OneEncoding String ∧ OneEncoding (List UInt8) ∧ OneEncoding Bool ∧
      (OneEncoding UInt8 ∧ OneEncoding UInt16 ∧ OneEncoding UInt32 ∧ OneEncoding UInt64 ∧
        OneEncoding Int8 ∧ OneEncoding Int16 ∧ OneEncoding Int32 ∧ OneEncoding Int64 ∧
        OneEncoding F32 ∧ OneEncoding F64) ∧
      OneEncoding RawDate ∧ OneEncoding RawTime ∧ OneEncoding RawTimeZone ∧
      OneEncoding RawDateTime ∧ OneEncoding Uuid := by
  refine ⟨ValueType.strict.oneEncoding ValueType.size_pos, ?_, ?_, ?_, ?_, ?_, ?_, ?_, ?_, ?_⟩
  · exact strict_string.oneEncoding fun _ => Nat.succ_pos _
  · exact (strict_vec strict_number).oneEncoding fun _ => Nat.succ_pos _
  · exact strict_bool.oneEncoding fun _ => Nat.one_pos
  · have hnumber : ∀ (α : Type) [Number α] [ExactNumber α], 0 < Number.width α →
        OneEncoding α := fun α _ _ hwidth => strict_number.oneEncoding fun _ => hwidth
    exact ⟨hnumber _ (by decide), hnumber _ (by decide), hnumber _ (by decide),
      hnumber _ (by decide), hnumber _ (by decide), hnumber _ (by decide), hnumber _ (by decide),
      hnumber _ (by decide), hnumber _ (by decide), hnumber _ (by decide)⟩
  · exact strict_rawDate.oneEncoding fun _ => Nat.succ_pos _
  · exact strict_rawTime.oneEncoding fun _ => Nat.succ_pos _
  · exact strict_rawTimeZone.oneEncoding fun _ => Nat.succ_pos _
  · exact strict_rawDateTime.oneEncoding fun _ => Nat.succ_pos _
  · exact strict_uuid.oneEncoding fun _ => Nat.succ_pos _

/-! ## The entries that a map has kept -/

/-- A sublist of the same total weight is the whole list, when every item has a weight. -/
lemma eq_of_sublist_of_sum_eq {α : Type} {f : α → ℕ} {as bs : List α} (h : as.Sublist bs)
    (hpos : ∀ b ∈ bs, 0 < f b) (hsum : (as.map f).sum = (bs.map f).sum) : as = bs := by
  induction h with
  | slnil => rfl
  | @cons as bs b hsub _ =>
      -- what was left out has a weight of its own
      have hle := (hsub.map f).sum_le_sum fun _ _ => Nat.zero_le _
      have hb := hpos b List.mem_cons_self
      rw [List.map_cons, List.sum_cons] at hsum
      omega
  | @cons_cons as bs b _ ih =>
      rw [List.map_cons, List.map_cons, List.sum_cons, List.sum_cons] at hsum
      rw [ih (fun c hc => hpos c (List.mem_cons_of_mem b hc)) (Nat.add_left_cancel hsum)]

namespace Tags

variable {Key : Type} [DecidableEq Key] [HashOrder Key] [TuxIOType Key] [WritableObjectType Key]
  [ReadableObjectType Key] [Codec Key]

lemma iter_nodup (t : Tags Key) : t.iter.Nodup := List.Nodup.of_map _ t.nodup_iter

lemma insertAll_concat (t : Tags Key) (entries : List (Key × ValueType)) (entry : Key × ValueType) :
    t.insertAll (entries ++ [entry]) = (t.insertAll entries).insert entry.1 entry.2 := by
  simp only [insertAll, List.foldl_append, List.foldl_cons, List.foldl_nil]

/-- A map that was filled entry by entry holds some of the entries, one for each key. -/
lemma exists_kept (entries : List (Key × ValueType)) : ∃ kept, kept.Sublist entries ∧
    (kept.map Prod.fst).Nodup ∧ (new.insertAll entries).iter.Perm kept := by
  induction entries using List.reverseRecOn with
  | nil =>
      have hempty : (new.insertAll []).iter = ([] : List (Key × ValueType)) :=
        List.length_eq_zero_iff.mp (length_iter _)
      exact ⟨[], List.Sublist.refl _, List.nodup_nil, by rw [hempty]⟩
  | append_singleton entries entry ih =>
      obtain ⟨kept, hsub, hkeys, hperm⟩ := ih
      rw [insertAll_concat]
      -- the new entry takes the place of the one with its key
      have hothers : ((kept.filter fun e => e.1 ≠ entry.1).map Prod.fst).Nodup :=
        hkeys.sublist (List.filter_sublist.map _)
      have hlast : ∀ e ∈ kept.filter fun e => e.1 ≠ entry.1, e.1 ≠ entry.1 := fun e he => by
        simpa using (List.mem_filter.mp he).2
      have hnodup : (((kept.filter fun e => e.1 ≠ entry.1) ++ [entry]).map Prod.fst).Nodup := by
        rw [List.map_append, List.nodup_append]
        refine ⟨hothers, List.nodup_singleton _, ?_⟩
        intro _ hkey _ hentry heq
        obtain ⟨e, he, rfl⟩ := List.mem_map.mp hkey
        exact hlast e he (heq.trans (List.mem_singleton.mp hentry))
      refine ⟨(kept.filter fun e => e.1 ≠ entry.1) ++ [entry],
        List.filter_sublist.trans hsub |>.append (List.Sublist.refl _), hnodup, ?_⟩
      refine (List.perm_ext_iff_of_nodup (iter_nodup _) (List.Nodup.of_map _ hnodup)).mpr ?_
      rintro ⟨key, value⟩
      rw [mem_iter, List.mem_append, List.mem_filter, ← hperm.mem_iff, mem_iter,
        List.mem_singleton]
      by_cases hkey : key = entry.1
      · subst hkey
        rw [get_insert_self, Option.some.injEq]
        constructor
        · rintro rfl
          exact .inr rfl
        · rintro (⟨_, hne⟩ | heq)
          · simp at hne
          · exact (congrArg Prod.snd heq).symm
      · rw [get_insert_of_ne _ _ hkey]
        constructor
        · intro hget
          exact .inl ⟨hget, by simpa using hkey⟩
        · rintro (⟨hget, _⟩ | heq)
          · exact hget
          · exact absurd (congrArg Prod.fst heq) hkey

/-! ## Blocks -/

/-- How many bytes an entry is encoded to. -/
def entrySize (entry : Key × ValueType) : ℕ := size entry.1 + size entry.2

/-- The entries of a map that was filled entry by entry are no longer than all of them. -/
lemma size_insertAll_le (entries : List (Key × ValueType)) :
    size (new.insertAll entries) ≤ (entries.map entrySize).sum + 2 := by
  obtain ⟨kept, hsub, _, hperm⟩ := exists_kept entries
  have hsum : ((new.insertAll entries).iter.map entrySize).sum = (kept.map entrySize).sum :=
    (hperm.map entrySize).sum_eq
  have hle := (hsub.map entrySize).sum_le_sum fun _ _ => Nat.zero_le _
  show ((new.insertAll entries).iter.map entrySize).sum + 2 ≤ _
  omega

/-- They are as long exactly when no key occurs twice. -/
lemma size_insertAll_eq_iff (entries : List (Key × ValueType)) :
    size (new.insertAll entries) = (entries.map entrySize).sum + 2 ↔
      (entries.map Prod.fst).Nodup := by
  obtain ⟨kept, hsub, hkeys, hperm⟩ := exists_kept entries
  have hsize : size (new.insertAll entries) = (kept.map entrySize).sum + 2 := by
    show ((new.insertAll entries).iter.map entrySize).sum + 2 = _
    rw [(hperm.map entrySize).sum_eq]
  have hpos : ∀ entry ∈ entries, 0 < entrySize entry := fun entry _ =>
    Nat.add_pos_right _ entry.2.size_pos
  constructor
  · intro heq
    rw [hsize] at heq
    rwa [← eq_of_sublist_of_sum_eq hsub hpos (Nat.add_right_cancel heq)]
  · intro hnodup
    have hcount := (numberOfTags_insertAll_iff entries).mpr hnodup
    rw [← length_iter, hperm.length_eq] at hcount
    rw [hsize, hsub.eq_of_length hcount]

/-- Every entry of the map is one of those it was filled with. -/
lemma mem_of_insertAll_get {entries : List (Key × ValueType)} {key : Key} {value : ValueType}
    (h : (new.insertAll entries).get key = some value) : (key, value) ∈ entries := by
  obtain ⟨kept, hsub, _, hperm⟩ := exists_kept entries
  exact hsub.subset (hperm.mem_iff.mp (mem_iter.mpr h))

/-- What a block that decodes owes those who write it again: the map is within the limits, its
encoding reads back as an equal map and takes no more room than the block, and as much exactly when
the number in front of the block is the number of the entries of the map. -/
structure Rewritable (t : Tags Key) (c c' : Cursor) : Prop where
  encodes : ∃ bs, writeToBytes t = .ok bs ∧ bs.length = size t ∧ ∃ t' : Tags Key, t'.Equal t ∧
    ∀ pre suf, readFromReader ⟨pre ++ bs ++ suf, pre.length⟩ =
      .ok (t', ⟨pre ++ bs ++ suf, pre.length + bs.length⟩)
  within : c.pos + size t ≤ c'.pos ∧ c'.pos ≤ c.bytes.length ∧ c'.bytes = c.bytes
  exact_iff : c.pos + size t = c'.pos ↔ ∃ c₁, readTagCount c = .ok (t.numberOfTags, c₁)

/-- The decoder of the keys accepts what is as long as the encoding of the key. -/
def KeepsLength (Key : Type) [TuxIOType Key] [WritableObjectType Key] [ReadableObjectType Key]
    [Codec Key] : Prop :=
  Accepts (readFromReader : Decoder Key) fun key bs => Codec.Fits key ∧ bs.length = size key

lemma accepts_readEntry (hkey : KeepsLength Key) :
    Accepts (readEntry : Decoder (Key × ValueType)) fun entry bs =>
      (Codec.Fits entry.1 ∧ Codec.Fits entry.2) ∧ bs.length = entrySize entry := by
  refine Accepts.bind hkey ?_
  rintro key keyBytes ⟨hfit, hlength⟩
  refine ValueType.strict.bind_nil ?_
  rintro value _ ⟨hvalue, rfl⟩
  refine Accepts.pure ⟨rfl, ⟨hfit, hvalue⟩, ?_⟩
  rw [List.length_append, hlength, Codec.length_wire hvalue]
  rfl

lemma accepts_entries (hkey : KeepsLength Key) (n : ℕ) :
    Accepts (readTimes (readEntry : Decoder (Key × ValueType)) n) fun entries bs =>
      entries.length = n ∧ (∀ entry ∈ entries, Codec.Fits entry.1 ∧ Codec.Fits entry.2) ∧
        bs.length = (entries.map entrySize).sum := by
  refine ((accepts_readEntry hkey).readTimes n).mono ?_
  rintro entries _ ⟨hlength, chunks, hchunks, rfl⟩
  refine ⟨hlength, ?_⟩
  clear hlength
  induction hchunks with
  | nil => exact ⟨nofun, rfl⟩
  | cons hentry _ ih =>
      refine ⟨List.forall_mem_cons.mpr ⟨hentry.1, ih.1⟩, ?_⟩
      rw [List.flatten_cons, List.length_append, List.map_cons, List.sum_cons, hentry.2, ih.2]

lemma writeToBytes_of_fits {t : Tags Key} (h : t.Fits) : writeToBytes t = .ok t.wire := by
  unfold writeToBytes
  rw [write_of_fits h]
  rfl

lemma fits_of_writeToBytes {t : Tags Key} {bs : List UInt8} (h : writeToBytes t = .ok bs) :
    t.Fits := by
  by_contra hfits
  obtain ⟨e, he⟩ := write_of_not_fits (W := Buffer) hfits ⟨[]⟩
  unfold writeToBytes at h
  rw [he] at h
  cases h

lemma readsAs_encoding {t : Tags Key} {bs : List UInt8} (h : writeToBytes t = .ok bs) :
    ReadsAs readFromReader bs t.decoded := by
  have hfits := fits_of_writeToBytes h
  obtain rfl := Except.ok.inj ((writeToBytes_of_fits hfits).symm.trans h)
  exact readsAs_wire hfits

lemma rewritable_of_read (hkey : KeepsLength Key) {c c' : Cursor} {t : Tags Key}
    (h : readFromReader c = .ok (t, c')) : t.Rewritable c c' := by
  obtain ⟨count, c₁, hcount, h⟩ := bind_eq_ok h
  rw [readEntries_eq, map_eq_pure_bind] at h
  obtain ⟨entries, c₂, hentries, h⟩ := bind_eq_ok h
  cases h
  obtain ⟨prefixBytes, hprefix, rfl, hmax, rfl⟩ := accepts_readLength _ _ _ hcount
  obtain ⟨bs, hbs, rfl, hlength, hfit, hsum⟩ := accepts_entries hkey count _ _ _ hentries
  have hle := size_insertAll_le entries
  have hnumber : (new.insertAll entries).numberOfTags ≤ entries.length := by
    obtain ⟨kept, hsub, _, hperm⟩ := exists_kept entries
    rw [← length_iter, hperm.length_eq]
    exact hsub.length_le
  have hfits : (new.insertAll entries).Fits :=
    fits_iff.mpr ⟨by omega, fun _ _ hget => hfit _ (mem_of_insertAll_get hget)⟩
  have hend : c.pos + (2 + bs.length) ≤ c.bytes.length := by
    have hbs' : bs <+: (c.bytes.drop c.pos).drop (leBytes 2 count).length := by
      rw [List.drop_drop]
      exact hbs
    have hwhole := (isPrefix_append_drop hprefix hbs').length_le
    rw [List.length_append, length_leBytes, List.length_drop] at hwhole
    omega
  refine ⟨⟨_, writeToBytes_of_fits hfits, length_wire hfits, _, decoded_equal _,
    readsAs_wire hfits⟩, ⟨?_, ?_, rfl⟩, ?_⟩
  · show c.pos + size (new.insertAll entries) ≤ c.pos + 2 + bs.length
    omega
  · show c.pos + 2 + bs.length ≤ c.bytes.length
    omega
  · have hexact : c.pos + size (new.insertAll entries) = c.pos + 2 + bs.length ↔
        (new.insertAll entries).numberOfTags = entries.length := by
      rw [numberOfTags_insertAll_iff, ← size_insertAll_eq_iff]
      omega
    rw [length_leBytes, hexact, readTagCount, hcount, hlength]
    constructor
    · intro heq
      exact ⟨_, by rw [heq]⟩
    · rintro ⟨c₁, heq⟩
      cases heq
      rfl

end Tags

lemma keepsLength_string : Tags.KeepsLength String := by
  refine Accepts.mono strict_string ?_
  rintro s _ ⟨hfit, rfl⟩
  exact ⟨hfit, Codec.length_wire hfit⟩

lemma keepsLength_metaKey [Http] (hlength : ∀ bs name, Http.fromBytes bs = some name →
    (Http.asStr name).length = bs.length) : Tags.KeepsLength MetaKey := by
  refine (strict_vec (strict_number (α := UInt8))).bind_nil ?_
  rintro content _ ⟨hfit, rfl⟩
  cases hname : Http.fromBytes content with
  | none => exact Accepts.throw
  | some name =>
      have hcontent := hlength content name hname
      refine Accepts.pure ⟨rfl, ?_, ?_⟩
      · show (Http.asStr name).length ≤ maxPrefixedLength
        rw [hcontent]
        exact (fits_bytes content).mp hfit
      · show (Codec.wire content).length = (Http.asStr name).length + 2
        rw [hcontent, wire_bytes, List.length_append, length_leBytes, Nat.add_comm]

/-- Whatever block a decoder accepts, wherever it stands and whatever follows it, the map it gives
can be written again and is never longer than the block; for metadata this rests on header names
being as long as the bytes they were made from. -/
theorem accepted_blocks_rewrite [Http] [HashOrder String] [HashOrder MetaKey]
    (hlength : ∀ bs name, Http.fromBytes bs = some name →
      (Http.asStr name).length = bs.length) :
    (∀ (c c' : Cursor) (tags : Tags String), readFromReader c = .ok (tags, c') →
      tags.Rewritable c c') ∧
    (∀ (c c' : Cursor) (metadata : MetadataMap), readFromReader c = .ok (metadata, c') →
      metadata.Rewritable c c') :=
  ⟨fun _ _ _ => Tags.rewritable_of_read keepsLength_string,
    fun _ _ _ => Tags.rewritable_of_read (keepsLength_metaKey hlength)⟩

attribute [local instance] fullPlatform

lemma length_tokenHttp (bs : List UInt8) (name : Token)
    (h : tokenHttp.fromBytes bs = some name) : (tokenHttp.asStr name).length = bs.length := by
  unfold tokenHttp at h
  dsimp only at h
  split_ifs at h
  cases h
  exact List.length_map _

/-- A block that holds one key twice is read to its end, and the map it gives is five bytes
shorter. -/
theorem accepted_blocks_rewrite_repeated_key : ∃ (tags : Tags String) (c' : Cursor),
    readFromReader (⟨[2, 0, 1, 0, 97, 10, 1, 1, 0, 97, 10, 0], 0⟩ : Cursor) = .ok (tags, c') ∧
      c'.pos = 12 ∧ size tags = 7 ∧
      tags.Rewritable ⟨[2, 0, 1, 0, 97, 10, 1, 1, 0, 97, 10, 0], 0⟩ c' := by
  have hsizes : ((readFromReader : Decoder (Tags String))
      ⟨[2, 0, 1, 0, 97, 10, 1, 1, 0, 97, 10, 0], 0⟩).toOption.map
        (fun p => (p.2.pos, size p.1)) = some (12, 7) := by decide +kernel
  cases hread : (readFromReader : Decoder (Tags String))
      ⟨[2, 0, 1, 0, 97, 10, 1, 1, 0, 97, 10, 0], 0⟩ with
  | error e =>
      rw [hread] at hsizes
      cases hsizes
  | ok p =>
      rw [hread] at hsizes
      obtain ⟨hpos, hsize⟩ := Prod.mk.inj (Option.some.inj hsizes)
      exact ⟨p.1, p.2, rfl, hpos, hsize, (accepted_blocks_rewrite length_tokenHttp).1 _ _ _ hread⟩

end TuxEncoding
