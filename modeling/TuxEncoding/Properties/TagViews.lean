import TuxEncoding.Codec.Measure
import TuxEncoding.Fs.Reading
import Mathlib.Data.List.Dedup

/-!
# Three views of a tag section

`read_tags` inserts the entries of a section into a map, `find_tag` stops at the first one with the
key, and `tag_count` returns the number that the section begins with.

* `Tags.insertAll_get` and `Tags.numberOfTags_insertAll_iff`: with distinct keys the map holds every
  entry, and only then it has as many.
* `views_of_storedTags`: what the three views return, in terms of the entries of the section.
* `tag_views_agree_iff`: they agree exactly when no key occurs twice.
-/

namespace TuxEncoding

open Bytes Interaction Program

set_option linter.unusedSectionVars false

/-! ## Entries and maps -/

namespace Tags

variable {Key : Type} [DecidableEq Key]

/-- Distinct keys: the map holds the first entry with the key, which is the only one. -/
lemma insertAll_get (t : Tags Key) {entries : List (Key × ValueType)}
    (hnodup : (entries.map Prod.fst).Nodup) (key : Key) :
    (t.insertAll entries).get key =
      ((entries.find? fun entry => entry.1 = key).map Prod.snd).or (t.get key) := by
  induction entries generalizing t with
  | nil => rfl
  | cons entry entries ih =>
      rw [List.map_cons, List.nodup_cons] at hnodup
      show ((t.insert entry.1 entry.2).insertAll entries).get key = _
      rw [ih (t.insert entry.1 entry.2) hnodup.2]
      by_cases hkey : entry.1 = key
      · have hrest : entries.find? (fun e => e.1 = key) = none := by
          apply List.find?_eq_none.mpr
          intro e he hfound
          have heq : e.1 = entry.1 := (of_decide_eq_true hfound).trans hkey.symm
          exact hnodup.1 (List.mem_map.mpr ⟨e, he, heq⟩)
        rw [hrest, List.find?_cons_of_pos (by simpa using hkey), ← hkey, get_insert_self]
        rfl
      · rw [List.find?_cons_of_neg (by simpa using hkey),
          get_insert_of_ne t entry.2 (Ne.symm hkey)]

lemma mem_insertAll (t : Tags Key) (entries : List (Key × ValueType)) (key : Key) :
    key ∈ (t.insertAll entries).map.keys ↔ key ∈ entries.map Prod.fst ∨ key ∈ t.map.keys := by
  induction entries generalizing t with
  | nil => simp [insertAll]
  | cons entry entries ih =>
      show key ∈ ((t.insert entry.1 entry.2).insertAll entries).map.keys ↔ _
      rw [ih (t.insert entry.1 entry.2), List.map_cons, List.mem_cons]
      have hinsert : key ∈ (t.insert entry.1 entry.2).map.keys ↔ key = entry.1 ∨ key ∈ t.map.keys :=
        AList.mem_insert t.map
      rw [hinsert]
      tauto

/-- The map has as many entries as it was built from exactly when no key occurs twice. -/
lemma numberOfTags_insertAll_iff (entries : List (Key × ValueType)) :
    (new.insertAll entries).numberOfTags = entries.length ↔ (entries.map Prod.fst).Nodup := by
  have hperm : (new.insertAll entries).map.keys.Perm (entries.map Prod.fst).dedup := by
    refine (List.perm_ext_iff_of_nodup (new.insertAll entries).map.keys_nodup
      (List.nodup_dedup _)).mpr fun key => ?_
    rw [mem_insertAll, List.mem_dedup]
    exact or_iff_left List.not_mem_nil
  have hcount : (new.insertAll entries).numberOfTags = (entries.map Prod.fst).dedup.length := by
    rw [← hperm.length_eq]
    exact (List.length_map _).symm
  rw [hcount]
  constructor
  · intro hlength
    have hdedup : (entries.map Prod.fst).dedup = entries.map Prod.fst :=
      (List.dedup_sublist _).eq_of_length (hlength.trans (List.length_map _).symm)
    exact List.dedup_eq_self.mp hdedup
  · intro hnodup
    rw [List.dedup_eq_self.mpr hnodup, List.length_map]

/-! ## Entries and decoders -/

variable [HashOrder Key] [TuxIOType Key] [ReadableObjectType Key]

/-- One key and its value. -/
def readEntry : Decoder (Key × ValueType) := do
  let key ← readFromReader
  let value ← readFromReader
  return (key, value)

/-- Reading the entries into a map is reading them and inserting them. -/
lemma readEntries_eq (n : ℕ) (t : Tags Key) :
    readEntries n t = t.insertAll <$> readTimes readEntry n := by
  induction n generalizing t with
  | zero => rfl
  | succ n ih =>
      simp only [readEntries, readTimes, readEntry, ih, bind_assoc, pure_bind, map_eq_pure_bind]
      rfl

/-- A search finds the first entry with the key. -/
lemma findEntry_of_readTimes (key : Key) {n : ℕ} {c c' : Cursor} {entries : List (Key × ValueType)}
    (h : readTimes readEntry n c = .ok (entries, c')) :
    ∃ c'', findEntry key n c =
      .ok ((entries.find? fun entry => entry.1 = key).map Prod.snd, c'') := by
  induction n generalizing c entries with
  | zero =>
      cases h
      exact ⟨_, rfl⟩
  | succ n ih =>
      obtain ⟨entry, c₁, hentry, h⟩ := bind_eq_ok h
      obtain ⟨rest, c₂, hrest, h⟩ := bind_eq_ok h
      cases h
      obtain ⟨entryKey, c₃, hkey, hentry⟩ := bind_eq_ok hentry
      obtain ⟨value, c₄, hvalue, hentry⟩ := bind_eq_ok hentry
      cases hentry
      unfold findEntry
      rw [bind_of_ok hkey]
      by_cases heq : entryKey = key
      · rw [if_pos heq, bind_of_ok hvalue, List.find?_cons_of_pos (by simpa using heq)]
        exact ⟨_, rfl⟩
      · rw [if_neg heq, List.find?_cons_of_neg (by simpa using heq)]
        have hskip : (ReadableObjectType.skip ValueType) c₃ = .ok ((), c₁) := by
          show (readFromReader >>= fun (_ : ValueType) => pure ()) c₃ = _
          rw [bind_of_ok hvalue]
          rfl
        rw [bind_of_ok hskip]
        exact ih hrest

lemma length_of_readTimes {α : Type} {read : Decoder α} {n : ℕ} {c c' : Cursor} {as : List α}
    (h : readTimes read n c = .ok (as, c')) : as.length = n := by
  induction n generalizing c as with
  | zero =>
      cases h
      rfl
  | succ n ih =>
      obtain ⟨a, c₁, _, h⟩ := bind_eq_ok h
      obtain ⟨rest, c₂, hrest, h⟩ := bind_eq_ok h
      cases h
      exact congrArg (· + 1) (ih hrest)

/-- The number in front of the entries is the first two bytes. -/
lemma readLength_eq_ok {bytes : List UInt8} {n : ℕ} {c : Cursor}
    (h : readLength ⟨bytes, 0⟩ = .ok (n, c)) :
    2 ≤ bytes.length ∧ n = (Number.fromLeBytes (bytes.take 2) : UInt16).toNat := by
  obtain ⟨number, c₁, hnumber, h⟩ := bind_eq_ok h
  cases h
  obtain ⟨buffer, c₂, hbuffer, hnumber⟩ := bind_eq_ok hnumber
  cases hnumber
  unfold readExact at hbuffer
  split_ifs at hbuffer with hlong
  cases hbuffer
  exact ⟨hlong, rfl⟩

/-- A block that decodes is a number of entries, and each view is about these. -/
lemma views_of_read {bytes : List UInt8} {t : Tags Key} {c' : Cursor}
    (h : readFromReader ⟨bytes, 0⟩ = .ok (t, c')) :
    ∃ entries, (∃ c, (readLength >>= readTimes readEntry) ⟨bytes, 0⟩ = .ok (entries, c)) ∧
      t = new.insertAll entries ∧ 2 ≤ bytes.length ∧
      (Number.fromLeBytes (bytes.take 2) : UInt16).toNat = entries.length ∧
      ∀ key, ∃ c, findFromReader key ⟨bytes, 0⟩ =
        .ok ((entries.find? fun entry => entry.1 = key).map Prod.snd, c) := by
  obtain ⟨n, c₁, hlength, h⟩ := bind_eq_ok h
  rw [readEntries_eq] at h
  rw [map_eq_pure_bind] at h
  obtain ⟨entries, c₂, hentries, h⟩ := bind_eq_ok h
  cases h
  refine ⟨entries, ⟨_, (bind_of_ok hlength).trans hentries⟩, rfl, ?_, ?_, fun key => ?_⟩
  · exact (readLength_eq_ok hlength).1
  · rw [← (readLength_eq_ok hlength).2, length_of_readTimes hentries]
  · obtain ⟨c, hfind⟩ := findEntry_of_readTimes key hentries
    exact ⟨c, (bind_of_ok hlength).trans hfind⟩

end Tags

/-! ## The tag section of a file -/

section

variable [Platform] [Codecs]

lemma readSlice_eq_ok {data bytes : List UInt8} {start n : ℕ}
    (h : readSlice data start n = .ok bytes) :
    bytes = (data.drop start).take n ∧ n ≤ bytes.length := by
  unfold readSlice at h
  split_ifs at h with hshort
  cases h
  exact ⟨rfl, Nat.not_lt.mp hshort⟩

lemma decodeSection_eq_ok {α : Type} {dec : Decoder α} {bytes : List UInt8} {a : α}
    (h : decodeSection dec bytes = .ok a) : ∃ c, dec ⟨bytes, 0⟩ = .ok (a, c) := by
  unfold decodeSection at h
  cases hdec : dec ⟨bytes, 0⟩ with
  | error e =>
      rw [hdec] at h
      cases h
  | ok p =>
      rw [hdec] at h
      cases h
      exact ⟨p.2, rfl⟩

/-- The entries of the tag section, in the order they are stored in. -/
def TuxObject.storedEntries (self : TuxObject) (data : List UInt8) : List (String × ValueType) :=
  if self.layout.tagsSpace = 0 then []
  else
    match (readLength >>= readTimes Tags.readEntry) ⟨(data.drop self.header.tagsStart.toNat).take
      self.layout.tagsSpace, 0⟩ with
    | .ok (entries, _) => entries
    | .error _ => []

variable {object : TuxObject} {data : List UInt8} {tags : Tags String}

/-- What the three views make of a tag section that `read_tags` decodes. -/
lemma views_of_storedTags
    (hle : object.header.tagsStart.toNat ≤ object.header.contentStart.toNat)
    (h : object.storedTags data = .ok tags) :
    tags = Tags.new.insertAll (object.storedEntries data) ∧
      (∃ n, object.storedTagCount data = .ok n ∧ n.toNat = (object.storedEntries data).length) ∧
      ∀ key, object.storedTag key data =
        .ok (((object.storedEntries data).find? fun entry => entry.1 = key).map Prod.snd) := by
  have hspace : object.layout.checkedTagsSpace = .ok object.layout.tagsSpace :=
    SectionLayout.checkedTagsSpace_of_le hle
  unfold TuxObject.storedTags at h
  unfold TuxObject.storedTagCount TuxObject.storedTag TuxObject.storedEntries
  simp only [hspace, ok_bind] at h ⊢
  by_cases hempty : object.layout.tagsSpace = 0
  · simp only [if_pos hempty] at h ⊢
    cases h
    exact ⟨rfl, ⟨0, rfl, rfl⟩, fun _ => rfl⟩
  · simp only [if_neg hempty] at h ⊢
    cases hslice : readSlice data object.header.tagsStart.toNat object.layout.tagsSpace with
    | error e =>
        rw [hslice] at h
        cases h
    | ok bytes =>
        obtain ⟨hbytes, _⟩ := readSlice_eq_ok hslice
        rw [hslice, ok_bind] at h
        obtain ⟨c, hdecode⟩ := decodeSection_eq_ok h
        obtain ⟨entries, ⟨c', hentries⟩, rfl, hlong, hcount, hfind⟩ := Tags.views_of_read hdecode
        rw [← hbytes, hentries]
        refine ⟨rfl, ⟨_, ?_, hcount⟩, fun key => ?_⟩
        · have htwo : readSlice data object.header.tagsStart.toNat 2 = .ok (bytes.take 2) := by
            rw [hbytes, List.length_take, List.length_drop] at hlong
            rw [readSlice_of_le (by omega), hbytes, List.take_take, Nat.min_eq_left (by omega)]
          rw [htwo]
          rfl
        · obtain ⟨c'', hkey⟩ := hfind key
          rw [ok_bind, decodeSection, hkey]

/-! ## Whether the views agree -/

/-- `tag_count` and `find_tag` return what the map that `read_tags` has returned says. -/
structure ViewsAgree (object : TuxObject) (tags : Tags String) (w : World) : Prop where
  tagCount : Fallible.Delivers (FsStep NoFaults) object.tagCount
    (fun n _ => n.toNat = tags.numberOfTags) w
  findTag : ∀ key, Fallible.Delivers (FsStep NoFaults) (object.findTag key)
    (fun value _ => value = tags.get key) w

/-- The views of an open object agree exactly when no key occurs twice. -/
lemma OpenOn.viewsAgree_iff {w : World} {i : ℕ} (h : OpenOn w object i)
    (hle : object.header.tagsStart.toNat ≤ object.header.contentStart.toNat)
    (hstored : object.storedTags (w.data i) = .ok tags) :
    ViewsAgree object tags w ↔ ((object.storedEntries (w.data i)).map Prod.fst).Nodup := by
  obtain ⟨rfl, ⟨n, hn, hlength⟩, hfind⟩ := views_of_storedTags hle hstored
  rw [← Tags.numberOfTags_insertAll_iff, ← hlength]
  constructor
  · intro hagree
    obtain ⟨n', w', hrun, hcount⟩ := hagree.tagCount.exec (fsStep_perform NoFaults)
    obtain ⟨hn', _⟩ := h.tagCount_returns.ends hrun
    rw [hn] at hn'
    cases hn'
    exact hcount.symm
  · intro hcount
    have hnodup := (Tags.numberOfTags_insertAll_iff _).mp (hcount.trans hlength)
    constructor
    · apply Fallible.Safe.mono (h.tagCount_returns.delivers hn) ?_ (fun _ _ => id)
      rintro _ w' ⟨rfl, _⟩
      exact hcount.symm
    · intro key
      apply Fallible.Safe.mono ((h.findTag_returns key).delivers (hfind key)) ?_ (fun _ _ => id)
      rintro _ w' ⟨rfl, _⟩
      rw [Tags.insertAll_get Tags.new hnodup key]
      exact Option.or_none.symm

/-- On every file that opens with its sections in order and whose tag section decodes, the views
agree exactly when no key occurs twice in the section. -/
theorem tag_views_agree_iff {path : Path} {writable : Bool} {w w₁ w₂ : World} {i : ℕ}
    (hdir : w.dir path = some i)
    (hopen : Ends (FsStep NoFaults) (TuxObject.openAs path writable).run w (.ok object) w₁)
    (htags : object.header.tagsStart.toNat ≤ object.header.contentStart.toNat)
    (hread : Ends (FsStep NoFaults) object.readTags.run w₁ (.ok tags) w₂) :
    ViewsAgree object tags w₂ ↔ ((object.storedEntries (w.data i)).map Prod.fst).Nodup := by
  rw [TuxObject.openAs_eq] at hopen
  obtain ⟨_, _, j, hj, hobject, _, hsame₁⟩ := Program.Safe.ends openAs_returns hopen
  obtain rfl := Option.some.inj (hdir.symm.trans hj)
  obtain ⟨hstored, hsame₂⟩ := hobject.readTags_returns.ends hread
  have hdata : w₂.data i = w.data i := (hsame₂.data_eq i).trans (hsame₁.data_eq i)
  rw [hsame₁.data_eq, ← hdata] at hstored
  rw [← hdata]
  exact (hobject.of_undisturbed hsame₂).viewsAgree_iff htags hstored.symm

end

attribute [local instance] fullPlatform pairCodecs

/-- A header with room for twelve bytes of tags and no content. -/
def twelveTagBytes : ObjectHeader := ⟨0, .none, 32, 44, 0, 0⟩

/-- The file whose tag section holds two flags, under the keys `a` and `b`. -/
def twoFlags (a b : UInt8) : List UInt8 :=
  twelveTagBytes.wire ++ [2, 0, 1, 0, a, 10, 1, 1, 0, b, 10, 0]

/-- A handle with this header. -/
def twelveTagBytesHandle : TuxObject :=
  openedObject 0 World.somePath false (twelveTagBytes, Tags.new)

/-- A file with two flags opens, and its tags are read. -/
lemma twoFlags_opens {a b : UInt8}
    (hok : (twelveTagBytesHandle.storedTags (twoFlags a b)).isOk = true) :
    ∃ object tags w₁ w₂, Ends (FsStep NoFaults) (TuxObject.openAs World.somePath false).run
      (World.single (twoFlags a b)) (.ok object) w₁ ∧ object.header = twelveTagBytes ∧
      OpenOn w₁ object 0 ∧ w₁.data 0 = twoFlags a b ∧
      object.storedTags (w₁.data 0) = .ok tags ∧
      Ends (FsStep NoFaults) object.readTags.run w₁ (.ok tags) w₂ := by
  have hdir : (World.single (twoFlags a b)).dir World.somePath = some 0 := rfl
  have hread : readPrefix ((World.single (twoFlags a b)).data 0) = .ok (twelveTagBytes, Tags.new) :=
    readPrefix_wire rfl (by decide) _
  obtain ⟨object, w₁, hopen, hheader, _, hobject, hsame⟩ :=
    (openAs_delivers false hdir hread).exec (fsStep_perform NoFaults)
  have hdata : w₁.data 0 = twoFlags a b := hsame.data_eq 0
  cases hstored : twelveTagBytesHandle.storedTags (twoFlags a b) with
  | error e =>
      rw [hstored] at hok
      cases hok
  | ok tags =>
      have htags : object.storedTags (w₁.data 0) = .ok tags := by
        rw [hdata, ← hstored]
        unfold TuxObject.storedTags TuxObject.layout
        rw [hheader]
        rfl
      obtain ⟨_, w₂, hrun, rfl, _⟩ :=
        (hobject.readTags_returns.delivers htags).exec (fsStep_perform NoFaults)
      exact ⟨object, _, w₁, w₂, hopen, hheader, hobject, hdata, htags, hrun⟩

lemma storedEntries_of_header {object : TuxObject} (h : object.header = twelveTagBytes)
    (data : List UInt8) : object.storedEntries data = twelveTagBytesHandle.storedEntries data := by
  unfold TuxObject.storedEntries TuxObject.layout
  rw [h]
  rfl

/-- With two keys the views agree. -/
theorem tag_views_agree_two_keys : ∃ object tags w₁ w₂,
    Ends (FsStep NoFaults) (TuxObject.openAs World.somePath false).run
      (World.single (twoFlags 97 98)) (.ok object) w₁ ∧
    Ends (FsStep NoFaults) object.readTags.run w₁ (.ok tags) w₂ ∧ ViewsAgree object tags w₂ := by
  obtain ⟨object, tags, w₁, w₂, hopen, hheader, _, _, _, hread⟩ :=
    twoFlags_opens (a := 97) (b := 98) (by decide +kernel)
  refine ⟨object, tags, w₁, w₂, hopen, hread, ?_⟩
  refine (tag_views_agree_iff rfl hopen (by rw [hheader]; decide) hread).mpr ?_
  rw [storedEntries_of_header hheader]
  decide +kernel

/-- With one key twice `tag_count` counts both flags, and `find_tag` returns the first one. -/
theorem tag_views_disagree :
    ¬ ∀ (path : Path) (writable : Bool) (w w₁ w₂ : World) (object : TuxObject) (tags : Tags String),
      Ends (FsStep NoFaults) (TuxObject.openAs path writable).run w (.ok object) w₁ →
      headerSize ≤ object.header.tagsStart.toNat →
      object.header.tagsStart.toNat ≤ object.header.contentStart.toNat →
      Ends (FsStep NoFaults) object.readTags.run w₁ (.ok tags) w₂ → ViewsAgree object tags w₂ := by
  intro h
  obtain ⟨object, tags, w₁, w₂, hopen, hheader, hobject, hdata, hstored, hread⟩ :=
    twoFlags_opens (a := 97) (b := 97) (by decide +kernel)
  have hle : object.header.tagsStart.toNat ≤ object.header.contentStart.toNat := by
    rw [hheader]
    decide
  have hagree := h _ _ _ _ _ _ _ hopen (by rw [hheader]; decide) hle hread
  have hsame := (hobject.readTags_returns.ends hread).2
  rw [← hsame.data_eq] at hstored hdata
  have hnodup := ((hobject.of_undisturbed hsame).viewsAgree_iff hle hstored).mp hagree
  rw [hdata, storedEntries_of_header hheader] at hnodup
  revert hnodup
  decide +kernel

end TuxEncoding
