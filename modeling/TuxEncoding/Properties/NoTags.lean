import TuxEncoding.Fs.Interchange

/-!
# A header without tags

The header table of the README gives the start of the tags as 0 in a file without tags. The readers
have no case for it: they take the tag section to be `tags_start..content_start`, which then begins
with the header itself.

* `readPrefix_begins`: a file that opens begins with the magic value.
* `ShowsNoTags`, `HonoursNoTags`: the three readers of either layer find no tags and read nothing.
* `OpenOn.tagCount_magic`: with content behind the header, `tag_count` returns the two bytes `TU`.
* `no_tags_iff`: the start 0 is honoured exactly when `content_start` is 0 too.
-/

namespace TuxEncoding

open Interaction Program

set_option linter.unusedSectionVars false

section

variable [Platform] [Codecs]

/-! ## The first bytes of a file -/

/-- Only bytes that begin with the magic value are read as a header. -/
lemma ObjectHeader.begins_of_read {content : List UInt8} {header : ObjectHeader}
    (h : readFromBytes content = .ok header) :
    32 ≤ content.length ∧ content.take 3 = magicValue := by
  unfold readFromBytes at h
  split_ifs at h with hlength
  · cases h
  · refine ⟨Nat.not_lt.mp hlength, ?_⟩
    by_contra hmagic
    have hslice : slice (slice content 0 4) 0 3 ≠ magicValue := by
      simpa [slice, List.take_take] using hmagic
    rw [headerEntry, if_pos hslice] at h
    cases h

/-- A file that opens is at least a header long, and begins with the magic value. -/
lemma readPrefix_begins {data : List UInt8} {header : ObjectHeader} {metadata : MetadataMap}
    (h : readPrefix data = .ok (header, metadata)) :
    headerSize ≤ data.length ∧ data.take 3 = magicValue := by
  unfold readPrefix at h
  by_cases hlength : headerSize ≤ data.length
  · rw [readSlice_of_le (by omega), ok_bind, List.drop_zero] at h
    cases hheader : ObjectHeader.readFromBytes (data.take headerSize) with
    | error e =>
        rw [hheader] at h
        cases h
    | ok header' =>
        have hmagic := (ObjectHeader.begins_of_read hheader).2
        rw [List.take_take] at hmagic
        exact ⟨hlength, hmagic⟩
  · have hshort : ((data.drop 0).take headerSize).length < headerSize := by
      rw [List.drop_zero, List.length_take]
      omega
    rw [readSlice, if_pos hshort] at h
    cases h

/-! ## Finding no tags -/

/-- The three readers find no tags, and leave everything as it is. -/
structure ShowsNoTags (readTags : Fs (Tags String)) (tagCount : Fs UInt16)
    (findTag : String → Fs (Option ValueType)) (w : World) : Prop where
  tags : Fallible.Delivers (FsStep NoFaults) readTags (fun tags w' => tags = Tags.new ∧ w' = w) w
  count : Fallible.Delivers (FsStep NoFaults) tagCount (fun n w' => n = 0 ∧ w' = w) w
  value : ∀ key, Fallible.Delivers (FsStep NoFaults) (findTag key)
    (fun value w' => value = none ∧ w' = w) w

/-- Whichever layer opens the path, the object shows no tags. -/
structure HonoursNoTags (path : Path) (writable : Bool) (w : World) : Prop where
  blocking : ∀ object w₁,
    Ends (FsStep NoFaults) (TuxObject.openAs path writable).run w (.ok object) w₁ →
    ShowsNoTags object.readTags object.tagCount object.findTag w₁
  tokio : ∀ object w₁,
    Ends (FsStep NoFaults) (AsyncTuxObject.openAs path writable).run w (.ok object) w₁ →
    ShowsNoTags object.readTags object.tagCount object.findTag w₁

variable {object : TuxObject} {w : World} {i : ℕ}

/-- Readers that return at once show no tags. -/
lemma ShowsNoTags.of_pure {readTags : Fs (Tags String)} {tagCount : Fs UInt16}
    {findTag : String → Fs (Option ValueType)} (htags : readTags = pure Tags.new)
    (hcount : tagCount = pure 0) (hvalue : ∀ key, findTag key = pure none) :
    ShowsNoTags readTags tagCount findTag w := by
  subst htags hcount
  constructor
  · exact Fallible.Safe.pure ⟨rfl, rfl⟩
  · exact Fallible.Safe.pure ⟨rfl, rfl⟩
  · intro key
    rw [hvalue key]
    exact Fallible.Safe.pure ⟨rfl, rfl⟩

/-- An object whose tag section has no room shows no tags, in either layer. -/
lemma TuxObject.showsNoTags (h : object.layout.checkedTagsSpace = .ok 0) :
    ShowsNoTags object.readTags object.tagCount object.findTag w ∧
      ShowsNoTags object.toAsync.readTags object.toAsync.tagCount object.toAsync.findTag w := by
  have h' : object.toAsync.layout.checkedTagsSpace = .ok 0 := h
  constructor
  · apply ShowsNoTags.of_pure
    · rw [TuxObject.readTags, h]
      rfl
    · rw [TuxObject.tagCount, h]
      rfl
    · intro key
      rw [TuxObject.findTag, h]
      rfl
  · apply ShowsNoTags.of_pure
    · rw [AsyncTuxObject.readTags, AsyncTuxObject.readTagSection_bind, h']
      rfl
    · rw [AsyncTuxObject.tagCount, h']
      rfl
    · intro key
      rw [AsyncTuxObject.findTag, AsyncTuxObject.readTagSection_bind, h']
      rfl

/-! ## Content behind the header -/

/-- With the tags at 0 and any room for them, `tag_count` takes the magic value for the number. -/
lemma OpenOn.tagCount_magic (h : OpenOn w object i)
    (hread : readPrefix (w.data i) = .ok (object.header, object.metadata))
    (htags : object.header.tagsStart = 0) (hcontent : object.header.contentStart ≠ 0) :
    Returns NoFaults object.tagCount (.ok 0x5554) w := by
  obtain ⟨hlength, hmagic⟩ := readPrefix_begins hread
  have hspace : object.layout.checkedTagsSpace = .ok object.header.contentStart.toNat := by
    unfold TuxObject.layout
    rw [htags, SectionLayout.checkedTagsSpace_of_le (Nat.zero_le _)]
    rfl
  have hpos : object.header.contentStart.toNat ≠ 0 := fun hzero =>
    hcontent (UInt32.toNat_inj.mp hzero)
  have htwo : readSlice (w.data i) 0 2 = .ok (magicValue.take 2) := by
    rw [readSlice_of_le (by unfold headerSize at hlength; omega), List.drop_zero, ← hmagic,
      List.take_take]
    rfl
  have hreturns : Returns NoFaults object.tagCount (object.storedTagCount (w.data i)) w :=
    h.tagCount_returns
  have hstored : object.storedTagCount (w.data i) = .ok 0x5554 := by
    unfold TuxObject.storedTagCount
    rw [hspace, ok_bind, if_neg hpos, htags]
    show readSlice (w.data i) 0 2 >>= _ = _
    rw [htwo]
    rfl
  rw [hstored] at hreturns
  exact hreturns

/-- Such an object does not show that it has no tags. -/
lemma OpenOn.not_showsNoTags (h : OpenOn w object i)
    (hread : readPrefix (w.data i) = .ok (object.header, object.metadata))
    (htags : object.header.tagsStart = 0) (hcontent : object.header.contentStart ≠ 0) :
    ¬ ShowsNoTags object.readTags object.tagCount object.findTag w := by
  intro hshows
  obtain ⟨n, w', hrun, rfl, _⟩ := hshows.count.exec (fsStep_perform NoFaults)
  have hmagic := ((h.tagCount_magic hread htags hcontent).ends hrun).1
  exact absurd (Except.ok.inj hmagic) (by decide)

/-- In a file that opens with the start of its tags at 0, both layers find no tags and read none
exactly when its content starts at 0 too. -/
theorem no_tags_iff {path : Path} {writable : Bool} {header : ObjectHeader}
    {metadata : MetadataMap} (hdir : w.dir path = some i)
    (hread : readPrefix (w.data i) = .ok (header, metadata)) (htags : header.tagsStart = 0) :
    HonoursNoTags path writable w ↔ header.contentStart = 0 := by
  have hopened := openAs_delivers writable hdir hread
  constructor
  · intro hhonours
    by_contra hcontent
    obtain ⟨object, w₁, hrun, rfl, rfl, hopen, hsame⟩ := hopened.exec (fsStep_perform NoFaults)
    rw [← hsame.data_eq i] at hread
    exact hopen.not_showsNoTags hread htags hcontent (hhonours.blocking _ _ hrun)
  · intro hcontent
    have hspace : ∀ object : TuxObject, object.header = header →
        object.layout.checkedTagsSpace = .ok 0 := by
      rintro object rfl
      unfold SectionLayout.checkedTagsSpace TuxObject.layout
      rw [htags, hcontent]
      rfl
    constructor
    · intro object w₁ hrun
      exact (TuxObject.showsNoTags (hspace object (hopened.ends hrun).1)).1
    · intro object' w₁ hrun
      obtain ⟨r, hblocking, hsame⟩ := (openAs_alike faultless_noFaults path writable).ends_of hrun
      cases r with
      | error e => exact hsame.elim
      | ok object =>
          obtain rfl : object' = object.toAsync := hsame
          exact (TuxObject.showsNoTags (hspace object (hopened.ends hblocking).1)).2

end

attribute [local instance] fullPlatform pairCodecs

/-- A header with neither tags nor content, whose content starts where it says. -/
def noTags (contentStart : UInt32) : ObjectHeader := ⟨0, .none, 0, contentStart, 0, 0⟩

lemma readPrefix_noTags (contentStart : UInt32) :
    readPrefix ((World.single (noTags contentStart).wire).data 0) =
      .ok (noTags contentStart, Tags.new) :=
  (congrArg readPrefix (List.append_nil (noTags contentStart).wire).symm).trans
    (readPrefix_wire rfl (Nat.zero_le _) [])

/-- Where the content starts at 0 too, no tags are found. -/
theorem no_tags_contentStart_zero :
    HonoursNoTags World.somePath false (World.single (noTags 0).wire) :=
  (no_tags_iff rfl (readPrefix_noTags 0) rfl).mpr rfl

/-- In a file that is a header and nothing else, the header is read as a tag section. -/
theorem not_honoursNoTags_headerOnly :
    ¬ ∀ (path : Path) (writable : Bool) (w : World) (i : ℕ) (header : ObjectHeader)
      (metadata : MetadataMap), w.dir path = some i →
      readPrefix (w.data i) = .ok (header, metadata) → header.tagsStart = 0 →
      HonoursNoTags path writable w := by
  intro h
  have hread := readPrefix_noTags 32
  have hdir : (World.single (noTags 32).wire).dir World.somePath = some 0 := rfl
  obtain ⟨object, w', hrun, hheader, hmetadata, hopen, hsame⟩ :=
    (openAs_delivers false hdir hread).exec (fsStep_perform NoFaults)
  have hshows := (h _ false _ _ _ _ hdir hread rfl).blocking _ _ hrun
  rw [← hsame.data_eq 0, ← hheader, ← hmetadata] at hread
  exact hopen.not_showsNoTags hread (by rw [hheader]; rfl) (by rw [hheader]; decide) hshows

end TuxEncoding
