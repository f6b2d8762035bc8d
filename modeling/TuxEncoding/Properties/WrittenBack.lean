import TuxEncoding.Properties.AcceptedInput
import TuxEncoding.Properties.InPlaceUpdate
import TuxEncoding.Properties.Layouts
import TuxEncoding.Properties.SectionSeeks

/-!
# What was read can be written back in place

The metadata and the tags that a handle has read of a file, whoever has written it, are put back
with `set_sections_in_place`.

* `storedMetadata_room` and `storedTags_room`: both maps fit where they were read.
* `setSectionsInPlace_result`: an update with maps that can be encoded fails for want of room, or
  because a call fails.
* `sections_written_back`: the update succeeds unless rounding takes the tags past `u16::MAX`, and
  the file shows then what it has shown before.
-/

namespace TuxEncoding

open Bytes Interaction Program

set_option linter.unusedSectionVars false

/-- A block that was read can be encoded. -/
lemma Tags.Rewritable.fits {Key : Type} [DecidableEq Key] [HashOrder Key] [TuxIOType Key]
    [WritableObjectType Key] [ReadableObjectType Key] [Codec Key] {t : Tags Key} {c c' : Cursor}
    (h : t.Rewritable c c') : t.Fits := by
  obtain ⟨bs, hwrite, _⟩ := h.encodes
  by_contra hfit
  obtain ⟨e, he⟩ := Tags.write_of_not_fits (W := Buffer) hfit ⟨[]⟩
  unfold writeToBytes at hwrite
  rw [he] at hwrite
  cases hwrite

section

variable [Platform] [Codecs] {mayFail : FsCall → Prop} {w w₁ w₂ w' : World}
  {object object' : TuxObject} {i : ℕ} {metadata : MetadataMap} {tags : Tags String}
  {header : ObjectHeader} {data : List UInt8}

/-! ## Room -/

/-- Header names are as long as the bytes they were made from. -/
def NamesKeepLength : Prop :=
  ∀ bs name, Http.fromBytes bs = some name → (Http.asStr name).length = bs.length

/-- The metadata of a file fit in front of its tags. -/
lemma storedMetadata_room (hnames : NamesKeepLength)
    (hspace : headerSize < header.tagsStart.toNat)
    (h : storedMetadata header data = .ok metadata) :
    metadata.Fits ∧ headerSize + size metadata ≤ header.tagsStart.toNat := by
  obtain ⟨hle, _⟩ | ⟨_, _, c, hread, hpos⟩ := storedMetadata_iff.mp h
  · exact absurd hspace (Nat.not_lt.mpr hle)
  · have hrewrite := Tags.rewritable_of_read (keepsLength_metaKey hnames) hread
    exact ⟨hrewrite.fits, Nat.le_trans hrewrite.within.1 hpos⟩

/-- The tags of a file fit between the metadata and the content, and the file reaches that far. -/
lemma storedTags_room (hspace : object.header.tagsStart.toNat < object.header.contentStart.toNat)
    (h : object.storedTags data = .ok tags) :
    tags.Fits ∧ object.header.tagsStart.toNat + size tags ≤ object.header.contentStart.toNat ∧
      object.header.contentStart.toNat ≤ data.length := by
  obtain ⟨hlong, c, hread, hpos⟩ := (storedTags_iff hspace).mp h
  have hrewrite := Tags.rewritable_of_read keepsLength_string hread
  exact ⟨hrewrite.fits, Nat.le_trans hrewrite.within.1 hpos, hlong⟩

/-! ## The errors of an update -/

/-- Whatever the calls answer, an update with maps that can be encoded fails because of a call, or
because `repartition` does not accept the sections. -/
lemma setSectionsInPlace_result (hwritable : object.writable = true) (hm : metadata.Fits)
    (ht : tags.Fits) (hsums : LayoutOptions.SumsInRange object.header.contentStart (size metadata)
      (size tags) defaultAlignment) :
    Method.Safe (FsStep mayFail) (fun _ _ => True) (TuxObject.setSectionsInPlace metadata tags)
      object
      (fun _ _ _ => ∃ layout, LayoutOptions.repartition object.header.contentStart (size metadata)
        (size tags) defaultAlignment = some layout)
      (fun e _ _ => (∃ error, e = .io error) ∨ LayoutOptions.repartition object.header.contentStart
        (size metadata) (size tags) defaultAlignment = none ∧
          e = .reservedSpaceExceeded (headerSize + size metadata + size tags)
            object.header.contentStart.toNat) w := by
  have hcall : ∀ (p : Program FsCall.Reply (Except IoError Unit)) (w : World),
      Fallible.Safe (FsStep mayFail) (fun _ _ => True) (attemptIo p) (fun _ _ => True)
        (fun e _ => ∃ error, e = .io error) w :=
    fun p w => (Fallible.Raises.attempt (fun error => ⟨error, rfl⟩) p).safe w
  refine setSectionsInPlace_rule (fun e hrefused => ?_) ?_
  · cases hrefused with
    | readOnly h => exact absurd hwritable h
    | overflow h =>
        rw [LayoutOptions.checkedRepartition_eq_ok_iff.mpr ⟨hsums, rfl⟩] at h
        cases h
    | noSpace h => exact .inr ⟨(LayoutOptions.checkedRepartition_eq_ok_iff.mp h).2, rfl⟩
    | limits hholds h =>
        rw [(encodePrefix_eq_ok_iff hholds.headerSize_le hholds.tagsStart_le _).mpr
          ⟨hm, ht, hholds, rfl⟩] at h
        cases h
  · intro layout _ _ _ hrep
    refine Fallible.Safe.mono (hcall _ _) (fun _ w₁ _ => ?_) fun _ _ he => .inl he
    refine Fallible.Safe.mono (hcall _ _) (fun _ w₂ _ => ?_) fun _ _ he => .inl he
    exact Fallible.Safe.mono (hcall _ _) (fun _ w₃ _ => ⟨layout, hrep⟩) fun _ _ he => .inl he

/-- Sections that fit in front of the content are accepted, unless rounding takes the tags past
`u16::MAX`. -/
lemma repartition_of_room {contentStart : UInt32} {m t alignment : ℕ}
    (hroom : headerSize + m + t ≤ contentStart.toNat) (hlimit : headerSize + m ≤ 65535)
    (hsmall : alignUp (headerSize + m) alignment + t < 2 ^ 64) :
    (∃ layout, LayoutOptions.repartition contentStart m t alignment = some layout) ↔
      ¬ LayoutOptions.RoundsPastLimit contentStart m t alignment := by
  rw [LayoutOptions.repartition_isSome_iff]
  unfold LayoutOptions.RoundsPastLimit
  omega

/-! ## Writing back -/

/-- The file shows what it has shown before: equal metadata and tags, and the same content. -/
structure ShowsAsBefore (w : World) (object : TuxObject) (tags : Tags String) (i : ℕ)
    (object' : TuxObject) (w' : World) : Prop where
  replaced : PrefixReplaced w object i object.metadata tags object' w'
  content : ∀ q : Query, ¬ q.OfPrefix → q.result (w'.data i) = q.result (w.data i)

/-- A prefix with what the handle has read is written over a file that opens. -/
lemma Overwritten.showsAsBefore {layout : SectionLayout}
    (h : Overwritten w object i object.metadata tags layout object' w')
    (hread : readPrefix (w.data i) = .ok (object.header, object.metadata))
    (hlength : object.header.contentStart.toNat ≤ (w.data i).length) :
    ShowsAsBefore w object tags i object' w' := by
  have hversion := version_of_readPrefix hread
  have hreplaced := h.prefixReplaced hversion hlength
  refine ⟨hreplaced, fun q hq => ?_⟩
  have hprefix : readPrefix (w'.data i) = .ok (object.relaid layout, object.metadata.decoded) := by
    have hcurrent : (object.relaid layout).version = currentVersion := hversion
    have hstart : (object.relaid layout).tagsStart = layout.tagsStart := rfl
    rw [h.data_eq, overwrite_zero_eq]
    exact readPrefix_prefixBytes hcurrent hstart h.metadata_fits h.tags_fits h.holds _
  rw [Query.result_of_read hread, Query.result_of_read hprefix]
  have hrelaid : object.relaid layout =
      { object.header with tagsStart := layout.tagsStart } := by
    rw [TuxObject.relaid, h.contentStart_eq]
  -- the content is asked of the fields that the update leaves
  have hanswer : ∀ data, q.answer (openedObject 0 World.somePath false
      (object.relaid layout, object.metadata.decoded)) data =
        q.answer (openedObject 0 World.somePath false (object.header, object.metadata)) data := by
    intro data
    rw [hrelaid]
    cases q with
    | sections | tags | tagCount | tag => exact absurd trivial hq
    | stored | content | range => rfl
  rw [hanswer]
  refine answer_congr _ ?_ hq
  exact congrArg (List.take object.header.contentLength.toNat) hreplaced.behind_eq

/-- A handle has read the metadata and the tags of a file that reserves space for both. Writing
them back in place succeeds unless rounding takes the tags past `u16::MAX`; the file shows then
what it has shown before, and otherwise nothing has changed. -/
theorem sections_written_back (hnames : NamesKeepLength) {path : Path}
    (hopen : Ends (FsStep NoFaults) (TuxObject.openWritable path).run w (.ok object) w₁)
    (htags : Ends (FsStep NoFaults) object.readTags.run w₁ (.ok tags) w₂)
    (hmetadata : headerSize < object.header.tagsStart.toNat)
    (hspace : object.header.tagsStart.toNat < object.header.contentStart.toNat)
    {r : Except ObjectFileError Unit}
    (hrun : Ends (FsStep NoFaults) ((TuxObject.setSectionsInPlace object.metadata tags).on object)
      w₂ (r, object') w') :
    (r = .ok () ↔ ¬ LayoutOptions.RoundsPastLimit object.header.contentStart (size object.metadata)
      (size tags) defaultAlignment) ∧
    (r = .ok () → ∃ i, w.dir path = some i ∧ ShowsAsBefore w₂ object tags i object' w') ∧
    (r ≠ .ok () → r = .error (.reservedSpaceExceeded
        (headerSize + size object.metadata + size tags) object.header.contentStart.toNat) ∧
      w' = w₂ ∧ object' = object) := by
  have hopen' : Ends (FsStep NoFaults) (attemptIo (sys (.openFile path true)) >>= fun fd =>
      TuxObject.fromFile fd path true).run w (.ok object) w₁ := hopen
  obtain ⟨_, hwritable, i, hdir, hobject, hread, hsame⟩ := Program.Safe.ends openAs_returns hopen'
  obtain ⟨hstored, hsame₂⟩ := Program.Safe.ends hobject.readTags_returns htags
  have hread₂ : readPrefix (w₂.data i) = .ok (object.header, object.metadata) := by
    rw [hsame₂.data_eq, hsame.data_eq, hread]
  obtain ⟨_, _, hsections⟩ := readPrefix_ok_iff.mp hread
  obtain ⟨hm, hmroom⟩ := storedMetadata_room hnames hmetadata hsections
  obtain ⟨ht, htroom, hlong⟩ := storedTags_room hspace hstored
  rw [← hsame₂.data_eq i] at hlong
  have hstart := object.header.tagsStart.toNat_lt
  have hcontent := object.header.contentStart.toNat_lt
  have hround : alignUp (headerSize + size object.metadata) defaultAlignment ≤
      alignUp 65535 defaultAlignment := alignUp_mono (by omega) _
  have hlast : alignUp 65535 defaultAlignment = 65536 := by decide
  have hroom : headerSize + size object.metadata + size tags ≤
      object.header.contentStart.toNat := by omega
  have hiff := repartition_of_room hroom (by omega) (by omega : alignUp
    (headerSize + size object.metadata) defaultAlignment + size tags < 2 ^ 64)
  have hsums : LayoutOptions.SumsInRange object.header.contentStart (size object.metadata)
      (size tags) defaultAlignment := ⟨by omega, fun _ => by omega⟩
  have hresult := (setSectionsInPlace_result hwritable hm ht hsums).ends hrun
  have hend := (setSectionsInPlace_overwrites (hobject.of_undisturbed hsame₂)).ends hrun
  cases r with
  | ok u =>
      obtain ⟨layout, hover⟩ := hend
      refine ⟨iff_of_true rfl (hiff.mp hresult), fun _ => ⟨i, hdir, ?_⟩, fun h => absurd rfl h⟩
      exact hover.showsAsBefore hread₂ hlong
  | error e =>
      obtain ⟨rfl, ⟨hown, rfl⟩ | ⟨_, hfail⟩⟩ := hend
      · obtain ⟨error, rfl⟩ | ⟨hnone, rfl⟩ := hresult
        · exact absurd rfl (hown error)
        · refine ⟨iff_of_false nofun fun hnot => ?_, nofun, fun _ => ⟨rfl, rfl, rfl⟩⟩
          obtain ⟨layout, hsome⟩ := hiff.mpr hnot
          rw [hnone] at hsome
          cases hsome
      · exact absurd hfail not_exists_noFaults

end

attribute [local instance] fullPlatform pairCodecs

/-- A header with room for eight bytes of metadata, twenty of tags and two of content. -/
def spacedHeader : ObjectHeader := ⟨0, .none, 40, 60, 2, 0⟩

/-- The file with that header whose tags repeat a key. -/
def spacedFile : List UInt8 :=
  spacedHeader.wire ++ [0, 0, 0, 0, 0, 0, 0, 0] ++
    [2, 0, 1, 0, 97, 10, 1, 1, 0, 97, 10, 0, 0, 0, 0, 0, 0, 0, 0, 0] ++ [7, 9]

/-- Open the file and read its tags. -/
def openAndRead : Fs (TuxObject × Tags String) := do
  let object ← TuxObject.openWritable World.somePath
  let tags ← object.readTags
  return (object, tags)

/-- Writing the tags back leaves out the repeated key, and nothing else of what the file shows. -/
theorem sections_written_back_repeated_key : ∃ object tags w₂ object' w',
    object.header = spacedHeader ∧ size tags = 7 ∧
    Ends (FsStep NoFaults) ((TuxObject.setSectionsInPlace object.metadata tags).on object) w₂
      (.ok (), object') w' ∧ ShowsAsBefore w₂ object tags 0 object' w' := by
  obtain ⟨⟨object, tags⟩, w₂, hread, hboth⟩ := exec_ends_map (fsStep_perform NoFaults)
    (p := openAndRead.run) (s := World.single spacedFile)
    (f := fun p => (p.1.header, size p.1.metadata, size p.2)) (b := (spacedHeader, 2, 7))
    (by decide +kernel)
  obtain ⟨hheader, hsizes⟩ := Prod.mk.inj hread
  obtain ⟨hmetadata, htags⟩ := Prod.mk.inj hsizes
  obtain ⟨_, w₁, hopen, hrest⟩ := Fallible.ends_of_bind hboth
  obtain ⟨_, _, hread, hpure⟩ := Fallible.ends_of_bind hrest
  cases hpure
  have hrun := exec_ends (fsStep_perform NoFaults)
    ((TuxObject.setSectionsInPlace object.metadata tags).on object) w₂
  obtain ⟨hiff, hshows, _⟩ := sections_written_back length_tokenHttp hopen hread
    (by rw [hheader]; decide) (by rw [hheader]; decide) hrun
  have hsmall : ¬ LayoutOptions.RoundsPastLimit object.header.contentStart (size object.metadata)
      (size tags) defaultAlignment := by
    rw [hmetadata]
    exact fun hpast => absurd hpast.2.2.1 (by decide)
  have hok := hiff.mpr hsmall
  obtain ⟨i, hdir, hbefore⟩ := hshows hok
  cases hdir
  rw [← hok]
  exact ⟨object, tags, w₂, _, _, hheader, htags, hrun, hbefore⟩

end TuxEncoding
