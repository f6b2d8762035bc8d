import TuxEncoding.Fs.Reading

/-!
# Sections do not leak into each other

Two files with the same header, and what their handles return.

* `Query` is what can be asked of the file behind a path, and `Query.result` what the answer is, as
  a function of the bytes of the file: `Query.ends_iff` says that there is no other.
* `readPrefix_congr`, `storedTags_congr`, `answer_congr`, …: what is asked of the prefix depends on
  the bytes in front of the content, and what is asked of the content on its bytes.
* `sections_isolated_iff`: the number of tags is the exception, where the tag section is one byte
  long: it reads two bytes, and the second one is content.
-/

namespace TuxEncoding

open Bytes Interaction Program

set_option linter.unusedSectionVars false

section

variable [Platform] [Codecs]

/-! ## Queries -/

/-- What can be asked of the file behind a path. -/
inductive Query
  | sections
  | tags
  | tagCount
  | tag (key : String)
  | stored
  | content
  | range (offset : UInt64) (length : Option UInt64)

/-- What a handle shows. -/
inductive Shown
  | sections (header : ObjectHeader) (metadata : MetadataMap)
  | tags (tags : Tags String)
  | count (n : UInt16)
  | value (value : Option ValueType)
  | bytes (bs : List UInt8)

namespace Query

/-- The query is about what stands in front of the content. -/
def OfPrefix : Query → Prop
  | sections | tags | tagCount | tag _ => True
  | stored | content | range _ _ => False

/-- Ask an opened object. -/
def ask (object : TuxObject) : Query → Fs Shown
  | sections => pure (.sections object.header object.metadata)
  | tags => Shown.tags <$> object.readTags
  | tagCount => Shown.count <$> object.tagCount
  | tag key => Shown.value <$> object.findTag key
  | stored => Shown.bytes <$> object.readStored
  | content => Shown.bytes <$> object.readContentToVec
  | range offset length => Shown.bytes <$> object.readRange offset length

/-- Open a path and ask the object. -/
def run (path : Path) (writable : Bool) (q : Query) : Fs Shown :=
  TuxObject.openAs path writable >>= fun object => q.ask object

/-- What an object shows that is open on `data`. -/
def answer (object : TuxObject) (data : List UInt8) : Query → Except ObjectFileError Shown
  | sections => .ok (.sections object.header object.metadata)
  | tags => Shown.tags <$> object.storedTags data
  | tagCount => Shown.count <$> object.storedTagCount data
  | tag key => Shown.value <$> object.storedTag key data
  | stored => .ok (.bytes (object.storedContent data))
  | content => Shown.bytes <$> object.storedVec data
  | range offset length => Shown.bytes <$> object.storedRange offset length data

/-- What a path shows that leads to `data`. -/
def result (data : List UInt8) (q : Query) : Except ObjectFileError Shown := do
  let sections ← readPrefix data
  q.answer (openedObject 0 World.somePath false sections) data

end Query

/-! ## The answer is a function of the file -/

variable {object : TuxObject} {w : World} {path : Path} {i : ℕ}

lemma OpenOn.ask_returns {mayFail : FsCall → Prop} (h : OpenOn w object i) (q : Query) :
    Returns mayFail (q.ask object) (q.answer object (w.data i)) w := by
  cases q with
  | sections => exact returns_orReturn (.ok (Shown.sections object.header object.metadata))
  | tags => exact h.readTags_returns.map Shown.tags
  | tagCount => exact h.tagCount_returns.map Shown.count
  | tag key => exact (h.findTag_returns key).map Shown.value
  | stored => exact h.readStored_returns.map Shown.bytes
  | content => exact h.readContentToVec_returns.map Shown.bytes
  | range offset length => exact (h.readRange_returns offset length).map Shown.bytes

/-- Where the handle stands and which path it was opened at does not matter. -/
lemma Query.result_eq {data : List UInt8}
    (h : readPrefix data = .ok (object.header, object.metadata)) (q : Query) :
    q.result data = q.answer object data := by
  unfold Query.result
  rw [h]
  cases q <;> rfl

lemma Query.result_of_read {header : ObjectHeader} {metadata : MetadataMap} {data : List UInt8}
    (h : readPrefix data = .ok (header, metadata)) (q : Query) :
    q.result data = q.answer (openedObject 0 World.somePath false (header, metadata)) data := by
  unfold Query.result
  rw [h]
  rfl

lemma Query.run_safe (hdir : w.dir path = some i) (writable : Bool) (q : Query) :
    Fallible.Safe (FsStep NoFaults) (fun _ _ => True) (q.run path writable)
      (fun shown _ => q.result (w.data i) = .ok shown)
      (fun e _ => q.result (w.data i) = .error e) w := by
  unfold Query.run
  rw [TuxObject.openAs_eq]
  refine Fallible.Safe.bind (Fallible.Safe.mono openAs_returns ?_ ?_)
  · rintro object w' ⟨_, _, j, hj, hopen, hread, hsame⟩
    obtain rfl := Option.some.inj (hdir.symm.trans hj)
    rw [Query.result_eq hread q, ← hsame.data_eq i]
    apply Fallible.Safe.mono (Fallible.Safe.allow (fun _ _ _ => trivial) (hopen.ask_returns q))
    · exact fun shown w₂ hshown => hshown.1
    · rintro e w₂ ⟨_, hfail | he⟩
      · exact absurd hfail not_isFault_noFaults
      · exact he
  · rintro e w' ⟨_, hfail | he⟩
    · exact absurd hfail not_isFault_noFaults
    · unfold Query.result
      rw [he i hdir]
      rfl

/-- Asking a path ends with what the file behind it makes of the query, and with nothing else. -/
theorem Query.ends_iff (hdir : w.dir path = some i) (writable : Bool) (q : Query)
    (r : Except ObjectFileError Shown) :
    (∃ w', Ends (FsStep NoFaults) (q.run path writable).run w r w') ↔ r = q.result (w.data i) := by
  have hends : ∀ {r w'}, Ends (FsStep NoFaults) (q.run path writable).run w r w' →
      r = q.result (w.data i) := by
    intro r w' hrun
    have hresult := Program.Safe.ends (Query.run_safe hdir writable q) hrun
    cases r with
    | ok shown => exact hresult.symm
    | error e => exact hresult.symm
  constructor
  · rintro ⟨w', hrun⟩
    exact hends hrun
  · rintro rfl
    have hrun := exec_ends (fsStep_perform NoFaults) (q.run path writable).run w
    rw [hends hrun] at hrun
    exact ⟨_, hrun⟩

/-! ## What a query depends on -/

variable {d₁ d₂ : List UInt8}

/-- Bytes in front of `n` are the same in files that agree there. -/
lemma readSlice_congr {n start k : ℕ} (h : d₁.take n = d₂.take n) (hle : start + k ≤ n) :
    readSlice d₁ start k = readSlice d₂ start k := by
  have hslice : ∀ d : List UInt8, (d.drop start).take k = ((d.take n).drop start).take k := by
    intro d
    rw [List.drop_take, List.take_take, Nat.min_eq_left (by omega)]
  unfold readSlice
  rw [hslice d₁, hslice d₂, h]

/-- Both files begin with this header, which has the sections in their order. -/
structure SameHeader (header : ObjectHeader) (d₁ d₂ : List UInt8) : Prop where
  length_eq : d₁.length = d₂.length
  left : ObjectHeader.readFromBytes (d₁.take headerSize) = .ok header
  right : ObjectHeader.readFromBytes (d₂.take headerSize) = .ok header
  headerSize_le : headerSize ≤ header.tagsStart.toNat
  tagsStart_le : header.tagsStart.toNat ≤ header.contentStart.toNat

/-- The metadata section that `header` describes. -/
def storedMetadata (header : ObjectHeader) (data : List UInt8) :
    Except ObjectFileError MetadataMap :=
  if header.tagsStart.toNat - headerSize = 0 then .ok Tags.new
  else readSlice data headerSize (header.tagsStart.toNat - headerSize) >>=
    decodeSection (readFromReader : Decoder MetadataMap)

/-- What opening a file reads once its header is known. -/
lemma readPrefix_of_header {header : ObjectHeader} {data : List UInt8}
    (h : ObjectHeader.readFromBytes (data.take headerSize) = .ok header) :
    readPrefix data = (readSlice data 0 headerSize >>= fun _ =>
      storedMetadata header data >>= fun metadata => .ok (header, metadata)) := by
  unfold readPrefix
  cases hslice : readSlice data 0 headerSize with
  | error e => rfl
  | ok bytes =>
      obtain rfl : bytes = data.take headerSize := by
        unfold readSlice at hslice
        rw [List.drop_zero] at hslice
        split_ifs at hslice
        exact (Except.ok.inj hslice).symm
      rw [ok_bind, ok_bind, h]
      unfold storedMetadata
      by_cases hspace : header.tagsStart.toNat - headerSize = 0
      · simp only [Except.mapError, ok_bind, if_pos hspace]
        rfl
      · simp only [Except.mapError, ok_bind, if_neg hspace, bind_assoc]
        rfl

lemma readPrefix_congr {header : ObjectHeader} (h : SameHeader header d₁ d₂)
    (hagree : d₁.take header.contentStart.toNat = d₂.take header.contentStart.toNat) :
    readPrefix d₁ = readPrefix d₂ := by
  have hheader := h.headerSize_le
  have htags := h.tagsStart_le
  rw [readPrefix_of_header h.left, readPrefix_of_header h.right, storedMetadata, storedMetadata,
    readSlice_congr hagree (by omega), readSlice_congr hagree (by omega)]

/-- Opening a file shows its header. -/
lemma header_of_readPrefix {header header' : ObjectHeader} {metadata : MetadataMap}
    {data : List UInt8} (h : ObjectHeader.readFromBytes (data.take headerSize) = .ok header)
    (hread : readPrefix data = .ok (header', metadata)) : header' = header := by
  rw [readPrefix_of_header h] at hread
  cases hslice : readSlice data 0 headerSize with
  | error e =>
      rw [hslice] at hread
      cases hread
  | ok bytes =>
      cases hmetadata : storedMetadata header data with
      | error e =>
          rw [hslice, hmetadata] at hread
          cases hread
      | ok m =>
          rw [hslice, hmetadata] at hread
          exact (congrArg Prod.fst (Except.ok.inj hread)).symm

/-- The tags depend on what stands in front of the content. -/
lemma storedTags_congr (object : TuxObject)
    (hle : object.header.tagsStart.toNat ≤ object.header.contentStart.toNat)
    (hagree : d₁.take object.header.contentStart.toNat =
      d₂.take object.header.contentStart.toNat) :
    object.storedTags d₁ = object.storedTags d₂ ∧
      ∀ key, object.storedTag key d₁ = object.storedTag key d₂ := by
  have hspace : object.layout.checkedTagsSpace = .ok object.layout.tagsSpace :=
    SectionLayout.checkedTagsSpace_of_le hle
  have hslice : readSlice d₁ object.header.tagsStart.toNat object.layout.tagsSpace =
      readSlice d₂ object.header.tagsStart.toNat object.layout.tagsSpace := by
    apply readSlice_congr hagree
    show _ + (object.header.contentStart.toNat - object.header.tagsStart.toNat) ≤ _
    omega
  constructor
  · unfold TuxObject.storedTags
    rw [hspace, ok_bind, ok_bind, hslice]
  · intro key
    unfold TuxObject.storedTag
    rw [hspace, ok_bind, ok_bind, hslice]

/-- Two bytes are told apart by the number they encode. -/
lemma fromLeBytes_inj {bs₁ bs₂ : List UInt8} (h₁ : bs₁.length = 2) (h₂ : bs₂.length = 2)
    (h : (Number.fromLeBytes bs₁ : UInt16) = Number.fromLeBytes bs₂) : bs₁ = bs₂ := by
  have hnat : ∀ bs : List UInt8, bs.length = 2 →
      (Number.fromLeBytes bs : UInt16).toNat = ofLeBytes bs := by
    intro bs hbs
    have hlt := ofLeBytes_lt bs
    rw [hbs] at hlt
    show (UInt16.ofNat (ofLeBytes bs)).toNat = _
    exact (UInt16.toNat_ofNat' ..).trans (Nat.mod_eq_of_lt hlt)
  have heq : ofLeBytes bs₁ = ofLeBytes bs₂ := by
    rw [← hnat bs₁ h₁, ← hnat bs₂ h₂, h]
  rw [← leBytes_ofLeBytes bs₁, ← leBytes_ofLeBytes bs₂, heq, h₁, h₂]

/-- The number of tags depends on the first byte of the content where the tag section is one byte
long, and only there. -/
lemma storedTagCount_eq_iff (object : TuxObject)
    (hle : object.header.tagsStart.toNat ≤ object.header.contentStart.toNat)
    (hlen : d₁.length = d₂.length)
    (hagree : d₁.take object.header.contentStart.toNat =
      d₂.take object.header.contentStart.toNat) :
    object.storedTagCount d₁ = object.storedTagCount d₂ ↔
      (object.header.contentStart.toNat = object.header.tagsStart.toNat + 1 →
        d₁[object.header.contentStart.toNat]? = d₂[object.header.contentStart.toNat]?) := by
  have hspace : object.layout.checkedTagsSpace = .ok (object.header.contentStart.toNat -
      object.header.tagsStart.toNat) := SectionLayout.checkedTagsSpace_of_le hle
  unfold TuxObject.storedTagCount
  rw [hspace, ok_bind, ok_bind]
  set ts := object.header.tagsStart.toNat
  set cs := object.header.contentStart.toNat
  by_cases hempty : cs - ts = 0
  · rw [if_pos hempty, if_pos hempty]
    exact ⟨fun _ hone => by omega, fun _ => rfl⟩
  · rw [if_neg hempty, if_neg hempty]
    constructor
    · intro hcount hone
      by_cases hlong : ts + 2 ≤ d₁.length
      · rw [readSlice_of_le hlong, readSlice_of_le (hlen ▸ hlong)] at hcount
        have hbytes := fromLeBytes_inj (length_slice hlong) (length_slice (hlen ▸ hlong))
          (Except.ok.inj hcount)
        have hsecond := congrArg (fun bs => bs[1]?) hbytes
        simpa [List.getElem?_take, List.getElem?_drop, ← hone] using hsecond
      · rw [List.getElem?_eq_none (by omega), List.getElem?_eq_none (by omega)]
    · intro hbyte
      have hslice : readSlice d₁ ts 2 = readSlice d₂ ts 2 := by
        by_cases hone : cs = ts + 1
        · have hagree' : d₁.take (cs + 1) = d₂.take (cs + 1) := by
            rw [List.take_add_one, List.take_add_one, hagree, hbyte hone]
          exact readSlice_congr hagree' (by omega)
        · exact readSlice_congr hagree (by omega)
      rw [hslice]

lemma map_count_inj {r₁ r₂ : Except ObjectFileError UInt16}
    (h : Shown.count <$> r₁ = Shown.count <$> r₂) : r₁ = r₂ := by
  rcases r₁ with e₁ | n₁ <;> rcases r₂ with e₂ | n₂ <;> cases h <;> rfl

/-- What is read of a range depends on the content. -/
lemma storedRange_congr (h : object.storedContent d₁ = object.storedContent d₂) (offset : UInt64)
    (length : Option UInt64) :
    object.storedRange offset length d₁ = object.storedRange offset length d₂ := by
  unfold TuxObject.storedRange
  by_cases hplain : object.header.compressionType.isNone = true
  · simp only [if_neg (not_not_intro hplain)]
    by_cases hoffset : object.header.contentLength < offset
    · simp only [if_pos hoffset]
      rfl
    · simp only [if_neg hoffset]
      by_cases hlength : length.getD (object.header.contentLength - offset) >
          object.header.contentLength - offset
      · simp only [if_pos hlength]
        rfl
      · simp only [if_neg hlength]
        -- a range within the content is cut out of it
        have hle : offset.toNat ≤ object.header.contentLength.toNat :=
          Nat.not_lt.mp fun hlt => hoffset (UInt64.lt_iff_toNat_lt.mpr hlt)
        have hend : offset.toNat + (length.getD (object.header.contentLength - offset)).toNat ≤
            object.header.contentLength.toNat := by
          have hsub := UInt64.le_iff_toNat_le.mp (UInt64.not_lt.mp hlength)
          rw [UInt64.toNat_sub_of_le _ _ (UInt64.le_iff_toNat_le.mpr hle)] at hsub
          omega
        have hrange : ∀ d : List UInt8,
            (d.drop (object.header.contentStart.toNat + offset.toNat)).take
              (length.getD (object.header.contentLength - offset)).toNat =
            ((object.storedContent d).drop offset.toNat).take
              (length.getD (object.header.contentLength - offset)).toNat := by
          intro d
          unfold TuxObject.storedContent
          rw [List.drop_take, List.take_take, Nat.min_eq_left (by omega), List.drop_drop]
        unfold checkedAdd
        split_ifs
        · simp only [ok_bind, hrange, h]
        · rfl
  · simp only [if_pos hplain]
    rfl

/-- What is asked of the content depends on the content. -/
lemma answer_congr (object : TuxObject) (h : object.storedContent d₁ = object.storedContent d₂)
    {q : Query} (hq : ¬ q.OfPrefix) : q.answer object d₁ = q.answer object d₂ := by
  cases q with
  | sections | tags | tagCount | tag => exact absurd trivial hq
  | stored => exact congrArg (fun bs => Except.ok (Shown.bytes bs)) h
  | content =>
      unfold Query.answer TuxObject.storedVec TuxObject.storedVecWith
      rw [h]
  | range offset length => exact congrArg (Shown.bytes <$> ·) (storedRange_congr h offset length)

/-! ## Both directions -/

/-- Asking either file gives the same results. -/
def SameResults (q : Query) (writable : Bool) (path₁ : Path) (w₁ : World) (path₂ : Path)
    (w₂ : World) : Prop :=
  ∀ r, (∃ w', Ends (FsStep NoFaults) (q.run path₁ writable).run w₁ r w') ↔
    ∃ w', Ends (FsStep NoFaults) (q.run path₂ writable).run w₂ r w'

lemma sameResults_iff {q : Query} {writable : Bool} {path₁ path₂ : Path} {w₁ w₂ : World} {i₁ i₂ : ℕ}
    (hdir₁ : w₁.dir path₁ = some i₁) (hdir₂ : w₂.dir path₂ = some i₂) :
    SameResults q writable path₁ w₁ path₂ w₂ ↔ q.result (w₁.data i₁) = q.result (w₂.data i₂) := by
  unfold SameResults
  simp only [Query.ends_iff hdir₁, Query.ends_iff hdir₂]
  exact ⟨fun h => (h _).mp rfl, fun h r => by rw [h]⟩

/-- The path opens. -/
def Opens (writable : Bool) (path : Path) (w : World) : Prop :=
  ∃ object w', Ends (FsStep NoFaults) (TuxObject.openAs path writable).run w (.ok object) w'

lemma opens_iff {writable : Bool} (hdir : w.dir path = some i) :
    Opens writable path w ↔ ∃ header metadata, readPrefix (w.data i) = .ok (header, metadata) := by
  constructor
  · rintro ⟨object, w', hrun⟩
    rw [TuxObject.openAs_eq] at hrun
    obtain ⟨_, _, j, hj, _, hread, _⟩ := Program.Safe.ends openAs_returns hrun
    obtain rfl := Option.some.inj (hdir.symm.trans hj)
    exact ⟨_, _, hread⟩
  · rintro ⟨header, metadata, hread⟩
    obtain ⟨object, w', hrun, _⟩ :=
      (openAs_delivers writable hdir hread).exec (fsStep_perform NoFaults)
    exact ⟨object, w', hrun⟩

/-- Where two files agree in front of the content, what is asked of that part is the same; where
they agree on the content, so is what is asked of it, when both open. -/
structure SectionsIsolated (writable : Bool) (path₁ : Path) (w₁ : World) (i₁ : ℕ) (path₂ : Path)
    (w₂ : World) (i₂ : ℕ) (header : ObjectHeader) : Prop where
  before : (w₁.data i₁).take header.contentStart.toNat =
      (w₂.data i₂).take header.contentStart.toNat →
    ∀ q : Query, q.OfPrefix → SameResults q writable path₁ w₁ path₂ w₂
  content : ((w₁.data i₁).drop header.contentStart.toNat).take header.contentLength.toNat =
      ((w₂.data i₂).drop header.contentStart.toNat).take header.contentLength.toNat →
    Opens writable path₁ w₁ → Opens writable path₂ w₂ →
      ∀ q : Query, ¬ q.OfPrefix → SameResults q writable path₁ w₁ path₂ w₂

/-- Two files with the same header are isolated from each other exactly when, where they agree in
front of the content and open, a tag section of one byte is followed by the same byte. -/
theorem sections_isolated_iff (writable : Bool) {path₁ path₂ : Path} {w₁ w₂ : World} {i₁ i₂ : ℕ}
    {header : ObjectHeader} (hdir₁ : w₁.dir path₁ = some i₁) (hdir₂ : w₂.dir path₂ = some i₂)
    (h : SameHeader header (w₁.data i₁) (w₂.data i₂)) :
    SectionsIsolated writable path₁ w₁ i₁ path₂ w₂ i₂ header ↔
      ((w₁.data i₁).take header.contentStart.toNat = (w₂.data i₂).take header.contentStart.toNat →
        Opens writable path₁ w₁ → header.contentStart.toNat = header.tagsStart.toNat + 1 →
          (w₁.data i₁)[header.contentStart.toNat]? = (w₂.data i₂)[header.contentStart.toNat]?) := by
  constructor
  · intro hisolated hagree hopens
    obtain ⟨header', metadata, hread⟩ := (opens_iff hdir₁).mp hopens
    obtain rfl := header_of_readPrefix h.left hread
    have hcount := (sameResults_iff hdir₁ hdir₂).mp (hisolated.before hagree .tagCount trivial)
    rw [Query.result_of_read hread,
      Query.result_of_read ((readPrefix_congr h hagree).symm.trans hread)] at hcount
    exact (storedTagCount_eq_iff (openedObject 0 World.somePath false (header', metadata))
      h.tagsStart_le h.length_eq hagree).mp (map_count_inj hcount)
  · intro hbyte
    constructor
    · intro hagree q hq
      rw [sameResults_iff hdir₁ hdir₂]
      have hsame := readPrefix_congr h hagree
      cases hread : readPrefix (w₁.data i₁) with
      | error e =>
          unfold Query.result
          rw [← hsame, hread]
          rfl
      | ok sections =>
          obtain ⟨header', metadata⟩ := sections
          obtain rfl := header_of_readPrefix h.left hread
          rw [Query.result_of_read hread, Query.result_of_read (hsame.symm.trans hread)]
          obtain ⟨htags, htag⟩ := storedTags_congr
            (openedObject 0 World.somePath false (header', metadata)) h.tagsStart_le hagree
          have hcount := (storedTagCount_eq_iff
            (openedObject 0 World.somePath false (header', metadata)) h.tagsStart_le h.length_eq
            hagree).mpr (hbyte hagree ((opens_iff hdir₁).mpr ⟨_, _, hread⟩))
          cases q with
          | sections => rfl
          | tags => exact congrArg (Shown.tags <$> ·) htags
          | tagCount => exact congrArg (Shown.count <$> ·) hcount
          | tag key => exact congrArg (Shown.value <$> ·) (htag key)
          | stored | content | range => exact hq.elim
    · intro hcontent hopens₁ hopens₂ q hq
      rw [sameResults_iff hdir₁ hdir₂]
      obtain ⟨header₁, metadata₁, hread₁⟩ := (opens_iff hdir₁).mp hopens₁
      obtain ⟨header₂, metadata₂, hread₂⟩ := (opens_iff hdir₂).mp hopens₂
      obtain rfl := header_of_readPrefix h.left hread₁
      obtain rfl := header_of_readPrefix h.right hread₂
      rw [Query.result_of_read hread₁, Query.result_of_read hread₂]
      -- what is asked of the content does not depend on the metadata of the handle
      have hmetadata : q.answer (openedObject 0 World.somePath false (header₂, metadata₁))
          (w₁.data i₁) = q.answer (openedObject 0 World.somePath false (header₂, metadata₂))
          (w₁.data i₁) := by
        cases q with
        | sections | tags | tagCount | tag => exact absurd trivial hq
        | stored | content | range => rfl
      rw [hmetadata]
      exact answer_congr (openedObject 0 World.somePath false (header₂, metadata₂)) hcontent hq

end

attribute [local instance] fullPlatform pairCodecs

/-- A header with room for one byte of tags and two bytes of content. -/
def oneTagByte : ObjectHeader := ⟨0, .none, 32, 33, 2, 0⟩

/-- The file with this header and the content `bs`. -/
def oneTagByteFile (bs : List UInt8) : List UInt8 := oneTagByte.wire ++ 0 :: bs

/-- Both files have the header. -/
lemma oneTagByteFile_sameHeader (b c b' c' : UInt8) :
    SameHeader oneTagByte (oneTagByteFile [b, c]) (oneTagByteFile [b', c']) := by
  have hread : ∀ bs, ObjectHeader.readFromBytes ((oneTagByteFile bs).take headerSize) =
      .ok oneTagByte := by
    intro bs
    have htake : (oneTagByteFile bs).take headerSize = oneTagByte.wire ++ [] :=
      (List.take_left' (ObjectHeader.length_wire _)).trans (List.append_nil _).symm
    rw [htake]
    exact ObjectHeader.readFromBytes_wire _ rfl []
  exact ⟨rfl, hread _, hread _, by decide, by decide⟩

/-- Files with the same first byte of content and different second ones. -/
theorem sections_isolated_same_byte :
    SectionsIsolated false World.somePath (World.single (oneTagByteFile [7, 0])) 0 World.somePath
      (World.single (oneTagByteFile [7, 1])) 0 oneTagByte :=
  (sections_isolated_iff false rfl rfl (oneTagByteFile_sameHeader 7 0 7 1)).mpr fun _ _ _ => rfl

/-- With one byte of tags the number of tags shows the first byte of the content. -/
theorem sections_not_isolated :
    ¬ ∀ (writable : Bool) (path₁ path₂ : Path) (w₁ w₂ : World) (i₁ i₂ : ℕ) (header : ObjectHeader),
      w₁.dir path₁ = some i₁ → w₂.dir path₂ = some i₂ →
        SameHeader header (w₁.data i₁) (w₂.data i₂) →
          SectionsIsolated writable path₁ w₁ i₁ path₂ w₂ i₂ header := by
  intro h
  have hisolated := h false World.somePath World.somePath (World.single (oneTagByteFile [1, 0]))
    (World.single (oneTagByteFile [2, 0])) 0 0 oneTagByte rfl rfl
    (oneTagByteFile_sameHeader 1 0 2 0)
  have hread : ∀ bs, readPrefix ((World.single (oneTagByteFile bs)).data 0) =
      .ok (oneTagByte, Tags.new) := fun bs => readPrefix_wire rfl (by decide) _
  have hcount := (sameResults_iff rfl rfl).mp (hisolated.before rfl .tagCount trivial)
  rw [Query.result_of_read (hread [1, 0]), Query.result_of_read (hread [2, 0])] at hcount
  have hbytes := map_count_inj hcount
  exact absurd hbytes (by decide)

end TuxEncoding
