import TuxEncoding.Fs.Object
import TuxEncoding.Fs.ReaderSafety

/-!
# What a handle reads

Everything a handle reads off its file is a function of its header and of the bytes of the file,
whatever these are; nothing is asked of the file here.

* `readPrefix`, `TuxObject.storedTags`, `TuxObject.storedTag`, `TuxObject.storedTagCount`,
  `TuxObject.storedVec` and `TuxObject.storedRange` are these functions, with their errors.
* `Returns` says that a function of the file layer returns a given result unless a call fails, and
  changes nothing but where handles stand. It is kept by sequencing (`Returns.bind`).
* `openAs_returns`, `OpenOn.readTags_returns`, …: each reader returns what its function says.
-/

namespace TuxEncoding

open Interaction Program

set_option linter.unusedSectionVars false

variable [Platform] [Codecs]

/-! ## What the bytes say -/

/-- `read_exact` on the bytes of a file, from `start` on. -/
def readSlice (data : List UInt8) (start n : ℕ) : Except ObjectFileError (List UInt8) :=
  if ((data.drop start).take n).length < n then .error (.io shortRead)
  else .ok ((data.drop start).take n)

/-- The header and the metadata that opening a file reads. -/
def readPrefix (data : List UInt8) : Except ObjectFileError (ObjectHeader × MetadataMap) := do
  let headerBytes ← readSlice data 0 headerSize
  let header ← (ObjectHeader.readFromBytes headerBytes).mapError .encoding
  let metadataSpace := header.tagsStart.toNat - headerSize
  let metadata ←
    if metadataSpace = 0 then pure Tags.new
    else do
      let buffer ← readSlice data headerSize metadataSpace
      decodeSection (readFromReader : Decoder MetadataMap) buffer
  return (header, metadata)

/-- Bytes that lie within the file are read. -/
lemma readSlice_of_le {data : List UInt8} {start n : ℕ} (h : start + n ≤ data.length) :
    readSlice data start n = .ok ((data.drop start).take n) :=
  if_neg (Nat.not_lt.mpr (Nat.le_of_eq (length_slice h).symm))

/-- A header without room for metadata is all that opening reads. -/
lemma readPrefix_wire {header : ObjectHeader} (hversion : header.version = currentVersion)
    (hspace : header.tagsStart.toNat ≤ headerSize) (rest : List UInt8) :
    readPrefix (header.wire ++ rest) = .ok (header, Tags.new) := by
  have hlength : header.wire.length = headerSize := ObjectHeader.length_wire header
  have hheader : ObjectHeader.readFromBytes header.wire = .ok header := by
    rw [← List.append_nil header.wire]
    exact ObjectHeader.readFromBytes_wire header hversion []
  unfold readPrefix
  rw [readSlice_of_le (by rw [List.length_append, hlength]; omega), ok_bind, List.drop_zero,
    List.take_left' hlength, hheader]
  simp only [Except.mapError, ok_bind, Nat.sub_eq_zero_of_le hspace, if_pos, pure_bind]
  rfl

namespace TuxObject

/-- What `read_tags` reads. -/
def storedTags (self : TuxObject) (data : List UInt8) : Except ObjectFileError (Tags String) := do
  let space ← self.layout.checkedTagsSpace
  if space = 0 then return Tags.new
  let buffer ← readSlice data self.header.tagsStart.toNat space
  decodeSection (readFromReader : Decoder (Tags String)) buffer

/-- What `tag_count` reads. -/
def storedTagCount (self : TuxObject) (data : List UInt8) : Except ObjectFileError UInt16 := do
  let space ← self.layout.checkedTagsSpace
  if space = 0 then return 0
  let buffer ← readSlice data self.header.tagsStart.toNat 2
  return Number.fromLeBytes buffer

/-- What `find_tag` reads. -/
def storedTag (self : TuxObject) (key : String) (data : List UInt8) :
    Except ObjectFileError (Option ValueType) := do
  let space ← self.layout.checkedTagsSpace
  if space = 0 then return none
  let buffer ← readSlice data self.header.tagsStart.toNat space
  decodeSection (Tags.findFromReader key) buffer

/-- The content of an object as its file holds it. -/
def storedContent (self : TuxObject) (data : List UInt8) : List UInt8 :=
  (data.drop self.header.contentStart.toNat).take self.header.contentLength.toNat

/-- What `read_content_to_vec` reads, where the allocator grants `granted` bytes. -/
def storedVecWith (granted : ℕ) (self : TuxObject) (data : List UInt8) :
    Except ObjectFileError (List UInt8) := do
  withCapacity granted self.header.contentLength.toNat
  match self.header.compressionType with
  | .none => return self.storedContent data
  | compression => do
      ensureSupported compression
      (Codecs.decode compression (self.storedContent data)).mapError .io

/-- What `read_content_to_vec` reads. -/
abbrev storedVec (self : TuxObject) (data : List UInt8) : Except ObjectFileError (List UInt8) :=
  self.storedVecWith isizeMax data

/-- What the reader of `content_range_reader` reads to its end. -/
def storedRange (self : TuxObject) (offset : UInt64) (length : Option UInt64) (data : List UInt8) :
    Except ObjectFileError (List UInt8) := do
  if ¬ self.header.compressionType.isNone then throw .rangedReadOnCompressed
  let contentLength := self.header.contentLength
  if contentLength < offset then
    throw (.rangeOutOfBounds offset.toNat offset.toNat contentLength.toNat)
  let available := contentLength - offset
  let length := length.getD available
  if length > available then
    throw (.rangeOutOfBounds offset.toNat (min (offset.toNat + length.toNat) (2 ^ 64 - 1))
      contentLength.toNat)
  let start ← checkedAdd self.header.contentStart.toNat offset.toNat
  if start > maxFileLength then throw (.io invalidArgument)
  return (data.drop start).take length.toNat

/-! ## Reading to the end -/

/-- Open the stored content and read it to its end. -/
def readStored (self : TuxObject) : Fs (List UInt8) := do
  let reader ← self.storedContentReader
  attempt .io (reader.readToEnd (reader.remaining + 1)).run

/-- Open a range of the content and read it to its end. -/
def readRange (self : TuxObject) (offset : UInt64) (length : Option UInt64) : Fs (List UInt8) := do
  let reader ← self.contentRangeReader offset length
  attempt .io (reader.readToEnd (reader.remaining + 1)).run

end TuxObject

/-! ## Returning a result -/

/-- The error is that of a call which may fail. -/
def IsFault (mayFail : FsCall → Prop) (e : ObjectFileError) : Prop :=
  ∃ c err, mayFail c ∧ e = .io err

lemma IsFault.exists {mayFail : FsCall → Prop} {e : ObjectFileError} (h : IsFault mayFail e) :
    ∃ c, mayFail c := by
  obtain ⟨c, _, hfail, _⟩ := h
  exact ⟨c, hfail⟩

lemma not_isFault_noFaults {e : ObjectFileError} : ¬ IsFault NoFaults e :=
  fun h => not_exists_noFaults h.exists

/-- The function returns the result `r`, unless a call fails, and changes nothing but where handles
stand. -/
def Returns {α : Type} (mayFail : FsCall → Prop) (m : Fs α) (r : Except ObjectFileError α)
    (w : World) : Prop :=
  Fallible.Safe (FsStep mayFail) Reads m (fun a w' => r = .ok a ∧ Undisturbed w w')
    (fun e w' => Undisturbed w w' ∧ (IsFault mayFail e ∨ r = .error e)) w

variable {α β : Type} {mayFail : FsCall → Prop} {w w' : World}

lemma returns_orReturn (r : Except ObjectFileError α) : Returns mayFail (orReturn r) r w := by
  apply Fallible.Safe.ofExcept
  cases r with
  | ok a => exact ⟨rfl, Undisturbed.refl w⟩
  | error e => exact ⟨Undisturbed.refl w, .inr rfl⟩

/-- What is returned after some reading. -/
lemma Returns.after {w₁ : World} {m : Fs α} {r : Except ObjectFileError α}
    (hsame : Undisturbed w w₁) (h : Returns mayFail m r w₁) :
    Fallible.Safe (FsStep mayFail) Reads m (fun a w' => r = .ok a ∧ Undisturbed w w')
      (fun e w' => Undisturbed w w' ∧ (IsFault mayFail e ∨ r = .error e)) w₁ := by
  refine Fallible.Safe.mono h ?_ ?_
  · rintro a w₂ ⟨ha, hsame'⟩
    exact ⟨ha, hsame.trans hsame'⟩
  · rintro e w₂ ⟨hsame', hreason⟩
    exact ⟨hsame.trans hsame', hreason⟩

lemma Returns.bind {m : Fs α} {f : α → Fs β} {r : Except ObjectFileError α}
    {g : α → Except ObjectFileError β} (h : Returns mayFail m r w)
    (hf : ∀ a w', Undisturbed w w' → Returns mayFail (f a) (g a) w') :
    Returns mayFail (m >>= f) (r >>= g) w := by
  refine Fallible.Safe.bind (Fallible.Safe.mono h ?_ ?_)
  · rintro a w₁ ⟨rfl, hsame⟩
    exact (hf a w₁ hsame).after hsame
  · rintro e w₁ ⟨hsame, hfail | rfl⟩
    · exact ⟨hsame, .inl hfail⟩
    · exact ⟨hsame, .inr rfl⟩

lemma Returns.map {m : Fs α} {r : Except ObjectFileError α} (f : α → β)
    (h : Returns mayFail m r w) : Returns mayFail (f <$> m) (f <$> r) w := by
  rw [map_eq_pure_bind, map_eq_pure_bind]
  exact h.bind fun a _ _ => returns_orReturn (.ok (f a))

/-- A check that comes to the same on both sides. -/
lemma Returns.ite {p : Prop} [Decidable p] {m m' : Fs α} {r r' : Except ObjectFileError α}
    (h : p → Returns mayFail m r w) (h' : ¬ p → Returns mayFail m' r' w) :
    Returns mayFail (if p then m else m') (if p then r else r') w := by
  split_ifs with hp
  · exact h hp
  · exact h' hp

/-- Without faults a function that returns a result ends with exactly that. -/
lemma Returns.ends {m : Fs α} {r r' : Except ObjectFileError α} (h : Returns NoFaults m r w)
    (hrun : Ends (FsStep NoFaults) m.run w r' w') : r' = r ∧ Undisturbed w w' := by
  have hend := Program.Safe.ends h hrun
  cases r' with
  | ok a => exact ⟨hend.1.symm, hend.2⟩
  | error e =>
      obtain ⟨hsame, hfail | hr⟩ := hend
      · exact absurd hfail not_isFault_noFaults
      · exact ⟨hr.symm, hsame⟩

/-- Without faults a result that is a value is delivered. -/
lemma Returns.delivers {m : Fs α} {r : Except ObjectFileError α} {a : α}
    (h : Returns NoFaults m r w) (hr : r = .ok a) :
    Fallible.Delivers (FsStep NoFaults) m (fun b w' => b = a ∧ Undisturbed w w') w := by
  refine Fallible.Safe.mono (Fallible.Safe.allow (fun _ _ _ => trivial) h) ?_ ?_
  · rintro b w' ⟨hb, hsame⟩
    exact ⟨Except.ok.inj (hb.symm.trans hr), hsame⟩
  · rintro e w' ⟨_, hfail | he⟩
    · exact not_isFault_noFaults hfail
    · rw [hr] at he
      cases he

/-- Where the result is a value, only a call can fail. -/
lemma Returns.reads {m : Fs α} {r : Except ObjectFileError α} {a : α} (h : Returns mayFail m r w)
    (hr : r = .ok a) : Fallible.Safe (FsStep mayFail) Reads m
      (fun b w' => b = a ∧ Undisturbed w w')
      (fun e w' => Undisturbed w w' ∧ IsFault mayFail e) w := by
  subst hr
  apply Fallible.Safe.mono h
  · rintro b w' ⟨hb, hsame⟩
    exact ⟨(Except.ok.inj hb).symm, hsame⟩
  · rintro e w' ⟨hsame, hfail⟩
    exact ⟨hsame, hfail.resolve_right nofun⟩

/-- A computation that makes no call leaves everything where it is. -/
lemma Returns.orReturn_bind {r : Except ObjectFileError α} {f : α → Fs β}
    {g : α → Except ObjectFileError β} (h : ∀ a, r = .ok a → Returns mayFail (f a) (g a) w) :
    Returns mayFail (orReturn r >>= f) (r >>= g) w := by
  refine Fallible.Safe.bind (Fallible.Safe.ofExcept ?_)
  cases r with
  | ok a => exact h a rfl
  | error e => exact ⟨Undisturbed.refl w, .inr rfl⟩

section calls

variable {fd start n : ℕ} {f : OpenFile} {k : List UInt8 → Fs α}
  {g : List UInt8 → Except ObjectFileError α}

/-- `read_exact` where the handle stands. -/
lemma returns_readExact (hf : w.files fd = some f)
    (hk : ∀ buffer w', w' = w.seekTo fd (f.pos + n) → Returns mayFail (k buffer) (g buffer) w') :
    Returns mayFail (attemptIo (sys (.readExact fd n)) >>= k)
      (readSlice (w.data f.inode) f.pos n >>= g) w := by
  unfold readSlice
  refine Fallible.Safe.bind (readExact_safe hf ?_ ?_)
  · intro hlen
    rw [if_neg (Nat.not_lt.mpr (Nat.le_of_eq hlen.symm))]
    exact (hk _ _ rfl).after (Undisturbed.seekTo _ _)
  · rintro e (hfail | ⟨hshort, rfl⟩) pos
    · exact ⟨Undisturbed.seekTo _ _, .inl ⟨_, _, hfail, rfl⟩⟩
    · rw [if_pos hshort]
      exact ⟨Undisturbed.seekTo _ _, .inr rfl⟩

/-- A seek to where a file may reach. -/
lemma returns_seek {m : Fs α} {r : Except ObjectFileError α} (hstart : start ≤ maxFileLength)
    (hf : w.files fd = some f) (hm : Returns mayFail m r (w.seekTo fd start)) :
    Returns mayFail (attemptIo (sys (.seek fd start)) >>= fun _ => m) r w := by
  refine Fallible.Safe.bind (seek_safe hstart hf ⟨_, hf⟩ ?_
    fun hfail e => ⟨Undisturbed.refl _, .inl ⟨_, _, hfail, rfl⟩⟩)
  exact hm.after (Undisturbed.seekTo _ _)

/-- `read_exact` behind a seek. -/
lemma returns_readAt (hstart : start ≤ maxFileLength) (hf : w.files fd = some f)
    (hk : ∀ buffer w', w' = (w.seekTo fd start).seekTo fd (start + n) →
      Returns mayFail (k buffer) (g buffer) w') :
    Returns mayFail (do
      attemptIo (sys (.seek fd start))
      let buffer ← attemptIo (sys (.readExact fd n))
      k buffer) (readSlice (w.data f.inode) start n >>= g) w :=
  returns_seek hstart hf (returns_readExact (World.seekTo_files_self hf) hk)

end calls

/-! ## Handles -/

/-- The handle is open on the file `i`. -/
def OpenOn (w : World) (object : TuxObject) (i : ℕ) : Prop :=
  ∃ pos, w.files object.file = some ⟨i, pos, object.writable⟩

variable {object : TuxObject} {i : ℕ}

lemma OpenOn.of_undisturbed (h : OpenOn w object i) (hsame : Undisturbed w w') :
    OpenOn w' object i := by
  obtain ⟨pos, hfile⟩ := h
  exact hsame.files hfile

/-- A handle that is not new stays open while a writer works. -/
lemma OpenOn.of_above {n : ℕ} {final : Path} (h : OpenOn w object i)
    (habove : Above n final w w') (hn : w.next ≤ n) : OpenOn w' object i := by
  obtain ⟨pos, hfile⟩ := h
  have hlt := w.files_lt hfile
  exact habove.files (by omega) hfile

lemma OpenOn.lt_next (h : OpenOn w object i) : i < w.next := by
  obtain ⟨pos, hfile⟩ := h
  exact (w.files_lt hfile).2

/-- Reading leaves the bytes of all files as they are. -/
lemma Undisturbed.data_eq (h : Undisturbed w w') (i : ℕ) : w'.data i = w.data i :=
  congrArg Inode.data (congrFun h.inodes_eq i)

/-! ## Opening -/

/-- The object that opening a file gives. -/
def openedObject (file : Fd) (path : Path) (writable : Bool)
    (sections : ObjectHeader × MetadataMap) : TuxObject where
  file := file
  path := path
  header := sections.1
  metadata := sections.2
  writable := writable

/-- `from_file` reads the header and the metadata. -/
lemma fromFile_returns {fd : Fd} {path : Path} {writable : Bool} {f : OpenFile}
    (hfile : w.files fd = some f) :
    Returns mayFail (TuxObject.fromFile fd path writable)
      (readPrefix (w.data f.inode) >>= fun p => .ok (openedObject fd path writable p)) w := by
  unfold TuxObject.fromFile readPrefix
  simp only [bind_assoc]
  refine returns_readAt (Nat.zero_le _) hfile ?_
  rintro headerBytes w₁ rfl
  refine Returns.orReturn_bind fun header _ => ?_
  by_cases hspace : header.tagsStart.toNat - headerSize = 0
  · simp only [if_pos hspace, pure_bind]
    exact returns_orReturn (.ok (openedObject fd path writable (header, Tags.new)))
  · simp only [if_neg hspace, bind_assoc, pure_bind]
    apply returns_readExact (World.seekTo_files_self (World.seekTo_files_self hfile))
    exact fun buffer _ _ => Returns.orReturn_bind fun metadata _ =>
      returns_orReturn (.ok (openedObject fd path writable (header, metadata)))

lemma TuxObject.openAs_eq (path : Path) (writable : Bool) : TuxObject.openAs path writable =
    (attemptIo (sys (.openFile path writable)) >>= fun fd =>
      TuxObject.fromFile fd path writable) := by
  cases writable with
  | false => rfl
  | true => rfl

/-- Opening a path reads the header and the metadata of the file behind it. -/
lemma openAs_returns {path : Path} {writable : Bool} :
    Fallible.Safe (FsStep mayFail) (fun _ _ => True)
      (attemptIo (sys (.openFile path writable)) >>= fun fd => TuxObject.fromFile fd path writable)
      (fun object w' => object.path = path ∧ object.writable = writable ∧
        ∃ i, w.dir path = some i ∧ OpenOn w' object i ∧
          readPrefix (w.data i) = .ok (object.header, object.metadata) ∧ Undisturbed w w')
      (fun e w' => Undisturbed w w' ∧ (IsFault mayFail e ∨
        ∀ i, w.dir path = some i → readPrefix (w.data i) = .error e)) w := by
  refine Fallible.Safe.bind (Fallible.Safe.attempt (Program.Safe.request trivial ?_))
  intro r w' hstep
  obtain ⟨i, n, hn, hdir, rfl, rfl⟩ | ⟨hreason, ⟨e, rfl⟩, rfl⟩ := hstep.openFile_inv
  · have hsame : Undisturbed w (w.openAt path writable n hn) := Undisturbed.openAt hn
    have hfile : (w.openAt path writable n hn).files n = some ⟨i, 0, writable⟩ := by
      show Function.update w.files n _ n = _
      rw [Function.update_self, hdir]
      rfl
    have hdata : (w.openAt path writable n hn).data i = w.data i := rfl
    refine Fallible.Safe.mono (Fallible.Safe.allow (fun _ _ _ => trivial)
      (fromFile_returns hfile)) ?_ ?_
    · rintro object w₂ ⟨hread, hsame'⟩
      dsimp only at hread
      rw [hdata] at hread
      cases hsections : readPrefix (w.data i) with
      | error e =>
          rw [hsections] at hread
          cases hread
      | ok sections =>
          rw [hsections] at hread
          cases hread
          exact ⟨rfl, rfl, i, hdir, hsame'.files hfile, hsections, hsame.trans hsame'⟩
    · rintro e w₂ ⟨hsame', hreason⟩
      refine ⟨hsame.trans hsame', hreason.imp_right fun hread j hj => ?_⟩
      obtain rfl := Option.some.inj (hdir.symm.trans hj)
      dsimp only at hread
      rw [hdata] at hread
      cases hsections : readPrefix (w.data i) with
      | error e' =>
          rw [hsections] at hread
          exact congrArg Except.error (Except.error.inj hread)
      | ok sections =>
          rw [hsections] at hread
          cases hread
  · refine ⟨Undisturbed.refl _, ?_⟩
    rcases hreason with hnone | hfail
    · exact .inr fun i hi => by cases hnone.symm.trans hi
    · exact .inl ⟨_, _, hfail, rfl⟩

/-- Without faults a file whose header and metadata decode opens. -/
lemma openAs_delivers {path : Path} {header : ObjectHeader} {metadata : MetadataMap}
    (writable : Bool) (hdir : w.dir path = some i)
    (hread : readPrefix (w.data i) = .ok (header, metadata)) :
    Fallible.Delivers (FsStep NoFaults) (TuxObject.openAs path writable)
      (fun object w' => object.header = header ∧ object.metadata = metadata ∧
        OpenOn w' object i ∧ Undisturbed w w') w := by
  rw [TuxObject.openAs_eq]
  apply Fallible.Safe.mono openAs_returns
  · rintro object w' ⟨_, _, j, hj, hopen, hobject, hsame⟩
    obtain rfl := Option.some.inj (hdir.symm.trans hj)
    obtain ⟨rfl, rfl⟩ := Prod.mk.inj (Except.ok.inj (hread.symm.trans hobject))
    exact ⟨rfl, rfl, hopen, hsame⟩
  · rintro e w' ⟨_, hfail | herror⟩
    · exact not_isFault_noFaults hfail
    · nomatch hread.symm.trans (herror i hdir)

/-! ## Tags -/

/-- `read_tags` returns the tags that are stored. -/
lemma OpenOn.readTags_returns (h : OpenOn w object i) :
    Returns mayFail object.readTags (object.storedTags (w.data i)) w := by
  obtain ⟨pos, hfile⟩ := h
  refine Returns.orReturn_bind fun space _ => ?_
  refine Returns.ite (fun _ => returns_orReturn (.ok Tags.new)) fun _ => ?_
  apply returns_readAt (toNat_uint16_le _) hfile
  exact fun buffer _ _ => returns_orReturn _

/-- `tag_count` returns the first two bytes of the tag section. -/
lemma OpenOn.tagCount_returns (h : OpenOn w object i) :
    Returns mayFail object.tagCount (object.storedTagCount (w.data i)) w := by
  obtain ⟨pos, hfile⟩ := h
  refine Returns.orReturn_bind fun space _ => ?_
  refine Returns.ite (fun _ => returns_orReturn (.ok 0)) fun _ => ?_
  apply returns_readAt (toNat_uint16_le _) hfile
  exact fun buffer _ _ => returns_orReturn (.ok (Number.fromLeBytes buffer))

/-- `find_tag` returns the first value that is stored under the key. -/
lemma OpenOn.findTag_returns (h : OpenOn w object i) (key : String) :
    Returns mayFail (object.findTag key) (object.storedTag key (w.data i)) w := by
  obtain ⟨pos, hfile⟩ := h
  refine Returns.orReturn_bind fun space _ => ?_
  refine Returns.ite (fun _ => returns_orReturn (.ok none)) fun _ => ?_
  apply returns_readAt (toNat_uint16_le _) hfile
  exact fun buffer _ _ => returns_orReturn _

/-! ## Content -/

/-- `stored_content_reader` moves the handle in front of the content. -/
lemma OpenOn.storedContentReader_safe (h : OpenOn w object i) :
    Fallible.Safe (FsStep mayFail) Reads object.storedContentReader
      (fun reader w' => reader.file = object.file ∧ ∃ f, f.inode = i ∧
        w' = w.seekTo object.file f.pos ∧ w'.files object.file = some f ∧
        object.storedContent (w.data i) = ((w'.data i).drop f.pos).take reader.remaining)
      (fun e w' => w' = w ∧ IsFault mayFail e) w := by
  obtain ⟨pos, hfile⟩ := h
  unfold TuxObject.storedContentReader
  refine Fallible.Safe.bind (seek_safe (toNat_uint32_le _) hfile ⟨_, hfile⟩ ?_
    fun hfail e => ⟨rfl, _, _, hfail, rfl⟩)
  exact Fallible.Safe.pure ⟨rfl, _, rfl, rfl, World.seekTo_files_self hfile, rfl⟩

/-- A reader that is read to its end. -/
lemma returns_readToEnd {reader : ContentReader} {f : OpenFile}
    (hf : w.files reader.file = some f) :
    Returns mayFail (attempt .io (reader.readToEnd (reader.remaining + 1)).run)
      (.ok (((w.data f.inode).drop f.pos).take reader.remaining)) w := by
  refine Fallible.Safe.attempt ?_
  refine Program.Safe.mono ?_ (ContentReader.readToEnd_safe _ (Nat.lt_succ_self _) hf rfl)
  rintro (e | bs) w' hr
  · obtain ⟨hsame, c, hfail⟩ := hr
    exact ⟨hsame, .inl ⟨c, e, hfail, rfl⟩⟩
  · exact ⟨congrArg Except.ok hr.1.symm, hr.2⟩

/-- Whatever is done with the reader of the stored content. -/
lemma OpenOn.returns_storedContent (h : OpenOn w object i) {k : ContentReader → Fs α}
    {r : Except ObjectFileError α}
    (hk : ∀ reader f w', w'.files reader.file = some f →
      ((w'.data f.inode).drop f.pos).take reader.remaining = object.storedContent (w.data i) →
        Returns mayFail (k reader) r w') :
    Returns mayFail (object.storedContentReader >>= k) r w := by
  refine Fallible.Safe.bind (Fallible.Safe.mono h.storedContentReader_safe ?_ ?_)
  · rintro reader w₁ ⟨hreader, f, rfl, hw₁, hfile, hcontent⟩
    rw [← hreader] at hfile
    refine (hk reader f w₁ hfile hcontent.symm).after ?_
    rw [hw₁]
    exact Undisturbed.seekTo _ _
  · rintro e w' ⟨rfl, hfail⟩
    exact ⟨Undisturbed.refl _, .inl hfail⟩

/-- The stored content, read to its end. -/
lemma OpenOn.readStored_returns (h : OpenOn w object i) :
    Returns mayFail object.readStored (.ok (object.storedContent (w.data i))) w := by
  apply h.returns_storedContent
  intro reader f w' hfile hcontent
  rw [← hcontent]
  exact returns_readToEnd hfile

/-- `read_content_to_vec` returns the stored content, decoded when it is compressed. -/
lemma OpenOn.readContentToVec_returns (h : OpenOn w object i) {granted : ℕ} :
    Returns mayFail (object.readContentToVecWith granted)
      (object.storedVecWith granted (w.data i)) w := by
  refine Returns.orReturn_bind fun _ _ => ?_
  apply h.returns_storedContent
  intro reader f w₁ hfile hcontent
  have hdecoded : ∀ compression, Returns mayFail (do
      orReturn (ensureSupported compression)
      let stored ← attempt .io (reader.readToEnd (reader.remaining + 1)).run
      orReturn ((Codecs.decode compression stored).mapError .io)) (do
      ensureSupported compression
      (Codecs.decode compression (object.storedContent (w.data i))).mapError .io) w₁ := by
    intro compression
    refine Returns.orReturn_bind fun _ _ => ?_
    rw [← hcontent]
    exact (returns_readToEnd hfile).bind (g := fun stored => (Codecs.decode compression
      stored).mapError .io) fun stored _ _ => returns_orReturn _
  cases object.header.compressionType with
  | none =>
      dsimp only
      rw [← hcontent]
      exact returns_readToEnd hfile
  | zstd level => exact hdecoded _
  | gzip level => exact hdecoded _

/-- A range of the content, read to its end. -/
lemma OpenOn.readRange_returns (h : OpenOn w object i) (offset : UInt64) (length : Option UInt64) :
    Returns mayFail (object.readRange offset length)
      (object.storedRange offset length (w.data i)) w := by
  obtain ⟨pos, hfile⟩ := h
  unfold TuxObject.readRange TuxObject.contentRangeReader TuxObject.storedRange
  by_cases hplain : object.header.compressionType.isNone = true
  · rw [if_neg (not_not_intro hplain), if_neg (not_not_intro hplain)]
    by_cases hoffset : object.header.contentLength < offset
    · simp only [if_pos hoffset]
      exact returns_orReturn (.error _)
    · simp only [if_neg hoffset]
      by_cases hlength : length.getD (object.header.contentLength - offset) >
          object.header.contentLength - offset
      · simp only [if_pos hlength]
        exact returns_orReturn (.error _)
      · simp only [if_neg hlength, pure_bind, bind_assoc]
        refine Returns.orReturn_bind fun start _ => ?_
        refine Fallible.Safe.bind (trySeek_safe hfile ⟨_, hfile⟩ ?_ ?_)
        · intro hstart
          rw [if_neg (Nat.not_lt.mpr hstart)]
          have hfile' : (w.seekTo object.file start).files (⟨object.file, (length.getD
              (object.header.contentLength - offset)).toNat⟩ : ContentReader).file =
              some ⟨i, start, object.writable⟩ := World.seekTo_files_self hfile
          exact (returns_readToEnd hfile').after (Undisturbed.seekTo _ _)
        · rintro e (hfail | ⟨hstart, rfl⟩)
          · exact ⟨Undisturbed.refl _, .inl ⟨_, _, hfail, rfl⟩⟩
          · rw [if_pos hstart]
            exact ⟨Undisturbed.refl _, .inr rfl⟩
  · rw [if_pos hplain, if_pos hplain]
    exact returns_orReturn (.error .rangedReadOnCompressed)

end TuxEncoding
