import TuxEncoding.Fs.Update

/-!
# Files that have been cut short

A reader of the content stops at the end of the file, however much the header promises.

* `length_storedContent_iff`: what is stored is as long as the header says exactly when the file
  reaches that far.
* `truncated_content_iff`: what `read_content_to_vec` returns, and what an update carries over to
  the object it publishes, is as long as the header says exactly then.
-/

namespace TuxEncoding

open Interaction Program

set_option linter.unusedSectionVars false

section

variable [Platform] [Codecs] {mayFail : FsCall → Prop} {w w₁ w₂ : World} {object : TuxObject}
  {i : ℕ}

/-- The file reaches as far as the header says, if it says that there is any content. -/
def ObjectHeader.ReachedBy (header : ObjectHeader) (data : List UInt8) : Prop :=
  header.contentLength = 0 ∨
    header.contentStart.toNat + header.contentLength.toNat ≤ data.length

lemma length_storedContent_iff (object : TuxObject) (data : List UInt8) :
    (object.storedContent data).length = object.header.contentLength.toNat ↔
      object.header.ReachedBy data := by
  have hzero : object.header.contentLength = 0 ↔ object.header.contentLength.toNat = 0 :=
    UInt64.toNat_inj.symm
  unfold TuxObject.storedContent ObjectHeader.ReachedBy
  rw [List.length_take, List.length_drop, hzero]
  omega

/-- What an uncompressed object returns is what is stored. -/
lemma storedVec_eq_ok {data bs : List UInt8} (hplain : object.header.compressionType = .none)
    (h : object.storedVec data = .ok bs) : bs = object.storedContent data := by
  unfold TuxObject.storedVec TuxObject.storedVecWith withCapacity at h
  rw [hplain] at h
  split_ifs at h
  · cases h
  · exact (Except.ok.inj h).symm

/-- What an update publishes is as long as what was stored. -/
lemma Updated.contentLength_toNat {new : TuxObject} {data : List UInt8} {metadata : MetadataMap}
    {tags : Tags String} (h : Updated w object (object.updated data metadata tags) new w₁) :
    new.header.contentLength.toNat = (object.storedContent data).length := by
  obtain ⟨layout, _, _, himage, _, _, hheader⟩ := h.handleOf.stored
  rw [hheader]
  exact himage.contentLength_toNat

/-- Of a file that opens as an uncompressed object, whatever `read_content_to_vec` returns has the
length that the header says, and so does the object that an update publishes, exactly when the file
reaches that far. -/
theorem truncated_content_iff {path : Path} {writable : Bool} (hdir : w.dir path = some i)
    (hopen : Ends (FsStep mayFail) (TuxObject.openAs path writable).run w (.ok object) w₁)
    (hplain : object.header.compressionType = .none) :
    (∀ v, Ends (FsStep mayFail) object.readContentToVec.run w₁ (.ok v) w₂ →
      (v.length = object.header.contentLength.toNat ↔ object.header.ReachedBy (w.data i))) ∧
    ∀ (update : Update) (new : TuxObject),
      Ends (FsStep mayFail) (update.run.on object) w₁ (.ok (), new) w₂ →
        (new.header.contentLength = object.header.contentLength ↔
          object.header.ReachedBy (w.data i)) := by
  rw [TuxObject.openAs_eq] at hopen
  obtain ⟨_, _, j, hj, hobject, _, hsame⟩ := Program.Safe.ends openAs_returns hopen
  obtain rfl := Option.some.inj (hdir.symm.trans hj)
  constructor
  · intro v hread
    obtain ⟨hv, _⟩ := Program.Safe.ends hobject.readContentToVec_returns hread
    obtain rfl := storedVec_eq_ok hplain hv
    rw [hsame.data_eq]
    exact length_storedContent_iff object (w.data i)
  · intro update new hrun
    obtain ⟨tags, _, hupdated⟩ := (Update.run_safe hobject update).ends hrun
    rw [← UInt64.toNat_inj, hupdated.contentLength_toNat, hsame.data_eq]
    exact length_storedContent_iff object (w.data i)

end

attribute [local instance] fullPlatform pairCodecs

/-- A header that puts `n` bytes of content behind it. -/
def contentBehind (n : UInt64) : ObjectHeader := ⟨0, .none, 32, 32, n, 0⟩

/-- A file with this header opens. -/
lemma contentBehind_opens (n : UInt64) (bs : List UInt8) (writable : Bool) :
    ∃ object w', Ends (FsStep NoFaults) (TuxObject.openAs World.somePath writable).run
      (World.single ((contentBehind n).wire ++ bs)) (.ok object) w' ∧
      object.header = contentBehind n ∧ OpenOn w' object 0 ∧
      w'.data 0 = (contentBehind n).wire ++ bs := by
  have hdir : (World.single ((contentBehind n).wire ++ bs)).dir World.somePath = some 0 := rfl
  have hspace : (contentBehind n).tagsStart.toNat ≤ headerSize := Nat.le_refl 32
  have hread : readPrefix ((World.single ((contentBehind n).wire ++ bs)).data 0) =
      .ok (contentBehind n, Tags.new) := readPrefix_wire rfl hspace bs
  obtain ⟨object, w', hopen, hheader, _, hobject, hsame⟩ :=
    (openAs_delivers writable hdir hread).exec (fsStep_perform NoFaults)
  exact ⟨object, w', hopen, hheader, hobject, hsame.data_eq 0⟩

/-- A file that holds both of its bytes. -/
theorem truncated_content_complete :
    ∃ (object : TuxObject) (w₁ : World) (v : List UInt8) (w₂ : World),
      Ends (FsStep NoFaults) object.readContentToVec.run w₁ (.ok v) w₂ ∧
        object.header = contentBehind 2 ∧ v.length = 2 := by
  obtain ⟨object, w₁, hopen, hheader, hobject, hdata⟩ := contentBehind_opens 2 [7, 8] false
  have hstored : object.storedVec (w₁.data 0) = .ok [7, 8] := by
    rw [hdata]
    unfold TuxObject.storedVec TuxObject.storedVecWith TuxObject.storedContent
    rw [hheader]
    rfl
  obtain ⟨v, w₂, hread, _⟩ :=
    (hobject.readContentToVec_returns.delivers hstored).exec (fsStep_perform NoFaults)
  refine ⟨object, w₁, v, w₂, hread, hheader, ?_⟩
  have hlength := ((truncated_content_iff rfl hopen (by rw [hheader]; rfl)).1 v hread).mpr
    (by rw [hheader]; exact .inr (Nat.le_refl _))
  rw [hlength, hheader]
  rfl

/-- A file that was cut off behind its prefix is read as if it had no content. -/
theorem truncated_content_lost :
    ¬ ∀ (path : Path) (writable : Bool) (w w₁ w₂ : World) (object : TuxObject) (v : List UInt8),
      Ends (FsStep NoFaults) (TuxObject.openAs path writable).run w (.ok object) w₁ →
      object.header.compressionType = .none →
      Ends (FsStep NoFaults) object.readContentToVec.run w₁ (.ok v) w₂ →
        v.length = object.header.contentLength.toNat := by
  intro h
  obtain ⟨object, w₁, hopen, hheader, hobject, hdata⟩ := contentBehind_opens 1 [] false
  have hstored : object.storedVec (w₁.data 0) = .ok [] := by
    rw [hdata]
    unfold TuxObject.storedVec TuxObject.storedVecWith TuxObject.storedContent
    rw [hheader]
    rfl
  obtain ⟨_, w₂, hread, rfl, _⟩ :=
    (hobject.readContentToVec_returns.delivers hstored).exec (fsStep_perform NoFaults)
  have hlength := h _ _ _ _ _ _ _ hopen (by rw [hheader]; rfl) hread
  rw [hheader] at hlength
  exact absurd hlength (by decide)

end TuxEncoding
