import TuxEncoding.Fs.ReaderSafety

/-!
# Creating and writing keep the contract

The specification of the methods that lead up to `finish`, against a file system in which any call
for which `mayFail` holds may go wrong.

* `createAs_safe`: a new writer has one temporary file, with no content.
* `write_safe` and `copyAs_safe`: content is appended, or nothing changes.
-/

namespace TuxEncoding

open Bytes Interaction Program

set_option linter.unusedSectionVars false

variable [Platform]

variable {mayFail : FsCall → Prop} {job : Job} {w w₀ : World} {self : ObjectWriter} {temp : Path}
  {content : List UInt8}

/-! ## Creating -/

/-- What a new temporary file is. -/
structure NewTemp (job : Job) (w₀ w : World) (temp : Path) (fd : ℕ) : Prop where
  onlyTemp : OnlyTemp job w temp fd
  file : w.files fd = some ⟨fd, 0, true⟩
  data_eq : w.data fd = []
  next_le : w₀.next ≤ fd
  above : Above job.floor job.final w₀ w
  final_eq : w.dir job.final = w₀.dir job.final

/-- Creating a file in a clean directory makes it the only temporary file. -/
lemma NewTemp.create {n : ℕ} (hn : w.next ≤ n) (hfloor : job.floor ≤ w.next)
    (hclean : Clean job w) (hne : temp ≠ job.final) (hdir : w.dir temp = none) :
    NewTemp job w (w.create temp n hn) temp n where
  onlyTemp := by
    refine ⟨⟨hne, by omega, World.create_dir_self⟩, ?_⟩
    intro p i hp hi hentry
    by_contra hpt
    rw [World.create_dir_of_ne hpt] at hentry
    exact hclean hp hi hentry
  file := World.create_files_self
  data_eq := congrArg Inode.data World.create_inodes_self
  next_le := hn
  above := Above.create hfloor hdir
  final_eq := World.create_dir_of_ne (Ne.symm hne)

/-- A name that is free is found, or everything stays as it was. -/
lemma tryNames_safe {path : Path} {pid : ℕ} (hpath : path = job.final) (n : ℕ) (w : World)
    (hpid : w.pid = pid) (hfloor : job.floor ≤ w.next) (hclean : Clean job w) :
    Fallible.Safe (FsStep mayFail) job.Allows
      (tryNames (path.parent.getD ['.']) (path.fileName.getD "object".toList) pid n)
      (fun p w' => NewTemp job w w' p.2 p.1)
      (fun _ w' => Above job.floor job.final w w' ∧ w'.dir = w.dir ∧
        (n ≠ 0 → (∃ c, mayFail c) ∨ ∃ counter, w.dir (tempPathOf path pid counter) ≠ none)) w := by
  induction n generalizing w with
  | zero => exact Fallible.Safe.throw ⟨Above.refl _ _ _, rfl, fun h => absurd rfl h⟩
  | succ n ih =>
      unfold tryNames
      refine Fallible.Safe.bind (Fallible.Safe.lift (Program.Safe.request trivial ?_))
      intro counter w₁ hcounter
      obtain rfl := hcounter.nextTempCounter_inv
      have hne : tempPathOf path pid counter ≠ job.final := hpath ▸ tempPathOf_ne path pid counter
      refine Fallible.Safe.bind (Fallible.Safe.lift (Program.Safe.request
        ⟨counter, hpath ▸ hpid ▸ rfl⟩ ?_))
      intro r w₂ hcreate
      obtain ⟨k, hk, hdir, rfl, rfl⟩ | ⟨hreason, ⟨e, rfl⟩, rfl⟩ := hcreate.createNew_inv
      · have hnew := NewTemp.create hk hfloor hclean hne hdir
        exact Fallible.Safe.pure ⟨hnew.onlyTemp, hnew.file, hnew.data_eq, hnew.next_le,
          (Above.setCounter _).trans hnew.above, hnew.final_eq⟩
      · have habove : Above job.floor job.final w (w.setCounter (counter + 1)) :=
          Above.setCounter _
        have hreason' : (∃ c, mayFail c) ∨ ∃ counter, w.dir (tempPathOf path pid counter) ≠ none :=
          hreason.elim (fun h => .inr ⟨counter, h⟩) fun h => .inl ⟨_, h⟩
        show Fallible.Safe _ _ (if e.kind = .alreadyExists then tryNames _ _ pid n
          else throw (.io e)) _ _ _
        by_cases hkind : e.kind = .alreadyExists
        · rw [if_pos hkind]
          refine Fallible.Safe.mono (ih (w.setCounter (counter + 1)) hpid hfloor hclean) ?_ ?_
          · intro p w' h
            exact ⟨h.onlyTemp, h.file, h.data_eq, h.next_le, habove.trans h.above, h.final_eq⟩
          · intro e w' h
            exact ⟨habove.trans h.1, h.2.1, fun _ => hreason'⟩
        · rw [if_neg hkind]
          exact Fallible.Safe.throw ⟨habove, rfl, fun _ => hreason'⟩

/-- `create_temp_file` finds a free name next to the final path, or leaves everything alone. -/
lemma createTempFile_safe {path : Path} (hpath : path = job.final) (hfloor : job.floor ≤ w.next)
    (hclean : Clean job w) :
    Fallible.Safe (FsStep mayFail) job.Allows (createTempFile path)
      (fun p w' => NewTemp job w w' p.2 p.1)
      (fun _ w' => Above job.floor job.final w w' ∧ w'.dir = w.dir ∧
        ((∃ c, mayFail c) ∨ ∃ counter, w.dir (tempPathOf path w.pid counter) ≠ none)) w := by
  unfold createTempFile
  refine Fallible.Safe.bind (Fallible.Safe.lift (Program.Safe.request trivial ?_))
  intro pid w₁ hpid
  obtain ⟨rfl, rfl⟩ := hpid.processId_inv
  refine Fallible.Safe.mono (tryNames_safe hpath 32 w₁ rfl hfloor hclean) (fun _ _ h => h) ?_
  intro e w' h
  exact ⟨h.1, h.2.1, h.2.2 (by omega)⟩

/-- A new writer has the sections and settings of its options and the layout computed for them. -/
structure Created (options : CreateOptions) (writer : ObjectWriter) : Prop where
  layout_eq : options.layout.checkedCompute (size options.metadata) (size options.tags) =
    .ok writer.layout
  layoutOptions_eq : writer.layoutOptions = options.layout
  compression_eq : writer.compression = options.compression
  metadata_eq : writer.metadata = options.metadata
  tags_eq : writer.tags = options.tags
  sync_eq : writer.sync = options.sync
  allowRawWrites_eq : writer.allowRawWrites = options.compression.isNone
  contentLength_eq : writer.contentLength = 0
  deferred_eq : writer.deferred = none

/-- Why creating a writer may fail. -/
def CreateRefused (mayFail : FsCall → Prop) (flavor : Flavor) (path : Path)
    (options : CreateOptions) (w : World) : Prop :=
  isSupported options.compression = false ∨
  (flavor = .tokio ∧ options.compression ≠ .none) ∨
  (∃ e, options.layout.checkedCompute (size options.metadata) (size options.tags) = .error e) ∨
  (∃ c, mayFail c) ∨ ∃ counter, w.dir (tempPathOf path w.pid counter) ≠ none

/-- A new writer has one temporary file, with no content; a failed one leaves nothing. -/
lemma createAs_safe {flavor : Flavor} {path : Path} {options : CreateOptions}
    (hpath : path = job.final) (hfloor : job.floor ≤ w.next) (hclean : Clean job w) :
    Fallible.Safe (FsStep mayFail) job.Allows (ObjectWriter.createAs flavor path options)
      (fun self w' => Created options self ∧ (∃ temp, Writing job w' self temp []) ∧
        Above job.floor job.final w w' ∧ w'.dir job.final = w.dir job.final ∧ w.next ≤ self.file ∧
        (flavor = .tokio → options.compression = .none))
      (fun _ w' => Failed job mayFail w w' ∧ CreateRefused mayFail flavor path options w) w := by
  have hnothing : Failed job mayFail w w := ⟨Above.refl _ _ _, .inl rfl, fun _ => hclean⟩
  unfold ObjectWriter.createAs
  refine Fallible.Safe.bind (Fallible.Safe.ofExcept ?_)
  by_cases hsupported : isSupported options.compression
  swap
  · rw [ensureSupported, if_neg hsupported]
    exact ⟨hnothing, .inl (by simpa using hsupported)⟩
  rw [ensureSupported, if_pos hsupported]
  dsimp only
  by_cases hflavor : flavor = .tokio ∧ ¬ options.compression.isNone
  · rw [if_pos hflavor]
    refine Fallible.Safe.bind (Fallible.Safe.throw ⟨hnothing, .inr (.inl ⟨hflavor.1, ?_⟩)⟩)
    exact fun h => hflavor.2 (CompressionTypes.isNone_iff.mpr h)
  rw [if_neg hflavor]
  refine Fallible.Safe.bind (Fallible.Safe.ofExcept ?_)
  cases hlayout : options.layout.checkedCompute (size options.metadata) (size options.tags) with
  | error e => exact ⟨hnothing, .inr (.inr (.inl ⟨e, hlayout⟩))⟩
  | ok layout =>
      refine Fallible.Safe.bind (Fallible.Safe.mono (createTempFile_safe hpath hfloor hclean) ?_ ?_)
      swap
      · intro e w₁ h
        refine ⟨⟨h.1, .inl (congrFun h.2.1 _), ?_⟩, .inr (.inr (.inr h.2.2))⟩
        exact fun _ => fun hp hi => h.2.1 ▸ hclean hp hi
      rintro ⟨file, temp⟩ w₁ hnew
      refine Fallible.Safe.bind (Fallible.Safe.holding (Method.Safe.lift (seek_safe
        (toNat_uint32_le _) hnew.file ⟨_, hnew.file⟩ ?_ ?_)))
      · refine Fallible.Safe.pure
          ⟨⟨hlayout, rfl, rfl, rfl, rfl, rfl, rfl, rfl, rfl⟩, ⟨temp, ?_⟩, ?_, ?_, ?_, ?_⟩
        · exact ⟨rfl, hpath, hnew.onlyTemp.of_dir_eq rfl, World.seekTo_files_self hnew.file,
            hnew.data_eq, Nat.le_refl _, toNat_uint32_le _⟩
        · exact hnew.above.trans (Above.seekTo _ _)
        · exact hnew.final_eq
        · exact hnew.next_le
        · intro htokio
          by_contra hcompressed
          exact hflavor ⟨htokio, fun hnone => hcompressed (CompressionTypes.isNone_iff.mp hnone)⟩
      · intro hfail e
        refine Program.Safe.mono ?_ (Unfinished.drop
          (show Unfinished job mayFail w _ w₁ from ⟨hnew.above, .inl hnew.final_eq,
            .inl ⟨temp, file, rfl, hnew.onlyTemp.toHasTemp, fun _ => hnew.onlyTemp⟩⟩))
        exact fun _ w₂ h => ⟨h, .inr (.inr (.inr (.inl ⟨_, hfail⟩)))⟩

/-! ## Writing -/

/-- Only the file behind one handle, and where that handle stands, has changed. -/
structure OnlyFile (fd : ℕ) (w w' : World) : Prop where
  next_eq : w'.next = w.next
  dir_eq : w'.dir = w.dir
  inodes : ∀ {i}, i ≠ fd → w'.inodes i = w.inodes i
  files : ∀ {fd'}, fd' ≠ fd → w'.files fd' = w.files fd'

namespace OnlyFile

variable {fd : ℕ} {w₁ w₂ : World}

lemma refl (fd : ℕ) (w : World) : OnlyFile fd w w := ⟨rfl, rfl, fun _ => rfl, fun _ => rfl⟩

lemma trans (h₁ : OnlyFile fd w w₁) (h₂ : OnlyFile fd w₁ w₂) : OnlyFile fd w w₂ :=
  ⟨h₂.next_eq.trans h₁.next_eq, h₂.dir_eq.trans h₁.dir_eq,
    fun hi => (h₂.inodes hi).trans (h₁.inodes hi), fun hfd => (h₂.files hfd).trans (h₁.files hfd)⟩

lemma seekTo (fd pos : ℕ) : OnlyFile fd w (w.seekTo fd pos) :=
  ⟨rfl, rfl, fun _ => rfl, fun h => World.seekTo_files_of_ne h _⟩

lemma put (fd pos : ℕ) (writable : Bool) (bs : List UInt8) :
    OnlyFile fd w (w.put fd ⟨fd, pos, writable⟩ bs) :=
  ⟨rfl, rfl, fun hi => World.put_inodes_of_ne fd hi bs, fun h => World.put_files_of_ne h _ bs⟩

lemma setInode (i : ℕ) (inode : Inode) : OnlyFile i w (w.setInode i inode) :=
  ⟨rfl, rfl, fun h => World.setInode_inodes_of_ne h inode, fun _ => rfl⟩

lemma above {n : ℕ} (hn : n ≤ fd) (final : Path) (h : OnlyFile fd w w₁) :
    Above n final w w₁ where
  next_le := Nat.le_of_eq h.next_eq.symm
  files hfd hf := ⟨_, (h.files (by omega)).trans hf⟩
  inodes hi := h.inodes (by omega)
  dir _ _ := by rw [h.dir_eq]

end OnlyFile

/-- What a live writer knows is about its file. -/
lemma Writing.of_same {self' : ObjectWriter} (h : Writing job w self temp content)
    (htemp : self'.tempPath = self.tempPath) (hfinal : self'.finalPath = self.finalPath)
    (hfile : self'.file = self.file) (hlayout : self'.layout = self.layout)
    (hlength : self.contentLength ≤ self'.contentLength) : Writing job w self' temp content where
  tempPath_eq := htemp.trans h.tempPath_eq
  finalPath_eq := hfinal.trans h.finalPath_eq
  onlyTemp := hfile ▸ h.onlyTemp
  file := by
    rw [hfile, hlayout]
    exact h.file
  data_eq := by
    rw [hfile, hlayout]
    exact h.data_eq
  length_le := Nat.le_trans h.length_le hlength
  end_le := hlayout ▸ h.end_le

/-- Bytes written where the writer stands are content, whatever more it counts. -/
lemma Writing.put (h : Writing job w self temp content) {bs : List UInt8} {n : ℕ}
    (hn : bs.length ≤ n)
    (hlen : self.layout.contentStart.toNat + content.length + bs.length ≤ maxFileLength) :
    Writing job (w.put self.file
      ⟨self.file, self.layout.contentStart.toNat + content.length, true⟩ bs)
      (self.addLength n) temp (content ++ bs) where
  tempPath_eq := h.tempPath_eq
  finalPath_eq := h.finalPath_eq
  onlyTemp := h.onlyTemp.of_dir_eq rfl
  file := by
    show (w.put self.file _ bs).files self.file = _
    rw [World.put_files_self h.file, List.length_append, ← Nat.add_assoc]
    rfl
  data_eq := by
    refine (World.put_data_self self.file _ bs).trans ?_
    dsimp only
    rw [h.data_eq, overwrite_overwrite_append]
    rfl
  length_le := by
    rw [List.length_append]
    exact Nat.add_le_add h.length_le hn
  end_le := by
    rw [List.length_append, ← Nat.add_assoc]
    exact hlen

/-- A handle of someone else may move. -/
lemma Writing.seekTo (h : Writing job w self temp content) {fd : ℕ} (hfd : self.file ≠ fd)
    (pos : ℕ) : Writing job (w.seekTo fd pos) self temp content :=
  ⟨h.tempPath_eq, h.finalPath_eq, h.onlyTemp.of_dir_eq rfl,
    (World.seekTo_files_of_ne hfd pos).trans h.file, h.data_eq, h.length_le, h.end_le⟩

/-- Why a write may fail: the writer rejects it, or the file system does. -/
def WriteRefused (mayFail : FsCall → Prop) (writer : ObjectWriter) (e : IoError) : Prop :=
  writer.allowRawWrites = false ∧ e = ObjectWriter.rawWriteRejected ∨
    writer.allowRawWrites = true ∧ ((∃ c, mayFail c) ∨ e = fileTooLarge)

/-- Why bytes may not get behind the content: a call fails, the writer rejects raw writes or no file
is as long. -/
def BytesRefused (mayFail : FsCall → Prop) (writer : ObjectWriter) (content bs : List UInt8) :
    Prop :=
  (∃ c, mayFail c) ∨ writer.allowRawWrites = false ∨
    maxFileLength < writer.layout.contentStart.toNat + content.length + bs.length

/-- Why the file system may not store bytes behind the content: a call fails, or no file is as
long. -/
def StoreRefused (mayFail : FsCall → Prop) (writer : ObjectWriter) (content bs : List UInt8)
    (e : IoError) : Prop :=
  (∃ c, mayFail c) ∨
    maxFileLength < writer.layout.contentStart.toNat + content.length + bs.length ∧ e = fileTooLarge

namespace BytesRefused

variable {writer : ObjectWriter} {a b : List UInt8}

/-- What is refused is refused with more behind it. -/
lemma append (h : BytesRefused mayFail writer content a) :
    BytesRefused mayFail writer content (a ++ b) := by
  rcases h with hfail | hraw | hlong
  · exact .inl hfail
  · exact .inr (.inl hraw)
  · refine .inr (.inr ?_)
    rw [List.length_append]
    omega

/-- What is refused behind bytes that were taken is refused along with them. -/
lemma prepend {n : ℕ} (h : BytesRefused mayFail (writer.addLength n) (content ++ a) b) :
    BytesRefused mayFail writer content (a ++ b) := by
  rcases h with hfail | hraw | hlong
  · exact .inl hfail
  · exact .inr (.inl hraw)
  · refine .inr (.inr ?_)
    rw [ObjectWriter.addLength_layout, List.length_append] at hlong
    rw [List.length_append]
    omega

end BytesRefused

/-- `write` appends a part of the buffer to the content, or changes nothing. -/
lemma write_safe (h : Writing job w self temp content) (buf : List UInt8) :
    Method.Safe (FsStep mayFail) job.Allows (ObjectWriter.write buf) self
      (fun m self' w' => self.allowRawWrites = true ∧ m ≤ buf.length ∧ (buf ≠ [] → 0 < m) ∧
        (m = buf.length ∨ ∃ c, mayFail c) ∧ self' = self.addLength m ∧
        Writing job w' self' temp (content ++ buf.take m) ∧ OnlyFile self.file w w')
      (fun e self' w' => self' = self ∧ w' = w ∧ WriteRefused mayFail self e ∧
        BytesRefused mayFail self content buf) w := by
  unfold ObjectWriter.write
  refine Method.Safe.bind (Method.Safe.get ?_)
  by_cases hraw : self.allowRawWrites = true
  swap
  · dsimp only
    have hclosed : self.allowRawWrites = false := by simpa using hraw
    rw [if_pos hraw]
    exact Method.Safe.bind
      (Method.Safe.throw ⟨rfl, rfl, .inl ⟨hclosed, rfl⟩, .inr (.inl hclosed)⟩)
  dsimp only
  rw [if_neg (not_not_intro hraw)]
  refine Method.Safe.bind (Method.Safe.lift (Fallible.Safe.attempt (Program.Safe.request
    ⟨_, temp, h.file, h.onlyTemp.temp_ne, h.onlyTemp.entry, h.onlyTemp.floor_le⟩ ?_)))
  intro r w' hstep
  obtain ⟨m, hm, hall, hlen, rfl, rfl⟩ | ⟨e, hreason, rfl, rfl⟩ := hstep.write_inv h.file rfl
  · have htake : (buf.take m).length = m := by
      rw [List.length_take]
      omega
    have hput := h.put (Nat.le_of_eq htake) (by rw [htake]; exact hlen)
    refine Method.Safe.bind (Method.Safe.modify (Method.Safe.pure ?_))
    refine ⟨hraw, hm, ?_, hall.imp_right fun h => ⟨_, h.2⟩, rfl, hput, OnlyFile.put _ _ _ _⟩
    intro hbuf
    rcases hall with rfl | ⟨hpos, _⟩
    · exact List.length_pos_iff.mpr hbuf
    · exact hpos
  · exact ⟨rfl, rfl, .inr ⟨hraw, hreason.imp (fun h => ⟨_, h⟩) fun h => h.2⟩,
      hreason.imp (fun h => ⟨_, h⟩) fun h => .inr h.1⟩

/-- A buffered write counts the bytes it takes. They are content then, or a part of them is and the
file withholds an error; an error that it has withheld is all that the next write comes to. -/
lemma bufferedWrite_safe (h : Writing job w self temp content) (buf : List UInt8) :
    Method.Safe (FsStep mayFail) job.Allows (ObjectWriter.bufferedWrite buf) self
      (fun m self' w' => self.deferred = none ∧ m = (buf.take maxBufSize).length ∧
        OnlyFile self.file w w' ∧
        (self' = self.addLength m ∧ Writing job w' self' temp (content ++ buf.take maxBufSize) ∨
          ∃ e k, StoreRefused mayFail self content (buf.take maxBufSize) e ∧
            self' = (self.addLength m).setDeferred (some e) ∧
            Writing job w' self' temp (content ++ (buf.take maxBufSize).take k)))
      (fun e self' w' => self.deferred = some e ∧ self' = self.setDeferred none ∧ w' = w) w := by
  unfold ObjectWriter.bufferedWrite
  refine Method.Safe.bind (Method.Safe.get ?_)
  cases hdeferred : self.deferred with
  | some err =>
      exact Method.Safe.bind (Method.Safe.modify (Method.Safe.throw ⟨rfl, rfl, rfl⟩))
  | none =>
      refine Method.Safe.bind (Method.Safe.liftProgram (Program.Safe.request
        ⟨_, temp, h.file, h.onlyTemp.temp_ne, h.onlyTemp.entry, h.onlyTemp.floor_le⟩ ?_))
      generalize buf.take maxBufSize = chunk
      intro r w' hstep
      refine Method.Safe.bind (Method.Safe.modify (Method.Safe.bind (Method.Safe.modify
        (Method.Safe.pure ?_))))
      obtain ⟨hlen, rfl, rfl⟩ | ⟨e, hreason, rfl, hpart⟩ := hstep.writeAll_inv h.file rfl
      · have hself : self.setDeferred (errorOf (Except.ok ())) = self := by
          rw [errorOf, ← hdeferred]
          rfl
        rw [hself]
        exact ⟨rfl, rfl, OnlyFile.put _ _ _ _, .inl ⟨rfl, h.put (Nat.le_refl _) hlen⟩⟩
      · have hrefused : StoreRefused mayFail self content chunk e :=
          hreason.imp_left fun hfail => ⟨_, hfail⟩
        rcases hpart with rfl | ⟨k, hk, hend, rfl⟩
        · refine ⟨rfl, rfl, OnlyFile.refl _ _, .inr ⟨e, 0, hrefused, rfl, ?_⟩⟩
          rw [List.take_zero, List.append_nil]
          exact h.of_same rfl rfl rfl rfl (Nat.le_add_right _ _)
        · have htake : (chunk.take k).length = k := List.length_take_of_le hk
          refine ⟨rfl, rfl, OnlyFile.put _ _ _ _, .inr ⟨e, k, hrefused, rfl, ?_⟩⟩
          exact (h.put (n := chunk.length) (htake.symm ▸ hk) (htake.symm ▸ hend)).of_same
            rfl rfl rfl rfl (Nat.le_refl _)

/-! ## What a writer has taken -/

/-- The file of a tokio writer withholds an error. -/
def ObjectWriter.Withholds (flavor : Flavor) (self : ObjectWriter) : Prop :=
  flavor = .tokio ∧ self.deferred ≠ none

/-- The error that a call returns is the one that the file has withheld. -/
def ObjectWriter.HandsOut (flavor : Flavor) (self : ObjectWriter) (e : ObjectFileError) : Prop :=
  flavor = .tokio ∧ ∃ err, self.deferred = some err ∧ e = .io err

lemma ObjectWriter.HandsOut.withholds {flavor : Flavor} {e : ObjectFileError}
    (h : self.HandsOut flavor e) : self.Withholds flavor := by
  obtain ⟨htokio, err, hdeferred, _⟩ := h
  refine ⟨htokio, ?_⟩
  rw [hdeferred]
  exact nofun

lemma ObjectWriter.not_withholds_blocking (self : ObjectWriter) : ¬ self.Withholds .blocking :=
  fun h => by cases h.1

/-- From `writer` on the bytes `bs` were taken: they are behind the content, or the file withholds
an error. -/
structure HasTaken (flavor : Flavor) (mayFail : FsCall → Prop) (job : Job) (writer : ObjectWriter)
    (temp : Path) (content bs : List UInt8) (w : World) (writer' : ObjectWriter) : Prop where
  writer_eq : writer' = (writer.addLength bs.length).setDeferred writer'.deferred
  deferred_eq : flavor = .blocking → writer'.deferred = writer.deferred
  writing : ∃ stored, Writing job w writer' temp stored ∧
    (¬ writer'.Withholds flavor → stored = content ++ bs)
  refused : writer'.Withholds flavor → bs ≠ [] ∧ BytesRefused mayFail writer content bs

namespace HasTaken

variable {flavor : Flavor} {self₁ : ObjectWriter} {bs : List UInt8}

lemma refl (h : Writing job w self temp content) (hdeferred : ¬ self.Withholds flavor) :
    HasTaken flavor mayFail job self temp content [] w self :=
  ⟨rfl, fun _ => rfl, ⟨content, h, fun _ => (List.append_nil _).symm⟩,
    fun hwithholds => absurd hwithholds hdeferred⟩

/-- Where no error is withheld, the bytes are content. -/
lemma settled (h : HasTaken flavor mayFail job self temp content bs w self₁)
    (hdeferred : ¬ self₁.Withholds flavor) :
    self₁ = (self.addLength bs.length).setDeferred self₁.deferred ∧
      Writing job w self₁ temp (content ++ bs) := by
  obtain ⟨stored, hwriting, hstored⟩ := h.writing
  exact ⟨h.writer_eq, hstored hdeferred ▸ hwriting⟩

/-- A blocking writer withholds nothing. -/
lemma blocking (h : HasTaken .blocking mayFail job self temp content bs w self₁) :
    self₁ = self.addLength bs.length ∧ Writing job w self₁ temp (content ++ bs) := by
  obtain ⟨hwriter, hwriting⟩ := h.settled (ObjectWriter.not_withholds_blocking _)
  refine ⟨?_, hwriting⟩
  rw [h.deferred_eq rfl] at hwriter
  exact hwriter

lemma file_eq (h : HasTaken flavor mayFail job self temp content bs w self₁) :
    self₁.file = self.file := by
  rw [h.writer_eq]
  rfl

/-- A handle of someone else may move. -/
lemma seekTo (h : HasTaken flavor mayFail job self temp content bs w self₁) {fd : ℕ}
    (hfd : self.file ≠ fd) (pos : ℕ) :
    HasTaken flavor mayFail job self temp content bs (w.seekTo fd pos) self₁ := by
  obtain ⟨stored, hwriting, hstored⟩ := h.writing
  exact ⟨h.writer_eq, h.deferred_eq, ⟨stored, hwriting.seekTo (h.file_eq ▸ hfd) pos, hstored⟩,
    h.refused⟩

end HasTaken

section taking

variable {flavor : Flavor} {self₁ : ObjectWriter} {bs : List UInt8}

/-- `write` of either writer takes a part of the buffer. -/
lemma writeAs_taken (h : HasTaken flavor mayFail job self temp content bs w self₁)
    {buf : List UInt8} (hbuf : buf ≠ []) :
    Method.Safe (FsStep mayFail) job.Allows (ObjectWriter.writeAs flavor buf) self₁
      (fun m self' w' => 0 < m ∧ m ≤ buf.length ∧
        (flavor = .blocking → self.allowRawWrites = true) ∧
        HasTaken flavor mayFail job self temp content (bs ++ buf.take m) w' self' ∧
        OnlyFile self.file w w')
      (fun e self' w' => (∃ stored, Writing job w' self' temp stored) ∧ w' = w ∧
        BytesRefused mayFail self content (bs ++ buf) ∧
        (flavor = .blocking → self' = self₁ ∧ WriteRefused mayFail self e)) w := by
  cases flavor with
  | blocking =>
      obtain ⟨rfl, hwriting⟩ := h.blocking
      refine Method.Safe.mono (write_safe hwriting buf) ?_ ?_
      · rintro m self' w' ⟨hraw, hm, hpos, _, rfl, hwriting', honly⟩
        refine ⟨hpos hbuf, hm, fun _ => hraw, ⟨?_, fun _ => rfl, ?_, nofun⟩, honly⟩
        · rw [List.length_append, List.length_take_of_le hm]
          simp only [ObjectWriter.addLength, ObjectWriter.setDeferred, Nat.add_assoc]
        · exact ⟨_, hwriting', fun _ => List.append_assoc _ _ _⟩
      · rintro e self' w' ⟨rfl, rfl, hreason, hrefused⟩
        exact ⟨⟨_, hwriting⟩, rfl, hrefused.prepend, fun _ => ⟨rfl, hreason⟩⟩
  | tokio =>
      obtain ⟨stored, hwriting, hstored⟩ := h.writing
      have hlayout : self₁.layout = self.layout := by
        rw [h.writer_eq]
        rfl
      refine Method.Safe.mono (bufferedWrite_safe hwriting buf) ?_ ?_
      · rintro m self' w' ⟨hnone, rfl, honly, htaken⟩
        obtain rfl := hstored fun hwithholds => hwithholds.2 hnone
        have htake : buf.take (buf.take maxBufSize).length = buf.take maxBufSize := by
          rw [List.length_take, List.take_eq_take_iff]
          omega
        have hcount : self₁.addLength (buf.take maxBufSize).length =
            (self.addLength (bs ++ buf.take maxBufSize).length).setDeferred none := by
          rw [h.writer_eq, hnone, List.length_append]
          simp only [ObjectWriter.addLength, ObjectWriter.setDeferred, Nat.add_assoc]
        have hpos : 0 < (buf.take maxBufSize).length := by
          have := List.length_pos_iff.mpr hbuf
          rw [List.length_take]
          exact Nat.lt_min.mpr ⟨by decide, this⟩
        refine ⟨hpos, List.length_take_le' _ _, nofun, ?_, h.file_eq ▸ honly⟩
        rw [htake]
        obtain ⟨rfl, hwriting'⟩ | ⟨e, k, hreason, rfl, hwriting'⟩ := htaken
        · refine ⟨?_, nofun, ⟨_, hwriting', fun _ => List.append_assoc _ _ _⟩, ?_⟩
          · rw [hcount]
            rfl
          · exact fun hwithholds => absurd hnone hwithholds.2
        · refine ⟨?_, nofun, ⟨_, hwriting', fun hnot => absurd ⟨rfl, nofun⟩ hnot⟩,
            fun _ => ⟨?_, ?_⟩⟩
          · rw [hcount]
            rfl
          · simp [List.ne_nil_of_length_pos hpos]
          · refine hreason.imp_right fun hlong => .inr ?_
            have := hlong.1
            rw [hlayout, List.length_append] at this
            rw [List.length_append]
            omega
      · rintro e self' w' ⟨hsome, rfl, rfl⟩
        have hwithholds : self₁.Withholds .tokio := ⟨rfl, by rw [hsome]; exact nofun⟩
        exact ⟨⟨stored, hwriting.of_same rfl rfl rfl rfl (Nat.le_refl _)⟩, rfl,
          (h.refused hwithholds).2.append, nofun⟩

/-- The loop of `write_all`, with enough calls to go. -/
lemma writeAllLoop_taken (n : ℕ) (buf : List UInt8) (hn : buf.length ≤ n)
    (h : HasTaken flavor mayFail job self temp content bs w self₁) :
    Method.Safe (FsStep mayFail) job.Allows (ObjectWriter.writeAllLoop flavor n buf) self₁
      (fun _ self' w' => (flavor = .blocking → buf ≠ [] → self.allowRawWrites = true) ∧
        HasTaken flavor mayFail job self temp content (bs ++ buf) w' self' ∧
        OnlyFile self.file w w')
      (fun e self' w' => (∃ stored, Writing job w' self' temp stored) ∧ OnlyFile self.file w w' ∧
        buf ≠ [] ∧ BytesRefused mayFail self content (bs ++ buf) ∧
        (flavor = .blocking → WriteRefused mayFail self e ∧ ∃ m ≤ buf.length,
          HasTaken flavor mayFail job self temp content (bs ++ buf.take m) w' self')) w := by
  induction n generalizing w self₁ bs buf with
  | zero =>
      obtain rfl := List.length_eq_zero_iff.mp (Nat.le_zero.mp hn)
      refine Method.Safe.pure ⟨fun _ h => absurd rfl h, ?_, OnlyFile.refl _ _⟩
      rwa [List.append_nil]
  | succ n ih =>
      unfold ObjectWriter.writeAllLoop
      by_cases hbuf : buf = []
      · subst hbuf
        refine Method.Safe.pure ⟨fun _ h => absurd rfl h, ?_, OnlyFile.refl _ _⟩
        rwa [List.append_nil]
      rw [if_neg (by simpa using hbuf)]
      refine Method.Safe.bind (Method.Safe.mono (writeAs_taken h hbuf) ?_ ?_)
      swap
      · rintro e self' w' ⟨hlive, rfl, hrefused, hreason⟩
        refine ⟨hlive, OnlyFile.refl _ _, hbuf, hrefused, fun hblocking => ?_⟩
        obtain ⟨rfl, hwhy⟩ := hreason hblocking
        refine ⟨hwhy, 0, Nat.zero_le _, ?_⟩
        rwa [List.take_zero, List.append_nil]
      rintro m self' w' ⟨hpos, hm, hraw, htaken, honly⟩
      rw [if_neg (by omega)]
      have hdrop : (buf.drop m).length ≤ n := by
        rw [List.length_drop]
        omega
      have hsplit : ∀ rest, bs ++ buf.take m ++ (buf.drop m).take rest =
          bs ++ buf.take (m + rest) := by
        intro rest
        rw [List.take_add, List.append_assoc]
      have hall : bs ++ buf.take m ++ buf.drop m = bs ++ buf := by
        rw [List.append_assoc, List.take_append_drop]
      refine Method.Safe.mono (ih (buf.drop m) hdrop htaken) ?_ ?_
      · rintro _ self'' w'' ⟨_, htaken', honly'⟩
        rw [hall] at htaken'
        exact ⟨fun hblocking _ => hraw hblocking, htaken', honly.trans honly'⟩
      · rintro e self'' w'' ⟨hlive, honly', _, hrefused, hreason⟩
        rw [hall] at hrefused
        refine ⟨hlive, honly.trans honly', hbuf, hrefused, fun hblocking => ?_⟩
        obtain ⟨hreason, k, hk, htaken'⟩ := hreason hblocking
        rw [List.length_drop] at hk
        exact ⟨hreason, m + k, by omega, hsplit k ▸ htaken'⟩

end taking

/-- `write_all` of the blocking writer takes all bytes, or a part of them when it fails. -/
lemma writerWriteAll_safe (h : Writing job w self temp content) (buf : List UInt8) :
    Method.Safe (FsStep mayFail) job.Allows (ObjectWriter.writeAll buf) self
      (fun _ self' w' => self' = self.addLength buf.length ∧
        Writing job w' self' temp (content ++ buf) ∧ OnlyFile self.file w w')
      (fun e self' w' => (∃ m ≤ buf.length, self' = self.addLength m ∧
        Writing job w' self' temp (content ++ buf.take m)) ∧ OnlyFile self.file w w' ∧
        WriteRefused mayFail self e) w := by
  have hnothing : HasTaken .blocking mayFail job self temp content [] w self :=
    HasTaken.refl h (ObjectWriter.not_withholds_blocking _)
  refine Method.Safe.mono (writeAllLoop_taken buf.length buf (Nat.le_refl _) hnothing) ?_ ?_
  · rintro _ self' w' ⟨_, htaken, honly⟩
    exact ⟨htaken.blocking.1, htaken.blocking.2, honly⟩
  · rintro e self' w' ⟨_, honly, _, _, hreason⟩
    obtain ⟨hreason, m, hm, htaken⟩ := hreason rfl
    rw [List.nil_append] at htaken
    obtain ⟨hwriter, hwriting⟩ := htaken.blocking
    rw [List.length_take_of_le hm] at hwriter
    exact ⟨⟨m, hm, hwriter, hwriting⟩, honly, hreason⟩

/-- `flush` of the blocking writer changes nothing. -/
lemma writerFlush_safe (h : Writing job w self temp content) :
    Method.Safe (FsStep mayFail) job.Allows ObjectWriter.flush self
      (fun _ self' w' => self' = self ∧ w' = w)
      (fun _ self' w' => self' = self ∧ w' = w ∧ ∃ c, mayFail c) w := by
  unfold ObjectWriter.flush
  refine Method.Safe.bind (Method.Safe.get (Method.Safe.lift (Fallible.Safe.attempt
    (Program.Safe.request h.allows ?_))))
  intro r w' hstep
  obtain ⟨rfl, rfl | ⟨hfail, e, rfl⟩⟩ := hstep.flush_inv
  · exact ⟨rfl, rfl⟩
  · exact ⟨rfl, rfl, _, hfail⟩

/-- `flush` of the tokio writer hands out the error that the file withholds. -/
lemma bufferedFlush_safe (h : Writing job w self temp content) :
    Method.Safe (FsStep mayFail) job.Allows ObjectWriter.bufferedFlush self
      (fun _ self' w' => self.deferred = none ∧ self' = self ∧ w' = w)
      (fun e self' w' => w' = w ∧ (self.deferred = some e ∧ self' = self.setDeferred none ∨
        self.deferred = none ∧ self' = self ∧ ∃ c, mayFail c)) w := by
  unfold ObjectWriter.bufferedFlush
  refine Method.Safe.bind (Method.Safe.get ?_)
  cases hdeferred : self.deferred with
  | some err =>
      exact Method.Safe.bind (Method.Safe.modify (Method.Safe.throw ⟨rfl, .inl ⟨rfl, rfl⟩⟩))
  | none =>
      refine Method.Safe.lift (Fallible.Safe.attempt (Program.Safe.request h.allows ?_))
      intro r w' hstep
      obtain ⟨rfl, rfl | ⟨hfail, e, rfl⟩⟩ := hstep.flush_inv
      · exact ⟨rfl, rfl, rfl⟩
      · exact ⟨rfl, .inr ⟨rfl, rfl, _, hfail⟩⟩

/-- Behind a `flush` no error is withheld. -/
lemma flushAs_safe {flavor : Flavor} (h : Writing job w self temp content) :
    Method.Safe (FsStep mayFail) job.Allows (ObjectWriter.flushAs flavor) self
      (fun _ self' w' => self' = self ∧ w' = w ∧ ¬ self.Withholds flavor)
      (fun e self' w' => Writing job w' self' temp content ∧ w' = w ∧
        ((∃ c, mayFail c) ∨ self.HandsOut flavor (.io e))) w := by
  cases flavor with
  | blocking =>
      refine Method.Safe.mono (writerFlush_safe h) ?_ ?_
      · rintro _ self' w' ⟨rfl, rfl⟩
        exact ⟨rfl, rfl, nofun⟩
      · rintro e self' w' ⟨rfl, rfl, hfail⟩
        exact ⟨h, rfl, .inl hfail⟩
  | tokio =>
      refine Method.Safe.mono (bufferedFlush_safe h) ?_ ?_
      · rintro _ self' w' ⟨hnone, rfl, rfl⟩
        exact ⟨rfl, rfl, fun hwithholds => hwithholds.2 hnone⟩
      · rintro e self' w' ⟨rfl, ⟨hsome, rfl⟩ | ⟨_, rfl, hfail⟩⟩
        · exact ⟨h.of_same rfl rfl rfl rfl (Nat.le_refl _), rfl, .inr ⟨rfl, e, hsome, rfl⟩⟩
        · exact ⟨h, rfl, .inl hfail⟩

/-! ## Copying -/

/-- Only the file behind one handle has changed, and where handles stand. -/
structure Beside (fd : ℕ) (w w' : World) : Prop where
  next_eq : w'.next = w.next
  dir_eq : w'.dir = w.dir
  inodes : ∀ {i}, i ≠ fd → w'.inodes i = w.inodes i
  files : ∀ {fd' f}, fd' ≠ fd → w.files fd' = some f →
    ∃ pos, w'.files fd' = some { f with pos := pos }

namespace Beside

variable {fd : ℕ} {w₁ w₂ : World}

lemma trans (h₁ : Beside fd w w₁) (h₂ : Beside fd w₁ w₂) : Beside fd w w₂ where
  next_eq := h₂.next_eq.trans h₁.next_eq
  dir_eq := h₂.dir_eq.trans h₁.dir_eq
  inodes hi := (h₂.inodes hi).trans (h₁.inodes hi)
  files hfd hf := by
    obtain ⟨_, hf₁⟩ := h₁.files hfd hf
    obtain ⟨pos, hf₂⟩ := h₂.files hfd hf₁
    exact ⟨pos, hf₂⟩

lemma seekTo (fd fd' pos : ℕ) (w : World) : Beside fd w (w.seekTo fd' pos) where
  next_eq := rfl
  dir_eq := rfl
  inodes _ := rfl
  files {fd'' f} _ hf := by
    by_cases h : fd'' = fd'
    · subst h
      exact ⟨pos, World.seekTo_files_self hf⟩
    · exact ⟨f.pos, (World.seekTo_files_of_ne h pos).trans hf⟩

lemma refl (fd : ℕ) (w : World) : Beside fd w w := ⟨rfl, rfl, fun _ => rfl, fun _ h => ⟨_, h⟩⟩

lemma above {n : ℕ} (hn : n ≤ fd) (final : Path) (h : Beside fd w w₁) : Above n final w w₁ where
  next_le := Nat.le_of_eq h.next_eq.symm
  files hfd hf := h.files (by omega) hf
  inodes hi := h.inodes (by omega)
  dir _ _ := by rw [h.dir_eq]

end Beside

lemma OnlyFile.beside {fd : ℕ} {w' : World} (h : OnlyFile fd w w') : Beside fd w w' :=
  ⟨h.next_eq, h.dir_eq, h.inodes, fun hfd hf => ⟨_, (h.files hfd).trans hf⟩⟩

/-- The loop of `copy`, with enough reads to go, takes what the source still holds. -/
lemma copyLoop_taken {flavor : Flavor} {self₁ : ObjectWriter} {bs : List UInt8} (n : ℕ)
    {reader : ContentReader} {f : OpenFile} (hn : reader.remaining < n)
    (hf : w.files reader.file = some f) (hinode : f.inode ≠ self.file)
    (hne : self.file ≠ reader.file)
    (h : HasTaken flavor mayFail job self temp content bs w self₁) {rest : List UInt8}
    (hrest : rest = ((w.data f.inode).drop f.pos).take reader.remaining) :
    Method.Safe (FsStep mayFail) job.Allows (ObjectWriter.copyLoop flavor n reader) self₁
      (fun _ self' w' => (flavor = .blocking → rest ≠ [] → self.allowRawWrites = true) ∧
        HasTaken flavor mayFail job self temp content (bs ++ rest) w' self' ∧
        Beside self.file w w')
      (fun _ self' w' => (∃ stored, Writing job w' self' temp stored) ∧ Beside self.file w w' ∧
        ((∃ c, mayFail c) ∨ rest ≠ [] ∧ BytesRefused mayFail self content (bs ++ rest))) w := by
  induction n generalizing w self₁ bs reader f rest with
  | zero => omega
  | succ n ih =>
      unfold ObjectWriter.copyLoop
      refine Method.Safe.bind (Method.Safe.lift (Fallible.Safe.mono (Fallible.Safe.allow
        (fun _ _ => Reads.allows) (ContentReader.read_safe hf (by decide : 0 < copyBufferSize)))
        ?_ ?_))
      swap
      · rintro e w' ⟨rfl, hfail⟩
        obtain ⟨stored, hwriting, _⟩ := h.writing
        exact ⟨⟨stored, hwriting⟩, Beside.refl _ _, .inl hfail⟩
      rintro ⟨chunk, reader'⟩ _ ⟨m, hm, hchunk, hzero, hreader, rfl⟩
      dsimp only at hchunk hreader ⊢
      have h₁ := h.seekTo hne (f.pos + chunk.length)
      have hbeside₁ := Beside.seekTo self.file reader.file (f.pos + chunk.length) w
      have hsplit := ContentReader.rest_eq hm hrest hchunk
      by_cases hempty : chunk = []
      · -- the source is at its end
        subst hempty
        rw [if_pos List.isEmpty_nil, ContentReader.rest_nil hzero hrest hchunk]
        refine Method.Safe.pure ⟨fun _ h => absurd rfl h, ?_, hbeside₁⟩
        rwa [List.append_nil]
      have hne_nil : rest ≠ [] := by
        rw [hsplit]
        simp [hempty]
      rw [if_neg (by simpa using hempty)]
      refine Method.Safe.bind (Method.Safe.mono
        (writeAllLoop_taken chunk.length chunk (Nat.le_refl _) h₁) ?_ ?_)
      swap
      · rintro e self' w' ⟨hlive, honly, _, hrefused, _⟩
        refine ⟨hlive, hbeside₁.trans honly.beside, .inr ⟨hne_nil, ?_⟩⟩
        rw [hsplit, ← List.append_assoc]
        exact hrefused.append
      rintro _ self' w₂ ⟨hraw, h₂, honly⟩
      have hpos : 0 < chunk.length := List.length_pos_iff.mpr hempty
      have hf₂ : w₂.files reader'.file = some { f with pos := f.pos + chunk.length } := by
        rw [hreader]
        exact (honly.files (Ne.symm hne)).trans (World.seekTo_files_self hf)
      have hdata₂ : w₂.data f.inode = w.data f.inode :=
        congrArg Inode.data (honly.inodes hinode)
      have hle : chunk.length ≤ reader.remaining := by
        rw [hchunk, List.length_take]
        omega
      have hremaining : reader'.remaining = reader.remaining - chunk.length :=
        congrArg ContentReader.remaining hreader
      have hrest₂ : ((w.data f.inode).drop (f.pos + chunk.length)).take
          (reader.remaining - chunk.length) =
          ((w₂.data f.inode).drop (f.pos + chunk.length)).take reader'.remaining := by
        rw [hdata₂, hremaining]
      have hne₂ : self.file ≠ reader'.file := by
        rw [hreader]
        exact hne
      refine Method.Safe.mono (ih (by omega) hf₂ hinode hne₂ h₂ hrest₂) ?_ ?_
      · rintro _ self'' w₃ ⟨_, h₃, hbeside₃⟩
        rw [List.append_assoc, ← hsplit] at h₃
        exact ⟨fun hblocking _ => hraw hblocking hempty, h₃,
          hbeside₁.trans (honly.beside.trans hbeside₃)⟩
      · rintro e self'' w₃ ⟨hlive, hbeside₃, hreason⟩
        refine ⟨hlive, hbeside₁.trans (honly.beside.trans hbeside₃), ?_⟩
        rcases hreason with hfail | ⟨_, hrefused⟩
        · exact .inl hfail
        · refine .inr ⟨hne_nil, ?_⟩
          rw [List.append_assoc, ← hsplit] at hrefused
          exact hrefused

/-- `copy` appends what the source still holds. -/
lemma copyAs_safe {flavor : Flavor} {reader : ContentReader} {f : OpenFile}
    (hf : w.files reader.file = some f) (hinode : f.inode ≠ self.file)
    (h : Writing job w self temp content) (hdeferred : ¬ self.Withholds flavor)
    {rest : List UInt8} (hrest : rest = ((w.data f.inode).drop f.pos).take reader.remaining) :
    Method.Safe (FsStep mayFail) job.Allows (ObjectWriter.copyAs flavor reader) self
      (fun _ self' w' => (flavor = .blocking → rest ≠ [] → self.allowRawWrites = true) ∧
        self' = self.addLength rest.length ∧ Writing job w' self' temp (content ++ rest) ∧
        Beside self.file w w')
      (fun _ self' w' => (∃ stored, Writing job w' self' temp stored) ∧ Beside self.file w w' ∧
        ((∃ c, mayFail c) ∨ rest ≠ [] ∧ BytesRefused mayFail self content rest)) w := by
  have hne : self.file ≠ reader.file := by
    intro heq
    have := h.file
    rw [heq, hf] at this
    cases this
    exact hinode heq.symm
  unfold ObjectWriter.copyAs
  refine Method.Safe.bind (Method.Safe.mono (copyLoop_taken (reader.remaining + 1)
    (Nat.lt_succ_self _) hf hinode hne (HasTaken.refl h hdeferred) hrest) ?_ ?_)
  swap
  · exact fun _ _ _ h => h
  rintro _ self' w' ⟨hraw, h', hbeside⟩
  cases flavor with
  | blocking => exact Method.Safe.pure ⟨hraw, h'.blocking.1, h'.blocking.2, hbeside⟩
  | tokio =>
      have hnone : self.deferred = none := by
        by_contra hsome
        exact hdeferred ⟨rfl, hsome⟩
      obtain ⟨stored, hwriting, _⟩ := h'.writing
      refine Method.Safe.mono (bufferedFlush_safe hwriting) ?_ ?_
      · rintro _ self'' w'' ⟨hflushed, rfl, rfl⟩
        obtain ⟨hwriter, hwriting'⟩ := h'.settled fun hwithholds => hwithholds.2 hflushed
        refine ⟨hraw, ?_, hwriting', hbeside⟩
        rw [hwriter, hflushed, ← hnone]
        rfl
      · rintro e self'' w'' ⟨rfl, ⟨hsome, rfl⟩ | ⟨_, rfl, hfail⟩⟩
        · refine ⟨⟨stored, hwriting.of_same rfl rfl rfl rfl (Nat.le_refl _)⟩, hbeside, .inr ?_⟩
          exact h'.refused ⟨rfl, by rw [hsome]; exact nofun⟩
        · exact ⟨⟨stored, hwriting⟩, hbeside, .inl hfail⟩

end TuxEncoding
