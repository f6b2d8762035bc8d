import TuxEncoding.Fs.Writer

/-!
# The contract of a writer

What a writer may do to a file system it shares, and what follows for everything that is not its
own. A `Job` names the path a writer publishes at, the number from which on handles and files are
its own, and the files it may publish.

* `Job.Allows` is the contract: a writer writes only to files of its own that are still behind a
  temporary path, renames only a file of its own that is fit to be published, and only over its
  final path, clones only a handle of the file it has published, and removes only temporary paths
  of its own.
* `Above` says what that leaves as it was, and `OnlyTemp` and `Clean` how many temporary files
  there are.
* `Writing` is what a live writer knows of its file: the content so far stands where the layout
  puts it and the handle stands behind it. `Unfinished.drop` is its destructor.
-/

namespace TuxEncoding

open Bytes Interaction Program

set_option linter.unusedSectionVars false

/-! ## The contract -/

/-- What a writer has set out to do. -/
structure Job where
  /-- Handles and files from this number on are the writer's own. -/
  floor : ℕ
  /-- Where it publishes. -/
  final : Path
  /-- The files it may publish. -/
  publishes : Inode → Prop

/-- The contract of a writer that starts in `w`: what is new from then on is its own. -/
@[simps] def Job.startedIn (w : World) (path : Path) (publishes : Inode → Prop) : Job where
  floor := w.next
  final := path
  publishes := publishes

/-- The path of the temporary file next to `path` with this counter. -/
def tempPathOf (path : Path) (pid counter : ℕ) : Path :=
  ⟨some (path.parent.getD ['.']), some (tempName (path.fileName.getD "object".toList) pid counter)⟩

/-- A temporary file is never the file it stands in for: its name is longer. -/
lemma tempPathOf_ne (path : Path) (pid counter : ℕ) : tempPathOf path pid counter ≠ path := by
  intro h
  have hname := congrArg Path.fileName h
  have hlen := congrArg (fun name => (name.getD "object".toList).length) hname
  simp only [tempPathOf, tempName, Option.getD_some, List.length_append, List.length_cons] at hlen
  omega

/-- The calls a writer may make. -/
def Job.Allows (job : Job) : FsCall → World → Prop
  | .processId, _ | .nextTempCounter, _ | .openDir _, _ | .syncDir _, _ => True
  | .openFile _ _, _ => False
  | .createNew path, w => ∃ counter, path = tempPathOf job.final w.pid counter
  | .seek fd _, w | .read fd _, w | .readExact fd _, w | .flush fd, w | .syncAll fd, w =>
      ∃ f, w.files fd = some f
  | .tryClone fd, w => ∃ f, w.files fd = some f ∧ w.dir job.final = some f.inode ∧
      job.floor ≤ f.inode
  | .write fd _, w | .writeAll fd _, w => ∃ f path, w.files fd = some f ∧ path ≠ job.final ∧
      w.dir path = some f.inode ∧ job.floor ≤ f.inode
  | .rename src dst, w => dst = job.final ∧ src ≠ job.final ∧
      ∃ i, w.dir src = some i ∧ job.floor ≤ i ∧ job.publishes (w.inodes i)
  | .removeFile path, w => path ≠ job.final ∧ ∃ i, w.dir path = some i ∧ job.floor ≤ i

/-- Owning less, a writer may do less. -/
lemma Job.Allows.mono {job job' : Job} (hfloor : job.floor ≤ job'.floor)
    (hfinal : job'.final = job.final) (hpub : ∀ n, job'.publishes n → job.publishes n) {c : FsCall}
    {w : World} (h : job'.Allows c w) : job.Allows c w := by
  cases c with
  | createNew path =>
      obtain ⟨counter, hpath⟩ := h
      exact ⟨counter, hfinal ▸ hpath⟩
  | tryClone fd =>
      obtain ⟨f, hf, hdir, hle⟩ := h
      exact ⟨f, hf, hfinal ▸ hdir, by omega⟩
  | write fd bs | writeAll fd bs =>
      obtain ⟨f, path, hf, hne, hdir, hle⟩ := h
      exact ⟨f, path, hf, hfinal ▸ hne, hdir, by omega⟩
  | rename src dst =>
      obtain ⟨hdst, hne, i, hdir, hle, hi⟩ := h
      exact ⟨hfinal ▸ hdst, hfinal ▸ hne, i, hdir, by omega, hpub _ hi⟩
  | removeFile path =>
      obtain ⟨hne, i, hdir, hle⟩ := h
      exact ⟨hfinal ▸ hne, i, hdir, by omega⟩
  | _ => exact h

/-! ## What stays as it was -/

/-- Everything numbered below `n` is as it was, up to where handles stand and up to the entry of
`final`. -/
structure Above (n : ℕ) (final : Path) (w w' : World) : Prop where
  next_le : w.next ≤ w'.next
  files : ∀ {fd f}, fd < n → w.files fd = some f → ∃ pos, w'.files fd = some { f with pos := pos }
  inodes : ∀ {i}, i < n → w'.inodes i = w.inodes i
  dir : ∀ {path i}, path ≠ final → i < n → (w'.dir path = some i ↔ w.dir path = some i)

namespace Above

variable {n : ℕ} {final : Path} {w w₁ w₂ : World}

lemma refl (n : ℕ) (final : Path) (w : World) : Above n final w w :=
  ⟨Nat.le_refl _, fun _ h => ⟨_, h⟩, fun _ => rfl, fun _ _ => Iff.rfl⟩

lemma trans (h₁ : Above n final w w₁) (h₂ : Above n final w₁ w₂) : Above n final w w₂ where
  next_le := Nat.le_trans h₁.next_le h₂.next_le
  files hfd hf := by
    obtain ⟨_, hf₁⟩ := h₁.files hfd hf
    obtain ⟨pos, hf₂⟩ := h₂.files hfd hf₁
    exact ⟨pos, hf₂⟩
  inodes hi := (h₂.inodes hi).trans (h₁.inodes hi)
  dir hp hi := (h₂.dir hp hi).trans (h₁.dir hp hi)

lemma mono {m : ℕ} (hm : m ≤ n) (h : Above n final w w₁) : Above m final w w₁ :=
  ⟨h.next_le, fun hfd => h.files (by omega), fun hi => h.inodes (by omega),
    fun hp hi => h.dir hp (by omega)⟩

lemma seekTo (fd pos : ℕ) : Above n final w (w.seekTo fd pos) where
  next_le := Nat.le_refl _
  files {fd' f} _ hf := by
    by_cases h : fd' = fd
    · subst h
      exact ⟨pos, World.seekTo_files_self hf⟩
    · exact ⟨f.pos, (World.seekTo_files_of_ne h pos).trans hf⟩
  inodes _ := rfl
  dir _ _ := Iff.rfl

lemma setInode {i : ℕ} (hi : n ≤ i) (inode : Inode) : Above n final w (w.setInode i inode) where
  next_le := Nat.le_refl _
  files _ hf := ⟨_, hf⟩
  inodes hj := World.setInode_inodes_of_ne (by omega) inode
  dir _ _ := Iff.rfl

lemma create {path : Path} {k : ℕ} {hk : w.next ≤ k} (hn : n ≤ w.next)
    (hpath : w.dir path = none) : Above n final w (w.create path k hk) where
  next_le := by
    rw [World.create_next]
    omega
  files hfd hf := ⟨_, (World.create_files_of_ne (by omega)).trans hf⟩
  inodes hi := World.create_inodes_of_ne (by omega)
  dir {p i} _ hi := by
    by_cases hp : p = path
    · subst hp
      rw [World.create_dir_self, hpath]
      exact ⟨fun h => by cases h; omega, by simp⟩
    · rw [World.create_dir_of_ne hp]

lemma move {src : Path} {i : ℕ} (hsrc : w.dir src = some i) (hi : n ≤ i) (hne : src ≠ final) :
    Above n final w (w.move src final) where
  next_le := Nat.le_refl _
  files _ hf := ⟨_, hf⟩
  inodes _ := rfl
  dir {p j} hp hj := by
    by_cases h : p = src
    · subst h
      rw [World.move_dir_src hne, hsrc]
      exact ⟨by simp, fun h => by cases h; omega⟩
    · rw [World.move_dir_of_ne h hp]

lemma unlink {path : Path} {i : ℕ} (hpath : w.dir path = some i) (hi : n ≤ i) :
    Above n final w (w.unlink path) where
  next_le := Nat.le_refl _
  files _ hf := ⟨_, hf⟩
  inodes _ := rfl
  dir {p j} _ hj := by
    by_cases h : p = path
    · subst h
      rw [World.unlink_dir_self, hpath]
      exact ⟨by simp, fun h => by cases h; omega⟩
    · rw [World.unlink_dir_of_ne h]

lemma setCounter (k : ℕ) : Above n final w (w.setCounter k) :=
  ⟨Nat.le_refl _, fun _ h => ⟨_, h⟩, fun _ => rfl, fun _ _ => Iff.rfl⟩

end Above

/-- No temporary file is left. -/
def Clean (job : Job) (w : World) : Prop :=
  ∀ {path i}, path ≠ job.final → job.floor ≤ i → w.dir path ≠ some i

/-- Nothing that is new has an entry yet. -/
lemma Clean.of_next_le {job : Job} {w : World} (h : w.next ≤ job.floor) : Clean job w := by
  intro path i _ hi hdir
  have := w.dir_lt hdir
  omega

/-- In a clean directory only the entry of the final path may be another one than before. -/
lemma Clean.dir_eq {job : Job} {w w' : World} (h : Clean job w')
    (habove : Above job.floor job.final w w') (hfloor : w.next ≤ job.floor) {path : Path}
    (hne : path ≠ job.final) : w'.dir path = w.dir path := by
  cases hdir : w.dir path with
  | some i =>
      have := w.dir_lt hdir
      exact (habove.dir hne (by omega)).mpr hdir
  | none =>
      by_contra hsome
      obtain ⟨i, hi⟩ := Option.ne_none_iff_exists'.mp hsome
      rcases Nat.lt_or_ge i job.floor with hlt | hge
      · cases hdir.symm.trans ((habove.dir hne hlt).mp hi)
      · exact h hne hge hi

/-- The temporary path `temp` leads to the file `i`. -/
structure HasTemp (job : Job) (w : World) (temp : Path) (i : ℕ) : Prop where
  temp_ne : temp ≠ job.final
  floor_le : job.floor ≤ i
  entry : w.dir temp = some i

/-- The temporary path `temp` leads to the file `i`, and is the only one there is. -/
structure OnlyTemp (job : Job) (w : World) (temp : Path) (i : ℕ) : Prop
    extends HasTemp job w temp i where
  sole : ∀ {path j}, path ≠ job.final → job.floor ≤ j → w.dir path = some j → path = temp

namespace OnlyTemp

variable {job : Job} {w w' : World} {temp : Path} {i : ℕ}

/-- Only the directory matters. -/
lemma of_dir_eq (h : OnlyTemp job w temp i) (hdir : w'.dir = w.dir) : OnlyTemp job w' temp i :=
  ⟨⟨h.temp_ne, h.floor_le, hdir ▸ h.entry⟩, fun hp hj hpath => h.sole hp hj (hdir ▸ hpath)⟩

/-- Without its only entry the directory is clean. -/
lemma clean_unlink (h : OnlyTemp job w temp i) : Clean job (w.unlink temp) := by
  intro path j hp hj hdir
  by_cases hpath : path = temp
  · subst hpath
    rw [World.unlink_dir_self] at hdir
    cases hdir
  · rw [World.unlink_dir_of_ne hpath] at hdir
    exact hpath (h.sole hp hj hdir)

lemma clean_move (h : OnlyTemp job w temp i) : Clean job (w.move temp job.final) := by
  intro path j hp hj hdir
  by_cases hpath : path = temp
  · subst hpath
    rw [World.move_dir_src hp] at hdir
    cases hdir
  · rw [World.move_dir_of_ne hpath hp] at hdir
    exact hpath (h.sole hp hj hdir)

end OnlyTemp

/-- Neither a rename nor a removal fails. -/
def Tidy (mayFail : FsCall → Prop) : Prop :=
  (∀ src dst, ¬ mayFail (.rename src dst)) ∧ ∀ path, ¬ mayFail (.removeFile path)

/-- The clone of a handle may fail. -/
def CloneMayFail (mayFail : FsCall → Prop) : Prop := ∃ fd, mayFail (.tryClone fd)

/-! ## Single calls -/

section calls

variable {mayFail : FsCall → Prop} {may : FsCall → World → Prop} {w : World} {fd : ℕ} {f : OpenFile}
  {Q : Unit → World → Prop} {E : ObjectFileError → World → Prop}

lemma flush_safe (hmay : may (.flush fd) w) (hok : Q () w)
    (herr : mayFail (.flush fd) → ∀ e, E (.io e) w) :
    Fallible.Safe (FsStep mayFail) may (attemptIo (sys (.flush fd))) Q E w := by
  refine Fallible.Safe.attempt (Program.Safe.request hmay ?_)
  intro r w' h
  obtain ⟨rfl, rfl | ⟨hfail, e, rfl⟩⟩ := h.flush_inv
  · exact hok
  · exact herr hfail e

/-- A seek fails on a fault, or where no file reaches. -/
lemma trySeek_safe {pos : ℕ} (hf : w.files fd = some f) (hmay : may (.seek fd pos) w)
    (hok : pos ≤ maxFileLength → Q () (w.seekTo fd pos))
    (herr : ∀ e, mayFail (.seek fd pos) ∨ maxFileLength < pos ∧ e = invalidArgument →
      E (.io e) w) :
    Fallible.Safe (FsStep mayFail) may (attemptIo (sys (.seek fd pos))) Q E w := by
  refine Fallible.Safe.attempt (Program.Safe.request hmay ?_)
  intro r w' h
  obtain ⟨hpos, rfl, rfl⟩ | ⟨e, hreason, rfl, rfl⟩ := h.seek_inv hf
  · exact hok hpos
  · exact herr e hreason

lemma seek_safe {pos : ℕ} (hpos : pos ≤ maxFileLength) (hf : w.files fd = some f)
    (hmay : may (.seek fd pos) w) (hok : Q () (w.seekTo fd pos))
    (herr : mayFail (.seek fd pos) → ∀ e, E (.io e) w) :
    Fallible.Safe (FsStep mayFail) may (attemptIo (sys (.seek fd pos))) Q E w := by
  refine trySeek_safe hf hmay (fun _ => hok) ?_
  rintro e (hfail | ⟨hlarge, _⟩)
  · exact herr hfail e
  · exact absurd hpos (Nat.not_le.mpr hlarge)

lemma writeAll_safe {bs : List UInt8} (hf : w.files fd = some f) (hwritable : f.writable = true)
    (hmay : may (.writeAll fd bs) w)
    (hok : f.pos + bs.length ≤ maxFileLength → Q () (w.put fd f bs))
    (herr : mayFail (.writeAll fd bs) ∨ maxFileLength < f.pos + bs.length → ∀ e, E (.io e) w)
    (hpart : mayFail (.writeAll fd bs) ∨ maxFileLength < f.pos + bs.length →
      ∀ e, ∀ m ≤ bs.length, E (.io e) (w.put fd f (bs.take m))) :
    Fallible.Safe (FsStep mayFail) may (attemptIo (sys (.writeAll fd bs))) Q E w := by
  refine Fallible.Safe.attempt (Program.Safe.request hmay ?_)
  intro r w' h
  obtain ⟨hlen, rfl, rfl⟩ | ⟨e, hfail, rfl, rfl | ⟨m, hm, _, rfl⟩⟩ := h.writeAll_inv hf hwritable
  · exact hok hlen
  · exact herr (hfail.imp_right And.left) e
  · exact hpart (hfail.imp_right And.left) e m hm

lemma syncAll_safe (hf : w.files fd = some f) (hmay : may (.syncAll fd) w)
    (hok : Q () (w.setInode f.inode ⟨w.data f.inode, true⟩))
    (herr : mayFail (.syncAll fd) → ∀ e, E (.io e) w) :
    Fallible.Safe (FsStep mayFail) may (attemptIo (sys (.syncAll fd))) Q E w := by
  refine Fallible.Safe.attempt (Program.Safe.request hmay ?_)
  intro r w' h
  obtain ⟨rfl, rfl⟩ | ⟨hfail, ⟨e, rfl⟩, rfl⟩ := h.syncAll_inv hf
  · exact hok
  · exact herr hfail e

lemma rename_safe {src dst : Path} {i : ℕ} (hsrc : w.dir src = some i)
    (hmay : may (.rename src dst) w) (hok : Q () (w.move src dst))
    (herr : mayFail (.rename src dst) → ∀ e, E (.io e) w) :
    Fallible.Safe (FsStep mayFail) may (attemptIo (sys (.rename src dst))) Q E w := by
  refine Fallible.Safe.attempt (Program.Safe.request hmay ?_)
  intro r w' h
  obtain ⟨rfl, rfl⟩ | ⟨hfail, ⟨e, rfl⟩, rfl⟩ := h.rename_inv hsrc
  · exact hok
  · exact herr hfail e

lemma tryClone_safe {Q : Fd → World → Prop} (hf : w.files fd = some f)
    (hmay : may (.tryClone fd) w) (hok : Q fd w)
    (herr : mayFail (.tryClone fd) → ∀ e, E (.io e) w) :
    Fallible.Safe (FsStep mayFail) may (attemptIo (sys (.tryClone fd))) Q E w := by
  refine Fallible.Safe.attempt (Program.Safe.request hmay ?_)
  intro r w' h
  obtain ⟨rfl, rfl | ⟨hfail, e, rfl⟩⟩ := h.tryClone_inv hf
  · exact hok
  · exact herr hfail e

end calls

/-! ## A live writer -/

variable [Platform]

/-- What a live writer knows: its temporary file holds the content written so far where the layout
puts it, and its handle stands behind it. What it has counted may be more. -/
structure Writing (job : Job) (w : World) (writer : ObjectWriter) (temp : Path)
    (content : List UInt8) : Prop where
  tempPath_eq : writer.tempPath = some temp
  finalPath_eq : writer.finalPath = job.final
  onlyTemp : OnlyTemp job w temp writer.file
  file : w.files writer.file =
    some ⟨writer.file, writer.layout.contentStart.toNat + content.length, true⟩
  data_eq : w.data writer.file = overwrite 0 [] writer.layout.contentStart.toNat content
  length_le : content.length ≤ writer.contentLength
  end_le : writer.layout.contentStart.toNat + content.length ≤ maxFileLength

/-- What an early return leaves to the destructor: the writer still has its temporary path, or there
is nothing left to remove. -/
structure Unfinished (job : Job) (mayFail : FsCall → Prop) (w₀ : World) (writer : ObjectWriter)
    (w : World) : Prop where
  above : Above job.floor job.final w₀ w
  final_eq : w.dir job.final = w₀.dir job.final ∨ CloneMayFail mayFail
  temp : (∃ temp i, writer.tempPath = some temp ∧ HasTemp job w temp i ∧
      (Tidy mayFail → OnlyTemp job w temp i)) ∨
    writer.tempPath = none ∧ (Tidy mayFail → Clean job w)

/-- What a failed run of a writer leaves behind. -/
structure Failed (job : Job) (mayFail : FsCall → Prop) (w₀ w : World) : Prop where
  above : Above job.floor job.final w₀ w
  final_eq : w.dir job.final = w₀.dir job.final ∨ CloneMayFail mayFail
  clean : Tidy mayFail → Clean job w

section writer

variable {mayFail : FsCall → Prop} {job : Job} {w w₀ : World} {self : ObjectWriter} {temp : Path}
  {content : List UInt8}

/-- The content alone is no longer than a file. -/
lemma Writing.length_le_max (h : Writing job w self temp content) :
    content.length ≤ maxFileLength :=
  Nat.le_trans (Nat.le_add_left _ _) h.end_le

/-- The directory entry and the handle of a live writer are enough to use the handle. -/
lemma Writing.allows (h : Writing job w self temp content) : ∃ f, w.files self.file = some f :=
  ⟨_, h.file⟩

lemma Writing.unfinished (h : Writing job w self temp content)
    (habove : Above job.floor job.final w₀ w) (hfinal : w.dir job.final = w₀.dir job.final) :
    Unfinished job mayFail w₀ self w :=
  ⟨habove, .inl hfinal,
    .inl ⟨temp, self.file, h.tempPath_eq, h.onlyTemp.toHasTemp, fun _ => h.onlyTemp⟩⟩

lemma removeFile_safe {Q : Except IoError Unit → World → Prop} {i : ℕ}
    (ho : HasTemp job w temp i) (hok : Q (.ok ()) (w.unlink temp))
    (herr : mayFail (.removeFile temp) → ∀ e, Q (.error e) w) :
    Program.Safe (FsStep mayFail) job.Allows (sys (.removeFile temp)) Q w := by
  refine Program.Safe.request ⟨ho.temp_ne, i, ho.entry, ho.floor_le⟩ ?_
  intro r w' h
  obtain ⟨rfl, rfl⟩ | ⟨hfail, ⟨e, rfl⟩, rfl⟩ := h.removeFile_inv ho.entry
  · exact hok
  · exact herr hfail e

/-- Removing the temporary path of a writer touches nothing else. -/
structure Dropped (job : Job) (mayFail : FsCall → Prop) (w w' : World) : Prop where
  above : Above job.floor job.final w w'
  final_eq : w'.dir job.final = w.dir job.final
  files_eq : w'.files = w.files
  inodes_eq : w'.inodes = w.inodes
  clean : Tidy mayFail → Clean job w'

/-- Dropping a writer removes the temporary file it still has. -/
lemma drop_safe {i : ℕ} (htemp : self.tempPath = some temp) (hhas : HasTemp job w temp i)
    (honly : Tidy mayFail → OnlyTemp job w temp i) :
    Program.Safe (FsStep mayFail) job.Allows self.drop (fun _ w' => Dropped job mayFail w w')
      w := by
  unfold ObjectWriter.drop
  rw [htemp]
  refine Program.Safe.bind (removeFile_safe hhas ?_ ?_)
  · exact ⟨Above.unlink hhas.entry hhas.floor_le, World.unlink_dir_of_ne (Ne.symm hhas.temp_ne),
      rfl, rfl, fun htidy => (honly htidy).clean_unlink⟩
  · intro hfail e
    exact ⟨Above.refl _ _ _, rfl, rfl, rfl, fun htidy => absurd hfail (htidy.2 temp)⟩

/-- After an early return the destructor removes the temporary file, if there still is one. -/
lemma Unfinished.drop (h : Unfinished job mayFail w₀ self w) :
    Program.Safe (FsStep mayFail) job.Allows self.drop (fun _ w' => Failed job mayFail w₀ w')
      w := by
  rcases h.temp with ⟨temp, i, htemp, hhas, honly⟩ | ⟨htemp, hclean⟩
  · refine Program.Safe.mono ?_ (drop_safe htemp hhas honly)
    intro _ w' hdrop
    exact ⟨h.above.trans hdrop.above, hdrop.final_eq ▸ h.final_eq, hdrop.clean⟩
  · unfold ObjectWriter.drop
    rw [htemp]
    exact ⟨h.above, h.final_eq, hclean⟩

end writer

end TuxEncoding
