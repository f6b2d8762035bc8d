import TuxEncoding.Codec.TornHeader
import TuxEncoding.Properties.Readers
import TuxEncoding.Properties.WrittenBack

/-!
# Content beside updates in place

Any number of users open one path, ask their handles, and write new sections over the old ones with
`set_sections_in_place`. Nothing keeps them apart: their calls interleave, and a write may stop
halfway.

* `Editor` is a user, and `EditScript` what it does with its handle; what it does next may depend on
  what it was told.
* `Steady` is what no such update touches: the bytes from the content on, and the header up to where
  the tags start.
* `Grip` is what a user knows of the file system: its handles. `GripStep` is a call in this view,
  where the file may be any that is steady each time. `Editor.program_safe` is what a user comes to.
* `content_stays`: whatever the users do, all that they are told of the content is what the file has
  said initially.
-/

namespace TuxEncoding

open Bytes Interaction Program

set_option linter.unusedSectionVars false

section

variable [Platform] [Codecs]

/-! ## Users -/

/-- What a user does with its handle, one step after the other. -/
inductive EditScript
  | stop
  | ask (q : Query) (next : Except ObjectFileError Shown → EditScript)
  | update (metadata : MetadataMap) (tags : Tags String)
      (next : Except ObjectFileError Unit → EditScript)

/-- Ask the handle and update it; an error is an answer, too. -/
def EditScript.run : EditScript → FsMethod TuxObject Transcript
  | stop => pure []
  | ask q next => do
      let self ← get
      let shown ← (Fallible.result (q.ask self) : Fs (Except ObjectFileError Shown))
      let rest ← (next shown).run
      return (q, shown) :: rest
  | update metadata tags next => do
      let result ← Method.result (TuxObject.setSectionsInPlace metadata tags)
      (next result).run

/-- A user, who opens the path in one of the two ways. -/
structure Editor where
  writable : Bool
  script : EditScript

/-- The calls of a user. -/
def Editor.program (path : Path) (editor : Editor) :
    Program FsCall.Reply (Except ObjectFileError Transcript) := do
  match ← (TuxObject.openAs path editor.writable).run with
  | .error e => return .error e
  | .ok object =>
      let (transcript, _) ← editor.script.run.on object
      return transcript

/-! ## What stays -/

/-- Nothing has changed but the sections of the file `i`, which begins with the header initially. -/
structure Steady (w₀ : World) (i : ℕ) (header : ObjectHeader) (w : World) : Prop where
  dir_eq : w.dir = w₀.dir
  others : ∀ j, j ≠ i → w.inodes j = w₀.inodes j
  behind_eq : (w.data i).drop header.contentStart.toNat =
    (w₀.data i).drop header.contentStart.toNat
  stands : header.StandsIn (w.data i)

variable {w₀ w w' : World} {i : ℕ} {header : ObjectHeader} {mayFail : FsCall → Prop}

/-- What is steady depends on the paths and the files. -/
lemma Steady.of_same (h : Steady w₀ i header w) (hdir : w'.dir = w.dir)
    (hinodes : ∀ j, j ≠ i → w'.inodes j = w.inodes j) (hdata : w'.data i = w.data i) :
    Steady w₀ i header w' where
  dir_eq := hdir.trans h.dir_eq
  others j hj := (hinodes j hj).trans (h.others j hj)
  behind_eq := by rw [hdata, h.behind_eq]
  stands := by rw [hdata]; exact h.stands

/-- A prefix that begins with the header, but for where the tags start. -/
structure ObjectHeader.Begins (header : ObjectHeader) (bs : List UInt8) : Prop where
  wire : ∃ tagsStart rest, bs = (header.retagged tagsStart).wire ++ rest
  length_le : bs.length ≤ header.contentStart.toNat

/-- Writing such a prefix over the file, or a part of it, leaves it steady. -/
lemma Steady.put {fd : Fd} {f : OpenFile} {bs : List UInt8} {m : ℕ} (h : Steady w₀ i header w)
    (hinode : f.inode = i) (hpos : f.pos = 0) (hbegins : header.Begins bs) (hm : m ≤ bs.length) :
    Steady w₀ i header (w.put fd f (bs.take m)) := by
  obtain ⟨⟨tagsStart, rest, rfl⟩, hle⟩ := hbegins
  subst hinode
  have hdata := World.put_data_self (w := w) fd f
    (((header.retagged tagsStart).wire ++ rest).take m)
  rw [hpos] at hdata
  refine ⟨h.dir_eq, fun j hj => (World.put_inodes_of_ne fd hj _).trans (h.others j hj), ?_, ?_⟩
  · have hmle : m ≤ header.contentStart.toNat := Nat.le_trans hm hle
    have hlength := List.length_take_of_le hm
    rw [hdata, overwrite_zero_eq, hlength, List.drop_append, hlength, List.drop_drop,
      Nat.add_sub_cancel' hmle, List.drop_of_length_le (by omega), List.nil_append, h.behind_eq]
  · rw [hdata]
    exact h.stands.overwrite hm

/-! ## A user's view -/

/-- The handles of a user. -/
abbrev Grip : Type := Fd → Option OpenFile

/-- A call of a user as it sees it: its handles are these, and the file system is steady, whatever
the others have done to it since the last call. -/
def GripStep (mayFail : FsCall → Prop) (w₀ : World) (i : ℕ) (header : ObjectHeader) (c : FsCall)
    (grip : Grip) (r : c.Reply) (grip' : Grip) : Prop :=
  ∃ w w', Steady w₀ i header w ∧ w.files = grip ∧ FsStep mayFail c w r w' ∧ w'.files = grip'

lemma GripStep.own {α : Type} {m : Fs α} {c : FsCall} (hmakes : m.run.Makes c) {grip : Grip}
    {r : c.Reply} {grip' : Grip} (h : GripStep mayFail w₀ i header c grip r grip') :
    GripStep (FailsIn mayFail m) w₀ i header c grip r grip' := by
  obtain ⟨w, w', hsteady, hfiles, hstep, hfiles'⟩ := h
  exact ⟨w, w', hsteady, hfiles, hstep.own hmakes, hfiles'⟩

lemma Fallible.Safe.gripped_own {α : Type} {m : Fs α} {may : FsCall → Grip → Prop}
    {Q : α → Grip → Prop} {E : ObjectFileError → Grip → Prop} {grip : Grip}
    (h : Fallible.Safe (GripStep (FailsIn mayFail m) w₀ i header) may m Q E grip) :
    Fallible.Safe (GripStep mayFail w₀ i header) may m Q E grip :=
  Program.Safe.of_makes (fun _ hmakes _ _ _ hstep => hstep.own hmakes) h

/-- The handle is open on the file, for writing or not. -/
def Grip.Has (grip : Grip) (i : ℕ) (fd : Fd) (writable : Bool) : Prop :=
  ∃ pos, grip fd = some ⟨i, pos, writable⟩

/-- The calls of a user: it opens the path, reads off its handles, and writes nothing but the
beginning of the file, and nothing there but such a prefix. -/
def GripMay (path : Path) (i : ℕ) (header : ObjectHeader) : FsCall → Grip → Prop
  | .openFile p _, _ => p = path
  | .seek fd _, grip | .read fd _, grip | .readExact fd _, grip | .flush fd, grip =>
      ∃ writable, grip.Has i fd writable
  | .writeAll fd bs, grip => grip fd = some ⟨i, 0, true⟩ ∧ header.Begins bs
  | _, _ => False

variable {path : Path} {grip grip' : Grip} {fd : Fd} {writable : Bool} {α β : Type}

/-- Moving a handle. -/
lemma World.seekTo_files {f : OpenFile} (hf : w.files fd = some f) (pos : ℕ) :
    (w.seekTo fd pos).files = Function.update w.files fd (some { f with pos := pos }) := by
  show Function.update w.files fd ((w.files fd).map _) = _
  rw [hf]
  rfl

/-- Whatever a user is doing, it goes on holding the handle. -/
def Holds (mayFail : FsCall → Prop) (w₀ : World) (path : Path) (i : ℕ) (header : ObjectHeader)
    (fd : Fd) (writable : Bool) (m : Fs α) : Prop :=
  ∀ grip : Grip, grip.Has i fd writable →
    Fallible.Safe (GripStep mayFail w₀ i header) (GripMay path i header) m
      (fun _ grip' => grip'.Has i fd writable) (fun _ grip' => grip'.Has i fd writable) grip

lemma Grip.has_update (grip : Grip) (i : ℕ) (fd : Fd) (pos : ℕ) (writable : Bool) :
    Grip.Has (Function.update grip fd (some ⟨i, pos, writable⟩)) i fd writable :=
  ⟨pos, Function.update_self _ _ _⟩

/-- A seek, in the view of a user. -/
lemma seek_grip {start pos : ℕ} {Q : Unit → Grip → Prop} {E : ObjectFileError → Grip → Prop}
    (hgrip : grip fd = some ⟨i, pos, writable⟩)
    (hok : Q () (Function.update grip fd (some ⟨i, start, writable⟩))) (herr : ∀ e, E e grip) :
    Fallible.Safe (GripStep mayFail w₀ i header) (GripMay path i header)
      (attemptIo (sys (.seek fd start))) Q E grip := by
  refine Fallible.Safe.attempt (Program.Safe.request ⟨writable, pos, hgrip⟩ ?_)
  rintro r _ ⟨w, w', _, rfl, hstep, rfl⟩
  obtain ⟨_, rfl, rfl⟩ | ⟨e, _, rfl, rfl⟩ := hstep.seek_inv hgrip
  · rw [World.seekTo_files hgrip]
    exact hok
  · exact herr _

/-- `read_exact` takes bytes of a file that is steady. -/
lemma readExact_grip {n pos : ℕ} {Q : List UInt8 → Grip → Prop}
    {E : ObjectFileError → Grip → Prop} (hgrip : grip fd = some ⟨i, pos, writable⟩)
    (hok : ∀ w, Steady w₀ i header w → Q (((w.data i).drop pos).take n)
      (Function.update grip fd (some ⟨i, pos + n, writable⟩)))
    (herr : ∀ e pos, E e (Function.update grip fd (some ⟨i, pos, writable⟩))) :
    Fallible.Safe (GripStep mayFail w₀ i header) (GripMay path i header)
      (attemptIo (sys (.readExact fd n))) Q E grip := by
  refine Fallible.Safe.attempt (Program.Safe.request ⟨writable, pos, hgrip⟩ ?_)
  rintro r _ ⟨w, w', hsteady, rfl, hstep, rfl⟩
  obtain ⟨_, rfl, rfl⟩ | ⟨e, _, rfl, pos', rfl⟩ := hstep.readExact_inv hgrip
  · rw [World.seekTo_files hgrip]
    exact hok w hsteady
  · rw [World.seekTo_files hgrip]
    exact herr _ pos'

namespace Holds

lemma bind {m : Fs α} {k : α → Fs β} (h : Holds mayFail w₀ path i header fd writable m)
    (hk : ∀ a, Holds mayFail w₀ path i header fd writable (k a)) :
    Holds mayFail w₀ path i header fd writable (m >>= k) :=
  fun grip hgrip => Fallible.Safe.bind (Fallible.Safe.mono (h grip hgrip)
    (fun a grip' hgrip' => hk a grip' hgrip') fun _ _ h => h)

lemma map {m : Fs α} (f : α → β) (h : Holds mayFail w₀ path i header fd writable m) :
    Holds mayFail w₀ path i header fd writable (f <$> m) := by
  rw [map_eq_pure_bind]
  exact h.bind fun _ _ hgrip => Fallible.Safe.pure hgrip

lemma ofExcept (r : Except ObjectFileError α) :
    Holds mayFail w₀ path i header fd writable (orReturn r) := by
  refine fun grip hgrip => Fallible.Safe.ofExcept ?_
  cases r with
  | ok a => exact hgrip
  | error e => exact hgrip

lemma ite {p : Prop} [Decidable p] {m m' : Fs α}
    (h : Holds mayFail w₀ path i header fd writable m)
    (h' : Holds mayFail w₀ path i header fd writable m') :
    Holds mayFail w₀ path i header fd writable (if p then m else m') := by
  split
  · exact h
  · exact h'

lemma seek (start : ℕ) :
    Holds mayFail w₀ path i header fd writable (attemptIo (sys (.seek fd start))) := by
  rintro grip ⟨pos, hgrip⟩
  exact seek_grip hgrip (Grip.has_update _ _ _ _ _) fun _ => ⟨pos, hgrip⟩

lemma readExact (n : ℕ) :
    Holds mayFail w₀ path i header fd writable (attemptIo (sys (.readExact fd n))) := by
  rintro grip ⟨pos, hgrip⟩
  exact readExact_grip hgrip (fun _ _ => Grip.has_update _ _ _ _ _)
    fun _ _ => Grip.has_update _ _ _ _ _

end Holds

/-- Asking for a section keeps the handle. -/
lemma holds_ask {object : TuxObject} {q : Query} (hq : q.OfPrefix) :
    Holds mayFail w₀ path i header object.file writable (q.ask object) := by
  cases q with
  | sections => exact Holds.ofExcept (.ok _)
  | tags =>
      refine Holds.map _ (Holds.bind (.ofExcept _) fun space => Holds.ite ?_ ?_)
      · exact Holds.ofExcept (.ok _)
      · exact Holds.bind (.seek _) fun _ => Holds.bind (.readExact _) fun _ => .ofExcept _
  | tagCount =>
      refine Holds.map _ (Holds.bind (.ofExcept _) fun space => Holds.ite ?_ ?_)
      · exact Holds.ofExcept (.ok _)
      · exact Holds.bind (.seek _) fun _ => Holds.bind (.readExact _) fun _ => .ofExcept (.ok _)
  | tag key =>
      refine Holds.map _ (Holds.bind (.ofExcept _) fun space => Holds.ite ?_ ?_)
      · exact Holds.ofExcept (.ok _)
      · exact Holds.bind (.seek _) fun _ => Holds.bind (.readExact _) fun _ => .ofExcept _
  | stored | content | range => exact hq.elim

/-! ## Opening -/

/-- The user holds the object, and knows the header but for where the tags start. -/
structure Grip.Handles (grip : Grip) (i : ℕ) (header : ObjectHeader) (object : TuxObject) :
    Prop where
  has : grip.Has i object.file object.writable
  header_eq : ∃ tagsStart, object.header = header.retagged tagsStart

lemma openAs_grip (hdir : w₀.dir path = some i) :
    Fallible.Safe (GripStep mayFail w₀ i header) (GripMay path i header)
      (TuxObject.openAs path writable) (fun object grip' => grip'.Handles i header object)
      (fun _ _ => True) grip := by
  rw [TuxObject.openAs_eq]
  refine Fallible.Safe.bind (Fallible.Safe.attempt (Program.Safe.request rfl ?_))
  rintro r _ ⟨w, w', hsteady, rfl, hstep, rfl⟩
  obtain ⟨j, n, hn, hj, rfl, rfl⟩ | ⟨_, ⟨e, rfl⟩, rfl⟩ := hstep.openFile_inv
  swap
  · exact trivial
  rw [hsteady.dir_eq, hdir] at hj
  obtain rfl := Option.some.inj hj
  have hfile : (w.openAt path writable n hn).files n = some ⟨i, 0, writable⟩ := by
    show Function.update w.files n _ n = _
    rw [Function.update_self, hsteady.dir_eq, hdir]
    rfl
  dsimp only
  unfold TuxObject.fromFile
  refine Fallible.Safe.bind (seek_grip hfile ?_ fun _ => trivial)
  refine Fallible.Safe.bind (readExact_grip (Function.update_self _ _ _) ?_ fun _ _ => trivial)
  intro w₁ hsteady₁
  obtain ⟨tagsStart, hheader⟩ := hsteady₁.stands
  have hread : ObjectHeader.readFromBytes (((w₁.data i).drop 0).take headerSize) =
      .ok (header.retagged tagsStart) := hheader
  refine Fallible.Safe.bind (Fallible.Safe.ofExcept ?_)
  rw [hread]
  -- whatever is read of the metadata, the handle is the one that was opened
  by_cases hspace : (header.retagged tagsStart).tagsStart.toNat - headerSize = 0
  · simp only [Except.mapError, if_pos hspace, pure_bind]
    exact Fallible.Safe.pure ⟨Grip.has_update _ _ _ _ _, tagsStart, rfl⟩
  · simp only [Except.mapError, if_neg hspace]
    refine Fallible.Safe.bind (Fallible.Safe.mono (Holds.readExact _ _ (Grip.has_update _ _ _ _ _))
      ?_ fun _ _ _ => trivial)
    intro buffer grip₁ hgrip₁
    refine Fallible.Safe.bind (Fallible.Safe.mono (Holds.ofExcept _ grip₁ hgrip₁) ?_
      fun _ _ _ => trivial)
    exact fun metadata grip₂ hgrip₂ => Fallible.Safe.pure ⟨hgrip₂, tagsStart, rfl⟩

/-! ## The content -/

/-- The calls of a reader that reads nothing in front of `start`. -/
def Behind (fd : Fd) (start : ℕ) : FsCall → World → Prop
  | .seek fd' _, w => fd' = fd ∧ ∃ f, w.files fd' = some f
  | .read fd' _, w | .readExact fd' _, w => fd' = fd ∧ ∃ f, w.files fd' = some f ∧ start ≤ f.pos
  | _, _ => False

/-- Nothing is read in front of `start`. -/
def ReadsBehind (mayFail : FsCall → Prop) (fd : Fd) (start : ℕ) (m : Fs α) (w : World) : Prop :=
  Fallible.Safe (FsStep mayFail) (Behind fd start) m (fun _ _ => True) (fun _ _ => True) w

lemma readsBehind_orReturn {start : ℕ} (r : Except ObjectFileError α) :
    ReadsBehind mayFail fd start (orReturn r) w := by
  refine Fallible.Safe.ofExcept ?_
  cases r <;> trivial

lemma ReadsBehind.orReturn_bind {start : ℕ} {r : Except ObjectFileError α} {k : α → Fs β}
    (hk : ∀ a, r = .ok a → ReadsBehind mayFail fd start (k a) w) :
    ReadsBehind mayFail fd start (orReturn r >>= k) w := by
  refine Fallible.Safe.bind (Fallible.Safe.ofExcept ?_)
  cases r with
  | ok a => exact hk a rfl
  | error e => trivial

lemma ReadsBehind.bind {start : ℕ} {m : Fs α} {k : α → Fs β} {Q : α → World → Prop}
    (h : Fallible.Safe (FsStep mayFail) (Behind fd start) m Q (fun _ _ => True) w)
    (hk : ∀ a w', Q a w' → ReadsBehind mayFail fd start (k a) w') :
    ReadsBehind mayFail fd start (m >>= k) w :=
  Fallible.Safe.bind (Fallible.Safe.mono h hk fun _ _ _ => trivial)

/-- A seek to where reading may begin. -/
lemma seek_behind {f : OpenFile} {start pos : ℕ} (hf : w.files fd = some f) (hpos : start ≤ pos) :
    Fallible.Safe (FsStep mayFail) (Behind fd start) (attemptIo (sys (.seek fd pos)))
      (fun _ w' => ∃ f', w'.files fd = some f' ∧ start ≤ f'.pos) (fun _ _ => True) w :=
  trySeek_safe hf ⟨rfl, f, hf⟩ (fun _ => ⟨_, World.seekTo_files_self hf, hpos⟩) fun _ _ => trivial

namespace ContentReader

variable {reader : ContentReader} {f : OpenFile} {start : ℕ}

lemma read_behind (hf : w.files reader.file = some f) (hpos : start ≤ f.pos) (length : ℕ) :
    Fallible.Safe (FsStep mayFail) (Behind reader.file start) (reader.read length)
      (fun p w' => p.2.file = reader.file ∧ ∃ f', w'.files reader.file = some f' ∧ start ≤ f'.pos)
      (fun _ _ => True) w := by
  unfold ContentReader.read
  by_cases hzero : reader.remaining = 0 ∨ length = 0
  · rw [if_pos hzero]
    exact Fallible.Safe.pure ⟨rfl, f, hf, hpos⟩
  rw [if_neg hzero]
  refine Fallible.Safe.bind (Fallible.Safe.attempt (Program.Safe.request ⟨rfl, f, hf, hpos⟩ ?_))
  intro r w' hstep
  obtain ⟨m, _, _, rfl, rfl⟩ | ⟨_, ⟨e, rfl⟩, rfl⟩ := hstep.read_inv hf
  · exact Fallible.Safe.pure ⟨rfl, _, World.seekTo_files_self hf, Nat.le_add_right_of_le hpos⟩
  · exact trivial

/-- Reading goes forward. -/
lemma readToEnd_behind (n : ℕ) (hf : w.files reader.file = some f) (hpos : start ≤ f.pos) :
    Fallible.Safe (FsStep mayFail) (Behind reader.file start) (reader.readToEnd n)
      (fun _ _ => True) (fun _ _ => True) w := by
  induction n generalizing w reader f with
  | zero => exact trivial
  | succ n ih =>
      unfold readToEnd
      refine Fallible.Safe.bind (Fallible.Safe.mono (read_behind hf hpos _) ?_ fun _ _ _ => trivial)
      rintro ⟨chunk, reader'⟩ w' ⟨hfile, f', hf', hpos'⟩
      dsimp only at hfile ⊢
      rw [← hfile] at hf' ⊢
      by_cases hempty : chunk.isEmpty = true
      · rw [if_pos hempty]
        exact trivial
      · rw [if_neg hempty]
        exact Fallible.Safe.bind (Fallible.Safe.mono (ih hf' hpos') (fun _ _ _ => trivial)
          fun _ _ _ => trivial)

end ContentReader

lemma readToEnd_readsBehind {reader : ContentReader} {f : OpenFile} {start : ℕ}
    (hf : w.files reader.file = some f) (hpos : start ≤ f.pos) :
    ReadsBehind mayFail reader.file start
      (attempt .io (reader.readToEnd (reader.remaining + 1)).run) w := by
  refine Fallible.Safe.attempt (Program.Safe.mono ?_
    (ContentReader.readToEnd_behind (reader.remaining + 1) hf hpos))
  rintro (e | bs) w' _ <;> trivial

/-- What is asked of the content is read behind the prefix. -/
lemma ask_readsBehind {object : TuxObject} {q : Query} (hq : ¬ q.OfPrefix) {f : OpenFile}
    (hf : w.files object.file = some f) :
    ReadsBehind mayFail object.file object.header.contentStart.toNat (q.ask object) w := by
  have hmap : ∀ {m : Fs (List UInt8)},
      ReadsBehind mayFail object.file object.header.contentStart.toNat m w →
        ReadsBehind mayFail object.file object.header.contentStart.toNat (Shown.bytes <$> m) w := by
    intro m hm
    rw [map_eq_pure_bind]
    exact ReadsBehind.bind hm fun _ _ _ => trivial
  have hreader : Fallible.Safe (FsStep mayFail)
      (Behind object.file object.header.contentStart.toNat) object.storedContentReader
      (fun reader w' => reader.file = object.file ∧ ∃ f', w'.files reader.file = some f' ∧
        object.header.contentStart.toNat ≤ f'.pos) (fun _ _ => True) w := by
    refine Fallible.Safe.bind (Fallible.Safe.mono (seek_behind hf (Nat.le_refl _)) ?_
      fun _ _ _ => trivial)
    exact fun _ _ hw => Fallible.Safe.pure ⟨rfl, hw⟩
  have hread : ∀ (reader : ContentReader) (w' : World), (reader.file = object.file ∧
      ∃ f', w'.files reader.file = some f' ∧ object.header.contentStart.toNat ≤ f'.pos) →
        ReadsBehind mayFail object.file object.header.contentStart.toNat
          (attempt .io (reader.readToEnd (reader.remaining + 1)).run) w' := by
    rintro reader w' ⟨hfile, f', hf', hpos⟩
    rw [← hfile]
    exact readToEnd_readsBehind hf' hpos
  cases q with
  | sections | tags | tagCount | tag => exact absurd trivial hq
  | stored => exact hmap (ReadsBehind.bind hreader hread)
  | content =>
      refine hmap (ReadsBehind.orReturn_bind fun _ _ => ReadsBehind.bind hreader ?_)
      intro reader w' hw'
      have hdecoded : ∀ compression, ReadsBehind mayFail object.file
          object.header.contentStart.toNat (do
            orReturn (ensureSupported compression)
            let stored ← attempt .io (reader.readToEnd (reader.remaining + 1)).run
            orReturn ((Codecs.decode compression stored).mapError .io)) w' :=
        fun compression => ReadsBehind.orReturn_bind fun _ _ =>
          ReadsBehind.bind (hread reader w' hw') fun _ _ _ => readsBehind_orReturn _
      cases object.header.compressionType with
      | none => exact hread reader w' hw'
      | zstd level => exact hdecoded _
      | gzip level => exact hdecoded _
  | range offset length =>
      refine hmap ?_
      unfold TuxObject.readRange TuxObject.contentRangeReader
      by_cases hplain : object.header.compressionType.isNone = true
      · rw [if_neg (not_not_intro hplain)]
        by_cases hoffset : object.header.contentLength < offset
        · simp only [if_pos hoffset]
          exact readsBehind_orReturn (.error _)
        · simp only [if_neg hoffset]
          by_cases hlength : length.getD (object.header.contentLength - offset) >
              object.header.contentLength - offset
          · simp only [if_pos hlength]
            exact readsBehind_orReturn (.error _)
          · simp only [if_neg hlength, pure_bind, bind_assoc]
            refine ReadsBehind.orReturn_bind fun start hstart => ?_
            have hle : object.header.contentStart.toNat ≤ start := by
              unfold checkedAdd at hstart
              split_ifs at hstart
              cases hstart
              exact Nat.le_add_right _ _
            refine ReadsBehind.bind (seek_behind hf hle) fun _ w' hw' => ?_
            exact hread ⟨object.file, _⟩ w' ⟨rfl, hw'⟩
      · rw [if_pos hplain]
        exact readsBehind_orReturn (.error .rangedReadOnCompressed)

/-- A file system in which only this handle is open. -/
def World.sole (inodes : ℕ → Inode) (fd : Fd) (f : OpenFile) : World where
  dir _ := none
  inodes := inodes
  files := Function.update (fun _ => none) fd (some f)
  next := max fd f.inode + 1
  counter := 0
  pid := 0
  dir_lt h := absurd h.symm (Option.some_ne_none _)
  files_lt {fd' f'} h := by
    rcases eq_or_ne fd' fd with rfl | hne
    · obtain rfl := Option.some.inj ((Function.update_self fd' _ _).symm.trans h)
      omega
    · exact absurd ((Function.update_of_ne hne _ _).symm.trans h) (Option.some_ne_none f').symm

/-- The handle, on a file as it was initially. -/
structure Settled (w₀ : World) (i : ℕ) (fd : Fd) (writable : Bool) (grip : Grip) (v : World) :
    Prop where
  data_eq : v.data i = w₀.data i
  files_eq : v.files fd = grip fd
  has : grip.Has i fd writable
  sole : ∀ {fd' f}, v.files fd' = some f → fd' = fd

lemma settled_sole {pos : ℕ} (hgrip : grip fd = some ⟨i, pos, writable⟩) :
    Settled w₀ i fd writable grip (World.sole w₀.inodes fd ⟨i, pos, writable⟩) where
  data_eq := rfl
  files_eq := by
    show Function.update (fun _ => none) fd _ fd = _
    rw [Function.update_self, hgrip]
  has := ⟨pos, hgrip⟩
  sole {fd' f} h := by
    by_contra hne
    change Function.update (fun _ => none) fd _ fd' = _ at h
    rw [Function.update_of_ne hne] at h
    cases h

/-- What is read behind the prefix is read as if the file were as it was initially. -/
lemma GripStep.settled {c : FsCall} {r : c.Reply} {v : World}
    (h : Settled w₀ i fd writable grip v) (hmay : Behind fd header.contentStart.toNat c v)
    (hstep : GripStep mayFail w₀ i header c grip r grip') :
    ∃ v', FsStep mayFail c v r v' ∧ Settled w₀ i fd writable grip' v' := by
  obtain ⟨w, w', hsteady, rfl, hstep, rfl⟩ := hstep
  obtain ⟨pos, hgrip⟩ := h.has
  have hv : v.files fd = some ⟨i, pos, writable⟩ := h.files_eq.trans hgrip
  have hreads : Reads c v := by
    cases c with
    | seek fd' _ => exact hmay.2
    | read fd' _ | readExact fd' _ =>
        obtain ⟨_, f, hf, _⟩ := hmay
        exact ⟨f, hf⟩
    | _ => exact hmay.elim
  have hfiles : ∀ {fd' f}, v.files fd' = some f → w.files fd' = some f := by
    intro fd' f hf
    obtain rfl := h.sole hf
    rw [← h.files_eq, hf]
  have hrest : ∀ {fd' f}, c.Takes fd' → v.files fd' = some f →
      (v.data f.inode).drop f.pos = (w.data f.inode).drop f.pos := by
    intro fd' f htakes hf
    obtain rfl := h.sole hf
    obtain rfl := Option.some.inj (hv.symm.trans hf)
    have hpos : header.contentStart.toNat ≤ pos := by
      cases c with
      | read fd' _ | readExact fd' _ =>
          obtain ⟨rfl, f, hf', hle⟩ := hmay
          obtain rfl := Option.some.inj (hv.symm.trans hf')
          exact hle
      | _ => exact htakes.elim
    obtain ⟨k, rfl⟩ := Nat.exists_eq_add_of_le hpos
    dsimp only
    rw [← List.drop_drop, ← List.drop_drop, h.data_eq, hsteady.behind_eq]
  obtain ⟨fd', f, pos', hf, rfl, hstep'⟩ := hstep.same_rest hreads hfiles hrest
  obtain rfl := h.sole hf
  obtain rfl := Option.some.inj (hv.symm.trans hf)
  have hmoved : (w.seekTo fd' pos').files fd' = some ⟨i, pos', writable⟩ :=
    World.seekTo_files_self hgrip
  have hmoved' : (v.seekTo fd' pos').files fd' = some ⟨i, pos', writable⟩ :=
    World.seekTo_files_self hv
  refine ⟨_, hstep', h.data_eq, hmoved'.trans hmoved.symm, ⟨pos', hmoved⟩, ?_⟩
  intro fd'' f' hf'
  by_contra hne
  rw [World.seekTo_files_of_ne hne] at hf'
  exact hne (h.sole hf')

/-- A handle that knows the header answers as the file does. -/
lemma Query.result_of_handle {data : List UInt8} {metadata : MetadataMap} {object : TuxObject}
    {q : Query} (hread : readPrefix data = .ok (header, metadata))
    (hheader : ∃ tagsStart, object.header = header.retagged tagsStart) (hq : ¬ q.OfPrefix) :
    q.answer object data = q.result data := by
  obtain ⟨tagsStart, hheader⟩ := hheader
  rw [Query.result_of_read hread]
  obtain ⟨file, path, header', metadata', writable⟩ := object
  subst hheader
  cases q with
  | sections | tags | tagCount | tag => exact absurd trivial hq
  | stored | content | range => rfl

/-- What a user is told of the content is what the file has said initially. -/
lemma ask_content {object : TuxObject} {metadata : MetadataMap} {q : Query}
    (hread : readPrefix (w₀.data i) = .ok (header, metadata)) (hq : ¬ q.OfPrefix)
    (hgrip : grip.Handles i header object) :
    Fallible.Safe (GripStep mayFail w₀ i header) (GripMay path i header) (q.ask object)
      (fun shown grip' => grip'.Handles i header object ∧ q.result (w₀.data i) = .ok shown)
      (fun e grip' => grip'.Handles i header object ∧
        (IsFault mayFail e ∨ q.result (w₀.data i) = .error e)) grip := by
  obtain ⟨⟨pos, hpos⟩, hheader⟩ := hgrip
  have hstart : object.header.contentStart = header.contentStart := by
    obtain ⟨_, hheader⟩ := hheader
    rw [hheader]
    rfl
  have hsettled : Settled w₀ i object.file object.writable grip
      (World.sole w₀.inodes object.file ⟨i, pos, object.writable⟩) := settled_sole hpos
  have hopen : OpenOn (World.sole w₀.inodes object.file ⟨i, pos, object.writable⟩) object i :=
    ⟨pos, hsettled.files_eq.trans hpos⟩
  obtain ⟨_, hfile⟩ := id hopen
  have hbehind : ReadsBehind mayFail object.file header.contentStart.toNat (q.ask object) _ :=
    hstart ▸ ask_readsBehind hq hfile
  have hstep : ∀ c grip v r grip', Settled w₀ i object.file object.writable grip v →
      Behind object.file header.contentStart.toNat c v →
      GripStep mayFail w₀ i header c grip r grip' →
      ∃ v', FsStep mayFail c v r v' ∧ Settled w₀ i object.file object.writable grip' v' :=
    fun _ _ _ _ _ h hmay hstep => hstep.settled h hmay
  have hmay : ∀ c grip v, Settled w₀ i object.file object.writable grip v →
      Behind object.file header.contentStart.toNat c v → GripMay path i header c grip := by
    intro c grip v hv hmay
    cases c with
    | seek fd' _ | read fd' _ | readExact fd' _ =>
        obtain ⟨rfl, _⟩ := hmay
        exact ⟨_, hv.has⟩
    | _ => exact hmay.elim
  have hsafe := Program.Safe.matched hstep hmay hsettled
    (Program.Safe.and hbehind (hopen.ask_returns q))
  have hanswer := Query.result_of_handle hread hheader hq
  refine Program.Safe.mono ?_ hsafe
  rintro (e | shown) grip' ⟨v, hv, _, hr⟩
  · exact ⟨⟨hv.has, hheader⟩, hr.2.imp_right fun he => hanswer.symm.trans he⟩
  · exact ⟨⟨hv.has, hheader⟩, hanswer.symm.trans hr.1⟩

/-! ## Updates -/

/-- Writing a prefix over the file, in the view of a user. -/
lemma writeAll_grip {bs : List UInt8} {Q : Unit → Grip → Prop} {E : ObjectFileError → Grip → Prop}
    (hgrip : grip fd = some ⟨i, 0, true⟩) (hbegins : header.Begins bs)
    (hok : ∀ grip', Grip.Has grip' i fd true → Q () grip')
    (herr : ∀ e grip', Grip.Has grip' i fd true → E e grip') :
    Fallible.Safe (GripStep mayFail w₀ i header) (GripMay path i header)
      (attemptIo (sys (.writeAll fd bs))) Q E grip := by
  refine Fallible.Safe.attempt (Program.Safe.request ⟨hgrip, hbegins⟩ ?_)
  rintro r _ ⟨w, w', _, rfl, hstep, rfl⟩
  obtain ⟨_, rfl, rfl⟩ | ⟨e, _, rfl, rfl | ⟨m, _, _, rfl⟩⟩ := hstep.writeAll_inv hgrip rfl
  · exact hok _ ⟨_, World.put_files_self hgrip bs⟩
  · exact herr _ _ ⟨0, hgrip⟩
  · exact herr _ _ ⟨_, World.put_files_self hgrip _⟩

lemma flush_grip {Q : Unit → Grip → Prop} {E : ObjectFileError → Grip → Prop}
    (hgrip : grip.Has i fd writable) (hok : Q () grip) (herr : ∀ e, E e grip) :
    Fallible.Safe (GripStep mayFail w₀ i header) (GripMay path i header)
      (attemptIo (sys (.flush fd))) Q E grip := by
  refine Fallible.Safe.attempt (Program.Safe.request ⟨writable, hgrip⟩ ?_)
  rintro r _ ⟨w, w', _, rfl, hstep, rfl⟩
  obtain ⟨rfl, rfl | ⟨_, e, rfl⟩⟩ := hstep.flush_inv
  · exact hok
  · exact herr _

/-- An update writes such a prefix, and leaves a handle that knows the header. -/
lemma setSectionsInPlace_grip {object : TuxObject} {metadata : MetadataMap} {tags : Tags String}
    (hgrip : grip.Handles i header object) :
    Method.Safe (GripStep mayFail w₀ i header) (GripMay path i header)
      (TuxObject.setSectionsInPlace metadata tags) object
      (fun _ object' grip' => grip'.Handles i header object')
      (fun _ object' grip' => grip'.Handles i header object') grip := by
  obtain ⟨⟨pos, hpos⟩, tagsStart, hheader⟩ := id hgrip
  refine setSectionsInPlace_rule (fun _ _ => hgrip) ?_
  intro layout hwritable hm ht hrep
  obtain ⟨hstart, hholds⟩ := LayoutOptions.repartition_holds hrep
  rw [hwritable] at hpos
  have hlength := length_prefixBytes (object.relaid layout) hm ht hholds
  have hrelaid : object.relaid layout = header.retagged layout.tagsStart := by
    rw [TuxObject.relaid, hstart, hheader]
    rfl
  rw [hrelaid] at hlength ⊢
  have hbegins : header.Begins
      (prefixBytes (header.retagged layout.tagsStart) metadata tags layout) := by
    refine ⟨⟨layout.tagsStart, _, rfl⟩, ?_⟩
    rw [hlength, hstart, hheader]
    exact Nat.le_refl _
  have hhandles : ∀ {grip' : Grip}, grip'.Has i object.file true → grip'.Handles i header object :=
    fun h => ⟨hwritable ▸ h, tagsStart, hheader⟩
  refine seek_grip hpos ?_ fun _ => hgrip
  refine writeAll_grip (Function.update_self _ _ _) hbegins ?_ fun _ _ h => hhandles h
  intro grip₁ hgrip₁
  refine flush_grip hgrip₁ ?_ fun _ => hhandles hgrip₁
  exact ⟨hwritable ▸ hgrip₁, layout.tagsStart, rfl⟩

/-! ## What a user comes to -/

/-- What was told of the content is what the file has said initially, or the error of a call of the
query. -/
def ToldContent (mayFail : FsCall → Prop) (data : List UInt8) (transcript : Transcript) : Prop :=
  ∀ entry ∈ transcript, ¬ entry.1.OfPrefix →
    ∃ object, Answered mayFail object entry.1 entry.2 (entry.1.result data)

variable {metadata : MetadataMap}

lemma EditScript.run_safe (hread : readPrefix (w₀.data i) = .ok (header, metadata))
    (script : EditScript) {object : TuxObject} (hgrip : grip.Handles i header object) :
    Method.Safe (GripStep mayFail w₀ i header) (GripMay path i header) script.run object
      (fun transcript _ _ => ToldContent mayFail (w₀.data i) transcript) (fun _ _ _ => False)
      grip := by
  induction script generalizing grip object with
  | stop => exact Method.Safe.pure (List.forall_mem_nil _)
  | ask q next ih =>
      have hask : Fallible.Safe (GripStep mayFail w₀ i header) (GripMay path i header)
          (q.ask object)
          (fun shown grip' => grip'.Handles i header object ∧
            (¬ q.OfPrefix → ∃ object, Answered mayFail object q (.ok shown) (q.result (w₀.data i))))
          (fun e grip' => grip'.Handles i header object ∧
            (¬ q.OfPrefix → ∃ object, Answered mayFail object q (.error e)
              (q.result (w₀.data i)))) grip := by
        by_cases hq : q.OfPrefix
        · refine Fallible.Safe.mono (holds_ask hq grip hgrip.has) ?_ ?_
          · exact fun _ _ h => ⟨⟨h, hgrip.header_eq⟩, fun hnot => absurd hq hnot⟩
          · exact fun _ _ h => ⟨⟨h, hgrip.header_eq⟩, fun hnot => absurd hq hnot⟩
        · refine Fallible.Safe.mono (Fallible.Safe.gripped_own (ask_content hread hq hgrip)) ?_ ?_
          · exact fun shown _ h => ⟨h.1, fun _ => ⟨object, .inl h.2.symm⟩⟩
          · exact fun e _ h => ⟨h.1, fun _ => ⟨object, h.2.elim (fun hfail => .inr ⟨e, rfl, hfail⟩)
              fun he => .inl he.symm⟩⟩
      refine Method.Safe.bind (Method.Safe.get (Method.Safe.bind (Method.Safe.lift
        (Fallible.Safe.result (Fallible.Safe.mono hask ?_ ?_)))))
      · rintro shown grip' ⟨hgrip', hshown⟩
        refine Method.Safe.bind (Method.Safe.mono (ih _ hgrip') ?_ fun _ _ _ h => h)
        exact fun rest _ _ hrest => Method.Safe.pure (List.forall_mem_cons.mpr ⟨hshown, hrest⟩)
      · rintro e grip' ⟨hgrip', hshown⟩
        refine Method.Safe.bind (Method.Safe.mono (ih _ hgrip') ?_ fun _ _ _ h => h)
        exact fun rest _ _ hrest => Method.Safe.pure (List.forall_mem_cons.mpr ⟨hshown, hrest⟩)
  | update metadata tags next ih =>
      refine Method.Safe.bind (Method.Safe.result (Method.Safe.mono
        (setSectionsInPlace_grip hgrip) ?_ ?_))
      · exact fun _ _ _ hgrip' => ih _ hgrip'
      · exact fun _ _ _ hgrip' => ih _ hgrip'

lemma Editor.program_safe (hdir : w₀.dir path = some i)
    (hread : readPrefix (w₀.data i) = .ok (header, metadata)) (editor : Editor) (grip : Grip) :
    Program.Safe (GripStep mayFail w₀ i header) (GripMay path i header) (editor.program path)
      (fun result _ => ∀ transcript, result = .ok transcript →
        ToldContent mayFail (w₀.data i) transcript) grip := by
  unfold Editor.program
  refine Program.Safe.bind (Program.Safe.mono ?_ (openAs_grip hdir))
  rintro (e | object) grip₁ hgrip₁
  · rintro _ ⟨⟩
  · refine Program.Safe.bind (Program.Safe.mono ?_ (EditScript.run_safe hread _ hgrip₁))
    rintro ⟨_ | transcript, _⟩ grip₂ htold
    · exact htold.elim
    · rintro _ ⟨⟩
      exact htold

/-! ## All users -/

variable {κ : Type} [DecidableEq κ]

/-- The users hold their own handles on a file that is steady. -/
structure Gripped (w₀ : World) (i : ℕ) (header : ObjectHeader) (w : World) (grips : κ → Grip) :
    Prop where
  steady : Steady w₀ i header w
  files : ∀ {k fd f}, grips k fd = some f → w.files fd = some f
  apart : ∀ {k k' fd}, k ≠ k' → grips k fd ≠ none → grips k' fd = none

/-- The file system with the handles of one user. -/
def World.gripping (w : World) (grip : Grip)
    (h : ∀ fd f, grip fd = some f → w.files fd = some f) : World where
  dir := w.dir
  inodes := w.inodes
  files := grip
  next := w.next
  counter := w.counter
  pid := w.pid
  dir_lt := w.dir_lt
  files_lt {fd f} hf := w.files_lt (h fd f hf)

lemma Steady.gripping (hsteady : Steady w₀ i header w)
    (h : ∀ fd f, grip fd = some f → w.files fd = some f) :
    Steady w₀ i header (w.gripping grip h) :=
  ⟨hsteady.dir_eq, hsteady.others, hsteady.behind_eq, hsteady.stands⟩

section step

variable {grips : κ → Grip} {k : κ} {c : FsCall} {r : c.Reply}

/-- A user has moved one handle, which is its own or new. -/
lemma Gripped.update (h : Gripped w₀ i header w grips) (hsteady : Steady w₀ i header w') (fd : Fd)
    (hown : grips k fd ≠ none ∨ w.next ≤ fd)
    (hfiles : ∀ {fd'}, fd' ≠ fd → w'.files fd' = w.files fd' ∧ grip' fd' = grips k fd')
    (hfile : ∀ {f}, grip' fd = some f → w'.files fd = some f) :
    Gripped w₀ i header w' (Function.update grips k grip') := by
  have hothers : ∀ {k'}, k' ≠ k → grips k' fd = none := by
    intro k' hne
    obtain hsome | hnew := hown
    · exact h.apart hne.symm hsome
    · by_contra hsome
      obtain ⟨f, hf⟩ := Option.ne_none_iff_exists'.mp hsome
      exact absurd (w.files_lt (h.files hf)).1 (Nat.not_lt.mpr hnew)
  refine ⟨hsteady, @fun k' fd' f hf => ?_, @fun k₁ k₂ fd' hne hsome => ?_⟩
  · by_cases hk : k' = k
    · subst hk
      rw [Function.update_self] at hf
      by_cases hfd : fd' = fd
      · subst hfd
        exact hfile hf
      · obtain ⟨hsame, hgrip⟩ := hfiles hfd
        rw [hsame, h.files (hgrip.symm.trans hf)]
    · rw [Function.update_of_ne hk] at hf
      have hfd : fd' ≠ fd := by
        rintro rfl
        rw [hothers hk] at hf
        cases hf
      rw [(hfiles hfd).1, h.files hf]
  · by_cases hfd : fd' = fd
    · subst hfd
      -- the other user does not hold this handle
      by_cases hk₁ : k₁ = k
      · subst hk₁
        rw [Function.update_of_ne hne.symm]
        exact hothers hne.symm
      · rw [Function.update_of_ne hk₁, hothers hk₁] at hsome
        exact absurd rfl hsome
    · have hgrips : ∀ k', Function.update grips k grip' k' fd' = grips k' fd' := by
        intro k'
        by_cases hk : k' = k
        · rw [hk, Function.update_self, (hfiles hfd).2]
        · rw [Function.update_of_ne hk]
      rw [hgrips] at hsome ⊢
      exact h.apart hne hsome

/-- A call on a handle of a user. -/
lemma Gripped.handle {f : OpenFile} (h : Gripped w₀ i header w grips) (hfd : c.fd = some fd)
    (hgrip : grips k fd = some f) (hinode : f.inode = i)
    (hdata : Steady w₀ i header w' ∨ ¬ c.Writes) (hstep : FsStep mayFail c w r w') :
    ∃ grip', GripStep mayFail w₀ i header c (grips k) r grip' ∧
      Gripped w₀ i header w' (Function.update grips k grip') := by
  have hsame : SameFile fd f w (w.gripping (grips k) fun _ _ => h.files) :=
    ⟨h.files hgrip, hgrip, rfl⟩
  obtain ⟨change, rfl, hstep', hwrites⟩ := hstep.same hfd hsame
  have hsteady : Steady w₀ i header (change.apply fd f w) := by
    obtain hsteady | hnot := hdata
    · exact hsteady
    · subst hinode
      refine h.steady.of_same change.apply_dir (fun j hj => change.apply_inodes_of_ne hj) ?_
      exact change.apply_data fun bs hbs => hnot (hwrites bs hbs)
  refine ⟨_, ⟨_, _, h.steady.gripping fun _ _ => h.files, rfl, hstep', rfl⟩,
    h.update hsteady fd (.inl ?_) ?_ ?_⟩
  · rw [hgrip]
    exact Option.some_ne_none f
  · exact fun hne => ⟨change.apply_files_of_ne hne, change.apply_files_of_ne hne⟩
  · intro f' hf'
    rw [← (change.apply_same hsame).2.1, hf']

/-- Whatever a user may call, it sees a step of its own view, and the others keep theirs. -/
lemma Gripped.step (hdir : w₀.dir path = some i) (h : Gripped w₀ i header w grips)
    (hmay : GripMay path i header c (grips k)) (hstep : FsStep mayFail c w r w') :
    ∃ grip', GripStep mayFail w₀ i header c (grips k) r grip' ∧
      Gripped w₀ i header w' (Function.update grips k grip') := by
  cases c with
  | openFile p writable =>
      obtain rfl := hmay
      have hentry : w.dir p = some i := by rw [h.steady.dir_eq, hdir]
      obtain ⟨n, hn⟩ | ⟨hfail, hr, rfl⟩ := hstep
      · simp only [succeed, hentry] at hn
        cases hn
        have hopen : FsStep mayFail (.openFile p writable) (w.gripping (grips k) fun _ _ => h.files)
            (.ok (max n w.next)) ((w.gripping (grips k) fun _ _ => h.files).openAt p writable
              (max n w.next) (Nat.le_max_right _ _)) := by
          have hentry' : (w.gripping (grips k) fun _ _ => h.files).dir p = some i := hentry
          refine .inl ⟨n, ?_⟩
          simp only [succeed, hentry']
          rfl
        have hsteady : Steady w₀ i header (w.openAt p writable (max n w.next)
            (Nat.le_max_right _ _)) := h.steady.of_same rfl (fun _ _ => rfl) rfl
        refine ⟨_, ⟨_, _, h.steady.gripping fun _ _ => h.files, rfl, hopen, rfl⟩,
          h.update hsteady (max n w.next) (.inr (Nat.le_max_right _ _)) ?_ ?_⟩
        · exact fun hne => ⟨Function.update_of_ne hne _ _, Function.update_of_ne hne _ _⟩
        · intro f hf
          change Function.update (grips k) _ _ _ = _ at hf
          change Function.update w.files _ _ _ = _
          rw [Function.update_self] at hf ⊢
          exact hf
      · refine ⟨_, ⟨_, _, h.steady.gripping fun _ _ => h.files, rfl, .inr ⟨hfail, hr, rfl⟩,
          rfl⟩, ?_⟩
        show Gripped w₀ i header w' (Function.update grips k (grips k))
        rw [Function.update_eq_self]
        exact h
  | seek fd _ | read fd _ | readExact fd _ | flush fd =>
      obtain ⟨writable, pos, hgrip⟩ := hmay
      exact h.handle rfl hgrip rfl (.inr id) hstep
  | writeAll fd bs =>
      obtain ⟨hgrip, hbegins⟩ := hmay
      refine h.handle rfl hgrip rfl (.inl ?_) hstep
      obtain ⟨_, _, rfl⟩ | ⟨_, _, _, rfl | ⟨m, hm, _, rfl⟩⟩ :=
        hstep.writeAll_inv (h.files hgrip) rfl
      · have hput : Steady w₀ i header (w.put fd ⟨i, 0, true⟩ (bs.take bs.length)) :=
          h.steady.put rfl rfl hbegins (Nat.le_refl _)
        rw [List.take_length] at hput
        exact hput
      · exact h.steady
      · exact h.steady.put rfl rfl hbegins hm
  | _ => exact hmay.elim

end step

/-- Users at work on one file system. -/
abbrev Editors (κ : Type) : Type := Pool FsCall.Reply κ (Except ObjectFileError Transcript) World

/-- Nobody has begun. -/
def Editors.start (editors : κ → Editor) (path : Path) (w₀ : World) : Editors κ :=
  ⟨fun k => (editors k).program path, w₀⟩

/-- Any interleaving of their calls, where those of the user `k` may fail for which `mayFail k`
holds. -/
def Editors.Reachable (mayFail : κ → FsCall → Prop) (p q : Editors κ) : Prop :=
  Pool.Reachable (fun k => FsStep (mayFail k)) p q

/-- What the user has been told by now. -/
def Editors.HasBeenTold (p : Editors κ) (k : κ) (transcript : Transcript) : Prop :=
  Always (fun result => ∃ rest, result = .ok (transcript ++ rest)) (p.threads k)

end

attribute [local instance] fullPlatform pairCodecs

/-- One user goes on for `n` calls while the others wait. -/
def Editors.turn {κ : Type} [DecidableEq κ] (p : Editors κ) (k : κ) (n : ℕ) : Editors κ :=
  let next := Program.advance perform n (p.threads k) p.shared
  ⟨Function.update p.threads k next.1, next.2⟩

lemma Editors.Reachable.turn {κ : Type} [DecidableEq κ] {p q : Editors κ}
    (h : p.Reachable (fun _ => NoFaults) q) (k : κ) (n : ℕ) :
    p.Reachable (fun _ => NoFaults) (q.turn k n) :=
  Pool.Reachable.advance k (fsStep_perform NoFaults) n h

end TuxEncoding
