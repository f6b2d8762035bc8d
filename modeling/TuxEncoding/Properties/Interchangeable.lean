import TuxEncoding.Fs.Interchange
import TuxEncoding.Fs.Session
import TuxEncoding.Properties.Isolation

/-!
# The file layers are interchangeable

A client of the crate holds handles, writers and objects, and gives commands to a file layer.
tokio's files take 2 MiB at once, so the layers agree where no single `write` is given more.

* `FileLayer` is what a layer offers, and `FileLayer.blocking` and `FileLayer.tokio` are the two.
* `Command.run` is one command on one handle and `runScript` a script of commands on many.
* `command_similar`: on an uncompressed file system both layers carry out a command alike.
* `runScript_similar`: so do they a whole script, by induction on it. `Live` is what holds of the
  handles between two commands.
* `layers_take_differently`: a larger `write` is taken as a whole by the blocking layer only.
-/

namespace TuxEncoding

open Interaction Program

set_option linter.unusedSectionVars false

section

variable [Platform] [Codecs]

/-! ## Clients -/

/-- An update of the sections of an object. -/
inductive SectionUpdate
  | setMetadata (metadata : MetadataMap)
  | setTags (tags : Tags String)
  | setSections (metadata : MetadataMap) (tags : Tags String)
  | setSectionsInPlace (metadata : MetadataMap) (tags : Tags String)

/-- What a file layer offers, with writers in `W` and objects in `O`. -/
structure FileLayer (W O : Type) where
  create : Path → CreateOptions → Fs W
  write : List UInt8 → IoMethod W ℕ
  writeAll : List UInt8 → IoMethod W Unit
  edit : (MetadataMap × Tags String → MetadataMap × Tags String) → W → W
  finish : W → Fs O
  drop : W → Program FsCall.Reply Unit
  openAs : Path → Bool → Fs O
  ask : O → Query → Fs Shown
  update : SectionUpdate → FsMethod O Unit

/-- The updates of `TuxObject`. -/
def SectionUpdate.run : SectionUpdate → FsMethod TuxObject Unit
  | setMetadata metadata => TuxObject.setMetadata metadata
  | setTags tags => TuxObject.setTags tags
  | setSections metadata tags => TuxObject.setSections metadata tags
  | setSectionsInPlace metadata tags => TuxObject.setSectionsInPlace metadata tags

/-- The updates of `AsyncTuxObject`. -/
def SectionUpdate.runAsync : SectionUpdate → FsMethod AsyncTuxObject Unit
  | setMetadata metadata => AsyncTuxObject.setMetadata metadata
  | setTags tags => AsyncTuxObject.setTags tags
  | setSections metadata tags => AsyncTuxObject.setSections metadata tags
  | setSectionsInPlace metadata tags => AsyncTuxObject.setSectionsInPlace metadata tags

/-- Ask an object that was opened through tokio. -/
def Query.askAsync (object : AsyncTuxObject) : Query → Fs Shown
  | sections => pure (.sections object.header object.metadata)
  | tags => Shown.tags <$> object.readTags
  | tagCount => Shown.count <$> object.tagCount
  | tag key => Shown.value <$> object.findTag key
  | stored => Shown.bytes <$> object.readStored
  | content => Shown.bytes <$> object.readContentToVec
  | range offset length => Shown.bytes <$> object.readRange offset length

/-- A change through `metadata_mut` and `tags_mut` of the tokio writer. -/
def AsyncObjectWriter.edit (f : MetadataMap × Tags String → MetadataMap × Tags String)
    (self : AsyncObjectWriter) : AsyncObjectWriter :=
  { self with
    metadata := (f (self.metadata, self.tags)).1
    tags := (f (self.metadata, self.tags)).2 }

/-- `ObjectWriter` and `TuxObject` -/
def FileLayer.blocking : FileLayer ObjectWriter TuxObject where
  create := ObjectWriter.create
  write := ObjectWriter.write
  writeAll := ObjectWriter.writeAll
  edit := ObjectWriter.edit
  finish := ObjectWriter.finish
  drop := ObjectWriter.drop
  openAs := TuxObject.openAs
  ask object query := query.ask object
  update := SectionUpdate.run

/-- `AsyncObjectWriter` and `AsyncTuxObject` -/
def FileLayer.tokio : FileLayer AsyncObjectWriter AsyncTuxObject where
  create := AsyncObjectWriter.create
  write := AsyncObjectWriter.write
  writeAll := AsyncObjectWriter.writeAll
  edit := AsyncObjectWriter.edit
  finish := AsyncObjectWriter.finish
  drop := AsyncObjectWriter.drop
  openAs := AsyncTuxObject.openAs
  ask object query := query.askAsync object
  update := SectionUpdate.runAsync

/-- What a client holds. -/
inductive Handle (W O : Type)
  | free
  | writer (writer : W)
  | object (object : O)

/-- What a client does with one of its handles. -/
inductive Command
  | create (path : Path) (options : CreateOptions)
  | «open» (path : Path) (writable : Bool)
  | write (buf : List UInt8)
  | writeAll (buf : List UInt8)
  | edit (f : MetadataMap × Tags String → MetadataMap × Tags String)
  | finish
  | ask (query : Query)
  | update (u : SectionUpdate)
  | drop

/-- What a client is told. -/
inductive Response
  | done
  | written (n : ℕ)
  | shown (shown : Shown)
  /-- the handle is not one for this command -/
  | misused

/-- Carry out a command on a handle. A writer is consumed by `finish`, and the handle is the object
from then on. -/
def Command.run {W O : Type} (layer : FileLayer W O) (command : Command) :
    FsMethod (Handle W O) Response := do
  let handle ← get
  match handle, command with
  | .free, .create path options => do
      let writer ← layer.create path options
      set (Handle.writer writer : Handle W O)
      return .done
  | .free, .open path writable => do
      let object ← layer.openAs path writable
      set (Handle.object object : Handle W O)
      return .done
  | .writer writer, .write buf => do
      let n ← Method.focus .writer (Method.adapt .io (layer.write buf)) writer
      return .written n
  | .writer writer, .writeAll buf => do
      Method.focus .writer (Method.adapt .io (layer.writeAll buf)) writer
      return .done
  | .writer writer, .edit f => do
      set (Handle.writer (layer.edit f writer) : Handle W O)
      return .done
  | .writer writer, .finish => do
      set (Handle.free : Handle W O)
      let object ← layer.finish writer
      set (Handle.object object : Handle W O)
      return .done
  | .object object, .ask query => do
      let shown ← layer.ask object query
      return .shown shown
  | .object object, .update u => do
      Method.focus .object (layer.update u) object
      return .done
  | .writer writer, .drop => do
      set (Handle.free : Handle W O)
      let () ← (liftM (layer.drop writer) : Fs Unit)
      return .done
  | .object _, .drop => do
      set (Handle.free : Handle W O)
      return .done
  | _, _ => return .misused

/-- Commands on many handles. -/
abbrev Script := List (ℕ × Command)

/-- Carry out a script, whatever the results. -/
def runScript {W O : Type} (layer : FileLayer W O) : Script → (ℕ → Handle W O) →
    Program FsCall.Reply (List (Except ObjectFileError Response) × (ℕ → Handle W O))
  | [], handles => return ([], handles)
  | (k, command) :: script, handles => do
      let (result, handle) ← (command.run layer).on (handles k)
      let (results, handles) ← runScript layer script (Function.update handles k handle)
      return (result :: results, handles)

/-! ## Corresponding handles -/

/-- The same handle in the other layer. -/
def Handle.toAsync : Handle ObjectWriter TuxObject → Handle AsyncObjectWriter AsyncTuxObject
  | .free => .free
  | .writer self => .writer self.toAsync
  | .object self => .object self.toAsync

/-- The file of a handle. -/
def Handle.fd : Handle ObjectWriter TuxObject → Option Fd
  | .free => none
  | .writer self => some self.file
  | .object self => some self.file

/-- The handle is one on which the two layers act alike. -/
def Handle.IsPlain (w : World) : Handle ObjectWriter TuxObject → Prop
  | .free => True
  | .writer self => Ready w self
  | .object self => Usable w self

/-- No writer that the command creates compresses, and a single `write` is given no more than tokio
takes at once. -/
def Command.IsPlain : Command → Prop
  | create _ options => options.compression = .none
  | write buf => buf.length ≤ maxBufSize
  | _ => True

/-- What a command makes of a handle: the same one in both layers, on its old file or a new one. -/
structure HandledAlike (own : Option Fd) (n : ℕ) (handle : Handle ObjectWriter TuxObject)
    (handle' : Handle AsyncObjectWriter AsyncTuxObject) (w : World) : Prop where
  toAsync_eq : handle' = handle.toAsync
  isPlain : handle.IsPlain w
  mine : ∀ fd, handle.fd = some fd → Mine own n fd

variable {own : Option Fd} {n : ℕ} {w w' : World} {writer : ObjectWriter} {object : TuxObject}

lemma HandledAlike.of_free : HandledAlike own n .free .free w := ⟨rfl, trivial, nofun⟩

lemma HandledAlike.of_writer (h : Ready w writer) (hmine : Mine own n writer.file) :
    HandledAlike own n (.writer writer) (.writer writer.toAsync) w :=
  ⟨rfl, h, fun _ hfd => Option.some.inj hfd ▸ hmine⟩

lemma HandledAlike.of_object (h : Usable w object) (hmine : Mine own n object.file) :
    HandledAlike own n (.object object) (.object object.toAsync) w :=
  ⟨rfl, h, fun _ hfd => Option.some.inj hfd ▸ hmine⟩

/-! ## One command -/

/-- A query is answered alike. -/
lemma ask_similar (hmine : Mine own n object.file) (hplain : object.IsPlain) (query : Query) :
    Fallible.Similar Smooth (Careful own n) (query.ask object)
      (query.askAsync object.toAsync) (fun a b _ => a = b) (fun e e' _ => e.SameKind e') w := by
  have hmap : ∀ {α : Type} (f : α → Shown) {m m' : Fs α},
      Fallible.Similar Smooth (Careful own n) m m' (fun a b _ => a = b)
        (fun e e' _ => e.SameKind e') w →
      Fallible.Similar Smooth (Careful own n) (f <$> m) (f <$> m') (fun a b _ => a = b)
        (fun e e' _ => e.SameKind e') w := by
    intro α f m m' h
    rw [map_eq_pure_bind, map_eq_pure_bind]
    refine Fallible.Similar.bind (Fallible.Similar.mono h ?_ (fun _ _ _ he => he))
    rintro a _ w₁ rfl
    exact Fallible.Similar.pure rfl
  cases query with
  | sections => exact Fallible.Similar.pure rfl
  | tags => exact hmap _ (readTags_similar hmine)
  | tagCount => exact hmap _ (tagCount_similar hmine)
  | tag key => exact hmap _ (findTag_similar hmine key)
  | stored => exact hmap _ (readStored_similar hmine)
  | content => exact hmap _ (readContentToVec_similar hmine hplain)
  | range offset length => exact hmap _ (readRange_similar hmine hplain offset length)

/-- An update leaves the same handle in both layers. -/
lemma update_similar (hu : Uncompressed w) (hmine : Mine own n object.file) (hn : n ≤ w.next)
    (h : Usable w object) (u : SectionUpdate) :
    Method.Similar Smooth (Careful own n) u.run u.runAsync object object.toAsync
      (fun _ _ new new' w' => FinishedAlike own n new new' w')
      (fun e e' new new' w' => e.SameKind e' ∧ FinishedAlike own n new new' w') w := by
  have hstart : Uncompressed w ∧ Kept own n w w := ⟨hu, Kept.refl own n w⟩
  have hfails : ∀ {e e' new new' w'}, Untouched object e e' new new' ∧ Uncompressed w' ∧
      Kept own n w w' → e.SameKind e' ∧ FinishedAlike own n new new' w' := by
    rintro e e' _ _ w' ⟨⟨he, rfl, rfl⟩, _, hkept⟩
    exact ⟨he, rfl, h.of_next_le hkept.next_le, hmine⟩
  cases u with
  | setMetadata metadata =>
      exact Method.Similar.mono ((setMetadata_similar hu hmine hn h metadata).keeps
        (careful_keeps hn) hstart) (fun _ _ _ _ _ hnew => hnew.1) fun _ _ _ _ _ => hfails
  | setTags tags =>
      exact Method.Similar.mono ((setTags_similar hmine hn h tags).keeps (careful_keeps hn) hstart)
        (fun _ _ _ _ _ hnew => hnew.1) fun _ _ _ _ _ => hfails
  | setSections metadata tags =>
      exact Method.Similar.mono ((rewrite_similar hmine hn h metadata tags).keeps
        (careful_keeps hn) hstart) (fun _ _ _ _ _ hnew => hnew.1) fun _ _ _ _ _ => hfails
  | setSectionsInPlace metadata tags =>
      refine Method.Similar.mono ((setSectionsInPlace_similar hmine h.toIsPlain metadata tags).keeps
        (careful_keeps hn) hstart) ?_ fun _ _ _ _ _ => hfails
      rintro _ _ new _ w' ⟨⟨rfl, hplain, hfile⟩, _, hkept⟩
      rw [← hfile] at hmine
      exact ⟨rfl, ⟨hplain, hfile ▸ lt_of_lt_of_le h.file_lt hkept.next_le⟩, hmine⟩

/-- The postcondition of a command: the same response, or errors of one kind. -/
abbrev RespondAlike (own : Option Fd) (n : ℕ) (handle : Handle ObjectWriter TuxObject)
    (command : Command) (w : World) : Prop :=
  Method.Similar Smooth (Careful own n) (command.run FileLayer.blocking)
    (command.run FileLayer.tokio) handle handle.toAsync
    (fun r r' new new' w' => r = r' ∧ HandledAlike own n new new' w')
    (fun e e' new new' w' => e.SameKind e' ∧ HandledAlike own n new new' w') w

lemma HandledAlike.of_finished {object' : AsyncTuxObject}
    (h : FinishedAlike own n object object' w) :
    HandledAlike own n (.object object) (.object object') w :=
  h.toAsync_eq ▸ .of_object h.usable h.mine

lemma HandledAlike.of_writing {new : ObjectWriter} {new' : AsyncObjectWriter}
    (h : StillWriting writer w new new') (hmine : Mine own n writer.file) :
    HandledAlike own n (.writer new) (.writer new') w :=
  h.toAsync_eq ▸ .of_writer h.ready (h.file_eq ▸ hmine)

/-- A command on a handle that is free. -/
lemma free_similar (hu : Uncompressed w) (hn : n ≤ w.next) (command : Command)
    (hplain : command.IsPlain) : RespondAlike own n .free command w := by
  cases command with
  | create path options =>
      refine Method.Similar.bind (Method.Similar.get (Method.Similar.bind (Method.Similar.lift
        (Fallible.Similar.mono (createAs_similar hplain hn) ?_ ?_))))
      · rintro writer _ w₁ ⟨rfl, hready, hnext⟩
        exact Method.Similar.bind (Method.Similar.set (Method.Similar.pure
          ⟨rfl, .of_writer hready (.inr (le_trans hn hnext))⟩))
      · exact fun _ _ _ he => ⟨he, .of_free⟩
  | «open» path writable =>
      refine Method.Similar.bind (Method.Similar.get (Method.Similar.bind (Method.Similar.lift
        (Fallible.Similar.mono (openAs_similar hu hn path writable) ?_ ?_))))
      · exact fun _ _ _ hobject => Method.Similar.bind (Method.Similar.set (Method.Similar.pure
          ⟨rfl, .of_finished hobject⟩))
      · exact fun _ _ _ he => ⟨he, .of_free⟩
  | _ => exact Method.Similar.bind (Method.Similar.get (Method.Similar.pure ⟨rfl, .of_free⟩))

/-- A command on a writer. -/
lemma writer_similar (hn : n ≤ w.next) (h : Ready w writer) (hmine : Mine own n writer.file)
    (command : Command) (hplain : command.IsPlain) :
    RespondAlike own n (.writer writer) command w := by
  cases command with
  | write buf =>
      refine Method.Similar.bind (Method.Similar.get (Method.Similar.bind (Method.Similar.focus
        (Method.Similar.adapt (Method.Similar.mono (write_similar hmine h hplain) ?_ ?_)))))
      · rintro m _ new new' w₁ ⟨rfl, hnew⟩
        exact Method.Similar.pure ⟨rfl, .of_writing hnew hmine⟩
      · exact fun _ _ _ _ _ he => ⟨.io he.1, .of_writing he.2 hmine⟩
  | writeAll buf =>
      refine Method.Similar.bind (Method.Similar.get (Method.Similar.bind (Method.Similar.focus
        (Method.Similar.adapt (Method.Similar.mono (writeAllAs_similar hmine h buf) ?_ ?_)))))
      · exact fun _ _ _ _ _ hnew => Method.Similar.pure ⟨rfl, .of_writing hnew hmine⟩
      · exact fun _ _ _ _ _ he => ⟨.io he.1, .of_writing he.2 hmine⟩
  | edit f =>
      have hedited : Ready w (writer.edit f) := ⟨h.raw, h.uncompressed, h.deferred, h.file⟩
      exact Method.Similar.bind (Method.Similar.get (Method.Similar.bind (Method.Similar.set
        (Method.Similar.pure ⟨rfl, .of_writer hedited hmine⟩))))
  | finish =>
      refine Method.Similar.bind (Method.Similar.get (Method.Similar.bind (Method.Similar.set
        (Method.Similar.bind (Method.Similar.lift
          (Fallible.Similar.mono (finishAs_similar hmine hn h) ?_ ?_))))))
      · exact fun _ _ _ hobject => Method.Similar.bind (Method.Similar.set (Method.Similar.pure
          ⟨rfl, .of_finished hobject⟩))
      · exact fun _ _ _ he => ⟨he, .of_free⟩
  | drop =>
      refine Method.Similar.bind (Method.Similar.get (Method.Similar.bind (Method.Similar.set
        (Method.Similar.bind (Method.Similar.lift (Fallible.Similar.lift
          (Program.Similar.mono ?_ (drop_similar writer))))))))
      exact fun _ _ _ _ => Method.Similar.pure ⟨rfl, .of_free⟩
  | _ =>
      exact Method.Similar.bind (Method.Similar.get
        (Method.Similar.pure ⟨rfl, .of_writer h hmine⟩))

/-- A command on an object. -/
lemma object_similar (hu : Uncompressed w) (hn : n ≤ w.next) (h : Usable w object)
    (hmine : Mine own n object.file) (command : Command) :
    RespondAlike own n (.object object) command w := by
  cases command with
  | ask query =>
      refine Method.Similar.bind (Method.Similar.get (Method.Similar.bind (Method.Similar.lift
        (Fallible.Similar.mono ((ask_similar hmine h.toIsPlain query).keeps (careful_keeps hn)
          ⟨hu, Kept.refl own n w⟩) ?_ ?_))))
      · rintro shown _ w₁ ⟨rfl, _, hkept⟩
        exact Method.Similar.pure ⟨rfl, .of_object (h.of_next_le hkept.next_le) hmine⟩
      · exact fun _ _ _ he => ⟨he.1, .of_object (h.of_next_le he.2.2.next_le) hmine⟩
  | update u =>
      refine Method.Similar.bind (Method.Similar.get (Method.Similar.bind (Method.Similar.focus
        (Method.Similar.mono (update_similar hu hmine hn h u) ?_ ?_))))
      · exact fun _ _ _ _ _ hnew => Method.Similar.pure ⟨rfl, .of_finished hnew⟩
      · exact fun _ _ _ _ _ he => ⟨he.1, .of_finished he.2⟩
  | drop =>
      exact Method.Similar.bind (Method.Similar.get (Method.Similar.bind (Method.Similar.set
        (Method.Similar.pure ⟨rfl, .of_free⟩))))
  | _ =>
      exact Method.Similar.bind (Method.Similar.get
        (Method.Similar.pure ⟨rfl, .of_object h hmine⟩))

/-- Both layers carry out a command alike. -/
lemma command_similar (hu : Uncompressed w) {handle : Handle ObjectWriter TuxObject}
    (h : handle.IsPlain w) (command : Command) (hplain : command.IsPlain) :
    RespondAlike handle.fd w.next handle command w := by
  cases handle with
  | free => exact free_similar hu (Nat.le_refl _) command hplain
  | writer self => exact writer_similar (Nat.le_refl _) h (.inl rfl) command hplain
  | object self => exact object_similar hu (Nat.le_refl _) h (.inl rfl) command

/-! ## Scripts -/

/-- What holds of the handles of a client between two commands. -/
structure Live (w : World) (handles : ℕ → Handle ObjectWriter TuxObject) : Prop where
  uncompressed : Uncompressed w
  isPlain : ∀ k, (handles k).IsPlain w
  /-- no two handles are on one open file -/
  distinct : ∀ {j k fd}, (handles j).fd = some fd → (handles k).fd = some fd → j = k

lemma Handle.IsPlain.fd_lt {handle : Handle ObjectWriter TuxObject} {fd : Fd}
    (h : handle.IsPlain w) (hfd : handle.fd = some fd) : fd < w.next := by
  cases handle with
  | free => cases hfd
  | writer self =>
      obtain ⟨f, hf, _⟩ := h.file
      obtain rfl := Option.some.inj hfd
      exact (w.files_lt hf).1
  | object self =>
      obtain rfl := Option.some.inj hfd
      exact h.file_lt

/-- A command leaves the handles alone that it is not about. -/
lemma Handle.IsPlain.of_kept {handle : Handle ObjectWriter TuxObject} (h : handle.IsPlain w)
    (hother : ∀ {fd}, handle.fd = some fd → ¬ Mine own w.next fd)
    (hkept : Kept own w.next w w') : handle.IsPlain w' := by
  cases handle with
  | free => trivial
  | object self => exact h.of_next_le hkept.next_le
  | writer self =>
      obtain ⟨f, hf, hwritable, hpos, hroom⟩ := h.file
      exact ⟨h.raw, h.uncompressed, h.deferred, f, (hkept.files (hother rfl)).trans hf, hwritable,
        hpos, hkept.hasRoom (w.files_lt hf).2 hroom⟩

/-- What a command makes of its handle is live with the others. -/
lemma Live.step {handles : ℕ → Handle ObjectWriter TuxObject} (h : Live w handles) {k : ℕ}
    {new : Handle ObjectWriter TuxObject} {new' : Handle AsyncObjectWriter AsyncTuxObject}
    (hu : Uncompressed w') (hkept : Kept (handles k).fd w.next w w')
    (hnew : HandledAlike (handles k).fd w.next new new' w') :
    Live w' (Function.update handles k new) := by
  have hother : ∀ {j fd}, j ≠ k → (handles j).fd = some fd → ¬ Mine (handles k).fd w.next fd := by
    rintro j fd hj hfd (hown | hle)
    · exact hj (h.distinct hfd hown)
    · exact absurd hle (Nat.not_le.mpr ((h.isPlain j).fd_lt hfd))
  have hapart : ∀ {j fd}, j ≠ k → (handles j).fd = some fd → new.fd ≠ some fd :=
    fun hj hfd hnewFd => hother hj hfd (hnew.mine _ hnewFd)
  refine ⟨hu, fun j => ?_, @fun i j fd hi hj => ?_⟩
  · rcases eq_or_ne j k with rfl | hjk
    · rw [Function.update_self]
      exact hnew.isPlain
    · rw [Function.update_of_ne hjk]
      exact (h.isPlain j).of_kept (hother hjk) hkept
  · rcases eq_or_ne i k with rfl | hik <;> rcases eq_or_ne j i with rfl | hji
    · rfl
    · rw [Function.update_self] at hi
      rw [Function.update_of_ne hji] at hj
      exact absurd hi (hapart hji hj)
    · rfl
    · rw [Function.update_of_ne hik] at hi
      rcases eq_or_ne j k with rfl | hjk
      · rw [Function.update_self] at hj
        exact absurd hj (hapart hik hi)
      · rw [Function.update_of_ne hjk] at hj
        exact h.distinct hi hj

/-- Two results are the same, or errors of one kind. -/
abbrev SameResult {α : Type} : Except ObjectFileError α → Except ObjectFileError α → Prop :=
  BothReturn (· = ·) ObjectFileError.SameKind

/-- What a client is told and holds after a script, in both layers. -/
structure SameOutcome
    (outcome : List (Except ObjectFileError Response) × (ℕ → Handle ObjectWriter TuxObject))
    (outcome' : List (Except ObjectFileError Response) ×
      (ℕ → Handle AsyncObjectWriter AsyncTuxObject)) : Prop where
  results : List.Forall₂ SameResult outcome.1 outcome'.1
  handles : outcome'.2 = fun k => (outcome.2 k).toAsync

/-- Both layers carry out a script alike. -/
lemma runScript_similar (script : Script) (hplain : ∀ entry ∈ script, entry.2.IsPlain)
    {handles : ℕ → Handle ObjectWriter TuxObject} (h : Live w handles) :
    Program.Similar Smooth (fun _ _ => True)
      (fun outcome outcome' _ => SameOutcome outcome outcome')
      (runScript FileLayer.blocking script handles)
      (runScript FileLayer.tokio script fun k => (handles k).toAsync) w := by
  induction script generalizing handles w with
  | nil => exact .done ⟨.nil, rfl⟩
  | cons entry script ih =>
      obtain ⟨k, command⟩ := entry
      have hcommand := Method.Similar.keeps (careful_keeps (Nat.le_refl w.next))
        (command_similar h.uncompressed (h.isPlain k) command
          (hplain (k, command) List.mem_cons_self)) ⟨h.uncompressed, Kept.refl _ _ w⟩
      refine Program.Similar.bind (Program.Similar.mono ?_
        (Program.Similar.allow (fun _ _ _ => trivial) hcommand))
      rintro ⟨r, new⟩ ⟨r', new'⟩ w₁ hr
      obtain ⟨hresult, hnew, hu, hkept⟩ : SameResult r r' ∧
          HandledAlike (handles k).fd w.next new new' w₁ ∧ Uncompressed w₁ ∧
            Kept (handles k).fd w.next w w₁ := by
        rcases r with e | a <;> rcases r' with e' | a'
        · exact ⟨hr.1.1, hr.1.2, hr.2⟩
        · exact hr.elim
        · exact hr.elim
        · exact ⟨hr.1.1, hr.1.2, hr.2⟩
      have hhandles : Function.update (fun j => (handles j).toAsync) k new' =
          fun j => (Function.update handles k new j).toAsync := by
        rw [hnew.toAsync_eq]
        exact (Function.comp_update Handle.toAsync handles k new).symm
      dsimp only
      rw [hhandles]
      refine Program.Similar.bind (Program.Similar.mono ?_ (ih
        (fun entry hentry => hplain entry (List.mem_cons_of_mem _ hentry))
        (h.step hu hkept hnew)))
      rintro ⟨results, handles₁⟩ ⟨results', handles₁'⟩ w₂ hrest
      exact .done ⟨.cons hresult hrest.results, hrest.handles⟩

/-- The two layers carry out a script with equal results and leave the same file system, when no
call fails and no file outgrows the length that files can have: each run of one is matched by a run
of the other, and against one handler they agree. -/
structure LayersAgree (script : Script) (w : World) : Prop where
  tokio_of_blocking : ∀ {outcome w'},
    Ends Smooth (runScript FileLayer.blocking script fun _ => .free) w outcome w' →
    ∃ outcome', Ends Smooth (runScript FileLayer.tokio script fun _ => .free) w outcome'
      w' ∧ SameOutcome outcome outcome'
  blocking_of_tokio : ∀ {outcome' w'},
    Ends Smooth (runScript FileLayer.tokio script fun _ => .free) w outcome' w' →
    ∃ outcome, Ends Smooth (runScript FileLayer.blocking script fun _ => .free) w outcome
      w' ∧ SameOutcome outcome outcome'
  exec : ∀ {handler : Handler FsCall.Reply World},
    Obeys Smooth handler (runScript FileLayer.blocking script fun _ => .free) w →
    Obeys Smooth handler (runScript FileLayer.tokio script fun _ => .free) w →
    SameOutcome (Program.exec handler (runScript FileLayer.blocking script fun _ => .free) w).1
        (Program.exec handler (runScript FileLayer.tokio script fun _ => .free) w).1 ∧
      (Program.exec handler (runScript FileLayer.tokio script fun _ => .free) w).2 =
        (Program.exec handler (runScript FileLayer.blocking script fun _ => .free) w).2

/-- On a file system without compressed objects, every script that creates none and gives no single
`write` more than 2 MiB has equal results in both layers, and leaves the same files. -/
theorem layers_interchangeable (hu : Uncompressed w) {script : Script}
    (hplain : ∀ entry ∈ script, entry.2.IsPlain) : LayersAgree script w := by
  have hlive : Live w fun _ => Handle.free := ⟨hu, fun _ => trivial, nofun⟩
  have hsimilar := runScript_similar script hplain hlive
  exact ⟨hsimilar.ends, hsimilar.ends_of, fun hp hq => hsimilar.exec hp hq⟩

/-! ## A large write -/

variable {W O : Type} {layer : FileLayer W O}

/-- A new object, with one `write` of `buf`. -/
abbrev writeOnce (buf : List UInt8) : Script :=
  [(0, .create World.somePath { CreateOptions.default with layout := .packed }), (0, .write buf)]

/-- The script reports what `write` returns. -/
lemma writeOnce_safe {buf : List UInt8} {m : ℕ} {P : World → Prop}
    (h : Fallible.Safe (Answers perform) (fun _ _ => True)
      (layer.create World.somePath { CreateOptions.default with layout := .packed })
      (fun writer w => Method.Safe (Answers perform) (fun _ _ => True) (layer.write buf) writer
        (fun n _ w' => n = m ∧ P w') (fun _ _ _ => False) w) (fun _ _ => False) World.empty) :
    Program.Safe (Answers perform) (fun _ _ => True)
      (runScript layer (writeOnce buf) fun _ => .free)
      (fun outcome w' => outcome.1 = [.ok .done, .ok (.written m)] ∧ P w') World.empty := by
  have hcreate : Method.Safe (Answers perform) (fun _ _ => True)
      (Command.run layer (.create World.somePath { CreateOptions.default with layout := .packed }))
      .free (fun r handle w => r = .done ∧ ∃ writer, handle = .writer writer ∧
        Method.Safe (Answers perform) (fun _ _ => True) (layer.write buf) writer
          (fun n _ w' => n = m ∧ P w') (fun _ _ _ => False) w) (fun _ _ _ => False)
        World.empty := by
    refine Method.Safe.bind (Method.Safe.get (Method.Safe.bind (Method.Safe.lift
      (Fallible.Safe.mono h ?_ (fun _ _ hfalse => hfalse)))))
    exact fun writer w hwrite => Method.Safe.bind (Method.Safe.set (Method.Safe.pure
      ⟨rfl, writer, rfl, hwrite⟩))
  refine Program.Safe.bind (Program.Safe.mono ?_ hcreate)
  rintro ⟨e | r, handle⟩ w hr
  · exact hr.elim
  obtain ⟨rfl, writer, rfl, hwrite⟩ := hr
  have hwritten : Method.Safe (Answers perform) (fun _ _ => True) (Command.run layer (.write buf))
      (.writer writer) (fun r _ w' => r = .written m ∧ P w') (fun _ _ _ => False) w := by
    refine Method.Safe.bind (Method.Safe.get (Method.Safe.bind (Method.Safe.focus
      (Method.Safe.adapt (Method.Safe.mono hwrite ?_ (fun _ _ _ hfalse => hfalse))))))
    rintro _ _ w' ⟨rfl, hw'⟩
    exact Method.Safe.pure ⟨rfl, hw'⟩
  refine Program.Safe.bind (Program.Safe.bind (Program.Safe.mono ?_ hwritten))
  rintro ⟨e | r, handle⟩ w' hr
  · exact hr.elim
  obtain ⟨rfl, hw'⟩ := hr
  exact ⟨rfl, hw'⟩

/-- The blocking writer takes the whole buffer. -/
lemma write_whole {self : ObjectWriter} {f : OpenFile} {buf : List UInt8}
    (hraw : self.allowRawWrites = true) (hf : w.files self.file = some f)
    (hwritable : f.writable = true) (hroom : f.pos + buf.length ≤ maxFileLength) :
    Method.Safe (Answers perform) (fun _ _ => True) (FileLayer.blocking.write buf) self
      (fun n _ w' => n = buf.length ∧ w' = w.put self.file f buf) (fun _ _ _ => False) w := by
  show Program.Safe _ _ ((ObjectWriter.write buf).on self) _ _
  rw [write_on hraw]
  refine ⟨trivial, fun r w' hstep => ?_⟩
  obtain ⟨rfl, rfl⟩ : r = .ok buf.length ∧ w' = w.put self.file f buf := by
    simpa only [Answers, perform, succeed, hf, hwritable, Prod.mk.injEq, not_true_eq_false,
      if_false, gt_iff_lt, if_neg (Nat.not_lt.mpr hroom)] using hstep
  exact ⟨rfl, rfl⟩

/-- The tokio writer takes the first 2 MiB of it. -/
lemma write_part {self : AsyncObjectWriter} {f : OpenFile} {buf : List UInt8}
    (hdeferred : self.deferred = none) (hf : w.files self.file = some f)
    (hwritable : f.writable = true) (hroom : f.pos + (buf.take maxBufSize).length ≤ maxFileLength) :
    Method.Safe (Answers perform) (fun _ _ => True) (FileLayer.tokio.write buf) self
      (fun n _ w' => n = (buf.take maxBufSize).length ∧
        w' = w.put self.file f (buf.take maxBufSize)) (fun _ _ _ => False) w := by
  show Program.Safe _ _ ((AsyncObjectWriter.write buf).on self) _ _
  rw [asyncWrite_on hdeferred]
  refine ⟨trivial, fun r w' hstep => ?_⟩
  obtain ⟨rfl, rfl⟩ : r = .ok () ∧ w' = w.put self.file f (buf.take maxBufSize) := by
    simpa only [Answers, perform, succeed, hf, hwritable, Prod.mk.injEq, not_true_eq_false,
      if_false, gt_iff_lt, if_neg (Nat.not_lt.mpr hroom)] using hstep
  exact ⟨rfl, rfl⟩

end

attribute [local instance] fullPlatform pairCodecs

/-- An object is written with an edit that outgrows its prefix, and updated and read again. -/
abbrev outgrowing : Script :=
  [(0, .create World.somePath { CreateOptions.default with layout := .packed }),
    (0, .writeAll [1, 2]),
    (0, .edit fun s => (s.1, s.2.insert "k" (.bool true))),
    (0, .write [3]),
    (0, .finish),
    (0, .update (.setTags (Tags.new.insert "l" (.bool false)))),
    (1, .open World.somePath false),
    (1, .ask (.tag "l")),
    (1, .ask (.range 1 none)),
    (1, .update (.setMetadata Tags.new))]

/-- It agrees also where the prefix is outgrown and where an update is refused. -/
theorem layers_interchangeable_outgrowing : LayersAgree outgrowing World.empty := by
  have hu : Uncompressed World.empty := nofun
  have hplain : ∀ entry ∈ outgrowing, entry.2.IsPlain := by
    simp [Command.IsPlain, CreateOptions.default, maxBufSize]
  exact layers_interchangeable hu hplain

/-- The tokio layer needs three temporary files for it, and refuses the last update only. -/
example : (exec perform (runScript FileLayer.tokio outgrowing fun _ => .free) World.empty).2.counter
      = 3 ∧
    (exec perform (runScript FileLayer.tokio outgrowing fun _ => .free) World.empty).1.1.map
      (·.isOk) = List.replicate 9 true ++ [false] := by decide +kernel

/-- The handle of a new writer stands at the end of an empty prefix. -/
def BehindPrefix (fd : Fd) (w : World) : Prop :=
  ∃ f, w.files fd = some f ∧ f.writable = true ∧ f.pos = 36 ∧ f.inode = 0 ∧ w.data 0 = []

lemma writeOnce_created :
    Fallible.Safe (Answers perform) (fun _ _ => True)
        (FileLayer.blocking.create World.somePath { CreateOptions.default with layout := .packed })
        (fun self w => self.allowRawWrites = true ∧ BehindPrefix self.file w)
        (fun _ _ => False) World.empty ∧
      Fallible.Safe (Answers perform) (fun _ _ => True)
        (FileLayer.tokio.create World.somePath { CreateOptions.default with layout := .packed })
        (fun self w => self.deferred = none ∧ BehindPrefix self.file w)
        (fun _ _ => False) World.empty := by
  constructor
  · exact Program.Safe.of_exec ⟨rfl, _, rfl, rfl, by decide +kernel, rfl, rfl⟩
  · exact Program.Safe.of_exec ⟨rfl, _, rfl, rfl, by decide +kernel, rfl, rfl⟩

/-- What a first write leaves in the file. -/
lemma length_put_first {fd : Fd} {f : OpenFile} {w : World} {bs : List UInt8}
    (hinode : f.inode = 0) (hempty : w.data 0 = []) (hbs : bs ≠ []) :
    ((w.put fd f bs).data 0).length = f.pos + bs.length := by
  have hdata := World.put_data_self (w := w) fd f bs
  rw [hinode, hempty] at hdata
  rw [hdata, Bytes.length_overwrite _ _ _ hbs]
  exact Nat.max_eq_right (Nat.zero_le _)

/-- A first `write` of `buf`, in both layers. -/
lemma writeOnce_differs {buf : List UInt8} (hbuf : maxBufSize ≤ buf.length)
    (hroom : 36 + buf.length ≤ maxFileLength) :
    ((exec perform (runScript FileLayer.blocking (writeOnce buf) fun _ => .free)
          World.empty).1.1 = [.ok .done, .ok (.written buf.length)] ∧
        ((exec perform (runScript FileLayer.blocking (writeOnce buf) fun _ => .free)
          World.empty).2.data 0).length = 36 + buf.length) ∧
      (exec perform (runScript FileLayer.tokio (writeOnce buf) fun _ => .free)
          World.empty).1.1 = [.ok .done, .ok (.written maxBufSize)] ∧
        ((exec perform (runScript FileLayer.tokio (writeOnce buf) fun _ => .free)
          World.empty).2.data 0).length = 36 + maxBufSize := by
  have htake : (buf.take maxBufSize).length = maxBufSize := List.length_take_of_le hbuf
  have hne : ∀ {bs : List UInt8}, maxBufSize ≤ bs.length → bs ≠ [] := by
    rintro _ hle rfl
    exact absurd hle (by decide)
  constructor
  · refine (@writeOnce_safe _ _ _ _ FileLayer.blocking buf buf.length
      (fun w => (w.data 0).length = 36 + buf.length)
      (Fallible.Safe.mono writeOnce_created.1 ?_ (fun _ _ h => h))).exec
    rintro self w ⟨hraw, f, hf, hwritable, hpos, hinode, hempty⟩
    refine Method.Safe.mono (write_whole hraw hf hwritable (hpos ▸ hroom)) ?_ (fun _ _ _ h => h)
    rintro _ _ _ ⟨rfl, rfl⟩
    exact ⟨rfl, (length_put_first hinode hempty (hne hbuf)).trans (by rw [hpos])⟩
  · refine (@writeOnce_safe _ _ _ _ FileLayer.tokio buf maxBufSize
      (fun w => (w.data 0).length = 36 + maxBufSize)
      (Fallible.Safe.mono writeOnce_created.2 ?_ (fun _ _ h => h))).exec
    rintro self w ⟨hdeferred, f, hf, hwritable, hpos, hinode, hempty⟩
    have hfits : f.pos + (buf.take maxBufSize).length ≤ maxFileLength := by omega
    refine Method.Safe.mono (write_part hdeferred hf hwritable hfits) ?_ (fun _ _ _ h => h)
    rintro _ _ _ ⟨rfl, rfl⟩
    refine ⟨htake, ?_⟩
    rw [length_put_first hinode hempty (hne (Nat.le_of_eq htake.symm)), htake, hpos]

/-- Without any fault, one `write` of 3 MiB is taken as a whole by the blocking layer, and in part
by the tokio one: the results differ, and so do the files. -/
theorem layers_take_differently :
    let large := List.replicate 3145728 (0 : UInt8)
    let blocking := exec perform (runScript FileLayer.blocking (writeOnce large) fun _ => .free)
      World.empty
    let tokio := exec perform (runScript FileLayer.tokio (writeOnce large) fun _ => .free)
      World.empty
    (blocking.1.1 = [.ok .done, .ok (.written 3145728)] ∧
        (blocking.2.data 0).length = 36 + 3145728) ∧
      tokio.1.1 = [.ok .done, .ok (.written 2097152)] ∧
        (tokio.2.data 0).length = 36 + 2097152 := by
  intro large
  have hlength : large.length = 3145728 := List.length_replicate
  have hmax : maxBufSize = 2097152 := rfl
  clear_value large
  have h := @writeOnce_differs large (by rw [hlength, hmax]; decide) (by rw [hlength]; decide)
  rw [hlength, hmax] at h
  exact h

end TuxEncoding
