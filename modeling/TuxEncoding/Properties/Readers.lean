import TuxEncoding.Codec.Cuts
import TuxEncoding.Properties.Isolation
import TuxEncoding.Properties.Publication

/-!
# Readers beside writers

Writers that share a file system, as in `Shared`, and readers that open their paths while they
work.

* `Opening` is how a reader opens its path, and `QueryScript` what it asks of the object then; what
  it asks next may depend on the answers. `ReaderRun` is a reader.
* `Site` is the shared file system with the versions that have stood at each path, and `Site.Step`
  the call of a writer or of a reader.
* `Sealed` is a file that no writer writes to any more: one that was there initially, or one that
  has been published. `writer_frame` says that a writer leaves these and the handles of the readers
  alone, and `ReadOnly.spares` that a reader leaves all that a writer knows alone.
* `Sight` is what a reader knows: its handle, the bytes behind it, and which version these are.
  `ReadStep` is a call in this view, and `ReaderRun.program_safe` what a reader comes to there.
-/

namespace TuxEncoding

open Bytes Interaction Program

set_option linter.unusedSectionVars false

/-! ## Readers -/

section

variable [Platform] [Codecs]

/-- What a reader asks of an object, one query after the other. -/
inductive QueryScript
  | stop
  | ask (q : Query) (next : Except ObjectFileError Shown → QueryScript)

/-- Queries and what they have shown. -/
abbrev Transcript : Type := List (Query × Except ObjectFileError Shown)

/-- Ask an object; an error is an answer, too. -/
def QueryScript.run (object : TuxObject) : QueryScript → Fs Transcript
  | stop => pure []
  | ask q next => do
      let shown ← Fallible.result (q.ask object)
      let rest ← (next shown).run object
      return (q, shown) :: rest

/-- The ways to open a path. -/
inductive Opening
  | «open»
  | openWritable
  | openOptional
  deriving DecidableEq

/-- Open a path; only `open_optional` may come back without an object. -/
def Opening.run (path : Path) : Opening → Fs (Option TuxObject)
  | «open» => some <$> TuxObject.open path
  | openWritable => some <$> TuxObject.openWritable path
  | openOptional => TuxObject.openOptional path

/-- A reader that somebody runs, at the path of a writer. -/
structure ReaderRun (ι : Type) where
  target : ι
  opening : Opening
  script : QueryScript

/-- What a reader comes to. -/
abbrev Seen : Type := Except ObjectFileError (Option (TuxObject × Transcript))

namespace ReaderRun

variable {ι : Type}

/-- Where the reader looks. -/
def path (runs : ι → WriterRun) (reader : ReaderRun ι) : Path := (runs reader.target).path

/-- The calls of a reader. -/
def program (runs : ι → WriterRun) (reader : ReaderRun ι) : Program FsCall.Reply Seen :=
  (do
    match ← reader.opening.run (reader.path runs) with
    | none => return none
    | some object =>
        let transcript ← reader.script.run object
        return some (object, transcript) : Fs (Option (TuxObject × Transcript))).run

end ReaderRun

end

/-! ## The shared file system -/

/-- What stands at a path: nothing, or the bytes of a file. -/
abbrev Version : Type := Option (List UInt8)

/-- What the path leads to. -/
def World.version (w : World) (path : Path) : Version := (w.dir path).map w.data

/-- A shared file system, and the versions that have stood at each path, the latest one last. -/
structure Site (ι : Type) where
  shared : Shared ι
  versions : Path → List Version

namespace Site

variable {ι κ : Type} [DecidableEq ι]

/-- A rename puts the next version in its place. -/
def versionsAfter (s : Site ι) : (c : FsCall) → c.Reply → Path → List Version
  | .rename src dst, .ok () => Function.update s.versions dst
      (s.versions dst ++ [s.shared.world.version src])
  | _, _ => s.versions

/-- The call of a writer, which may fail, or of the reader `k`, which may fail where `mayFail k`
holds. -/
def Step (mayFail : κ → FsCall → Prop) (pid : ι → ℕ) :
    ι ⊕ κ → (c : FsCall) → Site ι → c.Reply → Site ι → Prop
  | .inl i, c, s, r, s' =>
      Shared.Step pid i c s.shared r s'.shared ∧ s'.versions = s.versionsAfter c r
  | .inr k, c, s, r, s' => FsStep (mayFail k) c s.shared.world r s'.shared.world ∧
      s'.shared.owner = s.shared.owner ∧ s'.shared.publisher = s.shared.publisher ∧
        s'.versions = s.versions

/-- The call, when nobody else is at work and nothing fails. -/
def perform (pid : ι → ℕ) : ι ⊕ κ → Program.Handler FsCall.Reply (Site ι)
  | .inl i, c, s => ((Shared.perform pid i c s.shared).1,
      ⟨(Shared.perform pid i c s.shared).2,
        s.versionsAfter c (Shared.perform pid i c s.shared).1⟩)
  | .inr _, c, s => ((TuxEncoding.perform c s.shared.world).1,
      ⟨⟨(TuxEncoding.perform c s.shared.world).2, s.shared.owner, s.shared.publisher⟩,
        s.versions⟩)

lemma step_perform (mayFail : κ → FsCall → Prop) (pid : ι → ℕ) (t : ι ⊕ κ) (c : FsCall)
    (s : Site ι) : Step mayFail pid t c s (perform pid t c s).1 (perform pid t c s).2 := by
  cases t with
  | inl i => exact ⟨Shared.step_perform pid i c s.shared, rfl⟩
  | inr k => exact ⟨fsStep_perform (mayFail k) c s.shared.world, rfl, rfl, rfl⟩

end Site

/-! ## Files that nobody writes to any more -/

section

variable [Platform] [Codecs] {ι : Type} [DecidableEq ι] (runs : ι → WriterRun) (w₀ : World)

/-- The file was there initially, or its writer has it at no temporary path any more. -/
def Sealed (g : Shared ι) (k : ℕ) : Prop :=
  k < w₀.next ∨ ∃ j, g.owner k = some j ∧
    ∀ path, path ≠ (runs j).path → g.world.dir path ≠ some k

/-- What a writer leaves as it was: handles that are not its own, and the bytes of sealed files. -/
structure Frame (g g' : Shared ι) : Prop where
  next_le : g.world.next ≤ g'.world.next
  handles : ∀ {fd}, fd < g.world.next → g.owner fd = none →
    g'.owner fd = none ∧ g'.world.files fd = g.world.files fd
  files : ∀ {k}, Sealed runs w₀ g k →
    Sealed runs w₀ g' k ∧ g'.world.data k = g.world.data k

variable {runs w₀} {pub : ι → List UInt8 → Prop} {g g' : Shared ι} {i : ι} {v : World}

lemma Sound.lt_next (h : Sound runs w₀ pub g) {k : ℕ} (hk : Sealed runs w₀ g k) :
    k < g.world.next := by
  obtain hlt | ⟨j, hj, _⟩ := hk
  · exact Nat.lt_of_lt_of_le hlt h.next_le
  · exact (h.owner_lt hj).2

/-- What stands at a final path is sealed. -/
lemma Sound.sealed (h : Sound runs w₀ pub g) {k : ℕ} (hdir : g.world.dir (runs i).path = some k) :
    Sealed runs w₀ g k := by
  cases hpub : g.publisher (runs i).path with
  | none => exact .inl (w₀.dir_lt ((h.unpublished hpub).symm.trans hdir))
  | some j =>
      obtain ⟨hpath, k', hdir', hk', _⟩ := h.published hpub
      obtain rfl := Option.some.inj (hdir'.symm.trans hdir)
      refine .inr ⟨j, hk', fun path hne hpath' => hne ?_⟩
      rw [hpath]
      exact h.onePath (h.owner_lt hk').1 hpath' hdir

/-- What is behind a temporary path of a writer is not sealed. -/
lemma ViewOf.not_sealed (hview : ViewOf runs g i v) (hsound : Sound runs w₀ pub g) {path : Path}
    {k : ℕ} (hdir : v.dir path = some k) (hne : path ≠ (runs i).path) :
    ¬ Sealed runs w₀ g k := by
  have howner := hview.owned hdir
  rintro (hlt | ⟨j, hj, hnone⟩)
  · exact absurd (hsound.owner_lt howner).1 (Nat.not_le.mpr hlt)
  · obtain rfl := Option.some.inj (howner.symm.trans hj)
    exact hnone path hne (hview.temp hdir hne).2

/-- A call that leaves paths and files alone, and handles up to its own. -/
lemma Frame.of_same (hnext : g.world.next ≤ g'.world.next) (howner : g'.owner = g.owner)
    (hdir : g'.world.dir = g.world.dir)
    (hfiles : ∀ fd, g.owner fd = none → g'.world.files fd = g.world.files fd)
    (hdata : ∀ k, Sealed runs w₀ g k → g'.world.data k = g.world.data k) :
    Frame runs w₀ g g' where
  next_le := hnext
  handles _ hfd := ⟨by rw [howner, hfd], hfiles _ hfd⟩
  files hk := ⟨by rwa [Sealed, howner, hdir], hdata _ hk⟩

lemma Frame.refl (g : Shared ι) : Frame runs w₀ g g :=
  .of_same (Nat.le_refl _) rfl rfl (fun _ _ => rfl) fun _ _ => rfl

/-- A call of a writer on a handle of its own. -/
lemma handle_frame {c : FsCall} {r : c.Reply} {fd : Fd} {f : OpenFile} (hfd : c.fd = some fd)
    (hview : ViewOf runs g i v) (hsound : Sound runs w₀ pub g) (hf : v.files fd = some f)
    (hwrite : c.Writes → ∃ path, path ≠ (runs i).path ∧ v.dir path = some f.inode) {world : World}
    (hstep : FsStep (fun _ => True) c g.world r world) :
    Frame runs w₀ g { g with world := world } := by
  obtain ⟨howner, hinode, hfile⟩ := hview.files hf
  obtain ⟨change, rfl, _, hwrites⟩ := hstep.same hfd (⟨hfile, hfile, rfl⟩ : SameFile fd f _ _)
  refine .of_same (Nat.le_of_eq change.apply_next.symm) rfl change.apply_dir ?_ ?_
  · intro fd' hnone
    refine change.apply_files_of_ne ?_
    rintro rfl
    rw [hnone] at howner
    cases howner
  · intro k hk
    rcases eq_or_ne k f.inode with rfl | hne
    · refine change.apply_data ?_
      rintro bs rfl
      obtain ⟨path, hpath, hdir⟩ := hwrite (hwrites bs rfl)
      exact hview.not_sealed hsound hdir hpath hk
    · exact congrArg Inode.data (change.apply_inodes_of_ne hne)

/-- A writer leaves the handles of others and the sealed files alone, whatever it calls. -/
lemma writer_frame {c : FsCall} {r : c.Reply} (hview : ViewOf runs g i v)
    (hsound : Sound runs w₀ pub g) (hmay : ((runs i).job w₀.next (pub i)).Allows c v)
    (hstep : Shared.Step (fun i => (runs i).pid) i c g r g') : Frame runs w₀ g g' := by
  obtain ⟨world', owner', publisher'⟩ := g'
  cases c with
  | processId =>
      obtain ⟨_, hg⟩ := hstep
      obtain rfl := hg
      exact .refl _
  | nextTempCounter =>
      obtain ⟨hworld, rfl, rfl⟩ := hstep
      obtain rfl := hworld.nextTempCounter_inv
      exact .of_same (Nat.le_refl _) rfl rfl (fun _ _ => rfl) fun _ _ => rfl
  | openFile path writable => exact hmay.elim
  | createNew path =>
      obtain ⟨hworld, rfl, rfl⟩ := hstep
      obtain ⟨n, hn, _, rfl, rfl⟩ | ⟨_, ⟨e, rfl⟩, rfl⟩ := hworld.createNew_inv
      · refine ⟨Nat.le_succ_of_le hn, @fun fd hfd hnone => ?_, @fun k hk => ?_⟩
        · have hne : fd ≠ n := by omega
          exact ⟨(Function.update_of_ne hne _ _).trans hnone,
            World.create_files_of_ne (h := hn) hne⟩
        · have hne : k ≠ n := Nat.ne_of_lt (Nat.lt_of_lt_of_le (hsound.lt_next hk) hn)
          refine ⟨?_, congrArg Inode.data (World.create_inodes_of_ne (h := hn) hne)⟩
          obtain hlt | ⟨j, hj, hnone⟩ := hk
          · exact .inl hlt
          · refine .inr ⟨j, (Function.update_of_ne hne _ _).trans hj, fun p hp hdir => ?_⟩
            obtain ⟨_, heq⟩ | ⟨_, hdir', _⟩ := World.create_dir_cases (h := hn) hdir
            · exact hne heq
            · exact hnone p hp hdir'
      · exact .refl _
  | rename src dst =>
      obtain ⟨hworld, rfl, rfl⟩ := hstep
      obtain ⟨rfl, hne, k, hsrc, _, _⟩ := hmay
      obtain ⟨_, hentry⟩ := hview.temp hsrc hne
      obtain ⟨rfl, rfl⟩ | ⟨_, ⟨e, rfl⟩, rfl⟩ := hworld.rename_inv hentry
      · refine ⟨Nat.le_refl _, fun _ hnone => ⟨hnone, rfl⟩, fun hk => ⟨?_, rfl⟩⟩
        obtain hlt | ⟨j, hj, hnone⟩ := hk
        · exact .inl hlt
        · refine .inr ⟨j, hj, fun p hp hdir => ?_⟩
          obtain ⟨rfl, hdir'⟩ | ⟨_, _, hdir'⟩ := World.move_dir_cases hne hdir
          · -- the file that is published is the writer's own
            obtain rfl := Option.some.inj (hentry.symm.trans hdir')
            obtain rfl := Option.some.inj ((hview.owned hsrc).symm.trans hj)
            exact hp rfl
          · exact hnone p hp hdir'
      · exact .refl _
  | removeFile path =>
      obtain ⟨hworld, rfl, rfl⟩ := hstep
      obtain ⟨hne, k, hdir, _⟩ := hmay
      obtain ⟨rfl, rfl⟩ | ⟨_, ⟨e, rfl⟩, rfl⟩ := hworld.removeFile_inv (hview.temp hdir hne).2
      · refine ⟨Nat.le_refl _, fun _ hnone => ⟨hnone, rfl⟩, fun hk => ⟨?_, rfl⟩⟩
        obtain hlt | ⟨j, hj, hnone⟩ := hk
        · exact .inl hlt
        · exact .inr ⟨j, hj, fun p hp hdir => hnone p hp (World.unlink_dir_cases hdir).2⟩
      · exact .refl _
  | openDir parent =>
      obtain ⟨hworld, rfl, rfl⟩ := hstep
      obtain rfl := hworld.openDir_inv
      exact .refl _
  | syncDir parent =>
      obtain ⟨hworld, rfl, rfl⟩ := hstep
      obtain rfl := hworld.syncDir_inv
      exact .refl _
  | write fd bs | writeAll fd bs =>
      obtain ⟨hworld, rfl, rfl⟩ := hstep
      obtain ⟨f, path, hf, hne, hdir, _⟩ := hmay
      exact handle_frame rfl hview hsound hf (fun _ => ⟨path, hne, hdir⟩) hworld
  | tryClone fd =>
      obtain ⟨hworld, rfl, rfl⟩ := hstep
      obtain ⟨f, hf, _⟩ := hmay
      exact handle_frame rfl hview hsound hf False.elim hworld
  | seek fd _ | read fd _ | readExact fd _ | flush fd | syncAll fd =>
      obtain ⟨hworld, rfl, rfl⟩ := hstep
      obtain ⟨f, hf⟩ := hmay
      exact handle_frame rfl hview hsound hf False.elim hworld

/-! ## The versions at the final paths -/

/-- A call of a writer leaves the final paths and the versions alone, or it publishes. -/
lemma writer_publishes {s : Site ι} {c : FsCall} {r : c.Reply} (hview : ViewOf runs s.shared i v)
    (hnames : NoFinalIsTemp runs) (hmay : ((runs i).job w₀.next (pub i)).Allows c v)
    (hstep : Shared.Step (fun i => (runs i).pid) i c s.shared r g') :
    (s.versionsAfter c r = s.versions ∧
      ∀ j, g'.world.dir (runs j).path = s.shared.world.dir (runs j).path) ∨
    ∃ src k, v.dir src = some k ∧ src ≠ (runs i).path ∧
      pub i (v.data k) ∧
      g'.world = s.shared.world.move src (runs i).path ∧
      s.versionsAfter c r = Function.update s.versions (runs i).path
        (s.versions (runs i).path ++ [s.shared.world.version src]) := by
  have hhandle : ∀ {c : FsCall} {r : c.Reply} {fd f world}, c.fd = some fd → v.files fd = some f →
      FsStep (fun _ => True) c s.shared.world r world → ∀ j : ι,
        world.dir (runs j).path = s.shared.world.dir (runs j).path := by
    intro c r fd f world hfd hf hworld j
    have hfile := (hview.files hf).2.2
    obtain ⟨change, rfl, _⟩ := hworld.same hfd (⟨hfile, hfile, rfl⟩ : SameFile fd f _ _)
    rw [change.apply_dir]
  cases c with
  | processId =>
      obtain ⟨_, hg⟩ := hstep
      obtain rfl := hg
      exact .inl ⟨rfl, fun _ => rfl⟩
  | nextTempCounter =>
      refine .inl ⟨rfl, fun _ => ?_⟩
      rw [hstep.1.nextTempCounter_inv]
      rfl
  | openFile path writable => exact hmay.elim
  | createNew path =>
      refine .inl ⟨rfl, fun j => ?_⟩
      obtain ⟨n, hn, _, _, hworld⟩ | ⟨_, _, hworld⟩ := hstep.1.createNew_inv
      · rw [hworld]
        refine World.create_dir_of_ne ?_
        rintro rfl
        exact hnames j i ⟨v.pid, hmay⟩
      · rw [hworld]
  | rename src dst =>
      obtain ⟨rfl, hne, k, hsrc, _, hpublishes⟩ := hmay
      obtain ⟨rfl, hworld⟩ | ⟨_, ⟨e, rfl⟩, hworld⟩ :=
        hstep.1.rename_inv (hview.temp hsrc hne).2
      · exact .inr ⟨src, k, hsrc, hne, hpublishes, hworld, rfl⟩
      · refine .inl ⟨rfl, fun _ => ?_⟩
        rw [hworld]
  | removeFile path =>
      refine .inl ⟨rfl, fun j => ?_⟩
      obtain ⟨hne, k, hdir, _⟩ := hmay
      obtain ⟨htemp, hentry⟩ := hview.temp hdir hne
      obtain ⟨_, hworld⟩ | ⟨_, _, hworld⟩ := hstep.1.removeFile_inv hentry
      · rw [hworld]
        refine World.unlink_dir_of_ne ?_
        rintro rfl
        exact hnames j i htemp
      · rw [hworld]
  | openDir parent =>
      refine .inl ⟨rfl, fun _ => ?_⟩
      rw [hstep.1.openDir_inv]
  | syncDir parent =>
      refine .inl ⟨rfl, fun _ => ?_⟩
      rw [hstep.1.syncDir_inv]
  | write fd bs | writeAll fd bs =>
      obtain ⟨f, path, hf, _⟩ := hmay
      exact .inl ⟨rfl, hhandle rfl hf hstep.1⟩
  | tryClone fd =>
      obtain ⟨f, hf, _⟩ := hmay
      exact .inl ⟨rfl, hhandle rfl hf hstep.1⟩
  | seek fd _ | read fd _ | readExact fd _ | flush fd | syncAll fd =>
      obtain ⟨f, hf⟩ := hmay
      exact .inl ⟨rfl, hhandle rfl hf hstep.1⟩

variable (runs w₀ pub)

/-- The latest version of a final path is what the path leads to, and each version is what was there
initially or what a writer to the path has published, of which `pub` holds. -/
structure WholeVersions (s : Site ι) : Prop where
  latest : ∀ i, (s.versions (runs i).path).getLast? = some (s.shared.world.version (runs i).path)
  whole : ∀ i n version, (s.versions (runs i).path)[n]? = some version →
    n = 0 ∧ version = w₀.version (runs i).path ∨
    ∃ j data, version = some data ∧ (runs j).path = (runs i).path ∧ pub j data

variable {runs w₀ pub}

/-- More may have been published. -/
lemma WholeVersions.mono {pub' : ι → List UInt8 → Prop} {s : Site ι}
    (h : WholeVersions runs w₀ pub s) (hpub : ∀ j data, pub j data → pub' j data) :
    WholeVersions runs w₀ pub' s where
  latest := h.latest
  whole i n version hn := by
    obtain hinit | ⟨j, data, rfl, hpath, hdata⟩ := h.whole i n version hn
    · exact .inl hinit
    · exact .inr ⟨j, data, rfl, hpath, hpub j data hdata⟩

lemma WholeVersions.of_same {s s' : Site ι} (h : WholeVersions runs w₀ pub s)
    (hversions : s'.versions = s.versions)
    (hversion : ∀ i, s'.shared.world.version (runs i).path =
      s.shared.world.version (runs i).path) : WholeVersions runs w₀ pub s' where
  latest i := by rw [hversions, hversion, h.latest]
  whole i n version hn := h.whole i n version (hversions ▸ hn)

lemma writer_versions {s s' : Site ι} {c : FsCall} {r : c.Reply}
    (h : WholeVersions runs w₀ pub s) (hview : ViewOf runs s.shared i v)
    (hsound : Sound runs w₀ pub s.shared) (hnames : NoFinalIsTemp runs)
    (hmay : ((runs i).job w₀.next (pub i)).Allows c v)
    (hstep : Shared.Step (fun i => (runs i).pid) i c s.shared r s'.shared)
    (hversions : s'.versions = s.versionsAfter c r) : WholeVersions runs w₀ pub s' := by
  obtain ⟨hsame, hdir⟩ | ⟨src, k, hsrc, hne, hpublishes, hworld, hafter⟩ :=
    writer_publishes hview hnames hmay hstep
  · refine h.of_same (hversions.trans hsame) fun j => ?_
    unfold World.version
    rw [hdir]
    cases hk : s.shared.world.dir (runs j).path with
    | none => rfl
    | some k =>
        have hdata := ((writer_frame hview hsound hmay hstep).files (hsound.sealed hk)).2
        exact congrArg some hdata
  · obtain ⟨htemp, hentry⟩ := hview.temp hsrc hne
    have hnew : s.shared.world.version src = some (s.shared.world.data k) := by
      rw [World.version, hentry]
      rfl
    rw [hafter, hnew] at hversions
    have hother : ∀ {j}, (runs j).path ≠ (runs i).path →
        s'.versions (runs j).path = s.versions (runs j).path ∧
          s'.shared.world.dir (runs j).path = s.shared.world.dir (runs j).path := by
      intro j hj
      rw [hversions, hworld]
      refine ⟨Function.update_of_ne hj _ _, World.move_dir_of_ne ?_ hj⟩
      rintro rfl
      exact hnames j i htemp
    have hself : s'.versions (runs i).path =
        s.versions (runs i).path ++ [some (s.shared.world.data k)] := by
      rw [hversions, Function.update_self]
    have hdata : s'.shared.world.data = s.shared.world.data := by rw [hworld, World.move_data]
    constructor
    · intro j
      unfold World.version
      rw [hdata]
      rcases eq_or_ne (runs j).path (runs i).path with heq | hj
      · rw [heq, hself, List.getLast?_concat, hworld, World.move_dir_dst, hentry]
        rfl
      · rw [(hother hj).1, (hother hj).2]
        exact h.latest j
    · intro j n version hn
      rcases eq_or_ne (runs j).path (runs i).path with heq | hj
      · rw [heq, hself] at hn
        rcases Nat.lt_or_ge n (s.versions (runs i).path).length with hlt | hge
        · rw [List.getElem?_append_left hlt] at hn
          rw [heq]
          exact h.whole i n version hn
        · rw [List.getElem?_append_right hge, List.getElem?_singleton] at hn
          split_ifs at hn
          obtain rfl := Option.some.inj hn
          rw [World.data, hview.inodes (hview.owned hsrc)] at hpublishes
          exact .inr ⟨i, _, rfl, heq.symm, hpublishes⟩
      · rw [(hother hj).1] at hn
        exact h.whole j n version hn

/-- Versions are added behind the earlier ones. -/
lemma Site.versions_le (s : Site ι) (c : FsCall) (r : c.Reply) (path : Path) :
    s.versions path <+: s.versionsAfter c r path := by
  cases c with
  | rename src dst =>
      cases r with
      | error e => exact List.prefix_refl _
      | ok _ =>
          show _ <+: Function.update s.versions dst (s.versions dst ++ [_]) path
          rcases eq_or_ne path dst with rfl | hne
          · rw [Function.update_self]
            exact List.prefix_append _ _
          · simp only [Function.update_of_ne hne, List.prefix_refl]
  | _ => exact List.prefix_refl _

/-! ## What a writer has published -/

/-- The file that the writer `i` has published, by its own account, is sealed and has been a version
of its path. -/
def PublishedBy (runs : ι → WriterRun) (w₀ : World) (s : Site ι) (i : ι) (v : World) : Prop :=
  ∀ k, v.dir (runs i).path = some k → Sealed runs w₀ s.shared k ∧
    some (s.shared.world.data k) ∈ s.versions (runs i).path

lemma PublishedBy.of_frame {s s' : Site ι} (h : PublishedBy runs w₀ s i v)
    (hframe : Frame runs w₀ s.shared s'.shared)
    (hversions : s.versions (runs i).path <+: s'.versions (runs i).path) :
    PublishedBy runs w₀ s' i v := by
  intro k hk
  obtain ⟨hsealed, hmem⟩ := h k hk
  obtain ⟨hsealed', hdata⟩ := hframe.files hsealed
  exact ⟨hsealed', hversions.subset (hdata ▸ hmem)⟩

/-- Publishing is the only thing that a writer does to its final path. -/
lemma writer_keeps {s s' : Site ι} {v' : World} {c : FsCall} {r : c.Reply}
    (h : PublishedBy runs w₀ s i v) (hview : ViewOf runs s.shared i v)
    (hsound : Sound runs w₀ pub s.shared) (hsound' : Sound runs w₀ pub s'.shared)
    (hmay : ((runs i).job w₀.next (pub i)).Allows c v) (hown : FsStep (fun _ => True) c v r v')
    (hstep : Shared.Step (fun i => (runs i).pid) i c s.shared r s'.shared)
    (hversions : s'.versions = s.versionsAfter c r) : PublishedBy runs w₀ s' i v' := by
  have hkeeps := h.of_frame (writer_frame hview hsound hmay hstep)
    (hversions ▸ s.versions_le c r _)
  -- what the path led to, it leads to
  have hsame : v'.dir (runs i).path = v.dir (runs i).path → PublishedBy runs w₀ s' i v' := by
    intro hdir k hk
    exact hkeeps k (hdir ▸ hk)
  have hhandle : ∀ {fd f}, c.fd = some fd → v.files fd = some f → PublishedBy runs w₀ s' i v' := by
    intro fd f hfd hf
    obtain ⟨change, rfl, _⟩ := hown.same hfd (⟨hf, hf, rfl⟩ : SameFile fd f _ _)
    exact hsame (congrFun change.apply_dir _)
  cases c with
  | processId => exact hsame (by rw [hown.processId_inv.2])
  | nextTempCounter =>
      obtain rfl := hown.nextTempCounter_inv
      exact hsame rfl
  | openFile path writable => exact hmay.elim
  | createNew path =>
      obtain ⟨counter, hpath⟩ := hmay
      obtain ⟨n, hn, _, _, rfl⟩ | ⟨_, _, rfl⟩ := hown.createNew_inv
      · refine hsame (World.create_dir_of_ne ?_)
        rw [hpath]
        exact (tempPathOf_ne _ _ _).symm
      · exact hsame rfl
  | rename src dst =>
      obtain ⟨rfl, hne, k, hsrc, _⟩ := hmay
      obtain ⟨htemp, hentry⟩ := hview.temp hsrc hne
      obtain ⟨rfl, rfl⟩ | ⟨_, _, rfl⟩ := hown.rename_inv hsrc
      · obtain ⟨hworld, _⟩ := hstep
        obtain ⟨_, hworld⟩ | ⟨_, ⟨e, he⟩, _⟩ := hworld.rename_inv hentry
        · intro k' hk'
          have hentry' : v.dir src = some k' := (World.move_dir_dst _ _).symm.trans hk'
          obtain rfl := Option.some.inj (hsrc.symm.trans hentry')
          have hdir : s'.shared.world.dir (runs i).path = some k := by
            rw [hworld]
            exact (World.move_dir_dst _ _).trans hentry
          have hversion : s.shared.world.version src = some (s'.shared.world.data k) := by
            rw [World.version, hentry, hworld]
            rfl
          refine ⟨hsound'.sealed hdir, ?_⟩
          rw [hversions]
          show _ ∈ Function.update s.versions (runs i).path _ (runs i).path
          rw [Function.update_self, hversion]
          exact List.mem_append_right _ (List.mem_singleton.mpr rfl)
        · cases he
      · exact hsame rfl
  | removeFile path =>
      obtain ⟨hne, k, hdir, _⟩ := hmay
      obtain ⟨_, rfl⟩ | ⟨_, _, rfl⟩ := hown.removeFile_inv hdir
      · exact hsame (World.unlink_dir_of_ne hne.symm)
      · exact hsame rfl
  | openDir parent => exact hsame (by rw [hown.openDir_inv])
  | syncDir parent => exact hsame (by rw [hown.syncDir_inv])
  | write fd bs | writeAll fd bs =>
      obtain ⟨f, path, hf, _⟩ := hmay
      exact hhandle rfl hf
  | tryClone fd =>
      obtain ⟨f, hf, _⟩ := hmay
      exact hhandle rfl hf
  | seek fd _ | read fd _ | readExact fd _ | flush fd | syncAll fd =>
      obtain ⟨f, hf⟩ := hmay
      exact hhandle rfl hf

/-! ## Calls of a reader -/

/-- A call of a reader leaves everything as it was but where a handle stands, which may be new and
is of no writer. -/
structure ReadOnly (fd : Fd) (g g' : Shared ι) : Prop where
  next_le : g.world.next ≤ g'.world.next
  owner_eq : g'.owner = g.owner
  publisher_eq : g'.publisher = g.publisher
  dir_eq : g'.world.dir = g.world.dir
  inodes_eq : g'.world.inodes = g.world.inodes
  files : ∀ {fd'}, fd' ≠ fd → g'.world.files fd' = g.world.files fd'
  owner : g.owner fd = none

namespace ReadOnly

variable {fd : Fd} {j : ι}

lemma ne_of_owner (h : ReadOnly fd g g') {fd' : Fd} (hfd : g.owner fd' = some j) : fd' ≠ fd := by
  rintro rfl
  rw [h.owner] at hfd
  cases hfd

lemma data_eq (h : ReadOnly fd g g') : g'.world.data = g.world.data := by
  funext k
  rw [World.data, World.data, h.inodes_eq]

lemma spares (h : ReadOnly fd g g') : Spares runs j g g' where
  next_le := h.next_le
  owner := by rw [h.owner_eq]
  inodes _ := by rw [h.inodes_eq]
  files hfd := h.files (h.ne_of_owner hfd)
  temp _ _ hdir := by rwa [h.dir_eq]
  final hpub := by
    rw [h.publisher_eq] at hpub
    exact ⟨hpub, by rw [h.dir_eq]⟩

lemma sound (h : ReadOnly fd g g') (hsound : Sound runs w₀ pub g) : Sound runs w₀ pub g' where
  next_le := Nat.le_trans hsound.next_le h.next_le
  owner_lt hk := by
    rw [h.owner_eq] at hk
    exact ⟨(hsound.owner_lt hk).1, Nat.lt_of_lt_of_le (hsound.owner_lt hk).2 h.next_le⟩
  onePath hi hp hq := by
    rw [h.dir_eq] at hp hq
    exact hsound.onePath hi hp hq
  initial hk := by rw [h.inodes_eq, hsound.initial hk]
  unpublished hpub := by
    rw [h.publisher_eq] at hpub
    rw [h.dir_eq, hsound.unpublished hpub]
  published hpub := by
    rw [h.publisher_eq] at hpub
    rw [h.dir_eq, h.owner_eq, h.data_eq]
    exact hsound.published hpub

lemma sealed (h : ReadOnly fd g g') {k : ℕ} (hk : Sealed runs w₀ g k) :
    Sealed runs w₀ g' k ∧ g'.world.data k = g.world.data k := by
  unfold Sealed World.data
  rw [h.owner_eq, h.dir_eq, h.inodes_eq]
  exact ⟨hk, rfl⟩

lemma version_eq (h : ReadOnly fd g g') (path : Path) :
    g'.world.version path = g.world.version path := by
  unfold World.version World.data
  rw [h.dir_eq, h.inodes_eq]

/-- A handle that is moved. -/
lemma seekTo (howner : g.owner fd = none) (pos : ℕ) :
    ReadOnly fd g { g with world := g.world.seekTo fd pos } where
  next_le := Nat.le_refl _
  owner_eq := rfl
  publisher_eq := rfl
  dir_eq := rfl
  inodes_eq := rfl
  files hne := World.seekTo_files_of_ne hne pos
  owner := howner

/-- A handle that is opened. -/
lemma openAt (hsound : Sound runs w₀ pub g) {path : Path} {writable : Bool}
    (hn : g.world.next ≤ fd) :
    ReadOnly fd g { g with world := g.world.openAt path writable fd hn } where
  next_le := Nat.le_succ_of_le hn
  owner_eq := rfl
  publisher_eq := rfl
  dir_eq := rfl
  inodes_eq := rfl
  files hne := Function.update_of_ne hne _ _
  owner := by
    by_contra hsome
    obtain ⟨j, hj⟩ := Option.ne_none_iff_exists'.mp hsome
    have hlt := (hsound.owner_lt hj).2
    omega

end ReadOnly

lemma PublishedBy.of_readOnly {s s' : Site ι} {fd : Fd} (h : PublishedBy runs w₀ s i v)
    (hreadOnly : ReadOnly fd s.shared s'.shared) (hversions : s'.versions = s.versions) :
    PublishedBy runs w₀ s' i v := by
  intro k hk
  obtain ⟨hsealed, hmem⟩ := h k hk
  obtain ⟨hsealed', hdata⟩ := hreadOnly.sealed hsealed
  rw [hversions, hdata]
  exact ⟨hsealed', hmem⟩

/-! ## What a reader knows -/

/-- A file system of which nothing is known but one handle. -/
def World.only (w : World) (fd : Fd) : World where
  __ := w.unknown 0
  files := Function.update (fun _ => none) fd (w.files fd)
  files_lt {fd' f} h := by
    rcases eq_or_ne fd' fd with rfl | hne
    · exact w.files_lt ((Function.update_self fd' _ _).symm.trans h)
    · exact absurd ((Function.update_of_ne hne _ _).symm.trans h) (Option.some_ne_none f).symm

lemma World.only_files {w : World} {fd fd' : Fd} {f : OpenFile} :
    (w.only fd).files fd' = some f ↔ fd' = fd ∧ w.files fd' = some f := by
  unfold World.only
  dsimp only
  rcases eq_or_ne fd' fd with rfl | hne
  · rw [Function.update_self]
    exact (and_iff_right rfl).symm
  · rw [Function.update_of_ne hne]
    exact ⟨fun h => absurd h (Option.some_ne_none f).symm, fun h => absurd h.1 hne⟩

/-- What a reader knows: its handle and the bytes behind it, and which version these are. -/
structure Sight where
  world : World
  seen : Option (ℕ × Version)

/-- A call of a reader as it sees it: opening finds a version, and whatever is called on the handle
then depends on nothing else. -/
def ReadStep (mayFail : FsCall → Prop) : (c : FsCall) → Sight → c.Reply → Sight → Prop
  | .openFile path writable, _, r, v' => ∃ n version, v'.seen = some (n, version) ∧
      (r = .error notFound ∧ version = none ∨
        (∃ e, r = .error e) ∧ mayFail (.openFile path writable) ∨
        ∃ fd k, r = .ok fd ∧ v'.world.files fd = some ⟨k, 0, writable⟩ ∧
          version = some (v'.world.data k))
  | c, v, r, v' => FsStep mayFail c v.world r v'.world ∧ v'.seen = v.seen

/-- The calls of a reader at this path. -/
def ReadMay (path : Path) : FsCall → Sight → Prop
  | .openFile p _, _ => p = path
  | c, v => Reads c v.world

/-- The call takes bytes off the handle. -/
def FsCall.Takes (fd : Fd) : FsCall → Prop
  | read fd' _ | readExact fd' _ => fd' = fd
  | _ => False

/-- Reading off a handle depends on where it stands and on the bytes from there on. -/
lemma FsStep.same_rest {mayFail : FsCall → Prop} {w w' v : World} {c : FsCall} {r : c.Reply}
    (hreads : Reads c v) (hfiles : ∀ {fd f}, v.files fd = some f → w.files fd = some f)
    (hrest : ∀ {fd f}, c.Takes fd → v.files fd = some f →
      (v.data f.inode).drop f.pos = (w.data f.inode).drop f.pos)
    (hstep : FsStep mayFail c w r w') :
    ∃ fd f pos, v.files fd = some f ∧ w' = w.seekTo fd pos ∧
      FsStep mayFail c v r (v.seekTo fd pos) := by
  cases c with
  | seek fd pos =>
      obtain ⟨f, hf⟩ := hreads
      have hfile := hfiles hf
      refine ⟨fd, f, ?_⟩
      obtain ⟨k, hk⟩ | ⟨hmay, hr, rfl⟩ := hstep
      · simp only [succeed, hfile] at hk
        split_ifs at hk with hlarge
        · cases hk
          refine ⟨f.pos, hf, (World.seekTo_self hfile).symm, .inl ⟨k, ?_⟩⟩
          simp only [succeed, hf, if_pos hlarge, World.seekTo_self hf]
        · cases hk
          refine ⟨pos, hf, rfl, .inl ⟨k, ?_⟩⟩
          simp only [succeed, hf, if_neg hlarge]
      · refine ⟨f.pos, hf, (World.seekTo_self hfile).symm, .inr ⟨hmay, hr, ?_⟩⟩
        exact World.seekTo_self hf
  | read fd n =>
      obtain ⟨f, hf⟩ := hreads
      have hfile := hfiles hf
      have hdata := hrest rfl hf
      refine ⟨fd, f, ?_⟩
      obtain ⟨k, hk⟩ | ⟨hmay, ⟨hr, rfl⟩ | ⟨m, hm, hpos, hk⟩⟩ := hstep
      · simp only [succeed, hfile] at hk
        cases hk
        refine ⟨_, hf, rfl, .inl ⟨k, ?_⟩⟩
        simp only [succeed, hf, hdata]
      · refine ⟨f.pos, hf, (World.seekTo_self hfile).symm, .inr ⟨hmay, .inl ⟨hr, ?_⟩⟩⟩
        exact World.seekTo_self hf
      · simp only [succeed, hfile] at hk
        cases hk
        refine ⟨_, hf, rfl, .inr ⟨hmay, .inr ⟨m, hm, hpos, ?_⟩⟩⟩
        simp only [succeed, hf, hdata]
  | readExact fd n =>
      obtain ⟨f, hf⟩ := hreads
      have hfile := hfiles hf
      have hdata := hrest rfl hf
      refine ⟨fd, f, ?_⟩
      obtain ⟨k, hk⟩ | ⟨hmay, hr, m, hm, hk⟩ := hstep
      · simp only [succeed, hfile] at hk
        cases hk
        refine ⟨_, hf, rfl, .inl ⟨k, ?_⟩⟩
        simp only [succeed, hf, hdata]
      · simp only [succeed, hfile] at hk
        refine ⟨_, hf, hk, .inr ⟨hmay, hr, m, hm, ?_⟩⟩
        simp only [succeed, hf, hdata]
  | _ => exact hreads.elim

/-- What a reader sees that looks at `path`, where it will find no version before the `n`th. -/
structure SightOf (runs : ι → WriterRun) (w₀ : World) (s : Site ι) (path : Path) (n : ℕ)
    (v : Sight) : Prop where
  le : n ≤ (s.versions path).length
  seen : ∀ {m version}, v.seen = some (m, version) →
    n ≤ m + 1 ∧ (s.versions path)[m]? = some version
  files : ∀ {fd f}, v.world.files fd = some f → s.shared.world.files fd = some f ∧
    s.shared.owner fd = none ∧ Sealed runs w₀ s.shared f.inode ∧
      v.world.data f.inode = s.shared.world.data f.inode

namespace SightOf

variable {s s' : Site ι} {path : Path} {n : ℕ} {sight : Sight}

lemma of_frame {c : FsCall} {r : c.Reply} (h : SightOf runs w₀ s path n sight)
    (hframe : Frame runs w₀ s.shared s'.shared) (hversions : s'.versions = s.versionsAfter c r) :
    SightOf runs w₀ s' path n sight := by
  have hle : s.versions path <+: s'.versions path := by
    rw [hversions]
    exact s.versions_le c r path
  refine ⟨Nat.le_trans h.le hle.length_le, @fun m version hseen => ?_, @fun fd f hf => ?_⟩
  · obtain ⟨hn, hm⟩ := h.seen hseen
    obtain ⟨later, heq⟩ := hle
    refine ⟨hn, ?_⟩
    obtain ⟨hlt, _⟩ := List.getElem?_eq_some_iff.mp hm
    rw [← heq, List.getElem?_append_left hlt, hm]
  · obtain ⟨hfile, hnone, hsealed, hdata⟩ := h.files hf
    obtain ⟨hnone', hfile'⟩ := hframe.handles (s.shared.world.files_lt hfile).1 hnone
    obtain ⟨hsealed', hdata'⟩ := hframe.files hsealed
    exact ⟨hfile'.trans hfile, hnone', hsealed', hdata.trans hdata'.symm⟩

/-- Another reader has called. -/
lemma of_readOnly {fd : Fd} (h : SightOf runs w₀ s path n sight)
    (hother : ReadOnly fd s.shared s'.shared) (hfd : sight.world.files fd = none)
    (hversions : s'.versions = s.versions) : SightOf runs w₀ s' path n sight := by
  refine ⟨hversions ▸ h.le, fun hseen => hversions ▸ h.seen hseen, @fun fd' f hf => ?_⟩
  obtain ⟨hfile, hnone, hsealed, hdata⟩ := h.files hf
  have hne : fd' ≠ fd := by
    rintro rfl
    rw [hfd] at hf
    cases hf
  obtain ⟨hsealed', hdata'⟩ := hother.sealed hsealed
  exact ⟨(hother.files hne).trans hfile, by rw [hother.owner_eq, hnone], hsealed',
    hdata.trans hdata'.symm⟩

end SightOf

/-- A call of a reader that sees `v`, made on a handle that is its own or new, ending in `s'`. -/
structure Looked (runs : ι → WriterRun) (w₀ : World) (mayFail : FsCall → Prop) (path : Path) (n : ℕ)
    (c : FsCall) (r : c.Reply) (v : Sight) (s s' : Site ι) (v' : Sight) (fd : Fd) : Prop where
  step : ReadStep mayFail c v r v'
  sight : SightOf runs w₀ s' path n v'
  readOnly : ReadOnly fd s.shared s'.shared
  own : v.world.files fd ≠ none ∨ s.shared.world.next ≤ fd
  handles : ∀ {fd'}, v'.world.files fd' ≠ none → v.world.files fd' ≠ none ∨ fd' = fd

/-- A path that cannot be opened leads nowhere, unless the call has failed. -/
lemma FsStep.openFile_missed {mayFail : FsCall → Prop} {path : Path} {writable : Bool} {e : IoError}
    {w w' : World} (h : FsStep mayFail (.openFile path writable) w (.error e) w') :
    e = notFound ∧ w.dir path = none ∨ mayFail (.openFile path writable) := by
  obtain ⟨k, hk⟩ | ⟨hmay, _⟩ := h
  · cases hdir : w.dir path with
    | none =>
        simp only [succeed, hdir] at hk
        cases hk
        exact .inl ⟨rfl, rfl⟩
    | some i =>
        simp only [succeed, hdir] at hk
        cases hk
  · exact .inr hmay

/-- Opening finds the latest version of the path. -/
lemma open_looked {mayFail : FsCall → Prop} {s : Site ι} {n : ℕ} {sight : Sight} {writable : Bool}
    {r : Except IoError Fd} {world : World} (hsight : SightOf runs w₀ s (runs i).path n sight)
    (hsound : Sound runs w₀ pub s.shared) (hversions : WholeVersions runs w₀ pub s)
    (hstep : FsStep mayFail (.openFile (runs i).path writable) s.shared.world r world) :
    ∃ v' fd, Looked runs w₀ mayFail (runs i).path n (.openFile (runs i).path writable) r sight s
      { s with shared := { s.shared with world := world } } v' fd := by
  have hlatest := hversions.latest i
  rw [List.getLast?_eq_getElem?] at hlatest
  have hle : n ≤ (s.versions (runs i).path).length - 1 + 1 := by
    have := hsight.le
    omega
  obtain ⟨k, fd, hfd, hdir, rfl, rfl⟩ | ⟨_, ⟨e, rfl⟩, rfl⟩ := hstep.openFile_inv
  · have hfile : (s.shared.world.openAt (runs i).path writable fd hfd).files fd =
        some ⟨k, 0, writable⟩ := by
      show Function.update s.shared.world.files fd _ fd = _
      rw [Function.update_self, hdir]
      rfl
    have hversion : s.shared.world.version (runs i).path = some (s.shared.world.data k) := by
      rw [World.version, hdir]
      rfl
    have hreadOnly : ReadOnly fd s.shared
        { s.shared with world := s.shared.world.openAt (runs i).path writable fd hfd } :=
      .openAt hsound hfd
    refine ⟨⟨(s.shared.world.openAt (runs i).path writable fd hfd).only fd,
      some ((s.versions (runs i).path).length - 1, s.shared.world.version (runs i).path)⟩, fd, ?_,
      ?_, hreadOnly, .inr hfd, ?_⟩
    · exact ⟨_, _, rfl, .inr (.inr ⟨fd, k, rfl, World.only_files.mpr ⟨rfl, hfile⟩, hversion⟩)⟩
    · refine ⟨hsight.le, ?_, ?_⟩
      · rintro m version ⟨⟩
        exact ⟨hle, hlatest⟩
      · intro fd' f hf
        obtain ⟨rfl, hf⟩ := World.only_files.mp hf
        obtain rfl := Option.some.inj (hfile.symm.trans hf)
        exact ⟨hfile, hreadOnly.owner, hsound.sealed hdir, rfl⟩
    · intro fd' hsome
      obtain ⟨f, hf⟩ := Option.ne_none_iff_exists'.mp hsome
      exact .inr (World.only_files.mp hf).1
  · have howner : s.shared.owner s.shared.world.next = none := by
      by_contra hsome
      obtain ⟨j, hj⟩ := Option.ne_none_iff_exists'.mp hsome
      exact absurd (hsound.owner_lt hj).2 (Nat.lt_irrefl _)
    refine ⟨⟨sight.world, some ((s.versions (runs i).path).length - 1,
      s.shared.world.version (runs i).path)⟩, s.shared.world.next, ?_, ?_, ?_,
      .inr (Nat.le_refl _), fun hsome => .inl hsome⟩
    · refine ⟨_, _, rfl, ?_⟩
      obtain ⟨rfl, hnone⟩ | hfail := hstep.openFile_missed
      · refine .inl ⟨rfl, ?_⟩
        rw [World.version, hnone]
        rfl
      · exact .inr (.inl ⟨⟨e, rfl⟩, hfail⟩)
    · refine ⟨hsight.le, ?_, hsight.files⟩
      rintro m version ⟨⟩
      exact ⟨hle, hlatest⟩
    · exact ⟨Nat.le_refl _, rfl, rfl, rfl, rfl, fun _ => rfl, howner⟩

/-- Reading off a handle moves it. -/
lemma handle_looked {mayFail : FsCall → Prop} {s : Site ι} {path : Path} {n : ℕ} {sight : Sight}
    {c : FsCall} {r : c.Reply} {world : World} (hsight : SightOf runs w₀ s path n sight)
    (hreads : Reads c sight.world) (hstep : FsStep mayFail c s.shared.world r world) :
    ∃ v' fd, Looked runs w₀ mayFail path n c r sight s
      { s with shared := { s.shared with world := world } } v' fd := by
  obtain ⟨fd, f, pos, hf, rfl, hstep'⟩ := hstep.same_rest hreads (fun hf => (hsight.files hf).1)
    fun {_ f} _ hf => congrArg (List.drop f.pos) (hsight.files hf).2.2.2
  obtain ⟨hfile, hnone, hsealed, hdata⟩ := hsight.files hf
  have hfiles : ∀ {fd' f'}, (sight.world.seekTo fd pos).files fd' = some f' →
      fd' = fd ∧ f' = { f with pos := pos } ∨ fd' ≠ fd ∧ sight.world.files fd' = some f' := by
    intro fd' f' hf'
    by_cases heq : fd' = fd
    · subst heq
      exact .inl ⟨rfl, Option.some.inj (hf'.symm.trans (World.seekTo_files_self hf))⟩
    · rw [World.seekTo_files_of_ne heq] at hf'
      exact .inr ⟨heq, hf'⟩
  have hread : ReadStep mayFail c sight r ⟨sight.world.seekTo fd pos, sight.seen⟩ := by
    cases c with
    | openFile path writable => exact hreads.elim
    | _ => exact ⟨hstep', rfl⟩
  refine ⟨⟨sight.world.seekTo fd pos, sight.seen⟩, fd, hread, ⟨hsight.le, hsight.seen, ?_⟩,
    ReadOnly.seekTo hnone pos, .inl ?_, ?_⟩
  · intro fd' f' hf'
    obtain ⟨rfl, rfl⟩ | ⟨hne, hf'⟩ := hfiles hf'
    · exact ⟨World.seekTo_files_self hfile, hnone, hsealed, hdata⟩
    · obtain ⟨hfile', hrest⟩ := hsight.files hf'
      exact ⟨(World.seekTo_files_of_ne hne pos).trans hfile', hrest⟩
  · rw [hf]
    exact Option.some_ne_none f
  · intro fd' hsome
    obtain ⟨f', hf'⟩ := Option.ne_none_iff_exists'.mp hsome
    obtain ⟨rfl, _⟩ | ⟨_, hf'⟩ := hfiles hf'
    · exact .inr rfl
    · rw [hf']
      exact .inl (Option.some_ne_none f')

/-- Whatever a reader calls. -/
lemma reader_looked {κ : Type} {mayFail : κ → FsCall → Prop} {pid : ι → ℕ} {k : κ}
    {s s' : Site ι} {n : ℕ} {sight : Sight} {c : FsCall} {r : c.Reply}
    (hsight : SightOf runs w₀ s (runs i).path n sight) (hsound : Sound runs w₀ pub s.shared)
    (hversions : WholeVersions runs w₀ pub s) (hmay : ReadMay (runs i).path c sight)
    (hstep : Site.Step mayFail pid (.inr k : ι ⊕ κ) c s r s') :
    ∃ v' fd, Looked runs w₀ (mayFail k) (runs i).path n c r sight s s' v' fd := by
  obtain ⟨⟨world', owner', publisher'⟩, versions'⟩ := s'
  obtain ⟨hworld, rfl, rfl, rfl⟩ := hstep
  cases c with
  | openFile path writable =>
      obtain rfl := hmay
      exact open_looked hsight hsound hversions hworld
  | _ => exact handle_looked hsight hmay hworld

/-! ## What a reader comes to -/

variable {mayFail : FsCall → Prop} {path : Path}

/-- What is safe on a file system is safe in the view of a reader. -/
lemma Program.Safe.sighted {α : Type} {Q : α → World → Prop} {p : Program FsCall.Reply α}
    {sight : Sight} (h : Program.Safe (FsStep mayFail) Reads p Q sight.world) :
    Program.Safe (ReadStep mayFail) (ReadMay path) p
      (fun a v' => Q a v'.world ∧ v'.seen = sight.seen) sight := by
  induction p generalizing sight with
  | done a => exact ⟨h, rfl⟩
  | call c k ih =>
      obtain ⟨hreads, hnext⟩ := h
      have hstep : ∀ {r v'}, ReadStep mayFail c sight r v' →
          FsStep mayFail c sight.world r v'.world ∧ v'.seen = sight.seen := by
        intro r v' hr
        cases c with
        | openFile p writable => exact hreads.elim
        | _ => exact hr
      have hmay : ReadMay path c sight := by
        cases c with
        | openFile p writable => exact hreads.elim
        | _ => exact hreads
      refine ⟨hmay, fun r v' hr => Program.Safe.mono ?_ (ih r (hnext r _ (hstep hr).1))⟩
      rintro a v'' ⟨hQ, hseen⟩
      exact ⟨hQ, hseen.trans (hstep hr).2⟩

/-- The calls of the function that may fail. -/
def FailsIn {α : Type} (mayFail : FsCall → Prop) (m : Fs α) (c : FsCall) : Prop :=
  mayFail c ∧ m.run.Makes c

section own

variable {α : Type} {m : Fs α}

lemma FsStep.own {c : FsCall} (hmakes : m.run.Makes c) {w : World} {r : c.Reply} {w' : World}
    (h : FsStep mayFail c w r w') : FsStep (FailsIn mayFail m) c w r w' :=
  h.imp_right fun hfail => ⟨⟨hfail.1, hmakes⟩, hfail.2⟩

lemma ReadStep.own {c : FsCall} (hmakes : m.run.Makes c) {sight : Sight} {r : c.Reply}
    {sight' : Sight} (h : ReadStep mayFail c sight r sight') :
    ReadStep (FailsIn mayFail m) c sight r sight' := by
  cases c with
  | openFile p writable =>
      obtain ⟨n, version, hseen, hnone | ⟨he, hfail⟩ | hopened⟩ := h
      · exact ⟨n, version, hseen, .inl hnone⟩
      · exact ⟨n, version, hseen, .inr (.inl ⟨he, hfail, hmakes⟩)⟩
      · exact ⟨n, version, hseen, .inr (.inr hopened)⟩
  | _ => exact ⟨h.1.own hmakes, h.2⟩

/-- Only its own calls make a function fail. -/
lemma Fallible.Safe.own {may : FsCall → World → Prop} {Q : α → World → Prop}
    {E : ObjectFileError → World → Prop} {w : World}
    (h : Fallible.Safe (FsStep (FailsIn mayFail m)) may m Q E w) :
    Fallible.Safe (FsStep mayFail) may m Q E w :=
  Program.Safe.of_makes (fun _ hmakes _ _ _ hstep => hstep.own hmakes) h

lemma Fallible.Safe.sighted_own {may : FsCall → Sight → Prop} {Q : α → Sight → Prop}
    {E : ObjectFileError → Sight → Prop} {sight : Sight}
    (h : Fallible.Safe (ReadStep (FailsIn mayFail m)) may m Q E sight) :
    Fallible.Safe (ReadStep mayFail) may m Q E sight :=
  Program.Safe.of_makes (fun _ hmakes _ _ _ hstep => hstep.own hmakes) h

end own

/-- The query of the object is given the answer `r`, or the error of one of its calls. -/
def Answered (mayFail : FsCall → Prop) (object : TuxObject) (q : Query)
    (shown r : Except ObjectFileError Shown) : Prop :=
  shown = r ∨ ∃ e, shown = .error e ∧ IsFault (FailsIn mayFail (q.ask object)) e

/-- The script is answered by the file that the handle is open on. -/
lemma QueryScript.run_safe (script : QueryScript) {object : TuxObject} {k : ℕ} {sight : Sight}
    (hopen : OpenOn sight.world object k) :
    Fallible.Safe (ReadStep mayFail) (ReadMay path) (script.run object)
      (fun transcript v' => v'.seen = sight.seen ∧ ∀ entry ∈ transcript,
        Answered mayFail object entry.1 entry.2 (entry.1.answer object (sight.world.data k)))
      (fun _ _ => False) sight := by
  induction script generalizing sight with
  | stop => exact Fallible.Safe.pure ⟨rfl, List.forall_mem_nil _⟩
  | ask q next ih =>
      have hask : Fallible.Safe (ReadStep mayFail) (ReadMay path) (q.ask object)
          (fun shown v' => (Undisturbed sight.world v'.world ∧ v'.seen = sight.seen) ∧
            Answered mayFail object q (.ok shown) (q.answer object (sight.world.data k)))
          (fun e v' => (Undisturbed sight.world v'.world ∧ v'.seen = sight.seen) ∧
            Answered mayFail object q (.error e) (q.answer object (sight.world.data k))) sight := by
        refine Program.Safe.mono ?_ (Program.Safe.sighted (Fallible.Safe.own (hopen.ask_returns q)))
        rintro (e | shown) v' ⟨hr, hseen⟩
        · exact ⟨⟨hr.1, hseen⟩, hr.2.elim (fun hfail => .inr ⟨e, rfl, hfail⟩) fun h => .inl h.symm⟩
        · exact ⟨⟨hr.2, hseen⟩, .inl hr.1.symm⟩
      have hnext : ∀ {shown : Except ObjectFileError Shown} {v' : Sight},
          ((Undisturbed sight.world v'.world ∧ v'.seen = sight.seen) ∧
            Answered mayFail object q shown (q.answer object (sight.world.data k))) →
          Fallible.Safe (ReadStep mayFail) (ReadMay path)
            ((next shown).run object >>= fun rest => pure ((q, shown) :: rest))
            (fun transcript v'' => v''.seen = sight.seen ∧ ∀ entry ∈ transcript,
              Answered mayFail object entry.1 entry.2
                (entry.1.answer object (sight.world.data k)))
            (fun _ _ => False) v' := by
        rintro shown v' ⟨⟨hsame, hseen⟩, hshown⟩
        refine Fallible.Safe.bind (Fallible.Safe.mono (ih shown (hopen.of_undisturbed hsame)) ?_
          fun _ _ h => h)
        rintro rest v'' ⟨hseen', hrest⟩
        rw [hsame.data_eq] at hrest
        exact Fallible.Safe.pure ⟨hseen'.trans hseen, List.forall_mem_cons.mpr ⟨hshown, hrest⟩⟩
      refine Fallible.Safe.bind (Fallible.Safe.result (Fallible.Safe.mono hask ?_ ?_))
      · exact fun shown v' h => hnext h
      · exact fun e v' h => hnext h

/-! ## What a reader shows -/

/-- An error of one of two steps. -/
lemma eq_error_of_bind {ε α β : Type} {r : Except ε α} {f : α → Except ε β} {e : ε}
    (h : (r >>= f) = .error e) : r = .error e ∨ ∃ a, r = .ok a ∧ f a = .error e := by
  cases r with
  | error e' => exact .inl (congrArg Except.error (Except.error.inj h))
  | ok a => exact .inr ⟨a, rfl, h⟩

lemma readSlice_found {data : List UInt8} {start n : ℕ} {e : ObjectFileError}
    (h : readSlice data start n = .error e) : e.isNotFound = false := by
  unfold readSlice at h
  split_ifs at h
  cases h
  rfl

lemma decodeSection_found {α : Type} {dec : Decoder α} {buffer : List UInt8} {e : ObjectFileError}
    (hdec : ReportsCuts dec) (h : decodeSection dec buffer = .error e) : e.isNotFound = false := by
  unfold decodeSection at h
  cases hread : dec ⟨buffer, 0⟩ with
  | ok p =>
      rw [hread] at h
      cases h
  | error err =>
      rw [hread] at h
      obtain rfl := Except.error.inj h
      cases err with
      | ioError err =>
          show (err.kind == .notFound) = false
          rw [hdec.ends hread]
          rfl
      | _ => rfl

lemma readHeader_found {bytes : List UInt8} {e : ObjectFileError}
    (h : (ObjectHeader.readFromBytes bytes).mapError .encoding = .error e) :
    e.isNotFound = false := by
  cases hread : ObjectHeader.readFromBytes bytes with
  | ok header =>
      rw [hread] at h
      cases h
  | error err =>
      rw [hread] at h
      obtain rfl := Except.error.inj h
      cases err with
      | ioError err => exact absurd hread ObjectHeader.readFromBytes_ne_ioError
      | _ => rfl

/-- A file that is there is never reported missing, however malformed it is. -/
lemma readPrefix_found {data : List UInt8} {e : ObjectFileError} (h : readPrefix data = .error e) :
    e.isNotFound = false := by
  unfold readPrefix at h
  obtain hread | ⟨bytes, _, h⟩ := eq_error_of_bind h
  · exact readSlice_found hread
  obtain hread | ⟨header, _, h⟩ := eq_error_of_bind h
  · exact readHeader_found hread
  dsimp only at h
  split_ifs at h
  · cases h
  obtain hread | ⟨buffer, _, h⟩ := eq_error_of_bind h
  · exact readSlice_found hread
  obtain hread | ⟨metadata, _, h⟩ := eq_error_of_bind h
  · exact decodeSection_found (Tags.cutsReported cutsReported_metaKey).reader hread
  · cases h

/-- Why opening a version fails: one of its calls does, there is nothing to open, or the bytes do
not open. -/
def Unopened (mayFail : FsCall → Prop) (version : Version) (e : ObjectFileError) : Prop :=
  IsFault mayFail e ∨ version = none ∧ e = .io notFound ∨
    ∃ data, version = some data ∧ readPrefix data = .error e

/-- Opening gives a handle of the version that it finds. -/
lemma openAs_sighted (path : Path) (writable : Bool) (sight : Sight) :
    Fallible.Safe (ReadStep mayFail) (ReadMay path) (TuxObject.openAs path writable)
      (fun object v' => ∃ n k, v'.seen = some (n, some (v'.world.data k)) ∧
        readPrefix (v'.world.data k) = .ok (object.header, object.metadata) ∧
        OpenOn v'.world object k)
      (fun e v' => ∃ n version, v'.seen = some (n, version) ∧
        Unopened mayFail version e) sight := by
  rw [TuxObject.openAs_eq]
  refine Fallible.Safe.bind (Fallible.Safe.attempt (Program.Safe.request rfl ?_))
  rintro r v₁ ⟨n, version, hseen, ⟨rfl, hnone⟩ | ⟨⟨e, rfl⟩, hfail⟩ | ⟨fd, k, rfl, hfile, rfl⟩⟩
  · exact ⟨n, version, hseen, .inr (.inl ⟨hnone, rfl⟩)⟩
  · exact ⟨n, version, hseen, .inl ⟨_, e, hfail, rfl⟩⟩
  · have hfrom : Returns mayFail (TuxObject.fromFile fd path writable) _ v₁.world :=
      fromFile_returns hfile
    refine Program.Safe.mono ?_ (Program.Safe.sighted hfrom)
    rintro (e | object) v₂ ⟨hr, hseen₂⟩
    · refine ⟨n, _, hseen₂.trans hseen, hr.2.imp_right fun hread => .inr ⟨_, rfl, ?_⟩⟩
      obtain h | ⟨sections, _, h⟩ := eq_error_of_bind hread
      · exact h
      · cases h
    · obtain ⟨hread, hsame⟩ := hr
      cases hsections : readPrefix (v₁.world.data k) with
      | error e =>
          rw [hsections] at hread
          cases hread
      | ok sections =>
          rw [hsections] at hread
          obtain rfl := Except.ok.inj hread
          refine ⟨n, k, ?_, ?_, hsame.files hfile⟩
          · rw [hseen₂, hseen, hsame.data_eq]
          · rw [hsame.data_eq, hsections]
            rfl

/-- What comes of opening a version that gives no object: an error, or nothing from `open_optional`
where it would be `NotFound`. -/
def Opening.Misses (mayFail : FsCall → Prop) (opening : Opening) (version : Version) :
    Option ObjectFileError → Prop
  | some e => Unopened mayFail version e ∧ (opening = .openOptional → e.isNotFound = false)
  | none => opening = .openOptional ∧
      (version = none ∨ ∃ e, IsFault mayFail e ∧ e.isNotFound = true)

/-- What a reader may show that has found this version at its path, but for its calls that fail:
nothing where nothing was there, and otherwise what these bytes say, from the first query to the
last. -/
def Tells (mayFail : FsCall → Prop) (path : Path) (opening : Opening) (version : Version) :
    Seen → Prop
  | .error e => opening.Misses (FailsIn mayFail (opening.run path)) version (some e)
  | .ok none => opening.Misses (FailsIn mayFail (opening.run path)) version none
  | .ok (some (object, transcript)) => ∃ data, version = some data ∧
      readPrefix data = .ok (object.header, object.metadata) ∧ ∀ entry ∈ transcript,
        Answered mayFail object entry.1 entry.2 (entry.1.answer object data)

/-- Opening has given a handle of the version that it has seen, or nothing. -/
def Opening.Gives (mayFail : FsCall → Prop) (opening : Opening) (found : Option TuxObject)
    (v : Sight) : Prop :=
  ∃ n version, v.seen = some (n, version) ∧
    ((found = none ∧ opening.Misses mayFail version none) ∨
      ∃ object k, found = some object ∧ version = some (v.world.data k) ∧
        readPrefix (v.world.data k) = .ok (object.header, object.metadata) ∧
        OpenOn v.world object k)

/-- Opening has come to an error, for the version that it has seen. -/
def Opening.Denies (mayFail : FsCall → Prop) (opening : Opening) (e : ObjectFileError)
    (v : Sight) : Prop :=
  ∃ n version, v.seen = some (n, version) ∧ opening.Misses mayFail version (some e)

/-- What opening a path in one of the three ways comes to. -/
lemma Opening.run_safe (opening : Opening) (path : Path) (sight : Sight) :
    Fallible.Safe (ReadStep mayFail) (ReadMay path) (opening.run path)
      (opening.Gives mayFail) (opening.Denies mayFail) sight := by
  have hplain : ∀ writable, opening ≠ .openOptional →
      Fallible.Safe (ReadStep mayFail) (ReadMay path) (some <$> TuxObject.openAs path writable)
      (opening.Gives mayFail) (opening.Denies mayFail) sight := by
    intro writable hopening
    rw [map_eq_pure_bind]
    refine Fallible.Safe.bind (Fallible.Safe.mono (openAs_sighted path writable sight) ?_ ?_)
    · rintro object v' ⟨n, k, hseen, hread, hopen⟩
      exact Fallible.Safe.pure ⟨n, _, hseen, .inr ⟨object, k, rfl, rfl, hread, hopen⟩⟩
    · rintro e v' ⟨n, version, hseen, hunopened⟩
      exact ⟨n, version, hseen, hunopened, fun h => absurd h hopening⟩
  cases opening with
  | «open» => exact hplain false nofun
  | openWritable => exact hplain true nofun
  | openOptional =>
      refine Fallible.Safe.bind (Fallible.Safe.result (Fallible.Safe.mono
        (openAs_sighted path false sight) ?_ ?_))
      · rintro object v' ⟨n, k, hseen, hread, hopen⟩
        exact Fallible.Safe.pure ⟨n, _, hseen, .inr ⟨object, k, rfl, rfl, hread, hopen⟩⟩
      · rintro e v' ⟨n, version, hseen, hunopened⟩
        dsimp only
        split_ifs with hfound
        · refine Fallible.Safe.pure ⟨n, version, hseen, .inl ⟨rfl, rfl, ?_⟩⟩
          obtain hfail | ⟨hnone, _⟩ | ⟨data, _, hread⟩ := hunopened
          · exact .inr ⟨e, hfail, hfound⟩
          · exact .inl hnone
          · rw [readPrefix_found hread] at hfound
            cases hfound
        · exact Fallible.Safe.throw ⟨n, version, hseen, hunopened,
            fun _ => Bool.eq_false_iff.mpr hfound⟩

lemma ReaderRun.program_safe (reader : ReaderRun ι) (sight : Sight) :
    Program.Safe (ReadStep mayFail) (ReadMay (reader.path runs)) (reader.program runs)
      (fun seen v' => ∃ n version, v'.seen = some (n, version) ∧
        Tells mayFail (reader.path runs) reader.opening version seen) sight := by
  suffices h : Fallible.Safe (ReadStep mayFail) (ReadMay (reader.path runs))
      (ExceptT.mk (reader.program runs))
      (fun found v' => ∃ n version, v'.seen = some (n, version) ∧
        Tells mayFail (reader.path runs) reader.opening version (.ok found))
      (fun e v' => ∃ n version, v'.seen = some (n, version) ∧
        Tells mayFail (reader.path runs) reader.opening version (.error e)) sight by
    refine Program.Safe.mono ?_ h
    rintro (e | found) v' hr
    · exact hr
    · exact hr
  refine Fallible.Safe.bind (Fallible.Safe.mono (Fallible.Safe.sighted_own
    (reader.opening.run_safe _ sight)) ?_ fun _ _ h => h)
  rintro found v₁ ⟨n, version, hseen, ⟨rfl, htells⟩ | ⟨object, k, rfl, rfl, hread, hopen⟩⟩
  · exact Fallible.Safe.pure ⟨n, version, hseen, htells⟩
  · refine Fallible.Safe.bind (Fallible.Safe.mono (reader.script.run_safe hopen) ?_
      fun _ _ h => h.elim)
    rintro transcript v₂ ⟨hseen₂, hanswers⟩
    exact Fallible.Safe.pure ⟨n, _, hseen₂.trans hseen, _, rfl, hread, hanswers⟩

end

end TuxEncoding
