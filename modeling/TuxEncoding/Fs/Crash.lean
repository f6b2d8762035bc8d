import TuxEncoding.Fs.Change
import TuxEncoding.Fs.Contract

/-!
# Crashes

What may be found at a path when the machine has stopped at some point and comes up again.

* A `Disk` is a file system together with what stable storage may say of each path: every entry the
  path has had since the directory was synced last.
* `Disk.AfterCrash` is what a crash can leave at a path. A file whose bytes are on stable storage is
  as it was; of any other one there is no telling.
* `OldOrNew` is what a writer that publishes only synced files keeps, and `oldOrNew_step` says that
  it does, call by call.
-/

namespace TuxEncoding

open Bytes Interaction Program

set_option linter.unusedSectionVars false

/-! ## Stable storage -/

/-- A file system, and what stable storage may say of its paths. -/
structure Disk where
  world : World
  entries : Path → List (Option ℕ)
  current : ∀ path, world.dir path ∈ entries path

namespace Disk

/-- A file system whose directory is on stable storage. -/
def durable (w : World) : Disk where
  world := w
  entries path := [w.dir path]
  current _ := List.mem_singleton_self _

/-- A change of the directory may survive from now on; when the directory is synced it does. -/
def entriesAfter (d : Disk) (w : World) : (c : FsCall) → c.Reply → Path → List (Option ℕ)
  | .syncDir parent, .ok (), path =>
      if path.parent = some parent then [w.dir path] else w.dir path :: d.entries path
  | _, _, path => w.dir path :: d.entries path

variable {d d' : Disk} {w : World} {c : FsCall} {r : c.Reply} {path : Path}

lemma mem_entriesAfter (d : Disk) (w : World) (c : FsCall) (r : c.Reply) (path : Path) :
    w.dir path ∈ d.entriesAfter w c r path := by
  unfold entriesAfter
  split
  · split_ifs <;> simp
  · simp

/-- The entries after a call are those before it and the present one. -/
lemma entriesAfter_cases {entry : Option ℕ} (h : entry ∈ d.entriesAfter w c r path) :
    entry = w.dir path ∨ entry ∈ d.entries path := by
  unfold entriesAfter at h
  split at h
  · split_ifs at h
    · exact .inl (List.mem_singleton.mp h)
    · exact List.mem_cons.mp h
  · exact List.mem_cons.mp h

/-- A call on a file system whose machine may stop. -/
def Step (mayFail : FsCall → Prop) (c : FsCall) (d : Disk) (r : c.Reply) (d' : Disk) : Prop :=
  FsStep mayFail c d.world r d'.world ∧ d'.entries = d.entriesAfter d'.world c r

/-- The call when nothing goes wrong. -/
def perform : Program.Handler FsCall.Reply Disk := fun c d =>
  let next := TuxEncoding.perform c d.world
  (next.1, ⟨next.2, d.entriesAfter next.2 c next.1, d.mem_entriesAfter next.2 c next.1⟩)

/-- What may be found at a path after a crash. -/
def AfterCrash (d : Disk) (path : Path) (found : Option (List UInt8)) : Prop :=
  ∃ entry ∈ d.entries path, match entry with
    | none => found = none
    | some i => ∃ data, found = some data ∧
        ((d.world.inodes i).synced = true → data = d.world.data i)

end Disk

/-! ## What a writer keeps -/

/-- The file is fit to be found: it may be published and is at no path but perhaps the final one. -/
structure IsFit (job : Job) (w : World) (k : ℕ) : Prop where
  floor_le : job.floor ≤ k
  lt_next : k < w.next
  apart : ∀ {path}, path ≠ job.final → w.dir path ≠ some k
  publishes : job.publishes (w.inodes k)

/-- At the final path is the old file, or one that may be published. -/
structure OldOrNew (job : Job) (old : ℕ) (inode : Inode) (d : Disk) : Prop where
  floor_le : job.floor ≤ d.world.next
  old_eq : d.world.inodes old = inode
  onePath : d.world.OnePath job.floor
  entries : ∀ {entry}, entry ∈ d.entries job.final → entry = some old ∨
    ∃ k, entry = some k ∧ IsFit job d.world k

variable {job : Job} {old : ℕ} {inode : Inode} {d d' : Disk} {mayFail : FsCall → Prop} {w' : World}

/-- What a call has to keep. -/
lemma OldOrNew.of_step {c : FsCall} {r : c.Reply} (h : OldOrNew job old inode d)
    (hstep : Disk.Step mayFail c d r d') (hnext : d.world.next ≤ d'.world.next)
    (hold : d'.world.inodes old = d.world.inodes old)
    (honePath : d'.world.OnePath job.floor)
    (hfit : ∀ {k}, IsFit job d.world k → IsFit job d'.world k)
    (hentry : d'.world.dir job.final = d.world.dir job.final ∨
      ∃ k, d'.world.dir job.final = some k ∧ IsFit job d'.world k) :
    OldOrNew job old inode d' := by
  have hkept : ∀ {entry}, entry ∈ d.entries job.final → entry = some old ∨
      ∃ k, entry = some k ∧ IsFit job d'.world k := by
    intro entry he
    rcases h.entries he with rfl | ⟨k, rfl, hk⟩
    · exact .inl rfl
    · exact .inr ⟨k, rfl, hfit hk⟩
  refine ⟨le_trans h.floor_le hnext, hold.trans h.old_eq, honePath, @fun entry he => ?_⟩
  rw [hstep.2] at he
  rcases Disk.entriesAfter_cases he with rfl | he
  · rcases hentry with heq | hnew
    · exact hkept (heq ▸ d.current job.final)
    · exact .inr hnew
  · exact hkept he

/-- A call that leaves the directory and the files alone. -/
lemma OldOrNew.of_same {c : FsCall} {r : c.Reply} (h : OldOrNew job old inode d)
    (hstep : Disk.Step mayFail c d r d') (hnext : d.world.next ≤ d'.world.next)
    (hdir : d'.world.dir = d.world.dir) (hinodes : d'.world.inodes = d.world.inodes) :
    OldOrNew job old inode d' := by
  refine h.of_step hstep hnext (congrFun hinodes old)
    (fun hk hp hq => h.onePath hk (hdir ▸ hp) (hdir ▸ hq)) (fun hk => ?_) (.inl (congrFun hdir _))
  exact ⟨hk.floor_le, lt_of_lt_of_le hk.lt_next hnext, fun hp => hdir ▸ hk.apart hp,
    hinodes ▸ hk.publishes⟩

/-- A call on a handle; only files at a temporary path are written. -/
lemma OldOrNew.of_change {c : FsCall} {r : c.Reply} {fd : Fd} {f : OpenFile}
    (hsynced : ∀ {inode}, job.publishes inode → inode.synced = true) (hinode : inode.synced = true)
    (hlt : old < job.floor) (h : OldOrNew job old inode d) (hstep : Disk.Step mayFail c d r d')
    (hfd : c.fd = some fd) (hf : d.world.files fd = some f)
    (hwrite : c.Writes → job.floor ≤ f.inode ∧ ∃ path, path ≠ job.final ∧
      d.world.dir path = some f.inode) : OldOrNew job old inode d' := by
  obtain ⟨world, entries, hcurrent⟩ := d'
  obtain ⟨change, hchange, _, hwrites⟩ := hstep.1.same hfd ⟨hf, hf, rfl⟩
  dsimp only at hchange
  subst hchange
  -- a file on stable storage that is not written stays as it is
  have hsame : ∀ {k}, (d.world.inodes k).synced = true →
      (c.Writes → k ≠ f.inode) → (change.apply fd f d.world).inodes k = d.world.inodes k := by
    intro k hk hne
    rcases eq_or_ne k f.inode with rfl | hk'
    · cases change with
      | none | seek pos => rfl
      | put bs => exact absurd rfl (hne (hwrites bs rfl))
      | sync =>
          refine (World.setInode_inodes_self _ _).trans ?_
          rw [← hk]
          rfl
    · exact change.apply_inodes_of_ne hk'
  refine h.of_step hstep (by simp) (hsame (h.old_eq ▸ hinode) fun hw => ?_)
    (fun hk hp hq => h.onePath hk (by simpa using hp) (by simpa using hq)) (@fun k hk => ?_)
    (.inl (by simp))
  · exact Nat.ne_of_lt (lt_of_lt_of_le hlt (hwrite hw).1)
  · refine ⟨hk.floor_le, by simpa using hk.lt_next, fun hp => by simpa using hk.apart hp, ?_⟩
    rw [hsame (hsynced hk.publishes) fun hw heq => ?_]
    · exact hk.publishes
    · obtain ⟨_, path, hp, hdir⟩ := hwrite hw
      exact hk.apart hp (heq ▸ hdir)

/-- A new temporary file. -/
lemma OldOrNew.of_createNew {path : Path} {r : Except IoError Fd} (hlt : old < job.floor)
    (hne : path ≠ job.final) (h : OldOrNew job old inode d)
    (hstep : Disk.Step mayFail (.createNew path) d r d') : OldOrNew job old inode d' := by
  obtain ⟨world, entries, hcurrent⟩ := d'
  obtain ⟨k, hk, hdir, rfl, hworld⟩ | ⟨_, _, hworld⟩ := hstep.1.createNew_inv
  · dsimp only at hworld
    subst hworld
    have hfloor := h.floor_le
    refine h.of_step hstep (le_trans hk (Nat.le_succ k))
      (World.create_inodes_of_ne (h := hk) (by omega)) (World.OnePath.create (h := hk) h.onePath)
      (@fun k' hfit => ?_)
      (.inl (World.create_dir_of_ne (h := hk) hne.symm))
    have hlt' := lt_of_lt_of_le hfit.lt_next hk
    refine ⟨hfit.floor_le, Nat.lt_succ_of_lt hlt', @fun p hp hentry => ?_, ?_⟩
    · rcases World.create_dir_cases (h := hk) hentry with ⟨_, rfl⟩ | ⟨_, hentry', _⟩
      · exact absurd hlt' (Nat.lt_irrefl _)
      · exact hfit.apart hp hentry'
    · exact (World.create_inodes_of_ne (h := hk) (Nat.ne_of_lt hlt')).symm ▸ hfit.publishes
  · dsimp only at hworld
    subst hworld
    exact h.of_same hstep (Nat.le_refl _) rfl rfl

/-- A file that may be published is renamed over the final path. -/
lemma OldOrNew.of_rename {src : Path} {r : Except IoError Unit} {k : ℕ} (hne : src ≠ job.final)
    (hsrc : d.world.dir src = some k) (hfloor : job.floor ≤ k)
    (hpublishes : job.publishes (d.world.inodes k)) (h : OldOrNew job old inode d)
    (hstep : Disk.Step mayFail (.rename src job.final) d r d') : OldOrNew job old inode d' := by
  obtain ⟨world, entries, hcurrent⟩ := d'
  obtain ⟨rfl, hworld⟩ | ⟨_, _, hworld⟩ := hstep.1.rename_inv hsrc
  · dsimp only at hworld
    subst hworld
    refine h.of_step hstep (Nat.le_refl _) rfl (World.OnePath.move hne h.onePath)
      (@fun k' hfit => ?_)
      (.inr ⟨k, (World.move_dir_dst _ _).trans hsrc, hfloor, d.world.dir_lt hsrc,
        @fun p hp hdir => ?_, hpublishes⟩)
    · refine ⟨hfit.floor_le, hfit.lt_next, @fun p hp hdir => ?_, hfit.publishes⟩
      rcases World.move_dir_cases hne hdir with ⟨hfinal, _⟩ | ⟨_, _, hdir'⟩
      · exact hp hfinal
      · exact hfit.apart hp hdir'
    · rcases World.move_dir_cases hne hdir with ⟨hfinal, _⟩ | ⟨_, hps, hdir'⟩
      · exact hp hfinal
      · exact hps (h.onePath hfloor hdir' hsrc)
  · dsimp only at hworld
    subst hworld
    exact h.of_same hstep (Nat.le_refl _) rfl rfl

/-- A temporary file is removed. -/
lemma OldOrNew.of_removeFile {path : Path} {r : Except IoError Unit} {k : ℕ}
    (hne : path ≠ job.final)
    (hdir : d.world.dir path = some k) (h : OldOrNew job old inode d)
    (hstep : Disk.Step mayFail (.removeFile path) d r d') : OldOrNew job old inode d' := by
  obtain ⟨world, entries, hcurrent⟩ := d'
  obtain ⟨rfl, hworld⟩ | ⟨_, _, hworld⟩ := hstep.1.removeFile_inv hdir
  · dsimp only at hworld
    subst hworld
    exact h.of_step hstep (Nat.le_refl _) rfl (World.OnePath.unlink h.onePath)
      (fun hfit => ⟨hfit.floor_le, hfit.lt_next,
        fun hp hdir' => hfit.apart hp (World.unlink_dir_cases hdir').2, hfit.publishes⟩)
      (.inl (World.unlink_dir_of_ne hne.symm))
  · dsimp only at hworld
    subst hworld
    exact h.of_same hstep (Nat.le_refl _) rfl rfl

/-- A call within the contract keeps it, when only files on stable storage may be published. -/
lemma oldOrNew_step {c : FsCall} {r : c.Reply}
    (hsynced : ∀ {inode}, job.publishes inode → inode.synced = true) (hinode : inode.synced = true)
    (hlt : old < job.floor) (h : OldOrNew job old inode d) (hmay : job.Allows c d.world)
    (hstep : Disk.Step mayFail c d r d') : OldOrNew job old inode d' := by
  cases c with
  | processId =>
      obtain ⟨_, hworld⟩ := hstep.1.processId_inv
      exact h.of_same hstep (by rw [hworld]) (by rw [hworld]) (by rw [hworld])
  | nextTempCounter =>
      have hworld := hstep.1.nextTempCounter_inv
      exact h.of_same hstep (by rw [hworld]; rfl) (by rw [hworld]; rfl) (by rw [hworld]; rfl)
  | openDir parent =>
      have hworld := hstep.1.openDir_inv
      exact h.of_same hstep (by rw [hworld]) (by rw [hworld]) (by rw [hworld])
  | syncDir parent =>
      have hworld := hstep.1.syncDir_inv
      exact h.of_same hstep (by rw [hworld]) (by rw [hworld]) (by rw [hworld])
  | openFile path writable => exact hmay.elim
  | createNew path =>
      obtain ⟨counter, rfl⟩ := hmay
      exact h.of_createNew hlt (tempPathOf_ne _ _ _) hstep
  | rename src dst =>
      obtain ⟨rfl, hne, k, hsrc, hfloor, hpublishes⟩ := hmay
      exact h.of_rename hne hsrc hfloor hpublishes hstep
  | removeFile path =>
      obtain ⟨hne, k, hdir, _⟩ := hmay
      exact h.of_removeFile hne hdir hstep
  | write fd bs | writeAll fd bs =>
      obtain ⟨f, path, hf, hne, hdir, hfloor⟩ := hmay
      exact h.of_change hsynced hinode hlt hstep rfl hf fun _ => ⟨hfloor, path, hne, hdir⟩
  | tryClone fd =>
      obtain ⟨f, hf, _⟩ := hmay
      exact h.of_change hsynced hinode hlt hstep rfl hf False.elim
  | seek fd _ | read fd _ | readExact fd _ | flush fd | syncAll fd =>
      obtain ⟨f, hf⟩ := hmay
      exact h.of_change hsynced hinode hlt hstep rfl hf False.elim

end TuxEncoding
