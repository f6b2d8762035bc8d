import TuxEncoding.Properties.CrashConsistency
import TuxEncoding.Properties.Rewriters

/-!
# Crashes while updates race

The users of `Rewriters` at work on a disk, when the machine stops.

* `Rivals.allows`: what a user may do in its own view is within the contract in the file system, but
  for opening the path and cloning a handle, which write nothing, and the names of temporary files.
* `Guarded` joins what holds of the file system with what stable storage may say of the path.
* `racing_crash_consistent`: whatever the users have done and wherever they are, what is found at
  the path after a crash is the initial file byte for byte or a whole file of its lineage.
-/

namespace TuxEncoding

open Interaction Program

set_option linter.unusedSectionVars false

/-! ## Calls on a disk -/

/-- A call from the process `pid` on a file system whose machine may stop. -/
def Disk.ProcessStep (mayFail : FsCall → Prop) (pid : ℕ) (c : FsCall) (d : Disk) (r : c.Reply)
    (d' : Disk) : Prop :=
  TuxEncoding.ProcessStep mayFail pid c d.world r d'.world ∧
    d'.entries = d.entriesAfter d'.world c r

/-- The call of a process that has the disk to itself. -/
def Disk.ProcessStep.perform (pid : ℕ) : Program.Handler FsCall.Reply Disk := fun c d =>
  let next := TuxEncoding.ProcessStep.perform pid c d.world
  (next.1, ⟨next.2, d.entriesAfter next.2 c next.1, d.mem_entriesAfter next.2 c next.1⟩)

lemma Disk.processStep_perform (mayFail : FsCall → Prop) (pid : ℕ) (c : FsCall) (d : Disk) :
    Disk.ProcessStep mayFail pid c d (Disk.ProcessStep.perform pid c d).1
      (Disk.ProcessStep.perform pid c d).2 :=
  ⟨TuxEncoding.processStep_perform mayFail pid c d.world, rfl⟩

section guarded

variable {κ : Type} [DecidableEq κ] {path : Path} {w₀ w : World} {good : List UInt8 → Prop}
  {pids : κ → ℕ} {views : κ → World} {k : κ} {c : FsCall} {mayFail : FsCall → Prop} {old : ℕ}
  {inode : Inode} {d d' : Disk}

/-- What a user may do it may do in the file system, too. -/
lemma Rivals.allows (h : Rivals path w₀ good pids w views)
    (hmay : OwnMay w₀ path good c (views k)) :
    (∃ writable, c = .openFile path writable) ∨
      (∃ fd f, c = .tryClone fd ∧ w.files fd = some f) ∨
        (∃ p, c = .createNew p) ∨ (Job.publishing w₀ path good).Allows c w := by
  cases c with
  | openFile p writable =>
      obtain rfl := hmay
      exact .inl ⟨writable, rfl⟩
  | tryClone fd =>
      obtain ⟨f, hf, _⟩ := hmay
      exact .inr (.inl ⟨fd, f, rfl, ((h.sees k).files hf).1⟩)
  | processId | nextTempCounter | openDir _ | syncDir _ => exact .inr (.inr (.inr trivial))
  | createNew p => exact .inr (.inr (.inl ⟨p, rfl⟩))
  | seek fd _ | read fd _ | readExact fd _ | flush fd | syncAll fd =>
      obtain ⟨f, hf⟩ := hmay
      exact .inr (.inr (.inr ⟨f, ((h.sees k).files hf).1⟩))
  | write fd bs | writeAll fd bs =>
      obtain ⟨f, p, hf, hne, hdir, hle⟩ := hmay
      exact .inr (.inr (.inr
        ⟨f, p, ((h.sees k).files hf).1, hne, ((h.sees k).temp hne hdir).2.2.1, hle⟩))
  | rename src dst =>
      obtain ⟨hdst, hne, j, hdir, hle, hpublishes⟩ := hmay
      obtain ⟨_, _, hentry, hinode⟩ := (h.sees k).temp hne hdir
      exact .inr (.inr (.inr ⟨hdst, hne, j, hentry, hle, hinode ▸ hpublishes⟩))
  | removeFile p =>
      obtain ⟨hne, j, hdir, hle⟩ := hmay
      exact .inr (.inr (.inr ⟨hne, j, ((h.sees k).temp hne hdir).2.2.1, hle⟩))

/-- What holds of the file system, and of what stable storage may say of the path. -/
structure Guarded (path : Path) (w₀ : World) (good : List UInt8 → Prop) (pids : κ → ℕ) (old : ℕ)
    (d : Disk) (views : κ → World) : Prop where
  rivals : Rivals path w₀ good pids d.world views
  oldOrNew : OldOrNew (Job.publishing w₀ path good) old (w₀.inodes old) d

/-- A call of a user keeps both. -/
lemma Guarded.step {r : c.Reply} (hsynced : (w₀.inodes old).synced = true) (hlt : old < w₀.next)
    (h : Guarded path w₀ good pids old d views) (hmay : OwnMay w₀ path good c (views k))
    (hstep : Disk.ProcessStep mayFail (pids k) c d r d') :
    ∃ v', OwnStep mayFail (Taken path w₀ pids k) good c (views k) r v' ∧
      Guarded path w₀ good pids old d' (Function.update views k v') := by
  obtain ⟨v', hown, hrivals⟩ := h.rivals.step hmay hstep.1
  refine ⟨v', hown, hrivals, ?_⟩
  have hpublished : ∀ {inode}, (Job.publishing w₀ path good).publishes inode →
      inode.synced = true := And.right
  cases c with
  | processId =>
      obtain ⟨⟨_, hworld⟩, hentries⟩ := hstep
      have hsame : Disk.Step mayFail .processId d d.world.pid d' := by
        refine ⟨?_, hentries⟩
        rw [hworld]
        exact .inl ⟨0, rfl⟩
      exact h.oldOrNew.of_same hsame (by rw [hworld]) (by rw [hworld]) (by rw [hworld])
  | openFile p writable =>
      have hdisk : Disk.Step mayFail (.openFile p writable) d r d' := hstep
      obtain ⟨_, n, hn, _, _, hworld⟩ | ⟨_, _, hworld⟩ := hdisk.1.openFile_inv
      · refine h.oldOrNew.of_same hdisk ?_ (by rw [hworld]; rfl) (by rw [hworld]; rfl)
        rw [hworld]
        exact Nat.le_succ_of_le hn
      · exact h.oldOrNew.of_same hdisk (by rw [hworld]) (by rw [hworld]) (by rw [hworld])
  | createNew p =>
      obtain ⟨counter, rfl⟩ := hmay
      exact h.oldOrNew.of_createNew hlt (tempPathOf_ne _ _ _) hstep
  | _ =>
      have hdisk : Disk.Step mayFail _ d r d' := hstep
      obtain ⟨_, hopen⟩ | ⟨fd, f, hclone, hf⟩ | ⟨_, hcreate⟩ | hallows := h.rivals.allows hmay
      · cases hopen
      · refine h.oldOrNew.of_change hpublished hsynced hlt hdisk ?_ hf ?_
        · rw [hclone]
          rfl
        · rw [hclone]
          exact False.elim
      · cases hcreate
      · exact oldOrNew_step hpublished hsynced hlt h.oldOrNew hallows hdisk

end guarded

/-! ## All users -/

section

variable [Platform] [Codecs] {κ : Type} [DecidableEq κ]

/-- Users at work on a disk. -/
abbrev DiskRewriters (κ : Type) : Type :=
  Pool FsCall.Reply κ (Except ObjectFileError (List Event)) Disk

namespace DiskRewriters

/-- Nobody has begun. -/
def start (users : κ → Rewriter) (path : Path) (d : Disk) : DiskRewriters κ :=
  ⟨fun k => (users k).program path, d⟩

/-- Any interleaving of their calls, where those may fail for which `mayFail` holds. -/
def Reachable (mayFail : FsCall → Prop) (users : κ → Rewriter) (p q : DiskRewriters κ) : Prop :=
  Pool.Reachable (fun k => Disk.ProcessStep mayFail (users k).pid) p q

end DiskRewriters

/-- Wherever the users are, what a crash leaves at the path is a file of the lineage, with the
content of the initial one. -/
def SurvivesCrash (users : κ → Rewriter) (path : Path) (data₀ : List UInt8) (d : Disk) : Prop :=
  ∀ found, d.AfterCrash path found → ∃ data, found = some data ∧
    Lineage (OfferedBy users) data₀ data ∧ KeepsContent data₀ data

variable {mayFail : FsCall → Prop} {users : κ → Rewriter} {path : Path} {d : Disk} {i : ℕ}
  {p : DiskRewriters κ}

/-- The machine may stop at any point of any interleaving of users who replace one file with atomic
updates, when stable storage has the file to begin with. -/
theorem racing_crash_consistent (hholds : d.Holds path i)
    (hp : (DiskRewriters.start users path d).Reachable mayFail users p) :
    SurvivesCrash users path (d.world.data i) p.shared := by
  have hinit : Guarded path d.world (Lineage (OfferedBy users) (d.world.data i))
      (fun k => (users k).pid) i d fun k => d.world.unknown (users k).pid :=
    ⟨rivals_unknown users hholds.entry, Nat.le_refl _, rfl, World.onePath_next _,
      fun he => .inl (hholds.entries _ he)⟩
  obtain ⟨_, hguarded, _⟩ := Pool.invariantEach
    (fun k c d₁ r d₂ views h hmay hstep =>
      Guarded.step hholds.synced (d.world.dir_lt hholds.entry) h hmay hstep) hp
    ⟨_, hinit, fun k => (users k).program_safe (fun u hu => ⟨k, hu⟩)
      (Nat.le_refl _) fun _ => rfl⟩
  rintro found ⟨entry, hentry, hfound⟩
  rcases hguarded.oldOrNew.entries hentry with rfl | ⟨k, rfl, hfit⟩
  · obtain ⟨data, rfl, hdata⟩ := hfound
    have hold := hguarded.oldOrNew.old_eq
    have hsame : data = d.world.data i := by
      rw [hdata (hold ▸ hholds.synced), World.data, hold]
      rfl
    rw [hsame]
    exact ⟨_, rfl, .initial, .inl rfl⟩
  · obtain ⟨data, rfl, hdata⟩ := hfound
    obtain ⟨hline, hsynced⟩ := hfit.publishes
    obtain rfl := hdata hsynced
    exact ⟨_, rfl, hline, Lineage.keepsContent hline⟩

end

attribute [local instance] fullPlatform pairCodecs

/-- One user goes on for `n` calls while the others wait. -/
def DiskRewriters.turn {κ : Type} [DecidableEq κ] (users : κ → Rewriter) (p : DiskRewriters κ)
    (k : κ) (n : ℕ) : DiskRewriters κ :=
  let next := Program.advance (Disk.ProcessStep.perform (users k).pid) n (p.threads k) p.shared
  ⟨Function.update p.threads k next.1, next.2⟩

lemma DiskRewriters.Reachable.turn {κ : Type} [DecidableEq κ] {users : κ → Rewriter}
    {p q : DiskRewriters κ} (h : p.Reachable NoFaults users q) (k : κ) (n : ℕ) :
    p.Reachable NoFaults users (q.turn users k n) :=
  Pool.Reachable.advance k (Disk.processStep_perform NoFaults (users k).pid) n h

/-- The file on stable storage. -/
def bareDisk : Disk := Disk.durable (World.single bareFile)

/-- Both users have renamed their files over the path, and neither has synced the directory. -/
def bothRenamed : DiskRewriters Bool :=
  (((DiskRewriters.start twoRewriters World.somePath bareDisk).turn twoRewriters false 15).turn
    twoRewriters true 16).turn twoRewriters false 1

/-- A crash may leave any of three files at the path. -/
theorem racing_crash_consistent_both_renamed :
    (∀ k ∈ [0, 2, 4], some k ∈ bothRenamed.shared.entries World.somePath) ∧
    SurvivesCrash twoRewriters World.somePath bareFile bothRenamed.shared := by
  have hentries : ∀ k ∈ [0, 2, 4], some k ∈ bothRenamed.shared.entries World.somePath := by
    decide +kernel
  have hholds : bareDisk.Holds World.somePath 0 :=
    ⟨rfl, fun _ he => List.mem_singleton.mp he, rfl⟩
  have hp : (DiskRewriters.start twoRewriters World.somePath bareDisk).Reachable NoFaults
      twoRewriters bothRenamed :=
    ((DiskRewriters.Reachable.turn .refl false 15).turn true 16).turn false 1
  exact ⟨hentries, racing_crash_consistent hholds hp⟩

end TuxEncoding
