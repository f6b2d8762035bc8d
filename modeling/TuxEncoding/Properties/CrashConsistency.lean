import TuxEncoding.Fs.Crash
import TuxEncoding.Fs.ObjectSafety
import TuxEncoding.Fs.Session

/-!
# Crashes during an update

`rewrite` syncs the replacement before it renames it, whatever the object was written with.

* `rewrite_crash_consistent`: wherever a rewrite stops, what is found at the path after a crash is
  the old object byte for byte or the complete new one, when stable storage has the old one to begin
  with.
* `unsynced_object_lost`: an object that was written without syncing, as is the default, may be lost
  as soon as the rewrite starts.
-/

namespace TuxEncoding

open Interaction Program

set_option linter.unusedSectionVars false

/-- Stable storage has the file, and the entry that leads to it. -/
structure Disk.Holds (d : Disk) (path : Path) (old : ℕ) : Prop where
  entry : d.world.dir path = some old
  entries : ∀ entry ∈ d.entries path, entry = some old
  synced : (d.world.inodes old).synced = true

section

variable [Platform] [Codecs]

/-- Wherever a rewrite stops, what a crash leaves at the path of the object is what was there, or
the new sections with the content of the file `i` that the handle is open on. -/
def CrashConsistent (mayFail : FsCall → Prop) (d : Disk) (object : TuxObject) (i old : ℕ)
    (metadata : MetadataMap) (tags : Tags String) : Prop :=
  ∀ p d' found, Reaches (Disk.Step mayFail) ((TuxObject.rewrite metadata tags).on object) d p d' →
    d'.AfterCrash object.path found → found = some (d.world.data old) ∨
      ∃ data layout, found = some data ∧ IsImage object.header.compressionType layout metadata tags
        (object.storedContent (d.world.data i)) data

variable {mayFail : FsCall → Prop} {d d' : Disk} {object : TuxObject} {i old : ℕ}
  {metadata : MetadataMap} {tags : Tags String}

/-- What the contract of `rewrite` lets it publish. -/
abbrev TuxObject.rewriteJob (object : TuxObject) (w : World) (i : ℕ) (metadata : MetadataMap)
    (tags : Tags String) : Job :=
  Job.startedIn w object.path (object.updated (w.data i) metadata tags).Publishes

/-- All calls of a rewrite are within its contract. -/
lemma rewrite_allows {w : World} (h : OpenOn w object i) (metadata : MetadataMap)
    (tags : Tags String) :
    Program.Safe (FsStep mayFail) (object.rewriteJob w i metadata tags).Allows
      ((TuxObject.rewrite metadata tags).on object) (fun _ _ => True) w := by
  have hreplacement : Fallible.Safe (FsStep mayFail) (object.rewriteJob w i metadata tags).Allows
      (object.replacement metadata tags) (fun _ _ => True) (fun _ _ => True) w := by
    by_cases hwritable : object.writable = true
    · exact Fallible.Safe.mono (replacement_safe h hwritable _ fun _ hpub => hpub)
        (fun _ _ _ => trivial) fun _ _ _ => trivial
    · -- a handle for reading fails before it does anything
      unfold TuxObject.replacement
      rw [TuxObject.ensureWritable, if_neg hwritable]
      exact Fallible.Safe.bind (Fallible.Safe.ofExcept trivial)
  have hrewrite : Method.Safe (FsStep mayFail) (object.rewriteJob w i metadata tags).Allows
      (TuxObject.rewrite metadata tags) object (fun _ _ _ => True) (fun _ _ _ => True) w := by
    unfold TuxObject.rewrite
    refine Method.Safe.bind (Method.Safe.get (Method.Safe.bind (Method.Safe.lift ?_)))
    exact Fallible.Safe.mono hreplacement (fun _ _ _ => Method.Safe.set trivial)
      fun _ _ _ => trivial
  exact Program.Safe.mono (fun _ _ _ => trivial) hrewrite

/-- The old object and new ones are all that stable storage may lead to. -/
lemma rewrite_oldOrNew {p : Program FsCall.Reply (Except ObjectFileError Unit × TuxObject)}
    (h : OpenOn d.world object i) (hholds : d.Holds object.path old)
    (hrun : Reaches (Disk.Step mayFail) ((TuxObject.rewrite metadata tags).on object) d p d') :
    OldOrNew (object.rewriteJob d.world i metadata tags) old (d.world.inodes old) d' := by
  have hsafe : Program.Safe (Disk.Step mayFail)
      (fun c d' => (object.rewriteJob d.world i metadata tags).Allows c d'.world)
      ((TuxObject.rewrite metadata tags).on object) (fun _ _ => True) d :=
    Program.Safe.along Disk.world (fun _ _ _ _ hstep => hstep.1) (fun _ _ hmay => hmay)
      (rewrite_allows h metadata tags)
  refine Program.Safe.invariant (fun c d₁ r d₂ hmay hstep hinv => ?_) hrun hsafe ?_
  · exact oldOrNew_step And.right hholds.synced (d.world.dir_lt hholds.entry) hinv hmay hstep
  · exact ⟨Nat.le_refl _, rfl, World.onePath_next _, fun he => .inl (hholds.entries _ he)⟩

/-- What a crash during a rewrite leaves at the path is the old object or the complete new one, when
stable storage has the old one. -/
theorem rewrite_crash_consistent (h : OpenOn d.world object i) (hholds : d.Holds object.path old)
    (metadata : MetadataMap) (tags : Tags String) :
    CrashConsistent mayFail d object i old metadata tags := by
  rintro p d' found hrun ⟨entry, hentry, hfound⟩
  have hinv := rewrite_oldOrNew h hholds hrun
  rcases hinv.entries hentry with rfl | ⟨k, rfl, hfit⟩
  · obtain ⟨data, rfl, hdata⟩ := hfound
    have hold := hinv.old_eq
    refine .inl (congrArg some ?_)
    rw [hdata (hold ▸ hholds.synced), World.data, hold]
    rfl
  · obtain ⟨data, rfl, hdata⟩ := hfound
    obtain ⟨⟨layout, himage⟩, hsynced⟩ := hfit.publishes
    exact .inr ⟨data, layout, rfl, hdata hsynced ▸ himage⟩

end

attribute [local instance] fullPlatform pairCodecs

/-- An object of three bytes at `d/o`, written with or without syncing. -/
abbrev writtenObject (sync : Bool) : Except ObjectFileError Outcome × Disk :=
  exec Disk.perform (life .blocking World.somePath { CreateOptions.default with sync := sync }
    [.write [1, 2, 3]] .finish).run (Disk.durable World.empty)

/-- The handle that its writer has returned. -/
abbrev writtenHandle (sync : Bool) : TuxObject :=
  (publishedBy (writtenObject sync).1).get (by cases sync <;> decide +kernel)

/-- The first calls of a rewrite of the synced object. -/
abbrev interruptedRewrite (n : ℕ) :
    Program FsCall.Reply (Except ObjectFileError Unit × TuxObject) × Disk :=
  advance Disk.perform n ((TuxObject.rewrite .new Tags.new).on (writtenHandle true))
    (writtenObject true).2

/-- After the rename stable storage may lead to either object. -/
theorem rewrite_crash_consistent_renamed :
    (some 0 ∈ (interruptedRewrite 13).2.entries World.somePath ∧
      some 1 ∈ (interruptedRewrite 13).2.entries World.somePath) ∧
    CrashConsistent (fun _ => False) (writtenObject true).2 (writtenHandle true) 0 0 .new
      Tags.new := by
  have hpath : (writtenHandle true).path = World.somePath := by decide +kernel
  refine ⟨by decide +kernel, rewrite_crash_consistent ⟨608, by decide +kernel⟩ ?_ _ _⟩
  rw [hpath]
  exact ⟨by decide +kernel, by decide +kernel, by decide +kernel⟩

/-- A crash may lose an object that was written without syncing before the rewrite has made its
first call. -/
theorem unsynced_object_lost :
    ¬ ∀ (mayFail : FsCall → Prop) (d : Disk) (object : TuxObject) (i : ℕ) (metadata : MetadataMap)
      (tags : Tags String), OpenOn d.world object i → d.world.dir object.path = some i →
      CrashConsistent mayFail d object i i metadata tags := by
  intro h
  have hpath : (writtenHandle false).path = World.somePath := by decide +kernel
  have hcrash : (writtenObject false).2.AfterCrash (writtenHandle false).path (some []) := by
    rw [hpath]
    exact ⟨some 0, by decide +kernel, [], rfl, fun hsynced =>
      absurd hsynced (by decide +kernel)⟩
  rcases h (fun _ => False) (writtenObject false).2 (writtenHandle false) 0 .new Tags.new
    ⟨608, by decide +kernel⟩ (by rw [hpath]; decide +kernel) _ _ _ (.refl _ _) hcrash with
    hold | ⟨data, layout, hdata, himage⟩
  · exact absurd hold (by decide +kernel)
  · obtain rfl := Option.some.inj hdata
    have hheader := himage.headerSize_le
    have htags := himage.tagsStart_le
    have hlength := himage.length_eq
    rw [List.length_nil] at hlength
    have hsize : headerSize = 32 := rfl
    omega

end TuxEncoding
