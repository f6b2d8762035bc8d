import TuxEncoding.Fs.Shared

/-!
# Publication is all or nothing

Writers that share a file system, in any interleaving of their calls, each stopping wherever it
likes.

* `AllOrNothing` is what holds at every moment: at the final path of a writer stands what was there
  initially or the whole image of one writer that has renamed its file there, and the next call of a
  writer touches no temporary file of another one. The image of a tokio writer may lack content if
  the writer has gone on when an operation had reported an error.
* `publication_all_or_nothing`: it holds when no writer publishes at a path that another one may
  give to a temporary file.
* `heedless_writer_publishes_less`: a tokio writer that goes on may publish less than it counts.
* `partial_file_at_final_path`: otherwise the temporary file of one writer stands, unfinished, at
  the final path of the other.
-/

namespace TuxEncoding

open Bytes Interaction Program

set_option linter.unusedSectionVars false

section

variable [Platform] [Codecs] {ι : Type} [DecidableEq ι]

/-- Writers that share a file system. -/
abbrev Writers (ι : Type) : Type :=
  Pool FsCall.Reply ι (Except ObjectFileError Outcome) (Shared ι)

/-- The writers before their first calls. -/
def Writers.start (runs : ι → WriterRun) (w₀ : World) : Writers ι where
  threads i := (runs i).program
  shared := ⟨w₀, fun _ => none, fun _ => none⟩

/-- What the writers can come to. -/
def Writers.Reachable (runs : ι → WriterRun) (w₀ : World) (p : Writers ι) : Prop :=
  Pool.Reachable (Shared.Step fun i => (runs i).pid) (Writers.start runs w₀) p

/-- The file is a temporary one of the writer `j`: it is its own and not, or not yet, published. -/
def Shared.IsTempOf (runs : ι → WriterRun) (g : Shared ι) (j : ι) (k : ℕ) : Prop :=
  g.owner k = some j ∧ ∃ path, path ≠ (runs j).path ∧ g.world.dir path = some k

/-- The call writes, renames, replaces or removes the file. -/
def World.Touches (w : World) : FsCall → ℕ → Prop
  | .write fd _, k | .writeAll fd _, k => ∃ f, w.files fd = some f ∧ f.inode = k
  | .rename src dst, k => w.dir src = some k ∨ w.dir dst = some k
  | .removeFile path, k => w.dir path = some k
  | _, _ => False

/-- At the path is what was there initially, or what the writer that was the last to rename its file
there may leave, when its operations have returned what they have by now. -/
def Writers.WholeAt (runs : ι → WriterRun) (w₀ : World) (p : Writers ι) (path : Path) : Prop :=
  match p.shared.publisher path with
  | none => p.shared.world.dir path = w₀.dir path ∧
      ∀ k, w₀.dir path = some k → p.shared.world.data k = w₀.data k
  | some j => (runs j).path = path ∧ ∃ k, p.shared.world.dir path = some k ∧
      p.shared.owner k = some j ∧ ∃ results,
        Always (fun r => ∃ result, r = .ok (results, result)) (p.threads j) ∧
        (runs j).Leaves results (p.shared.world.data k)

/-- Publication is all or nothing, and no writer touches a temporary file of another one. -/
structure AllOrNothing (runs : ι → WriterRun) (w₀ : World) (p : Writers ι) : Prop where
  whole : ∀ i, p.WholeAt runs w₀ (runs i).path
  apart : ∀ {i c k}, p.threads i = .call c k → ∀ {n j}, p.shared.world.Touches c n →
    p.shared.IsTempOf runs j n → j = i

/-! ## The invariant -/

/-- A file system of which a writer knows nothing but the numbers that are taken. -/
def World.unknown (w : World) (pid : ℕ) : World where
  dir _ := none
  inodes := w.inodes
  files _ := none
  next := w.next
  counter := 0
  pid := pid
  dir_lt := nofun
  files_lt := nofun

variable {runs : ι → WriterRun} {w₀ : World} {p : Writers ι}

/-- What the writers may publish when they have this much left to do. -/
def Writers.pub (runs : ι → WriterRun)
    (threads : ι → Program FsCall.Reply (Except ObjectFileError Outcome)) (j : ι) :
    List UInt8 → Prop :=
  (runs j).MayLeave id (threads j)

/-- What a writer may publish it still may after a call. -/
lemma Writers.pub_update {threads : ι → Program FsCall.Reply (Except ObjectFileError Outcome)}
    {i : ι} {c : FsCall} {k : c.Reply → Program FsCall.Reply (Except ObjectFileError Outcome)}
    (hthread : threads i = .call c k) (r : c.Reply) (j : ι) {data : List UInt8}
    (h : Writers.pub runs threads j data) :
    Writers.pub runs (Function.update threads i (k r)) j data := by
  unfold Writers.pub at h ⊢
  rcases eq_or_ne j i with rfl | hj
  · rw [hthread] at h
    rw [Function.update_self]
    exact h.of_call r
  · rwa [Function.update_of_ne hj]

/-- Every writer keeps to its contract in its own view of the file system, and the file system is
sound. -/
lemma reachable_going (hnames : NoFinalIsTemp runs) (hp : p.Reachable runs w₀) :
    ∃ v : ι → World,
      (Sound runs w₀ (Writers.pub runs p.threads) p.shared ∧ ∀ i, ViewOf runs p.shared i (v i)) ∧
      ∀ i, (runs i).Going (w₀.unknown (runs i).pid) id (p.threads i) (v i) := by
  refine @Pool.invariantAlong _ _ _ _ _ _ _ _
    (fun threads g v => Sound runs w₀ (Writers.pub runs threads) g ∧ ∀ i, ViewOf runs g i (v i))
    (fun i p v => (runs i).Going (w₀.unknown (runs i).pid) id p v) ?_ _ _ hp
    ⟨fun i => w₀.unknown (runs i).pid, ⟨?_, fun i => ?_⟩, fun i => ?_⟩
  · rintro i c k threads g r g' v hthread ⟨hsound, hviews⟩ hgoing hstep
    obtain ⟨hmay, hnext⟩ := hgoing.call
    rw [← hthread] at hmay
    obtain ⟨v', hstepped⟩ := shared_step (hviews i) hsound hnames hmay hstep
    refine ⟨v', hnext r v' hstepped.step,
      hstepped.sound.mono fun j _ => Writers.pub_update hthread r j, fun j => ?_⟩
    rcases eq_or_ne j i with rfl | hj
    · rw [Function.update_self]
      exact hstepped.view
    · rw [Function.update_of_ne hj]
      exact (hviews j).of_spares (hstepped.spares hj)
  · exact ⟨Nat.le_refl _, nofun, World.onePath_next w₀, fun _ => rfl, fun _ => rfl, nofun⟩
  · exact ⟨Nat.le_refl _, rfl, nofun, nofun, nofun, nofun, nofun⟩
  · have hstart := WriterRun.Going.start (runs i) (w₀.unknown (runs i).pid) id
    rwa [id_map] at hstart

/-- What a writer may touch is its own, or has been published. -/
lemma apart_of_allowed {g : Shared ι} {v : World} {i j : ι} {c : FsCall} {n : ℕ}
    {pub : ι → List UInt8 → Prop} (hsound : Sound runs w₀ pub g) (hview : ViewOf runs g i v)
    (hmay : ((runs i).job w₀.next (pub i)).Allows c v) (htouches : g.world.Touches c n)
    (htemp : g.IsTempOf runs j n) : j = i := by
  have hown : ∀ {n'}, n' = n → g.owner n' = some i → j = i := by
    rintro _ rfl hi
    exact Option.some.inj (htemp.1.symm.trans hi)
  cases c with
  | write fd bs | writeAll fd bs =>
      obtain ⟨f, path, hf, _⟩ := hmay
      obtain ⟨f', hf', hn⟩ := htouches
      obtain ⟨_, hinode, hfile⟩ := hview.files hf
      obtain rfl := Option.some.inj (hfile.symm.trans hf')
      exact hown hn hinode
  | removeFile path =>
      obtain ⟨hne, k, hdir, _⟩ := hmay
      exact hown (Option.some.inj ((hview.temp hdir hne).2.symm.trans htouches)) (hview.owned hdir)
  | rename src dst =>
      obtain ⟨rfl, hne, k, hsrc, _⟩ := hmay
      rcases htouches with hn | hn
      · exact hown (Option.some.inj ((hview.temp hsrc hne).2.symm.trans hn)) (hview.owned hsrc)
      · -- what is replaced has been there initially, or has been published
        obtain ⟨howner, path, hpath, hentry⟩ := htemp
        obtain rfl := hsound.onePath (hsound.owner_lt howner).1 hentry hn
        cases hpub : g.publisher (runs i).path with
        | none =>
            have hlt := w₀.dir_lt ((hsound.unpublished hpub).symm.trans hn)
            exact absurd (hsound.owner_lt howner).1 (Nat.not_le.mpr hlt)
        | some j' =>
            obtain ⟨hpaths, k', hdir, hk', _⟩ := hsound.published hpub
            obtain rfl := Option.some.inj (hdir.symm.trans hn)
            obtain rfl := Option.some.inj (hk'.symm.trans howner)
            exact absurd hpaths.symm hpath
  | _ => exact htouches.elim

/-- At every moment a final path shows what was there initially or what one writer has put together,
and no writer touches a temporary file of another one, whatever fails and wherever the writers stop:
provided no writer publishes at a path that another one may give to a temporary file. -/
theorem publication_all_or_nothing (hnames : NoFinalIsTemp runs) (hp : p.Reachable runs w₀) :
    AllOrNothing runs w₀ p := by
  obtain ⟨v, ⟨hsound, hviews⟩, hgoing⟩ := reachable_going hnames hp
  refine ⟨fun i => ?_, @fun i c k hcall n j htouches htemp => ?_⟩
  · unfold Writers.WholeAt
    cases hpub : p.shared.publisher (runs i).path with
    | none =>
        exact ⟨hsound.unpublished hpub, fun k hk =>
          congrArg Inode.data (hsound.initial (w₀.dir_lt hk))⟩
    | some j =>
        exact hsound.published hpub
  · have hnext := hgoing i
    rw [hcall] at hnext
    have hmay := hnext.call.1
    rw [← hcall] at hmay
    exact apart_of_allowed hsound (hviews i) hmay htouches htemp

/-- The writer `i` goes on for `n` calls while the others wait. -/
def Writers.turn (runs : ι → WriterRun) (p : Writers ι) (i : ι) (n : ℕ) : Writers ι :=
  let next := Program.advance (Shared.perform (fun i => (runs i).pid) i) n (p.threads i) p.shared
  ⟨Function.update p.threads i next.1, next.2⟩

lemma Writers.Reachable.turn (hp : p.Reachable runs w₀) (i : ι) (n : ℕ) :
    (p.turn runs i n).Reachable runs w₀ :=
  Pool.Reachable.advance i (Shared.step_perform _ i) n hp

end

attribute [local instance] fullPlatform pairCodecs

/-- Two writers publish at one path. -/
def rivals (second : Bool) : WriterRun where
  pid := 1
  flavor := if second then .tokio else .blocking
  path := World.somePath
  options := .default
  ops := if second then [.write [3]] else [.write [1, 2]]
  ending := .finish

/-- The first one has created its temporary file when the second one publishes. -/
theorem publication_all_or_nothing_rivals : ∃ p : Writers Bool, p.Reachable rivals World.empty ∧
    p.shared.publisher World.somePath = some true ∧ AllOrNothing rivals World.empty p := by
  have hnames : NoFinalIsTemp rivals := by
    rintro i j ⟨pid, counter, hpath⟩
    exact tempPathOf_ne _ _ _ hpath.symm
  have hstart : (Writers.start rivals World.empty).Reachable rivals World.empty := .refl
  have hp := (hstart.turn false 3).turn true 20
  exact ⟨_, hp, by decide +kernel, publication_all_or_nothing hnames hp⟩

/-- A tokio writer whose bytes are never stored. Its flush says so, and it finishes all the same. -/
abbrev heedlessRun : Except ObjectFileError Outcome × World :=
  exec (performExcept fun c => c matches .writeAll _ [1, 2, 3]) (life .tokio World.somePath .default
    [.write [1, 2, 3], .flush] .finish).run World.empty

/-- It publishes an object that counts three bytes of content, and there are none. -/
theorem heedless_writer_publishes_less :
    Ends (FsStep fun c => (c matches .writeAll _ [1, 2, 3]) = true) (life .tokio World.somePath
      .default [.write [1, 2, 3], .flush] .finish).run World.empty heedlessRun.1 heedlessRun.2 ∧
    ∃ object, publishedBy heedlessRun.1 = some object ∧ object.header.contentLength = 3 ∧
      (heedlessRun.2.data object.file).length = object.header.contentStart.toNat := by
  refine ⟨exec_ends (fsStep_performExcept _) _ _, ?_⟩
  exact ⟨(publishedBy heedlessRun.1).get (by decide +kernel), (Option.some_get _).symm,
    by decide +kernel, by decide +kernel⟩

/-- One writer publishes where another one has its first temporary file. -/
def clashing (second : Bool) : WriterRun where
  pid := 1
  flavor := .blocking
  path := if second then tempPathOf World.somePath 1 0 else World.somePath
  options := .default
  ops := []
  ending := .finish

/-- The empty temporary file of the first writer stands at the final path of the second one, which
was free and at which nobody has published. -/
theorem partial_file_at_final_path :
    ¬ ∀ (runs : Bool → WriterRun) (w₀ : World) (p : Writers Bool), p.Reachable runs w₀ →
      AllOrNothing runs w₀ p := by
  intro h
  have hstart : (Writers.start clashing World.empty).Reachable clashing World.empty := .refl
  have hwhole := (h _ _ _ (hstart.turn false 3)).whole true
  have hpub : ((Writers.start clashing World.empty).turn clashing false 3).shared.publisher
      (clashing true).path = none := by decide +kernel
  have hdir : ((Writers.start clashing World.empty).turn clashing false 3).shared.world.dir
      (clashing true).path = some 0 := by decide +kernel
  unfold Writers.WholeAt at hwhole
  rw [hpub, hdir] at hwhole
  cases hwhole.1

end TuxEncoding
