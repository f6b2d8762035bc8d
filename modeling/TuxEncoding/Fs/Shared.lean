import TuxEncoding.Fs.Change
import TuxEncoding.Fs.Session

/-!
# Writers that share a file system

Any number of writers, in any number of processes, make their calls to one file system in any
order.

* `Shared` is the file system with a record of who has created which file and who has published
  where, and `Shared.Step` the call of one of them. Every call may fail.
* `ViewOf` relates what one writer knows of the file system to what it is: its own files and
  temporary paths are as it knows them, and of everything else it knows nothing.
* `Sound` is what holds of the file system whatever the writers know: a file of theirs has one path
  at most, and what stands at a final path was there initially or has been published.
* `WriterRun.MayLeave` is what a writer may publish, or has published: once its operations are over,
  their results are fixed. `WriterRun.Going` says so of what is left of it, in its own view.
* `shared_step`: a call within the contract of a writer is a step in its own view, and keeps both.
-/

namespace TuxEncoding

open Bytes Interaction Program

set_option linter.unusedSectionVars false

/-! ## The shared file system -/

section

variable [Platform] [Codecs]

/-- A writer that somebody runs: in which process, and what it is for and goes through. -/
structure WriterRun where
  pid : ℕ
  flavor : Flavor
  path : Path
  options : CreateOptions
  ops : List Op
  ending : Ending

namespace WriterRun

/-- The calls of a writer. -/
def program (run : WriterRun) : Program FsCall.Reply (Except ObjectFileError Outcome) :=
  (life run.flavor run.path run.options run.ops run.ending).run

/-- The operations of a tokio writer have reported an error, which may be that of an earlier write,
and yet it goes on. -/
def WentOn (run : WriterRun) (results : List OpResult) : Prop :=
  run.flavor = .tokio ∧ ∃ e, .error (.io e) ∈ results

/-- What the writer publishes when these were the results of its operations: an image of what they
have put together, and of all of it unless the writer has gone on. -/
def Leaves (run : WriterRun) (results : List OpResult) (data : List UInt8) : Prop :=
  ∃ draft layout counted,
    Effects (fun _ => True) run.ops (Draft.new run.flavor run.options) results draft ∧
    IsPrefixed draft.compression layout draft.metadata draft.tags counted draft.content data ∧
    (run.WentOn results ∨ draft.IsWhole ∧ counted = draft.content.length)

/-- The writer may publish the bytes, or has done so, when it has this much left to do: by then the
results of its operations are fixed. Its own result is `f` of how it ends. -/
def MayLeave {α : Type} (run : WriterRun) (f : Except ObjectFileError Outcome → α)
    (p : Program FsCall.Reply α) (data : List UInt8) : Prop :=
  ∃ results, Always (fun r => ∃ result, r = f (.ok (results, result))) p ∧ run.Leaves results data

/-- The contract of a writer among files that are numbered below `n`. -/
def job (run : WriterRun) (n : ℕ) (pub : List UInt8 → Prop) : Job where
  floor := n
  final := run.path
  publishes inode := pub inode.data

variable {run : WriterRun} {v₀ v : World} {α : Type} {f : Except ObjectFileError Outcome → α}
  {results : List OpResult} {draft : Draft}

/-- An image of a draft that has no error left to report is of all that the operations have put
together, if none has been ignored. -/
lemma leaves_of_image
    (heffects : Effects (fun _ => True) run.ops (Draft.new run.flavor run.options) results draft)
    (hflushed : draft.flavor = .tokio → draft.deferred = none) {layout : SectionLayout}
    {counted : ℕ}
    (hcounted : draft.IsWhole → counted = draft.content.length) {data : List UInt8}
    (himage : IsPrefixed draft.compression layout draft.metadata draft.tags counted draft.content
      data) :
    run.Leaves results data := by
  refine ⟨draft, layout, counted, heffects, himage, ?_⟩
  by_cases hwent : run.WentOn results
  · exact .inl hwent
  · have hwhole := heffects.isWhole hflushed fun htokio e _ he => hwent ⟨htokio, e, he⟩
    exact .inr ⟨hwhole, hcounted hwhole⟩

lemma MayLeave.of_call {c : FsCall} {k : c.Reply → Program FsCall.Reply α} {data : List UInt8}
    (h : run.MayLeave f (.call c k) data) (r : c.Reply) : run.MayLeave f (k r) data := by
  obtain ⟨results, hresults, hleaves⟩ := h
  exact ⟨results, hresults.of_call r, hleaves⟩

lemma fixed_map (f : Except ObjectFileError Outcome → α)
    {p : Program FsCall.Reply (Except ObjectFileError Outcome)}
    (h : Always (fun r => ∃ result, r = .ok (results, result)) p) :
    Always (fun r => ∃ result, r = f (.ok (results, result))) (f <$> p) := by
  refine Always.map (h.mono ?_)
  rintro _ ⟨result, rfl⟩
  exact ⟨result, rfl⟩

/-- What the end of a writer comes to in its own view. -/
def EndsIn (run : WriterRun) (result : Except ObjectFileError Outcome) (v : World) : Prop :=
  ∀ results object, result = .ok (results, .ok (some object)) →
    v.dir run.path = some object.file ∧ run.Leaves results (v.data object.file)

/-- What is left of the writer, in its own view: it publishes nothing until its operations are
over. -/
def Going (run : WriterRun) (v₀ : World) (f : Except ObjectFileError Outcome → α)
    (p : Program FsCall.Reply α) (v : World) : Prop :=
  ∃ rest, p = f <$> rest ∧
    Program.SafeUntil (FsStep fun _ => True) (Job.startedIn v₀ run.path fun _ => False).Allows
      (fun p v => (∃ e, p = .done (.error e)) ∨
        Committed (fun _ => True) v₀ run.flavor run.path run.options run.ops p v) rest v

lemma Going.start (run : WriterRun) (v₀ : World) (f : Except ObjectFileError Outcome → α) :
    run.Going v₀ f (f <$> run.program) v₀ :=
  ⟨_, rfl, life_until v₀ run.flavor run.path run.options run.ops run.ending⟩

lemma Going.call {c : FsCall} {k : c.Reply → Program FsCall.Reply α}
    (h : run.Going v₀ f (.call c k) v) :
    (run.job v₀.next (run.MayLeave f (.call c k))).Allows c v ∧
      ∀ r v', FsStep (fun _ => True) c v r v' → run.Going v₀ f (k r) v' := by
  obtain ⟨rest, hrest, h⟩ := h
  cases rest with
  | done result => cases hrest
  | call c' k' =>
      cases hrest
      obtain (⟨e, he⟩ | ⟨results, draft, heffects, hresults, hsafe⟩) | ⟨hmay, hnext⟩ := h
      · cases he
      · obtain ⟨hmay, hnext⟩ := hsafe
        refine ⟨?_, fun r v' hr => ?_⟩
        · refine Job.Allows.mono ?_ ?_ ?_ hmay
          · exact Nat.le_refl _
          · rfl
          · rintro inode ⟨hflushed, ⟨layout, counted, hcounted, himage⟩, _⟩
            exact ⟨results, fixed_map f hresults,
              leaves_of_image heffects hflushed hcounted himage⟩
        · exact ⟨k' r, rfl, .of_then (.inr ⟨results, draft, heffects, hresults.of_call r,
            hnext r v' hr⟩)⟩
      · refine ⟨?_, fun r v' hr => ⟨k' r, rfl, hnext r v' hr⟩⟩
        refine Job.Allows.mono ?_ ?_ ?_ hmay
        · exact Nat.le_refl _
        · rfl
        · exact fun _ hfalse => hfalse.elim

lemma Going.done {a : α} (h : run.Going v₀ f (.done a) v) :
    ∃ result, a = f result ∧ run.EndsIn result v := by
  obtain ⟨rest, hrest, h⟩ := h
  cases rest with
  | call c k => cases hrest
  | done result =>
      cases hrest
      refine ⟨result, rfl, ?_⟩
      rintro results object rfl
      obtain ⟨e, he⟩ | ⟨results', draft, heffects, ⟨_, hresults⟩, hend⟩ := h
      · cases he
      · cases hresults
        have hpublished := hend object rfl
        obtain ⟨layout, counted, hcounted, hobject⟩ := hpublished.published
        exact ⟨hobject.entry, leaves_of_image heffects hpublished.flushed hcounted hobject.image⟩

end WriterRun

/-- A path that a temporary file of a writer to `path` may have. -/
def IsTempPath (path temp : Path) : Prop := ∃ pid counter, temp = tempPathOf path pid counter

end

/-- A file system, who has created its files and who has published at a path last. -/
structure Shared (ι : Type) where
  world : World
  owner : ℕ → Option ι
  publisher : Path → Option ι

namespace Shared

variable {ι : Type} [DecidableEq ι]

/-- A new file is its creator's. -/
def ownerAfter (g : Shared ι) (i : ι) : (c : FsCall) → c.Reply → ℕ → Option ι
  | .createNew _, .ok fd => Function.update g.owner fd (some i)
  | _, _ => g.owner

/-- A rename publishes. -/
def publisherAfter (g : Shared ι) (i : ι) : (c : FsCall) → c.Reply → Path → Option ι
  | .rename _ dst, .ok () => Function.update g.publisher dst (some i)
  | _, _ => g.publisher

/-- The call of the writer `i`, which may fail. -/
def Step (pid : ι → ℕ) (i : ι) : (c : FsCall) → Shared ι → c.Reply → Shared ι → Prop
  | .processId, g, r, g' => r = pid i ∧ g' = g
  | c, g, r, g' => FsStep (fun _ => True) c g.world r g'.world ∧ g'.owner = g.ownerAfter i c r ∧
      g'.publisher = g.publisherAfter i c r

/-- The call of the writer `i`, when it has the file system to itself. -/
def perform (pid : ι → ℕ) (i : ι) : Program.Handler FsCall.Reply (Shared ι)
  | .processId, g => (pid i, g)
  | c, g => ((TuxEncoding.perform c g.world).1, ⟨(TuxEncoding.perform c g.world).2,
      g.ownerAfter i c (TuxEncoding.perform c g.world).1,
      g.publisherAfter i c (TuxEncoding.perform c g.world).1⟩)

lemma step_perform (pid : ι → ℕ) (i : ι) (c : FsCall) (g : Shared ι) :
    Step pid i c g (perform pid i c g).1 (perform pid i c g).2 := by
  cases c with
  | processId => exact ⟨rfl, rfl⟩
  | _ => exact ⟨fsStep_perform _ _ g.world, rfl, rfl⟩

end Shared

/-! ## What each writer knows -/

section

variable [Platform] [Codecs] {ι : Type} [DecidableEq ι] (runs : ι → WriterRun) (w₀ : World)
  (pub : ι → List UInt8 → Prop)

/-- What the writer `i` knows of the file system: its own files and temporary paths. -/
structure ViewOf (g : Shared ι) (i : ι) (v : World) : Prop where
  next_le : v.next ≤ g.world.next
  pid_eq : v.pid = (runs i).pid
  owned : ∀ {path k}, v.dir path = some k → g.owner k = some i
  temp : ∀ {path k}, v.dir path = some k → path ≠ (runs i).path →
    IsTempPath (runs i).path path ∧ g.world.dir path = some k
  final : g.publisher (runs i).path = some i →
    g.world.dir (runs i).path = v.dir (runs i).path
  inodes : ∀ {k}, g.owner k = some i → v.inodes k = g.world.inodes k
  files : ∀ {fd f}, v.files fd = some f →
    g.owner fd = some i ∧ g.owner f.inode = some i ∧ g.world.files fd = some f

/-- What holds of the file system: the files that have been created have one path at most, and at a
final path is the file that was there initially, or one that has been published, of which `pub`
holds. -/
structure Sound (g : Shared ι) : Prop where
  next_le : w₀.next ≤ g.world.next
  owner_lt : ∀ {k i}, g.owner k = some i → w₀.next ≤ k ∧ k < g.world.next
  onePath : g.world.OnePath w₀.next
  initial : ∀ {k}, k < w₀.next → g.world.inodes k = w₀.inodes k
  unpublished : ∀ {i}, g.publisher (runs i).path = none →
    g.world.dir (runs i).path = w₀.dir (runs i).path
  published : ∀ {i j}, g.publisher (runs i).path = some j → (runs j).path = (runs i).path ∧
    ∃ k, g.world.dir (runs i).path = some k ∧ g.owner k = some j ∧ pub j (g.world.data k)

/-- Nothing has changed that the writer `j` knows of. -/
structure Spares (j : ι) (g g' : Shared ι) : Prop where
  next_le : g.world.next ≤ g'.world.next
  owner : ∀ {k}, g'.owner k = some j ↔ g.owner k = some j
  inodes : ∀ {k}, g.owner k = some j → g'.world.inodes k = g.world.inodes k
  files : ∀ {fd}, g.owner fd = some j → g'.world.files fd = g.world.files fd
  temp : ∀ {path k}, g.owner k = some j → IsTempPath (runs j).path path →
    g.world.dir path = some k → g'.world.dir path = some k
  final : g'.publisher (runs j).path = some j → g.publisher (runs j).path = some j ∧
    g'.world.dir (runs j).path = g.world.dir (runs j).path

variable {runs w₀ pub} {g g' : Shared ι} {i j : ι} {v : World}

/-- More may have been published. -/
lemma Sound.mono {pub' : ι → List UInt8 → Prop} (h : Sound runs w₀ pub g)
    (hpub : ∀ j data, pub j data → pub' j data) : Sound runs w₀ pub' g where
  next_le := h.next_le
  owner_lt := h.owner_lt
  onePath := h.onePath
  initial := h.initial
  unpublished := h.unpublished
  published hj := by
    obtain ⟨hpath, k, hdir, hk, hdata⟩ := h.published hj
    exact ⟨hpath, k, hdir, hk, hpub _ _ hdata⟩

lemma ViewOf.of_spares (h : ViewOf runs g j v) (hs : Spares runs j g g') : ViewOf runs g' j v where
  next_le := le_trans h.next_le hs.next_le
  pid_eq := h.pid_eq
  owned hdir := hs.owner.mpr (h.owned hdir)
  temp hdir hne :=
    ⟨(h.temp hdir hne).1, hs.temp (h.owned hdir) (h.temp hdir hne).1 (h.temp hdir hne).2⟩
  final hpub := (hs.final hpub).2.trans (h.final (hs.final hpub).1)
  inodes hk := (h.inodes (hs.owner.mp hk)).trans (hs.inodes (hs.owner.mp hk)).symm
  files hf :=
    ⟨hs.owner.mpr (h.files hf).1, hs.owner.mpr (h.files hf).2.1,
      (hs.files (h.files hf).1).trans (h.files hf).2.2⟩

/-- No writer publishes at a path where another one may have a temporary file. -/
def NoFinalIsTemp (runs : ι → WriterRun) : Prop :=
  ∀ i j, ¬ IsTempPath (runs j).path (runs i).path

/-- A call of the writer `i` that ends in `g'`, with the reply `r`. -/
structure Stepped (runs : ι → WriterRun) (w₀ : World) (pub : ι → List UInt8 → Prop) (i : ι)
    (c : FsCall) (r : c.Reply) (v : World) (g g' : Shared ι) (v' : World) : Prop where
  step : FsStep (fun _ => True) c v r v'
  view : ViewOf runs g' i v'
  spares : ∀ {j}, j ≠ i → Spares runs j g g'
  sound : Sound runs w₀ pub g'

/-! ## A call of one writer -/

/-- A call on a handle of its own. -/
lemma handle_stepped {c : FsCall} {r : c.Reply} {fd : Fd} {f : OpenFile} (hfd : c.fd = some fd)
    (hview : ViewOf runs g i v) (hsound : Sound runs w₀ pub g) (hf : v.files fd = some f)
    (hwrite : c.Writes → ∃ path, path ≠ (runs i).path ∧ v.dir path = some f.inode)
    (hnames : NoFinalIsTemp runs) {world : World}
    (hstep : FsStep (fun _ => True) c g.world r world) :
    ∃ v', Stepped runs w₀ pub i c r v g { g with world := world } v' := by
  obtain ⟨howner, hinode, hfile⟩ := hview.files hf
  have hsame : SameFile fd f g.world v := ⟨hfile, hf, hview.inodes hinode⟩
  obtain ⟨change, rfl, hstep', hwrites⟩ := hstep.same hfd hsame
  obtain ⟨hinodes, hfiles, hself⟩ := change.apply_same hsame
  refine ⟨change.apply fd f v, hstep', ?_, @fun j hj => ?_, ?_⟩
  · refine ⟨by simpa using hview.next_le, by simpa using hview.pid_eq,
      fun hpath => hview.owned (by simpa using hpath),
      fun hpath hne => by simpa using hview.temp (by simpa using hpath) hne,
      fun hpub => by simpa using hview.final hpub, @fun k hk => ?_, @fun fd' f' hf' => ?_⟩
    · rcases eq_or_ne k f.inode with rfl | hk'
      · exact hinodes
      · rw [change.apply_inodes_of_ne hk']
        exact (hview.inodes hk).trans (change.apply_inodes_of_ne hk').symm
    · rcases eq_or_ne fd' fd with rfl | hfd'
      · rw [hfiles] at hf'
        exact ⟨howner, hself f' hf' ▸ hinode, hf'⟩
      · rw [change.apply_files_of_ne hfd'] at hf'
        exact ⟨(hview.files hf').1, (hview.files hf').2.1,
          (change.apply_files_of_ne hfd').trans (hview.files hf').2.2⟩
  · have hother : ∀ {k k'}, g.owner k = some j → g.owner k' = some i → k ≠ k' := by
      rintro k _ hk hk' rfl
      exact hj (Option.some.inj (hk.symm.trans hk'))
    exact ⟨by simp, Iff.rfl, fun hk => change.apply_inodes_of_ne (hother hk hinode),
      fun hk => change.apply_files_of_ne (hother hk howner), by simp, by simp⟩
  · refine ⟨by simpa using hsound.next_le, fun hk => by simpa using hsound.owner_lt hk,
      fun hk hp hq => hsound.onePath hk (by simpa using hp) (by simpa using hq), @fun k hk => ?_,
      fun hpub => by simpa using hsound.unpublished hpub, @fun i' j hpub => ?_⟩
    · have hne : k ≠ f.inode := Nat.ne_of_lt (lt_of_lt_of_le hk (hsound.owner_lt hinode).1)
      exact (change.apply_inodes_of_ne hne).trans (hsound.initial hk)
    · obtain ⟨hpath, k, hdir, hk, hpublishes⟩ := hsound.published hpub
      refine ⟨hpath, k, (congrFun change.apply_dir _).trans hdir, hk, ?_⟩
      rcases eq_or_ne k f.inode with rfl | hne
      · -- the file has been published, so this is no write
        have hput : ∀ bs, change ≠ .put bs := by
          rintro bs rfl
          obtain ⟨path, hne, hpath⟩ := hwrite (hwrites bs rfl)
          obtain ⟨htemp, hentry⟩ := hview.temp hpath hne
          rw [hsound.onePath (hsound.owner_lt hinode).1 hentry hdir] at htemp
          exact hnames i' i htemp
        have hdata : (change.apply fd f g.world).data f.inode = g.world.data f.inode :=
          change.apply_data hput
        rwa [hdata]
      · rwa [World.data, change.apply_inodes_of_ne hne]

/-- A call that has failed, or that asks for nothing, changes nothing. -/
lemma quiet_stepped {c : FsCall} {r : c.Reply} (hview : ViewOf runs g i v)
    (hsound : Sound runs w₀ pub g) (hstep : FsStep (fun _ => True) c v r v) :
    Stepped runs w₀ pub i c r v g g v :=
  ⟨hstep, hview, fun _ => ⟨Nat.le_refl _, Iff.rfl, fun _ => rfl, fun _ => rfl, fun _ _ h => h,
    fun h => ⟨h, rfl⟩⟩, hsound⟩

/-- A new temporary file. -/
lemma createNew_stepped {path : Path} {k : ℕ} {hk : g.world.next ≤ k} (hview : ViewOf runs g i v)
    (hsound : Sound runs w₀ pub g) (hnames : NoFinalIsTemp runs)
    (htemp : IsTempPath (runs i).path path) (hdir : g.world.dir path = none) :
    ∃ v', Stepped runs w₀ pub i (.createNew path) (.ok k) v g
      ⟨g.world.create path k hk, Function.update g.owner k (some i), g.publisher⟩ v' := by
  have hfinal : ∀ j, (runs j).path ≠ path := fun j heq => hnames j i (heq ▸ htemp)
  have hfresh : ∀ {k' j}, g.owner k' = some j → k' ≠ k := fun hk' =>
    Nat.ne_of_lt (lt_of_lt_of_le (hsound.owner_lt hk').2 hk)
  have howner : ∀ {k' j}, g.owner k' = some j → Function.update g.owner k (some i) k' = some j :=
    fun hk' => (Function.update_of_ne (hfresh hk') _ _).trans hk'
  have hearlier : ∀ {k' j}, k' ≠ k → Function.update g.owner k (some i) k' = some j →
      g.owner k' = some j := fun hne hk' => (Function.update_of_ne hne _ _).symm.trans hk'
  have hvk : v.next ≤ k := le_trans hview.next_le hk
  have hvdir : v.dir path = none := by
    by_contra hsome
    obtain ⟨k', hk'⟩ := Option.ne_none_iff_exists'.mp hsome
    rw [(hview.temp hk' (Ne.symm (hfinal i))).2] at hdir
    cases hdir
  refine ⟨v.create path k hvk, ?_, ?_, @fun j hj => ?_, ?_⟩
  · exact .inl ⟨k, by simp [succeed, hvdir, Nat.max_eq_left hvk]⟩
  · refine ⟨Nat.le_refl _, hview.pid_eq, @fun p k' hp => ?_, @fun p k' hp hne => ?_, fun hpub => ?_,
      @fun k' hk' => ?_, @fun fd f hf => ?_⟩
    · rcases World.create_dir_cases hp with ⟨_, rfl⟩ | ⟨_, hp', _⟩
      · exact Function.update_self _ _ _
      · exact howner (hview.owned hp')
    · rcases World.create_dir_cases hp with ⟨rfl, rfl⟩ | ⟨hpath, hp', _⟩
      · exact ⟨htemp, World.create_dir_self (h := hk)⟩
      · exact ⟨(hview.temp hp' hne).1,
          (World.create_dir_of_ne (h := hk) hpath).trans (hview.temp hp' hne).2⟩
    · exact (World.create_dir_of_ne (h := hk) (hfinal i)).trans ((hview.final hpub).trans
        (World.create_dir_of_ne (hfinal i)).symm)
    · rcases eq_or_ne k' k with rfl | hne
      · exact World.create_inodes_self.trans (World.create_inodes_self (h := hk)).symm
      · exact (World.create_inodes_of_ne hne).trans ((hview.inodes (hearlier hne hk')).trans
          (World.create_inodes_of_ne (h := hk) hne).symm)
    · rcases eq_or_ne fd k with rfl | hne
      · obtain rfl := Option.some.inj (World.create_files_self.symm.trans hf)
        exact ⟨Function.update_self _ _ _, Function.update_self _ _ _,
          World.create_files_self (h := hk)⟩
      · rw [World.create_files_of_ne hne] at hf
        obtain ⟨hfd, hinode, hfile⟩ := hview.files hf
        exact ⟨howner hfd, howner hinode, (World.create_files_of_ne (h := hk) hne).trans hfile⟩
  · refine ⟨le_trans hk (Nat.le_succ k), @fun k' => ⟨fun hk' => ?_, howner⟩,
      fun hk' => World.create_inodes_of_ne (h := hk) (hfresh hk'),
      fun hfd => World.create_files_of_ne (h := hk) (hfresh hfd), @fun p k' _ _ hp => ?_,
      fun hpub => ⟨hpub, World.create_dir_of_ne (h := hk) (hfinal j)⟩⟩
    · rcases eq_or_ne k' k with rfl | hne
      · have hself : some i = some j := (Function.update_self k' (some i) g.owner).symm.trans hk'
        exact absurd (Option.some.inj hself).symm hj
      · exact hearlier hne hk'
    · have hpath : p ≠ path := by
        rintro rfl
        rw [hdir] at hp
        cases hp
      exact (World.create_dir_of_ne (h := hk) hpath).trans hp
  · refine ⟨le_trans hsound.next_le (le_trans hk (Nat.le_succ k)), @fun k' j hk' => ?_,
      World.OnePath.create (h := hk) hsound.onePath, @fun k' hk' => ?_, @fun j hpub => ?_,
      @fun j j' hpub => ?_⟩
    · rcases eq_or_ne k' k with rfl | hne
      · exact ⟨le_trans hsound.next_le hk, Nat.lt_succ_self k'⟩
      · obtain ⟨hle, hlt⟩ := hsound.owner_lt (hearlier hne hk')
        exact ⟨hle, lt_trans (lt_of_lt_of_le hlt hk) (Nat.lt_succ_self k)⟩
    · have hlt := hsound.next_le
      exact (World.create_inodes_of_ne (h := hk) (by omega)).trans (hsound.initial hk')
    · exact (World.create_dir_of_ne (h := hk) (hfinal j)).trans (hsound.unpublished hpub)
    · obtain ⟨hpath, k', hdir', hk', hpublishes⟩ := hsound.published hpub
      refine ⟨hpath, k', (World.create_dir_of_ne (h := hk) (hfinal j)).trans hdir', howner hk', ?_⟩
      rwa [World.data, World.create_inodes_of_ne (hfresh hk')]

/-- The temporary file is renamed over the final path. -/
lemma rename_stepped {src : Path} {k : ℕ} (hview : ViewOf runs g i v) (hsound : Sound runs w₀ pub g)
    (hnames : NoFinalIsTemp runs) (hsrc : v.dir src = some k) (hne : src ≠ (runs i).path)
    (hpublishes : pub i (v.data k)) :
    ∃ v', Stepped runs w₀ pub i (.rename src (runs i).path) (.ok ()) v g
      ⟨g.world.move src (runs i).path, g.owner,
        Function.update g.publisher (runs i).path (some i)⟩ v' := by
  obtain ⟨htemp, hentry⟩ := hview.temp hsrc hne
  have howner := hview.owned hsrc
  have hfinal : ∀ j, (runs j).path ≠ src := fun j heq => hnames j i (heq ▸ htemp)
  refine ⟨v.move src (runs i).path, .inl ⟨0, by simp [succeed, hsrc]⟩, ?_, @fun j hj => ?_, ?_⟩
  · refine ⟨hview.next_le, hview.pid_eq, @fun p k' hp => ?_, @fun p k' hp hpath => ?_, fun _ => ?_,
      hview.inodes, hview.files⟩
    · rcases World.move_dir_cases hne hp with ⟨_, hp'⟩ | ⟨_, _, hp'⟩ <;> exact hview.owned hp'
    · rcases World.move_dir_cases hne hp with ⟨hfinal, _⟩ | ⟨_, hps, hp'⟩
      · exact absurd hfinal hpath
      · exact ⟨(hview.temp hp' hpath).1,
          (World.move_dir_of_ne hps hpath).trans (hview.temp hp' hpath).2⟩
    · exact (World.move_dir_dst _ _).trans
        ((hentry.trans hsrc.symm).trans (World.move_dir_dst _ _).symm)
  · have hother : ∀ {k'}, g.owner k' = some j → k' ≠ k := by
      rintro k' hk' rfl
      exact hj (Option.some.inj (hk'.symm.trans howner))
    refine ⟨Nat.le_refl _, Iff.rfl, fun _ => rfl, fun _ => rfl, @fun p k' hk' hp hdir => ?_,
      fun hpub => ?_⟩
    · have hps : p ≠ src := by
        rintro rfl
        exact hother hk' (Option.some.inj (hdir.symm.trans hentry))
      have hpath : p ≠ (runs i).path := by
        rintro rfl
        exact hnames i j hp
      exact (World.move_dir_of_ne hps hpath).trans hdir
    · have hpath : (runs j).path ≠ (runs i).path := by
        intro heq
        rw [heq] at hpub
        have hself : some i = some j :=
          (Function.update_self (runs i).path (some i) g.publisher).symm.trans hpub
        exact hj (Option.some.inj hself).symm
      exact ⟨(Function.update_of_ne hpath _ _).symm.trans hpub,
        World.move_dir_of_ne (hfinal j) hpath⟩
  · refine ⟨hsound.next_le, hsound.owner_lt, World.OnePath.move hne hsound.onePath, hsound.initial,
      @fun j hpub => ?_, @fun j j' hpub => ?_⟩
    · dsimp only at hpub
      rcases eq_or_ne (runs j).path (runs i).path with heq | hpath
      · rw [heq, Function.update_self] at hpub
        cases hpub
      · rw [Function.update_of_ne hpath] at hpub
        exact (World.move_dir_of_ne (hfinal j) hpath).trans (hsound.unpublished hpub)
    · dsimp only at hpub
      rcases eq_or_ne (runs j).path (runs i).path with heq | hpath
      · rw [heq, Function.update_self] at hpub
        obtain rfl := Option.some.inj hpub
        rw [World.data, hview.inodes howner] at hpublishes
        refine ⟨heq.symm, k, ?_, howner, hpublishes⟩
        rw [heq]
        exact (World.move_dir_dst _ _).trans hentry
      · rw [Function.update_of_ne hpath] at hpub
        obtain ⟨hpaths, k', hdir, hk', hpublished⟩ := hsound.published hpub
        exact ⟨hpaths, k', (World.move_dir_of_ne (hfinal j) hpath).trans hdir, hk', hpublished⟩

/-- A temporary file is removed. -/
lemma removeFile_stepped {path : Path} {k : ℕ} (hview : ViewOf runs g i v)
    (hsound : Sound runs w₀ pub g)
    (hnames : NoFinalIsTemp runs) (hdir : v.dir path = some k) (hne : path ≠ (runs i).path) :
    ∃ v', Stepped runs w₀ pub i (.removeFile path) (.ok ()) v g
      ⟨g.world.unlink path, g.owner, g.publisher⟩ v' := by
  obtain ⟨htemp, hentry⟩ := hview.temp hdir hne
  have howner := hview.owned hdir
  have hfinal : ∀ j, (runs j).path ≠ path := fun j heq => hnames j i (heq ▸ htemp)
  refine ⟨v.unlink path, .inl ⟨0, by simp [succeed, hdir]⟩, ?_, @fun j hj => ?_, ?_⟩
  · refine ⟨hview.next_le, hview.pid_eq, fun hp => hview.owned (World.unlink_dir_cases hp).2,
      @fun p k' hp hpath => ?_, fun hpub => ?_, hview.inodes, hview.files⟩
    · obtain ⟨hps, hp'⟩ := World.unlink_dir_cases hp
      exact ⟨(hview.temp hp' hpath).1, (World.unlink_dir_of_ne hps).trans (hview.temp hp' hpath).2⟩
    · exact (World.unlink_dir_of_ne (hfinal i)).trans
        ((hview.final hpub).trans (World.unlink_dir_of_ne (hfinal i)).symm)
  · refine ⟨Nat.le_refl _, Iff.rfl, fun _ => rfl, fun _ => rfl, @fun p k' hk' _ hp => ?_,
      fun hpub => ⟨hpub, World.unlink_dir_of_ne (hfinal j)⟩⟩
    have hps : p ≠ path := by
      rintro rfl
      obtain rfl := Option.some.inj (hp.symm.trans hentry)
      exact hj (Option.some.inj (hk'.symm.trans howner))
    exact (World.unlink_dir_of_ne hps).trans hp
  · refine ⟨hsound.next_le, hsound.owner_lt, World.OnePath.unlink hsound.onePath, hsound.initial,
      @fun j hpub => (World.unlink_dir_of_ne (hfinal j)).trans (hsound.unpublished hpub),
      @fun j j' hpub => ?_⟩
    obtain ⟨hpaths, k', hp, hk', hpublished⟩ := hsound.published hpub
    exact ⟨hpaths, k', (World.unlink_dir_of_ne (hfinal j)).trans hp, hk', hpublished⟩

/-- A call that fails changes nothing. -/
lemma failed_stepped {c : FsCall} {r : c.Reply} (hview : ViewOf runs g i v)
    (hsound : Sound runs w₀ pub g) (hfault : Faults c v r v) :
    ∃ v', Stepped runs w₀ pub i c r v g g v' :=
  ⟨v, quiet_stepped hview hsound (.inr ⟨trivial, hfault⟩)⟩

/-- A call within the contract of a writer is a step in its own view of the file system, and spares
the others. -/
lemma shared_step {c : FsCall} {r : c.Reply} (hview : ViewOf runs g i v)
    (hsound : Sound runs w₀ pub g) (hnames : NoFinalIsTemp runs)
    (hmay : ((runs i).job w₀.next (pub i)).Allows c v)
    (hstep : Shared.Step (fun i => (runs i).pid) i c g r g') :
    ∃ v', Stepped runs w₀ pub i c r v g g' v' := by
  obtain ⟨world', owner', publisher'⟩ := g'
  cases c with
  | processId =>
      obtain ⟨rfl, hg⟩ := hstep
      obtain rfl := hg
      exact ⟨v, quiet_stepped hview hsound (.inl ⟨0, Prod.ext hview.pid_eq.symm rfl⟩)⟩
  | nextTempCounter =>
      obtain ⟨hworld, rfl, rfl⟩ := hstep
      obtain rfl := hworld.nextTempCounter_inv
      refine ⟨v.setCounter (r + 1), .inl ⟨r, rfl⟩, ?_, fun _ => ?_, ?_⟩
      · exact ⟨hview.next_le, hview.pid_eq, hview.owned, hview.temp, hview.final, hview.inodes,
          hview.files⟩
      · exact ⟨Nat.le_refl _, Iff.rfl, fun _ => rfl, fun _ => rfl, fun _ _ h => h,
          fun h => ⟨h, rfl⟩⟩
      · exact ⟨hsound.next_le, hsound.owner_lt, hsound.onePath, hsound.initial, hsound.unpublished,
          hsound.published⟩
  | openFile path writable => exact hmay.elim
  | createNew path =>
      obtain ⟨hworld, rfl, rfl⟩ := hstep
      obtain ⟨k, hk, hdir, rfl, rfl⟩ | ⟨_, ⟨e, rfl⟩, rfl⟩ := hworld.createNew_inv
      · exact createNew_stepped hview hsound hnames ⟨v.pid, hmay⟩ hdir
      · exact failed_stepped hview hsound ⟨⟨e, rfl⟩, rfl⟩
  | rename src dst =>
      obtain ⟨hworld, rfl, rfl⟩ := hstep
      obtain ⟨rfl, hne, k, hsrc, _, hpublishes⟩ := hmay
      obtain ⟨rfl, rfl⟩ | ⟨_, ⟨e, rfl⟩, rfl⟩ := hworld.rename_inv (hview.temp hsrc hne).2
      · exact rename_stepped hview hsound hnames hsrc hne hpublishes
      · exact failed_stepped hview hsound ⟨⟨e, rfl⟩, rfl⟩
  | removeFile path =>
      obtain ⟨hworld, rfl, rfl⟩ := hstep
      obtain ⟨hne, k, hdir, _⟩ := hmay
      obtain ⟨rfl, rfl⟩ | ⟨_, ⟨e, rfl⟩, rfl⟩ := hworld.removeFile_inv (hview.temp hdir hne).2
      · exact removeFile_stepped hview hsound hnames hdir hne
      · exact failed_stepped hview hsound ⟨⟨e, rfl⟩, rfl⟩
  | openDir parent | syncDir parent =>
      obtain ⟨hworld, rfl, rfl⟩ := hstep
      obtain ⟨_, hk⟩ | ⟨_, he, rfl⟩ := hworld
      · cases hk
        exact ⟨v, quiet_stepped hview hsound (.inl ⟨0, rfl⟩)⟩
      · exact failed_stepped hview hsound ⟨he, rfl⟩
  | write fd bs | writeAll fd bs =>
      obtain ⟨hworld, rfl, rfl⟩ := hstep
      obtain ⟨f, path, hf, hne, hdir, _⟩ := hmay
      exact handle_stepped rfl hview hsound hf (fun _ => ⟨path, hne, hdir⟩) hnames hworld
  | tryClone fd =>
      obtain ⟨hworld, rfl, rfl⟩ := hstep
      obtain ⟨f, hf, _⟩ := hmay
      exact handle_stepped rfl hview hsound hf False.elim hnames hworld
  | seek fd _ | read fd _ | readExact fd _ | flush fd | syncAll fd =>
      obtain ⟨hworld, rfl, rfl⟩ := hstep
      obtain ⟨f, hf⟩ := hmay
      exact handle_stepped rfl hview hsound hf False.elim hnames hworld

end

end TuxEncoding
