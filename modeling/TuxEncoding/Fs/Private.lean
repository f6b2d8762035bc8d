import TuxEncoding.Fs.Shared

/-!
# Users that replace one file

Any number of users, in any number of processes, open one path and publish new files at it, through
temporary files of their own.

* `OwnStep` is a call as its user sees it: opening the path finds a file with `good` bytes, whatever
  the others have published; everything else is an `AloneStep`, in a file system of its own, where a
  temporary path may be `Taken` by somebody else.
* `Sees` relates what a user knows to the file system, `Apart` what two users know, and `Standing`
  says what holds whatever they know: at the path is a file with good bytes.
* `Rivals.step`: a call within the contract is a step in the user's own view, and keeps all of
  these. What a user has gained by a call is nobody else's (`Gains`).
-/

namespace TuxEncoding

open Bytes Interaction Program

/-! ## Calls -/

/-- A call from the process `pid`. -/
def ProcessStep (mayFail : FsCall → Prop) (pid : ℕ) : (c : FsCall) → World → c.Reply → World → Prop
  | .processId, w, r, w' => r = pid ∧ w' = w
  | c, w, r, w' => FsStep mayFail c w r w'

/-- The call of a process that has the file system to itself. -/
def ProcessStep.perform (pid : ℕ) : Program.Handler FsCall.Reply World
  | .processId, w => (pid, w)
  | c, w => TuxEncoding.perform c w

lemma processStep_perform (mayFail : FsCall → Prop) (pid : ℕ) (c : FsCall) (w : World) :
    ProcessStep mayFail pid c w (ProcessStep.perform pid c w).1
      (ProcessStep.perform pid c w).2 := by
  cases c with
  | processId => exact ⟨rfl, rfl⟩
  | _ => exact fsStep_perform mayFail _ w

/-- A call in a file system that shows its user's files only: where a path is `taken`, there may be
a file of somebody else. -/
def AloneStep (mayFail : FsCall → Prop) (taken : Path → Prop) :
    (c : FsCall) → World → c.Reply → World → Prop
  | .createNew path, v, r, v' => FsStep mayFail (.createNew path) v r v' ∨
      taken path ∧ r = .error alreadyExists ∧ v' = v
  | c, v, r, v' => FsStep mayFail c v r v'

/-- A call fails, or the path of a new file is taken. -/
def OrTaken (mayFail : FsCall → Prop) (taken : Path → Prop) (c : FsCall) : Prop :=
  mayFail c ∨ ∃ path, c = .createNew path ∧ taken path

lemma tidy_orTaken_iff {mayFail : FsCall → Prop} {taken : Path → Prop} :
    Tidy (OrTaken mayFail taken) ↔ Tidy mayFail := by
  simp [Tidy, OrTaken]

lemma AloneStep.fsStep {mayFail : FsCall → Prop} {taken : Path → Prop} {c : FsCall} {v v' : World}
    {r : c.Reply} (h : AloneStep mayFail taken c v r v') :
    FsStep (OrTaken mayFail taken) c v r v' := by
  have hfails : FsStep mayFail c v r v' → FsStep (OrTaken mayFail taken) c v r v' := fun h =>
    h.imp_right (And.imp_left Or.inl)
  cases c with
  | createNew path =>
      obtain h | ⟨htaken, rfl, rfl⟩ := h
      · exact hfails h
      · exact .inr ⟨.inr ⟨path, rfl, htaken⟩, ⟨_, rfl⟩, rfl⟩
  | _ => exact hfails h

/-- A call as the user sees it that makes it. -/
def OwnStep (mayFail : FsCall → Prop) (taken : Path → Prop) (good : List UInt8 → Prop) :
    (c : FsCall) → World → c.Reply → World → Prop
  | .openFile path writable, v, r, v' =>
      mayFail (.openFile path writable) ∧ (∃ e, r = .error e) ∧ v' = v ∨
        ∃ fd k, r = .ok fd ∧ v'.files fd = some ⟨k, 0, writable⟩ ∧ good (v'.data k) ∧
          v.next ≤ v'.next ∧ v'.dir = v.dir
  | c, v, r, v' => AloneStep mayFail taken c v r v'

/-- What users do who publish files with good bytes at the path, once they are on stable storage. -/
@[simps] def Job.publishing (w₀ : World) (path : Path) (good : List UInt8 → Prop) : Job where
  floor := w₀.next
  final := path
  publishes inode := good inode.data ∧ inode.synced = true

/-- The calls of such a user: those of a writer, and it may open the path. -/
def OwnMay (w₀ : World) (path : Path) (good : List UInt8 → Prop) : FsCall → World → Prop
  | .openFile p _, _ => p = path
  | c, v => (Job.publishing w₀ path good).Allows c v

/-! ## What a user knows -/

section

variable (path : Path) (w₀ : World)

/-- What a user in the process `pid` knows of the file system: its temporary files, and the bytes
behind its handles. -/
structure Sees (pid : ℕ) (w v : World) : Prop where
  floor_le : w₀.next ≤ v.next
  next_le : v.next ≤ w.next
  pid_eq : v.pid = pid
  temp : ∀ {p k}, p ≠ path → v.dir p = some k →
    IsTempPath path p ∧ w₀.next ≤ k ∧ w.dir p = some k ∧ v.inodes k = w.inodes k
  files : ∀ {fd f}, v.files fd = some f →
    w.files fd = some f ∧ v.data f.inode = w.data f.inode

/-- The temporary files and the handles of one user are not another's. -/
structure Apart (v v' : World) : Prop where
  paths : ∀ {p k}, p ≠ path → v.dir p = some k → v'.dir p = none
  handles : ∀ {fd f}, v.files fd = some f → v'.files fd = none
  temps : ∀ {p k fd f}, p ≠ path → v.dir p = some k → v'.files fd = some f → f.inode ≠ k

/-- What holds whatever the users know: the files that were there hold what they held, nothing has
changed in the directory but the path and temporary paths next to it, and at the path is a file with
good bytes. -/
structure Standing (good : List UInt8 → Prop) (w : World) : Prop where
  next_le : w₀.next ≤ w.next
  data : ∀ {k}, k < w₀.next → w.data k = w₀.data k
  others : ∀ {p}, p ≠ path → (IsTempPath path p → w₀.dir p ≠ none) → w.dir p = w₀.dir p
  onePath : w.OnePath w₀.next
  entry : ∃ k, w.dir path = some k ∧ good (w.data k)

end

variable {path : Path} {w₀ w w' v v' : World} {good : List UInt8 → Prop} {mayFail : FsCall → Prop}
  {pid : ℕ}

/-- Nothing has changed that a user knows of. -/
structure Unseen (path : Path) (v w w' : World) : Prop where
  next_le : w.next ≤ w'.next
  temp : ∀ {p k}, p ≠ path → v.dir p = some k →
    w'.dir p = w.dir p ∧ w'.inodes k = w.inodes k
  files : ∀ {fd f}, v.files fd = some f →
    w'.files fd = w.files fd ∧ w'.data f.inode = w.data f.inode

lemma Unseen.refl (path : Path) (v w : World) : Unseen path v w w :=
  ⟨Nat.le_refl _, fun _ _ => ⟨rfl, rfl⟩, fun _ => ⟨rfl, rfl⟩⟩

lemma Sees.of_unseen (h : Sees path w₀ pid w v) (hsame : Unseen path v w w') :
    Sees path w₀ pid w' v where
  floor_le := h.floor_le
  next_le := Nat.le_trans h.next_le hsame.next_le
  pid_eq := h.pid_eq
  temp hp hdir := by
    obtain ⟨htemp, hle, hentry, hinode⟩ := h.temp hp hdir
    obtain ⟨hdir', hinode'⟩ := hsame.temp hp hdir
    exact ⟨htemp, hle, hdir'.trans hentry, hinode.trans hinode'.symm⟩
  files hf := by
    obtain ⟨hfile, hdata⟩ := h.files hf
    obtain ⟨hfile', hdata'⟩ := hsame.files hf
    exact ⟨hfile'.trans hfile, hdata.trans hdata'.symm⟩

/-- The file at the path is no temporary one. -/
lemma Sees.ne_entry (h : Sees path w₀ pid w v) (hone : w.OnePath w₀.next) {p : Path} {k j : ℕ}
    (hp : p ≠ path) (hdir : v.dir p = some k) (hentry : w.dir path = some j) : j ≠ k := by
  rintro rfl
  obtain ⟨_, hle, hpath, _⟩ := h.temp hp hdir
  exact hp (hone hle hpath hentry)

/-- What a user has after a call and had not before is nothing that another user knows of. -/
structure Gains (path : Path) (v v' other : World) : Prop where
  dir : ∀ {p k}, p ≠ path → v'.dir p = some k → v.dir p = some k ∨
    other.dir p = none ∧ ∀ {fd f}, other.files fd = some f → f.inode ≠ k
  files : ∀ {fd f}, v'.files fd = some f →
    (∃ f₀, v.files fd = some f₀ ∧ f₀.inode = f.inode) ∨
      other.files fd = none ∧ ∀ {p k}, p ≠ path → other.dir p = some k → f.inode ≠ k

lemma Apart.gain {other : World} (h : Apart path v other) (hgains : Gains path v v' other) :
    Apart path v' other where
  paths hp hdir := by
    obtain hold | ⟨hnone, _⟩ := hgains.dir hp hdir
    · exact h.paths hp hold
    · exact hnone
  handles hf := by
    obtain ⟨f₀, hold, _⟩ | ⟨hnone, _⟩ := hgains.files hf
    · exact h.handles hold
    · exact hnone
  temps hp hdir hf := by
    obtain hold | ⟨_, hne⟩ := hgains.dir hp hdir
    · exact h.temps hp hold hf
    · exact hne hf

lemma Apart.gained {other : World} (h : Apart path other v) (hgains : Gains path v v' other) :
    Apart path other v' where
  paths := by
    intro p k hp hdir
    by_contra hsome
    obtain ⟨j, hj⟩ := Option.ne_none_iff_exists'.mp hsome
    obtain hold | ⟨hnone, _⟩ := hgains.dir hp hj
    · exact absurd (hold.symm.trans (h.paths hp hdir)) (Option.some_ne_none j)
    · exact absurd (hdir.symm.trans hnone) (Option.some_ne_none k)
  handles := by
    intro fd f hf
    by_contra hsome
    obtain ⟨f', hf'⟩ := Option.ne_none_iff_exists'.mp hsome
    obtain ⟨f₀, hold, _⟩ | ⟨hnone, _⟩ := hgains.files hf'
    · exact absurd (hold.symm.trans (h.handles hf)) (Option.some_ne_none f₀)
    · exact absurd (hf.symm.trans hnone) (Option.some_ne_none f)
  temps := by
    intro p k fd f hp hdir hf
    obtain ⟨f₀, hold, hinode⟩ | ⟨_, hne⟩ := hgains.files hf
    · exact hinode ▸ h.temps hp hdir hold
    · exact hne hp hdir

/-- A call on a handle that changes the file in both file systems. -/
lemma Sees.apply (h : Sees path w₀ pid w v) {fd : Fd} {f : OpenFile} (change : Change)
    (hf : v.files fd = some f) :
    Sees path w₀ pid (change.apply fd f w) (change.apply fd f v) := by
  obtain ⟨hfile, hdata⟩ := h.files hf
  have hsame : SameBytes fd f w v := ⟨hfile, hf, hdata⟩
  refine ⟨?_, ?_, ?_, @fun p k hp hdir => ?_, @fun fd' f' hf' => ?_⟩
  · rw [change.apply_next]
    exact h.floor_le
  · rw [change.apply_next, change.apply_next]
    exact h.next_le
  · rw [change.apply_pid]
    exact h.pid_eq
  · rw [change.apply_dir] at hdir ⊢
    obtain ⟨htemp, hle, hentry, hinode⟩ := h.temp hp hdir
    exact ⟨htemp, hle, hentry, change.apply_inodes_same hfile hf hinode⟩
  · obtain ⟨f₀, hf₀, hinode⟩ := change.apply_files_cases hf hf'
    obtain ⟨hfile₀, hdata₀⟩ := h.files hf₀
    refine ⟨?_, change.apply_data_same hsame (hinode ▸ hdata₀)⟩
    by_cases hne : fd' = fd
    · subst hne
      exact (change.apply_same_bytes hsame).2.symm.trans hf'
    · rw [change.apply_files_of_ne hne] at hf' ⊢
      exact (h.files hf').1

/-- Nothing has changed in the directory, nor in the files that were there or are at the path. -/
lemma Standing.of_kept (h : Standing path w₀ good w) (hdir : w'.dir = w.dir)
    (hnext : w.next ≤ w'.next)
    (hdata : ∀ {k}, k < w₀.next ∨ w.dir path = some k → w'.data k = w.data k) :
    Standing path w₀ good w' := by
  obtain ⟨k, hentry, hgood⟩ := h.entry
  refine ⟨Nat.le_trans h.next_le hnext, fun hk => (hdata (.inl hk)).trans (h.data hk),
    fun hp hother => (congrFun hdir _).trans (h.others hp hother), fun hk => ?_, k, ?_, ?_⟩
  · rw [hdir]
    exact h.onePath hk
  · rw [hdir]
    exact hentry
  · rw [hdata (.inr hentry)]
    exact hgood

lemma ownStep_of_fsStep {taken : Path → Prop} {c : FsCall} {r : c.Reply}
    (hopen : ∀ p writable, c ≠ .openFile p writable) (hstep : FsStep mayFail c v r v') :
    OwnStep mayFail taken good c v r v' := by
  cases c with
  | openFile p writable => exact absurd rfl (hopen p writable)
  | createNew p => exact .inl hstep
  | _ => exact hstep

/-! ## All users -/

section

variable {κ : Type} [DecidableEq κ] {pids : κ → ℕ} {views : κ → World} {k : κ}

variable (path w₀ pids)

/-- The path is one that the user `k` may give to a temporary file, but there may be a file: one
that was there initially, or one of another user who may use this path, too. -/
def Taken (k : κ) (p : Path) : Prop :=
  (∃ counter, p = tempPathOf path (pids k) counter) ∧
    (w₀.dir p ≠ none ∨ ∃ k' ≠ k, ∃ counter, p = tempPathOf path (pids k') counter)

/-- Every file that has been there from the start, or is known to a user who may use its path. -/
def Entered (w : World) (views : κ → World) : Prop :=
  ∀ p j, p ≠ path → w.dir p = some j → w₀.dir p ≠ none ∨
    ∃ k, (∃ counter, p = tempPathOf path (pids k) counter) ∧ (views k).dir p = some j

variable {path w₀ pids}

/-- One of the views has changed: the user knows the new entries, and the old ones that are left. -/
lemma Entered.update (h : Entered path w₀ pids w views)
    (hnew : ∀ {p j}, p ≠ path → w'.dir p = some j → w.dir p = some j ∨
      (∃ counter, p = tempPathOf path (pids k) counter) ∧ v'.dir p = some j)
    (hold : ∀ {p j}, p ≠ path → w'.dir p = some j → (views k).dir p = some j → v'.dir p = some j) :
    Entered path w₀ pids w' (Function.update views k v') := by
  intro p j hp hdir
  obtain hbefore | ⟨hname, hentry⟩ := hnew hp hdir
  · refine (h p j hp hbefore).imp_right ?_
    rintro ⟨k', hname, hentry⟩
    refine ⟨k', hname, ?_⟩
    rcases eq_or_ne k' k with rfl | hk
    · rw [Function.update_self]
      exact hold hp hdir hentry
    · rw [Function.update_of_ne hk]
      exact hentry
  · refine .inr ⟨k, hname, ?_⟩
    rw [Function.update_self]
    exact hentry

/-- Neither directory has changed but at the path. -/
lemma Entered.same (h : Entered path w₀ pids w views)
    (hworld : ∀ {p}, p ≠ path → w'.dir p = w.dir p)
    (hview : ∀ {p}, p ≠ path → v'.dir p = (views k).dir p) :
    Entered path w₀ pids w' (Function.update views k v') :=
  h.update (fun hp hdir => .inl ((hworld hp).symm.trans hdir))
    fun hp _ hdir => (hview hp).trans hdir

/-- Each user has its own view of the file system. -/
structure Rivals (path : Path) (w₀ : World) (good : List UInt8 → Prop) (pids : κ → ℕ) (w : World)
    (views : κ → World) : Prop where
  sees : ∀ k, Sees path w₀ (pids k) w (views k)
  apart : ∀ {k k'}, k ≠ k' → Apart path (views k) (views k')
  standing : Standing path w₀ good w
  entered : Entered path w₀ pids w views

/-- One of the views has changed. -/
lemma Rivals.update (h : Rivals path w₀ good pids w views) (hsees : Sees path w₀ (pids k) w' v')
    (hothers : ∀ k', k' ≠ k → Unseen path (views k') w w' ∧ Gains path (views k) v' (views k'))
    (hstanding : Standing path w₀ good w')
    (hentered : Entered path w₀ pids w' (Function.update views k v')) :
    Rivals path w₀ good pids w' (Function.update views k v') := by
  refine ⟨fun k' => ?_, @fun k₁ k₂ hne => ?_, hstanding, hentered⟩
  · by_cases hk : k' = k
    · subst hk
      rw [Function.update_self]
      exact hsees
    · rw [Function.update_of_ne hk]
      exact (h.sees k').of_unseen (hothers k' hk).1
  · by_cases hk₁ : k₁ = k
    · subst hk₁
      rw [Function.update_self, Function.update_of_ne hne.symm]
      exact (h.apart hne).gain (hothers k₂ hne.symm).2
    · rw [Function.update_of_ne hk₁]
      by_cases hk₂ : k₂ = k
      · subst hk₂
        rw [Function.update_self]
        exact (h.apart hk₁).gained (hothers k₁ hk₁).2
      · rw [Function.update_of_ne hk₂]
        exact h.apart hne

/-- Nobody's view has changed. -/
lemma Rivals.same (h : Rivals path w₀ good pids w views) :
    Rivals path w₀ good pids w (Function.update views k (views k)) := by
  rw [Function.update_eq_self]
  exact h

/-- A call on a handle of a user. -/
lemma Rivals.handle {c : FsCall} {r : c.Reply} {fd : Fd} {f : OpenFile}
    (h : Rivals path w₀ good pids w views) (hfd : c.fd = some fd)
    (hf : (views k).files fd = some f)
    (hwrite : c.Writes → ∃ p, p ≠ path ∧ (views k).dir p = some f.inode)
    (hstep : FsStep mayFail c w r w') :
    ∃ v', OwnStep mayFail (Taken path w₀ pids k) good c (views k) r v' ∧
      Rivals path w₀ good pids w' (Function.update views k v') := by
  obtain ⟨hfile, hdata⟩ := (h.sees k).files hf
  have hsame : SameBytes fd f w (views k) := ⟨hfile, hf, hdata⟩
  obtain ⟨change, rfl, hstep', hput⟩ := hstep.same_bytes hfd hsame
  -- bytes change behind the temporary paths of this user only
  have hkept : ∀ {j}, (∀ p, p ≠ path → (views k).dir p ≠ some j) →
      (change.apply fd f w).data j = w.data j := by
    refine fun hj => change.apply_data_kept ?_
    rintro bs hbs rfl
    obtain ⟨p, hp, hdir⟩ := hwrite (hput bs hbs)
    exact hj p hp hdir
  refine ⟨change.apply fd f (views k), ownStep_of_fsStep ?_ hstep',
    h.update ((h.sees k).apply change hf) (fun k' hk' => ?_) ?_ (h.entered.same ?_ ?_)⟩
  · rintro p writable rfl
    cases hfd
  · refine ⟨⟨?_, @fun p j hp hdir => ⟨?_, ?_⟩, @fun fd' f' hf' => ⟨?_, ?_⟩⟩,
      fun hp hdir => ?_, fun hf' => .inl (change.apply_files_cases hf hf')⟩
    · rw [change.apply_next]
    · rw [change.apply_dir]
    · exact change.apply_inodes_of_ne ((h.apart hk').temps hp hdir hf).symm
    · refine change.apply_files_of_ne ?_
      rintro rfl
      rw [(h.apart hk').handles hf'] at hf
      cases hf
    · exact hkept fun p hp hdir => (h.apart hk'.symm).temps hp hdir hf' rfl
    · rw [change.apply_dir] at hdir
      exact .inl hdir
  · refine h.standing.of_kept ?_ ?_ fun {j} hj => hkept fun p hp hdir => ?_
    · rw [change.apply_dir]
    · rw [change.apply_next]
    · rcases hj with hlt | hentry
      · obtain ⟨_, hle, _⟩ := (h.sees k).temp hp hdir
        exact absurd hlt (Nat.not_lt.mpr hle)
      · exact (h.sees k).ne_entry h.standing.onePath hp hdir hentry rfl
  · intro p _
    rw [change.apply_dir]
  · intro p _
    rw [change.apply_dir]

/-- The file system with one more handle, on this file. -/
def World.withFile (v : World) (fd : Fd) (f : OpenFile) (inode : Inode) : World where
  dir := v.dir
  inodes := Function.update v.inodes f.inode inode
  files := Function.update v.files fd (some f)
  next := max v.next (max fd f.inode + 1)
  counter := v.counter
  pid := v.pid
  dir_lt hdir := Nat.lt_of_lt_of_le (v.dir_lt hdir) (Nat.le_max_left _ _)
  files_lt {fd' f'} hf := by
    rcases eq_or_ne fd' fd with rfl | hne
    · obtain rfl := Option.some.inj ((Function.update_self fd' _ _).symm.trans hf)
      omega
    · have := v.files_lt ((Function.update_of_ne hne _ _).symm.trans hf)
      omega

/-- A user opens the path. -/
lemma Rivals.opens {writable : Bool} {n j : ℕ} {hn : w.next ≤ n}
    (h : Rivals path w₀ good pids w views) (hentry : w.dir path = some j) :
    ∃ v',
      OwnStep mayFail (Taken path w₀ pids k) good (.openFile path writable) (views k) (.ok n) v' ∧
      Rivals path w₀ good pids (w.openAt path writable n hn) (Function.update views k v') := by
  have hlt : j < w.next := w.dir_lt hentry
  have hfresh : ∀ k', (views k').files n = none := by
    intro k'
    by_contra hsome
    obtain ⟨f, hf⟩ := Option.ne_none_iff_exists'.mp hsome
    have := (w.files_lt ((h.sees k').files hf).1).1
    omega
  have hnew : (w.openAt path writable n hn).files n = some ⟨j, 0, writable⟩ := by
    show Function.update w.files n ((w.dir path).map _) n = _
    rw [Function.update_self, hentry]
    rfl
  have hold : ∀ {fd}, fd ≠ n → (w.openAt path writable n hn).files fd = w.files fd :=
    fun hne => Function.update_of_ne hne _ _
  let v' := (views k).withFile n ⟨j, 0, writable⟩ (w.inodes j)
  have hself : v'.files n = some ⟨j, 0, writable⟩ := Function.update_self _ _ _
  have hother : ∀ {fd}, fd ≠ n → v'.files fd = (views k).files fd :=
    fun hne => Function.update_of_ne hne _ _
  have hinode : v'.inodes j = w.inodes j := Function.update_self _ _ _
  obtain ⟨j', hentry', hgood⟩ := h.standing.entry
  obtain rfl := Option.some.inj (hentry.symm.trans hentry')
  refine ⟨v', .inr ⟨n, j, rfl, hself, ?_, Nat.le_max_left _ _, rfl⟩, h.update ?_ ?_ ?_
    (h.entered.same (fun _ => rfl) fun _ => rfl)⟩
  · rw [World.data, hinode]
    exact hgood
  · refine ⟨Nat.le_trans (h.sees k).floor_le (Nat.le_max_left _ _), ?_, (h.sees k).pid_eq,
      @fun p i hp hdir => ?_, @fun fd f hf => ?_⟩
    · have hle := (h.sees k).next_le
      show max (views k).next (max n j + 1) ≤ n + 1
      omega
    · obtain ⟨htemp, hle, hpath, hi⟩ := (h.sees k).temp hp hdir
      have hne : j ≠ i := (h.sees k).ne_entry h.standing.onePath hp hdir hentry
      exact ⟨htemp, hle, hpath, (Function.update_of_ne hne.symm _ _).trans hi⟩
    · by_cases hfd : fd = n
      · subst hfd
        obtain rfl := Option.some.inj (hself.symm.trans hf)
        exact ⟨hnew, congrArg Inode.data hinode⟩
      · rw [hother hfd] at hf
        obtain ⟨hfile, hdata⟩ := (h.sees k).files hf
        refine ⟨(hold hfd).trans hfile, ?_⟩
        by_cases hj : f.inode = j
        · rw [hj]
          exact congrArg Inode.data hinode
        · exact (congrArg Inode.data (Function.update_of_ne hj _ _)).trans hdata
  · intro k' hk'
    refine ⟨⟨?_, fun _ _ => ⟨rfl, rfl⟩, @fun fd f hf => ⟨hold ?_, rfl⟩⟩,
      fun _ hdir => .inl hdir, @fun fd f hf => ?_⟩
    · exact Nat.le_succ_of_le hn
    · rintro rfl
      rw [hfresh] at hf
      cases hf
    · by_cases hfd : fd = n
      · subst hfd
        obtain rfl := Option.some.inj (hself.symm.trans hf)
        exact .inr ⟨hfresh k', fun hp hdir =>
          (h.sees k').ne_entry h.standing.onePath hp hdir hentry⟩
      · rw [hother hfd] at hf
        exact .inl ⟨f, hf, rfl⟩
  · exact h.standing.of_kept rfl (Nat.le_succ_of_le hn) fun _ => rfl

/-- A user creates a temporary file. -/
lemma Rivals.creates {p : Path} {n : ℕ} {hn : w.next ≤ n} (h : Rivals path w₀ good pids w views)
    (hname : ∃ counter, p = tempPathOf path (pids k) counter) (hne : p ≠ path)
    (hdir : w.dir p = none) :
    ∃ v', OwnStep mayFail (Taken path w₀ pids k) good (.createNew p) (views k) (.ok n) v' ∧
      Rivals path w₀ good pids (w.create p n hn) (Function.update views k v') := by
  have htemp : IsTempPath path p := ⟨pids k, hname⟩
  have hvn : (views k).next ≤ n := Nat.le_trans (h.sees k).next_le hn
  have hfree : ∀ k', (views k').dir p = none := by
    intro k'
    by_contra hsome
    obtain ⟨j, hj⟩ := Option.ne_none_iff_exists'.mp hsome
    rw [((h.sees k').temp hne hj).2.2.1] at hdir
    cases hdir
  have hlt : ∀ {k' fd f}, (views k').files fd = some f → fd ≠ n ∧ f.inode ≠ n := fun hf =>
    World.ne_of_files ((h.sees _).files hf).1 hn
  have hold : ∀ {k' q j}, q ≠ path → (views k').dir q = some j → q ≠ p ∧ j ≠ n := by
    intro k' q j hq hj
    refine ⟨?_, World.ne_of_dir ((h.sees k').temp hq hj).2.2.1 hn⟩
    rintro rfl
    rw [hfree] at hj
    cases hj
  refine ⟨(views k).create p n hvn, ?_, h.update ?_ ?_ ?_ (h.entered.update ?_ ?_)⟩
  · exact .inl (.inl ⟨n, by simp [succeed, hfree k, Nat.max_eq_left hvn]⟩)
  · refine ⟨Nat.le_trans (h.sees k).floor_le (Nat.le_succ_of_le hvn), Nat.le_refl _,
      (h.sees k).pid_eq, @fun q j hq hj => ?_, @fun fd f hf => ?_⟩
    · rcases World.create_dir_cases hj with ⟨rfl, rfl⟩ | ⟨hqp, hj', _⟩
      · exact ⟨htemp, Nat.le_trans h.standing.next_le hn, World.create_dir_self (h := hn),
          World.create_inodes_self.trans (World.create_inodes_self (h := hn)).symm⟩
      · obtain ⟨hq', hle, hentry, hinode⟩ := (h.sees k).temp hq hj'
        have hjn := (hold hq hj').2
        exact ⟨hq', hle, (World.create_dir_of_ne (h := hn) hqp).trans hentry,
          (World.create_inodes_of_ne hjn).trans (hinode.trans
            (World.create_inodes_of_ne (h := hn) hjn).symm)⟩
    · by_cases hfd : fd = n
      · subst hfd
        obtain rfl := Option.some.inj (World.create_files_self.symm.trans hf)
        exact ⟨World.create_files_self (h := hn), congrArg Inode.data
          (World.create_inodes_self.trans (World.create_inodes_self (h := hn)).symm)⟩
      · rw [World.create_files_of_ne hfd] at hf
        obtain ⟨hfile, hdata⟩ := (h.sees k).files hf
        refine ⟨(World.create_files_of_ne (h := hn) hfd).trans hfile, ?_⟩
        rw [World.data, World.data, World.create_inodes_of_ne (hlt hf).2,
          World.create_inodes_of_ne (hlt hf).2]
        exact hdata
  · intro k' hk'
    refine ⟨⟨?_, @fun q j hq hj => ⟨?_, ?_⟩, @fun fd f hf => ⟨?_, ?_⟩⟩,
      @fun q j hq hj => ?_, @fun fd f hf => ?_⟩
    · exact Nat.le_succ_of_le hn
    · exact World.create_dir_of_ne (h := hn) (hold hq hj).1
    · exact World.create_inodes_of_ne (h := hn) (hold hq hj).2
    · exact World.create_files_of_ne (h := hn) (hlt hf).1
    · exact congrArg Inode.data (World.create_inodes_of_ne (h := hn) (hlt hf).2)
    · rcases World.create_dir_cases hj with ⟨rfl, rfl⟩ | ⟨_, hj', _⟩
      · exact .inr ⟨hfree k', fun hf => (hlt hf).2⟩
      · exact .inl hj'
    · by_cases hfd : fd = n
      · subst hfd
        obtain rfl := Option.some.inj (World.create_files_self.symm.trans hf)
        refine .inr ⟨?_, fun hq hj => (hold hq hj).2.symm⟩
        by_contra hsome
        obtain ⟨f', hf'⟩ := Option.ne_none_iff_exists'.mp hsome
        exact (hlt hf').1 rfl
      · rw [World.create_files_of_ne hfd] at hf
        exact .inl ⟨f, hf, rfl⟩
  · obtain ⟨j, hentry, hgood⟩ := h.standing.entry
    refine ⟨Nat.le_trans h.standing.next_le (Nat.le_succ_of_le hn), @fun i hi => ?_,
      @fun q hq hother => ?_, World.OnePath.create (h := hn) h.standing.onePath, j, ?_, ?_⟩
    · have hle := h.standing.next_le
      rw [World.data, World.create_inodes_of_ne (h := hn) (by omega)]
      exact h.standing.data hi
    · have hqp : q ≠ p := by
        rintro rfl
        have hsame := h.standing.others hq hother
        rw [hdir] at hsame
        exact hother htemp hsame.symm
      exact (World.create_dir_of_ne (h := hn) hqp).trans (h.standing.others hq hother)
    · exact (World.create_dir_of_ne (h := hn) hne.symm).trans hentry
    · rw [World.data, World.create_inodes_of_ne (h := hn) (World.ne_of_dir hentry hn)]
      exact hgood
  · intro q j _ hj
    rcases World.create_dir_cases hj with ⟨rfl, rfl⟩ | ⟨_, hj', _⟩
    · exact .inr ⟨hname, World.create_dir_self (h := hvn)⟩
    · exact .inl hj'
  · intro q j hq _ hj
    exact (World.create_dir_of_ne (h := hvn) (hold hq hj).1).trans hj

/-- A user loses a temporary file, and the directory is otherwise as it was but for the path. -/
lemma Rivals.drops {v' w' : World} {p : Path} {j : ℕ} (h : Rivals path w₀ good pids w views)
    (hp : p ≠ path) (hdir : (views k).dir p = some j)
    (hview : v'.inodes = (views k).inodes ∧ v'.files = (views k).files ∧
      v'.next = (views k).next ∧ v'.pid = (views k).pid)
    (hworld : w'.inodes = w.inodes ∧ w'.files = w.files ∧ w'.next = w.next)
    (hgone : v'.dir p = none ∧ w'.dir p = none)
    (hdirs : ∀ {q}, q ≠ path → q ≠ p → v'.dir q = (views k).dir q ∧ w'.dir q = w.dir q)
    (hone : w'.OnePath w₀.next) (hentry : ∃ i, w'.dir path = some i ∧ good (w'.data i)) :
    Rivals path w₀ good pids w' (Function.update views k v') := by
  obtain ⟨hinodes, hfiles, hnext, hpid⟩ := hview
  obtain ⟨hinodes', hfiles', hnext'⟩ := hworld
  have hdata : ∀ i, w'.data i = w.data i := fun i => congrArg Inode.data (congrFun hinodes' i)
  have hworldDir : ∀ {q}, q ≠ path → q ≠ p → w'.dir q = w.dir q := fun hq hqp => (hdirs hq hqp).2
  have hviewDir : ∀ {q i}, q ≠ path → v'.dir q = some i → q ≠ p ∧ (views k).dir q = some i := by
    intro q i hq hi
    have hqp : q ≠ p := by
      rintro rfl
      cases hgone.1.symm.trans hi
    exact ⟨hqp, (hdirs hq hqp).1.symm.trans hi⟩
  have hleft : ∀ {q i}, w'.dir q = some i → q ≠ p := by
    rintro q i hi rfl
    cases hgone.2.symm.trans hi
  refine h.update ⟨?_, ?_, ?_, @fun q i hq hi => ?_, @fun fd f hf => ?_⟩ (fun k' hk' => ?_) ?_
    (h.entered.update (fun hq hi => .inl ((hworldDir hq (hleft hi)).symm.trans hi))
      fun hq hi hi' => (hdirs hq (hleft hi)).1.trans hi')
  · rw [hnext]
    exact (h.sees k).floor_le
  · rw [hnext, hnext']
    exact (h.sees k).next_le
  · rw [hpid]
    exact (h.sees k).pid_eq
  · obtain ⟨hqp, hi'⟩ := hviewDir hq hi
    rw [hworldDir hq hqp, hinodes, hinodes']
    exact (h.sees k).temp hq hi'
  · rw [hfiles] at hf
    rw [hfiles', hdata, World.data, hinodes]
    exact (h.sees k).files hf
  · have hother : ∀ {q i}, q ≠ path → (views k').dir q = some i → q ≠ p := by
      rintro q i hq hi rfl
      rw [(h.apart hk').paths hq hi] at hdir
      cases hdir
    refine ⟨⟨Nat.le_of_eq hnext'.symm, fun hq hi => ⟨hworldDir hq (hother hq hi), ?_⟩,
      fun hf => ?_⟩, fun hq hi => .inl (hviewDir hq hi).2, @fun fd f hf => ?_⟩
    · rw [hinodes']
    · rw [hfiles', hdata]
      exact ⟨rfl, rfl⟩
    · rw [hfiles] at hf
      exact .inl ⟨f, hf, rfl⟩
  · refine ⟨hnext'.symm ▸ h.standing.next_le, fun hi => (hdata _).trans (h.standing.data hi),
      @fun q hq hother => ?_, hone, hentry⟩
    have hqp : q ≠ p := by
      rintro rfl
      obtain ⟨htemp, hle, hpath, _⟩ := (h.sees k).temp hq hdir
      rw [h.standing.others hq hother] at hpath
      exact absurd (w₀.dir_lt hpath) (Nat.not_lt.mpr hle)
    exact (hworldDir hq hqp).trans (h.standing.others hq hother)

omit [DecidableEq κ] in
/-- A temporary file is not created: the call fails, the path is taken, or the user has a file there
itself. -/
lemma Rivals.refused {p : Path} {r : Except IoError Fd} (h : Rivals path w₀ good pids w views)
    (hname : ∃ counter, p = tempPathOf path (pids k) counter) (hne : p ≠ path)
    (hreason : w.dir p ≠ none ∨ mayFail (.createNew p)) (herror : ∃ e, r = .error e)
    (hstep : FsStep mayFail (.createNew p) w r w) :
    OwnStep mayFail (Taken path w₀ pids k) good (.createNew p) (views k) r (views k) := by
  obtain ⟨n, hn⟩ | ⟨hfail, _⟩ := hstep
  swap
  · exact .inl (.inr ⟨hfail, herror, rfl⟩)
  obtain hsome | hfail := hreason
  swap
  · exact .inl (.inr ⟨hfail, herror, rfl⟩)
  obtain ⟨j, hj⟩ := Option.ne_none_iff_exists'.mp hsome
  simp only [succeed, hj] at hn
  obtain rfl := (Prod.mk.inj hn).1
  obtain hinit | ⟨k', hname', hentry⟩ := h.entered p j hne hj
  · exact .inr ⟨⟨hname, .inl hinit⟩, rfl, rfl⟩
  · rcases eq_or_ne k' k with rfl | hk
    · exact .inl (.inl ⟨n, by simp only [succeed, hentry]⟩)
    · exact .inr ⟨⟨hname, .inr ⟨k', hk, hname'⟩⟩, rfl, rfl⟩

/-- A call within the contract is a step in the user's own view, and leaves the others' alone. -/
lemma Rivals.step {c : FsCall} {r : c.Reply} (h : Rivals path w₀ good pids w views)
    (hmay : OwnMay w₀ path good c (views k)) (hstep : ProcessStep mayFail (pids k) c w r w') :
    ∃ v', OwnStep mayFail (Taken path w₀ pids k) good c (views k) r v' ∧
      Rivals path w₀ good pids w' (Function.update views k v') := by
  cases c with
  | processId =>
      obtain ⟨rfl, rfl⟩ := hstep
      exact ⟨views k, .inl ⟨0, Prod.ext (h.sees k).pid_eq.symm rfl⟩, h.same⟩
  | nextTempCounter =>
      obtain rfl := FsStep.nextTempCounter_inv hstep
      refine ⟨(views k).setCounter (r + 1), .inl ⟨r, rfl⟩, h.update ?_ (fun k' hk' => ?_) ?_
        (h.entered.same (fun _ => rfl) fun _ => rfl)⟩
      · exact ⟨(h.sees k).floor_le, (h.sees k).next_le, (h.sees k).pid_eq, (h.sees k).temp,
          (h.sees k).files⟩
      · exact ⟨⟨Nat.le_refl _, fun _ _ => ⟨rfl, rfl⟩, fun _ => ⟨rfl, rfl⟩⟩,
          fun _ hdir => .inl hdir, fun hf => .inl ⟨_, hf, rfl⟩⟩
      · exact h.standing.of_kept rfl (Nat.le_refl _) fun _ => rfl
  | openFile p writable =>
      obtain rfl := hmay
      obtain ⟨j, hentry, _⟩ := h.standing.entry
      obtain ⟨i, n, hn, _, rfl, rfl⟩ | ⟨hreason, herror, rfl⟩ := FsStep.openFile_inv hstep
      · exact h.opens hentry
      · refine ⟨views k, .inl ⟨hreason.resolve_left ?_, herror, rfl⟩, h.same⟩
        rw [hentry]
        exact Option.some_ne_none j
  | createNew p =>
      have hname : ∃ counter, p = tempPathOf path (pids k) counter := by
        rw [← (h.sees k).pid_eq]
        exact hmay
      have hne : p ≠ path := by
        obtain ⟨counter, rfl⟩ := hname
        exact tempPathOf_ne path _ _
      obtain ⟨n, hn, hdir, rfl, rfl⟩ | ⟨hreason, herror, rfl⟩ := FsStep.createNew_inv hstep
      · exact h.creates hname hne hdir
      · exact ⟨views k, h.refused hname hne hreason herror hstep, h.same⟩
  | rename src dst =>
      obtain ⟨hdst, hne, j, hsrc, _, hgood⟩ := hmay
      obtain rfl : dst = path := hdst
      replace hne : src ≠ dst := hne
      obtain ⟨_, hle, hentry, hinode⟩ := (h.sees k).temp hne hsrc
      obtain ⟨rfl, rfl⟩ | ⟨hfail, herror, rfl⟩ := FsStep.rename_inv hentry hstep
      · refine ⟨(views k).move src dst, .inl ⟨0, by simp [succeed, hsrc]⟩,
          h.drops hne hsrc ⟨rfl, rfl, rfl, rfl⟩ ⟨rfl, rfl, rfl⟩
            ⟨World.move_dir_src hne, World.move_dir_src hne⟩
            (fun hq hqs => ⟨World.move_dir_of_ne hqs hq, World.move_dir_of_ne hqs hq⟩)
            (World.OnePath.move hne h.standing.onePath) ⟨j, ?_, ?_⟩⟩
        · exact (World.move_dir_dst _ _).trans hentry
        · have hgood' : good ((views k).inodes j).data := hgood.1
          rw [hinode] at hgood'
          exact hgood'
      · exact ⟨views k, .inr ⟨hfail, herror, rfl⟩, h.same⟩
  | removeFile p =>
      obtain ⟨hne, j, hdir, _⟩ := hmay
      replace hne : p ≠ path := hne
      obtain ⟨_, hle, hentry, _⟩ := (h.sees k).temp hne hdir
      obtain ⟨rfl, rfl⟩ | ⟨hfail, herror, rfl⟩ := FsStep.removeFile_inv hentry hstep
      · obtain ⟨i, hpath, hgood⟩ := h.standing.entry
        refine ⟨(views k).unlink p, .inl ⟨0, by simp [succeed, hdir]⟩,
          h.drops hne hdir ⟨rfl, rfl, rfl, rfl⟩ ⟨rfl, rfl, rfl⟩
            ⟨World.unlink_dir_self p, World.unlink_dir_self p⟩
            (fun _ hqp => ⟨World.unlink_dir_of_ne hqp, World.unlink_dir_of_ne hqp⟩)
            (World.OnePath.unlink h.standing.onePath) ⟨i, ?_, hgood⟩⟩
        · exact (World.unlink_dir_of_ne hne.symm).trans hpath
      · exact ⟨views k, .inr ⟨hfail, herror, rfl⟩, h.same⟩
  | openDir parent | syncDir parent =>
      obtain ⟨_, hk⟩ | ⟨hfail, he, rfl⟩ := hstep
      · cases hk
        exact ⟨views k, .inl ⟨0, rfl⟩, h.same⟩
      · exact ⟨views k, .inr ⟨hfail, he, rfl⟩, h.same⟩
  | write fd bs | writeAll fd bs =>
      obtain ⟨f, p, hf, hne, hdir, _⟩ := hmay
      exact h.handle rfl hf (fun _ => ⟨p, hne, hdir⟩) hstep
  | tryClone fd =>
      obtain ⟨f, hf, _⟩ := hmay
      exact h.handle rfl hf False.elim hstep
  | seek fd _ | read fd _ | readExact fd _ | flush fd | syncAll fd =>
      obtain ⟨f, hf⟩ := hmay
      exact h.handle rfl hf False.elim hstep

end

end TuxEncoding
