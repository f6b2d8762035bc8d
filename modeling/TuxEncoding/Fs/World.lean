import TuxEncoding.Lib.Interaction
import TuxEncoding.Fs.Layout

/-!
# The file system

The calls the crate makes to the operating system and the file system that answers them: a
directory of paths, the files behind them and the open file handles.

* `succeed` is what each call does when nothing goes wrong, `Faults` what it may do when something
  does, and `FsStep mayFail` allows a fault in the calls for which `mayFail` holds.
* One inversion lemma for each call says everything it can answer and leave behind
  (`FsStep.seek_inv`, `FsStep.write_inv`, `FsStep.rename_inv`, …).

A file's bytes may be read back at once, but they survive a crash only when `synced` holds. The
numbers of new handles and files and the temporary-name counter are answered arbitrarily, within
what is still unused, so other parts of the process may use them as well.
-/

namespace TuxEncoding

open Bytes Interaction

/-- A handle to an open file. -/
abbrev Fd := ℕ

/-- The calls to the environment. -/
inductive FsCall
  /-- `std::process::id()` -/
  | processId
  /-- `next_temp_counter()` -/
  | nextTempCounter
  /-- `OpenOptions::new().read(true).write(writable).open(path)` -/
  | openFile (path : Path) (writable : Bool)
  /-- `OpenOptions::new().read(true).write(true).create_new(true).open(path)` -/
  | createNew (path : Path)
  /-- `file.seek(SeekFrom::Start(pos))` -/
  | seek (fd : Fd) (pos : ℕ)
  | read (fd : Fd) (n : ℕ)
  | readExact (fd : Fd) (n : ℕ)
  | write (fd : Fd) (bs : List UInt8)
  | writeAll (fd : Fd) (bs : List UInt8)
  | flush (fd : Fd)
  | syncAll (fd : Fd)
  | tryClone (fd : Fd)
  | rename (src dst : Path)
  | removeFile (path : Path)
  /-- `File::open(parent)` of a directory -/
  | openDir (parent : List Char)
  /-- `dir.sync_all()` -/
  | syncDir (parent : List Char)
  deriving DecidableEq

/-- What a call is answered with. -/
abbrev FsCall.Reply : FsCall → Type
  | processId | nextTempCounter => ℕ
  | openFile _ _ | createNew _ | tryClone _ => Except IoError Fd
  | read _ _ | readExact _ _ => Except IoError (List UInt8)
  | write _ _ => Except IoError ℕ
  | seek _ _ | writeAll _ _ | flush _ | syncAll _ | rename _ _ | removeFile _ | openDir _
  | syncDir _ => Except IoError Unit

/-! ## The state of the file system -/

/-- The contents of a file, and whether they are on stable storage. -/
structure Inode where
  data : List UInt8
  synced : Bool
  deriving DecidableEq

/-- What a handle refers to; clones of a handle share it. -/
structure OpenFile where
  inode : ℕ
  pos : ℕ
  writable : Bool
  deriving DecidableEq

/-- The file system as one process sees it. Handles and files are numbered, and every number from
`next` on is unused. -/
structure World where
  dir : Path → Option ℕ
  inodes : ℕ → Inode
  files : ℕ → Option OpenFile
  next : ℕ
  counter : ℕ
  pid : ℕ
  dir_lt : ∀ {path i}, dir path = some i → i < next
  files_lt : ∀ {fd f}, files fd = some f → fd < next ∧ f.inode < next

/-- The largest length of a file: offsets are signed 64-bit numbers. -/
def maxFileLength : ℕ := 2 ^ 63 - 1

lemma toNat_uint16_le (n : UInt16) : n.toNat ≤ maxFileLength := by
  have := n.toNat_lt
  unfold maxFileLength
  omega

lemma toNat_uint32_le (n : UInt32) : n.toNat ≤ maxFileLength := by
  have := n.toNat_lt
  unfold maxFileLength
  omega

namespace World

variable (w : World)

/-- The bytes of a file. -/
def data (i : ℕ) : List UInt8 := (w.inodes i).data

/-- Move the position of a handle. -/
def seekTo (fd pos : ℕ) : World where
  dir := w.dir
  inodes := w.inodes
  files := Function.update w.files fd ((w.files fd).map fun f => { f with pos := pos })
  next := w.next
  counter := w.counter
  pid := w.pid
  dir_lt := w.dir_lt
  files_lt {fd' f} h := by
    by_cases hfd : fd' = fd
    · subst hfd
      rw [Function.update_self] at h
      obtain ⟨f', hf', rfl⟩ := Option.map_eq_some_iff.mp h
      exact ⟨(w.files_lt hf').1, (w.files_lt hf').2⟩
    · rw [Function.update_of_ne hfd] at h
      exact w.files_lt h

/-- Replace the contents of a file. -/
def setInode (i : ℕ) (inode : Inode) : World where
  dir := w.dir
  inodes := Function.update w.inodes i inode
  files := w.files
  next := w.next
  counter := w.counter
  pid := w.pid
  dir_lt := w.dir_lt
  files_lt := w.files_lt

/-- Write bytes where a handle stands, and move it behind them. -/
def put (fd : ℕ) (f : OpenFile) (bs : List UInt8) : World :=
  (w.setInode f.inode ⟨overwrite 0 (w.data f.inode) f.pos bs,
    bs.isEmpty && (w.inodes f.inode).synced⟩).seekTo fd (f.pos + bs.length)

/-- Open the file at a path under the number `n`. -/
def openAt (path : Path) (writable : Bool) (n : ℕ) (h : w.next ≤ n) : World where
  dir := w.dir
  inodes := w.inodes
  files := Function.update w.files n ((w.dir path).map fun i => ⟨i, 0, writable⟩)
  next := n + 1
  counter := w.counter
  pid := w.pid
  dir_lt hp := by
    have := w.dir_lt hp
    omega
  files_lt {fd f} hf := by
    by_cases hfd : fd = n
    · subst hfd
      rw [Function.update_self] at hf
      obtain ⟨i, hi, rfl⟩ := Option.map_eq_some_iff.mp hf
      have := w.dir_lt hi
      exact ⟨Nat.lt_succ_self fd, show i < fd + 1 by omega⟩
    · rw [Function.update_of_ne hfd] at hf
      have := w.files_lt hf
      exact ⟨by omega, by omega⟩

/-- Create an empty file at a path under the number `n` and open it. -/
def create (path : Path) (n : ℕ) (h : w.next ≤ n) : World where
  dir := Function.update w.dir path (some n)
  inodes := Function.update w.inodes n ⟨[], false⟩
  files := Function.update w.files n (some ⟨n, 0, true⟩)
  next := n + 1
  counter := w.counter
  pid := w.pid
  dir_lt {p i} hp := by
    by_cases hpath : p = path
    · subst hpath
      rw [Function.update_self] at hp
      cases hp
      omega
    · rw [Function.update_of_ne hpath] at hp
      have := w.dir_lt hp
      omega
  files_lt {fd f} hf := by
    by_cases hfd : fd = n
    · subst hfd
      rw [Function.update_self] at hf
      cases hf
      exact ⟨Nat.lt_succ_self fd, Nat.lt_succ_self fd⟩
    · rw [Function.update_of_ne hfd] at hf
      have := w.files_lt hf
      exact ⟨by omega, by omega⟩

/-- Move a directory entry over another one. -/
def move (src dst : Path) : World where
  dir := Function.update (Function.update w.dir src none) dst (w.dir src)
  inodes := w.inodes
  files := w.files
  next := w.next
  counter := w.counter
  pid := w.pid
  dir_lt {p i} hp := by
    by_cases hdst : p = dst
    · subst hdst
      rw [Function.update_self] at hp
      exact w.dir_lt hp
    · rw [Function.update_of_ne hdst] at hp
      by_cases hsrc : p = src
      · subst hsrc
        rw [Function.update_self] at hp
        cases hp
      · rw [Function.update_of_ne hsrc] at hp
        exact w.dir_lt hp
  files_lt := w.files_lt

/-- Remove a directory entry; the file lives on for the handles that are open on it. -/
def unlink (path : Path) : World where
  dir := Function.update w.dir path none
  inodes := w.inodes
  files := w.files
  next := w.next
  counter := w.counter
  pid := w.pid
  dir_lt {p i} hp := by
    by_cases hpath : p = path
    · subst hpath
      rw [Function.update_self] at hp
      cases hp
    · rw [Function.update_of_ne hpath] at hp
      exact w.dir_lt hp
  files_lt := w.files_lt

def setCounter (n : ℕ) : World where
  dir := w.dir
  inodes := w.inodes
  files := w.files
  next := w.next
  counter := n
  pid := w.pid
  dir_lt := w.dir_lt
  files_lt := w.files_lt

/-- The path `d/o`. -/
def somePath : Path := ⟨some ['d'], some ['o']⟩

/-- A file system without files. -/
def empty : World where
  dir _ := none
  inodes _ := ⟨[], true⟩
  files _ := none
  next := 0
  counter := 0
  pid := 1
  dir_lt := nofun
  files_lt := nofun

/-- A file system with one file, at `d/o`. -/
def single (data : List UInt8) : World :=
  (empty.create somePath 0 (Nat.le_refl _)).setInode 0 ⟨data, true⟩

/-! ### What the updates change -/

variable {w}

@[simp] lemma seekTo_dir (fd pos : ℕ) : (w.seekTo fd pos).dir = w.dir := rfl
@[simp] lemma seekTo_inodes (fd pos : ℕ) : (w.seekTo fd pos).inodes = w.inodes := rfl
@[simp] lemma seekTo_data (fd pos : ℕ) : (w.seekTo fd pos).data = w.data := rfl
@[simp] lemma seekTo_next (fd pos : ℕ) : (w.seekTo fd pos).next = w.next := rfl

lemma seekTo_files_self {fd pos : ℕ} {f : OpenFile} (h : w.files fd = some f) :
    (w.seekTo fd pos).files fd = some { f with pos := pos } := by
  simp [seekTo, h]

lemma seekTo_files_of_ne {fd fd' : ℕ} (h : fd' ≠ fd) (pos : ℕ) :
    (w.seekTo fd pos).files fd' = w.files fd' := Function.update_of_ne h _ _

@[simp] lemma setInode_dir (i : ℕ) (n : Inode) : (w.setInode i n).dir = w.dir := rfl
@[simp] lemma setInode_files (i : ℕ) (n : Inode) : (w.setInode i n).files = w.files := rfl
@[simp] lemma setInode_next (i : ℕ) (n : Inode) : (w.setInode i n).next = w.next := rfl

@[simp] lemma setInode_inodes_self (i : ℕ) (n : Inode) : (w.setInode i n).inodes i = n :=
  Function.update_self _ _ _

lemma setInode_inodes_of_ne {i j : ℕ} (h : j ≠ i) (n : Inode) :
    (w.setInode i n).inodes j = w.inodes j := Function.update_of_ne h _ _

@[simp] lemma put_dir (fd : ℕ) (f : OpenFile) (bs : List UInt8) : (w.put fd f bs).dir = w.dir := rfl
@[simp] lemma put_next (fd : ℕ) (f : OpenFile) (bs : List UInt8) :
    (w.put fd f bs).next = w.next := rfl

lemma put_data_self (fd : ℕ) (f : OpenFile) (bs : List UInt8) :
    (w.put fd f bs).data f.inode = overwrite 0 (w.data f.inode) f.pos bs :=
  congrArg Inode.data (setInode_inodes_self _ _)

lemma put_inodes_of_ne {i : ℕ} (fd : ℕ) {f : OpenFile} (h : i ≠ f.inode) (bs : List UInt8) :
    (w.put fd f bs).inodes i = w.inodes i := setInode_inodes_of_ne h _

lemma put_files_self {fd : ℕ} {f : OpenFile} (h : w.files fd = some f) (bs : List UInt8) :
    (w.put fd f bs).files fd = some { f with pos := f.pos + bs.length } :=
  seekTo_files_self h

lemma put_files_of_ne {fd fd' : ℕ} (h : fd' ≠ fd) (f : OpenFile) (bs : List UInt8) :
    (w.put fd f bs).files fd' = w.files fd' := seekTo_files_of_ne h _

section create

variable {path : Path} {n : ℕ} {h : w.next ≤ n}

@[simp] lemma create_next : (w.create path n h).next = n + 1 := rfl
@[simp] lemma create_dir_self : (w.create path n h).dir path = some n := Function.update_self _ _ _
@[simp] lemma create_files_self : (w.create path n h).files n = some ⟨n, 0, true⟩ :=
  Function.update_self _ _ _
@[simp] lemma create_inodes_self : (w.create path n h).inodes n = ⟨[], false⟩ :=
  Function.update_self _ _ _

lemma create_dir_of_ne {p : Path} (hp : p ≠ path) : (w.create path n h).dir p = w.dir p :=
  Function.update_of_ne hp _ _

lemma create_files_of_ne {fd : ℕ} (hfd : fd ≠ n) : (w.create path n h).files fd = w.files fd :=
  Function.update_of_ne hfd _ _

lemma create_inodes_of_ne {i : ℕ} (hi : i ≠ n) : (w.create path n h).inodes i = w.inodes i :=
  Function.update_of_ne hi _ _

end create

@[simp] lemma move_inodes (src dst : Path) : (w.move src dst).inodes = w.inodes := rfl
@[simp] lemma move_data (src dst : Path) : (w.move src dst).data = w.data := rfl
@[simp] lemma move_files (src dst : Path) : (w.move src dst).files = w.files := rfl
@[simp] lemma move_next (src dst : Path) : (w.move src dst).next = w.next := rfl
@[simp] lemma move_dir_dst (src dst : Path) : (w.move src dst).dir dst = w.dir src :=
  Function.update_self _ _ _

lemma move_dir_src {src dst : Path} (h : src ≠ dst) : (w.move src dst).dir src = none := by
  simp [move, h]

lemma move_dir_of_ne {src dst p : Path} (hsrc : p ≠ src) (hdst : p ≠ dst) :
    (w.move src dst).dir p = w.dir p := by
  simp [move, hsrc, hdst]

@[simp] lemma unlink_inodes (p : Path) : (w.unlink p).inodes = w.inodes := rfl
@[simp] lemma unlink_data (p : Path) : (w.unlink p).data = w.data := rfl
@[simp] lemma unlink_files (p : Path) : (w.unlink p).files = w.files := rfl
@[simp] lemma unlink_next (p : Path) : (w.unlink p).next = w.next := rfl
@[simp] lemma unlink_dir_self (p : Path) : (w.unlink p).dir p = none := Function.update_self _ _ _

lemma unlink_dir_of_ne {p p' : Path} (h : p' ≠ p) : (w.unlink p).dir p' = w.dir p' :=
  Function.update_of_ne h _ _

@[simp] lemma setCounter_dir (n : ℕ) : (w.setCounter n).dir = w.dir := rfl
@[simp] lemma setCounter_inodes (n : ℕ) : (w.setCounter n).inodes = w.inodes := rfl
@[simp] lemma setCounter_files (n : ℕ) : (w.setCounter n).files = w.files := rfl
@[simp] lemma setCounter_next (n : ℕ) : (w.setCounter n).next = w.next := rfl

/-! ### Where a file is -/

lemma create_dir_cases {path p : Path} {n i : ℕ} {h : w.next ≤ n}
    (hp : (w.create path n h).dir p = some i) :
    p = path ∧ i = n ∨ p ≠ path ∧ w.dir p = some i ∧ i < n := by
  rcases eq_or_ne p path with rfl | hpath
  · exact .inl ⟨rfl, Option.some.inj (hp.symm.trans (create_dir_self (h := h)))⟩
  · rw [create_dir_of_ne hpath] at hp
    exact .inr ⟨hpath, hp, Nat.lt_of_lt_of_le (w.dir_lt hp) h⟩

lemma move_dir_cases {src dst p : Path} {i : ℕ} (hne : src ≠ dst)
    (hp : (w.move src dst).dir p = some i) :
    p = dst ∧ w.dir src = some i ∨ p ≠ dst ∧ p ≠ src ∧ w.dir p = some i := by
  rcases eq_or_ne p dst with rfl | hdst
  · rw [move_dir_dst] at hp
    exact .inl ⟨rfl, hp⟩
  · rcases eq_or_ne p src with rfl | hsrc
    · rw [move_dir_src hne] at hp
      cases hp
    · rw [move_dir_of_ne hsrc hdst] at hp
      exact .inr ⟨hdst, hsrc, hp⟩

lemma unlink_dir_cases {path p : Path} {i : ℕ} (hp : (w.unlink path).dir p = some i) :
    p ≠ path ∧ w.dir p = some i := by
  rcases eq_or_ne p path with rfl | hpath
  · rw [unlink_dir_self] at hp
    cases hp
  · rw [unlink_dir_of_ne hpath] at hp
    exact ⟨hpath, hp⟩

/-- Files from the number `n` on are at one path at most. -/
def OnePath (n : ℕ) (w : World) : Prop :=
  ∀ {i p q}, n ≤ i → w.dir p = some i → w.dir q = some i → p = q

/-- No file has one of the unused numbers. -/
lemma onePath_next (w : World) : w.OnePath w.next :=
  fun hi hp _ => absurd (w.dir_lt hp) (Nat.not_lt.mpr hi)

namespace OnePath

variable {n : ℕ}

lemma create {path : Path} {k : ℕ} {h : w.next ≤ k} (hone : w.OnePath n) :
    (w.create path k h).OnePath n := by
  intro i p q hi hp hq
  rcases create_dir_cases hp with ⟨rfl, rfl⟩ | ⟨_, hp', hlt⟩ <;>
    rcases create_dir_cases hq with ⟨hq', heq⟩ | ⟨_, hq', hlt'⟩
  · exact hq'.symm
  · omega
  · omega
  · exact hone hi hp' hq'

lemma move {src dst : Path} (hne : src ≠ dst) (h : w.OnePath n) : (w.move src dst).OnePath n := by
  intro i p q hi hp hq
  rcases move_dir_cases hne hp with ⟨rfl, hsrc⟩ | ⟨_, hps, hp'⟩ <;>
    rcases move_dir_cases hne hq with ⟨hqp, hsrc'⟩ | ⟨_, hqs, hq'⟩
  · exact hqp.symm
  · exact absurd (h hi hq' hsrc) hqs
  · exact absurd (h hi hp' hsrc') hps
  · exact h hi hp' hq'

lemma unlink {path : Path} (h : w.OnePath n) : (w.unlink path).OnePath n :=
  fun hi hp hq => h hi (unlink_dir_cases hp).2 (unlink_dir_cases hq).2

end OnePath

/-- A handle and a file that are in use are not new. -/
lemma ne_of_files {fd n : ℕ} {f : OpenFile} (h : w.files fd = some f) (hn : w.next ≤ n) :
    fd ≠ n ∧ f.inode ≠ n := by
  have := w.files_lt h
  exact ⟨by omega, by omega⟩

lemma ne_of_dir {p : Path} {i n : ℕ} (h : w.dir p = some i) (hn : w.next ≤ n) : i ≠ n := by
  have := w.dir_lt h
  omega

end World

/-! ## What a call does -/

def notFound : IoError := ⟨.notFound, "No such file or directory (os error 2)"⟩

def alreadyExists : IoError := ⟨.alreadyExists, "File exists (os error 17)"⟩

def badDescriptor : IoError := ⟨.other, "Bad file descriptor (os error 9)"⟩

def fileTooLarge : IoError := ⟨.other, "File too large (os error 27)"⟩

def invalidArgument : IoError := ⟨.other, "Invalid argument (os error 22)"⟩

/-- What a call does when nothing goes wrong; `k` is the number it hands out, raised to one that is
unused. -/
def succeed (k : ℕ) : (c : FsCall) → World → c.Reply × World
  | .processId, w => (w.pid, w)
  | .nextTempCounter, w => (k, w.setCounter (k + 1))
  | .openFile path writable, w =>
      match w.dir path with
      | none => (.error notFound, w)
      | some _ => (.ok (max k w.next), w.openAt path writable (max k w.next) (Nat.le_max_right _ _))
  | .createNew path, w =>
      match w.dir path with
      | some _ => (.error alreadyExists, w)
      | none => (.ok (max k w.next), w.create path (max k w.next) (Nat.le_max_right _ _))
  | .seek fd pos, w =>
      match w.files fd with
      | none => (.error badDescriptor, w)
      | some _ =>
          if pos > maxFileLength then (.error invalidArgument, w) else (.ok (), w.seekTo fd pos)
  | .read fd n, w =>
      match w.files fd with
      | none => (.error badDescriptor, w)
      | some f =>
          let bs := ((w.data f.inode).drop f.pos).take n
          (.ok bs, w.seekTo fd (f.pos + bs.length))
  | .readExact fd n, w =>
      match w.files fd with
      | none => (.error badDescriptor, w)
      | some f =>
          let bs := ((w.data f.inode).drop f.pos).take n
          (if bs.length < n then .error shortRead else .ok bs, w.seekTo fd (f.pos + bs.length))
  | .write fd bs, w =>
      match w.files fd with
      | none => (.error badDescriptor, w)
      | some f =>
          if ¬ f.writable then (.error badDescriptor, w)
          else if f.pos + bs.length > maxFileLength then (.error fileTooLarge, w)
          else (.ok bs.length, w.put fd f bs)
  | .writeAll fd bs, w =>
      match w.files fd with
      | none => (.error badDescriptor, w)
      | some f =>
          if ¬ f.writable then (.error badDescriptor, w)
          else if f.pos + bs.length > maxFileLength then (.error fileTooLarge, w)
          else (.ok (), w.put fd f bs)
  | .flush _, w => (.ok (), w)
  | .syncAll fd, w =>
      match w.files fd with
      | none => (.error badDescriptor, w)
      | some f => (.ok (), w.setInode f.inode ⟨w.data f.inode, true⟩)
  | .tryClone fd, w =>
      match w.files fd with
      | none => (.error badDescriptor, w)
      | some _ => (.ok fd, w)
  | .rename src dst, w =>
      match w.dir src with
      | none => (.error notFound, w)
      | some _ => (.ok (), w.move src dst)
  | .removeFile path, w =>
      match w.dir path with
      | none => (.error notFound, w)
      | some _ => (.ok (), w.unlink path)
  | .openDir _, w => (.ok (), w)
  | .syncDir _, w => (.ok (), w)

/-- The file system of a process that is alone: numbers are handed out in order. -/
def perform : Program.Handler FsCall.Reply World := fun c w =>
  match c with
  | .nextTempCounter => succeed w.counter .nextTempCounter w
  | c => succeed 0 c w

/-- What a call may do when something goes wrong: it reports an error and leaves the file system as
it was, except that a read or a write may have come to pass in part. -/
def Faults : (c : FsCall) → World → c.Reply → World → Prop
  | .processId, _, _, _ | .nextTempCounter, _, _, _ => False
  | .openFile _ _, w, r, w' | .createNew _, w, r, w' | .tryClone _, w, r, w'
  | .seek _ _, w, r, w' | .flush _, w, r, w' | .syncAll _, w, r, w' | .rename _ _, w, r, w'
  | .removeFile _, w, r, w' | .openDir _, w, r, w' | .syncDir _, w, r, w' =>
      (∃ e, r = .error e) ∧ w' = w
  | .read fd n, w, r, w' =>
      ((∃ e, r = .error e) ∧ w' = w) ∨ ∃ m ≤ n, 0 < m ∧ (r, w') = succeed 0 (.read fd m) w
  | .readExact fd n, w, r, w' =>
      (∃ e, r = .error e) ∧ ∃ m ≤ n, w' = (succeed 0 (.readExact fd m) w).2
  | .write fd bs, w, r, w' =>
      ((∃ e, r = .error e) ∧ w' = w) ∨
        ∃ m ≤ bs.length, 0 < m ∧ (r, w') = succeed 0 (.write fd (bs.take m)) w
  | .writeAll fd bs, w, r, w' =>
      (∃ e, r = .error e) ∧ ∃ m ≤ bs.length, w' = (succeed 0 (.writeAll fd (bs.take m)) w).2

/-- The file system with faults in the calls for which `mayFail` holds. -/
def FsStep (mayFail : FsCall → Prop) (c : FsCall) (w : World) (r : c.Reply) (w' : World) : Prop :=
  (∃ k, (r, w') = succeed k c w) ∨ mayFail c ∧ Faults c w r w'

/-- No call fails. -/
def NoFaults : FsCall → Prop := fun _ => False

lemma not_exists_noFaults : ¬ ∃ c, NoFaults c := by
  rintro ⟨_, hfault⟩
  exact hfault

lemma fsStep_perform (mayFail : FsCall → Prop) (c : FsCall) (w : World) :
    FsStep mayFail c w (perform c w).1 (perform c w).2 := by
  cases c with
  | nextTempCounter => exact .inl ⟨w.counter, rfl⟩
  | _ => exact .inl ⟨0, rfl⟩

def inputOutputError : IoError := ⟨.other, "Input/output error (os error 5)"⟩

/-- A call that fails without doing anything, if it can fail. -/
def failure : (c : FsCall) → World → c.Reply × World
  | .processId, w => perform .processId w
  | .nextTempCounter, w => perform .nextTempCounter w
  | .readExact fd _, w => (.error inputOutputError, (succeed 0 (.readExact fd 0) w).2)
  | .writeAll fd bs, w => (.error inputOutputError, (succeed 0 (.writeAll fd (bs.take 0)) w).2)
  | .openFile _ _, w | .createNew _, w | .tryClone _, w | .read _ _, w | .write _ _, w
  | .seek _ _, w | .flush _, w | .syncAll _, w | .rename _ _, w | .removeFile _, w | .openDir _, w
  | .syncDir _, w => (.error inputOutputError, w)

/-- The file system of a process that is alone, where some calls always fail. -/
def performExcept (fails : FsCall → Bool) : Program.Handler FsCall.Reply World := fun c w =>
  if fails c then failure c w else perform c w

lemma fsStep_performExcept (fails : FsCall → Bool) (c : FsCall) (w : World) :
    FsStep (fun c => fails c = true) c w (performExcept fails c w).1
      (performExcept fails c w).2 := by
  unfold performExcept
  split_ifs with hfails
  · cases c with
    | processId => exact fsStep_perform _ .processId w
    | nextTempCounter => exact fsStep_perform _ .nextTempCounter w
    | readExact fd n => exact .inr ⟨hfails, ⟨_, rfl⟩, 0, Nat.zero_le n, rfl⟩
    | writeAll fd bs => exact .inr ⟨hfails, ⟨_, rfl⟩, 0, Nat.zero_le _, rfl⟩
    | read fd n | write fd bs => exact .inr ⟨hfails, .inl ⟨⟨_, rfl⟩, rfl⟩⟩
    | _ => exact .inr ⟨hfails, ⟨_, rfl⟩, rfl⟩
  · exact fsStep_perform _ c w

/-! ## What each call answers and leaves behind -/

section inversion

variable {mayFail : FsCall → Prop} {w w' : World}

lemma FsStep.processId_inv {r : ℕ} (h : FsStep mayFail .processId w r w') :
    r = w.pid ∧ w' = w := by
  obtain ⟨k, hk⟩ | ⟨_, hfault⟩ := h
  · cases hk
    exact ⟨rfl, rfl⟩
  · exact hfault.elim

lemma FsStep.nextTempCounter_inv {r : ℕ} (h : FsStep mayFail .nextTempCounter w r w') :
    w' = w.setCounter (r + 1) := by
  obtain ⟨k, hk⟩ | ⟨_, hfault⟩ := h
  · cases hk
    rfl
  · exact hfault.elim

lemma FsStep.openFile_inv {path : Path} {writable : Bool} {r : Except IoError Fd}
    (h : FsStep mayFail (.openFile path writable) w r w') :
    (∃ i n, ∃ hn : w.next ≤ n, w.dir path = some i ∧ r = .ok n ∧
      w' = w.openAt path writable n hn) ∨
    (w.dir path = none ∨ mayFail (.openFile path writable)) ∧ (∃ e, r = .error e) ∧ w' = w := by
  obtain ⟨k, hk⟩ | ⟨hmay, hfault⟩ := h
  · cases hdir : w.dir path with
    | none =>
        simp only [succeed, hdir] at hk
        cases hk
        exact .inr ⟨.inl rfl, ⟨_, rfl⟩, rfl⟩
    | some i =>
        simp only [succeed, hdir] at hk
        cases hk
        exact .inl ⟨i, _, Nat.le_max_right _ _, rfl, rfl, rfl⟩
  · exact .inr ⟨.inr hmay, hfault⟩

lemma FsStep.createNew_inv {path : Path} {r : Except IoError Fd}
    (h : FsStep mayFail (.createNew path) w r w') :
    (∃ n, ∃ hn : w.next ≤ n, w.dir path = none ∧ r = .ok n ∧ w' = w.create path n hn) ∨
    (w.dir path ≠ none ∨ mayFail (.createNew path)) ∧ (∃ e, r = .error e) ∧ w' = w := by
  obtain ⟨k, hk⟩ | ⟨hmay, hfault⟩ := h
  · cases hdir : w.dir path with
    | none =>
        simp only [succeed, hdir] at hk
        cases hk
        exact .inl ⟨_, Nat.le_max_right _ _, rfl, rfl, rfl⟩
    | some i =>
        simp only [succeed, hdir] at hk
        cases hk
        exact .inr ⟨.inl nofun, ⟨_, rfl⟩, rfl⟩
  · exact .inr ⟨.inr hmay, hfault⟩

variable {fd : ℕ} {f : OpenFile}

/-- Only a fault, or a position that no file has, makes a seek fail. -/
lemma FsStep.seek_inv {pos : ℕ} {r : Except IoError Unit} (hf : w.files fd = some f)
    (h : FsStep mayFail (.seek fd pos) w r w') :
    (pos ≤ maxFileLength ∧ r = .ok () ∧ w' = w.seekTo fd pos) ∨
    ∃ e, (mayFail (.seek fd pos) ∨ maxFileLength < pos ∧ e = invalidArgument) ∧ r = .error e ∧
      w' = w := by
  obtain ⟨k, hk⟩ | ⟨hmay, ⟨e, hr⟩, hw⟩ := h
  · simp only [succeed, hf] at hk
    split_ifs at hk with hlarge
    · cases hk
      exact .inr ⟨_, .inr ⟨hlarge, rfl⟩, rfl, rfl⟩
    · cases hk
      exact .inl ⟨Nat.not_lt.mp hlarge, rfl, rfl⟩
  · exact .inr ⟨e, .inl hmay, hr, hw⟩

/-- A read returns the next bytes of the file, and only a fault makes it return fewer of them than
it could. -/
lemma FsStep.read_inv {n : ℕ} {r : Except IoError (List UInt8)} (hf : w.files fd = some f)
    (h : FsStep mayFail (.read fd n) w r w') :
    (∃ m ≤ n, (m = n ∨ 0 < m ∧ mayFail (.read fd n)) ∧
      r = .ok (((w.data f.inode).drop f.pos).take m) ∧
      w' = w.seekTo fd (f.pos + (((w.data f.inode).drop f.pos).take m).length)) ∨
    mayFail (.read fd n) ∧ (∃ e, r = .error e) ∧ w' = w := by
  obtain ⟨k, hk⟩ | ⟨hmay, hfault | ⟨m, hm, hpos, hk⟩⟩ := h
  · simp only [succeed, hf] at hk
    cases hk
    exact .inl ⟨n, Nat.le_refl n, .inl rfl, rfl, rfl⟩
  · exact .inr ⟨hmay, hfault⟩
  · simp only [succeed, hf] at hk
    cases hk
    exact .inl ⟨m, hm, .inr ⟨hpos, hmay⟩, rfl, rfl⟩

/-- `read_exact` returns as many bytes as it is after; it fails on a fault and at the end of the
file. -/
lemma FsStep.readExact_inv {n : ℕ} {r : Except IoError (List UInt8)} (hf : w.files fd = some f)
    (h : FsStep mayFail (.readExact fd n) w r w') :
    ((((w.data f.inode).drop f.pos).take n).length = n ∧
      r = .ok (((w.data f.inode).drop f.pos).take n) ∧ w' = w.seekTo fd (f.pos + n)) ∨
    ∃ e, (mayFail (.readExact fd n) ∨
        (((w.data f.inode).drop f.pos).take n).length < n ∧ e = shortRead) ∧ r = .error e ∧
      ∃ pos, w' = w.seekTo fd pos := by
  obtain ⟨k, hk⟩ | ⟨hmay, ⟨e, hr⟩, m, hm, hk⟩ := h
  · simp only [succeed, hf] at hk
    have hle : (((w.data f.inode).drop f.pos).take n).length ≤ n := by
      rw [List.length_take]
      exact Nat.min_le_left _ _
    by_cases hshort : (((w.data f.inode).drop f.pos).take n).length < n
    · rw [if_pos hshort] at hk
      cases hk
      exact .inr ⟨_, .inr ⟨hshort, rfl⟩, rfl, _, rfl⟩
    · have hall : (((w.data f.inode).drop f.pos).take n).length = n := by omega
      rw [if_neg hshort, hall] at hk
      cases hk
      exact .inl ⟨hall, rfl, rfl⟩
  · simp only [succeed, hf] at hk
    exact .inr ⟨e, .inl hmay, hr, _, hk⟩

/-- A write appends a part of its bytes where the handle stands, and only a fault makes it write
less than all of them. -/
lemma FsStep.write_inv {bs : List UInt8} {r : Except IoError ℕ} (hf : w.files fd = some f)
    (hwritable : f.writable = true) (h : FsStep mayFail (.write fd bs) w r w') :
    (∃ m ≤ bs.length, (m = bs.length ∨ 0 < m ∧ mayFail (.write fd bs)) ∧
      f.pos + m ≤ maxFileLength ∧ r = .ok m ∧ w' = w.put fd f (bs.take m)) ∨
    ∃ e, (mayFail (.write fd bs) ∨
        maxFileLength < f.pos + bs.length ∧ e = fileTooLarge) ∧ r = .error e ∧ w' = w := by
  obtain ⟨k, hk⟩ | ⟨hmay, ⟨⟨e, hr⟩, hw⟩ | ⟨m, hm, hpos, hk⟩⟩ := h
  · simp only [succeed, hf, hwritable, not_true_eq_false, if_false] at hk
    split_ifs at hk with hlarge
    · cases hk
      exact .inr ⟨_, .inr ⟨hlarge, rfl⟩, rfl, rfl⟩
    · cases hk
      refine .inl ⟨bs.length, Nat.le_refl _, .inl rfl, Nat.not_lt.mp hlarge, rfl, ?_⟩
      rw [List.take_length]
  · exact .inr ⟨e, .inl hmay, hr, hw⟩
  · have hlen : (bs.take m).length = m := by
      rw [List.length_take]
      omega
    simp only [succeed, hf, hwritable, not_true_eq_false, if_false] at hk
    split_ifs at hk with hlarge
    · cases hk
      exact .inr ⟨_, .inl hmay, rfl, rfl⟩
    · cases hk
      rw [hlen] at hlarge
      refine .inl ⟨m, hm, .inr ⟨hpos, hmay⟩, Nat.not_lt.mp hlarge, ?_, rfl⟩
      rw [hlen]

lemma FsStep.writeAll_inv {bs : List UInt8} {r : Except IoError Unit} (hf : w.files fd = some f)
    (hwritable : f.writable = true) (h : FsStep mayFail (.writeAll fd bs) w r w') :
    (f.pos + bs.length ≤ maxFileLength ∧ r = .ok () ∧ w' = w.put fd f bs) ∨
    ∃ e, (mayFail (.writeAll fd bs) ∨
        maxFileLength < f.pos + bs.length ∧ e = fileTooLarge) ∧ r = .error e ∧
      (w' = w ∨ ∃ m ≤ bs.length, f.pos + m ≤ maxFileLength ∧ w' = w.put fd f (bs.take m)) := by
  obtain ⟨k, hk⟩ | ⟨hmay, ⟨e, hr⟩, m, hm, hk⟩ := h
  · simp only [succeed, hf, hwritable, not_true_eq_false, if_false] at hk
    split_ifs at hk with hlarge
    · cases hk
      exact .inr ⟨_, .inr ⟨hlarge, rfl⟩, rfl, .inl rfl⟩
    · cases hk
      exact .inl ⟨Nat.not_lt.mp hlarge, rfl, rfl⟩
  · have hlen : (bs.take m).length = m := List.length_take_of_le hm
    simp only [succeed, hf, hwritable, not_true_eq_false, if_false] at hk
    split_ifs at hk with hlarge
    · exact .inr ⟨e, .inl hmay, hr, .inl hk⟩
    · rw [hlen] at hlarge
      exact .inr ⟨e, .inl hmay, hr, .inr ⟨m, hm, Nat.not_lt.mp hlarge, hk⟩⟩

lemma FsStep.flush_inv {r : Except IoError Unit} (h : FsStep mayFail (.flush fd) w r w') :
    w' = w ∧ (r = .ok () ∨ mayFail (.flush fd) ∧ ∃ e, r = .error e) := by
  obtain ⟨k, hk⟩ | ⟨hmay, hfault⟩ := h
  · cases hk
    exact ⟨rfl, .inl rfl⟩
  · exact ⟨hfault.2, .inr ⟨hmay, hfault.1⟩⟩

lemma FsStep.syncAll_inv {r : Except IoError Unit} (hf : w.files fd = some f)
    (h : FsStep mayFail (.syncAll fd) w r w') :
    (r = .ok () ∧ w' = w.setInode f.inode ⟨w.data f.inode, true⟩) ∨
    mayFail (.syncAll fd) ∧ (∃ e, r = .error e) ∧ w' = w := by
  obtain ⟨k, hk⟩ | ⟨hmay, hfault⟩ := h
  · simp only [succeed, hf] at hk
    cases hk
    exact .inl ⟨rfl, rfl⟩
  · exact .inr ⟨hmay, hfault⟩

lemma FsStep.tryClone_inv {r : Except IoError Fd} (hf : w.files fd = some f)
    (h : FsStep mayFail (.tryClone fd) w r w') :
    w' = w ∧ (r = .ok fd ∨ mayFail (.tryClone fd) ∧ ∃ e, r = .error e) := by
  obtain ⟨k, hk⟩ | ⟨hmay, hfault⟩ := h
  · simp only [succeed, hf] at hk
    cases hk
    exact ⟨rfl, .inl rfl⟩
  · exact ⟨hfault.2, .inr ⟨hmay, hfault.1⟩⟩

lemma FsStep.rename_inv {src dst : Path} {i : ℕ} {r : Except IoError Unit}
    (hsrc : w.dir src = some i)
    (h : FsStep mayFail (.rename src dst) w r w') :
    (r = .ok () ∧ w' = w.move src dst) ∨
    mayFail (.rename src dst) ∧ (∃ e, r = .error e) ∧ w' = w := by
  obtain ⟨k, hk⟩ | ⟨hmay, hfault⟩ := h
  · simp only [succeed, hsrc] at hk
    cases hk
    exact .inl ⟨rfl, rfl⟩
  · exact .inr ⟨hmay, hfault⟩

lemma FsStep.removeFile_inv {path : Path} {i : ℕ} {r : Except IoError Unit}
    (hdir : w.dir path = some i) (h : FsStep mayFail (.removeFile path) w r w') :
    (r = .ok () ∧ w' = w.unlink path) ∨
    mayFail (.removeFile path) ∧ (∃ e, r = .error e) ∧ w' = w := by
  obtain ⟨k, hk⟩ | ⟨hmay, hfault⟩ := h
  · simp only [succeed, hdir] at hk
    cases hk
    exact .inl ⟨rfl, rfl⟩
  · exact .inr ⟨hmay, hfault⟩

lemma FsStep.openDir_inv {parent : List Char} {r : Except IoError Unit}
    (h : FsStep mayFail (.openDir parent) w r w') : w' = w := by
  obtain ⟨k, hk⟩ | ⟨_, hfault⟩ := h
  · cases hk
    rfl
  · exact hfault.2

lemma FsStep.syncDir_inv {parent : List Char} {r : Except IoError Unit}
    (h : FsStep mayFail (.syncDir parent) w r w') : w' = w := by
  obtain ⟨k, hk⟩ | ⟨_, hfault⟩ := h
  · cases hk
    rfl
  · exact hfault.2

end inversion

end TuxEncoding
