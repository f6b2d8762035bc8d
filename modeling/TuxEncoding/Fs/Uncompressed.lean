import TuxEncoding.Fs.Contract

/-!
# A file system without compressed objects

* `DeclaresNone` says of the bytes of a file that no header which can be read off them declares a
  codec, and `Uncompressed` says so of every file that has a path.
* `Careful` is a contract that keeps it so: an operation uses its own handle and new ones, and
  writes either behind the header or a whole prefix that declares no codec.
* `careful_step`: every call under this contract keeps the file system uncompressed and, as `Kept`
  says, the handles of the others and the room for headers.
-/

namespace TuxEncoding

open Bytes Interaction Program

set_option linter.unusedSectionVars false

/-! ## Headers without a codec -/

/-- A header that is read is one of the current version. -/
lemma ObjectHeader.version_eq {content : List UInt8} {header : ObjectHeader}
    (h : readFromBytes content = .ok header) : header.version = currentVersion := by
  unfold readFromBytes at h
  split_ifs at h with hlength
  · cases h
  · cases hentry : headerEntry (slice content 0 4) with
    | error e =>
        rw [hentry] at h
        cases h
    | ok version =>
        rw [hentry, ok_bind] at h
        dsimp only at h
        split_ifs at h with hversion
        · cases h
        · cases htype : CompressionTypes.tryFrom (slice content 4 9) with
          | error e =>
              rw [htype] at h
              cases h
          | ok compression =>
              rw [htype, ok_bind] at h
              cases h
              exact not_not.mp hversion

/-- A header at the start of these bytes declares that the content is stored as it is. -/
def DeclaresNone (data : List UInt8) : Prop :=
  ∀ {header}, ObjectHeader.readFromBytes (data.take headerSize) = .ok header →
    header.compressionType = .none

/-- Every file that has a path is uncompressed, if it is an object. -/
def Uncompressed (w : World) : Prop := ∀ {path i}, w.dir path = some i → DeclaresNone (w.data i)

lemma DeclaresNone.of_take_eq {data data' : List UInt8} (h : DeclaresNone data)
    (htake : data'.take headerSize = data.take headerSize) : DeclaresNone data' := by
  intro header hread
  rw [htake] at hread
  exact h hread

/-- Zeros are no header. -/
lemma declaresNone_of_zeros {data : List UInt8}
    (h : data.take headerSize = List.replicate headerSize 0) : DeclaresNone data := by
  intro header hread
  rw [h] at hread
  cases hread

lemma declaresNone_nil : DeclaresNone [] := by
  intro header hread
  cases hread

/-- A file that holds nothing, or more than a header. -/
def HasRoom (data : List UInt8) : Prop := data = [] ∨ headerSize ≤ data.length

/-- A write at `pos` that leaves a file uncompressed. -/
def Harmless (data : List UInt8) (pos : ℕ) (bs : List UInt8) : Prop :=
  headerSize ≤ pos ∧ HasRoom data ∨ pos = 0 ∧ headerSize ≤ bs.length ∧ DeclaresNone bs

lemma Harmless.declaresNone {data bs : List UInt8} {pos : ℕ} (h : Harmless data pos bs)
    (hdata : DeclaresNone data) : DeclaresNone (overwrite 0 data pos bs) := by
  rcases eq_or_ne bs [] with rfl | hbs
  · rwa [overwrite_nil]
  rw [overwrite_of_ne_nil 0 data pos hbs]
  rcases h with ⟨hpos, rfl | hlength⟩ | ⟨rfl, hlength, hnone⟩
  · refine declaresNone_of_zeros ?_
    rw [List.take_nil, List.nil_append, List.length_nil, Nat.sub_zero, List.append_assoc,
      List.take_append_of_le_length (by simpa using hpos), List.take_replicate,
      Nat.min_eq_left hpos]
  · refine hdata.of_take_eq ?_
    have htake : headerSize ≤ (data.take pos).length := by
      rw [List.length_take]
      omega
    rw [List.append_assoc, List.append_assoc, List.take_append_of_le_length htake, List.take_take,
      Nat.min_eq_left hpos]
  · refine hnone.of_take_eq ?_
    simp only [List.take_zero, Nat.zero_sub, List.replicate_zero, List.nil_append]
    exact List.take_append_of_le_length hlength

/-- No write takes away the room for a header, if it is harmless. -/
lemma Harmless.hasRoom {data bs : List UInt8} {pos : ℕ} (h : Harmless data pos bs)
    (hdata : HasRoom data) : HasRoom (overwrite 0 data pos bs) := by
  rcases eq_or_ne bs [] with rfl | hbs
  · rwa [overwrite_nil]
  refine .inr ?_
  rw [length_overwrite 0 data pos hbs]
  rcases h with ⟨hpos, _⟩ | ⟨rfl, hlength, _⟩
  · omega
  · omega

/-! ## The contract -/

/-- The handles of an operation: the one it works on, and those from `n` on. -/
def Mine (own : Option Fd) (n : ℕ) (fd : Fd) : Prop := own = some fd ∨ n ≤ fd

/-- The calls of an operation that keeps a file system uncompressed. -/
def Careful (own : Option Fd) (n : ℕ) : FsCall → World → Prop
  | .seek fd _, _ | .read fd _, _ | .readExact fd _, _ => Mine own n fd
  | .write fd bs, w | .writeAll fd bs, w =>
      Mine own n fd ∧ ∀ f, w.files fd = some f → Harmless (w.data f.inode) f.pos bs
  | _, _ => True

/-- What such an operation leaves as it was. -/
structure Kept (own : Option Fd) (n : ℕ) (w w' : World) : Prop where
  next_le : w.next ≤ w'.next
  files : ∀ {fd}, ¬ Mine own n fd → w'.files fd = w.files fd
  hasRoom : ∀ {i}, i < n → HasRoom (w.data i) → HasRoom (w'.data i)

namespace Kept

variable {own : Option Fd} {n : ℕ} {w w₁ w₂ : World}

lemma refl (own : Option Fd) (n : ℕ) (w : World) : Kept own n w w :=
  ⟨Nat.le_refl _, fun _ => rfl, fun _ h => h⟩

lemma trans (h₁ : Kept own n w w₁) (h₂ : Kept own n w₁ w₂) : Kept own n w w₂ where
  next_le := Nat.le_trans h₁.next_le h₂.next_le
  files hfd := (h₂.files hfd).trans (h₁.files hfd)
  hasRoom hi h := h₂.hasRoom hi (h₁.hasRoom hi h)

lemma seekTo {fd : Fd} (hfd : Mine own n fd) (pos : ℕ) : Kept own n w (w.seekTo fd pos) where
  next_le := Nat.le_refl _
  files {fd'} hother := World.seekTo_files_of_ne (fun heq : fd' = fd => hother (heq.symm ▸ hfd)) pos
  hasRoom _ h := h

lemma put {fd : Fd} {f : OpenFile} {bs : List UInt8} (hfd : Mine own n fd)
    (hbs : Harmless (w.data f.inode) f.pos bs) : Kept own n w (w.put fd f bs) where
  next_le := Nat.le_refl _
  files {fd'} hother := World.put_files_of_ne (fun heq : fd' = fd => hother (heq.symm ▸ hfd)) f bs
  hasRoom {i} _ h := by
    rcases eq_or_ne i f.inode with rfl | hi
    · rw [World.put_data_self]
      exact hbs.hasRoom h
    · rwa [World.data, World.put_inodes_of_ne fd hi]

/-- Only numbers from `n` on are given out. -/
lemma of_new {k : ℕ} (hnext : w.next ≤ w₁.next) (hk : n ≤ k)
    (hfiles : ∀ {fd}, fd ≠ k → w₁.files fd = w.files fd)
    (hinodes : ∀ {i}, i ≠ k → w₁.inodes i = w.inodes i) : Kept own n w w₁ where
  next_le := hnext
  files {fd} hfd := hfiles fun heq => hfd (.inr (heq ▸ hk))
  hasRoom {i} hi h := by
    rwa [World.data, hinodes (by omega)]

end Kept

variable {own : Option Fd} {n : ℕ} {w w' : World}

/-- A careful write keeps the file system uncompressed. -/
lemma Uncompressed.put {fd : Fd} {f : OpenFile} {bs : List UInt8} (hu : Uncompressed w)
    (hbs : Harmless (w.data f.inode) f.pos bs) : Uncompressed (w.put fd f bs) := by
  intro path i hdir
  rw [World.put_dir] at hdir
  rcases eq_or_ne i f.inode with rfl | hi
  · rw [World.put_data_self]
    exact hbs.declaresNone (hu hdir)
  · rw [World.data, World.put_inodes_of_ne fd hi]
    exact hu hdir

/-- A new file is empty. -/
lemma Uncompressed.create {path : Path} {k : ℕ} {hk : w.next ≤ k} (hu : Uncompressed w) :
    Uncompressed (w.create path k hk) := by
  intro path' i hdir
  rcases eq_or_ne path' path with rfl | hpath
  · rw [World.create_dir_self] at hdir
    cases hdir
    rw [World.data, World.create_inodes_self]
    exact declaresNone_nil
  · rw [World.create_dir_of_ne hpath] at hdir
    rw [World.data, World.create_inodes_of_ne (World.ne_of_dir hdir hk)]
    exact hu hdir

/-- Moving an entry leads to no other file. -/
lemma Uncompressed.move {src dst : Path} (hu : Uncompressed w) : Uncompressed (w.move src dst) := by
  intro path i hdir
  rcases eq_or_ne path dst with rfl | hdst
  · rw [World.move_dir_dst] at hdir
    exact hu hdir
  · rcases eq_or_ne path src with rfl | hsrc
    · rw [World.move_dir_src hdst] at hdir
      cases hdir
    · rw [World.move_dir_of_ne hsrc hdst] at hdir
      exact hu hdir

lemma Uncompressed.unlink {path : Path} (hu : Uncompressed w) : Uncompressed (w.unlink path) := by
  intro path' i hdir
  rcases eq_or_ne path' path with rfl | hpath
  · rw [World.unlink_dir_self] at hdir
    cases hdir
  · rw [World.unlink_dir_of_ne hpath] at hdir
    exact hu hdir

/-- Syncing changes no byte. -/
lemma Uncompressed.sync {i : ℕ} (hu : Uncompressed w) :
    Uncompressed (w.setInode i ⟨w.data i, true⟩) ∧
      Kept own n w (w.setInode i ⟨w.data i, true⟩) := by
  have hdata : (w.setInode i ⟨w.data i, true⟩).data = w.data := by
    funext j
    rcases eq_or_ne j i with rfl | hj
    · simp [World.data]
    · simp [World.data, World.setInode_inodes_of_ne hj]
  refine ⟨fun hdir => ?_, Nat.le_refl _, fun _ => rfl, fun _ h => ?_⟩
  · rw [hdata]
    exact hu hdir
  · rwa [hdata]

/-- A careful call keeps the file system uncompressed, and what is not its own. -/
lemma careful_step {c : FsCall} {r : c.Reply} (hn : n ≤ w.next) (hmay : Careful own n c w)
    (h : FsStep NoFaults c w r w') (hu : Uncompressed w) : Uncompressed w' ∧ Kept own n w w' := by
  obtain ⟨k, hk⟩ := h.resolve_right fun hfault => hfault.1
  have hsame : Uncompressed w ∧ Kept own n w w := ⟨hu, Kept.refl own n w⟩
  cases c with
  | processId | flush | openDir | syncDir =>
      cases hk
      exact hsame
  | nextTempCounter =>
      cases hk
      exact ⟨hu, Nat.le_refl _, fun _ => rfl, fun _ h => h⟩
  | openFile path writable =>
      cases hdir : w.dir path with
      | none =>
          simp only [succeed, hdir] at hk
          cases hk
          exact hsame
      | some i =>
          simp only [succeed, hdir] at hk
          cases hk
          refine ⟨hu, Kept.of_new ?_ (le_trans hn (Nat.le_max_right k w.next)) ?_ fun _ => rfl⟩
          · exact Nat.le_succ_of_le (Nat.le_max_right _ _)
          · exact fun hfd => Function.update_of_ne hfd _ _
  | createNew path =>
      cases hdir : w.dir path with
      | some i =>
          simp only [succeed, hdir] at hk
          cases hk
          exact hsame
      | none =>
          simp only [succeed, hdir] at hk
          cases hk
          refine ⟨hu.create, Kept.of_new ?_ (le_trans hn (Nat.le_max_right k w.next)) ?_ ?_⟩
          · exact Nat.le_succ_of_le (Nat.le_max_right _ _)
          · exact fun hfd => World.create_files_of_ne hfd
          · exact fun hi => World.create_inodes_of_ne hi
  | seek fd pos =>
      cases hf : w.files fd with
      | none =>
          simp only [succeed, hf] at hk
          cases hk
          exact hsame
      | some f =>
          simp only [succeed, hf] at hk
          split_ifs at hk
          · cases hk
            exact hsame
          · cases hk
            exact ⟨hu, Kept.seekTo hmay pos⟩
  | read fd m | readExact fd m =>
      cases hf : w.files fd with
      | none =>
          simp only [succeed, hf] at hk
          cases hk
          exact hsame
      | some f =>
          simp only [succeed, hf] at hk
          cases hk
          exact ⟨hu, Kept.seekTo hmay _⟩
  | write fd bs | writeAll fd bs =>
      cases hf : w.files fd with
      | none =>
          simp only [succeed, hf] at hk
          cases hk
          exact hsame
      | some f =>
          have hbs := hmay.2 f hf
          simp only [succeed, hf] at hk
          split_ifs at hk with hwritable hlarge
          · cases hk
            exact hsame
          · cases hk
            exact ⟨hu.put hbs, Kept.put hmay.1 hbs⟩
          · cases hk
            exact hsame
  | syncAll fd =>
      cases hf : w.files fd with
      | none =>
          simp only [succeed, hf] at hk
          cases hk
          exact hsame
      | some f =>
          simp only [succeed, hf] at hk
          cases hk
          exact hu.sync
  | tryClone fd =>
      cases hf : w.files fd with
      | none | some f =>
          simp only [succeed, hf] at hk
          cases hk
          exact hsame
  | rename src dst =>
      cases hdir : w.dir src with
      | none =>
          simp only [succeed, hdir] at hk
          cases hk
          exact hsame
      | some i =>
          simp only [succeed, hdir] at hk
          cases hk
          exact ⟨hu.move, Nat.le_refl _, fun _ => rfl, fun _ h => h⟩
  | removeFile path =>
      cases hdir : w.dir path with
      | none =>
          simp only [succeed, hdir] at hk
          cases hk
          exact hsame
      | some i =>
          simp only [succeed, hdir] at hk
          cases hk
          exact ⟨hu.unlink, Nat.le_refl _, fun _ => rfl, fun _ h => h⟩

end TuxEncoding
