import TuxEncoding.Fs.Session

/-!
# The recorded length of the content

A finished session compares the whole stored length with the bytes that were fed into it alone, and
records the latter when the two differ.

* `recorded_length_iff`: the length that a published object records is the number of plain bytes
  exactly when its sessions and raw writes are in `LengthsAgree`.
* `recorded_length_after_raw_write`: a raw write followed by a session records too little.
-/

namespace TuxEncoding

open Interaction Program

set_option linter.unusedSectionVars false

/-! ## Lengths -/

/-- What a session or a raw write has contributed. -/
structure Piece where
  session : Bool
  /-- how many bytes the caller has fed in -/
  plain : ℕ
  /-- how many bytes have been stored for them -/
  stored : ℕ

namespace Piece

/-- The plain length as a session counts it. -/
def counted (piece : Piece) : ℕ := piece.plain % 2 ^ 64

/-- Every session has counted as much as has been stored up to its end; `n` bytes are there
already. -/
def SessionsEqual : ℕ → List Piece → Prop
  | _, [] => True
  | n, piece :: pieces => (piece.session = true → n + piece.stored = piece.counted) ∧
      SessionsEqual (n + piece.stored) pieces

/-- The last session that has counted something else than has been stored up to its end has counted
`length`. -/
def LastUnequal (length : ℕ) : ℕ → List Piece → Prop
  | _, [] => False
  | n, piece :: pieces => (piece.session = true ∧ n + piece.stored ≠ piece.counted ∧
      piece.counted = length ∧ SessionsEqual (n + piece.stored) pieces) ∨
      LastUnequal length (n + piece.stored) pieces

/-- What is stored tells how much was fed in: the last session whose length is not the stored length
was fed everything, or there is no such session and as much was stored as was fed in. -/
def LengthsAgree (pieces : List Piece) : Prop :=
  LastUnequal (pieces.map plain).sum 0 pieces ∨
    SessionsEqual 0 pieces ∧ (pieces.map stored).sum = (pieces.map plain).sum

/-- The length that the metadata records after the pieces, if any. -/
def recorded : ℕ → Option UInt64 → List Piece → Option UInt64
  | _, record, [] => record
  | n, record, piece :: pieces =>
      recorded (n + piece.stored)
        (if piece.session = true ∧ UInt64.ofNat (n + piece.stored) ≠ UInt64.ofNat piece.plain then
          some (UInt64.ofNat piece.plain)
        else record) pieces

lemma ofNat_eq_iff {n : ℕ} (hn : n < 2 ^ 64) (piece : Piece) :
    UInt64.ofNat n = UInt64.ofNat piece.plain ↔ n = piece.counted := by
  rw [← UInt64.toNat_inj, UInt64.toNat_ofNat', UInt64.toNat_ofNat', counted,
    Nat.mod_eq_of_lt (a := n) hn]

lemma SessionsEqual.not_lastUnequal {n : ℕ} {pieces : List Piece} (h : SessionsEqual n pieces)
    (length : ℕ) : ¬ LastUnequal length n pieces := by
  induction pieces generalizing n with
  | nil => exact id
  | cons piece pieces ih =>
      rintro (⟨hsession, hne, _⟩ | hrest)
      · exact hne (h.1 hsession)
      · exact ih h.2 hrest

/-- The record is that of the last unequal session, if there is one. -/
lemma recorded_cases (n : ℕ) (record : Option UInt64) (pieces : List Piece)
    (hsum : n + (pieces.map stored).sum < 2 ^ 64) :
    (SessionsEqual n pieces ∧ recorded n record pieces = record) ∨
      ∃ length : UInt64, recorded n record pieces = some length ∧
        ¬ SessionsEqual n pieces ∧ ∀ l, LastUnequal l n pieces ↔ length.toNat = l := by
  induction pieces generalizing n record with
  | nil => exact .inl ⟨trivial, rfl⟩
  | cons piece pieces ih =>
      rw [List.map_cons, List.sum_cons, ← Nat.add_assoc] at hsum
      have hlt : n + piece.stored < 2 ^ 64 := Nat.lt_of_le_of_lt (Nat.le_add_right _ _) hsum
      unfold recorded
      simp only [ne_eq, ofNat_eq_iff hlt]
      by_cases hunequal : piece.session = true ∧ n + piece.stored ≠ piece.counted
      · have hnot : ¬ SessionsEqual n (piece :: pieces) := fun h => hunequal.2 (h.1 hunequal.1)
        rw [if_pos hunequal]
        rcases ih (n + piece.stored) (some (UInt64.ofNat piece.plain)) hsum with
          ⟨hequal, hrecorded⟩ | ⟨length, hrecorded, hrest, hlast⟩
        · refine .inr ⟨_, hrecorded, hnot, fun l => ?_⟩
          rw [UInt64.toNat_ofNat', ← counted]
          refine ⟨?_, fun hl => .inl ⟨hunequal.1, hunequal.2, hl, hequal⟩⟩
          rintro (⟨_, _, hl, _⟩ | hlater)
          · exact hl
          · exact absurd hlater (hequal.not_lastUnequal l)
        · refine .inr ⟨length, hrecorded, hnot, fun l => ?_⟩
          rw [← hlast l]
          exact ⟨fun h => h.resolve_left fun hhere => hrest hhere.2.2.2, .inr⟩
      · rw [if_neg hunequal]
        rcases ih (n + piece.stored) record hsum with
          ⟨hequal, hrecorded⟩ | ⟨length, hrecorded, hrest, hlast⟩
        · refine .inl ⟨⟨fun hsession => ?_, hequal⟩, hrecorded⟩
          by_contra hne
          exact hunequal ⟨hsession, hne⟩
        · refine .inr ⟨length, hrecorded, fun h => hrest h.2, fun l => ?_⟩
          rw [← hlast l]
          exact ⟨fun h => h.resolve_left fun hhere => hunequal ⟨hhere.1, hhere.2.1⟩, .inr⟩

end Piece

section

variable [Platform] [Codecs]

/-! ## Operations as pieces -/

/-- What an operation contributes, given its result. -/
def Op.piece (compression : CompressionTypes) : Op → OpResult → Piece
  | .write _, .ok n => ⟨false, n.toNat, n.toNat⟩
  | .encode feeds _, .ok _ =>
      match ContentEncoder.new compression with
      | .ok encoder => ⟨true, encoder.plain feeds, (encoder.output feeds).length⟩
      | .error _ => ⟨false, 0, 0⟩
  | _, _ => ⟨false, 0, 0⟩

/-- The contributions of operations, one after the other. -/
def pieces (compression : CompressionTypes) (ops : List Op) (results : List OpResult) :
    List Piece := List.zipWith (Op.piece compression) ops results

/-- A raw write, accepted or not, or a session that was finished. -/
def Op.Contributes : Op → OpResult → Prop
  | .write _, _ | .flush, _ => True
  | .edit _, _ => False
  | .encode _ finished, r => finished = true ∧ ∃ n, r = .ok n

/-- The plain length that a reader takes from an object: the recorded one, or else the length of
what is stored. -/
def TuxObject.recordedLength (object : TuxObject) : Option ℕ :=
  match object.metadata.get uncompressedLengthKey with
  | some (.u64 length) => some length.toNat
  | some _ => none
  | none => some object.header.contentLength.toNat

variable {ops : List Op} {op : Op} {draft draft' : Draft} {results : List OpResult} {r : OpResult}

/-- One operation counts what its piece says and leaves the record that `Piece.recorded` says. -/
lemma Op.Effect.piece (h : op.Effect NoFaults draft r draft') (hop : op.Contributes r)
    {record : Option UInt64}
    (hrecord : draft.metadata.get uncompressedLengthKey = record.map .u64) :
    draft'.compression = draft.compression ∧
      draft'.counted = draft.counted + (op.piece draft.compression r).stored ∧
      draft'.metadata.get uncompressedLengthKey = (Piece.recorded draft.counted record
        [op.piece draft.compression r]).map .u64 := by
  cases op with
  | write buf =>
      have htaken : ∀ m, m ≤ maxFileLength → (UInt64.ofNat m).toNat = m := by
        intro m hm
        unfold maxFileLength at hm
        rw [UInt64.toNat_ofNat', Nat.mod_eq_of_lt (by omega)]
      rcases h.write_cases with ⟨_, hwrite⟩ | ⟨_, hwrite⟩
      · obtain ⟨_, rfl, rfl⟩ | ⟨_, ⟨m, hm, hmax, _, rfl, rfl⟩ | ⟨e, _, rfl, rfl⟩⟩ := hwrite
        · exact ⟨rfl, rfl, hrecord⟩
        · refine ⟨rfl, ?_, hrecord⟩
          show draft.counted + (buf.take m).length = draft.counted + (UInt64.ofNat m).toNat
          rw [htaken m hmax, List.length_take_of_le hm]
        · exact ⟨rfl, rfl, hrecord⟩
      · obtain ⟨e, _, rfl, rfl⟩ | ⟨_, rfl, hstored⟩ := hwrite
        · exact ⟨rfl, rfl, hrecord⟩
        have hle : (buf.take maxBufSize).length ≤ maxFileLength :=
          Nat.le_trans (List.length_take_le _ _) (by decide)
        have hcounted : draft.counted + (buf.take maxBufSize).length = draft.counted +
            ((Op.write buf).piece draft.compression
              (.ok (UInt64.ofNat (buf.take maxBufSize).length))).stored :=
          congrArg (draft.counted + ·) (htaken _ hle).symm
        obtain rfl | ⟨e, k, _, rfl⟩ := hstored <;> exact ⟨rfl, hcounted, hrecord⟩
  | flush =>
      obtain rfl | ⟨_, e, _, rfl, rfl⟩ := h.flush_cases
      · cases r <;> exact ⟨rfl, rfl, hrecord⟩
      · exact ⟨rfl, rfl, hrecord⟩
  | edit f => exact hop.elim
  | encode feeds finished =>
      obtain ⟨rfl, n, rfl⟩ := hop
      simp only [Op.Effect] at h
      unfold Op.piece
      cases hnew : ContentEncoder.new draft.compression with
      | error e =>
          rw [hnew] at h
          cases h.1
      | ok encoder =>
          rw [hnew] at h
          obtain ⟨bs, _, rfl, hbs⟩ := h
          obtain ⟨rfl, rfl⟩ := hbs not_exists_noFaults
          rw [(ContentEncoder.new_eq_ok hnew).1, UInt64.zero_add]
          refine ⟨by simp, by simp, ?_⟩
          unfold Draft.record
          simp only [Draft.append_counted, Draft.openRawWrites_counted, Piece.recorded, true_and]
          split_ifs
          · exact AList.lookup_insert _
          · exact hrecord

/-- So do operations one after the other. -/
lemma Effects.pieces (h : Effects NoFaults ops draft results draft')
    (hops : List.Forall₂ Op.Contributes ops results) {record : Option UInt64}
    (hrecord : draft.metadata.get uncompressedLengthKey = record.map .u64) :
    draft'.counted = draft.counted +
        ((pieces draft.compression ops results).map Piece.stored).sum ∧
      draft'.metadata.get uncompressedLengthKey = (Piece.recorded draft.counted record
        (pieces draft.compression ops results)).map .u64 := by
  induction hops generalizing draft record with
  | nil =>
      obtain ⟨_, rfl⟩ := h
      exact ⟨rfl, hrecord⟩
  | cons hop _ ih =>
      obtain ⟨_, _, draft₁, heq, heffect, hrest⟩ := h
      cases heq
      obtain ⟨hcompression, hlength, hrecord₁⟩ := heffect.piece hop hrecord
      obtain ⟨hlength', hrecord'⟩ := ih hrest hrecord₁
      rw [hcompression, hlength] at hlength' hrecord'
      refine ⟨?_, hrecord'⟩
      exact hlength'.trans (Nat.add_assoc _ _ _)

/-- The length that an object records is the number of bytes that were fed in, exactly when the
lengths of its sessions and raw writes agree. A write that the tokio writer has taken may still
fail, if the file becomes too large. -/
theorem recorded_length_iff {flavor : Flavor} {path : Path} {options : CreateOptions}
    {ops : List Op} {ending : Ending} {outcome : Outcome} {object : TuxObject} {w w' : World}
    (hkey : options.metadata.get uncompressedLengthKey = none)
    (hrun : Ends (FsStep NoFaults) (life flavor path options ops ending).run w (.ok outcome) w')
    (hops : List.Forall₂ Op.Contributes ops outcome.1)
    (hobject : outcome.2 = .ok (some object))
    (hwritten : flavor = .tokio → NoneTooLarge outcome.1) :
    object.recordedLength =
        some ((pieces options.compression ops outcome.1).map Piece.plain).sum ↔
      Piece.LengthsAgree (pieces options.compression ops outcome.1) := by
  obtain ⟨draft, layout, heffects, hwhole, _, hobject⟩ :=
    life_publishes hrun hobject (NoneTooLarge.unreported hwritten)
  obtain ⟨hlength, hrecord⟩ := heffects.pieces hops
    (show _ = Option.map ValueType.u64 none from hkey)
  have hstored : draft.content.length =
      ((pieces options.compression ops outcome.1).map Piece.stored).sum :=
    hwhole.symm.trans (hlength.trans (Nat.zero_add _))
  replace hrecord : object.metadata.get uncompressedLengthKey = (Piece.recorded 0 none
      (pieces options.compression ops outcome.1)).map .u64 := hobject.metadata_eq ▸ hrecord
  have hheader : object.header.contentLength.toNat = draft.content.length := by
    rw [hobject.header_eq]
    exact hobject.image.contentLength_toNat
  have hlt := hobject.image.length_lt
  unfold TuxObject.recordedLength Piece.LengthsAgree
  rw [hrecord]
  rcases Piece.recorded_cases 0 none (pieces options.compression ops outcome.1) (by omega) with
    ⟨hequal, hnone⟩ | ⟨length, hsome, hunequal, hlast⟩
  · rw [hnone, Option.map_none, hheader, hstored]
    simp only [Option.some.injEq, hequal, hequal.not_lastUnequal, true_and, false_or]
  · rw [hsome, Option.map_some]
    simp only [Option.some.injEq, hunequal, hlast, false_and, or_false]

end

attribute [local instance] fullPlatform pairCodecs

/-- A compressed session alone is recorded with its length. -/
theorem recorded_length_iff_session :
    ∃ outcome object w', Ends (FsStep NoFaults) (life .blocking World.somePath
      { CreateOptions.default with compression := .zstd 3 } [.encode [.write [1, 1, 2]] true]
      .finish).run World.empty (.ok outcome) w' ∧ outcome.2 = .ok (some object) ∧
      object.recordedLength = some 3 := by
  obtain ⟨⟨results, _ | _ | object⟩, w, hresults, hrun⟩ := exec_ends_map (fsStep_perform NoFaults)
    (p := (life .blocking World.somePath { CreateOptions.default with compression := .zstd 3 }
      [.encode [.write [1, 1, 2]] true] .finish).run) (s := World.empty)
    (f := fun outcome => (outcome.1, outcome.2.toOption.join.isSome)) (b := ([.ok 3], true))
    (by decide +kernel)
  · cases hresults
  · cases hresults
  · obtain rfl : results = [.ok 3] := congrArg Prod.fst hresults
    refine ⟨_, object, _, hrun, rfl, ?_⟩
    refine (recorded_length_iff rfl hrun (.cons ⟨rfl, 3, rfl⟩ .nil) rfl
      fun htokio => by cases htokio).mpr ?_
    show Piece.LengthsAgree (pieces (.zstd 3) [.encode [.write [1, 1, 2]] true] [.ok 3])
    exact .inl (.inl ⟨rfl, by decide +kernel, by decide +kernel, trivial⟩)

/-- Of three bytes written as they are and two that go through an encoder, two are recorded. -/
theorem recorded_length_after_raw_write :
    ¬ ∀ (flavor : Flavor) (path : Path) (options : CreateOptions) (ops : List Op) (ending : Ending)
      (outcome : Outcome) (object : TuxObject) (w w' : World),
      options.metadata.get uncompressedLengthKey = none →
      Ends (FsStep NoFaults) (life flavor path options ops ending).run w (.ok outcome) w' →
      List.Forall₂ Op.Contributes ops outcome.1 → outcome.2 = .ok (some object) →
      object.recordedLength =
        some ((pieces options.compression ops outcome.1).map Piece.plain).sum := by
  intro h
  obtain ⟨⟨results, _ | _ | object⟩, w, hresults, hrun⟩ := exec_ends_map (fsStep_perform NoFaults)
    (p := (life .blocking World.somePath .default
      [.write [1, 2, 3], .encode [.write [4, 5]] true] .finish).run) (s := World.empty)
    (f := fun outcome => (outcome.1, outcome.2.toOption.bind fun object =>
      object.bind TuxObject.recordedLength)) (b := ([.ok 3, .ok 2], some 2))
    (by decide +kernel)
  · cases hresults
  · cases hresults
  · obtain rfl : results = [.ok 3, .ok 2] := congrArg Prod.fst hresults
    have hrecorded : object.recordedLength = some 2 := congrArg Prod.snd hresults
    have htotal := h _ _ _ _ _ _ object _ _ rfl hrun (.cons trivial (.cons ⟨rfl, 2, rfl⟩ .nil)) rfl
    have hfive : ((pieces .none [.write [1, 2, 3], .encode [.write [4, 5]] true]
        [.ok 3, .ok 2]).map Piece.plain).sum = 5 := by decide +kernel
    rw [hrecorded] at htotal
    cases htotal.trans (congrArg some hfive)

end TuxEncoding
