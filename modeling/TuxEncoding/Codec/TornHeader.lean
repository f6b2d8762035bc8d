import TuxEncoding.Codec.Acceptance

/-!
# Headers that are written over each other

What is read where a header has been written over another one, and the write has stopped halfway.

* `ObjectHeader.readFromBytes_iff` takes the reading of a header apart, field by field.
* `torn` is the beginning of one byte string over another; `slice_torn`: where the two agree, so
  does it.
* `ObjectHeader.fields_torn`: any part of a header over one that differs only in where the tags
  start is such a header again.
* `ObjectHeader.StandsIn` says so of the beginning of a file, and `StandsIn.overwrite` keeps it.
-/

namespace TuxEncoding

open Bytes

/-- The first `n` bytes of `new` over `old`. -/
def torn (n : ℕ) (new old : List UInt8) : List UInt8 := new.take n ++ old.drop n

lemma getElem?_torn {n : ℕ} {new old : List UInt8} (hn : n ≤ new.length) (k : ℕ) :
    (torn n new old)[k]? = if k < n then new[k]? else old[k]? := by
  have hlength : (new.take n).length = n := List.length_take_of_le hn
  unfold torn
  by_cases hk : k < n
  · rw [if_pos hk, List.getElem?_append_left (by omega), List.getElem?_take_of_lt hk]
  · rw [if_neg hk, List.getElem?_append_right (by omega), hlength, List.getElem?_drop,
      Nat.add_sub_cancel' (Nat.not_lt.mp hk)]

lemma length_torn {n : ℕ} {new old : List UInt8} (hn : n ≤ new.length)
    (h : new.length = old.length) : (torn n new old).length = old.length := by
  rw [torn, List.length_append, List.length_take_of_le hn, List.length_drop]
  omega

namespace CompressionTypes

variable {value : List UInt8} {compression : CompressionTypes}

/-- Only the first byte matters where there is no compression. -/
lemma tryFrom_eq_none_iff (hlength : value.length = 5) :
    tryFrom value = .ok .none ↔ value.headD 0 = 0 := by
  unfold tryFrom
  rw [if_neg (by omega)]
  constructor
  · intro h
    split at h
    · assumption
    all_goals cases h
  · intro h
    rw [h]
    rfl

/-- Any other compression type is spelled in one way. -/
lemma eq_wire_of_tryFrom (hlength : value.length = 5) (hnone : compression ≠ .none)
    (h : tryFrom value = .ok compression) : value = compression.wire := by
  obtain ⟨head, level, rfl⟩ := List.exists_cons_of_length_eq_add_one hlength
  have hlevel : level.length = 4 := Nat.succ.inj hlength
  unfold tryFrom at h
  rw [if_neg (by omega)] at h
  simp only [List.headD_cons, List.drop_succ_cons, List.drop_zero,
    List.take_of_length_le (Nat.le_of_eq hlevel)] at h
  split at h
  · cases h
    exact absurd rfl hnone
  · cases h
    exact congrArg (1 :: ·) (ExactNumber.toLeBytes_fromLeBytes (α := Int32) level hlevel).symm
  · cases h
    exact congrArg (2 :: ·) (ExactNumber.toLeBytes_fromLeBytes (α := UInt32) level hlevel).symm
  · cases h

end CompressionTypes

namespace ObjectHeader

variable {h : ObjectHeader} {content : List UInt8}

/-! ## Reading field by field -/

/-- What reading a header takes from each place. -/
structure Fields (h : ObjectHeader) (content : List UInt8) : Prop where
  magic : slice content 0 3 = magicValue
  version : content.getD 3 0 = h.version
  current : h.version = currentVersion
  compressionType : CompressionTypes.tryFrom (slice content 4 9) = .ok h.compressionType
  tagsStart : Number.fromLeBytes (slice content 9 11) = h.tagsStart
  contentStart : Number.fromLeBytes (slice content 11 15) = h.contentStart
  contentLength : Number.fromLeBytes (slice content 15 23) = h.contentLength
  bitFlags : content.getD 23 0 = h.bitFlags

/-- Thirty-two bytes are a header when each field of it is read at its place. -/
lemma readFromBytes_iff (hlength : 32 ≤ content.length) :
    readFromBytes content = .ok h ↔ h.Fields content := by
  have hshort : ¬ content.length < 32 := Nat.not_lt.mpr hlength
  have hmagic : slice (slice content 0 4) 0 3 = slice content 0 3 := by
    simp only [slice, List.drop_zero, List.take_take, Nat.min_eq_left (by decide : 3 ≤ 4)]
  have hversion : (slice content 0 4).getD 3 0 = content.getD 3 0 := by
    simp [slice, List.getD_eq_getElem?_getD]
  unfold readFromBytes headerEntry
  rw [if_neg hshort, hmagic, hversion]
  constructor
  · intro hread
    by_cases hmagic : slice content 0 3 = magicValue
    · rw [if_neg (not_not_intro hmagic)] at hread
      by_cases hcurrent : content.getD 3 0 = currentVersion
      · change (if content.getD 3 0 ≠ currentVersion then _ else _) = _ at hread
        rw [if_neg (not_not_intro hcurrent)] at hread
        cases hcompression : CompressionTypes.tryFrom (slice content 4 9) with
        | error e =>
            rw [hcompression] at hread
            cases hread
        | ok compression =>
            rw [hcompression] at hread
            cases hread
            exact ⟨hmagic, rfl, hcurrent, hcompression, rfl, rfl, rfl, rfl⟩
      · change (if content.getD 3 0 ≠ currentVersion then _ else _) = _ at hread
        rw [if_pos hcurrent] at hread
        cases hread
    · rw [if_pos hmagic] at hread
      cases hread
  · intro hfields
    rw [if_neg (not_not_intro hfields.magic)]
    change (if content.getD 3 0 ≠ currentVersion then _ else _) = _
    rw [if_neg (not_not_intro (hfields.version.trans hfields.current)), hfields.compressionType]
    show Except.ok (ObjectHeader.mk _ _ _ _ _ _) = _
    rw [hfields.version, hfields.tagsStart, hfields.contentStart, hfields.contentLength,
      hfields.bitFlags]

/-! ## One header over another -/

/-- The header with its tags somewhere else. -/
def retagged (h : ObjectHeader) (tagsStart : UInt16) : ObjectHeader :=
  { h with tagsStart := tagsStart }

section torn

variable {n : ℕ} {new old : List UInt8} {lo hi : ℕ}

lemma getElem?_slice (content : List UInt8) (k : ℕ) :
    (slice content lo hi)[k]? = if lo + k < hi then content[lo + k]? else none := by
  rw [slice, List.getElem?_drop, List.getElem?_take]

/-- Where both agree, it does not matter how far the one has come over the other. -/
lemma slice_torn (hn : n ≤ new.length) (heq : slice new lo hi = slice old lo hi) :
    slice (torn n new old) lo hi = slice old lo hi := by
  apply List.ext_getElem?
  intro k
  have hk := congrArg (fun bs => bs[k]?) heq
  simp only [getElem?_slice] at hk ⊢
  by_cases hlt : lo + k < hi
  · rw [if_pos hlt, if_pos hlt] at hk ⊢
    rw [getElem?_torn hn]
    split_ifs
    · exact hk
    · rfl
  · rw [if_neg hlt, if_neg hlt]

lemma getD_torn (hn : n ≤ new.length) {k : ℕ} (heq : new.getD k 0 = old.getD k 0) :
    (torn n new old).getD k 0 = old.getD k 0 := by
  rw [List.getD_eq_getElem?_getD, getElem?_torn hn]
  split_ifs
  · rw [← heq, List.getD_eq_getElem?_getD]
  · rw [List.getD_eq_getElem?_getD]

lemma length_slice_of_le {content : List UInt8} (h : hi ≤ content.length) :
    (slice content lo hi).length = hi - lo := by
  rw [slice, List.length_drop, List.length_take_of_le h]

lemma headD_slice (content : List UInt8) (h : lo < hi) :
    (slice content lo hi).headD 0 = content.getD lo 0 := by
  rw [List.headD_eq_head?_getD, List.head?_eq_getElem?, getElem?_slice, Nat.add_zero, if_pos h,
    List.getD_eq_getElem?_getD]

/-- Two spellings of one compression type, one of them over the other, are a third one. -/
lemma tryFrom_torn {compression : CompressionTypes} (hn : n ≤ new.length)
    (hlength : new.length = old.length) (hlong : 9 ≤ old.length)
    (hnew : CompressionTypes.tryFrom (slice new 4 9) = .ok compression)
    (hold : CompressionTypes.tryFrom (slice old 4 9) = .ok compression) :
    CompressionTypes.tryFrom (slice (torn n new old) 4 9) = .ok compression := by
  have hfive : (slice new 4 9).length = 5 := length_slice_of_le (by omega)
  have hfive' : (slice old 4 9).length = 5 := length_slice_of_le hlong
  by_cases hnone : compression = .none
  · subst hnone
    have htorn : (slice (torn n new old) 4 9).length = 5 :=
      length_slice_of_le (by rw [length_torn hn hlength]; exact hlong)
    rw [CompressionTypes.tryFrom_eq_none_iff hfive, headD_slice _ (by decide)] at hnew
    rw [CompressionTypes.tryFrom_eq_none_iff hfive', headD_slice _ (by decide)] at hold
    rw [CompressionTypes.tryFrom_eq_none_iff htorn, headD_slice _ (by decide),
      getD_torn hn (hnew.trans hold.symm), hold]
  · have heq : slice new 4 9 = slice old 4 9 :=
      (CompressionTypes.eq_wire_of_tryFrom hfive hnone hnew).trans
        (CompressionTypes.eq_wire_of_tryFrom hfive' hnone hold).symm
    rw [slice_torn hn heq, hold]

/-- Two spellings of one number are the same. -/
lemma eq_of_fromLeBytes {α : Type} [Number α] [ExactNumber α] {a b : List UInt8}
    (ha : a.length = Number.width α) (hb : b.length = Number.width α)
    (h : (Number.fromLeBytes a : α) = Number.fromLeBytes b) : a = b := by
  rw [← ExactNumber.toLeBytes_fromLeBytes (α := α) a ha,
    ← ExactNumber.toLeBytes_fromLeBytes (α := α) b hb, h]

/-- A header over another one that differs in where the tags start, however far it has come. -/
lemma fields_torn {x y : UInt16} (hn : n ≤ new.length) (hlength : new.length = old.length)
    (hlong : 32 ≤ old.length) (hnew : (h.retagged x).Fields new)
    (hold : (h.retagged y).Fields old) :
    (h.retagged (Number.fromLeBytes (slice (torn n new old) 9 11))).Fields (torn n new old) where
  magic := by rw [slice_torn hn (hnew.magic.trans hold.magic.symm), hold.magic]
  version := by
    rw [getD_torn hn (hnew.version.trans hold.version.symm), hold.version]
    rfl
  current := hold.current
  compressionType := tryFrom_torn hn hlength (by omega) hnew.compressionType hold.compressionType
  tagsStart := rfl
  contentStart := by
    have heq : slice new 11 15 = slice old 11 15 := by
      refine eq_of_fromLeBytes (α := UInt32) ?_ ?_ (hnew.contentStart.trans hold.contentStart.symm)
      · exact length_slice_of_le (by omega)
      · exact length_slice_of_le (by omega)
    rw [slice_torn hn heq, hold.contentStart]
    rfl
  contentLength := by
    have heq : slice new 15 23 = slice old 15 23 := by
      refine eq_of_fromLeBytes (α := UInt64) ?_ ?_
        (hnew.contentLength.trans hold.contentLength.symm)
      · exact length_slice_of_le (by omega)
      · exact length_slice_of_le (by omega)
    rw [slice_torn hn heq, hold.contentLength]
    rfl
  bitFlags := by
    rw [getD_torn hn (hnew.bitFlags.trans hold.bitFlags.symm), hold.bitFlags]
    rfl

end torn

/-- The header stands at the beginning, but for where the tags start. -/
def StandsIn (h : ObjectHeader) (data : List UInt8) : Prop :=
  ∃ tagsStart, readFromBytes (data.take 32) = .ok (h.retagged tagsStart)

lemma length_of_readFromBytes (hread : readFromBytes content = .ok h) : 32 ≤ content.length := by
  by_contra hshort
  unfold readFromBytes at hread
  rw [if_pos (Nat.not_le.mp hshort)] at hread
  cases hread

/-- What begins with such a header is written over the file, or a part of it. -/
lemma StandsIn.overwrite {data rest : List UInt8} {tagsStart : UInt16} {n : ℕ}
    (hstands : h.StandsIn data)
    (hn : n ≤ ((h.retagged tagsStart).wire ++ rest).length) :
    h.StandsIn (Bytes.overwrite 0 data 0 (((h.retagged tagsStart).wire ++ rest).take n)) := by
  obtain ⟨oldStart, hread⟩ := hstands
  have hlong := length_of_readFromBytes hread
  have hold := (readFromBytes_iff hlong).mp hread
  have hlength : (h.retagged tagsStart).wire.length = 32 := length_wire _
  have hwire : readFromBytes (h.retagged tagsStart).wire = .ok (h.retagged tagsStart) := by
    have hcurrent : (h.retagged tagsStart).version = currentVersion := hold.current
    rw [← List.append_nil (h.retagged tagsStart).wire]
    exact readFromBytes_wire _ hcurrent []
  have hnew := (readFromBytes_iff (Nat.le_of_eq hlength.symm)).mp hwire
  have htake : (data.take 32).length = 32 := by
    rw [List.length_take] at hlong ⊢
    omega
  have hmin : min n 32 ≤ (h.retagged tagsStart).wire.length := by omega
  -- the first 32 bytes are the new header over the old one
  have htorn : (Bytes.overwrite 0 data 0 (((h.retagged tagsStart).wire ++ rest).take n)).take 32 =
      torn (min n 32) (h.retagged tagsStart).wire (data.take 32) := by
    rw [overwrite_zero_eq, List.length_take_of_le hn]
    apply List.ext_getElem?
    intro k
    rw [getElem?_torn hmin, List.getElem?_take]
    have hwhole : (((h.retagged tagsStart).wire ++ rest).take n ++ data.drop n)[k]? = _ :=
      getElem?_torn hn k
    rw [hwhole, List.getElem?_take]
    by_cases hk : k < 32
    · rw [if_pos hk, if_pos hk, List.getElem?_append_left (by omega)]
      simp only [Nat.lt_min, hk, and_true]
    · rw [if_neg hk, if_neg (by omega), if_neg hk]
  have hfields := fields_torn hmin (hlength.trans htake.symm) hlong hnew hold
  have hlong' : 32 ≤ (torn (min n 32) (h.retagged tagsStart).wire (data.take 32)).length := by
    rw [length_torn hmin (hlength.trans htake.symm)]
    exact hlong
  exact ⟨_, htorn ▸ (readFromBytes_iff hlong').mpr hfields⟩

end ObjectHeader

end TuxEncoding
