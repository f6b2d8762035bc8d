import TuxEncoding.Codec.Header
import TuxEncoding.Codec.Tags

/-!
# Measuring without decoding

`read_size` against `read_from_reader`. A measurer skips over what a decoder reads, from the length
prefixes alone, and leaves the cursor wherever it happens to stand.

* `Takes` says how many bytes a decoder takes off the cursor, and `Measures` that a measurer counts
  them, whatever the decoder accepts. One lemma for each type, `ValueType.measures` for all
  variants.
* `measuring_agrees`: a block, or a value, that decodes is measured as long as it is, and a block
  leaves the cursor behind itself.
* `sizes_agree`: `size`, `const_size`, the encoding and its measure are one number.
-/

namespace TuxEncoding

open Bytes

set_option linter.unusedSectionVars false

variable {α β : Type}

/-! ## How much a decoder takes -/

/-- Whatever the decoder accepts, it moves the cursor on by a number of bytes in `P`. -/
def Takes (dec : Decoder α) (P : α → ℕ → Prop) : Prop :=
  ∀ c a c', dec c = .ok (a, c') → ∃ n, c' = ⟨c.bytes, c.pos + n⟩ ∧ P a n

/-- A value of the type is read at the cursor. -/
def Decodes (α : Type) [TuxIOType α] [ReadableObjectType α] (c : Cursor) : Prop :=
  ∃ (a : α) (c' : Cursor), readFromReader c = .ok (a, c')

/-- The decoder always takes `n` bytes. -/
abbrev TakesExactly (n : ℕ) (dec : Decoder α) : Prop := Takes dec fun _ m => m = n

lemma Takes.mono {dec : Decoder α} {P Q : α → ℕ → Prop} (h : Takes dec P)
    (hPQ : ∀ a n, P a n → Q a n) : Takes dec Q := by
  intro c a c' hdec
  obtain ⟨n, hc, hn⟩ := h c a c' hdec
  exact ⟨n, hc, hPQ a n hn⟩

lemma Takes.pure {P : α → ℕ → Prop} {a : α} (h : P a 0) : Takes (pure a : Decoder α) P := by
  rintro c _ _ ⟨⟩
  exact ⟨0, rfl, h⟩

lemma Takes.throw {P : α → ℕ → Prop} {e : EncodingError} : Takes (throw e : Decoder α) P := by
  rintro c a c' ⟨⟩

/-- What a sequence of two decoders has accepted, each of them has. -/
lemma bind_eq_ok {dec : Decoder α} {f : α → Decoder β} {c c' : Cursor} {b : β}
    (h : (dec >>= f) c = .ok (b, c')) : ∃ a c₁, dec c = .ok (a, c₁) ∧ f a c₁ = .ok (b, c') := by
  have hbind : (dec c >>= fun p => f p.1 p.2) = .ok (b, c') := h
  cases hdec : dec c with
  | error e =>
      rw [hdec] at hbind
      cases hbind
  | ok p =>
      rw [hdec] at hbind
      exact ⟨p.1, p.2, rfl, hbind⟩

/-- Two decoders run one after the other where the first one has accepted. -/
lemma bind_of_ok {dec : Decoder α} {f : α → Decoder β} {c c₁ : Cursor} {a : α}
    (h : dec c = .ok (a, c₁)) : (dec >>= f) c = f a c₁ := by
  show (dec c >>= fun p => f p.1 p.2) = _
  rw [h]
  rfl

lemma seekStart_bind (pos : ℕ) (f : Unit → Decoder α) (c : Cursor) :
    (seekStart pos >>= f) c = f () ⟨c.bytes, pos⟩ := rfl

lemma streamPosition_bind (f : ℕ → Decoder α) (c : Cursor) :
    (streamPosition >>= f) c = f c.pos c := rfl

lemma Takes.bind {dec : Decoder α} {f : α → Decoder β} {P : α → ℕ → Prop} {Q : β → ℕ → Prop}
    (h : Takes dec P) (hf : ∀ a n, P a n → Takes (f a) fun b m => Q b (n + m)) :
    Takes (dec >>= f) Q := by
  intro c b c' hdec
  obtain ⟨a, c₁, hfirst, hrest⟩ := bind_eq_ok hdec
  obtain ⟨n, rfl, hn⟩ := h _ _ _ hfirst
  obtain ⟨m, rfl, hm⟩ := hf a n hn _ _ _ hrest
  exact ⟨n + m, by rw [Nat.add_assoc], hm⟩

/-- The last step of a decoder may compute and check without reading on. -/
lemma TakesExactly.bind_nil {n : ℕ} {dec : Decoder α} {f : α → Decoder β} (h : TakesExactly n dec)
    (hf : ∀ a, TakesExactly 0 (f a)) : TakesExactly n (dec >>= f) := by
  refine Takes.bind h ?_
  rintro a m rfl
  exact (hf a).mono fun _ k hk => by rw [hk, Nat.add_zero]

lemma TakesExactly.bind {n m : ℕ} {dec : Decoder α} {f : α → Decoder β} (h : TakesExactly n dec)
    (hf : ∀ a, TakesExactly m (f a)) : TakesExactly (n + m) (dec >>= f) := by
  refine Takes.bind h ?_
  rintro a _ rfl
  exact (hf a).mono fun _ k hk => by rw [hk]

lemma takes_readExact (n : ℕ) : TakesExactly n (readExact n) := by
  intro c bs c' hread
  unfold readExact at hread
  split_ifs at hread
  cases hread
  exact ⟨n, rfl, rfl⟩

lemma takes_number [Number α] : TakesExactly (Number.width α) (readFromReader : Decoder α) :=
  TakesExactly.bind_nil (takes_readExact _) fun _ => Takes.pure rfl

lemma takes_readLength : TakesExactly 2 readLength :=
  TakesExactly.bind_nil (takes_number (α := UInt16)) fun _ => Takes.pure rfl

/-- A length prefix is read where two bytes are left. -/
lemma readLength_of_le {bytes : List UInt8} {pos : ℕ} (h : 2 ≤ bytes.length - pos) :
    readLength ⟨bytes, pos⟩ = .ok (ofLeBytes ((bytes.drop pos).take 2), ⟨bytes, pos + 2⟩) := by
  have hlt : ofLeBytes ((bytes.drop pos).take 2) < 65536 := by
    have hlen : ((bytes.drop pos).take 2).length = 2 := by
      rw [List.length_take, List.length_drop]
      omega
    have hbound := ofLeBytes_lt ((bytes.drop pos).take 2)
    rwa [hlen] at hbound
  have hread : readExact 2 ⟨bytes, pos⟩ = .ok ((bytes.drop pos).take 2, ⟨bytes, pos + 2⟩) :=
    if_pos h
  have hnumber : (readFromReader : Decoder UInt16) ⟨bytes, pos⟩ =
      .ok (UInt16.ofNat (ofLeBytes ((bytes.drop pos).take 2)), ⟨bytes, pos + 2⟩) := by
    show (readExact 2 >>= fun buffer => pure (Number.fromLeBytes buffer)) _ = _
    rw [bind_of_ok hread]
    rfl
  show (readFromReader >>= fun n : UInt16 => pure n.toNat) _ = _
  rw [bind_of_ok hnumber]
  show Except.ok (UInt16.toNat (UInt16.ofNat _), _) = _
  rw [UInt16.toNat_ofNat', Nat.mod_eq_of_lt hlt]

lemma takes_readTimes {w : ℕ} {read : Decoder α} (h : TakesExactly w read) (n : ℕ) :
    TakesExactly (n * w) (readTimes read n) := by
  induction n with
  | zero => exact Takes.pure (Nat.zero_mul w).symm
  | succ n ih =>
      rw [Nat.succ_mul, Nat.add_comm]
      exact h.bind fun a => ih.bind_nil fun as => Takes.pure rfl

/-! ## Measuring -/

/-- With `k` bytes measured so far, the measurer counts what the decoder takes, whatever the decoder
accepts, and only moves the cursor. -/
def Measures (k : ℕ) (measure : Decoder ℕ) (dec : Decoder α) : Prop :=
  ∀ c a c', dec c = .ok (a, c') →
    ∃ n, c' = ⟨c.bytes, c.pos + n⟩ ∧ ∃ pos, measure c = .ok (k + n, ⟨c.bytes, pos⟩)

/-- Where the size is constant there is nothing to read. -/
lemma Measures.const {k n : ℕ} {dec : Decoder α} (h : TakesExactly n dec) :
    Measures k (pure (k + n)) dec := by
  intro c a c' hdec
  obtain ⟨m, rfl, rfl⟩ := h c a c' hdec
  exact ⟨m, rfl, c.pos, rfl⟩

/-- Measurer and decoder may start with the same bytes. -/
lemma Measures.bind {k m : ℕ} {d : Decoder β} {f : β → Decoder ℕ} {g : β → Decoder α}
    (hd : TakesExactly m d) (h : ∀ b, Measures (k + m) (f b) (g b)) :
    Measures k (d >>= f) (d >>= g) := by
  intro c a c' hdec
  obtain ⟨b, c₁, hfirst, hrest⟩ := bind_eq_ok hdec
  obtain ⟨m, rfl, rfl⟩ := hd _ _ _ hfirst
  obtain ⟨n, rfl, pos, hmeasure⟩ := h b _ _ _ hrest
  refine ⟨m + n, by rw [Nat.add_assoc], pos, ?_⟩
  rw [bind_of_ok hfirst, hmeasure, Nat.add_assoc]

/-- The decoder may go on to compute and check. -/
lemma Measures.bind_nil {k : ℕ} {measure : Decoder ℕ} {dec : Decoder β} {g : β → Decoder α}
    (h : Measures k measure dec) (hg : ∀ b, TakesExactly 0 (g b)) :
    Measures k measure (dec >>= g) := by
  intro c a c' hdec
  obtain ⟨b, c₁, hfirst, hrest⟩ := bind_eq_ok hdec
  obtain ⟨n, rfl, pos, hmeasure⟩ := h _ _ _ hfirst
  obtain ⟨_, rfl, rfl⟩ := hg b _ _ _ hrest
  exact ⟨n, rfl, pos, hmeasure⟩

/-- The measurer may add what was measured before. -/
lemma Measures.add {k : ℕ} {measure : Decoder ℕ} {dec : Decoder α} (h : Measures 0 measure dec) :
    Measures k (do let size ← measure; return size + k) dec := by
  intro c a c' hdec
  obtain ⟨n, rfl, pos, hmeasure⟩ := h _ _ _ hdec
  refine ⟨n, rfl, pos, ?_⟩
  rw [bind_of_ok hmeasure, Nat.zero_add, Nat.add_comm]
  rfl

/-- The measurer of a type counts what its decoder takes. -/
abbrev MeasuresType (α : Type) [TuxIOType α] [ReadableObjectType α] : Prop :=
  Measures 0 (ReadableObjectType.readSize α) (readFromReader : Decoder α)

lemma measures_number [Number α] : MeasuresType α := by
  have hconst := Measures.const (k := 0) (takes_number (α := α))
  rw [Nat.zero_add] at hconst
  exact hconst

lemma measures_bool : MeasuresType Bool := by
  refine Measures.const (k := 0) (TakesExactly.bind_nil (takes_readExact 1) fun buffer => ?_)
  split
  · exact Takes.pure rfl
  · exact Takes.pure rfl
  · exact Takes.throw

/-- A prefix that counts bytes says how many follow. -/
lemma measures_prefixed {read : ℕ → Decoder α} (h : ∀ n, TakesExactly n (read n)) :
    Measures 0 (do let length ← readLength; return length + 2)
      (do let length ← readLength; read length) := by
  refine Measures.bind takes_readLength fun length => ?_
  rw [Nat.add_comm length 2]
  exact Measures.const (k := 2) (h length)

lemma measures_bytes : MeasuresType (List UInt8) := by
  apply measures_prefixed
  intro n
  have htimes := takes_readTimes (takes_number (α := UInt8)) n
  rw [show Number.width UInt8 = 1 from rfl, Nat.mul_one] at htimes
  exact htimes

lemma measures_string : MeasuresType String := by
  apply measures_prefixed
  intro n
  refine TakesExactly.bind_nil (takes_readExact n) fun buffer => ?_
  cases fromUtf8 buffer with
  | none => exact Takes.throw
  | some s => exact Takes.pure rfl

lemma takes_rawDate : TakesExactly 4 (readFromReader : Decoder RawDate) :=
  TakesExactly.bind (takes_number (α := UInt16)) fun _ =>
    TakesExactly.bind (takes_number (α := UInt8)) fun _ =>
      TakesExactly.bind_nil (takes_number (α := UInt8)) fun _ => Takes.pure rfl

lemma takes_rawTime : TakesExactly 8 (readFromReader : Decoder RawTime) :=
  TakesExactly.bind (takes_number (α := UInt32)) fun _ =>
    TakesExactly.bind_nil (takes_number (α := UInt32)) fun _ => Takes.pure rfl

lemma takes_rawTimeZone : TakesExactly 4 (readFromReader : Decoder RawTimeZone) :=
  TakesExactly.bind_nil (takes_number (α := Int32)) fun _ => Takes.pure rfl

lemma takes_rawDateTime : TakesExactly 16 (readFromReader : Decoder RawDateTime) :=
  TakesExactly.bind takes_rawDate fun _ => TakesExactly.bind takes_rawTime fun _ =>
    TakesExactly.bind_nil takes_rawTimeZone fun _ => Takes.pure rfl

lemma takes_uuid : TakesExactly 16 (readFromReader : Decoder Uuid) :=
  TakesExactly.bind_nil (takes_readExact 16) fun _ => Takes.pure rfl

lemma takes_header : TakesExactly 32 (readFromReader : Decoder ObjectHeader) := by
  refine TakesExactly.bind_nil (takes_readExact 32) fun content => ?_
  cases h : ObjectHeader.readFromBytes content with
  | error e => exact Takes.throw
  | ok header => exact Takes.pure rfl

/-! ## Values -/

namespace ValueType

/-- An arm measures what it reads, and the type key in front of it. -/
lemma Arm.of_measures {α : Type} [TuxIOType α] [TypedObjectType α] [ReadableObjectType α]
    (mk : α → ValueType) (h : MeasuresType α) :
    Measures 1 (Arm.of mk).readSize (Arm.of mk).readFromReader :=
  Measures.add h |>.bind_nil fun _ => Takes.pure rfl

lemma arms_measure : ∀ arm ∈ arms, Measures 1 arm.readSize arm.readFromReader := by
  have hdate : MeasuresType RawDate := Measures.const (k := 0) takes_rawDate
  have htime : MeasuresType RawTime := Measures.const (k := 0) takes_rawTime
  have hdateTime : MeasuresType RawDateTime := Measures.const (k := 0) takes_rawDateTime
  have huuid : MeasuresType Uuid := Measures.const (k := 0) takes_uuid
  unfold arms
  simp only [List.forall_mem_cons]
  exact ⟨Arm.of_measures _ measures_string, Arm.of_measures _ measures_bytes,
    Arm.of_measures _ measures_bool, Arm.of_measures _ measures_number,
    Arm.of_measures _ measures_number, Arm.of_measures _ measures_number,
    Arm.of_measures _ measures_number, Arm.of_measures _ measures_number,
    Arm.of_measures _ measures_number, Arm.of_measures _ measures_number,
    Arm.of_measures _ measures_number, Arm.of_measures _ measures_number,
    Arm.of_measures _ measures_number, Arm.of_measures _ hdate, Arm.of_measures _ htime,
    Arm.of_measures _ hdateTime, Arm.of_measures _ huuid, List.forall_mem_nil _⟩

/-- A value is measured as long as it is, if it decodes. -/
lemma measures : MeasuresType ValueType := by
  refine Measures.bind (takes_number (α := UInt8)) fun key => ?_
  cases harm : armOf key with
  | none => rintro c a c' ⟨⟩
  | some arm => exact arms_measure arm (List.mem_of_find?_eq_some harm)

end ValueType

/-! ## Blocks -/

namespace Tags

variable {Key : Type} [DecidableEq Key] [HashOrder Key] [TuxIOType Key] [ReadableObjectType Key]

/-- The loop of `read_size` keeps step with the one of `read_from_reader`: after each key and each
value it stands behind what it has measured. -/
lemma measureEntries_of_readEntries (hkey : MeasuresType Key) {n blockStart total : ℕ}
    {bytes : List UInt8} {tags tags' : Tags Key} {c' : Cursor}
    (h : readEntries n tags ⟨bytes, blockStart + total⟩ = .ok (tags', c')) :
    ∃ m, c' = ⟨bytes, blockStart + m⟩ ∧
      measureEntries Key blockStart n total ⟨bytes, blockStart + total⟩ = .ok (m, c') := by
  induction n generalizing total tags with
  | zero =>
      cases h
      exact ⟨total, rfl, rfl⟩
  | succ n ih =>
      obtain ⟨key, c₁, hreadKey, h⟩ := bind_eq_ok h
      obtain ⟨keySize, rfl, pos, hmeasureKey⟩ := hkey _ _ _ hreadKey
      obtain ⟨value, c₂, hreadValue, h⟩ := bind_eq_ok h
      obtain ⟨valueSize, rfl, pos', hmeasureValue⟩ := ValueType.measures _ _ _ hreadValue
      simp only [Nat.zero_add, Nat.add_assoc] at hmeasureKey hmeasureValue h
      obtain ⟨m, rfl, hrest⟩ := ih h
      refine ⟨m, rfl, ?_⟩
      unfold measureEntries
      rw [bind_of_ok hmeasureKey, seekStart_bind, bind_of_ok hmeasureValue, seekStart_bind]
      simp only [Nat.add_assoc]
      exact hrest

/-- A block that decodes is measured as long as it is, and measuring it leaves the cursor behind
it. -/
lemma readSize_of_read (hkey : MeasuresType Key) {c c' : Cursor} {tags : Tags Key}
    (h : readFromReader c = .ok (tags, c')) :
    ∃ n, c' = ⟨c.bytes, c.pos + n⟩ ∧ ReadableObjectType.readSize (Tags Key) c = .ok (n, c') := by
  obtain ⟨count, c₁, hcount, h⟩ := bind_eq_ok h
  obtain ⟨_, rfl, rfl⟩ := takes_readLength _ _ _ hcount
  obtain ⟨m, rfl, hmeasure⟩ := measureEntries_of_readEntries hkey h
  refine ⟨m, rfl, ?_⟩
  show (do
    let blockStart ← streamPosition
    let count ← readLength
    measureEntries Key blockStart count 2) c = _
  rw [streamPosition_bind, bind_of_ok hcount]
  exact hmeasure

/-- Measuring agrees with decoding on every accepted block. -/
def MeasuredAsDecoded (Key : Type) [DecidableEq Key] [HashOrder Key] [TuxIOType Key]
    [ReadableObjectType Key] : Prop :=
  ∀ c (tags : Tags Key) c', readFromReader c = .ok (tags, c') →
    ∃ n, c' = ⟨c.bytes, c.pos + n⟩ ∧ ReadableObjectType.readSize (Tags Key) c = .ok (n, c')

end Tags

/-- Measuring agrees with decoding on every accepted value; where it leaves the cursor is another
matter. -/
def ValueType.MeasuredAsDecoded : Prop :=
  ∀ c (value : ValueType) c', readFromReader c = .ok (value, c') → ∃ n, c' = ⟨c.bytes, c.pos + n⟩ ∧
    ∃ pos, ReadableObjectType.readSize ValueType c = .ok (n, ⟨c.bytes, pos⟩)

lemma measures_metaKey [Http] : MeasuresType MetaKey := by
  refine Measures.bind_nil measures_bytes fun content => ?_
  cases Http.fromBytes content with
  | none => exact Takes.throw
  | some name => exact Takes.pure rfl

section

variable [Http] [HashOrder String] [HashOrder MetaKey]

/-- Whatever bytes decode, wherever they start, are measured as long as they are: tag blocks,
metadata blocks and values, also those that no encoder writes. -/
theorem measuring_agrees : Tags.MeasuredAsDecoded String ∧ Tags.MeasuredAsDecoded MetaKey ∧
    ValueType.MeasuredAsDecoded := by
  refine ⟨?_, ?_, ?_⟩
  · exact fun c tags c' h => Tags.readSize_of_read measures_string h
  · exact fun c metadata c' h => Tags.readSize_of_read measures_metaKey h
  · intro c value c' h
    obtain ⟨n, hc, pos, hmeasure⟩ := ValueType.measures c value c' h
    exact ⟨n, hc, pos, hmeasure.trans (by rw [Nat.zero_add])⟩

end

/-! ## The size invariant -/

section sizes

variable [TuxIOType α] [WritableObjectType α] [ReadableObjectType α]

/-- The size invariant of `TuxIOType` on a value that can be encoded: `size`, the length of the
encoding, its measure whatever follows it, and `const_size`, if there is one, are one number. -/
def SizesAgree (a : α) : Prop :=
  ∀ bs, writeToBytes a = .ok bs → bs.length = size a ∧
    (∀ suf, ∃ pos, ReadableObjectType.readSize α ⟨bs ++ suf, 0⟩ =
      .ok (size a, ⟨bs ++ suf, pos⟩)) ∧
    ∀ n, TuxIOType.constSize a = some n → n = size a

/-- An encoding is measured as long as it is, whatever follows it. -/
lemma Measures.readSize_wire {dec : Decoder β} {measure : Decoder ℕ} {bs : List UInt8} {b : β}
    (h : Measures 0 measure dec) (hreads : ReadsAs dec bs b) (suf : List UInt8) :
    ∃ pos, measure ⟨bs ++ suf, 0⟩ = .ok (bs.length, ⟨bs ++ suf, pos⟩) := by
  obtain ⟨n, hn, pos, hmeasure⟩ := h _ _ _ (hreads [] suf)
  have hlen : bs.length = n := by
    have hpos := congrArg Cursor.pos hn
    simpa using hpos
  refine ⟨pos, ?_⟩
  rw [hlen, ← Nat.zero_add n]
  exact hmeasure

end sizes

lemma ValueType.constSize_eq_size {v : ValueType} {n : ℕ} (h : TuxIOType.constSize v = some n) :
    n = size v := by
  cases v <;> cases h <;> rfl

lemma ValueType.sizesAgree (v : ValueType) : SizesAgree v := by
  intro bs hbs
  have hfit : Codec.Fits v := (writeToBytes_isOk_iff v).mp ⟨bs, hbs⟩
  obtain rfl := Except.ok.inj ((writeToBytes_of_fits hfit).symm.trans hbs)
  have hlen : (Codec.wire v).length = size v := Codec.length_wire hfit
  refine ⟨hlen, fun suf => ?_, fun n => constSize_eq_size⟩
  rw [← hlen]
  exact ValueType.measures.readSize_wire (Codec.readsAs_wire hfit) suf

lemma Tags.sizesAgree {Key : Type} [DecidableEq Key] [HashOrder Key] [TuxIOType Key]
    [WritableObjectType Key] [ReadableObjectType Key] [Codec Key] (hkey : MeasuresType Key)
    (t : Tags Key) : SizesAgree t := by
  intro bs hbs
  have hfit : t.Fits := by
    by_contra hfit
    obtain ⟨e, he⟩ := write_of_not_fits (W := Buffer) hfit ⟨[]⟩
    unfold writeToBytes at hbs
    rw [he] at hbs
    cases hbs
  have hwrite : writeToBytes t = .ok t.wire := by
    unfold writeToBytes
    rw [write_of_fits hfit]
    rfl
  obtain rfl := Except.ok.inj (hwrite.symm.trans hbs)
  refine ⟨length_wire hfit, fun suf => ?_, nofun⟩
  have hread := readsAs_wire hfit [] suf
  obtain ⟨n, hn, hmeasure⟩ := Tags.readSize_of_read hkey hread
  have hlen : size t = n := by
    have hpos := congrArg Cursor.pos hn
    rw [← length_wire hfit]
    simpa using hpos
  rw [hlen]
  exact ⟨_, hmeasure⟩

/-- The size invariant holds of everything the file layer stores. -/
theorem sizes_agree [Http] [HashOrder String] [HashOrder MetaKey] :
    (∀ v : ValueType, SizesAgree v) ∧ (∀ tags : Tags String, SizesAgree tags) ∧
      (∀ metadata : MetadataMap, SizesAgree metadata) :=
  ⟨ValueType.sizesAgree, Tags.sizesAgree measures_string, Tags.sizesAgree measures_metaKey⟩

end TuxEncoding
