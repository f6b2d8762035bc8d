import TuxEncoding.Codec.Measure

/-!
# What the decoders accept

That an encoding decodes to its value leaves open what else does. Here is the converse: the bytes a
decoder has taken are the encoding of the value it has given.

* `Accepts` relates the value of a decoder to the bytes it has taken off the cursor, whatever the
  input. It is kept by sequencing (`Accepts.bind`) and by repetition (`Accepts.readTimes`).
* `Delimited`: what the decoder takes it takes anywhere, so that a section may be read on its own or
  within the whole input (`Delimited.section_iff`).
* `Strict`: the decoder of a type accepts encodings only. One lemma for each type, and
  `ValueType.strict` for all variants.
* `Strict.decodes_iff`: a strict type decodes exactly where one of its encodings stands.
-/

namespace TuxEncoding

open Bytes

set_option linter.unusedSectionVars false

variable {α β : Type}

/-! ## The bytes a decoder has taken -/

/-- Whatever the decoder accepts, it has taken bytes off the cursor that are in `P` with the
value. -/
def Accepts (dec : Decoder α) (P : α → List UInt8 → Prop) : Prop :=
  ∀ c a c', dec c = .ok (a, c') →
    ∃ bs, bs <+: c.bytes.drop c.pos ∧ c' = ⟨c.bytes, c.pos + bs.length⟩ ∧ P a bs

lemma Accepts.mono {dec : Decoder α} {P Q : α → List UInt8 → Prop} (h : Accepts dec P)
    (hPQ : ∀ a bs, P a bs → Q a bs) : Accepts dec Q := by
  intro c a c' hdec
  obtain ⟨bs, hprefix, hc, hP⟩ := h c a c' hdec
  exact ⟨bs, hprefix, hc, hPQ a bs hP⟩

lemma Accepts.pure {P : α → List UInt8 → Prop} {a : α} (h : P a []) :
    Accepts (pure a : Decoder α) P := by
  rintro c _ _ ⟨⟩
  exact ⟨[], List.nil_prefix, rfl, h⟩

lemma Accepts.throw {P : α → List UInt8 → Prop} {e : EncodingError} :
    Accepts (throw e : Decoder α) P := by
  rintro c a c' ⟨⟩

/-- What stands behind a prefix of a list is a longer prefix with it. -/
lemma isPrefix_append_drop {l as bs : List α} (h : as <+: l) (h' : bs <+: l.drop as.length) :
    as ++ bs <+: l := by
  obtain ⟨rest, rfl⟩ := h
  rw [List.drop_left] at h'
  exact (List.prefix_append_right_inj as).mpr h'

/-- Decoders run one after the other have taken one byte string after the other. -/
lemma Accepts.bind {dec : Decoder α} {f : α → Decoder β} {P : α → List UInt8 → Prop}
    {Q : β → List UInt8 → Prop} (h : Accepts dec P)
    (hf : ∀ a bs, P a bs → Accepts (f a) fun b cs => Q b (bs ++ cs)) : Accepts (dec >>= f) Q := by
  intro c b c' hdec
  obtain ⟨a, c₁, hfirst, hrest⟩ := bind_eq_ok hdec
  obtain ⟨bs, hbs, rfl, hP⟩ := h _ _ _ hfirst
  obtain ⟨cs, hcs, rfl, hQ⟩ := hf a bs hP _ _ _ hrest
  refine ⟨bs ++ cs, isPrefix_append_drop hbs ?_, ?_, hQ⟩
  · rwa [List.drop_drop]
  · rw [List.length_append, Nat.add_assoc]

/-- The last step of a decoder may compute and check without reading on. -/
lemma Accepts.bind_nil {dec : Decoder α} {f : α → Decoder β} {P : α → List UInt8 → Prop}
    {Q : β → List UInt8 → Prop} (h : Accepts dec P)
    (hf : ∀ a bs, P a bs → Accepts (f a) fun b cs => cs = [] ∧ Q b bs) :
    Accepts (dec >>= f) Q := by
  refine h.bind fun a bs hP => (hf a bs hP).mono ?_
  rintro b _ ⟨rfl, hQ⟩
  rwa [List.append_nil]

lemma Accepts.map {dec : Decoder α} {P : α → List UInt8 → Prop} {Q : β → List UInt8 → Prop}
    {g : α → β} (h : Accepts dec P) (hg : ∀ a bs, P a bs → Q (g a) bs) :
    Accepts (g <$> dec) Q := by
  rw [map_eq_pure_bind]
  exact h.bind_nil fun a bs hP => Accepts.pure ⟨rfl, hg a bs hP⟩

lemma accepts_readExact (n : ℕ) :
    Accepts (readExact n) fun buffer bs => buffer = bs ∧ bs.length = n := by
  intro c buffer c' hread
  unfold readExact at hread
  split_ifs at hread with hn
  cases hread
  have hlength : ((c.bytes.drop c.pos).take n).length = n := by
    rw [List.length_take, List.length_drop]
    omega
  exact ⟨_, List.take_prefix n _, by rw [hlength], rfl, hlength⟩

/-- A decoder run several times has taken one byte string after the other. -/
lemma Accepts.readTimes {read : Decoder α} {P : α → List UInt8 → Prop} (h : Accepts read P)
    (n : ℕ) : Accepts (readTimes read n) fun as bs =>
      as.length = n ∧ ∃ chunks, List.Forall₂ P as chunks ∧ bs = chunks.flatten := by
  induction n with
  | zero => exact Accepts.pure ⟨rfl, [], List.Forall₂.nil, rfl⟩
  | succ n ih =>
      refine h.bind fun a chunk ha => ih.bind_nil ?_
      rintro as bs ⟨hlength, chunks, has, rfl⟩
      exact Accepts.pure ⟨rfl, congrArg (· + 1) hlength, chunk :: chunks, .cons ha has, rfl⟩

/-! ## Decoders that look at nothing else -/

/-- What the decoder has taken it takes wherever it stands, and whatever follows it. -/
def Delimited (dec : Decoder α) : Prop := Accepts dec fun a bs => ReadsAs dec bs a

namespace Delimited

lemma pure (a : α) : Delimited (pure a) := Accepts.pure (ReadsAs.pure a)

lemma throw (e : EncodingError) : Delimited (throw e : Decoder α) := Accepts.throw

lemma bind {dec : Decoder α} {f : α → Decoder β} (h : Delimited dec)
    (hf : ∀ a, Delimited (f a)) : Delimited (dec >>= f) :=
  Accepts.bind h fun a _ hread => (hf a).mono fun _ _ hread' => hread.bind hread'

lemma readTimes {read : Decoder α} (h : Delimited read) (n : ℕ) : Delimited (readTimes read n) := by
  induction n with
  | zero => exact pure []
  | succ n ih => exact h.bind fun a => ih.bind fun as => pure (a :: as)

/-- Behind a position within the input the decoder gives `a` exactly where the bytes stand that it
takes for `a`. -/
lemma decodes_iff {dec : Decoder α} (h : Delimited dec) {bytes : List UInt8} {pos : ℕ}
    (hpos : pos ≤ bytes.length) {a : α} {c : Cursor} : dec ⟨bytes, pos⟩ = .ok (a, c) ↔
      ∃ bs, ReadsAs dec bs a ∧ bs <+: bytes.drop pos ∧ c = ⟨bytes, pos + bs.length⟩ := by
  constructor
  · intro hdec
    obtain ⟨bs, hbs, rfl, hread⟩ := h _ _ _ hdec
    exact ⟨bs, hread, hbs, rfl⟩
  · rintro ⟨bs, hread, ⟨suf, hsuf⟩, rfl⟩
    have hbytes : bytes.take pos ++ bs ++ suf = bytes := by
      rw [List.append_assoc, hsuf, List.take_append_drop]
    have hwhole := hread (bytes.take pos) suf
    rw [hbytes, List.length_take, Nat.min_eq_left hpos] at hwhole
    exact hwhole

/-- A decoder gives the same within a section as in the whole input, when it stops in front of the
end of the section. -/
lemma section_iff {dec : Decoder α} (h : Delimited dec) {bytes : List UInt8} {start n : ℕ}
    (hend : start + n ≤ bytes.length) {a : α} :
    (∃ c, dec ⟨(bytes.drop start).take n, 0⟩ = .ok (a, c)) ↔
      ∃ c, dec ⟨bytes, start⟩ = .ok (a, c) ∧ c.pos ≤ start + n := by
  have hlength : ((bytes.drop start).take n).length = n := by
    rw [List.length_take, List.length_drop]
    omega
  constructor
  · rintro ⟨c, hdec⟩
    obtain ⟨bs, hread, hbs, -⟩ := (h.decodes_iff (Nat.zero_le _)).mp hdec
    rw [List.drop_zero] at hbs
    have hle := hbs.length_le
    refine ⟨_, (h.decodes_iff (by omega)).mpr
      ⟨bs, hread, hbs.trans (List.take_prefix _ _), rfl⟩, ?_⟩
    dsimp only
    omega
  · rintro ⟨c, hdec, hpos⟩
    obtain ⟨bs, hread, hbs, rfl⟩ := (h.decodes_iff (by omega)).mp hdec
    dsimp only at hpos
    refine ⟨_, (h.decodes_iff (Nat.zero_le _)).mpr ⟨bs, hread, ?_, rfl⟩⟩
    rw [List.drop_zero]
    exact List.prefix_take_iff.mpr ⟨hbs, by omega⟩

end Delimited

/-- The bytes the decoder of the type has taken are the encoding of the value it has given. -/
abbrev Strict (α : Type) [TuxIOType α] [WritableObjectType α] [ReadableObjectType α] [Codec α] :
    Prop := Accepts (readFromReader : Decoder α) fun a bs => Codec.Fits a ∧ bs = Codec.wire a

section strict

variable [TuxIOType α] [WritableObjectType α] [ReadableObjectType α] [Codec α]

lemma Strict.delimited (hstrict : Strict α) : Delimited (readFromReader : Decoder α) := by
  refine hstrict.mono ?_
  rintro a _ ⟨hfit, rfl⟩
  exact Codec.readsAs_wire hfit

/-- A strict type decodes exactly where one of its encodings stands, and takes that. -/
lemma Strict.decodes_iff (hstrict : Strict α) (hsize : ∀ a : α, 0 < size a) {c c' : Cursor}
    {a : α} : readFromReader c = .ok (a, c') ↔ ∃ bs, writeToBytes a = .ok bs ∧
      bs <+: c.bytes.drop c.pos ∧ c' = ⟨c.bytes, c.pos + bs.length⟩ := by
  constructor
  · intro hread
    obtain ⟨bs, hprefix, hc, hfit, rfl⟩ := hstrict _ _ _ hread
    exact ⟨_, writeToBytes_of_fits hfit, hprefix, hc⟩
  · rintro ⟨bs, hwrite, ⟨suf, hsuf⟩, rfl⟩
    have hfit := (writeToBytes_isOk_iff a).mp ⟨bs, hwrite⟩
    obtain rfl := Except.ok.inj ((writeToBytes_of_fits hfit).symm.trans hwrite)
    -- a byte string that is not empty stands within the input
    have hpos : c.pos ≤ c.bytes.length := by
      by_contra hbeyond
      rw [List.drop_of_length_le (by omega)] at hsuf
      have hlength := Codec.length_wire hfit
      rw [(List.append_eq_nil_iff.mp hsuf).1] at hlength
      exact Nat.ne_of_lt (hsize a) hlength
    exact (hstrict.delimited.decodes_iff hpos).mpr
      ⟨_, Codec.readsAs_wire hfit, ⟨suf, hsuf⟩, rfl⟩

/-- Two values of which one's encoding begins with the other's are the same. -/
lemma eq_of_wire_prefix {a b : α} {bs cs : List UInt8} (ha : writeToBytes a = .ok bs)
    (hb : writeToBytes b = .ok cs) (h : bs <+: cs) : a = b := by
  have hafit := (writeToBytes_isOk_iff a).mp ⟨bs, ha⟩
  have hbfit := (writeToBytes_isOk_iff b).mp ⟨cs, hb⟩
  obtain rfl := Except.ok.inj ((writeToBytes_of_fits hafit).symm.trans ha)
  obtain rfl := Except.ok.inj ((writeToBytes_of_fits hbfit).symm.trans hb)
  obtain ⟨rest, hrest⟩ := h
  have hreadA := Codec.readsAs_wire hafit [] rest
  have hreadB := Codec.readsAs_wire hbfit [] []
  rw [List.nil_append, hrest] at hreadA
  rw [List.nil_append, List.append_nil] at hreadB
  cases hreadA.symm.trans hreadB
  rfl

end strict

/-! ## Numbers -/

/-- Every byte string that is as wide as the number is the form of one. -/
class ExactNumber (α : Type) [Number α] : Prop where
  toLeBytes_fromLeBytes : ∀ bs : List UInt8, bs.length = Number.width α →
    Number.toLeBytes (Number.fromLeBytes bs : α) = bs

/-- The bytes of a number, whatever the modulus that its type reduces it by. -/
lemma leBytes_mod {w m : ℕ} {bs : List UInt8} (hm : m = 256 ^ w) (h : bs.length = w) :
    leBytes w (ofLeBytes bs % m) = bs := by
  subst hm h
  rw [Nat.mod_eq_of_lt (ofLeBytes_lt bs), leBytes_ofLeBytes]

instance : ExactNumber UInt8 where
  toLeBytes_fromLeBytes bs h := by
    show leBytes 1 (UInt8.ofNat (ofLeBytes bs)).toNat = bs
    rw [UInt8.toNat_ofNat']
    exact leBytes_mod (m := 2 ^ 8) (by decide) h

instance : ExactNumber UInt16 where
  toLeBytes_fromLeBytes bs h := by
    show leBytes 2 (UInt16.ofNat (ofLeBytes bs)).toNat = bs
    rw [UInt16.toNat_ofNat']
    exact leBytes_mod (m := 2 ^ 16) (by decide) h

instance : ExactNumber UInt32 where
  toLeBytes_fromLeBytes bs h := by
    show leBytes 4 (UInt32.ofNat (ofLeBytes bs)).toNat = bs
    rw [UInt32.toNat_ofNat']
    exact leBytes_mod (m := 2 ^ 32) (by decide) h

instance : ExactNumber UInt64 where
  toLeBytes_fromLeBytes bs h := by
    show leBytes 8 (UInt64.ofNat (ofLeBytes bs)).toNat = bs
    rw [UInt64.toNat_ofNat']
    exact leBytes_mod (m := 2 ^ 64) (by decide) h

instance : ExactNumber Int8 where
  toLeBytes_fromLeBytes bs h := by
    show Number.toLeBytes (Number.fromLeBytes bs : UInt8).toInt8.toUInt8 = bs
    rw [UInt8.toUInt8_toInt8]
    exact ExactNumber.toLeBytes_fromLeBytes (α := UInt8) bs h

instance : ExactNumber Int16 where
  toLeBytes_fromLeBytes bs h := by
    show Number.toLeBytes (Number.fromLeBytes bs : UInt16).toInt16.toUInt16 = bs
    rw [UInt16.toUInt16_toInt16]
    exact ExactNumber.toLeBytes_fromLeBytes (α := UInt16) bs h

instance : ExactNumber Int32 where
  toLeBytes_fromLeBytes bs h := by
    show Number.toLeBytes (Number.fromLeBytes bs : UInt32).toInt32.toUInt32 = bs
    rw [UInt32.toUInt32_toInt32]
    exact ExactNumber.toLeBytes_fromLeBytes (α := UInt32) bs h

instance : ExactNumber Int64 where
  toLeBytes_fromLeBytes bs h := by
    show Number.toLeBytes (Number.fromLeBytes bs : UInt64).toInt64.toUInt64 = bs
    rw [UInt64.toUInt64_toInt64]
    exact ExactNumber.toLeBytes_fromLeBytes (α := UInt64) bs h

instance : ExactNumber F32 where
  toLeBytes_fromLeBytes bs h := ExactNumber.toLeBytes_fromLeBytes (α := UInt32) bs h

instance : ExactNumber F64 where
  toLeBytes_fromLeBytes bs h := ExactNumber.toLeBytes_fromLeBytes (α := UInt64) bs h

lemma strict_number [Number α] [ExactNumber α] : Strict α := by
  refine (accepts_readExact _).bind_nil ?_
  rintro buffer _ ⟨rfl, hlength⟩
  exact Accepts.pure ⟨rfl, trivial, (ExactNumber.toLeBytes_fromLeBytes _ hlength).symm⟩

lemma accepts_readLength :
    Accepts readLength fun n bs => n ≤ maxPrefixedLength ∧ bs = leBytes 2 n := by
  refine (strict_number (α := UInt16)).bind_nil ?_
  rintro n _ ⟨_, rfl⟩
  have hlt := n.toNat_lt
  exact Accepts.pure ⟨rfl, by unfold maxPrefixedLength; omega, rfl⟩

/-! ## The value types -/

lemma strict_bool : Strict Bool := by
  refine (accepts_readExact 1).bind_nil ?_
  rintro buffer _ ⟨rfl, hlength⟩
  obtain ⟨byte, rfl⟩ := List.length_eq_one_iff.mp hlength
  rw [List.headD_cons]
  split
  · exact Accepts.pure ⟨rfl, trivial, rfl⟩
  · exact Accepts.pure ⟨rfl, trivial, rfl⟩
  · exact Accepts.throw

/-- The items of a list against the byte strings they were read from. -/
lemma flatten_of_strict [TuxIOType α] [WritableObjectType α] [ReadableObjectType α] [Codec α]
    {as : List α} {chunks : List (List UInt8)}
    (h : List.Forall₂ (fun a bs => Codec.Fits a ∧ bs = Codec.wire a) as chunks) :
    (∀ a ∈ as, Codec.Fits a) ∧ chunks.flatten = as.flatMap Codec.wire := by
  induction h with
  | nil => exact ⟨nofun, rfl⟩
  | @cons a bs as chunks ha _ ih =>
      obtain ⟨hfit, rfl⟩ := ha
      refine ⟨List.forall_mem_cons.mpr ⟨hfit, ih.1⟩, ?_⟩
      rw [List.flatten_cons, List.flatMap_cons, ih.2]

lemma strict_vec [TuxIOType α] [WritableObjectType α] [ReadableObjectType α] [Codec α]
    (h : Strict α) : Strict (List α) := by
  refine accepts_readLength.bind ?_
  rintro n _ ⟨hn, rfl⟩
  refine (h.readTimes n).mono ?_
  rintro as _ ⟨rfl, chunks, hchunks, rfl⟩
  obtain ⟨hfit, hflatten⟩ := flatten_of_strict hchunks
  exact ⟨⟨hn, hfit⟩, congrArg (leBytes 2 as.length ++ ·) hflatten⟩

lemma asBytes_of_fromUtf8 {bs : List UInt8} {s : String} (h : fromUtf8 bs = some s) :
    asBytes s = bs := by
  unfold fromUtf8 String.fromUTF8? at h
  split_ifs at h
  cases h
  rfl

lemma strict_string : Strict String := by
  refine accepts_readLength.bind ?_
  rintro n _ ⟨hn, rfl⟩
  refine (accepts_readExact n).bind_nil ?_
  rintro buffer _ ⟨rfl, rfl⟩
  cases hutf8 : fromUtf8 buffer with
  | none => exact Accepts.throw
  | some s =>
      obtain rfl := asBytes_of_fromUtf8 hutf8
      exact Accepts.pure ⟨rfl, hn, rfl⟩

lemma strict_rawDate : Strict RawDate := by
  refine (strict_number (α := UInt16)).bind ?_
  rintro year _ ⟨_, rfl⟩
  refine (strict_number (α := UInt8)).bind ?_
  rintro month _ ⟨_, rfl⟩
  refine (strict_number (α := UInt8)).bind_nil ?_
  rintro day _ ⟨_, rfl⟩
  exact Accepts.pure ⟨rfl, trivial, rfl⟩

lemma strict_rawTime : Strict RawTime := by
  refine (strict_number (α := UInt32)).bind ?_
  rintro secondsFromMidnight _ ⟨_, rfl⟩
  refine (strict_number (α := UInt32)).bind_nil ?_
  rintro nanoseconds _ ⟨_, rfl⟩
  exact Accepts.pure ⟨rfl, trivial, rfl⟩

lemma strict_rawTimeZone : Strict RawTimeZone := by
  refine (strict_number (α := Int32)).bind_nil ?_
  rintro offset _ ⟨_, rfl⟩
  exact Accepts.pure ⟨rfl, trivial, rfl⟩

lemma strict_rawDateTime : Strict RawDateTime := by
  refine strict_rawDate.bind ?_
  rintro date _ ⟨_, rfl⟩
  refine strict_rawTime.bind ?_
  rintro time _ ⟨_, rfl⟩
  refine strict_rawTimeZone.bind_nil ?_
  rintro timezone _ ⟨_, rfl⟩
  exact Accepts.pure ⟨rfl, trivial, rfl⟩

lemma strict_uuid : Strict Uuid := by
  refine (accepts_readExact 16).bind_nil ?_
  rintro buffer _ ⟨rfl, hlength⟩
  refine Accepts.pure ⟨rfl, trivial, ?_⟩
  exact (congrArg Uuid.bytes (Uuid.fromBytes_bytes ⟨buffer, hlength⟩)).symm

/-! ## Values -/

namespace ValueType

/-- An arm accepts what stands behind its key in the encoding of a value. -/
lemma Arm.of_strict {α : Type} [TuxIOType α] [TypedObjectType α] [WritableObjectType α]
    [ReadableObjectType α] [Codec α] {mk : α → ValueType} (hmk : IsVariant mk) (h : Strict α) :
    Accepts (Arm.of mk).readFromReader fun v bs => v.Fits ∧ (Arm.of mk).key :: bs = v.wire := by
  refine h.bind_nil ?_
  rintro a _ ⟨hfit, rfl⟩
  refine Accepts.pure ⟨rfl, ?_, ?_⟩
  · rwa [Fits, hmk.withInner_mk]
  · rw [wire, hmk.withInner_mk]
    rfl

lemma arms_accept :
    ∀ arm ∈ arms, Accepts arm.readFromReader fun v bs => v.Fits ∧ arm.key :: bs = v.wire := by
  unfold arms
  simp only [List.forall_mem_cons]
  exact ⟨Arm.of_strict ⟨rfl, fun _ _ => rfl⟩ strict_string,
    Arm.of_strict ⟨rfl, fun _ _ => rfl⟩ (strict_vec strict_number),
    Arm.of_strict ⟨rfl, fun _ _ => rfl⟩ strict_bool,
    Arm.of_strict ⟨rfl, fun _ _ => rfl⟩ strict_number,
    Arm.of_strict ⟨rfl, fun _ _ => rfl⟩ strict_number,
    Arm.of_strict ⟨rfl, fun _ _ => rfl⟩ strict_number,
    Arm.of_strict ⟨rfl, fun _ _ => rfl⟩ strict_number,
    Arm.of_strict ⟨rfl, fun _ _ => rfl⟩ strict_number,
    Arm.of_strict ⟨rfl, fun _ _ => rfl⟩ strict_number,
    Arm.of_strict ⟨rfl, fun _ _ => rfl⟩ strict_number,
    Arm.of_strict ⟨rfl, fun _ _ => rfl⟩ strict_number,
    Arm.of_strict ⟨rfl, fun _ _ => rfl⟩ strict_number,
    Arm.of_strict ⟨rfl, fun _ _ => rfl⟩ strict_number,
    Arm.of_strict ⟨rfl, fun _ _ => rfl⟩ strict_rawDate,
    Arm.of_strict ⟨rfl, fun _ _ => rfl⟩ strict_rawTime,
    Arm.of_strict ⟨rfl, fun _ _ => rfl⟩ strict_rawDateTime,
    Arm.of_strict ⟨rfl, fun _ _ => rfl⟩ strict_uuid, List.forall_mem_nil _⟩

/-- A value is accepted as its encoding, and as nothing else. -/
lemma strict : Strict ValueType := by
  refine (strict_number (α := UInt8)).bind ?_
  rintro key _ ⟨_, rfl⟩
  cases harm : armOf key with
  | none => exact Accepts.throw
  | some arm =>
      have hkey : arm.key = key := by simpa using List.find?_some harm
      have hwire : Codec.wire key = [key] := by
        show leBytes 1 key.toNat = [key]
        simp [leBytes]
      refine (arms_accept arm (List.mem_of_find?_eq_some harm)).mono ?_
      rintro v bs ⟨hfit, hbs⟩
      rw [hwire, ← hkey]
      exact ⟨hfit, hbs⟩

lemma size_pos (v : ValueType) : 0 < size v := by
  induction v using byVariant with
  | variant mk hmk a =>
      show 0 < (mk a).withInner fun v => size v + 1
      rw [hmk.withInner_mk]
      exact Nat.succ_pos _

end ValueType

end TuxEncoding
