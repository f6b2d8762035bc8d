import TuxEncoding.Codec.Registry

/-!
# The sizes of a map

`HashMap<K, V, S>` against the size invariant. Its `read_size` measures one key and one value after
the other and never moves the reader on to the next one: a measurer stops behind the length prefix,
or does not move at all.

* `TypedMap.measureEntries_of_le`: what the loop counts is the fixed part of every entry and the
  first `u16`s of the entries, read one behind the other wherever they stand.
* `TypedMap.keepsSizes_iff_lengthsAddUp`: a map reads back as itself and is as long as `size` says,
  and it is measured so exactly when these `u16`s add up to the lengths of its keys and values.
-/

namespace TuxEncoding

open Bytes

set_option linter.unusedSectionVars false

namespace TypedMap

variable {K V : Type} [DecidableEq K] [TuxIOType K] [TypedObjectType K] [WritableObjectType K]
  [ReadableObjectType K] [Codec K] [TuxIOType V] [TypedObjectType V] [WritableObjectType V]
  [ReadableObjectType V] [Codec V]

/-! ## What is asked of a map -/

/-- If the map can be encoded, it reads back from its encoding as an equal map, and `size`, the
length of the encoding and its measure are one number, whatever follows the encoding. -/
def KeepsSizes (m : TypedMap K V) : Prop :=
  ∀ bs, writeToBytes m = .ok bs →
    (∀ suf, ∃ m' : TypedMap K V, m'.Equal m ∧ ∃ c, readFromReader ⟨bs ++ suf, 0⟩ = .ok (m', c)) ∧
    bs.length = size m ∧
    ∀ suf, ∃ c, ReadableObjectType.readSize (TypedMap K V) ⟨bs ++ suf, 0⟩ = .ok (size m, c)

variable [Registered K] [Registered V]

/-- The length prefixes that measuring one entry reads. -/
def prefixes (K V : Type) [TuxIOType K] [WritableObjectType K] [ReadableObjectType K] [Codec K]
    [Registered K] [TuxIOType V] [WritableObjectType V] [ReadableObjectType V] [Codec V]
    [Registered V] : ℕ :=
  (Registered.shape K).prefixes + (Registered.shape V).prefixes

/-- What measuring one entry counts without looking. -/
def base (K V : Type) [TuxIOType K] [WritableObjectType K] [ReadableObjectType K] [Codec K]
    [Registered K] [TuxIOType V] [WritableObjectType V] [ReadableObjectType V] [Codec V]
    [Registered V] : ℕ :=
  (Registered.shape K).base + (Registered.shape V).base

/-- The length of the key and of the value behind their prefixes. -/
def contentLength (entry : K × V) : ℕ :=
  (size entry.1 - (Registered.shape K).base) + (size entry.2 - (Registered.shape V).base)

/-- Read one behind the other from the first entry on, as many `u16`s as the entries have length
prefixes add up to what the prefixes say. -/
def LengthsAddUp (m : TypedMap K V) : Prop :=
  sumOfLengths (m.entries.length * prefixes K V) (m.entries.flatMap entryWire) =
    (m.entries.map contentLength).sum

/-! ## Measuring -/

/-- The loop of `read_size` where its prefixes are there to be read. -/
lemma measureEntries_of_le {n baseSize pos : ℕ} {bytes : List UInt8}
    (h : 2 * (n * prefixes K V) ≤ bytes.length - pos) :
    measureEntries K V n baseSize ⟨bytes, pos⟩ =
      .ok (baseSize + n * base K V + sumOfLengths (n * prefixes K V) (bytes.drop pos),
        ⟨bytes, pos + 2 * (n * prefixes K V)⟩) := by
  induction n generalizing baseSize pos with
  | zero =>
      rw [Nat.zero_mul, Nat.zero_mul]
      rfl
  | succ n ih =>
      have hsplit : (n + 1) * prefixes K V =
          (Registered.shape K).prefixes + ((Registered.shape V).prefixes + n * prefixes K V) := by
        rw [Nat.add_one_mul, Nat.add_comm, ← Nat.add_assoc]
        rfl
      have hbase : (n + 1) * base K V =
          n * base K V + ((Registered.shape K).base + (Registered.shape V).base) :=
        Nat.add_one_mul _ _
      rw [hsplit] at h ⊢
      have hkeyRoom : 2 * (Registered.shape K).prefixes ≤ bytes.length - pos := by omega
      have hvalueRoom : 2 * (Registered.shape V).prefixes ≤
          bytes.length - (pos + 2 * (Registered.shape K).prefixes) := by omega
      have hroom : 2 * (n * prefixes K V) ≤ bytes.length -
          (pos + 2 * (Registered.shape K).prefixes + 2 * (Registered.shape V).prefixes) := by
        omega
      have hkey := (Registered.shape K).readSize_of_le hkeyRoom
      have hvalue := (Registered.shape V).readSize_of_le hvalueRoom
      rw [← Registered.readSize_eq] at hkey hvalue
      unfold measureEntries
      rw [bind_of_ok hkey, bind_of_ok hvalue, ih hroom, sumOfLengths_add, sumOfLengths_add,
        List.drop_drop, List.drop_drop]
      simp only [Except.ok.injEq, Prod.mk.injEq, Cursor.mk.injEq, true_and]
      exact ⟨by omega, by omega⟩

/-- The entries hold all the prefixes that are read. -/
lemma prefixes_le_length {entries : List (K × V)}
    (h : ∀ entry ∈ entries, Codec.Fits entry.1 ∧ Codec.Fits entry.2) :
    2 * (entries.length * prefixes K V) ≤ (entries.flatMap entryWire).length := by
  induction entries with
  | nil => simp
  | cons entry entries ih =>
      obtain ⟨hkey, hvalue⟩ := h entry List.mem_cons_self
      have hrest := ih fun e he => h e (List.mem_cons_of_mem entry he)
      have hk := (Registered.length_wire hkey).2
      have hv := (Registered.length_wire hvalue).2
      have hsplit : (entries.length + 1) * prefixes K V = entries.length * prefixes K V +
          ((Registered.shape K).prefixes + (Registered.shape V).prefixes) :=
        Nat.add_one_mul _ _
      rw [List.flatMap_cons, List.length_append, entryWire, List.length_append, List.length_cons,
        hsplit]
      omega

/-- The size of the entries is their fixed part and their contents. -/
lemma sum_size {entries : List (K × V)}
    (h : ∀ entry ∈ entries, Codec.Fits entry.1 ∧ Codec.Fits entry.2) :
    (entries.map fun entry => size entry.1 + size entry.2).sum =
      entries.length * base K V + (entries.map contentLength).sum := by
  induction entries with
  | nil => simp
  | cons entry entries ih =>
      obtain ⟨hkey, hvalue⟩ := h entry List.mem_cons_self
      have hrest := ih fun e he => h e (List.mem_cons_of_mem entry he)
      have hk := (Registered.length_wire hkey).1
      have hv := (Registered.length_wire hvalue).1
      have hsplit : (entries.length + 1) * base K V = entries.length * base K V +
          ((Registered.shape K).base + (Registered.shape V).base) :=
        Nat.add_one_mul _ _
      rw [List.map_cons, List.sum_cons, List.map_cons, List.sum_cons, List.length_cons, hrest,
        hsplit, contentLength]
      omega

/-- What an encoded map is measured as, whatever follows it. -/
lemma readSize_wire {m : TypedMap K V} (h : Codec.Fits m) (suf : List UInt8) :
    ∃ c, ReadableObjectType.readSize (TypedMap K V) ⟨Codec.wire m ++ suf, 0⟩ =
      .ok (2 + 1 + 1 + m.entries.length * base K V +
        sumOfLengths (m.entries.length * prefixes K V) (m.entries.flatMap entryWire), c) := by
  set entries := m.entries.flatMap entryWire
  have hentries := prefixes_le_length h.2
  have hcount := readsAs_readLength h.1 [] ([typeKey K, typeKey V] ++ entries ++ suf)
  have hbytes : ([] : List UInt8) ++ leBytes 2 m.entries.length ++
      ([typeKey K, typeKey V] ++ entries ++ suf) = Codec.wire m ++ suf := by
    show _ = leBytes 2 m.entries.length ++ ([typeKey K, typeKey V] ++ entries) ++ suf
    simp only [List.nil_append, List.append_assoc]
  have hdrop : (Codec.wire m ++ suf).drop 4 = entries ++ suf := by
    show (leBytes 2 m.entries.length ++ ([typeKey K, typeKey V] ++ entries) ++ suf).drop 4 = _
    simp [leBytes]
  have hlength : entries.length + suf.length = (Codec.wire m ++ suf).length - 4 := by
    rw [← List.length_append, ← hdrop, List.length_drop]
  rw [hbytes, length_leBytes] at hcount
  have hroom : 2 * (m.entries.length * prefixes K V) ≤ (Codec.wire m ++ suf).length - 4 :=
    Nat.le_trans hentries (hlength ▸ Nat.le_add_right _ _)
  refine ⟨⟨Codec.wire m ++ suf, 4 + 2 * (m.entries.length * prefixes K V)⟩, ?_⟩
  rw [← sumOfLengths_append suf hentries, ← hdrop]
  refine Eq.trans ?_ (measureEntries_of_le hroom)
  exact bind_of_ok hcount

/-- A map keeps the size invariant exactly when the `u16`s that its measurer reads add up. -/
theorem keepsSizes_iff_lengthsAddUp (m : TypedMap K V) :
    m.KeepsSizes ↔ ∀ bs, writeToBytes m = .ok bs → m.LengthsAddUp := by
  refine forall_congr' fun bs => forall_congr' fun hbs => ?_
  have hfit : Codec.Fits m := (writeToBytes_isOk_iff m).mp ⟨bs, hbs⟩
  obtain rfl := Except.ok.inj ((writeToBytes_of_fits hfit).symm.trans hbs)
  have hsize : size m = 2 + 1 + 1 + (m.entries.length * base K V +
      (m.entries.map contentLength).sum) := congrArg (2 + 1 + 1 + ·) (sum_size hfit.2)
  constructor
  · rintro ⟨-, -, hmeasure⟩
    obtain ⟨c, hc⟩ := hmeasure []
    obtain ⟨c', hc'⟩ := readSize_wire hfit []
    have heq := congrArg Prod.fst (Except.ok.inj (hc.symm.trans hc'))
    simp only [hsize] at heq
    unfold LengthsAddUp
    omega
  · intro hsum
    unfold LengthsAddUp at hsum
    refine ⟨fun suf => ⟨m, fun _ => rfl, _, Codec.readsAs_wire hfit [] suf⟩,
      Codec.length_wire hfit, fun suf => ?_⟩
    obtain ⟨c, hc⟩ := readSize_wire hfit suf
    exact ⟨c, by rw [hc, hsize, hsum, Nat.add_assoc]⟩

/-- Where keys and values have a fixed width there is nothing to read. -/
theorem keepsSizes_of_fixed {w w' : ℕ} {pos : 0 < w} {pos' : 0 < w'}
    (hkey : Registered.shape K = .fixed w pos) (hvalue : Registered.shape V = .fixed w' pos')
    (m : TypedMap K V) : m.KeepsSizes := by
  refine (keepsSizes_iff_lengthsAddUp m).mpr fun bs hbs => ?_
  have hfit : Codec.Fits m := (writeToBytes_isOk_iff m).mp ⟨bs, hbs⟩
  have hnone : ∀ entry ∈ m.entries, contentLength entry = 0 := fun entry he => by
    have hk := Registered.describes_wire (hfit.2 entry he).1
    have hv := Registered.describes_wire (hfit.2 entry he).2
    have hklen := Codec.length_wire (hfit.2 entry he).1
    have hvlen := Codec.length_wire (hfit.2 entry he).2
    rw [hkey] at hk
    rw [hvalue] at hv
    rw [contentLength, hkey, hvalue, ← hklen, ← hvlen, show _ = w from hk, show _ = w' from hv]
    exact congrArg₂ (· + ·) (Nat.sub_self w) (Nat.sub_self w')
  have hread : prefixes K V = 0 := by
    rw [prefixes, hkey, hvalue]
    rfl
  rw [LengthsAddUp, hread, Nat.mul_zero, List.map_congr_left hnone]
  simp [sumOfLengths]

end TypedMap

/-- A map over registered types keeps the size invariant exactly when the `u16`s that stand behind
one another at the start of its entries, as many as its keys and values have length prefixes, add up
to the lengths these prefixes hold. -/
theorem registeredMap_keepsSizes_iff [Http] (K V : RegisteredType)
    (m : TypedMap K.Carrier V.Carrier) :
    m.KeepsSizes ↔ ∀ bs, writeToBytes m = .ok bs → m.LengthsAddUp :=
  m.keepsSizes_iff_lengthsAddUp

/-- The map from 1 to `"one"`. -/
def oneName : TypedMap Int32 String := ⟨[(1, "one")], by simp⟩

/-- `oneName` is 13 bytes long and is measured as 11: the measurer has not moved on from the key, so
that the bytes of the key are read as the length of the name. -/
theorem not_keepsSizes_oneName : ¬ ∀ m : TypedMap Int32 String, m.KeepsSizes := by
  intro h
  have hfit : Codec.Fits oneName := ⟨by decide, by simp [oneName, Codec.Fits]; decide⟩
  have hsum := oneName.keepsSizes_iff_lengthsAddUp.mp (h oneName) _ (writeToBytes_of_fits hfit)
  revert hsum
  unfold TypedMap.LengthsAddUp
  decide +kernel

end TuxEncoding
