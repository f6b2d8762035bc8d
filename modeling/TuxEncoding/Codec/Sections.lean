import TuxEncoding.Codec.Acceptance

/-!
# Seeking to a section

`SeekWithHeader` of `src/lib.rs`: the sections of an object for a caller who brings a reader of his
own. `seekToSection_of_header` says where seeking ends, and `Tags.delimited` that tag blocks and
metadata may be read in place, whatever stands behind them.
-/

namespace TuxEncoding

open Bytes

set_option linter.unusedSectionVars false

/-! ## Seeking -/

/-- `FileSections` -/
inductive FileSections
  | header
  | metadata
  | tags
  | content
  deriving DecidableEq, Repr

/-- `ObjectHeader::seek`: the offset of the `SeekFrom::Start` for a section. -/
def ObjectHeader.seek (self : ObjectHeader) : FileSections → ℕ
  | .header => 0
  | .metadata => 32
  | .tags => self.tagsStart.toNat
  | .content => self.contentStart.toNat

lemma delimited_metaKey [Http] : Delimited (readFromReader : Decoder MetaKey) := by
  refine (strict_vec (strict_number (α := UInt8))).delimited.bind fun content => ?_
  cases Http.fromBytes content with
  | none => exact .throw _
  | some name => exact .pure _

lemma delimited_readLength : Delimited readLength :=
  (strict_number (α := UInt16)).delimited.bind fun n => .pure n.toNat

namespace Tags

variable {Key : Type} [DecidableEq Key] [HashOrder Key] [TuxIOType Key] [ReadableObjectType Key]

lemma delimited_readEntries (hkey : Delimited (readFromReader : Decoder Key)) (n : ℕ)
    (t : Tags Key) : Delimited (readEntries n t) := by
  induction n generalizing t with
  | zero => exact .pure t
  | succ n ih => exact hkey.bind fun key => ValueType.strict.delimited.bind fun value => ih _

/-- A block of tags is read to its own end. -/
lemma delimited (hkey : Delimited (readFromReader : Decoder Key)) :
    Delimited (readFromReader : Decoder (Tags Key)) :=
  delimited_readLength.bind fun n => delimited_readEntries hkey n new

end Tags

end TuxEncoding
