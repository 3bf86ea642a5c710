import SealedScript.Artifact.Trailer
import SealedScript.Proofs.Outcome
import SealedScript.Proofs.Text.Measure
import SealedScript.Proofs.Text.Search

/-!
What the steps of reading a trailer find.

Each step is described once: what must be there for it to succeed, and what it then answers. Whether the
text was ever written by anyone does not matter here.
-/

namespace SealedScript.Artifact
set_option autoImplicit false

/-! ## The last line of lengths -/

theorem countsMark_eq : countsMark = '\n' :: "##:COUNTS:".toList := by decide

theorem countsLead_eq : countsLead = countsMark ++ ['0', 'x'] := by decide

theorem splitAtCounts?_line {before fields : Text} (h : ¬ countsMark <:+: fields) :
    splitAtCounts? (before ++ (countsMark ++ fields)) = some (before, countsMark ++ fields) := by
  have hlast : Text.lastIndexOf? countsMark (before ++ (countsMark ++ fields)) = some before.length := by
    rw [countsMark_eq] at h ⊢
    exact (Text.lastIndexOf?_eq_some (by decide)).mpr (Text.lastAt_line (by decide) h)
  rw [splitAtCounts?, hlast, Option.map_some, List.splitAt_eq, List.take_left, List.drop_left]

/-! ## Steps -/

/-- What a trailer that is read says, one step of the reader after another. -/
theorem readTrailer_eq_ok {before counts : Text} {t : Trailer} :
    readTrailer before counts = .ok t ↔ ∃ sourceLength blockLength,
      readCounts counts = .ok (sourceLength, blockLength) ∧
      checkCounts sourceLength blockLength (Text.unitLength (before ++ counts)) = .ok () ∧
      readHashes before counts = .ok (t.head, t.sourceDigest, t.blockDigest) ∧
      cutBlock t.head blockLength = .ok t.block ∧
      cutSource (before ++ counts) sourceLength = .ok (t.source, t.split) := by
  rw [readTrailer]
  constructor
  · intro h
    obtain ⟨⟨sourceLength, blockLength⟩, hcounts, h⟩ := bind_eq_ok.mp h
    obtain ⟨⟨⟩, hcheck, h⟩ := bind_eq_ok.mp h
    obtain ⟨⟨head, sourceDigest, blockDigest⟩, hhashes, h⟩ := bind_eq_ok.mp h
    obtain ⟨block, hblock, h⟩ := bind_eq_ok.mp h
    obtain ⟨⟨source, split⟩, hsource, h⟩ := bind_eq_ok.mp h
    cases h
    exact ⟨sourceLength, blockLength, hcounts, hcheck, hhashes, hblock, hsource⟩
  · rintro ⟨sourceLength, blockLength, hcounts, hcheck, hhashes, hblock, hsource⟩
    refine bind_eq_ok.mpr ⟨_, hcounts, bind_eq_ok.mpr ⟨_, hcheck, bind_eq_ok.mpr ⟨_, hhashes, ?_⟩⟩⟩
    exact bind_eq_ok.mpr ⟨_, hblock, bind_eq_ok.mpr ⟨_, hsource, rfl⟩⟩

/-- What a line of lengths that is read says. -/
theorem readCounts_spec {counts : Text} {sourceLength blockLength : Nat}
    (h : readCounts counts = .ok (sourceLength, blockLength)) :
    ∃ fields rest behind last, counts = countsLead ++ fields ∧ readLength fields = .ok (sourceLength, rest) ∧
      rest = fieldSeparator ++ behind ∧ readLength behind = .ok (blockLength, last) := by
  rw [readCounts] at h
  split at h
  case isTrue => cases h
  case isFalse =>
    split at h
    case h_2 => cases h
    case h_1 fields hlead =>
      obtain ⟨⟨n, rest⟩, hsource, h⟩ := bind_eq_ok.mp h
      simp only at h
      split at h
      case h_2 => cases h
      case h_1 behind hseparator =>
        obtain ⟨⟨k, last⟩, hblock, h⟩ := bind_eq_ok.mp h
        cases h
        exact ⟨fields, rest, behind, last, Text.dropLead?_eq_some.mp hlead, hsource,
          Text.dropLead?_eq_some.mp hseparator, hblock⟩

/-- The text in front of the line of digests ends where the last line starts. -/
theorem readHashes_spec {before counts head sourceDigest blockDigest : Text}
    (h : readHashes before counts = .ok (head, sourceDigest, blockDigest)) :
    ∃ start, Text.LastAt ['\n'] before start ∧ head = before.take start ∧
      hashesLead <+: before.drop start ++ counts := by
  rw [readHashes] at h
  split at h
  case h_2 => cases h
  case h_1 start hstart =>
    rw [List.splitAt_eq] at h
    simp only at h
    split at h
    case h_2 => cases h
    case h_1 fields hlead =>
      refine ⟨start, (Text.lastIndexOf?_eq_some (by decide)).mp hstart, ?_, ⟨fields, ?_⟩⟩
      · split at h
        case h_2 => cases h
        case h_1 =>
          split at h
          case h_2 => cases h
          case h_1 =>
            split at h
            case h_2 => cases h
            case h_1 =>
              cases h
              rfl
      · exact (Text.dropLead?_eq_some.mp hlead).symm

/-- A cut takes the end of the text, one code unit less than its length. -/
theorem cutBlock_spec {head block : Text} {length : Nat} (h : cutBlock head length = .ok block) :
    ∃ front, head = front ++ block ∧ Text.unitLength front + length = Text.unitLength head + 1 := by
  rw [cutBlock] at h
  simp only at h
  split at h
  case isTrue => cases h
  case isFalse hlength =>
    split at h
    case h_2 => cases h
    case h_1 start hstart =>
      cases h
      have hfront := Text.unitIndex?_eq_some hstart
      exact ⟨head.take start, (List.take_append_drop start head).symm, by omega⟩

/-- The source that is read is a front of the text, of the recorded length unless that ends inside a character. -/
theorem cutSource_spec {text source : Text} {length : Nat} {split : Bool}
    (h : cutSource text length = .ok (source, split)) :
    source <+: text ∧ (split = false → Text.unitLength source = length) := by
  rw [cutSource] at h
  split at h
  case h_2 => cases h
  case h_1 stop hstop =>
    cases h
    refine ⟨List.take_prefix stop text, fun hsplit => ?_⟩
    simpa using hsplit

/-! ## Cuts -/

theorem cutBlock_append (front block : Text) :
    cutBlock (front ++ block) (Text.unitLength block + 1) = .ok block := by
  have hfront : Text.unitLength (front ++ block) + 1 - (Text.unitLength block + 1) = Text.unitLength front := by
    rw [Text.unitLength_append]
    omega
  have hlength : ¬ Text.unitLength (front ++ block) + 1 < Text.unitLength block + 1 := by
    rw [Text.unitLength_append]
    omega
  rw [cutBlock, if_neg hlength]
  simp only [hfront, Text.unitIndex?_append, List.drop_left]
  rfl

theorem cutSource_append (source rest : Text) :
    cutSource (source ++ rest) (Text.unitLength source) = .ok (source, false) := by
  rw [cutSource, Text.floorUnitIndex?_append]
  simp only [List.take_left, bne_self_eq_false]
  rfl

end SealedScript.Artifact
