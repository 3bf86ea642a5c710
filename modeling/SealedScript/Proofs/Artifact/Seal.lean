import SealedScript.Proofs.Artifact.Trailer
import SealedScript.Proofs.Digest

/-!
Seals read back.

A sealed text is a source, anything at all, a block, the line of digests and the line of lengths at the end
of the comment. `readTrailer_sealed` reads source and block out of it as long as both lengths fit their
fields. What stands between the two is part of the text but of nothing that a seal vouches for.
-/

namespace SealedScript.Artifact
set_option autoImplicit false

/-! ## Layout -/

/-- The stars in the first and last lines of the comment. -/
def rule : Text := List.replicate (commentWidth - 1) '*'

/-- What stands between a source and its block. -/
def commentStart : Text := '\n' :: '/' :: (rule ++ ['\n'])

def commentEnd : Text := '\n' :: (rule ++ ['/'])

def hashesLine (source block : Text) : Text :=
  hashesLead ++ (Digest.ofText source ++ (fieldSeparator ++ (Digest.ofText block ++ [';'])))

/-- The line of lengths behind its mark, to the end of the artifact. -/
def countsFields (source block : Text) : Text :=
  ['0', 'x'] ++ (Digest.field (Text.unitLength source) ++
    (fieldSeparator ++ (Digest.field (Text.unitLength block + 1) ++ ';' :: commentEnd)))

/-- The same with any two numbers for the lengths. -/
def numberFields (m n : Nat) : Text :=
  ['0', 'x'] ++ (Digest.field m ++ (fieldSeparator ++ (Digest.field n ++ ';' :: commentEnd)))

theorem countsFields_eq (source block : Text) :
    countsFields source block = numberFields (Text.unitLength source) (Text.unitLength block + 1) := rfl

/-- The text in front of the line of lengths, with anything between source and block. -/
def sealedFront (source between block : Text) : Text :=
  source ++ between ++ block ++ hashesLine source block

/-- A text that ends with the seal of a source at its front and of a block. -/
def sealedText (source between block : Text) : Text :=
  sealedFront source between block ++ (countsMark ++ countsFields source block)

theorem newline_not_mem_rule : '\n' ∉ rule := by decide

/-- An artifact is sealed with its comment between source and block. -/
theorem assemble_eq (g : Engine) (source block : Text) :
    assemble g source block = sealedText source commentStart block := by
  rw [assemble, Engine.longComment, sealedBlock, sealedText, sealedFront, hashesLine, countsFields,
    countsLead_eq, commentStart, commentEnd]
  simp only [rule, List.append_assoc, List.cons_append, List.nil_append]

/-- What an artifact has behind its source, from the comment on. -/
def comment (source block : Text) : Text :=
  '/' :: (rule ++ '\n' :: (block ++ (hashesLine source block ++ (countsMark ++ countsFields source block))))

/-- What is added in front of the comment stands between source and block. -/
theorem append_comment (source added block : Text) :
    source ++ added ++ '\n' :: comment source block = sealedText source (added ++ commentStart) block := by
  simp only [comment, commentStart, sealedText, sealedFront, List.append_assoc, List.cons_append, List.nil_append]

/-! ## Lengths -/

/-- The lengths of source and block fit the columns that they are recorded in. -/
def Fits (source block : Text) : Prop :=
  Text.unitLength source < Nat.pow 2 32 ∧ Text.unitLength block + 1 < Nat.pow 2 32

instance (source block : Text) : Decidable (Fits source block) := inferInstanceAs (Decidable (_ ∧ _))

theorem newline_not_mem_field (n : Nat) : '\n' ∉ Digest.field n := fun h => (Digest.field_plain h).2.2 rfl

theorem readLength_field {n : Nat} (h : n < Nat.pow 2 32) (rest : Text) :
    readLength (Digest.field n ++ rest) = .ok (n, rest) := by
  have hsplit := Text.splitBytes?_append (Digest.field n) rest
  rw [Digest.byteLength_field h] at hsplit
  rw [readLength, hsplit]
  simp only
  rw [Digest.readUnsigned?_trim_field]

theorem count_numberFields (m n : Nat) : (numberFields m n).count '\n' = 1 := by
  have hm := List.count_eq_zero.mpr (newline_not_mem_field m)
  have hn := List.count_eq_zero.mpr (newline_not_mem_field n)
  have hrule := List.count_eq_zero.mpr newline_not_mem_rule
  simp only [numberFields, commentEnd, List.count_append, List.count_cons, hm, hn, hrule]
  decide

theorem not_mark_numberFields (m n : Nat) : ¬ countsMark <:+: numberFields m n := by
  have hlines : numberFields m n = ['0', 'x'] ++ (Digest.field m ++ (fieldSeparator ++ (Digest.field n ++ [';']))) ++
      '\n' :: (rule ++ ['/']) := by
    simp only [numberFields, commentEnd, List.append_assoc, List.cons_append, List.nil_append]
  have hfields : '\n' ∉ ['0', 'x'] ++ (Digest.field m ++ (fieldSeparator ++ (Digest.field n ++ [';']))) := by
    have hseparator : '\n' ∉ fieldSeparator := by decide
    simp [newline_not_mem_field, hseparator]
  rw [countsMark_eq, hlines, Text.infix_line_iff (by decide)]
  rintro (h | h | h)
  · exact Text.not_infix_of_no_line hfields h
  · revert h
    decide
  · exact Text.not_infix_of_no_line (by decide) h

theorem not_mark_countsFields (source block : Text) : ¬ countsMark <:+: countsFields source block := by
  rw [countsFields_eq]
  exact not_mark_numberFields _ _

/-- Two numbers that fit their fields read back, whatever they are. -/
theorem readCounts_numbers {m n : Nat} (hm : m < Nat.pow 2 32) (hn : n < Nat.pow 2 32) :
    readCounts (countsMark ++ numberFields m n) = .ok (m, n) := by
  have hdrop : (countsMark ++ numberFields m n).drop 1 = "##:COUNTS:".toList ++ numberFields m n := by
    rw [countsMark_eq]
    rfl
  have hlines : ((countsMark ++ numberFields m n).drop 1).count '\n' = 1 := by
    rw [hdrop, List.count_append, count_numberFields]
    decide
  have hlead : Text.dropLead? countsLead (countsMark ++ numberFields m n) =
      some (Digest.field m ++ (fieldSeparator ++ (Digest.field n ++ ';' :: commentEnd))) := by
    rw [Text.dropLead?_eq_some, countsLead_eq, numberFields, List.append_assoc]
  have hseparator := Text.dropLead?_eq_some.mpr
    (rfl : fieldSeparator ++ (Digest.field n ++ ';' :: commentEnd) = _ ++ _)
  rw [readCounts, if_neg (not_not_intro hlines)]
  simp only [hlead, readLength_field hm, readLength_field hn, hseparator, bind, Except.bind, pure, Except.pure]

theorem readCounts_sealed {source block : Text} (h : Fits source block) :
    readCounts (countsMark ++ countsFields source block) =
      .ok (Text.unitLength source, Text.unitLength block + 1) := by
  rw [countsFields_eq]
  exact readCounts_numbers h.1 h.2

/-! ## Digests, block and source -/

theorem newline_not_mem_hashes (source block : Text) :
    '\n' ∉ "##:HASHES:0x".toList ++ (Digest.ofText source ++ (fieldSeparator ++ (Digest.ofText block ++ [';']))) := by
  have hlead : '\n' ∉ "##:HASHES:0x".toList := by decide
  have hseparator : '\n' ∉ fieldSeparator := by decide
  simp [Digest.newline_not_mem_ofText, hseparator]

theorem readHashes_sealed (head source block counts : Text) :
    readHashes (head ++ hashesLine source block) counts =
      .ok (head, Digest.ofText source, Digest.ofText block) := by
  have hline : hashesLine source block = '\n' :: ("##:HASHES:0x".toList ++
      (Digest.ofText source ++ (fieldSeparator ++ (Digest.ofText block ++ [';'])))) := rfl
  have hstart : Text.lastIndexOf? ['\n'] (head ++ hashesLine source block) = some head.length := by
    rw [Text.lastIndexOf?_eq_some (by decide), hline]
    exact Text.lastAt_line (p := []) (by decide) (Text.not_infix_of_no_line (newline_not_mem_hashes source block))
  have hsplit : (head ++ hashesLine source block).splitAt head.length = (head, hashesLine source block) := by
    rw [List.splitAt_eq, List.take_left, List.drop_left]
  have hlead : Text.dropLead? hashesLead (hashesLine source block ++ counts) =
      some (Digest.ofText source ++ (fieldSeparator ++ (Digest.ofText block ++ ([';'] ++ counts)))) := by
    rw [Text.dropLead?_eq_some, hashesLine]
    simp only [List.append_assoc]
  have hseparator := Text.dropLead?_eq_some.mpr
    (rfl : fieldSeparator ++ (Digest.ofText block ++ ([';'] ++ counts)) = _ ++ _)
  have hsource := Text.splitBytes?_append (Digest.ofText source)
    (fieldSeparator ++ (Digest.ofText block ++ ([';'] ++ counts)))
  have hblock := Text.splitBytes?_append (Digest.ofText block) ([';'] ++ counts)
  rw [Digest.byteLength_ofText] at hsource hblock
  rw [readHashes]
  simp only [hstart, hsplit, hlead, hsource, hseparator, hblock, pure, Except.pure]

/-! ## Sealed texts -/

/-- A sealed text is read from the line of lengths of its seal, whatever source and block hold. -/
theorem splitAtCounts?_sealed (source between block : Text) :
    splitAtCounts? (sealedText source between block) =
      some (sealedFront source between block, countsMark ++ countsFields source block) :=
  splitAtCounts?_line (not_mark_countsFields source block)

def sealedTrailer (source between block : Text) : Trailer where
  head := source ++ between ++ block
  source := source
  split := false
  block := block
  sourceDigest := Digest.ofText source
  blockDigest := Digest.ofText block

theorem sealedText_eq (source between block : Text) :
    sealedText source between block =
      source ++ (between ++ block ++ hashesLine source block ++ (countsMark ++ countsFields source block)) := by
  simp only [sealedText, sealedFront, List.append_assoc]

/-- A seal reads back, from around any source and block of the lengths that it records. -/
theorem readTrailer_altered {source block source' block' : Text} (between : Text) (h : Fits source block)
    (hsource : Text.unitLength source' = Text.unitLength source)
    (hblock : Text.unitLength block' = Text.unitLength block) :
    readTrailer (source' ++ between ++ block' ++ hashesLine source block)
        (countsMark ++ countsFields source block) =
      .ok { sealedTrailer source' between block' with
        sourceDigest := Digest.ofText source, blockDigest := Digest.ofText block } := by
  have hfront : source' ++ between ++ block' ++ hashesLine source block ++ (countsMark ++ countsFields source block) =
      source' ++ (between ++ block' ++ hashesLine source block ++ (countsMark ++ countsFields source block)) := by
    simp only [List.append_assoc]
  have htotal : checkCounts (Text.unitLength source) (Text.unitLength block + 1) (Text.unitLength
      (source' ++ between ++ block' ++ hashesLine source block ++ (countsMark ++ countsFields source block))) = .ok () := by
    have hlead : Text.unitLength hashesLead = 13 := by decide
    rw [checkCounts, if_neg (Nat.succ_ne_zero _), if_neg]
    · rfl
    · simp only [hashesLine, Text.unitLength_append, hlead]
      omega
  refine readTrailer_eq_ok.mpr ⟨_, _, readCounts_sealed h, htotal, readHashes_sealed _ _ _ _, ?_, ?_⟩
  · rw [← hblock]
    exact cutBlock_append (source' ++ between) block'
  · rw [hfront, ← hsource]
    exact cutSource_append source' _

/-- **A seal reads back** when its lengths fit their fields. -/
theorem readTrailer_sealed {source block : Text} (between : Text) (h : Fits source block) :
    readTrailer (sealedFront source between block) (countsMark ++ countsFields source block) =
      .ok (sealedTrailer source between block) := readTrailer_altered between h rfl rfl

end SealedScript.Artifact
