import SealedScript.Proofs.Artifact.Block
import SealedScript.Proofs.Artifact.Recovery

/-!
Seals whose lengths outgrow their fields.

A field that is too long for its columns reads as a smaller number with a digit behind it. When that is the
length of the source, the line of lengths cannot be read. When it is the length of the block, what is cut
out is the end of the block alone, which is no block, so such a text is never fresh (`extract_overflow`).
-/

namespace SealedScript.Artifact
set_option autoImplicit false

/-! ## Lengths -/

/-- A number that outgrows its field reads as a smaller one, and its next digit stands behind it. -/
theorem readLength_overflow {n k : Nat} {behind rest : Text} (h : Nat.pow 2 32 ≤ n)
    (hread : readLength (Digest.field n ++ behind) = .ok (k, rest)) :
    k < n ∧ ∃ c tail, rest = c :: tail ∧ c ≠ '-' := by
  obtain ⟨front, c, tail, hfield, hbytes, hc, hless⟩ := Digest.field_of_le h
  have hsplit := Text.splitBytes?_append front (c :: tail ++ behind)
  rw [hbytes, ← List.append_assoc, ← hfield] at hsplit
  rw [readLength, hsplit] at hread
  simp only at hread
  cases hnumber : Numeral.readUnsigned? 16 (Text.trim front) with
  | none =>
    rw [hnumber] at hread
    cases hread
  | some v =>
    rw [hnumber] at hread
    cases hread
    exact ⟨hless k hnumber, c, tail ++ behind, rfl, hc⟩

/-- Lengths of which one does not fit: if they can be read at all, the length of the source is right and
that of the block is too small. -/
theorem readCounts_overflow {source block : Text} {sourceLength blockLength : Nat} (h : ¬ Fits source block)
    (hread : readCounts (countsMark ++ countsFields source block) = .ok (sourceLength, blockLength)) :
    sourceLength = Text.unitLength source ∧ blockLength < Text.unitLength block + 1 := by
  obtain ⟨fields, rest, behind, last, hfields, hsource, hrest, hblock⟩ := readCounts_spec hread
  rw [countsLead_eq, countsFields, List.append_assoc, List.append_cancel_left_eq,
    List.append_cancel_left_eq] at hfields
  rw [← hfields] at hsource
  by_cases hlong : Nat.pow 2 32 ≤ Text.unitLength source
  · obtain ⟨-, c, tail, hdigit, hc⟩ := readLength_overflow hlong hsource
    rw [hdigit] at hrest
    exact absurd (List.cons.inj hrest).1 hc
  · rw [readLength_field (by omega), Except.ok.injEq, Prod.mk.injEq] at hsource
    rw [← hsource.2, List.append_cancel_left_eq] at hrest
    rw [← hrest] at hblock
    have hover : Nat.pow 2 32 ≤ Text.unitLength block + 1 := by
      refine Nat.le_of_not_lt fun hlt => h ⟨by omega, hlt⟩
    exact ⟨hsource.1.symm, (readLength_overflow hover hblock).1⟩

/-! ## Blocks -/

variable {source between : Text} {bs : Bytes}

/-- What is read from a seal that does not fit: the source it vouches for, and a block that is none. -/
theorem readTrailer_overflow {t : Trailer} (h : ¬ Fits source (Block.encode bs))
    (hread : readTrailer (sealedFront source between (Block.encode bs))
      (countsMark ++ countsFields source (Block.encode bs)) = .ok t) :
    t.head = source ++ between ++ Block.encode bs ∧ t.source = source ∧ t.sourceChanged = false ∧
      Block.decode t.block = .error .noDelimiters := by
  obtain ⟨n, k, hcounts, -, hhashes, hblock, hsource⟩ := readTrailer_eq_ok.mp hread
  obtain ⟨rfl, hshort⟩ := readCounts_overflow h hcounts
  rw [sealedFront, readHashes_sealed, Except.ok.injEq, Prod.mk.injEq, Prod.mk.injEq] at hhashes
  obtain ⟨hhead, hdigest, -⟩ := hhashes
  rw [← sealedText, sealedText_eq, cutSource_append, Except.ok.injEq, Prod.mk.injEq] at hsource
  obtain ⟨front, hcut, hlength⟩ := cutBlock_spec hblock
  rw [← hhead] at hcut hlength
  have hlonger : Text.unitLength (source ++ between) < Text.unitLength front := by
    rw [Text.unitLength_append] at hlength
    omega
  obtain ⟨a, ha, -, hb⟩ := Text.append_eq_append_of_lt hcut hlonger
  refine ⟨hhead.symm, hsource.1.symm, ?_, Block.decode_of_cut hb ha⟩
  rw [Trailer.sourceChanged, ← hsource.1, ← hsource.2, ← hdigest]
  simp

/-! ## Findings -/

/-- A seal that fits is read, and its block is the one that it vouches for. -/
theorem not_trailerRefused (h : Fits source (Block.encode bs)) :
    ¬ TrailerRefused (sealedText source between (Block.encode bs)) := by
  intro hrefused
  have hchanged := hrefused _ _ _ (splitAtCounts?_sealed _ _ _) (readTrailer_sealed between h)
  simp [Trailer.blockChanged, sealedTrailer] at hchanged

/-- No further block opens behind the opening of a sealed block. -/
theorem not_opening_lines (bs : Bytes) (source block : Text) :
    ¬ ('\n' :: Block.opening) <:+: Block.lines bs ++ hashesLine source block := by
  have hsign : '#' ∉ Block.lines bs := List.count_eq_zero.mp (Block.count_lines bs)
  have hstart : "##:C".toList <+: Block.opening := by decide
  have hdiffer : ¬ "##:C".toList <+: "##:HASHES:0x".toList := by decide
  rw [hashesLine, show hashesLead = '\n' :: "##:HASHES:0x".toList from by decide, List.cons_append,
    Text.infix_line_iff (by decide)]
  rintro (h | h | h)
  · exact hsign (h.subset (by decide))
  · exact hdiffer (List.prefix_of_prefix_length_le (hstart.trans h) (List.prefix_append _ _) (by decide))
  · exact Text.not_infix_of_no_line (newline_not_mem_hashes source block) h

/-- The source is found from behind its block, and from behind the line of digests as well. -/
theorem sourceBefore_block (text source : Text) (bs : Bytes) {behind source' block' : Text}
    (h : behind <+: hashesLine source' block') :
    sourceBefore text (source ++ commentStart ++ Block.encode bs ++ behind) = source := by
  have hopened : source ++ commentStart ++ Block.encode bs ++ behind =
      opened source ++ (Block.lines bs ++ behind) := by
    simp only [opened, Block.encode_eq, List.append_assoc]
  have hlines : Block.lines bs ++ behind <+: Block.lines bs ++ hashesLine source' block' :=
    (List.prefix_append_right_inj _).mpr h
  rw [hopened]
  exact sourceBefore_opened text source fun hopens =>
    not_opening_lines bs source' block' (hopens.trans hlines.isInfix)

/-- The finding on a text whose seal does not fit, with more text between source and comment: never fresh,
and the text in between is part of the code exactly if nothing is made of the trailer. -/
theorem extract_overflow (r : Registry) (added : Text) (h : ¬ Fits source (Block.encode bs)) :
    let text := sealedText source (added ++ commentStart) (Block.encode bs)
    (extract r text).validation ≠ .fresh ∧ (extract r text).executable = none ∧
      (TrailerRefused text → (extract r text).code = source ++ added) ∧
      (¬ TrailerRefused text → (extract r text).code = source) := by
  intro text
  have hsplit : splitAtCounts? text = some (_, _) := splitAtCounts?_sealed source (added ++ commentStart) (Block.encode bs)
  have hbetween : source ++ (added ++ commentStart) ++ Block.encode bs =
      source ++ added ++ commentStart ++ Block.encode bs := by simp only [List.append_assoc]
  cases htrailer : readTrailer (sealedFront source (added ++ commentStart) (Block.encode bs))
      (countsMark ++ countsFields source (Block.encode bs)) with
  | error fault =>
    rw [extract_error hsplit htrailer, sealedFront, hbetween, sourceBefore_block _ _ _ (List.prefix_refl _)]
    exact ⟨Validation.noConfusion, rfl, fun _ => rfl,
      fun hread => absurd (trailerRefused_of_error hsplit htrailer) hread⟩
  | ok t =>
    obtain ⟨hhead, hsource, hunchanged, hblock⟩ := readTrailer_overflow h htrailer
    have hcode : sourceBefore text t.head = source ++ added := by
      have hfront := sourceBefore_block text (source ++ added) bs (List.nil_prefix (l := hashesLine source []))
      rwa [List.append_nil, ← hbetween, ← hhead] at hfront
    have hdecode : decode r t = .error (.codec .noDelimiters) := by
      rw [decode, hblock]
      rfl
    rw [trailerRefused_iff hsplit htrailer, extract_ok hsplit htrailer]
    cases hchanged : t.blockChanged with
    | true =>
      rw [extractTrailer, hunchanged, hchanged]
      exact ⟨Validation.noConfusion, rfl, fun _ => hcode, fun hnot => absurd rfl hnot⟩
    | false =>
      rw [(extractTrailer_unchanged hunchanged hchanged).2 _ hdecode]
      exact ⟨Validation.noConfusion, rfl, fun hrefused => absurd hrefused Bool.false_ne_true, fun _ => hsource⟩

end SealedScript.Artifact
