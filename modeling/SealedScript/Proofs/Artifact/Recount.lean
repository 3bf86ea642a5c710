import SealedScript.Proofs.Artifact.Overflow
import SealedScript.Proofs.Artifact.Recompile

/-!
Other lengths written in the seal of an artifact (`extract_recounted`).

The lengths alone say where source and block are cut out, so wrong ones cut out other parts. A wrong length of the
source gives a shorter or longer front of the text, and a wrong length of the block a shorter or longer end of what
stands in front of the line of digests. Either way the part gains or loses characters that add to its sum: a padded
source ends with line feeds, line feeds enclose the comment's first line, and a block opens with a number sign. As
long as no sum outgrows a signed word, one of the digests then disagrees.
-/

namespace SealedScript.Artifact
set_option autoImplicit false

/-- The text of an artifact with two numbers written in the place of its lengths. -/
def recounted (source block : Text) (m n : Nat) : Text :=
  sealedFront source commentStart block ++ (countsMark ++ numberFields m n)

variable {r : Registry} {code block : Text} {bs : Bytes} {m n : Nat}

/-! ## Parts that are cut out wrong -/

theorem mem_of_ends {c : Char} {t a b : Text} (hends : [c] <:+ t) (h : t = a ++ b) (hb : b ≠ []) : c ∈ b := by
  have hsuffix : [c] <:+ b :=
    List.suffix_of_suffix_length_le hends ⟨a, h.symm⟩ (List.length_pos_iff.mpr hb)
  exact hsuffix.subset (List.mem_singleton.mpr rfl)

theorem mem_of_starts {c : Char} {t a b : Text} (hstarts : [c] <+: t) (h : t = a ++ b) (ha : a ≠ []) : c ∈ a := by
  have hprefix : [c] <+: a :=
    List.prefix_of_prefix_length_le hstarts ⟨b, h.symm⟩ (List.length_pos_iff.mpr ha)
  exact hprefix.subset (List.mem_singleton.mpr rfl)

theorem pad_ends (code : Text) : ['\n'] <:+ pad code :=
  (List.suffix_append ['\n', '\n'] ['\n']).trans (three_suffix_pad code)

/-- Among the fronts of a text, the sum singles out the padded source in front of a line feed. -/
theorem eq_pad_of_unitSum {front rest : Text} (hfront : front <+: pad code ++ '\n' :: rest)
    (hsum : Digest.unitSum front = Digest.unitSum (pad code)) : front = pad code := by
  rcases List.prefix_or_prefix_of_prefix hfront (List.prefix_append (pad code) ('\n' :: rest)) with h | h
  · obtain ⟨lost, hlost⟩ := h
    by_cases hnil : lost = []
    · rw [← hlost, hnil, List.append_nil]
    · have hpos := Digest.unitSum_pos (mem_of_ends (pad_ends code) hlost.symm hnil) (by decide)
      rw [← hlost, Digest.unitSum_append] at hsum
      omega
  · obtain ⟨gained, rfl⟩ := h
    by_cases hnil : gained = []
    · rw [hnil, List.append_nil]
    · obtain ⟨behind, hbehind⟩ := (List.prefix_append_right_inj (pad code)).mp hfront
      have hpos := Digest.unitSum_pos
        (mem_of_starts (List.prefix_append ['\n'] rest) hbehind.symm hnil) (by decide)
      rw [Digest.unitSum_append] at hsum
      omega

/-- Among the ends of a text, the sum singles out the block behind a line feed. -/
theorem eq_block_of_unitSum {outer front cut : Text} (houter : ['\n'] <:+ outer)
    (hcut : outer ++ Block.encode bs = front ++ cut)
    (hsum : Digest.unitSum cut = Digest.unitSum (Block.encode bs)) : cut = Block.encode bs := by
  have hend : cut <:+ outer ++ Block.encode bs := ⟨front, hcut.symm⟩
  rcases List.suffix_or_suffix_of_suffix hend (List.suffix_append outer (Block.encode bs)) with h | h
  · obtain ⟨lost, hlost⟩ := h
    by_cases hnil : lost = []
    · rw [← hlost, hnil, List.nil_append]
    · have hopens : ['#'] <+: Block.encode bs := List.prefix_append ['#'] _
      have hpos := Digest.unitSum_pos (mem_of_starts hopens hlost.symm hnil) (by decide)
      rw [← hlost, Digest.unitSum_append] at hsum
      omega
  · obtain ⟨gained, rfl⟩ := h
    by_cases hnil : gained = []
    · rw [hnil, List.nil_append]
    · rw [← List.append_assoc] at hcut
      have hpos := Digest.unitSum_pos
        (mem_of_ends houter (List.append_cancel_right hcut) hnil) (by decide)
      rw [Digest.unitSum_append] at hsum
      omega

/-! ## Digests that disagree -/

section Reading
variable {t : Trailer} (hm : m < Nat.pow 2 32) (hn : n < Nat.pow 2 32)
  (hread : readTrailer (sealedFront (pad code) commentStart (Block.encode bs)) (countsMark ++ numberFields m n) = .ok t)
include hm hn hread

/-- What is read with other lengths in the seal: its digests, a front of the text and an end of the head. -/
theorem readTrailer_recounted : t.head = pad code ++ commentStart ++ Block.encode bs ∧
    t.sourceDigest = Digest.ofText (pad code) ∧ t.blockDigest = Digest.ofText (Block.encode bs) ∧
    t.source <+: recounted (pad code) (Block.encode bs) m n ∧ (t.split = false → Text.unitLength t.source = m) ∧
    ∃ front, t.head = front ++ t.block ∧ Text.unitLength front + n = Text.unitLength t.head + 1 := by
  obtain ⟨m', n', hcounts, -, hhashes, hblock, hsource⟩ := readTrailer_eq_ok.mp hread
  rw [readCounts_numbers hm hn, Except.ok.injEq, Prod.mk.injEq] at hcounts
  obtain ⟨rfl, rfl⟩ := hcounts
  rw [sealedFront, readHashes_sealed, Except.ok.injEq, Prod.mk.injEq, Prod.mk.injEq] at hhashes
  obtain ⟨hhead, hsourceDigest, hblockDigest⟩ := hhashes
  obtain ⟨hfront, hlength⟩ := cutSource_spec hsource
  exact ⟨hhead.symm, hsourceDigest.symm, hblockDigest.symm, hfront, hlength, cutBlock_spec hblock⟩

variable (hsum : Digest.unitSum (recounted (pad code) (Block.encode bs) m n) < Nat.pow 2 31)
include hsum

theorem length_of_sourceChanged (h : t.sourceChanged = false) : m = Text.unitLength (pad code) := by
  obtain ⟨-, hdigest, -, hfront, hlength, -⟩ := readTrailer_recounted hm hn hread
  obtain ⟨rest, htext⟩ : ∃ rest, recounted (pad code) (Block.encode bs) m n = pad code ++ '\n' :: rest :=
    ⟨'/' :: (rule ++ ['\n']) ++ Block.encode bs ++ hashesLine (pad code) (Block.encode bs) ++
      (countsMark ++ numberFields m n),
      by simp only [recounted, sealedFront, commentStart, List.append_assoc, List.cons_append]⟩
  rw [Trailer.sourceChanged, Bool.or_eq_false_iff, bne_eq_false_iff_eq, hdigest] at h
  obtain ⟨hsplit, hsame⟩ := h
  rw [htext] at hfront hsum
  have hwhole := Digest.unitSum_le_of_infix (List.prefix_append (pad code) ('\n' :: rest)).isInfix
  have hpart := Digest.unitSum_le_of_infix hfront.isInfix
  have hequal := Digest.unitSum_eq_of_ofText (Nat.lt_of_le_of_lt hwhole hsum) (Nat.lt_of_le_of_lt hpart hsum) hsame
  rw [← hlength hsplit, eq_pad_of_unitSum hfront hequal.symm]

theorem length_of_blockChanged (h : t.blockChanged = false) : n = Text.unitLength (Block.encode bs) + 1 := by
  obtain ⟨hhead, -, hdigest, -, -, front, hcut, hlength⟩ := readTrailer_recounted hm hn hread
  have htext : recounted (pad code) (Block.encode bs) m n =
      t.head ++ (hashesLine (pad code) (Block.encode bs) ++ (countsMark ++ numberFields m n)) := by
    simp only [recounted, sealedFront, hhead, List.append_assoc]
  have hline : ['\n'] <:+ pad code ++ commentStart :=
    (List.suffix_append ('\n' :: '/' :: rule) ['\n']).trans (List.suffix_append (pad code) commentStart)
  rw [Trailer.blockChanged, bne_eq_false_iff_eq, hdigest] at h
  rw [htext, Digest.unitSum_append] at hsum
  have hwhole := Digest.unitSum_le_of_infix (List.suffix_append (pad code ++ commentStart) (Block.encode bs)).isInfix
  have hpart := Digest.unitSum_le_of_infix (List.suffix_append front t.block).isInfix
  rw [← hhead] at hwhole
  rw [← hcut] at hpart
  have hequal := Digest.unitSum_eq_of_ofText (s := Block.encode bs) (t := t.block) (by omega) (by omega) h
  have hblock := eq_block_of_unitSum hline (hhead.symm.trans hcut) hequal.symm
  rw [hcut, hblock, Text.unitLength_append] at hlength
  omega

end Reading

/-- **Wrong lengths show**: the artifact is not fresh, and its source is found from the comment. -/
theorem extract_wrong_lengths (r : Registry) (hm : m < Nat.pow 2 32) (hn : n < Nat.pow 2 32)
    (hwrong : (m, n) ≠ (Text.unitLength (pad code), Text.unitLength (Block.encode bs) + 1))
    (hsum : Digest.unitSum (recounted (pad code) (Block.encode bs) m n) < Nat.pow 2 31) :
    (extract r (recounted (pad code) (Block.encode bs) m n)).validation ≠ .fresh ∧
      (extract r (recounted (pad code) (Block.encode bs) m n)).executable = none ∧
      (extract r (recounted (pad code) (Block.encode bs) m n)).code = pad code := by
  have hsplit : splitAtCounts? (recounted (pad code) (Block.encode bs) m n) =
      some (sealedFront (pad code) commentStart (Block.encode bs), countsMark ++ numberFields m n) :=
    splitAtCounts?_line (not_mark_numberFields m n)
  cases hread : readTrailer (sealedFront (pad code) commentStart (Block.encode bs)) (countsMark ++ numberFields m n) with
  | error fault =>
    rw [extract_error hsplit hread]
    exact ⟨Validation.noConfusion, rfl, sourceBefore_block _ (pad code) bs (List.prefix_refl _)⟩
  | ok t =>
    have hchanged : t.sourceChanged = true ∨ t.blockChanged = true := by
      cases hsource : t.sourceChanged with
      | true => exact Or.inl rfl
      | false =>
        cases hblock : t.blockChanged with
        | true => exact Or.inr rfl
        | false =>
          have hsourceLength := length_of_sourceChanged hm hn hread hsum hsource
          have hblockLength := length_of_blockChanged hm hn hread hsum hblock
          exact absurd (by rw [hsourceLength, hblockLength]) hwrong
    obtain ⟨hhead, -⟩ := readTrailer_recounted hm hn hread
    have hcode := sourceBefore_block (recounted (pad code) (Block.encode bs) m n) (pad code) bs
      (List.nil_prefix (l := hashesLine [] []))
    rw [List.append_nil, ← hhead] at hcode
    rw [extract_ok hsplit hread]
    exact ⟨(not_fresh_of_changed hchanged).1, (not_fresh_of_changed hchanged).2, (code_of_changed hchanged).trans hcode⟩

/-! ## Artifacts -/

/-- **Other lengths are never trusted.** An artifact has the lengths of its padded source and of its block, the line
feed behind it counted, in its line of lengths. With any two other numbers in their columns it is not fresh and has no
executable, and the padded source comes out of it to the character. -/
theorem extract_recounted {e : Executable} (hserializable : e.engine.isSerializable = true) (code : Text) :
    ∃ block, blockOf e (pad code) = .ok block ∧
      merge code e = .ok (recounted (pad code) block (Text.unitLength (pad code)) (Text.unitLength block + 1)) ∧
      ∀ (r : Registry) (m n : Nat), m < Nat.pow 2 32 → n < Nat.pow 2 32 →
        (m, n) ≠ (Text.unitLength (pad code), Text.unitLength block + 1) →
        Digest.unitSum (recounted (pad code) block m n) < Nat.pow 2 31 →
        (extract r (recounted (pad code) block m n)).validation ≠ .fresh ∧
          (extract r (recounted (pad code) block m n)).executable = none ∧
          (extract r (recounted (pad code) block m n)).code = pad code :=
  ⟨storedBlock e (pad code), blockOf_eq hserializable (pad code), merge_eq hserializable code,
    fun r _ _ hm hn hwrong hsum => extract_wrong_lengths r hm hn hwrong hsum⟩

/-- A length that ends inside the surrogate pair of the source, and one that reaches into the source for the block. -/
theorem extract_recounted_surrogates :
    ∃ block, merge "// 😀
x 1 +" capturing =
        .ok (recounted (pad "// 😀
x 1 +") block (Text.unitLength (pad "// 😀
x 1 +")) (Text.unitLength block + 1)) ∧
      (extract .builtins (recounted (pad "// 😀
x 1 +") block 4 385)).validation ≠ .fresh ∧
      (extract .builtins (recounted (pad "// 😀
x 1 +") block 4 385)).executable = none ∧
      (extract .builtins (recounted (pad "// 😀
x 1 +") block 4 385)).code = pad "// 😀
x 1 +" := by
  obtain ⟨block, hblock, hmerge, hrecounted⟩ := extract_recounted (e := capturing) rfl "// 😀
x 1 +"
  have hwrong : 4 ≠ Text.unitLength (pad "// 😀\nx 1 +") := by decide +kernel
  have hsum : Digest.unitSum (recounted (pad "// 😀\nx 1 +") block 4 385) < Nat.pow 2 31 := by
    rw [blockOf_eq rfl, Except.ok.injEq] at hblock
    rw [← hblock]
    decide +kernel
  exact ⟨block, hmerge,
    hrecounted .builtins 4 385 (by decide) (by decide) (fun h => hwrong (congrArg Prod.fst h)) hsum⟩

end SealedScript.Artifact
