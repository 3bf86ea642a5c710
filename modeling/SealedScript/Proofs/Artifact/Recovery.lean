import SealedScript.Proofs.Artifact.Extract
import SealedScript.Proofs.Artifact.Seal

/-!
The source of an artifact that is not fresh (`code_of_refused`).

Reading steps back from the last block opening by a margin that ends inside the stars of the comment's
first line, five bytes behind the source, whatever the source is. What stands in front of the line of
digests, or of the line of lengths, always reaches past the opening, so it does not matter which of the two
the search starts from.
-/

namespace SealedScript.Artifact
set_option autoImplicit false

/-! ## From the opening back to the source -/

/-- The text up to the end of the line that opens the block. -/
def opened (source : Text) : Text := source ++ commentStart ++ Block.opening

theorem opened_eq (source rest : Text) :
    opened source ++ rest = (source ++ '\n' :: '/' :: rule) ++ '\n' :: (Block.opening ++ rest) := by
  simp only [opened, commentStart, List.append_assoc, List.cons_append, List.nil_append]

/-- **The margin ends inside the comment's first line**, so the source is cut off in front of it. -/
theorem sourceBefore_opened (text source : Text) {rest : Text} (h : ¬ ('\n' :: Block.opening) <:+: rest) :
    sourceBefore text (opened source ++ rest) = source := by
  have hlast : Text.lastIndexOf? ('\n' :: Block.opening) (opened source ++ rest) =
      some (source ++ '\n' :: '/' :: rule).length := by
    rw [Text.lastIndexOf?_eq_some (by decide), opened_eq]
    exact Text.lastAt_line (by decide) h
  have hahead : (opened source ++ rest).take (source ++ '\n' :: '/' :: rule).length =
      source ++ '\n' :: '/' :: rule := by rw [opened_eq, List.take_left]
  have hstars : '/' :: rule = "/***".toList ++ List.replicate 76 '*' := by decide
  have hsplit : source ++ '\n' :: '/' :: rule = (source ++ '\n' :: "/***".toList) ++ List.replicate 76 '*' := by
    rw [hstars]
    simp
  have hmargin : Text.byteLength (source ++ '\n' :: '/' :: rule) + 4 - commentWidth =
      Text.byteLength (source ++ '\n' :: "/***".toList) := by
    have hlong : Text.byteLength ('\n' :: '/' :: rule) = 81 := by decide
    have hshort : Text.byteLength ('\n' :: "/***".toList) = 5 := by decide
    rw [Text.byteLength_append, Text.byteLength_append, hlong, hshort, commentWidth]
    omega
  have hline : Text.lastIndexOf? ['\n'] (source ++ '\n' :: "/***".toList) = some source.length := by
    rw [Text.lastIndexOf?_eq_some (by decide)]
    exact Text.lastAt_line (p := []) (by decide) (Text.not_infix_of_no_line (by decide))
  rw [sourceBefore, hlast]
  simp only
  rw [hahead, hmargin, hsplit, Text.floorByteIndex_append, List.take_left, hline]
  simp only
  rw [List.take_left]

/-! ## What the search starts from -/

/-- A line of lengths behind the opening leaves the opening in front of it. -/
theorem splitAtCounts?_opened (source : Text) {rest : Text} (h : countsMark <:+: rest) :
    ∃ front counts, front <+: rest ∧ splitAtCounts? (opened source ++ rest) = some (opened source ++ front, counts) := by
  have hwhole : countsMark <:+: opened source ++ rest := h.trans (List.suffix_append _ _).isInfix
  obtain ⟨i, hi⟩ := Text.exists_lastAt (by decide) hwhole
  have hle := hi.length_le h
  refine ⟨rest.take (i - (opened source).length), (opened source ++ rest).drop i, List.take_prefix _ _, ?_⟩
  rw [splitAtCounts?, (Text.lastIndexOf?_eq_some (by decide)).mpr hi, Option.map_some, List.splitAt_eq,
    List.take_append, List.take_of_length_le hle]

/-- A line of digests stands behind the opening as well, which is no such line itself. -/
theorem head_opened {source front counts : Text} {t : Trailer} (h : readTrailer (opened source ++ front) counts = .ok t) :
    ∃ behind, behind <+: front ∧ t.head = opened source ++ behind := by
  obtain ⟨-, -, -, -, hhashes, -, -⟩ := readTrailer_eq_ok.mp h
  obtain ⟨start, hstart, hhead, hlead⟩ := readHashes_spec hhashes
  by_cases hline : '\n' ∈ front
  · obtain ⟨a, b, hfront⟩ := List.append_of_mem hline
    have hle := hstart.length_le (b := front) ⟨a, b, by rw [hfront]; simp⟩
    refine ⟨front.take (start - (opened source).length), List.take_prefix _ _, ?_⟩
    rw [hhead, List.take_append, List.take_of_length_le hle]
  · have hopening : Text.LastAt ['\n'] (opened source ++ front) (source ++ '\n' :: '/' :: rule).length := by
      have hmem : '\n' ∉ Block.opening := by decide
      rw [opened_eq]
      exact Text.lastAt_line (p := []) (by decide) (Text.not_infix_of_no_line fun h => (List.mem_append.mp h).elim hmem hline)
    have hdrop : (opened source ++ front).drop start ++ counts = ('\n' :: Block.opening) ++ (front ++ counts) := by
      rw [hstart.unique hopening, opened_eq, List.drop_left, List.cons_append, List.cons_append, List.append_assoc]
    rw [hdrop] at hlead
    have hdiffer : ¬ hashesLead <+: '\n' :: Block.opening := by decide
    exact absurd (List.prefix_of_prefix_length_le hlead (List.prefix_append _ _) (by decide)) hdiffer

/-! ## Recovery -/

/-- The findings after which the source has to be taken from in front of the comment. -/
def Refused (r : Registry) (text : Text) : Prop :=
  (∃ fault, (extract r text).validation = .malformed fault) ∨ (extract r text).validation = .staleSource ∨
    ((extract r text).validation = .staleCompiled ∧ BlockChanged text)

theorem changed_of_refused {r : Registry} {text before counts : Text} {t : Trailer}
    (hsplit : splitAtCounts? text = some (before, counts)) (hread : readTrailer before counts = .ok t)
    (h : Refused r text) : t.sourceChanged = true ∨ t.blockChanged = true := by
  rw [Refused, extract_ok hsplit hread, blockChanged_iff hsplit hread] at h
  cases hsource : t.sourceChanged with
  | true => exact Or.inl rfl
  | false =>
    cases hblock : t.blockChanged with
    | true => exact Or.inr rfl
    | false =>
      -- Both digests agree, so the text is fresh or its block does not decode: neither is a refusal.
      obtain ⟨hfresh, hstale⟩ := extractTrailer_unchanged hsource hblock
      cases hdecode : decode r t with
      | ok e =>
        rw [hfresh e hdecode] at h
        obtain ⟨fault, h⟩ | h | ⟨h, -⟩ := h <;> cases h
      | error err =>
        rw [hstale err hdecode, hblock] at h
        obtain ⟨fault, h⟩ | h | ⟨-, h⟩ := h <;> cases h

/-- **The source of a refused artifact.** A line of lengths stands somewhere behind the opening and no
further block opens there. Then the source is recovered to the character, whatever it is and however the
rest is damaged. -/
theorem code_of_refused (r : Registry) {source rest : Text} (hcounts : countsMark <:+: rest)
    (hopening : ¬ ('\n' :: Block.opening) <:+: rest) (hrefused : Refused r (opened source ++ rest)) :
    (extract r (opened source ++ rest)).code = source := by
  obtain ⟨front, counts, hfront, hsplit⟩ := splitAtCounts?_opened source hcounts
  have hrecover : ∀ text behind, behind <+: front → sourceBefore text (opened source ++ behind) = source :=
    fun text behind h => sourceBefore_opened text source
      fun hbehind => hopening (hbehind.trans (h.trans hfront).isInfix)
  cases htrailer : readTrailer (opened source ++ front) counts with
  | error fault =>
    rw [extract_error hsplit htrailer]
    exact hrecover _ front (List.prefix_refl front)
  | ok t =>
    obtain ⟨behind, hbehind, hhead⟩ := head_opened htrailer
    rw [extract_ok hsplit htrailer, code_of_changed (changed_of_refused hsplit htrailer hrefused), hhead]
    exact hrecover _ behind hbehind

/-- A source with an opening of its own. -/
def edited : Text := "\u00fc\n##:COMPILED::BASE64 \x7b\n\u20ac"

/-- The rest of an artifact whose lengths do not belong to the source in front of it. -/
def damaged : Text :=
  "\nAA==\n\x7d\n##:HASHES:0x       0-0x       0;\n##:COUNTS:0x       1-0x       2;\n*/"

theorem code_of_refused_edited : (extract .builtins (opened edited ++ damaged)).code = edited :=
  code_of_refused .builtins (by decide +kernel) (by decide +kernel) (Or.inr (Or.inl (by decide +kernel)))

end SealedScript.Artifact
