import SealedScript.Proofs.Artifact.Block
import SealedScript.Proofs.Base64.Canonical
import SealedScript.Proofs.Text.Join

/-!
The texts that a block can have.

Reading a block asks for its delimiters and for the characters between them that are not blank, so it accepts exactly
the texts that have those of the block that writing makes (`decode_eq_ok_iff`). That one is broken into lines of at most
76 columns (`split_encode`, `length_line`).
-/

namespace SealedScript.Block
set_option autoImplicit false

variable {bs : Bytes} {t block body : Text}

/-! ## Delimiters -/

/-- A block whose text between the delimiters is `body`. -/
def written (body : Text) : Text := opening ++ '\n' :: (body ++ '\n' :: closing)

/-- What counts in the text between the delimiters. -/
def compact (body : Text) : Text := body.filter fun c => !Text.isAsciiBlank c

theorem encode_eq_written (bs : Bytes) : encode bs = written (wrap width (Base64.encode bs)) := rfl

theorem compact_wrap (bs : Bytes) : compact (wrap width (Base64.encode bs)) = Base64.encode bs :=
  filter_wrap_symbols width bs

theorem body?_eq_some_iff : body? block = some body ↔ block = written body := by
  rw [body?, Option.bind_eq_bind, Option.bind_eq_some_iff, written]
  constructor
  · rintro ⟨behind, hlead, htail⟩
    rw [Text.dropLead?_eq_some.mp hlead, Text.dropTail?_eq_some.mp htail, List.append_assoc, List.singleton_append]
  · rintro rfl
    refine ⟨body ++ '\n' :: closing, Text.dropLead?_eq_some.mpr ?_, Text.dropTail?_eq_some.mpr rfl⟩
    rw [List.append_assoc, List.singleton_append]

/-- **A block is accepted for what counts between its delimiters.** -/
theorem decode_eq_ok_iff : decode block = .ok bs ↔ ∃ body, block = written body ∧ compact body = Base64.encode bs := by
  constructor
  · intro h
    unfold decode at h
    split at h
    case h_1 => cases h
    case h_2 body hbody =>
      split at h
      case h_1 bytes hbytes =>
        cases h
        exact ⟨body, body?_eq_some_iff.mp hbody, Base64.decode_eq_some_iff.mp hbytes⟩
      case h_2 => cases h
  · rintro ⟨body, rfl, hbody⟩
    have hbytes : Base64.decode (compact body) = some bs := Base64.decode_eq_some_iff.mpr hbody
    rw [compact] at hbytes
    rw [decode, body?_eq_some_iff.mpr rfl]
    simp only [hbytes]

/-! ## Lines -/

theorem length_chunk {columns fuel : Nat} (hcolumns : 0 < columns) (hfuel : t.length ≤ fuel) :
    ∀ line ∈ chunks columns fuel t, line.length ≤ columns := by
  induction fuel generalizing t with
  | zero =>
    intro line hline
    rw [List.mem_singleton.mp hline]
    omega
  | succ fuel ih =>
    rw [chunks]
    split
    case h_1 hlast =>
      intro line hline
      rw [List.mem_singleton.mp hline]
      exact List.drop_eq_nil_iff.mp hlast
    case h_2 =>
      intro line hline
      rcases List.mem_cons.mp hline with rfl | hline
      · exact List.length_take_le columns t
      · exact ih (by rw [List.length_drop]; omega) line hline

/-- The lines of base64 in a block. -/
def linesOf (bs : Bytes) : List Text := chunks width (Base64.encode bs).length (Base64.encode bs)

theorem line_not_mem_chunk (bs : Bytes) {line : Text} (hline : line ∈ linesOf bs) : '\n' ∉ line := by
  intro hbreak
  have hmem : '\n' ∈ Base64.encode bs := by
    rw [← flatten_chunks width (Base64.encode bs).length (Base64.encode bs)]
    exact List.mem_flatten_of_mem hline hbreak
  have hblank := (Base64.encode_symbols bs '\n' hmem).plain.2
  exact absurd hblank (by decide)

theorem length_line {line : Text} (hline : line ∈ linesOf bs) : line.length ≤ 76 :=
  length_chunk (show 0 < width by decide) (Nat.le_refl _) line hline

/-- The lines of a block are its delimiters and, between them, the lines of base64. -/
theorem split_encode (bs : Bytes) : Text.split '\n' (encode bs) = opening :: (linesOf bs ++ [closing]) := by
  have hlines : ∃ p ps, linesOf bs = p :: ps := by
    rw [linesOf]
    cases (Base64.encode bs).length with
    | zero => exact ⟨_, _, rfl⟩
    | succ fuel =>
      rw [chunks]
      split
      case h_1 => exact ⟨_, _, rfl⟩
      case h_2 => exact ⟨_, _, rfl⟩
  obtain ⟨p, ps, hlines⟩ := hlines
  have hfree : ∀ q ∈ p :: ps, '\n' ∉ q := fun q hq => line_not_mem_chunk bs (hlines ▸ hq)
  have hwrap : wrap width (Base64.encode bs) = Text.join ['\n'] (p :: ps) := by rw [wrap, ← hlines, linesOf]
  rw [encode, Text.split_append (by decide), hwrap, Text.split_join_append hfree, hlines]
  rfl

/-! ## All texts of a block -/

/-- **A block stands for its bytes and for nothing else.** It is read back as the bytes that it was made of, its lines
of base64 have at most 76 columns, and what else is read as the same bytes has the same delimiters and, but for white
space, the same text between them. -/
theorem decode_canonical (bs : Bytes) :
    decode (encode bs) = .ok bs ∧
      (∃ lines, Text.split '\n' (encode bs) = opening :: (lines ++ [closing]) ∧ ∀ line ∈ lines, line.length ≤ 76) ∧
      (∃ body, encode bs = written body ∧
        ∀ t, decode t = .ok bs ↔ ∃ body', t = written body' ∧ compact body' = compact body) ∧
      ∀ t t', decode t = .ok bs → decode t' = .ok bs →
        ∃ body body', t = written body ∧ t' = written body' ∧ compact body = compact body' := by
  refine ⟨decode_encode bs, ⟨linesOf bs, split_encode bs, fun line hline => length_line hline⟩, ?_, ?_⟩
  · refine ⟨wrap width (Base64.encode bs), encode_eq_written bs, fun t => ?_⟩
    rw [compact_wrap]
    exact decode_eq_ok_iff
  · intro t t' ht ht'
    obtain ⟨body, rfl, hbody⟩ := decode_eq_ok_iff.mp ht
    obtain ⟨body', rfl, hbody'⟩ := decode_eq_ok_iff.mp ht'
    exact ⟨body, body', rfl, rfl, hbody.trans hbody'.symm⟩

/-- Two bytes, written on one line and on two with spaces around. -/
theorem decode_canonical_spaced :
    decode "##:COMPILED::BASE64 \x7b\nTWE=\n\x7d" = .ok [0x4D, 0x61] ∧
      decode "##:COMPILED::BASE64 \x7b\n TW\r\n\tE= \n\x7d" = .ok [0x4D, 0x61] ∧
      ∃ body body', "##:COMPILED::BASE64 \x7b\nTWE=\n\x7d".toList = written body ∧
        "##:COMPILED::BASE64 \x7b\n TW\r\n\tE= \n\x7d".toList = written body' ∧ compact body = compact body' := by
  have hone : decode "##:COMPILED::BASE64 \x7b\nTWE=\n\x7d" = .ok [0x4D, 0x61] := rfl
  have htwo : decode "##:COMPILED::BASE64 \x7b\n TW\r\n\tE= \n\x7d" = .ok [0x4D, 0x61] := rfl
  exact ⟨hone, htwo, (decode_canonical [0x4D, 0x61]).2.2.2 _ _ hone htwo⟩

end SealedScript.Block
