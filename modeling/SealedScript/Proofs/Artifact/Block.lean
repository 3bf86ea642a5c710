import SealedScript.Artifact.Block
import SealedScript.Proofs.Base64
import SealedScript.Proofs.Text.Search

/-!
Compiled blocks read back (`decode_encode`).

The two number signs that a block opens with are the only ones it has. So what is left of a block when
something is cut off its front is not a block any more (`decode_of_cut`).
-/

namespace SealedScript.Block
set_option autoImplicit false

/-! ## Lines of base64 -/

theorem flatten_chunks (width fuel : Nat) (t : Text) : (chunks width fuel t).flatten = t := by
  induction fuel generalizing t with
  | zero => rw [chunks, List.flatten_singleton]
  | succ fuel ih =>
    rw [chunks]
    split
    · rw [List.flatten_singleton]
    · rw [List.flatten_cons, ih, List.take_append_drop]

/-- What is looked for apart from line feeds is found the same with or without line breaks. -/
theorem filter_join {p : Char → Bool} (hp : p '\n' = false) (ts : List Text) :
    (Text.join ['\n'] ts).filter p = ts.flatten.filter p := by
  rw [Text.join]
  induction ts with
  | nil => rfl
  | cons t ts ih =>
    cases ts with
    | nil => rfl
    | cons u us =>
      have hbreak : ['\n'].filter p = [] := by rw [List.filter_cons, if_neg (by rw [hp]; decide), List.filter_nil]
      rw [List.intersperse_cons_cons, List.flatten_cons, List.flatten_cons, List.filter_append,
        List.filter_append, ih, hbreak, List.nil_append, ← List.filter_append, ← List.flatten_cons]

theorem filter_wrap {p : Char → Bool} (hp : p '\n' = false) (width : Nat) (t : Text) :
    (wrap width t).filter p = t.filter p := by
  rw [wrap, filter_join hp, flatten_chunks]

/-- Breaking symbols into lines and dropping what is blank leaves the symbols. -/
theorem filter_wrap_symbols (width : Nat) (bs : Bytes) :
    (wrap width (Base64.encode bs)).filter (fun c => !Text.isAsciiBlank c) = Base64.encode bs := by
  rw [filter_wrap (by decide), List.filter_eq_self]
  intro c hc
  rw [(Base64.encode_symbols bs c hc).plain.2]
  rfl

theorem count_wrap_symbols (width : Nat) (bs : Bytes) : (wrap width (Base64.encode bs)).count '#' = 0 := by
  rw [List.count_eq_length_filter, filter_wrap (by decide), List.length_eq_zero_iff, List.filter_eq_nil_iff]
  intro c hc
  simpa using (Base64.encode_symbols bs c hc).plain.1

/-! ## Blocks -/

def lines (bs : Bytes) : Text := '\n' :: (wrap width (Base64.encode bs) ++ '\n' :: closing)

theorem encode_eq (bs : Bytes) : encode bs = opening ++ lines bs := rfl

theorem count_lines (bs : Bytes) : (lines bs).count '#' = 0 := by
  rw [lines, List.count_cons, List.count_append, count_wrap_symbols]
  decide

theorem body?_encode (bs : Bytes) : body? (encode bs) = some (wrap width (Base64.encode bs)) := by
  have hlead : Text.dropLead? (opening ++ ['\n']) (encode bs) =
      some (wrap width (Base64.encode bs) ++ '\n' :: closing) :=
    Text.dropLead?_eq_some.mpr (by rw [encode_eq, lines, List.append_assoc, List.singleton_append])
  have htail : Text.dropTail? ('\n' :: closing) (wrap width (Base64.encode bs) ++ '\n' :: closing) =
      some (wrap width (Base64.encode bs)) := Text.dropTail?_eq_some.mpr rfl
  rw [body?, hlead]
  exact htail

/-- **A block holds the bytes that it was made of.** -/
theorem decode_encode (bs : Bytes) : decode (encode bs) = .ok bs := by
  rw [decode, body?_encode]
  simp only
  rw [filter_wrap_symbols, Base64.decode_encode]

/-- What is left of a block without its front is not a block. -/
theorem decode_of_cut {bs : Bytes} {front rest : Text} (h : encode bs = front ++ rest) (hfront : front ≠ []) :
    decode rest = .error .noDelimiters := by
  have hcount := congrArg (List.count '#') h
  rw [encode_eq, List.count_append, count_lines, List.count_append] at hcount
  have hbody : body? rest = none := by
    cases hlead : Text.dropLead? (opening ++ ['\n']) rest with
    | none =>
      rw [body?, hlead]
      rfl
    | some behind =>
      obtain ⟨c, front, rfl⟩ := List.exists_cons_of_ne_nil hfront
      have hc : c = '#' := by
        have hhead := congrArg List.head? h
        rw [encode_eq, List.cons_append, List.head?_cons] at hhead
        exact (Option.some.inj hhead).symm
      rw [Text.dropLead?_eq_some.mp hlead, hc, List.count_cons, List.count_append, List.count_append] at hcount
      have hopening : List.count '#' opening = 2 := by decide
      rw [hopening] at hcount
      simp at hcount
      omega
  rw [decode, hbody]

/-! ## Sizes -/

theorem length_le_encode (bs : Bytes) : bs.length ≤ (encode bs).length := by
  have hsymbols := Base64.length_le_encode bs
  have hfilter := List.length_filter_le (fun c => !Text.isAsciiBlank c) (wrap width (Base64.encode bs))
  rw [filter_wrap_symbols] at hfilter
  rw [encode_eq, lines, List.length_append, List.length_cons, List.length_append]
  omega

end SealedScript.Block
