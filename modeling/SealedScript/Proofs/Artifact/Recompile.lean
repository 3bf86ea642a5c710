import SealedScript.Artifact.Resolve
import SealedScript.Proofs.Artifact.RoundTrip
import SealedScript.Proofs.Registry

/-!
Compiling artifacts anew.

What is compiled is padded, and padding twice is padding once (`pad_pad`), so a source that comes back out
of an artifact compiles to what it compiled to before. `recompile_spec` says what a text that was compiled
anew consists of, and `recompile_recompile` that nothing is left to do about it.
-/

namespace SealedScript.Artifact
set_option autoImplicit false

/-! ## Padding -/

/-- How many line feeds a text ends with, three at most. -/
def lineFeeds (t : Text) : Nat := ((t.reverse.take 3).takeWhile (· == '\n')).length

theorem pad_eq (t : Text) : pad t = t ++ List.replicate (3 - lineFeeds t) '\n' := rfl

theorem prefix_pad (t : Text) : t <+: pad t := List.prefix_append _ _

theorem lineFeeds_le (t : Text) : lineFeeds t ≤ 3 := by
  have htake := (List.takeWhile_sublist (· == '\n') (l := t.reverse.take 3)).length_le
  rw [List.length_take] at htake
  rw [lineFeeds]
  omega

theorem replicate_prefix_reverse (t : Text) : List.replicate (lineFeeds t) '\n' <+: t.reverse := by
  have hsame : (t.reverse.take 3).takeWhile (· == '\n') = List.replicate (lineFeeds t) '\n' := by
    refine List.eq_replicate_iff.mpr ⟨rfl, fun c hc => ?_⟩
    exact beq_iff_eq.mp (List.all_eq_true.mp List.all_takeWhile c hc)
  rw [← hsame]
  exact (List.takeWhile_prefix _).trans (List.take_prefix 3 _)

theorem lineFeeds_pad (t : Text) : lineFeeds (pad t) = 3 := by
  have hle := lineFeeds_le t
  obtain ⟨rest, hrest⟩ := replicate_prefix_reverse t
  have hreverse : (pad t).reverse = List.replicate 3 '\n' ++ rest := by
    rw [pad_eq, List.reverse_append, List.reverse_replicate, ← hrest, ← List.append_assoc,
      List.replicate_append_replicate, Nat.sub_add_cancel hle]
  rw [lineFeeds, hreverse]
  rfl

/-- **Padding twice is padding once.** -/
theorem pad_pad (t : Text) : pad (pad t) = pad t := by
  rw [pad_eq (pad t), lineFeeds_pad, Nat.sub_self, List.replicate_zero, List.append_nil]

theorem three_suffix_pad (t : Text) : List.replicate 3 '\n' <:+ pad t := by
  have hmark := replicate_prefix_reverse (pad t)
  rw [lineFeeds_pad] at hmark
  exact List.reverse_prefix.mp hmark

/-- A padded text is no artifact: whatever looks like a line of lengths has further lines behind it. -/
theorem readCounts_pad {t before counts : Text} (h : splitAtCounts? (pad t) = some (before, counts)) :
    readCounts counts = .error .linesAfterCounts := by
  obtain ⟨k, hk, hparts⟩ := Option.map_eq_some_iff.mp h
  rw [List.splitAt_eq] at hparts
  obtain ⟨-, rfl⟩ := Prod.mk.inj hparts
  obtain ⟨hmark, -⟩ := (Text.lastIndexOf?_eq_some (by decide)).mp hk
  have hlength : 4 ≤ ((pad t).drop k).length := Nat.le_trans (by decide) hmark.length_le
  have hthree : List.replicate 3 '\n' <:+ (pad t).drop k :=
    List.suffix_of_suffix_length_le (three_suffix_pad t) (List.drop_suffix k (pad t))
      (by rw [List.length_replicate]; omega)
  obtain ⟨front, hfront⟩ := hthree
  have hcount : (((pad t).drop k).drop 1).count '\n' ≠ 1 := by
    have hnonempty : 1 ≤ front.length := by
      rw [← hfront, List.length_append, List.length_replicate] at hlength
      omega
    rw [← hfront, List.drop_append_of_le_length hnonempty, List.count_append, List.count_replicate_self]
    omega
  rw [readCounts, if_pos hcount]
  rfl

theorem executable_extract_pad (r : Registry) (t : Text) : (extract r (pad t)).executable = none := by
  cases hsplit : splitAtCounts? (pad t) with
  | none =>
    rw [extract, hsplit]
  | some parts =>
    have hread : readTrailer parts.1 parts.2 = .error .linesAfterCounts := by
      rw [readTrailer, readCounts_pad hsplit]
      rfl
    rw [extract_error hsplit hread]

/-! ## Compiling anew -/

variable {r : Registry} {g : Engine} {name text m : Text} {e : Executable}

theorem recompile_intro {code : Text} (hcode : pad (extract r text).code = code)
    (hcompile : r.compile name code = .ok e) (hmerge : merge code e = .ok m) :
    recompile r name text = .ok (e, m) := by
  rw [recompile]
  simp only [hcode, hcompile, hmerge, bind, Except.bind, pure, Except.pure]

theorem recompile_spec (h : recompile r name text = .ok (e, m)) :
    e.code = pad (extract r text).code ∧ pad e.code = e.code ∧ r.compile name e.code = .ok e ∧
      merge e.code e = .ok m := by
  obtain ⟨e', hcompile, h⟩ := bind_eq_ok.mp h
  obtain ⟨m', hmerge, h⟩ := bind_eq_ok.mp h
  cases h
  obtain ⟨g, -, hengine⟩ := Registry.compile_spec hcompile
  obtain ⟨-, hcode, -⟩ := Engine.compile_spec hengine
  rw [← hcode] at hcompile hmerge
  exact ⟨hcode, by rw [hcode, pad_pad], hcompile, hmerge⟩

theorem recompile_compiled (h : recompile r name text = .ok (e, m)) : ∃ program, e.Compiled program := by
  obtain ⟨-, -, hcompile, -⟩ := recompile_spec h
  obtain ⟨g, -, hengine⟩ := Registry.compile_spec hcompile
  exact (Engine.compile_spec hengine).2.2

/-- A text from which the same source comes is compiled to the same artifact. -/
theorem recompile_eq {text' : Text} (h : recompile r name text = .ok (e, m))
    (hcode : pad (extract r text').code = e.code) : recompile r name text' = .ok (e, m) := by
  obtain ⟨-, -, hcompile, hmerge⟩ := recompile_spec h
  exact recompile_intro hcode hcompile hmerge

theorem recompile_sealed (h : recompile r name text = .ok (e, m)) (hserializable : e.engine.isSerializable = true) :
    m = sealedText e.code commentStart (storedBlock e e.code) := by
  obtain ⟨-, hpad, -, hmerge⟩ := recompile_spec h
  rw [merge_eq hserializable, hpad, Except.ok.injEq] at hmerge
  exact hmerge.symm

theorem recompile_comment (h : recompile r name text = .ok (e, m)) (hserializable : e.engine.isSerializable = true) :
    m = e.code ++ '\n' :: comment e.code (storedBlock e e.code) := by
  have happend := append_comment e.code [] (storedBlock e e.code)
  rw [List.append_nil, List.nil_append] at happend
  rw [recompile_sealed h hserializable, happend]

theorem recompile_source (h : recompile r name text = .ok (e, m)) (hserializable : e.engine.isSerializable = false) :
    m = e.code := by
  obtain ⟨-, hpad, -, hmerge⟩ := recompile_spec h
  rw [merge, hserializable, Bool.and_false, if_neg Bool.false_ne_true, hpad, Except.ok.injEq] at hmerge
  exact hmerge.symm

theorem code_prefix_recompile (h : recompile r name text = .ok (e, m)) : e.code <+: m := by
  cases hserializable : e.engine.isSerializable with
  | true =>
    rw [recompile_comment h hserializable]
    exact List.prefix_append _ _
  | false =>
    have hm := recompile_source h hserializable
    exact hm ▸ List.prefix_refl e.code

theorem recompile_of_compile (hcode : pad (extract r text).code = e.code)
    (hcompile : r.compile name e.code = .ok e) (hserializable : e.engine.isSerializable = true) :
    recompile r name text = .ok (e, e.code ++ '\n' :: comment e.code (storedBlock e e.code)) := by
  have hrecompile : recompile r name text =
      .ok (e, sealedText (pad e.code) commentStart (storedBlock e (pad e.code))) :=
    recompile_intro hcode hcompile (merge_eq hserializable e.code)
  rw [hrecompile, recompile_comment hrecompile hserializable]

/-- What was compiled is read back, under the only engine of the registry, as far as the lengths fit. -/
theorem extract_recompile (hr : r.engines = [g]) (h : recompile r name text = .ok (e, m))
    (hserializable : e.engine.isSerializable = true) (hfits : Fits e.code (storedBlock e e.code)) :
    extract r m = ⟨.fresh, e.code, some (e.stored g)⟩ := by
  obtain ⟨program, hcompiled⟩ := recompile_compiled h
  have hresolve : r.resolve e.engine.name e.engine.parameter = .ok g := by
    rw [Engine.eq_compiling hserializable]
    exact Registry.resolve_name hr .compiling
  rw [recompile_sealed h hserializable]
  exact extract_sealed hcompiled hresolve _ hfits

/-! ## A script -/

/-- A script of one number that asks for its engine in the given words. -/
def sample (words : Text) : Text := "// @" ++ words ++ ":\n// \x7b script \x7d\n1\n"

def compiledSample (words : Text) : Executable where
  engine := .compiling
  code := sample words ++ ['\n', '\n']
  frozen := .empty
  captured := []
  shape := .script
  body := .attached ⟨[.push (.int 1)], false⟩

/-! ## Compiling twice -/

/-- **Compiling is idempotent.** What was compiled under the engine of the built-in registry, whatever the
default, compiles to itself, and is fresh with the same source and record. -/
theorem recompile_recompile {default : Option Text} (hr : Registry.builtins.setDefault default = .ok r)
    (h : recompile r name text = .ok (e, m)) (hserializable : e.engine.isSerializable = true)
    (hsource : Text.unitLength e.code < Nat.pow 2 32 - 1)
    (hblock : ∀ block, blockOf e e.code = .ok block → Text.unitLength block < Nat.pow 2 32 - 1) :
    recompile r name m = .ok (e, m) ∧
      ∃ stored, extract r m = ⟨.fresh, e.code, some stored⟩ ∧
        ∃ record, e.toRecord = .ok record ∧ stored.toRecord = .ok record := by
  obtain ⟨-, hpad, -, -⟩ := recompile_spec h
  have hengines : r.engines = [.compiling] := Registry.setDefault_engines hr
  have hextract := extract_recompile hengines h hserializable (fits_of_lengths hserializable hsource hblock)
  refine ⟨recompile_eq h (by rw [hextract]; exact hpad), e.stored .compiling, hextract, e.form, ?_, ?_⟩
  · exact Executable.toRecord_eq hserializable
  · rw [Executable.toRecord_eq rfl, Executable.stored_form]

theorem recompile_recompile_sample :
    ∃ r m, Registry.builtins.setDefault (some "RPN") = .ok r ∧
      recompile r "t.rpn" (sample "RPN") = .ok (compiledSample "RPN", m) ∧
      recompile r "t.rpn" m = .ok (compiledSample "RPN", m) ∧
      ∃ stored, extract r m = ⟨.fresh, (compiledSample "RPN").code, some stored⟩ ∧
        ∃ record, (compiledSample "RPN").toRecord = .ok record ∧ stored.toRecord = .ok record := by
  have hr : Registry.builtins.setDefault (some "RPN") = .ok ⟨[.compiling], some "RPN"⟩ := rfl
  have h : recompile ⟨[.compiling], some "RPN"⟩ "t.rpn" (sample "RPN") = .ok (compiledSample "RPN", _) :=
    recompile_of_compile (by decide +kernel) rfl rfl
  refine ⟨_, _, hr, h, recompile_recompile hr h rfl (by decide +kernel) fun block hblock => ?_⟩
  rw [blockOf_eq rfl, Except.ok.injEq] at hblock
  rw [← hblock]
  decide +kernel

end SealedScript.Artifact
