import SealedScript.Proofs.Header.Spelling
import SealedScript.Proofs.Text.Join

/-!
Displayed signatures are read back.

The text of a signature is one of the spellings of an info block, its parameters are separated by commas and none of
them holds a comma, a colon or a dot. So in braces it is read as a function with the same signature, whose
parameters are named by their places, and without its leading word it is read as a signature (`ofCode?_display`).
-/

namespace SealedScript
set_option autoImplicit false

/-! ## Pieces of a parameter list -/

namespace Header

theorem paramPieces_join {ps : List Text} (hfirm : ∀ p ∈ ps, Text.Firm p) (hcomma : ∀ p ∈ ps, ',' ∉ p) :
    paramPieces (Text.join [',', ' '] ps) = ps := by
  cases ps with
  | nil => rfl
  | cons p ps =>
    have hjoin := Text.Firm.join hfirm [',', ' ']
    have htrimmed : (p :: ps.map (' ' :: ·)).map Text.trim = p :: ps := by
      rw [List.map_cons, List.map_map, (hfirm p List.mem_cons_self).trim_eq]
      refine congrArg (p :: ·) ((List.map_congr_left fun q hq => ?_).trans (List.map_id ps))
      exact (Text.append_trim Text.Gap.space.blank).trans (hfirm q (List.mem_cons_of_mem p hq)).trim_eq
    rw [paramPieces, hjoin.trim_eq]
    simp only [List.isEmpty_iff, hjoin.ne_nil, if_false]
    rw [Text.split_join hcomma (by decide), htrimmed]

/-! ## Displayed types -/

variable {c : Char} {ty : Ty} {types : List Ty} {variadic : Bool}

theorem mem_display (h : c ∈ ty.display) : Text.isLetterOrDigit c = true ∨ c = '[' ∨ c = ']' := by
  rw [Ty.display_eq, List.mem_append] at h
  rcases h with h | h
  · exact Or.inl (ty.display_innermost.2 c h)
  · obtain ⟨b, hb, hc⟩ := List.mem_flatMap.mp h
    rw [List.eq_of_mem_replicate hb] at hc
    exact Or.inr (by simpa [Ty.Brackets.text, Ty.Brackets.plain, Text.Gap.none] using hc)

theorem not_mem_display (hletter : Text.isLetterOrDigit c = false) (hbracket : c ≠ '[' ∧ c ≠ ']') : c ∉ ty.display := by
  intro h
  rcases mem_display h with h | h | h
  · exact Bool.false_ne_true (hletter.symm.trans h)
  · exact hbracket.1 h
  · exact hbracket.2 h

theorem not_blank_of_mem_display (h : c ∈ ty.display) : Text.isBlank c = false := by
  rcases mem_display h with h | rfl | rfl
  · exact isBlank_of_isTypeChar (by simp [isTypeChar, h])
  · decide
  · decide

theorem display_ne_nil (ty : Ty) : ty.display ≠ [] := by
  rw [Ty.display_eq]
  exact List.append_ne_nil_of_left_ne_nil ty.display_innermost.1 _

theorem firm_display (ty : Ty) : Text.Firm ty.display :=
  ⟨display_ne_nil ty, fun _ hc => not_blank_of_mem_display (List.mem_of_mem_head? hc),
    fun _ hc => not_blank_of_mem_display (List.mem_of_mem_getLast? hc)⟩

/-! ## Displayed parameters -/

/-- The texts of parameters; behind the last one an ellipsis may stand. -/
def paramTexts (variadic : Bool) : List Ty → List Text
  | [] => []
  | [ty] => [ty.display ++ if variadic then " ...".toList else []]
  | ty :: ty' :: types => ty.display :: paramTexts variadic (ty' :: types)

theorem mem_paramTexts {p : Text} (h : p ∈ paramTexts variadic types) :
    ∃ ty : Ty, p = ty.display ∨ p = ty.display ++ " ...".toList := by
  fun_induction paramTexts variadic types with
  | case1 => cases h
  | case2 ty =>
    rw [List.mem_singleton.mp h]
    cases variadic
    · exact ⟨ty, Or.inl (List.append_nil _)⟩
    · exact ⟨ty, Or.inr rfl⟩
  | case3 ty ty' types ih =>
    rcases List.mem_cons.mp h with rfl | h
    · exact ⟨ty, Or.inl rfl⟩
    · exact ih h

theorem firm_paramTexts {p : Text} (h : p ∈ paramTexts variadic types) : Text.Firm p := by
  have hdots : Text.Firm "...".toList :=
    ⟨by decide, fun c hc => Option.some.inj hc ▸ rfl, fun c hc => Option.some.inj hc ▸ rfl⟩
  obtain ⟨ty, rfl | rfl⟩ := mem_paramTexts h
  · exact firm_display ty
  · exact Text.Firm.append (u := [' ']) (firm_display ty) hdots

theorem comma_not_mem_paramTexts {p : Text} (h : p ∈ paramTexts variadic types) : ',' ∉ p := by
  have hdisplay : ∀ ty : Ty, ',' ∉ ty.display := fun ty => not_mem_display (by decide) (by decide)
  obtain ⟨ty, rfl | rfl⟩ := mem_paramTexts h
  · exact hdisplay ty
  · simp [hdisplay ty]

theorem isParamChar_of_mem_display (h : c ∈ ty.display) : isParamChar c = true := by
  simp only [isParamChar, Bool.and_eq_true, bne_iff_ne]
  rcases mem_display h with h | rfl | rfl
  · refine ⟨⟨?_, ?_⟩, ?_⟩ <;> rintro rfl <;> cases h
  · decide
  · decide

theorem isParamChar_of_mem_paramTexts {p : Text} (h : p ∈ paramTexts variadic types) (hc : c ∈ p) :
    isParamChar c = true := by
  have hdots : ∀ c ∈ " ...".toList, isParamChar c = true := List.all_eq_true.mp rfl
  obtain ⟨ty, rfl | rfl⟩ := mem_paramTexts h
  · exact isParamChar_of_mem_display hc
  · rcases List.mem_append.mp hc with hc | hc
    · exact isParamChar_of_mem_display hc
    · exact hdots c hc

theorem join_paramTexts (h : variadic = true → types ≠ []) : Text.join [',', ' '] (paramTexts variadic types) =
    Text.join [',', ' '] (types.map Ty.display) ++ if variadic then " ...".toList else [] := by
  fun_induction paramTexts variadic types with
  | case1 =>
    cases variadic
    · rfl
    · exact absurd rfl (h rfl)
  | case2 ty => simp [Text.join]
  | case3 ty ty' types ih =>
    have hrest := ih fun _ => List.cons_ne_nil ty' types
    obtain ⟨q, qs, hq⟩ : ∃ q qs, paramTexts variadic (ty' :: types) = q :: qs := by
      cases types <;> exact ⟨_, _, rfl⟩
    rw [hq] at hrest ⊢
    rw [Text.join_cons_cons, hrest]
    simp only [List.map_cons, Text.join_cons_cons, List.append_assoc]

/-! ## Reading displayed parameters -/

theorem writtenParam_of_no_colon {index : Nat} {piece : Text} (h : ':' ∉ piece) :
    writtenParam index piece = (CallShape.positionalName index, piece) := by
  have hspan : piece.span (· != ':') = (piece, []) := by
    refine Text.span_eq_iff.mpr ⟨(List.append_nil _).symm, fun c hc => ?_, nofun⟩
    rw [bne_iff_ne]
    rintro rfl
    exact h hc
  rw [writtenParam, Text.splitFirst?, hspan]

theorem positionalName_ne_nil (index : Nat) : CallShape.positionalName index ≠ [] :=
  List.append_ne_nil_of_left_ne_nil (by decide) _

theorem colon_not_mem_display (ty : Ty) : ':' ∉ ty.display := not_mem_display (by decide) (by decide)

theorem readParam_display (text : Text) (index : Nat) (isLast : Bool) (ty : Ty) :
    readParam text index isLast ty.display = .ok ⟨CallShape.positionalName index, ty, false⟩ := by
  have hdots : Text.dropTail? "..." ty.display = none := by
    cases htail : Text.dropTail? "..." ty.display with
    | none => rfl
    | some element =>
      have hdot : '.' ∈ ty.display := by
        rw [Text.dropTail?_eq_some.mp htail]
        simp
      exact absurd hdot (not_mem_display (by decide) (by decide))
  rw [readParam_eq_ok, writtenParam_of_no_colon (colon_not_mem_display ty), WritesType, hdots]
  exact ⟨rfl, positionalName_ne_nil index, rfl, ty.parse_display⟩

theorem readParam_ellipsis (text : Text) (index : Nat) (ty : Ty) :
    readParam text index true (ty.display ++ " ...".toList) = .ok ⟨CallShape.positionalName index, ty, true⟩ := by
  have hcolon : ':' ∉ ty.display ++ " ...".toList := by simp [colon_not_mem_display ty]
  have hdots : Text.dropTail? "..." (ty.display ++ " ...".toList) = some (ty.display ++ [' ']) :=
    Text.dropTail?_eq_some.mpr (by simp)
  rw [readParam_eq_ok, writtenParam_of_no_colon hcolon, WritesType, hdots]
  have htrim : Text.trim (ty.display ++ [' ']) = ty.display :=
    (Text.trim_append Text.Gap.space.blank).trans (firm_display ty).trim_eq
  simp only [htrim]
  exact ⟨trivial, positionalName_ne_nil index, trivial, trivial, ty.parse_display⟩

/-- What is read of displayed parameters. -/
theorem readParams_paramTexts (text : Text) (index : Nat) (variadic : Bool) (types : List Ty) :
    ∃ params, readParams text index (paramTexts variadic types) = .ok params ∧ params.map Param.ty = types ∧
      params.map Param.name = (List.range' index types.length).map CallShape.positionalName ∧
      params.any Param.variadic = (variadic && !types.isEmpty) := by
  fun_induction paramTexts variadic types generalizing index with
  | case1 => exact ⟨[], rfl, rfl, rfl, by simp⟩
  | case2 ty =>
    have hread : readParam text index true (ty.display ++ if variadic then " ...".toList else []) =
        .ok ⟨CallShape.positionalName index, ty, variadic⟩ := by
      cases variadic with
      | true => exact readParam_ellipsis text index ty
      | false =>
        rw [if_neg Bool.false_ne_true, List.append_nil]
        exact readParam_display text index true ty
    exact ⟨[_], bind_eq_ok.mpr ⟨_, hread, rfl⟩, rfl, rfl, by simp⟩
  | case3 ty ty' types ih =>
    obtain ⟨params, hread, htypes, hnames, hvariadic⟩ := ih (index + 1)
    refine ⟨⟨CallShape.positionalName index, ty, false⟩ :: params,
      bind_eq_ok.mpr ⟨_, readParam_display text index _ ty, bind_eq_ok.mpr ⟨params, hread, rfl⟩⟩, ?_, ?_, ?_⟩
    · rw [List.map_cons, htypes]
    · rw [List.map_cons, hnames]
      rfl
    · simp [hvariadic]

end Header

/-! ## Displayed signatures -/

namespace Signature

variable (s : Signature)

theorem displayParams_eq : s.displayParams = Text.join [',', ' '] (Header.paramTexts s.variadic s.params) :=
  (Header.join_paramTexts s.params_of_variadic).symm

theorem isParamChar_of_mem_displayParams {c : Char} (h : c ∈ s.displayParams) : Header.isParamChar c = true := by
  rw [displayParams_eq] at h
  have hseparator : ∀ c ∈ [',', ' '], Header.isParamChar c = true := List.all_eq_true.mp rfl
  rcases Text.mem_join h with h | ⟨p, hp, hc⟩
  · exact hseparator c h
  · exact Header.isParamChar_of_mem_paramTexts hp hc

/-- The text of a signature behind its leading word. -/
def written : Header.WrittenSignature where
  params := s.displayParams
  beforeColon := .none
  behindColon := .none
  name := s.returns.innermost.display
  brackets := List.replicate s.returns.depth .plain
  params_plain := fun _ => s.isParamChar_of_mem_displayParams
  name_plain := fun c hc => by simp [Header.isTypeChar, s.returns.display_innermost.2 c hc]
  name_ne_nil := s.returns.display_innermost.1

theorem returns_written : s.written.returns = s.returns.display := s.returns.display_eq.symm

theorem display_written : s.display = "function ".toList ++ s.written.text := by
  have htext : s.written.text = '(' :: (s.displayParams ++ ')' :: ':' :: s.returns.display) := by
    rw [Header.WrittenSignature.text, Header.WrittenSignature.behindParams, returns_written]
    rfl
  have hword : "function (".toList = "function ".toList ++ ['('] := by decide
  have hclosing : ")".toList = [')'] := by decide
  rw [htext]
  unfold display
  simp only [hword, hclosing, List.append_assoc, List.cons_append, List.nil_append]

theorem readSignature_written (name : Option Text) : Header.readSignature name s.written.text =
    .ok ⟨s.renamed name, (List.range s.params.length).map CallShape.positionalName⟩ := by
  obtain ⟨params, hread, htypes, hnames, hvariadic⟩ :=
    Header.readParams_paramTexts s.written.text 0 s.variadic s.params
  have hpieces : Header.paramPieces s.written.params = Header.paramTexts s.variadic s.params := by
    have hparams : s.written.params = Text.join [',', ' '] (Header.paramTexts s.variadic s.params) := s.displayParams_eq
    rw [hparams]
    exact Header.paramPieces_join (fun _ => Header.firm_paramTexts) fun _ => Header.comma_not_mem_paramTexts
  have hany : params.any Header.Param.variadic = s.variadic := by
    rw [hvariadic]
    cases hs : s.variadic with
    | false => rfl
    | true => simp [s.params_of_variadic hs]
  refine Header.readSignature_text_eq_ok.mpr ⟨s.returns, params, ?_, ?_, ?_, ?_⟩
  · rw [returns_written, Ty.parse_display]
  · rw [hpieces, hread]
  · rw [htypes, hany]
    exact make_eq_ok.mpr ⟨⟨s.params_of_variadic, s.returns_boxed, s.params_boxed⟩, rfl⟩
  · rw [hnames, List.range_eq_range']

/-- The text of a signature in braces. -/
def writtenBlock : Header.WrittenBlock := Header.DeclaredKind.function.block s.written

theorem text_writtenBlock : s.writtenBlock.text = "\x7b ".toList ++ (s.display ++ " \x7d".toList) := by
  rw [display_written]
  rfl

/-- **A displayed signature is read back.** In braces it declares a function of that signature, with parameters that are
named by their places, and without its leading word it is read as that signature; a displayed type is read as that
type. -/
theorem ofCode?_display (s : Signature) (fileName : Option Text) :
    (∃ info call, Header.Info.ofCode? fileName ("\x7b ".toList ++ (s.display ++ " \x7d".toList)) = .ok (some info) ∧
        info.kind = .function ∧ info.declared = some call ∧ call.signature.sameContract s = true ∧
        call.signature = s.renamed fileName ∧
        call.paramNames = (List.range s.params.length).map CallShape.positionalName) ∧
      (∃ written read, s.display = "function ".toList ++ written ∧ ofText written = .ok read ∧
        read.sameContract s = true ∧ read = s.renamed none) ∧
      ∀ ty : Ty, Ty.parse ty.display = .ok ty := by
  have hsame : ∀ name, (s.renamed name).sameContract s = true := fun name => by simp [sameContract, renamed]
  refine ⟨?_, ?_, Ty.parse_display⟩
  · have hdeclared := Header.ofCode?_text fileName (Header.firstIn_text s.writtenBlock) rfl
      (show s.writtenBlock.word = Header.DeclaredKind.function.display from rfl) (by decide)
    rw [text_writtenBlock, readSignature_written] at hdeclared
    exact ⟨_, _, hdeclared, rfl, rfl, hsame fileName, rfl, rfl⟩
  · refine ⟨s.written.text, _, s.display_written, ?_, hsame none, rfl⟩
    rw [ofText, readSignature_written]
    rfl

end Signature

end SealedScript
