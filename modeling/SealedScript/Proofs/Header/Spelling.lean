import SealedScript.Proofs.Header.Grammar
import SealedScript.Proofs.Outcome
import SealedScript.Proofs.Signature.Parts

/-!
Signatures however they are spelled.

Wherever spaces stand, a signature is split into its parameters and its return type (`splitSignature?_text`), a script
declares what is read of the signature in its first block (`ofCode?_text`), and signatures that have one parameter list
are read alike but for the return type (`readSignature_returning`).
-/

namespace SealedScript
set_option autoImplicit false

namespace Signature

/-- The same contract with another return type. -/
def returning (s : Signature) (returns : Ty) (h : returns.isPrimitive = false) : Signature :=
  { s with returns := returns, returns_boxed := h }

/-- Parameters are checked apart from the return type. -/
theorem make_returning {name : Option Text} {params : List Ty} {variadic : Bool} {returns returns' : Ty} {s : Signature}
    (h : make name params variadic returns = .ok s) (hboxed : returns'.isPrimitive = false) :
    make name params variadic returns' = .ok (s.returning returns' hboxed) := by
  obtain ⟨⟨harity, -, hparams⟩, hparts⟩ := make_eq_ok.mp h
  refine make_eq_ok.mpr ⟨⟨harity, hboxed, hparams⟩, ?_⟩
  exact congrArg (fun q : Parts => { q with returns := returns' }) hparts

end Signature

namespace Header

variable {w : WrittenSignature} {c : Char} {t rest : Text}

/-! ## Characters -/

theorem isTypeChar_ascii (h : isTypeChar c = true) : 0x21 ≤ c.toNat ∧ c.toNat ≤ 0x7A := by
  simp only [isTypeChar, Bool.or_eq_true, beq_iff_eq] at h
  rcases h with ((h | rfl) | rfl) | rfl
  · have hrange := Text.isLetterOrDigit_ascii h
    omega
  · decide
  · decide
  · decide

theorem isBlank_of_isTypeChar (h : isTypeChar c = true) : Text.isBlank c = false :=
  Text.isBlank_of_ascii (isTypeChar_ascii h).1 (Nat.le_trans (isTypeChar_ascii h).2 (by decide))

theorem mem_brackets {bs : List Ty.Brackets} (h : c ∈ bs.flatMap Ty.Brackets.text) :
    Text.isSpacing c = true ∨ c = '[' ∨ c = ']' := by
  obtain ⟨b, -, hc⟩ := List.mem_flatMap.mp h
  simp only [Ty.Brackets.text, List.mem_append, List.mem_cons, List.not_mem_nil, or_false] at hc
  rcases hc with hc | rfl | hc | rfl
  · exact Or.inl (b.before.2 c hc)
  · exact Or.inr (Or.inl rfl)
  · exact Or.inl (b.inside.2 c hc)
  · exact Or.inr (Or.inr rfl)

/-- Behind its parameters a signature has neither parentheses nor line feeds. -/
theorem mem_behindParams (h : c ∈ w.behindParams) : c ≠ ')' ∧ c ≠ '\n' := by
  have hspacing : Text.isSpacing c = true → c ≠ ')' ∧ c ≠ '\n' := by
    intro hc
    rcases Text.isSpacing_iff.mp hc with rfl | rfl <;> decide
  simp only [WrittenSignature.behindParams, WrittenSignature.returns, List.mem_append, List.mem_cons] at h
  rcases h with h | rfl | h | h | h
  · exact hspacing (w.beforeColon.2 c h)
  · decide
  · exact hspacing (w.behindColon.2 c h)
  · have hname := w.name_plain c h
    constructor
    · rintro rfl
      cases hname
    · rintro rfl
      cases hname
  · rcases mem_brackets h with h | rfl | rfl
    · exact hspacing h
    · decide
    · decide

/-! ## Ends -/

theorem exists_returns (w : WrittenSignature) : ∃ c r, w.returns = c :: r ∧ isTypeChar c = true := by
  obtain ⟨c, name, hname⟩ := List.exists_cons_of_ne_nil w.name_ne_nil
  exact ⟨c, _, by rw [WrittenSignature.returns, hname]; rfl, w.name_plain c (hname ▸ List.mem_cons_self)⟩

theorem last_returns (h : w.returns.getLast? = some c) : Text.isBlank c = false := by
  rw [WrittenSignature.returns, List.getLast?_append] at h
  rcases List.eq_nil_or_concat w.brackets with hnil | ⟨bs, b, hconcat⟩
  · rw [hnil] at h
    exact isBlank_of_isTypeChar (w.name_plain c (List.mem_of_mem_getLast? h))
  · have htext : w.brackets.flatMap Ty.Brackets.text =
        bs.flatMap Ty.Brackets.text ++ (b.before.1 ++ '[' :: b.inside.1) ++ [']'] := by
      simp [hconcat, Ty.Brackets.text]
    rw [htext, List.getLast?_concat] at h
    cases h
    decide

theorem trim_text (w : WrittenSignature) : Text.trim w.text = w.text := by
  refine Text.trim_eq_self (fun c hc => ?_) fun c hc => last_returns (w := w) ?_
  · cases hc
    decide
  · obtain ⟨d, r, hreturns, -⟩ := exists_returns w
    have htext : w.text = ('(' :: (w.params ++ ')' :: (w.beforeColon.1 ++ ':' :: w.behindColon.1))) ++ w.returns := by
      simp [WrittenSignature.text, WrittenSignature.behindParams]
    rw [htext, List.getLast?_append, hreturns, List.getLast?_cons] at hc
    rwa [hreturns, List.getLast?_cons]

/-! ## Parameters and return type -/

theorem splitAtClosing?_params (found : Option (Text × Text)) (list : Text) {params : Text}
    (h : ∀ c ∈ params, isParamChar c = true) (t : Text) :
    splitAtClosing? found list (params ++ t) = splitAtClosing? found (params.reverse ++ list) t := by
  induction params generalizing list with
  | nil => rfl
  | cons c params ih =>
    have hc : isParamChar c = true := h c List.mem_cons_self
    simp only [isParamChar, Bool.and_eq_true, bne_iff_ne] at hc
    rw [List.cons_append, splitAtClosing?, if_neg (by simp [hc.2]), if_neg (by simp [hc.1.2]),
      ih _ fun d hd => h d (List.mem_cons_of_mem c hd), List.reverse_cons, List.append_assoc]
    rfl

theorem splitAtClosing?_ended (found : Option (Text × Text)) (list : Text) (h : ∀ c ∈ t, c ≠ ')') :
    splitAtClosing? found list t = found := by
  induction t generalizing list with
  | nil => rfl
  | cons c t ih =>
    rw [splitAtClosing?, ih _ fun d hd => h d (List.mem_cons_of_mem c hd)]
    simp [h c List.mem_cons_self]

theorem behindColon?_text (w : WrittenSignature) : behindColon? w.behindParams = some w.returns := by
  obtain ⟨c, r, hreturns, hc⟩ := exists_returns w
  have hgap : Text.trimStart w.behindParams = ':' :: (w.behindColon.1 ++ w.returns) :=
    Text.trimStart_append w.beforeColon.blank
  have hgap' : Text.trimStart (w.behindColon.1 ++ w.returns) = w.returns := by
    rw [Text.trimStart_append w.behindColon.blank]
    refine Text.trimStart_eq_self fun d hd => ?_
    rw [hreturns] at hd
    cases hd
    exact isBlank_of_isTypeChar hc
  rw [behindColon?, hgap]
  exact congrArg some hgap'

theorem splitSignature?_text (w : WrittenSignature) : splitSignature? w.text = some (w.params, w.returns) := by
  -- The first closing parenthesis is the last one as well, so the greedy split ends there.
  obtain ⟨c, r, hreturns, hc⟩ := exists_returns w
  have hclosing : splitAtClosing? none [] (w.params ++ ')' :: w.behindParams) = some (w.params.reverse, w.returns) := by
    rw [splitAtClosing?_params _ _ w.params_plain, splitAtClosing?, if_neg (by decide), if_pos (by decide),
      behindColon?_text, hreturns]
    simp only
    rw [splitAtClosing?_ended _ _ fun d hd => (mem_behindParams hd).1, List.append_nil]
  have hline : w.returns.contains '\n' = false := by
    rw [← Bool.not_eq_true, List.contains_iff_mem]
    exact fun hmem => (mem_behindParams (w := w) (by simp [WrittenSignature.behindParams, hmem])).2 rfl
  rw [splitSignature?, trim_text, WrittenSignature.text]
  simp only
  rw [hclosing]
  simp only [hline, Bool.false_eq_true, if_false, List.reverse_reverse]

/-! ## Single parameters -/

/-- The name of a parameter and its type as written. -/
def writtenParam (index : Nat) (piece : Text) : Text × Text :=
  match Text.splitFirst? ':' piece with
  | some (before, after) => (Text.trim before, Text.trim after)
  | none => (CallShape.positionalName index, piece)

/-- The written type of a parameter; an ellipsis may stand behind the last one. -/
def WritesType (isLast : Bool) (written : Text) (ty : Ty) (variadic : Bool) : Prop :=
  match Text.dropTail? "..." written with
  | some element => isLast = true ∧ variadic = true ∧ Ty.parse (Text.trim element) = .ok ty
  | none => variadic = false ∧ Ty.parse written = .ok ty

/-- The parameter with this name and written type, if it has a name. -/
def namedParam (text : Text) (index : Nat) (name : Text) (written : Text × Bool) : Outcome Param :=
  if name.isEmpty then .error (.invalidSignature (.unnamedParam index text))
  else do
    let ty ← Ty.parse written.1
    return ⟨name, ty, written.2⟩

theorem namedParam_eq_ok {text name : Text} {index : Nat} {written : Text × Bool} {param : Param} :
    namedParam text index name written = .ok param ↔
      param.name = name ∧ name ≠ [] ∧ Ty.parse written.1 = .ok param.ty ∧ param.variadic = written.2 := by
  unfold namedParam
  split
  case isTrue hempty =>
    rw [List.isEmpty_iff.mp hempty]
    simp
  case isFalse hname =>
    rw [bind_eq_ok]
    constructor
    · rintro ⟨ty, hty, h⟩
      cases h
      exact ⟨rfl, fun hnil => hname (List.isEmpty_iff.mpr hnil), hty, rfl⟩
    · rintro ⟨rfl, -, hty, hvariadic⟩
      exact ⟨param.ty, hty, by rw [← hvariadic]; rfl⟩

/-- What is read of a parameter, whatever the whole text is, which is shown in messages only. -/
theorem readParam_eq_ok {text piece : Text} {index : Nat} {isLast : Bool} {param : Param} :
    readParam text index isLast piece = .ok param ↔ param.name = (writtenParam index piece).1 ∧
      (writtenParam index piece).1 ≠ [] ∧ WritesType isLast (writtenParam index piece).2 param.ty param.variadic := by
  have hread : readParam text index isLast piece = match Text.dropTail? "..." (writtenParam index piece).2 with
      | some element =>
        if isLast then namedParam text index (writtenParam index piece).1 (Text.trim element, true)
        else .error (.invalidSignature (.variadicBeforeLast text))
      | none => namedParam text index (writtenParam index piece).1 ((writtenParam index piece).2, false) := rfl
  rw [hread, WritesType]
  cases Text.dropTail? "..." (writtenParam index piece).2 with
  | none => simp [namedParam_eq_ok, and_comm]
  | some element => cases isLast <;> simp [namedParam_eq_ok, and_comm]

/-! ## Signatures -/

theorem readParams_ok {text : Text} {pieces : List Text} {index : Nat} {params : List Param}
    (h : readParams text index pieces = .ok params) (text' : Text) : readParams text' index pieces = .ok params := by
  induction pieces generalizing index params with
  | nil => exact h
  | cons piece rest ih =>
    obtain ⟨first, hfirst, h⟩ := bind_eq_ok.mp h
    obtain ⟨others, hothers, h⟩ := bind_eq_ok.mp h
    have hfirst' : readParam text' index rest.isEmpty piece = .ok first :=
      readParam_eq_ok.mpr (readParam_eq_ok.mp hfirst)
    exact bind_eq_ok.mpr ⟨first, hfirst', bind_eq_ok.mpr ⟨others, ih hothers, h⟩⟩

theorem readSignature_text (name : Option Text) (w : WrittenSignature) : readSignature name w.text = (do
    let returns ← Ty.parse w.returns
    let params ← readParams w.text 0 (paramPieces w.params)
    let signature ← (Signature.make name (params.map Param.ty) (params.any Param.variadic) returns).mapError
      .invalidSignature
    return ⟨signature, params.map Param.name⟩) := by
  rw [readSignature, splitSignature?_text, trim_text]

theorem readSignature_text_eq_ok {name : Option Text} {call : CallShape} : readSignature name w.text = .ok call ↔
    ∃ returns params, Ty.parse w.returns = .ok returns ∧ readParams w.text 0 (paramPieces w.params) = .ok params ∧
      Signature.make name (params.map Param.ty) (params.any Param.variadic) returns = .ok call.signature ∧
      params.map Param.name = call.paramNames := by
  rw [readSignature_text]
  constructor
  · intro h
    obtain ⟨returns, hreturns, h⟩ := bind_eq_ok.mp h
    obtain ⟨params, hparams, h⟩ := bind_eq_ok.mp h
    obtain ⟨signature, hsignature, h⟩ := bind_eq_ok.mp h
    cases h
    exact ⟨returns, params, hreturns, hparams, mapError_eq_ok.mp hsignature, rfl⟩
  · rintro ⟨returns, params, hreturns, hparams, hsignature, hnames⟩
    refine bind_eq_ok.mpr ⟨returns, hreturns, bind_eq_ok.mpr ⟨params, hparams, bind_eq_ok.mpr ⟨_,
      mapError_eq_ok.mpr hsignature, ?_⟩⟩⟩
    rw [hnames]
    rfl

/-- The return type decides alone how it is read: two signatures with one parameter list are read alike but for it. -/
theorem readSignature_returning {name : Option Text} {call : CallShape} {w' : WrittenSignature} {returns : Ty}
    (h : readSignature name w'.text = .ok call) (hparams : w'.params = w.params)
    (hreturns : Ty.parse w.returns = .ok returns) (hboxed : returns.isPrimitive = false) :
    readSignature name w.text = .ok ⟨call.signature.returning returns hboxed, call.paramNames⟩ := by
  obtain ⟨_, params, -, hread, hsignature, hnames⟩ := readSignature_text_eq_ok.mp h
  rw [hparams] at hread
  exact readSignature_text_eq_ok.mpr
    ⟨returns, params, hreturns, readParams_ok hread _, Signature.make_returning hsignature hboxed, hnames⟩

theorem readSignature_error {name : Option Text} {fault : Failure} (h : Ty.parse w.returns = .error fault) :
    readSignature name w.text = .error fault := by
  rw [readSignature_text, h]
  rfl

/-! ## Blocks -/

theorem DeclaredKind.parse_display (kind : DeclaredKind) : DeclaredKind.parse kind.display = .ok kind := by
  cases kind <;> rfl

theorem DeclaredKind.display_letters (kind : DeclaredKind) : ∀ c ∈ kind.display, Text.isLetter c = true := by
  have hletters : kind.display.all Text.isLetter = true := by cases kind <;> rfl
  exact List.all_eq_true.mp hletters

theorem DeclaredKind.display_ne_nil (kind : DeclaredKind) : kind.display ≠ [] := by cases kind <;> decide

/-- The signature in braces, behind the word of a kind and with a space at each part. -/
def DeclaredKind.block (kind : DeclaredKind) (w : WrittenSignature) : WrittenBlock where
  lead := .space
  word := kind.display
  gap := .space
  signature := some w
  last := .space
  word_plain := kind.display_letters
  word_ne_nil := kind.display_ne_nil

/-- What a script declares whose first block has a signature. -/
theorem ofCode?_text {b : WrittenBlock} {kind : DeclaredKind} {code : Text} (fileName : Option Text)
    (hfirst : b.FirstIn (behindLaunchLines code)) (hsignature : b.signature = some w) (hword : b.word = kind.display)
    (hkind : kind ≠ .script) : Info.ofCode? fileName code =
      (readSignature fileName w.text).map fun call => some ⟨fileName, kind, w.text, some call⟩ := by
  have hblock : b.block = ⟨kind.display, w.text⟩ := by
    rw [WrittenBlock.block, hword, WrittenBlock.signatureText, hsignature]
    rfl
  have hempty : w.text.isEmpty = false := rfl
  have hofBlock : Info.ofBlock fileName ⟨kind.display, w.text⟩ =
      (readSignature fileName w.text).map fun call => ⟨fileName, kind, w.text, some call⟩ := by
    rw [Info.ofBlock, DeclaredKind.parse_display]
    simp only [bind, Except.bind, trim_text, hempty, Bool.false_eq_true, if_false, if_neg hkind]
    cases readSignature fileName w.text <;> rfl
  rw [Info.ofCode?, blockIn?_eq_some_iff.mpr ⟨b, hfirst, hblock⟩]
  simp only [hofBlock]
  cases readSignature fileName w.text <;> rfl

theorem skipLaunchLines_of_no_line {start line : Text} (h : '\n' ∉ t) : skipLaunchLines start line t = start := by
  induction t generalizing line with
  | nil => rfl
  | cons c t ih =>
    rw [List.mem_cons, not_or] at h
    rw [skipLaunchLines, if_neg (by simpa using Ne.symm h.1), ih h.2]

theorem line_not_mem_text (b : WrittenBlock) : '\n' ∉ b.text := by
  have hgap : ∀ g : Text.Gap, '\n' ∉ g.1 := fun g h => Bool.false_ne_true (g.2 _ h)
  have hword : '\n' ∉ b.word := fun h => Bool.false_ne_true (b.word_plain _ h)
  have hsignature : '\n' ∉ b.signatureText := by
    rw [WrittenBlock.signatureText]
    cases b.signature with
    | none => exact List.not_mem_nil
    | some w =>
      have hparams : '\n' ∉ w.params := fun h => Bool.false_ne_true (w.params_plain _ h)
      have hbehind : '\n' ∉ w.behindParams := fun h => (mem_behindParams h).2 rfl
      simp [WrittenSignature.text, hparams, hbehind]
  simp [WrittenBlock.text, WrittenBlock.inner, hgap, hword, hsignature]

/-- A block that stands alone is found. -/
theorem firstIn_text (b : WrittenBlock) : b.FirstIn (behindLaunchLines b.text) := by
  rw [behindLaunchLines, skipLaunchLines_of_no_line (line_not_mem_text b)]
  exact firstIn_start (List.append_nil _).symm

/-! ## Return types -/

theorem parse_name (w : WrittenSignature) : Ty.parse w.name = Ty.ofName w.name := by
  have hplain : ∀ c ∈ w.name, Text.isBlank c = false ∧ c ≠ ']' := by
    intro c hc
    refine ⟨isBlank_of_isTypeChar (w.name_plain c hc), ?_⟩
    rintro rfl
    exact Bool.false_ne_true (w.name_plain _ hc)
  exact Ty.parse_name (fun c hc => (hplain c (List.mem_of_mem_head? hc)).1)
    fun c hc => hplain c (List.mem_of_mem_getLast? hc)

theorem parse_returns {ty : Ty} (htight : ∀ pair ∈ w.brackets, pair.Tight) (hname : Ty.ofName w.name = .ok ty) :
    Ty.parse w.returns = .ok (ty.layered w.brackets.length) := by
  rw [WrittenSignature.returns, Ty.parse_brackets htight, parse_name, hname]
  rfl

end Header
end SealedScript
