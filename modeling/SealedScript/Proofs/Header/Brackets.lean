import SealedScript.Proofs.Header.Spelling

/-!
Spaces at the brackets of a return type.

An info block admits spaces and tabs in front of each pair of brackets and between its brackets. The types that are read
admit them in front only: a block whose brackets are all tight declares the type under as many array layers as there
are pairs, and with white space between two brackets the block is found and its return type is unknown
(`ofCode?_brackets`).
-/

namespace SealedScript.Header
set_option autoImplicit false

/-! ## Without spaces -/

/-- The same signature without spaces. -/
def WrittenSignature.compact (w : WrittenSignature) : WrittenSignature :=
  { w with
    beforeColon := .none
    behindColon := .none
    brackets := List.replicate w.brackets.length .plain }

/-- The same block without spaces. -/
def WrittenBlock.compact (b : WrittenBlock) : WrittenBlock :=
  { b with
    lead := .none
    gap := .none
    signature := b.signature.map WrittenSignature.compact
    last := .none }

/-- The same parameters with `Object` for the return type. -/
def WrittenSignature.returningObject (w : WrittenSignature) : WrittenSignature :=
  { w with
    beforeColon := .none
    behindColon := .none
    name := "Object"
    brackets := []
    name_plain := List.all_eq_true.mp rfl
    name_ne_nil := by decide }

variable {w : WrittenSignature} {b : WrittenBlock} {ty : Ty} {code : Text}

theorem tight_compact (w : WrittenSignature) : ∀ pair ∈ w.compact.brackets, pair.Tight :=
  fun _ => Ty.Brackets.tight_of_mem_replicate

theorem length_compact (w : WrittenSignature) : w.compact.brackets.length = w.brackets.length := List.length_replicate

/-! ## With spaces -/

/-- **Spaces at brackets.** In front of a pair of brackets they make no difference; between its brackets they make the
return type unknown, up to and including the last such pair. -/
theorem ofCode?_brackets {fileName : Option Text} {kind : DeclaredKind} {call : CallShape}
    (hfirst : b.FirstIn (behindLaunchLines code)) (hsignature : b.signature = some w) (hword : b.word = kind.display)
    (hkind : kind ≠ .script) (hparams : readSignature fileName ('(' :: (w.params ++ "):Object".toList)) = .ok call)
    (hname : Ty.ofName w.name = .ok ty) (hboxed : ty.isPrimitive = false) :
    ((∀ pair ∈ w.brackets, pair.Tight) → ∃ signature : Signature,
        signature.returns = ty.layered w.brackets.length ∧ signature.params = call.signature.params ∧
          signature.variadic = call.signature.variadic ∧ signature.name = call.signature.name ∧
          Info.ofCode? fileName code = .ok (some ⟨fileName, kind, w.text, some ⟨signature, call.paramNames⟩⟩) ∧
          Info.ofCode? fileName b.compact.text =
            .ok (some ⟨fileName, kind, w.compact.text, some ⟨signature, call.paramNames⟩⟩)) ∧
      ((∃ pair ∈ w.brackets, ¬ pair.Tight) → ∃ front pair back, w.brackets = front ++ pair :: back ∧ ¬ pair.Tight ∧
        (∀ later ∈ back, later.Tight) ∧ Info.ofCode? fileName code =
          .error (.unknownType (w.name ++ (front ++ [pair]).flatMap Ty.Brackets.text))) := by
  have hobject : readSignature fileName w.returningObject.text = .ok call := hparams
  have hlayered := Ty.isPrimitive_layered hboxed w.brackets.length
  rw [ofCode?_text fileName hfirst hsignature hword hkind]
  constructor
  · intro htight
    have hcompact : b.compact.signature = some w.compact := by rw [WrittenBlock.compact, hsignature]; rfl
    have hreturns := parse_returns (tight_compact w) hname
    rw [length_compact] at hreturns
    refine ⟨call.signature.returning _ hlayered, rfl, rfl, rfl, rfl, ?_, ?_⟩
    · rw [readSignature_returning (w := w) hobject rfl (parse_returns htight hname) hlayered]
      rfl
    · rw [ofCode?_text fileName (firstIn_text b.compact) hcompact hword hkind,
        readSignature_returning (w := w.compact) hobject rfl hreturns hlayered]
      rfl
  · intro hloose
    obtain ⟨c, name, hc⟩ := List.exists_cons_of_ne_nil w.name_ne_nil
    have hblank : Text.isBlank c = false := isBlank_of_isTypeChar (w.name_plain c (hc ▸ List.mem_cons_self))
    obtain ⟨front, pair, back, hsplit, hpair, hback, hparse⟩ := Ty.parse_brackets_loose (t := name) hblank hloose
    rw [← hc] at hparse
    refine ⟨front, pair, back, hsplit, hpair, hback, ?_⟩
    rw [readSignature_error hparse]
    rfl

/-- Brackets with a tab and with a space in front of them. -/
def rowsSignature : WrittenSignature where
  params := "a:Integer, b:Number ..."
  beforeColon := .space
  behindColon := .space
  name := "java.lang.Long"
  brackets := [⟨.tab, .none⟩, ⟨.space, .none⟩]
  params_plain := List.all_eq_true.mp rfl
  name_plain := List.all_eq_true.mp rfl
  name_ne_nil := by decide

def rowsBlock : WrittenBlock := { DeclaredKind.macroRoutine.block rowsSignature with gap := .none, last := .none }

/-- A space between the brackets. -/
def spacedSignature : WrittenSignature where
  params := []
  beforeColon := .none
  behindColon := .none
  name := "String"
  brackets := [⟨.none, .space⟩]
  params_plain := nofun
  name_plain := List.all_eq_true.mp rfl
  name_ne_nil := by decide

def spacedBlock : WrittenBlock := DeclaredKind.function.block spacedSignature

theorem ofCode?_brackets_rows :
    rowsBlock.text = "\x7b macro(a:Integer, b:Number ...) : java.lang.Long\t[] []\x7d".toList ∧
      rowsBlock.FirstIn (behindLaunchLines ("#! run ##\n// ".toList ++ (rowsBlock.text ++ "\n// @RPN:".toList))) ∧
      (∃ signature : Signature, signature.returns = .array (.array .long) ∧ signature.params = [.integer, .number] ∧
        Info.ofCode? none ("#! run ##\n// ".toList ++ (rowsBlock.text ++ "\n// @RPN:".toList)) =
          .ok (some ⟨none, .macroRoutine, rowsSignature.text, some ⟨signature, ["a", "b"]⟩⟩)) ∧
      ∃ name, Info.ofCode? none spacedBlock.text = .error (.unknownType name) := by
  have hfirst : rowsBlock.FirstIn
      (behindLaunchLines ("#! run ##\n// ".toList ++ (rowsBlock.text ++ "\n// @RPN:".toList))) :=
    firstIn_append "// " "\n// @RPN:" (by decide)
  have hmacro : rowsBlock.word = DeclaredKind.macroRoutine.display := rfl
  have hfunction : spacedBlock.word = DeclaredKind.function.display := rfl
  have hrows : readSignature none ('(' :: (rowsSignature.params ++ "):Object".toList)) =
      .ok ⟨⟨none, [.integer, .number], true, .object, by decide, by decide, rfl, by decide⟩, ["a", "b"]⟩ := rfl
  have hspaced : readSignature none ('(' :: (spacedSignature.params ++ "):Object".toList)) = .ok ⟨.procedure, []⟩ := rfl
  obtain ⟨signature, hreturns, hparams, -, -, hcode, -⟩ :=
    (ofCode?_brackets hfirst rfl hmacro (by decide) hrows rfl rfl).1 (by decide)
  obtain ⟨front, pair, -, -, -, -, hunknown⟩ :=
    (ofCode?_brackets (firstIn_text spacedBlock) rfl hfunction (by decide) hspaced rfl rfl).2
      ⟨_, List.mem_singleton.mpr rfl, by decide⟩
  exact ⟨rfl, hfirst, ⟨signature, hreturns, hparams, hcode⟩, _, hunknown⟩

/-- An info block whose return type is written with a space between its brackets is found, and then its return type is
unknown. -/
theorem spaced_brackets_refused :
    spacedBlock.text = "\x7b function ():String[ ] \x7d".toList ∧
      spacedBlock.FirstIn (behindLaunchLines spacedBlock.text) ∧
      readSignature none "():Object" = .ok ⟨.procedure, []⟩ ∧ Ty.ofName spacedSignature.name = .ok .text ∧
      Info.ofCode? none spacedBlock.text = .error (.unknownType "String[ ]") :=
  ⟨rfl, firstIn_text spacedBlock, rfl, rfl, rfl⟩

end SealedScript.Header
