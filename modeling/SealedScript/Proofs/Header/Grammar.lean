import Mathlib.Data.List.TakeDrop
import SealedScript.Header.Info
import SealedScript.Proofs.Ty.Parse

/-!
Info blocks as they may be written.

`WrittenBlock` spells out the texts that are info blocks: a word in braces and, perhaps, a signature, with spaces and
tabs between their parts. Reading takes these texts and no others (`readBlock?_eq_some_iff`), and of a script the
one that starts first (`blockIn?_eq_some_iff`).
-/

namespace SealedScript
set_option autoImplicit false

theorem Text.span_eq_iff {p : Char → Bool} {t front behind : Text} : t.span p = (front, behind) ↔
    t = front ++ behind ∧ (∀ c ∈ front, p c = true) ∧ ∀ c, behind.head? = some c → p c = false := by
  rw [List.span_eq_takeWhile_dropWhile, Prod.mk.injEq]
  constructor
  · rintro ⟨rfl, rfl⟩
    refine ⟨List.takeWhile_append_dropWhile.symm, fun c hc => List.mem_takeWhile_imp hc, fun c hc => ?_⟩
    have hstop := List.head?_dropWhile_not p t
    rw [hc] at hstop
    simpa using hstop
  · rintro ⟨rfl, hfront, hbehind⟩
    rw [List.takeWhile_append_of_pos hfront, List.dropWhile_append_of_pos hfront]
    cases behind with
    | nil => simp
    | cons c behind => simp [hbehind c rfl]

namespace Text.Gap

variable {c d : Char} {r : Text}

theorem span (g : Gap) (hc : isSpacing c = false) : (g.1 ++ c :: r).span isSpacing = (g.1, c :: r) :=
  span_eq_iff.mpr ⟨rfl, g.2, fun _ hd => Option.some.inj hd ▸ hc⟩

theorem skipSpacing (g : Gap) (hc : isSpacing c = false) : Text.skipSpacing (g.1 ++ c :: r) = c :: r := by
  have hspan := congrArg Prod.snd (g.span (r := r) hc)
  rwa [List.span_eq_takeWhile_dropWhile] at hspan

theorem exists_skipSpacing (t : Text) : ∃ g : Gap, t = g.1 ++ Text.skipSpacing t :=
  ⟨⟨t.takeWhile isSpacing, fun _ hc => List.mem_takeWhile_imp hc⟩, List.takeWhile_append_dropWhile.symm⟩

theorem head (g : Gap) (h : (g.1 ++ c :: r).head? = some d) : isSpacing d = true ∨ d = c := by
  obtain ⟨t, ht⟩ := g
  cases t with
  | nil => exact Or.inr (Option.some.inj h).symm
  | cons e t => exact Or.inl (Option.some.inj h ▸ ht e List.mem_cons_self)

end Text.Gap

namespace Header

/-! ## Spellings -/

/-- A signature as it may stand in an info block. -/
structure WrittenSignature where
  params : Text
  beforeColon : Text.Gap
  behindColon : Text.Gap
  name : Text
  brackets : List Ty.Brackets
  params_plain : ∀ c ∈ params, isParamChar c = true
  name_plain : ∀ c ∈ name, isTypeChar c = true
  name_ne_nil : name ≠ []

namespace WrittenSignature

def returns (w : WrittenSignature) : Text := w.name ++ w.brackets.flatMap Ty.Brackets.text

def behindParams (w : WrittenSignature) : Text := w.beforeColon.1 ++ ':' :: (w.behindColon.1 ++ w.returns)

def text (w : WrittenSignature) : Text := '(' :: (w.params ++ ')' :: w.behindParams)

end WrittenSignature

/-- An info block as it may be written. -/
structure WrittenBlock where
  lead : Text.Gap
  word : Text
  gap : Text.Gap
  signature : Option WrittenSignature
  last : Text.Gap
  word_plain : ∀ c ∈ word, Text.isLetter c = true
  word_ne_nil : word ≠ []

namespace WrittenBlock

def signatureText (w : WrittenBlock) : Text := w.signature.elim [] WrittenSignature.text

/-- The block behind its opening brace. -/
def inner (w : WrittenBlock) : Text :=
  w.lead.1 ++ (w.word ++ (w.gap.1 ++ (w.signatureText ++ (w.last.1 ++ ['\x7d']))))

def text (w : WrittenBlock) : Text := '\x7b' :: w.inner

def block (w : WrittenBlock) : Block := ⟨w.word, w.signatureText⟩

end WrittenBlock

variable {t rest : Text} {w : WrittenSignature}

/-! ## Brackets -/

/-- The text goes on with something that is neither a space nor a bracket, perhaps behind spaces. -/
def Closes (t : Text) : Prop := ∃ (gap : Text.Gap) (c : Char) (r : Text), t = gap.1 ++ c :: r ∧
  Text.isSpacing c = false ∧ isTypeChar c = false ∧ c ≠ '['

theorem bracketsFrom_spacing {s : Text} (hs : ∀ c ∈ s, Text.isSpacing c = true) (done pending behind : Text)
    (inside : Bool) (t : Text) :
    bracketsFrom done pending behind inside (s ++ t) = bracketsFrom done (s.reverse ++ pending) behind inside t := by
  induction s generalizing pending with
  | nil => rfl
  | cons c s ih =>
    rw [List.cons_append, bracketsFrom, if_pos (hs c List.mem_cons_self),
      ih fun d hd => hs d (List.mem_cons_of_mem c hd), List.reverse_cons, List.append_assoc]
    rfl

theorem bracketsFrom_text (b : Ty.Brackets) (done behind t : Text) :
    bracketsFrom done [] behind false (b.text ++ t) = bracketsFrom (b.text.reverse ++ done) [] t false t := by
  have htext : b.text ++ t = b.before.1 ++ ('[' :: (b.inside.1 ++ ']' :: t)) := by simp [Ty.Brackets.text]
  rw [htext, bracketsFrom_spacing b.before.2, bracketsFrom, if_neg (by decide), if_pos (by decide),
    bracketsFrom_spacing b.inside.2, bracketsFrom, if_neg (by decide), if_neg (by decide), if_pos (by decide)]
  simp [Ty.Brackets.text]

theorem bracketsFrom_texts (bs : List Ty.Brackets) (hrest : Closes rest) (done : Text) :
    bracketsFrom done [] (bs.flatMap Ty.Brackets.text ++ rest) false (bs.flatMap Ty.Brackets.text ++ rest) =
      (done.reverse ++ bs.flatMap Ty.Brackets.text, rest) := by
  induction bs generalizing done with
  | nil =>
    obtain ⟨gap, c, r, rfl, hspacing, -, hbracket⟩ := hrest
    rw [List.flatMap_nil, List.nil_append, bracketsFrom_spacing gap.2, bracketsFrom, if_neg (by simp [hspacing]),
      if_neg (by simp [hbracket]), if_neg (by simp), List.append_nil]
  | cons b bs ih =>
    rw [List.flatMap_cons, List.append_assoc, bracketsFrom_text, ih]
    simp

theorem readBrackets_texts (bs : List Ty.Brackets) (hrest : Closes rest) :
    readBrackets (bs.flatMap Ty.Brackets.text ++ rest) = (bs.flatMap Ty.Brackets.text, rest) :=
  bracketsFrom_texts bs hrest []

theorem isTypeChar_of_isSpacing {c : Char} (h : Text.isSpacing c = true) : isTypeChar c = false := by
  rcases Text.isSpacing_iff.mp h with rfl | rfl <;> decide

theorem isSpacing_of_isTypeChar {c : Char} (h : isTypeChar c = true) : Text.isSpacing c = false := by
  rw [← Bool.not_eq_true]
  intro hspacing
  rw [isTypeChar_of_isSpacing hspacing] at h
  cases h

/-- No further character of a name follows it. -/
theorem head_brackets (bs : List Ty.Brackets) (hrest : Closes rest) {c : Char}
    (h : (bs.flatMap Ty.Brackets.text ++ rest).head? = some c) : isTypeChar c = false := by
  cases bs with
  | nil =>
    obtain ⟨gap, d, r, rfl, -, htype, -⟩ := hrest
    rcases gap.head h with hspacing | rfl
    · exact isTypeChar_of_isSpacing hspacing
    · exact htype
  | cons b bs =>
    have hopen : (b.before.1 ++ '[' :: (b.inside.1 ++ ']' :: (bs.flatMap Ty.Brackets.text ++ rest))).head? =
        some c := by simpa [Ty.Brackets.text] using h
    rcases b.before.head hopen with hspacing | rfl
    · exact isTypeChar_of_isSpacing hspacing
    · decide

/-! ## Signatures -/

theorem readBlockReturn?_text (w : WrittenSignature) (hrest : Closes rest) :
    readBlockReturn? (w.behindParams ++ rest) = some (w.behindParams, rest) := by
  obtain ⟨c, name, hname⟩ := List.exists_cons_of_ne_nil w.name_ne_nil
  have hc : Text.isSpacing c = false := isSpacing_of_isTypeChar (w.name_plain c (hname ▸ List.mem_cons_self))
  have htext : w.behindParams ++ rest = w.beforeColon.1 ++ ':' :: (w.behindColon.1 ++
      c :: (name ++ (w.brackets.flatMap Ty.Brackets.text ++ rest))) := by
    simp [WrittenSignature.behindParams, WrittenSignature.returns, hname]
  have hspan : (c :: (name ++ (w.brackets.flatMap Ty.Brackets.text ++ rest))).span isTypeChar =
      (c :: name, w.brackets.flatMap Ty.Brackets.text ++ rest) :=
    Text.span_eq_iff.mpr ⟨rfl, fun d hd => w.name_plain d (hname ▸ hd), fun d hd => head_brackets _ hrest hd⟩
  rw [htext, readBlockReturn?, w.beforeColon.span (by decide)]
  simp only [w.behindColon.span hc, hspan, readBrackets_texts _ hrest]
  simp [WrittenSignature.behindParams, WrittenSignature.returns, hname]

theorem readBlockSignature?_text (w : WrittenSignature) (hrest : Closes rest) :
    readBlockSignature? (w.text ++ rest) = some (w.text, rest) := by
  have hspan : (w.params ++ ')' :: (w.behindParams ++ rest)).span isParamChar =
      (w.params, ')' :: (w.behindParams ++ rest)) :=
    Text.span_eq_iff.mpr ⟨rfl, w.params_plain, fun c hc => Option.some.inj hc ▸ by decide⟩
  have htext : w.text ++ rest = '(' :: (w.params ++ ')' :: (w.behindParams ++ rest)) := by simp [WrittenSignature.text]
  rw [htext, readBlockSignature?, hspan]
  simp only [readBlockReturn?_text w hrest]
  rfl

/-! ## Blocks -/

theorem closes_last (g : Text.Gap) (t : Text) : Closes (g.1 ++ '\x7d' :: t) :=
  ⟨g, '\x7d', t, rfl, by decide, by decide, by decide⟩

theorem isSpacing_of_isLetter {c : Char} (h : Text.isLetter c = true) : Text.isSpacing c = false :=
  isSpacing_of_isTypeChar (by simp [isTypeChar, Text.isLetterOrDigit, Char.isAlphanum, show c.isAlpha = true from h])

/-- Behind the word and a gap, with or without a signature, another character follows; from it on the signature is read
and the closing brace found. -/
theorem exists_behindWord (w : WrittenBlock) (t : Text) : ∃ (g : Text.Gap) (c : Char) (r rest : Text),
    w.gap.1 ++ (w.signatureText ++ (w.last.1 ++ '\x7d' :: t)) = g.1 ++ c :: r ∧ Text.isSpacing c = false ∧
      Text.isLetter c = false ∧ readBlockSignature? (c :: r) = some (w.signatureText, rest) ∧
      Text.skipSpacing rest = '\x7d' :: t := by
  have hlast : Text.skipSpacing (w.last.1 ++ '\x7d' :: t) = '\x7d' :: t := w.last.skipSpacing (by decide)
  cases hsignature : w.signature with
  | none =>
    refine ⟨⟨w.gap.1 ++ w.last.1, fun c hc => (List.mem_append.mp hc).elim (w.gap.2 c) (w.last.2 c)⟩, '\x7d', t,
      '\x7d' :: t, ?_, by decide, by decide, ?_, rfl⟩
    · simp [WrittenBlock.signatureText, hsignature]
    · simp [WrittenBlock.signatureText, hsignature, readBlockSignature?]
  | some s =>
    have htext : w.signatureText = s.text := by simp [WrittenBlock.signatureText, hsignature]
    refine ⟨w.gap, '(', _, w.last.1 ++ '\x7d' :: t, by rw [htext]; rfl, by decide, by decide, ?_, hlast⟩
    rw [htext]
    exact readBlockSignature?_text s (closes_last w.last t)

theorem readBlock?_text (w : WrittenBlock) (t : Text) : readBlock? (w.inner ++ t) = some w.block := by
  obtain ⟨c, word, hword⟩ := List.exists_cons_of_ne_nil w.word_ne_nil
  obtain ⟨g, d, r, rest, hbehind, hspacing, hletter, hread, hclose⟩ := exists_behindWord w t
  have hc : Text.isSpacing c = false := isSpacing_of_isLetter (w.word_plain c (hword ▸ List.mem_cons_self))
  have htext : w.inner ++ t = w.lead.1 ++ c :: (word ++ (g.1 ++ d :: r)) := by
    rw [← hbehind]
    simp [WrittenBlock.inner, hword]
  have hspan : (c :: (word ++ (g.1 ++ d :: r))).span Text.isLetter = (c :: word, g.1 ++ d :: r) := by
    refine Text.span_eq_iff.mpr ⟨rfl, fun e he => w.word_plain e (hword ▸ he), fun e he => ?_⟩
    rcases g.head he with he | rfl
    · exact Bool.eq_false_iff.mpr fun h => Bool.false_ne_true ((isSpacing_of_isLetter h).symm.trans he)
    · exact hletter
  rw [htext, readBlock?, w.lead.skipSpacing hc, hspan]
  simp only [g.skipSpacing hspacing, hread, hclose]
  rw [WrittenBlock.block, hword]

/-! ## What was read was written -/

/-- What has been read, in reverse, since the last pair of brackets. -/
inductive Pending : Bool → Text → Prop
  | before (g : Text.Gap) : Pending false g.1.reverse
  | within (g i : Text.Gap) : Pending true (g.1 ++ '[' :: i.1).reverse

theorem Pending.spacing {inside : Bool} {pending : Text} {c : Char} (h : Pending inside pending)
    (hc : Text.isSpacing c = true) : Pending inside (c :: pending) := by
  have hnext : ∀ g : Text.Gap, ∀ d ∈ g.1 ++ [c], Text.isSpacing d = true := by
    intro g d hd
    rcases List.mem_append.mp hd with hd | hd
    · exact g.2 d hd
    · exact List.mem_singleton.mp hd ▸ hc
  cases h with
  | before g =>
    have hpending : c :: g.1.reverse = (g.1 ++ [c]).reverse := by simp
    rw [hpending]
    exact .before ⟨g.1 ++ [c], hnext g⟩
  | within g i =>
    have hpending : c :: (g.1 ++ '[' :: i.1).reverse = (g.1 ++ '[' :: (i.1 ++ [c])).reverse := by simp
    rw [hpending]
    exact .within g ⟨i.1 ++ [c], hnext i⟩

theorem bracketsFrom_spec {inside : Bool} {pending : Text} (h : Pending inside pending) (done t : Text) :
    ∃ (bs : List Ty.Brackets) (rest : Text), bracketsFrom done pending (pending.reverse ++ t) inside t =
        (done.reverse ++ bs.flatMap Ty.Brackets.text, rest) ∧
      pending.reverse ++ t = bs.flatMap Ty.Brackets.text ++ rest := by
  have hends : ∀ done behind : Text, ∃ (bs : List Ty.Brackets) (rest : Text),
      (done.reverse, behind) = (done.reverse ++ bs.flatMap Ty.Brackets.text, rest) ∧
        behind = bs.flatMap Ty.Brackets.text ++ rest := fun done behind => ⟨[], behind, by simp, rfl⟩
  -- Along the text, with what has been read since the last pair as the state.
  induction t generalizing done pending inside with
  | nil => exact hends _ _
  | cons c t ih =>
    have hnext : pending.reverse ++ c :: t = (c :: pending).reverse ++ t := by simp
    rw [bracketsFrom]
    split
    case isTrue hc =>
      rw [hnext]
      exact ih (h.spacing hc) done
    case isFalse =>
      split
      case isTrue hopens =>
        obtain ⟨hinside, hc⟩ := (Bool.and_eq_true _ _).mp hopens
        cases h with
        | within => cases hinside
        | before g =>
          rw [hnext]
          refine ih ?_ done
          have hpending : c :: g.1.reverse = (g.1 ++ '[' :: []).reverse := by simp [beq_iff_eq.mp hc]
          rw [hpending]
          exact .within g .none
      case isFalse =>
        split
        case isTrue hcloses =>
          obtain ⟨hinside, hc⟩ := (Bool.and_eq_true _ _).mp hcloses
          cases h with
          | before => cases hinside
          | within g i =>
            have htext : (Ty.Brackets.mk g i).text = g.1 ++ '[' :: (i.1 ++ [']']) := rfl
            obtain ⟨bs, rest, hbrackets, hrest⟩ :=
              ih (.before .none) (c :: ((g.1 ++ '[' :: i.1).reverse ++ done))
            refine ⟨⟨g, i⟩ :: bs, rest, ?_, ?_⟩
            · exact hbrackets.trans (by simp [htext, beq_iff_eq.mp hc])
            · have hbehind : t = bs.flatMap Ty.Brackets.text ++ rest := hrest
              rw [hbehind]
              simp [htext, beq_iff_eq.mp hc]
        case isFalse => exact hends _ _

theorem readBlockReturn?_spec {params returns : Text} (hparams : ∀ c ∈ params, isParamChar c = true)
    (h : readBlockReturn? t = some (returns, rest)) :
    ∃ w : WrittenSignature, w.params = params ∧ w.behindParams = returns ∧ t = returns ++ rest := by
  unfold readBlockReturn? at h
  rcases hcolon : t.span Text.isSpacing with ⟨gap, _ | ⟨c, r⟩⟩
  · rw [hcolon] at h
    cases h
  obtain ⟨rfl, hgap, -⟩ := Text.span_eq_iff.mp hcolon
  rw [hcolon] at h
  by_cases hc : c = ':'
  · subst hc
    simp only at h
    rcases hspan : r.span Text.isSpacing with ⟨gap', r'⟩
    obtain ⟨rfl, hgap', -⟩ := Text.span_eq_iff.mp hspan
    rw [hspan] at h
    simp only at h
    rcases hname : r'.span isTypeChar with ⟨_ | ⟨d, name⟩, r⟩
    · rw [hname] at h
      cases h
    obtain ⟨rfl, hplain, -⟩ := Text.span_eq_iff.mp hname
    rw [hname] at h
    obtain ⟨bs, behind, hbrackets, hrest⟩ := bracketsFrom_spec (.before .none) [] r
    have hread : readBrackets r = (bs.flatMap Ty.Brackets.text, behind) := hbrackets
    simp only [hread] at h
    cases h
    have hr : r = bs.flatMap Ty.Brackets.text ++ rest := hrest
    refine ⟨⟨params, ⟨gap, hgap⟩, ⟨gap', hgap'⟩, d :: name, bs, hparams, hplain, List.cons_ne_nil d name⟩, rfl, ?_, ?_⟩
    · simp [WrittenSignature.behindParams, WrittenSignature.returns]
    · simp [hr]
  · simp [hc] at h

theorem readBlockSignature?_spec {signatureText : Text} (h : readBlockSignature? t = some (signatureText, rest)) :
    ∃ o : Option WrittenSignature, signatureText = o.elim [] WrittenSignature.text ∧ t = signatureText ++ rest := by
  have hnone : some (([] : Text), t) = some (signatureText, rest) →
      ∃ o : Option WrittenSignature, signatureText = o.elim [] WrittenSignature.text ∧ t = signatureText ++ rest := by
    intro h
    cases h
    exact ⟨none, rfl, rfl⟩
  unfold readBlockSignature? at h
  split at h
  case h_1 r =>
    rcases hspan : r.span isParamChar with ⟨params, _ | ⟨c, r'⟩⟩
    · rw [hspan] at h
      cases h
    obtain ⟨rfl, hparams, -⟩ := Text.span_eq_iff.mp hspan
    rw [hspan] at h
    by_cases hc : c = ')'
    · subst hc
      obtain ⟨⟨returns, behind⟩, hreturns, heq⟩ := Option.map_eq_some_iff.mp h
      cases heq
      obtain ⟨w, rfl, rfl, rfl⟩ := readBlockReturn?_spec hparams hreturns
      exact ⟨some w, rfl, by simp⟩
    · simp [hc] at h
  case h_2 => exact hnone h

/-- **Reading takes the written blocks and no other texts.** -/
theorem readBlock?_eq_some_iff {block : Block} :
    readBlock? t = some block ↔ ∃ (w : WrittenBlock) (behind : Text), t = w.inner ++ behind ∧ w.block = block := by
  constructor
  · intro h
    unfold readBlock? at h
    rcases hword : (Text.skipSpacing t).span Text.isLetter with ⟨_ | ⟨c, word⟩, r⟩
    · rw [hword] at h
      cases h
    rw [hword] at h
    simp only at h
    split at h
    case h_1 => cases h
    case h_2 signatureText rest hsignature =>
      split at h
      case h_1 behind hclose =>
        cases h
        obtain ⟨o, rfl, hr⟩ := readBlockSignature?_spec hsignature
        obtain ⟨ht, hplain, -⟩ := Text.span_eq_iff.mp hword
        obtain ⟨lead, hlead⟩ := Text.Gap.exists_skipSpacing t
        obtain ⟨gap, hgap⟩ := Text.Gap.exists_skipSpacing r
        obtain ⟨last, hlast⟩ := Text.Gap.exists_skipSpacing rest
        refine ⟨⟨lead, c :: word, gap, o, last, hplain, List.cons_ne_nil c word⟩, behind, ?_, rfl⟩
        rw [hlead, ht, hgap, hr, hlast, hclose]
        simp [WrittenBlock.inner, WrittenBlock.signatureText]
      case h_2 => cases h
  · rintro ⟨w, behind, rfl, rfl⟩
    exact readBlock?_text w behind

/-! ## The first block -/

/-- The block is written in the text, and none starts earlier. -/
def WrittenBlock.FirstIn (w : WrittenBlock) (t : Text) : Prop :=
  ∃ before behind, t = before ++ (w.text ++ behind) ∧ ∀ (w' : WrittenBlock) (before' behind' : Text),
    t = before' ++ (w'.text ++ behind') → before.length ≤ before'.length

variable {b : WrittenBlock} {c : Char}

theorem firstIn_cons (hstarts : ∀ (w : WrittenBlock) (behind : Text), c :: t ≠ w.text ++ behind) :
    b.FirstIn (c :: t) ↔ b.FirstIn t := by
  constructor
  · rintro ⟨before, behind, ht, hfirst⟩
    cases before with
    | nil => exact absurd ht (hstarts b behind)
    | cons d before =>
      obtain ⟨rfl, htail⟩ := List.cons.inj ht
      refine ⟨before, behind, htail, fun w' before' behind' h => ?_⟩
      have hle := hfirst w' (c :: before') behind' (congrArg (c :: ·) h)
      exact Nat.le_of_succ_le_succ hle
  · rintro ⟨before, behind, rfl, hfirst⟩
    refine ⟨c :: before, behind, rfl, fun w' before' behind' h => ?_⟩
    cases before' with
    | nil => exact absurd h (hstarts w' behind')
    | cons d before' => exact Nat.succ_le_succ (hfirst w' before' behind' (List.cons.inj h).2)

/-- No block starts in front of the first brace. -/
theorem firstIn_append (before behind : Text) (hbrace : '\x7b' ∉ before) :
    b.FirstIn (before ++ (b.text ++ behind)) := by
  refine ⟨before, behind, rfl, fun w' before' behind' h => Nat.not_lt.mp fun hlt => hbrace ?_⟩
  have hplace := congrArg (fun u => u[before'.length]?) h
  simp only [List.getElem?_append_left hlt, List.getElem?_append_right (Nat.le_refl _), Nat.sub_self] at hplace
  exact List.mem_of_getElem? hplace

theorem firstIn_start {behind : Text} (h : t = b.text ++ behind) : b.FirstIn t :=
  ⟨[], behind, h, fun _ _ _ _ => Nat.zero_le _⟩

theorem blockIn?_text (w : WrittenBlock) (behind : Text) : blockIn? (w.text ++ behind) = some w.block := by
  rw [WrittenBlock.text, List.cons_append, blockIn?, if_pos (by decide), readBlock?_text]

theorem blockIn?_cons (hstarts : ∀ (w : WrittenBlock) (behind : Text), c :: t ≠ w.text ++ behind) :
    blockIn? (c :: t) = blockIn? t := by
  rw [blockIn?]
  split
  case isTrue hc =>
    cases hread : readBlock? t with
    | none => rfl
    | some block =>
      obtain ⟨w, behind, ht, -⟩ := readBlock?_eq_some_iff.mp hread
      exact absurd (congrArg₂ List.cons (beq_iff_eq.mp hc) ht) (hstarts w behind)
  case isFalse => rfl

/-- **The block of a script is the one that starts first.** -/
theorem blockIn?_eq_some_iff {block : Block} :
    blockIn? t = some block ↔ ∃ w : WrittenBlock, w.FirstIn t ∧ w.block = block := by
  induction t with
  | nil =>
    constructor
    · intro h
      cases h
    · rintro ⟨w, ⟨before, behind, h, -⟩, -⟩
      cases before <;> cases h
  | cons c t ih =>
    by_cases hstarts : ∃ (w : WrittenBlock) (behind : Text), c :: t = w.text ++ behind
    · obtain ⟨w, behind, ht⟩ := hstarts
      rw [ht, blockIn?_text]
      constructor
      · intro h
        exact ⟨w, firstIn_start rfl, Option.some.inj h⟩
      · rintro ⟨w', ⟨before, behind', h, hfirst⟩, rfl⟩
        obtain rfl : before = [] := List.length_eq_zero_iff.mp (Nat.le_zero.mp (hfirst w [] behind rfl))
        -- Both blocks start here and both are what is read, so nothing has to be said about their spellings.
        rw [← blockIn?_text w behind, h]
        exact blockIn?_text w' behind'
    · have hstarts' : ∀ (w : WrittenBlock) (behind : Text), c :: t ≠ w.text ++ behind := fun w behind h =>
        hstarts ⟨w, behind, h⟩
      rw [blockIn?_cons hstarts', ih]
      simp only [firstIn_cons hstarts']

end Header
end SealedScript
