import Mathlib.Data.List.TakeWhile
import SealedScript.Proofs.Program.Compose
import SealedScript.Proofs.Text.Offset

/-!
Program text read at byte offsets.

Here the tokens are found one behind another: each round looks at the rest of the text from an offset on, and finds
where what stands there ends by looking for its end. The scanner reads the same, character by character. No round
leaves the text, cuts a character or stays where it is, so that reading ends on every text, and it reads what `parse`
reads (`parseAt_eq`).
-/

namespace SealedScript
set_option autoImplicit false

open Text (behind? front? firstByteOf? firstByteWhere? byteLength isBoundary)

namespace Op

/-! ## The reader -/

/-- The text between the quote in front of it and the one that closes it, and the offset behind that one. The offset
is `here`, and `chars` holds in reverse what has been read. -/
def quotedFrom (here : Nat) (chars : Text) : Text → Option (Text × Nat)
  | [] => none
  | c :: t =>
    if c == '"' then some (chars.reverse, here + 1)
    else if c == '\\' then
      match t with
      | [] => none
      | e :: t => quotedFrom (here + (c.utf8Size + e.utf8Size)) (Scanner.unescape e :: chars) t
    else quotedFrom (here + c.utf8Size) (c :: chars) t

/-- What starts at an offset, whose rest of the text is not empty: the offset behind it, and the operation if it is
one. -/
def tokenAt (start : Nat) (c : Char) (t : Text) : Guarded EngineFault (Nat × Option Op) :=
  if Text.isBlank c then return (start + c.utf8Size, none)
  else if ['/', '/'].isPrefixOf (c :: t) then
    return (start + (firstByteWhere? (· == '\n') (c :: t)).getD (byteLength (c :: t)), none)
  else if ['/', '*'].isPrefixOf (c :: t) then do
    let inner ← behind? (c :: t) 2
    match firstByteOf? ['*', '/'] inner with
    | some stop => return (start + (stop + 4), none)
    | none => throw (.unterminatedComment start)
  else if c == '"' then
    match quotedFrom 1 [] t with
    | some (text, used) => return (start + used, some (.push (.text (String.ofList text))))
    | none => throw (.unterminatedString start)
  else do
    let length := (firstByteWhere? Text.isBlank (c :: t)).getD (byteLength (c :: t))
    let word ← front? (c :: t) length
    match ofWord? word with
    | some op => return (start + length, some op)
    | none => throw (.unexpectedToken word start)

/-- One round of reading, if there is anything to read. -/
def roundAt (t : Text) (start : Nat) : Guarded EngineFault (Option (Nat × Option Op)) := do
  match ← behind? t start with
  | [] => return none
  | c :: rest => return some (← tokenAt start c rest)

/-- Reads from an offset on, with the operations read so far in reverse; `none` where a slice leaves the text or cuts a
character, or a round does not get on. -/
def parseFromAt (t : Text) (start : Nat) (ops : List Op) : Guarded EngineFault (List Op) :=
  if start < byteLength t then do
    match ← roundAt t start with
    | none => return ops.reverse
    | some (next, op?) => if start < next then parseFromAt t next (op?.toList ++ ops) else ExceptT.mk none
  else return ops.reverse
termination_by byteLength t - start

def parseAt (t : Text) : Guarded EngineFault (List Op) := parseFromAt t 0 []

end Op

namespace Scanner

/-- The scanner between two tokens. -/
def ready (offset : Nat) (ops : List Op) : Scanner := ⟨.between, offset, ops⟩

variable {start offset : Nat} {ops : List Op} {chars line more t word : Text}

/-! ## Tokens in the scanner -/

theorem run_lineComment (hline : '\n' ∉ line) (hmore : ∀ d, more.head? = some d → d = '\n') :
    run ⟨.lineComment, offset, ops⟩ (line ++ more) = (ready (offset + byteLength line) ops).run more := by
  induction line generalizing offset with
  | nil =>
    cases more with
    | nil => rfl
    | cons d more =>
      obtain rfl := hmore d rfl
      rfl
  | cons c line ih =>
    rw [List.mem_cons, not_or] at hline
    have hc : (c == '\n') = false := beq_eq_false_iff_ne.mpr (Ne.symm hline.1)
    have hstep : step ⟨.lineComment, offset, ops⟩ c = .ok ⟨.lineComment, offset + c.utf8Size, ops⟩ := by
      simp only [step, take, hc]
      rfl
    rw [List.cons_append, run_cons, hstep]
    show run ⟨.lineComment, offset + c.utf8Size, ops⟩ (line ++ more) = _
    rw [ih hline.2, Text.byteLength_cons, Nat.add_assoc]

/-- A word goes on up to white space or the end of the text. -/
theorem run_word (hword : ∀ c ∈ word, Text.isBlank c = false)
    (hmore : ∀ d, more.head? = some d → Text.isBlank d = true) :
    run ⟨.word start chars, offset, ops⟩ (word ++ more) =
      match Op.ofWord? (chars.reverse ++ word) with
      | some op => (ready (offset + byteLength word) (op :: ops)).run more
      | none => .error (.unexpectedToken (chars.reverse ++ word) start) := by
  induction word generalizing chars offset with
  | nil =>
    rw [List.nil_append, List.append_nil]
    cases more with
    | nil =>
      simp only [run_nil, finish, endWord]
      cases Op.ofWord? chars.reverse <;> rfl
    | cons d more =>
      have hd := hmore d rfl
      simp only [run_cons, ready, step, take, begin, endWord, hd, if_true]
      cases Op.ofWord? chars.reverse <;> rfl
  | cons c word ih =>
    have hc := hword c List.mem_cons_self
    have hstep : step ⟨.word start chars, offset, ops⟩ c =
        .ok ⟨.word start (c :: chars), offset + c.utf8Size, ops⟩ := by
      simp only [step, take, hc]
      rfl
    rw [List.cons_append, run_cons, hstep]
    show run ⟨.word start (c :: chars), offset + c.utf8Size, ops⟩ (word ++ more) = _
    rw [ih fun d hd => hword d (List.mem_cons_of_mem c hd), List.reverse_cons, List.append_assoc,
      List.singleton_append, Text.byteLength_cons, Nat.add_assoc]

/-- A slash that opens no comment starts a word. -/
theorem run_slash (ht : ∀ d, t.head? = some d → d ≠ '/' ∧ d ≠ '*') :
    run ⟨.slash start, offset, ops⟩ t = run ⟨.word start ['/'], offset, ops⟩ t := by
  cases t with
  | nil => rfl
  | cons d t =>
    obtain ⟨hslash, hstar⟩ := ht d rfl
    have htake : take ⟨.slash start, offset, ops⟩ d = take ⟨.word start ['/'], offset, ops⟩ d := by
      simp only [take, beq_eq_false_iff_ne.mpr hslash, beq_eq_false_iff_ne.mpr hstar, Bool.false_eq_true, if_false]
      rfl
    rw [run_cons, run_cons, step, step, htake]

/-- What a reader of a text in quotes answers is what the scanner makes of it. -/
def Quotes (start here : Nat) (chars t : Text) : Option (Text × Nat) → Prop
  | some (text, used) => ∃ inner more, t = inner ++ more ∧ used = here + byteLength inner ∧ ∀ offset ops,
      run ⟨.quoted start false chars, offset, ops⟩ t =
        (ready (offset + byteLength inner) (.push (.text (String.ofList text)) :: ops)).run more
  | none => ∀ offset ops, run ⟨.quoted start false chars, offset, ops⟩ t = .error (.unterminatedString start)

/-- What is read behind a part that leaves the quotes open is read with it. -/
theorem Quotes.front {here width : Nat} {chars' : Text} {x : Option (Text × Nat)} (front : Text)
    (hwidth : byteLength front = width)
    (hfront : ∀ offset ops, front.foldlM step ⟨.quoted start false chars, offset, ops⟩ =
      .ok ⟨.quoted start false chars', offset + width, ops⟩)
    (h : Quotes start (here + width) chars' t x) : Quotes start here chars (front ++ t) x := by
  cases x with
  | none =>
    intro offset ops
    rw [run_append (hfront offset ops)]
    exact h _ ops
  | some found =>
    obtain ⟨inner, more, rfl, hused, hrun⟩ := h
    refine ⟨front ++ inner, more, (List.append_assoc ..).symm, ?_, fun offset ops => ?_⟩
    · rw [hused, Text.byteLength_append, hwidth, Nat.add_assoc]
    · rw [run_append (hfront offset ops), hrun, Text.byteLength_append, hwidth, Nat.add_assoc]

/-- **A text in quotes** is read up to the quote that closes it. -/
theorem quotes_quotedFrom (start here : Nat) (chars t : Text) :
    Quotes start here chars t (Op.quotedFrom here chars t) := by
  fun_induction Op.quotedFrom here chars t with
  | case1 => exact fun offset ops => rfl
  | case2 here chars c t hclose =>
    obtain rfl : c = '"' := beq_iff_eq.mp hclose
    exact ⟨['"'], t, rfl, rfl, fun offset ops => rfl⟩
  | case3 here chars c hclose hescape =>
    obtain rfl : c = '\\' := beq_iff_eq.mp hescape
    exact fun offset ops => rfl
  | case4 here chars c hclose hescape e t ih =>
    obtain rfl : c = '\\' := beq_iff_eq.mp hescape
    refine Quotes.front ['\\', e] (by simp) (fun offset ops => ?_) ih
    rw [← Nat.add_assoc]
    rfl
  | case5 here chars c t hclose hescape ih =>
    refine Quotes.front [c] (by simp) (fun offset ops => ?_) ih
    simp only [List.foldlM_cons, step, take, Bool.eq_false_iff.mpr hclose, Bool.eq_false_iff.mpr hescape]
    rfl

/-! ## Rounds -/

/-- What one round answers is what the scanner makes of the rest of the text: a part of it that is not empty, and what
follows that; or a fault. -/
def Reads (start : Nat) (rest : Text) : Except EngineFault (Nat × Option Op) → Prop
  | .ok (next, op?) => ∃ token more, rest = token ++ more ∧ token ≠ [] ∧ next = start + byteLength token ∧
      ∀ ops, (ready start ops).run rest = (ready next (op?.toList ++ ops)).run more
  | .error fault => ∀ ops, (ready start ops).run rest = .error fault

theorem Reads.lt_next {found : Nat × Option Op} (h : Reads start t (.ok found)) : start < found.1 := by
  obtain ⟨token, more, -, htoken, hnext, -⟩ := h
  obtain ⟨c, token, rfl⟩ := List.exists_cons_of_ne_nil htoken
  have hsize := Char.utf8Size_pos c
  rw [hnext, Text.byteLength_cons]
  omega

theorem reads_blank {c : Char} (hc : Text.isBlank c = true) :
    Reads start (c :: t) (.ok (start + c.utf8Size, none)) := by
  refine ⟨[c], t, rfl, List.cons_ne_nil c [], by simp, fun ops => ?_⟩
  simp only [ready, run_cons, step, take, begin, hc, if_true]
  rfl

theorem reads_lineComment (start : Nat) (t : Text) :
    Reads start ('/' :: '/' :: t)
      (.ok (start + byteLength (('/' :: '/' :: t).takeWhile fun c => !(c == '\n')), none)) := by
  obtain ⟨more, hsplit, hmore⟩ := Text.takeWhile_split (· == '\n') t
  have hline : '\n' ∉ t.takeWhile fun c => !(c == '\n') := fun hmem => by simpa using List.mem_takeWhile_imp hmem
  have hcut : ('/' :: '/' :: t).takeWhile (fun c => !(c == '\n')) =
      '/' :: '/' :: t.takeWhile fun c => !(c == '\n') := rfl
  rw [hcut]
  generalize t.takeWhile (fun c => !(c == '\n')) = line at hsplit hline ⊢
  subst hsplit
  refine ⟨'/' :: '/' :: line, more, rfl, List.cons_ne_nil _ _, rfl, fun ops => ?_⟩
  have hopen : (ready start ops).run ('/' :: '/' :: (line ++ more)) =
      run ⟨.lineComment, start + '/'.utf8Size + '/'.utf8Size, ops⟩ (line ++ more) := rfl
  rw [hopen, run_lineComment hline fun d hd => by simpa using hmore d hd]
  simp only [Text.byteLength_cons, ← Nat.add_assoc]
  rfl

theorem reads_comment {body : Text} (hbody : ¬ ['*', '/'] <:+: body) (start : Nat) (more : Text) :
    Reads start ('/' :: '*' :: (body ++ ('*' :: '/' :: more))) (.ok (start + (byteLength body + 4), none)) := by
  have hwidth : byteLength ('/' :: '*' :: (body ++ ['*', '/'])) = byteLength body + 4 := by
    simp only [Text.byteLength_cons, Text.byteLength_append, Text.byteLength_nil]
    have hslash : '/'.utf8Size = 1 := rfl
    have hstar : '*'.utf8Size = 1 := rfl
    omega
  refine ⟨'/' :: '*' :: (body ++ ['*', '/']), more, by simp, List.cons_ne_nil _ _, by rw [hwidth], fun ops => ?_⟩
  obtain ⟨s, hrun, hplace, hops⟩ := foldlM_whole_comment (s := ready start ops) rfl hbody
  have hoffset := foldlM_offset hrun
  rw [hwidth] at hoffset
  obtain ⟨place, offset, ops'⟩ := s
  obtain rfl : place = .between := hplace
  obtain rfl : ops' = ops := hops
  obtain rfl : offset = start + (byteLength body + 4) := hoffset
  have hsplit : '/' :: '*' :: (body ++ ('*' :: '/' :: more)) = '/' :: '*' :: (body ++ ['*', '/']) ++ more := by simp
  rw [hsplit, run_append hrun]
  rfl

theorem reads_comment_open {body : Text} (hbody : ¬ ['*', '/'] <:+: body) (start : Nat) :
    Reads start ('/' :: '*' :: body) (.error (.unterminatedComment start)) := by
  intro ops
  have hopen : (ready start ops).run ('/' :: '*' :: body) =
      run ⟨.comment start false, start + '/'.utf8Size + '*'.utf8Size, ops⟩ body := rfl
  obtain ⟨s, star, hrun, hplace, -⟩ := foldlM_comment
    (s := ⟨.comment start false, start + '/'.utf8Size + '*'.utf8Size, ops⟩) rfl hbody
  rw [hopen, run, hrun]
  show s.finish = _
  rw [finish, hplace]

theorem reads_quoted (start : Nat) (t : Text) :
    Reads start ('"' :: t) (match Op.quotedFrom 1 [] t with
      | some (text, used) => .ok (start + used, some (.push (.text (String.ofList text))))
      | none => .error (.unterminatedString start)) := by
  have hquotes := quotes_quotedFrom start 1 [] t
  have hopen : ∀ ops, (ready start ops).run ('"' :: t) =
      run ⟨.quoted start false [], start + '"'.utf8Size, ops⟩ t := fun ops => rfl
  split
  case h_1 text used hquoted =>
    rw [hquoted] at hquotes
    obtain ⟨inner, more, rfl, rfl, hrun⟩ := hquotes
    have hwidth : start + (1 + byteLength inner) = start + '"'.utf8Size + byteLength inner := (Nat.add_assoc ..).symm
    refine ⟨'"' :: inner, more, rfl, List.cons_ne_nil _ _, by rw [Text.byteLength_cons]; rfl, fun ops => ?_⟩
    rw [hopen, hrun, hwidth]
    rfl
  case h_2 hquoted =>
    rw [hquoted] at hquotes
    exact fun ops => (hopen ops).trans (hquotes _ ops)

theorem run_begin_word (start : Nat) {c : Char} (hblank : Text.isBlank c = false) (hquote : ¬ c = '"')
    (hline : ¬ ['/', '/'] <+: c :: t) (hcomment : ¬ ['/', '*'] <+: c :: t) (ops : List Op) :
    (ready start ops).run (c :: t) = run ⟨.word start [c], start + c.utf8Size, ops⟩ t := by
  by_cases hslash : c = '/'
  · subst hslash
    have hopen : (ready start ops).run ('/' :: t) = run ⟨.slash start, start + '/'.utf8Size, ops⟩ t := rfl
    refine hopen.trans (run_slash fun d hd => ?_)
    obtain ⟨t, rfl⟩ := List.head?_eq_some_iff.mp hd
    refine ⟨?_, ?_⟩
    · rintro rfl
      exact hline (List.prefix_append ['/', '/'] t)
    · rintro rfl
      exact hcomment (List.prefix_append ['/', '*'] t)
  · have hstep : step (ready start ops) c = .ok ⟨.word start [c], start + c.utf8Size, ops⟩ := by
      simp only [ready, step, take, begin, hblank, beq_eq_false_iff_ne.mpr hslash, beq_eq_false_iff_ne.mpr hquote]
      rfl
    rw [run_cons, hstep]
    rfl

theorem reads_word (start : Nat) {c : Char} (hblank : Text.isBlank c = false) (hquote : ¬ c = '"')
    (hline : ¬ ['/', '/'] <+: c :: t) (hcomment : ¬ ['/', '*'] <+: c :: t)
    (hword : word = (c :: t).takeWhile fun c => !Text.isBlank c) :
    Reads start (c :: t) (match Op.ofWord? word with
      | some op => .ok (start + byteLength word, some op)
      | none => .error (.unexpectedToken word start)) := by
  have hopen := run_begin_word start hblank hquote hline hcomment
  obtain ⟨more, hsplit, hmore⟩ := Text.takeWhile_split Text.isBlank t
  have hinner : ∀ d ∈ t.takeWhile fun c => !Text.isBlank c, Text.isBlank d = false := fun d hd => by
    simpa using List.mem_takeWhile_imp hd
  have hcut : word = c :: t.takeWhile fun c => !Text.isBlank c := by
    rw [hword, List.takeWhile_cons, hblank]
    rfl
  generalize t.takeWhile (fun c => !Text.isBlank c) = inner at hsplit hinner hcut
  subst hcut hsplit
  have hwidth : start + byteLength (c :: inner) = start + c.utf8Size + byteLength inner := by
    rw [Text.byteLength_cons, Nat.add_assoc]
  have hread : ∀ ops, (ready start ops).run (c :: (inner ++ more)) = _ := fun ops =>
    (hopen ops).trans (run_word hinner hmore)
  simp only [List.reverse_singleton, List.singleton_append, ← hwidth] at hread
  split
  case h_1 op hop =>
    simp only [hop] at hread
    exact ⟨c :: inner, more, rfl, List.cons_ne_nil _ _, rfl, hread⟩
  case h_2 hop =>
    simp only [hop] at hread
    exact hread

/-- **Every round stays in the text**, cuts it between characters, and reads what the scanner reads. -/
theorem reads_tokenAt (start : Nat) (c : Char) (t : Text) :
    ∃ x, Op.tokenAt start c t = within x ∧ Reads start (c :: t) x := by
  unfold Op.tokenAt
  split
  case isTrue hblank => exact ⟨_, rfl, reads_blank hblank⟩
  case isFalse hblank =>
    split
    case isTrue hline =>
      obtain ⟨t, hsplit⟩ := List.isPrefixOf_iff_prefix.mp hline
      rw [← hsplit, Text.firstByteWhere?_getD]
      exact ⟨_, rfl, reads_lineComment start t⟩
    case isFalse hline =>
      split
      case isTrue hcomment =>
        obtain ⟨inner, hsplit⟩ := List.isPrefixOf_iff_prefix.mp hcomment
        have hbehind : behind? (['/', '*'] ++ inner) 2 = some inner := Text.behind?_append ['/', '*'] inner
        rw [← hsplit, hbehind, lift_some_bind]
        split
        case h_1 stop hstop =>
          obtain ⟨body, more, rfl, rfl, hbody⟩ := Text.firstByteOf?_eq_some (List.cons_ne_nil _ _) hstop
          exact ⟨_, rfl, reads_comment hbody start more⟩
        case h_2 hstop => exact ⟨_, rfl, reads_comment_open (Text.firstByteOf?_eq_none hstop) start⟩
      case isFalse hcomment =>
        split
        case isTrue hquote =>
          obtain rfl : c = '"' := beq_iff_eq.mp hquote
          refine ⟨_, ?_, reads_quoted start t⟩
          split <;> rfl
        case isFalse hquote =>
          have hfront := Text.front?_of_front (List.takeWhile_prefix (l := c :: t) fun c => !Text.isBlank c)
          rw [Text.firstByteWhere?_getD]
          dsimp only
          rw [hfront, lift_some_bind]
          refine ⟨_, ?_, reads_word start (Bool.eq_false_iff.mpr hblank) (fun h => hquote (beq_iff_eq.mpr h))
            (fun h => hline (List.isPrefixOf_iff_prefix.mpr h)) (fun h => hcomment (List.isPrefixOf_iff_prefix.mpr h))
            rfl⟩
          split <;> rfl

end Scanner

namespace Op

/-! ## Every round, and the whole text -/

theorem roundAt_append (a : Text) (c : Char) (t : Text) :
    ∃ r, roundAt (a ++ c :: t) (byteLength a) = within (r.map some) ∧ Scanner.Reads (byteLength a) (c :: t) r := by
  obtain ⟨r, hr, hreads⟩ := Scanner.reads_tokenAt (byteLength a) c t
  refine ⟨r, ?_, hreads⟩
  rw [roundAt, Text.behind?_append, lift_some_bind]
  dsimp only
  rw [hr]
  cases r <;> rfl

/-- **From a character on, reading at offsets is what the scanner does.** -/
theorem parseFromAt_append (a rest : Text) (ops : List Op) :
    parseFromAt (a ++ rest) (byteLength a) ops = within ((Scanner.ready (byteLength a) ops).run rest) := by
  -- Every round takes characters off the rest, so the induction is on how many are left.
  induction hleft : rest.length using Nat.strong_induction_on generalizing a rest ops with
  | _ left ih =>
    rw [parseFromAt, Text.byteLength_append]
    cases rest with
    | nil =>
      rw [Text.byteLength_nil, if_neg (by omega)]
      rfl
    | cons c t =>
      have hsize := Char.utf8Size_pos c
      obtain ⟨r, hround, hreads⟩ := roundAt_append a c t
      rw [Text.byteLength_cons, if_pos (by omega), hround]
      cases r with
      | error fault => exact congrArg within (hreads ops).symm
      | ok found =>
        have hnext := hreads.lt_next
        obtain ⟨token, more, hsplit, htoken, hend, hrun⟩ := hreads
        have hlength := congrArg List.length hsplit
        have hpos := List.length_pos_iff.mpr htoken
        rw [List.length_append] at hlength
        rw [Except.map, within_ok_bind]
        dsimp only
        rw [if_pos hnext, hrun, hsplit, hend, ← List.append_assoc, ← Text.byteLength_append]
        exact ih more.length (by omega) _ _ _ rfl

theorem parseAt_eq (t : Text) : parseAt t = within (parse t) := parseFromAt_append [] t []

/-- A round that starts between two characters ends between two characters, further on. -/
theorem roundAt_advances {t : Text} {pos : Nat} (hpos : isBoundary t pos = true) (hlt : pos < byteLength t) :
    ∃ r, roundAt t pos = within r ∧
      ∀ found, r = .ok found → ∃ next op?, found = some (next, op?) ∧ pos < next ∧ isBoundary t next = true := by
  obtain ⟨a, rest, rfl, rfl⟩ := Text.exists_append_of_isBoundary hpos
  cases rest with
  | nil =>
    rw [List.append_nil] at hlt
    exact absurd hlt (Nat.lt_irrefl _)
  | cons c t =>
    obtain ⟨r, hround, hreads⟩ := roundAt_append a c t
    refine ⟨r.map some, hround, fun found hfound => ?_⟩
    obtain ⟨⟨next, op?⟩, rfl, rfl⟩ := map_eq_ok.mp hfound
    have hnext := hreads.lt_next
    obtain ⟨token, more, hsplit, htoken, rfl, hrun⟩ := hreads
    refine ⟨_, op?, rfl, hnext, ?_⟩
    rw [hsplit, ← List.append_assoc, ← Text.byteLength_append]
    exact Text.isBoundary_append _ more

/-- **A text that reads is a line of its own.** Behind it and a line feed another text reads when it does by itself,
and then as itself. Reading goes round by round from the offset zero, on every text: each round starts between two
characters and, where there is no fault, ends between two characters further on. -/
theorem parse_compose {a : Text} {x : List Op} (h : parse a = .ok x) (b : Text) :
    (∀ z, parse (a ++ '\n' :: b) = .ok z ↔ ∃ y, parse b = .ok y ∧ z = x ++ y) ∧
      ∀ t, parseAt t = within (parse t) ∧
        ∀ pos, isBoundary t pos = true → pos < byteLength t →
          ∃ r, roundAt t pos = within r ∧
            ∀ found, r = .ok found → ∃ next op?, found = some (next, op?) ∧ pos < next ∧ isBoundary t next = true := by
  refine ⟨fun z => ?_, fun t => ⟨parseAt_eq t, fun pos hpos hlt => roundAt_advances hpos hlt⟩⟩
  rw [parse_append_line h, map_eq_ok]
  constructor
  · rintro ⟨y, hy, rfl⟩
    exact ⟨y, mapError_eq_ok.mp hy, rfl⟩
  · rintro ⟨y, hy, rfl⟩
    exact ⟨y, mapError_eq_ok.mpr hy, rfl⟩

/-- A comment that holds a quote and an opening slash and star, then a text that holds slashes and a comment that holds
a quote. -/
theorem parse_compose_openers :
    parse "1 // \" /*".toList = .ok [.push (.int 1)] ∧
      parse "\"// é\" /* \" */ +".toList = .ok [.push (.text "// é"), .arith .add] ∧
      parse "1 // \" /*\n\"// é\" /* \" */ +".toList = .ok [.push (.int 1), .push (.text "// é"), .arith .add] ∧
      ∃ r, roundAt "é +".toList 2 = within r ∧
        ∀ found, r = .ok found → ∃ next op?, found = some (next, op?) ∧ 2 < next ∧
          isBoundary "é +".toList next = true := by
  have hfirst : parse "1 // \" /*".toList = .ok [.push (.int 1)] := rfl
  have hsecond : parse "\"// é\" /* \" */ +".toList = .ok [.push (.text "// é"), .arith .add] := rfl
  obtain ⟨hcompose, hrounds⟩ := parse_compose hfirst "\"// é\" /* \" */ +".toList
  exact ⟨hfirst, hsecond, (hcompose _).mpr ⟨_, hsecond, rfl⟩, (hrounds "é +".toList).2 2 rfl (by decide)⟩

end Op
end SealedScript
