import SealedScript.Proofs.Program.Parse

/-!
Program text in parts.

The scanner holds the place in a token, an offset, and what it has read. Set further on by some bytes, with operations
read before, it goes on in the same way (`run_later`). A line feed behind a text that can end there leaves no token
open, so what follows it is read as a text of its own (`parse_append_line`).
-/

namespace SealedScript
set_option autoImplicit false

/-! ## The same further on -/

/-- The fault that a text has, when the text stands `k` bytes further on. -/
def EngineFault.later (k : Nat) : EngineFault → EngineFault
  | .unterminatedComment offset => .unterminatedComment (k + offset)
  | .unterminatedString offset => .unterminatedString (k + offset)
  | .unexpectedToken word offset => .unexpectedToken word (k + offset)
  | fault => fault

theorem EngineFault.later_later (fault : EngineFault) (j k : Nat) : (fault.later k).later j = fault.later (j + k) := by
  cases fault with
  | unterminatedComment | unterminatedString | unexpectedToken => simp only [later, Nat.add_assoc]
  | _ => rfl

/-- The place in a token that starts `k` bytes further on. -/
def Place.later (k : Nat) : Place → Place
  | .between => .between
  | .slash start => .slash (k + start)
  | .word start chars => .word (k + start) chars
  | .lineComment => .lineComment
  | .comment start star => .comment (k + start) star
  | .quoted start escaped chars => .quoted (k + start) escaped chars

namespace Scanner

/-- The scanner `k` bytes further on, with operations, held in reverse, that were read before. -/
def later (k : Nat) (before : List Op) (s : Scanner) : Scanner := ⟨s.place.later k, k + s.offset, s.ops ++ before⟩

/-- What the scanner makes of the rest of a text. -/
def run (s : Scanner) (t : Text) : Except EngineFault (List Op) := t.foldlM step s >>= finish

variable {s s' : Scanner} {k : Nat} {before ops : List Op} {t : Text} {c : Char}

theorem run_nil (s : Scanner) : s.run [] = s.finish := rfl

theorem run_cons (s : Scanner) (c : Char) (t : Text) : s.run (c :: t) = s.step c >>= fun s => s.run t := by
  simp only [run, List.foldlM_cons, bind_assoc]

theorem run_append (h : t.foldlM step s = .ok s') (u : Text) : s.run (t ++ u) = s'.run u := by
  rw [run, List.foldlM_append, h]
  rfl

theorem later_start (s : Scanner) (h : s.place = .between) : s = start.later s.offset s.ops := by
  obtain ⟨place, offset, ops⟩ := s
  subst h
  rfl

theorem endWord_later (s : Scanner) (start : Nat) (word : Text) : (s.later k before).endWord (k + start) word =
    ((s.endWord start word).mapError (.later k)).map (later k before) := by
  rw [endWord, endWord]
  cases Op.ofWord? word with
  | none => rfl
  | some op => rfl

theorem begin_later (s : Scanner) (c : Char) : (s.later k before).begin c = (s.begin c).later k before := by
  unfold begin
  split
  case isTrue => rfl
  case isFalse =>
    split
    case isTrue => rfl
    case isFalse => split <;> rfl

theorem take_later (s : Scanner) (c : Char) :
    (s.later k before).take c = ((s.take c).mapError (.later k)).map (later k before) := by
  obtain ⟨place, offset, ops⟩ := s
  cases place with
  | between => exact congrArg Except.ok (begin_later ⟨.between, offset, ops⟩ c)
  | slash start =>
    simp only [take, later, Place.later]
    split
    case isTrue => rfl
    case isFalse =>
      split
      case isTrue => rfl
      case isFalse =>
        split
        case isTrue => exact endWord_later ⟨.slash start, offset, ops⟩ start ['/']
        case isFalse => rfl
  | word start chars =>
    simp only [take, later, Place.later]
    split
    case isTrue => exact endWord_later ⟨.word start chars, offset, ops⟩ start chars.reverse
    case isFalse => rfl
  | lineComment =>
    simp only [take, later, Place.later]
    split <;> rfl
  | comment start star =>
    simp only [take, later, Place.later]
    split <;> rfl
  | quoted start escaped chars =>
    simp only [take, later, Place.later]
    split
    case isTrue => rfl
    case isFalse =>
      split
      case isTrue => rfl
      case isFalse => split <;> rfl

theorem step_later (s : Scanner) (c : Char) :
    (s.later k before).step c = ((s.step c).mapError (.later k)).map (later k before) := by
  rw [step, step, take_later]
  cases s.take c with
  | error fault => rfl
  | ok s' =>
    have hoffset : k + s'.offset + c.utf8Size = k + (s'.offset + c.utf8Size) := Nat.add_assoc ..
    have hnext : Scanner.mk (s'.place.later k) (k + s'.offset + c.utf8Size) (s'.ops ++ before) =
        ⟨s'.place.later k, k + (s'.offset + c.utf8Size), s'.ops ++ before⟩ := by rw [hoffset]
    exact congrArg Except.ok hnext

theorem finish_later (s : Scanner) :
    (s.later k before).finish = ((s.finish).mapError (.later k)).map (before.reverse ++ ·) := by
  obtain ⟨place, offset, ops⟩ := s
  cases place with
  | between | lineComment => exact congrArg Except.ok (List.reverse_append ..)
  | comment start star => rfl
  | quoted start escaped chars => rfl
  | slash start =>
    have hops : (Op.arith .div :: ops ++ before).reverse = before.reverse ++ (Op.arith .div :: ops).reverse :=
      List.reverse_append
    exact congrArg Except.ok hops
  | word start chars =>
    have hend := @endWord_later k before ⟨.word start chars, offset, ops⟩ start chars.reverse
    simp only [finish, later, Place.later] at hend ⊢
    rw [hend, endWord]
    cases Op.ofWord? chars.reverse with
    | none => rfl
    | some op =>
      have hops : (op :: ops ++ before).reverse = before.reverse ++ (op :: ops).reverse := List.reverse_append
      exact congrArg Except.ok hops

/-- **Further on, a text is read in the same way.** -/
theorem run_later (s : Scanner) (t : Text) :
    (s.later k before).run t = ((s.run t).mapError (.later k)).map (before.reverse ++ ·) := by
  induction t generalizing s with
  | nil => exact finish_later s
  | cons c t ih =>
    rw [run_cons, run_cons, step_later]
    cases s.step c with
    | error fault => rfl
    | ok s' => exact ih s'

/-- A line feed ends a word as the end of the text does. -/
theorem step_line_of_finish_unexpected {word : Text} {offset : Nat}
    (h : s.finish = .error (.unexpectedToken word offset)) : s.step '\n' = .error (.unexpectedToken word offset) := by
  obtain ⟨place, here, ops⟩ := s
  cases place with
  | between | slash start | lineComment | comment start star | quoted start escaped chars => cases h
  | word start chars =>
    have hblank : Text.isBlank '\n' = true := by decide
    simp only [finish, endWord] at h
    simp only [step, take, hblank, if_true, endWord]
    cases hword : Op.ofWord? chars.reverse with
    | none =>
      rw [hword] at h
      cases h
      rfl
    | some op =>
      rw [hword] at h
      cases h

/-! ## Offsets -/

theorem endWord_offset {start : Nat} {word : Text} (h : s.endWord start word = .ok s') : s'.offset = s.offset := by
  unfold endWord at h
  split at h
  case h_1 =>
    cases h
    rfl
  case h_2 => cases h

theorem begin_offset (s : Scanner) (c : Char) : (s.begin c).offset = s.offset := by
  unfold begin
  split
  case isTrue => rfl
  case isFalse =>
    split
    case isTrue => rfl
    case isFalse => split <;> rfl

theorem take_offset (h : s.take c = .ok s') : s'.offset = s.offset := by
  unfold take at h
  split at h
  case h_1 =>
    cases h
    exact begin_offset s c
  case h_2 start =>
    split at h
    case isTrue =>
      cases h
      rfl
    case isFalse =>
      split at h
      case isTrue =>
        cases h
        rfl
      case isFalse =>
        split at h
        case isTrue => exact endWord_offset h
        case isFalse =>
          cases h
          rfl
  case h_3 start chars =>
    split at h
    case isTrue => exact endWord_offset h
    case isFalse =>
      cases h
      rfl
  case h_4 =>
    cases h
    split <;> rfl
  case h_5 =>
    split at h <;> cases h <;> rfl
  case h_6 =>
    split at h
    case isTrue =>
      cases h
      rfl
    case isFalse =>
      split at h
      case isTrue =>
        cases h
        rfl
      case isFalse => split at h <;> cases h <;> rfl

/-- Every character takes the scanner on by its length. -/
theorem step_offset (h : s.step c = .ok s') : s'.offset = s.offset + c.utf8Size := by
  obtain ⟨taken, htaken, rfl⟩ := map_eq_ok.mp h
  rw [← take_offset htaken]

theorem foldlM_offset (h : t.foldlM step s = .ok s') : s'.offset = s.offset + Text.byteLength t := by
  induction t generalizing s with
  | nil =>
    cases h
    rfl
  | cons c t ih =>
    rw [List.foldlM_cons] at h
    obtain ⟨next, hnext, hrest⟩ := bind_eq_ok.mp h
    rw [ih hrest, step_offset hnext, Text.byteLength_cons]
    omega

end Scanner

namespace Op

variable {a : Text} {x : List Op}

theorem parse_eq_run (t : Text) : parse t = Scanner.start.run t := rfl

/-- **Behind a line feed a text is read as one of its own**, and its faults as many bytes further on as stand before. -/
theorem parse_append_line (h : parse a = .ok x) (b : Text) :
    parse (a ++ '\n' :: b) = ((parse b).mapError (.later (Text.byteLength a + 1))).map (x ++ ·) := by
  obtain ⟨s, hs, hfinish⟩ := bind_eq_ok.mp h
  obtain ⟨s', hline, hplace, hops⟩ := Scanner.step_line_of_finish hfinish
  have hoffset : s'.offset = Text.byteLength a + 1 := by
    rw [Scanner.step_offset hline, Scanner.foldlM_offset hs]
    show 0 + Text.byteLength a + 1 = _
    omega
  rw [parse_eq_run, Scanner.run_append hs, Scanner.run_cons, hline]
  show s'.run b = _
  rw [s'.later_start hplace, Scanner.run_later, hoffset, hops, parse_eq_run]

/-- A word that is no token is none whatever follows its line. -/
theorem parse_append_line_unexpected {word : Text} {offset : Nat} (h : parse a = .error (.unexpectedToken word offset))
    (b : Text) : parse (a ++ '\n' :: b) = .error (.unexpectedToken word offset) := by
  rw [parse_eq_run, Scanner.run] at h ⊢
  rw [List.foldlM_append]
  cases hs : a.foldlM Scanner.step .start with
  | error fault =>
    rw [hs] at h
    cases h
    rfl
  | ok s =>
    rw [hs] at h
    have hline : s.step '\n' = .error (.unexpectedToken word offset) := Scanner.step_line_of_finish_unexpected h
    show List.foldlM Scanner.step s ('\n' :: b) >>= Scanner.finish = _
    rw [List.foldlM_cons, hline]
    rfl

end Op
end SealedScript
