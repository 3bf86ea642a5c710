import SealedScript.Text.Basic

/-!
Launch lines: leading lines that end with `##`, such as those that name an interpreter to the shell.
Every reader of a script starts behind them.
-/

namespace SealedScript.Header
set_option autoImplicit false

/-- Does a line, given backwards and without its line feed, end with two number signs? A carriage
return at its end does not count. -/
def isLaunchLine : Text → Bool
  | '\r' :: '#' :: '#' :: _ => true
  | '#' :: '#' :: _ => true
  | _ => false

/-- Reads on in a line of which `line` has been read, in reverse; `start` is the text from the start of
that line on. The first line that is no launch line, or has no line feed, ends the search. -/
def skipLaunchLines (start line : Text) : Text → Text
  | [] => start
  | c :: t =>
    if c == '\n' then if isLaunchLine line then skipLaunchLines t [] t else start
    else skipLaunchLines start (c :: line) t

/-- The text behind the launch lines. -/
def behindLaunchLines (code : Text) : Text := skipLaunchLines code [] code

end SealedScript.Header
