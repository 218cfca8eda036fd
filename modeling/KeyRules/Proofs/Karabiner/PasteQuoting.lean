import KeyRules.Proofs.Karabiner.Decoding

/-!
# Quoting of pasted texts

A shell that reads a paste command finds three words. The third one is a script whose second line sets the clipboard to
a literal. The literal ends at the quote in front of the fixed part of the script, and it stands for the text
(`pasteCommand_quoted`). Both readers refuse what they have no rule for: outside quotes a shell command may hold nothing
that separates commands, redirects or expands, and a literal may hold only the escapes of the script language.
-/

namespace KeyRules

/-! ## Words of a shell command -/

namespace Shell

/-- Where the reading of a command stands: between two words, in a word, after a backslash or in single quotes. -/
inductive Mode where
  | between
  | plain
  | escaped
  | quoted
  deriving DecidableEq, Repr

/-- How far a command is read: the word that is not complete, and the words before it. -/
structure Reading where
  mode : Mode
  word : List Char := []
  words : List String := []
  deriving DecidableEq, Repr

/-- Characters that outside quotes are more than themselves: they end a command, join it to others, redirect it or
expand. -/
def special : List Char :=
  ['\n', '|', '&', ';', '<', '>', '(', ')', '$', '\x60', '"', '*', '?', '[', ']', '\x7b', '\x7d', '#', '~', '=', '%',
    '!']

namespace Reading

/-- One more character of the word. -/
def take (r : Reading) (mode : Mode) (c : Char) : Reading := { r with mode := mode, word := r.word ++ [c] }

/-- The words so far, with the one that a blank or the end completes. -/
def complete (r : Reading) : List String :=
  if r.mode = .between then r.words else r.words ++ [String.ofList r.word]

def stepPlain (r : Reading) (c : Char) : Option Reading :=
  if c = '\'' then some { r with mode := .quoted }
  else if c = '\\' then some { r with mode := .escaped }
  else if c = ' ' ∨ c = '\t' then some { mode := .between, words := r.complete }
  else if c ∈ special then none
  else some (r.take .plain c)

/-- The next character. No command holds a NUL. A backslash in front of a line break quotes nothing. -/
def step (r : Reading) (c : Char) : Option Reading :=
  if c = '\x00' then none
  else
    match r.mode with
    | .quoted => some (if c = '\'' then { r with mode := .plain } else r.take .quoted c)
    | .escaped => if c = '\n' then none else some (r.take .plain c)
    | _ => r.stepPlain c

/-- The words at the end of a command, where no quotation may be open. -/
def finish (r : Reading) : Option (List String) :=
  match r.mode with
  | .between | .plain => some r.complete
  | .escaped | .quoted => none

end Reading

def start : Reading := { mode := .between }

def words? (command : String) : Option (List String) :=
  (command.toList.foldlM Reading.step start).bind Reading.finish

open Karabiner

/-- Inside quotes an escaped character is read as itself. -/
theorem step_wordChar {c : Char} (noNul : c ≠ '\x00') (word : List Char) (words : List String) :
    (wordChar c).foldlM Reading.step ⟨.quoted, word, words⟩ = some ⟨.quoted, word ++ [c], words⟩ := by
  unfold wordChar
  by_cases quote : c = '\''
  · -- the quotation ends, the quote stands after a backslash, and a new quotation begins
    subst quote
    rfl
  · rw [if_neg quote, List.foldlM_cons, Reading.step, if_neg noNul, if_neg quote]
    rfl

theorem step_quoted {text : List Char} (noNul : '\x00' ∉ text) (word : List Char) (words : List String) :
    (text.flatMap wordChar).foldlM Reading.step ⟨.quoted, word, words⟩ = some ⟨.quoted, word ++ text, words⟩ := by
  induction text generalizing word with
  | nil => simp
  | cons c text ih =>
    obtain ⟨first, others⟩ := not_or.1 (fun here => noNul (List.mem_cons.2 here))
    rw [List.flatMap_cons, List.foldlM_append, step_wordChar (Ne.symm first), Option.bind_eq_bind, Option.bind_some,
      ih others, List.append_assoc, List.singleton_append]

/-- A single-quoted word is one word, and nothing of it is special. -/
theorem step_word {text : List Char} (noNul : '\x00' ∉ text) (words : List String) :
    (word text).foldlM Reading.step ⟨.between, [], words⟩ = some ⟨.plain, text, words⟩ := by
  rw [word, List.cons_append, List.foldlM_cons]
  show ((text.flatMap wordChar ++ ['\'']).foldlM Reading.step ⟨.quoted, [], words⟩) = _
  rw [List.foldlM_append, step_quoted noNul, List.nil_append]
  rfl

end Shell

/-! ## Literals of a script -/

namespace Karabiner

/-- What comes after the first line break. -/
def secondLine (script : List Char) : List Char := (script.dropWhile (· != '\n')).tail

/-- The command that sets the clipboard, with the quote that opens its literal. -/
def setClipboard : String := "set the clipboard to \""

/-- The text that the second line of a script puts on the clipboard, and what follows its literal. -/
def clipboardText? (script : String) : Option (String × String) :=
  let line := secondLine script.toList
  if setClipboard.toList <+: line then do
    let (text, after) ← closedLiteral? (line.drop setClipboard.toList.length)
    return (String.ofList text, String.ofList after)
  else none

/-- The second line sets the clipboard to the literal of the text. -/
theorem secondLine_script (text : String) :
    secondLine (script text) =
      setClipboard.toList ++ (text.toList.flatMap literalChar ++ '"' :: scriptTail.toList) := by
  rw [script, scriptHead, literal, setClipboard]
  simp [secondLine]

theorem clipboardText?_script (text : String) :
    clipboardText? (String.ofList (script text)) = some (text, scriptTail) := by
  simp only [clipboardText?, String.toList_ofList, secondLine_script]
  rw [if_pos (List.prefix_append _ _), List.drop_left, closedLiteral?_literal, Option.bind_eq_bind, Option.bind_some]
  simp only [String.ofList_toList, Option.pure_def]

/-! ## Commands -/

/-- Escaping brings no NUL in. -/
theorem nul_literal {text : List Char} (noNul : '\x00' ∉ text) : '\x00' ∉ literal text := by
  intro h
  rw [literal, List.cons_append, List.mem_cons, List.mem_append, List.mem_singleton] at h
  obtain ⟨c, hc, h⟩ := List.mem_flatMap.1 ((h.resolve_left (by decide)).resolve_right (by decide))
  unfold literalChar at h
  split at h
  · exact absurd h (by decide)
  · split at h
    · exact absurd h (by decide)
    · exact noNul (List.mem_singleton.1 h ▸ hc)

theorem nul_script {text : String} (noNul : '\x00' ∉ text.toList) : '\x00' ∉ script text := by
  have head : '\x00' ∉ scriptHead.toList := by decide +kernel
  have tail : '\x00' ∉ scriptTail.toList := by decide +kernel
  rw [script, List.mem_append, List.mem_append]
  exact not_or.2 ⟨not_or.2 ⟨head, nul_literal noNul⟩, tail⟩

theorem words?_pasteCommand {text : String} (noNul : '\x00' ∉ text.toList) :
    Shell.words? (pasteCommand text) = some ["osascript", "-e", String.ofList (script text)] := by
  have command : (pasteCommand text).toList = "osascript -e ".toList ++ word (script text) := by
    simp [pasteCommand]
  have head : "osascript -e ".toList.foldlM Shell.Reading.step Shell.start =
      some ⟨.between, [], ["osascript", "-e"]⟩ := by rfl
  rw [Shell.words?, command, List.foldlM_append, head, Option.bind_eq_bind, Option.bind_some,
    Shell.step_word (nul_script noNul)]
  rfl

/-- A text without NUL leaves neither of its quotations. The shell finds the words `osascript`, `-e` and a script; the
literal in the second line of the script ends in front of its fixed part, and stands for the text. So no other text has
the same command. -/
theorem pasteCommand_quoted {text : String} (noNul : '\x00' ∉ text.toList) :
    (∃ s, Shell.words? (pasteCommand text) = some ["osascript", "-e", s] ∧
      clipboardText? s = some (text, scriptTail)) ∧
    ∀ other, pasteCommand other = pasteCommand text → other = text := by
  refine ⟨⟨_, words?_pasteCommand noNul, clipboardText?_script text⟩, fun other same => ?_⟩
  have read : some other = some text := by rw [← pasted?_pasteCommand other, ← pasted?_pasteCommand text, same]
  exact Option.some.inj read

/-- A text that closes both quotations and goes on with commands, if it is not escaped. -/
def hostileText : String := "it's \\\" & (do shell script \"rm\")'; $(rm) \\\n\""

theorem pasteCommand_quoted_hostile :
    '\x00' ∉ hostileText.toList ∧
    (∃ s, Shell.words? (pasteCommand hostileText) = some ["osascript", "-e", s] ∧
      clipboardText? s = some (hostileText, scriptTail)) ∧
    ∀ other, pasteCommand other = pasteCommand hostileText → other = hostileText := by
  have noNul : '\x00' ∉ hostileText.toList := by decide +kernel
  exact ⟨noNul, pasteCommand_quoted noNul⟩

end Karabiner
end KeyRules
