/-!
# Paste commands

A text is pasted by a shell command that runs a script: it puts the text on the clipboard, types the paste
shortcut and restores the clipboard. The text is quoted twice, as a string literal of the script and then
as a single-quoted word of the shell.
-/

namespace KeyRules.Karabiner

/-- Backslashes and double quotes are escaped inside a literal of the script. -/
def literalChar (c : Char) : List Char :=
  if c = '\\' then ['\\', '\\'] else if c = '"' then ['\\', '"'] else [c]

def literal (text : List Char) : List Char := '"' :: text.flatMap literalChar ++ ['"']

/-- A single quote inside a single-quoted word closes it, stands escaped and opens it again. -/
def wordChar (c : Char) : List Char := if c = '\'' then ['\'', '\\', '\'', '\''] else [c]

/-- A single-quoted word of the shell. -/
def word (text : List Char) : List Char := '\'' :: text.flatMap wordChar ++ ['\'']

def scriptHead : String := "set prev to the clipboard\nset the clipboard to "

def scriptTail : String :=
  "\ntell application \"System Events\"\n  keystroke \"v\" using command down\n  delay 0.1\nend tell\n"
    ++ "set the clipboard to prev"

/-- The script that pastes a text. -/
def script (text : String) : List Char := scriptHead.toList ++ literal text.toList ++ scriptTail.toList

/-- The shell command that pastes a text and restores the clipboard. -/
def pasteCommand (text : String) : String :=
  "osascript -e " ++ String.ofList (word (script text))

end KeyRules.Karabiner
