import KeyRules.Text.Case

/-!
# Keys

A key is a place in the vocabulary of key code names. Names are found in any letter case, and some keys
have other spellings: the character printed on them, a short word or a symbol.
-/

namespace KeyRules

/-- The canonical key code names, in vocabulary order. -/
def Key.names : List String := [
  "a", "b", "c", "d", "e", "f", "g", "h", "i", "j", "k", "l", "m",
  "n", "o", "p", "q", "r", "s", "t", "u", "v", "w", "x", "y", "z",
  "1", "2", "3", "4", "5", "6", "7", "8", "9", "0",
  "return_or_enter", "escape", "delete_or_backspace", "delete_forward", "tab", "spacebar",
  "hyphen", "equal_sign", "open_bracket", "close_bracket", "backslash", "non_us_pound",
  "semicolon", "quote", "grave_accent_and_tilde", "comma", "period", "slash",
  "non_us_backslash",
  "up_arrow", "down_arrow", "left_arrow", "right_arrow",
  "page_up", "page_down", "home", "end", "insert",
  "caps_lock",
  "left_control", "left_shift", "left_option", "left_command",
  "right_control", "right_shift", "right_option", "right_command",
  "fn",
  "f1", "f2", "f3", "f4", "f5", "f6", "f7", "f8", "f9", "f10", "f11", "f12",
  "f13", "f14", "f15", "f16", "f17", "f18", "f19", "f20", "f21", "f22", "f23", "f24",
  "print_screen", "scroll_lock", "pause", "application",
  "keypad_num_lock", "keypad_slash", "keypad_asterisk", "keypad_hyphen", "keypad_plus",
  "keypad_enter", "keypad_period", "keypad_equal_sign", "keypad_comma",
  "keypad_1", "keypad_2", "keypad_3", "keypad_4", "keypad_5",
  "keypad_6", "keypad_7", "keypad_8", "keypad_9", "keypad_0",
  "display_brightness_decrement", "display_brightness_increment",
  "mission_control", "launchpad", "dashboard",
  "illumination_decrement", "illumination_increment",
  "rewind", "play_or_pause", "fastforward",
  "mute", "volume_decrement", "volume_increment",
  "japanese_eisuu", "japanese_kana", "lang1", "lang2",
  "international1", "international2", "international3",
  "vk_none"]

structure Key where
  index : Fin Key.names.length
  deriving DecidableEq, Repr

namespace Key

def name (k : Key) : String := names.get k.index

def all : List Key := (List.finRange names.length).map Key.mk

def ofName? (s : String) : Option Key := (names.finIdxOf? s).map Key.mk

/-- Spellings beside the canonical names. -/
def aliases : List (String × String) := [
  ("\x60", "grave_accent_and_tilde"), ("-", "hyphen"), ("=", "equal_sign"),
  ("[", "open_bracket"), ("]", "close_bracket"), ("\\", "backslash"), (";", "semicolon"),
  ("'", "quote"), (",", "comma"), (".", "period"), ("/", "slash"), (" ", "spacebar"),
  ("space", "spacebar"), ("enter", "return_or_enter"), ("return", "return_or_enter"),
  ("esc", "escape"), ("backspace", "delete_or_backspace"),
  ("⎋", "escape"), ("⇥", "tab"), ("⇪", "caps_lock"), ("⏎", "return_or_enter"),
  ("↩", "return_or_enter"), ("⌫", "delete_or_backspace"), ("⌦", "delete_forward"),
  ("↑", "up_arrow"), ("↓", "down_arrow"), ("←", "left_arrow"), ("→", "right_arrow"),
  ("⇞", "page_up"), ("⇟", "page_down"), ("↖", "home"), ("↘", "end")]

/-- The canonical name that an alias stands for; any other spelling stands for itself. Aliases are
matched as they are written. -/
def canonicalName (s : String) : String := (aliases.lookup s).getD s

def ofSpelling? (s : String) : Option Key := ofName? (Text.lower (canonicalName s))

end Key

end KeyRules
