import LanguageClient.Text.Unprintable

/-!
# Texts in quotes, for people

Names that come from outside are shown in double quotes wherever a message could otherwise be
misread. Quote and backslash are escaped, tab, line feed, carriage return and NUL have short
escapes, and any other character that would not show as itself is written by its number in braces.
-/

namespace LanguageClient.Text

def quoteChar (c : Char) : List Char :=
  if c = '"' then ['\\', '"']
  else if c = '\\' then ['\\', '\\']
  else if c = '\t' then ['\\', 't']
  else if c = '\n' then ['\\', 'n']
  else if c = '\r' then ['\\', 'r']
  else if c.toNat = 0 then ['\\', '0']
  else if isPrintable c then [c]
  else '\\' :: 'u' :: '\x7b' :: (Nat.toDigits 16 c.toNat ++ ['\x7d'])

def quote (cs : List Char) : List Char := '"' :: (cs.flatMap quoteChar ++ ['"'])

def quoted (s : String) : String := String.ofList (quote s.toList)

def quotedList (ss : List String) : String := "[" ++ ", ".intercalate (ss.map quoted) ++ "]"

end LanguageClient.Text
