import LanguageClient.Text.Quoted

/-!
# Records and durations as text for people

Diagnostic dumps show a record as its name with the fields between braces, and leave a gap (`..`)
where a record holds something that has no text.
-/

namespace LanguageClient.Text

def recordText (name : String) (fields : List (String × String)) : String :=
  name ++ " \x7b " ++ ", ".intercalate (fields.map fun f => f.1 ++ ": " ++ f.2) ++ " \x7d"

/-- A record of which only some fields are shown. -/
def openRecordText (name : String) (fields : List (String × String)) : String :=
  name ++ " \x7b " ++ ", ".intercalate (fields.map fun f => f.1 ++ ": " ++ f.2) ++ ", .. \x7d"

def listText (items : List String) : String := "[" ++ ", ".intercalate items ++ "]"

end LanguageClient.Text
