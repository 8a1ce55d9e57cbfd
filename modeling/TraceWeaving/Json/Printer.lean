import TraceWeaving.Json.Basic
import TraceWeaving.Text.Quoted

/-!
# Writing a JSON text

A document is written either on one line without blanks, or indented by two blanks
per level with every item and field on its own line.
-/

namespace TraceWeaving
namespace Json

def escapeChar (c : Char) : List Char :=
  if c = '"' then ['\\', '"']
  else if c = '\\' then ['\\', '\\']
  else if c = '\n' then ['\\', 'n']
  else if c = '\r' then ['\\', 'r']
  else if c = '\t' then ['\\', 't']
  else if c.toNat = 8 then ['\\', 'b']
  else if c.toNat = 12 then ['\\', 'f']
  else if c.toNat < 0x20 then
    ['\\', 'u', '0', '0', Nat.digitChar (c.toNat / 16), Nat.digitChar (c.toNat % 16)]
  else [c]

def quoted (s : String) : String :=
  Text.between "\"" (Text.escapeWith escapeChar s)

def scalarText : Json → String
  | .bool true => "true"
  | .bool false => "false"
  | .int n => Text.intText n
  | .real text => text
  | .str s => quoted s
  | _ => "null"

mutual

/-- Writes a value behind the text that is there already. -/
def compactTo (out : String) : Json → String
  | .arr items => compactItems (out ++ "[") items ++ "]"
  | .obj fields => compactFields (out ++ "\x7b") fields ++ "\x7d"
  | value => out ++ scalarText value

def compactItems (out : String) : List Json → String
  | [] => out
  | [item] => compactTo out item
  | item :: rest => compactItems (compactTo out item ++ ",") rest

def compactFields (out : String) : List (String × Json) → String
  | [] => out
  | [(key, value)] => compactTo (out ++ quoted key ++ ":") value
  | (key, value) :: rest => compactFields (compactTo (out ++ quoted key ++ ":") value ++ ",") rest

end

def compact (document : Json) : String :=
  compactTo "" document

def newline (level : Nat) : String :=
  "\n" ++ String.ofList (List.replicate (2 * level) ' ')

mutual

def indentedTo (level : Nat) (out : String) : Json → String
  | .arr [] => out ++ "[]"
  | .arr items => indentedItems (level + 1) (out ++ "[") items ++ newline level ++ "]"
  | .obj [] => out ++ "\x7b\x7d"
  | .obj fields =>
      indentedFields (level + 1) (out ++ "\x7b") fields ++ newline level ++ "\x7d"
  | value => out ++ scalarText value

def indentedItems (level : Nat) (out : String) : List Json → String
  | [] => out
  | [item] => indentedTo level (out ++ newline level) item
  | item :: rest =>
      indentedItems level (indentedTo level (out ++ newline level) item ++ ",") rest

def indentedFields (level : Nat) (out : String) : List (String × Json) → String
  | [] => out
  | [(key, value)] => indentedTo level (out ++ newline level ++ quoted key ++ ": ") value
  | (key, value) :: rest =>
      indentedFields level
        (indentedTo level (out ++ newline level ++ quoted key ++ ": ") value ++ ",") rest

end

def pretty (document : Json) : String :=
  indentedTo 0 "" document

end Json
end TraceWeaving
