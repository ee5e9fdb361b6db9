import PackEngine.Text.Hidden

/-! Text quoted for descriptions: every character that cannot be told apart in print is written
as an escape. -/
namespace PackEngine.Quoted

def hexText (n : Nat) : String := String.ofList (Nat.toDigits 16 n)

def escapeChar (c : Char) : String :=
  match c with
  | '\x00' => "\\0"
  | '\t' => "\\t"
  | '\r' => "\\r"
  | '\n' => "\\n"
  | '"' => "\\\""
  | '\\' => "\\\\"
  | c => if isHidden c then "\\u\x7b" ++ hexText c.toNat ++ "\x7d" else String.singleton c

def quote (s : String) : String :=
  "\"" ++ String.join (s.toList.map escapeChar) ++ "\""

end PackEngine.Quoted
