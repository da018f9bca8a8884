import SharedTree.Unicode.Printable

namespace SharedTree.Text

def hex (n : Nat) : List Char := Nat.toDigits 16 n

def shownChar (c : Char) : List Char :=
  if c = '"' then ['\\','"']
  else if c = '\\' then ['\\','\\']
  else if c = '\n' then ['\\','n']
  else if c = '\r' then ['\\','r']
  else if c = '\t' then ['\\','t']
  else if c.toNat = 0 then ['\\','0']
  else if 0x20 ≤ c.toNat ∧ c.toNat ≤ 0x7E then [c]
  else if Unicode.isPrintable c then [c]
  else ['\\','u',Char.ofNat 0x7B] ++ hex c.toNat ++ [Char.ofNat 0x7D]

def quoted (s : String) : String := String.ofList ('"' :: s.toList.flatMap shownChar ++ ['"'])

def jsonChar (c : Char) : List Char :=
  if c = '"' then ['\\','"']
  else if c = '\\' then ['\\','\\']
  else if c.toNat = 0x08 then ['\\','b']
  else if c.toNat = 0x0C then ['\\','f']
  else if c = '\n' then ['\\','n']
  else if c = '\r' then ['\\','r']
  else if c = '\t' then ['\\','t']
  else if c.toNat < 0x20 then
    ['\\','u','0','0'] ++ (if c.toNat < 0x10 then ['0'] else []) ++ hex c.toNat
  else [c]

def jsonQuoted (s : String) : String := String.ofList ('"' :: s.toList.flatMap jsonChar ++ ['"'])

end SharedTree.Text
