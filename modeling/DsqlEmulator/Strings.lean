import Mathlib.Data.List.DropRight

/-! The functions of Go's `strings`, `unicode` and `strconv` that the source calls, on the
characters of a text. -/

namespace DsqlEmulator.Strings

def foldRune (c : Char) : Char :=
  if c.toNat = 0x17f then 's' else if c.toNat = 0x212a then 'k' else c.toLower

/-- `strings.EqualFold`, when one of the strings is ASCII. -/
def equalFold (s t : String) : Bool := s.toList.map foldRune = t.toList.map foldRune

def replaceAll (old new : List Char) : Nat → List Char → List Char
  | _, [] => []
  | skip + 1, _ :: cs => replaceAll old new skip cs
  | 0, c :: cs =>
    if old.isPrefixOf (c :: cs) then new ++ replaceAll old new (old.length - 1) cs
    else c :: replaceAll old new 0 cs

def isSpace (c : Char) : Bool :=
  c.toNat ∈ [0x09, 0x0a, 0x0b, 0x0c, 0x0d, 0x20, 0x85, 0xa0, 0x1680, 0x2028, 0x2029, 0x202f,
    0x205f, 0x3000] || 0x2000 ≤ c.toNat && c.toNat ≤ 0x200a

/-- `unicode.ToLower`, on the letters whose lower case is in ASCII. -/
def toLower (c : Char) : Char :=
  if c.toNat = 0x130 then 'i' else if c.toNat = 0x212a then 'k' else c.toLower

/-- `strings.ToUpper`; letters outside ASCII keep their case here, except the dotless i and the
long s, whose upper case is in it. -/
def toUpper (s : String) : String :=
  s.map fun c => if c.toNat = 0x131 then 'I' else if c.toNat = 0x17f then 'S' else c.toUpper

def trimSpace (s : List Char) : List Char := (s.dropWhile isSpace).rdropWhile isSpace

def fields (s : List Char) : List (List Char) := (s.splitOnP isSpace).filter (· ≠ [])

def atoi (s : List Char) : Option Int :=
  let digits (cs : List Char) : Option Int :=
    if cs ≠ [] ∧ cs.all Char.isDigit then
      some (cs.foldl (fun n c => n * 10 + (c.toNat - '0'.toNat : Nat)) (0 : Int))
    else none
  let value := match s with
    | '-' :: cs => (digits cs).map fun n => -n
    | '+' :: cs => digits cs
    | cs => digits cs
  value.filter fun n => -9223372036854775808 ≤ n ∧ n ≤ 9223372036854775807

end DsqlEmulator.Strings
