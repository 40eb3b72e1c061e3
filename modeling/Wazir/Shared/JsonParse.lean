import Wazir.Shared.JsonNumbers

/-! `JSON.parse`. A string is read as code units: half a surrogate pair that stands alone becomes
U+FFFD. The members of an object come in the engine's order of own properties. -/

namespace Wazir

/-! Strings. -/

def charUnits (c : Char) : List ℕ :=
  if c.toNat < 0x10000 then [c.toNat]
  else [0xD800 + (c.toNat - 0x10000) / 0x400, 0xDC00 + (c.toNat - 0x10000) % 0x400]

/-- The characters of code units. -/
def ofUnits : List ℕ → List Char
  | high :: low :: rest =>
    if 0xD800 ≤ high ∧ high ≤ 0xDBFF ∧ 0xDC00 ≤ low ∧ low ≤ 0xDFFF then
      Char.ofNat (0x10000 + (high - 0xD800) * 0x400 + (low - 0xDC00)) :: ofUnits rest
    else (if 0xD800 ≤ high ∧ high ≤ 0xDFFF then '\uFFFD' else Char.ofNat high) ::
      ofUnits (low :: rest)
  | [unit] => [if 0xD800 ≤ unit ∧ unit ≤ 0xDFFF then '\uFFFD' else Char.ofNat unit]
  | [] => []

def hexDigit (c : Char) : Option ℕ :=
  if '0' ≤ c ∧ c ≤ '9' then some (c.toNat - 48)
  else if 'a' ≤ c ∧ c ≤ 'f' then some (c.toNat - 87)
  else if 'A' ≤ c ∧ c ≤ 'F' then some (c.toNat - 55) else none

def escapedUnit : Char → Option ℕ
  | '"' => some 34
  | '\\' => some 92
  | '/' => some 47
  | 'b' => some 8
  | 'f' => some 12
  | 'n' => some 10
  | 'r' => some 13
  | 't' => some 9
  | _ => none

/-- The code units up to the closing quote. -/
def readUnits : List Char → Option (List ℕ × List Char)
  | [] => none
  | '"' :: rest => some ([], rest)
  | '\\' :: 'u' :: a :: b :: c :: d :: rest => do
    let unit := (← hexDigit a) * 4096 + (← hexDigit b) * 256 + (← hexDigit c) * 16 + (← hexDigit d)
    let (units, rest) ← readUnits rest
    some (unit :: units, rest)
  | '\\' :: c :: rest => do
    let unit ← escapedUnit c
    let (units, rest) ← readUnits rest
    some (unit :: units, rest)
  | c :: rest =>
    if c.toNat < 32 ∨ c = '\\' then none
    else (readUnits rest).map fun r => (charUnits c ++ r.1, r.2)

/-! Objects. -/

/-- The integer that a property name stands for. -/
def propertyIndex (key : String) : Option ℕ :=
  if key.toList.all Char.isDigit then
    let n := Nat.ofDigitChars 10 key.toList 0
    if toString n = key ∧ n < 4294967295 then some n else none
  else none

/-- Own properties in the engine's order: integers come first, in their order. -/
def ownOrder {α : Type} (fields : List (String × α)) : List (String × α) :=
  sortBy (fun a b => compare ((propertyIndex a.1).getD 0) ((propertyIndex b.1).getD 0))
      (fields.filter fun kv => (propertyIndex kv.1).isSome) ++
    fields.filter fun kv => (propertyIndex kv.1).isNone

/-- The definition of an own property; one that exists keeps its place. -/
def defineMember {α : Type} (fields : List (String × α)) (member : String × α) :
    List (String × α) :=
  if member.1 ∈ fields.map Prod.fst then
    fields.map fun kv => if kv.1 = member.1 then member else kv
  else fields ++ [member]

/-! Values. -/

def isJsonSpace (c : Char) : Bool := c = ' ' || c = '\t' || c = '\n' || c = '\r'

def skipSpace (cs : List Char) : List Char := cs.dropWhile isJsonSpace

section Parse

-- the number that a decimal is rounded to
variable (nearest : ℚ → JsNumber)

mutual
/-- A value, with the text after it. The fuel bounds the calls in progress. -/
def readValue : ℕ → List Char → Option (JsValue × List Char)
  | 0, _ => none
  | fuel + 1, cs =>
    match skipSpace cs with
    | 'n' :: 'u' :: 'l' :: 'l' :: rest => some (.null, rest)
    | 't' :: 'r' :: 'u' :: 'e' :: rest => some (.bool true, rest)
    | 'f' :: 'a' :: 'l' :: 's' :: 'e' :: rest => some (.bool false, rest)
    | '"' :: rest => (readUnits rest).map fun r => (.str (String.ofList (ofUnits r.1)), r.2)
    | '[' :: rest =>
      match skipSpace rest with
      | ']' :: rest => some (.arr [], rest)
      | rest => (readItems fuel rest).map fun r => (.arr r.1, r.2)
    | '\x7b' :: rest =>
      match skipSpace rest with
      | '\x7d' :: rest => some (.obj [], rest)
      | rest =>
        (readMembers fuel rest).map fun r => (.obj (ownOrder (r.1.foldl defineMember [])), r.2)
    | rest => (readNumber rest).map fun r => (.num (nearest r.1), r.2)
/-- The items of an array up to its end; there is at least one. -/
def readItems : ℕ → List Char → Option (List JsValue × List Char)
  | 0, _ => none
  | fuel + 1, cs => do
    let (v, rest) ← readValue fuel cs
    match skipSpace rest with
    | ',' :: rest => (readItems fuel rest).map fun r => (v :: r.1, r.2)
    | ']' :: rest => some ([v], rest)
    | _ => none
def readMembers : ℕ → List Char → Option (List (String × JsValue) × List Char)
  | 0, _ => none
  | fuel + 1, cs =>
    match skipSpace cs with
    | '"' :: rest => do
      let (units, rest) ← readUnits rest
      match skipSpace rest with
      | ':' :: rest => do
        let (v, rest) ← readValue fuel rest
        let member := (String.ofList (ofUnits units), v)
        match skipSpace rest with
        | ',' :: rest => (readMembers fuel rest).map fun r => (member :: r.1, r.2)
        | '\x7d' :: rest => some ([member], rest)
        | _ => none
      | _ => none
    | _ => none
end

/-- `JSON.parse(text)`; `none` is a syntax error. -/
def parseJson (text : List Char) : Option JsValue := do
  let (v, rest) ← readValue nearest (2 * text.length + 1) text
  if skipSpace rest = [] then some v else none

end Parse

end Wazir
