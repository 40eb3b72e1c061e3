import Wazir.Shared.Strings

/-! Regular expressions without the `u` flag, as `RegExp.prototype.test` reads them: whether some
part of a text matches. A text is the list of its UTF-16 code units. -/

namespace Wazir

inductive Regex where
  | empty
  | one (accepts : ℕ → Bool)
  | seq (r t : Regex)
  | alt (r t : Regex)
  /-- `r{0,n}` -/
  | upTo (n : ℕ) (r : Regex)
  /-- `r*` -/
  | star (r : Regex)
  /-- `\b` -/
  | edge

namespace Regex

/-- A place in a text: the code unit before it and what follows. -/
structure Cursor where
  before : Option ℕ
  rest : List ℕ

def isDigitUnit (u : ℕ) : Bool := 0x30 ≤ u && u ≤ 0x39

/-- `\w` -/
def isWordUnit (u : ℕ) : Bool :=
  isDigitUnit u || (0x41 ≤ u && u ≤ 0x5A) || u = 0x5F || (0x61 ≤ u && u ≤ 0x7A)

/-- Where up to `n` readings one after the other may end. A reading takes something. -/
def repeated (read : Cursor → List Cursor) : ℕ → Cursor → List Cursor
  | 0, c => [c]
  | n + 1, c =>
    c :: (read c).flatMap fun d =>
      if d.rest.length < c.rest.length then repeated read n d else []

/-- Where a match that begins at the cursor may end. -/
def ends : Regex → Cursor → List Cursor
  | .empty, c => [c]
  | .one accepts, c =>
    match c.rest with
    | [] => []
    | u :: rest => if accepts u then [⟨some u, rest⟩] else []
  | .seq r t, c => (r.ends c).flatMap t.ends
  | .alt r t, c => r.ends c ++ t.ends c
  | .upTo n r, c => repeated r.ends n c
  | .star r, c => repeated r.ends c.rest.length c
  | .edge, c => if c.before.any isWordUnit ≠ c.rest.head?.any isWordUnit then [c] else []

def testFrom (r : Regex) : Option ℕ → List ℕ → Bool
  | before, [] => r.ends ⟨before, []⟩ ≠ []
  | before, u :: rest => r.ends ⟨before, u :: rest⟩ ≠ [] || r.testFrom (some u) rest

def test (r : Regex) (text : List ℕ) : Bool := r.testFrom none text

/-! Building patterns. -/

def inOrder (rs : List Regex) : Regex := rs.foldr .seq .empty

def oneOf : List Regex → Regex
  | [] => .one fun _ => false
  | [r] => r
  | r :: rest => .alt r (oneOf rest)

/-- The text itself. -/
def exact (s : String) : Regex := inOrder ((utf16 s).map fun u => .one (· = u))

def lowerUnit (u : ℕ) : ℕ := if 0x41 ≤ u && u ≤ 0x5A then u + 32 else u

/-- The text under the `i` flag, which lets nothing outside ASCII match a letter. -/
def word (s : String) : Regex :=
  inOrder ((utf16 s).map fun u => .one fun v => lowerUnit v = lowerUnit u)

def words (texts : List String) : Regex := oneOf (texts.map word)

/-- `r?` -/
def optional (r : Regex) : Regex := .upTo 1 r

/-- `[…]` of the code units of a text. -/
def anyOf (s : String) : Regex := .one fun u => u ∈ utf16 s

/-- `[^…]` -/
def noneOf (s : String) : Regex := .one fun u => u ∉ utf16 s

/-- `.` -/
def anyUnit : Regex := .one fun u => u ∉ [0x0A, 0x0D, 0x2028, 0x2029]

def digit : Regex := .one isDigitUnit

def wordUnit : Regex := .one isWordUnit

/-- `\b…\b` -/
def whole (r : Regex) : Regex := inOrder [.edge, r, .edge]

end Regex

end Wazir
