import Wazir.Shared.Dates
import Wazir.Shared.Values

/-! JavaScript values as far as JSON knows them: their JSON text and image, and what the
stores make of dates on the way back. A finite number is the value of its shortest decimal;
`-0` is not told apart from `0`. -/

namespace Wazir

inductive JsNumber where
  | finite (q : ℚ)
  | nan
  | infinite (negative : Bool)
  deriving DecidableEq

inductive JsValue where
  | undefined
  | null
  | bool (b : Bool)
  | num (n : JsNumber)
  | str (s : String)
  | date (d : JsDate)
  | arr (items : List JsValue)
  /-- An object's own properties, in order. -/
  | obj (fields : List (String × JsValue))

namespace JsValue

def nat (n : ℕ) : JsValue := .num (.finite n)

/-- `v?.key`. -/
def get (v : JsValue) (key : String) : JsValue :=
  match v with
  | .obj fields => (fields.lookup key).getD .undefined
  | _ => .undefined

@[simp] theorem get_obj (fields : List (String × JsValue)) (key : String) :
    (JsValue.obj fields).get key = (fields.lookup key).getD .undefined := rfl

@[simp] theorem get_undefined (key : String) : JsValue.undefined.get key = .undefined := rfl

def isUndefined : JsValue → Bool
  | .undefined => true
  | _ => false

def truthy : JsValue → Bool
  | .undefined | .null => false
  | .bool b => b
  | .num n => n ≠ .finite 0 ∧ n ≠ .nan
  | .str s => s ≠ ""
  | .date _ | .arr _ | .obj _ => true

/-- `typeof v === 'number'`. -/
def number : JsValue → Option JsNumber
  | .num n => some n
  | _ => none

def string : JsValue → Option String
  | .str s => some s
  | _ => none

def isObject : JsValue → Bool
  | .obj _ | .date _ => true
  | _ => false

/-- `isStringArray`, with the strings. -/
def stringArray : JsValue → Option (List String)
  | .arr items => items.mapM JsValue.string
  | _ => none

def nonEmptyString (v : JsValue) : Bool := v.string.any fun s => trim s ≠ ""

def array : JsValue → Option (List JsValue)
  | .arr items => some items
  | _ => none

def isBool : JsValue → Bool
  | .bool _ => true
  | _ => false

def keys : JsValue → List String
  | .obj fields => fields.map Prod.fst
  | _ => []

/-- `typeof v === 'number' && Number.isSafeInteger(v)`, with the integer. -/
def safeInteger : JsValue → Option ℤ
  | .num (.finite q) =>
    if q.den = 1 ∧ -9007199254740991 ≤ q.num ∧ q.num ≤ 9007199254740991 then some q.num else none
  | _ => none

def finiteNumber : JsValue → Option ℚ
  | .num (.finite q) => some q
  | _ => none

/-- Induction with the hypotheses for the members of an array or an object. -/
theorem inductionOn {P : JsValue → Prop} (undefined : P .undefined) (null : P .null)
    (bool : ∀ b, P (.bool b)) (num : ∀ n, P (.num n)) (str : ∀ s, P (.str s))
    (date : ∀ d, P (.date d)) (arr : ∀ items, (∀ v ∈ items, P v) → P (.arr items))
    (obj : ∀ fields, (∀ kv ∈ fields, P kv.2) → P (.obj fields)) (v : JsValue) : P v := by
  refine JsValue.rec (motive_1 := P) (motive_2 := fun items => ∀ v ∈ items, P v)
    (motive_3 := fun fields => ∀ kv ∈ fields, P kv.2) (motive_4 := fun kv => P kv.2)
    undefined null bool num str date arr obj ?_ ?_ ?_ ?_ ?_ v
  · simp
  · intro head tail hhead htail
    simpa using ⟨hhead, htail⟩
  · simp
  · intro head tail hhead htail
    exact List.forall_mem_cons.mpr ⟨hhead, htail⟩
  · intro key value hvalue
    exact hvalue

end JsValue

/-! Text. -/

/-- Digits after the decimal point. -/
def decimalPlaces (q : ℚ) : ℕ := ((List.range 400).find? fun e => 10 ^ e % q.den = 0).getD 0

/-- `Number.prototype.toString`, of a positive number: digits `s` of which `n` stand before the
point. -/
def positiveText (q : ℚ) : List Char :=
  let places := decimalPlaces q
  let all := Nat.toDigits 10 (q.num.toNat * 10 ^ places / q.den)
  let digits := (all.reverse.dropWhile (· = '0')).reverse
  let k := digits.length
  let n : ℤ := all.length - places
  let exponent := (if 0 < n then ['+'] else ['-']) ++ Nat.toDigits 10 (n - 1).natAbs
  if k ≤ n ∧ n ≤ 21 then digits ++ List.replicate (n.toNat - k) '0'
  else if 0 < n ∧ n ≤ 21 then digits.take n.toNat ++ '.' :: digits.drop n.toNat
  else if -6 < n ∧ n ≤ 0 then '0' :: '.' :: (List.replicate (-n).toNat '0' ++ digits)
  else if k = 1 then digits ++ 'e' :: exponent
  else digits.take 1 ++ '.' :: (digits.drop 1 ++ 'e' :: exponent)

/-- `JSON.stringify` of a number. -/
def numberText : JsNumber → List Char
  | .finite q =>
    if q = 0 then ['0'] else if q < 0 then '-' :: positiveText (-q) else positiveText q
  | _ => "null".toList

def escapeChar (c : Char) : List Char :=
  if c = '"' then ['\\', '"'] else if c = '\\' then ['\\', '\\']
  else if c.toNat = 8 then ['\\', 'b'] else if c.toNat = 12 then ['\\', 'f']
  else if c = '\n' then ['\\', 'n'] else if c = '\r' then ['\\', 'r']
  else if c = '\t' then ['\\', 't']
  else if c.toNat < 32 then
    '\\' :: 'u' :: '0' :: '0' :: [(c.toNat / 16).digitChar, (c.toNat % 16).digitChar]
  else [c]

/-- `JSON.stringify` of a string. -/
def quoted (s : String) : List Char := '"' :: (s.toList.flatMap escapeChar ++ ['"'])

/-- `pieces.join(',')`. -/
def commaJoin : List (List Char) → List Char
  | [] => []
  | [piece] => piece
  | piece :: next :: rest => piece ++ ',' :: commaJoin (next :: rest)

namespace JsValue

mutual
/-- `JSON.stringify(v)`; where that gives undefined, an array writes `null`. -/
def jsonText : JsValue → List Char
  | .undefined => "null".toList
  | .null => "null".toList
  | .bool b => (toString b).toList
  | .num n => numberText n
  | .str s => quoted s
  | .date (some t) => quoted (isoText t)
  | .date none => "null".toList
  | .arr items => '[' :: (commaJoin (jsonItems items) ++ [']'])
  | .obj fields => '\x7b' :: (commaJoin (jsonFields fields) ++ ['\x7d'])
def jsonItems : List JsValue → List (List Char)
  | [] => []
  | v :: rest => jsonText v :: jsonItems rest
def jsonFields : List (String × JsValue) → List (List Char)
  | [] => []
  | (k, v) :: rest =>
    if v.isUndefined then jsonFields rest
    else (quoted k ++ ':' :: jsonText v) :: jsonFields rest
end

mutual
/-- `${v}`. The text of a date depends on the time zone; its ISO text stands for it. -/
def template : JsValue → String
  | .undefined => "undefined"
  | .null => "null"
  | .bool b => toString b
  | .num (.finite q) => String.ofList (numberText (.finite q))
  | .num .nan => "NaN"
  | .num (.infinite negative) => if negative then "-Infinity" else "Infinity"
  | .str s => s
  | .date (some t) => isoText t
  | .date none => "Invalid Date"
  | .arr items => ",".intercalate (templateItems items)
  | .obj _ => "[object Object]"
def templateItems : List JsValue → List String
  | [] => []
  | .undefined :: rest => "" :: templateItems rest
  | .null :: rest => "" :: templateItems rest
  | v :: rest => template v :: templateItems rest
end

end JsValue

/-! The image of a value under `JSON.parse(JSON.stringify(v))`, and the revival of dates. -/

namespace JsValue

mutual
/-- The image of a value as a member of an array; an object leaves undefined members out. -/
def jsonImage : JsValue → JsValue
  | .undefined => .null
  | .num (.finite q) => .num (.finite q)
  | .num _ => .null
  | .date (some t) => .str (isoText t)
  | .date none => .null
  | .arr items => .arr (imageItems items)
  | .obj fields => .obj (imageFields fields)
  | v => v
def imageItems : List JsValue → List JsValue
  | [] => []
  | v :: rest => jsonImage v :: imageItems rest
def imageFields : List (String × JsValue) → List (String × JsValue)
  | [] => []
  | (k, v) :: rest =>
    if v.isUndefined then imageFields rest else (k, jsonImage v) :: imageFields rest
end

theorem imageItems_eq (items : List JsValue) : imageItems items = items.map jsonImage := by
  induction items with
  | nil => rfl
  | cons v rest ih => rw [imageItems, ih, List.map_cons]

theorem imageFields_eq (fields : List (String × JsValue)) : imageFields fields =
    (fields.filter fun kv => !kv.2.isUndefined).map fun kv => (kv.1, jsonImage kv.2) := by
  induction fields with
  | nil => rfl
  | cons kv rest ih =>
    rw [imageFields, ih]
    cases h : kv.2.isUndefined <;> simp [h]

end JsValue

def unsafeKeys : List String := ["__proto__", "constructor", "prototype"]

namespace JsValue

section Revival

-- `new Date(s)`
variable (parseDate : String → JsDate)

mutual
def reviveDatesInPlace : JsValue → JsValue
  | .str s => if isIsoDateString s then .date (parseDate s) else .str s
  | .arr items => .arr (reviveItems items)
  | .obj fields => .obj (reviveFields fields)
  | v => v
def reviveItems : List JsValue → List JsValue
  | [] => []
  | v :: rest => reviveDatesInPlace v :: reviveItems rest
def reviveFields : List (String × JsValue) → List (String × JsValue)
  | [] => []
  | (k, v) :: rest => (k, if k ∈ unsafeKeys then v else reviveDatesInPlace v) :: reviveFields rest
end

mutual
def reviveDatesDeep : JsValue → JsValue
  | .str s => if isIsoDateString s then .date (parseDate s) else .str s
  | .arr items => .arr (reviveDeepItems items)
  | .obj fields => .obj (reviveDeepFields fields)
  | v => v
def reviveDeepItems : List JsValue → List JsValue
  | [] => []
  | v :: rest => reviveDatesDeep v :: reviveDeepItems rest
def reviveDeepFields : List (String × JsValue) → List (String × JsValue)
  | [] => []
  | (k, v) :: rest =>
    if k ∈ unsafeKeys then reviveDeepFields rest
    else (k, reviveDatesDeep v) :: reviveDeepFields rest
end

theorem reviveItems_eq (items : List JsValue) :
    reviveItems parseDate items = items.map (reviveDatesInPlace parseDate) := by
  induction items with
  | nil => rfl
  | cons v rest ih => rw [reviveItems, ih, List.map_cons]

theorem reviveDeepItems_eq (items : List JsValue) :
    reviveDeepItems parseDate items = items.map (reviveDatesDeep parseDate) := by
  induction items with
  | nil => rfl
  | cons v rest ih => rw [reviveDeepItems, ih, List.map_cons]

/-- Without unsafe keys the members are revived one by one. -/
theorem reviveFields_eq {fields : List (String × JsValue)}
    (h : ∀ kv ∈ fields, kv.1 ∉ unsafeKeys) : reviveFields parseDate fields =
      fields.map fun kv => (kv.1, reviveDatesInPlace parseDate kv.2) := by
  induction fields with
  | nil => rfl
  | cons kv rest ih =>
    obtain ⟨hkey, hrest⟩ := List.forall_mem_cons.mp h
    rw [reviveFields, if_neg hkey, ih hrest, List.map_cons]

theorem reviveDeepFields_eq {fields : List (String × JsValue)}
    (h : ∀ kv ∈ fields, kv.1 ∉ unsafeKeys) : reviveDeepFields parseDate fields =
      fields.map fun kv => (kv.1, reviveDatesDeep parseDate kv.2) := by
  induction fields with
  | nil => rfl
  | cons kv rest ih =>
    obtain ⟨hkey, hrest⟩ := List.forall_mem_cons.mp h
    rw [reviveDeepFields, if_neg hkey, ih hrest, List.map_cons]

end Revival

/-- The stores that give back the image of a value with its dates revived. The members of an object are
taken to keep their order, which those of a JSONB column do not: a statement about `postgres` is about
what is read by the names of members or sorted by them. -/
inductive RevivingStore where
  | jsonFile
  | postgres

def RevivingStore.reload (store : RevivingStore) (parseDate : String → JsDate) (v : JsValue) :
    JsValue :=
  match store with
  | .jsonFile => reviveDatesInPlace parseDate (jsonImage v)
  | .postgres => reviveDatesDeep parseDate (jsonImage v)

end JsValue

end Wazir
