import Mathlib.Data.List.Basic

/-!
# The Python that the framework uses

Exceptions, bytes, the times of `datetime`, and the values that `json.loads` returns, with their
truth value and their `str()`.
-/

namespace MessageDedup

/-! ## Exceptions -/

/-- The classes that the code tells apart in an `except` clause. `exception` is any other subclass
of `Exception`, `baseException` any class that is none, such as `CancelledError`. -/
inductive ExcKind where
  | jsonDecodeError
  | unicodeDecodeError
  | typeError
  | valueError
  | recursionError
  | exception (name : String)
  | baseException (name : String)
  deriving DecidableEq, Repr

structure Exc where
  kind : ExcKind
  text : String
  deriving DecidableEq, Repr

namespace Exc

def typeName (exc : Exc) : String :=
  match exc.kind with
  | .jsonDecodeError => "JSONDecodeError"
  | .unicodeDecodeError => "UnicodeDecodeError"
  | .typeError => "TypeError"
  | .valueError => "ValueError"
  | .recursionError => "RecursionError"
  | .exception name => name
  | .baseException name => name

/-- `isinstance(exc, Exception)`: what `except Exception` catches. -/
def isException (exc : Exc) : Bool :=
  match exc.kind with
  | .baseException _ => false
  | _ => true

end Exc

/-! ## datetime -/

/-- A time in the years 1 to 9999, in microseconds. -/
def isDatetime (t : Int) : Prop := -62135596800000000 ≤ t ∧ t < 253402300800000000

instance (t : Int) : Decidable (isDatetime t) := inferInstanceAs (Decidable (_ ∧ _))

/-- `now + timedelta(seconds=seconds)` -/
def addSeconds (now seconds : Int) : Except Exc Int :=
  let days := seconds / 86400
  if 999999999 < days.natAbs then .error {
    kind := .exception "OverflowError"
    text := "days=" ++ toString days ++ "; must have magnitude <= 999999999" }
  else if isDatetime (now + seconds * 1000000) then .ok (now + seconds * 1000000)
  else .error ⟨.exception "OverflowError", "date value out of range"⟩

theorem addSeconds_ok {now seconds t : Int} (h : addSeconds now seconds = .ok t) :
    isDatetime t ∧ t = now + seconds * 1000000 := by
  unfold addSeconds at h
  dsimp only at h
  split at h
  · cases h
  · split at h
    · rename_i hdatetime
      cases h
      exact ⟨hdatetime, rfl⟩
    · cases h

/-! ## JSON values -/

/-- A float, held as its `repr`. -/
structure PyFloat where
  repr : String
  ne_empty : repr ≠ ""
  deriving DecidableEq, Repr

/-- A value of `json.loads`. A dict is held as its items, where each key stands once. -/
inductive Json where
  | null
  | bool (b : Bool)
  | int (n : Int)
  | float (f : PyFloat)
  | str (s : String)
  | arr (items : List Json)
  | obj (fields : List (String × Json))
  deriving Repr, Inhabited

namespace Json

def truthy : Json → Bool
  | .null => false
  | .bool b => b
  | .int n => n ≠ 0
  | .float f => f.repr ≠ "0.0" ∧ f.repr ≠ "-0.0"
  | .str s => s ≠ ""
  | .arr items => !items.isEmpty
  | .obj fields => !fields.isEmpty

def get (fields : List (String × Json)) (key : String) : Option Json :=
  (fields.find? fun field => field.1 = key).map (·.2)

/-- `a or b` on values that `dict.get` returned: a missing field is `None`. -/
def orElse (a b : Option Json) : Option Json :=
  match a with
  | some value => if value.truthy then some value else b
  | none => b

end Json

/-! ## `str()` of a JSON value -/

abbrev Bytes := List UInt8

/-- What the code takes from the Python runtime: the JSON parser, the texts of decoding errors,
`bytes.decode(errors="replace")` and `str.isprintable` of one character. -/
structure Python where
  loads : Bytes → Except Exc Json
  decodeErrorText : Bytes → String
  decodeReplace : Bytes → String
  isprintable : Char → Bool

def Python.decode (py : Python) (value : Bytes) : Except Exc String :=
  match String.fromUTF8? ⟨value.toArray⟩ with
  | some s => .ok s
  | none => .error ⟨.unicodeDecodeError, py.decodeErrorText value⟩

def encode (s : String) : Bytes := s.toUTF8.data.toList

def hexDigits (width n : Nat) : String :=
  let digits := Nat.toDigits 16 n
  String.ofList (List.replicate (width - digits.length) '0' ++ digits)

def quoteMark : Char := Char.ofNat 39
def doubleQuoteMark : Char := Char.ofNat 34
def backslash : Char := Char.ofNat 92

def reprChar (py : Python) (quote c : Char) : String :=
  if c = quote ∨ c = backslash then String.ofList [backslash, c]
  else if c = Char.ofNat 9 then String.ofList [backslash, 't']
  else if c = Char.ofNat 10 then String.ofList [backslash, 'n']
  else if c = Char.ofNat 13 then String.ofList [backslash, 'r']
  else if py.isprintable c then String.ofList [c]
  else if c.toNat < 0x100 then String.ofList [backslash, 'x'] ++ hexDigits 2 c.toNat
  else if c.toNat < 0x10000 then String.ofList [backslash, 'u'] ++ hexDigits 4 c.toNat
  else String.ofList [backslash, 'U'] ++ hexDigits 8 c.toNat

/-- `repr(s)`: single quotes, unless the text has some and no double quote. -/
def reprString (py : Python) (s : String) : String :=
  let quote :=
    if quoteMark ∈ s.toList ∧ doubleQuoteMark ∉ s.toList then doubleQuoteMark else quoteMark
  String.ofList [quote] ++ String.join (s.toList.map (reprChar py quote)) ++ String.ofList [quote]

mutual

def Json.repr (py : Python) : Json → String
  | .null => "None"
  | .bool b => if b then "True" else "False"
  | .int n => toString n
  | .float f => f.repr
  | .str s => reprString py s
  | .arr items => "[" ++ String.intercalate ", " (Json.reprItems py items) ++ "]"
  | .obj fields => "\x7b" ++ String.intercalate ", " (Json.reprFields py fields) ++ "\x7d"

def Json.reprItems (py : Python) : List Json → List String
  | [] => []
  | item :: items => Json.repr py item :: Json.reprItems py items

def Json.reprFields (py : Python) : List (String × Json) → List String
  | [] => []
  | (key, value) :: fields =>
    (reprString py key ++ ": " ++ Json.repr py value) :: Json.reprFields py fields

end

/-- `str(value)`: a string is its own text, everything else prints as its `repr`. -/
def Json.toStr (py : Python) : Json → String
  | .str s => s
  | value => value.repr py

theorem toString_int_ne_empty (n : Int) : toString n ≠ "" := by
  cases n with
  | ofNat k => exact Nat.repr_ne_empty
  | negSucc k => simp [toString, Int.repr]

theorem Json.toStr_ne_empty (py : Python) (value : Json) (h : value.truthy = true) :
    value.toStr py ≠ "" := by
  cases value with
  | null => simp [truthy] at h
  | bool b => cases b <;> simp [toStr, Json.repr]
  | int n => exact toString_int_ne_empty n
  | float f => exact f.ne_empty
  | str s => simpa [truthy, toStr] using h
  | arr items => simp [toStr, Json.repr]
  | obj fields => simp [toStr, Json.repr]

/-! ## A small runtime -/

/-- A runtime for records without a value: nothing is parsed. -/
def bareRuntime : Python where
  loads := fun _ => .error ⟨.jsonDecodeError, "Expecting value: line 1 column 1 (char 0)"⟩
  decodeErrorText := fun _ => ""
  decodeReplace := fun _ => ""
  isprintable := fun _ => true

def handlerError : Exc := ⟨.valueError, "payment gateway timeout"⟩

end MessageDedup
