import FirecrawlLb.Python.Values

/-!
# JSON values

What `json.loads` returns.  A dictionary is the list of its items; no key stands twice in the list
of a dictionary, and `get` reads the first item of a key.
-/

namespace FirecrawlLb.Python

/-- A float: a finite double as its exact value, or one of the three others. -/
inductive PyFloat where
  | finite (q : ℚ)
  | posInf
  | negInf
  | nan

inductive Json where
  | null
  | bool (b : Bool)
  | int (i : ℤ)
  | float (x : PyFloat)
  | str (s : String)
  | arr (l : List Json)
  | obj (items : List (String × Json))

/-- A dictionary with string keys. -/
abbrev JsonObject := List (String × Json)

/-- `o.get(key)`: a missing key reads as `None`. -/
def JsonObject.get (o : JsonObject) (key : String) : Json := (o.lookup key).getD .null

namespace Json

/-- `bool(value)` -/
def truthy : Json → Bool
  | .null => false
  | .bool b => b
  | .int i => i ≠ 0
  | .float (.finite q) => q ≠ 0
  | .float _ => true
  | .str s => s ≠ ""
  | .arr l => !l.isEmpty
  | .obj items => !items.isEmpty

/-- `type(value) is int` -/
def plainInt? : Json → Option ℤ
  | .int i => some i
  | _ => none

/-- `isinstance(value, str)` -/
def str? : Json → Option String
  | .str s => some s
  | _ => none

/-- `isinstance(value, Mapping)` -/
def obj? : Json → Option JsonObject
  | .obj items => some items
  | _ => none

/-- `isinstance(value, Sequence) and not isinstance(value, str)` -/
def seq? : Json → Option (List Json)
  | .arr l => some l
  | _ => none

theorem plainInt?_eq_some {v : Json} {i : ℤ} : v.plainInt? = some i ↔ v = .int i := by
  cases v <;> simp [plainInt?]

theorem str?_eq_some {v : Json} {s : String} : v.str? = some s ↔ v = .str s := by
  cases v <;> simp [str?]

theorem obj?_eq_some {v : Json} {o : JsonObject} : v.obj? = some o ↔ v = .obj o := by
  cases v <;> simp [obj?]

end Json

end FirecrawlLb.Python
