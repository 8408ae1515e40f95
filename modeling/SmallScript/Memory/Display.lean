import SmallScript.Memory
import SmallScript.Number.Text
import SmallScript.Text.Quoted

namespace SmallScript.Memory

def paramText (f : Function) : String := ", ".intercalate f.params

def functionText (f : Function) : String :=
  "function " ++ f.name.getD "" ++ "(" ++ paramText f ++ ") \x7b ... \x7d"

def builtinText (b : Builtin) : String :=
  "function " ++ b.name ++ "() \x7b [native code] \x7d"

/-- Display form of `v` inside the arrays of `path`. -/
def displayFrom (m : Memory) : Nat → List ArrayRef → Value → String
  | 0, _, _ => ""
  | n + 1, path, v =>
    match v with
    | .undefined => "undefined"
    | .null => "null"
    | .bool b => if b then "true" else "false"
    | .number x => Number.Text.ofDouble x
    | .string s => s
    | .array a =>
      if a ∈ path then ""
      else
        let item (v : Value) : String :=
          if v.isNullish then "" else displayFrom m n (a :: path) v
        ",".intercalate ((m.arrayAt a).toList.map item)
    | .object o =>
      let object := m.objectAt o
      match object.cls with
      | .plain => "[object Object]"
      | .error =>
        let name := match object.properties.get? "name" with
          | some v => displayFrom m n path v
          | none => "Error"
        let message := match object.properties.get? "message" with
          | some v => displayFrom m n path v
          | none => ""
        if message = "" then name else name ++ ": " ++ message
    | .builtin b => builtinText b
    | .closure c => functionText (m.closureAt c).definition

/-- Between two arrays on a path lie at most all objects, and no array is on it twice. -/
def displayFuel (m : Memory) : Nat := (m.arrays.size + 1) * (m.objects.size + 2)

/-- The fuel is enough for an error object and its message, whatever is in the memory. -/
theorem exists_displayFuel (m : Memory) : ∃ n, m.displayFuel = n + 2 := by
  have htwo : 2 ≤ m.displayFuel :=
    calc 2 ≤ m.objects.size + 2 := Nat.le_add_left 2 _
      _ ≤ (m.arrays.size + 1) * (m.objects.size + 2) := Nat.le_mul_of_pos_left _ (Nat.succ_pos _)
  exact Nat.exists_eq_add_of_le' htwo

def display (m : Memory) (v : Value) : String := m.displayFrom m.displayFuel [] v

def inspectFrom (m : Memory) : Nat → List ArrayRef → List ObjectRef → Value → String
  | 0, _, _, _ => ""
  | n + 1, arrays, objects, v =>
    match v with
    | .string s => Text.Quoted.encode s
    | .array a =>
      if a ∈ arrays then "[Circular]"
      else
        let items := (m.arrayAt a).toList.map (inspectFrom m n (a :: arrays) objects)
        "[" ++ ", ".intercalate items ++ "]"
    | .object o =>
      if m.isError v then m.display v
      else if o ∈ objects then "[Circular]"
      else
        let item : String × Value → String := fun (k, v) =>
          k ++ ": " ++ inspectFrom m n arrays (o :: objects) v
        match (m.objectAt o).properties.map item with
        | [] => "\x7b\x7d"
        | items => "\x7b " ++ ", ".intercalate items ++ " \x7d"
    | v => m.display v

def inspectFuel (m : Memory) : Nat := m.arrays.size + m.objects.size + 1

def inspect (m : Memory) (v : Value) : String := m.inspectFrom m.inspectFuel [] [] v

end SmallScript.Memory
