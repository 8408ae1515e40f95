import SmallScript.Session

namespace SmallScript.Conformance

inductive Verdict where
  | pass
  | fail (kind message : String)
  deriving DecidableEq

def contains (w : List Char) : List Char → Bool
  | [] => w.isEmpty
  | c :: r => w.isPrefixOf (c :: r) || contains w r

def isNegative (source : String) : Bool := contains "@negative".toList source.toList

def propertyText (m : Memory) (v : Value) (key : String) : String :=
  match m.getProperty v key with
  | .ok p => m.display p
  | .error _ => ""

/-- The verdict on a test that ended with a fault. A thrown error object is reported by the name
and the message that it has then. -/
def Verdict.ofFault (m : Memory) : Fault → Verdict
  | .thrown v =>
    if m.isError v then .fail (propertyText m v "name") (propertyText m v "message")
    else .fail "UncaughtError" (m.inspect v)
  | e => .fail e.kind.name e.wording

def silentHost (maxDepth : Nat) : Host := ⟨maxDepth, fun _ => none⟩

def verdictOf (source : String) : Outcome Session Value → Verdict
  | .done _ _ =>
    if isNegative source then
      .fail "NegativeTestError" "expected an error but evaluation succeeded"
    else .pass
  | .fail e s =>
    if isNegative source && e.isCatchable then .pass else Verdict.ofFault s.state.memory e
  | .exhausted => .fail "Exhausted" "the test did not come to an end"

def judge (maxDepth : Nat) (source : String) : Verdict :=
  verdictOf source
    ((Session.start false).eval (silentHost maxDepth) Session.abundantFuel source)

def Verdict.kind : Verdict → String
  | pass => "OK"
  | fail kind _ => kind

def Verdict.text : Verdict → String
  | pass => "OK"
  | fail kind message => kind ++ ": " ++ message

abbrev Report := List (String × Verdict)

namespace Report

def passed (r : Report) : Nat := r.countP fun (_, v) => v == .pass

def countKind (kind : String) : List (String × Nat) → List (String × Nat)
  | [] => [(kind, 1)]
  | (k, n) :: t =>
    if k = kind then (k, n + 1) :: t
    else if kind < k then (kind, 1) :: (k, n) :: t
    else (k, n) :: countKind kind t

def recap (r : Report) : List (String × Nat) :=
  r.foldl (fun t (_, v) => countKind v.kind t) []

/-- A number that is not negative, rounded to one decimal place, a tie to the even digit. -/
def oneDecimal (x : Float) : String :=
  match Number.Double.decode x with
  | .finite _ m e =>
    let tenths :=
      Number.Double.roundDiv (10 * m * Number.Double.twoPow e) (Number.Double.twoPow (-e))
    toString (tenths / 10) ++ "." ++ toString (tenths % 10)
  | _ => Number.Text.ofDouble x

def percent (r : Report) : Float :=
  if r.isEmpty then 0
  else Number.Double.ofNat r.passed / Number.Double.ofNat r.length * 100

def text (r : Report) : String :=
  String.join (r.map fun (name, v) => name ++ ": " ++ v.text ++ "\n")
    ++ "\nRecap:\n"
    ++ String.join (r.recap.map fun (kind, n) => kind ++ ":\t" ++ toString n ++ "\n")
    ++ "Passed: " ++ toString r.passed ++ "/" ++ toString r.length ++ " = "
    ++ oneDecimal r.percent ++ "%\n"

end Report

end SmallScript.Conformance
