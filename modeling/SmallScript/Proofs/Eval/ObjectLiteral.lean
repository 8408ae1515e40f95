import SmallScript.Eval.Expression
import SmallScript.Proofs.Memory.Properties
import SmallScript.Proofs.Outcome
import Mathlib

namespace SmallScript.Eval

open Effect

def setProperties (o : Value) : List (String × Value) → Effect Unit
  | [] => return ()
  | (key, v) :: entries => do
    setProperty o key v
    setProperties o entries

theorem newObject_set (t : Table Value) (key : String) (v : Value) :
    newObject (t.set key v) = do
      let o ← newObject t
      setProperty o key v
      return o := by
  funext s
  have hmemory : (s.memory.newObject (t.set key v)).2 =
      (s.memory.newObject t).2.write v (.property s.memory.objects.size key) :=
    (s.memory.modifyObject_newObject t
      fun object => { object with properties := object.properties.set key v }).symm
  change Outcome.done _ { s with memory := (s.memory.newObject (t.set key v)).2 } = _
  rw [hmemory]
  rfl

theorem newObject_setAll (t : Table Value) (entries : List (String × Value)) :
    newObject (t.setAll entries) = do
      let o ← newObject t
      setProperties o entries
      return o := by
  induction entries generalizing t with
  | nil => rfl
  | cons e entries ih =>
      calc newObject (t.setAll (e :: entries)) = newObject ((t.set e.1 e.2).setAll entries) := rfl
        _ = _ := by simp only [ih, newObject_set, bind_assoc, pure_bind, setProperties]

theorem evalProperties_eq (E : Evaluator) (f : FrameRef) (t : Table Value)
    (properties : List (String × Expr)) :
    evalProperties E f t properties = do
      let vs ← evalList E f (properties.map Prod.snd)
      return t.setAll ((properties.map Prod.fst).zip vs) := by
  induction properties generalizing t with
  | nil => rfl
  | cons p properties ih =>
      simp only [evalProperties, ih, List.map_cons, evalList, bind_assoc, pure_bind]
      rfl

theorem evalExpr_object (host : Host) (E : Evaluator) (f : FrameRef)
    (properties : List (String × Expr)) :
    evalExpr host E f (.object properties) = do
      let vs ← evalList E f (properties.map Prod.snd)
      let o ← newObject []
      setProperties o ((properties.map Prod.fst).zip vs)
      return o := by
  simp only [evalExpr, evalProperties_eq, bind_assoc, pure_bind, newObject_setAll]

end SmallScript.Eval
