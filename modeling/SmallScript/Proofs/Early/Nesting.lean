import SmallScript.Proofs.Early.Declarations
import Mathlib

namespace SmallScript

open Early

def Stmt.declares : Stmt → List (String × Bool)
  | .decl .letDecl ds => ds.map fun d => (d.1, true)
  | .decl .constDecl ds => ds.map fun d => (d.1, false)
  | .ifElse _ t none => t.declares
  | .ifElse _ t (some e) => t.declares ++ e.declares
  | .whileLoop _ body | .doWhile body _ => body.declares
  | _ => []

theorem Stmt.declares_decl_append (kind : DeclKind) (ds es : List (String × Option Expr)) :
    (Stmt.decl kind (ds ++ es)).declares =
      (Stmt.decl kind ds).declares ++ (Stmt.decl kind es).declares := by
  cases kind <;> simp [Stmt.declares]

def declaredBy (ts : List Stmt) : List (String × Bool) := ts.flatMap Stmt.declares

@[simp] theorem declaredBy_nil : declaredBy [] = [] := rfl

@[simp] theorem declaredBy_cons (t : Stmt) (ts : List Stmt) :
    declaredBy (t :: ts) = t.declares ++ declaredBy ts := rfl

@[simp] theorem declaredBy_append (ts us : List Stmt) :
    declaredBy (ts ++ us) = declaredBy ts ++ declaredBy us := List.flatMap_append

/-- The functions that are bound when a list of statements starts. -/
def hoisted : List Stmt → List String
  | [] => []
  | .function definition :: ts => definition.name.toList ++ hoisted ts
  | _ :: ts => hoisted ts

namespace Early

theorem filterMap_lexical_filter (ds : List Decl) :
    (ds.filter Decl.isVar).filterMap Decl.lexical? = [] := by
  rw [List.filterMap_eq_nil_iff]
  intro d hd
  cases d with
  | var x => rfl
  | lexical x | function x => simp [Decl.isVar] at hd

theorem filterMap_lexical_decls (t : Stmt) :
    (decls t).filterMap Decl.lexical? = t.declares.map Prod.fst := by
  fun_induction Stmt.declares t with
  | case1 ds | case2 ds =>
      simp [decls, List.filterMap_map, Decl.lexical?, Function.comp_def]
  | case3 c t ih => exact ih
  | case4 c t e iht ihe => rw [decls, List.filterMap_append, iht, ihe, List.map_append]
  | case5 c body ih | case6 body c ih => exact ih
  | case7 t hlet hconst hif hifElse hwhile hdo =>
      cases t with
      | decl kind ds =>
          cases kind with
          | var => simp [decls, Decl.lexical?]
          | letDecl => exact (hlet ds rfl).elim
          | constDecl => exact (hconst ds rfl).elim
      | function f => simp [decls, Decl.lexical?]
      | ifElse c t e =>
          cases e with
          | none => exact (hif c t rfl).elim
          | some e => exact (hifElse c t e rfl).elim
      | whileLoop c body => exact (hwhile c body rfl).elim
      | doWhile body c => exact (hdo body c rfl).elim
      | forLoop init test update body =>
          cases init <;> simp only [decls, filterMap_lexical_filter, List.map_nil]
      | block body => simp only [decls, filterMap_lexical_filter, List.map_nil]
      | tryCatch body handler finalizer =>
          rcases handler with _ | ⟨x, handler⟩ <;> cases finalizer <;>
            simp [decls, filterMap_lexical_filter]
      | breakLoop | continueLoop | returnValue | throw | expr | empty => rfl

theorem filterMap_lexical_declsOf (ts : List Stmt) :
    (decls.declsOf ts).filterMap Decl.lexical? = (declaredBy ts).map Prod.fst := by
  induction ts with
  | nil => rfl
  | cons t ts ih =>
      rw [decls.declsOf, List.filterMap_append, filterMap_lexical_decls, ih, declaredBy_cons,
        List.map_append]

theorem lexical_mem_of_declaredBy {ts : List Stmt} {x : String} {isMutable : Bool}
    (hx : (x, isMutable) ∈ declaredBy ts) : .lexical x ∈ decls.declsOf ts := by
  rw [← mem_filterMap_lexical, filterMap_lexical_declsOf]
  exact List.mem_map_of_mem hx

theorem function_mem_of_hoisted {ts : List Stmt} {x : String} (hx : x ∈ hoisted ts) :
    .function x ∈ decls.declsOf ts := by
  fun_induction hoisted ts with
  | case1 => cases hx
  | case2 definition ts ih =>
      rw [decls.declsOf, List.mem_append]
      rcases List.mem_append.mp hx with hname | hrest
      · exact .inl (List.mem_map_of_mem hname)
      · exact .inr (ih hrest)
  | case3 t ts h ih =>
      rw [decls.declsOf, List.mem_append]
      exact .inr (ih hx)

end Early

end SmallScript
