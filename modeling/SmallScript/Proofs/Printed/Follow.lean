import SmallScript.Proofs.Grammar.Shape
import SmallScript.Proofs.Printed.Text
import Mathlib.Data.Bool.AllAny

namespace SmallScript

open Grammar Lexical Scan Token

def closers : List Char := [')', ']', ',', ':', ';', '\x7d']

/-- The characters that what goes on with an expression starts with. -/
def continuations : List Char :=
  ['(', '.', '[', '?', '=', '*', '/', '%', '+', '-', '<', '>', '!', '&', '^', '|']

structure Inert (u : List Char) : Prop where
  suffix : callSuffix grammar u = none
  operator : ∀ level ∈ levels, operatorOf level u = none
  question : char '?' u = none
  assign : assignOp u = none
  equals : char '=' u = none

/-- What may follow a whole expression. -/
structure Done (k : List Char) : Prop where
  ends : Ends k
  step : stepAfter (skipInlineGap k) = none
  inert : Inert (skipGap k)

def Stop (k : List Char) : Prop := k = [] ∨ ∃ u, k = ' ' :: '\x7d' :: u

variable {t : Token} {ts : List Token} {K : List Char → Prop} {w : String} {c : Char}
  {k u : List Char}

theorem assignOp_first : First (fun c => ['+', '-', '*', '/', '%', '='].contains c) assignOp := by
  refine .or ?_ <| .or ?_ <| .or ?_ <| .or ?_ <| .or ?_ ?_
  · exact .bind ((First.text (c := '+') rfl).imp fun c h => by rw [beq_iff_eq.mp h]; rfl)
  · exact .bind ((First.text (c := '-') rfl).imp fun c h => by rw [beq_iff_eq.mp h]; rfl)
  · exact .bind ((First.text (c := '*') rfl).imp fun c h => by rw [beq_iff_eq.mp h]; rfl)
  · exact .bind ((First.text (c := '/') rfl).imp fun c h => by rw [beq_iff_eq.mp h]; rfl)
  · exact .bind ((First.text (c := '%') rfl).imp fun c h => by rw [beq_iff_eq.mp h]; rfl)
  · exact .bind ((First.char '=').imp fun c h => by rw [beq_iff_eq.mp h]; rfl)

theorem inert_front (h : ∀ c v, u = c :: v → c ∉ continuations) : Inert u := by
  have hfails {α : Type} {p : Scan α} {F : Char → Bool} (hp : First F p)
      (hF : ∀ c, F c = true → c ∈ continuations) : p u = none := by
    refine hp.fails fun c v hu => ?_
    rw [← Bool.not_eq_true]
    exact fun hc => h c v hu (hF c hc)
  have hchar {d : Char} (hd : d ∈ continuations) : char d u = none :=
    hfails (.char d) fun c hc => by rwa [beq_iff_eq.mp hc]
  refine ⟨hfails (callSuffix_first grammar) fun c hc => ?_,
    fun level hlevel => hfails (operatorOf_first level) fun c hc => ?_, hchar (by decide),
    hfails assignOp_first fun c hc => ?_, hchar (by decide)⟩
  · simp only [Bool.or_eq_true, beq_iff_eq] at hc
    rcases hc with rfl | rfl | rfl <;> decide
  · have hsymbols : ∀ level ∈ levels, ∀ i ∈ level,
        i.op.symbol.toList.head?.all continuations.contains = true := by decide
    obtain ⟨i, hi, hsymbol⟩ := List.any_eq_true.mp hc
    have hhead := hsymbols level hlevel i hi
    rw [beq_iff_eq.mp hsymbol] at hhead
    exact List.contains_iff_mem.mp hhead
  · have hall : ∀ c ∈ ['+', '-', '*', '/', '%', '='], c ∈ continuations :=
      List.all_iff_forall_prop.mp (by decide)
    exact hall c (List.contains_iff_mem.mp hc)

theorem skip_space_closer {across : Bool} (hc : c ∈ '?' :: closers) :
    skip across (' ' :: c :: u) = c :: u := by
  have hfront : ∀ c ∈ '?' :: closers, isGapBlank true c = false ∧ isInlineBlank c = false ∧ c ≠ '/' :=
    List.all_iff_forall_prop.mp (by decide)
  obtain ⟨hblank, hinline, hslash⟩ := hfront c hc
  rw [skip_blank (by cases across <;> rfl)]
  refine skip_stop ?_ (fun _ h => (hslash h).elim) fun _ h => (hslash h).elim
  cases across with
  | true => exact hblank
  | false => rw [isGapBlank, hinline]; rfl

theorem stepAfter_front (h : ∀ c v, u = c :: v → c ≠ '+' ∧ c ≠ '-') : stepAfter u = none := by
  refine stepAfter_none ?_ ?_ <;> rintro r rfl
  · exact (h _ _ rfl).1 rfl
  · exact (h _ _ rfl).2 rfl

theorem closes_question_mark : Closes (' ' :: '?' :: u) := by
  have hmark {across : Bool} : skip across (' ' :: '?' :: u) = '?' :: u :=
    skip_space_closer List.mem_cons_self
  have hop : ∀ level ∈ levels, (level.any fun i => i.op.symbol.toList.head? == some '?') = false := by
    decide
  refine ⟨⟨ends_space _, ?_, ?_⟩, fun level hlevel => ?_⟩
  · show callSuffix grammar (skip true (' ' :: '?' :: u)) = none
    rw [hmark]
    exact (callSuffix_first grammar).cons rfl
  · show stepAfter (skip false (' ' :: '?' :: u)) = none
    rw [hmark]
    exact stepAfter_front (by rintro _ _ ⟨⟩; decide)
  · show operatorOf level (skip true (' ' :: '?' :: u)) = none
    rw [hmark]
    exact (operatorOf_first level).cons (hop level hlevel)

namespace Done

theorem closer (hc : c ∈ closers) : Done (' ' :: c :: u) := by
  have hfront : ∀ c ∈ closers, c ∉ continuations := List.all_iff_forall_prop.mp (by decide)
  have hskip {across : Bool} : skip across (' ' :: c :: u) = c :: u :=
    skip_space_closer (List.mem_cons_of_mem _ hc)
  refine ⟨ends_space _, ?_, ?_⟩
  · show stepAfter (skip false (' ' :: c :: u)) = none
    rw [hskip]
    refine stepAfter_front ?_
    rintro _ _ ⟨⟩
    exact ⟨fun h => hfront c hc (h ▸ by decide), fun h => hfront c hc (h ▸ by decide)⟩
  · show Inert (skip true (' ' :: c :: u))
    rw [hskip]
    exact inert_front (by rintro _ _ ⟨⟩; exact hfront c hc)

theorem closes (h : Done k) : Closes k := ⟨⟨h.ends, h.inert.suffix, h.step⟩, h.inert.operator⟩

theorem branches (h : Done k) : branches grammar k = none := bind_of_none h.inert.question

theorem assignTail (h : Done k) : assignTail k = none := by
  show (assignOp >>= fun op => grammar.expr >>= fun e => pure (op, e)) (skipGap k) = none
  exact bind_of_none h.inert.assign

end Done

theorem done_word (hw : w.toList = [c]) (hc : c ∈ closers) :
    Follower Done (Spaced (.word w :: ts) K) := by
  rintro _ ⟨_, r, rfl, rfl, -⟩
  rw [hw]
  exact .closer hc

theorem closes_question : Follower Closes (Spaced (.word "?" :: ts) K) := by
  rintro _ ⟨_, r, rfl, rfl, -⟩
  exact closes_question_mark

theorem refuses_expr (hw : w.toList = [c]) (hc : c ∈ closers) :
    Refuses (Spaced (.word w :: ts) K) (Grammar.expr grammar) := by
  rintro _ ⟨_, r, rfl, rfl, -⟩
  rw [hw]
  show assignment grammar (skip true (' ' :: c :: r)) = none
  rw [skip_space_closer (List.mem_cons_of_mem _ hc)]
  have hfront : ∀ c ∈ closers, isExprFront c = false := List.all_iff_forall_prop.mp (by decide)
  exact (assignment_first grammar).cons (hfront c hc)

theorem closes_assign (op : AssignOp) : Follower Closes (Spaced (.word op.symbol :: t :: ts) K) := by
  intro k hk
  have hproper : isProper op.symbol = true := by cases op <;> decide
  have hflush : Flush (.word op.symbol :: t :: ts) K (skip true k) :=
    spaced_skip (t := .word op.symbol) hproper hk
  obtain ⟨l, r, hsplit, hl, u, v, hr, -⟩ := flush_cons.mp hflush
  have hinline : skip false k = skip true k := by
    obtain ⟨l', r', rfl, hl', -⟩ := hk
    rw [skip_blank rfl, skip_blank rfl, skip_token (t := .word op.symbol) hproper hl',
      skip_token (t := .word op.symbol) hproper hl']
  subst hl hr
  refine ⟨⟨ends_spaced_cons k hk, ?_, ?_⟩, fun level hlevel => ?_⟩
  · show callSuffix grammar (skip true k) = none
    rw [hsplit]
    cases op <;> exact (callSuffix_first grammar).cons rfl
  · show stepAfter (skip false k) = none
    rw [hinline, hsplit]
    cases op <;> rfl
  · show operatorOf level (skip true k) = none
    have hnone : ∀ level ∈ levels, (level.find? (·.matches op.symbol.toList)) = none := by
      cases op <;> decide
    have hstop : ∀ i ∈ level, ' ' ∉ i.characters := fun i hi hmem =>
      Bool.false_ne_true ((characters_levels level hlevel i hi ' ' hmem).symm.trans rfl)
    rw [hsplit, operatorOf_stop hstop, hnone level hlevel, Option.map_none]

end SmallScript
