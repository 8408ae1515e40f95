import SmallScript.Lexical.Quoted
import SmallScript.Proofs.Lockstep

namespace SmallScript.Lexical

open Scan

/-- Two texts inside strings between quotes `q`: the same content, and behind the closing quotes
`U`; or the same content to the end, never closed. -/
inductive Content (q : Char) (U : List Char → List Char → Prop) : List Char → List Char → Prop where
  | close {r r' : List Char} (h : U r r') : Content q U (q :: r) (q :: r')
  | plain (c : Char) {s t : List Char} (hc : c ≠ '\\') (hq : c ≠ q) (h : Content q U s t) :
      Content q U (c :: s) (c :: t)
  | escaped (c : Char) {s t : List Char} (h : Content q U s t) :
      Content q U ('\\' :: c :: s) ('\\' :: c :: t)
  | dangling : Content q U ['\\'] ['\\']
  | nil : Content q U [] []
  /-- A line that ends inside a string ends the hope for its closing quote. -/
  | broken (c : Char) (hc : c = '\n' ∨ c = '\r') (s t : List Char) : Content q U (c :: s) (c :: t)

inductive Escaped (q : Char) (U : List Char → List Char → Prop) : List Char → List Char → Prop where
  | nil : Escaped q U [] []
  | behind (c : Char) {s t : List Char} (h : Content q U s t) : Escaped q U (c :: s) (c :: t)

def IsQuote (q : Char) : Prop := q = '"' ∨ q = '\''

def times (p : Char → Bool) : Nat → Scan (List Char)
  | 0 => pure []
  | m + 1 => do
    let c ← satisfy p
    let cs ← times p m
    return c :: cs

theorem times_apply (p : Char → Bool) (m : Nat) (s : List Char) :
    times p m s = if (s.take m).length = m ∧ (s.take m).all p then some (s.take m, s.drop m)
      else none := by
  induction m generalizing s with
  | zero => rfl
  | succ m ih =>
      cases s with
      | nil => rfl
      | cons c s =>
          rw [times, bind_apply, satisfy]
          cases hc : p c with
          | false => simp [hc]
          | true =>
              simp only [↓reduceIte, Option.bind_some, bind_apply, ih, List.take_succ_cons,
                List.length_cons, Nat.add_right_cancel_iff, List.all_cons, hc, Bool.true_and,
                List.drop_succ_cons]
              split <;> rfl

theorem hexDigits_eq (m : Nat) :
    hexDigits m = (do let ds ← times isHexDigit m; return numberOf 16 ds) := by
  funext s
  rw [bind_apply, times_apply, hexDigits]
  split <;> rfl

namespace Content

variable {q : Char} {U : List Char → List Char → Prop} {s t : List Char} (n : Nat)

theorem head? (h : Content q U s t) : s.head? = t.head? := by
  cases h <;> rfl

theorem agree (h : Content q U s t) {p : Char → Bool} (hp : p '\n' = false ∧ p '\r' = false)
    {V : List Char → List Char → Prop}
    (hclose : ∀ r r', p q = true → U r r' → V r r')
    (hplain : ∀ c r r', p c = true → c ≠ '\\' → c ≠ q → Content q U r r' → V r r')
    (hescaped : ∀ r r', p '\\' = true → Escaped q U r r' → V r r') : Agree p V s t := by
  have hcases {c : Char} {r r' : List Char} (hV : p c = true → V r r') :
      Agree p V (c :: r) (c :: r') := by
    cases hc : p c with
    | true => exact .inl ⟨c, r, r', hc, rfl, rfl, hV hc⟩
    | false => exact .inr ⟨by rintro _ _ ⟨⟩; exact hc, by rintro _ _ ⟨⟩; exact hc⟩
  cases h with
  | close h => exact hcases fun hp => hclose _ _ hp h
  | plain c hc hq h => exact hcases fun hp => hplain c _ _ hp hc hq h
  | escaped c h => exact hcases fun hp => hescaped _ _ hp (.behind c h)
  | dangling => exact hcases fun hp => hescaped _ _ hp .nil
  | nil => exact .inr ⟨nofun, nofun⟩
  | broken c hc =>
      have hp : p c = false := by
        rcases hc with rfl | rfl
        · exact hp.1
        · exact hp.2
      exact .inr ⟨by rintro _ _ ⟨⟩; exact hp, by rintro _ _ ⟨⟩; exact hp⟩

theorem run1_isPlain :
    Follows 1 n (Content q U) (Content q U) (run1 (isPlain q)) (run1 (isPlain q)) := by
  have hlines : isPlain q '\n' = false ∧ isPlain q '\r' = false := by simp [isPlain]
  refine .run1 fun s t h => h.agree hlines (fun _ _ hp => ?_) (fun _ _ _ _ _ _ h => h) fun _ _ hp => ?_
  · rw [isPlain, bne_self_eq_false, Bool.and_false, Bool.false_and, Bool.false_and] at hp
    cases hp
  · cases hp

theorem hexDigit (hq : IsQuote q) :
    Follows 1 n (Content q U) (Content q U) (satisfy isHexDigit) (satisfy isHexDigit) := by
  refine .satisfy fun s t h => h.agree ⟨rfl, rfl⟩ (fun _ _ hp => ?_) (fun _ _ _ _ _ _ h => h) fun _ _ hp => ?_
  · rcases hq with rfl | rfl <;> cases hp
  · cases hp

theorem hexDigits (hq : IsQuote q) (m : Nat) :
    Follows 0 n (Content q U) (Content q U) (Lexical.hexDigits m) (Lexical.hexDigits m) := by
  have htimes (m : Nat) : Follows 0 n (Content q U) (Content q U) (times isHexDigit m)
      (times isHexDigit m) := by
    induction m with
    | zero => exact .pure []
    | succ m ih => exact (hexDigit n hq).weaken.bind fun c => ih.bind fun cs => .pure (c :: cs)
  rw [hexDigits_eq]
  exact (htimes m).bind fun ds => .pure _

theorem backslash (hq : IsQuote q) :
    Follows 1 n (Content q U) (Escaped q U) (char '\\') (char '\\') := by
  refine .char fun s t h => h.agree ⟨rfl, rfl⟩ (fun _ _ hp => ?_) (fun c _ _ hp hc => ?_) fun _ _ _ h => h
  · rcases hq with rfl | rfl <;> cases hp
  · exact (hc (beq_iff_eq.mp hp)).elim

theorem unitEscape (hq : IsQuote q) :
    Follows 1 n (Content q U) (Content q U) Lexical.unitEscape Lexical.unitEscape := by
  refine (backslash n hq).andThen fun _ => (Follows.char (U := Content q U) ?_).weaken.bind fun _ =>
    hexDigits n hq 4
  intro s t h
  cases h with
  | nil => exact .inr ⟨nofun, nofun⟩
  | @behind c r r' h =>
      cases hc : c == 'u' with
      | true => exact .inl ⟨c, r, r', hc, rfl, rfl, h⟩
      | false => exact .inr ⟨by rintro _ _ ⟨⟩; exact hc, by rintro _ _ ⟨⟩; exact hc⟩

theorem escapeBody (hq : IsQuote q) :
    Follows 0 n (Escaped q U) (Content q U) Lexical.escapeBody Lexical.escapeBody := by
  intro s t hs hT
  cases hT with
  | nil => exact .inl ⟨rfl, rfl⟩
  | @behind c r r' h =>
      have hkept : Kept 0 (Content q U) (c :: r) (c :: r') r r' :=
        ⟨h, Nat.le_succ _, Nat.le_succ _⟩
      simp only [Lexical.escapeBody]
      split
      · exact .inr ⟨[], r, r', rfl, rfl, hkept⟩
      split
      · exact .inl ⟨rfl, rfl⟩
      split
      · rcases hexDigits n hq 2 r r' (Nat.lt_of_succ_lt hs) h with
          ⟨hr, hr'⟩ | ⟨x, u, u', hu, hu', hrest, hleft, hright⟩
        · exact .inl ⟨by rw [hr]; rfl, by rw [hr']; rfl⟩
        · exact .inr ⟨[Char.ofNat x], u, u', by rw [hu]; rfl, by rw [hu']; rfl, hrest,
            Nat.le_succ_of_le hleft, Nat.le_succ_of_le hright⟩
      split
      · -- whether a digit follows the zero is seen on either side
        have hhead := h.head?
        cases r with
        | nil =>
            cases r' with
            | nil => exact .inr ⟨['\x00'], [], [], rfl, rfl, hkept⟩
            | cons => cases hhead
        | cons d r =>
            cases r' with
            | nil => cases hhead
            | cons d' r' =>
                cases hhead
                cases hd : isDigit d with
                | true => exact .inr ⟨['0'], _, _, if_pos hd, if_pos hd, hkept⟩
                | false =>
                    have hd : ¬isDigit d = true := by rw [hd]; exact Bool.false_ne_true
                    exact .inr ⟨['\x00'], _, _, if_neg hd, if_neg hd, hkept⟩
      · exact .inr ⟨_, r, r', rfl, rfl, hkept⟩

theorem quotedPart (hq : IsQuote q) :
    Follows 1 n (Content q U) (Content q U) (Lexical.quotedPart q) (Lexical.quotedPart q) :=
  .orElse (run1_isPlain n) <| .orElse
    ((unitEscape n hq).andThen fun _ => (unitEscape n hq).many.bind fun _ => .pure _)
    ((backslash n hq).andThen fun _ => escapeBody n hq)

theorem quote (hq : IsQuote q) : Follows 1 n (Content q U) U (char q) (char q) := by
  have hlines : ('\n' == q) = false ∧ ('\r' == q) = false := by rcases hq with rfl | rfl <;> decide
  refine .char fun s t h => h.agree hlines (fun _ _ _ h => h) (fun c _ _ hp _ hc => ?_) fun _ _ hp => ?_
  · exact (hc (beq_iff_eq.mp hp)).elim
  · rcases hq with rfl | rfl <;> cases hp

end Content

variable {T U : List Char → List Char → Prop} {q : Char} {s w : List Char}

theorem quotedBy_follows (hq : IsQuote q) (n : Nat)
    (h : ∀ s t, T s t → Agree (· == q) (Content q U) s t) :
    Follows 1 n T U (quotedBy q) (quotedBy q) :=
  (Follows.char h).andThen fun _ => (Content.quotedPart n hq).many.bind fun _ =>
    (Content.quote n hq).weaken.bind fun _ => .pure _

/-- Quoted strings go in lockstep if the contents behind both kinds of quotes do. -/
theorem quoted_follows (n : Nat)
    (h : ∀ q, IsQuote q → ∀ s t, T s t → Agree (· == q) (Content q U) s t) :
    Follows 1 n T U quoted quoted :=
  .orElse (quotedBy_follows (.inl rfl) n (h _ (.inl rfl)))
    (quotedBy_follows (.inr rfl) n (h _ (.inr rfl)))

/-- The rest of a string between quotes `q`, the closing quote included. -/
inductive Closed (q : Char) : List Char → Prop where
  | close : Closed q [q]
  | plain (c : Char) {s : List Char} (hc : c ≠ '\\') (hq : c ≠ q) (h : Closed q s) : Closed q (c :: s)
  | escaped (c : Char) {s : List Char} (h : Closed q s) : Closed q ('\\' :: c :: s)

inductive Unclosed (q : Char) : List Char → Prop where
  | nil : Unclosed q []
  | dangling : Unclosed q ['\\']
  | plain (c : Char) {s : List Char} (hc : c ≠ '\\') (hq : c ≠ q) (h : Unclosed q s) :
      Unclosed q (c :: s)
  | escaped (c : Char) {s : List Char} (h : Unclosed q s) : Unclosed q ('\\' :: c :: s)

theorem unclosed_or_closed (q : Char) (s : List Char) :
    Unclosed q s ∨ ∃ w r, Closed q w ∧ s = w ++ r := by
  induction hn : s.length using Nat.strongRecOn generalizing s with
  | ind n ih =>
    subst hn
    cases s with
    | nil => exact .inl .nil
    | cons c s =>
        by_cases hc : c = '\\'
        · subst hc
          cases s with
          | nil => exact .inl .dangling
          | cons c s =>
              rcases ih _ (by simp only [List.length_cons]; omega) s rfl with h | ⟨w, r, hw, rfl⟩
              · exact .inl (.escaped c h)
              · exact .inr ⟨'\\' :: c :: w, r, .escaped c hw, rfl⟩
        · by_cases hq' : c = q
          · exact .inr ⟨[q], s, .close, by rw [hq']; rfl⟩
          · rcases ih _ (Nat.lt_succ_self _) s rfl with h | ⟨w, r, hw, rfl⟩
            · exact .inl (.plain c hc hq' h)
            · exact .inr ⟨c :: w, r, .plain c hc hq' hw, rfl⟩

theorem Unclosed.content (h : Unclosed q s) : Content q U s s := by
  induction h with
  | nil => exact .nil
  | dangling => exact .dangling
  | plain c hc hq _ ih => exact .plain c hc hq ih
  | escaped c _ ih => exact .escaped c ih

theorem Closed.content (h : Closed q w) {r r' : List Char} (hU : U r r') :
    Content q U (w ++ r) (w ++ r') := by
  induction h with
  | close => exact .close hU
  | plain c hc hq _ ih => exact .plain c hc hq ih
  | escaped c _ ih => exact .escaped c ih

theorem Content.refl (q : Char) (hU : ∀ r, U r r) (s : List Char) : Content q U s s := by
  rcases unclosed_or_closed q s with h | ⟨w, r, hw, rfl⟩
  · exact h.content
  · exact hw.content (hU r)

theorem quotedBy_append (hq : IsQuote q) {v : String} (h : quotedBy q s = some (v, []))
    (k : List Char) : quotedBy q (s ++ k) = some (v, k) := by
  have hopen {U : List Char → List Char → Prop} {r r' : List Char} (hr : Content q U r r') :
      (quotedBy q (q :: r) = none ∧ quotedBy q (q :: r') = none) ∨ ∃ v u u',
        quotedBy q (q :: r) = some (v, u) ∧ quotedBy q (q :: r') = some (v, u') ∧ U u u' := by
    rcases quotedBy_follows (T := fun s t => s = q :: r ∧ t = q :: r') (U := U) hq (r.length + 2)
      (by rintro _ _ ⟨rfl, rfl⟩; exact .inl ⟨q, r, r', beq_self_eq_true q, rfl, rfl, hr⟩)
      (q :: r) (q :: r') (Nat.lt_succ_self _) ⟨rfl, rfl⟩ with hfail | ⟨v, u, u', hu, hu', hkept⟩
    · exact .inl hfail
    · exact .inr ⟨v, u, u', hu, hu', hkept.rest⟩
  cases s with
  | nil => cases h
  | cons c r =>
      by_cases hc : c = q
      · subst hc
        rcases unclosed_or_closed c r with hr | ⟨w, u, hw, rfl⟩
        · -- a string that is not closed cannot have been read
          rcases hopen (hr.content (U := fun _ _ => False)) with ⟨hfail, -⟩ | ⟨_, _, _, _, _, hfalse⟩
          · cases hfail.symm.trans h
          · exact hfalse.elim
        · rcases hopen (hw.content (U := fun r r' => r = u ∧ r' = u ++ k) ⟨rfl, rfl⟩) with
            ⟨hfail, -⟩ | ⟨v', r, r', hr, hr', rfl, rfl⟩
          · cases hfail.symm.trans h
          · cases hr.symm.trans h
            rw [List.cons_append, List.append_assoc]
            exact hr'
      · have hfail : quotedBy q (c :: r) = none := by
          rw [quotedBy, bind_apply, char, if_neg hc]
          rfl
        cases hfail.symm.trans h

end SmallScript.Lexical
