import SmallScript.Lexical.Name
import SmallScript.Lexical.Quoted
import SmallScript.Number.Numeral
import SmallScript.Proofs.Lexical.Comment
import SmallScript.Proofs.Peg.Combinator

namespace SmallScript.Peg

open Lexical

variable {R : Type} {Result : R → Type} {α β : Type} {g : ∀ r, Scan (Result r)}

section Words

def keyword (w : String) : Peg Result Unit := text w *> notNext isNamePart

def name : Peg Result String :=
  (fun c cs => String.ofList (c :: cs)) <$> one isNameStart <*> run isNamePart

def identifier : Peg Result String :=
  .convert (fun w => if w ∈ reservedWords then none else some w) name

@[simp]
theorem read_keyword (w : String) : (keyword w : Peg Result Unit).read g = Lexical.keyword w := by
  rw [keyword, read_seqRight, read_text, read_notNext, Lexical.keyword]

@[simp]
theorem read_name : (name : Peg Result String).read g = Lexical.name := by
  simp only [name, Lexical.name, read_ap, read_map, read_one, read_run,
    bind_map_left]

@[simp]
theorem read_identifier : (identifier : Peg Result String).read g = Lexical.identifier := by
  rw [identifier, read, read_name, Lexical.identifier]
  congr 1
  funext w
  by_cases h : w ∈ reservedWords <;> simp only [h, ↓reduceIte]

end Words

section Gaps

def lineComment : Peg Result Unit := text "//" *> (fun _ => ()) <$> run fun c => !isLineEnd c

def blockItem (across : Bool) : Peg Result Char :=
  .absent () (text "*/") *> one fun c => across || !isLineEnd c

def blockComment (across : Bool) : Peg Result Unit :=
  text "/*" *> (star (blockItem across) *> text "*/")

def gapItem (across : Bool) : Peg Result Unit :=
  (fun _ => ()) <$> one (isGapBlank across) <|> lineComment <|> blockComment across

def anyGap (across : Bool) : Peg Result Unit := .many (fun _ => ()) (gapItem across)

def gap : Peg Result Unit := anyGap true

def inlineGap : Peg Result Unit := anyGap false

def sameLine : Peg Result Unit := inlineGap *> notNext isLineEnd

variable {across : Bool}

theorem text_eq_none {w : String} {c d : Char} (hw : w.toList = [c, d]) {s : List Char}
    (h : ∀ r, s ≠ c :: d :: r) : Scan.text w s = none := by
  rw [Option.eq_none_iff_forall_ne_some]
  rintro ⟨⟨⟩, r⟩ hr
  rw [Scan.text, hw] at hr
  exact h r (Scan.eq_append_of_chars hr)

theorem text_append (w : String) (r : List Char) : Scan.text w (w.toList ++ r) = some ((), r) :=
  Scan.chars_append _ r

theorem read_blockItem_end (r : List Char) :
    (blockItem across : Peg Result Char).read g ('*' :: '/' :: r) = none := rfl

theorem read_blockItem_cons {c : Char} {r : List Char} (h : ∀ r', c = '*' → r ≠ '/' :: r') :
    (blockItem across : Peg Result Char).read g (c :: r) =
      if across || !isLineEnd c then some (c, r) else none := by
  have hend : Scan.text "*/" (c :: r) = none := text_eq_none rfl fun u hu => by
    cases hu
    exact h u rfl rfl
  rw [blockItem, read_seqRight, read_one, Scan.bind_apply]
  simp only [read, read_text, hend, Option.bind_some, Scan.satisfy]

theorem takes_blockItem : Scan.Takes ((blockItem across : Peg Result Char).read g) := by
  intro s c r h
  rw [blockItem, read_seqRight, read_one] at h
  obtain ⟨u, t, ht, hone⟩ := Scan.bind_eq_some h
  obtain rfl : t = s := by
    simp only [read] at ht
    split at ht <;> cases ht
    rfl
  exact takes_satisfy _ _ _ _ hone

theorem read_blockRest (s : List Char) :
    (star (blockItem across) *> text "*/" : Peg Result Unit).read g s =
      (blockEnd across s).map fun r => ((), r) := by
  rw [read_seqRight, read_star, read_text, Scan.bind_apply]
  fun_induction blockEnd across s with
  | case1 r =>
      rw [Scan.many_of_none (read_blockItem_end r)]
      exact text_append "*/" r
  | case2 c r hstar hstop =>
      have hnone : (blockItem across : Peg Result Char).read g (c :: r) = none := by
        rw [read_blockItem_cons fun r' hc hr => hstar r' hc hr]
        cases across <;> simp_all
      rw [Scan.many_of_none hnone]
      exact text_eq_none rfl fun u hu => by cases hu; exact hstar u rfl rfl
  | case3 c r hstar hstop ih =>
      have hsome : (blockItem across : Peg Result Char).read g (c :: r) = some (c, r) := by
        rw [read_blockItem_cons fun r' hc hr => hstar r' hc hr]
        cases across <;> simp_all
      rw [Scan.many_of_some takes_blockItem hsome, ← ih]
      cases Scan.many ((blockItem across : Peg Result Char).read g) r <;> rfl
  | case4 => rfl

theorem read_blockComment_block (r : List Char) :
    (blockComment across : Peg Result Unit).read g ('/' :: '*' :: r) =
      (blockEnd across r).map fun r => ((), r) := by
  have hopen : Scan.text "/*" ('/' :: '*' :: r) = some ((), r) := text_append "/*" r
  rw [blockComment, read_seqRight, Scan.bind_apply, read_text, hopen]
  exact read_blockRest r

theorem read_blockComment_none {s : List Char} (h : ∀ r, s ≠ '/' :: '*' :: r) :
    (blockComment across : Peg Result Unit).read g s = none := by
  rw [blockComment, read_seqRight, read_text, Scan.bind_of_none (text_eq_none rfl h)]

@[simp]
theorem read_blockComment :
    (blockComment true : Peg Result Unit).read g = Lexical.blockComment := by
  funext s
  by_cases h : ∃ r, s = '/' :: '*' :: r
  · obtain ⟨r, rfl⟩ := h
    rw [read_blockComment_block, blockComment_block]
  · rw [not_exists] at h
    rw [read_blockComment_none h, Lexical.blockComment.eq_2 _ h]

theorem read_lineComment (r : List Char) :
    (lineComment : Peg Result Unit).read g ('/' :: '/' :: r) =
      some ((), r.dropWhile fun c => !isLineEnd c) := by
  have hopen : Scan.text "//" ('/' :: '/' :: r) = some ((), r) := text_append "//" r
  rw [lineComment, read_seqRight, Scan.bind_apply, read_text, hopen, Option.bind_some, read_map,
    read_run]
  rfl

theorem read_lineComment_none {s : List Char} (h : ∀ r, s ≠ '/' :: '/' :: r) :
    (lineComment : Peg Result Unit).read g s = none := by
  rw [lineComment, read_seqRight, read_text, Scan.bind_of_none (text_eq_none rfl h)]

theorem read_gapItem (s : List Char) : (gapItem across : Peg Result Unit).read g s =
    ((Scan.satisfy (isGapBlank across) s).map fun x => ((), x.2)).or
      (((lineComment : Peg Result Unit).read g s).or
        ((blockComment across : Peg Result Unit).read g s)) := by
  rw [gapItem, read_orElse, read_orElse, Scan.orElse_apply, Scan.orElse_apply, read_map, read_one,
    Scan.map_apply]

theorem takes_gapItem : Scan.Takes ((gapItem across : Peg Result Unit).read g) := by
  have hrun (F : Char → Bool) : Scan.Shrinks (Scan.run F) := by
    intro s a r h
    cases h
    exact (List.dropWhile_suffix F).length_le
  have hrest : Scan.Shrinks ((star (blockItem across) *> text "*/" : Peg Result Unit).read g) := by
    rw [read_seqRight, read_star, read_text]
    exact takes_blockItem.shrinks.many.bind fun _ => (Scan.Takes.text (by decide)).shrinks
  rw [gapItem, read_orElse, read_orElse, read_map, read_one, lineComment, read_seqRight, read_text,
    read_map, read_run, blockComment, read_seqRight, read_text]
  exact (takes_satisfy _).map.orElse <|
    ((Scan.Takes.text (by decide)).bind fun _ => (hrun _).map).orElse <|
    (Scan.Takes.text (by decide)).bind fun _ => hrest

theorem read_anyGap (s : List Char) :
    (anyGap across : Peg Result Unit).read g s = some ((), skip across s) := by
  have hnext {s r : List Char} (h : (gapItem across : Peg Result Unit).read g s = some ((), r))
      (ih : (anyGap across : Peg Result Unit).read g r = some ((), skip across r)) :
      (anyGap across : Peg Result Unit).read g s = some ((), skip across r) := by
    rw [anyGap, read, Scan.map_apply] at ih ⊢
    rw [Scan.many_of_some takes_gapItem h, Option.map_map, ← ih]
    rfl
  have hend {s : List Char} (h : (gapItem across : Peg Result Unit).read g s = none) :
      (anyGap across : Peg Result Unit).read g s = some ((), s) := by
    rw [anyGap, read, Scan.map_apply, Scan.many_of_none h]
    rfl
  induction s using gap_induction across with
  | nil => exact hend rfl
  | blank c r hc ih =>
      rw [skip_blank hc]
      refine hnext ?_ ih
      rw [read_gapItem, Scan.satisfy, hc]
      rfl
  | line r ih =>
      rw [skip_line]
      refine hnext ?_ ih
      rw [read_gapItem, read_lineComment]
      cases across <;> rfl
  | block r r' hr ih =>
      have hskip : skip across ('/' :: '*' :: r) = skip across r' := by rw [skip_block, hr]; rfl
      rw [hskip]
      refine hnext ?_ ih
      rw [read_gapItem, read_blockComment_block, hr, read_lineComment_none (by simp)]
      cases across <;> rfl
  | stop c r hc hline hblock =>
      rw [skip_stop hc hline hblock]
      refine hend ?_
      have hcomment : (blockComment across : Peg Result Unit).read g (c :: r) = none := by
        by_cases h : ∃ r', c = '/' ∧ r = '*' :: r'
        · obtain ⟨r', rfl, rfl⟩ := h
          rw [read_blockComment_block, hblock r' rfl rfl, Option.map_none]
        · exact read_blockComment_none fun r' heq => by
            cases heq
            exact h ⟨r', rfl, rfl⟩
      have hline' : (lineComment : Peg Result Unit).read g (c :: r) = none :=
        read_lineComment_none fun r' heq => by
          cases heq
          exact hline r' rfl rfl
      rw [read_gapItem, hcomment, hline', Scan.satisfy, hc]
      rfl

@[simp]
theorem read_gap : (gap : Peg Result Unit).read g = Lexical.gap := funext read_anyGap

@[simp]
theorem read_inlineGap : (inlineGap : Peg Result Unit).read g = Lexical.inlineGap :=
  funext read_anyGap

@[simp]
theorem read_sameLine : (sameLine : Peg Result Unit).read g = Lexical.sameLine := by
  rw [sameLine, read_seqRight, read_inlineGap, read_notNext, Lexical.sameLine]

end Gaps

section Strings

def hexDigits (n : Nat) : Peg Result Nat := numberOf 16 <$> times (one isHexDigit) n

def unitEscape : Peg Result Nat := char '\\' *> (char 'u' *> hexDigits 4)

def unitEscapes : Peg Result (List Char) :=
  (fun u us => Text.Units.decode (u :: us)) <$> unitEscape <*> star unitEscape

def escapeBody : Peg Result (List Char) :=
  (fun _ => []) <$> one isLineEnd
  <|> char 'x' *> ((fun n => [Char.ofNat n]) <$> hexDigits 2)
  <|> (fun _ => ['\x00']) <$> (char '0' *> notNext isDigit)
  <|> .satisfy fun c =>
    if isLineEnd c || c == 'u' || c == 'x' then none else some [(shortEscape? c).getD c]

def escape : Peg Result (List Char) := char '\\' *> escapeBody

def quotedPart (quote : Char) : Peg Result (List Char) :=
  run1 (isPlain quote) <|> unitEscapes <|> escape

def quotedBy (quote : Char) : Peg Result String :=
  (fun parts => String.ofList parts.flatten) <$>
    (char quote *> (star (quotedPart quote) <* char quote))

def quoted : Peg Result String := quotedBy '"' <|> quotedBy '\''

theorem read_times (F : Char → Bool) (n : Nat) (s : List Char) :
    (times (one F) n : Peg Result (List Char)).read g s =
      if (s.take n).length = n ∧ (s.take n).all F then some (s.take n, s.drop n) else none := by
  induction n generalizing s with
  | zero => simp [times, Scan.pure_apply]
  | succ n ih =>
      rw [times, read_ap, read_map, read_one, bind_map_left]
      cases s with
      | nil => rfl
      | cons c s =>
          rw [Scan.bind_apply, Scan.satisfy]
          cases hc : F c with
          | false => simp [hc]
          | true =>
              rw [if_pos rfl, Option.bind_some, Scan.bind_apply, ih]
              simp only [List.take_succ_cons, List.length_cons, Nat.add_right_cancel_iff,
                List.all_cons, hc, Bool.true_and, List.drop_succ_cons]
              split <;> rfl

@[simp]
theorem read_hexDigits (n : Nat) : (hexDigits n : Peg Result Nat).read g = Lexical.hexDigits n := by
  funext s
  rw [hexDigits, read_map, Scan.map_apply, read_times, Lexical.hexDigits]
  split <;> rfl

@[simp]
theorem read_unitEscape : (unitEscape : Peg Result Nat).read g = Lexical.unitEscape := by
  simp only [unitEscape, read_seqRight, read_char, read_hexDigits, Lexical.unitEscape]

@[simp]
theorem read_unitEscapes : (unitEscapes : Peg Result (List Char)).read g = Lexical.unitEscapes := by
  simp only [unitEscapes, Lexical.unitEscapes, read_ap, read_map, read_star, read_unitEscape,
    bind_map_left]

@[simp]
theorem read_escapeBody : (escapeBody : Peg Result (List Char)).read g = Lexical.escapeBody := by
  funext s
  rw [escapeBody, read_orElse, read_orElse, read_orElse, Scan.orElse_apply, Scan.orElse_apply,
    Scan.orElse_apply, read_map, read_one, read_seqRight, read_char, read_map, read_hexDigits,
    read_map, read_seqRight, read_char, read_notNext]
  cases s with
  | nil => rfl
  | cons c r =>
      simp only [Scan.map_apply, Scan.bind_apply, Scan.satisfy, Scan.char, read, Lexical.escapeBody]
      cases hend : isLineEnd c with
      | true => rfl
      | false =>
          by_cases hx : c = 'x'
          · subst hx
            cases hdigits : Lexical.hexDigits 2 r <;> simp [hdigits]
          by_cases hu : c = 'u'
          · subst hu
            rfl
          by_cases hzero : c = '0'
          · subst hzero
            cases r with
            | nil => rfl
            | cons d r => cases hd : isDigit d <;> simp [Scan.notNext, hd, shortEscape?]
          · simp [hx, hu, hzero]

@[simp]
theorem read_escape : (escape : Peg Result (List Char)).read g = Lexical.escape := by
  rw [escape, read_seqRight, read_char, read_escapeBody, Lexical.escape]

@[simp]
theorem read_quotedPart (quote : Char) :
    (quotedPart quote : Peg Result (List Char)).read g = Lexical.quotedPart quote := by
  simp only [quotedPart, Lexical.quotedPart, read_orElse, read_run1, read_unitEscapes, read_escape]

@[simp]
theorem read_quotedBy (quote : Char) :
    (quotedBy quote : Peg Result String).read g = Lexical.quotedBy quote := by
  simp only [quotedBy, Lexical.quotedBy, read_map, read_seqRight, read_seqLeft, read_char, read_star,
    read_quotedPart, map_eq_pure_bind, bind_assoc, pure_bind]

@[simp]
theorem read_quoted : (quoted : Peg Result String).read g = Lexical.quoted := by
  rw [quoted, read_orElse, read_quotedBy, read_quotedBy, Lexical.quoted]

end Strings

section Numerals

open Number

def wholeMantissa : Peg Result (List Char × List Char) :=
  (fun whole fraction => (whole, fraction.getD [])) <$> run1 isDigit <*>
    maybe (char '.' *> run isDigit)

def pointMantissa : Peg Result (List Char × List Char) :=
  (fun fraction => ([], fraction)) <$> (char '.' *> run1 isDigit)

def exponent : Peg Result Int :=
  (fun sign ds => if sign = some '-' then -(Numeral.exponentOf ds : Int) else Numeral.exponentOf ds)
    <$> (one (fun c => c == 'e' || c == 'E') *> maybe (one fun c => c == '+' || c == '-'))
    <*> run1 isDigit

def decimal : Peg Result Float :=
  (fun m e => Numeral.valueOf m.1 m.2 (e.getD 0)) <$> (wholeMantissa <|> pointMantissa) <*>
    maybe exponent

def hexadecimal : Peg Result Float :=
  .convert Numeral.hexValue? (char '0' *> (one (fun c => c == 'x' || c == 'X') *> run1 isHexDigit))

def numeral : Peg Result Float := (hexadecimal <|> decimal) <* notNext isNamePart

@[simp]
theorem read_wholeMantissa : (wholeMantissa : Peg Result _).read g = Numeral.wholeMantissa := by
  simp only [wholeMantissa, Numeral.wholeMantissa, read_ap, read_map, read_run1, read_maybe,
    read_seqRight, read_char, read_run, bind_map_left]

@[simp]
theorem read_pointMantissa : (pointMantissa : Peg Result _).read g = Numeral.pointMantissa := by
  simp only [pointMantissa, Numeral.pointMantissa, read_map, read_run1, read_seqRight, read_char,
    map_eq_pure_bind, bind_assoc]

@[simp]
theorem read_exponent : (exponent : Peg Result Int).read g = Numeral.exponent := by
  simp only [exponent, Numeral.exponent, read_ap, read_map, read_run1, read_maybe, read_one,
    read_seqRight, bind_map_left, bind_assoc]

@[simp]
theorem read_decimal : (decimal : Peg Result Float).read g = Numeral.decimal := by
  simp only [decimal, Numeral.decimal, read_ap, read_map, read_orElse, read_wholeMantissa,
    read_pointMantissa, read_maybe, read_exponent, bind_map_left]

@[simp]
theorem read_hexadecimal : (hexadecimal : Peg Result Float).read g = Numeral.hexadecimal := by
  simp only [hexadecimal, Numeral.hexadecimal, read, read_seqRight, read_char, read_one, read_run1,
    bind_assoc]
  refine bind_congr fun _ => bind_congr fun _ => bind_congr fun ds => ?_
  cases Numeral.hexValue? ds <;> rfl

@[simp]
theorem read_numeral : (numeral : Peg Result Float).read g = Numeral.numeral := by
  simp only [numeral, Numeral.numeral, read_seqLeft, read_orElse, read_hexadecimal, read_decimal,
    read_notNext]

end Numerals

end SmallScript.Peg
