import SmallScript.Proofs.Lexical.Literal

namespace SmallScript.Lexical

open Scan

def shortEscapes : List (Char × Char) :=
  [('0', '\x00'), ('t', '\t'), ('n', '\n'), ('r', '\r'), ('b', '\x08'), ('f', '\x0c'), ('v', '\x0b')]

/-- The number `n` in `k` hexadecimal digits. -/
structure HexOf (k n : Nat) (ds : List Char) : Prop where
  length : ds.length = k
  digits : ∀ d ∈ ds, isHexDigit d = true
  value : numberOf 16 ds = n

/-- UTF-16 units, each written with four digits. -/
inductive UnitsOf : List Nat → List Char → Prop where
  | nil : UnitsOf [] []
  | cons {u : Nat} {us : List Nat} {d w : List Char} (hd : HexOf 4 u d) (h : UnitsOf us w) :
      UnitsOf (u :: us) ('\\' :: 'u' :: (d ++ w))

/-- The ways to write a character between quotes `q`. -/
inductive Writes (q : Char) : Char → List Char → Prop where
  | raw (c : Char) (hplain : c ≠ '\\' ∧ c ≠ q ∧ c ≠ '\n' ∧ c ≠ '\r') : Writes q c [c]
  | short {e c : Char} (h : (e, c) ∈ shortEscapes) : Writes q c ['\\', e]
  | backslash (c : Char) (hline : isLineEnd c = false)
      (hletter : c ∉ ['0', 'b', 'f', 'n', 'r', 't', 'u', 'v', 'x']) : Writes q c ['\\', c]
  | byte {c : Char} {ds : List Char} (h : HexOf 2 c.toNat ds) : Writes q c ('\\' :: 'x' :: ds)
  | units {c : Char} {w : List Char} (h : UnitsOf (Text.Units.ofChar c) w) : Writes q c w

/-- Characters, and a way to write them between quotes `q`. The line may be broken anywhere between
them, and no digit stands behind the escape of NUL. -/
inductive Written (q : Char) : List Char → List Char → Prop where
  | nil : Written q [] []
  | char {c : Char} {w cs s : List Char} (hw : Writes q c w)
      (hzero : w = ['\\', '0'] → ∀ d r, s = d :: r → isDigit d = false) (h : Written q cs s) :
      Written q (c :: cs) (w ++ s)
  | continued (e : Char) (he : isLineEnd e = true) {cs s : List Char} (h : Written q cs s) :
      Written q cs ('\\' :: e :: s)

variable {q : Char} {us : List Nat} {cs ds s w r : List Char}

theorem HexOf.hexDigits {k n : Nat} (h : HexOf k n ds) (r : List Char) :
    hexDigits k (ds ++ r) = some (n, r) := by
  have htake : (ds ++ r).take k = ds := h.length ▸ List.take_left
  have hdrop : (ds ++ r).drop k = r := h.length ▸ List.drop_left
  simp only [Lexical.hexDigits, htake, hdrop]
  rw [if_pos ⟨h.length, List.all_eq_true.mpr h.digits⟩, h.value]

theorem unitEscape_units {u : Nat} (h : HexOf 4 u ds) (r : List Char) :
    unitEscape ('\\' :: 'u' :: (ds ++ r)) = some (u, r) := by
  rw [unitEscape, bind_of_some (char_self _ _), bind_of_some (char_self _ _), h.hexDigits]

theorem unitEscape_eq_none (h : ∀ u, s ≠ '\\' :: 'u' :: u) : unitEscape s = none := by
  rw [Option.eq_none_iff_forall_ne_some]
  intro x hx
  rw [unitEscape] at hx
  obtain ⟨_, s₁, h₁, hx⟩ := bind_eq_some hx
  obtain ⟨_, s₂, h₂, -⟩ := bind_eq_some hx
  rw [eq_cons_of_char h₂] at h₁
  exact h _ (eq_cons_of_char h₁)

theorem takes_unitEscape : Takes unitEscape :=
  takes_of_content fun n => Content.unitEscape n (.inl rfl)

theorem many_unitEscape (h : UnitsOf us w) (hr : ∀ u, r ≠ '\\' :: 'u' :: u) :
    many unitEscape (w ++ r) = some (us, r) := by
  induction h with
  | nil => exact many_of_none (unitEscape_eq_none hr)
  | cons hd _ ih =>
      rw [List.cons_append, List.cons_append, List.append_assoc,
        many_of_some takes_unitEscape (unitEscape_units hd _), ih]
      rfl

theorem unitEscapes_units (h : UnitsOf us w) (hne : us ≠ []) (hr : ∀ u, r ≠ '\\' :: 'u' :: u) :
    unitEscapes (w ++ r) = some (Text.Units.decode us, r) := by
  cases h with
  | nil => exact (hne rfl).elim
  | cons hd h =>
      rw [List.cons_append, List.cons_append, List.append_assoc, unitEscapes,
        bind_of_some (unitEscape_units hd _), bind_of_some (many_unitEscape h hr)]
      rfl

theorem UnitsOf.append {us' : List Nat} {w' : List Char} (h : UnitsOf us w) (h' : UnitsOf us' w') :
    UnitsOf (us ++ us') (w ++ w') := by
  induction h with
  | nil => exact h'
  | cons hd _ ih =>
      rw [List.cons_append, List.cons_append, List.cons_append, List.append_assoc]
      exact .cons hd ih

theorem UnitsOf.front (h : UnitsOf us w) (hne : us ≠ []) : ∃ u, w = '\\' :: 'u' :: u := by
  cases h with
  | nil => exact (hne rfl).elim
  | cons => exact ⟨_, rfl⟩

theorem ofChar_ne_nil (c : Char) : Text.Units.ofChar c ≠ [] := by
  rw [Text.Units.ofChar]
  split <;> exact nofun

theorem isPlain_iff {c : Char} :
    isPlain q c = true ↔ c ≠ '\\' ∧ c ≠ q ∧ c ≠ '\n' ∧ c ≠ '\r' := by
  simp only [isPlain, Bool.and_eq_true, bne_iff_ne, and_assoc]

theorem isPlain_backslash : isPlain q '\\' = false := rfl

theorem quotedPart_backslash (h : ∀ u, s ≠ 'u' :: u) :
    quotedPart q ('\\' :: s) = escapeBody s := by
  have hrun : run1 (isPlain q) ('\\' :: s) = none := by
    rw [run1, isPlain_backslash, if_neg Bool.false_ne_true]
  have hunits : unitEscapes ('\\' :: s) = none :=
    bind_of_none (unitEscape_eq_none fun u hu => h u (List.cons.inj hu).2)
  rw [quotedPart, orElse_of_none hrun, orElse_of_none hunits, escape, bind_of_some (char_self _ _)]

theorem escapeBody_other {c : Char} (hline : isLineEnd c = false)
    (hletter : c ∉ ['0', 'b', 'f', 'n', 'r', 't', 'u', 'v', 'x']) (r : List Char) :
    escapeBody (c :: r) = some ([c], r) := by
  simp only [List.mem_cons, List.not_mem_nil, or_false, not_or] at hletter
  obtain ⟨hzero, hb, hf, hn, hr, ht, hu, hv, hx⟩ := hletter
  have hshort : shortEscape? c = none := by
    unfold shortEscape?
    split <;> first | rfl | contradiction
  simp only [escapeBody, hline, Bool.false_eq_true, if_false, hu, hx, hzero, hshort, Option.getD_none]

theorem escapeBody_short {e c : Char} (h : (e, c) ∈ shortEscapes)
    (hzero : e = '0' → ∀ d u, r = d :: u → isDigit d = false) :
    escapeBody (e :: r) = some ([c], r) := by
  simp only [shortEscapes, List.mem_cons, Prod.mk.injEq, List.not_mem_nil, or_false] at h
  rcases h with ⟨rfl, rfl⟩ | ⟨rfl, rfl⟩ | ⟨rfl, rfl⟩ | ⟨rfl, rfl⟩ | ⟨rfl, rfl⟩ | ⟨rfl, rfl⟩ | ⟨rfl, rfl⟩
  · cases r with
    | nil => rfl
    | cons d u => exact if_neg (by rw [hzero rfl d u rfl]; exact Bool.false_ne_true)
  all_goals rfl

theorem escapeBody_byte {c : Char} (h : HexOf 2 c.toNat ds) (r : List Char) :
    escapeBody ('x' :: (ds ++ r)) = some ([c], r) := by
  have hvalue : escapeBody ('x' :: (ds ++ r)) =
      (hexDigits 2 (ds ++ r)).map fun x => ([Char.ofNat x.1], x.2) := rfl
  rw [hvalue, h.hexDigits, Option.map_some]
  simp only [Char.ofNat_toNat]

theorem ne_u_of_short {e c : Char} (h : (e, c) ∈ shortEscapes) : e ≠ 'u' := by
  rintro rfl
  simp [shortEscapes] at h

namespace Written

/-- A string starts with a run of characters that stand for themselves, behind which it goes on with
an escape or ends. -/
theorem plain_run (h : Written q cs s) : ∃ ps cs' s', cs = ps ++ cs' ∧ s = ps ++ s' ∧
    (∀ c ∈ ps, isPlain q c = true) ∧ (∀ c u, s' = c :: u → isPlain q c = false) ∧
    Written q cs' s' := by
  have hnone {cs s u : List Char} (h : Written q cs s) (hs : s = '\\' :: u) :
      ∃ ps cs' s', cs = ps ++ cs' ∧ s = ps ++ s' ∧ (∀ c ∈ ps, isPlain q c = true) ∧
        (∀ c u, s' = c :: u → isPlain q c = false) ∧ Written q cs' s' := by
    refine ⟨[], cs, s, rfl, rfl, nofun, ?_, h⟩
    rw [hs]
    rintro _ _ ⟨⟩
    rfl
  induction h with
  | nil => exact ⟨[], [], [], rfl, rfl, nofun, nofun, .nil⟩
  | continued e he h => exact hnone (.continued e he h) rfl
  | @char c w cs s hw hzero h ih =>
      cases hw with
      | raw _ hplain =>
          obtain ⟨ps, cs', s', rfl, rfl, hps, hstop, h'⟩ := ih
          exact ⟨c :: ps, cs', s', rfl, rfl, List.forall_mem_cons.mpr ⟨isPlain_iff.mpr hplain, hps⟩,
            hstop, h'⟩
      | short he => exact hnone (.char (.short he) hzero h) rfl
      | backslash _ hline hletter => exact hnone (.char (.backslash c hline hletter) hzero h) rfl
      | byte hd => exact hnone (.char (.byte hd) hzero h) rfl
      | units hu =>
          obtain ⟨u, rfl⟩ := hu.front (ofChar_ne_nil c)
          exact hnone (.char (.units hu) hzero h) rfl

/-- A string starts with a run of escapes of units, which are those of whole characters. -/
theorem unit_run (h : Written q cs s) : ∃ vs w cs' s', UnitsOf (Text.Units.encode vs) w ∧
    cs = vs ++ cs' ∧ s = w ++ s' ∧ (∀ u, s' ≠ '\\' :: 'u' :: u) ∧ Written q cs' s' := by
  have hnone {cs s : List Char} (h : Written q cs s) (hs : ∀ u, s ≠ '\\' :: 'u' :: u) :
      ∃ vs w cs' s', UnitsOf (Text.Units.encode vs) w ∧ cs = vs ++ cs' ∧ s = w ++ s' ∧
        (∀ u, s' ≠ '\\' :: 'u' :: u) ∧ Written q cs' s' :=
    ⟨[], [], cs, s, .nil, rfl, rfl, hs, h⟩
  induction h with
  | nil => exact hnone .nil nofun
  | continued e he h =>
      refine hnone (.continued e he h) ?_
      rintro u ⟨⟩
      cases he
  | @char c w cs s hw hzero h ih =>
      cases hw with
      | raw _ hplain =>
          exact hnone (.char (.raw c hplain) hzero h) fun u hu => hplain.1 (List.cons.inj hu).1
      | short he =>
          refine hnone (.char (.short he) hzero h) fun u hu => ?_
          exact ne_u_of_short he (List.cons.inj (List.cons.inj hu).2).1
      | backslash _ hline hletter =>
          refine hnone (.char (.backslash c hline hletter) hzero h) ?_
          rintro u ⟨⟩
          exact hletter (by decide)
      | byte hd => exact hnone (.char (.byte hd) hzero h) nofun
      | units hu =>
          obtain ⟨vs, w', cs', s', hw', rfl, rfl, hstop, h'⟩ := ih
          exact ⟨c :: vs, w ++ w', cs', s', hu.append hw', rfl, (List.append_assoc ..).symm, hstop, h'⟩

theorem behind {p : Char → Bool} (hquote : p q = false) (hs : ∀ d u, s = d :: u → p d = false)
    (r : List Char) : ∀ d u, s ++ q :: r = d :: u → p d = false := by
  cases s with
  | nil =>
      rintro _ _ ⟨⟩
      exact hquote
  | cons c s =>
      rintro _ _ ⟨⟩
      exact hs c s rfl

theorem ne_unit (hq : IsQuote q) (hs : ∀ u, s ≠ '\\' :: 'u' :: u) (r : List Char) :
    ∀ u, s ++ q :: r ≠ '\\' :: 'u' :: u := by
  match s with
  | [] =>
      rintro u ⟨⟩
      rcases hq with h | h <;> cases h
  | [c] =>
      rintro u ⟨⟩
      rcases hq with h | h <;> cases h
  | c :: c' :: s =>
      rintro u ⟨⟩
      exact hs s rfl

/-- Whatever stands at the front of a string is read, and a string stands behind it. -/
theorem front (hq : IsQuote q) (h : Written q cs s) (r : List Char) : cs = [] ∧ s = [] ∨
    ∃ v cs' s', cs = v ++ cs' ∧ s'.length < s.length ∧ Written q cs' s' ∧
      quotedPart q (s ++ q :: r) = some (v, s' ++ q :: r) := by
  cases h with
  | nil => exact .inl ⟨rfl, rfl⟩
  | continued e he h =>
      refine .inr ⟨[], cs, _, rfl, Nat.lt_succ_of_lt (Nat.lt_succ_self _), h, ?_⟩
      rw [List.cons_append, List.cons_append, quotedPart_backslash (by rintro u ⟨⟩; cases he)]
      exact if_pos he
  | @char c w cs s hw hzero h =>
      refine .inr ?_
      have hone {e : Char} {d : List Char} (he : e ≠ 'u')
          (hbody : escapeBody (e :: (d ++ (s ++ q :: r))) = some ([c], s ++ q :: r)) :
          ∃ v cs' s', c :: cs = v ++ cs' ∧ s'.length < ('\\' :: e :: (d ++ s)).length ∧
            Written q cs' s' ∧
            quotedPart q ('\\' :: e :: (d ++ s) ++ q :: r) = some (v, s' ++ q :: r) := by
        refine ⟨[c], cs, s, rfl, ?_, h, ?_⟩
        · simp only [List.length_cons, List.length_append]
          omega
        · rw [List.cons_append, List.cons_append, List.append_assoc,
            quotedPart_backslash fun u hu => he (List.cons.inj hu).1, hbody]
      cases hw with
      | raw _ hplain =>
          obtain ⟨ps, cs', s', rfl, rfl, hps, hstop, h'⟩ := h.plain_run
          have hrun : run1 (isPlain q) (c :: ps ++ (s' ++ q :: r)) = some (c :: ps, s' ++ q :: r) := by
            refine run1_append (List.cons_ne_nil c ps)
              (List.forall_mem_cons.mpr ⟨isPlain_iff.mpr hplain, hps⟩) ?_
            exact behind (p := isPlain q) (by simp [isPlain]) hstop r
          refine ⟨c :: ps, cs', s', rfl, ?_, h', ?_⟩
          · simp only [List.length_append, List.length_cons]
            omega
          · rw [List.append_assoc, List.append_assoc]
            exact orElse_of_some hrun
      | @short e _ he =>
          refine hone (d := []) (ne_u_of_short he) (escapeBody_short he ?_)
          rintro rfl
          exact behind (by rcases hq with rfl | rfl <;> rfl) (hzero rfl) r
      | backslash _ hline hletter =>
          refine hone (d := []) ?_ (escapeBody_other hline hletter _)
          rintro rfl
          exact hletter (by decide)
      | byte hd => exact hone (by decide) (escapeBody_byte hd _)
      | units hu =>
          obtain ⟨vs, w', cs', s', hw', rfl, rfl, hstop, h'⟩ := h.unit_run
          have hunits : UnitsOf (Text.Units.encode (c :: vs)) (w ++ w') := hu.append hw'
          have hne : Text.Units.encode (c :: vs) ≠ [] :=
            fun h => ofChar_ne_nil c (List.append_eq_nil_iff.mp h).1
          have hread := unitEscapes_units (r := s' ++ q :: r) hunits hne (ne_unit hq hstop r)
          rw [Text.Units.decode_encode] at hread
          obtain ⟨u, hfront⟩ := hunits.front hne
          have hrun : run1 (isPlain q) (w ++ w' ++ (s' ++ q :: r)) = none := by
            rw [hfront, List.cons_append, run1, isPlain_backslash, if_neg Bool.false_ne_true]
          refine ⟨c :: vs, cs', s', rfl, ?_, h', ?_⟩
          · have hlength := congrArg List.length hfront
            simp only [List.length_append, List.length_cons] at hlength ⊢
            omega
          · rw [← List.append_assoc w, List.append_assoc (w ++ w')]
            exact (orElse_of_none hrun).trans (orElse_of_some hread)

theorem parts (hq : IsQuote q) (h : Written q cs s) (r : List Char) :
    ∃ parts, many (quotedPart q) (s ++ q :: r) = some (parts, q :: r) ∧ parts.flatten = cs := by
  induction hn : s.length using Nat.strongRecOn generalizing cs s with
  | ind n ih =>
    subst hn
    rcases h.front hq r with ⟨rfl, rfl⟩ | ⟨v, cs', s', rfl, hlength, h', hv⟩
    · refine ⟨[], many_of_none ?_, rfl⟩
      rcases hq with rfl | rfl <;> rfl
    · obtain ⟨parts, hparts, hflatten⟩ := ih _ hlength h' rfl
      refine ⟨v :: parts, ?_, by rw [List.flatten_cons, hflatten]⟩
      rw [many_of_some (takes_quotedPart hq) hv, hparts, Option.map_some]

end Written

/-- In whichever way characters are written between two quotes, a string of these characters is read
there, and nothing behind it. -/
theorem quoted_written (hq : IsQuote q) (h : Written q cs s) (r : List Char) :
    quoted (q :: (s ++ q :: r)) = some (String.ofList cs, r) := by
  obtain ⟨parts, hparts, hflatten⟩ := h.parts hq r
  have hread : quotedBy q (q :: (s ++ q :: r)) = some (String.ofList cs, r) := by
    rw [quotedBy, bind_of_some (char_self _ _), bind_of_some hparts, bind_of_some (char_self _ _),
      hflatten]
    rfl
  rcases hq with rfl | rfl
  · exact orElse_of_some hread
  · exact (orElse_of_none rfl).trans hread

/-- A digit behind NUL on the next line, and a pair of surrogates. -/
theorem quoted_written_surrogates :
    IsQuote '\'' ∧ Written '\'' ['\x00', '1', '\u2028', '😀'] "\\0\\\n1\u2028\\ud83D\\uDe00".toList ∧
      quoted "'\\0\\\n1\u2028\\ud83D\\uDe00'.length".toList =
        some (String.ofList ['\x00', '1', '\u2028', '😀'], ".length".toList) := by
  have hpair : Writes '\'' '😀' "\\ud83D\\uDe00".toList := by
    refine .units ?_
    rw [show Text.Units.ofChar '😀' = [0xD83D, 0xDE00] by decide]
    exact .cons (d := "d83D".toList) ⟨rfl, List.all_eq_true.mp rfl, by cbv⟩
      (.cons (d := "De00".toList) (w := []) ⟨rfl, List.all_eq_true.mp rfl, by cbv⟩ .nil)
  have h : Written '\'' ['\x00', '1', '\u2028', '😀'] "\\0\\\n1\u2028\\ud83D\\uDe00".toList :=
    .char (w := ['\\', '0']) (.short (by decide)) (by rintro - _ _ ⟨⟩; rfl) <| .continued '\n' rfl <|
      .char (.raw '1' (by decide)) nofun <| .char (.raw '\u2028' (by decide)) nofun <|
      .char hpair nofun .nil
  exact ⟨.inr rfl, h, quoted_written (.inr rfl) h ".length".toList⟩

end SmallScript.Lexical
