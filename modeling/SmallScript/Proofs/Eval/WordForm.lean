import SmallScript.Proofs.Eval.Compound
import SmallScript.Proofs.Memory.Equality
import SmallScript.Proofs.Number.Word
import Mathlib

namespace SmallScript

open Number Double

inductive WordForm where
  | or
  | xor
  | shiftLeft
  | shiftRight
  | shiftRightUnsigned
  | notNot

namespace WordForm

/-- The operator that has a zero on its right. -/
def operator? : WordForm → Option BinaryOp
  | or => some .bitOr
  | xor => some .bitXor
  | shiftLeft => some .shiftLeft
  | shiftRight => some .shiftRight
  | shiftRightUnsigned => some .shiftRightUnsigned
  | notNot => none

def toExpr (form : WordForm) (e : Expr) : Expr :=
  match form.operator? with
  | some op => .binary op e (.number 0)
  | none => .unary .bitNot (.unary .bitNot e)

def apply (form : WordForm) (m : Memory) (v : Value) : Except Fault Value :=
  match form.operator? with
  | some op => m.binary op v (.number 0)
  | none => .ok (m.unary .bitNot (m.unary .bitNot v))

/-- The integer that a word is read as. -/
def read : WordForm → UInt32 → ℤ
  | shiftRightUnsigned, w => w.toNat
  | _, w => Word.signed w

section Answer

variable (form : WordForm) (m : Memory) (v : Value) (w : UInt32)

theorem toWord_zero : m.toWord (.number 0) = 0 :=
  Word.ofDouble_eq (i := 0) (value?_ofNat (n := 0) (by decide)) rfl

theorem shiftRightSigned_zero : Word.shiftRightSigned w 0 = w := by
  simp [Word.shiftRightSigned]

theorem toDouble_eq : Word.toDouble w = ofInt w.toNat := by
  rw [Word.toDouble, ofInt, Double.ofNat, Int.natAbs_natCast,
    decide_eq_false (Int.not_lt.mpr (Int.natCast_nonneg _))]

theorem value?_read : value? (ofInt (form.read w)) = some (form.read w : ℚ) := by
  cases form with
  | shiftRightUnsigned => exact toDouble_eq w ▸ Word.value?_toDouble w
  | _ => exact Word.value?_signedToDouble w

theorem toWord_read : m.toWord (.number (ofInt (form.read w))) = w := by
  cases form with
  | shiftRightUnsigned => exact toDouble_eq w ▸ Word.ofDouble_toDouble w
  | _ => exact Word.ofDouble_signedToDouble w

theorem unary_bitNot : m.unary .bitNot v = .number (ofInt (notNot.read (~~~m.toWord v))) := rfl

/-- The forms answer with the word of their operand. -/
theorem apply_eq : form.apply m v = .ok (.number (ofInt (form.read (m.toWord v)))) := by
  have hmask : (0 &&& 31 : UInt32) = 0 := rfl
  cases form with
  | or | xor | shiftLeft | shiftRight =>
      simp only [apply, operator?, read, Memory.binary, Memory.bitwise, toWord_zero, hmask,
        Word.signedToDouble, UInt32.or_zero, UInt32.xor_zero, UInt32.shiftLeft_zero,
        shiftRightSigned_zero]
  | shiftRightUnsigned =>
      simp only [apply, operator?, read, Memory.binary, toWord_zero, hmask, UInt32.shiftRight_zero,
        toDouble_eq]
  | notNot =>
      simp only [apply, operator?, unary_bitNot, toWord_read, UInt32.not_not]

theorem apply_apply (m' : Memory) : form.apply m v >>= form.apply m' = form.apply m v := by
  rw [apply_eq]
  show form.apply m' (.number (ofInt (form.read (m.toWord v)))) = _
  rw [apply_eq, toWord_read]

end Answer

end WordForm

namespace Memory

variable {m : Memory} {v : Value} {x : Float}

inductive ConvertsTo (m : Memory) : Value → Float → Prop
  | undefined : ConvertsTo m .undefined nan
  | null : ConvertsTo m .null 0
  | bool (b : Bool) : ConvertsTo m (.bool b) (if b then 1 else 0)
  | number (x : Float) : ConvertsTo m (.number x) x
  | string (s : String) : ConvertsTo m (.string s) (Reading.ofString s)
  | array {a : ArrayRef} {t : String} (ht : m.Renders m.CutsInside .display [] (.array a) t) :
      ConvertsTo m (.array a) (Reading.ofString t)
  | object {o : ObjectRef} {t : String} (ht : m.Renders m.CutsInside .display [] (.object o) t) :
      ConvertsTo m (.object o) (Reading.ofString t)
  | builtin (b : Builtin) : ConvertsTo m (.builtin b) nan
  | closure (c : ClosureRef) : ConvertsTo m (.closure c) nan

theorem ConvertsTo.eq (h : m.ConvertsTo v x) : m.toNumber v = x := by
  cases h with
  | array ht | object ht => rw [toNumber, display_of_renders ht]
  | _ => rfl

theorem exists_convertsTo (h : m.HasText v) : ∃ x, m.ConvertsTo v x := by
  obtain ⟨t, ht⟩ := h
  cases v with
  | undefined => exact ⟨_, .undefined⟩
  | null => exact ⟨_, .null⟩
  | bool b => exact ⟨_, .bool b⟩
  | number x => exact ⟨_, .number x⟩
  | string s => exact ⟨_, .string s⟩
  | array a => exact ⟨_, .array ht⟩
  | object o => exact ⟨_, .object ht⟩
  | builtin b => exact ⟨_, .builtin b⟩
  | closure c => exact ⟨_, .closure c⟩

end Memory

namespace Eval

open Effect
open Filter (atTop)

variable {host : Host} {f : FrameRef} {e : Expr} {s : State} {o : Outcome State Value}
  {form : WordForm}

section

variable {E : Evaluator}

theorem evalBinary_of_operator? {op : BinaryOp} (hop : form.operator? = some op) (l r : Expr) :
    evalBinary E f op l r =
      E.expr f l >>= fun v => E.expr f r >>= fun w => query fun m => m.binary op v w := by
  cases form <;> cases hop <;> rfl

theorem evalUnary_bitNot (e : Expr) :
    evalUnary E f .bitNot e = E.expr f e >>= fun v => look fun m => m.unary .bitNot v :=
  rfl

end

/-- A form evaluates its operand once, and then looks at the memory only. -/
theorem expr_toExpr (host : Host) (f : FrameRef) (form : WordForm) (e : Expr) :
    ∃ k, ∀ n, (evaluator host (n + k)).expr f (form.toExpr e) =
      (evaluator host (n + 1)).expr f e >>= fun v => query fun m => form.apply m v := by
  cases hop : form.operator? with
  | none =>
      refine ⟨3, fun n => ?_⟩
      simp only [WordForm.toExpr, WordForm.apply, hop]
      rw [expr_succ, evalExpr, evalUnary_bitNot, expr_succ, evalExpr, evalUnary_bitNot, bind_assoc]
      exact congrArg ((evaluator host (n + 1)).expr f e >>= ·) (funext fun v => rfl)
  | some op =>
      refine ⟨2, fun n => ?_⟩
      simp only [WordForm.toExpr, WordForm.apply, hop]
      rw [expr_succ, evalExpr, evalBinary_of_operator? hop, expr_succ n f (.number 0)]
      exact congrArg ((evaluator host (n + 1)).expr f e >>= ·) (funext fun v => rfl)

theorem settles_toExpr_iff : Settles host f (form.toExpr e) s o ↔
    ∃ o', Settles host f e s o' ∧ o = o'.bind fun v s' => ofExcept (form.apply s'.memory v) s' := by
  obtain ⟨k, hk⟩ := expr_toExpr host f form e
  have hbind (n : Nat) : (evaluator host (n + k)).expr f (form.toExpr e) s =
      ((evaluator host (n + 1)).expr f e s).bind fun v s' =>
        ofExcept (form.apply s'.memory v) s' := by
    rw [hk, bind_apply]
    rfl
  rw [settles_iff_of_add k]
  simp only [hbind]
  constructor
  · rintro ⟨ho, h⟩
    obtain ⟨n, rfl⟩ := h.exists
    refine ⟨_, ⟨fun hnone => ho ?_, n + 1, rfl⟩, rfl⟩
    rw [hnone]
    rfl
  · rintro ⟨o', h, rfl⟩
    obtain ⟨ho', h⟩ := (settles_iff_of_add 1).mp h
    refine ⟨?_, h.mono fun n hn => by rw [hn]⟩
    cases o' with
    | done v s' =>
        rw [Outcome.bind, WordForm.apply_eq]
        intro h
        cases h
    | fail e s' =>
        intro h
        cases h
    | exhausted => exact (ho' rfl).elim

/-- A second form of the same kind around the first one does nothing more. -/
theorem settleAlike_toExpr :
    SettleAlike host f s (form.toExpr (form.toExpr e)) (form.toExpr e) := by
  intro o
  have htwice (o' : Outcome State Value) :
      ((o'.bind fun v s' => ofExcept (form.apply s'.memory v) s').bind fun v s' =>
        ofExcept (form.apply s'.memory v) s') =
          o'.bind fun v s' => ofExcept (form.apply s'.memory v) s' := by
    cases o' with
    | done v s' =>
        have h := form.apply_apply s'.memory v s'.memory
        rw [form.apply_eq] at h
        simp only [Outcome.bind, form.apply_eq s'.memory v, Effect.ofExcept]
        exact congrArg (ofExcept · s') h
    | fail e s' => rfl
    | exhausted => rfl
  rw [settles_toExpr_iff]
  constructor
  · rintro ⟨o', h, rfl⟩
    obtain ⟨o'', h', rfl⟩ := settles_toExpr_iff.mp h
    rwa [htwice]
  · intro h
    obtain ⟨o', h', rfl⟩ := settles_toExpr_iff.mp h
    exact ⟨_, h, (htwice o').symm⟩

/-- The word of a finite double is its whole part modulo `2 ^ 32`, with or without a sign, and that
of any other double is zero. `v | 0`, `v ^ 0`, `v << 0`, `v >> 0` and `~~v` give the signed word of
the number that `v` is converted to, and `v >>> 0` gives the unsigned one. A second form of the same
kind changes nothing. -/
theorem word_forms :
    (∀ x : Float, x.isFinite = true → ∃ q, value? x = some q ∧
      ((Word.ofDouble x).toNat : ℤ) = towardZero q % 2 ^ 32 ∧
      Word.signed (Word.ofDouble x) ≡ towardZero q [ZMOD 2 ^ 32]) ∧
    (∀ x : Float, x.isFinite = false →
      (Word.ofDouble x).toNat = 0 ∧ Word.signed (Word.ofDouble x) = 0) ∧
    (∀ w : UInt32, w.toNat < 2 ^ 32 ∧ -2 ^ 31 ≤ Word.signed w ∧ Word.signed w < 2 ^ 31) ∧
    (∀ (m : Memory) (v : Value), (m.HasText v → ∃ x, m.ConvertsTo v x) ∧
      ∀ x, m.ConvertsTo v x → ∀ form : WordForm,
        form.apply m v = .ok (.number (ofInt (form.read (Word.ofDouble x)))) ∧
        value? (ofInt (form.read (Word.ofDouble x))) = some (form.read (Word.ofDouble x) : ℚ) ∧
        ∀ m', form.apply m v >>= form.apply m' = form.apply m v) ∧
    ∀ (host : Host) (f : FrameRef) (e : Expr) (s : State) (form : WordForm),
      (∀ v s', Settles host f e s (.done v s') → ∃ w, form.apply s'.memory v = .ok w ∧
        Settles host f (form.toExpr e) s (.done w s')) ∧
      SettleAlike host f s (form.toExpr (form.toExpr e)) (form.toExpr e) := by
  refine ⟨fun x hx => ?_, fun x hx => ?_, fun w => ⟨w.toNat_lt, ?_⟩, fun m v => ⟨?_, ?_⟩,
    fun host f e s form => ⟨fun v s' h => ?_, settleAlike_toExpr⟩⟩
  · obtain ⟨q, hq⟩ := Option.isSome_iff_exists.mp (isFinite_eq x ▸ hx)
    have hword := Word.toNat_ofDouble hq
    refine ⟨q, hq, hword, ?_⟩
    rw [Int.ModEq, ← hword]
    exact Word.signed_emod _
  · rw [Word.ofDouble_of_not_isFinite hx]
    exact ⟨rfl, rfl⟩
  · exact Word.signed_bounds w
  · exact Memory.exists_convertsTo
  · intro x hx form
    have hword : m.toWord v = Word.ofDouble x := congrArg Word.ofDouble hx.eq
    rw [← hword]
    exact ⟨form.apply_eq m v, form.value?_read _, form.apply_apply m v⟩
  · refine ⟨_, form.apply_eq s'.memory v, settles_toExpr_iff.mpr ⟨_, h, ?_⟩⟩
    rw [Outcome.bind, form.apply_eq]
    rfl

/-- A list of one text: the number it is read as has a fraction, and a whole part that is below all
signed words. -/
theorem word_forms_text :
    let x := Float.ofBits 0xC1E0000000300000
    let host : Host := ⟨8, fun _ => none⟩
    let e : Expr := .array [.string "-2147483649.5"]
    let s : State := ⟨.empty, "", 0, 0⟩
    let s' : State := ⟨⟨#[#[.string "-2147483649.5"]], #[], #[], #[]⟩, "", 0, 0⟩
    x.isFinite = true ∧ infinity.isFinite = false ∧ s'.memory.HasText (.array 0) ∧
      s'.memory.ConvertsTo (.array 0) x ∧ Settles host 0 e s (.done (.array 0) s') ∧
      (∃ q, value? x = some q ∧ (2147483647 : ℤ) = towardZero q % 2 ^ 32) ∧
      Word.signed (Word.ofDouble infinity) = 0 ∧
      Settles host 0 (WordForm.or.toExpr e) s (.done (.number (ofInt 2147483647)) s') ∧
      SettleAlike host 0 s (WordForm.or.toExpr (WordForm.or.toExpr e)) (WordForm.or.toExpr e) := by
  intro x host e s s'
  have htext : s'.memory.Renders s'.memory.CutsInside .display [] (.array 0) "-2147483649.5" := by
    refine .full (fun _ => "-2147483649.5") (fun h => List.not_mem_nil h.1) (fun h => by cases h)
      fun w hw => ?_
    obtain rfl : w = .string "-2147483649.5" := by
      simpa [Memory.parts, Memory.arrayAt, s', Value.isNullish] using hw
    exact .full (fun _ => "") And.right (fun h => by cases h) fun w hw => (List.not_mem_nil hw).elim
  have hread : Reading.ofString "-2147483649.5" = x := by decide +kernel
  have hx : s'.memory.ConvertsTo (.array 0) x := hread ▸ .array htext
  have hfinite : x.isFinite = true := by decide +kernel
  have hinfinity : infinity.isFinite = false := by decide +kernel
  have hword : Word.ofDouble x = 2147483647 := by decide +kernel
  have he : Settles host 0 e s (.done (.array 0) s') := ⟨(fun h => by cases h), 3, rfl⟩
  obtain ⟨hwhole, hzero, -, hforms, heval⟩ := word_forms
  obtain ⟨q, hq, hqword, -⟩ := hwhole x hfinite
  obtain ⟨happly, -, -⟩ := (hforms s'.memory (.array 0)).2 x hx .or
  obtain ⟨hor, hagain⟩ := heval host 0 e s .or
  obtain ⟨_, hw, hor⟩ := hor _ s' he
  rw [happly] at hw
  cases hw
  rw [hword] at hqword hor
  exact ⟨hfinite, hinfinity, ⟨_, htext⟩, hx, he, ⟨q, hq, hqword⟩, (hzero infinity hinfinity).2,
    hor, hagain⟩

end Eval

end SmallScript
