import SmallScript.Eval.Operator
import SmallScript.Proofs.Number.Unpacked
import SmallScript.Proofs.Text.UnitOrder
import Mathlib

namespace SmallScript.Memory

section Doubles

open Float.Model

variable {x y : Float}

theorem unpacked_compare_swap (x y : UnpackedFloat) :
    y.compare x = (x.compare y).map Ordering.swap := by
  cases x with
  | notANumber => cases y <;> rfl
  | infinity s =>
      cases s <;> cases y with
      | infinity s' => cases s' <;> rfl
      | _ => rfl
  | zero s =>
      cases y with
      | infinity s' => cases s' <;> rfl
      | finite s' => cases s' <;> rfl
      | _ => rfl
  | finite s m e _ =>
      cases s <;> cases y with
      | infinity s' => cases s' <;> rfl
      | finite s' m' e' _ =>
          cases s' <;>
            simp [UnpackedFloat.compare, Ordering.swap_then, Int.compare_swap, Nat.compare_swap]
      | _ => rfl

theorem compareNumbers_eq (x y : Float) : compareNumbers x y = x.toModel.compare y.toModel := by
  have hswap : y.toModel.compare x.toModel = (x.toModel.compare y.toModel).map Ordering.swap :=
    unpacked_compare_swap _ _
  simp only [compareNumbers, Number.lt_iff_compare, Number.beq_iff_compare, hswap]
  rcases x.toModel.compare y.toModel with _ | _ | _ | _ <;> rfl

theorem compareNumbers_swap (x y : Float) :
    compareNumbers y x = (compareNumbers x y).map Ordering.swap := by
  rw [compareNumbers_eq, compareNumbers_eq]
  exact unpacked_compare_swap _ _

theorem compareNumbers_eq_eq_iff : compareNumbers x y = some .eq ↔ (x == y) = true := by
  rw [compareNumbers_eq, Number.beq_iff_compare]

theorem compareNumbers_of_isNaN (h : x.isNaN = true ∨ y.isNaN = true) : compareNumbers x y = none := by
  have hcompare {a b : UnpackedFloat} (h : a.isNaN = true ∨ b.isNaN = true) : a.compare b = none := by
    cases a <;> cases b <;> simp [UnpackedFloat.isNaN] at h <;> rfl
  rw [compareNumbers_eq]
  exact hcompare h

end Doubles

open Text

inductive Comparands where
  | texts (s t : String)
  | numbers (x y : Float)

namespace Comparands

def compare : Comparands → Option Ordering
  | texts s t => some (Units.compare s t)
  | numbers x y => compareNumbers x y

def swap : Comparands → Comparands
  | texts s t => texts t s
  | numbers x y => numbers y x

def AreEqual : Comparands → Prop
  | texts s t => s = t
  | numbers x y => (x == y) = true

def InvolveNaN : Comparands → Prop
  | texts _ _ => False
  | numbers x y => x.isNaN = true ∨ y.isNaN = true

theorem compare_swap (c : Comparands) : c.swap.compare = c.compare.map Ordering.swap := by
  cases c with
  | texts s t => exact congrArg some (Units.compare_swap s t)
  | numbers x y => exact compareNumbers_swap x y

theorem compare_eq_eq_iff {c : Comparands} : c.compare = some .eq ↔ c.AreEqual := by
  cases c with
  | texts s t => exact Option.some_inj.trans Units.compare_eq_eq_iff
  | numbers x y => exact compareNumbers_eq_eq_iff

theorem compare_of_involveNaN {c : Comparands} (h : c.InvolveNaN) : c.compare = none := by
  cases c with
  | texts s t => exact h.elim
  | numbers x y => exact compareNumbers_of_isNaN h

end Comparands

/-- Texts if both values are texts once references are converted, otherwise the numbers of what they
are converted to. -/
def comparands (m : Memory) (v w : Value) : Comparands :=
  match m.toPrimitive v, m.toPrimitive w with
  | .string s, .string t => .texts s t
  | v, w => .numbers (m.toNumber v) (m.toNumber w)

variable {m : Memory} {v w : Value}

theorem compareValues_eq (m : Memory) (v w : Value) :
    m.compareValues v w = (m.comparands v w).compare := by
  rw [compareValues, comparands]
  cases m.toPrimitive v <;> cases m.toPrimitive w <;> rfl

theorem comparands_swap (m : Memory) (v w : Value) :
    m.comparands w v = (m.comparands v w).swap := by
  rw [comparands, comparands]
  cases m.toPrimitive v <;> cases m.toPrimitive w <;> rfl

theorem compareValues_swap (m : Memory) (v w : Value) :
    m.compareValues w v = (m.compareValues v w).map Ordering.swap := by
  rw [compareValues_eq, compareValues_eq, comparands_swap, Comparands.compare_swap]

def Affirms (m : Memory) (op : BinaryOp) (v w : Value) : Prop :=
  m.binary op v w = .ok (.bool true)

def relational : List BinaryOp := [.less, .lessEq, .greater, .greaterEq]

theorem affirms_less_iff : m.Affirms .less v w ↔ m.compareValues v w = some .lt := by
  rw [Affirms, binary, inOrder]
  rcases m.compareValues v w with _ | _ | _ | _ <;> simp

theorem affirms_greater_iff : m.Affirms .greater v w ↔ m.compareValues v w = some .gt := by
  rw [Affirms, binary, inOrder]
  rcases m.compareValues v w with _ | _ | _ | _ <;> simp

theorem affirms_lessEq_iff :
    m.Affirms .lessEq v w ↔ m.Affirms .less v w ∨ (m.comparands v w).AreEqual := by
  rw [affirms_less_iff, ← Comparands.compare_eq_eq_iff, ← compareValues_eq, Affirms, binary, inOrder]
  rcases m.compareValues v w with _ | _ | _ | _ <;> simp

theorem binary_swap (m : Memory) (v w : Value) :
    m.binary .less v w = m.binary .greater w v ∧ m.binary .lessEq v w = m.binary .greaterEq w v := by
  simp only [binary, inOrder, compareValues_swap m v w]
  rcases m.compareValues v w with _ | _ | _ | _ <;> exact ⟨rfl, rfl⟩

theorem exists_binary (m : Memory) (v w : Value) {op : BinaryOp}
    (hop : op ∈ .strictEq :: relational) : ∃ b, m.binary op v w = .ok (.bool b) := by
  simp only [relational, List.mem_cons, List.not_mem_nil, or_false] at hop
  rcases hop with rfl | rfl | rfl | rfl | rfl <;> exact ⟨_, rfl⟩

theorem binary_of_involveNaN (h : (m.comparands v w).InvolveNaN) {op : BinaryOp}
    (hop : op ∈ relational) : m.binary op v w = .ok (.bool false) := by
  have hnone : m.compareValues v w = none := by
    rw [compareValues_eq, Comparands.compare_of_involveNaN h]
  simp only [relational, List.mem_cons, List.not_mem_nil, or_false] at hop
  rcases hop with rfl | rfl | rfl | rfl <;> simp only [binary, inOrder, hnone]

section Texts

variable (m) (s t : String)

/-- The operator that says so of two texts in this order. -/
def operatorFor : Ordering → BinaryOp
  | .lt => .less
  | .eq => .strictEq
  | .gt => .greater

theorem affirms_string_iff {op : BinaryOp} (hop : op ∈ [BinaryOp.less, .strictEq, .greater]) :
    m.Affirms op (.string s) (.string t) ↔ op = operatorFor (Units.compare s t) := by
  have hstrict : m.Affirms .strictEq (.string s) (.string t) ↔ Units.compare s t = .eq := by
    rw [Units.compare_eq_eq_iff]
    simp [Affirms, binary, Value.strictEquals]
  have hvalues : m.compareValues (.string s) (.string t) = some (Units.compare s t) := rfl
  simp only [List.mem_cons, List.not_mem_nil, or_false] at hop
  rcases hop with rfl | rfl | rfl
  · rw [affirms_less_iff, hvalues]
    cases Units.compare s t <;> simp [operatorFor]
  · rw [hstrict]
    cases Units.compare s t <;> simp [operatorFor]
  · rw [affirms_greater_iff, hvalues]
    cases Units.compare s t <;> simp [operatorFor]

theorem existsUnique_affirms :
    ∃! op, op ∈ [BinaryOp.less, .strictEq, .greater] ∧ m.Affirms op (.string s) (.string t) := by
  have hmem : operatorFor (Units.compare s t) ∈ [BinaryOp.less, .strictEq, .greater] := by
    cases Units.compare s t <;> simp [operatorFor]
  exact ⟨_, ⟨hmem, (affirms_string_iff m s t hmem).mpr rfl⟩,
    fun op h => (affirms_string_iff m s t h.1).mp h.2⟩

theorem affirms_less_trans {u : String} (hst : m.Affirms .less (.string s) (.string t))
    (htu : m.Affirms .less (.string t) (.string u)) : m.Affirms .less (.string s) (.string u) := by
  rw [affirms_less_iff] at *
  exact congrArg some (Units.compare_lt_trans (Option.some.inj hst) (Option.some.inj htu))

theorem lessEq_eq_not_greater : m.binary .lessEq (.string s) (.string t) =
    (m.binary .greater (.string s) (.string t)).map (m.unary .not) := by
  have hvalues : m.compareValues (.string s) (.string t) = some (Units.compare s t) := rfl
  simp only [binary, inOrder, hvalues]
  cases Units.compare s t <;> rfl

/-- What both texts begin with does not matter. -/
theorem binary_append (p : String) {op : BinaryOp} (hop : op ∈ .strictEq :: relational) :
    (do
      let v ← m.binary .add (.string p) (.string s)
      let w ← m.binary .add (.string p) (.string t)
      m.binary op v w) = m.binary op (.string s) (.string t) := by
  have hadd (u : String) : m.binary .add (.string p) (.string u) = .ok (.string (p ++ u)) := by
    obtain ⟨k, hk⟩ := m.exists_displayFuel
    simp only [binary, add, toPrimitive, display, hk, displayFrom]
  have hvalues : m.compareValues (.string (p ++ s)) (.string (p ++ t)) =
      m.compareValues (.string s) (.string t) := congrArg some (Units.compare_append p s t)
  rw [hadd, hadd]
  show m.binary op (.string (p ++ s)) (.string (p ++ t)) = m.binary op (.string s) (.string t)
  simp only [relational, List.mem_cons, List.not_mem_nil, or_false] at hop
  rcases hop with rfl | rfl | rfl | rfl | rfl
  · simp only [binary, Value.strictEquals]
    congr 2
    rw [Bool.eq_iff_iff, beq_iff_eq, beq_iff_eq, String.append_right_inj]
  all_goals simp only [binary, inOrder, hvalues]

end Texts

/-- Texts are in a linear order, with `===` for equality, which looks at what is behind a common
beginning. For values of any kind `>` and `>=` are `<` and `<=` with the operands exchanged, `<=` is
`<` or equality of what is compared, and nothing is before or behind a NaN or level with it. -/
theorem order_laws (m : Memory) :
    (∀ s t : String, ∃! op, op ∈ [BinaryOp.less, .strictEq, .greater] ∧
        m.Affirms op (.string s) (.string t)) ∧
    (∀ s t u : String, m.Affirms .less (.string s) (.string t) →
      m.Affirms .less (.string t) (.string u) → m.Affirms .less (.string s) (.string u)) ∧
    (∀ s t : String, m.binary .lessEq (.string s) (.string t) =
      (m.binary .greater (.string s) (.string t)).map (m.unary .not)) ∧
    (∀ p s t : String, ∀ op ∈ .strictEq :: relational,
      (do
        let v ← m.binary .add (.string p) (.string s)
        let w ← m.binary .add (.string p) (.string t)
        m.binary op v w) = m.binary op (.string s) (.string t)) ∧
    ∀ v w : Value, (∀ op ∈ .strictEq :: relational, ∃ b, m.binary op v w = .ok (.bool b)) ∧
      m.binary .less v w = m.binary .greater w v ∧
      m.binary .lessEq v w = m.binary .greaterEq w v ∧
      (m.Affirms .lessEq v w ↔ m.Affirms .less v w ∨ (m.comparands v w).AreEqual) ∧
      ((m.comparands v w).InvolveNaN → ∀ op ∈ relational, m.binary op v w = .ok (.bool false)) :=
  ⟨m.existsUnique_affirms, fun s t _ => m.affirms_less_trans s t, m.lessEq_eq_not_greater,
    fun p s t _ hop => m.binary_append s t p hop,
    fun v w => ⟨fun _ hop => m.exists_binary v w hop, (m.binary_swap v w).1, (m.binary_swap v w).2,
      affirms_lessEq_iff, fun h _ hop => binary_of_involveNaN h hop⟩⟩

/-- A character of two units comes before one that has a larger unit of its own, though it is the
larger character. -/
theorem order_laws_surrogates :
    empty.Affirms .less (.string "😀") (.string "\uffff") ∧
      empty.Affirms .less (.string "\uffff") (.string "\uffff!") ∧
      empty.Affirms .less (.string "😀") (.string "\uffff!") ∧
      (empty.comparands .undefined (.string "1")).InvolveNaN ∧
      empty.binary .lessEq .undefined (.string "1") = .ok (.bool false) := by
  obtain ⟨-, htrans, -, -, hvalues⟩ := order_laws empty
  have hfirst : empty.Affirms .less (.string "😀") (.string "\uffff") := by cbv
  have hsecond : empty.Affirms .less (.string "\uffff") (.string "\uffff!") := by cbv
  have hnan : Number.Double.nan.isNaN = true := by decide
  exact ⟨hfirst, hsecond, htrans _ _ _ hfirst hsecond, .inl hnan,
    (hvalues .undefined (.string "1")).2.2.2.2 (.inl hnan) _ (by simp [relational])⟩

end SmallScript.Memory
