import SmallScript.Tree

namespace SmallScript

namespace BinaryOp

def binding : BinaryOp → Nat
  | mul | div | rem => 10
  | add | sub => 9
  | shiftLeft | shiftRight | shiftRightUnsigned => 8
  | less | lessEq | greater | greaterEq => 7
  | looseEq | looseNe | strictEq | strictNe => 6
  | bitAnd => 5
  | bitXor => 4
  | bitOr => 3
  | and => 2
  | or => 1

end BinaryOp

namespace Expr

/-- Operands and operators from left to right. Only binary expressions are taken apart. -/
def inorder : Expr → List (Expr ⊕ BinaryOp)
  | binary op l r => l.inorder ++ .inr op :: r.inorder
  | e => [.inl e]

def root? : Expr → Option BinaryOp
  | binary op _ _ => some op
  | _ => none

/-- No left child binds looser than its parent, and every right child binds tighter. -/
def Grouped : Expr → Prop
  | binary op l r => (∀ o ∈ l.root?, op.binding ≤ o.binding) ∧
      (∀ o ∈ r.root?, op.binding < o.binding) ∧ l.Grouped ∧ r.Grouped
  | _ => True

variable {t t' l r : Expr} {op : BinaryOp}

theorem inorder_of_root? (h : t.root? = none) : t.inorder = [.inl t] := by
  cases t <;> first | rfl | cases h

theorem Grouped.of_root? (h : t.root? = none) : t.Grouped := by
  cases t <;> first | exact trivial | cases h

theorem root?_of_ne_binary (h : ∀ op l r, t = binary op l r → False) : t.root? = none := by
  cases t <;> first | rfl | exact (h _ _ _ rfl).elim

theorem Grouped.root_le (h : t.Grouped) :
    ∀ o ∈ t.root?, ∀ o', .inr o' ∈ t.inorder → o.binding ≤ o'.binding := by
  induction t using inorder.induct with
  | case1 op l r ihl ihr =>
      obtain ⟨hleft, hright, hl, hr⟩ := h
      rintro _ ⟨⟩ o' ho'
      rw [inorder, List.mem_append, List.mem_cons] at ho'
      have hchild {c : Expr} (hc : ∀ o ∈ c.root?, ∀ o', .inr o' ∈ c.inorder → o.binding ≤ o'.binding)
          (hroot : ∀ o ∈ c.root?, op.binding ≤ o.binding) (ho : .inr o' ∈ c.inorder) :
          op.binding ≤ o'.binding := by
        cases hr : c.root? with
        | none =>
            rw [inorder_of_root? hr, List.mem_singleton] at ho
            cases ho
        | some o => exact Nat.le_trans (hroot o hr) (hc o hr o' ho)
      rcases ho' with ho' | ho' | ho'
      · exact hchild (ihl hl) hleft ho'
      · cases ho'
        exact Nat.le_refl _
      · exact hchild (ihr hr) (fun o ho => Nat.le_of_lt (hright o ho)) ho'
  | case2 t ht =>
      rw [root?_of_ne_binary ht]
      exact nofun

theorem Grouped.left_le (h : (binary op l r).Grouped) :
    ∀ o, .inr o ∈ l.inorder → op.binding ≤ o.binding := by
  intro o ho
  exact h.root_le op rfl o (by rw [inorder]; exact List.mem_append_left _ ho)

theorem Grouped.lt_right (h : (binary op l r).Grouped) :
    ∀ o, .inr o ∈ r.inorder → op.binding < o.binding := by
  intro o ho
  obtain ⟨-, hright, -, hr⟩ := h
  cases hroot : r.root? with
  | none =>
      rw [inorder_of_root? hroot, List.mem_singleton] at ho
      cases ho
  | some o' => exact Nat.lt_of_lt_of_le (hright o' hroot) (hr.root_le o' hroot o ho)

theorem inorder_binary_ne (op : BinaryOp) (l r e : Expr) : (binary op l r).inorder ≠ [.inl e] := by
  intro h
  have hmem : Sum.inr op ∈ [(.inl e : Expr ⊕ BinaryOp)] := by
    rw [← h, inorder]
    exact List.mem_append_right _ List.mem_cons_self
  rw [List.mem_singleton] at hmem
  cases hmem

/-- There is one grouped tree for each order of operands and operators. -/
theorem Grouped.unique (h : t.Grouped) (h' : t'.Grouped) (heq : t.inorder = t'.inorder) :
    t = t' := by
  induction t using inorder.induct generalizing t' with
  | case1 op l r ihl ihr =>
      cases hroot : t'.root? with
      | none =>
          rw [inorder_of_root? hroot] at heq
          exact (inorder_binary_ne op l r t' heq).elim
      | some op' =>
          cases t' with
          | binary op'' l' r' =>
              cases hroot
              rw [inorder, inorder] at heq
              rcases List.append_eq_append_iff.mp heq with ⟨as, hl, hr⟩ | ⟨as, hl, hr⟩
              · cases as with
                | nil =>
                    rw [List.nil_append, List.cons.injEq, Sum.inr.injEq] at hr
                    rw [List.append_nil] at hl
                    rw [ihl h.2.2.1 h'.2.2.1 hl.symm, ihr h.2.2.2 h'.2.2.2 hr.2, hr.1]
                | cons a as =>
                    -- the root on either side would lie within a child on the other
                    rw [List.cons_append, List.cons.injEq] at hr
                    have hle := h'.left_le op (by rw [hl, hr.1]; simp)
                    have hlt := h.lt_right op' (by rw [hr.2]; simp)
                    omega
              · cases as with
                | nil =>
                    rw [List.nil_append, List.cons.injEq, Sum.inr.injEq] at hr
                    rw [List.append_nil] at hl
                    rw [ihl h.2.2.1 h'.2.2.1 hl, ihr h.2.2.2 h'.2.2.2 hr.2.symm, hr.1]
                | cons a as =>
                    rw [List.cons_append, List.cons.injEq] at hr
                    have hle := h.left_le op' (by rw [hl, hr.1]; simp)
                    have hlt := h'.lt_right op (by rw [hr.2]; simp)
                    omega
          | _ => cases hroot
  | case2 t ht =>
      have hleaf := inorder_of_root? (root?_of_ne_binary ht)
      cases hroot : t'.root? with
      | none =>
          rw [hleaf, inorder_of_root? hroot, List.cons.injEq, Sum.inl.injEq] at heq
          exact heq.1
      | some op' =>
          cases t' with
          | binary op l r => exact (inorder_binary_ne op l r t (heq.symm.trans hleaf)).elim
          | _ => cases hroot

end Expr

end SmallScript
