import SmallScript.Conformance.Report
import Mathlib

namespace SmallScript.Conformance

namespace Report

def countIn (t : List (String × Nat)) (kind : String) : Nat := (t.lookup kind).getD 0

def total (t : List (String × Nat)) : Nat := (t.map Prod.snd).sum

def SortedByKind (t : List (String × Nat)) : Prop := t.Pairwise fun a b => a.1 < b.1

variable {t : List (String × Nat)} {kind k : String} {n : Nat}

theorem SortedByKind.tail (h : SortedByKind ((k, n) :: t)) : SortedByKind t :=
  (List.pairwise_cons.mp h).2

theorem SortedByKind.lt (h : SortedByKind ((k, n) :: t)) : ∀ a ∈ t, k < a.1 :=
  (List.pairwise_cons.mp h).1

theorem countIn_cons (k' : String) :
    countIn ((k, n) :: t) k' = if k' = k then n else countIn t k' := by
  unfold countIn
  by_cases h : k' = k
  · simp [h]
  · simp [List.lookup_cons, beq_false_of_ne h, h]

theorem countIn_eq_zero (h : ∀ a ∈ t, k < a.1) : countIn t k = 0 := by
  induction t with
  | nil => rfl
  | cons a t ih =>
      obtain ⟨k', n⟩ := a
      rw [countIn_cons, if_neg (h _ List.mem_cons_self).ne]
      exact ih fun b hb => h b (List.mem_cons_of_mem _ hb)

theorem total_cons : total ((k, n) :: t) = n + total t := by simp [total]

theorem total_countKind (kind : String) (t : List (String × Nat)) :
    total (countKind kind t) = total t + 1 := by
  induction t with
  | nil => rfl
  | cons a t ih =>
      obtain ⟨k, n⟩ := a
      unfold countKind
      split
      · rw [total_cons, total_cons]; omega
      · split
        · rw [total_cons]; omega
        · rw [total_cons, total_cons, ih]; omega

theorem mem_countKind {a : String × Nat} (h : a ∈ countKind kind t) :
    a.1 = kind ∨ ∃ b ∈ t, a.1 = b.1 := by
  induction t with
  | nil => exact .inl (congrArg Prod.fst (List.mem_singleton.mp h))
  | cons b t ih =>
      obtain ⟨k, n⟩ := b
      unfold countKind at h
      split at h
      · next hk =>
          rcases List.mem_cons.mp h with rfl | h
          · exact .inl hk
          · exact .inr ⟨a, List.mem_cons_of_mem _ h, rfl⟩
      · split at h
        · rcases List.mem_cons.mp h with rfl | h
          · exact .inl rfl
          · exact .inr ⟨a, h, rfl⟩
        · rcases List.mem_cons.mp h with rfl | h
          · exact .inr ⟨(k, n), List.mem_cons_self, rfl⟩
          · rcases ih h with hkind | ⟨b, hb, heq⟩
            · exact .inl hkind
            · exact .inr ⟨b, List.mem_cons_of_mem _ hb, heq⟩

theorem SortedByKind.countKind (h : SortedByKind t) (kind : String) :
    SortedByKind (countKind kind t) := by
  induction t with
  | nil => exact List.pairwise_singleton ..
  | cons a t ih =>
      obtain ⟨k, n⟩ := a
      unfold Report.countKind
      split
      · exact List.pairwise_cons.mpr ⟨h.lt, h.tail⟩
      · next hne =>
          split
          · next hlt =>
              refine List.pairwise_cons.mpr ⟨fun a ha => ?_, h⟩
              rcases List.mem_cons.mp ha with rfl | ha
              · exact hlt
              · exact hlt.trans (h.lt a ha)
          · next hge =>
              refine List.pairwise_cons.mpr ⟨fun a ha => ?_, ih h.tail⟩
              rcases mem_countKind ha with hkind | ⟨b, hb, heq⟩
              · exact hkind ▸ lt_of_le_of_ne (not_lt.mp hge) hne
              · exact heq ▸ h.lt b hb

theorem countIn_countKind (h : SortedByKind t) (kind k : String) :
    countIn (countKind kind t) k = countIn t k + if kind = k then 1 else 0 := by
  induction t with
  | nil => rw [Report.countKind, countIn_cons]; simp [countIn, eq_comm]
  | cons a t ih =>
      obtain ⟨k', n⟩ := a
      unfold Report.countKind
      split
      · next heq =>
          subst heq
          by_cases hk : k = k' <;> simp [countIn_cons, hk, eq_comm]
      · next hne =>
          split
          · next hlt =>
              rw [countIn_cons]
              split
              · next hk =>
                  have habsent : countIn ((k', n) :: t) kind = 0 := by
                    refine countIn_eq_zero fun a ha => ?_
                    rcases List.mem_cons.mp ha with rfl | ha
                    · exact hlt
                    · exact hlt.trans (h.lt a ha)
                  rw [hk, habsent, if_pos rfl]
              · next hk => rw [if_neg (Ne.symm hk), Nat.add_zero]
          · rw [countIn_cons, countIn_cons, ih h.tail]
            split
            · next hk => rw [hk, if_neg (Ne.symm hne), Nat.add_zero]
            · rfl

/-- What counting further verdicts makes of a table. -/
theorem tally (r : Report) (h : SortedByKind t) :
    total (r.foldl (fun t (_, v) => Report.countKind v.kind t) t) = total t + r.length ∧
      ∀ k, countIn (r.foldl (fun t (_, v) => Report.countKind v.kind t) t) k =
        countIn t k + r.countP fun result => result.2.kind == k := by
  induction r generalizing t with
  | nil => exact ⟨rfl, fun _ => rfl⟩
  | cons result r ih =>
      obtain ⟨htotal, hcount⟩ := ih (h.countKind result.2.kind)
      refine ⟨?_, fun k => ?_⟩
      · rw [List.foldl_cons, htotal, total_countKind, List.length_cons]; omega
      · simp only [List.foldl_cons, hcount, countIn_countKind h, List.countP_cons, beq_iff_eq]
        omega

theorem total_recap (r : Report) : total r.recap = r.length := by
  rw [recap, (tally r .nil).1, total, List.map_nil, List.sum_nil, Nat.zero_add]

theorem countIn_recap (r : Report) (k : String) :
    countIn r.recap k = r.countP fun result => result.2.kind == k := by
  rw [recap, (tally r .nil).2 k, countIn, List.lookup_nil, Option.getD_none, Nat.zero_add]

end Report

def Verdict.failsAs (kind : String) : Verdict → Bool
  | pass => false
  | fail k _ => k == kind

theorem Verdict.kind_beq (v : Verdict) (k : String) :
    (v.kind == k) = (v == .pass && k == pass.kind || v.failsAs k) := by
  cases v with
  | pass => simp [kind, failsAs, eq_comm]
  | fail kind message => simp [Verdict.kind, failsAs]

namespace Report

theorem countIn_recap_pass (r : Report) :
    countIn r.recap Verdict.pass.kind =
      r.passed + r.countP fun result => result.2.failsAs Verdict.pass.kind := by
  rw [countIn_recap, passed]
  induction r with
  | nil => rfl
  | cons result r ih =>
      obtain ⟨name, v⟩ := result
      simp only [List.countP_cons, ih]
      cases v <;> simp [Verdict.kind, Verdict.failsAs] <;> omega

theorem countIn_recap_of_ne (r : Report) (hk : k ≠ Verdict.pass.kind) :
    countIn r.recap k = r.countP fun result => result.2.failsAs k := by
  rw [countIn_recap]
  refine List.countP_congr fun result _ => ?_
  simp [Verdict.kind_beq, hk]

end Report

/-- The faults that a test is reported for under the kind of a pass: an error object that was thrown
and whose name reads so. -/
def Disguised (m : Memory) (e : Fault) : Prop :=
  ∃ v, e = .thrown v ∧ m.isError v = true ∧ propertyText m v "name" = Verdict.pass.kind

theorem FaultKind.name_ne_pass (k : FaultKind) : k.name ≠ Verdict.pass.kind := by
  cases k <;> decide

theorem Verdict.failsAs_ofFault (m : Memory) (e : Fault) :
    (Verdict.ofFault m e).failsAs pass.kind = true ↔ Disguised m e := by
  cases e with
  | thrown v =>
      by_cases hv : m.isError v = true
      · simp [Verdict.ofFault, Disguised, hv, failsAs]
      · simp [Verdict.ofFault, Disguised, hv, failsAs, kind]
  | _ => simp [Verdict.ofFault, Disguised, failsAs, FaultKind.name_ne_pass]

/-- A test that is not marked negative ends with such a fault. -/
def EndsDisguised (source : String) (o : Outcome Session Value) : Prop :=
  isNegative source = false ∧ ∃ e s, o = .fail e s ∧ Disguised s.state.memory e

theorem failsAs_verdictOf (source : String) (o : Outcome Session Value) :
    (verdictOf source o).failsAs Verdict.pass.kind = true ↔ EndsDisguised source o := by
  cases o with
  | done v s =>
      by_cases hn : isNegative source <;>
        simp [verdictOf, EndsDisguised, hn, Verdict.failsAs, Verdict.kind]
  | exhausted => simp [verdictOf, EndsDisguised, Verdict.failsAs, Verdict.kind]
  | fail e s =>
      have hends : EndsDisguised source (.fail e s) ↔
          isNegative source = false ∧ Disguised s.state.memory e := by
        simp [EndsDisguised]
      rw [hends, verdictOf]
      by_cases hcaught : (isNegative source && e.isCatchable) = true
      · rw [if_pos hcaught]
        simp [Verdict.failsAs, (Bool.and_eq_true_iff.mp hcaught).1]
      · rw [if_neg hcaught, Verdict.failsAs_ofFault]
        refine ⟨fun h => ⟨?_, h⟩, And.right⟩
        obtain ⟨v, rfl, -⟩ := h
        simpa [Fault.isCatchable, Fault.kind] using hcaught

def reportOn (interactive : Bool) (maxDepth fuel : Nat) (tests : List (String × String)) : Report :=
  tests.map fun (name, source) => (name, verdictOf source
    ((Session.start interactive).eval (silentHost maxDepth) fuel source))

/-- The counts of the recap come to the number of the tests. Those of the kinds that failures have
are right, but for the kind of a pass: its count is that of the passes if and only if no test
failed with that kind. -/
theorem Report.recap_consistent (interactive : Bool) (maxDepth fuel : Nat)
    (tests : List (String × String)) :
    total (reportOn interactive maxDepth fuel tests).recap = tests.length ∧
      (∀ k, k ≠ Verdict.pass.kind →
        countIn (reportOn interactive maxDepth fuel tests).recap k =
          (reportOn interactive maxDepth fuel tests).countP fun result => result.2.failsAs k) ∧
      (countIn (reportOn interactive maxDepth fuel tests).recap Verdict.pass.kind =
          (reportOn interactive maxDepth fuel tests).passed ↔
        ∀ test ∈ tests, ¬EndsDisguised test.2
          ((Session.start interactive).eval (silentHost maxDepth) fuel test.2)) := by
  refine ⟨?_, fun k hk => countIn_recap_of_ne _ hk, ?_⟩
  · rw [total_recap, reportOn, List.length_map]
  · simp only [countIn_recap_pass, Nat.add_eq_left, List.countP_eq_zero, reportOn, List.forall_mem_map,
      failsAs_verdictOf]

end SmallScript.Conformance
