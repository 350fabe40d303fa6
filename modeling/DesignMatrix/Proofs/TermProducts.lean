import Mathlib.Data.List.Nodup
import DesignMatrix.Proofs.TermNames

/-!
# The algebra of terms

The terms that are made of single factors by products form a semilattice. A product is the list of
the factors of its first term and behind them those of the second that are new, so it is associative
and idempotent as a list; it is commutative up to the order of the factors, which terms that are the
same need not share.
-/

namespace DesignMatrix.Term

/-- Terms made of single factors by products. -/
inductive Built : Term → Prop
  | single (factor : Factor) : Built (single factor)
  | interact {left right : Term} (hl : Built left) (hr : Built right) : Built (left.interact right)

theorem Built.proper {term : Term} (h : term.Built) : term.Proper := by
  induction h with
  | single factor => exact proper_single factor
  | interact _ _ hl _ => exact hl.interact _

/-- The factors whose names are not yet among those of the others. -/
def fresh (factors more : List Factor) : List Factor :=
  more.filter fun factor => !hasName factors factor.name

section Fresh

variable {first second third factors : List Factor} {name : String}

theorem hasName_append : hasName (first ++ second) name =
    (hasName first name || hasName second name) := List.any_append

theorem hasName_fresh : hasName (fresh first second) name =
    (hasName second name && !hasName first name) := by
  rw [Bool.eq_iff_iff]
  simp only [hasName, fresh, List.any_filter, List.any_eq_true, Bool.and_eq_true, beq_iff_eq]
  constructor
  · rintro ⟨factor, listed, new, rfl⟩
    exact ⟨⟨factor, listed, rfl⟩, new⟩
  · rintro ⟨⟨factor, listed, rfl⟩, new⟩
    exact ⟨factor, listed, new, rfl⟩

theorem fresh_append : fresh first (second ++ third) = fresh first second ++ fresh first third :=
  List.filter_append ..

/-- New to the first factors and what is new of the second ones is what is new to both. -/
theorem fresh_fresh : fresh (first ++ fresh first second) third =
    fresh first (fresh second third) := by
  unfold fresh
  rw [List.filter_filter]
  refine List.filter_congr fun factor _ => ?_
  have both : hasName (second.filter fun other => !hasName first other.name) factor.name =
      (hasName second factor.name && !hasName first factor.name) := hasName_fresh
  rw [hasName_append, both]
  cases hasName first factor.name <;> simp

theorem fresh_eq_nil (known : ∀ factor ∈ second, hasName first factor.name = true) :
    fresh first second = [] := by
  rw [fresh, List.filter_eq_nil_iff]
  simpa using known

/-- Inserting factors with different names one by one appends those that are new. -/
theorem foldl_insertFactor (distinct : (second.map Factor.name).Nodup) :
    second.foldl insertFactor first = first ++ fresh first second := by
  induction second generalizing first with
  | nil => simp [fresh]
  | cons factor second ih =>
    obtain ⟨unlike, distinct⟩ := List.nodup_cons.mp distinct
    rw [List.foldl_cons, ih distinct, insertFactor]
    split
    · rename_i known
      simp [fresh, known]
    · rename_i new
      -- The factor that has just been added is none of the later ones.
      have rest : fresh (first ++ [factor]) second = fresh first second := by
        refine List.filter_congr fun other listed => ?_
        have differs : factor.name ≠ other.name := fun same =>
          unlike (same ▸ List.mem_map_of_mem listed)
        simp [hasName, differs]
      rw [rest]
      simp [fresh, new]

end Fresh

variable {first second third : Term}

theorem factors_interact (first : Term) (proper : second.Proper) :
    (first.interact second).factors = first.factors ++ fresh first.factors second.factors :=
  foldl_insertFactor proper

theorem interact_assoc (first : Term) (proper : second.Proper) (proper' : third.Proper) :
    (first.interact second).interact third = first.interact (second.interact third) := by
  have factors : ((first.interact second).interact third).factors =
      (first.interact (second.interact third)).factors := by
    rw [factors_interact _ proper', factors_interact _ proper,
      factors_interact _ (proper.interact third), factors_interact _ proper', fresh_append,
      fresh_fresh, List.append_assoc]
  exact congrArg Term.mk factors

theorem interact_self (proper : first.Proper) : first.interact first = first := by
  have factors : (first.interact first).factors = first.factors := by
    rw [factors_interact _ proper, fresh_eq_nil, List.append_nil]
    exact fun factor listed => hasName_iff.mpr (List.mem_map_of_mem listed)
  exact congrArg Term.mk factors

theorem eraseDups_of_nodup {names : List String} (distinct : names.Nodup) :
    names.eraseDups = names := by
  induction names with
  | nil => rfl
  | cons name names ih =>
    obtain ⟨unlike, distinct⟩ := List.nodup_cons.mp distinct
    have kept : names.filter (fun other => !other == name) = names := by
      refine List.filter_eq_self.mpr fun other listed => ?_
      have differs : other ≠ name := fun same => unlike (same ▸ listed)
      simp [differs]
    rw [List.eraseDups_cons, kept, ih distinct]

/-- The names of a product are those of both terms, each where it first appears. -/
theorem names_interact (proper : first.Proper) (proper' : second.Proper) :
    (first.interact second).names = (first.names ++ second.names).eraseDups := by
  have new : (fresh first.factors second.factors).map Factor.name =
      second.names.removeAll first.names := by
    have known (factor : Factor) : hasName first.factors factor.name =
        List.elem factor.name first.names := by
      rw [Bool.eq_iff_iff, hasName_iff, List.elem_iff, names]
    simp only [fresh, known, List.removeAll, names, List.filter_map, Function.comp_def]
  rw [names, factors_interact _ proper', List.map_append, new, List.eraseDups_append,
    eraseDups_of_nodup proper, eraseDups_of_nodup]
  · rfl
  · exact proper'.filter _

theorem Proper.sameAs_interact {fourth : Term} (h : first.Proper) (h' : second.Proper)
    (sets : first.nameSet ∪ third.nameSet = second.nameSet ∪ fourth.nameSet) :
    (first.interact third).sameAs (second.interact fourth) = true := by
  rwa [sameAs_iff (h.interact third) (h'.interact fourth), nameSet_interact, nameSet_interact]

/-- Terms made of single factors by products are the same exactly if they have the same names. Up to
this equivalence, which products respect, they form a semilattice; associativity and idempotence
hold of the lists of factors themselves. -/
theorem semilattice_of_built {fourth : Term} (ha : first.Built) (hb : second.Built)
    (hc : third.Built) (hd : fourth.Built) :
    (first.sameAs second = true ↔ first.nameSet = second.nameSet) ∧
      (first.sameAs first = true ∧ (first.sameAs second = true → second.sameAs first = true) ∧
        (first.sameAs second = true → second.sameAs third = true → first.sameAs third = true)) ∧
      (first.interact second).interact third = first.interact (second.interact third) ∧
      first.interact first = first ∧
      (first.interact second).sameAs (second.interact first) = true ∧
      (first.sameAs second = true → third.sameAs fourth = true →
        (first.interact third).sameAs (second.interact fourth) = true) ∧
      (first.interact second).names = (first.names ++ second.names).eraseDups ∧
      (first.interact second).names.Nodup := by
  have pa := ha.proper
  have pb := hb.proper
  have pc := hc.proper
  have names := sameAs_iff pa pb
  refine ⟨names, ⟨(sameAs_iff pa pa).mpr rfl, fun same => ?_, fun same next => ?_⟩,
    interact_assoc first pb pc, interact_self pa,
    pa.sameAs_interact pb (Finset.union_comm _ _), fun left right => ?_, names_interact pa pb,
    pa.interact second⟩
  · exact (sameAs_iff pb pa).mpr (names.mp same).symm
  · exact (sameAs_iff pa pc).mpr ((names.mp same).trans ((sameAs_iff pb pc).mp next))
  · refine pa.sameAs_interact pb ?_
    rw [names.mp left, (sameAs_iff pc hd.proper).mp right]

/-- The product of two columns. -/
def ofColumns (left right : String) : Term :=
  (single (.ofColumn left)).interact (single (.ofColumn right))

theorem built_ofColumns (left right : String) : (ofColumns left right).Built :=
  .interact (.single _) (.single _)

theorem semilattice_of_swapped :
    (ofColumns "a" "b").Built ∧ (ofColumns "b" "a").Built ∧ (single (.ofColumn "c")).Built ∧
      (ofColumns "a" "b").sameAs (ofColumns "b" "a") = true ∧
      ((ofColumns "a" "b").interact (ofColumns "b" "a")).names = ["a", "b"] ∧
      ((ofColumns "a" "b").interact (single (.ofColumn "c"))).sameAs
        ((ofColumns "b" "a").interact (single (.ofColumn "c"))) = true := by
  have ab := built_ofColumns "a" "b"
  have ba := built_ofColumns "b" "a"
  have c : (single (.ofColumn "c")).Built := .single _
  obtain ⟨same, -, -, -, -, respects, names, -⟩ := semilattice_of_built ab ba c c
  have swapped := same.mpr (by decide)
  exact ⟨ab, ba, c, swapped, names.trans rfl, respects swapped (by decide)⟩

end DesignMatrix.Term
