import Mathlib.Algebra.Group.Nat.Defs
import Mathlib.Data.Finset.Card
import NaturalDeduction.Proofs.Kripke

/-!
# Truth tables

A formula is a tautology if evaluation makes it true under every valuation
that has its atoms. The valuations that are tried for a counterexample are
those of the atoms alone, each under a number, and this is enough: every way
to give values to the atoms is among them (`Valuation.exists_ofIndex_eq`),
and the values of other names do not matter. So a counterexample that is
found is one (`Formula.refute_eq_some`), and if as many valuations are tried
as there are and none is found, the formula is a tautology
(`Formula.isTautology_of_refute_eq_none`).
-/

namespace NaturalDeduction

/-! ## The atoms of a formula -/

namespace Formula

theorem pairwise_insertName {name : String} {names : List String}
    (h : names.Pairwise (· < ·)) : (insertName name names).Pairwise (· < ·) := by
  induction names with
  | nil => exact List.pairwise_singleton _ _
  | cons other rest ih =>
    obtain ⟨hother, hrest⟩ := List.pairwise_cons.mp h
    unfold insertName
    split
    · rename_i hlt
      refine .cons (fun n hn => ?_) h
      obtain rfl | hn := List.mem_cons.mp hn
      · exact hlt
      · exact String.lt_trans hlt (hother n hn)
    · split
      · exact h
      · rename_i hle hne
        have hlt : other < name := by
          by_contra hge
          exact hne (String.le_antisymm (String.not_lt.mp hge) (String.not_lt.mp hle))
        refine .cons (fun n hn => ?_) (ih hrest)
        obtain rfl | hn := mem_insertName.mp hn
        · exact hlt
        · exact hother n hn

/-- **The atoms are in increasing order.** -/
theorem pairwise_atoms (f : Formula) : f.atoms.Pairwise (· < ·) := by
  unfold atoms
  induction f.names with
  | nil => exact .nil
  | cons name rest ih => exact pairwise_insertName ih

theorem nodup_atoms (f : Formula) : f.atoms.Nodup := by
  refine f.pairwise_atoms.imp ?_
  rintro name _ hlt rfl
  exact String.lt_irrefl name hlt

/-- There are as many atoms as distinct names. -/
theorem length_atoms (f : Formula) : f.atoms.length = f.names.toFinset.card := by
  have hsame : f.atoms.toFinset = f.names.toFinset := by
    ext name
    rw [List.mem_toFinset, List.mem_toFinset, mem_atoms]
  rw [← hsame, List.toFinset_card_of_nodup f.nodup_atoms]

end Formula

/-! ## All valuations of some names -/

namespace Valuation

/-- The valuation that gives some names their values. -/
def ofValues (names : List String) (value : String → Bool) : Valuation :=
  names.map fun name => (name, value name)

theorem lookup_ofValues {names : List String} {value : String → Bool} {name : String}
    (h : name ∈ names) : (ofValues names value).lookup name = some (value name) := by
  induction names with
  | nil => cases h
  | cons other rest ih =>
    rw [ofValues, List.map_cons, List.lookup_cons]
    cases hname : name == other with
    | true => rw [beq_iff_eq.mp hname]
    | false =>
      obtain rfl | h := List.mem_cons.mp h
      · exact absurd (beq_self_eq_true name) (Bool.eq_false_iff.mp hname)
      · exact ih h

theorem map_fst_ofIndex (names : List String) (index : Nat) :
    (ofIndex names index).map Prod.fst = names := by
  induction names with
  | nil => rfl
  | cons name rest ih => rw [ofIndex, List.map_cons, ih]

/-- A valuation does not depend on the digits above those of its names. -/
theorem ofIndex_two_pow_add {names : List String} {k : Nat} (h : names.length ≤ k)
    (index : Nat) : ofIndex names (2 ^ k + index) = ofIndex names index := by
  induction names with
  | nil => rfl
  | cons name rest ih =>
    rw [List.length_cons] at h
    rw [ofIndex, ofIndex, ih (by omega), Nat.testBit_two_pow_add_gt (by omega)]

/-- **Every way to give values to some names has a number.** -/
theorem exists_ofIndex_eq (names : List String) (value : String → Bool) :
    ∃ index < 2 ^ names.length, ofIndex names index = ofValues names value := by
  induction names with
  | nil => exact ⟨0, by decide, rfl⟩
  | cons name rest ih =>
    obtain ⟨index, hindex, hrest⟩ := ih
    have hbit : index.testBit rest.length = false := Nat.testBit_lt_two_pow hindex
    rw [List.length_cons, Nat.pow_succ]
    cases hvalue : value name with
    | true =>
      refine ⟨index, by omega, ?_⟩
      rw [ofIndex, hrest, hbit, ofValues, ofValues, List.map_cons, hvalue]
      rfl
    | false =>
      refine ⟨2 ^ rest.length + index, by omega, ?_⟩
      rw [ofIndex, ofIndex_two_pow_add le_rfl, hrest, Nat.testBit_two_pow_add_eq, hbit, ofValues,
        ofValues, List.map_cons, hvalue]
      rfl

end Valuation

/-! ## Tautologies -/

namespace Formula

variable {f : Formula} {v : Valuation}

/-- **A tautology** is true under every valuation that has its atoms. -/
def IsTautology (f : Formula) : Prop :=
  ∀ v : Valuation, (∀ name ∈ f.atoms, (v.lookup name).isSome) → f.evaluate v = .ok true

/-- Evaluation comes to the truth value if no atom lacks a value. -/
theorem evaluate_eq_truth (h : ∀ name ∈ f.atoms, (v.lookup name).isSome) :
    f.evaluate v = .ok (f.truth v.filled) := by
  cases he : f.evaluate v with
  | ok b => rw [truth_of_evaluate he]
  | error e =>
    obtain ⟨hmem, hnone⟩ := unassigned_of_evaluate he
    have hsome := h e.name (mem_atoms.mpr hmem)
    rw [hnone] at hsome
    cases hsome

/-- Only the values of the names that occur matter. -/
theorem truth_congr {value value' : String → Bool}
    (h : ∀ name ∈ f.names, value name = value' name) : f.truth value = f.truth value' := by
  induction f with
  | atom name => exact h name (List.mem_singleton_self name)
  | neg body ih => rw [truth, truth, ih h]
  | and left right ihl ihr | or left right ihl ihr | imp left right ihl ihr =>
    rw [truth, truth, ihl fun n hn => h n (List.mem_append_left _ hn),
      ihr fun n hn => h n (List.mem_append_right _ hn)]

theorem evaluate_ofValues (f : Formula) (value : String → Bool) :
    f.evaluate (.ofValues f.atoms value) = .ok (f.truth value) := by
  rw [evaluate_eq_truth fun name hname => by rw [Valuation.lookup_ofValues hname]; rfl]
  refine congrArg Except.ok (truth_congr fun name hname => ?_)
  rw [Valuation.filled, Valuation.lookup_ofValues (mem_atoms.mpr hname), Option.getD_some]

/-- **A tautology is true whatever values all names are given.** -/
theorem isTautology_iff_truth : f.IsTautology ↔ ∀ value, f.truth value = true := by
  refine ⟨fun h value => ?_, fun h v hv => ?_⟩
  · have htrue := h (.ofValues f.atoms value) fun name hname => by
      rw [Valuation.lookup_ofValues hname]
      rfl
    rw [evaluate_ofValues] at htrue
    exact Except.ok.inj htrue
  · rw [evaluate_eq_truth hv, h]

/-! ## Counterexamples -/

theorem evaluate_of_failsUnder (h : f.failsUnder v = true) : f.evaluate v = .ok false := by
  unfold failsUnder at h
  cases he : f.evaluate v with
  | ok b =>
    rw [he] at h
    cases b with
    | false => rfl
    | true => cases h
  | error e =>
    rw [he] at h
    cases h

variable {names : List String} {count index : Nat}

/-- What is found is a valuation that was to be tried, and makes the formula
false. -/
theorem refuteFrom_eq_some {c : Counterexample} (h : f.refuteFrom names count index = some c) :
    c.formula = f ∧ c.valuation.map Prod.fst = names ∧ f.evaluate c.valuation = .ok false := by
  induction count generalizing index with
  | zero => cases h
  | succ count ih =>
    unfold refuteFrom at h
    dsimp only at h
    split at h
    · rename_i hfails
      obtain rfl := Option.some.inj h
      exact ⟨rfl, Valuation.map_fst_ofIndex names index, evaluate_of_failsUnder hfails⟩
    · exact ih h

/-- If nothing is found, none of the valuations tried makes the formula
false. -/
theorem refuteFrom_eq_none (h : f.refuteFrom names count index = none) {i : Nat}
    (hle : index ≤ i) (hlt : i < index + count) :
    f.evaluate (.ofIndex names i) ≠ .ok false := by
  induction count generalizing index with
  | zero => omega
  | succ count ih =>
    unfold refuteFrom at h
    dsimp only at h
    split at h
    · cases h
    · rename_i hfails
      obtain rfl | hle := Nat.eq_or_lt_of_le hle
      · intro hfalse
        rw [failsUnder, hfalse] at hfails
        exact hfails rfl
      · exact ih h hle (by omega)

/-- **A counterexample gives values to the atoms and makes the formula
false.** -/
theorem refute_eq_some {limit : Option Nat} {c : Counterexample} (h : f.refute limit = some c) :
    c.formula = f ∧ c.valuation.map Prod.fst = f.atoms ∧ f.evaluate c.valuation = .ok false := by
  cases limit with
  | none => exact refuteFrom_eq_some h
  | some n => exact refuteFrom_eq_some h

/-- **A formula without a counterexample is a tautology**, if all valuations
of its atoms are tried. -/
theorem isTautology_of_refute_eq_none {limit : Nat} (h : f.refute (some limit) = none)
    (hlimit : 2 ^ f.atoms.length ≤ limit) : f.IsTautology := by
  refine isTautology_iff_truth.mpr fun value => ?_
  obtain ⟨index, hindex, hofIndex⟩ := Valuation.exists_ofIndex_eq f.atoms value
  have hall : min limit (Nat.pow 2 f.atoms.length) = 2 ^ f.atoms.length := Nat.min_eq_right hlimit
  rw [refute, hall] at h
  have hnot := refuteFrom_eq_none h index.zero_le (by omega)
  rw [hofIndex, evaluate_ofValues] at hnot
  cases htruth : f.truth value with
  | true => rfl
  | false => exact absurd (congrArg Except.ok htruth) hnot

end Formula

end NaturalDeduction
