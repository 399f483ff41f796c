import NaturalDeduction.Proofs.Replies

/-!
# The first counterexample

The valuations of some names are listed in lexicographic order, with true
before false (`Valuation.all`). The list has every valuation with these names
as its domain (`Valuation.mem_all`) and runs upwards in the order
(`Valuation.pairwise_all`).

The search for a counterexample counts in binary instead. Counting up runs
through the very same list (`Valuation.all_eq_map_ofIndex`), so what it comes
to is the first valuation of the list that makes the formula false
(`Formula.refuteFrom_eq`), and none exactly if the formula is true whatever
values its names are given.
-/

namespace NaturalDeduction

/-! ## The valuations of some names -/

namespace Valuation

/-- **The valuations of some names**: first those that make the first name
true, then those that make it false. -/
def all : List String → List Valuation
  | [] => [[]]
  | name :: rest => (all rest).map ((name, true) :: ·) ++ (all rest).map ((name, false) :: ·)

/-- **The lexicographic order** of valuations, with true before false: at the
first name at which they differ, the first one has true. -/
inductive Precedes : Valuation → Valuation → Prop where
  /-- They differ at the first name. -/
  | head (name : String) (v w : Valuation) : Precedes ((name, true) :: v) ((name, false) :: w)
  /-- They agree at the first name. -/
  | tail (entry : String × Bool) {v w : Valuation} (h : Precedes v w) :
      Precedes (entry :: v) (entry :: w)

variable {names : List String} {v : Valuation}

/-- **Every valuation of the names is listed**, and no other. -/
theorem mem_all : v ∈ all names ↔ v.map Prod.fst = names := by
  induction names generalizing v with
  | nil => simp [all]
  | cons name rest ih =>
    rw [all, List.mem_append, List.mem_map, List.mem_map]
    constructor
    · rintro (⟨w, hw, rfl⟩ | ⟨w, hw, rfl⟩)
      all_goals rw [List.map_cons, ih.mp hw]
    · intro h
      obtain ⟨⟨_, value⟩, w, rfl, rfl, hw⟩ := List.map_eq_cons_iff.mp h
      cases value with
      | true => exact .inl ⟨w, ih.mpr hw, rfl⟩
      | false => exact .inr ⟨w, ih.mpr hw, rfl⟩

/-- **The list runs upwards.** -/
theorem pairwise_all (names : List String) : (all names).Pairwise Precedes := by
  induction names with
  | nil => exact List.pairwise_singleton _ _
  | cons name rest ih =>
    have hblock (value : Bool) : ((all rest).map ((name, value) :: ·)).Pairwise Precedes :=
      List.pairwise_map.mpr (ih.imp fun h => .tail _ h)
    refine List.pairwise_append.mpr ⟨hblock true, hblock false, fun v hv w hw => ?_⟩
    obtain ⟨v, -, rfl⟩ := List.mem_map.mp hv
    obtain ⟨w, -, rfl⟩ := List.mem_map.mp hw
    exact .head name v w

/-- **Counting in binary runs through the list.** -/
theorem all_eq_map_ofIndex (names : List String) :
    all names = (List.range (2 ^ names.length)).map (ofIndex names) := by
  induction names with
  | nil => rfl
  | cons name rest ih =>
    have htrue : ∀ i ∈ List.range (2 ^ rest.length),
        ofIndex (name :: rest) i = (name, true) :: ofIndex rest i := fun i hi => by
      rw [ofIndex, Nat.testBit_lt_two_pow (List.mem_range.mp hi), Bool.not_false]
    -- the highest digit is set in the second half, and only the first name reads it
    have hfalse : ∀ i ∈ List.range (2 ^ rest.length),
        ofIndex (name :: rest) (2 ^ rest.length + i) = (name, false) :: ofIndex rest i :=
      fun i hi => by
        rw [ofIndex, ofIndex_two_pow_add le_rfl, Nat.testBit_two_pow_add_eq,
          Nat.testBit_lt_two_pow (List.mem_range.mp hi), Bool.not_false, Bool.not_true]
    rw [all, ih, List.length_cons, Nat.pow_succ, Nat.mul_two, List.range_add, List.map_append,
      List.map_map, List.map_map, List.map_map]
    congr 1
    · exact (List.map_congr_left htrue).symm
    · exact (List.map_congr_left hfalse).symm

theorem ofValues_mem_all (names : List String) (value : String → Bool) :
    ofValues names value ∈ all names := by
  rw [mem_all, ofValues, List.map_map]
  exact List.map_id names

theorem lookup_isSome_of_mem_all (h : v ∈ all names) {name : String} (hname : name ∈ names) :
    (v.lookup name).isSome := by
  rw [all_eq_map_ofIndex, List.mem_map] at h
  obtain ⟨index, -, rfl⟩ := h
  exact lookup_ofIndex_isSome hname index

end Valuation

/-! ## The first valuation that fails -/

namespace Formula

/-- **The first of some valuations that makes a formula false**, as a
counterexample. -/
def firstFailing (f : Formula) (vs : List Valuation) : Option Counterexample :=
  (vs.find? fun v => f.evaluate v = .ok false).map (Counterexample.mk f)

variable {f : Formula}

theorem failsUnder_eq (v : Valuation) : f.failsUnder v = decide (f.evaluate v = .ok false) := by
  unfold failsUnder
  rcases f.evaluate v with e | _ | _ <;> rfl

/-- **What is found is the first valuation that fails**, from a number on. -/
theorem refuteFrom_eq (f : Formula) (names : List String) (count index : Nat) :
    f.refuteFrom names count index =
      f.firstFailing ((List.range' index count).map (.ofIndex names)) := by
  induction count generalizing index with
  | zero => rfl
  | succ count ih =>
    rw [refuteFrom, List.range'_succ, List.map_cons, firstFailing, List.find?_cons]
    rw [failsUnder_eq, ih]
    cases decide (f.evaluate (.ofIndex names index) = .ok false) <;> rfl

theorem refute_none_eq (f : Formula) : f.refute none = f.firstFailing (Valuation.all f.atoms) := by
  rw [Valuation.all_eq_map_ofIndex, List.range_eq_range', ← refuteFrom_eq]
  rfl

theorem refute_some_eq (f : Formula) (n : Nat) :
    f.refute (some n) = f.firstFailing ((Valuation.all f.atoms).take n) := by
  rw [Valuation.all_eq_map_ofIndex, ← List.map_take, List.take_range, List.range_eq_range',
    ← refuteFrom_eq]
  rfl

/-- **A formula without a counterexample is a tautology**, and the other way
round. -/
theorem refute_none_eq_none_iff : f.refute none = none ↔ f.IsTautology := by
  rw [refute_none_eq, firstFailing, Option.map_eq_none_iff, List.find?_eq_none]
  constructor
  · intro h
    refine isTautology_iff_truth.mpr fun value => ?_
    have hnot := h _ (Valuation.ofValues_mem_all f.atoms value)
    rw [evaluate_ofValues] at hnot
    simpa using hnot
  · intro h v hv
    rw [h v fun _ => Valuation.lookup_isSome_of_mem_all hv]
    decide

/-- It is enough to look at the values that the names of a formula are
given. -/
theorem isTautology_iff_values :
    f.IsTautology ↔ ∀ (value : String → Bool) (v : Valuation),
      (∀ name ∈ f.names, v.lookup name = some (value name)) → f.evaluate v = .ok true := by
  constructor
  · intro h value v hv
    exact h v fun name hname => by rw [hv name (mem_atoms.mp hname)]; rfl
  · intro h v hv
    refine h v.filled v fun name hname => ?_
    obtain ⟨value, hvalue⟩ := Option.isSome_iff_exists.mp (hv name (mem_atoms.mpr hname))
    rw [Valuation.filled, hvalue, Option.getD_some]

/-- **The search for a counterexample finds the first one.** The atoms of a
formula are its distinct names in increasing order, their valuations are
listed in lexicographic order with true first, and evaluation comes to a value
under each of them. Within any limit in range, and without a limit, what is
found is the first listed valuation that makes the formula false. Without a
limit nothing is found exactly if the formula is true whatever values all
names are given. -/
theorem refute_eq_first_failing (f : Formula) :
    (f.atoms.Pairwise (· < ·) ∧ ∀ name, name ∈ f.atoms ↔ name ∈ f.names)
    ∧ ((Valuation.all f.atoms).Pairwise Valuation.Precedes
      ∧ ∀ v, v ∈ Valuation.all f.atoms ↔ v.map Prod.fst = f.atoms)
    ∧ (∀ v ∈ Valuation.all f.atoms, ∃ value, f.evaluate v = .ok value)
    ∧ (∀ limit : Int, 0 ≤ limit → limit < limitBound →
      f.refuteWithin limit = .ok (f.firstFailing ((Valuation.all f.atoms).take limit.toNat)))
    ∧ f.refute none = f.firstFailing (Valuation.all f.atoms)
    ∧ (f.refute none = none ↔ ∀ (value : String → Bool) (v : Valuation),
      (∀ name ∈ f.names, v.lookup name = some (value name)) → f.evaluate v = .ok true) := by
  refine ⟨⟨f.pairwise_atoms, fun _ => mem_atoms⟩, ⟨Valuation.pairwise_all _, fun _ =>
    Valuation.mem_all⟩, fun v hv => ?_, fun limit hnonneg hbound => ?_, f.refute_none_eq, ?_⟩
  · exact ⟨_, evaluate_eq_truth fun _ => Valuation.lookup_isSome_of_mem_all hv⟩
  · obtain ⟨found, hfound⟩ := exists_refuteWithin_eq_ok f hnonneg hbound
    rw [hfound, ← refute_of_refuteWithin hfound, refute_some_eq]
  · rw [refute_none_eq_none_iff, isTautology_iff_values]

/-- `A ∨ B` fails under the last of its four valuations only: three valuations
are not enough to find it. -/
theorem refute_first_failing_or :
    let f : Formula := .or (.atom "B") (.atom "A")
    f.refuteWithin 3 = .ok none
      ∧ f.refuteWithin 4 = .ok (some ⟨f, [("A", false), ("B", false)]⟩)
      ∧ f.refute none ≠ none := by
  intro f
  obtain ⟨-, -, -, hlimit, -, hnone⟩ := f.refute_eq_first_failing
  refine ⟨?_, ?_, fun h => ?_⟩
  · rw [hlimit 3 (by decide) (by rw [limitBound_eq]; decide)]
    decide +kernel
  · rw [hlimit 4 (by decide) (by rw [limitBound_eq]; decide)]
    decide +kernel
  · have htrue := hnone.mp h (fun _ => false) [("A", false), ("B", false)] (by decide)
    exact absurd htrue (by decide)

end Formula

end NaturalDeduction
