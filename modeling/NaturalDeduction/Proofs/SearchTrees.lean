import NaturalDeduction.Proofs.Derivation
import NaturalDeduction.Proofs.Plans

/-!
# The trees a search builds

The searchers backtrack, hand out numbers in branches that come to nothing,
and put a tree that is finished inside others. What comes out can be said
without any of this. A tree found for a goal is put together by
introductions from trees found with less room, or is grown out of an
assumption by eliminations, or splits a disjunction grown in this way; and
the numbers its parts discharge lie in intervals that follow each other in
the order in which the parts were found. `Built` says so, and
`findProof_builds` that nothing else is ever found.

What holds of the proofs found is then proved of built trees, by induction
on how they are built. Here it is that they are derivations, and that no
number is discharged twice in them.
-/

namespace NaturalDeduction

/-! ## Numbers handed out in order -/

/-- **Distinct numbers of an interval**, from `lo` to below `hi`. -/
structure DistinctIn (lo hi : Int) (ns : List Int) : Prop where
  nodup : ns.Nodup
  bounds : ∀ n ∈ ns, lo ≤ n ∧ n < hi

namespace DistinctIn

variable {lo mid hi n : Int} {ns ms : List Int}

theorem nil : DistinctIn lo hi [] := ⟨List.nodup_nil, fun _ h => nomatch h⟩

theorem append (hn : DistinctIn lo mid ns) (hlo : lo ≤ mid) (hhi : mid ≤ hi)
    (hm : DistinctIn mid hi ms) : DistinctIn lo hi (ns ++ ms) := by
  refine ⟨List.nodup_append'.mpr ⟨hn.nodup, hm.nodup, fun k hk hk' => ?_⟩, fun k hk => ?_⟩
  · have h := hn.bounds k hk
    have h' := hm.bounds k hk'
    omega
  · obtain hk | hk := List.mem_append.mp hk
    · have h := hn.bounds k hk
      omega
    · have h := hm.bounds k hk
      omega

theorem cons (h : DistinctIn (n + 1) hi ns) (hn : lo ≤ n) (hhi : n + 1 ≤ hi) :
    DistinctIn lo hi (n :: ns) := by
  have hsingle : DistinctIn lo (n + 1) [n] :=
    ⟨List.nodup_singleton n, fun k hk => by rw [List.mem_singleton.mp hk]; omega⟩
  exact hsingle.append (by omega) hhi h

theorem perm (h : DistinctIn lo hi ns) (hp : ns.Perm ms) : DistinctIn lo hi ms :=
  ⟨hp.nodup_iff.mp h.nodup, fun n hn => h.bounds n (hp.mem_iff.mpr hn)⟩

theorem widen (h : DistinctIn lo mid ns) (hle : mid ≤ hi) : DistinctIn lo hi ns :=
  ⟨h.nodup, fun n hn => ⟨(h.bounds n hn).1, (h.bounds n hn).2.trans_le hle⟩⟩

/-- **The numbers of a case split**: those of the disjunction, and after them
those of one case after the other, each behind the number of its assumption,
which is handed out when the search gets to that case. -/
theorem split {m mid' : Int} {ds ps qs : List Int} (hd : DistinctIn lo mid ds) (hlo : lo ≤ mid)
    (hm : mid ≤ m) (hp : DistinctIn (m + 1) mid' ps) (hfirst : m + 1 ≤ mid') (hn : mid' ≤ n)
    (hq : DistinctIn (n + 1) hi qs) (hlast : n + 1 ≤ hi) :
    DistinctIn lo hi (m :: n :: (ds ++ (ps ++ qs))) := by
  have hright := hq.cons hn hlast
  have hcases := (hp.append hfirst (by omega) hright).cons hm (by omega)
  refine (hd.append hlo (by omega) hcases).perm ?_
  refine List.perm_middle.trans (List.Perm.cons _ ?_)
  rw [← List.append_assoc, ← List.append_assoc]
  exact List.perm_middle

end DistinctIn

/-! ## Built trees -/

/-- What a tree is in a search: the proof of a goal, or of a fact on the way
to one. -/
inductive Part where
  | goal
  | fact

/-- **A tree that a search builds** with some room, under a context, when it
hands out the numbers from `lo` to below `hi`. -/
inductive Built : Part → (room : Nat) → Context → (lo hi : Int) → ProofTree → Prop where
  | leaf {room : Nat} {ctx : Context} {lo hi : Int} {a : Assumption}
      (ha : a ∈ ctx.assumptions) (hle : lo ≤ hi) :
      Built .fact room ctx lo hi (.ofAssumption a)
  | andElimLeft {room : Nat} {ctx : Context} {lo hi : Int} {p : ProofTree}
      {left right : Formula} (hp : Built .fact room ctx lo hi p)
      (hc : p.claim = .and left right) :
      Built .fact room ctx lo hi (.infer left .andElimLeft [p])
  | andElimRight {room : Nat} {ctx : Context} {lo hi : Int} {p : ProofTree}
      {left right : Formula} (hp : Built .fact room ctx lo hi p)
      (hc : p.claim = .and left right) :
      Built .fact room ctx lo hi (.infer right .andElimRight [p])
  | impElim {room : Nat} {ctx : Context} {lo mid hi : Int} {p q : ProofTree} {claim : Formula}
      (hq : Built .fact room ctx lo mid q) (hp : Built .goal room ctx mid hi p)
      (hc : q.claim = .imp p.claim claim) :
      Built .fact room ctx lo hi (.infer claim .impElim [p, q])
  | ofFact {room : Nat} {ctx : Context} {lo hi : Int} {p : ProofTree}
      (hp : Built .fact room ctx lo hi p) : Built .goal (room + 1) ctx lo hi p
  | andIntro {room : Nat} {ctx : Context} {lo mid hi : Int} {p q : ProofTree}
      (hp : Built .goal room ctx lo mid p) (hq : Built .goal room ctx mid hi q) :
      Built .goal (room + 1) ctx lo hi (.infer (.and p.claim q.claim) .andIntro [p, q])
  | orIntroLeft {room : Nat} {ctx : Context} {lo hi : Int} {p : ProofTree} {right : Formula}
      (hp : Built .goal room ctx lo hi p) :
      Built .goal (room + 1) ctx lo hi (.infer (.or p.claim right) .orIntroLeft [p])
  | orIntroRight {room : Nat} {ctx : Context} {lo hi : Int} {p : ProofTree} {left : Formula}
      (hp : Built .goal room ctx lo hi p) :
      Built .goal (room + 1) ctx lo hi (.infer (.or left p.claim) .orIntroRight [p])
  | impIntro {room : Nat} {ctx : Context} {lo hi n : Int} {p : ProofTree} {left : Formula}
      (hn : lo ≤ n) (hp : Built .goal room (ctx.push left n) (n + 1) hi p) :
      Built .goal (room + 1) ctx lo hi
        ⟨.imp left p.claim, .impIntro, [p], none, [some n]⟩
  | orElim {room : Nat} {ctx : Context} {lo mid mid' hi m n : Int} {d p q : ProofTree}
      {left right : Formula} (hd : Built .fact room ctx lo mid d)
      (hc : d.claim = .or left right) (hm : mid ≤ m)
      (hp : Built .goal room (ctx.push left m) (m + 1) mid' p) (hn : mid' ≤ n)
      (hq : Built .goal room (ctx.push right n) (n + 1) hi q) (hpq : q.claim = p.claim) :
      Built .goal (room + 1) ctx lo hi
        ⟨p.claim, .orElim, [d, p, q], none, [some m, some n]⟩

namespace Built

variable {part : Part} {room : Nat} {ctx : Context} {lo hi lo' hi' : Int} {p : ProofTree}

theorem le (h : Built part room ctx lo hi p) : lo ≤ hi := by
  induction h with
  | leaf _ hle => exact hle
  | andElimLeft _ _ ih | andElimRight _ _ ih | ofFact _ ih | orIntroLeft _ ih
  | orIntroRight _ ih => exact ih
  | impElim _ _ _ ihq ihp => exact ihq.trans ihp
  | andIntro _ _ ihp ihq => exact ihp.trans ihq
  | impIntro hn _ ih => omega
  | orElim _ _ hm _ hn _ _ ihd ihp ihq => omega

/-- A wider interval does as well. -/
theorem widen (h : Built part room ctx lo hi p) (hlo : lo' ≤ lo) (hhi : hi ≤ hi') :
    Built part room ctx lo' hi' p := by
  induction h generalizing lo' hi' with
  | leaf ha hle => exact .leaf ha (hlo.trans (hle.trans hhi))
  | andElimLeft _ hc ih => exact .andElimLeft (ih hlo hhi) hc
  | andElimRight _ hc ih => exact .andElimRight (ih hlo hhi) hc
  | impElim _ _ hc ihq ihp => exact .impElim (ihq hlo le_rfl) (ihp le_rfl hhi) hc
  | ofFact _ ih => exact .ofFact (ih hlo hhi)
  | andIntro _ _ ihp ihq => exact .andIntro (ihp hlo le_rfl) (ihq le_rfl hhi)
  | orIntroLeft _ ih => exact .orIntroLeft (ih hlo hhi)
  | orIntroRight _ ih => exact .orIntroRight (ih hlo hhi)
  | impIntro hn _ ih => exact .impIntro (hlo.trans hn) (ih le_rfl hhi)
  | orElim _ hc hm _ hn _ hpq ihd ihp ihq =>
    exact .orElim (ihd hlo le_rfl) hc hm (ihp le_rfl le_rfl) hn (ihq le_rfl hhi) hpq

/-- **Built trees are derivations.** -/
theorem isDerivation (h : Built part room ctx lo hi p) : p.IsDerivation ctx := by
  induction h with
  | leaf ha => exact .assumption ha
  | andElimLeft _ hc ih => exact .andElimLeft ih hc
  | andElimRight _ hc ih => exact .andElimRight ih hc
  | impElim _ _ hc ihq ihp => exact .impElim ihp ihq hc
  | ofFact _ ih => exact ih
  | andIntro _ _ ihp ihq => exact .andIntro ihp ihq
  | orIntroLeft _ ih => exact .orIntroLeft ih
  | orIntroRight _ ih => exact .orIntroRight ih
  | impIntro _ _ ih => exact .impIntro ih
  | orElim _ hc _ _ _ _ hpq ihd ihp ihq =>
    exact .orElim (m := some _) (n := some _) ihd hc ihp ihq hpq

/-- **A built tree discharges distinct numbers of its interval.** -/
theorem distinctIn (h : Built part room ctx lo hi p) : DistinctIn lo hi p.allDischarged := by
  induction h with
  | leaf => exact .nil
  | andElimLeft _ _ ih | andElimRight _ _ ih | orIntroLeft _ ih | orIntroRight _ ih =>
    simpa [ProofTree.infer] using ih
  | ofFact _ ih => exact ih
  | impElim hq hp _ ihq ihp =>
    have hnums := (ihq.append hq.le hp.le ihp).perm List.perm_append_comm
    simpa [ProofTree.infer] using hnums
  | andIntro hp hq ihp ihq => simpa [ProofTree.infer] using ihp.append hp.le hq.le ihq
  | impIntro hn hp ih => simpa using ih.cons hn hp.le
  | orElim hd _ hm hp hn hq _ ihd ihp ihq =>
    simpa using ihd.split hd.le hm ihp hp.le hn ihq hq.le

end Built

/-! ## Nothing else is found -/

namespace Search

open Attempt

/-- A tree built for a goal, in an interval from `lo` on. -/
def BuiltFor (room : Nat) (ctx : Context) (goal : Formula) (lo hi : Int) (p : ProofTree) : Prop :=
  p.claim = goal ∧ Built .goal room ctx lo hi p

/-- A prover that finds nothing but built trees. -/
def ProverBuilds (prove : Prover) (room : Nat) : Prop :=
  ∀ goal ctx lo, (prove goal ctx).Finds lo (BuiltFor room ctx goal lo)

variable {prove : Prover} {split : Bool} {room : Nat} {goal : Formula} {ctx : Context} {lo : Int}

/-- What is found by the first attempt or by what is tried after it fails. -/
theorem builds_orElse {a : Attempt} {b : Exhausted → Attempt} {n : Int} (hg : a.Grows)
    (ha : a.Finds n (BuiltFor room ctx goal lo))
    (hb : ∀ e, (b e).Finds n (BuiltFor room ctx goal lo)) :
    (a.branch succeed b).Finds n (BuiltFor room ctx goal lo) :=
  Finds.branch hg ha
    (fun _ _ _ hp => finds_succeed fun _ hle => ⟨hp.1, hp.2.widen le_rfl hle⟩) hb

theorem byAssumption_builds :
    (byAssumption goal ctx).Finds lo (BuiltFor (room + 1) ctx goal lo) := by
  unfold byAssumption
  cases h : ctx.lookup goal with
  | none => exact finds_fail _
  | some a =>
    obtain ⟨ha, hclaim⟩ := Context.mem_of_lookup h
    exact finds_succeed fun m hm => ⟨hclaim, .ofFact (.leaf ha hm)⟩

theorem byAndIntro_builds (hg : ProverGrows prove) (h : ProverBuilds prove room) :
    (byAndIntro prove goal ctx).Finds lo (BuiltFor (room + 1) ctx goal lo) := by
  cases goal with
  | and left right =>
    rw [byAndIntro_and]
    refine Finds.branch (hg left ctx) (h left ctx lo) (fun p m _ hp => ?_) finds_fail
    refine Finds.branch (hg right ctx) (h right ctx m) (fun q m' _ hq => ?_) finds_fail
    obtain ⟨rfl, hp⟩ := hp
    obtain ⟨rfl, hq⟩ := hq
    exact finds_succeed fun hi hle => ⟨rfl, .andIntro hp (hq.widen le_rfl hle)⟩
  | _ => exact finds_fail _

theorem byOrIntro_builds (hg : ProverGrows prove) (h : ProverBuilds prove room) :
    (byOrIntro prove goal ctx).Finds lo (BuiltFor (room + 1) ctx goal lo) := by
  cases goal with
  | or left right =>
    rw [byOrIntro_or]
    refine Finds.branch (hg left ctx) (h left ctx lo) (fun p m _ hp => ?_) (fun _ => ?_)
    · obtain ⟨rfl, hp⟩ := hp
      exact finds_succeed fun hi hle => ⟨rfl, .orIntroLeft (hp.widen le_rfl hle)⟩
    · refine Finds.branch (hg right ctx) (h right ctx lo) (fun p m _ hp => ?_)
        (fun _ => finds_fail _)
      obtain ⟨rfl, hp⟩ := hp
      exact finds_succeed fun hi hle => ⟨rfl, .orIntroRight (hp.widen le_rfl hle)⟩
  | _ => exact finds_fail _

theorem byImpIntro_builds (hg : ProverGrows prove) (h : ProverBuilds prove room) :
    (byImpIntro prove goal ctx).Finds lo (BuiltFor (room + 1) ctx goal lo) := by
  cases goal with
  | imp left right =>
    rw [byImpIntro_imp]
    refine Finds.withFresh fun n hn => ?_
    refine Finds.branch (hg right _) (h right _ (n + 1)) (fun p m _ hp => ?_) finds_fail
    obtain ⟨rfl, hp⟩ := hp
    exact finds_succeed fun hi hle => ⟨rfl, .impIntro hn (hp.widen le_rfl hle)⟩
  | _ => exact finds_fail _

theorem splitCases_builds (hg : ProverGrows prove) (h : ProverBuilds prove room) {mid : Int}
    {left right : Formula} {d : ProofTree} (hd : Built .fact room ctx lo mid d)
    (hc : d.claim = .or left right) :
    (splitCases prove goal ctx left right d).Finds mid (BuiltFor (room + 1) ctx goal lo) := by
  rw [splitCases_eq]
  split
  · exact finds_fail _
  · refine Finds.withFresh fun m hm => ?_
    refine Finds.branch (hg goal _) (h goal _ (m + 1)) (fun p mid' _ hp => ?_) finds_fail
    refine Finds.withFresh fun n hn => ?_
    refine Finds.branch (hg goal _) (h goal _ (n + 1)) (fun q hi _ hq => ?_) finds_fail
    obtain ⟨rfl, hp⟩ := hp
    obtain ⟨hpq, hq⟩ := hq
    exact finds_succeed fun hi' hle =>
      ⟨rfl, .orElim hd hc hm hp hn (hq.widen le_rfl hle) hpq⟩

theorem useFact_builds (hg : ProverGrows prove) (h : ProverBuilds prove room) (fact : Formula)
    (proof : ProofTree) {mid : Int} (hb : Built .fact room ctx lo mid proof)
    (hc : proof.claim = fact) :
    (useFact prove split goal ctx fact proof).Finds mid (BuiltFor (room + 1) ctx goal lo) := by
  refine useFact_induction (motive := fun fact proof a => ∀ mid,
    Built .fact room ctx lo mid proof → proof.claim = fact →
      a.Finds mid (BuiltFor (room + 1) ctx goal lo)) ?_ ?_ ?_ ?_ ?_ fact proof mid hb hc
  · intro proof mid hb hc
    exact finds_succeed fun hi hle => ⟨hc, .ofFact (hb.widen le_rfl hle)⟩
  · exact fun _ _ _ _ _ => finds_fail _
  · intro left right proof hl hr mid hb hc
    refine builds_orElse (follow_grows (useFact_grows hg _ _))
      (hl _ mid (.andElimLeft hb hc) rfl) fun _ => ?_
    exact builds_orElse (follow_grows (useFact_grows hg _ _))
      (hr _ mid (.andElimRight hb hc) rfl) fun _ => finds_fail _
  · intro left right proof hr mid hb hc
    refine Finds.branch (hg left ctx) (h left ctx mid) (fun p m _ hp => ?_)
      (fun _ => finds_fail _)
    obtain ⟨rfl, hp⟩ := hp
    exact hr _ m (.impElim hb hp hc) rfl
  · exact fun left right proof mid hb hc => splitCases_builds hg h hb hc

theorem eliminateFrom_builds (hg : ProverGrows prove) (h : ProverBuilds prove room)
    (as : List Assumption) (has : ∀ a ∈ as, a ∈ ctx.assumptions) :
    (eliminateFrom prove split goal ctx as).Finds lo (BuiltFor (room + 1) ctx goal lo) := by
  induction as with
  | nil => exact finds_fail _
  | cons a rest ih =>
    rw [List.forall_mem_cons] at has
    rw [eliminateFrom_cons]
    split
    · exact builds_orElse (useFact_grows hg _ _)
        (useFact_builds hg h _ _ (.leaf has.1 le_rfl) rfl) fun _ => ih has.2
    · exact ih has.2

theorem run_builds (hg : ProverGrows prove) (h : ProverBuilds prove room) (s : Searcher) :
    (s.run prove goal ctx).Finds lo (BuiltFor (room + 1) ctx goal lo) := by
  cases s with
  | assumption => exact byAssumption_builds
  | andIntro => exact byAndIntro_builds hg h
  | orIntro => exact byOrIntro_builds hg h
  | impIntro => exact byImpIntro_builds hg h
  | elim => exact eliminateFrom_builds hg h _ fun _ ha => ha
  | orElim => exact eliminateFrom_builds hg h _ fun _ ha => ha

theorem firstOf_builds (hg : ProverGrows prove) (h : ProverBuilds prove room)
    (ss : List Searcher) :
    (firstOf prove goal ctx ss).Finds lo (BuiltFor (room + 1) ctx goal lo) := by
  induction ss with
  | nil => exact finds_fail _
  | cons s rest ih =>
    rw [firstOf_cons]
    exact builds_orElse (run_grows hg s) (run_builds hg h s) fun _ => ih

/-- **The search finds nothing but built trees.** -/
theorem findProof_builds (maxSteps room : Nat) (pending : List Pursuit) :
    ProverBuilds (findProof maxSteps room pending) room := by
  induction room generalizing pending with
  | zero =>
    intro goal ctx lo t p _ hp
    by_cases hs : maxSteps ≤ t.steps
    · rw [findProof_of_steps hs] at hp
      cases hp
    · rw [findProof_zero hs] at hp
      cases hp
  | succ room ih =>
    intro goal ctx lo t p hlo hp
    by_cases hs : maxSteps ≤ t.steps
    · rw [findProof_of_steps hs] at hp
      cases hp
    by_cases hpend : pending.any (·.same (.of goal ctx)) = true
    · rw [findProof_of_pending hs hpend] at hp
      cases hp
    · rw [findProof_succ hs hpend] at hp ⊢
      exact firstOf_builds (findProof_grows maxSteps room _) (ih _) _ _ p hlo hp

end Search

end NaturalDeduction
