import Mathlib.Data.List.Forall2
import DataBinding.Proofs.Generation.Lookups
/-!
# What is reported of a unit

`CallUnit.Reports` says what a report on a unit is, whoever put the unit together: a name for each place at which it
has occurred before (`later`), first those of entry points and then those of implementations, and then for each
arm what there is to say of it (`CallUnit.ArmReport`).

`CallUnit.problems_exact`: there is one such report, the one that is made. It is empty exactly if the names differ
and each arm leads to an implementation for its entry point's signature; and of a generated unit it never says
that an arm leads nowhere.
-/

namespace DataBinding

/-- The elements at places after the first one that they stand at, in their order. -/
def later (l : List String) : List String := (l.zipIdx.filter fun (n, i) => n ∈ l.take i).map Prod.fst

namespace CallUnit

variable {u : CallUnit} {e : EntryPoint} {a : Arm}

/-! ## Names that occur again -/

/-- The last element occurs again if it has gone by or is among those before it. -/
theorem repeats_concat (seen l : List String) (n : String) :
    repeats seen (l ++ [n]) = repeats seen l ++ if n ∈ seen ∨ n ∈ l then [n] else [] := by
  induction l generalizing seen with
  | nil => by_cases hn : n ∈ seen <;> simp [repeats, hn]
  | cons m l ih =>
    rw [List.cons_append]
    unfold repeats
    by_cases hm : m ∈ seen
    · have hiff : n ∈ seen ∨ n ∈ l ↔ n ∈ seen ∨ n ∈ m :: l := by grind
      rw [if_pos hm, if_pos hm, ih, List.cons_append]
      simp only [hiff]
    · have hiff : n ∈ m :: seen ∨ n ∈ l ↔ n ∈ seen ∨ n ∈ m :: l := by grind
      rw [if_neg hm, if_neg hm, ih]
      simp only [hiff]

theorem later_concat (l : List String) (n : String) :
    later (l ++ [n]) = later l ++ if n ∈ l then [n] else [] := by
  have hbefore : (l.zipIdx.filter fun (m, i) => m ∈ (l ++ [n]).take i) = l.zipIdx.filter fun (m, i) => m ∈ l.take i := by
    refine List.filter_congr fun x hx => ?_
    obtain ⟨m, i⟩ := x
    have hi : i ≤ l.length := Nat.le_of_lt (List.snd_lt_of_mem_zipIdx hx)
    simp only [List.take_append_of_le_length hi]
  unfold later
  rw [List.zipIdx_append, List.filter_append, hbefore, List.map_append]
  by_cases hn : n ∈ l <;> simp [hn]

/-- The loop over names finds those at later places. -/
theorem repeats_nil_eq (l : List String) : repeats [] l = later l := by
  -- from the right end, where both look at what is before the last element
  induction l using List.reverseRecOn with
  | nil => rfl
  | append_singleton l n ih =>
    rw [repeats_concat, later_concat, ih]
    simp

example : later ["a", "b", "a", "a"] = ["a", "a"] := rfl

/-! ## Arms -/

/-- What there is to say of an arm of an entry point. -/
inductive ArmReport (u : CallUnit) (e : EntryPoint) (a : Arm) : List Problem → Prop
  /-- There is no implementation of the name. -/
  | dangling : (∀ i ∈ u.implementations, i.name ≠ a.implementation) →
      ArmReport u e a [.danglingArm e.name a.implementation]
  /-- The first implementation of the name is for another signature. -/
  | mixed {before i after} : u.implementations = before ++ i :: after →
      (∀ j ∈ before, j.name ≠ a.implementation) → i.name = a.implementation →
      i.site.signature ≠ e.signature → ArmReport u e a [.mixedSignature e.name i.name]
  /-- It is for the signature of the entry point. -/
  | fits {before i after} : u.implementations = before ++ i :: after →
      (∀ j ∈ before, j.name ≠ a.implementation) → i.name = a.implementation →
      i.site.signature = e.signature → ArmReport u e a []

theorem implementation?_eq_none_iff {name : String} :
    u.implementation? name = none ↔ ∀ i ∈ u.implementations, i.name ≠ name := by
  simp [implementation?]

/-- What is found by a name is the first implementation that has it. -/
theorem implementation?_eq_some_iff {name : String} {i : Implementation} : u.implementation? name = some i ↔
    i.name = name ∧ ∃ before after, u.implementations = before ++ i :: after ∧ ∀ j ∈ before, j.name ≠ name := by
  simp [implementation?, List.find?_eq_some_iff_append]

theorem armReport_iff {r : List Problem} : u.ArmReport e a r ↔ (u.armProblem? e a).toList = r := by
  constructor
  · intro h
    unfold armProblem?
    cases h with
    | dangling hnone => rw [implementation?_eq_none_iff.2 hnone]; rfl
    | mixed himps hbefore hname hsig =>
      rw [implementation?_eq_some_iff.2 ⟨hname, _, _, himps, hbefore⟩]
      simp [hsig]
    | fits himps hbefore hname hsig =>
      rw [implementation?_eq_some_iff.2 ⟨hname, _, _, himps, hbefore⟩]
      simp [hsig]
  · rintro rfl
    unfold armProblem?
    cases hi : u.implementation? a.implementation with
    | none => exact .dangling (implementation?_eq_none_iff.1 hi)
    | some i =>
      obtain ⟨hname, before, after, himps, hbefore⟩ := implementation?_eq_some_iff.1 hi
      by_cases hsig : i.site.signature = e.signature
      · simpa [hsig] using ArmReport.fits himps hbefore hname hsig
      · simpa [hsig] using ArmReport.mixed himps hbefore hname hsig

/-! ## Reports -/

/-- The arms of the entry points, entry by entry. -/
def arms (u : CallUnit) : List (EntryPoint × Arm) := u.entryPoints.flatMap fun e => e.arms.map (e, ·)

/-- The problems are a report on the unit. -/
def Reports (u : CallUnit) (problems : List Problem) : Prop :=
  ∃ reports, List.Forall₂ (fun x r => u.ArmReport x.1 x.2 r) u.arms reports ∧
    problems = (later (u.entryPoints.map EntryPoint.name)).map .duplicateEntry ++
      (later (u.implementations.map Implementation.name)).map .duplicateImplementation ++ reports.flatten

theorem reports_iff {problems : List Problem} : u.Reports problems ↔ problems = u.problems := by
  have hall : ∀ reports, List.Forall₂ (fun x r => u.ArmReport x.1 x.2 r) u.arms reports ↔
      reports = u.arms.map fun x => (u.armProblem? x.1 x.2).toList := by
    intro reports
    simp only [armReport_iff]
    rw [← List.forall₂_map_left_iff (f := fun x : EntryPoint × Arm => (u.armProblem? x.1 x.2).toList),
      List.forall₂_eq_eq_eq]
    exact eq_comm
  have harms : (u.arms.map fun x => (u.armProblem? x.1 x.2).toList).flatten =
      u.entryPoints.flatMap fun e => e.arms.filterMap (u.armProblem? e) := by
    rw [arms, ← List.flatMap_def, List.flatMap_assoc]
    congr 1
    funext e
    rw [List.flatMap_map, List.filterMap_eq_flatMap_toList]
  simp only [Reports, hall, exists_eq_left, harms, CallUnit.problems, repeats_nil_eq]

/-! ## Units without problems -/

theorem problems_eq_nil_iff : u.problems = [] ↔
    (u.entryPoints.map EntryPoint.name).Nodup ∧ (u.implementations.map Implementation.name).Nodup ∧
      ∀ e ∈ u.entryPoints, ∀ a ∈ e.arms, ∃ i ∈ u.implementations,
        i.name = a.implementation ∧ i.site.signature = e.signature := by
  constructor
  · intro h
    obtain ⟨hentries, himps⟩ := nodup_of_problems h
    refine ⟨hentries, himps, fun e he a ha => ?_⟩
    obtain ⟨i, hi, hsig⟩ := implementation?_of_problems h he ha
    exact ⟨i, List.mem_of_find?_eq_some hi, by simpa using List.find?_some hi, hsig⟩
  · rintro ⟨hentries, himps, harms⟩
    have hnone : ∀ e ∈ u.entryPoints, e.arms.filterMap (u.armProblem? e) = [] := by
      intro e he
      rw [List.filterMap_eq_nil_iff]
      intro a ha
      obtain ⟨i, hi, hname, hsig⟩ := harms e he a ha
      -- names differ, so the implementation that fits is the one that is found
      have hfound : u.implementation? a.implementation = some i := hname ▸ find?_name himps hi
      rw [armProblem?, hfound]
      simp [hsig]
    rw [problems, repeats_eq_nil_iff.2 ⟨hentries, fun _ _ => List.not_mem_nil⟩,
      repeats_eq_nil_iff.2 ⟨himps, fun _ _ => List.not_mem_nil⟩, List.flatMap_eq_nil_iff.2 hnone]
    rfl

/-- An arm that leads nowhere is one for whose name there is no implementation. -/
theorem of_danglingArm_mem {entry implementation : String}
    (h : .danglingArm entry implementation ∈ u.problems) :
    ∃ e ∈ u.entryPoints, ∃ a ∈ e.arms, ∀ i ∈ u.implementations, i.name ≠ a.implementation := by
  have harm : ∃ e ∈ u.entryPoints, ∃ a ∈ e.arms, u.armProblem? e a = some (.danglingArm entry implementation) := by
    simpa [problems] using h
  obtain ⟨e, he, a, ha, hp⟩ := harm
  refine ⟨e, he, a, ha, implementation?_eq_none_iff.1 ?_⟩
  unfold armProblem? at hp
  split at hp
  · next hnone => exact hnone
  · split at hp <;> cases hp

/-- The arms of a generated unit lead to the implementations of its call sites. -/
theorem danglingArm_not_mem {kind : CallKind} {sites : List CallSite} {caps : Capabilities} {strategy : Strategy}
    (h : generate kind sites caps strategy = .ok (some u)) (entry implementation : String) :
    .danglingArm entry implementation ∉ u.problems := by
  intro hmem
  obtain ⟨-, hserves, -⟩ := serves_of_generate h
  obtain ⟨e, he, a, ha, hnone⟩ := of_danglingArm_mem hmem
  rw [hserves.arms e he] at ha
  obtain ⟨s, hs, rfl⟩ := List.mem_map.1 ha
  have hsite : s ∈ u.implementations.map Implementation.site :=
    hserves.conserved.mem_iff.2 (List.mem_of_mem_filter hs)
  obtain ⟨i, hi, rfl⟩ := List.mem_map.1 hsite
  exact hnone i hi (hserves.implementations i hi).1

/-- **What does not fit together is reported, and nothing else.** The problems of a unit, generated or put
together by hand, are the one report on it. There are none exactly if the names of entry points differ, those of
implementations do, and each arm names an implementation for the signature of its entry point. In a generated
unit no arm leads nowhere. -/
theorem problems_exact (u : CallUnit) :
    (∀ problems, u.Reports problems ↔ problems = u.problems) ∧
    (u.problems = [] ↔ (u.entryPoints.map EntryPoint.name).Nodup ∧
      (u.implementations.map Implementation.name).Nodup ∧
      ∀ e ∈ u.entryPoints, ∀ a ∈ e.arms, ∃ i ∈ u.implementations,
        i.name = a.implementation ∧ i.site.signature = e.signature) ∧
    ∀ kind sites caps strategy, generate kind sites caps strategy = .ok (some u) →
      ∀ entry implementation, .danglingArm entry implementation ∉ u.problems :=
  ⟨fun _ => reports_iff, problems_eq_nil_iff, fun _ _ _ _ h => danglingArm_not_mem h⟩

end CallUnit
end DataBinding
