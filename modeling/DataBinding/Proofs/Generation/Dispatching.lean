import Mathlib.Data.List.Nodup
import DataBinding.Live.Dispatcher
import DataBinding.Proofs.Generation.Units
import DataBinding.Proofs.Naming.Tokens
/-!
# Calling what was generated

Entry points of two kinds never have one name, so the name of an entry point leads into its own unit
(`Dispatcher.entry?_of_mem`). In a unit without problems no name is given twice (`nodup_of_problems`). So a
call by the name of an entry point goes to this entry point, and from there by the name of an implementation to
this implementation.

`Dispatcher.resolve_generated`: a call is answered by the first call site of the kind and the signature that
accepts the caller, planned as it asks, and if there is none, by the error that says so.
-/

namespace DataBinding

variable {sites : List CallSite} {caps : Capabilities} {strategy : Strategy} {s : CallSite}
  {u : CallUnit} {units : List CallUnit}

/-! ## Names -/

/-- Where no two elements have one name, an element is the only one of its name. -/
theorem filter_name {α : Type} {name : α → String} {l : List α} {x : α} (hn : (l.map name).Nodup)
    (hx : x ∈ l) : l.filter (name · == name x) = [x] := by
  induction l with
  | nil => cases hx
  | cons y l ih =>
    obtain ⟨hy, hn⟩ := List.nodup_cons.1 hn
    rcases List.mem_cons.1 hx with rfl | hx
    · have hrest : l.filter (name · == name x) = [] := by
        rw [List.filter_eq_nil_iff]
        intro z hz he
        exact hy (beq_iff_eq.1 he ▸ List.mem_map_of_mem hz)
      rw [List.filter_cons_of_pos (by simp), hrest]
    · have hne : name y ≠ name x := by
        intro he
        exact hy (he ▸ List.mem_map_of_mem hx)
      rw [List.filter_cons_of_neg (by simpa using hne)]
      exact ih hn hx

/-- Where no two elements have one name, an element is found by its name. -/
theorem find?_name {α : Type} {name : α → String} {l : List α} {x : α} (hn : (l.map name).Nodup)
    (hx : x ∈ l) : l.find? (name · == name x) = some x := by
  rw [← List.head?_filter, filter_name hn hx]
  rfl

namespace CallUnit

/-- Nothing occurs again exactly if the elements differ from each other and from those that have gone by. -/
theorem repeats_eq_nil_iff {seen l : List String} :
    repeats seen l = [] ↔ l.Nodup ∧ ∀ n ∈ l, n ∉ seen := by
  induction l generalizing seen with
  | nil => simp [repeats]
  | cons n l ih =>
    unfold repeats
    split
    · next h => simp [h]
    · next h =>
      rw [ih]
      simp only [List.mem_cons, List.nodup_cons, not_or]
      grind

/-- In a unit without problems no name is given twice. -/
theorem nodup_of_problems (h : u.problems = []) : (u.entryPoints.map EntryPoint.name).Nodup ∧
    (u.implementations.map Implementation.name).Nodup := by
  simp only [problems, List.append_eq_nil_iff, List.map_eq_nil_iff] at h
  obtain ⟨⟨he, hi⟩, -⟩ := h
  exact ⟨(repeats_eq_nil_iff.1 he).1, (repeats_eq_nil_iff.1 hi).1⟩

/-! ## What is found -/

/-- There is a unit for each kind that occurs, and it serves the call sites of this kind. -/
theorem units_of_generateAll (h : generateAll sites caps strategy = .ok units) :
    units.map CallUnit.kind = CallKind.all.filter (· ∈ sites.map CallSite.kind) ∧
      ∀ u ∈ units, u.Serves (sites.filter (·.kind == u.kind)) caps strategy := by
  obtain ⟨found, rfl, hfound⟩ := generateAll_eq_ok h
  obtain ⟨hkinds, hserves, -⟩ := units_of_generate hfound
  exact ⟨hkinds, hserves⟩

/-- The unit of a kind that occurs. -/
theorem exists_unit (h : generateAll sites caps strategy = .ok units) (hs : s ∈ sites) :
    ∃ u ∈ units, u.kind = s.kind := by
  have hkind : s.kind ∈ units.map CallUnit.kind := by
    rw [(units_of_generateAll h).1, List.mem_filter]
    exact ⟨CallKind.mem_all _, by simpa using ⟨s, hs, rfl⟩⟩
  exact List.mem_map.1 hkind

variable {l : List CallSite}

/-- The entry point of a signature that occurs. -/
theorem Serves.exists_entryPoint (hu : u.Serves l caps strategy) (hs : s ∈ l) :
    ∃ e ∈ u.entryPoints, e.signature = s.signature := by
  have hmem : s.signature ∈ u.entryPoints.map EntryPoint.signature := by
    rw [hu.signatures, List.mem_eraseDups]
    exact List.mem_map_of_mem hs
  exact List.mem_map.1 hmem

/-- The arm of an entry point that answers is that of the first call site that accepts the caller. -/
theorem Serves.resolve?_eq (hu : u.Serves l caps strategy) {e : EntryPoint} (he : e ∈ u.entryPoints)
    (c : Caller) : e.resolve? c =
      (l.find? fun s => s.signature = e.signature ∧ (Rule.ofSite s strategy).accepts c).map fun s =>
        ⟨Rule.ofSite s strategy, s.implementationName⟩ := by
  rw [EntryPoint.resolve?, hu.arms e he, List.find?_map, List.find?_filter]
  simp [Bool.decide_and]

/-- A call site is found by the name that its implementation has. -/
theorem Serves.exists_implementation (hu : u.Serves l caps strategy) (hp : u.problems = []) (hs : s ∈ l) :
    ∃ p, s.plan caps = .ok p ∧
      u.implementation? s.implementationName = some ⟨s.implementationName, s, p⟩ := by
  have hmem : s ∈ u.implementations.map Implementation.site := hu.conserved.mem_iff.2 hs
  obtain ⟨⟨name, site, p⟩, hi, rfl⟩ := List.mem_map.1 hmem
  obtain ⟨hname, hplan⟩ := hu.implementations _ hi
  obtain rfl : name = site.implementationName := hname
  exact ⟨p, hplan, find?_name (nodup_of_problems hp).2 hi⟩

end CallUnit

open CallUnit

namespace Dispatcher

/-- Each kind has one unit. -/
theorem nodup_kinds (h : generateAll sites caps strategy = .ok units) :
    (units.map CallUnit.kind).Nodup := by
  rw [(units_of_generateAll h).1]
  exact CallKind.nodup_all.filter _

/-- Generated entry points of one name are in one unit. -/
theorem unit_of_name (h : generateAll sites caps strategy = .ok units) {v : CallUnit} (hu : u ∈ units)
    (hv : v ∈ units) {e f : EntryPoint} (he : e ∈ u.entryPoints) (hf : f ∈ v.entryPoints)
    (hname : e.name = f.name) : u = v := by
  have hserves := (units_of_generateAll h).2
  rw [((hserves u hu).entries e he).2, ((hserves v hv).entries f hf).2] at hname
  exact List.inj_on_of_nodup_map (nodup_kinds h) hu hv (kind_of_entryPointName hname)

/-- By the name of a generated entry point, the last one of this name in the same unit is found. -/
theorem entry?_of_mem (h : generateAll sites caps strategy = .ok units) (hu : u ∈ units) {e : EntryPoint}
    (he : e ∈ u.entryPoints) : ∃ f, u.entryPoints.reverse.find? (·.name == e.name) = some f ∧
      Dispatcher.entry? (.mk units) e.name = some (u, f) := by
  obtain ⟨f, hf⟩ : ∃ f, u.entryPoints.reverse.find? (·.name == e.name) = some f := by
    rw [← Option.isSome_iff_exists, List.find?_isSome]
    exact ⟨e, List.mem_reverse.2 he, beq_self_eq_true _⟩
  -- The search goes from the end, so only the units after this one could be in the way.
  obtain ⟨before, after, rfl⟩ := List.append_of_mem hu
  have hlater : u ∉ after :=
    (List.nodup_cons.1 (List.nodup_append.1 (List.Nodup.of_map _ (nodup_kinds h))).2.1).1
  have hnone : (after.flatMap fun v => v.entryPoints.map (v, ·)).reverse.find?
      (fun x => x.2.name == e.name) = none := by
    simp only [List.find?_eq_none, List.mem_reverse, List.mem_flatMap, List.mem_map]
    rintro - ⟨v, hv, g, hg, rfl⟩ hname
    have hsame : u = v := unit_of_name h hu (by simp [hv]) he hg (beq_iff_eq.1 hname).symm
    exact hlater (hsame ▸ hv)
  have hown : (u.entryPoints.map (u, ·)).reverse.find? (fun x => x.2.name == e.name) = some (u, f) := by
    rw [← List.map_reverse, List.find?_map]
    exact congrArg (Option.map (u, ·)) hf
  refine ⟨f, hf, ?_⟩
  unfold entry? entries
  rw [List.flatMap_append, List.flatMap_cons, List.reverse_append, List.reverse_append,
    List.find?_append, List.find?_append, hnone, hown]
  rfl

/-- An entry point is found by its name. -/
theorem entry?_generated (h : generateAll sites caps strategy = .ok units)
    (hp : ∀ u ∈ units, u.problems = []) (hu : u ∈ units) {e : EntryPoint} (he : e ∈ u.entryPoints) :
    Dispatcher.entry? (.mk units) e.name = some (u, e) := by
  have hn := (nodup_of_problems (hp u hu)).1
  rw [← List.nodup_reverse, ← List.map_reverse] at hn
  obtain ⟨f, hf, hentry⟩ := entry?_of_mem h hu he
  rw [find?_name hn (List.mem_reverse.2 he)] at hf
  rw [hentry, Option.some.inj hf]

/-- Where what was generated has no problems, a call by the name of the entry point of a call site's kind and
signature is answered by the first call site of this kind and signature that accepts the caller, with the plan
of this call site; if there is none, the call is not resolved. -/
theorem resolve_generated (h : generateAll sites caps strategy = .ok units)
    (hp : ∀ u ∈ units, u.problems = []) (hs : s ∈ sites) (c : Caller) :
    match sites.find? fun x =>
      x.kind = s.kind ∧ x.signature = s.signature ∧ (Rule.ofSite x strategy).accepts c with
    | some x => ∃ p, x.plan caps = .ok p ∧
        (Dispatcher.mk units).resolve (entryPointName s.kind s.signature) c =
          .ok ⟨x.implementationName, x, p⟩
    | none => (Dispatcher.mk units).resolve (entryPointName s.kind s.signature) c =
        .error (.unresolved (entryPointName s.kind s.signature) c.file c.line) := by
  obtain ⟨u, hu, hkind⟩ := exists_unit h hs
  have hserves := (units_of_generateAll h).2 u hu
  obtain ⟨e, he, hsig⟩ := hserves.exists_entryPoint (s := s) (by simp [hs, hkind])
  have hname : e.name = entryPointName s.kind s.signature := by
    rw [(hserves.entries e he).2, hkind, hsig]
  have hentry := entry?_generated h hp hu he
  have hfind : (sites.filter (·.kind == u.kind)).find? (fun x =>
        x.signature = e.signature ∧ (Rule.ofSite x strategy).accepts c) =
      sites.find? fun x =>
        x.kind = s.kind ∧ x.signature = s.signature ∧ (Rule.ofSite x strategy).accepts c := by
    rw [List.find?_filter, hkind, hsig]
    simp [Bool.decide_and]
  have hresolve := hserves.resolve?_eq he c
  rw [hfind] at hresolve
  rw [← hname]
  unfold resolve
  rw [hentry]
  cases hx : sites.find? fun x =>
      x.kind = s.kind ∧ x.signature = s.signature ∧ (Rule.ofSite x strategy).accepts c with
  | none =>
    rw [hx] at hresolve
    simp [hresolve]
  | some x =>
    rw [hx] at hresolve
    have hmem : x ∈ sites.filter (·.kind == u.kind) := List.mem_of_find?_eq_some (hfind.trans hx)
    obtain ⟨p, hplan, himp⟩ := hserves.exists_implementation (hp u hu) hmem
    refine ⟨p, hplan, ?_⟩
    simp [hresolve, himp]

/-- A call site that observes the name of a person. -/
def nameAt (line : UInt32) : CallSite where
  kind := .observe
  owner := ⟨"Person", false⟩
  paths := [.single ⟨"name", ⟨"String", false⟩, ⟨"Person", false⟩⟩]
  result := ⟨"String", false⟩
  features := default
  location := ⟨"people.rs", line⟩
  texts := []

/-- One on line 1, one of another kind, one on line 7. -/
def names : List CallSite := [nameAt 1, { nameAt 2 with kind := .whenAny }, nameAt 7]

theorem resolve_generated_line_seven : ∃ units p, generateAll names ⟨[]⟩ .positional = .ok units ∧
    (∀ u ∈ units, u.problems = []) ∧ nameAt 1 ∈ names ∧ (nameAt 7).plan ⟨[]⟩ = .ok p ∧
    (Dispatcher.mk units).resolve (entryPointName .observe (nameAt 1).signature)
      ⟨none, "app/people.rs", 7⟩ = .ok ⟨(nameAt 7).implementationName, nameAt 7, p⟩ := by
  have h : generateAll names ⟨[]⟩ .positional =
      .ok ((generateAll names ⟨[]⟩ .positional).toOption.getD []) := rfl
  have hp : ∀ u ∈ (generateAll names ⟨[]⟩ .positional).toOption.getD [], u.problems = [] := by
    decide +kernel
  have hs : nameAt 1 ∈ names := List.mem_cons_self
  have hfirst : (names.find? fun x => x.kind = (nameAt 1).kind ∧ x.signature = (nameAt 1).signature ∧
      (Rule.ofSite x .positional).accepts ⟨none, "app/people.rs", 7⟩) = some (nameAt 7) := by
    decide +kernel
  have hanswer := resolve_generated h hp hs ⟨none, "app/people.rs", 7⟩
  rw [hfirst] at hanswer
  obtain ⟨p, hplan, hresolve⟩ := hanswer
  exact ⟨_, p, h, hp, hs, hplan, hresolve⟩

end Dispatcher
end DataBinding
