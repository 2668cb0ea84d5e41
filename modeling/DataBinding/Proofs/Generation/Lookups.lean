import DataBinding.Proofs.Generation.Dispatching
import DataBinding.Proofs.Naming.Signatures
/-!
# What a dispatcher finds

A dispatcher looks for an entry point by its name in all units, and for an implementation by its name in the
unit of this entry point. Two things may go wrong: an entry point may be hidden by a later one of its name, and
an arm may name an implementation that is not there, or that is there for something else.

`Dispatcher.names_tell_kinds`: names of two kinds are never the same, nor are those of entry points and of
implementations; so what is generated is only hidden by what is generated for the same kind.
`Dispatcher.resolve_of_problems`: in units without problems, whoever put them together, no call comes to an
implementation that is not there, and it comes to the only one of its name.
-/

namespace DataBinding

variable {u : CallUnit} {units : List CallUnit}

namespace CallUnit

/-- What an arm names is there, for a call site of the right signature. -/
theorem implementation?_of_problems (h : u.problems = []) {e : EntryPoint} (he : e ∈ u.entryPoints) {a : Arm}
    (ha : a ∈ e.arms) :
    ∃ i, u.implementation? a.implementation = some i ∧ i.site.signature = e.signature := by
  simp only [problems, List.append_eq_nil_iff, List.flatMap_eq_nil_iff, List.filterMap_eq_nil_iff] at h
  have hnone := h.2 e he a ha
  unfold armProblem? at hnone
  split at hnone
  · cases hnone
  · next i hi =>
    split at hnone
    · cases hnone
    · next hsig => exact ⟨i, hi, not_not.1 hsig⟩

/-- What is found by a name is the only implementation of its own name. -/
theorem filter_implementations (h : u.problems = []) {name : String} {i : Implementation}
    (hi : u.implementation? name = some i) : u.implementations.filter (·.name == i.name) = [i] :=
  filter_name (nodup_of_problems h).2 (List.mem_of_find?_eq_some hi)

end CallUnit

open CallUnit

namespace Dispatcher

/-- The unit that is found holds the entry point that is found. -/
theorem mem_of_found {name : String} {e : EntryPoint} (h : Dispatcher.entry? (.mk units) name = some (u, e)) :
    u ∈ units ∧ e ∈ u.entryPoints := by
  have hmem := List.mem_reverse.1 (List.mem_of_find?_eq_some h)
  simp only [entries, List.mem_flatMap, List.mem_map] at hmem
  obtain ⟨v, hv, f, hf, heq⟩ := hmem
  obtain ⟨rfl, rfl⟩ := Prod.mk.inj heq
  exact ⟨hv, hf⟩

/-- The names of entry points tell their kinds, and so do those of implementations; and none is a name of both.
Hence by the name of a generated entry point, a dispatcher finds the last one of this name in the same unit:
only this one may hide it. -/
theorem names_tell_kinds :
    (∀ kind kind' k k', entryPointName kind k = entryPointName kind' k' → kind = kind') ∧
      (∀ s s' : CallSite, s.implementationName = s'.implementationName → s.kind = s'.kind) ∧
      (∀ kind k (s : CallSite), entryPointName kind k ≠ s.implementationName) ∧
      ∀ sites caps strategy units, generateAll sites caps strategy = .ok units →
        ∀ u ∈ units, ∀ e ∈ u.entryPoints, ∃ f, u.entryPoints.reverse.find? (·.name == e.name) = some f ∧
          Dispatcher.entry? (.mk units) e.name = some (u, f) := by
  refine ⟨fun _ _ _ _ => kind_of_entryPointName, fun _ _ => CallSite.kind_of_implementationName,
    entryPointName_ne_implementationName, fun _ _ _ _ h _ hu _ he => entry?_of_mem h hu he⟩

/-- The first of two entry points is hidden by the second, as their signatures have one text. -/
theorem names_tell_kinds_aged :
    ∃ units, generateAll [aged ⟨"int?", false⟩ 7, aged ⟨"int", true⟩ 8] ⟨[]⟩ .text = .ok units ∧
      ∃ u ∈ units, ∃ e ∈ u.entryPoints, ∃ f ∈ u.entryPoints, e ≠ f ∧
        Dispatcher.entry? (.mk units) e.name = some (u, f) := by
  let sites := [aged ⟨"int?", false⟩ 7, aged ⟨"int", true⟩ 8]
  have h : generateAll sites ⟨[]⟩ .text = .ok ((generateAll sites ⟨[]⟩ .text).toOption.getD []) := rfl
  have hlast : ∃ u ∈ (generateAll sites ⟨[]⟩ .text).toOption.getD [], ∃ e ∈ u.entryPoints,
      ∃ f ∈ u.entryPoints, e ≠ f ∧ u.entryPoints.reverse.find? (·.name == e.name) = some f := by
    decide +kernel
  obtain ⟨u, hu, e, he, f, hf, hne, hfind⟩ := hlast
  obtain ⟨g, hg, hentry⟩ := names_tell_kinds.2.2.2 _ _ _ _ h u hu e he
  obtain rfl : f = g := Option.some.inj (hfind.symm.trans hg)
  exact ⟨_, h, u, hu, e, he, f, hf, hne, hentry⟩

/-- Where no unit has a problem, a call that names no entry point fails as such, and one that no arm accepts is
not resolved. All others come to an implementation, the only one of its name in the unit of the entry point
that is found, and its call site has the signature of this entry point. -/
theorem resolve_of_problems (hp : ∀ u ∈ units, u.problems = []) (name : String) (c : Caller) :
    match (Dispatcher.mk units).resolve name c with
    | .ok i => ∃ u ∈ units, ∃ e, Dispatcher.entry? (.mk units) name = some (u, e) ∧
        u.implementations.filter (·.name == i.name) = [i] ∧ i.site.signature = e.signature
    | .error r => (r = .unknownEntry name ∧ Dispatcher.entry? (.mk units) name = none) ∨
        ∃ u e, r = .unresolved name c.file c.line ∧ Dispatcher.entry? (.mk units) name = some (u, e) ∧
          e.resolve? c = none := by
  unfold resolve
  cases hentry : Dispatcher.entry? (.mk units) name with
  | none => exact .inl ⟨rfl, rfl⟩
  | some x =>
    obtain ⟨u, e⟩ := x
    obtain ⟨hu, he⟩ := mem_of_found hentry
    cases harm : e.resolve? c with
    | none =>
      simp only [harm]
      exact .inr ⟨u, e, trivial, rfl, harm⟩
    | some a =>
      obtain ⟨i, hi, hsig⟩ := implementation?_of_problems (hp u hu) he (List.mem_of_find?_eq_some harm)
      simp only [harm, hi]
      exact ⟨u, hu, e, rfl, filter_implementations (hp u hu) hi, hsig⟩

/-- A unit put together by hand: an entry point `read`, with one arm for a line. -/
def reading (kind : CallKind) (implementation : String) (line : UInt32) : CallUnit where
  kind := kind
  entryPoints := [⟨"read", kind, (nameAt line).signature, [], [⟨.positional line "people.rs", implementation⟩]⟩]
  implementations := [⟨implementation, nameAt line,
    .observation ⟨.constant (.single ⟨"name", ⟨"String", false⟩, ⟨"Person", false⟩⟩), []⟩⟩]

/-- Two units have an entry point of one name; the call comes to the implementation in the last of them. -/
theorem resolve_of_problems_reading :
    let units := [reading .observe "first" 1, reading .whenAny "second" 7]
    (∀ u ∈ units, u.problems = []) ∧ ∃ i u e, i.name = "second" ∧
      (Dispatcher.mk units).resolve "read" ⟨none, "people.rs", 7⟩ = .ok i ∧
      Dispatcher.entry? (.mk units) "read" = some (u, e) ∧
      u.implementations.filter (·.name == i.name) = [i] ∧ i.site.signature = e.signature := by
  intro units
  have hp : ∀ u ∈ units, u.problems = [] := by decide +kernel
  have hname : ((Dispatcher.mk units).resolve "read" ⟨none, "people.rs", 7⟩).toOption.map
      Implementation.name = some "second" := by decide +kernel
  have hanswer := resolve_of_problems hp "read" ⟨none, "people.rs", 7⟩
  cases hi : (Dispatcher.mk units).resolve "read" ⟨none, "people.rs", 7⟩ with
  | error r =>
    rw [hi] at hname
    cases hname
  | ok i =>
    rw [hi] at hanswer hname
    obtain ⟨u, -, e, hentry, honly, hsig⟩ := hanswer
    exact ⟨hp, i, u, e, Option.some.inj hname, rfl, hentry, honly, hsig⟩

end Dispatcher
end DataBinding
