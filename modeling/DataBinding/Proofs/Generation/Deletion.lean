import DataBinding.Proofs.Generation.Dispatching
import DataBinding.Proofs.Supply.Parameters
/-!
# Call sites that are deleted

What is generated for a call site depends on the call site alone, and the parameters of an entry point on its
kind and signature alone. So where call sites are deleted, what is generated for the others stays as it is
(`CallUnit.generate_sublist`): an entry point loses the arms of the call sites that are gone, and is gone
itself if these were all.

Which call sites of a list are kept is said by a mask: the same call site may be there twice, and only one of
the two be deleted.
-/

namespace DataBinding

variable {α β : Type}

/-- The elements of a list that a mask keeps. -/
def masked (l : List α) (mask : List Bool) : List α := ((l.zip mask).filter Prod.snd).map Prod.fst

/-- What a mask says of the elements with some property. -/
def marks (p : α → Bool) (l : List α) (mask : List Bool) : List Bool :=
  ((l.zip mask).filter fun x => p x.1).map Prod.snd

/-- Each sublist is what some mask keeps. -/
theorem exists_masked {kept l : List α} (h : kept.Sublist l) : ∃ mask, masked l mask = kept := by
  induction h with
  | slnil => exact ⟨[], rfl⟩
  | cons x _ ih =>
    obtain ⟨mask, hm⟩ := ih
    exact ⟨false :: mask, by simpa [masked] using hm⟩
  | cons_cons x _ ih =>
    obtain ⟨mask, hm⟩ := ih
    exact ⟨true :: mask, by simpa [masked] using hm⟩

theorem mem_of_mem_masked {l : List α} {mask : List Bool} {x : α} (h : x ∈ masked l mask) : x ∈ l := by
  obtain ⟨⟨y, b⟩, hy, rfl⟩ := List.mem_map.1 h
  exact (List.of_mem_zip (List.mem_of_mem_filter hy)).1

theorem map_masked (f : α → β) (l : List α) (mask : List Bool) :
    (masked l mask).map f = masked (l.map f) mask := by
  simp [masked, List.zip_map_left, List.filter_map, Function.comp_def]

/-- It is all the same whether elements are kept before others are picked or after. -/
theorem filter_masked (p : α → Bool) (l : List α) (mask : List Bool) :
    (masked l mask).filter p = masked (l.filter p) (marks p l mask) := by
  induction l generalizing mask with
  | nil => rfl
  | cons x l ih =>
    cases mask with
    | nil => simp [masked, marks]
    | cons b mask =>
      specialize ih mask
      simp only [masked, marks, List.zip_cons_cons] at ih ⊢
      cases hx : p x <;> cases b <;> simp [hx, ih]

namespace CallUnit

variable {sites kept : List CallSite} {mask : List Bool} {kind : CallKind} {caps : Capabilities}
  {strategy : Strategy} {u : CallUnit} {k : Signature} {x y : Option CallUnit}

/-- The implementations of the call sites of one signature. -/
def implementationsOf (u : CallUnit) (k : Signature) : List Implementation :=
  u.implementations.filter (·.site.signature = k)

/-- What a mask of call sites says of those of one signature. -/
abbrev marksOf (sites : List CallSite) (mask : List Bool) (k : Signature) : List Bool :=
  marks (·.signature = k) sites mask

/-! ## The implementations of a signature -/

/-- The call sites of one signature are implemented in their order. -/
theorem map_site_implementationsOf (h : generate kind sites caps strategy = .ok (some u)) (k : Signature) :
    (u.implementationsOf k).map Implementation.site = sites.filter (·.signature = k) := by
  obtain ⟨-, parts, hparts, rfl⟩ := generate_eq_ok h
  have hsites := (parts_eq hparts).2.1
  rw [← filter_flatMap_members, ← hsites, List.filter_map]
  rfl

/-- Implementations of the same call sites are the same. -/
theorem implementations_unique {is js : List Implementation}
    (hi : ∀ i ∈ is, i.name = i.site.implementationName ∧ i.site.plan caps = .ok i.plan)
    (hj : ∀ j ∈ js, j.name = j.site.implementationName ∧ j.site.plan caps = .ok j.plan)
    (h : is.map Implementation.site = js.map Implementation.site) : is = js := by
  induction is generalizing js with
  | nil => exact (List.map_eq_nil_iff.1 h.symm).symm
  | cons i is ih =>
    obtain ⟨j, js, rfl, hsite, hrest⟩ := List.map_eq_cons_iff.1 h.symm
    obtain ⟨⟨hname, hplan⟩, hi⟩ := List.forall_mem_cons.1 hi
    obtain ⟨⟨hname', hplan'⟩, hj⟩ := List.forall_mem_cons.1 hj
    rw [ih hi hj hrest.symm]
    rw [hsite] at hname' hplan'
    have hplans : i.plan = j.plan := Except.ok.inj (hplan.symm.trans hplan')
    obtain ⟨name, site, plan⟩ := i
    obtain ⟨name', site', plan'⟩ := j
    simp_all

/-! ## The entry points -/

/-- The entry point that serves the signature of a call site. -/
def entryFor (kind : CallKind) (strategy : Strategy) (sites : List CallSite) (s : CallSite) : EntryPoint where
  name := entryPointName kind s.signature
  kind := kind
  signature := s.signature
  parameters := s.parameters strategy
  arms := (sites.filter (·.signature = s.signature)).map fun x => ⟨Rule.ofSite x strategy, x.implementationName⟩

/-- The entry point depends on the kind and the signature alone. -/
theorem entryFor_congr {s s' : CallSite} (hkind : s.kind = s'.kind) (hsig : s.signature = s'.signature) :
    entryFor kind strategy sites s = entryFor kind strategy sites s' := by
  simp only [entryFor, hsig, CallSite.parameters_congr hkind hsig]

theorem kind_of_generate (h : generate kind sites caps strategy = .ok x) : ∀ s ∈ sites, s.kind = kind :=
  fun s hs => (CallSite.check_eq_ok_iff.1 (exists_generate_iff.1 ⟨x, h⟩ s hs)).1

/-- There is an entry point for each call site, and no other. -/
theorem mem_entryPoints_iff (h : generate kind sites caps strategy = .ok x) {e : EntryPoint} :
    (∃ u ∈ x, e ∈ u.entryPoints) ↔ ∃ s ∈ sites, e = entryFor kind strategy sites s := by
  cases x with
  | none => simp [sites_eq_nil_of_generate h]
  | some u =>
    have hkinds := kind_of_generate h
    obtain ⟨rfl, hu, -⟩ := serves_of_generate h
    have hentry : ∀ e ∈ u.entryPoints, ∀ s ∈ sites, s.signature = e.signature →
        e = entryFor u.kind strategy sites s := by
      intro e he s hs hsig
      obtain ⟨hkind, hname⟩ := hu.entries e he
      have hparams := hu.parameters_eq hkinds he hs hsig
      have harms := hu.arms e he
      obtain ⟨name, kind, signature, parameters, arms⟩ := e
      simp_all [entryFor]
    simp only [Option.mem_some_iff, exists_eq_left']
    constructor
    · intro he
      obtain ⟨s, hfind, -⟩ := hu.parameters e he
      have hs : s ∈ sites := List.mem_of_find?_eq_some hfind
      have hsig : s.signature = e.signature := by simpa using List.find?_some hfind
      exact ⟨s, hs, hentry e he s hs hsig⟩
    · rintro ⟨s, hs, rfl⟩
      obtain ⟨e, he, hsig⟩ := hu.exists_entryPoint hs
      rwa [← hentry e he s hs hsig.symm]

/-- An entry point without the arms of the call sites that a mask deletes. -/
def lessened (sites : List CallSite) (mask : List Bool) (e : EntryPoint) : EntryPoint :=
  { e with arms := masked e.arms (marksOf sites mask e.signature) }

/-- The entry point of a call site for those that are kept. -/
theorem lessened_entryFor (s : CallSite) : lessened sites mask (entryFor kind strategy sites s) =
    entryFor kind strategy (masked sites mask) s := by
  simp only [lessened, entryFor, filter_masked, map_masked]

/-! ## Units of some call sites and of all -/

/-- What a unit has become where call sites are deleted. -/
structure Lessened (sites : List CallSite) (mask : List Bool) (strategy : Strategy)
    (x y : Option CallUnit) : Prop where
  /-- An entry point has an arm for each call site of its signature, in their order. -/
  arms : ∀ u ∈ x, ∀ e ∈ u.entryPoints, e.arms = (sites.filter (·.signature = e.signature)).map fun s =>
    ⟨Rule.ofSite s strategy, s.implementationName⟩
  /-- The call sites of a signature are implemented in their order. -/
  implemented : ∀ k, (x.elim [] (·.implementationsOf k)).map Implementation.site = sites.filter (·.signature = k)
  /-- No two entry points of a unit have one signature. -/
  told : ∀ u, u ∈ x ∨ u ∈ y → (u.entryPoints.map EntryPoint.signature).Nodup
  /-- The entry points are those that still have arms, and are as they were but for the arms of the call
  sites that were deleted. -/
  entries : ∀ e, (∃ v ∈ y, e ∈ v.entryPoints) ↔
    ∃ u ∈ x, ∃ e' ∈ u.entryPoints, e = lessened sites mask e' ∧ e.arms ≠ []
  /-- The implementations of the call sites that are left are as they were. -/
  implementations : ∀ k, y.elim [] (·.implementationsOf k) =
    masked (x.elim [] (·.implementationsOf k)) (marksOf sites mask k)

/-- Each implementation of a signature, for any unit or none. -/
theorem map_site_elim (h : generate kind sites caps strategy = .ok x) (k : Signature) :
    (x.elim [] (·.implementationsOf k)).map Implementation.site = sites.filter (·.signature = k) ∧
      ∀ i ∈ x.elim [] (·.implementationsOf k),
        i.name = i.site.implementationName ∧ i.site.plan caps = .ok i.plan := by
  cases x with
  | none => simp [sites_eq_nil_of_generate h]
  | some u =>
    refine ⟨map_site_implementationsOf h k, fun i hi => ?_⟩
    exact (serves_of_generate h).2.1.implementations i (List.mem_of_mem_filter hi)

/-- Where call sites are deleted, what is generated for the others stays as it is. -/
theorem lessened_of_generate (h : generate kind sites caps strategy = .ok x)
    (h' : generate kind (masked sites mask) caps strategy = .ok y) :
    Lessened sites mask strategy x y := by
  refine ⟨?_, fun k => (map_site_elim h k).1, ?_, fun e => ?_, fun k => ?_⟩
  · rintro u rfl
    exact (serves_of_generate h).2.1.arms
  · have hnodup : ∀ {l z} {u : CallUnit}, generate kind l caps strategy = .ok z → u ∈ z →
        (u.entryPoints.map EntryPoint.signature).Nodup := by
      rintro l z u hz rfl
      rw [(serves_of_generate hz).2.1.signatures, ← map_signature_groups]
      exact nodup_map_signature_groups l
    rintro u (hu | hu)
    · exact hnodup h hu
    · exact hnodup h' hu
  · rw [mem_entryPoints_iff h']
    constructor
    · rintro ⟨s, hs, rfl⟩
      have hmem : s ∈ (masked sites mask).filter (·.signature = s.signature) := by simpa using hs
      obtain ⟨u, hu, he⟩ := (mem_entryPoints_iff h).2 ⟨s, mem_of_mem_masked hs, rfl⟩
      refine ⟨u, hu, _, he, (lessened_entryFor s).symm, ?_⟩
      exact List.ne_nil_of_mem (List.mem_map_of_mem hmem)
    · rintro ⟨u, hu, e', he', rfl, hne⟩
      obtain ⟨s, hs, rfl⟩ := (mem_entryPoints_iff h).1 ⟨u, hu, he'⟩
      rw [lessened_entryFor] at hne ⊢
      -- an arm that is left is that of a call site that is kept
      obtain ⟨a, ha⟩ := List.exists_mem_of_ne_nil _ hne
      obtain ⟨s', hs', rfl⟩ := List.mem_map.1 ha
      obtain ⟨hkept, hsig⟩ := List.mem_filter.1 hs'
      have hsig : s'.signature = s.signature := by simpa using hsig
      have hkinds : s.kind = s'.kind := (kind_of_generate h s hs).trans
        (kind_of_generate h s' (mem_of_mem_masked hkept)).symm
      exact ⟨s', hkept, entryFor_congr hkinds hsig.symm⟩
  · obtain ⟨hsites, hall⟩ := map_site_elim h k
    obtain ⟨hsites', hall'⟩ := map_site_elim h' k
    refine implementations_unique hall' (fun i hi => hall i (mem_of_mem_masked hi)) ?_
    rw [map_masked, hsites, hsites', filter_masked]

/-- Deleting call sites of those that are accepted. Whatever mask says which are kept: all implementations of
call sites that are kept stay as they are, and so do all entry points, but for the arms of the call sites that
are gone. -/
theorem generate_sublist (caps : Capabilities) (hs : ∀ s ∈ sites, s.check kind strategy = .ok ())
    (hk : kept.Sublist sites) :
    ∃ x y, generate kind sites caps strategy = .ok x ∧ generate kind kept caps strategy = .ok y ∧
      (∃ mask, masked sites mask = kept) ∧
      ∀ mask, masked sites mask = kept → Lessened sites mask strategy x y := by
  obtain ⟨x, hx⟩ : ∃ x, generate kind sites caps strategy = .ok x := exists_generate_iff.2 hs
  obtain ⟨y, hy⟩ : ∃ y, generate kind kept caps strategy = .ok y :=
    exists_generate_iff.2 fun s h => hs s (hk.subset h)
  refine ⟨x, y, hx, hy, exists_masked hk, ?_⟩
  rintro mask rfl
  exact lessened_of_generate hx hy

open Dispatcher (nameAt)

/-- Three call sites, the first and the last of one signature. -/
def twoSignatures : List CallSite :=
  [nameAt 1,
    { nameAt 4 with paths := [.single ⟨"age", ⟨"u32", false⟩, ⟨"Person", false⟩⟩], result := ⟨"u32", false⟩ },
    nameAt 7]

theorem generate_sublist_last : (∀ s ∈ twoSignatures, s.check .observe .positional = .ok ()) ∧
    [nameAt 7].Sublist twoSignatures ∧
    ∃ x y, generate .observe twoSignatures ⟨[]⟩ .positional = .ok x ∧
      generate .observe [nameAt 7] ⟨[]⟩ .positional = .ok y ∧
      Lessened twoSignatures [false, false, true] .positional x y := by
  have hs : ∀ s ∈ twoSignatures, s.check .observe .positional = .ok () := by decide +kernel
  have hk : [nameAt 7].Sublist twoSignatures := by decide
  obtain ⟨x, y, hx, hy, -, hall⟩ := generate_sublist ⟨[]⟩ hs hk
  exact ⟨hs, hk, x, y, hx, hy, hall _ rfl⟩

end CallUnit
end DataBinding
