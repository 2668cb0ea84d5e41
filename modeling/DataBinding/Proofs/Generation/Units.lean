import DataBinding.CallUnit
import DataBinding.Proofs.CallSite.Accepted
import DataBinding.Proofs.Generation.Groups
import DataBinding.Proofs.Outcomes
/-!
# Generated units

The unit of a kind has an entry point for each signature that occurs among the call sites, in the order in
which these first occur, and an arm of it for each call site of the signature, in their order
(`CallUnit.Serves`).

`CallUnit.generateAll_conserves`: units are generated exactly if every call site is accepted, one for each
kind that occurs; together they implement all call sites, each as often as it is given. Otherwise the first
call site that is turned down, kind by kind, says why.
-/

namespace DataBinding

variable {sites : List CallSite} {kind : CallKind} {caps : Capabilities} {strategy : Strategy}
  {s : CallSite} {g : Group} {u : CallUnit} {units : List CallUnit} {r : Rejection}

/-- The call sites kind by kind, in the order in which units are generated. -/
def CallSite.byKind (sites : List CallSite) : List CallSite :=
  CallKind.all.flatMap fun kind => sites.filter (·.kind == kind)

theorem CallKind.mem_all (kind : CallKind) : kind ∈ all := by
  cases kind <;> decide

theorem CallKind.nodup_all : all.Nodup := by
  decide

/-- Each call site is there, as often as it is given. -/
theorem CallSite.byKind_perm (sites : List CallSite) : (byKind sites).Perm sites := by
  rw [List.perm_iff_count]
  intro s
  have hcount : ∀ kind, (sites.filter (·.kind == kind)).count s =
      if kind = s.kind then sites.count s else 0 := by
    intro kind
    split
    · next h => exact List.count_filter (by simp [h])
    · next h => exact List.count_eq_zero.2 (by simp [Ne.symm h])
  simp only [byKind, List.count_flatMap, Function.comp_def, hcount]
  cases s.kind <;> simp [CallKind.all]

namespace CallUnit

/-- What the unit of a kind holds for the call sites of this kind. -/
structure Serves (u : CallUnit) (sites : List CallSite) (caps : Capabilities) (strategy : Strategy) :
    Prop where
  /-- There is an entry point for each signature, in the order in which these first occur. -/
  signatures : u.entryPoints.map EntryPoint.signature = (sites.map CallSite.signature).eraseDups
  /-- Entry points are named for the kind and the signature. -/
  entries : ∀ e ∈ u.entryPoints, e.kind = u.kind ∧ e.name = entryPointName u.kind e.signature
  /-- The parameters are those of the first call site of the signature. -/
  parameters : ∀ e ∈ u.entryPoints, ∃ s, sites.find? (·.signature = e.signature) = some s ∧
    e.parameters = s.parameters strategy
  /-- There is an arm for each call site of the signature, in their order. -/
  arms : ∀ e ∈ u.entryPoints, e.arms = (sites.filter (·.signature = e.signature)).map fun s =>
    ⟨Rule.ofSite s strategy, s.implementationName⟩
  /-- Each call site is implemented, as often as it is given. -/
  conserved : (u.implementations.map Implementation.site).Perm sites
  /-- What a call site is implemented by is named for it, and is planned as it asks. -/
  implementations : ∀ i ∈ u.implementations,
    i.name = i.site.implementationName ∧ i.site.plan caps = .ok i.plan

/-! ## One kind -/

/-- The implementation of a call site is named for it, and is planned as it asks. -/
theorem implement_eq_ok_iff {i : Implementation} : implement caps s = .ok i ↔
    i.site = s ∧ i.name = s.implementationName ∧ s.plan caps = .ok i.plan := by
  obtain ⟨name, site, plan⟩ := i
  unfold implement
  cases s.plan caps with
  | error r => simp [bind, Except.bind]
  | ok p =>
    simp only [bind, Except.bind, pure, Except.pure, Except.ok.injEq, Implementation.mk.injEq]
    grind

/-- What a group is made into. -/
theorem ofGroup_eq_ok {x : EntryPoint × List Implementation} (h : ofGroup kind caps strategy g = .ok x) :
    g.members.mapM (implement caps) = .ok x.2 ∧
      x.1 = EntryPoint.ofGroup (entryPointName kind g.signature) g (x.2.map Implementation.name)
        strategy := by
  obtain ⟨is, hm, h⟩ := bind_eq_ok_iff.1 h
  cases h
  exact ⟨hm, rfl⟩

/-- The call sites of the implementations are those given, and each implementation is right. -/
theorem implementations_eq {is : List Implementation} {l : List CallSite}
    (h : l.mapM (implement caps) = .ok is) :
    is.map Implementation.site = l ∧ is.map Implementation.name = l.map CallSite.implementationName ∧
      ∀ i ∈ is, i.name = i.site.implementationName ∧ i.site.plan caps = .ok i.plan := by
  rw [mapM_eq_ok_iff] at h
  induction h with
  | nil => simp
  | @cons s i l is hi _ ih =>
    obtain ⟨rfl, hname, hplan⟩ := implement_eq_ok_iff.1 hi
    obtain ⟨hsites, hnames, hall⟩ := ih
    simp [hsites, hnames, hname, hplan]
    exact fun j hj => hall j hj

/-- The entry point that leads to the members of a group. -/
def entry (kind : CallKind) (strategy : Strategy) (g : Group) : EntryPoint :=
  .ofGroup (entryPointName kind g.signature) g (g.members.map CallSite.implementationName) strategy

/-- The entry point of a group has an arm for each member, in their order. -/
theorem arms_ofGroup (name : String) (g : Group) (strategy : Strategy) :
    (EntryPoint.ofGroup name g (g.members.map CallSite.implementationName) strategy).arms =
      g.members.map fun s => ⟨Rule.ofSite s strategy, s.implementationName⟩ := by
  simp only [EntryPoint.ofGroup]
  induction g.members with
  | nil => rfl
  | cons s l ih => simp [ih]

/-- What call sites are made into, if there are any: the groups are made into entry points and
implementations. -/
theorem generate_eq_ok (h : generate kind sites caps strategy = .ok (some u)) :
    (∀ s ∈ sites, s.check kind strategy = .ok ()) ∧
      ∃ parts, (groups sites).mapM (ofGroup kind caps strategy) = .ok parts ∧
        u = ⟨kind, parts.map Prod.fst, parts.flatMap Prod.snd⟩ := by
  unfold generate at h
  split at h
  · cases h
  · obtain ⟨_, hc, h⟩ := bind_eq_ok_iff.1 h
    obtain ⟨parts, hp, h⟩ := bind_eq_ok_iff.1 h
    cases h
    exact ⟨forM_eq_ok_iff.1 hc, parts, hp, rfl⟩

/-- The entry points of groups, and the implementations of all members. -/
theorem parts_eq {gs : List Group} {parts : List (EntryPoint × List Implementation)}
    (h : gs.mapM (ofGroup kind caps strategy) = .ok parts) :
    parts.map Prod.fst = gs.map (entry kind strategy) ∧
      (parts.flatMap Prod.snd).map Implementation.site = gs.flatMap Group.members ∧
      ∀ i ∈ parts.flatMap Prod.snd, i.name = i.site.implementationName ∧ i.site.plan caps = .ok i.plan := by
  rw [mapM_eq_ok_iff] at h
  induction h with
  | nil => simp
  | @cons g x gs parts hx _ ih =>
    obtain ⟨hmembers, hentry⟩ := ofGroup_eq_ok hx
    obtain ⟨hsites, hnames, hplans⟩ := implementations_eq hmembers
    obtain ⟨hfst, hsnd, hall⟩ := ih
    refine ⟨?_, ?_, ?_⟩
    · rw [List.map_cons, List.map_cons, hfst, hentry, hnames, entry]
    · rw [List.flatMap_cons, List.flatMap_cons, List.map_append, hsites, hsnd]
    · rw [List.flatMap_cons, List.forall_mem_append]
      exact ⟨hplans, hall⟩

/-- The first member of a group is the first call site of its signature. -/
theorem find?_of_mem_groups (hg : g ∈ groups sites) :
    sites.find? (·.signature = g.signature) = some g.first := by
  rw [← List.head?_filter, ← members_of_mem_groups hg]
  rfl

/-- A unit serves the call sites that it is generated for, all of which are accepted. -/
theorem serves_of_generate (h : generate kind sites caps strategy = .ok (some u)) :
    u.kind = kind ∧ u.Serves sites caps strategy ∧ ∀ s ∈ sites, s.check kind strategy = .ok () := by
  obtain ⟨hchecked, parts, hparts, rfl⟩ := generate_eq_ok h
  obtain ⟨hentries, hsites, hplans⟩ := parts_eq hparts
  refine ⟨rfl, ⟨?_, ?_, ?_, ?_, ?_, hplans⟩, hchecked⟩
  · rw [← map_signature_groups, hentries, List.map_map]
    rfl
  all_goals simp only [hentries, List.forall_mem_map, hsites]
  · intro g hg
    have hfirst := List.mem_of_find?_eq_some (find?_of_mem_groups hg)
    exact ⟨(CallSite.check_eq_ok_iff.1 (hchecked g.first hfirst)).1, rfl⟩
  · intro g hg
    exact ⟨g.first, find?_of_mem_groups hg, rfl⟩
  · intro g hg
    rw [entry, arms_ofGroup, members_of_mem_groups hg]
    rfl
  · exact flatMap_members_groups sites

/-- There is a unit unless there are no call sites. -/
theorem sites_eq_nil_of_generate (h : generate kind sites caps strategy = .ok none) : sites = [] := by
  unfold generate at h
  split at h
  · next hempty => exact List.isEmpty_iff.1 hempty
  · obtain ⟨_, -, h⟩ := bind_eq_ok_iff.1 h
    obtain ⟨parts, -, h⟩ := bind_eq_ok_iff.1 h
    cases h

/-- Groups of call sites that are accepted can be made into entry points and implementations. -/
theorem exists_parts (caps : Capabilities) (hs : ∀ s ∈ sites, s.check kind strategy = .ok ()) :
    ∃ parts, (groups sites).mapM (ofGroup kind caps strategy) = .ok parts := by
  refine exists_mapM_iff.2 fun g hg => ?_
  have hplans : ∀ s ∈ g.members, ∃ i, implement caps s = .ok i := by
    intro s hm
    rw [members_of_mem_groups hg] at hm
    obtain ⟨p, hp⟩ := CallSite.exists_plan_of_check (hs s (List.mem_of_mem_filter hm)) caps
    exact ⟨⟨s.implementationName, s, p⟩, implement_eq_ok_iff.2 ⟨rfl, rfl, hp⟩⟩
  obtain ⟨is, his⟩ := exists_mapM_iff.2 hplans
  exact ⟨_, by rw [ofGroup, his]; rfl⟩

/-- Call sites that are accepted are served by a unit. -/
theorem exists_generate (caps : Capabilities) (hne : sites ≠ []) (hs : ∀ s ∈ sites, s.check kind strategy = .ok ()) :
    ∃ u, generate kind sites caps strategy = .ok (some u) := by
  obtain ⟨parts, hparts⟩ := exists_parts caps hs
  have hempty : sites.isEmpty = false := by simpa using hne
  have hchecked : (sites.forM fun s => s.check kind strategy) = .ok () := forM_eq_ok_iff.2 hs
  refine ⟨⟨kind, parts.map Prod.fst, parts.flatMap Prod.snd⟩, ?_⟩
  rw [generate, hempty, hchecked, hparts]
  rfl

/-- The first call site that is turned down says why there is no unit. -/
theorem generate_eq_error_iff :
    generate kind sites caps strategy = .error r ↔ FirstError (·.check kind strategy) sites r := by
  rw [← forM_eq_error_iff]
  cases sites with
  | nil => simp [generate, pure, Except.pure]
  | cons s sites =>
    cases hc : (s :: sites).forM fun s => s.check kind strategy with
    | error r' => simp [generate, hc, bind, Except.bind]
    | ok =>
      obtain ⟨u, hu⟩ := exists_generate caps (List.cons_ne_nil s sites) (forM_eq_ok_iff.1 hc)
      simp [hu]

theorem exists_generate_iff :
    (∃ x, generate kind sites caps strategy = .ok x) ↔ ∀ s ∈ sites, s.check kind strategy = .ok () :=
  (FailsAs.exists_ok_iff fun _ => generate_eq_error_iff).trans
    (forall₂_congr fun _ _ => ⟨fun ⟨_, h⟩ => h, fun h => ⟨(), h⟩⟩)

/-! ## All kinds -/

/-- A call site is accepted, as one of its own kind. -/
abbrev accepts (strategy : Strategy) (s : CallSite) : Except Rejection Unit := s.check s.kind strategy

/-- The call sites of a kind are told apart by their own kind. -/
theorem check_filter_kind (hs : s ∈ sites.filter (·.kind == kind)) :
    s.check kind strategy = accepts strategy s := by
  have hk : s.kind = kind := by simpa using (List.mem_filter.1 hs).2
  rw [accepts, hk]

theorem failsAs_generateAll (sites : List CallSite) (caps : Capabilities) (strategy : Strategy) :
    FailsAs (generateAll sites caps strategy) (accepts strategy) (CallSite.byKind sites) := by
  have hkind : ∀ kind ∈ CallKind.all, FailsAs (generate kind (sites.filter (·.kind == kind)) caps strategy)
      (accepts strategy) (sites.filter (·.kind == kind)) := fun kind _ =>
    FailsAs.congr (fun r => generate_eq_error_iff) fun s hs => check_filter_kind hs
  exact (List.append_nil (CallSite.byKind sites)) ▸ (FailsAs.mapM hkind).bind fun found => .ok _

/-- The units of some kinds, which hold the call sites of these kinds. -/
theorem units_of_generate {kinds : List CallKind} {found : List (Option CallUnit)}
    (h : List.Forall₂ (fun kind x => generate kind (sites.filter (·.kind == kind)) caps strategy = .ok x)
      kinds found) :
    (found.filterMap id).map CallUnit.kind = kinds.filter (· ∈ sites.map CallSite.kind) ∧
      (∀ u ∈ found.filterMap id, u.Serves (sites.filter (·.kind == u.kind)) caps strategy) ∧
      ((found.filterMap id).flatMap fun u => u.implementations.map Implementation.site).Perm
        (kinds.flatMap fun kind => sites.filter (·.kind == kind)) := by
  induction h with
  | nil => simp
  | @cons kind x kinds found hx _ ih =>
    obtain ⟨hkinds, hserves, hperm⟩ := ih
    cases x with
    | none =>
      have hnone : sites.filter (·.kind == kind) = [] := sites_eq_nil_of_generate hx
      have habsent : kind ∉ sites.map CallSite.kind := by
        simpa [List.filter_eq_nil_iff] using hnone
      rw [List.filterMap_cons_none rfl, List.filter_cons_of_neg (by simpa using habsent),
        List.flatMap_cons, hnone, List.nil_append]
      exact ⟨hkinds, hserves, hperm⟩
    | some u =>
      obtain ⟨rfl, hu, -⟩ := serves_of_generate hx
      have hpresent : u.kind ∈ sites.map CallSite.kind := by
        by_contra habsent
        have hnone : sites.filter (·.kind == u.kind) = [] := by
          simpa [List.filter_eq_nil_iff] using habsent
        rw [hnone] at hx
        cases hx
      have hfound : (some u :: found).filterMap id = u :: found.filterMap id := rfl
      rw [hfound, List.filter_cons_of_pos (by simpa using hpresent),
        List.map_cons, List.flatMap_cons, List.flatMap_cons, List.forall_mem_cons, hkinds]
      exact ⟨rfl, ⟨hu, hserves⟩, hu.conserved.append hperm⟩

theorem generateAll_eq_ok (h : generateAll sites caps strategy = .ok units) :
    ∃ found, units = found.filterMap id ∧ List.Forall₂ (fun kind x =>
      generate kind (sites.filter (·.kind == kind)) caps strategy = .ok x) CallKind.all found := by
  obtain ⟨found, hf, h⟩ := bind_eq_ok_iff.1 h
  cases h
  exact ⟨found, rfl, mapM_eq_ok_iff.1 hf⟩

theorem generateAll_eq_error_iff : generateAll sites caps strategy = .error r ↔
    FirstError (accepts strategy) (CallSite.byKind sites) r :=
  failsAs_generateAll sites caps strategy r

/-- Units are generated if and only if every call site is accepted; otherwise, the first one that is not,
kind by kind, says why. Planning a call site that is accepted does not fail.

There is a unit for each kind that occurs, in the order of the kinds, which serves the call sites of its
kind; and the call sites that are implemented are all those given. -/
theorem generateAll_conserves (sites : List CallSite) (caps : Capabilities) (strategy : Strategy) :
    ((∃ units, generateAll sites caps strategy = .ok units) ↔
        ∀ s ∈ sites, s.check s.kind strategy = .ok ()) ∧
      (∀ s ∈ sites, s.check s.kind strategy = .ok () → ∃ p, s.plan caps = .ok p) ∧
      match generateAll sites caps strategy with
      | .error r => FirstError (fun s => s.check s.kind strategy) (CallSite.byKind sites) r
      | .ok units =>
        units.map CallUnit.kind = CallKind.all.filter (· ∈ sites.map CallSite.kind) ∧
          (∀ u ∈ units, u.Serves (sites.filter (·.kind == u.kind)) caps strategy) ∧
          (units.flatMap fun u => u.implementations.map Implementation.site).Perm sites := by
  refine ⟨⟨?_, ?_⟩, fun s _ hs => CallSite.exists_plan_of_check hs caps, ?_⟩
  · rintro ⟨units, h⟩ s hs
    rcases exists_firstError_or (accepts strategy) (CallSite.byKind sites) with ⟨r, hr⟩ | hall
    · rw [generateAll_eq_error_iff.2 hr] at h
      cases h
    · exact (hall s ((CallSite.byKind_perm sites).mem_iff.2 hs)).choose_spec
  · intro hs
    cases h : generateAll sites caps strategy with
    | ok units => exact ⟨units, rfl⟩
    | error r =>
      exact absurd (fun s hm => ⟨(), hs s ((CallSite.byKind_perm sites).mem_iff.1 hm)⟩)
        (generateAll_eq_error_iff.1 h).not_forall
  · cases h : generateAll sites caps strategy with
    | error r => exact generateAll_eq_error_iff.1 h
    | ok units =>
      obtain ⟨found, rfl, hfound⟩ := generateAll_eq_ok h
      obtain ⟨hkinds, hserves, hperm⟩ := units_of_generate hfound
      exact ⟨hkinds, hserves, hperm.trans (CallSite.byKind_perm sites)⟩

end CallUnit
end DataBinding
