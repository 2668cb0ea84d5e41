import DataBinding.Proofs.Generation.Groups
/-!
# Grouping is a stable partition

The groups are the call sites of each signature, those of the signature that occurs first before the others, and
each group in the order given. Nothing else is in them, so grouping what the groups hold gives them back
(`groups_partition`).

They can be made in one pass with a table that tells where the group of a signature is (`IndexedGroups`). What is
in the table and what is in the list stay in step (`IndexedGroups.Sound`), so the list is the one that a search
for the group of each call site would give (`IndexedGroups.groups_ofSites`).
-/

namespace DataBinding

open List

/-! ## One pass with a table -/

/-- Groups in the making, and where in the list those of the signatures met so far are. -/
structure IndexedGroups where
  places : List (Signature × Nat)
  groups : List Group

namespace IndexedGroups

/-- The group found through the table takes the call site; if there is none, a new one comes last. -/
def put (x : IndexedGroups) (s : CallSite) : IndexedGroups :=
  match x.places.lookup s.signature with
  | some i => { x with groups := x.groups.modify i fun g => { g with rest := g.rest ++ [s] } }
  | none => ⟨(s.signature, x.groups.length) :: x.places, x.groups ++ [⟨s.signature, s, []⟩]⟩

/-- The groups of a list of call sites, with their table. -/
def ofSites (sites : List CallSite) : IndexedGroups := sites.foldl put ⟨[], []⟩

/-- The table tells for each signature where its group is, and tells so for no other signature. -/
def Sound (x : IndexedGroups) : Prop :=
  ∀ k i, x.places.lookup k = some i ↔ (x.groups.map Group.signature)[i]? = some k

variable {x : IndexedGroups} {s : CallSite}

theorem Sound.nodup (hx : x.Sound) : (x.groups.map Group.signature).Nodup := by
  -- the table has one place for a signature, so two places of the list cannot share it
  rw [nodup_iff_getElem?_ne_getElem?]
  intro i j hij hj he
  obtain ⟨k, hk⟩ : ∃ k, (x.groups.map Group.signature)[j]? = some k := ⟨_, getElem?_eq_getElem hj⟩
  have hi : x.places.lookup k = some i := (hx k i).2 (he.trans hk)
  have hj : x.places.lookup k = some j := (hx k j).2 hk
  rw [hi] at hj
  exact Nat.ne_of_lt hij (Option.some.inj hj)

theorem Sound.lookup_eq_none_iff (hx : x.Sound) (k : Signature) :
    x.places.lookup k = none ↔ k ∉ x.groups.map Group.signature := by
  constructor
  · intro hnone hk
    obtain ⟨i, hi⟩ := mem_iff_getElem?.1 hk
    rw [(hx k i).2 hi] at hnone
    cases hnone
  · intro hk
    cases hl : x.places.lookup k with
    | none => rfl
    | some i => exact absurd (mem_iff_getElem?.2 ⟨i, (hx k i).1 hl⟩) hk

end IndexedGroups

namespace Group

variable {s : CallSite} {gs : List Group}

/-- The first group of the signature takes the call site, wherever it is. -/
theorem insert_eq_modify (hn : (gs.map Group.signature).Nodup) {i : Nat}
    (hi : (gs.map Group.signature)[i]? = some s.signature) :
    insert s gs = gs.modify i fun g => { g with rest := g.rest ++ [s] } := by
  induction gs generalizing i with
  | nil => cases hi
  | cons g gs ih =>
    obtain ⟨hg, hn⟩ := nodup_cons.1 hn
    cases i with
    | zero =>
      have hs : g.signature = s.signature := Option.some.inj hi
      rw [insert, if_pos hs, modify_zero_cons]
    | succ i =>
      have hi : (gs.map Group.signature)[i]? = some s.signature := hi
      have hs : g.signature ≠ s.signature := fun hs => hg (hs ▸ mem_iff_getElem?.2 ⟨i, hi⟩)
      rw [insert, if_neg hs, modify_succ_cons, ih hn hi]

theorem insert_eq_append (hs : s.signature ∉ gs.map Group.signature) :
    insert s gs = gs ++ [⟨s.signature, s, []⟩] := by
  induction gs with
  | nil => rfl
  | cons g gs ih =>
    rw [map_cons, mem_cons, not_or] at hs
    rw [insert, if_neg (Ne.symm hs.1), ih hs.2, cons_append]

end Group

namespace IndexedGroups

variable {x : IndexedGroups}

/-- What the table finds is what a search finds. -/
theorem Sound.groups_put (hx : x.Sound) (s : CallSite) : (x.put s).groups = Group.insert s x.groups := by
  unfold put
  split
  · next i hi => exact (Group.insert_eq_modify hx.nodup ((hx _ i).1 hi)).symm
  · next hnone => exact (Group.insert_eq_append ((hx.lookup_eq_none_iff _).1 hnone)).symm

theorem getElem?_concat_eq_some_iff {α : Type} {l : List α} {a b : α} {i : Nat} :
    (l ++ [a])[i]? = some b ↔ l[i]? = some b ∨ i = l.length ∧ a = b := by
  rcases Nat.lt_trichotomy i l.length with hi | rfl | hi
  · simp [getElem?_append_left hi, Nat.ne_of_lt hi]
  · simp
  · have hnone : (l ++ [a])[i]? = none := getElem?_eq_none_iff.2 (by simpa using Nat.succ_le_of_lt hi)
    simp [hnone, getElem?_eq_none_iff.2 (Nat.le_of_lt hi), Nat.ne_of_gt hi]

/-- The table stays in step. -/
theorem Sound.put (hx : x.Sound) (s : CallSite) : (x.put s).Sound := by
  intro k i
  rw [hx.groups_put, Group.map_signature_insert]
  unfold IndexedGroups.put
  split
  · next j hj =>
    rw [if_pos (mem_iff_getElem?.2 ⟨j, (hx _ j).1 hj⟩)]
    exact hx k i
  · next hnone =>
    have hnew := (hx.lookup_eq_none_iff _).1 hnone
    rw [if_neg hnew, getElem?_concat_eq_some_iff, length_map, ← hx k i]
    by_cases hk : k = s.signature
    · subst hk
      simp [hnone, eq_comm]
    · simp [lookup_cons, beq_eq_false_iff_ne.2 hk, Ne.symm hk]

theorem sound_ofSites (sites : List CallSite) : (ofSites sites).Sound := by
  induction sites using reverseRecOn with
  | nil => exact fun _ _ => by simp [ofSites]
  | append_singleton sites s ih =>
    rw [ofSites, foldl_append]
    exact ih.put s

/-- One pass with the table gives the groups. -/
theorem groups_ofSites (sites : List CallSite) : (ofSites sites).groups = DataBinding.groups sites := by
  induction sites using reverseRecOn with
  | nil => rfl
  | append_singleton sites s ih =>
    rw [groups_concat, ← ih, ← (sound_ofSites sites).groups_put, ofSites, foldl_append]
    rfl

end IndexedGroups

/-! ## The partition -/

namespace Group

/-- Nothing but the signature and the members makes a group. -/
theorem eq_of_members {g g' : Group} (hk : g.signature = g'.signature) (hm : g.members = g'.members) : g = g' := by
  obtain ⟨k, first, rest⟩ := g
  obtain ⟨k', first', rest'⟩ := g'
  obtain rfl : k = k' := hk
  obtain ⟨rfl, rfl⟩ : first = first' ∧ rest = rest' := cons.inj hm
  rfl

/-- Call sites that are sorted by signature have the signatures of their groups. -/
theorem eraseDups_signatures {gs : List Group} (hn : (gs.map Group.signature).Nodup)
    (hs : ∀ g ∈ gs, ∀ s ∈ g.members, s.signature = g.signature) :
    ((gs.flatMap members).map CallSite.signature).eraseDups = gs.map Group.signature := by
  induction gs with
  | nil => rfl
  | cons g gs ih =>
    obtain ⟨hg, hn⟩ := nodup_cons.1 hn
    obtain ⟨hself, hgs⟩ := forall_mem_cons.1 hs
    have hsame : g.members.map CallSite.signature = replicate (g.rest.length + 1) g.signature :=
      eq_replicate_iff.2 ⟨by simp [members], by simpa using hself⟩
    have hother : ∀ k ∈ (gs.flatMap members).map CallSite.signature, k ≠ g.signature := by
      intro k hk hkg
      obtain ⟨s, hs, rfl⟩ := mem_map.1 hk
      obtain ⟨g', hg', hs⟩ := mem_flatMap.1 hs
      rw [hgs g' hg' s hs] at hkg
      exact hg (hkg ▸ mem_map_of_mem hg')
    -- the signature of the first group does not come again
    have hrest : ((gs.flatMap members).map CallSite.signature).removeAll (g.members.map CallSite.signature) =
        (gs.flatMap members).map CallSite.signature := by
      rw [hsame]
      exact filter_eq_self.2 fun k hk => by simpa using hother k hk
    have hone : (g.members.map CallSite.signature).eraseDups = [g.signature] := by
      rw [hsame, replicate_succ, eraseDups_cons, filter_eq_nil_iff.2 (by simp)]
      rfl
    rw [flatMap_cons, map_append, eraseDups_append, hrest, ih hn hgs, hone]
    rfl

end Group

/-- The groups are the call sites of each signature, the signatures in the order in which they first occur. -/
theorem map_groups (sites : List CallSite) :
    (groups sites).map (fun g => (g.signature, g.members)) =
      (sites.map CallSite.signature).eraseDups.map fun k => (k, sites.filter (·.signature = k)) := by
  rw [← map_signature_groups, map_map]
  refine map_congr_left fun g hg => ?_
  rw [members_of_mem_groups hg]
  rfl

/-- Call sites are grouped alike if their signatures first occur in the same order and those of each signature
are the same. -/
theorem groups_congr {sites sites' : List CallSite}
    (hk : (sites.map CallSite.signature).eraseDups = (sites'.map CallSite.signature).eraseDups)
    (hs : ∀ k, sites.filter (·.signature = k) = sites'.filter (·.signature = k)) : groups sites = groups sites' := by
  have hinj : Function.Injective fun g : Group => (g.signature, g.members) := fun g g' h =>
    Group.eq_of_members (Prod.mk.inj h).1 (Prod.mk.inj h).2
  apply map_injective_iff.2 hinj
  rw [map_groups, map_groups, hk]
  exact map_congr_left fun k _ => by rw [hs k]

/-- **Grouping is the stable partition by signature.** There is one group for each signature that occurs, in the
order of the first occurrences, and its members are the call sites of that signature in their order. So no group
is empty, every member has its group's signature, no two groups share one, and together the groups hold what was
given. Grouping what they hold gives the same groups again; and so does one pass with a table of the places of
the groups. -/
theorem groups_partition (sites : List CallSite) :
    (groups sites).map (fun g => (g.signature, g.members)) =
      (sites.map CallSite.signature).eraseDups.map (fun k => (k, sites.filter (·.signature = k))) ∧
    (∀ g ∈ groups sites, g.members ≠ [] ∧ ∀ s ∈ g.members, s.signature = g.signature) ∧
    ((groups sites).map Group.signature).Nodup ∧
    ((groups sites).flatMap Group.members).Perm sites ∧
    groups ((groups sites).flatMap Group.members) = groups sites ∧
    (IndexedGroups.ofSites sites).groups = groups sites := by
  have hmembers : ∀ g ∈ groups sites, ∀ s ∈ g.members, s.signature = g.signature := by
    intro g hg s hs
    rw [members_of_mem_groups hg] at hs
    exact of_decide_eq_true (mem_filter.1 hs).2
  refine ⟨map_groups sites, fun g hg => ⟨cons_ne_nil _ _, hmembers g hg⟩, nodup_map_signature_groups sites,
    flatMap_members_groups sites, groups_congr ?_ (filter_flatMap_members sites), IndexedGroups.groups_ofSites sites⟩
  rw [Group.eraseDups_signatures (nodup_map_signature_groups sites) hmembers, map_signature_groups]

end DataBinding
