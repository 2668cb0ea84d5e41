import Mathlib.Data.List.Induction
import Mathlib.Data.List.Nodup
import DataBinding.Signature
/-!
# Grouping by signature

A call site is put into the group of its signature. So the groups are one for each signature, in the
order in which signatures first occur (`map_signature_groups`), and each holds the call sites of its
signature in their order (`members_of_mem_groups`): together all of them, each as often as it is given
(`flatMap_members_groups`).
-/

namespace DataBinding

open List

/-! ## First occurrences -/

section Occurrences

variable {α : Type} [DecidableEq α]

/-- What is added at the end stays unless it is there already. -/
theorem eraseDups_concat (l : List α) (x : α) :
    (l ++ [x]).eraseDups = if x ∈ l then l.eraseDups else l.eraseDups ++ [x] := by
  by_cases hx : x ∈ l <;> simp [eraseDups_append, removeAll, hx, eraseDups_cons]

theorem nodup_eraseDups (l : List α) : l.eraseDups.Nodup := by
  induction l using reverseRecOn with
  | nil => exact nodup_nil
  | append_singleton l x ih =>
    rw [eraseDups_concat]
    split
    · exact ih
    · next hx => exact nodup_append.2 ⟨ih, by simp, by simpa using fun y hy (he : y = x) => hx (he ▸ hy)⟩

end Occurrences

/-! ## Groups -/

namespace Group

variable (s : CallSite) (gs : List Group)

/-- A signature that is not there yet comes last. -/
theorem map_signature_insert :
    (insert s gs).map Group.signature =
      if s.signature ∈ gs.map Group.signature then gs.map Group.signature
      else gs.map Group.signature ++ [s.signature] := by
  induction gs with
  | nil => simp [insert]
  | cons g gs ih =>
    by_cases hg : g.signature = s.signature
    · simp [insert, hg]
    · simp only [insert, hg, if_false, map_cons, ih, mem_cons, Ne.symm hg, false_or]
      split <;> rfl

/-- All members are still there, and the call site is one more. -/
theorem flatMap_members_insert : ((insert s gs).flatMap members).Perm (gs.flatMap members ++ [s]) := by
  induction gs with
  | nil => simp [insert, members]
  | cons g gs ih =>
    by_cases hg : g.signature = s.signature
    · have hmembers : ({ g with rest := g.rest ++ [s] } : Group).members = g.members ++ [s] := rfl
      rw [insert, if_pos hg, flatMap_cons, flatMap_cons, hmembers, append_assoc, append_assoc]
      exact perm_append_comm.append_left _
    · simp only [insert, hg, if_false, flatMap_cons, append_assoc]
      exact ih.append_left _

variable {s gs} {g : Group}

/-- A group is one of another signature, or the one of the call site's signature with it at the end, or a
new one. -/
theorem cases_mem_insert (hn : (gs.map Group.signature).Nodup) (hg : g ∈ insert s gs) :
    (g ∈ gs ∧ g.signature ≠ s.signature) ∨
    (∃ g' ∈ gs, g'.signature = s.signature ∧ g.signature = s.signature ∧ g.members = g'.members ++ [s]) ∨
    (s.signature ∉ gs.map Group.signature ∧ g.signature = s.signature ∧ g.members = [s]) := by
  induction gs with
  | nil =>
    obtain rfl := mem_singleton.1 hg
    exact .inr (.inr ⟨not_mem_nil, rfl, rfl⟩)
  | cons a gs ih =>
    obtain ⟨ha, hn⟩ := nodup_cons.1 hn
    by_cases hs : a.signature = s.signature
    · rw [insert, if_pos hs] at hg
      rcases mem_cons.1 hg with rfl | hg
      · exact .inr (.inl ⟨a, mem_cons_self, hs, hs, rfl⟩)
      · refine .inl ⟨mem_cons_of_mem _ hg, fun he => ha ?_⟩
        rw [hs, ← he]
        exact mem_map_of_mem hg
    · simp only [insert, hs, if_false] at hg
      rcases mem_cons.1 hg with rfl | hg
      · exact .inl ⟨mem_cons_self, hs⟩
      · rcases ih hn hg with ⟨hm, hne⟩ | ⟨g', hm, h⟩ | ⟨hnew, h⟩
        · exact .inl ⟨mem_cons_of_mem _ hm, hne⟩
        · exact .inr (.inl ⟨g', mem_cons_of_mem _ hm, h⟩)
        · refine .inr (.inr ⟨?_, h⟩)
          rw [map_cons, mem_cons, not_or]
          exact ⟨Ne.symm hs, hnew⟩

end Group

/-! ## All call sites -/

theorem groups_concat (sites : List CallSite) (s : CallSite) :
    groups (sites ++ [s]) = Group.insert s (groups sites) := by
  rw [groups, foldl_append]
  rfl

/-- There is a group for each signature, in the order in which these first occur. -/
theorem map_signature_groups (sites : List CallSite) :
    (groups sites).map Group.signature = (sites.map CallSite.signature).eraseDups := by
  induction sites using reverseRecOn with
  | nil => rfl
  | append_singleton sites s ih =>
    rw [groups_concat, Group.map_signature_insert, ih, map_append, map_singleton, eraseDups_concat]
    simp only [mem_eraseDups]

theorem nodup_map_signature_groups (sites : List CallSite) :
    ((groups sites).map Group.signature).Nodup :=
  map_signature_groups sites ▸ nodup_eraseDups _

/-- A group holds the call sites of its signature, in their order. -/
theorem members_of_mem_groups {sites : List CallSite} {g : Group} (hg : g ∈ groups sites) :
    g.members = sites.filter (·.signature = g.signature) := by
  induction sites using reverseRecOn generalizing g with
  | nil => exact absurd hg not_mem_nil
  | append_singleton sites s ih =>
    rw [groups_concat] at hg
    rw [filter_append]
    rcases Group.cases_mem_insert (nodup_map_signature_groups sites) hg with
      ⟨hm, hne⟩ | ⟨g', hm, hs, he, h⟩ | ⟨hnew, he, h⟩
    · simp [ih hm, Ne.symm hne]
    · simp [h, ih hm, hs, he]
    · rw [map_signature_groups, mem_eraseDups] at hnew
      have hnone : ∀ x ∈ sites, x.signature ≠ s.signature := fun x hx hxs => hnew (mem_map.2 ⟨x, hx, hxs⟩)
      simpa [h, he] using hnone

/-- No call site is lost, and none comes twice. -/
theorem flatMap_members_groups (sites : List CallSite) :
    ((groups sites).flatMap Group.members).Perm sites := by
  induction sites using reverseRecOn with
  | nil => exact .nil
  | append_singleton sites s ih =>
    rw [groups_concat]
    exact (Group.flatMap_members_insert s _).trans (ih.append_right [s])

/-- The members of all groups that have some signature are the call sites of this signature, in their order. -/
theorem filter_flatMap_members (sites : List CallSite) (k : Signature) :
    ((groups sites).flatMap Group.members).filter (·.signature = k) = sites.filter (·.signature = k) := by
  have hmembers : ∀ gs : List Group, (∀ g ∈ gs, g ∈ groups sites) → (gs.map Group.signature).Nodup →
      (gs.flatMap Group.members).filter (·.signature = k) =
        if k ∈ gs.map Group.signature then sites.filter (·.signature = k) else [] := by
    intro gs hgs hn
    induction gs with
    | nil => rfl
    | cons g gs ih =>
      obtain ⟨hg, hn⟩ := nodup_cons.1 hn
      obtain ⟨hmem, hgs⟩ := forall_mem_cons.1 hgs
      rw [flatMap_cons, filter_append, ih hgs hn, members_of_mem_groups hmem, filter_filter]
      by_cases hk : g.signature = k
      · simp [hk, show k ∉ gs.map Group.signature from hk ▸ hg]
      · have hnone : ∀ s ∈ sites, s.signature = k → s.signature ≠ g.signature := by
          intro s _ hs he
          exact hk (he.symm.trans hs)
        simp [Ne.symm hk]
        exact hnone
  rw [hmembers _ (fun g hg => hg) (nodup_map_signature_groups sites)]
  split
  · rfl
  · next hk =>
    rw [map_signature_groups, mem_eraseDups] at hk
    exact (filter_eq_nil_iff.2 fun s hs => by simpa using fun he => hk (mem_map.2 ⟨s, hs, he⟩)).symm

end DataBinding
