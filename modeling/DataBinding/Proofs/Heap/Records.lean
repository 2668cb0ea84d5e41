import DataBinding.Proofs.Heap.Rosters
/-!
# Records of rosters

Whoever is registered gets the next number of a roster, and is struck off by that number. A log tells what has
happened to the rosters, in order (`RosterEvent`). From the log alone the rosters can be read (`Heap.Logged`): who has
been registered has the numbers from zero on, and those are left who have not been struck off.

An operation adds what it does to the log (`Heap.Records`, `Heap.Logged.records`), provided that only who is registered
is struck off. Then numbers on a roster ascend and are smaller than the next one (`Heap.Logged.ascending`,
`Heap.Logged.lt_nextId`), and an entry is taken off with the rest in order (`Heap.Logged.removed`).
-/

namespace DataBinding

variable {F C : Type}

/-! ## Logs -/

/-- What happens to a roster. -/
inductive RosterEvent (F C : Type) where
  /-- An observer is registered under this id. -/
  | enrolled (n : Node) (e : Nat × Observer F C)
  /-- An id is taken off. -/
  | struck (n : Node) (id : Nat)

namespace RosterEvent

def enrolled? (n : Node) : RosterEvent F C → Option (Nat × Observer F C)
  | enrolled m e => if m = n then some e else none
  | struck .. => none

def struck? (n : Node) : RosterEvent F C → Option Nat
  | enrolled .. => none
  | struck m id => if m = n then some id else none

variable (log : List (RosterEvent F C)) (n : Node)

/-- Who has been registered there, in order. -/
def enrolledAt : List (Nat × Observer F C) := log.filterMap (enrolled? n)

/-- The ids that have been taken off there. -/
def struckAt : List Nat := log.filterMap (struck? n)

end RosterEvent

open RosterEvent

namespace Heap

/-! ## Rosters and their log -/

/-- The rosters are as the log has it. -/
structure Logged (log : List (RosterEvent F C)) (h : Heap F C) : Prop where
  /-- Ids are given in order, from zero on. -/
  ids : ∀ n, (enrolledAt log n).map Prod.fst = List.range (h.nextId n)
  /-- Who has been registered is there, in order, unless the id has been taken off. -/
  roster : ∀ n, h.roster n = (enrolledAt log n).filter (·.1 ∉ struckAt log n)
  /-- An id is taken off once, and only after it has been given. -/
  once : ∀ n, (struckAt log n).Nodup
  given : ∀ n, ∀ id ∈ struckAt log n, id < h.nextId n

/-- One thing at most happens to the rosters, and handles are not filled again. -/
inductive Records : Heap F C → Option (RosterEvent F C) → Heap F C → Prop
  | none {h h' : Heap F C} : (∀ n, h'.roster n = h.roster n) → (∀ n, h'.nextId n = h.nextId n) → h.Retains h' →
      Records h none h'
  | enrolled {h h' : Heap F C} {n : Node} {y : Observer F C} : h.Enrolls n y h' →
      Records h (some (.enrolled n (h.nextId n, y))) h'
  | struck {h h' : Heap F C} {n : Node} {id : Nat} : h.Strikes n id h' → Records h (some (.struck n id)) h'

/-- Only who is registered is taken off. -/
def Warrants (h : Heap F C) (ev : Option (RosterEvent F C)) : Prop :=
  ∀ n id, ev = some (.struck n id) → id ∈ (h.roster n).map Prod.fst

/-- The entry has been taken off, and the rest is as it was, in the same order. -/
structure Removed (h : Heap F C) (n : Node) (id : Nat) (h' : Heap F C) : Prop where
  roster : ∃ before y after, h.roster n = before ++ (id, y) :: after ∧ h'.roster n = before ++ after
  others : ∀ m, m ≠ n → h'.roster m = h.roster m
  nextId : ∀ m, h'.nextId m = h.nextId m
  /-- Handlers stay what they are. -/
  handlers : ∀ o, (h'.handlers o).Sublist (h.handlers o)

variable {h h' : Heap F C} {log : List (RosterEvent F C)} {n : Node} {id : Nat} {ev : Option (RosterEvent F C)}

theorem Records.of_alike (a : h.Alike h') : h.Records .none h' := .none a.roster a.nextId a.retains

theorem Records.refl (h : Heap F C) : h.Records .none h := .none (fun _ => rfl) (fun _ => rfl) (.of_eq rfl)

theorem Records.retains (r : h.Records ev h') : h.Retains h' := by
  cases r with
  | none _ _ hr => exact hr
  | enrolled a => exact .of_eq a.handles
  | struck a => exact .of_eq a.handles

namespace Logged

theorem empty : (Heap.empty : Heap F C).Logged [] where
  ids n := by cases n <;> rfl
  roster n := by cases n <;> rfl
  once _ := List.nodup_nil
  given _ _ := nofun

section Reading
variable (l : h.Logged log)
include l

/-- **Ids on a roster ascend**, so no two are the same. -/
theorem ascending (n : Node) : (h.roster n).Pairwise (·.1 < ·.1) := by
  have hall : (enrolledAt log n).Pairwise (·.1 < ·.1) := by
    rw [← List.pairwise_map, l.ids]
    exact List.pairwise_lt_range
  rw [l.roster]
  exact hall.filter _

theorem nodup (n : Node) : ((h.roster n).map Prod.fst).Nodup :=
  List.pairwise_map.2 ((l.ascending n).imp Nat.ne_of_lt)

theorem mem_enrolledAt {e : Nat × Observer F C} (he : e ∈ h.roster n) : e ∈ enrolledAt log n := by
  rw [l.roster] at he
  exact (List.mem_filter.1 he).1

/-- Ids on a roster are smaller than the next one. -/
theorem lt_nextId {e : Nat × Observer F C} (he : e ∈ h.roster n) : e.1 < h.nextId n := by
  rw [← List.mem_range, ← l.ids]
  exact List.mem_map_of_mem (l.mem_enrolledAt he)

/-- Who is registered has not been struck off. -/
theorem not_struck (hid : id ∈ (h.roster n).map Prod.fst) : id ∉ struckAt log n := by
  obtain ⟨e, he, rfl⟩ := List.mem_map.1 hid
  rw [l.roster] at he
  simpa using (List.mem_filter.1 he).2

/-- What is struck off a roster is one entry of it. -/
theorem removed (hid : id ∈ (h.roster n).map Prod.fst) (a : h.Strikes n id h')
    (hh : ∀ o, (h'.handlers o).Sublist (h.handlers o)) : h.Removed n id h' := by
  obtain ⟨e, he, rfl⟩ := List.mem_map.1 hid
  obtain ⟨before, after, heq⟩ := List.append_of_mem he
  refine ⟨⟨before, e.2, after, heq, ?_⟩, fun m hm => ?_, a.nextId, hh⟩
  · have hasc := l.ascending n
    rw [heq, List.pairwise_append, List.pairwise_cons] at hasc
    obtain ⟨-, ⟨hafter, -⟩, hbefore⟩ := hasc
    have hkeep : before.filter (fun x => x.1 ≠ e.1) = before := by
      refine List.filter_eq_self.2 fun x hx => ?_
      simpa using Nat.ne_of_lt (hbefore x hx e List.mem_cons_self)
    have hkeep' : after.filter (fun x => x.1 ≠ e.1) = after := by
      refine List.filter_eq_self.2 fun x hx => ?_
      simpa using Nat.ne_of_gt (hafter x hx)
    rw [a.roster, if_pos rfl, heq, List.filter_append, List.filter_cons, if_neg (by simp), hkeep, hkeep']
  · rw [a.roster, if_neg hm]

end Reading

/-! ### What an operation adds -/

theorem of_eq (l : h.Logged log) (hr : ∀ n, h'.roster n = h.roster n) (hn : ∀ n, h'.nextId n = h.nextId n) :
    h'.Logged log where
  ids n := by rw [hn, l.ids]
  roster n := by rw [hr, l.roster]
  once := l.once
  given n := by rw [hn]; exact l.given n

theorem enrolls {y : Observer F C} (l : h.Logged log) (a : h.Enrolls n y h') :
    h'.Logged (log ++ [.enrolled n (h.nextId n, y)]) := by
  have hstruck : ∀ m, struckAt (log ++ [RosterEvent.enrolled n (h.nextId n, y)]) m = struckAt log m := fun m => by
    simp [struckAt, struck?]
  have henrolled : ∀ m, enrolledAt (log ++ [RosterEvent.enrolled n (h.nextId n, y)]) m =
      enrolledAt log m ++ if n = m then [(h.nextId n, y)] else [] := fun m => by
    simp only [enrolledAt, List.filterMap_append]
    split <;> simp_all [enrolled?]
  constructor
  · intro m
    rw [henrolled, a.nextId]
    by_cases hm : m = n
    · subst hm
      simp [l.ids, List.range_succ]
    · rw [if_neg (Ne.symm hm), if_neg hm, List.append_nil, l.ids]
  · intro m
    rw [henrolled, hstruck, a.roster]
    by_cases hm : m = n
    · subst hm
      have hnew : h.nextId m ∉ struckAt log m := fun hid => Nat.lt_irrefl _ (l.given m _ hid)
      rw [if_pos rfl, if_pos rfl, List.filter_append, ← l.roster, List.filter_cons_of_pos (by simpa using hnew),
        List.filter_nil]
    · rw [if_neg (Ne.symm hm), if_neg hm, List.append_nil, l.roster]
  · intro m
    rw [hstruck]
    exact l.once m
  · intro m id hid
    rw [hstruck] at hid
    exact Nat.lt_of_lt_of_le (l.given m id hid) (a.le_nextId m)

theorem strikes (l : h.Logged log) (hid : id ∈ (h.roster n).map Prod.fst) (a : h.Strikes n id h') :
    h'.Logged (log ++ [.struck n id]) := by
  have henrolled : ∀ m, enrolledAt (log ++ [RosterEvent.struck n id]) m = enrolledAt log m := fun m => by
    simp [enrolledAt, enrolled?]
  have hstruck : ∀ m, struckAt (log ++ [(RosterEvent.struck n id : RosterEvent F C)]) m =
      struckAt log m ++ if n = m then [id] else [] := fun m => by
    simp only [struckAt, List.filterMap_append]
    split <;> simp_all [struck?]
  have hlt : id < h.nextId n := by
    obtain ⟨e, he, rfl⟩ := List.mem_map.1 hid
    exact l.lt_nextId he
  constructor
  · intro m
    rw [henrolled, a.nextId, l.ids]
  · intro m
    rw [henrolled, hstruck, a.roster]
    by_cases hm : m = n
    · subst hm
      rw [if_pos rfl, if_pos rfl, l.roster, List.filter_filter]
      refine List.filter_congr fun e _ => ?_
      simp [not_or, and_comm]
    · rw [if_neg (Ne.symm hm), if_neg hm, List.append_nil, l.roster]
  · intro m
    rw [hstruck]
    split
    -- who is struck was registered, so not struck before
    · next hm =>
      subst hm
      refine List.nodup_append.2 ⟨l.once n, List.pairwise_singleton _ id, fun a ha b hb hab => ?_⟩
      exact l.not_struck hid (List.mem_singleton.1 hb ▸ hab ▸ ha)
    · simpa using l.once m
  · intro m j hj
    rw [a.nextId]
    rw [hstruck] at hj
    split at hj
    · next hm =>
      subst hm
      rcases List.mem_append.1 hj with hj | hj
      · exact l.given n j hj
      · exact List.mem_singleton.1 hj ▸ hlt
    · exact l.given m j (by simpa using hj)

/-- **The log is kept**, if only who is registered is taken off. -/
theorem records (l : h.Logged log) (r : h.Records ev h') (hs : h.Warrants ev) : h'.Logged (log ++ ev.toList) := by
  cases r with
  | none hr hn =>
    rw [Option.toList_none, List.append_nil]
    exact l.of_eq hr hn
  | enrolled a => exact l.enrolls a
  | struck a => exact l.strikes (hs _ _ rfl) a

end Logged

end Heap

end DataBinding
