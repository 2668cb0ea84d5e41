import DataBinding.Proofs.Machine.Alive
import DataBinding.Proofs.Machine.Completes
import DataBinding.Proofs.Wrapped.Relation
/-!
# The same is alive in both runs

The second run holds what the first one holds, and besides the root, with each wrapped value, and what the selector
refers to (`Wrapping.extras`). Where these are alive in the first run anyway, the same is alive in both
(`Wrapping.Linked.alive`).
-/

namespace DataBinding

variable {F C S : Type}

section Definitions
variable (g : Wrapping F C S)

/-- The second list holds what the first one holds, and of the rest only what the second run holds anyway. -/
structure Wrapping.Covers (l l' : List Node) : Prop where
  left : ∀ n ∈ l, n ∈ l'
  right : ∀ n ∈ l', n ∈ l ∨ n ∈ g.extras

/-- The same command in both runs. -/
inductive Command.Wraps : Command F C → Command F C → Prop
  | set (o p v) : Wraps (.set o p v) (.set o p v)
  | write (root path v) : Wraps (.write root path v) (.write root path v)
  | next (j v) : Wraps (.next j v) (.next j v)
  | deliver {x y} (v) : x.Wraps g y → Wraps (.deliver x v) (.deliver y v)
  | subscribe {x y x' y'} : Request.Wraps g (x, y) (x', y') → Wraps (.subscribe x y) (.subscribe x' y')
  | subscribeAll (ms) {rest rest'} : List.Forall₂ (Request.Wraps g) rest rest' →
      Wraps (.subscribeAll ms rest) (.subscribeAll ms rest')
  | undo (t) : Wraps (.undo t) (.undo t)
  | undoAll (ms) : Wraps (.undoAll ms none) (.undoAll ms none)
  | disposeComposite (i) : Wraps (.disposeComposite i) (.disposeComposite i)
  | schedule (i) {t u} : t.Wraps g u → Wraps (.schedule i t) (.schedule i u)

/-- The same in both runs; the code that notes values is given none. -/
inductive Control.Wraps : Control F C → Control F C → Prop
  | run {c c'} : c.Wraps g c' → Wraps (.run c) (.run c')
  | pass (signal) : Wraps (.pass signal) (.pass signal)
  | resume {c signal} : (c = g.code → signal.values = []) → Wraps (.resume c signal) (.resume c signal)

/-- The same is under way in both runs. -/
inductive Frame.Wraps : Frame F C → Frame F C → Prop
  | subscribed {x y} (t) : x.Wraps g y → Wraps (.subscribed x t) (.subscribed y t)
  | notifying {x y rest rest'} (o v) : x.Wraps g y → List.Forall₂ (Handler.Wraps g) rest rest' →
      Wraps (.notifying x rest o v) (.notifying y rest' o v)
  | publishing {x y rest rest'} (j v) : x.Wraps g y → List.Forall₂ (Observer.Wraps g) rest rest' →
      Wraps (.publishing x rest j v) (.publishing y rest' j v)
  | announcing (o p old new) : Wraps (.announcing o p old new) (.announcing o p old new)
  | changed (o old new) : Wraps (.changed o old new) (.changed o old new)
  | passing {x y} (v) : x.Wraps g y → Wraps (.passing x v) (.passing y v)
  | writing (root) : Wraps (.writing root) (.writing root)
  | gathering {e e' rest rest'} (ms) : Request.Wraps g e e' → List.Forall₂ (Request.Wraps g) rest rest' →
      Wraps (.gathering e.2 ms rest) (.gathering e'.2 ms rest')
  | relocating (i) : Wraps (.relocating i) (.relocating i)
  | opening (i) : Wraps (.opening i) (.opening i)
  | switching (i n inner) {x y} : x.Wraps g y → Wraps (.switching i n inner x) (.switching i n inner y)
  | entering (i n inner) : Wraps (.entering i n inner) (.entering i n inner)
  | closing (i) : Wraps (.closing i) (.closing i)
  | undoing (ms) : Wraps (.undoing ms none) (.undoing ms none)

/-- Worlds of both runs: what has been noted since then, is wrapped in the second run. -/
structure Wrapping.Joint (before : List Value) (w w' : World F C S) : Prop where
  heap : w.heap.Wraps g w'.heap
  refs : g.client.refs w'.client = g.client.refs w.client
  seen : ∃ vs vs', g.seen w.client = before ++ vs ∧ g.seen w'.client = before ++ vs' ∧ List.Forall₂ g.Shows vs vs'

/-- Both runs are at the same thing. -/
structure Wrapping.Linked (before : List Value) (s s' : State F C S) : Prop where
  control : s.control.Wraps g s'.control
  frames : List.Forall₂ (Frame.Wraps g) s.frames s'.frames
  joint : g.Joint before s.world s'.world

end Definitions

variable {g : Wrapping F C S} {h h' : Heap F C}

/-! ## What is held -/

namespace Wrapping.Covers

variable {l l' m m' : List Node}

theorem refl (l : List Node) : g.Covers l l := ⟨fun _ => id, fun _ => .inl⟩

theorem append (hl : g.Covers l l') (hm : g.Covers m m') : g.Covers (l ++ m) (l' ++ m') where
  left n hn := List.mem_append.2 ((List.mem_append.1 hn).imp (hl.left n) (hm.left n))
  right n hn := by
    rcases List.mem_append.1 hn with hn | hn
    · exact (hl.right n hn).imp_left fun hn => List.mem_append.2 (.inl hn)
    · exact (hm.right n hn).imp_left fun hn => List.mem_append.2 (.inr hn)

theorem flatMap {α : Type} {R : α → α → Prop} {xs ys : List α} {f f' : α → List Node} (hx : List.Forall₂ R xs ys)
    (hf : ∀ x y, R x y → g.Covers (f x) (f' y)) : g.Covers (xs.flatMap f) (ys.flatMap f') := by
  induction hx with
  | nil => exact refl []
  | cons hxy _ ih =>
    rw [List.flatMap_cons, List.flatMap_cons]
    exact (hf _ _ hxy).append ih

/-- The second list also has what only the second run holds. -/
theorem more (hl : g.Covers l l') (hm : ∀ n ∈ m, n ∈ g.extras) : g.Covers l (m ++ l') where
  left n hn := List.mem_append.2 (.inr (hl.left n hn))
  right n hn := (List.mem_append.1 hn).elim (fun hn => .inr (hm n hn)) (hl.right n)

end Wrapping.Covers

section Refs

open Wrapping (Covers)

theorem Wrapping.covers_finished (h : Heap F C) :
    g.Covers (g.client.codeRefs g.code) (g.finished.refs g.client h) := by
  unfold finished
  cases hs : g.selector with
  | none => exact .refl _
  | some f => exact (Covers.refl _).more fun n hn => List.mem_cons_of_mem _ (by simpa [hs, Mapping.refs] using hn)

/-- The root is held with each wrapped value. -/
theorem Wrapping.covers_wrapped {l : List (Option Value)} (hl : l.length = g.names.length) :
    g.Covers (l.flatMap (·.elim [] Value.refs)) ((g.wrapped l).flatMap (·.elim [] Value.refs)) := by
  unfold wrapped
  generalize g.names = names at hl
  induction l generalizing names with
  | nil =>
    obtain rfl := List.length_eq_zero_iff.1 hl.symm
    exact .refl []
  | cons v l ih =>
    cases names with
    | nil => cases hl
    | cons p names =>
      rw [List.zipWith_cons_cons, List.flatMap_cons, List.flatMap_cons]
      refine Covers.append ?_ (ih names (Nat.succ.inj hl))
      cases v with
      | none => exact .refl []
      | some v => exact (Covers.refl v.refs).more (m := [.object g.root]) (by simp [extras])

variable (hw : h.Wraps g h')
include hw

theorem Observer.Wraps.covers {x y : Observer F C} (hx : x.Wraps g y) :
    g.Covers (x.refs g.client h) (y.refs g.client h') := by
  induction hx with
  | ends he =>
    cases he with
    | one => exact g.covers_finished h'
    | slot hj hk =>
      have hslots := g.covers_wrapped (hw.joins.length _ hj)
      rw [← hw.joins.wrapped _ hj] at hslots
      exact hslots.append (g.covers_finished h')
  | client | write => exact .refl _
  | map f _ ih => exact (Covers.refl _).append ih
  | filter f _ ih => exact (Covers.refl _).append ih
  | distinct i _ ih =>
    have hi : h'.memory i = h.memory i := by simp only [Heap.memory, hw.cells.memories]
    simp only [refs, hi]
    exact (Covers.refl _).append ih
  | slot k hj _ ih =>
    simp only [refs, hw.joins.others _ hj]
    exact (Covers.refl _).append ih
  | skip i _ ih | outer i s _ ih | inner i n _ ih | relocate i s _ ih => exact ih

theorem Task.Wraps.covers {t u : Task F C} (ht : t.Wraps g u) : g.Covers (t.refs g.client h) (u.refs g.client h') := by
  cases ht with
  | deliver i v hx => exact (hx.covers hw).append (.refl _)
  | client c => exact .refl _

theorem Request.Wraps.covers {e e' : Stream F × Observer F C} (he : Request.Wraps g e e') :
    g.Covers (e.1.refs g.client.functionRefs ++ e.2.refs g.client h)
      (e'.1.refs g.client.functionRefs ++ e'.2.refs g.client h') := by
  cases he with
  | same hy => exact (Covers.refl _).append (hy.covers hw)
  | @mapped x f y y' hy =>
    have hm := (Covers.refl (x.refs g.client.functionRefs)).append (Observer.Wraps.covers hw (.ends hy))
    rw [Observer.refs, ← List.append_assoc] at hm
    exact hm

theorem Command.Wraps.covers {c c' : Command F C} (hc : c.Wraps g c') :
    g.Covers (c.refs g.client h) (c'.refs g.client h') := by
  cases hc with
  | deliver v hx => exact (hx.covers hw).append (.refl _)
  | subscribe he => exact he.covers hw
  | subscribeAll ms hrest => exact .flatMap hrest fun _ _ he => he.covers hw
  | schedule i ht => exact ht.covers hw
  | _ => exact .refl _

theorem Control.Wraps.covers {c c' : Control F C} (hc : c.Wraps g c') :
    g.Covers (c.refs g.client h) (c'.refs g.client h') := by
  cases hc with
  | run hc => exact hc.covers hw
  | _ => exact .refl _

theorem Handler.Wraps.covers {x y : Handler F C} (hx : x.Wraps g y) :
    g.Covers (x.observer.refs g.client h) (y.observer.refs g.client h') := hx.observer.covers hw

theorem Request.Wraps.covers_observer {e e' : Stream F × Observer F C} (he : Request.Wraps g e e') :
    g.Covers (e.2.refs g.client h) (e'.2.refs g.client h') := by
  cases he with
  | same hy => exact hy.covers hw
  | mapped hy =>
    have hm := Observer.Wraps.covers hw (.ends hy)
    cases hy <;> exact hm

theorem Frame.Wraps.covers {f f' : Frame F C} (hf : f.Wraps g f') :
    g.Covers (f.refs g.client h) (f'.refs g.client h') := by
  cases hf with
  | subscribed t hx => exact (hx.covers hw).append (.refl _)
  | notifying o v hx hrest =>
    exact (Covers.refl _).append (.flatMap (.cons hx hrest) fun _ _ hr => hr.covers hw)
  | publishing j v hx hrest =>
    exact (Covers.refl _).append (.flatMap (.cons hx hrest) fun _ _ hr => hr.covers hw)
  | passing v hx => exact (hx.covers hw).append (.refl _)
  | gathering ms he hrest => exact (he.covers_observer hw).append (.flatMap hrest fun _ _ he => he.covers hw)
  | switching i n inner hx => exact (Covers.refl _).append (hx.covers hw)
  | _ => exact .refl _

theorem Heap.Wraps.covers (n : Node) : g.Covers (n.refs g.client h) (n.refs g.client h') := by
  cases n with
  | object o =>
    have ho := hw.objects o
    simp only [Node.refs]
    generalize h.objects[o]? = x, h'.objects[o]? = y at ho
    cases ho with
    | none => exact .refl _
    | some hr =>
      simp only [hr.properties]
      exact (Covers.refl _).append (.flatMap hr.handlers fun _ _ hx => hx.covers hw)
  | subject j => exact .flatMap (hw.observers j) fun _ _ hx => hx.covers hw
  | stream i =>
    have hi : h'.stream i = h.stream i := by simp only [Heap.stream, hw.cells.streams]
    simp only [Node.refs, hi]
    exact .refl _

end Refs

/-! ## What is alive -/

namespace Wrapping.Linked

variable {before : List Value} {s s' : State F C S} (hl : g.Linked before s s')
include hl

theorem covers_roots : g.Covers (s.roots g.client) (s'.roots g.client) := by
  have hw := hl.joint.heap
  simp only [State.roots, hl.joint.refs]
  refine (((Covers.refl _).append (hl.control.covers hw)).append
    (.flatMap hl.frames fun _ _ hf => hf.covers hw)).append (.flatMap (forall₂_toList_of_rel hw.schedulers) ?_)
  rintro _ _ (- | hl)
  · exact .refl _
  · exact .flatMap hl fun _ _ ht => ht.covers hw

theorem mem_nodes (n : Node) : n ∈ s'.nodes ↔ n ∈ s.nodes := by
  have hw := hl.joint.heap
  simp only [State.nodes, size_eq_of_rel hw.objects, size_eq_of_rel hw.subjects, hw.cells.streams]

/-- If what only the second run holds is alive in the first run, the same is alive in both. -/
theorem alive (ha : ∀ n ∈ g.extras, s.alive g.client n = true) (n : Node) :
    s'.alive g.client n = s.alive g.client n := by
  have hroots := hl.covers_roots
  have hw := hl.joint.heap
  rw [Bool.eq_iff_iff]
  constructor
  · intro hn
    rcases (State.alive_iff ..).1 hn with hn | ⟨P, hP, hheld⟩
    · exact (hroots.right n hn).elim (fun hn => (State.alive_iff ..).2 (.inl hn)) (ha n)
    -- what survives in the second run survives in the first one, together with all that is alive there
    · have hby : ∀ m, s.alive g.client m = true → m ∈ s.roots g.client ∨ ∃ m', (m' ∈ s.nodes ∧
          (P m' ∨ s.alive g.client m' = true)) ∧ m ∈ m'.refs g.client s.world.heap := fun m hm => by
        rcases (State.alive_iff ..).1 hm with hm | ⟨Q, hQ, hheld⟩
        · exact .inl hm
        · exact (hheld m hQ).2.imp_right fun ⟨m', hm', href⟩ =>
            ⟨m', ⟨(hheld m' hm').1, .inr ((State.alive_iff ..).2 (.inr ⟨Q, hm', hheld⟩))⟩, href⟩
      have hnode : ∀ m, P m → m ∈ s.nodes := fun m hm => (hl.mem_nodes m).1 (hheld m hm).1
      refine (State.alive_iff ..).2 (.inr ⟨fun m => m ∈ s.nodes ∧ (P m ∨ s.alive g.client m = true),
        ⟨hnode n hP, .inl hP⟩, fun m hm => ⟨hm.1, hm.2.elim (fun hm => ?_) (hby m)⟩⟩)
      rcases (hheld m hm).2 with hroot | ⟨m', hm', href⟩
      · exact (hroots.right m hroot).elim .inl fun he => hby m (ha m he)
      · exact ((hw.covers m').right m href).elim (fun href => .inr ⟨m', ⟨hnode m' hm', .inl hm'⟩, href⟩)
          fun he => hby m (ha m he)
  · intro hn
    rcases (State.alive_iff ..).1 hn with hn | ⟨P, hP, hheld⟩
    · exact (State.alive_iff ..).2 (.inl (hroots.left n hn))
    · refine (State.alive_iff ..).2 (.inr ⟨P, hP, fun m hm => ?_⟩)
      obtain ⟨hnode, hby⟩ := hheld m hm
      exact ⟨(hl.mem_nodes m).2 hnode, hby.imp (hroots.left m) fun ⟨m', hm', href⟩ =>
        ⟨m', hm', (hw.covers m').left m href⟩⟩

end Wrapping.Linked

end DataBinding
