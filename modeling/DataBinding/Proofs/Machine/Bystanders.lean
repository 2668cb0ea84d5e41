import DataBinding.Proofs.Chain.Basic
import DataBinding.Proofs.Machine.Completes
import DataBinding.Proofs.Machine.Steps
/-!
# Observers that come to an end

Observers of some kind pass values on, follow links and end in code that returns. If each of their steps
is a move of a given kind, then whatever is delivered to one of them, the delivery returns and is such a
move (`Bystanders.deliver`).
-/

namespace DataBinding

variable {F C S : Type}

/-- From tidy heaps (`T`) observers of this kind (`Ok`) make these moves (`M`). -/
structure Bystanders (K : Client F C S) (Ok : Observer F C → Prop) (T : Heap F C → Prop)
    (M : World F C S → World F C S → Prop) : Prop where
  numbered : ∀ h, T h → h.Numbered
  refl : ∀ w, T w.heap → M w w
  trans : ∀ w w' w'', M w w' → M w' w'' → M w w''
  tidy : ∀ w w', T w.heap → M w w' → T w'.heap
  grows : ∀ w w', M w w' → w.heap.Grows w'.heap
  next : ∀ x y, Ok x → x.operand? = some y → Ok y
  operator : ∀ x y v base w, Ok x → x.operand? = some y → T w.heap → ∃ w₁, M w w₁ ∧
    (State.step K ⟨.run (.deliver x v), base, w⟩ = ⟨.pass .done, base, w₁⟩ ∨
      ∃ v', State.step K ⟨.run (.deliver x v), base, w⟩ = ⟨.run (.deliver y v'), base, w₁⟩)
  client : ∀ code v w, Ok (.client code) → T w.heap → ∃ w', K.Returns code (.value v) w w' ∧ M w w'
  write : ∀ root path, ¬ Ok (.write root path)
  outer : ∀ i select y, Ok (.outer i select y) → select ≠ .stream ∧ Ok y ∧ ∀ g, Ok (.inner i g y)
  restarted : ∀ i select y w, Ok (.outer i select y) → T w.heap → M w ⟨w.heap.restarted i, w.client⟩
  entered : ∀ i select y w g t, Ok (.outer i select y) → T w.heap → w.heap.Undoes i t →
    M w ⟨w.heap.entered i g t, w.client⟩
  watched : ∀ x o t p reports w, Ok x → T w.heap → M w ⟨(w.heap.addHandler o t p reports x).2, w.client⟩
  relocate : ∀ gate s y, Ok (.relocate gate s y) → Ok y
  tasks : ∀ w s l, T w.heap → M w ⟨w.heap.setTasks s l, w.client⟩

namespace Bystanders

open State

variable {K : Client F C S} {Ok : Observer F C → Prop} {T : Heap F C → Prop}
  {M : World F C S → World F C S → Prop} (hb : Bystanders K Ok T M)

/-- Whatever is delivered to the observer, the delivery returns and is a move. -/
def Harmless (_ : Bystanders K Ok T M) (x : Observer F C) : Prop :=
  ∀ base v w, T w.heap → Completes K base ⟨.run (.deliver x v), base, w⟩ fun _ w' => M w w'

variable {hb} {x next : Observer F C} (hn : hb.Harmless next)
include hn

/-- An operator passes something on to a harmless observer, or not. -/
theorem Harmless.of_operator (hx : Ok x) (ho : x.operand? = some next) : hb.Harmless x := by
  intro base v w ht
  obtain ⟨w₁, hw, he | ⟨v', he⟩⟩ := hb.operator x next v base w hx ho ht
  · exact .step id (he ▸ .pass hw)
  · exact .step id (he ▸ (hn base v' w₁ (hb.tidy _ _ ht hw)).mono fun _ w' hw' => hb.trans _ _ _ hw hw')

/-- An inner stream of a link is subscribed to. -/
theorem Harmless.subscribe {i g : Nat} (hx : Ok (.inner i g next)) (h : Heap F C) (p : String) (t : Timing)
    (v : Value) (base : List (Frame F C)) (w : World F C S) (ht : T w.heap) :
    Completes K base ⟨.run (.subscribe (Selection.inner h v (.link p t)) (.inner i g next)), base, w⟩
      fun signal w' => w'.heap.Undoes i signal.teardown ∧ M w w' := by
  have first : ∀ w₁ t v', M w w₁ → w₁.heap.Undoes i t →
      Completes K base ⟨.run (.deliver (.inner i g next) v'), .subscribed (.inner i g next) t :: base, w₁⟩
        fun signal w' => w'.heap.Undoes i signal.teardown ∧ M w w' :=
    fun w₁ t v' hw hu => .call (List.suffix_refl _) (of_operator hn hx rfl _ v' w₁ (hb.tidy _ _ ht hw))
      fun _ w' hw' => .back (.pass ⟨(hb.grows _ _ hw').undoes hu, hb.trans _ _ _ hw hw'⟩)
  cases v with
  | object o =>
    by_cases ha : State.alive K
      ⟨.run (.subscribe (.watch o p t) (.inner i g next)), base, w⟩ (.object o) = true
    · refine .step id ((step_watch (k := w.client) ha).symm ▸
        first _ _ _ (hb.watched _ o t p p.isEmpty w hx ht) ?_)
      exact Heap.belongs_addHandler o t p p.isEmpty (hb.numbered _ ht) i g next
    · exact .step id ((step_watch_dead (k := w.client) ha).symm ▸ .pass ⟨trivial, hb.refl w ht⟩)
  | _ => exact .step id (first w .nothing .null (hb.refl w ht) trivial)

omit hn in
/-- What is delivered to an observer of the kind comes to an end. -/
theorem deliver (hb : Bystanders K Ok T M) (hx : Ok x) : hb.Harmless x := by
  induction x with
  | client code =>
    intro base v w ht
    obtain ⟨w', hr, hw⟩ := hb.client code v w hx ht
    exact .step id (.resume hr hw)
  | write root path => exact absurd hx (hb.write root path)
  | map f next ih => exact (ih (hb.next _ _ hx rfl)).of_operator hx rfl
  | filter f next ih => exact (ih (hb.next _ _ hx rfl)).of_operator hx rfl
  | skip i next ih => exact (ih (hb.next _ _ hx rfl)).of_operator hx rfl
  | distinct m next ih => exact (ih (hb.next _ _ hx rfl)).of_operator hx rfl
  | inner i g next ih => exact (ih (hb.next _ _ hx rfl)).of_operator hx rfl
  | slot j k next ih => exact (ih (hb.next _ _ hx rfl)).of_operator hx rfl
  | outer i select next ih =>
    obtain ⟨hselect, hnext, hinner⟩ := hb.outer i select next hx
    intro base v w ht
    obtain ⟨l, hl, -⟩ := leads_outer K base w.client (hb.numbered _ ht) i select next v
    refine .leads hl ?_
    have hr := hb.restarted i select next w hx ht
    rw [switched]
    split
    · exact .pass hr
    · cases select with
      | stream => exact absurd rfl hselect
      | link p t =>
        refine .call (List.suffix_refl _) ((ih hnext).subscribe (hinner _) _ p t v _ _
          (hb.tidy _ _ ht hr)) ?_
        rintro signal w' ⟨hu, hw'⟩
        obtain ⟨l', hl', -⟩ := leads_entering K base w'.client signal hu
          ((w.heap.switch i).generation + 1) (Selection.inner w.heap v (.link p t))
        exact .leads hl' (.pass (hb.trans _ _ _ hr (hb.trans _ _ _ hw'
          (hb.entered i _ next w' _ _ hx (hb.tidy _ _ (hb.tidy _ _ ht hr) hw') hu))))
  | relocate gate s next ih =>
    intro base v w ht
    refine .step id (.step (s := ⟨.run (.schedule s (.deliver gate next v)), base, w⟩) id ?_)
    simp only [State.step, stepCommand, stepSchedule]
    split
    · exact .pass (hb.tasks w s _ ht)
    · simp only [stepTask]
      split
      · exact ih (hb.relocate gate s next hx) base v w ht
      · exact .pass (hb.refl w ht)

end Bystanders

end DataBinding
