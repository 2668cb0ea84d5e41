import DataBinding.Proofs.Beside.Registrations
import DataBinding.Proofs.Machine.Alive
import DataBinding.Proofs.Machine.Completes
/-!
# Worlds beside each other

What a client does when both runs come back to it: pure functions yield the same, up to the numbers of the streams
they make (`Setting.Uniform`), and idle code returns and notes what it is given (`Setting.Sound`). Two worlds go
together if the heap of the one mirrors that of the other, and what has been noted in both is alike
(`Setting.Joint`).
-/

namespace DataBinding

variable {F C S : Type}

namespace Setting

section Definitions
variable (q : Setting F C S)

/-- The client holds all objects and subjects. -/
def Held (k : S) : Prop :=
  (∀ o < q.objects, Node.object o ∈ q.client.refs k) ∧ ∀ j < q.subjects, Node.subject j ∈ q.client.refs k

/-- All that the function does is make streams, which write nothing; and for the same value it does and yields
the same, up to the numbers of streams. -/
structure Uniform (f : F) : Prop where
  makes : ∀ v w, ∃ xs, (∀ x ∈ xs, x.Harmless q) ∧ (q.client.apply f v w).2 = w.withHeap (w.heap.grown xs)
  same : ∀ (ρ : Ties) v v' (w w' : World F C S),
    (ρ .stream).Sound w.heap.streams.size w'.heap.streams.size → (∀ i < q.streams, (ρ .stream).pair i i) →
    q.alike ρ v v' → ∃ xs ys ρ', ρ' = ρ.tie .stream w.heap.streams.size w'.heap.streams.size xs.length ∧
      (q.client.apply f v w).2 = w.withHeap (w.heap.grown xs) ∧
      (q.client.apply f v' w').2 = w'.withHeap (w'.heap.grown ys) ∧
      List.Forall₂ (Stream.Alike q (ρ' .stream).pair) xs ys ∧
      q.alike ρ' (q.client.apply f v w).1 (q.client.apply f v' w').1

/-- Functions are pure and code is idle as they are said to be. -/
structure Sound : Prop where
  pure : ∀ f, q.pure f → q.Uniform f
  idle : ∀ c, q.idle c → ∀ signal w, ∃ w', q.client.Returns c signal w w' ∧ w'.heap = w.heap ∧
    (q.Held w.client → q.Held w'.client) ∧ (c = q.code → q.seen w'.client = q.seen w.client ++ signal.values) ∧
    (c ≠ q.code → q.seen w'.client = q.seen w.client)

/-- Worlds of both runs that go together. -/
structure Joint (ρ : Ties) (w w' : World F C S) : Prop where
  mirrors : w.heap.Mirrors q ρ w'.heap
  /-- Streams from before go by the same numbers. -/
  known : ∀ i < q.streams, (ρ .stream).pair i i
  held : q.Held w.client
  held' : q.Held w'.client
  seen : List.Forall₂ (q.alike ρ) (q.seen w.client) (q.seen w'.client)

end Definitions

namespace Joint

variable {q : Setting F C S} {ρ ρ' : Ties} {w w' : World F C S} (hj : q.Joint ρ w w')
include hj

/-- The heaps have changed, and the one still mirrors the other. -/
theorem withHeap (hρ : ρ ≤ ρ') {h h' : Heap F C} (hm : h.Mirrors q ρ' h') :
    q.Joint ρ' (w.withHeap h) (w'.withHeap h') where
  mirrors := hm
  known i hi := hρ.pair (hj.known i hi)
  held := hj.held
  held' := hj.held'
  seen := hj.seen.imp fun _ _ => q.alike_mono hρ

theorem alive {c : Control F C} {fs : List (Frame F C)} {o : ObjectId} (ho : o < q.objects) :
    (⟨c, fs, w⟩ : State F C S).alive q.client (.object o) = true :=
  State.alive_of_kept q.client (List.nil_subset fs) (.inl (hj.held.1 o ho))

theorem alive' {c : Control F C} {fs : List (Frame F C)} {o : ObjectId} (ho : o < q.objects) :
    (⟨c, fs, w'⟩ : State F C S).alive q.client (.object o) = true :=
  State.alive_of_kept q.client (List.nil_subset fs) (.inl (hj.held'.1 o ho))

theorem alive_subject {c : Control F C} {fs : List (Frame F C)} {j : SubjectId} (ho : j < q.subjects) :
    (⟨c, fs, w⟩ : State F C S).alive q.client (.subject j) = true :=
  State.alive_of_kept q.client (List.nil_subset fs) (.inl (hj.held.2 j ho))

theorem alive_subject' {c : Control F C} {fs : List (Frame F C)} {j : SubjectId} (ho : j < q.subjects) :
    (⟨c, fs, w'⟩ : State F C S).alive q.client (.subject j) = true :=
  State.alive_of_kept q.client (List.nil_subset fs) (.inl (hj.held'.2 j ho))

variable (hq : q.Sound)
include hq

/-- Both runs come to the same idle code. -/
theorem resume {c : C} (hc : q.idle c) {signal signal' : Signal C}
    (hs : List.Forall₂ (q.alike ρ) signal.values signal'.values) : ∃ w₁ w₁', q.client.Returns c signal w w₁ ∧
      q.client.Returns c signal' w' w₁' ∧ q.Joint ρ w₁ w₁' := by
  obtain ⟨w₁, hr, hheap, hheld, hcode, hother⟩ := hq.idle c hc signal w
  obtain ⟨w₁', hr', hheap', hheld', hcode', hother'⟩ := hq.idle c hc signal' w'
  refine ⟨w₁, w₁', hr, hr', ?_, hj.known, hheld hj.held, hheld' hj.held', ?_⟩
  · rw [hheap, hheap']
    exact hj.mirrors
  · by_cases he : c = q.code
    · rw [hcode he, hcode' he]
      exact List.rel_append hj.seen hs
    · rw [hother he, hother' he]
      exact hj.seen

/-- Only the second run comes to idle code. -/
theorem resumeAlien {c : C} (hc : q.idle c) (hne : c ≠ q.code) (signal : Signal C) :
    ∃ w₁', q.client.Returns c signal w' w₁' ∧ q.Joint ρ w w₁' := by
  obtain ⟨w₁', hr', hheap', hheld', -, hother'⟩ := hq.idle c hc signal w'
  refine ⟨w₁', hr', ?_, hj.known, hj.held, hheld' hj.held', ?_⟩
  · rw [hheap']
    exact hj.mirrors
  · rw [hother' hne]
    exact hj.seen

/-- Both runs apply the same function. -/
theorem apply {f : F} (hf : q.pure f) {v v' : Value} (hv : q.alike ρ v v') : ∃ ρ', ρ ≤ ρ' ∧
    q.Joint ρ' (q.client.apply f v w).2 (q.client.apply f v' w').2 ∧
    q.alike ρ' (q.client.apply f v w).1 (q.client.apply f v' w').1 := by
  obtain ⟨xs, ys, ρ', he, hw, hw', hxs, hv'⟩ := (hq.pure f hf).same ρ v v' w w' (hj.mirrors.sound .stream) hj.known hv
  have hρ : ρ ≤ ρ' := he ▸ ρ.le_tie ..
  refine ⟨ρ', hρ, ?_, hv'⟩
  rw [hw, hw']
  exact hj.withHeap hρ (hj.mirrors.grown he hxs)

/-- Only the second run applies a function. -/
theorem applyAlien {f : F} (hf : q.pure f) (v : Value) : q.Joint ρ w (q.client.apply f v w').2 := by
  obtain ⟨xs, hxs, hw'⟩ := (hq.pure f hf).makes v w'
  rw [hw']
  exact hj.withHeap (Ties.le_refl ρ) (hj.mirrors.grownAlien hxs)

end Joint

end Setting

end DataBinding
