import DataBinding.Proofs.Disposal.Runs
import DataBinding.Proofs.Linear.Stages
import DataBinding.Proofs.Outcomes
/-!
# Linear operators are list functions

A stream with linear stages is subscribed to for a code. Wherever the run stops, the code has been given what the
list functions of the stages, one after the other, make of what has been received from upstream since then
(`Stage.delivers_linear`).
-/

namespace DataBinding

variable {F C S : Type} {K : Client F C S} {code : C} {root : ObjectId} {a : Arguments F} {g : Slot → Value → Value}

/-- What linear stages make of a list of deliveries, one after the other. -/
def Stage.onLists (root : ObjectId) (g : Slot → Value → Value) (stages : List Stage) (l : List (Delivery F)) :
    List (Delivery F) :=
  stages.foldl (fun l st => st.onList root g l) l

theorem Stage.onLists_append (stages : List Stage) (st : Stage) (l : List (Delivery F)) :
    onLists root g (stages ++ [st]) l = st.onList root g (onLists root g stages l) := by
  simp [onLists]

theorem Stage.onLists_nil (stages : List Stage) : onLists root g stages ([] : List (Delivery F)) = [] := by
  induction stages with
  | nil => rfl
  | cons st rest ih =>
    simp only [onLists, List.foldl_cons, onList_nil] at ih ⊢
    exact ih

variable [DecidableEq F] [DecidableEq C]

/-- The same for any observer that leads straight to the code. -/
theorem Stage.delivers_lane {stages : List Stage} {x y : Stream F} {s : State F C S} {z : Observer F C}
    (hl : ∀ st ∈ stages, st.Linear) (hg : a.Compute K g)
    (hy : stages.foldlM (fun y st => st.applyTo root a y) x = .ok y) (hs : s.control = .run (.subscribe y z))
    (hu : s.Unheard code) (hz : z.Lane code s.world.heap.There) :
    ∃ intake, (∃ l w, State.Leads K s.frames s l ⟨.run (.subscribe x intake), s.frames, w⟩) ∧
      ∀ l e, s.Continues K code l e → (∀ t ∈ l, t.alive K (.object root) = true) → ¬ e.Delivers →
        deliveries z l = onLists root g stages (deliveries intake l) := by
  induction stages using List.reverseRecOn generalizing y s z with
  | nil =>
    cases hy
    refine ⟨z, ⟨[], s.world, ?_⟩, fun _ _ _ _ _ => rfl⟩
    obtain ⟨c, fs, w⟩ := s
    cases hs
    exact .here
  | append_singleton init st ih =>
    obtain ⟨y', hinit, hst⟩ : ∃ y', init.foldlM (fun y st => st.applyTo root a y) x = .ok y' ∧
        st.applyTo root a y' = .ok y := by
      rw [List.foldlM_append] at hy
      obtain ⟨y', hinit, hy⟩ := bind_eq_ok_iff.1 hy
      exact ⟨y', hinit, (bind_pure _).symm.trans hy⟩
    obtain ⟨hlinit, hlst⟩ := List.forall_mem_append.1 hl
    obtain ⟨z', h, ho⟩ := (List.forall_mem_singleton.1 hlst).opens hg hst hu hz hs
    -- the stages before are subscribed to for the operator of this one
    obtain ⟨intake, ⟨l₀, w, hleads⟩, hrest⟩ := ih (s := ⟨.run (.subscribe y' z'), s.frames, h, s.world.client⟩) hlinit
      hinit rfl (hu.of_cells ho.cells ho.there) ho.lane
    have hcommand : ¬ s.control.IsAnswer := by
      rw [hs]
      exact id
    refine ⟨intake, ⟨s :: l₀, w, .go hcommand (ho.step ▸ hleads)⟩, fun l e hc ha he => ?_⟩
    rcases hc.of_run hs with ⟨rfl, -⟩ | ⟨l', rfl, hc'⟩
    · exact (onLists_nil _).symm
    · obtain ⟨-, ha'⟩ := List.forall_mem_cons.1 ha
      rw [ho.step] at hc'
      have hnone : ∀ y, s.delivery? y = none := fun y => State.delivery?_eq_none fun v hv => by
        rw [hs] at hv
        cases hv
      have hcons : ∀ y, deliveries y (s :: l') = deliveries y l' := fun y => by simp [deliveries, hnone y]
      calc deliveries z (s :: l') = deliveries z (l' ++ [e]) := by rw [hcons, deliveries_append_of_not he]
        _ = st.onList root g (deliveries z' l') := ho.delivers hc' ha'
        _ = st.onList root g (onLists root g init (deliveries intake l')) := by rw [hrest l' e hc' ha' he]
        _ = onLists root g (init ++ [st]) (deliveries intake (s :: l')) := by rw [onLists_append, hcons]

/-- **Linear operators are list functions.** -/
theorem Stage.delivers_linear {stages : List Stage} {x y : Stream F} {s : State F C S}
    (hl : ∀ st ∈ stages, st.Linear) (hg : a.Compute K g)
    (hy : stages.foldlM (fun y st => st.applyTo root a y) x = .ok y)
    (hs : s.control = .run (.subscribe y (.client code))) (hu : s.Unheard code) :
    ∃ intake, (∃ l w, State.Leads K s.frames s l ⟨.run (.subscribe x intake), s.frames, w⟩) ∧
      ∀ l e, s.Continues K code l e → (∀ t ∈ l, t.alive K (.object root) = true) → ¬ e.Delivers →
        deliveries (.client code) l = onLists root g stages (deliveries intake l) :=
  delivers_lane hl hg hy hs hu rfl

/-! ## A name, doubled -/

/-- Of a client that holds these things: a function that pairs each value with itself, and code that notes the
values it is given. -/
def Client.pairing (held : List Node) : Client Unit Bool (List (Bool × Value)) where
  apply _ v w := (.tuple [v, v], w)
  resume
    | code, .value v, w => (⟨w.heap, w.client ++ [(code, v)]⟩, .finish)
    | _, _, w => (w, .finish)
  functionRefs _ := []
  codeRefs _ := []
  refs _ := held

theorem Client.reserves_pairing (held : List Node) (code : Bool) : (pairing held).Reserves code where
  apply _ _ _ := .refl
  resume c signal w := by
    unfold pairing
    dsimp only
    split <;> exact ⟨.refl, trivial⟩

/-- The stages: each name is paired with itself, repetitions and the first pair are left out. -/
def Stage.pairs : List Stage := [.select .selector, .distinct, .skip 1, .wrap (some "Name")]

/-- The names of a person, passed through these stages. -/
def Stream.pairs : Stream Unit :=
  .map (.skip (.distinct (.map (.watch 0 "Name" .after) (.apply ()))) 1) (.wrap 0 (some "Name"))

/-- A person without a name. -/
def World.unnamed : World Unit Bool (List (Bool × Value)) := ⟨(Heap.empty.newObject "Person" .full).2, []⟩

theorem World.fresh_unnamed : unnamed.heap.Fresh where
  rosters n := by
    cases n with
    | object o =>
      cases o with
      | zero => rfl
      | succ o => simp [Heap.roster, Heap.handlers, unnamed, Heap.newObject, Heap.empty]
    | _ => simp [Heap.roster, unnamed, Heap.newObject, Heap.empty]
  tasks s l hl := by simp [Heap.tasks?, unnamed, Heap.newObject, Heap.empty] at hl
  switches := rfl
  gates := rfl

/-- Somebody else observes the pairs already when the person is called Ann, and then Bea. -/
def State.bea : State Unit Bool (List (Bool × Value)) :=
  (World.unnamed.ended (.pairing [.object 0]) 40
    [.subscribe .pairs (.client false), .set 0 "Name" (.text "Ann"), .set 0 "Name" (.text "Bea")]).getLastD
      (World.unnamed.start (.subscribe .pairs (.client false)))

theorem State.unheard_bea : bea.Unheard true :=
  have hout : (.subscribe .pairs (.client false) : Command Unit Bool).Outside true := Bool.false_ne_true
  World.fresh_unnamed.unheard hout (World.Undergoes.continues (Client.reserves_pairing _ true)
    (by simp [Command.Outside]) (World.undergoes_states 40 (by decide +kernel)))

/-- The names that the person is given later on. -/
def Command.names : List (Command Unit Bool) :=
  [.set 0 "Name" (.text "Cyd"), .set 0 "Name" (.text "Cyd"), .set 0 "Name" (.text "Dan")]

/-- The second subscription leaves out the first pair that it receives itself. -/
theorem Stage.delivers_linear_pairs :
    Stage.pairs.foldlM (fun y st => st.applyTo 0 ⟨some (), none, none, none⟩ y) (.watch 0 "Name" .after) =
        .ok Stream.pairs ∧
      ∃ l e, (State.bea.world.start (.subscribe .pairs (.client true))).Continues (.pairing [.object 0]) true l e ∧
        (deliveries (.client true) l).map Prod.fst = [.change 0 (some "Name") (.tuple [.text "Cyd", .text "Cyd"]),
          .change 0 (some "Name") (.tuple [.text "Dan", .text "Dan"])] ∧
        ∃ intake, deliveries (.client true) l =
          onLists 0 (fun _ v => .tuple [v, v]) Stage.pairs (deliveries intake l) := by
  have hundergoes : State.bea.world.Undergoes (.pairing [.object 0])
      (.subscribe .pairs (.client true) :: Command.names) _ _ := World.undergoes_states 40 (by decide +kernel)
  have hrun := hundergoes.continues (Client.reserves_pairing [.object 0] true) (by simp [Command.names, Command.Outside])
  have happly : Stage.pairs.foldlM (fun y st => st.applyTo 0 ⟨some (), none, none, none⟩ y) (.watch 0 "Name" .after) =
      .ok Stream.pairs := rfl
  have hcompute : (⟨some (), none, none, none⟩ : Arguments Unit).Compute (Client.pairing [.object 0])
      fun _ v => .tuple [v, v] := fun _ _ _ _ _ => rfl
  have hlinear : ∀ st ∈ Stage.pairs, st.Linear := by simp [Stage.pairs, Linear]
  obtain ⟨intake, -, h⟩ := delivers_linear hlinear hcompute happly
    (s := State.bea.world.start (.subscribe .pairs (.client true))) rfl ⟨nofun, State.unheard_bea.heap⟩
  exact ⟨happly, _, _, hrun, rfl, intake, h _ _ hrun (by decide +kernel)
    (State.not_delivers_of_finished (by decide +kernel))⟩

end DataBinding
