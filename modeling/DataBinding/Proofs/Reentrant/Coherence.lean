import DataBinding.Proofs.Quiet.Session
import DataBinding.Proofs.Reentrant.Session
/-!
# When a path is shown as it is

A handler that is told of a change may make another one, and the handlers that are still to be told of
the first are then told of the second before. For them the value that is superseded comes last. So after
a session the value noted last need not be what the path reads, and owners that were replaced may still
be watched.

`Path.observe_shows_iff`: all is as it should be exactly when each handler of the subscription was told
last what its property holds.
-/

namespace DataBinding

variable {F C S : Type}

/-- Told this value last, the handler goes by what its property holds: by the object that it is, if any,
and at the end of the path by an equal value. -/
def Handler.GoesBy (h : Heap F C) (o : ObjectId) (x : Handler F C) (v : Value) : Prop :=
  v.object? = (h.get o x.property).object? ∧
    (x.observer.depth = 0 → v.eqv (h.get o x.property) = true)

/-- The value noted last is what the path reads, and each segment that has an owner is watched on it. -/
structure World.Shows [DecidableEq C] (seen : S → List Value) (code : C) (t : Timing) (root : ObjectId)
    (p : Path) (w : World F C S) : Prop where
  value : ∃ u, (seen w.client).getLast? = some u ∧ u.eqv (w.heap.readPath root p) = true
  owners : (w.heap.places code).Perm (w.heap.owners t (.object root) p.segments)

namespace Chain

variable {c : Chain C} {seen : S → List Value} {past : List (State F C S)} {w : World F C S}
  {regs : List (Registration F C)} {v : Value}

/-- The registrations are what is registered with the code of the chain, and what they were told last. -/
theorem Attached.forall_registered (ha : c.Attached seen past [] w regs v) :
    (∀ o, ∀ x ∈ w.heap.handlers o, x.observer.code? = some c.code →
      ∃ u, LastTold past o x u ∧ x.GoesBy w.heap o u) ↔
      ∀ r ∈ regs, r.handler.GoesBy w.heap r.owner r.told := by
  constructor
  · intro h r hr
    obtain ⟨u, hu, hg⟩ := h r.owner r.handler (ha.live.follows.mem_handlers r hr)
      (ha.live.follows.code? r hr)
    rwa [(ha.told r hr).unique hu] at hg
  · intro h o x hx hc
    obtain ⟨u, hu⟩ := ha.live.registered hx hc
    exact ⟨u, ha.told _ hu, h _ hu⟩

/-- The value noted last is what the path reads, and its owners are watched, exactly if all
registrations go by what is held. -/
theorem Attached.shows_iff [DecidableEq C] (ha : c.Attached seen past [] w regs v)
    (hp : ∀ s ∈ c.segments, s.property ≠ "") :
    ((∃ u, (seen w.client).getLast? = some u ∧
        u.eqv (w.heap.readFrom (.object c.root) c.segments) = true) ∧
      (w.heap.places c.code).Perm (w.heap.owners c.timing (.object c.root) c.segments)) ↔
      ∀ r ∈ regs, r.handler.GoesBy w.heap r.owner r.told := by
  obtain ⟨u, hlast, hu⟩ := ha.caught
  have hplaces := ha.live.places_perm_iff ha.tidy.numbered
  constructor
  · rintro ⟨⟨u', hlast', hread⟩, howners⟩ r hr
    obtain rfl : u = u' := Option.some.inj (hlast.symm.trans hlast')
    have hup := hplaces.1 howners
    by_cases hd : r.handler.observer.depth = 0
    · obtain ⟨-, -, hpos⟩ | ⟨r', hr', hd', rfl, hheld⟩ := ha.live.follows.leaf hup hp
      · exact absurd hd (Nat.ne_of_gt (hpos r hr))
      · obtain rfl := ha.live.follows.eq_of_depth hr hr' (hd.trans hd'.symm)
        rw [hheld] at hread
        have heqv : r.told.eqv (r.held w.heap) = true := by
          obtain rfl | hu := hu
          · exact hread
          · exact Value.eqv_trans (Value.eqv_symm hu) hread
        exact ⟨Value.object?_eq_of_eqv heqv, fun _ => heqv⟩
    · exact ⟨hup r hr (Nat.pos_of_ne_zero hd), fun h => absurd h hd⟩
  · intro h
    have hup : ∀ r ∈ regs, 0 < r.handler.observer.depth → r.UpToDate w.heap :=
      fun r hr _ => (h r hr).1
    refine ⟨⟨u, hlast, ?_⟩, hplaces.2 hup⟩
    -- what the path reads equals the value at the end of the chain
    have hread : v.eqv (w.heap.readFrom (.object c.root) c.segments) = true := by
      obtain ⟨rfl, hread, -⟩ | ⟨r, hr, hd, rfl, hread⟩ := ha.live.follows.leaf hup hp
      · rw [hread]
        rfl
      · rw [hread]
        exact (h r hr).2 hd
    obtain rfl | hu := hu
    · exact hread
    · exact Value.eqv_trans hu hread

end Chain

/-- Observing a path while other handlers and observers make assignments of their own, also when they
are told of one: once the last command of a session has returned, the value noted last is what the path
reads and the owners along it are watched, exactly when each handler of the subscription was told last
what its property holds. -/
theorem Path.observe_shows_iff [DecidableEq C] {K : Client F C S} {seen : S → List Value} {code : C}
    {w : World F C S} (hw : w.Busy K seen code) (p : Path)
    (hnames : ∀ s ∈ p.segments, s.property ≠ "") {t : Timing} {caps : Capabilities}
    (hcaps : caps.supports p.rootType t = true) {root : ObjectId}
    (hroot : root < w.heap.objects.size) (hheld : Node.object root ∈ K.refs w.client)
    (commands : List (Command F C)) (hc : ∀ command ∈ commands, command.Foreign code)
    (a : Arguments F) :
    ∃ stream, (p.pipeline t caps).observe root a = .ok stream ∧
      ∀ trace w', w.Traces K (.subscribe stream (.client code) :: commands) trace w' →
        (∀ s ∈ trace, s.Valid) →
        (w'.Shows seen code t root p ↔
          ∀ o, ∀ x ∈ w'.heap.handlers o, x.observer.code? = some code →
            ∃ v, LastTold trace o x v ∧ x.GoesBy w'.heap o v) := by
  have hleaf : p.leaf.property ≠ "" := hnames _ List.getLastD_mem_cons
  refine ⟨p.stream t root, observe_pipeline _ _ _ hcaps hleaf a, fun trace w' htrace hv => ?_⟩
  obtain ⟨regs, v, ha⟩ := attached hw hnames hroot hheld hc htrace hv
  have hnames' : ∀ s ∈ (p.chain t root w.heap code).segments, s.property ≠ "" := by
    rw [segments_chain]
    exact hnames
  have hiff := (ha.shows_iff hnames').trans ha.forall_registered.symm
  rw [segments_chain] at hiff
  exact ⟨fun h => hiff.1 ⟨h.value, h.owners⟩, fun h => ⟨(hiff.2 h).1, (hiff.2 h).2⟩⟩

/-! ## A person who moves twice at once -/

/-- Of a client that holds these things: code `false` notes each value it is given, and code `true` has
the person go on to the last of three addresses when told of the second. -/
def Client.mover (held : List Node) : Client Empty Bool (List Value) where
  apply := nofun
  resume
    | false, .value v, w => (⟨w.heap, w.client ++ [v]⟩, .finish)
    | true, .value (.object 1), w => (w, .perform (.set 3 "Address" (.object 2)) true)
    | _, _, w => (w, .finish)
  functionRefs := nofun
  codeRefs _ := []
  refs _ := held

/-- The person of three addresses, watched by the code that moves on. -/
def Heap.watchedHomes : Heap Empty Bool :=
  (homes.addHandler 3 .after "Address" false (.client true)).2

theorem Client.assigns_mover (held : List Node) : (mover held).Assigns id false where
  pure := nofun
  heap x signal w := by
    unfold mover
    dsimp only
    split <;> rfl
  moves x signal w := by
    unfold mover
    dsimp only
    split <;> trivial
  notes _ _ := rfl
  silent x signal w hx := by
    unfold mover
    dsimp only
    split
    · next v => exact absurd rfl (hx rfl v)
    · rfl
    · rfl

theorem World.busy_watchedHomes (held : List Node) :
    World.Busy (.mover held) id false ⟨.watchedHomes, []⟩ where
  client := Client.assigns_mover held
  numbered := Heap.numbered_homes.addHandler ..
  closed := by
    intro o p b hb
    rw [Heap.watchedHomes, Heap.get_addHandler] at hb
    exact Heap.closed_homes o p b hb
  others o x hx := by
    rw [Heap.watchedHomes, Heap.handlers_addHandler _ _ _ _ _ _ _ (by decide),
      Heap.handlers_homes, Heap.handlers_homes] at hx
    split at hx
    · obtain rfl := List.mem_singleton.1 hx
      exact ⟨trivial, by simp [Observer.code?]⟩
    · cases hx

/-- The person is told to move to the second address, and then a third city is called otherwise. -/
def Command.movingOn : List (Command Empty Bool) :=
  [.set 3 "Address" (.object 1), .set 2 "City" (.text "Bergen")]

theorem Path.observe_shows_moving_on :
    ∃ stream, (Path.city.pipeline .after ⟨[("Person", .full)]⟩).observe 3 default = .ok stream ∧
      ∀ trace w', World.Traces (.mover [.object 3, .object 2]) ⟨.watchedHomes, []⟩
          (.subscribe stream (.client false) :: Command.movingOn) trace w' →
        (∀ s ∈ trace, s.Valid) →
        (w'.Shows id false .after 3 .city ↔
          ∀ o, ∀ x ∈ w'.heap.handlers o, x.observer.code? = some false →
            ∃ v, LastTold trace o x v ∧ x.GoesBy w'.heap o v) :=
  observe_shows_iff (World.busy_watchedHomes _) .city (by decide) (by decide) (by decide) (by decide)
    Command.movingOn (by simp [Command.movingOn, Command.Foreign]) _

/-- The person ends up at the last address, but the one before is watched: the new city is not noted,
although the path reads it. -/
theorem Path.observe_shows_superseded :
    ∃ stream trace w',
      (Path.city.pipeline .after ⟨[("Person", .full)]⟩).observe 3 default = .ok stream ∧
      World.Traces (.mover [.object 3, .object 2]) ⟨.watchedHomes, []⟩
        (.subscribe stream (.client false) :: Command.movingOn) trace w' ∧
      (∀ s ∈ trace, s.Valid) ∧ w'.client.map (·.eqv (.text "Oslo")) = [true] ∧
      (w'.heap.readPath 3 .city).eqv (.text "Bergen") = true ∧ ¬ w'.Shows id false .after 3 .city :=
  ⟨_, _, _, observe_pipeline .city .after 3 (by decide) (by decide) _,
    World.traces_states 40 (by decide +kernel), by decide +kernel, by decide +kernel,
    by decide +kernel, fun h => absurd h.owners (by decide +kernel)⟩

end DataBinding
