import Mathlib.Data.List.Forall2
import DataBinding.Proofs.Path.Connected
import DataBinding.Proofs.Record.Words
/-!
# Stored call sites

What is stored is read back as it was, part by part (`CallSite.ofRecord?_toRecord`). Reading asks more of a path
than a form: its segments must be a list that is not empty, and each of them must be declared on the type that
the one before it yields (`Path.ofSegments_isOk_iff`). `CallSite.records_round_trip`: so whatever is read as a
call site has such paths only, whoever wrote it.
-/

namespace DataBinding

open List

/-- Parts that are read back one by one are read back together. -/
theorem mapM_map_some {α β : Type} {write : α → β} {read : β → Option α} (h : ∀ x, read (write x) = some x)
    (xs : List α) : (xs.map write).mapM read = some xs := by
  induction xs with
  | nil => rfl
  | cons x xs ih => simp [h, ih]

/-- What is read from a list is read from its members, one by one. -/
theorem forall₂_of_mapM {α β : Type} {read : β → Option α} {ys : List β} {xs : List α}
    (h : ys.mapM read = some xs) : Forall₂ (fun y x => read y = some x) ys xs := by
  induction ys generalizing xs with
  | nil =>
    cases h
    exact .nil
  | cons y ys ih =>
    rw [mapM_cons] at h
    obtain ⟨x, hx, h⟩ := Option.bind_eq_some_iff.1 h
    obtain ⟨xs', hxs, h⟩ := Option.bind_eq_some_iff.1 h
    cases h
    exact .cons hx (ih hxs)

/-! ## Paths -/

namespace Path

/-- The segments that are written as a path. -/
def writtenSegments? (d : Data) : Option (List Segment) := d.asList?.bind (·.mapM Segment.ofRecord?)

theorem ofRecord?_eq_some_iff {d : Data} {p : Path} :
    ofRecord? d = some p ↔ ∃ segments, writtenSegments? d = some segments ∧ ofSegments segments = .ok p := by
  have hread : ofRecord? d = (writtenSegments? d).bind fun segments => (ofSegments segments).toOption := by
    rw [writtenSegments?, Option.bind_assoc]
    rfl
  have htoOption : ∀ r : Except PathError Path, r.toOption = some p ↔ r = .ok p := by
    rintro (e | q) <;> simp [Except.toOption]
  rw [hread, Option.bind_eq_some_iff]
  simp only [htoOption]

/-- What is written is a path: its segments are connected, and there are any. -/
def Written (d : Data) (p : Path) : Prop :=
  ∃ segments, writtenSegments? d = some segments ∧ ofSegments segments = .ok p ∧
    segments ≠ [] ∧ segments.IsChain Follows

theorem written_of_ofRecord? {d : Data} {p : Path} (h : ofRecord? d = some p) : Written d p := by
  obtain ⟨segments, hsegments, hp⟩ := ofRecord?_eq_some_iff.1 h
  exact ⟨segments, hsegments, hp, (ofSegments_isOk_iff segments).1 ⟨p, hp⟩⟩

/-- A path is read exactly from what is written as segments that are connected, if there are any. -/
theorem exists_ofRecord?_iff (d : Data) : (∃ p, ofRecord? d = some p) ↔
    ∃ segments, writtenSegments? d = some segments ∧ segments ≠ [] ∧ segments.IsChain Follows := by
  constructor
  · rintro ⟨p, h⟩
    obtain ⟨segments, hsegments, -, hconnected⟩ := written_of_ofRecord? h
    exact ⟨segments, hsegments, hconnected⟩
  · rintro ⟨segments, hsegments, hconnected⟩
    obtain ⟨p, hp⟩ := (ofSegments_isOk_iff segments).2 hconnected
    exact ⟨p, ofRecord?_eq_some_iff.2 ⟨segments, hsegments, hp⟩⟩

theorem writtenSegments?_toRecord (p : Path) : writtenSegments? p.toRecord = some p.segments := by
  have hsegment : ∀ s : Segment, Segment.ofRecord? s.toRecord = some s := fun _ => rfl
  exact mapM_map_some hsegment p.segments

theorem ofRecord?_toRecord (p : Path) : ofRecord? p.toRecord = some p :=
  ofRecord?_eq_some_iff.2 ⟨p.segments, writtenSegments?_toRecord p, ofSegments_segments p⟩

end Path

/-! ## Call sites -/

theorem CallKind.ofRecord?_toData (k : CallKind) : ofRecord? k.toData = some k := by
  cases k <;> rfl

theorem Location.ofRecord?_toRecord (l : Location) : ofRecord? l.toRecord = some l := by
  have hvalues : l.toRecord.fieldValues? ["file", "line"] = some [.text l.file, .int l.line.toNat] := rfl
  have hrange : 0 ≤ (l.line.toNat : Int) ∧ (l.line.toNat : Int) < UInt32.size :=
    ⟨Int.natCast_nonneg _, Int.ofNat_lt.2 l.line.toNat_lt_size⟩
  have hline : l.line.toNat.toUInt32 = l.line := UInt32.ofNat_toNat
  rw [ofRecord?, hvalues, Option.bind_eq_bind, Option.bind_some]
  dsimp only
  rw [if_pos hrange, Int.toNat_natCast, hline]

namespace CallSite

/-- The names of the parts of a stored call site. -/
def fieldNames : List String :=
  ["kind", "owner_type", "paths", "result_type", "flags", "location", "argument_texts"]

/-- What is written as the paths of a call site. -/
def writtenPaths? (d : Data) : Option (List Data) :=
  (d.fieldValues? fieldNames).bind fun values => values[2]?.bind Data.asList?

theorem ofRecord?_toRecord (s : CallSite) : ofRecord? s.toRecord = some s := by
  have hvalues : s.toRecord.fieldValues? fieldNames = some [s.kind.toData, s.owner.toRecord,
      .list (s.paths.map Path.toRecord), s.result.toRecord, .text s.features.text, s.location.toRecord,
      .list (s.texts.map Data.text)] := rfl
  have hpaths := mapM_map_some Path.ofRecord?_toRecord s.paths
  have htext : ∀ t, Data.asText? (.text t) = some t := fun _ => rfl
  have htexts := mapM_map_some htext s.texts
  have htype : ∀ t : TypeRef, TypeRef.ofRecord? t.toRecord = some t := fun _ => rfl
  rw [fieldNames] at hvalues
  rw [ofRecord?, hvalues]
  simp only [Option.bind_eq_bind, Option.bind_some, CallKind.ofRecord?_toData, htype, hpaths,
    Features.ofText?_text, Location.ofRecord?_toRecord, htexts, Option.pure_def]

/-- Reading a call site reads each of its paths. -/
theorem writtenPaths?_of_ofRecord? {d : Data} {s : CallSite} (h : ofRecord? d = some s) :
    ∃ entries, writtenPaths? d = some entries ∧ entries.mapM Path.ofRecord? = some s.paths := by
  obtain ⟨values, hvalues, h⟩ := Option.bind_eq_some_iff.1 h
  split at h
  · next kind owner paths result features location texts =>
    refine ⟨paths, ?_, ?_⟩
    · rw [writtenPaths?, fieldNames, hvalues]
      rfl
    · simp only [Option.bind_eq_bind, Option.bind_eq_some_iff] at h
      obtain ⟨k, -, o, -, ps, hps, r, -, f, -, l, -, t, -, heq⟩ := h
      cases heq
      exact hps
  · cases h

/-- Stored call sites are read back as they were. A path is read exactly where connected segments are written,
and so whatever is read as a call site has paths that are written so. -/
theorem records_round_trip :
    (∀ s : CallSite, ofRecord? s.toRecord = some s) ∧
    (∀ d, (∃ p, Path.ofRecord? d = some p) ↔
      ∃ segments, Path.writtenSegments? d = some segments ∧ segments ≠ [] ∧ segments.IsChain Follows) ∧
    ∀ (d : Data) (s : CallSite), ofRecord? d = some s →
      ∃ entries, writtenPaths? d = some entries ∧ Forall₂ Path.Written entries s.paths := by
  refine ⟨ofRecord?_toRecord, Path.exists_ofRecord?_iff, fun d s h => ?_⟩
  obtain ⟨entries, hentries, hpaths⟩ := writtenPaths?_of_ofRecord? h
  exact ⟨entries, hentries, (forall₂_of_mapM hpaths).imp fun _ _ => Path.written_of_ofRecord?⟩

/-- A call site that observes the city in the address of a person. -/
def observingCity : CallSite where
  kind := .observe
  owner := ⟨"Person", false⟩
  paths := [⟨⟨"Address", ⟨"Address", true⟩, ⟨"Person", false⟩⟩,
    [⟨"City", ⟨"string", false⟩, ⟨"Address", false⟩⟩], by decide⟩]
  result := ⟨"string", false⟩
  features := { (default : Features) with selector := true, beforeChange := true }
  location := ⟨"src/Person.rs", 7⟩
  texts := []

/-- The call site as somebody else may write it: with lists for records, in another order, and with more fields
than it has. -/
def listedCity : Data :=
  let type (name : String) (nullable : Bool) : Data := .list [.text name, .bool nullable]
  .record [("note", .null), ("argument_texts", .list []),
    ("location", .list [.text "src/Person.rs", .int 7]),
    ("flags", .text "IS_BEFORE_CHANGE|HAS_SELECTOR"),
    ("paths", .list [.list [.list [.text "Address", type "Address" true, type "Person" false],
      .list [.text "City", type "string" false, type "Address" false]]]),
    ("kind", .record [("Observe", .null)]), ("result_type", type "string" false),
    ("owner_type", (TypeRef.mk "Person" false).toRecord)]

theorem records_round_trip_city : ofRecord? listedCity = some observingCity ∧
    ∃ entries, writtenPaths? listedCity = some entries ∧
      Forall₂ Path.Written entries observingCity.paths := by
  have h : ofRecord? listedCity = some observingCity := by decide +kernel
  exact ⟨h, records_round_trip.2.2 _ _ h⟩

end CallSite

end DataBinding
