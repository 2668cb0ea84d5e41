import DataBinding.CallSite.Check
import DataBinding.Proofs.Generation.Groups
import DataBinding.Proofs.Naming.Separators
import DataBinding.Proofs.Naming.Tokens
/-!
# What the text of a signature tells

The text of a signature sets the names of its types side by side, with characters between them that the names
may hold themselves. So the text tells the signature only as far as it is known where the names end: two
signatures are *aligned* if the names of corresponding types hold each of these characters equally often
(`Signature.Aligned`), as they do where no name holds any (`Signature.Plain.aligned`).

`CallSite.signature_eq_iff`: call sites have one signature exactly if they have one text and are aligned.
`CallSite.describe_confuses_nullable`: without being aligned they may have one text and two signatures.
-/

namespace DataBinding

open List

/-- The characters by which the text of a signature is taken apart. The other ones between the names (`-`, `/`
and `#`) are found without looking for them. -/
def Signature.separators : List Char := ['>', '|', ':', '?']

/-! ## Types -/

namespace TypeRef

/-- The names of two types hold each separator equally often. -/
def Aligned (a b : TypeRef) : Prop :=
  ∀ c ∈ Signature.separators, a.name.toList.count c = b.name.toList.count c

variable {a b : TypeRef}

theorem count_display (t : TypeRef) (c : Char) : t.display.toList.count c =
    t.name.toList.count c + if t.nullable ∧ c = '?' then 1 else 0 := by
  unfold display
  by_cases hc : c = '?' <;> cases t.nullable <;> simp [hc, eq_comm]

theorem Aligned.count_display {c : Char} (h : a.Aligned b) (hc : c ∈ Signature.separators) (hq : c ≠ '?') :
    a.display.toList.count c = b.display.toList.count c := by
  rw [TypeRef.count_display, TypeRef.count_display, h c hc]
  simp [hq]

/-- Aligned types that are written alike are the same. -/
theorem Aligned.eq_of_display (h : a.Aligned b) (hd : a.display.toList = b.display.toList) : a = b := by
  -- The names hold equally many question marks, so both texts end in one of their own or neither does.
  have hmarks := congrArg (count '?') hd
  rw [TypeRef.count_display, TypeRef.count_display, h '?' (by decide)] at hmarks
  obtain ⟨name, nullable⟩ := a
  obtain ⟨name', nullable'⟩ := b
  have hnullable : nullable = nullable' := by
    cases nullable <;> cases nullable' <;> simp_all
  subst hnullable
  have hname : name = name' := by
    rw [← String.toList_inj]
    cases nullable <;> simpa [display] using hd
  rw [hname]

end TypeRef

/-! ## Features -/

namespace Features

theorem bits_lt (f : Features) : f.bits < 256 := by
  have hselector := f.selector.toNat_lt
  have hconversion := f.conversion.toNat_lt
  have hscheduler := f.scheduler.toNat_lt
  have hbefore := f.beforeChange.toNat_lt
  have hreserved := f.reserved.isLt
  unfold bits
  omega

/-- The bits tell the features. -/
theorem eq_of_bits {f f' : Features} (h : f.bits = f'.bits) : f = f' := by
  have hread := congrArg ofBits? h
  simpa [ofBits?_bits] using hread

end Features

/-! ## Signatures -/

namespace Signature

/-- The names of corresponding types of two signatures hold each separator equally often. -/
structure Aligned (k k' : Signature) : Prop where
  owner : k.owner.Aligned k'.owner
  result : k.result.Aligned k'.result
  roots : ∀ p ∈ k.roots.zip k'.roots, p.1.Aligned p.2
  leaves : ∀ p ∈ k.leaves.zip k'.leaves, p.1.Aligned p.2

/-- No type has a name that holds a separator. -/
def Plain (k : Signature) : Prop :=
  ∀ t ∈ k.owner :: k.result :: (k.roots ++ k.leaves), ∀ c ∈ separators, c ∉ t.name.toList

-- Given in full, as characters are finitely many and the search for an instance may try them all.
instance (k : Signature) : Decidable k.Plain :=
  @List.decidableBAll _ _ (fun _ => List.decidableBAll _ _) _

/-- Each path that is counted has a root and a leaf. -/
structure Whole (k : Signature) : Prop where
  roots : k.roots.length = k.arity
  leaves : k.leaves.length = k.arity

variable {k k' : Signature}

theorem Aligned.refl (k : Signature) : k.Aligned k where
  owner _ _ := rfl
  result _ _ := rfl
  roots p hp c _ := by rw [Text.eq_of_mem_zip_self hp]
  leaves p hp c _ := by rw [Text.eq_of_mem_zip_self hp]

/-- Where no name holds a separator, all names hold each equally often. -/
theorem Plain.aligned (hk : k.Plain) (hk' : k'.Plain) : k.Aligned k' := by
  have hcount : ∀ t ∈ k.owner :: k.result :: (k.roots ++ k.leaves),
      ∀ t' ∈ k'.owner :: k'.result :: (k'.roots ++ k'.leaves), t.Aligned t' := by
    intro t ht t' ht' c hc
    rw [count_eq_zero.2 (hk t ht c hc), count_eq_zero.2 (hk' t' ht' c hc)]
  refine ⟨hcount _ (by simp) _ (by simp), hcount _ (by simp) _ (by simp), fun p hp => ?_, fun p hp => ?_⟩
  all_goals
    obtain ⟨h, h'⟩ := of_mem_zip hp
    exact hcount _ (by simp [h]) _ (by simp [h'])

/-! ### The parts of the text -/

/-- What stands before the paths. -/
def head (k : Signature) : List Char :=
  k.owner.display.toList ++ '-' :: '>' :: k.result.display.toList ++ '/' :: k.arity.repr.toList

/-- What stands for a path of some root and leaf. -/
def track (p : TypeRef × TypeRef) : List Char := p.1.display.toList ++ ':' :: p.2.display.toList

theorem toList_describe (k : Signature) : k.describe.toList =
    ['|'].intercalate (k.head :: (k.roots.zip k.leaves).map track) ++
      '#' :: (Text.hex 2 k.features.bits).toList := by
  rw [Text.intercalate_cons_eq]
  simp [describe, head, track, flatMap_map, toString]

theorem count_digits (n : Nat) : (Nat.toDigits 10 n).count '|' = 0 :=
  count_eq_zero.2 fun hmem => absurd (Nat.isDigit_of_mem_toDigits (by decide) (by decide) hmem) (by decide)

theorem Aligned.count_head (h : k.Aligned k') : k.head.count '|' = k'.head.count '|' := by
  have howner := h.owner.count_display (c := '|') (by decide) (by decide)
  have hresult := h.result.count_display (c := '|') (by decide) (by decide)
  simp [head, count_digits, howner, hresult]

theorem count_track {p q : TypeRef × TypeRef} (hroot : p.1.Aligned q.1) (hleaf : p.2.Aligned q.2) :
    (track p).count '|' = (track q).count '|' := by
  have hr := hroot.count_display (c := '|') (by decide) (by decide)
  have hl := hleaf.count_display (c := '|') (by decide) (by decide)
  simp [track, hr, hl]

/-- Aligned paths that are written alike have one root and one leaf. -/
theorem track_inj {p q : TypeRef × TypeRef} (hroot : p.1.Aligned q.1) (hleaf : p.2.Aligned q.2)
    (h : track p = track q) : p = q := by
  obtain ⟨hr, hl⟩ := Text.append_cons_inj h (hroot.count_display (by decide) (by decide))
  exact Prod.ext (hroot.eq_of_display hr) (hleaf.eq_of_display hl)

/-- What stands before as many paths tells owner and result. -/
theorem Aligned.eq_of_head (h : k.Aligned k') (ha : k.arity = k'.arity) (hh : k.head = k'.head) :
    k.owner = k'.owner ∧ k.result = k'.result := by
  have htypes : (k.owner.display.toList ++ ['-']) ++ '>' :: k.result.display.toList =
      (k'.owner.display.toList ++ ['-']) ++ '>' :: k'.result.display.toList := by
    simp only [head, ha] at hh
    simpa using append_cancel_right hh
  obtain ⟨howner, hresult⟩ := Text.append_cons_inj htypes
    (by simpa using h.owner.count_display (by decide) (by decide))
  exact ⟨h.owner.eq_of_display (append_cancel_right howner), h.result.eq_of_display hresult⟩

/-- Corresponding paths have corresponding roots and leaves. -/
theorem Aligned.tracks (h : k.Aligned k') :
    ∀ p ∈ (k.roots.zip k.leaves).zip (k'.roots.zip k'.leaves),
      p.1.1.Aligned p.2.1 ∧ p.1.2.Aligned p.2.2 := by
  intro p hp
  -- The i-th of both zips is made of the i-th of the four lists.
  obtain ⟨i, hi⟩ := mem_iff_getElem?.1 hp
  simp only [getElem?_zip_eq_some] at hi
  obtain ⟨⟨hr, hl⟩, hr', hl'⟩ := hi
  exact ⟨h.roots (p.1.1, p.2.1) (mem_iff_getElem?.2 ⟨i, getElem?_zip_eq_some.2 ⟨hr, hr'⟩⟩),
    h.leaves (p.1.2, p.2.2) (mem_iff_getElem?.2 ⟨i, getElem?_zip_eq_some.2 ⟨hl, hl'⟩⟩)⟩

/-! ### The whole text -/

/-- The text tells the signature, among those that are aligned with it. -/
theorem Aligned.eq_of_describe (h : k.Aligned k') (hk : k.Whole) (hk' : k'.Whole)
    (hd : k.describe = k'.describe) : k = k' := by
  have hlist := congrArg String.toList hd
  rw [toList_describe, toList_describe] at hlist
  -- The last three characters are the features, whatever stands before them.
  obtain ⟨hfront, hbits⟩ := append_inj' hlist (by
    simp [Text.length_hex (w := 2) (by decide) (Features.bits_lt _)])
  have hfeatures : k.features = k'.features :=
    Features.eq_of_bits (Text.hex_inj (String.toList_inj.1 (cons.inj hbits).2))
  obtain ⟨hhead, htracks⟩ := cons.inj (Text.intercalate_inj (cons_ne_nil _ _) (cons_ne_nil _ _) hfront (by
    rw [zip_cons_cons, forall_mem_cons, zip_map, forall_mem_map]
    exact ⟨h.count_head, fun p hp => count_track (h.tracks p hp).1 (h.tracks p hp).2⟩))
  have hzip := Text.eq_of_map_eq htracks fun p hp => track_inj (h.tracks p hp).1 (h.tracks p hp).2
  -- The paths come first: the number of them, which the head ends in, is then known.
  have harity : k.arity = k'.arity := by
    simpa [hk.roots, hk.leaves, hk'.roots, hk'.leaves] using congrArg length hzip
  obtain ⟨howner, hresult⟩ := h.eq_of_head harity hhead
  have hunzip := congrArg unzip hzip
  rw [unzip_zip (hk.roots.trans hk.leaves.symm), unzip_zip (hk'.roots.trans hk'.leaves.symm)] at hunzip
  obtain ⟨hroots, hleaves⟩ := Prod.mk.inj hunzip
  cases k
  cases k'
  simp_all

theorem eq_iff_describe (hk : k.Whole) (hk' : k'.Whole) :
    k = k' ↔ k.describe = k'.describe ∧ k.Aligned k' := by
  constructor
  · rintro rfl
    exact ⟨rfl, .refl k⟩
  · rintro ⟨hd, ha⟩
    exact ha.eq_of_describe hk hk' hd

end Signature

/-! ## Call sites and groups -/

theorem CallSite.whole_signature (s : CallSite) : s.signature.Whole :=
  ⟨length_map _, length_map _⟩

/-- The signature of a group is that of a call site. -/
theorem Group.whole_signature {sites : List CallSite} {g : Group} (hg : g ∈ groups sites) :
    g.signature.Whole := by
  have hfirst : g.first ∈ g.members := mem_cons_self
  rw [members_of_mem_groups hg, mem_filter] at hfirst
  obtain ⟨-, hsig⟩ := hfirst
  rw [← of_decide_eq_true hsig]
  exact g.first.whole_signature

/-- Two call sites have one signature exactly if their signatures have one text and are aligned. So two groups
are one exactly if the names of their entry points are hashed from the same, the owner's name and the text, and
they are aligned. -/
theorem CallSite.signature_eq_iff (s s' : CallSite) (sites : List CallSite) :
    (s.signature = s'.signature ↔
      s.signature.describe = s'.signature.describe ∧ s.signature.Aligned s'.signature) ∧
    ∀ g ∈ groups sites, ∀ g' ∈ groups sites, (g = g' ↔
      g.signature.owner.name = g'.signature.owner.name ∧
        g.signature.describe = g'.signature.describe ∧ g.signature.Aligned g'.signature) := by
  refine ⟨Signature.eq_iff_describe s.whole_signature s'.whole_signature, fun g hg g' hg' => ?_⟩
  have hiff := Signature.eq_iff_describe (Group.whole_signature hg) (Group.whole_signature hg')
  constructor
  · rintro rfl
    exact ⟨rfl, hiff.1 rfl⟩
  · rintro ⟨-, h⟩
    exact inj_on_of_nodup_map (nodup_map_signature_groups sites) hg hg' (hiff.2 h)

/-- A call site that observes the age of a person, which is of some type. -/
def aged (type : TypeRef) (line : UInt32) : CallSite where
  kind := .observe
  owner := ⟨"Person", false⟩
  paths := [.single ⟨"Age", type, ⟨"Person", false⟩⟩]
  result := ⟨"string", false⟩
  features := default
  location := ⟨"src/Person.rs", line⟩
  texts := ["x => x.Age"]

/-- A nullable type is written like one whose name ends in a question mark: two call sites that are accepted
have two signatures and one text, so that their entry points have one name. -/
theorem CallSite.describe_confuses_nullable :
    (aged ⟨"int?", false⟩ 7).check .observe .text = .ok () ∧
    (aged ⟨"int", true⟩ 8).check .observe .text = .ok () ∧
    (aged ⟨"int?", false⟩ 7).signature ≠ (aged ⟨"int", true⟩ 8).signature ∧
    (aged ⟨"int?", false⟩ 7).signature.describe = (aged ⟨"int", true⟩ 8).signature.describe ∧
    entryPointName .observe (aged ⟨"int?", false⟩ 7).signature =
      entryPointName .observe (aged ⟨"int", true⟩ 8).signature := by
  have htext : (aged ⟨"int?", false⟩ 7).signature.describe = (aged ⟨"int", true⟩ 8).signature.describe := by
    decide
  refine ⟨by decide, by decide, by decide, htext, ?_⟩
  rw [entryPointName, entryPointName, htext]
  rfl

end DataBinding
