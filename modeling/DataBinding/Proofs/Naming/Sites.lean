import DataBinding.Proofs.Naming.Signatures
/-!
# What the names of implementations tell

Call sites on one line are told apart by one text, their argument texts joined and the text of the signature
after them. A text that is recorded may hold the characters between the texts, so again the parts are found
only where both call sites hold these equally often (`CallSite.Aligned`).

`CallSite.texts_signature_eq_iff`: two call sites with one text for each path have the same texts and one
signature exactly if what tells them apart is the same, and they are aligned; and on one line, their
implementations have one name exactly if the hashes of what tells them apart are the same.
`CallSite.nameText_confuses_texts`: without being aligned, they may have one name and different texts.
-/

namespace DataBinding.CallSite

open List

variable {s s' : CallSite}

/-- What tells call sites on one line apart. -/
def nameText (s : CallSite) : String := s.discriminator ++ "@" ++ s.signature.describe

theorem implementationName_eq (s : CallSite) : s.implementationName =
    "__" ++ s.kind.entryName ++ "_" ++
      placeToken s.owner.name s.location.file s.location.line s.nameText := rfl

/-- Two call sites hold the separators equally often where they could be taken for one that stands between
texts, between the texts and the signature, or in the signature. -/
structure Aligned (s s' : CallSite) : Prop where
  joined : s.discriminator.toList.count '@' = s'.discriminator.toList.count '@'
  texts : ∀ p ∈ s.texts.zip s'.texts, p.1.toList.count '|' = p.2.toList.count '|'
  signature : s.signature.Aligned s'.signature

theorem arity_signature (s : CallSite) : s.signature.arity = s.paths.length := rfl

theorem discriminator_of_texts (h : s.texts ≠ []) : s.discriminator = "|".intercalate s.texts := by
  rw [discriminator, if_neg (by simpa using h)]

/-- With a text for each path, the same texts are joined to the same. -/
theorem discriminator_congr (hs : s.texts.length = s.paths.length)
    (hs' : s'.texts.length = s'.paths.length) (h : s.texts = s'.texts) :
    s.discriminator = s'.discriminator := by
  by_cases hnil : s.texts = []
  · rw [hnil, length_nil, eq_comm, length_eq_zero_iff] at hs
    rw [← h, hnil, length_nil, eq_comm, length_eq_zero_iff] at hs'
    simp [discriminator, ← h, hnil, hs, hs']
  · rw [discriminator_of_texts hnil, discriminator_of_texts (h ▸ hnil), h]

/-- As many texts, joined to one text, are the same if text by text they hold as many separators. -/
theorem Aligned.eq_of_discriminator (h : s.Aligned s') (hlen : s.texts.length = s'.texts.length)
    (hd : s.discriminator = s'.discriminator) : s.texts = s'.texts := by
  by_cases hnil : s.texts = []
  · rw [hnil, length_nil, eq_comm, length_eq_zero_iff] at hlen
    rw [hnil, hlen]
  · have hnil' : s'.texts ≠ [] := by
      rw [← length_pos_iff, ← hlen]
      exact length_pos_iff.2 hnil
    have hlist := congrArg String.toList hd
    rw [discriminator_of_texts hnil, discriminator_of_texts hnil', String.toList_intercalate,
      String.toList_intercalate] at hlist
    have htexts := Text.intercalate_inj (c := '|') (by simpa using hnil) (by simpa using hnil') hlist (by
      rw [zip_map, forall_mem_map]
      exact h.texts)
    exact (map_inj_right fun _ _ => String.toList_inj.1).1 htexts

/-- What tells aligned call sites apart tells their texts and their signatures. -/
theorem Aligned.eq_of_nameText (h : s.Aligned s') (hs : s.texts.length = s.paths.length)
    (hs' : s'.texts.length = s'.paths.length) (hn : s.nameText = s'.nameText) :
    s.texts = s'.texts ∧ s.signature = s'.signature := by
  have hlist := congrArg String.toList hn
  simp only [nameText, String.toList_append, append_assoc] at hlist
  obtain ⟨hd, hk⟩ := Text.append_cons_inj (c := '@') hlist h.joined
  have hsig : s.signature = s'.signature :=
    h.signature.eq_of_describe s.whole_signature s'.whole_signature (String.toList_inj.1 hk)
  -- One signature has one number of paths, so there are as many texts.
  have hlen : s.texts.length = s'.texts.length := by
    rw [hs, hs', ← arity_signature, ← arity_signature, hsig]
  exact ⟨h.eq_of_discriminator hlen (String.toList_inj.1 hd), hsig⟩

/-- On one line, names are told apart by the hash of what tells call sites apart. -/
theorem implementationName_eq_iff (hkind : s.kind = s'.kind) (howner : s.owner = s'.owner)
    (hplace : s.location = s'.location) :
    s.implementationName = s'.implementationName ↔ fnv1a s.nameText = fnv1a s'.nameText := by
  rw [implementationName_eq, implementationName_eq, hkind, howner, hplace]
  simp [placeToken_eq_iff]

/-- Two call sites of one kind on one line, with a text for each path, have the same texts and one signature
exactly if what tells them apart is the same, and they are aligned. Their implementations have one name
exactly if it has one hash. -/
theorem texts_signature_eq_iff (hkind : s.kind = s'.kind) (howner : s.owner = s'.owner)
    (hplace : s.location = s'.location) (hs : s.texts.length = s.paths.length)
    (hs' : s'.texts.length = s'.paths.length) :
    (s.texts = s'.texts ∧ s.signature = s'.signature ↔ s.nameText = s'.nameText ∧ s.Aligned s') ∧
      (s.implementationName = s'.implementationName ↔ fnv1a s.nameText = fnv1a s'.nameText) := by
  refine ⟨⟨?_, ?_⟩, implementationName_eq_iff hkind howner hplace⟩
  · rintro ⟨htexts, hsig⟩
    have hd := discriminator_congr hs hs' htexts
    refine ⟨by rw [nameText, nameText, hd, hsig], by rw [hd], fun p hp => ?_, hsig ▸ .refl _⟩
    rw [← htexts] at hp
    rw [Text.eq_of_mem_zip_self hp]
  · rintro ⟨hn, ha⟩
    exact ha.eq_of_nameText hs hs' hn

/-- A call site on line 7 that observes two properties of a person. -/
def observing (first second : String) (texts : List String) : CallSite where
  kind := .observeMany
  owner := ⟨"Person", false⟩
  paths := [.single ⟨first, ⟨"string", false⟩, ⟨"Person", false⟩⟩,
    .single ⟨second, ⟨"string", false⟩, ⟨"Person", false⟩⟩]
  result := ⟨"string", false⟩
  features := default
  location := ⟨"src/Person.rs", 7⟩
  texts := texts

/-- The first texts hold a separator each, but these do not come into each other's way. -/
theorem texts_signature_eq_iff_observing :
    let s := observing "Name" "City" ["a|b", "c"]
    let s' := observing "City" "Name" ["c|b", "a"]
    s.kind = s'.kind ∧ s.owner = s'.owner ∧ s.location = s'.location ∧
      s.texts.length = s.paths.length ∧ s'.texts.length = s'.paths.length ∧ s.Aligned s' ∧
      s.nameText ≠ s'.nameText ∧ s.implementationName ≠ s'.implementationName := by
  intro s s'
  have hplain : s.signature.Plain ∧ s'.signature.Plain := by decide +kernel
  have ha : s.Aligned s' := ⟨by decide, by decide, hplain.1.aligned hplain.2⟩
  have hiff := @texts_signature_eq_iff s s' rfl rfl rfl rfl rfl
  have htexts : s.texts ≠ s'.texts := by decide
  have hhash : fnv1a s.nameText ≠ fnv1a s'.nameText := by decide +kernel
  exact ⟨rfl, rfl, rfl, rfl, rfl, ha, fun hn => htexts (hiff.1.2 ⟨hn, ha⟩).1, fun hn => hhash (hiff.2.1 hn)⟩

/-- Two call sites that are accepted, of one kind on one line, observe two properties in either order; they
have different texts, none of them empty, but their implementations have one name. -/
theorem nameText_confuses_texts :
    let s := observing "Name" "City" ["a|b", "c"]
    let s' := observing "City" "Name" ["a", "b|c"]
    s.check .observeMany .text = .ok () ∧ s'.check .observeMany .text = .ok () ∧
      s.kind = s'.kind ∧ s.owner = s'.owner ∧ s.location = s'.location ∧
      s.texts.length = s.paths.length ∧ s'.texts.length = s'.paths.length ∧
      (∀ t ∈ s.texts ++ s'.texts, t ≠ "") ∧ s.texts ≠ s'.texts ∧
      s.nameText = s'.nameText ∧ s.implementationName = s'.implementationName := by
  intro s s'
  have hn : s.nameText = s'.nameText := by decide
  refine ⟨by decide, by decide, rfl, rfl, rfl, rfl, rfl, by decide, by decide, hn, ?_⟩
  exact (implementationName_eq_iff rfl rfl rfl).2 (congrArg fnv1a hn)

end DataBinding.CallSite
