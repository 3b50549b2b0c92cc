import TypedDocs.Proofs.Catalog.SavedBundle
import TypedDocs.Proofs.Json.Same

/-!
# What the hash of a bundle is about

The hash of a bundle is the digest of its collections as they are written, fields in their written
order. Bundles of the same content can therefore have different hashes: the hash of one is that of
another exactly if they are written alike, short of two texts with one digest. Where both are
canonical, the same content is written alike.
-/

namespace TypedDocs.Bundle

/-- The collections are the same, but for the order of fields. -/
def SameContent (b c : Bundle) : Prop :=
  (Value.object b.collections.bindings).isSame (.object c.collections.bindings) = true

/-- All definitions are canonical. -/
def IsCanonical (b : Bundle) : Prop := ∀ d ∈ b.collections.bindings, d.2.isCanonical = true

instance (b : Bundle) : Decidable b.Readable := inferInstanceAs (Decidable (∀ _ ∈ _, _ ∧ _))

instance (b c : Bundle) : Decidable (b.SameContent c) := inferInstanceAs (Decidable (_ = true))

variable {b c : Bundle}

theorem doublesReadBack_collections (h : b.Readable) :
    (Value.object b.collections.bindings).doublesReadBack = true := by
  rw [Value.doublesReadBack, membersReadBack_iff]
  exact fun d hd => (h d hd).1

theorem hasDistinctNames_collections (h : b.Readable) :
    (Value.object b.collections.bindings).hasDistinctNames = true := by
  rw [Value.hasDistinctNames, Value.everyObject, Bool.and_eq_true, Fields.areDistinct,
    decide_eq_true_eq, Value.everyObjectOfFields_iff]
  exact ⟨b.collections.nodup_keys, fun d hd => (h d hd).2⟩

theorem isCanonical_collections (h : b.IsCanonical) :
    (Value.object b.collections.bindings).isCanonical = true := by
  rw [Value.isCanonical, Bool.and_eq_true, decide_eq_true_eq, Value.membersCanonical_iff]
  exact ⟨b.collections.ascending, h⟩

/-- The text that is hashed is that of no other collections. -/
theorem content_eq_iff (hb : b.Readable) (hc : c.Readable) :
    b.content = c.content ↔ b.collections = c.collections := by
  constructor
  · intro h
    have heq := Value.eq_of_compact_eq (doublesReadBack_collections hb)
      (hasDistinctNames_collections hb) (doublesReadBack_collections hc)
      (hasDistinctNames_collections hc) h
    exact Dictionary.eq_of_bindings (Value.object.inj heq)
  · intro h
    rw [content, content, h]

/-- Canonical bundles of the same content are written alike. -/
theorem collections_eq_of_sameContent (h : b.SameContent c) (hb : b.IsCanonical)
    (hc : c.IsCanonical) : b.collections = c.collections := by
  have heq := Value.eq_of_isSame _ _ h (isCanonical_collections hb) (isCanonical_collections hc)
  exact Dictionary.eq_of_bindings (Value.object.inj heq)

/-- A bundle passes with the hash of another one exactly if theirs are equal. -/
theorem verify_of_hash (h : c.hash = some b.contentHash) : c.verify =
    if b.contentHash = c.contentHash then .ok ()
    else .error (.checksum b.contentHash c.contentHash) := by
  rw [verify, h]

/-- A bundle that carries the hash of another one passes exactly if their collections are written
alike, field by field in one order, or else their texts collide under the digest. Otherwise both
hashes are reported. The same content is enough only where both are canonical. -/
theorem verify_sealed_content (hb : b.Readable) (hc : c.Readable)
    (hhash : c.hash = some b.contentHash) :
    (c.verify = .ok () ↔ b.collections = c.collections ∨
      (b.content ≠ c.content ∧ Sha256.hex b.content = Sha256.hex c.content)) ∧
    (c.verify = .ok () ∨ c.verify = .error (.checksum b.contentHash c.contentHash)) ∧
    (b.SameContent c → b.IsCanonical → c.IsCanonical → c.verify = .ok ()) := by
  have hverify := verify_of_hash hhash
  have hpasses : c.verify = .ok () ↔ b.contentHash = c.contentHash := by
    rw [hverify]
    split
    · rename_i heq
      exact ⟨fun _ => heq, fun _ => rfl⟩
    · rename_i hne
      refine ⟨fun h => ?_, fun h => absurd h hne⟩
      cases h
  have halike : b.collections = c.collections → b.contentHash = c.contentHash := by
    intro h
    rw [contentHash, contentHash, (content_eq_iff hb hc).2 h]
  refine ⟨?_, ?_, fun hsame hcanonical hcanonical' => ?_⟩
  · rw [hpasses, ← content_eq_iff hb hc]
    by_cases hcontent : b.content = c.content
    · exact ⟨fun _ => .inl hcontent, fun _ => halike ((content_eq_iff hb hc).1 hcontent)⟩
    · exact ⟨fun h => .inr ⟨hcontent, h⟩, fun h => (h.resolve_left hcontent).2⟩
  · rw [hverify]
    split
    · exact .inl rfl
    · exact .inr rfl
  · exact hpasses.2 (halike (collections_eq_of_sameContent hsame hcanonical hcanonical'))

/-- A bundle with one collection, `bands`. -/
def ofBands (fields : Fields) : Bundle where
  version := "1.0.0"
  generatedAt := "2024-01-15T10:30:00Z"
  collections := Dictionary.empty.insert "bands" (.object fields)

/-- A sealed bundle. -/
def sealedBands : Bundle := (ofBands [("born", .string "Number"), ("name", .string "String")]).sealed

/-- The same bundle with the two fields of its definition in the other order. -/
def reorderedBands : Bundle :=
  { ofBands [("name", .string "String"), ("born", .string "Number")] with hash := sealedBands.hash }

/-- The order of two fields is enough for a sealed bundle not to pass any more. -/
theorem reorderedBands_not_verified : sealedBands.SameContent reorderedBands ∧
    sealedBands.verify = .ok () ∧ reorderedBands.verify ≠ .ok () := by
  have hsealed : sealedBands.Readable := by decide
  have hreordered : reorderedBands.Readable := by decide
  refine ⟨by decide, verify_sealed _, fun h => ?_⟩
  rcases (verify_sealed_content hsealed hreordered rfl).1.1 h with halike | ⟨-, hcollision⟩
  · exact absurd halike (by decide)
  · exact absurd hcollision (by decide +kernel)

end TypedDocs.Bundle
