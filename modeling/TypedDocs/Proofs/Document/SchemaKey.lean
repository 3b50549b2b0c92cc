import TypedDocs.Proofs.Document.Walk

/-!
# A walk depends on the schema key only

A document walk looks at the schema key of a location. The instance key is for reports only: it
tells where a failure was met. So at two locations with one schema key a value becomes the same,
and the same errors are met in the same order.
-/

namespace TypedDocs

/-- One walk, but for the instance keys of its failures. -/
structure Walked.Alike {α : Type} (a b : Walked α) : Prop where
  value : a.value = b.value
  errors : a.failures.map Prod.snd = b.failures.map Prod.snd

namespace Walked.Alike

variable {α β γ : Type} {a b : Walked α}

theorem map (h : a.Alike b) (f : α → β) : (a.map f).Alike (b.map f) where
  value := congrArg f h.value
  errors := h.errors

/-- Two walks one after the other. -/
theorem append {c d : Walked β} (h : a.Alike b) (h' : c.Alike d) (f : α → β → γ) :
    Alike ⟨f a.value c.value, a.failures ++ c.failures⟩
      ⟨f b.value d.value, b.failures ++ d.failures⟩ where
  value := by rw [h.value, h'.value]
  errors := by rw [List.map_append, List.map_append, h.errors, h'.errors]

theorem isEmpty (h : a.Alike b) : a.failures.isEmpty = b.failures.isEmpty := by
  rw [← List.isEmpty_map (f := Prod.snd), h.errors, List.isEmpty_map]

theorem toExcept (h : a.Alike b) : a.toExcept = b.toExcept := by
  obtain ⟨x, failures⟩ := a
  obtain ⟨y, others⟩ := b
  obtain ⟨rfl, herrors⟩ := h
  cases failures with
  | nil =>
    cases others with
    | nil => rfl
    | cons g more => cases herrors
  | cons f rest =>
    cases others with
    | nil => cases herrors
    | cons g more => exact congrArg Except.error (List.cons.inj herrors).1

end Walked.Alike

theorem Index.demand_congr (index : Index) {p q : FieldPath} (h : p.schema = q.schema) :
    index.demand p = index.demand q := by
  rw [demand, demand, h]

namespace Walker

variable {w : Walker} {p q : FieldPath} {v x : Value}

theorem stops_congr {α : Type} {a b : Walked α} (h : a.Alike b) :
    w.stops a.failures = w.stops b.failures := by
  rw [stops, stops, h.isEmpty]

theorem atom_alike (h : p.schema = q.schema) : (w.atom p v).Alike (w.atom q v) := by
  unfold atom leaf
  rw [h]
  split
  · exact ⟨rfl, rfl⟩
  · split
    · split
      · exact ⟨rfl, rfl⟩
      · exact ⟨rfl, rfl⟩
    · exact ⟨rfl, rfl⟩
  · exact ⟨rfl, rfl⟩

theorem items_cons_alike {i j : Nat} {xs : List Value}
    (hx : (w.field (p.child (.index i)) x).Alike (w.field (q.child (.index j)) x))
    (hxs : (w.items p (i + 1) xs).Alike (w.items q (j + 1) xs)) :
    (w.items p i (x :: xs)).Alike (w.items q j (x :: xs)) := by
  cases hstops : w.stops (w.field (p.child (.index i)) x).failures with
  | true =>
    rw [items_cons_stopped hstops, items_cons_stopped (stops_congr hx ▸ hstops)]
    exact ⟨congrArg (· :: xs) hx.value, hx.errors⟩
  | false =>
    rw [items_cons hstops, items_cons (stops_congr hx ▸ hstops)]
    exact hx.append hxs _

theorem fields_cons_alike {key : String} {fs : Fields} (h : p.schema = q.schema)
    (hkeep : w.index.keepsField p.schema key x = true)
    (hx : (w.field (p.child (.key key)) x).Alike (w.field (q.child (.key key)) x))
    (hfs : (w.fields p fs).Alike (w.fields q fs)) :
    (w.fields p ((key, x) :: fs)).Alike (w.fields q ((key, x) :: fs)) := by
  cases hstops : w.stops (w.field (p.child (.key key)) x).failures with
  | true =>
    rw [fields_cons_stopped hkeep hstops,
      fields_cons_stopped (h ▸ hkeep) (stops_congr hx ▸ hstops), h]
    exact ⟨congrArg (fun y => (key, y) :: w.index.prune q.schema fs) hx.value, hx.errors⟩
  | false =>
    rw [fields_cons hkeep hstops, fields_cons (h ▸ hkeep) (stops_congr hx ▸ hstops)]
    exact hx.append hfs fun y gs => (key, y) :: gs

/-- At locations with one schema key a value is walked alike, and it does not matter from which
index on items are counted. -/
theorem alike (w : Walker) :
    Cases w.index (fun v p => ∀ q, p.schema = q.schema → (w.field p v).Alike (w.field q v))
      (fun xs p i => ∀ q j, p.schema = q.schema → (w.items p i xs).Alike (w.items q j xs))
      (fun fs p => ∀ q, p.schema = q.schema → (w.fields p fs).Alike (w.fields q fs)) where
  null _ _ _ := ⟨rfl, rfl⟩
  array hd h q hq := by
    rw [field_items hd, field_items (w.index.demand_congr hq ▸ hd)]
    exact (h q 0 hq).map _
  promoted {v p} hd hnull harray h q hq := by
    have hd' : w.index.demand q = .items := w.index.demand_congr hq ▸ hd
    have hchild : (p.child (.index 0)).schema = (q.child (.index 0)).schema :=
      congrArg (join · wildcard) hq
    rw [field_promoted hd hnull harray, field_promoted hd' hnull harray]
    exact (h _ hchild).map _
  object hd h q hq := by
    rw [field_object hd rfl, field_object (w.index.demand_congr hq ▸ hd) rfl]
    exact (h q hq).map _
  misshapen hd hnull hobject q hq := by
    rw [field_misshapen hd hnull hobject,
      field_misshapen (w.index.demand_congr hq ▸ hd) hnull hobject]
    exact ⟨rfl, rfl⟩
  atom hi ho _ q hq := by
    have hdemand := w.index.demand_congr hq
    rw [field_eq_atom hi ho, field_eq_atom (hdemand ▸ hi) (hdemand ▸ ho)]
    exact atom_alike hq
  noItems _ _ _ _ _ := ⟨rfl, rfl⟩
  item hx hxs q j hq :=
    items_cons_alike (hx _ (congrArg (join · wildcard) hq)) (hxs q (j + 1) hq)
  noFields _ _ _ := ⟨rfl, rfl⟩
  kept {key x fs p} hkeep hx hfs q hq :=
    fields_cons_alike hq hkeep (hx _ (congrArg (join · key) hq)) (hfs q hq)
  dropped hkeep hfs q hq := by
    rw [fields_cons_dropped hkeep, fields_cons_dropped (hq ▸ hkeep)]
    exact hfs q hq

end Walker

end TypedDocs
