import Mathlib
import Larder.Proofs.CanonicalForm
import Larder.Proofs.Equality
import Larder.Proofs.RecordSets

/-!
# The text of a value does not depend on the order of its maps

A map may hand out its entries in any order, and a document may be built from them in that order,
without putting the keys into order (`Datum.listed`). Values that differ in the order of the entries
of their maps only (`Datum.Reordered`) make documents that differ in order only, so their canonical
forms are one document, and their texts one text.
-/

namespace Larder

namespace Datum

/-! ## Documents in the order of the entries -/

mutual

/-- The document of a value, with the members of every object in the order in which the value lists
them. -/
def listed : Datum → Json
  | .present d => d.listed
  | .list items => .array (listedItems items)
  | .map entries => .object (listedEntries entries)
  | .ok d => .object [("ok", d.listed)]
  | .record fields => .object (listedEntries fields)
  | d => d.encode

def listedItems : List Datum → List Json
  | [] => []
  | d :: rest => d.listed :: listedItems rest

def listedEntries : List (String × Datum) → List (String × Json)
  | [] => []
  | (key, d) :: rest => (key, d.listed) :: listedEntries rest

end

theorem listedItems_eq_map : ∀ items : List Datum, listedItems items = items.map listed
  | [] => rfl
  | d :: rest => by rw [listedItems, listedItems_eq_map rest, List.map_cons]

theorem listedEntries_eq_map : ∀ entries : List (String × Datum),
    listedEntries entries = entries.map fun e => (e.1, e.2.listed)
  | [] => rfl
  | (key, d) :: rest => by rw [listedEntries, listedEntries_eq_map rest, List.map_cons]

open Json in
/-- A member that is put into its place is in its place in the canonical form. -/
theorem canonicalMembers_insert (key : String) (v : Json) (members : List (String × Json)) :
    canonicalMembers (Keyed.insert key v members) =
      Keyed.insert key v.canonical (canonicalMembers members) := by
  refine Keyed.eq_of_lookup_eq (sorted_canonicalMembers _)
    (Keyed.sorted_insert (sorted_canonicalMembers _)) fun k => ?_
  rw [lookup_canonicalMembers, Keyed.lookup_insert, Keyed.lookup_insert, lookup_canonicalMembers]
  by_cases h : k = key
  · rw [if_pos h, if_pos h]
    rfl
  · rw [if_neg h, if_neg h]

theorem listedEntries_keys (entries : List (String × Datum)) :
    (listedEntries entries).map Prod.fst = entries.map Prod.fst := by
  rw [listedEntries_eq_map, List.map_map]
  rfl

mutual

/-- Where no key is listed twice, the canonical form does not tell whether the keys were in order
before. -/
theorem canonical_listed : ∀ d : Datum, d.listed.DistinctKeys →
    d.listed.canonical = d.encode.canonical
  | .string _, _ | .bool _, _ | .integer _, _ | .float _, _ | .uuid _, _ | .json _, _ | .status _, _
  | .absent, _ | .err _, _ => rfl
  | .present d, h => canonical_listed d h
  | .list items, h => congrArg Json.array (canonicalItems_listed items (Json.distinctKeys_array.mp h))
  | .map entries, h =>
      congrArg Json.object (canonicalMembers_listed entries (Json.distinctKeys_object.mp h))
  | .ok d, h =>
      congrArg (fun v => Json.object [("ok", v)])
        (canonical_listed d ((Json.distinctKeys_object.mp h).2 _ List.mem_cons_self))
  | .record fields, h =>
      congrArg Json.object (canonicalMembers_listed fields (Json.distinctKeys_object.mp h))

theorem canonicalItems_listed : ∀ items : List Datum, (∀ v ∈ listedItems items, v.DistinctKeys) →
    Json.canonicalItems (listedItems items) = Json.canonicalItems (encodeItems items)
  | [], _ => rfl
  | d :: rest, h => by
      obtain ⟨hd, hrest⟩ := List.forall_mem_cons.mp h
      rw [listedItems, encodeItems, Json.canonicalItems, Json.canonicalItems, canonical_listed d hd,
        canonicalItems_listed rest hrest]

theorem canonicalMembers_listed : ∀ entries : List (String × Datum),
    ((listedEntries entries).map Prod.fst).Nodup ∧
      (∀ m ∈ listedEntries entries, m.2.DistinctKeys) →
    Json.canonicalMembers (listedEntries entries) = Json.canonicalMembers (encodeEntries entries)
  | [], _ => rfl
  | (key, d) :: rest, ⟨hkeys, hmembers⟩ => by
      obtain ⟨hnew, hrest⟩ := List.nodup_cons.mp hkeys
      obtain ⟨hd, hmembers⟩ := List.forall_mem_cons.mp hmembers
      -- of a key that was listed twice the first entry would count here, and the last there
      rw [listedEntries_keys] at hnew
      rw [listedEntries, encodeEntries_cons hnew, canonicalMembers_insert, Json.canonicalMembers,
        canonical_listed d hd, canonicalMembers_listed rest ⟨hrest, hmembers⟩]

end

/-- The text of a value is that of its document, in whatever order that was built. -/
theorem text_eq_listed {d : Datum} (h : d.listed.DistinctKeys) :
    d.text = d.listed.canonical.compact := by
  rw [text, canonical_listed d h]

/-! ## Values that differ in order only -/

/-- The values differ only in the order in which maps, at any depths, list their entries, and opaque
documents the members of their objects. -/
inductive Reordered : Datum → Datum → Prop where
  | refl (d : Datum) : Reordered d d
  | map {entries others : List (String × Datum)} (h : entries.Perm others) :
      Reordered (.map entries) (.map others)
  | json {v w : Json} (h : v.Reordered w) : Reordered (.json v) (.json w)
  | present {d e : Datum} (h : Reordered d e) : Reordered (.present d) (.present e)
  | ok {d e : Datum} (h : Reordered d e) : Reordered (.ok d) (.ok e)
  | item (before after : List Datum) {d e : Datum} (h : Reordered d e) :
      Reordered (.list (before ++ d :: after)) (.list (before ++ e :: after))
  | entry (before after : List (String × Datum)) (key : String) {d e : Datum} (h : Reordered d e) :
      Reordered (.map (before ++ (key, d) :: after)) (.map (before ++ (key, e) :: after))
  | field (before after : List (String × Datum)) (key : String) {d e : Datum} (h : Reordered d e) :
      Reordered (.record (before ++ (key, d) :: after)) (.record (before ++ (key, e) :: after))
  | trans {a b d : Datum} (h : Reordered a b) (h' : Reordered b d) : Reordered a d

variable {d e : Datum}

/-- Values that differ in order only make documents that differ in order only. -/
theorem Reordered.listed (h : Reordered d e) : d.listed.Reordered e.listed := by
  induction h with
  | refl d => exact .refl _
  | map h =>
      rw [Datum.listed, Datum.listed, listedEntries_eq_map, listedEntries_eq_map]
      exact .object (h.map _)
  | json h => exact h
  | present _ ih => exact ih
  | ok _ ih => exact .member [] [] "ok" ih
  | item before after _ ih =>
      rw [Datum.listed, Datum.listed, listedItems_eq_map, listedItems_eq_map, List.map_append,
        List.map_append]
      exact .item _ _ ih
  | entry before after key _ ih | field before after key _ ih =>
      rw [Datum.listed, Datum.listed, listedEntries_eq_map, listedEntries_eq_map, List.map_append,
        List.map_append]
      exact .member _ _ key ih
  | trans _ _ ih ih' => exact ih.trans ih'

/-- Entries with distinct keys make an object with distinct keys. -/
theorem distinctKeys_listedEntries {entries : List (String × Datum)}
    (hkeys : (entries.map Prod.fst).Nodup) (h : ∀ e ∈ entries, e.2.listed.DistinctKeys) :
    (Json.object (listedEntries entries)).DistinctKeys := by
  rw [listedEntries_eq_map]
  refine .object ?_ fun m hm => ?_
  · rwa [List.map_map]
  · obtain ⟨e, he, rfl⟩ := List.mem_map.mp hm
    exact h e he

end Datum

variable {c : Catalog} {t : Ty} {d e : Datum}

theorem Failure.encode_wellFormed (f : Failure) : f.encode.WellFormed := by
  simp only [encode, Json.integer, Json.WellFormed, Json.MembersWellFormed, Keyed.Sorted, and_true]
  exact List.pairwise_pair.mpr (by decide : "code" < "description")

/-- The document of a value of a type has no key twice in an object. -/
theorem HasType.distinctKeys (hc : c.DistinctKeys) (h : HasType c t d) :
    d.listed.DistinctKeys := by
  induction h with
  | string s | bool b | integer hn | uuid u | status s | absent t => exact .scalar rfl
  | float x => cases x <;> exact .scalar rfl
  | json hv => exact hv.distinctKeys
  | present _ ih => exact ih
  | list hitems ih =>
      rw [Datum.listed, Datum.listedItems_eq_map]
      exact .array (List.forall_mem_map.mpr ih)
  | map hkeys hentries ih => exact Datum.distinctKeys_listedEntries hkeys ih
  | ok _ ih => exact .object (List.nodup_singleton _) (List.forall_mem_singleton.mpr ih)
  | err t f =>
      refine .object (List.nodup_singleton _) (List.forall_mem_singleton.mpr ?_)
      exact f.encode_wellFormed.distinctKeys
  | @record name entries hkeys hentries ih =>
      refine Datum.distinctKeys_listedEntries (hkeys ▸ hc.fields name) fun e he => ?_
      obtain ⟨i, hi, rfl⟩ := List.getElem_of_mem he
      have hfield : i < (c.fields name).length := by
        have hlength : entries.length = (c.fields name).length := by
          simpa using congrArg List.length hkeys
        exact hlength ▸ hi
      exact ih _ (getElem_mem_zip hfield hi)

/-- The text of a value of a type is the same in whatever order its maps hand out their entries, and
whether or not the keys are in order before. -/
theorem HasType.text_eq_of_reordered (hc : c.DistinctKeys) (h : HasType c t d)
    (hreordered : d.Reordered e) : e.text = d.text ∧ e.listed.canonical.compact = d.text := by
  have hkeys : d.listed.DistinctKeys := h.distinctKeys hc
  have hcanonical : e.listed.canonical = d.listed.canonical :=
    (hreordered.listed.canonical_eq hkeys).symm
  have htext : e.listed.canonical.compact = d.text := by
    rw [hcanonical, Datum.text_eq_listed hkeys]
  exact ⟨(Datum.text_eq_listed (hreordered.listed.distinctKeys hkeys)).trans htext, htext⟩

/-- **The canonical form is a normal form up to order.** It has the members of every object in the
order of the bytes of their keys, and every path leads in it where it led before; it is its own
canonical form; and documents without a key twice in an object have one canonical form, and so are
written alike, just when they differ in order only. It is the only one of them that is in order, so
it does not matter how the keys are sorted. So the text of a value does not depend on the order in
which its maps hand out their entries. -/
theorem canonical_upToOrder :
    (∀ v : Json, v.PutInOrder v.canonical ∧ v.canonical.canonical = v.canonical) ∧
    (∀ v w : Json, v.DistinctKeys →
      (v.Reordered w ↔ w.DistinctKeys ∧ v.canonical = w.canonical) ∧
      (v.Reordered w → v.canonical.compact = w.canonical.compact) ∧
      (v.Reordered w → w.WellFormed → w = v.canonical)) ∧
    ∀ (c : Catalog) (t : Ty) (d e : Datum), c.DistinctKeys → HasType c t d → d.Reordered e →
      e.text = d.text ∧ e.listed.canonical.compact = d.text := by
  refine ⟨?_, ?_, ?_⟩
  · intro v
    exact ⟨v.putInOrder_canonical, v.canonical_canonical⟩
  · intro v w hv
    refine ⟨Json.reordered_iff hv, fun h => ?_, fun h hw => h.eq_canonical hv hw⟩
    rw [h.canonical_eq hv]
  · intro c t d e hc hd h
    exact hd.text_eq_of_reordered hc h

/-- Spices, in no order. -/
def spices : Json :=
  .object [("ñora", .array [.object [("mild", .bool true), ("dried", .null)]]),
    ("oregano", .string "wild")]

/-- The same spices in order: a letter beyond ASCII comes after all letters within. -/
def spicesInOrder : Json :=
  .object [("oregano", .string "wild"),
    ("ñora", .array [.object [("dried", .null), ("mild", .bool true)]])]

theorem spices_reordered : spices.Reordered spicesInOrder :=
  .trans (.object (.swap _ _ _))
    (.member [("oregano", .string "wild")] [] "ñora" (.item [] [] (.object (.swap _ _ _))))

theorem spices_distinctKeys : spices.DistinctKeys := by
  refine .object (by decide) (List.forall_mem_cons.mpr ⟨.array (List.forall_mem_singleton.mpr ?_),
    List.forall_mem_singleton.mpr (.scalar rfl)⟩)
  exact .object (by decide) (List.forall_mem_cons.mpr ⟨.scalar rfl,
    List.forall_mem_singleton.mpr (.scalar rfl)⟩)

theorem canonical_upToOrder_spices :
    let a := listsReply ["groceries", "hardware"]
    let b := listsReply ["hardware", "groceries"]
    spices.DistinctKeys ∧ spices.Reordered spicesInOrder ∧ spices.canonical = spicesInOrder ∧
      Api.catalog.DistinctKeys ∧ HasType Api.catalog (.record "GetListsResponse") a ∧
      a.Reordered b ∧ b.text = a.text := by
  intro a b
  have hc : Api.catalog.DistinctKeys := by decide
  have ha : HasType Api.catalog (.record "GetListsResponse") a := listsReply_hasType (by decide)
  have hb : a.Reordered b := .field [] [] "results" (.map (.swap _ _ _))
  obtain ⟨-, hdocuments, hvalues⟩ := canonical_upToOrder
  have hcanonical : spices.canonical = spicesInOrder.canonical :=
    ((hdocuments spices spicesInOrder spices_distinctKeys).1.mp spices_reordered).2
  have horder : spicesInOrder.canonical = spicesInOrder := by
    cbv
  exact ⟨spices_distinctKeys, spices_reordered, hcanonical.trans horder, hc, ha, hb,
    (hvalues Api.catalog _ a b hc ha hb).1⟩

end Larder
