import Mathlib.Data.List.Forall2
import Larder.Datum

/-!
# Documents of values

What the document of a value holds, and when values are the same, in terms of the parts of a value:
the members of the document of a map or a record are the documents of its entries under their keys,
of entries under one key that of the last, and two collections are the same when their entries are.
-/

namespace Larder

namespace Datum

attribute [simp] same sameItems sameEntries sameFields

/-! ## The parts of a document -/

theorem encodeItems_eq_map : ∀ (items : List Datum), encodeItems items = items.map encode
  | [] => rfl
  | d :: rest => by rw [encodeItems, encodeItems_eq_map rest, List.map_cons]

/-- Under each key there is the document of the last value under it. -/
theorem lookup_encodeEntries (key : String) : ∀ (entries : List (String × Datum)),
    (encodeEntries entries).lookup key = (entries.reverse.lookup key).map encode
  | [] => rfl
  | (k, d) :: rest => by
      rw [encodeEntries, Keyed.lookup_insertIfNew, lookup_encodeEntries k rest,
        lookup_encodeEntries key rest, List.reverse_cons, List.lookup_append]
      split
      · rename_i h
        subst h
        rw [Keyed.lookup_cons_self]
        cases rest.reverse.lookup key <;> rfl
      · rename_i h
        rw [Keyed.lookup_cons_of_ne h, List.lookup_nil, Option.or_none]

example : (Datum.record [("a", .bool true), ("a", .bool false)]).encode =
    .object [("a", .bool false)] := by
  cbv

/-- Where every key is there once, that is the value under it. -/
theorem lookup_encodeEntries_of_nodup {entries : List (String × Datum)}
    (h : (entries.map Prod.fst).Nodup) (key : String) :
    (encodeEntries entries).lookup key = (entries.lookup key).map encode := by
  rw [lookup_encodeEntries, Keyed.lookup_reverse h]

theorem lookup_encodeEntries_of_mem {entries : List (String × Datum)}
    (h : (entries.map Prod.fst).Nodup) {e : String × Datum} (he : e ∈ entries) :
    (encodeEntries entries).lookup e.1 = some e.2.encode := by
  rw [lookup_encodeEntries_of_nodup h, Keyed.lookup_of_mem h he]
  rfl

theorem sorted_encodeEntries : ∀ entries : List (String × Datum),
    Keyed.Sorted (encodeEntries entries)
  | [] => .nil
  | (_, _) :: rest => Keyed.sorted_insertIfNew (sorted_encodeEntries rest)

theorem mem_encodeEntries {m : String × Json} : ∀ {entries : List (String × Datum)},
    m ∈ encodeEntries entries → ∃ d, (m.1, d) ∈ entries ∧ m.2 = d.encode
  | [], h => by cases h
  | (k, d) :: rest, h => by
      rw [encodeEntries] at h
      rcases Keyed.mem_insertIfNew h with rfl | h
      · exact ⟨d, List.mem_cons_self, rfl⟩
      · obtain ⟨e, he, hm⟩ := mem_encodeEntries h
        exact ⟨e, List.mem_cons_of_mem _ he, hm⟩

/-- No key is written that no entry has. -/
theorem notMem_encodeEntries {key : String} {entries : List (String × Datum)}
    (h : key ∉ entries.map Prod.fst) : key ∉ (encodeEntries entries).map Prod.fst := by
  intro hmem
  obtain ⟨m, hm, rfl⟩ := List.mem_map.mp hmem
  obtain ⟨d, hd, -⟩ := mem_encodeEntries hm
  exact h (List.mem_map.mpr ⟨_, hd, rfl⟩)

/-- An entry with a key that no other has is put among the others. -/
theorem encodeEntries_cons {key : String} {d : Datum} {rest : List (String × Datum)}
    (h : key ∉ rest.map Prod.fst) :
    encodeEntries ((key, d) :: rest) = Keyed.insert key d.encode (encodeEntries rest) := by
  rw [encodeEntries, Keyed.insertIfNew_of_lookup]
  exact Keyed.lookup_eq_none_of_notMem (notMem_encodeEntries h)

/-- Entries in the order of their keys are written one by one. -/
theorem encodeEntries_of_sorted : ∀ {entries : List (String × Datum)}, Keyed.Sorted entries →
    encodeEntries entries = entries.map fun e => (e.1, e.2.encode)
  | [], _ => rfl
  | (k, d) :: rest, h => by
      obtain ⟨hnew, -⟩ := List.nodup_cons.mp h.nodup
      obtain ⟨hk, hrest⟩ := List.pairwise_cons.mp h
      rw [encodeEntries_cons hnew, encodeEntries_of_sorted hrest, Keyed.insert_of_lt, List.map_cons]
      intro m hm
      obtain ⟨e, he, rfl⟩ := List.mem_map.mp hm
      exact hk e he

theorem length_encodeEntries : ∀ {entries : List (String × Datum)},
    (entries.map Prod.fst).Nodup → (encodeEntries entries).length = entries.length
  | [], _ => rfl
  | (k, d) :: rest, h => by
      obtain ⟨hk, hrest⟩ := List.nodup_cons.mp h
      rw [encodeEntries_cons hk, Keyed.length_insert (notMem_encodeEntries hk),
        length_encodeEntries hrest, List.length_cons]

/-! ## Equality of collections -/

theorem sameItems_iff : ∀ {xs ys : List Datum},
    sameItems xs ys = true ↔ List.Forall₂ (fun x y => x.same y = true) xs ys
  | [], [] => by simp [sameItems]
  | [], _ :: _ => by simp [sameItems]
  | _ :: _, [] => by simp [sameItems]
  | x :: xs, y :: ys => by
      rw [sameItems, Bool.and_eq_true, List.forall₂_cons, sameItems_iff]

theorem sameFields_iff : ∀ {xs ys : List (String × Datum)},
    sameFields xs ys = true ↔
      List.Forall₂ (fun x y => x.1 = y.1 ∧ x.2.same y.2 = true) xs ys
  | [], [] => by simp [sameFields]
  | [], _ :: _ => by simp [sameFields]
  | _ :: _, [] => by simp [sameFields]
  | (j, x) :: xs, (k, y) :: ys => by
      rw [sameFields, Bool.and_eq_true, Bool.and_eq_true, beq_iff_eq, List.forall₂_cons,
        sameFields_iff]

theorem sameEntries_iff {ys : List (String × Datum)} : ∀ {xs : List (String × Datum)},
    sameEntries xs ys = true ↔
      ∀ e ∈ xs, ∃ d, ys.lookup e.1 = some d ∧ e.2.same d = true
  | [] => by simp [sameEntries]
  | (key, d) :: rest => by
      rw [sameEntries, Bool.and_eq_true, sameEntries_iff, List.forall_mem_cons]
      refine and_congr_left fun _ => ?_
      cases ys.lookup key with
      | none => simp
      | some other => simp

end Datum

end Larder
