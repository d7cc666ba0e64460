import Mathlib
import Larder.Json.Canonical
import Larder.Path
import Larder.Proofs.ByteOrder
import Larder.Proofs.Equality

/-!
# Canonical form does not depend on order

An object may list its members in any order. `Json.Reordered` relates documents that differ in
nothing else, at any depths. As long as no object has a key twice, the canonical form is what such
documents have in common: it is the same for two documents just when they differ in order only
(`reordered_iff`), and the only one among them that is in order (`Reordered.eq_canonical`). Paths
lead in it where they led before (`putInOrder_canonical`).

All of it rests on one fact about a single object, `lookup_canonicalMembers`: under every key the
canonical object has the canonical form of what was there. A list in the order of its keys is
determined by what is under the keys, so the order in which the members came leaves no trace.
-/

namespace Larder

/-! ## Entries in another order -/

namespace Keyed

variable {α : Type} {key : String} {value : α} {xs ys : List (String × α)}

/-- The order of entries with distinct keys does not matter to what is under a key. -/
theorem lookup_perm (h : xs.Perm ys) (hx : (xs.map Prod.fst).Nodup) (k : String) :
    xs.lookup k = ys.lookup k := by
  have hy : (ys.map Prod.fst).Nodup := (h.map Prod.fst).nodup_iff.mp hx
  refine Option.ext fun v => ⟨?_, ?_⟩
  · intro hv
    exact lookup_of_mem hy (h.mem_iff.mp (mem_of_lookup hv))
  · intro hv
    exact lookup_of_mem hx (h.mem_iff.mpr (mem_of_lookup hv))

/-- A new key adds its entry, somewhere. -/
theorem insert_perm (h : key ∉ xs.map Prod.fst) :
    (insert key value xs).Perm ((key, value) :: xs) := by
  induction xs with
  | nil => exact .refl _
  | cons x rest ih =>
      obtain ⟨k, v⟩ := x
      have hne : key ≠ k := fun he => h (he ▸ List.mem_cons_self)
      have hrest : key ∉ rest.map Prod.fst := fun hk => h (List.mem_cons_of_mem _ hk)
      by_cases hlt : key < k
      · rw [insert, if_pos hlt]
      · rw [insert, if_neg hlt, if_neg hne]
        exact ((ih hrest).cons (k, v)).trans (.swap _ _ _)

end Keyed

namespace Json

variable {v w : Json} {members others : List (String × Json)}

/-! ## What the canonical form holds -/

theorem canonicalItems_eq_map : ∀ items : List Json, canonicalItems items = items.map canonical
  | [] => rfl
  | v :: rest => by rw [canonicalItems, canonicalItems_eq_map rest, List.map_cons]

theorem canonicalMembers_eq_foldr (members : List (String × Json)) :
    canonicalMembers members =
      members.foldr (fun m acc => Keyed.insert m.1 m.2.canonical acc) [] := by
  induction members with
  | nil => rfl
  | cons m rest ih => rw [canonicalMembers, ih, List.foldr_cons]

/-- Under each key there is the canonical form of what was there. -/
theorem lookup_canonicalMembers (key : String) (members : List (String × Json)) :
    (canonicalMembers members).lookup key = (members.lookup key).map canonical := by
  induction members with
  | nil => rfl
  | cons m rest ih =>
      obtain ⟨k, v⟩ := m
      rw [canonicalMembers, Keyed.lookup_insert, ih]
      by_cases h : key = k
      · rw [if_pos h, h, Keyed.lookup_cons_self]
        rfl
      · rw [if_neg h, Keyed.lookup_cons_of_ne h]

theorem sorted_canonicalMembers (members : List (String × Json)) :
    Keyed.Sorted (canonicalMembers members) := by
  induction members with
  | nil => exact .nil
  | cons m rest ih => exact Keyed.sorted_insert ih

/-- Two objects with the same canonical forms under all keys are the same in canonical form. -/
theorem canonicalMembers_congr
    (h : ∀ key, (members.lookup key).map canonical = (others.lookup key).map canonical) :
    canonicalMembers members = canonicalMembers others := by
  refine Keyed.eq_of_lookup_eq (sorted_canonicalMembers _) (sorted_canonicalMembers _) ?_
  intro key
  rw [lookup_canonicalMembers, lookup_canonicalMembers, h key]

theorem mem_canonicalMembers {m : String × Json} : ∀ {members : List (String × Json)},
    m ∈ canonicalMembers members → ∃ w, (m.1, w) ∈ members ∧ m.2 = w.canonical
  | [], h => by cases h
  | (key, v) :: rest, h => by
      rw [canonicalMembers] at h
      rcases Keyed.mem_insert h with rfl | h
      · exact ⟨v, List.mem_cons_self, rfl⟩
      · obtain ⟨w, hw, hm⟩ := mem_canonicalMembers h
        exact ⟨w, List.mem_cons_of_mem _ hw, hm⟩

mutual

/-- In canonical form the keys of every object increase. -/
theorem wellFormed_canonical : ∀ v : Json, v.canonical.WellFormed
  | .null | .bool _ | .number _ | .string _ => trivial
  | .array items => itemsWellFormed_canonical items
  | .object members => ⟨sorted_canonicalMembers members, membersWellFormed_canonical members⟩

theorem itemsWellFormed_canonical : ∀ items : List Json, ItemsWellFormed (canonicalItems items)
  | [] => trivial
  | v :: rest => ⟨wellFormed_canonical v, itemsWellFormed_canonical rest⟩

theorem membersWellFormed_canonical : ∀ members : List (String × Json),
    MembersWellFormed (canonicalMembers members)
  | [] => trivial
  | (key, v) :: rest => by
      have hrest := (membersWellFormed_iff _).mp (membersWellFormed_canonical rest)
      refine (membersWellFormed_iff _).mpr fun m hm => ?_
      rcases Keyed.mem_insert hm with rfl | hm
      · exact wellFormed_canonical v
      · exact hrest m hm

end

/-- The canonical form of a canonical form is itself. -/
theorem canonical_canonical (v : Json) : v.canonical.canonical = v.canonical :=
  canonical_of_wellFormed _ (wellFormed_canonical v)

/-! ## Where paths lead -/

theorem follow_canonical (s : Segment) (v : Json) :
    s.follow v.canonical = (s.follow v).map canonical := by
  cases v with
  | array items =>
      cases s with
      | key k => rfl
      | index i =>
          show (canonicalItems items)[i]? = (items[i]?).map canonical
          rw [canonicalItems_eq_map, List.getElem?_map]
  | object members =>
      cases s with
      | key k => exact lookup_canonicalMembers k members
      | index i => rfl
  | _ => cases s <;> rfl

/-- A path leads in the canonical form to the canonical form of what it leads to. -/
theorem resolve_canonical (v : Json) (p : Path) :
    v.canonical.resolve p = (v.resolve p).map canonical := by
  obtain ⟨segments⟩ := p
  induction segments generalizing v with
  | nil => rfl
  | cons s rest ih =>
      rw [resolve_cons, resolve_cons, follow_canonical]
      cases s.follow v with
      | none => rfl
      | some w => exact ih w

/-- Whatever a path leads to in a well-formed document is well-formed. -/
theorem WellFormed.resolve {p : Path} (hv : v.WellFormed) (h : v.resolve p = some w) :
    w.WellFormed := by
  obtain ⟨segments⟩ := p
  induction segments generalizing v with
  | nil => exact Option.some.inj h ▸ hv
  | cons s rest ih =>
      rw [resolve_cons, Option.bind_eq_some_iff] at h
      obtain ⟨u, hu, hrest⟩ := h
      refine ih ?_ hrest
      cases v with
      | array items =>
          cases s with
          | key k => cases hu
          | index i => exact (itemsWellFormed_iff items).mp hv u (List.mem_of_getElem? hu)
      | object members =>
          cases s with
          | key k => exact hv.of_lookup hu
          | index i => cases hu
      | _ => cases s <;> cases hu

/-- Whether the document is neither an array nor an object. -/
def isScalar : Json → Bool
  | .array _ | .object _ => false
  | _ => true

theorem canonical_of_isScalar (h : v.isScalar = true) : v.canonical = v := by
  cases v with
  | array items => cases h
  | object members => cases h
  | _ => rfl

theorem canonical_eq_scalar_iff (h : w.isScalar = true) : v.canonical = w ↔ v = w := by
  refine ⟨?_, ?_⟩
  · intro hw
    cases v with
    | array items =>
        subst hw
        cases h
    | object members =>
        subst hw
        cases h
    | _ => exact hw
  · intro hw
    rw [hw, canonical_of_isScalar h]

theorem typeName_canonical (v : Json) : v.canonical.typeName = v.typeName := by
  cases v with
  | number n => cases n <;> rfl
  | _ => rfl

/-- The document `w` is `v` with the members of every object in the order of their keys. -/
structure PutInOrder (v w : Json) : Prop where
  /-- At every depth the keys increase strictly, compared by their bytes. -/
  increasing (p : Path) (members : List (String × Json)) : w.resolve p = some (.object members) →
    members.Pairwise fun a b => Text.bytes a.1 < Text.bytes b.1
  /-- The same paths lead somewhere. -/
  leads (p : Path) : (w.resolve p).isSome = (v.resolve p).isSome
  /-- They lead to the same scalars. -/
  scalar (p : Path) (s : Json) : s.isScalar = true → (w.resolve p = some s ↔ v.resolve p = some s)
  /-- They lead to arrays where there were arrays, and to objects where there were objects. -/
  typeName (p : Path) : (w.resolve p).map Json.typeName = (v.resolve p).map Json.typeName

theorem putInOrder_canonical (v : Json) : PutInOrder v v.canonical where
  increasing p members h := by
    have hmembers : (object members).WellFormed := (wellFormed_canonical v).resolve h
    exact hmembers.1.imp Text.lt_iff_bytes_lt.mp
  leads p := by rw [resolve_canonical, Option.isSome_map]
  scalar p s hs := by
    rw [resolve_canonical, Option.map_eq_some_iff]
    simp only [canonical_eq_scalar_iff hs, exists_eq_right]
  typeName p := by
    rw [resolve_canonical, Option.map_map]
    exact congrArg (fun f => (v.resolve p).map f) (funext typeName_canonical)

/-! ## Documents that differ in order only -/

/-- No object of the document has a key twice. -/
inductive DistinctKeys : Json → Prop where
  | scalar {v : Json} (h : v.isScalar = true) : DistinctKeys v
  | array {items : List Json} (hitems : ∀ v ∈ items, DistinctKeys v) : DistinctKeys (.array items)
  | object {members : List (String × Json)} (hkeys : (members.map Prod.fst).Nodup)
      (hmembers : ∀ m ∈ members, DistinctKeys m.2) : DistinctKeys (.object members)

theorem distinctKeys_array {items : List Json} :
    DistinctKeys (.array items) ↔ ∀ v ∈ items, DistinctKeys v := by
  refine ⟨fun h => ?_, .array⟩
  cases h with
  | scalar h => cases h
  | array hitems => exact hitems

theorem distinctKeys_object :
    DistinctKeys (.object members) ↔
      (members.map Prod.fst).Nodup ∧ ∀ m ∈ members, DistinctKeys m.2 := by
  refine ⟨fun h => ?_, fun h => .object h.1 h.2⟩
  cases h with
  | scalar h => cases h
  | object hkeys hmembers => exact ⟨hkeys, hmembers⟩

mutual

/-- Where keys increase, no key is there twice. -/
theorem WellFormed.distinctKeys : ∀ v : Json, v.WellFormed → v.DistinctKeys
  | .null, _ | .bool _, _ | .number _, _ | .string _, _ => .scalar rfl
  | .array items, h => .array (WellFormed.itemsDistinctKeys items h)
  | .object members, h => .object h.1.nodup (WellFormed.membersDistinctKeys members h.2)

theorem WellFormed.itemsDistinctKeys : ∀ items : List Json, ItemsWellFormed items →
    ∀ v ∈ items, v.DistinctKeys
  | [], _ => nofun
  | v :: rest, h => List.forall_mem_cons.mpr
      ⟨WellFormed.distinctKeys v h.1, WellFormed.itemsDistinctKeys rest h.2⟩

theorem WellFormed.membersDistinctKeys : ∀ members : List (String × Json),
    MembersWellFormed members → ∀ m ∈ members, m.2.DistinctKeys
  | [], _ => nofun
  | (_, v) :: rest, h => List.forall_mem_cons.mpr
      ⟨WellFormed.distinctKeys v h.1, WellFormed.membersDistinctKeys rest h.2⟩

end

/-- The documents differ only in the order in which objects, at any depths, list their members. -/
inductive Reordered : Json → Json → Prop where
  | refl (v : Json) : Reordered v v
  | object {members others : List (String × Json)} (h : members.Perm others) :
      Reordered (.object members) (.object others)
  | item (before after : List Json) {v w : Json} (h : Reordered v w) :
      Reordered (.array (before ++ v :: after)) (.array (before ++ w :: after))
  | member (before after : List (String × Json)) (key : String) {v w : Json} (h : Reordered v w) :
      Reordered (.object (before ++ (key, v) :: after)) (.object (before ++ (key, w) :: after))
  | trans {u v w : Json} (h : Reordered u v) (h' : Reordered v w) : Reordered u w

theorem Reordered.symm (h : Reordered v w) : Reordered w v := by
  induction h with
  | refl v => exact .refl v
  | object h => exact .object h.symm
  | item before after _ ih => exact .item before after ih
  | member before after key _ ih => exact .member before after key ih
  | trans _ _ ih ih' => exact ih'.trans ih

theorem Reordered.distinctKeys (h : Reordered v w) (hv : v.DistinctKeys) : w.DistinctKeys := by
  induction h with
  | refl v => exact hv
  | object h =>
      obtain ⟨hkeys, hmembers⟩ := distinctKeys_object.mp hv
      refine distinctKeys_object.mpr ⟨(h.map Prod.fst).nodup_iff.mp hkeys, fun m hm => ?_⟩
      exact hmembers m (h.mem_iff.mpr hm)
  | item before after _ ih =>
      rw [distinctKeys_array, List.forall_mem_append, List.forall_mem_cons] at hv ⊢
      exact ⟨hv.1, ih hv.2.1, hv.2.2⟩
  | member before after key _ ih =>
      rw [distinctKeys_object, List.forall_mem_append, List.forall_mem_cons, List.map_append,
        List.map_cons] at hv ⊢
      exact ⟨hv.1, hv.2.1, ih hv.2.2.1, hv.2.2.2⟩
  | trans _ _ ih ih' => exact ih' (ih hv)

/-- Documents that differ in order only have one canonical form. -/
theorem Reordered.canonical_eq (h : Reordered v w) (hv : v.DistinctKeys) :
    v.canonical = w.canonical := by
  induction h with
  | refl v => rfl
  | object h =>
      have hkeys := (distinctKeys_object.mp hv).1
      refine congrArg Json.object (canonicalMembers_congr fun key => ?_)
      rw [Keyed.lookup_perm h hkeys]
  | @item before after v w _ ih =>
      have hitem : v.canonical = w.canonical :=
        ih (distinctKeys_array.mp hv v (List.mem_append_right _ List.mem_cons_self))
      rw [canonical, canonical, canonicalItems_eq_map, canonicalItems_eq_map, List.map_append,
        List.map_append, List.map_cons, List.map_cons, hitem]
  | @member before after key v w _ ih =>
      have hmember : v.canonical = w.canonical :=
        ih ((distinctKeys_object.mp hv).2 (key, v) (List.mem_append_right _ List.mem_cons_self))
      rw [canonical, canonical, canonicalMembers_eq_foldr, canonicalMembers_eq_foldr,
        List.foldr_append, List.foldr_append, List.foldr_cons, List.foldr_cons, hmember]
  | trans h _ ih ih' => exact (ih hv).trans (ih' (h.distinctKeys hv))

theorem reordered_map {f : Json → Json} (before : List Json) : ∀ items : List Json,
    (∀ v ∈ items, Reordered v (f v)) →
      Reordered (.array (before ++ items)) (.array (before ++ items.map f))
  | [], _ => .refl _
  | v :: rest, h => by
      have hrest := reordered_map (before ++ [f v]) rest fun w hw => h w (List.mem_cons_of_mem _ hw)
      rw [List.append_assoc, List.append_assoc] at hrest
      exact (Reordered.item before rest (h v List.mem_cons_self)).trans hrest

theorem reordered_map_members {f : Json → Json} (before : List (String × Json)) :
    ∀ members : List (String × Json), (∀ m ∈ members, Reordered m.2 (f m.2)) →
      Reordered (.object (before ++ members))
        (.object (before ++ members.map fun m => (m.1, f m.2)))
  | [], _ => .refl _
  | (key, v) :: rest, h => by
      have hrest := reordered_map_members (before ++ [(key, f v)]) rest
        fun m hm => h m (List.mem_cons_of_mem _ hm)
      rw [List.append_assoc, List.append_assoc] at hrest
      exact (Reordered.member before rest key (h (key, v) List.mem_cons_self)).trans hrest

/-- Members with distinct keys are put into order, and none is lost. -/
theorem canonicalMembers_perm : ∀ {members : List (String × Json)},
    (members.map Prod.fst).Nodup →
      (members.map fun m => (m.1, m.2.canonical)).Perm (canonicalMembers members)
  | [], _ => .refl _
  | (key, v) :: rest, h => by
      obtain ⟨hkey, hrest⟩ := List.nodup_cons.mp h
      have hnew : key ∉ (canonicalMembers rest).map Prod.fst := by
        intro hmem
        obtain ⟨m, hm, rfl⟩ := List.mem_map.mp hmem
        obtain ⟨w, hw, -⟩ := mem_canonicalMembers hm
        exact hkey (List.mem_map.mpr ⟨_, hw, rfl⟩)
      have hrest' := (canonicalMembers_perm hrest).cons (key, v.canonical)
      exact hrest'.trans (Keyed.insert_perm hnew).symm

/-- The canonical form differs from the document in order only. -/
theorem reordered_canonical (hv : v.DistinctKeys) : Reordered v v.canonical := by
  induction hv with
  | scalar h =>
      rw [canonical_of_isScalar h]
      exact .refl _
  | @array items _ ih =>
      rw [canonical, canonicalItems_eq_map]
      exact reordered_map [] items ih
  | @object members hkeys _ ih =>
      have hvalues := reordered_map_members [] members ih
      exact hvalues.trans (.object (canonicalMembers_perm hkeys))

/-- Documents in which no object has a key twice have one canonical form just when they differ in
order only. -/
theorem reordered_iff (hv : v.DistinctKeys) :
    Reordered v w ↔ w.DistinctKeys ∧ v.canonical = w.canonical := by
  refine ⟨fun h => ⟨h.distinctKeys hv, h.canonical_eq hv⟩, ?_⟩
  rintro ⟨hw, hcanonical⟩
  have hback : Reordered w v.canonical := hcanonical ▸ reordered_canonical hw
  exact (reordered_canonical hv).trans hback.symm

/-- There is one way to put a document into order, so it does not matter how that is done. -/
theorem Reordered.eq_canonical (h : Reordered v w) (hv : v.DistinctKeys) (hw : w.WellFormed) :
    w = v.canonical := calc
  w = w.canonical := (canonical_of_wellFormed w hw).symm
  _ = v.canonical := (h.canonical_eq hv).symm

end Json

end Larder
