import Mathlib.Data.List.Perm.Subperm
import Larder.Proofs.RoundTrip

/-!
# Equal values and their documents

Equality of values is coarser than equality of their documents in two ways: the order in which a map
lists its entries does not matter, and the two zeros of floating point numbers are equal. The first
way leaves no trace in a document, where keys are in order; the second does, since `0.0` and `-0.0`
are written differently.

* `Json.same_iff_unsigned`: documents are the same just when they are equal up to the signs of their
  zeros;
* `HasType.agrees`: so are the documents of equal values, and equality goes both ways;
* `HasType.text_eq_of_same`: equal values without negative zeros have one text.
-/

namespace Larder

/-! ## Values under the same keys -/

namespace Keyed

variable {α β : Type} {R S : α → β → Prop} {xs : List (String × α)} {ys : List (String × β)}

/-- The two lists have the same keys, and related values under them. -/
def Alike (R : α → β → Prop) (xs : List (String × α)) (ys : List (String × β)) : Prop :=
  ∀ k, Option.Rel R (xs.lookup k) (ys.lookup k)

theorem mem_keys_iff {k : String} : k ∈ xs.map Prod.fst ↔ (xs.lookup k).isSome = true := by
  rw [← not_iff_not, Option.not_isSome_iff_eq_none, List.lookup_eq_none_iff, List.mem_map,
    not_exists]
  exact forall_congr' fun e => by rw [not_and, bne_iff_ne, ne_comm]

theorem optionRel_flip {o : Option α} {o' : Option β} (h : Option.Rel R o o') :
    Option.Rel (flip R) o' o := by
  cases h with
  | some hab => exact .some hab
  | none => exact .none

theorem Alike.flip (h : Alike R xs ys) : Alike (flip R) ys xs := fun k => optionRel_flip (h k)

theorem Alike.keys_perm (hx : (xs.map Prod.fst).Nodup) (hy : (ys.map Prod.fst).Nodup)
    (h : Alike R xs ys) : (xs.map Prod.fst).Perm (ys.map Prod.fst) := by
  refine (List.perm_ext_iff_of_nodup hx hy).mpr fun k => ?_
  rw [mem_keys_iff, mem_keys_iff]
  have hk := h k
  generalize xs.lookup k = o at hk
  generalize ys.lookup k = o' at hk
  cases hk <;> simp

/-- Lists of distinct keys are alike if they are as long as each other and each value of the first
has its like in the second. -/
theorem alike_iff (hx : (xs.map Prod.fst).Nodup) (hy : (ys.map Prod.fst).Nodup) :
    Alike R xs ys ↔
      xs.length = ys.length ∧ ∀ e ∈ xs, ∃ v, ys.lookup e.1 = some v ∧ R e.2 v := by
  refine ⟨fun h => ⟨?_, fun e he => ?_⟩, fun ⟨hlength, h⟩ k => ?_⟩
  · simpa using (h.keys_perm hx hy).length_eq
  · have hrel := h e.1
    rw [lookup_of_mem hx he] at hrel
    generalize ys.lookup e.1 = o at hrel
    cases hrel with
    | some hv => exact ⟨_, rfl, hv⟩
  · -- the keys of the first list are among those of the second, and they are as many
    have hsub : xs.map Prod.fst ⊆ ys.map Prod.fst := by
      intro k hk
      obtain ⟨e, he, rfl⟩ := List.mem_map.mp hk
      obtain ⟨v, hv, -⟩ := h e he
      rw [mem_keys_iff, hv]
      rfl
    have hperm : (xs.map Prod.fst).Perm (ys.map Prod.fst) :=
      (List.subperm_of_subset hx hsub).perm_of_length_le (by simp [hlength])
    cases hv : xs.lookup k with
    | some a =>
        obtain ⟨b, hb, hab⟩ := h (k, a) (mem_of_lookup hv)
        rw [hb]
        exact .some hab
    | none =>
        have hnone : ys.lookup k = none := by
          rw [← Option.not_isSome_iff_eq_none, ← mem_keys_iff, ← hperm.mem_iff, mem_keys_iff, hv]
          exact nofun
        rw [hnone]
        exact .none

/-- Two lists are alike if what is made of their values is the same under each key. -/
theorem alike_iff_lookup_map {γ : Type} {f : α → γ} {g : β → γ} :
    Alike (fun a b => f a = g b) xs ys ↔ ∀ k, (xs.lookup k).map f = (ys.lookup k).map g := by
  refine forall_congr' fun k => ?_
  cases xs.lookup k <;> cases ys.lookup k <;> simp

theorem Alike.imp (h : Alike R xs ys) (hRS : ∀ x ∈ xs, ∀ y ∈ ys, R x.2 y.2 → S x.2 y.2) :
    Alike S xs ys := by
  intro k
  have hk := h k
  cases hx : xs.lookup k with
  | none =>
      rw [hx] at hk
      cases hy : ys.lookup k with
      | none => exact .none
      | some b => simp [hy] at hk
  | some a =>
      rw [hx] at hk
      cases hy : ys.lookup k with
      | none => simp [hy] at hk
      | some b =>
          rw [hy] at hk
          cases hk with
          | some hab => exact .some (hRS _ (mem_of_lookup hx) _ (mem_of_lookup hy) hab)

theorem Alike.of_forall₂ (h : List.Forall₂ (fun x y => y.1 = x.1 ∧ R x.2 y.2) xs ys) :
    Alike R xs ys := by
  intro k
  rcases lookup_forall₂ h k with ⟨hx, hy⟩ | ⟨a, b, hx, hy, hab⟩
  · rw [hx, hy]
    exact .none
  · rw [hx, hy]
    exact .some hab

/-- Where every key is there once, it does not matter from which end the lists are read. -/
theorem Alike.reverse (h : Alike R xs ys) (hx : (xs.map Prod.fst).Nodup)
    (hy : (ys.map Prod.fst).Nodup) : Alike R xs.reverse ys.reverse := by
  intro k
  rw [lookup_reverse hx, lookup_reverse hy]
  exact h k

theorem Alike.congr (h : ∀ x ∈ xs, ∀ y ∈ ys, R x.2 y.2 ↔ S x.2 y.2) :
    Alike R xs ys ↔ Alike S xs ys :=
  ⟨fun hR => hR.imp fun x hx y hy => (h x hx y hy).mp,
    fun hS => hS.imp fun x hx y hy => (h x hx y hy).mpr⟩

theorem lookup_map {γ : Type} (f : α → γ) (k : String) :
    ∀ xs : List (String × α), (xs.map fun e => (e.1, f e.2)).lookup k = (xs.lookup k).map f
  | [] => rfl
  | (k', a) :: rest => by
      rw [List.map_cons, List.lookup_cons, List.lookup_cons]
      cases k == k' with
      | true => rfl
      | false => exact lookup_map f k rest

/-- Lists in order are equal, up to what is made of their values, just when they are alike up to
it. -/
theorem map_eq_map_iff {γ : Type} {f : α → γ} {g : β → γ} (hx : Sorted xs) (hy : Sorted ys) :
    xs.map (fun e => (e.1, f e.2)) = ys.map (fun e => (e.1, g e.2)) ↔
      Alike (fun a b => f a = g b) xs ys := by
  have sorted_map : ∀ {δ : Type} {zs : List (String × δ)} {h : δ → γ}, Sorted zs →
      Sorted (zs.map fun e => (e.1, h e.2)) := fun hz =>
    hz.of_sublist (by rw [List.map_map]; exact .refl _)
  simp only [alike_iff_lookup_map, ← lookup_map]
  exact ⟨fun h k => by rw [h], eq_of_lookup_eq (sorted_map hx) (sorted_map hy)⟩

end Keyed

/-! ## Documents up to the signs of their zeros -/

/-- The number, with no sign if it is zero. -/
def Binary64.Finite.unsigned (x : Finite) : Finite := if x.isZero then .zero false else x

theorem Binary64.Finite.same_iff_unsigned {x y : Finite} :
    x.same y = true ↔ x.unsigned = y.unsigned := by
  have ne_of_isZero : ∀ {x y : Finite}, x.isZero = false → y.isZero = true → x ≠ y := by
    intro x y hx hy h
    rw [h, hy] at hx
    cases hx
  unfold same unsigned
  cases hx : x.isZero <;> cases hy : y.isZero
  · simp
  · simp [ne_of_isZero hx hy, ne_of_isZero hx (show (zero false).isZero = true from rfl)]
  · simp [(ne_of_isZero hy hx).symm, (ne_of_isZero hy (show (zero false).isZero = true from rfl)).symm]
  · simp

/-- The number, with no sign if it is the zero of the floating point numbers. -/
def Number.unsigned : Number → Number
  | .integer n => .integer n
  | .float x => .float x.unsigned

theorem Number.same_iff_unsigned {m n : Number} : m.same n = true ↔ m.unsigned = n.unsigned := by
  cases m <;> cases n <;> simp [same, unsigned, Binary64.Finite.same_iff_unsigned]

namespace Json

mutual

/-- The document with no signs on its zeros. -/
def unsigned : Json → Json
  | .number n => .number n.unsigned
  | .array items => .array (unsignedItems items)
  | .object members => .object (unsignedMembers members)
  | other => other

def unsignedItems : List Json → List Json
  | [] => []
  | v :: rest => v.unsigned :: unsignedItems rest

def unsignedMembers : List (String × Json) → List (String × Json)
  | [] => []
  | (key, v) :: rest => (key, v.unsigned) :: unsignedMembers rest

end

/-- No zero of the document has a sign. -/
def Unsigned (v : Json) : Prop := v.unsigned = v

theorem unsignedItems_eq_map : ∀ items : List Json, unsignedItems items = items.map unsigned
  | [] => rfl
  | v :: rest => by rw [unsignedItems, unsignedItems_eq_map rest, List.map_cons]

theorem unsignedMembers_eq_map (members : List (String × Json)) :
    unsignedMembers members = members.map fun m => (m.1, m.2.unsigned) := by
  induction members with
  | nil => rfl
  | cons m rest ih => rw [unsignedMembers, ih, List.map_cons]

theorem sameMembers_iff {ms ns : List (String × Json)} :
    sameMembers ms ns = true ↔ ∀ m ∈ ms, ∃ w, ns.lookup m.1 = some w ∧ m.2.same w = true := by
  induction ms with
  | nil => simp [sameMembers]
  | cons m rest ih =>
      rw [sameMembers, Bool.and_eq_true, ih, List.forall_mem_cons]
      refine and_congr_left fun _ => ?_
      cases ns.lookup m.1 with
      | none => simp
      | some w => simp

theorem same_object_iff {ms ns : List (String × Json)} (hm : Keyed.Sorted ms)
    (hn : Keyed.Sorted ns) :
    (object ms).same (object ns) = true ↔ Keyed.Alike (fun v w => v.same w = true) ms ns := by
  rw [same, Bool.and_eq_true, beq_iff_eq, sameMembers_iff, Keyed.alike_iff hm.nodup hn.nodup]

mutual

/-- **Documents are the same just when they are equal up to the signs of their zeros.** -/
theorem same_iff_unsigned : ∀ v w : Json, v.WellFormed → w.WellFormed →
    (v.same w = true ↔ v.unsigned = w.unsigned)
  | .null, w, _, _ => by cases w <;> simp [same, unsigned]
  | .bool b, w, _, _ => by cases w <;> simp [same, unsigned]
  | .string s, w, _, _ => by cases w <;> simp [same, unsigned]
  | .number m, w, _, _ => by
      cases w with
      | number n => rw [same, Number.same_iff_unsigned, unsigned, unsigned, number.injEq]
      | _ => simp [same, unsigned]
  | .array xs, w, hx, hw => by
      cases w with
      | array ys =>
          rw [same, unsigned, unsigned, array.injEq]
          exact sameItems_iff_unsigned xs ys hx hw
      | _ => simp [same, unsigned]
  | .object ms, w, hm, hw => by
      cases w with
      | object ns =>
          -- with keys in order, to hold the same under the same keys is to be the same list
          rw [same_object_iff hm.1 hw.1, unsigned, unsigned, object.injEq, unsignedMembers_eq_map,
            unsignedMembers_eq_map, Keyed.map_eq_map_iff hm.1 hw.1]
          exact Keyed.Alike.congr fun m hmem m' hmem' =>
            member_same_iff_unsigned ms hm.2 m hmem m'.2
              ((membersWellFormed_iff ns).mp hw.2 m' hmem')
      | _ => simp [same, unsigned]

theorem sameItems_iff_unsigned : ∀ xs ys : List Json, ItemsWellFormed xs → ItemsWellFormed ys →
    (sameItems xs ys = true ↔ unsignedItems xs = unsignedItems ys)
  | [], [], _, _ => by simp [sameItems]
  | [], _ :: _, _, _ => by simp [sameItems, unsignedItems]
  | _ :: _, [], _, _ => by simp [sameItems, unsignedItems]
  | v :: xs, w :: ys, hx, hy => by
      rw [sameItems, Bool.and_eq_true, same_iff_unsigned v w hx.1 hy.1,
        sameItems_iff_unsigned xs ys hx.2 hy.2, unsignedItems, unsignedItems, List.cons.injEq]

theorem member_same_iff_unsigned : ∀ ms : List (String × Json), MembersWellFormed ms →
    ∀ m ∈ ms, ∀ w : Json, w.WellFormed → (m.2.same w = true ↔ m.2.unsigned = w.unsigned)
  | (key, v) :: rest, hm, m, hmem, w, hw => by
      rcases List.mem_cons.mp hmem with rfl | hmem
      · exact same_iff_unsigned v w hm.1 hw
      · exact member_same_iff_unsigned rest hm.2 m hmem w hw

end

end Json

/-! ## Equal values -/

namespace Datum

/-- The values are the same the other way round, and their documents are equal up to the signs of
their zeros. -/
structure Agrees (a b : Datum) : Prop where
  symm : b.same a = true
  unsigned : a.encode.unsigned = b.encode.unsigned

/-- Of entries under one key the last counts, so they are compared from the end. -/
theorem encodeEntries_unsigned_eq {xs ys : List (String × Datum)}
    (h : Keyed.Alike Agrees xs.reverse ys.reverse) :
    Json.unsignedMembers (encodeEntries xs) = Json.unsignedMembers (encodeEntries ys) := by
  have hunsigned : Keyed.Alike (fun x y => x.encode.unsigned = y.encode.unsigned)
      xs.reverse ys.reverse :=
    h.imp fun _ _ _ _ hxy => hxy.unsigned
  rw [Json.unsignedMembers_eq_map, Json.unsignedMembers_eq_map,
    Keyed.map_eq_map_iff (sorted_encodeEntries xs) (sorted_encodeEntries ys),
    Keyed.alike_iff_lookup_map]
  intro k
  rw [lookup_encodeEntries, lookup_encodeEntries, Option.map_map, Option.map_map]
  exact Keyed.alike_iff_lookup_map.mp hunsigned k

namespace Agrees

variable {a b : Datum}

theorem float {x y : Binary64} (h : x.same y = true) : (Datum.float x).Agrees (.float y) := by
  cases x with
  | finite x =>
      cases y with
      | finite y =>
          have hxy : x.unsigned = y.unsigned := Binary64.Finite.same_iff_unsigned.mp h
          have hyx : y.same x = true := Binary64.Finite.same_iff_unsigned.mpr hxy.symm
          refine ⟨by rw [same]; exact hyx, ?_⟩
          simp [encode, Json.unsigned, Number.unsigned, hxy]
      | _ => cases h
  | infinite p =>
      cases y with
      | infinite q =>
          have hpq : p = q := beq_iff_eq.mp h
          exact ⟨by rw [same, hpq]; exact beq_self_eq_true q, by simp [encode]⟩
      | _ => cases h
  | nan => cases h

theorem json {v w : Json} (hv : v.WellFormed) (hw : w.WellFormed) (h : v.same w = true) :
    (Datum.json v).Agrees (.json w) := by
  have hvw := (Json.same_iff_unsigned v w hv hw).mp h
  refine ⟨?_, ?_⟩
  · rw [same]
    exact (Json.same_iff_unsigned w v hw hv).mpr hvw.symm
  · rw [encode, encode]
    exact hvw

theorem present (h : a.Agrees b) : (Datum.present a).Agrees (.present b) where
  symm := by
    rw [same]
    exact h.symm
  unsigned := by
    rw [encode, encode]
    exact h.unsigned

theorem ok (h : a.Agrees b) : (Datum.ok a).Agrees (.ok b) where
  symm := by
    rw [same]
    exact h.symm
  unsigned := by
    simp only [encode, Json.unsigned, Json.unsignedMembers, h.unsigned]

theorem list {xs ys : List Datum} (h : List.Forall₂ Agrees xs ys) :
    (Datum.list xs).Agrees (.list ys) where
  symm := by
    rw [same, sameItems_iff]
    exact (h.imp fun _ _ => symm).flip
  unsigned := by
    rw [encode, encode, Json.unsigned, Json.unsigned, Json.array.injEq, Json.unsignedItems_eq_map,
      Json.unsignedItems_eq_map, encodeItems_eq_map, encodeItems_eq_map, List.map_map,
      List.map_map, ← List.forall₂_eq_eq_eq, List.forall₂_map_left_iff, List.forall₂_map_right_iff]
    exact h.imp fun _ _ => unsigned

theorem map {xs ys : List (String × Datum)} (hx : (xs.map Prod.fst).Nodup)
    (hy : (ys.map Prod.fst).Nodup) (h : Keyed.Alike Agrees xs ys) :
    (Datum.map xs).Agrees (.map ys) where
  symm := by
    have hback : Keyed.Alike (fun y x => y.same x = true) ys xs :=
      h.flip.imp fun _ _ _ _ hxy => hxy.symm
    rw [same, Bool.and_eq_true, beq_iff_eq, sameEntries_iff]
    exact (Keyed.alike_iff hy hx).mp hback
  unsigned := by
    rw [encode, encode, Json.unsigned, Json.unsigned, encodeEntries_unsigned_eq (h.reverse hx hy)]

theorem record {xs ys : List (String × Datum)}
    (h : List.Forall₂ (fun x y => y.1 = x.1 ∧ x.2.Agrees y.2) xs ys) :
    (Datum.record xs).Agrees (.record ys) where
  symm := by
    rw [same, sameFields_iff]
    exact (h.imp fun _ _ hxy => ⟨hxy.1, hxy.2.symm⟩).flip
  unsigned := by
    rw [encode, encode, Json.unsigned, Json.unsigned,
      encodeEntries_unsigned_eq (.of_forall₂ (List.forall₂_reverse_iff.mpr h))]

end Agrees

end Datum

theorem getElem_mem_zip {α β : Type} {xs : List α} {ys : List β} {i : Nat} (hx : i < xs.length)
    (hy : i < ys.length) : (xs[i], ys[i]) ∈ xs.zip ys := by
  have hi : i < (xs.zip ys).length := by
    rw [List.length_zip]
    omega
  rw [← List.getElem_zip (h := hi)]
  exact List.getElem_mem hi

variable {c : Catalog} {t : Ty} {a b : Datum}

/-- **Equal values of a type agree.** -/
theorem HasType.agrees (ha : HasType c t a) (hb : HasType c t b) (h : a.same b = true) :
    a.Agrees b := by
  -- the second value is of the same type, so hardly any but like constructors meet
  induction ha generalizing b with
  | string s =>
      cases hb with
      | string s' =>
          obtain rfl : s = s' := by simpa using h
          exact ⟨h, rfl⟩
  | bool x =>
      cases hb with
      | bool x' =>
          obtain rfl : x = x' := by simpa using h
          exact ⟨h, rfl⟩
  | @integer w n hn =>
      cases hb with
      | @integer _ n' _ =>
          obtain rfl : n = n' := by simpa using h
          exact ⟨h, rfl⟩
  | float x =>
      cases hb with
      | float y => exact .float (by simpa using h)
  | uuid u =>
      cases hb with
      | uuid u' =>
          obtain rfl : u = u' := by simpa using h
          exact ⟨h, rfl⟩
  | json hv =>
      cases hb with
      | json hw => exact .json hv hw (by simpa using h)
  | status s =>
      cases hb with
      | status s' =>
          obtain rfl : s = s' := by simpa using h
          exact ⟨h, rfl⟩
  | absent t =>
      cases hb with
      | absent => exact ⟨h, rfl⟩
      | present _ => simp at h
  | present _ ih =>
      cases hb with
      | absent => simp at h
      | present hb => exact .present (ih hb (by simpa using h))
  | list _ ih =>
      cases hb with
      | list hitems =>
          rw [Datum.same, Datum.sameItems_iff, List.forall₂_iff_get] at h
          obtain ⟨hlength, hsame⟩ := h
          refine .list (List.forall₂_iff_get.mpr ⟨hlength, fun i hi hi' => ?_⟩)
          exact ih _ (List.get_mem _ _) (hitems _ (List.get_mem _ _)) (hsame i hi hi')
  | map hkeys _ ih =>
      cases hb with
      | map hkeys' hentries =>
          rw [Datum.same, Bool.and_eq_true, beq_iff_eq, Datum.sameEntries_iff] at h
          have halike : Keyed.Alike (fun x y : Datum => x.same y = true) _ _ :=
            (Keyed.alike_iff hkeys hkeys').mpr h
          exact .map hkeys hkeys' (halike.imp fun x hx y hy => ih x hx (hentries y hy))
  | ok _ ih =>
      cases hb with
      | err => simp at h
      | ok hb => exact .ok (ih hb (by simpa using h))
  | err t f =>
      cases hb with
      | ok _ => simp at h
      | err _ f' =>
          obtain rfl : f = f' := by simpa using h
          exact ⟨h, rfl⟩
  | @record name entries hkeys _ ih =>
      cases hb with
      | record hkeys' hentries =>
          rw [Datum.same, Datum.sameFields_iff, List.forall₂_iff_get] at h
          obtain ⟨hlength, hsame⟩ := h
          refine .record (List.forall₂_iff_get.mpr ⟨hlength, fun i hi hi' => ?_⟩)
          obtain ⟨hkey, hvalue⟩ := hsame i hi hi'
          -- both values are of the type of the field at their place
          have hfields : entries.length = (c.fields name).length := by
            simpa using congrArg List.length hkeys
          have hfield : i < (c.fields name).length := hfields ▸ hi
          exact ⟨hkey.symm, ih _ (getElem_mem_zip hfield hi)
            (hentries _ (getElem_mem_zip hfield hi')) hvalue⟩

theorem HasType.same_comm (ha : HasType c t a) (hb : HasType c t b) :
    a.same b = true ↔ b.same a = true :=
  ⟨fun h => (ha.agrees hb h).symm, fun h => (hb.agrees ha h).symm⟩

/-- No zero in the document of the value has a sign. -/
def Datum.Unsigned (d : Datum) : Prop := d.encode.Unsigned

/-- Equal values are written alike, unless a zero in them has a sign. -/
theorem HasType.text_eq_of_same (ha : HasType c t a) (hb : HasType c t b) (h : a.same b = true)
    (hzero : a.Unsigned) (hzero' : b.Unsigned) : a.text = b.text := by
  have hdocument : a.encode = b.encode := calc
    a.encode = a.encode.unsigned := hzero.symm
    _ = b.encode.unsigned := (ha.agrees hb h).unsigned
    _ = b.encode := hzero'
  rw [Datum.text, Datum.text, hdocument]

end Larder
