import Larder.Path
import Larder.Proofs.NumberSpelling

/-!
# What a document is read back as

`Json.reread` is a document with each number read from its own text. It has the shape of the document:
the same keys, and under each key and at each index what was there, read from its own text. Integers
are always read back, so the document is `Stable` just when its floating point numbers are, wherever
paths lead to them (`stable_iff`).
-/

namespace Larder.Json

variable {v w : Json} {key : String} {items items' : List Json}
  {members members' : List (String × Json)}

/-! ## The parts of a document -/

theorem reread_number {n : Number} :
    (number n).reread = some w ↔ ∃ m, n.reread = some m ∧ number m = w := by
  rw [reread, Option.map_eq_some_iff]

theorem reread_array :
    (array items).reread = some w ↔ ∃ ws, rereadItems items = some ws ∧ array ws = w := by
  rw [reread, Option.map_eq_some_iff]

theorem reread_object :
    (object members).reread = some w ↔ ∃ ms, rereadMembers members = some ms ∧ object ms = w := by
  rw [reread, Option.map_eq_some_iff]

theorem rereadItems_cons : rereadItems (v :: items) = some items' ↔
    ∃ w, v.reread = some w ∧ ∃ ws, rereadItems items = some ws ∧ w :: ws = items' := by
  simp only [rereadItems, Option.bind_eq_some_iff, Option.map_eq_some_iff]

theorem rereadMembers_cons : rereadMembers ((key, v) :: members) = some members' ↔
    ∃ w, v.reread = some w ∧ ∃ ms, rereadMembers members = some ms ∧ (key, w) :: ms = members' := by
  simp only [rereadMembers, Option.bind_eq_some_iff, Option.map_eq_some_iff]

/-- The keys are those of the document. -/
theorem keys_of_rereadMembers (h : rereadMembers members = some members') :
    members'.map Prod.fst = members.map Prod.fst := by
  induction members generalizing members' with
  | nil =>
      cases h
      rfl
  | cons m rest ih =>
      obtain ⟨w, -, ms, hrest, rfl⟩ := rereadMembers_cons.mp h
      rw [List.map_cons, List.map_cons, ih hrest]

/-- Of items that are read back each is. -/
theorem reread_of_mem (h : rereadItems items = some items) (hv : v ∈ items) :
    v.reread = some v := by
  induction items with
  | nil => cases hv
  | cons x rest ih =>
      obtain ⟨w, hw, ws, hws, hcons⟩ := rereadItems_cons.mp h
      obtain ⟨rfl, rfl⟩ := List.cons.inj hcons
      rcases List.mem_cons.mp hv with rfl | hv
      · exact hw
      · exact ih hws hv

/-- Under each key there is what was under it, read from its own text. -/
theorem lookup_rereadMembers (h : rereadMembers members = some members')
    (hv : members.lookup key = some v) :
    ∃ w, v.reread = some w ∧ members'.lookup key = some w := by
  induction members generalizing members' with
  | nil => cases hv
  | cons m rest ih =>
      obtain ⟨k, x⟩ := m
      obtain ⟨w, hw, ms, hrest, rfl⟩ := rereadMembers_cons.mp h
      by_cases hk : key = k
      · subst hk
        rw [Keyed.lookup_cons_self] at hv ⊢
        cases hv
        exact ⟨w, hw, rfl⟩
      · rw [Keyed.lookup_cons_of_ne hk] at hv ⊢
        exact ih hrest hv

/-- What is read back is read back wherever a path leads in it. -/
theorem Stable.follow {s : Segment} (hv : v.Stable) (h : s.follow v = some w) : w.Stable := by
  unfold Segment.follow at h
  split at h
  · rename_i k members
    obtain ⟨ms, hms, hobject⟩ := reread_object.mp hv
    cases hobject
    obtain ⟨w', hw', hlookup⟩ := lookup_rereadMembers hms h
    rwa [← Option.some.inj (h.symm.trans hlookup)] at hw'
  · rename_i i items
    obtain ⟨ws, hws, harray⟩ := reread_array.mp hv
    cases harray
    exact reread_of_mem hws (List.mem_of_getElem? h)
  · cases h

/-- Each floating point number that a path leads to is read back from its own text. -/
def FloatsKept (v : Json) : Prop :=
  ∀ p x, v.resolve p = some (.number (.float x)) → (Number.float x).reread = some (.float x)

theorem Stable.floatsKept (h : v.Stable) : v.FloatsKept := by
  rintro ⟨p⟩ x hx
  -- along the path, since what each step leads to is stable too
  induction p generalizing v with
  | nil =>
      cases hx
      obtain ⟨m, hm, hnumber⟩ := reread_number.mp h
      rwa [number.inj hnumber] at hm
  | cons s p ih =>
      rw [resolve_cons, Option.bind_eq_some_iff] at hx
      obtain ⟨w, hw, hx⟩ := hx
      exact ih (h.follow hw) hx

theorem FloatsKept.follow {s : Segment} (h : v.FloatsKept) (hw : s.follow v = some w) :
    w.FloatsKept := by
  intro p x hx
  refine h ⟨s :: p.segments⟩ x ?_
  rw [resolve_cons, hw]
  exact hx

mutual

theorem FloatsKept.stable : ∀ v : Json, v.WellFormed → v.FloatsKept → v.reread = some v
  | .null, _, _ | .bool _, _, _ | .string _, _, _ => rfl
  | .number (.integer n), _, _ => reread_number.mpr ⟨_, n.reread_eq, rfl⟩
  | .number (.float x), _, h => reread_number.mpr ⟨_, h .root x rfl, rfl⟩
  | .array items, hv, h => by
      refine reread_array.mpr ⟨items, FloatsKept.itemsStable items hv fun w hw => ?_, rfl⟩
      obtain ⟨i, hi⟩ := List.mem_iff_getElem?.mp hw
      exact h.follow (s := .index i) hi
  | .object members, hv, h => by
      refine reread_object.mpr ⟨members, FloatsKept.membersStable members hv.2 fun m hm => ?_, rfl⟩
      exact h.follow (s := .key m.1) (Keyed.lookup_of_mem hv.1.nodup hm)

theorem FloatsKept.itemsStable : ∀ items : List Json, ItemsWellFormed items →
    (∀ v ∈ items, v.FloatsKept) → rereadItems items = some items
  | [], _, _ => rfl
  | v :: rest, hv, h => by
      obtain ⟨hfirst, hrest⟩ := List.forall_mem_cons.mp h
      exact rereadItems_cons.mpr ⟨v, FloatsKept.stable v hv.1 hfirst, rest,
        FloatsKept.itemsStable rest hv.2 hrest, rfl⟩

theorem FloatsKept.membersStable : ∀ members : List (String × Json), MembersWellFormed members →
    (∀ m ∈ members, m.2.FloatsKept) → rereadMembers members = some members
  | [], _, _ => rfl
  | (key, v) :: rest, hv, h => by
      obtain ⟨hfirst, hrest⟩ := List.forall_mem_cons.mp h
      exact rereadMembers_cons.mpr ⟨v, FloatsKept.stable v hv.1 hfirst, rest,
        FloatsKept.membersStable rest hv.2 hrest, rfl⟩

end

/-- **A document is read back from its text just when each floating point number in it is**; integers
always are. -/
theorem stable_iff (hv : v.WellFormed) : v.Stable ↔ v.FloatsKept :=
  ⟨Stable.floatsKept, FloatsKept.stable v hv⟩

end Larder.Json
