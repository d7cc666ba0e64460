import Larder.Json.Basic

/-!
# How deep documents nest

The depth of a document is the greatest number of lists and objects in it of which each stands in
the one before. A document `Fits` inside a number of containers if it is well-formed and does not
exceed a limit with them; a list or an object fits if its parts fit with one container more.
-/

namespace Larder.Json

mutual

/-- How many containers a document has inside one another, itself included. -/
def depth : Json → Nat
  | .array items => itemsDepth items + 1
  | .object members => membersDepth members + 1
  | _ => 0

def itemsDepth : List Json → Nat
  | [] => 0
  | item :: rest => max item.depth (itemsDepth rest)

def membersDepth : List (String × Json) → Nat
  | [] => 0
  | (_, value) :: rest => max value.depth (membersDepth rest)

end

theorem itemsDepth_le_iff {n : Nat} : ∀ {items : List Json},
    itemsDepth items ≤ n ↔ ∀ v ∈ items, v.depth ≤ n
  | [] => by simp [itemsDepth]
  | v :: rest => by rw [itemsDepth, Nat.max_le, itemsDepth_le_iff, List.forall_mem_cons]

theorem membersDepth_le_iff {n : Nat} : ∀ {members : List (String × Json)},
    membersDepth members ≤ n ↔ ∀ m ∈ members, m.2.depth ≤ n
  | [] => by simp [membersDepth]
  | (key, v) :: rest => by rw [membersDepth, Nat.max_le, membersDepth_le_iff, List.forall_mem_cons]

/-! ## Room for documents -/

/-- The document is well-formed, and there may be as many containers around it. -/
def Fits (limit outside : Nat) (v : Json) : Prop := v.WellFormed ∧ v.depth + outside ≤ limit

/-- The items of a list, with as many containers around them. -/
def ItemsFit (limit around : Nat) (items : List Json) : Prop :=
  around ≤ limit ∧ ∀ v ∈ items, v.Fits limit around

/-- The members of an object, with as many containers around them. -/
def MembersFit (limit around : Nat) (members : List (String × Json)) : Prop :=
  around ≤ limit ∧ Keyed.Sorted members ∧ ∀ m ∈ members, m.2.Fits limit around

variable {limit n : Nat}

theorem fits_array_iff {items : List Json} :
    (array items).Fits limit n ↔ ItemsFit limit (n + 1) items := by
  have hdepth : (array items).depth = itemsDepth items + 1 := by rw [depth]
  refine ⟨fun h => ?_, fun h => ?_⟩
  · obtain ⟨hwf, hroom⟩ := h
    rw [hdepth] at hroom
    refine ⟨by omega, fun v hv => ⟨(itemsWellFormed_iff items).mp hwf v hv, ?_⟩⟩
    have := itemsDepth_le_iff.mp (Nat.le_refl (itemsDepth items)) v hv
    omega
  · obtain ⟨hroom, hitems⟩ := h
    refine ⟨(itemsWellFormed_iff items).mpr fun v hv => (hitems v hv).1, ?_⟩
    have : itemsDepth items ≤ limit - (n + 1) :=
      itemsDepth_le_iff.mpr fun v hv => Nat.le_sub_of_add_le (hitems v hv).2
    omega

theorem fits_object_iff {members : List (String × Json)} :
    (object members).Fits limit n ↔ MembersFit limit (n + 1) members := by
  have hdepth : (object members).depth = membersDepth members + 1 := by rw [depth]
  refine ⟨fun h => ?_, fun h => ?_⟩
  · obtain ⟨⟨hsorted, hwf⟩, hroom⟩ := h
    rw [hdepth] at hroom
    refine ⟨by omega, hsorted, fun m hm => ⟨(membersWellFormed_iff members).mp hwf m hm, ?_⟩⟩
    have := membersDepth_le_iff.mp (Nat.le_refl (membersDepth members)) m hm
    omega
  · obtain ⟨hroom, hsorted, hmembers⟩ := h
    refine ⟨⟨hsorted, (membersWellFormed_iff members).mpr fun m hm => (hmembers m hm).1⟩, ?_⟩
    have : membersDepth members ≤ limit - (n + 1) :=
      membersDepth_le_iff.mpr fun m hm => Nat.le_sub_of_add_le (hmembers m hm).2
    omega

theorem ItemsFit.cons {items : List Json} {v : Json} (h : ItemsFit limit n items)
    (hv : v.Fits limit n) : ItemsFit limit n (v :: items) :=
  ⟨h.1, List.forall_mem_cons.mpr ⟨hv, h.2⟩⟩

theorem MembersFit.insert {members : List (String × Json)} {v : Json}
    (h : MembersFit limit n members) (key : String) (hv : v.Fits limit n) :
    MembersFit limit n (Keyed.insert key v members) := by
  obtain ⟨hroom, hsorted, hmembers⟩ := h
  refine ⟨hroom, Keyed.sorted_insert hsorted, fun m hm => ?_⟩
  rcases Keyed.mem_insert hm with rfl | hm
  · exact hv
  · exact hmembers m hm

end Larder.Json
