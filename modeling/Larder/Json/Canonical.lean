import Larder.Json.Basic

/-!
# Canonical documents and equality of documents

The canonical form of a document has the members of every object in the order of their keys,
whatever order they were listed in. Two documents are the same when their objects hold the same
members under the same keys; numbers compare as numbers of their kind, so `0.0` and `-0.0` are the
same although they are written differently.
-/

namespace Larder.Json

mutual

/-- The document with the members of every object, at every depth, in the order of their keys. -/
def canonical : Json → Json
  | .array items => .array (canonicalItems items)
  | .object members => .object (canonicalMembers members)
  | scalar => scalar

def canonicalItems : List Json → List Json
  | [] => []
  | item :: rest => item.canonical :: canonicalItems rest

def canonicalMembers : List (String × Json) → List (String × Json)
  | [] => []
  | (key, value) :: rest => Keyed.insert key value.canonical (canonicalMembers rest)

end

mutual

/-- A well-formed document is in canonical form. -/
theorem canonical_of_wellFormed : ∀ v : Json, v.WellFormed → v.canonical = v
  | .null, _ | .bool _, _ | .number _, _ | .string _, _ => rfl
  | .array items, h => congrArg array (canonicalItems_of_wellFormed items h)
  | .object members, h => congrArg object (canonicalMembers_of_wellFormed members h.1 h.2)

theorem canonicalItems_of_wellFormed : ∀ items : List Json,
    ItemsWellFormed items → canonicalItems items = items
  | [], _ => rfl
  | v :: rest, h => by
      rw [canonicalItems, canonical_of_wellFormed v h.1, canonicalItems_of_wellFormed rest h.2]

theorem canonicalMembers_of_wellFormed : ∀ members : List (String × Json),
    Keyed.Sorted members → MembersWellFormed members → canonicalMembers members = members
  | [], _, _ => rfl
  | (key, v) :: rest, hsorted, h => by
      obtain ⟨hfirst, hrest⟩ := List.pairwise_cons.mp hsorted
      rw [canonicalMembers, canonical_of_wellFormed v h.1,
        canonicalMembers_of_wellFormed rest hrest h.2]
      exact Keyed.insert_of_lt hfirst

end

mutual

/-- Equality of documents, in which the order of an object's members does not matter. -/
def same : Json → Json → Bool
  | .null, .null => true
  | .bool a, .bool b => a == b
  | .number m, .number n => m.same n
  | .string s, .string t => s == t
  | .array xs, .array ys => sameItems xs ys
  | .object ms, .object ns => ms.length == ns.length && sameMembers ms ns
  | _, _ => false

def sameItems : List Json → List Json → Bool
  | [], [] => true
  | x :: xs, y :: ys => x.same y && sameItems xs ys
  | _, _ => false

/-- Each member of the first list has its like, under its key, in the second. -/
def sameMembers : List (String × Json) → List (String × Json) → Bool
  | [], _ => true
  | (key, value) :: rest, ns =>
    (match ns.lookup key with
      | some other => value.same other
      | none => false) && sameMembers rest ns

end

mutual

/-- A document is the same as itself. -/
theorem same_refl : ∀ (v : Json), v.WellFormed → v.same v = true
  | .null, _ => rfl
  | .bool b, _ => beq_self_eq_true b
  | .number (.integer n), _ => beq_self_eq_true n
  | .number (.float x), _ => x.same_refl
  | .string s, _ => beq_self_eq_true s
  | .array items, h => sameItems_refl items h
  | .object members, h => by
      rw [same, beq_self_eq_true, Bool.true_and]
      exact sameMembers_refl members h.2 fun m hm => Keyed.lookup_of_mem h.1.nodup hm

theorem sameItems_refl : ∀ (items : List Json), ItemsWellFormed items → sameItems items items = true
  | [], _ => rfl
  | v :: rest, h => by
      rw [sameItems, same_refl v h.1, sameItems_refl rest h.2]
      rfl

theorem sameMembers_refl {all : List (String × Json)} : ∀ (members : List (String × Json)),
    MembersWellFormed members → (∀ m ∈ members, all.lookup m.1 = some m.2) →
    sameMembers members all = true
  | [], _, _ => rfl
  | (key, v) :: rest, h, hall => by
      have hv : all.lookup key = some v := hall (key, v) List.mem_cons_self
      have hrest := sameMembers_refl rest h.2 fun m hm => hall m (List.mem_cons_of_mem _ hm)
      rw [sameMembers, hv, hrest, Bool.and_true]
      exact same_refl v h.1

end

end Larder.Json
