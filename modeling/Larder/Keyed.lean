/-!
# Values kept in the order of their keys

A list of key and value pairs in strictly increasing order of the keys holds each key once. Keys are
compared by their code points, which is also the order of their UTF-8 bytes.

* `lookup_insert`: after a value has been put under a key, the key has that value and every other
  key what it had before;
* `lookup_insertIfNew`: the same, but that a value that was there stays;
* `sorted_insert`: putting a value under a key keeps the order;
* `eq_of_lookup_eq`: two lists in order that hold the same values under the same keys are equal.
-/

namespace Larder.Keyed

variable {α : Type _}

/-- The keys increase strictly. -/
def Sorted (entries : List (String × α)) : Prop :=
  entries.Pairwise (fun a b => a.1 < b.1)

/-- Puts a value under its key, in the place of the value that was there. -/
def insert (key : String) (value : α) : List (String × α) → List (String × α)
  | [] => [(key, value)]
  | (k, v) :: rest =>
    if key < k then (key, value) :: (k, v) :: rest
    else if key = k then (key, value) :: rest
    else (k, v) :: insert key value rest

/-- Puts a value under its key, unless the key has a value. -/
def insertIfNew (key : String) (value : α) (entries : List (String × α)) : List (String × α) :=
  if (entries.lookup key).isSome then entries else insert key value entries

theorem lookup_cons_self (k : String) (v : α) (rest : List (String × α)) :
    ((k, v) :: rest).lookup k = some v := by
  rw [List.lookup_cons, beq_self_eq_true]

theorem lookup_cons_of_ne {k k' : String} (h : k ≠ k') (v : α) (rest : List (String × α)) :
    ((k', v) :: rest).lookup k = rest.lookup k := by
  rw [List.lookup_cons, beq_false_of_ne h]

theorem lookup_insert (key : String) (value : α) (entries : List (String × α)) (k : String) :
    (insert key value entries).lookup k = if k = key then some value else entries.lookup k := by
  induction entries with
  | nil =>
    unfold insert
    split
    · rename_i h
      rw [h, lookup_cons_self]
    · rename_i h
      exact lookup_cons_of_ne h _ _
  | cons e rest ih =>
    obtain ⟨k', v⟩ := e
    by_cases h : k = key
    · subst h
      rw [if_pos rfl] at ih ⊢
      unfold insert
      split
      · exact lookup_cons_self _ _ _
      · split
        · exact lookup_cons_self _ _ _
        · rename_i hne
          rw [lookup_cons_of_ne hne, ih]
    · rw [if_neg h] at ih ⊢
      unfold insert
      split
      · exact lookup_cons_of_ne h _ _
      · split
        · rename_i he
          subst he
          rw [lookup_cons_of_ne h, lookup_cons_of_ne h]
        · by_cases hk : k = k'
          · subst hk
            rw [lookup_cons_self, lookup_cons_self]
          · rw [lookup_cons_of_ne hk, lookup_cons_of_ne hk, ih]

theorem mem_of_lookup {k : String} {v : α} {entries : List (String × α)}
    (h : entries.lookup k = some v) : (k, v) ∈ entries := by
  obtain ⟨before, after, rfl, _⟩ := List.lookup_eq_some_iff.mp h
  exact List.mem_append_right before List.mem_cons_self

/-- The keys after an insertion are the old ones and the new one. -/
theorem mem_insert {key : String} {value : α} {entries : List (String × α)} {e : String × α}
    (h : e ∈ insert key value entries) : e = (key, value) ∨ e ∈ entries := by
  induction entries with
  | nil => exact Or.inl (List.mem_singleton.mp h)
  | cons x rest ih =>
    obtain ⟨k, v⟩ := x
    unfold insert at h
    split at h
    · exact List.mem_cons.mp h
    · split at h
      · rcases List.mem_cons.mp h with h | h
        · exact Or.inl h
        · exact Or.inr (List.mem_cons_of_mem _ h)
      · rcases List.mem_cons.mp h with h | h
        · exact Or.inr (h ▸ List.mem_cons_self)
        · rcases ih h with h | h
          · exact Or.inl h
          · exact Or.inr (List.mem_cons_of_mem _ h)

theorem sorted_insert {key : String} {value : α} {entries : List (String × α)}
    (h : Sorted entries) : Sorted (insert key value entries) := by
  induction entries with
  | nil => exact List.pairwise_singleton _ _
  | cons x rest ih =>
    obtain ⟨k, v⟩ := x
    have hx := List.pairwise_cons.mp h
    unfold insert
    split
    · rename_i hlt
      refine List.pairwise_cons.mpr ⟨fun e he => ?_, h⟩
      rcases List.mem_cons.mp he with he | he
      · exact he ▸ hlt
      · exact String.lt_trans hlt (hx.1 e he)
    · split
      · rename_i heq
        exact List.pairwise_cons.mpr ⟨fun e he => heq ▸ hx.1 e he, hx.2⟩
      · rename_i hnlt hne
        refine List.pairwise_cons.mpr ⟨fun e he => ?_, ih hx.2⟩
        rcases mem_insert he with he | he
        · have hle : k ≤ key := String.not_lt.mp hnlt
          refine he ▸ Decidable.byContradiction fun hn => hne ?_
          exact String.le_antisymm (String.not_lt.mp hn) hle
        · exact hx.1 e he

/-- A new key makes the list longer by one. -/
theorem length_insert {key : String} {value : α} {entries : List (String × α)}
    (h : key ∉ entries.map Prod.fst) :
    (insert key value entries).length = entries.length + 1 := by
  induction entries with
  | nil => rfl
  | cons e rest ih =>
    obtain ⟨k, v⟩ := e
    have hne : key ≠ k := fun he => h (he ▸ List.mem_cons_self)
    have hrest : key ∉ rest.map Prod.fst := fun hk => h (List.mem_cons_of_mem _ hk)
    by_cases hlt : key < k
    · rw [insert, if_pos hlt]
      rfl
    · rw [insert, if_neg hlt, if_neg hne, List.length_cons, ih hrest, List.length_cons]

/-- A value is found under its key if no other is there too. -/
theorem lookup_of_mem {entries : List (String × α)} (h : (entries.map Prod.fst).Nodup)
    {e : String × α} (he : e ∈ entries) : entries.lookup e.1 = some e.2 := by
  induction entries with
  | nil => cases he
  | cons x rest ih =>
    obtain ⟨hx, hrest⟩ := List.nodup_cons.mp h
    rcases List.mem_cons.mp he with rfl | he
    · exact lookup_cons_self _ _ _
    · have hne : e.1 ≠ x.1 := by
        intro heq
        exact hx (heq ▸ List.mem_map_of_mem he)
      exact (lookup_cons_of_ne hne _ _).trans (ih hrest he)

/-- In a list in order every key is there once. -/
theorem Sorted.nodup {entries : List (String × α)} (h : Sorted entries) :
    (entries.map Prod.fst).Nodup := by
  refine List.pairwise_map.mpr (List.Pairwise.imp (fun {a b} hlt => ?_) h)
  intro he
  rw [he] at hlt
  exact String.lt_irrefl _ hlt

/-- A list is in order if its keys are among those of one that is, in the same order. -/
theorem Sorted.of_sublist {β : Type _} {entries : List (String × α)} {others : List (String × β)}
    (h : Sorted entries) (hkeys : (others.map Prod.fst).Sublist (entries.map Prod.fst)) :
    Sorted others :=
  List.pairwise_map.mp ((List.pairwise_map.mpr h).sublist hkeys)

/-- A key that comes before all others is put in front of them. -/
theorem insert_of_lt {key : String} {value : α} {entries : List (String × α)}
    (h : ∀ e ∈ entries, key < e.1) : insert key value entries = (key, value) :: entries := by
  cases entries with
  | nil => rfl
  | cons e rest => exact if_pos (h e List.mem_cons_self)

/-- A key that comes before all others is not there. -/
theorem lookup_eq_none_of_lt {k : String} {entries : List (String × α)}
    (h : ∀ e ∈ entries, k < e.1) : entries.lookup k = none := by
  induction entries with
  | nil => rfl
  | cons x rest ih =>
    have hx := h x List.mem_cons_self
    have hne : (k == x.1) = false := beq_false_of_ne fun he => String.lt_irrefl _ (he ▸ hx)
    rw [List.lookup_cons, hne]
    exact ih fun e he => h e (List.mem_cons_of_mem _ he)

theorem insertIfNew_of_lookup {key : String} {value : α} {entries : List (String × α)}
    (h : entries.lookup key = none) : insertIfNew key value entries = insert key value entries := by
  rw [insertIfNew, h]
  rfl

theorem lookup_insertIfNew (key : String) (value : α) (entries : List (String × α)) (k : String) :
    (insertIfNew key value entries).lookup k =
      if k = key then some ((entries.lookup key).getD value) else entries.lookup k := by
  cases h : entries.lookup key with
  | none => rw [insertIfNew_of_lookup h, lookup_insert, Option.getD_none]
  | some old =>
    rw [insertIfNew, h, if_pos Option.isSome_some]
    split
    · rename_i hk
      rw [hk, h, Option.getD_some]
    · rfl

theorem mem_insertIfNew {key : String} {value : α} {entries : List (String × α)} {e : String × α}
    (h : e ∈ insertIfNew key value entries) : e = (key, value) ∨ e ∈ entries := by
  unfold insertIfNew at h
  split at h
  · exact Or.inr h
  · exact mem_insert h

theorem sorted_insertIfNew {key : String} {value : α} {entries : List (String × α)}
    (h : Sorted entries) : Sorted (insertIfNew key value entries) := by
  unfold insertIfNew
  split
  · exact h
  · exact sorted_insert h

/-- A key that is not there has no value. -/
theorem lookup_eq_none_of_notMem {k : String} {entries : List (String × α)}
    (h : k ∉ entries.map Prod.fst) : entries.lookup k = none := by
  cases hk : entries.lookup k with
  | none => rfl
  | some v => exact absurd (List.mem_map_of_mem (mem_of_lookup hk)) h

/-- Where every key is there once, values are found from the end as from the front. -/
theorem lookup_reverse {entries : List (String × α)} (h : (entries.map Prod.fst).Nodup)
    (k : String) : entries.reverse.lookup k = entries.lookup k := by
  have hreverse : (entries.reverse.map Prod.fst).Nodup := by
    rw [List.map_reverse]
    exact List.pairwise_reverse.mpr (h.imp Ne.symm)
  cases hk : entries.lookup k with
  | none =>
    refine lookup_eq_none_of_notMem fun hmem => ?_
    rw [List.map_reverse, List.mem_reverse] at hmem
    obtain ⟨e, he, rfl⟩ := List.mem_map.mp hmem
    exact nomatch (lookup_of_mem h he).symm.trans hk
  | some v => exact lookup_of_mem hreverse (List.mem_reverse.mpr (mem_of_lookup hk))

/-- The first keys of two lists in order that hold the same keys do not come before each other. -/
theorem not_lt_of_lookup_eq {k k' : String} {v v' : α} {xs ys : List (String × α)}
    (hy : Sorted ((k', v') :: ys)) (h : ((k, v) :: xs).lookup k = ((k', v') :: ys).lookup k) :
    ¬k < k' := by
  intro hlt
  have hnone : ((k', v') :: ys).lookup k = none := lookup_eq_none_of_lt fun e he => by
    rcases List.mem_cons.mp he with he | he
    · exact he ▸ hlt
    · exact String.lt_trans hlt ((List.pairwise_cons.mp hy).1 e he)
  rw [lookup_cons_self, hnone] at h
  exact nomatch h

/-- In a list in order, the values under the keys are all there is. -/
theorem eq_of_lookup_eq {xs ys : List (String × α)} (hx : Sorted xs) (hy : Sorted ys)
    (h : ∀ k, xs.lookup k = ys.lookup k) : xs = ys := by
  induction xs generalizing ys with
  | nil =>
    cases ys with
    | nil => rfl
    | cons y ys =>
      have hk := h y.1
      rw [lookup_cons_self y.1 y.2 ys] at hk
      exact nomatch hk
  | cons x xs ih =>
    cases ys with
    | nil =>
      have hk := h x.1
      rw [lookup_cons_self x.1 x.2 xs] at hk
      exact nomatch hk
    | cons y ys =>
      obtain ⟨k, v⟩ := x
      obtain ⟨k', v'⟩ := y
      have hkey : k = k' := String.le_antisymm
        (String.not_lt.mp (not_lt_of_lookup_eq hx (h k').symm))
        (String.not_lt.mp (not_lt_of_lookup_eq hy (h k)))
      subst hkey
      have hv := h k
      rw [lookup_cons_self, lookup_cons_self] at hv
      cases hv
      have hx' := List.pairwise_cons.mp hx
      have hy' := List.pairwise_cons.mp hy
      refine congrArg _ (ih hx'.2 hy'.2 fun q => ?_)
      by_cases hq : q = k
      · subst hq
        rw [lookup_eq_none_of_lt hx'.1, lookup_eq_none_of_lt hy'.1]
      · have hk := h q
        rwa [lookup_cons_of_ne hq, lookup_cons_of_ne hq] at hk

end Larder.Keyed
