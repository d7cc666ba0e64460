import Larder.Proofs.Reading

/-!
# Where the entries left out lie

Every entry that a reading reports lies strictly below where the reading is: in an item of the list,
under a key of the map, or in the member of a field. Two parts of one reading that look at different
places therefore never report the same path, and what the whole reports of a place is what the part
that looks there reports.
-/

namespace Larder

namespace Segment

/-- The segment of an item from this index on. -/
def From (index : Nat) (s : Segment) : Prop := ∃ j, index ≤ j ∧ s = .index j

theorem from_self {index : Nat} {s : Segment} (hs : s = .index index) : s.From index :=
  ⟨index, Nat.le_refl _, hs⟩

theorem From.of_succ {index : Nat} {s : Segment} (hs : s.From (index + 1)) : s.From index := by
  obtain ⟨j, hj, hs⟩ := hs
  exact ⟨j, by omega, hs⟩

theorem not_from_succ {index : Nat} {s : Segment} (hs : s = .index index) :
    ¬s.From (index + 1) := by
  intro h
  obtain ⟨j, hj, hs'⟩ := h
  rw [hs] at hs'
  cases hs'
  omega

/-- The segment of a member under one of these keys. -/
def Among (keys : List String) (s : Segment) : Prop := ∃ k ∈ keys, s = .key k

theorem among_self {key : String} {keys : List String} {s : Segment} (hs : s = .key key) :
    s.Among (key :: keys) :=
  ⟨key, List.mem_cons_self, hs⟩

theorem Among.cons {key : String} {keys : List String} {s : Segment} (hs : s.Among keys) :
    s.Among (key :: keys) := by
  obtain ⟨k, hk, hs⟩ := hs
  exact ⟨k, List.mem_cons_of_mem _ hk, hs⟩

theorem not_among {key : String} {keys : List String} (hkey : key ∉ keys) {s : Segment}
    (hs : s = .key key) : ¬s.Among keys := by
  intro h
  obtain ⟨k, hk, hs'⟩ := h
  rw [hs] at hs'
  cases hs'
  exact hkey hk

end Segment

variable {α β γ : Type}

namespace Outcome

/-- Every entry that an outcome reports lies along one of these segments. -/
def Along (S : Segment → Prop) (o : Outcome α) : Prop :=
  ∀ d ∈ o.dropped, ∃ s p, d.path.segments = s :: p ∧ S s

theorem Along.mono {S S' : Segment → Prop} {o : Outcome α} (h : o.Along S)
    (hS : ∀ s, S s → S' s) : o.Along S' := by
  intro d hd
  obtain ⟨s, p, hp, hs⟩ := h d hd
  exact ⟨s, p, hp, hS s hs⟩

theorem along_nil {S : Segment → Prop} {o : Outcome α} (h : o.dropped = []) : o.Along S := by
  intro d hd
  rw [h] at hd
  cases hd

theorem Along.bind {S : Segment → Prop} {o : Outcome α} {f : α → Outcome β} (ho : o.Along S)
    (hf : ∀ a, (f a).Along S) : (o >>= f).Along S := by
  obtain ⟨result, dropped, log⟩ := o
  cases result with
  | error e => exact ho
  | ok a =>
      intro d hd
      rcases List.mem_append.mp hd with hd | hd
      · exact ho d hd
      · exact hf a d hd

/-- Two parts of a reading, one after the other. -/
theorem Along.parts {S A B : Segment → Prop} {o : Outcome α} {o' : Outcome β} {f : α → β → γ}
    (hoA : o.Along A) (hoB : o'.Along B) (hA : ∀ s, A s → S s) (hB : ∀ s, B s → S s) :
    (do let a ← o; let b ← o'; pure (f a b)).Along S := by
  refine (hoA.mono hA).bind fun a => (hoB.mono hB).bind fun b => ?_
  exact along_nil rfl

theorem Along.map {S : Segment → Prop} {o : Outcome α} (f : α → β) (ho : o.Along S) :
    (f <$> o).Along S := by
  intro d hd
  rw [dropped_map] at hd
  exact ho d hd

theorem along_below (s : Segment) (o : Outcome α) : (o.below (.step s)).Along (· = s) := by
  intro d hd
  obtain ⟨e, -, rfl⟩ := List.mem_map.mp hd
  exact ⟨s, e.path.segments, rfl, rfl⟩

theorem along_entry (mode : Mode) (s : Segment) (o : Outcome α) :
    (Outcome.entry mode s o).Along (· = s) := by
  obtain ⟨result, dropped, log⟩ := o
  cases result with
  | ok a => exact along_below s (⟨.ok a, dropped, log⟩ : Outcome α)
  | error e =>
      cases mode with
      | strict => exact along_below s (⟨.error e, dropped, log⟩ : Outcome α)
      | lenient =>
          -- what was left out inside is forgotten; only the entry itself is reported
          intro d hd
          obtain rfl := List.mem_singleton.mp hd
          exact ⟨s, [], rfl, rfl⟩

theorem along_required {members : List (String × Json)} {key : String} {read : Json → Outcome α} :
    (Outcome.required members key read).Along (· = .key key) :=
  along_below _ _

theorem along_optional {members : List (String × Json)} {key : String} {read : Json → Outcome α} :
    (Outcome.optional members key read).Along (· = .key key) := by
  unfold Outcome.optional
  split
  · exact along_nil rfl
  · split
    · exact along_nil rfl
    · exact along_below _ _

end Outcome

/-! ## Naming what is reported -/

namespace Outcome

/-- Of the paths that begin with one of these segments, `gone` names just those that an outcome
reports. -/
def Names (gone : List Segment → Bool) (S : Segment → Prop) (o : Outcome α) : Prop :=
  ∀ s p, S s → (gone (s :: p) = true ↔ ∃ d ∈ o.dropped, d.path.segments = s :: p)

/-- What a part reports, when all else that the whole reports lies elsewhere. -/
theorem Names.part {gone : List Segment → Bool} {S A : Segment → Prop} {o : Outcome α}
    {part : Outcome β} (h : o.Names gone S) (hA : ∀ s, A s → S s)
    (hpart : ∀ d ∈ part.dropped, d ∈ o.dropped)
    (helse : ∀ d ∈ o.dropped, d ∈ part.dropped ∨ ∃ s p, d.path.segments = s :: p ∧ ¬A s) :
    part.Names gone A := by
  intro s p hs
  rw [h s p (hA s hs)]
  refine ⟨?_, ?_⟩
  · intro hd
    obtain ⟨d, hd, hp⟩ := hd
    rcases helse d hd with hd | ⟨s', p', hp', hs'⟩
    · exact ⟨d, hd, hp⟩
    · obtain ⟨rfl, rfl⟩ := List.cons.inj (hp.symm.trans hp')
      exact absurd hs hs'
  · intro hd
    obtain ⟨d, hd, hp⟩ := hd
    exact ⟨d, hpart d hd, hp⟩

/-- Two parts of a reading that look at different places: what the whole reports of the place of
each is what that part reports. -/
theorem Names.parts {gone : List Segment → Bool} {S A B : Segment → Prop} {o : Outcome α}
    {o' : Outcome β} {f : α → β → γ} {a : α} {b : β}
    (h : (do let a ← o; let b ← o'; pure (f a b)).Names gone S)
    (ha : o.result = .ok a) (hb : o'.result = .ok b) (hoA : o.Along A) (hoB : o'.Along B)
    (hA : ∀ s, A s → S s) (hB : ∀ s, B s → S s) (hAB : ∀ s, A s → ¬B s) :
    o.Names gone A ∧ o'.Names gone B := by
  have hmem : ∀ d, d ∈ (do let a ← o; let b ← o'; pure (f a b)).dropped ↔
      d ∈ o.dropped ∨ d ∈ o'.dropped := by
    intro d
    rw [dropped_bind ha, dropped_bind hb]
    simp
  refine ⟨h.part hA (fun d hd => (hmem d).mpr (Or.inl hd)) fun d hd => ?_,
    h.part hB (fun d hd => (hmem d).mpr (Or.inr hd)) fun d hd => ?_⟩
  · rcases (hmem d).mp hd with hd | hd
    · exact Or.inl hd
    · obtain ⟨s, p, hp, hs⟩ := hoB d hd
      exact Or.inr ⟨s, p, hp, fun hs' => hAB s hs' hs⟩
  · rcases (hmem d).mp hd with hd | hd
    · obtain ⟨s, p, hp, hs⟩ := hoA d hd
      exact Or.inr ⟨s, p, hp, hAB s hs⟩
    · exact Or.inl hd

theorem Names.map {gone : List Segment → Bool} {S : Segment → Prop} {o : Outcome α} {f : α → β} :
    (f <$> o).Names gone S ↔ o.Names gone S := by
  unfold Names
  rw [dropped_map]

/-- What is reported of a step one level deeper, seen from there. -/
theorem Names.below {gone : List Segment → Bool} {s : Segment} {o : Outcome α}
    (h : (o.below (.step s)).Names gone (· = s)) (p : List Segment) :
    gone (s :: p) = true ↔ ∃ d ∈ o.dropped, d.path.segments = p := by
  rw [h s p rfl]
  refine ⟨fun ⟨d, hd, hp⟩ => ?_, fun ⟨d, hd, hp⟩ => ?_⟩
  · obtain ⟨e, he, rfl⟩ := List.mem_map.mp hd
    exact ⟨e, he, (List.cons.inj hp).2⟩
  · refine ⟨d.below (.step s), List.mem_map_of_mem hd, ?_⟩
    show s :: d.path.segments = s :: p
    rw [hp]

end Outcome

/-! ## What the readings of parts report -/

variable {c : Catalog} {mode : Mode} {t : Ty}

/-- Nothing that a step reports is where the step started. -/
theorem alongLaw : StepLaw fun {α} (m : DecodeM α) =>
    Local m ∧ ∀ mode, (m.outcome mode).Along fun _ => True where
  pure a := ⟨localLaw.pure a, fun mode => by rw [outcome_pure]; exact Outcome.along_nil rfl⟩
  fail fault := ⟨localLaw.fail fault, fun mode => by rw [outcome_fail]; exact Outcome.along_nil rfl⟩
  bind := by
    intro α β m f h hf
    obtain ⟨hm, ham⟩ := h
    refine ⟨localLaw.bind hm fun a => (hf a).1, fun mode => ?_⟩
    rw [outcome_bind hm fun a => (hf a).1]
    exact (ham mode).bind fun a => (hf a).2 mode
  within := by
    intro α s m h
    obtain ⟨hm, -⟩ := h
    refine ⟨localLaw.within s hm, fun mode => ?_⟩
    rw [outcome_within s hm]
    exact (Outcome.along_below s _).mono fun _ _ => trivial
  entry := by
    intro α s m h
    obtain ⟨hm, -⟩ := h
    refine ⟨localLaw.entry s hm, fun mode => ?_⟩
    rw [outcome_entry s hm]
    exact (Outcome.along_entry mode s _).mono fun _ _ => trivial

theorem reading_along (c : Catalog) (mode : Mode) (t : Ty) (v : Json) :
    (reading c mode t v).Along fun _ => True :=
  (alongLaw.decode c t v).2 mode

theorem readingItems_along : ∀ (index : Nat) (items : List Json),
    (readingItems c mode t index items).Along (Segment.From index)
  | index, [] => by
      rw [readingItems_nil]
      exact Outcome.along_nil rfl
  | index, v :: rest => by
      have hrest := readingItems_along (index + 1) rest
      rw [readingItems_cons]
      exact Outcome.Along.parts (Outcome.along_entry _ _ _) hrest
        (fun _ => Segment.from_self) fun _ => Segment.From.of_succ

theorem readingEntries_along : ∀ (entries : List (String × Json)),
    (readingEntries c mode t entries).Along (Segment.Among (entries.map Prod.fst))
  | [] => by
      rw [readingEntries_nil]
      exact Outcome.along_nil rfl
  | (key, v) :: rest => by
      have hrest := readingEntries_along rest
      rw [readingEntries_cons]
      exact Outcome.Along.parts (Outcome.along_entry _ _ _) hrest
        (fun _ => Segment.among_self) fun _ => Segment.Among.cons

theorem readingField_along (members : List (String × Json)) (f : Field) :
    (readingField c mode members f).Along (· = .key f.key) := by
  rw [readingField_eq]
  split
  · exact Outcome.along_required
  · exact Outcome.along_optional.map _

theorem readingFields_along (members : List (String × Json)) : ∀ (fields : List Field),
    (readingFields c mode members fields).Along (Segment.Among (fields.map Field.key))
  | [] => by
      rw [readingFields_nil]
      exact Outcome.along_nil rfl
  | f :: rest => by
      have hrest := readingFields_along members rest
      rw [readingFields_cons]
      exact Outcome.Along.parts (readingField_along members f) hrest
        (fun _ => Segment.among_self) fun _ => Segment.Among.cons

end Larder
