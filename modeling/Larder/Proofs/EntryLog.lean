import Larder.Proofs.EntryByEntry

/-!
# The log of a lenient reading

A lenient reading notes each collection entry in its log at the time at which it leaves it out. The
log only grows; what is reported in the end is less, because an entry that is left out takes what
was left out inside it back out of the report.

* `lasting` is what is left of a log when every entry that lies inside a later one is taken out;
* `logAt` is the part of a log that one entry of a collection gives rise to;
* `Attempts` says to which entries a reading comes, and as what it reads them;
* `Precedes` and `DoneBefore` are the orders in which parts of a document are begun and done with.
-/

namespace Larder

variable {α β γ κ : Type} {c : Catalog} {t : Ty} {v : Json}

/-! ## What lasts of a log -/

/-- The path leads to a place strictly inside the one that the other leads to. -/
def Path.Inside (p q : Path) : Prop := q.segments <+: p.segments ∧ p ≠ q

instance (p q : Path) : Decidable (p.Inside q) := by
  unfold Path.Inside; infer_instance

theorem Path.not_inside_of_ne {s s' : Segment} (h : s ≠ s') (p q : List Segment) :
    ¬(⟨s :: p⟩ : Path).Inside ⟨s' :: q⟩ := by
  intro hin
  exact h (List.cons_prefix_cons.mp hin.1).1.symm

theorem Path.append_inside_append {p q r : Path} :
    (r.append p).Inside (r.append q) ↔ p.Inside q := by
  obtain ⟨p⟩ := p
  obtain ⟨q⟩ := q
  simp [Path.Inside, Path.append, List.prefix_append_right_inj]

/-- The entries of a log that lie inside no later one. -/
def lasting : List Drop → List Drop
  | [] => []
  | d :: later => if ∃ e ∈ later, d.path.Inside e.path then lasting later else d :: lasting later

theorem lasting_sublist : ∀ log : List Drop, (lasting log).Sublist log
  | [] => .slnil
  | d :: later => by
      rw [lasting]
      split
      · exact (lasting_sublist later).cons d
      · exact (lasting_sublist later).cons_cons d

/-- What lasts does not lie inside what comes after it. -/
theorem pairwise_lasting : ∀ log : List Drop,
    (lasting log).Pairwise fun d e => ¬d.path.Inside e.path
  | [] => .nil
  | d :: later => by
      rw [lasting]
      split
      · exact pairwise_lasting later
      · rename_i hd
        refine .cons (fun e he hin => hd ⟨e, (lasting_sublist later).subset he, hin⟩) ?_
        exact pairwise_lasting later

theorem lasting_append {xs ys : List Drop} (h : ∀ d ∈ xs, ∀ e ∈ ys, ¬d.path.Inside e.path) :
    lasting (xs ++ ys) = lasting xs ++ lasting ys := by
  induction xs with
  | nil => rfl
  | cons d xs ih =>
      have hd : (∃ e ∈ xs ++ ys, d.path.Inside e.path) ↔ ∃ e ∈ xs, d.path.Inside e.path := by
        refine ⟨fun ⟨e, he, hin⟩ => ?_, fun ⟨e, he, hin⟩ => ⟨e, List.mem_append_left _ he, hin⟩⟩
        rcases List.mem_append.mp he with he | he
        · exact ⟨e, he, hin⟩
        · exact absurd hin (h d List.mem_cons_self e he)
      have hrest := ih fun e he => h e (List.mem_cons_of_mem d he)
      rw [List.cons_append, lasting, lasting, hrest]
      simp only [hd]
      split <;> rfl

/-- Logs of different places last each by itself. -/
theorem lasting_flatMap {f : α → List Drop} {xs : List α}
    (h : xs.Pairwise fun a b => ∀ d ∈ f a, ∀ e ∈ f b, ¬d.path.Inside e.path) :
    lasting (xs.flatMap f) = xs.flatMap fun a => lasting (f a) := by
  induction xs with
  | nil => rfl
  | cons a xs ih =>
      obtain ⟨ha, hxs⟩ := List.pairwise_cons.mp h
      rw [List.flatMap_cons, lasting_append, ih hxs, List.flatMap_cons]
      intro d hd e he
      obtain ⟨b, hb, he⟩ := List.mem_flatMap.mp he
      exact ha b hb d hd e he

theorem lasting_map_below (p : Path) : ∀ log : List Drop,
    lasting (log.map (Drop.below p)) = (lasting log).map (Drop.below p)
  | [] => rfl
  | d :: later => by
      have hd : (∃ e ∈ later.map (Drop.below p), (d.below p).path.Inside e.path) ↔
          ∃ e ∈ later, d.path.Inside e.path := by
        simp only [List.mem_map, exists_exists_and_eq_and]
        exact exists_congr fun e => and_congr_right fun _ => Path.append_inside_append
      rw [List.map_cons, lasting, lasting, lasting_map_below p later]
      simp only [hd]
      split <;> rfl

/-- Of a log that ends with an entry around all others, that entry lasts. -/
theorem lasting_around {log : List Drop} {d : Drop} (h : ∀ e ∈ log, e.path.Inside d.path) :
    lasting (log ++ [d]) = [d] := by
  induction log with
  | nil => rfl
  | cons e later ih =>
      have he : ∃ x ∈ later ++ [d], e.path.Inside x.path :=
        ⟨d, List.mem_append_right _ (List.mem_singleton_self d), h e List.mem_cons_self⟩
      rw [List.cons_append, lasting, if_pos he]
      exact ih fun x hx => h x (List.mem_cons_of_mem e hx)

/-! ## Logs of outcomes -/

/-- What the log of a lenient reading says of an entry that comes to the outcome: what was left out
inside it, and at last the entry itself if it cannot be read. -/
def logAt (s : Segment) (o : Outcome α) : List Drop :=
  match o.result with
  | .ok _ => o.log.map (Drop.below (.step s))
  | .error e => o.log.map (Drop.below (.step s)) ++ [Drop.below (.step s) ⟨.root, e⟩]

namespace Outcome

/-- Nothing is left out at any time. -/
def Quiet (o : Outcome α) : Prop := o.dropped = [] ∧ o.log = []

theorem quiet_ofExcept (x : Except Fault α) : (ofExcept x).Quiet := by
  cases x <;> exact ⟨rfl, rfl⟩

theorem Quiet.bind {o : Outcome α} {f : α → Outcome β} (ho : o.Quiet) (hf : ∀ a, (f a).Quiet) :
    (o >>= f).Quiet := by
  obtain ⟨result, dropped, log⟩ := o
  obtain ⟨rfl, rfl⟩ := ho
  cases result with
  | error e => exact ⟨rfl, rfl⟩
  | ok a => exact hf a

theorem Quiet.map {o : Outcome α} {f : α → β} (ho : o.Quiet) : (f <$> o).Quiet :=
  ho.bind fun _ => ⟨rfl, rfl⟩

theorem quiet_required {members : List (String × Json)} {key : String} {read : Json → Outcome α}
    (h : ∀ v, members.lookup key = some v → v.isNull = false → (read v).Quiet) :
    (required members key read).Quiet := by
  cases hv : members.lookup key with
  | none =>
      unfold required
      rw [hv]
      exact ⟨rfl, rfl⟩
  | some v =>
      cases hnull : v.isNull with
      | true =>
          unfold required
          rw [hv]
          simp only [hnull, if_true]
          exact ⟨rfl, rfl⟩
      | false =>
          obtain ⟨hdropped, hlog⟩ := h v hv hnull
          rw [required_of_lookup hv hnull]
          exact ⟨List.map_eq_nil_iff.mpr hdropped, List.map_eq_nil_iff.mpr hlog⟩

theorem quiet_optional {members : List (String × Json)} {key : String} {read : Json → Outcome α}
    (h : ∀ v, members.lookup key = some v → v.isNull = true) :
    (optional members key read).Quiet := by
  unfold optional
  split
  · exact ⟨rfl, rfl⟩
  · rename_i v hv
    rw [if_pos (h v hv)]
    exact ⟨rfl, rfl⟩

theorem log_map {o : Outcome α} {f : α → β} : (f <$> o).log = o.log := by
  obtain ⟨result, dropped, log⟩ := o
  cases result with
  | error e => rfl
  | ok a => rw [ok_map]

theorem log_parts {o : Outcome α} {o' : Outcome β} {f : α → β → γ} :
    (do let a ← o; let b ← o'; pure (f a b)).log =
      match o.result with
      | .ok _ => o.log ++ o'.log
      | .error _ => o.log := by
  obtain ⟨result, dropped, log⟩ := o
  cases result with
  | error e => rfl
  | ok a =>
      have h : (do let b ← o'; pure (f a b)).log = o'.log := log_map
      exact congrArg (log ++ ·) h

theorem log_entry (s : Segment) (o : Outcome α) : (entry .lenient s o).log = logAt s o := by
  obtain ⟨result, dropped, log⟩ := o
  cases result with
  | error e => rfl
  | ok a => rfl

theorem log_entries (segment : κ → Segment) (read : Json → Outcome Datum) :
    ∀ es : List (κ × Json), (entries segment .lenient read es).log =
      es.flatMap fun e => logAt (segment e.1) (read e.2)
  | [] => rfl
  | (label, v) :: rest => by
      obtain ⟨hread, -⟩ := decoded_eq_ok.mp (entry_lenient (segment label) (read v))
      rw [entries, log_parts, hread, log_entries segment read rest, log_entry, List.flatMap_cons]

end Outcome

/-- A failure has no collections. -/
theorem failure_quiet (mode : Mode) (v : Json) : ((Failure.decode v).outcome mode).Quiet := by
  rw [reading_failure]
  cases v with
  | object members =>
      refine (Outcome.quiet_required fun w _ _ => ?_).bind fun code =>
        (Outcome.quiet_required fun w _ _ => ?_).bind fun description => ⟨rfl, rfl⟩
      · exact Outcome.quiet_ofExcept _
      · exact Outcome.quiet_ofExcept _
  | _ => exact ⟨rfl, rfl⟩

/-! ## Entries that are attempted -/

/-- The lenient reading of a document as a type comes, at the path, to an entry of a collection, and
reads it as the second type. It comes to a field if it has read the fields before. -/
inductive Attempts (c : Catalog) : Ty → Json → List Segment → Ty → Json → Prop where
  | item {t : Ty} {items : List Json} {i : Nat} {w : Json} (hw : items[i]? = some w) :
      Attempts c (.list t) (.array items) [.index i] t w
  | entry {t : Ty} {members : List (String × Json)} {key : String} {w : Json}
      (hw : members.lookup key = some w) :
      Attempts c (.map t) (.object members) [.key key] t w
  | insideItem {t u : Ty} {items : List Json} {i : Nat} {x w : Json} {p : List Segment}
      (hx : items[i]? = some x) (h : Attempts c t x p u w) :
      Attempts c (.list t) (.array items) (.index i :: p) u w
  | insideEntry {t u : Ty} {members : List (String × Json)} {key : String} {x w : Json}
      {p : List Segment} (hx : members.lookup key = some x) (h : Attempts c t x p u w) :
      Attempts c (.map t) (.object members) (.key key :: p) u w
  | option {t u : Ty} {v w : Json} {p : List Segment} (hv : v.isNull = false)
      (h : Attempts c t v p u w) : Attempts c (.option t) v p u w
  | payload {t u : Ty} {members : List (String × Json)} {x w : Json} {p : List Segment}
      (hx : members.lookup "ok" = some x) (hnull : x.isNull = false) (h : Attempts c t x p u w) :
      Attempts c (.envelope t) (.object members) (.key "ok" :: p) u w
  | field {name : String} {before after : List Field} {f : Field} {u : Ty}
      {members : List (String × Json)} {x w : Json} {p : List Segment}
      (hfields : c.fields name = before ++ f :: after)
      (hbefore : ∀ g ∈ before, ∃ d, (readingField c .lenient members g).result = .ok d)
      (hx : members.lookup f.key = some x) (hnull : x.isNull = false)
      (h : Attempts c f.ty x p u w) :
      Attempts c (.record name) (.object members) (.key f.key :: p) u w

/-- An entry is not where the reading started. -/
theorem Attempts.ne_nil {p : List Segment} {u : Ty} {w : Json} (h : Attempts c t v p u w) :
    p ≠ [] := by
  induction h with
  | option _ _ ih => exact ih
  | _ => exact List.cons_ne_nil _ _

/-- Following the path from the root leads to the entry. -/
theorem Attempts.resolve {p : List Segment} {u : Ty} {w : Json} (h : Attempts c t v p u w) :
    v.resolve ⟨p⟩ = some w := by
  induction h with
  | item hw => exact (congrArg (Option.bind · some) hw).trans rfl
  | entry hw => exact (congrArg (Option.bind · some) hw).trans rfl
  | option _ _ ih => exact ih
  | insideItem hx _ ih =>
      rw [Json.resolve_cons, Segment.follow, hx]
      exact ih
  | insideEntry hx _ ih =>
      rw [Json.resolve_cons, Segment.follow, hx]
      exact ih
  | payload hx _ _ ih =>
      rw [Json.resolve_cons, Segment.follow, hx]
      exact ih
  | field _ _ hx _ _ ih =>
      rw [Json.resolve_cons, Segment.follow, hx]
      exact ih

/-- The entry at the path, which is attempted as a type, cannot be read by itself, and this is what
is logged of it. -/
def FailedAt (c : Catalog) (p : List Segment) (u : Ty) (w : Json) (r : Drop) : Prop :=
  ∃ e, (reading c .lenient u w).result = .error e ∧ r = Drop.below ⟨p⟩ ⟨.root, e⟩

theorem failedAt_cons {s : Segment} {p : List Segment} {u : Ty} {w : Json} {r : Drop} :
    FailedAt c (s :: p) u w r ↔ ∃ r', FailedAt c p u w r' ∧ r = r'.below (.step s) := by
  have hbelow : ∀ e, Drop.below (.step s) (Drop.below ⟨p⟩ ⟨.root, e⟩) =
      Drop.below ⟨s :: p⟩ ⟨.root, e⟩ := fun e =>
    List.singleton_inj.mp (Drop.map_below_below (.step s) ⟨p⟩ [⟨.root, e⟩])
  refine ⟨?_, ?_⟩
  · intro h
    obtain ⟨e, he, rfl⟩ := h
    exact ⟨_, ⟨e, he, rfl⟩, (hbelow e).symm⟩
  · intro h
    obtain ⟨_, ⟨e, he, rfl⟩, rfl⟩ := h
    exact ⟨e, he, hbelow e⟩

/-! ## The order of a reading -/

/-- The first path leads to a part that is read before that of the second: where they part ways, it
goes to the lesser index, the lesser key, or the field that is declared first. -/
inductive Precedes (c : Catalog) : Ty → List Segment → List Segment → Prop where
  | items {t : Ty} {i j : Nat} {p q : List Segment} (h : i < j) :
      Precedes c (.list t) (.index i :: p) (.index j :: q)
  | entries {t : Ty} {j k : String} {p q : List Segment} (h : j < k) :
      Precedes c (.map t) (.key j :: p) (.key k :: q)
  | fields {name : String} {f g : Field} {p q : List Segment}
      (h : [f, g].Sublist (c.fields name)) :
      Precedes c (.record name) (.key f.key :: p) (.key g.key :: q)
  | item {t : Ty} {i : Nat} {p q : List Segment} (h : Precedes c t p q) :
      Precedes c (.list t) (.index i :: p) (.index i :: q)
  | entry {t : Ty} {key : String} {p q : List Segment} (h : Precedes c t p q) :
      Precedes c (.map t) (.key key :: p) (.key key :: q)
  | option {t : Ty} {p q : List Segment} (h : Precedes c t p q) : Precedes c (.option t) p q
  | payload {t : Ty} {p q : List Segment} (h : Precedes c t p q) :
      Precedes c (.envelope t) (.key "ok" :: p) (.key "ok" :: q)
  | field {name : String} {f : Field} {p q : List Segment} (hf : f ∈ c.fields name)
      (h : Precedes c f.ty p q) :
      Precedes c (.record name) (.key f.key :: p) (.key f.key :: q)

/-- Two paths of which one precedes the other have parted ways. -/
theorem Precedes.parted (hc : c.DistinctKeys) {p q : List Segment} (h : Precedes c t p q) :
    ¬p <+: q ∧ ¬q <+: p := by
  induction h with
  | items h => simp [List.cons_prefix_cons, Nat.ne_of_lt h, Nat.ne_of_gt h]
  | entries h =>
      have hne := String.ne_of_lt h
      simp [List.cons_prefix_cons, hne, hne.symm]
  | @fields name f g p q h =>
      have hne : f.key ≠ g.key := by
        have hkeys := (hc.fields name).sublist (h.map Field.key)
        simpa using hkeys
      simp [List.cons_prefix_cons, hne, hne.symm]
  | option _ ih => exact ih
  | item _ ih | entry _ ih | payload _ ih | field _ _ ih => simpa [List.cons_prefix_cons] using ih

/-- Reading is done with the part at the first path before it is done with that at the second, which
comes later or lies around it. -/
def DoneBefore (c : Catalog) (t : Ty) (p q : Path) : Prop :=
  Precedes c t p.segments q.segments ∨ p.Inside q

theorem DoneBefore.below {u : Ty} {s : Segment} {p q : Path}
    (hs : ∀ p q, Precedes c t p q → Precedes c u (s :: p) (s :: q)) (h : DoneBefore c t p q) :
    DoneBefore c u ((Path.step s).append p) ((Path.step s).append q) := by
  rcases h with h | h
  · exact Or.inl (hs _ _ h)
  · exact Or.inr (Path.append_inside_append.mpr h)

end Larder
