import Larder.Proofs.Descent

/-!
# What a step of decoding comes to

A decoder is changed in place: the path grows and shrinks, entries that are left out are added and
taken back. All of that is local. A step that starts somewhere in a document, after other entries
have been left out, does what it would do at the root with a fresh decoder, with two differences:
its own path stands in front of every path it mentions, and what was left out before stays in front
of what it leaves out itself.

`Outcome` is what is then left of a step: its result, what it left out, and its log, all seen from
where the step started. `Local` says that a step is its outcome; it holds of every reading
(`decode_local`), because the steps a reading is built of keep it (`StepLaw`). Outcomes are composed
like steps (`outcome_bind`, `outcome_within`, `outcome_entry`), so later statements speak of
outcomes and never of a changing decoder.
-/

namespace Larder

/-! ## Paths seen from further up -/

/-- The path that leads along `p`, and from there along `q`. -/
def Path.append (p q : Path) : Path := ⟨p.segments ++ q.segments⟩

/-- The path of one step. -/
def Path.step (s : Segment) : Path := ⟨[s]⟩

theorem Path.append_root (p : Path) : p.append .root = p := by
  show (⟨p.segments ++ []⟩ : Path) = p
  rw [List.append_nil]

theorem Path.append_assoc (p q r : Path) : (p.append q).append r = p.append (q.append r) := by
  show (⟨p.segments ++ q.segments ++ r.segments⟩ : Path) = _
  rw [List.append_assoc]
  rfl

/-- The error with the path of the place it was met at in front. -/
def DecodeError.below (p : Path) (e : DecodeError) : DecodeError := ⟨p.append e.path, e.fault⟩

/-- The entry with the path of the place it was met at in front of both of its paths. -/
def Drop.below (p : Path) (d : Drop) : Drop := ⟨p.append d.path, d.error.below p⟩

theorem DecodeError.below_root (e : DecodeError) : e.below .root = e := rfl

theorem DecodeError.below_below (p q : Path) (e : DecodeError) :
    (e.below q).below p = e.below (p.append q) := by
  show (⟨_, _⟩ : DecodeError) = ⟨_, _⟩
  rw [Path.append_assoc]
  rfl

theorem Drop.map_below_root (ds : List Drop) : ds.map (Drop.below .root) = ds := List.map_id ds

theorem Drop.map_below_below (p q : Path) (ds : List Drop) :
    (ds.map (Drop.below q)).map (Drop.below p) = ds.map (Drop.below (p.append q)) := by
  rw [List.map_map]
  refine List.map_congr_left fun d _ => ?_
  show (⟨p.append (q.append d.path), (d.error.below q).below p⟩ : Drop) = ⟨_, _⟩
  rw [← Path.append_assoc, DecodeError.below_below]

/-! ## Outcomes -/

/-- What a step of decoding comes to, seen from where it started. -/
structure Outcome (α : Type) where
  result : Except DecodeError α
  /-- What the step left out. -/
  dropped : List Drop
  /-- What the step left out at one time or another. -/
  log : List Drop

namespace Outcome

variable {α β : Type}

instance : Monad Outcome where
  pure a := ⟨.ok a, [], []⟩
  bind o f :=
    match o.result with
    | .ok a => ⟨(f a).result, o.dropped ++ (f a).dropped, o.log ++ (f a).log⟩
    | .error e => ⟨.error e, o.dropped, o.log⟩

/-- A fault where the step started. -/
def fail (fault : Fault) : Outcome α := ⟨.error ⟨.root, fault⟩, [], []⟩

/-- What was found, or a fault where the step started. -/
def ofExcept : Except Fault α → Outcome α
  | .ok a => pure a
  | .error fault => fail fault

/-- The outcome of a step that starts at a path, seen from the root. -/
def below (p : Path) (o : Outcome α) : Outcome α :=
  ⟨o.result.mapError (DecodeError.below p), o.dropped.map (Drop.below p), o.log.map (Drop.below p)⟩

/-- The outcome of reading an entry of a collection, when reading what the entry holds has the
outcome `o`. -/
def entry (mode : Mode) (s : Segment) (o : Outcome α) : Outcome (Option α) :=
  match o.result, mode with
  | .ok a, _ => ⟨.ok (some a), o.dropped.map (Drop.below (.step s)), o.log.map (Drop.below (.step s))⟩
  | .error e, .lenient =>
    let gone : Drop := ⟨.step s, e.below (.step s)⟩
    ⟨.ok none, [gone], o.log.map (Drop.below (.step s)) ++ [gone]⟩
  | .error e, .strict =>
    ⟨.error (e.below (.step s)), o.dropped.map (Drop.below (.step s)),
      o.log.map (Drop.below (.step s))⟩

/-- A step with the outcome `o`, taken by a decoder that is anywhere and has left out anything. -/
def take (o : Outcome α) : DecodeM α := fun cx =>
  ((o.below cx.path).result,
    { cx with
      dropped := cx.dropped ++ (o.below cx.path).dropped
      log := cx.log ++ (o.below cx.path).log })

end Outcome

/-- What a step comes to in a mode, which a fresh decoder shows. -/
def DecodeM.outcome {α : Type} (m : DecodeM α) (mode : Mode) : Outcome α :=
  let (result, cx) := m (.fresh ⟨mode⟩)
  ⟨result, cx.dropped, cx.log⟩

/-- A step that has, in each mode and from wherever it starts, the outcome `o`. -/
def ComesTo {α : Type} (m : DecodeM α) (o : Mode → Outcome α) : Prop :=
  ∀ cx, m cx = (o cx.options.collections).take cx

/-- A step that does the same from wherever it starts. -/
def Local {α : Type} (m : DecodeM α) : Prop := ComesTo m m.outcome

/-! ## Composing outcomes -/

section Composing

variable {α β γ : Type}

@[simp] theorem Outcome.pure_eq (a : α) : (pure a : Outcome α) = ⟨.ok a, [], []⟩ := rfl

@[simp] theorem Outcome.ok_bind (a : α) (ds log : List Drop) (f : α → Outcome β) :
    (⟨.ok a, ds, log⟩ : Outcome α) >>= f =
      ⟨(f a).result, ds ++ (f a).dropped, log ++ (f a).log⟩ := rfl

@[simp] theorem Outcome.error_bind (e : DecodeError) (ds log : List Drop) (f : α → Outcome β) :
    (⟨.error e, ds, log⟩ : Outcome α) >>= f = ⟨.error e, ds, log⟩ := rfl

@[simp] theorem Outcome.ok_below (p : Path) (a : α) (ds log : List Drop) :
    (⟨.ok a, ds, log⟩ : Outcome α).below p =
      ⟨.ok a, ds.map (Drop.below p), log.map (Drop.below p)⟩ := rfl

@[simp] theorem Outcome.error_below (p : Path) (e : DecodeError) (ds log : List Drop) :
    (⟨.error e, ds, log⟩ : Outcome α).below p =
      ⟨.error (e.below p), ds.map (Drop.below p), log.map (Drop.below p)⟩ := rfl

@[simp] theorem Outcome.ok_map (f : α → β) (a : α) (ds log : List Drop) :
    f <$> (⟨.ok a, ds, log⟩ : Outcome α) = ⟨.ok (f a), ds, log⟩ := by
  show (⟨.ok (f a), ds ++ [], log ++ []⟩ : Outcome β) = _
  rw [List.append_nil, List.append_nil]

@[simp] theorem Outcome.error_map (f : α → β) (e : DecodeError) (ds log : List Drop) :
    f <$> (⟨.error e, ds, log⟩ : Outcome α) = ⟨.error e, ds, log⟩ := rfl

theorem Outcome.below_root (o : Outcome α) : o.below .root = o := by
  obtain ⟨result, dropped, log⟩ := o
  cases result <;> simp [Drop.map_below_root, DecodeError.below_root]

theorem Outcome.below_below (p q : Path) (o : Outcome α) :
    (o.below q).below p = o.below (p.append q) := by
  obtain ⟨result, dropped, log⟩ := o
  cases result <;> simp only [ok_below, error_below, Drop.map_below_below, DecodeError.below_below]

theorem Outcome.below_bind (p : Path) (o : Outcome α) (f : α → Outcome β) :
    (o >>= f).below p = o.below p >>= fun a => (f a).below p := by
  obtain ⟨result, dropped, log⟩ := o
  cases result with
  | error e => rfl
  | ok a =>
      show (⟨_, _, _⟩ : Outcome β) = ⟨_, _, _⟩
      simp only [ok_bind, List.map_append]
      rfl

theorem Outcome.below_map (p : Path) (f : α → β) (o : Outcome α) :
    (f <$> o).below p = f <$> o.below p := by
  obtain ⟨result, dropped, log⟩ := o
  cases result with
  | error e => rfl
  | ok a => simp only [ok_map, ok_below]

theorem Outcome.bind_assoc (o : Outcome α) (f : α → Outcome β) (g : β → Outcome γ) :
    o >>= f >>= g = o >>= fun a => f a >>= g := by
  obtain ⟨result, dropped, log⟩ := o
  cases result with
  | error e => rfl
  | ok a =>
      rw [ok_bind, ok_bind]
      cases f a with
      | mk result dropped log => cases result <;> simp

theorem Outcome.map_bind (f : β → γ) (o : Outcome α) (g : α → Outcome β) :
    f <$> (o >>= g) = o >>= fun a => f <$> g a :=
  bind_assoc o g fun b => pure (f b)

theorem Outcome.bind_map (f : α → β) (o : Outcome α) (g : β → Outcome γ) :
    (f <$> o) >>= g = o >>= fun a => g (f a) := by
  obtain ⟨result, dropped, log⟩ := o
  cases result with
  | error e => rfl
  | ok a => rw [ok_map, ok_bind, ok_bind]

theorem Outcome.map_map (f : β → γ) (g : α → β) (o : Outcome α) :
    f <$> (g <$> o) = (fun a => f (g a)) <$> o :=
  bind_map g o fun b => pure (f b)

/-! A value is reached through values only, and brings together what was left out on the way. -/

theorem Outcome.bind_eq_ok {o : Outcome α} {f : α → Outcome β} {b : β} :
    (o >>= f).result = .ok b ↔ ∃ a, o.result = .ok a ∧ (f a).result = .ok b := by
  obtain ⟨result, dropped, log⟩ := o
  cases result with
  | error e => exact ⟨nofun, fun ⟨_, h, _⟩ => nomatch h⟩
  | ok a => exact ⟨fun h => ⟨a, rfl, h⟩, fun ⟨_, h, hb⟩ => by cases h; exact hb⟩

/-- Two parts, one after the other, and what is made of their values. -/
theorem Outcome.parts_eq_ok {o : Outcome α} {o' : Outcome β} {f : α → β → γ} {r : γ} :
    (do let a ← o; let b ← o'; pure (f a b)).result = .ok r ↔
      ∃ a b, o.result = .ok a ∧ o'.result = .ok b ∧ f a b = r := by
  have hpure : ∀ a b, (pure (f a b) : Outcome γ).result = .ok r ↔ f a b = r := fun a b =>
    ⟨Except.ok.inj, fun h => by rw [← h]; rfl⟩
  simp only [bind_eq_ok, hpure]
  refine ⟨?_, ?_⟩
  · intro h
    obtain ⟨a, ha, b, hb, hr⟩ := h
    exact ⟨a, b, ha, hb, hr⟩
  · intro h
    obtain ⟨a, b, ha, hb, hr⟩ := h
    exact ⟨a, ha, b, hb, hr⟩

theorem Outcome.bind_eq_error {o : Outcome α} {f : α → Outcome β} {e : DecodeError} :
    (o >>= f).result = .error e ↔
      o.result = .error e ∨ ∃ a, o.result = .ok a ∧ (f a).result = .error e := by
  obtain ⟨result, dropped, log⟩ := o
  cases result with
  | error e' =>
      rw [error_bind]
      refine ⟨fun h => Or.inl ?_, fun h => ?_⟩
      · cases h
        rfl
      · rcases h with h | ⟨_, h, -⟩
        · cases h
          rfl
        · cases h
  | ok a =>
      refine ⟨fun h => Or.inr ⟨a, rfl, h⟩, fun h => ?_⟩
      rcases h with h | ⟨_, h, he⟩
      · cases h
      · cases h
        exact he

theorem Outcome.map_eq_error {o : Outcome α} {f : α → β} {e : DecodeError} :
    (f <$> o).result = .error e ↔ o.result = .error e := by
  obtain ⟨result, dropped, log⟩ := o
  cases result with
  | error e' => exact ⟨fun h => by cases h; rfl, fun h => by cases h; rfl⟩
  | ok a =>
      rw [ok_map]
      exact ⟨nofun, nofun⟩

/-- Of two parts, the first that fails decides. -/
theorem Outcome.parts_eq_error {o : Outcome α} {o' : Outcome β} {f : α → β → γ} {e : DecodeError} :
    (do let a ← o; let b ← o'; pure (f a b)).result = .error e ↔
      o.result = .error e ∨ (∃ a, o.result = .ok a) ∧ o'.result = .error e := by
  have hpure : ∀ a b, ¬(pure (f a b) : Outcome γ).result = .error e := fun a b => nofun
  simp only [bind_eq_error, hpure, and_false, exists_false, or_false, exists_and_right]

theorem Outcome.map_eq_ok {o : Outcome α} {f : α → β} {b : β} :
    (f <$> o).result = .ok b ↔ ∃ a, o.result = .ok a ∧ f a = b := by
  obtain ⟨result, dropped, log⟩ := o
  cases result with
  | error e => exact ⟨nofun, fun ⟨_, h, _⟩ => nomatch h⟩
  | ok a =>
      rw [ok_map]
      exact ⟨fun h => ⟨a, rfl, by cases h; rfl⟩, fun ⟨_, h, hb⟩ => by cases h; rw [hb]⟩

theorem Outcome.below_eq_ok {o : Outcome α} {p : Path} {a : α} :
    (o.below p).result = .ok a ↔ o.result = .ok a := by
  obtain ⟨result, dropped, log⟩ := o
  cases result with
  | error e => exact ⟨nofun, nofun⟩
  | ok a' => exact Iff.rfl

theorem Outcome.dropped_bind {o : Outcome α} {f : α → Outcome β} {a : α} (h : o.result = .ok a) :
    (o >>= f).dropped = o.dropped ++ (f a).dropped := by
  obtain ⟨result, dropped, log⟩ := o
  cases h
  rfl

theorem Outcome.dropped_bind_nil {o : Outcome α} {f : α → Outcome β} (ho : o.dropped = [])
    (hf : ∀ a, (f a).dropped = []) : (o >>= f).dropped = [] := by
  obtain ⟨result, dropped, log⟩ := o
  cases result with
  | error e => exact ho
  | ok a => exact List.append_eq_nil_iff.mpr ⟨ho, hf a⟩

theorem Outcome.dropped_ofExcept (x : Except Fault α) : (Outcome.ofExcept x).dropped = [] := by
  cases x <;> rfl

theorem Outcome.dropped_map {o : Outcome α} {f : α → β} : (f <$> o).dropped = o.dropped := by
  obtain ⟨result, dropped, log⟩ := o
  cases result with
  | error e => rfl
  | ok a => rw [ok_map]

end Composing

/-! ## Every reading is local -/

section Locality

variable {α β : Type} {m : DecodeM α}

theorem ComesTo.outcome_eq {o : Mode → Outcome α} (h : ComesTo m o) : m.outcome = o := by
  funext mode
  show (⟨(m (.fresh ⟨mode⟩)).1, (m (.fresh ⟨mode⟩)).2.dropped, (m (.fresh ⟨mode⟩)).2.log⟩ :
    Outcome α) = o mode
  rw [h]
  exact Outcome.below_root (o mode)

theorem ComesTo.local {o : Mode → Outcome α} (h : ComesTo m o) : Local m := by
  unfold Local
  rw [h.outcome_eq]
  exact h

theorem DecodeM.bind_of_ok {f : α → DecodeM β} {cx cx' : Decoder} {a : α}
    (h : m cx = (.ok a, cx')) : (m >>= f) cx = f a cx' := by
  unfold bind instMonadDecodeM
  dsimp only
  rw [h]

theorem DecodeM.bind_of_error {f : α → DecodeM β} {cx cx' : Decoder} {e : DecodeError}
    (h : m cx = (.error e, cx')) : (m >>= f) cx = (.error e, cx') := by
  unfold bind instMonadDecodeM
  dsimp only
  rw [h]

theorem comesTo_pure (a : α) : ComesTo (pure a : DecodeM α) fun _ => pure a := by
  intro cx
  show (Except.ok a, cx) = (Except.ok a, { cx with dropped := cx.dropped ++ [], log := cx.log ++ [] })
  rw [List.append_nil, List.append_nil]

theorem comesTo_fail (fault : Fault) :
    ComesTo (DecodeM.fail fault : DecodeM α) fun _ => .fail fault := by
  intro cx
  show (Except.error (⟨cx.path, fault⟩ : DecodeError), cx) =
    (Except.error ⟨cx.path.append .root, fault⟩,
      { cx with dropped := cx.dropped ++ [], log := cx.log ++ [] })
  rw [List.append_nil, List.append_nil, Path.append_root]

theorem comesTo_bind {f : α → DecodeM β} (hm : Local m) (hf : ∀ a, Local (f a)) :
    ComesTo (m >>= f) fun mode => m.outcome mode >>= fun a => (f a).outcome mode := by
  intro cx
  have hcx := hm cx
  unfold Outcome.take at hcx ⊢
  rw [Outcome.below_bind]
  generalize (m.outcome cx.options.collections).below cx.path = o at hcx ⊢
  obtain ⟨result, dropped, log⟩ := o
  cases result with
  | error e => exact DecodeM.bind_of_error hcx
  | ok a =>
      -- the second step starts where the first has left the decoder
      rw [DecodeM.bind_of_ok hcx, hf a]
      simp only [Outcome.take, Outcome.ok_bind, List.append_assoc]

theorem comesTo_within (s : Segment) (hm : Local m) :
    ComesTo (DecodeM.within s m) fun mode => (m.outcome mode).below (.step s) := by
  intro cx
  show (let (result, cx') := m { cx with path := cx.path.push s }
    (result, { cx' with path := cx'.path.pop })) = _
  rw [hm]
  -- one step down and one step back
  show (_, (⟨cx.options, (cx.path.push s).pop, _, _⟩ : Decoder)) = _
  rw [Path.pop_push]
  unfold Outcome.take
  rw [Outcome.below_below]
  rfl

/-- What an entry of a collection comes to. The entries left out inside it come after those left
out before, so taking back to the mark takes back just them. -/
theorem comesTo_entry (s : Segment) (hm : Local m) :
    ComesTo (DecodeM.entry s m) fun mode => .entry mode s (m.outcome mode) := by
  intro h
  obtain ⟨⟨mode⟩, path, dropped, log⟩ := h
  unfold DecodeM.entry DecodeM.within
  dsimp only
  rw [hm]
  unfold Outcome.take
  dsimp only
  generalize m.outcome mode = o
  obtain ⟨result, inner, innerLog⟩ := o
  cases result with
  | ok a =>
      simp only [Outcome.ok_below, Outcome.entry, Path.pop_push, Drop.map_below_below]
      rfl
  | error e =>
      cases mode with
      | strict =>
          simp only [Outcome.error_below, Outcome.entry, Path.pop_push, Drop.map_below_below,
            DecodeError.below_below]
          rfl
      | lenient =>
          simp only [Outcome.error_below, Outcome.ok_below, Outcome.entry, List.map_append,
            Drop.map_below_below]
          -- what was left out before has just the length of the mark
          show (Except.ok none, (⟨⟨.lenient⟩, (path.push s).pop,
            (dropped ++ inner.map (Drop.below (path.push s))).take dropped.length ++
              [⟨path.push s, e.below (path.push s)⟩],
            (log ++ innerLog.map (Drop.below (path.push s))) ++
              [⟨path.push s, e.below (path.push s)⟩]⟩ : Decoder)) = _
          rw [Path.pop_push, List.take_left, List.append_assoc]
          simp only [List.map_cons, List.map_nil, Drop.below, DecodeError.below_below]
          rfl

/-- **Every reading is local**: what it does does not depend on where it starts or on what has been
left out before. -/
theorem localLaw : StepLaw @Local where
  pure a := (comesTo_pure a).local
  fail fault := (comesTo_fail fault).local
  bind hm hf := (comesTo_bind hm hf).local
  within s _ hm := (comesTo_within s hm).local
  entry s _ hm := (comesTo_entry s hm).local

theorem decode_local (c : Catalog) (t : Ty) (v : Json) : Local (decode c t v) :=
  localLaw.decode c t v

end Locality

/-! ## The outcome of a step, from the outcomes of its parts -/

section Steps

variable {α β : Type} {m : DecodeM α}

theorem outcome_pure (a : α) (mode : Mode) : (pure a : DecodeM α).outcome mode = pure a := by
  rw [(comesTo_pure a).outcome_eq]

theorem outcome_fail (fault : Fault) (mode : Mode) :
    (DecodeM.fail fault : DecodeM α).outcome mode = .fail fault := by
  rw [(comesTo_fail fault).outcome_eq]

theorem outcome_ofExcept (x : Except Fault α) (mode : Mode) :
    (DecodeM.ofExcept x).outcome mode = .ofExcept x := by
  cases x with
  | ok a => exact outcome_pure a mode
  | error fault => exact outcome_fail fault mode

theorem outcome_bind {f : α → DecodeM β} (hm : Local m) (hf : ∀ a, Local (f a)) (mode : Mode) :
    (m >>= f).outcome mode = m.outcome mode >>= fun a => (f a).outcome mode := by
  rw [(comesTo_bind hm hf).outcome_eq]

theorem outcome_map (f : α → β) (hm : Local m) (mode : Mode) :
    (f <$> m).outcome mode = f <$> m.outcome mode := by
  refine (outcome_bind hm (fun a => localLaw.pure (f a)) mode).trans ?_
  simp only [outcome_pure]
  rfl

theorem outcome_within (s : Segment) (hm : Local m) (mode : Mode) :
    (DecodeM.within s m).outcome mode = (m.outcome mode).below (.step s) := by
  rw [(comesTo_within s hm).outcome_eq]

theorem outcome_entry (s : Segment) (hm : Local m) (mode : Mode) :
    (DecodeM.entry s m).outcome mode = .entry mode s (m.outcome mode) := by
  rw [(comesTo_entry s hm).outcome_eq]

end Steps

end Larder
