import Larder.Number.Binary64

/-!
# The shortest decimal of a binary number

The text of a finite number is its shortest decimal: of the decimals that round to the number, one
with the fewest digits, and of those the nearest. On the grid of decimals with `k` digits only the
two neighbours of the number can be it, so the grids are tried in turn, from one digit to
seventeen, by reading each neighbour back. Seventeen digits always suffice; the exact expansion,
which every finite binary number has, stands behind the search, so the result reads back whatever
the search does.
-/

namespace Larder.Binary64.Finite

/-- All digits of the magnitude: a denominator `2 ^ k` becomes `10 ^ k` by a factor `5 ^ k`. -/
def exactDecimal (x : Finite) : Decimal :=
  ⟨x.quotient.1 * Nat.pow 5 (-x.exponent).toNat, -(-x.exponent).toNat⟩

/-- Whether a decimal rounds to the magnitude of the number. -/
def readsBack (x : Finite) (d : Decimal) : Bool :=
  ofDecimal x.negative d == some x

/-- The better of the two neighbours of a positive number on the decimal grid `10 ^ e`, among
those that read back: the nearer one, and at equal distance the even one. -/
def onGrid (x : Finite) (e : Int) : Option Decimal :=
  let (n, d) := x.quotient
  let n' := n * Decimal.tenTo (-e).toNat
  let d' := d * Decimal.tenTo e.toNat
  let below : Decimal := ⟨n' / d', e⟩
  let above : Decimal := ⟨n' / d' + 1, e⟩
  let twice := 2 * (n' % d')
  let nearer := if twice < d' ∨ (twice = d' ∧ n' / d' % 2 = 0) then [below, above] else [above, below]
  nearer.find? x.readsBack

/-- The first decimal that reads back on the grids of `digits`, `digits + 1`, … digits. -/
def search (x : Finite) (magnitude : Int) : Nat → Nat → Option Decimal
  | _, 0 => none
  | digits, grids + 1 =>
    match x.onGrid (magnitude - digits + 1) with
    | some d => some d
    | none => search x magnitude (digits + 1) grids

/-- The shortest decimal that rounds to the magnitude of the number, in its normal form. -/
def shortest (x : Finite) : Decimal :=
  let exact := x.exactDecimal.normal
  match x.search exact.magnitude 1 17 with
  | some d => d.normal
  | none => exact

/-! The shortest decimal of zero is zero, whatever its sign. -/

theorem readsBack_zero (negative : Bool) (e : Int) : (zero negative).readsBack ⟨0, e⟩ = true := by
  unfold readsBack ofDecimal ofNormalDecimal Decimal.normal
  rw [Decimal.trim, if_pos rfl, if_pos rfl]
  exact beq_self_eq_true _

theorem onGrid_zero (negative : Bool) (e : Int) : (zero negative).onGrid e = some ⟨0, e⟩ := by
  have hq : (zero negative).quotient = (0, 1 <<< 1074) := by
    unfold quotient zero
    rw [Nat.zero_shiftLeft]
    rfl
  have hunit : 0 < (1 <<< 1074) * Decimal.tenTo e.toNat := by
    refine Nat.mul_pos (Nat.pos_of_ne_zero fun h => ?_) (Nat.pow_pos (by decide))
    cases (Nat.shiftLeft_eq_zero_iff.mp h)
  unfold onGrid
  rw [hq]
  dsimp only
  rw [Nat.zero_mul, Nat.zero_div, Nat.zero_mod, Nat.mul_zero, if_pos (Or.inl hunit),
    List.find?_cons, readsBack_zero]

theorem shortest_zero (negative : Bool) : (zero negative).shortest = ⟨0, 0⟩ := by
  have hexact : (zero negative).exactDecimal.normal = ⟨0, 0⟩ := by
    unfold exactDecimal quotient zero Decimal.normal
    rw [Nat.zero_shiftLeft, Nat.zero_mul, Decimal.trim, if_pos rfl]
  unfold shortest
  dsimp only
  rw [hexact, search, onGrid_zero]
  dsimp only
  rw [Decimal.normal, Decimal.trim, if_pos rfl]

end Larder.Binary64.Finite
