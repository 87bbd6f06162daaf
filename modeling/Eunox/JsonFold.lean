import Eunox.UnicodeText
import Mathlib.Dynamics.FixedPoints.Basic

/-! `capability.FoldJSONKey`: a key with each rune replaced by one of its case variants, the same for
all of them. The table of case variants, `unicode.SimpleFold`, is a parameter: each rune leads to the
next of its variants, and around to itself. -/
namespace Eunox
open ByteString JsonText PathPattern Utf8

/-- `unicode.SimpleFold`. -/
structure SimpleFold where
  next : ℕ → ℕ
  /-- After how many steps a rune is back. -/
  size : ℕ → ℕ
  size_pos : ∀ r, 0 < size r
  returns : ∀ r, next^[size r] r = r
  scalar : ∀ r, Scalar r → Scalar (next r)

/-- An ASCII rune before another, else the larger. -/
def preferredFoldRune (a b : ℕ) : ℕ :=
  if decide (a < 0x80) != decide (b < 0x80) then if a < 0x80 then a else b else max a b

namespace SimpleFold
variable (table : SimpleFold)

/-- The loop of `canonicalFoldRune`, from the rune `f` on. -/
def foldLoop (r : ℕ) : ℕ → ℕ → ℕ → ℕ
  | 0, _, best => best
  | fuel + 1, f, best => if f = r then best else foldLoop r fuel (table.next f) (preferredFoldRune best f)

def canonicalFoldRune (r : ℕ) : ℕ := table.foldLoop r (table.size r) (table.next r) r

/-- The rest of a string from the first rune that is not its own representative. -/
def canonicalCaseFoldFrom (s : Bytes) : Bytes := ((runes s).map fun r => encodeRune (table.canonicalFoldRune r)).flatten

def canonicalCaseFoldScan : ℕ → Bytes → Bytes
  | 0, _ => []
  | _ + 1, [] => []
  | bound + 1, byte :: rest =>
    let (r, size) := decodeRune (byte :: rest)
    if table.canonicalFoldRune r ≠ r ∨ r = runeError ∧ size = 1 then table.canonicalCaseFoldFrom (byte :: rest)
    else (byte :: rest).take size ++ canonicalCaseFoldScan bound ((byte :: rest).drop size)

def canonicalCaseFold (s : Bytes) : Bytes := table.canonicalCaseFoldScan s.length s

def foldJSONKey (key : Bytes) : Bytes := table.canonicalCaseFold key

/-! Orbits. -/

/-- One rune is a case variant of the other. -/
def Variant (r s : ℕ) : Prop := ∃ n, table.next^[n] r = s

variable {table}

theorem Variant.refl (r : ℕ) : table.Variant r r := ⟨0, rfl⟩

theorem Variant.trans (first : table.Variant r s) (second : table.Variant s t) : table.Variant r t := by
  obtain ⟨m, rfl⟩ := first
  obtain ⟨n, rfl⟩ := second
  exact ⟨n + m, Function.iterate_add_apply _ _ _ _⟩

/-- Around the orbit it is back. -/
theorem Variant.symm (variant : table.Variant r s) : table.Variant s r := by
  obtain ⟨n, rfl⟩ := variant
  have around : table.next^[table.size r * n] r = r := by
    rw [Function.iterate_mul]
    exact Function.IsFixedPt.iterate (table.returns r) n
  have enough : n ≤ table.size r * n := Nat.le_mul_of_pos_left n (table.size_pos r)
  refine ⟨table.size r * n - n, ?_⟩
  rw [← Function.iterate_add_apply, Nat.sub_add_cancel enough, around]

theorem preferred_comm (a b : ℕ) : preferredFoldRune a b = preferredFoldRune b a := by
  unfold preferredFoldRune
  by_cases left : a < 0x80 <;> by_cases right : b < 0x80 <;> simp [left, right, max_comm]

/-- No rune of the set is preferred to this one of it. -/
def Best (among : ℕ → Prop) (best : ℕ) : Prop := among best ∧ ∀ r, among r → preferredFoldRune best r = best

theorem Best.unique {among : ℕ → Prop} (first : Best among a) (second : Best among b) : a = b := by
  rw [← first.2 b second.1, preferred_comm, second.2 a first.1]

theorem preferred_left (kept : preferredFoldRune a r = a) :
    preferredFoldRune (preferredFoldRune a b) r = preferredFoldRune a b := by
  unfold preferredFoldRune at kept ⊢
  by_cases left : a < 0x80 <;> by_cases right : b < 0x80 <;> by_cases low : r < 0x80 <;>
    simp only [right, low] at kept ⊢ <;> simp at kept ⊢ <;> grind

theorem preferred_self (a b : ℕ) : preferredFoldRune (preferredFoldRune a b) b = preferredFoldRune a b := by
  unfold preferredFoldRune
  by_cases left : a < 0x80 <;> by_cases right : b < 0x80 <;> simp [left, right]

theorem preferred_mem (a b : ℕ) : preferredFoldRune a b = a ∨ preferredFoldRune a b = b := by
  unfold preferredFoldRune
  split
  · split
    · exact .inl rfl
    · exact .inr rfl
  · exact max_choice a b

theorem foldLoop_best (fuel : ℕ) (begun : 0 < j) (closes : ∃ k, j ≤ k ∧ k < j + fuel ∧ table.next^[k] r = r)
    (sofar : Best (fun s => ∃ i < j, table.next^[i] r = s) best) :
    Best (table.Variant r) (table.foldLoop r fuel (table.next^[j] r) best) := by
  induction fuel generalizing j best with
  | zero => omega
  | succ fuel ih =>
    rw [foldLoop]
    split
    · -- the loop is around: what it saw is the whole orbit
      rename_i around
      obtain ⟨⟨i, -, seen⟩, best_of⟩ := sofar
      refine ⟨⟨i, seen⟩, ?_⟩
      rintro s ⟨n, rfl⟩
      refine best_of _ ⟨n % j, Nat.mod_lt n begun, ?_⟩
      have whole : table.next^[j * (n / j)] r = r := by
        rw [Function.iterate_mul]
        exact Function.IsFixedPt.iterate around (n / j)
      have cut : table.next^[n] r = table.next^[n % j] (table.next^[j * (n / j)] r) := by
        rw [← Function.iterate_add_apply, Nat.mod_add_div]
      rw [cut, whole]
    · rename_i open_
      have further : table.next (table.next^[j] r) = table.next^[j + 1] r := (Function.iterate_succ_apply' ..).symm
      rw [further]
      refine ih (Nat.succ_pos j) ?_ ?_
      · obtain ⟨k, low, high, back⟩ := closes
        have other : k ≠ j := by
          rintro rfl
          exact open_ back
        exact ⟨k, by omega, by omega, back⟩
      · obtain ⟨⟨i, low, seen⟩, best_of⟩ := sofar
        refine ⟨?_, ?_⟩
        · rcases preferred_mem best (table.next^[j] r) with kept | moved
          · exact ⟨i, by omega, by rw [kept, seen]⟩
          · exact ⟨j, by omega, moved.symm⟩
        · rintro s ⟨m, small, rfl⟩
          rcases Nat.lt_succ_iff_lt_or_eq.mp small with before | rfl
          · exact preferred_left (best_of _ ⟨m, before, rfl⟩)
          · exact preferred_self _ _

theorem canonicalFoldRune_best (r : ℕ) : Best (table.Variant r) (table.canonicalFoldRune r) := by
  refine foldLoop_best _ Nat.one_pos ⟨table.size r, table.size_pos r, by omega, table.returns r⟩ ⟨⟨0, by omega, rfl⟩, ?_⟩
  rintro s ⟨i, small, rfl⟩
  obtain rfl : i = 0 := by omega
  simp [preferredFoldRune]

/-- Two runes have one representative exactly when they are case variants. -/
theorem canonicalFoldRune_eq_iff : table.canonicalFoldRune r = table.canonicalFoldRune s ↔ table.Variant r s := by
  have first : Best (table.Variant r) (table.canonicalFoldRune r) := canonicalFoldRune_best r
  have second : Best (table.Variant s) (table.canonicalFoldRune s) := canonicalFoldRune_best s
  constructor
  · intro same
    have member := second.1
    exact Variant.trans (same ▸ first.1) member.symm
  · intro variant
    refine first.unique ⟨variant.trans second.1, fun t member => second.2 t (variant.symm.trans member)⟩

theorem variant_scalar (scalar : Scalar r) (variant : table.Variant r s) : Scalar s := by
  obtain ⟨n, rfl⟩ := variant
  induction n with
  | zero => exact scalar
  | succ n ih =>
    rw [Function.iterate_succ_apply']
    exact table.scalar _ ih

/-! Strings. -/

theorem runesWithin_scalar (bound : ℕ) (s : Bytes) : ∀ r ∈ runesWithin bound s, Scalar r := by
  induction bound generalizing s with
  | zero => simp [runesWithin]
  | succ bound ih =>
    cases s with
    | nil => simp [runesWithin]
    | cons byte rest =>
      refine List.forall_mem_cons.mpr ⟨?_, ih _⟩
      rcases decodeRune_cases byte rest with ⟨broken, -⟩ | encodes
      · rw [broken]
        exact .inr (by decide)
      · exact scalar_of_encodes encodes

/-- The fold writes the representative of every rune. -/
theorem canonicalCaseFold_eq (s : Bytes) :
    table.canonicalCaseFold s = utf8 ((runes s).map table.canonicalFoldRune) := by
  have scan (bound : ℕ) (s : Bytes) (room : s.length ≤ bound) :
      table.canonicalCaseFoldScan bound s = utf8 ((runes s).map table.canonicalFoldRune) := by
    induction bound generalizing s with
    | zero =>
      obtain rfl := List.length_eq_zero_iff.mp (Nat.le_zero.mp room)
      rfl
    | succ bound ih =>
      cases s with
      | nil => rfl
      | cons byte rest =>
        have size := decodeRune_size byte rest
        rw [canonicalCaseFoldScan]
        dsimp only
        split
        · rw [utf8, List.map_map]
          rfl
        · rename_i own
          push Not at own
          have encodes := (decodeRune_cases byte rest).resolve_left fun broken => by
            rw [broken.1] at own
            exact own.2 rfl rfl
          rw [ih _ (by simp at room ⊢; omega), runes_cons, List.map_cons, utf8_cons, own.1, encodes.encodes]
  exact scan s.length s le_rfl

/-- `strings.EqualFold`: the runes of the two are case variants one by one. -/
def EqualFold (table : SimpleFold) (s t : Bytes) : Prop := List.Forall₂ table.Variant (runes s) (runes t)

theorem EqualFold.refl (s : Bytes) : table.EqualFold s s := List.forall₂_same.mpr fun r _ => Variant.refl r

theorem map_canonical_eq_iff :
    left.map table.canonicalFoldRune = right.map table.canonicalFoldRune ↔ List.Forall₂ table.Variant left right := by
  rw [← List.forall₂_eq_eq_eq, List.forall₂_map_left_iff, List.forall₂_map_right_iff]
  exact ⟨fun pairs => pairs.imp fun _ _ => canonicalFoldRune_eq_iff.mp,
    fun pairs => pairs.imp fun _ _ => canonicalFoldRune_eq_iff.mpr⟩

theorem folded_scalar (s : Bytes) : ∀ r ∈ (runes s).map table.canonicalFoldRune, Scalar r := by
  intro r mem
  obtain ⟨r', inside, rfl⟩ := List.mem_map.mp mem
  exact variant_scalar (runesWithin_scalar _ _ r' inside) (canonicalFoldRune_best r').1

/-- Two keys have one fold exactly when a matcher that ignores case takes them for one. -/
theorem foldJSONKey_eq_iff : table.foldJSONKey s = table.foldJSONKey t ↔ table.EqualFold s t := by
  rw [foldJSONKey, foldJSONKey, canonicalCaseFold_eq, canonicalCaseFold_eq, EqualFold, ← map_canonical_eq_iff]
  exact ⟨utf8_inj (folded_scalar s) (folded_scalar t), congrArg utf8⟩

/-- The runes of a fold are case variants of those folded. -/
theorem equalFold_fold (s : Bytes) : table.EqualFold (table.foldJSONKey s) s := by
  rw [EqualFold, foldJSONKey, canonicalCaseFold_eq, runes_utf8 (folded_scalar s), List.forall₂_map_left_iff]
  apply List.forall₂_same.mpr
  intro r _
  exact (canonicalFoldRune_best r).1.symm

theorem foldJSONKey_fold (s : Bytes) : table.foldJSONKey (table.foldJSONKey s) = table.foldJSONKey s :=
  foldJSONKey_eq_iff.mpr (equalFold_fold s)

/-- The canonical form is exact: two byte strings have one exactly when they are as many runes, each a
case variant of the other's, with the error rune for each byte that is none; a form is its own. -/
theorem canonical_case_fold_exact (table : SimpleFold) (a b : Bytes) :
    (table.canonicalCaseFold a = table.canonicalCaseFold b ↔ List.Forall₂ table.Variant (runes a) (runes b)) ∧
    table.canonicalCaseFold (table.canonicalCaseFold a) = table.canonicalCaseFold a :=
  ⟨foldJSONKey_eq_iff, foldJSONKey_fold a⟩

theorem EqualFold.symm (same : table.EqualFold s t) : table.EqualFold t s :=
  foldJSONKey_eq_iff.mp (foldJSONKey_eq_iff.mpr same).symm

theorem EqualFold.trans (first : table.EqualFold s t) (second : table.EqualFold t u) : table.EqualFold s u :=
  foldJSONKey_eq_iff.mp ((foldJSONKey_eq_iff.mpr first).trans (foldJSONKey_eq_iff.mpr second))

instance (s t : Bytes) : Decidable (table.EqualFold s t) := decidable_of_iff _ foldJSONKey_eq_iff

end SimpleFold

/-- The letters of ASCII alone. -/
def asciiFold : SimpleFold where
  next r := if 65 ≤ r ∧ r ≤ 90 then r + 32 else if 97 ≤ r ∧ r ≤ 122 then r - 32 else r
  size _ := 2
  size_pos _ := by decide
  returns r := by
    simp only [Function.iterate_succ, Function.iterate_zero, Function.comp_apply, id]
    split_ifs <;> omega
  scalar r legal := by
    unfold Scalar at legal ⊢
    split_ifs <;> omega

end Eunox
