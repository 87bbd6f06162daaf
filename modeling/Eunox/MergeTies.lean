import Eunox.ManifestMerge
import Eunox.ManifestAcceptance
import Eunox.ConstraintSelection
import Eunox.PathMeaning

/-! Ties between entries of different files: two entries that tie on a request
are refused by the merge, whatever the request. -/
namespace Eunox
open ByteString PathPattern

/-! What a pattern fixes of the names it matches. -/

theorem globMetaChars_eq : globMetaChars = [42, 63, 91, 92] := by decide

theorem literalPrefix_cons (literal : byte ∉ [42, 63, 91, 92]) :
    literalPrefix (byte :: rest) = byte :: literalPrefix rest := by
  simpa [literalPrefix, globMetaChars_eq, List.takeWhile_cons] using literal

theorem literalPrefix_meta (special : byte ∈ [42, 63, 91, 92]) : literalPrefix (byte :: rest) = [] := by
  have stops : globMetaChars.contains byte = true := by simpa [globMetaChars_eq] using special
  rw [literalPrefix, List.takeWhile_cons, stops]
  rfl

theorem containsGlobMeta_cons :
    containsGlobMeta (byte :: rest) = false ↔ byte ∉ [42, 63, 91, 92] ∧ containsGlobMeta rest = false := by
  simp [containsGlobMeta, globMetaChars_eq]

/-- A name starts with the literal prefix of any pattern that reads it. -/
theorem literalPrefix_of_reads (reads : Reads pattern name) : literalPrefix pattern <+: name := by
  induction reads with
  | done => exact List.prefix_rfl
  | star | any | set | escaped => rw [literalPrefix_meta (by simp)]; exact List.nil_prefix
  | plain literal _ ih =>
    rw [literalPrefix_cons literal]
    exact List.cons_prefix_cons.mpr ⟨rfl, ih⟩

/-- A pattern without metacharacters reads only itself. -/
theorem eq_of_reads_literal (reads : Reads pattern name) (plain : containsGlobMeta pattern = false) :
    pattern = name := by
  induction reads with
  | done => rfl
  | star | any | set | escaped => exact absurd (by simp) (containsGlobMeta_cons.mp plain).1
  | plain _ _ ih => rw [ih (containsGlobMeta_cons.mp plain).2]

section
variable (matched : matchesResource resource name = true)
include matched

/-- A match by the text itself, by the bare wildcard, or by a reading. -/
theorem matchesResource_cases :
    resource = lit "*" ∨ resource = name ∨ Reads resource name := by
  unfold matchesResource at matched
  simp only [Bool.or_eq_true, beq_iff_eq] at matched
  rcases matched with (star | same) | read
  · exact .inl star
  · exact .inr (.inl same)
  exact .inr (.inr (pathMatch_reads (getD_pathMatch.mp read)))

theorem literalPrefix_of_matches :
    literalPrefix resource <+: name := by
  rcases matchesResource_cases matched with rfl | rfl | reads
  · exact List.nil_prefix
  · exact List.takeWhile_prefix _
  · exact literalPrefix_of_reads reads

theorem eq_of_matches_literal (plain : containsGlobMeta resource = false) : resource = name := by
  rcases matchesResource_cases matched with rfl | same | reads
  · exact absurd plain (by decide)
  · exact same
  · exact eq_of_reads_literal reads plain

end

/-! Scores. -/

/-- The runes of a string. -/
def runesFrom : ℕ → Bytes → ℕ
  | 0, _ => 0
  | bound + 1, s => if s.isEmpty then 0 else runesFrom bound (dropRune s) + 1

/-- `utf8.RuneCountInString`. -/
def runeCount (s : Bytes) : ℕ := runesFrom s.length s

@[simp] theorem dropRune_nil : dropRune [] = [] := rfl

theorem runesFrom_dropRune (bound : ℕ) (s : Bytes) : runesFrom bound (dropRune s) ≤ runesFrom bound s := by
  induction bound generalizing s with
  | zero => exact le_rfl
  | succ bound ih =>
    cases s with
    | nil => exact le_rfl
    | cons byte rest =>
      have here : runesFrom (bound + 1) (byte :: rest) = runesFrom bound (dropRune (byte :: rest)) + 1 := rfl
      rw [here]
      generalize dropRune (byte :: rest) = later
      cases later with
      | nil => exact Nat.zero_le _
      | cons byte rest => exact Nat.succ_le_succ (ih (byte :: rest))

theorem runesFrom_dropClass (bound fuel : ℕ) (s : Bytes) :
    runesFrom bound (dropClass fuel s) ≤ runesFrom bound s := by
  induction fuel generalizing s with
  | zero => exact le_rfl
  | succ fuel ih =>
    unfold dropClass
    split
    · next empty =>
      rw [List.isEmpty_iff.mp empty]
    · split
      · exact runesFrom_dropRune bound s
      · split
        · exact (ih _).trans ((runesFrom_dropRune bound _).trans (runesFrom_dropRune bound s))
        · exact (ih _).trans (runesFrom_dropRune bound s)

/-- A pattern has no more literal runes than runes. -/
theorem countRunes_literals (bound : ℕ) (s : Bytes) (counts : ℤ × ℤ) :
    (countRunes bound s counts).1 ≤ counts.1 + runesFrom bound s := by
  induction bound generalizing s counts with
  | zero => simp [countRunes]
  | succ bound ih =>
    obtain ⟨literals, wildcards⟩ := counts
    unfold countRunes runesFrom
    split
    · simp
    have later := runesFrom_dropRune bound (dropRune s)
    dsimp only
    split
    · have rest := ih (dropRune s) (literals, wildcards + 1)
      omega
    · split
      · split
        · omega
        · have rest := ih (dropRune (dropRune s)) (literals + 1, wildcards)
          omega
      · split
        · generalize inside : (if (decodeRune (dropRune s)).1 = 94 then dropRune (dropRune s) else dropRune s) = body
          have shorter : runesFrom bound body ≤ runesFrom bound (dropRune s) := by
            rw [← inside]
            split
            · exact later
            · exact le_rfl
          have closed := runesFrom_dropClass bound body.length body
          have rest := ih (dropClass body.length body) (literals, wildcards + 1)
          omega
        · have rest := ih (dropRune s) (literals + 1, wildcards)
          omega

/-- The patterns the scores are made for. -/
def shortPattern (bare : Bytes) : Prop := runeCount bare < 13000000

instance (bare : Bytes) : Decidable (shortPattern bare) := inferInstanceAs (Decidable (_ < _))

/-- Of patterns of that length only the name itself has the score of an exact match. -/
theorem resourceSpecificity_lt (short : shortPattern bare) (other : bare ≠ name) :
    resourceSpecificity bare name < exactMatchSpecificity := by
  have literals := countRunes_literals bare.length bare (0, 0)
  have wildcards := (countRunes_counts bare.length bare (0, 0)).2
  unfold shortPattern runeCount at short
  rw [resourceSpecificity, if_neg other]
  simp only [exactMatchSpecificity, resourceSpecificityLiteralWeight, maxWildcardTiebreak]
  omega

theorem resourceSpecificity_other (solid : bare ≠ []) (other : bare ≠ name) :
    resourceSpecificity bare name = resourceSpecificity bare [] := by
  rw [resourceSpecificity, if_neg other, resourceSpecificity, if_neg solid]

/-! Ties. -/

/-- Two patterns that tie on a name they match overlap. -/
theorem globTargetsOverlap_of_tie (solidA : a ≠ []) (solidB : b ≠ [])
    (shortA : shortPattern a) (shortB : shortPattern b) (matchA : matchesResource a name = true)
    (matchB : matchesResource b name = true) (tie : resourceSpecificity a name = resourceSpecificity b name) :
    globTargetsOverlap a b = true := by
  by_cases same : a = b
  · simp [globTargetsOverlap, same]
  -- A name that is one of the patterns ranks it above the other.
  have precise' (c : Bytes) (is : c = name) : resourceSpecificity c name = exactMatchSpecificity := by
    rw [resourceSpecificity, if_pos is]
  have otherA : a ≠ name := fun is => by
    have less := resourceSpecificity_lt shortB fun isB => same (is.trans isB.symm)
    rw [← tie, precise' a is] at less
    exact lt_irrefl _ less
  have otherB : b ≠ name := fun is => by
    have less := resourceSpecificity_lt shortA otherA
    rw [tie, precise' b is] at less
    exact lt_irrefl _ less
  have globA : containsGlobMeta a = true := by
    rw [← Bool.not_eq_false]
    exact fun plain => otherA (eq_of_matches_literal matchA plain)
  have globB : containsGlobMeta b = true := by
    rw [← Bool.not_eq_false]
    exact fun plain => otherB (eq_of_matches_literal matchB plain)
  have together : literalPrefixesDisjoint a b = false := by
    rcases List.prefix_or_prefix_of_prefix (literalPrefix_of_matches matchA) (literalPrefix_of_matches matchB)
      with front | front
    · simp [literalPrefixesDisjoint, List.isPrefixOf_iff_prefix.mpr front]
    · simp [literalPrefixesDisjoint, List.isPrefixOf_iff_prefix.mpr front]
  rw [resourceSpecificity_other solidA otherA, resourceSpecificity_other solidB otherB] at tie
  simp [globTargetsOverlap, globA, globB, together, tie]

/-- A value that satisfies a pattern of a claim. -/
def Satisfies (value p : Bytes) : Prop := p = value ∨ pathMatch p value = some true

theorem satisfies_of_matchesAny (matched : matchesAnyPattern value patterns = true) :
    ∃ p ∈ patterns, Satisfies value p := by
  obtain ⟨p, mem, found⟩ := List.any_eq_true.mp matched
  refine ⟨p, mem, ?_⟩
  rcases Bool.or_eq_true_iff.mp found with same | read
  · exact .inl (beq_iff_eq.mp same)
  exact .inr (getD_pathMatch.mp read)

theorem Satisfies.literal (satisfied : Satisfies value p) (plain : containsGlobMeta p = false) : p = value :=
  satisfied.elim id fun read => eq_of_reads_literal (pathMatch_reads read) plain

theorem patternPairCanOverlap_of_value (a : Satisfies value pa) (b : Satisfies value pb) :
    patternPairCanOverlap pa pb = true := by
  unfold patternPairCanOverlap
  split
  · rfl
  next differ =>
  split
  · next plainA plainB => exact absurd ((a.literal plainA).trans (b.literal plainB).symm) differ
  · rfl
  · next globA plainB =>
    rw [b.literal plainB] at differ ⊢
    rw [a.resolve_left differ]
    rfl
  · next plainA globB =>
    rw [a.literal plainA] at differ ⊢
    rw [b.resolve_left (Ne.symm differ)]
    rfl

theorem principalsConflict_of_caller {a b : Constraint}
    (matchA : a.principalMatches claims = true) (matchB : b.principalMatches claims = true)
    (alike : a.hasPrincipal = b.hasPrincipal) : principalsConflict a.principal b.principal = true := by
  have alike : a.principal.isEmpty = b.principal.isEmpty := by
    simpa [Constraint.hasPrincipal] using alike
  unfold principalsConflict
  split
  · next general => simpa [alike] using general
  refine List.all_eq_true.mpr fun entry _ => ?_
  obtain ⟨claim, ignored⟩ := entry
  dsimp only
  split
  · next aPats bPats foundA foundB =>
    have heldA := List.all_eq_true.mp matchA _ (AssocList.mem_of_lookup foundA)
    have heldB := List.all_eq_true.mp matchB _ (AssocList.mem_of_lookup foundB)
    split at heldA
    · next value claimed =>
      rw [claimed] at heldB
      obtain ⟨pa, memberA, satisfiedA⟩ := satisfies_of_matchesAny heldA
      obtain ⟨pb, memberB, satisfiedB⟩ := satisfies_of_matchesAny heldB
      refine List.any_eq_true.mpr ⟨pa, memberA, List.any_eq_true.mpr ⟨pb, memberB, ?_⟩⟩
      exact patternPairCanOverlap_of_value satisfiedA satisfiedB
    · cases heldA
  · rfl

/-- What a request of this type is, and the wildcard. -/
theorem validActionsFor_eq (known : isTargetType targetType = true) :
    validActionsFor targetType = [requiredActionFor targetType, lit "*"] := by
  have all : ∀ t ∈ [lit "tool", lit "resource", lit "prompt", lit "system"],
      validActionsFor t = [requiredActionFor t, lit "*"] := by decide
  exact all targetType (by simpa [isTargetType] using known)

theorem actionsOverlap_of_valid (known : isTargetType targetType = true)
    (someA : a ≠ []) (someB : b ≠ []) (validA : ∀ x ∈ a, x ∈ validActionsFor targetType)
    (validB : ∀ y ∈ b, y ∈ validActionsFor targetType) : actionsOverlap a b = true := by
  obtain ⟨x, memberX⟩ := List.exists_mem_of_ne_nil a someA
  obtain ⟨y, memberY⟩ := List.exists_mem_of_ne_nil b someB
  have isX := validA x memberX
  have isY := validB y memberY
  rw [validActionsFor_eq known] at isX isY
  simp only [List.mem_cons, List.not_mem_nil, or_false] at isX isY
  refine List.any_eq_true.mpr ⟨x, memberX, ?_⟩
  rcases isX with rfl | rfl
  · refine Bool.or_eq_true_iff.mpr (.inr (List.any_eq_true.mpr ⟨y, memberY, ?_⟩))
    rcases isY with rfl | rfl <;> simp
  · simp

section Tie
variable {r r' : ManifestRules} {scope scope' : ManifestScope} {c c' : ManifestEntry} {t t' bare bare' : Bytes}

/-- Whether an entry matches, by its pattern. -/
theorem admits_iff (s : Selector) (accepted : c.Accepted r scope t bare) : s.admits c = true ↔
      t = s.targetType ∧ matchesResource bare s.name = true ∧ c.principalMatches s.claims = true := by
  unfold Selector.admits Selector.pattern
  rw [accepted.parsed]
  by_cases same : t = s.targetType
  · simp [same]
  · simp [same]

theorem specificity_eq {s : Selector} (accepted : c.Accepted r scope t bare) (same : t = s.targetType) :
    s.specificity c = resourceSpecificity bare s.name := by
  unfold Selector.specificity Selector.pattern
  rw [accepted.parsed]
  simp [same]

/-- Every accepted entry permits the action of its requests. -/
theorem permits_of_accepted {s : Selector} (accepted : c.Accepted r scope t bare) (same : t = s.targetType) :
    s.permits c = true := by
  obtain ⟨known, -, -⟩ := parsedTarget_spec accepted.parsed
  obtain ⟨x, mem⟩ := List.exists_mem_of_ne_nil _ accepted.acts
  have valid := accepted.passes.actions x mem
  rw [validActionsFor_eq known, same] at valid
  refine List.any_eq_true.mpr ⟨x, mem, ?_⟩
  simpa using valid

/-- Entries that tie on a request conflict. -/
theorem entriesConflict_of_tie {s : Selector} (first : c.Accepted r scope t bare)
    (second : c'.Accepted r' scope' t' bare') (short : shortPattern bare) (short' : shortPattern bare')
    (admitted : s.admits c = true) (admitted' : s.admits c' = true) (tie : s.key c = s.key c') :
    entriesConflict c c' = true := by
  obtain ⟨rfl, matched, caller⟩ := (admits_iff s first).mp admitted
  obtain ⟨same', matched', caller'⟩ := (admits_iff s second).mp admitted'
  subst same'
  obtain ⟨known, solid, -⟩ := parsedTarget_spec first.parsed
  obtain ⟨-, solid', -⟩ := parsedTarget_spec second.parsed
  obtain ⟨scores, alike⟩ : s.specificity c = s.specificity c' ∧ c.hasPrincipal = c'.hasPrincipal :=
    Prod.mk.inj (toLex.injective tie)
  rw [specificity_eq first rfl, specificity_eq second rfl] at scores
  have targets : targetsCanTie c.target c'.target = true := by
    simp [targetsCanTie, first.parsed, second.parsed,
      globTargetsOverlap_of_tie solid solid' short short' matched matched' scores]
  have actions := actionsOverlap_of_valid known first.acts second.acts first.passes.actions second.passes.actions
  have principals := principalsConflict_of_caller caller caller' alike
  simp [entriesConflict, targets, actions, principals]

end Tie

/-! Conflicts go both ways. -/

theorem globTargetsOverlap_comm (a b : Bytes) : globTargetsOverlap a b = globTargetsOverlap b a := by
  unfold globTargetsOverlap
  rw [show literalPrefixesDisjoint a b = literalPrefixesDisjoint b a from Bool.and_comm _ _,
    Bool.beq_comm (a := resourceSpecificity a [])]
  by_cases same : a = b
  · simp [same]
  · rw [if_neg same, if_neg (Ne.symm same)]
    cases containsGlobMeta a <;> cases containsGlobMeta b <;> rfl

theorem patternPairCanOverlap_comm (a b : Bytes) : patternPairCanOverlap a b = patternPairCanOverlap b a := by
  unfold patternPairCanOverlap
  by_cases same : a = b
  · simp [same]
  · rw [if_neg same, if_neg (Ne.symm same)]
    cases containsGlobMeta a <;> cases containsGlobMeta b <;> rfl

theorem patternsCanOverlap_comm (a b : List Bytes) : patternsCanOverlap a b = patternsCanOverlap b a := by
  rw [Bool.eq_iff_iff]
  simp only [patternsCanOverlap, List.any_eq_true]
  constructor
  · rintro ⟨pa, memberA, pb, memberB, overlap⟩
    exact ⟨pb, memberB, pa, memberA, (patternPairCanOverlap_comm pb pa).trans overlap⟩
  · rintro ⟨pb, memberB, pa, memberA, overlap⟩
    exact ⟨pa, memberA, pb, memberB, (patternPairCanOverlap_comm pa pb).trans overlap⟩

theorem principalsConflict_symm (conflict : principalsConflict a b = true) : principalsConflict b a = true := by
  unfold principalsConflict at conflict ⊢
  by_cases general : (a.isEmpty || b.isEmpty) = true
  · rw [if_pos general] at conflict
    rw [Bool.or_comm, if_pos general, Bool.and_comm, conflict]
  · rw [if_neg general] at conflict
    rw [Bool.or_comm, if_neg general]
    refine List.all_eq_true.mpr ?_
    rintro ⟨claim, -⟩ -
    dsimp only
    cases inB : b.lookup claim with
    | none => rfl
    | some bPats =>
      cases inA : a.lookup claim with
      | none => rfl
      | some aPats =>
        -- A claim both name is one of the first's.
        have here := List.all_eq_true.mp conflict (claim, aPats) (AssocList.mem_of_lookup inA)
        dsimp only at here
        rw [inA, inB] at here
        exact (patternsCanOverlap_comm bPats aPats).trans here

theorem actionsOverlap_symm (someB : b ≠ []) (overlap : actionsOverlap a b = true) : actionsOverlap b a = true := by
  simp only [actionsOverlap, List.any_eq_true, Bool.or_eq_true, beq_iff_eq] at overlap ⊢
  obtain ⟨x, memberX, whole | ⟨y, memberY, whole | same⟩⟩ := overlap
  · obtain ⟨y, memberY⟩ := List.exists_mem_of_ne_nil b someB
    exact ⟨y, memberY, .inr ⟨x, memberX, .inl whole⟩⟩
  · exact ⟨y, memberY, .inl whole⟩
  · exact ⟨y, memberY, .inr ⟨x, memberX, .inr same.symm⟩⟩

theorem targetsCanTie_comm (a b : Bytes) : targetsCanTie a b = targetsCanTie b a := by
  unfold targetsCanTie
  cases parsedTarget a with
  | none => cases parsedTarget b <;> rfl
  | some target =>
    cases parsedTarget b with
    | none => rfl
    | some target' =>
      dsimp only
      rw [Bool.beq_comm, globTargetsOverlap_comm]

theorem entriesConflict_symm (acts : c.actions ≠ []) (conflict : entriesConflict p c = true) :
    entriesConflict c p = true := by
  simp only [entriesConflict, Bool.and_eq_true] at conflict ⊢
  obtain ⟨⟨targets, actions⟩, principals⟩ := conflict
  exact ⟨⟨(targetsCanTie_comm _ _).trans targets, actionsOverlap_symm acts actions⟩,
    principalsConflict_symm principals⟩

end Eunox
