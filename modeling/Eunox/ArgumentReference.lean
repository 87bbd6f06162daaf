import Eunox.DriftCheck

/-! References to arguments: every top-level key has one, two references name one place only if they are one
or a key and the path of that one segment, and a path descends by exactly its segments. -/
namespace Eunox.ArgumentPath
open ByteString JsonValue

/-- `capability.IsArgumentPath`. -/
def isArgumentPath (ref : Bytes) : Bool := (lit "$.").isPrefixOf ref

/-- The loop over the segments. -/
def descend : List Bytes → Json → Option Json
  | [], cur => some cur
  | seg :: segs, .object members => (members.lookup seg).bind (descend segs)
  | _ :: _, _ => none

/-- `capability.ResolveArgument`. -/
def resolveArgument (args : Members) (ref : Bytes) : Option Json :=
  if !isArgumentPath ref then args.lookup (argumentLiteralKey ref)
  else if argumentPathSegments ref = [] then none
  else descend (argumentPathSegments ref) (.object args)

/-- What a walk through objects by these keys ends at. -/
inductive Reaches : Json → List Bytes → Json → Prop where
  | here : Reaches value [] value
  | step : members.lookup key = some next → Reaches next keys value → Reaches (.object members) (key :: keys) value

theorem descend_iff : descend segs cur = some value ↔ Reaches cur segs value := by
  constructor
  · intro found
    induction segs generalizing cur with
    | nil => exact Option.some.inj found ▸ .here
    | cons seg segs ih =>
      cases cur with
      | object members =>
        obtain ⟨next, held, rest⟩ := Option.bind_eq_some_iff.mp found
        exact .step held (ih rest)
      | _ => cases found
  · intro reaches
    induction reaches with
    | here => rfl
    | step held _ ih => simp [descend, held, ih]

/-- A reference as its segments. -/
def pathOf (segs : List Bytes) : Bytes := lit "$." ++ [46].intercalate segs

theorem argumentPathSegments_pathOf (nonempty : segs ≠ []) (plain : ∀ seg ∈ segs, seg ≠ [] ∧ (46 : UInt8) ∉ seg) :
    argumentPathSegments (pathOf segs) = segs := by
  have split := List.splitOn_intercalate (46 : UInt8) (fun seg mem => (plain seg mem).2) nonempty
  have whole : [] ∉ segs := fun mem => (plain [] mem).1 rfl
  have written : [46].intercalate segs ≠ [] := by
    intro empty
    rw [empty] at split
    exact whole (split ▸ by simp)
  simp only [argumentPathSegments, pathOf, cutPrefix_append]
  split
  · simp_all
  · simp_all

theorem pathOf_argumentPathSegments (legal : argumentPathSegments ref ≠ []) :
    pathOf (argumentPathSegments ref) = ref := by
  unfold argumentPathSegments at *
  split at legal
  · simp at legal
  · simp at legal
  rename_i rest _ cut
  split at legal
  · simp at legal
  · rename_i whole
    rw [if_neg whole, cutPrefix_eq_some.mp cut, pathOf, List.intercalate_splitOn]

/-! The three forms are told apart by the dollars in front, before a dot. -/

def dollars (ref : Bytes) : ℕ := (ref.takeWhile (· == 36)).length

def Dotted (ref : Bytes) : Prop := (ref.dropWhile (· == 36)).head? = some 46

@[simp] theorem dollars_cons (ref : Bytes) : dollars (36 :: ref) = dollars ref + 1 := by simp [dollars]

@[simp] theorem dotted_cons (ref : Bytes) : Dotted (36 :: ref) ↔ Dotted ref := by simp [Dotted]

theorem isArgumentPath_iff (ref : Bytes) : isArgumentPath ref = true ↔ dollars ref = 1 ∧ Dotted ref := by
  have sentinel : lit "$." = [36, 46] := rfl
  cases ref with
  | nil => simp [isArgumentPath, sentinel, dollars]
  | cons first rest =>
    by_cases dollar : first = 36
    · cases rest with
      | nil => simp [isArgumentPath, sentinel, Dotted, dollar]
      | cons second rest =>
        by_cases again : second = 36
        · simp [isArgumentPath, sentinel, dollars, dollar, again]
        · simp [isArgumentPath, sentinel, dollars, Dotted, dollar, again]
          exact eq_comm
    · simp [isArgumentPath, sentinel, dollars, dollar, Ne.symm dollar]

theorem isEscapedArgumentLiteral_iff (ref : Bytes) :
    isEscapedArgumentLiteral ref = true ↔ 2 ≤ dollars ref ∧ Dotted ref := by
  simp [isEscapedArgumentLiteral, dollars, Dotted]

/-- An escaped reference has one dollar more than its key, any other is its key. -/
theorem argumentLiteralKey_cases (ref : Bytes) :
    (ref = 36 :: argumentLiteralKey ref ∧ 1 ≤ dollars (argumentLiteralKey ref) ∧ Dotted (argumentLiteralKey ref)) ∨
      ref = argumentLiteralKey ref ∧ ¬ (2 ≤ dollars ref ∧ Dotted ref) := by
  unfold argumentLiteralKey
  split
  · rename_i escaped
    rw [isEscapedArgumentLiteral_iff] at escaped
    cases ref with
    | nil => cases escaped.2
    | cons first rest =>
      by_cases dollar : first = 36
      · subst dollar
        simpa using escaped
      · simp [dollars, dollar] at escaped
  · rename_i plain
    exact .inr ⟨rfl, (isEscapedArgumentLiteral_iff ref).not.mp plain⟩

theorem argumentLiteralKey_inj (literal : isArgumentPath ref ≠ true) (literal' : isArgumentPath ref' ≠ true)
    (same : argumentLiteralKey ref = argumentLiteralKey ref') : ref = ref' := by
  rw [Ne, isArgumentPath_iff] at literal literal'
  have cases := argumentLiteralKey_cases ref
  have cases' := argumentLiteralKey_cases ref'
  grind

/-- Every key is named. -/
theorem key_named (key : Bytes) : ∃ ref, isArgumentPath ref ≠ true ∧ argumentLiteralKey ref = key := by
  by_cases sentinel : 1 ≤ dollars key ∧ Dotted key
  · refine ⟨36 :: key, ?_, ?_⟩
    · rw [Ne, isArgumentPath_iff, dollars_cons]
      omega
    · have escaped : isEscapedArgumentLiteral (36 :: key) = true := by
        rw [isEscapedArgumentLiteral_iff]
        simpa using sentinel
      simp [argumentLiteralKey, escaped]
  · refine ⟨key, ?_, ?_⟩
    · rw [Ne, isArgumentPath_iff]
      grind
    · have plain : ¬ isEscapedArgumentLiteral key = true := by
        rw [isEscapedArgumentLiteral_iff]
        grind
      rw [argumentLiteralKey, if_neg plain]

/-! What a reference resolves to. -/

def Malformed (ref : Bytes) : Prop := isArgumentPath ref = true ∧ argumentPathSegments ref = []

/-- The keys a reference walks by. -/
def addressed (ref : Bytes) : List Bytes :=
  if isArgumentPath ref then argumentPathSegments ref else [argumentLiteralKey ref]

theorem resolveArgument_iff (legal : ¬ Malformed ref) (args : Members) :
    resolveArgument args ref = some value ↔ Reaches (.object args) (addressed ref) value := by
  rw [← descend_iff]
  unfold resolveArgument addressed Malformed at *
  by_cases path : isArgumentPath ref = true
  · simp_all
  · have key : descend [argumentLiteralKey ref] (.object args) = args.lookup (argumentLiteralKey ref) := by
      cases held : args.lookup (argumentLiteralKey ref) <;> simp [descend, held]
    simp [path, key]

theorem addressed_pathOf (nonempty : segs ≠ []) (plain : ∀ seg ∈ segs, seg ≠ [] ∧ (46 : UInt8) ∉ seg) :
    ¬ Malformed (pathOf segs) ∧ addressed (pathOf segs) = segs := by
  have path : isArgumentPath (pathOf segs) = true := by simp [isArgumentPath, pathOf]
  have read := argumentPathSegments_pathOf nonempty plain
  exact ⟨fun malformed => nonempty (read ▸ malformed.2), by rw [addressed, if_pos path, read]⟩

/-- Objects in objects, to a null. -/
def nest : List Bytes → Json
  | [] => .null
  | key :: keys => .object [(key, nest keys)]

theorem reaches_nest : Reaches (nest keys) keys' .null ↔ keys' = keys := by
  rw [← descend_iff]
  induction keys generalizing keys' with
  | nil => cases keys' <;> simp [nest, descend]
  | cons key keys ih =>
    cases keys' with
    | nil => simp [nest, descend]
    | cons key' keys' =>
      by_cases same : key' = key
      · simp [nest, descend, same, ih]
      · simp [nest, descend, same, List.lookup_cons, beq_eq_false_iff_ne.mpr same]

theorem addressed_eq (legal : ¬ Malformed ref) (legal' : ¬ Malformed ref')
    (alike : ∀ args, resolveArgument args ref = resolveArgument args ref') : addressed ref = addressed ref' := by
  obtain ⟨key, keys, shape⟩ : ∃ key keys, addressed ref = key :: keys := by
    apply List.exists_cons_of_ne_nil
    unfold addressed
    split
    · rename_i path
      exact fun empty => legal ⟨path, empty⟩
    · simp
  have walks (keys' : List Bytes) : Reaches (.object [(key, nest keys)]) keys' .null ↔ keys' = addressed ref := by
    rw [shape]
    exact @reaches_nest (key :: keys) keys'
  have found := (resolveArgument_iff legal [(key, nest keys)]).mpr ((walks _).mpr rfl)
  rw [alike, resolveArgument_iff legal', walks] at found
  exact found.symm

/-- The path of one segment, and a reference to the key of that name. -/
def OneSegment (path ref : Bytes) : Prop :=
  isArgumentPath ref ≠ true ∧ argumentPathSegments path = [argumentLiteralKey ref]

/-- Every key has a reference; two references that resolve alike over all arguments are one, or a key and the path of
that one segment; and a path of plain segments resolves to what the walk by them ends at. -/
theorem argument_references_unambiguous :
    (∀ key : Bytes, ∃ ref, ∀ args, resolveArgument args ref = args.lookup key) ∧
    (∀ ref ref', ¬ Malformed ref → ¬ Malformed ref' →
      (∀ args, resolveArgument args ref = resolveArgument args ref') →
      ref = ref' ∨ OneSegment ref ref' ∨ OneSegment ref' ref) ∧
    ∀ segs, segs ≠ [] → (∀ seg ∈ segs, seg ≠ [] ∧ (46 : UInt8) ∉ seg) → ∀ args value,
      resolveArgument args (lit "$." ++ [46].intercalate segs) = some value ↔ Reaches (.object args) segs value := by
  refine ⟨?_, ?_, ?_⟩
  · intro key
    obtain ⟨ref, literal, rfl⟩ := key_named key
    exact ⟨ref, fun args => by simp [resolveArgument, literal]⟩
  · intro ref ref' legal legal' alike
    have same := addressed_eq legal legal' alike
    unfold addressed at same
    by_cases path : isArgumentPath ref = true
    · by_cases path' : isArgumentPath ref' = true
      · rw [if_pos path, if_pos path'] at same
        have split := not_and.mp legal path
        rw [← pathOf_argumentPathSegments split, same, pathOf_argumentPathSegments (same ▸ split)]
        exact .inl rfl
      · rw [if_pos path, if_neg path'] at same
        exact .inr (.inl ⟨path', same⟩)
    · by_cases path' : isArgumentPath ref' = true
      · rw [if_neg path, if_pos path'] at same
        exact .inr (.inr ⟨path, same.symm⟩)
      · rw [if_neg path, if_neg path'] at same
        exact .inl (argumentLiteralKey_inj path path' (List.singleton_inj.mp same))
  · intro segs nonempty plain args value
    obtain ⟨legal, keys⟩ := addressed_pathOf nonempty plain
    rw [← keys, ← resolveArgument_iff legal, keys]
    rfl

end Eunox.ArgumentPath
