import Eunox.Utf8
import Mathlib.Data.List.TakeWhile

/-! What a pattern of `path.Match` means: how it reads a name from front to back.
The matcher looks for a reading greedily, chunk by chunk; whatever it accepts has
one. -/
namespace PathPattern
open ByteString Utf8

/-- The class after its opening bracket: whether it takes the rune, and the
pattern after its closing bracket. -/
def classTakes (rune : ℕ) (chunk : Bytes) : Option (Bool × Bytes) :=
  let negated : Bool := chunk.head? = some 94
  (classRanges rune (chunk.length + 1) (if negated then chunk.tail else chunk) false false).map
    fun (held, rest) => (held != negated, rest)

/-- A reading of a name by a pattern. -/
inductive Reads : Bytes → Bytes → Prop where
  | done : Reads [] []
  | star {pattern run name : Bytes} (inside : 47 ∉ run) (rest : Reads pattern name) :
      Reads (42 :: pattern) (run ++ name)
  | any {pattern name : Bytes} (solid : name ≠ []) (inside : name.head? ≠ some 47)
      (rest : Reads pattern (name.drop (decodeRune name).2)) : Reads (63 :: pattern) name
  | set {chunk pattern name : Bytes} (solid : name ≠ [])
      (taken : classTakes (decodeRune name).1 chunk = some (true, pattern))
      (rest : Reads pattern (name.drop (decodeRune name).2)) : Reads (91 :: chunk) name
  | escaped {pattern name : Bytes} (byte : UInt8) (rest : Reads pattern name) :
      Reads (92 :: byte :: pattern) (byte :: name)
  | plain {pattern name : Bytes} {byte : UInt8} (literal : byte ∉ [42, 63, 91, 92])
      (rest : Reads pattern name) : Reads (byte :: pattern) (byte :: name)

/-! Runes at the front of a name. -/

theorem decodeRune_taken (solid : s ≠ []) : (s.take (decodeRune s).2).length = (decodeRune s).2 := by
  cases s with
  | nil => exact absurd rfl solid
  | cons byte rest =>
    rcases decodeRune_cases byte rest with ⟨error, -⟩ | encodes
    · simp [error]
    · have decoded := encodes.decodes ((byte :: rest).drop (decodeRune (byte :: rest)).2)
      rw [List.take_append_drop] at decoded
      exact (congrArg Prod.snd decoded).symm

/-- A byte of a rune other than its first is no ASCII byte. -/
theorem decodeRune_tail {s : Bytes} (mem : byte ∈ (s.take (decodeRune s).2).tail) : ¬ byte < 0x80 := by
  cases s with
  | nil => simp at mem
  | cons lead rest =>
    rcases decodeRune_cases lead rest with ⟨error, -⟩ | encodes
    · simp [error] at mem
    exact UInt8.not_lt.mpr (encodes.tail_high mem)

theorem decodeRune_inside {s : Bytes} (inside : s.head? ≠ some 47) : 47 ∉ s.take (decodeRune s).2 := by
  intro mem
  cases s with
  | nil => simp at mem
  | cons lead rest =>
    obtain ⟨tail, front⟩ := decodeRune_front lead rest
    have high := @decodeRune_tail 47 (lead :: rest)
    rw [front] at mem high
    rcases List.mem_cons.mp mem with rfl | later
    · exact inside rfl
    · exact high later (by decide)

/-- A rune does not reach over a slash: what follows one does not change it. -/
theorem decodeRune_cut (solid : word ≠ []) : decodeRune (word ++ 47 :: rest) = decodeRune word := by
  cases word with
  | nil => exact absurd rfl solid
  | cons lead tail =>
    rcases decodeRune_cases lead tail with ⟨error, high⟩ | encodes
    · rcases decodeRune_cases lead (tail ++ 47 :: rest) with ⟨error', -⟩ | encodes
      · rw [List.cons_append, error', error]
      -- the rune would lie in the word, which would decode to it
      generalize (decodeRune (lead :: (tail ++ 47 :: rest))).2 = n at encodes
      have short : n ≤ (lead :: tail).length := by
        by_contra long
        have mem : 47 ∈ ((lead :: (tail ++ 47 :: rest)).take n).tail := by
          refine List.mem_of_getElem? (i := tail.length) ?_
          simp only [List.length_cons, not_le] at long
          simp [long]
        have held := encodes.continues 47 mem
        exact absurd held (by decide)
      have same : (lead :: (tail ++ 47 :: rest)).take n = (lead :: tail).take n := by
        rw [← List.cons_append, List.take_append_of_le_length short]
      rw [same] at encodes
      have direct := encodes.decodes ((lead :: tail).drop n)
      rw [List.take_append_drop, error] at direct
      exact absurd direct.symm encodes.proper
    · have here := encodes.decodes ((lead :: tail).drop (decodeRune (lead :: tail)).2 ++ 47 :: rest)
      have there := encodes.decodes ((lead :: tail).drop (decodeRune (lead :: tail)).2)
      rw [← List.append_assoc, List.take_append_drop] at here
      rw [List.take_append_drop] at there
      exact here.trans there.symm

/-! Classes. -/

/-- The text of a class up to its closing bracket: no bracket closes it before,
unless escaped. -/
inductive ClassBody : Bytes → Prop where
  | close : ClassBody [93]
  | byte {body : Bytes} {byte : UInt8} (slash : byte ≠ 92) (bracket : byte ≠ 93)
      (rest : ClassBody body) : ClassBody (byte :: body)
  | escape {body : Bytes} (byte : UInt8) (rest : ClassBody body) : ClassBody (92 :: byte :: body)

theorem ClassBody.word {word body : Bytes} (plain : ∀ byte ∈ word, byte ≠ 92 ∧ byte ≠ 93)
    (rest : ClassBody body) : ClassBody (word ++ body) := by
  induction word with
  | nil => exact rest
  | cons byte word ih =>
    have here := plain byte (.head _)
    exact .byte here.1 here.2 (ih fun other mem => plain other (.tail _ mem))

theorem ClassBody.ne_nil (held : ClassBody body) : body ≠ [] := by
  cases held <;> simp

/-- A rune's bytes after its first are neither a backslash nor a bracket. -/
theorem encodes_tail_plain (encodes : Encodes word rune) : ∀ byte ∈ word.tail, byte ≠ 92 ∧ byte ≠ 93 := by
  intro byte mem
  have held := encodes.continues byte mem
  exact ⟨fun same => absurd (same ▸ held) (by decide), fun same => absurd (same ▸ held) (by decide)⟩

/-- What a rune of a class takes of the pattern: its bytes, with a backslash
before them where escaped. -/
inductive EscWord (rune : ℕ) : Bytes → Prop where
  | plain {word : Bytes} (encodes : Encodes word rune) (head : ∀ byte ∈ word.head?,
      byte ≠ 45 ∧ byte ≠ 93 ∧ byte ≠ 92) : EscWord rune word
  | escaped {word : Bytes} (encodes : Encodes word rune) : EscWord rune (92 :: word)

theorem EscWord.body {rune : ℕ} {front body : Bytes} (word : EscWord rune front)
    (rest : ClassBody body) : ClassBody (front ++ body) := by
  cases word with
  | plain encodes head =>
    refine rest.word fun byte mem => ?_
    cases front with
    | nil => simp at mem
    | cons lead tail =>
      rcases List.mem_cons.mp mem with rfl | later
      · have := head byte (by simp)
        exact ⟨this.2.2, this.2.1⟩
      · exact encodes_tail_plain encodes byte later
  | escaped encodes =>
    rename_i word
    cases word with
    | nil => exact absurd rfl encodes.nonempty
    | cons lead tail => exact .escape lead (rest.word (encodes_tail_plain encodes))

theorem getEsc_word (word : EscWord rune front) (more : rest ≠ []) : getEsc (front ++ rest) = some (rune, rest) := by
  have solid : rest.isEmpty = false := by simpa using more
  cases word with
  | plain encodes head =>
    cases front with
    | nil => exact absurd rfl encodes.nonempty
    | cons lead tail =>
      have decoded := encodes.decodes rest
      obtain ⟨dash, bracket, slash⟩ := head lead (by simp)
      have proper : ¬ (rune = runeError ∧ (lead :: tail).length = 1) := fun same =>
        encodes.proper (Prod.ext same.1 same.2)
      simp only [List.cons_append] at decoded ⊢
      simp only [getEsc, dash, bracket, slash, decide_false, Bool.or_self, Bool.false_eq_true,
        ↓reduceIte, List.isEmpty_cons, decoded, Bool.and_eq_true, decide_eq_true_eq, proper]
      rw [← List.cons_append, List.drop_left, solid]
      simp
  | escaped encodes =>
    rename_i word
    have decoded := encodes.decodes rest
    have proper : ¬ (rune = runeError ∧ word.length = 1) := fun same => encodes.proper (Prod.ext same.1 same.2)
    have more' : (word ++ rest).isEmpty = false := by simp [more]
    simp only [List.cons_append, getEsc, ↓reduceIte, more', decoded, Bool.and_eq_true,
      decide_eq_true_eq, proper, List.drop_left, solid]
    simp

theorem getEsc_eq_some (read : getEsc chunk = some (rune, rest)) :
    ∃ front, EscWord rune front ∧ chunk = front ++ rest ∧ rest ≠ [] := by
  -- what is left once the escape is dropped is a rune and more
  have inner {text : Bytes} (solid : text ≠ [])
      (proper : ¬ ((decodeRune text).1 = runeError ∧ (decodeRune text).2 = 1)) :
      Encodes (text.take (decodeRune text).2) (decodeRune text).1 := by
    cases text with
    | nil => exact absurd rfl solid
    | cons lead tail =>
      rcases decodeRune_cases lead tail with ⟨error, -⟩ | encodes
      · exact absurd ⟨by rw [error], by rw [error]⟩ proper
      · exact encodes
  have finish {text : Bytes} (solid : text ≠ [])
      (read : (if (decodeRune text).1 = runeError && (decodeRune text).2 = 1 then none
        else if (text.drop (decodeRune text).2).isEmpty then none
        else some ((decodeRune text).1, text.drop (decodeRune text).2)) = some (rune, rest)) :
      Encodes (text.take (decodeRune text).2) rune ∧ rest = text.drop (decodeRune text).2 ∧ rest ≠ [] := by
    simp only [Bool.and_eq_true, decide_eq_true_eq] at read
    split at read
    · cases read
    rename_i proper
    split at read
    · cases read
    rename_i more
    simp only [Option.some.injEq, Prod.mk.injEq] at read
    obtain ⟨rfl, rfl⟩ := read
    exact ⟨inner solid proper, rfl, by simpa using more⟩
  cases chunk with
  | nil => cases read
  | cons byte tail =>
    simp only [getEsc, Bool.or_eq_true, decide_eq_true_eq] at read
    split at read
    · cases read
    rename_i lead
    by_cases slash : byte = 92
    · subst slash
      simp only [↓reduceIte] at read
      split at read
      · cases read
      rename_i solid
      obtain ⟨encodes, rfl, more⟩ := finish (by simpa using solid) read
      exact ⟨_, .escaped encodes, by simp, more⟩
    · simp only [slash, ↓reduceIte, List.isEmpty_cons, Bool.false_eq_true] at read
      obtain ⟨encodes, rfl, more⟩ := finish (by simp) read
      refine ⟨_, .plain encodes fun other mem => ?_, (List.take_append_drop _ _).symm, more⟩
      obtain ⟨after, front⟩ := decodeRune_front byte tail
      obtain rfl : byte = other := by simpa [front] using mem
      exact ⟨fun same => lead (.inl same), fun same => lead (.inr same), slash⟩

theorem EscWord.ne_nil (word : EscWord rune front) : front ≠ [] := by
  cases word with
  | plain encodes => exact encodes.nonempty
  | escaped => simp

/-- The ranges read a class to its bracket, whatever follows. -/
theorem classRanges_frame {chunk rest : Bytes}
    (read : classRanges rune bound chunk begun held = some (result, rest)) :
    ∃ body, ClassBody body ∧ chunk = body ++ rest ∧ ∀ other bound', body.length ≤ bound' →
      classRanges rune bound' (body ++ other) begun held = some (result, other) := by
  induction bound generalizing chunk begun held with
  | zero => cases read
  | succ bound ih =>
    simp only [classRanges, Bool.and_eq_true, decide_eq_true_eq] at read
    split at read
    · rename_i closed
      obtain ⟨closing, begun⟩ := closed
      cases chunk with
      | nil => cases closing
      | cons byte tail =>
        obtain rfl : byte = 93 := by simpa using closing
        simp only [Option.some.injEq, Prod.mk.injEq, List.tail_cons] at read
        obtain ⟨rfl, rfl⟩ := read
        refine ⟨[93], .close, rfl, fun other bound' enough => ?_⟩
        obtain ⟨n, rfl⟩ : ∃ n, bound' = n + 1 := ⟨bound' - 1, by simp at enough; omega⟩
        simp [classRanges, begun]
    · rename_i opened
      cases first : getEsc chunk with
      | none => simp [first] at read
      | some pair =>
        obtain ⟨low, tail⟩ := pair
        obtain ⟨front, word, rfl, more⟩ := getEsc_eq_some first
        have solid := word.ne_nil
        have sameHead (other : Bytes) : (front ++ other).head? = front.head? :=
          List.head?_append_of_ne_nil _ solid
        rw [sameHead] at opened
        simp only [first] at read
        split at read
        · rename_i dash
          obtain ⟨tail', rfl⟩ := List.head?_eq_some_iff.mp dash
          simp only [List.tail_cons] at read
          cases second : getEsc tail' with
          | none => simp [second] at read
          | some pair =>
            obtain ⟨high, tail⟩ := pair
            obtain ⟨front', word', rfl, more'⟩ := getEsc_eq_some second
            simp only [second] at read
            obtain ⟨body, closed, rfl, reads⟩ := ih read
            refine ⟨front ++ 45 :: (front' ++ body),
              word.body (.byte (by decide) (by decide) (word'.body closed)), by simp,
              fun other bound' enough => ?_⟩
            simp only [List.length_append, List.length_cons] at enough
            obtain ⟨n, rfl⟩ : ∃ n, bound' = n + 1 := ⟨bound' - 1, by omega⟩
            rw [List.append_assoc]
            simp only [classRanges, sameHead, Bool.and_eq_true, decide_eq_true_eq, opened,
              ↓reduceIte, List.cons_append, List.append_assoc,
              getEsc_word word (List.cons_ne_nil _ _), List.head?_cons, List.tail_cons,
              getEsc_word word' (List.append_ne_nil_of_left_ne_nil closed.ne_nil other)]
            exact reads other n (by omega)
        · rename_i dash
          obtain ⟨body, closed, rfl, reads⟩ := ih read
          refine ⟨front ++ body, word.body closed, by simp, fun other bound' enough => ?_⟩
          have size := List.length_pos_of_ne_nil solid
          simp only [List.length_append] at enough
          obtain ⟨n, rfl⟩ : ∃ n, bound' = n + 1 := ⟨bound' - 1, by omega⟩
          rw [List.head?_append_of_ne_nil _ closed.ne_nil] at dash
          have dash' : ¬ (body ++ other).head? = some 45 := by rwa [List.head?_append_of_ne_nil _ closed.ne_nil]
          rw [List.append_assoc]
          simp only [classRanges, sameHead, Bool.and_eq_true, decide_eq_true_eq, opened, ↓reduceIte,
            getEsc_word word (List.append_ne_nil_of_left_ne_nil closed.ne_nil other), dash']
          exact reads other n (by omega)

theorem classTakes_frame (taken : classTakes rune chunk = some (result, rest)) :
    ∃ body, ClassBody body ∧ chunk = body ++ rest ∧
      ∀ other, classTakes rune (body ++ other) = some (result, other) := by
  unfold classTakes at taken
  dsimp only at taken
  obtain ⟨⟨held, rest'⟩, read, same⟩ := Option.map_eq_some_iff.mp taken
  simp only [Prod.mk.injEq] at same
  obtain ⟨rfl, rfl⟩ := same
  obtain ⟨body, closed, whole, reads⟩ := classRanges_frame read
  by_cases negated : chunk.head? = some 94
  · obtain ⟨tail, rfl⟩ := List.head?_eq_some_iff.mp negated
    simp only [List.head?_cons, decide_true, ↓reduceIte, List.tail_cons] at whole ⊢
    refine ⟨94 :: body, .byte (by decide) (by decide) closed, by simp [whole], fun other => ?_⟩
    have read' := reads other ((94 :: (body ++ other)).length + 1) (by simp; omega)
    simp only [classTakes, List.cons_append, List.head?_cons, decide_true, ↓reduceIte,
      List.tail_cons, read', Option.map_some]
  · simp only [negated, decide_false, Bool.false_eq_true, ↓reduceIte] at whole reads ⊢
    refine ⟨body, closed, whole, fun other => ?_⟩
    rw [whole, List.head?_append_of_ne_nil _ closed.ne_nil] at negated
    have first : (body ++ other).head? ≠ some 94 := by rwa [List.head?_append_of_ne_nil _ closed.ne_nil]
    have read' := reads other ((body ++ other).length + 1) (by simp; omega)
    simp only [classTakes, first, decide_false, Bool.false_eq_true, ↓reduceIte, read', Option.map_some]

/-! What the matcher accepts has a reading. -/

/-- A match that has failed stays failed. -/
theorem matchChunk_failed (bound : ℕ) (chunk left : Bytes) : matchChunk bound chunk none ≠ some (some left) := by
  generalize failed : (none : Option Bytes) = text
  fun_induction matchChunk bound chunk text with
  | case1 | case2 => simp [← failed]
  | case3 | case6 => simp
  | case4 _ _ _ text _ _ _ _ _ ih =>
    refine ih ?_
    split
    · rfl
    · simp [text, ← failed]
  | case5 _ _ _ ih => exact ih (by simp [← failed])
  | case7 _ _ _ _ ih | case8 _ _ _ _ _ _ _ _ ih => exact ih (by simp [← failed, dropByte])

theorem dropByte_eq_some (dropped : dropByte byte (some name) = some left) : name = byte :: left := by
  cases name with
  | nil => cases dropped
  | cons first rest =>
    simp only [dropByte, Option.bind_some, List.head?_cons, Option.some.injEq, List.tail_cons,
      Option.ite_none_right_eq_some] at dropped
    rw [dropped.1, dropped.2]

/-- A match goes on after a byte of the pattern only if the name starts with it. -/
theorem matchChunk_dropByte (matched : matchChunk bound chunk (dropByte byte (some name)) = some (some left)) :
    ∃ tail, name = byte :: tail ∧ dropByte byte (some name) = some tail := by
  cases dropped : dropByte byte (some name) with
  | none =>
    rw [dropped] at matched
    exact absurd matched (matchChunk_failed _ _ _)
  | some tail => exact ⟨tail, dropByte_eq_some dropped, rfl⟩

/-- A chunk that matches reads what it takes, and a star in it reads itself. -/
theorem Reads.byte {byte : UInt8} (literal : byte ∉ [63, 91, 92]) (rest : Reads pattern name) :
    Reads (byte :: pattern) (byte :: name) := by
  by_cases star : byte = 42
  · subst star
    have inside : (47 : UInt8) ∉ [(42 : UInt8)] := by decide
    exact .star inside rest
  · refine .plain ?_ rest
    simp only [List.mem_cons, List.not_mem_nil, or_false, not_or] at literal ⊢
    exact ⟨star, literal⟩

theorem matchChunk_reads (enough : chunk.length ≤ bound)
    (matched : matchChunk bound chunk (some name) = some (some left)) (reads : Reads rest left) :
    Reads (chunk ++ rest) name := by
  generalize start : some name = text at matched
  fun_induction matchChunk bound chunk text generalizing name with
  | case1 chunk =>
    obtain rfl : chunk = [] := by simpa using enough
    obtain rfl : name = left := by simpa [← start] using matched
    exact reads
  | case2 =>
    obtain rfl : name = left := by simpa [← start] using matched
    exact reads
  | case3 => cases matched
  | case4 bound chunk outer text rune negated held tail ranges =>
    rename_i ih
    by_cases failed : held = negated
    · rw [if_pos failed] at matched
      exact absurd matched (matchChunk_failed _ _ _)
    · rw [if_neg failed] at matched
      by_cases empty : name = []
      · simp only [text, ← start, empty, Option.filter_some, List.isEmpty_nil, Bool.not_true,
          Bool.false_eq_true, ↓reduceIte, Option.map_none] at matched
        exact absurd matched (matchChunk_failed _ _ _)
      · have here : text = some name := by simp [text, ← start, empty]
        have taken : classTakes (decodeRune name).1 chunk = some (true, tail) := by
          simp only [rune, negated, here, Option.map_some, Option.getD_some] at ranges failed
          simp only [classTakes, ranges, Option.map_some, Option.some.injEq, Prod.mk.injEq, and_true, bne_iff_ne]
          exact failed
        obtain ⟨body, -, rfl, takes⟩ := classTakes_frame taken
        have short : tail.length ≤ bound := by simp at enough; omega
        rw [List.cons_append, List.append_assoc]
        exact .set empty (takes (tail ++ rest))
          (ih short (by rw [if_neg failed, here]; rfl) (by rw [if_neg failed]; exact matched))
  | case5 bound chunk text ih =>
    rw [← start, Option.bind_some] at matched
    split at matched
    · exact absurd matched (matchChunk_failed _ _ _)
    rename_i inside
    simp only [Bool.or_eq_true, List.isEmpty_iff, decide_eq_true_eq, not_or] at inside
    have moved : (text.bind fun s => if s.isEmpty || s.head? = some 47 then none
        else some (s.drop (decodeRune s).2)) = some (name.drop (decodeRune name).2) := by
      simp [← start, inside.1, inside.2]
    exact .any inside.1 inside.2 (ih (by simpa using enough) moved.symm (by rw [moved]; exact matched))
  | case6 => cases matched
  | case7 bound byte chunk text ih =>
    subst start
    obtain ⟨tail, rfl, dropped⟩ := matchChunk_dropByte matched
    exact .escaped byte (ih (by simp at enough; omega) dropped.symm matched)
  | case8 bound byte chunk text set_ any_ lone escape ih =>
    subst start
    obtain ⟨tail, rfl, dropped⟩ := matchChunk_dropByte matched
    refine .byte ?_ (ih (by simpa using enough) dropped.symm matched)
    simp only [List.mem_cons, List.not_mem_nil, or_false, not_or]
    refine ⟨any_, set_, ?_⟩
    -- a lone backslash is an error and one before a byte an escape
    rintro rfl
    cases chunk with
    | nil => exact lone rfl rfl
    | cons byte tail => exact escape byte tail rfl rfl

theorem chunkEnd_append (inRange : Bool) (pattern : Bytes) :
    (chunkEnd inRange pattern).1 ++ (chunkEnd inRange pattern).2 = pattern := by
  fun_induction chunkEnd inRange pattern with
  | case1 => rfl
  | case2 inRange escaped rest chunk after split ih =>
    rw [split] at ih
    simp [ih]
  | case3 => rfl
  | case4 inRange byte rest _ _ chunk after split ih =>
    rw [split] at ih
    simp [ih]

theorem chunkEnd_solid (literal : byte ≠ 42) (rest : Bytes) : (chunkEnd false (byte :: rest)).1 ≠ [] := by
  unfold chunkEnd
  split
  · simp_all
  · simp
  · rename_i same
    obtain ⟨rfl, rfl⟩ := List.cons.inj same
    simp [literal]

/-- A pattern is stars, the chunk and the rest. -/
theorem scanChunk_spec (pattern : Bytes) :
    ∃ stars, pattern = List.replicate stars 42 ++ ((scanChunk pattern).2.1 ++ (scanChunk pattern).2.2) ∧
      ((scanChunk pattern).1 = true ↔ stars ≠ 0) ∧
      ((scanChunk pattern).2.1 = [] → (scanChunk pattern).2.2 = []) := by
  have parts := @List.takeWhile_append_dropWhile _ (· == (42 : UInt8)) pattern
  have front : pattern.takeWhile (· == 42) = List.replicate (pattern.takeWhile (· == 42)).length 42 :=
    List.eq_replicate_of_mem fun byte mem => by simpa using List.mem_takeWhile_imp mem
  refine ⟨(pattern.takeWhile (· == 42)).length, ?_, ?_, ?_⟩
  · rw [← front, scanChunk]
    dsimp only
    rw [chunkEnd_append, parts]
  · have size := congrArg List.length parts
    rw [List.length_append] at size
    simp only [scanChunk, decide_eq_true_eq]
    omega
  · intro empty
    simp only [scanChunk] at empty ⊢
    cases body : pattern.dropWhile (· == 42) with
    | nil => rfl
    | cons byte rest =>
      have literal : byte ≠ 42 := by
        have head := List.head?_dropWhile_not (· == (42 : UInt8)) pattern
        rw [body] at head
        simpa using head
      rw [body] at empty
      exact absurd empty (chunkEnd_solid literal rest)

theorem Reads.stars {stars : ℕ} (inside : 47 ∉ run) (starless : stars = 0 → run = []) (rest : Reads pattern name) :
    Reads (List.replicate stars 42 ++ pattern) (run ++ name) := by
  induction stars generalizing run with
  | zero => simpa [starless rfl] using rest
  | succ stars ih =>
    rw [List.replicate_succ, List.cons_append]
    exact .star inside (ih List.not_mem_nil fun _ => rfl)

theorem skipTo_split (skipped : skipTo chunk last name = some (some left)) :
    ∃ run tail, name = run ++ tail ∧ 47 ∉ run ∧ chunkAt chunk tail = some (some left) := by
  induction name with
  | nil => simp [skipTo] at skipped
  | cons byte name ih =>
    have later (skipped : skipTo chunk last name = some (some left)) (inside : byte ≠ 47) :
        ∃ run tail, byte :: name = run ++ tail ∧ 47 ∉ run ∧ chunkAt chunk tail = some (some left) := by
      obtain ⟨run, tail, rfl, clear, here⟩ := ih skipped
      exact ⟨byte :: run, tail, rfl, by simp [clear, inside.symm], here⟩
    unfold skipTo at skipped
    split at skipped
    · simp at skipped
    rename_i inside
    split at skipped
    · cases skipped
    · rename_i rest here
      split at skipped
      · exact later skipped inside
      · simp only [Option.some.injEq] at skipped
        exact ⟨[byte], name, rfl, by simpa using Ne.symm inside, skipped ▸ here⟩
    · exact later skipped inside

theorem matchFrom_reads (enough : pattern.length ≤ bound) (matched : matchFrom bound pattern name = some true) :
    Reads pattern name := by
  induction bound generalizing pattern name with
  | zero =>
    obtain rfl : pattern = [] := by simpa using enough
    obtain rfl : name = [] := by simpa [matchFrom] using matched
    exact .done
  | succ bound ih =>
    by_cases empty : pattern = []
    · subst empty
      obtain rfl : name = [] := by simpa [matchFrom] using matched
      exact .done
    have solid : pattern.isEmpty = false := by simpa using empty
    obtain ⟨stars, whole, starred, ends⟩ := scanChunk_spec pattern
    unfold matchFrom at matched
    rw [solid, if_neg Bool.false_ne_true] at matched
    generalize scanChunk pattern = scanned at *
    obtain ⟨star, chunk, rest⟩ := scanned
    simp only at whole starred ends matched
    have short : rest.length ≤ bound := by
      have size := congrArg List.length whole
      simp only [List.length_append, List.length_replicate] at size
      have progress : stars ≠ 0 ∨ chunk ≠ [] := by
        by_contra stuck
        simp only [ne_eq, not_or, not_not] at stuck
        rw [stuck.1, stuck.2, ends stuck.2] at whole
        exact empty whole
      rcases progress with progress | progress
      · omega
      · have := List.length_pos_of_ne_nil progress
        omega
    rw [whole]
    by_cases trailing : star = true ∧ chunk = []
    · obtain ⟨rfl, rfl⟩ := trailing
      obtain rfl := ends rfl
      simp only [List.isEmpty_nil, Bool.and_self, ↓reduceIte, Option.some.injEq,
        Bool.not_eq_true', List.contains_eq_mem, decide_eq_false_iff_not] at matched
      have read : Reads (List.replicate stars 42 ++ []) (name ++ []) :=
        .stars matched (fun zero => absurd zero (starred.mp rfl)) .done
      simpa using read
    · rw [if_neg (by simpa using trailing)] at matched
      cases here : chunkAt chunk name with
      | none => simp [here] at matched
      | some found =>
        simp only [here] at matched
        cases kept : found.filter fun left => left.isEmpty || !rest.isEmpty with
        | some left =>
          simp only [kept] at matched
          obtain ⟨rfl, -⟩ := Option.filter_eq_some_iff.mp kept
          have read := matchChunk_reads le_rfl here (ih short matched)
          exact Reads.stars List.not_mem_nil (fun _ => rfl) read
        | none =>
          simp only [kept] at matched
          by_cases skips : star = true
          · rw [if_pos skips] at matched
            cases skipped : skipTo chunk rest.isEmpty name with
            | none => simp [skipped] at matched
            | some found =>
              cases found with
              | none => simp [skipped] at matched
              | some left =>
                simp only [skipped] at matched
                obtain ⟨run, tail, rfl, inside, there⟩ := skipTo_split skipped
                exact Reads.stars inside (fun zero => absurd zero (starred.mp skips))
                  (matchChunk_reads le_rfl there (ih short matched))
          · simp [skips] at matched

/-- What `path.Match` accepts has a reading. -/
theorem pathMatch_reads (matched : pathMatch pattern name = some true) : Reads pattern name :=
  matchFrom_reads le_rfl matched

/-! Segments. -/

/-- `strings.Split` at the slash. -/
def segments (s : Bytes) : List Bytes := s.splitOn 47

/-- A pattern cut at the slashes it asks for: those outside its classes. The flag
says whether the text before left a class open. -/
def patternSegments : Bool → Bytes → List Bytes
  | _, [] => [[]]
  | inClass, 92 :: escaped :: rest =>
    if !inClass && escaped = 47 then [] :: patternSegments inClass rest
    else (patternSegments inClass rest).modifyHead (92 :: escaped :: ·)
  | inClass, byte :: rest =>
    if !inClass && byte = 47 then [] :: patternSegments inClass rest
    else (patternSegments (if byte = 91 then true else if byte = 93 then false else inClass)
      rest).modifyHead (byte :: ·)

theorem segments_nil : segments [] = [[]] := rfl

theorem segments_slash (s : Bytes) : segments (47 :: s) = [] :: segments s := by
  simp [segments, List.splitOn, List.splitOnP_cons_eq_if_modifyHead]

theorem segments_append (inside : 47 ∉ run) (s : Bytes) :
    segments (run ++ s) = (segments s).modifyHead (run ++ ·) := by
  induction run with
  | nil =>
    rw [List.nil_append]
    cases segments s <;> rfl
  | cons byte run ih =>
    simp only [List.mem_cons, not_or] at inside
    have other : ¬ (byte == 47) = true := by simpa using Ne.symm inside.1
    have here := ih inside.2
    simp only [segments, List.splitOn] at here ⊢
    rw [List.cons_append, List.splitOnP_cons_eq_if_modifyHead, if_neg other, here]
    cases List.splitOnP (· == 47) s <;> rfl

theorem segments_single (inside : 47 ∉ s) : segments s = [s] := by
  simpa [segments_nil] using segments_append inside []

theorem segments_cut (inside : 47 ∉ first) (rest : Bytes) :
    segments (first ++ 47 :: rest) = first :: segments rest := by
  rw [segments_append inside, segments_slash]
  simp

/-- A text has no slash, or it is a segment, a slash and a text. -/
theorem segments_induction {motive : Bytes → Prop} (single : ∀ s, 47 ∉ s → motive s)
    (more : ∀ first rest, 47 ∉ first → motive rest → motive (first ++ 47 :: rest)) (s : Bytes) :
    motive s := by
  induction size : s.length using Nat.strong_induction_on generalizing s with
  | _ n ih =>
    cases found : cut 47 s with
    | none => exact single s (cut_eq_none.mp found)
    | some parts =>
      obtain ⟨rfl, inside⟩ := cut_eq_some.mp found
      refine more _ _ inside (ih parts.2.length ?_ _ rfl)
      rw [← size]
      simp
      omega

theorem segments_length (s : Bytes) : (segments s).length = s.count 47 + 1 := by
  induction s using segments_induction with
  | single s inside => simp [segments_single inside, List.count_eq_zero.mpr inside]
  | more first rest inside ih => simp [segments_cut inside, ih, List.count_eq_zero.mpr inside]

/-- The first segment is what stands before the first slash. -/
theorem segments_first (s : Bytes) :
    ∃ first more, segments s = first :: more ∧ (s = first ∨ ∃ rest, s = first ++ 47 :: rest) := by
  induction s using segments_induction with
  | single s inside => exact ⟨s, [], segments_single inside, .inl rfl⟩
  | more first rest inside => exact ⟨first, segments rest, segments_cut inside rest, .inr ⟨rest, rfl⟩⟩

/-- A class belongs to one segment. -/
theorem patternSegments_class (closed : ClassBody body) (rest : Bytes) :
    patternSegments true (body ++ rest) = (patternSegments false rest).modifyHead (body ++ ·) := by
  induction closed with
  | close => rw [List.singleton_append, patternSegments] <;> simp
  | byte slash bracket _ ih =>
    rename_i body byte _
    rw [List.cons_append, patternSegments]
    · simp only [Bool.not_true, Bool.false_and, Bool.false_eq_true, ↓reduceIte, bracket, ite_self]
      rw [ih]
      cases patternSegments false rest <;> simp
    · intro escaped tail same
      exact absurd same slash
  | escape byte _ ih =>
    rw [List.cons_append, List.cons_append, patternSegments]
    simp only [Bool.not_true, Bool.false_and, Bool.false_eq_true, ↓reduceIte]
    rw [ih]
    cases patternSegments false rest <;> simp

theorem patternSegments_plain (slash : byte ≠ 92) (solidus : byte ≠ 47) (opening : byte ≠ 91) (rest : Bytes) :
    patternSegments false (byte :: rest) = (patternSegments false rest).modifyHead (byte :: ·) := by
  rw [patternSegments]
  · simp [solidus, opening]
  · intro escaped tail same
    exact absurd same slash

/-- The segments of a pattern against those of a name. Where their numbers agree,
each reads its own. -/
def Aligned (parts names : List Bytes) : Prop :=
  parts.length ≤ names.length ∧ (parts.length = names.length → List.Forall₂ Reads parts names)

theorem Aligned.slash (aligned : Aligned parts names) : Aligned ([] :: parts) ([] :: names) := by
  refine ⟨by simpa using aligned.1, fun same => .cons .done (aligned.2 ?_)⟩
  simpa using same

/-- One more slash in the name than the pattern asked for. -/
theorem Aligned.extra (aligned : Aligned parts names) : Aligned (parts.modifyHead f) (first :: names) := by
  have size := aligned.1
  refine ⟨by simpa using Nat.le_succ_of_le size, fun same => ?_⟩
  simp only [List.length_modifyHead, List.length_cons] at same
  omega

/-- More of the first segment on both sides. -/
theorem Aligned.first (aligned : Aligned parts (segments name)) (reads : ∀ part first, Reads part first →
      (name = first ∨ ∃ rest, name = first ++ 47 :: rest) → Reads (f part) (run ++ first)) :
    Aligned (parts.modifyHead f) ((segments name).modifyHead (run ++ ·)) := by
  obtain ⟨first, more, split, whole⟩ := segments_first name
  rw [split] at aligned ⊢
  refine ⟨by simpa using aligned.1, fun same => ?_⟩
  cases parts with
  | nil => simp at same
  | cons part parts =>
    cases aligned.2 (by simpa using same) with
    | cons here rest => exact .cons (reads part first here whole) rest

/-- A construct that takes the rune at the front of the name, wherever it may. -/
theorem Aligned.rune (solid : name ≠ []) (aligned : Aligned parts (segments (name.drop (decodeRune name).2)))
    (reads : ∀ part word, word ≠ [] → word.head? = name.head? → decodeRune word = decodeRune name →
      Reads part (word.drop (decodeRune word).2) → Reads (f part) word) :
    Aligned (parts.modifyHead f) (segments name) := by
  by_cases slash : name.head? = some 47
  · obtain ⟨rest, rfl⟩ := List.head?_eq_some_iff.mp slash
    have one : (decodeRune (47 :: rest)).2 = 1 := rfl
    rw [one] at aligned
    rw [segments_slash]
    exact aligned.extra
  · have inside := decodeRune_inside slash
    have parted := segments_append inside (name.drop (decodeRune name).2)
    rw [List.take_append_drop] at parted
    rw [parted]
    refine aligned.first fun part first here whole => ?_
    have size := decodeRune_taken solid
    obtain ⟨byte, tail, rfl⟩ := List.exists_cons_of_ne_nil solid
    obtain ⟨later, front⟩ := decodeRune_front byte tail
    set name := byte :: tail
    have word : name.take (decodeRune name).2 ++ first ≠ [] := by simp [front]
    have head : (name.take (decodeRune name).2 ++ first).head? = name.head? := by simp [front, name]
    have same : decodeRune (name.take (decodeRune name).2 ++ first) = decodeRune name := by
      rcases whole with rest | ⟨rest, after⟩
      · rw [← rest, List.take_append_drop]
      · rw [← decodeRune_cut word, List.append_assoc, ← after, List.take_append_drop]
    refine reads part _ word head same ?_
    rw [same, List.drop_left' size]
    exact here

theorem Reads.aligned (reads : Reads pattern name) : Aligned (patternSegments false pattern) (segments name) := by
  induction reads with
  | done => exact ⟨le_rfl, fun _ => .cons .done .nil⟩
  | star inside _ ih =>
    rw [patternSegments_plain (by decide) (by decide) (by decide), segments_append inside]
    exact ih.first fun part first here _ => .star inside here
  | any solid inside _ ih =>
    rw [patternSegments_plain (by decide) (by decide) (by decide)]
    exact ih.rune solid fun part word whole head _ here => .any whole (head ▸ inside) here
  | @set chunk pattern name solid taken _ ih =>
    obtain ⟨body, closed, rfl, takes⟩ := classTakes_frame taken
    have opened : patternSegments false (91 :: (body ++ pattern)) =
        (patternSegments false pattern).modifyHead (91 :: body ++ ·) := by
      rw [patternSegments]
      · simp only [Bool.not_false, Bool.true_and, decide_eq_true_eq, ↓reduceIte]
        rw [if_neg (by decide), patternSegments_class closed]
        cases patternSegments false pattern <;> simp
      · simp
    rw [opened]
    exact ih.rune solid fun part word whole _ same here => .set whole (by rw [same]; exact takes part) here
  | @escaped pattern name byte _ ih =>
    rw [patternSegments]
    by_cases slash : byte = 47
    · subst slash
      rw [segments_slash]
      exact ih.slash
    · have inside : (47 : UInt8) ∉ [byte] := by simpa using Ne.symm slash
      rw [if_neg (by simp [slash]), ← List.singleton_append, segments_append inside]
      exact ih.first fun part first here _ => .escaped byte here
  | @plain pattern name byte literal _ ih =>
    simp only [List.mem_cons, List.not_mem_nil, or_false, not_or] at literal
    by_cases slash : byte = 47
    · subst slash
      rw [segments_slash, patternSegments]
      · exact ih.slash
      · simp
    · have inside : (47 : UInt8) ∉ [byte] := by simpa using Ne.symm slash
      rw [patternSegments_plain literal.2.2.2 slash literal.2.2.1, ← List.singleton_append, segments_append inside]
      refine ih.first fun part first here _ => .plain ?_ here
      simpa using literal

end PathPattern
