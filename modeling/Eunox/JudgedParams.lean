import Eunox.RpcParams
import Eunox.JsonFold

/-! The params that are judged are the params that are forwarded: no reader of the same bytes finds
another value under a path of keys, however it matches keys and resolves repeated ones. -/
namespace Eunox
open ByteString JsonText

/-! The walk finds every repeated key. -/

section Walk
variable {fold : Bytes → Bytes}

/-- The innermost frame expects no key. -/
def Ready (stack : List Frame) : Prop := expectingKey stack = none

theorem walkKeys_some (clean : walkKeys fold fuel d stack = none) : ∃ less, fuel = less + 1 := by
  cases fuel with
  | zero => simp [walkKeys] at clean
  | succ less => exact ⟨less, rfl⟩

/-- A walk that stops at nothing goes past an opening bracket, which is then within the nesting limit. -/
theorem walkKeys_opening {d : Decoder} {bracket : Bracket} {s : Bytes}
    (tok : d.token = firstToken state stack (bracket.opening :: s)) (allowed : state.valueAllowed = true)
    (clean : walkKeys fold fuel d frames = none) :
    ∃ less, walkKeys fold less ⟨s, bracket.start, state :: stack⟩
      (⟨bracket = .curly, [], bracket = .curly⟩ :: frames) = none := by
  obtain ⟨less, rfl⟩ := walkKeys_some clean
  have opens : firstToken state stack (bracket.opening :: s) = openToken bracket state stack s := by
    cases bracket <;> rfl
  rw [walkKeys, tok, opens, openToken, allowed] at clean
  by_cases shallow : stack.length < maxNestingDepth
  · exact ⟨less, by simpa [shallow] using clean⟩
  · simp [shallow] at clean

theorem walkKeys_closing {d d' : Decoder} {frame : Frame} {stack : List Frame}
    (tok : d.token = .token (.closing bracket) d') (clean : walkKeys fold fuel d (frame :: stack) = none) :
    ∃ less, walkKeys fold less d' (markValueDone stack) = none := by
  obtain ⟨less, rfl⟩ := walkKeys_some clean
  rw [walkKeys, tok] at clean
  exact ⟨less, clean⟩

theorem walkKeys_scalar
    (tok : d.token = .token (.scalar text) d') (ready : Ready stack) (clean : walkKeys fold fuel d stack = none) :
    ∃ less, walkKeys fold less d' (markValueDone stack) = none := by
  obtain ⟨less, rfl⟩ := walkKeys_some clean
  refine ⟨less, ?_⟩
  rw [walkKeys, tok] at clean
  cases text with
  | string body => rwa [ready] at clean
  | _ => exact clean

theorem walkKeys_key
    (tok : d.token = .token (.scalar (.string body)) d') (clean : walkKeys fold fuel d (⟨true, seen, true⟩ :: stack) = none) :
    seen.lookup (fold (unquote body)) = none ∧ ∃ less, walkKeys fold less d'
      (⟨true, (fold (unquote body), unquote body) :: seen, false⟩ :: stack) = none := by
  obtain ⟨less, rfl⟩ := walkKeys_some clean
  rw [walkKeys, tok] at clean
  simp only [expectingKey, Bool.and_self, ↓reduceIte] at clean
  cases found : seen.lookup (fold (unquote body)) with
  | some prior => simp [found] at clean
  | none =>
    rw [found] at clean
    exact ⟨rfl, less, clean⟩

theorem closeToken_eq (rest : Bytes) (closable : bracket.closable state = true) :
    firstToken state (outer :: stack) (bracket.closing :: rest) =
      .token (.closing bracket) ⟨rest, outer.valueEnd, stack⟩ := by
  cases bracket <;> simp [firstToken, singleToken, Bracket.closing, closeToken, closable]

/-- The key of a member is one token. -/
theorem keyToken_eq (legal : StringBody body) (expected : state = .objectStart ∨ state = .objectKey) :
    firstToken state stack (34 :: (body ++ 34 :: rest)) = .token (.scalar (.string body)) ⟨rest, .objectColon, stack⟩ := by
  have text : (Text.string body).print ++ rest = 34 :: (body ++ 34 :: rest) := by simp [Text.print]
  have read := (read_complete (2 * ((Text.string body).print ++ rest).length)).1 0 (.string body) rest legal
    (by simp [Text.depth]) (by simp) (by simp)
  rw [text] at read
  rw [firstToken, singleToken, if_neg (by decide), if_neg (by decide), if_neg (by decide), if_neg (by decide),
    if_neg (by decide), if_pos (by simpa using expected), readScalar, read]

/-- Where an entry may start. -/
def EntryState : Bracket → TokenState → Prop
  | .square, state => state = .arrayStart ∨ state = .arrayValue
  | .curly, state => state = .objectStart ∨ state = .objectKey

def afterEntry : Bracket → TokenState
  | .square => .arrayComma
  | .curly => .objectComma

def afterComma : Bracket → TokenState
  | .square => .arrayValue
  | .curly => .objectKey

/-- The frame of a container between its entries. -/
def frameOf (bracket : Bracket) (seen : List (Bytes × Bytes)) : Frame := ⟨bracket = .curly, seen, bracket = .curly⟩

/-- What a member adds to the keys seen. -/
def addKey (fold : Bytes → Bytes) (label : Option Label) (seen : List (Bytes × Bytes)) : List (Bytes × Bytes) :=
  match label with
  | some label => (fold (unquote label.key), unquote label.key) :: seen
  | none => seen

def labelKeys (fold : Bytes → Bytes) (entries : List (Entry Text)) : List Bytes :=
  (entries.filterMap (·.label)).map fun label => fold (unquote label.key)

theorem printEntries_cons (entry : Entry Text) (more : List (Entry Text)) :
    printEntries (entry :: more) = entry.before ++ (printLabel entry.label ++ (entry.value.print ++
      (entry.after ++ printMore more))) := by
  obtain ⟨before, label, value, after⟩ := entry
  simp [printEntries, printEntry, printMore]

theorem entry_parts {entry : Entry Text} (legal : WellFormedEntry bracket entry) :
    AllSpace entry.before ∧ LabelFor bracket entry.label ∧ entry.value.WellFormed ∧ AllSpace entry.after := by
  obtain ⟨before, label, value, after⟩ := entry
  exact legal

theorem entry_ahead (legal : WellFormedEntry bracket entry) (rest : Bytes) :
    NoSpaceAhead (printLabel entry.label ++ (entry.value.print ++ rest)) :=
  fun byte head => (entry_head bracket entry.label (entry_parts legal).2.2.1 rest byte head).1

variable (fold) in
/-- The tokens of a value leave the frames as they were, with the value done, and its keys distinct. -/
def Walked (text : Text) : Prop :=
  ∀ ⦃fuel : ℕ⦄ ⦃d : Decoder⦄ ⦃state : TokenState⦄ ⦃stack : List TokenState⦄ ⦃frames : List Frame⦄ ⦃rest : Bytes⦄,
    d.token = firstToken state stack (text.print ++ rest) → state.valueAllowed = true →
    (∀ literal, text = .number literal → Delimited rest) → Ready frames → walkKeys fold fuel d frames = none →
    distinctKeys fold text = true ∧ ∃ less, walkKeys fold less ⟨rest, state.valueEnd, stack⟩ (markValueDone frames) = none

theorem walked_scalar (legal : text.WellFormed) (flat : text.depth = 0) : Walked fold text := by
  intro fuel d state stack frames rest tok allowed ends ready clean
  refine ⟨?_, walkKeys_scalar (tok.trans (firstToken_scalar legal flat ends allowed)) ready clean⟩
  cases text with
  | container => simp [Text.depth] at flat
  | _ => rfl

variable (fold) in
def WalkedEntry (bracket : Bracket) (entry : Entry Text) : Prop :=
  ∀ ⦃fuel : ℕ⦄ ⦃d : Decoder⦄ ⦃state : TokenState⦄ ⦃stack : List TokenState⦄ ⦃seen : List (Bytes × Bytes)⦄
    ⦃frames : List Frame⦄ ⦃rest : Bytes⦄,
    d.token = firstToken state stack (printLabel entry.label ++ (entry.value.print ++ (entry.after ++ rest))) →
    Delimited rest → EntryState bracket state → walkKeys fold fuel d (frameOf bracket seen :: frames) = none →
    (∀ label ∈ entry.label, seen.lookup (fold (unquote label.key)) = none) ∧ distinctKeysEntry fold entry = true ∧
      ∃ less, walkKeys fold less ⟨entry.after ++ rest, afterEntry bracket, stack⟩
        (frameOf bracket (addKey fold entry.label seen) :: frames) = none

theorem walked_entry (legal : WellFormedEntry bracket entry) (value : Walked fold entry.value) :
    WalkedEntry fold bracket entry := by
  obtain ⟨before, label, text, after⟩ := entry
  obtain ⟨-, labelled, valueLegal, space⟩ := entry_parts legal
  intro fuel d state stack seen frames rest tok delimited starts clean
  have ends : ∀ literal, text = .number literal → Delimited (after ++ rest) := fun _ _ => delimited.space space
  cases bracket with
  | square =>
    cases label with
    | some label => exact labelled.elim
    | none =>
      have allowed : state.valueAllowed = true ∧ state.valueEnd = .arrayComma := by
        rcases starts with rfl | rfl <;> exact ⟨rfl, rfl⟩
      obtain ⟨distinct, less, later⟩ := value tok allowed.1 ends (by rfl) clean
      rw [allowed.2] at later
      exact ⟨by simp, by rw [distinctKeysEntry, distinct], less, later⟩
  | curly =>
    cases label with
    | none => exact labelled.elim
    | some label =>
      obtain ⟨keyLegal, gapSpace, leadSpace⟩ := labelled
      have spelled : printLabel (some label) ++ (text.print ++ (after ++ rest)) =
          34 :: (label.key ++ 34 :: (label.gap ++ 58 :: (label.lead ++ (text.print ++ (after ++ rest))))) := by
        simp [printLabel, Label.print]
      rw [spelled, keyToken_eq keyLegal starts] at tok
      obtain ⟨fresh, less, later⟩ := walkKeys_key tok clean
      have ahead : NoSpaceAhead (text.print ++ (after ++ rest)) :=
        fun byte head => (entry_head .curly none valueLegal _ byte head).1
      have past := @token_past _ _ _ _ _ _ stack gapSpace leadSpace ahead (by decide : isSpace 58 = false)
        (by rfl : punctuation .objectColon 58 = some .objectValue)
      obtain ⟨distinct, less', done⟩ := value past rfl ends (by rfl) later
      exact ⟨by simpa using fresh, by rw [distinctKeysEntry, distinct], less', done⟩

variable (fold) in
/-- No key is one seen before it. -/
def Fresh (seen : List (Bytes × Bytes)) : List (Entry Text) → Prop
  | [] => True
  | entry :: more => (∀ label ∈ entry.label, seen.lookup (fold (unquote label.key)) = none) ∧
    Fresh (addKey fold entry.label seen) more

theorem Fresh.nodup (fresh : Fresh fold seen entries) :
    (labelKeys fold entries).Nodup ∧ ∀ key ∈ labelKeys fold entries, seen.lookup key = none := by
  induction entries generalizing seen with
  | nil => exact ⟨.nil, by simp [labelKeys]⟩
  | cons entry more ih =>
    obtain ⟨here, later⟩ := fresh
    obtain ⟨nodup, unseen⟩ := ih later
    cases label : entry.label with
    | none =>
      rw [label] at unseen
      rw [show labelKeys fold (entry :: more) = labelKeys fold more by simp [labelKeys, label]]
      exact ⟨nodup, unseen⟩
    | some label' =>
      have apart (key : Bytes) (mem : key ∈ labelKeys fold more) :
          key ≠ fold (unquote label'.key) ∧ seen.lookup key = none := by
        have absent := unseen key mem
        rw [label, addKey, List.lookup_cons] at absent
        split at absent
        · cases absent
        · rename_i differ
          exact ⟨by simpa using differ, absent⟩
      have split : labelKeys fold (entry :: more) = fold (unquote label'.key) :: labelKeys fold more := by
        simp [labelKeys, label]
      rw [split]
      exact ⟨List.nodup_cons.mpr ⟨fun mem => (apart _ mem).1 rfl, nodup⟩,
        List.forall_mem_cons.mpr ⟨here label' label, fun key mem => (apart key mem).2⟩⟩

variable (fold) in
def WalkedEntries (bracket : Bracket) (entry : Entry Text) (more : List (Entry Text)) : Prop :=
  ∀ ⦃fuel : ℕ⦄ ⦃d : Decoder⦄ ⦃state outer : TokenState⦄ ⦃stack : List TokenState⦄ ⦃seen : List (Bytes × Bytes)⦄
    ⦃frames : List Frame⦄ ⦃rest : Bytes⦄,
    d.token = firstToken state (outer :: stack) (printLabel entry.label ++ (entry.value.print ++ (entry.after ++
      (printMore more ++ bracket.closing :: rest)))) →
    EntryState bracket state → walkKeys fold fuel d (frameOf bracket seen :: frames) = none →
    Fresh fold seen (entry :: more) ∧ distinctKeysEntries fold (entry :: more) = true ∧
      ∃ less, walkKeys fold less ⟨rest, outer.valueEnd, stack⟩ (markValueDone frames) = none

/-- A closing bracket is one token wherever its container may end. -/
theorem token_closing {gap rest : Bytes} {state outer : TokenState} {stack : List TokenState}
    (space : AllSpace gap) (closable : bracket.closable state = true) :
    Decoder.token ⟨gap ++ bracket.closing :: rest, state, outer :: stack⟩ =
      .token (.closing bracket) ⟨rest, outer.valueEnd, stack⟩ := by
  have solid : isSpace bracket.closing = false ∧ bracket.closing ≠ 58 ∧ bracket.closing ≠ 44 := by
    cases bracket <;> decide
  rw [token_first space (by simp [NoSpaceAhead, solid]) (by simp [punctuation, solid]), closeToken_eq rest closable]

theorem walked_last (legal : WellFormedEntry bracket entry)
    (first : WalkedEntry fold bracket entry) : WalkedEntries fold bracket entry [] := by
  intro fuel d state outer stack seen frames rest tok starts clean
  obtain ⟨fresh, distinct, less, later⟩ := first tok (printMore_ahead bracket [] rest).1 starts clean
  have closable : bracket.closable (afterEntry bracket) = true := by cases bracket <;> rfl
  have closes := @token_closing bracket entry.after rest _ outer stack (entry_parts legal).2.2.2 closable
  exact ⟨⟨fresh, trivial⟩, by simp [distinctKeysEntries, distinct], walkKeys_closing closes later⟩

theorem walked_cons (legal : WellFormedEntry bracket entry) (nextLegal : WellFormedEntry bracket next)
    (first : WalkedEntry fold bracket entry) (others : WalkedEntries fold bracket next more) :
    WalkedEntries fold bracket entry (next :: more) := by
  intro fuel d state outer stack seen frames rest tok starts clean
  obtain ⟨fresh, distinct, less, later⟩ := first tok (printMore_ahead bracket (next :: more) rest).1 starts clean
  have ahead := entry_ahead nextLegal (next.after ++ (printMore more ++ bracket.closing :: rest))
  have comma : punctuation (afterEntry bracket) 44 = some (afterComma bracket) := by cases bracket <;> rfl
  have past := @token_past _ _ _ _ _ _ (outer :: stack) (entry_parts legal).2.2.2 (entry_parts nextLegal).1 ahead
    (by decide : isSpace 44 = false) comma
  have spelled : printMore (next :: more) ++ bracket.closing :: rest = 44 :: (next.before ++ (printLabel next.label ++
      (next.value.print ++ (next.after ++ (printMore more ++ bracket.closing :: rest))))) := by
    simp [printMore, printEntries_cons]
  rw [spelled] at later
  have again : EntryState bracket (afterComma bracket) := by cases bracket <;> exact .inr rfl
  obtain ⟨freshMore, distinctMore, done⟩ := others past again later
  exact ⟨⟨fresh, freshMore⟩, by rw [distinctKeysEntries, distinct, distinctMore, Bool.and_self], done⟩

theorem walked_empty (space : AllSpace gap) : Walked fold (.container bracket gap []) := by
  intro fuel d state stack frames rest tok allowed _ ready clean
  have spelled : (Text.container bracket gap []).print ++ rest = bracket.opening :: (gap ++ bracket.closing :: rest) := by
    simp [Text.print, printEntries]
  rw [spelled] at tok
  obtain ⟨less, later⟩ := walkKeys_opening tok allowed clean
  have closable : bracket.closable bracket.start = true := by cases bracket <;> rfl
  exact ⟨by simp [distinctKeys, distinctKeysEntries], walkKeys_closing (token_closing space closable) later⟩

theorem walked_container (legal : WellFormedEntry bracket entry) (entries : WalkedEntries fold bracket entry more) :
    Walked fold (.container bracket [] (entry :: more)) := by
  intro fuel d state stack frames rest tok allowed _ ready clean
  have spelled : (Text.container bracket [] (entry :: more)).print ++ rest =
      bracket.opening :: (entry.before ++ (printLabel entry.label ++ (entry.value.print ++ (entry.after ++
        (printMore more ++ bracket.closing :: rest))))) := by
    simp [Text.print, printEntries_cons]
  rw [spelled] at tok
  obtain ⟨less, later⟩ := walkKeys_opening tok allowed clean
  have plain (c : UInt8) : punctuation bracket.start c = none := by cases bracket <;> simp [punctuation, Bracket.start]
  have starts : EntryState bracket bracket.start := by cases bracket <;> exact .inl rfl
  have first := @token_first _ _ _ (state :: stack) (entry_parts legal).1
    (entry_ahead legal (entry.after ++ (printMore more ++ bracket.closing :: rest))) fun c _ => plain c
  obtain ⟨fresh, distinct, done⟩ := entries first starts later
  exact ⟨by rw [distinctKeys, distinct, Bool.and_true]; exact decide_eq_true fresh.nodup.1, done⟩

theorem walked_of_entries (legal : (Text.container bracket gap entries).WellFormed)
    (walked : ∀ entry more, entries = entry :: more → WalkedEntries fold bracket entry more) :
    Walked fold (.container bracket gap entries) := by
  obtain ⟨space, empty, entriesLegal⟩ := legal
  cases entries with
  | nil => exact walked_empty space
  | cons entry more =>
    obtain rfl := empty (by simp)
    exact walked_container entriesLegal.1 (walked entry more rfl)

mutual
theorem walked_text : ∀ text : Text, text.WellFormed → Walked fold text
  | .null, legal => walked_scalar legal (by simp [Text.depth])
  | .bool _, legal => walked_scalar legal (by simp [Text.depth])
  | .number _, legal => walked_scalar legal (by simp [Text.depth])
  | .string _, legal => walked_scalar legal (by simp [Text.depth])
  | .container bracket gap entries, legal =>
    walked_of_entries legal (walked_entries bracket entries (by rw [Text.WellFormed] at legal; exact legal.2.2))

theorem walked_member (bracket : Bracket) :
    ∀ entry : Entry Text, WellFormedEntry bracket entry → WalkedEntry fold bracket entry
  | ⟨_, _, value, _⟩, legal => walked_entry legal (walked_text value (entry_parts legal).2.2.1)

theorem walked_entries (bracket : Bracket) : ∀ entries : List (Entry Text), WellFormedEntries bracket entries →
    ∀ entry more, entries = entry :: more → WalkedEntries fold bracket entry more
  | [], _ => by
    intro entry more absurdity
    cases absurdity
  | first :: others, legal => by
    rintro entry more ⟨⟩
    have mem : WalkedEntry fold bracket first := walked_member bracket first legal.1
    have later := walked_entries bracket others legal.2
    cases others with
    | nil => exact walked_last legal.1 mem
    | cons next more => exact walked_cons legal.1 legal.2.1 mem (later next more rfl)
end

/-- What is accepted has distinct keys. -/
theorem decodeParams_distinct {raw : Bytes} (accepted : decodeParams fold raw = some text) :
    text.WellFormed ∧ distinctKeys fold text = true := by
  unfold decodeParams at accepted
  split at accepted
  · cases accepted
  rename_i clean
  obtain ⟨⟨text, rest⟩, read, rfl⟩ := Option.map_eq_some_iff.mp accepted
  obtain ⟨spelled, legal, -⟩ := readText_sound read
  refine ⟨legal, ?_⟩
  cases text with
  | container bracket gap entries =>
    have opens : (Text.container bracket gap entries).print ++ rest =
        bracket.opening :: (gap ++ (printEntries entries ++ bracket.closing :: rest)) := by simp [Text.print]
    have solid : isSpace bracket.opening = false ∧ ∀ token ∈ spaces, bracket.opening ∉ token := by
      cases bracket <;> decide
    have inside : bracket.opening ∈ raw := by
      rw [spelled, opens]
      simp
    have full : (trimSpace raw).isEmpty = false := by
      rw [List.isEmpty_eq_false_iff_exists_mem]
      exact ⟨_, mem_trimSpace solid.2 inside⟩
    have walk : walkKeys fold (raw.length + 1) ⟨raw, .topValue, []⟩ [] = none := by
      simpa [rejectDuplicateJSONKeys, full] using clean
    have first : Decoder.token ⟨raw, .topValue, []⟩ =
        firstToken .topValue [] ((Text.container bracket gap entries).print ++ rest) := by
      rw [spelled]
      refine token_first (readSpace_allSpace raw) ?_ (by simp [punctuation])
      rw [opens]
      simp [NoSpaceAhead, solid.1]
    exact (walked_text _ legal first rfl (by simp) (by rfl) walk).1
  | _ => simp [distinctKeys]

end Walk

/-! Readers. -/

/-- One value is in another, at any depth. -/
inductive Within (inner : Text) : Text → Prop
  | self : Within inner inner
  | entry {bracket : Bracket} {gap : Bytes} {entries : List (Entry Text)} {entry : Entry Text} :
    entry ∈ entries → Within inner entry.value → Within inner (.container bracket gap entries)

/-- How a reader takes the members of an object: which of their keys it takes for the one it looks for,
no two of them further apart than by case, and which of several such members wins. -/
structure Mode (table : SimpleFold) where
  binds : Bytes → Bytes → Bool
  folds : ∀ sought key, binds sought key = true → table.EqualFold sought key
  last : Bool

section Reader
variable {table : SimpleFold}

def Mode.exact (last : Bool) : Mode table where
  binds sought key := sought = key
  folds sought key same := by
    obtain rfl := of_decide_eq_true same
    exact .refl sought
  last := last

def Mode.folding (last : Bool) : Mode table where
  binds sought key := table.EqualFold sought key
  folds _ _ same := of_decide_eq_true same
  last := last

/-- `encoding/json` into a struct: a key goes to the field of that name, else to the first field its case
allows. -/
def Mode.struct (names : List Bytes) : Mode table where
  binds sought key := if key ∈ names then sought = key else names.find? (fun name => table.EqualFold name key) = some sought
  folds sought key bound := by
    split at bound
    · obtain rfl := of_decide_eq_true bound
      exact .refl sought
    · simpa using List.find?_some (of_decide_eq_true bound)
  last := true

/-- One of the members, by the keys it takes. -/
def Mode.pick {α : Type} (mode : Mode table) (members : List (Bytes × α)) (sought : Bytes) : Option α :=
  let taken := members.filter fun member => mode.binds sought member.1
  (if mode.last then taken.getLast? else taken.head?).map Prod.snd

inductive Step where
  | key (sought : Bytes)
  | index (i : ℕ)
  deriving DecidableEq

/-- Along a path, with a mode for each depth: a struct may hold maps. -/
def find (modes : ℕ → Mode table) : List Step → Text → Option Text
  | [], text => some text
  | .key sought :: path, .container .curly _ entries =>
    ((modes 0).pick (membersOf entries) sought).bind (find (fun depth => modes (depth + 1)) path)
  | .index i :: path, .container .square _ entries =>
    entries[i]?.bind fun entry => find (fun depth => modes (depth + 1)) path entry.value
  | _ :: _, _ => none

/-- What a reader of the bytes finds. -/
def readAt (modes : ℕ → Mode table) (path : List Step) (raw : Bytes) : Option Text :=
  (readText raw).bind fun read => find modes path read.1

/-- Along a path of a value decoded into an `interface{}`, a map at every object. -/
def reach : List Step → JsonValue.Json → Option JsonValue.Json
  | [], value => some value
  | .key sought :: path, .object members =>
    ((members.filter fun member => sought = member.1).getLast?.map Prod.snd).bind (reach path)
  | .index i :: path, .array items => items[i]?.bind (reach path)
  | _ :: _, _ => none

theorem Mode.mem_of_pick {α : Type} {mode : Mode table} {members : List (Bytes × α)} {found : α}
    (picked : mode.pick members sought = some found) : ∃ key, (key, found) ∈ members ∧ table.EqualFold sought key := by
  obtain ⟨⟨key, value⟩, taken, rfl⟩ := Option.map_eq_some_iff.mp picked
  have kept : (key, value) ∈ members.filter fun mem => mode.binds sought mem.1 := by
    split at taken
    · exact List.mem_of_getLast? taken
    · exact List.mem_of_mem_head? taken
  obtain ⟨mem, binds⟩ := List.mem_filter.mp kept
  exact ⟨key, mem, mode.folds sought key binds⟩

/-- No two keys of the object are one up to case. -/
def KeysApart (table : SimpleFold) (entries : List (Entry Text)) : Prop :=
  (membersOf entries).Pairwise fun one other => ¬ table.EqualFold one.1 other.1

theorem apart_of_nodup (nodup : (labelKeys table.foldJSONKey entries).Nodup) : KeysApart table entries := by
  have keys : labelKeys table.foldJSONKey entries = (membersOf entries).map fun mem => table.foldJSONKey mem.1 := by
    rw [labelKeys, membersOf, List.map_filterMap, List.map_filterMap]
    congr 1
    funext entry
    cases entry.label <;> rfl
  rw [keys, List.Nodup, List.pairwise_map] at nodup
  exact nodup.imp fun differ same => differ (SimpleFold.foldJSONKey_eq_iff.mpr same)

theorem KeysApart.unique (apart : KeysApart table entries)
    (mem : (key, value) ∈ membersOf entries) (member' : (key', value') ∈ membersOf entries)
    (same : table.EqualFold key key') : value = value' := by
  by_contra differ
  have : Std.Symm fun one other : Bytes × Text => ¬ table.EqualFold one.1 other.1 :=
    ⟨fun _ _ unlike same => unlike same.symm⟩
  exact apart.forall mem member' (fun equal => differ (congrArg Prod.snd equal)) same

/-- Every object in the value has its keys apart. -/
def AllApart (table : SimpleFold) (text : Text) : Prop :=
  ∀ gap entries, Within (.container .curly gap entries) text → KeysApart table entries

theorem AllApart.entry {gap : Bytes} {entries : List (Entry Text)} {entry : Entry Text}
    (apart : AllApart table (.container bracket gap entries)) (mem : entry ∈ entries) : AllApart table entry.value :=
  fun gap' entries' within => apart gap' entries' (.entry mem within)

theorem distinctKeysEntries_mem (distinct : distinctKeysEntries fold entries = true) (mem : entry ∈ entries) :
    distinctKeys fold entry.value = true := by
  induction entries with
  | nil => cases mem
  | cons first entries ih =>
    rw [distinctKeysEntries, Bool.and_eq_true] at distinct
    rcases List.mem_cons.mp mem with rfl | later
    · obtain ⟨before, label, value, after⟩ := entry
      exact distinct.1
    · exact ih distinct.2 later

theorem allApart_of_distinct {text : Text} (distinct : distinctKeys table.foldJSONKey text = true) :
    AllApart table text := by
  intro gap entries within
  induction within with
  | self =>
    rw [distinctKeys, Bool.and_eq_true] at distinct
    exact apart_of_nodup (of_decide_eq_true distinct.1)
  | entry mem _ ih =>
    rw [distinctKeys, Bool.and_eq_true] at distinct
    exact ih (distinctKeysEntries_mem distinct.2 mem)

/-- The value a member has is the value of an entry. -/
theorem mem_membersOf (mem : (key, value) ∈ membersOf entries) : ∃ entry ∈ entries, entry.value = value := by
  obtain ⟨entry, inside, labelled⟩ := List.mem_filterMap.mp mem
  obtain ⟨label, -, same⟩ := Option.map_eq_some_iff.mp labelled
  exact ⟨entry, inside, congrArg Prod.snd same⟩

/-- The mode of a map: keys as they are, the last of several. -/
def mapMode (table : SimpleFold) : ℕ → Mode table := fun _ => .exact true

/-- One step is the other up to the case of a key. -/
def Step.Same (table : SimpleFold) : Step → Step → Prop
  | .key sought, .key spelled => table.EqualFold sought spelled
  | .index i, .index j => i = j
  | _, _ => False

theorem pick_exact (mem : (key, value) ∈ members) : ∃ found, (mapMode table 0).pick members key = some found := by
  have taken : (key, value) ∈ members.filter fun other => key = other.1 := List.mem_filter.mpr ⟨mem, by simp⟩
  have last := List.getLast?_eq_some_getLast (List.ne_nil_of_mem taken)
  refine ⟨(List.getLast _ (List.ne_nil_of_mem taken)).2, ?_⟩
  rw [Mode.pick, mapMode, Mode.exact, if_pos rfl, last, Option.map_some]

/-- The keys of an object are apart, so one value is behind a step, whatever reader takes it; and a map has it
under the key as the object spells it. -/
theorem AllApart.find_cons {text found : Text} {modes : ℕ → Mode table} (apart : AllApart table text)
    (reads : find modes (step :: path) text = some found) :
    ∃ inner, AllApart table inner ∧ find (fun depth => modes (depth + 1)) path inner = some found ∧
      (∀ (modes' : ℕ → Mode table) found', find modes' (step :: path) text = some found' →
        find (fun depth => modes' (depth + 1)) path inner = some found') ∧
      ∃ spelled, step.Same table spelled ∧
        ∀ path', find (mapMode table) (spelled :: path') text = find (mapMode table) path' inner := by
  match step, text with
  | .key sought, .container .curly gap entries =>
    obtain ⟨value, picked, later⟩ := Option.bind_eq_some_iff.mp reads
    obtain ⟨key, mem, same⟩ := Mode.mem_of_pick picked
    have only {mode : Mode table} {sought' : Bytes} {other : Text} (close : table.EqualFold sought' key)
        (taken : mode.pick (membersOf entries) sought' = some other) : other = value := by
      obtain ⟨key', member', same'⟩ := Mode.mem_of_pick taken
      exact (apart gap entries .self).unique member' mem (same'.symm.trans close)
    obtain ⟨other, exactly⟩ := @pick_exact table _ _ _ _ mem
    obtain rfl := only (.refl key) exactly
    obtain ⟨entry, inside, rfl⟩ := mem_membersOf mem
    refine ⟨entry.value, apart.entry inside, later, fun modes' found' reads' => ?_, .key key, same, fun path' => ?_⟩
    · obtain ⟨value', picked', later'⟩ := Option.bind_eq_some_iff.mp reads'
      rwa [only same picked'] at later'
    · rw [find, exactly]
      rfl
  | .index i, .container .square gap entries =>
    obtain ⟨entry, taken, later⟩ := Option.bind_eq_some_iff.mp reads
    refine ⟨entry.value, apart.entry (List.mem_of_getElem? taken), later, fun modes' found' reads' => ?_, .index i, rfl,
      fun path' => ?_⟩
    · obtain ⟨entry', taken', later'⟩ := Option.bind_eq_some_iff.mp reads'
      rwa [← Option.mem_unique taken taken'] at later'
    · rw [find, taken]
      rfl
  | .key _, .container .square _ _ | .key _, .null | .key _, .bool _ | .key _, .number _ | .key _, .string _
  | .index _, .container .curly _ _ | .index _, .null | .index _, .bool _ | .index _, .number _
  | .index _, .string _ => cases reads

theorem AllApart.find_unique {text : Text} {modes modes' : ℕ → Mode table} (apart : AllApart table text)
    (first : find modes path text = some found) (second : find modes' path text = some found') : found = found' := by
  induction path generalizing text modes modes' with
  | nil => exact Option.mem_unique first second
  | cons step path ih =>
    obtain ⟨inner, apart', later, others, -⟩ := apart.find_cons first
    exact ih apart' later (others _ _ second)

/-- What any reader finds is in the map, under the keys as the object spells them. -/
theorem AllApart.find_spelled {text : Text} {modes : ℕ → Mode table}
    (apart : AllApart table text) (reads : find modes path text = some found) :
    ∃ spelled, List.Forall₂ (Step.Same table) path spelled ∧ find (mapMode table) spelled text = some found := by
  induction path generalizing text modes with
  | nil => exact ⟨[], .nil, reads⟩
  | cons step path ih =>
    obtain ⟨inner, apart', later, -, step', same, behind⟩ := apart.find_cons reads
    obtain ⟨spelled, steps, finds⟩ := ih apart' later
    exact ⟨step' :: spelled, .cons same steps, (behind spelled).trans finds⟩

/-! The decoded value. -/

theorem valuesOf_eq (entries : List (Entry Text)) :
    valuesOf entries = entries.map fun entry => valueOf entry.value := by
  induction entries with
  | nil => rfl
  | cons entry entries ih => rw [valuesOf, entryValue, ih, List.map_cons]

theorem memberValuesOf_eq (legal : WellFormedEntries .curly entries) :
    memberValuesOf entries = (membersOf entries).map fun mem => (mem.1, valueOf mem.2) := by
  induction entries with
  | nil => rfl
  | cons entry entries ih =>
    have labelled := (entry_parts legal.1).2.1
    obtain ⟨before, label, value, after⟩ := entry
    cases label with
    | none => exact labelled.elim
    | some label => simp [memberValuesOf, membersOf, entryValue, ih legal.2]

theorem wellFormedEntries_mem (legal : WellFormedEntries bracket entries) (mem : entry ∈ entries) :
    entry.value.WellFormed := by
  induction entries with
  | nil => cases mem
  | cons first entries ih =>
    rcases List.mem_cons.mp mem with rfl | later
    · exact (entry_parts legal.1).2.2.1
    · exact ih legal.2 later

theorem member_wellFormed
    (legal : (Text.container .curly gap entries).WellFormed) (mem : (key, value) ∈ membersOf entries) :
    value.WellFormed := by
  obtain ⟨entry, inside, rfl⟩ := mem_membersOf mem
  exact wellFormedEntries_mem legal.2.2 inside

/-- A generic decode is a reader too. -/
theorem reach_valueOf (path : List Step) {text : Text} (legal : text.WellFormed) :
    reach path (valueOf text) = (find (mapMode table) path text).map valueOf := by
  induction path generalizing text with
  | nil => rfl
  | cons step path ih =>
    match step, text with
    | .key sought, .container .curly gap entries =>
      have entriesLegal : WellFormedEntries .curly entries := by
        rw [Text.WellFormed] at legal
        exact legal.2.2
      rw [valueOf, memberValuesOf_eq entriesLegal, reach, find, Mode.pick, List.filter_map, List.getLast?_map]
      simp only [mapMode, Mode.exact, if_true, Function.comp_def]
      cases taken : ((membersOf entries).filter fun mem => sought = mem.1).getLast? with
      | none => rfl
      | some mem =>
        obtain ⟨inside, -⟩ := List.mem_filter.mp (List.mem_of_getLast? taken)
        exact ih (member_wellFormed legal inside)
    | .index i, .container .square gap entries =>
      rw [valueOf, valuesOf_eq, reach, find, List.getElem?_map]
      cases taken : entries[i]? with
      | none => rfl
      | some entry =>
        rw [Text.WellFormed] at legal
        exact ih (wellFormedEntries_mem legal.2.2 (List.mem_of_getElem? taken))
    | .key _, .container .square _ _ | .key _, .null | .key _, .bool _ | .key _, .number _ | .key _, .string _
    | .index _, .container .curly _ _ | .index _, .null | .index _, .bool _ | .index _, .number _
    | .index _, .string _ => simp [valueOf, reach, find]

end Reader

/-- Of params that are accepted no object has two keys that are one up to case. Whatever the decode binds at a
path, into a struct or a map at each depth, every reader of the bytes that finds anything there finds the
same; and what such a reader finds is in the decoded value, under the keys as they are spelled. -/
theorem judged_params_are_forwarded (table : SimpleFold) {raw : Bytes} {text : Text}
    (accepted : decodeParams table.foldJSONKey raw = some text) :
    (∀ gap entries, Within (.container .curly gap entries) text →
      (membersOf entries).Pairwise fun one other => ¬ table.EqualFold one.1 other.1) ∧
    (∀ (judge reader : ℕ → Mode table) path decoded found, find judge path text = some decoded →
      readAt reader path raw = some found → found = decoded) ∧
    ∀ (reader : ℕ → Mode table) path found, readAt reader path raw = some found →
      (∀ decoded, reach path (valueOf text) = some decoded → valueOf found = decoded) ∧
      ∃ spelled, List.Forall₂ (Step.Same table) path spelled ∧ reach spelled (valueOf text) = some (valueOf found) := by
  obtain ⟨legal, distinct⟩ := decodeParams_distinct accepted
  have apart := allApart_of_distinct distinct
  have reads (reader : ℕ → Mode table) (path : List Step) : readAt reader path raw = find reader path text := by
    unfold decodeParams at accepted
    split at accepted
    · cases accepted
    · obtain ⟨⟨_, rest⟩, read, rfl⟩ := Option.map_eq_some_iff.mp accepted
      rw [readAt, read, Option.bind_some]
  refine ⟨apart, fun judge reader path decoded found judged read => ?_, fun reader path found read => ⟨?_, ?_⟩⟩
  · rw [reads] at read
    exact apart.find_unique read judged
  · intro decoded reached
    rw [reads] at read
    rw [@reach_valueOf table path text legal] at reached
    obtain ⟨value, finds, rfl⟩ := Option.map_eq_some_iff.mp reached
    rw [apart.find_unique read finds]
  · rw [reads] at read
    obtain ⟨spelled, steps, finds⟩ := apart.find_spelled read
    refine ⟨spelled, steps, ?_⟩
    rw [@reach_valueOf table spelled text legal, finds, Option.map_some]

def toolCall : Bytes := lit "\x7b\"Name\":\"read\",\"arguments\":\x7b\"paths\":[\"/a\",\"/b\"]\x7d\x7d"

/-- The params of a tool call, into their struct and its maps. -/
def toolCallModes : ℕ → Mode asciiFold
  | 0 => .struct [lit "name", lit "arguments", lit "_meta"]
  | depth + 1 => mapMode asciiFold depth

/-- The struct's name, whatever reader finds it. -/
theorem judged_params_are_forwarded_name : ∃ text decoded found,
    decodeParams asciiFold.foldJSONKey toolCall = some text ∧
    find toolCallModes [.key (lit "name")] text = some decoded ∧
    readAt (fun _ => (.folding false : Mode asciiFold)) [.key (lit "name")] toolCall = some found ∧ found = decoded := by
  obtain ⟨text, accepted⟩ := Option.isSome_iff_exists.mp
    (rfl : (decodeParams asciiFold.foldJSONKey toolCall).isSome = true)
  obtain ⟨found, read⟩ := Option.isSome_iff_exists.mp
    (rfl : (readAt (fun _ => (.folding false : Mode asciiFold)) [.key (lit "name")] toolCall).isSome = true)
  obtain ⟨decoded, judged⟩ := Option.isSome_iff_exists.mp (by
    have found : ((decodeParams asciiFold.foldJSONKey toolCall).bind (find toolCallModes [.key (lit "name")])).isSome = true := by
      decide
    rwa [accepted, Option.bind_some] at found)
  exact ⟨text, decoded, found, accepted, judged, read,
    (judged_params_are_forwarded asciiFold accepted).2.1 toolCallModes _ _ _ _ judged read⟩

end Eunox
