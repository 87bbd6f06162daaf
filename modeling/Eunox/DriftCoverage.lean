import Eunox.DriftCheck
import Eunox.MergeOrder

/-! The drift check covers what enforcement can select: an entry that governs some
caller of a live tool is one the tool is checked against. -/
namespace Eunox.Drift
open ByteString

/-! Covering entries. -/

/-- The entry is of a tool, and matches its name. -/
def covers (toolName : Bytes) (c : ManifestEntry) : Bool := isToolTarget c.target && matchResource c.target toolName

theorem coverStep_matches (toolName : Bytes) (l : List (ManifestEntry × ℕ)) (found : List CoveringMatch × ℤ) :
    (l.foldl (coverStep toolName) found).1 =
      found.1 ++ (l.filter fun c => covers toolName c.1).map fun c => ⟨c, resSpecificity c.1.target toolName⟩ := by
  induction l generalizing found with
  | nil => simp
  | cons c rest ih =>
    rw [List.foldl_cons, ih]
    unfold coverStep
    by_cases tool : isToolTarget c.1.target = true
    · by_cases matched : matchResource c.1.target toolName = true <;> simp [covers, tool, matched]
    · simp [covers, tool]

/-- The cutoff is the least score that no entry of no principal is above. -/
theorem coverStep_cutoff (toolName : Bytes) (l : List (ManifestEntry × ℕ)) (found : List CoveringMatch × ℤ)
    (score : ℤ) : (l.foldl (coverStep toolName) found).2 ≤ score ↔
      found.2 ≤ score ∧ ∀ c ∈ l, covers toolName c.1 = true → c.1.hasPrincipal = false →
        resSpecificity c.1.target toolName ≤ score := by
  induction l generalizing found with
  | nil => simp
  | cons c rest ih =>
    rw [List.foldl_cons, ih, List.forall_mem_cons]
    unfold coverStep covers
    by_cases tool : isToolTarget c.1.target = true
    · by_cases matched : matchResource c.1.target toolName = true
      · cases c.1.hasPrincipal with
        | true => simp [tool, matched]
        | false =>
          by_cases above : found.2 < resSpecificity c.1.target toolName
          · simp only [tool, matched, above, Bool.not_true, Bool.false_eq_true, if_false, Bool.not_false,
              decide_true, Bool.and_self, if_true, true_imp_iff]
            exact ⟨fun ⟨here, later⟩ => ⟨above.le.trans here, here, later⟩, fun ⟨_, here, later⟩ => ⟨here, later⟩⟩
          · simp only [tool, matched, above, Bool.not_true, Bool.false_eq_true, if_false, Bool.not_false,
              decide_false, Bool.and_false, Bool.and_self, true_imp_iff]
            exact ⟨fun ⟨start, later⟩ => ⟨start, (not_lt.mp above).trans start, later⟩,
              fun ⟨start, _, later⟩ => ⟨start, later⟩⟩
      · simp [matched]
    · simp [tool]

theorem mem_coveringConstraints : c ∈ coveringConstraints m toolName ↔
      (c ∈ m.capabilities.zipIdx ∧ covers toolName c.1 = true) ∧
        ∀ d ∈ m.capabilities, covers toolName d = true → d.hasPrincipal = false →
          resSpecificity d.target toolName ≤ resSpecificity c.1.target toolName := by
  have real : noMatchScore < resSpecificity c.1.target toolName := noMatchScore_lt _ _
  have entries : (∀ d ∈ m.capabilities.zipIdx, covers toolName d.1 = true → d.1.hasPrincipal = false →
        resSpecificity d.1.target toolName ≤ resSpecificity c.1.target toolName) ↔
      ∀ d ∈ m.capabilities, covers toolName d = true → d.hasPrincipal = false →
        resSpecificity d.target toolName ≤ resSpecificity c.1.target toolName := by
    constructor
    · intro all d mem
      obtain ⟨i, found⟩ := List.mem_iff_getElem?.mp mem
      exact all (d, i) (List.mem_zipIdx_iff_getElem?.mpr found)
    · exact fun all d mem => all d.1 (List.fst_mem_of_mem_zipIdx mem)
  have cutoff := (coverStep_cutoff toolName m.capabilities.zipIdx ([], noMatchScore)
    (resSpecificity c.1.target toolName)).trans ((and_iff_right real.le).trans entries)
  unfold coveringConstraints coveringMatches
  simp only [coverStep_matches, List.nil_append, List.mem_map, List.mem_filter, decide_eq_true_eq]
  constructor
  · rintro ⟨_, ⟨⟨_, inside, rfl⟩, high⟩, rfl⟩
    exact ⟨inside, cutoff.mp high⟩
  · rintro ⟨inside, high⟩
    exact ⟨_, ⟨⟨c, inside, rfl⟩, cutoff.mpr high⟩, rfl⟩

section Accepted
variable {r : ManifestRules} {scope : ManifestScope} {c : ManifestEntry} {t bare : Bytes}

theorem isToolTarget_iff (accepted : c.Accepted r scope t bare) : isToolTarget c.target = true ↔ t = lit "tool" := by
  simp [isToolTarget, accepted.parsed]

theorem stripEnginePrefix_eq (accepted : c.Accepted r scope t bare) : stripEnginePrefix c.target = bare := by
  rw [stripEnginePrefix, (parsedTarget_spec accepted.parsed).2.2]

/-- An entry that matches a tool is among those the tool may be checked against. -/
theorem covers_of_admits (accepted : c.Accepted r scope t bare)
    (admitted : Selector.admits ⟨lit "tool", toolName, claims⟩ c = true) : covers toolName c = true := by
  obtain ⟨tool, matched, -⟩ := (admits_iff _ accepted).mp admitted
  simp [covers, (isToolTarget_iff accepted).mpr tool, matchResource, stripEnginePrefix_eq accepted, matched]

/-- An entry of no principal is one of every caller. -/
theorem admits_of_covers (claims : Members) (accepted : c.Accepted r scope t bare)
    (covered : covers toolName c = true) (unscoped : c.hasPrincipal = false) :
    Selector.admits ⟨lit "tool", toolName, claims⟩ c = true := by
  obtain ⟨tool, matched⟩ := Bool.and_eq_true_iff.mp covered
  rw [matchResource, stripEnginePrefix_eq accepted] at matched
  have open_to_all : c.principal = [] := by simpa [Constraint.hasPrincipal] using unscoped
  exact (admits_iff _ accepted).mpr
    ⟨(isToolTarget_iff accepted).mp tool, matched, by simp [Constraint.principalMatches, open_to_all]⟩

theorem specificity_covered (accepted : c.Accepted r scope t bare) (covered : covers toolName c = true) :
    Selector.specificity ⟨lit "tool", toolName, claims⟩ c = resSpecificity c.target toolName := by
  rw [resSpecificity, stripEnginePrefix_eq accepted]
  exact specificity_eq accepted ((isToolTarget_iff accepted).mp (Bool.and_eq_true_iff.mp covered).1)

/-- The entry that governs a caller of a tool covers the tool. -/
theorem selected_covers (valid : m.Accepted r)
    (selected : findConstraint m.capabilities ⟨lit "tool", toolName, claims⟩ = some i) :
    ∃ c, m.capabilities[i]? = some c ∧ (c, i) ∈ coveringConstraints m toolName := by
  rw [findConstraint_eq] at selected
  obtain ⟨⟨c, _⟩, found, rfl⟩ := Option.map_eq_some_iff.mp selected
  have place := select_mem _ found
  obtain ⟨admitted, best⟩ := select_best _ found
  obtain ⟨_, _, accepted⟩ := valid.entries c (List.fst_mem_of_mem_zipIdx place)
  have covered := covers_of_admits accepted admitted
  refine ⟨c, List.mem_zipIdx_iff_getElem?.mp place, mem_coveringConstraints.mpr ⟨⟨place, covered⟩, ?_⟩⟩
  -- An entry of no principal is a candidate for this caller too, so it ranks no higher.
  intro d mem coveredD unscoped
  obtain ⟨_, _, acceptedD⟩ := valid.entries d mem
  obtain ⟨j, at_j⟩ := List.mem_iff_getElem?.mp mem
  have admittedD := admits_of_covers claims acceptedD coveredD unscoped
  have permitted := permits_of_accepted acceptedD ((admits_iff _ acceptedD).mp admittedD).1
  have ranked := best (d, j) (List.mem_zipIdx_iff_getElem?.mpr at_j) admittedD permitted
  have scores : Selector.specificity ⟨lit "tool", toolName, claims⟩ d ≤
      Selector.specificity ⟨lit "tool", toolName, claims⟩ c := by
    rcases Prod.Lex.toLex_le_toLex.mp ranked with less | ⟨same, -⟩
    · exact less.le
    · exact same.le
  rwa [specificity_covered acceptedD coveredD, specificity_covered accepted covered] at scores

end Accepted

/-! Findings. -/

/-- Leaving out repetitions loses no finding. -/
theorem mem_addWarnings (ws found : List Warning) : w ∈ ws.foldl addWarning found ↔ w ∈ found ∨ w ∈ ws :=
  (foldl_absent (fun _ _ known => if_pos known) (fun _ _ fresh => if_neg fresh) ws found).1 w

theorem mem_checkManifestDrift : w ∈ checkManifestDrift env m tools serverVersion ↔
      w ∈ serverVersionDrift m serverVersion ∨ (∃ tool ∈ tools, w ∈ toolWarnings env m tool) ∨
        w ∈ absentWarnings m tools := by
  simp [checkManifestDrift, mem_addWarnings]

theorem mem_toolWarnings
    (covering : (c, i) ∈ coveringConstraints m tool.name) (found : w ∈ coveredWarnings env tool c) :
    w ∈ toolWarnings env m tool := by
  unfold toolWarnings
  split
  · next none => simp [none] at covering
  · exact List.mem_flatMap.mpr ⟨(c, i), covering, found⟩

/-! Absent entries. -/

/-- The kinds of an absent entry. -/
def AbsentKinds (absent : List (Bytes × Kind)) : Prop := ∀ e ∈ absent, e.2 = .fm2 ∨ e.2 = .fm2Pinned

/-- What later entries leave of earlier ones: no target is lost, and none that is pinned changes. -/
structure Grows (absent absent' : List (Bytes × Kind)) : Prop where
  kinds : AbsentKinds absent → AbsentKinds absent'
  listed : ∀ target kind, (target, kind) ∈ absent → ∃ kind', (target, kind') ∈ absent'
  pinned : ∀ target, (target, .fm2Pinned) ∈ absent → (target, .fm2Pinned) ∈ absent'

theorem Grows.refl (absent : List (Bytes × Kind)) : Grows absent absent :=
  ⟨id, fun _ kind mem => ⟨kind, mem⟩, fun _ mem => mem⟩

theorem Grows.trans (first : Grows a b) (second : Grows b c) : Grows a c where
  kinds := second.kinds ∘ first.kinds
  listed target kind member :=
    let ⟨kind', member'⟩ := first.listed target kind member
    second.listed target kind' member'
  pinned target := second.pinned target ∘ first.pinned target

section Absent
variable {tools : List UpstreamTool} {absent : List (Bytes × Kind)} {c : ManifestEntry}

/-- The entry is not live: its target is listed, as pinned where the entry is. -/
def Listed (absent : List (Bytes × Kind)) (c : ManifestEntry) : Prop :=
  (∃ kind, (c.target, kind) ∈ absent) ∧ (c.isPinnedExactTool = true → (c.target, .fm2Pinned) ∈ absent)

theorem Listed.grows (listed : Listed absent c) (grows : Grows absent absent') : Listed absent' c := by
  obtain ⟨⟨kind, mem⟩, pinned⟩ := listed
  exact ⟨grows.listed _ kind mem, fun pin => grows.pinned _ (pinned pin)⟩

theorem grows_pin (target : Bytes) :
    Grows absent (absent.map fun entry => if entry.1 = target then (entry.1, .fm2Pinned) else entry) where
  kinds kinds e member := by
    obtain ⟨entry, inside, rfl⟩ := List.mem_map.mp member
    split
    · exact .inr rfl
    · exact kinds entry inside
  listed other kind member := by
    refine ⟨if other = target then .fm2Pinned else kind, List.mem_map.mpr ⟨(other, kind), member, ?_⟩⟩
    split <;> rfl
  pinned other member := by
    refine List.mem_map.mpr ⟨(other, .fm2Pinned), member, ?_⟩
    split <;> rfl

theorem absentStep_grows : Grows absent (absentStep tools absent c) := by
  unfold absentStep
  split
  · exact .refl absent
  split
  · exact .refl absent
  split
  · split
    · exact grows_pin c.target
    · exact .refl absent
  · refine ⟨fun kinds => List.forall_mem_append.mpr ⟨kinds, List.forall_mem_singleton.mpr ?_⟩,
      fun target kind mem => ⟨kind, List.mem_append_left _ mem⟩, fun target mem => List.mem_append_left _ mem⟩
    split
    · exact .inr rfl
    · exact .inl rfl

theorem absentStep_listed (tool : isToolTarget c.target = true) (gone : anyToolMatches c.target tools = false) :
    Listed (absentStep tools absent c) c := by
  unfold absentStep
  simp only [tool, gone, Bool.false_eq_true, if_false]
  cases known : absent.lookup c.target with
  | none =>
    refine ⟨⟨_, List.mem_append_right _ (.head _)⟩, fun pinned => ?_⟩
    simp [pinned]
  | some kind =>
    have mem : (c.target, kind) ∈ absent := AssocList.mem_of_lookup known
    by_cases pinned : c.isPinnedExactTool = true
    · rw [if_pos pinned]
      have pin : (c.target, Kind.fm2Pinned) ∈
          absent.map fun entry => if entry.1 = c.target then (entry.1, .fm2Pinned) else entry :=
        List.mem_map.mpr ⟨(c.target, kind), mem, by simp⟩
      exact ⟨⟨_, pin⟩, fun _ => pin⟩
    · rw [if_neg pinned]
      exact ⟨⟨kind, mem⟩, fun pin => absurd pin pinned⟩

theorem foldl_absentStep (l : List ManifestEntry) (absent : List (Bytes × Kind)) :
    Grows absent (l.foldl (absentStep tools) absent) ∧
      ∀ c ∈ l, isToolTarget c.target = true → anyToolMatches c.target tools = false →
        Listed (l.foldl (absentStep tools) absent) c := by
  induction l generalizing absent with
  | nil => exact ⟨.refl absent, nofun⟩
  | cons head rest ih =>
    obtain ⟨grows, later⟩ := ih (absentStep tools absent head)
    rw [List.forall_mem_cons]
    exact ⟨absentStep_grows.trans grows, fun tool gone => (absentStep_listed tool gone).grows grows, later⟩

end Absent

/-! The hook. -/

section Hook
variable {env : Environment} {r : ManifestRules} {m : LocalManifest} {tools : List UpstreamTool}
  {serverVersion : Bytes}

theorem evaluateDrift_passes : (evaluateDrift env m tools serverVersion strict).error = none ↔
      (∀ w ∈ checkManifestDrift env m tools serverVersion, w.kind ≠ .fm5 ∧ w.kind ≠ .fm2Pinned) ∧
        (strict = true → ∀ w ∈ checkManifestDrift env m tools serverVersion, w.isFatal = false) := by
  unfold evaluateDrift
  dsimp only
  generalize checkManifestDrift env m tools serverVersion = found
  have critical : hasCriticalDrift found = false ↔ ∀ w ∈ found, w.kind ≠ .fm5 ∧ w.kind ≠ .fm2Pinned := by
    simp [hasCriticalDrift]
  have fatal : (strict && hasFatalDrift found) = false ↔ (strict = true → ∀ w ∈ found, w.isFatal = false) := by
    cases strict <;> simp [hasFatalDrift]
  rw [← critical, ← fatal]
  cases hasCriticalDrift found with
  | true => simp
  | false => cases strict && hasFatalDrift found <;> simp

/-- A tool: entry that no tool matches is reported, as pinned where it is. -/
theorem absent_reported (mem : c ∈ m.capabilities) (tool : isToolTarget c.target = true)
    (gone : anyToolMatches c.target tools = false) :
    ∃ w ∈ checkManifestDrift env m tools serverVersion, (w.kind = .fm2 ∨ w.kind = .fm2Pinned) ∧
      (c.isPinnedExactTool = true → w.kind = .fm2Pinned) := by
  obtain ⟨grows, listed⟩ : Grows [] (m.capabilities.foldl (absentStep tools) []) ∧ _ :=
    foldl_absentStep m.capabilities []
  obtain ⟨⟨kind, at_target⟩, pinned⟩ := listed c mem tool gone
  have kinds := grows.kinds (by simp [AbsentKinds])
  have reported (kind : Kind) (entry : (c.target, kind) ∈ m.capabilities.foldl (absentStep tools) []) :
      ∃ w ∈ checkManifestDrift env m tools serverVersion, w.kind = kind :=
    ⟨_, mem_checkManifestDrift.mpr (.inr (.inr (List.mem_map.mpr ⟨_, entry, rfl⟩))), rfl⟩
  by_cases pin : c.isPinnedExactTool = true
  · obtain ⟨w, found, is⟩ := reported _ (pinned pin)
    exact ⟨w, found, .inr is, fun _ => is⟩
  · obtain ⟨w, found, is⟩ := reported _ at_target
    rw [← is] at at_target
    exact ⟨w, found, kinds _ at_target, fun on => absurd on pin⟩

/-- Whatever a live tool is found to differ in from an entry that covers it is reported. -/
theorem covered_reported (live : tool ∈ tools)
    (covering : (c, i) ∈ coveringConstraints m tool.name) (found : w ∈ coveredWarnings env tool c) :
    w ∈ checkManifestDrift env m tools serverVersion :=
  mem_checkManifestDrift.mpr (.inr (.inl ⟨tool, live, mem_toolWarnings covering found⟩))

theorem hash_found (pinned : c.isPinnedExactTool = true) (differs : env.toolHash tool ≠ c.descriptionHash) :
    ∃ w ∈ coveredWarnings env tool c, w.kind = .fm5 := by
  obtain ⟨w, found, kind⟩ : ∃ w ∈ fm5Warnings tool c (env.toolHash tool), w.kind = .fm5 := by
    simp [fm5Warnings, pinned, differs]
  exact ⟨w, List.mem_append_left _ (List.mem_append_right _ found), kind⟩

theorem glob_found (glob : containsGlobMeta (stripEnginePrefix c.target) = true) :
    ∃ w ∈ coveredWarnings env tool c, w.kind = .fm1 := by
  obtain ⟨w, found, kind⟩ : ∃ w ∈ fm1Warnings tool c, w.kind = .fm1 := by simp [fm1Warnings, glob]
  exact ⟨w, List.mem_append_left _ (List.mem_append_left _ found), kind⟩

/-- An entry that pins a description is of one tool by name, and covers it for some caller. -/
theorem pinned_covers (valid : m.Accepted r) (short : m.Short) (mem : c ∈ m.capabilities) (pinned : pin ∈ c.pin) :
    c.isPinnedExactTool = true ∧ c.descriptionHash = pin.2 ∧ isToolTarget c.target = true ∧
      (∀ name, matchResource c.target name = true ↔ name = pin.1) ∧
      ∃ i, (c, i) ∈ coveringConstraints m pin.1 := by
  obtain ⟨t, bare, accepted⟩ := valid.entries c mem
  rw [pin_eq accepted.parsed] at pinned
  split at pinned
  · simp at pinned
  next solid =>
  obtain rfl := List.mem_singleton.mp pinned
  have hash := accepted.passes.descriptionHash
  simp only [validateDescriptionHash, solid, Bool.false_eq_true, if_false, firstError_none, List.mem_cons,
    List.not_mem_nil, or_false, forall_eq_or_imp, check_none, bne_eq_false_iff_eq] at hash
  obtain ⟨rfl, plain, -⟩ := hash
  have strip := stripEnginePrefix_eq accepted
  have tool := (isToolTarget_iff accepted).mpr rfl
  have only (name : Bytes) : matchResource c.target name = true ↔ name = bare := by
    rw [matchResource, strip]
    constructor
    · exact fun matched => (eq_of_matches_literal matched plain).symm
    · rintro rfl
      simp [matchesResource]
  obtain ⟨i, place⟩ := List.mem_iff_getElem?.mp mem
  refine ⟨by simp [ManifestEntry.isPinnedExactTool, ManifestEntry.isExactTool, accepted.parsed, plain, solid],
    rfl, tool, only, i, mem_coveringConstraints.mpr ⟨⟨List.mem_zipIdx_iff_getElem?.mpr place, ?_⟩, ?_⟩⟩
  · simp [covers, tool, (only bare).mpr rfl]
  -- No pattern that short ranks above the name itself.
  intro d memberD covered _
  obtain ⟨_, bareD, acceptedD⟩ := valid.entries d memberD
  have precise' : resSpecificity c.target bare = exactMatchSpecificity := by
    rw [resSpecificity, strip, resourceSpecificity, if_pos rfl]
  rw [precise', resSpecificity, stripEnginePrefix_eq acceptedD]
  by_cases same : bareD = bare
  · rw [resourceSpecificity, if_pos same]
  · exact (resourceSpecificity_lt (short d memberD _ acceptedD.parsed) same).le

/-- The entry that governs a caller of a tool is one the tool is checked against. So where the hook
lets the startup go on, each pinned tool is live, and every live tool of its name hashes to the pin;
and under strict checking what governs any caller of a live tool is an entry of its exact name, and
no tool: entry is without a live tool. -/
theorem drift_check_covers (env : Environment) (r : ManifestRules) (m : LocalManifest)
    (valid : validateLocalManifest r m = none) (short : m.Short) :
    (∀ (toolName : Bytes) (claims : Members) (i : ℕ),
      findConstraint m.capabilities ⟨lit "tool", toolName, claims⟩ = some i →
        ∃ c, m.capabilities[i]? = some c ∧ (c, i) ∈ coveringConstraints m toolName) ∧
    ∀ (strict : Bool) (hook : Bytes → Bytes → Option Message → Verdict),
      makeDriftCheck env (some m) strict = some hook →
      ∀ (raw serverVersion : Bytes) (tools : List UpstreamTool),
        env.parseToolsListResult raw = .ok tools → (hook raw serverVersion none).error = none →
        (∀ pin ∈ m.capabilities.flatMap ManifestEntry.pin,
          (∀ tool ∈ tools, tool.name = pin.1 → env.toolHash tool = pin.2) ∧ ∃ tool ∈ tools, tool.name = pin.1) ∧
        (strict = true → (∀ tool ∈ tools, ∀ (claims : Members) (i : ℕ),
            findConstraint m.capabilities ⟨lit "tool", tool.name, claims⟩ = some i →
              ∃ c, m.capabilities[i]? = some c ∧ c.isExactTool = true) ∧
          ∀ c ∈ m.capabilities, isToolTarget c.target = true →
            ∃ tool ∈ tools, matchResource c.target tool.name = true) := by
  have accepted := validateLocalManifest_none.mp valid
  refine ⟨fun toolName claims i => selected_covers accepted, ?_⟩
  rintro strict hook made raw serverVersion tools parsed passed
  obtain rfl := Option.some.inj made
  dsimp only at passed
  rw [parsed] at passed
  obtain ⟨uncritical, harmless⟩ := evaluateDrift_passes.mp passed
  refine ⟨fun pin pinned => ?_, fun on => ⟨?_, ?_⟩⟩
  · obtain ⟨c, member, pinned⟩ := List.mem_flatMap.mp pinned
    obtain ⟨precise', hash, isTool, only, i, covering⟩ := pinned_covers accepted short member pinned
    constructor
    · rintro tool live named
      by_contra differs
      rw [← named] at covering
      obtain ⟨w, found, kind⟩ := hash_found precise' (hash ▸ differs)
      exact (uncritical w (covered_reported live covering found)).1 kind
    · by_contra missing
      have gone : anyToolMatches c.target tools = false := by
        refine Bool.eq_false_iff.mpr fun matched => missing ?_
        obtain ⟨tool, live, matched⟩ := List.any_eq_true.mp matched
        exact ⟨tool, live, (only tool.name).mp matched⟩
      obtain ⟨w, found, -, kind⟩ := absent_reported member isTool gone
      exact (uncritical w found).2 (kind precise')
  · intro tool live claims i selected
    obtain ⟨c, place, covering⟩ := selected_covers accepted selected
    refine ⟨c, place, ?_⟩
    obtain ⟨⟨inside, covered⟩, -⟩ := mem_coveringConstraints.mp covering
    obtain ⟨t, bare, entry⟩ := accepted.entries c (List.fst_mem_of_mem_zipIdx inside)
    obtain rfl := (isToolTarget_iff entry).mp (Bool.and_eq_true_iff.mp covered).1
    suffices plain : containsGlobMeta bare = false by simp [ManifestEntry.isExactTool, entry.parsed, plain]
    refine Bool.eq_false_iff.mpr fun glob => ?_
    rw [← stripEnginePrefix_eq entry] at glob
    obtain ⟨w, found, kind⟩ := glob_found glob
    have := harmless on w (covered_reported live covering found)
    simp [Warning.isFatal, kind] at this
  · intro c member isTool
    by_contra missing
    have gone : anyToolMatches c.target tools = false := by
      refine Bool.eq_false_iff.mpr fun matched => missing ?_
      exact List.any_eq_true.mp matched
    obtain ⟨w, found, kind, -⟩ := absent_reported member isTool gone
    have := harmless on w found
    rcases kind with kind | kind <;> simp [Warning.isFatal, kind] at this

/-- One tool, pinned to the hash it has. -/
def pinnedPolicy : LocalManifest :=
  { memberPolicy with capabilities := [{ callable "tool:git_log" with
      descriptionHash := lit "sha256:0f0f0f0f0f0f0f0f0f0f0f0f0f0f0f0f0f0f0f0f0f0f0f0f0f0f0f0f0f0f0f0f" }] }

def pinnedEnvironment : Environment where
  toolHash _ := lit "sha256:0f0f0f0f0f0f0f0f0f0f0f0f0f0f0f0f0f0f0f0f0f0f0f0f0f0f0f0f0f0f0f0f"
  parseToolsListResult _ := .ok [{ name := lit "git_log" }]
  printer := ⟨fun _ => "", fun _ => "", fun _ => "", fun _ => "", fun _ => ""⟩

theorem drift_check_covers_pinned :
    (evaluateDrift pinnedEnvironment pinnedPolicy [{ name := lit "git_log" }] [] true).error = none ∧
    ∀ (claims : Members) (i : ℕ), findConstraint pinnedPolicy.capabilities ⟨lit "tool", lit "git_log", claims⟩ = some i →
      ∃ c, pinnedPolicy.capabilities[i]? = some c ∧ c.isExactTool = true := by
  have passes : (evaluateDrift pinnedEnvironment pinnedPolicy [{ name := lit "git_log" }] [] true).error = none := by
    decide
  obtain ⟨-, strictly⟩ := (drift_check_covers pinnedEnvironment plainRules pinnedPolicy (rfl)
    (by decide)).2 true _ rfl [] [] [{ name := lit "git_log" }] rfl passes
  exact ⟨passes, (strictly rfl).1 _ (.head _)⟩

end Hook

end Eunox.Drift
