import Eunox.MergeTies

/-! A merge does not depend on the order of the files: it succeeds in one order
where it does in another, and a request is governed by the same entry of the same
file. -/
namespace Eunox
open ByteString FirstBest

/-! Conflicts. -/

/-- No entry of one file ties with one of the other. -/
def Apart (a b : LocalManifest) : Prop := ∀ p ∈ a.capabilities, ∀ c ∈ b.capabilities, entriesConflict p c = false

theorem conflictsWith_none :
    conflictsWith seen capabilities = none ↔ ∀ p ∈ seen, ∀ c ∈ capabilities, entriesConflict p c = false := by
  simp only [conflictsWith, List.findSome?_eq_none_iff, ite_eq_right_iff, reduceCtorEq, imp_false, Bool.not_eq_true]
  exact ⟨fun apart p seen c mem => apart c mem p seen, fun apart c mem p seen => apart p seen c mem⟩

theorem detectMergeConflictsFrom_none : detectMergeConflictsFrom seen ms = none ↔
      (∀ m ∈ ms, ∀ p ∈ seen, ∀ c ∈ m.capabilities, entriesConflict p c = false) ∧ ms.Pairwise Apart := by
  induction ms generalizing seen with
  | nil => simp [detectMergeConflictsFrom]
  | cons m rest ih =>
    unfold detectMergeConflictsFrom
    rw [List.forall_mem_cons, List.pairwise_cons]
    cases first : conflictsWith seen m.capabilities with
    | some error =>
      refine iff_of_false nofun fun ⟨⟨here, _⟩, _⟩ => ?_
      simp [conflictsWith_none.mpr here] at first
    | none =>
      rw [ih]
      constructor
      · rintro ⟨later, apart⟩
        exact ⟨⟨conflictsWith_none.mp first, fun b mem p inside =>
            later b mem p (List.mem_append_left _ inside)⟩,
          fun b mem p inside => later b mem p (List.mem_append_right _ inside), apart⟩
      · rintro ⟨⟨-, before⟩, here, apart⟩
        refine ⟨fun b mem p inside => ?_, apart⟩
        rcases List.mem_append.mp inside with old | own
        · exact before b mem p old
        · exact here b mem p own

theorem detectMergeConflicts_none : detectMergeConflicts ms = none ↔ ms.Pairwise Apart := by
  simp [detectMergeConflicts, detectMergeConflictsFrom_none]

section Rules
variable {r : ManifestRules} {files files' : List LocalManifest}

theorem Apart.symm {a b : LocalManifest} (accepted : a.Accepted r) (apart : Apart a b) : Apart b a := by
  intro p memberP c memberC
  obtain ⟨_, _, entry⟩ := accepted.entries c memberC
  refine Bool.eq_false_iff.mpr fun conflict => ?_
  have := apart c memberC p memberP
  simp [entriesConflict_symm entry.acts conflict] at this

/-- Files that are apart in one order are in any. -/
theorem pairwise_apart_perm (accepted : ∀ m ∈ files, m.Accepted r) (perm : files.Perm files')
    (apart : files.Pairwise Apart) : files'.Pairwise Apart := by
  have both : files.Pairwise fun a b => Apart a b ∧ Apart b a :=
    apart.imp_of_mem fun memberA _ apart => ⟨apart, apart.symm (accepted _ memberA)⟩
  exact ((perm.pairwise_iff fun here => ⟨here.2, here.1⟩).mp both).imp fun here => here.1

end Rules

/-! Fields of a single value. -/

/-- What a field is after one more file. -/
def Joins {α : Type} (blank merged next v : α) : Prop :=
  (next = blank ∧ v = merged) ∨ (next ≠ blank ∧ (merged = blank ∨ merged = next) ∧ v = next)

/-- The one value the files give, or none. -/
structure Agreed {α : Type} (blank : α) (values : List α) (v : α) : Prop where
  only : ∀ w ∈ values, w ≠ blank → w = v
  given : v ≠ blank → v ∈ values

theorem mergeSingleValueField_ok : mergeSingleValueField merged next field = .ok v ↔ Joins [] merged next v := by
  unfold mergeSingleValueField Joins
  simp only [List.isEmpty_iff]
  by_cases unset : next = []
  · simp only [unset, if_true, Except.ok.injEq, ne_eq, not_true, false_and, or_false, true_and]
    exact eq_comm
  · rw [if_neg unset]
    by_cases fresh : merged = []
    · simp only [unset, fresh, if_true, Except.ok.injEq, ne_eq, not_false_eq_true, true_or, true_and,
        false_and, false_or]
      exact eq_comm
    · by_cases same : merged = next
      · simp only [unset, same, ne_eq, not_true, if_false, Except.ok.injEq, false_and, false_or, or_true,
          true_and, not_false_eq_true]
        exact eq_comm
      · simp [unset, fresh, same]

theorem mergeEffectCeiling_ok : mergeEffectCeiling dst src srcName = .ok v ↔ Joins none dst src v := by
  unfold mergeEffectCeiling Joins
  cases src with
  | none => simp [eq_comm]
  | some src =>
    cases dst with
    | none => simp [eq_comm]
    | some dst =>
      by_cases same : dst = src
      · simp [same, eq_comm]
      · simp [same]

section Agreed
variable {α : Type} {blank v w : α} {values values' : List α}

theorem Agreed.step (agreed : Agreed blank values v) (joins : Joins blank v next v') :
    Agreed blank (values ++ [next]) v' := by
  rcases joins with ⟨rfl, rfl⟩ | ⟨set, here, rfl⟩
  · refine ⟨fun w mem solid => ?_, fun solid => List.mem_append_left _ (agreed.given solid)⟩
    rcases List.mem_append.mp mem with old | new
    · exact agreed.only w old solid
    · exact absurd (List.mem_singleton.mp new) solid
  · refine ⟨fun w mem solid => ?_, fun _ => List.mem_append_right _ (.head _)⟩
    rcases List.mem_append.mp mem with old | new
    · have earlier := agreed.only w old solid
      rcases here with rfl | rfl
      · exact absurd earlier solid
      · exact earlier
    · exact List.mem_singleton.mp new

/-- The value turns on which values there are only. -/
theorem Agreed.unique (agreed : Agreed blank values v) (agreed' : Agreed blank values' w)
    (same : ∀ x, x ∈ values ↔ x ∈ values') : w = v := by
  by_cases set : w = blank
  · by_cases set' : v = blank
    · rw [set, set']
    · exact absurd ((agreed'.only v ((same v).mp (agreed.given set')) set').trans set) set'
  · exact agreed.only w ((same w).mpr (agreed'.given set)) set

/-- Values that are unset or all one can be joined. -/
theorem joins_fit (fits : merged ≠ blank → merged = w) (fits' : next ≠ blank → next = w) :
    ∃ v, Joins blank merged next v ∧ (v ≠ blank → v = w) := by
  by_cases unset : next = blank
  · exact ⟨merged, .inl ⟨unset, rfl⟩, fits⟩
  refine ⟨next, .inr ⟨unset, ?_, rfl⟩, fits'⟩
  by_cases fresh : merged = blank
  · exact .inl fresh
  · exact .inr ((fits fresh).trans (fits' unset).symm)

end Agreed

/-! Namespaces. -/

/-- Adding each element that is not there yet loses none and repeats none. -/
theorem foldl_absent {f : List α → α → List α} (known : ∀ held a, a ∈ held → f held a = held)
    (fresh : ∀ held a, a ∉ held → f held a = held ++ [a]) (l held : List α) :
    (∀ a, a ∈ l.foldl f held ↔ a ∈ held ∨ a ∈ l) ∧ (held.Nodup → (l.foldl f held).Nodup) := by
  induction l generalizing held with
  | nil => simp
  | cons head rest ih =>
    rw [List.foldl_cons]
    by_cases here : head ∈ held
    · rw [known held head here]
      refine ⟨fun a => ((ih held).1 a).trans ?_, (ih held).2⟩
      rw [List.mem_cons, ← or_assoc, or_iff_left_of_imp fun same : a = head => same ▸ here]
    · rw [fresh held head here]
      refine ⟨fun a => ((ih _).1 a).trans (by simp [or_assoc]), fun distinct => (ih _).2 ?_⟩
      exact (List.nodup_cons.mpr ⟨here, distinct⟩).perm (List.perm_append_singleton head held).symm

theorem mergeFlowLabelNamespaces_spec (merged next : List Bytes) (distinct : merged.Nodup) :
    (mergeFlowLabelNamespaces merged next).Nodup ∧
      ∀ ns, ns ∈ mergeFlowLabelNamespaces merged next ↔ ns ∈ merged ∨ ns ∈ next := by
  obtain ⟨mem, nodup⟩ := foldl_absent (f := fun out ns => if out.contains ns then out else out ++ [ns])
    (fun _ _ known => if_pos (by simpa using known)) (fun _ _ fresh => if_neg (by simpa using fresh)) next merged
  exact ⟨nodup distinct, mem⟩

/-! The merge. -/

/-- What a merge of these files is, told without their order where it does not matter. -/
structure MergedFrom (start : LocalManifest) (ms : List LocalManifest) (merged : LocalManifest) : Prop where
  name : merged.name = start.name
  version : merged.version = start.version
  capabilities : merged.capabilities = ms.flatMap (·.capabilities)
  serverVersion : Agreed [] (ms.map (·.serverVersion)) merged.serverVersion
  schemaVersion : Agreed [] (ms.map (·.schemaVersion)) merged.schemaVersion
  audience : Agreed [] (ms.map (·.audience)) merged.audience
  effectCeiling : Agreed none (ms.map (·.effectCeiling)) merged.effectCeiling
  distinct : merged.flowLabelNamespaces.Nodup
  namespaces : ∀ ns, ns ∈ merged.flowLabelNamespaces ↔ ∃ m ∈ ms, ns ∈ m.flowLabelNamespaces

/-- What one file does to the merge. -/
theorem mergeInto_ok : mergeInto merged m = .ok merged' ↔ ∃ serverVersion schemaVersion audience effectCeiling,
        Joins [] merged.serverVersion m.serverVersion serverVersion ∧
        Joins [] merged.schemaVersion m.schemaVersion schemaVersion ∧
        Joins [] merged.audience m.audience audience ∧
        Joins none merged.effectCeiling m.effectCeiling effectCeiling ∧ merged' = { merged with
          capabilities := merged.capabilities ++ m.capabilities
          serverVersion := serverVersion
          schemaVersion := schemaVersion
          audience := audience
          effectCeiling := effectCeiling
          flowLabelNamespaces := mergeFlowLabelNamespaces merged.flowLabelNamespaces m.flowLabelNamespaces } := by
  have bind {α β : Type} (x : Except Message α) (f : α → Except Message β) (b : β) :
      x >>= f = .ok b ↔ ∃ a, x = .ok a ∧ f a = .ok b := by
    cases x with
    | error err => exact iff_of_false nofun (by simp)
    | ok a => exact ⟨fun here => ⟨a, rfl, here⟩, fun ⟨_, same, here⟩ => Except.ok.inj same ▸ here⟩
  unfold mergeInto
  simp only [bind, mergeSingleValueField_ok, mergeEffectCeiling_ok, exists_and_left]
  refine exists_congr fun _ => and_congr_right fun _ => exists_congr fun _ => and_congr_right fun _ =>
    exists_congr fun _ => and_congr_right fun _ => exists_congr fun _ => and_congr_right fun _ => ?_
  exact ⟨fun same => (Except.ok.inj same).symm, fun same => congrArg Except.ok same.symm⟩

theorem mergeInto_step (so_far : MergedFrom start ms merged) (ok : mergeInto merged m = .ok merged') :
    MergedFrom start (ms ++ [m]) merged' := by
  obtain ⟨_, _, _, _, serverVersion, schemaVersion, audience, effectCeiling, rfl⟩ := mergeInto_ok.mp ok
  obtain ⟨nodup, mem⟩ :=
    mergeFlowLabelNamespaces_spec merged.flowLabelNamespaces m.flowLabelNamespaces so_far.distinct
  refine ⟨so_far.name, so_far.version, ?_, ?_, ?_, ?_, ?_, nodup, fun ns => (mem ns).trans ?_⟩
  · simp [so_far.capabilities]
  · rw [List.map_append]
    exact so_far.serverVersion.step serverVersion
  · rw [List.map_append]
    exact so_far.schemaVersion.step schemaVersion
  · rw [List.map_append]
    exact so_far.audience.step audience
  · rw [List.map_append]
    exact so_far.effectCeiling.step effectCeiling
  · simp [so_far.namespaces, or_and_right, exists_or]

theorem foldlM_mergeInto {ms rest : List LocalManifest}
    (so_far : MergedFrom start ms merged) (ok : rest.foldlM mergeInto merged = .ok merged') :
    MergedFrom start (ms ++ rest) merged' := by
  induction rest generalizing ms merged with
  | nil =>
    cases ok
    simpa using so_far
  | cons m rest ih =>
    rw [List.foldlM_cons] at ok
    cases here : mergeInto merged m with
    | error err => simp [here, Bind.bind, Except.bind] at ok
    | ok next =>
      rw [here] at ok
      rw [← List.singleton_append, ← List.append_assoc]
      exact ih (mergeInto_step so_far here) ok

/-- Every field the file sets is the other's. -/
structure Fits (whole m : LocalManifest) : Prop where
  serverVersion : m.serverVersion ≠ [] → m.serverVersion = whole.serverVersion
  schemaVersion : m.schemaVersion ≠ [] → m.schemaVersion = whole.schemaVersion
  audience : m.audience ≠ [] → m.audience = whole.audience
  effectCeiling : m.effectCeiling ≠ none → m.effectCeiling = whole.effectCeiling

theorem MergedFrom.fits {ms : List LocalManifest} (from_files : MergedFrom start ms merged) (mem : m ∈ ms) :
    Fits merged m where
  serverVersion := from_files.serverVersion.only _ (List.mem_map_of_mem mem)
  schemaVersion := from_files.schemaVersion.only _ (List.mem_map_of_mem mem)
  audience := from_files.audience.only _ (List.mem_map_of_mem mem)
  effectCeiling := from_files.effectCeiling.only _ (List.mem_map_of_mem mem)

theorem mergeInto_fits (fits : Fits whole merged) (fits' : Fits whole m) :
    ∃ merged', mergeInto merged m = .ok merged' ∧ Fits whole merged' := by
  obtain ⟨serverVersion, joins₁, fits₁⟩ := joins_fit fits.serverVersion fits'.serverVersion
  obtain ⟨schemaVersion, joins₂, fits₂⟩ := joins_fit fits.schemaVersion fits'.schemaVersion
  obtain ⟨audience, joins₃, fits₃⟩ := joins_fit fits.audience fits'.audience
  obtain ⟨effectCeiling, joins₄, fits₄⟩ := joins_fit fits.effectCeiling fits'.effectCeiling
  exact ⟨_, mergeInto_ok.mpr ⟨serverVersion, schemaVersion, audience, effectCeiling, joins₁, joins₂, joins₃,
    joins₄, rfl⟩, fits₁, fits₂, fits₃, fits₄⟩

theorem foldlM_mergeInto_fits {ms : List LocalManifest} (fits : Fits whole merged)
    (all : ∀ m ∈ ms, Fits whole m) : ∃ merged', ms.foldlM mergeInto merged = .ok merged' := by
  induction ms generalizing merged with
  | nil => exact ⟨merged, rfl⟩
  | cons m rest ih =>
    obtain ⟨next, ok, fits'⟩ := mergeInto_fits fits (all m (.head _))
    obtain ⟨merged', done⟩ := ih fits' fun m mem => all m (.tail _ mem)
    refine ⟨merged', ?_⟩
    rw [List.foldlM_cons, ok]
    exact done

/-- What a merge starts from. -/
def mergeStart (first : LocalManifest) : LocalManifest :=
  { name := first.name, version := first.version, description := first.description }

theorem mergedFrom_start (first : LocalManifest) : MergedFrom (mergeStart first) [] (mergeStart first) where
  name := rfl
  version := rfl
  capabilities := rfl
  serverVersion := ⟨nofun, fun set => absurd rfl set⟩
  schemaVersion := ⟨nofun, fun set => absurd rfl set⟩
  audience := ⟨nofun, fun set => absurd rfl set⟩
  effectCeiling := ⟨nofun, fun set => absurd rfl set⟩
  distinct := List.nodup_nil
  namespaces := by simp [mergeStart]

theorem fits_start (whole first : LocalManifest) : Fits whole (mergeStart first) where
  serverVersion := fun set => absurd rfl set
  schemaVersion := fun set => absurd rfl set
  audience := fun set => absurd rfl set
  effectCeiling := fun set => absurd rfl set

section Merge
variable {r : ManifestRules} {merged : LocalManifest} {files files' : List LocalManifest}

theorem accepted_ok : accepted r m what = .ok m' ↔ m' = m ∧ m.Accepted r := by
  rw [← validateLocalManifest_none]
  unfold accepted
  cases validateLocalManifest r m with
  | some error => simp
  | none => simp [eq_comm]

theorem nilManifest_some (files : List LocalManifest) : nilManifest (files.map some) = none := by
  rw [nilManifest, List.findSome?_eq_none_iff]
  rintro ⟨m, i⟩ mem
  obtain ⟨file, -, rfl⟩ := List.mem_map.mp (List.fst_mem_of_mem_zipIdx mem)
  rfl

/-- One file is itself. -/
theorem mergeManifests_one : mergeManifests r ([m].map some) = .ok merged ↔ merged = m ∧ m.Accepted r := by
  exact accepted_ok

theorem mergeManifests_many {rest : List LocalManifest} :
    mergeManifests r ((first :: second :: rest).map some) = .ok merged ↔ (first :: second :: rest).Pairwise Apart ∧
        (first :: second :: rest).foldlM mergeInto (mergeStart first) = .ok merged ∧ merged.Accepted r := by
  rw [mergeManifests, nilManifest_some]
  simp only [List.filterMap_map, Function.id_comp, List.filterMap_some]
  rw [← detectMergeConflicts_none]
  cases detectMergeConflicts (first :: second :: rest) with
  | some error => simp
  | none =>
    change (List.foldlM mergeInto (mergeStart first) (first :: second :: rest) >>= _) = _ ↔ _
    cases List.foldlM mergeInto (mergeStart first) (first :: second :: rest) with
    | error err => exact iff_of_false nofun (by simp)
    | ok whole =>
      refine accepted_ok.trans ?_
      constructor
      · rintro ⟨rfl, valid⟩
        exact ⟨rfl, rfl, valid⟩
      · rintro ⟨-, same, valid⟩
        cases same
        exact ⟨rfl, valid⟩

/-- Merged in another order, what is accepted stays so: its name and its version are a file's own. -/
theorem MergedFrom.accepted {start merged' first' : LocalManifest} (here : MergedFrom start files merged)
    (there : MergedFrom (mergeStart first') files' merged') (perm : files.Perm files')
    (first : first'.Accepted r) (valid : merged.Accepted r) : merged'.Accepted r := by
  have serverVersion := here.serverVersion.unique there.serverVersion fun _ => (perm.map _).mem_iff
  have schemaVersion := here.schemaVersion.unique there.schemaVersion fun _ => (perm.map _).mem_iff
  have audience : merged'.audience = merged.audience :=
    here.audience.unique there.audience fun _ => (perm.map _).mem_iff
  have effectCeiling := here.effectCeiling.unique there.effectCeiling fun _ => (perm.map _).mem_iff
  have capabilities (c : ManifestEntry) : c ∈ merged'.capabilities ↔ c ∈ merged.capabilities := by
    rw [there.capabilities, here.capabilities]
    exact (perm.symm.flatMap_right _).mem_iff
  have namespaces (ns : Bytes) : ns ∈ merged'.flowLabelNamespaces ↔ ns ∈ merged.flowLabelNamespaces := by
    rw [there.namespaces, here.namespaces]
    simp [perm.mem_iff]
  have scope : merged'.scope = merged.scope := by
    unfold LocalManifest.scope
    rw [schemaVersion]
    congr 1
    funext ns
    rw [Bool.eq_iff_iff, List.contains_iff_mem, List.contains_iff_mem, namespaces]
  constructor
  case name => simpa [there.name, mergeStart] using first.name
  case version => simpa [there.version, mergeStart] using first.version
  case namespaces => exact fun ns mem => valid.namespaces ns ((namespaces ns).mp mem)
  case distinct => exact there.distinct
  case ceiling => simpa only [effectCeiling] using valid.ceiling
  case serverVersion => simpa only [serverVersion] using valid.serverVersion
  case audience => simpa only [audience] using valid.audience
  case entries =>
    rw [scope]
    exact fun c mem => valid.entries c ((capabilities c).mp mem)
  case pins =>
    refine valid.pins.subset fun p mem => ?_
    obtain ⟨c, inside, pin⟩ := List.mem_flatMap.mp mem
    exact List.mem_flatMap.mpr ⟨c, (capabilities c).mp inside, pin⟩
  case grammar =>
    rw [effectCeiling, schemaVersion]
    rintro (ceiling | declared)
    · exact valid.grammar (.inl ceiling)
    · obtain ⟨ns, mem⟩ := List.exists_mem_of_ne_nil _ declared
      exact valid.grammar (.inr (List.ne_nil_of_mem ((namespaces ns).mp mem)))
  case tokens =>
    rw [schemaVersion]
    exact fun c mem => valid.tokens c ((capabilities c).mp mem)

/-- Files that merge are apart, and the merge has their entries in order. -/
theorem mergeManifests_entries (ok : mergeManifests r (files.map some) = .ok merged) :
    files.Pairwise Apart ∧ merged.capabilities = files.flatMap (·.capabilities) := by
  match files, ok with
  | [], ok =>
    cases ok
    exact ⟨List.Pairwise.nil, rfl⟩
  | [m], ok =>
    obtain ⟨rfl, -⟩ := mergeManifests_one.mp ok
    exact ⟨List.pairwise_singleton _ _, by simp⟩
  | first :: second :: rest, ok =>
    obtain ⟨apart, fold, -⟩ := mergeManifests_many.mp ok
    exact ⟨apart, (foldlM_mergeInto (mergedFrom_start first) fold).capabilities⟩

/-- A merge that succeeds does so in every order. -/
theorem mergeManifests_reorder (valid : ∀ m ∈ files, m.Accepted r) (perm : files.Perm files')
    (ok : mergeManifests r (files.map some) = .ok merged) :
    ∃ merged', mergeManifests r (files'.map some) = .ok merged' := by
  match files, files', perm, ok with
  | [], files', perm, ok =>
    obtain rfl := perm.nil_eq
    exact ⟨merged, ok⟩
  | [m], files', perm, ok =>
    obtain rfl := List.singleton_perm.mp perm
    exact ⟨merged, ok⟩
  | first :: second :: rest, [], perm, _ => simp at perm
  | first :: second :: rest, [m], perm, _ => simpa using perm.length_eq
  | first :: second :: rest, first' :: second' :: rest', perm, ok =>
    obtain ⟨apart, fold, accepted⟩ := mergeManifests_many.mp ok
    have here := foldlM_mergeInto (mergedFrom_start first) fold
    have fits : ∀ m ∈ first' :: second' :: rest', Fits merged m := fun m mem => here.fits (perm.mem_iff.mpr mem)
    obtain ⟨merged', fold'⟩ := foldlM_mergeInto_fits (fits_start merged first') fits
    have there := foldlM_mergeInto (mergedFrom_start first') fold'
    exact ⟨merged', mergeManifests_many.mpr ⟨pairwise_apart_perm valid perm apart, fold',
      here.accepted there perm (valid first' (perm.mem_iff.mpr (.head _))) accepted⟩⟩

end Merge

/-! Where an entry of the merge comes from. -/

/-- The entries of files taken in this order, each with its file and its place there. -/
def origins (files : List LocalManifest) (order : List (Fin files.length)) :
    List (Fin files.length × ManifestEntry × ℕ) :=
  order.flatMap fun f => (files.get f).capabilities.zipIdx.map fun entry => (f, entry)

section Origins
variable {files : List LocalManifest} {order order' : List (Fin files.length)}

theorem origins_entries : (origins files order).map (·.2.1) = (order.map files.get).flatMap (·.capabilities) := by
  simp [origins, List.map_flatMap, List.flatMap_map, Function.comp_def]

theorem mem_origins {f : Fin files.length} (mem : (f, c, i) ∈ origins files order) :
    c ∈ (files.get f).capabilities := by
  obtain ⟨file, -, inside⟩ := List.mem_flatMap.mp mem
  obtain ⟨entry, position, same⟩ := List.mem_map.mp inside
  cases same
  exact List.fst_mem_of_mem_zipIdx position

/-- The part of one file, as often as the file is taken. -/
theorem origins_file (f : Fin files.length) : (origins files order).filter (fun origin => decide (origin.1 = f)) =
      (List.replicate (order.count f) f).flatMap fun f =>
        (files.get f).capabilities.zipIdx.map fun entry => (f, entry) := by
  induction order with
  | nil => rfl
  | cons head rest ih =>
    rw [origins, List.flatMap_cons, List.filter_append, ← origins, ih]
    by_cases same : head = f
    · subst same
      simp [List.replicate_succ, List.filter_map, Function.comp_def]
    · simp [same, List.filter_map]

theorem select_origins {s : Selector} (perm : order.Perm order')
    (apart : ∀ a ∈ origins files order, ∀ b ∈ origins files order, s.admits a.2.1 = true →
      s.admits b.2.1 = true → s.key a.2.1 = s.key b.2.1 → a.1 = b.1) :
    s.select (·.2.1) (origins files order) = s.select (·.2.1) (origins files order') := by
  have part (keep : Fin files.length × ManifestEntry × ℕ → Bool) (admitted : ∀ a, keep a → s.admits a.2.1) :
      ((origins files order).filter keep).argmax (s.key ∘ (·.2.1)) =
        ((origins files order').filter keep).argmax (s.key ∘ (·.2.1)) := by
    have same (f : Fin files.length) : ((origins files order).filter keep).filter (fun a => decide (a.1 = f)) =
          ((origins files order').filter keep).filter fun a => decide (a.1 = f) := by
      rw [List.filter_comm, origins_file, List.filter_comm, origins_file, perm.count_eq]
    refine argmax_blocks same fun a memberA b memberB tie => ?_
    obtain ⟨insideA, keptA⟩ := List.mem_filter.mp memberA
    obtain ⟨insideB, keptB⟩ := List.mem_filter.mp memberB
    exact apart a insideA b insideB (admitted a keptA) (admitted b keptB) tie
  unfold Selector.select
  rw [part _ fun a kept => (Bool.and_eq_true_iff.mp kept).1, part _ fun a kept => kept]

end Origins

section Order
variable {r : ManifestRules} {files : List LocalManifest}

/-- Every target has a short pattern. -/
def LocalManifest.Short (m : LocalManifest) : Prop :=
  ∀ c ∈ m.capabilities, ∀ target ∈ parsedTarget c.target, shortPattern target.2

instance (m : LocalManifest) : Decidable m.Short := inferInstanceAs (Decidable (∀ c ∈ m.capabilities, _))

/-- No request ties entries of different files that are apart. -/
theorem untied (valid : ∀ m ∈ files, m.Accepted r) (short : ∀ m ∈ files, m.Short)
    (apart : files.Pairwise Apart) {s : Selector}
    (inF : c ∈ (files.get f).capabilities) (inG : d ∈ (files.get g).capabilities)
    (admitted : s.admits c = true) (admitted' : s.admits d = true) (tie : s.key c = s.key d) : f = g := by
  have memberF : files.get f ∈ files := files.get_mem f
  have memberG : files.get g ∈ files := files.get_mem g
  obtain ⟨_, _, entry⟩ := (valid _ memberF).entries c inF
  obtain ⟨_, _, entry'⟩ := (valid _ memberG).entries d inG
  have conflict := entriesConflict_of_tie entry entry' (short _ memberF c inF _ entry.parsed)
    (short _ memberG d inG _ entry'.parsed) admitted admitted' tie
  have ordered := List.pairwise_iff_get.mp apart
  rcases lt_trichotomy f g with before | same | after
  · simpa [conflict] using ordered f g before c inF d inG
  · exact same
  · simpa [conflict] using (ordered g f after).symm (valid _ memberG) c inF d inG

/-- The files merge in one order where they do in another, to the entries of the files in that
order; whatever is requested, the entry that governs it is of the same file and at the same place
there; and entries of different files that match one request never tie. -/
theorem merge_order_free (r : ManifestRules) (files : List LocalManifest)
    (valid : ∀ m ∈ files, validateLocalManifest r m = none) (short : ∀ m ∈ files, m.Short)
    {merged : LocalManifest} (ok : mergeManifests r (files.map some) = .ok merged)
    (order : List (Fin files.length)) (perm : order.Perm (List.finRange files.length)) :
    (∃ merged', mergeManifests r ((order.map files.get).map some) = .ok merged' ∧
      merged'.capabilities = (origins files order).map (·.2.1) ∧
      ∀ s : Selector, ((findConstraint merged'.capabilities s).bind fun i => (origins files order)[i]?) =
          (findConstraint merged.capabilities s).bind fun i => (origins files (List.finRange files.length))[i]?) ∧
    ∀ (s : Selector) (f g : Fin files.length), f ≠ g →
      ∀ c ∈ (files.get f).capabilities, ∀ d ∈ (files.get g).capabilities,
        s.admits c = true → s.admits d = true → s.key c ≠ s.key d := by
  have accepted : ∀ m ∈ files, m.Accepted r := fun m member => validateLocalManifest_none.mp (valid m member)
  have inOrder := List.map_get_finRange files
  have reordered : files.Perm (order.map files.get) := by
    have := (perm.map files.get).symm
    rwa [inOrder] at this
  obtain ⟨apart, entries⟩ := mergeManifests_entries ok
  have never {s : Selector} {f g : Fin files.length} {c d : ManifestEntry}
      (inF : c ∈ (files.get f).capabilities) (inG : d ∈ (files.get g).capabilities) :=
    untied accepted short apart (s := s) inF inG
  refine ⟨?_, fun s f g other c inF d inG admitted admitted' tie => other (never inF inG admitted admitted' tie)⟩
  obtain ⟨merged', ok'⟩ := mergeManifests_reorder accepted reordered ok
  obtain ⟨-, entries'⟩ := mergeManifests_entries ok'
  rw [← origins_entries] at entries'
  rw [← inOrder, ← origins_entries] at entries
  refine ⟨merged', ok', entries', fun s => ?_⟩
  rw [entries', entries, findConstraint_origin, findConstraint_origin]
  exact select_origins perm fun a memberA b memberB => never (mem_origins memberA) (mem_origins memberB)

/-- No check of single tokens. -/
def plainRules : ManifestRules where
  effectCeiling _ := none
  condition _ _ := none
  directive _ _ _ _ := none
  argumentSchema _ := none
  effectContract _ := none
  tokenRevision _ _ := none

def callable (target : String) : ManifestEntry where
  target := lit target
  actions := [lit "call"]
  enforcement := []
  argumentSchema := none
  principal := []
  effect := none
  conditions := []
  directives := []
  descriptionHash := []
  schema := none

/-- Every tool of a family in one file, one of them in another. -/
def familyPolicy : LocalManifest :=
  { name := lit "family", version := lit "1.0.0", capabilities := [callable "tool:git_*"] }

def memberPolicy : LocalManifest :=
  { name := lit "member", version := lit "1.0.0", capabilities := [callable "tool:git_log"] }

theorem merge_order_free_family : ∃ merged merged',
    mergeManifests plainRules ([familyPolicy, memberPolicy].map some) = .ok merged ∧
    mergeManifests plainRules ([memberPolicy, familyPolicy].map some) = .ok merged' ∧
    ∀ s : Selector,
      ((findConstraint merged'.capabilities s).bind fun i => (origins [familyPolicy, memberPolicy] [1, 0])[i]?) =
        (findConstraint merged.capabilities s).bind fun i => (origins [familyPolicy, memberPolicy] [0, 1])[i]? := by
  have merges : (mergeManifests plainRules ([familyPolicy, memberPolicy].map some)).isOk = true := by
    decide
  cases ok : mergeManifests plainRules ([familyPolicy, memberPolicy].map some) with
  | error err =>
    rw [ok] at merges
    cases merges
  | ok merged =>
    obtain ⟨⟨merged', ok', -, governed⟩, -⟩ := merge_order_free plainRules [familyPolicy, memberPolicy]
      (by decide) (by decide) ok [1, 0] (by decide)
    exact ⟨merged, merged', rfl, ok', governed⟩

end Order

theorem mergeFlowLabelNamespaces_nil {next : List Bytes} (distinct : next.Nodup) :
    mergeFlowLabelNamespaces [] next = next := by
  induction next using List.reverseRecOn with
  | nil => rfl
  | append_singleton rest last ih =>
    obtain ⟨before, -, apart⟩ := List.nodup_append.mp distinct
    have new : last ∉ rest := fun old => apart last old last (.head _) rfl
    simp_all [mergeFlowLabelNamespaces]

theorem joins_blank {α : Type} (blank v : α) : Joins blank blank v v :=
  (em (v = blank)).imp (fun unset => ⟨unset, unset⟩) fun set => ⟨set, .inl rfl, rfl⟩

/-- A manifest merged into its own start is itself. -/
theorem mergeInto_start {m : LocalManifest} (distinct : m.flowLabelNamespaces.Nodup) :
    mergeInto (mergeStart m) m = .ok m := by
  refine mergeInto_ok.mpr ⟨_, _, _, _, joins_blank _ _, joins_blank _ _, joins_blank _ _, joins_blank _ _, ?_⟩
  simp [mergeStart, mergeFlowLabelNamespaces_nil distinct]

/-- Files may be merged in stages: what some of them come to, merged with the rest, is what they
all come to, and is refused where they are. -/
theorem merge_in_stages (r : ManifestRules) (files more : List LocalManifest) {part : LocalManifest} (any : files ≠ [])
    (ok : mergeManifests r (files.map some) = .ok part) (merged : LocalManifest) :
    mergeManifests r ((part :: more).map some) = .ok merged ↔
      mergeManifests r ((files ++ more).map some) = .ok merged := by
  obtain ⟨apart, entries⟩ := mergeManifests_entries ok
  have whole (m : LocalManifest) : Apart part m ↔ ∀ f ∈ files, Apart f m := by
    simp only [Apart, entries, List.forall_mem_flatMap]
  match files, more with
  | [m], more =>
    obtain ⟨rfl, -⟩ := mergeManifests_one.mp ok
    rfl
  | first :: second :: rest, [] =>
    rw [List.append_nil, mergeManifests_one, ok, Except.ok.injEq, eq_comm]
    exact and_iff_left (mergeManifests_many.mp ok).2.2
  | first :: second :: rest, next :: more =>
    obtain ⟨-, fold, accepted⟩ := mergeManifests_many.mp ok
    rw [mergeManifests_many, List.cons_append, List.cons_append, mergeManifests_many, ← List.cons_append,
      ← List.cons_append, List.foldlM_append, fold, List.foldlM_cons, mergeInto_start accepted.distinct]
    refine and_congr ?_ Iff.rfl
    rw [List.pairwise_append, List.pairwise_cons, and_iff_right apart, and_comm, forall₂_comm]
    simp only [whole]

def shellPolicy : LocalManifest := { memberPolicy with capabilities := [callable "tool:sh"] }

theorem merge_in_stages_family : ∃ part merged, mergeManifests plainRules ([part, shellPolicy].map some) = .ok merged ∧
    merged.capabilities.map (·.target) = [lit "tool:git_*", lit "tool:git_log", lit "tool:sh"] :=
  ⟨_, _, (merge_in_stages plainRules [familyPolicy, memberPolicy] [shellPolicy] nofun rfl _).mpr rfl, rfl⟩

end Eunox
