import ClassAtlas.Importer
import ClassAtlas.Proofs.Settings.Layers
import ClassAtlas.Settings.Validation

/-!
# Settings that are accepted

`Setting.Allows` says which values a setting may have, and the three checks are told by it: that of
a layer asks it and refuses an empty pattern, that of merged settings asks it
(`Settings.validate_eq_ok_iff`), and the filters need no more than the patterns. Since merging only
chooses among values, layers that are accepted one by one give settings that are accepted, and an
importer for them (`accepted_throughout`).
-/

namespace ClassAtlas

/-! ## What a setting may be -/

/-- The values that a setting may have. -/
def Setting.Allows : (setting : Setting) → setting.Value → Prop
  | .classpath => fun (paths : List Path) => ∀ path ∈ paths, path.isEmpty = false
  | .javaHome => fun (path : Path) => path.isEmpty = false
  | .excludePatterns => fun (patterns : List String) =>
    ∀ pattern ∈ patterns, ∃ compiled, Glob.Pattern.compile pattern = .ok compiled
  | .workerThreads | .maxDepth => fun (count : Nat) => count ≠ 0
  | .excludeTests | .excludePackageInfos | .parallel | .followLinks => fun (_ : Bool) => True

/-- Every setting that has a value may have it. -/
def Allowed (get : (setting : Setting) → Option setting.Value) : Prop :=
  ∀ setting, ∀ value ∈ get setting, setting.Allows value

theorem Allowed.or {first second : (setting : Setting) → Option setting.Value}
    (one : Allowed first) (other : Allowed second) :
    Allowed fun setting => (first setting).or (second setting) := by
  intro setting value given
  rcases Option.or_eq_some_iff.mp given with own | ⟨_, behind⟩
  · exact one setting value own
  · exact other setting value behind

/-- The defaults are allowed. -/
theorem allowed_defaults : Allowed ({} : Settings).get := by
  intro setting value given
  cases setting with
  | classpath | excludePatterns =>
    cases given
    exact List.forall_mem_nil _
  | javaHome | workerThreads | maxDepth => cases given
  | excludeTests | excludePackageInfos | parallel | followLinks => trivial

/-- The settings that may not have every value. -/
theorem allowed_iff {get : (setting : Setting) → Option setting.Value} : Allowed get ↔
    (∀ paths ∈ get .classpath, Setting.classpath.Allows paths) ∧
    (∀ path ∈ get .javaHome, Setting.javaHome.Allows path) ∧
    (∀ patterns ∈ get .excludePatterns, Setting.excludePatterns.Allows patterns) ∧
    (∀ count ∈ get .workerThreads, Setting.workerThreads.Allows count) ∧
    (∀ depth ∈ get .maxDepth, Setting.maxDepth.Allows depth) := by
  refine ⟨fun h => ⟨h _, h _, h _, h _, h _⟩, fun ⟨paths, home, patterns, workers, depth⟩ => ?_⟩
  intro setting
  cases setting with
  | classpath => exact paths
  | javaHome => exact home
  | excludePatterns => exact patterns
  | workerThreads => exact workers
  | maxDepth => exact depth
  | excludeTests | excludePackageInfos | parallel | followLinks => exact fun _ _ => trivial

/-! ## The checks -/

theorem firstError_eq_ok_iff {checks : List (Option String)} :
    firstError checks = .ok () ↔ ∀ check ∈ checks, check = none := by
  unfold firstError
  cases found : checks.findSome? id with
  | none =>
    rw [List.findSome?_eq_none_iff] at found
    exact ⟨fun _ => found, fun _ => rfl⟩
  | some message =>
    obtain ⟨check, inside, told⟩ := List.exists_of_findSome?_eq_some found
    refine ⟨fun h => (nomatch h), fun clear => ?_⟩
    cases (clear check inside).symm.trans told

/-- Both checks go through the same rules, with their own words. Workers and depth are looked at
last. -/
theorem firstError_rules_iff {paths : List Path} {home? : Option Path} {patterns : List String}
    {check : String → Option String} {workers? depth? : Option Nat}
    {badPath badHome badWorkers badDepth : String} :
    firstError ([if paths.any Path.isEmpty then some badPath else none,
        if home?.any Path.isEmpty then some badHome else none] ++ patterns.map check ++
        [if workers? = some 0 then some badWorkers else none,
          if depth? = some 0 then some badDepth else none]) = .ok () ↔
      (∀ path ∈ paths, path.isEmpty = false) ∧ (∀ path ∈ home?, path.isEmpty = false) ∧
      (∀ pattern ∈ patterns, check pattern = none) ∧ (∀ count ∈ workers?, count ≠ 0) ∧
      ∀ depth ∈ depth?, depth ≠ 0 := by
  have passes : ∀ {condition : Prop} [Decidable condition] {message : String},
      (if condition then some message else none) = none ↔ ¬ condition := by
    intro condition _ message
    split <;> simp [*]
  rw [firstError_eq_ok_iff]
  simp only [List.mem_append, or_imp, forall_and, List.forall_mem_cons,
    List.forall_mem_map, passes, List.any_eq_true, not_exists, not_and, Bool.not_eq_true, and_assoc]
  cases home? <;> cases workers? <;> cases depth? <;> simp

theorem patternFault?_eq_none_iff {pattern : String} :
    patternFault? pattern = none ↔ ∃ compiled, Glob.Pattern.compile pattern = .ok compiled := by
  unfold patternFault?
  cases Glob.Pattern.compile pattern <;> simp

theorem PartialSettings.checkPattern_eq_none_iff {path : Path} {pattern : String} :
    checkPattern path pattern = none ↔
      (∃ compiled, Glob.Pattern.compile pattern = .ok compiled) ∧ pattern ≠ "" := by
  unfold checkPattern
  split
  next empty => simp [String.isEmpty_iff.mp empty]
  next filled => simp [patternFault?_eq_none_iff, mt String.isEmpty_iff.mpr filled]

theorem forall_mem_getD {α : Type} {p : α → Prop} {items? : Option (List α)} :
    (∀ item ∈ items?.getD [], p item) ↔ ∀ items ∈ items?, ∀ item ∈ items, p item := by
  cases items? <;> simp

/-- A layer is accepted if each setting may have its value, and no pattern is empty. -/
theorem PartialSettings.validate_eq_ok_iff {layer : PartialSettings} {path : Path} :
    layer.validate path = .ok () ↔ Allowed layer.get ∧
      ∀ patterns ∈ layer.excludePatterns, ∀ pattern ∈ patterns, pattern ≠ "" := by
  rw [validate, firstError_rules_iff, allowed_iff]
  simp only [forall_mem_getD, checkPattern_eq_none_iff, imp_and, forall_and]
  constructor
  · rintro ⟨paths, home, ⟨patterns, filled⟩, workers, depth⟩
    exact ⟨⟨paths, home, patterns, workers, depth⟩, filled⟩
  · rintro ⟨⟨paths, home, patterns, workers, depth⟩, filled⟩
    exact ⟨paths, home, ⟨patterns, filled⟩, workers, depth⟩

/-- Settings are accepted if each of them may have its value. -/
theorem Settings.validate_eq_ok_iff {settings : Settings} :
    settings.validate = .ok () ↔ Allowed settings.get := by
  rw [validate, firstError_rules_iff, allowed_iff]
  simp only [Option.map_eq_none_iff, patternFault?_eq_none_iff]
  constructor
  · rintro ⟨paths, home, patterns, workers, depth⟩
    refine ⟨?_, home, ?_, workers, depth⟩
    · rintro _ ⟨⟩
      exact paths
    · rintro _ ⟨⟩
      exact patterns
  · rintro ⟨paths, home, patterns, workers, depth⟩
    exact ⟨paths _ rfl, home, patterns _ rfl, workers, depth⟩

/-! ## From layers to an importer -/

/-- Laying one allowed layer over another chooses among their values. -/
theorem PartialSettings.allowed_merge {base layer : PartialSettings} (below : Allowed base.get)
    (above : Allowed layer.get) : Allowed (base.merge layer).get := by
  intro setting
  rw [get_merge]
  exact above.or below setting

theorem PartialSettings.allowed_foldl {layers : List PartialSettings} {base : PartialSettings}
    (below : Allowed base.get) (above : ∀ layer ∈ layers, Allowed layer.get) :
    Allowed (layers.foldl merge base).get := by
  induction layers generalizing base with
  | nil => exact below
  | cons layer layers ih =>
    obtain ⟨first, others⟩ := List.forall_mem_cons.mp above
    exact ih (allowed_merge below first) others

theorem PartialSettings.allowed_complete {layer : PartialSettings} (h : Allowed layer.get) :
    Allowed layer.complete.get := by
  intro setting
  rw [get_complete]
  exact h.or allowed_defaults setting

/-- There is an importer for settings if their patterns compile; nothing else is asked of them. -/
theorem Importer.exists_ofSettings_iff {settings : Settings} :
    (∃ filters, ofSettings settings = .ok { settings, filters }) ↔
      ∀ pattern ∈ settings.excludePatterns,
        ∃ compiled, Glob.Pattern.compile pattern = .ok compiled := by
  rw [← exists_mapM_iff, ofSettings, Filters.ofSettings, LocationFilter.excludingPatterns]
  cases patterns : settings.excludePatterns with
  | nil => simp [bind, Except.bind, pure, Except.pure, Except.map]
  | cons first others =>
    cases compiled : (first :: others).mapM Glob.Pattern.compile <;>
      simp [bind, Except.bind, pure, Except.pure, Except.map]

/-- Layers that are accepted one by one, merged in any order, are accepted as settings; and settings
that are accepted have an importer. -/
theorem accepted_throughout :
    (∀ layers : List PartialSettings, (∀ layer ∈ layers, ∃ path, layer.validate path = .ok ()) →
      ∀ ordered : List PartialSettings, ordered.Perm layers →
        let merged := ordered.foldl PartialSettings.merge {}
        merged.complete.validate = .ok () ∧ merged.build = .ok merged.complete) ∧
    ∀ settings : Settings, settings.validate = .ok () →
      ∃ filters, Importer.ofSettings settings = .ok { settings, filters } := by
  constructor
  · intro layers accepted ordered perm merged
    have each : ∀ layer ∈ ordered, Allowed layer.get := by
      intro layer inside
      obtain ⟨path, accepted⟩ := accepted layer (perm.subset inside)
      exact (PartialSettings.validate_eq_ok_iff.mp accepted).1
    have empty : Allowed ({} : PartialSettings).get := by
      intro setting value given
      rw [PartialSettings.get_empty] at given
      cases given
    have sound : merged.complete.validate = .ok () :=
      Settings.validate_eq_ok_iff.mpr
        (PartialSettings.allowed_complete (PartialSettings.allowed_foldl empty each))
    refine ⟨sound, ?_⟩
    rw [PartialSettings.build, sound]
    rfl
  · intro settings accepted
    have allowed := Settings.validate_eq_ok_iff.mp accepted
    exact Importer.exists_ofSettings_iff.mpr (allowed .excludePatterns _ rfl)

/-- Two layers that set different things and one thing twice, the later one first; and their
settings. -/
theorem accepted_throughout_reversed :
    let low : PartialSettings := { excludePatterns := some ["**/gen/*"], workerThreads := some 2 }
    let high : PartialSettings := { classpath := some [⟨"/lib"⟩], workerThreads := some 8 }
    let merged := [high, low].foldl PartialSettings.merge {}
    (∀ layer ∈ [low, high], ∃ path, layer.validate path = .ok ()) ∧
    [high, low].Perm [low, high] ∧ merged.build = .ok merged.complete ∧
    merged.complete.validate = .ok () ∧ merged.complete.workerThreads = some 2 ∧
    ∃ filters,
      Importer.ofSettings merged.complete = .ok { settings := merged.complete, filters } := by
  intro low high merged
  have accepted : ∀ layer ∈ [low, high], ∃ path, layer.validate path = .ok () := by
    intro layer inside
    rcases List.mem_pair.mp inside with rfl | rfl
    · exact ⟨⟨"c.toml"⟩, rfl⟩
    · exact ⟨⟨"d.toml"⟩, rfl⟩
  have swapped : [high, low].Perm [low, high] := List.Perm.swap low high []
  obtain ⟨sound, built⟩ := accepted_throughout.1 _ accepted _ swapped
  exact ⟨accepted, swapped, built, sound, rfl, accepted_throughout.2 _ sound⟩

end ClassAtlas
