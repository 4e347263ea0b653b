import ClassAtlas.Proofs.ClassGraph.Firsts
import ClassAtlas.Proofs.Disk.Plain
import ClassAtlas.Proofs.Results
import ClassAtlas.Settings.Layers
import Mathlib.Data.List.Nodup
import Mathlib.Data.List.Pairwise

/-!
# Which layer has the last word

Offers are taken in a fixed order (`SettingsOffer.Ranked`), which their priorities and their places
in the list determine. Taking them one over the other ends at the first one that cannot be loaded;
otherwise each setting, on its own, has the value of the last offer that sets it
(`PartialSettings.Layered`).
-/

namespace ClassAtlas

/-! ## Settings one by one -/

/-- A single setting. -/
inductive Setting where
  | classpath
  | javaHome
  | excludePatterns
  | excludeTests
  | excludePackageInfos
  | parallel
  | workerThreads
  | followLinks
  | maxDepth
  deriving Repr, DecidableEq

/-- What a setting can be set to. -/
def Setting.Value : Setting → Type
  | classpath => List Path
  | javaHome => Path
  | excludePatterns => List String
  | excludeTests | excludePackageInfos | parallel | followLinks => Bool
  | workerThreads | maxDepth => Nat

/-- What a layer sets a setting to, if it does. -/
def PartialSettings.get (layer : PartialSettings) : (setting : Setting) → Option setting.Value
  | .classpath => layer.classpath
  | .javaHome => layer.javaHome
  | .excludePatterns => layer.excludePatterns
  | .excludeTests => layer.excludeTests
  | .excludePackageInfos => layer.excludePackageInfos
  | .parallel => layer.parallel
  | .workerThreads => layer.workerThreads
  | .followLinks => layer.followLinks
  | .maxDepth => layer.maxDepth

/-- The value of a setting. Java home, workers and depth may have none. -/
def Settings.get (settings : Settings) : (setting : Setting) → Option setting.Value
  | .classpath => some settings.classpath
  | .javaHome => settings.javaHome
  | .excludePatterns => some settings.excludePatterns
  | .excludeTests => some settings.excludeTests
  | .excludePackageInfos => some settings.excludePackageInfos
  | .parallel => some settings.parallel
  | .workerThreads => settings.workerThreads
  | .followLinks => some settings.followLinks
  | .maxDepth => settings.maxDepth

namespace PartialSettings

/-- A layer is what it sets. -/
theorem ext_get {layer other : PartialSettings}
    (same : ∀ setting, layer.get setting = other.get setting) : layer = other := by
  cases layer
  cases other
  rw [mk.injEq]
  exact ⟨same .classpath, same .javaHome, same .excludePatterns, same .excludeTests,
    same .excludePackageInfos, same .parallel, same .workerThreads, same .followLinks,
    same .maxDepth⟩

theorem get_merge (base layer : PartialSettings) (setting : Setting) :
    (base.merge layer).get setting = (layer.get setting).or (base.get setting) := by
  cases setting <;> rfl

theorem get_complete (layer : PartialSettings) (setting : Setting) :
    layer.complete.get setting = (layer.get setting).or (({} : Settings).get setting) := by
  have filled : ∀ {α : Type} (set? : Option α) (standard : α),
      some (set?.getD standard) = set?.or (some standard) := by
    intro α set? standard
    cases set? <;> rfl
  cases setting with
  | javaHome | workerThreads | maxDepth => rfl
  | classpath | excludePatterns | excludeTests | excludePackageInfos | parallel | followLinks =>
    exact filled _ _

theorem get_empty (setting : Setting) : ({} : PartialSettings).get setting = none := by
  cases setting <;> rfl

end PartialSettings

/-! ## The order of offers -/

namespace SettingsOffer

/-- The offers in the order in which they are taken: their priorities ascend, and those of one
priority stay as they were listed. -/
structure Ranked (offers ordered : List SettingsOffer) : Prop where
  ascending : ordered.Pairwise fun a b => a.priority ≤ b.priority
  stable : ∀ priority,
    ordered.filter (·.priority = priority) = offers.filter (·.priority = priority)

/-- The offers sorted by priority. -/
def sorted (offers : List SettingsOffer) : List SettingsOffer :=
  offers.mergeSort fun a b => decide (a.priority ≤ b.priority)

theorem ranked_sorted (offers : List SettingsOffer) : Ranked offers (sorted offers) := by
  constructor
  · exact pairwise_le_mergeSort SettingsOffer.priority offers
  · intro priority
    -- Those of one priority are in order as they stand, so sorting keeps them so.
    have level : (offers.filter (·.priority = priority)).Pairwise fun a b =>
        decide (a.priority ≤ b.priority) = true := by
      refine List.pairwise_of_forall_mem_list fun a inside b inside' => decide_eq_true ?_
      have first := of_decide_eq_true (List.mem_filter.mp inside).2
      have second := of_decide_eq_true (List.mem_filter.mp inside').2
      exact Nat.le_of_eq (first.trans second.symm)
    have kept := (List.sublist_mergeSort (fun _ _ _ => decide_le_trans)
      (fun _ _ => decide_le_total _ _) level List.filter_sublist).filter
        fun offer => decide (offer.priority = priority)
    rw [List.filter_filter, List.filter_congr fun offer _ => Bool.and_self _] at kept
    have count := ((List.mergeSort_perm offers fun a b => decide (a.priority ≤ b.priority)).filter
      fun offer => decide (offer.priority = priority)).length_eq
    exact (kept.eq_of_length_le (Nat.le_of_eq count)).symm

section Levels

variable {listed ordered other : List SettingsOffer} {first : SettingsOffer}

theorem filter_first (first : SettingsOffer) (rest : List SettingsOffer) :
    (first :: rest).filter (·.priority = first.priority) =
      first :: rest.filter (·.priority = first.priority) :=
  List.filter_cons_of_pos (decide_eq_true rfl)

theorem mem_level {offer : SettingsOffer} :
    offer ∈ listed.filter (·.priority = offer.priority) ↔ offer ∈ listed := by
  rw [List.mem_filter, decide_eq_true rfl]
  exact and_iff_left rfl

/-- The first of ascending offers has the least priority. -/
theorem least_of_ascending {rest : List SettingsOffer} {offer : SettingsOffer}
    (ascending : (first :: rest).Pairwise fun a b => a.priority ≤ b.priority)
    (inside : offer ∈ first :: rest) : first.priority ≤ offer.priority := by
  rcases List.mem_cons.mp inside with rfl | later
  · exact Nat.le_refl _
  · exact List.rel_of_pairwise_cons ascending later

/-- Ascending lists are equal if they have the same offers of each priority. -/
theorem eq_of_levels (ascending : ordered.Pairwise fun a b => a.priority ≤ b.priority)
    (ascending' : other.Pairwise fun a b => a.priority ≤ b.priority)
    (levels : ∀ priority,
      ordered.filter (·.priority = priority) = other.filter (·.priority = priority)) :
    ordered = other := by
  have same : ∀ offer, offer ∈ ordered ↔ offer ∈ other := by
    intro offer
    rw [← mem_level, levels, mem_level]
  induction ordered generalizing other with
  | nil =>
    cases other with
    | nil => rfl
    | cons first rest => cases (same first).mpr List.mem_cons_self
  | cons first rest ih =>
    cases other with
    | nil => cases (same first).mp List.mem_cons_self
    | cons first' rest' =>
      have least := least_of_ascending ascending ((same first').mpr List.mem_cons_self)
      have least' := least_of_ascending ascending' ((same first).mp List.mem_cons_self)
      have level := levels first.priority
      rw [filter_first, Nat.le_antisymm least least', filter_first] at level
      obtain ⟨rfl, _⟩ := List.cons.inj level
      have rests : ∀ priority, rest.filter (·.priority = priority) =
          rest'.filter (·.priority = priority) := by
        intro priority
        have level := levels priority
        rw [List.filter_cons, List.filter_cons] at level
        split at level
        · exact (List.cons.inj level).2
        · exact level
      have same' : ∀ offer, offer ∈ rest ↔ offer ∈ rest' := by
        intro offer
        rw [← mem_level, rests, mem_level]
      rw [ih (List.pairwise_cons.mp ascending).2 (List.pairwise_cons.mp ascending').2 rests same']

end Levels

namespace Ranked

variable {offers ordered other : List SettingsOffer}

theorem mem_iff (ranked : Ranked offers ordered) {offer : SettingsOffer} :
    offer ∈ ordered ↔ offer ∈ offers := by
  rw [← mem_level, ranked.stable, mem_level]

/-- There is one such order. -/
theorem unique (ranked : Ranked offers ordered) (ranked' : Ranked offers other) :
    other = ordered :=
  eq_of_levels ranked'.ascending ranked.ascending fun priority =>
    (ranked'.stable priority).trans (ranked.stable priority).symm

/-- Where no two priorities are equal, the order does not depend on the list. -/
theorem of_perm (ranked : Ranked offers ordered) (perm : other.Perm offers)
    (apart : (offers.map (·.priority)).Nodup) : Ranked other ordered := by
  refine ⟨ranked.ascending, fun priority => ?_⟩
  rw [ranked.stable]
  have alone : ∀ a ∈ offers.filter (·.priority = priority),
      ∀ b ∈ offers.filter (·.priority = priority), a = b := by
    intro a inside b inside'
    obtain ⟨there, level⟩ := List.mem_filter.mp inside
    obtain ⟨there', level'⟩ := List.mem_filter.mp inside'
    have same := (of_decide_eq_true level).trans (of_decide_eq_true level').symm
    exact List.inj_on_of_nodup_map apart there there' same
  have level := perm.filter fun offer => decide (offer.priority = priority)
  have equal : (offers.filter (·.priority = priority)).Pairwise fun a b => a = b :=
    List.pairwise_of_forall_mem_list alone
  have equal' : (other.filter (·.priority = priority)).Pairwise fun a b => a = b :=
    List.pairwise_of_forall_mem_list fun a inside b inside' =>
      alone a (level.subset inside) b (level.subset inside')
  exact List.Perm.eq_of_pairwise (fun _ _ _ _ same _ => same) equal equal' level.symm

end Ranked

end SettingsOffer

/-! ## Layers one over the other -/

namespace SettingsOffer

/-- The offer is there and cannot be loaded. -/
def Fails (offer : SettingsOffer) (error : ImportError) : Prop :=
  offer.available = true ∧ offer.loaded = .error error

/-- What the offer sets a setting to, if it is there. -/
def get (offer : SettingsOffer) (setting : Setting) : Option setting.Value :=
  if offer.available then offer.loaded.toOption.bind (·.get setting) else none

/-- What the last of the offers that set a setting sets it to. -/
def lastSet (setting : Setting) (ordered : List SettingsOffer) : Option setting.Value :=
  ordered.reverse.findSome? (·.get setting)

theorem lastSet_cons (setting : Setting) (offer : SettingsOffer) (rest : List SettingsOffer) :
    lastSet setting (offer :: rest) = (lastSet setting rest).or (offer.get setting) := by
  rw [lastSet, List.reverse_cons, List.findSome?_append, List.findSome?_singleton, lastSet]

end SettingsOffer

namespace PartialSettings

open SettingsOffer

/-- What comes of taking offers in an order, each over what was there before. -/
structure Layered (settings : PartialSettings) (ordered : List SettingsOffer)
    (result : Except ImportError PartialSettings) : Prop where
  /-- The first offer that cannot be loaded is the one that is reported. -/
  fails : ∀ error, result = .error error ↔ ∃ front offer back, ordered = front ++ offer :: back ∧
    (∀ earlier ∈ front, ∀ other, ¬ earlier.Fails other) ∧ offer.Fails error
  /-- Otherwise the last offer that sets a setting has the last word on it. -/
  sets : ∀ merged, result = .ok merged ↔ (∀ offer ∈ ordered, ∀ error, ¬ offer.Fails error) ∧
    ∀ setting, merged.get setting = (lastSet setting ordered).or (settings.get setting)

theorem load_eq_error_iff {settings : PartialSettings} {offer : SettingsOffer}
    {error : ImportError} : settings.load offer = .error error ↔ offer.Fails error := by
  unfold load Fails
  cases offer.available with
  | false => simp
  | true => cases offer.loaded <;> simp [Except.map]

/-- An offer is not there, or it can be loaded and is put over what was there before. -/
theorem load_eq_ok {settings next : PartialSettings} {offer : SettingsOffer}
    (h : settings.load offer = .ok next) :
    (offer.available = false ∧ next = settings) ∨
      ∃ layer, offer.available = true ∧ offer.loaded = .ok layer ∧ next = settings.merge layer := by
  unfold load at h
  split at h
  next available =>
    right
    obtain ⟨layer, loaded, rfl⟩ := ok_of_map h
    exact ⟨layer, available, loaded, rfl⟩
  next missing =>
    left
    cases h
    exact ⟨Bool.eq_false_iff.mpr missing, rfl⟩

/-- One step: what an offer sets is over what was set before. -/
theorem get_of_load {settings next : PartialSettings} {offer : SettingsOffer}
    (h : settings.load offer = .ok next) (setting : Setting) :
    next.get setting = (offer.get setting).or (settings.get setting) := by
  unfold SettingsOffer.get
  rcases load_eq_ok h with ⟨missing, rfl⟩ | ⟨layer, available, loaded, rfl⟩
  · rw [missing, if_neg Bool.false_ne_true, Option.none_or]
  · rw [available, if_pos rfl, loaded, get_merge]
    rfl

theorem layered_nil (settings : PartialSettings) : settings.Layered [] (.ok settings) := by
  constructor
  · intro error
    constructor
    · intro refused
      cases refused
    · rintro ⟨front, offer, back, split, _⟩
      exact absurd split.symm (List.append_ne_nil_of_right_ne_nil _ (List.cons_ne_nil _ _))
  · intro merged
    constructor
    · rintro ⟨⟩
      exact ⟨List.forall_mem_nil _, fun setting => rfl⟩
    · rintro ⟨_, same⟩
      exact congrArg Except.ok (ext_get fun setting => (same setting).symm)

/-- An offer in front that cannot be loaded is the one that is reported. -/
theorem layered_cons_of_fails (settings : PartialSettings) {first : SettingsOffer}
    {cause : ImportError} (broken : first.Fails cause) (rest : List SettingsOffer) :
    settings.Layered (first :: rest) (.error cause) := by
  constructor
  · intro error
    constructor
    · rintro ⟨⟩
      exact ⟨[], first, rest, rfl, List.forall_mem_nil _, broken⟩
    · rintro ⟨front, offer, back, split, sound, fails⟩
      rcases List.cons_eq_append_iff.mp split with ⟨rfl, same⟩ | ⟨more, rfl, _⟩
      · obtain ⟨rfl, _⟩ := List.cons.inj same
        exact broken.2.symm.trans fails.2
      · exact absurd broken (sound first List.mem_cons_self cause)
  · intro merged
    constructor
    · intro given
      cases given
    · rintro ⟨sound, _⟩
      exact absurd broken (sound first List.mem_cons_self cause)

/-- An offer in front that can be loaded is under the others. -/
theorem Layered.cons {settings next : PartialSettings} {first : SettingsOffer}
    {rest : List SettingsOffer} {result : Except ImportError PartialSettings}
    (step : settings.load first = .ok next) (layered : next.Layered rest result) :
    settings.Layered (first :: rest) result := by
  have sound : ∀ error, ¬ first.Fails error := by
    intro error fails
    have refused : settings.load first = _ := load_eq_error_iff.mpr fails
    rw [step] at refused
    cases refused
  obtain ⟨fails, sets⟩ := layered
  constructor
  · intro error
    refine (fails error).trans ?_
    constructor
    · rintro ⟨front, offer, back, rfl, before, broken⟩
      exact ⟨first :: front, offer, back, rfl, List.forall_mem_cons.mpr ⟨sound, before⟩, broken⟩
    · rintro ⟨front, offer, back, split, before, broken⟩
      rcases List.cons_eq_append_iff.mp split with ⟨rfl, same⟩ | ⟨more, rfl, rfl⟩
      · obtain ⟨rfl, _⟩ := List.cons.inj same
        exact absurd broken (sound error)
      · exact ⟨more, offer, back, rfl, (List.forall_mem_cons.mp before).2, broken⟩
  · intro merged
    refine (sets merged).trans ?_
    have laid : ∀ setting, (lastSet setting (first :: rest)).or (settings.get setting) =
        (lastSet setting rest).or (next.get setting) := by
      intro setting
      rw [lastSet_cons, Option.or_assoc, get_of_load step]
    rw [List.forall_mem_cons, and_iff_right sound]
    simp only [laid]

/-- All steps: the run is what its order says. -/
theorem layered_foldlM (settings : PartialSettings) (ordered : List SettingsOffer) :
    settings.Layered ordered (ordered.foldlM load settings) := by
  induction ordered generalizing settings with
  | nil => exact layered_nil settings
  | cons first rest ih =>
    rw [List.foldlM_cons]
    cases step : settings.load first with
    | error cause => exact layered_cons_of_fails settings (load_eq_error_iff.mp step) rest
    | ok next => exact .cons step (ih next)

theorem loadAll_eq (settings : PartialSettings) (offers : List SettingsOffer) :
    settings.loadAll offers = (sorted offers).foldlM load settings := rfl

theorem layered_loadAll (settings : PartialSettings) {offers ordered : List SettingsOffer}
    (ranked : Ranked offers ordered) : settings.Layered ordered (settings.loadAll offers) := by
  rw [loadAll_eq, ranked.unique (ranked_sorted offers)]
  exact layered_foldlM settings ordered

/-- Offers fail together if and only if one of them fails. -/
theorem exists_loadAll_eq_error_iff (settings : PartialSettings) (offers : List SettingsOffer) :
    (∃ error, settings.loadAll offers = .error error) ↔
      ∃ offer ∈ offers, ∃ error, offer.Fails error := by
  have ranked := ranked_sorted offers
  obtain ⟨fails, sets⟩ := settings.layered_loadAll ranked
  constructor
  · rintro ⟨error, refused⟩
    obtain ⟨front, offer, back, split, _, broken⟩ := (fails error).mp refused
    refine ⟨offer, ranked.mem_iff.mp ?_, error, broken⟩
    rw [split]
    exact List.mem_append_right _ List.mem_cons_self
  · rintro ⟨offer, inside, error, broken⟩
    cases result : settings.loadAll offers with
    | error cause => exact ⟨cause, rfl⟩
    | ok merged =>
      have sound := ((sets merged).mp result).1
      exact absurd broken (sound offer (ranked.mem_iff.mpr inside) error)

end PartialSettings

/-! ## Configuration files and variables -/

/-- Variables of which none is set set nothing. -/
theorem PartialSettings.ofEnvironment_of_not_hasSettings {environment : Environment}
    {family : String} (bare : environment.hasSettings family = false) :
    PartialSettings.ofEnvironment environment family = .ok {} := by
  have unset : ∀ key ∈ Environment.settingKeys, environment.setting? family key = .none := by
    intro key inside
    have missing := List.any_eq_false.mp bare key inside
    simpa using missing
  rw [ofEnvironment, Environment.workerThreads, Environment.flag, Environment.flag,
    unset "WORKER_THREADS" (by decide), unset "EXCLUDE_TESTS" (by decide),
    unset "PARALLEL" (by decide), unset "CLASSPATH" (by decide), unset "JAVA_HOME" (by decide),
    unset "EXCLUDE" (by decide)]
  rfl

namespace Settings

open PartialSettings

theorem get_of_build {layers : PartialSettings} {settings : Settings}
    (h : layers.build = .ok settings) (setting : Setting) :
    settings.get setting = (layers.get setting).or (({} : Settings).get setting) := by
  obtain ⟨_, _, h⟩ := ok_of_bind h
  cases h
  exact get_complete layers setting

/-- A file that was added is one that can be read. -/
theorem exists_of_addFile {base : PartialSettings} {disk : Disk} {environment : Environment}
    {path : Path} (h : PartialSettings.addFile {} disk environment path = .ok base) :
    ∃ file, disk.readConfig path = .ok file ∧ ∀ setting, base.get setting = file.get setting := by
  unfold addFile SettingsSource.offer SettingsSource.ofFile at h
  dsimp only at h
  split at h
  · obtain ⟨file, read, rfl⟩ := ok_of_map h
    refine ⟨file, read, fun setting => ?_⟩
    rw [get_merge, get_empty, Option.or_none]
  · cases h

/-- What the variables set is over what was set before, whether or not they count as there. -/
theorem exists_of_load_variables {base next : PartialSettings} {disk : Disk}
    {environment : Environment} {family : String}
    (h : base.load ((SettingsSource.ofVariables family).offer disk environment) = .ok next) :
    ∃ vars, PartialSettings.ofEnvironment environment family = .ok vars ∧
      ∀ setting, next.get setting = (vars.get setting).or (base.get setting) := by
  rcases load_eq_ok h with ⟨missing, rfl⟩ | ⟨vars, _, loaded, rfl⟩
  · refine ⟨{}, ofEnvironment_of_not_hasSettings missing, fun setting => ?_⟩
    rw [get_empty, Option.none_or]
  · exact ⟨vars, loaded, get_merge base vars⟩

/-- Overrides are over variables, variables over the file, and the file over what is standard. -/
theorem exists_of_loadWithFile {settings : Settings} {disk : Disk} {environment : Environment}
    {path : Path} {family : String} {overrides : PartialSettings}
    (h : loadWithFile disk environment path family overrides = .ok settings) :
    ∃ file vars, disk.readConfig path = .ok file ∧
      PartialSettings.ofEnvironment environment family = .ok vars ∧
      ∀ setting, settings.get setting = (overrides.get setting).or
        ((vars.get setting).or ((file.get setting).or (({} : Settings).get setting))) := by
  obtain ⟨base, added, h⟩ := ok_of_bind h
  obtain ⟨next, loaded, h⟩ := ok_of_bind h
  obtain ⟨file, read, fromFile⟩ := exists_of_addFile added
  obtain ⟨vars, given, fromVariables⟩ := exists_of_load_variables loaded
  refine ⟨file, vars, read, given, fun setting => ?_⟩
  rw [get_of_build h, get_merge, fromVariables, fromFile, Option.or_assoc, Option.or_assoc]

/-- Offers are taken by ascending priority, and those of one priority as they are listed. If one of
them is there and cannot be loaded, the first such is reported; otherwise each setting has the value
of the last offer that sets it, or the one it had before. So the list does not matter where no two
priorities are equal. With a file, each setting is that of the overrides, of the variables, of the
file, or the standard one: the first of these that there is. -/
theorem layered :
    (∀ (settings : PartialSettings) (offers : List SettingsOffer),
      ((∃ error, settings.loadAll offers = .error error) ↔
        ∃ offer ∈ offers, ∃ error, offer.Fails error) ∧
      ∃ ordered, SettingsOffer.Ranked offers ordered ∧
        (∀ other, SettingsOffer.Ranked offers other → other = ordered) ∧
        settings.Layered ordered (settings.loadAll offers)) ∧
    (∀ (settings : PartialSettings) (offers other : List SettingsOffer), other.Perm offers →
      (offers.map (·.priority)).Nodup → settings.loadAll other = settings.loadAll offers) ∧
    ∀ (disk : Disk) (environment : Environment) (path : Path) (family : String)
      (overrides : PartialSettings) (settings : Settings),
      loadWithFile disk environment path family overrides = .ok settings →
      ∃ file vars, disk.readConfig path = .ok file ∧
        PartialSettings.ofEnvironment environment family = .ok vars ∧
        ∀ setting, settings.get setting = (overrides.get setting).or
          ((vars.get setting).or ((file.get setting).or (({} : Settings).get setting))) := by
  refine ⟨fun settings offers => ⟨exists_loadAll_eq_error_iff settings offers, ?_⟩, ?_, ?_⟩
  · have ranked := SettingsOffer.ranked_sorted offers
    exact ⟨_, ranked, fun other ranked' => ranked.unique ranked', settings.layered_loadAll ranked⟩
  · intro settings offers other perm apart
    have ranked := (SettingsOffer.ranked_sorted offers).of_perm perm apart
    rw [loadAll_eq, loadAll_eq, ranked.unique (SettingsOffer.ranked_sorted other)]
  · intro disk environment path family overrides settings h
    exact exists_of_loadWithFile h

def layeredText : String := "parallel = false\nworker_threads = 3\nmax_depth = 7\n"

/-- A disk with a configuration file. -/
def layeredDisk : Disk where
  root := .directory [("c.toml", .file layeredText.toUTF8.toList)]
  workingDirectory := ⟨"/"⟩

/-- Variables that contradict the file. -/
def layeredEnvironment : Environment where
  entries := [("A_PARALLEL", "yes"), ("A_WORKER_THREADS", "5")]

theorem find_layeredDisk :
    layeredDisk.find ⟨"/c.toml"⟩ = .ok (.file layeredText.toUTF8.toList) :=
  Disk.find_of_under ["c.toml"] rfl (by decide) rfl

theorem readConfig_layeredDisk : layeredDisk.readConfig ⟨"/c.toml"⟩ =
    .ok { parallel := some false, workerThreads := some 3, maxDepth := some 7 } := by
  have text : layeredDisk.readText ⟨"/c.toml"⟩ = .ok layeredText := by
    have decoded : Bytes.utf8? layeredText.toUTF8.toList = some layeredText := by decide +kernel
    have read : layeredDisk.read ⟨"/c.toml"⟩ = .ok layeredText.toUTF8.toList := by
      rw [Disk.read, find_layeredDisk]
      rfl
    rw [Disk.readText, read]
    dsimp only [bind, Except.bind]
    rw [decoded]
  have there : layeredDisk.exists? ⟨"/c.toml"⟩ = true := by
    rw [Disk.exists?, find_layeredDisk]
    rfl
  rw [Disk.readConfig, there, text]
  apply eq_ok_of_toOption
  decide +kernel

theorem loadWithFile_layeredDisk :
    loadWithFile layeredDisk layeredEnvironment ⟨"/c.toml"⟩ "A" { workerThreads := some 9 } =
      .ok { parallel := true, workerThreads := some 9, maxDepth := some 7 } := by
  have there : layeredDisk.isFile ⟨"/c.toml"⟩ = true := by
    rw [Disk.isFile, find_layeredDisk]
    rfl
  have loaded : ((SettingsSource.ofFile ⟨"/c.toml"⟩).offer layeredDisk layeredEnvironment).loaded =
      .ok { parallel := some false, workerThreads := some 3, maxDepth := some 7 } := by
    show (if layeredDisk.isFile ⟨"/c.toml"⟩ then layeredDisk.readConfig ⟨"/c.toml"⟩ else _) = _
    rw [there, if_pos rfl, readConfig_layeredDisk]
  rw [loadWithFile, PartialSettings.addFile, loaded]
  rfl

/-- Two offers in either order; and overrides over variables over a file, each of which has the last
word on one setting. -/
theorem layered_layeredDisk :
    let low : SettingsOffer :=
      { priority := 10, available := true, loaded := .ok { parallel := some false } }
    let high : SettingsOffer :=
      { priority := 20, available := true, loaded := .ok { parallel := some true } }
    let overrides : PartialSettings := { workerThreads := some 9 }
    ([high, low].Perm [low, high] ∧ ([low, high].map (·.priority)).Nodup ∧
      PartialSettings.loadAll {} [high, low] = PartialSettings.loadAll {} [low, high]) ∧
    ∃ settings file vars,
      loadWithFile layeredDisk layeredEnvironment ⟨"/c.toml"⟩ "A" overrides = .ok settings ∧
      layeredDisk.readConfig ⟨"/c.toml"⟩ = .ok file ∧
      PartialSettings.ofEnvironment layeredEnvironment "A" = .ok vars ∧
      settings.get .workerThreads = overrides.get .workerThreads ∧
      settings.get .parallel = vars.get .parallel ∧
      settings.get .maxDepth = file.get .maxDepth ∧ settings.get .followLinks = some false := by
  intro low high overrides
  obtain ⟨_, order, withFile⟩ := layered
  have swapped : [high, low].Perm [low, high] := List.Perm.swap low high []
  have apart : ([low, high].map (·.priority)).Nodup := by decide
  refine ⟨⟨swapped, apart, order {} _ _ swapped apart⟩, ?_⟩
  obtain ⟨file, vars, read, given, layers⟩ := withFile _ _ _ _ _ _ loadWithFile_layeredDisk
  obtain rfl := Except.ok.inj (readConfig_layeredDisk.symm.trans read)
  have set : PartialSettings.ofEnvironment layeredEnvironment "A" =
      .ok { parallel := some true, workerThreads := some 5 } := by
    apply eq_ok_of_toOption
    decide +kernel
  obtain rfl := Except.ok.inj (set.symm.trans given)
  exact ⟨_, _, _, loadWithFile_layeredDisk, read, given, layers .workerThreads, layers .parallel,
    layers .maxDepth, layers .followLinks⟩

end Settings

end ClassAtlas
