import ClassAtlas.ImportError

/-!
# Settings

The settings of an import, and layers of settings that each leave some open. A later layer
overrides an earlier one field by field; what no layer sets has its default.
-/

namespace ClassAtlas

structure Settings where
  /-- Explicit roots. None means those of the environment. -/
  classpath : List Path := []
  /-- The root of the module store. If unset, that of the environment. -/
  javaHome : Option Path := none
  /-- Patterns of location URIs that are left out. -/
  excludePatterns : List String := []
  excludeTests : Bool := false
  excludePackageInfos : Bool := false
  parallel : Bool := true
  /-- The number of workers. If unset, that of the cores. -/
  workerThreads : Option Nat := none
  followLinks : Bool := false
  maxDepth : Option Nat := none
  deriving Repr, DecidableEq, Inhabited

/-- The number of workers that are used. It is open when the number of cores decides. -/
def Settings.effectiveWorkers? (settings : Settings) : Option Nat :=
  if settings.parallel then settings.workerThreads.map (max 1) else some 1

/-- A layer of settings. -/
structure PartialSettings where
  classpath : Option (List Path) := none
  javaHome : Option Path := none
  excludePatterns : Option (List String) := none
  excludeTests : Option Bool := none
  excludePackageInfos : Option Bool := none
  parallel : Option Bool := none
  workerThreads : Option Nat := none
  followLinks : Option Bool := none
  maxDepth : Option Nat := none
  deriving Repr, DecidableEq, Inhabited

namespace PartialSettings

/-- The settings of `layer` over those of `base`. -/
def merge (base layer : PartialSettings) : PartialSettings :=
  { classpath := layer.classpath.or base.classpath
    javaHome := layer.javaHome.or base.javaHome
    excludePatterns := layer.excludePatterns.or base.excludePatterns
    excludeTests := layer.excludeTests.or base.excludeTests
    excludePackageInfos := layer.excludePackageInfos.or base.excludePackageInfos
    parallel := layer.parallel.or base.parallel
    workerThreads := layer.workerThreads.or base.workerThreads
    followLinks := layer.followLinks.or base.followLinks
    maxDepth := layer.maxDepth.or base.maxDepth }

/-- The settings with defaults for what is open. -/
def complete (layer : PartialSettings) : Settings :=
  let defaults : Settings := {}
  { classpath := layer.classpath.getD defaults.classpath
    javaHome := layer.javaHome.or defaults.javaHome
    excludePatterns := layer.excludePatterns.getD defaults.excludePatterns
    excludeTests := layer.excludeTests.getD defaults.excludeTests
    excludePackageInfos := layer.excludePackageInfos.getD defaults.excludePackageInfos
    parallel := layer.parallel.getD defaults.parallel
    workerThreads := layer.workerThreads.or defaults.workerThreads
    followLinks := layer.followLinks.getD defaults.followLinks
    maxDepth := layer.maxDepth.or defaults.maxDepth }

end PartialSettings

end ClassAtlas
